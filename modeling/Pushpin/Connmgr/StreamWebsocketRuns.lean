import Pushpin.Connmgr.StreamWebsocket

namespace PushpinStreamWebsocket
open PushpinRingBuffer PushpinVectored PushpinWebSocket PushpinMessageTracker PushpinBudget
open PushpinHttp (writeAll writeAll_spec)
variable {ε δ : Type}

def Roomy (budget : BufferBudget) (wbuf : RingBuffer) : Prop :=
  ∃ max, budget.blocksMax = some max ∧
    wbuf.capacity + (max - budget.blocksUsed) * budget.blockSize ≤ wbuf.tmp.length

structure Holds (s : Stream ε δ) (q : Messages) : Prop where
  mirrors : Mirrors s.tracker q
  valid : s.wbuf.Valid
  content : s.wbuf.content = q.elements
  roomy : Roomy s.budget s.wbuf
  sending : ∀ msg, s.protocol.sendingMessage = some msg →
    (∃ held items, q.items = (msg.opcode, held) :: items) ∧
      (msg.encOutputEnd = true → msg.endLen.isSome = true)
  promised : ∀ avail done, s.sendContent = some (avail, done) →
    s.protocol.sendingMessage.isSome = true ∧
    ∃ tag held items, q.items = (tag, held) :: items ∧ avail ≤ held.length ∧
      (done = true → avail = held.length ∧ (items = [] → q.growing = false))

/-- The invariant does not look at what concerns the handler's session. -/
theorem Holds.frame {s s' : Stream ε δ} {q : Messages} (holds : Holds s q)
    (protocol : s'.protocol.sendingMessage = s.protocol.sendingMessage) (wbuf : s'.wbuf = s.wbuf)
    (tracker : s'.tracker = s.tracker) (sendContent : s'.sendContent = s.sendContent)
    (budget : s'.budget = s.budget) : Holds s' q := by
  constructor
  · rw [tracker]
    exact holds.mirrors
  · rw [wbuf]
    exact holds.valid
  · rw [wbuf]
    exact holds.content
  · rw [wbuf, budget]
    exact holds.roomy
  · rw [protocol]
    exact holds.sending
  · rw [protocol, sendContent]
    exact holds.promised

def Follows (q : Messages) (after : Stream ε δ × Notes) : Prop :=
  ∃ q', TaggedQueue.Transitions q after.2 q' ∧ Holds after.1 q'

theorem aborts_ends {α : Type} {x : Option α} {post : α → Prop} (good : ∀ a, x = some a → post a) :
    (aborts x).Ends post := by
  cases x with
  | none => exact trivial
  | some a => exact good a rfl

theorem aborts_bind {α β : Type} {x : Option α} {f : α → Outcome Exit β} {goal : β → Prop}
    (rest : ∀ a, x = some a → (f a).Ends goal) : (aborts x >>= f).Ends goal :=
  (aborts_ends fun _ same => same).bind rest

theorem asserts_bind {α β : Type} {x : Option α} {a : α} (same : x = some a) {f : α →
    Outcome Exit β} {goal : β → Prop} (rest : (f a).Ends goal) : (asserts x >>= f).Ends goal := by
  rw [same]
  exact rest

theorem put_first {q : Messages} {tag : Byte} {held : List Byte} {items : List (Byte × List Byte)}
    (first : q.items = (tag, held) :: items) (opcode : Byte) (body : List Byte) (more : Bool) :
    ∃ held' items', (q.put opcode body more).items = (tag, held') :: items' ∧
      held.length ≤ held'.length ∧
      ((items = [] → q.growing = false) → held' = held ∧
      (items' = [] → (q.put opcode body more).growing = false)) := by
  by_cases grows : q.growing = true
  · rw [TaggedQueue.put_items grows, first]
    cases items with
    | nil =>
      refine ⟨held ++ body, [], rfl, by rw [List.length_append]; omega, fun closed => ?_⟩
      rw [closed rfl] at grows
      cases grows
    | cons next items =>
      exact ⟨held, TaggedQueue.growLast body (next :: items), rfl, Nat.le_refl _,
        fun _ => ⟨rfl,
          fun none => absurd none (TaggedQueue.growLast_ne_nil (List.cons_ne_nil _ _))⟩⟩
  · have added : (q.put opcode body more).items = (tag, held) :: (items ++ [(opcode, body)]) := by
      rw [TaggedQueue.put_items_closed grows, first]
      rfl
    exact ⟨held, items ++ [(opcode, body)], added, Nat.le_refl _, fun _ =>
      ⟨rfl, fun none => by simp at none⟩⟩

theorem storeBufs_tmp (r : RingBuffer) (others : List (List Byte)) :
    (r.storeBufs others).tmp = r.tmp := by
  unfold RingBuffer.storeBufs
  split <;> rfl

theorem stored_back {r : RingBuffer} (valid : r.Valid) {bufs view : List (List Byte)}
    (slices : r.readBufs bufferBufsMax = some bufs) {avail count : Nat}
    (sizes : view.map List.length = (limit bufs avail).map List.length)
    (kept : view.flatten.drop count = (limit bufs avail).flatten.drop count)
    (reads : count ≤ (limit bufs avail).flatten.length) :
    (r.storeBufs (storeAt bufs 0 view)).Valid ∧
      (r.storeBufs (storeAt bufs 0 view)).content.drop count = r.content.drop count ∧
      (r.storeBufs (storeAt bufs 0 view)).len = r.len ∧
      (r.storeBufs (storeAt bufs 0 view)).capacity = r.capacity := by
  obtain ⟨bufs', same, bytes, -⟩ :=
    RingBuffer.readBufs_spec valid bufferBufsMax (Or.inl (Nat.le_refl _))
  rw [slices] at same
  cases same
  have begins : (limit bufs avail).flatten <+: bufs.flatten := by
    rw [limit_flatten]
    exact List.take_prefix _ _
  have length : view.flatten.length = (limit bufs avail).flatten.length := by
    rw [List.length_flatten, List.length_flatten, sizes]
  obtain ⟨shape, rest⟩ := storeAt_front begins length reads kept
  have stored := RingBuffer.storeBufs_spec valid slices shape
  refine ⟨stored.valid, ?_, ?_, stored.room⟩
  · rw [stored.content, rest, bytes]
  · rw [← RingBuffer.content_length stored.valid, stored.content, ← RingBuffer.content_length valid,
      ← bytes, List.length_flatten, List.length_flatten, shape]

namespace Stream
variable {parts : Parts ε δ} {s : Stream ε δ} {q : Messages}

section
variable (holds : Holds s q)
include holds

theorem sendMessageStart_ends {mtype : Byte} {held : List Byte}
    {items : List (Byte × List Byte)} (first : q.items = (mtype, held) :: items) :
    (sendMessageStart s.protocol mtype).Ends fun p => p.sendingMessage.isSome = true ∧
      ∀ msg, p.sendingMessage = some msg →
        (∃ held items, q.items = (msg.opcode, held) :: items) ∧
          (msg.encOutputEnd = true → msg.endLen.isSome = true) := by
  unfold sendMessageStart
  split
  · rename_i going
    exact ⟨going, holds.sending⟩
  · refine aborts_ends fun p started => ?_
    unfold Protocol.sendMessageStart at started
    split at started <;> cases started
    refine ⟨rfl, fun msg same => ?_⟩
    cases same
    exact ⟨⟨held, items, first⟩, fun set => by cases set⟩

theorem beginContent_ends : s.beginContent.Ends fun s' => Holds s' q := by
  unfold beginContent
  rcases holds.mirrors.current with ⟨-, empty⟩ | ⟨mtype, held, items, done, first, now, whole⟩
  · rw [empty]
    exact holds
  · rw [now]
    refine (sendMessageStart_ends holds first).bind fun p good => ?_
    obtain ⟨some_message, sending⟩ := good
    refine ⟨holds.mirrors, holds.valid, holds.content, holds.roomy, sending, ?_⟩
    intro avail done' set
    refine ⟨some_message, ?_⟩
    dsimp only at set
    split at set
    · cases set
      exact ⟨mtype, held, items, first, Nat.le_refl _, fun concluded => ⟨rfl, whole.mp concluded⟩⟩
    · exact (holds.promised avail done' set).2

theorem nextContent_ends : s.nextContent.Ends fun s' => Holds s' q := by
  unfold nextContent
  split
  · exact beginContent_ends holds
  · exact holds

theorem setCheckSend_holds : Holds s.setCheckSend q := by
  unfold setCheckSend
  split
  · exact holds.frame rfl rfl rfl rfl rfl
  · exact holds

theorem turn_ends : s.turn.Ends fun s' => Holds s' q := by
  unfold turn
  split
  · exact trivial
  · split
    · exact nextContent_ends (setCheckSend_holds holds)
    · exact setCheckSend_holds holds

theorem holds_unready {avail : Nat} {done : Bool}
    (set : s.sendContent = some (avail, done)) {p : Protocol ε δ} {msg : SendingMessage}
    (sending : s.protocol.sendingMessage = some msg)
    (same : ∀ msg', p.sendingMessage = some msg' →
      msg'.opcode = msg.opcode ∧ (msg'.encOutputEnd = true → msg'.endLen.isSome = true))
    (some_left : p.sendingMessage.isSome = true) {wbuf : RingBuffer} (valid : wbuf.Valid)
    (content : wbuf.content = s.wbuf.content) (roomy : Roomy s.budget wbuf) (wire : List Byte) :
    Holds { s with protocol := p, wire, wbuf } q := by
  obtain ⟨-, first⟩ := holds.promised avail done set
  refine ⟨holds.mirrors, valid, content.trans holds.content, roomy, ?_, ?_⟩
  · intro msg' eq
    rw [(same msg' eq).1]
    exact ⟨(holds.sending msg sending).1, (same msg' eq).2⟩
  · exact fun avail' done' set' => ⟨some_left, (holds.promised avail' done' set').2⟩

theorem taken_ends {tag : Byte} {held : List Byte}
    {items : List (Byte × List Byte)} (first : q.items = (tag, held) :: items) {size : Nat}
    {concluded : Bool} (within : size ≤ held.length)
    (closes : concluded = true → size = held.length ∧ (items = [] → q.growing = false))
    {t : Stream ε δ}
    (tracker : t.tracker = s.tracker) (valid : t.wbuf.Valid)
    (content : t.wbuf.content = q.elements.drop size)
    (roomy : Roomy t.budget t.wbuf) (unset : t.sendContent = none)
    (left : concluded = t.protocol.sendingMessage.isNone)
    (same : ∀ msg, t.protocol.sendingMessage = some msg →
      msg.opcode = tag ∧ (msg.encOutputEnd = true → msg.endLen.isSome = true)) :
    (t.contentSent size concluded).Ends fun t' => Follows q (t',
    [.take tag (held.take size) concluded]) := by
  have elements : q.elements = held ++ items.flatMap Prod.snd := by
    rw [TaggedQueue.elements, first, List.flatMap_cons]
  have length : (held.take size).length = size := List.length_take_of_le within
  cases concluded with
  | true =>
    obtain ⟨rfl, closed⟩ := closes rfl
    obtain ⟨next, q', consumed, step, items', mirrors⟩ := holds.mirrors.consumed_whole first closed
    rw [List.take_length]
    rw [← tracker] at consumed
    refine asserts_bind consumed ?_
    refine ⟨q', .single step, ?_⟩
    constructor
    · exact mirrors
    · exact valid
    · rw [TaggedQueue.elements, items', content, elements, List.drop_left]
    · exact roomy
    · intro msg eq
      rw [eq] at left
      cases left
    · intro avail done set
      rw [unset] at set
      cases set
  | false =>
    have split : q.items = (tag, held.take size ++ held.drop size) :: items := by
      rw [List.take_append_drop]
      exact first
    obtain ⟨next, q', consumed, step, items', -, mirrors⟩ := holds.mirrors.consumed_part split
    rw [length] at consumed
    rw [← tracker] at consumed
    refine asserts_bind consumed ?_
    refine ⟨q', .single step, ?_⟩
    constructor
    · exact mirrors
    · exact valid
    · rw [TaggedQueue.elements, items', content, elements, List.drop_append_of_le_length within]
      rfl
    · exact roomy
    · intro msg eq
      obtain ⟨opcode, noted⟩ := same msg eq
      exact ⟨⟨_, _, by rw [items', opcode]⟩, noted⟩
    · intro avail done set
      rw [unset] at set
      cases set

end

theorem pollContent_ends (honest : parts.encoder.Honest) (holds : Holds s q) (round : Round) :
    (s.pollContent parts round).Ends fun after => Follows q (after.1, after.2.1) := by
  have idle : Follows q (s, []) := ⟨q, .nil q, holds⟩
  unfold pollContent
  split
  · exact idle
  · rename_i avail done set
    split
    · exact idle
    · obtain ⟨some_message, tag, held, items, first, inside, whole⟩ := holds.promised avail done set
      obtain ⟨msg, sending⟩ := Option.isSome_iff_exists.mp some_message
      obtain ⟨⟨held', items', here⟩, noted⟩ := holds.sending msg sending
      have same_tag : tag = msg.opcode := by
        rw [first] at here
        cases here
        rfl
      refine aborts_bind fun bufs slices => ?_
      obtain ⟨bufs', same, bytes, -⟩ :=
        RingBuffer.readBufs_spec holds.valid bufferBufsMax (Or.inl (Nat.le_refl _))
      rw [slices] at same
      cases same
      refine aborts_bind fun sent ran => ?_
      obtain ⟨p, w, view, result⟩ := sent
      have call := sendMessageContent_spec honest sending noted ran
      obtain ⟨valid, rest, len, cap⟩ :=
        stored_back holds.valid slices call.sizes call.kept call.reads
      have roomy : Roomy s.budget (s.wbuf.storeBufs (storeAt bufs 0 view)) := by
        unfold Roomy
        rw [cap, storeBufs_tmp]
        exact holds.roomy
      rcases result with e | ⟨size, concluded⟩
      · dsimp only
        split
        · have some_left := call.failed _ rfl
          exact ⟨q, .nil q, holds_unready holds set sending call.same some_left valid rest roomy
            w.wire⟩
        · exact trivial
        · rename_i impossible
          cases impossible
      · obtain ⟨over_eq, ended⟩ := call.finished size concluded rfl
        dsimp only
        split
        · rename_i nothing
          obtain ⟨rfl, rfl⟩ := nothing
          have some_left : p.sendingMessage.isSome = true := by
            rw [← Option.not_isNone, ← over_eq]
            rfl
          exact ⟨q, .nil q, holds_unready holds set sending call.same some_left valid rest roomy
            w.wire⟩
        · have most : size ≤ (limit bufs avail).flatten.length := call.reads
          have src : (limit bufs avail).flatten = held.take avail := by
            rw [limit_flatten, bytes, holds.content, TaggedQueue.elements, first, List.flatMap_cons,
              List.take_append_of_le_length inside]
          have within : size ≤ held.length := by
            rw [src, List.length_take] at most
            omega
          have body : (limit bufs avail).flatten.take size = held.take size := by
            rw [src, List.take_take]
            congr 1
            rw [src, List.length_take] at most
            omega
          have note : counted s.protocol (limit bufs avail) size concluded = .take tag
              (held.take size) concluded := by
            rw [counted, sending, body, same_tag]
            rfl
          have shorter : size ≤ (s.wbuf.storeBufs (storeAt bufs 0 view)).len := by
            rw [len, ← RingBuffer.content_length holds.valid, holds.content, TaggedQueue.elements,
              first, List.flatMap_cons, List.length_append]
            exact Nat.le_add_right_of_le within
          obtain ⟨wbuf, committed, valid', queue', tmp', -⟩ :=
            RingBuffer.readCommit_spec valid size shorter
          have content : wbuf.content = q.elements.drop size := by
            rw [← holds.content]
            exact (congrArg Queue.bytes queue').trans rest
          have roomy' : Roomy s.budget wbuf := by
            unfold Roomy at roomy ⊢
            rw [tmp', show wbuf.capacity = _ from congrArg Queue.cap queue']
            exact roomy
          rw [committed]
          have closes : concluded = true → size = held.length ∧
              (items = [] → q.growing = false) := by
            intro finished
            obtain ⟨ended_done, all⟩ := ended finished
            obtain ⟨everything, closed⟩ := whole ended_done
            rw [src, everything, List.take_length] at all
            exact ⟨all, closed⟩
          refine (taken_ends holds first within closes (t := { s with
            protocol := p, wire := w.wire, wbuf, sendContent := none }) rfl valid' content roomy'
              rfl over_eq
            (by rw [same_tag]; exact call.same)).bind fun t' follows => ?_
          rw [note]
          exact follows

theorem trySendMsg_ends (holds : Holds s q) (zreq : Request) (refused : Option Error) :
    (s.trySendMsg zreq refused).Ends fun s' => Holds s' q := by
  unfold trySendMsg
  split
  · exact trivial
  · exact holds.frame rfl rfl rfl rfl rfl

theorem sendChecked_ends (holds : Holds s q) (refused : Option Error) :
    (s.sendChecked parts refused).Ends fun s' => Holds s' q := by
  unfold sendChecked
  dsimp only
  split
  · refine trySendMsg_ends ?_ _ _
    exact holds.frame rfl rfl rfl rfl rfl
  · split
    · exact trivial
    · refine aborts_bind fun got ran => ?_
      obtain ⟨p, rbuf, reply⟩ := got
      have same := tryRecvMessageContent_sending ran
      dsimp only
      split
      · exact holds.frame same rfl rfl rfl rfl
      · exact trivial
      · split
        · exact trivial
        · exact holds.frame same rfl rfl rfl rfl
        · refine trySendMsg_ends ?_ _ _
          exact holds.frame same rfl rfl rfl rfl

theorem received_ends (holds : Holds s q) (arrived : Except ErrorKind (List Byte)) :
    (s.received arrived).Ends fun s' => Holds s' q := by
  unfold received
  split
  · exact trivial
  · split
    · exact trivial
    · refine aborts_bind fun rbuf _ => ?_
      refine aborts_bind fun rbuf _ => ?_
      split
      · exact trivial
      · exact holds.frame rfl rfl rfl rfl rfl

structure Accepted (s t : Stream ε δ) (body : List Byte) : Prop where
  tracker : t.tracker = s.tracker
  protocol : t.protocol = s.protocol
  sendContent : t.sendContent = s.sendContent
  valid : t.wbuf.Valid
  content : t.wbuf.content = s.wbuf.content ++ body
  roomy : Roomy t.budget t.wbuf

theorem Accepted.nothing (holds : Holds s q) : Accepted s s [] :=
  ⟨rfl, rfl, rfl, holds.valid, (List.append_nil _).symm, holds.roomy⟩

variable {t : Stream ε δ} {front body : List Byte}

theorem acceptBody_ends (accepted : Accepted s t front) (body : List Byte) :
    (t.acceptBody body).Ends fun t' => Accepted s t' (front ++ body) := by
  obtain ⟨wbuf, result, written, valid, cap, tmp, -, content⟩ :=
    writeAll_spec body.length accepted.valid body (Nat.le_refl _)
  unfold acceptBody
  rw [written]
  cases result with
  | error kind => exact trivial
  | ok done =>
    refine ⟨accepted.tracker, accepted.protocol, accepted.sendContent, valid, ?_, ?_⟩
    · rw [content rfl, accepted.content, List.append_assoc]
    · have roomy := accepted.roomy
      unfold Roomy at roomy ⊢
      dsimp only
      rw [cap, tmp]
      exact roomy

theorem expandWriteBuffer_ends (accepted : Accepted s t body) (blocks : Nat) :
    (t.expandWriteBuffer blocks).Ends fun t' => Accepted s t' body := by
  obtain ⟨max, bound, room⟩ := accepted.roomy
  unfold expandWriteBuffer
  rcases t.budget.expandBufferIfNeeded_spec blocks accepted.valid with same | ⟨-, allowed, -, grows⟩
  · rw [same]
    exact { accepted with roomy := ⟨max, bound, room⟩ }
  · have unused : t.budget.blocksUsed < max := by
      rw [BufferBudget.localLimitOk, bound] at allowed
      simpa using allowed
    have split : (max - t.budget.blocksUsed) * t.budget.blockSize =
        (max - (t.budget.blocksUsed + 1)) * t.budget.blockSize + t.budget.blockSize := by
      rw [← Nat.succ_mul]
      congr 1
      omega
    obtain ⟨grown, expanded, valid, queue, tmp⟩ := grows (by omega)
    have cap : grown.capacity = t.wbuf.capacity + t.budget.blockSize := congrArg Queue.cap queue
    rw [expanded]
    refine ⟨accepted.tracker, accepted.protocol, accepted.sendContent, valid, ?_, ⟨max, bound, ?_⟩⟩
    · exact (congrArg Queue.bytes queue).trans accepted.content
    · dsimp only
      rw [cap, tmp]
      omega

section
variable (holds : Holds s q) (accepted : Accepted s t body)
include holds accepted

theorem put_holds {opcode : Byte} {more : Bool}
    {tracker : MessageTracker} (mirrors : Mirrors tracker (q.put opcode body more)) :
    Holds { t with tracker } (q.put opcode body more) := by
  refine ⟨mirrors, accepted.valid, ?_, accepted.roomy, ?_, ?_⟩
  · rw [accepted.content, holds.content, (q.put_spec opcode body more).1]
  · intro msg eq
    rw [accepted.protocol] at eq
    obtain ⟨⟨held, items, first⟩, noted⟩ := holds.sending msg eq
    obtain ⟨held', items', first', -⟩ := put_first first opcode body more
    exact ⟨⟨held', items', first'⟩, noted⟩
  · intro avail done set
    rw [accepted.sendContent] at set
    obtain ⟨some_message, tag, held, items, first, inside, whole⟩ := holds.promised avail done set
    obtain ⟨held', items', first', longer, closed⟩ := put_first first opcode body more
    refine ⟨by rw [accepted.protocol]; exact some_message, tag, held', items', first', by omega, ?_⟩
    intro concluded
    obtain ⟨all, ended⟩ := whole concluded
    obtain ⟨rfl, ended'⟩ := closed ended
    exact ⟨all, ended'⟩

theorem extend_ends (grows : q.growing = true)
    (opcode : Byte) (more : Bool) :
    (t.extend body.length more).Ends fun t' => Follows q (t', [.put opcode body more]) := by
  obtain ⟨next, extended, mirrors⟩ := holds.mirrors.extend grows opcode body more
  rw [← accepted.tracker] at extended
  refine asserts_bind extended ?_
  exact ⟨_, .single (.put q opcode body more), put_holds holds accepted mirrors⟩

theorem track_ends (opcode : Byte) (more : Bool)
    (full : Error) : (t.track opcode body.length more full).Ends fun t' => Follows q (t',
    [.put opcode body more]) := by
  unfold track
  split
  · exact trivial
  · rename_i begun started
    rw [accepted.tracker] at started
    obtain ⟨next, extended, mirrors⟩ := holds.mirrors.start started body more
    refine asserts_bind extended ?_
    exact ⟨_, .single (.put q opcode body more), put_holds holds accepted mirrors⟩

theorem trackData_ends (opcode : Byte)
    (more : Bool) : (t.trackData opcode body.length more).Ends fun t' => Follows q (t',
    [.put opcode body more]) := by
  unfold trackData
  split
  · rename_i going
    have grows : q.growing = true := by
      rw [← holds.mirrors.partly, ← accepted.tracker]
      exact going
    exact extend_ends holds accepted grows opcode more
  · exact track_ends holds accepted opcode more _

end

theorem acceptData_ends (holds : Holds s q) (body : List Byte) (contentType : Option ContentType)
    (more : Bool) (blocks : Nat) : (s.acceptData body contentType more blocks).Ends (Follows q) :=
  (acceptBody_ends (Accepted.nothing holds) body).bind fun _ accepted =>
    (expandWriteBuffer_ends accepted blocks).bind fun _ accepted =>
      (trackData_ends holds accepted _ more).bind fun _ follows => follows

theorem acceptClose_ends (holds : Holds s q) (status : Option (UInt16 × List Byte)) :
    (s.acceptClose status).Ends (Follows q) := by
  refine (acceptBody_ends (Accepted.nothing holds) _).bind fun t accepted => ?_
  refine (acceptBody_ends accepted _).bind fun t accepted => ?_
  have tracked := track_ends holds accepted opcodeClose false .badFrame
  rw [List.nil_append, List.length_append] at tracked
  exact tracked.bind fun _ follows => follows

theorem acceptControl_ends (holds : Holds s q) (opcode : Byte) (body : List Byte) :
    (s.acceptControl opcode body).Ends (Follows q) :=
  (acceptBody_ends (Accepted.nothing holds) body).bind fun _ accepted =>
    (track_ends holds accepted opcode false .badFrame).bind fun _ follows => follows

theorem Follows.then_ {q : Messages} {notes later : Notes} {last : Stream ε δ} {mid : Messages}
    (first : TaggedQueue.Transitions q notes mid) (rest : Follows mid (last, later)) :
    Follows q (last, notes ++ later) := by
  obtain ⟨q', transitions, holds⟩ := rest
  exact ⟨q', first.append transitions, holds⟩

section
variable (honest : parts.encoder.Honest) (holds : Holds s q)
include honest holds

theorem flush_ends (rounds : List Round) : (s.flush parts rounds).Ends (Follows q) := by
  induction rounds generalizing s q with
  | nil => exact ⟨q, .nil q, holds⟩
  | cons round rounds ih =>
    refine (nextContent_ends holds).bind fun t holds => ?_
    dsimp only
    split
    · exact ⟨q, .nil q, holds⟩
    · refine (pollContent_ends honest holds round).bind fun after follows => ?_
      obtain ⟨t', notes, polled⟩ := after
      obtain ⟨q', transitions, holds'⟩ := follows
      dsimp only
      split
      · exact ⟨q', transitions, holds'⟩
      · exact (ih holds').bind fun last follows => Follows.then_ transitions follows

theorem acceptHandoff_ends (answers : Answers) :
    (s.acceptHandoff parts answers).Ends (Follows q) := by
  refine (flush_ends honest holds answers.rounds).bind fun after follows => ?_
  obtain ⟨q', transitions, holds'⟩ := follows
  dsimp only
  split
  · exact trivial
  · exact ⟨q', transitions, holds'.frame rfl rfl rfl rfl rfl⟩

theorem handlePacket_ends (packet : Packet)
    (answers : Answers) : (s.handlePacket parts packet answers).Ends (Follows q) := by
  have idle : Follows q (s, []) := ⟨q, .nil q, holds⟩
  cases packet with
  | data body contentType more =>
    simp only [handlePacket]
    split
    · exact acceptData_ends holds body contentType more answers.blocks
    · exact idle
  | close status =>
    simp only [handlePacket]
    split
    · exact acceptClose_ends holds status
    · exact idle
  | ping body =>
    simp only [handlePacket]
    split
    · exact acceptControl_ends holds opcodePing body
    · exact idle
  | pong body =>
    simp only [handlePacket]
    split
    · exact acceptControl_ends holds opcodePong body
    · exact idle
  | handoffStart => exact acceptHandoff_ends honest holds answers
  | keepAlive => exact idle
  | credit => exact idle
  | error => exact trivial
  | cancel => exact trivial
  | unexpected => exact trivial

theorem select_ends (event : Event) :
    (s.select parts event).Ends fun after => Follows q (after.1, after.2.1) := by
  have idle : Follows q (s, []) := ⟨q, .nil q, holds⟩
  cases event with
  | checkSend refused =>
    simp only [select]
    split
    · exact (sendChecked_ends holds refused).bind fun t holds => ⟨q, .nil q, holds⟩
    · exact idle
  | addToRecvBuffer arrived =>
    simp only [select]
    split
    · exact (received_ends holds arrived).bind fun t holds => ⟨q, .nil q, holds⟩
    · exact idle
  | sendContent round =>
      exact (pollContent_ends honest holds round).bind fun after follows => follows
  | recvMsg granted packet answers =>
    have granted_holds : Holds { s with credits := s.credits + granted } q :=
      holds.frame rfl rfl rfl rfl rfl
    exact (handlePacket_ends honest granted_holds packet answers).bind fun after follows => follows
  | recvFailed e => exact trivial

theorem step_ends (event : Event) : (s.step parts event).Ends (Follows q) := by
  refine (select_ends honest holds event).bind fun after follows => ?_
  obtain ⟨q', transitions, holds'⟩ := follows
  have resumed : (after.1.resume after.2.2).Ends fun s' => Holds s' q' := by
    unfold resume
    split
    · exact turn_ends holds'
    · exact holds'
  exact resumed.bind fun t holds => ⟨q', transitions, holds⟩

theorem run_ends (events : List Event) : (s.run parts events).Ends (Follows q) := by
  induction events generalizing s q with
  | nil => exact ⟨q, .nil q, holds⟩
  | cons event events ih =>
    refine (step_ends honest holds event).bind fun after follows => ?_
    obtain ⟨q', transitions, holds'⟩ := follows
    exact (ih holds').bind fun last follows => Follows.then_ transitions follows

end

theorem start_ends {buf1 buf2 : RingBuffer} (valid : buf2.Valid) {budget : BufferBudget}
    (roomy : Roomy budget buf2) (messagesMax credits : Nat)
    (deflateState : Option (DeflateState ε δ)) :
    (start buf1 buf2 budget messagesMax credits deflateState).Ends fun s => Holds s .empty := by
  refine turn_ends ?_
  constructor
  · exact Mirrors.new messagesMax
  · exact (RingBuffer.clear_valid valid).1
  · exact (RingBuffer.clear_valid valid).2.1
  · exact roomy
  · intro msg eq
    cases eq
  · intro avail done set
    cases set

end Stream

/-- In every run the tracker mirrors the queue of the messages, whose bytes are
    those of the write buffer, and what the protocol takes is taken from that
    queue: from the first message, under its own type, and to the end of it before
    the next. No assertion of the tracker fails. -/
theorem tracker_mirrors_write_buffer {σ : Type} (d : PushpinDeflate.Deflate σ) (reset : σ → σ)
    (decoder : Decoder δ) (tmpLen : Nat) (buf1 buf2 : RingBuffer) (valid : buf2.Valid)
    (budget : BufferBudget) (roomy : Roomy budget buf2)
    (messagesMax credits : Nat)
    (deflateState : Option (DeflateState (PushpinDeflate.DeflateEncoder σ) δ))
    (events : List Event) :
    let ran := Stream.start buf1 buf2 budget messagesMax credits deflateState >>= fun s =>
      s.run ⟨deflateEncoder d reset, decoder, tmpLen⟩ events
    ran ≠ .panics ∧ ∀ s notes, ran = .returns (s, notes) →
      (s.tracker.items.map MessageItem.avail).sum = s.wbuf.len ∧
      ∃ q : Messages, TaggedQueue.Transitions .empty notes q ∧ s.wbuf.content = q.elements ∧
        s.tracker.items = q.items.map itemOf ∧ s.tracker.lastPartial = q.growing ∧
        TaggedQueue.taken notes ++ TaggedQueue.tagged q.items = TaggedQueue.given none notes := by
  have started :=
    @Stream.start_ends _ δ buf1 buf2 valid budget roomy messagesMax credits deflateState
  have ends := started.bind fun s holds =>
    @Stream.run_ends _ δ ⟨deflateEncoder d reset, decoder, tmpLen⟩ s .empty
      (deflateEncoder_honest d reset) holds events
  refine ⟨ends.spec.1, fun s notes ran => ?_⟩
  obtain ⟨q, transitions, holds⟩ := ends.spec.2 _ ran
  refine ⟨?_, q, transitions, holds.content, holds.mirrors.items, holds.mirrors.partly,
    transitions.conserve⟩
  rw [holds.mirrors.sum, ← holds.content, RingBuffer.content_length holds.valid]

theorem tracker_mirrors_text_and_ping :
    let ring : RingBuffer := ⟨List.replicate 8 0, 0, 0, List.replicate 16 0⟩
    let decoder : Decoder Unit := ⟨fun _ _ _ _ => ((), .ok (0, [], false))⟩
    let answers : Answers := ⟨0, [], .ok 0⟩
    let ran := Stream.start ring ring ⟨some 1, 8, 0⟩ 4 0 none >>= fun s =>
      s.run ⟨deflateEncoder PushpinDeflate.Stored.deflate id, decoder, 8⟩
        [.recvMsg 10 (.data [0x61, 0x62] none true) answers, .sendContent ⟨true, [.accept 3]⟩,
          .recvMsg 0 (.data [0x63] none false) answers, .recvMsg 0 (.ping [0x64]) answers,
          .sendContent ⟨true, [.accept 9]⟩, .sendContent ⟨true, [.accept 9]⟩,
            .sendContent ⟨true, [.accept 9]⟩]
    ran ≠ .panics ∧ ∀ s notes, ran = .returns (s, notes) →
      (s.tracker.items.map MessageItem.avail).sum = s.wbuf.len ∧
      ∃ q : Messages, TaggedQueue.Transitions .empty notes q ∧ s.wbuf.content = q.elements ∧
        s.tracker.items = q.items.map itemOf ∧ s.tracker.lastPartial = q.growing ∧
        TaggedQueue.taken notes ++ TaggedQueue.tagged q.items = TaggedQueue.given none notes :=
  tracker_mirrors_write_buffer PushpinDeflate.Stored.deflate id ⟨fun _ _ _ _ =>
    ((), .ok (0, [], false))⟩ 8
    ⟨List.replicate 8 0, 0, 0, List.replicate 16 0⟩ ⟨List.replicate 8 0, 0, 0, List.replicate 16 0⟩
    ⟨Nat.le_refl _, by decide, Or.inl rfl, by decide⟩ ⟨some 1, 8, 0⟩ ⟨1, rfl, by decide⟩ 4 0 none _

end PushpinStreamWebsocket
