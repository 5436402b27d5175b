import Pushpin.WebSocket.ReceiveRuns

namespace PushpinWebSocket
open PushpinRingBuffer
variable {ε δ : Type}

instance (f : WireFrame) : Decidable f.Sized := inferInstanceAs (Decidable (_ ∧ _))

def Outline.all (o : Outline) : List WholeMessage := o.messages ++ o.current.toList

/-- What was gathered is a front of the messages: whole messages, and a front of
    the next one. -/
def InOrder (g : Gathered) (o : Outline) : Prop :=
  g.messages <+: o.messages ∧
    ∀ m, g.current = some m →
      ∃ m', o.all[g.messages.length]? = some m' ∧ m'.opcode = m.opcode ∧ m.payload <+: m'.payload

variable {o : Outline}

theorem outline_rule (P : Outline → Prop) (keeps : ∀ o f, P o → P (o.frame f))
    (frames : List WireFrame) (start : P o) : P (frames.foldl Outline.frame o) := by
  induction frames generalizing o with
  | nil => exact start
  | cons f frames ih => exact ih (keeps o f start)

theorem frame_cases (o : Outline) (f : WireFrame) :
    (o.frame f).messages = o.messages ∧ (o.frame f).current = o.current ∧
        (o.frame f).stop ≠ none ∧ ((o.frame f).stop = some .closed → o.stop = some .closed) ∨
      o.stop = none ∧ o.frame f = o.put (o.joined f) f.fin := by
  obtain ⟨messages, current, stop⟩ := o
  cases stop with
  | some reason => simp [Outline.frame]
  | none =>
    cases current with
    | none =>
      simp only [Outline.frame, Outline.begins, Outline.joined]
      split_ifs <;> simp [Outline.rejects]
    | some m =>
      simp only [Outline.frame, Outline.continues, Outline.joined]
      split_ifs <;> simp [Outline.rejects]

theorem frame_grows (o : Outline) (f : WireFrame) :
    o.messages <+: (o.frame f).messages ∧
      ∀ (i : Nat) (m : WholeMessage), o.all[i]? = some m →
        ∃ m', (o.frame f).all[i]? = some m' ∧ m'.opcode = m.opcode ∧ m.payload <+: m'.payload := by
  rcases frame_cases o f with ⟨messages, current, _⟩ | ⟨_, next⟩
  · refine ⟨messages ▸ List.prefix_refl _, fun i m found => ⟨m, ?_, rfl, List.prefix_refl _⟩⟩
    simp only [Outline.all, messages, current]
    exact found
  · have all : (o.frame f).all = o.messages ++ [o.joined f] := by
      rw [next]
      unfold Outline.put
      split <;> simp [Outline.all]
    constructor
    · rw [next]
      unfold Outline.put
      split
      · exact List.prefix_append _ _
      · exact List.prefix_refl _
    · intro i m found
      rw [all]
      by_cases early : i < o.messages.length
      · refine ⟨m, ?_, rfl, List.prefix_refl _⟩
        rw [List.getElem?_append_left early]
        rwa [Outline.all, List.getElem?_append_left early] at found
      · rw [Outline.all, List.getElem?_append_right (by omega)] at found
        cases current : o.current with
        | none => simp [current] at found
        | some m₀ =>
          rw [current, Option.toList_some] at found
          obtain ⟨here, rfl⟩ : i - o.messages.length = 0 ∧ m₀ = m := by
            revert found
            rcases i - o.messages.length with _ | later <;> intro found
            · exact ⟨rfl, by simpa using found⟩
            · simp at found
          refine ⟨o.joined f, ?_, ?_, ?_⟩
          · rw [List.getElem?_append_right (by omega), here]
            rfl
          · simp [Outline.joined, current]
          · simp [Outline.joined, current]

theorem InOrder.frame {g : Gathered} (order : InOrder g o) (f : WireFrame) :
    InOrder g (o.frame f) := by
  obtain ⟨front, grows⟩ := frame_grows o f
  refine ⟨order.1.trans front, fun m current => ?_⟩
  obtain ⟨m₁, found, kind, part⟩ := order.2 m current
  obtain ⟨m₂, found', kind', part'⟩ := grows _ _ found
  exact ⟨m₂, found', kind'.trans kind, part.trans part'⟩

theorem InOrder.append {g : Gathered} {before : List WireFrame} (order : InOrder g (outline before))
    (after : List WireFrame) : InOrder g (outline (before ++ after)) := by
  rw [outline_append]
  exact outline_rule (InOrder g) (fun _ f order => order.frame f) after order

theorem inOrder_self (o : Outline) : InOrder ⟨o.messages, o.current⟩ o := by
  refine ⟨List.prefix_refl _, fun m current => ⟨m, ?_, rfl, List.prefix_refl _⟩⟩
  simp only at current
  simp [Outline.all, current]

theorem inOrder_gatheredAt {f : WireFrame} (accepts : o.Accepts f) (read : Nat) :
    InOrder (o.gatheredAt f read) (o.frame f) := by
  have all : (o.frame f).all = o.messages ++ [o.joined f] := by
    rw [accepts.next]
    unfold Outline.put
    split <;> simp [Outline.all]
  have front := (frame_grows o f).1
  have here : (o.messages ++ [o.joined f])[o.messages.length]? = some (o.joined f) := by simp
  cases current : o.current with
  | none =>
    refine ⟨by simpa [Outline.gatheredAt, current] using front, fun m part => ?_⟩
    simp only [Outline.gatheredAt, current] at part ⊢
    split at part
    · cases part
    · cases part
      refine ⟨o.joined f, by rw [all]; exact here, by simp [Outline.joined, current], ?_⟩
      simp only [Outline.joined, current]
      exact List.take_prefix _ _
  | some m₀ =>
    refine ⟨by simpa [Outline.gatheredAt, current] using front, fun m part => ?_⟩
    simp only [Outline.gatheredAt, current] at part ⊢
    cases part
    refine ⟨o.joined f, by rw [all]; exact here, by simp [Outline.joined, current], ?_⟩
    simp only [Outline.joined, current]
    exact (List.prefix_append_right_inj _).mpr (List.take_prefix _ _)

variable {frames : List WireFrame} {s : Receiver ε δ}

theorem Receives.inOrder (receives : Receives frames s) :
    ∃ g, gathered s.delivered = some g ∧ InOrder g (outline frames) := by
  cases receives with
  | between before after split _ _ _ _ _ _ _ told =>
    exact ⟨_, told, by rw [split]; exact (inOrder_self _).append after⟩
  | inside before after f read split _ _ _ accepts _ _ _ _ _ told =>
    refine ⟨_, told, ?_⟩
    have order := inOrder_gatheredAt accepts read
    rw [← outline_snoc] at order
    rw [split, show before ++ f :: after = (before ++ [f]) ++ after by simp]
    exact order.append after
  | closed before after split _ _ _ stop told =>
    refine ⟨_, told, ?_⟩
    rw [split, outline_stopped stop]
    exact ⟨List.prefix_refl _, fun m part => by cases part⟩
  | failed before after f e split _ _ _ _ told =>
    exact ⟨_, told, by rw [split]; exact (inOrder_self _).append (f :: after)⟩

theorem outline_closed_iff (frames : List WireFrame) :
    (outline frames).stop = some .closed ↔
    ∃ m ∈ (outline frames).messages, m.opcode = opcodeClose := by
  refine outline_rule (fun o => o.stop = some .closed ↔
    ∃ m ∈ o.messages, m.opcode = opcodeClose) ?_ frames (by simp)
  intro o f same
  rcases frame_cases o f with ⟨messages, _, stopped, closed⟩ | ⟨going, next⟩
  · rw [messages]
    constructor
    · exact fun now => same.mp (closed now)
    · intro found
      have before := same.mpr found
      simp [Outline.frame, before]
  · have none_closed : ¬ ∃ m ∈ o.messages, m.opcode = opcodeClose := by
      rw [← same, going]
      simp
    rw [next]
    unfold Outline.put
    cases f.fin with
    | false => simpa using none_closed
    | true =>
      simp only [if_true]
      constructor
      · intro stopped
        refine ⟨o.joined f, by simp, ?_⟩
        by_contra other
        simp [other] at stopped
      · rintro ⟨m, mem, closes⟩
        rcases List.mem_append.mp mem with old | new
        · exact absurd ⟨m, old, closes⟩ none_closed
        · rw [List.mem_singleton.mp new] at closes
          simp [closes]

theorem outline_closed_current (frames : List WireFrame)
    (closed : (outline frames).stop = some .closed) : (outline frames).current = none := by
  refine outline_rule (fun o => o.stop = some .closed → o.current = none) ?_ frames (by simp) closed
  intro o f before now
  rcases frame_cases o f with ⟨_, current, _, closed⟩ | ⟨_, next⟩
  · rw [current]
    exact before (closed now)
  · rw [next] at now ⊢
    unfold Outline.put at now ⊢
    split at now
    · rename_i final
      rw [if_pos final]
    · cases now

theorem Receives.closed_iff (receives : Receives frames s) :
    (s.protocol.state = .peerClosed ∨ s.protocol.state = .finished) ↔
      ∃ g m, gathered s.delivered = some g ∧ m ∈ g.messages ∧ m.opcode = opcodeClose := by
  have open_ : ∀ {before : List WireFrame} {current : Option WholeMessage},
      s.protocol.receives = true → (outline before).stop ≠ some .closed →
      gathered s.delivered = some ⟨(outline before).messages, current⟩ →
      ((s.protocol.state = .peerClosed ∨ s.protocol.state = .finished) ↔
        ∃ g m, gathered s.delivered = some g ∧ m ∈ g.messages ∧ m.opcode = opcodeClose) := by
    intro before current receiving going told
    constructor
    · rintro (closed | finished)
      · simp [Protocol.receives, closed] at receiving
      · simp [Protocol.receives, finished] at receiving
    · rintro ⟨g, m, told', mem, closes⟩
      rw [told] at told'
      cases told'
      exact absurd ((outline_closed_iff before).mpr ⟨m, mem, closes⟩) going
  cases receives with
  | between before _ _ _ receiving _ going _ _ _ told =>
      exact open_ receiving (by simp [going]) told
  | inside before _ f read _ _ receiving _ accepts _ _ _ _ _ told =>
    obtain ⟨current, same⟩ : ∃ current, (outline before).gatheredAt f read =
        ⟨(outline before).messages, current⟩ := by
      unfold Outline.gatheredAt
      split <;> exact ⟨_, rfl⟩
    rw [same] at told
    exact open_ receiving (by simp [accepts.going]) told
  | closed before _ _ _ state _ stop told =>
    refine ⟨fun _ => ?_, fun _ => state⟩
    obtain ⟨m, mem, closes⟩ := (outline_closed_iff before).mp stop
    exact ⟨_, m, told, mem, closes⟩
  | failed before _ f e _ _ receiving _ stop told =>
    refine open_ receiving ?_ told
    intro closed
    have still : (outline before).frame f = outline before := by simp only [Outline.frame, closed]
    rw [still, closed] at stop
    cases stop

structure Complete (frames : List WireFrame) (s : Receiver ε δ) : Prop where
  told : gathered s.delivered = some ⟨(outline frames).messages, (outline frames).current⟩
  failure : ∀ e, (outline frames).stop = some (.rejected e) ↔ s.failure = some e
  closed : (outline frames).stop = some .closed ↔
    s.protocol.state = .peerClosed ∨ s.protocol.state = .finished

theorem frame_rejected {f : WireFrame} {e : Error} (stop : (o.frame f).stop = some (.rejected e)) :
    (o.frame f).messages = o.messages ∧ (o.frame f).current = o.current := by
  rcases frame_cases o f with ⟨messages, current, _⟩ | ⟨_, next⟩
  · exact ⟨messages, current⟩
  · rw [next] at stop
    unfold Outline.put at stop
    split at stop
    · simp only at stop
      split at stop <;> cases stop
    · cases stop

/-- A receiver that has failed has delivered everything before the frame that it
    failed at. -/
theorem Receives.complete_of_failure (receives : Receives frames s)
    {e : Error} (failed : s.failure = some e) : Complete frames s := by
  have absurd_fine : s.failure ≠ none := by simp [failed]
  cases receives with
  | between _ _ _ _ _ fine _ _ _ _ _ => exact absurd fine absurd_fine
  | inside _ _ _ _ _ _ _ fine _ _ _ _ _ _ _ => exact absurd fine absurd_fine
  | closed _ _ _ _ _ fine _ _ => exact absurd fine absurd_fine
  | failed before after f e' split _ receiving failure stop told =>
    have whole : outline frames = (outline before).frame f := by
      rw [split, show before ++ f :: after = (before ++ [f]) ++ after by simp, ← outline_snoc]
      rw [← outline_snoc] at stop
      exact outline_stopped stop after
    obtain ⟨messages, current⟩ := frame_rejected stop
    refine ⟨by rw [whole, messages, current]; exact told, ?_, ?_⟩
    · intro e
      rw [whole, stop, failure]
      simp
    · rw [whole, stop]
      constructor
      · intro closed
        cases closed
      · rintro (closed | closed) <;> simp [Protocol.receives, closed] at receiving

theorem Receives.complete_of_closed (receives : Receives frames s)
    (closed : s.protocol.receives = false) : Complete frames s := by
  have absurd_open : s.protocol.receives ≠ true := by simp [closed]
  cases receives with
  | between _ _ _ _ receiving _ _ _ _ _ _ => exact absurd receiving absurd_open
  | inside _ _ _ _ _ _ receiving _ _ _ _ _ _ _ _ => exact absurd receiving absurd_open
  | closed before after split _ state fine stop told =>
    have whole : outline frames = outline before := by rw [split, outline_stopped stop]
    refine ⟨by rw [whole, outline_closed_current before stop]; exact told, ?_, ?_⟩
    · intro e
      rw [whole, stop, fine]
      simp
    · rw [whole, stop]
      exact ⟨fun _ => state, fun _ => rfl⟩
  | failed _ _ _ _ _ _ receiving _ _ _ => exact absurd receiving absurd_open

theorem Receives.complete_of_awaits (sized : ∀ f ∈ frames, f.Sized)
    (receives : Receives frames s) (open_ : s.protocol.receives = true) (fine : s.failure = none)
    (arrived : s.coming = []) (awaits : Awaits s.protocol s.rbuf.content) : Complete frames s := by
  cases receives with
  | between before after split _ _ _ going frame _ rest told =>
    simp only [Awaits, frame] at awaits
    rw [arrived, List.append_nil] at rest
    cases after with
    | nil =>
      rw [List.append_nil] at split
      subst split
      refine ⟨told, ?_, ?_⟩
      · intro e
        rw [going, fine]
        simp
      · rw [going]
        constructor
        · intro closed
          cases closed
        · rintro (closed | closed) <;> simp [Protocol.receives, closed] at open_
    | cons f later =>
      have header := f.readHeader_bytes (sized f (by rw [split]; simp)) (wireBytes later)
      rw [rest, show wireBytes (f :: later) = f.bytes ++ wireBytes later from rfl, header] at awaits
      cases awaits
  | inside before after f read split _ _ _ accepts frame _ part whole rest told =>
    simp only [Awaits, frame] at awaits
    have size := congrArg List.length rest
    rw [arrived, List.append_nil, List.length_append, List.length_drop, masked_length] at size
    split at awaits
    · rename_i control
      have none_read := whole control
      have short : s.rbuf.content.length < f.payload.length := awaits
      omega
    · rw [awaits, List.length_nil] at size
      omega
  | closed _ _ _ _ state _ _ _ =>
      rcases state with closed | closed <;> simp [Protocol.receives, closed] at open_
  | failed _ _ _ _ _ _ _ failure _ _ =>
    rw [fine] at failure
    cases failure

variable {dest : Nat}

theorem tryRecv_receives (dec : Decoder δ) (sized : ∀ f ∈ frames, f.Sized)
    (plain : (outline frames).stop ≠ some .compressed) (receives : Receives frames s)
    (open_ : s.protocol.receives = true) (fine : s.failure = none) (room : 1 ≤ dest)
    (fits : ∀ fi, s.frameAtHand = some fi → isControl fi.opcode = true →
      fi.payloadSize ≤ controlFramePayloadMax → fi.payloadSize ≤ dest) :
    ∃ p r reply, s.protocol.tryRecvMessageContent dec s.rbuf dest = some (p, r, reply) ∧
      Receives frames (s.replied p r reply) ∧ (reply = .wait → Awaits p r.content) := by
  obtain ⟨p, r, reply, called, after⟩ := recv_receives dec sized plain receives open_ fine room fits
  unfold Protocol.tryRecvMessageContent
  rw [Protocol.tryRecvLoop, called]
  simp only [Option.bind_eq_bind, Option.bind_some]
  cases reply with
  | got opcode bytes done => exact ⟨p, r, _, rfl, after.receives, fun absurd => by cases absurd⟩
  | failed e => exact ⟨p, r, _, rfl, after.receives, fun absurd => by cases absurd⟩
  | wait =>
    by_cases flat : r.isReadableContiguous = true
    · exact ⟨p, r, .wait, by simp only [flat]; rfl, after.receives, fun _ => after.awaits rfl flat⟩
    · obtain ⟨a, n, ran, aligned⟩ := RingBuffer.align_spec after.receives.valid
      have ran' : r.align = some (a, n) := ran
      have flat_now : a.isReadableContiguous = true := by
        have bound := aligned.valid.fits
        have start := aligned.flat
        simp only [RingBuffer.isReadableContiguous, decide_eq_true_eq]
        omega
      have again : Receives frames { s.replied p r .wait with rbuf := a } :=
        after.receives.refill aligned.valid (by rw [aligned.same])
      have hand : Receiver.frameAtHand { s.replied p r .wait with rbuf := a } = s.frameAtHand := by
        rw [← after.hand rfl]
        simp only [Receiver.frameAtHand, Receiver.replied,
          show a.content = r.content from aligned.same]
      have still : p.receives = true := by
        simp only [Protocol.receives, after.stays rfl]
        exact open_
      obtain ⟨p₂, r₂, reply₂, called₂, after₂⟩ :=
          recv_receives dec sized plain again still fine room (by
        intro fi at_hand
        rw [hand] at at_hand
        exact fits fi at_hand)
      have called₂' : p.recvMessageContent dec a dest = some (p₂, r₂, reply₂) := called₂
      simp only [if_neg flat, ran', Option.bind_some, Protocol.tryRecvLoop, called₂',
        Option.bind_eq_bind]
      cases reply₂ with
      | got opcode bytes done =>
          exact ⟨p₂, r₂, _, rfl, after₂.receives, fun absurd => by cases absurd⟩
      | failed e => exact ⟨p₂, r₂, _, rfl, after₂.receives, fun absurd => by cases absurd⟩
      | wait =>
        have flat₂ := after₂.flat flat_now
        exact ⟨p₂, r₂,
          .wait, by simp only [flat₂]; rfl, after₂.receives, fun _ => after₂.awaits rfl flat₂⟩

def drainEvents (dest : Nat) : Nat → List ReceiveEvent
  | 0 => []
  | rounds + 1 => .align :: .read dest :: drainEvents dest rounds

theorem roomy_fits (roomy : s.roomy (.read dest) = true) (fi : FrameInfo)
    (at_hand : s.frameAtHand = some fi) (control : isControl fi.opcode = true)
    (small : fi.payloadSize ≤ controlFramePayloadMax) : fi.payloadSize ≤ dest := by
  simp only [Receiver.roomy, Receiver.controlAtHand, at_hand, Option.any_some, control,
    Bool.and_eq_true, Bool.not_true, Bool.false_or, decide_eq_true_eq] at roomy
  omega

section
variable (dec : Decoder δ) (sized : ∀ f ∈ frames, f.Sized)
  (plain : (outline frames).stop ≠ some .compressed) (large : controlFramePayloadMax ≤ dest)
  (receives : Receives frames s) (arrived : s.coming = [])
include dec sized plain large receives arrived

theorem drain_round (open_ : s.protocol.receives = true)
    (fine : s.failure = none) :
    ∃ s₁ s₂, s.step dec .align = some s₁ ∧ s₁.roomy (.read dest) = true ∧
      s₁.step dec (.read dest) = some s₂ ∧ Receives frames s₂ ∧ s₂.coming = [] ∧
      (Complete frames s₂ ∨ s₂.rbuf.content.length < s.rbuf.content.length) := by
  have one : 1 ≤ dest := Nat.le_trans (by decide) large
  obtain ⟨a, n, ran, aligned⟩ := RingBuffer.align_spec receives.valid
  have flat : a.isReadableContiguous = true := by
    have bound := aligned.valid.fits
    have start := aligned.flat
    simp only [RingBuffer.isReadableContiguous, decide_eq_true_eq]
    omega
  have aligned_receives : Receives frames { s with rbuf := a } :=
    receives.refill aligned.valid (by rw [aligned.same])
  have roomy : Receiver.roomy { s with rbuf := a } (.read dest) = true := by
    simp [Receiver.roomy, Receiver.possible, open_, fine, one, large]
  obtain ⟨p, r, reply, called, after⟩ :=
    recv_receives dec sized plain aligned_receives open_ fine one (roomy_fits roomy)
  have called' : s.protocol.recvMessageContent dec a dest = some (p, r, reply) := called
  refine ⟨_, Receiver.replied { s with rbuf := a } p r reply, ?_, roomy, ?_, after.receives, ?_, ?_⟩
  · simp only [Receiver.step, ran, Option.bind_eq_bind, Option.bind_some]
    rfl
  · simp only [Receiver.step, called', Option.bind_eq_bind, Option.bind_some]
    rfl
  · cases reply <;> exact arrived
  · cases reply with
    | wait =>
      left
      have still : p.receives = true := by
        simp only [Protocol.receives, after.stays rfl]
        exact open_
      exact after.receives.complete_of_awaits sized still fine arrived
        (after.awaits rfl (after.flat flat))
    | failed e => exact .inl (after.receives.complete_of_failure rfl)
    | got opcode bytes done =>
      right
      have shorter := after.progress (by simp)
      rw [show Receiver.rbuf { s with rbuf := a } = a from rfl, aligned.same] at shorter
      exact shorter

theorem drains :
    ∃ rounds s', Runs.along (Receiver.step dec) Receiver.roomy s (drainEvents dest rounds) = true ∧
      Runs.run (Receiver.step dec) s (drainEvents dest rounds) = some s' ∧ Complete frames s' := by
  induction size : s.rbuf.content.length using Nat.strong_induction_on generalizing s with
  | _ size ih =>
    subst size
    by_cases going : s.failure = none ∧ s.protocol.receives = true
    · obtain ⟨s₁, s₂, align, roomy, read, receives₂, arrived₂, done⟩ :=
        drain_round dec sized plain large receives arrived going.2 going.1
      have both : ∀ events, Runs.along (Receiver.step dec) Receiver.roomy s₂ events = true →
          Runs.along (Receiver.step dec) Receiver.roomy s (.align :: .read dest :: events) =
            true := by
        intro events along
        simp only [Runs.along, align, roomy, read, along]
        rfl
      rcases done with complete | shorter
      · exact ⟨1, s₂, both
          [] rfl, by simp only [drainEvents, Runs.run, align, read, Option.bind_some], complete⟩
      · obtain ⟨rounds, s', along, ran, complete⟩ := ih _ shorter receives₂ arrived₂ rfl
        exact ⟨rounds + 1, s',
          both _ along, by simp only [drainEvents, Runs.run, align, read, Option.bind_some, ran],
          complete⟩
    · refine ⟨0, s, rfl, rfl, ?_⟩
      cases failure : s.failure with
      | some e => exact receives.complete_of_failure failure
      | none =>
          exact receives.complete_of_closed (Bool.eq_false_iff.mpr fun open_ =>
            going ⟨failure, open_⟩)

end

/-- Messages arrive as they were sent, however they are cut into frames, portions
    and destinations. A call on bytes that wrap around the end of the buffer may
    wait for their alignment, any other only for more bytes. -/
theorem split_messages_are_received (dec : Decoder δ) (frames : List WireFrame)
    (sized : ∀ f ∈ frames, f.Sized) (plain : (outline frames).stop ≠ some .compressed)
    (p : Protocol ε δ) (open_ : p.receives = true)
    (no_frame : p.receivingFrame = none) (no_message : p.receivingMessage = none) (r : RingBuffer)
    (valid : r.Valid)
    (coming : List Byte) (stream : r.content ++ coming = wireBytes frames)
    (events : List ReceiveEvent)
    (roomy : Runs.along (Receiver.step dec) Receiver.roomy (.start p r coming) events = true) :
    ∃ s, Runs.run (Receiver.step dec) (.start p r coming) events = some s ∧
      (∃ g, gathered s.delivered = some g ∧ InOrder g (outline frames)) ∧
      (∀ e, s.failure = some e → Complete frames s) ∧
      ((s.protocol.state = .peerClosed ∨ s.protocol.state = .finished) ↔
        ∃ g m, gathered s.delivered = some g ∧ m ∈ g.messages ∧ m.opcode = opcodeClose) ∧
      (∀ dest p' r', s.roomy (.read dest) = true →
        (s.protocol.recvMessageContent dec s.rbuf dest = some (p', r', .wait) →
          r'.isReadableContiguous = true → Awaits p' r'.content) ∧
        (s.protocol.tryRecvMessageContent dec s.rbuf dest = some (p', r', .wait) →
        Awaits p' r'.content)) ∧
      (s.coming = [] → ∀ dest, controlFramePayloadMax ≤ dest →
        ∃ rounds s', Runs.along (Receiver.step dec) Receiver.roomy s (drainEvents dest rounds) =
          true ∧
          Runs.run (Receiver.step dec) s (drainEvents dest rounds) = some s' ∧ Complete frames s') ∧
      (∀ messages : List SplitMessage, (∀ m ∈ messages, m.Proper) →
        (∀ m ∈ messages.dropLast, m.opcode ≠ opcodeClose) →
        frames = messages.flatMap SplitMessage.frames →
        (outline frames).messages = messages.map SplitMessage.whole ∧
        (outline frames).current = none) := by
  have started : Receives frames (Receiver.start p r coming) := by
    refine .between [] frames rfl valid open_ rfl rfl no_frame ?_ stream rfl
    simp only [Receiver.start, no_message]
    rfl
  obtain ⟨s, ran, receives⟩ := Runs.run_rule (Receives frames) (by
    intro s event receives roomy
    refine step_receives dec sized plain receives (Bool.and_eq_true_iff.mp roomy).1 ?_
    rintro dest rfl
    exact roomy_fits roomy) events started roomy
  refine ⟨s, ran, receives.inOrder, fun e failed => receives.complete_of_failure failed,
    receives.closed_iff, ?_,
    fun arrived dest large => drains dec sized plain large receives arrived, ?_⟩
  · intro dest p' r' roomy
    have can := (Bool.and_eq_true_iff.mp roomy).1
    simp only [Receiver.possible, Bool.and_eq_true, Option.isNone_iff_eq_none,
      decide_eq_true_eq] at can
    obtain ⟨⟨open_, fine⟩, room⟩ := can
    constructor
    · intro waits flat
      obtain ⟨_, _, _, called, after⟩ :=
        recv_receives dec sized plain receives open_ fine room (roomy_fits roomy)
      rw [waits] at called
      cases called
      exact after.awaits rfl flat
    · intro waits
      obtain ⟨_, _, _, called, _, awaits⟩ :=
        tryRecv_receives dec sized plain receives open_ fine room (roomy_fits roomy)
      rw [waits] at called
      cases called
      exact awaits rfl
  · rintro messages proper closes rfl
    exact outline_of_messages messages proper closes

def noDecoder : Decoder Unit := ⟨fun st _ _ _ => (st, .error .unexpectedEof)⟩

def connectedSession : Protocol Unit Unit := ⟨.connected, none, none, none, none, none⟩

def emptyRing (size : Nat) : RingBuffer := ⟨List.replicate size 0, 0, 0, List.replicate size 0⟩

def greetingFrames : List WireFrame :=
  [⟨⟨false, false, opcodeText, [104, 105]⟩, some ⟨1, 2, 3, 4⟩⟩,
    ⟨⟨true, false, opcodeContinuation, [33]⟩, none⟩, ⟨⟨true, false, 9, [97, 98]⟩, none⟩]

def greetingReads : List ReceiveEvent :=
  [.arrive 1, .read 1, .arrive 6, .read 1, .read 1, .arrive 3, .read 1, .closeSent, .read 7,
    .arrive 3, .read 125, .arrive 2, .read 125, .align, .read 125]

theorem greeting_is_received :
    ∃ s, Runs.run (Receiver.step noDecoder)
        (.start connectedSession (emptyRing 8) (wireBytes greetingFrames)) greetingReads = some s ∧
      ∃ g, gathered s.delivered = some g ∧ InOrder g (outline greetingFrames) := by
  have valid : (emptyRing 8).Valid := ⟨by decide, by decide, by decide, by decide⟩
  obtain ⟨s, ran, order, _⟩ :=
    split_messages_are_received noDecoder greetingFrames (by decide) (by decide)
      connectedSession rfl rfl rfl (emptyRing 8) valid (wireBytes greetingFrames) rfl greetingReads
        (by decide +kernel)
  exact ⟨s, ran, order⟩

/-- The payload of the second ping lies around the end of the ring. All of it is
    there, and the call still waits. -/
theorem wrapped_ping_waits :
    ∃ s p r, Runs.along (Receiver.step noDecoder) Receiver.roomy
        (.start connectedSession (emptyRing 5)
          (wireBytes [⟨⟨true, false, 9, []⟩, none⟩, ⟨⟨true, false, 9, [97, 98]⟩, none⟩]))
        [.arrive 5, .read 125, .arrive 1] = true ∧
      Runs.run (Receiver.step noDecoder)
        (.start connectedSession (emptyRing 5)
          (wireBytes [⟨⟨true, false, 9, []⟩, none⟩, ⟨⟨true, false, 9, [97, 98]⟩, none⟩]))
        [.arrive 5, .read 125, .arrive 1] = some s ∧
      s.coming = [] ∧ s.roomy (.read 125) = true ∧ s.delivered = [⟨9, [], true⟩] ∧
      s.protocol.recvMessageContent noDecoder s.rbuf 125 = some (p, r, .wait) ∧
        r.content = [97, 98] := by
  refine ⟨_, _, _, by decide +kernel, rfl, ?_, ?_, ?_, rfl, ?_⟩
  · decide +kernel
  · decide +kernel
  · decide +kernel
  · decide +kernel

end PushpinWebSocket
