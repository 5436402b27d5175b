import Pushpin.Proxy.SockJsRequests

namespace PushpinSockJs
open PushpinRingBuffer Text Loops Hashes Session
open Option (bind_eq_bind bind_eq_some_iff bind_some)

def Singles (frames : List Frame) : Prop := ∀ f ∈ frames.dropLast, f.more = false

theorem Singles.tail {f : Frame} {frames : List Frame} (singles : Singles (f :: frames)) :
    Singles frames := by
  cases frames with
  | nil => nofun
  | cons g frames => exact fun h mem => singles h (List.mem_cons_of_mem f mem)

theorem singles_concat {frames : List Frame} (all : ∀ f ∈ frames, f.more = false) (f : Frame) :
    Singles (frames ++ [f]) := by
  unfold Singles
  rw [List.dropLast_concat]
  exact all

theorem drain_singles (rounds : Nat) {frames : List Frame} (singles : Singles frames) :
    (∀ message ∈ (drain rounds frames).1, message.length = 1) ∧
    Singles (drain rounds frames).2 := by
  induction rounds generalizing frames with
  | zero => exact ⟨List.forall_mem_nil _, singles⟩
  | succ rounds ih =>
    cases frames with
    | nil => exact ⟨List.forall_mem_nil _, singles⟩
    | cons f frames =>
      have split_ : splitMessage (f :: frames) = none ∨
          splitMessage (f :: frames) = some ([f], frames) := by
        cases frames with
        | nil =>
          unfold splitMessage
          split
          · exact Or.inl rfl
          · exact Or.inr rfl
        | cons g frames =>
          have last := singles f List.mem_cons_self
          exact Or.inr (by rw [splitMessage, if_neg (by simp [last])])
      unfold drain
      rcases split_ with split_ | split_ <;> rw [split_]
      · exact ⟨List.forall_mem_nil _, singles⟩
      · exact ⟨List.forall_mem_cons.mpr ⟨rfl, (ih singles.tail).1⟩, (ih singles.tail).2⟩

theorem drain_left (rounds : Nat) {frames : List Frame} (enough : frames.length ≤ rounds) :
    splitMessage (drain rounds frames).2 = none := by
  induction rounds generalizing frames with
  | zero =>
    rw [List.eq_nil_of_length_eq_zero (Nat.le_zero.mp enough)]
    rfl
  | succ rounds ih =>
    unfold drain
    cases split_ : splitMessage frames with
    | none => exact split_
    | some parts =>
      obtain ⟨whole, rfl⟩ := splitMessage_some split_
      have := List.length_pos_of_ne_nil (whole_ne_nil whole)
      rw [List.length_append] at enough
      exact ih (by omega)

theorem drain_whole (rounds : Nat) (frames : List Frame) :
    ∀ message ∈ (drain rounds frames).1, Whole message ∧ ∀ f ∈ message, f ∈ frames := by
  induction rounds generalizing frames with
  | zero => exact List.forall_mem_nil _
  | succ rounds ih =>
    unfold drain
    cases split_ : splitMessage frames with
    | none => exact List.forall_mem_nil _
    | some parts =>
      obtain ⟨whole, rfl⟩ := splitMessage_some split_
      refine List.forall_mem_cons.mpr ⟨⟨whole, fun f mem => List.mem_append_left _ mem⟩, ?_⟩
      intro message mem
      obtain ⟨whole', sub⟩ := ih parts.2 message mem
      exact ⟨whole', fun f mem => List.mem_append_right _ (sub f mem)⟩

theorem sum_ones {messages : List (List Frame)} (ones : ∀ message ∈ messages, message.length = 1) :
    (messages.map List.length).sum = messages.length := by
  induction messages with
  | nil => rfl
  | cons message messages ih =>
    rw [List.forall_mem_cons] at ones
    rw [List.map_cons, List.sum_cons, ones.1, ih ones.2, List.length_cons, Nat.add_comm]

namespace Session
variable {s t : Session} {id : Nat} {ri : RequestItem}

def owed (s : Session) : Nat :=
  match s.paused with
  | .tryWrite frames _ _ :: _ => frames
  | _ => (s.req.bind s.item).elim 0 RequestItem.receiveFrames

structure Told (s : Session) : Prop where
  unread : ∀ id ri, s.item id = some ri → ri.responded = false ∨ ri.type ≠ .receive →
    ri.receiveFrames = 0
  singles : Singles s.outFrames
  nest : s.paused.tail.any Pause.writes = false
  tells : ∀ frames bytes messages, .tryWrite frames bytes messages ∈ s.paused → messages ≠ []
  left : s.writing = true → splitMessage s.outFrames = none
  framed : s.mode = .webSocketFramed → s.pendingWrites.length = s.sockPending

structure Balanced (s : Session) : Prop extends s.Told where
  opens : s.writing = true → s.answerable.isSome = true
  taken : s.mode = .http → s.manager = true → s.pendingWrites.length = s.owed

theorem owed_still (still : s.writing = false) :
    s.owed = (s.req.bind s.item).elim 0 RequestItem.receiveFrames := by
  unfold owed
  split
  · next eq =>
    rw [writing, eq] at still
    cases still
  · rfl

theorem Told.emit (told : s.Told) (output : Output) : (s.emit output).Told := { told with }

theorem Balanced.emit (balanced : s.Balanced) (output : Output) : (s.emit output).Balanced :=
  { balanced with }

theorem Told.modify (told : s.Told) (id : Nat) {f : RequestItem → RequestItem}
    (kept : ∀ ri, s.item id = some ri → (f ri).responded = false ∨ (f ri).type ≠ .receive →
    (f ri).receiveFrames = 0) :
    (s.modify id f).Told := by
  have cases_ : ∀ {k ri}, (s.modify id f).item k = some ri →
      (∃ ri', s.item k = some ri' ∧ k = id ∧ ri = f ri') ∨ s.item k = some ri := by
    intro k ri found
    rw [item_modify] at found
    split at found
    · next same =>
      obtain ⟨ri', found', rfl⟩ := Option.map_eq_some_iff.mp found
      exact Or.inl ⟨ri', found', same, rfl⟩
    · exact Or.inr found
  exact { told with
    unread := fun k ri found open_ => by
      rcases cases_ found with ⟨ri', found', rfl, rfl⟩ | old
      · exact kept ri' found' open_
      · exact told.unread k ri old open_ }

theorem modify_modify (s : Session) (id : Nat) (f g : RequestItem → RequestItem) :
    (s.modify id f).modify id g = s.modify id (g ∘ f) := by
  unfold Session.modify
  rw [Hash.modify_modify]

theorem finishWrite_eq (mine : s.req = some id) (found : s.item id = some ri) (frames bytes : Nat)
    (messages : List (List Byte)) :
    s.finishWrite frames bytes messages = some (
      if messages ≠ [] then
        ((s.modify id fun ri => { ri with
          receiveFrames := frames, receiveBytes := bytes, responded := true }).respond id
            (.a messages) ri.jsonpCallback).stopTimer
      else if s.state = .closing then
        (({ s with closeSent := true } : Session).applyLinger.modify id fun ri => { ri with
          receiveFrames := frames, receiveBytes := bytes, type := .receiveClose, responded :=
            true }).respond id (.c s.closeValue.1 s.closeValue.2) ri.jsonpCallback
      else s.modify id fun ri => { ri with receiveFrames := frames, receiveBytes := bytes }) := by
  refine bind_eq_some_iff.mpr ⟨id, mine, bind_eq_some_iff.mpr ⟨ri, found, ?_⟩⟩
  dsimp only
  split
  · rw [modify_modify]
    rfl
  · split
    · next closing =>
      rw [if_pos (show s.state = .closing from closing)]
      have same : (applyLinger { s.modify id fun ri =>
          { ri with receiveFrames := frames, receiveBytes := bytes } with
          closeSent := true }) =
          ({ s with closeSent := true } : Session).applyLinger.modify id fun ri =>
            { ri with receiveFrames := frames, receiveBytes := bytes } := rfl
      rw [same, modify_modify]
      rfl
    · next open_ =>
      rw [if_neg (show ¬ s.state = .closing from open_)]
      rfl

section
variable (told : s.Told) (still : s.writing = false) (mine : s.req = some id)
  (found : s.item id = some ri)
include told still mine found

theorem Told.settle (owes : s.pendingWrites.length = ri.receiveFrames) : s.Balanced :=
  { told with
    opens := fun busy => absurd (still.symm.trans busy) (by decide)
    taken := fun _ _ => by
      rw [owed_still still, mine]
      show _ = (s.item id).elim 0 _
      rw [found]
      exact owes }

theorem Told.finishWrite (polls : ri.type = .receive) {frames bytes : Nat}
    {messages : List (List Byte)}
    (owes : s.pendingWrites.length = frames) (some_ : messages = [] → frames = 0) :
    ∃ t, s.finishWrite frames bytes messages = some t ∧ t.Balanced := by
  have now : ∀ f : RequestItem → RequestItem, (s.modify id f).item id = some (f ri) := by
    intro f
    rw [item_modify, if_pos rfl, found]
    rfl
  refine ⟨_, finishWrite_eq mine found frames bytes messages, ?_⟩
  split
  · have changed : (s.modify id fun ri => { ri with
        receiveFrames := frames, receiveBytes := bytes, responded := true }).Told := by
      refine told.modify id fun ri' found' => ?_
      rintro (open_ | other)
      · cases open_
      · cases found.symm.trans found'
        exact absurd polls other
    exact { changed.settle still mine (now _) owes with }
  · next none_ =>
    have none_ : messages = [] := by simpa using none_
    split
    · have lingered : (applyLinger { s with closeSent := true }).Told := { told with }
      have changed := Told.modify lingered id (f := fun ri => { ri with
          receiveFrames := frames, receiveBytes := bytes, type := .receiveClose, responded :=
            true })
          fun _ _ _ => some_ none_
      exact { changed.settle still mine (now _) owes with }
    · have changed :
          (s.modify id fun ri => { ri with receiveFrames := frames, receiveBytes := bytes }).Told :=
        told.modify id fun _ _ _ => some_ none_
      exact changed.settle still mine (now _) owes

end

theorem Balanced.tryWrite {lib : Lib} (linked : s.Linked) (balanced : s.Balanced)
    (still : s.writing = false) (http : s.mode = .http) (opened : s.answered = true) :
    ∃ t, s.tryWrite lib = some t ∧ t.Balanced := by
  unfold Session.tryWrite
  split
  · exact ⟨s, rfl, balanced⟩
  · next id mine =>
    split
    · exact ⟨s, rfl, balanced⟩
    · obtain ⟨ri, found, kind⟩ := linked.owned id mine
      simp only [found, bind_eq_bind, bind_some]
      cases waits : ri.responded with
      | true => exact ⟨s, rfl, balanced⟩
      | false =>
        have polls := linked.polls id ri found kind waits opened
        have sub := drain_whole s.outFrames.length s.outFrames
        have ones := drain_singles s.outFrames.length balanced.singles
        have left := drain_left s.outFrames.length (Nat.le_refl s.outFrames.length)
        revert sub ones left
        generalize drain s.outFrames.length s.outFrames = parts
        obtain ⟨messages, rest⟩ := parts
        intro sub ones left
        have texts : ¬ (messages.any fun message => !message.head?.any Frame.isText) = true := by
          intro bad
          obtain ⟨message, mem, bad⟩ := List.any_eq_true.mp bad
          obtain ⟨f, tail, rfl⟩ := List.exists_cons_of_ne_nil (whole_ne_nil (sub message mem).1)
          have text := linked.texts f ((sub _ mem).2 f List.mem_cons_self)
          simp [text] at bad
        simp only [Bool.false_eq_true, if_false, if_neg texts]
        have none_ : s.pendingWrites = [] := by
          have owes := balanced.taken http (linked.there found)
          rw [owed_still still, mine] at owes
          change s.pendingWrites.length = (s.item id).elim 0 _ at owes
          rw [found] at owes
          exact List.eq_nil_of_length_eq_zero
            (owes.trans (balanced.unread id ri found (Or.inl waits)))
        have taken : ({ s with
            outFrames := rest
            pendingWrites := s.pendingWrites ++ messages.map fun message =>
              some (bytesOf message).length } : Session).Told :=
          { balanced with
            singles := ones.2
            left := fun _ => left
            framed := fun framed => absurd (http.symm.trans framed) (by decide) }
        have owes : (s.pendingWrites ++ messages.map fun message =>
            some (bytesOf message).length).length = (messages.map List.length).sum := by
          rw [none_, List.nil_append, List.length_map, sum_ones ones.1]
        split
        · next some_ =>
          refine ⟨_, rfl, ?_⟩
          exact { taken with
            nest := still
            tells := fun frames bytes texts mem => by
              rcases List.mem_cons.mp mem with eq | old
              · cases eq
                rintro none_
                rw [List.map_eq_nil_iff] at none_
                rw [none_] at some_
                exact absurd some_ (by decide)
              · exact balanced.tells frames bytes texts old
            left := fun _ => left
            opens := fun _ => answerable_isSome.mpr ⟨id, ri, mine, found, waits⟩
            taken := fun _ _ => owes }
        · refine taken.finishWrite still mine found polls owes fun none_ => ?_
          rw [List.map_eq_nil_iff.mp none_]
          rfl

theorem owed_congr (req : t.req = s.req) (paused : t.paused = s.paused)
    (items : ∀ k, s.req = some k → t.item k = s.item k) : t.owed = s.owed := by
  have same : t.req.bind t.item = s.req.bind s.item := by
    rw [req]
    cases mine : s.req with
    | none => rfl
    | some k => exact items k mine
  unfold owed
  rw [paused, same]

theorem answerable_congr (req : t.req = s.req) (items : ∀ k, s.req = some k → t.item k = s.item k)
    (can : s.answerable.isSome = true) : t.answerable.isSome = true := by
  obtain ⟨k, ri, mine, found, waits⟩ := answerable_isSome.mp can
  exact answerable_isSome.mpr ⟨k, ri, req.trans mine, (items k mine).trans found, waits⟩

section
variable (linked : s.Linked) (balanced : s.Balanced)
include linked balanced

theorem Balanced.insert (fresh : s.item id = none)
    (unread : ri.receiveFrames = 0) : (s.insert id ri).Balanced := by
  have items : ∀ k, s.req = some k → (s.insert id ri).item k = s.item k := by
    intro k mine
    rw [item_insert, if_neg]
    rintro rfl
    obtain ⟨ri', found, -⟩ := linked.owned k mine
    cases fresh.symm.trans found
  have cases_ : ∀ {k ri'}, (s.insert id ri).item k = some ri' →
      (k = id ∧ ri' = ri) ∨ s.item k = some ri' := by
    intro k ri' found
    rw [item_insert] at found
    split at found
    · next same => exact Or.inl ⟨same, (Option.some.inj found).symm⟩
    · exact Or.inr found
  have same := @owed_congr s (s.insert id ri) rfl rfl items
  exact { balanced with
    unread := fun k ri' found open_ => by
      rcases cases_ found with ⟨-, rfl⟩ | old
      · exact unread
      · exact balanced.unread k ri' old open_
    opens := fun busy => @answerable_congr s (s.insert id ri) rfl items (balanced.opens busy)
    taken := fun http there => (balanced.taken http there).trans same.symm }

theorem Balanced.background (fresh : s.item id = none)
    (jsonpCallback : List Byte) (reply : Reply) : (s.background id jsonpCallback reply).Balanced :=
  (balanced.insert linked fresh rfl).emit _

theorem Balanced.took {f : Frame} {frames : List Frame}
    (found : s.item id = some ri) (sends : ri.type = .send) (waits : ri.responded = false) :
    (s.took id ri f frames).Balanced := by
  have items : ∀ k, s.req = some k → (s.took id ri f frames).item k = s.item k := by
    intro k mine
    rw [item_took, if_neg]
    rintro rfl
    obtain ⟨ri', found', kind⟩ := linked.owned k mine
    cases found.symm.trans found'
    simp [RequestItem.ofReq, sends] at kind
  have same := @owed_congr s (s.took id ri f frames) rfl rfl items
  have changed := @Told.modify s balanced.toTold id (fun ri => { ri with
      sendFrames := frames
      sendBytes := ri.sendBytes - f.data.length
      responded := ri.responded || frames.isEmpty }) fun ri' found' open_ => by
    cases found.symm.trans found'
    exact balanced.unread id ri found (Or.inl waits)
  exact { changed with
    opens := fun busy => @answerable_congr s (s.took id ri f frames) rfl items (balanced.opens busy)
    taken := fun http there => (balanced.taken http there).trans same.symm }

end

theorem Balanced.remove (balanced : s.Balanced) (id : Nat) (free : s.req ≠ some id) :
    (s.removeRequestItem id).Balanced := by
  have items : ∀ k, s.req = some k → (s.removeRequestItem id).item k = s.item k := by
    intro k mine
    rw [item_remove, if_neg]
    rintro rfl
    exact free mine
  have cases_ : ∀ {k ri}, (s.removeRequestItem id).item k = some ri → s.item k = some ri := by
    intro k ri found
    rw [item_remove] at found
    split at found
    · cases found
    · exact found
  have same := @owed_congr s (s.removeRequestItem id) rfl rfl items
  exact { balanced with
    unread := fun k ri found => balanced.unread k ri (cases_ found)
    opens := fun busy => @answerable_congr s (s.removeRequestItem id) rfl items
      (balanced.opens busy)
    taken := fun http there => (balanced.taken http there).trans same.symm }

section
variable (told : s.Told)
include told

theorem Told.removeReq (id : Nat) : ({ s with req := none }.removeRequestItem id).Told := by
  have cases_ : ∀ {k ri}, (Session.removeRequestItem { s with req := none } id).item k = some ri →
      s.item k = some ri := by
    intro k ri found
    rw [item_remove] at found
    split at found
    · cases found
    · exact found
  exact { told with
    unread := fun k ri found => told.unread k ri (cases_ found) }

theorem Told.alone (still : s.writing = false) (alone : s.req = none)
    (none_ : s.pendingWrites = []) : s.Balanced :=
  { told with
    opens := fun busy => absurd (still.symm.trans busy) (by decide)
    taken := fun _ _ => by
      rw [owed_still still, alone, none_]
      rfl }

theorem Told.away (still : s.writing = false) (away : s.manager = false) : s.Balanced :=
  { told with
    opens := fun busy => absurd (still.symm.trans busy) (by decide)
    taken := fun _ there => absurd (away.symm.trans there) (by decide) }

theorem Told.cleaned (state : State) : (Session.cleaned { s with state }).Told :=
  { told with unread := fun _ _ found => by cases found }

theorem Told.over (linked : ∀ id, s.req = some id → (s.item id).isSome = true)
    (still : s.writing = false) :
    ∃ t, ({ s with state := .idle } : Session).cleanup = some t ∧ t.Balanced := by
  refine ⟨_, (cleanup_eq _).trans (if_pos ?_), (told.cleaned .idle).away still rfl⟩
  cases req : s.req with
  | none => rfl
  | some id => exact linked id req

end

theorem Linked.there_ (linked : s.Linked) : ∀ id, s.req = some id → (s.item id).isSome = true := by
  intro id mine
  obtain ⟨ri, found, -⟩ := linked.owned id mine
  rw [found]
  rfl

theorem Linked.carriedAlone (linked : s.Linked) (there : s.sock = true) : s.req = none := by
  refine (linked.carried fun http => ?_).1
  exact absurd ((linked.bare http).symm.trans there) (by decide)

theorem Balanced.tryRead {lib : Lib} (linked : s.Linked) (balanced : s.Balanced)
    (still : s.writing = false) (there : s.mode = .webSocketFramed → s.sock = true) :
    ∃ t ready goes, s.tryRead lib = some (t, ready, goes) ∧ t.Balanced ∧ t.paused = s.paused := by
  cases mode : s.mode with
  | http =>
    obtain ⟨u, ready, eq, takes, -⟩ := tryRead_http lib mode linked.sends
    obtain ⟨-, taken, same⟩ := takes.rule (fun u => u.Linked ∧ u.Balanced ∧ u.paused = s.paused)
      ⟨linked, balanced, rfl⟩ fun u id ri f frames inv found sends waits next bytes _ =>
        ⟨inv.1.took found sends next bytes, inv.2.1.took inv.1 found sends waits, inv.2.2⟩
    refine ⟨_, _, _, eq, ?_⟩
    split
    · exact ⟨taken.emit _, same⟩
    · exact ⟨taken, same⟩
  | webSocketFramed =>
    have alone := (linked.carried (by rw [mode]; decide)).1
    obtain ⟨u, ready, over_, done, frames, on, eq⟩ := tryRead_framed lib mode (there mode)
    have kept : u.Balanced := by
      rw [on.state]
      exact { balanced with }
    have alone : u.req = none := by rw [on.state]; exact alone
    have quiet : u.writing = false := by rw [on.state]; exact still
    have same : u.paused = s.paused := by rw [on.state]; rfl
    cases over_ with
    | true =>
      obtain ⟨v, ended, over_⟩ := kept.toTold.over (by rw [alone]; nofun) quiet
      rw [if_pos rfl, ended] at eq
      refine ⟨_, _, _, eq, over_.emit _, ?_⟩
      rw [cleanup_eq] at ended
      rw [← Option.some.inj (Option.ite_none_right_eq_some.mp ended).2]
      exact same
    | false =>
      rw [if_neg Bool.false_ne_true] at eq
      refine ⟨_, _, _, eq, ?_⟩
      split
      · exact ⟨kept.emit _, same⟩
      · exact ⟨kept, same⟩
  | webSocketPassthrough =>
    refine ⟨s, false, true, ?_, balanced, rfl⟩
    unfold Session.tryRead
    rw [mode]

theorem Balanced.polled (balanced : s.Balanced) (still : s.writing = false) (alone : s.req = none)
    (http : s.mode = .http) (there : s.manager = true)
    (jsonpCallback : List Byte) : (s.polled id jsonpCallback).Balanced := by
  have cases_ : ∀ {k ri}, (s.polled id jsonpCallback).item k = some ri →
      (k = id ∧ ri = { jsonpCallback, type := .receive }) ∨ s.item k = some ri := by
    intro k ri found
    rw [item_polled] at found
    split at found
    · next same => exact Or.inl ⟨same, (Option.some.inj found).symm⟩
    · exact Or.inr found
  have told : (s.polled id jsonpCallback).Told := { balanced with
    unread := fun k ri found open_ => by
      rcases cases_ found with ⟨-, rfl⟩ | old
      · rfl
      · exact balanced.unread k ri old open_ }
  have none_ : s.pendingWrites.length = 0 := by
    have owes := balanced.taken http there
    rw [owed_still still, alone] at owes
    exact owes
  exact told.settle (s := s.polled id jsonpCallback) still rfl
    ((item_polled ..).trans (if_pos rfl)) none_

theorem Balanced.handleRequest {lib : Lib} (linked : s.Linked) (balanced : s.Balanced)
    (still : s.writing = false) (there : s.manager = true) (http : s.mode = .http) {req : Request}
    (fresh : s.item req.id = none)
    (jsonpCallback lastPart body : List Byte) :
    ∃ t, s.handleRequest lib req jsonpCallback lastPart body = some t ∧ t.Balanced := by
  have background : ∀ reply, ∃ t, some (s.background req.id jsonpCallback reply) = some t ∧
      t.Balanced :=
    fun reply => ⟨_, rfl, balanced.background linked fresh jsonpCallback reply⟩
  unfold Session.handleRequest
  split
  · split
    · exact background _
    · next alone =>
      have alone : s.req = none := by simpa using alone
      split
      · exact background _
      · next open_ =>
        have opened : s.answered = true := by
          by_contra first
          obtain ⟨id, ri, mine, -⟩ :=
            answerable_isSome.mp (linked.waits (by simpa using first) http there)
          rw [alone] at mine
          cases mine
        have polled : (s.polled req.id jsonpCallback).Linked :=
          linked.polled there alone opened (by simpa using open_) http jsonpCallback
        exact (balanced.polled still alone http there jsonpCallback).tryWrite polled still http
          opened
  · split
    · split
      · exact background _
      · split
        · split
          · exact background _
          · exact background _
          · next frames some_ valid =>
            have sends := @Linked.insert s req.id
              { jsonpCallback, type := .send, sendFrames := frames, sendBytes := sizeOf frames }
              linked there fresh http rfl fun _ _ => ⟨some_, rfl⟩
            have more := @Balanced.insert s req.id
              { jsonpCallback, type := .send, sendFrames := frames, sendBytes := sizeOf frames }
              linked balanced fresh rfl
            obtain ⟨t, ready, goes, read, on, -⟩ := @Balanced.tryRead _ lib sends more still
              fun framed => absurd (http.symm.trans framed) (by decide)
            exact ⟨t, congrArg (Option.map fun result => result.1) read, on⟩
        · exact background _
    · exact background _

theorem Balanced.answer (balanced : s.Balanced) (still : s.writing = false) (mine : s.req = some id)
    (found : s.item id = some ri) (waits : ri.responded = false) (type : RequestItem → RequestType)
    (reply : Reply)
    (jsonpCallback : List Byte) :
    ((s.modify id fun ri => { ri with type := type ri, responded := true }).respond id reply
    jsonpCallback).Balanced := by
  have none_ := balanced.unread id ri found (Or.inl waits)
  have changed : (s.modify id fun ri => { ri with type := type ri, responded := true }).Told :=
    balanced.toTold.modify id fun ri' found' _ => by
      cases found.symm.trans found'
      exact none_
  have now : (s.modify id fun ri => { ri with type := type ri, responded := true }).item id =
      some { ri with type := type ri, responded := true } := by
    rw [item_modify, if_pos rfl, found]
    rfl
  have items : ∀ k, s.req = some k →
    (((s.modify id fun ri => { ri with type := type ri, responded := true }).respond id
      reply jsonpCallback).item k).elim 0 RequestItem.receiveFrames =
        (s.item k).elim 0 RequestItem.receiveFrames := by
    intro k mine'
    cases mine.symm.trans mine'
    show (Session.item (s.modify id _) id).elim 0 _ = _
    rw [now, found]
    rfl
  exact { changed with
    opens := fun busy => absurd (still.symm.trans busy) (by decide)
    taken := fun http there => by
      refine (balanced.taken http there).trans ?_
      rw [owed_still still]
      have still' : Session.writing
        ((s.modify id fun ri => { ri with type := type ri, responded := true }).respond id
        reply jsonpCallback) = false := still
      rw [owed_still still', mine]
      exact (items id mine).symm.trans
        (by rw [show Session.req ((s.modify id _).respond id reply jsonpCallback) =
          some id from mine]; rfl) }

theorem Linked.answerable (linked : s.Linked) (http : s.mode = .http) (can : s.state = .connecting)
    (early : s.answered = false) (here : s.gone = false) :
    ∃ id ri, s.req = some id ∧ s.item id = some ri ∧ ri.responded = false ∧
      s.answerable = some (id, ri) := by
  have there := (linked.present here (by rw [can]; decide)).1
  obtain ⟨id, ri, mine, found, waits⟩ := answerable_isSome.mp (linked.waits early http there)
  refine ⟨id, ri, mine, found, waits, ?_⟩
  refine bind_eq_some_iff.mpr ⟨id, mine, bind_eq_some_iff.mpr ⟨ri, found, ?_⟩⟩
  rw [if_neg (by rw [waits]; decide)]

section
variable (linked : s.Linked) (balanced : s.Balanced) (can : s.state = .connecting)
  (early : s.answered = false) (here : s.gone = false) (still : s.writing = false)
include linked balanced can early here still

theorem Balanced.accept (reason : List Byte)
    (headers : List (List Byte × List Byte)) :
    ∃ t, Session.accept { s with answered := true, accepted := true } reason headers = some t ∧
      t.Balanced := by
  have base : ({ s with answered := true, accepted := true } : Session).Balanced :=
    { balanced with }
  have sock := fun carried => (linked.present here (by rw [can]; decide)).2 carried
  unfold Session.accept
  rw [if_neg (show ¬ s.errored = true by rw [(linked.early early).2.1]; decide)]
  split
  · next http =>
    obtain ⟨id, ri, mine, found, waits, eq⟩ := linked.answerable http can early here
    have eq : Session.answerable { s with answered := true, accepted := true } = some (id, ri) := eq
    rw [eq]
    exact ⟨_, rfl, base.answer still mine found waits (fun _ => .accept) .o ri.jsonpCallback⟩
  · next carried =>
    have carried : s.mode ≠ .http := carried
    rw [if_neg (show ¬ s.sock = false by rw [sock carried]; decide)]
    have success := base.emit (.sockRespondSuccess reason headers)
    split
    · next framed =>
      refine ⟨_, rfl, ?_⟩
      have wrote := success.emit (.sockWrite .o)
      exact { wrote with
        taken := fun http => absurd http carried
        framed := fun framed => by
          show (s.pendingWrites ++ [none]).length = s.sockPending + 1
          rw [List.length_append, balanced.framed framed]
          rfl }
    · exact ⟨_, rfl, { success with }⟩

theorem Balanced.reject (code : Nat)
    (reason body : List Byte)
    (headers : List (List Byte × List Byte)) :
    ∃ t, Session.reject { s with answered := true } code reason headers body = some t ∧
      t.Balanced := by
  have base : ({ s with answered := true } : Session).Balanced := { balanced with }
  have sock := fun carried => (linked.present here (by rw [can]; decide)).2 carried
  unfold Session.reject
  rw [if_neg (show ¬ s.errored = true by rw [(linked.early early).2.1]; decide)]
  split
  · next http =>
    obtain ⟨id, ri, mine, found, waits, eq⟩ := linked.answerable http can early here
    have eq : Session.answerable { s with answered := true } = some (id, ri) := eq
    rw [eq]
    exact ⟨_, rfl, base.answer still mine found waits (fun _ => .reject) _ []⟩
  · next carried =>
    rw [if_neg (show ¬ s.sock = false by rw [sock carried]; decide)]
    exact ⟨_, rfl, base.emit _⟩

end

theorem owed_busy (nest : s.paused.tail.any Pause.writes = false) (busy : s.writing = true)
    (same : t.paused = s.paused) : t.owed = s.owed := by
  unfold owed
  rw [same]
  unfold writing at busy
  cases paused : s.paused with
  | nil =>
    rw [paused] at busy
    cases busy
  | cons p rest =>
    rw [paused] at busy nest
    cases p with
    | tryWrite frames bytes messages => rfl
    | doUpdate => exact absurd (nest.symm.trans busy) (by decide)

theorem Balanced.writeMore {lib : Lib} (balanced : s.Balanced) (open_ : s.state ≠ .closing)
    {frame : Frame} (busy : s.writing = true) (more : frame.more = true)
    (singles : ∀ f ∈ s.outFrames, f.more = false) :
    ∃ t, Session.tryWrite lib { s with outFrames := s.outFrames ++ [frame] } = some t ∧
      t.Balanced := by
  have none_ : s.outFrames = [] := by
    cases frames : s.outFrames with
    | nil => rfl
    | cons f frames' =>
      have mem : f ∈ s.outFrames := by rw [frames]; exact List.mem_cons_self
      have ends := splitMessage_none.mp (balanced.left busy) f mem
      exact absurd ((singles f mem).symm.trans ends) (by decide)
  have unfinished : splitMessage [frame] = none := by simp [splitMessage, more]
  have added : ({ s with outFrames := s.outFrames ++ [frame] } : Session).Balanced :=
    { balanced with
      singles := singles_concat singles frame
      left := fun _ => by
        show splitMessage (s.outFrames ++ [frame]) = none
        rw [none_]
        exact unfinished }
  obtain ⟨id, ri, mine, found, waits⟩ := answerable_isSome.mp (balanced.opens busy)
  have mine' : Session.req { s with outFrames := s.outFrames ++ [frame] } = some id := mine
  have found' : Session.item { s with outFrames := s.outFrames ++ [frame] } id = some ri := found
  unfold Session.tryWrite
  split
  · exact ⟨_, rfl, added⟩
  · next id' mine'' =>
    cases mine'.symm.trans mine''
    split
    · exact ⟨_, rfl, added⟩
    · have drained : drain (s.outFrames ++ [frame]).length (s.outFrames ++ [frame]) =
          ([], s.outFrames ++ [frame]) := by
        rw [none_]
        show drain 1 [frame] = _
        simp [drain, unfinished]
      simp only [found', bind_eq_bind, bind_some, waits, Bool.false_eq_true, if_false,
        drained, List.any_nil, List.map_nil, List.sum_nil, Nat.lt_irrefl, List.append_nil]
      refine ⟨_, finishWrite_eq mine' found' 0 0 [], ?_⟩
      rw [if_neg (by simp), if_neg open_]
      have changed :=
        added.toTold.modify id (f := fun ri => { ri with receiveFrames := 0, receiveBytes := 0 })
          fun _ _ _ => rfl
      exact { changed with
        opens := fun _ => answerable_isSome.mpr
          ⟨id, { ri with receiveFrames := 0, receiveBytes := 0 }, mine, by
            rw [item_modify, if_pos rfl, found']
            rfl, waits⟩
        taken := fun http there => by
          refine (balanced.taken http there).trans ?_
          exact Eq.symm (owed_busy balanced.nest busy rfl) }

def mayWrite (s : Session) (frame : Frame) : Bool :=
  s.mode ≠ .http || !frame.isText || sizeOf s.outFrames + frame.data.length > BUFFER_SIZE ||
    (!s.writing || frame.more) && s.outFrames.all fun f => !f.more

theorem Balanced.writeFrame {lib : Lib} (linked : s.Linked) (balanced : s.Balanced)
    (opened : s.answered = true) (here : s.gone = false) {frame : Frame} (idle : s.state ≠ .idle)
    (closing : s.state ≠ .closing)
    (may : s.mayWrite frame = true) : ∃ t, s.writeFrame lib frame = some t ∧ t.Balanced := by
  have sock := fun carried => (linked.present here idle).2 carried
  unfold Session.writeFrame
  rw [if_neg closing]
  split
  · next away =>
    rw [if_neg (by rw [sock (by rw [away]; decide)]; decide)]
    refine ⟨_, rfl, ?_⟩
    exact { balanced.emit (.sockWriteFrame frame) with
      framed := fun framed => Mode.noConfusion (away.symm.trans framed) }
  · split
    · exact ⟨_, rfl, { balanced with }⟩
    · next text =>
      split
      · next http =>
        split
        · exact ⟨_, rfl, { balanced with }⟩
        · next fits =>
          simp only [mayWrite, http, ne_eq, not_true_eq_false, decide_false, text, Bool.false_or,
            fits, Bool.and_eq_true] at may
          have singles : ∀ f ∈ s.outFrames, f.more = false := by simpa using may.2
          cases busy : s.writing with
          | true =>
            rw [busy] at may
            exact balanced.writeMore closing busy may.1 singles
          | false =>
            have added : ({ s with outFrames := s.outFrames ++ [frame] } : Session).Balanced :=
              { balanced with
                singles := singles_concat singles frame
                left := fun busy' => absurd (busy.symm.trans busy') (by decide) }
            have linked' : ({ s with outFrames := s.outFrames ++ [frame] } : Session).Linked :=
              { linked with
                early := fun first => absurd (opened.symm.trans first) (by decide)
                texts := List.forall_mem_append.mpr ⟨linked.texts, by simpa using text⟩ }
            exact added.tryWrite linked' busy http opened
      · next carried =>
        rw [if_neg (by rw [sock carried]; decide)]
        refine ⟨_, rfl, ?_⟩
        exact { balanced.emit (.sockWrite (.a [lib.fromUtf8 frame.data])) with
          taken := fun http => absurd http carried
          framed := fun framed => by
            show (s.pendingWrites ++ [_]).length = s.sockPending + 1
            rw [List.length_append, balanced.framed framed]
            rfl }

theorem Balanced.readFrame (balanced : s.Balanced)
    (some_ : (if s.mode = .webSocketPassthrough then !s.sockFrames.isEmpty
    else !s.inFrames.isEmpty) = true) :
    ∃ t, s.readFrame = some t ∧ t.Balanced := by
  unfold Session.readFrame
  split at some_
  · next passes =>
    obtain ⟨f, frames, eq⟩ := List.exists_cons_of_ne_nil (by simpa using some_)
    rw [if_pos passes, eq]
    exact ⟨_, rfl, { balanced with }⟩
  · next carries =>
    obtain ⟨f, frames, eq⟩ := List.exists_cons_of_ne_nil (by simpa using some_)
    rw [if_neg carries, eq]
    exact ⟨_, rfl, { balanced with }⟩

theorem Balanced.close {lib : Lib} (linked : s.Linked) (balanced : s.Balanced)
    (opened : s.answered = true) (here : s.gone = false) (idle : s.state ≠ .idle)
    (closing : s.state ≠ .closing) (still : s.writing = false)
    (code : Int) (reason : List Byte) : ∃ t, s.close lib code reason = some t ∧ t.Balanced := by
  have base : ({ s with
      state := .closing, closeCode := code, closeReason := reason } : Session).Balanced :=
    { balanced with }
  unfold Session.close
  rw [if_neg closing]
  dsimp only
  split
  · next http =>
    split
    · next away =>
      have alone := linked.away away
      have ended := base.emit (.setLinger (Session.closeValue { s with
        state := .idle, closeCode := code, closeReason := reason }).1 (Session.closeValue { s with
        state := .idle, closeCode := code, closeReason := reason }).2)
      obtain ⟨t, over_, on⟩ :=
        ended.toTold.over (fun id mine => by cases alone.symm.trans mine) still
      exact ⟨_, bind_eq_some_iff.mpr ⟨t, over_, rfl⟩, { on with }⟩
    · have linked' :
          ({ s with state := .closing, closeCode := code, closeReason := reason } :
            Session).Linked :=
        { linked with
          begins := fun first => absurd (opened.symm.trans first) (by decide)
          present := fun here _ => linked.present here idle }
      exact base.tryWrite linked' still http opened
  · next carried =>
    rw [if_neg (by rw [(linked.present here idle).2 carried]; decide)]
    exact ⟨_, rfl, base.emit _⟩

theorem Told.written (told : s.Told) (still : s.writing = false) (alone : s.req = none)
    (http : s.mode = .http) {count contentBytes : Nat} (all : s.pendingWrites.length = count) :
    ∃ t, s.handleWritten count contentBytes = some t ∧ t.Balanced := by
  unfold Session.handleWritten
  rw [if_neg (by rw [http]; decide), if_neg (by omega)]
  refine ⟨_, rfl, ?_⟩
  have none_ : s.pendingWrites.drop count = [] := List.drop_eq_nil_of_le (Nat.le_of_eq all)
  have left : ({ s with
      pendingWrites := s.pendingWrites.drop count
      pendingWrittenFrames := 0
      pendingWrittenBytes := 0 } : Session).Told :=
    { told with framed := fun framed => absurd (http.symm.trans framed) (by decide) }
  exact (left.emit _).alone still alone none_

section
variable (linked : s.Linked) (balanced : s.Balanced)
include linked balanced

theorem Balanced.sock_framesWritten (there : s.sock = true) {count : Nat}
    (some_ : count ≤ s.sockPending) (contentBytes : Nat) :
    ∃ t, s.sock_framesWritten count contentBytes = some t ∧ t.Balanced := by
  have carried : s.mode ≠ .http := by
    intro http
    exact absurd ((linked.bare http).symm.trans there) (by decide)
  unfold Session.sock_framesWritten Session.handleWritten
  split
  · next passes =>
    have passes : s.mode = .webSocketPassthrough := passes
    refine ⟨_, rfl, ?_⟩
    exact { balanced with framed := fun framed => Mode.noConfusion (passes.symm.trans framed) }
  · next wraps =>
    have framed : s.mode = .webSocketFramed := by
      cases mode : s.mode with
      | http => exact absurd mode carried
      | webSocketFramed => rfl
      | webSocketPassthrough => exact absurd mode wraps
    have same := balanced.framed framed
    rw [if_neg (show ¬ s.pendingWrites.length < count by omega)]
    refine ⟨_, rfl, ?_⟩
    exact { balanced with
        taken := fun http => absurd http carried
        framed := fun _ => by
          show (s.pendingWrites.drop count).length = s.sockPending - count
          rw [List.length_drop, same] }

theorem Balanced.req_bytesWritten (still : s.writing = false) (finished : Bool)
    (responded : (s.item id).any (fun ri => ri.responded) = true) :
    ∃ t, s.req_bytesWritten id finished = some t ∧ t.Balanced := by
  obtain ⟨ri, found⟩ : ∃ ri, s.item id = some ri := by
    cases found : s.item id with
    | none =>
      rw [found] at responded
      cases responded
    | some ri => exact ⟨ri, rfl⟩
  have http := linked.http found
  have there := linked.there found
  unfold Session.req_bytesWritten
  rw [found]
  simp only [bind_eq_bind, bind_some]
  split
  · exact ⟨s, rfl, balanced⟩
  · have owes : s.req = some id → s.pendingWrites.length = ri.receiveFrames := by
      intro mine
      have owes := balanced.taken http there
      rw [owed_still still, mine] at owes
      change s.pendingWrites.length = (s.item id).elim 0 _ at owes
      rw [found] at owes
      exact owes
    have plain : s.req = some id → ri.type ≠ .receive → s.pendingWrites = [] := fun mine other =>
      List.eq_nil_of_length_eq_zero ((owes mine).trans (balanced.unread id ri found (Or.inr other)))
    have left := balanced.toTold.removeReq id
    split
    · next accepts =>
      have mine : s.req = some id :=
        linked.only id ri found (by rw [RequestItem.ofReq, accepts]; rfl)
      rw [if_pos mine]
      have on := Told.alone left still rfl (plain mine (by rw [accepts]; decide))
      exact ⟨_, rfl, { on with }⟩
    · split
      · next mine =>
        split
        · next ends =>
          obtain ⟨t, over_, on⟩ := left.over (fun _ mine => by cases mine) still
          exact ⟨_, bind_eq_some_iff.mpr ⟨t, over_, rfl⟩, on.emit _⟩
        · split
          · next receives =>
            exact Told.written
              (s := (Session.removeRequestItem { s with req := none } id).startTimer
              UNCONNECTED_TIMEOUT) { left with } still rfl http (owes mine)
          · next other => exact ⟨_, rfl, Told.alone left still rfl (plain mine other)⟩
      · next other => exact ⟨_, rfl, balanced.remove id other⟩

theorem Balanced.req_error (still : s.writing = false)
    (there : (s.item id).isSome = true) (disconnected : Bool) :
    ∃ t, s.req_error id disconnected = some t ∧ t.Balanced := by
  obtain ⟨ri, found⟩ := Option.isSome_iff_exists.mp there
  have http := linked.http found
  unfold Session.req_error
  rw [found]
  simp only [bind_eq_bind, bind_some]
  split
  · next other =>
    refine ⟨_, rfl, balanced.remove id fun mine => ?_⟩
    obtain ⟨ri', found', kind⟩ := linked.owned id mine
    cases found.symm.trans found'
    rcases other with kind' | kind' <;> simp [RequestItem.ofReq, kind'] at kind
  · next polls =>
    have mine : s.req = some id := linked.only id ri found (by
      simp only [RequestItem.ofReq, decide_eq_true_eq]
      exact not_or.mp polls)
    rw [if_neg (by simpa using mine)]
    have left := balanced.toTold.removeReq id
    split
    · next away =>
      have none_ : s.pendingWrites = [] := by
        have owes := balanced.taken http (linked.there found)
        rw [owed_still still, mine] at owes
        change s.pendingWrites.length = (s.item id).elim 0 _ at owes
        rw [found] at owes
        exact List.eq_nil_of_length_eq_zero
          (owes.trans (balanced.unread id ri found (Or.inl away.1.2.1)))
      have on := Told.alone left still rfl none_
      exact ⟨_, rfl, { on with }⟩
    · obtain ⟨t, over_, on⟩ := left.over (fun _ mine => by cases mine) still
      refine ⟨_, bind_eq_some_iff.mpr ⟨t, over_, rfl⟩, on.emit _⟩

end

theorem Balanced.finishUpdate (balanced : s.Balanced) : s.finishUpdate.Balanced := by
  unfold Session.finishUpdate
  split
  · exact { balanced with }
  · exact balanced

theorem Balanced.doUpdate {lib : Lib} (linked : s.Linked) (balanced : s.Balanced)
    (quiet : s.paused = []) (there : s.errored = false → s.mode = .webSocketFramed →
    s.sock = true) :
    ∃ t, s.doUpdate lib = some t ∧ t.Balanced := by
  have still := not_writing quiet
  have base : ({ s with updating := false } : Session).Balanced := { balanced with }
  have linked' : ({ s with updating := false } : Session).Linked := { linked with }
  unfold Session.doUpdate
  dsimp only
  split
  · next errored =>
    obtain ⟨t, over_, on⟩ := base.toTold.over linked'.there_ still
    exact ⟨_, bind_eq_some_iff.mpr ⟨t, over_, rfl⟩, on.emit _⟩
  · next fine =>
    split
    · exact ⟨_, rfl, base⟩
    · obtain ⟨t, ready, goes, read, on, same⟩ :=
        @Balanced.tryRead _ lib linked' base still (there (by simpa using fine))
      simp only [read, bind_eq_bind, bind_some]
      split
      · exact ⟨t, rfl, on⟩
      · split
        · refine ⟨_, rfl, ?_⟩
          have quiet : t.paused = [] := same.trans quiet
          have still := not_writing quiet
          have owes : Session.owed { t with paused := .doUpdate :: t.paused } = t.owed := by
            rw [owed_still still]
            rfl
          exact { on with
            nest := still
            tells := fun frames bytes messages mem => by
              rcases List.mem_cons.mp mem with eq | old
              · cases eq
              · exact on.tells frames bytes messages old
            left := fun busy => absurd (still.symm.trans busy) (by decide)
            opens := fun busy => absurd (still.symm.trans busy) (by decide)
            taken := fun http there => (on.taken http there).trans owes.symm }
        · exact ⟨_, rfl, on.finishUpdate⟩

theorem Balanced.timeout (linked : s.Linked) (balanced : s.Balanced) (quiet : s.paused = [])
    (runs : s.keepAliveTimer.isSome = true)
    (waits : s.mode = .http → (s.req.isNone || s.answerable.isSome) = true) :
    ∃ t, s.keepAliveTimer_timeout = some t ∧ t.Balanced := by
  have still := not_writing quiet
  unfold keepAliveTimer_timeout
  split
  · next passes => exact absurd passes (linked.timer runs).1
  · next http =>
    split
    · next id mine =>
      have can := waits http
      rw [mine] at can
      obtain ⟨id', ri, mine', found, waits⟩ := answerable_isSome.mp (by simpa using can)
      cases mine.symm.trans mine'
      have eq : s.answerable = some (id, ri) := by
        refine bind_eq_some_iff.mpr ⟨id, mine, bind_eq_some_iff.mpr ⟨ri, found, ?_⟩⟩
        rw [if_neg (by rw [waits]; decide)]
      rw [eq]
      exact ⟨_, rfl, balanced.answer still mine found waits RequestItem.type .h ri.jsonpCallback⟩
    · next alone =>
      obtain ⟨t, over_, on⟩ := balanced.toTold.over linked.there_ still
      exact ⟨_, bind_eq_some_iff.mpr ⟨t, over_, rfl⟩, on.emit _⟩
  · next framed =>
    rw [if_neg (by rw [(linked.timer runs).2 framed]; decide)]
    refine ⟨_, rfl, ?_⟩
    exact { balanced.emit (.sockWrite .h) with
      taken := fun http => Mode.noConfusion (framed.symm.trans http)
      framed := fun _ => by
        show (s.pendingWrites ++ [none]).length = s.sockPending + 1
        rw [List.length_append, balanced.framed framed]
        rfl }

theorem Balanced.resume (linked : s.Linked) (balanced : s.Balanced) (busy : s.paused ≠ []) :
    ∃ t, s.resume = some t ∧ t.Balanced := by
  have nest := balanced.nest
  unfold Session.resume
  split
  · next quiet => exact absurd quiet busy
  · next frames bytes messages paused eq =>
    rw [eq] at nest
    have still : Session.writing { s with paused } = false := nest
    have writes : s.writing = true := by simp [writing, eq, Pause.writes]
    obtain ⟨id, ri, mine, found, waits⟩ := answerable_isSome.mp (balanced.opens writes)
    obtain ⟨ri', found', kind⟩ := linked.owned id mine
    cases found.symm.trans found'
    have told : ({ s with paused } : Session).Told := { balanced with
      nest := by
        cases paused with
        | nil => rfl
        | cons p rest => exact (Bool.or_eq_false_iff.mp nest).2
      tells := fun frames bytes messages mem => balanced.tells frames bytes messages (by
        rw [eq]
        exact List.mem_cons_of_mem _ mem)
      left := fun _ => balanced.left writes }
    have owes := balanced.taken (linked.http found) (linked.there found)
    unfold owed at owes
    rw [eq] at owes
    have some_ := balanced.tells frames bytes messages (by rw [eq]; exact List.mem_cons_self)
    exact told.finishWrite still mine found (linked.polls id ri found kind waits
      (linked.writes writes).2) owes fun none_ => absurd none_ some_
  · next paused eq =>
    rw [eq] at nest
    have still : Session.writing { s with paused } = false := nest
    have same : s.writing = paused.any Pause.writes := by
      rw [writing, eq]
      rfl
    have left : ({ s with paused } : Session).Balanced := { balanced with
      nest := by
        cases paused with
        | nil => rfl
        | cons p rest => exact (Bool.or_eq_false_iff.mp nest).2
      tells := fun frames bytes messages mem => balanced.tells frames bytes messages (by
        rw [eq]
        exact List.mem_cons_of_mem _ mem)
      left := fun busy => absurd (still.symm.trans busy) (by decide)
      opens := fun busy => absurd (still.symm.trans busy) (by decide)
      taken := fun http there => by
        refine (balanced.taken http there).trans ?_
        rw [owed_still still, owed_still (same.trans nest)]
        rfl }
    exact ⟨_, rfl, left.finishUpdate⟩

/-- What keeps a session from failing: the timer does not expire while the answer to the
    polling request is on its way; the application does not write or close from within
    `tryWrite`; a message that is written has one frame; and no update is left for a socket
    that is gone. -/
def steady (s : Session) : Event → Bool
  | .timeout => s.mode ≠ .http || s.req.isNone || s.answerable.isSome
  | .writeFrame frame => s.mayWrite frame
  | .close _ _ => !s.writing
  | .doUpdate => s.errored || s.mode ≠ .webSocketFramed || s.sock
  | _ => true

end Session
open Session

theorem step_balanced {lib : Lib} {s : Session} {event : Event} (linked : s.Linked)
    (balanced : s.Balanced) (can : possible s event = true) (fit : s.steady event = true) :
    ∃ t, step lib s event = some t ∧ t.Balanced := by
  obtain ⟨here, can⟩ := possible_cases can
  cases event with
  | handleRequest req jsonpCallback lastPart body =>
    exact balanced.handleRequest linked (not_writing can.1) can.2.1.1.1 can.2.1.1.2 can.2.1.2 _ _ _
  | req_bytesWritten id finished =>
    exact balanced.req_bytesWritten linked (not_writing can.1) finished can.2
  | req_error id disconnected =>
    exact balanced.req_error linked (not_writing can.1) can.2 disconnected
  | accept reason headers =>
    exact balanced.accept linked can.1.1 can.1.2 here (not_writing can.2) reason headers
  | reject code reason headers body =>
    exact balanced.reject linked can.1.1 can.1.2 here (not_writing can.2) code reason body headers
  | writeFrame frame =>
    have opened := linked.accepts can.1
    have base : ({ s with given := s.given ++ [frame] } : Session).Balanced := { balanced with }
    have linked' : ({ s with given := s.given ++ [frame] } : Session).Linked := { linked with }
    refine base.writeFrame linked' opened here ?_ ?_ fit
    · rintro (idle : s.state = .idle)
      rcases can.2 with state | state <;> cases idle.symm.trans state
    · rintro (closing : s.state = .closing)
      rcases can.2 with state | state <;> cases closing.symm.trans state
  | readFrame =>
    exact balanced.readFrame can
  | close code reason =>
    refine balanced.close linked (linked.accepts can.1) here ?_ ?_ (by simpa [steady] using fit)
      code reason
    · rintro (idle : s.state = .idle)
      rcases can.2 with state | state <;> cases idle.symm.trans state
    · rintro (closing : s.state = .closing)
      rcases can.2 with state | state <;> cases closing.symm.trans state
  | arrive frames => exact ⟨_, rfl, { balanced with }⟩
  | sock_readyRead =>
    show ∃ t, s.sock_readyRead lib = some t ∧ t.Balanced
    unfold sock_readyRead
    split
    · obtain ⟨t, ready, goes, read, on, -⟩ :=
        @Balanced.tryRead _ lib linked balanced (not_writing can.1) fun _ => can.2
      exact ⟨t, congrArg (Option.map fun result => result.1) read, on⟩
    · exact ⟨_, rfl, balanced.emit _⟩
  | sock_framesWritten count contentBytes =>
    exact balanced.sock_framesWritten linked can.2.1 can.2.2 contentBytes
  | sock_writeBytesChanged => exact ⟨_, rfl, balanced.emit _⟩
  | sock_peerClosed code reason =>
    exact ⟨_, rfl, { balanced with }⟩
  | sock_closed code reason =>
    have base : ({ s with peerCloseCode := code, peerCloseReason := reason } : Session).Told :=
      { balanced with }
    have alone := linked.carriedAlone can.2
    obtain ⟨t, over_, on⟩ :=
      base.over (fun _ mine => by cases alone.symm.trans mine) (not_writing can.1)
    exact ⟨_, bind_eq_some_iff.mpr ⟨t, over_, rfl⟩, on.emit _⟩
  | sock_error condition =>
    have base : ({ s with errorCondition := condition } : Session).Told := { balanced with }
    have alone := linked.carriedAlone can.2
    obtain ⟨t, over_, on⟩ :=
      base.over (fun _ mine => by cases alone.symm.trans mine) (not_writing can.1)
    exact ⟨_, bind_eq_some_iff.mpr ⟨t, over_, rfl⟩, on.emit _⟩
  | doUpdate =>
    refine balanced.doUpdate linked can.1 fun fine framed => ?_
    simpa [steady, fine, framed] using fit
  | doClosed => exact ⟨_, rfl, { balanced with }⟩
  | timeout =>
    refine balanced.timeout linked can.1 can.2 fun http => ?_
    simpa [steady, http] using fit
  | resume => exact balanced.resume linked can
  | destroy =>
    have told := balanced.toTold.cleaned s.state
    have eq : s.cleanup = some s.cleaned := by
      rw [cleanup_eq, if_pos]
      cases mine : s.req with
      | none => rfl
      | some id => exact linked.there_ id mine
    refine ⟨_, bind_eq_some_iff.mpr ⟨_, eq, rfl⟩, ?_⟩
    exact { told with
      nest := rfl
      tells := fun _ _ _ mem => by cases mem
      left := fun busy => by cases busy
      opens := fun busy => by cases busy
      taken := fun _ there => by cases there }

theorem start_balanced (mode : Mode) (id : Nat) (jsonpCallback : List Byte) :
    (setup mode id jsonpCallback).startServer.Balanced := by
  cases mode with
  | http =>
    have item_ : ∀ k ri, (setup .http id jsonpCallback).startServer.item k = some ri →
        ri = { jsonpCallback, type := .connect } := by
      intro k ri found
      have eq : (setup .http id jsonpCallback).startServer.item k =
        if k = id then some { jsonpCallback, type := .connect } else none := Hash.get?_insert ..
      rw [eq] at found
      split at found
      · exact (Option.some.inj found).symm
      · cases found
    have found : (setup .http id jsonpCallback).startServer.item id =
        some { jsonpCallback, type := .connect } :=
      (Hash.get?_insert ..).trans (if_pos rfl)
    have told : (setup .http id jsonpCallback).startServer.Told := {
      unread := fun k ri found _ => by rw [item_ k ri found]
      singles := fun _ mem => by cases mem
      nest := rfl
      tells := fun _ _ _ mem => by cases mem
      left := fun busy => by cases busy
      framed := fun framed => by cases framed }
    exact told.settle rfl rfl found rfl
  | _ =>
    exact {
      unread := fun _ _ found => by cases found
      singles := fun _ mem => by cases mem
      nest := rfl
      tells := fun _ _ _ mem => by cases mem
      left := fun busy => by cases busy
      framed := fun _ => rfl
      opens := fun busy => by cases busy
      taken := fun http => by cases http }

end PushpinSockJs
