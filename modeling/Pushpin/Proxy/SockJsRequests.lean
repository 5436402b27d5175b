import Pushpin.Foundations.Runs
import Pushpin.Proxy.SockJsReading

namespace PushpinSockJs
open PushpinRingBuffer Text Loops Hashes
open Option (bind_eq_some_iff)

def RequestItem.ofReq (ri : RequestItem) : Bool := ri.type ≠ .background ∧ ri.type ≠ .send

def Pause.writes : Pause → Bool
  | .tryWrite .. => true
  | .doUpdate => false

namespace Session
variable {s t : Session} {id k : Nat} {ri : RequestItem}

def writing (s : Session) : Bool := s.paused.any Pause.writes

structure Linked (s : Session) : Prop where
  owned : ∀ id, s.req = some id → ∃ ri, s.item id = some ri ∧ ri.ofReq = true
  only : ∀ id ri, s.item id = some ri → ri.ofReq = true → s.req = some id
  sends : ∀ id ri, s.item id = some ri → ri.type = .send → ri.responded = false →
    ri.sendFrames ≠ [] ∧ ri.sendBytes = sizeOf ri.sendFrames
  polls : ∀ id ri, s.item id = some ri → ri.ofReq = true → ri.responded = false →
    s.answered = true → ri.type = .receive
  first : s.answered = false → ∀ id ri, s.item id = some ri → ri.ofReq = true → ri.type = .connect
  held : s.manager = false → ∀ id, s.item id = none
  waits : s.answered = false → s.mode = .http → s.manager = true → s.answerable.isSome = true
  begins : s.answered = false → s.manager = true → s.state = .connecting
  early : s.answered = false → s.outFrames = [] ∧ s.errored = false ∧ s.keepAliveTimer = none
  accepts : s.accepted = true → s.answered = true
  texts : ∀ f ∈ s.outFrames, f.isText = true
  writes : s.writing = true → s.req.isSome = true ∧ s.answered = true
  away : s.peerClosed = true → s.req = none
  carried : s.mode ≠ .http → s.req = none ∧ ∀ id, s.item id = none
  present : s.gone = false → s.state ≠ .idle → s.manager = true ∧ (s.mode ≠ .http → s.sock = true)
  bare : s.mode = .http → s.sock = false
  timer : s.keepAliveTimer.isSome = true → s.mode ≠ .webSocketPassthrough ∧
    (s.mode = .webSocketFramed → s.sock = true)

theorem answerable_isSome :
    s.answerable.isSome = true ↔ ∃ id ri, s.req = some id ∧ s.item id = some ri ∧
      ri.responded = false := by
  unfold answerable
  cases req : s.req with
  | none => simp
  | some id =>
    cases found : s.item id with
    | none => simp [found]
    | some ri => cases responded : ri.responded <;> simp [found, responded]

section
variable (linked : s.Linked)
include linked

theorem Linked.emit (output : Output) : (s.emit output).Linked :=
  { linked with }

theorem Linked.respond (reply : Reply) (jsonpCallback : List Byte) :
    (s.respond id reply jsonpCallback).Linked := { linked with }

theorem Linked.update : s.update.Linked := { linked with }

theorem Linked.stopTimer : s.stopTimer.Linked :=
  { linked with
    early := fun first => ⟨(linked.early first).1, (linked.early first).2.1, rfl⟩
    timer := nofun }

theorem Linked.startTimer (answered : s.answered = true) (http : s.mode = .http)
    (seconds : Nat) : (s.startTimer seconds).Linked :=
  { linked with
    early := fun first => absurd (answered.symm.trans first) (by decide)
    timer := fun _ => by
      refine ⟨?_, ?_⟩
      · show s.mode ≠ .webSocketPassthrough
        rw [http]
        decide
      · intro framed
        exact absurd (http.symm.trans framed) (by decide) }

theorem Linked.insert (there : s.manager = true) (fresh : s.item id = none)
    (http : s.mode = .http) (other : ri.ofReq = false) (full : ri.type = .send →
    ri.responded = false → ri.sendFrames ≠ [] ∧ ri.sendBytes = sizeOf ri.sendFrames) :
    (s.insert id ri).Linked := by
  have kept : ∀ {k}, (s.item k).isSome = true → (s.insert id ri).item k = s.item k := by
    intro k there
    rw [item_insert, if_neg]
    rintro rfl
    rw [fresh] at there
    cases there
  have cases_ : ∀ {k ri'}, (s.insert id ri).item k = some ri' → ri' = ri ∨ s.item k = some ri' := by
    intro k ri' found
    rw [item_insert] at found
    split at found
    · exact Or.inl (Option.some.inj found).symm
    · exact Or.inr found
  exact { linked with
    owned := fun k mine => by
      obtain ⟨ri', found, kind⟩ := linked.owned k mine
      exact ⟨ri', (kept (by rw [found]; rfl)).trans found, kind⟩
    only := fun k ri' found kind => by
      rcases cases_ found with rfl | old
      · rw [other] at kind
        cases kind
      · exact linked.only k ri' old kind
    sends := fun k ri' found => by
      rcases cases_ found with rfl | old
      · exact full
      · exact linked.sends k ri' old
    polls := fun k ri' found kind => by
      rcases cases_ found with rfl | old
      · rw [other] at kind
        cases kind
      · exact linked.polls k ri' old kind
    first := fun early k ri' found kind => by
      rcases cases_ found with rfl | old
      · rw [other] at kind
        cases kind
      · exact linked.first early k ri' old kind
    held := fun away => absurd (there.symm.trans away) (by decide)
    waits := fun first mode there => by
      obtain ⟨k, ri', mine, found, open_⟩ := answerable_isSome.mp (linked.waits first mode there)
      exact answerable_isSome.mpr ⟨k, ri', mine, (kept (by rw [found]; rfl)).trans found, open_⟩
    carried := fun mode => absurd http mode }

theorem Linked.background (there : s.manager = true) (fresh : s.item id = none)
    (http : s.mode = .http) (jsonpCallback : List Byte) (reply : Reply) :
    (s.background id jsonpCallback reply).Linked :=
  (linked.insert there fresh http rfl fun sends => by cases sends).respond reply jsonpCallback

theorem Linked.modifyReq (mine : s.req = some id) (answered : s.answered = true)
    {f : RequestItem → RequestItem} (kinds : ∀ ri, ri.ofReq = true → (f ri).ofReq = true)
    (opens : ∀ ri, (f ri).responded = false → ri.responded = false ∧ (f ri).type = ri.type) :
    (s.modify id f).Linked := by
  obtain ⟨ri₀, found₀, kind₀⟩ := linked.owned id mine
  have cases_ : ∀ {k ri}, (s.modify id f).item k = some ri → (k = id ∧ ri = f ri₀) ∨
      (k ≠ id ∧ s.item k = some ri) := by
    intro k ri found
    rw [item_modify] at found
    by_cases same : k = id
    · rw [if_pos same, same, found₀] at found
      exact Or.inl ⟨same, (Option.some.inj found).symm⟩
    · rw [if_neg same] at found
      exact Or.inr ⟨same, found⟩
  exact { linked with
    owned := fun k asks => by
      have same : k = id := Option.some.inj (asks.symm.trans mine)
      refine ⟨f ri₀, ?_, kinds ri₀ kind₀⟩
      rw [item_modify, if_pos same, same, found₀]
      rfl
    only := fun k ri found kind => by
      rcases cases_ found with ⟨rfl, -⟩ | ⟨-, old⟩
      · exact mine
      · exact linked.only k ri old kind
    sends := fun k ri found sends => by
      rcases cases_ found with ⟨-, rfl⟩ | ⟨-, old⟩
      · have kind := kinds ri₀ kind₀
        simp [RequestItem.ofReq, sends] at kind
      · exact linked.sends k ri old sends
    polls := fun k ri found kind open_ first => by
      rcases cases_ found with ⟨-, rfl⟩ | ⟨-, old⟩
      · obtain ⟨was, same⟩ := opens ri₀ open_
        rw [same]
        exact linked.polls id ri₀ found₀ kind₀ was first
      · exact linked.polls k ri old kind open_ first
    first := fun early => absurd (answered.symm.trans early) (by decide)
    held := fun away => by
      rw [linked.held away id] at found₀
      cases found₀
    waits := fun first => absurd (answered.symm.trans first) (by decide)
    carried := fun mode => by
      rw [(linked.carried mode).1] at mine
      cases mine }

theorem Linked.remove (id : Nat) (free : s.req ≠ some id) : (s.removeRequestItem id).Linked := by
  have cases_ : ∀ {k ri}, (s.removeRequestItem id).item k = some ri → s.item k = some ri := by
    intro k ri found
    rw [item_remove] at found
    split at found
    · cases found
    · exact found
  have kept : ∀ {k}, s.req = some k → (s.removeRequestItem id).item k = s.item k := by
    intro k mine
    rw [item_remove, if_neg]
    rintro rfl
    exact free mine
  exact { linked with
    owned := fun k mine => by
      obtain ⟨ri, found, kind⟩ := linked.owned k mine
      exact ⟨ri, (kept mine).trans found, kind⟩
    only := fun k ri found => linked.only k ri (cases_ found)
    sends := fun k ri found => linked.sends k ri (cases_ found)
    polls := fun k ri found => linked.polls k ri (cases_ found)
    first := fun early k ri found => linked.first early k ri (cases_ found)
    held := fun away k => by
      rw [item_remove, linked.held away k]
      split <;> rfl
    waits := fun first mode there => by
      obtain ⟨k, ri, mine, found, open_⟩ := answerable_isSome.mp (linked.waits first mode there)
      exact answerable_isSome.mpr ⟨k, ri, mine, (kept mine).trans found, open_⟩
    carried := fun mode => ⟨(linked.carried mode).1, fun k => by
      rw [item_remove, (linked.carried mode).2 k]
      split <;> rfl⟩ }

theorem Linked.removeReq (mine : s.req = some id) (answered : s.answered = true)
    (still : s.writing = false) : ({ s with req := none }.removeRequestItem id).Linked := by
  have cases_ : ∀ {k ri}, (Session.removeRequestItem { s with req := none } id).item k = some ri →
      k ≠ id ∧ s.item k = some ri := by
    intro k ri found
    rw [item_remove] at found
    split at found
    · cases found
    · next other => exact ⟨other, found⟩
  have others : ∀ {k ri}, (Session.removeRequestItem { s with req := none } id).item k = some ri →
      ri.ofReq = false := by
    intro k ri found
    obtain ⟨other, old⟩ := cases_ found
    by_contra kind
    have same := (linked.only k ri old (by simpa using kind)).symm.trans mine
    exact other (Option.some.inj same)
  exact { linked with
    owned := fun _ mine => by cases mine
    only := fun k ri found kind => absurd ((others found).symm.trans kind) (by decide)
    sends := fun k ri found => linked.sends k ri (cases_ found).2
    polls := fun k ri found kind => absurd ((others found).symm.trans kind) (by decide)
    first := fun early => absurd (answered.symm.trans early) (by decide)
    held := fun away k => by
      rw [item_remove]
      split
      · rfl
      · exact linked.held away k
    waits := fun first => absurd (answered.symm.trans first) (by decide)
    writes := fun busy => absurd (still.symm.trans busy) (by decide)
    away := fun _ => rfl
    carried := fun mode => by
      rw [(linked.carried mode).1] at mine
      cases mine }

end

def cleaned (s : Session) : Session :=
  { s with
    keepAliveTimer := none
    req := none
    requests := .empty
    sock := false
    manager := false
    out := s.out ++ (s.req.toList.map fun id =>
        Output.respond id (.error 410 (ascii "Gone") (ascii "Session terminated")) []) ++
      if s.manager then [.unlink] else [] }

theorem cleanup_eq (s : Session) :
    s.cleanup = if s.req.all (fun id => (s.item id).isSome) then some s.cleaned else none := by
  unfold cleanup detach cleaned
  cases req : s.req with
  | none => cases manager : s.manager <;> simp [stopTimer, emit, req, manager]
  | some id =>
    have same : s.stopTimer.item id = s.item id := rfl
    have mine : s.stopTimer.req = some id := req
    simp only [mine, same]
    cases found : s.item id with
    | none => simp [found]
    | some ri =>
      cases manager :
        s.manager <;> simp [stopTimer, emit, respond, removeRequestItem, manager, found]

theorem Linked.cleaned (linked : s.Linked) (still : s.writing = false) (state : State)
    (over_ : s.gone = false → state = .idle) : (Session.cleaned { s with state }).Linked :=
  { linked with
    owned := fun _ mine => by cases mine
    only := fun _ _ found => by cases found
    sends := fun _ _ found => by cases found
    polls := fun _ _ found => by cases found
    first := fun _ _ _ found => by cases found
    held := fun _ _ => rfl
    waits := fun _ _ there => by cases there
    begins := fun _ there => by cases there
    early := fun first => ⟨(linked.early first).1, (linked.early first).2.1, rfl⟩
    writes := fun busy => absurd (still.symm.trans busy) (by decide)
    away := fun _ => rfl
    carried := fun _ => ⟨rfl, fun _ => rfl⟩
    present := fun here busy => absurd (over_ here) busy
    bare := fun _ => rfl
    timer := fun runs => by cases runs }

theorem Linked.over (linked : s.Linked) (still : s.writing = false)
    (ended : ({ s with state := .idle } : Session).cleanup = some t) : t.Linked := by
  rw [cleanup_eq] at ended
  rw [← Option.some.inj (Option.ite_none_right_eq_some.mp ended).2]
  exact linked.cleaned still .idle fun _ => rfl

theorem not_writing (quiet : s.paused = []) : s.writing = false := by
  rw [writing, quiet]
  rfl

theorem Linked.finishWrite (linked : s.Linked) (answered : s.answered = true) {frames bytes : Nat}
    {messages : List (List Byte)} (finished : s.finishWrite frames bytes messages = some t) :
    t.Linked := by
  unfold Session.finishWrite at finished
  obtain ⟨id, mine, finished⟩ := bind_eq_some_iff.mp finished
  obtain ⟨ri, found, finished⟩ := bind_eq_some_iff.mp finished
  have noted :
      (s.modify id fun ri => { ri with receiveFrames := frames, receiveBytes := bytes }).Linked :=
    linked.modifyReq mine answered (fun _ kind => kind) fun _ open_ => ⟨open_, rfl⟩
  dsimp only at finished
  split at finished
  · cases finished
    refine Linked.stopTimer (Linked.respond ?_ _ _)
    exact noted.modifyReq mine answered (fun _ kind => kind) nofun
  · split at finished
    · cases finished
      refine Linked.respond ?_ _ _
      have lingered : (applyLinger { s.modify id fun ri =>
          { ri with receiveFrames := frames, receiveBytes := bytes } with
          closeSent := true }).Linked := { noted with }
      exact lingered.modifyReq mine answered (fun _ _ => rfl) nofun
    · cases finished
      exact noted

theorem drain_rest (rounds : Nat) (frames : List Frame) : ∀ f ∈ (drain rounds frames).2,
    f ∈ frames := by
  induction rounds generalizing frames with
  | zero => exact fun f mem => mem
  | succ rounds ih =>
    unfold drain
    cases first : splitMessage frames with
    | none => exact fun f mem => mem
    | some parts =>
      have tail : ∀ (frames : List Frame) parts, splitMessage frames = some parts →
          ∀ f ∈ parts.2, f ∈ frames := by
        intro frames
        induction frames with
        | nil => nofun
        | cons g frames ihf =>
          intro parts split_ f mem
          unfold splitMessage at split_
          split at split_
          · obtain ⟨rest, inner, rfl⟩ := Option.map_eq_some_iff.mp split_
            exact List.mem_cons_of_mem g (ihf rest inner f mem)
          · cases split_
            exact List.mem_cons_of_mem g mem
      exact fun f mem => tail frames parts first f (ih parts.2 f mem)

/-- Either nothing happens, as no request waits or the end was sent, or the complete
    messages are taken from the frames. -/
theorem tryWrite_cases {lib : Lib} (wrote : s.tryWrite lib = some t) :
    (t = s ∧ (s.closeSent = false → s.answerable = none)) ∨
    ∃ id ri messages rest, s.req = some id ∧ s.item id = some ri ∧ ri.responded = false ∧
      s.closeSent = false ∧ drain s.outFrames.length s.outFrames = (messages, rest) ∧
      let frames := (messages.map List.length).sum
      let bytes := (messages.map sizeOf).sum
      let texts := messages.map fun message => lib.fromUtf8 (bytesOf message)
      let taken : Session := { s with
        outFrames := rest
        pendingWrites :=
          s.pendingWrites ++ messages.map fun message => some (bytesOf message).length }
      (0 < bytes ∧ t =
        { taken.emit .writeBytesChanged with paused := .tryWrite frames bytes texts :: s.paused }) ∨
      (bytes = 0 ∧ taken.finishWrite frames bytes texts = some t) := by
  unfold tryWrite at wrote
  split at wrote
  · next alone =>
    refine Or.inl ⟨(Option.some.inj wrote).symm, fun _ => ?_⟩
    rw [answerable, alone]
    rfl
  · next id mine =>
    split at wrote
    · next sent =>
      exact Or.inl ⟨(Option.some.inj wrote).symm, fun open_ => absurd (sent.symm.trans open_)
        (by decide)⟩
    · next open_ =>
      obtain ⟨ri, found, wrote⟩ := bind_eq_some_iff.mp wrote
      split at wrote
      · next responded =>
        refine Or.inl ⟨(Option.some.inj wrote).symm, fun _ => ?_⟩
        rw [answerable, mine]
        simp [found, responded]
      · next waits =>
        dsimp only at wrote
        split at wrote
        · cases wrote
        · refine Or.inr ⟨id, ri, _, _, mine,
            found, by simpa using waits, by simpa using open_, rfl, ?_⟩
          split at wrote
          · next some_ => exact Or.inl ⟨some_, (Option.some.inj wrote).symm⟩
          · next none => exact Or.inr ⟨by omega, wrote⟩

theorem Linked.tryWrite {lib : Lib} (linked : s.Linked) (answered : s.answered = true)
    (wrote : s.tryWrite lib = some t) : t.Linked := by
  rcases tryWrite_cases wrote with ⟨rfl, -⟩ | ⟨id, ri, messages, rest, mine, found, -, -, drained,
    ⟨-, rfl⟩ | ⟨-, finished⟩⟩
  · exact linked
  · exact { linked with
      early := fun first => absurd (answered.symm.trans first) (by decide)
      texts := fun f mem => linked.texts f (drain_rest _ _ f (by rw [drained]; exact mem))
      writes := fun _ => ⟨by show s.req.isSome = true; rw [mine]; rfl, answered⟩ }
  · refine Linked.finishWrite ?_ ?_ finished
    · exact { linked with
        early := fun first => absurd (answered.symm.trans first) (by decide)
        texts := fun f mem => linked.texts f (drain_rest _ _ f (by rw [drained]; exact mem)) }
    · exact answered

theorem Linked.modifySend (linked : s.Linked) (found : s.item id = some ri)
    (sends : ri.type = .send) {f : RequestItem → RequestItem} (still : (f ri).type = .send)
    (full : (f ri).responded = false → (f ri).sendFrames ≠ [] ∧
    (f ri).sendBytes = sizeOf (f ri).sendFrames) :
    (s.modify id f).Linked := by
  have cases_ : ∀ {k ri'}, (s.modify id f).item k = some ri' → (k = id ∧ ri' = f ri) ∨
      (k ≠ id ∧ s.item k = some ri') := by
    intro k ri' there
    rw [item_modify] at there
    by_cases same : k = id
    · rw [if_pos same, same, found] at there
      exact Or.inl ⟨same, (Option.some.inj there).symm⟩
    · rw [if_neg same] at there
      exact Or.inr ⟨same, there⟩
  have off : ∀ {k}, s.req = some k → (s.modify id f).item k = s.item k := by
    intro k mine
    rw [item_modify, if_neg]
    rintro rfl
    obtain ⟨ri', there, kind⟩ := linked.owned k mine
    rw [found] at there
    cases there
    simp [RequestItem.ofReq, sends] at kind
  have kind_ : (f ri).ofReq = false := by simp [RequestItem.ofReq, still]
  exact { linked with
    owned := fun k mine => by
      obtain ⟨ri', there, kind⟩ := linked.owned k mine
      exact ⟨ri', (off mine).trans there, kind⟩
    only := fun k ri' there kind => by
      rcases cases_ there with ⟨-, rfl⟩ | ⟨-, old⟩
      · exact absurd (kind_.symm.trans kind) (by decide)
      · exact linked.only k ri' old kind
    sends := fun k ri' there send open_ => by
      rcases cases_ there with ⟨-, rfl⟩ | ⟨-, old⟩
      · exact full open_
      · exact linked.sends k ri' old send open_
    polls := fun k ri' there kind => by
      rcases cases_ there with ⟨-, rfl⟩ | ⟨-, old⟩
      · exact absurd (kind_.symm.trans kind) (by decide)
      · exact linked.polls k ri' old kind
    first := fun early k ri' there kind => by
      rcases cases_ there with ⟨-, rfl⟩ | ⟨-, old⟩
      · exact absurd (kind_.symm.trans kind) (by decide)
      · exact linked.first early k ri' old kind
    held := fun away => by
      rw [linked.held away id] at found
      cases found
    waits := fun first mode there => by
      obtain ⟨k, ri', mine, old, open_⟩ := answerable_isSome.mp (linked.waits first mode there)
      exact answerable_isSome.mpr ⟨k, ri', mine, (off mine).trans old, open_⟩
    carried := fun mode => by
      rw [(linked.carried mode).2 id] at found
      cases found }

theorem Linked.took (linked : s.Linked) {f : Frame} {frames : List Frame}
    (found : s.item id = some ri) (sends : ri.type = .send) (next : ri.sendFrames = f :: frames)
    (bytes : ri.sendBytes = sizeOf ri.sendFrames) : (s.took id ri f frames).Linked := by
  have left : ri.sendBytes - f.data.length = sizeOf frames := by
    rw [bytes, next]
    simp [sizeOf]
  have noted : (s.modify id fun ri => { ri with
      sendFrames := frames
      sendBytes := ri.sendBytes - f.data.length
      responded := ri.responded || frames.isEmpty }).Linked := by
    refine linked.modifySend found sends sends fun open_ => ⟨?_, left⟩
    rintro (rfl : frames = [])
    simp at open_
  exact { noted with }

theorem Linked.still (linked : s.Linked) (alone : s.req = none) : s.writing = false := by
  by_contra busy
  have there := (linked.writes (by simpa using busy)).1
  rw [alone] at there
  cases there

theorem Linked.tryRead {lib : Lib} (linked : s.Linked) (there : s.mode = .webSocketFramed →
    s.sock = true)
    {ready goes : Bool} (read : s.tryRead lib = some (t, ready, goes)) : t.Linked := by
  cases mode : s.mode with
  | http =>
    obtain ⟨u, _, eq, takes, -⟩ := tryRead_http lib mode linked.sends
    rw [eq] at read
    cases read
    have taken : u.Linked :=
        takes.rule Linked linked fun _ _ _ _ _ linked found sends _ next bytes _ =>
      Linked.took linked found sends next bytes
    cases ready with
    | true => exact taken.emit .readyRead
    | false => exact taken
  | webSocketFramed =>
    have alone := (linked.carried (by rw [mode]; decide)).1
    obtain ⟨u, _, over_, done, frames, on, eq⟩ := tryRead_framed lib mode (there mode)
    rw [eq] at read
    have kept : u.Linked := by
      rw [on.state]
      exact { linked with }
    have quiet : u.writing = false := by
      rw [on.state]
      exact linked.still alone
    cases over_ with
    | true =>
      obtain ⟨v, ended, eq⟩ := Option.map_eq_some_iff.mp read
      cases eq
      exact (kept.over quiet ended).emit .error
    | false =>
      cases read
      cases ready with
      | true => exact kept.emit .readyRead
      | false => exact kept
  | webSocketPassthrough =>
    unfold Session.tryRead at read
    rw [mode] at read
    cases read
    exact linked

def polled (s : Session) (id : Nat) (jsonpCallback : List Byte) : Session :=
  ({ s with req := some id }.insert id { jsonpCallback, type := .receive }).startTimer
    KEEPALIVE_TIMEOUT

theorem item_polled (s : Session) (id : Nat) (jsonpCallback : List Byte) (k : Nat) :
    (s.polled id jsonpCallback).item k = if k = id then some { jsonpCallback, type := .receive }
    else s.item k :=
  item_insert ..

theorem Linked.polled (linked : s.Linked) (there : s.manager = true) (alone : s.req = none)
    (answered : s.answered = true) (open_ : s.peerClosed = false) (http : s.mode = .http)
    (jsonpCallback : List Byte) :
    (s.polled id jsonpCallback).Linked := by
  have cases_ : ∀ {k ri}, (s.polled id jsonpCallback).item k = some ri →
      (k = id ∧ ri = { jsonpCallback, type := .receive }) ∨ s.item k = some ri := by
    intro k ri found
    rw [item_polled] at found
    split at found
    · next same => exact Or.inl ⟨same, (Option.some.inj found).symm⟩
    · exact Or.inr found
  have others : ∀ {k ri}, s.item k = some ri → ri.ofReq = false := by
    intro k ri found
    by_contra kind
    have mine := linked.only k ri found (by simpa using kind)
    rw [alone] at mine
    cases mine
  have noReq : s.answered ≠ false := by rw [answered]; decide
  exact { linked with
    owned := fun k mine => by
      cases mine
      exact ⟨_, (item_polled ..).trans (if_pos rfl), rfl⟩
    only := fun k ri found kind => by
      rcases cases_ found with ⟨rfl, -⟩ | old
      · rfl
      · exact absurd ((others old).symm.trans kind) (by decide)
    sends := fun k ri found => by
      rcases cases_ found with ⟨-, rfl⟩ | old
      · exact fun sends => by cases sends
      · exact linked.sends k ri old
    polls := fun k ri found kind => by
      rcases cases_ found with ⟨-, rfl⟩ | old
      · exact fun _ _ => rfl
      · exact absurd ((others old).symm.trans kind) (by decide)
    first := fun early => absurd early noReq
    held := fun away => absurd (there.symm.trans away) (by decide)
    waits := fun first => absurd first noReq
    early := fun first => absurd first noReq
    writes := fun busy => absurd ((linked.still alone).symm.trans busy) (by decide)
    away := fun away => absurd (open_.symm.trans away) (by decide)
    carried := fun mode => absurd http mode
    timer := fun _ => by
      refine ⟨?_, ?_⟩
      · show s.mode ≠ .webSocketPassthrough
        rw [http]
        decide
      · intro framed
        exact absurd (http.symm.trans framed) (by decide) }

theorem Linked.handleRequest {lib : Lib} (linked : s.Linked) (there : s.manager = true)
    (http : s.mode = .http) {req : Request} (fresh : s.item req.id = none)
    {jsonpCallback lastPart body : List Byte}
    (handled : s.handleRequest lib req jsonpCallback lastPart body = some t) : t.Linked := by
  unfold Session.handleRequest at handled
  split at handled
  · split at handled
    · cases handled
      exact linked.background there fresh http ..
    · next alone =>
      have alone : s.req = none := by simpa using alone
      have answered : s.answered = true := by
        by_contra first
        obtain ⟨id, ri, mine, -⟩ :=
          answerable_isSome.mp (linked.waits (by simpa using first) http there)
        rw [alone] at mine
        cases mine
      split at handled
      · cases handled
        exact linked.background there fresh http ..
      · next open_ =>
        have polled : (s.polled req.id jsonpCallback).Linked :=
          linked.polled there alone answered (by simpa using open_) http _
        exact polled.tryWrite answered handled
  · split at handled
    · split at handled
      · cases handled
        exact linked.background there fresh http ..
      · split at handled
        · split at handled
          · cases handled
            exact linked.background there fresh http ..
          · cases handled
            exact linked.background there fresh http ..
          · next frames some_ valid =>
            obtain ⟨⟨u, ready, goes⟩, read, rfl⟩ := Option.map_eq_some_iff.mp handled
            have sends := @Linked.insert _ _
              { jsonpCallback, type := .send, sendFrames := frames, sendBytes := sizeOf frames }
              linked there fresh http rfl fun _ _ => ⟨some_, rfl⟩
            exact sends.tryRead (fun framed => absurd (http.symm.trans framed) (by decide)) read
        · cases handled
          exact linked.background there fresh http ..
    · cases handled
      exact linked.background there fresh http ..

section
variable (linked : s.Linked)
include linked

theorem Linked.handleWritten {count contentBytes : Nat}
    (handled : s.handleWritten count contentBytes = some t) : t.Linked := by
  unfold Session.handleWritten at handled
  split at handled
  · cases handled
    exact linked.emit _
  · split at handled
    · cases handled
    · cases handled
      exact { linked with }

theorem Linked.answer (http : s.mode = .http) (early : s.answered = false)
    (mine : s.req = some id) {type : RequestType} (kind : type ≠ .background ∧ type ≠ .send)
    (accepted : Bool) :
    (Session.modify { s with answered := true, accepted } id fun ri =>
    { ri with type, responded := true }).Linked := by
  obtain ⟨ri₀, found₀, kind₀⟩ := linked.owned id mine
  have cases_ : ∀ {k ri}, (Session.modify { s with answered := true, accepted } id
      fun ri => { ri with type, responded := true }).item k = some ri →
      (k = id ∧ ri = { ri₀ with type, responded := true }) ∨ (k ≠ id ∧ s.item k = some ri) := by
    intro k ri found
    rw [item_modify] at found
    by_cases same : k = id
    · rw [if_pos same, same, show Session.item { s with answered := true, accepted } id =
        some ri₀ from found₀] at found
      exact Or.inl ⟨same, (Option.some.inj found).symm⟩
    · rw [if_neg same] at found
      exact Or.inr ⟨same, found⟩
  exact { linked with
    owned := fun k asks => by
      have same : k = id := Option.some.inj (asks.symm.trans mine)
      refine ⟨{ ri₀ with type, responded := true }, ?_, by simpa [RequestItem.ofReq] using kind⟩
      rw [item_modify, if_pos same, same,
        show Session.item { s with answered := true, accepted } id = some ri₀ from found₀]
      rfl
    only := fun k ri found kind => by
      rcases cases_ found with ⟨rfl, -⟩ | ⟨-, old⟩
      · exact mine
      · exact linked.only k ri old kind
    sends := fun k ri found sends => by
      rcases cases_ found with ⟨-, rfl⟩ | ⟨-, old⟩
      · exact absurd sends kind.2
      · exact linked.sends k ri old sends
    polls := fun k ri found kind open_ _ => by
      rcases cases_ found with ⟨-, rfl⟩ | ⟨other, old⟩
      · cases open_
      · exact absurd (Option.some.inj ((linked.only k ri old kind).symm.trans mine)) other
    first := fun early => by cases early
    held := fun away => by
      rw [linked.held away id] at found₀
      cases found₀
    waits := fun early => by cases early
    begins := fun early => by cases early
    early := fun early => by cases early
    accepts := fun _ => rfl
    writes := fun busy => absurd ((linked.writes busy).2.symm.trans early) (by decide)
    carried := fun mode => absurd http mode }

theorem Linked.answerSock (carried : s.mode ≠ .http) (accepted : Bool) :
    ({ s with answered := true, accepted } : Session).Linked :=
  { linked with
    polls := fun k ri found => by
      rw [show Session.item { s with answered := true, accepted } k = none from
        (linked.carried carried).2 k] at found
      cases found
    first := fun early => by cases early
    waits := fun early => by cases early
    begins := fun early => by cases early
    early := fun early => by cases early
    accepts := fun _ => rfl
    writes := fun busy => ⟨(linked.writes busy).1, rfl⟩ }

theorem Linked.accept (can : s.state = .connecting) (early : s.answered = false)
    {reason : List Byte} {headers : List (List Byte × List Byte)}
    (took : Session.accept { s with answered := true, accepted := true } reason headers = some t) :
    t.Linked := by
  unfold Session.accept at took
  rw [if_neg (show ¬ s.errored = true by rw [(linked.early early).2.1]; decide)] at took
  split at took
  · next http =>
    obtain ⟨⟨id, ri⟩, found, took⟩ := bind_eq_some_iff.mp took
    cases took
    obtain ⟨id', mine, found⟩ := bind_eq_some_iff.mp found
    obtain ⟨ri', -, found⟩ := bind_eq_some_iff.mp found
    split at found
    · cases found
    · cases found
      exact (linked.answer http early mine (by decide) true).respond _ _
  · next carried =>
    have answered := linked.answerSock carried true
    have on : s.gone = false → s.state ≠ .idle := fun _ => by rw [can]; decide
    split at took
    · cases took
    · next sock =>
      split at took
      · next framed =>
        have there : s.sock = true := by simpa using sock
        cases took
        exact { answered with
          begins := fun early => by cases early
          early := fun early => by cases early
          present := fun here _ => linked.present here (on here)
          timer := fun _ =>
            ⟨fun away => Mode.noConfusion (framed.symm.trans away), fun _ => there⟩ }
      · cases took
        exact { answered with
          begins := fun early => by cases early
          present := fun here _ => linked.present here (on here) }

theorem Linked.reject (early : s.answered = false)
    {code : Nat} {reason body : List Byte} {headers : List (List Byte × List Byte)}
    (took : Session.reject { s with answered := true } code reason headers body = some t) :
    t.Linked := by
  unfold Session.reject at took
  rw [if_neg (show ¬ s.errored = true by rw [(linked.early early).2.1]; decide)] at took
  split at took
  · next http =>
    obtain ⟨⟨id, ri⟩, found, took⟩ := bind_eq_some_iff.mp took
    cases took
    obtain ⟨id', mine, found⟩ := bind_eq_some_iff.mp found
    obtain ⟨ri', -, found⟩ := bind_eq_some_iff.mp found
    split at found
    · cases found
    · cases found
      exact (linked.answer http early mine (by decide) s.accepted).respond _ _
  · next carried =>
    split at took
    · cases took
    · cases took
      exact (linked.answerSock carried s.accepted).emit _

end

theorem Linked.writeFrame {lib : Lib} (linked : s.Linked) (answered : s.answered = true)
    {frame : Frame} (wrote : s.writeFrame lib frame = some t) : t.Linked := by
  unfold Session.writeFrame at wrote
  split at wrote
  · cases wrote
  · split at wrote
    · split at wrote
      · cases wrote
      · cases wrote
        exact { linked with }
    · split at wrote
      · cases wrote
        exact { linked with }
      · next text =>
        split at wrote
        · split at wrote
          · cases wrote
            exact { linked with
              early := fun first => absurd (answered.symm.trans first) (by decide) }
          · refine Linked.tryWrite ?_ ?_ wrote
            · exact { linked with
                early := fun first => absurd (answered.symm.trans first) (by decide)
                texts := List.forall_mem_append.mpr ⟨linked.texts, by simpa using text⟩ }
            · exact answered
        · split at wrote
          · cases wrote
          · cases wrote
            exact { linked with }

theorem Linked.readFrame (linked : s.Linked) (read : s.readFrame = some t) : t.Linked := by
  unfold Session.readFrame at read
  split at read
  · split at read
    · cases read
    · cases read
      exact { linked with }
  · split at read
    · cases read
    · cases read
      exact { linked with }

theorem Linked.close {lib : Lib} (linked : s.Linked) (answered : s.answered = true) {code : Int}
    {reason : List Byte} (can : s.state ≠ .idle)
    (closed : s.close lib code reason = some t) : t.Linked := by
  have noReq : s.answered ≠ false := by rw [answered]; decide
  have closing :
      ({ s with state := .closing, closeCode := code, closeReason := reason } : Session).Linked :=
    { linked with
      begins := fun first => absurd first noReq
      present := fun here _ => linked.present here can }
  unfold Session.close at closed
  split at closed
  · cases closed
  · dsimp only at closed
    split at closed
    · split at closed
      · next away =>
        obtain ⟨u, ended, eq⟩ := bind_eq_some_iff.mp closed
        cases eq
        have quiet := linked.still (linked.away away)
        have over_ :=
          @Linked.over ({ s with
            state := .closing, closeCode := code, closeReason := reason } : Session).applyLinger
          u { closing with } quiet ended
        exact { over_ with }
      · exact Linked.tryWrite closing answered closed
    · split at closed
      · cases closed
      · cases closed
        exact { closing with }

section
variable (linked : s.Linked)
include linked

theorem Linked.http (found : s.item id = some ri) : s.mode = .http := by
  by_contra carried
  rw [(linked.carried carried).2 id] at found
  cases found

theorem Linked.there (found : s.item id = some ri) : s.manager = true := by
  by_contra away
  rw [linked.held (by simpa using away) id] at found
  cases found

/-- A request is responded to before the application answers only if it does not poll. -/
theorem Linked.answered (mine : s.req = some id) (found : s.item id = some ri)
    (responded : ri.responded = true) : s.answered = true := by
  by_contra early
  obtain ⟨id', ri', mine', found', open_⟩ :=
    answerable_isSome.mp (linked.waits (by simpa using early) (linked.http found)
      (linked.there found))
  cases mine.symm.trans mine'
  cases found.symm.trans found'
  exact absurd (responded.symm.trans open_) (by decide)

theorem Linked.overReq (still : s.writing = false)
    (ended : (Session.cleanup { Session.removeRequestItem { s with req := none } id with
    state := .idle }) = some t) :
    t.Linked := by
  rw [cleanup_eq] at ended
  rw [← Option.some.inj (Option.ite_none_right_eq_some.mp ended).2]
  exact { linked.cleaned still .idle fun _ => rfl with }

theorem Linked.req_bytesWritten (quiet : s.paused = []) {finished : Bool}
    (responded : (s.item id).any (fun ri => ri.responded) = true)
    (written : s.req_bytesWritten id finished = some t) : t.Linked := by
  have still := not_writing quiet
  unfold Session.req_bytesWritten at written
  obtain ⟨ri, found, written⟩ := bind_eq_some_iff.mp written
  rw [found] at responded
  have http := linked.http found
  split at written
  · cases written
    exact linked
  · dsimp only at written
    split at written
    · split at written
      · next mine =>
        cases written
        have answered := linked.answered mine found responded
        have left :=
          (linked.removeReq mine answered still).startTimer answered http UNCONNECTED_TIMEOUT
        exact { left with
          begins := fun early => absurd (answered.symm.trans early) (by decide)
          present := fun _ _ => ⟨linked.there found, fun carried => absurd http carried⟩ }
      · cases written
    · split at written
      · next mine =>
        have answered := linked.answered mine found responded
        have left := linked.removeReq mine answered still
        split at written
        · obtain ⟨u, ended, eq⟩ := bind_eq_some_iff.mp written
          cases eq
          exact (linked.overReq still ended).emit .closed
        · split at written
          · exact (left.startTimer answered http UNCONNECTED_TIMEOUT).handleWritten written
          · cases written
            exact left
      · next other =>
        cases written
        exact linked.remove id other

theorem Linked.req_error (quiet : s.paused = []) {disconnected : Bool}
    (failed : s.req_error id disconnected = some t) : t.Linked := by
  have still := not_writing quiet
  unfold Session.req_error at failed
  obtain ⟨ri, found, failed⟩ := bind_eq_some_iff.mp failed
  split at failed
  · next other =>
    cases failed
    refine linked.remove id fun mine => ?_
    obtain ⟨ri', found', kind⟩ := linked.owned id mine
    cases found.symm.trans found'
    rcases other with kind' | kind' <;> simp [RequestItem.ofReq, kind'] at kind
  · dsimp only at failed
    split at failed
    · cases failed
    · next mine =>
      have mine : s.req = some id := by simpa using mine
      split at failed
      · next away =>
        cases failed
        have answered : s.answered = true := by
          by_contra early
          obtain ⟨ri', found', kind⟩ := linked.owned id mine
          cases found.symm.trans found'
          have first := linked.first (by simpa using early) id ri found kind
          rw [away.1.1] at first
          cases first
        exact { linked.removeReq mine answered still with away := fun _ => rfl }
      · obtain ⟨u, ended, eq⟩ := bind_eq_some_iff.mp failed
        cases eq
        exact (linked.overReq still ended).emit _

theorem Linked.finishUpdate : s.finishUpdate.Linked := by
  unfold Session.finishUpdate
  split
  · exact { linked with }
  · exact linked

end

theorem Linked.doUpdate {lib : Lib} (linked : s.Linked) (quiet : s.paused = [])
    (there : s.errored = false → s.mode = .webSocketFramed → s.sock = true)
    (updated : s.doUpdate lib = some t) : t.Linked := by
  have begun : ({ s with updating := false } : Session).Linked := { linked with }
  unfold Session.doUpdate at updated
  dsimp only at updated
  split at updated
  · obtain ⟨u, ended, eq⟩ := bind_eq_some_iff.mp updated
    cases eq
    exact (begun.over (not_writing quiet) ended).emit .error
  · next fine =>
    split at updated
    · cases updated
      exact begun
    · obtain ⟨⟨u, ready, goes⟩, read, updated⟩ := bind_eq_some_iff.mp updated
      have on : u.Linked := begun.tryRead (there (by simpa using fine)) read
      dsimp only at updated
      split at updated
      · cases updated
        exact on
      · split at updated
        · cases updated
          exact { on with }
        · cases updated
          exact on.finishUpdate

theorem Linked.timeout (linked : s.Linked) (quiet : s.paused = [])
    (runs : s.keepAliveTimer.isSome = true) (expired : s.keepAliveTimer_timeout = some t) :
    t.Linked := by
  have answered : s.answered = true := by
    by_contra first
    rw [(linked.early (by simpa using first)).2.2] at runs
    cases runs
  unfold keepAliveTimer_timeout at expired
  split at expired
  · cases expired
  · split at expired
    · next id mine =>
      obtain ⟨⟨id', ri⟩, found, expired⟩ := bind_eq_some_iff.mp expired
      cases expired
      exact (linked.modifyReq (f := fun ri => { ri with responded := true }) mine answered
        (fun _ kind => kind) nofun).respond _ _
    · obtain ⟨u, ended, eq⟩ := bind_eq_some_iff.mp expired
      cases eq
      exact (linked.over (not_writing quiet) ended).emit .error
  · split at expired
    · cases expired
    · cases expired
      exact { linked with }

theorem Linked.resume (linked : s.Linked) (resumed : s.resume = some t) : t.Linked := by
  unfold Session.resume at resumed
  split at resumed
  · cases resumed
  · next frames bytes messages paused eq =>
    have busy : s.writing = true := by simp [Session.writing, eq, Pause.writes]
    have left : ({ s with paused } : Session).Linked :=
      { linked with writes := fun _ => linked.writes busy }
    exact left.finishWrite (linked.writes busy).2 resumed
  · next paused eq =>
    cases resumed
    have same : s.writing = paused.any Pause.writes := by
      rw [Session.writing, eq]
      rfl
    have left : ({ s with paused } : Session).Linked :=
      { linked with writes := fun busy => linked.writes (same.trans busy) }
    exact left.finishUpdate

/-- What `possible` says of each event. -/
def Possible (s : Session) : Event → Prop
  | .handleRequest req _ _ _ => s.paused = [] ∧
      ((s.manager = true ∧ s.mode = .http) ∧ s.item req.id = none) ∧ req.id ∉ responses s.out
  | .req_bytesWritten id _ => s.paused = [] ∧ ((s.item id).any fun ri => ri.responded) = true
  | .req_error id _ => s.paused = [] ∧ (s.item id).isSome = true
  | .accept _ _ | .reject .. =>
      (s.state = .connecting ∧ s.answered = false) ∧ s.paused = []
  | .writeFrame _ | .close _ _ =>
      s.accepted = true ∧ (s.state = .connecting ∨ s.state = .connected)
  | .readFrame => ofApplication s .readFrame = true
  | .sock_framesWritten count _ => s.paused = [] ∧ s.sock = true ∧ count ≤ s.sockPending
  | .arrive _ | .sock_readyRead | .sock_writeBytesChanged | .sock_peerClosed _ _
  | .sock_closed _ _ | .sock_error _ => s.paused = [] ∧ s.sock = true
  | .doUpdate => s.paused = [] ∧ s.updating = true
  | .doClosed => s.paused = [] ∧ s.deferred = true
  | .timeout => s.paused = [] ∧ s.keepAliveTimer.isSome = true
  | .resume => s.paused ≠ []
  | .destroy => True

theorem possible_cases {event : Event} (can : possible s event = true) :
    s.gone = false ∧ s.Possible event := by
  simp only [possible, Bool.and_eq_true, Bool.not_eq_true'] at can
  refine ⟨can.1, ?_⟩
  have can := can.2
  cases event with
  | destroy => trivial
  | readFrame => simpa [ofOthers, Possible] using can
  | _ => simpa [ofApplication, ofOthers, Possible] using can

end Session
open Session

theorem step_linked {lib : Lib} {s t : Session} {event : Event} (linked : s.Linked)
    (can : possible s event = true) (there : event = .doUpdate → s.errored = false →
    s.mode = .webSocketFramed → s.sock = true) (stepped : step lib s event = some t) :
    t.Linked := by
  obtain ⟨here, can⟩ := possible_cases can
  cases event with
  | handleRequest req jsonpCallback lastPart body =>
    exact linked.handleRequest can.2.1.1.1 can.2.1.1.2 can.2.1.2 stepped
  | req_bytesWritten id finished =>
    exact linked.req_bytesWritten can.1 can.2 stepped
  | req_error id disconnected =>
    exact linked.req_error can.1 stepped
  | accept reason headers =>
    exact linked.accept can.1.1 can.1.2 stepped
  | reject code reason headers body =>
    exact linked.reject can.1.2 stepped
  | writeFrame frame =>
    have given : ({ s with given := s.given ++ [frame] } : Session).Linked := { linked with }
    exact given.writeFrame (linked.accepts can.1) stepped
  | readFrame => exact linked.readFrame stepped
  | close code reason =>
    refine linked.close (linked.accepts can.1) ?_ stepped
    rintro idle
    rcases can.2 with state | state <;> rw [idle] at state <;> cases state
  | arrive frames =>
    cases stepped
    exact { linked with }
  | sock_readyRead =>
    change s.sock_readyRead lib = some t at stepped
    unfold sock_readyRead at stepped
    split at stepped
    · obtain ⟨⟨u, ready, goes⟩, read, rfl⟩ := Option.map_eq_some_iff.mp stepped
      exact linked.tryRead (fun _ => can.2) read
    · cases stepped
      exact linked.emit _
  | sock_framesWritten count contentBytes =>
    have told : ({ s with sockPending := s.sockPending - count } : Session).Linked :=
      { linked with }
    exact told.handleWritten stepped
  | sock_writeBytesChanged =>
    cases stepped
    exact linked.emit _
  | sock_peerClosed code reason =>
    cases stepped
    exact { linked with }
  | sock_closed code reason =>
    obtain ⟨u, ended, eq⟩ := bind_eq_some_iff.mp stepped
    cases eq
    have told : ({ s with peerCloseCode := code, peerCloseReason := reason } : Session).Linked :=
      { linked with }
    exact (told.over (not_writing can.1) ended).emit _
  | sock_error condition =>
    obtain ⟨u, ended, eq⟩ := bind_eq_some_iff.mp stepped
    cases eq
    have told : ({ s with errorCondition := condition } : Session).Linked := { linked with }
    exact (told.over (not_writing can.1) ended).emit _
  | doUpdate =>
    exact linked.doUpdate can.1 (there rfl) stepped
  | doClosed =>
    cases stepped
    exact { linked with }
  | timeout =>
    exact linked.timeout can.1 can.2 stepped
  | resume => exact linked.resume stepped
  | destroy =>
    obtain ⟨u, ended, eq⟩ := bind_eq_some_iff.mp stepped
    cases eq
    rw [cleanup_eq] at ended
    rw [← Option.some.inj (Option.ite_none_right_eq_some.mp ended).2]
    have gone : ({ s with gone := true, paused := [] } : Session).Linked :=
      { linked with writes := fun busy => by cases busy
                    present := fun here => by cases here }
    exact { gone.cleaned rfl s.state (fun here => Bool.noConfusion here) with }

theorem start_linked (mode : Mode) (id : Nat) (jsonpCallback : List Byte) :
    (setup mode id jsonpCallback).startServer.Linked := by
  cases mode with
  | http =>
    have item_ : ∀ k ri, (setup .http id jsonpCallback).startServer.item k = some ri →
        k = id ∧ ri = { jsonpCallback, type := .connect } := by
      intro k ri found
      have eq : (setup .http id jsonpCallback).startServer.item k =
        if k = id then some { jsonpCallback, type := .connect } else none := Hash.get?_insert ..
      rw [eq] at found
      split at found
      · next same => exact ⟨same, (Option.some.inj found).symm⟩
      · cases found
    have found : (setup .http id jsonpCallback).startServer.item id =
        some { jsonpCallback, type := .connect } :=
      (Hash.get?_insert ..).trans (if_pos rfl)
    exact {
      owned := fun k mine => by
        cases mine
        exact ⟨_, found, rfl⟩
      only := fun k ri found kind => by rw [(item_ k ri found).1]; rfl
      sends := fun k ri found sends => by
        rw [(item_ k ri found).2] at sends
        cases sends
      polls := fun _ _ _ _ _ answered => by cases answered
      first := fun _ k ri found _ => by rw [(item_ k ri found).2]
      held := fun away => by cases away
      waits := fun _ _ _ => answerable_isSome.mpr ⟨id, _, rfl, found, rfl⟩
      begins := fun _ _ => rfl
      early := fun _ => ⟨rfl, rfl, rfl⟩
      accepts := fun accepted => by cases accepted
      texts := fun _ mem => by cases mem
      writes := fun busy => by cases busy
      away := fun away => by cases away
      carried := fun carried => absurd rfl carried
      present := fun _ _ => ⟨rfl, fun carried => absurd rfl carried⟩
      bare := fun _ => rfl
      timer := fun runs => by cases runs }
  | _ =>
    exact {
      owned := fun k mine => by cases mine
      only := fun _ _ found => by cases found
      sends := fun _ _ found => by cases found
      polls := fun _ _ found => by cases found
      first := fun _ _ _ found => by cases found
      held := fun away => by cases away
      waits := fun _ http => by cases http
      begins := fun _ _ => rfl
      early := fun _ => ⟨rfl, rfl, rfl⟩
      accepts := fun accepted => by cases accepted
      texts := fun _ mem => by cases mem
      writes := fun busy => by cases busy
      away := fun _ => rfl
      carried := fun _ => ⟨rfl, fun _ => rfl⟩
      present := fun _ _ => ⟨rfl, fun _ => rfl⟩
      bare := fun http => by cases http
      timer := fun runs => by cases runs }

end PushpinSockJs
