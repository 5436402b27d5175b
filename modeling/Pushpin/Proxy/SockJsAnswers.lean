import Pushpin.Proxy.SockJsWrites

namespace PushpinSockJs
open PushpinRingBuffer Text Loops Hashes Session

theorem responses_append (xs ys : List Output) :
    responses (xs ++ ys) = responses xs ++ responses ys :=
  List.filterMap_append

namespace Session
variable {s t : Session} {id : Nat} {ri : RequestItem}

structure Unique (s : Session) : Prop where
  once : (responses s.out).Nodup
  fresh : ∀ id ri, s.item id = some ri → ri.responded = false → id ∉ responses s.out

section
variable (unique : s.Unique)
include unique

theorem Unique.silent (outputs : List Output) (silent : responses outputs = [])
    (out : t.out = s.out ++ outputs) (items : ∀ k, t.item k = s.item k) : t.Unique := by
  have same : responses t.out = responses s.out := by
    rw [out, responses_append, silent, List.append_nil]
  exact ⟨same ▸ unique.once, fun k ri found open_ => same ▸ unique.fresh k ri
    ((items k).symm.trans found) open_⟩

theorem Unique.emit (output : Output) (silent : responses [output] = []) : (s.emit output).Unique :=
  unique.silent [output] silent rfl fun _ => rfl

theorem Unique.respond (fresh : id ∉ responses s.out)
    (over_ : ∀ ri, s.item id = some ri → ri.responded = true) (reply : Reply)
    (jsonpCallback : List Byte) :
    (s.respond id reply jsonpCallback).Unique := by
  have more : responses (s.respond id reply jsonpCallback).out = responses s.out ++ [id] :=
    responses_append ..
  refine ⟨?_, fun k ri found open_ => ?_⟩
  · rw [more, ← List.concat_eq_append]
    exact unique.once.concat fresh
  · rw [more, List.mem_append, List.mem_singleton]
    rintro (old | rfl)
    · exact unique.fresh k ri found open_ old
    · exact absurd ((over_ ri found).symm.trans open_) (by decide)

theorem Unique.modify (id : Nat) {f : RequestItem → RequestItem}
    (closed : ∀ ri, (f ri).responded = false → ri.responded = false) : (s.modify id f).Unique := by
  refine ⟨unique.once, fun k ri found open_ => ?_⟩
  rw [item_modify] at found
  split at found
  · obtain ⟨ri', found', rfl⟩ := Option.map_eq_some_iff.mp found
    exact unique.fresh k ri' found' (closed ri' open_)
  · exact unique.fresh k ri found open_

theorem Unique.answer (found : s.item id = some ri)
    (waits : ri.responded = false) {f : RequestItem → RequestItem}
    (marks : ∀ ri, (f ri).responded = true) (reply : Reply) (jsonpCallback : List Byte) :
    ((s.modify id f).respond id reply jsonpCallback).Unique := by
  refine (unique.modify id fun ri' open_ => ?_).respond (unique.fresh id ri found waits)
    (fun ri' found' => ?_) _ _
  · exact absurd ((marks ri').symm.trans open_) (by decide)
  · rw [item_modify, if_pos rfl, found] at found'
    cases found'
    exact marks ri

theorem Unique.insert (new : id ∉ responses s.out) (ri : RequestItem) :
    (s.insert id ri).Unique := by
  refine ⟨unique.once, fun k ri' found open_ => ?_⟩
  rw [item_insert] at found
  split at found
  · next same =>
    rw [same]
    exact new
  · exact unique.fresh k ri' found open_

theorem Unique.background (new : id ∉ responses s.out)
    (jsonpCallback : List Byte) (reply : Reply) : (s.background id jsonpCallback reply).Unique := by
  refine (unique.insert new _).respond new (fun ri found => ?_) reply jsonpCallback
  rw [item_insert, if_pos rfl] at found
  cases found
  rfl

theorem Unique.remove (id : Nat) : (s.removeRequestItem id).Unique := by
  refine ⟨unique.once, fun k ri found open_ => ?_⟩
  rw [item_remove] at found
  split at found
  · cases found
  · exact unique.fresh k ri found open_

theorem Unique.took {f : Frame} {frames : List Frame}
    (found : s.item id = some ri) (waits : ri.responded = false) :
    (s.took id ri f frames).Unique := by
  by_cases last : frames = []
  · have over_ := unique.answer found waits (f := fun ri => { ri with
        sendFrames := frames
        sendBytes := ri.sendBytes - f.data.length
        responded := ri.responded || frames.isEmpty }) (fun ri => by simp [last]) .ok
          ri.jsonpCallback
    refine over_.silent [] rfl ?_ fun _ => rfl
    rw [Session.took, if_pos last, List.append_nil]
    rfl
  · have changed := unique.modify id (f := fun ri => { ri with
        sendFrames := frames
        sendBytes := ri.sendBytes - f.data.length
        responded := ri.responded || frames.isEmpty }) fun ri open_ =>
          (Bool.or_eq_false_iff.mp open_).1
    refine changed.silent [] rfl ?_ fun _ => rfl
    rw [Session.took, if_neg last]
    rfl

end

def unanswered (s : Session) : Bool := s.req.isNone || s.answerable.isSome

section
variable (unique : s.Unique)
include unique

theorem Unique.unanswered (can : s.unanswered = true) : ∀ id, s.req = some id →
    id ∉ responses s.out := by
  intro id mine
  rw [Session.unanswered, mine] at can
  obtain ⟨id', ri, mine', found, waits⟩ := answerable_isSome.mp (by simpa using can)
  cases mine.symm.trans mine'
  exact unique.fresh id ri found waits

theorem Unique.cleanup (can : ∀ id, s.req = some id → id ∉ responses s.out)
    (ended : s.cleanup = some t) : t.Unique := by
  rw [cleanup_eq] at ended
  rw [← Option.some.inj (Option.ite_none_right_eq_some.mp ended).2]
  have out : responses s.cleaned.out = responses s.out ++ s.req.toList := by
    show responses (s.out ++ _ ++ _) = _
    rw [responses_append, responses_append]
    cases req : s.req with
    | none => cases s.manager <;> simp [responses]
    | some id => cases s.manager <;> simp [responses]
  refine ⟨?_, fun _ _ found => by cases found⟩
  rw [out]
  cases req : s.req with
  | none => simpa using unique.once
  | some id =>
    have last := unique.once.concat (can id req)
    rw [List.concat_eq_append] at last
    exact last

theorem Unique.over (alone : s.req = none) (ended : s.cleanup = some t) : t.Unique :=
  unique.cleanup (fun id mine => by cases alone.symm.trans mine) ended

theorem Unique.finishWrite (mine : s.req = some id)
    (found : s.item id = some ri) (waits : ri.responded = false) {frames bytes : Nat}
    {messages : List (List Byte)}
    (finished : s.finishWrite frames bytes messages = some t) : t.Unique := by
  rw [finishWrite_eq mine found] at finished
  cases finished
  split
  · have over_ := unique.answer found waits (f := fun ri => { ri with
        receiveFrames := frames, receiveBytes := bytes, responded := true }) (fun _ => rfl)
          (.a messages) ri.jsonpCallback
    exact { over_ with }
  · split
    · have lingered : (s.emit (.setLinger s.closeValue.1 s.closeValue.2)).Unique :=
        unique.emit _ rfl
      have lingered : (applyLinger { s with closeSent := true }).Unique := { lingered with }
      exact @Unique.answer _ _ ri lingered found waits _ (fun _ => rfl) _ _
    · exact unique.modify id fun _ open_ => open_

theorem Unique.handleWritten {count contentBytes : Nat}
    (handled : s.handleWritten count contentBytes = some t) : t.Unique := by
  unfold Session.handleWritten at handled
  split at handled
  · cases handled
    exact unique.emit _ rfl
  · split at handled
    · cases handled
    · cases handled
      exact Unique.emit (s := { s with
        pendingWrites := s.pendingWrites.drop count
        pendingWrittenFrames := 0
        pendingWrittenBytes := 0 }) { unique with } _ rfl

theorem Unique.finishUpdate : s.finishUpdate.Unique := by
  unfold Session.finishUpdate
  split
  · exact Unique.emit (s := { s with pendingWrittenFrames := 0, pendingWrittenBytes := 0 })
      { unique with } _ rfl
  · exact unique

end

theorem Unique.tryWrite {lib : Lib} (unique : s.Unique) (wrote : s.tryWrite lib = some t) :
    t.Unique := by
  rcases tryWrite_cases wrote with ⟨rfl, -⟩ | ⟨id, ri, messages, rest, mine, found, waits, -, -,
    ⟨-, rfl⟩ | ⟨-, finished⟩⟩
  · exact unique
  · have told : (s.emit .writeBytesChanged).Unique := unique.emit _ rfl
    exact { told with }
  · have taken : ({ s with
        outFrames := rest
        pendingWrites := s.pendingWrites ++ messages.map fun message =>
          some (bytesOf message).length } : Session).Unique :=
      { unique with }
    exact taken.finishWrite mine found waits finished

theorem Unique.tryRead {lib : Lib} (linked : s.Linked) (unique : s.Unique)
    (there : s.mode = .webSocketFramed → s.sock = true) {ready goes : Bool}
    (read : s.tryRead lib = some (t, ready, goes)) : t.Unique := by
  cases mode : s.mode with
  | http =>
    obtain ⟨u, _, eq, takes, -⟩ := tryRead_http lib mode linked.sends
    rw [eq] at read
    cases read
    have taken : u.Unique :=
      takes.rule Unique unique fun _ _ _ _ _ unique found _ waits _ _ _ => unique.took found waits
    cases ready with
    | true => exact taken.emit _ rfl
    | false => exact taken
  | webSocketFramed =>
    have alone := (linked.carried (by rw [mode]; decide)).1
    obtain ⟨u, _, over_, done, frames, on, eq⟩ := tryRead_framed lib mode (there mode)
    rw [eq] at read
    have kept : u.Unique := by
      rw [on.state]
      exact { unique with }
    have alone : u.req = none := by rw [on.state]; exact alone
    cases over_ with
    | true =>
      obtain ⟨v, ended, eq⟩ := Option.map_eq_some_iff.mp read
      cases eq
      have kept : ({ u with state := .idle } : Session).Unique := { kept with }
      exact (kept.over alone ended).emit _ rfl
    | false =>
      cases read
      cases ready with
      | true => exact kept.emit _ rfl
      | false => exact kept
  | webSocketPassthrough =>
    unfold Session.tryRead at read
    rw [mode] at read
    cases read
    exact unique

/-- What responds to each request once: the session is not over while the answer to the
    polling request is on its way. -/
def unhurried (s : Session) : Event → Bool
  | .doUpdate => !s.errored || s.unanswered
  | .destroy => s.unanswered
  | _ => true

section
variable (unique : s.Unique)
include unique

theorem Unique.handleRequest {lib : Lib} (linked : s.Linked) (there : s.manager = true)
    (http : s.mode = .http) {req : Request} (fresh : s.item req.id = none)
    (new : req.id ∉ responses s.out) {jsonpCallback lastPart body : List Byte}
    (stepped : s.handleRequest lib req jsonpCallback lastPart body = some t) : t.Unique := by
  unfold Session.handleRequest at stepped
  split at stepped
  · split at stepped
    · cases stepped
      exact unique.background new _ _
    · split at stepped
      · cases stepped
        exact unique.background new _ _
      · have polled : (s.polled req.id jsonpCallback).Unique :=
          { unique.insert new { jsonpCallback, type := .receive } with }
        exact polled.tryWrite stepped
  · split at stepped
    · split at stepped
      · cases stepped
        exact unique.background new _ _
      · split at stepped
        · split at stepped
          · cases stepped
            exact unique.background new _ _
          · cases stepped
            exact unique.background new _ _
          · next frames some_ valid =>
            obtain ⟨⟨u, ready, goes⟩, read, rfl⟩ := Option.map_eq_some_iff.mp stepped
            have sends := @Linked.insert s req.id
              { jsonpCallback, type := .send, sendFrames := frames, sendBytes := sizeOf frames }
              linked there fresh http rfl fun _ _ => ⟨some_, rfl⟩
            exact (unique.insert new _).tryRead sends
              (fun framed => absurd (http.symm.trans framed) (by decide)) read
        · cases stepped
          exact unique.background new _ _
    · cases stepped
      exact unique.background new _ _

theorem Unique.req_bytesWritten {finished : Bool}
    (stepped : s.req_bytesWritten id finished = some t) : t.Unique := by
  obtain ⟨ri, found, stepped⟩ := Option.bind_eq_some_iff.mp stepped
  split at stepped
  · cases stepped
    exact unique
  · have left : (Session.removeRequestItem { s with req := none } id).Unique :=
      Unique.remove (s := { s with req := none }) { unique with } id
    dsimp only at stepped
    split at stepped
    · split at stepped
      · cases stepped
        exact { left with }
      · cases stepped
    · split at stepped
      · split at stepped
        · obtain ⟨u, ended, eq⟩ := Option.bind_eq_some_iff.mp stepped
          cases eq
          have left : ({ Session.removeRequestItem { s with req := none } id with
              state := .idle } : Session).Unique :=
            { left with }
          exact (left.over rfl ended).emit _ rfl
        · split at stepped
          · have left : ((Session.removeRequestItem { s with req := none } id).startTimer
                UNCONNECTED_TIMEOUT).Unique :=
              { left with }
            exact left.handleWritten stepped
          · cases stepped
            exact left
      · cases stepped
        exact unique.remove id

theorem Unique.req_error {disconnected : Bool} (stepped : s.req_error id disconnected = some t) :
    t.Unique := by
  obtain ⟨ri, found, stepped⟩ := Option.bind_eq_some_iff.mp stepped
  split at stepped
  · cases stepped
    exact unique.remove id
  · have left : (Session.removeRequestItem { s with req := none } id).Unique :=
      Unique.remove (s := { s with req := none }) { unique with } id
    dsimp only at stepped
    split at stepped
    · cases stepped
    · split at stepped
      · cases stepped
        exact Unique.emit (s := { Session.removeRequestItem { s with req := none } id with
          peerClosed := true }) { left with } _ rfl
      · obtain ⟨u, ended, eq⟩ := Option.bind_eq_some_iff.mp stepped
        cases eq
        have left : ({ Session.removeRequestItem { s with req := none } id with
            state := .idle } : Session).Unique :=
          { left with }
        refine (left.over rfl ended).emit _ ?_
        split <;> rfl

theorem Unique.writeFrame {lib : Lib} {frame : Frame}
    (stepped : Session.writeFrame lib { s with given := s.given ++ [frame] } frame = some t) :
    t.Unique := by
  have base : ({ s with given := s.given ++ [frame] } : Session).Unique := { unique with }
  unfold Session.writeFrame at stepped
  split at stepped
  · cases stepped
  · split at stepped
    · split at stepped
      · cases stepped
      · cases stepped
        have wrote := base.emit (.sockWriteFrame frame) rfl
        exact { wrote with }
    · split at stepped
      · cases stepped
        exact { base with }
      · split at stepped
        · split at stepped
          · cases stepped
            exact { base with }
          · have added :
                ({ s with given := s.given ++ [frame], outFrames := s.outFrames ++ [frame] } :
                  Session).Unique :=
              { base with }
            exact added.tryWrite stepped
        · split at stepped
          · cases stepped
          · cases stepped
            have wrote := base.emit (.sockWrite (.a [lib.fromUtf8 frame.data])) rfl
            exact { wrote with }

theorem Unique.close {lib : Lib} (linked : s.Linked) {code : Int} {reason : List Byte}
    (stepped : s.close lib code reason = some t) : t.Unique := by
  have base : ({ s with
      state := .closing, closeCode := code, closeReason := reason } : Session).Unique :=
    { unique with }
  unfold Session.close at stepped
  split at stepped
  · cases stepped
  · dsimp only at stepped
    split at stepped
    · split at stepped
      · next away =>
        obtain ⟨u, ended, eq⟩ := Option.bind_eq_some_iff.mp stepped
        cases eq
        have lingered :
            (applyLinger
              { s with state := .idle, closeCode := code, closeReason := reason }).Unique :=
          Unique.emit (s := { s with state := .idle, closeCode := code, closeReason := reason })
            { unique with } _ rfl
        exact { lingered.over (linked.away away) ended with }
      · exact base.tryWrite stepped
    · split at stepped
      · cases stepped
      · cases stepped
        exact base.emit _ rfl

theorem Unique.doUpdate {lib : Lib} (linked : s.Linked)
    (fit : (s.steady .doUpdate && s.unhurried .doUpdate) = true)
    (stepped : s.doUpdate lib = some t) : t.Unique := by
  have base : ({ s with updating := false } : Session).Unique := { unique with }
  have linked' : ({ s with updating := false } : Session).Linked := { linked with }
  unfold Session.doUpdate at stepped
  dsimp only at stepped
  split at stepped
  · next errored =>
    obtain ⟨u, ended, eq⟩ := Option.bind_eq_some_iff.mp stepped
    cases eq
    have told : ({ s with updating := false, state := .idle } : Session).Unique := { unique with }
    refine Unique.emit (told.cleanup ?_ ended) _ rfl
    exact unique.unanswered (by simpa [steady, unhurried, errored] using fit)
  · next fine =>
    split at stepped
    · cases stepped
      exact base
    · obtain ⟨⟨u, ready, goes⟩, read, stepped⟩ := Option.bind_eq_some_iff.mp stepped
      have there : s.mode = .webSocketFramed → s.sock = true := fun framed => by
        simpa [steady, unhurried, fine, framed] using fit
      have on : u.Unique := base.tryRead linked' there read
      dsimp only at stepped
      split at stepped
      · cases stepped
        exact on
      · split at stepped
        · cases stepped
          exact { on with }
        · cases stepped
          exact on.finishUpdate

theorem Unique.timeout (stepped : s.keepAliveTimer_timeout = some t) : t.Unique := by
  unfold keepAliveTimer_timeout at stepped
  split at stepped
  · cases stepped
  · split at stepped
    · next id mine =>
      obtain ⟨⟨id', ri⟩, answers, stepped⟩ := Option.bind_eq_some_iff.mp stepped
      cases stepped
      obtain ⟨id'', ri', mine', found, waits⟩ :=
        answerable_isSome.mp (Option.isSome_iff_exists.mpr ⟨_, answers⟩)
      cases mine.symm.trans mine'
      exact unique.answer found waits (f := fun ri => { ri with responded := true })
        (fun _ => rfl) _ _
    · next alone =>
      obtain ⟨u, ended, eq⟩ := Option.bind_eq_some_iff.mp stepped
      cases eq
      have told : ({ s with state := .idle } : Session).Unique := { unique with }
      exact (told.over alone ended).emit _ rfl
  · split at stepped
    · cases stepped
    · cases stepped
      have wrote := unique.emit (.sockWrite .h) rfl
      exact { wrote with }
end

end Session
open Session

theorem step_unique {lib : Lib} {s t : Session} {event : Event} (linked : s.Linked)
    (balanced : s.Balanced) (unique : s.Unique) (can : possible s event = true)
    (fit : (s.steady event && s.unhurried event) = true)
    (stepped : step lib s event = some t) : t.Unique := by
  obtain ⟨here, can⟩ := possible_cases can
  cases event with
  | handleRequest req jsonpCallback lastPart body =>
    exact unique.handleRequest linked can.2.1.1.1 can.2.1.1.2 can.2.1.2 can.2.2 stepped
  | req_bytesWritten id finished =>
    exact unique.req_bytesWritten stepped
  | req_error id disconnected =>
    exact unique.req_error stepped
  | accept reason headers =>
    have base : ({ s with answered := true, accepted := true } : Session).Unique := { unique with }
    change Session.accept { s with answered := true, accepted := true } reason headers =
      some t at stepped
    unfold accept at stepped
    rw [if_neg (show ¬ s.errored = true by rw [(linked.early can.1.2).2.1]; decide)] at stepped
    split at stepped
    · next http =>
      obtain ⟨id, ri, mine, found, waits, eq⟩ := linked.answerable http can.1.1 can.1.2 here
      have eq : Session.answerable { s with answered := true, accepted := true } = some (id, ri) :=
        eq
      rw [eq] at stepped
      cases stepped
      exact @Unique.answer _ _ ri base found waits _ (fun _ => rfl) _ _
    · split at stepped
      · cases stepped
      · have success := base.emit (.sockRespondSuccess reason headers) rfl
        split at stepped
        · cases stepped
          have wrote := success.emit (.sockWrite .o) rfl
          exact { wrote with }
        · cases stepped
          exact { success with }
  | reject code reason headers body =>
    have base : ({ s with answered := true } : Session).Unique := { unique with }
    change Session.reject { s with answered := true } code reason headers body = some t at stepped
    unfold reject at stepped
    rw [if_neg (show ¬ s.errored = true by rw [(linked.early can.1.2).2.1]; decide)] at stepped
    split at stepped
    · next http =>
      obtain ⟨id, ri, mine, found, waits, eq⟩ := linked.answerable http can.1.1 can.1.2 here
      have eq : Session.answerable { s with answered := true } = some (id, ri) := eq
      rw [eq] at stepped
      cases stepped
      exact @Unique.answer _ _ ri base found waits _ (fun _ => rfl) _ _
    · split at stepped
      · cases stepped
      · cases stepped
        exact base.emit _ rfl
  | writeFrame frame =>
    exact unique.writeFrame stepped
  | readFrame =>
    change s.readFrame = some t at stepped
    unfold readFrame at stepped
    split at stepped
    · split at stepped
      · cases stepped
      · next f sockFrames _ =>
        cases stepped
        exact Unique.emit (s := { s with sockFrames }) { unique with } _ rfl
    · split at stepped
      · cases stepped
      · next f inFrames _ =>
        cases stepped
        exact Unique.emit
          (s := { s with inFrames, inBytes := s.inBytes - f.data.length, updating := true })
          { unique with } _ rfl
  | close code reason =>
    exact unique.close linked stepped
  | arrive frames =>
    cases stepped
    exact { unique with }
  | sock_readyRead =>
    change s.sock_readyRead lib = some t at stepped
    unfold sock_readyRead at stepped
    split at stepped
    · obtain ⟨⟨u, ready, goes⟩, read, rfl⟩ := Option.map_eq_some_iff.mp stepped
      exact unique.tryRead linked (fun _ => can.2) read
    · cases stepped
      exact unique.emit _ rfl
  | sock_framesWritten count contentBytes =>
    have told : ({ s with sockPending := s.sockPending - count } : Session).Unique :=
      { unique with }
    exact told.handleWritten stepped
  | sock_writeBytesChanged =>
    cases stepped
    exact unique.emit _ rfl
  | sock_peerClosed code reason =>
    cases stepped
    exact Unique.emit (s := { s with peerCloseCode := code, peerCloseReason := reason })
      { unique with } _ rfl
  | sock_closed code reason =>
    obtain ⟨u, ended, eq⟩ := Option.bind_eq_some_iff.mp stepped
    cases eq
    have told : ({ s with
        peerCloseCode := code, peerCloseReason := reason, state := .idle } : Session).Unique :=
      { unique with }
    exact (told.over (linked.carriedAlone can.2) ended).emit _ rfl
  | sock_error condition =>
    obtain ⟨u, ended, eq⟩ := Option.bind_eq_some_iff.mp stepped
    cases eq
    have told : ({ s with state := .idle, errorCondition := condition } : Session).Unique :=
      { unique with }
    exact (told.over (linked.carriedAlone can.2) ended).emit _ rfl
  | doUpdate =>
    exact unique.doUpdate linked fit stepped
  | doClosed =>
    cases stepped
    exact Unique.emit (s := { s with deferred := false }) { unique with } _ rfl
  | timeout =>
    exact unique.timeout stepped
  | resume =>
    change s.resume = some t at stepped
    unfold resume at stepped
    split at stepped
    · cases stepped
    · next frames bytes messages paused eq =>
      have writes : s.writing = true := by simp [writing, eq, Pause.writes]
      obtain ⟨id, ri, mine, found, waits⟩ := answerable_isSome.mp (balanced.opens writes)
      have left : ({ s with paused } : Session).Unique := { unique with }
      exact left.finishWrite mine found waits stepped
    · next paused eq =>
      cases stepped
      have left : ({ s with paused } : Session).Unique := { unique with }
      exact left.finishUpdate
  | destroy =>
    obtain ⟨u, ended, eq⟩ := Option.bind_eq_some_iff.mp stepped
    cases eq
    have over_ := unique.cleanup (unique.unanswered (by simpa [steady, unhurried] using fit)) ended
    exact { over_ with }

/-- What keeps a session from failing, and from responding twice. -/
def fits (s : Session) (event : Event) : Bool := s.steady event && s.unhurried event

theorem start_unique (mode : Mode) (id : Nat) (jsonpCallback : List Byte) :
    (setup mode id jsonpCallback).startServer.Unique := by
  cases mode <;> exact ⟨List.nodup_nil, fun _ _ _ _ mem => by cases mem⟩

/-- Whatever requests, ends of requests, errors, expiries and calls of the application come,
    no assertion fails, no request is responded to twice, and the polling request is there. -/
theorem requests_answered_once (lib : Lib) (mode : Mode) (id : Nat) (jsonpCallback : List Byte)
    (events : List Event)
    (can : Runs.along (step lib) possible (setup mode id jsonpCallback).startServer events = true)
    (fit : Runs.along (step lib) fits (setup mode id jsonpCallback).startServer events = true) :
    ∃ last, Runs.run (step lib) (setup mode id jsonpCallback).startServer events = some last ∧
      (responses last.out).Nodup ∧ ∀ req, last.req = some req → (last.item req).isSome = true := by
  have keeps : ∀ s event, s.Linked ∧ s.Balanced ∧ s.Unique →
    (possible s event && fits s event) = true →
      ∃ t, step lib s event = some t ∧ t.Linked ∧ t.Balanced ∧ t.Unique := by
    rintro s event ⟨linked, balanced, unique⟩ both
    obtain ⟨can, fit⟩ := Bool.and_eq_true_iff.mp both
    obtain ⟨t, stepped, on⟩ :=
      @step_balanced lib s event linked balanced can (Bool.and_eq_true_iff.mp fit).1
    refine ⟨t, stepped, step_linked linked can ?_ stepped, on,
      step_unique linked balanced unique can fit stepped⟩
    rintro rfl fine framed
    simpa [fits, steady, unhurried, fine, framed] using fit
  obtain ⟨last, ran, linked, -, unique⟩ := Runs.run_rule _ keeps events
    ⟨start_linked mode id jsonpCallback, start_balanced mode id jsonpCallback,
      start_unique mode id jsonpCallback⟩
    (Runs.along_and.mpr ⟨can, fit⟩)
  exact ⟨last, ran, unique.once, linked.there_⟩

def bareLib : Lib := ⟨fun _ => .invalid, id, id, fun _ _ => []⟩

def pollingClient : List Event :=
  [.accept [] [], .req_bytesWritten 0 true, .handleRequest ⟨1, [], []⟩ [] (ascii "xhr") [],
    .handleRequest ⟨2, ascii "POST", []⟩ [] (ascii "xhr_send") (ascii "x"), .timeout,
      .req_bytesWritten 1 true,
    .handleRequest ⟨3, [], []⟩ [] (ascii "xhr") [], .writeFrame ⟨.text, [104], false⟩, .resume,
    .req_bytesWritten 2 true, .req_bytesWritten 3 true, .handleRequest ⟨4, [],
      []⟩ [] (ascii "xhr") [],
    .close (-1) [], .req_bytesWritten 4 true, .destroy]

theorem pollingClient_answered :
    ∃ last, Runs.run (step bareLib) (setup .http 0 []).startServer pollingClient = some last ∧
      (responses last.out).Nodup ∧ ∀ req, last.req = some req → (last.item req).isSome = true :=
  requests_answered_once bareLib .http 0 [] pollingClient (by decide +kernel) (by decide +kernel)

def slowClient : List Event :=
  [.accept [] [], .req_bytesWritten 0 true, .handleRequest ⟨1, [], []⟩ [] (ascii "xhr") [],
    .timeout, .timeout]

theorem slowClient_fails :
    Runs.along (step bareLib) possible (setup .http 0 []).startServer slowClient = true ∧
      Runs.run (step bareLib) (setup .http 0 []).startServer slowClient = none := by
  refine ⟨by decide +kernel, ?_⟩
  have failed : (Runs.run (step bareLib) (setup .http 0 []).startServer slowClient).isNone =
    true := by decide +kernel
  exact Option.isNone_iff_eq_none.mp failed

end PushpinSockJs
