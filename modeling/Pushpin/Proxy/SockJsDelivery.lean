import Pushpin.Proxy.SockJsAnswers

namespace PushpinSockJs
open PushpinRingBuffer Text Loops Hashes Session

def messagesFrom : Option (List Byte) → List Frame → List (List Byte)
  | _, [] => []
  | open_, f :: frames =>
    match f.type with
    | .ping | .pong => messagesFrom open_ frames
    | _ =>
      let data := open_.getD [] ++ f.data
      if f.more then messagesFrom (some data) frames else data :: messagesFrom none frames

def messages (frames : List Frame) : List (List Byte) := messagesFrom none frames

def delivered (out : List Output) : List (List Byte) :=
  out.flatMap fun
    | .respond _ (.a messages) _ => messages
    | .sockWrite (.a messages) => messages
    | _ => []

def reported (out : List Output) : Nat :=
  (out.map fun
    | .framesWritten count _ => count
    | _ => 0).sum

def users (writes : List WriteItem) : List Nat := writes.filterMap fun write => write

theorem delivered_append (xs ys : List Output) :
    delivered (xs ++ ys) = delivered xs ++ delivered ys :=
  List.flatMap_append

theorem reported_append (xs ys : List Output) :
    reported (xs ++ ys) = reported xs + reported ys := by
  unfold reported
  rw [List.map_append, List.sum_append]

def Frame.single (f : Frame) : Bool := f.type ≠ .continuation && (!f.isText || !f.more)

theorem messages_single {frames : List Frame} (single : ∀ f ∈ frames, f.single = true) :
    messages frames = (frames.filter Frame.isText).map Frame.data := by
  unfold messages
  induction frames with
  | nil => rfl
  | cons f frames ih =>
    rw [List.forall_mem_cons] at single
    obtain ⟨type, data, more⟩ := f
    have one := single.1
    cases type <;> simp [Frame.single, Frame.isText] at one <;> simp [messagesFrom, Frame.isText,
      one, ih single.2]

theorem drain_single (frames : List Frame) (single : ∀ f ∈ frames, f.more = false) :
    drain frames.length frames = (frames.map fun f => [f], []) := by
  induction frames with
  | nil => rfl
  | cons f frames ih =>
    rw [List.forall_mem_cons] at single
    have split_ : splitMessage (f :: frames) = some ([f], frames) := by
      rw [splitMessage, if_neg (by simp [single.1])]
    rw [List.length_cons, drain, split_]
    dsimp only
    rw [ih single.2]
    rfl

namespace Session
variable {lib : Lib} {s t : Session} {id : Nat} {ri : RequestItem}

def middle (s : Session) : List (List Byte) :=
  match s.paused with
  | .tryWrite _ _ messages :: _ => messages
  | _ => []

def lost (s : Session) : Nat := if s.errored then 1 else 0

structure Flow (lib : Lib) (s : Session) (middle : List (List Byte)) : Prop where
  carries : s.mode ≠ .webSocketPassthrough
  framed : s.mode = .webSocketFramed → s.outFrames = [] ∧ s.errored = false
  whole : ∀ f ∈ s.outFrames, f.more = false
  single : ∀ f ∈ s.given, f.single = true
  order : ∃ lost : List (List Byte), (s.gone = false → lost.length = s.lost) ∧
    delivered s.out ++ (middle ++ (s.outFrames.map fun f => lib.fromUtf8 f.data) ++ lost) =
      (messages s.given).map lib.fromUtf8
  count : reported s.out + s.pendingWrittenFrames + (users s.pendingWrites).length +
    s.outFrames.length + s.lost = s.given.length

def Waits (s : Session) : Prop :=
  s.answerable.isSome = true → s.writing = false → s.closeSent = false → s.outFrames = []

theorem Flow.emit {middle : List (List Byte)} (flow : s.Flow lib middle) (output : Output)
    (silent : delivered [output] = [] ∧ reported [output] = 0) : (s.emit output).Flow lib middle :=
  { flow with
    order := by
      show ∃ lost : List (List Byte), (s.gone = false → lost.length = s.lost) ∧
        delivered (s.out ++ [output]) ++ _ = _
      rw [delivered_append, silent.1, List.append_nil]
      exact flow.order
    count := by
      show reported (s.out ++ [output]) + _ + _ + _ + _ = _
      rw [reported_append, silent.2]
      exact flow.count }

theorem middle_still (still : s.writing = false) : s.middle = [] := by
  unfold middle
  split
  · next eq =>
    rw [writing, eq] at still
    cases still
  · rfl

theorem Flow.finishWrite {texts : List (List Byte)} (flow : s.Flow lib texts) {frames bytes : Nat}
    (finished : s.finishWrite frames bytes texts = some t) : t.Flow lib [] := by
  obtain ⟨id, mine, finished'⟩ := Option.bind_eq_some_iff.mp finished
  obtain ⟨ri, found, -⟩ := Option.bind_eq_some_iff.mp finished'
  rw [finishWrite_eq mine found] at finished
  cases finished
  split
  · exact { flow with
      order := by
        show ∃ lost : List (List Byte), (s.gone = false → lost.length = s.lost) ∧
          delivered (s.out ++ [_]) ++ _ = _
        rw [delivered_append]
        obtain ⟨lost, length, eq⟩ := flow.order
        refine ⟨lost, length, Eq.trans ?_ eq⟩
        show delivered s.out ++ (texts ++ []) ++ _ = _
        simp only [List.append_nil, List.nil_append, List.append_assoc]
        rfl
      count := by
        show reported (s.out ++ [_]) + _ + _ + _ + _ = _
        rw [reported_append]
        exact flow.count }
  · next none_ =>
    have none_ : texts = [] := by simpa using none_
    subst none_
    split
    · have lingered := flow.emit (.setLinger s.closeValue.1 s.closeValue.2) ⟨rfl, rfl⟩
      have sent :=
        lingered.emit (.respond id (.c s.closeValue.1 s.closeValue.2) ri.jsonpCallback) ⟨rfl, rfl⟩
      exact { sent with }
    · exact { flow with }

theorem finishWrite_kept {frames bytes : Nat} {texts : List (List Byte)}
    (finished : s.finishWrite frames bytes texts = some t) : t.paused = s.paused ∧
    t.outFrames = s.outFrames := by
  obtain ⟨id, mine, finished'⟩ := Option.bind_eq_some_iff.mp finished
  obtain ⟨ri, found, -⟩ := Option.bind_eq_some_iff.mp finished'
  rw [finishWrite_eq mine found] at finished
  cases finished
  split
  · exact ⟨rfl, rfl⟩
  · split <;> exact ⟨rfl, rfl⟩

theorem Flow.tryWrite (flow : s.Flow lib []) (quiet : s.middle = [])
    (wrote : s.tryWrite lib = some t) : t.Flow lib t.middle ∧ t.Waits := by
  rcases tryWrite_cases wrote with ⟨rfl, none_⟩ | ⟨id, ri, messages_, rest, mine, found, waits,
    open_, drained, done⟩
  · rw [quiet]
    refine ⟨flow, fun can _ open_ => ?_⟩
    rw [none_ open_] at can
    cases can
  · rw [drain_single s.outFrames flow.whole] at drained
    cases drained
    have taken : ({ s with
        outFrames := []
        pendingWrites := s.pendingWrites ++ (s.outFrames.map fun f => [f]).map fun message =>
          some (bytesOf message).length } : Session).Flow lib
        ((s.outFrames.map fun f => [f]).map fun message => lib.fromUtf8 (bytesOf message)) :=
      { flow with
        framed := fun framed => ⟨rfl, (flow.framed framed).2⟩
        whole := fun _ mem => by cases mem
        order := by
          obtain ⟨lost, length, eq⟩ := flow.order
          refine ⟨lost, length, ?_⟩
          rw [← eq]
          simp [bytesOf, Function.comp_def]
        count := by
          show reported s.out + s.pendingWrittenFrames + _ + 0 + s.lost = s.given.length
          rw [← flow.count]
          simp only [users, List.filterMap_append, List.map_map, List.length_append]
          have all : ((s.outFrames.map ((fun message => some (bytesOf message).length) ∘ fun f =>
              [f])).filterMap fun write => write).length = s.outFrames.length := by
            rw [List.filterMap_map]
            simp [Function.comp_def]
          rw [all]
          omega }
    rcases done with ⟨some_, rfl⟩ | ⟨none_, finished⟩
    · have told := taken.emit .writeBytesChanged ⟨rfl, rfl⟩
      exact ⟨{ told with }, fun _ _ _ => rfl⟩
    · have over_ := taken.finishWrite finished
      obtain ⟨paused, frames⟩ := finishWrite_kept finished
      have quiet : t.middle = [] := by
        rw [← quiet, middle, paused]
        rfl
      rw [quiet]
      exact ⟨over_, fun _ _ _ => frames⟩

structure Delivered (lib : Lib) (s : Session) : Prop where
  flow : s.Flow lib s.middle
  waits : s.Waits

theorem Waits.alone (alone : s.req = none) : s.Waits := by
  intro can
  obtain ⟨id, ri, mine, -⟩ := answerable_isSome.mp can
  cases alone.symm.trans mine

theorem Waits.keep (waits : s.Waits) (paused : t.paused = s.paused)
    (frames : t.outFrames = s.outFrames) (sent : t.closeSent = s.closeSent)
    (answers : t.answerable.isSome = true → s.answerable.isSome = true) : t.Waits := by
  intro can still open_
  have still' : s.writing = false := by
    rw [← still, writing, writing, paused]
  exact frames.trans (waits (answers can) still' (sent.symm.trans open_))

theorem Delivered.emit (done : s.Delivered lib) (output : Output)
    (silent : delivered [output] = [] ∧ reported [output] = 0) : (s.emit output).Delivered lib :=
  ⟨done.flow.emit output silent, done.waits⟩

section
variable (linked : s.Linked) (done : s.Delivered lib)
include linked done

theorem Delivered.insert (fresh : s.item id = none)
    (ri : RequestItem) : (s.insert id ri).Delivered lib := by
  refine ⟨{ done.flow with }, done.waits.keep rfl rfl rfl fun can => ?_⟩
  refine @answerable_congr (s.insert id ri) s rfl (fun k mine => ?_) can
  rw [item_insert, if_neg]
  rintro rfl
  obtain ⟨ri', found, -⟩ := linked.owned k mine
  cases fresh.symm.trans found

theorem Delivered.background (fresh : s.item id = none)
    (jsonpCallback : List Byte) {reply : Reply} (other : ∀ messages, reply ≠ .a messages) :
    (s.background id jsonpCallback reply).Delivered lib := by
  refine (done.insert linked fresh _).emit _ ⟨?_, rfl⟩
  cases reply <;> first | rfl | exact absurd rfl (other _)

theorem Delivered.took {f : Frame}
    {frames : List Frame} (found : s.item id = some ri) (sends : ri.type = .send) :
    (s.took id ri f frames).Delivered lib := by
  have answers : (s.took id ri f frames).answerable.isSome = true → s.answerable.isSome = true := by
    refine @answerable_congr (s.took id ri f frames) s rfl fun k mine => ?_
    rw [item_took, if_neg]
    rintro rfl
    obtain ⟨ri', found', kind⟩ := linked.owned k mine
    cases found.symm.trans found'
    simp [RequestItem.ofReq, sends] at kind
  refine ⟨?_, done.waits.keep rfl rfl rfl answers⟩
  by_cases last : frames = []
  · have out : (s.took id ri f frames).out = s.out ++ [.respond id .ok ri.jsonpCallback] := by
      rw [Session.took, if_pos last]
    have told := done.flow.emit (.respond id .ok ri.jsonpCallback) ⟨rfl, rfl⟩
    exact { told with
      order := out ▸ told.order
      count := out ▸ told.count }
  · have out : (s.took id ri f frames).out = s.out := by
      rw [Session.took, if_neg last]
      exact List.append_nil _
    exact { done.flow with
      order := out ▸ done.flow.order
      count := out ▸ done.flow.count }

end

theorem Flow.cleanup {middle : List (List Byte)} (flow : s.Flow lib middle)
    (ended : s.cleanup = some t) : t.Flow lib middle := by
  rw [cleanup_eq] at ended
  rw [← Option.some.inj (Option.ite_none_right_eq_some.mp ended).2]
  have out : delivered s.cleaned.out = delivered s.out ∧
      reported s.cleaned.out = reported s.out := by
    show delivered (s.out ++ _ ++ _) = _ ∧ reported (s.out ++ _ ++ _) = _
    rw [delivered_append, delivered_append, reported_append, reported_append]
    cases s.req <;> cases s.manager <;> simp [delivered, reported]
  exact { flow with
    order := by
      rw [out.1]
      exact flow.order
    count := by
      rw [out.2]
      exact flow.count }

theorem cleanup_kept (ended : s.cleanup = some t) :
    t.req = none ∧ t.paused = s.paused ∧ t.outFrames = s.outFrames := by
  rw [cleanup_eq] at ended
  rw [← Option.some.inj (Option.ite_none_right_eq_some.mp ended).2]
  exact ⟨rfl, rfl, rfl⟩

theorem Flow.over (flow : s.Flow lib s.middle) (ended : s.cleanup = some t) : t.Delivered lib := by
  obtain ⟨alone, paused, -⟩ := cleanup_kept ended
  have middle_ : t.middle = s.middle := by
    unfold middle
    rw [paused]
  exact ⟨middle_ ▸ flow.cleanup ended, Waits.alone alone⟩

theorem Delivered.tryRead (linked : s.Linked) (done : s.Delivered lib)
    (there : s.mode = .webSocketFramed → s.sock = true) {ready goes : Bool}
    (read : s.tryRead lib = some (t, ready, goes)) : t.Delivered lib := by
  cases mode : s.mode with
  | http =>
    obtain ⟨u, _, eq, takes, -⟩ := tryRead_http lib mode linked.sends
    rw [eq] at read
    cases read
    obtain ⟨-, taken⟩ := takes.rule (fun u => u.Linked ∧ u.Delivered lib) ⟨linked, done⟩
      fun u id ri f frames inv found sends waits next bytes _ =>
        ⟨inv.1.took found sends next bytes, inv.2.took inv.1 found sends⟩
    cases ready with
    | true => exact taken.emit _ ⟨rfl, rfl⟩
    | false => exact taken
  | webSocketFramed =>
    obtain ⟨u, _, over_, done_, frames, on, eq⟩ := tryRead_framed lib mode (there mode)
    rw [eq] at read
    have kept : u.Delivered lib := by
      rw [on.state]
      exact ⟨{ done.flow with }, done.waits⟩
    cases over_ with
    | true =>
      obtain ⟨v, ended, eq⟩ := Option.map_eq_some_iff.mp read
      cases eq
      have kept : ({ u with state := .idle } : Session).Flow lib u.middle := { kept.flow with }
      exact (Flow.over (s := { u with state := .idle }) kept ended).emit _ ⟨rfl, rfl⟩
    | false =>
      cases read
      cases ready with
      | true => exact kept.emit _ ⟨rfl, rfl⟩
      | false => exact kept
  | webSocketPassthrough => exact absurd mode done.flow.carries

theorem Flow.handleWritten (flow : s.Flow lib s.middle) {count contentBytes : Nat}
    (handled : s.handleWritten count contentBytes = some t) : t.Flow lib t.middle := by
  unfold Session.handleWritten at handled
  rw [if_neg flow.carries] at handled
  split at handled
  · cases handled
  · cases handled
    exact { flow with
      order := by
        show ∃ lost : List (List Byte), (s.gone = false → lost.length = s.lost) ∧
          delivered (s.out ++ [_]) ++ _ = _
        rw [delivered_append]
        show ∃ lost : List (List Byte), (s.gone = false → lost.length = s.lost) ∧
          delivered s.out ++ [] ++ _ = _
        rw [List.append_nil]
        exact flow.order
      count := by
        show reported (s.out ++ [_]) + 0 + (users (s.pendingWrites.drop count)).length +
          s.outFrames.length + s.lost = _
        rw [reported_append]
        have split_ : (users s.pendingWrites).length =
            (users (s.pendingWrites.take count)).length +
              (users (s.pendingWrites.drop count)).length := by
          rw [users, ← List.take_append_drop count s.pendingWrites, List.filterMap_append,
            List.length_append]
          simp [users]
        have all := flow.count
        show reported s.out + ((users (s.pendingWrites.take count)).length +
          s.pendingWrittenFrames) + 0 + _ + _ + _ = s.given.length
        omega }

theorem handleWritten_req {count contentBytes : Nat}
    (handled : s.handleWritten count contentBytes = some t) : t.req = s.req := by
  unfold Session.handleWritten at handled
  split at handled
  · cases handled
    rfl
  · split at handled
    · cases handled
    · cases handled
      rfl

theorem Delivered.finishUpdate (done : s.Delivered lib) : s.finishUpdate.Delivered lib := by
  unfold Session.finishUpdate
  split
  · refine ⟨{ done.flow with order := ?_, count := ?_ }, done.waits⟩
    · show ∃ lost : List (List Byte), (s.gone = false → lost.length = s.lost) ∧
        delivered (s.out ++ [_]) ++ _ = _
      rw [delivered_append]
      show ∃ lost : List (List Byte), (s.gone = false → lost.length = s.lost) ∧
        delivered s.out ++ [] ++ _ = _
      rw [List.append_nil]
      exact done.flow.order
    · show reported (s.out ++ [_]) + 0 + (users s.pendingWrites).length + s.outFrames.length +
        s.lost = s.given.length
      rw [reported_append]
      have all := done.flow.count
      show reported s.out + (s.pendingWrittenFrames + 0) + 0 + _ + _ + _ = _
      omega
  · exact done

/-- Every message is a frame of its own, and none is written after one that did not fit or
    from within `tryWrite`. -/
def wholly (s : Session) : Event → Bool
  | .writeFrame frame => frame.type ≠ .continuation &&
      (!frame.isText || !frame.more && (s.mode ≠ .http || !s.errored && !s.writing))
  | .close _ _ => !s.writing
  | .doUpdate => s.errored || s.mode ≠ .webSocketFramed || s.sock
  | _ => true

theorem Delivered.writeFrame (linked : s.Linked) (done : s.Delivered lib) (here : s.gone = false)
    {frame : Frame} (fit : s.wholly (.writeFrame frame) = true)
    (wrote : Session.writeFrame lib { s with given := s.given ++ [frame] } frame = some t) :
    t.Delivered lib := by
  have flow := done.flow
  have single : frame.single = true := by
    simp only [wholly, Bool.and_eq_true, Bool.or_eq_true] at fit
    rw [Frame.single, Bool.and_eq_true, Bool.or_eq_true]
    exact ⟨fit.1, fit.2.imp_right fun texts => texts.1⟩
  have singles : ∀ f ∈ s.given ++ [frame], f.single = true :=
    List.forall_mem_append.mpr ⟨flow.single, by simpa using single⟩
  have given :
    (messages (s.given ++ [frame])).map lib.fromUtf8 = (messages s.given).map lib.fromUtf8 ++
      if frame.isText then [lib.fromUtf8 frame.data] else [] := by
    rw [messages_single singles, messages_single flow.single, List.filter_append, List.map_append,
      List.map_append]
    cases text : frame.isText <;> simp [text]
  unfold Session.writeFrame at wrote
  split at wrote
  · cases wrote
  · rw [if_neg flow.carries] at wrote
    split at wrote
    · next control =>
      cases wrote
      refine ⟨{ flow with single := singles, order := ?_, count := ?_ }, done.waits⟩
      · show ∃ lost : List (List Byte), (s.gone = false → lost.length = s.lost) ∧
          _ = (messages (s.given ++ [frame])).map lib.fromUtf8
        rw [given, if_neg (by simpa using control), List.append_nil]
        exact flow.order
      · show reported s.out + (s.pendingWrittenFrames + 1) + (users s.pendingWrites).length +
          s.outFrames.length + s.lost = (s.given ++ [frame]).length
        rw [List.length_append, ← flow.count]
        simp only [List.length_singleton]
        omega
    · next text =>
      have text : frame.isText = true := by simpa using text
      rw [if_pos text] at given
      split at wrote
      · next http =>
        have http : s.mode = .http := http
        simp [wholly, text, http] at fit
        obtain ⟨-, last, fine, still⟩ := fit
        have lost : s.lost = 0 := by
          rw [Session.lost, fine]
          rfl
        obtain ⟨lost', length, order⟩ := flow.order
        rw [List.eq_nil_of_length_eq_zero ((length here).trans lost), List.append_nil] at order
        split at wrote
        · cases wrote
          refine ⟨{ flow with
            framed := fun framed => absurd (http.symm.trans framed) (by decide)
            single := singles
            order := ⟨[lib.fromUtf8 frame.data], fun _ => rfl, ?_⟩
            count := ?_ }, done.waits⟩
          · show delivered s.out ++
              (s.middle ++ (s.outFrames.map fun f => lib.fromUtf8 f.data) ++ _) =
              (messages (s.given ++ [frame])).map lib.fromUtf8
            rw [given, ← order, List.append_assoc (delivered s.out)]
          · show reported s.out + s.pendingWrittenFrames + _ + _ + 1 = (s.given ++ [frame]).length
            rw [List.length_append, ← flow.count, lost]
            rfl
        · have added :
              ({ s with given := s.given ++ [frame], outFrames := s.outFrames ++ [frame] } :
                Session).Flow lib [] :=
            { flow with
              framed := fun framed => absurd (http.symm.trans framed) (by decide)
              whole := List.forall_mem_append.mpr ⟨flow.whole, by simpa using last⟩
              single := singles
              order := by
                refine ⟨[], fun _ => lost.symm, ?_⟩
                rw [given, ← order, middle_still still]
                simp
              count := by
                show reported s.out + s.pendingWrittenFrames + (users s.pendingWrites).length +
                  (s.outFrames ++ [frame]).length + s.lost = (s.given ++ [frame]).length
                rw [List.length_append, List.length_append, ← flow.count]
                omega }
          obtain ⟨flow', waits⟩ := added.tryWrite (middle_still still) wrote
          exact ⟨flow', waits⟩
      · next carried =>
        split at wrote
        · cases wrote
        · cases wrote
          have carried : s.mode ≠ .http := carried
          have framed : s.mode = .webSocketFramed := by
            cases mode : s.mode with
            | http => exact absurd mode carried
            | webSocketFramed => rfl
            | webSocketPassthrough => exact absurd mode flow.carries
          have quiet := middle_still (linked.still (linked.carried carried).1)
          obtain ⟨none_, fine⟩ := flow.framed framed
          have lost : s.lost = 0 := by
            rw [Session.lost, fine]
            rfl
          obtain ⟨lost', length, order⟩ := flow.order
          rw [List.eq_nil_of_length_eq_zero ((length here).trans lost), quiet, none_, List.map_nil,
            List.append_nil, List.append_nil, List.append_nil] at order
          refine ⟨{ flow with
            single := singles, order := ⟨[], fun _ => lost.symm, ?_⟩, count := ?_ }, done.waits⟩
          · show delivered (s.out ++ [_]) ++ (s.middle ++ s.outFrames.map _ ++ []) =
              (messages (s.given ++ [frame])).map _
            rw [delivered_append, quiet, none_, given, ← order]
            simp [delivered]
          · show reported (s.out ++ [_]) + s.pendingWrittenFrames +
              (users (s.pendingWrites ++ [_])).length +
              s.outFrames.length + s.lost = (s.given ++ [frame]).length
            rw [reported_append, List.length_append, ← flow.count, users, List.filterMap_append,
              List.length_append]
            show reported s.out + 0 + _ + (_ + 1) + _ + _ = _ + 1
            unfold users
            omega

theorem Delivered.handleRequest (linked : s.Linked) (done : s.Delivered lib) (quiet : s.paused = [])
    (there : s.manager = true) (http : s.mode = .http) {req : Request}
    (fresh : s.item req.id = none)
    {jsonpCallback lastPart body : List Byte}
    (handled : s.handleRequest lib req jsonpCallback lastPart body = some t) : t.Delivered lib := by
  unfold Session.handleRequest at handled
  split at handled
  · split at handled
    · cases handled
      exact done.background linked fresh _ nofun
    · split at handled
      · cases handled
        exact done.background linked fresh _ nofun
      · have still := middle_still (not_writing quiet)
        have flow := done.flow
        rw [still] at flow
        have polled : (s.polled req.id jsonpCallback).Flow lib [] := { flow with }
        obtain ⟨flow', waits⟩ := polled.tryWrite still handled
        exact ⟨flow', waits⟩
  · split at handled
    · split at handled
      · cases handled
        exact done.background linked fresh _ nofun
      · split at handled
        · split at handled
          · cases handled
            exact done.background linked fresh _ nofun
          · cases handled
            exact done.background linked fresh _ nofun
          · next frames some_ valid =>
            obtain ⟨⟨u, ready, goes⟩, read, rfl⟩ := Option.map_eq_some_iff.mp handled
            have sends := @Linked.insert s req.id
              { jsonpCallback, type := .send, sendFrames := frames, sendBytes := sizeOf frames }
              linked there fresh http rfl fun _ _ => ⟨some_, rfl⟩
            exact (done.insert linked fresh _).tryRead sends
              (fun framed => absurd (http.symm.trans framed) (by decide)) read
        · cases handled
          exact done.background linked fresh _ nofun
    · cases handled
      exact done.background linked fresh _ nofun

section
variable (done : s.Delivered lib)
include done

theorem Delivered.req_bytesWritten {finished : Bool}
    (written : s.req_bytesWritten id finished = some t) : t.Delivered lib := by
  obtain ⟨ri, found, written⟩ := Option.bind_eq_some_iff.mp written
  split at written
  · cases written
    exact done
  · have left : (Session.removeRequestItem { s with req := none } id).Flow lib s.middle :=
      { done.flow with }
    dsimp only at written
    split at written
    · split at written
      · cases written
        exact ⟨{ left with }, Waits.alone rfl⟩
      · cases written
    · split at written
      · split at written
        · obtain ⟨u, ended, eq⟩ := Option.bind_eq_some_iff.mp written
          cases eq
          exact (Flow.over (s := { Session.removeRequestItem { s with req := none } id with
            state := .idle }) { left with } ended).emit _ ⟨rfl, rfl⟩
        · split at written
          · have flow : t.Flow lib t.middle := Flow.handleWritten
              (s := (Session.removeRequestItem { s with req := none } id).startTimer
                UNCONNECTED_TIMEOUT) { left with } written
            refine ⟨flow, Waits.alone ?_⟩
            rw [handleWritten_req written]
            rfl
          · cases written
            exact ⟨left, Waits.alone rfl⟩
      · next other =>
        cases written
        refine ⟨{ done.flow with }, done.waits.keep rfl rfl rfl ?_⟩
        refine @answerable_congr (s.removeRequestItem id) s rfl fun k mine => ?_
        rw [item_remove, if_neg]
        rintro rfl
        exact other mine

theorem Delivered.req_error {disconnected : Bool}
    (failed : s.req_error id disconnected = some t) (linked : s.Linked) : t.Delivered lib := by
  obtain ⟨ri, found, failed⟩ := Option.bind_eq_some_iff.mp failed
  split at failed
  · next other =>
    cases failed
    refine ⟨{ done.flow with }, done.waits.keep rfl rfl rfl ?_⟩
    refine @answerable_congr (s.removeRequestItem id) s rfl fun k mine => ?_
    rw [item_remove, if_neg]
    rintro rfl
    obtain ⟨ri', found', kind⟩ := linked.owned k mine
    cases found.symm.trans found'
    rcases other with kind' | kind' <;> simp [RequestItem.ofReq, kind'] at kind
  · have left : (Session.removeRequestItem { s with req := none } id).Flow lib s.middle :=
      { done.flow with }
    dsimp only at failed
    split at failed
    · cases failed
    · split at failed
      · cases failed
        have told := left.emit .peerClosed ⟨rfl, rfl⟩
        exact ⟨{ told with }, Waits.alone rfl⟩
      · obtain ⟨u, ended, eq⟩ := Option.bind_eq_some_iff.mp failed
        cases eq
        have over_ : u.Delivered lib := Flow.over
          (s := { Session.removeRequestItem { s with req := none } id with state := .idle })
          { left with } ended
        split
        · exact over_.emit _ ⟨rfl, rfl⟩
        · exact over_.emit _ ⟨rfl, rfl⟩

theorem Delivered.answer (mine : s.req = some id) {f : RequestItem →
    RequestItem} (marks : ∀ ri, (f ri).responded = true) (jsonpCallback : List Byte) {reply : Reply}
    (other : ∀ messages, reply ≠ .a messages) :
    ((s.modify id f).respond id reply jsonpCallback).Delivered lib := by
  have quiet : delivered [.respond id reply jsonpCallback] = [] ∧
      reported [.respond id reply jsonpCallback] = 0 := by
    refine ⟨?_, rfl⟩
    cases reply <;> first | rfl | exact absurd rfl (other _)
  have told := done.flow.emit _ quiet
  refine ⟨{ told with }, fun can => ?_⟩
  obtain ⟨id', ri, mine', found, waits⟩ := answerable_isSome.mp can
  cases mine.symm.trans mine'
  have found : (s.modify id f).item id = some ri := found
  rw [item_modify, if_pos rfl] at found
  obtain ⟨ri', -, rfl⟩ := Option.map_eq_some_iff.mp found
  exact absurd ((marks ri').symm.trans waits) (by decide)

theorem Delivered.none_left (balanced : s.Balanced)
    (busy : s.writing = true) : s.outFrames = [] := by
  cases frames : s.outFrames with
  | nil => rfl
  | cons f frames' =>
    have mem : f ∈ s.outFrames := by rw [frames]; exact List.mem_cons_self
    have ends := splitMessage_none.mp (balanced.left busy) f mem
    exact absurd ((done.flow.whole f mem).symm.trans ends) (by decide)

end

theorem Delivered.resume (balanced : s.Balanced) (done : s.Delivered lib)
    (resumed : s.resume = some t) : t.Delivered lib := by
  have nest := balanced.nest
  unfold Session.resume at resumed
  split at resumed
  · cases resumed
  · next frames bytes texts paused eq =>
    rw [eq] at nest
    have still : Session.writing { s with paused } = false := nest
    have writes : s.writing = true := by simp [writing, eq, Pause.writes]
    have flow := done.flow
    rw [show s.middle = texts by rw [middle, eq]] at flow
    have left : ({ s with paused } : Session).Flow lib texts := { flow with }
    have over_ := left.finishWrite resumed
    obtain ⟨same, outFrames⟩ := finishWrite_kept resumed
    have none_ := done.none_left balanced writes
    have quiet : t.middle = [] := by
      refine middle_still ?_
      rw [writing, same]
      exact still
    exact ⟨quiet ▸ over_, fun _ _ _ => outFrames.trans none_⟩
  · next paused eq =>
    cases resumed
    rw [eq] at nest
    have still : Session.writing { s with paused } = false := nest
    have still' : s.writing = false := by
      rw [writing, eq]
      exact nest
    have flow := done.flow
    rw [middle_still still'] at flow
    have left : ({ s with paused } : Session).Delivered lib :=
      ⟨by rw [middle_still still]; exact { flow with },
        fun can _ open_ => done.waits can still' open_⟩
    exact left.finishUpdate

theorem Delivered.close (done : s.Delivered lib) {code : Int} {reason : List Byte}
    (fit : s.wholly (.close code reason) = true)
    (stepped : s.close lib code reason = some t) : t.Delivered lib := by
  unfold Session.close at stepped
  split at stepped
  · cases stepped
  · dsimp only at stepped
    split at stepped
    · split at stepped
      · next away =>
        obtain ⟨u, ended, eq⟩ := Option.bind_eq_some_iff.mp stepped
        cases eq
        have told := done.flow.emit (.setLinger (Session.closeValue { s with
          state := .idle, closeCode := code, closeReason := reason }).1
            (Session.closeValue { s with
          state := .idle, closeCode := code, closeReason := reason }).2) ⟨rfl, rfl⟩
        have over_ : u.Delivered lib := Flow.over (s := applyLinger { s with
          state := .idle, closeCode := code, closeReason := reason }) { told with } ended
        exact ⟨{ over_.flow with }, over_.waits⟩
      · have still : s.writing = false := by simpa [wholly] using fit
        have quiet := middle_still still
        have flow := done.flow
        rw [quiet] at flow
        have closing :
            ({ s with state := .closing, closeCode := code, closeReason := reason } :
              Session).Flow lib [] :=
          { flow with }
        obtain ⟨flow', waits⟩ := closing.tryWrite quiet stepped
        exact ⟨flow', waits⟩
    · split at stepped
      · cases stepped
      · cases stepped
        have told := done.flow.emit (.sockClose code reason) ⟨rfl, rfl⟩
        exact ⟨{ told with }, done.waits⟩

theorem Delivered.doUpdate (linked : s.Linked) (balanced : s.Balanced) (done : s.Delivered lib)
    (still : s.paused = []) (fit : s.wholly .doUpdate = true) (stepped : s.doUpdate lib = some t) :
    t.Delivered lib := by
  have base : ({ s with updating := false } : Session).Delivered lib :=
    ⟨{ done.flow with }, done.waits⟩
  have linked' : ({ s with updating := false } : Session).Linked := { linked with }
  unfold Session.doUpdate at stepped
  dsimp only at stepped
  split at stepped
  · next errored =>
    obtain ⟨u, ended, eq⟩ := Option.bind_eq_some_iff.mp stepped
    cases eq
    exact (Flow.over (s := { s with updating := false, state := .idle })
      { done.flow with } ended).emit _ ⟨rfl, rfl⟩
  · next fine =>
    rw [if_neg done.flow.carries] at stepped
    obtain ⟨⟨u, ready, goes⟩, read, stepped⟩ := Option.bind_eq_some_iff.mp stepped
    have there : s.mode = .webSocketFramed → s.sock = true := fun framed => by
      simpa [wholly, fine, framed] using fit
    have on : u.Delivered lib := base.tryRead linked' there read
    dsimp only at stepped
    split at stepped
    · cases stepped
      exact on
    · split at stepped
      · cases stepped
        have base' : ({ s with updating := false } : Session).Balanced := { balanced with }
        obtain ⟨u', _, _, read', -, same⟩ :=
          @Balanced.tryRead _ lib linked' base' (not_writing still) there
        cases read.symm.trans read'
        have quiet : u.paused = [] := same.trans still
        have flow := on.flow
        rw [middle_still (not_writing quiet)] at flow
        exact ⟨{ flow with }, fun can _ open_ => on.waits can (not_writing quiet) open_⟩
      · cases stepped
        exact on.finishUpdate

end Session
open Session

end PushpinSockJs
