import Pushpin.Http.Response

namespace PushpinHttp
open PushpinRingBuffer PushpinVectored PushpinCaller Text Runs

inductive Requested (h : Httparse) (version : Nat) (headers : Headers) : ServerExchange → Prop where
  | parsed {e : ServerExchange} {expect : Bool}
      (accepted : ServerExchange.new.processRequest version headers = .ok (e, expect)) :
        Requested h version headers e
  | received {e : ServerExchange} {buf : List Byte} {position position' dest count : Nat}
      {p : ServerProtocol} {result : BodyResult} (before : Requested h version headers e)
      (call : e.protocol.recvBody h buf position dest count = some (p, position', result)) :
      Requested h version headers { e with protocol := p }

structure Responder where
  verMin : Nat
  headerSize : Option Nat
  head : List Byte
  caller : Caller ServerProtocol
  deriving DecidableEq

namespace Responder

def start (e : ServerExchange) : Responder := ⟨e.verMin, e.headerSize, [], .start e.protocol⟩

def exchange (r : Responder) : ServerExchange := ⟨r.caller.protocol, r.verMin, r.headerSize⟩

def wire (r : Responder) : List Byte := r.head ++ r.caller.wire

def isPersistent (r : Responder) : Bool := r.caller.protocol.persistent

end Responder

inductive AnswerEvent where
  | respond (schedule : List Response)
  | body (event : CallEvent)

def Answer.step (a : Answer) (r : Responder) : AnswerEvent → Option Responder
  | .respond schedule => do
    let (e, w, _) ← r.exchange.sendResponse ⟨r.head, schedule⟩ a.code a.reason a.headers a.bodySize
      r.head.length
    return ⟨e.verMin, e.headerSize, w.wire, { r.caller with protocol := e.protocol }⟩
  | .body event => do
    let caller ← serverSender.step none r.caller event
    return { r with caller }

def Answer.allowed (a : Answer) (r : Responder) : AnswerEvent → Bool
  | .respond _ => r.caller.protocol.state = .awaitingResponse || r.caller.protocol.state =
    .receivingBody
  | .body (.append data) => !r.caller.ended &&
      match a.bodySize with
      | .known n => decide (r.caller.content.length + data.length ≤ n)
      | _ => true
  | .body .finish =>
      match a.bodySize with
      | .known n => decide (r.caller.content.length = n)
      | _ => true
  | .body (.send bufs schedule) =>
      decide (r.caller.protocol.state = .sendingBody) && r.caller.allowed (.send bufs schedule)

def Answer.clean (a : Answer) (r : Responder) (event : AnswerEvent) : Bool :=
  a.allowed r event &&
    match event with
    | .body (.send bufs schedule) =>
      decide (r.caller.protocol.bodySize = .noBody) || !r.caller.protocol.chunked ||
        serverSender.clean r.caller (.send bufs schedule)
    | _ => true

def Answer.sent (a : Answer) (r : Responder) : List Byte :=
  if answeredSize a.code a.bodySize = .noBody then [] else r.caller.content

def Answer.selfDelimited (a : Answer) (method : List Byte) (version : Nat) (body : List Byte) :
    Bool :=
  threeDigits a.code &&
    match answeredSize a.code a.bodySize with
    | .noBody => endsWithHead method a.code
    | .known _ => !endsWithHead method a.code || decide (body = [])
    | .unknown =>
      if version ≥ 1 then !endsWithHead method a.code else endsWithHead method a.code && decide
        (body = [])

def Answer.head (a : Answer) (version : Nat) (persistent : Bool) : List Byte :=
  headBytes version a.code a.reason a.headers (answeredSize a.code a.bodySize) persistent
    (decide (answeredSize a.code a.bodySize = .unknown) && decide (version ≥ 1))

structure Answering (version : Nat) (e : ServerExchange) : Prop where
  state : e.protocol.state = .awaitingResponse ∨ e.protocol.state = .receivingBody
  fresh : e.protocol.sendingChunk = none
  version : e.verMin = version
  size : e.headerSize = none

variable {h : Httparse} {p p' : ServerProtocol}

section
variable {buf : List Byte} {position position' dest count : Nat} {result : BodyResult}

theorem recvChunk_keeps (call : p.recvChunk h buf position dest count = some (p', position',
    result)) (state : p.state = .receivingBody) :
    (p'.state = .awaitingResponse ∨ p'.state = .receivingBody) ∧
    p'.sendingChunk = p.sendingChunk := by
  unfold ServerProtocol.recvChunk at call
  split at call
  · cases call
  · simp only at call
    split at call
    · split at call
      · split at call
        · cases call
          exact ⟨Or.inr state, rfl⟩
        · cases call
      · cases call
        exact ⟨Or.inr state, rfl⟩
    · split at call
      · split at call <;> cases call
        · exact ⟨Or.inl rfl, rfl⟩
        · exact ⟨Or.inr state, rfl⟩
        · exact ⟨Or.inr state, rfl⟩
      · split at call
        · cases call
          exact ⟨Or.inr state, rfl⟩
        · split at call <;> cases call <;> exact ⟨Or.inr state, rfl⟩

theorem recvBody_keeps (call : p.recvBody h buf position dest count = some (p', position',
    result)) : (p'.state = .awaitingResponse ∨ p'.state = .receivingBody) ∧
    p'.sendingChunk = p.sendingChunk := by
  unfold ServerProtocol.recvBody at call
  split at call
  · cases call
  · rename_i ready
    have state : p.state = .receivingBody := by
      by_contra other
      exact ready (Or.inl other)
    split at call
    · split at call
      · cases call
      · simp only at call
        split at call
        · cases call
          exact ⟨Or.inl rfl, rfl⟩
        · split at call
          · split at call
            · cases call
              exact ⟨Or.inr state, rfl⟩
            · cases call
          · cases call
            exact ⟨Or.inr state, rfl⟩
    · split at call
      · exact recvChunk_keeps call state
      · split at call
        · split at call
          · have kept := recvChunk_keeps call state
            exact kept
          · cases call
            exact ⟨Or.inr state, rfl⟩
        · cases call
          exact ⟨Or.inr state, rfl⟩
        · cases call
          exact ⟨Or.inr state, rfl⟩
    · cases call

end

variable {version : Nat} {e : ServerExchange}

theorem Requested.answering {headers : Headers}
    (requested : Requested h version headers e) : Answering version e := by
  induction requested with
  | parsed accepted =>
    unfold ServerExchange.processRequest at accepted
    split at accepted
    · cases accepted
    · cases accepted
      have either : ∀ size : BodySize,
          (if size = .noBody then ServerState.awaitingResponse else .receivingBody) =
            .awaitingResponse ∨
            (if size = .noBody then ServerState.awaitingResponse else .receivingBody) =
              .receivingBody := by
        intro size
        cases size <;> simp
      exact ⟨either _, rfl, rfl, rfl⟩
  | received before call ih =>
    obtain ⟨state, fresh, version, size⟩ := ih
    obtain ⟨state', same⟩ := recvBody_keeps call
    exact ⟨state', same.trans fresh, version, size⟩

theorem sendResponse_spec (a : Answer) {head : List Byte}
    (schedule : List Response)
    (state : e.protocol.state = .awaitingResponse ∨ e.protocol.state = .receivingBody)
    (same : e.verMin = version)
    (size : e.headerSize = none ∨ e.headerSize = some (a.head version e.staysOpen).length)
    (begun : head <+: a.head version e.staysOpen)
    (more : head.length < (a.head version e.staysOpen).length) :
    ∃ e' w result, e.sendResponse ⟨head, schedule⟩ a.code a.reason a.headers a.bodySize
        head.length = some (e', w, result) ∧ e'.verMin = version ∧
      ((e'.protocol = e.protocol ∧
      (e'.headerSize = none ∨ e'.headerSize = some (a.head version e.staysOpen).length) ∧
          w.wire <+: a.head version e.staysOpen ∧
            w.wire.length < (a.head version e.staysOpen).length) ∨
        (w.wire = a.head version e.staysOpen ∧ e'.protocol = { e.protocol with
          state := .sendingBody
          bodySize := answeredSize a.code a.bodySize
          persistent := e.staysOpen
          chunked := decide (answeredSize a.code a.bodySize = .unknown) && decide
            (version ≥ 1) })) := by
  subst same
  unfold ServerExchange.sendResponse
  rw [if_neg (not_not.mpr state)]
  simp only
  by_cases many : a.headers.length > headersMax
  · rw [if_pos many]
    exact ⟨_, _, _, rfl, rfl, Or.inl ⟨rfl, size, begun, more⟩⟩
  · rw [if_neg many]
    have exclusive : e.sendsChunks (answeredSize a.code a.bodySize) = true →
        answeredSize a.code a.bodySize = .unknown := by
      intro chunks
      simp only [ServerExchange.sendsChunks, Bool.and_eq_true, decide_eq_true_eq] at chunks
      exact chunks.1
    have fits := responseSlices_length (Nat.le_of_not_gt many) e.verMin a.code a.reason
      (answeredSize a.code a.bodySize) e.staysOpen (e.sendsChunks (answeredSize a.code a.bodySize))
        exclusive
    have bytes := responseSlices_flatten e.verMin a.code a.reason a.headers
      (answeredSize a.code a.bodySize) e.staysOpen (e.sendsChunks (answeredSize a.code a.bodySize))
    have whole : a.head e.verMin e.staysOpen = headBytes e.verMin a.code a.reason a.headers
        (answeredSize a.code a.bodySize) e.staysOpen
          (e.sendsChunks (answeredSize a.code a.bodySize)) := rfl
    rw [← bytes] at whole
    generalize responseSlices e.verMin a.code a.reason a.headers (answeredSize a.code a.bodySize)
      e.staysOpen (e.sendsChunks (answeredSize a.code a.bodySize)) = slices at fits whole ⊢
    rw [if_neg (Nat.not_lt.mpr fits)]
    obtain ⟨rest, split⟩ := begun
    have behind : slices.flatten.drop head.length = rest := by
      rw [← whole, ← split, List.drop_left]
    -- both ways the head goes out the same
    have finish : ∀ e₁ : ServerExchange, e₁.protocol = e.protocol → e₁.verMin = e.verMin →
        e₁.headerSize = some slices.flatten.length →
        ∃ e' w result, ServerExchange.sendResponse.finishHead e₁
          ⟨head, schedule⟩ slices slices.flatten.length
            e.staysOpen (answeredSize a.code a.bodySize)
              (e.sendsChunks (answeredSize a.code a.bodySize)) head.length =
          some (e', w, result) ∧ e'.verMin = e.verMin ∧
        ((e'.protocol = e.protocol ∧
          (e'.headerSize = none ∨ e'.headerSize = some slices.flatten.length) ∧
            w.wire <+: slices.flatten ∧ w.wire.length < slices.flatten.length) ∨
          (w.wire = slices.flatten ∧ e'.protocol = { e.protocol with
            state := .sendingBody
            bodySize := answeredSize a.code a.bodySize
            persistent := e.staysOpen
            chunked := e.sendsChunks (answeredSize a.code a.bodySize) })) := by
      intro e₁ protocol version sized
      unfold ServerExchange.sendResponse.finishHead
      rw [whole] at more split
      rw [writeVectoredOffset_inside _ _ more, behind]
      rcases writeVectored_cases ⟨head, schedule⟩ rest with
        ⟨kind, left, _, failed⟩ | ⟨count, left, _, accepted⟩
      · rw [failed]
        exact ⟨_, _, _, rfl, version, Or.inl ⟨protocol, Or.inr sized, ⟨rest, split⟩, more⟩⟩
      · rw [accepted]
        have total : slices.flatten.length = head.length + rest.length := by
          rw [← split, List.length_append]
        simp only
        by_cases ceased : head.length + min count rest.length ≥ slices.flatten.length
        · rw [if_pos ceased]
          refine ⟨_, _, _, rfl, version, Or.inr ⟨?_, ?_⟩⟩
          · simp only
            rw [List.take_of_length_le (by omega), split]
          · simp only [protocol]
        · rw [if_neg ceased]
          refine ⟨_, _, _, rfl, version, Or.inl ⟨protocol, Or.inr sized, ⟨rest.drop count, ?_⟩, ?_⟩⟩
          · simp only [List.append_assoc, List.take_append_drop, split]
          · simp only [List.length_append, List.length_take]
            omega
    rw [whole] at size ⊢
    rcases size with unknown | known
    · rw [unknown]
      exact finish _ rfl rfl rfl
    · rw [known]
      simp only [ne_eq, not_true_eq_false, if_false]
      exact finish e rfl rfl known

structure CallKeeps (p p' : ServerProtocol) (finished : Prop) : Prop where
  persistent : p'.persistent = p.persistent
  bodySize : p'.bodySize = p.bodySize
  chunked : p'.chunked = p.chunked
  state : finished ∧ p'.state = .finished ∨ ¬ finished ∧ p'.state = .sendingBody

variable {bufs : List (List Byte)}

section
variable {w w' : Writer} {ended : Bool} {headers : Option (List Byte)}

theorem sendBody_keeps {result : Except Error Nat} (state : p.state = .sendingBody)
    (call : p.sendBody w bufs ended headers = some (p', w', result)) :
    p'.persistent = p.persistent ∧ p'.bodySize = p.bodySize ∧ p'.chunked = p.chunked ∧
      (p'.state = .sendingBody ∨ p'.state = .finished) ∧
      (∀ e, result = .error e → p'.state = .sendingBody) := by
  unfold ServerProtocol.sendBody at call
  rw [if_neg (not_not.mpr state)] at call
  simp only at call
  split at call
  · cases call
    split
    · exact ⟨rfl, rfl, rfl, Or.inr rfl, fun e absurd => nomatch absurd⟩
    · exact ⟨rfl, rfl, rfl, Or.inl state, fun e absurd => nomatch absurd⟩
  · split at call
    · split at call
      · cases call
        exact ⟨rfl, rfl, rfl, Or.inl state, fun _ _ => state⟩
      · cases call
        split
        · exact ⟨rfl, rfl, rfl, Or.inr rfl, fun e absurd => nomatch absurd⟩
        · exact ⟨rfl, rfl, rfl, Or.inl state, fun e absurd => nomatch absurd⟩
    · obtain ⟨⟨w₁, chunk₁, content⟩, _, rest⟩ := Option.bind_eq_some_iff.mp call
      cases content with
      | error kind =>
        cases rest
        exact ⟨rfl, rfl, rfl, Or.inl state, fun _ _ => state⟩
      | ok written =>
        simp only at rest
        split at rest
        · obtain ⟨⟨w₂, chunk₂, closing⟩, _, last⟩ := Option.bind_eq_some_iff.mp rest
          cases closing with
          | error kind =>
            cases last
            exact ⟨rfl, rfl, rfl, Or.inl state, fun _ _ => state⟩
          | ok _ =>
            cases chunk₂ with
            | none =>
              cases last
              exact ⟨rfl, rfl, rfl, Or.inr rfl, fun e absurd => nomatch absurd⟩
            | some chunk =>
              cases last
              exact ⟨rfl, rfl, rfl, Or.inl state, fun e absurd => nomatch absurd⟩
        · cases rest
          exact ⟨rfl, rfl, rfl, Or.inl state, fun e absurd => nomatch absurd⟩

theorem sendReply_keeps {reply : Reply} (state : p.state = .sendingBody)
    (call : p.sendReply w bufs ended headers = some (p', w', reply)) :
    CallKeeps p p' (∃ count, reply = .finished count) := by
  obtain ⟨⟨q, w₁, result⟩, sent, rest⟩ := Option.bind_eq_some_iff.mp call
  obtain ⟨persistent, bodySize, chunked, either, failed⟩ := sendBody_keeps state sent
  cases result with
  | error e =>
    cases rest
    exact ⟨persistent, bodySize, chunked, Or.inr ⟨by simp, failed e rfl⟩⟩
  | ok count =>
    cases rest
    rcases either with going | ceased
    · exact ⟨persistent, bodySize, chunked, Or.inr ⟨by simp [going], going⟩⟩
    · exact ⟨persistent, bodySize, chunked, Or.inl ⟨by simp [ceased], ceased⟩⟩

end

theorem sendReply_none (w : Writer) (bufs : List (List Byte)) (ended : Bool)
    (state : p.state = .sendingBody) (size : p.bodySize = .noBody) :
    ∃ p' reply, p.sendReply w bufs ended none = some (p', w, reply) := by
  unfold ServerProtocol.sendReply ServerProtocol.sendBody
  rw [if_neg (not_not.mpr state)]
  simp only [if_pos size, Option.bind_eq_bind, Option.bind_some]
  exact ⟨_, _, rfl⟩

def Plainly (bufs : List (List Byte)) (ended : Bool) (w w' : Writer) : Reply → Prop
  | .consumed count => w'.wire = w.wire ++ bufs.flatten.take count
  | .finished count => w'.wire = w.wire ++ bufs.flatten.take count ∧ bufs.flatten.length ≤ count ∧
    ended = true
  | .failed => w'.wire = w.wire

theorem sendReply_plain (w : Writer) (bufs : List (List Byte)) (ended : Bool)
    (state : p.state = .sendingBody) (size : p.bodySize ≠ .noBody) (plain : p.chunked = false) :
    ∃ p' w' reply, p.sendReply w bufs ended none = some (p', w', reply) ∧
      Plainly bufs ended w w' reply := by
  unfold ServerProtocol.sendReply ServerProtocol.sendBody
  rw [if_neg (not_not.mpr state)]
  obtain ⟨front, uncapped⟩ := capBufs_flatten bufs sendBodyBufsMax
  generalize capBufs bufs sendBodyBufsMax = cap at front uncapped ⊢
  obtain ⟨src, capped⟩ := cap
  obtain ⟨rest, split⟩ := front
  simp only [if_neg size, plain, Bool.false_eq_true, not_false_eq_true, if_true]
  -- the answers of the transport, and what each puts on the wire
  have answers :
    (∃ kind schedule, writeVectoredOffset w src 0 = (⟨w.wire, schedule⟩, .error kind)) ∨
      ∃ count schedule, count ≤ src.flatten.length ∧
        writeVectoredOffset w src 0 = (⟨w.wire ++ src.flatten.take count, schedule⟩,
          .ok count) := by
    by_cases filled : 0 < src.flatten.length
    · rw [writeVectoredOffset_inside w src filled, List.drop_zero]
      rcases writeVectored_cases w src.flatten with ⟨kind, schedule, _, failed⟩ | ⟨count, schedule,
        _, accepted⟩
      · exact Or.inl ⟨kind, schedule, failed⟩
      · refine Or.inr ⟨min count src.flatten.length, schedule, Nat.min_le_right _ _, ?_⟩
        rw [accepted, List.take_eq_take_min]
    · rcases writeVectoredOffset_outside w src (Nat.le_of_not_lt filled) with passed | ⟨kind,
        failed⟩
      · exact Or.inr ⟨0, w.schedule, Nat.zero_le _, by rw [passed, List.take_zero, List.append_nil]⟩
      · exact Or.inl ⟨kind, w.schedule, failed⟩
  rcases answers with ⟨kind, schedule, failed⟩ | ⟨count, schedule, most, accepted⟩
  · rw [failed]
    exact ⟨_, _, .failed, rfl, rfl⟩
  · rw [accepted]
    have taken : src.flatten.take count = bufs.flatten.take count := by
      rw [← split, List.take_append_of_le_length most]
    simp only [Option.bind_eq_bind, Option.bind_some]
    by_cases ceased : (ended && !capped) = true ∧ count ≥ src.flatten.length
    · rw [if_pos ceased]
      refine ⟨_, _, .finished count, rfl, ?_, ?_, ?_⟩
      · simp only [taken]
      · simp only [Bool.and_eq_true, Bool.not_eq_true'] at ceased
        obtain rfl : src = bufs := uncapped ceased.1.2
        exact ceased.2
      · simp only [Bool.and_eq_true] at ceased
        exact ceased.1.1
    · rw [if_neg ceased]
      refine ⟨p, ⟨w.wire ++ src.flatten.take count, schedule⟩, .consumed count, by simp [state], ?_⟩
      simp only [Plainly, taken]

inductive BodyWritten (s : Caller ServerProtocol) : Prop where
  | nothing (size : s.protocol.bodySize = .noBody) (empty : s.wire = [])
  | plain (size : s.protocol.bodySize ≠ .noBody) (whole : s.protocol.chunked = false)
      (split : s.wire ++ s.pending = s.content) (ceased : s.done = true → s.ended = true ∧
        s.pending = [])
  | chunks (size : s.protocol.bodySize ≠ .noBody) (chunked : s.protocol.chunked = true)
      (good : Good serverSender chunkFooter s)

variable {s : Caller ServerProtocol}

theorem BodyWritten.append (written : BodyWritten s) (going : s.ended = false)
    (data : List Byte) :
    BodyWritten { s with pending := s.pending ++ data, content := s.content ++ data } := by
  cases written with
  | nothing size empty => exact .nothing size empty
  | plain size whole split ceased =>
    refine .plain size whole ?_ ?_
    · simp only [← List.append_assoc, split]
    · intro finished
      have ended := (ceased finished).1
      rw [going] at ended
      cases ended
  | chunks size chunked good => exact .chunks size chunked (append_good good going data)

theorem BodyWritten.finish (written : BodyWritten s) : BodyWritten { s with ended := true } := by
  cases written with
  | nothing size empty => exact .nothing size empty
  | plain size whole split ceased =>
      exact .plain size whole split fun finished => ⟨rfl, (ceased finished).2⟩
  | chunks size chunked good => exact .chunks size chunked (finish_good good)

def Told (s : Caller ServerProtocol) : Prop :=
  s.done = false ∧ s.protocol.state = .sendingBody ∨ s.done = true ∧ s.protocol.state = .finished

theorem step_send {schedule : List Response} {w' : Writer} {reply : Reply}
    (state : s.protocol.state = .sendingBody) (unfinished : s.done = false)
    (call : s.protocol.sendReply ⟨s.wire, schedule⟩ bufs s.ended none = some (p', w', reply)) :
    ∃ s', serverSender.step none s (.send bufs schedule) = some s' ∧ s'.protocol = p' ∧
      s'.wire = w'.wire ∧
      s'.content = s.content ∧ s'.ended = s.ended ∧ Told s' ∧
        CallKeeps s.protocol p' (s'.done = true) ∧
      s'.pending = (match reply with
        | .consumed count => bufs.flatten.drop count
        | .finished count => bufs.flatten.drop count
        | .failed => bufs.flatten) ∧ (s'.done = true ↔ ∃ count, reply = .finished count) := by
  have keeps := sendReply_keeps state call
  have sent : serverSender.send s.protocol ⟨s.wire, schedule⟩ bufs s.ended none =
    some (p', w', reply) := call
  unfold Sender.step Caller.step
  simp only [sent, Option.map_some, Option.bind_eq_bind, Option.bind_some]
  obtain ⟨persistent, bodySize, chunked, state'⟩ := keeps
  cases reply with
  | consumed count =>
    have going : p'.state = .sendingBody := by simpa using state'
    refine ⟨_, rfl, rfl, rfl, rfl, rfl, Or.inl ⟨unfinished, going⟩,
      ⟨persistent, bodySize, chunked, ?_⟩, rfl, ?_⟩
    · simp [unfinished, going]
    · simp [unfinished]
  | finished count =>
    have ceased : p'.state = .finished := by simpa using state'
    refine ⟨_, rfl, rfl, rfl, rfl, rfl, Or.inr ⟨rfl, ceased⟩, ⟨persistent, bodySize, chunked, ?_⟩,
      rfl, ?_⟩
    · simp [ceased]
    · simp
  | failed =>
    have going : p'.state = .sendingBody := by simpa using state'
    refine ⟨_, rfl, rfl, rfl, rfl, rfl, Or.inl ⟨unfinished, going⟩,
      ⟨persistent, bodySize, chunked, ?_⟩, rfl, ?_⟩
    · simp [unfinished, going]
    · simp [unfinished]

theorem BodyWritten.send (written : BodyWritten s)
    {schedule : List Response} (state : s.protocol.state = .sendingBody)
    (unfinished : s.done = false)
    (cut : bufs.flatten = s.pending)
    (fine : (decide (s.protocol.bodySize = .noBody) || !s.protocol.chunked ||
      serverSender.clean s (.send bufs schedule)) = true) :
    ∃ s', serverSender.step none s (.send bufs schedule) = some s' ∧ BodyWritten s' ∧ Told s' ∧
      s'.content = s.content ∧ s'.ended = s.ended ∧ s'.protocol.persistent = s.protocol.persistent ∧
      s'.protocol.bodySize = s.protocol.bodySize ∧ s'.protocol.chunked = s.protocol.chunked := by
  cases written with
  | nothing size empty =>
    obtain ⟨p', reply, call⟩ := sendReply_none ⟨s.wire, schedule⟩ bufs s.ended state size
    obtain ⟨s', stepped, rfl, wire, content, ended, told, keeps, _⟩ :=
      step_send state unfinished call
    refine ⟨s', stepped, .nothing (keeps.bodySize.trans size) ?_, told, content, ended,
      keeps.persistent, keeps.bodySize, keeps.chunked⟩
    rw [wire, empty]
  | plain size whole split ceased =>
    obtain ⟨p', w', reply, call, plainly⟩ :=
      sendReply_plain ⟨s.wire, schedule⟩ bufs s.ended state size whole
    obtain ⟨s', stepped, rfl, wire, content, ended, told, keeps, pending, finished⟩ :=
      step_send state unfinished call
    refine ⟨s', stepped, .plain (by rw [keeps.bodySize]; exact size) (keeps.chunked.trans whole) ?_
      ?_, told, content, ended, keeps.persistent, keeps.bodySize, keeps.chunked⟩
    · rw [wire, pending, content, ← split, ← cut]
      cases reply with
      | consumed count =>
        rw [show w'.wire = _ from plainly, List.append_assoc, List.take_append_drop]
      | finished count =>
        rw [show w'.wire = _ from plainly.1, List.append_assoc, List.take_append_drop]
      | failed => rw [show w'.wire = _ from plainly]
    · intro done
      obtain ⟨count, rfl⟩ := finished.mp done
      rw [ended, pending]
      exact ⟨plainly.2.2, List.drop_eq_nil_of_le plainly.2.1⟩
  | chunks size chunked good =>
    have clean : serverSender.clean s (.send bufs schedule) = true := by
      simpa [size, chunked] using fine
    have ready : Good serverSender ((none : Option (List Byte)).getD chunkFooter) s := good
    obtain ⟨s', stepped, good'⟩ := send_good ready clean
    have called : ∃ p' w' reply, s.protocol.sendReply ⟨s.wire, schedule⟩ bufs s.ended none =
        some (p', w', reply) := by
      cases result : s.protocol.sendReply ⟨s.wire, schedule⟩ bufs s.ended none with
      | some found => exact ⟨found.1, found.2.1, found.2.2, rfl⟩
      | none =>
        have sent : serverSender.send s.protocol ⟨s.wire, schedule⟩ bufs s.ended none = none :=
          result
        rw [Sender.step, Caller.step, sent] at stepped
        cases stepped
    obtain ⟨p', w', reply, call⟩ := called
    obtain ⟨s'', stepped', rfl, wire, content, ended, told, keeps, _⟩ :=
      step_send state unfinished call
    rw [stepped, Option.some.injEq] at stepped'
    subst stepped'
    exact ⟨s', stepped, .chunks (by rw [keeps.bodySize]; exact size) (keeps.chunked.trans chunked)
      good', told, content, ended, keeps.persistent, keeps.bodySize, keeps.chunked⟩

inductive Phase (a : Answer) (e : ServerExchange) (r : Responder) : Prop where
  | answering (protocol : r.caller.protocol = e.protocol)
      (size : r.headerSize = none ∨ r.headerSize = some (a.head e.verMin e.staysOpen).length)
      (begun : r.head <+: a.head e.verMin e.staysOpen) (more : r.head.length <
        (a.head e.verMin e.staysOpen).length)
      (unfinished : r.caller.done = false) (empty : r.caller.wire = [])
        (waiting : r.caller.pending = r.caller.content)
  | sending (head : r.head = a.head e.verMin e.staysOpen)
      (persistent : r.caller.protocol.persistent = e.staysOpen)
      (size : r.caller.protocol.bodySize = answeredSize a.code a.bodySize)
      (chunked : r.caller.protocol.chunked =
        (decide (answeredSize a.code a.bodySize = .unknown) && decide (e.verMin ≥ 1)))
      (told : Told r.caller) (written : BodyWritten r.caller)

structure AnswerInv (a : Answer) (e : ServerExchange) (r : Responder) : Prop where
  version : r.verMin = e.verMin
  sized : ∀ n, a.bodySize = .known n → r.caller.ended = true → r.caller.content.length = n
  phase : Phase a e r

theorem head_pos (a : Answer) (version : Nat) (persistent : Bool) :
    0 < (a.head version persistent).length := by
  simp only [Answer.head, headBytes, List.length_append, crlf, List.length_cons, List.length_nil]
  omega

section
variable (answering : Answering version e)
include answering

theorem start_answers (a : Answer) :
    AnswerInv a e (.start e) where
  version := rfl
  sized := by
    intro n _ absurd
    cases absurd
  phase := .answering rfl (Or.inl answering.size) List.nil_prefix (head_pos a _ _) rfl rfl rfl

theorem body_begins {a : Answer} (unfinished : s.done = false)
    (empty : s.wire = []) (waiting : s.pending = s.content)
    (protocol : s.protocol = { e.protocol with
      state := .sendingBody
      bodySize := answeredSize a.code a.bodySize
      persistent := e.staysOpen
      chunked := decide (answeredSize a.code a.bodySize = .unknown) && decide (e.verMin ≥ 1) }) :
    Told s ∧ BodyWritten s := by
  have state : s.protocol.state = .sendingBody := by rw [protocol]
  have fresh : s.protocol.sendingChunk = none := by
    rw [protocol]
    exact answering.fresh
  refine ⟨Or.inl ⟨unfinished, state⟩, ?_⟩
  by_cases size : s.protocol.bodySize = .noBody
  · exact .nothing size empty
  · cases chunked : s.protocol.chunked with
    | false =>
      refine .plain size chunked (by rw [empty, waiting, List.nil_append]) ?_
      rw [unfinished]
      intro absurd
      cases absurd
    | true =>
      refine .chunks size chunked (.going unfinished ⟨state, size, chunked⟩ ⟨[],
        [], by simp, ?_, ?_, ?_⟩)
      · rw [waiting]
        rfl
      · rw [empty]
        rfl
      · rw [show serverSender.chunk s.protocol = none from fresh]
        exact .idle

theorem step_answers (a : Answer) (r : Responder)
    (event : AnswerEvent) (inv : AnswerInv a e r) (ok : a.clean r event = true) :
    ∃ next, a.step r event = some next ∧ AnswerInv a e next := by
  obtain ⟨same, sized, phase⟩ := inv
  simp only [Answer.clean, Bool.and_eq_true] at ok
  obtain ⟨allowed, fine⟩ := ok
  cases event with
  | respond schedule =>
    simp only [Answer.allowed, Bool.or_eq_true, decide_eq_true_eq] at allowed
    cases phase with
    | sending head persistent size chunked told written =>
      rcases told with ⟨_, state⟩ | ⟨_, state⟩ <;> rw [state] at allowed <;> simp at allowed
    | answering protocol size begun more unfinished empty waiting =>
      have exchange : r.exchange.staysOpen = e.staysOpen := by
        simp only [Responder.exchange, ServerExchange.staysOpen, protocol]
      rw [← exchange] at size begun more
      obtain ⟨e', w, result, call, version', either⟩ :=
        sendResponse_spec a schedule (e := r.exchange) allowed same size begun more
      simp only [Answer.step, call, Option.bind_eq_bind, Option.bind_some]
      refine ⟨_, rfl, version', sized, ?_⟩
      rw [exchange] at either
      rcases either with ⟨protocol', size', begun', more'⟩ | ⟨whole, protocol'⟩
      · exact .answering (protocol'.trans protocol) size' begun' more' unfinished empty waiting
      · have keeps : e'.protocol = { e.protocol with
            state := .sendingBody
            bodySize := answeredSize a.code a.bodySize
            persistent := e.staysOpen
            chunked := decide (answeredSize a.code a.bodySize = .unknown) && decide
              (e.verMin ≥ 1) } := by
          rw [protocol']
          simp only [Responder.exchange, protocol]
        obtain ⟨told, written⟩ :=
          body_begins answering (s := { r.caller with protocol := e'.protocol }) unfinished
            empty waiting keeps
        exact .sending whole (by rw [keeps]) (by rw [keeps]) (by rw [keeps]) told written
  | body event =>
    cases event with
    | append data =>
      simp only [Answer.allowed, Bool.and_eq_true, Bool.not_eq_true'] at allowed
      refine ⟨_, rfl, same, ?_, ?_⟩
      · intro n _ ended
        rw [show r.caller.ended = true from ended] at allowed
        cases allowed.1
      · cases phase with
        | answering protocol size begun more unfinished empty waiting =>
          exact .answering protocol size begun more unfinished empty (by simp only [waiting])
        | sending head persistent size chunked told written =>
          exact .sending head persistent size chunked told (written.append allowed.1 data)
    | finish =>
      refine ⟨_, rfl, same, ?_, ?_⟩
      · intro n known _
        simp only [Answer.allowed, known, decide_eq_true_eq] at allowed
        exact allowed
      · cases phase with
        | answering protocol size begun more unfinished empty waiting =>
          exact .answering protocol size begun more unfinished empty waiting
        | sending head persistent size chunked told written =>
          exact .sending head persistent size chunked told written.finish
    | send bufs schedule =>
      simp only [Answer.allowed, Caller.allowed, Bool.and_eq_true, decide_eq_true_eq,
        Bool.not_eq_true'] at allowed
      obtain ⟨state, unfinished, cut⟩ := allowed
      cases phase with
      | answering protocol =>
        rw [protocol] at state
        rcases answering.state with other | other <;> rw [state] at other <;> cases other
      | sending head persistent size chunked told written =>
        obtain ⟨s', stepped, written', told', content, ended, persistent', size', chunked'⟩ :=
          written.send state unfinished cut fine
        simp only [Answer.step, stepped, Option.bind_eq_bind, Option.bind_some]
        refine ⟨_, rfl, same, ?_, .sending head (persistent'.trans persistent) (size'.trans size)
          (chunked'.trans chunked) told' written'⟩
        intro n known ceased
        rw [content]
        exact sized n known (ended.symm.trans ceased)

end

theorem footer_ends : scanners.parseHeaders headersMax chunkFooter = .complete chunkFooter.length
    [] := by
  decide

theorem encodes_pos (lawful : h.Lawful) {wire body : List Byte} (encodes : Encodes h wire body) :
    0 < wire.length := by
  cases encodes with
  | last line trailers headers zero ends =>
    have pos := (lawful.chunkSize.consumes zero).1
    rw [List.length_append]
    omega
  | chunk line data size filled small rest =>
    have pos := (lawful.chunkSize.consumes size).1
    rw [List.length_append]
    omega

/-- A client can tell the end of a finished response exactly when it is
    self-delimited. -/
theorem complete_iff {a : Answer} {r : Responder} (inv : AnswerInv a e r)
    (finished : r.caller.protocol.state = .finished) (started : Answering e.verMin e)
    (method : List Byte) :
    r.isPersistent = e.staysOpen ∧
      (Complete method r.wire (a.sent r) ↔ a.selfDelimited method e.verMin (a.sent r) = true) := by
  obtain ⟨_, sized, phase⟩ := inv
  cases phase with
  | answering protocol =>
    rw [protocol] at finished
    rcases started.state with other | other <;> rw [finished] at other <;> cases other
  | sending head persistent size chunked told written =>
    refine ⟨persistent, ?_⟩
    have done : r.caller.done = true := by
      rcases told with ⟨_, state⟩ | ⟨done, _⟩
      · rw [finished] at state
        cases state
      · exact done
    have readBack : readHead r.wire = if threeDigits a.code then
        some (a.code,
          (writtenFields e.verMin a.code a.headers (answeredSize a.code a.bodySize) e.staysOpen
          r.caller.protocol.chunked).map readAs, r.caller.wire) else none := by
      rw [Responder.wire, head, Answer.head, chunked, readHead_written]
    have framing :=
      responseFraming_written e.verMin method a (answeredSize a.code a.bodySize) e.staysOpen
        r.caller.protocol.chunked
    unfold Answer.selfDelimited
    by_cases three : threeDigits a.code = true
    · rw [if_pos three] at readBack
      have opened : Complete method r.wire (a.sent r) ↔
          (writtenFraming method a.code r.caller.protocol.chunked
            (answeredSize a.code a.bodySize)).Holds r.caller.wire (a.sent r) := by
        rw [← framing]
        constructor
        · rintro ⟨code, fields, rest, read, rule⟩
          rw [readBack] at read
          cases read
          exact rule
        · intro rule
          exact ⟨_, _, _, readBack, rule⟩
      rw [opened, three, Bool.true_and]
      cases written with
      | nothing no_body empty =>
        have none_sent : a.sent r = [] := by
          rw [Answer.sent, ← size, if_pos no_body]
        have plain : r.caller.protocol.chunked = false := by
          rw [chunked, ← size, no_body]
          rfl
        rw [← size, no_body, none_sent, empty, plain]
        cases ends : endsWithHead method a.code <;> simp [writtenFraming, ends, Framing.Holds]
      | plain some_body whole split ceased =>
        obtain ⟨ended, nothing_left⟩ := ceased done
        have all : a.sent r = r.caller.wire := by
          rw [Answer.sent, ← size, if_neg some_body, ← split, nothing_left, List.append_nil]
        rw [all, whole]
        cases answered : answeredSize a.code a.bodySize with
        | noBody => exact absurd (size.trans answered) some_body
        | known n =>
          have given : a.bodySize = .known n := by
            unfold answeredSize at answered
            split at answered
            · cases answered
            · exact answered
          have length : r.caller.wire.length = n := by
            have count := sized n given ended
            rw [← split, nothing_left, List.append_nil] at count
            exact count
          cases ends :
            endsWithHead method a.code <;> simp [writtenFraming, ends, Framing.Holds, length]
        | unknown =>
          have old : ¬ e.verMin ≥ 1 := by
            intro new
            rw [whole, answered] at chunked
            simp [new] at chunked
          cases ends :
            endsWithHead method a.code <;> simp [writtenFraming, ends, Framing.Holds, old]
      | chunks some_body in_chunks good =>
        have both : answeredSize a.code a.bodySize = .unknown ∧ e.verMin ≥ 1 := by
          rw [in_chunks] at chunked
          simpa using chunked.symm
        have all : a.sent r = r.caller.content := by
          rw [Answer.sent, ← size, if_neg some_body]
        have encodes : Encodes scanners r.caller.wire r.caller.content := by
          cases good with
          | going unfinished =>
            rw [done] at unfinished
            cases unfinished
          | finished _ _ _ closed => exact closed.encodes footer_ends
        have pos := encodes_pos scanners_lawful encodes
        have filled : r.caller.wire ≠ [] := List.length_pos_iff.mp pos
        rw [all, both.1, in_chunks]
        cases ends : endsWithHead method a.code <;> simp [writtenFraming, ends, Framing.Holds,
          both.2, encodes, filled]
    · rw [if_neg three] at readBack
      simp only [three, Bool.false_and, Bool.false_eq_true, iff_false]
      rintro ⟨code, fields, rest, read, _⟩
      rw [readBack] at read
      cases read

/-- In every answer whose calls in chunks are clean, a connection that stays open
    has carried a response whose end can be seen exactly when the request, the
    code, the version and the body size allow it. -/
theorem reused_connections_are_delimited_iff {h : Httparse} {version : Nat} {headers : Headers}
    {e : ServerExchange} (requested : Requested h version headers e) (method : List Byte)
    (a : Answer) (events : List AnswerEvent)
    (cleanly : along a.step a.clean (.start e) events = true) :
    ∃ r, run a.step (.start e) events = some r ∧ (r.caller.protocol.state = .finished →
      ((r.isPersistent = true → Complete method r.wire (a.sent r)) ↔
        (e.staysOpen = true → a.selfDelimited method version (a.sent r) = true))) := by
  have answering := requested.answering
  obtain ⟨r, ran, inv⟩ :=
    run_rule (AnswerInv a e) (step_answers answering a) events (start_answers answering a) cleanly
  refine ⟨r, ran, fun finished => ?_⟩
  have same := answering.version
  subst same
  obtain ⟨persistent, complete⟩ := complete_iff inv finished answering method
  rw [persistent, complete]

def openExchange : ServerExchange :=
  ⟨⟨.awaitingResponse, .noBody, none, 0, true, false, none⟩, 1, none⟩

def helloAnswer (bodySize : BodySize) : Answer where
  code := 200
  reason := ascii "OK"
  fields := [⟨ascii "Server", ascii "a", by decide +kernel, by decide +kernel, by decide +kernel⟩]
  bodySize := bodySize
  text := by decide +kernel

def answerEvents : List AnswerEvent :=
  [.respond [.accept 10], .respond [.accept 500], .body (.append helloBytes), .body .finish,
    .body (.send [helloBytes] [.accept 50])]

theorem hello_answer_is_delimited : ∃ r,
    run (helloAnswer (.known 5)).step (.start openExchange) answerEvents = some r ∧
      (r.caller.protocol.state = .finished → ((r.isPersistent = true →
        Complete (ascii "GET") r.wire ((helloAnswer (.known 5)).sent r)) ↔
        (openExchange.staysOpen = true →
          (helloAnswer (.known 5)).selfDelimited (ascii "GET") 1 ((helloAnswer (.known 5)).sent r) =
          true))) := by
  have parsed : ServerExchange.new.processRequest 1 [(ascii "Host", ascii "b")] = .ok (openExchange,
    false) := rfl
  exact reused_connections_are_delimited_iff (h := scanners) (.parsed parsed) (ascii "GET")
    (helloAnswer (.known 5)) answerEvents (by decide +kernel)

def keptExchange : ServerExchange :=
  ⟨⟨.awaitingResponse, .noBody, none, 0, true, false, none⟩, 0, none⟩

def keptHead : List Byte :=
  ascii "HTTP/1.0 200 OK" ++ crlf ++
    (ascii "Server: a" ++ crlf ++ (ascii "Connection: keep-alive" ++ crlf ++ crlf))

def keptResponder : Responder :=
  ⟨0, none, keptHead, ⟨⟨.finished, .unknown, none, 0, true, false, none⟩,
    [], true, true, helloBytes, helloBytes⟩⟩

/-- The connection stays open after a body whose end only its close could show. -/
theorem kept_alive_response_has_no_end :
    Requested scanners 0 [(ascii "Connection", ascii "keep-alive")] keptExchange ∧
    along (helloAnswer .unknown).step (helloAnswer .unknown).clean (.start keptExchange)
      answerEvents = true ∧
    run (helloAnswer .unknown).step (.start keptExchange) answerEvents = some keptResponder ∧
    keptResponder.caller.protocol.state = .finished ∧ keptResponder.isPersistent = true ∧
    ¬ Complete (ascii "GET") keptResponder.wire ((helloAnswer .unknown).sent keptResponder) := by
  have parsed : ServerExchange.new.processRequest 0 [(ascii "Connection", ascii "keep-alive")] =
    .ok (keptExchange, false) := by decide +kernel
  refine ⟨.parsed parsed, by decide +kernel, by decide +kernel, rfl, rfl, ?_⟩
  rintro ⟨code, fields, rest, read, holds⟩
  have known : readHead keptResponder.wire =
      some (200, [(ascii "Server", ascii "a"), (connectionName, ascii "keep-alive")],
        helloBytes) := by decide +kernel
  have close : responseFraming (ascii "GET") 200 [(ascii "Server", ascii "a"),
    (connectionName, ascii "keep-alive")] = .untilClose := by decide +kernel
  rw [known] at read
  cases read
  rw [close] at holds
  exact holds

end PushpinHttp
