import Pushpin.Http.ResponseRuns

/-!
The head of a request as `ClientRequest::send_header` writes it, and heads that
go out in several attempts. Each attempt builds the head again and knows the
earlier ones by a length and an offset only. The caller is told to keep the
content, so contents of one length are the same here.
-/
namespace PushpinHttp
open PushpinRingBuffer PushpinVectored Text Runs

def requestSlicesMax : Nat := headersMax * 4 + 4 + 4

def requestOverridden (websocket : Bool) (name : List Byte) : Bool :=
  (eqIgnoreAsciiCase name connectionName && !websocket) ||
    eqIgnoreAsciiCase name contentLengthName || eqIgnoreAsciiCase name transferEncodingName

def bodylessMethod (method : List Byte) : Bool :=
  eqIgnoreAsciiCase method (ascii "OPTIONS") || eqIgnoreAsciiCase method (ascii "GET") ||
    eqIgnoreAsciiCase method (ascii "HEAD")

def requestLengthSlices (method : List Byte) : BodySize → List (List Byte)
  | .known x => if x > 0 || !bodylessMethod method then contentLengthSlices (.known x) else []
  | _ => []

def requestSlices (method uri : List Byte) (headers : Headers) (bodySize : BodySize)
    (websocket chunked : Bool) : List (List Byte) :=
  [method, [32], uri, ascii " HTTP/1.1" ++ crlf] ++
    ((headers.filter fun h => !requestOverridden websocket h.1).map headerSlices).flatten ++
    (if chunked then [ascii "Connection: Transfer-Encoding" ++ crlf] else []) ++
    requestLengthSlices method bodySize ++
    (if chunked then [ascii "Transfer-Encoding: chunked" ++ crlf] else []) ++ [crlf]

structure ClientRequest where
  state : ClientState
  headerSize : Option Nat
  offset : Nat
  deriving DecidableEq, Repr

def ClientRequest.new : ClientRequest := ⟨⟨.noBody, none, 0, true, false, none⟩, none, 0⟩

inductive SendHeaderStatus where
  | more (request : ClientRequest)
  | complete (state : ClientState)
  | error (request : ClientRequest) (e : Error)
  deriving DecidableEq, Repr

def ClientRequest.sendHeader (r : ClientRequest) (w : Writer) (method uri : List Byte)
    (headers : Headers) (bodySize : BodySize) (websocket : Bool) :
    Option (SendHeaderStatus × Writer) :=
  let bodySize := if websocket then .noBody else bodySize
  let chunked := decide (bodySize = .unknown)
  if headers.length > headersMax then some (.error ⟨r.state, none, 0⟩ (.io .invalidInput), w)
  else
    let slices := requestSlices method uri headers bodySize websocket chunked
    if slices.length > requestSlicesMax then none
    else
      let totalLength := slices.flatten.length
      if r.headerSize.any (· ≠ totalLength) then
        some (.error ⟨r.state, some totalLength, r.offset⟩ (.io .invalidInput), w)
      else
        match writeVectoredOffset w slices r.offset with
        | (w, .error kind) => some (.error ⟨r.state, some totalLength, r.offset⟩ (.io kind), w)
        | (w, .ok bytesWritten) =>
          let offset := r.offset + bytesWritten
          if offset ≥ totalLength then some (.complete { r.state with bodySize, chunked }, w)
          else some (.more ⟨r.state, some totalLength, offset⟩, w)

structure ResponseAttempt where
  code : Nat
  reason : List Byte
  headers : Headers
  bodySize : BodySize
  schedule : List Response
  deriving DecidableEq, Repr

structure RequestAttempt where
  method : List Byte
  uri : List Byte
  headers : Headers
  bodySize : BodySize
  websocket : Bool
  schedule : List Response
  deriving DecidableEq, Repr

def ResponseAttempt.head (a : ResponseAttempt) (e : ServerExchange) : List Byte :=
  (responseSlices e.verMin a.code a.reason a.headers (answeredSize a.code a.bodySize) e.staysOpen
    (e.sendsChunks (answeredSize a.code a.bodySize))).flatten

def RequestAttempt.size (a : RequestAttempt) : BodySize :=
  if a.websocket then .noBody else a.bodySize

def RequestAttempt.head (a : RequestAttempt) : List Byte :=
  (requestSlices a.method a.uri a.headers a.size a.websocket (decide (a.size = .unknown))).flatten

/-- A sender between two attempts. `offset` is what it will resume with, and
    `content` the head of the first attempt that was not refused. -/
structure HeadRun (σ : Type) where
  sender : σ
  offset : Nat
  wire : List Byte
  content : Option (List Byte)
  done : Bool
  deriving DecidableEq, Repr

def HeadRun.start {σ : Type} (sender : σ) (offset : Nat) (wire : List Byte) : HeadRun σ :=
  ⟨sender, offset, wire, none, false⟩

def HeadRun.contentAfter {σ : Type} (s : HeadRun σ) (headers : Headers) (head : List Byte) :
    Option (List Byte) :=
  s.content.or (if headers.length > headersMax then none else some head)

def ResponseAttempt.step (s : HeadRun ServerExchange) (a : ResponseAttempt) :
    Option (HeadRun ServerExchange) := do
  let (sender, w, result) ←
    s.sender.sendResponse ⟨s.wire, a.schedule⟩ a.code a.reason a.headers a.bodySize s.offset
  let written := match result with
    | .ok (some written) => written
    | _ => 0
  return ⟨sender, s.offset + written, w.wire, s.contentAfter a.headers (a.head s.sender),
    decide (result = .ok none)⟩

def RequestAttempt.step (s : HeadRun ClientRequest) (a : RequestAttempt) :
    Option (HeadRun ClientRequest) := do
  let content := s.contentAfter a.headers a.head
  match ← s.sender.sendHeader ⟨s.wire, a.schedule⟩ a.method a.uri a.headers a.bodySize
    a.websocket with
  | (.more sender, w) | (.error sender _, w) => return ⟨sender, sender.offset, w.wire, content,
      false⟩
  | (.complete _, w) => return ⟨s.sender, s.offset, w.wire, content, true⟩

def HeadRun.permits {σ : Type} (s : HeadRun σ) (headers : Headers) (head : List Byte) : Bool :=
  !s.done && (decide (headers.length > headersMax) || match s.content with
    | some content => decide (head.length ≠ content.length) || decide (head = content)
    | none => true)

def ResponseAttempt.permitted (s : HeadRun ServerExchange) (a : ResponseAttempt) : Bool :=
  s.permits a.headers (a.head s.sender)

def RequestAttempt.permitted (s : HeadRun ClientRequest) (a : RequestAttempt) : Bool :=
  s.permits a.headers a.head

def RequestAttempt.fits (s : HeadRun ClientRequest) (a : RequestAttempt) : Bool :=
  s.content.all fun content => decide (a.headers.length ≤ headersMax) && decide
    (a.head.length = content.length)

/-- The wire holds a front of one head and nothing else, and the sender holds the
    length of that head and the length of that front. -/
inductive HeadSent {σ : Type} (base : List Byte) (size : Option Nat) (s : HeadRun σ) : Prop where
  | idle (content : s.content = none) (size : size = none) (offset : s.offset = 0)
      (wire : s.wire = base) (done : s.done = false)
  | going (head : List Byte) (content : s.content = some head) (size : size = some head.length)
      (inside : s.offset < head.length) (wire : s.wire = base ++ head.take s.offset)
        (done : s.done = false)
  | whole (head : List Byte) (content : s.content = some head) (wire : s.wire = base ++ head)
      (done : s.done = true)

theorem writeVectoredOffset_resumes {slices : List (List Byte)} {base wire head : List Byte}
    {offset : Nat} (whole : slices.flatten = head) (inside : offset < head.length)
    (before : wire = base ++ head.take offset)
    (schedule : List Response) :
    (∃ kind left, writeVectoredOffset ⟨wire, schedule⟩ slices offset =
    (⟨wire, left⟩, .error kind)) ∨
      ∃ count left, offset + count ≤ head.length ∧
        writeVectoredOffset ⟨wire, schedule⟩ slices offset =
        (⟨base ++ head.take (offset + count), left⟩, .ok count) := by
  subst whole
  rw [writeVectoredOffset_inside _ slices inside]
  rcases writeVectored_cases ⟨wire, schedule⟩ (slices.flatten.drop offset) with
    ⟨kind, left, _, failed⟩ | ⟨count, left, _, took⟩
  · exact Or.inl ⟨kind, left, failed⟩
  · right
    have size : (slices.flatten.drop offset).length = slices.flatten.length - offset :=
      List.length_drop
    refine ⟨min count (slices.flatten.drop offset).length, left, by omega, ?_⟩
    rw [took, before, List.take_add, ← List.take_eq_take_min, List.append_assoc]

section
variable (a : ResponseAttempt) (e : ServerExchange)
include a e

theorem ResponseAttempt.head_eq :
    (responseSlices e.verMin a.code a.reason a.headers (answeredSize a.code a.bodySize) e.staysOpen
      (e.sendsChunks (answeredSize a.code a.bodySize))).flatten = a.head e := rfl

theorem ResponseAttempt.head_filled : 0 < (a.head e).length := by
  unfold ResponseAttempt.head responseSlices
  simp only [List.flatten_append, List.flatten_cons, List.flatten_nil, List.length_append, crlf,
    List.length_cons, List.length_nil]
  omega

theorem ResponseAttempt.slices_fit (few : a.headers.length ≤ headersMax) :
      (responseSlices e.verMin a.code a.reason a.headers (answeredSize a.code a.bodySize)
      e.staysOpen (e.sendsChunks (answeredSize a.code a.bodySize))).length ≤ slicesMax := by
  apply responseSlices_length few
  intro chunks
  simp only [ServerExchange.sendsChunks, Bool.and_eq_true, decide_eq_true_eq] at chunks
  exact chunks.1

end

theorem sendResponse_refuses {e : ServerExchange} (w : Writer) (a : ResponseAttempt) (offset : Nat)
    (ready : e.protocol.state = .awaitingResponse ∨ e.protocol.state = .receivingBody)
    (other : a.headers.length > headersMax ∨ ∃ size, e.headerSize = some size ∧
    (a.head e).length ≠ size) :
    e.sendResponse w a.code a.reason a.headers a.bodySize offset =
      some (e, w, .error (.io .invalidInput)) := by
  unfold ServerExchange.sendResponse
  rw [if_neg (not_not.mpr ready)]
  dsimp only
  by_cases many : a.headers.length > headersMax
  · rw [if_pos many]
  · obtain ⟨size, known, differs⟩ := other.resolve_left many
    rw [if_neg many, if_neg (Nat.not_lt.mpr (a.slices_fit e (Nat.le_of_not_gt many))), known]
    dsimp only
    rw [a.head_eq, if_pos differs]

theorem sendResponse_resumes {e : ServerExchange} (a : ResponseAttempt) {base wire : List Byte}
    {offset : Nat} (ready : e.protocol.state = .awaitingResponse ∨
    e.protocol.state = .receivingBody)
    (few : a.headers.length ≤ headersMax)
    (same : e.headerSize = none ∨ e.headerSize = some (a.head e).length)
    (inside : offset < (a.head e).length) (before : wire = base ++ (a.head e).take offset) :
    (∃ kind left, e.sendResponse ⟨wire, a.schedule⟩ a.code a.reason a.headers a.bodySize offset =
      some ({ e with headerSize := some (a.head e).length }, ⟨wire, left⟩, .error (.io kind))) ∨
    (∃ count left, offset + count < (a.head e).length ∧
      e.sendResponse ⟨wire, a.schedule⟩ a.code a.reason a.headers a.bodySize offset =
        some ({ e with headerSize := some (a.head e).length },
          ⟨base ++ (a.head e).take (offset + count), left⟩, .ok (some count))) ∨
    ∃ e' left, e.sendResponse ⟨wire, a.schedule⟩ a.code a.reason a.headers a.bodySize offset =
      some (e', ⟨base ++ a.head e, left⟩, .ok none) := by
  have enter : e.sendResponse ⟨wire, a.schedule⟩ a.code a.reason a.headers a.bodySize offset =
      ServerExchange.sendResponse.finishHead { e with headerSize := some (a.head e).length }
        ⟨wire, a.schedule⟩ (responseSlices e.verMin a.code a.reason a.headers
          (answeredSize a.code a.bodySize) e.staysOpen
            (e.sendsChunks (answeredSize a.code a.bodySize)))
        (a.head e).length e.staysOpen (answeredSize a.code a.bodySize)
        (e.sendsChunks (answeredSize a.code a.bodySize)) offset := by
    unfold ServerExchange.sendResponse
    rw [if_neg (not_not.mpr ready)]
    dsimp only
    rw [if_neg (Nat.not_lt.mpr few), if_neg (Nat.not_lt.mpr (a.slices_fit e few)), a.head_eq]
    rcases same with unknown | known
    · rw [unknown]
    · have keep : { e with headerSize := some (a.head e).length } = e := by rw [← known]
      rw [keep, known]
      simp only [ne_eq, not_true_eq_false, if_false]
  rw [enter]
  unfold ServerExchange.sendResponse.finishHead
  rcases writeVectoredOffset_resumes (a.head_eq e) inside before a.schedule with
    ⟨kind, left, failed⟩ | ⟨count, left, most, took⟩
  · left
    rw [failed]
    exact ⟨kind, left, rfl⟩
  · right
    rw [took]
    dsimp only
    by_cases reached : offset + count ≥ (a.head e).length
    · right
      rw [if_pos reached, List.take_of_length_le reached]
      exact ⟨_, left, rfl⟩
    · left
      rw [if_neg reached]
      exact ⟨count, left, by omega, rfl⟩

theorem RequestAttempt.head_filled (a : RequestAttempt) : 0 < a.head.length := by
  unfold RequestAttempt.head requestSlices
  simp only [List.flatten_append, List.flatten_cons, List.flatten_nil, List.length_append, crlf,
    List.length_cons, List.length_nil]
  omega

theorem RequestAttempt.slices_fit (a : RequestAttempt) (few : a.headers.length ≤ headersMax) :
    (requestSlices a.method a.uri a.headers a.size a.websocket
      (decide (a.size = .unknown))).length ≤ requestSlicesMax := by
  have kept := List.length_filter_le (fun h => !requestOverridden a.websocket h.1) a.headers
  have others : ∀ size : BodySize,
      (if decide (size = .unknown) then [ascii "Connection: Transfer-Encoding" ++ crlf]
        else []).length + (requestLengthSlices a.method size).length +
        (if decide (size = .unknown) then [ascii "Transfer-Encoding: chunked" ++ crlf]
          else []).length ≤ 2 := by
    intro size
    cases size with
    | noBody => simp [requestLengthSlices]
    | unknown => simp [requestLengthSlices]
    | known x =>
      have one : (requestLengthSlices a.method (.known x)).length ≤ 1 := by
        unfold requestLengthSlices
        dsimp only
        split
        · exact Nat.le_refl 1
        · exact Nat.zero_le 1
      simp only [reduceCtorEq, decide_false, Bool.false_eq_true, if_false, List.length_nil]
      omega
  have extra := others a.size
  unfold requestSlices
  simp only [List.length_append, List.length_cons, List.length_nil, headerSlices_length,
    requestSlicesMax]
  omega

theorem sendHeader_forgets (r : ClientRequest) (w : Writer) (a : RequestAttempt)
    (many : a.headers.length > headersMax) :
    r.sendHeader w a.method a.uri a.headers a.bodySize a.websocket =
      some (.error ⟨r.state, none, 0⟩ (.io .invalidInput), w) := by
  unfold ClientRequest.sendHeader
  dsimp only
  rw [if_pos many]

theorem sendHeader_few (r : ClientRequest) (w : Writer) (a : RequestAttempt)
    (few : a.headers.length ≤ headersMax) :
    r.sendHeader w a.method a.uri a.headers a.bodySize a.websocket =
      if r.headerSize.any (· ≠ a.head.length) then
        some (.error ⟨r.state, some a.head.length, r.offset⟩ (.io .invalidInput), w)
      else
        match writeVectoredOffset w
            (requestSlices a.method a.uri a.headers a.size a.websocket (decide (a.size = .unknown)))
            r.offset with
        | (w, .error kind) => some (.error ⟨r.state, some a.head.length, r.offset⟩ (.io kind), w)
        | (w, .ok bytesWritten) =>
          if r.offset + bytesWritten ≥ a.head.length then
            some (.complete
              { r.state with bodySize := a.size, chunked := decide (a.size = .unknown) }, w)
          else some (.more ⟨r.state, some a.head.length, r.offset + bytesWritten⟩, w) := by
  unfold ClientRequest.sendHeader
  dsimp only
  rw [if_neg (Nat.not_lt.mpr few)]
  exact if_neg (Nat.not_lt.mpr (a.slices_fit few))

/-- A request of another length is refused, and its length replaces that of the one at work. -/
theorem sendHeader_confuses {r : ClientRequest} (w : Writer) (a : RequestAttempt)
    (few : a.headers.length ≤ headersMax) {size : Nat} (known : r.headerSize = some size)
    (other : a.head.length ≠ size) :
    r.sendHeader w a.method a.uri a.headers a.bodySize a.websocket =
      some (.error ⟨r.state, some a.head.length, r.offset⟩ (.io .invalidInput), w) := by
  have differs : r.headerSize.any (· ≠ a.head.length) = true := by
    rw [known, Option.any_some, decide_eq_true_eq]
    exact other.symm
  rw [sendHeader_few r w a few, if_pos differs]

theorem sendHeader_resumes {r : ClientRequest} (a : RequestAttempt) {base wire : List Byte}
    (few : a.headers.length ≤ headersMax)
    (same : r.headerSize = none ∨ r.headerSize = some a.head.length)
    (inside : r.offset < a.head.length) (before : wire = base ++ a.head.take r.offset) :
    (∃ kind left, r.sendHeader ⟨wire, a.schedule⟩ a.method a.uri a.headers a.bodySize a.websocket =
      some (.error ⟨r.state, some a.head.length, r.offset⟩ (.io kind), ⟨wire, left⟩)) ∨
    (∃ count left, r.offset + count < a.head.length ∧
      r.sendHeader ⟨wire, a.schedule⟩ a.method a.uri a.headers a.bodySize a.websocket =
        some (.more ⟨r.state, some a.head.length, r.offset + count⟩,
          ⟨base ++ a.head.take (r.offset + count), left⟩)) ∨
    ∃ state left, r.sendHeader ⟨wire, a.schedule⟩ a.method a.uri a.headers a.bodySize a.websocket =
      some (.complete state, ⟨base ++ a.head, left⟩) := by
  have matches_ : ¬ r.headerSize.any (· ≠ a.head.length) = true := by
    rcases same with unknown | known
    · rw [unknown]
      exact Bool.false_ne_true
    · rw [known, Option.any_some, decide_eq_true_eq]
      exact not_not.mpr rfl
  rw [sendHeader_few r _ a few, if_neg matches_]
  rcases writeVectoredOffset_resumes (rfl : _ = a.head) inside before a.schedule with
    ⟨kind, left, failed⟩ | ⟨count, left, most, took⟩
  · left
    rw [failed]
    exact ⟨kind, left, rfl⟩
  · right
    rw [took]
    dsimp only
    by_cases reached : r.offset + count ≥ a.head.length
    · right
      rw [if_pos reached, List.take_of_length_le reached]
      exact ⟨_, left, rfl⟩
    · left
      rw [if_neg reached]
      exact ⟨count, left, by omega, rfl⟩

section
variable {σ : Type} {base : List Byte} {size : Option Nat} {s : HeadRun σ}

theorem HeadSent.attempt (sent : HeadSent base size s) {headers : Headers} {head : List Byte}
    (filled : 0 < head.length) (permits : s.permits headers head = true) :
    ((headers.length > headersMax ∨ ∃ content, s.content = some content ∧
    size = some content.length ∧
        head.length ≠ content.length) ∧ s.contentAfter headers head = s.content) ∨
      (headers.length ≤ headersMax ∧ (size = none ∨ size = some head.length) ∧
      s.offset < head.length ∧
        s.wire = base ++ head.take s.offset ∧ s.contentAfter headers head = some head ∧
        ∀ content, s.content = some content → head = content) := by
  obtain ⟨open_, allowed⟩ := (Bool.and_eq_true _ _).mp permits
  by_cases many : headers.length > headersMax
  · left
    refine ⟨Or.inl many, ?_⟩
    rw [HeadRun.contentAfter, if_pos many, Option.or_none]
  · rw [decide_eq_false many, Bool.false_or] at allowed
    cases sent with
    | idle content unset offset wire done =>
      right
      refine ⟨Nat.le_of_not_gt many, Or.inl unset, by rw [offset]; exact filled, ?_, ?_, ?_⟩
      · rw [offset, wire, List.take_zero, List.append_nil]
      · rw [HeadRun.contentAfter, content, Option.none_or, if_neg many]
      · intro other held
        rw [content] at held
        cases held
    | going first content set inside wire done =>
      have after : s.contentAfter headers head = some first := by
        rw [HeadRun.contentAfter, content, Option.some_or]
      rw [content] at allowed
      by_cases same : head = first
      · right
        subst same
        refine ⟨Nat.le_of_not_gt many, Or.inr set, inside, wire, after, ?_⟩
        intro other held
        exact Option.some.inj (content.symm.trans held)
      · left
        dsimp only at allowed
        rw [decide_eq_false same, Bool.or_false, decide_eq_true_eq] at allowed
        exact ⟨Or.inr ⟨first, content, set, allowed⟩, after.trans content.symm⟩
    | whole first content wire done =>
      rw [done] at open_
      cases open_

theorem HeadSent.open_size (sent : HeadSent base size s) (open_ : s.done = false) :
    s.content = none ∧ size = none ∨ ∃ head, s.content = some head ∧ size = some head.length := by
  cases sent with
  | idle content unset => exact Or.inl ⟨content, unset⟩
  | going head content set => exact Or.inr ⟨head, content, set⟩
  | whole head content wire done =>
    rw [done] at open_
    cases open_

end

structure ServerSending (base : List Byte) (s : HeadRun ServerExchange) : Prop where
  sent : HeadSent base s.sender.headerSize s
  ready : s.done = false →
    s.sender.protocol.state = .awaitingResponse ∨ s.sender.protocol.state = .receivingBody

theorem ServerSending.step {base : List Byte} {s : HeadRun ServerExchange} (a : ResponseAttempt)
    (sending : ServerSending base s) (permitted : a.permitted s = true) :
    ∃ next, a.step s = some next ∧ ServerSending base next := by
  have open_ : s.done = false := by
    have both := (Bool.and_eq_true _ _).mp permitted
    simpa using both.1
  have ready := sending.ready open_
  unfold ResponseAttempt.step
  rcases sending.sent.attempt (a.head_filled s.sender) permitted with
    ⟨other, kept⟩ | ⟨few, same, inside, wire, content, _⟩
  · have refused := sendResponse_refuses ⟨s.wire, a.schedule⟩ a s.offset ready
      (other.imp_right fun ⟨content, _, size, differs⟩ => ⟨content.length, size, differs⟩)
    rw [refused, kept]
    refine ⟨_, rfl, ⟨?_, fun _ => ready⟩⟩
    cases sending.sent with
    | idle content size offset wire done => exact .idle content size offset wire rfl
    | going head content size inside wire done => exact .going head content size inside wire rfl
    | whole head content wire done =>
      rw [done] at open_
      cases open_
  · rw [content]
    rcases sendResponse_resumes a ready few same inside wire with
      ⟨kind, left, failed⟩ | ⟨count, left, most, took⟩ | ⟨e', left, took⟩
    · rw [failed]
      exact ⟨_, rfl, ⟨.going _ rfl rfl inside wire rfl, fun _ => ready⟩⟩
    · rw [took]
      exact ⟨_, rfl, ⟨.going _ rfl rfl most rfl rfl, fun _ => ready⟩⟩
    · rw [took]
      exact ⟨_, rfl, ⟨.whole _ rfl rfl rfl, fun going => by cases going⟩⟩

theorem clientSending_step {base : List Byte} {s : HeadRun ClientRequest} (a : RequestAttempt)
    (own : s.sender.offset = s.offset) (sent : HeadSent base s.sender.headerSize s)
    (permitted : a.permitted s = true) :
    ∃ next, a.step s = some next ∧ next.sender.offset = next.offset ∧
      (HeadSent base next.sender.headerSize next ↔ a.fits s = true) := by
  have open_ : s.done = false := by
    have both := (Bool.and_eq_true _ _).mp permitted
    simpa using both.1
  unfold RequestAttempt.step
  rcases sent.attempt a.head_filled permitted with ⟨other, kept⟩ | ⟨few, same, inside, wire,
    content, held⟩
  · by_cases many : a.headers.length > headersMax
    · rw [sendHeader_forgets s.sender _ a many, kept]
      refine ⟨_, rfl, rfl, ?_⟩
      cases sent with
      | idle content size offset wire done =>
        refine iff_of_true (.idle content rfl rfl wire rfl) ?_
        rw [RequestAttempt.fits, content]
        rfl
      | going first content size inside wire done =>
        refine iff_of_false (fun sent => ?_) (fun fits => ?_)
        · rcases sent.open_size rfl with ⟨gone, _⟩ | ⟨head, _, set⟩
          · cases content.symm.trans gone
          · cases set
        · rw [RequestAttempt.fits, content, Option.all_some,
            decide_eq_false (Nat.not_le.mpr many)] at fits
          cases fits
      | whole first content wire done =>
        rw [done] at open_
        cases open_
    · obtain ⟨first, content, size, differs⟩ := other.resolve_left many
      rw [sendHeader_confuses _ a (Nat.le_of_not_gt many) size differs, kept]
      refine ⟨_, rfl, rfl, iff_of_false (fun sent => ?_) (fun fits => ?_)⟩
      · rcases sent.open_size rfl with ⟨gone, _⟩ | ⟨head, held, set⟩
        · cases content.symm.trans gone
        · obtain rfl := Option.some.inj (content.symm.trans held)
          exact differs (Option.some.inj set)
      · rw [RequestAttempt.fits, content, Option.all_some, decide_eq_false differs,
          Bool.and_false] at fits
        cases fits
  · have fits : a.fits s = true := by
      unfold RequestAttempt.fits
      cases at_work : s.content with
      | none => rfl
      | some first =>
        rw [Option.all_some, held first at_work, decide_eq_true few, decide_eq_true rfl]
        rfl
    rw [← own] at inside wire
    rw [content]
    rcases sendHeader_resumes a few same inside wire with
      ⟨kind, left, failed⟩ | ⟨count, left, most, took⟩ | ⟨state, left, took⟩
    · rw [failed]
      exact ⟨_, rfl, rfl, iff_of_true (.going _ rfl rfl inside wire rfl) fits⟩
    · rw [took]
      exact ⟨_, rfl, rfl, iff_of_true (.going _ rfl rfl most rfl rfl) fits⟩
    · rw [took]
      exact ⟨_, rfl, own, iff_of_true (.whole _ rfl rfl rfl) fits⟩

theorem RequestAttempt.step_total (s : HeadRun ClientRequest) (a : RequestAttempt) :
    ∃ next, a.step s = some next := by
  have sends : ∃ status w, s.sender.sendHeader ⟨s.wire, a.schedule⟩ a.method a.uri a.headers
      a.bodySize a.websocket = some (status, w) := by
    by_cases many : a.headers.length > headersMax
    · exact ⟨_, _, sendHeader_forgets s.sender _ a many⟩
    · rw [sendHeader_few s.sender _ a (Nat.le_of_not_gt many)]
      split
      · exact ⟨_, _, rfl⟩
      · split
        · exact ⟨_, _, rfl⟩
        · split <;> exact ⟨_, _, rfl⟩
  obtain ⟨status, w, sent⟩ := sends
  unfold RequestAttempt.step
  rw [sent]
  cases status <;> exact ⟨_, rfl⟩

/-- A server resumes exactly, whatever it is given. A client does so exactly in the runs in which
no attempt after the first has another length or too many headers: such an attempt is refused,
but what the client knows of the head at work is lost. -/
theorem heads_resume (base : List Byte) :
    (∀ (e : ServerExchange) (attempts : List ResponseAttempt),
      (e.protocol.state = .awaitingResponse ∨ e.protocol.state = .receivingBody) →
      e.headerSize = none →
      along ResponseAttempt.step ResponseAttempt.permitted (.start e 0 base) attempts = true →
      ∃ last, run ResponseAttempt.step (.start e 0 base) attempts = some last ∧
        HeadSent base last.sender.headerSize last) ∧
    (∀ (e : ServerExchange) (w : Writer) (a : ResponseAttempt) (offset size : Nat),
      (e.protocol.state = .awaitingResponse ∨ e.protocol.state = .receivingBody) →
      e.headerSize = some size → (a.head e).length ≠ size →
      e.sendResponse w a.code a.reason a.headers a.bodySize offset =
        some (e, w, .error (.io .invalidInput))) ∧
    (∀ (r : ClientRequest) (w : Writer) (a : RequestAttempt) (size : Nat),
      r.headerSize = some size → a.head.length ≠ size →
      ∃ r', r' ≠ r ∧ r.sendHeader w a.method a.uri a.headers a.bodySize a.websocket =
        some (.error r' (.io .invalidInput), w)) ∧
    ∀ (state : ClientState) (attempts : List RequestAttempt),
      along RequestAttempt.step RequestAttempt.permitted (.start ⟨state, none, 0⟩ 0 base)
        attempts = true →
      (∃ last, run RequestAttempt.step (.start ⟨state, none, 0⟩ 0 base) attempts = some last) ∧
        ((∀ taken, taken <+: attempts → ∀ last,
            run RequestAttempt.step (.start ⟨state, none, 0⟩ 0 base) taken = some last →
            HeadSent base last.sender.headerSize last) ↔
          along RequestAttempt.step RequestAttempt.fits (.start ⟨state, none, 0⟩ 0 base)
            attempts = true) := by
  refine ⟨fun e attempts ready fresh permitted => ?_, fun e w a offset size ready known differs =>
    ?_, fun r w a size known differs => ?_, fun state attempts permitted => ⟨?_, ?_⟩⟩
  · have start : ServerSending base (.start e 0 base) :=
      ⟨.idle rfl fresh rfl rfl rfl, fun _ => ready⟩
    obtain ⟨last, ran, sending⟩ := run_rule (ServerSending base)
      (fun s a sending permitted => sending.step a permitted) attempts start permitted
    exact ⟨last, ran, sending.sent⟩
  · exact sendResponse_refuses w a offset ready (Or.inr ⟨size, known, differs⟩)
  · by_cases many : a.headers.length > headersMax
    · refine ⟨⟨r.state, none, 0⟩, fun same => ?_, sendHeader_forgets r w a many⟩
      rw [← same] at known
      cases known
    · refine ⟨⟨r.state, some a.head.length, r.offset⟩, fun same => ?_,
        sendHeader_confuses w a (Nat.le_of_not_gt many) known differs⟩
      rw [← same] at known
      exact differs (Option.some.inj known)
  · obtain ⟨last, ran, _⟩ := run_rule (fun _ => True)
      (fun s a _ _ => (a.step_total s).imp fun _ stepped => ⟨stepped, trivial⟩) attempts trivial
        permitted
    exact ⟨last, ran⟩
  · exact reached_iff_along (fun s : HeadRun ClientRequest => s.sender.offset = s.offset)
      (fun s => HeadSent base s.sender.headerSize s)
      (fun s a own sent permitted => clientSending_step a own sent permitted) attempts rfl
      (.idle rfl rfl rfl rfl rfl) permitted

def resumedResponse : List ResponseAttempt :=
  [⟨200, ascii "OK", [], .noBody, [.accept 5]⟩, ⟨404, ascii "Not Found", [], .noBody, [.accept 9]⟩,
    ⟨200, ascii "OK", [], .noBody, [.accept 100]⟩]

def resumedRequest : List RequestAttempt :=
  [⟨ascii "GET", ascii "/a", [], .noBody, false, [.accept 6]⟩,
    ⟨ascii "GET", ascii "/a", [], .noBody, false, [.accept 100]⟩]

theorem heads_resume_example :
    (∃ last, run ResponseAttempt.step (.start (.expecting 5) 0 []) resumedResponse = some last ∧
      HeadSent [] last.sender.headerSize last ∧ last.done = true) ∧
    ServerExchange.sendResponse { ServerExchange.expecting 5 with headerSize := some 7 }
        ⟨[], [.accept 9]⟩ 200 (ascii "OK") [] .noBody 3 =
      some ({ ServerExchange.expecting 5 with headerSize := some 7 },
        ⟨[], [.accept 9]⟩, .error (.io .invalidInput)) ∧
    (∃ r', r' ≠ ⟨ClientRequest.new.state, some 7, 3⟩ ∧
      ClientRequest.sendHeader ⟨ClientRequest.new.state, some 7, 3⟩ ⟨[], [.accept 9]⟩ (ascii "GET")
        (ascii "/a") [] .noBody false = some (.error r' (.io .invalidInput), ⟨[], [.accept 9]⟩)) ∧
    ∃ last, run RequestAttempt.step (.start .new 0 []) resumedRequest = some last ∧
      HeadSent [] last.sender.headerSize last ∧ last.done = true := by
  obtain ⟨server, refused, confused, client⟩ := heads_resume []
  obtain ⟨last, ran, sent⟩ :=
    server (.expecting 5) resumedResponse (by decide) rfl (by decide +kernel)
  have done : (run ResponseAttempt.step (.start (.expecting 5) 0 []) resumedResponse).map
      HeadRun.done = some true := by
    decide +kernel
  rw [ran] at done
  obtain ⟨⟨last', ran'⟩, exactly⟩ :=
    client ClientRequest.new.state resumedRequest (by decide +kernel)
  have done' :
      (run RequestAttempt.step (.start .new 0 []) resumedRequest).map HeadRun.done = some true := by
    decide +kernel
  rw [show ClientRequest.new = ⟨ClientRequest.new.state, none, 0⟩ from rfl, ran'] at done'
  refine ⟨⟨last, ran, sent, Option.some.inj done⟩, ?_, ?_, last', ran', ?_, Option.some.inj done'⟩
  · exact refused _ _ ⟨200, ascii "OK", [], .noBody, []⟩ 3 7 (by decide) rfl (by decide +kernel)
  · exact confused _ _ ⟨ascii "GET", ascii "/a", [], .noBody, false, []⟩ 7 rfl (by decide +kernel)
  · exact exactly.mpr (by decide +kernel) resumedRequest (List.prefix_refl _) last' ran'

/-- A client is told to stop one request for another of a different length. The other is refused
once, and its next attempt is taken for a continuation: a request that nobody made goes out. -/
def strayAttempts : List RequestAttempt :=
  let request (uri : String) (schedule : List Response) : RequestAttempt :=
    ⟨ascii "GET", ascii uri, [], .noBody, false, schedule⟩
  [request "/a" [.accept 6], request "/bb" [], request "/bb" [.accept 100]]

theorem stray_request_is_sent :
    along RequestAttempt.step RequestAttempt.permitted (.start .new 0 []) strayAttempts = true ∧
      (run RequestAttempt.step (.start .new 0 []) strayAttempts).map (fun s => (s.wire, s.done)) =
        some (ascii "GET /ab HTTP/1.1" ++ crlf ++ crlf, true) ∧
      ∀ a ∈ strayAttempts, a.head ≠ ascii "GET /ab HTTP/1.1" ++ crlf ++ crlf := by decide +kernel

end PushpinHttp
