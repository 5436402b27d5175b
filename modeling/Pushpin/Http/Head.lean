import Pushpin.Foundations.Text
import Pushpin.Http.ChunkSending

/-!
What `core/http1/protocol.rs` takes from the headers of a request and of a
response, and what RFC 7230 says about the length of a message.
-/
namespace PushpinHttp
open PushpinRingBuffer Text

inductive HeadError where
  | invalidContentLength
  | unsupportedTransferEncoding
  deriving DecidableEq, Repr

def lowerCase (c : Byte) : Byte := if 65 ≤ c ∧ c ≤ 90 then c + 32 else c

def eqIgnoreAsciiCase (a b : List Byte) : Bool := a.map lowerCase = b.map lowerCase

def whitespace : List (List Byte) :=
  [[9], [10], [11], [12], [13], [32], [0xc2, 0x85], [0xc2, 0xa0], [0xe1, 0x9a, 0x80],
    [0xe2, 0x80, 0x80],
    [0xe2, 0x80, 0x81], [0xe2, 0x80, 0x82], [0xe2, 0x80, 0x83], [0xe2, 0x80, 0x84],
      [0xe2, 0x80, 0x85],
    [0xe2, 0x80, 0x86], [0xe2, 0x80, 0x87], [0xe2, 0x80, 0x88], [0xe2, 0x80, 0x89],
      [0xe2, 0x80, 0x8a],
    [0xe2, 0x80, 0xa8], [0xe2, 0x80, 0xa9], [0xe2, 0x80, 0xaf], [0xe2, 0x81, 0x9f],
      [0xe3, 0x80, 0x80]]

def stripFront (pieces : List (List Byte)) : Nat → List Byte → List Byte
  | 0, s => s
  | rounds + 1, s =>
    match pieces.find? (·.isPrefixOf s) with
    | some piece => stripFront pieces rounds (s.drop piece.length)
    | none => s

def trim (s : List Byte) : List Byte :=
  let s := stripFront whitespace s.length s
  (stripFront (whitespace.map List.reverse) s.length s.reverse).reverse

def parseAsInt (src : List Byte) : Option Nat := if isUtf8 src then parseUsize src else none

def headerContainsParam (value param : List Byte) (ignoreCase : Bool) : Bool :=
  isUtf8 param && (value.splitOn 44).any fun part =>
    isUtf8 part && if ignoreCase then eqIgnoreAsciiCase (trim part) param else trim part = param

def contentLengthName : List Byte := ascii "Content-Length"
def transferEncodingName : List Byte := ascii "Transfer-Encoding"
def connectionName : List Byte := ascii "Connection"
def expectName : List Byte := ascii "Expect"
def chunkedValue : List Byte := ascii "chunked"

structure Scan where
  contentLen : Option Nat
  chunked : Bool
  keepAlive : Bool
  close : Bool
  expect100 : Bool
  deriving DecidableEq, Repr

def Scan.start : Scan := ⟨none, false, false, false, false⟩

def Scan.header (expects : Bool) (acc : Scan) (h : List Byte × List Byte) : Except HeadError Scan :=
  if eqIgnoreAsciiCase h.1 contentLengthName then
    match parseAsInt h.2 with
    | some len => .ok { acc with contentLen := some len }
    | none => .error .invalidContentLength
  else if eqIgnoreAsciiCase h.1 transferEncodingName then
    if h.2 = chunkedValue then .ok { acc with chunked := true }
      else .error .unsupportedTransferEncoding
  else if eqIgnoreAsciiCase h.1 connectionName then
    .ok { acc with
      keepAlive := acc.keepAlive || headerContainsParam h.2 (ascii "keep-alive") true
      close := acc.close || headerContainsParam h.2 (ascii "close") false }
  else if expects && eqIgnoreAsciiCase h.1 expectName then
    .ok { acc with
      expect100 := acc.expect100 || headerContainsParam h.2 (ascii "100-continue") false }
  else .ok acc

def Scan.headers (expects : Bool) : Scan → Headers → Except HeadError Scan
  | acc, [] => .ok acc
  | acc, h :: headers =>
    match acc.header expects h with
    | .error e => .error e
    | .ok acc => acc.headers expects headers

structure ServerExchange where
  protocol : ServerProtocol
  verMin : Nat
  headerSize : Option Nat
  deriving DecidableEq, Repr

def ServerExchange.new : ServerExchange :=
  ⟨⟨.receivingRequest, .noBody, none, 0, false, false, none⟩, 0, none⟩

/-- `ServerProtocol::process_request`; the result says whether the client waits
    for a `100 Continue`. -/
def ServerExchange.processRequest (e : ServerExchange) (version : Nat) (headers : Headers) :
    Except HeadError (ServerExchange × Bool) :=
  match Scan.start.headers (decide (version ≥ 1)) headers with
  | .error err => .error err
  | .ok acc =>
    let bodySize : BodySize :=
      if acc.chunked then .unknown
      else match acc.contentLen with
        | some len => .known len
        | none => .noBody
    let chunkLeft :=
      if acc.chunked then e.protocol.chunkLeft else acc.contentLen.or e.protocol.chunkLeft
    let persistent := if version ≥ 1 then !acc.close else acc.keepAlive && !acc.close
    let state : ServerState := if bodySize = .noBody then .awaitingResponse else .receivingBody
    .ok (⟨{ e.protocol with bodySize, chunkLeft, persistent, state }, version, e.headerSize⟩,
      acc.expect100 && decide (bodySize ≠ .noBody))

def bodiless (code : Nat) : Bool := (100 ≤ code && code ≤ 199) || code = 204 || code = 304

def ClientState.processResponse (state : ClientState) (version code : Nat) (headers : Headers) :
    Except HeadError ClientState :=
  match Scan.start.headers false headers with
  | .error e => .error e
  | .ok acc =>
    let bodySize : BodySize :=
      if acc.chunked then .unknown
      else match acc.contentLen with
        | some len => .known len
        | none => if bodiless code then .noBody else .unknown
    let chunkLeft := if acc.chunked then state.chunkLeft else acc.contentLen.or state.chunkLeft
    let closeEnd := decide (bodySize = .unknown) && !acc.chunked
    let persistent :=
      if version ≥ 1 then !acc.close && !closeEnd else acc.keepAlive && !acc.close && !closeEnd
    .ok { state with bodySize, chunkLeft, persistent, chunked := acc.chunked }

def valuesOf (name : List Byte) (headers : Headers) : List (List Byte) :=
  (headers.filter fun h => eqIgnoreAsciiCase h.1 name).map Prod.snd

/-- The body that follows a head: none, so many bytes, chunks, or whatever comes
    before the connection is closed. -/
inductive Framing where
  | none
  | length (size : Nat)
  | chunks
  | untilClose
  | invalid
  deriving DecidableEq, Repr

def trimOws (s : List Byte) : List Byte :=
  let s := stripFront [[32], [9]] s.length s
  (stripFront [[32], [9]] s.length s.reverse).reverse

def codingsOf (value : List Byte) : List (List Byte) :=
  (value.splitOn 44).map fun coding => (trimOws coding).map lowerCase

def transferCodings (headers : Headers) : List (List Byte) :=
  ((valuesOf transferEncodingName headers).map codingsOf).flatten

def isLength (value : List Byte) : Bool := decide (value ≠ []) && value.all Decimal.isDigit

def lengthFraming : List (List Byte) → Option Framing
  | [] => none
  | value :: values =>
    if isLength value && values.all fun v => isLength v && decide
      (Decimal.value v = Decimal.value value) then
      some (.length (Decimal.value value))
    else some .invalid

/-- RFC 7230, section 3.3.3, for a request: a final coding `chunked` decides,
    then a valid length; without either there is no body. -/
def requestFraming (headers : Headers) : Framing :=
  match (transferCodings headers).getLast? with
  | some coding => if coding = chunkedValue then .chunks else .invalid
  | none => (lengthFraming (valuesOf contentLengthName headers)).getD .none

def BodySize.requestFraming : BodySize → Framing
  | .noBody => .none
  | .known size => .length size
  | .unknown => .chunks

theorem valuesOf_cons (name : List Byte) (h : List Byte × List Byte) (headers : Headers) :
    valuesOf name (h :: headers) =
      if eqIgnoreAsciiCase h.1 name then h.2 :: valuesOf name headers
        else valuesOf name headers := by
  simp only [valuesOf, List.filter_cons]
  split <;> rfl

theorem eqIgnoreAsciiCase_other {name a b : List Byte} (apart : eqIgnoreAsciiCase a b = false)
    (same : eqIgnoreAsciiCase name a = true) : eqIgnoreAsciiCase name b = false := by
  simp only [eqIgnoreAsciiCase, decide_eq_false_iff_not, decide_eq_true_eq] at apart same ⊢
  rw [same]
  exact apart

structure Scanned (headers : Headers) (before acc : Scan) : Prop where
  lengths : ∀ v ∈ valuesOf contentLengthName headers, ∃ n, parseAsInt v = some n
  codings : ∀ v ∈ valuesOf transferEncodingName headers, v = chunkedValue
  contentLen : acc.contentLen = ((valuesOf contentLengthName headers).getLast?.bind parseAsInt).or
    before.contentLen
  chunked : acc.chunked = (before.chunked || !(valuesOf transferEncodingName headers).isEmpty)

theorem scan_headers (expects : Bool) (headers : Headers) {before acc : Scan}
    (ok : before.headers expects headers = .ok acc) : Scanned headers before acc := by
  induction headers generalizing before with
  | nil =>
    cases ok
    exact ⟨by simp [valuesOf], by simp [valuesOf], by simp [valuesOf], by simp [valuesOf]⟩
  | cons h headers ih =>
    unfold Scan.headers at ok
    cases first : before.header expects h with
    | error e =>
      rw [first] at ok
      cases ok
    | ok between =>
      rw [first] at ok
      obtain ⟨lengths, codings, contentLen, chunked⟩ := ih ok
      unfold Scan.header at first
      by_cases is_length : eqIgnoreAsciiCase h.1 contentLengthName = true
      · rw [if_pos is_length] at first
        have no_coding : eqIgnoreAsciiCase h.1 transferEncodingName = false :=
          eqIgnoreAsciiCase_other (by decide) is_length
        cases parsed : parseAsInt h.2 with
        | none =>
          rw [parsed] at first
          cases first
        | some len =>
          rw [parsed] at first
          cases first
          refine ⟨?_, ?_, ?_, ?_⟩
          · rw [valuesOf_cons, if_pos is_length]
            intro v mem
            rcases List.mem_cons.mp mem with rfl | mem
            · exact ⟨len, parsed⟩
            · exact lengths v mem
          · rw [valuesOf_cons, no_coding]
            exact codings
          · rw [contentLen, valuesOf_cons, if_pos is_length]
            cases later : valuesOf contentLengthName headers with
            | nil => simp [parsed]
            | cons v values =>
              obtain ⟨n, last⟩ : ∃ n, ((v :: values).getLast?.bind parseAsInt) = some n := by
                rw [List.getLast?_eq_getLast_of_ne_nil (List.cons_ne_nil v values),
                  Option.bind_some]
                exact lengths _ (by rw [later]; exact List.getLast_mem _)
              rw [List.getLast?_cons_cons, last]
              rfl
          · rw [chunked, valuesOf_cons, no_coding]
            rfl
      · rw [if_neg is_length] at first
        by_cases is_coding : eqIgnoreAsciiCase h.1 transferEncodingName = true
        · rw [if_pos is_coding] at first
          split at first
          · rename_i value
            cases first
            refine ⟨?_, ?_, ?_, ?_⟩
            · rw [valuesOf_cons, if_neg is_length]
              exact lengths
            · rw [valuesOf_cons, if_pos is_coding]
              intro v mem
              rcases List.mem_cons.mp mem with rfl | mem
              · exact value
              · exact codings v mem
            · rw [contentLen, valuesOf_cons, if_neg is_length]
            · rw [chunked, valuesOf_cons, if_pos is_coding]
              simp
          · cases first
        · rw [if_neg is_coding] at first
          have kept : between.contentLen = before.contentLen ∧
              between.chunked = before.chunked := by
            split at first
            · cases first
              exact ⟨rfl, rfl⟩
            · split at first <;> cases first <;> exact ⟨rfl, rfl⟩
          rw [kept.1] at contentLen
          rw [kept.2] at chunked
          refine ⟨?_, ?_, ?_, ?_⟩
          · rw [valuesOf_cons, if_neg is_length]
            exact lengths
          · rw [valuesOf_cons, if_neg is_coding]
            exact codings
          · rw [valuesOf_cons, if_neg is_length]
            exact contentLen
          · rw [valuesOf_cons, if_neg is_coding]
            exact chunked

/-- The headers leave no doubt: every `Content-Length` is made of digits, all of
    them agree, and the body ends where RFC 7230 says. -/
structure Unambiguous (headers : Headers) (bodySize : BodySize) : Prop where
  digits : ∀ v ∈ valuesOf contentLengthName headers, isLength v = true
  agree : ∀ v ∈ valuesOf contentLengthName headers, ∀ w ∈ valuesOf contentLengthName headers,
    Decimal.value v = Decimal.value w
  boundary : bodySize.requestFraming = requestFraming headers

def noSign (headers : Headers) : Bool :=
  (valuesOf contentLengthName headers).all fun v => v.head? ≠ some 43

def oneLength (headers : Headers) : Bool :=
  (valuesOf contentLengthName headers).all fun v =>
    (valuesOf contentLengthName headers).all fun w =>
    parseAsInt v = parseAsInt w

theorem isLength_parses {v : List Byte} {n : Nat} (parsed : parseAsInt v = some n)
    (length : isLength v = true) : Decimal.value v = n := by
  simp only [isLength, Bool.and_eq_true, decide_eq_true_eq] at length
  unfold parseAsInt at parsed
  split at parsed
  · rw [parseUsize_digits length.2] at parsed
    exact (parseDigits_spec parsed).2.2.1
  · cases parsed

theorem unsigned_isLength {v : List Byte} {n : Nat} (parsed : parseAsInt v = some n)
    (unsigned : v.head? ≠ some 43) : isLength v = true := by
  unfold parseAsInt at parsed
  split at parsed
  · unfold parseUsize at parsed
    split at parsed
    · exact absurd rfl unsigned
    · obtain ⟨filled, all, _⟩ := parseDigits_spec parsed
      simp only [isLength, decide_eq_true filled, all, Bool.and_self]
  · cases parsed

theorem isLength_unsigned {v : List Byte} (length : isLength v = true) : v.head? ≠ some 43 := by
  cases v with
  | nil => simp
  | cons c v =>
    simp only [isLength, List.all_cons, Bool.and_eq_true] at length
    intro plus
    obtain rfl := Option.some.inj plus
    exact absurd length.2.1 (by decide)

theorem transferCodings_chunked {headers : Headers}
    (codings : ∀ v ∈ valuesOf transferEncodingName headers, v = chunkedValue) :
    transferCodings headers = valuesOf transferEncodingName headers := by
  unfold transferCodings
  generalize valuesOf transferEncodingName headers = values at codings
  induction values with
  | nil => rfl
  | cons v values ih =>
    have one : codingsOf chunkedValue = [chunkedValue] := by decide
    rw [List.map_cons, List.flatten_cons, ih fun w mem => codings w (List.mem_cons_of_mem v mem),
      codings v List.mem_cons_self, one]
    rfl

theorem lengthFraming_agree {values : List (List Byte)} {v : List Byte}
    (last : values.getLast? = some v) (digits : ∀ w ∈ values, isLength w = true)
    (agree : ∀ w ∈ values, ∀ w' ∈ values, Decimal.value w = Decimal.value w') :
    lengthFraming values = some (.length (Decimal.value v)) := by
  have mem : v ∈ values := List.mem_of_getLast? last
  cases values with
  | nil => cases mem
  | cons w values =>
    have all : (values.all fun u => isLength u && decide (Decimal.value u = Decimal.value w)) =
        true := by
      rw [List.all_eq_true]
      intro u inside
      have inside' := List.mem_cons_of_mem w inside
      simp only [digits u inside', agree u inside' w List.mem_cons_self, decide_true, Bool.and_self]
    simp only [lengthFraming, digits w List.mem_cons_self, all, agree v mem w List.mem_cons_self,
      Bool.and_self, if_true]

/-- The body size that a request gets is the one of the RFC when the lengths are
    digits that agree. -/
theorem boundary_agrees {headers : Headers} {acc : Scan} (scanned : Scanned headers Scan.start acc)
    (digits : ∀ v ∈ valuesOf contentLengthName headers, isLength v = true)
    (agree : ∀ v ∈ valuesOf contentLengthName headers, ∀ w ∈ valuesOf contentLengthName headers,
      Decimal.value v = Decimal.value w) :
    (if acc.chunked then .unknown
      else match acc.contentLen with
        | some len => .known len
        | none => .noBody : BodySize).requestFraming = requestFraming headers := by
  obtain ⟨lengths, codings, contentLen, chunked⟩ := scanned
  unfold requestFraming
  rw [transferCodings_chunked codings, chunked, contentLen]
  cases coded : (valuesOf transferEncodingName headers).getLast? with
  | some coding =>
    have mem := List.mem_of_getLast? coded
    have filled : (valuesOf transferEncodingName headers).isEmpty = false := by
      cases values : valuesOf transferEncodingName headers with
      | nil =>
        rw [values] at mem
        cases mem
      | cons _ _ => rfl
    simp only [filled, codings coding mem, Bool.not_false, Bool.or_true, if_true,
      BodySize.requestFraming]
  | none =>
    rw [List.getLast?_eq_none_iff.mp coded]
    simp only [List.isEmpty_nil, Bool.not_true, Bool.or_false, Scan.start, Bool.false_eq_true,
      if_false, Option.or_none]
    cases last : (valuesOf contentLengthName headers).getLast? with
    | none =>
      rw [List.getLast?_eq_none_iff.mp last]
      rfl
    | some v =>
      have mem := List.mem_of_getLast? last
      obtain ⟨n, parsed⟩ := lengths v mem
      rw [lengthFraming_agree last digits agree, isLength_parses parsed (digits v mem)]
      simp only [Option.bind_some, parsed, BodySize.requestFraming, Option.getD_some]

/-- An accepted request is unambiguous exactly when no `Content-Length` has a
    sign and all of them are read as the same number. -/
theorem request_is_unambiguous_iff {e e' : ServerExchange} {version : Nat} {headers : Headers}
    {expect : Bool} (accepted : e.processRequest version headers = .ok (e', expect)) :
    Unambiguous headers e'.protocol.bodySize ↔
      noSign headers = true ∧ oneLength headers = true := by
  unfold ServerExchange.processRequest at accepted
  cases scan : Scan.start.headers (decide (version ≥ 1)) headers with
  | error err =>
    rw [scan] at accepted
    cases accepted
  | ok acc =>
    rw [scan] at accepted
    cases accepted
    have scanned := scan_headers _ headers scan
    have lengths := scanned.lengths
    simp only [noSign, oneLength, List.all_eq_true, decide_eq_true_eq]
    constructor
    · rintro ⟨digits, agree, _⟩
      refine ⟨fun v mem => isLength_unsigned (digits v mem), fun v mem w mem' => ?_⟩
      obtain ⟨n, parsed⟩ := lengths v mem
      obtain ⟨m, parsed'⟩ := lengths w mem'
      rw [parsed, parsed', ← isLength_parses parsed (digits v mem),
        ← isLength_parses parsed' (digits w mem'), agree v mem w mem']
    · rintro ⟨unsigned, same⟩
      have digits : ∀ v ∈ valuesOf contentLengthName headers, isLength v = true := by
        intro v mem
        obtain ⟨n, parsed⟩ := lengths v mem
        exact unsigned_isLength parsed (unsigned v mem)
      have agree : ∀ v ∈ valuesOf contentLengthName headers,
          ∀ w ∈ valuesOf contentLengthName headers, Decimal.value v = Decimal.value w := by
        intro v mem w mem'
        obtain ⟨n, parsed⟩ := lengths v mem
        have parsed' := parsed
        rw [same v mem w mem'] at parsed'
        rw [isLength_parses parsed (digits v mem), isLength_parses parsed' (digits w mem')]
      exact ⟨digits, agree, boundary_agrees scanned digits agree⟩

def repeatedLength : Headers := [(ascii "Host", ascii "a"), (ascii "content-length", ascii "5"),
  (ascii "Content-Length", ascii "05")]

def ServerExchange.expecting (size : Nat) : ServerExchange :=
  ⟨⟨.receivingBody, .known size, some size, 0, true, false, none⟩, 1, none⟩

theorem repeated_length_is_unambiguous :
    ServerExchange.new.processRequest 1 repeatedLength = .ok (.expecting 5, false) ∧
      Unambiguous repeatedLength (ServerExchange.expecting 5).protocol.bodySize := by
  have accepted : ServerExchange.new.processRequest 1 repeatedLength = .ok (.expecting 5, false) :=
    rfl
  exact ⟨accepted, (request_is_unambiguous_iff accepted).mpr ⟨by decide, by decide⟩⟩

def signedLength : Headers := [(ascii "Content-Length", ascii "+5")]

def twoLengths : Headers :=
  [(ascii "Content-Length", ascii "5"), (ascii "Content-Length", ascii "30")]

/-- A sign and differing lengths are accepted, in a request and in a response;
    the last length wins. -/
theorem ambiguous_requests_are_accepted :
    (ServerExchange.new.processRequest 1 signedLength = .ok (.expecting 5, false) ∧
      ¬ Unambiguous signedLength (.known 5)) ∧
    (ServerExchange.new.processRequest 1 twoLengths = .ok (.expecting 30, false) ∧
      ¬ Unambiguous twoLengths (.known 30)) ∧
    (∃ state', ClientState.receivingChunks.processResponse 1 200 signedLength = .ok state') ∧
    ∃ state', ClientState.receivingChunks.processResponse 1 200 twoLengths = .ok state' := by
  refine ⟨⟨rfl, ?_⟩, ⟨rfl, ?_⟩, ⟨_, rfl⟩, _, rfl⟩
  · intro unambiguous
    exact absurd (unambiguous.digits (ascii "+5") (by decide)) (by decide)
  · intro unambiguous
    exact absurd (unambiguous.agree (ascii "5") (by decide) (ascii "30") (by decide)) (by decide)

end PushpinHttp
