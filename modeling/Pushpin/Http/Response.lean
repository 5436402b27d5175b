import Pushpin.Http.ChunkRuns
import Pushpin.Http.Head

namespace PushpinHttp
open PushpinRingBuffer PushpinVectored PushpinCaller Text

def slicesMax : Nat := headersMax * 4 + 5 + 4

def overridden (code : Nat) (name : List Byte) : Bool :=
  (eqIgnoreAsciiCase name connectionName && decide (code ≠ 101)) ||
    eqIgnoreAsciiCase name contentLengthName || eqIgnoreAsciiCase name transferEncodingName

def headerSlices (h : List Byte × List Byte) : List (List Byte) := [h.1, ascii ": ", h.2, crlf]

def connectionSlices (persistent : Bool) (verMin : Nat) : List (List Byte) :=
  if persistent && decide (verMin = 0) then [ascii "Connection: keep-alive" ++ crlf]
  else if !persistent && decide (verMin ≥ 1) then [ascii "Connection: close" ++ crlf]
  else []

def contentLengthSlices : BodySize → List (List Byte)
  | .known x => [ascii "Content-Length: " ++ Decimal.text x ++ crlf]
  | _ => []

def responseSlices (verMin code : Nat) (reason : List Byte) (headers : Headers)
    (bodySize : BodySize) (persistent chunked : Bool) : List (List Byte) :=
  [if verMin ≥ 1 then ascii "HTTP/1.1 " else ascii "HTTP/1.0 ", Decimal.text code, [32], reason,
    crlf] ++ ((headers.filter fun h => !overridden code h.1).map headerSlices).flatten ++
    connectionSlices persistent verMin ++
    (if chunked then [ascii "Connection: Transfer-Encoding" ++ crlf] else []) ++
    contentLengthSlices bodySize ++
    (if chunked then [ascii "Transfer-Encoding: chunked" ++ crlf] else []) ++ [crlf]

def answeredSize (code : Nat) (bodySize : BodySize) : BodySize :=
  if bodiless code then .noBody else bodySize

def ServerExchange.staysOpen (e : ServerExchange) : Bool :=
  if e.protocol.state = .receivingBody then false else e.protocol.persistent

def ServerExchange.sendsChunks (e : ServerExchange) (bodySize : BodySize) : Bool :=
  decide (bodySize = .unknown) && decide (e.verMin ≥ 1)

/-- `ServerProtocol::send_response`; the number is that of the bytes written when
    the head is not yet complete. -/
def ServerExchange.sendResponse (e : ServerExchange) (w : Writer) (code : Nat) (reason : List Byte)
    (headers : Headers) (bodySize : BodySize) (offset : Nat) :
    Option (ServerExchange × Writer × Except Error (Option Nat)) :=
  if ¬ (e.protocol.state = .awaitingResponse ∨ e.protocol.state = .receivingBody) then none
  else
    let persistent := e.staysOpen
    let bodySize := answeredSize code bodySize
    let chunked := e.sendsChunks bodySize
    if headers.length > headersMax then some (e, w, .error (.io .invalidInput))
    else
      let slices := responseSlices e.verMin code reason headers bodySize persistent chunked
      if slices.length > slicesMax then none
      else
        let totalLength := slices.flatten.length
        match e.headerSize with
        | some headerSize =>
          if totalLength ≠ headerSize then some (e, w, .error (.io .invalidInput))
          else finishHead e w slices totalLength persistent bodySize chunked offset
        | none =>
          finishHead { e with headerSize := some totalLength } w slices totalLength persistent
            bodySize chunked offset
where
  finishHead (e : ServerExchange) (w : Writer) (slices : List (List Byte)) (totalLength : Nat)
      (persistent : Bool) (bodySize : BodySize) (chunked : Bool) (offset : Nat) :
      Option (ServerExchange × Writer × Except Error (Option Nat)) :=
    match writeVectoredOffset w slices offset with
    | (w, .error kind) => some (e, w, .error (.io kind))
    | (w, .ok written) =>
      if offset + written ≥ totalLength then
        some (⟨{ e.protocol with state := .sendingBody, bodySize, persistent, chunked }, e.verMin,
          none⟩, w, .ok none)
      else some (e, w, .ok (some written))

def readLine : List Byte → Option (List Byte × List Byte)
  | [] => none
  | 13 :: 10 :: rest => some ([], rest)
  | c :: s => (readLine s).map fun found => (c :: found.1, found.2)

def readStatus (start : List Byte) : Option Nat :=
  let code := (start.drop 9).take 3
  if start.take 7 = ascii "HTTP/1." ∧ start[8]? = some 32 ∧ code.all Decimal.isDigit ∧
    start[12]? = some 32 then
    some (Decimal.value code)
  else none

def readField (line : List Byte) : Option (List Byte × List Byte) :=
  let name := line.takeWhile (· ≠ 58)
  if name.length < line.length then some (name, trimOws (line.drop (name.length + 1))) else none

def readFields : Nat → List Byte → Option (Headers × List Byte)
  | 0, _ => none
  | lines + 1, s => do
    let (line, rest) ← readLine s
    if line = [] then return ([], rest)
    else do
      let field ← readField line
      let (fields, rest) ← readFields lines rest
      return (field :: fields, rest)

def readHead (s : List Byte) : Option (Nat × Headers × List Byte) := do
  let (line, rest) ← readLine s
  let code ← readStatus line
  let (fields, rest) ← readFields s.length rest
  return (code, fields, rest)

def headMethod : List Byte := ascii "HEAD"
def connectMethod : List Byte := ascii "CONNECT"

def endsWithHead (method : List Byte) (code : Nat) : Bool :=
  bodiless code || decide (method = headMethod) ||
    (decide (method = connectMethod) && decide (200 ≤ code) && decide (code ≤ 299))

/-- RFC 7230, section 3.3.3, for a response. -/
def responseFraming (method : List Byte) (code : Nat) (headers : Headers) : Framing :=
  if endsWithHead method code then .none
  else match (transferCodings headers).getLast? with
    | some coding => if coding = chunkedValue then .chunks else .untilClose
    | none => (lengthFraming (valuesOf contentLengthName headers)).getD .untilClose

def Framing.Holds (rest body : List Byte) : Framing → Prop
  | .none => rest = [] ∧ body = []
  | .length size => rest.length = size ∧ body = rest
  | .chunks => Encodes scanners rest body
  | .untilClose => False
  | .invalid => False

/-- The bytes are one response with this body, and its end does not depend on
    the end of the connection. -/
def Complete (method wire body : List Byte) : Prop :=
  ∃ code fields rest, readHead wire = some (code, fields, rest) ∧
    (responseFraming method code fields).Holds rest body

def delimiters : List Byte := [34, 40, 41, 44, 47, 58, 59, 60, 61, 62, 63, 64, 91, 92, 93, 123, 125]

def isToken (c : Byte) : Bool := 33 ≤ c && c ≤ 126 && !delimiters.contains c

structure Field where
  name : List Byte
  value : List Byte
  filled : name ≠ []
  token : name.all isToken = true
  text : ∀ c ∈ value, c ≠ 13

def Field.header (f : Field) : List Byte × List Byte := (f.name, f.value)

structure Answer where
  code : Nat
  reason : List Byte
  fields : List Field
  bodySize : BodySize
  text : ∀ c ∈ reason, c ≠ 13

def Answer.headers (a : Answer) : Headers := a.fields.map Field.header

structure Readable (h : List Byte × List Byte) : Prop where
  filled : h.1 ≠ []
  name : ∀ c ∈ h.1, c ≠ 13 ∧ c ≠ 58
  value : ∀ c ∈ h.2, c ≠ 13

theorem Readable.of_all {h : List Byte × List Byte} (filled : h.1 ≠ [])
    (name : (h.1.all fun c => c ≠ 13 ∧ c ≠ 58) = true) (value : (h.2.all fun c => c ≠ 13) = true) :
    Readable h where
  filled := filled
  name := fun c mem => of_decide_eq_true (List.all_eq_true.mp name c mem)
  value := fun c mem => of_decide_eq_true (List.all_eq_true.mp value c mem)

theorem Field.readable (f : Field) : Readable f.header where
  filled := f.filled
  name := by
    intro c mem
    have token := List.all_eq_true.mp f.token c mem
    constructor <;> rintro rfl <;> exact absurd token (by decide)
  value := f.text

def ownFields (persistent : Bool) (verMin : Nat) (chunked : Bool) (bodySize : BodySize) : Headers :=
  (if persistent && decide (verMin = 0) then [(connectionName, ascii "keep-alive")]
    else if !persistent && decide (verMin ≥ 1) then [(connectionName, ascii "close")]
    else []) ++
  (if chunked then [(connectionName, transferEncodingName)] else []) ++
  (match bodySize with
    | .known x => [(contentLengthName, Decimal.text x)]
    | _ => []) ++
  (if chunked then [(transferEncodingName, chunkedValue)] else [])

def writtenFields (verMin code : Nat) (headers : Headers) (bodySize : BodySize)
    (persistent chunked : Bool) : Headers :=
  (headers.filter fun h => !overridden code h.1) ++ ownFields persistent verMin chunked bodySize

def statusLine (verMin code : Nat) (reason : List Byte) : List Byte :=
  (if verMin ≥ 1 then ascii "HTTP/1.1 " else ascii "HTTP/1.0 ") ++
    (Decimal.text code ++ 32 :: reason)

def fieldBytes (fields : Headers) : List Byte :=
  (fields.map fun h => (headerSlices h).flatten).flatten

theorem fieldBytes_append (a b : Headers) : fieldBytes (a ++ b) = fieldBytes a ++ fieldBytes b := by
  simp [fieldBytes]

theorem flatten_headerSlices (headers : Headers) :
    ((headers.map headerSlices).flatten).flatten = fieldBytes headers := by
  induction headers with
  | nil => rfl
  | cons h headers ih =>
    rw [List.map_cons, List.flatten_cons, List.flatten_append, ih]
    rfl

theorem connectionSlices_flatten (persistent : Bool) (verMin : Nat) :
    (connectionSlices persistent verMin).flatten =
      fieldBytes (if persistent && decide (verMin = 0) then [(connectionName, ascii "keep-alive")]
        else if !persistent && decide (verMin ≥ 1) then [(connectionName, ascii "close")]
        else []) := by
  unfold connectionSlices
  split
  · decide
  · split
    · decide
    · rfl

theorem contentLengthSlices_flatten (bodySize : BodySize) :
    (contentLengthSlices bodySize).flatten = fieldBytes (match bodySize with
      | .known x => [(contentLengthName, Decimal.text x)]
      | _ => []) := by
  cases bodySize with
  | noBody => rfl
  | unknown => rfl
  | known x =>
    have front : ascii "Content-Length: " = contentLengthName ++ ascii ": " := by decide
    simp [contentLengthSlices, fieldBytes, headerSlices, front]

def headBytes (verMin code : Nat) (reason : List Byte) (headers : Headers) (bodySize : BodySize)
    (persistent chunked : Bool) : List Byte :=
  statusLine verMin code reason ++ (crlf ++
    (fieldBytes (writtenFields verMin code headers bodySize persistent chunked) ++ crlf))

theorem responseSlices_flatten (verMin code : Nat) (reason : List Byte) (headers : Headers)
    (bodySize : BodySize) (persistent chunked : Bool) :
    (responseSlices verMin code reason headers bodySize persistent chunked).flatten =
      headBytes verMin code reason headers bodySize persistent chunked := by
  have upgrade : (if chunked then [ascii "Connection: Transfer-Encoding" ++ crlf] else []).flatten =
      fieldBytes (if chunked then [(connectionName, transferEncodingName)] else []) := by
    cases chunked <;> decide
  have coding : (if chunked then [ascii "Transfer-Encoding: chunked" ++ crlf] else []).flatten =
      fieldBytes (if chunked then [(transferEncodingName, chunkedValue)] else []) := by
    cases chunked <;> decide
  simp only [responseSlices, headBytes, writtenFields, ownFields, fieldBytes_append, statusLine,
    List.flatten_append, flatten_headerSlices, connectionSlices_flatten,
      contentLengthSlices_flatten, upgrade, coding, List.flatten_cons,
    List.flatten_nil, List.append_nil, List.append_assoc, List.cons_append, List.nil_append]

theorem headerSlices_length (headers : Headers) :
    ((headers.map headerSlices).flatten).length = 4 * headers.length := by
  induction headers with
  | nil => rfl
  | cons h headers ih =>
    rw [List.map_cons, List.flatten_cons, List.length_append, ih, List.length_cons]
    simp only [headerSlices, List.length_cons, List.length_nil]
    omega

theorem responseSlices_length {headers : Headers} (few : headers.length ≤ headersMax)
    (verMin code : Nat) (reason : List Byte) (bodySize : BodySize) (persistent chunked : Bool)
    (exclusive : chunked = true → bodySize = .unknown) :
    (responseSlices verMin code reason headers bodySize persistent chunked).length ≤ slicesMax := by
  have kept := List.length_filter_le (fun h => !overridden code h.1) headers
  have connection : (connectionSlices persistent verMin).length ≤ 1 := by
    unfold connectionSlices
    split
    · decide
    · split <;> decide
  have others : (if chunked then [ascii "Connection: Transfer-Encoding" ++ crlf] else []).length +
      (contentLengthSlices bodySize).length +
      (if chunked then [ascii "Transfer-Encoding: chunked" ++ crlf] else []).length ≤ 2 := by
    cases chunked with
    | true =>
      rw [exclusive rfl]
      decide
    | false => cases bodySize <;> simp [contentLengthSlices]
  unfold responseSlices
  simp only [List.length_append, List.length_cons, List.length_nil, headerSlices_length, slicesMax]
  omega

theorem readLine_line {line : List Byte} (plain : ∀ c ∈ line, c ≠ 13) (rest : List Byte) :
    readLine (line ++ (crlf ++ rest)) = some (line, rest) := by
  induction line with
  | nil => rfl
  | cons c line ih =>
    have other : c ≠ 13 := plain c List.mem_cons_self
    rw [List.cons_append, readLine, ih fun d mem => plain d (List.mem_cons_of_mem c mem)]
    · rfl
    · intro _ eq
      exact absurd eq other

theorem readField_line {h : List Byte × List Byte} (readable : Readable h) :
    readField (h.1 ++ (ascii ": " ++ h.2)) = some (h.1, trimOws (32 :: h.2)) := by
  have name : (h.1 ++ (ascii ": " ++ h.2)).takeWhile (· ≠ 58) = h.1 := by
    rw [show ascii ": " ++ h.2 = 58 :: 32 :: h.2 by rfl, List.takeWhile_append_of_pos]
    · simp
    · intro c mem
      simpa using (readable.name c mem).2
  have longer : h.1.length < (h.1 ++ (ascii ": " ++ h.2)).length := by
    rw [List.length_append, show ascii ": " ++ h.2 = 58 :: 32 :: h.2 by rfl]
    simp
  have behind : (h.1 ++ (ascii ": " ++ h.2)).drop (h.1.length + 1) = 32 :: h.2 := by
    rw [← List.drop_drop, List.drop_left]
    rfl
  rw [readField, name, if_pos longer, behind]

def readAs (h : List Byte × List Byte) : List Byte × List Byte := (h.1, trimOws (32 :: h.2))

theorem readFields_written {fields : Headers} (readable : ∀ h ∈ fields, Readable h)
    (rest : List Byte) {lines : Nat} (enough : fields.length < lines) :
    readFields lines (fieldBytes fields ++ (crlf ++ rest)) = some (fields.map readAs, rest) := by
  induction fields generalizing lines with
  | nil =>
    obtain ⟨lines, rfl⟩ := Nat.exists_eq_add_of_le' enough
    rfl
  | cons h fields ih =>
    obtain ⟨lines, rfl⟩ := Nat.exists_eq_add_of_le' (show 1 ≤ lines by omega)
    have first := readable h List.mem_cons_self
    have bytes : fieldBytes (h :: fields) ++ (crlf ++ rest) =
        (h.1 ++ (ascii ": " ++ h.2)) ++ (crlf ++ (fieldBytes fields ++ (crlf ++ rest))) := by
      simp [fieldBytes, headerSlices]
    have plain : ∀ c ∈ h.1 ++ (ascii ": " ++ h.2), c ≠ 13 := by
      intro c mem
      rcases List.mem_append.mp mem with mem | mem
      · exact (first.name c mem).1
      · rcases List.mem_append.mp mem with mem | mem
        · exact (by simp [ascii] : ∀ c ∈ ascii ": ", c ≠ 13) c mem
        · exact first.value c mem
    have filled : h.1 ++ (ascii ": " ++ h.2) ≠ [] := by
      simp [first.filled]
    have fewer : fields.length < lines := by
      rw [List.length_cons] at enough
      omega
    have later := ih (fun f mem => readable f (List.mem_cons_of_mem h mem)) fewer
    rw [readFields, bytes, readLine_line plain]
    simp only [Option.bind_eq_bind, Option.bind_some, if_neg filled, readField_line first, later]
    rfl

theorem text_plain (n : Nat) : ∀ c ∈ Decimal.text n, Decimal.isDigit c = true :=
  List.all_eq_true.mp (Decimal.text_all n)

theorem digit_ne {c d : Byte} (is_digit : Decimal.isDigit c = true)
    (other : Decimal.isDigit d = false) : c ≠ d := by
  rintro rfl
  rw [is_digit] at other
  cases other

theorem writtenFields_readable (verMin : Nat) (a : Answer) (bodySize : BodySize)
    (persistent chunked : Bool) :
    ∀ h ∈ writtenFields verMin a.code a.headers bodySize persistent chunked, Readable h := by
  have keepAlive : Readable (connectionName, ascii "keep-alive") :=
    Readable.of_all (by decide) rfl rfl
  have close : Readable (connectionName, ascii "close") := Readable.of_all (by decide) rfl rfl
  have upgrade : Readable (connectionName, transferEncodingName) :=
    Readable.of_all (by decide) rfl rfl
  have coding : Readable (transferEncodingName, chunkedValue) := Readable.of_all (by decide) rfl rfl
  have lengthName : Readable (contentLengthName, []) := Readable.of_all (by decide) rfl rfl
  have length : ∀ x, Readable (contentLengthName, Decimal.text x) := fun x =>
    ⟨lengthName.filled, lengthName.name, fun c mem => digit_ne (text_plain x c mem) (by decide)⟩
  intro h mem
  rcases List.mem_append.mp mem with user | own
  · obtain ⟨f, _, rfl⟩ := List.mem_map.mp (List.mem_filter.mp user).1
    exact f.readable
  · unfold ownFields at own
    rcases List.mem_append.mp own with own | last
    · rcases List.mem_append.mp own with own | third
      · rcases List.mem_append.mp own with first | second
        · split at first
          · rw [List.mem_singleton.mp first]
            exact keepAlive
          · split at first
            · rw [List.mem_singleton.mp first]
              exact close
            · cases first
        · split at second
          · rw [List.mem_singleton.mp second]
            exact upgrade
          · cases second
      · split at third
        · rw [List.mem_singleton.mp third]
          exact length _
        · cases third
    · split at last
      · rw [List.mem_singleton.mp last]
        exact coding
      · cases last

def threeDigits (code : Nat) : Bool := 100 ≤ code && code ≤ 999

theorem text_three_digits (code : Nat) : (Decimal.text code).length = 3 ↔
    threeDigits code = true := by
  have hundred : (Decimal.text 100).length = 3 := by decide
  have most : (Decimal.text 999).length = 3 := by decide
  have below : (Decimal.text 99).length = 2 := by decide
  have above : (Decimal.text 1000).length = 4 := by decide
  simp only [threeDigits, Bool.and_eq_true, decide_eq_true_eq]
  constructor
  · intro three
    constructor
    · by_contra small
      have := Decimal.text_length_mono (show code ≤ 99 by omega)
      omega
    · by_contra large
      have := Decimal.text_length_mono (show 1000 ≤ code by omega)
      omega
  · rintro ⟨low, high⟩
    have := Decimal.text_length_mono low
    have := Decimal.text_length_mono high
    omega

theorem readStatus_line (verMin code : Nat) (reason : List Byte) :
    readStatus (statusLine verMin code reason) = if threeDigits code then some code else none := by
  obtain ⟨version, front, length, shape⟩ : ∃ version : List Byte, version.take 7 = ascii "HTTP/1." ∧
      version.length = 9 ∧ statusLine verMin code reason = version ++
        (Decimal.text code ++ 32 :: reason) ∧
      version[8]? = some 32 := by
    by_cases new : verMin ≥ 1
    · exact ⟨ascii "HTTP/1.1 ", by decide, by decide, by rw [statusLine, if_pos new], by decide⟩
    · exact ⟨ascii "HTTP/1.0 ", by decide, by decide, by rw [statusLine, if_neg new], by decide⟩
  have start : (statusLine verMin code reason).take 7 = ascii "HTTP/1." := by
    rw [shape.1, List.take_append_of_le_length (by omega), front]
  have space : (statusLine verMin code reason)[8]? = some 32 := by
    rw [shape.1, List.getElem?_append_left (by omega), shape.2]
  have behind : (statusLine verMin code reason).drop 9 = Decimal.text code ++ 32 :: reason := by
    rw [shape.1, ← length, List.drop_left]
  have after : (statusLine verMin code reason)[12]? = (Decimal.text code ++ 32 :: reason)[3]? := by
    rw [← behind, List.getElem?_drop]
  have digits := Decimal.text_all code
  unfold readStatus
  rw [start, space, behind, after]
  by_cases three : threeDigits code = true
  · have count := (text_three_digits code).mpr three
    have taken : (Decimal.text code ++ 32 :: reason).take 3 = Decimal.text code :=
      List.take_left' count
    have next : (Decimal.text code ++ 32 :: reason)[3]? = some 32 := by
      rw [List.getElem?_append_right (by omega), count]
      rfl
    rw [taken, next, if_pos ⟨rfl, rfl, digits, rfl⟩, Decimal.value_text, if_pos three]
  · rw [if_neg three, if_neg]
    rintro ⟨_, _, all, next⟩
    have count : (Decimal.text code).length ≠ 3 := fun eq => three ((text_three_digits code).mp eq)
    rcases Nat.lt_or_ge (Decimal.text code).length 3 with short | long
    · have mem : (32 : Byte) ∈ (Decimal.text code ++ 32 :: reason).take 3 := by
        rw [List.take_append, List.mem_append]
        right
        obtain ⟨k, eq⟩ :=
          Nat.exists_eq_add_of_le' (show 1 ≤ 3 - (Decimal.text code).length by omega)
        rw [eq, List.take_succ_cons]
        exact List.mem_cons_self
      exact absurd (List.all_eq_true.mp all 32 mem) (by decide)
    · have inside : 3 < (Decimal.text code).length := by omega
      rw [List.getElem?_append_left inside, List.getElem?_eq_getElem inside,
        Option.some.injEq] at next
      have digit := text_plain code _ (List.getElem_mem inside)
      exact digit_ne digit (by decide) next

theorem fieldBytes_long (fields : Headers) : fields.length ≤ (fieldBytes fields).length := by
  induction fields with
  | nil => exact Nat.le_refl 0
  | cons h fields ih =>
    have bytes : fieldBytes (h :: fields) = (headerSlices h).flatten ++ fieldBytes fields := rfl
    rw [bytes, List.length_append, List.length_cons]
    simp only [headerSlices, List.flatten_cons, List.length_append, crlf, List.length_cons,
      List.length_nil]
    omega

theorem readHead_written (verMin : Nat) (a : Answer) (bodySize : BodySize)
    (persistent chunked : Bool) (rest : List Byte) :
    readHead (headBytes verMin a.code a.reason a.headers bodySize persistent chunked ++ rest) =
      if threeDigits a.code then
        some (a.code,
          (writtenFields verMin a.code a.headers bodySize persistent chunked).map readAs, rest)
      else none := by
  have plain : ∀ c ∈ statusLine verMin a.code a.reason, c ≠ 13 := by
    intro c mem
    unfold statusLine at mem
    rcases List.mem_append.mp mem with version | mem
    · split at version
      · exact (by simp [ascii] : ∀ c ∈ ascii "HTTP/1.1 ", c ≠ 13) c version
      · exact (by simp [ascii] : ∀ c ∈ ascii "HTTP/1.0 ", c ≠ 13) c version
    · rcases List.mem_append.mp mem with code | mem
      · exact digit_ne (text_plain a.code c code) (by decide)
      · rcases List.mem_cons.mp mem with rfl | reason
        · decide
        · exact a.text c reason
  have readable := writtenFields_readable verMin a bodySize persistent chunked
  generalize fieldsEq : writtenFields verMin a.code a.headers bodySize persistent chunked =
    fields at readable
  have bytes : headBytes verMin a.code a.reason a.headers bodySize persistent chunked ++ rest =
      statusLine verMin a.code a.reason ++ (crlf ++ (fieldBytes fields ++ (crlf ++ rest))) := by
    rw [headBytes, fieldsEq]
    simp only [List.append_assoc]
  have enough : fields.length < (statusLine verMin a.code a.reason ++
      (crlf ++ (fieldBytes fields ++ (crlf ++ rest)))).length := by
    have long := fieldBytes_long fields
    simp only [List.length_append, crlf, List.length_cons, List.length_nil]
    omega
  rw [bytes, readHead, readLine_line plain]
  simp only [Option.bind_eq_bind, Option.bind_some, readStatus_line,
    readFields_written readable rest enough]
  cases threeDigits a.code <;> rfl

theorem valuesOf_append (name : List Byte) (a b : Headers) :
    valuesOf name (a ++ b) = valuesOf name a ++ valuesOf name b := by
  simp [valuesOf]

theorem valuesOf_readAs (name : List Byte) (fields : Headers) :
    valuesOf name (fields.map readAs) = (valuesOf name fields).map fun v => trimOws (32 :: v) := by
  induction fields with
  | nil => rfl
  | cons h fields ih =>
    rw [List.map_cons, valuesOf_cons, valuesOf_cons, ih]
    by_cases same : eqIgnoreAsciiCase h.1 name = true <;> simp [readAs, same]

theorem valuesOf_kept {code : Nat} {name : List Byte} (headers : Headers)
    (own : ∀ n, eqIgnoreAsciiCase n name = true → overridden code n = true) :
    valuesOf name (headers.filter fun h => !overridden code h.1) = [] := by
  induction headers with
  | nil => rfl
  | cons h headers ih =>
    rw [List.filter_cons]
    by_cases ceased : overridden code h.1 = true
    · simpa [ceased] using ih
    · have other : ¬ eqIgnoreAsciiCase h.1 name = true := fun same => ceased (own h.1 same)
      simp [ceased, valuesOf_cons, other, ih]

section
variable {v : List Byte} (digits : ∀ c ∈ v, Decimal.isDigit c = true)
include digits

theorem stripFront_digits (rounds : Nat) : stripFront [[32], [9]] rounds v = v := by
  cases rounds with
  | zero => rfl
  | succ rounds =>
    cases v with
    | nil => rfl
    | cons c v =>
      have digit := digits c List.mem_cons_self
      have space : (32 : Byte) ≠ c := (digit_ne digit (by decide)).symm
      have tab : (9 : Byte) ≠ c := (digit_ne digit (by decide)).symm
      simp [stripFront, List.isPrefixOf, space, tab]

theorem trimOws_digits : trimOws (32 :: v) = v := by
  have front : stripFront [[32], [9]] (32 :: v).length (32 :: v) = v := by
    rw [List.length_cons, stripFront]
    simpa [List.isPrefixOf] using stripFront_digits digits v.length
  have back :=
    stripFront_digits (v := v.reverse) (fun c mem => digits c (List.mem_reverse.mp mem)) v.length
  rw [trimOws, front, back, List.reverse_reverse]

end

theorem valuesOf_own (persistent : Bool) (verMin : Nat) (chunked : Bool) (bodySize : BodySize) :
    valuesOf transferEncodingName (ownFields persistent verMin chunked bodySize) =
        (if chunked then [chunkedValue] else []) ∧
      valuesOf contentLengthName (ownFields persistent verMin chunked bodySize) =
        (match bodySize with
          | .known x => [Decimal.text x]
          | _ => []) := by
  have connection : ∀ value : List Byte,
      valuesOf transferEncodingName [(connectionName, value)] = [] ∧
      valuesOf contentLengthName [(connectionName, value)] = [] := by
    intro value
    have coding : eqIgnoreAsciiCase connectionName transferEncodingName = false := by decide
    have length : eqIgnoreAsciiCase connectionName contentLengthName = false := by decide
    simp [valuesOf, coding, length]
  have lengthField : ∀ value : List Byte,
      valuesOf transferEncodingName [(contentLengthName, value)] = [] ∧
      valuesOf contentLengthName [(contentLengthName, value)] = [value] := by
    intro value
    have coding : eqIgnoreAsciiCase contentLengthName transferEncodingName = false := by decide
    have length : eqIgnoreAsciiCase contentLengthName contentLengthName = true := by decide
    simp [valuesOf, coding, length]
  have codingField : valuesOf transferEncodingName [(transferEncodingName, chunkedValue)] =
    [chunkedValue] ∧
      valuesOf contentLengthName [(transferEncodingName, chunkedValue)] = [] := by decide
  have empty : ∀ name, valuesOf name [] = [] := fun _ => rfl
  unfold ownFields
  simp only [valuesOf_append]
  constructor
  · cases bodySize <;> cases chunked <;> split <;>
      simp [connection, lengthField, codingField, empty] <;> split <;> simp [connection, empty]
  · cases bodySize <;> cases chunked <;> split <;>
      simp [connection, lengthField, codingField, empty] <;> split <;> simp [connection, empty]

def writtenFraming (method : List Byte) (code : Nat) (chunked : Bool) (bodySize : BodySize) :
    Framing :=
  if endsWithHead method code then .none
  else if chunked then .chunks
  else match bodySize with
    | .known x => .length x
    | _ => .untilClose

theorem responseFraming_written (verMin : Nat) (method : List Byte) (a : Answer)
    (bodySize : BodySize) (persistent chunked : Bool) :
    responseFraming method a.code
      ((writtenFields verMin a.code a.headers bodySize persistent chunked).map readAs) =
      writtenFraming method a.code chunked bodySize := by
  have codings : valuesOf transferEncodingName
      ((writtenFields verMin a.code a.headers bodySize persistent chunked).map readAs) =
      if chunked then [chunkedValue] else [] := by
    have kept : valuesOf transferEncodingName (a.headers.filter fun h => !overridden a.code h.1) =
        [] :=
      valuesOf_kept a.headers fun n same => by simp [overridden, same]
    rw [valuesOf_readAs, writtenFields, valuesOf_append, kept, List.nil_append,
      (valuesOf_own _ _ _ _).1]
    cases chunked <;> decide
  have lengths : valuesOf contentLengthName
      ((writtenFields verMin a.code a.headers bodySize persistent chunked).map readAs) =
      match bodySize with
        | .known x => [Decimal.text x]
        | _ => [] := by
    have kept : valuesOf contentLengthName (a.headers.filter fun h => !overridden a.code h.1) =
        [] :=
      valuesOf_kept a.headers fun n same => by simp [overridden, same]
    rw [valuesOf_readAs, writtenFields, valuesOf_append, kept, List.nil_append,
      (valuesOf_own _ _ _ _).2]
    cases bodySize with
    | known x => simp [trimOws_digits (text_plain x)]
    | noBody => rfl
    | unknown => rfl
  unfold responseFraming transferCodings writtenFraming
  rw [codings, lengths]
  by_cases early : endsWithHead method a.code = true
  · rw [if_pos early, if_pos early]
  · rw [if_neg early, if_neg early]
    cases chunked with
    | true =>
      have last : (List.map codingsOf [chunkedValue]).flatten.getLast? = some chunkedValue := by
        decide
      simp only [if_true]
      rw [last]
      simp only [if_true]
    | false =>
      cases bodySize with
      | known x =>
        have filled : isLength (Decimal.text x) = true := by
          simp [isLength, Decimal.text_ne_nil, Decimal.text_all]
        simp [lengthFraming, filled, Decimal.value_text]
      | noBody => rfl
      | unknown => rfl

end PushpinHttp
