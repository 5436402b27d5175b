import Pushpin.Core.Caller
import Pushpin.Http.ClientBody

/-!
Sending a body in chunks: `write_chunk`, the server's `send_body` and the
client's `ClientRequestBody::send`. A `none` is a panic.
-/
namespace PushpinHttp
open PushpinRingBuffer PushpinVectored PushpinCaller Scanning

def chunkSizeMax : Nat := 65535
def sendBodyBufsMax : Nat := 8
def chunkFooter : List Byte := crlf

def hexByte (digit : Nat) : Byte :=
  if digit < 10 then UInt8.ofNat (48 + digit) else UInt8.ofNat (87 + digit)

def hexDigits : Nat → Nat → List Byte
  | 0, _ => []
  | places + 1, n =>
    if n < 16 then [hexByte n] else hexDigits places (n / 16) ++ [hexByte (n % 16)]

def chunkHeader (size : Nat) : List Byte := hexDigits 16 size ++ crlf

def currentChunk (chunk : Option Chunk) (contentLen maxSize : Nat) : Chunk :=
  match chunk with
  | some chunk => chunk
  | none => ⟨chunkHeader (min contentLen maxSize), min contentLen maxSize, 0⟩

def writeChunk (content : List (List Byte)) (footer : List Byte) (w : Writer) (chunk : Option Chunk)
    (maxSize : Nat) : Option (Writer × Option Chunk × Except ErrorKind Nat) :=
  if ¬ (content.length ≤ sendBodyBufsMax ∧ maxSize ≤ chunkSizeMax) then none
  else
    let current := currentChunk chunk content.flatten.length maxSize
    let total := current.header.length + current.size + footer.length
    let out := [current.header] ++ limit content current.size ++ [footer]
    match writeVectoredOffset w out current.sent with
    | (w, .error kind) => some (w, some current, .error kind)
    | (w, .ok size) =>
      let sent := current.sent + size
      if sent < total then some (w, some { current with sent }, .ok 0)
      else some (w, none, .ok current.size)

def writeContent (src : List (List Byte)) (w : Writer) (chunk : Option Chunk) :
    Option (Writer × Option Chunk × Except ErrorKind Nat) :=
  if src.flatten.length > 0 then writeChunk src chunkFooter w chunk chunkSizeMax
  else some (w, chunk, .ok 0)

def ServerProtocol.sendBody (p : ServerProtocol) (w : Writer) (src : List (List Byte))
    (ended : Bool) (headers : Option (List Byte)) :
    Option (ServerProtocol × Writer × Except Error Nat) :=
  if p.state ≠ .sendingBody then none
  else
    let (src, capped) := capBufs src sendBodyBufsMax
    let ended := ended && !capped
    let srcLen := src.flatten.length
    if p.bodySize = .noBody then
      some (if ended then { p with state := .finished } else p, w, .ok srcLen)
    else if ¬ p.chunked then
      match writeVectoredOffset w src 0 with
      | (w, .error kind) => some (p, w, .error (.io kind))
      | (w, .ok size) =>
        some (if ended ∧ size ≥ srcLen then { p with state := .finished } else p, w, .ok size)
    else do
      let (w, chunk, content) ← writeContent src w p.sendingChunk
      let p := { p with sendingChunk := chunk }
      match content with
      | .error kind => return (p, w, .error (.io kind))
      | .ok contentWritten =>
        if ended ∧ contentWritten ≥ srcLen then do
          let (w, chunk, closing) ←
            writeChunk [[]] (headers.getD chunkFooter) w p.sendingChunk chunkSizeMax
          let p := { p with sendingChunk := chunk }
          match closing with
          | .error kind => return (p, w, .error (.io kind))
          | .ok _ =>
            return (if chunk.isNone then { p with state := .finished } else p, w,
              .ok contentWritten)
        else return (p, w, .ok contentWritten)

inductive SendStatus where
  | complete (state : ClientState) (size : Nat)
  | more (state : ClientState) (size : Nat)
  | error (state : ClientState) (e : Error)
  deriving DecidableEq, Repr

def ClientState.send (state : ClientState) (w : Writer) (src : List (List Byte)) (ended : Bool)
    (headers : Option (List Byte)) : Option (Writer × SendStatus) :=
  let (src, capped) := capBufs src sendBodyBufsMax
  let ended := ended && !capped
  let srcLen := src.flatten.length
  if state.bodySize = .noBody then
    some (w, if ended then .complete state 0 else .more state srcLen)
  else if ¬ state.chunked then
    match writeVectoredOffset w src 0 with
    | (w, .error kind) => some (w, .error state (.io kind))
    | (w, .ok size) =>
      if ¬ size ≤ srcLen then none
      else some (w, if ended ∧ size = srcLen then .complete state size else .more state size)
  else do
    let (w, chunk, content) ← writeContent src w state.sendingChunk
    let state := { state with sendingChunk := chunk }
    match content with
    | .error kind => return (w, .error state (.io kind))
    | .ok contentWritten =>
      if ¬ contentWritten ≤ srcLen then none
      else if ended ∧ contentWritten = srcLen then do
        let (w, chunk, closing) ←
          writeChunk [[]] (headers.getD chunkFooter) w state.sendingChunk chunkSizeMax
        let state := { state with sendingChunk := chunk }
        match closing with
        | .error kind => return (w, .error state (.io kind))
        | .ok _ =>
          return (w, if chunk.isNone then .complete state contentWritten
            else .more state contentWritten)
      else return (w, .more state contentWritten)

def ServerProtocol.sendReply (p : ServerProtocol) (w : Writer) (src : List (List Byte))
    (ended : Bool) (headers : Option (List Byte)) : Option (ServerProtocol × Writer × Reply) := do
  let (p, w, result) ← p.sendBody w src ended headers
  match result with
  | .ok count => return (p, w, if p.state = .finished then .finished count else .consumed count)
  | .error _ => return (p, w, .failed)

def ClientState.sendReply (state : ClientState) (w : Writer) (src : List (List Byte)) (ended : Bool)
    (headers : Option (List Byte)) : Option (ClientState × Writer × Reply) := do
  let (w, status) ← state.send w src ended headers
  match status with
  | .complete state count => return (state, w, .finished count)
  | .more state count => return (state, w, .consumed count)
  | .error state _ => return (state, w, .failed)

/-- The transport refuses the closing chunk in the very call that completes the
    last content chunk. -/
def losesCount (chunk : Option Chunk) (bufs : List (List Byte)) (ended : Bool)
    (schedule : List Response) : Bool :=
  let current := currentChunk chunk bufs.flatten.length chunkSizeMax
  let left := current.header.length + current.size + chunkFooter.length - current.sent
  ended && bufs.length ≤ sendBodyBufsMax && 0 < bufs.flatten.length &&
    bufs.flatten.length ≤ current.size &&
    match schedule with
    | .accept count :: .fail _ :: _ | [.accept count] => left ≤ count
    | _ => false

/-- The buffers of a retry hold less than the chunk in flight, and the transport
    goes past what they hold, into the footer. -/
def uncovers (chunk : Option Chunk) (src : List (List Byte)) (schedule : List Response) : Bool :=
  match chunk, schedule with
  | some chunk, .accept count :: _ =>
    let held := chunk.header.length + src.flatten.length
    0 < src.flatten.length && src.flatten.length < chunk.size && 0 < count &&
      held < chunk.sent + count && chunk.sent < held + chunkFooter.length
  | _, _ => false

def encodedChunk (data : List Byte) : List Byte := chunkHeader data.length ++ (data ++ crlf)

def encodedChunks (pieces : List (List Byte)) : List Byte := (pieces.map encodedChunk).flatten

def wholeChunk (current : Chunk) (content footer : List Byte) : List Byte :=
  current.header ++ (content.take current.size ++ footer)

def chunkWritten (current : Chunk) (total : Nat) :
    Writer × Except ErrorKind Nat → Writer × Option Chunk × Except ErrorKind Nat
  | (w, .error kind) => (w, some current, .error kind)
  | (w, .ok size) =>
    if current.sent + size < total then
      (w, some { current with sent := current.sent + size }, .ok 0)
    else (w, none, .ok current.size)

variable {chunk : Option Chunk}

theorem writeChunk_eq {content : List (List Byte)} (footer : List Byte) (w : Writer)
    {current : Chunk} (few : content.length ≤ sendBodyBufsMax)
    (cur : currentChunk chunk content.flatten.length chunkSizeMax = current) :
    writeChunk content footer w chunk chunkSizeMax =
      some (chunkWritten current (current.header.length + current.size + footer.length)
        (writeVectoredOffset w ([current.header] ++ limit content current.size ++ [footer])
          current.sent)) := by
  unfold writeChunk
  rw [if_neg (not_not.mpr ⟨few, Nat.le_refl _⟩), cur]
  simp only
  generalize writeVectoredOffset w ([current.header] ++ limit content current.size ++ [footer])
    current.sent = answer
  rcases answer with ⟨w', kind | size⟩
  · rfl
  · simp only [chunkWritten]
    split <;> rfl

variable {footer : List Byte} {w : Writer}

/-- `write_chunk` on a chunk of which `sent` bytes are on the wire already. -/
theorem writeChunk_spec {content : List (List Byte)} {base : List Byte} {current : Chunk}
    (few : content.length ≤ sendBodyBufsMax)
    (cur : currentChunk chunk content.flatten.length chunkSizeMax = current)
    (holds : current.size ≤ content.flatten.length)
    (unsent : current.sent < (wholeChunk current content.flatten footer).length)
    (wire : w.wire = base ++ (wholeChunk current content.flatten footer).take current.sent) :
    (∃ kind schedule, (∀ count rest, w.schedule ≠ .accept count :: rest) ∧
      writeChunk content footer w chunk chunkSizeMax =
        some (⟨w.wire, schedule⟩, some current, .error kind)) ∨
    (∃ sent schedule, sent < (wholeChunk current content.flatten footer).length ∧
      writeChunk content footer w chunk chunkSizeMax =
        some (⟨base ++ (wholeChunk current content.flatten footer).take sent, schedule⟩,
          some { current with sent }, .ok 0)) ∨
    ∃ count rest, w.schedule = .accept count :: rest ∧
      current.header.length + current.size + footer.length - current.sent ≤ count ∧
      writeChunk content footer w chunk chunkSizeMax =
        some (⟨base ++ wholeChunk current content.flatten footer, rest⟩, none,
          .ok current.size) := by
  have bytes : ([current.header] ++ limit content current.size ++ [footer]).flatten =
      wholeChunk current content.flatten footer := by
    simp [wholeChunk, limit_flatten]
  have total : (wholeChunk current content.flatten footer).length =
      current.header.length + current.size + footer.length := by
    simp only [wholeChunk, List.length_append, List.length_take]
    omega
  rw [writeChunk_eq footer w few cur, writeVectoredOffset_inside w _ (by rw [bytes]; exact unsent),
    bytes]
  have width : ((wholeChunk current content.flatten footer).drop current.sent).length =
      (wholeChunk current content.flatten footer).length - current.sent := List.length_drop
  rcases writeVectored_cases w ((wholeChunk current content.flatten footer).drop current.sent) with
    ⟨kind, schedule, refused, failed⟩ | ⟨count, rest, planned, took⟩
  · left
    rw [failed]
    exact ⟨kind, schedule, refused, rfl⟩
  · right
    rw [took, width]
    by_cases all : current.header.length + current.size + footer.length - current.sent ≤ count
    · right
      refine ⟨count, rest, planned, all, ?_⟩
      simp only [chunkWritten]
      rw [if_neg (by omega), List.take_of_length_le (by omega), wire, List.append_assoc,
        List.take_append_drop]
    · left
      refine ⟨current.sent + count, rest, by omega, ?_⟩
      simp only [chunkWritten]
      rw [if_pos (by omega), wire, List.append_assoc, Nat.min_eq_left (by omega), List.take_add]

theorem take_drop_append_left {front back : List Byte} {start count : Nat}
    (inside : start + count ≤ front.length) :
    ((front ++ back).drop start).take count = (front.drop start).take count := by
  rw [List.drop_append_of_le_length (by omega),
    List.take_append_of_le_length (by rw [List.length_drop]; omega)]

/-- `write_chunk` when the buffers hold less than the chunk: `whole` goes on
    after them with the rest of its content. -/
theorem writeChunk_short {content : List (List Byte)} {base whole : List Byte}
    {current : Chunk} (few : content.length ≤ sendBodyBufsMax) (filled : 0 < content.flatten.length)
    (short : content.flatten.length < current.size)
    (safe : uncovers (some current) content w.schedule = false)
    (begins : current.header ++ content.flatten <+: whole)
    (total : whole.length = current.header.length + current.size + chunkFooter.length)
    (unsent : current.sent < whole.length) (wire : w.wire = base ++ whole.take current.sent) :
    (∃ kind schedule, writeChunk content chunkFooter w (some current) chunkSizeMax =
        some (⟨w.wire, schedule⟩, some current, .error kind)) ∨
    (∃ sent schedule, sent < whole.length ∧
      writeChunk content chunkFooter w (some current) chunkSizeMax =
        some (⟨base ++ whole.take sent, schedule⟩, some { current with sent }, .ok 0)) := by
  have bytes : ([current.header] ++ limit content current.size ++ [chunkFooter]).flatten =
      current.header ++ content.flatten ++ chunkFooter := by
    simp only [List.flatten_append, List.flatten_cons, List.flatten_nil, List.append_nil,
      limit_flatten, List.take_of_length_le (Nat.le_of_lt short)]
  have width : (current.header ++ content.flatten ++ chunkFooter).length =
      current.header.length + content.flatten.length + chunkFooter.length := by
    rw [List.length_append, List.length_append]
  rw [writeChunk_eq chunkFooter w few
    (show currentChunk (some current) _ chunkSizeMax = current from rfl), ← total]
  by_cases inside : current.sent < (current.header ++ content.flatten ++ chunkFooter).length
  · rw [writeVectoredOffset_inside w _ (by rw [bytes]; exact inside), bytes]
    rcases writeVectored_cases w ((current.header ++ content.flatten ++ chunkFooter).drop
      current.sent) with ⟨kind, schedule, refused, failed⟩ | ⟨count, rest, planned, took⟩
    · left
      rw [failed]
      exact ⟨kind, schedule, rfl⟩
    · right
      rw [took, List.length_drop]
      simp only [planned, uncovers, filled, short, decide_true, Bool.true_and,
        Bool.and_eq_false_iff, decide_eq_false_iff_not] at safe
      -- the transport stays within what the buffers hold
      have within : count = 0 ∨
          current.sent + count ≤ current.header.length + content.flatten.length := by
        rcases safe with (none | past) | beyond
        · left; omega
        · right; omega
        · omega
      have same : ((current.header ++ content.flatten ++ chunkFooter).drop current.sent).take
          count = (whole.drop current.sent).take count := by
        rcases within with rfl | within
        · rw [List.take_zero, List.take_zero]
        · obtain ⟨more, rfl⟩ := begins
          have held : current.sent + count ≤ (current.header ++ content.flatten).length := by
            rw [List.length_append]
            exact within
          rw [take_drop_append_left held, take_drop_append_left held]
      have all : min count
          ((current.header ++ content.flatten ++ chunkFooter).length - current.sent) = count := by
        omega
      refine ⟨current.sent + count, rest, by omega, ?_⟩
      simp only [chunkWritten, all]
      rw [if_pos (by omega), same, wire, List.append_assoc, List.take_add]
  · have outside :
      ([current.header] ++ limit content current.size ++ [chunkFooter]).flatten.length ≤
        current.sent := by
      rw [bytes]
      exact Nat.le_of_not_lt inside
    rcases writeVectoredOffset_outside w _ outside with stopped | ⟨kind, failed⟩
    · right
      rw [stopped]
      refine ⟨current.sent, w.schedule, unsent, ?_⟩
      simp only [chunkWritten, Nat.add_zero, if_pos unsent]
      rw [← wire]
    · left
      rw [failed]
      exact ⟨kind, w.schedule, rfl⟩

theorem hexDigit_hexByte {digit : Nat} (small : digit < 16) :
    hexDigit? (hexByte digit) = some digit := by
  have all : ∀ d : Fin 16, hexDigit? (hexByte d) = some d.val := by decide
  exact all ⟨digit, small⟩

theorem feed_digit (line : SizeLine) {digit : Nat} (small : digit < 16) (open_ : line.inSize = true)
    (going : line.sawReturn = false) (few : line.digits ≤ 15) :
    sizeLine.feed line (hexByte digit) =
      .inl { line with size := line.size * 16 + digit, digits := line.digits + 1 } := by
  simp only [sizeLine, going, open_, if_true, hexDigit_hexByte small, Bool.false_eq_true, if_false]
  rw [if_neg (by omega)]

theorem scan_hexDigits (places n : Nat) (fits : n < 16 ^ places) (nonempty : 0 < places)
    (line : SizeLine) (open_ : line.inSize = true) (going : line.sawReturn = false)
    (room : line.digits + places ≤ 16) (pos : Nat) (rest : List Byte) :
    ∃ digits, digits ≤ line.digits + places ∧
      sizeLine.scanFrom line pos (hexDigits places n ++ rest) =
        sizeLine.scanFrom { line with
          size := line.size * 16 ^ (hexDigits places n).length + n, digits }
          (pos + (hexDigits places n).length) rest := by
  induction places generalizing n pos rest with
  | zero => omega
  | succ places ih =>
    by_cases one : n < 16
    · refine ⟨line.digits + 1, by omega, ?_⟩
      simp only [hexDigits, if_pos one, List.cons_append, List.nil_append, Scanner.scanFrom,
        feed_digit line one open_ going (by omega), List.length_cons, List.length_nil, Nat.zero_add,
        Nat.pow_one]
    · have more : 0 < places := by
        rcases Nat.eq_zero_or_pos places with rfl | more
        · simp at fits
          omega
        · exact more
      obtain ⟨digits, few, scanned⟩ := ih (n / 16) (by rw [Nat.pow_succ] at fits; omega) more
        (by omega) pos (hexByte (n % 16) :: rest)
      refine ⟨digits + 1, by omega, ?_⟩
      simp only [hexDigits, if_neg one, List.append_assoc, List.cons_append, List.nil_append]
      rw [scanned]
      simp only [Scanner.scanFrom]
      rw [feed_digit _ (Nat.mod_lt n (by decide)) (by exact open_) (by exact going)
        (by simp only; omega)]
      have value : (line.size * 16 ^ (hexDigits places (n / 16)).length + n / 16) * 16 + n % 16 =
          line.size * (16 ^ (hexDigits places (n / 16)).length * 16) + n := by
        rw [Nat.add_mul, Nat.mul_assoc]
        omega
      simp only [List.length_append, List.length_cons, List.length_nil, Nat.zero_add, Nat.pow_succ,
        value, Nat.add_assoc]

theorem chunkHeader_parses {size : Nat} (small : size < 16 ^ 15) :
    scanners.parseChunkSize (chunkHeader size) = .complete (chunkHeader size).length size := by
  have fits : size < 16 ^ 16 := Nat.lt_trans small (by decide)
  obtain ⟨digits, few, scanned⟩ := scan_hexDigits 16 size fits (by decide) sizeLine.start rfl rfl
    (by decide) 0 crlf
  show sizeLine.parse (hexDigits 16 size ++ crlf) = _
  unfold Scanner.parse
  rw [scanned]
  simp [Scanner.scanFrom, sizeLine, crlf, hexDigit?, chunkHeader]

theorem encodedChunks_encodes {headers : Headers}
    (ends : scanners.parseHeaders headersMax footer = .complete footer.length headers)
    (pieces : List (List Byte))
    (sizes : ∀ piece ∈ pieces, 0 < piece.length ∧ piece.length ≤ chunkSizeMax) :
    Encodes scanners (encodedChunks pieces ++ (chunkHeader 0 ++ footer)) pieces.flatten := by
  induction pieces with
  | nil => exact .last (chunkHeader 0) footer headers (chunkHeader_parses (by decide)) ends
  | cons piece pieces ih =>
    obtain ⟨some, small⟩ := sizes piece List.mem_cons_self
    have bound : piece.length < 16 ^ 15 := Nat.lt_of_le_of_lt small (by decide)
    have rest := ih fun p mem => sizes p (List.mem_cons_of_mem _ mem)
    have whole := Encodes.chunk (chunkHeader piece.length) piece (chunkHeader_parses bound) some
      (Nat.lt_of_le_of_lt small (by decide)) rest
    simpa [encodedChunks, encodedChunk] using whole

def sendClosing (chunk : Option Chunk) (w : Writer) (contentWritten : Nat)
    (headers : Option (List Byte)) : Option (Option Chunk × Writer × Reply) := do
  let (w, chunk, closing) ← writeChunk [[]] (headers.getD chunkFooter) w chunk chunkSizeMax
  match closing with
  | .error _ => return (chunk, w, .failed)
  | .ok _ =>
    return (chunk, w, if chunk.isNone then .finished contentWritten else .consumed contentWritten)

def sendChunks (chunk : Option Chunk) (w : Writer) (src : List (List Byte)) (ended : Bool)
    (headers : Option (List Byte)) : Option (Option Chunk × Writer × Reply) := do
  let (src, capped) := capBufs src sendBodyBufsMax
  let ended := ended && !capped
  let (w, chunk, content) ← writeContent src w chunk
  match content with
  | .error _ => return (chunk, w, .failed)
  | .ok contentWritten =>
    if ended ∧ contentWritten ≥ src.flatten.length then sendClosing chunk w contentWritten headers
    else return (chunk, w, .consumed contentWritten)

/-- How a chunk in flight stands to the pending bytes: `flight` is the part of
    it that is on the wire. -/
inductive Flight (footer pending : List Byte) (ended : Bool) : Option Chunk → List Byte → Prop where
  | idle : Flight footer pending ended none []
  | content {size sent : Nat} (filled : 0 < size) (inside : size ≤ pending.length)
      (small : size ≤ chunkSizeMax) (unsent : sent < (encodedChunk (pending.take size)).length) :
      Flight footer pending ended (some ⟨chunkHeader size, size, sent⟩)
        ((encodedChunk (pending.take size)).take sent)
  | closing {sent : Nat} (ceased : ended = true) (empty : pending = [])
      (unsent : sent < (chunkHeader 0 ++ footer).length) :
      Flight footer pending ended (some ⟨chunkHeader 0, 0, sent⟩)
        ((chunkHeader 0 ++ footer).take sent)

/-- The wire holds whole chunks for what was consumed and the part in flight. -/
structure Framed (footer content pending wire : List Byte) (ended : Bool) (chunk : Option Chunk) :
    Prop where
  framed : ∃ pieces flight, (∀ piece ∈ pieces, 0 < piece.length ∧ piece.length ≤ chunkSizeMax) ∧
    content = pieces.flatten ++ pending ∧ wire = encodedChunks pieces ++ flight ∧
    Flight footer pending ended chunk flight

structure Closed (footer content wire : List Byte) : Prop where
  closed : ∃ pieces, (∀ piece ∈ pieces, 0 < piece.length ∧ piece.length ≤ chunkSizeMax) ∧
    content = pieces.flatten ∧ wire = encodedChunks pieces ++ (chunkHeader 0 ++ footer)

variable {pending : List Byte} {ended : Bool}

theorem Flight.append {data flight : List Byte}
    (f : Flight footer pending ended chunk flight) (going : ended = false) :
    Flight footer (pending ++ data) ended chunk flight := by
  cases f with
  | idle => exact .idle
  | content filled inside small unsent =>
    rename_i size sent
    have same : (pending ++ data).take size = pending.take size :=
      List.take_append_of_le_length inside
    rw [← same] at unsent ⊢
    exact .content filled (by rw [List.length_append]; omega) small unsent
  | closing ceased => rw [going] at ceased; cases ceased

theorem Flight.finish {flight : List Byte}
    (f : Flight footer pending ended chunk flight) : Flight footer pending true chunk flight := by
  cases f with
  | idle => exact .idle
  | content filled inside small unsent => exact .content filled inside small unsent
  | closing ceased empty unsent => exact .closing rfl empty unsent

variable {content : List Byte}

theorem content_spec (framed : Framed footer content pending w.wire ended chunk)
    {src : List (List Byte)} (few : src.length ≤ sendBodyBufsMax) (front : src.flatten <+: pending)
    (filled : 0 < src.flatten.length)
    (safe : uncovers chunk src w.schedule = false) :
    (∃ kind schedule chunk', writeChunk src chunkFooter w chunk chunkSizeMax =
        some (⟨w.wire, schedule⟩, chunk', .error kind) ∧
      Framed footer content pending w.wire ended chunk') ∨
    (∃ w' chunk', writeChunk src chunkFooter w chunk chunkSizeMax = some (w', chunk', .ok 0) ∧
      Framed footer content pending w'.wire ended chunk') ∨
    ∃ count rest wire, w.schedule = .accept count :: rest ∧
      (currentChunk chunk src.flatten.length chunkSizeMax).header.length +
        (currentChunk chunk src.flatten.length chunkSizeMax).size + chunkFooter.length -
        (currentChunk chunk src.flatten.length chunkSizeMax).sent ≤ count ∧
      (currentChunk chunk src.flatten.length chunkSizeMax).size ≤ src.flatten.length ∧
      0 < (currentChunk chunk src.flatten.length chunkSizeMax).size ∧
      writeChunk src chunkFooter w chunk chunkSizeMax = some (⟨wire, rest⟩, none,
        .ok (currentChunk chunk src.flatten.length chunkSizeMax).size) ∧
      Framed footer content
        (pending.drop (currentChunk chunk src.flatten.length chunkSizeMax).size)
        wire ended none := by
  obtain ⟨pieces, flight, sizes, split, wire, f⟩ := framed
  have shorter : src.flatten.length ≤ pending.length := front.length_le
  -- the chunk at work, with its place in the pending bytes
  obtain ⟨current, cur, nonzero, inside, small, header, unsent, sentWire⟩ : ∃ current,
      currentChunk chunk src.flatten.length chunkSizeMax = current ∧ 0 < current.size ∧
      current.size ≤ pending.length ∧ current.size ≤ chunkSizeMax ∧
      current.header = chunkHeader current.size ∧
      current.sent < (encodedChunk (pending.take current.size)).length ∧
      flight = (encodedChunk (pending.take current.size)).take current.sent := by
    cases f with
    | idle =>
      have most : (1 : Nat) ≤ chunkSizeMax := by decide
      refine ⟨_, rfl, ?_, Nat.le_trans (Nat.min_le_left _ _) shorter, Nat.min_le_right _ _, rfl,
        ?_, rfl⟩
      · simp only [currentChunk]
        omega
      · simp only [currentChunk, encodedChunk, crlf, List.length_append, List.length_cons]
        omega
    | content nonzero inside small unsent =>
      exact ⟨_, rfl, nonzero, inside, small, rfl, unsent, rfl⟩
    | closing ceased empty unsent =>
      rw [empty, List.length_nil] at shorter
      omega
  have size : (pending.take current.size).length = current.size := by
    rw [List.length_take]; omega
  have resume : ∀ {sent}, sent < (encodedChunk (pending.take current.size)).length →
      Flight footer pending ended (some { current with sent })
        ((encodedChunk (pending.take current.size)).take sent) := by
    intro sent less
    obtain ⟨header', size', sent'⟩ := current
    simp only at header
    subst header
    exact .content nonzero inside small less
  rw [cur]
  by_cases within : current.size ≤ src.flatten.length
  · have whole : wholeChunk current src.flatten chunkFooter =
        encodedChunk (pending.take current.size) := by
      obtain ⟨rest, rfl⟩ := front
      rw [List.take_append_of_le_length within] at size ⊢
      rw [wholeChunk, encodedChunk, header, size]
      rfl
    rcases writeChunk_spec few cur within (by rw [whole]; exact unsent)
        (by rw [whole, wire, sentWire] : w.wire = encodedChunks pieces ++ _) with
      ⟨kind, schedule, _, failed⟩ | ⟨sent, schedule, less, part⟩ | ⟨count, rest, planned, all, done⟩
    · refine Or.inl ⟨kind, schedule, _, failed, ⟨pieces, flight, sizes, split, wire, ?_⟩⟩
      rw [sentWire]
      exact resume unsent
    · rw [whole] at less part
      exact Or.inr (Or.inl ⟨_, _, part, ⟨pieces, _, sizes, split, rfl, resume less⟩⟩)
    · rw [whole] at done
      refine Or.inr (Or.inr ⟨count, rest, _, planned, all, within, nonzero, done,
        ⟨pieces ++ [pending.take current.size], [], ?_, ?_, ?_, .idle⟩⟩)
      · intro piece mem
        rcases List.mem_append.mp mem with old | new
        · exact sizes piece old
        · rw [List.mem_singleton.mp new, size]
          exact ⟨nonzero, small⟩
      · rw [split, List.flatten_append, List.append_assoc, List.flatten_singleton,
          List.take_append_drop]
      · simp [encodedChunks]
  · -- only a chunk in flight can be longer than the buffers
    have short : src.flatten.length < current.size := Nat.lt_of_not_le within
    have flying : chunk = some current := by
      cases chunk with
      | none =>
        rw [← cur] at short
        simp only [currentChunk] at short
        omega
      | some chunk => rw [← cur]; rfl
    subst flying
    have begins : current.header ++ src.flatten <+: encodedChunk (pending.take current.size) := by
      have taken : src.flatten <+: pending.take current.size :=
        List.prefix_take_iff.mpr ⟨front, Nat.le_of_lt short⟩
      obtain ⟨more, eq⟩ := taken
      refine ⟨more ++ crlf, ?_⟩
      rw [encodedChunk, size, header, ← eq]
      simp only [List.append_assoc]
    have total : (encodedChunk (pending.take current.size)).length =
        current.header.length + current.size + chunkFooter.length := by
      rw [encodedChunk, size, header, List.length_append, List.length_append, size, Nat.add_assoc]
      rfl
    rcases writeChunk_short few filled short safe begins total unsent
        (by rw [wire, sentWire] : w.wire = encodedChunks pieces ++ _) with
      ⟨kind, schedule, failed⟩ | ⟨sent, schedule, less, part⟩
    · refine Or.inl ⟨kind, schedule, _, failed, ⟨pieces, flight, sizes, split, wire, ?_⟩⟩
      rw [sentWire]
      exact resume unsent
    · exact Or.inr (Or.inl ⟨_, _, part, ⟨pieces, _, sizes, split, rfl, resume less⟩⟩)

theorem writeContent_count
    {chunk' : Option Chunk} {w' : Writer}
    (framed : Framed footer content pending w.wire ended chunk)
    {src : List (List Byte)} (few : src.length ≤ sendBodyBufsMax) (front : src.flatten <+: pending)
    (safe : uncovers chunk src w.schedule = false) {count : Nat}
    (wrote : writeContent src w chunk = some (w', chunk', .ok count)) :
    count ≤ src.flatten.length := by
  unfold writeContent at wrote
  split at wrote
  · rename_i filled
    rcases content_spec framed few front filled safe with
      ⟨kind, schedule, chunk', failed, _⟩ | ⟨w', chunk', part, _⟩ |
      ⟨count, rest, wire, _, _, within, _, done, _⟩
    · rw [failed] at wrote
      cases wrote
    · rw [part] at wrote
      cases wrote
      exact Nat.zero_le _
    · rw [done] at wrote
      cases wrote
      exact within
  · cases wrote
    exact Nat.zero_le _

theorem closing_spec
    (framed : Framed footer content [] w.wire true chunk) :
    (∃ kind schedule chunk', (∀ count rest, w.schedule ≠ .accept count :: rest) ∧
      writeChunk [[]] footer w chunk chunkSizeMax =
        some (⟨w.wire, schedule⟩, chunk', .error kind) ∧
      Framed footer content [] w.wire true chunk') ∨
    (∃ w' chunk', writeChunk [[]] footer w chunk chunkSizeMax = some (w', some chunk', .ok 0) ∧
      Framed footer content [] w'.wire true (some chunk')) ∨
    ∃ w', writeChunk [[]] footer w chunk chunkSizeMax = some (w', none, .ok 0) ∧
      Closed footer content w'.wire := by
  obtain ⟨pieces, flight, sizes, split, wire, f⟩ := framed
  obtain ⟨sent, cur, unsent, sentWire⟩ : ∃ sent,
      currentChunk chunk ([[]] : List (List Byte)).flatten.length chunkSizeMax =
        ⟨chunkHeader 0, 0, sent⟩ ∧
      sent < (chunkHeader 0 ++ footer).length ∧ flight = (chunkHeader 0 ++ footer).take sent := by
    cases f with
    | idle =>
      refine ⟨0, by simp [currentChunk], ?_, by simp⟩
      simp only [chunkHeader, crlf, List.length_append, List.length_cons]
      omega
    | content nonzero inside small unsent =>
      rw [List.length_nil] at inside
      omega
    | closing ceased empty unsent => exact ⟨_, rfl, unsent, rfl⟩
  have whole : wholeChunk ⟨chunkHeader 0, 0, sent⟩ ([[]] : List (List Byte)).flatten footer =
      chunkHeader 0 ++ footer := by
    simp [wholeChunk]
  rcases writeChunk_spec (by decide : ([[]] : List (List Byte)).length ≤ sendBodyBufsMax) cur
      (Nat.zero_le _) (by rw [whole]; exact unsent)
      (by rw [whole, wire, sentWire] : w.wire = encodedChunks pieces ++ _) with ⟨kind, schedule,
        refused, failed⟩ | ⟨sent', schedule, less, part⟩ | ⟨count, rest, _, _, done⟩
  · refine Or.inl ⟨kind, schedule, _, refused, failed, ⟨pieces, flight, sizes, split, wire, ?_⟩⟩
    rw [sentWire]
    exact .closing rfl rfl unsent
  · rw [whole] at less part
    refine Or.inr (Or.inl ⟨_, _, part, ⟨pieces, _, sizes, split, rfl, .closing rfl rfl less⟩⟩)
  · rw [whole] at done
    refine Or.inr (Or.inr ⟨_, done, ⟨pieces, sizes, ?_, rfl⟩⟩)
    rw [split, List.append_nil]

def Replied (footer content pending : List Byte) (ended : Bool) (chunk : Option Chunk)
    (w : Writer) : Reply → Prop
  | .consumed count => Framed footer content (pending.drop count) w.wire ended chunk
  | .finished count => ended = true ∧ pending.drop count = [] ∧ Closed footer content w.wire
  | .failed => Framed footer content pending w.wire ended chunk

variable {headers : Option (List Byte)}

theorem sendClosing_spec
    (framed : Framed (headers.getD chunkFooter) content [] w.wire true chunk) (written : Nat) :
    (∃ chunk' w', sendClosing chunk w written headers = some (chunk', w', .failed) ∧
      (∀ count rest, w.schedule ≠ .accept count :: rest) ∧
      Framed (headers.getD chunkFooter) content [] w'.wire true chunk') ∨
    (∃ chunk' w', sendClosing chunk w written headers = some (chunk', w', .consumed written) ∧
      Framed (headers.getD chunkFooter) content [] w'.wire true chunk') ∨
    ∃ chunk' w', sendClosing chunk w written headers = some (chunk', w', .finished written) ∧
      Closed (headers.getD chunkFooter) content w'.wire := by
  unfold sendClosing
  rcases closing_spec framed with
    ⟨kind, schedule, chunk', refused, failed, framed'⟩ | ⟨w', chunk', part, framed'⟩ |
    ⟨w', done, closed⟩
  · exact Or.inl ⟨chunk', ⟨w.wire, schedule⟩, by rw [failed]; rfl, refused, framed'⟩
  · exact Or.inr (Or.inl ⟨some chunk', w', by rw [part]; rfl, framed'⟩)
  · exact Or.inr (Or.inr ⟨none, w', by rw [done]; rfl, closed⟩)

/-- A call that neither loses its count nor uncovers its chunk keeps the framing. -/
theorem sendChunks_spec
    (framed : Framed (headers.getD chunkFooter) content pending w.wire ended chunk)
    {bufs : List (List Byte)} (cut : bufs.flatten = pending)
    (safe : uncovers chunk (capBufs bufs sendBodyBufsMax).1 w.schedule = false)
    (kept : losesCount chunk bufs ended w.schedule = false) :
    ∃ chunk' w' reply, sendChunks chunk w bufs ended headers = some (chunk', w', reply) ∧
      Replied (headers.getD chunkFooter) content pending ended chunk' w' reply := by
  have few := capBufs_length bufs sendBodyBufsMax
  obtain ⟨front, same⟩ := capBufs_flatten bufs sendBodyBufsMax
  have uncut : (capBufs bufs sendBodyBufsMax).2 = false → bufs.length ≤ sendBodyBufsMax := by
    unfold capBufs
    split
    · intro absurd
      cases absurd
    · intro _
      omega
  unfold sendChunks writeContent
  generalize capBufs bufs sendBodyBufsMax = cap at few front same safe uncut ⊢
  obtain ⟨src, cutOff⟩ := cap
  simp only at few front same safe uncut ⊢
  rw [cut] at front
  by_cases filled : 0 < src.flatten.length
  · rw [if_pos filled]
    rcases content_spec framed few front filled safe with
      ⟨kind, schedule, chunk', failed, framed'⟩ | ⟨w', chunk', part, framed'⟩ |
      ⟨count, rest, wire, planned, all, within, some, done, framed'⟩
    · exact ⟨chunk', ⟨w.wire, schedule⟩, .failed, by rw [failed]; rfl, framed'⟩
    · refine ⟨chunk', w', .consumed 0, ?_, by simpa [Replied] using framed'⟩
      rw [part]
      simp only [Option.bind_eq_bind, Option.bind_some]
      rw [if_neg (by omega)]
      rfl
    · rw [done]
      simp only [Option.bind_eq_bind, Option.bind_some]
      by_cases last : (ended && !cutOff) = true ∧
          (currentChunk chunk src.flatten.length chunkSizeMax).size ≥ src.flatten.length
      · rw [if_pos last]
        simp only [Bool.and_eq_true, Bool.not_eq_true'] at last
        obtain ⟨⟨ceased, whole⟩, reach⟩ := last
        have all_src := same whole
        subst all_src
        have nothing : pending.drop (currentChunk chunk src.flatten.length chunkSizeMax).size =
            [] := by
          rw [List.drop_eq_nil_iff, ← cut]
          exact reach
        rw [nothing, ceased] at framed'
        rcases sendClosing_spec (w := ⟨wire, rest⟩) framed'
            (currentChunk chunk src.flatten.length chunkSizeMax).size with
          ⟨chunk', w', failed, refused, _⟩ | ⟨chunk', w', part, framed''⟩ | ⟨chunk', w', ends,
            closed⟩
        · -- the count of the completed chunk would be lost here
          exfalso
          simp only at refused
          simp only [losesCount, planned, ceased, uncut whole, filled, reach, decide_true,
            Bool.true_and] at kept
          cases rest with
          | nil => simp only [decide_eq_false_iff_not] at kept; exact kept all
          | cons response rest =>
            cases response with
            | accept count' => exact refused count' rest rfl
            | fail kind => simp only [decide_eq_false_iff_not] at kept; exact kept all
        · refine ⟨chunk', w', _, part, ?_⟩
          simp only [Replied, nothing, ceased]
          exact framed''
        · exact ⟨chunk', w', _, ends, ceased, nothing, closed⟩
      · rw [if_neg last]
        exact ⟨none, ⟨wire, rest⟩, .consumed _, rfl, framed'⟩
  · rw [if_neg filled]
    simp only [Option.bind_eq_bind, Option.bind_some]
    by_cases last : (ended && !cutOff) = true ∧ 0 ≥ src.flatten.length
    · rw [if_pos last]
      simp only [Bool.and_eq_true, Bool.not_eq_true'] at last
      obtain ⟨⟨ceased, whole⟩, _⟩ := last
      have all_src := same whole
      subst all_src
      have empty : pending = [] := by
        rw [← cut]
        exact List.length_eq_zero_iff.mp (by omega)
      subst empty
      subst ceased
      rcases sendClosing_spec framed 0 with
        ⟨chunk', w', failed, _, framed'⟩ | ⟨chunk', w', part, framed'⟩ | ⟨chunk', w', ends, closed⟩
      · exact ⟨chunk', w', .failed, failed, framed'⟩
      · exact ⟨chunk', w', .consumed 0, part, framed'⟩
      · exact ⟨chunk', w', .finished 0, ends, rfl, rfl, closed⟩
    · rw [if_neg last]
      exact ⟨chunk, w, .consumed 0, rfl, by simpa [Replied] using framed⟩

structure ServerProtocol.SendsChunks (p : ServerProtocol) : Prop where
  sending : p.state = .sendingBody
  body : p.bodySize ≠ .noBody
  chunks : p.chunked = true

structure ClientState.SendsChunks (state : ClientState) : Prop where
  body : state.bodySize ≠ .noBody
  chunks : state.chunked = true

theorem ServerProtocol.sendReply_chunks {p : ServerProtocol} {w' : Writer} {bufs : List (List Byte)}
    {chunk' : Option Chunk} {reply : Reply} (ready : p.SendsChunks)
    (sent : sendChunks p.sendingChunk w bufs ended headers = some (chunk', w', reply)) :
    ∃ p' : ServerProtocol, p.sendReply w bufs ended headers = some (p', w', reply) ∧
      p'.sendingChunk = chunk' ∧ ((∀ count, reply ≠ .finished count) → p'.SendsChunks) := by
  obtain ⟨state, bodySize, chunkLeft, chunkSize, persistent, chunked, sendingChunk⟩ := p
  obtain ⟨sending, body, chunks⟩ := ready
  simp only at sending body chunks sent
  subst sending
  subst chunks
  unfold sendChunks at sent
  unfold sendReply sendBody
  simp only [ne_eq, not_true_eq_false, if_false, if_neg body]
  generalize capBufs bufs sendBodyBufsMax = cap at sent ⊢
  obtain ⟨src, capped⟩ := cap
  simp only at sent ⊢
  cases first : writeContent src w sendingChunk with
  | none =>
    rw [first] at sent
    cases sent
  | some written =>
    obtain ⟨w₁, chunk₁, content⟩ := written
    rw [first] at sent
    cases content with
    | error kind =>
      cases sent
      exact ⟨_, rfl, rfl, fun _ => ⟨rfl, body, rfl⟩⟩
    | ok count =>
      simp only [Option.bind_eq_bind, Option.bind_some] at sent ⊢
      by_cases last : (ended && !capped) = true ∧ count ≥ src.flatten.length
      · rw [if_pos last] at sent ⊢
        unfold sendClosing at sent
        cases second : writeChunk [[]] (headers.getD chunkFooter) w₁ chunk₁ chunkSizeMax with
        | none =>
          rw [second] at sent
          cases sent
        | some closing =>
          obtain ⟨w₂, chunk₂, result⟩ := closing
          rw [second] at sent
          cases result with
          | error kind =>
            cases sent
            exact ⟨_, rfl, rfl, fun _ => ⟨rfl, body, rfl⟩⟩
          | ok _ =>
            cases chunk₂ with
            | none =>
              cases sent
              exact ⟨_, rfl, rfl, fun unfinished => absurd rfl (unfinished count)⟩
            | some chunk₂ =>
              cases sent
              exact ⟨_, rfl, rfl, fun _ => ⟨rfl, body, rfl⟩⟩
      · rw [if_neg last] at sent ⊢
        cases sent
        exact ⟨_, rfl, rfl, fun _ => ⟨rfl, body, rfl⟩⟩

theorem ClientState.sendReply_chunks {state : ClientState} {w' : Writer} {bufs : List (List Byte)}
    {chunk' : Option Chunk} {reply : Reply} (ready : state.SendsChunks)
    (bounded : ∀ {w₁ chunk₁ count}, writeContent (capBufs bufs sendBodyBufsMax).1 w
      state.sendingChunk = some (w₁, chunk₁, .ok count) →
      count ≤ (capBufs bufs sendBodyBufsMax).1.flatten.length)
    (sent : sendChunks state.sendingChunk w bufs ended headers = some (chunk', w', reply)) :
    ∃ state' : ClientState, state.sendReply w bufs ended headers = some (state', w', reply) ∧
      state'.sendingChunk = chunk' ∧ ((∀ count, reply ≠ .finished count) → state'.SendsChunks) := by
  obtain ⟨bodySize, chunkLeft, chunkSize, persistent, chunked, sendingChunk⟩ := state
  obtain ⟨body, chunks⟩ := ready
  simp only at body chunks sent bounded
  subst chunks
  unfold sendChunks at sent
  unfold sendReply send
  simp only [not_true_eq_false, if_false, if_neg body]
  generalize capBufs bufs sendBodyBufsMax = cap at sent bounded ⊢
  obtain ⟨src, capped⟩ := cap
  simp only at sent bounded ⊢
  cases first : writeContent src w sendingChunk with
  | none =>
    rw [first] at sent
    cases sent
  | some written =>
    obtain ⟨w₁, chunk₁, content⟩ := written
    rw [first] at sent
    cases content with
    | error kind =>
      cases sent
      exact ⟨_, rfl, rfl, fun _ => ⟨body, rfl⟩⟩
    | ok count =>
      -- the assertion on the count, and the equality in place of a comparison
      have most : count ≤ src.flatten.length := bounded first
      simp only [Option.bind_eq_bind, Option.bind_some, most, not_true_eq_false, if_false]
        at sent ⊢
      by_cases last : (ended && !capped) = true ∧ count ≥ src.flatten.length
      · rw [if_pos last] at sent
        rw [if_pos ⟨last.1, Nat.le_antisymm most last.2⟩]
        unfold sendClosing at sent
        cases second : writeChunk [[]] (headers.getD chunkFooter) w₁ chunk₁ chunkSizeMax with
        | none =>
          rw [second] at sent
          cases sent
        | some closing =>
          obtain ⟨w₂, chunk₂, result⟩ := closing
          rw [second] at sent
          cases result with
          | error kind =>
            cases sent
            exact ⟨_, rfl, rfl, fun _ => ⟨body, rfl⟩⟩
          | ok _ =>
            cases chunk₂ with
            | none =>
              cases sent
              exact ⟨_, rfl, rfl, fun unfinished => absurd rfl (unfinished count)⟩
            | some chunk₂ =>
              cases sent
              exact ⟨_, rfl, rfl, fun _ => ⟨body, rfl⟩⟩
      · rw [if_neg last] at sent
        rw [if_neg fun exact_ => last ⟨exact_.1, Nat.le_of_eq exact_.2.symm⟩]
        cases sent
        exact ⟨_, rfl, rfl, fun _ => ⟨body, rfl⟩⟩

/-- A protocol object whose calls, while it is ready, are `sendChunks` on the
    chunk it holds. -/
structure Sender (σ : Type) where
  send : σ → Writer → List (List Byte) → Bool → Option (List Byte) → Option (σ × Writer × Reply)
  chunk : σ → Option Chunk
  Ready : σ → Prop
  sends : ∀ {p : σ} {w w' : Writer} {bufs : List (List Byte)} {ended : Bool}
    {headers : Option (List Byte)} {chunk' : Option Chunk} {reply : Reply}, Ready p →
    (∀ {w₁ chunk₁ count}, writeContent (capBufs bufs sendBodyBufsMax).1 w (chunk p) =
      some (w₁, chunk₁, .ok count) → count ≤ (capBufs bufs sendBodyBufsMax).1.flatten.length) →
    sendChunks (chunk p) w bufs ended headers = some (chunk', w', reply) →
    ∃ p', send p w bufs ended headers = some (p', w', reply) ∧ chunk p' = chunk' ∧
      ((∀ count, reply ≠ .finished count) → Ready p')

def serverSender : Sender ServerProtocol where
  send := ServerProtocol.sendReply
  chunk := ServerProtocol.sendingChunk
  Ready := ServerProtocol.SendsChunks
  sends ready _ sent := ServerProtocol.sendReply_chunks ready sent

def clientSender : Sender ClientState where
  send := ClientState.sendReply
  chunk := ClientState.sendingChunk
  Ready := ClientState.SendsChunks
  sends ready bounded sent := ClientState.sendReply_chunks ready bounded sent

end PushpinHttp
