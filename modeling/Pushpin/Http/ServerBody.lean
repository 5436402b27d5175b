import Mathlib.Data.List.Infix
import Pushpin.Foundations.Loop
import Pushpin.Http.ChunkDecoding
import Pushpin.Http.Scanners

/-!
Receiving a request body: `ServerProtocol::recv_body` and the loop of
`RequestBody::try_recv` around it, over the ring buffer that the connection
reads into. A `none` is a panic.
-/
namespace PushpinHttp
open PushpinRingBuffer Scanning Loops

abbrev BodyResult := Except Error (Option (List Byte × Option Headers))

namespace ServerProtocol

/-- The part of `recv_body` after the chunk size is known. `buf` and `position`
    are the cursor, `dest` the length of the destination. -/
def recvChunk (h : Httparse) (p : ServerProtocol) (buf : List Byte) (position dest headers : Nat) :
    Option (ServerProtocol × Nat × BodyResult) :=
  match p.chunkLeft with
  | none => none
  | some chunkLeft =>
    let src := buf.drop position
    if chunkLeft > 0 then
      let srcAvail := min chunkLeft src.length
      let readSize := min srcAvail dest
      let bytes := src.take readSize
      let p := { p with chunkLeft := some (chunkLeft - bytes.length) }
      if srcAvail = 0 then
        if bytes.length = 0 then some (p, position + bytes.length, .ok none) else none
      else some (p, position + bytes.length, .ok (some (bytes, none)))
    else if p.chunkSize = 0 then
      match h.parseHeaders headers src with
      | .complete pos trailers =>
        some ({ p with state := .awaitingResponse, chunkLeft := none, chunkSize := 0 },
          position + pos, .ok (some ([], some trailers)))
      | .incomplete => some (p, position, .ok none)
      | .error e => some (p, position, .error (.parse e))
    else if src.length < 2 then some (p, position, .ok none)
    else if src.take 2 ≠ crlf then some (p, position, .error .invalidChunkSuffix)
    else some ({ p with chunkLeft := none, chunkSize := 0 }, position + 2, .ok (some ([], none)))

def recvBody (h : Httparse) (p : ServerProtocol) (buf : List Byte) (position dest headers : Nat) :
    Option (ServerProtocol × Nat × BodyResult) :=
  if p.state ≠ .receivingBody ∨ buf.length < position then none
  else match p.bodySize with
    | .known _ =>
      match p.chunkLeft with
      | none => none
      | some chunkLeft =>
        let src := buf.drop position
        let srcAvail := min chunkLeft src.length
        let readSize := min srcAvail dest
        let bytes := src.take readSize
        let chunkLeft := chunkLeft - bytes.length
        if chunkLeft = 0 then
          some ({ p with chunkLeft := none, state := .awaitingResponse }, position + bytes.length,
            .ok (some (bytes, none)))
        else
          let p := { p with chunkLeft := some chunkLeft }
          if srcAvail = 0 then
            if bytes.length = 0 then some (p, position + bytes.length, .ok none) else none
          else some (p, position + bytes.length, .ok (some (bytes, none)))
    | .unknown =>
      match p.chunkLeft with
      | some _ => p.recvChunk h buf position dest headers
      | none =>
        match h.parseChunkSize (buf.drop position) with
        | .complete pos size =>
          if size < 2 ^ 32 then
            { p with chunkLeft := some size, chunkSize := size }.recvChunk h buf
              (position + pos) dest headers
          else some (p, position, .error .chunkTooLarge)
        | .incomplete => some (p, position, .ok none)
        | .error _ => some (p, position, .error .invalidChunkSize)
    | .noBody => none

def chunkState (p : ServerProtocol) : ChunkState := ⟨p.chunkLeft, p.chunkSize⟩

/-- The call would parse a whole size line and then find nothing to go on with:
    no content byte, or an unfinished trailer section. -/
def strands (h : Httparse) (p : ServerProtocol) (buf : List Byte) : Bool :=
  match p.chunkLeft, h.parseChunkSize buf with
  | none, .complete pos size =>
    if size = 0 then h.parseHeaders headersMax (buf.drop pos) = .incomplete
    else buf.length = pos
  | _, _ => false

end ServerProtocol

inductive Answers (h : Httparse) (st : ChunkState) (b : List Byte) (dest : Nat)
    (p' : ServerProtocol) (read : Nat) : BodyResult → Prop where
  | failed {e : Error} (why : ∀ more, decode h st (b ++ more) = ⟨[], .failed e⟩) :
      Answers h st b dest p' read (.error e)
  | need (waits : next h p'.chunkState (b.drop read) = .need) (on : p'.state = .receivingBody)
      (same : ∀ more, decode h st (b ++ more) = decode h p'.chunkState ((b ++ more).drop read)) :
      Answers h st b dest p' read (.ok none)
  | content {bytes : List Byte} (on : p'.state = .receivingBody) (fits : bytes.length ≤ dest)
      (progress : 0 < dest → 0 < read) (shorter : bytes.length ≤ read)
      (same : ∀ more, decode h st (b ++ more) =
        (decode h p'.chunkState ((b ++ more).drop read)).prepend bytes) :
      Answers h st b dest p' read (.ok (some (bytes, none)))
  | finished {trailers : Headers} (ceased : p'.state = .awaitingResponse)
      (same : ∀ more, decode h st (b ++ more) = ⟨[], .finished ((b ++ more).drop read)⟩) :
      Answers h st b dest p' read (.ok (some ([], some trailers)))

section
variable {h : Httparse} (lawful : h.Lawful)
include lawful

theorem recvChunk_answers {p : ServerProtocol} {left : Nat} (on : p.state = .receivingBody)
    (known : p.chunkLeft = some left) (buf : List Byte) (position dest : Nat) :
    ∃ p' read result, p.recvChunk h buf position dest headersMax = some (p', position + read,
      result) ∧ read ≤ (buf.drop position).length ∧ p'.bodySize = p.bodySize ∧
      Answers h p.chunkState (buf.drop position) dest p' read result ∧
      (result = .ok none → read = 0 ∧ p' = p) := by
  have stand : p.chunkState = ⟨some left, p.chunkSize⟩ := by rw [ServerProtocol.chunkState, known]
  generalize src_eq : buf.drop position = src
  cases left with
  | succ left =>
    by_cases empty : src = []
    · refine ⟨p, 0, .ok none, ?_, by simp, rfl, .need ?_ on ?_, fun _ => ⟨rfl, rfl⟩⟩
      · have kept : { p with chunkLeft := some (left + 1) } = p := by rw [← known]
        simp [ServerProtocol.recvChunk, known, src_eq, empty, kept]
      · simp [stand, next, empty]
      · simp
    · have avail := List.length_pos_iff.mpr empty
      have taken : (src.take (min (min (left + 1) src.length) dest)).length =
          min (min (left + 1) src.length) dest := by rw [List.length_take]; omega
      refine ⟨{ p with chunkLeft := some (left + 1 - min (min (left + 1) src.length) dest) },
        min (min (left + 1) src.length) dest,
        .ok (some (src.take (min (min (left + 1) src.length) dest), none)), ?_, by omega, rfl,
        .content on (by omega) (by omega) (by omega) ?_, by simp⟩
      · simp only [ServerProtocol.recvChunk, known, src_eq, gt_iff_lt, Nat.succ_pos, if_true, taken]
        rw [if_neg (by omega)]
      · intro more
        have piece : min (min (left + 1) src.length) dest ≤ (src ++ more).length := by
          rw [List.length_append]; omega
        rw [stand, decode_take lawful (by omega : _ ≤ left + 1) piece,
          List.take_append_of_le_length (by omega)]
        rfl
  | zero =>
    by_cases last : p.chunkSize = 0
    · have atEnd : p.chunkState = ⟨some 0, 0⟩ := by rw [stand, last]
      cases found : h.parseHeaders headersMax src with
      | complete pos trailers =>
        have decided : next h p.chunkState src = .finish pos trailers := by
          simp [atEnd, next, found]
        refine ⟨{ p with state := .awaitingResponse, chunkLeft := none, chunkSize := 0 }, pos,
          .ok (some ([], some trailers)), ?_, (next_finish lawful decided).2.1, rfl,
          .finished rfl (decode_of_finish lawful decided), by simp⟩
        simp only [ServerProtocol.recvChunk, known, src_eq, found, gt_iff_lt, Nat.lt_irrefl,
          if_false, last, if_true]
      | incomplete =>
        have decided : next h p.chunkState src = .need := by simp [atEnd, next, found]
        refine ⟨p, 0, .ok none, ?_, by simp, rfl, .need (by simpa using decided) on (by simp),
          fun _ => ⟨rfl, rfl⟩⟩
        simp only [ServerProtocol.recvChunk, known, src_eq, found, gt_iff_lt, Nat.lt_irrefl,
          if_false, last, if_true, Nat.add_zero]
      | error e =>
        have decided : next h p.chunkState src = .fail (.parse e) := by simp [atEnd, next, found]
        refine ⟨p, 0, .error (.parse e), ?_, by simp, rfl, .failed (decode_of_fail lawful decided),
          by simp⟩
        simp only [ServerProtocol.recvChunk, known, src_eq, found, gt_iff_lt, Nat.lt_irrefl,
          if_false, last, if_true, Nat.add_zero]
    · by_cases short : src.length < 2
      · have decided : next h p.chunkState src = .need := by simp [stand, next, last, short]
        refine ⟨p, 0, .ok none, ?_, by simp, rfl, .need (by simpa using decided) on (by simp),
          fun _ => ⟨rfl, rfl⟩⟩
        simp only [ServerProtocol.recvChunk, known, src_eq, gt_iff_lt, Nat.lt_irrefl,
          if_false, last, short, if_true, Nat.add_zero]
      · by_cases suffix : src.take 2 = crlf
        · have decided : next h p.chunkState src = .skip 2 ChunkState.start := by
            simp [stand, next, last, short, suffix]
          refine ⟨{ p with chunkLeft := none, chunkSize := 0 }, 2, .ok (some ([], none)),
            ?_, by omega, rfl, .content on (by simp) (by omega) (by simp) ?_, by simp⟩
          · simp only [ServerProtocol.recvChunk, known, src_eq, gt_iff_lt, Nat.lt_irrefl, if_false,
              last, short, suffix, ne_eq, not_true_eq_false]
          · intro more
            rw [decode_of_skip lawful decided, prepend_nil]
            rfl
        · have decided : next h p.chunkState src = .fail .invalidChunkSuffix := by
            simp [stand, next, last, short, suffix]
          refine ⟨p, 0, .error .invalidChunkSuffix, ?_, by simp, rfl,
            .failed (decode_of_fail lawful decided), by simp⟩
          simp only [ServerProtocol.recvChunk, known, src_eq, gt_iff_lt, Nat.lt_irrefl, if_false,
            last, short, suffix, ne_eq, not_false_eq_true, if_true, Nat.add_zero]

theorem recvBody_answers {p : ServerProtocol} (on : p.state = .receivingBody)
    (size : p.bodySize = .unknown) {buf : List Byte} {position : Nat}
    (inside : position ≤ buf.length)
    (dest : Nat) :
    ∃ p' read result, p.recvBody h buf position dest headersMax = some (p', position + read,
      result) ∧ read ≤ (buf.drop position).length ∧ p'.bodySize = .unknown ∧
      Answers h p.chunkState (buf.drop position) dest p' read result ∧
      (result = .ok none → p.strands h (buf.drop position) = false → read = 0 ∧ p' = p) := by
  have guard : ¬ (p.state ≠ .receivingBody ∨ buf.length < position) := by
    rw [on, not_or]
    exact ⟨fun absurd => absurd rfl, by omega⟩
  cases left : p.chunkLeft with
  | some chunkLeft =>
    obtain ⟨p', read, result, run, short, same, answers, waits⟩ :=
      recvChunk_answers lawful on left buf position dest
    refine ⟨p', read, result, ?_, short, same.trans size, answers, fun none _ => waits none⟩
    simp only [ServerProtocol.recvBody, if_neg guard, size, left, run]
  | none =>
    have stand : p.chunkState = ⟨none, p.chunkSize⟩ := by rw [ServerProtocol.chunkState, left]
    cases found : h.parseChunkSize (buf.drop position) with
    | incomplete =>
      have decided : next h p.chunkState (buf.drop position) = .need := by simp [stand, next, found]
      refine ⟨p, 0, .ok none, ?_, by simp, size, .need (by simpa using decided) on (by simp),
        fun _ _ => ⟨rfl, rfl⟩⟩
      simp only [ServerProtocol.recvBody, if_neg guard, size, left, found, Nat.add_zero]
    | error e =>
      have decided : next h p.chunkState (buf.drop position) = .fail .invalidChunkSize := by
        simp [stand, next, found]
      refine ⟨p, 0, .error .invalidChunkSize, ?_, by simp, size,
        .failed (decode_of_fail lawful decided), by simp⟩
      simp only [ServerProtocol.recvBody, if_neg guard, size, left, found, Nat.add_zero]
    | complete pos chunkSize =>
      by_cases small : chunkSize < 2 ^ 32
      · have decided : next h p.chunkState (buf.drop position) =
            .skip pos ⟨some chunkSize, chunkSize⟩ := by
          simp only [stand, next, found, if_pos small]
        obtain ⟨pos_pos, pos_le, _⟩ := next_skip lawful decided
        obtain ⟨p', read, result, run, short, same, answers, waits⟩ :=
          recvChunk_answers (p := { p with chunkLeft := some chunkSize, chunkSize := chunkSize })
            lawful on rfl buf (position + pos) dest
        rw [← List.drop_drop] at short answers
        rw [List.length_drop] at short
        have after : ∀ more, decode h p.chunkState (buf.drop position ++ more) =
            decode h ⟨some chunkSize, chunkSize⟩ ((buf.drop position).drop pos ++ more) := by
          intro more
          rw [decode_of_skip lawful decided, List.drop_append_of_le_length pos_le]
        have behind : ∀ more, ((buf.drop position).drop pos ++ more).drop read =
            (buf.drop position ++ more).drop (pos + read) := by
          intro more
          rw [← List.drop_append_of_le_length pos_le, List.drop_drop]
        refine ⟨p', pos + read, result, ?_, by omega, same.trans size, ?_, ?_⟩
        · simp only [size] at run
          simp only [ServerProtocol.recvBody, if_neg guard, size, left, found, if_pos small, run,
            Nat.add_assoc]
        · cases answers with
          | failed why => exact .failed fun more => by rw [after, ← why more]; rfl
          | need stuck on same =>
            refine .need ?_ on ?_
            · rwa [List.drop_drop] at stuck
            · intro more
              rw [after, ← behind, ← same more]
              rfl
          | content on fits progress shorter same =>
            refine .content on fits (by omega) (by omega) ?_
            intro more
            rw [after, ← behind, ← same more]
            rfl
          | finished ceased same =>
            refine .finished ceased ?_
            intro more
            rw [after, ← behind, ← same more]
            rfl
        · -- a wait after the size line is what `strands` describes
          intro none clear
          obtain ⟨rfl, rfl⟩ := waits none
          exfalso
          subst none
          cases answers with
          | need stuck on same =>
            simp only [ServerProtocol.strands, left, found] at clear
            rw [List.drop_zero] at stuck
            cases chunkSize with
            | zero =>
              simp only [if_true, decide_eq_false_iff_not] at clear
              simp only [ServerProtocol.chunkState, next, if_true] at stuck
              split at stuck
              · rename_i unfinished
                exact clear unfinished
              · cases stuck
              · cases stuck
            | succ chunkSize =>
              simp only [Nat.succ_ne_zero, if_false, decide_eq_false_iff_not] at clear
              simp only [ServerProtocol.chunkState, next] at stuck
              split at stuck
              · rename_i nothing
                rw [List.drop_eq_nil_iff] at nothing
                omega
              · cases stuck
      · have decided : next h p.chunkState (buf.drop position) = .fail .chunkTooLarge := by
          simp only [stand, next, found, if_neg small]
        refine ⟨p, 0, .error .chunkTooLarge, ?_, by simp, size,
          .failed (decode_of_fail lawful decided), by simp⟩
        simp only [ServerProtocol.recvBody, if_neg guard, size, left, found, if_neg small,
          Nat.add_zero]

end

def recvNonzero (rbuf : RingBuffer) (data : List Byte) :
    Option (RingBuffer × Except ErrorKind Unit) :=
  if rbuf.remainingCapacity = 0 then some (rbuf, .error .writeZero)
  else do
    let rbuf ← rbuf.fillWriteBuf data
    let rbuf ← rbuf.writeCommit data.length
    return (rbuf, if data.length = 0 then .error .unexpectedEof else .ok ())

/-- `usable` is whether the inner object is still there. -/
structure RequestBody where
  usable : Bool
  protocol : ServerProtocol
  rbuf : RingBuffer
  deriving DecidableEq, Repr

namespace RequestBody

def addToBuffer (r : RequestBody) (data : List Byte) : Option (RequestBody × Except Error Unit) :=
  if r.usable then do
    let (rbuf, result) ← recvNonzero r.rbuf data
    match result with
    | .error .writeZero => return ({ r with usable := false, rbuf }, .error .bufferExceeded)
    | .error kind => return ({ r with usable := false, rbuf }, .error (.io kind))
    | .ok () => return ({ r with rbuf }, .ok ())
  else some (r, .error .unusable)

def tryRecvRound (h : Httparse) (dest : Nat) (r : RequestBody) :
    Option (Step RequestBody (Except Error RecvStatus × List Byte)) :=
  if ¬ r.usable then some (.done r (.error .unusable, []))
  else if r.protocol.state = .receivingBody then do
    let buf ← r.rbuf.readBuf
    let (protocol, read, result) ← r.protocol.recvBody h buf 0 dest headersMax
    match result with
    | .error e => return .done { r with usable := false, protocol } (.error e, [])
    | .ok content =>
      let written := (content.map Prod.fst).getD []
      let needBytes := content.isNone
      if protocol.state = .awaitingResponse then do
        let rbuf ← r.rbuf.readCommit read
        return .done ⟨false, protocol, rbuf⟩ (.ok (.complete written.length), written)
      else if needBytes then
        if read = 0 ∧ ¬ r.rbuf.isReadableContiguous then do
          let (rbuf, _) ← r.rbuf.align
          return .again { r with protocol, rbuf }
        else return .done { r with protocol } (.ok .needBytes, [])
      else do
        let rbuf ← r.rbuf.readCommit read
        if read > 0 ∧ written.length = 0 then return .again { r with protocol, rbuf }
        else if ¬ (written.length > 0 ∨ read = 0) then none
        else return .done { r with protocol, rbuf } (.ok (.read written.length), written)
  else do
    let rbuf ← r.rbuf.readCommit 0
    if r.protocol.state ≠ .awaitingResponse then none
    else return .done { r with usable := false, rbuf } (.ok (.complete 0), [])

/-- More rounds than the loop can make: each one shortens the buffer or aligns it. -/
def tryRecvRounds (r : RequestBody) : Nat := 2 * r.rbuf.len + 2

def tryRecv (h : Httparse) (r : RequestBody) (dest : Nat) :
    Option (RequestBody × Except Error RecvStatus × List Byte) :=
  loop (tryRecvRound h dest) r.tryRecvRounds r

def strands (h : Httparse) (r : RequestBody) : Bool :=
  r.usable && r.protocol.state = .receivingBody &&
    match r.rbuf.readBuf with
    | some buf => r.protocol.strands h buf
    | none => false

def clean (h : Httparse) (r : RequestBody) (dest : Nat) : Bool :=
  throughout (tryRecvRound h dest) (fun r => !r.strands h) r.tryRecvRounds r

structure Receiving (r : RequestBody) : Prop where
  valid : r.rbuf.Valid
  usable : r.usable = true
  on : r.protocol.state = .receivingBody
  chunked : r.protocol.bodySize = .unknown

end RequestBody

def RequestBody.remaining (h : Httparse) (r : RequestBody) (net : List Byte) : Decoded :=
  decode h r.protocol.chunkState (r.rbuf.content ++ net)

inductive Outcome (h : Httparse) (net : List Byte) (dest : Nat) (d : Decoded) (r' : RequestBody) :
    Except Error RecvStatus × List Byte → Prop where
  | failed {e : Error} (why : d = ⟨[], .failed e⟩) : Outcome h net dest d r' (.error e, [])
  | needBytes (on : r'.Receiving) (same : r'.remaining h net = d)
      (waits : next h r'.protocol.chunkState r'.rbuf.content = .need) :
      Outcome h net dest d r' (.ok .needBytes, [])
  | read {bytes : List Byte} (on : r'.Receiving) (progress : 0 < dest → 0 < bytes.length)
      (same : d = (r'.remaining h net).prepend bytes) :
      Outcome h net dest d r' (.ok (.read bytes.length), bytes)
  | complete (ceased : r'.usable = false) (valid : r'.rbuf.Valid)
      (same : d = ⟨[], .finished (r'.rbuf.content ++ net)⟩) :
      Outcome h net dest d r' (.ok (.complete 0), [])

theorem commit_behind {r : RingBuffer} (valid : r.Valid) {b rest : List Byte}
    (split : r.content = b ++ rest) (net : List Byte) {count : Nat} (inside : count ≤ b.length) :
    ∃ c, r.readCommit count = some c ∧ c.Valid ∧
      c.content ++ net = (b ++ (rest ++ net)).drop count ∧ c.len = r.len - count := by
  have len := RingBuffer.content_length valid
  have held : count ≤ r.len := by
    rw [split, List.length_append] at len
    omega
  obtain ⟨c, done, valid', view, _, _⟩ := RingBuffer.readCommit_spec valid count held
  have left : c.content = r.content.drop count := congrArg Queue.bytes view
  refine ⟨c, done, valid', ?_, ?_⟩
  · rw [left, ← List.append_assoc, ← split, List.drop_append_of_le_length (by omega)]
  · rw [← RingBuffer.content_length valid', left, List.length_drop, len]

theorem align_progress {r : RingBuffer} (valid : r.Valid)
    (wrapped : ¬ r.isReadableContiguous = true) :
    ∃ a count, r.align = some (a, count) ∧ a.Valid ∧ a.content = r.content ∧
      2 * a.len + (if a.isReadableContiguous then 0 else 1) <
        2 * r.len + (if r.isReadableContiguous then 0 else 1) := by
  obtain ⟨a, count, aligned, good⟩ := RingBuffer.align_spec valid
  have same : a.len = r.len := by
    rw [← RingBuffer.content_length good.valid, ← RingBuffer.content_length valid, good.same]
  have inside := good.valid.fits
  rw [good.flat] at inside
  have contiguous : a.isReadableContiguous = true := by
    simp only [RingBuffer.isReadableContiguous, decide_eq_true_eq]
    omega
  refine ⟨a, count, aligned, good.valid, good.same, ?_⟩
  simp only [same, if_pos contiguous, if_neg wrapped]
  omega

section
variable {h : Httparse} (lawful : h.Lawful) {r : RequestBody} (on : r.Receiving) (dest : Nat)
  (net : List Byte)
include lawful on dest net

theorem tryRecvRound_spec (clear : r.strands h = false) :
    (∃ r', r.tryRecvRound h dest = some (.again r') ∧ r'.Receiving ∧
      r'.remaining h net = r.remaining h net ∧
      2 * r'.rbuf.len + (if r'.rbuf.isReadableContiguous then 0 else 1) <
        2 * r.rbuf.len + (if r.rbuf.isReadableContiguous then 0 else 1)) ∨
    ∃ r' result, r.tryRecvRound h dest = some (.done r' result) ∧
      Outcome h net dest (r.remaining h net) r' result := by
  obtain ⟨b, rest, buf, split, _, flat⟩ := RingBuffer.readBuf_spec on.valid
  have all : r.rbuf.content ++ net = b ++ (rest ++ net) := by rw [split, List.append_assoc]
  have len : r.rbuf.len = b.length + rest.length := by
    rw [← RingBuffer.content_length on.valid, split, List.length_append]
  obtain ⟨p', read, result, run, short, size, answers, waits⟩ :=
    recvBody_answers lawful on.on on.chunked (Nat.zero_le b.length) dest
  simp only [RequestBody.strands, on.usable, on.on, buf, decide_true, Bool.and_self,
    Bool.true_and] at clear
  simp only [List.drop_zero, Nat.zero_add] at run short answers waits
  unfold RequestBody.remaining
  rw [all]
  cases answers with
  | failed why =>
    refine Or.inr ⟨{ r with usable := false, protocol := p' }, _, ?_, .failed (why _)⟩
    simp [RequestBody.tryRecvRound, on.usable, on.on, buf, run]
  | need stuck still same =>
    obtain ⟨rfl, rfl⟩ := waits rfl clear
    by_cases wrapped : r.rbuf.isReadableContiguous = true
    · refine Or.inr ⟨r, _, ?_, .needBytes on ?_ ?_⟩
      · have whole : (⟨true, r.protocol, r.rbuf⟩ : RequestBody) = r := by rw [← on.usable]
        simp [RequestBody.tryRecvRound, on.usable, on.on, buf, run, wrapped, whole]
      · rw [RequestBody.remaining, all]
      · rw [split, flat wrapped, List.append_nil]
        exact stuck
    · obtain ⟨a, count, aligned, valid, moved, less⟩ := align_progress on.valid wrapped
      refine Or.inl ⟨{ r with rbuf := a }, ?_, ⟨valid, on.usable, on.on, on.chunked⟩, ?_, less⟩
      · simp [RequestBody.tryRecvRound, on.usable, on.on, buf, run, wrapped, aligned]
      · rw [moved, all]
  | content still fits progress shorter same =>
    rename_i bytes
    obtain ⟨c, committed, valid, behind, shrunk⟩ :=
      commit_behind on.valid split net (by omega : read ≤ b.length)
    have kept : RequestBody.Receiving { r with protocol := p', rbuf := c } :=
      ⟨valid, on.usable, still, size⟩
    by_cases silent : 0 < read ∧ bytes.length = 0
    · have nothing : bytes = [] := List.length_eq_zero_iff.mp silent.2
      refine Or.inl ⟨{ r with protocol := p', rbuf := c }, ?_, kept, ?_, ?_⟩
      · simp [RequestBody.tryRecvRound, on.usable, on.on, buf, run, still, committed, silent.1,
          nothing]
      · rw [behind, same, nothing, prepend_nil]
      · simp only [shrunk]
        split <;> split <;> omega
    · refine Or.inr ⟨{ r with protocol := p', rbuf := c }, (.ok (.read bytes.length), bytes), ?_,
        .read kept ?_ ?_⟩
      · simp only [RequestBody.tryRecvRound, on.usable, on.on, buf, run, still, committed,
          not_true_eq_false, if_false, if_true, Option.bind_eq_bind, Option.bind_some,
          Option.isNone_some, Option.map_some, Option.getD_some, reduceCtorEq, Bool.false_eq_true,
          gt_iff_lt]
        rw [if_neg silent, if_neg (by omega)]
        rfl
      · intro room
        have := progress room
        omega
      · rw [RequestBody.remaining, behind, same]
  | finished ceased same =>
    obtain ⟨c, committed, valid, behind, _⟩ :=
      commit_behind on.valid split net (by omega : read ≤ b.length)
    refine Or.inr ⟨⟨false, p', c⟩, _, ?_, .complete rfl valid ?_⟩
    · simp [RequestBody.tryRecvRound, on.usable, on.on, buf, run, ceased, committed]
    · rw [behind, same]

theorem tryRecv_spec (clean : r.clean h dest = true) :
    ∃ r' result, r.tryRecv h dest = some (r', result) ∧
      Outcome h net dest (r.remaining h net) r' result := by
  apply loop_rule (fun r => 2 * r.rbuf.len + if r.rbuf.isReadableContiguous then 0 else 1)
    (fun s => s.Receiving ∧ s.remaining h net = r.remaining h net)
    ?_ r.tryRecvRounds ⟨on, rfl⟩ ?_ clean
  · intro s ⟨on, same⟩ clear
    rw [← same]
    rcases tryRecvRound_spec lawful on dest net (by simpa using clear) with
      ⟨s', stepped, on', same', less⟩ | ⟨s', result, stepped, ends⟩
    · exact Or.inl ⟨s', stepped, ⟨on', same'⟩, less⟩
    · exact Or.inr ⟨s', result, stepped, ends⟩
  · unfold RequestBody.tryRecvRounds
    split <;> omega

end

structure Receiver where
  body : RequestBody
  net : List Byte
  deriving DecidableEq, Repr

inductive Event where
  | arrive (count : Nat)
  | tryRecv (dest : Nat)
  deriving DecidableEq, Repr

inductive Out where
  | arrived (result : Except Error Unit)
  | received (result : Except Error RecvStatus) (bytes : List Byte)
  deriving DecidableEq, Repr

def Out.bytes : Out → List Byte
  | .arrived _ => []
  | .received _ bytes => bytes

def delivered (outs : List Out) : List Byte := (outs.map Out.bytes).flatten

namespace Receiver

def step (h : Httparse) (s : Receiver) : Event → Option (Receiver × Out)
  | .arrive count => do
    let (body, result) ← s.body.addToBuffer (s.net.take count)
    return (⟨body, s.net.drop count⟩, .arrived result)
  | .tryRecv dest => do
    let (body, result, bytes) ← s.body.tryRecv h dest
    return ({ s with body }, .received result bytes)

def run (h : Httparse) (s : Receiver) : List Event → Option (Receiver × List Out)
  | [] => some (s, [])
  | event :: events => do
    let (s, out) ← s.step h event
    let (s, outs) ← s.run h events
    return (s, out :: outs)

/-- A read returns at least one byte and no more than the offered slice holds,
    and is made only while the body is being received. -/
def Possible (s : Receiver) : Event → Prop
  | .arrive count => s.body.usable = true ∧ 0 < count ∧ count ≤ s.net.length ∧
      count ≤ s.body.rbuf.writeRange.2 - s.body.rbuf.writeRange.1
  | .tryRecv _ => True

instance (s : Receiver) (event : Event) : Decidable (s.Possible event) :=
  match event with
  | .arrive count => inferInstanceAs (Decidable (s.body.usable = true ∧ 0 < count ∧
      count ≤ s.net.length ∧ count ≤ s.body.rbuf.writeRange.2 - s.body.rbuf.writeRange.1))
  | .tryRecv _ => inferInstanceAs (Decidable True)

def cleanEvent (h : Httparse) (s : Receiver) : Event → Bool
  | .arrive _ => true
  | .tryRecv dest => s.body.clean h dest

def along (h : Httparse) (check : Receiver → Event → Bool) (s : Receiver) : List Event → Bool
  | [] => true
  | event :: events => check s event &&
      match s.step h event with
      | some (s', _) => along h check s' events
      | none => true

def possibleRun (h : Httparse) (s : Receiver) (events : List Event) : Bool :=
  along h (fun s event => decide (s.Possible event)) s events

def cleanRun (h : Httparse) (s : Receiver) (events : List Event) : Bool :=
  along h (cleanEvent h) s events

/-- A request whose head has been read: the protocol expects a chunked body and
    the buffer may already hold some of it. -/
structure Ready (s : Receiver) (wire : List Byte) : Prop where
  receiving : s.body.Receiving
  fresh : s.body.protocol.chunkState = ChunkState.start
  stream : s.body.rbuf.content ++ s.net = wire

end Receiver

def Out.quiet : Out → Bool
  | .arrived _ | .received (.ok .needBytes) _ | .received (.ok (.read _)) _ => true
  | _ => false

def Out.refused (o : Out) : Bool := o = .received (.error .unusable) []

/-- The reports of a run that has not reached the end of the body, or has
    reached it once. -/
inductive Reports : Bool → List Out → Prop where
  | during {outs : List Out} (quiet : ∀ o ∈ outs, o.quiet = true) : Reports true outs
  | after (before later : List Out) (quiet : ∀ o ∈ before, o.quiet = true)
      (refused : ∀ o ∈ later, o.refused = true) :
      Reports false (before ++ .received (.ok (.complete 0)) [] :: later)

theorem Reports.quiet_cons {usable : Bool} {outs : List Out} {o : Out} (quiet : o.quiet = true)
    (rest : Reports usable outs) : Reports usable (o :: outs) := by
  cases rest with
  | during all =>
    exact .during (List.forall_mem_cons.mpr ⟨quiet, all⟩)
  | after before later all refused =>
    exact .after (o :: before) later (List.forall_mem_cons.mpr ⟨quiet, all⟩) refused

theorem recvNonzero_spec {rbuf : RingBuffer} (valid : rbuf.Valid) {data : List Byte}
    (filled : 0 < data.length) (fits : data.length ≤ rbuf.writeRange.2 - rbuf.writeRange.1) :
    ∃ rbuf', recvNonzero rbuf data = some (rbuf', .ok ()) ∧ rbuf'.Valid ∧
      rbuf'.content = rbuf.content ++ data := by
  obtain ⟨f, rbuf', stored, committed, valid', bytes, _, _, _⟩ :=
    RingBuffer.fill_commit_spec valid data data.length fits (Nat.le_refl _)
  have room := (RingBuffer.writeRange_spec valid).2.2.1
  refine ⟨rbuf', ?_, valid', by rw [bytes, List.take_length]⟩
  simp only [recvNonzero, if_neg (by omega : ¬ rbuf.remainingCapacity = 0), stored, committed,
    Option.bind_eq_bind, Option.bind_some, if_neg (Nat.ne_of_gt filled)]
  rfl

theorem arrive_spec {h : Httparse} {s : Receiver} (on : s.body.Receiving) {count : Nat}
    (possible : s.Possible (.arrive count)) :
    ∃ s', s.step h (.arrive count) = some (s', .arrived (.ok ())) ∧ s'.body.Receiving ∧
      s'.body.remaining h s'.net = s.body.remaining h s.net := by
  obtain ⟨usable, pos, inside, fits⟩ := possible
  have size : (s.net.take count).length = count := by rw [List.length_take]; omega
  obtain ⟨rbuf, run, valid, bytes⟩ :=
    recvNonzero_spec on.valid (by omega) (by omega : (s.net.take count).length ≤ _)
  refine ⟨⟨{ s.body with rbuf }, s.net.drop count⟩, ?_, ⟨valid, on.usable, on.on, on.chunked⟩, ?_⟩
  · simp [Receiver.step, RequestBody.addToBuffer, usable, run]
  · simp only [RequestBody.remaining, bytes, List.append_assoc, List.take_append_drop]

theorem unusable_run {h : Httparse} (events : List Event) {s : Receiver}
    (ceased : s.body.usable = false) (possible : s.possibleRun h events = true) :
    ∃ outs, s.run h events = some (s, outs) ∧ ∀ o ∈ outs, o = .received (.error .unusable) [] := by
  induction events with
  | nil => exact ⟨[], rfl, by simp⟩
  | cons event events ih =>
    simp only [Receiver.possibleRun, Receiver.along, Bool.and_eq_true,
      decide_eq_true_eq] at possible
    cases event with
    | arrive count =>
      have := possible.1.1
      rw [ceased] at this
      cases this
    | tryRecv dest =>
      have refused : s.step h (.tryRecv dest) = some (s, .received (.error .unusable) []) := by
        simp [Receiver.step, RequestBody.tryRecv, RequestBody.tryRecvRounds, loop,
          RequestBody.tryRecvRound, ceased]
      rw [refused] at possible
      obtain ⟨outs, run, all⟩ := ih possible.2
      refine ⟨.received (.error .unusable) [] :: outs, ?_, ?_⟩
      · simp [Receiver.run, refused, run]
      · intro o mem
        rcases List.mem_cons.mp mem with rfl | mem
        · rfl
        · exact all o mem

theorem receiving_run {h : Httparse} (lawful : h.Lawful) (events : List Event) {s : Receiver}
    {body rest : List Byte} (on : s.body.Receiving)
    (total : s.body.remaining h s.net = ⟨body, .finished rest⟩)
    (possible : s.possibleRun h events = true) (clean : s.cleanRun h events = true) :
    ∃ s' outs, s.run h events = some (s', outs) ∧ Reports s'.body.usable outs ∧
      (s'.body.usable = true → s'.body.Receiving ∧
        ⟨body, .finished rest⟩ = (s'.body.remaining h s'.net).prepend (delivered outs)) ∧
      (s'.body.usable = false → delivered outs = body ∧
        s'.body.rbuf.content ++ s'.net = rest) := by
  induction events generalizing s body with
  | nil =>
    refine ⟨s, [], rfl, ?_, fun _ => ⟨on, total.symm⟩, ?_⟩
    · rw [on.usable]
      exact .during (by simp)
    · rw [on.usable]
      intro absurd
      cases absurd
  | cons event events ih =>
    simp only [Receiver.possibleRun, Receiver.along, Bool.and_eq_true,
      decide_eq_true_eq] at possible
    simp only [Receiver.cleanRun, Receiver.along, Bool.and_eq_true] at clean
    cases event with
    | arrive count =>
      obtain ⟨s₁, step, on₁, same⟩ := arrive_spec (h := h) on possible.1
      rw [step] at possible clean
      obtain ⟨s₂, outs, run, reports, during, after⟩ :=
        ih on₁ (same.trans total) possible.2 clean.2
      exact ⟨s₂, .arrived (.ok ()) :: outs, by simp [Receiver.run, step, run],
        reports.quiet_cons rfl, during, after⟩
    | tryRecv dest =>
      obtain ⟨body₁, ⟨result, bytes⟩, run₁, outcome⟩ := tryRecv_spec lawful on dest s.net clean.1
      have step : s.step h (.tryRecv dest) = some (⟨body₁, s.net⟩, .received result bytes) := by
        simp [Receiver.step, run₁]
      rw [step] at possible clean
      rw [total] at outcome
      cases outcome with
      | failed why => cases why
      | needBytes on₁ same _ =>
        obtain ⟨s₂, outs, run, reports, during, after⟩ := ih on₁ same possible.2 clean.2
        exact ⟨s₂, .received (.ok .needBytes) [] :: outs, by simp [Receiver.run, step, run],
          reports.quiet_cons rfl, during, after⟩
      | read on₁ progress same =>
        obtain ⟨left, remains⟩ : ∃ left, body₁.remaining h s.net = ⟨left, .finished rest⟩ :=
          ⟨(body₁.remaining h s.net).bytes, by
            rw [show Ending.finished rest = (body₁.remaining h s.net).ending from
              congrArg Decoded.ending same]⟩
        have prefixed : body = bytes ++ left := by
          have := congrArg Decoded.bytes same
          rwa [remains] at this
        obtain ⟨s₂, outs, run, reports, during, after⟩ := ih on₁ remains possible.2 clean.2
        refine ⟨s₂, .received (.ok (.read bytes.length)) bytes :: outs,
          by simp [Receiver.run, step, run], reports.quiet_cons rfl, ?_, ?_⟩
        · intro usable
          obtain ⟨on₂, total₂⟩ := during usable
          refine ⟨on₂, ?_⟩
          rw [same, remains, total₂, prepend_prepend]
          rfl
        · intro ceased
          obtain ⟨all, behind⟩ := after ceased
          exact ⟨by rw [prefixed, ← all]; rfl, behind⟩
      | complete ceased valid same =>
        obtain ⟨outs, run, refused⟩ := unusable_run (s := ⟨body₁, s.net⟩) events ceased possible.2
        have nothing : delivered outs = [] := by
          unfold delivered
          rw [List.flatten_eq_nil_iff]
          intro bytes mem
          obtain ⟨o, memo, rfl⟩ := List.mem_map.mp mem
          rw [refused o memo]
          rfl
        refine ⟨⟨body₁, s.net⟩, .received (.ok (.complete 0)) [] :: outs,
          by simp [Receiver.run, step, run], ?_, ?_, ?_⟩
        · simp only [ceased]
          exact .after [] outs (by simp) (by
            intro o mem
            rw [refused o mem]
            rfl)
        · intro usable
          simp only [ceased] at usable
          cases usable
        · intro _
          have ends := congrArg Decoded.ending same
          have bytes := congrArg Decoded.bytes same
          simp only [Ending.finished.injEq] at ends bytes
          exact ⟨by rw [bytes]; exact nothing, ends.symm⟩

/-- In every run whose `recv_body` calls never strand a size line, the content
    delivered is a beginning of the body, the end is reported once, with all of
    the body delivered and exactly its bytes consumed, and once everything has
    arrived every further call with room brings content or the end. -/
theorem request_body_is_segmentation_independent (h : Httparse) (lawful : h.Lawful)
    {wire body : List Byte} (enc : Encodes h wire body) (rest : List Byte) (s : Receiver)
    (ready : s.Ready (wire ++ rest)) (events : List Event)
    (possible : s.possibleRun h events = true) (clean : s.cleanRun h events = true) :
    ∃ s' outs, s.run h events = some (s', outs) ∧ delivered outs <+: body ∧
      Reports s'.body.usable outs ∧
      (s'.body.usable = false → delivered outs = body ∧ s'.body.rbuf.content ++ s'.net = rest) ∧
      (s'.body.usable = true → s'.net = [] → ∀ dest, 0 < dest → s'.body.clean h dest = true →
        ∃ body' bytes, s'.body.tryRecv h dest = some (body', .ok (.read bytes.length), bytes) ∧
            0 < bytes.length ∨
          s'.body.tryRecv h dest = some (body', .ok (.complete 0), bytes) ∧ bytes = []) := by
  have total : s.body.remaining h s.net = ⟨body, .finished rest⟩ := by
    rw [RequestBody.remaining, ready.fresh, ready.stream, encodes_decode lawful enc rest]
  obtain ⟨s', outs, run, reports, during, after⟩ :=
    receiving_run lawful events ready.receiving total possible clean
  refine ⟨s', outs, run, ?_, reports, after, ?_⟩
  · cases usable : s'.body.usable with
    | true =>
      have bytes := congrArg Decoded.bytes (during usable).2
      exact ⟨_, bytes.symm⟩
    | false =>
      rw [(after usable).1]
  · intro usable arrived dest room cleanCall
    obtain ⟨on, left⟩ := during usable
    obtain ⟨body', ⟨result, bytes⟩, call, outcome⟩ := tryRecv_spec lawful on dest [] cleanCall
    rw [arrived] at left
    have ending : (s'.body.remaining h []).ending = .finished rest :=
      (congrArg Decoded.ending left).symm
    refine ⟨body', bytes, ?_⟩
    cases outcome with
    | failed why => rw [why] at ending; cases ending
    | needBytes on same waits =>
      rw [← same, RequestBody.remaining, List.append_nil, decode_of_need waits] at ending
      cases ending
    | read on progress same => exact Or.inl ⟨call, progress room⟩
    | complete ceased valid same => exact Or.inr ⟨call, rfl⟩

def Receiver.fresh (capacity : Nat) (net : List Byte) : Receiver :=
  ⟨⟨true, ⟨.receivingBody, .unknown, none, 0, true, false, none⟩,
    ⟨List.replicate capacity 0, 0, 0, List.replicate capacity 0⟩⟩, net⟩

theorem Receiver.fresh_ready (capacity : Nat) (net : List Byte) :
    (Receiver.fresh capacity net).Ready net := by
  refine ⟨⟨⟨by simp [fresh], by simp [fresh], Or.inl rfl, by simp [fresh]⟩, rfl, rfl, rfl⟩, rfl, ?_⟩
  simp [fresh, RingBuffer.content, Slices.slice]

def helloWire : List Byte := [53, 13, 10, 104, 101, 108, 108, 111, 13, 10, 48, 13, 10, 13, 10]

theorem helloWire_encodes : Encodes scanners helloWire [104, 101, 108, 108, 111] :=
  .chunk [53, 13, 10] [104, 101, 108, 108, 111] (by decide) (by decide) (by decide)
    (.last [48, 13, 10] [13, 10] [] (by decide) (by decide))

theorem hello_is_received :
    ∃ s' outs, (Receiver.fresh 8 helloWire).run scanners [.arrive 4, .tryRecv 3, .arrive 3,
        .tryRecv 2, .tryRecv 9, .arrive 1, .tryRecv 0, .tryRecv 4, .arrive 4, .tryRecv 4, .arrive 3,
        .tryRecv 1, .tryRecv 1] = some (s', outs) ∧
      delivered outs <+: [104, 101, 108, 108, 111] ∧ Reports s'.body.usable outs := by
  obtain ⟨s', outs, run, bytes, reports, _⟩ :=
    request_body_is_segmentation_independent scanners scanners_lawful helloWire_encodes []
      (Receiver.fresh 8 helloWire) (by simpa using Receiver.fresh_ready 8 helloWire)
      [.arrive 4, .tryRecv 3, .arrive 3, .tryRecv 2, .tryRecv 9, .arrive 1, .tryRecv 0, .tryRecv 4,
        .arrive 4, .tryRecv 4, .arrive 3, .tryRecv 1, .tryRecv 1]
      (by decide +kernel) (by decide +kernel)
  exact ⟨s', outs, run, bytes, reports⟩

/-- The size line arrives alone: the call that parses it does not consume it,
    and the next call delivers it as content. -/
theorem stranded_size_line_is_delivered :
    Encodes scanners helloWire [104, 101, 108, 108, 111] ∧
    (Receiver.fresh 16 helloWire).possibleRun scanners
      [.arrive 3, .tryRecv 8, .arrive 12, .tryRecv 8, .tryRecv 8] = true ∧
    ((Receiver.fresh 16 helloWire).run scanners
      [.arrive 3, .tryRecv 8, .arrive 12, .tryRecv 8, .tryRecv 8]).map
        (fun result => (delivered result.2, result.2.getLast?)) =
      some ([53, 13, 10, 104, 101], some (.received (.error .invalidChunkSuffix) [])) ∧
    ¬ ([53, 13, 10, 104, 101] : List Byte) <+: [104, 101, 108, 108, 111] := by
  refine ⟨helloWire_encodes, ?_, ?_, ?_⟩
  · decide +kernel
  · decide +kernel
  · decide

end PushpinHttp
