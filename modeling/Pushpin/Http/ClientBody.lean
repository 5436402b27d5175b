import Pushpin.Http.ServerBody

namespace PushpinHttp
open PushpinRingBuffer Scanning Loops

structure ClientFinished where
  headersRange : Option (Nat × Nat)
  persistent : Bool
  deriving DecidableEq, Repr

inductive ClientRecv where
  | needBytes (state : ClientState)
  | read (state : ClientState) (count : Nat) (bytes : List Byte)
  | complete (finished : ClientFinished) (count : Nat) (bytes : List Byte)
  deriving DecidableEq, Repr

namespace ClientState

def processKnownSize (state : ClientState) (src : List Byte) (dest : Nat) (ended : Bool) :
    Option (Except Error ClientRecv) :=
  match state.chunkLeft with
  | none => none
  | some chunkLeft =>
    let src := src.take (min chunkLeft src.length)
    let bytes := src.take dest
    let chunkLeft := chunkLeft - bytes.length
    if chunkLeft = 0 then
      some (.ok (.complete ⟨none, state.persistent⟩ bytes.length bytes))
    else
      let state := { state with chunkLeft := some chunkLeft }
      if src = [] then
        if bytes.length ≠ 0 then none
        else if ended then some (.error (.io .unexpectedEof))
        else some (.ok (.needBytes state))
      else some (.ok (.read state bytes.length bytes))

def processUnknownSize (state : ClientState) (src : List Byte) (dest : Nat) (ended : Bool) :
    Option (Except Error ClientRecv) :=
  let bytes := src.take dest
  if bytes.length = src.length ∧ ended then
    some (.ok (.complete ⟨none, state.persistent⟩ bytes.length bytes))
  else if src = [] then
    if bytes.length ≠ 0 then none else some (.ok (.needBytes state))
  else some (.ok (.read state bytes.length bytes))

/-- The part of `process_unknown_size_chunked` after the chunk size is known;
    `pos` bytes of `src` are the size line. -/
def processChunk (h : Httparse) (state : ClientState) (src : List Byte) (pos dest headers : Nat)
    (ended : Bool) : Option (Except Error ClientRecv) :=
  match state.chunkLeft with
  | none => none
  | some chunkLeft =>
    if chunkLeft > 0 then
      let content := (src.drop pos).take (min chunkLeft (src.length - pos))
      let bytes := content.take dest
      let pos := pos + bytes.length
      let state := { state with chunkLeft := some (chunkLeft - bytes.length) }
      if content = [] then
        if bytes.length ≠ 0 then none
        else if ended then some (.error (.io .unexpectedEof))
        else if pos > 0 then some (.ok (.read state pos []))
        else some (.ok (.needBytes state))
      else some (.ok (.read state pos bytes))
    else if state.chunkSize = 0 then
      match h.parseHeaders headers (src.drop pos) with
      | .complete x _ =>
        some (.ok (.complete ⟨some (pos, pos + x), state.persistent⟩ (pos + x) []))
      | .incomplete =>
        if ended then some (.error (.io .unexpectedEof))
        else if pos > 0 then some (.ok (.read state pos []))
        else some (.ok (.needBytes state))
      | .error e => some (.error (.parse e))
    else if pos ≠ 0 then none
    else if src.length < 2 then
      if ended then some (.error (.io .unexpectedEof)) else some (.ok (.needBytes state))
    else if src.take 2 ≠ crlf then some (.error .invalidChunkSuffix)
    else some (.ok (.read { state with chunkLeft := none, chunkSize := 0 } 2 []))

def processUnknownSizeChunked (h : Httparse) (state : ClientState) (src : List Byte)
    (dest headers : Nat) (ended : Bool) : Option (Except Error ClientRecv) :=
  match state.chunkLeft with
  | some _ => state.processChunk h src 0 dest headers ended
  | none =>
    match h.parseChunkSize src with
    | .complete pos size =>
      if size < 2 ^ 32 then
        { state with chunkLeft := some size, chunkSize := size }.processChunk h src pos dest headers
          ended
      else some (.error .chunkTooLarge)
    | .incomplete =>
      if ended then some (.error (.io .unexpectedEof)) else some (.ok (.needBytes state))
    | .error _ => some (.error .invalidChunkSize)

def recv (h : Httparse) (state : ClientState) (src : List Byte) (dest headers : Nat)
    (ended : Bool) : Option (Except Error ClientRecv) :=
  match state.bodySize with
  | .known _ => state.processKnownSize src dest ended
  | .unknown =>
    if state.chunked then state.processUnknownSizeChunked h src dest headers ended
    else state.processUnknownSize src dest ended
  | .noBody => some (.ok (.complete ⟨none, state.persistent⟩ 0 []))

def chunkState (state : ClientState) : ChunkState := ⟨state.chunkLeft, state.chunkSize⟩

def Chunked (state : ClientState) : Prop := state.bodySize = .unknown ∧ state.chunked = true

end ClientState

inductive ClientAnswers (h : Httparse) (st : ChunkState) (b : List Byte) (dest : Nat)
    (ended : Bool) : Except Error ClientRecv → Prop where
  | failed {e : Error} (why : ∀ more, decode h st (b ++ more) = ⟨[], .failed e⟩) :
      ClientAnswers h st b dest ended (.error e)
  | eof (closed : ended = true) (why : decode h st b = ⟨[], .incomplete⟩) :
      ClientAnswers h st b dest ended (.error (.io .unexpectedEof))
  | needBytes {state : ClientState} (chunked : state.Chunked) (same : state.chunkState = st)
      (waits : next h st b = .need) (opened : ended = false) :
      ClientAnswers h st b dest ended (.ok (.needBytes state))
  | read {state : ClientState} {count : Nat} {bytes : List Byte} (chunked : state.Chunked)
      (inside : count ≤ b.length) (progress : 0 < dest → 0 < count)
      (shorter : bytes.length ≤ count)
      (same : ∀ more, decode h st (b ++ more) =
        (decode h state.chunkState ((b ++ more).drop count)).prepend bytes) :
      ClientAnswers h st b dest ended (.ok (.read state count bytes))
  | complete {finished : ClientFinished} {count : Nat} (inside : count ≤ b.length)
      (same : ∀ more, decode h st (b ++ more) = ⟨[], .finished ((b ++ more).drop count)⟩) :
      ClientAnswers h st b dest ended (.ok (.complete finished count []))

section
variable {h : Httparse} (lawful : h.Lawful)
include lawful

/-- After the size line. `before` is what the decoder stood at before it; when
    no size line was parsed in this call, `pos` is zero and nothing changed. -/
theorem processChunk_answers (state : ClientState) {before : ChunkState} {left pos : Nat}
    (chunked : state.Chunked) (known : state.chunkLeft = some left) {src : List Byte}
    (inside : pos ≤ src.length) (dest : Nat) (ended : Bool)
    (line : ∀ more, decode h before (src ++ more) =
      decode h state.chunkState ((src ++ more).drop pos))
    (fresh : pos = 0 → before = state.chunkState) (whole : 0 < pos → left = state.chunkSize) :
    ∃ result, state.processChunk h src pos dest headersMax ended = some result ∧
      ClientAnswers h before src dest ended result := by
  have stand : state.chunkState = ⟨some left, state.chunkSize⟩ := by
    rw [ClientState.chunkState, known]
  have shift : ∀ more, (src ++ more).drop pos = src.drop pos ++ more :=
    fun more => List.drop_append_of_le_length inside
  have alone : decode h before src = decode h state.chunkState (src.drop pos) := by
    simpa using line []
  -- waiting after a size line reports the line; waiting without one changes nothing
  have waiting : next h state.chunkState (src.drop pos) = .need → ∃ result,
      (if ended then some (.error (.io .unexpectedEof))
        else if pos > 0 then some (.ok (.read state pos []))
        else some (.ok (.needBytes state)) : Option (Except Error ClientRecv)) = some result ∧
      ClientAnswers h before src dest ended result := by
    intro waits
    cases ended with
    | true => exact ⟨_, rfl, .eof rfl (by rw [alone, decode_of_need waits])⟩
    | false =>
      rcases Nat.eq_zero_or_pos pos with zero | advanced
      · refine ⟨.ok (.needBytes state), by simp [zero], .needBytes chunked (fresh zero).symm ?_ rfl⟩
        rw [fresh zero, ← waits, zero, List.drop_zero]
      · refine ⟨.ok (.read state pos []), by simp [advanced],
          .read chunked inside (fun _ => advanced) (by simp) ?_⟩
        intro more
        rw [line, prepend_nil]
  cases left with
  | succ left =>
    have avail : (src.drop pos).length = src.length - pos := List.length_drop
    by_cases empty : src.drop pos = []
    · have same : { state with chunkLeft := some (left + 1) } = state := by rw [← known]
      obtain ⟨result, run, answers⟩ := waiting (by simp [stand, next, empty])
      refine ⟨result, ?_, answers⟩
      rw [← run]
      simp [ClientState.processChunk, known, empty, same]
    · have some : 0 < (src.drop pos).length := List.length_pos_iff.mpr empty
      have taken : (((src.drop pos).take (min (left + 1) (src.length - pos))).take dest).length =
          min dest (min (left + 1) (src.length - pos)) := by
        rw [List.length_take, List.length_take]; omega
      have bytes : ((src.drop pos).take (min (left + 1) (src.length - pos))).take dest =
          (src.drop pos).take (min dest (min (left + 1) (src.length - pos))) := by
        rw [List.take_take]
      refine ⟨.ok (.read { state with chunkLeft := Option.some (left + 1 -
          min dest (min (left + 1) (src.length - pos))) }
          (pos + min dest (min (left + 1) (src.length - pos)))
          ((src.drop pos).take (min dest (min (left + 1) (src.length - pos))))), ?_,
        .read chunked (by omega) (by omega) (by rw [← bytes, taken]; omega) ?_⟩
      · have content : (src.drop pos).take (min (left + 1) (src.length - pos)) ≠ [] := by
          rw [← List.length_pos_iff, List.length_take]
          omega
        simp only [ClientState.processChunk, known, gt_iff_lt, Nat.succ_pos, if_true, taken,
          if_neg content]
        rw [bytes]
      · intro more
        have piece : min dest (min (left + 1) (src.length - pos)) ≤
            (src.drop pos ++ more).length := by
          rw [List.length_append]; omega
        rw [line, shift, stand,
          decode_take lawful (by omega : min dest (min (left + 1) (src.length - pos)) ≤ left + 1)
            piece,
          List.take_append_of_le_length (by omega), ← shift, List.drop_drop]
        rfl
  | zero =>
    by_cases last : state.chunkSize = 0
    · have atEnd : state.chunkState = ⟨some 0, 0⟩ := by rw [stand, last]
      cases found : h.parseHeaders headersMax (src.drop pos) with
      | complete x trailers =>
        have decided : next h state.chunkState (src.drop pos) = .finish x trailers := by
          simp [atEnd, next, found]
        have short := (next_finish lawful decided).2.1
        rw [List.length_drop] at short
        refine ⟨.ok (.complete ⟨some (pos, pos + x), state.persistent⟩ (pos + x) []), ?_,
          .complete (by omega) ?_⟩
        · simp only [ClientState.processChunk, known, found, gt_iff_lt, Nat.lt_irrefl,
            if_false, last, if_true]
        · intro more
          rw [line, shift, decode_of_finish lawful decided, ← shift, List.drop_drop]
      | incomplete =>
        obtain ⟨result, run, answers⟩ := waiting (by simp [atEnd, next, found])
        refine ⟨result, ?_, answers⟩
        rw [← run]
        simp only [ClientState.processChunk, known, found, gt_iff_lt, Nat.lt_irrefl, if_false, last,
          if_true]
      | error e =>
        have decided : next h state.chunkState (src.drop pos) = .fail (.parse e) := by
          simp [atEnd, next, found]
        refine ⟨.error (.parse e), ?_, .failed ?_⟩
        · simp only [ClientState.processChunk, known, found, gt_iff_lt, Nat.lt_irrefl,
            if_false, last, if_true]
        · intro more
          rw [line, shift, decode_of_fail lawful decided]
    · -- the footer of a chunk of nonzero size is never reached in the call that parsed its size
      have zero : pos = 0 := by
        rcases Nat.eq_zero_or_pos pos with zero | advanced
        · exact zero
        · exact absurd (whole advanced).symm last
      subst zero
      rw [List.drop_zero] at waiting
      rw [fresh rfl]
      have footer : state.processChunk h src 0 dest headersMax ended =
          if src.length < 2 then
            if ended then some (.error (.io .unexpectedEof)) else some (.ok (.needBytes state))
          else if src.take 2 ≠ crlf then some (.error .invalidChunkSuffix)
          else some (.ok (.read { state with chunkLeft := none, chunkSize := 0 } 2 [])) := by
        simp only [ClientState.processChunk, known, gt_iff_lt, Nat.lt_irrefl, if_false, last, ne_eq,
          not_true_eq_false]
      rw [footer]
      by_cases short : src.length < 2
      · obtain ⟨result, run, answers⟩ := waiting (by simp [stand, next, last, short])
        rw [fresh rfl] at answers
        refine ⟨result, ?_, answers⟩
        rw [← run, if_pos short]
        simp
      · rw [if_neg short]
        by_cases suffix : src.take 2 = crlf
        · have decided : next h state.chunkState src = .skip 2 ChunkState.start := by
            simp [stand, next, last, short, suffix]
          refine ⟨.ok (.read { state with chunkLeft := none, chunkSize := 0 } 2 []),
            by rw [if_neg (not_not.mpr suffix)],
            .read chunked (by omega) (by omega) (by simp) ?_⟩
          intro more
          rw [decode_of_skip lawful decided, prepend_nil]
          rfl
        · have decided : next h state.chunkState src = .fail .invalidChunkSuffix := by
            simp [stand, next, last, short, suffix]
          exact ⟨_, by rw [if_pos suffix], .failed (decode_of_fail lawful decided)⟩

theorem recv_answers {state : ClientState} (chunked : state.Chunked) (src : List Byte) (dest : Nat)
    (ended : Bool) :
    ∃ result, state.recv h src dest headersMax ended = some result ∧
      ClientAnswers h state.chunkState src dest ended result := by
  have enter : state.recv h src dest headersMax ended =
      state.processUnknownSizeChunked h src dest headersMax ended := by
    simp only [ClientState.recv, chunked.1, chunked.2, if_true]
  rw [enter]
  cases left : state.chunkLeft with
  | some chunkLeft =>
    simp only [ClientState.processUnknownSizeChunked, left]
    exact processChunk_answers lawful state chunked left (Nat.zero_le _) dest ended (by simp)
      (fun _ => rfl) (by omega)
  | none =>
    have stand : state.chunkState = ⟨none, state.chunkSize⟩ := by rw [ClientState.chunkState, left]
    simp only [ClientState.processUnknownSizeChunked, left]
    cases found : h.parseChunkSize src with
    | incomplete =>
      have decided : next h state.chunkState src = .need := by simp [stand, next, found]
      cases ended with
      | true => exact ⟨_, rfl, .eof rfl (decode_of_need decided)⟩
      | false => exact ⟨_, rfl, .needBytes chunked rfl decided rfl⟩
    | error e =>
      have decided : next h state.chunkState src = .fail .invalidChunkSize := by
        simp [stand, next, found]
      exact ⟨_, rfl, .failed (decode_of_fail lawful decided)⟩
    | complete pos size =>
      simp only
      by_cases small : size < 2 ^ 32
      · have decided : next h state.chunkState src = .skip pos ⟨some size, size⟩ := by
          simp only [stand, next, found, if_pos small]
        obtain ⟨advanced, inside, _⟩ := next_skip lawful decided
        rw [if_pos small]
        exact processChunk_answers lawful { state with chunkLeft := some size, chunkSize := size }
          chunked rfl inside dest ended (decode_of_skip lawful decided) (by omega) (fun _ => rfl)
      · have decided : next h state.chunkState src = .fail .chunkTooLarge := by
          simp only [stand, next, found, if_neg small]
        exact ⟨_, by rw [if_neg small], .failed (decode_of_fail lawful decided)⟩

end

/-- `usable` is whether the inner object is still there. -/
structure ResponseBody where
  usable : Bool
  closed : Bool
  rbuf : RingBuffer
  state : ClientState
  deriving DecidableEq, Repr

namespace ResponseBody

def addToBuffer (r : ResponseBody) (data : List Byte) : Option (ResponseBody × Except Error Unit) :=
  if ¬ r.usable then some (r, .error .unusable)
  else if r.closed then some (r, .ok ())
  else do
    let (rbuf, result) ← recvNonzero r.rbuf data
    match result with
    | .ok () => return ({ r with rbuf }, .ok ())
    | .error .writeZero => return ({ r with rbuf }, .error .bufferExceeded)
    | .error .unexpectedEof => return ({ r with rbuf, closed := true }, .ok ())
    | .error kind => return ({ r with rbuf }, .error (.io kind))

def tryRecvRound (h : Httparse) (dest : Nat) (r : ResponseBody) :
    Option (Step ResponseBody (Except Error RecvStatus × List Byte)) :=
  if ¬ r.usable then some (.done r (.error .unusable, []))
  else do
    let src ← r.rbuf.readBuf
    let ended := src.length = r.rbuf.len && r.closed
    match ← r.state.recv h src dest headersMax ended with
    | .error e => return .done { r with usable := false } (.error e, [])
    | .ok (.needBytes state) =>
      if ¬ r.rbuf.isReadableContiguous then do
        let (rbuf, _) ← r.rbuf.align
        return .again { r with rbuf, state }
      else return .done { r with state } (.ok .needBytes, [])
    | .ok (.complete _ read bytes) => do
      let rbuf ← r.rbuf.readCommit read
      return .done { r with usable := false, rbuf } (.ok (.complete bytes.length), bytes)
    | .ok (.read state read bytes) => do
      let rbuf ← r.rbuf.readCommit read
      if read > 0 ∧ bytes.length = 0 then return .again { r with rbuf, state }
      else if ¬ (bytes.length > 0 ∨ read = 0) then none
      else return .done { r with rbuf, state } (.ok (.read bytes.length), bytes)

/-- More rounds than the loop can make: each one shortens the buffer or aligns it. -/
def tryRecvRounds (r : ResponseBody) : Nat := 2 * r.rbuf.len + 2

def tryRecv (h : Httparse) (r : ResponseBody) (dest : Nat) :
    Option (ResponseBody × Except Error RecvStatus × List Byte) :=
  loop (tryRecvRound h dest) r.tryRecvRounds r

structure Receiving (r : ResponseBody) : Prop where
  valid : r.rbuf.Valid
  usable : r.usable = true
  chunked : r.state.Chunked

def remaining (h : Httparse) (r : ResponseBody) (net : List Byte) : Decoded :=
  decode h r.state.chunkState (r.rbuf.content ++ net)

end ResponseBody

inductive ClientOutcome (h : Httparse) (net : List Byte) (dest : Nat) (d : Decoded)
    (r r' : ResponseBody) : Except Error RecvStatus × List Byte → Prop where
  | failed {e : Error} (ceased : r'.usable = false) (why : d = ⟨[], .failed e⟩) :
      ClientOutcome h net dest d r r' (.error e, [])
  | eof (ceased : r'.usable = false) (closed : r.closed = true)
      (why : net = [] → d = ⟨[], .incomplete⟩) :
      ClientOutcome h net dest d r r' (.error (.io .unexpectedEof), [])
  | needBytes (on : r'.Receiving) (kept : r'.closed = r.closed) (same : r'.remaining h net = d)
      (waits : next h r'.state.chunkState r'.rbuf.content = .need) :
      ClientOutcome h net dest d r r' (.ok .needBytes, [])
  | read {bytes : List Byte} (on : r'.Receiving) (kept : r'.closed = r.closed)
      (progress : 0 < dest → 0 < bytes.length) (same : d = (r'.remaining h net).prepend bytes) :
      ClientOutcome h net dest d r r' (.ok (.read bytes.length), bytes)
  | complete (ceased : r'.usable = false) (same : d = ⟨[], .finished (r'.rbuf.content ++ net)⟩) :
      ClientOutcome h net dest d r r' (.ok (.complete 0), [])

variable {h : Httparse}

section
variable (lawful : h.Lawful) {r : ResponseBody} (on : r.Receiving) (dest : Nat) (net : List Byte)
include lawful on dest net

theorem clientRound_spec :
    (∃ r', r.tryRecvRound h dest = some (.again r') ∧ r'.Receiving ∧ r'.closed = r.closed ∧
      r'.remaining h net = r.remaining h net ∧
      2 * r'.rbuf.len + (if r'.rbuf.isReadableContiguous then 0 else 1) <
        2 * r.rbuf.len + (if r.rbuf.isReadableContiguous then 0 else 1)) ∨
    ∃ r' result, r.tryRecvRound h dest = some (.done r' result) ∧
      ClientOutcome h net dest (r.remaining h net) r r' result := by
  obtain ⟨b, rest, buf, split, _, flat⟩ := RingBuffer.readBuf_spec on.valid
  have all : r.rbuf.content ++ net = b ++ (rest ++ net) := by rw [split, List.append_assoc]
  have len : r.rbuf.len = b.length + rest.length := by
    rw [← RingBuffer.content_length on.valid, split, List.length_append]
  obtain ⟨result, run, answers⟩ :=
    recv_answers lawful on.chunked b dest (b.length = r.rbuf.len && r.closed)
  unfold ResponseBody.remaining
  rw [all]
  cases answers with
  | failed why =>
    refine Or.inr ⟨{ r with usable := false }, _, ?_, .failed rfl (why _)⟩
    simp [ResponseBody.tryRecvRound, on.usable, buf, run]
  | eof ended why =>
    simp only [Bool.and_eq_true, decide_eq_true_eq] at ended
    refine Or.inr ⟨{ r with usable := false }, _, ?_, .eof rfl ended.2 ?_⟩
    · simp [ResponseBody.tryRecvRound, on.usable, buf, run]
    · intro nothing
      have none : rest = [] := List.length_eq_zero_iff.mp (by omega)
      rw [none, nothing, List.append_nil, List.append_nil, why]
  | needBytes chunked same waits opened =>
    rename_i state
    by_cases flatNow : r.rbuf.isReadableContiguous = true
    · refine Or.inr ⟨{ r with state }, _, ?_, .needBytes ⟨on.valid, on.usable, chunked⟩ rfl ?_ ?_⟩
      · simp [ResponseBody.tryRecvRound, on.usable, buf, run, flatNow]
      · simp only [ResponseBody.remaining, same, all]
      · simp only [same, split, flat flatNow, List.append_nil, waits]
    · obtain ⟨a, count, aligned, valid, moved, less⟩ := align_progress on.valid flatNow
      refine Or.inl ⟨{ r with rbuf := a, state }, ?_, ⟨valid, on.usable, chunked⟩, rfl, ?_, less⟩
      · simp [ResponseBody.tryRecvRound, on.usable, buf, run, flatNow, aligned]
      · simp only [same, moved, all]
  | read chunked inside progress shorter same =>
    rename_i state count bytes
    obtain ⟨c, commit, valid, behind, shrunk⟩ := commit_behind on.valid split net inside
    have kept : ResponseBody.Receiving { r with rbuf := c, state } := ⟨valid, on.usable, chunked⟩
    by_cases silent : 0 < count ∧ bytes.length = 0
    · have nothing : bytes = [] := List.length_eq_zero_iff.mp silent.2
      refine Or.inl ⟨{ r with rbuf := c, state }, ?_, kept, rfl, ?_, ?_⟩
      · simp [ResponseBody.tryRecvRound, on.usable, buf, run, commit, silent.1, nothing]
      · simp only [behind, same, nothing, prepend_nil]
      · simp only [shrunk]
        split <;> split <;> omega
    · refine Or.inr ⟨{ r with rbuf := c, state }, (.ok (.read bytes.length), bytes), ?_,
        .read kept rfl ?_ ?_⟩
      · simp only [ResponseBody.tryRecvRound, on.usable, buf, run, commit, not_true_eq_false,
          if_false, Option.bind_eq_bind, Option.bind_some, gt_iff_lt]
        rw [if_neg silent, if_neg (by omega)]
        rfl
      · intro room
        have := progress room
        omega
      · simp only [ResponseBody.remaining, behind, same]
  | complete inside same =>
    obtain ⟨c, commit, valid, behind, _⟩ := commit_behind on.valid split net inside
    refine Or.inr ⟨{ r with usable := false, rbuf := c }, _, ?_, .complete rfl ?_⟩
    · simp [ResponseBody.tryRecvRound, on.usable, buf, run, commit]
    · rw [behind, same]

theorem clientTryRecv_spec :
    ∃ r' result, r.tryRecv h dest = some (r', result) ∧
      ClientOutcome h net dest (r.remaining h net) r r' result := by
  apply loop_rule (fun r => 2 * r.rbuf.len + if r.rbuf.isReadableContiguous then 0 else 1)
    (fun s => s.Receiving ∧ s.closed = r.closed ∧ s.remaining h net = r.remaining h net)
    ?_ r.tryRecvRounds ⟨on, rfl, rfl⟩ ?_ (throughout_true _ _ _)
  · intro s ⟨on, closed, same⟩ _
    rw [← same]
    rcases clientRound_spec lawful on dest net with
      ⟨s', stepped, on', closed', same', less⟩ | ⟨s', result, stepped, ends⟩
    · exact Or.inl ⟨s', stepped, ⟨on', closed'.trans closed, same'⟩, less⟩
    · refine Or.inr ⟨s', result, stepped, ?_⟩
      cases ends with
      | failed ceased why => exact .failed ceased why
      | eof ceased ended why => exact .eof ceased (closed ▸ ended) why
      | needBytes on' kept same' waits => exact .needBytes on' (kept.trans closed) same' waits
      | read on' kept progress same' => exact .read on' (kept.trans closed) progress same'
      | complete ceased same' => exact .complete ceased same'
  · unfold ResponseBody.tryRecvRounds
    split <;> omega

end

structure ClientReceiver where
  body : ResponseBody
  net : List Byte
  deriving DecidableEq, Repr

namespace ClientReceiver

def step (h : Httparse) (s : ClientReceiver) : Event → Option (ClientReceiver × Out)
  | .arrive count => do
    let (body, result) ← s.body.addToBuffer (s.net.take count)
    return (⟨body, s.net.drop count⟩, .arrived result)
  | .tryRecv dest => do
    let (body, result, bytes) ← s.body.tryRecv h dest
    return ({ s with body }, .received result bytes)

def run (h : Httparse) (s : ClientReceiver) : List Event → Option (ClientReceiver × List Out)
  | [] => some (s, [])
  | event :: events => do
    let (s, out) ← s.step h event
    let (s, outs) ← s.run h events
    return (s, out :: outs)

/-- A read returns some bytes that fit the offered slice, or none at the end of
    the stream. -/
def Possible (s : ClientReceiver) : Event → Prop
  | .arrive count => s.body.usable = true ∧ (count = 0 ∧ s.net = [] ∨
      0 < count ∧ count ≤ s.net.length ∧
        count ≤ s.body.rbuf.writeRange.2 - s.body.rbuf.writeRange.1)
  | .tryRecv _ => True

instance (s : ClientReceiver) (event : Event) : Decidable (s.Possible event) :=
  match event with
  | .arrive count => inferInstanceAs (Decidable (s.body.usable = true ∧ (count = 0 ∧ s.net = [] ∨
      0 < count ∧ count ≤ s.net.length ∧
        count ≤ s.body.rbuf.writeRange.2 - s.body.rbuf.writeRange.1)))
  | .tryRecv _ => inferInstanceAs (Decidable True)

def possibleRun (h : Httparse) (s : ClientReceiver) : List Event → Bool
  | [] => true
  | event :: events => decide (s.Possible event) &&
      match s.step h event with
      | some (s', _) => s'.possibleRun h events
      | none => true

structure On (s : ClientReceiver) : Prop where
  receiving : s.body.Receiving
  ended : s.body.closed = true → s.net = []

structure Ready (s : ClientReceiver) (stream : List Byte) : Prop where
  on : s.On
  fresh : s.body.state.chunkState = ChunkState.start
  whole : s.body.rbuf.content ++ s.net = stream

def remaining (h : Httparse) (s : ClientReceiver) : Decoded := s.body.remaining h s.net

end ClientReceiver

/-- The reports of a run over a stream that decodes to `d`: still going on with
    the rest to come, or over for the reason that `d` gives. -/
inductive ClientReports (h : Httparse) (d : Decoded) (s : ClientReceiver) : List Out → Prop where
  | during {outs : List Out} (on : s.On) (quiet : ∀ o ∈ outs, o.quiet = true)
      (left : d = (s.remaining h).prepend (delivered outs)) : ClientReports h d s outs
  | finished (before later : List Out) (ceased : s.body.usable = false)
      (quiet : ∀ o ∈ before, o.quiet = true)
      (refused : ∀ o ∈ later, o.refused = true)
      (all : d = ⟨delivered before, .finished (s.body.rbuf.content ++ s.net)⟩) :
      ClientReports h d s (before ++ .received (.ok (.complete 0)) [] :: later)
  | failed (before later : List Out) {e : Error} (ceased : s.body.usable = false)
      (quiet : ∀ o ∈ before, o.quiet = true)
      (refused : ∀ o ∈ later, o.refused = true) (why : d = ⟨delivered before, .failed e⟩) :
      ClientReports h d s (before ++ .received (.error e) [] :: later)
  | truncated (before later : List Out) (ceased : s.body.usable = false)
      (quiet : ∀ o ∈ before, o.quiet = true)
      (refused : ∀ o ∈ later, o.refused = true) (why : d = ⟨delivered before, .incomplete⟩) :
      ClientReports h d s (before ++ .received (.error (.io .unexpectedEof)) [] :: later)

variable {s : ClientReceiver}

theorem ClientReports.quiet_cons {d : Decoded} {outs : List Out}
    {o : Out} (quiet : o.quiet = true) (reports : ClientReports h d s outs) :
    ClientReports h (d.prepend o.bytes) s (o :: outs) := by
  cases reports with
  | during on all left =>
    refine .during on (List.forall_mem_cons.mpr ⟨quiet, all⟩) ?_
    rw [left, prepend_prepend]
    rfl
  | finished before later ceased all refused ends =>
    rw [ends]
    exact .finished (o :: before) later ceased (List.forall_mem_cons.mpr ⟨quiet, all⟩) refused rfl
  | failed before later ceased all refused ends =>
    rw [ends]
    exact .failed (o :: before) later ceased (List.forall_mem_cons.mpr ⟨quiet, all⟩) refused rfl
  | truncated before later ceased all refused ends =>
    rw [ends]
    exact .truncated (o :: before) later ceased (List.forall_mem_cons.mpr ⟨quiet, all⟩) refused rfl

theorem delivered_over {before later : List Out} {result : Except Error RecvStatus}
    (refused : ∀ o ∈ later, o.refused = true) :
    delivered (before ++ .received result [] :: later) = delivered before := by
  have nothing : delivered later = [] := by
    unfold delivered
    rw [List.flatten_eq_nil_iff]
    intro bytes mem
    obtain ⟨o, here, rfl⟩ := List.mem_map.mp mem
    have := refused o here
    simp only [Out.refused, decide_eq_true_eq] at this
    rw [this]
    rfl
  unfold delivered at nothing ⊢
  simp [nothing, Out.bytes]

theorem ClientReports.delivered_prefix {d : Decoded}
    {outs : List Out} (reports : ClientReports h d s outs) : delivered outs <+: d.bytes := by
  cases reports with
  | during on quiet left =>
    rw [left]
    exact List.prefix_append _ _
  | finished before later ceased quiet refused all =>
    rw [all, delivered_over refused]
  | failed before later ceased quiet refused why =>
    rw [why, delivered_over refused]
  | truncated before later ceased quiet refused why =>
    rw [why, delivered_over refused]

theorem clientArrive_spec (on : s.On) {count : Nat}
    (possible : s.Possible (.arrive count)) :
    ∃ s' result, s.step h (.arrive count) = some (s', .arrived result) ∧ s'.On ∧
      s'.remaining h = s.remaining h := by
  obtain ⟨usable, ⟨rfl, ceased⟩ | ⟨pos, inside, fits⟩⟩ := possible
  · by_cases closed : s.body.closed = true
    · refine ⟨s, .ok (), ?_, on, rfl⟩
      simp [ClientReceiver.step, ResponseBody.addToBuffer, usable, closed]
    · by_cases full : s.body.rbuf.remainingCapacity = 0
      · have same : (⟨true, false, s.body.rbuf, s.body.state⟩ : ResponseBody) = s.body := by
          rw [← usable, ← Bool.eq_false_iff.mpr closed]
        refine ⟨s, .error .bufferExceeded, ?_, on, rfl⟩
        simp [ClientReceiver.step, ResponseBody.addToBuffer, usable, closed, recvNonzero,
          full, same]
      · obtain ⟨f, rbuf, stored, committed, valid, bytes, _⟩ :=
          RingBuffer.fill_commit_spec on.receiving.valid [] 0 (by simp) (by simp)
        refine ⟨⟨{ s.body with rbuf, closed := true }, s.net⟩, .ok (), ?_,
          ⟨⟨valid, on.receiving.usable, on.receiving.chunked⟩, fun _ => ceased⟩, ?_⟩
        · simp [ClientReceiver.step, ResponseBody.addToBuffer, usable, closed, recvNonzero, full,
            stored, committed]
        · simp [ClientReceiver.remaining, ResponseBody.remaining, bytes]
  · have opened : s.body.closed = false := by
      cases closed : s.body.closed with
      | false => rfl
      | true =>
        have := on.ended closed
        rw [this] at inside
        simp only [List.length_nil] at inside
        omega
    have size : (s.net.take count).length = count := by rw [List.length_take]; omega
    obtain ⟨rbuf, run, valid, bytes⟩ :=
      recvNonzero_spec on.receiving.valid (by omega) (by omega : (s.net.take count).length ≤ _)
    refine ⟨⟨{ s.body with rbuf }, s.net.drop count⟩, .ok (), ?_,
      ⟨⟨valid, on.receiving.usable, on.receiving.chunked⟩, ?_⟩, ?_⟩
    · simp [ClientReceiver.step, ResponseBody.addToBuffer, usable, opened, run]
    · intro closed
      simp only [opened] at closed
      cases closed
    · simp only [ClientReceiver.remaining, ResponseBody.remaining, bytes, List.append_assoc,
        List.take_append_drop]

theorem client_unusable_run (events : List Event)
    (ceased : s.body.usable = false) (possible : s.possibleRun h events = true) :
    ∃ outs, s.run h events = some (s, outs) ∧ ∀ o ∈ outs, o.refused = true := by
  induction events with
  | nil => exact ⟨[], rfl, by simp⟩
  | cons event events ih =>
    simp only [ClientReceiver.possibleRun, Bool.and_eq_true, decide_eq_true_eq] at possible
    cases event with
    | arrive count =>
      have := possible.1.1
      rw [ceased] at this
      cases this
    | tryRecv dest =>
      have refused : s.step h (.tryRecv dest) = some (s, .received (.error .unusable) []) := by
        simp [ClientReceiver.step, ResponseBody.tryRecv, ResponseBody.tryRecvRounds, loop,
          ResponseBody.tryRecvRound, ceased]
      rw [refused] at possible
      obtain ⟨outs, run, all⟩ := ih possible.2
      refine ⟨.received (.error .unusable) [] :: outs, ?_, List.forall_mem_cons.mpr ⟨rfl, all⟩⟩
      simp [ClientReceiver.run, refused, run]

theorem client_run (lawful : h.Lawful) (events : List Event)
    (on : s.On) (possible : s.possibleRun h events = true) :
    ∃ s' outs, s.run h events = some (s', outs) ∧ ClientReports h (s.remaining h) s' outs := by
  induction events generalizing s with
  | nil => exact ⟨s, [], rfl, .during on (by simp) rfl⟩
  | cons event events ih =>
    simp only [ClientReceiver.possibleRun, Bool.and_eq_true, decide_eq_true_eq] at possible
    cases event with
    | arrive count =>
      obtain ⟨s₁, result, step, on₁, same⟩ := clientArrive_spec (h := h) on possible.1
      rw [step] at possible
      obtain ⟨s₂, outs, run, reports⟩ := ih on₁ possible.2
      rw [same] at reports
      exact ⟨s₂, .arrived result :: outs, by simp [ClientReceiver.run, step, run],
        reports.quiet_cons (o := .arrived result) rfl⟩
    | tryRecv dest =>
      obtain ⟨body, ⟨result, bytes⟩, call, outcome⟩ :=
        clientTryRecv_spec lawful on.receiving dest s.net
      have step : s.step h (.tryRecv dest) = some (⟨body, s.net⟩, .received result bytes) := by
        simp [ClientReceiver.step, call]
      rw [step] at possible
      have ceased : ∀ ceased : body.usable = false, ∃ outs,
          s.run h (.tryRecv dest :: events) =
            some (⟨body, s.net⟩, .received result bytes :: outs) ∧
              ∀ o ∈ outs, o.refused = true := by
        intro ceased
        obtain ⟨outs, run, refused⟩ :=
          client_unusable_run (s := ⟨body, s.net⟩) events ceased possible.2
        exact ⟨outs, by simp [ClientReceiver.run, step, run], refused⟩
      unfold ClientReceiver.remaining
      cases outcome with
      | failed gone why =>
        obtain ⟨outs, run, refused⟩ := ceased gone
        rw [why]
        exact ⟨_, _, run, .failed [] outs gone (by simp) refused rfl⟩
      | eof gone closed why =>
        obtain ⟨outs, run, refused⟩ := ceased gone
        rw [why (on.ended closed)]
        exact ⟨_, _, run, .truncated [] outs gone (by simp) refused rfl⟩
      | complete gone same =>
        obtain ⟨outs, run, refused⟩ := ceased gone
        rw [same]
        exact ⟨_, _, run, .finished [] outs gone (by simp) refused rfl⟩
      | needBytes on₁ kept same waits =>
        obtain ⟨s₂, outs, run, reports⟩ :=
          ih (s := ⟨body, s.net⟩) ⟨on₁, fun closed => on.ended (kept ▸ closed)⟩ possible.2
        refine ⟨s₂, .received (.ok .needBytes)
          [] :: outs, by simp [ClientReceiver.run, step, run], ?_⟩
        rw [← same]
        exact reports.quiet_cons (o := .received (.ok .needBytes) []) rfl
      | read on₁ kept progress same =>
        obtain ⟨s₂, outs, run, reports⟩ :=
          ih (s := ⟨body, s.net⟩) ⟨on₁, fun closed => on.ended (kept ▸ closed)⟩ possible.2
        refine ⟨s₂, .received (.ok (.read bytes.length)) bytes :: outs,
          by simp [ClientReceiver.run, step, run], ?_⟩
        rw [same]
        exact reports.quiet_cons (o := .received (.ok (.read bytes.length)) bytes) rfl

def serverDrain (h : Httparse) (stream : List Byte) (dest : Nat) :
    Nat → ServerProtocol → Nat → Option Decoded
  | 0, _, _ => none
  | rounds + 1, p, position =>
    match p.recvBody h stream position dest headersMax with
    | none => none
    | some (_, _, .error e) => some ⟨[], .failed e⟩
    | some (_, _, .ok none) => some ⟨[], .incomplete⟩
    | some (p, position, .ok (some (bytes, _))) =>
      if p.state = .awaitingResponse then some ⟨bytes, .finished (stream.drop position)⟩
      else (serverDrain h stream dest rounds p position).map (Decoded.prepend bytes)

def clientDrain (h : Httparse) (dest : Nat) : Nat → ClientState → List Byte → Option Decoded
  | 0, _, _ => none
  | rounds + 1, state, src =>
    match state.recv h src dest headersMax false with
    | none => none
    | some (.error e) => some ⟨[], .failed e⟩
    | some (.ok (.needBytes _)) => some ⟨[], .incomplete⟩
    | some (.ok (.complete _ read bytes)) => some ⟨bytes, .finished (src.drop read)⟩
    | some (.ok (.read state read bytes)) =>
      (clientDrain h dest rounds state (src.drop read)).map (Decoded.prepend bytes)

theorem serverDrain_eq (lawful : h.Lawful) {stream : List Byte} {dest : Nat}
    (room : 0 < dest) (rounds : Nat) {p : ServerProtocol} {position : Nat}
    (on : p.state = .receivingBody) (size : p.bodySize = .unknown)
    (inside : position ≤ stream.length)
    (enough : stream.length - position < rounds) :
    serverDrain h stream dest rounds p position =
      some (decode h p.chunkState (stream.drop position)) := by
  induction rounds generalizing p position with
  | zero => omega
  | succ rounds ih =>
    obtain ⟨p', read, result, run, short, size', answers, _⟩ :=
      recvBody_answers lawful on size inside dest
    rw [List.length_drop] at short
    have whole : stream.drop position = stream.drop position ++ [] := (List.append_nil _).symm
    simp only [serverDrain, run]
    rw [whole]
    cases answers with
    | failed why => rw [why]
    | need waits still same =>
      rw [same, List.append_nil, decode_of_need waits]
    | content still fits progress shorter same =>
      have := progress room
      simp only
      rw [same, List.append_nil, if_neg (by rw [still]; decide),
        ih still size' (by omega) (by omega), List.drop_drop]
      rfl
    | finished ceased same =>
      simp only
      rw [same, List.append_nil, if_pos ceased, List.drop_drop]

theorem clientDrain_eq (lawful : h.Lawful) {dest : Nat} (room : 0 < dest)
    (rounds : Nat) {state : ClientState} {src : List Byte} (chunked : state.Chunked)
    (enough : src.length < rounds) :
    clientDrain h dest rounds state src = some (decode h state.chunkState src) := by
  induction rounds generalizing state src with
  | zero => omega
  | succ rounds ih =>
    obtain ⟨result, run, answers⟩ := recv_answers lawful chunked src dest false
    have whole : src = src ++ [] := (List.append_nil _).symm
    simp only [clientDrain, run]
    cases answers with
    | failed why =>
      have := why []
      rw [← whole] at this
      rw [this]
    | eof absurd why => cases absurd
    | needBytes still same waits opened => rw [decode_of_need waits]
    | read still inside progress shorter same =>
      have := progress room
      have here := same []
      rw [← whole] at here
      simp only
      rw [here, ih still (by rw [List.length_drop]; omega)]
      rfl
    | complete inside same =>
      have here := same []
      rw [← whole] at here
      rw [here]

def ServerProtocol.receivingChunks : ServerProtocol :=
  ⟨.receivingBody, .unknown, none, 0, true, false, none⟩

def ClientState.receivingChunks : ClientState := ⟨.unknown, none, 0, true, true, none⟩

/-- For every stream, every split of it into reads and every sequence of calls:
    what the client delivers, and where and why it stops, is what decoding the
    stream in one contiguous read gives, and what the server's decoder gives. -/
theorem response_body_is_segmentation_independent (h : Httparse) (lawful : h.Lawful)
    (stream : List Byte) (s : ClientReceiver) (ready : s.Ready stream) (events : List Event)
    (possible : s.possibleRun h events = true) (clientDest serverDest : Nat)
    (clientRoom : 0 < clientDest) (serverRoom : 0 < serverDest) :
    ∃ s' outs d, s.run h events = some (s', outs) ∧
      clientDrain h clientDest (stream.length + 1) .receivingChunks stream = some d ∧
      serverDrain h stream serverDest (stream.length + 1) .receivingChunks 0 = some d ∧
      delivered outs <+: d.bytes ∧ ClientReports h d s' outs ∧
      (s'.body.usable = true → s'.net = [] → ∀ dest, 0 < dest →
        ∃ body result bytes, s'.body.tryRecv h dest = some (body, result, bytes) ∧
          (result = .ok .needBytes → d = ⟨delivered outs, .incomplete⟩) ∧
          (∀ count, result = .ok (.read count) → 0 < count ∧ count = bytes.length)) := by
  have start : s.remaining h = decode h ChunkState.start stream := by
    rw [ClientReceiver.remaining, ResponseBody.remaining, ready.fresh, ready.whole]
  obtain ⟨s', outs, run, reports⟩ := client_run lawful events ready.on possible
  rw [start] at reports
  refine ⟨s', outs, decode h ChunkState.start stream, run, ?_, ?_, ?_, reports, ?_⟩
  · exact clientDrain_eq lawful clientRoom _ ⟨rfl, rfl⟩ (Nat.lt_succ_self _)
  · exact serverDrain_eq lawful serverRoom _ rfl rfl (Nat.zero_le _) (by omega)
  · exact reports.delivered_prefix
  · intro usable arrived dest room
    have running : s'.On ∧
        decode h ChunkState.start stream = (s'.remaining h).prepend (delivered outs) := by
      cases reports with
      | during on quiet left => exact ⟨on, left⟩
      | finished before later ceased quiet refused all => rw [ceased] at usable; cases usable
      | failed before later ceased quiet refused why => rw [ceased] at usable; cases usable
      | truncated before later ceased quiet refused why => rw [ceased] at usable; cases usable
    obtain ⟨on, left⟩ := running
    obtain ⟨body, ⟨result, bytes⟩, call, outcome⟩ :=
      clientTryRecv_spec lawful on.receiving dest s'.net
    refine ⟨body, result, bytes, call, ?_, ?_⟩
    · intro waiting
      rw [waiting] at outcome
      cases outcome with
      | needBytes on kept same waits =>
        rw [left, ClientReceiver.remaining, ← same, ResponseBody.remaining, arrived,
          List.append_nil, decode_of_need waits]
        simp [Decoded.prepend]
    · intro count brought
      rw [brought] at outcome
      cases outcome with
      | read on kept progress same => exact ⟨progress room, rfl⟩

def ClientReceiver.fresh (capacity : Nat) (net : List Byte) : ClientReceiver :=
  ⟨⟨true, false, ⟨List.replicate capacity 0, 0, 0, List.replicate capacity 0⟩, .receivingChunks⟩,
    net⟩

theorem ClientReceiver.fresh_ready (capacity : Nat) (net : List Byte) :
    (ClientReceiver.fresh capacity net).Ready net := by
  refine ⟨⟨⟨⟨by simp [fresh], by simp [fresh], Or.inl rfl, by simp [fresh]⟩, rfl, rfl, rfl⟩, ?_⟩,
    rfl, ?_⟩
  · intro closed
    cases closed
  · simp [fresh, RingBuffer.content, Slices.slice]

theorem hello_response_is_received :
    ∃ s' outs d, (ClientReceiver.fresh 9 helloWire).run scanners [.arrive 3, .tryRecv 8, .arrive 6,
        .tryRecv 3, .tryRecv 3, .arrive 3, .tryRecv 3, .arrive 2, .tryRecv 1, .arrive 1, .tryRecv 1,
        .tryRecv 1] = some (s', outs) ∧
      clientDrain scanners 4 16 .receivingChunks helloWire = some d ∧
      serverDrain scanners helloWire 2 16 .receivingChunks 0 = some d ∧
        delivered outs <+: d.bytes := by
  obtain ⟨s', outs, d, run, client, server, bytes, _⟩ :=
    response_body_is_segmentation_independent scanners scanners_lawful helloWire
      (ClientReceiver.fresh 9 helloWire) (ClientReceiver.fresh_ready 9 helloWire)
      [.arrive 3, .tryRecv 8, .arrive 6, .tryRecv 3, .tryRecv 3, .arrive 3, .tryRecv 3, .arrive 2,
        .tryRecv 1, .arrive 1, .tryRecv 1, .tryRecv 1] (by decide +kernel) 4 2 (by decide)
          (by decide)
  exact ⟨s', outs, d, run, client, server, bytes⟩

end PushpinHttp
