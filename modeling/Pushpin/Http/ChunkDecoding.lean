import Mathlib.Tactic.SplitIfs
import Pushpin.Http.State

namespace PushpinHttp
open PushpinRingBuffer Scanning

structure ChunkState where
  left : Option Nat
  size : Nat
  deriving DecidableEq, Repr

def ChunkState.start : ChunkState := ⟨none, 0⟩

inductive Next where
  | need
  | fail (e : Error)
  | skip (count : Nat) (st : ChunkState)
  | data (count : Nat) (st : ChunkState)
  | finish (count : Nat) (headers : Headers)
  deriving DecidableEq, Repr

def next (h : Httparse) (st : ChunkState) (s : List Byte) : Next :=
  match st.left with
  | none =>
    match h.parseChunkSize s with
    | .incomplete => .need
    | .error _ => .fail .invalidChunkSize
    | .complete pos size =>
      if size < 2 ^ 32 then .skip pos ⟨some size, size⟩ else .fail .chunkTooLarge
  | some 0 =>
    if st.size = 0 then
      match h.parseHeaders headersMax s with
      | .incomplete => .need
      | .error e => .fail (.parse e)
      | .complete pos headers => .finish pos headers
    else if s.length < 2 then .need
    else if s.take 2 = crlf then .skip 2 ChunkState.start
    else .fail .invalidChunkSuffix
  | some (left + 1) =>
    if s = [] then .need
    else .data (min (left + 1) s.length) ⟨some (left + 1 - min (left + 1) s.length), st.size⟩

inductive Ending where
  | finished (rest : List Byte)
  | incomplete
  | failed (e : Error)
  deriving DecidableEq, Repr

structure Decoded where
  bytes : List Byte
  ending : Ending
  deriving DecidableEq, Repr

def Decoded.prepend (bytes : List Byte) (d : Decoded) : Decoded :=
  { d with bytes := bytes ++ d.bytes }

@[simp] theorem prepend_nil (d : Decoded) : d.prepend [] = d := rfl

@[simp] theorem prepend_prepend (a b : List Byte) (d : Decoded) :
    (d.prepend b).prepend a = d.prepend (a ++ b) := by
  simp [Decoded.prepend]

@[grind =]
def decodeFrom (h : Httparse) : Nat → ChunkState → List Byte → Decoded
  | 0, _, _ => ⟨[], .incomplete⟩
  | rounds + 1, st, s =>
    match next h st s with
    | .need => ⟨[], .incomplete⟩
    | .fail e => ⟨[], .failed e⟩
    | .skip count st => decodeFrom h rounds st (s.drop count)
    | .data count st => (decodeFrom h rounds st (s.drop count)).prepend (s.take count)
    | .finish count _ => ⟨[], .finished (s.drop count)⟩

/-- Every decision consumes a byte, so this many rounds reach the end. -/
def decode (h : Httparse) (st : ChunkState) (s : List Byte) : Decoded :=
  decodeFrom h (s.length + 1) st s

section
variable {h : Httparse} (lawful : h.Lawful)
include lawful

variable {st st' : ChunkState} {s : List Byte} {count : Nat}

theorem next_skip
    (decided : next h st s = .skip count st') :
    0 < count ∧ count ≤ s.length ∧ ∀ more, next h st (s ++ more) = .skip count st' := by
  obtain ⟨left, size⟩ := st
  unfold next at decided
  cases left with
  | none =>
    simp only at decided
    split at decided
    · cases decided
    · cases decided
    · rename_i pos value found
      have bounds := lawful.chunkSize.consumes found
      split at decided
      · rename_i small
        cases decided
        refine ⟨bounds.1, bounds.2, ?_⟩
        intro more
        simp only [next, lawful.chunkSize.completes found more, if_pos small]
      · cases decided
  | some left =>
    cases left with
    | succ left =>
      simp only at decided
      split at decided <;> cases decided
    | zero =>
      simp only at decided
      split at decided
      · split at decided <;> cases decided
      · rename_i nonzero
        split at decided
        · cases decided
        · rename_i long
          split at decided
          · rename_i same
            cases decided
            refine ⟨by decide, by omega, ?_⟩
            intro more
            have taken : (s ++ more).take 2 = crlf := by
              rw [List.take_append_of_le_length (by omega), same]
            simp only [next, if_neg nonzero, List.length_append, taken, if_true]
            rw [if_neg (by omega)]
          · cases decided

theorem next_fail {e : Error} (decided : next h st s = .fail e) :
    ∀ more, next h st (s ++ more) = .fail e := by
  intro more
  obtain ⟨left, size⟩ := st
  unfold next at decided ⊢
  cases left with
  | none =>
    simp only at decided ⊢
    split at decided
    · cases decided
    · rename_i found
      rw [lawful.chunkSize.fails found more]
      exact decided
    · rename_i pos value found
      rw [lawful.chunkSize.completes found more]
      exact decided
  | some left =>
    cases left with
    | succ left =>
      simp only at decided
      split at decided <;> cases decided
    | zero =>
      simp only at decided ⊢
      split at decided
      · rename_i zero
        rw [if_pos zero]
        split at decided
        · cases decided
        · rename_i found
          rw [(lawful.headers _).fails found more]
          exact decided
        · cases decided
      · rename_i nonzero
        rw [if_neg nonzero]
        split at decided
        · cases decided
        · rename_i long
          split at decided
          · cases decided
          · rename_i other
            have taken : (s ++ more).take 2 = s.take 2 := List.take_append_of_le_length (by omega)
            rw [if_neg (by simp only [List.length_append]; omega), taken, if_neg other]
            exact decided

theorem next_finish {headers : Headers}
    (decided : next h st s = .finish count headers) :
    0 < count ∧ count ≤ s.length ∧ ∀ more, next h st (s ++ more) = .finish count headers := by
  obtain ⟨left, size⟩ := st
  unfold next at decided
  cases left with
  | none =>
    simp only at decided
    split at decided
    · cases decided
    · cases decided
    · split at decided <;> cases decided
  | some left =>
    cases left with
    | succ left =>
      simp only at decided
      split at decided <;> cases decided
    | zero =>
      simp only at decided
      split at decided
      · rename_i zero
        split at decided
        · cases decided
        · cases decided
        · rename_i pos value found
          cases decided
          have bounds := (lawful.headers _).consumes found
          refine ⟨bounds.1, bounds.2, ?_⟩
          intro more
          simp only [next, if_pos zero, (lawful.headers _).completes found more]
      · split at decided
        · cases decided
        · split at decided <;> cases decided

omit lawful in
theorem next_data
    (decided : next h st s = .data count st') :
    ∃ left, st.left = some (left + 1) ∧ s ≠ [] ∧ count = min (left + 1) s.length ∧
      st' = ⟨some (left + 1 - count), st.size⟩ := by
  obtain ⟨left, size⟩ := st
  unfold next at decided
  cases left with
  | none =>
    simp only at decided
    split at decided
    · cases decided
    · cases decided
    · split at decided <;> cases decided
  | some left =>
    cases left with
    | succ left =>
      simp only at decided
      split at decided
      · cases decided
      · rename_i filled
        cases decided
        exact ⟨left, rfl, filled, rfl, rfl⟩
    | zero =>
      simp only at decided
      split at decided
      · split at decided <;> cases decided
      · split at decided
        · cases decided
        · split at decided <;> cases decided

theorem decodeFrom_enough (rounds : Nat)
    (enough : s.length < rounds) : decodeFrom h rounds st s = decode h st s := by
  induction rounds using Nat.strongRecOn generalizing st s with
  | ind rounds ih =>
    obtain ⟨rounds, rfl⟩ : ∃ r, rounds = r + 1 := ⟨rounds - 1, by omega⟩
    unfold decode
    simp only [decodeFrom]
    cases decided : next h st s with
    | need => rfl
    | fail e => rfl
    | finish count headers => rfl
    | skip count st' =>
      obtain ⟨pos, inside, _⟩ := next_skip lawful decided
      have short : (s.drop count).length < s.length := by rw [List.length_drop]; omega
      simp only
      rw [ih rounds (by omega) (by omega), ih s.length (by omega) short]
    | data count st' =>
      obtain ⟨left, _, filled, eq, _⟩ := next_data decided
      have := List.length_pos_iff.mpr filled
      have short : (s.drop count).length < s.length := by rw [List.length_drop]; omega
      simp only
      rw [ih rounds (by omega) (by omega), ih s.length (by omega) short]

theorem decode_of_skip
    (decided : next h st s = .skip count st') (more : List Byte) :
    decode h st (s ++ more) = decode h st' ((s ++ more).drop count) := by
  obtain ⟨pos, inside, stable⟩ := next_skip lawful decided
  have short : ((s ++ more).drop count).length < (s ++ more).length := by
    rw [List.length_drop, List.length_append]; omega
  rw [← decodeFrom_enough lawful _ short, decode]
  simp only [decodeFrom, stable more]

theorem decode_of_fail {e : Error}
    (decided : next h st s = .fail e) (more : List Byte) :
    decode h st (s ++ more) = ⟨[], .failed e⟩ := by
  simp only [decode, decodeFrom, next_fail lawful decided more]

theorem decode_of_finish {headers : Headers}
    (decided : next h st s = .finish count headers) (more : List Byte) :
    decode h st (s ++ more) = ⟨[], .finished ((s ++ more).drop count)⟩ := by
  simp only [decode, decodeFrom, (next_finish lawful decided).2.2 more]

omit lawful in
theorem decode_of_need (decided : next h st s = .need) : decode h st s = ⟨[], .incomplete⟩ := by
  simp only [decode, decodeFrom, decided]

theorem decode_of_data
    (decided : next h st s = .data count st') :
    decode h st s = (decode h st' (s.drop count)).prepend (s.take count) := by
  obtain ⟨left, _, filled, eq, _⟩ := next_data decided
  have := List.length_pos_iff.mpr filled
  have short : (s.drop count).length < s.length := by rw [List.length_drop]; omega
  rw [← decodeFrom_enough lawful _ short, decode]
  simp only [decodeFrom, decided]

theorem decode_take {left size : Nat} (inside : count ≤ left)
    (short : count ≤ s.length) :
    decode h ⟨some left, size⟩ s =
      (decode h ⟨some (left - count), size⟩ (s.drop count)).prepend (s.take count) := by
  rcases Nat.eq_zero_or_pos count with rfl | pos
  · simp
  · obtain ⟨left, rfl⟩ : ∃ l, left = l + 1 := ⟨left - 1, by omega⟩
    have filled : s ≠ [] := List.length_pos_iff.mp (by omega)
    have whole : next h ⟨some (left + 1), size⟩ s =
        .data (min (left + 1) s.length) ⟨some (left + 1 - min (left + 1) s.length), size⟩ := by
      simp only [next, if_neg filled]
    rw [decode_of_data lawful whole]
    by_cases all : count = min (left + 1) s.length
    · rw [all]
    · -- both sides go on to the same end of the available content
      obtain ⟨rest, gap⟩ : ∃ r, left + 1 - count = r + 1 := ⟨left - count, by omega⟩
      have more : s.drop count ≠ [] := List.length_pos_iff.mp (by rw [List.length_drop]; omega)
      have tail : next h ⟨some (left + 1 - count), size⟩ (s.drop count) =
          .data (min (left + 1) s.length - count)
            ⟨some (left + 1 - min (left + 1) s.length), size⟩ := by
        rw [gap]
        simp only [next, if_neg more, List.length_drop, Next.data.injEq, ChunkState.mk.injEq,
          Option.some.injEq, and_true]
        omega
      rw [decode_of_data lawful tail, prepend_prepend, List.drop_drop]
      have sum : count + (min (left + 1) s.length - count) = min (left + 1) s.length := by omega
      rw [sum]
      congr 1
      conv => lhs; rw [← sum, List.take_add]

end

/-- A well-formed chunked body: chunks, each with its size line and its CRLF,
    then the zero-size line and the trailers. -/
inductive Encodes (h : Httparse) : List Byte → List Byte → Prop where
  | last (line trailers : List Byte) (headers : Headers)
      (zero : h.parseChunkSize line = .complete line.length 0)
      (ends : h.parseHeaders headersMax trailers = .complete trailers.length headers) :
      Encodes h (line ++ trailers) []
  | chunk (line data : List Byte) {wire body : List Byte}
      (size : h.parseChunkSize line = .complete line.length data.length)
      (filled : 0 < data.length) (small : data.length < 2 ^ 32) (rest : Encodes h wire body) :
      Encodes h (line ++ (data ++ (crlf ++ wire))) (data ++ body)

theorem encodes_decode {h : Httparse} (lawful : h.Lawful) {wire body : List Byte}
    (enc : Encodes h wire body) (rest : List Byte) :
    decode h ChunkState.start (wire ++ rest) = ⟨body, .finished rest⟩ := by
  induction enc with
  | last line trailers headers zero ends =>
    have first : next h ChunkState.start line = .skip line.length ⟨some 0, 0⟩ := by
      simp [next, ChunkState.start, zero]
    have second : next h ⟨some 0, 0⟩ trailers = .finish trailers.length headers := by
      simp [next, ends]
    rw [List.append_assoc, decode_of_skip lawful first, List.drop_left,
      decode_of_finish lawful second, List.drop_left]
  | @chunk line data wire body size filled small more ih =>
    have first :
        next h ChunkState.start line = .skip line.length ⟨some data.length, data.length⟩ := by
      simp only [next, ChunkState.start, size, small, if_true]
    have last : next h ⟨some 0, data.length⟩ crlf = .skip 2 ChunkState.start := by
      simp [next, Nat.ne_of_gt filled, crlf]
    simp only [List.append_assoc]
    rw [decode_of_skip lawful first, List.drop_left,
      decode_take lawful (Nat.le_refl data.length) (by simp), Nat.sub_self,
      List.drop_left, List.take_left, decode_of_skip lawful last]
    have after : (crlf ++ (wire ++ rest)).drop 2 = wire ++ rest := rfl
    rw [after, ih]
    rfl

end PushpinHttp
