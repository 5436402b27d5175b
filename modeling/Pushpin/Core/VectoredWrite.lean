import Pushpin.Core.RingBuffer

/-!
Writing several buffers to a transport, and the limiting of buffer lists, from
`core/buffer.rs`. A writer answers each of its calls from a schedule: it takes
some of the offered bytes or fails. Once the schedule is used up it blocks.
-/
namespace PushpinVectored
open PushpinRingBuffer

inductive Response where
  | accept (count : Nat)
  | fail (kind : ErrorKind)
  deriving DecidableEq, Repr

structure Writer where
  wire : List Byte
  schedule : List Response
  deriving DecidableEq, Repr

def Writer.writeVectored (w : Writer) (bufs : List (List Byte)) : Writer × Except ErrorKind Nat :=
  match w.schedule with
  | [] => (w, .error .wouldBlock)
  | .fail kind :: schedule => ({ w with schedule }, .error kind)
  | .accept count :: schedule =>
    (⟨w.wire ++ bufs.flatten.take count, schedule⟩, .ok (min count bufs.flatten.length))

/-- The loop of `write_vectored_offset` that passes over the buffers before the
    offset. `none` is the return of zero at the exact end. -/
def passOver : List (List Byte) → Nat → Except ErrorKind (Option (List (List Byte)))
  | [], _ => .ok none
  | [buf], offset =>
    if offset ≥ buf.length then
      if offset > buf.length then .error .invalidInput else .ok none
    else .ok (some [buf.drop offset])
  | buf :: bufs, offset =>
    if offset ≥ buf.length then passOver bufs (offset - buf.length)
    else .ok (some (buf.drop offset :: bufs))

def writeVectoredOffset (w : Writer) (bufs : List (List Byte)) (offset : Nat) :
    Writer × Except ErrorKind Nat :=
  match passOver bufs offset with
  | .error kind => (w, .error kind)
  | .ok none => (w, .ok 0)
  | .ok (some bufs) => w.writeVectored bufs

def capBufs (bufs : List (List Byte)) (max : Nat) : List (List Byte) × Bool :=
  if bufs.length > max then (bufs.take max, true) else (bufs, false)

def limit : List (List Byte) → Nat → List (List Byte)
  | [], _ => []
  | buf :: bufs, want =>
    if buf.length ≥ want then [buf.take want] else buf :: limit bufs (want - buf.length)

section
variable (bufs : List (List Byte))
include bufs

theorem limit_flatten (want : Nat) : (limit bufs want).flatten = bufs.flatten.take want := by
  induction bufs generalizing want with
  | nil => simp [limit]
  | cons buf bufs ih =>
    simp only [limit]
    split
    · rename_i enough
      simp [List.take_append, Nat.sub_eq_zero_of_le enough]
    · rename_i short
      rw [List.flatten_cons, List.flatten_cons, ih, List.take_append,
        List.take_of_length_le (by omega : buf.length ≤ want)]

theorem capBufs_flatten (max : Nat) :
    (capBufs bufs max).1.flatten <+: bufs.flatten ∧
      ((capBufs bufs max).2 = false → (capBufs bufs max).1 = bufs) := by
  unfold capBufs
  split
  · constructor
    · refine ⟨(bufs.drop max).flatten, ?_⟩
      rw [← List.flatten_append, List.take_append_drop]
    · intro absurd
      cases absurd
  · exact ⟨List.prefix_refl _, fun _ => rfl⟩

theorem capBufs_length (max : Nat) : (capBufs bufs max).1.length ≤ max := by
  unfold capBufs
  split
  · rw [List.length_take]
    exact Nat.min_le_left _ _
  · rename_i few
    exact Nat.le_of_not_gt few

theorem passOver_inside {offset : Nat}
    (inside : offset < bufs.flatten.length) :
    ∃ rest, passOver bufs offset = .ok (some rest) ∧ rest.flatten = bufs.flatten.drop offset := by
  induction bufs generalizing offset with
  | nil => simp at inside
  | cons buf bufs ih =>
    rw [List.flatten_cons, List.length_append] at inside
    cases bufs with
    | nil =>
      simp only [List.flatten_nil, List.length_nil, Nat.add_zero] at inside
      refine ⟨[buf.drop offset], ?_, by simp⟩
      simp only [passOver, ge_iff_le, if_neg (Nat.not_le.mpr inside)]
    | cons next bufs =>
      by_cases past : buf.length ≤ offset
      · obtain ⟨rest, passed, bytes⟩ :=
          ih (by omega : offset - buf.length < (next :: bufs).flatten.length)
        refine ⟨rest, ?_, ?_⟩
        · simp only [passOver, ge_iff_le, if_pos past]
          exact passed
        · rw [bytes, List.flatten_cons (l := buf), List.drop_append, List.drop_eq_nil_of_le past,
            List.nil_append]
      · refine ⟨buf.drop offset :: next :: bufs, ?_, ?_⟩
        · simp only [passOver, ge_iff_le, if_neg past]
        · rw [List.flatten_cons, List.flatten_cons (l := buf),
            List.drop_append_of_le_length (by omega)]

theorem passOver_outside {offset : Nat}
    (outside : bufs.flatten.length ≤ offset) :
    passOver bufs offset =
      if bufs ≠ [] ∧ bufs.flatten.length < offset then .error .invalidInput else .ok none := by
  induction bufs generalizing offset with
  | nil => rfl
  | cons buf bufs ih =>
    rw [List.flatten_cons, List.length_append] at outside ⊢
    have past : buf.length ≤ offset := by omega
    cases bufs with
    | nil => simp [passOver, past]
    | cons next bufs =>
      simp only [passOver, ge_iff_le, if_pos past]
      rw [ih (by omega : (next :: bufs).flatten.length ≤ offset - buf.length)]
      simp only [ne_eq, reduceCtorEq, not_false_eq_true, true_and, Nat.lt_sub_iff_add_lt']

end

section
variable (w : Writer) (bufs : List (List Byte))
include w bufs

/-- Only the bytes offered count, not how they are cut into buffers. -/
theorem writeVectored_flatten : w.writeVectored bufs = w.writeVectored [bufs.flatten] := by
  unfold Writer.writeVectored
  simp only [List.flatten_cons, List.flatten_nil, List.append_nil]

theorem writeVectoredOffset_inside {offset : Nat}
    (inside : offset < bufs.flatten.length) :
    writeVectoredOffset w bufs offset = w.writeVectored [bufs.flatten.drop offset] := by
  obtain ⟨rest, passed, bytes⟩ := passOver_inside bufs inside
  unfold writeVectoredOffset
  rw [passed]
  simp only
  rw [writeVectored_flatten, bytes]

theorem writeVectoredOffset_outside {offset : Nat}
    (outside : bufs.flatten.length ≤ offset) :
    writeVectoredOffset w bufs offset = (w, .ok 0) ∨
      ∃ kind, writeVectoredOffset w bufs offset = (w, .error kind) := by
  unfold writeVectoredOffset
  rw [passOver_outside bufs outside]
  by_cases beyond : bufs ≠ [] ∧ bufs.flatten.length < offset
  · rw [if_pos beyond]
    exact Or.inr ⟨_, rfl⟩
  · rw [if_neg beyond]
    exact Or.inl rfl

end

theorem writeVectored_cases (w : Writer) (bytes : List Byte) :
    (∃ kind schedule, (∀ count rest, w.schedule ≠ .accept count :: rest) ∧
      w.writeVectored [bytes] = (⟨w.wire, schedule⟩, .error kind)) ∨
    ∃ count rest, w.schedule = .accept count :: rest ∧
      w.writeVectored [bytes] =
        (⟨w.wire ++ bytes.take count, rest⟩, .ok (min count bytes.length)) := by
  unfold Writer.writeVectored
  cases planned : w.schedule with
  | nil =>
    left
    refine ⟨.wouldBlock, w.schedule, ?_, rfl⟩
    intro count rest absurd
    cases absurd
  | cons response schedule =>
    cases response with
    | fail kind =>
      left
      refine ⟨kind, schedule, ?_, rfl⟩
      intro count rest absurd
      cases absurd
    | accept count =>
      right
      refine ⟨count, schedule, rfl, ?_⟩
      simp only [List.flatten_cons, List.flatten_nil, List.append_nil]

end PushpinVectored
