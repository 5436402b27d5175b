import Mathlib.Algebra.Order.Ring.Nat
import Mathlib.Data.List.Basic

/-!
Slices of finite sequences with checked bounds. A checked operation answers
`none` exactly where an indexing expression of a systems language would fail,
so a later `some` result certifies that every index was in range.
-/
namespace Slices
variable {α : Type}

def slice (xs : List α) (lo hi : Nat) : List α := (xs.take hi).drop lo

def overlay (xs : List α) (pos : Nat) (ys : List α) : List α :=
  xs.take pos ++ ys ++ xs.drop (pos + ys.length)

def slice? (xs : List α) (lo hi : Nat) : Option (List α) :=
  if lo ≤ hi ∧ hi ≤ xs.length then some (slice xs lo hi) else none

def copyFromSlice? (xs : List α) (lo hi : Nat) (src : List α) : Option (List α) :=
  if lo ≤ hi ∧ hi ≤ xs.length ∧ src.length = hi - lo then some (overlay xs lo src) else none

/-- Copy the range `lo..hi` to `dest`, as if through a temporary copy. -/
def copyWithin? (xs : List α) (lo hi dest : Nat) : Option (List α) :=
  if lo ≤ hi ∧ hi ≤ xs.length ∧ dest + (hi - lo) ≤ xs.length then
    some (overlay xs dest (slice xs lo hi))
  else none

theorem slice_length (xs : List α) (lo hi : Nat) :
    (slice xs lo hi).length = min hi xs.length - lo := by
  simp [slice]

theorem slice_getElem? (xs : List α) (lo hi i : Nat) :
    (slice xs lo hi)[i]? = if lo + i < hi then xs[lo + i]? else none := by
  simp only [slice, List.getElem?_drop, List.getElem?_take]

section
variable (xs : List α) (pos : Nat) (ys : List α) (fits : pos + ys.length ≤ xs.length)
include xs pos ys fits

theorem overlay_length : (overlay xs pos ys).length = xs.length := by
  simp [overlay]
  omega

theorem overlay_getElem? (i : Nat) :
    (overlay xs pos ys)[i]? =
      if i < pos then xs[i]? else if i < pos + ys.length then ys[i - pos]? else xs[i]? := by
  have front : (xs.take pos).length = pos := by simp; omega
  simp only [overlay, List.getElem?_append, List.length_append, front, List.getElem?_take,
    List.getElem?_drop]
  split
  · split
    · rfl
    · rfl
  · have past : ¬ i < pos := by omega
    simp only [past, ↓reduceIte]
    congr 1
    omega

theorem slice_self_overlay : slice (overlay xs pos ys) pos (pos + ys.length) = ys := by
  apply List.ext_getElem?
  intro i
  rw [slice_getElem?, overlay_getElem? xs pos ys fits]
  split
  · have past : ¬ pos + i < pos := by omega
    simp only [past, ↓reduceIte]
    congr 1
    omega
  · symm
    apply List.getElem?_eq_none
    omega

end

theorem slice?_eq (xs : List α) (lo hi : Nat) (ordered : lo ≤ hi) (inside : hi ≤ xs.length) :
    slice? xs lo hi = some (slice xs lo hi) := by
  simp [slice?, ordered, inside]

theorem copyFromSlice?_eq (xs : List α) (lo hi : Nat) (src : List α) (ordered : lo ≤ hi)
    (inside : hi ≤ xs.length) (size : src.length = hi - lo) :
    copyFromSlice? xs lo hi src = some (overlay xs lo src) := by
  simp [copyFromSlice?, ordered, inside, size]

theorem copyWithin?_eq (xs : List α) (lo hi dest : Nat) (ordered : lo ≤ hi)
    (inside : hi ≤ xs.length) (fits : dest + (hi - lo) ≤ xs.length) :
    copyWithin? xs lo hi dest = some (overlay xs dest (slice xs lo hi)) := by
  simp [copyWithin?, ordered, inside, fits]

variable {xs ys src : List α} {lo hi dest : Nat}

theorem copyFromSlice?_length (copied : copyFromSlice? xs lo hi src = some ys) :
    ys.length = xs.length := by
  obtain ⟨fits, same⟩ := Option.ite_none_right_eq_some.mp copied
  rw [← Option.some.inj same]
  exact overlay_length xs lo src (by omega)

theorem copyWithin?_length (copied : copyWithin? xs lo hi dest = some ys) :
    ys.length = xs.length := by
  obtain ⟨fits, same⟩ := Option.ite_none_right_eq_some.mp copied
  rw [← Option.some.inj same]
  exact overlay_length xs dest _ (by rw [slice_length]; omega)

end Slices
