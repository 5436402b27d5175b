import Mathlib.Algebra.Order.Ring.Nat

/-!
A 64-bit word as a set of residues modulo 64. Rotations become shifts of the
residue, a run of ones becomes an interval, and the number of trailing zeros is
the distance to the first member.
-/
namespace CyclicMask

abbrev Word := BitVec 64

def has (m : Word) (i : Nat) : Bool := m.getLsbD (i % 64)

def single (i : Nat) : Word := BitVec.twoPow 64 i

def ones (d : Nat) : Word := BitVec.ofNat 64 (2 ^ d - 1)

@[simp] theorem has_zero (i : Nat) : has 0 i = false := by
  simp [has]

@[simp] theorem has_allOnes (i : Nat) : has (BitVec.allOnes 64) i = true := by
  have h := Nat.mod_lt i (by decide : 0 < 64)
  simp only [has, BitVec.getLsbD_allOnes, h, decide_true]

@[simp] theorem has_and (m n : Word) (i : Nat) : has (m &&& n) i = (has m i && has n i) := by
  simp [has]

@[simp] theorem has_or (m n : Word) (i : Nat) : has (m ||| n) i = (has m i || has n i) := by
  simp [has]

theorem has_single (i j : Nat) (small : i < 64) : has (single i) j = decide (j % 64 = i) := by
  have h := Nat.mod_lt j (by decide : 0 < 64)
  simp only [has, single, BitVec.getLsbD_twoPow]
  by_cases same : j % 64 = i
  · simp [same, small]
  · simp [same, Ne.symm same]

theorem has_clear (m : Word) (i j : Nat) (small : i < 64) :
    has (m &&& ~~~ single i) j = (has m j && decide (j % 64 ≠ i)) := by
  have h := Nat.mod_lt j (by decide : 0 < 64)
  have one := has_single i j small
  simp only [has] at one
  simp only [has, BitVec.getLsbD_and, BitVec.getLsbD_not, h, decide_true, Bool.true_and, one,
    ne_eq, decide_not]

theorem has_ones (d i : Nat) : has (ones d) i = decide (i % 64 < d) := by
  have h := Nat.mod_lt i (by decide : 0 < 64)
  simp only [has, ones, BitVec.getLsbD_ofNat, Nat.testBit_two_pow_sub_one]
  simp [h]

theorem has_rotateRight (m : Word) (r i : Nat) : has (m.rotateRight r) i = has m (i + r) := by
  have h := Nat.mod_lt i (by decide : 0 < 64)
  have hr := Nat.mod_lt r (by decide : 0 < 64)
  simp only [has, BitVec.getLsbD_rotateRight]
  by_cases low : i % 64 < 64 - r % 64
  · have sum : r % 64 + i % 64 = (i + r) % 64 := by omega
    simp [low, sum]
  · have sum : i % 64 - (64 - r % 64) = (i + r) % 64 := by omega
    simp [low, h, sum]

theorem has_rotateLeft (m : Word) (r i : Nat) :
    has (m.rotateLeft r) i = has m (i + (64 - r % 64)) := by
  have h := Nat.mod_lt i (by decide : 0 < 64)
  have hr := Nat.mod_lt r (by decide : 0 < 64)
  simp only [has, BitVec.getLsbD_rotateLeft]
  by_cases low : i % 64 < r % 64
  · have sum : 64 - r % 64 + i % 64 = (i + (64 - r % 64)) % 64 := by omega
    simp [low, sum]
  · have sum : i % 64 - r % 64 = (i + (64 - r % 64)) % 64 := by omega
    simp [low, h, sum]

theorem ext_has {m n : Word} (same : ∀ i, i < 64 → has m i = has n i) : m = n := by
  apply BitVec.eq_of_getLsbD_eq
  intro i hi
  have := same i hi
  simpa only [has, Nat.mod_eq_of_lt hi] using this

theorem eq_zero_iff (m : Word) : m = 0 ↔ ∀ i, i < 64 → has m i = false := by
  constructor
  · rintro rfl i _
    exact has_zero i
  · intro none
    apply ext_has
    intro i hi
    rw [none i hi, has_zero]

def first (m : Word) : Nat := m.ctz.toNat

theorem first_lt {m : Word} (nonempty : m ≠ 0) : first m < 64 := by
  have bit := BitVec.getLsbD_true_ctz_of_ne_zero nonempty
  exact BitVec.lt_of_getLsbD bit

theorem has_first {m : Word} (nonempty : m ≠ 0) : has m (first m) = true := by
  have bit := BitVec.getLsbD_true_ctz_of_ne_zero nonempty
  rw [has, Nat.mod_eq_of_lt (first_lt nonempty)]
  exact bit

theorem not_has_before_first {m : Word} {i : Nat} (before : i < first m) (small : i < 64) :
    has m i = false := by
  rw [has, Nat.mod_eq_of_lt small]
  exact BitVec.getLsbD_false_of_lt_ctz before

/-- Some number of the interval `lo, …, hi - 1` has the residue of `s` exactly
    when the distance from `lo` to the next such number is short enough. -/
theorem residue_between (lo hi s : Nat) :
    (∃ x, lo ≤ x ∧ x < hi ∧ x % 64 = s % 64) ↔ (s + (64 - lo % 64)) % 64 < hi - lo := by
  constructor
  · rintro ⟨x, low, high, same⟩
    omega
  · intro short
    exact ⟨lo + (s + (64 - lo % 64)) % 64, by omega, by omega, by omega⟩

end CyclicMask
