import Mathlib.Algebra.Order.Ring.Nat
import Mathlib.Data.List.Basic

/-!
A slab: a fixed number of slots addressed by their index. The allocator's
choice of a vacant slot is an argument of `insert`, so results hold for every
allocation policy that returns a vacant slot inside the capacity.
-/
namespace Slabs
variable {α : Type}

structure Slab (α : Type) where
  entries : List (Option α)
  deriving DecidableEq, Repr

namespace Slab

def withCapacity (capacity : Nat) : Slab α := ⟨List.replicate capacity none⟩

def capacity (s : Slab α) : Nat := s.entries.length

def len (s : Slab α) : Nat := s.entries.countP Option.isSome

def isEmpty (s : Slab α) : Bool := s.len == 0

def get? (s : Slab α) (key : Nat) : Option α := s.entries[key]?.join

def insert (s : Slab α) (key : Nat) (value : α) : Slab α := ⟨s.entries.set key (some value)⟩

def remove (s : Slab α) (key : Nat) : Slab α := ⟨s.entries.set key none⟩

/-- The first vacant slot, for uses in which the choice cannot be observed. -/
def firstVacant (s : Slab α) : Nat := s.entries.findIdx Option.isNone

def Vacant (s : Slab α) (key : Nat) : Prop := key < s.capacity ∧ s.get? key = none

instance (s : Slab α) (key : Nat) : Decidable (s.Vacant key) :=
  decidable_of_iff (key < s.capacity ∧ (s.get? key).isNone = true) (by simp [Vacant])

@[simp] theorem get?_withCapacity (n key : Nat) : (withCapacity n : Slab α).get? key = none := by
  simp only [get?, withCapacity, List.getElem?_replicate]
  split <;> rfl

@[simp] theorem capacity_insert (s : Slab α) (key : Nat) (value : α) :
    (s.insert key value).capacity = s.capacity := by
  simp [capacity, insert]

@[simp] theorem capacity_remove (s : Slab α) (key : Nat) :
    (s.remove key).capacity = s.capacity := by
  simp [capacity, remove]

variable {s : Slab α} {key : Nat}

theorem lt_capacity_of_get? {value : α} (found : s.get? key = some value) : key < s.capacity := by
  simp only [get?, Option.join_eq_some_iff] at found
  exact (List.getElem?_eq_some_iff.mp found).1

theorem get?_insert (inside : key < s.capacity) (value : α) (k : Nat) :
    (s.insert key value).get? k = if k = key then some value else s.get? k := by
  simp only [get?, insert, List.getElem?_set, capacity] at inside ⊢
  by_cases same : k = key
  · simp [same, inside]
  · simp [same, Ne.symm same]

theorem get?_remove (s : Slab α) (key k : Nat) :
    (s.remove key).get? k = if k = key then none else s.get? k := by
  simp only [get?, remove, List.getElem?_set]
  by_cases same : k = key
  · subst same
    simp only [↓reduceIte]
    split <;> rfl
  · simp [same, Ne.symm same]

theorem exists_vacant (room : s.len < s.capacity) : ∃ key, s.Vacant key := by
  by_contra none_vacant
  have full : ∀ e ∈ s.entries, Option.isSome e = true := by
    intro e he
    obtain ⟨key, inside, rfl⟩ := List.getElem_of_mem he
    by_contra empty
    refine none_vacant ⟨key, inside, ?_⟩
    simp only [get?, List.getElem?_eq_getElem inside, Option.join_some]
    simpa using empty
  have all := List.countP_eq_length.mpr full
  simp only [len, capacity] at room
  omega

theorem vacant_len_lt (vacant : s.Vacant key) : s.len < s.capacity := by
  simp only [len, capacity]
  rcases Nat.lt_or_ge (s.entries.countP Option.isSome) s.entries.length with h | h
  · exact h
  · have all := List.countP_eq_length.mp (Nat.le_antisymm List.countP_le_length h)
    have filled := all _ (List.getElem_mem vacant.1)
    have none := vacant.2
    simp only [get?, List.getElem?_eq_getElem vacant.1, Option.join_some] at none
    simp [none] at filled

theorem firstVacant_vacant (room : s.len < s.capacity) : s.Vacant s.firstVacant := by
  obtain ⟨key, inside, empty⟩ := exists_vacant room
  have some_none : ∃ e ∈ s.entries, Option.isNone e = true := by
    refine ⟨s.entries[key], List.getElem_mem inside, ?_⟩
    simp only [get?, List.getElem?_eq_getElem inside, Option.join_some] at empty
    rw [empty]
    rfl
  have first : s.firstVacant < s.entries.length := List.findIdx_lt_length.mpr some_none
  refine ⟨first, ?_⟩
  have found : Option.isNone s.entries[s.firstVacant] = true :=
    @List.findIdx_getElem _ _ s.entries first
  simp only [get?, List.getElem?_eq_getElem first, Option.join_some]
  simpa using found

theorem len_insert_le (s : Slab α) (key : Nat) (value : α) :
    (s.insert key value).len ≤ s.len + 1 := by
  simp only [len, insert]
  by_cases inside : key < s.entries.length
  · rw [List.countP_set inside]
    simp only [Option.isSome_some, if_true]
    omega
  · rw [List.set_eq_of_length_le (by omega)]
    omega

theorem len_eq_zero_iff (s : Slab α) : s.len = 0 ↔ ∀ key, s.get? key = none := by
  simp only [len, List.countP_eq_zero]
  constructor
  · intro none_some key
    simp only [get?]
    cases found : s.entries[key]? with
    | none => rfl
    | some e =>
      have empty := none_some e (List.mem_of_getElem? found)
      simpa using empty
  · intro all e mem
    obtain ⟨key, inside, rfl⟩ := List.getElem_of_mem mem
    have empty := all key
    simp only [get?, List.getElem?_eq_getElem inside, Option.join_some] at empty
    simp [empty]

theorem countP_of_subset (xs ys : List (Option α)) (size : xs.length = ys.length)
    (subset : ∀ i : Nat, xs[i]?.join.isSome = true → ys[i]?.join.isSome = true) :
    xs.countP Option.isSome ≤ ys.countP Option.isSome ∧
      ∀ gone : Nat, xs[gone]?.join = none → ys[gone]?.join.isSome = true →
        xs.countP Option.isSome < ys.countP Option.isSome := by
  induction xs generalizing ys with
  | nil =>
    have empty := List.length_eq_zero_iff.mp size.symm
    subst empty
    refine ⟨Nat.le_refl _, ?_⟩
    intro gone _ present
    cases present
  | cons x xs ih =>
    cases ys with
    | nil => cases size
    | cons y ys =>
      obtain ⟨le, lt⟩ := ih ys (Nat.succ.inj size) fun i => subset (i + 1)
      have head : x.isSome = true → y.isSome = true := subset 0
      simp only [List.countP_cons]
      constructor
      · by_cases filled : x.isSome = true
        · simp only [filled, head filled, if_true]
          omega
        · simp only [filled, Bool.false_eq_true, if_false]
          omega
      · intro gone missing present
        cases gone with
        | zero =>
          have absent : x = none := missing
          have there : y.isSome = true := present
          simp only [absent, there, Option.isSome_none, Bool.false_eq_true, if_false, if_true]
          omega
        | succ gone =>
          have fewer := lt gone missing present
          by_cases filled : x.isSome = true
          · simp only [filled, head filled, if_true]
            omega
          · simp only [filled, Bool.false_eq_true, if_false]
            omega

theorem len_congr {β : Type} {t : Slab β} (size : s.capacity = t.capacity)
    (used : ∀ key, (s.get? key).isSome = (t.get? key).isSome) : s.len = t.len := by
  have slots : s.entries.map Option.isSome = t.entries.map Option.isSome := by
    apply List.ext_getElem
    · rw [List.length_map, List.length_map]
      exact size
    · intro key left right
      rw [List.length_map] at left right
      have same := used key
      simp only [get?, List.getElem?_eq_getElem left, List.getElem?_eq_getElem right,
        Option.join_some] at same
      rw [List.getElem_map, List.getElem_map, same]
  have counted : ∀ {γ : Type} (r : Slab γ), r.len = (r.entries.map Option.isSome).countP id := by
    intro γ r
    rw [List.countP_map]
    rfl
  rw [counted, counted, slots]

theorem len_insert (vacant : s.Vacant key) (value : α) : (s.insert key value).len = s.len + 1 := by
  have empty := vacant.2
  simp only [get?, List.getElem?_eq_getElem vacant.1, Option.join_some] at empty
  simp only [len, insert]
  rw [List.countP_set vacant.1, empty]
  simp

theorem len_remove {value : α} (found : s.get? key = some value) :
    (s.remove key).len + 1 = s.len := by
  have gone : (s.remove key).Vacant key := by
    refine ⟨?_, by rw [get?_remove, if_pos rfl]⟩
    rw [capacity_remove]
    exact lt_capacity_of_get? found
  rw [← len_insert gone value]
  apply len_congr
  · rw [capacity_insert, capacity_remove]
  · intro k
    rw [get?_insert gone.1, get?_remove]
    split
    · rename_i here
      rw [here, found]
    · rfl

theorem len_lt_of_subset {t : Slab α} (size : s.capacity = t.capacity)
    (subset : ∀ key, (s.get? key).isSome = true → (t.get? key).isSome = true)
    {gone : Nat} (missing : s.get? gone = none) (present : (t.get? gone).isSome = true) :
    s.len < t.len :=
  (countP_of_subset s.entries t.entries size subset).2 gone missing present

end Slab
end Slabs
