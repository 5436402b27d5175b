import Mathlib.Logic.Function.Basic

/-!
Stores of records at addresses, with indexes that lead from a key to the address
of the one record that holds it.
-/
namespace Indexes
variable {α β κ : Type}

/-- The index leads from each key to the record that holds it, and from no other
    key anywhere. Two records never hold one key. -/
def Indexed (holds : β → κ → Prop) (store : α → Option β) (index : κ → Option α) : Prop :=
  ∀ key address, index key = some address ↔ ∃ record, store address = some record ∧ holds record key

variable {holds : β → κ → Prop} {store : α → Option β} {index : κ → Option α}

section
variable (indexed : Indexed holds store index) {key : κ}
include indexed

theorem Indexed.find {address : α}
    (found : index key = some address) : ∃ record, store address = some record ∧ holds record key :=
  (indexed key address).mp found

theorem Indexed.listed {address : α} {record : β}
    (stored : store address = some record) (held : holds record key) : index key = some address :=
  (indexed key address).mpr ⟨record, stored, held⟩

theorem Indexed.unique {a b : α} {x y : β}
    (storedA : store a = some x) (heldA : holds x key) (storedB : store b = some y)
    (heldB : holds y key) :
    a = b :=
  Option.some.inj ((indexed.listed storedA heldA).symm.trans (indexed.listed storedB heldB))

end

variable [DecidableEq α]

theorem update_eq_some {store : α → Option β} {address place : α} {value : Option β} {record : β}
    (found : Function.update store address value place = some record) :
    place = address ∧ value = some record ∨ place ≠ address ∧ store place = some record := by
  by_cases same : place = address
  · rw [same, Function.update_self] at found
    exact Or.inl ⟨same, found⟩
  · rw [Function.update_of_ne same] at found
    exact Or.inr ⟨same, found⟩

section
variable (indexed : Indexed holds store index)
include indexed

/-- One address takes another record, or none: the keys of the new record lead to
    it, and those that only the old one held lead nowhere. -/
theorem Indexed.put {next : κ → Option α} (address : α)
    (value : Option β) (taken : ∀ record key, value = some record → holds record key →
    next key = some address)
    (left : ∀ key, (∀ record, value = some record → ¬ holds record key) →
      (∃ record, store address = some record ∧ holds record key) → next key = none)
    (kept : ∀ key, (∀ record, value = some record → ¬ holds record key) →
      (¬ ∃ record, store address = some record ∧ holds record key) → next key = index key)
    (single : ∀ record key, value = some record → holds record key →
    ∀ other, index key = some other → other = address) :
    Indexed holds (Function.update store address value) next := by
  intro key place
  by_cases new : ∃ record, value = some record ∧ holds record key
  · obtain ⟨record, isValue, held⟩ := new
    rw [taken record key isValue held]
    constructor
    · intro same
      cases same
      exact ⟨record, by rw [Function.update_self, isValue], held⟩
    · rintro ⟨there, stored, heldThere⟩
      by_cases same : place = address
      · rw [same]
      · rw [Function.update_of_ne same] at stored
        rw [single record key isValue held place (indexed.listed stored heldThere)]
  · have notNew : ∀ record, value = some record → ¬ holds record key :=
      fun record isValue held => new ⟨record, isValue, held⟩
    by_cases old : ∃ record, store address = some record ∧ holds record key
    · rw [left key notNew old]
      constructor
      · intro absurd
        cases absurd
      · rintro ⟨there, stored, heldThere⟩
        by_cases same : place = address
        · rw [same, Function.update_self] at stored
          exact (notNew there stored heldThere).elim
        · rw [Function.update_of_ne same] at stored
          obtain ⟨record, storedOld, heldOld⟩ := old
          exact (same (indexed.unique stored heldThere storedOld heldOld)).elim
    · rw [kept key notNew old, indexed key place]
      by_cases same : place = address
      · rw [same, Function.update_self]
        constructor
        · intro was
          exact (old was).elim
        · rintro ⟨there, stored, heldThere⟩
          exact (notNew there stored heldThere).elim
      · rw [Function.update_of_ne same]

theorem Indexed.replace {address : α} {old new : β}
    (stored : store address = some old) (same : ∀ key, holds new key ↔ holds old key) :
    Indexed holds (Function.update store address (some new)) index := by
  refine indexed.put address (some new) ?_ ?_ ?_ ?_
  · rintro record key isNew held
    cases isNew
    exact indexed.listed stored ((same key).mp held)
  · rintro key notNew ⟨record, storedRecord, held⟩
    rw [stored] at storedRecord
    cases storedRecord
    exact (notNew new rfl ((same key).mpr held)).elim
  · intro key _ _
    rfl
  · rintro record key isNew held other found
    cases isNew
    exact Option.some.inj (found.symm.trans (indexed.listed stored ((same key).mp held)))

theorem Indexed.free {address : α} {old : β} {next : κ →
    Option α} (stored : store address = some old) (left : ∀ key, holds old key → next key = none)
    (kept : ∀ key, ¬ holds old key → next key = index key) :
    Indexed holds (Function.update store address none) next := by
  refine indexed.put address none ?_ ?_ ?_ ?_
  · intro record key absurd
    cases absurd
  · rintro key _ ⟨record, storedRecord, held⟩
    rw [stored] at storedRecord
    cases storedRecord
    exact left key held
  · intro key _ notOld
    exact kept key fun held => notOld ⟨old, stored, held⟩
  · intro record key absurd
    cases absurd

theorem Indexed.allocate {address : α} {new : β}
    {next : κ → Option α} (absent : store address = none) (taken : ∀ key, holds new key →
    index key = none ∧ next key = some address)
    (kept : ∀ key, ¬ holds new key → next key = index key) :
    Indexed holds (Function.update store address (some new)) next := by
  refine indexed.put address (some new) ?_ ?_ ?_ ?_
  · rintro record key isNew held
    cases isNew
    exact (taken key held).2
  · rintro key _ ⟨record, storedRecord, _⟩
    rw [absent] at storedRecord
    cases storedRecord
  · intro key notNew _
    exact kept key (notNew new rfl)
  · rintro record key isNew held other found
    cases isNew
    rw [(taken key held).1] at found
    cases found

end

end Indexes
