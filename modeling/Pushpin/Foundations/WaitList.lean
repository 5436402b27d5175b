import Mathlib.Data.List.Nodup
import Mathlib.Data.Set.Basic
import Mathlib.Data.Set.Insert

/-!
A list of those who wait for one of several slots. The first of them is notified when a
slot becomes free, and whoever is notified and goes hands the notification on.
-/
namespace WaitLists
variable {κ : Type}

/-- Those who are interested wait or are notified, and there are enough of them notified
    for the slots that are free as long as anyone waits. -/
structure Served (waiting : List κ) (free : Nat) (notified interested : Set κ) : Prop where
  nodup : waiting.Nodup
  listed : ∀ key ∈ waiting, key ∈ interested
  served : ∀ key ∈ interested, key ∈ waiting ∨ key ∈ notified
  wanted : notified ⊆ interested
  enough : waiting ≠ [] →
    ∃ woken : List κ, woken.Nodup ∧ free ≤ woken.length ∧ ∀ key ∈ woken, key ∈ notified ∧
      key ∉ waiting

variable {waiting : List κ} {free : Nat} {notified interested : Set κ}

theorem served_nobody (free : Nat) : Served ([] : List κ) free ∅ ∅ :=
  ⟨List.nodup_nil, nofun, nofun, Set.empty_subset _, fun some_ => absurd rfl some_⟩

/-- A slot that is free is not left to those who went. -/
theorem Served.slot (served : Served waiting free notified interested) (room : 0 < free) {key : κ}
    (asks : key ∈ interested) : ∃ other ∈ interested, other ∈ notified ∧ other ∉ waiting := by
  by_cases nobody : waiting = []
  · rcases served.served key asks with waits | told
    · rw [nobody] at waits
      cases waits
    · exact ⟨key, asks, told, by rw [nobody]; exact List.not_mem_nil⟩
  · obtain ⟨woken, -, some_, all⟩ := served.enough nobody
    cases woken with
    | nil => exact absurd some_ (by simp; omega)
    | cons other woken =>
      obtain ⟨told, off⟩ := all other List.mem_cons_self
      exact ⟨other, served.wanted told, told, off⟩

theorem Served.mono (served : Served waiting free notified interested) {fewer : Nat}
    (le : fewer ≤ free) : Served waiting fewer notified interested := by
  refine ⟨served.nodup, served.listed, served.served, served.wanted, fun some_ => ?_⟩
  obtain ⟨woken, nodup, count, all⟩ := served.enough some_
  exact ⟨woken, nodup, le.trans count, all⟩

theorem Served.notify {key : κ} (served : Served (key :: waiting) free notified interested) :
    Served waiting (free + 1) (insert key notified) interested := by
  obtain ⟨off, nodup⟩ := List.nodup_cons.mp served.nodup
  refine ⟨nodup, fun k mem => served.listed k (List.mem_cons_of_mem key mem), fun k asks => ?_, ?_,
    fun _ => ?_⟩
  · rcases served.served k asks with waits | told
    · rcases List.mem_cons.mp waits with rfl | later
      · exact Or.inr (Set.mem_insert _ _)
      · exact Or.inl later
    · exact Or.inr (Set.mem_insert_of_mem key told)
  · exact Set.insert_subset (served.listed key List.mem_cons_self) served.wanted
  · obtain ⟨woken, distinct, count, all⟩ := served.enough (List.cons_ne_nil key waiting)
    refine ⟨key :: woken, List.nodup_cons.mpr ⟨fun mem => (all key mem).2 List.mem_cons_self,
      distinct⟩, ?_, ?_⟩
    · rw [List.length_cons]
      omega
    · intro k mem
      rcases List.mem_cons.mp mem with rfl | old
      · exact ⟨Set.mem_insert _ _, off⟩
      · exact ⟨Set.mem_insert_of_mem key (all k old).1, fun waits =>
          (all k old).2 (List.mem_cons_of_mem key waits)⟩

theorem Served.nobody (served : Served [] free notified interested) (more : Nat) :
    Served [] more notified interested :=
  ⟨served.nodup, served.listed, served.served, served.wanted, fun some_ => absurd rfl some_⟩

variable [DecidableEq κ]

theorem Served.leave {fewer : Nat} (served : Served waiting free notified interested) (key : κ)
    (le : fewer ≤ free - 1 ∨ fewer ≤ free ∧ (key ∈ waiting ∨ key ∉ notified)) :
    Served (waiting.erase key) fewer (notified \ {key}) (interested \ {key}) := by
  have stays : ∀ {k}, k ≠ key → (k ∈ waiting.erase key ↔ k ∈ waiting) := List.mem_erase_of_ne
  refine ⟨served.nodup.erase key, fun k mem => ?_, ?_, ?_, fun some_ => ?_⟩
  · obtain ⟨other, there⟩ := (List.Nodup.mem_erase_iff served.nodup).mp mem
    exact ⟨served.listed k there, other⟩
  · rintro k ⟨asks, other⟩
    rcases served.served k asks with waits | told
    · exact Or.inl ((stays other).mpr waits)
    · exact Or.inr ⟨told, other⟩
  · exact fun k mem => ⟨served.wanted mem.1, mem.2⟩
  · have before : waiting ≠ [] := by
      rintro rfl
      exact some_ rfl
    obtain ⟨woken, distinct, count, all⟩ := served.enough before
    refine ⟨woken.erase key, distinct.erase key, ?_, fun k mem => ?_⟩
    · rcases le with one | ⟨le, idle⟩
      · have shorter := List.length_erase_le (a := key) (l := woken)
        have close : woken.length ≤ (woken.erase key).length + 1 := by
          rw [List.length_erase]
          split <;> omega
        omega
      · have absent : key ∉ woken := by
          intro mem
          rcases idle with waits | quiet
          · exact (all key mem).2 waits
          · exact quiet (all key mem).1
        rw [List.erase_of_not_mem absent]
        omega
    · obtain ⟨other, old⟩ := (List.Nodup.mem_erase_iff distinct).mp mem
      obtain ⟨told, off⟩ := all k old
      exact ⟨⟨told, other⟩, fun waits => off ((stays other).mp waits)⟩

theorem Served.join (served : Served waiting free notified interested) (key : κ) {told : Set κ}
    (others : told ⊆ insert key notified) (kept : ∀ k ∈ notified, k ≠ key → k ∈ told) :
    Served (if key ∈ waiting then waiting else waiting ++ [key])
      0 told (insert key interested) := by
  have joined : ∀ {k}, k ∈ (if key ∈ waiting then waiting else waiting ++ [key]) ↔
      k ∈ waiting ∨ k = key := by
    intro k
    split
    · next there =>
      refine ⟨Or.inl, ?_⟩
      rintro (waits | rfl)
      · exact waits
      · exact there
    · simp
  refine ⟨?_, fun k mem => ?_, ?_, ?_, fun _ => ⟨[], List.nodup_nil, Nat.le_refl 0, nofun⟩⟩
  · split
    · exact served.nodup
    · next absent =>
      rw [← List.concat_eq_append]
      exact served.nodup.concat absent
  · rcases joined.mp mem with waits | rfl
    · exact Set.mem_insert_of_mem key (served.listed k waits)
    · exact Set.mem_insert _ _
  · rintro k (rfl | asks)
    · exact Or.inl (joined.mpr (Or.inr rfl))
    · by_cases same : k = key
      · exact Or.inl (joined.mpr (Or.inr same))
      · rcases served.served k asks with waits | was
        · exact Or.inl (joined.mpr (Or.inl waits))
        · exact Or.inr (kept k was same)
  · intro k mem
    rcases others mem with rfl | was
    · exact Set.mem_insert _ _
    · exact Set.mem_insert_of_mem key (served.wanted was)

end WaitLists
