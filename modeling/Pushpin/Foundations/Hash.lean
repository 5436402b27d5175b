import Mathlib.Data.List.Nodup

/-!
Maps whose entries are in no particular order.
-/
namespace Hashes

structure Hash (κ β : Type) where
  entries : List (κ × β)
  distinct : (entries.map Prod.fst).Nodup

namespace Hash
variable {κ β : Type}

def empty : Hash κ β := ⟨[], List.nodup_nil⟩

def values (m : Hash κ β) : List β := m.entries.map Prod.snd

variable [DecidableEq κ]

def get? (m : Hash κ β) (key : κ) : Option β := (m.entries.find? fun e => e.1 = key).map Prod.snd

def erase (m : Hash κ β) (key : κ) : Hash κ β where
  entries := m.entries.filter fun e => e.1 ≠ key
  distinct := m.distinct.sublist (List.filter_sublist.map Prod.fst)

theorem erased (m : Hash κ β) (key : κ) : key ∉ (m.erase key).entries.map Prod.fst := by
  intro mem
  obtain ⟨e, there, same⟩ := List.mem_map.mp mem
  exact of_decide_eq_true (List.mem_filter.mp there).2 same

def insert (m : Hash κ β) (key : κ) (value : β) : Hash κ β where
  entries := (m.erase key).entries ++ [(key, value)]
  distinct := by
    rw [List.map_append, List.map_singleton, ← List.concat_eq_append]
    exact (m.erase key).distinct.concat (m.erased key)

def modify (m : Hash κ β) (key : κ) (f : β → β) : Hash κ β where
  entries := m.entries.map fun e => if e.1 = key then (e.1, f e.2) else e
  distinct := by
    have same : (m.entries.map fun e => if e.1 = key then (e.1, f e.2) else e).map Prod.fst =
        m.entries.map Prod.fst := by
      rw [List.map_map]
      refine List.map_congr_left fun e _ => ?_
      show (if e.1 = key then (e.1, f e.2) else e).1 = e.1
      split <;> rfl
    rw [same]
    exact m.distinct

theorem find?_erase (entries : List (κ × β)) (key k : κ) :
    (entries.filter fun e => e.1 ≠ key).find? (fun e => e.1 = k) =
      if k = key then none else entries.find? fun e => e.1 = k := by
  rw [List.find?_filter]
  split
  · next same =>
    rw [same]
    exact List.find?_eq_none.mpr fun e _ both => by simp at both
  · next other =>
    congr 1
    funext e
    by_cases here : e.1 = k
    · simp [here, other]
    · simp [here]

theorem get?_erase (m : Hash κ β) (key k : κ) :
    (m.erase key).get? k = if k = key then none else m.get? k := by
  show ((m.entries.filter fun e => e.1 ≠ key).find? fun e => e.1 = k).map Prod.snd = _
  rw [find?_erase]
  split <;> rfl

theorem get?_insert (m : Hash κ β) (key : κ) (value : β) (k : κ) :
    (m.insert key value).get? k = if k = key then some value else m.get? k := by
  show (((m.entries.filter fun e => e.1 ≠ key) ++ [(key, value)]).find? fun e => e.1 = k).map
    Prod.snd = _
  rw [List.find?_append, find?_erase]
  split
  · next same => simp [same]
  · next other =>
    rw [List.find?_singleton, if_neg (by simpa using Ne.symm other), Option.or_none]
    rfl

theorem get?_modify (m : Hash κ β) (key : κ) (f : β → β) (k : κ) :
    (m.modify key f).get? k = if k = key then (m.get? k).map f else m.get? k := by
  unfold get? modify
  dsimp only
  induction m.entries with
  | nil => simp
  | cons e entries ih =>
    rw [List.map_cons, List.find?_cons, List.find?_cons]
    by_cases here : e.1 = k
    · by_cases same : k = key
      · simp [here, same]
      · simp [here, same]
    · have head : ((if e.1 = key then (e.1, f e.2) else e).1 = k) ↔ e.1 = k := by split <;> rfl
      simp only [head, here, decide_false]
      exact ih

theorem modify_modify (m : Hash κ β) (key : κ) (f g : β → β) :
    (m.modify key f).modify key g = m.modify key (g ∘ f) := by
  unfold modify
  congr 1
  rw [List.map_map]
  refine List.map_congr_left fun e _ => ?_
  by_cases same : e.1 = key <;> simp [same]

theorem mem_iff_get? {m : Hash κ β} {key : κ} {value : β} : (key, value) ∈ m.entries ↔
    m.get? key = some value := by
  constructor
  · intro mem
    unfold get?
    cases found : m.entries.find? fun e => e.1 = key with
    | none => exact absurd (List.find?_eq_none.mp found (key, value) mem) (by simp)
    | some e =>
      have key_eq : e.1 = key := by simpa using List.find?_some found
      have there := List.mem_of_find?_eq_some found
      have same : e = (key, value) := List.inj_on_of_nodup_map m.distinct there mem key_eq
      rw [same]
      rfl
  · intro found
    obtain ⟨e, first, rfl⟩ := Option.map_eq_some_iff.mp found
    have key_eq : e.1 = key := by simpa using List.find?_some first
    rw [← key_eq]
    exact List.mem_of_find?_eq_some first

end Hash
end Hashes
