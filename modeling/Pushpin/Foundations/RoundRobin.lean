import Mathlib.Algebra.Order.BigOperators.Group.List
import Pushpin.Foundations.OrderedMap

/-!
Queues that are visited in the order of their keys, each for one item at a time. A
queue without items leaves the map, and a walk that loses the greatest key this way
is over, whatever the other queues still hold.
-/
namespace RoundRobin
open OrderedMaps
open OrderedMap (after?_eq_none after?_present get?_erase get?_insert mem_iff_get? perm_erase)
variable {κ β ω : Type} [LinearOrder κ] (items : β → List ω)

def leave (m : OrderedMap κ β) (key : κ) (queue : β) : OrderedMap κ β × Option κ :=
  if (items queue).isEmpty then (m.erase key, m.after? key)
  else (m.insert key queue, (m.after? key).or m.first?)

def rounds (m : OrderedMap κ β) : Nat := m.last?.elim 0 fun e => (items e.2).length

def turns (m : OrderedMap κ β) (it key : κ) : Nat :=
  if it ≤ key then rounds items m else rounds items m - 1

def due [AddMonoid ω] (m : OrderedMap κ β) (it : κ) : ω :=
  (m.entries.map fun e => ((items e.2).take (turns items m it e.1)).sum).sum

def Drains (m : OrderedMap κ β) (it : κ) : Prop :=
  ∀ e ∈ m.entries, (items e.2).length ≤ turns items m it e.1

instance (m : OrderedMap κ β) (it : κ) : Decidable (Drains items m it) :=
  inferInstanceAs (Decidable (∀ e ∈ m.entries, (items e.2).length ≤ turns items m it e.1))

def load (m : OrderedMap κ β) : Nat := (m.entries.map fun e => (items e.2).length).sum

variable {items}

theorem rounds_of_last {m : OrderedMap κ β} {key : κ} {queue : β}
    (present : m.get? key = some queue) (greatest : ∀ k v, m.get? k = some v → k ≤ key) :
    rounds items m = (items queue).length := by
  rw [rounds, OrderedMap.last?_eq_some.mpr ⟨present, greatest⟩, Option.elim_some]

/-- Only what is under the greatest key counts. -/
theorem rounds_congr {m m' : OrderedMap κ β} {last : κ} {queue : β}
    (present : m.get? last = some queue) (greatest : ∀ k v, m.get? k = some v → k ≤ last)
    (present' : m'.get? last = some queue)
    (greatest' : ∀ k v, m'.get? k = some v → k ≤ last) : rounds items m' = rounds items m := by
  rw [rounds_of_last present greatest, rounds_of_last present' greatest']

theorem exists_last {m : OrderedMap κ β} {key : κ} {queue : β} (present : m.get? key = some queue) :
    ∃ last value, m.get? last = some value ∧ ∀ k v, m.get? k = some v → k ≤ last := by
  cases found : m.last? with
  | none =>
    have mem := mem_iff_get?.mpr present
    rw [List.getLast?_eq_none_iff.mp found] at mem
    cases mem
  | some e => exact ⟨e.1, e.2, OrderedMap.last?_eq_some.mp found⟩

section Visit
variable {m : OrderedMap κ β} {key : κ} {old queue : β} {w : ω}

theorem load_leave (found : m.get? key = some old) (split : items old = w :: items queue) :
    load items m = load items (leave items m key queue).1 + 1 := by
  have before := ((perm_erase found).map fun e => (items e.2).length).sum_eq
  have counted : (items old).length = (items queue).length + 1 := by rw [split, List.length_cons]
  simp only [List.map_cons, List.sum_cons] at before
  unfold leave load
  split_ifs with empty
  · rw [List.isEmpty_iff] at empty
    rw [empty, List.length_nil] at counted
    simp only
    omega
  · have after := ((OrderedMap.perm_replace m key queue).map fun e => (items e.2).length).sum_eq
    simp only [List.map_cons, List.sum_cons] at after ⊢
    omega

theorem leave_filled (filled : ∀ k v, m.get? k = some v → items v ≠ []) (k : κ) (v : β)
    (present : (leave items m key queue).1.get? k = some v) : items v ≠ [] := by
  unfold leave at present
  split_ifs at present with empty
  · rw [get?_erase] at present
    split_ifs at present
    exact filled k v present
  · rw [get?_insert] at present
    split_ifs at present with own
    · cases present
      rwa [List.isEmpty_iff] at empty
    · exact filled k v present

theorem leave_present {it : κ} (next : (leave items m key queue).2 = some it) :
    ∃ v, (leave items m key queue).1.get? it = some v := by
  unfold leave at next ⊢
  split_ifs at next ⊢ with empty
  · obtain ⟨above, v, present⟩ := after?_present next
    exact ⟨v, by rw [get?_erase, if_neg (ne_of_gt above), present]⟩
  · have present : ∃ v, m.get? it = some v := by
      rcases Option.or_eq_some_iff.mp next with after | ⟨_, first⟩
      · exact (after?_present after).2
      · exact OrderedMap.first?_present first
    obtain ⟨v, present⟩ := present
    by_cases own : it = key
    · exact ⟨queue, by rw [get?_insert, if_pos own]⟩
    · exact ⟨v, by rw [get?_insert, if_neg own, present]⟩

theorem turns_leave (filled : ∀ k v, m.get? k = some v → items v ≠ [])
    (found : m.get? key = some old) (split : items old = w :: items queue) {it : κ}
    (next : (leave items m key queue).2 = some it) :
    0 < turns items m key key ∧
    (items queue ≠ [] →
    turns items (leave items m key queue).1 it key + 1 = turns items m key key) ∧
    ∀ k v, m.get? k = some v → k ≠ key →
      turns items (leave items m key queue).1 it k = turns items m key k := by
  obtain ⟨last, value, present, greatest⟩ := exists_last found
  have total : rounds items m = (items value).length := rounds_of_last present greatest
  by_cases own : key = last
  · -- the walk is at the greatest key, which keeps some items, and starts over
    subst own
    rw [found] at present
    cases present
    have none := after?_eq_none.mpr greatest
    unfold leave at next ⊢
    split_ifs at next ⊢ with empty
    · rw [none] at next
      cases next
    · rw [none, Option.none_or] at next
      have after : rounds items (m.insert key queue) = (items queue).length := by
        refine rounds_of_last (by rw [get?_insert, if_pos rfl]) ?_
        intro k v at_k
        rw [get?_insert] at at_k
        split_ifs at at_k with same
        · exact le_of_eq same
        · exact greatest k v at_k
      rw [split, List.length_cons] at total
      refine ⟨?_, fun _ => ?_, ?_⟩
      · rw [turns, if_pos (le_refl key), total]
        exact Nat.succ_pos _
      · rw [turns, turns, if_pos (OrderedMap.first?_least next found), if_pos (le_refl key), after,
          total]
      · intro k v at_k other
        have below : k < key := lt_of_le_of_ne (greatest k v at_k) other
        rw [turns, turns, if_pos (OrderedMap.first?_least next at_k), if_neg (not_le.mpr below),
          after, total, Nat.add_sub_cancel]
  · have below : key < last := lt_of_le_of_ne (greatest key old found) own
    obtain ⟨after, next_eq⟩ : ∃ after, m.after? key = some after := by
      cases none : m.after? key with
      | none =>
          exact absurd (after?_eq_none.mp none last value present) (not_le.mpr below)
      | some after => exact ⟨after, rfl⟩
    obtain ⟨above, _, after_present⟩ := after?_present next_eq
    have some_left : 0 < rounds items m := by
      rw [total]
      exact List.length_pos_of_ne_nil (filled last value present)
    have same_side : ∀ k v, m.get? k = some v → k ≠ key → (after ≤ k ↔ key ≤ k) := by
      intro k v at_k other
      constructor
      · intro le
        exact le_of_lt (lt_of_lt_of_le above le)
      · intro le
        exact OrderedMap.after?_least next_eq at_k (lt_of_le_of_ne le (Ne.symm other))
    have at_after : it = after := by
      unfold leave at next
      split_ifs at next
      · exact Option.some.inj (next.symm.trans next_eq)
      · rw [next_eq, Option.some_or] at next
        exact (Option.some.inj next).symm
    subst at_after
    have rounds_same : rounds items (leave items m key queue).1 = rounds items m := by
      unfold leave
      split_ifs
      · refine rounds_congr present greatest ?_ ?_
        · rw [get?_erase, if_neg (ne_of_gt below), present]
        · intro k v at_k
          rw [get?_erase] at at_k
          split_ifs at at_k
          exact greatest k v at_k
      · refine rounds_congr present greatest ?_ ?_
        · rw [get?_insert, if_neg (ne_of_gt below), present]
        · intro k v at_k
          rw [get?_insert] at at_k
          split_ifs at at_k with same
          · rw [same]
            exact le_of_lt below
          · exact greatest k v at_k
    refine ⟨?_, fun _ => ?_, ?_⟩
    · rwa [turns, if_pos (le_refl key)]
    · rw [turns, turns, rounds_same, if_neg (not_le.mpr above), if_pos (le_refl key)]
      omega
    · intro k v at_k other
      simp only [turns, rounds_same, same_side k v at_k other]

/-- What is taken until the greatest key runs out is settled by what the visit takes
    and what is taken afterwards. -/
theorem due_leave [AddCommMonoid ω] (filled : ∀ k v, m.get? k = some v → items v ≠ [])
    (found : m.get? key = some old) (split : items old = w :: items queue) {it : κ}
    (next : (leave items m key queue).2 = some it) :
    due items m key = w + due items (leave items m key queue).1 it := by
  obtain ⟨positive, own, others⟩ := turns_leave filled found split next
  have before := ((perm_erase found).map fun e =>
    ((items e.2).take (turns items m key e.1)).sum).sum_eq
  obtain ⟨n, count⟩ := Nat.exists_eq_add_of_lt positive
  rw [Nat.zero_add] at count
  have rest : ((m.erase key).entries.map fun e =>
        ((items e.2).take (turns items (leave items m key queue).1 it e.1)).sum) =
      (m.erase key).entries.map fun e => ((items e.2).take (turns items m key e.1)).sum := by
    refine List.map_congr_left ?_
    intro e mem
    have at_e := mem_iff_get?.mp (show (e.1, e.2) ∈ (m.erase key).entries from mem)
    rw [get?_erase] at at_e
    split_ifs at at_e with same
    rw [others e.1 e.2 at_e same]
  simp only [List.map_cons, List.sum_cons, split, count, List.take_succ_cons] at before
  rw [due, before, add_assoc, ← rest]
  congr 1
  unfold due
  by_cases empty : items queue = []
  · simp only [leave, empty, List.isEmpty_nil, if_true, List.take_nil, List.sum_nil, zero_add]
  · have after := ((OrderedMap.perm_replace m key queue).map fun e =>
      ((items e.2).take (turns items (leave items m key queue).1 it e.1)).sum).sum_eq
    have kept : (leave items m key queue).1 = m.insert key queue := by
      rw [leave, if_neg (by simpa using empty)]
    have one := own empty
    rw [count] at one
    simp only [List.map_cons, List.sum_cons, Nat.add_right_cancel one] at after
    rw [← after, kept]

theorem drains_leave (filled : ∀ k v, m.get? k = some v → items v ≠ [])
    (found : m.get? key = some old) (split : items old = w :: items queue) {it : κ}
    (next : (leave items m key queue).2 = some it) :
    Drains items m key ↔ Drains items (leave items m key queue).1 it := by
  obtain ⟨positive, own, others⟩ := turns_leave filled found split next
  have as_get : ∀ (m : OrderedMap κ β) (it : κ), Drains items m it ↔
      ∀ k v, m.get? k = some v → (items v).length ≤ turns items m it k := by
    intro m it
    constructor
    · intro all k v found
      exact all (k, v) (mem_iff_get?.mpr found)
    · intro all e mem
      exact all e.1 e.2 (mem_iff_get?.mp mem)
  have counted : (items old).length = (items queue).length + 1 := by rw [split, List.length_cons]
  rw [as_get, as_get]
  by_cases empty : items queue = []
  · have kept : (leave items m key queue).1 =
      m.erase key := by rw [leave, empty, List.isEmpty_nil, if_pos rfl]
    rw [empty, List.length_nil] at counted
    constructor
    · intro all k v at_k
      rw [kept, get?_erase] at at_k
      split_ifs at at_k with same
      rw [others k v at_k same]
      exact all k v at_k
    · intro all k v at_k
      by_cases same : k = key
      · rw [same] at at_k ⊢
        rw [found] at at_k
        cases at_k
        omega
      · rw [← others k v at_k same]
        refine all k v ?_
        rw [kept, get?_erase, if_neg same, at_k]
  · have kept : (leave items m key queue).1 = m.insert key queue := by
      rw [leave, if_neg (by simpa using empty)]
    have one := own empty
    constructor
    · intro all k v at_k
      rw [kept, get?_insert] at at_k
      split_ifs at at_k with same
      · cases at_k
        have before := all key old found
        rw [same]
        omega
      · rw [others k v at_k same]
        exact all k v at_k
    · intro all k v at_k
      by_cases same : k = key
      · rw [same] at at_k ⊢
        rw [found] at at_k
        cases at_k
        have after := all key queue (by rw [kept, get?_insert, if_pos rfl])
        omega
      · rw [← others k v at_k same]
        refine all k v ?_
        rw [kept, get?_insert, if_neg same, at_k]

theorem le_due [AddCommMonoid ω] [PartialOrder ω] [IsOrderedAddMonoid ω]
    (filled : ∀ k v, m.get? k = some v → items v ≠ []) (found : m.get? key = some old)
    (split : items old = w :: items queue)
    (positive : ∀ k v, m.get? k = some v → ∀ x ∈ items v, 0 ≤ x) : w ≤ due items m key := by
  obtain ⟨last, value, present, greatest⟩ := exists_last found
  have some_left : 0 < turns items m key key := by
    rw [turns, if_pos (le_refl key), rounds_of_last present greatest]
    exact List.length_pos_of_ne_nil (filled last value present)
  obtain ⟨n, count⟩ := Nat.exists_eq_add_of_lt some_left
  rw [Nat.zero_add] at count
  have before := ((perm_erase found).map fun e =>
    ((items e.2).take (turns items m key e.1)).sum).sum_eq
  simp only [List.map_cons, List.sum_cons, split, count, List.take_succ_cons, add_assoc] at before
  rw [due, before]
  refine le_add_of_nonneg_right (add_nonneg ?_ ?_)
  · refine List.sum_nonneg ?_
    intro x mem
    exact positive key old found x
      (by rw [split]; exact List.mem_cons_of_mem w (List.mem_of_mem_take mem))
  · refine List.sum_nonneg ?_
    intro x mem
    obtain ⟨e, at_e, rfl⟩ := List.mem_map.mp mem
    have present := mem_iff_get?.mp (show (e.1, e.2) ∈ (m.erase key).entries from at_e)
    rw [get?_erase] at present
    split_ifs at present
    exact List.sum_nonneg fun x taken => positive e.1 e.2 present x (List.mem_of_mem_take taken)

theorem leave_end [AddCommMonoid ω] (found : m.get? key = some old)
    (split : items old = w :: items queue) (filled : ∀ k v, m.get? k = some v → items v ≠ [])
    (exhausted : (leave items m key queue).2 = none) :
    due items m key = w ∧ (Drains items m key ↔ (leave items m key queue).1.isEmpty = true) := by
  have nothing : items queue = [] ∧ ∀ k v, m.get? k = some v → k ≤ key := by
    unfold leave at exhausted
    split_ifs at exhausted with empty
    · exact ⟨List.isEmpty_iff.mp empty, after?_eq_none.mp exhausted⟩
    · obtain ⟨first, first_eq⟩ := OrderedMap.first?_of_present found
      rw [first_eq] at exhausted
      cases after : m.after? key with
      | none =>
        rw [after] at exhausted
        cases exhausted
      | some k =>
        rw [after] at exhausted
        cases exhausted
  obtain ⟨empty, greatest⟩ := nothing
  have total : rounds items m = 1 := by rw [rounds_of_last found greatest, split, empty]; rfl
  have one : turns items m key key = 1 := by rw [turns, if_pos (le_refl key), total]
  have never : ∀ k v, (m.erase key).get? k = some v → m.get? k = some v ∧
      turns items m key k = 0 := by
    intro k v at_k
    rw [get?_erase] at at_k
    split_ifs at at_k with same
    refine ⟨at_k, ?_⟩
    rw [turns, if_neg (not_le.mpr (lt_of_le_of_ne (greatest k v at_k) same)), total]
  have gone : (leave items m key queue).1 = m.erase key := by
    rw [leave, empty, List.isEmpty_nil, if_pos rfl]
  constructor
  · have before := ((perm_erase found).map fun e =>
      ((items e.2).take (turns items m key e.1)).sum).sum_eq
    have rest : ((m.erase key).entries.map fun e =>
        ((items e.2).take (turns items m key e.1)).sum).sum = 0 := by
      refine List.sum_eq_zero ?_
      intro x mem
      obtain ⟨e, at_e, rfl⟩ := List.mem_map.mp mem
      rw [(never e.1 e.2 (mem_iff_get?.mp at_e)).2, List.take_zero, List.sum_nil]
    rw [due, before, List.map_cons, List.sum_cons, rest, add_zero, one, split, empty]
    simp
  · rw [gone, OrderedMap.isEmpty_iff]
    constructor
    · intro all k
      rw [Option.eq_none_iff_forall_ne_some]
      intro v at_k
      obtain ⟨present, zero⟩ := never k v at_k
      have few := all (k, v) (mem_iff_get?.mpr present)
      rw [zero] at few
      exact filled k v present (List.length_eq_zero_iff.mp (Nat.le_zero.mp few))
    · intro none e mem
      have present := mem_iff_get?.mp (show (e.1, e.2) ∈ m.entries from mem)
      by_cases same : e.1 = key
      · rw [same, found] at present
        cases present
        rw [same, one, split, empty]
        exact Nat.le_refl 1
      · have left := none e.1
        rw [get?_erase, if_neg same, present] at left
        cases left

end Visit
end RoundRobin
