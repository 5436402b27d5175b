import Pushpin.Foundations.Outcome

/-!
Iterators whose items may be errors, driven to their end or to the first error.
-/
namespace Iteration
variable {σ ε α : Type}

/-- The items up to the end or the first error, at most so many calls of `next`,
    with the iterator as it is then. `none` is a panic or too few calls. -/
def iterate (next : σ → Outcome ε (σ × Option α)) : Nat → σ → Option (σ × List α × Option ε)
  | 0, _ => none
  | calls + 1, it =>
    match next it with
    | .panics => none
    | .fails e => some (it, [], some e)
    | .returns (it, none) => some (it, [], none)
    | .returns (it, some a) => (iterate next calls it).map fun (last, items, e) =>
      (last, a :: items, e)

variable {next : σ → Outcome ε (σ × Option α)} {it : σ}

theorem iterate_succ (calls : Nat) : iterate next (calls + 1) it =
    match next it with
    | .panics => none
    | .fails e => some (it, [], some e)
    | .returns (it, none) => some (it, [], none)
    | .returns (it, some a) => (iterate next calls it).map fun (last, items, e) =>
      (last, a :: items, e) := rfl

theorem iterate_item {it' : σ} {a : α} (stepped : next it = .returns (it', some a)) (calls : Nat) :
    iterate next (calls + 1) it = (iterate next calls it').map fun (last, items, e) =>
      (last, a :: items, e) := by
  rw [iterate_succ, stepped]

theorem iterate_end {it' : σ} (stepped : next it = .returns (it', none)) (calls : Nat) :
    iterate next (calls + 1) it = some (it', [], none) := by
  rw [iterate_succ, stepped]

theorem iterate_fails {e : ε} (stepped : next it = .fails e) (calls : Nat) :
    iterate next (calls + 1) it = some (it, [], some e) := by
  rw [iterate_succ, stepped]

theorem iterate_more {calls : Nat} {got : σ × List α × Option ε}
    (ended : iterate next calls it = some got) {more : Nat} (enough : calls ≤ more) :
    iterate next more it = some got := by
  induction calls generalizing it got more with
  | zero => cases ended
  | succ calls ih =>
    obtain ⟨more, rfl⟩ : ∃ k, more = k + 1 := ⟨more - 1, by omega⟩
    rw [iterate_succ] at ended ⊢
    split at ended
    · cases ended
    · exact ended
    · exact ended
    · rename_i stepped
      obtain ⟨rest, later, rfl⟩ := Option.map_eq_some_iff.mp ended
      rw [ih later (by omega)]
      rfl

theorem iterate_same {calls calls' : Nat} {got got' : σ × List α × Option ε}
    (ended : iterate next calls it = some got) (other : iterate next calls' it = some got') :
    got = got' := by
  have one := iterate_more ended (Nat.le_max_left calls calls')
  have two := iterate_more other (Nat.le_max_right calls calls')
  rw [one] at two
  exact Option.some.inj two

theorem iterate_total (inv fin : σ → Prop) (left : σ → Nat)
    (step : ∀ it, inv it → next it ≠ .panics ∧ (∀ it', next it = .returns (it', none) → fin it') ∧
      ∀ it' a, next it = .returns (it', some a) → inv it' ∧ left it' < left it)
    (calls : Nat) (start : inv it) (enough : left it < calls) :
    ∃ last items e, iterate next calls it = some (last, items, e) ∧ (e = none → fin last) := by
  induction calls generalizing it with
  | zero => omega
  | succ calls ih =>
    obtain ⟨safe, ends, nearer⟩ := step it start
    cases stepped : next it with
    | panics => exact absurd stepped safe
    | fails e => exact ⟨it, [], some e, iterate_fails stepped calls, nofun⟩
    | returns got =>
      obtain ⟨it', item⟩ := got
      cases item with
      | none => exact ⟨it', [], none, iterate_end stepped calls, fun _ => ends it' stepped⟩
      | some a =>
        obtain ⟨kept, less⟩ := nearer it' a stepped
        obtain ⟨last, items, e, ended, holds⟩ := ih kept (by omega)
        exact ⟨last, a :: items, e, by rw [iterate_item stepped, ended]; rfl, holds⟩

theorem iterate_items (inv : σ → Prop) (good : α → Prop)
    (step : ∀ it it' a, inv it → next it = .returns (it', some a) → inv it' ∧ good a) {calls : Nat}
    {last : σ}
    {items : List α} {e : Option ε} (start : inv it)
    (ended : iterate next calls it = some (last, items, e)) :
    ∀ a ∈ items, good a := by
  induction calls generalizing it items with
  | zero => cases ended
  | succ calls ih =>
    rw [iterate_succ] at ended
    split at ended
    · cases ended
    · cases ended
      exact fun a mem => absurd mem List.not_mem_nil
    · cases ended
      exact fun a mem => absurd mem List.not_mem_nil
    · rename_i it' a stepped
      obtain ⟨⟨last', rest, e'⟩, later, same⟩ := Option.map_eq_some_iff.mp ended
      cases same
      obtain ⟨kept, here⟩ := step it it' a start stepped
      exact List.forall_mem_cons.mpr ⟨here, ih kept later⟩

end Iteration
