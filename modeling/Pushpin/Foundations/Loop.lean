import Mathlib.Algebra.Order.Ring.Nat

/-!
Loops that either go round again or return. `none` is a panic or a loop that
has used up its rounds; `loop_rule` excludes both from a decreasing measure.
-/
namespace Loops
variable {σ ρ : Type}

inductive Step (σ ρ : Type) where
  | again (state : σ)
  | done (state : σ) (result : ρ)
  deriving DecidableEq, Repr

def loop (step : σ → Option (Step σ ρ)) : Nat → σ → Option (σ × ρ)
  | 0, _ => none
  | rounds + 1, state =>
    match step state with
    | none => none
    | some (.again state) => loop step rounds state
    | some (.done state result) => some (state, result)

/-- The check holds of the state before every round that the loop makes. -/
def throughout (step : σ → Option (Step σ ρ)) (check : σ → Bool) : Nat → σ → Bool
  | 0, _ => true
  | rounds + 1, state => check state &&
      match step state with
      | some (.again state) => throughout step check rounds state
      | _ => true

/-- An invariant that every checked round keeps, with a measure that drops each
    time the loop goes round, brings the loop to its postcondition. -/
theorem loop_rule {step : σ → Option (Step σ ρ)} {check : σ → Bool} (measure : σ → Nat)
    (inv : σ → Prop) {post : σ → ρ → Prop}
    (round : ∀ state, inv state → check state = true →
      (∃ next, step state = some (.again next) ∧ inv next ∧ measure next < measure state) ∨
      ∃ last result, step state = some (.done last result) ∧ post last result)
    (rounds : Nat) {state : σ} (start : inv state) (enough : measure state < rounds)
    (checked : throughout step check rounds state = true) :
    ∃ last result, loop step rounds state = some (last, result) ∧ post last result := by
  induction rounds generalizing state with
  | zero => omega
  | succ rounds ih =>
    simp only [throughout, Bool.and_eq_true] at checked
    rcases round state start checked.1 with ⟨next, stepped, kept, less⟩ | ⟨last, result,
      stepped, ends⟩
    · rw [stepped] at checked
      obtain ⟨last, result, run, ends⟩ := ih kept (by omega) checked.2
      exact ⟨last, result, by simp only [loop, stepped, run], ends⟩
    · exact ⟨last, result, by simp only [loop, stepped], ends⟩

theorem throughout_true (step : σ → Option (Step σ ρ)) (rounds : Nat) (state : σ) :
    throughout step (fun _ => true) rounds state = true := by
  induction rounds generalizing state with
  | zero => rfl
  | succ rounds ih =>
    simp only [throughout, Bool.true_and]
    split
    · exact ih _
    · rfl

end Loops
