import Mathlib.Data.Option.Basic

/-!
Runs of operations with results, and the refinement of one that always succeeds by one
that may fail.
-/
namespace Refinement
variable {σ τ ε ρ : Type}

def run (step : σ → ε → Option (σ × ρ)) : σ → List ε → Option (σ × List ρ)
  | s, [] => some (s, [])
  | s, e :: es => (step s e).bind fun (s, r) => (run step s es).map fun (s, rs) => (s, r :: rs)

def runSpec (spec : τ → ε → τ × ρ) : τ → List ε → τ × List ρ
  | t, [] => (t, [])
  | t, e :: es => ((runSpec spec (spec t e).1 es).1,
    (spec t e).2 :: (runSpec spec (spec t e).1 es).2)

/-- Each operation succeeds, gives the result that is specified, and keeps the relation. -/
def Refines (step : σ → ε → Option (σ × ρ)) (spec : τ → ε → τ × ρ) (rel : σ → τ → Prop) : Prop :=
  ∀ s t e, rel s t → ∃ s', step s e = some (s', (spec t e).2) ∧ rel s' (spec t e).1

theorem Refines.run {step : σ → ε → Option (σ × ρ)} {spec : τ → ε → τ × ρ} {rel : σ → τ → Prop}
    (refines : Refines step spec rel) (es : List ε) {s : σ} {t : τ} (related : rel s t) :
    ∃ s', Refinement.run step s es = some (s', (runSpec spec t es).2) ∧
      rel s' (runSpec spec t es).1 := by
  induction es generalizing s t with
  | nil => exact ⟨s, rfl, related⟩
  | cons e es ih =>
    obtain ⟨next, stepped, later⟩ := refines s t e related
    obtain ⟨last, ran, holds⟩ := ih later
    refine ⟨last, ?_, holds⟩
    rw [Refinement.run, stepped, Option.bind_some]
    dsimp only
    rw [ran]
    rfl

end Refinement
