import Mathlib.Algebra.Order.Ring.Nat
import Mathlib.Data.Option.Basic

/-!
Runs of a system that takes one event after another. `none` is a panic.
-/
namespace Runs
variable {σ ε : Type}

@[grind =]
def run (step : σ → ε → Option σ) : σ → List ε → Option σ
  | state, [] => some state
  | state, event :: events => (step state event).bind fun state => run step state events

/-- The check holds of every event that the run takes, in the state before it. -/
@[grind =]
def along (step : σ → ε → Option σ) (check : σ → ε → Bool) : σ → List ε → Bool
  | _, [] => true
  | state, event :: events => check state event &&
      match step state event with
      | some state => along step check state events
      | none => true

variable {step : σ → ε → Option σ} {check : σ → ε → Bool} {state : σ}

/-- An invariant that every checked step keeps holds at the end of every checked
    run, and the run does not panic. -/
theorem run_rule (inv : σ → Prop)
    (keeps : ∀ state event, inv state → check state event = true →
      ∃ next, step state event = some next ∧ inv next)
    (events : List ε) (start : inv state) (checked : along step check state events = true) :
    ∃ last, run step state events = some last ∧ inv last := by
  induction events generalizing state with
  | nil => exact ⟨state, rfl, start⟩
  | cons event events ih =>
    simp only [along, Bool.and_eq_true] at checked
    obtain ⟨next, stepped, kept⟩ := keeps state event start checked.1
    rw [stepped] at checked
    obtain ⟨last, ran, holds⟩ := ih kept checked.2
    exact ⟨last, by simp only [run, stepped, Option.bind_some, ran], holds⟩

variable {events : List ε}

theorem run_kept (inv : σ → Prop)
    (keeps : ∀ state event next, inv state → check state event = true → step state event =
    some next → inv next) {last : σ} (start : inv state) (ran : run step state events = some last)
    (checked : along step check state events = true) : inv last := by
  induction events generalizing state with
  | nil =>
    cases ran
    exact start
  | cons event events ih =>
    obtain ⟨next, stepped, ran⟩ := Option.bind_eq_some_iff.mp ran
    simp only [along, stepped, Bool.and_eq_true] at checked
    exact ih (keeps state event next start checked.1 stepped) ran checked.2

/-- The states that a run goes through are good exactly if each of its steps
    passes a check that decides whether the step keeps them good. -/
theorem reached_iff_along {allowed : σ → ε → Bool} (inv good : σ → Prop)
    (keeps : ∀ state event, inv state → good state → allowed state event = true →
      ∃ next, step state event = some next ∧ inv next ∧ (good next ↔ check state event = true))
    (events : List ε) (start : inv state) (fine : good state)
    (possible : along step allowed state events = true) :
    (∀ taken, taken <+: events → ∀ last, run step state taken = some last → good last) ↔
      along step check state events = true := by
  induction events generalizing state with
  | nil =>
    constructor
    · intro _
      rfl
    · intro _ taken front last ran
      rw [List.prefix_nil.mp front] at ran
      cases ran
      exact fine
  | cons event events ih =>
    simp only [along, Bool.and_eq_true] at possible ⊢
    obtain ⟨next, stepped, kept, decides⟩ := keeps state event start fine possible.1
    rw [stepped] at possible ⊢
    constructor
    · intro all
      have good_next : good next :=
        all [event] ⟨events, rfl⟩ next (by simp only [run, stepped, Option.bind_some])
      refine ⟨decides.mp good_next, (ih kept good_next possible.2).mp ?_⟩
      intro taken front last ran
      refine all (event :: taken) ((List.prefix_cons_inj event).mpr front) last ?_
      simp only [run, stepped, Option.bind_some, ran]
    · rintro ⟨passed, later⟩ taken front last ran
      cases taken with
      | nil =>
        cases ran
        exact fine
      | cons first taken =>
        obtain ⟨rfl, behind⟩ := List.cons_prefix_cons.mp front
        simp only [run, stepped, Option.bind_some] at ran
        have good_next := decides.mpr passed
        exact (ih kept good_next possible.2).mpr later taken behind last ran

theorem run_append (step : σ → ε → Option σ) (state : σ) (xs ys : List ε) :
    run step state (xs ++ ys) = (run step state xs).bind fun state => run step state ys := by
  induction xs generalizing state with
  | nil => rfl
  | cons event xs ih =>
    simp only [List.cons_append, run]
    cases step state event with
    | none => rfl
    | some next => exact ih next

theorem along_append {last : σ} {xs : List ε}
    (ran : run step state xs = some last) (ys : List ε) :
    along step check state (xs ++ ys) =
      (along step check state xs && along step check last ys) := by
  induction xs generalizing state with
  | nil =>
    cases ran
    rfl
  | cons event xs ih =>
    simp only [run] at ran
    obtain ⟨next, stepped, ran'⟩ := Option.bind_eq_some_iff.mp ran
    simp only [List.cons_append, along, stepped, ih ran', Bool.and_assoc]

theorem along_front {xs ys : List ε}
    (checked : along step check state (xs ++ ys) = true) : along step check state xs = true := by
  induction xs generalizing state with
  | nil => rfl
  | cons event xs ih =>
    simp only [List.cons_append, along, Bool.and_eq_true] at checked ⊢
    refine ⟨checked.1, ?_⟩
    cases stepped : step state event with
    | none => rfl
    | some next =>
      rw [stepped] at checked
      exact ih checked.2

theorem along_iff :
    along step check state events = true ↔
      ∀ front event rest, events = front ++ event :: rest →
        ∀ reached, run step state front = some reached → check reached event = true := by
  induction events generalizing state with
  | nil =>
    constructor
    · intro _ front event rest eq
      cases front <;> cases eq
    · intro _
      rfl
  | cons first events ih =>
    simp only [along, Bool.and_eq_true]
    constructor
    · rintro ⟨passed, later⟩ front event rest eq reached ran
      cases front with
      | nil =>
        cases ran
        cases eq
        exact passed
      | cons e front =>
        obtain ⟨rfl, tail⟩ := List.cons.inj eq
        obtain ⟨next, stepped, ran'⟩ := Option.bind_eq_some_iff.mp ran
        rw [stepped] at later
        exact ih.mp later front event rest tail reached ran'
    · intro each
      refine ⟨each [] first events rfl state rfl, ?_⟩
      cases stepped : step state first with
      | none => rfl
      | some next =>
        refine ih.mpr ?_
        intro front event rest eq reached ran
        refine each (first :: front) event rest (by rw [eq, List.cons_append]) reached ?_
        simp only [run, stepped, Option.bind_some, ran]

theorem along_of_forall
    (always : ∀ event ∈ events, ∀ reached, check reached event = true) :
    along step check state events = true := by
  refine along_iff.mpr ?_
  rintro front event rest rfl reached _
  exact always event (List.mem_append_right front List.mem_cons_self) reached

theorem along_and {also : σ → ε → Bool} :
    along step (fun s e => check s e && also s e) state events = true ↔
      along step check state events = true ∧ along step also state events = true := by
  simp only [along_iff, Bool.and_eq_true]
  constructor
  · intro both
    exact ⟨fun front event rest eq reached ran => (both front event rest eq reached ran).1,
      fun front event rest eq reached ran => (both front event rest eq reached ran).2⟩
  · rintro ⟨one, two⟩ front event rest eq reached ran
    exact ⟨one front event rest eq reached ran, two front event rest eq reached ran⟩

theorem exists_of_any {last : Option σ} {check : σ → Bool} (holds : last.any check = true) :
    ∃ state, last = some state ∧ check state = true := by
  cases last with
  | none => cases holds
  | some state => exact ⟨state, rfl, holds⟩

end Runs
