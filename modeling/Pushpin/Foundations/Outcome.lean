import Mathlib.Algebra.Order.Ring.Nat

/-!
Computations that panic, fail with an error or return a value, and loops of them
over a list.
-/

inductive Outcome (ε α : Type) where
  | panics
  | fails (e : ε)
  | returns (a : α)
  deriving DecidableEq, Repr

namespace Outcome
variable {ε α β σ : Type}

def bind (x : Outcome ε α) (f : α → Outcome ε β) : Outcome ε β :=
  match x with
  | .panics => .panics
  | .fails e => .fails e
  | .returns a => f a

instance : Monad (Outcome ε) where
  pure := .returns
  bind := bind

instance : LawfulMonad (Outcome ε) := LawfulMonad.mk' (Outcome ε)
  (fun x => by cases x <;> rfl)
  (fun _ _ => rfl)
  (fun x _ _ => by cases x <;> rfl)

@[simp] theorem pure_eq (a : α) : (pure a : Outcome ε α) = .returns a := rfl

@[simp] theorem returns_bind (a : α) (f : α → Outcome ε β) : (Outcome.returns a >>= f) = f a := rfl

@[simp] theorem fails_bind (e : ε) (f : α → Outcome ε β) : (Outcome.fails e >>= f) = .fails e := rfl

@[simp] theorem panics_bind (f : α → Outcome ε β) :
    ((Outcome.panics : Outcome ε α) >>= f) = .panics := rfl

variable {x : Outcome ε α} {f : α → Outcome ε β}

theorem bind_returns {b : β} (ok : (x >>= f) = .returns b) :
    ∃ a, x = .returns a ∧ f a = .returns b := by
  cases x with
  | panics => cases ok
  | fails e => cases ok
  | returns a => exact ⟨a, rfl, ok⟩

variable {p : Prop}

theorem returns_iff (holds : p) {a b : α} : (.returns a : Outcome ε α) = .returns b ↔
    p ∧ b = a := by
  constructor
  · intro same
    cases same
    exact ⟨holds, rfl⟩
  · intro both
    rw [both.2]

theorem bind_returns_iff {a : α} (first : ∀ a', x = .returns a' ↔ p ∧ a' = a)
    (f : α → β) {b : β} : (x >>= fun a => .returns (f a)) = .returns b ↔ p ∧ b = f a := by
  constructor
  · intro ok
    obtain ⟨a', here, last⟩ := bind_returns ok
    obtain ⟨holds, rfl⟩ := (first a').mp here
    cases last
    exact ⟨holds, rfl⟩
  · intro both
    rw [(first a).mpr ⟨both.1, rfl⟩, returns_bind, both.2]

variable {body : σ → α → Outcome ε σ}

theorem foldlM_pure {step : σ → α → σ} (as : List α)
    (steps : ∀ a ∈ as, ∀ s, body s a = .returns (step s a)) (s : σ) :
    as.foldlM body s = .returns (as.foldl step s) := by
  induction as generalizing s with
  | nil => rfl
  | cons a as ih =>
    obtain ⟨here, later⟩ := List.forall_mem_cons.mp steps
    rw [List.foldlM_cons, here, returns_bind, List.foldl_cons]
    exact ih later _

variable {s s' : σ}

theorem foldlM_view {τ : Type} (view : σ → τ) (step : τ → α → τ) (as : List α)
    (moves : ∀ {s a s'}, a ∈ as → body s a = .returns s' → view s' = step (view s) a)
    (ok : as.foldlM body s = .returns s') : view s' = as.foldl step (view s) := by
  induction as generalizing s with
  | nil =>
    cases ok
    rfl
  | cons a as ih =>
    rw [List.foldlM_cons] at ok
    obtain ⟨mid, first, rest⟩ := bind_returns ok
    rw [List.foldl_cons, ← moves List.mem_cons_self first]
    exact ih (fun mem => moves (List.mem_cons_of_mem a mem)) rest

theorem foldlM_invariant (P : σ → Prop)
    (keeps : ∀ {s a s'}, P s → body s a = .returns s' → P s') (as : List α) (start : P s)
    (ok : as.foldlM body s = .returns s') : P s' := by
  induction as generalizing s with
  | nil =>
    cases ok
    exact start
  | cons a as ih =>
    rw [List.foldlM_cons] at ok
    obtain ⟨mid, first, rest⟩ := bind_returns ok
    exact ih (keeps start first) rest

theorem foldlM_each (as : List α) (ok : as.foldlM body s = .returns s') :
    ∀ a ∈ as, ∃ t t', body t a = .returns t' := by
  induction as generalizing s with
  | nil => exact fun a mem => absurd mem List.not_mem_nil
  | cons a as ih =>
    rw [List.foldlM_cons] at ok
    obtain ⟨mid, first, rest⟩ := bind_returns ok
    exact List.forall_mem_cons.mpr ⟨⟨s, mid, first⟩, ih rest⟩

theorem foldlM_bounded (size : σ → Nat) (cost : α → Nat) (step : σ → α → σ)
    {capacity : Nat} (as : List α) (grows : ∀ s a, size (step s a) = size s + cost a)
    (fills : ∀ {s a s'}, a ∈ as → size s ≤ capacity →
      (body s a = .returns s' ↔ size s + cost a ≤ capacity ∧ s' = step s a)) (room :
      size s ≤ capacity) :
    as.foldlM body s = .returns s' ↔ size s + (as.map cost).sum ≤ capacity ∧
      s' = as.foldl step s := by
  induction as generalizing s with
  | nil =>
    simp only [List.foldlM_nil, pure_eq, returns.injEq, List.map_nil, List.sum_nil, Nat.add_zero,
      List.foldl_nil]
    exact ⟨fun same => ⟨room, same.symm⟩, fun both => both.2.symm⟩
  | cons a as ih =>
    have later := fun {t : σ} => ih (fun mem => fills (List.mem_cons_of_mem a mem)) (s := t)
    rw [List.foldlM_cons, List.map_cons, List.sum_cons, List.foldl_cons]
    constructor
    · intro ok
      obtain ⟨mid, first, rest⟩ := bind_returns ok
      obtain ⟨fits, rfl⟩ := (fills List.mem_cons_self room).mp first
      obtain ⟨all, same⟩ := (later (by rw [grows]; exact fits)).mp rest
      rw [grows] at all
      exact ⟨by omega, same⟩
    · rintro ⟨all, same⟩
      rw [(fills List.mem_cons_self room).mpr ⟨by omega, rfl⟩, returns_bind]
      exact (later (by rw [grows]; omega)).mpr ⟨by rw [grows]; omega, same⟩

def Ends (x : Outcome ε α) (post : α → Prop) : Prop :=
  match x with
  | .panics => False
  | .fails _ => True
  | .returns a => post a

theorem Ends.bind {post : α → Prop} (first : x.Ends post)
    {goal : β → Prop} (rest : ∀ a, post a → (f a).Ends goal) : (x >>= f).Ends goal := by
  cases x with
  | panics => exact first
  | fails e => exact trivial
  | returns a => exact rest a first

theorem Ends.spec {post : α → Prop} (ends : x.Ends post) :
    x ≠ .panics ∧ ∀ a, x = .returns a → post a := by
  cases x with
  | panics => exact ends.elim
  | fails e => exact ⟨fun same => (by cases same), fun a same => by cases same⟩
  | returns b =>
    refine ⟨fun same => (by cases same), fun a same => ?_⟩
    cases same
    exact ends

/-- A second computation that returns the same where a condition holds, and
    does not return where it does not. -/
structure Guarded (fits : Prop) (x y : Outcome ε α) : Prop where
  agrees : ∀ {a}, x = .returns a → fits → y = .returns a
  refuses : ∀ {a b}, x = .returns a → y = .returns b → fits

theorem Guarded.refl {fits : Prop} (x : Outcome ε α) (always : fits) : Guarded fits x x :=
  ⟨fun ok _ => ok, fun _ _ => always⟩

variable {y : Outcome ε α}

theorem Guarded.iff {fits : Prop} (guarded : Guarded fits x y) {a : α}
    (ok : x = .returns a) : y = .returns a ↔ fits :=
  ⟨guarded.refuses ok, guarded.agrees ok⟩

theorem Guarded.bind {q : Prop} {g : α → Outcome ε β} (first : Guarded p x y)
    (rest : ∀ a, x = .returns a → Guarded q (f a) (g a)) : Guarded (p ∧ q) (x >>= f) (y >>= g) where
  agrees := by
    intro b ok both
    obtain ⟨a, head, tail⟩ := bind_returns ok
    rw [first.agrees head both.1, returns_bind]
    exact (rest a head).agrees tail both.2
  refuses := by
    intro b c ok other
    obtain ⟨a, head, tail⟩ := bind_returns ok
    obtain ⟨a', head', tail'⟩ := bind_returns other
    have fits := first.refuses head head'
    have same := first.agrees head fits
    rw [head'] at same
    cases same
    exact ⟨fits, (rest a head).refuses tail tail'⟩

theorem Guarded.of_iff {q : Prop} (guarded : Guarded p x y) (same : p ↔ q) : Guarded q x y :=
  ⟨fun ok fits => guarded.agrees ok (same.mpr fits),
    fun ok other => same.mp (guarded.refuses ok other)⟩

theorem Guarded.check [Decidable p] (x : Outcome ε α) (e : ε) :
    Guarded p x (if p then x else .fails e) where
  agrees := by
    intro a ok fits
    rw [if_pos fits, ok]
  refuses := by
    intro a b _ strict
    by_cases fits : p
    · exact fits
    · rw [if_neg fits] at strict
      cases strict

theorem Guarded.after (z : Outcome ε α) {g : α → Outcome ε β}
    (rest : ∀ a, z = .returns a → Guarded p (f a) (g a)) : Guarded p (z >>= f) (z >>= g) := by
  cases z with
  | panics => exact ⟨nofun, nofun⟩
  | fails e => exact ⟨nofun, nofun⟩
  | returns a => exact rest a rfl

theorem Guarded.before (first : Guarded p x y) (f : α → Outcome ε β) :
    Guarded p (x >>= f) (y >>= f) :=
  (first.bind fun a _ => Guarded.refl (f a) trivial).of_iff (iff_of_eq (and_true p))

theorem Guarded.foldlM {other : σ → α → Outcome ε σ} {fits : α → Prop}
    (step : ∀ s a, Guarded (fits a) (body s a) (other s a)) (as : List α) (s : σ) :
    Guarded (∀ a ∈ as, fits a) (as.foldlM body s) (as.foldlM other s) := by
  induction as generalizing s with
  | nil => exact Guarded.refl _ fun a mem => absurd mem List.not_mem_nil
  | cons a as ih =>
    rw [List.foldlM_cons, List.foldlM_cons, List.forall_mem_cons]
    exact (step s a).bind fun t _ => ih t

/-- One computation stands for a family of them: where it panics the strict one
    does, and where it fails or returns all do. -/
def Mirrors {κ : Type} (strict : κ) (view : α → β) (x : κ → Outcome ε α) : Outcome Unit β → Prop
  | .panics => x strict = .panics
  | .fails _ => ∀ c, ∃ e, x c = .fails e
  | .returns b => ∃ a, view a = b ∧ ∀ c, x c = .returns a

section
variable {κ : Type} {strict : κ} {view : α → β}

variable {x : κ → Outcome ε α} {y : Outcome Unit β}

theorem Mirrors.strict_panics (mirrors : Mirrors strict view x y)
    (panics : y = .panics) : x strict = .panics := by
  subst panics
  exact mirrors

theorem Mirrors.panic_iff (mirrors : Mirrors strict view x y) :
    (∀ c, x c ≠ .panics) ↔ y ≠ .panics := by
  cases y with
  | panics => exact ⟨fun safe => absurd mirrors (safe strict), fun safe => absurd rfl safe⟩
  | fails e =>
    refine ⟨fun _ => nofun, fun _ c panics => ?_⟩
    obtain ⟨e, failed⟩ := mirrors c
    rw [failed] at panics
    cases panics
  | returns b =>
    refine ⟨fun _ => nofun, fun _ c panics => ?_⟩
    obtain ⟨a, _, returned⟩ := mirrors
    rw [returned] at panics
    cases panics

theorem Mirrors.bind {γ δ : Type} {view' : γ → δ}
    {f : κ → α → Outcome ε γ} {g : β → Outcome Unit δ} (first : Mirrors strict view x y)
    (rest : ∀ a, (∀ c, x c = .returns a) → Mirrors strict view' (fun c => f c a) (g (view a))) :
    Mirrors strict view' (fun c => x c >>= f c) (y >>= g) := by
  cases y with
  | panics =>
    show x strict >>= f strict = .panics
    rw [show x strict = .panics from first, panics_bind]
  | fails e =>
    intro c
    obtain ⟨e, failed⟩ := first c
    exact ⟨e, (congrArg (· >>= f c) failed).trans (fails_bind e (f c))⟩
  | returns b =>
    obtain ⟨a, rfl, returned⟩ := first
    have same : (fun c => x c >>= f c) = fun c => f c a := by
      funext c
      rw [returned, returns_bind]
    rw [same, returns_bind]
    exact rest a returned

theorem Mirrors.map {γ : Type} {view' : γ → β} {f : α → γ}
    (mirrors : Mirrors strict view x y) (same : ∀ a, view' (f a) = view a) :
    Mirrors strict view' (fun c => x c >>= fun a => .returns (f a)) y := by
  have last : y >>= Outcome.returns = y := bind_pure y
  rw [← last]
  apply mirrors.bind
  intro a _
  exact ⟨f a, same a, fun _ => rfl⟩

end
end Outcome

namespace Results
variable {ε α β : Type}

theorem toOption_bind (x : Except ε α) (f : α → Except ε β) :
    (x >>= f).toOption = x.toOption.bind fun a => (f a).toOption := by
  cases x <;> rfl

theorem bind_ok {x : Except ε α} {f : α → Except ε β} {b : β} (ok : (x >>= f) = .ok b) :
    ∃ a, x = .ok a ∧ f a = .ok b := by
  cases x with
  | error e => cases ok
  | ok a => exact ⟨a, rfl, ok⟩

theorem ok_of_toOption {x : Except ε α} {a : α} (ok : x.toOption = some a) : x = .ok a := by
  cases x with
  | error e => cases ok
  | ok b => exact congrArg Except.ok (Option.some.inj ok)

theorem mapM_cons_toOption (f : α → Except ε β) (a : α) (as : List α) :
    ((a :: as).mapM f).toOption = (f a).toOption.bind fun b =>
    (as.mapM f).toOption.map (b :: ·) := by
  rw [List.mapM_cons]
  cases f a with
  | error e => rfl
  | ok b => cases as.mapM f <;> rfl

end Results
