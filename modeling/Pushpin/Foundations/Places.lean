import Mathlib.Data.List.Basic

/-!
Places inside of nested values. A value has children under references, and a child
that is there can be replaced. A path of references names a place, and a replaced
place leaves alone every place that its path is not above or below.
-/
namespace Places

structure Nesting (V R : Type) where
  child : V → R → Option V
  setChild : V → R → V → V
  child_setChild : ∀ {v r} c, (child v r).isSome → child (setChild v r c) r = some c
  child_setChild_of_ne : ∀ {v r s} c, (child v r).isSome → s ≠ r →
    child (setChild v r c) s = child v s

def Apart {R : Type} (p q : List R) : Prop := ¬ p <+: q ∧ ¬ q <+: p

instance {R : Type} [DecidableEq R] (p q : List R) : Decidable (Apart p q) :=
  inferInstanceAs (Decidable (¬ p <+: q ∧ ¬ q <+: p))

theorem Apart.cons_iff {R : Type} {r : R} {p q : List R} : Apart (r :: p) (r :: q) ↔ Apart p q := by
  simp only [Apart, List.prefix_cons_inj]

theorem Apart.parts {R : Type} {p q : List R} (apart : Apart p q) :
    ∃ common a b p' q', p = common ++ a :: p' ∧ q = common ++ b :: q' ∧ b ≠ a := by
  induction p generalizing q with
  | nil => exact (apart.1 q.nil_prefix).elim
  | cons a p ih =>
    cases q with
    | nil => exact (apart.2 (List.nil_prefix)).elim
    | cons b q =>
      by_cases same : b = a
      · subst same
        obtain ⟨common, a, b, p', q', rfl, rfl, differ⟩ := ih (Apart.cons_iff.mp apart)
        exact ⟨_ :: common, a, b, p', q', rfl, rfl, differ⟩
      · exact ⟨[], a, b, p, q, rfl, rfl, same⟩

/-- A path apart from one that ends in `r` is apart from what is before `r`, or leads
    elsewhere from there. -/
theorem Apart.of_append {R : Type} {path q : List R} {r : R} (apart : Apart (path ++ [r]) q) :
    Apart path q ∨ ∃ s rest, q = path ++ s :: rest ∧ s ≠ r := by
  by_cases above : path <+: q
  · obtain ⟨rest, rfl⟩ := above
    cases rest with
    | nil => exact (apart.2 (by simp)).elim
    | cons s rest =>
      refine Or.inr ⟨s, rest, rfl, ?_⟩
      rintro rfl
      exact apart.1 ⟨rest, by simp⟩
  · exact Or.inl ⟨above, fun below => apart.2 (below.trans (List.prefix_append path [r]))⟩

namespace Nesting
variable {V R : Type} (T : Nesting V R)

def locate (v : V) : List R → Option V
  | [] => some v
  | r :: path => (T.child v r).bind fun c => locate c path

def replaceAt (v : V) : List R → V → V
  | [], x => x
  | r :: path, x =>
    match T.child v r with
    | some c => T.setChild v r (replaceAt c path x)
    | none => v

@[simp] theorem locate_nil (v : V) : T.locate v [] = some v := rfl

@[simp] theorem locate_cons (v : V) (r : R) (path : List R) :
    T.locate v (r :: path) = (T.child v r).bind fun c => T.locate c path := rfl

theorem locate_append (v : V) (path rest : List R) :
    T.locate v (path ++ rest) = (T.locate v path).bind fun c => T.locate c rest := by
  induction path generalizing v with
  | nil => rfl
  | cons r path ih =>
    rw [List.cons_append, locate_cons, locate_cons, Option.bind_assoc]
    exact congrArg _ (funext fun c => ih c)

theorem replaceAt_cons {v c : V} {r : R} (there : T.child v r = some c) (path : List R) (x : V) :
    T.replaceAt v (r :: path) x = T.setChild v r (T.replaceAt c path x) := by
  rw [replaceAt, there]

theorem replaceAt_append {v holder : V} {path : List R} (held : T.locate v path = some holder)
    (rest : List R) (x : V) :
    T.replaceAt v (path ++ rest) x = T.replaceAt v path (T.replaceAt holder rest x) := by
  induction path generalizing v with
  | nil =>
    rw [locate_nil, Option.some.injEq] at held
    subst held
    rfl
  | cons r path ih =>
    rw [locate_cons] at held
    cases found : T.child v r with
    | none => rw [found] at held; cases held
    | some c =>
      rw [found, Option.bind_some] at held
      rw [List.cons_append, T.replaceAt_cons found, T.replaceAt_cons found, ih held]

section
variable {v : V} {path : List R} (there : (T.locate v path).isSome) (x : V)
include there x

theorem locate_replaceAt : T.locate (T.replaceAt v path x) path = some x := by
  induction path generalizing v with
  | nil => rfl
  | cons r path ih =>
    rw [locate_cons] at there
    cases found : T.child v r with
    | none => rw [found] at there; exact absurd there (by simp)
    | some c =>
      rw [found, Option.bind_some] at there
      rw [T.replaceAt_cons found, locate_cons, T.child_setChild _ (by rw [found]; rfl),
        Option.bind_some]
      exact ih there

/-- A path that leads away from the changed place before its end. The last common value
    is the one whose children matter. -/
theorem locate_replaceAt_through {q : List R} (same : ∀ holder, T.locate v path = some holder →
    T.locate x q = T.locate holder q) :
    T.locate (T.replaceAt v path x) (path ++ q) = T.locate v (path ++ q) := by
  obtain ⟨holder, held⟩ := Option.isSome_iff_exists.mp there
  rw [locate_append, locate_append, T.locate_replaceAt there, held]
  exact same holder held

theorem locate_replaceAt_apart {q : List R} (apart : Apart path q) :
    T.locate (T.replaceAt v path x) q = T.locate v q := by
  obtain ⟨common, a, b, path', q', rfl, rfl, differ⟩ := apart.parts
  induction common generalizing v with
  | nil =>
    rw [List.nil_append, locate_cons] at there
    cases found : T.child v a with
    | none => rw [found] at there; exact absurd there (by simp)
    | some c =>
      rw [List.nil_append, List.nil_append, T.replaceAt_cons found, locate_cons, locate_cons,
        T.child_setChild_of_ne _ (by rw [found]; rfl) differ]
  | cons r common ih =>
    rw [List.cons_append, locate_cons] at there
    rw [List.cons_append, List.cons_append, Apart.cons_iff] at apart
    cases found : T.child v r with
    | none => rw [found] at there; exact absurd there (by simp)
    | some c =>
      rw [found, Option.bind_some] at there
      rw [List.cons_append, List.cons_append, T.replaceAt_cons found, locate_cons, locate_cons,
        T.child_setChild _ (by rw [found]; rfl), found, Option.bind_some, Option.bind_some]
      exact ih there apart

end

end Nesting
end Places
