import Mathlib.Data.List.Basic

/-!
Texts joined by a separator that may occur in them. What is joined can be told from
the parts between separators, and the texts from the parts and the separators that
are inside of each text.
-/
namespace Joining
variable {α : Type} [DecidableEq α] (sep : α)

def parts (texts : List (List α)) : List (List α) := texts.flatMap fun t => t.splitOn sep

def inside (texts : List (List α)) : List Nat := texts.map fun t => t.count sep

omit [DecidableEq α] in
theorem intercalate_cons (t : List α) (texts : List (List α)) :
    [sep].intercalate (t :: texts) = t ++ texts.flatMap (sep :: ·) := by
  induction texts generalizing t with
  | nil => simp
  | cons s texts ih =>
      rw [List.intercalate_cons_cons, ih, List.flatMap_cons, List.append_assoc,
        List.singleton_append,
      List.cons_append]

omit [DecidableEq α] in
theorem foldl_append (start : List α) (texts : List (List α)) :
    texts.foldl (fun joined t => joined ++ sep :: t) start =
      [sep].intercalate (start :: texts) := by
  rw [intercalate_cons]
  induction texts generalizing start with
  | nil => simp
  | cons t texts ih => rw [List.foldl_cons, ih, List.flatMap_cons, List.append_assoc]

theorem splitOn_intercalate {texts : List (List α)} (some_ : texts ≠ []) :
    ([sep].intercalate texts).splitOn sep = parts sep texts := by
  induction texts with
  | nil => exact absurd rfl some_
  | cons t texts ih =>
    cases texts with
    | nil => simp [parts]
    | cons s texts =>
      rw [List.intercalate_cons_cons, List.append_assoc, List.singleton_append,
        List.splitOn_append_cons_self, ih (by simp)]
      rfl

theorem intercalate_eq_iff {texts others : List (List α)} (some_ : texts ≠ [])
    (someOther : others ≠ []) : [sep].intercalate texts = [sep].intercalate others ↔
    parts sep texts = parts sep others := by
  rw [← splitOn_intercalate sep some_, ← splitOn_intercalate sep someOther]
  constructor
  · intro same
    rw [same]
  · intro same
    have whole : ∀ t : List α, [sep].intercalate (t.splitOn sep) = t :=
      fun _ => List.intercalate_splitOn sep
    rw [← whole ([sep].intercalate texts), same, whole]

theorem length_splitOn (t : List α) : (t.splitOn sep).length = t.count sep + 1 := by
  induction t with
  | nil => rfl
  | cons a t ih =>
    rw [List.splitOn_cons_eq_if_modifyHead, List.count_cons]
    split
    · rw [List.length_cons, ih]
    · rw [List.length_modifyHead, ih, Nat.add_zero]

theorem eq_of_parts {texts others : List (List α)} (sameParts : parts sep texts = parts sep others)
    (sameInside : inside sep texts = inside sep others) : texts = others := by
  induction texts generalizing others with
  | nil =>
    cases others with
    | nil => rfl
    | cons o others => cases sameInside
  | cons t texts ih =>
    cases others with
    | nil => cases sameInside
    | cons o others =>
      have counts : t.count sep = o.count sep := (List.cons.inj sameInside).1
      have lengths : (t.splitOn sep).length = (o.splitOn sep).length := by
        rw [length_splitOn, length_splitOn, counts]
      obtain ⟨firstParts, rest⟩ := List.append_inj sameParts lengths
      have first : t.splitOn sep = o.splitOn sep := firstParts
      have whole : ∀ u : List α, [sep].intercalate (u.splitOn sep) = u :=
        fun _ => List.intercalate_splitOn sep
      have head : t = o := by
        rw [← whole t, first, whole]
      rw [head, ih rest (List.cons.inj sameInside).2]

theorem parts_eq_self {texts : List (List α)} (clean : ∀ t ∈ texts, sep ∉ t) :
    parts sep texts = texts := by
  induction texts with
  | nil => rfl
  | cons t texts ih =>
    rw [parts, List.flatMap_cons, List.splitOn_eq_singleton (clean t (by simp))]
    exact congrArg (t :: ·) (ih fun s member => clean s (by simp [member]))

omit [DecidableEq α] in
theorem append_sep_cases {a b x y : List α} (same : a ++ sep :: x = b ++ sep :: y) :
    (a = b ∧ x = y) ∨ (∃ m, b = a ++ sep :: m ∧ x = m ++ sep :: y) ∨ ∃ m, a = b ++ sep :: m ∧
    y = m ++ sep :: x := by
  rcases List.append_eq_append_iff.mp same with ⟨more, front, rest⟩ | ⟨more, front, rest⟩
  · cases more with
    | nil =>
      rw [List.append_nil] at front
      exact Or.inl ⟨front.symm, (List.cons.inj rest).2⟩
    | cons c more =>
      obtain ⟨rfl, later⟩ := List.cons.inj rest
      exact Or.inr (Or.inl ⟨more, front, later⟩)
  · cases more with
    | nil =>
      rw [List.append_nil] at front
      exact Or.inl ⟨front, (List.cons.inj rest).2.symm⟩
    | cons c more =>
      obtain ⟨rfl, later⟩ := List.cons.inj rest
      exact Or.inr (Or.inr ⟨more, front, later⟩)

omit [DecidableEq α] in
theorem append_sep_first {a b x y : List α} (plain : sep ∉ a)
    (same : a ++ sep :: x = b ++ sep :: y) : (a = b ∧ x = y) ∨ ∃ m, b = a ++ sep :: m ∧
    x = m ++ sep :: y := by
  rcases append_sep_cases sep same with equal | later | ⟨m, rfl, -⟩
  · exact Or.inl equal
  · exact Or.inr later
  · exact absurd (by simp) plain

end Joining
