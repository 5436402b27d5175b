import Mathlib.Data.List.MinMax
import Mathlib.Data.List.Nodup

/-!
The choice of one element of a list by comparing each with the choice so far. The
comparison need not be an order, and then the choice may depend on the order of the list.
-/
namespace Selection
variable {α : Type} (fits : α → Bool) (better : α → α → Bool)

@[grind =]
def select : Option α → List α → Option α
  | best, [] => best
  | none, r :: rest => select (if fits r then some r else none) rest
  | some b, r :: rest => select (if better r b then some r else some b) rest

variable {fits better}

theorem select_append (best : Option α) (front rest : List α) :
    select fits better best (front ++ rest) = select fits better (select fits better best front)
      rest := by
  induction front generalizing best with
  | nil => rfl
  | cons r front ih =>
    cases best with
    | none => exact ih _
    | some b => exact ih _

theorem select_some (sound : ∀ r b, better r b = true → fits r = true) {best : Option α}
    {rules : List α} {b : α} (chosen : select fits better best rules = some b) : best = some b ∨
    (b ∈ rules ∧ fits b = true) := by
  induction rules generalizing best with
  | nil => exact Or.inl chosen
  | cons r rules ih =>
    cases best with
    | none =>
      rcases ih chosen with first | ⟨later, fit⟩
      · split at first
        · rename_i fit
          cases first
          exact Or.inr ⟨List.mem_cons_self, fit⟩
        · cases first
      · exact Or.inr ⟨List.mem_cons_of_mem r later, fit⟩
    | some c =>
      rcases ih chosen with first | ⟨later, fit⟩
      · split at first
        · rename_i isBetter
          cases first
          exact Or.inr ⟨List.mem_cons_self, sound _ _ isBetter⟩
        · exact Or.inl first
      · exact Or.inr ⟨List.mem_cons_of_mem r later, fit⟩

theorem select_isSome (b : α) (rules : List α) :
    ∃ c, select fits better (some b) rules = some c := by
  induction rules generalizing b with
  | nil => exact ⟨b, rfl⟩
  | cons r rules ih =>
    rw [select]
    split
    · exact ih r
    · exact ih b

theorem select_none_iff {rules : List α} : select fits better none rules = none ↔
    ∀ r ∈ rules, fits r = false := by
  induction rules with
  | nil => simp [select]
  | cons r rules ih =>
    rw [select, List.forall_mem_cons]
    cases fit : fits r with
    | false => simpa using ih
    | true =>
      obtain ⟨c, chosen⟩ := @select_isSome _ fits better r rules
      simp [chosen]

theorem select_kept {b : α} {back : List α} (kept : ∀ r ∈ back, better r b = false) :
    select fits better (some b) back = some b := by
  induction back with
  | nil => rfl
  | cons r back ih =>
    rw [List.forall_mem_cons] at kept
    rw [select, if_neg (by simp [kept.1])]
    exact ih kept.2

theorem select_won (sound : ∀ r b, better r b = true → fits r = true) {b : α} {front : List α}
    (fit : fits b = true) (wins : ∀ r ∈ front, fits r = true → better b r = true) :
    select fits better none (front ++ [b]) = some b := by
  rw [select_append]
  cases chosen : select fits better none front with
  | none => rw [select, if_pos fit, select]
  | some c =>
    rcases select_some sound chosen with absent | ⟨member, fits_⟩
    · cases absent
    · rw [select, if_pos (wins c member fits_), select]

/-- An element that is better than all others is chosen in every order, exactly if none of
    the others is better than it. -/
theorem select_all_orders_iff (sound : ∀ r b, better r b = true → fits r = true) {rules : List α}
    (distinct : rules.Nodup) {b : α} (member : b ∈ rules) (fit : fits b = true)
    (wins : ∀ r ∈ rules, r ≠ b → fits r = true → better b r = true) :
    (∀ order, order.Perm rules → select fits better none order = some b) ↔
      ∀ r ∈ rules, r ≠ b → better r b = false := by
  constructor
  · intro chosen r inside other
    by_contra beats
    rw [Bool.not_eq_false] at beats
    obtain ⟨front, back, rfl⟩ := List.append_of_mem inside
    have rest : b ∈ front ++ back := by
      rcases List.mem_append.mp member with before | after
      · exact List.mem_append_left back before
      · rcases List.mem_cons.mp after with same | behind
        · exact absurd same.symm other
        · exact List.mem_append_right front behind
    obtain ⟨before, after, split⟩ := List.append_of_mem rest
    have order : ((before ++ after) ++ [b, r]).Perm (front ++ r :: back) := by
      have first : (before ++ b :: after).Perm ((before ++ after) ++ [b]) := by
        rw [List.append_assoc]
        exact List.Perm.append_left before (List.perm_append_singleton b after).symm
      have whole : (front ++ r :: back).Perm ((front ++ back) ++ [r]) := by
        rw [List.append_assoc]
        exact List.Perm.append_left front (List.perm_append_singleton r back).symm
      rw [split] at whole
      have both := whole.trans (first.append_right [r])
      rw [List.append_assoc] at both
      exact both.symm
    have noOther : ∀ c ∈ before ++ after, c ∈ front ++ r :: back ∧ c ≠ b := by
      intro c inside'
      have perm := (order.nodup_iff.mpr distinct)
      refine ⟨order.mem_iff.mp (List.mem_append_left _ inside'), ?_⟩
      rintro rfl
      exact (List.nodup_append.mp perm).2.2 c inside' c List.mem_cons_self rfl
    have won : select fits better none ((before ++ after) ++ [b]) = some b :=
      select_won sound fit fun c inside' fits_ => wins c (noOther c inside').1
        (noOther c inside').2 fits_
    have deposed := chosen _ order
    rw [show (before ++ after) ++ [b, r] = ((before ++ after) ++ [b]) ++
      [r] by simp, select_append, won, select, if_pos beats, select] at deposed
    exact other (Option.some.inj deposed)
  · intro unbeaten order perm
    obtain ⟨front, back, rfl⟩ := List.append_of_mem (perm.mem_iff.mpr member)
    have nodup := perm.nodup_iff.mpr distinct
    obtain ⟨-, backNodup, apart⟩ := List.nodup_append.mp nodup
    have won : select fits better none (front ++ [b]) = some b := by
      refine select_won sound fit fun c inside fits_ => ?_
      exact wins c (perm.mem_iff.mp (List.mem_append_left _ inside))
        (apart c inside b List.mem_cons_self) fits_
    rw [show front ++ b :: back = (front ++ [b]) ++ back by simp, select_append, won]
    refine select_kept fun c inside =>
      unbeaten c (perm.mem_iff.mp (List.mem_append_right _ (List.mem_cons_of_mem b inside))) ?_
    rintro rfl
    exact (List.nodup_cons.mp backNodup).1 inside

end Selection
