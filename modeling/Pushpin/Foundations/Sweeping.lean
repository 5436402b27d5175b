import Mathlib.Data.List.Basic

/-!
A loop over the index of a list that removes elements in place, and lists of which some
elements are hidden.
-/
namespace Sweeping
variable {α β : Type}

/-- The loop from an index on: what is given of each element, and the list without those
    that are removed. The index stays where it is after a removal. -/
def sweepFrom (removes : α → Bool) (gives : α → List β) : Nat → Nat → List α → List β →
    List β × List α
  | 0, _, xs, out => (out, xs)
  | passes + 1, n, xs, out =>
    match xs[n]? with
    | none => (out, xs)
    | some x =>
      if removes x then sweepFrom removes gives passes n (xs.eraseIdx n) (out ++ gives x)
      else sweepFrom removes gives passes (n + 1) xs (out ++ gives x)

def sweep (removes : α → Bool) (gives : α → List β) (xs : List α) : List β × List α :=
  sweepFrom removes gives xs.length 0 xs []

theorem sweepFrom_eq (removes : α → Bool) (gives : α → List β) (front rest : List α)
    (out : List β) : sweepFrom removes gives rest.length front.length (front ++ rest) out =
      (out ++ rest.flatMap gives, front ++ rest.filter fun x => !removes x) := by
  induction rest generalizing front out with
  | nil => simp [sweepFrom]
  | cons x rest ih =>
    have here : (front ++ x :: rest)[front.length]? = some x := by simp
    rw [List.length_cons, sweepFrom, here]
    dsimp only
    split
    · rename_i isRemoved
      rw [List.eraseIdx_append_of_length_le (Nat.le_refl _), Nat.sub_self, List.eraseIdx_cons_zero,
        ih front, List.filter_cons_of_neg (by simp [isRemoved]), List.flatMap_cons,
          List.append_assoc]
    · rename_i stays
      have next := ih (front ++ [x]) (out ++ gives x)
      rw [List.length_append, List.length_singleton, List.append_assoc,
        List.singleton_append] at next
      rw [next, List.filter_cons_of_pos (by simpa using stays), List.flatMap_cons]
      simp

theorem sweep_eq (removes : α → Bool) (gives : α → List β) (xs : List α) :
    sweep removes gives xs = (xs.flatMap gives, xs.filter fun x => !removes x) :=
  sweepFrom_eq removes gives [] xs []

variable (hidden : α → Bool)

def shown (xs : List α) : List α := xs.filter fun x => !hidden x

/-- A change of a list that hidden elements have no part in. -/
def Respects (f : List α → List α) : Prop := ∀ xs, shown hidden (f xs) = f (shown hidden xs)

variable {hidden}

theorem Respects.comp {f g : List α → List α} (outer : Respects hidden f)
    (inner : Respects hidden g) :
    Respects hidden fun xs => f (g xs) := fun xs => by rw [outer, inner]

theorem respects_id : Respects hidden fun xs => xs := fun _ => rfl

theorem respects_filter (p : α → Bool) : Respects hidden (List.filter p) := fun xs => by
  rw [shown, shown, List.filter_filter, List.filter_filter]
  simp only [Bool.and_comm]

theorem shown_flatMap {gives : α → List β} (nothing : ∀ x, hidden x = true → gives x = [])
    (xs : List α) : (shown hidden xs).flatMap gives = xs.flatMap gives := by
  induction xs with
  | nil => rfl
  | cons x xs ih =>
    cases isHidden : hidden x with
    | true =>
      have dropped : shown hidden (x :: xs) = shown hidden xs :=
        List.filter_cons_of_neg (by simp [isHidden])
      rw [dropped, ih, List.flatMap_cons, nothing x isHidden, List.nil_append]
    | false =>
      have kept : shown hidden (x :: xs) = x :: shown hidden xs :=
        List.filter_cons_of_pos (by simp [isHidden])
      rw [kept, List.flatMap_cons, List.flatMap_cons, ih]

theorem respects_collect {p : α → Bool} {gives : α → List β} {make : List β → List α}
    (nothing : ∀ x, hidden x = true → gives x = [])
    (visible : ∀ bs, ∀ x ∈ make bs, hidden x = false) :
    Respects hidden fun xs => xs.filter p ++ make (xs.flatMap gives) := fun xs => by
  have made : shown hidden (make (xs.flatMap gives)) = make (xs.flatMap gives) :=
    List.filter_eq_self.mpr fun x member => by simp [visible _ x member]
  have filtered : shown hidden (xs.filter p) = (shown hidden xs).filter p := respects_filter p xs
  rw [shown, List.filter_append]
  change shown hidden (xs.filter p) ++ shown hidden (make (xs.flatMap gives)) = _
  dsimp only
  rw [filtered, made, shown_flatMap nothing]

theorem Respects.same {f : List α → List α} (respects : Respects hidden f) {xs ys : List α}
    (alike : shown hidden xs = shown hidden ys) : shown hidden (f xs) = shown hidden (f ys) := by
  rw [respects, respects, alike]

def Keeps (p : α → Bool) (f : List α → List α) : Prop := ∀ xs, (f xs).filter p = xs.filter p

variable {p : α → Bool}

theorem keeps_id : Keeps p fun xs => xs := fun _ => rfl

theorem Keeps.comp {f g : List α → List α} (outer : Keeps p f) (inner : Keeps p g) :
    Keeps p fun xs => f (g xs) :=
  fun xs => (outer (g xs)).trans (inner xs)

theorem keeps_filter {q : α → Bool} (stay : ∀ x, p x = true → q x = true) :
    Keeps p (List.filter q) := fun xs => by
  rw [List.filter_filter]
  apply List.filter_congr
  intro x _
  cases kind : p x with
  | false => rfl
  | true => rw [stay x kind]; rfl

theorem Keeps.append {f g : List α → List α} (keeps : Keeps p f)
    (others : ∀ xs, ∀ x ∈ g xs, p x = false) : Keeps p fun xs => f xs ++ g xs := fun xs => by
  have nothing : (g xs).filter p = [] :=
    List.filter_eq_nil_iff.mpr fun x member => by simp [others xs x member]
  rw [List.filter_append, keeps, nothing, List.append_nil]

end Sweeping
