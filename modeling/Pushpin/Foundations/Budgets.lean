import Mathlib.Algebra.Order.BigOperators.Group.List
import Mathlib.Algebra.Order.Ring.Int
import Mathlib.Algebra.Order.Ring.Nat

/-!
Items taken in order while a limit on their number and a limit on their total size
allow one more. A limit that is not positive is none.
-/
namespace Budgets

def total (sizes : List Nat) (n : Nat) : Nat := (sizes.take n).sum

def GoesOn (countMax sizeMax : Int) (sizes : List Nat) (n : Nat) : Prop :=
  (countMax ≤ 0 ∨ n < countMax) ∧ (sizeMax ≤ 0 ∨ total sizes n < sizeMax)

instance (countMax sizeMax : Int) (sizes : List Nat) (n : Nat) :
    Decidable (GoesOn countMax sizeMax sizes n) :=
  inferInstanceAs (Decidable (_ ∧ _))

structure Taken (countMax sizeMax : Int) (sizes : List Nat) (n : Nat) : Prop where
  there : n ≤ sizes.length
  before : ∀ i < n, GoesOn countMax sizeMax sizes i
  stops : n = sizes.length ∨ ¬ GoesOn countMax sizeMax sizes n

variable {countMax sizeMax : Int} {sizes : List Nat}

theorem total_mono (sizes : List Nat) {i j : Nat} (le : i ≤ j) : total sizes i ≤ total sizes j :=
  (List.take_sublist_take_left le).sum_le_sum fun _ _ => Nat.zero_le _

theorem total_append (front : List Nat) (size : Nat) (rest : List Nat) :
    total (front ++ size :: rest) front.length = front.sum := by
  rw [total, List.take_left]

theorem GoesOn.earlier {i j : Nat} (goesOn : GoesOn countMax sizeMax sizes j) (le : i ≤ j) :
    GoesOn countMax sizeMax sizes i := by
  have sums := total_mono sizes le
  obtain ⟨count, size⟩ := goesOn
  exact ⟨count.imp_right fun below => by omega, size.imp_right fun below => by omega⟩

theorem Taken.lt_iff {n : Nat} (taken : Taken countMax sizeMax sizes n) (i : Nat) :
    i < n ↔ i < sizes.length ∧ GoesOn countMax sizeMax sizes i := by
  constructor
  · intro below
    exact ⟨lt_of_lt_of_le below taken.there, taken.before i below⟩
  · intro allowed
    by_contra notBelow
    rcases taken.stops with all | stopped
    · omega
    · exact stopped (allowed.2.earlier (by omega))

end Budgets
