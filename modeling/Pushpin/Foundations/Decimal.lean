import Mathlib.Algebra.Order.Ring.Nat
import Mathlib.Data.List.Basic

/-!
Numbers as decimal text, most significant digit first.
-/
namespace Decimal

def digit (d : Nat) : UInt8 := UInt8.ofNat (48 + d)

def isDigit (c : UInt8) : Bool := 48 ≤ c && c ≤ 57

def digitValue (c : UInt8) : Nat := c.toNat - 48

def value (s : List UInt8) : Nat := s.foldl (fun v c => v * 10 + digitValue c) 0

@[grind =]
def textFrom : Nat → Nat → List UInt8
  | 0, _ => []
  | places + 1, n => if n < 10 then [digit n] else textFrom places (n / 10) ++ [digit (n % 10)]

def text (n : Nat) : List UInt8 := textFrom (n + 1) n

theorem digit_spec {d : Nat} (small : d < 10) : isDigit (digit d) = true ∧
    digitValue (digit d) = d := by
  have all : ∀ d : Fin 10, isDigit (digit d) = true ∧ digitValue (digit d) = d := by decide
  exact all ⟨d, small⟩

theorem value_append (s : List UInt8) (c : UInt8) :
    value (s ++ [c]) = value s * 10 + digitValue c := by
  simp only [value, List.foldl_append, List.foldl_cons, List.foldl_nil]

theorem textFrom_spec (places : Nat) {n : Nat} (fits : n < places) :
    textFrom places n ≠ [] ∧ (textFrom places n).all isDigit = true ∧
      value (textFrom places n) = n := by
  induction places generalizing n with
  | zero => omega
  | succ places ih =>
    unfold textFrom
    split
    · rename_i small
      obtain ⟨is_digit, its_value⟩ := digit_spec small
      exact ⟨by simp, by simp [is_digit], by simp [value, its_value]⟩
    · rename_i large
      obtain ⟨_, all, rest⟩ := ih (show n / 10 < places by omega)
      obtain ⟨is_digit, its_value⟩ := digit_spec (Nat.mod_lt n (by decide : 0 < 10))
      refine ⟨by simp, by simp [List.all_append, all, is_digit], ?_⟩
      rw [value_append, rest, its_value]
      omega

theorem text_ne_nil (n : Nat) : text n ≠ [] := (textFrom_spec (n + 1) (Nat.lt_succ_self n)).1

theorem text_all (n : Nat) : (text n).all isDigit = true :=
  (textFrom_spec (n + 1) (Nat.lt_succ_self n)).2.1

theorem value_text (n : Nat) : value (text n) = n :=
  (textFrom_spec (n + 1) (Nat.lt_succ_self n)).2.2

theorem textFrom_enough (places more : Nat) {n : Nat} (fits : n < places) :
    textFrom (places + more) n = textFrom places n := by
  induction places generalizing n with
  | zero => omega
  | succ places ih =>
    rw [show places + 1 + more = places + more + 1 by omega]
    unfold textFrom
    split
    · rfl
    · rw [ih (by omega)]

theorem text_of_large {n : Nat} (large : 10 ≤ n) : text n = text (n / 10) ++ [digit (n % 10)] := by
  have enough := textFrom_enough (n / 10 + 1) (n - n / 10 - 1) (Nat.lt_succ_self (n / 10))
  rw [show n / 10 + 1 + (n - n / 10 - 1) = n by omega] at enough
  rw [text, textFrom, if_neg (by omega), enough, text]

theorem text_of_small {n : Nat} (small : n < 10) : text n = [digit n] := by
  rw [text, textFrom, if_pos small]

theorem text_length_mono {m n : Nat} (le : m ≤ n) : (text m).length ≤ (text n).length := by
  induction n using Nat.strongRecOn generalizing m with
  | ind n ih =>
    rcases Nat.lt_or_ge m 10 with small | large
    · rw [text_of_small small]
      exact List.length_pos_iff.mpr (text_ne_nil n)
    · rw [text_of_large large, text_of_large (by omega : 10 ≤ n), List.length_append,
        List.length_append]
      have fewer := ih (n / 10) (by omega) (show m / 10 ≤ n / 10 by omega)
      simp only [List.length_singleton]
      omega

end Decimal
