import Mathlib.Algebra.Order.Ring.Nat

namespace BigEndian

def bytes : Nat → Nat → List UInt8
  | 0, _ => []
  | width + 1, n => UInt8.ofNat (n / 256 ^ width) :: bytes width n

def value : List UInt8 → Nat
  | [] => 0
  | b :: rest => b.toNat * 256 ^ rest.length + value rest

@[simp] theorem bytes_length (width n : Nat) : (bytes width n).length = width := by
  induction width with
  | zero => rfl
  | succ width ih => simp only [bytes, List.length_cons, ih]

theorem value_bytes (width n : Nat) : value (bytes width n) = n % 256 ^ width := by
  induction width with
  | zero => simp only [bytes, value, Nat.pow_zero, Nat.mod_one]
  | succ width ih =>
    have digit : (UInt8.ofNat (n / 256 ^ width)).toNat = n / 256 ^ width % 256 :=
      UInt8.toNat_ofNat'
    simp only [bytes, value, bytes_length, ih, digit]
    rw [Nat.pow_succ, Nat.mod_mul, Nat.mul_comm (256 ^ width), Nat.add_comm]

theorem value_lt (digits : List UInt8) : value digits < 256 ^ digits.length := by
  induction digits with
  | nil => exact Nat.one_pos
  | cons b rest ih =>
    have digit : b.toNat < 256 := UInt8.toNat_lt b
    have scaled : b.toNat * 256 ^ rest.length + 256 ^ rest.length ≤ 256 * 256 ^ rest.length := by
      rw [← Nat.succ_mul]
      exact Nat.mul_le_mul_right _ digit
    rw [value, List.length_cons, Nat.pow_succ, Nat.mul_comm _ 256]
    omega

end BigEndian
