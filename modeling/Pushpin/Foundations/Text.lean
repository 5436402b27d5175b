import Pushpin.Foundations.Decimal

/-!
Texts as bytes: UTF-8, and numbers as `str::parse` reads them. A `usize` and an
`isize` have 64 bits.
-/
namespace Text

def usizeEnd : Nat := 2 ^ 64
def isizeEnd : Nat := 2 ^ 63

def ascii (s : String) : List UInt8 := s.toList.map fun c => UInt8.ofNat c.toNat

def parseDigits (bound : Nat) (s : List UInt8) : Option Nat :=
  if s ≠ [] ∧ s.all Decimal.isDigit then
    if Decimal.value s < bound then some (Decimal.value s) else none
  else none

def parseUsize : List UInt8 → Option Nat
  | 43 :: s => parseDigits usizeEnd s
  | s => parseDigits usizeEnd s

def parseIsize : List UInt8 → Option Int
  | 45 :: s => (parseDigits (isizeEnd + 1) s).map fun (n : Nat) => -(n : Int)
  | 43 :: s => (parseDigits isizeEnd s).map fun (n : Nat) => (n : Int)
  | s => (parseDigits isizeEnd s).map fun (n : Nat) => (n : Int)

def isTail (c : UInt8) : Bool := 0x80 ≤ c && c ≤ 0xbf

/-- Whether `str::from_utf8` accepts the bytes. -/
@[grind =]
def isUtf8 : List UInt8 → Bool
  | [] => true
  | a :: s =>
    if a ≤ 0x7f then isUtf8 s
    else if 0xc2 ≤ a ∧ a ≤ 0xdf then
      match s with
      | b :: s => isTail b && isUtf8 s
      | _ => false
    else if 0xe0 ≤ a ∧ a ≤ 0xef then
      match s with
      | b :: c :: s =>
        isTail b && (a ≠ 0xe0 || 0xa0 ≤ b) && (a ≠ 0xed || b ≤ 0x9f) && isTail c && isUtf8 s
      | _ => false
    else if 0xf0 ≤ a ∧ a ≤ 0xf4 then
      match s with
      | b :: c :: d :: s =>
        isTail b && (a ≠ 0xf0 || 0x90 ≤ b) && (a ≠ 0xf4 || b ≤ 0x8f) && isTail c && isTail d &&
          isUtf8 s
      | _ => false
    else false

theorem parseUsize_digits {digits : List UInt8} (all : digits.all Decimal.isDigit = true) :
    parseUsize digits = parseDigits usizeEnd digits := by
  unfold parseUsize
  split
  · exact absurd all (by simp [Decimal.isDigit])
  · rfl

theorem parseDigits_spec {bound : Nat} {s : List UInt8} {n : Nat}
    (parsed : parseDigits bound s = some n) :
    s ≠ [] ∧ s.all Decimal.isDigit = true ∧ Decimal.value s = n ∧ n < bound := by
  unfold parseDigits at parsed
  split at parsed
  · rename_i both
    split at parsed
    · rename_i small
      cases parsed
      exact ⟨both.1, both.2, rfl, small⟩
    · cases parsed
  · cases parsed

theorem parseDigits_text {bound n : Nat} (small : n < bound) :
    parseDigits bound (Decimal.text n) = some n := by
  rw [parseDigits, if_pos ⟨Decimal.text_ne_nil n, Decimal.text_all n⟩, Decimal.value_text,
    if_pos small]

theorem parseIsize_digits {digits : List UInt8} (all : digits.all Decimal.isDigit = true) :
    parseIsize digits = (parseDigits isizeEnd digits).map fun (n : Nat) => (n : Int) := by
  unfold parseIsize
  split
  · exact absurd all (by simp [Decimal.isDigit])
  · exact absurd all (by simp [Decimal.isDigit])
  · rfl

theorem isUtf8_of_small {s : List UInt8} (small : ∀ c ∈ s, c ≤ 0x7f) : isUtf8 s = true := by
  induction s with
  | nil => rfl
  | cons c s ih =>
    unfold isUtf8
    rw [if_pos (small c List.mem_cons_self)]
    exact ih fun d mem => small d (List.mem_cons_of_mem c mem)

theorem isUtf8_of_ascii {s : List UInt8} (small : s.all (· ≤ 0x7f) = true) : isUtf8 s = true := by
  apply isUtf8_of_small
  intro c mem
  exact of_decide_eq_true (List.all_eq_true.mp small c mem)

theorem all_isUtf8 {texts : List (List UInt8)}
    (small : (texts.all fun s => s.all (· ≤ 0x7f)) = true) : texts.all isUtf8 = true := by
  apply List.all_eq_true.mpr
  intro s mem
  exact isUtf8_of_ascii (List.all_eq_true.mp small s mem)

theorem digit_small {c : UInt8} (is_digit : Decimal.isDigit c = true) : c ≤ 0x7f := by
  simp only [Decimal.isDigit, Bool.and_eq_true, decide_eq_true_eq] at is_digit
  exact UInt8.le_trans is_digit.2 (by decide)

theorem forall_byte {p : UInt8 → Prop} (all : ∀ n : Fin 256, p (UInt8.ofNat n)) (c : UInt8) :
    p c := by
  have found := all ⟨c.toNat, UInt8.toNat_lt c⟩
  rwa [UInt8.ofNat_toNat] at found

def isCharBoundary (s : List UInt8) (index : Nat) : Bool :=
  index == 0 || match s[index]? with
    | some c => !isTail c
    | none => index == s.length

theorem small_not_tail {c : UInt8} (small : c ≤ 0x7f) : isTail c = false := by
  have outside : ¬ (0x80 : UInt8) ≤ c := fun high => absurd (UInt8.le_trans high small) (by decide)
  rw [isTail, decide_eq_false outside, Bool.false_and]

theorem utf8_starts {c : UInt8} {s : List UInt8} (text : isUtf8 (c :: s) = true) :
    isTail c = false := by
  have bytes : ∀ c : UInt8, c ≤ 0x7f ∨ (0xc2 ≤ c ∧ c ≤ 0xdf) ∨ (0xe0 ≤ c ∧ c ≤ 0xef) ∨
      (0xf0 ≤ c ∧ c ≤ 0xf4) → isTail c = false := by
    apply forall_byte
    decide +kernel
  apply bytes c
  by_contra none
  simp only [not_or] at none
  rw [isUtf8.eq_def] at text
  dsimp only at text
  rw [if_neg none.1, if_neg none.2.1, if_neg none.2.2.1, if_neg none.2.2.2] at text
  cases text

theorem isUtf8_append {s : List UInt8} (text : isUtf8 s = true) (t : List UInt8) :
    isUtf8 (s ++ t) = isUtf8 t := by
  fun_induction isUtf8 s with
  | case1 => rfl
  | case2 a s ascii ih =>
    rw [List.cons_append, isUtf8.eq_def]
    dsimp only
    rw [if_pos ascii, ih text]
  | case3 a high two b s ih =>
    rw [Bool.and_eq_true] at text
    rw [List.cons_append, List.cons_append, isUtf8.eq_def]
    dsimp only
    rw [if_neg high, if_pos two, text.1, Bool.true_and, ih text.2]
  | case4 => cases text
  | case5 a high two three b c s ih =>
    simp only [Bool.and_eq_true] at text
    obtain ⟨⟨⟨⟨second, low⟩, up⟩, third⟩, rest⟩ := text
    rw [List.cons_append, List.cons_append, List.cons_append, isUtf8.eq_def]
    dsimp only
    rw [if_neg high, if_neg two, if_pos three, second, low, up, third, ih rest]
    rfl
  | case6 => cases text
  | case7 a high two three four b c d s ih =>
    simp only [Bool.and_eq_true] at text
    obtain ⟨⟨⟨⟨⟨second, low⟩, up⟩, third⟩, fourth⟩, rest⟩ := text
    rw [List.cons_append, List.cons_append, List.cons_append, List.cons_append, isUtf8.eq_def]
    dsimp only
    rw [if_neg high, if_neg two, if_neg three, if_pos four, second, low, up, third, fourth, ih rest]
    rfl
  | case8 => cases text
  | case9 => cases text

theorem isUtf8_cut {c : UInt8} (small : c ≤ 0x7f) {a b : List UInt8}
    (text : isUtf8 (a ++ c :: b) = true) : isUtf8 a = true ∧ isUtf8 b = true := by
  have not_tail := small_not_tail small
  induction size : a.length using Nat.strong_induction_on generalizing a with
  | _ n ih =>
    cases a with
    | nil =>
      rw [List.nil_append, isUtf8.eq_def] at text
      dsimp only at text
      rw [if_pos small] at text
      exact ⟨rfl, text⟩
    | cons x a =>
      have shorter : ∀ rest : List UInt8, rest.length ≤ a.length → isUtf8 (rest ++ c :: b) = true →
          isUtf8 rest = true ∧ isUtf8 b = true := by
        intro rest le text
        have less : rest.length < n := by
          rw [List.length_cons] at size
          omega
        exact ih rest.length less text rfl
      rw [List.cons_append, isUtf8.eq_def] at text
      rw [isUtf8.eq_def (x :: a)]
      dsimp only at text ⊢
      by_cases ascii : x ≤ 0x7f
      · rw [if_pos ascii] at text ⊢
        exact shorter a (Nat.le_refl _) text
      rw [if_neg ascii] at text ⊢
      by_cases two : 0xc2 ≤ x ∧ x ≤ 0xdf
      · rw [if_pos two] at text ⊢
        match a, shorter, text with
        | [], _, text => simp [not_tail] at text
        | y :: a, shorter, text =>
          simp only [List.cons_append, Bool.and_eq_true] at text ⊢
          obtain ⟨left, right⟩ := shorter a (Nat.le_succ _) text.2
          exact ⟨⟨text.1, left⟩, right⟩
      rw [if_neg two] at text ⊢
      by_cases three : 0xe0 ≤ x ∧ x ≤ 0xef
      · rw [if_pos three] at text ⊢
        match a, shorter, text with
        | [], _, text =>
          cases b with
          | nil => simp at text
          | cons z b => simp [not_tail] at text
        | [y], _, text => simp [not_tail] at text
        | y :: z :: a, shorter, text =>
          simp only [List.cons_append, Bool.and_eq_true] at text ⊢
          obtain ⟨left, right⟩ := shorter a (by simp only [List.length_cons]; omega) text.2
          exact ⟨⟨text.1, left⟩, right⟩
      rw [if_neg three] at text ⊢
      by_cases four : 0xf0 ≤ x ∧ x ≤ 0xf4
      · rw [if_pos four] at text ⊢
        match a, shorter, text with
        | [], _, text =>
          match b, text with
          | [], text => simp at text
          | [z], text => simp at text
          | y :: z :: b, text => simp [not_tail] at text
        | [y], _, text =>
          cases b with
          | nil => simp at text
          | cons z b => simp [not_tail] at text
        | [y, z], _, text => simp [not_tail] at text
        | y :: z :: w :: a, shorter, text =>
          simp only [List.cons_append, Bool.and_eq_true] at text ⊢
          obtain ⟨left, right⟩ := shorter a (by simp only [List.length_cons]; omega) text.2
          exact ⟨⟨text.1, left⟩, right⟩
      · rw [if_neg four] at text
        cases text

theorem splitOn_map {f : UInt8 → UInt8} {sep : UInt8} (fixed : ∀ c, f c = sep ↔ c = sep)
    (s : List UInt8) : (s.map f).splitOn sep = (s.splitOn sep).map (List.map f) := by
  induction s with
  | nil => rfl
  | cons c s ih =>
    rw [List.map_cons, List.splitOn_cons_eq_if_modifyHead, List.splitOn_cons_eq_if_modifyHead, ih]
    have same : (f c == sep) = (c == sep) := by
      rw [Bool.eq_iff_iff, beq_iff_eq, beq_iff_eq]
      exact fixed c
    rw [same]
    split
    · rfl
    · cases s.splitOn sep <;> rfl

theorem isUtf8_map {f : UInt8 → UInt8} (small : ∀ c, c ≤ 0x7f → f c ≤ 0x7f)
    (large : ∀ c, ¬ c ≤ 0x7f → f c = c) (s : List UInt8) : isUtf8 (s.map f) = isUtf8 s := by
  have tail : ∀ b, isTail b = true → f b = b := by
    intro b high
    refine large b fun low => ?_
    have both : (0x80 : UInt8) ≤ 0x7f := by
      simp only [isTail, Bool.and_eq_true, decide_eq_true_eq] at high
      exact UInt8.le_trans high.1 low
    exact absurd both (by decide)
  have low : ∀ b, isTail b = false → isTail (f b) = false := by
    intro b other
    by_cases ascii : b ≤ 0x7f
    · have below := small b ascii
      have outside : ¬ (0x80 : UInt8) ≤ f b :=
        fun high => absurd (UInt8.le_trans high below) (by decide)
      rw [isTail, decide_eq_false outside, Bool.false_and]
    · rw [large b ascii, other]
  fun_induction isUtf8 s with
  | case1 => rfl
  | case2 a s ascii ih =>
    conv_lhs => rw [List.map_cons]; unfold isUtf8
    rw [if_pos (small a ascii), ih]
  | case3 a high two b s ih =>
    conv_lhs => rw [List.map_cons, List.map_cons, large a high]; unfold isUtf8
    rw [if_neg high, if_pos two]
    dsimp only
    rw [ih]
    cases second : isTail b with
    | false => rw [low b second]
    | true => rw [tail b second, second]
  | case4 a s high two short =>
    conv_lhs => rw [List.map_cons, large a high]; unfold isUtf8
    rw [if_neg high, if_pos two]
    cases s with
    | nil => rfl
    | cons b s => exact absurd rfl (short b s)
  | case5 a high two three b c s ih =>
    conv_lhs => rw [List.map_cons, List.map_cons, List.map_cons, large a high]; unfold isUtf8
    rw [if_neg high, if_neg two, if_pos three]
    dsimp only
    rw [ih]
    cases second : isTail b with
    | false => rw [low b second]; rfl
    | true =>
      rw [tail b second, second]
      cases third : isTail c with
      | false => rw [low c third]
      | true => rw [tail c third, third]
  | case6 a s high two three short =>
    conv_lhs => rw [List.map_cons, large a high]; unfold isUtf8
    rw [if_neg high, if_neg two, if_pos three]
    match s, short with
    | [], _ | [_], _ => rfl
    | b :: c :: s, short => exact absurd rfl (short b c s)
  | case7 a high two three four b c d s ih =>
    conv_lhs =>
      rw [List.map_cons, List.map_cons, List.map_cons, List.map_cons, large a high]
      unfold isUtf8
    rw [if_neg high, if_neg two, if_neg three, if_pos four]
    dsimp only
    rw [ih]
    cases second : isTail b with
    | false => rw [low b second]; rfl
    | true =>
      rw [tail b second, second]
      cases third : isTail c with
      | false => rw [low c third]; simp only [Bool.and_false, Bool.false_and]
      | true =>
        rw [tail c third, third]
        cases fourth : isTail d with
        | false => rw [low d fourth]
        | true => rw [tail d fourth, fourth]
  | case8 a s high two three four short =>
    conv_lhs => rw [List.map_cons, large a high]; unfold isUtf8
    rw [if_neg high, if_neg two, if_neg three, if_pos four]
    match s, short with
    | [], _ | [_], _ | [_, _], _ => rfl
    | b :: c :: d :: s, short => exact absurd rfl (short b c d s)
  | case9 a s high two three four =>
    conv_lhs => rw [List.map_cons, large a high]; unfold isUtf8
    rw [if_neg high, if_neg two, if_neg three, if_neg four]

end Text
