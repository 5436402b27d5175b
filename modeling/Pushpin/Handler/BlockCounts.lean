import Pushpin.Core.Variant

/-!
How many blocks a published message counts for: `size` of `PublishItem::fromVariant`, and
`blocksForData` and its uses for one kind of receivers in `sequencer_itemReady`, from
`handlerengine.cpp`. `none` is an overflow of `int`, which has no defined result.
-/
namespace PushpinBlocks
open PushpinVariant

def checkInt (n : Int) : Option Int := if -2 ^ 31 ≤ n ∧ n < 2 ^ 31 then some n else none

def pn : String := "publish item object"

/-- `item.size`, which is negative where the item has none. -/
def itemSize (vitem : Variant) : Except String Int :=
  if vitem.keyedObjectContains "size" then
    let vsize := vitem.keyedObjectGetValue "size"
    if ¬ vsize.canConvertInt then .error (pn ++ " contains 'size' with wrong type")
    else if vsize.toInt < 0 then .error (pn ++ " contains 'size' with invalid value")
    else .ok (vsize.toInt)
  else .ok (-1)

def blocksForData (messageBlockSize size : Int) : Option Int :=
  if messageBlockSize ≤ 0 then some (-1)
  else do
    let sum ← checkInt (size + messageBlockSize)
    let sum ← checkInt (sum - 1)
    return sum.tdiv messageBlockSize

/-- The length of the body is passed as an `int`. -/
def itemBlocks (messageBlockSize size : Int) (body : Nat) : Option Int :=
  if size ≥ 0 then blocksForData messageBlockSize size else blocksForData messageBlockSize
    (toInt32 body)

def weight (blocks : Int) : Int := if blocks ≠ -1 then blocks else 1

def total (blocks receivers : Int) : Option Int := if blocks ≠ -1 then checkInt (blocks * receivers)
    else some (-1)

def dataSize (size : Int) (body : Nat) : Int := if size ≥ 0 then size else body

structure CountsExactly (messageBlockSize size : Int) (body : Nat) (blocks : Int) : Prop where
  counted : itemBlocks messageBlockSize size body = some blocks
  exact_ : blocks = ⌈(dataSize size body : ℚ) / messageBlockSize⌉
  positive : 0 ≤ blocks
  weighs : weight blocks = blocks
  totals : ∀ receivers : Nat, blocks * receivers < 2 ^ 31 →
    total blocks receivers = some (blocks * receivers)

variable {messageBlockSize size n : Int} {body : Nat}

theorem checkInt_some {m : Int} (checked : checkInt n = some m) : n = m ∧ n < 2 ^ 31 := by
  obtain ⟨fits, same⟩ := Option.ite_none_right_eq_some.mp checked
  exact ⟨Option.some.inj same, fits.2⟩

theorem ceil_div (n : Int) (positive : 0 < messageBlockSize) :
    (n + messageBlockSize - 1) / messageBlockSize = ⌈(n : ℚ) / messageBlockSize⌉ := by
  have above : (0 : ℚ) < messageBlockSize := by exact_mod_cast positive
  symm
  rw [Int.ceil_eq_iff, lt_div_iff₀ above, div_le_iff₀ above]
  have low := Int.ediv_mul_le (n + messageBlockSize - 1) (Int.ne_of_gt positive)
  have high := Int.lt_ediv_add_one_mul_self (n + messageBlockSize - 1) positive
  generalize (n + messageBlockSize - 1) / messageBlockSize = blocks at low high
  constructor
  · have : (blocks - 1) * messageBlockSize < n := by
      rw [Int.sub_mul]
      omega
    exact_mod_cast this
  · have : n ≤ blocks * messageBlockSize := by
      rw [Int.add_mul] at high
      omega
    exact_mod_cast this

theorem blocksForData_some {blocks : Int} (positive : 0 < messageBlockSize)
    (counted : blocksForData messageBlockSize n = some blocks) :
    n + messageBlockSize < 2 ^ 31 ∧ blocks = (n + messageBlockSize - 1).tdiv messageBlockSize := by
  rw [blocksForData, if_neg (Int.not_le.mpr positive)] at counted
  obtain ⟨sum, first, counted⟩ := Option.bind_eq_some_iff.mp counted
  obtain ⟨last, second, same⟩ := Option.bind_eq_some_iff.mp counted
  cases same
  obtain ⟨rfl, fits⟩ := checkInt_some first
  obtain ⟨rfl, -⟩ := checkInt_some second
  exact ⟨fits, rfl⟩

theorem blocksForData_exact (positive : 0 < messageBlockSize) (natural : 0 ≤ n)
    (fits : n + messageBlockSize < 2 ^ 31) :
    blocksForData messageBlockSize n = some ⌈(n : ℚ) / messageBlockSize⌉ := by
  have first : checkInt (n + messageBlockSize) = some (n + messageBlockSize) := if_pos (by omega)
  have second : checkInt (n + messageBlockSize - 1) = some (n + messageBlockSize - 1) :=
    if_pos (by omega)
  rw [blocksForData, if_neg (Int.not_le.mpr positive), first]
  simp only [Option.bind_eq_bind, Option.bind_some, second]
  rw [Int.tdiv_eq_ediv_of_nonneg (by omega), ceil_div n positive]
  rfl

theorem tdiv_mul_le (n : Int) (positive : 0 < messageBlockSize) :
    n.tdiv messageBlockSize * messageBlockSize ≤ max n 0 := by
  rcases Int.le_total 0 n with natural | negative
  · rw [Int.tdiv_eq_ediv_of_nonneg natural]
    exact Int.le_trans (Int.ediv_mul_le n (Int.ne_of_gt positive)) (Int.le_max_left n 0)
  · have down : n.tdiv messageBlockSize ≤ 0 := by
      have up := Int.tdiv_nonneg (Int.neg_nonneg.mpr negative) (Int.le_of_lt positive)
      rw [Int.neg_tdiv] at up
      omega
    exact Int.le_trans (Int.mul_nonpos_of_nonpos_of_nonneg down (Int.le_of_lt positive))
      (Int.le_max_right n 0)

theorem long_body_not_exact {blocks : Int} (positive : 0 < messageBlockSize) (long : 2 ^ 31 ≤ body)
    (counted : blocksForData messageBlockSize (toInt32 body) = some blocks) :
    blocks ≠ ⌈(body : ℚ) / messageBlockSize⌉ := by
  rw [(blocksForData_some positive counted).2]
  intro same
  have above : (0 : ℚ) < messageBlockSize := by exact_mod_cast positive
  have enough := Int.le_ceil ((body : ℚ) / messageBlockSize)
  rw [← same, div_le_iff₀ above] at enough
  have enough : (body : Int) ≤ (toInt32 body + messageBlockSize - 1).tdiv messageBlockSize *
      messageBlockSize := by
    exact_mod_cast enough
  have few := tdiv_mul_le (toInt32 body + messageBlockSize - 1) positive
  have fits := (blocksForData_some positive counted).1
  omega

/-- The blocks of an item are counted exactly if and only if the sum that is rounded fits into
    an `int`. -/
theorem blocks_exact_iff (size : Int) (body : Nat) (positive : 0 < messageBlockSize) :
    (∃ blocks, CountsExactly messageBlockSize size body blocks) ↔
    dataSize size body + messageBlockSize < 2 ^ 31 := by
  constructor
  · rintro ⟨blocks, counts⟩
    have counted := counts.counted
    have exact_ := counts.exact_
    unfold itemBlocks at counted
    unfold dataSize at exact_ ⊢
    split at counted
    · next given =>
      rw [if_pos given]
      exact (blocksForData_some positive counted).1
    · next absent =>
      rw [if_neg absent] at exact_ ⊢
      by_cases long : 2 ^ 31 ≤ body
      · exact absurd exact_ (long_body_not_exact positive long counted)
      · have same : toInt32 body = body := Int.bmod_eq_of_le (by omega) (by omega)
        rw [same] at counted
        exact (blocksForData_some positive counted).1
  · intro fits
    have natural : 0 ≤ dataSize size body := by
      unfold dataSize
      split
      · assumption
      · exact Int.natCast_nonneg body
    have above : (0 : ℚ) < messageBlockSize := by exact_mod_cast positive
    have counted : itemBlocks messageBlockSize size body = some ⌈(dataSize size body : ℚ) /
        messageBlockSize⌉ := by
      rw [← blocksForData_exact positive natural fits]
      unfold itemBlocks dataSize at *
      split
      · rfl
      · next absent =>
        rw [if_neg absent] at fits
        rw [show toInt32 body = body from Int.bmod_eq_of_le (by omega) (by omega)]
    have nonneg : 0 ≤ ⌈(dataSize size body : ℚ) / messageBlockSize⌉ :=
      Int.ceil_nonneg (div_nonneg (by exact_mod_cast natural) (Rat.le_of_lt above))
    refine ⟨_, counted, rfl, nonneg, if_pos (by omega), fun receivers small => ?_⟩
    have : 0 ≤ ⌈(dataSize size body : ℚ) / messageBlockSize⌉ * (receivers : Int) :=
      Int.mul_nonneg nonneg (Int.natCast_nonneg receivers)
    rw [total, if_pos (by omega), checkInt, if_pos ⟨by omega, small⟩]

theorem body_of_ten_counts_exactly : ∃ blocks, CountsExactly 4 (-1) 10 blocks :=
  (blocks_exact_iff (-1) 10 (by decide)).mpr (by decide)

theorem largest_size_overflows : ∃ vitem, itemSize vitem = .ok (2 ^ 31 - 1) ∧
    itemBlocks 2 (2 ^ 31 - 1) 0 = none ∧ ¬ ∃ blocks, CountsExactly 2 (2 ^ 31 - 1) 0 blocks := by
  refine ⟨.map [("size", .int (2 ^ 31 - 1))], by decide, by decide, ?_⟩
  rintro ⟨blocks, counts⟩
  cases counts.counted

end PushpinBlocks
