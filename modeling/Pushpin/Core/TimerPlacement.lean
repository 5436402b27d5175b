import Mathlib.Data.List.Basic
import Mathlib.Tactic.SplitIfs
import Pushpin.Core.Timer

namespace PushpinTimer
open CyclicMask

def base (wheel time : Nat) : Nat := time / 64 ^ wheel + if wheel = 0 then 1 else 0

/-- Some unit processed while time moves from `curtime` to `newtime` has this slot. -/
def Passed (wheel curtime newtime slot : Nat) : Prop :=
  ∃ unit, base wheel curtime ≤ unit ∧ unit < base wheel newtime ∧ unit % 64 = slot % 64

structure Placed (wheel slot expires curtime : Nat) : Prop where
  ahead : base wheel curtime < base wheel expires
  here : slot = (base wheel expires - 1) % 64
  near : wheel = 0 → expires ≤ curtime + 63

theorem shift_eq_div (x wheel : Nat) : x >>> (wheel * wheelBits) = x / 64 ^ wheel := by
  rw [Nat.shiftRight_eq_div_pow, wheelBits, Nat.mul_comm, Nat.pow_mul]

theorem shift_eq_mul (x wheel : Nat) : x <<< (wheel * wheelBits) = x * 64 ^ wheel := by
  rw [Nat.shiftLeft_eq, wheelBits, Nat.mul_comm wheel, Nat.pow_mul]

theorem and_wheelMask (x : Nat) : x &&& wheelMask = x % 64 :=
  Nat.and_two_pow_sub_one_eq_mod x 6

theorem base_mono (wheel : Nat) {earlier later : Nat} (le : earlier ≤ later) :
    base wheel earlier ≤ base wheel later := by
  have := Nat.div_le_div_right (c := 64 ^ wheel) le
  unfold base
  omega

theorem base_lt_iff (wheel earlier later : Nat) :
    base wheel earlier < base wheel later ↔ earlier / 64 ^ wheel < later / 64 ^ wheel := by
  unfold base
  omega

variable {wheel slot expires curtime : Nat}

theorem Placed.future
    (placed : Placed wheel slot expires curtime) : curtime < expires := by
  by_contra past
  have := base_mono wheel (Nat.le_of_not_lt past)
  have := placed.ahead
  omega

theorem Placed.slot_lt
    (placed : Placed wheel slot expires curtime) : slot < 64 := by
  rw [placed.here]
  exact Nat.mod_lt _ (by decide)

variable {newtime : Nat}

theorem Placed.advance
    (placed : Placed wheel slot expires curtime) (forward : curtime ≤ newtime)
    (kept : ¬ Passed wheel curtime newtime slot) : Placed wheel slot expires newtime := by
  have ahead := placed.ahead
  constructor
  · by_contra behind
    apply kept
    exact ⟨base wheel expires - 1, by omega, by omega, by rw [placed.here]; omega⟩
  · exact placed.here
  · intro lowest
    have := placed.near lowest
    omega

theorem units_far {unit : Nat} (pos : 0 < unit)
    (far : 64 * unit ≤ newtime - curtime) : curtime / unit + 64 ≤ newtime / unit := by
  rw [← Nat.add_mul_div_right _ _ pos]
  apply Nat.div_le_div_right
  omega

theorem units_near {unit : Nat} (pos : 0 < unit)
    (near : newtime - curtime < 64 * unit) : newtime / unit ≤ curtime / unit + 64 := by
  rw [← Nat.add_mul_div_right _ _ pos]
  apply Nat.div_le_div_right
  omega

theorem wheelPending_spec
    (moved : curtime / 64 ^ wheel < newtime / 64 ^ wheel) (slot : Nat) :
    has (wheelPending wheel curtime newtime (max (newtime - curtime) (64 ^ wheel))) slot = true ↔
      Passed wheel curtime newtime slot := by
  have pos : 0 < 64 ^ wheel := Nat.pow_pos (by decide)
  have below := Nat.mod_lt slot (by decide : 0 < 64)
  unfold Passed
  rw [residue_between]
  have len : wheelLen = 64 := rfl
  have most : wheelMax = 63 := rfl
  simp only [wheelPending, shift_eq_div, and_wheelMask, len, most]
  by_cases far : 64 * 64 ^ wheel ≤ newtime - curtime
  · have units := units_far pos far
    have many : 63 < max (newtime - curtime) (64 ^ wheel) / 64 ^ wheel := by
      rw [Nat.lt_iff_add_one_le, Nat.le_div_iff_mul_le pos]
      omega
    rw [if_pos many, has_allOnes]
    simp only [base, true_iff]
    omega
  · have units := units_near pos (by omega : newtime - curtime < 64 * 64 ^ wheel)
    have few : ¬ 63 < max (newtime - curtime) (64 ^ wheel) / 64 ^ wheel := by
      rw [Nat.not_lt, ← Nat.lt_succ_iff, Nat.div_lt_iff_lt_mul pos]
      omega
    rw [if_neg few]
    simp only [base]
    split_ifs <;> simp only [has_allOnes, has_rotateLeft, has_ones, decide_eq_true_eq, true_iff] <;>
      omega

/-- The slot that ends a rotation is passed exactly when the next wheel moves. -/
theorem finished_iff (wheel curtime newtime : Nat) :
    Passed wheel curtime newtime (if wheel > 0 then 63 else 0) ↔
      curtime / 64 ^ (wheel + 1) < newtime / 64 ^ (wheel + 1) := by
  rw [Nat.pow_succ, ← Nat.div_div_eq_div_mul, ← Nat.div_div_eq_div_mul]
  unfold Passed
  rw [residue_between]
  simp only [base]
  rcases Nat.eq_zero_or_pos wheel with rfl | higher
  · simp only [Nat.pow_zero, Nat.div_one]
    simp
    omega
  · rw [if_pos higher, if_neg (by omega)]
    omega

theorem finishedBit_spec (m : Word) (wheel : Nat) :
    m &&& finishedBit wheel = 0 ↔ has m (if wheel > 0 then 63 else 0) = false := by
  have one : ∀ slot, slot < 64 → (m &&& single slot = 0 ↔ has m slot = false) := by
    intro slot small
    rw [eq_zero_iff]
    constructor
    · intro none
      have := none slot small
      rwa [has_and, has_single _ _ small, decide_eq_true (Nat.mod_eq_of_lt small),
        Bool.and_true] at this
    · intro absent i below
      rw [has_and, has_single _ _ small, Nat.mod_eq_of_lt below]
      by_cases same : i = slot
      · rw [same, absent, Bool.false_and]
      · simp [same]
  unfold finishedBit wheelLen wheelBits
  split
  · exact one 63 (by decide)
  · exact one 0 (by decide)

theorem passed_moves
    (passed : Passed wheel curtime newtime slot) :
    curtime / 64 ^ wheel < newtime / 64 ^ wheel := by
  obtain ⟨unit, low, high, _⟩ := passed
  rw [← base_lt_iff]
  omega

theorem still_above {higher : Nat} (forward : curtime ≤ newtime)
    (still : ¬ curtime / 64 ^ wheel < newtime / 64 ^ wheel) (above : wheel ≤ higher) :
    ¬ curtime / 64 ^ higher < newtime / 64 ^ higher := by
  obtain ⟨more, rfl⟩ := Nat.exists_eq_add_of_le above
  have same : curtime / 64 ^ wheel = newtime / 64 ^ wheel :=
    Nat.le_antisymm (Nat.div_le_div_right forward) (Nat.le_of_not_lt still)
  rw [Nat.pow_add, ← Nat.div_div_eq_div_mul, ← Nat.div_div_eq_div_mul, same]
  exact Nat.lt_irrefl _

theorem needReschedFrom_spec (left wheel : Nat)
    (forward : curtime ≤ newtime) (moved : curtime / 64 ^ wheel < newtime / 64 ^ wheel)
    (index slot : Nat) (inside : index < left) :
    has ((needReschedFrom curtime newtime left wheel
      (max (newtime - curtime) (64 ^ wheel))).getD index 0) slot = true ↔
      Passed (wheel + index) curtime newtime slot := by
  induction left generalizing wheel index with
  | zero => omega
  | succ left ih =>
    have here := wheelPending_spec moved
    simp only [needReschedFrom]
    cases index with
    | zero => exact here slot
    | succ index =>
      rw [List.getD_cons_succ]
      -- the early exit is taken exactly when the next wheel has not moved
      by_cases done : wheelPending wheel curtime newtime (max (newtime - curtime) (64 ^ wheel)) &&&
          finishedBit wheel = 0
      · rw [if_pos done]
        have still : ¬ curtime / 64 ^ (wheel + 1) < newtime / 64 ^ (wheel + 1) := by
          rw [← finished_iff, ← here, (finishedBit_spec _ _).mp done]
          exact Bool.false_ne_true
        have none : (List.replicate left (0 : Word)).getD index 0 = 0 := by
          rw [List.getD_eq_getElem?_getD, List.getElem?_replicate]
          split <;> rfl
        rw [none, has_zero]
        constructor
        · intro never
          exact absurd never Bool.false_ne_true
        · intro passed
          exact absurd (passed_moves passed) (still_above forward still (by omega))
      · rw [if_neg done]
        have next : curtime / 64 ^ (wheel + 1) < newtime / 64 ^ (wheel + 1) := by
          rw [← finished_iff, ← here]
          rw [finishedBit_spec, Bool.not_eq_false] at done
          exact done
        have elapsed : max (max (newtime - curtime) (64 ^ wheel))
            (wheelLen <<< (wheel * wheelBits)) = max (newtime - curtime) (64 ^ (wheel + 1)) := by
          have : wheelLen <<< (wheel * wheelBits) = 64 ^ (wheel + 1) := by
            rw [shift_eq_mul, Nat.pow_succ, Nat.mul_comm]; rfl
          rw [this, Nat.pow_succ]
          omega
        rw [elapsed, ih (wheel + 1) next index (by omega)]
        have : wheel + 1 + index = wheel + (index + 1) := by omega
        rw [this]

theorem needResched_spec (forward : curtime < newtime)
    (inside : wheel < wheelNum) (slot : Nat) :
    has ((needResched curtime newtime).getD wheel 0) slot = true ↔
      Passed wheel curtime newtime slot := by
  have start := needReschedFrom_spec wheelNum 0 (Nat.le_of_lt forward)
    (by simpa using forward) wheel slot inside
  have elapsed : max (newtime - curtime) (64 ^ 0) = newtime - curtime := by omega
  rw [elapsed, Nat.zero_add] at start
  unfold needResched
  rw [if_neg (by omega)]
  exact start

theorem needReschedFrom_length (left curtime newtime wheel elapsed : Nat) :
    (needReschedFrom curtime newtime left wheel elapsed).length = left := by
  induction left generalizing wheel elapsed with
  | zero => rfl
  | succ left ih =>
    simp only [needReschedFrom, List.length_cons]
    split
    · rw [List.length_replicate]
    · rw [ih]

theorem needResched_length (curtime newtime : Nat) :
    (needResched curtime newtime).length = wheelNum := by
  unfold needResched
  split
  · exact List.length_replicate
  · exact needReschedFrom_length ..

theorem sched_placed (future : curtime < expires) :
    let t := min (expires - curtime) timeoutMax
    let wheel := (fls64 t - 1) / wheelBits
    0 < t ∧ wheel < wheelNum ∧
      (if wheel > 0 then 1 else 0) ≤ expires >>> (wheel * wheelBits) ∧
      Placed wheel (((expires >>> (wheel * wheelBits)) - if wheel > 0 then 1 else 0) &&& wheelMask)
        expires curtime := by
  intro t wheel
  have cap : timeoutMax = 2 ^ 24 - 1 := rfl
  have pos : 0 < t := by omega
  have wheel_eq : wheel = Nat.log2 t / 6 := by
    simp only [wheel, fls64, wheelBits, if_neg (Nat.ne_of_gt pos), Nat.add_sub_cancel]
  have small : Nat.log2 t < 24 := (Nat.log2_lt (Nat.ne_of_gt pos)).mpr (by omega)
  have reach : 64 ^ wheel ≤ expires - curtime := by
    calc 64 ^ wheel = 2 ^ (6 * wheel) := by rw [Nat.pow_mul]
      _ ≤ 2 ^ Nat.log2 t := Nat.pow_le_pow_right (by decide) (by omega)
      _ ≤ t := Nat.log2_self_le (Nat.ne_of_gt pos)
      _ ≤ expires - curtime := Nat.min_le_left _ _
  have ahead : curtime / 64 ^ wheel + 1 ≤ expires / 64 ^ wheel := by
    rw [← Nat.add_div_right _ (Nat.pow_pos (by decide))]
    exact Nat.div_le_div_right (by omega)
  rw [shift_eq_div, and_wheelMask]
  refine ⟨pos, by simp only [wheelNum]; omega, ?_, ?_⟩
  · have some : 1 ≤ expires / 64 ^ wheel := Nat.le_trans (Nat.le_add_left 1 _) ahead
    split
    · exact some
    · exact Nat.zero_le _
  constructor
  · rw [base_lt_iff]
    omega
  · unfold base
    split_ifs <;> omega
  · intro lowest
    have : t < 2 ^ 6 := (Nat.log2_lt (Nat.ne_of_gt pos)).mp (by omega)
    omega

end PushpinTimer
