import Mathlib.Data.List.Basic
import Pushpin.Core.TimerInvariant

namespace PushpinTimer
open CyclicMask Slabs

inductive Op where
  | add (key expires userData : Nat)
  | remove (key : Nat)
  | update (curtime : Nat)
  | takeExpired
  deriving DecidableEq, Repr

inductive Out where
  | added (result : Except Unit Nat)
  | done
  | taken (timer : Option (Nat × Nat))

namespace TimerWheel

def step (w : TimerWheel) : Op → Option (TimerWheel × Out)
  | .add key expires userData => do
    let (w, result) ← w.add key expires userData
    return (w, .added result)
  | .remove key => some (w.remove key, .done)
  | .update curtime => do
    let w ← w.update curtime
    return (w, .done)
  | .takeExpired => do
    let (w, timer) ← w.takeExpired
    return (w, .taken timer)

def run (w : TimerWheel) : List Op → Option (TimerWheel × List Out)
  | [] => some (w, [])
  | op :: ops => do
    let (w, out) ← w.step op
    let (w, outs) ← w.run ops
    return (w, out :: outs)

def Allowed (w : TimerWheel) : Op → Prop
  | .add key _ _ => w.nodes.len = w.nodes.capacity ∨ w.nodes.Vacant key
  | _ => True

instance (w : TimerWheel) (op : Op) : Decidable (w.Allowed op) := by
  cases op <;> simp only [Allowed] <;> infer_instance

def allowedRun (w : TimerWheel) : List Op → Bool
  | [] => true
  | op :: ops => decide (w.Allowed op) &&
      match w.step op with
      | some (w', _) => w'.allowedRun ops
      | none => true

/-- Call `take_expired` until it has nothing left, at most `rounds` times. -/
def drain : Nat → TimerWheel → Option (TimerWheel × List (Nat × Nat))
  | 0, w => some (w, [])
  | rounds + 1, w => do
    let (w, timer) ← w.takeExpired
    match timer with
    | none => return (w, [])
    | some timer =>
      let (w, timers) ← drain rounds w
      return (w, timer :: timers)

def sleep : Nat → TimerWheel → Option TimerWheel
  | 0, w => some w
  | rounds + 1, w =>
    match w.timeout with
    | none => some w
    | some t => do
      let w ← w.update (w.curtime + t)
      sleep rounds w

end TimerWheel

structure Timers where
  capacity : Nat
  live : Nat → Option (Nat × Nat)
  now : Nat

namespace Timers

def new (capacity : Nat) : Timers := ⟨capacity, fun _ => none, 0⟩

inductive Step (t : Timers) : Op → Out → Timers → Prop where
  | added {key expires userData : Nat} (inside : key < t.capacity) (fresh : t.live key = none) :
      Step t (.add key expires userData) (.added (.ok key))
        { t with live := Function.update t.live key (some (expires, userData)) }
  | full {key expires userData : Nat} (full : ∀ k, k < t.capacity → t.live k ≠ none) :
      Step t (.add key expires userData) (.added (.error ())) t
  | removed {key : Nat} :
      Step t (.remove key) .done { t with live := Function.update t.live key none }
  | updated {curtime : Nat} : Step t (.update curtime) .done { t with now := max t.now curtime }
  | taken {key expires userData : Nat} (live : t.live key = some (expires, userData))
      (due : expires ≤ t.now) :
      Step t .takeExpired (.taken (some (key, userData)))
        { t with live := Function.update t.live key none }
  | nothing (early : ∀ key expires userData, t.live key = some (expires, userData) →
      t.now < expires) : Step t .takeExpired (.taken none) t

inductive Run : Timers → List Op → List Out → Timers → Prop where
  | nil (t : Timers) : Run t [] [] t
  | cons {t t' t'' : Timers} {op : Op} {out : Out} {ops : List Op} {outs : List Out}
      (first : Step t op out t') (rest : Run t' ops outs t'') :
      Run t (op :: ops) (out :: outs) t''

end Timers

namespace TimerWheel
variable {w : TimerWheel}

def timers (w : TimerWheel) : Timers := ⟨w.nodes.capacity, w.live, w.curtime⟩

theorem timers_eq {w' : TimerWheel} {t : Timers} (capacity : w'.nodes.capacity = t.capacity)
    (live : w'.live = t.live) (now : w'.curtime = t.now) : w'.timers = t := by
  unfold timers
  rw [capacity, live, now]

theorem step_refines (valid : w.Valid []) (op : Op) (allowed : w.Allowed op) :
    ∃ w' out, w.step op = some (w', out) ∧ w'.Valid [] ∧ Timers.Step w.timers op out w'.timers := by
  cases op with
  | add key expires userData =>
    by_cases full : w.nodes.len = w.nodes.capacity
    · refine ⟨w, .added (.error ()), by simp [step, add_full key expires userData full], valid, ?_⟩
      apply Timers.Step.full
      intro k inside free
      have vacant : w.nodes.Vacant k := ⟨inside, Option.map_eq_none_iff.mp free⟩
      have := Slab.vacant_len_lt vacant
      omega
    · have room := allowed.resolve_left full
      obtain ⟨w', run, valid', live, capacity, now⟩ := add_spec valid expires userData room
      refine ⟨w', .added (.ok key), by simp [step, run], valid', ?_⟩
      rw [timers_eq (t := { w.timers with live := _ }) capacity live now]
      exact Timers.Step.added room.1 (Option.map_eq_none_iff.mpr room.2)
  | remove key =>
    obtain ⟨valid', live, capacity, now⟩ := remove_spec valid key
    refine ⟨w.remove key, .done, rfl, valid', ?_⟩
    rw [timers_eq (t := { w.timers with live := _ }) capacity live now]
    exact Timers.Step.removed
  | update curtime =>
    obtain ⟨w', run, valid', live, capacity, now⟩ := update_spec valid curtime
    refine ⟨w', .done, by simp [step, run], valid', ?_⟩
    rw [timers_eq (t := { w.timers with now := _ }) capacity live now]
    exact Timers.Step.updated
  | takeExpired =>
    cases late : w.expired with
    | nil =>
      refine ⟨w, .taken none, by simp [step, takeExpired_nil late], valid, ?_⟩
      apply Timers.Step.nothing
      intro key expires userData known
      by_contra due
      have mem := (mem_expired_iff valid key).mpr ⟨expires, userData, known, Nat.le_of_not_lt due⟩
      rw [late] at mem
      exact List.not_mem_nil mem
    | cons key keys =>
      obtain ⟨w', expires, userData, run, valid', known, due, live, _, capacity, now⟩ :=
        takeExpired_cons valid late
      refine ⟨w', .taken (some (key, userData)), by simp [step, run], valid', ?_⟩
      rw [timers_eq (t := { w.timers with live := _ }) capacity live now]
      exact Timers.Step.taken known due

theorem run_refines (ops : List Op) (valid : w.Valid []) (allowed : w.allowedRun ops = true) :
    ∃ w' outs, w.run ops = some (w', outs) ∧ w'.Valid [] ∧
      Timers.Run w.timers ops outs w'.timers := by
  induction ops generalizing w with
  | nil => exact ⟨w, [], rfl, valid, .nil _⟩
  | cons op ops ih =>
    simp only [allowedRun, Bool.and_eq_true, decide_eq_true_eq] at allowed
    obtain ⟨w₁, out, step, valid₁, first⟩ := step_refines valid op allowed.1
    obtain ⟨w₂, outs, run, valid₂, rest⟩ := ih valid₁ (by simpa [step] using allowed.2)
    refine ⟨w₂, out :: outs, ?_, valid₂, .cons first rest⟩
    simp [TimerWheel.run, step, run]

/-- Draining returns every due timer once, with its data, and leaves the others. -/
theorem drain_spec (rounds : Nat) (valid : w.Valid []) (enough : w.expired.length < rounds) :
    ∃ w' taken, w.drain rounds = some (w', taken) ∧ taken.map Prod.fst = w.expired ∧
      w'.Valid [] ∧ w'.expired = [] ∧ w'.curtime = w.curtime ∧
      (∀ key userData, (key, userData) ∈ taken ↔
        ∃ expires, w.live key = some (expires, userData) ∧ expires ≤ w.curtime) := by
  induction rounds generalizing w with
  | zero => omega
  | succ rounds ih =>
    cases late : w.expired with
    | nil =>
      refine ⟨w, [], by simp [drain, takeExpired_nil late], rfl, valid, late, rfl, ?_⟩
      intro key userData
      constructor
      · intro mem
        exact absurd mem List.not_mem_nil
      · rintro ⟨expires, known, due⟩
        have mem := (mem_expired_iff valid key).mpr ⟨expires, userData, known, due⟩
        rw [late] at mem
        exact absurd mem List.not_mem_nil
    | cons key keys =>
      obtain ⟨w₁, e, d, run, valid₁, known, due, live, rest, _, now⟩ := takeExpired_cons valid late
      obtain ⟨w₂, taken, run₂, keys_eq, valid₂, empty, now₂, members⟩ :=
        ih valid₁ (by rw [late] at enough; rw [rest]; simpa using enough)
      refine ⟨w₂, (key, d) :: taken, by simp [drain, run, run₂], ?_, valid₂, empty,
        now₂.trans now, ?_⟩
      · rw [List.map_cons, keys_eq, rest]
      · intro k userData
        rw [List.mem_cons, members, live, now]
        by_cases same : k = key
        · subst same
          simp only [Function.update_self, known, Prod.mk.injEq, true_and, Option.some.injEq]
          constructor
          · rintro (eq | ⟨expires, absurd, _⟩)
            · exact ⟨e, ⟨rfl, eq.symm⟩, due⟩
            · cases absurd
          · rintro ⟨_, ⟨_, eq⟩, _⟩
            exact Or.inl eq.symm
        · rw [Function.update_of_ne same]
          simp [same]

theorem wheel_run_from_new (capacity : Nat) (ops : List Op)
    (allowed : (new capacity).allowedRun ops = true) :
    ∃ w outs, (new capacity).run ops = some (w, outs) ∧ w.Valid [] ∧
      Timers.Run (Timers.new capacity) ops outs w.timers := by
  have start : (new capacity).timers = Timers.new capacity := by
    apply timers_eq
    · simp [new, Timers.new, Slab.capacity, Slab.withCapacity]
    · funext key
      simp [live, new, Timers.new]
    · rfl
  rw [← start]
  exact run_refines ops (new_timers_valid capacity) allowed

end TimerWheel

open TimerWheel in
/-- Every run of the wheel is a run of `Timers` and never panics. After it the
    pending bits mark the filled slots, and `take_expired` gives back exactly
    the live timers that are due, each once and with its own data. -/
theorem timer_wheel_refines_timers (capacity : Nat) (ops : List Op)
    (allowed : (TimerWheel.new capacity).allowedRun ops = true) :
    ∃ w outs, (TimerWheel.new capacity).run ops = some (w, outs) ∧
      Timers.Run (Timers.new capacity) ops outs w.timers ∧
      (∀ wheel slot, wheel < wheelNum → slot < 64 →
        (has (w.pending wheel) slot = true ↔ w.wheel wheel slot ≠ [])) ∧
      ∃ w' taken, w.drain (w.expired.length + 1) = some (w', taken) ∧
        (taken.map Prod.fst).Nodup ∧ w'.takeExpired = some (w', none) ∧
        ∀ key userData, (key, userData) ∈ taken ↔
          ∃ expires, w.timers.live key = some (expires, userData) ∧ expires ≤ w.timers.now := by
  obtain ⟨w, outs, run, valid, refines⟩ := wheel_run_from_new capacity ops allowed
  obtain ⟨w', taken, drained, keys, _, empty, _, members⟩ :=
    drain_spec (w.expired.length + 1) valid (Nat.lt_succ_self _)
  refine ⟨w, outs, run, refines, valid.pending, w', taken, drained, ?_, takeExpired_nil empty,
    members⟩
  rw [keys]
  exact valid.expiredNodup

theorem far_timer_run_refines_timers :
    ∃ w outs, (TimerWheel.new 3).run [.update 7, .add 0 100000000 10, .add 1 3 11, .add 2 70 12,
        .remove 2, .takeExpired, .update 99999999, .update 100000000] = some (w, outs) ∧
      Timers.Run (Timers.new 3) [.update 7, .add 0 100000000 10, .add 1 3 11, .add 2 70 12,
        .remove 2, .takeExpired, .update 99999999, .update 100000000] outs w.timers := by
  obtain ⟨w, outs, run, refines, _⟩ := timer_wheel_refines_timers 3
    [.update 7, .add 0 100000000 10, .add 1 3 11, .add 2 70 12, .remove 2, .takeExpired,
      .update 99999999, .update 100000000] (by decide +kernel)
  exact ⟨w, outs, run, refines⟩

namespace TimerWheel
variable {w : TimerWheel}

theorem relmask_next (wheel : Nat) :
    ((64 ^ wheel - 1) <<< wheelBits) ||| wheelMask = 64 ^ (wheel + 1) - 1 := by
  have pos : 0 < 64 ^ wheel := Nat.pow_pos (by decide)
  have small : wheelMask < 2 ^ wheelBits := by decide
  rw [← Nat.shiftLeft_add_eq_or_of_lt small, Nat.shiftLeft_eq, Nat.pow_succ]
  simp only [wheelBits, wheelMask, wheelLen]
  omega

theorem and_relmask (wheel x : Nat) : (64 ^ wheel - 1) &&& x = x % 64 ^ wheel := by
  have pow : 64 ^ wheel = 2 ^ (6 * wheel) := by rw [Nat.pow_mul]
  rw [Nat.and_comm, pow, Nat.and_two_pow_sub_one_eq_mod]

def nextSlot (w : TimerWheel) (wheel : Nat) : Nat :=
  first ((w.pending wheel).rotateRight (w.curtime / 64 ^ wheel % 64))

theorem wheelTimeout_eq (w : TimerWheel) (wheel : Nat) :
    w.wheelTimeout wheel (64 ^ wheel - 1) =
      (w.nextSlot wheel + if wheel > 0 then 1 else 0) * 64 ^ wheel - w.curtime % 64 ^ wheel := by
  simp only [wheelTimeout, shift_eq_div, shift_eq_mul, and_wheelMask, and_relmask, nextSlot]

theorem rotated_ne_zero {m : Word} (nonempty : m ≠ 0) (slot : Nat) : m.rotateRight slot ≠ 0 := by
  intro none
  apply nonempty
  rw [eq_zero_iff] at none ⊢
  intro i small
  have := none ((i + (64 - slot % 64)) % 64) (Nat.mod_lt _ (by decide))
  rw [has_rotateRight] at this
  unfold has at this ⊢
  rwa [show ((i + (64 - slot % 64)) % 64 + slot) % 64 = i % 64 by omega] at this

section
variable (valid : w.Valid [])
include valid

theorem nextSlot_filled {wheel : Nat} (inside : wheel < wheelNum)
    (some : w.pending wheel ≠ 0) :
    ∃ key expires, key ∈ w.wheel wheel ((w.nextSlot wheel + w.curtime / 64 ^ wheel) % 64) ∧
      Placed wheel ((w.nextSlot wheel + w.curtime / 64 ^ wheel) % 64) expires w.curtime := by
  have bit := has_first (rotated_ne_zero some (w.curtime / 64 ^ wheel % 64))
  rw [has_rotateRight] at bit
  have same : has (w.pending wheel) ((w.nextSlot wheel + w.curtime / 64 ^ wheel) % 64) = true := by
    unfold has at bit ⊢
    rw [← bit, nextSlot]
    congr 1
    omega
  have filled := (valid.pending wheel _ inside (Nat.mod_lt _ (by decide))).mp same
  obtain ⟨key, mem⟩ := List.exists_mem_of_ne_nil _ filled
  obtain ⟨_, _, e, _, placed⟩ := valid.inSlot _ _ key mem
  exact ⟨key, e, mem, placed⟩

theorem nextSlot_le {wheel slot key expires : Nat}
    (mem : key ∈ w.wheel wheel slot) (placed : Placed wheel slot expires w.curtime)
    (inside : wheel < wheelNum) :
    w.nextSlot wheel + w.curtime / 64 ^ wheel ≤ base wheel expires - 1 := by
  have bit := (valid.pending wheel slot inside placed.slot_lt).mpr (List.ne_nil_of_mem mem)
  have here := placed.here
  have ahead : w.curtime / 64 ^ wheel < base wheel expires :=
    Nat.lt_of_le_of_lt (Nat.le_add_right _ _) placed.ahead
  unfold nextSlot
  generalize w.curtime / 64 ^ wheel = current at ahead ⊢
  generalize base wheel expires = unit at here ahead ⊢
  by_contra after
  have narrow := Nat.mod_lt (unit - 1 - current) (by decide : 0 < 64)
  have none := not_has_before_first (m := (w.pending wheel).rotateRight (current % 64))
    (i := (unit - 1 - current) % 64) (by omega) narrow
  rw [has_rotateRight] at none
  have same : has (w.pending wheel) ((unit - 1 - current) % 64 + current % 64) =
      has (w.pending wheel) slot := by
    unfold has
    congr 1
    omega
  rw [same, bit] at none
  exact absurd none (by decide)

theorem wheelTimeout_pos {wheel : Nat} (inside : wheel < wheelNum)
    (some : w.pending wheel ≠ 0) : 0 < w.wheelTimeout wheel (64 ^ wheel - 1) := by
  have pos : 0 < 64 ^ wheel := Nat.pow_pos (by decide)
  have rest := Nat.mod_lt w.curtime pos
  rw [wheelTimeout_eq]
  rcases Nat.eq_zero_or_pos wheel with rfl | higher
  · -- a timer of the lowest wheel is at most 63 ticks away, so its slot is not the current one
    obtain ⟨_, e, _, placed⟩ := nextSlot_filled valid inside some
    have ahead := placed.ahead
    have here := placed.here
    have near := placed.near rfl
    simp only [base, Nat.pow_zero, Nat.div_one, if_true, Nat.add_sub_cancel] at ahead here
    simp only [Nat.pow_zero, Nat.mod_one, gt_iff_lt, Nat.lt_irrefl, if_false]
    omega
  · rw [if_pos higher, Nat.add_mul]
    omega

theorem wheelTimeout_le {wheel slot key expires : Nat}
    (mem : key ∈ w.wheel wheel slot) (placed : Placed wheel slot expires w.curtime)
    (inside : wheel < wheelNum) :
    w.curtime + w.wheelTimeout wheel (64 ^ wheel - 1) ≤ expires := by
  have near := nextSlot_le valid mem placed inside
  have ahead := placed.ahead
  rw [wheelTimeout_eq]
  rcases Nat.eq_zero_or_pos wheel with rfl | higher
  · simp only [base, Nat.pow_zero, Nat.div_one, if_true] at near ahead
    simp only [Nat.pow_zero, Nat.mod_one, gt_iff_lt, Nat.lt_irrefl, if_false]
    omega
  · have pos : 0 < 64 ^ wheel := Nat.pow_pos (by decide)
    have rest := Nat.mod_lt w.curtime pos
    have split := Nat.div_add_mod w.curtime (64 ^ wheel)
    simp only [base, if_neg (Nat.ne_of_gt higher), Nat.add_zero] at near ahead
    rw [if_pos higher]
    have units : w.curtime / 64 ^ wheel + (w.nextSlot wheel + 1) ≤ expires / 64 ^ wheel := by
      generalize w.curtime / 64 ^ wheel = current at near ahead ⊢
      generalize expires / 64 ^ wheel = unit at near ahead ⊢
      omega
    have reach : (w.curtime / 64 ^ wheel + (w.nextSlot wheel + 1)) * 64 ^ wheel ≤ expires := by
      calc (w.curtime / 64 ^ wheel + (w.nextSlot wheel + 1)) * 64 ^ wheel
          ≤ expires / 64 ^ wheel * 64 ^ wheel := Nat.mul_le_mul_right _ units
        _ ≤ expires := Nat.div_mul_le_self _ _
    have first : 64 ^ wheel ≤ (w.nextSlot wheel + 1) * 64 ^ wheel :=
      Nat.le_mul_of_pos_left _ (by omega)
    rw [Nat.add_mul, Nat.mul_comm (w.curtime / 64 ^ wheel)] at reach
    omega

end

theorem timeoutFrom_spec (left wheel : Nat) (best : Option Nat) :
    (w.timeoutFrom left wheel (64 ^ wheel - 1) best = none ↔
      best = none ∧ ∀ i, wheel ≤ i → i < wheel + left → w.pending i = 0) ∧
    ∀ t, w.timeoutFrom left wheel (64 ^ wheel - 1) best = some t →
      (best = some t ∨ ∃ i, wheel ≤ i ∧ i < wheel + left ∧ w.pending i ≠ 0 ∧
        t = w.wheelTimeout i (64 ^ i - 1)) ∧
      (∀ b, best = some b → t ≤ b) ∧
      ∀ i, wheel ≤ i → i < wheel + left → w.pending i ≠ 0 → t ≤ w.wheelTimeout i (64 ^ i - 1) := by
  induction left generalizing wheel best with
  | zero =>
    simp only [timeoutFrom]
    constructor
    · constructor
      · intro none
        exact ⟨none, by omega⟩
      · exact And.left
    · intro t here
      refine ⟨Or.inl here, ?_, by omega⟩
      intro b there
      rw [here] at there
      exact Nat.le_of_eq (Option.some.inj there)
  | succ left ih =>
    simp only [timeoutFrom, relmask_next]
    by_cases empty : w.pending wheel = 0
    · simp only [empty, ne_eq, not_true_eq_false, if_false]
      obtain ⟨none_iff, bound⟩ := ih (wheel + 1) best
      constructor
      · rw [none_iff]
        constructor
        · rintro ⟨none, rest⟩
          refine ⟨none, ?_⟩
          intro i low high
          rcases Nat.eq_or_lt_of_le low with rfl | above
          · exact empty
          · exact rest i above (by omega)
        · rintro ⟨none, rest⟩
          exact ⟨none, fun i low high => rest i (by omega) (by omega)⟩
      · intro t here
        obtain ⟨source, below, least⟩ := bound t here
        refine ⟨?_, below, ?_⟩
        · rcases source with old | ⟨i, low, high, rest⟩
          · exact Or.inl old
          · exact Or.inr ⟨i, by omega, by omega, rest⟩
        · intro i low high filled
          rcases Nat.eq_or_lt_of_le low with rfl | above
          · exact absurd empty filled
          · exact least i above (by omega) filled
    · simp only [ne_eq, empty, not_false_eq_true, if_true]
      obtain ⟨none_iff, bound⟩ := ih (wheel + 1)
        (some (closer best (w.wheelTimeout wheel (64 ^ wheel - 1))))
      constructor
      · rw [none_iff]
        constructor
        · rintro ⟨absurd, _⟩
          cases absurd
        · rintro ⟨_, rest⟩
          exact absurd (rest wheel (by omega) (by omega)) empty
      · intro t here
        obtain ⟨source, below, least⟩ := bound t here
        have chosen := below _ rfl
        have own : t ≤ w.wheelTimeout wheel (64 ^ wheel - 1) := by
          cases best <;> simp only [closer] at chosen <;> omega
        refine ⟨?_, ?_, ?_⟩
        · rcases source with old | ⟨i, low, high, rest⟩
          · have eq := Option.some.inj old
            cases best with
            | none => exact Or.inr ⟨wheel, by omega, by omega, empty, eq.symm⟩
            | some b =>
              simp only [closer] at eq
              rcases Nat.le_total b (w.wheelTimeout wheel (64 ^ wheel - 1)) with left | right
              · left
                rw [← eq, Nat.min_eq_left left]
              · right
                exact ⟨wheel, by omega, by omega, empty, by rw [← eq, Nat.min_eq_right right]⟩
          · exact Or.inr ⟨i, by omega, by omega, rest⟩
        · intro b eq
          subst eq
          simp only [closer] at chosen
          omega
        · intro i low high filled
          rcases Nat.eq_or_lt_of_le low with rfl | above
          · exact own
          · exact least i above (by omega) filled

theorem timeout_of_expired (late : w.expired ≠ []) : w.timeout = some 0 := by
  unfold timeout
  rw [if_pos (by simpa using late)]

theorem timeout_of_none_expired (none : w.expired = []) :
    w.timeout = w.timeoutFrom wheelNum 0 (64 ^ 0 - 1) Option.none := by
  unfold timeout
  rw [if_neg (by simp [none]), Nat.pow_zero, Nat.sub_self]

section
variable (valid : w.Valid [])
include valid

theorem slot_of_live (early : w.expired = []) {key expires userData : Nat}
    (known : w.live key = some (expires, userData)) :
    ∃ wheel slot, key ∈ w.wheel wheel slot ∧ wheel < wheelNum ∧
      Placed wheel slot expires w.curtime := by
  obtain ⟨n, found, same⟩ := Option.map_eq_some_iff.mp known
  rcases valid.total key n found with one | two | ⟨i, s, three⟩
  · exact absurd one List.not_mem_nil
  · rw [early] at two
    exact absurd two List.not_mem_nil
  · obtain ⟨inside, _, e, ⟨n', found', _, rfl⟩, placed⟩ := valid.inSlot i s key three
    rw [found] at found'
    rw [← Option.some.inj found', show n.expires = expires from congrArg Prod.fst same] at placed
    exact ⟨i, s, three, inside, placed⟩

theorem pending_of_slot {wheel slot key expires : Nat}
    (mem : key ∈ w.wheel wheel slot) (inside : wheel < wheelNum)
    (placed : Placed wheel slot expires w.curtime) : w.pending wheel ≠ 0 := by
  intro none
  have bit := (valid.pending wheel slot inside placed.slot_lt).mpr (List.ne_nil_of_mem mem)
  rw [none, has_zero] at bit
  exact absurd bit (by decide)

theorem timeout_eq_none_iff : w.timeout = none ↔ ∀ key, w.live key = none := by
  by_cases early : w.expired = []
  · rw [timeout_of_none_expired early, (timeoutFrom_spec wheelNum 0 Option.none).1]
    constructor
    · rintro ⟨_, empty⟩ key
      by_contra known
      obtain ⟨⟨expires, userData⟩, known⟩ := Option.ne_none_iff_exists'.mp known
      obtain ⟨wheel, slot, mem, inside, placed⟩ := slot_of_live valid early known
      exact pending_of_slot valid mem inside placed (empty wheel (by omega) (by omega))
    · intro none
      refine ⟨rfl, ?_⟩
      intro wheel _ inside
      by_contra some
      obtain ⟨key, _, mem, _⟩ := nextSlot_filled valid (by omega) some
      obtain ⟨_, _, _, ⟨n, found, _⟩, _⟩ := valid.inSlot _ _ key mem
      have := none key
      rw [live, found] at this
      cases this
  · rw [timeout_of_expired early]
    constructor
    · intro absurd
      cases absurd
    · intro none
      obtain ⟨key, mem⟩ := List.exists_mem_of_ne_nil _ early
      obtain ⟨e, d, known, _⟩ := (mem_expired_iff valid key).mp mem
      rw [none key] at known
      cases known

theorem timeout_bound (early : w.expired = []) {t : Nat}
    (sleep : w.timeout = some t) : 0 < t ∧ ∀ key expires userData,
      w.live key = some (expires, userData) → w.curtime + t ≤ expires := by
  rw [timeout_of_none_expired early] at sleep
  obtain ⟨source, _, least⟩ := (timeoutFrom_spec wheelNum 0 Option.none).2 t sleep
  constructor
  · rcases source with absurd | ⟨wheel, _, inside, filled, rfl⟩
    · cases absurd
    · exact wheelTimeout_pos valid (by omega) filled
  · intro key expires userData known
    obtain ⟨wheel, slot, mem, inside, placed⟩ := slot_of_live valid early known
    have := least wheel (by omega) (by omega) (pending_of_slot valid mem inside placed)
    have := wheelTimeout_le valid mem placed inside
    omega

theorem timeout_eq_zero_iff : w.timeout = some 0 ↔ w.expired ≠ [] := by
  constructor
  · intro zero early
    have := (timeout_bound valid early zero).1
    omega
  · exact timeout_of_expired

end

/-- Sleeping for what `timeout` says reaches the expiry of the earliest timer. -/
theorem sleep_reaches (distance : Nat) (valid : w.Valid []) {key expires userData : Nat}
    (known : w.live key = some (expires, userData))
    (earliest : ∀ k e d, w.live k = some (e, d) → expires ≤ e)
    (near : expires - w.curtime ≤ distance) :
    ∃ rounds w', w.sleep rounds = some w' ∧ w'.live = w.live ∧ key ∈ w'.expired := by
  induction distance generalizing w with
  | zero =>
    refine ⟨0, w, rfl, rfl, ?_⟩
    exact (mem_expired_iff valid key).mpr ⟨expires, userData, known, by omega⟩
  | succ distance ih =>
    by_cases due : expires ≤ w.curtime
    · exact ⟨0, w, rfl, rfl, (mem_expired_iff valid key).mpr ⟨expires, userData, known, due⟩⟩
    · have early : w.expired = [] := by
        by_contra late
        obtain ⟨k, mem⟩ := List.exists_mem_of_ne_nil _ late
        obtain ⟨e, d, other, past⟩ := (mem_expired_iff valid k).mp mem
        have := earliest k e d other
        omega
      have some : w.timeout ≠ none := by
        intro none
        rw [(timeout_eq_none_iff valid).mp none key] at known
        cases known
      obtain ⟨t, sleeps⟩ := Option.ne_none_iff_exists'.mp some
      obtain ⟨pos, bound⟩ := timeout_bound valid early sleeps
      obtain ⟨w₁, run, valid₁, live, _, now⟩ := update_spec valid (w.curtime + t)
      obtain ⟨rounds, w', rest, live', mem⟩ := ih valid₁ (by rw [live]; exact known)
        (by rw [live]; exact earliest) (by rw [now]; have := bound _ _ _ known; omega)
      refine ⟨rounds + 1, w', ?_, live'.trans live, mem⟩
      simp only [sleep, sleeps, run, Option.bind_eq_bind, Option.bind_some]
      exact rest

end TimerWheel

/-- In every reachable state `timeout` is none exactly without live timers, zero
    exactly when one waits to be taken, and otherwise positive and no later than
    any expiry; sleeping for it again and again expires the earliest timer. -/
theorem timeout_never_oversleeps (capacity : Nat) (ops : List Op)
    (allowed : (TimerWheel.new capacity).allowedRun ops = true) :
    ∃ w outs, (TimerWheel.new capacity).run ops = some (w, outs) ∧
      (w.timeout = none ↔ ∀ key, w.live key = none) ∧
      (w.timeout = some 0 ↔ w.expired ≠ []) ∧
      (∀ t, w.timeout = some t → t ≠ 0 → ∀ key expires userData,
        w.live key = some (expires, userData) → w.curtime + t ≤ expires) ∧
      ∀ key expires userData, w.live key = some (expires, userData) →
        (∀ k e d, w.live k = some (e, d) → expires ≤ e) →
        ∃ rounds w', w.sleep rounds = some w' ∧ w'.live = w.live ∧ key ∈ w'.expired := by
  obtain ⟨w, outs, run, valid, _⟩ := TimerWheel.wheel_run_from_new capacity ops allowed
  refine ⟨w, outs, run, TimerWheel.timeout_eq_none_iff valid,
    TimerWheel.timeout_eq_zero_iff valid, ?_, ?_⟩
  · intro t sleeps positive
    have early : w.expired = [] := by
      by_contra late
      rw [TimerWheel.timeout_of_expired late] at sleeps
      exact positive (Option.some.inj sleeps).symm
    exact (TimerWheel.timeout_bound valid early sleeps).2
  · intro key expires userData known earliest
    exact TimerWheel.sleep_reaches _ valid known earliest (Nat.le_refl _)

theorem timeout_reaches_slot_boundary :
    ∃ w outs, (TimerWheel.new 2).run [.update 5, .add 1 300 7, .add 0 5000 8] = some (w, outs) ∧
      (w.timeout = none ↔ ∀ key, w.live key = none) := by
  obtain ⟨w, outs, run, none, _⟩ :=
    timeout_never_oversleeps 2 [.update 5, .add 1 300 7, .add 0 5000 8] (by decide +kernel)
  exact ⟨w, outs, run, none⟩

end PushpinTimer
