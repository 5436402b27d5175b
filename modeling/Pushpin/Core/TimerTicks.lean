import Pushpin.Core.TimerPlacement

namespace PushpinTimer
open CyclicMask

def tickWheel (curtime : Nat) (result : List Word) (wheel : Nat) : List Word :=
  let truncBits := wheel * wheelBits
  let oldSlot := (curtime >>> truncBits) &&& wheelMask
  let newSlot := ((curtime + 1) >>> truncBits) &&& wheelMask
  if oldSlot ≠ newSlot then
    if wheel > 0 then result.modify wheel (· ||| single oldSlot)
    else result.modify wheel (· ||| single newSlot)
  else result

def needReschedSimple (curtime newtime : Nat) : List Word :=
  let result := List.replicate wheelNum 0
  if newtime ≤ curtime then result
  else
    (List.range' curtime (newtime - curtime)).foldl
      (fun result curtime => (List.range wheelNum).foldl (tickWheel curtime) result) result

def slotAt (wheel time : Nat) : Nat := time / 64 ^ wheel % 64

def Ticks (wheel tick slot : Nat) : Prop :=
  slotAt wheel tick ≠ slotAt wheel (tick + 1) ∧
    slot % 64 = if wheel > 0 then slotAt wheel tick else slotAt wheel (tick + 1)

section
variable {α β : Type} {f : α → β → α}

theorem foldl_gathers (keeps gathered : α → Prop) (adds : β → Prop)
    (step : ∀ acc b, keeps acc → keeps (f acc b) ∧ (gathered (f acc b) ↔ gathered acc ∨ adds b))
    (rounds : List β) {acc : α} (start : keeps acc) :
    keeps (rounds.foldl f acc) ∧
      (gathered (rounds.foldl f acc) ↔ gathered acc ∨ ∃ b ∈ rounds, adds b) := by
  induction rounds generalizing acc with
  | nil => exact ⟨start, by simp⟩
  | cons b rounds ih =>
    obtain ⟨kept, here⟩ := step acc b start
    obtain ⟨last, rest⟩ := ih kept
    refine ⟨last, ?_⟩
    rw [List.foldl_cons, rest, here, List.exists_mem_cons_iff, or_assoc]

end

variable {wheel slot tick curtime newtime : Nat}

theorem has_modify (result : List Word) (i : Nat) (bits : Word) :
    has ((result.modify i (· ||| bits)).getD wheel 0) slot = true ↔
      has (result.getD wheel 0) slot = true ∨ i = wheel ∧ i < result.length ∧
        has bits slot = true := by
  simp only [List.getD_eq_getElem?_getD, List.getElem?_modify]
  by_cases same : i = wheel
  · subst same
    by_cases inside : i < result.length
    · simp [inside]
    · simp [inside]
  · simp [same]

theorem tickWheel_spec (result : List Word) (i : Nat) (there : result.length = wheelNum) :
    (tickWheel tick result i).length = wheelNum ∧
      (has ((tickWheel tick result i).getD wheel 0) slot = true ↔
        has (result.getD wheel 0) slot = true ∨ i = wheel ∧ i < wheelNum ∧ Ticks i tick slot) := by
  have below := fun x => Nat.mod_lt x (by decide : 0 < 64)
  simp only [tickWheel, shift_eq_div, and_wheelMask, Ticks, slotAt]
  by_cases moves : tick / 64 ^ i % 64 ≠ (tick + 1) / 64 ^ i % 64
  · rw [if_pos moves]
    by_cases higher : i > 0
    · simp only [if_pos higher, List.length_modify, there, has_modify, has_single _ _ (below _),
        decide_eq_true_eq, true_and]
      simp [moves]
    · simp only [if_neg higher, List.length_modify, there, has_modify, has_single _ _ (below _),
        decide_eq_true_eq, true_and]
      simp [moves]
  · rw [if_neg moves]
    exact ⟨there, by simp [moves]⟩

theorem needReschedSimple_spec (slot : Nat) (inside : wheel < wheelNum) :
    (needReschedSimple curtime newtime).length = wheelNum ∧
      (has ((needReschedSimple curtime newtime).getD wheel 0) slot = true ↔
        ∃ tick, curtime ≤ tick ∧ tick < newtime ∧ Ticks wheel tick slot) := by
  have empty : has ((List.replicate wheelNum (0 : Word)).getD wheel 0) slot = false := by
    rw [List.getD_eq_getElem?_getD, List.getElem?_replicate, if_pos inside]
    exact has_zero slot
  have size : (List.replicate wheelNum (0 : Word)).length = wheelNum := List.length_replicate
  unfold needReschedSimple
  split
  · rename_i still
    refine ⟨size, ?_⟩
    rw [empty]
    constructor
    · intro never
      cases never
    · rintro ⟨tick, low, high, -⟩
      omega
  · obtain ⟨length, gathers⟩ := foldl_gathers (fun result : List Word => result.length = wheelNum)
      (fun result => has (result.getD wheel 0) slot = true) (fun tick => Ticks wheel tick slot)
      (fun result tick there => by
        obtain ⟨length, gathers⟩ :=
          foldl_gathers (fun result : List Word => result.length = wheelNum)
            (fun result => has (result.getD wheel 0) slot = true)
            (fun i => i = wheel ∧ i < wheelNum ∧ Ticks i tick slot)
            (fun result i there => tickWheel_spec result i there) (List.range wheelNum) there
        refine ⟨length, gathers.trans (or_congr_right ?_)⟩
        constructor
        · rintro ⟨i, -, rfl, -, ticks⟩
          exact ticks
        · intro ticks
          exact ⟨wheel, List.mem_range.mpr inside, rfl, inside, ticks⟩)
      (List.range' curtime (newtime - curtime)) size
    refine ⟨length, gathers.trans ?_⟩
    rw [empty]
    simp only [Bool.false_eq_true, false_or, List.mem_range'_1]
    constructor
    · rintro ⟨tick, ⟨low, high⟩, ticks⟩
      exact ⟨tick, low, by omega, ticks⟩
    · rintro ⟨tick, low, high, ticks⟩
      exact ⟨tick, ⟨low, by omega⟩, ticks⟩

theorem div_succ_cases (time unit : Nat) :
    (time + 1) / unit = time / unit ∨ (time + 1) / unit = time / unit + 1 := by
  rw [Nat.succ_div]
  split
  · exact Or.inr rfl
  · exact Or.inl rfl

theorem ticks_iff : Ticks wheel tick slot ↔
    base wheel tick < base wheel (tick + 1) ∧ base wheel tick % 64 = slot % 64 := by
  have steps := div_succ_cases tick (64 ^ wheel)
  rw [base_lt_iff]
  unfold Ticks slotAt base
  rcases Nat.eq_zero_or_pos wheel with rfl | higher
  · simp only [Nat.pow_zero, Nat.div_one, Nat.lt_irrefl, ↓reduceIte]
    omega
  · rw [if_pos higher, if_neg (by omega)]
    omega

theorem passed_iff_ticks :
    Passed wheel curtime newtime slot ↔ ∃ tick, curtime ≤ tick ∧ tick < newtime ∧
      Ticks wheel tick slot := by
  simp only [ticks_iff]
  constructor
  · rintro ⟨unit, low, high, same⟩
    induction newtime with
    | zero =>
      have := base_mono wheel (Nat.zero_le curtime)
      omega
    | succ newtime ih =>
      by_cases before : unit < base wheel newtime
      · obtain ⟨tick, from_, until_, ticks⟩ := ih before
        exact ⟨tick, from_, by omega, ticks⟩
      · -- the last tick leaves the unit
        have steps := div_succ_cases newtime (64 ^ wheel)
        have last : base wheel newtime = unit := by
          unfold base at before high ⊢
          omega
        refine ⟨newtime, ?_, Nat.lt_succ_self _, by omega, by rw [last, same]⟩
        by_contra late
        have := base_mono wheel (show newtime + 1 ≤ curtime by omega)
        omega
  · rintro ⟨tick, low, high, leaves, same⟩
    exact ⟨base wheel tick, base_mono wheel low, Nat.lt_of_lt_of_le leaves (base_mono wheel high),
      same⟩

/-- The masks of `need_resched` are those of the plain loop: on each wheel, the slots that
    the ticks from `curtime` to `newtime` process. -/
theorem needResched_eq_simple (curtime newtime : Nat) :
    needResched curtime newtime = needReschedSimple curtime newtime ∧
    ∀ wheel slot, wheel < wheelNum → slot < 64 →
      (has ((needResched curtime newtime).getD wheel 0) slot = true ↔
        ∃ tick, curtime ≤ tick ∧ tick < newtime ∧ slotAt wheel tick ≠ slotAt wheel (tick + 1) ∧
          slot = if wheel > 0 then slotAt wheel tick else slotAt wheel (tick + 1)) := by
  have marks : ∀ wheel slot, wheel < wheelNum →
      (has ((needResched curtime newtime).getD wheel 0) slot = true ↔
        ∃ tick, curtime ≤ tick ∧ tick < newtime ∧ Ticks wheel tick slot) := by
    intro wheel slot inside
    by_cases forward : curtime < newtime
    · rw [needResched_spec forward inside, passed_iff_ticks]
    · have none_ : needResched curtime newtime = needReschedSimple curtime newtime := by
        unfold needResched needReschedSimple
        rw [if_pos (Nat.le_of_not_lt forward), if_pos (Nat.le_of_not_lt forward)]
      rw [none_]
      exact (needReschedSimple_spec slot inside).2
  refine ⟨?_, fun wheel slot inside small => ?_⟩
  · have size : (needReschedSimple curtime newtime).length = wheelNum :=
      (needReschedSimple_spec 0 (show 0 < wheelNum by decide)).1
    apply List.ext_getElem?
    intro wheel
    by_cases inside : wheel < wheelNum
    · have here : (needResched curtime newtime).getD wheel 0 =
          (needReschedSimple curtime newtime).getD wheel 0 := by
        apply ext_has
        intro slot _
        rw [Bool.eq_iff_iff, marks wheel slot inside]
        exact (needReschedSimple_spec slot inside).2.symm
      have first : wheel < (needResched curtime newtime).length := by
        rw [needResched_length]; exact inside
      have second : wheel < (needReschedSimple curtime newtime).length := by rw [size]; exact inside
      simpa [List.getD_eq_getElem?_getD, List.getElem?_eq_getElem first,
        List.getElem?_eq_getElem second] using here
    · rw [List.getElem?_eq_none (by rw [needResched_length]; omega),
        List.getElem?_eq_none (by rw [size]; omega)]
  · rw [marks wheel slot inside]
    unfold Ticks
    rw [Nat.mod_eq_of_lt small]

end PushpinTimer
