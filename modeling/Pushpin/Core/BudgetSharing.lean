import Pushpin.Core.BufferBudget
import Pushpin.Foundations.Runs

/-!
Any number of budgets over one counter, in any interleaving. A call of a budget comes to
the counter in the loads and the exchanges of `core/counter.rs`, each of them a step of
its own. As the ordering is relaxed, a load may give any value that the counter has had
since the budget's own last exchange. `none` is a failed `expect`.
-/
namespace PushpinBudget
open PushpinRingBuffer Text

inductive Phase where
  | idle
  | decLoad
  | decExchange (value : Nat)
  | decDone
  | incLoad (amount : Nat) (drops : Bool)
  | incExchange (amount value : Nat) (drops : Bool)
  deriving DecidableEq, Repr

/-- A budget, and the values that the counter had between its own last exchange and now. -/
structure Member where
  budget : BufferBudget
  phase : Phase
  since : List Nat
  deriving DecidableEq, Repr

inductive Call where
  | expandBufferIfNeeded (buf : RingBuffer)
  | releaseBlocks (count : Nat)
  | shrinkBuffer (buf : RingBuffer) (target : Nat)
  | drop
  deriving DecidableEq, Repr

def Member.releaseBlocks (m : Member) (count : Nat) : Member :=
  let count := min count m.budget.blocksUsed
  let m := { m with budget := { m.budget with blocksUsed := m.budget.blocksUsed - count } }
  if count = 0 then m else { m with phase := .incLoad count false }

/-- A call up to the counter; a budget that goes is `none`. A call that panics before it
    has changed nothing. -/
def Member.call (m : Member) : Call → Option Member
  | .expandBufferIfNeeded buf =>
    if buf.remainingCapacity = 0 ∧ m.budget.localLimitOk then some { m with phase := .decLoad }
      else some m
  | .releaseBlocks count => some (m.releaseBlocks count)
  | .shrinkBuffer buf target =>
    if buf.capacity > target ∧ m.budget.blockSize ≠ 0 ∧
        (buf.capacity - target) % m.budget.blockSize = 0 ∧ (buf.resize target).isSome then
      some (m.releaseBlocks ((buf.capacity - target) / m.budget.blockSize))
    else some m
  | .drop => if m.budget.blocksUsed = 0 then none
    else some { m with phase := .incLoad m.budget.blocksUsed true }

structure Shared where
  counter : Nat
  past : List Nat
  budgets : List (Option Member)
  deriving DecidableEq, Repr

def Shared.start (initial : Nat) : Shared := ⟨initial, [], []⟩

/-- What a budget does next. A load may be `age` exchanges behind. -/
inductive Act where
  | call (call : Call)
  | load (age : Nat)
  | exchange (fails : Bool)
  | finish
  deriving DecidableEq, Repr

inductive Event where
  | new (blocksMax : Option Nat) (blockSize : Nat)
  | act (i : Nat) (act : Act)
  deriving DecidableEq, Repr

def Shared.put (s : Shared) (i : Nat) (m : Option Member) : Shared :=
  { s with budgets := s.budgets.set i m }

def Member.sees (value : Nat) (m : Member) : Member := { m with since := value :: m.since }

def Shared.write (s : Shared) (i value : Nat) (m : Option Member) : Shared :=
  ⟨value, s.counter :: s.past, (s.budgets.map (Option.map (Member.sees s.counter))).set i m⟩

def Shared.load (s : Shared) (i : Nat) (m : Member) (value : Nat) : Option Shared :=
  match m.phase with
  | .decLoad =>
    if 1 > value then some (s.put i (some { m with phase := .idle }))
    else some (s.put i (some { m with phase := .decExchange value }))
  | .incLoad amount drops =>
    if amount > usizeEnd - 1 - value then none
    else some (s.put i (some { m with phase := .incExchange amount value drops }))
  | _ => some s

def Shared.exchange (s : Shared) (i : Nat) (m : Member) (fails : Bool) : Shared :=
  match m.phase with
  | .decExchange value =>
    if s.counter = value ∧
      fails = false then s.write i (value - 1) (some { m with phase := .decDone, since := [] })
    else s.put i (some { m with phase := .decLoad })
  | .incExchange amount value drops =>
    if s.counter = value ∧ fails = false then
      s.write i (value + amount)
        (if drops then none else some { m with phase := .idle, since := [] })
    else s.put i (some { m with phase := .incLoad amount drops })
  | _ => s

/-- An act that the budget is not ready for does nothing. The buffer of an expansion is
    resized behind `blocks_used += 1`, and the call is over whether that panics or not. -/
def Shared.act (s : Shared) (i : Nat) (m : Member) : Act → Option Shared
  | .call call => some (if m.phase = .idle then s.put i (m.call call) else s)
  | .load age =>
    match (s.counter :: m.since)[age]? with
    | some value => s.load i m value
    | none => some s
  | .exchange fails => some (s.exchange i m fails)
  | .finish => some (if m.phase = .decDone then s.put i (some { m with
      budget := { m.budget with blocksUsed := m.budget.blocksUsed + 1 }, phase := .idle }) else s)

def Shared.step (s : Shared) : Event → Option Shared
  | .new blocksMax blockSize =>
    some { s with budgets := s.budgets ++ [some ⟨.new blocksMax blockSize, .idle, s.past⟩] }
  | .act i act =>
    match s.budgets[i]? with
    | some (some m) => s.act i m act
    | _ => some s

/-- The blocks on their way between the counter and the budget. -/
def Phase.transit : Phase → Nat
  | .decDone => 1
  | .incLoad amount false => amount
  | .incExchange amount _ false => amount
  | _ => 0

def Phase.wanted : Phase → Nat
  | .decLoad => 1
  | .decExchange _ => 1
  | .decDone => 1
  | _ => 0

def Member.held (m : Member) : Nat := m.budget.blocksUsed + m.phase.transit

def heldOf (m : Option Member) : Nat := (m.map Member.held).getD 0

def usedOf (m : Option Member) : Nat := (m.map fun m => m.budget.blocksUsed).getD 0

def Phase.Fits (blocksUsed : Nat) : Phase → Prop
  | .decExchange value => 0 < value
  | .incLoad amount true => amount = blocksUsed
  | .incExchange amount _ true => amount = blocksUsed
  | _ => True

/-- A value that a budget may load leaves room for the blocks that the budget holds. -/
structure Member.Fine (initial : Nat) (m : Member) : Prop where
  since : ∀ value ∈ m.since, value + m.held ≤ initial
  room : ∀ max ∈ m.budget.blocksMax, m.budget.blocksUsed + m.phase.wanted ≤ max
  fits : m.phase.Fits m.budget.blocksUsed

structure Shared.Conserved (initial : Nat) (s : Shared) : Prop where
  total : s.counter + (s.budgets.map heldOf).sum = initial
  past : ∀ value ∈ s.past, value ≤ initial
  fine : ∀ m, some m ∈ s.budgets → m.Fine initial

variable {initial i : Nat} {s t : Shared} {m : Member}

theorem sum_map_set {α : Type} (f : α → Nat) {xs : List α} {i : Nat} {old : α}
    (there : xs[i]? = some old) (new : α) :
    ((xs.set i new).map f).sum + f old = (xs.map f).sum + f new := by
  induction xs generalizing i with
  | nil => cases there
  | cons x xs ih =>
    cases i with
    | zero =>
      cases there
      simp only [List.set_cons_zero, List.map_cons, List.sum_cons]
      omega
    | succ i =>
      have rest := ih there
      simp only [List.set_cons_succ, List.map_cons, List.sum_cons]
      omega

theorem map_heldOf_sees (value : Nat) (budgets : List (Option Member)) :
    (budgets.map (Option.map (Member.sees value))).map heldOf = budgets.map heldOf := by
  rw [List.map_map]
  apply List.map_congr_left
  intro m _
  cases m <;> rfl

theorem Shared.Conserved.held_le (good : s.Conserved initial) (there : some m ∈ s.budgets) :
    s.counter + m.held ≤ initial := by
  obtain ⟨i, found⟩ := List.mem_iff_getElem?.mp there
  have sum := sum_map_set heldOf found none
  have : heldOf (some m) = m.held := rfl
  have : heldOf none = 0 := rfl
  have := good.total
  omega

section
variable (good : s.Conserved initial) (there : s.budgets[i]? = some (some m)) {new : Option Member}
include good there

theorem Shared.Conserved.put (same : heldOf new = m.held) (fine : ∀ m', new = some m' →
    m'.Fine initial) :
    (s.put i new).Conserved initial where
  total := by
    have sum := sum_map_set heldOf there new
    have : heldOf (some m) = m.held := rfl
    have := good.total
    simp only [Shared.put]
    omega
  past := good.past
  fine := fun m' mem => by
    rcases List.mem_or_eq_of_mem_set mem with old | here
    · exact good.fine m' old
    · exact fine m' here.symm

theorem Shared.Conserved.write {value : Nat} (moved : value + heldOf new = s.counter + m.held)
    (fine : ∀ m', new = some m' → m'.Fine initial) : (s.write i value new).Conserved initial where
  total := by
    have seen : (s.budgets.map (Option.map (Member.sees s.counter)))[i]? =
        some (some (m.sees s.counter)) := by
      rw [List.getElem?_map, there]
      rfl
    have sum := sum_map_set heldOf seen new
    rw [map_heldOf_sees] at sum
    have : heldOf (some (m.sees s.counter)) = m.held := rfl
    have := good.total
    simp only [Shared.write]
    omega
  past := fun value mem => by
    rcases List.mem_cons.mp mem with rfl | old
    · have := good.total
      omega
    · exact good.past value old
  fine := fun m' mem => by
    rcases List.mem_or_eq_of_mem_set mem with old | here
    · obtain ⟨before, there, same⟩ := List.mem_map.mp old
      obtain ⟨m, rfl, rfl⟩ := Option.map_eq_some_iff.mp same
      obtain ⟨since, room, fits⟩ := good.fine m there
      refine ⟨fun value mem => ?_, room, fits⟩
      rcases List.mem_cons.mp mem with rfl | old
      · exact good.held_le there (m := m)
      · exact since value old
    · exact fine m' here.symm

end

theorem Member.Fine.next (fine : m.Fine initial) {new : Member} (since : new.since = m.since)
    (held : new.held = m.held) (max : new.budget.blocksMax = m.budget.blocksMax)
    (wanted : new.budget.blocksUsed + new.phase.wanted ≤ m.budget.blocksUsed + m.phase.wanted)
    (fits : new.phase.Fits new.budget.blocksUsed) : new.Fine initial := by
  refine ⟨fun value mem => ?_, fun limit mem => ?_, fits⟩
  · rw [held]
    exact fine.since value (since ▸ mem)
  · exact Nat.le_trans wanted (fine.room limit (max ▸ mem))

theorem Member.Fine.releaseBlocks (fine : m.Fine initial) (idle : m.phase = .idle) (count : Nat) :
    (m.releaseBlocks count).held = m.held ∧ (m.releaseBlocks count).Fine initial := by
  have back := Nat.min_le_right count m.budget.blocksUsed
  by_cases nothing : min count m.budget.blocksUsed = 0
  · have same : m.releaseBlocks count = m := by
      simp only [Member.releaseBlocks, nothing, Nat.sub_zero, ↓reduceIte]
    rw [same]
    exact ⟨rfl, fine⟩
  · have held : (m.releaseBlocks count).held = m.held := by
      simp only [Member.releaseBlocks, if_neg nothing, Member.held, idle, Phase.transit]
      omega
    refine ⟨held, fine.next ?_ held ?_ ?_ ?_⟩
    · simp only [Member.releaseBlocks, if_neg nothing]
    · simp only [Member.releaseBlocks, if_neg nothing]
    · simp only [Member.releaseBlocks, if_neg nothing, Phase.wanted]
      omega
    · simp only [Member.releaseBlocks, if_neg nothing, Phase.Fits]

theorem Member.Fine.call (fine : m.Fine initial) (idle : m.phase = .idle) (call : Call) :
    heldOf (m.call call) = m.held ∧ ∀ m', m.call call = some m' → m'.Fine initial := by
  have becomes : ∀ new : Member, new.held = m.held ∧ new.Fine initial →
      heldOf (some new) = m.held ∧ ∀ m', some new = some m' → m'.Fine initial :=
    fun new good => ⟨good.1, fun m' same => Option.some.inj same ▸ good.2⟩
  have held : m.held = m.budget.blocksUsed := by
    simp only [Member.held, idle, Phase.transit, Nat.add_zero]
  cases call with
  | expandBufferIfNeeded buf =>
    simp only [Member.call]
    split
    · next needed =>
      refine becomes _ ⟨held.symm, ?_, fun max mem => ?_, trivial⟩
      · intro value mem
        have := fine.since value mem
        rw [held] at this
        exact this
      · have room := needed.2
        rw [BufferBudget.localLimitOk, Option.mem_def.mp mem, Option.all_some,
          decide_eq_true_eq] at room
        exact room
    · exact becomes m ⟨rfl, fine⟩
  | releaseBlocks count => exact becomes _ (fine.releaseBlocks idle count)
  | shrinkBuffer buf target =>
    simp only [Member.call]
    split
    · exact becomes _ (fine.releaseBlocks idle _)
    · exact becomes m ⟨rfl, fine⟩
  | drop =>
    simp only [Member.call]
    split
    · next nothing =>
      refine ⟨?_, fun m' same => by cases same⟩
      rw [held, nothing]
      rfl
    · exact becomes _ ⟨held.symm, fine.next rfl held.symm rfl (Nat.le_add_right _ _) rfl⟩

section
variable (good : s.Conserved initial)
include good

theorem Shared.Conserved.load (fits : initial < usizeEnd)
    (there : s.budgets[i]? = some (some m)) {value : Nat} (room : value + m.held ≤ initial) :
    ∃ t, s.load i m value = some t ∧ t.Conserved initial := by
  have fine := good.fine m (List.mem_of_getElem? there)
  have becomes : ∀ phase : Phase, phase.transit = m.phase.transit → phase.wanted ≤ m.phase.wanted →
      phase.Fits m.budget.blocksUsed → (s.put i (some { m with phase })).Conserved initial := by
    intro phase same wanted sound
    have held : Member.held { m with phase } = m.held := congrArg (m.budget.blocksUsed + ·) same
    exact good.put there held fun m' eq => Option.some.inj eq ▸
      fine.next rfl held rfl (Nat.add_le_add_left wanted _) sound
  unfold Shared.load
  cases here : m.phase with
  | decLoad =>
    rw [here] at becomes
    dsimp only
    split
    · exact ⟨_, rfl, becomes .idle rfl (Nat.zero_le _) trivial⟩
    · next enough =>
      exact ⟨_, rfl, becomes (.decExchange value) rfl (Nat.le_refl _) (Nat.not_lt.mp enough)⟩
  | incLoad amount drops =>
    have sound := fine.fits
    rw [here] at becomes sound
    have carried : amount ≤ m.held := by
      rw [Member.held, here]
      cases drops with
      | false => exact Nat.le_add_left _ _
      | true => exact Nat.le_add_right_of_le (Nat.le_of_eq sound)
    dsimp only
    rw [if_neg (by omega)]
    refine ⟨_, rfl, becomes (.incExchange amount value drops) ?_ (Nat.le_refl _) ?_⟩
    · cases drops <;> rfl
    · cases drops with
      | false => trivial
      | true => exact sound
  | _ => exact ⟨s, rfl, good⟩

theorem Shared.Conserved.exchange (there : s.budgets[i]? = some (some m)) (fails : Bool) :
    (s.exchange i m fails).Conserved initial := by
  have fine := good.fine m (List.mem_of_getElem? there)
  have sound := fine.fits
  have back : ∀ phase : Phase, phase.transit = m.phase.transit → phase.wanted ≤ m.phase.wanted →
      phase.Fits m.budget.blocksUsed → (s.put i (some { m with phase })).Conserved initial := by
    intro phase same wanted sound
    have held : Member.held { m with phase } = m.held := congrArg (m.budget.blocksUsed + ·) same
    exact good.put there held fun m' eq => Option.some.inj eq ▸
      fine.next rfl held rfl (Nat.add_le_add_left wanted _) sound
  -- nothing was written since an exchange of the budget's own
  have fresh : ∀ phase : Phase, phase.wanted ≤ m.phase.wanted → phase.Fits m.budget.blocksUsed →
      Member.Fine initial { m with phase, since := [] } :=
    fun phase wanted sound => ⟨fun value mem => (by cases mem), fun max mem =>
      Nat.le_trans (Nat.add_le_add_left wanted _) (fine.room max mem), sound⟩
  unfold Shared.exchange
  cases here : m.phase with
  | decExchange value =>
    rw [here] at back fresh sound
    dsimp only
    split
    · next won =>
      refine good.write there ?_ fun m' eq => Option.some.inj eq ▸ fresh .decDone
        (Nat.le_refl _) trivial
      have positive : 0 < value := sound
      simp only [heldOf, Option.map_some, Option.getD_some, Member.held, here, Phase.transit, won.1]
      omega
    · exact back .decLoad rfl (Nat.le_refl _) trivial
  | incExchange amount value drops =>
    rw [here] at back fresh sound
    dsimp only
    split
    · next won =>
      cases drops with
      | false =>
        refine good.write there ?_ fun m' eq => Option.some.inj eq ▸ fresh .idle
          (Nat.le_refl _) trivial
        simp only [Bool.false_eq_true, ↓reduceIte, heldOf, Option.map_some, Option.getD_some,
          Member.held, here, Phase.transit, won.1]
        omega
      | true =>
        refine good.write there ?_ fun m' eq => by cases eq
        have whole : amount = m.budget.blocksUsed := sound
        simp only [↓reduceIte, heldOf, Option.map_none, Option.getD_none, Member.held, here,
          Phase.transit, won.1]
        omega
    · refine back (.incLoad amount drops) ?_ (Nat.le_refl _) ?_
      · cases drops <;> rfl
      · cases drops with
        | false => trivial
        | true => exact sound
  | _ => exact good

theorem Shared.Conserved.act (fits : initial < usizeEnd)
    (there : s.budgets[i]? = some (some m)) (act : Act) : ∃ t, s.act i m act = some t ∧
    t.Conserved initial := by
  have mem := List.mem_of_getElem? there
  have fine := good.fine m mem
  cases act with
  | call call =>
    refine ⟨_, rfl, ?_⟩
    split
    · next idle => exact good.put there (fine.call idle call).1 (fine.call idle call).2
    · exact good
  | load age =>
    dsimp only [Shared.act]
    split
    · next value seen =>
      rcases List.mem_cons.mp (List.mem_of_getElem? seen) with rfl | old
      · exact good.load fits there (good.held_le mem)
      · exact good.load fits there (fine.since value old)
    · exact ⟨s, rfl, good⟩
  | exchange fails => exact ⟨_, rfl, good.exchange there fails⟩
  | finish =>
    refine ⟨_, rfl, ?_⟩
    split
    · next done =>
      -- the block that was on its way is a used one now
      have held : m.budget.blocksUsed + 1 = m.held := by rw [Member.held, done, Phase.transit]
      refine good.put there held fun m' eq => Option.some.inj eq ▸ fine.next rfl held rfl ?_ trivial
      rw [done]
      exact Nat.le_refl _
    · exact good

theorem Shared.Conserved.step (fits : initial < usizeEnd)
    (event : Event) : ∃ t, s.step event = some t ∧ t.Conserved initial := by
  cases event with
  | new blocksMax blockSize =>
    refine ⟨_, rfl, ⟨?_, good.past, fun m mem => ?_⟩⟩
    · have := good.total
      simpa [heldOf, Member.held, BufferBudget.new, Phase.transit] using this
    · rcases List.mem_append.mp mem with old | new
      · exact good.fine m old
      · cases List.mem_singleton.mp new
        exact ⟨good.past, fun max _ => Nat.zero_le max, trivial⟩
  | act i act =>
    dsimp only [Shared.step]
    split
    · next m there => exact good.act fits there act
    · exact ⟨s, rfl, good⟩

end

/-- In every state of every interleaving, the counter and the blocks of the budgets make up
    the initial value, where the blocks on their way count until a call is over. No run
    fails an `expect`. -/
theorem blocks_are_conserved (initial : Nat) (fits : initial < usizeEnd) (events : List Event) :
    ∃ s, Runs.run Shared.step (Shared.start initial) events = some s ∧
      s.counter + (s.budgets.map heldOf).sum = initial ∧ s.counter ≤ initial ∧
      (∀ m, some m ∈ s.budgets → ∀ max ∈ m.budget.blocksMax, m.budget.blocksUsed ≤ max) ∧
      ((∀ m, some m ∈ s.budgets → m.phase = .idle) →
      s.counter + (s.budgets.map usedOf).sum = initial) := by
  have start : (Shared.start initial).Conserved initial :=
    ⟨rfl, fun _ mem => (by cases mem), fun _ mem => (by cases mem)⟩
  obtain ⟨s, ran, good⟩ := Runs.run_rule (Shared.Conserved initial)
    (fun _ event good _ => good.step fits event) events start
      (Runs.along_of_forall fun _ _ _ => rfl)
  have total := good.total
  refine ⟨s, ran, total, by omega, fun m mem max bound => ?_, fun quiet => ?_⟩
  · have := (good.fine m mem).room max bound
    omega
  · have same : s.budgets.map usedOf = s.budgets.map heldOf := by
      apply List.map_congr_left
      intro m mem
      cases m with
      | none => rfl
      | some m =>
        have idle := quiet m mem
        simp only [usedOf, heldOf, Option.map_some, Option.getD_some, Member.held, idle,
          Phase.transit, Nat.add_zero]
    rw [same]
    exact total

def contendingEvents : List Event :=
  let full : RingBuffer := ⟨[7], 0, 1, [0]⟩
  [.new (some 2) 4, .new none 4, .act 0 (.call (.expandBufferIfNeeded full)),
    .act 1 (.call (.expandBufferIfNeeded full)), .act 0 (.load 0), .act 1 (.load 0),
      .act 0 (.exchange false),
    .act 1 (.exchange false), .act 1 (.load 1), .act 0 .finish, .act 1 (.exchange false),
      .act 1 (.load 0),
    .act 0 (.call .drop), .act 0 (.load 0), .act 0 (.exchange false)]

theorem contending_blocks_are_conserved : ∃ s, Runs.run Shared.step (Shared.start 1)
    contendingEvents = some s ∧ s.counter = 1 ∧ s.counter + (s.budgets.map usedOf).sum = 1 := by
  obtain ⟨s, ran, -, -, -, quiet⟩ := blocks_are_conserved 1 (by decide) contendingEvents
  have last : some s = some ⟨1, [0, 1], [none, some ⟨.new none 4, .idle, [0, 1]⟩]⟩ :=
    ran.symm.trans rfl
  cases last
  refine ⟨_, ran, rfl, quiet fun m mem => ?_⟩
  simp only [List.mem_cons, Option.some.injEq, reduceCtorEq, List.not_mem_nil, or_false,
    false_or] at mem
  rw [mem]

end PushpinBudget
