import Mathlib.Algebra.BigOperators.Group.List.Basic
import Mathlib.Algebra.Order.Ring.Int
import Pushpin.Handler.RateLimiter

namespace PushpinRateLimiter
open OrderedMaps
open OrderedMap (get?_erase get?_insert)
variable {κ α : Type} [LinearOrder κ]

def debts (m : OrderedMap κ (Bucket α)) : Int := (m.entries.map fun e => e.2.debt).sum

theorem debts_erase (m : OrderedMap κ (Bucket α)) (key : κ) :
    debts (m.erase key) + ((m.get? key).getD .new).debt = debts m := by
  cases found : m.get? key with
  | none =>
    have same : m.erase key = m := by
      apply OrderedMap.ext_get?
      intro k
      rw [get?_erase]
      split_ifs with own
      · rw [own, found]
      · rfl
    rw [same]
    exact add_zero _
  | some old =>
    have moved := ((OrderedMap.perm_erase found).map fun e => e.2.debt).sum_eq
    rw [List.map_cons, List.sum_cons] at moved
    rw [Option.getD_some, debts, debts, moved, add_comm]

theorem debts_insert (m : OrderedMap κ (Bucket α)) (key : κ) (bucket : Bucket α) :
    debts (m.insert key bucket) + ((m.get? key).getD .new).debt = debts m + bucket.debt := by
  have after := debts_erase (m.insert key bucket) key
  have before := debts_erase m key
  rw [OrderedMap.erase_insert, get?_insert, if_pos rfl, Option.getD_some] at after
  omega

namespace RateLimiter

structure Ledger (κ α : Type) [LinearOrder κ] where
  limiter : RateLimiter κ α
  batches : Nat
  added : List (κ × ActionItem α)
  taken : List (κ × ActionItem α)
  spent : Int

def takenBy (l : RateLimiter κ α) : Option (κ × ActionItem α) :=
  match l.phase with
  | .looping (some key) processed =>
    if (l.batchSize < 1 ∨ processed < l.batchSize) ∧ (l.bucketOf key).debt ≤ 0 then
      (l.bucketOf key).actions.head?.map fun ai => (key, ai)
    else none
  | _ => none

def paysBack (l : RateLimiter κ α) (key : κ) : Event κ α → Int
  | .round =>
    match l.phase with
    | .looping it processed =>
      if it = some key ∧ (l.batchSize < 1 ∨ processed < l.batchSize) ∧
        0 < (l.bucketOf key).debt then 1 else 0
    | _ => 0
  | _ => 0

theorem leaveBucket_spec (l : RateLimiter κ α) (key : κ) {bucket : Bucket α} (processed : Int)
    (owed : 0 ≤ bucket.debt) :
    debts (l.leaveBucket key bucket processed).buckets + (l.bucketOf key).debt = debts l.buckets +
      bucket.debt ∧
    (l.leaveBucket key bucket processed).batchSize = l.batchSize ∧
    (∃ it, (l.leaveBucket key bucket processed).phase = .looping it processed) ∧
    (∀ k, ((l.leaveBucket key bucket processed).bucketOf k).actions =
      if k = key then bucket.actions else (l.bucketOf k).actions) ∧
    (∀ k b, (l.leaveBucket key bucket processed).buckets.get? k = some b →
      b = bucket ∨ l.buckets.get? k = some b) ∧
    ∀ k, (l.leaveBucket key bucket processed).buckets.get? k = none →
      k = key ∧ bucket.debt = 0 ∨ l.buckets.get? k = none := by
  unfold leaveBucket bucketOf
  split_ifs with spent
  · simp only [Bool.and_eq_true, List.isEmpty_iff, decide_eq_true_eq] at spent
    have settled : bucket.debt = 0 := le_antisymm spent.2 owed
    refine ⟨by rw [debts_erase, settled, add_zero], rfl, ⟨_, rfl⟩, ?_, ?_, ?_⟩
    · intro k
      simp only [get?_erase]
      split_ifs with own
      · exact spent.1.symm
      · rfl
    · intro k b found
      simp only [get?_erase] at found
      split_ifs at found
      exact Or.inr found
    · intro k missing
      simp only [get?_erase] at missing
      split_ifs at missing with own
      · exact Or.inl ⟨own, settled⟩
      · exact Or.inr missing
  · refine ⟨debts_insert l.buckets key bucket, rfl, ⟨_, rfl⟩, ?_, ?_, ?_⟩
    · intro k
      simp only [get?_insert]
      split_ifs with own
      · rfl
      · rfl
    · intro k b found
      simp only [get?_insert] at found
      split_ifs at found with own
      · exact Or.inl (Option.some.inj found).symm
      · exact Or.inr found
    · intro k missing
      simp only [get?_insert] at missing
      split_ifs at missing with own
      exact Or.inr missing

theorem addAction_spec (l : RateLimiter κ α) (key : κ) (weight : Int) (action : α) :
    debts (l.addAction key weight action).2.buckets = debts l.buckets ∧
    (l.addAction key weight action).2.batchSize = l.batchSize ∧
    (l.addAction key weight action).2.phase = l.phase ∧
    (∀ k, ((l.addAction key weight action).2.bucketOf k).debt = (l.bucketOf k).debt) ∧
    (∀ k, ((l.addAction key weight action).2.bucketOf k).actions = (l.bucketOf k).actions ++
      if k = key ∧ l.rejects key weight = false then [⟨action, weight⟩] else []) ∧
    ∀ k, (l.addAction key weight action).2.buckets.get? k = none → l.buckets.get? k = none := by
  unfold addAction
  split_ifs with refused
  · have sum := debts_insert l.buckets key (l.bucketOf key)
    refine ⟨add_right_cancel sum, rfl, rfl, ?_, ?_, ?_⟩
    · intro k
      simp only [bucketOf, get?_insert]
      split_ifs with own
      · rw [own, Option.getD_some]
      · rfl
    · intro k
      simp only [bucketOf, get?_insert, refused, Bool.true_eq_false, and_false, if_false,
        List.append_nil]
      split_ifs with own
      · rw [own, Option.getD_some]
      · rfl
    · intro k missing
      simp only [get?_insert] at missing
      split_ifs at missing
      exact missing
  · have sum := debts_insert l.buckets key { l.bucketOf key with
      actions := (l.bucketOf key).actions ++ [⟨action, weight⟩]
      weight := int ((l.bucketOf key).weight + weight) }
    refine ⟨?_, by rw [setup_batchSize], by rw [setup_phase], ?_, ?_, ?_⟩
    · rw [setup_buckets]
      exact add_right_cancel sum
    · intro k
      simp only [bucketOf, setup_buckets, get?_insert]
      split_ifs with own
      · rw [own, Option.getD_some]
      · rfl
    · intro k
      rw [Bool.not_eq_true] at refused
      simp only [bucketOf, setup_buckets, get?_insert, refused, and_true]
      split_ifs with own
      · rw [own, Option.getD_some]
      · rw [List.append_nil]
    · intro k missing
      simp only [setup_buckets, get?_insert] at missing
      split_ifs at missing
      exact missing

namespace Ledger

def start (l : RateLimiter κ α) : Ledger κ α := ⟨l, 0, [], [], 0⟩

def step (d : Ledger κ α) (event : Event κ α) : Option (Ledger κ α) :=
  (d.limiter.step event).map fun next =>
    { limiter := next
      batches :=
        match event with
        | .timeout => d.batches + 1
        | _ => d.batches
      added :=
        match event with
        | .addAction key weight action =>
          if d.limiter.rejects key weight then d.added else d.added ++ [(key, ⟨action, weight⟩)]
        | _ => d.added
      taken :=
        match event with
        | .round => d.taken ++ d.limiter.takenBy.toList
        | _ => d.taken
      spent :=
        match event, d.limiter.phase with
        | .returned true, .executing _ weight _ => d.spent + max 1 weight
        | _, _ => d.spent }

/-- Batches and calls, and nothing that changes the batch size or destroys the limiter. -/
def allowed (d : Ledger κ α) (event : Event κ α) : Bool :=
  d.limiter.allowed event &&
    match event with
    | .setRate _ => false
    | .destroyed => false
    | _ => true

def fits (d : Ledger κ α) (event : Event κ α) : Bool :=
  match event, d.limiter.phase with
  | .returned true, .executing _ weight processed => decide (processed + max 1 weight < 2 ^ 31)
  | _, _ => true

def itemsOf (key : κ) (log : List (κ × ActionItem α)) : List (ActionItem α) :=
  (log.filter fun e => e.1 = key).map Prod.snd

theorem itemsOf_append (key : κ) (one two : List (κ × ActionItem α)) :
    itemsOf key (one ++ two) = itemsOf key one ++ itemsOf key two := by
  rw [itemsOf, List.filter_append, List.map_append, itemsOf, itemsOf]

/-- How far the spent weight may be ahead of the batches that are over, apart from
    the debts. -/
def headway (size : Int) : Phase κ → Int
  | .looping _ processed => min processed size
  | .executing _ _ processed => processed
  | _ => size

structure Good (size : Int) (d : Ledger κ α) : Prop where
  fixed : d.limiter.batchSize = size
  owed : ∀ key b, d.limiter.buckets.get? key = some b → 0 ≤ b.debt
  running : ∀ it processed, d.limiter.phase = .looping it processed → 0 ≤ processed
  executing : ∀ key weight processed, d.limiter.phase = .executing key weight processed →
    0 ≤ processed ∧ processed < size ∧ (d.limiter.bucketOf key).debt = 0
  bounded : d.spent + size ≤ d.batches * size + headway size d.limiter.phase +
    debts d.limiter.buckets
  ordered : ∀ key, itemsOf key d.added = itemsOf key d.taken ++ (d.limiter.bucketOf key).actions

variable {size : Int} {d next : Ledger κ α}

theorem addAction_good {key : κ} {weight : Int} {action : α} (good : d.Good size)
    (stepped : d.step (.addAction key weight action) = some next) :
    next.Good size ∧ ∀ k, next.limiter.buckets.get? k = none → d.limiter.buckets.get? k = none := by
  simp only [step, RateLimiter.step, Option.map_some, Option.some.injEq] at stepped
  subst stepped
  obtain ⟨sum, same, phase, debt, actions, kept⟩ := addAction_spec d.limiter key weight action
  refine ⟨?_, kept⟩
  constructor
  · exact same.trans good.fixed
  · intro k b found
    have owed : (((d.limiter.addAction key weight action).2).bucketOf k).debt = b.debt := by
      rw [bucketOf, found, Option.getD_some]
    rw [← owed, debt]
    cases before : d.limiter.buckets.get? k with
    | none => simp only [bucketOf, before, Option.getD_none, Bucket.new, le_refl]
    | some old =>
      rw [bucketOf, before, Option.getD_some]
      exact good.owed k old before
  · intro it processed at_phase
    exact good.running it processed (phase.symm.trans at_phase)
  · intro k weight' processed at_phase
    obtain ⟨positive, below, settled⟩ :=
      good.executing k weight' processed (phase.symm.trans at_phase)
    exact ⟨positive, below, (debt k).trans settled⟩
  · have bounded := good.bounded
    simp only [sum, phase]
    exact bounded
  · intro k
    have ordered := good.ordered k
    simp only [actions k]
    by_cases refused : d.limiter.rejects key weight = true
    · simp only [refused, if_true, Bool.true_eq_false, and_false, if_false, List.append_nil]
      exact ordered
    · rw [Bool.not_eq_true] at refused
      simp only [refused, Bool.false_eq_true, if_false, and_true]
      rw [itemsOf_append, ordered, List.append_assoc]
      congr 2
      by_cases own : k = key
      · simp [itemsOf, own]
      · simp [itemsOf, own, Ne.symm own]

theorem int_small {x : Int} (low : 0 ≤ x) (high : x < 2 ^ 31) : int x = x := by
  rw [int, Int.bmod_def]
  push_cast
  split_ifs <;> omega

theorem Good.finished (good : d.Good size) {l : RateLimiter κ α} (batches : Nat)
    (same : l.batchSize = d.limiter.batchSize) (buckets : l.buckets = d.limiter.buckets)
    (bounded : d.spent ≤ batches * size + debts d.limiter.buckets) :
    Good size { d with limiter := l.finishBatch, batches := batches } := by
  constructor
  · rw [finishBatch, setup_batchSize]
    exact same.trans good.fixed
  · rw [finishBatch, setup_buckets, buckets]
    exact good.owed
  · intro it processed at_phase
    simp only [finishBatch, setup_phase] at at_phase
    cases at_phase
  · intro key weight processed at_phase
    simp only [finishBatch, setup_phase] at at_phase
    cases at_phase
  · simp only [finishBatch, setup_phase, setup_buckets, headway, buckets]
    omega
  · intro key
    have ordered := good.ordered key
    simp only [finishBatch, bucketOf, setup_buckets, buckets]
    exact ordered

theorem Good.left {size : Int} {d : Ledger κ α} (good : d.Good size) {key : κ}
    {old bucket : Bucket α} {processed spent : Int} (found : d.limiter.buckets.get? key = some old)
    (owed : 0 ≤ bucket.debt)
    (actions : bucket.actions = old.actions) (positive : 0 ≤ processed)
    (bounded : spent + size + old.debt ≤
      d.batches * size + min processed size + debts d.limiter.buckets + bucket.debt) :
    Good size { d with limiter := d.limiter.leaveBucket key bucket processed, spent := spent } ∧
      ∀ k, (d.limiter.leaveBucket key bucket processed).buckets.get? k = none →
        k = key ∧ bucket.debt = 0 ∨ d.limiter.buckets.get? k = none := by
  obtain ⟨sum, same, ⟨it, phase⟩, waiting, members, gone⟩ :=
    leaveBucket_spec d.limiter key processed owed
  refine ⟨?_, gone⟩
  constructor
  · exact same.trans good.fixed
  · intro k b at_k
    rcases members k b at_k with rfl | before
    · exact owed
    · exact good.owed k b before
  · intro it' processed' at_phase
    rw [phase] at at_phase
    cases at_phase
    exact positive
  · intro k weight processed' at_phase
    rw [phase] at at_phase
    cases at_phase
  · have own : d.limiter.bucketOf key = old := by rw [bucketOf, found, Option.getD_some]
    rw [own] at sum
    simp only [phase, headway]
    omega
  · intro k
    have ordered := good.ordered k
    simp only [waiting k]
    rw [ordered]
    split_ifs with own
    · rw [own, bucketOf, found, Option.getD_some, actions]
    · rfl

theorem round_good (batch : 1 ≤ size) (range : size < 2 ^ 31) (good : d.Good size)
    (may : d.limiter.allowed .round = true) (stepped : d.step .round = some next) :
    next.Good size ∧ ∀ key b, d.limiter.buckets.get? key = some b →
      next.limiter.buckets.get? key = none → b.debt = d.limiter.paysBack key .round := by
  obtain ⟨it, processed, phase⟩ : ∃ it processed, d.limiter.phase = .looping it processed := by
    cases phase : d.limiter.phase with
    | looping it processed => exact ⟨it, processed, rfl⟩
    | idle => simp [RateLimiter.allowed, phase] at may
    | executing _ _ _ => simp [RateLimiter.allowed, phase] at may
    | gone => simp [RateLimiter.allowed, phase] at may
  obtain ⟨l, ran, eq⟩ := Option.map_eq_some_iff.mp stepped
  subst eq
  have positive := good.running it processed phase
  have bounded := good.bounded
  rw [phase] at bounded
  simp only [headway] at bounded
  simp only [RateLimiter.step, phase] at ran
  unfold round at ran
  split at ran
  · cases ran
    have taken : d.limiter.takenBy = none := by simp only [takenBy, phase]
    simp only [taken, Option.toList_none, List.append_nil]
    refine ⟨good.finished d.batches rfl rfl (by omega), ?_⟩
    intro key b found missing
    rw [finishBatch, setup_buckets, found] at missing
    cases missing
  · rename_i key
    split_ifs at ran with more
    · have below : processed < size := by
        rw [good.fixed] at more
        omega
      split at ran
      · cases ran
      · rename_i old found
        have own : d.limiter.bucketOf key = old := by rw [bucketOf, found, Option.getD_some]
        split_ifs at ran with settled
        · have none_owed : old.debt = 0 := le_antisymm settled (good.owed key old found)
          split at ran
          · cases ran
          · rename_i ai rest eq
            cases ran
            have taken : d.limiter.takenBy = some (key, ai) := by
              simp only [takenBy, phase, own, if_pos (And.intro more settled), eq, List.head?_cons,
                Option.map_some]
            have sum := debts_insert d.limiter.buckets key
              { old with actions := rest, weight := int (old.weight - ai.weight) }
            rw [found, Option.getD_some] at sum
            refine ⟨?_, ?_⟩
            · constructor
              · exact good.fixed
              · intro k b at_k
                rw [get?_insert] at at_k
                split_ifs at at_k with same
                · cases at_k
                  exact good.owed key old found
                · exact good.owed k b at_k
              · intro it' processed' at_phase
                cases at_phase
              · intro k weight processed' at_phase
                cases at_phase
                refine ⟨positive, below, ?_⟩
                rw [bucketOf, get?_insert, if_pos rfl, Option.getD_some]
                exact none_owed
              · simp only [headway] at sum ⊢
                omega
              · intro k
                have ordered := good.ordered k
                rw [taken, Option.toList_some, itemsOf_append, ordered, bucketOf, bucketOf,
                  get?_insert]
                split_ifs with same
                · rw [same, found, Option.getD_some, Option.getD_some, eq]
                  simp [itemsOf]
                · simp [itemsOf, Ne.symm same]
            · intro k b at_k missing
              rw [get?_insert] at missing
              split_ifs at missing
              rw [at_k] at missing
              cases missing
        · cases ran
          have owes : 0 < old.debt := not_le.mp settled
          have taken : d.limiter.takenBy = none := by
            simp only [takenBy, phase, own, if_neg (fun both => settled (And.right both))]
          have counted : int (processed + 1) = processed + 1 := int_small (by omega) (by omega)
          rw [counted]
          obtain ⟨kept, gone⟩ :=
            @Good.left κ α _ size d good key old { old with debt := old.debt - 1 } (processed + 1)
              d.spent found (by simp only; omega) rfl (by omega) (by simp only; omega)
          simp only [taken, Option.toList_none, List.append_nil]
          refine ⟨kept, ?_⟩
          intro k b at_k missing
          rcases gone k missing with ⟨same, last⟩ | before
          · subst same
            rw [found] at at_k
            cases at_k
            simp only [paysBack, phase, own, more, owes, and_self, if_true]
            simp only at last
            omega
          · rw [before] at at_k
            cases at_k
    · cases ran
      have taken : d.limiter.takenBy = none := by
        simp only [takenBy, phase, if_neg (fun both => more (And.left both))]
      simp only [taken, Option.toList_none, List.append_nil]
      refine ⟨good.finished d.batches rfl rfl (by omega), ?_⟩
      intro k b found missing
      rw [finishBatch, setup_buckets, found] at missing
      cases missing

theorem returned_good (batch : 1 ≤ size) {ret : Bool} (range : size < 2 ^ 31)
    (good : d.Good size) (may : d.limiter.allowed (.returned ret) = true)
    (fit : d.fits (.returned ret) = true)
    (stepped : d.step (.returned ret) = some next) :
    next.Good size ∧ ∀ key b, d.limiter.buckets.get? key = some b →
      next.limiter.buckets.get? key = none → b.debt = 0 := by
  obtain ⟨key, weight, processed, phase⟩ : ∃ key weight processed,
      d.limiter.phase = .executing key weight processed := by
    cases phase : d.limiter.phase with
    | executing key weight processed => exact ⟨key, weight, processed, rfl⟩
    | idle => simp [RateLimiter.allowed, phase] at may
    | looping _ _ => simp [RateLimiter.allowed, phase] at may
    | gone => simp [RateLimiter.allowed, phase] at may
  obtain ⟨l, ran, eq⟩ := Option.map_eq_some_iff.mp stepped
  subst eq
  obtain ⟨positive, below, settled⟩ := good.executing key weight processed phase
  have bounded := good.bounded
  rw [phase] at bounded
  simp only [headway] at bounded
  simp only [RateLimiter.step, phase] at ran
  unfold returned at ran
  split at ran
  · cases ran
  · rename_i old found
    have own : old.debt = 0 := by rwa [bucketOf, found, Option.getD_some] at settled
    cases ret with
    | true =>
      have heavy : (if weight > 1 then weight else 1) = max 1 weight := by
        split_ifs <;> omega
      simp only [fits, phase, decide_eq_true_eq] at fit
      have counted : int (processed + max 1 weight) = processed + max 1 weight :=
        int_small (by omega) fit
      simp only [if_true, Option.some.injEq, heavy, counted, own, zero_add, good.fixed] at ran
      subst ran
      simp only [phase]
      generalize debt_eq : (if size ≥ 1 ∧ processed + max 1 weight > size then
        int (processed + max 1 weight - size) else 0) = debt
      have exactly : debt = max 0 (processed + max 1 weight - size) := by
        rw [← debt_eq]
        split_ifs with past
        · rw [int_small (by omega) (by omega)]
          omega
        · omega
      obtain ⟨kept, gone⟩ :=
        @Good.left κ α _ size d good key old { old with debt := debt } (processed + max 1 weight)
          (d.spent + max 1 weight) found (by simp only; omega) rfl (by omega) (by simp only; omega)
      refine ⟨kept, ?_⟩
      intro k b at_k missing
      rcases gone k missing with ⟨same, _⟩ | before
      · rw [same, found] at at_k
        cases at_k
        exact own
      · rw [before] at at_k
        cases at_k
    | false =>
      simp only [Bool.false_eq_true, if_false, Option.some.injEq] at ran
      subst ran
      obtain ⟨kept, gone⟩ := @Good.left κ α _ size d good key old old processed d.spent found
        (by omega) rfl positive (by omega)
      refine ⟨kept, ?_⟩
      intro k b at_k missing
      rcases gone k missing with ⟨same, _⟩ | before
      · rw [same, found] at at_k
        cases at_k
        exact own
      · rw [before] at at_k
        cases at_k

theorem timeout_good (batch : 1 ≤ size) (good : d.Good size)
    (may : d.limiter.allowed .timeout = true) (stepped : d.step .timeout = some next) :
    next.Good size ∧ next.limiter.buckets = d.limiter.buckets := by
  have phase : d.limiter.phase = .idle := by
    cases phase : d.limiter.phase with
    | idle => rfl
    | looping _ _ => simp [RateLimiter.allowed, phase] at may
    | executing _ _ _ => simp [RateLimiter.allowed, phase] at may
    | gone => simp [RateLimiter.allowed, phase] at may
  simp only [step, RateLimiter.step, Option.map_some, Option.some.injEq] at stepped
  subst stepped
  have bounded := good.bounded
  rw [phase] at bounded
  simp only [headway] at bounded
  have more : ((d.batches + 1 : Nat) : Int) * size = d.batches * size + size := by
    push_cast
    rw [Int.add_mul, Int.one_mul]
  unfold startBatch
  split_ifs
  · exact ⟨good.finished (d.batches + 1) rfl rfl (by omega), by rw [finishBatch, setup_buckets]⟩
  · refine ⟨?_, rfl⟩
    constructor
    · exact good.fixed
    · exact good.owed
    · intro it processed at_phase
      cases at_phase
      exact le_refl 0
    · intro key weight processed at_phase
      cases at_phase
    · simp only [headway]
      omega
    · exact good.ordered

theorem step_good (batch : 1 ≤ size) (range : size < 2 ^ 31) {event : Event κ α}
    (good : d.Good size) (may : d.allowed event = true) (fit : d.fits event = true)
    (stepped : d.step event = some next) :
    next.Good size ∧ ∀ key b, d.limiter.buckets.get? key = some b →
      next.limiter.buckets.get? key = none → b.debt = d.limiter.paysBack key event := by
  obtain ⟨allowed, steady⟩ := Bool.and_eq_true_iff.mp may
  cases event with
  | setRate actionsPerSecond => cases steady
  | destroyed => cases steady
  | setHwm hwm =>
    cases stepped
    refine ⟨⟨good.fixed, good.owed, good.running, good.executing, good.bounded, good.ordered⟩, ?_⟩
    intro key b found missing
    rw [found] at missing
    cases missing
  | setBatchWaitEnabled on =>
    cases stepped
    refine ⟨⟨good.fixed, good.owed, good.running, good.executing, good.bounded, good.ordered⟩, ?_⟩
    intro key b found missing
    rw [found] at missing
    cases missing
  | addAction key weight action =>
    obtain ⟨kept, same⟩ := addAction_good good stepped
    refine ⟨kept, ?_⟩
    intro k b found missing
    rw [same k missing] at found
    cases found
  | timeout =>
    obtain ⟨kept, same⟩ := timeout_good batch good allowed stepped
    refine ⟨kept, ?_⟩
    intro key b found missing
    rw [same, found] at missing
    cases missing
  | round => exact round_good batch range good allowed stepped
  | returned ret => exact returned_good batch range good allowed fit stepped

theorem start_good {l : RateLimiter κ α} (empty : l.buckets = .empty) (idle : l.phase = .idle) :
    (start l).Good l.batchSize := by
  have nothing : ∀ key, l.buckets.get? key = none := by
    intro key
    rw [empty]
    rfl
  constructor
  · rfl
  · intro key b found
    simp only [start, nothing] at found
    cases found
  · intro it processed at_phase
    rw [start, idle] at at_phase
    cases at_phase
  · intro key weight processed at_phase
    rw [start, idle] at at_phase
    cases at_phase
  · have none_owed : debts l.buckets = 0 := by rw [empty]; rfl
    simp only [start, idle, headway, none_owed]
    omega
  · intro key
    simp only [start, bucketOf, nothing, Option.getD_none]
    rfl

/-- In every state of a run in which what a batch has processed fits into an `int`: all
    that was executed is at most the batches times their size and the debts that are
    left, no debt is negative, each key's actions were executed in the order they were
    added in, and a step that erases a bucket has paid back all that it owed. -/
theorem debts_cover_overshoot {l : RateLimiter κ α} (empty : l.buckets = .empty)
    (idle : l.phase = .idle) (batch : 1 ≤ l.batchSize) (range : l.batchSize < 2 ^ 31)
    (events : List (Event κ α))
    (possible : Runs.along step allowed (start l) events = true)
    (fitting : Runs.along step fits (start l) events = true) :
    ∀ front rest, events = front ++ rest → ∀ d, Runs.run step (start l) front = some d →
      d.spent ≤ d.batches * l.batchSize + debts d.limiter.buckets ∧
      (∀ key b, d.limiter.buckets.get? key = some b → 0 ≤ b.debt) ∧
      (∀ key, itemsOf key d.added = itemsOf key d.taken ++ (d.limiter.bucketOf key).actions) ∧
      ∀ event later next, rest = event :: later → d.step event = some next →
        ∀ key b, d.limiter.buckets.get? key = some b → next.limiter.buckets.get? key = none →
          b.debt = d.limiter.paysBack key event := by
  intro front rest eq d ran
  have both := Runs.along_and.mpr ⟨possible, fitting⟩
  rw [eq] at both
  have good : d.Good l.batchSize := by
    refine Runs.run_kept (Good l.batchSize) ?_ (start_good empty idle) ran (Runs.along_front both)
    intro state event next good passed stepped
    obtain ⟨may, fit⟩ := Bool.and_eq_true_iff.mp passed
    exact (step_good batch range good may fit stepped).1
  refine ⟨?_, good.owed, good.ordered, ?_⟩
  · have bounded := good.bounded
    have ahead : headway l.batchSize d.limiter.phase ≤ l.batchSize := by
      unfold headway
      split
      · exact min_le_right _ _
      · rename_i phase
        exact le_of_lt (good.executing _ _ _ phase).2.1
      · exact le_refl _
    omega
  · intro event later next at_rest stepped
    rw [at_rest] at both
    obtain ⟨may, fit⟩ :=
      Bool.and_eq_true_iff.mp (Runs.along_iff.mp both front event later rfl d ran)
    exact (step_good batch range good may fit stepped).2

def overshootEvents : List (Event Nat Nat) :=
  [.addAction 1 5 10, .addAction 1 1 11, .timeout, .round, .returned true, .round, .timeout, .round,
    .round]

theorem overshoot_is_paid_back :
    ((Runs.run step (start (new.setRate 40)) overshootEvents).any fun d =>
      d.spent = 5 && d.batches = 2 && debts d.limiter.buckets = 3) = true ∧
    ∀ front rest, overshootEvents = front ++ rest →
      ∀ d, Runs.run step (start (new.setRate 40)) front = some d →
      d.spent ≤ d.batches * (new.setRate 40 : RateLimiter Nat Nat).batchSize +
        debts d.limiter.buckets ∧
      (∀ key b, d.limiter.buckets.get? key = some b → 0 ≤ b.debt) ∧
      (∀ key, itemsOf key d.added = itemsOf key d.taken ++ (d.limiter.bucketOf key).actions) ∧
      ∀ event later next, rest = event :: later → d.step event = some next →
        ∀ key b, d.limiter.buckets.get? key = some b → next.limiter.buckets.get? key = none →
          b.debt = d.limiter.paysBack key event :=
  ⟨by decide +kernel,
    debts_cover_overshoot rfl (by decide +kernel) (by decide +kernel)
      (by decide +kernel) overshootEvents (by decide +kernel) (by decide +kernel)⟩

def overflowEvents : List (Event Nat Nat) :=
  [.addAction 1 1 10, .addAction 2 2147483647 11, .timeout, .round, .returned true, .round,
    .returned true, .round]

theorem overflow_leaves_no_debt :
    Runs.along step allowed (start (new.setRate 80)) overflowEvents = true ∧
    (Runs.run step (start (new.setRate 80)) overflowEvents).any (fun d =>
      d.spent = 2147483648 && d.batches = 1 && d.limiter.batchSize = 2 && debts d.limiter.buckets =
        0) = true := by
  decide +kernel

end Ledger
end RateLimiter
end PushpinRateLimiter
