import Pushpin.Foundations.RoundRobin
import Pushpin.Handler.RateLimiter

namespace PushpinRateLimiter
open OrderedMaps

/-- What an action counts for. `execute` says whether it succeeds. -/
def counted {α : Type} (execute : α → Bool) (ai : ActionItem α) : Int :=
  if execute ai.action then (if ai.weight > 1 then ai.weight else 1) else 0

def Bucket.work {α : Type} (execute : α → Bool) (b : Bucket α) : List Int :=
  List.replicate b.debt.toNat 1 ++ b.actions.map (counted execute)

namespace RateLimiter
variable {κ α : Type} [LinearOrder κ]

def begins (l : RateLimiter κ α) : Option κ :=
  match l.lastKey with
  | some key => if (l.buckets.get? key).isSome then some key else l.buckets.first?
  | none => l.buckets.first?

def turn (execute : α → Bool) (it : Option κ) (processed : Int) (l : RateLimiter κ α) :
    Option (RateLimiter κ α) := do
  let next ← l.round it processed
  match next.phase, it with
  | .executing key weight processed, some k =>
    next.returned key weight processed ((l.bucketOf k).actions.head?.any fun ai =>
      execute ai.action)
  | _, _ => return next

def takes (execute : α → Bool) (it : Option κ) (processed : Int) (l : RateLimiter κ α) : Int :=
  match it with
  | some key => if l.batchSize < 1 ∨ processed < l.batchSize then
      ((l.bucketOf key).work execute).headD 0 else 0
  | none => 0

def loop (execute : α → Bool) : Nat → Int → RateLimiter κ α → Option (RateLimiter κ α × Int)
  | 0, spent, l => some (l, spent)
  | left + 1, spent, l =>
    match l.phase with
    | .looping it processed =>
      (l.turn execute it processed).bind (loop execute left (spent + l.takes execute it processed))
    | _ => some (l, spent)

def processBatch (execute : α → Bool) (l : RateLimiter κ α) : Option (RateLimiter κ α × Int) :=
  loop execute (RoundRobin.load (Bucket.work execute) l.buckets + 1) 0 l.startBatch

section
variable {execute : α → Bool}

theorem turn_runs {it : Option κ} {processed : Int} {l next : RateLimiter κ α}
    (phase : l.phase = .looping it processed) (ran : l.turn execute it processed = some next) :
    ∃ events, Runs.run step l events = some next := by
  unfold turn at ran
  obtain ⟨mid, stepped, ran⟩ := Option.bind_eq_some_iff.mp ran
  have first : l.step .round = some mid := by simp only [step, phase, stepped]
  split at ran
  · rename_i k at_key _
    refine ⟨[.round, .returned ((l.bucketOf k).actions.head?.any fun ai => execute ai.action)], ?_⟩
    simp only [Runs.run, first, Option.bind_some]
    simp only [step, at_key, ran, Option.bind_some]
  · cases ran
    exact ⟨[.round], by simp only [Runs.run, first, Option.bind_some]⟩

theorem loop_runs (left : Nat) {spent spent' : Int} {l last : RateLimiter κ α}
    (ran : loop execute left spent l = some (last, spent')) :
    ∃ events, Runs.run step l events = some last := by
  induction left generalizing spent l with
  | zero =>
    cases ran
    exact ⟨[], rfl⟩
  | succ left ih =>
    unfold loop at ran
    split at ran
    · rename_i phase
      obtain ⟨next, turned, ran⟩ := Option.bind_eq_some_iff.mp ran
      obtain ⟨events, first⟩ := turn_runs phase turned
      obtain ⟨events', rest⟩ := ih ran
      exact ⟨events ++ events', by rw [Runs.run_append, first, Option.bind_some, rest]⟩
    · cases ran
      exact ⟨[], rfl⟩

theorem processBatch_runs {l last : RateLimiter κ α} {spent : Int}
    (ran : l.processBatch execute = some (last, spent)) :
    ∃ events, Runs.run step l (.timeout :: events) = some last := by
  obtain ⟨events, rest⟩ := loop_runs _ ran
  exact ⟨events, by simp only [Runs.run, step, Option.bind_some, rest]⟩

theorem work_eq_nil {b : Bucket α} : b.work execute = [] ↔ ¬ b.Busy := by
  unfold Bucket.work Bucket.Busy
  rw [List.append_eq_nil_iff, List.map_eq_nil_iff, not_or, not_not, not_lt,
    List.replicate_eq_nil_iff, Int.toNat_eq_zero, and_comm]

end

theorem counted_nonneg (execute : α → Bool) (ai : ActionItem α) : 0 ≤ counted execute ai := by
  unfold counted
  split_ifs <;> omega

theorem work_nonneg {execute : α → Bool} {b : Bucket α} {x : Int} (mem : x ∈ b.work execute) :
    0 ≤ x := by
  rcases List.mem_append.mp mem with debt | action
  · rw [List.eq_of_mem_replicate debt]
    exact Int.zero_le_ofNat 1
  · obtain ⟨ai, _, rfl⟩ := List.mem_map.mp action
    exact counted_nonneg execute ai

section
variable (execute : α → Bool)
include execute

theorem leaveBucket_eq (l : RateLimiter κ α) (key : κ) (bucket : Bucket α)
    (processed : Int) : (l.leaveBucket key bucket processed).buckets =
    (RoundRobin.leave (Bucket.work execute) l.buckets key bucket).1 ∧
    (l.leaveBucket key bucket processed).phase =
      .looping (RoundRobin.leave (Bucket.work execute) l.buckets key bucket).2 processed ∧
    (l.leaveBucket key bucket processed).batchSize = l.batchSize := by
  have spent :
      (bucket.actions.isEmpty && decide (bucket.debt ≤ 0)) = (bucket.work execute).isEmpty := by
    rw [Bool.eq_iff_iff, List.isEmpty_iff, work_eq_nil, Bucket.Busy, not_or, not_not, not_lt,
      Bool.and_eq_true, List.isEmpty_iff, decide_eq_true_eq]
  unfold leaveBucket RoundRobin.leave
  rw [spent]
  split_ifs <;> exact ⟨rfl, rfl, rfl⟩

theorem leave_insert {m : OrderedMap κ (Bucket α)} {key : κ} {old : Bucket α}
    (found : m.get? key = some old) (mid bucket : Bucket α) :
    RoundRobin.leave (Bucket.work execute) (m.insert key mid) key bucket =
      RoundRobin.leave (Bucket.work execute) m key bucket := by
  unfold RoundRobin.leave
  rw [OrderedMap.erase_insert, OrderedMap.insert_insert, OrderedMap.after?_insert found,
    OrderedMap.first?_insert found]

/-- A round that the loop lets in. It is a step of the round robin, unless it goes
    over the batch size, and then it is the last. -/
theorem turn_spec {l : RateLimiter κ α} {key : κ} {old : Bucket α}
    {spent : Int} (found : l.buckets.get? key = some old) (busy : old.Busy)
    (more : l.batchSize < 1 ∨ int spent < l.batchSize) :
    ∃ next w queue queue', l.turn execute (some key) (int spent) = some next ∧
      l.takes execute (some key) (int spent) = w ∧ old.work execute = w :: queue.work execute ∧
      next.buckets = (RoundRobin.leave (Bucket.work execute) l.buckets key queue').1 ∧
      next.phase = .looping (RoundRobin.leave (Bucket.work execute) l.buckets key queue').2
        (int (spent + w)) ∧
      next.batchSize = l.batchSize ∧
        (queue' = queue ∨ 1 ≤ l.batchSize ∧ l.batchSize < int (spent + w)) := by
  have own : l.bucketOf key = old := by rw [bucketOf, found, Option.getD_some]
  have allowed : l.takes execute (some key) (int spent) = (old.work execute).headD 0 := by
    simp only [takes, if_pos more, own]
  by_cases owes : old.debt ≤ 0
  · have paid : ∀ b : Bucket α, b.debt = old.debt →
        b.work execute = b.actions.map (counted execute) := by
      intro b same
      rw [Bucket.work, same, Int.toNat_eq_zero.mpr owes, List.replicate_zero, List.nil_append]
    rcases busy with some_left | positive
    · obtain ⟨ai, rest, eq⟩ := List.exists_cons_of_ne_nil some_left
      have split : old.work execute = counted execute ai :: rest.map (counted execute) := by
        rw [paid old rfl, eq, List.map_cons]
      have taken : l.takes execute (some key) (int spent) = counted execute ai := by
        rw [allowed, split, List.headD_cons]
      let mid : Bucket α := { old with actions := rest, weight := int (old.weight - ai.weight) }
      have mid_work : mid.work execute = rest.map (counted execute) := paid mid rfl
      have turned : l.turn execute (some key) (int spent) =
          RateLimiter.returned key ai.weight (int spent) (execute ai.action)
            { l with
              buckets := l.buckets.insert key mid
              phase := .executing key ai.weight (int spent) } := by
        simp only [turn, round, if_pos more, found, if_pos owes, eq, Option.bind_eq_bind,
          Option.bind_some, own, List.head?_cons, Option.any_some]
        rfl
      have at_key : (l.buckets.insert key mid).get? key = some mid := by
        rw [OrderedMap.get?_insert, if_pos rfl]
      by_cases success : execute ai.action = true
      · have weighs : counted execute ai = if ai.weight > 1 then ai.weight
          else 1 := by rw [counted, if_pos success]
        let past := int (int spent + counted execute ai)
        let debt := if l.batchSize ≥ 1 ∧
          past > l.batchSize then int (old.debt + (past - l.batchSize)) else old.debt
        obtain ⟨buckets, phase, same⟩ := leaveBucket_eq execute
          { l with
            buckets := l.buckets.insert key mid
            phase := .executing key ai.weight (int spent) } key
          { mid with debt := debt } past
        rw [leave_insert execute found mid] at buckets phase
        refine ⟨_, counted execute ai, mid, { mid with debt := debt }, ?_,
          taken, by rw [split, mid_work], buckets, phase.trans ?_, same, ?_⟩
        · rw [turned]
          simp only [returned, at_key, success, if_true, ← weighs]
          rfl
        · exact congrArg (Phase.looping _) (int_add spent (counted execute ai))
        · rw [← int_add]
          by_cases exceeds : l.batchSize ≥ 1 ∧ past > l.batchSize
          · exact Or.inr exceeds
          · exact Or.inl (by simp only [debt, if_neg exceeds]; rfl)
      · have nothing : counted execute ai = 0 := by rw [counted, if_neg success]
        obtain ⟨buckets, phase, same⟩ := leaveBucket_eq execute
          { l with
            buckets := l.buckets.insert key mid
            phase := .executing key ai.weight (int spent) } key mid
          (int spent)
        rw [leave_insert execute found mid] at buckets phase
        refine ⟨_, counted execute ai, mid, mid, ?_,
          taken, by rw [split, mid_work], buckets, phase.trans ?_, same, Or.inl rfl⟩
        · rw [turned]
          simp only [returned, at_key, success, Bool.false_eq_true, if_false]
        · rw [nothing, add_zero]
    · omega
  · have positive : 0 < old.debt := not_le.mp owes
    obtain ⟨buckets, phase, same⟩ :=
      leaveBucket_eq execute l key { old with debt := old.debt - 1 } (int (int spent + 1))
    have split :
        old.work execute = 1 :: ({ old with debt := old.debt - 1 } : Bucket α).work execute := by
      have units : old.debt.toNat = (old.debt - 1).toNat + 1 := by omega
      rw [Bucket.work, units, List.replicate_succ, List.cons_append]
      rfl
    refine ⟨_, 1, { old with debt := old.debt - 1 }, { old with debt := old.debt - 1 }, ?_,
      by rw [allowed, split, List.headD_cons], split, buckets, phase.trans ?_, same, Or.inl rfl⟩
    · simp only [turn, round, if_pos more, found, if_neg owes, Option.bind_eq_bind,
        Option.bind_some]
      rw [phase]
      rfl
    · rw [int_add]

theorem loop_idle (left : Nat) (spent : Int) {l : RateLimiter κ α}
    (idle : l.phase = .idle) : loop execute left spent l = some (l, spent) := by
  cases left with
  | zero => rfl
  | succ left => simp only [loop, idle]

end

def Reached (batchSize spent : Int) : Prop := 1 ≤ batchSize ∧ batchSize ≤ spent

instance (batchSize spent : Int) : Decidable (Reached batchSize spent) :=
  inferInstanceAs (Decidable (1 ≤ batchSize ∧ batchSize ≤ spent))

theorem Reached.mono {batchSize spent spent' : Int} (reached : Reached batchSize spent)
    (le : spent ≤ spent') : Reached batchSize spent' := ⟨reached.1, le_trans reached.2 le⟩

theorem loop_spec (execute : α → Bool) (left : Nat) {l : RateLimiter κ α} {it : Option κ}
    {spent : Int} (phase : l.phase = .looping it (int spent)) (positive : 0 ≤ spent)
    (filled : ∀ k b, l.buckets.get? k = some b → b.work execute ≠ [])
    (pointing : ∀ key, it = some key → ∃ b, l.buckets.get? key = some b)
    (enough : RoundRobin.load (Bucket.work execute) l.buckets < left ∨ 0 < left ∧
    Reached l.batchSize (int spent)) :
    ∃ last spent', loop execute left spent l = some (last, spent') ∧ last.phase = .idle ∧
      spent ≤ spent' ∧ (∀ k b, last.buckets.get? k = some b → b.work execute ≠ []) ∧
      (it = none → last.buckets = l.buckets ∧ spent' = spent) ∧
      ∀ key, it = some key → ((Reached l.batchSize spent' ∨ last.buckets.isEmpty = true) ↔
        (Reached l.batchSize (spent + RoundRobin.due (Bucket.work execute) l.buckets key) ∨
          RoundRobin.Drains (Bucket.work execute) l.buckets key)) := by
  induction left generalizing l it spent with
  | zero =>
    rcases enough with wrong | wrong
    · exact absurd wrong (Nat.not_lt_zero _)
    · exact absurd wrong.1 (Nat.not_lt_zero 0)
  | succ left ih =>
    have idle : ∀ l' : RateLimiter κ α, l'.finishBatch.phase = .idle ∧
        l'.finishBatch.buckets = l'.buckets := by
      intro l'
      exact ⟨by rw [finishBatch, setup_phase], by rw [finishBatch, setup_buckets]⟩
    simp only [loop, phase]
    cases it with
    | none =>
      have turned : l.turn execute none (int spent) = some l.finishBatch := by
        simp only [turn, round, Option.bind_eq_bind, Option.bind_some, (idle l).1, Option.pure_def]
      refine ⟨l.finishBatch, spent, ?_, (idle l).1, le_refl _, ?_, fun _ => ⟨(idle l).2, rfl⟩,
        fun _ no => (by cases no)⟩
      · rw [turned, Option.bind_some, loop_idle execute left _ (idle l).1, takes, add_zero]
      · rw [(idle l).2]
        exact filled
    | some key =>
      obtain ⟨old, found⟩ := pointing key rfl
      have due_positive : 0 ≤ RoundRobin.due (Bucket.work execute) l.buckets key := by
        refine List.sum_nonneg ?_
        intro x mem
        obtain ⟨e, _, rfl⟩ := List.mem_map.mp mem
        exact List.sum_nonneg fun y taken => work_nonneg (List.mem_of_mem_take taken)
      by_cases more : l.batchSize < 1 ∨ int spent < l.batchSize
      · have busy : old.Busy := not_not.mp fun lazy => filled key old found (work_eq_nil.mpr lazy)
        obtain ⟨next, w, queue, queue', turned, taken, split, buckets, phase', size, going⟩ :=
          turn_spec execute found busy more
        have weighs : 0 ≤ w := work_nonneg (b := old) (by rw [split]; exact List.mem_cons_self)
        have more_than_none : 0 < RoundRobin.load (Bucket.work execute) l.buckets := by
          rw [RoundRobin.load_leave found split]
          exact Nat.succ_pos _
        have in_time : RoundRobin.load (Bucket.work execute) l.buckets < left + 1 := by
          rcases enough with in_time | ⟨_, past⟩
          · exact in_time
          · unfold Reached at past
            omega
        obtain ⟨last, spent', ran, idle', le, filled', stays, forecast⟩ :=
          @ih next _ (spent + w) phase' (by omega)
            (by rw [buckets]; exact RoundRobin.leave_filled filled)
            (by rw [buckets]; exact fun k at_k => RoundRobin.leave_present at_k)
            (by
              rcases going with rfl | past
              · rw [RoundRobin.load_leave found split] at in_time
                rw [buckets]
                exact Or.inl (by omega)
              · rw [size]
                exact Or.inr ⟨by omega, past.1, le_of_lt past.2⟩)
        rw [size] at forecast
        refine ⟨last, spent', ?_, idle', by omega, filled', fun no => (by cases no), ?_⟩
        · rw [turned, Option.bind_some, taken, ran]
        · intro _ eq
          cases eq
          rcases going with rfl | past
          · cases at_next : (RoundRobin.leave (Bucket.work execute) l.buckets key queue').2 with
            | none =>
              obtain ⟨same, total⟩ := stays at_next
              obtain ⟨due, drains⟩ := RoundRobin.leave_end found split filled at_next
              rw [same, total, buckets, due, drains]
            | some k =>
              rw [forecast k at_next, buckets, RoundRobin.due_leave filled found split at_next,
                add_assoc, RoundRobin.drains_leave filled found split at_next]
          · -- the weight that goes over the batch size ends the batch
            have reached : Reached l.batchSize (spent + w) :=
              ⟨past.1, le_trans (le_of_lt past.2) (int_le (by omega))⟩
            have counts := RoundRobin.le_due filled found split fun k b _ x mem => work_nonneg mem
            exact iff_of_true (Or.inl (reached.mono le)) (Or.inl (reached.mono (by omega)))
      · have reached : Reached l.batchSize (int spent) := by
          unfold Reached
          omega
        have at_least := reached.mono (int_le positive)
        have turned : l.turn execute (some key) (int spent) =
            some (finishBatch { l with lastKey := some key }) := by
          simp only [turn, round, if_neg more, Option.bind_eq_bind, Option.bind_some,
            Option.pure_def]
          rw [(idle _).1]
        refine ⟨finishBatch { l with lastKey := some key }, spent, ?_, (idle _).1, le_refl _, ?_,
          fun no => (by cases no), ?_⟩
        · rw [turned, Option.bind_some, loop_idle execute left _ (idle _).1, takes, if_neg more,
            add_zero]
        · rw [(idle _).2]
          exact filled
        · intro _ eq
          cases eq
          exact iff_of_true (Or.inl at_least)
            (Or.inl (at_least.mono (le_add_of_nonneg_right due_positive)))

/-- The other buckets have nothing left when the one with the greatest key runs out,
    or the batch size is reached by then. -/
def Outlasts (execute : α → Bool) (l : RateLimiter κ α) : Prop :=
  ∀ key ∈ l.begins,
    Reached l.batchSize (RoundRobin.due (Bucket.work execute) l.buckets key) ∨
      RoundRobin.Drains (Bucket.work execute) l.buckets key

instance (execute : α → Bool) (l : RateLimiter κ α) : Decidable (l.Outlasts execute) :=
  inferInstanceAs (Decidable (∀ key ∈ l.begins,
    Reached l.batchSize (RoundRobin.due (Bucket.work execute) l.buckets key) ∨
      RoundRobin.Drains (Bucket.work execute) l.buckets key))

/-- A batch over buckets that have something to do comes to an end. It reaches the
    batch size or leaves no work exactly if the bucket with the greatest key does not
    run out before. -/
theorem batch_conserves_work_iff (execute : α → Bool) {l : RateLimiter κ α}
    (busy : ∀ key b, l.buckets.get? key = some b → b.Busy) :
    ∃ last spent, l.processBatch execute = some (last, spent) ∧ last.phase = .idle ∧
      ((Reached l.batchSize spent ∨ ∀ key b, last.buckets.get? key = some b → ¬ b.Busy) ↔
      l.Outlasts execute) := by
  have filled : ∀ key b, l.buckets.get? key = some b → b.work execute ≠ [] := by
    intro key b found none
    exact work_eq_nil.mp none (busy key b found)
  unfold processBatch Outlasts
  by_cases empty : l.buckets.isEmpty = true
  · have none := OrderedMap.isEmpty_iff.mp empty
    have start : l.startBatch.phase = .idle ∧ l.startBatch.buckets = l.buckets := by
      unfold startBatch
      rw [if_pos empty]
      exact ⟨by rw [finishBatch, setup_phase], by rw [finishBatch, setup_buckets]⟩
    refine ⟨l.startBatch, 0, loop_idle execute _ 0 start.1, start.1, iff_of_true (Or.inr ?_) ?_⟩
    · intro key b found
      rw [start.2, none] at found
      cases found
    · intro key _
      refine Or.inr ?_
      intro e mem
      have found := OrderedMap.mem_iff_get?.mp (show (e.1, e.2) ∈ l.buckets.entries from mem)
      rw [none] at found
      cases found
  · have start :
        l.startBatch = { l with lastBatchEmpty := false, phase := .looping l.begins (int 0) } := by
      unfold startBatch
      rw [if_neg empty]
      rfl
    obtain ⟨key, begins, b, found⟩ : ∃ key, l.begins = some key ∧
        ∃ b, l.buckets.get? key = some b := by
      have some_first : ∃ key, l.buckets.first? = some key ∧ ∃ b, l.buckets.get? key = some b := by
        have some_entry : ∃ key b, l.buckets.get? key = some b := by
          by_contra nothing
          push Not at nothing
          exact empty (OrderedMap.isEmpty_iff.mpr fun k => Option.eq_none_iff_forall_ne_some.mpr
            (nothing k))
        obtain ⟨k, v, found⟩ := some_entry
        obtain ⟨first, eq⟩ := OrderedMap.first?_of_present found
        exact ⟨first, eq, OrderedMap.first?_present eq⟩
      unfold begins
      split
      · split_ifs with present
        · exact ⟨_, rfl, Option.isSome_iff_exists.mp present⟩
        · exact some_first
      · exact some_first
    obtain ⟨last, spent, ran, idle, _, filled', _, forecast⟩ :=
      loop_spec execute (RoundRobin.load (Bucket.work execute) l.buckets + 1)
        (l := { l with lastBatchEmpty := false, phase := .looping l.begins (int 0) }) rfl
          (le_refl 0) filled
        (by
          intro k at_k
          rw [begins] at at_k
          cases at_k
          exact ⟨b, found⟩)
        (Or.inl (Nat.lt_succ_self _))
    refine ⟨last, spent, by rw [start, ran], idle, ?_⟩
    have settled := forecast key begins
    rw [zero_add] at settled
    have nothing_left : (∀ key b, last.buckets.get? key = some b → ¬ b.Busy) ↔
        last.buckets.isEmpty = true := by
      rw [OrderedMap.isEmpty_iff]
      constructor
      · intro lazy k
        rw [Option.eq_none_iff_forall_ne_some]
        intro v at_k
        exact filled' k v at_k (work_eq_nil.mpr (lazy k v at_k))
      · intro none k v at_k
        rw [none] at at_k
        cases at_k
    rw [nothing_left, settled]
    constructor
    · intro enough k at_k
      rw [Option.mem_def, begins] at at_k
      cases at_k
      exact enough
    · intro all
      exact all key begins

def threeActions (twice once : Nat) : RateLimiter Nat Nat :=
  let l := ((new.setRate 400).addAction twice 1 10).2
  ((l.addAction twice 1 11).2.addAction once 1 12).2

theorem threeActions_busy (twice once : Nat)
    (busy : ∀ e ∈ (threeActions twice once).buckets.entries, e.2.actions ≠ []) (key : Nat)
    (b : Bucket Nat) (found : (threeActions twice once).buckets.get? key = some b) : b.Busy :=
  Or.inl (busy (key, b) (OrderedMap.mem_iff_get?.mpr found))

theorem batch_drains_greatest_key_last :
    (threeActions 2 1).Outlasts (fun _ => true) ∧
    ∃ last spent, (threeActions 2 1).processBatch (fun _ => true) = some (last, spent) ∧
      last.phase = .idle ∧
      ((Reached (threeActions 2 1).batchSize spent ∨ ∀ key b, last.buckets.get? key = some b →
        ¬ b.Busy) ↔ (threeActions 2 1).Outlasts fun _ => true) :=
  ⟨by decide +kernel, batch_conserves_work_iff (fun _ => true)
    (threeActions_busy 2 1 (by decide +kernel))⟩

theorem greatest_key_ends_batch :
    (threeActions 1 2).batchSize = 10 ∧
    (∀ key b, (threeActions 1 2).buckets.get? key = some b → b.Busy) ∧
    ((threeActions 1 2).processBatch fun _ => true).any (fun (last, spent) =>
      spent = 2 && (last.buckets.get? 1).any fun b => b.actions.length = 1) = true :=
  ⟨by decide +kernel, threeActions_busy 1 2 (by decide +kernel), by decide +kernel⟩

end RateLimiter
end PushpinRateLimiter
