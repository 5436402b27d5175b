import Pushpin.Foundations.OrderedMap
import Pushpin.Foundations.Runs

/-!
`RateLimiter`. A batch is one event after another: the timer starts it, each round
of its loop visits one bucket, and a round that takes an action waits for it to
return. An action may call the limiter again before it returns, or destroy it.
`none` is `takeFirst` on an empty list or an iterator that points nowhere.
-/
namespace PushpinRateLimiter
open OrderedMaps

def int (x : Int) : Int := x.bmod (2 ^ 32)

theorem int_add (x y : Int) : int (int x + y) = int (x + y) := Int.bmod_add_bmod

theorem int_le {x : Int} (positive : 0 ≤ x) : int x ≤ x := by
  rw [int, Int.bmod_def]
  push_cast
  split_ifs <;> omega

def minBatchInterval : Int := 25

structure ActionItem (α : Type) where
  action : α
  weight : Int

structure Bucket (α : Type) where
  actions : List (ActionItem α)
  weight : Int
  debt : Int

def Bucket.new {α : Type} : Bucket α := ⟨[], 0, 0⟩

def Bucket.Busy {α : Type} (b : Bucket α) : Prop := b.actions ≠ [] ∨ 0 < b.debt

/-- Where `timeout` is. The loop has an iterator, `none` at the end of the map, and
    the number of actions processed. -/
inductive Phase (κ : Type) where
  | idle
  | looping (it : Option κ) (processed : Int)
  | executing (key : κ) (weight processed : Int)
  | gone
  deriving DecidableEq

structure RateLimiter (κ α : Type) [LinearOrder κ] where
  rate : Int
  hwm : Int
  batchWaitEnabled : Bool
  buckets : OrderedMap κ (Bucket α)
  lastKey : Option κ
  /-- The interval of the timer while it is active. -/
  timer : Option Int
  firstPass : Bool
  batchInterval : Int
  batchSize : Int
  lastBatchEmpty : Bool
  phase : Phase κ

namespace RateLimiter
variable {κ α : Type} [LinearOrder κ]

def new : RateLimiter κ α where
  rate := -1
  hwm := -1
  batchWaitEnabled := false
  buckets := .empty
  lastKey := none
  timer := none
  firstPass := false
  batchInterval := -1
  batchSize := -1
  lastBatchEmpty := false
  phase := .idle

def setup (l : RateLimiter κ α) : RateLimiter κ α :=
  if l.rate > 0 then
    if !l.buckets.isEmpty || !l.lastBatchEmpty then
      if l.timer.isSome then
        -- after the first pass, switch to batch interval
        if !l.firstPass then { l with timer := some l.batchInterval } else l
      else { l with
        firstPass := true, timer := some (if l.batchWaitEnabled then l.batchInterval else 0) }
    else { l with lastBatchEmpty := false, timer := none }
  else if !l.buckets.isEmpty then
    if l.timer.isSome then { l with timer := some 0 }
    else { l with firstPass := true, timer := some 0 }
  else { l with timer := none }

def setRate (actionsPerSecond : Int) (l : RateLimiter κ α) : RateLimiter κ α :=
  setup <|
    if actionsPerSecond > 0 then
      if actionsPerSecond ≥ 1000 / minBatchInterval then
        { l with
          rate := actionsPerSecond
          batchInterval := minBatchInterval
          batchSize := (int (int (actionsPerSecond * minBatchInterval) + 999)).tdiv 1000 }
      else { l with
        rate := actionsPerSecond, batchInterval :=
          (1000 : Int).tdiv actionsPerSecond, batchSize := 1 }
    else { l with rate := -1, batchInterval := -1, batchSize := -1 }

def bucketOf (l : RateLimiter κ α) (key : κ) : Bucket α := (l.buckets.get? key).getD .new

def rejects (l : RateLimiter κ α) (key : κ) (weight : Int) : Bool :=
  decide (l.hwm > 0) && decide (int ((l.bucketOf key).weight + weight) > l.hwm)

/-- `buckets[key]` puts an empty bucket in the map where there is none, before the
    high-water mark is looked at. -/
def addAction (key : κ) (weight : Int) (action : α) (l : RateLimiter κ α) :
    Bool × RateLimiter κ α :=
  let bucket := l.bucketOf key
  if l.rejects key weight then (false, { l with buckets := l.buckets.insert key bucket })
  else
    let bucket : Bucket α :=
      { bucket with
        actions := bucket.actions ++ [⟨action, weight⟩], weight := int (bucket.weight + weight) }
    (true, setup { l with buckets := l.buckets.insert key bucket })

def finishBatch (l : RateLimiter κ α) : RateLimiter κ α :=
  setup { l with firstPass := false, phase := .idle }

def startBatch (l : RateLimiter κ α) : RateLimiter κ α :=
  if l.buckets.isEmpty then finishBatch { l with lastBatchEmpty := true }
  else
    let it :=
      match l.lastKey with
      | some key => if (l.buckets.get? key).isSome then some key else l.buckets.first?
      | none => l.buckets.first?
    { l with lastBatchEmpty := false, phase := .looping it 0 }

/-- The end of a round: an empty bucket without debt is erased, and the iterator
    moves on. It goes back to the start only where nothing was erased. -/
def leaveBucket (key : κ) (bucket : Bucket α) (processed : Int) (l : RateLimiter κ α) :
    RateLimiter κ α :=
  if bucket.actions.isEmpty && decide (bucket.debt ≤ 0) then
    { l with
      lastKey := some key
      buckets := l.buckets.erase key
      phase := .looping (l.buckets.after? key) processed }
  else
    { l with
      buckets := l.buckets.insert key bucket
      phase := .looping ((l.buckets.after? key).or l.buckets.first?) processed }

def round (it : Option κ) (processed : Int) (l : RateLimiter κ α) : Option (RateLimiter κ α) :=
  match it with
  | none => some l.finishBatch
  | some key =>
    if l.batchSize < 1 ∨ processed < l.batchSize then
      match l.buckets.get? key with
      | none => none
      | some bucket =>
        if bucket.debt ≤ 0 then
          match bucket.actions with
          | [] => none
          | ai :: actions =>
            some { l with
              buckets := l.buckets.insert key
                { bucket with actions := actions, weight := int (bucket.weight - ai.weight) }
              phase := .executing key ai.weight processed }
        else some (l.leaveBucket key { bucket with debt := bucket.debt - 1 } (int (processed + 1)))
    else some (finishBatch { l with lastKey := some key })

def returned (key : κ) (weight processed : Int) (ret : Bool) (l : RateLimiter κ α) :
    Option (RateLimiter κ α) :=
  match l.buckets.get? key with
  | none => none
  | some bucket =>
    if ret then
      let processed := int (processed + if weight > 1 then weight else 1)
      let debt :=
        if l.batchSize ≥ 1 ∧ processed > l.batchSize then
          int (bucket.debt + (processed - l.batchSize)) else bucket.debt
      some (l.leaveBucket key { bucket with debt := debt } processed)
    else some (l.leaveBucket key bucket processed)

inductive Event (κ α : Type) where
  | setRate (actionsPerSecond : Int)
  | setHwm (hwm : Int)
  | setBatchWaitEnabled (on : Bool)
  | addAction (key : κ) (weight : Int) (action : α)
  | timeout
  | round
  | returned (ret : Bool)
  | destroyed

def step (l : RateLimiter κ α) : Event κ α → Option (RateLimiter κ α)
  | .setRate actionsPerSecond => some (l.setRate actionsPerSecond)
  | .setHwm hwm => some { l with hwm := hwm }
  | .setBatchWaitEnabled on => some { l with batchWaitEnabled := on }
  | .addAction key weight action => some (l.addAction key weight action).2
  | .timeout => some l.startBatch
  | .round =>
    match l.phase with
    | .looping it processed => l.round it processed
    | _ => some l
  | .returned ret =>
    match l.phase with
    | .executing key weight processed => l.returned key weight processed ret
    | _ => some l
  | .destroyed => some { l with phase := .gone, buckets := .empty }

/-- Calls come from outside a batch or from the action that it executes, the timer
    fires outside batches, and only an action destroys the limiter during one. -/
def allowed (l : RateLimiter κ α) (event : Event κ α) : Bool :=
  match l.phase, event with
  | .idle, .timeout => l.timer.isSome
  | .idle, .round => false
  | .idle, .returned _ => false
  | .idle, _ => true
  | .looping _ _, .round => true
  | .looping _ _, _ => false
  | .executing _ _ _, .timeout => false
  | .executing _ _ _, .round => false
  | .executing _ _ _, _ => true
  | .gone, _ => false

def current (l : RateLimiter κ α) : Option κ :=
  match l.phase with
  | .executing key _ _ => some key
  | _ => none

/-- Every bucket in the map has something to do. Only the one whose action is
    executing is looked at again before it is left in the map. -/
def Working (l : RateLimiter κ α) : Prop :=
  ∀ key bucket, l.buckets.get? key = some bucket → l.current ≠ some key → bucket.Busy

def Pointing (l : RateLimiter κ α) : Prop :=
  match l.phase with
  | .looping (some key) _ => ∃ bucket, l.buckets.get? key = some bucket
  | .executing key _ _ => ∃ bucket, l.buckets.get? key = some bucket
  | _ => True

structure Sound (l : RateLimiter κ α) : Prop where
  pointing : l.Pointing
  working : l.Working

def known (l : RateLimiter κ α) : Event κ α → Bool
  | .addAction key weight _ => !l.rejects key weight || (l.buckets.get? key).isSome
  | _ => true

@[simp] theorem setup_buckets (l : RateLimiter κ α) : l.setup.buckets = l.buckets := by
  unfold setup
  split_ifs <;> rfl

@[simp] theorem setup_phase (l : RateLimiter κ α) : l.setup.phase = l.phase := by
  unfold setup
  split_ifs <;> rfl

@[simp] theorem setup_batchSize (l : RateLimiter κ α) : l.setup.batchSize = l.batchSize := by
  unfold setup
  split_ifs <;> rfl

theorem setRate_same (actionsPerSecond : Int) (l : RateLimiter κ α) :
    (l.setRate actionsPerSecond).buckets = l.buckets ∧
    (l.setRate actionsPerSecond).phase = l.phase := by
  simp only [setRate, setup_buckets, setup_phase]
  split_ifs <;> exact ⟨rfl, rfl⟩

theorem new_sound : (new : RateLimiter κ α).Sound := by
  constructor
  · exact trivial
  · intro key bucket found
    cases found

variable {l : RateLimiter κ α}

theorem Sound.of_same {l' : RateLimiter κ α} (sound : l.Sound) (buckets : l'.buckets = l.buckets)
    (phase : l'.phase = l.phase) : l'.Sound := by
  constructor
  · have pointing := sound.pointing
    unfold Pointing at pointing ⊢
    rwa [phase, buckets]
  · have working := sound.working
    unfold Working current at working ⊢
    rwa [phase, buckets]

theorem sound_of_idle (idle : l.phase = .idle)
    (busy : ∀ key bucket, l.buckets.get? key = some bucket → bucket.Busy) : l.Sound := by
  constructor
  · rw [Pointing, idle]
    exact trivial
  · intro key bucket found _
    exact busy key bucket found

theorem finishBatch_sound
    (busy : ∀ key bucket, l.buckets.get? key = some bucket → bucket.Busy) :
    l.finishBatch.Sound := by
  apply sound_of_idle
  · rw [finishBatch, setup_phase]
  · rw [finishBatch, setup_buckets]
    exact busy

theorem startBatch_sound (sound : l.Sound) (idle : l.phase = .idle) : l.startBatch.Sound := by
  have busy : ∀ key bucket, l.buckets.get? key = some bucket → bucket.Busy := by
    intro key bucket found
    refine sound.working key bucket found ?_
    rw [current, idle]
    exact nofun
  unfold startBatch
  split_ifs with empty
  · exact finishBatch_sound busy
  · have first : ∀ key, l.buckets.first? = some key → ∃ bucket, l.buckets.get? key = some bucket :=
      fun key found => OrderedMap.first?_present found
    constructor
    · simp only [Pointing]
      split
      · rename_i key _ at_key
        injection at_key with it_eq _
        split at it_eq
        · split_ifs at it_eq with present
          · cases it_eq
            exact Option.isSome_iff_exists.mp present
          · exact first key it_eq
        · exact first key it_eq
      · rename_i wrong
        cases wrong
      · exact trivial
    · intro key bucket found _
      exact busy key bucket found

theorem leaveBucket_sound {key : κ}
    (others : ∀ k b, l.buckets.get? k = some b → k ≠ key → b.Busy) (bucket : Bucket α)
    (processed : Int) :
    (l.leaveBucket key bucket processed).Sound := by
  unfold leaveBucket
  split_ifs with spent
  · constructor
    · simp only [Pointing]
      cases next : l.buckets.after? key with
      | none => exact trivial
      | some k =>
        obtain ⟨above, b, found⟩ := OrderedMap.after?_present next
        exact ⟨b, by rw [OrderedMap.get?_erase, if_neg (ne_of_gt above), found]⟩
    · intro k b found _
      rw [OrderedMap.get?_erase] at found
      split_ifs at found with own
      exact others k b found own
  · have busy : bucket.Busy := by
      simp only [Bool.and_eq_true, List.isEmpty_iff, decide_eq_true_eq, not_and, not_le] at spent
      by_cases none : bucket.actions = []
      · exact Or.inr (spent none)
      · exact Or.inl none
    have kept : ∀ k b, l.buckets.get? k = some b →
        ∃ b', (l.buckets.insert key bucket).get? k = some b' := by
      intro k b found
      by_cases own : k = key
      · exact ⟨bucket, by rw [OrderedMap.get?_insert, if_pos own]⟩
      · exact ⟨b, by rw [OrderedMap.get?_insert, if_neg own, found]⟩
    constructor
    · simp only [Pointing]
      cases next : l.buckets.after? key with
      | some k =>
        obtain ⟨_, b, found⟩ := OrderedMap.after?_present next
        exact kept k b found
      | none =>
        rw [Option.none_or]
        cases start : l.buckets.first? with
        | none => exact trivial
        | some k =>
          obtain ⟨b, found⟩ := OrderedMap.first?_present start
          exact kept k b found
    · intro k b found _
      rw [OrderedMap.get?_insert] at found
      split_ifs at found with own
      · cases found
        exact busy
      · exact others k b found own

theorem round_sound {it : Option κ} {processed : Int} (sound : l.Sound)
    (phase : l.phase = .looping it processed) : ∃ next, l.round it processed = some next ∧
    next.Sound := by
  have busy : ∀ key bucket, l.buckets.get? key = some bucket → bucket.Busy := by
    intro key bucket found
    refine sound.working key bucket found ?_
    rw [current, phase]
    exact nofun
  cases it with
  | none => exact ⟨_, rfl, finishBatch_sound busy⟩
  | some key =>
    have pointing := sound.pointing
    rw [Pointing, phase] at pointing
    obtain ⟨bucket, found⟩ := pointing
    unfold round
    simp only [found]
    split_ifs with more paid
    · -- no debt is left, so the bucket has an action to take
      rcases busy key bucket found with actions | owes
      · obtain ⟨ai, rest, eq⟩ := List.exists_cons_of_ne_nil actions
        rw [eq]
        refine ⟨_, rfl, ?_, ?_⟩
        · exact ⟨_, by rw [OrderedMap.get?_insert, if_pos rfl]⟩
        · intro k b at_k other
          rw [OrderedMap.get?_insert] at at_k
          split_ifs at at_k with own
          · exact absurd (congrArg some own.symm) other
          · exact busy k b at_k
      · omega
    · exact ⟨_, rfl, leaveBucket_sound (fun k b at_k _ => busy k b at_k) _ _⟩
    · exact ⟨_, rfl, finishBatch_sound busy⟩

theorem returned_sound {key : κ} {weight processed : Int} (sound : l.Sound)
    (phase : l.phase = .executing key weight processed) (ret : Bool) :
    ∃ next, l.returned key weight processed ret = some next ∧ next.Sound := by
  have pointing := sound.pointing
  rw [Pointing, phase] at pointing
  obtain ⟨bucket, found⟩ := pointing
  have others : ∀ k b, l.buckets.get? k = some b → k ≠ key → b.Busy := by
    intro k b at_k other
    refine sound.working k b at_k ?_
    rw [current, phase]
    exact fun eq => other (Option.some.inj eq).symm
  unfold returned
  rw [found]
  cases ret with
  | true => exact ⟨_, rfl, leaveBucket_sound others _ _⟩
  | false => exact ⟨_, rfl, leaveBucket_sound others _ _⟩

theorem addAction_sound (sound : l.Sound) {key : κ} {weight : Int} (action : α)
    (held : l.known (.addAction key weight action) = true) :
    (l.addAction key weight action).2.Sound ∧
      (l.rejects key weight = true → (l.addAction key weight action).2 = l) := by
  unfold addAction
  by_cases refused : l.rejects key weight = true
  · simp only [known, refused, Bool.not_true, Bool.false_or, Option.isSome_iff_exists] at held
    obtain ⟨bucket, found⟩ := held
    have same : { l with buckets := l.buckets.insert key (l.bucketOf key) } = l := by
      rw [bucketOf, found, Option.getD_some, OrderedMap.insert_self found]
    rw [if_pos refused]
    exact ⟨sound.of_same (congrArg buckets same) rfl, fun _ => same⟩
  · rw [if_neg refused]
    refine ⟨?_, fun wrong => absurd wrong refused⟩
    constructor
    · simp only [Pointing, setup_phase, setup_buckets]
      have pointing := sound.pointing
      unfold Pointing at pointing
      have kept : ∀ k b, (∃ old, l.buckets.get? k = some old) →
          ∃ new, (l.buckets.insert key b).get? k = some new := by
        intro k b present
        by_cases own : k = key
        · exact ⟨b, by rw [OrderedMap.get?_insert, if_pos own]⟩
        · obtain ⟨old, found⟩ := present
          exact ⟨old, by rw [OrderedMap.get?_insert, if_neg own, found]⟩
      split
      · rename_i at_key
        rw [at_key] at pointing
        exact kept _ _ pointing
      · rename_i at_key
        rw [at_key] at pointing
        exact kept _ _ pointing
      · exact trivial
    · intro k b found other
      rw [setup_buckets, OrderedMap.get?_insert] at found
      rw [current, setup_phase] at other
      split_ifs at found with own
      · cases found
        exact Or.inl (List.append_ne_nil_of_right_ne_nil _ (List.cons_ne_nil _ _))
      · exact sound.working k b found other

theorem step_sound {event : Event κ α} (sound : l.Sound) (may : l.allowed event = true)
    (held : l.known event = true) :
    ∃ next, l.step event = some next ∧ next.Sound ∧
      ∀ key weight action, event = .addAction key weight action → l.rejects key weight = true →
        next = l := by
  cases event with
  | setRate actionsPerSecond =>
    obtain ⟨buckets, phase⟩ := setRate_same actionsPerSecond l
    exact ⟨_, rfl, sound.of_same buckets phase, nofun⟩
  | setHwm hwm => exact ⟨_, rfl, sound.of_same rfl rfl, nofun⟩
  | setBatchWaitEnabled on => exact ⟨_, rfl, sound.of_same rfl rfl, nofun⟩
  | addAction key weight action =>
    obtain ⟨kept, same⟩ := addAction_sound sound action held
    refine ⟨_, rfl, kept, ?_⟩
    intro key weight action eq refused
    cases eq
    exact same refused
  | timeout =>
    cases phase : l.phase with
    | idle => exact ⟨_, rfl, startBatch_sound sound phase, nofun⟩
    | looping _ _ => simp [allowed, phase] at may
    | executing _ _ _ => simp [allowed, phase] at may
    | gone => simp [allowed, phase] at may
  | round =>
    cases phase : l.phase with
    | looping it processed =>
      obtain ⟨next, stepped, kept⟩ := round_sound sound phase
      exact ⟨next, by simp only [step, phase, stepped], kept, nofun⟩
    | idle => simp [allowed, phase] at may
    | executing _ _ _ => simp [allowed, phase] at may
    | gone => simp [allowed, phase] at may
  | returned ret =>
    cases phase : l.phase with
    | executing key weight processed =>
      obtain ⟨next, stepped, kept⟩ := returned_sound sound phase ret
      exact ⟨next, by simp only [step, phase, stepped], kept, nofun⟩
    | idle => simp [allowed, phase] at may
    | looping _ _ => simp [allowed, phase] at may
    | gone => simp [allowed, phase] at may
  | destroyed =>
    refine ⟨_, rfl, ⟨trivial, ?_⟩, nofun⟩
    intro key bucket found
    cases found

/-- A batch takes actions only from lists that have some, every bucket in the map has
    something to do, and a rejected call changes nothing, exactly as long as no call is
    rejected on a key without a bucket. -/
theorem batches_find_work_iff (events : List (Event κ α))
    (possible : Runs.along step allowed new events = true) :
    (∀ front event rest, events = front ++ event :: rest →
      ∃ l next, Runs.run step new front = some l ∧ l.step event = some next ∧ l.Working ∧
        ∀ key weight action, event = .addAction key weight action → l.rejects key weight = true →
          next = l) ↔
      Runs.along step known new events = true := by
  constructor
  · intro all
    refine Runs.along_iff.mpr ?_
    intro front event rest eq reached ran
    obtain ⟨l, next, ran', stepped, _, same⟩ := all front event rest eq
    obtain rfl : reached = l := Option.some.inj (ran.symm.trans ran')
    cases event with
    | addAction key weight action =>
      by_cases refused : reached.rejects key weight = true
      · have unchanged := same key weight action rfl refused
        have inserted : next.buckets.get? key = some (reached.bucketOf key) := by
          rw [← Option.some.inj stepped, addAction, if_pos refused, OrderedMap.get?_insert,
            if_pos rfl]
        rw [unchanged] at inserted
        simp [known, inserted]
      · simp [known, refused]
    | _ => rfl
  · intro held front event rest eq
    have both := Runs.along_and.mpr ⟨possible, held⟩
    rw [eq] at both
    obtain ⟨l, ran, sound⟩ := Runs.run_rule Sound
      (fun l e sound passed => by
        obtain ⟨may, fine⟩ := Bool.and_eq_true_iff.mp passed
        obtain ⟨next, stepped, kept, _⟩ := step_sound sound may fine
        exact ⟨next, stepped, kept⟩)
      front new_sound (Runs.along_front both)
    obtain ⟨may, fine⟩ :=
      Bool.and_eq_true_iff.mp (Runs.along_iff.mp both front event rest rfl l ran)
    obtain ⟨next, stepped, _, same⟩ := step_sound sound may fine
    exact ⟨l, next, ran, stepped, sound.working, same⟩

def steadyEvents : List (Event Nat Nat) :=
  [.setHwm 5, .addAction 1 2 7, .timeout, .round, .addAction 1 9 8, .returned true, .round]

theorem steady_batch_finds_work :
    Runs.along step known new steadyEvents = true ∧
    ∀ front event rest, steadyEvents = front ++ event :: rest →
      ∃ l next, Runs.run step new front = some l ∧ l.step event = some next ∧ l.Working ∧
        ∀ key weight action, event = .addAction key weight action → l.rejects key weight = true →
          next = l :=
  ⟨by decide +kernel,
    (batches_find_work_iff steadyEvents (by decide +kernel)).mpr (by decide +kernel)⟩

def heavyEvents : List (Event Nat Nat) :=
  [.setHwm 5, .addAction 1 6 7, .addAction 2 1 8, .timeout, .round]

theorem rejected_action_leaves_an_empty_bucket :
    Runs.along step allowed new heavyEvents = true ∧ Runs.run step new heavyEvents = none ∧
    ¬ ∀ events : List (Event Nat Nat), Runs.along step allowed new events = true →
      ∀ front event rest, events = front ++ event :: rest →
        ∃ l next, Runs.run step new front = some l ∧ l.step event = some next ∧ l.Working ∧
          ∀ key weight action, event = .addAction key weight action → l.rejects key weight = true →
            next = l := by
  have may : Runs.along step allowed new heavyEvents = true := by decide +kernel
  have stuck : Runs.run step new heavyEvents = none := by decide +kernel
  refine ⟨may, stuck, ?_⟩
  intro all
  obtain ⟨l, next, ran, stepped, _⟩ := all heavyEvents may (heavyEvents.take 4) .round [] rfl
  have whole := Runs.run_append step new (heavyEvents.take 4) [Event.round]
  rw [ran, Option.bind_some, Runs.run, stepped] at whole
  rw [show heavyEvents.take 4 ++ [Event.round] = heavyEvents from rfl, stuck] at whole
  cases whole

theorem setRate_batch (actionsPerSecond : Int) (positive : 0 < actionsPerSecond)
    (l : RateLimiter κ α) : if 40 ≤ actionsPerSecond then
      (l.setRate actionsPerSecond).batchInterval = 25 ∧
        (l.setRate actionsPerSecond).batchSize = (int (actionsPerSecond * 25 + 999)).tdiv 1000
    else (l.setRate actionsPerSecond).batchInterval = 1000 / actionsPerSecond ∧
      (l.setRate actionsPerSecond).batchSize = 1 := by
  have interval_same : ∀ l : RateLimiter κ α, l.setup.batchInterval = l.batchInterval := by
    intro l
    unfold setup
    split_ifs <;> rfl
  have bound : (1000 : Int) / minBatchInterval = 40 := by decide
  unfold setRate
  rw [interval_same, setup_batchSize, if_pos positive, bound]
  split_ifs with fast
  · exact ⟨rfl, by simp only [minBatchInterval, int_add]⟩
  · exact ⟨Int.tdiv_eq_ediv_of_nonneg (by decide), rfl⟩

/-- The batches are a limit of `rate` actions a second. Their size is computed without an
    overflow, which would leave it undefined, and it is at least one: a smaller one is taken
    as no limit. -/
structure KeepsRate (rate : Int) (l : RateLimiter κ α) : Prop where
  computed : 1000 / minBatchInterval ≤ rate → rate * minBatchInterval + 999 < 2 ^ 31
  limited : 1 ≤ l.batchSize
  bounded : l.batchSize * 1000 ≤ rate * l.batchInterval

theorem int_of_fits {x : Int} (positive : 0 ≤ x) (fits : x < 2 ^ 31) : int x = x :=
  Int.bmod_eq_of_le (by omega) (by omega)

theorem fast_batches_keep_rate_iff {rate : Int} (fast : 40 ≤ rate) (l : RateLimiter κ α) :
    KeepsRate rate (l.setRate rate) ↔ 40 ∣ rate ∧ rate * 25 + 999 < 2 ^ 31 := by
  have batch := setRate_batch rate (by omega) l
  rw [if_pos fast] at batch
  obtain ⟨interval, size⟩ := batch
  constructor
  · rintro ⟨computed, -, bounded⟩
    have fits : rate * 25 + 999 < 2 ^ 31 := computed fast
    rw [interval, size, int_of_fits (by omega) fits,
      Int.tdiv_eq_ediv_of_nonneg (by omega)] at bounded
    exact ⟨by omega, fits⟩
  · rintro ⟨whole, fits⟩
    rw [int_of_fits (by omega) fits, Int.tdiv_eq_ediv_of_nonneg (by omega)] at size
    refine ⟨fun _ => fits, by omega, ?_⟩
    rw [interval, size]
    omega

theorem slow_batches_keep_rate_iff {rate : Int} (positive : 0 < rate) (slow : ¬ 40 ≤ rate)
    (l : RateLimiter κ α) : KeepsRate rate (l.setRate rate) ↔ rate ∣ 1000 := by
  have batch := setRate_batch rate positive l
  rw [if_neg slow] at batch
  obtain ⟨interval, size⟩ := batch
  have whole := Int.mul_ediv_add_emod 1000 rate
  have rest := Int.emod_nonneg 1000 (ne_of_gt positive)
  rw [Int.dvd_iff_emod_eq_zero]
  constructor
  · rintro ⟨-, -, bounded⟩
    rw [interval, size] at bounded
    omega
  · intro divides
    refine ⟨fun fast => absurd fast slow, by omega, ?_⟩
    rw [interval, size]
    omega

/-- The batches keep to the rate exactly if nothing is rounded and nothing overflows. -/
theorem batches_keep_rate_iff {rate : Int} (positive : 0 < rate) (l : RateLimiter κ α) :
    KeepsRate rate (l.setRate rate) ↔
      if 40 ≤ rate then 40 ∣ rate ∧ rate * 25 + 999 < 2 ^ 31 else rate ∣ 1000 := by
  split_ifs with fast
  · exact fast_batches_keep_rate_iff fast l
  · exact slow_batches_keep_rate_iff positive fast l

theorem forty_a_second_is_kept : KeepsRate 40 ((new : RateLimiter Nat Nat).setRate 40) :=
  (batches_keep_rate_iff (by decide) new).mpr (by decide)

/-- The rate in the configuration that comes with the program, a slow one, and one whose
    batch size overflows, so that there is no limit. -/
theorem default_rate_is_exceeded :
    ¬ ((new : RateLimiter Nat Nat).setRate 2500).batchSize * 1000 ≤
      2500 * ((new : RateLimiter Nat Nat).setRate 2500).batchInterval ∧
    ¬ ((new : RateLimiter Nat Nat).setRate 3).batchSize * 1000 ≤
      3 * ((new : RateLimiter Nat Nat).setRate 3).batchInterval ∧
    ((new : RateLimiter Nat Nat).setRate 100000000).batchSize < 1 := by
  decide +kernel

end RateLimiter
end PushpinRateLimiter
