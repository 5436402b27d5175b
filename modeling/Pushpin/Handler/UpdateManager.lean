import Mathlib.Data.Finset.Basic
import Pushpin.Foundations.Index
import Pushpin.Foundations.Runs

/-!
The update manager of the HTTP sessions. Sessions that wait for the same timeout
on the same link share a bucket, and a bucket has one timer. Buckets and timers
are at addresses, as in the source: `none` is a use of an address that was freed.
-/
namespace PushpinUpdateManager
open Indexes Runs
open Function (update update_of_ne update_self)

structure Timer where
  singleShot : Bool
  interval : Int
  active : Bool
deriving DecidableEq, Repr

def Timer.new : Timer := ⟨false, 0, false⟩

def Timer.start (timer : Timer) : Timer := { timer with active := true }

def Timer.startWith (timer : Timer) (msec : Int) : Timer := { timer with interval := msec }.start

/-- What a timer does to itself when it fires, before it signals its timeout. -/
def Timer.timerReady (timer : Timer) : Timer :=
  let timer := { timer with active := false }
  if timer.singleShot then timer else timer.start

def toInt (value : Int) : Int := value.bmod (2 ^ 32)

variable {Session Url : Type} [DecidableEq Session] [DecidableEq Url]

structure Bucket (Session Url : Type) where
  key : Int × Url
  sessions : Finset Session
  deferredSessions : Finset Session
  timer : Nat

structure Manager (Session Url : Type) where
  heap : Nat → Option (Bucket Session Url)
  timers : Nat → Option Timer
  buckets : Int × Url → Option Nat
  bucketsByTimer : Nat → Option Nat
  bucketsBySession : Session → Option Nat
  unused : Nat

namespace Manager

def new : Manager Session Url :=
  ⟨fun _ => none, fun _ => none, fun _ => none, fun _ => none, fun _ => none, 0⟩

def removeBucket (m : Manager Session Url) (address : Nat) : Option (Manager Session Url) := do
  let bucket ← m.heap address
  some { m with
    bucketsBySession := fun hs => if hs ∈ bucket.sessions then none else m.bucketsBySession hs
    bucketsByTimer := update m.bucketsByTimer bucket.timer none
    buckets := update m.buckets bucket.key none
    timers := update m.timers bucket.timer none
    heap := update m.heap address none }

def unregisterSession (m : Manager Session Url) (hs : Session) : Option (Manager Session Url) :=
  match m.bucketsBySession hs with
  | none => some m
  | some address => do
    let bucket ← m.heap address
    let bucket := { bucket with
      sessions := bucket.sessions.erase hs
      deferredSessions := bucket.deferredSessions.erase hs }
    let m := { m with
      heap := update m.heap address (some bucket)
      bucketsBySession := update m.bucketsBySession hs none }
    if bucket.sessions = ∅ then m.removeBucket address else some m

def join (m : Manager Session Url) (address : Nat) (hs : Session) :
    Option (Manager Session Url) := do
  let bucket ← m.heap address
  some { m with
    heap := update m.heap address
      (some { bucket with sessions := insert hs bucket.sessions })
    bucketsBySession := update m.bucketsBySession hs (some address) }

def open_ (m : Manager Session Url) (key : Int × Url) (hs : Session) : Manager Session Url :=
  { m with
    heap := update m.heap m.unused (some ⟨key, {hs}, ∅, m.unused⟩)
    timers := update m.timers m.unused (some (Timer.new.startWith (toInt (key.1 * 1000))))
    buckets := update m.buckets key (some m.unused)
    bucketsByTimer := update m.bucketsByTimer m.unused (some m.unused)
    bucketsBySession := update m.bucketsBySession hs (some m.unused)
    unused := m.unused + 1 }

/-- `withoutQuery` is `setQuery` of the URL with no query. -/
def registerSession (withoutQuery : Url → Url) (m : Manager Session Url) (hs : Session)
    (timeout : Int) (uri : Url) (resetTimeout : Bool) : Option (Manager Session Url) :=
  let key := (timeout, withoutQuery uri)
  match m.buckets key with
  | some address => do
    let bucket ← m.heap address
    if hs ∈ bucket.sessions then
      if resetTimeout then
        some { m with
          heap := update m.heap address
            (some { bucket with deferredSessions := insert hs bucket.deferredSessions }) }
      else some m
    else (← m.unregisterSession hs).join address hs
  | none => do
    some ((← m.unregisterSession hs).open_ key hs)

def timerTimeout (m : Manager Session Url) (timer : Nat) :
    Option (Manager Session Url × Finset Session) :=
  match m.bucketsByTimer timer with
  | none => some (m, ∅)
  | some address => do
    let bucket ← m.heap address
    if bucket.deferredSessions ≠ ∅ then
      let sessions := bucket.sessions.filter (· ∉ bucket.deferredSessions)
      some ({ m with
        bucketsBySession := fun hs => if hs ∈ sessions then none else m.bucketsBySession hs
        heap := update m.heap address
          (some { bucket with sessions := bucket.deferredSessions, deferredSessions := ∅ })
        timers := update m.timers bucket.timer ((m.timers bucket.timer).map Timer.start) },
          sessions)
    else some (← m.removeBucket address, bucket.sessions)

def timerFires (m : Manager Session Url) (timer : Nat) :
    Option (Manager Session Url × Finset Session) :=
  match m.timers timer with
  | none => some (m, ∅)
  | some t =>
    if t.active then
      { m with timers := update m.timers timer (some t.timerReady) }.timerTimeout timer
    else some (m, ∅)

end Manager

/-- What reaches the manager. A session that an expiry updates may come back at
    once with further calls: they are the events that follow it. -/
inductive Event (Session Url : Type) where
  | registerSession (hs : Session) (timeout : Int) (uri : Url) (resetTimeout : Bool)
  | unregisterSession (hs : Session)
  | timerFires (timer : Nat)

def Event.concerns (hs : Session) (timer : Nat) : Event Session Url → Prop
  | .registerSession other _ _ _ => other = hs
  | .unregisterSession other => other = hs
  | .timerFires other => other = timer

def Bucket.without (bucket : Bucket Session Url) (hs : Session) : Option (Bucket Session Url) :=
  if bucket.sessions.erase hs = ∅ then none
  else some { bucket with
    sessions := bucket.sessions.erase hs
    deferredSessions := bucket.deferredSessions.erase hs }

/-- What a session has registered for, and whether it is to wait for one expiry more. -/
structure Registration (Url : Type) where
  key : Int × Url
  deferred : Bool
deriving DecidableEq

/-- The registrations, as the calls and the expiries leave them. It knows of no buckets. -/
abbrev Ledger (Session Url : Type) := Session → Option (Registration Url)

namespace Ledger

/-- A session that registers again for what it waits for is only put off, and only if
    it asks for that. -/
def register (l : Ledger Session Url) (hs : Session) (key : Int × Url) (resetTimeout : Bool) :
    Ledger Session Url :=
  update l hs <| some <|
    match l hs with
    | some r => if r.key = key then ⟨key, r.deferred || resetTimeout⟩ else ⟨key, false⟩
    | none => ⟨key, false⟩

def unregister (l : Ledger Session Url) (hs : Session) : Ledger Session Url :=
  update l hs none

/-- The sessions that wait for the key are updated, except for those that were put off. -/
def expire (l : Ledger Session Url) (key : Int × Url) : Ledger Session Url := fun hs =>
  (l hs).bind fun r =>
    if r.key = key then if r.deferred then some ⟨key, false⟩ else none else some r

end Ledger

namespace Manager

def handle (withoutQuery : Url → Url) (m : Manager Session Url) :
    Event Session Url → Option (Manager Session Url × Finset Session)
  | .registerSession hs timeout uri resetTimeout =>
    (m.registerSession withoutQuery hs timeout uri resetTimeout).map (·, ∅)
  | .unregisterSession hs => (m.unregisterSession hs).map (·, ∅)
  | .timerFires timer => m.timerFires timer

def step (withoutQuery : Url → Url) (m : Manager Session Url) (event : Event Session Url) :
    Option (Manager Session Url) :=
  (m.handle withoutQuery event).map Prod.fst

def keyOf (m : Manager Session Url) (timer : Nat) : Option (Int × Url) :=
  (m.bucketsByTimer timer).bind fun address => (m.heap address).map Bucket.key

def record (withoutQuery : Url → Url) (m : Manager Session Url) (l : Ledger Session Url) :
    Event Session Url → Ledger Session Url
  | .registerSession hs timeout uri resetTimeout => l.register hs (timeout, withoutQuery uri)
    resetTimeout
  | .unregisterSession hs => l.unregister hs
  | .timerFires timer => (m.keyOf timer).elim l l.expire

def recorded (withoutQuery : Url → Url) (s : Manager Session Url × Ledger Session Url)
    (event : Event Session Url) : Option (Manager Session Url × Ledger Session Url) :=
  (s.1.step withoutQuery event).map (·, s.1.record withoutQuery s.2 event)

/-- The maps of the manager lead to the buckets that exist, and only there. -/
structure Linked (m : Manager Session Url) : Prop where
  bySession : Indexed (fun bucket hs => hs ∈ bucket.sessions) m.heap m.bucketsBySession
  byKey : Indexed (fun bucket key => bucket.key = key) m.heap m.buckets
  byTimer : Indexed (fun bucket timer => bucket.timer = timer) m.heap m.bucketsByTimer
  deferred : ∀ address bucket, m.heap address = some bucket →
    bucket.deferredSessions ⊆ bucket.sessions
  running : ∀ address bucket, m.heap address = some bucket →
    m.timers bucket.timer = some ⟨false, toInt (bucket.key.1 * 1000), true⟩
  fresh : ∀ address, m.unused ≤ address → m.heap address = none ∧ m.timers address = none

structure Kept (m : Manager Session Url) : Prop where
  linked : m.Linked
  occupied : ∀ address bucket, m.heap address = some bucket → bucket.sessions.Nonempty

variable {m : Manager Session Url} {address : Nat} {bucket : Bucket Session Url} {hs : Session}

omit [DecidableEq Session] [DecidableEq Url] in
theorem new_kept : (new : Manager Session Url).Kept := by
  refine ⟨⟨?_, ?_, ?_, ?_, ?_, ?_⟩, ?_⟩ <;> simp [Indexed, new]

omit [DecidableEq Session] [DecidableEq Url] in
theorem Linked.put (linked : m.Linked) (stored : m.heap address = some bucket)
    (sessions deferredSessions : Finset Session) (deferred : deferredSessions ⊆ sessions)
    {bySession : Session → Option Nat}
    (indexed : Indexed (fun bucket hs => hs ∈ bucket.sessions)
      (update m.heap address (some ⟨bucket.key, sessions, deferredSessions, bucket.timer⟩))
      bySession) :
    Linked { m with
      heap := update m.heap address
        (some ⟨bucket.key, sessions, deferredSessions, bucket.timer⟩)
      bucketsBySession := bySession } := by
  refine ⟨indexed, ?_, ?_, ?_, ?_, ?_⟩
  · exact linked.byKey.replace stored fun _ => Iff.rfl
  · exact linked.byTimer.replace stored fun _ => Iff.rfl
  · intro a b found
    rcases update_eq_some found with ⟨_, same⟩ | ⟨_, found⟩
    · cases same
      exact deferred
    · exact linked.deferred a b found
  · intro a b found
    rcases update_eq_some found with ⟨_, same⟩ | ⟨_, found⟩
    · cases same
      exact linked.running address bucket stored
    · exact linked.running a b found
  · intro a past
    have notHere : a ≠ address := by
      rintro rfl
      rw [(linked.fresh a past).1] at stored
      cases stored
    exact ⟨(update_of_ne notHere ..).trans (linked.fresh a past).1,
      (linked.fresh a past).2⟩

theorem update_none_of_none {β : Type} {store : Nat → Option β} {a : Nat} (absent : store a = none)
    (b : Nat) : update store b none a = none := by
  by_cases same : a = b
  · rw [same, update_self]
  · rw [update_of_ne same, absent]

theorem removeBucket_eq (stored : m.heap address = some bucket) :
    m.removeBucket address = some { m with
      bucketsBySession := fun hs => if hs ∈ bucket.sessions then none else m.bucketsBySession hs
      bucketsByTimer := update m.bucketsByTimer bucket.timer none
      buckets := update m.buckets bucket.key none
      timers := update m.timers bucket.timer none
      heap := update m.heap address none } := by
  rw [removeBucket, stored]
  rfl

theorem removeBucket_spec (linked : m.Linked) (stored : m.heap address = some bucket) :
    ∃ next, m.removeBucket address = some next ∧ next.Linked ∧ next.unused = m.unused ∧
      next.heap = update m.heap address none ∧
      next.bucketsBySession =
        (fun hs => if hs ∈ bucket.sessions then none else m.bucketsBySession hs) ∧
      (∀ key, m.buckets key = none → next.buckets key = none) := by
  refine ⟨_, removeBucket_eq stored, ⟨?_, ?_, ?_, ?_, ?_, ?_⟩, rfl, rfl, rfl, ?_⟩
  · exact linked.bySession.free stored (fun hs held => if_pos held) fun hs other => if_neg other
  · refine linked.byKey.free stored ?_ ?_
    · rintro key rfl
      exact update_self ..
    · intro key other
      exact update_of_ne (Ne.symm other) ..
  · refine linked.byTimer.free stored ?_ ?_
    · rintro timer rfl
      exact update_self ..
    · intro timer other
      exact update_of_ne (Ne.symm other) ..
  · intro a b found
    rcases update_eq_some found with ⟨_, absurd⟩ | ⟨_, found⟩
    · cases absurd
    · exact linked.deferred a b found
  · intro a b found
    rcases update_eq_some found with ⟨_, absurd⟩ | ⟨other, found⟩
    · cases absurd
    · -- the freed timer is not the timer of another bucket
      have notTimer : b.timer ≠ bucket.timer := fun sameTimer =>
        other (linked.byTimer.unique found rfl stored sameTimer.symm)
      exact (update_of_ne notTimer ..).trans (linked.running a b found)
  · intro a past
    exact ⟨update_none_of_none (linked.fresh a past).1 _,
      update_none_of_none (linked.fresh a past).2 _⟩
  · intro key absent
    by_cases same : key = bucket.key
    · rw [same]
      exact update_self ..
    · exact (update_of_ne same ..).trans absent

omit [DecidableEq Url] in
theorem leave_linked (linked : m.Linked) (stored : m.heap address = some bucket)
    (held : hs ∈ bucket.sessions) : Linked { m with
      heap := update m.heap address
        (some ⟨bucket.key, bucket.sessions.erase hs, bucket.deferredSessions.erase hs,
          bucket.timer⟩)
      bucketsBySession := update m.bucketsBySession hs none } := by
  refine linked.put stored _ _
    (Finset.erase_subset_erase hs (linked.deferred address bucket stored)) ?_
  refine linked.bySession.put address _ ?_ ?_ ?_ ?_
  · rintro record key isNew heldNew
    cases isNew
    obtain ⟨other, heldOld⟩ := Finset.mem_erase.mp heldNew
    rw [update_of_ne other]
    exact linked.bySession.listed stored heldOld
  · rintro key notNew ⟨record, storedRecord, heldOld⟩
    rw [stored] at storedRecord
    cases storedRecord
    have same : key = hs := by
      by_contra other
      exact notNew _ rfl (Finset.mem_erase.mpr ⟨other, heldOld⟩)
    rw [same, update_self]
  · intro key _ notOld
    refine update_of_ne ?_ ..
    rintro rfl
    exact notOld ⟨bucket, stored, held⟩
  · rintro record key isNew heldNew other foundOther
    cases isNew
    have heldOld := (Finset.mem_erase.mp heldNew).2
    exact Option.some.inj (foundOther.symm.trans (linked.bySession.listed stored heldOld))

omit [DecidableEq Url] in
theorem Kept.without_other (kept : m.Kept) (stored : m.heap address = some bucket)
    (notHeld : hs ∉ bucket.sessions) : bucket.without hs = some bucket := by
  have notDeferred := fun mem => notHeld (kept.linked.deferred address bucket stored mem)
  rw [Bucket.without, Finset.erase_eq_of_notMem notHeld, Finset.erase_eq_of_notMem notDeferred,
    if_neg (kept.occupied address bucket stored).ne_empty]

theorem unregisterSession_spec (kept : m.Kept) (hs : Session) :
    ∃ next, m.unregisterSession hs = some next ∧ next.Kept ∧ next.bucketsBySession hs = none ∧
      next.heap = (fun a => (m.heap a).bind fun bucket => bucket.without hs) ∧
      ∀ key, m.buckets key = none → next.buckets key = none := by
  unfold unregisterSession
  cases found : m.bucketsBySession hs with
  | none =>
    refine ⟨m, rfl, kept, found, ?_, fun key absent => absent⟩
    funext a
    cases stored : m.heap a with
    | none => rfl
    | some bucket =>
      refine (kept.without_other stored fun held => ?_).symm
      rw [kept.linked.bySession.listed stored held] at found
      cases found
  | some address =>
    obtain ⟨bucket, stored, held⟩ := kept.linked.bySession.find found
    have linked := leave_linked kept.linked stored held
    have others : ∀ a, a ≠ address →
        m.heap a = (m.heap a).bind fun bucket => bucket.without hs := by
      intro a other
      cases storedA : m.heap a with
      | none => rfl
      | some b =>
        exact (kept.without_other storedA fun heldB =>
          other (kept.linked.bySession.unique storedA heldB stored held)).symm
    simp only [stored, Option.bind_eq_bind, Option.bind_some]
    split_ifs with empty
    · obtain ⟨next, removed, linkedNext, _, heap, bySession, byKey⟩ :=
        removeBucket_spec linked (update_self address _ m.heap)
      rw [Function.update_idem] at heap
      refine ⟨next, removed, ⟨linkedNext, ?_⟩, ?_, ?_, byKey⟩
      · intro a b foundB
        rw [heap] at foundB
        rcases update_eq_some foundB with ⟨_, absurd⟩ | ⟨_, foundB⟩
        · cases absurd
        · exact kept.occupied a b foundB
      · rw [bySession]
        simp only [update_self, ite_self]
      · rw [heap]
        funext a
        by_cases same : a = address
        · rw [same, update_self, stored, Option.bind_some, Bucket.without, if_pos empty]
        · rw [update_of_ne same, ← others a same]
    · refine ⟨_, rfl, ⟨linked, ?_⟩, update_self .., ?_, fun key absent => absent⟩
      · intro a b foundB
        rcases update_eq_some foundB with ⟨_, same⟩ | ⟨_, foundB⟩
        · cases same
          exact Finset.nonempty_iff_ne_empty.mpr empty
        · exact kept.occupied a b foundB
      · funext a
        dsimp only
        by_cases same : a = address
        · rw [same, update_self, stored, Option.bind_some, Bucket.without, if_neg empty]
        · rw [update_of_ne same, ← others a same]

omit [DecidableEq Url] in
theorem join_spec (kept : m.Kept) (stored : m.heap address = some bucket)
    (outside : m.bucketsBySession hs = none) : ∃ next, m.join address hs = some next ∧ next.Kept ∧
      next.heap = update m.heap address
        (some { bucket with sessions := insert hs bucket.sessions }) := by
  refine ⟨_, by rw [join, stored]; rfl, ⟨?_, ?_⟩, rfl⟩
  · refine kept.linked.put stored _ _
      ((kept.linked.deferred address bucket stored).trans (Finset.subset_insert hs _)) ?_
    refine kept.linked.bySession.put address _ ?_ ?_ ?_ ?_
    · rintro record key isNew heldNew
      cases isNew
      rcases Finset.mem_insert.mp heldNew with rfl | heldOld
      · exact update_self ..
      · refine (update_of_ne ?_ ..).trans (kept.linked.bySession.listed stored heldOld)
        rintro rfl
        rw [kept.linked.bySession.listed stored heldOld] at outside
        cases outside
    · rintro key notNew ⟨record, storedRecord, heldOld⟩
      rw [stored] at storedRecord
      cases storedRecord
      exact (notNew _ rfl (Finset.mem_insert_of_mem heldOld)).elim
    · intro key notNew _
      refine update_of_ne ?_ ..
      rintro rfl
      exact notNew _ rfl (Finset.mem_insert_self key _)
    · rintro record key isNew heldNew other foundOther
      cases isNew
      rcases Finset.mem_insert.mp heldNew with rfl | heldOld
      · rw [outside] at foundOther
        cases foundOther
      · exact Option.some.inj (foundOther.symm.trans (kept.linked.bySession.listed stored heldOld))
  · intro a b foundB
    rcases update_eq_some foundB with ⟨_, same⟩ | ⟨_, foundB⟩
    · cases same
      exact Finset.insert_nonempty hs _
    · exact kept.occupied a b foundB

theorem open_kept (kept : m.Kept) {key : Int × Url} (absent : m.buckets key = none)
    (outside : m.bucketsBySession hs = none) : (m.open_ key hs).Kept := by
  have free := (kept.linked.fresh m.unused le_rfl).1
  have timerFree : ∀ a b, m.heap a = some b → b.timer ≠ m.unused := by
    intro a b found sameTimer
    have running := kept.linked.running a b found
    rw [sameTimer, (kept.linked.fresh m.unused le_rfl).2] at running
    cases running
  refine ⟨⟨?_, ?_, ?_, ?_, ?_, ?_⟩, ?_⟩
  · refine kept.linked.bySession.allocate free ?_ ?_
    · intro key held
      rw [Finset.mem_singleton.mp held]
      exact ⟨outside, update_self ..⟩
    · intro key other
      exact update_of_ne (fun same => other (Finset.mem_singleton.mpr same)) ..
  · refine kept.linked.byKey.allocate free ?_ ?_
    · rintro k rfl
      exact ⟨absent, update_self ..⟩
    · intro k other
      exact update_of_ne (Ne.symm other) ..
  · refine kept.linked.byTimer.allocate free ?_ ?_
    · rintro timer rfl
      refine ⟨?_, update_self ..⟩
      cases found : m.bucketsByTimer m.unused with
      | none => rfl
      | some a =>
        obtain ⟨b, storedB, sameTimer⟩ := kept.linked.byTimer.find found
        exact (timerFree a b storedB sameTimer).elim
    · intro timer other
      exact update_of_ne (Ne.symm other) ..
  · intro a b found
    rcases update_eq_some found with ⟨_, same⟩ | ⟨_, found⟩
    · cases same
      exact Finset.empty_subset _
    · exact kept.linked.deferred a b found
  · intro a b found
    rcases update_eq_some found with ⟨_, same⟩ | ⟨_, found⟩
    · cases same
      exact update_self ..
    · exact (update_of_ne (timerFree a b found) ..).trans (kept.linked.running a b found)
  · intro a past
    have other : a ≠ m.unused := by
      rintro rfl
      exact Nat.not_succ_le_self _ past
    have earlier := kept.linked.fresh a ((Nat.le_succ m.unused).trans past)
    exact ⟨(update_of_ne other ..).trans earlier.1,
      (update_of_ne other ..).trans earlier.2⟩
  · intro a b found
    rcases update_eq_some found with ⟨_, same⟩ | ⟨_, found⟩
    · cases same
      exact Finset.singleton_nonempty hs
    · exact kept.occupied a b found

/-- The session is in a bucket with this timer, and the next expiry updates it. -/
def Waiting (m : Manager Session Url) (address timer : Nat) (hs : Session) : Prop :=
  ∃ bucket, m.heap address = some bucket ∧ bucket.timer = timer ∧ hs ∈ bucket.sessions ∧
    hs ∉ bucket.deferredSessions

theorem unregisterSession_waiting (kept : m.Kept) {timer : Nat} {other : Session}
    (waiting : m.Waiting address timer hs) (different : other ≠ hs) {next : Manager Session Url}
    (done : m.unregisterSession other = some next) :
    next.Waiting address timer hs := by
  obtain ⟨bucket, stored, sameTimer, held, notDeferred⟩ := waiting
  obtain ⟨_, done', _, _, heap, _⟩ := unregisterSession_spec kept other
  rw [done] at done'
  cases done'
  have stays : hs ∈ bucket.sessions.erase other := Finset.mem_erase.mpr ⟨different.symm, held⟩
  have shrunk : next.heap address = some { bucket with
      sessions := bucket.sessions.erase other
      deferredSessions := bucket.deferredSessions.erase other } := by
    simp only [heap, stored, Option.bind_some, Bucket.without,
      if_neg (Finset.ne_empty_of_mem stays)]
  exact ⟨_, shrunk, sameTimer, stays, fun mem => notDeferred (Finset.mem_of_mem_erase mem)⟩

omit [DecidableEq Url] in
theorem join_waiting {timer : Nat} {place : Nat} {other : Session} (kept : m.Kept)
    (stored : m.heap place = some bucket) (outside : m.bucketsBySession other = none)
    (waiting : m.Waiting address timer hs) {next : Manager Session Url}
    (done : m.join place other = some next) :
    next.Waiting address timer hs := by
  obtain ⟨_, done', _, heap⟩ := join_spec kept stored outside
  rw [done] at done'
  cases done'
  obtain ⟨b, storedB, sameTimer, held, notDeferred⟩ := waiting
  by_cases same : address = place
  · rw [same, stored] at storedB
    cases storedB
    have here : next.heap address =
        some { bucket with sessions := insert other bucket.sessions } := by
      rw [heap, same, update_self]
    exact ⟨_, here, sameTimer, Finset.mem_insert_of_mem held, notDeferred⟩
  · exact ⟨b, by rw [heap, update_of_ne same, storedB], sameTimer, held, notDeferred⟩

theorem open_waiting {timer : Nat} {key : Int × Url} {other : Session} (kept : m.Kept)
    (waiting : m.Waiting address timer hs) : (m.open_ key other).Waiting address timer hs := by
  obtain ⟨b, storedB, sameTimer, held, notDeferred⟩ := waiting
  refine ⟨b, (update_of_ne ?_ ..).trans storedB, sameTimer, held, notDeferred⟩
  rintro rfl
  rw [(kept.linked.fresh m.unused le_rfl).1] at storedB
  cases storedB

omit [DecidableEq Url] in
theorem defer_kept (kept : m.Kept) (stored : m.heap address = some bucket)
    (held : hs ∈ bucket.sessions) : Kept { m with
      heap := update m.heap address
        (some { bucket with deferredSessions := insert hs bucket.deferredSessions }) } := by
  refine ⟨kept.linked.put stored bucket.sessions (insert hs bucket.deferredSessions) ?_ ?_, ?_⟩
  · exact Finset.insert_subset held (kept.linked.deferred address bucket stored)
  · exact kept.linked.bySession.replace stored fun _ => Iff.rfl
  · intro a b found
    rcases update_eq_some found with ⟨_, same⟩ | ⟨_, found⟩
    · cases same
      exact kept.occupied address bucket stored
    · exact kept.occupied a b found

def registration (bucket : Bucket Session Url) (hs : Session) : Option (Registration Url) :=
  if hs ∈ bucket.sessions then some ⟨bucket.key, decide (hs ∈ bucket.deferredSessions)⟩ else none

def Holds (m : Manager Session Url) (hs : Session) (r : Registration Url) : Prop :=
  ∃ address, ((m.heap address).bind fun bucket => registration bucket hs) = some r

def Represents (m : Manager Session Url) (l : Ledger Session Url) : Prop :=
  ∀ hs r, l hs = some r ↔ m.Holds hs r

variable {next : Manager Session Url} {l : Ledger Session Url} {r : Registration Url}
  {key : Int × Url}

omit [DecidableEq Url]

theorem holds_iff : m.Holds hs r ↔ ∃ address bucket, m.heap address = some bucket ∧
    bucket.key = r.key ∧ hs ∈ bucket.sessions ∧
      (hs ∈ bucket.deferredSessions ↔ r.deferred = true) := by
  obtain ⟨key, deferred⟩ := r
  constructor
  · rintro ⟨address, found⟩
    obtain ⟨bucket, stored, read⟩ := Option.bind_eq_some_iff.mp found
    rw [registration] at read
    split_ifs at read with held
    cases read
    exact ⟨address, bucket, stored, rfl, held, by simp⟩
  · rintro ⟨address, bucket, stored, rfl, held, same⟩
    refine ⟨address, ?_⟩
    rw [stored, Option.bind_some, registration, if_pos held]
    congr 2
    cases deferred
    · simpa using same
    · simpa using same

theorem holds_update {value : Option (Bucket Session Url)} (linked : m.Linked)
    (heap : next.heap = update m.heap address value) :
    next.Holds hs r ↔ (value.bind fun bucket => registration bucket hs) = some r ∨
      (∀ bucket, m.heap address = some bucket → hs ∉ bucket.sessions) ∧ m.Holds hs r := by
  have held : ∀ {bucket : Bucket Session Url}, registration bucket hs = some r →
      hs ∈ bucket.sessions := by
    intro bucket read
    rw [registration] at read
    split_ifs at read with held
    exact held
  unfold Holds
  rw [heap]
  constructor
  · rintro ⟨a, found⟩
    by_cases same : a = address
    · rw [same, update_self] at found
      exact .inl found
    · rw [update_of_ne same] at found
      refine .inr ⟨fun bucket stored heldHere => same ?_, a, found⟩
      obtain ⟨b, storedB, read⟩ := Option.bind_eq_some_iff.mp found
      exact linked.bySession.unique storedB (held read) stored heldHere
  · rintro (found | ⟨notHere, a, found⟩)
    · exact ⟨address, by rw [update_self]; exact found⟩
    · refine ⟨a, ?_⟩
      rw [update_of_ne]
      · exact found
      · rintro rfl
        obtain ⟨b, storedB, read⟩ := Option.bind_eq_some_iff.mp found
        exact notHere b storedB (held read)

theorem holds_stored (linked : m.Linked) (stored : m.heap address = some bucket) :
    m.Holds hs r ↔ registration bucket hs = some r ∨ hs ∉ bucket.sessions ∧ m.Holds hs r := by
  have same : m.heap = update m.heap address (some bucket) := by
    rw [← stored, Function.update_eq_self]
  refine (holds_update linked same).trans (or_congr Iff.rfl (and_congr_left fun _ => ?_))
  exact ⟨fun all => all bucket stored, fun notHeld b found => by
    rw [stored] at found
    cases found
    exact notHeld⟩

theorem Holds.outside (linked : m.Linked) (stored : m.heap address = some bucket)
    (notHeld : hs ∉ bucket.sessions) (holds : m.Holds hs r) : r.key ≠ bucket.key := by
  intro same
  obtain ⟨a, b, storedB, sameKey, held, -⟩ := holds_iff.mp holds
  cases linked.byKey.unique storedB (sameKey.trans same) stored rfl
  rw [stored] at storedB
  cases storedB
  exact notHeld held

theorem without_registration (bucket : Bucket Session Url) (hs other : Session) :
    ((bucket.without hs).bind fun b => registration b other) =
      if other = hs then none else registration bucket other := by
  have mem : other ∈ bucket.sessions.erase hs ↔ other ≠ hs ∧ other ∈ bucket.sessions :=
    Finset.mem_erase
  rw [Bucket.without]
  split_ifs with empty same same
  · rfl
  · rw [empty] at mem
    have notHeld : other ∉ bucket.sessions :=
      fun held => Finset.notMem_empty other (mem.mpr ⟨same, held⟩)
    rw [registration, if_neg notHeld]
    rfl
  · rw [Option.bind_some, registration, if_neg (fun held => (mem.mp held).1 same)]
  · simp only [Option.bind_some, registration, mem, same, Finset.mem_erase, ne_eq,
      not_false_eq_true, true_and]

theorem Represents.unregister (represents : m.Represents l)
    (heap : next.heap = fun a => (m.heap a).bind fun bucket => bucket.without hs) :
    next.Represents (l.unregister hs) := by
  intro other r
  have read : ∀ a, ((next.heap a).bind fun bucket => registration bucket other) =
      if other = hs then none else (m.heap a).bind fun bucket => registration bucket other := by
    intro a
    rw [heap, Option.bind_assoc]
    simp only [without_registration]
    split_ifs
    · cases m.heap a <;> rfl
    · rfl
  simp only [Holds, read, Ledger.unregister, Function.update_apply]
  split_ifs
  · simp
  · exact represents other r

theorem Represents.take_place (represents : m.Represents l) (linked : m.Linked)
    {new : Bucket Session Url} (heap : next.heap = update m.heap address (some new))
    (taken : registration new hs = some r)
    (here : ∀ r, l hs = some r → ∃ bucket, m.heap address = some bucket ∧ hs ∈ bucket.sessions)
    (others : ∀ other, other ≠ hs → registration new other =
      (m.heap address).bind fun bucket => registration bucket other) :
    next.Represents (update l hs (some r)) := by
  intro other r'
  rw [holds_update linked heap, Option.bind_some, Function.update_apply]
  split_ifs with same
  · rw [same, taken]
    refine ⟨.inl, fun found => found.resolve_right ?_⟩
    rintro ⟨notHere, holds⟩
    obtain ⟨bucket, stored, held⟩ := here r' ((represents hs r').mpr holds)
    exact notHere bucket stored held
  · rw [represents other r', others other same]
    cases stored : m.heap address with
    | none => simp
    | some bucket => simpa using holds_stored linked stored

theorem registered_in (represents : m.Represents l) (linked : m.Linked)
    (stored : m.heap address = some bucket) (held : hs ∈ bucket.sessions) :
    l hs = some ⟨bucket.key, decide (hs ∈ bucket.deferredSessions)⟩ := by
  rw [represents, holds_stored linked stored, registration, if_pos held]
  exact .inl rfl

variable [DecidableEq Url]

theorem register_new {resetTimeout : Bool} (elsewhere : ∀ r, l hs = some r → r.key ≠ key) :
    l.register hs key resetTimeout = update (l.unregister hs) hs (some ⟨key, false⟩) := by
  rw [Ledger.register, Ledger.unregister, Function.update_idem]
  cases found : l hs with
  | none => rfl
  | some r => simp only [if_neg (elsewhere r found)]

theorem registerSession_spec (withoutQuery : Url → Url) (kept : m.Kept) (hs : Session)
    (timeout : Int) (uri : Url) (resetTimeout : Bool) :
    ∃ next, m.registerSession withoutQuery hs timeout uri resetTimeout = some next ∧ next.Kept ∧
      (∀ l, m.Represents l →
      next.Represents (l.register hs (timeout, withoutQuery uri) resetTimeout)) ∧
      ∀ address timer other, other ≠ hs → m.Waiting address timer other →
        next.Waiting address timer other := by
  unfold registerSession
  cases found : m.buckets (timeout, withoutQuery uri) with
  | some address =>
    obtain ⟨bucket, stored, sameKey⟩ := kept.linked.byKey.find found
    simp only [found, stored, Option.bind_eq_bind, Option.bind_some]
    split_ifs with held reset
    · refine ⟨_, rfl, defer_kept kept stored held, ?_, ?_⟩
      · intro l represents
        have registered := registered_in represents kept.linked stored held
        rw [Ledger.register, registered, ← sameKey]
        dsimp only
        rw [if_pos rfl, reset, Bool.or_true]
        refine represents.take_place kept.linked rfl ?_ (fun _ _ => ⟨bucket, stored, held⟩) ?_
        · simp [registration, held]
        · intro other different
          simp [stored, registration, different]
      · rintro a timer other different ⟨b, storedB, sameTimer, heldB, notDeferred⟩
        by_cases same : a = address
        · rw [same, stored] at storedB
          cases storedB
          subst same
          refine ⟨_, update_self .., sameTimer, heldB, ?_⟩
          intro mem
          rcases Finset.mem_insert.mp mem with isSelf | mem
          · exact different isSelf
          · exact notDeferred mem
        · exact ⟨b, (update_of_ne same ..).trans storedB, sameTimer, heldB, notDeferred⟩
    · refine ⟨m, rfl, kept, ?_, fun _ _ _ _ waiting => waiting⟩
      intro l represents
      have registered := registered_in represents kept.linked stored held
      rw [Ledger.register, registered, ← sameKey]
      dsimp only
      rw [if_pos rfl, Bool.eq_false_iff.mpr reset, Bool.or_false, ← registered,
        Function.update_eq_self]
      exact represents
    · obtain ⟨left, done, keptLeft, outside, heap, _⟩ := unregisterSession_spec kept hs
      have storedLeft : left.heap address = some bucket := by
        simp only [heap, stored, Option.bind_some, kept.without_other stored held]
      obtain ⟨next, joined, keptNext, heapNext⟩ := join_spec keptLeft storedLeft outside
      have notDeferred : hs ∉ bucket.deferredSessions :=
        fun mem => held (kept.linked.deferred address bucket stored mem)
      refine ⟨next, by rw [done]; exact joined, keptNext, ?_, ?_⟩
      · intro l represents
        rw [register_new fun r is => sameKey ▸
          (((represents hs r).mp is).outside kept.linked stored held)]
        refine (represents.unregister heap).take_place keptLeft.linked heapNext ?_ ?_ ?_
        · simp [registration, sameKey, notDeferred]
        · simp [Ledger.unregister]
        · intro other different
          simp [storedLeft, registration, different]
      · intro a timer other different waiting
        exact join_waiting keptLeft storedLeft outside
          (unregisterSession_waiting kept waiting different.symm done) joined
  | none =>
    obtain ⟨left, done, keptLeft, outside, heap, absent⟩ := unregisterSession_spec kept hs
    refine ⟨left.open_ (timeout, withoutQuery uri) hs, by simp [found, done], ?_, ?_, ?_⟩
    · exact open_kept keptLeft (absent _ found) outside
    · intro l represents
      have elsewhere : ∀ r, l hs = some r → r.key ≠ (timeout, withoutQuery uri) := by
        rintro r is same
        obtain ⟨a, b, storedB, sameKey, -⟩ := holds_iff.mp ((represents hs r).mp is)
        rw [kept.linked.byKey.listed storedB (sameKey.trans same)] at found
        cases found
      rw [register_new elsewhere]
      refine (represents.unregister heap).take_place keptLeft.linked rfl ?_ ?_ ?_
      · simp [registration]
      · simp [Ledger.unregister]
      · intro other different
        simp [(keptLeft.linked.fresh left.unused le_rfl).1, registration, different]
    · intro a timer other different waiting
      exact open_waiting keptLeft (unregisterSession_waiting kept waiting different.symm done)

omit [DecidableEq Url] in
theorem split_kept (kept : m.Kept) (stored : m.heap address = some bucket)
    (some_deferred : bucket.deferredSessions ≠ ∅) : Kept { m with
      bucketsBySession := fun hs =>
        if hs ∈ bucket.sessions.filter (· ∉ bucket.deferredSessions) then none
          else m.bucketsBySession hs
      heap := update m.heap address
        (some { bucket with sessions := bucket.deferredSessions, deferredSessions := ∅ }) } := by
  have within := kept.linked.deferred address bucket stored
  refine ⟨kept.linked.put stored bucket.deferredSessions ∅ (Finset.empty_subset _) ?_, ?_⟩
  · refine kept.linked.bySession.put address _ ?_ ?_ ?_ ?_
    · rintro record key isNew held
      cases isNew
      have notUpdated : key ∉ bucket.sessions.filter (· ∉ bucket.deferredSessions) :=
        fun mem => (Finset.mem_filter.mp mem).2 held
      rw [if_neg notUpdated]
      exact kept.linked.bySession.listed stored (within held)
    · rintro key notNew ⟨record, storedRecord, held⟩
      rw [stored] at storedRecord
      cases storedRecord
      exact if_pos (Finset.mem_filter.mpr ⟨held, notNew _ rfl⟩)
    · intro key _ notOld
      exact if_neg fun mem => notOld ⟨bucket, stored, (Finset.mem_filter.mp mem).1⟩
    · rintro record key isNew held other found
      cases isNew
      exact Option.some.inj (found.symm.trans (kept.linked.bySession.listed stored (within held)))
  · intro a b found
    rcases update_eq_some found with ⟨_, same⟩ | ⟨_, found⟩
    · cases same
      exact Finset.nonempty_iff_ne_empty.mpr some_deferred
    · exact kept.occupied a b found

/-- At the expiry of a bucket exactly its sessions that are not deferred are
    updated. The deferred ones stay, and the bucket is gone if there are none. -/
theorem timerFires_spec (kept : m.Kept) (stored : m.heap address = some bucket) :
    ∃ next, m.timerFires bucket.timer = some (next, bucket.sessions \ bucket.deferredSessions) ∧
      next.Kept ∧
      next.heap = update m.heap address (if bucket.deferredSessions = ∅ then none
        else some { bucket with sessions := bucket.deferredSessions, deferredSessions := ∅ }) := by
  have running := kept.linked.running address bucket stored
  -- the timer starts itself again, so that the timers are as before
  have again : update m.timers bucket.timer
      (some (Timer.timerReady ⟨false, toInt (bucket.key.1 * 1000), true⟩)) = m.timers := by
    rw [show Timer.timerReady ⟨false, toInt (bucket.key.1 * 1000), true⟩ =
      ⟨false, toInt (bucket.key.1 * 1000), true⟩ from rfl, ← running, Function.update_eq_self]
  have started : update m.timers bucket.timer ((m.timers bucket.timer).map Timer.start) =
      m.timers := by
    rw [running]
    exact again
  rw [timerFires, running]
  simp only [if_true, again, timerTimeout, kept.linked.byTimer.listed stored rfl, stored,
    Option.bind_eq_bind, Option.bind_some]
  by_cases none_deferred : bucket.deferredSessions = ∅
  · obtain ⟨next, removed, linked, _, heap, _, _⟩ := removeBucket_spec kept.linked stored
    refine ⟨next, ?_, ⟨linked, ?_⟩, ?_⟩
    · rw [none_deferred, Finset.sdiff_empty, if_neg (by simp), removed]
      rfl
    · intro a b found
      rw [heap] at found
      rcases update_eq_some found with ⟨_, absurd⟩ | ⟨_, found⟩
      · cases absurd
      · exact kept.occupied a b found
    · rw [heap, if_pos none_deferred]
  · refine ⟨_, ?_, split_kept kept stored none_deferred, ?_⟩
    · rw [if_pos none_deferred, started, Finset.filter_notMem_eq_sdiff]
    · rw [if_neg none_deferred]

theorem Represents.expire (represents : m.Represents l) (linked : m.Linked)
    (stored : m.heap address = some bucket)
    (heap : next.heap = update m.heap address (if bucket.deferredSessions = ∅ then none
      else some { bucket with sessions := bucket.deferredSessions, deferredSessions := ∅ })) :
    next.Represents (l.expire bucket.key) := by
  intro hs r
  rw [holds_update linked heap, Ledger.expire]
  by_cases held : hs ∈ bucket.sessions
  · have here : ¬ ∀ b, m.heap address = some b → hs ∉ b.sessions :=
      fun all => all bucket stored held
    rw [registered_in represents linked stored held]
    by_cases put_off : hs ∈ bucket.deferredSessions
    · simp [registration, put_off, here, Finset.ne_empty_of_mem put_off]
    · have none_here : ∀ value : Option (Bucket Session Url),
          (value = none ∨ value =
            some { bucket with sessions := bucket.deferredSessions, deferredSessions := ∅ }) →
          (value.bind fun b => registration b hs) = none := by
        rintro value (rfl | rfl) <;> simp [registration, put_off]
      rw [none_here _ (by split_ifs <;> simp)]
      simp [put_off, here]
  · have outside : ∀ b, m.heap address = some b → hs ∉ b.sessions := by
      intro b storedB
      rw [stored] at storedB
      cases storedB
      exact held
    have not_put_off : hs ∉ bucket.deferredSessions :=
      fun mem => held (linked.deferred address bucket stored mem)
    have unread : ((if bucket.deferredSessions = ∅ then none
        else some { bucket with sessions := bucket.deferredSessions, deferredSessions := ∅ }).bind
        fun b => registration b hs) = none := by
      split_ifs <;> simp [registration, not_put_off]
    rw [unread, ← represents hs r]
    cases found : l hs with
    | none => simp
    | some r' =>
      have other := ((represents hs r').mp found).outside linked stored held
      simpa [other] using fun _ => outside

theorem timerFires_unknown (kept : m.Kept) {timer : Nat} (unknown : m.bucketsByTimer timer = none) :
    ∃ next, m.timerFires timer = some (next, ∅) ∧ next.Kept ∧ next.heap = m.heap := by
  unfold timerFires
  cases found : m.timers timer with
  | none => exact ⟨m, rfl, kept, rfl⟩
  | some t =>
    dsimp only
    split_ifs with active
    · refine ⟨{ m with timers := update m.timers timer (some t.timerReady) }, ?_,
        ⟨⟨kept.linked.bySession,
        kept.linked.byKey, kept.linked.byTimer, kept.linked.deferred, ?_, ?_⟩, kept.occupied⟩, rfl⟩
      · simp only [timerTimeout, unknown]
      · intro a b stored
        refine (update_of_ne ?_ ..).trans (kept.linked.running a b stored)
        rintro rfl
        rw [kept.linked.byTimer.listed stored rfl] at unknown
        cases unknown
      · intro a past
        refine ⟨(kept.linked.fresh a past).1,
          (update_of_ne ?_ ..).trans (kept.linked.fresh a past).2⟩
        rintro rfl
        rw [(kept.linked.fresh a past).2] at found
        cases found
    · exact ⟨m, rfl, kept, rfl⟩

theorem timerFires_waiting (kept : m.Kept) {timer other : Nat} (different : other ≠ timer)
    {next : Manager Session Url} {updated : Finset Session}
    (done : m.timerFires other = some (next, updated))
    (waiting : m.Waiting address timer hs) : next.Waiting address timer hs := by
  obtain ⟨b, storedB, sameTimer, held, notDeferred⟩ := waiting
  cases found : m.bucketsByTimer other with
  | none =>
    obtain ⟨_, done', _, heap⟩ := timerFires_unknown kept found
    rw [done] at done'
    cases done'
    exact ⟨b, heap ▸ storedB, sameTimer, held, notDeferred⟩
  | some place =>
    obtain ⟨bucket, stored, rfl⟩ := kept.linked.byTimer.find found
    obtain ⟨_, done', _, heap⟩ := timerFires_spec kept stored
    rw [done] at done'
    cases done'
    have elsewhere : address ≠ place := by
      rintro rfl
      rw [stored] at storedB
      cases storedB
      exact different sameTimer
    exact ⟨b, by rw [heap, update_of_ne elsewhere, storedB], sameTimer, held, notDeferred⟩

section
variable (withoutQuery : Url → Url) (kept : m.Kept)
include withoutQuery kept

theorem step_spec (event : Event Session Url) :
    ∃ next, m.step withoutQuery event = some next ∧ next.Kept ∧
      (∀ l, m.Represents l → next.Represents (m.record withoutQuery l event)) ∧
      ∀ address timer hs, ¬ event.concerns hs timer → m.Waiting address timer hs →
        next.Waiting address timer hs := by
  cases event with
  | registerSession hs timeout uri resetTimeout =>
    obtain ⟨next, done, keptNext, represents, others⟩ :=
      registerSession_spec withoutQuery kept hs timeout uri resetTimeout
    refine ⟨next, by rw [step, handle, done]; rfl, keptNext, represents, ?_⟩
    intro address timer other apart waiting
    exact others address timer other (fun same => apart same.symm) waiting
  | unregisterSession hs =>
    obtain ⟨next, done, keptNext, _, heap, _⟩ := unregisterSession_spec kept hs
    refine ⟨next, by rw [step, handle, done]; rfl, keptNext,
      fun l represents => represents.unregister heap, ?_⟩
    intro address timer other apart waiting
    exact unregisterSession_waiting kept waiting apart done
  | timerFires other =>
    have fires : ∃ next updated, m.timerFires other = some (next, updated) ∧ next.Kept ∧
        ∀ l, m.Represents l → next.Represents (m.record withoutQuery l (.timerFires other)) := by
      cases found : m.bucketsByTimer other with
      | none =>
        obtain ⟨next, done, keptNext, heap⟩ := timerFires_unknown kept found
        refine ⟨next, _, done, keptNext, fun l represents hs r => ?_⟩
        simp only [record, keyOf, found, Option.bind_none, Option.elim_none, Holds, heap]
        exact represents hs r
      | some place =>
        obtain ⟨bucket, stored, rfl⟩ := kept.linked.byTimer.find found
        obtain ⟨next, done, keptNext, heap⟩ := timerFires_spec kept stored
        refine ⟨next, _, done, keptNext, fun l represents => ?_⟩
        simp only [record, keyOf, found, Option.bind_some, stored, Option.map_some,
          Option.elim_some]
        exact represents.expire kept.linked stored heap
    obtain ⟨next, updated, done, keptNext, represents⟩ := fires
    refine ⟨next, by rw [step, handle, done]; rfl, keptNext, represents, ?_⟩
    intro address timer hs apart waiting
    exact timerFires_waiting kept apart done waiting

theorem run_kept (events : List (Event Session Url)) :
    ∃ last, run (step withoutQuery) m events = some last ∧ last.Kept ∧
      ∀ address timer hs, (∀ event ∈ events, ¬ event.concerns hs timer) →
        m.Waiting address timer hs → last.Waiting address timer hs := by
  induction events generalizing m with
  | nil => exact ⟨m, rfl, kept, fun _ _ _ _ waiting => waiting⟩
  | cons event events ih =>
    obtain ⟨next, stepped, keptNext, _, waits⟩ := step_spec withoutQuery kept event
    obtain ⟨last, ran, keptLast, waitsOn⟩ := ih keptNext
    refine ⟨last, by simp only [run, stepped, Option.bind_some, ran], keptLast, ?_⟩
    intro address timer hs apart waiting
    refine waitsOn address timer hs (fun e mem => apart e (List.mem_cons_of_mem event mem)) ?_
    exact waits address timer hs (apart event List.mem_cons_self) waiting

theorem recorded_run (represents : m.Represents l)
    (events : List (Event Session Url)) :
    ∃ last ledger, run (recorded withoutQuery) (m, l) events = some (last, ledger) ∧
      run (step withoutQuery) m events = some last ∧ last.Kept ∧ last.Represents ledger := by
  induction events generalizing m l with
  | nil => exact ⟨m, l, rfl, rfl, kept, represents⟩
  | cons event events ih =>
    obtain ⟨next, stepped, keptNext, recorded_, _⟩ := step_spec withoutQuery kept event
    obtain ⟨last, ledger, ran, same, keptLast, representsLast⟩ :=
      ih keptNext (recorded_ l represents)
    refine ⟨last, ledger, ?_, ?_, keptLast, representsLast⟩
    · simp only [run, recorded, stepped, Option.map_some, Option.bind_some, ran]
    · simp only [run, stepped, Option.bind_some, same]

end

omit [DecidableEq Url] in
theorem new_represents : (new : Manager Session Url).Represents fun _ => none := by
  simp [Represents, Holds, new]

/-- After any events every session that is registered, by the calls and the expiries so
    far, is in exactly one bucket: that of the key it registered for, among the deferred
    ones if it was put off. The maps are the buckets seen by session, key and timer. At
    the expiry of a bucket exactly its sessions that are not deferred are updated: the
    deferred ones stay in the bucket, and the next expiry updates each of them that no
    call concerns until then. -/
theorem sessions_wait_in_one_bucket (withoutQuery : Url → Url) (events : List (Event Session Url)) :
    ∃ m registered, run (recorded withoutQuery) (new, fun _ => none) events = some (m, registered) ∧
      run (step withoutQuery) new events = some m ∧
      (∀ hs, registered hs ≠ none → ∃! address, ∃ bucket, m.heap address = some bucket ∧
      hs ∈ bucket.sessions) ∧
      (∀ hs r, registered hs = some r ↔ ∃ address bucket, m.heap address = some bucket ∧
        bucket.key = r.key ∧ hs ∈ bucket.sessions ∧
          (hs ∈ bucket.deferredSessions ↔ r.deferred = true)) ∧
      (∀ hs address, m.bucketsBySession hs = some address ↔
        ∃ bucket, m.heap address = some bucket ∧ hs ∈ bucket.sessions) ∧
      (∀ address bucket, m.heap address = some bucket →
        bucket.deferredSessions ⊆ bucket.sessions ∧ bucket.sessions ≠ ∅ ∧
        m.buckets bucket.key = some address ∧ m.bucketsByTimer bucket.timer = some address) ∧
      (∀ key address, m.buckets key = some address → ∃ bucket, m.heap address = some bucket ∧
      bucket.key = key) ∧
      (∀ timer address, m.bucketsByTimer timer = some address →
        ∃ bucket, m.heap address = some bucket ∧ bucket.timer = timer) ∧
      (∀ address bucket, m.heap address = some bucket → ∃ next,
        m.handle withoutQuery (.timerFires bucket.timer) =
          some (next, bucket.sessions \ bucket.deferredSessions) ∧
        (∀ hs, hs ∈ bucket.sessions \ bucket.deferredSessions ↔
        registered hs = some ⟨bucket.key, false⟩) ∧
        (∀ hs ∈ bucket.sessions \ bucket.deferredSessions, next.bucketsBySession hs = none) ∧
        (∀ hs ∈ bucket.deferredSessions,
          next.timers bucket.timer = some ⟨false, toInt (bucket.key.1 * 1000), true⟩ ∧
          ∀ later : List (Event Session Url), (∀ event ∈ later, ¬ event.concerns hs bucket.timer) →
            ∃ last, run (step withoutQuery) next later = some last ∧
              last.bucketsBySession hs = some address ∧
              ∃ final updated, last.handle withoutQuery (.timerFires bucket.timer) =
                some (final, updated) ∧ hs ∈ updated)) := by
  obtain ⟨m, registered, recorded, ran, kept, represents⟩ :=
    recorded_run withoutQuery new_kept new_represents events
  refine ⟨m, registered, recorded, ran, ?_, fun hs r => (represents hs r).trans holds_iff,
    kept.linked.bySession, ?_, ?_, ?_, ?_⟩
  · intro hs isRegistered
    obtain ⟨r, is⟩ := Option.ne_none_iff_exists'.mp isRegistered
    obtain ⟨address, bucket, stored, -, held, -⟩ := holds_iff.mp ((represents hs r).mp is)
    refine ⟨address, ⟨bucket, stored, held⟩, ?_⟩
    rintro other ⟨b, storedB, heldB⟩
    exact kept.linked.bySession.unique storedB heldB stored held
  · intro address bucket stored
    exact ⟨kept.linked.deferred address bucket stored,
      Finset.nonempty_iff_ne_empty.mp (kept.occupied address bucket stored),
      kept.linked.byKey.listed stored rfl, kept.linked.byTimer.listed stored rfl⟩
  · intro key address found
    exact kept.linked.byKey.find found
  · intro timer address found
    exact kept.linked.byTimer.find found
  · intro address bucket stored
    obtain ⟨next, fired, keptNext, heap⟩ := timerFires_spec kept stored
    refine ⟨next, fired, ?_, ?_, ?_⟩
    · intro hs
      rw [Finset.mem_sdiff]
      by_cases held : hs ∈ bucket.sessions
      · simp [registered_in represents kept.linked stored held, held]
      · refine iff_of_false (fun both => held both.1) fun is => ?_
        exact ((represents hs _).mp is).outside kept.linked stored held rfl
    · intro hs mem
      obtain ⟨held, notDeferred⟩ := Finset.mem_sdiff.mp mem
      cases found : next.bucketsBySession hs with
      | none => rfl
      | some place =>
        obtain ⟨b, storedB, heldB⟩ := keptNext.linked.bySession.find found
        rw [heap] at storedB
        rcases update_eq_some storedB with ⟨_, same⟩ | ⟨elsewhere, storedB⟩
        · split_ifs at same
          cases same
          exact (notDeferred heldB).elim
        · exact (elsewhere (kept.linked.bySession.unique storedB heldB stored held)).elim
    · intro hs deferred
      have stays :
          next.heap address = some ⟨bucket.key, bucket.deferredSessions, ∅, bucket.timer⟩ := by
        rw [heap, update_self, if_neg (Finset.ne_empty_of_mem deferred)]
      have running := keptNext.linked.running address _ stays
      refine ⟨running, ?_⟩
      intro later apart
      obtain ⟨last, ranLater, keptLast, waits⟩ := run_kept withoutQuery keptNext later
      obtain ⟨b, storedB, sameTimer, held, notDeferred⟩ :=
        waits address bucket.timer hs apart ⟨_, stays, rfl, deferred, Finset.notMem_empty hs⟩
      obtain ⟨final, firedLast, _, _⟩ := timerFires_spec keptLast storedB
      rw [sameTimer] at firedLast
      exact ⟨last, ranLater, keptLast.linked.bySession.listed storedB held, final, _, firedLast,
        Finset.mem_sdiff.mpr ⟨held, notDeferred⟩⟩

end Manager
end PushpinUpdateManager
