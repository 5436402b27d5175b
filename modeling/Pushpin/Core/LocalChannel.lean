import Pushpin.Foundations.Runs
import Pushpin.Foundations.Slab
import Pushpin.Foundations.WaitList

/-!
`LocalChannel`: a bounded queue with one receiver and several senders. A sender that
finds the queue full joins the wait list, and each value that is taken from the queue
notifies the first sender of the list. A notified sender that gives up passes the
notification on. The futures of `AsyncLocalSender` are polled in any order, any number
of times, each with the value it has.
-/
namespace PushpinLocalChannel
open Slabs
variable {T : Type}

/-- `writable` is what the registration was told and the reactor has not taken yet, and
    `ready` is the reactor's. `interested` is for the sender that found the queue full
    and has not had an answer or given up since. -/
structure LocalSenderData where
  notified : Bool := false
  writable : Bool := false
  ready : Bool := true
  interested : Bool := false
  deriving DecidableEq, Repr

def LocalSenderData.notify (sender : LocalSenderData) : LocalSenderData :=
  { sender with notified := true, writable := true }

/-- Whether the receiver was told is all of `read_set_readiness`. `sent` and `received` are
    the values so far. -/
structure LocalChannel (T : Type) where
  queue : List T
  capacity : Nat
  nodes : Slab LocalSenderData
  waiting : List Nat
  read_set_readiness : Option Bool
  sent : List T := []
  received : List T := []

inductive TrySend (T : Type) where
  | ok
  | disconnected (t : T)
  | full (t : T)

namespace LocalChannel
variable (c : LocalChannel T)

def modify (key : Nat) (f : LocalSenderData → LocalSenderData) : LocalChannel T :=
  { c with
    nodes :=
      match c.nodes.get? key with
      | some sender => c.nodes.insert key (f sender)
      | none => c.nodes }

def tellReceiver : LocalChannel T :=
  { c with read_set_readiness := c.read_set_readiness.map fun _ => true }

def sendersIsEmpty : Bool := c.nodes.isEmpty

def addSender (place : Nat) : Option (LocalChannel T) :=
  if c.nodes.len = c.nodes.capacity then some c
  else if c.nodes.Vacant place then some { c with nodes := c.nodes.insert place {} }
  else none

def removeSender (key : Nat) : LocalChannel T :=
  let c := { c with waiting := c.waiting.erase key, nodes := c.nodes.remove key }
  if c.sendersIsEmpty then c.tellReceiver else c

def setSenderWaiting (key : Nat) : LocalChannel T :=
  { c with waiting := if key ∈ c.waiting then c.waiting else c.waiting ++ [key] }

def notifyOneSender : LocalChannel T :=
  match c.waiting with
  | [] => c
  | key :: waiting =>
    { c with waiting }.modify key LocalSenderData.notify

def senderIsNotified (key : Nat) : Bool := (c.nodes.get? key).any (·.notified)

def clearSenderNotified (key : Nat) : LocalChannel T :=
  c.modify key fun sender => { sender with notified := false }

def setInterested (key : Nat) (interested : Bool) : LocalChannel T :=
  c.modify key fun sender => { sender with interested }

def checkSend (key : Nat) : Bool × LocalChannel T :=
  if c.queue.length < c.capacity then
    (true, c) else (false, (c.setSenderWaiting key).setInterested key true)

def trySend (key : Nat) (t : T) : TrySend T × LocalChannel T :=
  let c := c.clearSenderNotified key
  if c.read_set_readiness.isNone then (.disconnected t, c.setInterested key false)
  else if c.queue.length < c.capacity then
    (.ok, { c with queue := c.queue ++ [t], sent := c.sent ++ [t] }.tellReceiver.setInterested key
      false)
  else (.full t, (c.setSenderWaiting key).setInterested key true)

/-- What `cancel` does about a notification. -/
def passOn (key : Nat) : LocalChannel T :=
  if c.senderIsNotified key then (c.clearSenderNotified key).notifyOneSender else c

def cancel (key : Nat) : LocalChannel T := (c.passOn key).setInterested key false

def tryClone (place : Nat) : Option (LocalChannel T) := c.addSender place

def makeReceiver : LocalChannel T :=
  if c.read_set_readiness.isSome then c else { c with read_set_readiness := some false }

def dropSender (key : Nat) : LocalChannel T := (c.cancel key).removeSender key

def tryRecv : LocalChannel T :=
  match c.queue with
  | [] => c
  | value :: queue => { c with queue, received := c.received ++ [value] }.notifyOneSender

def dropReceiver : LocalChannel T := { c with read_set_readiness := none }.notifyOneSender

def setReady (key : Nat) (ready : Bool) : LocalChannel T :=
  c.modify key fun sender => { sender with ready }

def pollSend (key : Nat) (t : T) (budget : Bool) : LocalChannel T :=
  if (c.nodes.get? key).any (·.ready) ∧ budget then
    match c.trySend key t with
    | (.full _, c) => c.setReady key false
    | (_, c) => c
  else c

def pollSendable (key : Nat) : LocalChannel T :=
  match c.checkSend key with
  | (true, c) => c
  | (false, c) => c.setReady key false

def deliver (key : Nat) : LocalChannel T :=
  c.modify key fun sender => if sender.writable then
    { sender with writable := false, ready := true } else sender

end LocalChannel

def localChannel (T : Type) (bound capacity maxSenders : Nat) : Option (LocalChannel T) :=
  if 0 < bound ∧ bound ≤ capacity ∧ 0 < maxSenders then
    some ⟨[], capacity, (Slab.withCapacity maxSenders).insert 0 {}, [], some false, [], []⟩
  else none

/-- The first argument is the sender. `SendOnce` is used up by a `trySend` and dropped by
    a `cancel`, and so are the futures that have not finished. -/
inductive Event (T : Type) where
  | checkSend (key : Nat)
  | trySend (key : Nat) (t : T)
  | cancel (key : Nat)
  | tryClone (key place : Nat)
  | dropSender (key : Nat)
  | pollSend (key : Nat) (t : T) (budget : Bool)
  | pollSendable (key : Nat)
  | deliver (key : Nat)
  | tryRecv
  | dropReceiver
  | makeReceiver (key : Nat)

def Event.sender : Event T → Option Nat
  | .checkSend key | .trySend key _ | .cancel key | .tryClone key _ | .dropSender key | .pollSend
    key _ _
  | .pollSendable key | .deliver key | .makeReceiver key => some key
  | .tryRecv | .dropReceiver => none

def LocalChannel.take (c : LocalChannel T) : Event T → Option (LocalChannel T)
  | .checkSend key => some (c.checkSend key).2
  | .trySend key t => some (c.trySend key t).2
  | .cancel key => some (c.cancel key)
  | .tryClone _ place => c.tryClone place
  | .dropSender key => some (c.dropSender key)
  | .pollSend key t budget => some (c.pollSend key t budget)
  | .pollSendable key => some (c.pollSendable key)
  | .deliver key => some (c.deliver key)
  | .tryRecv => if c.read_set_readiness.isSome then some c.tryRecv else none
  | .dropReceiver => if c.read_set_readiness.isSome then some c.dropReceiver else none
  | .makeReceiver _ => some c.makeReceiver

def step (c : LocalChannel T) (event : Event T) : Option (LocalChannel T) :=
  match event.sender with
  | some key => if (c.nodes.get? key).isSome then c.take event else none
  | none => c.take event

/-- No sender of the wait list sends, is refused for good or gives up, except by being
    dropped; and no sender is refused while others wait for a slot that is free. -/
def fitsSend (c : LocalChannel T) (key : Nat) : Bool :=
  if c.read_set_readiness.isNone then key ∉ c.waiting ∧
    (c.waiting = [] ∨ c.capacity ≤ c.queue.length)
  else key ∉ c.waiting ∨ c.capacity ≤ c.queue.length

def fits (c : LocalChannel T) : Event T → Bool
  | .trySend key _ => fitsSend c key
  | .pollSend key _ budget => !((c.nodes.get? key).any (·.ready) && budget) || fitsSend c key
  | .cancel key => key ∉ c.waiting
  | _ => true

namespace LocalChannel

def notified (c : LocalChannel T) : Set Nat := fun key => c.senderIsNotified key = true

def interested (c : LocalChannel T) : Set Nat :=
  fun key => (c.nodes.get? key).any (·.interested) = true

instance (c : LocalChannel T) (key : Nat) : Decidable (key ∈ c.notified) :=
  inferInstanceAs (Decidable (c.senderIsNotified key = true))

instance (c : LocalChannel T) (key : Nat) : Decidable (key ∈ c.interested) :=
  inferInstanceAs (Decidable ((c.nodes.get? key).any (·.interested) = true))

def Fair (c : LocalChannel T) : Prop :=
  WaitLists.Served c.waiting (c.capacity - c.queue.length) c.notified c.interested

section
variable {c : LocalChannel T} {key : Nat}

theorem get?_modify (c : LocalChannel T) (key : Nat) (f : LocalSenderData → LocalSenderData)
    (k : Nat) : (c.modify key f).nodes.get? k = if k = key then
    (c.nodes.get? k).map f else c.nodes.get? k := by
  unfold modify
  dsimp only
  split
  · next sender found =>
    rw [Slab.get?_insert (Slab.lt_capacity_of_get? found)]
    split
    · next same => rw [same, found, Option.map_some]
    · rfl
  · next absent =>
    split
    · next same => rw [same, absent, Option.map_none]
    · rfl

theorem notified_modify {f : LocalSenderData → LocalSenderData}
    (same : ∀ sender, (f sender).notified = sender.notified) :
    (c.modify key f).notified = c.notified := by
  ext k
  show (((c.modify key f).nodes.get? k).any (·.notified)) = true ↔
    ((c.nodes.get? k).any (·.notified)) = true
  rw [get?_modify]
  split
  · cases c.nodes.get? k <;> simp [same]
  · rfl

theorem interested_modify {f : LocalSenderData → LocalSenderData}
    (same : ∀ sender, (f sender).interested = sender.interested) :
    (c.modify key f).interested = c.interested := by
  ext k
  show (((c.modify key f).nodes.get? k).any (·.interested)) = true ↔
    ((c.nodes.get? k).any (·.interested)) = true
  rw [get?_modify]
  split
  · cases c.nodes.get? k <;> simp [same]
  · rfl

theorem notified_clear (c : LocalChannel T) (key : Nat) :
    (c.clearSenderNotified key).notified = c.notified \ {key} := by
  ext k
  show (((c.clearSenderNotified key).nodes.get? k).any (·.notified)) = true ↔
    ((c.nodes.get? k).any (·.notified)) = true ∧ ¬ k = key
  rw [clearSenderNotified, get?_modify]
  by_cases same : k = key
  · cases c.nodes.get? k <;> simp [same]
  · simp [same]

theorem interested_clear (c : LocalChannel T) (key : Nat) :
    (c.clearSenderNotified key).interested = c.interested :=
  interested_modify fun _ => rfl

theorem interested_set (there : (c.nodes.get? key).isSome = true) (interest : Bool) :
    (c.setInterested key interest).interested =
      if interest then insert key c.interested else c.interested \ {key} := by
  ext k
  have eq : k ∈ (c.setInterested key interest).interested ↔
      (if k = key then interest = true else ((c.nodes.get? k).any (·.interested)) = true) := by
    show (((c.setInterested key interest).nodes.get? k).any (·.interested)) = true ↔ _
    rw [setInterested, get?_modify]
    split
    · next same =>
      obtain ⟨sender, found⟩ := Option.isSome_iff_exists.mp there
      simp [same, found]
    · rfl
  rw [eq]
  cases interest with
  | true =>
    simp only [if_true, Set.mem_insert_iff]
    by_cases same : k = key
    · simp [same]
    · simp only [same, if_false, false_or]
      rfl
  | false =>
    simp only [Bool.false_eq_true, if_false, Set.mem_sdiff, Set.mem_singleton_iff]
    by_cases same : k = key
    · simp [same]
    · simp only [same, if_false, not_false_iff, and_true]
      rfl

theorem notified_set (interest : Bool) : (c.setInterested key interest).notified = c.notified :=
  notified_modify fun _ => rfl

theorem there_of_interested (asks : key ∈ c.interested) : (c.nodes.get? key).isSome = true := by
  obtain ⟨sender, found, -⟩ := (Option.any_eq_true ..).mp asks
  rw [found]
  rfl

theorem notified_told (there : (c.nodes.get? key).isSome = true) :
    (c.modify key LocalSenderData.notify).notified = insert key c.notified := by
  ext k
  show (((c.modify key _).nodes.get? k).any (·.notified)) = true ↔ k = key ∨
    ((c.nodes.get? k).any (·.notified)) = true
  rw [get?_modify]
  by_cases same : k = key
  · obtain ⟨sender, found⟩ := Option.isSome_iff_exists.mp there
    simp [same, found, LocalSenderData.notify]
  · simp [same]

theorem notifyOneSender_served {free : Nat}
    (served : WaitLists.Served c.waiting free c.notified c.interested) :
    WaitLists.Served c.notifyOneSender.waiting (free + 1)
      c.notifyOneSender.notified c.notifyOneSender.interested := by
  unfold notifyOneSender
  cases waits : c.waiting with
  | nil =>
    rw [waits] at served
    dsimp only
    rw [waits]
    exact served.nobody (free + 1)
  | cons first rest =>
    rw [waits] at served
    have there := there_of_interested (served.listed first List.mem_cons_self)
    dsimp only
    rw [notified_told (c := { c with waiting := rest }) there,
      interested_modify (f := LocalSenderData.notify) fun _ => rfl]
    exact served.notify

theorem notifyOneSender_eq (c : LocalChannel T) :
    ∃ nodes, c.notifyOneSender = { c with waiting := c.waiting.tail, nodes := nodes } := by
  unfold notifyOneSender
  cases waits : c.waiting with
  | nil =>
    refine ⟨c.nodes, ?_⟩
    dsimp only
    rw [List.tail_nil]
    conv_rhs => rw [← waits]
  | cons first rest => exact ⟨_, rfl⟩

theorem join_fair (fair : c.Fair) {d : LocalChannel T} (there : (d.nodes.get? key).isSome = true)
    (same : d.waiting = c.waiting ∧ d.interested = c.interested)
    (full : d.capacity ≤ d.queue.length)
    (others : d.notified ⊆ insert key c.notified) (kept : ∀ k ∈ c.notified, k ≠ key →
    k ∈ d.notified) :
    ((d.setSenderWaiting key).setInterested key true).Fair := by
  have joined := fair.join key others kept
  unfold Fair
  rw [interested_set (c := d.setSenderWaiting key) there, notified_set, if_pos rfl]
  have none : d.capacity - d.queue.length = 0 := by omega
  show WaitLists.Served (if key ∈ d.waiting then d.waiting else d.waiting ++ [key])
    (d.capacity - d.queue.length) d.notified (insert key d.interested)
  rw [none, same.1, same.2]
  exact joined

theorem checkSend_fair (fair : c.Fair) (there : (c.nodes.get? key).isSome = true) :
    (c.checkSend key).2.Fair := by
  unfold checkSend
  split
  · exact fair
  · next full =>
    exact join_fair fair there ⟨rfl, rfl⟩ (by omega) (Set.subset_insert key _) fun _ mem _ => mem

theorem clear_there (there : (c.nodes.get? key).isSome = true) :
    ((c.clearSenderNotified key).nodes.get? key).isSome = true := by
  rw [clearSenderNotified, get?_modify, if_pos rfl, Option.isSome_map]
  exact there

theorem answered_fair (fair : c.Fair) {d : LocalChannel T}
    (there : (d.nodes.get? key).isSome = true) (off : key ∉ c.waiting)
    (same : d.waiting = c.waiting ∧ d.interested = c.interested ∧ d.notified = c.notified \ {key})
    (le : d.capacity - d.queue.length ≤ c.capacity - c.queue.length - 1 ∨ c.waiting = []) :
    (d.setInterested key false).Fair := by
  have left : WaitLists.Served (c.waiting.erase key) (d.capacity - d.queue.length)
      (c.notified \ {key}) (c.interested \ {key}) := by
    rcases le with fewer | nobody
    · exact fair.leave key (Or.inl fewer)
    · unfold Fair at fair
      rw [nobody] at fair ⊢
      exact (fair.nobody _).leave key (Or.inl (Nat.le_sub_of_add_le (Nat.le_refl _)))
  unfold Fair
  rw [interested_set there, notified_set, if_neg Bool.false_ne_true, same.2.1, same.2.2]
  show WaitLists.Served d.waiting _ _ _
  rw [same.1]
  rw [List.erase_of_not_mem off] at left
  exact left

theorem trySend_fair (fair : c.Fair) (there : (c.nodes.get? key).isSome = true) (t : T)
    (fit : fitsSend c key = true) : (c.trySend key t).2.Fair := by
  have cleared := clear_there there
  have sets : (c.clearSenderNotified key).waiting = c.waiting ∧
      (c.clearSenderNotified key).interested = c.interested ∧
      (c.clearSenderNotified key).notified = c.notified \ {key} :=
    ⟨rfl, interested_clear c key, notified_clear c key⟩
  unfold fitsSend at fit
  unfold trySend
  dsimp only
  split
  · next gone =>
    rw [if_pos (show c.read_set_readiness.isNone = true from gone)] at fit
    obtain ⟨off, rest⟩ := of_decide_eq_true fit
    refine answered_fair fair cleared off sets ?_
    rcases rest with nobody | full
    · exact Or.inr nobody
    · refine Or.inl ?_
      show c.capacity - c.queue.length ≤ _
      omega
  · next has =>
    rw [if_neg (show ¬ c.read_set_readiness.isNone = true from has)] at fit
    split
    · next room =>
      have inside : c.queue.length < c.capacity := room
      have off : key ∉ c.waiting := (of_decide_eq_true fit).resolve_right (by omega)
      refine answered_fair fair (d := LocalChannel.tellReceiver _) cleared off sets (Or.inl ?_)
      show c.capacity - (c.queue ++ [t]).length ≤ _
      rw [List.length_append, List.length_singleton]
      omega
    · next full =>
      refine join_fair fair cleared ⟨rfl, interested_clear c key⟩ (Nat.le_of_not_lt full) ?_ ?_
      · rw [notified_clear]
        exact fun k mem => Set.mem_insert_of_mem key mem.1
      · intro k mem other
        rw [notified_clear]
        exact ⟨mem, other⟩

theorem cancel_served (fair : c.Fair) (there : (c.nodes.get? key).isSome = true) :
    WaitLists.Served ((c.cancel key).waiting.erase key) (c.capacity - c.queue.length)
      ((c.cancel key).notified \ {key}) (c.cancel key).interested := by
  unfold cancel passOn
  split
  · have cleared := clear_there there
    unfold notifyOneSender
    cases waits : c.waiting with
    | nil =>
      have left : WaitLists.Served c.waiting (c.capacity - c.queue.length + 1) c.notified
          c.interested := by
        unfold Fair at fair
        rw [waits] at fair ⊢
        exact fair.nobody _
      have quit := left.leave key (Or.inl (Nat.le_refl _))
      have same : (c.clearSenderNotified key).waiting = [] := waits
      simp only [same]
      rw [interested_set cleared, notified_set, if_neg Bool.false_ne_true, interested_clear,
        notified_clear, Set.sdiff_sdiff, Set.union_self]
      exact quit
    | cons first rest =>
      unfold Fair at fair
      rw [waits] at fair
      have quit := fair.notify.leave key (Or.inl (Nat.le_refl _))
      have same : (c.clearSenderNotified key).waiting = first :: rest := waits
      simp only [same]
      have head : ((c.clearSenderNotified key).nodes.get? first).isSome = true := by
        rw [clearSenderNotified, get?_modify]
        split
        · rw [Option.isSome_map]
          exact there_of_interested (fair.listed first List.mem_cons_self)
        · exact there_of_interested (fair.listed first List.mem_cons_self)
      have still : (({ c.clearSenderNotified key with waiting := rest }.modify first
          LocalSenderData.notify).nodes.get? key).isSome = true := by
        rw [get?_modify]
        split
        · rw [Option.isSome_map]
          exact cleared
        · exact cleared
      rw [interested_set still, notified_set, if_neg Bool.false_ne_true,
        interested_modify (f := LocalSenderData.notify) fun _ => rfl,
        notified_told (c := { c.clearSenderNotified key with waiting := rest }) head]
      have sets : insert first (c.clearSenderNotified key).notified \ {key} =
          insert first c.notified \ {key} := by
        rw [notified_clear]
        ext k
        simp only [Set.mem_sdiff, Set.mem_insert_iff, Set.mem_singleton_iff]
        tauto
      show WaitLists.Served (rest.erase key) _ (insert first (c.clearSenderNotified key).notified \
        {key}) ((c.clearSenderNotified key).interested \ {key})
      rw [sets, interested_clear]
      exact quit
  · next quiet =>
    have off : key ∉ c.notified := quiet
    rw [interested_set there, notified_set, if_neg Bool.false_ne_true]
    exact fair.leave key (Or.inr ⟨Nat.le_refl _, Or.inr off⟩)

theorem modify_there (c : LocalChannel T) (key : Nat) (f : LocalSenderData → LocalSenderData)
    (k : Nat) : ((c.modify key f).nodes.get? k).isSome = (c.nodes.get? k).isSome := by
  rw [get?_modify]
  split
  · rw [Option.isSome_map]
  · rfl

theorem notifyOneSender_there (c : LocalChannel T) (k : Nat) :
    (c.notifyOneSender.nodes.get? k).isSome = (c.nodes.get? k).isSome := by
  unfold notifyOneSender
  split
  · rfl
  · exact modify_there ..

theorem passOn_there (c : LocalChannel T) (key k : Nat) :
    ((c.passOn key).nodes.get? k).isSome = (c.nodes.get? k).isSome := by
  unfold passOn
  split
  · exact (notifyOneSender_there ..).trans (modify_there ..)
  · rfl

theorem passOn_eq (c : LocalChannel T) (key : Nat) :
    ∃ waiting nodes, c.passOn key = { c with waiting := waiting, nodes := nodes } ∧
      ∀ k ∈ waiting, k ∈ c.waiting := by
  unfold passOn
  split
  · obtain ⟨nodes, eq⟩ := notifyOneSender_eq (c.clearSenderNotified key)
    exact ⟨_, nodes, eq, fun _ mem => List.mem_of_mem_tail mem⟩
  · exact ⟨c.waiting, c.nodes, rfl, fun _ mem => mem⟩

theorem passOn_quiet (off : key ∉ c.waiting) : key ∉ (c.passOn key).notified := by
  unfold passOn
  split
  · have quiet : key ∉ (c.clearSenderNotified key).notified := by
      rw [notified_clear]
      exact fun mem => mem.2 rfl
    unfold notifyOneSender
    split
    · exact quiet
    · next first rest waits =>
      have same : c.waiting = first :: rest := waits
      have other : key ≠ first := by
        rintro rfl
        exact off (by rw [same]; exact List.mem_cons_self)
      intro told
      have kept : Option.any LocalSenderData.notified
          (({ c.clearSenderNotified key with waiting := rest }.modify first
            LocalSenderData.notify).nodes.get? key) = true := told
      rw [get?_modify, if_neg other] at kept
      exact quiet kept
  · next quiet => exact quiet

theorem cancel_fair (fair : c.Fair) (there : (c.nodes.get? key).isSome = true)
    (off : key ∉ c.waiting) : (c.cancel key).Fair := by
  have served := cancel_served fair there
  obtain ⟨waiting, nodes, eq, fewer⟩ := passOn_eq c key
  have gone : key ∉ (c.cancel key).waiting := by
    show key ∉ (c.passOn key).waiting
    rw [eq]
    exact fun mem => off (fewer key mem)
  have quiet : key ∉ (c.cancel key).notified := by
    rw [cancel, notified_set]
    exact passOn_quiet off
  rw [List.erase_of_not_mem gone, Set.sdiff_singleton_eq_self quiet] at served
  have same : (c.cancel key).capacity - (c.cancel key).queue.length =
      c.capacity - c.queue.length := by
    show (c.passOn key).capacity - (c.passOn key).queue.length = _
    rw [eq]
  unfold Fair
  rw [same]
  exact served

theorem dropSender_fair (fair : c.Fair) (there : (c.nodes.get? key).isSome = true) :
    (c.dropSender key).Fair := by
  have served := cancel_served fair there
  obtain ⟨waiting, nodes, eq, -⟩ := passOn_eq c key
  have same : (c.cancel key).capacity - (c.cancel key).queue.length =
      c.capacity - c.queue.length := by
    show (c.passOn key).capacity - (c.passOn key).queue.length = _
    rw [eq]
  have lost : key ∉ (c.cancel key).interested := by
    rw [cancel, interested_set (by rw [passOn_there]; exact there), if_neg Bool.false_ne_true]
    exact fun mem => mem.2 rfl
  have removed : ∀ field : LocalSenderData → Bool, ∀ k,
      (((c.cancel key).nodes.remove key).get? k).any field = true ↔
        ((c.cancel key).nodes.get? k).any field = true ∧ k ≠ key := by
    intro field k
    rw [Slab.get?_remove]
    by_cases eq : k = key
    · simp [eq]
    · simp [eq]
  have left : (({ c.cancel key with
      waiting := (c.cancel key).waiting.erase key
      nodes := (c.cancel key).nodes.remove key } : LocalChannel T)).Fair := by
    have notified : ({ c.cancel key with
        waiting := (c.cancel key).waiting.erase key
        nodes := (c.cancel key).nodes.remove key } : LocalChannel T).notified =
          (c.cancel key).notified \ {key} :=
      Set.ext (removed LocalSenderData.notified)
    have interested : ({ c.cancel key with
        waiting := (c.cancel key).waiting.erase key
        nodes := (c.cancel key).nodes.remove key } : LocalChannel T).interested =
          (c.cancel key).interested \ {key} :=
      Set.ext (removed LocalSenderData.interested)
    unfold Fair
    rw [notified, interested, Set.sdiff_singleton_eq_self lost]
    show WaitLists.Served _ ((c.cancel key).capacity - (c.cancel key).queue.length) _ _
    rw [same]
    exact served
  unfold dropSender removeSender
  dsimp only
  split
  · exact left
  · exact left

theorem tryRecv_fair (fair : c.Fair) : c.tryRecv.Fair := by
  unfold tryRecv
  cases queued : c.queue with
  | nil => exact fair
  | cons value rest =>
    unfold Fair at fair
    rw [queued] at fair
    have served :=
      notifyOneSender_served (c := { c with queue := rest, received := c.received ++ [value] }) fair
    obtain ⟨nodes, eq⟩ :=
      notifyOneSender_eq { c with queue := rest, received := c.received ++ [value] }
    have same : (notifyOneSender
      { c with queue := rest, received := c.received ++ [value] }).capacity -
        (notifyOneSender { c with queue := rest, received := c.received ++ [value] }).queue.length =
          c.capacity - rest.length := by
      rw [eq]
    unfold Fair
    dsimp only
    rw [same]
    refine served.mono ?_
    rw [List.length_cons]
    omega

theorem dropReceiver_fair (fair : c.Fair) : c.dropReceiver.Fair := by
  unfold dropReceiver
  have served := notifyOneSender_served (c := { c with read_set_readiness := none }) fair
  obtain ⟨nodes, eq⟩ := notifyOneSender_eq { c with read_set_readiness := none }
  have same : (notifyOneSender { c with read_set_readiness := none }).capacity -
      (notifyOneSender { c with read_set_readiness := none }).queue.length =
        c.capacity - c.queue.length := by
    rw [eq]
  unfold Fair
  rw [same]
  exact served.mono (Nat.le_succ _)

theorem addSender_fair (fair : c.Fair) {place : Nat} {d : LocalChannel T}
    (added : c.addSender place = some d) : d.Fair := by
  unfold addSender at added
  split at added
  · cases added
    exact fair
  · split at added
    · next vacant =>
      cases added
      have same : ∀ field : LocalSenderData → Bool, field {} = false → ∀ k,
          ((c.nodes.insert place {}).get? k).any field = true ↔
            (c.nodes.get? k).any field = true := by
        intro field off k
        rw [Slab.get?_insert vacant.1]
        split
        · next eq => simp [eq, vacant.2, off]
        · rfl
      have notified :
          ({ c with nodes := c.nodes.insert place {} } : LocalChannel T).notified = c.notified :=
        Set.ext (same LocalSenderData.notified rfl)
      have interested : ({ c with nodes := c.nodes.insert place {} } : LocalChannel T).interested =
          c.interested :=
        Set.ext (same LocalSenderData.interested rfl)
      unfold Fair
      rw [notified, interested]
      exact fair
    · cases added

theorem modify_fair (fair : c.Fair) {f : LocalSenderData → LocalSenderData}
    (same : ∀ sender, (f sender).notified = sender.notified ∧
    (f sender).interested = sender.interested) :
    (c.modify key f).Fair := by
  unfold Fair
  rw [notified_modify fun sender => (same sender).1, interested_modify fun sender =>
    (same sender).2]
  exact fair

theorem pollSend_fair (fair : c.Fair) (there : (c.nodes.get? key).isSome = true) (t : T)
    {budget : Bool} (fit : fits c (.pollSend key t budget) = true) :
    (c.pollSend key t budget).Fair := by
  unfold pollSend
  split
  · next acts =>
    have sent : (c.trySend key t).2.Fair := by
      refine trySend_fair fair there t ?_
      simpa [fits, acts] using fit
    revert sent
    generalize c.trySend key t = result
    obtain ⟨answer, d⟩ := result
    intro sent
    cases answer with
    | full t => exact modify_fair sent fun _ => ⟨rfl, rfl⟩
    | ok => exact sent
    | disconnected t => exact sent
  · exact fair

theorem pollSendable_fair (fair : c.Fair) (there : (c.nodes.get? key).isSome = true) :
    (c.pollSendable key).Fair := by
  have checked := checkSend_fair fair there
  revert checked
  unfold pollSendable
  generalize c.checkSend key = result
  obtain ⟨can, d⟩ := result
  intro checked
  cases can with
  | true => exact checked
  | false => exact modify_fair checked fun _ => ⟨rfl, rfl⟩

theorem deliver_fair (fair : c.Fair) : (c.deliver key).Fair := by
  refine modify_fair fair fun sender => ?_
  split
  · exact ⟨rfl, rfl⟩
  · exact ⟨rfl, rfl⟩

theorem makeReceiver_fair (fair : c.Fair) : c.makeReceiver.Fair := by
  unfold makeReceiver
  split
  · exact fair
  · exact fair

theorem step_taken {d : LocalChannel T} {event : Event T} (stepped : step c event = some d) :
    c.take event = some d ∧ ∀ key, event.sender = some key → (c.nodes.get? key).isSome = true := by
  unfold step at stepped
  split at stepped
  · next key by_ =>
    obtain ⟨there, taken⟩ := Option.ite_none_right_eq_some.mp stepped
    refine ⟨taken, fun k same => ?_⟩
    rw [by_] at same
    cases same
    exact there
  · next by_ =>
    refine ⟨stepped, fun k same => ?_⟩
    rw [by_] at same
    cases same

theorem step_fair {d : LocalChannel T} {event : Event T} (fair : c.Fair)
    (stepped : step c event = some d) (fit : fits c event = true) : d.Fair := by
  obtain ⟨taken, there⟩ := step_taken stepped
  cases event with
  | tryRecv =>
    cases (Option.ite_none_right_eq_some.mp taken).2
    exact tryRecv_fair fair
  | dropReceiver =>
    cases (Option.ite_none_right_eq_some.mp taken).2
    exact dropReceiver_fair fair
  | tryClone key place => exact addSender_fair fair taken
  | checkSend key =>
    cases taken
    exact checkSend_fair fair (there key rfl)
  | trySend key t =>
    cases taken
    exact trySend_fair fair (there key rfl) t fit
  | cancel key =>
    cases taken
    exact cancel_fair fair (there key rfl) (of_decide_eq_true fit)
  | dropSender key =>
    cases taken
    exact dropSender_fair fair (there key rfl)
  | pollSend key t budget =>
    cases taken
    exact pollSend_fair fair (there key rfl) t fit
  | pollSendable key =>
    cases taken
    exact pollSendable_fair fair (there key rfl)
  | deliver key =>
    cases taken
    exact deliver_fair fair
  | makeReceiver key =>
    cases taken
    exact makeReceiver_fair fair

end
end LocalChannel

end PushpinLocalChannel
