import Pushpin.Core.LocalChannel

namespace PushpinLocalChannel
open Slabs
variable {T : Type}

namespace LocalChannel
section
variable {c : LocalChannel T} {key : Nat}

/-- The registration of a notified sender was told, or the reactor has taken it. -/
def Told (c : LocalChannel T) : Prop :=
  ∀ key ∈ c.notified, key ∉ c.waiting →
    (c.nodes.get? key).any (fun sender => sender.writable || sender.ready) = true

theorem Told.modify (told : c.Told) {f : LocalSenderData → LocalSenderData}
    (keeps : key ∈ c.waiting ∨ ∀ sender, (f sender).notified = true → sender.notified = true ∧
      ((sender.writable || sender.ready) = true →
      ((f sender).writable || (f sender).ready) = true)) :
    (c.modify key f).Told := by
  intro k mem off
  have notified : Option.any LocalSenderData.notified ((c.modify key f).nodes.get? k) = true := mem
  rw [get?_modify] at notified ⊢
  by_cases same : k = key
  · rw [if_pos same] at notified ⊢
    rw [same] at notified ⊢
    rcases keeps with waits | keeps
    · exact absurd waits (same ▸ off)
    · cases found : c.nodes.get? key with
      | none =>
        rw [found] at notified
        cases notified
      | some sender =>
        rw [found] at notified
        obtain ⟨was, stays⟩ := keeps sender notified
        have notified : Option.any LocalSenderData.notified (c.nodes.get? key) = true := by
          rw [found]
          exact was
        have before := told key notified (same ▸ off)
        rw [found] at before
        exact stays before
  · rw [if_neg same] at notified ⊢
    exact told k notified off

theorem Told.join (told : c.Told) (key : Nat) : (c.setSenderWaiting key).Told := by
  intro k mem off
  refine told k mem fun waits => off ?_
  unfold setSenderWaiting
  dsimp only
  split
  · exact waits
  · exact List.mem_append_left _ waits

theorem Told.notifyOneSender (told : c.Told) : c.notifyOneSender.Told := by
  unfold LocalChannel.notifyOneSender
  split
  · exact told
  · next first rest waits =>
    intro k mem off
    have notified : Option.any LocalSenderData.notified
      (({ c with waiting := rest }.modify first LocalSenderData.notify).nodes.get? k) = true := mem
    rw [get?_modify] at notified ⊢
    by_cases same : k = first
    · rw [if_pos same] at notified ⊢
      cases found : ({ c with waiting := rest } : LocalChannel T).nodes.get? k with
      | none =>
        rw [found] at notified
        cases notified
      | some sender => rfl
    · rw [if_neg same] at notified ⊢
      refine told k notified fun waits' => off ?_
      rw [waits] at waits'
      exact (List.mem_cons.mp waits').resolve_left same

theorem Told.setInterested (told : c.Told) (key : Nat) (interest : Bool) :
    (c.setInterested key interest).Told :=
  told.modify (Or.inr fun _ notified => ⟨notified, id⟩)

theorem Told.clear (told : c.Told) (key : Nat) : (c.clearSenderNotified key).Told :=
  told.modify (Or.inr fun _ notified => absurd notified Bool.false_ne_true)

theorem Told.passOn (told : c.Told) (key : Nat) : (c.passOn key).Told := by
  unfold LocalChannel.passOn
  split
  · exact (told.clear key).notifyOneSender
  · exact told

theorem mem_setSenderWaiting (c : LocalChannel T) (key : Nat) :
    key ∈ (c.setSenderWaiting key).waiting := by
  unfold setSenderWaiting
  dsimp only
  split
  · next there => exact there
  · exact List.mem_append_right _ List.mem_cons_self

theorem Told.trySend (told : c.Told) (key : Nat) (t : T) :
    (c.trySend key t).2.Told ∧ ∀ u, (c.trySend key t).1 = .full u →
    key ∈ (c.trySend key t).2.waiting := by
  have cleared := told.clear key
  unfold LocalChannel.trySend
  dsimp only
  split
  · exact ⟨cleared.setInterested key false, nofun⟩
  · split
    · refine ⟨Told.setInterested ?_ key false, nofun⟩
      exact cleared
    · exact ⟨(cleared.join key).setInterested key true, fun _ _ => mem_setSenderWaiting _ key⟩

theorem Told.checkSend (told : c.Told) (key : Nat) :
    (c.checkSend key).2.Told ∧
    ((c.checkSend key).1 = false → key ∈ (c.checkSend key).2.waiting) := by
  unfold LocalChannel.checkSend
  split
  · exact ⟨told, nofun⟩
  · exact ⟨(told.join key).setInterested key true, fun _ => mem_setSenderWaiting _ key⟩

theorem Told.pollSend (told : c.Told) (key : Nat) (t : T) (budget : Bool) :
    (c.pollSend key t budget).Told := by
  unfold LocalChannel.pollSend
  split
  · have sent := told.trySend key t
    revert sent
    generalize c.trySend key t = result
    obtain ⟨answer, d⟩ := result
    rintro ⟨sent, listed⟩
    cases answer with
    | full u => exact sent.modify (Or.inl (listed u rfl))
    | ok => exact sent
    | disconnected u => exact sent
  · exact told

theorem Told.pollSendable (told : c.Told) (key : Nat) : (c.pollSendable key).Told := by
  have checked := told.checkSend key
  revert checked
  unfold LocalChannel.pollSendable
  generalize c.checkSend key = result
  obtain ⟨can, d⟩ := result
  rintro ⟨checked, listed⟩
  cases can with
  | true => exact checked
  | false => exact checked.modify (Or.inl (listed rfl))

theorem Told.removeSender (told : c.Told) (key : Nat) : (c.removeSender key).Told := by
  have left : ({ c with waiting := c.waiting.erase key, nodes := c.nodes.remove key } : LocalChannel
      T).Told := by
    intro k mem off
    have notified : Option.any LocalSenderData.notified ((c.nodes.remove key).get? k) = true := mem
    show Option.any _ ((c.nodes.remove key).get? k) = true
    rw [Slab.get?_remove] at notified ⊢
    by_cases same : k = key
    · rw [if_pos same] at notified
      cases notified
    · rw [if_neg same] at notified ⊢
      exact told k notified fun waits => off ((List.mem_erase_of_ne same).mpr waits)
  unfold LocalChannel.removeSender
  dsimp only
  split
  · exact left
  · exact left

theorem Told.addSender (told : c.Told) {place : Nat} {d : LocalChannel T}
    (added : c.addSender place = some d) : d.Told := by
  unfold LocalChannel.addSender at added
  split at added
  · cases added
    exact told
  · split at added
    · next vacant =>
      cases added
      intro k mem off
      have notified : Option.any LocalSenderData.notified ((c.nodes.insert place {}).get? k) =
        true := mem
      show Option.any _ ((c.nodes.insert place {}).get? k) = true
      rw [Slab.get?_insert vacant.1] at notified ⊢
      split at notified
      · cases notified
      · next other =>
        rw [if_neg other]
        exact told k notified off
    · cases added

theorem step_told {d : LocalChannel T} {event : Event T} (told : c.Told)
    (stepped : step c event = some d) : d.Told := by
  obtain ⟨taken, there⟩ := step_taken stepped
  cases event with
  | tryRecv =>
    cases (Option.ite_none_right_eq_some.mp taken).2
    unfold tryRecv
    split
    · exact told
    · next value queue _ =>
      exact Told.notifyOneSender (c := { c with queue, received := c.received ++ [value] }) told
  | dropReceiver =>
    cases (Option.ite_none_right_eq_some.mp taken).2
    exact Told.notifyOneSender (c := { c with read_set_readiness := none }) told
  | tryClone key place => exact told.addSender taken
  | checkSend key =>
    cases taken
    exact (told.checkSend key).1
  | trySend key t =>
    cases taken
    exact (told.trySend key t).1
  | cancel key =>
    cases taken
    exact (told.passOn key).setInterested key false
  | dropSender key =>
    cases taken
    exact ((told.passOn key).setInterested key false).removeSender key
  | pollSend key t budget =>
    cases taken
    exact told.pollSend key t budget
  | pollSendable key =>
    cases taken
    exact told.pollSendable key
  | deliver key =>
    cases taken
    refine told.modify (Or.inr fun sender notified => ?_)
    split at notified
    · next out =>
      refine ⟨notified, fun _ => ?_⟩
      rw [if_pos out]
      rfl
    · next out =>
      refine ⟨notified, fun ready => ?_⟩
      rw [if_neg out]
      exact ready
  | makeReceiver key =>
    cases taken
    unfold makeReceiver
    split
    · exact told
    · exact told

structure Kept (c : LocalChannel T) : Prop where
  order : c.received ++ c.queue = c.sent
  room : c.queue.length ≤ c.capacity

def Values (c d : LocalChannel T) : Prop :=
  d.queue = c.queue ∧ d.capacity = c.capacity ∧ d.sent = c.sent ∧ d.received = c.received

theorem Kept.same (kept : c.Kept) {d : LocalChannel T} (values : Values c d) : d.Kept := by
  obtain ⟨queue, capacity, sent, received⟩ := values
  exact ⟨by rw [received, queue, sent]; exact kept.order, by rw [queue, capacity]; exact kept.room⟩

theorem Kept.notifyOneSender (kept : c.Kept) : c.notifyOneSender.Kept := by
  obtain ⟨nodes, eq⟩ := notifyOneSender_eq c
  rw [eq]
  exact ⟨kept.order, kept.room⟩

theorem Kept.passOn (kept : c.Kept) (key : Nat) : (c.passOn key).Kept := by
  obtain ⟨waiting, nodes, eq, -⟩ := passOn_eq c key
  rw [eq]
  exact ⟨kept.order, kept.room⟩

theorem Kept.checkSend (kept : c.Kept) (key : Nat) : (c.checkSend key).2.Kept := by
  unfold LocalChannel.checkSend
  split
  · exact kept
  · exact ⟨kept.order, kept.room⟩

theorem Kept.trySend (kept : c.Kept) (key : Nat) (t : T) : (c.trySend key t).2.Kept := by
  unfold LocalChannel.trySend
  dsimp only
  split
  · exact ⟨kept.order, kept.room⟩
  · split
    · next room =>
      refine ⟨?_, ?_⟩
      · show c.received ++ (c.queue ++ [t]) = c.sent ++ [t]
        rw [← List.append_assoc, kept.order]
      · show (c.queue ++ [t]).length ≤ c.capacity
        rw [List.length_append, List.length_singleton]
        exact room
    · exact ⟨kept.order, kept.room⟩

theorem Kept.tryRecv (kept : c.Kept) : c.tryRecv.Kept := by
  unfold LocalChannel.tryRecv
  cases queued : c.queue with
  | nil => exact kept
  | cons value queue =>
    obtain ⟨order, room⟩ := kept
    rw [queued] at order room
    refine Kept.notifyOneSender ⟨?_, ?_⟩
    · show c.received ++ [value] ++ queue = c.sent
      rw [← order, List.append_assoc, List.singleton_append]
    · exact Nat.le_of_succ_le room

theorem step_kept {d : LocalChannel T} {event : Event T} (kept : c.Kept)
    (stepped : step c event = some d) : d.Kept := by
  obtain ⟨taken, there⟩ := step_taken stepped
  cases event with
  | tryRecv =>
    cases (Option.ite_none_right_eq_some.mp taken).2
    exact kept.tryRecv
  | dropReceiver =>
    cases (Option.ite_none_right_eq_some.mp taken).2
    exact Kept.notifyOneSender ⟨kept.order, kept.room⟩
  | tryClone key place =>
    change c.addSender place = some d at taken
    unfold addSender at taken
    split at taken
    · cases taken
      exact kept
    · cases (Option.ite_none_right_eq_some.mp taken).2
      exact ⟨kept.order, kept.room⟩
  | checkSend key =>
    cases taken
    exact kept.checkSend key
  | trySend key t =>
    cases taken
    exact kept.trySend key t
  | cancel key =>
    cases taken
    exact (kept.passOn key).same ⟨rfl, rfl, rfl, rfl⟩
  | dropSender key =>
    cases taken
    have cancelled : (c.cancel key).Kept := (kept.passOn key).same ⟨rfl, rfl, rfl, rfl⟩
    show ((c.cancel key).removeSender key).Kept
    unfold removeSender
    dsimp only
    split
    · exact cancelled.same ⟨rfl, rfl, rfl, rfl⟩
    · exact cancelled.same ⟨rfl, rfl, rfl, rfl⟩
  | pollSend key t budget =>
    cases taken
    show (c.pollSend key t budget).Kept
    unfold pollSend
    split
    · have sent := kept.trySend key t
      revert sent
      generalize c.trySend key t = result
      obtain ⟨answer, d⟩ := result
      intro sent
      cases answer with
      | full u => exact sent.same ⟨rfl, rfl, rfl, rfl⟩
      | ok => exact sent
      | disconnected u => exact sent
    · exact kept
  | pollSendable key =>
    cases taken
    have checked := kept.checkSend key
    show (c.pollSendable key).Kept
    revert checked
    unfold pollSendable
    generalize c.checkSend key = result
    obtain ⟨can, d⟩ := result
    intro checked
    cases can with
    | true => exact checked
    | false => exact checked.same ⟨rfl, rfl, rfl, rfl⟩
  | deliver key =>
    cases taken
    exact kept.same ⟨rfl, rfl, rfl, rfl⟩
  | makeReceiver key =>
    cases taken
    show c.makeReceiver.Kept
    unfold makeReceiver
    split
    · exact kept
    · exact kept.same ⟨rfl, rfl, rfl, rfl⟩

end

/-- A sender of the channel is interested, was notified after it last found the queue
    full, and will see that it was. -/
structure Awake (c : LocalChannel T) (key : Nat) : Prop where
  interested : key ∈ c.interested
  notified : key ∈ c.notified
  off : key ∉ c.waiting
  told : (c.nodes.get? key).any (fun sender => sender.writable || sender.ready) = true

end LocalChannel
open LocalChannel

theorem made_fair {bound capacity maxSenders : Nat} {c : LocalChannel T}
    (made : localChannel T bound capacity maxSenders = some c) : c.Fair ∧ c.Told ∧ c.Kept := by
  obtain ⟨⟨-, -, some_⟩, start⟩ := Option.ite_none_right_eq_some.mp made
  cases start
  have quiet : ∀ field : LocalSenderData → Bool, field {} = false → ∀ k,
      ¬ (((Slab.withCapacity maxSenders).insert 0 {}).get? k).any field = true := by
    intro field off k
    rw [Slab.get?_insert (by simpa [Slab.capacity, Slab.withCapacity] using some_),
      Slab.get?_withCapacity]
    split
    · simp [off]
    · simp
  refine ⟨?_, fun k told => absurd told (quiet LocalSenderData.notified rfl k),
    ⟨rfl, Nat.zero_le _⟩⟩
  have notified :
    notified (⟨[], capacity, (Slab.withCapacity maxSenders).insert 0 {}, [], some false, [], []⟩ :
      LocalChannel T) = ∅ := Set.eq_empty_of_forall_notMem (quiet LocalSenderData.notified rfl)
  have interested :
    interested (⟨[], capacity, (Slab.withCapacity maxSenders).insert 0 {}, [], some false, [], []⟩ :
      LocalChannel T) = ∅ := Set.eq_empty_of_forall_notMem (quiet LocalSenderData.interested rfl)
  unfold Fair
  rw [notified, interested]
  exact WaitLists.served_nobody _

/-- Whatever the run, what was sent is received once and in order; and where no sender of
    the wait list sends or gives up, a free slot has a sender that is awake. -/
theorem channel_loses_nothing {bound capacity maxSenders : Nat} {c d : LocalChannel T}
    (events : List (Event T)) (made : localChannel T bound capacity maxSenders = some c)
    (ran : Runs.run step c events = some d) :
    (d.received ++ d.queue = d.sent ∧ d.queue.length ≤ d.capacity) ∧
    (Runs.along step fits c events = true →
      d.queue.length < d.capacity → (∃ key, key ∈ d.interested) → ∃ key, d.Awake key) := by
  obtain ⟨fair, told, kept⟩ := made_fair made
  have always : Runs.along step (fun _ _ => true) c events = true :=
    Runs.along_of_forall fun _ _ _ => rfl
  have values : d.Kept :=
    Runs.run_kept Kept (fun _ _ _ kept _ stepped => step_kept kept stepped) kept ran always
  refine ⟨⟨values.order, values.room⟩, fun fit free some_ => ?_⟩
  obtain ⟨key, asks⟩ := some_
  have served : d.Fair :=
    Runs.run_kept Fair (fun _ _ _ fair fit stepped => step_fair fair stepped fit) fair ran fit
  have hears : d.Told :=
    Runs.run_kept Told (fun _ _ _ told _ stepped => step_told told stepped) told ran always
  obtain ⟨other, wants, notified, off⟩ := served.slot (Nat.sub_pos_of_lt free) asks
  exact ⟨other, wants, notified, off, hears other notified off⟩

def threeSenders : LocalChannel Nat := ⟨[], 1, ⟨[some {}, none, none]⟩, [], some false, [], []⟩

def passedOn : List (Event Nat) :=
  [.tryClone 0 1, .tryClone 0 2, .trySend 0 7, .pollSendable 1, .pollSend 2 8 true, .tryRecv,
    .deliver 1, .cancel 1]

theorem passedOn_awake :
    localChannel Nat 1 1 3 = some threeSenders ∧
    ∃ d, Runs.run step threeSenders passedOn = some d ∧ d.queue = [] ∧ ∃ key, d.Awake key :=
  ⟨rfl, _, rfl, rfl, (@channel_loses_nothing Nat 1 1 3 threeSenders _ passedOn rfl rfl).2
    (by decide +kernel) (by decide +kernel) ⟨2, by decide +kernel⟩⟩

def goneBefore : List (Event Nat) :=
  [.tryClone 0 1, .tryClone 0 2, .trySend 0 7, .pollSendable 1, .pollSendable 2, .cancel 1,
    .tryRecv]

theorem notification_is_lost :
    localChannel Nat 1 1 3 = some threeSenders ∧
    ∃ d, Runs.run step threeSenders goneBefore = some d ∧
      d.queue.length < d.capacity ∧ 2 ∈ d.interested ∧ 2 ∉ d.notified ∧ ∀ key, ¬ d.Awake key := by
  refine ⟨rfl, _, rfl, by decide +kernel, by decide +kernel, by decide +kernel, ?_⟩
  intro key awake
  obtain ⟨sender, found⟩ := Option.isSome_iff_exists.mp (there_of_interested awake.interested)
  have inside : key < 3 := Slab.lt_capacity_of_get? found
  have all : ∀ d, Runs.run step threeSenders goneBefore = some d →
      ∀ k : Fin 3, ¬ ((k : Nat) ∈ d.interested ∧ (k : Nat) ∈ d.notified) := by
    intro d ran
    cases ran
    decide +kernel
  exact all _ rfl ⟨key, inside⟩ ⟨awake.interested, awake.notified⟩

end PushpinLocalChannel
