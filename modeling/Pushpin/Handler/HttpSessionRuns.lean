import Pushpin.Foundations.Runs
import Pushpin.Handler.HttpSession

namespace PushpinHttpSession
open PushpinHandler

structure Core where
  state : State
  holdMode : HoldMode
  timer : Bool
  retryTimer : Bool
  outZhttp : Bool
  outReq : Bool
  pendingAction : Bool
  deferred : Nat
  finished : Bool

def Session.core (s : Session) : Core :=
  ⟨s.state, s.instruct.holdMode, s.timer, s.retryTimer, s.outZhttp, s.outReq, s.pendingAction,
    s.deferred, s.finished⟩

namespace Core

def isClosing (c : Core) : Prop := c.state = .closing ∨ c.state = .sendingGone ∨ c.finished = true

/-- Only a session that waits for an update has an action pending, links are
    requested through the manager and not for a response, an error is put off only
    where there is no manager, and a closing session has nothing left that could
    fire. -/
structure Fine (c : Core) : Prop where
  mode : c.state = .proxying → c.holdMode ≠ .responseHold
  waiting : c.pendingAction = true → c.state = .waitingToUpdate
  linked : c.outReq = true ∨ c.retryTimer = true → c.outZhttp = true
  deferred : 0 < c.deferred →
    c.outZhttp = false ∧ c.holdMode ≠ .responseHold ∧ (c.state = .proxying ∨ c.isClosing)
  quiet : c.isClosing → c.timer = false ∧ c.retryTimer = false ∧ c.pendingAction = false ∧
    (c.state = .closing → c.outReq = false)

theorem not_closing {c : Core} (running : c.finished = false) (open_ : c.state ≠ .closing)
    (here : c.state ≠ .sendingGone) : ¬ c.isClosing := by
  rintro (closing | gone | is)
  · exact open_ closing
  · exact here gone
  · rw [running] at is
    cases is

end Core

namespace Session
open PushpinHttpSession.Core
variable (lib : Libraries) {s : Session}

theorem cancelActivities_fine (fine : s.core.Fine) : s.cancelActivities.core.Fine := by
  obtain ⟨mode, waiting, linked, deferred, quiet⟩ := fine
  refine ⟨mode, by simp [cancelActivities, core, cancelAction], ?_, deferred, ?_⟩
  · simp [cancelActivities, core, cancelAction, cleanupOutReq]
  · simp [cancelActivities, core, cancelAction, cleanupOutReq]

theorem prepareToClose_fine (fine : s.core.Fine) : s.prepareToClose.core.Fine := by
  obtain ⟨mode, waiting, linked, deferred, quiet⟩ := fine
  refine ⟨by simp [prepareToClose, cancelActivities, core, cancelAction,
    cleanupOutReq], by simp [prepareToClose, cancelActivities, core, cancelAction], ?_, ?_, ?_⟩
  · simp [prepareToClose, cancelActivities, core, cancelAction, cleanupOutReq]
  · intro some_deferred
    exact ⟨(deferred some_deferred).1, (deferred some_deferred).2.1, .inr (.inl rfl)⟩
  · simp [prepareToClose, cancelActivities, core, cancelAction, cleanupOutReq]

section
variable (fine : s.core.Fine) (open_ : ¬ s.core.isClosing)
include fine open_

theorem requestNextLink_fine (linked : s.outZhttp = true ∨ s.state = .proxying) :
    s.requestNextLink.core.Fine := by
  unfold requestNextLink
  obtain ⟨mode, waiting, _, deferred, quiet⟩ := fine
  split
  · rename_i manager
    exact ⟨mode, waiting, fun _ => manager, fun some_deferred => deferred some_deferred,
      fun closing => absurd closing open_⟩
  · rename_i none_there
    rcases linked with manager | proxying
    · exact absurd manager none_there
    · refine ⟨mode, waiting, ‹_›, fun _ => ⟨?_, mode proxying, .inl proxying⟩,
        fun closing => absurd closing open_⟩
      exact Bool.eq_false_iff.mpr none_there

theorem fine_deferred_none (idle : s.state ≠ .proxying) : s.deferred = 0 := by
  by_contra some_deferred
  rcases (fine.deferred (Nat.pos_of_ne_zero some_deferred)).2.2 with proxying | closing
  · exact idle proxying
  · exact open_ closing

theorem doUpdate_fine (idle : s.state ≠ .proxying) :
    s.doUpdate.core.Fine ∧ ¬ s.doUpdate.core.isClosing := by
  have none_deferred := fine_deferred_none fine open_ idle
  have running : s.finished = false := Bool.eq_false_iff.mpr fun is => open_ (.inr (.inr is))
  obtain ⟨mode, waiting, linked, deferred, quiet⟩ := fine
  unfold doUpdate
  split
  · have still : ¬ Core.isClosing (core { s with
        pendingAction := false, state := .pausing, timer := false, paused := true }) :=
      not_closing running (by simp [core]) (by simp [core])
    refine ⟨⟨by simp [core], by simp [core], linked, ?_, fun closing => absurd closing still⟩,
      still⟩
    intro some_deferred
    simp only [core, none_deferred] at some_deferred
    omega
  · rename_i other_mode
    have still : ¬ Core.isClosing (core { s with pendingAction := false, state := .proxying }) :=
      not_closing running (by simp [core]) (by simp [core])
    have fine : Core.Fine (core { s with pendingAction := false, state := .proxying }) := by
      refine ⟨fun _ => other_mode, by simp [core], linked, ?_, fun closing => absurd closing still⟩
      intro some_deferred
      simp only [core, none_deferred] at some_deferred
      omega
    refine ⟨requestNextLink_fine fine still (.inr rfl), ?_⟩
    unfold requestNextLink
    split <;> exact still

theorem updateHolding_fine (holding : s.state = .holding) (priority : Priority) :
    (s.updateHolding priority).core.Fine ∧ ¬ (s.updateHolding priority).core.isClosing := by
  have none_deferred := fine_deferred_none fine open_ (by simp [holding])
  have running : s.finished = false := Bool.eq_false_iff.mpr fun is => open_ (.inr (.inr is))
  unfold updateHolding
  have fine' : Core.Fine (core { s with needUpdate := false }) := fine
  simp only
  split
  · exact ⟨fine, open_⟩
  · cases priority with
    | high => exact doUpdate_fine fine' open_ (by simp [holding])
    | low =>
      have still : ¬ Core.isClosing (core { s with
          needUpdate := false, state := .waitingToUpdate, pendingAction := true }) :=
        not_closing running (by simp [core]) (by simp [core])
      refine ⟨⟨by simp [core], fun _ => rfl, fine.linked, ?_, fun closing => absurd closing still⟩,
        still⟩
      intro some_deferred
      simp only [core, none_deferred] at some_deferred
      omega

end

theorem update_fine (fine : s.core.Fine) (running : s.finished = false) (priority : Priority) :
    (s.update priority).core.Fine := by
  have flagged : (s.flagUpdate priority).core = s.core := by
    unfold flagUpdate
    split_ifs <;> rfl
  unfold update
  split
  · rw [flagged]
    exact fine
  · rw [flagged]
    exact fine
  · rename_i waits
    cases priority with
    | low => exact fine
    | high =>
      have open_ : ¬ s.core.isClosing :=
        not_closing running (by simp [core, waits]) (by simp [core, waits])
      have none_deferred := fine_deferred_none fine open_ (by simp [waits])
      have still : ¬ Core.isClosing (core { s.cancelAction with state := .holding }) :=
        not_closing running (by simp [core]) (by simp [core])
      refine (updateHolding_fine ?_ still rfl .high).1
      refine ⟨by simp [core], by simp [core, cancelAction], fine.linked, ?_,
        fun closing => absurd closing still⟩
      intro some_deferred
      simp only [core, cancelAction, none_deferred] at some_deferred
      omega
  · rename_i holds
    exact (updateHolding_fine fine
      (not_closing running (by simp [core, holds]) (by simp [core, holds])) holds priority).1
  · exact fine

structure Kept (s s' : Session) : Prop where
  queue : s'.publishQueue = s.publishQueue
  filters : s'.messageFilters = s.messageFilters
  process : s'.inProcessPublishQueue = s.inProcessPublishQueue
  finished : s'.finished = s.finished
  written : s'.written = s.written

theorem requestNextLink_kept (s : Session) : Kept s s.requestNextLink := by
  unfold requestNextLink
  split <;> exact ⟨rfl, rfl, rfl, rfl, rfl⟩

theorem doUpdate_kept (s : Session) : Kept s s.doUpdate := by
  unfold doUpdate
  split
  · exact ⟨rfl, rfl, rfl, rfl, rfl⟩
  · obtain ⟨queue, filters, process, finished, written⟩ :=
      requestNextLink_kept { s with pendingAction := false, state := .proxying }
    exact ⟨queue, filters, process, finished, written⟩

theorem updateHolding_kept (s : Session) (priority : Priority) :
    Kept s (s.updateHolding priority) := by
  unfold updateHolding
  simp only
  split
  · exact ⟨rfl, rfl, rfl, rfl, rfl⟩
  · cases priority with
    | high =>
      obtain ⟨queue, filters, process, finished, written⟩ :=
        doUpdate_kept { s with needUpdate := false }
      exact ⟨queue, filters, process, finished, written⟩
    | low => exact ⟨rfl, rfl, rfl, rfl, rfl⟩

theorem update_kept (s : Session) (priority : Priority) : Kept s (s.update priority) := by
  have flagged : Kept s (s.flagUpdate priority) := by
    unfold flagUpdate
    split_ifs <;> exact ⟨rfl, rfl, rfl, rfl, rfl⟩
  unfold update
  split
  · exact flagged
  · exact flagged
  · cases priority with
    | low => exact ⟨rfl, rfl, rfl, rfl, rfl⟩
    | high =>
      obtain ⟨queue, filters, process, finished, written⟩ :=
        updateHolding_kept { s.cancelAction with state := .holding } .high
      exact ⟨queue, filters, process, finished, written⟩
  · exact updateHolding_kept s priority
  · exact ⟨rfl, rfl, rfl, rfl, rfl⟩

theorem update_sendingQueue (sending : s.state = .sendingQueue) (priority : Priority) :
    (s.update priority).state = .sendingQueue := by
  simp only [update, sending]
  unfold flagUpdate
  split_ifs <;> exact sending

structure Closed (s s' : Session) : Prop where
  fine : s'.core.Fine
  state : s'.state = .closing
  queue : s'.publishQueue = []
  filters : s'.messageFilters = s.messageFilters
  process : s'.inProcessPublishQueue = s.inProcessPublishQueue
  finished : s'.finished = s.finished

section
variable (fine : s.core.Fine)
include fine

theorem prepareToClose_closed : Closed s s.prepareToClose :=
  ⟨prepareToClose_fine fine, rfl, rfl, rfl, rfl, rfl⟩

theorem respond_closed (response : Response) : Closed s (s.respond lib response) := by
  have closed : s.prepareToClose.core.Fine := prepareToClose_fine fine
  exact ⟨closed, rfl, rfl, rfl, rfl, rfl⟩

theorem doError_closed : Closed s (s.doError lib) := by
  have closed : s.prepareToClose.core.Fine := prepareToClose_fine fine
  unfold doError
  split
  · exact respond_closed lib fine _
  · simp only
    split <;> exact ⟨closed, rfl, rfl, rfl, rfl, rfl⟩

theorem setupKeepAlive_fine (open_ : ¬ s.core.isClosing) : s.setupKeepAlive.core.Fine := by
  unfold setupKeepAlive
  split
  · exact ⟨fine.mode, fine.waiting, fine.linked, fine.deferred, fun closing => absurd closing open_⟩
  · exact fine

end

theorem setupKeepAlive_kept (s : Session) : Kept s s.setupKeepAlive := by
  unfold setupKeepAlive
  split <;> exact ⟨rfl, rfl, rfl, rfl, rfl⟩

/-- An outstanding filter stack belongs to the first item of the queue, and the
    session is sending the queue. -/
def Agrees (s : Session) : Prop :=
  ∀ qi, s.messageFilters = some qi → s.state = .sendingQueue ∧ s.publishQueue.head? = some qi

structure Sends (s s' : Session) : Prop where
  fine : s'.core.Fine
  state : s'.state = .sendingQueue ∨ s'.state = .closing
  agrees : s'.Agrees
  process : s'.inProcessPublishQueue = s.inProcessPublishQueue
  finished : s'.finished = s.finished

variable {s' : Session}

theorem Closed.sends (closed : Closed s s') (none_out : s.messageFilters = none) : Sends s s' := by
  refine ⟨closed.fine, .inr closed.state, ?_, closed.process, closed.finished⟩
  intro qi out
  rw [closed.filters, none_out] at out
  cases out

theorem Sends.after {s₀ : Session} (later : Sends s s') (sends : Sends s₀ s) : Sends s₀ s' :=
  ⟨later.fine, later.state, later.agrees, later.process.trans sends.process,
    later.finished.trans sends.finished⟩

theorem Sends.closed {s₀ : Session} (sends : Sends s₀ s) (none_out : s.messageFilters = none)
    (closed : Closed s s') : Sends s₀ s' := by
  have after := closed.sends none_out
  exact ⟨after.fine, after.state, after.agrees, after.process.trans sends.process,
    after.finished.trans sends.finished⟩

theorem agrees_of_none (none_out : s.messageFilters = none) : s.Agrees := by
  intro qi out
  rw [none_out] at out
  cases out

theorem followItem_core (s : Session) (item : Item) : (s.followItem item).core = s.core := by
  unfold followItem
  simp only
  split
  · rfl
  · split <;> rfl

theorem followItem_kept (s : Session) (item : Item) : Kept s (s.followItem item) := by
  unfold followItem
  simp only
  split
  · exact ⟨rfl, rfl, rfl, rfl, rfl⟩
  · split <;> exact ⟨rfl, rfl, rfl, rfl, rfl⟩

theorem update_sends {s₀ : Session} (sends : Sends s₀ s) (sending : s.state = .sendingQueue)
    (none_out : s.messageFilters = none) (running : s.finished = false) (priority : Priority) :
    Sends s₀ (s.update priority) ∧ (s.update priority).messageFilters = none ∧
      (s.update priority).publishQueue = s.publishQueue := by
  obtain ⟨queue, filters, process, finished, _⟩ := update_kept s priority
  exact ⟨⟨update_fine sends.fine running priority, .inl (update_sendingQueue sending priority),
    agrees_of_none (filters.trans none_out), process.trans sends.process,
      finished.trans sends.finished⟩,
    filters.trans none_out, queue⟩

section
variable (fine : s.core.Fine) (running : s.finished = false) (sending : s.state = .sendingQueue)
include fine running sending

theorem processItem_sends (none_out : s.messageFilters = none) (qi : QueuedItem)
    (sendAction : SendAction) (content : Bytes) :
    Sends s (s.processItem lib qi sendAction content) ∧
      (s.processItem lib qi sendAction content).messageFilters = none ∧
      (s.processItem lib qi sendAction content).publishQueue.length ≤ s.publishQueue.length := by
  obtain ⟨queue, filters, process, finished, _⟩ := followItem_kept s qi.item
  have same := followItem_core s qi.item
  have sending' : (s.followItem qi.item).state = .sendingQueue :=
    (congrArg Core.state same).trans sending
  have fine' : (s.followItem qi.item).core.Fine := by rw [same]; exact fine
  have none' : (s.followItem qi.item).messageFilters = none := filters.trans none_out
  have kept : Sends s (s.followItem qi.item) :=
    ⟨fine', .inl sending', agrees_of_none none', process, finished⟩
  have unchanged : Sends s (s.followItem qi.item) ∧ (s.followItem qi.item).messageFilters = none ∧
      (s.followItem qi.item).publishQueue.length ≤ s.publishQueue.length :=
    ⟨kept, none', Nat.le_of_eq (by rw [queue])⟩
  have closed : ∀ {s' : Session}, Closed (s.followItem qi.item) s' →
      Sends s s' ∧ s'.messageFilters = none ∧ s'.publishQueue.length ≤ s.publishQueue.length := by
    intro s' closed
    exact ⟨kept.closed none' closed, closed.filters.trans none', by simp [closed.queue]⟩
  unfold processItem
  simp only
  split
  · split
    · exact closed (respond_closed lib fine' _)
    · obtain ⟨sends, none_now, same_queue⟩ :=
        update_sends kept sending' none' (finished.trans running) .high
      exact ⟨sends, none_now, Nat.le_of_eq (by rw [same_queue, queue])⟩
    · exact unchanged
  · split
    · have open_ : ¬ ((s.followItem qi.item).writeBody content).core.isClosing :=
        not_closing (finished.trans running) (by simp [core, writeBody, sending'])
          (by simp [core, writeBody, sending'])
      have fine₁ : ((s.followItem qi.item).writeBody content).core.Fine := fine'
      unfold adjustKeepAlive
      split
      · obtain ⟨queue₂, filters₂, process₂, finished₂, _⟩ :=
          setupKeepAlive_kept ((s.followItem qi.item).writeBody content)
        have state₂ :
            ((s.followItem qi.item).writeBody content).setupKeepAlive.state = .sendingQueue := by
          unfold setupKeepAlive
          split <;> exact sending'
        exact ⟨⟨setupKeepAlive_fine fine₁ open_, .inl state₂, agrees_of_none (filters₂.trans none'),
          process₂.trans process, finished₂.trans finished⟩, filters₂.trans none',
          Nat.le_of_eq ((congrArg List.length queue₂).trans (congrArg List.length queue))⟩
      · exact ⟨⟨fine₁, .inl sending', agrees_of_none none', process, finished⟩, none',
          Nat.le_of_eq (congrArg List.length queue)⟩
    · have cleared : Sends s { s.followItem qi.item with publishQueue := [] } :=
        ⟨fine', .inl sending', agrees_of_none none', process, finished⟩
      obtain ⟨sends, none_now, same_queue⟩ :=
        update_sends cleared sending' none' (finished.trans running) .high
      exact ⟨sends, none_now, by simp [same_queue]⟩
    · have ended := prepareToClose_closed fine'
      exact closed ⟨ended.fine, ended.state, ended.queue, ended.filters, ended.process,
        ended.finished⟩
    · exact unchanged
  · exact unchanged

theorem filtersFinished_spec {qi : QueuedItem} {rest : List QueuedItem}
    (first : s.publishQueue = qi :: rest) (result : FilterResult) :
    ∃ s' resumes, s.filtersFinished lib result = .ok (s', resumes) ∧ Sends s s' ∧
      s'.messageFilters = none ∧ s'.publishQueue.length ≤ rest.length := by
  have fine' : Core.Fine (core { s with publishQueue := rest, messageFilters := none }) := fine
  have taken : Sends s { s with publishQueue := rest, messageFilters := none } :=
    ⟨fine', .inl sending, agrees_of_none rfl, rfl, rfl⟩
  cases result with
  | failed errorMessage =>
    by_cases debug : s.adata.debug = true
    · have closed := doError_closed lib (s := { s with
        publishQueue := rest, messageFilters := none, errorMessage :=
          "filter error: " ++ errorMessage }) fine'
      refine ⟨_, false, ?_, ⟨closed.fine, .inr closed.state, (closed.sends rfl).agrees,
        closed.process, closed.finished⟩, closed.filters, by simp [closed.queue]⟩
      simp only [filtersFinished, first, debug, ↓reduceIte]
    · refine ⟨_, true, ?_, taken, rfl, Nat.le_refl _⟩
      simp only [filtersFinished, first, debug]
      rfl
  | passed sendAction content =>
    obtain ⟨sends, none_now, shorter⟩ := processItem_sends lib
      (s := { s with publishQueue := rest, messageFilters := none }) fine' running sending rfl qi
        sendAction content
    refine ⟨_, true, ?_, ⟨sends.fine, sends.state, sends.agrees, sends.process, sends.finished⟩,
      none_now, shorter⟩
    simp only [filtersFinished, first]

end

theorem goesOn_spec (s : Session) : s.goesOn.2.core = s.core ∧ Kept s s.goesOn.2 ∧
    (s.goesOn.1 = true → s.state = .sendingQueue ∧ s.publishQueue ≠ [] ∧
    s.messageFilters = none) := by
  unfold goesOn
  split
  · exact ⟨rfl, ⟨rfl, rfl, rfl, rfl, rfl⟩, by simp⟩
  · rename_i open_
    simp only [not_or, Decidable.not_not] at open_
    refine ⟨rfl, ⟨rfl, rfl, rfl, rfl, rfl⟩, ?_⟩
    simp only [writeBytesAvailable, Bool.and_eq_true, Option.isNone_iff_eq_none]
    exact fun asked => ⟨open_.1, open_.2, asked.2⟩

theorem goesOn_sends (fine : s.core.Fine) (agrees : s.Agrees)
    (state : s.state = .sendingQueue ∨ s.state = .closing) : Sends s s.goesOn.2 := by
  obtain ⟨same, kept, _⟩ := goesOn_spec s
  have same_state : s.goesOn.2.state = s.state := congrArg Core.state same
  refine ⟨by rw [same]; exact fine, by rw [same_state]; exact state, ?_, kept.process,
    kept.finished⟩
  intro qi out
  rw [same_state, kept.queue]
  exact agrees qi (kept.filters.symm.trans out)

section
variable (fine : s.core.Fine) (running : s.finished = false) (sending : s.state = .sendingQueue)
include fine running sending

theorem filterItem_spec {qi : QueuedItem} {rest : List QueuedItem}
    (queue : s.publishQueue = qi :: rest) :
    ∃ more s', s.filterItem lib qi = .ok (more, s') ∧ Sends s s' ∧
      (more = true → s'.publishQueue.length < (qi :: rest).length) := by
  unfold filterItem
  split
  · rename_i s₁ started
    have begun : s₁ = { s with messageFilters := some qi }.startFilters.2 := by rw [started]
    subst begun
    refine ⟨false, _, rfl, ⟨fine, .inl sending, ?_, rfl, rfl⟩, by simp⟩
    intro other out
    cases out
    exact ⟨sending, congrArg List.head? queue⟩
  · rename_i result s₁ started
    have begun : s₁ = { s with messageFilters := some qi }.startFilters.2 := by rw [started]
    have fine₁ : s₁.core.Fine := by rw [begun]; exact fine
    have running₁ : s₁.finished = false := by rw [begun]; exact running
    have sending₁ : s₁.state = .sendingQueue := by rw [begun]; exact sending
    have queue₁ : s₁.publishQueue = qi :: rest := by rw [begun]; exact queue
    obtain ⟨s₂, resumes, done, sends, none_out, shorter⟩ :=
      filtersFinished_spec lib fine₁ running₁ sending₁ queue₁ result
    have process : s₁.inProcessPublishQueue = s.inProcessPublishQueue := by rw [begun]; rfl
    have finished : s₁.finished = s.finished := by rw [begun]; rfl
    refine ⟨true,
      s₂, by rw [done]; rfl, ⟨sends.fine, sends.state, sends.agrees, sends.process.trans process,
      sends.finished.trans finished⟩, ?_⟩
    intro _
    rw [List.length_cons]
    omega

theorem processRound_spec (none_out : s.messageFilters = none)
    (queued : s.publishQueue ≠ []) :
    ∃ more s', s.processRound lib = .ok (more, s') ∧ Sends s s' ∧
      (more = true → s'.publishQueue.length < s.publishQueue.length) := by
  obtain ⟨qi, rest, queue⟩ : ∃ qi rest, s.publishQueue = qi :: rest :=
    List.exists_cons_of_ne_nil queued
  have dropped : Sends s { s with publishQueue := rest } :=
    ⟨fine, .inl sending, agrees_of_none none_out, rfl, rfl⟩
  have shorter : rest.length < s.publishQueue.length := by simp [queue]
  unfold processRound
  rw [queue]
  simp only
  split
  · exact ⟨true, _, rfl, dropped, fun _ => Nat.lt_succ_self _⟩
  · rename_i channel _
    split
    · have cleared :
          Sends s ({ s with publishQueue := [] }.note [.breakOff qi.item s.written.length]) :=
        ⟨fine, .inl sending, agrees_of_none none_out, rfl, rfl⟩
      exact ⟨false, _, rfl, (update_sends cleared sending none_out running .low).1, by simp⟩
    · split
      · split
        · have failed : Sends s { s with
              publishQueue := rest
              errorMessage := mismatch (contentFilters lib channel) qi.item.rest.contentFilters } :=
            ⟨fine, .inl sending, agrees_of_none none_out, rfl, rfl⟩
          exact ⟨false, _, rfl, failed.closed none_out (doError_closed lib failed.fine), by simp⟩
        · exact ⟨true, _, rfl, dropped, fun _ => Nat.lt_succ_self _⟩
      · exact filterItem_spec lib fine running sending queue

end

theorem processLoop_spec (rounds : Nat) (fine : s.core.Fine) (running : s.finished = false)
    (agrees : s.Agrees) (state : s.state = .sendingQueue ∨ s.state = .closing)
    (enough : s.publishQueue.length ≤ rounds) :
    ∃ s', processLoop lib rounds s = .ok s' ∧ Sends s s' := by
  induction rounds generalizing s with
  | zero =>
    obtain ⟨same, kept, asks⟩ := goesOn_spec s
    have empty : s.publishQueue = [] := List.length_eq_zero_iff.mp (by omega)
    have stops : s.goesOn.1 = false := Bool.eq_false_iff.mpr fun goes => (asks goes).2.1 empty
    exact ⟨s.goesOn.2, by simp [processLoop, stops], goesOn_sends fine agrees state⟩
  | succ rounds ih =>
    obtain ⟨same, kept, asks⟩ := goesOn_spec s
    have asked := goesOn_sends fine agrees state
    unfold processLoop
    split
    · rename_i s₁ on
      rw [on] at asked
      exact ⟨s₁, rfl, asked⟩
    · rename_i s₁ on
      rw [on] at same kept asks asked
      obtain ⟨sending, queued, none_out⟩ := asks rfl
      have running₁ : s₁.finished = false := kept.finished.trans running
      have sending₁ : s₁.state = .sendingQueue := (congrArg Core.state same).trans sending
      obtain ⟨more, s₂, round, sends, less⟩ := processRound_spec lib asked.fine running₁ sending₁
        (kept.filters.trans none_out) (by rw [kept.queue]; exact queued)
      rw [round]
      cases more with
      | false => exact ⟨s₂, rfl, sends.after asked⟩
      | true =>
        have fewer := less rfl
        rw [kept.queue] at fewer
        obtain ⟨s₃, loop, later⟩ :=
          ih sends.fine (sends.finished.trans running₁) sends.agrees sends.state (by omega)
        exact ⟨s₃, loop, later.after (sends.after asked)⟩

structure Sound (s : Session) : Prop where
  fine : s.core.Fine
  agrees : s.Agrees
  idle : s.inProcessPublishQueue = false

structure Live (s : Session) : Prop extends Sound s where
  running : s.finished = false

def Returns (P : Session → Prop) : Except Fault Session → Prop
  | .ok s => P s
  | .error e => e = .assertion ∨ e = .noOutZhttp

theorem Live.closed (live : Live s) (none_out : s.messageFilters = none) (closed : Closed s s') :
    Live s' :=
  ⟨⟨closed.fine, (closed.sends none_out).agrees, closed.process.trans live.idle⟩,
    closed.finished.trans live.running⟩

theorem Live.none_out (live : Live s) (elsewhere : s.state ≠ .sendingQueue) :
    s.messageFilters = none := by
  cases out : s.messageFilters with
  | none => rfl
  | some qi => exact absurd (live.agrees qi out).1 elsewhere

theorem Live.update (live : Live s) (priority : Priority) : Live (s.update priority) := by
  obtain ⟨queue, filters, process, finished, _⟩ := update_kept s priority
  refine ⟨⟨update_fine live.fine live.running priority, ?_, process.trans live.idle⟩,
    finished.trans live.running⟩
  intro qi out
  obtain ⟨sending, first⟩ := live.agrees qi (filters.symm.trans out)
  exact ⟨update_sendingQueue sending priority, by rw [queue]; exact first⟩

theorem sendQueueDone_live (fine : s'.core.Fine) (none_out : s'.messageFilters = none)
    (running : s'.finished = false) :
    Live { s'.sendQueueDone with inProcessPublishQueue := false } := by
  have resting : ∀ {s₁ : Session}, s₁.core.Fine → s₁.messageFilters = none → s₁.finished = false →
      Live { s₁ with inProcessPublishQueue := false } :=
    fun fine₁ none₁ running₁ => ⟨⟨fine₁, agrees_of_none none₁, rfl⟩, running₁⟩
  unfold sendQueueDone
  split
  · exact resting fine none_out running
  · rename_i sending
    simp only [ne_eq, Decidable.not_not] at sending
    have open_ : ¬ s'.core.isClosing :=
      not_closing running (by simp [core, sending]) (by simp [core, sending])
    have none_deferred := fine_deferred_none fine open_ (by simp [sending])
    have holds : Core.Fine (core { s' with state := .holding }) := by
      refine ⟨by simp [core], ?_, fine.linked, ?_, fun closing => absurd closing
        (not_closing running (by simp [core]) (by simp [core]))⟩
      · intro pending
        exact absurd (fine.waiting pending) (by simp [core, sending])
      · intro some_deferred
        simp only [core, none_deferred] at some_deferred
        omega
    have still : ¬ Core.isClosing (core { s' with state := .holding }) :=
      not_closing running (by simp [core]) (by simp [core])
    -- the keep alive timer may have been started before the pending update
    have updated : ∀ {s₁ : Session}, s₁.core.Fine → s₁.messageFilters = none → s₁.finished = false →
        Live { (if s₁.needUpdate then s₁.update s₁.needUpdatePriority else s₁) with
          inProcessPublishQueue := false } := by
      intro s₁ fine₁ none₁ running₁
      split
      · obtain ⟨_, filters, _, finished, _⟩ := update_kept s₁ s₁.needUpdatePriority
        exact resting (update_fine fine₁ running₁ _) (filters.trans none₁) (finished.trans running₁)
      · exact resting fine₁ none₁ running₁
    simp only
    split
    · obtain ⟨_, filters, _, finished, _⟩ := setupKeepAlive_kept { s' with state := .holding }
      exact updated (setupKeepAlive_fine holds still) (filters.trans none_out)
        (finished.trans running)
    · exact updated holds none_out running

theorem processPublishQueue_returns (live : Live s) (state : s.state = .sendingQueue ∨
    s.state = .closing) : Returns Live (s.processPublishQueue lib) := by
  obtain ⟨s', loop, sends⟩ := processLoop_spec lib (s := { s with inProcessPublishQueue := true })
    s.publishQueue.length live.fine live.running live.agrees state (Nat.le_refl _)
  have running : s'.finished = false := sends.finished.trans live.running
  unfold processPublishQueue
  rw [if_neg (by simp [live.idle]), loop]
  simp only [bind, Except.bind, pure, Except.pure]
  split
  · exact ⟨⟨sends.fine, sends.agrees, rfl⟩, running⟩
  · rename_i none_out
    simp only [Bool.not_eq_true, Option.isSome_eq_false_iff, Option.isNone_iff_eq_none] at none_out
    split
    · exact sendQueueDone_live sends.fine none_out running
    · split
      · refine ⟨⟨?_, agrees_of_none none_out, rfl⟩, running⟩
        exact ⟨sends.fine.mode, sends.fine.waiting, sends.fine.linked, sends.fine.deferred,
          fun closing => ⟨rfl, (sends.fine.quiet closing).2⟩⟩
      · exact .inl rfl

structure Alike (s s' : Session) : Prop where
  core : s'.core = s.core
  queue : s'.publishQueue = s.publishQueue
  filters : s'.messageFilters = s.messageFilters
  process : s'.inProcessPublishQueue = s.inProcessPublishQueue

theorem writeBytesAvailable_alike {avail : Nat} (asked : s.writeBytesAvailable = (avail, s')) :
    Alike s s' := by
  cases asked
  exact ⟨rfl, rfl, rfl, rfl⟩

theorem filterContent_alike {result : Bytes ⊕ String} (asked : s.filterContent = (result, s')) :
    Alike s s' := by
  cases asked
  exact ⟨rfl, rfl, rfl, rfl⟩

theorem Live.alike (live : Live s) (alike : Alike s s') : Live s' := by
  refine ⟨⟨by rw [alike.core]; exact live.fine, ?_, alike.process.trans live.idle⟩,
    (congrArg Core.finished alike.core).trans live.running⟩
  intro qi out
  have same : s'.state = s.state := congrArg Core.state alike.core
  rw [same, alike.queue]
  exact live.agrees qi (alike.filters.symm.trans out)

structure Free (s : Session) : Prop extends Live s where
  none_out : s.messageFilters = none
  open_ : ¬ s.core.isClosing
  settled : s.pendingAction = false
  prompt : s.deferred = 0

theorem Free.alike (free : Free s) (alike : Alike s s') : Free s' :=
  ⟨free.toLive.alike alike, alike.filters.trans free.none_out, by rw [alike.core]; exact free.open_,
    (congrArg Core.pendingAction alike.core).trans free.settled,
      (congrArg Core.deferred alike.core).trans free.prompt⟩

section
variable (free : Free s) (state : State) (open_ : state ≠ .closing) (here : state ≠ .sendingGone)
  (elsewhere : state ≠ .proxying)
include free state open_ here elsewhere

theorem Free.fine_in : Core.Fine (core { s with state }) := by
  refine ⟨fun proxying => absurd proxying elsewhere, ?_, free.fine.linked, ?_, ?_⟩
  · intro pending
    simp only [Session.core, free.settled] at pending
    cases pending
  · intro some_deferred
    simp only [Session.core, free.prompt] at some_deferred
    omega
  · intro closing
    exact absurd closing (not_closing free.running open_ here)

theorem Free.live_in : Live { s with state } :=
  ⟨⟨free.fine_in state open_ here elsewhere, agrees_of_none free.none_out, free.idle⟩, free.running⟩

end

theorem Free.sendQueue (free : Free s) : Returns Live (s.sendQueue lib) :=
  processPublishQueue_returns lib (free.live_in .sendingQueue (by simp) (by simp) (by simp))
    (.inl rfl)

theorem Free.dropStale (free : Free s) : Free s.dropStale :=
  ⟨⟨⟨free.fine, agrees_of_none free.none_out, free.idle⟩, free.running⟩, free.none_out, free.open_,
    free.settled, free.prompt⟩

theorem Live.doError (live : Live s) (none_out : s.messageFilters = none) (errorMessage : String) :
    Live (doError lib { s with errorMessage }) := by
  have changed : Live { s with errorMessage } := live.alike ⟨rfl, rfl, rfl, rfl⟩
  exact changed.closed none_out (doError_closed lib changed.fine)

theorem Free.prepareToSendQueueOrHold (free : Free s) (first : Bool) :
    Returns Live (s.prepareToSendQueueOrHold lib first) := by
  have subscribed : Free s.subscribe := free.alike ⟨rfl, rfl, rfl, rfl⟩
  unfold Session.prepareToSendQueueOrHold
  split
  · exact .inl rfl
  · have holds := subscribed.live_in .holding (by simp) (by simp) (by simp)
    refine ⟨⟨⟨holds.fine.mode, holds.fine.waiting, holds.fine.linked, holds.fine.deferred, ?_⟩,
      holds.agrees, holds.idle⟩, holds.running⟩
    intro closing
    exact absurd closing (not_closing holds.running (by simp [Session.core])
      (by simp [Session.core]))
  · split
    · exact free.toLive.doError lib free.none_out _
    · simp only
      split
      · exact (subscribed.live_in .holding (by simp) (by simp) (by simp)).update .low
      · exact subscribed.dropStale.sendQueue lib

section
variable (free : Free s) (idle : s.state ≠ .proxying)
include free idle

theorem Free.doUpdate : Live s.doUpdate := by
  obtain ⟨_, filters, process, finished, _⟩ := doUpdate_kept s
  exact ⟨⟨(doUpdate_fine free.fine free.open_ idle).1, agrees_of_none (filters.trans free.none_out),
    process.trans free.idle⟩, finished.trans free.running⟩

theorem Free.firstInstructResponseDone : Returns Live (s.firstInstructResponseDone lib) := by
  unfold Session.firstInstructResponseDone
  split
  · split
    · exact .inl rfl
    · exact free.doUpdate idle
  · exact free.prepareToSendQueueOrHold lib true

theorem Free.tryWriteFirstInstructResponse :
    Returns Live (s.tryWriteFirstInstructResponse lib) := by
  unfold Session.tryWriteFirstInstructResponse
  rcases asked : s.writeBytesAvailable with ⟨avail, s₁⟩
  have free₁ := free.alike (writeBytesAvailable_alike asked)
  have idle₁ : s₁.state ≠ .proxying := by
    rw [show s₁.state = s.state from congrArg Core.state (writeBytesAvailable_alike asked).core]
    exact idle
  simp only
  split
  · have written : Free { s₁.writeBody (s₁.firstInstructResponse.take avail) with
        firstInstructResponse := s₁.firstInstructResponse.drop avail } :=
          free₁.alike ⟨rfl, rfl, rfl, rfl⟩
    split
    · exact written.firstInstructResponseDone lib idle₁
    · exact written.toLive
  · exact free₁.toLive

theorem Free.start : Returns Live (s.start lib) := by
  unfold Session.start
  split
  · exact .inl rfl
  · generalize begun : s.implicitSubscribe.limitChannels = s₀
    have free₀ : Free s₀ := by
      rw [← begun]
      exact free.alike ⟨rfl, rfl, rfl, rfl⟩
    have idle₀ : s₀.state ≠ .proxying := by
      rw [← begun]
      exact idle
    simp only
    split
    · generalize opened : s₀.beginResponse s₀.instruct.response.code s₀.instruct.response.reason
        (lib.opening s₀.adata s₀.instruct.response) = s₁
      have free₁ : Free s₁ := by
        rw [← opened]
        exact free₀.alike ⟨rfl, rfl, rfl, rfl⟩
      have idle₁ : s₁.state ≠ .proxying := by
        rw [← opened]
        exact idle₀
      split
      · rcases asked : s₁.filterContent with ⟨body | message, s₂⟩
        · have free₂ := free₁.alike (filterContent_alike asked)
          have first := free₂.fine_in .sendingFirstInstructResponse (by simp) (by simp) (by simp)
          refine Free.tryWriteFirstInstructResponse lib ?_ (by simp)
          exact ⟨⟨⟨first, agrees_of_none free₂.none_out, free₂.idle⟩, free₂.running⟩,
            free₂.none_out,
            not_closing free₂.running (by simp [Session.core]) (by simp [Session.core]),
              free₂.settled, free₂.prompt⟩
        · exact (free₁.alike (filterContent_alike asked)).toLive.doError lib
            ((filterContent_alike asked).filters.trans free₁.none_out) _
      · exact free₁.firstInstructResponseDone lib idle₁
    · exact free₀.firstInstructResponseDone lib idle₀

end

theorem Live.free (live : Live s) (resting : s.state = .notStarted ∨
    s.state = .sendingFirstInstructResponse ∨ s.state = .holding) : Free s := by
  have open_ : ¬ s.core.isClosing := by
    rcases resting with state | state | state <;>
      exact not_closing live.running (by simp [core, state]) (by simp [core, state])
  refine ⟨live, live.none_out ?_, open_, ?_, fine_deferred_none live.fine open_ ?_⟩
  · rcases resting with state | state | state <;> simp [state]
  · refine Bool.eq_false_iff.mpr fun pending => ?_
    have waits : s.state = .waitingToUpdate := live.fine.waiting pending
    rcases resting with state | state | state <;> simp [state] at waits
  · rcases resting with state | state | state <;> simp [state]

theorem Live.append (live : Live s) (qi : QueuedItem) :
    Live { s with publishQueue := s.publishQueue ++ [qi] } := by
  refine ⟨⟨live.fine, ?_, live.idle⟩, live.running⟩
  intro other out
  obtain ⟨sending, first⟩ := live.agrees other out
  exact ⟨sending, by rw [List.head?_append, first]; rfl⟩

theorem Live.publish (live : Live s) (item : Item) (exposeHeaders : List Bytes) :
    Returns Live (s.publish lib item exposeHeaders) := by
  have appended : ∀ qi : QueuedItem, Returns Live
      (if s.publishQueue.length < publishQueueMax then
        if s.state = .holding then Session.sendQueue lib
          { s with publishQueue := s.publishQueue ++ [qi] }
        else .ok { s with publishQueue := s.publishQueue ++ [qi] }
      else .ok s) := by
    intro qi
    split
    · split
      · rename_i holding
        exact ((live.append qi).free (.inr (.inr holding))).sendQueue lib
      · exact live.append qi
    · exact live
  unfold Session.publish
  simp only
  split
  · split
    · exact .inl rfl
    · split
      · exact appended _
      · exact live
  · split
    · exact appended _
    · exact live
  · exact live

theorem Returns.imp {P Q : Session → Prop} (weaker : ∀ s, P s → Q s)
    {outcome : Except Fault Session} (returns : Returns P outcome) : Returns Q outcome := by
  cases outcome with
  | ok s => exact weaker s returns
  | error e => exact returns

theorem finish_fine (fine : s.core.Fine) : s.finish.core.Fine := by
  have cancelled := cancelActivities_fine fine
  refine ⟨cancelled.mode, cancelled.waiting, cancelled.linked, ?_, ?_⟩
  · intro some_deferred
    obtain ⟨manager, mode, _⟩ := cancelled.deferred some_deferred
    exact ⟨manager, mode, .inr (.inr (.inr rfl))⟩
  · intro _
    exact ⟨rfl, rfl, rfl, fun _ => rfl⟩

theorem finish_sound (fine : s.core.Fine) (none_out : s.messageFilters = none)
    (idle : s.inProcessPublishQueue = false) : Sound s.finish :=
  ⟨finish_fine fine, agrees_of_none none_out, idle⟩

structure Over (s s' : Session) : Prop where
  fine : s'.core.Fine
  queue : s'.publishQueue = []
  filters : s'.messageFilters = s.messageFilters
  process : s'.inProcessPublishQueue = s.inProcessPublishQueue
  manager : s'.state = .sendingGone → s'.finished = false → s'.outZhttp = true

theorem doFinish_over (fine : s.core.Fine) : Returns (Over s) s.doFinish := by
  have without : s.cancelActivities.core.Fine := cancelActivities_fine fine
  have given_up : ∀ happenings : List Happening, (s.cancelActivities.note happenings).core.Fine ∧
      (s.cancelActivities.note happenings).pendingAction = false ∧
      (s.cancelActivities.note happenings).publishQueue = [] ∧
      (s.cancelActivities.note happenings).timer = false ∧
        (s.cancelActivities.note happenings).retryTimer = false ∧
      (s.cancelActivities.note happenings).messageFilters = s.messageFilters ∧
      (s.cancelActivities.note happenings).inProcessPublishQueue = s.inProcessPublishQueue :=
    fun _ => ⟨without, rfl, rfl, rfl, rfl, rfl, rfl⟩
  unfold Session.doFinish
  simp only
  obtain ⟨cancelled, pending, queue, timer, retry, filters, process⟩ :=
    given_up [.leave (s.channels.map Prod.fst)]
  generalize s.cancelActivities.note [.leave (s.channels.map Prod.fst)] = s₁
    at cancelled pending queue timer retry filters process
  split
  · split
    · rename_i manager
      refine ⟨⟨by simp [core, prepareOutReq], ?_, fun _ => manager, ?_, ?_⟩, queue, filters,
        process, fun _ _ => manager⟩
      · intro waits
        exact absurd (pending.symm.trans waits) (by simp)
      · intro some_deferred
        obtain ⟨no_manager, mode, _⟩ := cancelled.deferred some_deferred
        exact ⟨no_manager, mode, .inr (.inr (.inl rfl))⟩
      · intro _
        exact ⟨timer, retry, pending, by simp [core, prepareOutReq]⟩
    · exact .inr rfl
  · exact ⟨finish_fine cancelled, rfl, filters, process, fun _ running => by cases running⟩

theorem Live.doFinish (live : Live s) (none_out : s.messageFilters = none) :
    Returns Sound s.doFinish := by
  refine (doFinish_over live.fine).imp fun s' over_ => ?_
  exact ⟨over_.fine, agrees_of_none (over_.filters.trans none_out), over_.process.trans live.idle⟩

theorem cleanupOutReq_fine (fine : s.core.Fine) : s.cleanupOutReq.core.Fine := by
  obtain ⟨mode, waiting, linked, deferred, quiet⟩ := fine
  refine ⟨mode, waiting, ?_, deferred, ?_⟩
  · rintro (requested | retry)
    · cases requested
    · exact linked (.inr retry)
  · intro closing
    obtain ⟨timer, retry, pending, _⟩ := quiet closing
    exact ⟨timer, retry, pending, fun _ => rfl⟩

theorem Live.cleanupOutReq (live : Live s) : Live s.cleanupOutReq :=
  ⟨⟨cleanupOutReq_fine live.fine, live.agrees, live.idle⟩, live.running⟩

theorem Live.outReqError (live : Live s) (linked : s.outZhttp = true) :
    Returns Sound (s.outReqError lib) := by
  have cleaned := live.cleanupOutReq
  unfold Session.outReqError
  simp only
  split
  · rename_i proxying
    have none_out : s.cleanupOutReq.messageFilters = none := cleaned.none_out (by simp [proxying])
    split
    · obtain ⟨mode, waiting, _, deferred, _⟩ := cleaned.fine
      refine ⟨⟨mode, waiting, fun _ => linked, deferred, ?_⟩, cleaned.agrees, cleaned.idle⟩
      intro closing
      exact absurd closing (not_closing cleaned.running (by simp [core, proxying])
        (by simp [core, proxying]))
    · exact (cleaned.doError lib none_out _).toSound
  · rename_i gone
    exact finish_sound cleaned.fine (cleaned.none_out (by simp [gone])) cleaned.idle
  · exact .inl rfl

/-- A session that proxies a link from the manager: what it writes, it can also
    fail at, and then it closes. -/
structure Proxies (s : Session) : Prop extends Live s where
  linked : s.outZhttp = true
  proxying : s.state = .proxying

section
variable (proxies : Proxies s)
include proxies

theorem Proxies.alike (alike : Alike s s') : Proxies s' :=
  ⟨proxies.toLive.alike alike, (congrArg Core.outZhttp alike.core).trans proxies.linked,
    (congrArg Core.state alike.core).trans proxies.proxying⟩

theorem Proxies.none_out : s.messageFilters = none :=
  proxies.toLive.none_out (by simp [proxies.proxying])

theorem Proxies.open_ : ¬ s.core.isClosing :=
  not_closing proxies.running (by simp [core, proxies.proxying]) (by simp [core, proxies.proxying])

theorem Proxies.prompt : s.deferred = 0 := by
  by_contra some_deferred
  have no_manager : s.outZhttp = false :=
    (proxies.fine.deferred (Nat.pos_of_ne_zero some_deferred)).1
  rw [proxies.linked] at no_manager
  cases no_manager

theorem Proxies.free : Free s := by
  refine ⟨proxies.toLive, proxies.none_out, proxies.open_, ?_, proxies.prompt⟩
  refine Bool.eq_false_iff.mpr fun pending => ?_
  have waits : s.state = .waitingToUpdate := proxies.fine.waiting pending
  simp [proxies.proxying] at waits

theorem Proxies.proxyBody {more : Bool}
    (passed : s.proxyBody lib = (s', more)) : Live s' ∧ (more = true → Proxies s') := by
  have stays : ∀ {s₁ : Session}, Proxies s₁ → Live s₁ ∧ (true = true → Proxies s₁) :=
    fun proxies₁ => ⟨proxies₁.toLive, fun _ => proxies₁⟩
  revert passed
  unfold Session.proxyBody
  split
  · rintro ⟨⟩
    exact stays proxies
  · have rests : Proxies { s with timer := false } := by
      obtain ⟨mode, waiting, linked, deferred, _⟩ := proxies.fine
      exact ⟨⟨⟨⟨mode, waiting, linked, deferred, fun closing => absurd closing proxies.open_⟩,
        proxies.agrees, proxies.idle⟩, proxies.running⟩, proxies.linked, proxies.proxying⟩
    rcases asked : writeBytesAvailable { s with timer := false } with ⟨avail, s₁⟩
    have proxies₁ := rests.alike (writeBytesAvailable_alike asked)
    simp only
    split
    · rintro ⟨⟩
      exact ⟨proxies₁.toLive, by simp⟩
    · generalize taken : ({ s₁ with
        answers := { s₁.answers with outBody := s₁.answers.outBody.drop avail } } : Session) = s₂
      have proxies₂ : Proxies s₂ := by
        rw [← taken]
        exact proxies₁.alike ⟨rfl, rfl, rfl, rfl⟩
      split
      · rcases filtered : s₂.filterContent with ⟨buf | message, s₃⟩
        · rintro ⟨⟩
          exact stays ((proxies₂.alike (filterContent_alike filtered)).alike ⟨rfl, rfl, rfl, rfl⟩)
        · rintro ⟨⟩
          have proxies₃ := proxies₂.alike (filterContent_alike filtered)
          exact ⟨proxies₃.toLive.doError lib proxies₃.none_out _, by simp⟩
      · rintro ⟨⟩
        exact stays (proxies₂.alike ⟨rfl, rfl, rfl, rfl⟩)

theorem Proxies.proxyEnd {more : Bool}
    (passed : s.proxyEnd lib = (s', more)) : Live s' ∧ (more = true → Proxies s') := by
  revert passed
  unfold Session.proxyEnd
  split
  · rcases filtered : s.filterContent with ⟨buf | message, s₁⟩
    · have proxies₁ : Proxies { s₁ with responseFilters := false } :=
        (proxies.alike (filterContent_alike filtered)).alike ⟨rfl, rfl, rfl, rfl⟩
      simp only
      split
      · rintro ⟨⟩
        exact ⟨proxies₁.toLive, fun _ => proxies₁⟩
      · rintro ⟨⟩
        have proxies₂ : Proxies { writeBody { s₁ with responseFilters := false } buf with
          sentOutReqData := s₁.sentOutReqData + buf.length } := proxies₁.alike ⟨rfl, rfl, rfl, rfl⟩
        exact ⟨proxies₂.toLive, fun _ => proxies₂⟩
    · rintro ⟨⟩
      have proxies₁ := proxies.alike (filterContent_alike filtered)
      exact ⟨proxies₁.toLive.doError lib proxies₁.none_out _, by simp⟩
  · rintro ⟨⟩
    exact ⟨proxies.toLive, fun _ => proxies⟩

theorem Proxies.linkDone : Returns Live (s.linkDone lib) := by
  have cleaned := proxies.toLive.cleanupOutReq
  have proxies₁ : Proxies s.cleanupOutReq := ⟨cleaned, proxies.linked, proxies.proxying⟩
  unfold Session.linkDone
  simp only
  generalize turned : limitChannels { s.cleanupOutReq with
    retries := 0
    currentUri := s.nextUri
    nextUri := if s.cleanupOutReq.instruct.nextLink = "" then ""
      else lib.resolved s.nextUri s.cleanupOutReq.instruct.nextLink } = s₂
  have proxies₂ : Proxies s₂ := by
    rw [← turned]
    exact proxies₁.alike ⟨rfl, rfl, rfl, rfl⟩
  split
  · refine Free.prepareToSendQueueOrHold lib ?_ false
    split
    · obtain ⟨⟨⟨⟨mode, waiting, linked, deferred, _⟩, agrees, idle⟩, running⟩, none_out, open_,
          settled, prompt⟩ :=
        proxies₂.free
      exact ⟨⟨⟨⟨mode, waiting, linked, deferred, fun closing => absurd closing open_⟩, agrees,
        idle⟩, running⟩, none_out, open_, settled, prompt⟩
    · exact proxies₂.free
  · exact proxies₂.toLive

end

def GoesOn : Except Fault (Session × Bool) → Prop
  | .ok (s, more) => Sound s ∧ (more = true → Live s)
  | .error e => e = .assertion ∨ e = .noOutZhttp

theorem GoesOn.stops {outcome : Except Fault Session} (returns : Returns Sound outcome) :
    GoesOn (outcome.map fun s => (s, false)) := by
  cases outcome with
  | ok s => exact ⟨returns, by simp⟩
  | error e => exact returns

theorem GoesOn.continues {outcome : Except Fault Session} (returns : Returns Live outcome) :
    GoesOn (outcome.map fun s => (s, true)) := by
  cases outcome with
  | ok s => exact ⟨returns.toSound, fun _ => returns⟩
  | error e => exact returns

theorem Live.processOutReq (live : Live s) : GoesOn (s.processOutReq lib) := by
  unfold Session.processOutReq
  split
  · exact ⟨live.toSound, fun _ => live⟩
  · rename_i requested
    have linked : s.outZhttp = true := live.fine.linked (.inl (Bool.not_eq_false _ ▸ requested))
    split
    · exact ⟨live.toSound, by simp⟩
    · split
      · exact .stops (live.outReqError lib linked)
      · split
        · rename_i proxying
          have proxies : Proxies s := ⟨live, linked, proxying⟩
          rcases passed : s.proxyBody lib with ⟨s₁, _ | _⟩
          · exact ⟨(proxies.proxyBody lib passed).1.toSound, by simp⟩
          · have proxies₁ := (proxies.proxyBody lib passed).2 rfl
            simp only
            split
            · rcases ended : s₁.proxyEnd lib with ⟨s₂, _ | _⟩
              · exact ⟨(proxies₁.proxyEnd lib ended).1.toSound, by simp⟩
              · exact .continues (((proxies₁.proxyEnd lib ended).2 rfl).linkDone lib)
            · exact ⟨proxies₁.toSound, fun _ => proxies₁.toLive⟩
        · rename_i gone
          split
          · exact .stops (live.outReqError lib linked)
          · split
            · have cleaned := live.cleanupOutReq
              exact ⟨finish_sound cleaned.fine
                (cleaned.none_out (by simp [Session.cleanupOutReq, gone])) cleaned.idle,
                by simp⟩
            · exact ⟨live.toSound, fun _ => live⟩
        · exact .inl rfl

theorem Live.requestNextLink (live : Live s) (open_ : ¬ s.core.isClosing)
    (linked : s.outZhttp = true ∨ s.state = .proxying) : Live s.requestNextLink := by
  obtain ⟨queue, filters, process, finished, _⟩ := requestNextLink_kept s
  refine ⟨⟨requestNextLink_fine live.fine open_ linked, ?_, process.trans live.idle⟩,
    finished.trans live.running⟩
  intro qi out
  obtain ⟨sending, first⟩ := live.agrees qi (filters.symm.trans out)
  refine ⟨?_, by rw [queue]; exact first⟩
  unfold Session.requestNextLink
  split <;> exact sending

theorem Live.tryProcessOutReq (live : Live s) : Returns Sound (s.tryProcessOutReq lib) := by
  have processed := live.processOutReq lib
  unfold Session.tryProcessOutReq
  rcases outcome : s.processOutReq lib with e | ⟨s₁, more⟩
  · rw [outcome] at processed
    exact processed
  · rw [outcome] at processed
    obtain ⟨sound, goes_on⟩ := processed
    simp only [bind, Except.bind, pure, Except.pure]
    split
    · rename_i free
      obtain ⟨continues, proxying, _⟩ := free
      have live₁ := goes_on continues
      split
      · rcases asked : s₁.writeBytesAvailable with ⟨avail, s₂⟩
        have live₂ := live₁.alike (writeBytesAvailable_alike asked)
        have proxying₂ : s₂.state = .proxying :=
          (congrArg Core.state (writeBytesAvailable_alike asked).core).trans proxying
        simp only
        split
        · refine (live₂.requestNextLink ?_ (.inr proxying₂)).toSound
          exact not_closing live₂.running (by simp [core, proxying₂]) (by simp [core, proxying₂])
        · exact live₂.toSound
      · have none_out := live₁.none_out (by simp [proxying])
        have closed := live₁.closed none_out (prepareToClose_closed live₁.fine)
        exact ⟨closed.fine, closed.agrees, closed.idle⟩
    · exact sound

theorem Proxies.instructed (proxies : Proxies s) (i : Instruct)
    (stream : i.holdMode ≠ .responseHold) (haveOutReqHeaders responseFilters : Bool) :
    Live { s with haveOutReqHeaders, instruct := i, responseFilters } := by
  refine ⟨⟨⟨fun _ => stream, proxies.fine.waiting, proxies.fine.linked, ?_,
    fun closing => absurd closing proxies.open_⟩, proxies.agrees, proxies.idle⟩, proxies.running⟩
  intro some_deferred
  simp only [Session.core, proxies.prompt] at some_deferred
  omega

section
variable (live : Live s)
include live

theorem Live.outReqReadyRead (linked : s.outZhttp = true) :
    Returns Sound (s.outReqReadyRead lib) := by
  have headed : Live { s with haveOutReqHeaders := true } := live.alike ⟨rfl, rfl, rfl, rfl⟩
  unfold Session.outReqReadyRead
  split
  · exact live.tryProcessOutReq lib
  · simp only
    split
    · rename_i proxying
      have proxies : Proxies s := ⟨live, linked, proxying⟩
      split
      · exact (headed.doError lib proxies.none_out _).toSound
      · split
        · exact (headed.doError lib proxies.none_out _).toSound
        · rename_i i _ stream
          exact (proxies.instructed i stream true true).tryProcessOutReq lib
    · exact headed.tryProcessOutReq lib

theorem Live.timerTimeout (fires : s.timer = true)
    (none_out : s.instruct.holdMode = .responseHold → s.messageFilters = none) :
    Live (s.timerTimeout lib) := by
  have open_ : ¬ s.core.isClosing := fun closing => by
    have rests : s.timer = false := (live.fine.quiet closing).1
    rw [fires] at rests
    cases rests
  obtain ⟨mode, waiting, linked, deferred, _⟩ := live.fine
  have fired : Live { s with timer := false } :=
    ⟨⟨⟨mode, waiting, linked, deferred, fun closing => absurd closing open_⟩, live.agrees,
      live.idle⟩, live.running⟩
  unfold Session.timerTimeout
  simp only
  split
  · rename_i responds
    exact fired.closed (none_out responds) (respond_closed lib fired.fine _)
  · have written : Live (writeBody { s with timer := false } s.instruct.keepAliveData) :=
      fired.alike ⟨rfl, rfl, rfl, rfl⟩
    obtain ⟨queue, filters, process, finished, _⟩ :=
      setupKeepAlive_kept (writeBody { s with timer := false } s.instruct.keepAliveData)
    refine ⟨⟨setupKeepAlive_fine written.fine open_, ?_, process.trans written.idle⟩,
      finished.trans written.running⟩
    intro qi out
    obtain ⟨sending, first⟩ := written.agrees qi (filters.symm.trans out)
    refine ⟨?_, by rw [queue]; exact first⟩
    unfold setupKeepAlive
    split <;> exact sending
  · exact fired

theorem Live.writeBytesChanged : Returns Sound (s.writeBytesChanged lib) := by
  have sound : ∀ s, Live s → Sound s := fun _ live => live.toSound
  unfold Session.writeBytesChanged
  split
  · rename_i first
    exact ((live.free (.inr (.inl first))).tryWriteFirstInstructResponse lib (by simp [first])).imp
      sound
  · exact live.tryProcessOutReq lib
  · rename_i sending
    rcases asked : s.writeBytesAvailable with ⟨avail, s₁⟩
    have alike := writeBytesAvailable_alike asked
    have live₁ := live.alike alike
    simp only
    split
    · exact (processPublishQueue_returns lib live₁
        (.inl ((congrArg Core.state alike.core).trans sending))).imp sound
    · exact live₁.toSound
  · exact live.toSound

theorem Live.messageFiltersFinished {qi : QueuedItem}
    (out : s.messageFilters = some qi) (result : FilterResult) :
    Returns Live (s.messageFiltersFinished lib result) := by
  obtain ⟨sending, first⟩ := live.agrees qi out
  obtain ⟨rest, queue⟩ := List.head?_eq_some_iff.mp first
  obtain ⟨s', resumes, finished, sends, _, _⟩ :=
    filtersFinished_spec lib live.fine live.running sending queue result
  have live' : Live s' :=
    ⟨⟨sends.fine, sends.agrees, sends.process.trans live.idle⟩, sends.finished.trans live.running⟩
  unfold Session.messageFiltersFinished
  rw [finished]
  simp only [bind, Except.bind, pure, Except.pure]
  split
  · exact processPublishQueue_returns lib live' sends.state
  · exact live'

theorem Live.deferredError (put_off : 0 < s.deferred) :
    Live (Session.doError lib { s with deferred := s.deferred - 1 }) := by
  obtain ⟨no_manager, mode, state⟩ := live.fine.deferred put_off
  have elsewhere : s.state ≠ .sendingQueue := by
    rcases state with proxying | closing | gone | finished
    · exact fun sending => by simp [core, sending] at proxying
    · exact fun sending => by simp [core, sending] at closing
    · exact fun sending => by simp [core, sending] at gone
    · exact absurd finished (by simp [core, live.running])
  have taken : Live { s with deferred := s.deferred - 1 } :=
    ⟨⟨⟨live.fine.mode, live.fine.waiting, live.fine.linked, fun _ => ⟨no_manager, mode, state⟩,
      live.fine.quiet⟩, live.agrees, live.idle⟩, live.running⟩
  exact taken.closed (live.none_out elsewhere) (doError_closed lib taken.fine)

end

theorem Sound.delete (sound : Sound s) :
    Sound { s with deleted := true, messageFilters := none, deferred := 0 } := by
  obtain ⟨⟨mode, waiting, linked, _, quiet⟩, _, idle⟩ := sound
  exact ⟨⟨mode, waiting, linked, fun put_off => absurd put_off (Nat.lt_irrefl 0), quiet⟩,
    agrees_of_none rfl, idle⟩

theorem isClosing_iff : s.isClosing = true ↔ s.core.isClosing := by
  simp [isClosing, Core.isClosing, core, or_assoc]

theorem undisturbed_iff {event : SessionEvent × Answers} : s.undisturbed event = true ↔
    (s.messageFilters ≠ none → s.cancels event.1 = false) ∧
    (event.1 = .deferredError → s.isClosing = true → s.adata.debug = false) ∧
    (s.finished = true → event.1 = .delete) := by
  have out_iff : s.messageFilters.isSome = true ↔ s.messageFilters ≠ none :=
    Option.isSome_iff_ne_none
  unfold undisturbed
  rw [← out_iff]
  cases s.messageFilters.isSome <;> cases s.cancels event.1 <;> cases s.isClosing <;>
    cases s.adata.debug <;>
    cases s.finished <;> simp

theorem possible_iff {event : SessionEvent × Answers} (can : s.possible event = true) :
    (event.1 = .start → s.state = .notStarted) ∧ (event.1 = .actionRuns → s.pendingAction = true) ∧
    (∀ result, event.1 = .filtersFinish result → s.messageFilters ≠ none) ∧
    (event.1 = .timerTimeout → s.timer = true) ∧ (event.1 = .retryTimeout → s.retryTimer = true) ∧
    (event.1 = .outReqReadyRead ∨ event.1 = .outReqError → s.outReq = true) ∧
    (event.1 = .deferredError → 0 < s.deferred) := by
  obtain ⟨event, answers⟩ := event
  cases event <;> simp_all [possible, Option.isSome_iff_ne_none]

theorem step_returns (sound : Sound s) {event : SessionEvent × Answers}
    (can : s.possible event = true) (cancels : s.messageFilters ≠ none → s.cancels event.1 = false)
    (only_delete : s.finished = true → event.1 = .delete) :
    Returns Sound (step lib s event) := by
  obtain ⟨start, actionRuns, filtersFinish, timerTimeout, retryTimeout, outReq, deferred⟩ :=
    possible_iff can
  obtain ⟨event, answers⟩ := event
  have answered : Sound { s with answers } := ⟨sound.fine, sound.agrees, sound.idle⟩
  by_cases finished : s.finished = true
  · obtain rfl : event = .delete := only_delete finished
    exact answered.delete
  · have live : Live { s with answers } := ⟨answered, Bool.eq_false_iff.mpr finished⟩
    have weaker : ∀ s, Live s → Sound s := fun _ live => live.toSound
    have none_out : s.cancels event = true → s.messageFilters = none := by
      intro drops
      by_contra out
      rw [cancels out] at drops
      cases drops
    unfold step handle
    cases event with
    | start => exact ((live.free (.inl (start rfl))).start lib (by simp [start rfl])).imp weaker
    | publish item exposeHeaders => exact (live.publish lib item exposeHeaders).imp weaker
    | update => exact (live.update .low).toSound
    | actionRuns =>
      have waits : s.state = .waitingToUpdate := sound.fine.waiting (actionRuns rfl)
      have open_ : ¬ s.core.isClosing :=
        not_closing live.running (by simp [core, waits]) (by simp [core, waits])
      obtain ⟨_, filters, process, _, _⟩ := doUpdate_kept { s with answers }
      refine ⟨(doUpdate_fine answered.fine open_ (by simp [waits])).1,
        agrees_of_none (filters.trans ?_), process.trans sound.idle⟩
      exact live.none_out (by simp [waits])
    | filtersFinish result =>
      obtain ⟨qi, out⟩ := Option.ne_none_iff_exists'.mp (filtersFinish result rfl)
      exact (live.messageFiltersFinished lib out result).imp weaker
    | timerTimeout =>
      exact (live.timerTimeout lib (timerTimeout rfl) fun responds =>
        none_out (decide_eq_true responds)).toSound
    | retryTimeout =>
      have fires := retryTimeout rfl
      have open_ : ¬ s.core.isClosing := fun closing => by
        have rests : s.retryTimer = false := (sound.fine.quiet closing).2.1
        rw [fires] at rests
        cases rests
      have linked : s.outZhttp = true := sound.fine.linked (.inr fires)
      have fired : Live { s with answers, retryTimer := false } :=
        ⟨⟨⟨sound.fine.mode, sound.fine.waiting, fun _ => linked, sound.fine.deferred,
          fun closing => absurd closing open_⟩, sound.agrees, sound.idle⟩, live.running⟩
      exact (fired.requestNextLink open_ (.inl linked)).toSound
    | bytesWritten reqFinished =>
      cases reqFinished with
      | false => exact answered
      | true => exact live.doFinish (none_out rfl)
    | writeBytesChanged => exact live.writeBytesChanged lib
    | reqError => exact live.doFinish (none_out rfl)
    | reqPaused => exact live.doFinish (none_out rfl)
    | outReqReadyRead =>
        exact live.outReqReadyRead lib (sound.fine.linked (.inl (outReq (.inl rfl))))
    | outReqError => exact live.outReqError lib (sound.fine.linked (.inl (outReq (.inr rfl))))
    | deferredError => exact (live.deferredError lib (deferred rfl)).toSound
    | delete => exact answered.delete

def Silent (s : Session) : Except Fault Session → Prop
  | .ok s' => s'.written = s.written ∧ s'.isClosing = true
  | .error _ => True

theorem update_shut (shut : s.state = .closing ∨ s.state = .sendingGone) (priority : Priority) :
    s.update priority = s := by
  unfold update
  rcases shut with state | state <;> simp only [state]

theorem writeBytesChanged_shut (shut : s.state = .closing ∨ s.state = .sendingGone) :
    s.writeBytesChanged lib = .ok s := by
  unfold writeBytesChanged
  rcases shut with state | state <;> simp only [state]

theorem doError_silent (stream : s.instruct.holdMode ≠ .responseHold)
    (no_debug : s.adata.debug = false) : Silent s (.ok (s.doError lib)) := by
  have silent : s.prepareToClose.adata.debug = false := no_debug
  unfold doError
  rw [if_neg stream]
  simp only [silent]
  exact ⟨rfl, rfl⟩

theorem finish_written (s : Session) : s.finish.written = s.written := rfl

theorem finish_closing (s : Session) : s.finish.isClosing = true := by
  simp [finish, note, isClosing]

theorem doFinish_silent : Silent s s.doFinish := by
  unfold doFinish
  simp only
  split
  · split
    · exact ⟨rfl, by simp [isClosing, prepareOutReq]⟩
    · trivial
  · exact ⟨finish_written s.cancelActivities, finish_closing _⟩

theorem outReqError_gone (gone : s.state = .sendingGone) :
    s.outReqError lib = .ok s.cleanupOutReq.finish := by
  have gone' : s.cleanupOutReq.state = .sendingGone := gone
  simp only [outReqError, gone']

section
variable (requested : s.outReq = true) (gone : s.state = .sendingGone)
include requested gone

theorem tryProcessOutReq_gone :
    s.tryProcessOutReq lib = .ok s ∨ s.tryProcessOutReq lib = .ok s.cleanupOutReq.finish := by
  have outcome : s.processOutReq lib = .ok (s, false) ∨ s.processOutReq lib = .ok (s, true) ∨
      s.processOutReq lib = .ok (s.cleanupOutReq.finish, false) := by
    simp only [processOutReq, requested, gone, outReqError_gone lib gone]
    split_ifs <;> simp [Except.map]
  unfold tryProcessOutReq
  rcases outcome with stops | goes_on | ends
  · rw [stops]
    exact .inl rfl
  · rw [goes_on]
    simp only [bind, Except.bind, gone]
    exact .inl rfl
  · rw [ends]
    exact .inr rfl

theorem tryProcessOutReq_silent : Silent s (s.tryProcessOutReq lib) := by
  rcases tryProcessOutReq_gone lib requested gone with waits | ends
  · rw [waits]
    exact ⟨rfl, by simp [isClosing, gone]⟩
  · rw [ends]
    exact ⟨finish_written s.cleanupOutReq, finish_closing _⟩

theorem outReqReadyRead_silent : Silent s (s.outReqReadyRead lib) := by
  have elsewhere : s.state ≠ .proxying := by simp [gone]
  unfold outReqReadyRead
  split
  · exact tryProcessOutReq_silent lib requested gone
  · simp only
    rw [if_neg elsewhere]
    exact tryProcessOutReq_silent lib (s := { s with haveOutReqHeaders := true }) requested gone

end

theorem step_silent (sound : Sound s) (closing : s.isClosing = true)
    {event : SessionEvent × Answers} (can : s.possible event = true)
    (calm : s.undisturbed event = true) : Silent s (step lib s event) := by
  obtain ⟨start, actionRuns, filtersFinish, timerTimeout, retryTimeout, outReq, deferred⟩ :=
    possible_iff can
  obtain ⟨_, error, only_delete⟩ := undisturbed_iff.mp calm
  have quiet := sound.fine.quiet (isClosing_iff.mp closing)
  obtain ⟨event, answers⟩ := event
  by_cases finished : s.finished = true
  · obtain rfl : event = .delete := only_delete finished
    exact ⟨rfl, closing⟩
  · have shut : s.state = .closing ∨ s.state = .sendingGone := by
      rcases isClosing_iff.mp closing with closed | gone | ended
      · exact .inl closed
      · exact .inr gone
      · exact absurd ended finished
    have elsewhere : s.state ≠ .sendingQueue ∧ s.state ≠ .holding ∧ s.state ≠ .waitingToUpdate ∧
        s.state ≠ .proxying ∧ s.state ≠ .notStarted := by
      rcases shut with state | state <;> simp [state]
    have same : Silent s (.ok { s with answers }) := ⟨rfl, closing⟩
    have requested_gone : s.outReq = true → s.state = .sendingGone := by
      intro requested
      rcases shut with closed | gone
      · have none_there : s.outReq = false := quiet.2.2.2 closed
        rw [requested] at none_there
        cases none_there
      · exact gone
    unfold step handle
    cases event with
    | start => exact absurd (start rfl) elsewhere.2.2.2.2
    | publish item exposeHeaders =>
      unfold publish
      simp only [elsewhere, or_self, ↓reduceIte]
      split
      · split
        · trivial
        · exact same
      · exact same
      · exact same
    | update =>
      simp only [update_shut (s := { s with answers }) shut]
      exact same
    | actionRuns =>
      have pending : s.pendingAction = true := actionRuns rfl
      have none_there : s.pendingAction = false := quiet.2.2.1
      rw [pending] at none_there
      cases none_there
    | filtersFinish result =>
      obtain ⟨qi, out⟩ := Option.ne_none_iff_exists'.mp (filtersFinish result rfl)
      exact absurd (sound.agrees qi out).1 elsewhere.1
    | timerTimeout =>
      have none_there : s.timer = false := quiet.1
      rw [timerTimeout rfl] at none_there
      cases none_there
    | retryTimeout =>
      have none_there : s.retryTimer = false := quiet.2.1
      rw [retryTimeout rfl] at none_there
      cases none_there
    | bytesWritten reqFinished =>
      cases reqFinished with
      | false => exact same
      | true => exact doFinish_silent
    | writeBytesChanged =>
      simp only [writeBytesChanged_shut lib (s := { s with answers }) shut]
      exact same
    | reqError => exact doFinish_silent
    | reqPaused => exact doFinish_silent
    | outReqReadyRead =>
      have requested : s.outReq = true := outReq (.inl rfl)
      exact outReqReadyRead_silent lib (s := { s with answers }) requested
        (requested_gone requested)
    | outReqError =>
      simp only [outReqError_gone lib (s := { s with answers })
        (requested_gone (outReq (.inr rfl)))]
      exact ⟨finish_written _, finish_closing _⟩
    | deferredError =>
      have stream : s.instruct.holdMode ≠ .responseHold := (sound.fine.deferred (deferred rfl)).2.1
      have no_debug : s.adata.debug = false := error rfl closing
      exact doError_silent lib (s := { s with answers, deferred := s.deferred - 1 }) stream no_debug
    | delete => exact ⟨rfl, closing⟩

def stepped (lib : Libraries) (s : Session) (event : SessionEvent × Answers) : Option Session :=
  (step lib s event).toOption

def admits (s : Session) (event : SessionEvent × Answers) : Bool :=
  s.possible event && s.undisturbed event

theorem run_sound (sound : Sound s) {events : List (SessionEvent × Answers)}
    (along : Runs.along (stepped lib) admits s events = true)
    (ran : Runs.run (stepped lib) s events = some s') :
    Sound s' ∧ (s.isClosing = true → s'.written = s.written) := by
  induction events generalizing s with
  | nil =>
    cases ran
    exact ⟨sound, fun _ => rfl⟩
  | cons event events ih =>
    simp only [Runs.along, Bool.and_eq_true] at along
    obtain ⟨s₁, took, ran'⟩ := Option.bind_eq_some_iff.mp ran
    rw [took] at along
    obtain ⟨can, calm⟩ := Bool.and_eq_true_iff.mp along.1
    obtain ⟨cancels, -, only_delete⟩ := undisturbed_iff.mp calm
    have returns := step_returns lib sound can cancels only_delete
    have silent := fun closing => step_silent lib sound closing can calm
    have outcome : step lib s event = .ok s₁ := by
      cases outcome : step lib s event with
      | error e => simp [stepped, outcome, Except.toOption] at took
      | ok s₂ => simpa [stepped, outcome, Except.toOption] using took
    rw [outcome] at returns silent
    obtain ⟨sound', written⟩ := ih returns along.2 ran'
    refine ⟨sound', fun closing => ?_⟩
    obtain ⟨same, closing₁⟩ := silent closing
    exact (written closing₁).trans same

theorem new_sound (adata : AcceptData) (instruct : Instruct) (connectionSubscriptionMax : Nat)
    (outZhttp : Bool) (currentUri nextUri goneUri : String) (answers : Answers) :
    Sound (new adata instruct connectionSubscriptionMax outZhttp currentUri nextUri goneUri
      answers) := by
  refine ⟨⟨by simp [core, new], by simp [core, new], by simp [core, new], by simp [core, new], ?_⟩,
    agrees_of_none rfl, rfl⟩
  intro closing
  exact absurd closing (not_closing rfl (by simp [core, new]) (by simp [core, new]))

/-- In every run of undisturbed events, an outstanding filter stack belongs to the
    first item of the queue, no event takes from an empty queue, and nothing is
    written once the session has begun to close. -/
theorem outstanding_filters_agree_with_queue (lib : Libraries) (adata : AcceptData)
    (instruct : Instruct) (connectionSubscriptionMax : Nat) (outZhttp : Bool)
    (currentUri nextUri goneUri : String) (answers : Answers)
    (events : List (SessionEvent × Answers))
    (undisturbed : Runs.along (stepped lib) admits
      (new adata instruct connectionSubscriptionMax outZhttp currentUri nextUri goneUri answers)
      events = true)
    (taken later : List (SessionEvent × Answers)) (front : taken ++ later <+: events) (s : Session)
    (reached : Runs.run (stepped lib)
      (new adata instruct connectionSubscriptionMax outZhttp currentUri nextUri goneUri answers)
      taken = some s) :
    (∀ qi, s.messageFilters = some qi → s.publishQueue.head? = some qi) ∧
    (∀ event, later.head? = some event → step lib s event ≠ .error .emptyQueue) ∧
    (s.isClosing = true → ∀ s', Runs.run (stepped lib) s later = some s' →
    s'.written = s.written) := by
  obtain ⟨rest, rfl⟩ := front
  have checked := Runs.along_front undisturbed
  rw [Runs.along_append reached, Bool.and_eq_true] at checked
  have sound := (run_sound lib (new_sound ..) checked.1 reached).1
  refine ⟨fun qi out => (sound.agrees qi out).2, ?_, ?_⟩
  · intro event next
    obtain ⟨later', rfl⟩ := List.head?_eq_some_iff.mp next
    simp only [Runs.along, Bool.and_eq_true] at checked
    obtain ⟨can, calm⟩ := Bool.and_eq_true_iff.mp checked.2.1
    obtain ⟨cancels, -, only_delete⟩ := undisturbed_iff.mp calm
    have returns := step_returns lib sound can cancels only_delete
    intro fault
    rw [fault] at returns
    rcases returns with assertion | missing
    · cases assertion
    · cases missing
  · intro closing s' ran
    exact (run_sound lib sound checked.2 ran).2 closing

def exampleLibraries : Libraries where
  resolved := fun _ link => link
  targetsMessage := fun _ => false
  applyBodyPatch := fun body _ => body
  opening := fun _ response => response.headers
  render := fun _ response => response
  sameHeader := fun a b => a == b

def exampleAnswers : Answers := ⟨[8], [none], [], 200, [], false, .inr "", []⟩

def exampleHold : Session :=
  new ⟨false, false, [], false, "", [], false⟩
    ⟨.responseHold, [⟨"c", none, []⟩], 30, .noKeepAlive, [], -1,
      ⟨200, [], [], []⟩, "", ""⟩ 8 false "/" "" ""
    exampleAnswers

def exampleItem : Item := ⟨"c", none, none, ⟨.httpResponse, .send, 200, [], [], [], none, none⟩⟩

theorem outstanding_filters_agree_on_published_item :
    ∃ s, Runs.run (stepped exampleLibraries) exampleHold
        [(.start, exampleAnswers), (.publish exampleItem [], exampleAnswers)] = some s ∧
      s.messageFilters = some ⟨exampleItem, []⟩ ∧
        s.publishQueue.head? = some ⟨exampleItem, []⟩ := by
  refine ⟨_, rfl, rfl, ?_⟩
  exact (outstanding_filters_agree_with_queue exampleLibraries exampleHold.adata
    exampleHold.instruct 8 false "/" "" ""
    exampleAnswers [(.start, exampleAnswers), (.publish exampleItem [], exampleAnswers),
      (.filtersFinish (.passed .send []), exampleAnswers)] (by decide +kernel)
    [(.start, exampleAnswers), (.publish exampleItem [], exampleAnswers)]
    [(.filtersFinish (.passed .send []), exampleAnswers)] (List.prefix_refl _) _ rfl).1 _ rfl

/-- The hold times out while the filter is outstanding: the queue is cleared under
    it, and its result finds the queue empty. -/
theorem timeout_clears_queue_under_filter :
    ∃ events : List (SessionEvent × Answers),
      Runs.along (stepped exampleLibraries) possible exampleHold events = true ∧
      ∃ s, Runs.run (stepped exampleLibraries) exampleHold events = some s ∧
        s.messageFilters = some ⟨exampleItem, []⟩ ∧ s.publishQueue = [] ∧
        s.possible (.filtersFinish (.passed .send []), exampleAnswers) = true ∧
        step exampleLibraries s (.filtersFinish (.passed .send []), exampleAnswers) =
          .error .emptyQueue := by
  refine ⟨[(.start, exampleAnswers), (.publish exampleItem [], exampleAnswers),
    (.timerTimeout, exampleAnswers)],
    by decide +kernel, _, rfl, ?_⟩
  decide +kernel

end Session
end PushpinHttpSession
