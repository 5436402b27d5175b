import Pushpin.Foundations.Runs
import Pushpin.Handler.Filters
import Pushpin.Handler.HttpSession

/-!
`WsSession`, a WebSocket connection that published items are sent to. The session
calls out of itself when it starts filters and when it sends, and either may come
back before it returns. The calls that have not returned are on a stack, and each
event runs the session up to its next call out, so that every order of nested calls
is a list of events.
-/
namespace PushpinWsSession
open OrderedMaps PushpinFormat Runs
open PushpinHttpSession (Channel FormatType FormatAction FilterResult)

inductive MessageType where
  | text
  | binary
  | ping
  | pong
deriving DecidableEq, Repr

structure PublishFormat where
  type : FormatType
  action : FormatAction
  code : Int
  reason : Bytes
  body : Bytes
  messageType : Option MessageType
  contentFilters : Option (List String)
deriving DecidableEq, Repr

structure Item where
  channel : String
  format : PublishFormat
deriving DecidableEq, Repr

inductive ControlType where
  | send (contentType : String) (message : Bytes)
  | close (code : Int) (reason : Bytes)
  | refresh
deriving DecidableEq, Repr

structure ControlItem where
  cid : String
  type : ControlType
deriving DecidableEq, Repr

structure WsSession where
  cid : String
  debug : Bool
  channels : OrderedMap String Channel
  publishQueue : List Item
  filters : Bool
  inProcessPublishQueue : Bool
  closed : Bool

def emptyChannel : Channel := ⟨"", none, []⟩

def targetsMessageContent (name : String) : Bool :=
  name = "build-id" || name = "var-subst" || name = "http-modify"

def contentType : MessageType → String
  | .text => "text"
  | .binary => "binary"
  | .ping => "ping"
  | .pong => "pong"

def controlType (f : PublishFormat) (content : Bytes) : Option ControlType :=
  match f.action with
  | .send => f.messageType.map fun type => .send (contentType type) content
  | .close => some (.close f.code f.reason)
  | .refresh => some .refresh
  | .hint => none

def closeErrorCode : Int := 1011

namespace WsSession

/-- `channels[channel]`, which puts an empty entry where there is none. -/
def touch (s : WsSession) (channel : String) : WsSession :=
  match s.channels.get? channel with
  | some _ => s
  | none => { s with channels := s.channels.insert channel emptyChannel }

def lookUp (s : WsSession) (item : Item) : WsSession :=
  if item.format.contentFilters.isSome then s.touch item.channel else s

def filtersOf (s : WsSession) (channel : String) : List String :=
  ((s.channels.get? channel).getD emptyChannel).filters

def contentMismatch (s : WsSession) (item : Item) : Bool :=
  match item.format.contentFilters with
  | none => false
  | some expected => (s.filtersOf item.channel).filter targetsMessageContent ≠ expected

def closeError (s : WsSession) (message : String) : ControlItem :=
  ⟨s.cid, .close closeErrorCode (if s.debug then PushpinFilters.toUtf8 message else [])⟩

end WsSession

/-- A call out of the session that has not returned, and who made it. -/
inductive Call where
  | startInLoop
  | sendInLoop
  | sendAfterFilters
  | closeAfterFilters
  | closeOutside
deriving DecidableEq, Repr

/-- The history: an item that left the queue, with what was sent for it, and a
    close that no item of the queue asked for. -/
inductive Entry where
  | consumed (item : Item) (sent : Option ControlItem)
  | closeError (sent : ControlItem)
deriving DecidableEq, Repr

structure Machine where
  session : WsSession
  calls : List Call
  published : List Item
  log : List Entry

section
-- the text of a content filter mismatch, which the source reads from the item after it removed it
variable (mismatchText : Item → String)

/-- The loop of `processPublishQueue` from this queue on, up to its next call out. -/
def queueLoop (s : WsSession) : List Item → WsSession × List Entry × List Call
  | [] => ({ s with publishQueue := [], inProcessPublishQueue := false }, [], [])
  | item :: rest =>
    if s.closed || s.filters then
      ({ s with publishQueue := item :: rest, inProcessPublishQueue := false }, [], [])
    else
      let s := s.lookUp item
      if s.contentMismatch item then
        if s.debug then
          ({ s with publishQueue := rest, closed := true },
            [.consumed item none, .closeError (s.closeError (mismatchText item))], [.sendInLoop])
        else
          let (s, entries, calls) := queueLoop s rest
          (s, .consumed item none :: entries, calls)
      else ({ s.touch item.channel with publishQueue := item :: rest, filters := true }, [],
        [.startInLoop])

namespace Machine

def continueLoop (m : Machine) : Machine :=
  let (session, entries, calls) := queueLoop mismatchText m.session m.session.publishQueue
  { m with session := session, log := m.log ++ entries, calls := calls ++ m.calls }

def processPublishQueue (m : Machine) : Option Machine :=
  if m.session.inProcessPublishQueue then none
  else some (continueLoop mismatchText
    { m with session := { m.session with inProcessPublishQueue := true } })

def resume (m : Machine) : Option Machine :=
  if m.session.inProcessPublishQueue then some m else m.processPublishQueue mismatchText

def publish (m : Machine) (item : Item) : Option Machine :=
  if item.format.type ≠ .webSocketMessage then some m
  else resume mismatchText { m with
    session := { m.session with publishQueue := m.session.publishQueue ++ [item] }
    published := m.published ++ [item] }

def sendCloseError (m : Machine) (message : String) (call : Call) : Machine :=
  { m with
    session := { m.session with closed := true }
    log := m.log ++ [.closeError (m.session.closeError message)]
    calls := call :: m.calls }

def filtersFinished (m : Machine) (result : FilterResult) : Option Machine :=
  match m.session.publishQueue with
  | [] => none
  | item :: rest =>
    let m := { m with session := { m.session with publishQueue := rest, filters := false } }
    let dropped := { m with log := m.log ++ [Entry.consumed item none] }
    match result with
    | .failed e =>
      if m.session.debug then
        some (dropped.sendCloseError ("filter error: " ++ e) .closeAfterFilters)
      else dropped.resume mismatchText
    | .passed .drop _ => dropped.resume mismatchText
    | .passed .send content =>
      match controlType item.format content with
      | none => dropped.resume mismatchText
      | some type => some { m with
          session := { m.session with closed := m.session.closed || item.format.action = .close }
          log := m.log ++ [.consumed item (some ⟨m.session.cid, type⟩)]
          calls := .sendAfterFilters :: m.calls }

def returns (m : Machine) : Option Machine :=
  match m.calls with
  | [] => none
  | call :: calls =>
    let m := { m with calls := calls }
    match call with
    | .startInLoop => some (m.continueLoop mismatchText)
    | .sendInLoop => some { m with session := { m.session with inProcessPublishQueue := false } }
    | .sendAfterFilters => m.resume mismatchText
    | .closeAfterFilters | .closeOutside => some m

end Machine

/-- What reaches the session, from outside or from a call that it has made. The
    handler changes the subscriptions and the debug flag at any time. -/
inductive Event where
  | publish (item : Item)
  | filtersFinished (result : FilterResult)
  | returns
  | sendCloseError (message : String)
  | setChannels (channels : OrderedMap String Channel)
  | setDebug (debug : Bool)

namespace Machine

def step (m : Machine) : Event → Option Machine
  | .publish item => m.publish mismatchText item
  | .filtersFinished result => m.filtersFinished mismatchText result
  | .returns => m.returns mismatchText
  | .sendCloseError message => some (m.sendCloseError message .closeOutside)
  | .setChannels channels => some { m with session := { m.session with channels := channels } }
  | .setDebug debug => some { m with session := { m.session with debug := debug } }

/-- Filters finish only while they run, and a call returns only if there is one. -/
def possible (m : Machine) : Event → Bool
  | .filtersFinished _ => m.session.filters
  | .returns => m.calls ≠ []
  | _ => true

end Machine

namespace Machine

/-- No close is asked for from outside while the filters of an item run. -/
def settled (m : Machine) : Event → Bool
  | .sendCloseError _ => !m.session.filters
  | _ => true

def new (cid : String) : Machine :=
  ⟨⟨cid, false, OrderedMap.empty, [], false, false, false⟩, [], [], []⟩

end Machine

def Entry.item? : Entry → Option Item
  | .consumed item _ => some item
  | .closeError _ => none

def Entry.sentItem? : Entry → Option Item
  | .consumed item (some _) => some item
  | _ => none

def Entry.closes : Entry → Bool
  | .consumed item (some _) => item.format.action = .close
  | .consumed _ none => false
  | .closeError _ => true

def Entry.Genuine (cid : String) : Entry → Prop
  | .consumed item (some sent) => ∃ content type, controlType item.format content = some type ∧
    sent = ⟨cid, type⟩
  | _ => True

def quietAfterClose : List Entry → Prop
  | [] => True
  | entry :: rest => (entry.closes = true → rest.filterMap Entry.sentItem? = []) ∧
    quietAfterClose rest

namespace Machine

structure Valid (cid : String) (m : Machine) : Prop where
  history : m.log.filterMap Entry.item? ++ m.session.publishQueue = m.published
  waiting : m.session.filters = true → m.session.publishQueue ≠ []
  genuine : ∀ entry ∈ m.log, entry.Genuine cid
  named : m.session.cid = cid

end Machine

variable {mismatchText} {cid : String}

section
variable (s : WsSession) (channel : String)
include s channel

@[simp] theorem touch_cid : (s.touch channel).cid = s.cid := by
  unfold WsSession.touch
  split <;> rfl

@[simp] theorem touch_filters : (s.touch channel).filters = s.filters := by
  unfold WsSession.touch
  split <;> rfl

@[simp] theorem touch_closed : (s.touch channel).closed = s.closed := by
  unfold WsSession.touch
  split <;> rfl

end

@[simp] theorem lookUp_cid (s : WsSession) (item : Item) : (s.lookUp item).cid = s.cid := by
  unfold WsSession.lookUp
  split_ifs <;> simp

@[simp] theorem lookUp_filters (s : WsSession) (item : Item) :
    (s.lookUp item).filters = s.filters := by
  unfold WsSession.lookUp
  split_ifs <;> simp

@[simp] theorem lookUp_closed (s : WsSession) (item : Item) :
    (s.lookUp item).closed = s.closed := by
  unfold WsSession.lookUp
  split_ifs <;> simp

/-- What one pass of the loop does: it consumes a front of the queue and sends
    nothing of it. It starts filters only if the session is open. -/
structure Passed (s : WsSession) (queue : List Item) (next : WsSession) (entries : List Entry) :
    Prop where
  history : entries.filterMap Entry.item? ++ next.publishQueue = queue
  named : next.cid = s.cid
  silent : ∀ entry ∈ entries, entry.sentItem? = none
  waiting : next.filters = true → s.filters = true ∨ next.publishQueue ≠ []
  idle : next.closed = true → next.filters = true → s.closed = true ∧ s.filters = true
  still : s.closed = true → next.closed = true
  known : (∃ entry ∈ entries, entry.closes = true) → next.closed = true
  unread : s.filters = true → next.publishQueue = queue

theorem queueLoop_passed (mismatchText : Item → String) (s : WsSession) (queue : List Item) :
    Passed s queue (queueLoop mismatchText s queue).1 (queueLoop mismatchText s queue).2.1 := by
  induction queue generalizing s with
  | nil =>
      exact ⟨rfl, rfl, by simp [queueLoop], fun running => Or.inl running, fun closed running =>
        ⟨closed, running⟩,
      fun closed => closed, by simp [queueLoop], fun _ => rfl⟩
  | cons item rest ih =>
    by_cases stopped : (s.closed || s.filters) = true
    · simp only [queueLoop, if_pos stopped]
      exact ⟨rfl, rfl, by simp, fun running => Or.inl running, fun closed running =>
        ⟨closed, running⟩, fun closed => closed, by simp, fun _ => rfl⟩
    · simp only [queueLoop, if_neg stopped]
      simp only [Bool.or_eq_true, not_or, Bool.not_eq_true] at stopped
      obtain ⟨isOpen, idle⟩ := stopped
      split_ifs with mismatch debug
      · refine ⟨rfl, by simp, by simp [Entry.sentItem?], ?_, ?_, fun _ => rfl, fun _ => rfl, ?_⟩
        · intro running
          simp [idle] at running
        · intro _ running
          simp [idle] at running
        · intro running
          rw [idle] at running
          cases running
      · have later := ih (s.lookUp item)
        refine ⟨?_, later.named.trans (lookUp_cid s item), ?_, ?_, ?_, ?_, ?_, ?_⟩
        · simp only [List.filterMap_cons, Entry.item?, List.cons_append, later.history]
        · intro entry mem
          rcases List.mem_cons.mp mem with rfl | mem
          · rfl
          · exact later.silent entry mem
        · simpa using later.waiting
        · simpa using later.idle
        · simpa using later.still
        · rintro ⟨entry, mem, closes⟩
          rcases List.mem_cons.mp mem with rfl | mem
          · cases closes
          · exact later.known ⟨entry, mem, closes⟩
        · intro running
          rw [idle] at running
          cases running
      · refine ⟨rfl, by simp, by simp, fun _ => Or.inr (List.cons_ne_nil item rest), ?_,
          ?_, by simp, fun _ => rfl⟩
        · intro closed
          simp [isOpen] at closed
        · intro closed
          rw [isOpen] at closed
          cases closed

namespace Machine
variable {m : Machine}

theorem continueLoop_valid (valid : m.Valid cid) : (m.continueLoop mismatchText).Valid cid := by
  have passed := queueLoop_passed mismatchText m.session m.session.publishQueue
  refine ⟨?_, ?_, ?_, passed.named.trans valid.named⟩
  · simp only [continueLoop, List.filterMap_append, List.append_assoc]
    rw [passed.history, valid.history]
  · intro running
    rcases passed.waiting running with before | some_left
    · exact (passed.unread before).symm ▸ valid.waiting before
    · exact some_left
  · intro entry mem
    rcases List.mem_append.mp mem with old | new
    · exact valid.genuine entry old
    · have silent := passed.silent entry new
      cases entry with
      | consumed item sent =>
        cases sent with
        | none => trivial
        | some sent => cases silent
      | closeError sent => trivial

theorem resume_valid (valid : m.Valid cid) : ∃ next, m.resume mismatchText = some next ∧
    next.Valid cid := by
  unfold resume processPublishQueue
  split_ifs
  · exact ⟨m, rfl, valid⟩
  · refine ⟨_, rfl, continueLoop_valid ?_⟩
    exact ⟨valid.history, valid.waiting, valid.genuine, valid.named⟩

theorem publish_valid (valid : m.Valid cid) (item : Item) :
    ∃ next, m.publish mismatchText item = some next ∧ next.Valid cid := by
  unfold publish
  split_ifs
  · exact ⟨m, rfl, valid⟩
  · refine resume_valid ⟨?_, fun _ => by simp, valid.genuine, valid.named⟩
    rw [← List.append_assoc, valid.history]

theorem sendCloseError_valid (valid : m.Valid cid) (message : String) (call : Call) :
    (m.sendCloseError message call).Valid cid := by
  refine ⟨?_, valid.waiting, ?_, valid.named⟩
  · simp only [sendCloseError, List.filterMap_append, List.filterMap_cons, Entry.item?,
      List.filterMap_nil, List.append_nil]
    exact valid.history
  · intro entry mem
    rcases List.mem_append.mp mem with old | new
    · exact valid.genuine entry old
    · rw [List.mem_singleton.mp new]
      trivial

theorem drop_valid (valid : m.Valid cid) {item : Item} {rest : List Item}
    (queue : m.session.publishQueue = item :: rest) :
    Valid cid { m with
      session := { m.session with publishQueue := rest, filters := false }
      log := m.log ++ [.consumed item none] } := by
  refine ⟨?_, (nomatch ·), ?_, valid.named⟩
  · have history := valid.history
    rw [queue] at history
    simpa [Entry.item?] using history
  · intro entry mem
    rcases List.mem_append.mp mem with old | new
    · exact valid.genuine entry old
    · rw [List.mem_singleton.mp new]
      trivial

theorem filtersFinished_valid (valid : m.Valid cid) (running : m.session.filters = true)
    (result : FilterResult) :
    ∃ next, m.filtersFinished mismatchText result = some next ∧ next.Valid cid := by
  unfold filtersFinished
  cases queue : m.session.publishQueue with
  | nil => exact (valid.waiting running queue).elim
  | cons item rest =>
    have dropped := drop_valid valid queue
    cases result with
    | failed e =>
      dsimp only
      split_ifs
      · exact ⟨_, rfl, sendCloseError_valid dropped _ _⟩
      · exact resume_valid dropped
    | passed action content =>
      cases action with
      | drop => exact resume_valid dropped
      | send =>
        cases control : controlType item.format content with
        | none =>
          simp only [control]
          exact resume_valid dropped
        | some type =>
          simp only [control]
          refine ⟨_, rfl, ?_, (nomatch ·), ?_, valid.named⟩
          · have history := valid.history
            rw [queue] at history
            simpa [Entry.item?] using history
          · intro entry mem
            rcases List.mem_append.mp mem with old | new
            · exact valid.genuine entry old
            · rw [List.mem_singleton.mp new]
              exact ⟨content, type, control, by rw [valid.named]⟩

theorem returns_valid (valid : m.Valid cid) (pending : m.calls ≠ []) :
    ∃ next, m.returns mismatchText = some next ∧ next.Valid cid := by
  unfold returns
  cases stack : m.calls with
  | nil => exact (pending stack).elim
  | cons call calls =>
    have popped : Valid cid { m with calls := calls } :=
      ⟨valid.history, valid.waiting, valid.genuine, valid.named⟩
    cases call with
    | startInLoop => exact ⟨_, rfl, continueLoop_valid popped⟩
    | sendInLoop => exact ⟨_, rfl, valid.history, valid.waiting, valid.genuine, valid.named⟩
    | sendAfterFilters => exact resume_valid popped
    | closeAfterFilters => exact ⟨_, rfl, popped⟩
    | closeOutside => exact ⟨_, rfl, popped⟩

theorem step_valid (valid : m.Valid cid) (event : Event) (fits : m.possible event = true) :
    ∃ next, m.step mismatchText event = some next ∧ next.Valid cid := by
  cases event with
  | publish item => exact publish_valid valid item
  | filtersFinished result => exact filtersFinished_valid valid fits result
  | returns => exact returns_valid valid (of_decide_eq_true fits)
  | sendCloseError message => exact ⟨_, rfl, sendCloseError_valid valid message .closeOutside⟩
  | setChannels channels => exact ⟨_, rfl, valid.history, valid.waiting, valid.genuine, valid.named⟩
  | setDebug debug => exact ⟨_, rfl, valid.history, valid.waiting, valid.genuine, valid.named⟩

theorem new_valid (cid : String) : (new cid).Valid cid :=
  ⟨rfl, (nomatch ·), fun _ mem => (List.not_mem_nil mem).elim, rfl⟩

variable (mismatchText)

end Machine
end

namespace Machine

def textItem (channel : String) (body : Bytes) : Item :=
  ⟨channel, ⟨.webSocketMessage, .send, -1, [], body, some .text, none⟩⟩

/-- The filters of an item finish after the handler has closed the session, as it
    does when a subscription has too many filters. -/
def lateEvents : List Event :=
  [.publish (textItem "c" [104]), .returns, .sendCloseError "too many filters for channel 'd'",
    .returns, .filtersFinished (.passed .send [104])]

theorem item_sent_after_close :
    along (step fun _ => "") possible (new "a") lateEvents = true ∧
      ∃ m, run (step fun _ => "") (new "a") lateEvents = some m ∧ ¬ quietAfterClose m.log := by
  refine ⟨rfl, _, rfl, ?_⟩
  rintro ⟨quiet, _⟩
  cases quiet rfl

end Machine
end PushpinWsSession
