import Mathlib.Data.List.Dedup
import Pushpin.Foundations.Text
import Pushpin.Handler.Sequencer

/-!
`HttpSession`, a request that is held open for published items. Every signal and
timer that reaches the session is an event. What the session asks of its
surroundings while it handles the event (how much the request can take, what a
filter stack answers at once, what the request for a link has received) is in the
answers of that event. Retry packets, statistics, log lines and the registration
with the update manager are left out: nothing here reads them back.
-/
namespace PushpinHttpSession
open PushpinHandler

abbrev Bytes := List UInt8
abbrev HttpHeaders := List (Bytes × Bytes)

def publishQueueMax : Nat := 100
def retryMax : Nat := 5

inductive HoldMode where
  | noHold
  | responseHold
  | streamHold
  deriving DecidableEq, Repr

inductive KeepAliveMode where
  | noKeepAlive
  | idle
  | interval
  deriving DecidableEq, Repr

structure Channel where
  name : String
  prevId : Option String
  filters : List String
  deriving DecidableEq, Repr

structure Response where
  code : Nat
  reason : Bytes
  headers : HttpHeaders
  body : Bytes
  deriving DecidableEq, Repr

structure Instruct where
  holdMode : HoldMode
  channels : List Channel
  timeout : Int
  keepAliveMode : KeepAliveMode
  keepAliveData : Bytes
  keepAliveTimeout : Int
  response : Response
  nextLink : String
  goneLink : String
  deriving DecidableEq, Repr

inductive FormatType where
  | httpResponse
  | httpStream
  | webSocketMessage
  deriving DecidableEq, Repr

inductive FormatAction where
  | send
  | hint
  | refresh
  | close
  deriving DecidableEq, Repr

structure PublishFormat where
  type : FormatType
  action : FormatAction
  code : Nat
  reason : Bytes
  headers : HttpHeaders
  body : Bytes
  bodyPatch : Option Bytes
  contentFilters : Option (List String)
  deriving DecidableEq, Repr

abbrev Item := PublishItem String PublishFormat

structure QueuedItem where
  item : Item
  exposeHeaders : List Bytes
  deriving DecidableEq

inductive SendAction where
  | send
  | drop
  deriving DecidableEq, Repr

inductive FilterResult where
  | failed (errorMessage : String)
  | passed (sendAction : SendAction) (content : Bytes)
  deriving DecidableEq, Repr

structure AcceptData where
  debug : Bool
  autoCrossOrigin : Bool
  jsonpCallback : Bytes
  jsonpExtendedResponse : Bool
  channelPrefix : String
  implicitChannels : List String
  responseSent : Bool
  deriving DecidableEq, Repr

inductive State where
  | notStarted
  | sendingFirstInstructResponse
  | waitingToUpdate
  | pausing
  | proxying
  | sendingQueue
  | holding
  | closing
  | sendingGone
  deriving DecidableEq, Repr

inductive Priority where
  | low
  | high
  deriving DecidableEq, Repr

inductive Output where
  | begin (code : Nat) (reason : Bytes) (headers : HttpHeaders)
  | body (bytes : Bytes)
  deriving DecidableEq, Repr

/-- What happens to the channels of a session, in order. The start, a hold and the
    end of the request come with the callbacks that they make: the channels that are
    subscribed to and unsubscribed from. A hold has the ids that its channels begin
    with, an item that does not follow the one before it the number of outputs so
    far, and the fetch of a link the `Grip-Last` values that it sends, by channel. -/
inductive Happening where
  | start (subscribed : List String)
  | hold (unsubscribed subscribed : List String) (prevIds : List (String × Option String))
  | process (item : Item)
  | breakOff (item : Item) (written : Nat)
  | fetch (lasts : List (String × String))
  | leave (unsubscribed : List String)
  | finish
  deriving DecidableEq

/-- What the surroundings answer during one event. `writable` has the values of
    `writeBytesAvailable` in the order of the calls, `filters` the answers of the
    filter stacks that are started, where `none` is a stack that finishes later,
    and `contents` the results of the content filters or their error messages. -/
structure Answers where
  writable : List Nat
  filters : List (Option FilterResult)
  contents : List (Bytes ⊕ String)
  outCode : Nat
  outBody : Bytes
  outFinished : Bool
  instruct : Instruct ⊕ String
  lastIds : List (String × String)
  deriving DecidableEq

structure Libraries where
  resolved : String → String → String
  targetsMessage : String → Bool
  applyBodyPatch : Bytes → Bytes → Bytes
  opening : AcceptData → Response → HttpHeaders
  render : AcceptData → Response → Response
  sameHeader : Bytes → Bytes → Bool

/-- `messageFilters` is the item that the outstanding stack was started with.
    `outReq` and `responseFilters` are whether there is one, `deferred` counts the
    calls of `doError` put off, and `finished` is whether the session has been
    handed over for its deletion. The history is nowhere in the source. -/
structure Session where
  state : State
  adata : AcceptData
  instruct : Instruct
  connectionSubscriptionMax : Nat
  channels : List (String × Channel)
  timer : Bool
  retryTimer : Bool
  outZhttp : Bool
  outReq : Bool
  firstInstructResponse : Bytes
  haveOutReqHeaders : Bool
  sentOutReqData : Nat
  retries : Nat
  errorMessage : String
  currentUri : String
  nextUri : String
  goneUri : String
  needUpdate : Bool
  needUpdatePriority : Priority
  pendingAction : Bool
  publishQueue : List QueuedItem
  inProcessPublishQueue : Bool
  messageFilters : Option QueuedItem
  responseFilters : Bool
  paused : Bool
  deferred : Nat
  finished : Bool
  deleted : Bool
  written : List Output
  ended : Nat
  history : List Happening
  answers : Answers
  deriving DecidableEq

/-- `assertion` is a failed assertion, `emptyQueue` taking from an empty queue,
    `noOutZhttp` a request made with no manager, and `rounds` a loop that has used
    up its rounds. -/
inductive Fault where
  | assertion
  | emptyQueue
  | noOutZhttp
  | rounds
  deriving DecidableEq, Repr

namespace Session

def note (s : Session) (happenings : List Happening) : Session :=
  { s with history := s.history ++ happenings }

def writeBody (s : Session) (body : Bytes) : Session :=
  { s with written := s.written ++ [.body body] }

def beginResponse (s : Session) (code : Nat) (reason : Bytes) (headers : HttpHeaders) : Session :=
  { s with written := s.written ++ [.begin code reason headers] }

def endBody (s : Session) : Session := { s with ended := s.ended + 1 }

def writeBytesAvailable (s : Session) : Nat × Session :=
  (s.answers.writable.headD 0,
    { s with answers := { s.answers with writable := s.answers.writable.tail } })

def filterContent (s : Session) : (Bytes ⊕ String) × Session :=
  (s.answers.contents.headD (.inr ""),
    { s with answers := { s.answers with contents := s.answers.contents.tail } })

def startFilters (s : Session) : Option FilterResult × Session :=
  (s.answers.filters.headD none,
    { s with answers := { s.answers with filters := s.answers.filters.tail } })

def channel? (s : Session) (name : String) : Option Channel :=
  (s.channels.find? (·.1 = name)).map Prod.snd

def cleanupOutReq (s : Session) : Session := { s with outReq := false, responseFilters := false }

def cancelAction (s : Session) : Session := { s with pendingAction := false }

/-- `HttpSession::holdMode`, as others see it: no hold is a temporary state of a stream. -/
def holdMode (s : Session) : HoldMode :=
  if s.instruct.holdMode = .noHold then .streamHold else s.instruct.holdMode

/-- The outstanding filter stack is not among the activities. -/
def cancelActivities (s : Session) : Session :=
  { s.cleanupOutReq.cancelAction with publishQueue := [], timer := false, retryTimer := false }

def prepareToClose (s : Session) : Session := { s with state := .closing }.cancelActivities

def setupKeepAlive (s : Session) : Session :=
  if s.instruct.keepAliveTimeout ≥ 0 then { s with timer := true } else s

def adjustKeepAlive (s : Session) : Session :=
  if s.instruct.keepAliveMode = .idle then s.setupKeepAlive else s

def prepareOutReq (s : Session) : Session :=
  { s with haveOutReqHeaders := false, sentOutReqData := 0, outReq := true }

def gripLast (channel : Channel) : Option String :=
  channel.prevId.map fun id => channel.name ++ "; last-id=" ++ id

def requestNextLink (s : Session) : Session :=
  if s.outZhttp then
    let lasts := s.channels.filterMap fun entry => (gripLast entry.2).map fun last =>
      (entry.1, last)
    s.prepareOutReq.note [.fetch lasts]
  else { s with
    errorMessage := "Instruct contained link, but handler not configured for outbound requests."
    deferred := s.deferred + 1 }

def doUpdate (s : Session) : Session :=
  if s.instruct.holdMode = .responseHold then
    { s with pendingAction := false, state := .pausing, timer := false, paused := true }
  else requestNextLink { s with pendingAction := false, state := .proxying }

def flagUpdate (s : Session) (priority : Priority) : Session :=
  if s.needUpdate then
    if priority = .high then { s with needUpdatePriority := priority } else s
  else { s with needUpdate := true, needUpdatePriority := priority }

def updateHolding (s : Session) (priority : Priority) : Session :=
  let s := { s with needUpdate := false }
  if s.instruct.holdMode ≠ .responseHold ∧ s.nextUri = "" then s
  else match priority with
    | .high => s.doUpdate
    | .low => { s with state := .waitingToUpdate, pendingAction := true }

def update (s : Session) (priority : Priority) : Session :=
  match s.state with
  | .proxying => s.flagUpdate priority
  | .sendingQueue => s.flagUpdate priority
  | .waitingToUpdate =>
    match priority with
    | .high => updateHolding { s.cancelAction with state := .holding } priority
    | .low => s
  | .holding => s.updateHolding priority
  | _ => s

def sendQueueDone (s : Session) : Session :=
  if s.state ≠ .sendingQueue then s
  else
    let s := { s with state := .holding }
    let s := if s.instruct.holdMode = .streamHold ∧ s.timer = false then s.setupKeepAlive else s
    if s.needUpdate then s.update s.needUpdatePriority else s

def respond (lib : Libraries) (s : Session) (response : Response) : Session :=
  let sent := lib.render s.adata response
  (((s.prepareToClose.beginResponse sent.code sent.reason sent.headers).writeBody
    sent.body).endBody)

/-- Headers of the item replace those of the timeout response, and headers that
    are to be exposed are left out. -/
def respondExposed (lib : Libraries) (s : Session) (response : Response)
    (exposeHeaders : List Bytes) : Session :=
  let kept := s.instruct.response.headers.filter fun h => !response.headers.any fun r =>
    lib.sameHeader h.1 r.1
  let headers :=
    (kept ++ response.headers).filter fun h => !exposeHeaders.any fun e => lib.sameHeader h.1 e
  s.respond lib { response with headers }

def doError (lib : Libraries) (s : Session) : Session :=
  if s.instruct.holdMode = .responseHold then
    let msg := if s.adata.debug then s.errorMessage else "Error while proxying to origin."
    s.respond lib ⟨502, Text.ascii "Bad Gateway",
      [(Text.ascii "Content-Type", Text.ascii "text/plain")], (msg ++ "\n").toUTF8.toList⟩
  else
    let s := s.prepareToClose
    let s := if s.adata.debug then s.writeBody ("\n\n" ++ s.errorMessage ++ "\n").toUTF8.toList
      else s
    s.endBody

def followItem (s : Session) (item : Item) : Session :=
  let s := s.note [.process item]
  match s.channel? item.channel with
  | none => { s with channels := s.channels ++ [(item.channel, ⟨"", none, []⟩)] }
  | some channel =>
    if channel.prevId.isSome then
      { s with channels := s.channels.map fun entry =>
          if entry.1 = item.channel then (entry.1, { channel with prevId := item.id }) else entry }
    else s

def processItem (lib : Libraries) (s : Session) (qi : QueuedItem) (sendAction : SendAction)
    (content : Bytes) : Session :=
  let f := qi.item.rest
  let s := s.followItem qi.item
  match s.instruct.holdMode, sendAction with
  | .responseHold, .send =>
    match f.action with
    | .send => s.respondExposed lib ⟨f.code, f.reason, f.headers, content⟩ qi.exposeHeaders
    | .hint => s.update .high
    | _ => s
  | .streamHold, .send =>
    match f.action with
    | .send => (s.writeBody content).adjustKeepAlive
    | .hint => { s with publishQueue := [] }.update .high
    | .close => s.prepareToClose.endBody
    | .refresh => s
  | _, _ => s

/-- `messageFiltersFinished` up to the point where it resumes the queue. The flag
    is whether it gets there. -/
def filtersFinished (lib : Libraries) (s : Session) (result : FilterResult) :
    Except Fault (Session × Bool) :=
  match s.publishQueue with
  | [] => .error .emptyQueue
  | qi :: rest =>
    let s := { s with publishQueue := rest, messageFilters := none }
    match result with
    | .failed errorMessage =>
      if s.adata.debug then
        .ok (doError lib { s with errorMessage := "filter error: " ++ errorMessage }, false)
      else .ok (s, true)
    | .passed sendAction content => .ok (s.processItem lib qi sendAction content, true)

def contentFilters (lib : Libraries) (channel : Channel) : List String :=
  channel.filters.filter lib.targetsMessage

def mismatch (subscription : List String) (message : Option (List String)) : String :=
  "content filter mismatch: subscription=" ++ ",".intercalate subscription ++ " message=" ++
    ",".intercalate (message.getD [])

def goesOn (s : Session) : Bool × Session :=
  if s.state ≠ .sendingQueue ∨ s.publishQueue = [] then (false, s)
  else
    let (avail, s) := s.writeBytesAvailable
    (decide (avail > 0) && s.messageFilters.isNone, s)

def filterItem (lib : Libraries) (s : Session) (qi : QueuedItem) : Except Fault (Bool × Session) :=
  match { s with messageFilters := some qi }.startFilters with
  | (none, s) => .ok (false, s)
  | (some result, s) => (s.filtersFinished lib result).map fun done => (true, done.1)

/-- The item follows what the channel has seen, if the channel follows items. An id
    that is missing compares as an empty one. -/
def follows (channel : Channel) (item : Item) : Bool :=
  channel.prevId.isNone || decide (channel.prevId.getD "" = item.prevId.getD "")

def processRound (lib : Libraries) (s : Session) : Except Fault (Bool × Session) :=
  match s.publishQueue with
  | [] => .ok (false, s)
  | qi :: rest =>
    match s.channel? qi.item.channel with
    | none => .ok (true, { s with publishQueue := rest })
    | some channel =>
      if follows channel qi.item = false then
        .ok (false, ({ s with publishQueue := [] }.note [.breakOff qi.item s.written.length]).update
          .low)
      else if qi.item.rest.contentFilters.any fun filters =>
        decide (contentFilters lib channel ≠ filters) then
        if s.adata.debug then
          .ok (false, doError lib { s with
            publishQueue := rest
            errorMessage := mismatch (contentFilters lib channel) qi.item.rest.contentFilters })
        else .ok (true, { s with publishQueue := rest })
      else s.filterItem lib qi

def processLoop (lib : Libraries) : Nat → Session → Except Fault Session
  | 0, s => if s.goesOn.1 then .error .rounds else .ok s.goesOn.2
  | rounds + 1, s =>
    match s.goesOn with
    | (false, s) => .ok s
    | (true, s) =>
      match s.processRound lib with
      | .error e => .error e
      | .ok (false, s) => .ok s
      | .ok (true, s) => processLoop lib rounds s

def processPublishQueue (lib : Libraries) (s : Session) : Except Fault Session :=
  if s.inProcessPublishQueue then .error .assertion
  else do
    let s ← processLoop lib s.publishQueue.length { s with inProcessPublishQueue := true }
    if s.messageFilters.isSome then return { s with inProcessPublishQueue := false }
    else if s.state ≠ .sendingQueue ∨ s.publishQueue = [] then
      return { s.sendQueueDone with inProcessPublishQueue := false }
    else if s.instruct.holdMode = .streamHold then
      -- the request takes no more: the timers rest until it does
      return { s with timer := false, inProcessPublishQueue := false }
    else .error .assertion

def sendQueue (lib : Libraries) (s : Session) : Except Fault Session :=
  processPublishQueue lib { s with state := .sendingQueue }

def takeUp (channels : List (String × Channel)) (name : String) (c : Channel) :
    List (String × Channel) :=
  if channels.any (·.1 = name) then
    channels.map fun entry =>
      if entry.1 = name then (entry.1, { entry.2 with prevId := c.prevId, filters := c.filters })
        else entry
  else channels ++ [(name, c)]

def wanted (s : Session) : List (String × Channel) :=
  s.instruct.channels.map fun c => (s.adata.channelPrefix ++ c.name, c)

def stays (s : Session) (name : String) : Bool :=
  s.adata.implicitChannels.contains name || s.wanted.any (·.1 = name)

def subscribe (s : Session) : Session :=
  let kept := s.channels.filter fun entry => s.stays entry.1
  let updated := s.wanted.foldl (fun channels entry => takeUp channels entry.1 entry.2) kept
  let removed := (s.channels.filter fun entry => !s.stays entry.1).map Prod.fst
  let added := (updated.map Prod.fst).filter fun name => !kept.any (·.1 = name)
  let held := s.wanted.map fun entry => (entry.1, entry.2.prevId)
  { s with channels := updated }.note [.hold removed added held]

/-- The last id published on a channel is not the one that the hold begins with. -/
def conflicts (s : Session) : Bool :=
  s.instruct.channels.any fun c => match c.prevId with
    | none => false
    | some prevId => (s.answers.lastIds.find? (·.1 = s.adata.channelPrefix ++ c.name)).any
        (·.2 ≠ prevId)

def dropStale (s : Session) : Session :=
  { s with publishQueue := s.publishQueue.dropWhile fun qi => match s.channel? qi.item.channel with
      | none => true
      | some channel => !follows channel qi.item }

def prepareToSendQueueOrHold (lib : Libraries) (s : Session) (first : Bool) :
    Except Fault Session :=
  match s.instruct.holdMode with
  | .noHold => .error .assertion
  | .responseHold =>
    let s := s.subscribe
    .ok { s with state := .holding, timer := s.timer || decide (s.instruct.timeout ≥ 0) }
  | .streamHold =>
    match (if s.nextUri = "" then s.instruct.channels.find? fun c => c.prevId.isSome else none) with
    | some c => .ok (doError lib { s with
        errorMessage := "channel '" ++ c.name ++ "' specifies prev-id, but no next link found" })
    | none =>
      let s := s.subscribe
      if first && s.conflicts then .ok ({ s with state := .holding }.update .low)
      else s.dropStale.sendQueue lib

def firstInstructResponseDone (lib : Libraries) (s : Session) : Except Fault Session :=
  if s.instruct.holdMode = .noHold then
    if s.nextUri = "" then .error .assertion else .ok s.doUpdate
  else s.prepareToSendQueueOrHold lib true

def tryWriteFirstInstructResponse (lib : Libraries) (s : Session) : Except Fault Session :=
  let (avail, s) := s.writeBytesAvailable
  if avail > 0 then
    let s := { s.writeBody (s.firstInstructResponse.take avail) with
      firstInstructResponse := s.firstInstructResponse.drop avail }
    if s.firstInstructResponse = [] then s.firstInstructResponseDone lib else .ok s
  else .ok s

def limitChannels (s : Session) : Session :=
  { s with
    instruct.channels := s.instruct.channels.take s.connectionSubscriptionMax }

def implicitSubscribe (s : Session) : Session :=
  let names := s.adata.implicitChannels.dedup.filter fun name => !s.channels.any (·.1 = name)
  let added := names.map fun name => (name, (⟨name, none, []⟩ : Channel))
  { s with channels := s.channels ++ added }.note [.start names]

def start (lib : Libraries) (s : Session) : Except Fault Session :=
  if s.state ≠ .notStarted then .error .assertion
  else
    let s := s.implicitSubscribe.limitChannels
    if s.instruct.holdMode ≠ .responseHold ∧ s.adata.responseSent = false then
      let response := s.instruct.response
      let s := s.beginResponse response.code response.reason (lib.opening s.adata response)
      if response.body ≠ [] then
        match s.filterContent with
        | (.inr message, s) =>
            .ok (doError lib { s with errorMessage := "filter error: " ++ message })
        | (.inl body, s) => tryWriteFirstInstructResponse lib { s with
            state := .sendingFirstInstructResponse
            firstInstructResponse := s.firstInstructResponse ++ body }
      else s.firstInstructResponseDone lib
    else s.firstInstructResponseDone lib

def publish (lib : Libraries) (s : Session) (item : Item) (exposeHeaders : List Bytes) :
    Except Fault Session :=
  let append (s : Session) (qi : QueuedItem) : Except Fault Session :=
    if s.publishQueue.length < publishQueueMax then
      let holding := s.state = .holding
      let s := { s with publishQueue := s.publishQueue ++ [qi] }
      if holding then s.sendQueue lib else .ok s
    else .ok s
  match item.rest.type with
  | .httpResponse =>
    if s.instruct.holdMode ≠ .responseHold then .error .assertion
    else if s.state = .sendingQueue ∨ s.state = .holding then append s ⟨item, exposeHeaders⟩
    else .ok s
  | .httpStream =>
    if s.state = .waitingToUpdate ∨ s.state = .proxying ∨ s.state = .sendingQueue ∨
      s.state = .holding then
      append s ⟨item, []⟩
    else .ok s
  | .webSocketMessage => .ok s

def finish (s : Session) : Session := { s.cancelActivities with finished := true }.note [.finish]

/-- `doFinish`; what it prepares for a retry is left out. -/
def doFinish (s : Session) : Except Fault Session :=
  let s := s.cancelActivities.note [.leave (s.channels.map Prod.fst)]
  if s.goneUri ≠ "" then
    if s.outZhttp then .ok { s with state := .sendingGone }.prepareOutReq else .error .noOutZhttp
  else .ok s.finish

def outReqError (lib : Libraries) (s : Session) : Except Fault Session :=
  let s := s.cleanupOutReq
  match s.state with
  | .proxying =>
    if s.sentOutReqData = 0 ∧ s.retries < retryMax then
      .ok { s with retries := s.retries + 1, retryTimer := true }
    else .ok (doError lib { s with errorMessage := "Failed to retrieve next link." })
  | .sendingGone => .ok s.finish
  | _ => .error .assertion

/-- The body that has arrived goes to the client, as far as it takes it. The flag
    is whether `tryProcessOutReq` goes on. -/
def proxyBody (lib : Libraries) (s : Session) : Session × Bool :=
  if s.answers.outBody = [] then (s, true)
  else
    let (avail, s) := { s with timer := false }.writeBytesAvailable
    if avail = 0 then (s, false)
    else
      let buf := s.answers.outBody.take avail
      let s := { s with answers := { s.answers with outBody := s.answers.outBody.drop avail } }
      if s.responseFilters then
        match s.filterContent with
        | (.inr message, s) => (doError lib { s with errorMessage := "filter error: " ++ message },
            false)
        | (.inl buf, s) =>
            ({ s.writeBody buf with sentOutReqData := s.sentOutReqData + buf.length }, true)
      else ({ s.writeBody buf with sentOutReqData := s.sentOutReqData + buf.length }, true)

def proxyEnd (lib : Libraries) (s : Session) : Session × Bool :=
  if s.responseFilters then
    match s.filterContent with
    | (.inr message, s) => (doError lib { s with errorMessage := "filter error: " ++ message },
        false)
    | (.inl buf, s) =>
      let s := { s with responseFilters := false }
      if buf = [] then (s, true)
      else ({ s.writeBody buf with sentOutReqData := s.sentOutReqData + buf.length }, true)
  else (s, true)

def linkDone (lib : Libraries) (s : Session) : Except Fault Session :=
  let s := { s.cleanupOutReq with retries := 0, currentUri := s.nextUri }
  let s := { s with
    nextUri := if s.instruct.nextLink = "" then ""
      else lib.resolved s.currentUri s.instruct.nextLink }
  let s := s.limitChannels
  if s.instruct.holdMode = .streamHold then
    prepareToSendQueueOrHold lib
      (if s.instruct.keepAliveTimeout < 0 then { s with timer := false } else s) false
  else .ok s

/-- The flag is whether the session looks for another link. -/
def processOutReq (lib : Libraries) (s : Session) : Except Fault (Session × Bool) :=
  if s.outReq = false then .ok (s, true)
  else if s.haveOutReqHeaders = false then .ok (s, false)
  else if s.answers.outCode < 200 ∨ s.answers.outCode ≥ 300 then (s.outReqError lib).map fun s =>
    (s, false)
  else match s.state with
    | .proxying =>
      match s.proxyBody lib with
      | (s, false) => .ok (s, false)
      | (s, true) =>
        if s.answers.outBody = [] ∧ s.answers.outFinished then
          match s.proxyEnd lib with
          | (s, false) => .ok (s, false)
          | (s, true) => (s.linkDone lib).map fun s => (s, true)
        else .ok (s, true)
    | .sendingGone =>
      if s.answers.outBody ≠ [] then (s.outReqError lib).map fun s => (s, false)
      else if s.answers.outFinished then .ok (s.cleanupOutReq.finish, false)
      else .ok (s, true)
    | _ => .error .assertion

def tryProcessOutReq (lib : Libraries) (s : Session) : Except Fault Session := do
  let (s, more) ← s.processOutReq lib
  if more ∧ s.state = .proxying ∧ s.outReq = false then
    if s.nextUri ≠ "" then
      let (avail, s) := s.writeBytesAvailable
      return if avail > 0 then s.requestNextLink else s
    else return s.prepareToClose.endBody
  else return s

def outReqReadyRead (lib : Libraries) (s : Session) : Except Fault Session :=
  if s.haveOutReqHeaders then s.tryProcessOutReq lib
  else
    let s := { s with haveOutReqHeaders := true }
    if s.state = .proxying then
      match s.answers.instruct with
      | .inr errorMessage => .ok (doError lib { s with errorMessage })
      | .inl i =>
        if i.holdMode = .responseHold then
          .ok (doError lib { s with errorMessage := "Next link returned non-stream hold." })
        else tryProcessOutReq lib { s with instruct := i, responseFilters := true }
    else s.tryProcessOutReq lib

def timerTimeout (lib : Libraries) (s : Session) : Session :=
  let s := { s with timer := false }
  match s.instruct.holdMode with
  | .responseHold => s.respond lib s.instruct.response
  | .streamHold => (s.writeBody s.instruct.keepAliveData).setupKeepAlive
  | .noHold => s

def writeBytesChanged (lib : Libraries) (s : Session) : Except Fault Session :=
  match s.state with
  | .sendingFirstInstructResponse => s.tryWriteFirstInstructResponse lib
  | .proxying => s.tryProcessOutReq lib
  | .sendingQueue =>
    let (avail, s) := s.writeBytesAvailable
    if avail > 0 then s.processPublishQueue lib else .ok s
  | _ => .ok s

def messageFiltersFinished (lib : Libraries) (s : Session) (result : FilterResult) :
    Except Fault Session := do
  let (s, resumes) ← s.filtersFinished lib result
  if resumes then s.processPublishQueue lib else return s

end Session

inductive SessionEvent where
  | start
  | publish (item : Item) (exposeHeaders : List Bytes)
  | update
  | actionRuns
  | filtersFinish (result : FilterResult)
  | timerTimeout
  | retryTimeout
  | bytesWritten (reqFinished : Bool)
  | writeBytesChanged
  | reqError
  | reqPaused
  | outReqReadyRead
  | outReqError
  | deferredError
  /-- The deletion that `finished` has asked for. -/
  | delete
  deriving DecidableEq

namespace Session

def handle (lib : Libraries) (s : Session) : SessionEvent → Except Fault Session
  | .start => s.start lib
  | .publish item exposeHeaders => s.publish lib item exposeHeaders
  | .update => .ok (s.update .low)
  | .actionRuns => .ok s.doUpdate
  | .filtersFinish result => s.messageFiltersFinished lib result
  | .timerTimeout => .ok (s.timerTimeout lib)
  | .retryTimeout => .ok { s with retryTimer := false }.requestNextLink
  | .bytesWritten reqFinished => if reqFinished then s.doFinish else .ok s
  | .writeBytesChanged => s.writeBytesChanged lib
  | .reqError => s.doFinish
  | .reqPaused => s.doFinish
  | .outReqReadyRead => s.outReqReadyRead lib
  | .outReqError => s.outReqError lib
  | .deferredError => .ok (doError lib { s with deferred := s.deferred - 1 })
  | .delete => .ok { s with deleted := true, messageFilters := none, deferred := 0 }

def step (lib : Libraries) (s : Session) (event : SessionEvent × Answers) : Except Fault Session :=
  handle lib { s with answers := event.2 } event.1

def possible (s : Session) (event : SessionEvent × Answers) : Bool :=
  !s.deleted && match event.1 with
    | .start => decide (s.state = .notStarted)
    | .actionRuns => s.pendingAction
    | .filtersFinish _ => s.messageFilters.isSome
    | .timerTimeout => s.timer
    | .retryTimeout => s.retryTimer
    | .reqPaused => s.paused
    | .outReqReadyRead => s.outReq
    | .outReqError => s.outReq
    | .deferredError => decide (0 < s.deferred)
    | .delete => s.finished
    | _ => true

def isClosing (s : Session) : Bool :=
  decide (s.state = .closing) || decide (s.state = .sendingGone) || s.finished

def cancels (s : Session) : SessionEvent → Bool
  | .timerTimeout => decide (s.instruct.holdMode = .responseHold)
  | .bytesWritten reqFinished => reqFinished
  | .reqError => true
  | .reqPaused => true
  | _ => false

/-- No event drops the queue under an outstanding filter stack, an error that was
    put off does not come to a closing session that reports errors, and nothing
    but its deletion comes to a finished session. -/
def undisturbed (s : Session) (event : SessionEvent × Answers) : Bool :=
  !(s.messageFilters.isSome && s.cancels event.1) &&
  !(decide (event.1 = .deferredError) && s.isClosing && s.adata.debug) &&
  (!s.finished || decide (event.1 = .delete))

def new (adata : AcceptData) (instruct : Instruct) (connectionSubscriptionMax : Nat)
    (outZhttp : Bool) (currentUri nextUri goneUri : String) (answers : Answers) : Session where
  state := .notStarted
  adata := adata
  instruct := instruct
  connectionSubscriptionMax := connectionSubscriptionMax
  channels := []
  timer := false
  retryTimer := false
  outZhttp := outZhttp
  outReq := false
  firstInstructResponse := []
  haveOutReqHeaders := false
  sentOutReqData := 0
  retries := 0
  errorMessage := ""
  currentUri := currentUri
  nextUri := nextUri
  goneUri := goneUri
  needUpdate := false
  needUpdatePriority := .low
  pendingAction := false
  publishQueue := []
  inProcessPublishQueue := false
  messageFilters := none
  responseFilters := false
  paused := false
  deferred := 0
  finished := false
  deleted := false
  written := []
  ended := 0
  history := []
  answers := answers

end Session
end PushpinHttpSession
