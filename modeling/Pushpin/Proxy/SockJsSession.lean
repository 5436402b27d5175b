import Pushpin.Core.RingBuffer
import Pushpin.Foundations.Hash
import Pushpin.Foundations.Loop
import Pushpin.Foundations.Text

/-!
`SockJsSession`: a WebSocket that is carried by HTTP requests, or that is wrapped in the
frames of another one. `none` is a failed assertion, a use of an object that is gone, or
an element taken from an empty list. Where a signal is raised in the middle of a
function, the rest of the function waits until the application has reacted.
-/
namespace PushpinSockJs
open PushpinRingBuffer Text Loops Hashes

def BUFFER_SIZE : Nat := 200000
def KEEPALIVE_TIMEOUT : Nat := 25
def UNCONNECTED_TIMEOUT : Nat := 5

inductive FrameType where
  | continuation
  | text
  | binary
  | ping
  | pong
  deriving DecidableEq, Repr

structure Frame where
  type : FrameType
  data : List Byte
  more : Bool
  deriving DecidableEq, Repr

def Frame.isText (f : Frame) : Bool := f.type = .text ∨ f.type = .binary

def sizeOf (frames : List Frame) : Nat := (frames.map fun f => f.data.length).sum

inductive Doc where
  | invalid
  | other
  | list (items : List (Option (List Byte)))

structure Lib where
  fromString : List Byte → Doc
  fromUtf8 : List Byte → List Byte
  fromPercentEncoding : List Byte → List Byte
  queryItemValue : List Byte → List Byte → List Byte

structure Request where
  id : Nat
  method : List Byte
  uri : List Byte

inductive Reply where
  | ok
  | o
  | h
  | a (messages : List (List Byte))
  | c (code : Int) (reason : List Byte)
  | error (code : Nat) (reason message : List Byte)
  | other (code : Nat) (reason : List Byte) (headers : List (List Byte × List Byte))
      (body : List Byte)
  deriving DecidableEq, Repr

inductive Mode where
  | http
  | webSocketFramed
  | webSocketPassthrough
  deriving DecidableEq, Repr

inductive State where
  | idle
  | connecting
  | connected
  | closing
  deriving DecidableEq, Repr

inductive ErrorCondition where
  | generic
  | policy
  | connect
  | connectTimeout
  | tls
  | rejected
  | timeout
  | unavailable
  deriving DecidableEq, Repr

inductive RequestType where
  | background
  | connect
  | accept
  | reject
  | send
  | receive
  | receiveClose
  deriving DecidableEq, Repr

structure RequestItem where
  jsonpCallback : List Byte
  type : RequestType
  responded : Bool := false
  sendFrames : List Frame := []
  sendBytes : Nat := 0
  receiveFrames : Nat := 0
  receiveBytes : Nat := 0

/-- The size of a frame of the user, and `none` for a frame of the transport. -/
abbrev WriteItem := Option Nat

inductive Output where
  | respond (req : Nat) (reply : Reply) (jsonpCallback : List Byte)
  | sockRespondSuccess (reason : List Byte) (headers : List (List Byte × List Byte))
  | sockRespondError (code : Nat) (reason : List Byte) (headers : List (List Byte × List Byte))
      (body : List Byte)
  | sockWrite (reply : Reply)
  | sockWriteFrame (frame : Frame)
  | sockClose (code : Int) (reason : List Byte)
  | read (frame : Frame)
  | readyRead
  | framesWritten (count contentBytes : Nat)
  | writeBytesChanged
  | peerClosed
  | closed
  | error
  | setLinger (code : Int) (reason : List Byte)
  | unlink
  deriving DecidableEq, Repr

/-- The rest of a function whose signal the application reacts to. -/
inductive Pause where
  | tryWrite (frames bytes : Nat) (messages : List (List Byte))
  | doUpdate

/-- `sock` is there until it is deleted; `sockFrames` are the frames that it has to read, and
    `sockPending` counts those it was given and has not reported. A timer that runs has
    its interval, and `deferred` says that `doClosed` is to be called. `answered`, `accepted`
    and `given` log what the application did; `gone` is for a session that was deleted. -/
structure Session where
  mode : Mode
  manager : Bool := true
  state : State := .idle
  errored : Bool := false
  errorCondition : ErrorCondition := .generic
  req : Option Nat := none
  sock : Bool := false
  sockFrames : List Frame := []
  sockPending : Nat := 0
  inWrappedFrames : List Frame := []
  inFrames : List Frame := []
  outFrames : List Frame := []
  inBytes : Nat := 0
  pendingWrittenFrames : Nat := 0
  pendingWrittenBytes : Nat := 0
  pendingWrites : List WriteItem := []
  requests : Hash Nat RequestItem := .empty
  keepAliveTimer : Option Nat := none
  closeCode : Int := -1
  closeReason : List Byte := []
  closeSent : Bool := false
  peerClosed : Bool := false
  peerCloseCode : Int := -1
  peerCloseReason : List Byte := []
  updating : Bool := false
  deferred : Bool := false
  paused : List Pause := []
  answered : Bool := false
  accepted : Bool := false
  given : List Frame := []
  gone : Bool := false
  out : List Output := []

namespace Session
variable (lib : Lib) (s : Session)

def emit (output : Output) : Session := { s with out := s.out ++ [output] }

def item (id : Nat) : Option RequestItem := s.requests.get? id

def insert (id : Nat) (ri : RequestItem) : Session := { s with requests := s.requests.insert id ri }

def modify (id : Nat) (f : RequestItem → RequestItem) : Session :=
  { s with requests := s.requests.modify id f }

def removeRequestItem (id : Nat) : Session := { s with requests := s.requests.erase id }

def respond (id : Nat) (reply : Reply) (jsonpCallback : List Byte) : Session :=
  s.emit (.respond id reply jsonpCallback)

def background (id : Nat) (jsonpCallback : List Byte) (reply : Reply) : Session :=
  (s.insert id { jsonpCallback, type := .background, responded := true }).respond id reply
    jsonpCallback

def startTimer (seconds : Nat) : Session := { s with keepAliveTimer := some (seconds * 1000) }

def stopTimer : Session := { s with keepAliveTimer := none }

def update : Session := { s with updating := true }

def detach : Option Session :=
  match s.req with
  | none => some s
  | some id =>
    if (s.item id).isSome then
      let s := { s.removeRequestItem id with req := none }
      some (s.respond id (.error 410 (ascii "Gone") (ascii "Session terminated")) [])
    else none

def cleanup : Option Session :=
  s.stopTimer.detach.map fun s =>
    let s := { s with requests := .empty, sock := false }
    if s.manager then { s.emit .unlink with manager := false } else s

def setup (mode : Mode) (id : Nat) (jsonpCallback : List Byte) : Session :=
  match mode with
  | .http =>
    { mode, req := some id, requests := Hash.empty.insert id { jsonpCallback, type := .connect } }
  | _ => { mode, sock := true }

def startServer : Session := { s with state := .connecting }

def closeValue : Int × List Byte :=
  (if s.closeCode ≠ -1 then s.closeCode else 0,
    if s.closeCode ≠ -1 ∧ s.closeReason ≠ [] then s.closeReason else ascii "Connection closed")

def applyLinger : Session := s.emit (.setLinger s.closeValue.1 s.closeValue.2)

end Session

def splitMessage : List Frame → Option (List Frame × List Frame)
  | [] => none
  | f :: frames => if f.more then (splitMessage frames).map fun parts => (f :: parts.1, parts.2)
    else some ([f], frames)

def drain : Nat → List Frame → List (List Frame) × List Frame
  | 0, frames => ([], frames)
  | rounds + 1, frames =>
    match splitMessage frames with
    | none => ([], frames)
    | some (message, frames) =>
      let rest := drain rounds frames
      (message :: rest.1, rest.2)

def bytesOf (frames : List Frame) : List Byte := frames.flatMap fun f => f.data

def payloadFrames : List (Option (List Byte)) → Except (List Byte) (List Frame)
  | [] => .ok []
  | none :: _ => .error (ascii "Payload expected")
  | some data :: items =>
    if data.length > BUFFER_SIZE then .error (ascii "Message too large")
    else (payloadFrames items).map fun frames => ⟨.text, data, false⟩ :: frames

namespace Session
variable (lib : Lib) (s : Session)

def finishWrite (frames bytes : Nat) (messages : List (List Byte)) : Option Session := do
  let id ← s.req
  let ri ← s.item id
  let s := s.modify id fun ri => { ri with receiveFrames := frames, receiveBytes := bytes }
  if messages ≠ [] then
    return ((s.modify id fun ri => { ri with responded := true }).respond id
      (.a messages) ri.jsonpCallback).stopTimer
  else if s.state = .closing then
    let s := { s with closeSent := true }.applyLinger
    let s := s.modify id fun ri => { ri with type := .receiveClose, responded := true }
    return s.respond id (.c s.closeValue.1 s.closeValue.2) ri.jsonpCallback
  else return s

def tryWrite : Option Session :=
  match s.req with
  | none => some s
  | some id =>
    if s.closeSent then some s
    else do
      let ri ← s.item id
      if ri.responded then return s
      let (messages, rest) := drain s.outFrames.length s.outFrames
      if messages.any fun message => !message.head?.any Frame.isText then none
      else
        let frames := (messages.map List.length).sum
        let bytes := (messages.map sizeOf).sum
        let writes : List WriteItem := messages.map fun message => some (bytesOf message).length
        let texts := messages.map fun message => lib.fromUtf8 (bytesOf message)
        let s := { s with outFrames := rest, pendingWrites := s.pendingWrites ++ writes }
        if 0 < bytes then
          return { s.emit .writeBytesChanged with
            paused := .tryWrite frames bytes texts :: s.paused }
        else s.finishWrite frames bytes texts

/-- The send requests that are not answered, in turn: one frame of each. The flag says
    whether there was any frame. -/
def takeSends : List (Nat × RequestItem) → Session → Option (Session × Bool)
  | [], s => some (s, false)
  | (id, ri) :: rest, s =>
    match ri.sendFrames with
    | [] => none
    | f :: frames =>
      if s.inBytes + f.data.length > BUFFER_SIZE then some (s, false)
      else do
        let s := s.modify id fun ri =>
          { ri with sendFrames := frames, sendBytes := ri.sendBytes - f.data.length }
        let s ←
          if frames = [] then
            if ri.sendBytes - f.data.length = 0 then
              some ((s.modify id fun ri => { ri with responded := true }).respond id .ok
                ri.jsonpCallback)
            else none
          else some s
        let s := { s with inFrames := s.inFrames ++ [f], inBytes := s.inBytes + f.data.length }
        let (s, _) ← takeSends rest s
        return (s, true)

/-- One round over the frames of the socket. The flag of the state says that there is
    something to read, and the result that the session is over. -/
def readRound (state : Session × Bool) : Option (Step (Session × Bool) Bool) :=
  let (s, ready) := state
  if BUFFER_SIZE ≤ s.inBytes then some (.done (s, ready) false)
  else
    match splitMessage s.inWrappedFrames with
    | none =>
      if s.sock = false then none
      else
        match s.sockFrames with
        | [] => some (.done (s, ready) false)
        | f :: sockFrames =>
          let s := { s with sockFrames }
          if f.data.length > BUFFER_SIZE * 2 then some (.done (s, ready) true)
          else some (.again ({ s with inWrappedFrames := s.inWrappedFrames ++ [f] }, ready))
    | some (message, inWrappedFrames) =>
      if sizeOf message > BUFFER_SIZE * 2 then some (.done (s, ready) true)
      else
        let s := { s with inWrappedFrames }
        if !message.head?.any Frame.isText then some (.again (s, ready))
        else
          match lib.fromString (bytesOf message) with
          | .list items =>
            match payloadFrames items with
            | .ok frames =>
              some (.again ({ s with
                inFrames := s.inFrames ++ frames, inBytes := s.inBytes + sizeOf frames }, true))
            | .error _ => some (.done (s, ready) true)
          | _ => some (.done (s, ready) true)

def tryRead : Option (Session × Bool × Bool) :=
  match s.mode with
  | .http => do
    let sends := s.requests.entries.filter fun r => r.2.type = .send ∧ r.2.responded = false
    let (s, ready) ← takeSends sends s
    return (if ready then s.emit .readyRead else s, ready, true)
  | .webSocketFramed => do
    let ((s, ready), over_) ← loop (readRound lib)
      (2 * s.sockFrames.length + s.inWrappedFrames.length + 1) (s, false)
    if over_ then
      let s ← { s with state := .idle }.cleanup
      return (s.emit .error, false, false)
    else return (if ready then s.emit .readyRead else s, ready, true)
  | .webSocketPassthrough => some (s, false, true)

def payloadOf (req : Request) (lastPart body : List Byte) : List Byte :=
  if req.method = ascii "POST" then
    if lastPart = ascii "xhr_send" then body
    else
      (((body.splitOn 38).find? fun kv =>
          61 ∈ kv ∧ lib.fromPercentEncoding (kv.takeWhile (· ≠ 61)) = ascii "d").map
        fun kv => lib.fromPercentEncoding ((kv.dropWhile (· ≠ 61)).drop 1)).getD []
  else lib.queryItemValue req.uri (ascii "d")

def handleRequest (req : Request) (jsonpCallback lastPart body : List Byte) : Option Session :=
  if lastPart = ascii "xhr" ∨ lastPart = ascii "jsonp" then
    if s.req.isSome then
      some (s.background req.id jsonpCallback (.c 2010 (ascii "Another connection still open")))
    else if s.peerClosed then
      some (s.background req.id jsonpCallback (.c 3000 (ascii "Client already closed connection")))
    else
      (({ s with req := some req.id }.insert req.id { jsonpCallback, type := .receive }).startTimer
        KEEPALIVE_TIMEOUT).tryWrite lib
  else if lastPart = ascii "xhr_send" ∨ lastPart = ascii "jsonp_send" then
    if s.requests.values.any fun ri => ri.type = .send then
      some (s.background req.id jsonpCallback
        (.error 400 (ascii "Bad Request") (ascii "Already sending")))
    else
      match lib.fromString (payloadOf lib req lastPart body) with
      | .list items =>
        match payloadFrames items with
        | .error message =>
            some (s.background req.id jsonpCallback (.error 400 (ascii "Bad Request") message))
        | .ok [] => some (s.background req.id jsonpCallback .ok)
        | .ok frames =>
          let ri : RequestItem :=
            { jsonpCallback, type := .send, sendFrames := frames, sendBytes := sizeOf frames }
          ((s.insert req.id ri).tryRead lib).map fun result => result.1
      | _ => some (s.background req.id jsonpCallback
          (.error 400 (ascii "Bad Request") (ascii "Payload expected")))
  else some (s.background req.id jsonpCallback (.error 404 (ascii "Not Found") (ascii "Not Found")))

def answerable : Option (Nat × RequestItem) := do
  let id ← s.req
  let ri ← s.item id
  if ri.responded then none else some (id, ri)

def accept (reason : List Byte) (headers : List (List Byte × List Byte)) : Option Session :=
  if s.errored then some s
  else
    match s.mode with
    | .http => do
      let (id, ri) ← s.answerable
      let s := s.modify id fun ri => { ri with type := .accept, responded := true }
      return s.respond id .o ri.jsonpCallback
    | mode =>
      if s.sock = false then none
      else
        let s := { s.emit (.sockRespondSuccess reason headers) with state := .connected }
        if mode = .webSocketFramed then
          some ({ s.emit (.sockWrite .o) with
            pendingWrites := s.pendingWrites ++ [none]
            sockPending := s.sockPending + 1 }.startTimer KEEPALIVE_TIMEOUT)
        else some s

def reject (code : Nat) (reason : List Byte) (headers : List (List Byte × List Byte))
    (body : List Byte) : Option Session :=
  if s.errored then some s
  else
    match s.mode with
    | .http => do
      let (id, _) ← s.answerable
      let s := s.modify id fun ri => { ri with type := .reject, responded := true }
      return s.respond id (.other code reason headers body) []
    | _ => if s.sock = false then none
        else some (s.emit (.sockRespondError code reason headers body))

def writeFrame (frame : Frame) : Option Session :=
  if s.state = .closing then none
  else if s.mode = .webSocketPassthrough then
    if s.sock = false then none
      else some { s.emit (.sockWriteFrame frame) with sockPending := s.sockPending + 1 }
  else if !frame.isText then
    some { s with
      pendingWrittenFrames := s.pendingWrittenFrames + 1
      pendingWrittenBytes := s.pendingWrittenBytes + frame.data.length }.update
  else if s.mode = .http then
    if sizeOf s.outFrames + frame.data.length > BUFFER_SIZE then
      some { s with errored := true, errorCondition := .generic }.update
    else { s with outFrames := s.outFrames ++ [frame] }.tryWrite lib
  else if s.sock = false then none
  else
    some { s.emit (.sockWrite (.a [lib.fromUtf8 frame.data])) with
      pendingWrites := s.pendingWrites ++ [some frame.data.length]
      sockPending := s.sockPending + 1 }

def readFrame : Option Session :=
  if s.mode = .webSocketPassthrough then
    match s.sockFrames with
    | [] => none
    | f :: sockFrames => some ({ s with sockFrames }.emit (.read f))
  else
    match s.inFrames with
    | [] => none
    | f :: inFrames => some ({ s with inFrames, inBytes := s.inBytes - f.data.length }.update.emit
        (.read f))

def close (code : Int) (reason : List Byte) : Option Session :=
  if s.state = .closing then none
  else
    let s := { s with state := .closing, closeCode := code, closeReason := reason }
    if s.mode = .http then
      if s.peerClosed then do
        let s ← ({ s with state := .idle }.applyLinger).cleanup
        return { s with deferred := true }
      else s.tryWrite lib
    else if s.sock = false then none
    else some (s.emit (.sockClose code reason))

def handleWritten (count contentBytes : Nat) : Option Session :=
  if s.mode = .webSocketPassthrough then some (s.emit (.framesWritten count contentBytes))
  else if s.pendingWrites.length < count then none
  else
    let users := (s.pendingWrites.take count).filterMap id
    some ({ s with
      pendingWrites := s.pendingWrites.drop count
      pendingWrittenFrames := 0
      pendingWrittenBytes := 0 }.emit
        (.framesWritten (users.length + s.pendingWrittenFrames)
          (users.sum + s.pendingWrittenBytes)))

def req_bytesWritten (id : Nat) (finished : Bool) : Option Session := do
  let ri ← s.item id
  if !finished then return s
  if ri.type = .accept then
    if s.req = some id then
      return ({ s with state := .connected, req := none }.removeRequestItem id).startTimer
        UNCONNECTED_TIMEOUT
    else none
  else if s.req = some id then
    let s := { s with req := none }.removeRequestItem id
    if ri.type = .reject ∨ ri.type = .receiveClose then
      let s ← { s with state := .idle }.cleanup
      return s.emit .closed
    else if ri.type = .receive then
      (s.startTimer UNCONNECTED_TIMEOUT).handleWritten ri.receiveFrames ri.receiveBytes
    else return s
  else return s.removeRequestItem id

def req_error (id : Nat) (disconnected : Bool) : Option Session := do
  let ri ← s.item id
  if ri.type = .background ∨ ri.type = .send then return s.removeRequestItem id
  if s.req ≠ some id then none
  else
    let close := ri.type = .receive ∧ ri.responded = false ∧ disconnected
    let s := { s with req := none }.removeRequestItem id
    if close ∧ s.peerClosed = false then return { s with peerClosed := true }.emit .peerClosed
    else
      let s ← { s with state := .idle }.cleanup
      return s.emit (if close then .closed else .error)

def sock_readyRead : Option Session :=
  if s.mode = .webSocketFramed then (s.tryRead lib).map fun result => result.1
    else some (s.emit .readyRead)

def sock_framesWritten (count contentBytes : Nat) : Option Session :=
  { s with sockPending := s.sockPending - count }.handleWritten count contentBytes

def sock_peerClosed (code : Int) (reason : List Byte) : Session :=
  { s with peerCloseCode := code, peerCloseReason := reason }.emit .peerClosed

def sock_closed (code : Int) (reason : List Byte) : Option Session := do
  let s ← { s with peerCloseCode := code, peerCloseReason := reason, state := .idle }.cleanup
  return s.emit .closed

def sock_error (condition : ErrorCondition) : Option Session := do
  let s ← { s with state := .idle, errorCondition := condition }.cleanup
  return s.emit .error

def finishUpdate : Session :=
  if 0 < s.pendingWrittenFrames then
    { s with pendingWrittenFrames := 0, pendingWrittenBytes := 0 }.emit
      (.framesWritten s.pendingWrittenFrames s.pendingWrittenBytes)
  else s

def doUpdate : Option Session := do
  let s := { s with updating := false }
  if s.errored then
    let s ← { s with state := .idle }.cleanup
    return s.emit .error
  else if s.mode = .webSocketPassthrough then return s
  else
    let (s, ready, goes) ← s.tryRead lib
    if !goes then return s
    else if ready then return { s with paused := .doUpdate :: s.paused }
    else return s.finishUpdate

def doClosed : Session := { s with deferred := false }.emit .closed

def keepAliveTimer_timeout : Option Session :=
  match s.mode with
  | .webSocketPassthrough => none
  | .http =>
    match s.req with
    | some id => do
      let (_, ri) ← s.answerable
      return (s.modify id fun ri => { ri with responded := true }).respond id .h ri.jsonpCallback
    | none => do
      let s ← { s with state := .idle }.cleanup
      return s.emit .error
  | .webSocketFramed =>
    if s.sock = false then none
    else
      some { s.emit (.sockWrite .h) with
        pendingWrites := s.pendingWrites ++ [none]
        sockPending := s.sockPending + 1 }

end Session

inductive Event where
  | handleRequest (req : Request) (jsonpCallback lastPart body : List Byte)
  | req_bytesWritten (id : Nat) (finished : Bool)
  | req_error (id : Nat) (disconnected : Bool)
  | accept (reason : List Byte) (headers : List (List Byte × List Byte))
  | reject (code : Nat) (reason : List Byte) (headers : List (List Byte × List Byte))
      (body : List Byte)
  | writeFrame (frame : Frame)
  | readFrame
  | close (code : Int) (reason : List Byte)
  | arrive (frames : List Frame)
  | sock_readyRead
  | sock_framesWritten (count contentBytes : Nat)
  | sock_writeBytesChanged
  | sock_peerClosed (code : Int) (reason : List Byte)
  | sock_closed (code : Int) (reason : List Byte)
  | sock_error (condition : ErrorCondition)
  | doUpdate
  | doClosed
  | timeout
  | resume
  | destroy

def Session.resume (s : Session) : Option Session :=
  match s.paused with
  | [] => none
  | .tryWrite frames bytes messages :: paused => { s with paused }.finishWrite frames bytes messages
  | .doUpdate :: paused => some { s with paused }.finishUpdate

def step (lib : Lib) (s : Session) : Event → Option Session
  | .handleRequest req jsonpCallback lastPart body =>
    s.handleRequest lib req jsonpCallback lastPart body
  | .req_bytesWritten id finished => s.req_bytesWritten id finished
  | .req_error id disconnected => s.req_error id disconnected
  | .accept reason headers => { s with answered := true, accepted := true }.accept reason headers
  | .reject code reason headers body => { s with answered := true }.reject code reason headers body
  | .writeFrame frame => { s with given := s.given ++ [frame] }.writeFrame lib frame
  | .readFrame => s.readFrame
  | .close code reason => s.close lib code reason
  | .arrive frames => some { s with sockFrames := s.sockFrames ++ frames }
  | .sock_readyRead => s.sock_readyRead lib
  | .sock_framesWritten count contentBytes => s.sock_framesWritten count contentBytes
  | .sock_writeBytesChanged => some (s.emit .writeBytesChanged)
  | .sock_peerClosed code reason => some (s.sock_peerClosed code reason)
  | .sock_closed code reason => s.sock_closed code reason
  | .sock_error condition => s.sock_error condition
  | .doUpdate => s.doUpdate lib
  | .doClosed => some s.doClosed
  | .timeout => s.keepAliveTimer_timeout
  | .resume => s.resume
  | .destroy => do
    let s ← s.cleanup
    return { s with gone := true, paused := [], updating := false, deferred := false }

def responses (out : List Output) : List Nat :=
  out.filterMap fun
    | .respond id _ _ => some id
    | _ => none

/-- What the application may do: it answers once, writes and closes what it has accepted
    until it is over, and reads what is there. -/
def ofApplication (s : Session) : Event → Bool
  | .accept _ _ | .reject .. => s.state = .connecting && !s.answered && s.paused.isEmpty
  | .writeFrame _ | .close _ _ => s.accepted && (s.state = .connecting || s.state = .connected)
  | .readFrame => if s.mode = .webSocketPassthrough then !s.sockFrames.isEmpty
    else !s.inFrames.isEmpty
  | .destroy => true
  | _ => false

/-- What may come from elsewhere, when no function is in the middle of something: requests
    that are new, their ends, what the socket has, calls that were deferred and timers. -/
def ofOthers (s : Session) : Event → Bool
  | .handleRequest req _ _ _ => s.manager && s.mode = .http && (s.item req.id).isNone && req.id ∉
    responses s.out
  | .req_bytesWritten id _ => (s.item id).any fun ri => ri.responded
  | .req_error id _ => (s.item id).isSome
  | .sock_framesWritten count _ => s.sock && count ≤ s.sockPending
  | .arrive _ | .sock_readyRead | .sock_writeBytesChanged | .sock_peerClosed _ _ | .sock_closed _
    _ | .sock_error _ => s.sock
  | .doUpdate => s.updating
  | .doClosed => s.deferred
  | .timeout => s.keepAliveTimer.isSome
  | _ => false

def possible (s : Session) (event : Event) : Bool :=
  !s.gone &&
    match event with
    | .resume => !s.paused.isEmpty
    | event => ofApplication s event || s.paused.isEmpty && ofOthers s event

end PushpinSockJs
