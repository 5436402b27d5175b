import Pushpin.Connmgr.MessageTracker
import Pushpin.Core.BufferBudget
import Pushpin.Http.HeaderBufferRuns
import Pushpin.WebSocket.ContentCalls

/-!
`stream_websocket` of `connmgr/connection.rs`. An iteration of its loop is the
part before the select and one branch behind it. What the socket, the session and
the other connections answer comes with the event. A failed assertion of the
tracker is a panic; one of anything else ends the run as well.
-/
namespace PushpinStreamWebsocket
open PushpinRingBuffer PushpinVectored PushpinWebSocket PushpinMessageTracker PushpinBudget
open PushpinHttp (writeAll)

def opcodeBinary : Byte := 2
def opcodePing : Byte := 9
def opcodePong : Byte := 10

inductive Error where
  | io (kind : ErrorKind)
  | utf8
  | webSocket (e : PushpinWebSocket.Error)
  | badMessage
  | handler
  | handlerCancel
  | bufferExceeded
  | badFrame
  | valueActive
  deriving DecidableEq, Repr

inductive Exit where
  | finished
  | failed (e : Error)
  | aborted
  deriving DecidableEq, Repr

def asserts {α : Type} (x : Option α) : Outcome Exit α := x.elim .panics .returns

def aborts {α : Type} (x : Option α) : Outcome Exit α := x.elim (.fails .aborted) .returns

inductive ContentType where
  | text
  | binary
  deriving DecidableEq, Repr

inductive Request where
  | credit (credits : Nat)
  | data (body : List Byte) (contentType : ContentType) (more : Bool)
  | close (status : Option (UInt16 × List Byte))
  | ping (body : List Byte)
  | pong (body : List Byte)
  deriving DecidableEq, Repr

inductive Packet where
  | data (body : List Byte) (contentType : Option ContentType) (more : Bool)
  | close (status : Option (UInt16 × List Byte))
  | ping (body : List Byte)
  | pong (body : List Byte)
  | handoffStart
  | keepAlive
  | credit
  | error
  | cancel
  | unexpected
  deriving DecidableEq, Repr

structure Round where
  writable : Bool
  schedule : List Response
  deriving DecidableEq, Repr

/-- What comes from elsewhere while a packet is handled: the blocks that all
    connections have left, the polls of a flush and how a handoff ends, with the
    credits of the packet behind it. -/
structure Answers where
  blocks : Nat
  rounds : List Round
  handoff : Except Error Nat

inductive Event where
  | checkSend (refused : Option Error)
  | addToRecvBuffer (arrived : Except ErrorKind (List Byte))
  | sendContent (round : Round)
  | recvMsg (granted : Nat) (packet : Packet) (answers : Answers)
  | recvFailed (e : Error)

structure Parts (ε δ : Type) where
  encoder : Encoder ε
  decoder : Decoder δ
  tmpLen : Nat

structure Stream (ε δ : Type) where
  protocol : Protocol ε δ
  rbuf : RingBuffer
  wbuf : RingBuffer
  tracker : MessageTracker
  outCredits : Nat
  credits : Nat
  checkSend : Bool
  addToRecvBuffer : Bool
  sendContent : Option (Nat × Bool)
  budget : BufferBudget
  wire : List Byte
  sent : List Request

/-- The entries of the write buffer: what is put in and what the protocol takes. -/
abbrev Notes := List (TaggedQueue.Op Byte Byte)

inductive Polled where
  | pending
  | again
  | ready
  deriving DecidableEq, Repr

namespace Stream
variable {ε δ : Type}

def sendMessageStart (p : Protocol ε δ) (mtype : Byte) : Outcome Exit (Protocol ε δ) :=
  if p.sendingMessage.isSome then .returns p else aborts (p.sendMessageStart mtype none)

def beginContent (s : Stream ε δ) : Outcome Exit (Stream ε δ) :=
  match s.tracker.current with
  | none => .returns s
  | some (mtype, avail, done) => do
    let protocol ← sendMessageStart s.protocol mtype
    return { s with
      protocol
      sendContent := if 0 < avail ∨ done = true then some (avail, done) else s.sendContent }

def nextContent (s : Stream ε δ) : Outcome Exit (Stream ε δ) :=
  if s.sendContent = none then s.beginContent else .returns s

def setCheckSend (s : Stream ε δ) : Stream ε δ :=
  if 0 < s.outCredits ∨ (s.protocol.receives = true ∧ 0 < s.credits ∧ s.addToRecvBuffer = false) ∧
    s.checkSend = false
  then { s with checkSend := true } else s

def turn (s : Stream ε δ) : Outcome Exit (Stream ε δ) :=
  if s.protocol.state = .finished then .fails .finished
  else if s.protocol.state.sends then s.setCheckSend.nextContent
  else .returns s.setCheckSend

/-- What the call counts, under the type of the message that the protocol sends. -/
def counted (p : Protocol ε δ) (src : List (List Byte)) (size : Nat) (done : Bool) :
    TaggedQueue.Op Byte Byte :=
  .take ((p.sendingMessage.map (·.opcode)).getD 0) (src.flatten.take size) done

def contentSent (s : Stream ε δ) (size : Nat) (done : Bool) : Outcome Exit (Stream ε δ) := do
  let tracker ← asserts (s.tracker.consumed size done)
  return { s with
    tracker
    outCredits := if s.protocol.state.sends then s.outCredits + size else s.outCredits }

def pollContent (parts : Parts ε δ) (s : Stream ε δ) (round : Round) :
    Outcome Exit (Stream ε δ × Notes × Polled) :=
  match s.sendContent with
  | none => .returns (s, [], .pending)
  | some (avail, done) =>
    if round.writable = false then .returns (s, [], .pending)
    else do
      let bufs ← aborts (s.wbuf.readBufs bufferBufsMax)
      let src := limit bufs avail
      let (protocol, w, view, result) ←
        aborts (s.protocol.sendMessageContent parts.encoder ⟨s.wire, round.schedule⟩ src done)
      let before := s.protocol
      let s := { s with protocol, wire := w.wire, wbuf := s.wbuf.storeBufs (storeAt bufs 0 view) }
      match result with
      | .error (.io .wouldBlock) => return (s, [], .pending)
      | .error e => .fails (.failed (.webSocket e))
      | .ok (size, done) =>
        if size = 0 ∧ done = false then return (s, [], .again)
        else do
          let wbuf ← aborts (s.wbuf.readCommit size)
          let s ← { s with wbuf, sendContent := none }.contentSent size done
          return (s, [counted before src size done], .ready)

def trySendMsg (s : Stream ε δ) (zreq : Request) (refused : Option Error) :
    Outcome Exit (Stream ε δ) :=
  match refused with
  | some e => .fails (.failed e)
  | none => .returns { s with sent := s.sent ++ [zreq] }

/-- The packet for what was received. `none` is an empty part that is not sent. -/
def requestOf (opcode : Byte) (body : List Byte) (ended : Bool) : Except Error (Option Request) :=
  if opcode = opcodeText ∨ opcode = opcodeBinary then
    if body = [] ∧ ended = false then .ok none
    else .ok (some (.data body (if opcode = opcodeText then .text else .binary) (!ended)))
  else if opcode = opcodeClose then
    match body with
    | b0 :: b1 :: reason =>
      if Text.isUtf8 reason then
        .ok (some (.close (some (b0.toUInt16 <<< 8 ||| b1.toUInt16, reason))))
      else .error .utf8
    | _ => .ok (some (.close none))
  else if opcode = opcodePing then .ok (some (.ping body))
  else if opcode = opcodePong then .ok (some (.pong body))
  else .error .badFrame

def sendChecked (parts : Parts ε δ) (s : Stream ε δ) (refused : Option Error) :
    Outcome Exit (Stream ε δ) :=
  let s := { s with checkSend := false }
  if 0 < s.outCredits then { s with outCredits := 0 }.trySendMsg (.credit s.outCredits) refused
  else if s.credits = 0 ∨ s.addToRecvBuffer = true then .fails .aborted
  else do
    let maxRead := min parts.tmpLen s.credits
    let (protocol, rbuf, reply) ← aborts
      (s.protocol.tryRecvMessageContent parts.decoder s.rbuf maxRead)
    let s := { s with protocol, rbuf }
    match reply with
    | .wait => return { s with addToRecvBuffer := true }
    | .failed e => .fails (.failed (.webSocket e))
    | .got opcode body ended =>
      match requestOf opcode body ended with
      | .error e => .fails (.failed e)
      | .ok none => return s
      | .ok (some zreq) => trySendMsg { s with credits := s.credits - body.length } zreq refused

def received (s : Stream ε δ) (arrived : Except ErrorKind (List Byte)) :
    Outcome Exit (Stream ε δ) :=
  if s.rbuf.remainingCapacity = 0 then .fails (.failed .bufferExceeded)
  else
    match arrived with
    | .error kind => .fails (.failed (if kind = .writeZero then .bufferExceeded else .io kind))
    | .ok data => do
      let rbuf ← aborts (s.rbuf.fillWriteBuf data)
      let rbuf ← aborts (rbuf.writeCommit data.length)
      if data = [] then .fails (.failed (.io .unexpectedEof))
      else return { s with rbuf, addToRecvBuffer := false }

def acceptBody (s : Stream ε δ) (body : List Byte) : Outcome Exit (Stream ε δ) := do
  let (wbuf, result) ← aborts (writeAll body.length s.wbuf body)
  match result with
  | .error kind => .fails (.failed (.io kind))
  | .ok () => return { s with wbuf }

def expandWriteBuffer (s : Stream ε δ) (blocks : Nat) : Outcome Exit (Stream ε δ) := do
  let (_, budget, wbuf, expanded) ← aborts (s.budget.expandBufferIfNeeded blocks s.wbuf)
  return { s with budget, wbuf, outCredits := s.outCredits + expanded }

def extend (s : Stream ε δ) (amt : Nat) (more : Bool) : Outcome Exit (Stream ε δ) := do
  let tracker ← asserts (s.tracker.extend amt)
  return { s with tracker := if more then tracker else tracker.done }

def track (s : Stream ε δ) (opcode : Byte) (amt : Nat) (more : Bool) (full : Error) :
    Outcome Exit (Stream ε δ) :=
  match s.tracker.start opcode with
  | none => .fails (.failed full)
  | some tracker => extend { s with tracker } amt more

def dataOpcode (contentType : Option ContentType) : Byte :=
  if contentType = some .binary then opcodeBinary else opcodeText

def trackData (s : Stream ε δ) (opcode : Byte) (amt : Nat) (more : Bool) :
    Outcome Exit (Stream ε δ) :=
  if s.tracker.inProgress then s.extend amt more else s.track opcode amt more .bufferExceeded

def acceptData (s : Stream ε δ) (body : List Byte) (contentType : Option ContentType) (more : Bool)
    (blocks : Nat) : Outcome Exit (Stream ε δ × Notes) := do
  let s ← s.acceptBody body
  let s ← s.expandWriteBuffer blocks
  let s ← s.trackData (dataOpcode contentType) body.length more
  return (s, [.put (dataOpcode contentType) body more])

def acceptClose (s : Stream ε δ) (status : Option (UInt16 × List Byte)) :
    Outcome Exit (Stream ε δ × Notes) := do
  let (code, reason) := status.getD (1000, [])
  let arr := [(code >>> 8).toUInt8, code.toUInt8]
  let s ← s.acceptBody arr
  let s ← s.acceptBody reason
  let s ← s.track opcodeClose (arr.length + reason.length) false .badFrame
  return (s, [.put opcodeClose (arr ++ reason) false])

def acceptControl (s : Stream ε δ) (opcode : Byte) (body : List Byte) :
    Outcome Exit (Stream ε δ × Notes) := do
  let s ← s.acceptBody body
  let s ← s.track opcode body.length false .badFrame
  return (s, [.put opcode body false])

def acceptPing (s : Stream ε δ) (body : List Byte) : Outcome Exit (Stream ε δ × Notes) :=
  s.acceptControl opcodePing body

def acceptPong (s : Stream ε δ) (body : List Byte) : Outcome Exit (Stream ε δ × Notes) :=
  s.acceptControl opcodePong body

def flush (parts : Parts ε δ) (s : Stream ε δ) : List Round → Outcome Exit (Stream ε δ × Notes)
  | [] => .returns (s, [])
  | round :: rounds => do
    let s ← s.nextContent
    if s.sendContent = none then return (s, [])
    else do
      let (s, notes, polled) ← s.pollContent parts round
      match polled with
      | .pending => return (s, notes)
      | _ => do
        let (s, later) ← s.flush parts rounds
        return (s, notes ++ later)

def acceptHandoff (parts : Parts ε δ) (s : Stream ε δ) (answers : Answers) :
    Outcome Exit (Stream ε δ × Notes) := do
  let (s, notes) ← s.flush parts answers.rounds
  match answers.handoff with
  | .error e => .fails (.failed e)
  | .ok granted => return ({ s with credits := s.credits + granted }, notes)

/-- The last branch: a packet from the handler. The states in which nothing is
    sent ignore its content. -/
def handlePacket (parts : Parts ε δ) (s : Stream ε δ) (packet : Packet) (answers : Answers) :
    Outcome Exit (Stream ε δ × Notes) :=
  match packet with
  | .data body contentType more =>
    if s.protocol.state.sends then s.acceptData body contentType more answers.blocks
      else .returns (s, [])
  | .close status => if s.protocol.state.sends then s.acceptClose status else .returns (s, [])
  | .ping body => if s.protocol.state.sends then s.acceptPing body else .returns (s, [])
  | .pong body => if s.protocol.state.sends then s.acceptPong body else .returns (s, [])
  | .handoffStart => s.acceptHandoff parts answers
  | .keepAlive => .returns (s, [])
  | .credit => .returns (s, [])
  | .error => .fails (.failed .handler)
  | .cancel => .fails (.failed .handlerCancel)
  | .unexpected => .fails (.failed .badMessage)

/-- A branch of the select. A future that is not set is never ready, and of the
    polls of the content future only the one that is ready ends the iteration. -/
def select (parts : Parts ε δ) (s : Stream ε δ) (event : Event) :
    Outcome Exit (Stream ε δ × Notes × Bool) :=
  match event with
  | .checkSend refused =>
    if s.checkSend then do
      let s ← s.sendChecked parts refused
      return (s, [], true)
    else .returns (s, [], false)
  | .addToRecvBuffer arrived =>
    if s.addToRecvBuffer then do
      let s ← s.received arrived
      return (s, [], true)
    else .returns (s, [], false)
  | .sendContent round => do
    let (s, notes, polled) ← s.pollContent parts round
    return (s, notes, polled = .ready)
  | .recvMsg granted packet answers => do
    let (s, notes) ← { s with credits := s.credits + granted }.handlePacket parts packet answers
    return (s, notes, true)
  | .recvFailed e => .fails (.failed e)

def resume (s : Stream ε δ) (concluded : Bool) : Outcome Exit (Stream ε δ) :=
  if concluded then s.turn else .returns s

def step (parts : Parts ε δ) (s : Stream ε δ) (event : Event) :
    Outcome Exit (Stream ε δ × Notes) := do
  let (s, notes, concluded) ← s.select parts event
  let s ← s.resume concluded
  return (s, notes)

def run (parts : Parts ε δ) (s : Stream ε δ) : List Event → Outcome Exit (Stream ε δ × Notes)
  | [] => .returns (s, [])
  | event :: events => do
    let (s, notes) ← s.step parts event
    let (s, later) ← s.run parts events
    return (s, notes ++ later)

def start (buf1 buf2 : RingBuffer) (budget : BufferBudget) (messagesMax credits : Nat)
    (deflateState : Option (DeflateState ε δ)) : Outcome Exit (Stream ε δ) :=
  turn ⟨⟨.connected, none, none, none, none, deflateState⟩, buf1, buf2.clear, .new messagesMax, 0,
    credits, false, false, none, budget, [], []⟩

end Stream
end PushpinStreamWebsocket
