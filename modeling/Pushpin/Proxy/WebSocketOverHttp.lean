import Pushpin.Core.HttpHeaders
import Pushpin.Foundations.Budgets

/-!
WebSocket connections over HTTP requests: the frames that were written become the
events in the body of the next request. Content is nullable, as in the source.
-/
namespace PushpinWebSocketOverHttp
open PushpinVariant (Bytes)
open PushpinHttpHeaders (ascii)
open Budgets

def BUFFER_SIZE : Nat := 200000

inductive FrameType where
  | continuation
  | text
  | binary
  | ping
  | pong
deriving DecidableEq, Repr

structure Frame where
  type : FrameType
  data : Bytes
  more : Bool
deriving DecidableEq, Repr

structure Event where
  type : Bytes
  content : Option Bytes := none
deriving DecidableEq, Repr

def crlf : Bytes := [13, 10]

def hexLength (n : Nat) : Bytes := (Nat.toDigits 16 n).map fun c => UInt8.ofNat c.toNat

def encodeEvent (e : Event) : Bytes :=
  match e.content with
  | some content => e.type ++ 32 :: hexLength content.length ++ crlf ++ content ++ crlf
  | none => e.type ++ crlf

def encodeEvents (events : List Event) : Bytes := events.flatMap encodeEvent

def messages : List Frame → List (List Frame)
  | [] => []
  | f :: frames =>
    if f.more then
      match messages frames with
      | [] => []
      | message :: rest => (f :: message) :: rest
    else [f] :: messages frames

def wellTyped : List Frame → Bool
  | [] => true
  | f :: rest => f.type ≠ .continuation && rest.all fun g => g.type = .continuation

def content (message : List Frame) : Bytes := message.flatMap Frame.data

def typeName : FrameType → Bytes
  | .continuation => []
  | .text => ascii "TEXT"
  | .binary => ascii "BINARY"
  | .ping => ascii "PING"
  | .pong => ascii "PONG"

def toEvent (message : List Frame) : Event where
  type := typeName ((message.head?.map Frame.type).getD .text)
  content := if content message = [] then none else some (content message)

/-- The loop: the events so far, how many frames they are, and how much content, which the
    code counts in an `int`: there is room while the frames have less than 2^31 bytes. -/
def eventsFrom (eventsMax contentMax : Int) :
    List (List Frame) → List Event → Nat → Nat → Option (List Event × Nat × Nat)
  | [], out, pos, contentSize => some (out, pos, contentSize)
  | message :: rest, out, pos, contentSize =>
    if (eventsMax ≤ 0 ∨ out.length < eventsMax) ∧ (contentMax ≤ 0 ∨ contentSize < contentMax) then
      if wellTyped message then
        eventsFrom eventsMax contentMax rest (out ++ [toEvent message]) (pos + message.length)
          (contentSize + (content message).length)
      else none
    else some (out, pos, contentSize)

def framesToEvents (frames : List Frame) (eventsMax contentMax : Int) :
    Option (List Event × Nat × Nat) :=
  eventsFrom eventsMax contentMax (messages frames) [] 0 0

inductive State where
  | idle
  | connecting
  | connected
  | closing
deriving DecidableEq, Repr

structure Private where
  state : State := .idle
  updating : Bool := false
  updateQueued : Bool := false
  keepAliveTimer : Bool := false
  pendingErrorCondition : Bool := false
  outFrames : List Frame := []
  outContentSize : Int := 0
  maxEvents : Int := 0
  closeCode : Int := -1
  closeReason : Bytes := []
  disconnecting : Bool := false
  disconnectSent : Bool := false
  reqBody : Bytes := []
  reqFrames : Nat := 0
  reqContentSize : Nat := 0
  reqMaxed : Bool := false
  reqClose : Bool := false
  reqCloseContentSize : Nat := 0

namespace Private
variable (s : Private)

def canSendCompleteMessage : Bool := s.outFrames.any fun f => !f.more

def writeBytesAvailable : Int :=
  if s.outContentSize < BUFFER_SIZE then BUFFER_SIZE - s.outContentSize else 0

def queueError : Private := { s with updating := false, pendingErrorCondition := true }

def doRequest (events : List Event) : Private × Option (List Event) :=
  ({ s with reqBody := encodeEvents events }, some events)

def closeContent : Bytes :=
  UInt8.ofNat ((s.closeCode / 256) % 256).toNat :: UInt8.ofNat (s.closeCode % 256).toNat ::
    s.closeReason

/-- A CLOSE after the events, if the connection is closing and one more event may follow. -/
def withClose (events : List Event) : Private × List Event :=
  if s.state = .closing ∧ (s.maxEvents ≤ 0 ∨ events.length < s.maxEvents) then
    if s.closeCode ≠ -1 then
      ({ s with reqCloseContentSize := s.closeContent.length, reqClose := true },
        events ++ [⟨ascii "CLOSE", some s.closeContent⟩])
    else ({ s with reqClose := true }, events ++ [⟨ascii "CLOSE", none⟩])
  else (s, events)

def sendFrames : Private × Option (List Event) :=
  match framesToEvents s.outFrames BUFFER_SIZE s.maxEvents with
  | none => (s.queueError, none)
  | some (events, frames, contentSize) =>
    let s := { s with
      reqFrames := frames, reqContentSize := contentSize, reqMaxed := frames < s.outFrames.length }
    let (s, events) := s.withClose events
    s.doRequest events

def update : Private × Option (List Event) :=
  if s.updating then (s, none)
  else
    let s := { s with updateQueued := false, updating := true, keepAliveTimer := false }
    if !s.canSendCompleteMessage && s.writeBytesAvailable = 0 then (s.queueError, none)
    else
      let s := { s with
        reqFrames := 0, reqContentSize := 0, reqMaxed := false, reqClose :=
          false, reqCloseContentSize := 0 }
      if s.state = .connecting then s.doRequest [⟨ascii "OPEN", none⟩]
      else if s.disconnecting && !s.disconnectSent then
        { s with disconnectSent := true }.doRequest [⟨ascii "DISCONNECT", none⟩]
      else s.sendFrames

end Private
end PushpinWebSocketOverHttp
