import Pushpin.Core.HttpHeaders

/-!
The packets of a request or a WebSocket session, as `ZhttpRequestPacket` and
`ZhttpResponsePacket` hold them. An integer that is not set is -1 and a null byte
array is `none`. A URL is its encoded form.
-/
namespace PushpinZhttpPackets
open PushpinVariant (Bytes Variant)
open PushpinHttpHeaders (Headers)

structure Id where
  id : Bytes := []
  seq : Int := -1
deriving DecidableEq, Repr

inductive PacketType where
  | data
  | error
  | credit
  | keepAlive
  | cancel
  | handoffStart
  | handoffProceed
  | close
  | ping
  | pong
deriving DecidableEq, Repr

structure ZhttpRequestPacket where
  from_ : Bytes := []
  ids : List Id := []
  type : PacketType
  condition : Bytes := []
  credits : Int := -1
  more : Bool := false
  stream : Bool := false
  routerResp : Bool := false
  maxSize : Int := -1
  timeout : Int := -1
  method : String := ""
  uri : Bytes := []
  headers : Headers := []
  body : Option Bytes := none
  contentType : Bytes := []
  code : Int := -1
  userData : Variant := .invalid
  peerAddress : String := ""
  peerPort : Int := -1
  connectHost : String := ""
  connectPort : Int := -1
  ignorePolicies : Bool := false
  trustConnectHost : Bool := false
  ignoreTlsErrors : Bool := false
  clientCert : String := ""
  clientKey : String := ""
  followRedirects : Bool := false
  passthrough : Variant := .invalid
  multi : Bool := false
  quiet : Bool := false

structure ZhttpResponsePacket where
  from_ : Bytes := []
  ids : List Id := []
  type : PacketType
  condition : Bytes := []
  credits : Int := -1
  more : Bool := false
  code : Int := -1
  reason : Bytes := []
  headers : Headers := []
  body : Option Bytes := none
  contentType : Bytes := []
  userData : Variant := .invalid
  multi : Bool := false

def bytesOf (b : Option Bytes) : Bytes := b.getD []

/-- `BufferList::take` returns a null array if it takes nothing. -/
def taken (b : Bytes) : Option Bytes := if b.isEmpty then none else some b

@[simp] theorem bytesOf_taken (b : Bytes) : bytesOf (taken b) = b := by
  cases b <;> rfl

/-- What `BufferList::take` takes off the front: everything if the size is negative. -/
def takeFront (size : Int) (buf : Bytes) : Bytes := if size < 0 then buf else buf.take size.toNat

def leaveBack (size : Int) (buf : Bytes) : Bytes := if size < 0 then [] else buf.drop size.toNat

@[simp] theorem takeFront_append_leaveBack (size : Int) (buf : Bytes) :
    takeFront size buf ++ leaveBack size buf = buf := by
  unfold takeFront leaveBack
  split
  · exact List.append_nil buf
  · exact List.take_append_drop size.toNat buf

theorem length_takeFront_add (size : Int) (buf : Bytes) :
    (takeFront size buf).length + (leaveBack size buf).length = buf.length := by
  rw [← List.length_append, takeFront_append_leaveBack]

theorem length_takeFront_le {size : Int} (fine : 0 ≤ size) (buf : Bytes) :
    ((takeFront size buf).length : Int) ≤ size := by
  unfold takeFront
  rw [if_neg (not_lt.mpr fine), List.length_take]
  omega

end PushpinZhttpPackets
