import Pushpin.Core.Variant
import Pushpin.Handler.WsSession

/-!
Grip control messages, which the origin sends inside of a WebSocket connection to
control its subscriptions. A null string or byte array is `none`.
-/
namespace PushpinWsControl
open PushpinVariant
open PushpinWsSession (MessageType contentType)

inductive ControlKind where
  | subscribe
  | unsubscribe
  | detach
  | session
  | setMeta
  | keepAlive
  | sendDelayed
  | flushDelayed
deriving DecidableEq, Repr

structure WsControlMessage where
  type : ControlKind
  channel : String := ""
  filters : List String := []
  sessionId : Option String := none
  metaName : String := ""
  metaValue : Option String := none
  messageType : MessageType := .text
  content : Option Bytes := none
  timeout : Int := -1
  keepAliveMode : Option String := none
deriving DecidableEq, Repr

def controlKind (type : String) : Option ControlKind :=
  if type = "subscribe" then some .subscribe
  else if type = "unsubscribe" then some .unsubscribe
  else if type = "detach" then some .detach
  else if type = "session" then some .session
  else if type = "set-meta" then some .setMeta
  else if type = "keep-alive" then some .keepAlive
  else if type = "send-delayed" then some .sendDelayed
  else if type = "flush-delayed" then some .flushDelayed
  else none

def messageTypeOf (type : String) : Option MessageType :=
  if type = "text" then some .text
  else if type = "binary" then some .binary
  else if type = "ping" then some .ping
  else if type = "pong" then some .pong
  else none

def pn : String := "grip control object"

def containsWith (name complaint : String) : String :=
  pn ++ " contains '" ++ name ++ "' with " ++ complaint

section
variable (fromUtf8 : Bytes → String) (fromBase64 : Bytes → Option Bytes)

def getName (v : Variant) (name : String) : Except String String := do
  let s := (← v.getString fromUtf8 pn name true).getD ""
  if s = "" then throw (containsWith name "invalid value")
  return s

def getFilters (v : Variant) : Except String (List String) := do
  (← v.getList pn "filters" false).mapM fun filter =>
    match filter.asString fromUtf8 with
    | some s => pure (s.getD "")
    | none => throw "filters contains value with wrong type"

def getMessageType (v : Variant) : Except String MessageType := do
  match ← v.getString fromUtf8 pn "message-type" false with
  | none => return .text
  | some type =>
    match messageTypeOf type with
    | some type => return type
    | none => throw (containsWith "message-type" "unknown value")

/-- The content, in base 64 where a JSON object has it as `content-bin`. -/
def getContent (v : Variant) : Except String (Option Bytes) :=
  if v.keyedObjectContains "content-bin" then
    match v, v.keyedObjectGetValue "content-bin" with
    | .map _, .string s => .ok (fromBase64 (PushpinFilters.toUtf8 s))
    | .hash _, .byteArray b => .ok b
    | _, _ => .error (containsWith "content-bin" "wrong type")
  else if v.keyedObjectContains "content" then
    match v.keyedObjectGetValue "content" with
    | .byteArray b => .ok b
    | .string s => .ok (some (PushpinFilters.toUtf8 s))
    | _ => .error (containsWith "content" "wrong type")
  else .ok none

def getTimeout (v : Variant) (content : Option Bytes) : Except String Int :=
  if content.isSome && v.keyedObjectContains "timeout" then
    let timeout := v.keyedObjectGetValue "timeout"
    if timeout.canConvertInt then
      if timeout.toInt < 0 then .error (containsWith "timeout" "invalid value")
      else .ok (timeout.toInt)
    else .error (containsWith "timeout" "wrong type")
  else .ok (-1)

def WsControlMessage.fromVariant (v : Variant) : Except String WsControlMessage := do
  if !v.isKeyedObject then throw "grip control packet is not an object"
  let type := (← v.getString fromUtf8 pn "type" true).getD ""
  match controlKind type with
  | none => throw ("'type' contains unknown value: " ++ type)
  | some .subscribe =>
      return { type := .subscribe, channel := ← getName fromUtf8 v "channel",
               filters := ← getFilters fromUtf8 v }
  | some .unsubscribe => return { type := .unsubscribe, channel := ← getName fromUtf8 v "channel" }
  | some .session => return { type := .session, sessionId := ← v.getString fromUtf8 pn "id" false }
  | some .setMeta =>
    return { type := .setMeta, metaName := ← getName fromUtf8 v "name",
             metaValue := ← v.getString fromUtf8 pn "value" false }
  | some .keepAlive => do
    let messageType ← getMessageType fromUtf8 v
    let content ← getContent fromBase64 v
    let timeout ← getTimeout v content
    let keepAliveMode ← v.getString fromUtf8 pn "mode" false
    return { type := .keepAlive, messageType, content, timeout, keepAliveMode }
  | some .sendDelayed => do
    let messageType ← getMessageType fromUtf8 v
    let content ← getContent fromBase64 v
    let timeout ← getTimeout v content
    return { type := .sendDelayed, messageType, content, timeout }
  | some .detach => return { type := .detach }
  | some .flushDelayed => return { type := .flushDelayed }

end
end PushpinWsControl
