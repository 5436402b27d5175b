import Mathlib.Data.Finset.Basic
import Pushpin.Handler.WsControlMessage

/-!
The handler's side of the WebSocket sessions: what the items of a control packet do
to the sessions, to their subscriptions and to the index of sessions by channel.
Sessions are at addresses, as in the source: `none` is a use of an address that was
freed. Statistics and the subscriptions of the SUB socket are left out.
-/
namespace PushpinWsControl
open OrderedMaps PushpinVariant
open PushpinFilters (Meta toUtf8 messageFilterStackSizeMax)
open PushpinHttpSession (Channel)
open PushpinWsSession (MessageType contentType Machine)

def wsControlRequestTimeout : Int := 8000
def defaultKeepAliveTimeout : Int := 55
def defaultSendDelayedTimeout : Int := 1

structure Session where
  machine : Machine
  peer : Bytes
  nextReqId : Int
  channelPrefix : String
  logLevel : Int
  uri : Bytes
  route : String
  statsRoute : Option String
  targetTrusted : Bool
  sid : String
  subMeta : Meta
  implicitChannels : List String
  ttl : Int
  keepAliveType : Option String
  keepAliveMessage : Option Bytes
  delayedType : String
  delayedMessage : Option Bytes
  pendingRequests : OrderedMap Int Int
  expireTimer : Option Int
  delayedTimer : Option Int

def Session.new (cid : String) : Session :=
  ⟨Machine.new cid, [], 0, "", -1, [], "", none, false, "", OrderedMap.empty,
    [], 0, none, none, "", none, OrderedMap.empty, none, none⟩

def Session.cid (s : Session) : String := s.machine.session.cid

def Session.channels (s : Session) : OrderedMap String Channel := s.machine.session.channels

def Session.setChannels (s : Session) (channels : OrderedMap String Channel) : Session :=
  { s with machine.session.channels := channels }

inductive ItemType where
  | here
  | keepAlive
  | gone
  | grip
  | needKeepAlive
  | subscribe
  | cancel
  | ack
  /-- The types that only the handler sends. -/
  | other
deriving DecidableEq, Repr

structure ControlItem where
  cid : Bytes
  type : ItemType
  requestId : Bytes := []
  uri : Bytes := []
  message : Bytes := []
  debug : Bool := false
  route : Bytes := []
  separateStats : Bool := false
  channelPrefix : Bytes := []
  logLevel : Int := -1
  trusted : Bool := false
  channel : Bytes := []
  ttl : Int := -1
deriving DecidableEq, Repr

inductive Reply where
  | ack (cid requestId : Bytes)
  | cancel (cid : Bytes)
  | detach (cid : Bytes)
  | keepAliveSetup (cid : Bytes) (mode : Option String) (timeout : Int)
  | send (cid : Bytes) (contentType : Option String) (message : Bytes)
deriving DecidableEq, Repr

inductive Sent where
  | delayed (requestId : Int) (contentType : String) (message : Option Bytes)
  | closeError (item : PushpinWsSession.ControlItem)
deriving DecidableEq, Repr

/-- The sessions, by address and by connection, and the index by channel. A channel
    without a set has no entry in the index. -/
structure Sessions where
  heap : Nat → Option Session
  wsSessions : String → Option Nat
  wsSessionsByChannel : String → Option (Finset Nat)
  unused : Nat

def Sessions.new : Sessions := ⟨fun _ => none, fun _ => none, fun _ => none, 0⟩

namespace Sessions

def addToChannel (h : Sessions) (address : Nat) (channel : String) : Sessions :=
  { h with
    wsSessionsByChannel := Function.update h.wsSessionsByChannel channel
      (some (insert address ((h.wsSessionsByChannel channel).getD ∅))) }

def removeSessionChannel (h : Sessions) (address : Nat) (channel : String) : Sessions :=
  match h.wsSessionsByChannel channel with
  | none => h
  | some cur =>
    if address ∈ cur then
      let cur := cur.erase address
      { h with
        wsSessionsByChannel :=
          Function.update h.wsSessionsByChannel channel (if cur = ∅ then none else some cur) }
    else h

def removeSessionChannels (h : Sessions) (address : Nat) (s : Session) : Sessions :=
  (s.channels.entries.map Prod.fst).foldl
    (fun h channel => h.removeSessionChannel address channel) h

def removeWsSession (h : Sessions) (address : Nat) (s : Session) : Sessions :=
  let h := h.removeSessionChannels address s
  { h with
    wsSessions := Function.update h.wsSessions s.cid none
    heap := Function.update h.heap address none }

def put (h : Sessions) (address : Nat) (s : Session) : Sessions :=
  { h with heap := Function.update h.heap address (some s) }

def addChannel (h : Sessions) (address : Nat) (s : Session) (channel : String) (c : Channel) :
    Sessions :=
  (h.put address (s.setChannels (s.channels.insert channel c))).addToChannel address channel

end Sessions

structure Effects where
  sessions : Sessions
  replies : List Reply
  sent : List (Nat × Sent)
  createOrUpdateSids : List String
  updateSids : List String

def Effects.start (sessions : Sessions) : Effects := ⟨sessions, [], [], [], []⟩

def Effects.reply (e : Effects) (r : Reply) : Effects := { e with replies := e.replies ++ [r] }

section
variable (fromUtf8 : Bytes → String) (fromBase64 : Bytes → Option Bytes)
  (parseJson : Bytes → Variant)
variable (subscriptionMax : Nat) (now : Int)

/-- `flushDelayed`: the message that waits is sent, if the timer runs. -/
def Session.flushDelayed (s : Session) : Session × Option Sent :=
  if s.delayedTimer.isSome then
    ({ s with
      delayedTimer := none
      nextReqId := s.nextReqId + 1
      delayedMessage := none
      pendingRequests := s.pendingRequests.insert s.nextReqId (now + wsControlRequestTimeout) },
      some (.delayed s.nextReqId s.delayedType s.delayedMessage))
  else (s, none)

def Session.sendDelayed (s : Session) (type : String) (message : Option Bytes) (timeout : Int) :
    Session × Option Sent :=
  let (s, sent) := s.flushDelayed now
  ({ s with
    delayedType := type, delayedMessage := message
    delayedTimer := some (toInt32 (timeout * 1000)) }, sent)

def Session.sendCloseError (s : Session) (message : String) :
    Session × PushpinWsSession.ControlItem :=
  ({ s with
    machine := { s.machine.sendCloseError message .closeOutside with calls := s.machine.calls } },
    s.machine.session.closeError message)

def Effects.sends (e : Effects) (address : Nat) (sent : Option Sent) : Effects :=
  { e with sent := e.sent ++ (sent.map (address, ·)).toList }

def handleMessage (e : Effects) (address : Nat) (s : Session) (item : ControlItem)
    (cm : WsControlMessage) : Effects :=
  let keep (s : Session) : Effects := { e with sessions := e.sessions.put address s }
  match cm.type with
  | .subscribe =>
    if s.channels.count < subscriptionMax then
      if messageFilterStackSizeMax < cm.filters.length then
        let (s, sent) := s.sendCloseError ("too many filters for channel '" ++ cm.channel ++ "'")
        (keep s).sends address (some (.closeError sent))
      else
        { e with
          sessions := e.sessions.addChannel address s (s.channelPrefix ++ cm.channel)
            ⟨cm.channel, none, cm.filters⟩ }
    else e
  | .unsubscribe =>
    let channel := s.channelPrefix ++ cm.channel
    if channel ∈ s.implicitChannels then e
    else
      { e with
        sessions := (e.sessions.put address
          (s.setChannels (s.channels.erase channel))).removeSessionChannel address channel }
  | .detach => e.reply (.detach item.cid)
  | .session =>
    match cm.sessionId with
    | some sid =>
      if sid = "" then keep { s with sid := "" }
      else { keep { s with sid := sid } with createOrUpdateSids := e.createOrUpdateSids ++ [sid] }
    | none => keep { s with sid := "" }
  | .setMeta =>
    match cm.metaValue with
    | some value => keep { s with subMeta := s.subMeta.insert cm.metaName (some value) }
    | none => keep { s with subMeta := s.subMeta.erase cm.metaName }
  | .keepAlive =>
    match cm.content with
    | some content =>
      let mode := if cm.keepAliveMode = some "interval" then "interval" else "idle"
      let timeout := if 0 < cm.timeout then cm.timeout else defaultKeepAliveTimeout
      (keep { s with
        keepAliveType := some (contentType cm.messageType), keepAliveMessage :=
          some content }).reply
        (.keepAliveSetup item.cid (some mode) timeout)
    | none =>
      (keep { s with keepAliveType := none, keepAliveMessage := none }).reply
        (.keepAliveSetup item.cid none (-1))
  | .sendDelayed =>
    let timeout := if 0 < cm.timeout then cm.timeout else defaultSendDelayedTimeout
    let (s, sent) := s.sendDelayed now (contentType cm.messageType) cm.content timeout
    (keep s).sends address sent
  | .flushDelayed =>
    let (s, sent) := s.flushDelayed now
    (keep s).sends address sent

def gripData (message : Bytes) : Option Variant :=
  match parseJson message with
  | .map entries => some (.map entries)
  | .list items => some (.list items)
  | _ => none

def Session.setHere (s : Session) (item : ControlItem) : Session :=
  { s with
    machine := { s.machine with session := { s.machine.session with debug := item.debug } }
    route := fromUtf8 item.route
    statsRoute := if item.separateStats then some (fromUtf8 item.route) else none
    targetTrusted := item.trusted
    channelPrefix := fromUtf8 item.channelPrefix
    logLevel := if 0 ≤ item.logLevel then item.logLevel else s.logLevel }

def Effects.putHere (e : Effects) (sessions : Sessions) (address : Nat) (s : Session) : Effects :=
  { e with
    sessions := sessions.put address s
    updateSids := if s.sid = "" then e.updateSids else e.updateSids ++ [s.sid] }

def handleHere (packetFrom : Bytes) (e : Effects) (item : ControlItem) : Option Effects :=
  let cid := fromUtf8 item.cid
  match e.sessions.wsSessions cid with
  | some address =>
    (e.sessions.heap address).map fun s => e.putHere e.sessions address (s.setHere fromUtf8 item)
  | none =>
    let sessions := { e.sessions with
      wsSessions := Function.update e.sessions.wsSessions cid (some e.sessions.unused)
      unused := e.sessions.unused + 1 }
    let s := { Session.new cid with
      peer := packetFrom, ttl := item.ttl, uri := item.uri, expireTimer :=
        some (toInt32 (item.ttl * 1000)) }
    some (e.putHere sessions e.sessions.unused (s.setHere fromUtf8 item))

/-- An item for a session that exists. `ok` is the flag that parsing a message
    clears when it fails; nothing in the loop over the items sets it again. -/
def handleKnown (e : Effects) (ok : Bool) (address : Nat) (s : Session) (item : ControlItem) :
    Effects × Bool :=
  match item.type with
  | .keepAlive =>
    ({ e with
      sessions := e.sessions.put address
        { s with ttl := item.ttl, expireTimer := some (toInt32 (item.ttl * 1000)) } }, ok)
  | .gone | .cancel => ({ e with sessions := e.sessions.removeWsSession address s }, ok)
  | .grip =>
    match gripData parseJson item.message with
    | none => (e, ok)
    | some data =>
      match WsControlMessage.fromVariant fromUtf8 fromBase64 data with
      | .error _ => (e, false)
      | .ok cm => if ok then (handleMessage subscriptionMax now e address s item cm, true)
          else (e, false)
  | .needKeepAlive =>
    match s.keepAliveMessage with
    | some message => (e.reply (.send (toUtf8 s.cid) s.keepAliveType message), ok)
    | none => (e, ok)
  | .subscribe =>
    let channel := fromUtf8 item.channel
    let s := { s with
      implicitChannels :=
        if channel ∈ s.implicitChannels then s.implicitChannels else channel :: s.implicitChannels }
    ({ e with sessions := e.sessions.addChannel address s channel ⟨channel, none, []⟩ }, ok)
  | .ack =>
    let reqId := (parseInt (fromUtf8 item.requestId)).getD 0
    ({ e with
      sessions := e.sessions.put address
        { s with pendingRequests := s.pendingRequests.erase reqId } }, ok)
  | .here | .other => (e, ok)

def handleItem (packetFrom : Bytes) (e : Effects) (ok : Bool) (item : ControlItem) :
    Option (Effects × Bool) :=
  let e := if item.type ≠ .ack ∧ item.requestId ≠ [] then e.reply (.ack item.cid item.requestId)
    else e
  if item.type = .here then (handleHere fromUtf8 packetFrom e item).map (·, ok)
  else
    match e.sessions.wsSessions (fromUtf8 item.cid) with
    | none => some (e.reply (.cancel item.cid), ok)
    | some address => do
      let s ← e.sessions.heap address
      some (handleKnown fromUtf8 fromBase64 parseJson subscriptionMax now e ok address s item)

def handleItems (packetFrom : Bytes) (e : Effects) (ok : Bool) : List ControlItem →
    Option (Effects × Bool)
  | [] => some (e, ok)
  | item :: items => do
    let (e, ok) ← handleItem fromUtf8 fromBase64 parseJson subscriptionMax now packetFrom e ok item
    handleItems packetFrom e ok items

def wsControlInReadyRead (packetFrom : Bytes) (e : Effects) (items : List ControlItem) :
    Option Effects :=
  (handleItems fromUtf8 fromBase64 parseJson subscriptionMax now packetFrom e true items).map
    Prod.fst

def deliverEach (packetFrom : Bytes) (e : Effects) : List ControlItem → Option Effects
  | [] => some e
  | item :: items => do
    let e ← wsControlInReadyRead fromUtf8 fromBase64 parseJson subscriptionMax now packetFrom e
      [item]
    deliverEach packetFrom e items

end
end PushpinWsControl
