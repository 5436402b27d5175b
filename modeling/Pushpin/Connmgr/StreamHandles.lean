import Pushpin.Connmgr.SessionIndex

/-!
The stream handles of the ZHTTP server socket and their sessions. Sessions are
dropped by other threads at any time, so `send_direct` is one event after another:
each look at the session table, which is locked for it, and each blocking send.
Allocators, the readiness of channels and full channels are arguments. A `none` is
a panic.
-/
namespace PushpinConnmgr
open PushpinRingBuffer Slabs Runs

structure SessionItem where
  key : SessionKey
  handleIndex : Nat
  deriving DecidableEq, Repr

inductive SessionAddError where
  | full
  | exists_
  deriving DecidableEq, Repr

structure SessionData where
  items : Slab SessionItem
  itemsByKey : AList fun _ : SessionKey => Nat

namespace SessionData

def new (capacity : Nat) : SessionData := ⟨Slab.withCapacity capacity, ∅⟩

def add (d : SessionData) (itemKey : Nat) (key : SessionKey) (handleIndex : Nat) :
    Except SessionAddError SessionData :=
  if d.items.len = d.items.capacity then .error .full
  else if key ∈ d.itemsByKey then .error .exists_
  else .ok ⟨d.items.insert itemKey ⟨key, handleIndex⟩, d.itemsByKey.insert key itemKey⟩

def get (d : SessionData) (key : SessionKey) : Option (Option Nat) :=
  match d.itemsByKey.lookup key with
  | some itemKey => (d.items.get? itemKey).map fun item => some item.handleIndex
  | none => some none

def remove (d : SessionData) (itemKey : Nat) : Option SessionData :=
  (d.items.get? itemKey).map fun item => ⟨d.items.remove itemKey, d.itemsByKey.erase item.key⟩

/-- The handle that a live session with the key was handed to, found without the
    index. -/
def ownerOf (d : SessionData) (key : SessionKey) : Option Nat :=
  d.items.entries.findSome? fun e => e.bind fun item => if item.key = key then some item.handleIndex
    else none

end SessionData

structure ServerStreamPipe where
  valid : Bool
  connected : Bool
  deriving DecidableEq, Repr

inductive StreamHandlesSendError where
  | badFormat
  | noneReady
  | sessionExists
  | sessionCapacityFull
  deriving DecidableEq, Repr

inductive DirectPhase where
  | looking (ids : List (List Byte))
  | sending (nkey : Nat)
  deriving DecidableEq, Repr

/-- A call of `send_direct`, with the handles that had a listed session when its id
    was looked up, and those that took the packet. -/
structure DirectCall where
  sender : Addr
  indexes : List Bool
  phase : DirectPhase
  owned : List Nat
  sent : List Nat
  deriving DecidableEq, Repr

structure Finished where
  owned : List Nat
  sent : List Nat
  live : List Nat
  deriving DecidableEq, Repr

structure StreamHandles where
  nodes : Slab ServerStreamPipe
  list : List Nat
  needCleanup : Bool
  sendIndex : Nat
  sessions : SessionData
  call : Option DirectCall
  finished : List Finished

namespace StreamHandles

def new (capacity sessionsCapacity : Nat) : StreamHandles :=
  ⟨Slab.withCapacity capacity, [], false, 0, .new sessionsCapacity, none, []⟩

def addrOf (bytes : List Byte) : Option Addr :=
  if fits : bytes.length ≤ fromMax then some ⟨bytes, fits⟩ else none

def reqIdOf (bytes : List Byte) : Option ReqId :=
  if fits : bytes.length ≤ reqIdMax then some ⟨bytes, fits⟩ else none

def add (s : StreamHandles) (nkey : Nat) : Option StreamHandles :=
  if s.nodes.len < s.nodes.capacity then
    some { s with nodes := s.nodes.insert nkey ⟨true, true⟩, list := s.list ++ [nkey] }
  else none

def select (ready : Nat → Bool) : List Nat → Nat → Option Nat → Option Nat
  | [], _, selected => selected
  | nkey :: rest, skip, selected =>
    let selected := if ready nkey then some nkey else selected
    if skip > 0 then select ready rest (skip - 1) selected
    else if selected.isSome then selected
    else select ready rest 0 selected

def isValid (s : StreamHandles) (nkey : Nat) : Bool :=
  ((s.nodes.get? nkey).map ServerStreamPipe.valid).getD false

def isConnected (s : StreamHandles) (nkey : Nat) : Bool :=
  ((s.nodes.get? nkey).map ServerStreamPipe.connected).getD false

def invalidate (s : StreamHandles) (nkey : Nat) : StreamHandles :=
  match s.nodes.get? nkey with
  | some p => { s with nodes := s.nodes.insert nkey { p with valid := false }, needCleanup := true }
  | none => s

/-- The end of `send_any`: the message goes to a handle together with its session,
    which is dropped with the message where the send fails. -/
def handOver (s : StreamHandles) (itemKey : Nat) (full : Bool) (key : SessionKey) (nkey : Nat) :
    Option (StreamHandles × Except StreamHandlesSendError Unit) :=
  match s.sessions.add itemKey key nkey with
  | .error .full => some (s, .error .sessionCapacityFull)
  | .error .exists_ => some (s, .error .sessionExists)
  | .ok sessions =>
    if !s.isConnected nkey then
      (sessions.remove itemKey).map fun sessions =>
        (({ s with sessions := sessions }).invalidate nkey, .error .noneReady)
    else if full then
      (sessions.remove itemKey).map fun sessions =>
        ({ s with sessions := sessions }, .error .noneReady)
    else some ({ s with sessions := sessions }, .ok ())

def sendAny (s : StreamHandles) (writable : Nat → Bool) (itemKey : Nat) (full : Bool)
    (sender : List Byte) (ids : List (List Byte)) :
    Option (StreamHandles × Except StreamHandlesSendError Unit) :=
  match addrOf sender, ids.head?.bind reqIdOf with
  | some addr, some id =>
    if s.nodes.isEmpty then some (s, .error .noneReady)
    else
      let skip := s.sendIndex
      let s := { s with sendIndex := (skip + 1) % s.nodes.len }
      match select (fun nkey => s.isValid nkey && writable nkey) s.list skip none with
      | none => some (s, .error .noneReady)
      | some nkey => s.handOver itemKey full ⟨addr, id⟩ nkey
  | _, _ => some (s, .error .badFormat)

def live (s : StreamHandles) : List Nat := (List.range s.nodes.capacity).filter s.isConnected

def ownersOf (s : StreamHandles) (sender : Addr) (ids : List (List Byte)) : List Nat :=
  ids.filterMap fun id => (reqIdOf id).bind fun id => s.sessions.ownerOf ⟨sender, id⟩

def finish (s : StreamHandles) (owned sent : List Nat) : StreamHandles :=
  { s with call := none, finished := s.finished ++ [⟨owned, sent, s.live⟩] }

/-- `send_direct` up to its first look at the table. No session has an address that
    is too long. -/
def beginDirect (s : StreamHandles) (sender : List Byte) (ids : List (List Byte)) : StreamHandles :=
  match addrOf sender with
  | none => s.finish [] []
  | some addr =>
    if s.nodes.isEmpty then s.finish (s.ownersOf addr ids) []
    else { s with call := some ⟨addr, List.replicate s.nodes.capacity false, .looking ids, [], []⟩ }

/-- One round of the loop over the ids. An id that is too long ends the call. -/
def look (s : StreamHandles) (c : DirectCall) : List (List Byte) → Option StreamHandles
  | [] => some { s with call := some { c with phase := .sending 0 } }
  | id :: ids =>
    match reqIdOf id with
    | none => some (s.finish (c.owned ++ s.ownersOf c.sender ids) [])
    | some reqId =>
      (s.sessions.get ⟨c.sender, reqId⟩).bind fun found =>
        let owned := c.owned ++ s.ownersOf c.sender [id]
        match found with
        | some nkey =>
          if nkey < c.indexes.length then
            some { s with
              call := some { c with
                indexes := c.indexes.set nkey true, phase := .looking ids, owned := owned } }
          else none
        | none => some { s with call := some { c with phase := .looking ids, owned := owned } }

def deliver (s : StreamHandles) (c : DirectCall) (nkey : Nat) : StreamHandles :=
  if nkey < c.indexes.length then
    if s.isValid nkey && c.indexes[nkey]?.getD false then
      if s.isConnected nkey then
        { s with call := some { c with phase := .sending (nkey + 1), sent := c.sent ++ [nkey] } }
      else { s.invalidate nkey with call := some { c with phase := .sending (nkey + 1) } }
    else { s with call := some { c with phase := .sending (nkey + 1) } }
  else s.finish c.owned c.sent

def cleanup (s : StreamHandles) : StreamHandles :=
  let gone := s.list.filter fun nkey => !s.isValid nkey
  { s with
    nodes := gone.foldl Slab.remove s.nodes
    list := s.list.filter s.isValid
    needCleanup := false }

inductive Event where
  | add (nkey : Nat)
  | sendAny (writable : Nat → Bool) (itemKey : Nat) (full : Bool) (sender : List Byte)
      (ids : List (List Byte))
  | sendDirect (sender : List Byte) (ids : List (List Byte))
  | look
  | deliver
  | cleanup
  | drop (itemKey : Nat)
  | disconnect (nkey : Nat)

def disconnect (s : StreamHandles) (nkey : Nat) : StreamHandles :=
  match s.nodes.get? nkey with
  | some p => { s with nodes := s.nodes.insert nkey { p with connected := false } }
  | none => s

def step (s : StreamHandles) : Event → Option StreamHandles
  | .add nkey => s.add nkey
  | .sendAny writable itemKey full sender ids =>
    (s.sendAny writable itemKey full sender ids).map Prod.fst
  | .sendDirect sender ids => some (s.beginDirect sender ids)
  | .look =>
    match s.call with
    | some c =>
      match c.phase with
      | .looking ids => s.look c ids
      | .sending _ => some s
    | none => some s
  | .deliver =>
    match s.call with
    | some c =>
      match c.phase with
      | .sending nkey => some (s.deliver c nkey)
      | .looking _ => some s
    | none => some s
  | .cleanup => some s.cleanup
  | .drop itemKey => (s.sessions.remove itemKey).map fun sessions => { s with sessions := sessions }
  | .disconnect nkey => some (s.disconnect nkey)

/-- One task makes the calls, one after the other. A session has one owner, who
    drops it once. A new handle does not get a slot that sessions of an old one
    still name. -/
def allowed (s : StreamHandles) : Event → Bool
  | .add nkey => s.call.isNone && decide (s.nodes.Vacant nkey) &&
      s.sessions.items.entries.all fun e => e.all fun item => item.handleIndex ≠ nkey
  | .sendAny _ itemKey _ _ _ => s.call.isNone &&
      (decide (s.sessions.items.len = s.sessions.items.capacity) || decide
      (s.sessions.items.Vacant itemKey))
  | .sendDirect _ _ => s.call.isNone
  | .cleanup => s.call.isNone
  | .drop itemKey => (s.sessions.items.get? itemKey).isSome
  | _ => true

def shortIds (_ : StreamHandles) : Event → Bool
  | .sendDirect _ ids => ids.all fun id => decide (id.length ≤ reqIdMax)
  | _ => true

end StreamHandles
end PushpinConnmgr
