import Pushpin.Foundations.Runs
import Pushpin.Handler.PublishLastIds

/-!
`Sequencer`. An item that does not follow the last item of its channel waits for
the one before it, or for its time to run out. Addresses and readings of the clock
are arguments, so results hold for every allocator and every clock. Each call
returns the items that it emitted. `none` is a failed assertion.
-/
namespace PushpinHandler
open OrderedMaps

def channelPendingMax : Nat := 100

/-- What the sequencer reads of an item, and the rest. A null id is `none`. -/
structure PublishItem (σ β : Type) where
  channel : σ
  id : Option σ
  prevId : Option σ
  rest : β
  deriving DecidableEq

structure PendingItem (σ β : Type) where
  addr : Nat
  time : Int
  item : PublishItem σ β
  deriving DecidableEq

structure CachedId (σ : Type) where
  addr : Nat
  expireTime : Int
  channel : σ
  id : σ

/-- An emitted item with the circumstances: the last id of its channel, the item
    of the channel that waits for it, and how long it waited if its time ran out. -/
structure Emission (σ β : Type) where
  item : PublishItem σ β
  lastId : Option σ
  follower : Option (PublishItem σ β)
  waited : Option Int
  deriving DecidableEq

structure Sequencer (σ β : Type) [LinearOrder σ] where
  lastIds : PublishLastIds σ
  pendingItemsByChannel : OrderedMap σ (OrderedMap σ (PendingItem σ β))
  pendingItemsByTime : OrderedMap (Int ×ₗ Nat) (PendingItem σ β)
  expireTimer : Bool
  pendingExpireMSecs : Int
  idCacheTtl : Int
  idCacheById : OrderedMap (σ ×ₗ σ) (CachedId σ)
  idCacheByExpireTime : OrderedMap (Int ×ₗ Nat) (CachedId σ)

namespace Sequencer
variable {σ β : Type} [LinearOrder σ]

def new (lastIds : PublishLastIds σ) (pendingExpireMSecs idCacheTtl : Int) : Sequencer σ β where
  lastIds := lastIds
  pendingItemsByChannel := .empty
  pendingItemsByTime := .empty
  expireTimer := false
  pendingExpireMSecs := pendingExpireMSecs
  idCacheTtl := idCacheTtl
  idCacheById := .empty
  idCacheByExpireTime := .empty

def waitingFor (s : Sequencer σ β) (channel : σ) (id : Option σ) : Option (PendingItem σ β) := do
  (← s.pendingItemsByChannel.get? channel).get? (← id)

def emission (s : Sequencer σ β) (item : PublishItem σ β) (waited : Option Int) : Emission σ β where
  item := item
  lastId := s.lastIds.value item.channel
  follower := (s.waitingFor item.channel item.id).map PendingItem.item
  waited := waited

def emit (now : Int) (item : PublishItem σ β) (waited : Option Int) (s : Sequencer σ β) :
    Option (Sequencer σ β × Emission σ β) :=
  match item.id with
  | some id => (s.lastIds.set now item.channel id).map fun lastIds =>
    ({ s with lastIds := lastIds }, s.emission item waited)
  | none => some ({ s with lastIds := s.lastIds.remove item.channel }, s.emission item waited)

def unlist (p : PendingItem σ β) (s : Sequencer σ β) : Sequencer σ β :=
  let items := (s.pendingItemsByChannel.get? p.item.channel).getD .empty
  { s with
    pendingItemsByChannel :=
      s.pendingItemsByChannel.insert p.item.channel (p.item.prevId.elim items items.erase)
    pendingItemsByTime := s.pendingItemsByTime.erase (toLex (p.time, p.addr)) }

def dropIfEmpty (channel : σ) (s : Sequencer σ β) : Sequencer σ β :=
  if ((s.pendingItemsByChannel.get? channel).getD .empty).isEmpty then
    let others := s.pendingItemsByChannel.erase channel
    { s with pendingItemsByChannel := others, expireTimer := s.expireTimer && !others.isEmpty }
  else s

def flush (clock : Nat → Int) (channel : σ) : Nat → Option σ → Sequencer σ β →
    Option (Sequencer σ β × List (Emission σ β))
  | 0, _, s => some (s, [])
  | left + 1, id, s =>
    match s.waitingFor channel id with
    | none => some (s, [])
    | some p => do
      let (s, first) ← (s.unlist p).emit (clock left) p.item none
      let (s, later) ← flush clock channel left p.item.id s
      return (s, first :: later)

def sendItem (clock : Nat → Int) (item : PublishItem σ β) (waited : Option Int)
    (s : Sequencer σ β) : Option (Sequencer σ β × List (Emission σ β)) := do
  let (s, first) ← s.emit (clock 0) item waited
  match s.pendingItemsByChannel.get? item.channel with
  | none => return (s, [first])
  | some items =>
    let (s, later) ← flush (fun left => clock (left + 1)) item.channel items.count item.id s
    return (s.dropIfEmpty item.channel, first :: later)

def expireIds (now : Int) : Nat → Sequencer σ β → Sequencer σ β
  | 0, s => s
  | left + 1, s =>
    match s.idCacheByExpireTime.firstPair? with
    | none => s
    | some (key, i) =>
      if i.expireTime > now then s
      else expireIds now left { s with
        idCacheById := s.idCacheById.erase (toLex (i.channel, i.id))
        idCacheByExpireTime := s.idCacheByExpireTime.erase key }

def cacheMSecs (s : Sequencer σ β) : Int := (s.idCacheTtl * 1000).bmod (2 ^ 32)

/-- Whether the id was seen recently. If not, it is from now on. -/
def seenId (now : Int) (addr : Nat) (item : PublishItem σ β) (s : Sequencer σ β) :
    Bool × Sequencer σ β :=
  match item.id with
  | some id =>
    if s.idCacheTtl > 0 then
      if (s.idCacheById.get? (toLex (item.channel, id))).isSome then (true, s)
      else
        let i : CachedId σ := ⟨addr, now + s.cacheMSecs, item.channel, id⟩
        (false, { s with
          idCacheById := s.idCacheById.insert (toLex (item.channel, id)) i
          idCacheByExpireTime := s.idCacheByExpireTime.insert (toLex (i.expireTime, addr)) i })
    else (false, s)
  | none => (false, s)

def enlist (p : PendingItem σ β) (prevId : σ) (items : OrderedMap σ (PendingItem σ β))
    (s : Sequencer σ β) : Sequencer σ β :=
  { s with
    pendingItemsByChannel := s.pendingItemsByChannel.insert p.item.channel (items.insert prevId p)
    pendingItemsByTime := s.pendingItemsByTime.insert (toLex (p.time, p.addr)) p
    expireTimer := true }

inductive Verdict (σ : Type) where
  | send
  | keep (prevId : σ)
  | drop

/-- An item has to wait if the last id and its previous id are both known and
    differ. -/
def verdict (item : PublishItem σ β) (s : Sequencer σ β) : Verdict σ :=
  match s.lastIds.value item.channel, item.prevId with
  | some lastId, some prevId =>
    if lastId = prevId then .send
    else
      let items := (s.pendingItemsByChannel.get? item.channel).getD .empty
      if (items.get? prevId).isSome || decide (items.count ≥ channelPendingMax) then .drop
        else .keep prevId
  | _, _ => .send

def addItem (now : Int) (addr idAddr : Nat) (clock : Nat → Int) (item : PublishItem σ β)
    (seq : Bool) (s : Sequencer σ β) : Option (Sequencer σ β × Bool × List (Emission σ β)) :=
  match (s.expireIds now s.idCacheByExpireTime.count).seenId now idAddr item with
  | (true, s) => some (s, false, [])
  | (false, s) =>
    if !seq then some (s, true, [s.emission item none])
    else
      let items := (s.pendingItemsByChannel.get? item.channel).getD .empty
      match s.verdict item with
      | .drop =>
        -- `pendingItemsByChannel[channel]` puts an entry in the map
        some ({ s with pendingItemsByChannel := s.pendingItemsByChannel.insert item.channel items },
          false, [])
      | .keep prevId =>
        some (s.enlist ⟨addr, now, item⟩ prevId items, true, [])
      | .send => (s.sendItem clock item none).map fun sent => (sent.1, true, sent.2)

def clear (channel : σ) (s : Sequencer σ β) : Sequencer σ β × List (PublishItem σ β) :=
  match s.pendingItemsByChannel.get? channel with
  | none => (s, [])
  | some items =>
    ({ s with
      pendingItemsByTime := items.entries.foldl
        (fun byTime e => byTime.erase (toLex (e.2.time, e.2.addr))) s.pendingItemsByTime
      pendingItemsByChannel := s.pendingItemsByChannel.erase channel },
     items.entries.map fun e => e.2.item)

def expireLoop (now threshold : Int) (clock : Nat → Nat → Int) : Nat → Sequencer σ β →
    Option (Sequencer σ β × List (Emission σ β))
  | 0, s => some (s, [])
  | left + 1, s =>
    match s.pendingItemsByTime.firstPair? with
    | none => some (s, [])
    | some (_, p) =>
      if p.time > threshold then some (s, [])
      else do
        let s := (s.unlist p).dropIfEmpty p.item.channel
        let (s, emitted) ← s.sendItem (clock left) p.item (some (now - p.time))
        let (s, later) ← expireLoop now threshold clock left s
        return (s, emitted ++ later)

def expireTimerTimeout (now : Int) (clock : Nat → Nat → Int) (s : Sequencer σ β) :
    Option (Sequencer σ β × List (Emission σ β)) :=
  expireLoop now (now - s.pendingExpireMSecs) clock s.pendingItemsByTime.count s

def pending (s : Sequencer σ β) : List (PublishItem σ β) :=
  s.pendingItemsByTime.entries.map fun e => e.2.item

end Sequencer
end PushpinHandler
