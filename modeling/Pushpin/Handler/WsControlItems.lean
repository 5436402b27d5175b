import Pushpin.Handler.WsControl

namespace PushpinWsControl
open OrderedMaps PushpinVariant
open PushpinFilters (toUtf8)
open Function (update update_of_ne update_self)

structure Sessions.Sound (h : Sessions) : Prop where
  found : ∀ cid address, h.wsSessions cid = some address → ∃ s, h.heap address = some s ∧
    s.cid = cid
  fresh : ∀ address, h.unused ≤ address → h.heap address = none

section
variable (fromUtf8 : Bytes → String) (fromBase64 : Bytes → Option Bytes)
  (parseJson : Bytes → Variant)
variable (subscriptionMax : Nat) (now : Int)

/-- Whether the item has a Grip control message, and whether that is well-formed. -/
def gripVerdict (item : ControlItem) : Option Bool :=
  if item.type = .grip then
    (gripData parseJson item.message).map fun data =>
      (WsControlMessage.fromVariant fromUtf8 fromBase64 data).isOk
  else none

def trackLive (live : String → Bool) (item : ControlItem) : String → Bool :=
  match item.type with
  | .here => update live (fromUtf8 item.cid) true
  | .gone | .cancel => update live (fromUtf8 item.cid) false
  | _ => live

/-- No well-formed message for a connection that has a session comes after a
    malformed one (`spoiled`: one has been seen). -/
def orderly (live : String → Bool) (spoiled : Bool) : List ControlItem → Bool
  | [] => true
  | item :: items =>
    match (if live (fromUtf8 item.cid) then gripVerdict fromUtf8 fromBase64 parseJson item
      else none) with
    | some true => !spoiled && orderly (trackLive fromUtf8 live item) spoiled items
    | some false => orderly (trackLive fromUtf8 live item) true items
    | none => orderly (trackLive fromUtf8 live item) spoiled items

def noneRejected (packetFrom : Bytes) (e : Effects) (ok : Bool) : List ControlItem → Prop
  | [] => True
  | item :: items =>
    ((e.sessions.wsSessions (fromUtf8 item.cid)).isSome = true →
      gripVerdict fromUtf8 fromBase64 parseJson item = some true → ok = true) ∧
    ∀ next ok', handleItem fromUtf8 fromBase64 parseJson subscriptionMax now packetFrom e ok item =
      some (next, ok') → noneRejected packetFrom next ok' items

/-- The items of a packet are independent: they do what they do in packets of
    their own, and no well-formed message is rejected. -/
def Independent (packetFrom : Bytes) (sessions : Sessions) (items : List ControlItem) : Prop :=
  wsControlInReadyRead fromUtf8 fromBase64 parseJson subscriptionMax now packetFrom
    (.start sessions) items =
      deliverEach fromUtf8 fromBase64 parseJson subscriptionMax now packetFrom
        (.start sessions) items ∧
    noneRejected fromUtf8 fromBase64 parseJson subscriptionMax now packetFrom
      (.start sessions) true items

variable {fromUtf8 fromBase64 parseJson subscriptionMax now}

def acked (e : Effects) (item : ControlItem) : Effects :=
  if item.type ≠ .ack ∧ item.requestId ≠ [] then e.reply (.ack item.cid item.requestId) else e

@[simp] theorem acked_sessions (e : Effects) (item : ControlItem) :
    (acked e item).sessions = e.sessions := by
  unfold acked
  split_ifs <;> rfl

def liveIn (h : Sessions) (cid : String) : Bool := (h.wsSessions cid).isSome

section
variable (h : Sessions) (address : Nat) (s : Session)
include h address s

@[simp] theorem put_wsSessions :
    (h.put address s).wsSessions = h.wsSessions := rfl

@[simp] theorem put_unused :
    (h.put address s).unused = h.unused := rfl

@[simp] theorem put_index :
    (h.put address s).wsSessionsByChannel = h.wsSessionsByChannel := rfl

end

section
variable (h : Sessions) (address : Nat) (channel : String)
include h address channel

@[simp] theorem addToChannel_wsSessions :
    (h.addToChannel address channel).wsSessions = h.wsSessions := rfl

@[simp] theorem addToChannel_heap :
    (h.addToChannel address channel).heap = h.heap := rfl

@[simp] theorem removeSessionChannel_wsSessions :
    (h.removeSessionChannel address channel).wsSessions = h.wsSessions := by
  unfold Sessions.removeSessionChannel
  split
  · rfl
  · split_ifs <;> rfl

@[simp] theorem removeSessionChannel_heap :
    (h.removeSessionChannel address channel).heap = h.heap := by
  unfold Sessions.removeSessionChannel
  split
  · rfl
  · split_ifs <;> rfl

@[simp] theorem removeSessionChannel_unused :
    (h.removeSessionChannel address channel).unused = h.unused := by
  unfold Sessions.removeSessionChannel
  split
  · rfl
  · split_ifs <;> rfl

end

theorem removeAll_fields (channels : List String) (h : Sessions) (address : Nat) :
    let next := channels.foldl (fun h channel => h.removeSessionChannel address channel) h
    next.wsSessions = h.wsSessions ∧ next.heap = h.heap ∧ next.unused = h.unused := by
  induction channels generalizing h with
  | nil => exact ⟨rfl, rfl, rfl⟩
  | cons channel channels ih =>
    obtain ⟨sessions, heap, unused⟩ := ih (h.removeSessionChannel address channel)
    refine ⟨?_, ?_, ?_⟩
    · exact sessions.trans (removeSessionChannel_wsSessions h address channel)
    · exact heap.trans (removeSessionChannel_heap h address channel)
    · exact unused.trans (removeSessionChannel_unused h address channel)

namespace Sessions.Sound
variable {h : Sessions} {address : Nat} {s : Session}

theorem new : Sessions.new.Sound := ⟨fun _ _ absurd => (nomatch absurd), fun _ _ => rfl⟩

section
variable (sound : h.Sound)
include sound

theorem past (stored : h.heap address = some s) {a : Nat} (free : h.unused ≤ a) :
    a ≠ address := by
  rintro rfl
  rw [sound.fresh a free] at stored
  cases stored

theorem put (stored : h.heap address = some s) {next : Session}
    (same : next.cid = s.cid) : (h.put address next).Sound := by
  refine ⟨?_, ?_⟩
  · intro cid a found
    obtain ⟨there, storedThere, named⟩ := sound.found cid a found
    by_cases here : a = address
    · rw [here, stored] at storedThere
      cases storedThere
      exact ⟨next, by rw [here]; exact update_self .., same.trans named⟩
    · exact ⟨there, (update_of_ne here ..).trans storedThere, named⟩
  · intro a free
    exact (update_of_ne (sound.past stored free) ..).trans (sound.fresh a free)

theorem index (index : String → Option (Finset Nat)) :
    Sessions.Sound { h with wsSessionsByChannel := index } := ⟨sound.found, sound.fresh⟩

theorem of_fields {next : Sessions} (sessions : next.wsSessions = h.wsSessions)
    (heap : next.heap = h.heap) (unused : next.unused = h.unused) : next.Sound :=
  ⟨by rw [sessions, heap]; exact sound.found, by rw [heap, unused]; exact sound.fresh⟩

theorem addChannel (stored : h.heap address = some s) {next : Session}
    (same : next.cid = s.cid) (channel : String) (c : PushpinHttpSession.Channel) :
    (h.addChannel address next channel c).Sound := by
  have kept : (next.setChannels (next.channels.insert channel c)).cid = s.cid := same
  exact (sound.put stored kept).index _

theorem remove (stored : h.heap address = some s) :
    (h.removeWsSession address s).Sound := by
  obtain ⟨sessions, heap, unused⟩ := removeAll_fields (s.channels.entries.map Prod.fst) h address
  refine ⟨?_, ?_⟩
  · intro cid a found
    have other : cid ≠ s.cid := by
      rintro rfl
      rw [removeWsSession] at found
      simp only [update_self] at found
      cases found
    have foundBefore : h.wsSessions cid = some a := by
      rw [← sessions]
      exact (update_of_ne other ..).symm.trans found
    obtain ⟨there, storedThere, named⟩ := sound.found cid a foundBefore
    refine ⟨there, ?_, named⟩
    have elsewhere : a ≠ address := by
      rintro rfl
      rw [stored] at storedThere
      cases storedThere
      exact other named.symm
    refine (update_of_ne elsewhere ..).trans ?_
    exact (congrFun heap a).trans storedThere
  · intro a free
    have before : h.unused ≤ a := unused ▸ free
    refine (update_of_ne (sound.past stored before) ..).trans ?_
    exact (congrFun heap a).trans (sound.fresh a before)

end

end Sessions.Sound

theorem flushDelayed_cid (s : Session) (now : Int) : (s.flushDelayed now).1.cid = s.cid := by
  unfold Session.flushDelayed
  split_ifs <;> rfl

theorem sendDelayed_cid (s : Session) (now : Int) (type : String) (message : Option Bytes)
    (timeout : Int) : (s.sendDelayed now type message timeout).1.cid = s.cid :=
  flushDelayed_cid s now

variable {e : Effects}

theorem handleMessage_sound {address : Nat} {s : Session} (sound : e.sessions.Sound)
    (stored : e.sessions.heap address = some s) (item : ControlItem) (cm : WsControlMessage) :
    (handleMessage subscriptionMax now e address s item cm).sessions.Sound ∧
      (handleMessage subscriptionMax now e address s item cm).sessions.wsSessions =
      e.sessions.wsSessions := by
  unfold handleMessage
  cases cm.type with
  | subscribe =>
    dsimp only
    split_ifs
    · exact ⟨sound.put stored rfl, rfl⟩
    · exact ⟨sound.addChannel stored rfl _ _, rfl⟩
    · exact ⟨sound, rfl⟩
  | unsubscribe =>
    dsimp only
    split_ifs
    · exact ⟨sound, rfl⟩
    · have kept : (s.setChannels (s.channels.erase (s.channelPrefix ++ cm.channel))).cid = s.cid :=
        rfl
      exact ⟨(sound.put stored kept).of_fields (by simp) (by simp) (by simp), by simp⟩
  | detach => exact ⟨sound, rfl⟩
  | session =>
    dsimp only
    split
    · split_ifs
      · exact ⟨sound.put stored rfl, rfl⟩
      · exact ⟨sound.put stored rfl, rfl⟩
    · exact ⟨sound.put stored rfl, rfl⟩
  | setMeta =>
    dsimp only
    split
    · exact ⟨sound.put stored rfl, rfl⟩
    · exact ⟨sound.put stored rfl, rfl⟩
  | keepAlive =>
    dsimp only
    split
    · exact ⟨sound.put stored rfl, rfl⟩
    · exact ⟨sound.put stored rfl, rfl⟩
  | sendDelayed => exact ⟨sound.put stored (sendDelayed_cid s _ _ _ _), rfl⟩
  | flushDelayed => exact ⟨sound.put stored (flushDelayed_cid s _), rfl⟩

def Tracks (fromUtf8 : Bytes → String) (before : Sessions) (item : ControlItem) (next : Sessions) :
    Prop :=
  next.Sound ∧ liveIn next = trackLive fromUtf8 (liveIn before) item

variable {item : ControlItem}

theorem tracks_same {before next : Sessions} (sound : next.Sound)
    (same : next.wsSessions = before.wsSessions)
    (steady : item.type ≠ .here ∧ item.type ≠ .gone ∧ item.type ≠ .cancel) :
    Tracks fromUtf8 before item next := by
  refine ⟨sound, ?_⟩
  have untouched : trackLive fromUtf8 (liveIn before) item = liveIn before := by
    unfold trackLive
    split
    · rename_i isHere
      exact (steady.1 isHere).elim
    · rename_i isGone
      exact (steady.2.1 isGone).elim
    · rename_i isCancel
      exact (steady.2.2 isCancel).elim
    · rfl
  rw [untouched]
  funext cid
  rw [liveIn, liveIn, same]

theorem liveIn_update (h : Sessions) (cid : String) (value : Option Nat) {next : Sessions}
    (same : next.wsSessions = update h.wsSessions cid value) :
    liveIn next = update (liveIn h) cid value.isSome := by
  funext other
  rw [liveIn, same]
  by_cases here : other = cid
  · rw [here, update_self, update_self]
  · rw [update_of_ne here, update_of_ne here, liveIn]

theorem removed_tracks {h : Sessions} {address : Nat} {s : Session} (sound : h.Sound)
    (stored : h.heap address = some s) (named : s.cid = fromUtf8 item.cid)
    (leaves : item.type = .gone ∨ item.type = .cancel) :
    Tracks fromUtf8 h item (h.removeWsSession address s) := by
  refine ⟨sound.remove stored, ?_⟩
  have sessions := (removeAll_fields (s.channels.entries.map Prod.fst) h address).1
  have same : (h.removeWsSession address s).wsSessions = update h.wsSessions
      (fromUtf8 item.cid) none := by
    rw [← sessions, ← named]
    rfl
  rw [liveIn_update h _ none same]
  unfold trackLive
  rcases leaves with isGone | isCancel
  · rw [isGone]
    rfl
  · rw [isCancel]
    rfl

theorem handleHere_new (packetFrom : Bytes)
    (unknown : e.sessions.wsSessions (fromUtf8 item.cid) = none) :
    handleHere fromUtf8 packetFrom e item =
      some (e.putHere
        { e.sessions with
          wsSessions := update e.sessions.wsSessions (fromUtf8 item.cid)
            (some e.sessions.unused)
          unused := e.sessions.unused + 1 }
        e.sessions.unused
        (Session.setHere fromUtf8
          { Session.new (fromUtf8 item.cid) with
            peer := packetFrom, ttl := item.ttl, uri := item.uri, expireTimer :=
              some (toInt32 (item.ttl * 1000)) }
          item)) := by
  simp only [handleHere, unknown]

theorem handleHere_spec (packetFrom : Bytes) (sound : e.sessions.Sound)
    (isHere : item.type = .here) :
    ∃ next, handleHere fromUtf8 packetFrom e item = some next ∧
      Tracks fromUtf8 e.sessions item next.sessions := by
  have tracked : trackLive fromUtf8 (liveIn e.sessions) item =
      update (liveIn e.sessions) (fromUtf8 item.cid) true := by
    unfold trackLive
    rw [isHere]
  unfold Tracks
  rw [tracked]
  cases found : e.sessions.wsSessions (fromUtf8 item.cid) with
  | some address =>
    obtain ⟨s, stored, named⟩ := sound.found _ _ found
    have kept : (s.setHere fromUtf8 item).cid = s.cid := rfl
    have made : handleHere fromUtf8 packetFrom e item =
        some (e.putHere e.sessions address (s.setHere fromUtf8 item)) := by
      simp only [handleHere, found, stored, Option.map_some]
    have live : liveIn e.sessions (fromUtf8 item.cid) = true := by
      rw [liveIn, found]
      rfl
    refine ⟨_, made, sound.put stored kept, ?_⟩
    exact (live ▸ (Function.update_eq_self (fromUtf8 item.cid) (liveIn e.sessions))).symm
  | none =>
    have made := handleHere_new packetFrom found
    refine ⟨_, made, ⟨?_, ?_⟩, ?_⟩
    · intro cid a foundA
      by_cases here : cid = fromUtf8 item.cid
      · have same : a = e.sessions.unused := by
          rw [here] at foundA
          exact (Option.some.inj
            ((update_self (fromUtf8 item.cid) _ _).symm.trans foundA)).symm
        rw [same, here]
        exact ⟨_, update_self .., rfl⟩
      · have foundBefore : e.sessions.wsSessions cid = some a :=
          (update_of_ne here ..).symm.trans foundA
        obtain ⟨s, stored, named⟩ := sound.found cid a foundBefore
        have elsewhere : a ≠ e.sessions.unused := (sound.past stored le_rfl).symm
        exact ⟨s, (update_of_ne elsewhere ..).trans stored, named⟩
    · intro a free
      have later : e.sessions.unused + 1 ≤ a := free
      have elsewhere : a ≠ e.sessions.unused := by omega
      exact (update_of_ne elsewhere ..).trans (sound.fresh a (by omega))
    · exact liveIn_update e.sessions (fromUtf8 item.cid) (some e.sessions.unused) rfl

variable (fromUtf8 fromBase64 parseJson subscriptionMax now)

theorem handleKnown_spec {address : Nat} {s : Session} (sound : e.sessions.Sound)
    (stored : e.sessions.heap address = some s) (named : s.cid = fromUtf8 item.cid)
    (notHere : item.type ≠ .here) :
    let handled :=
  fun ok => handleKnown fromUtf8 fromBase64 parseJson subscriptionMax now e ok address s item
    (∀ ok, Tracks fromUtf8 e.sessions item (handled ok).1.sessions) ∧
      (handled true).2 = decide (gripVerdict fromUtf8 fromBase64 parseJson item ≠ some false) ∧
      (handled false).2 = false ∧
      (gripVerdict fromUtf8 fromBase64 parseJson item ≠ some true →
      (handled false).1 = (handled true).1) := by
  have noVerdict : item.type ≠ .grip → gripVerdict fromUtf8 fromBase64 parseJson item = none :=
    fun other => if_neg other
  dsimp only
  unfold handleKnown
  cases kind : item.type with
  | here => exact (notHere kind).elim
  | keepAlive =>
    rw [noVerdict (by rw [kind]; decide)]
    exact ⟨fun ok => tracks_same (sound.put stored rfl) rfl (by rw [kind]; decide), rfl, rfl,
      fun _ => rfl⟩
  | gone =>
    rw [noVerdict (by rw [kind]; decide)]
    exact ⟨fun ok => removed_tracks sound stored named (Or.inl kind), rfl, rfl, fun _ => rfl⟩
  | cancel =>
    rw [noVerdict (by rw [kind]; decide)]
    exact ⟨fun ok => removed_tracks sound stored named (Or.inr kind), rfl, rfl, fun _ => rfl⟩
  | needKeepAlive =>
    rw [noVerdict (by rw [kind]; decide)]
    dsimp only
    split
    · exact ⟨fun ok => tracks_same sound rfl (by rw [kind]; decide), rfl, rfl, fun _ => rfl⟩
    · exact ⟨fun ok => tracks_same sound rfl (by rw [kind]; decide), rfl, rfl, fun _ => rfl⟩
  | subscribe =>
    rw [noVerdict (by rw [kind]; decide)]
    dsimp only
    refine ⟨fun ok => tracks_same ?_ rfl (by rw [kind]; decide), rfl, rfl, fun _ => rfl⟩
    refine sound.addChannel stored ?_ _ _
    rfl
  | ack =>
    rw [noVerdict (by rw [kind]; decide)]
    exact ⟨fun ok => tracks_same (sound.put stored rfl) rfl (by rw [kind]; decide), rfl, rfl,
      fun _ => rfl⟩
  | other =>
    rw [noVerdict (by rw [kind]; decide)]
    exact ⟨fun ok => tracks_same sound rfl (by rw [kind]; decide), rfl, rfl, fun _ => rfl⟩
  | grip =>
    have steady : item.type ≠ .here ∧ item.type ≠ .gone ∧ item.type ≠ .cancel := by
      rw [kind]; decide
    have verdict : gripVerdict fromUtf8 fromBase64 parseJson item =
      (gripData parseJson item.message).map
        fun data => (WsControlMessage.fromVariant fromUtf8 fromBase64 data).isOk := if_pos kind
    cases parsed : gripData parseJson item.message with
    | none =>
      rw [parsed] at verdict
      rw [verdict]
      exact ⟨fun ok => tracks_same sound rfl steady, rfl, rfl, fun _ => rfl⟩
    | some data =>
      rw [parsed, Option.map_some] at verdict
      dsimp only
      cases made : WsControlMessage.fromVariant fromUtf8 fromBase64 data with
      | error message =>
        rw [made] at verdict
        rw [verdict]
        exact ⟨fun ok => tracks_same sound rfl steady, rfl, rfl, fun _ => rfl⟩
      | ok cm =>
        rw [made] at verdict
        rw [verdict]
        obtain ⟨soundNext, same⟩ := handleMessage_sound sound stored item cm
        refine ⟨fun ok => ?_, rfl, rfl, fun absurd => (absurd rfl).elim⟩
        cases ok with
        | false => exact tracks_same sound rfl steady
        | true => exact tracks_same soundNext same steady

def verdictIn (h : Sessions) (item : ControlItem) : Option Bool :=
  if liveIn h (fromUtf8 item.cid) then gripVerdict fromUtf8 fromBase64 parseJson item else none

theorem handleItem_spec (packetFrom : Bytes) (sound : e.sessions.Sound) (item : ControlItem) :
    ∃ set clear, handleItem fromUtf8 fromBase64 parseJson subscriptionMax now packetFrom e true
      item =
        some (set, decide (verdictIn fromUtf8 fromBase64 parseJson e.sessions item ≠ some false)) ∧
      handleItem fromUtf8 fromBase64 parseJson subscriptionMax now packetFrom e false item =
        some (clear, false) ∧
      Tracks fromUtf8 e.sessions item set.sessions ∧
        Tracks fromUtf8 e.sessions item clear.sessions ∧
      (verdictIn fromUtf8 fromBase64 parseJson e.sessions item ≠ some true → clear = set) := by
  have soundAcked : (acked e item).sessions.Sound := by rw [acked_sessions]; exact sound
  have asAcked :
    ∀ ok, handleItem fromUtf8 fromBase64 parseJson subscriptionMax now packetFrom e ok item =
      if item.type = .here then (handleHere fromUtf8 packetFrom (acked e item) item).map (·, ok)
      else ((acked e item).sessions.wsSessions (fromUtf8 item.cid)).elim
        (some ((acked e item).reply (.cancel item.cid), ok)) fun address =>
          ((acked e item).sessions.heap address).bind fun s =>
            some (handleKnown fromUtf8 fromBase64 parseJson subscriptionMax now
              (acked e item) ok address s item) := by
    intro ok
    unfold handleItem acked
    extract_lets e
    cases e.sessions.wsSessions (fromUtf8 item.cid) <;> rfl
  simp only [asAcked]
  by_cases isHere : item.type = .here
  · obtain ⟨next, made, tracks⟩ := handleHere_spec packetFrom soundAcked isHere
    rw [acked_sessions] at tracks
    have noVerdict : verdictIn fromUtf8 fromBase64 parseJson e.sessions item = none := by
      have other : item.type ≠ .grip := by rw [isHere]; decide
      rw [verdictIn, gripVerdict, if_neg other, ite_self]
    rw [noVerdict]
    simp only [if_pos isHere]
    exact ⟨next, next, by rw [made]; rfl, by rw [made]; rfl, tracks, tracks, fun _ => rfl⟩
  · simp only [if_neg isHere]
    cases found : (acked e item).sessions.wsSessions (fromUtf8 item.cid) with
    | none =>
      have notLive : liveIn e.sessions (fromUtf8 item.cid) = false := by
        rw [acked_sessions] at found
        rw [liveIn, found]
        rfl
      have noVerdict : verdictIn fromUtf8 fromBase64 parseJson e.sessions item = none := by
        rw [verdictIn, notLive]
        rfl
      have tracks :
          Tracks fromUtf8 e.sessions item ((acked e item).reply (.cancel item.cid)).sessions := by
        refine ⟨soundAcked, ?_⟩
        have same : ((acked e item).reply (.cancel item.cid)).sessions = e.sessions :=
          acked_sessions e item
        rw [same]
        unfold trackLive
        split
        · rename_i wasHere
          exact (isHere wasHere).elim
        · exact (notLive ▸ Function.update_eq_self (fromUtf8 item.cid) (liveIn e.sessions)).symm
        · exact (notLive ▸ Function.update_eq_self (fromUtf8 item.cid) (liveIn e.sessions)).symm
        · rfl
      rw [noVerdict]
      exact ⟨_, _, rfl, rfl, tracks, tracks, fun _ => rfl⟩
    | some address =>
      obtain ⟨s, stored, named⟩ := soundAcked.found _ _ found
      have isLive : liveIn e.sessions (fromUtf8 item.cid) = true := by
        rw [acked_sessions] at found
        rw [liveIn, found]
        rfl
      obtain ⟨tracks, set, clear, same⟩ :=
        handleKnown_spec fromUtf8 fromBase64 parseJson subscriptionMax now soundAcked stored named
          isHere
      rw [acked_sessions] at tracks
      simp only [Option.elim_some, stored, Option.bind_some, verdictIn, isLive, if_true]
      exact ⟨_, _, congrArg some (Prod.ext rfl set), congrArg some (Prod.ext rfl clear),
        tracks true, tracks false, same⟩

theorem deliverEach_cons (packetFrom : Bytes) {set : Effects} {ok : Bool}
    (handled : handleItem fromUtf8 fromBase64 parseJson subscriptionMax now packetFrom e true item =
    some (set, ok))
    (items : List ControlItem) :
    deliverEach fromUtf8 fromBase64 parseJson subscriptionMax now packetFrom e (item :: items) =
      deliverEach fromUtf8 fromBase64 parseJson subscriptionMax now packetFrom set items := by
  simp only [deliverEach, wsControlInReadyRead, handleItems, handled, Option.bind_eq_bind,
    Option.bind_some, Option.map_some]

theorem orderly_cons {live : String → Bool} {spoiled : Bool} {items : List ControlItem}
    {h : Sessions} (same : live = liveIn h) :
    orderly fromUtf8 fromBase64 parseJson live spoiled (item :: items) = true ↔
      (verdictIn fromUtf8 fromBase64 parseJson h item = some true → spoiled = false) ∧
        orderly fromUtf8 fromBase64 parseJson (trackLive fromUtf8 live item)
          (spoiled || decide (verdictIn fromUtf8 fromBase64 parseJson h item = some false))
          items = true := by
  subst same
  rw [orderly]
  change (match verdictIn fromUtf8 fromBase64 parseJson h item with
    | some true => _
    | some false => _
    | none => _) = true ↔ _
  cases verdictIn fromUtf8 fromBase64 parseJson h item with
  | none => simp
  | some good => cases good <;> simp

theorem handleItems_eq_deliverEach (packetFrom : Bytes) (items : List ControlItem)
    (sound : e.sessions.Sound) {ok : Bool}
    (inOrder : orderly fromUtf8 fromBase64 parseJson (liveIn e.sessions) (!ok) items = true) :
    (handleItems fromUtf8 fromBase64 parseJson subscriptionMax now packetFrom e ok items).map
    Prod.fst =
      deliverEach fromUtf8 fromBase64 parseJson subscriptionMax now packetFrom e items := by
  induction items generalizing e ok with
  | nil => rfl
  | cons item items ih =>
    obtain ⟨good, later⟩ := (orderly_cons fromUtf8 fromBase64 parseJson rfl).mp inOrder
    obtain ⟨set, clear, handledSet, handledClear, tracks, _, same⟩ :=
      handleItem_spec fromUtf8 fromBase64 parseJson subscriptionMax now packetFrom sound item
    rw [deliverEach_cons fromUtf8 fromBase64 parseJson subscriptionMax now packetFrom handledSet
      items]
    rw [← tracks.2] at later
    cases ok with
    | true =>
      simp only [handleItems, handledSet, Option.bind_eq_bind, Option.bind_some]
      refine ih tracks.1 ?_
      simpa using later
    | false =>
      have notGood : verdictIn fromUtf8 fromBase64 parseJson e.sessions item ≠ some true :=
          fun absurd => by
        cases good absurd
      simp only [handleItems, handledClear, same notGood, Option.bind_eq_bind, Option.bind_some]
      refine ih tracks.1 ?_
      simpa using later

theorem forall_some_pair {α β : Type} {a : α} {b : β} {p : α → β → Prop} :
    (∀ a' b', some (a, b) = some (a', b') → p a' b') ↔ p a b := by
  constructor
  · exact fun all => all a b rfl
  · rintro holds a' b' ⟨⟩
    exact holds

theorem noneRejected_iff (packetFrom : Bytes) (items : List ControlItem) (sound : e.sessions.Sound)
    {ok : Bool} :
    noneRejected fromUtf8 fromBase64 parseJson subscriptionMax now packetFrom e ok items ↔
      orderly fromUtf8 fromBase64 parseJson (liveIn e.sessions) (!ok) items = true := by
  induction items generalizing e ok with
  | nil => simp [noneRejected, orderly]
  | cons item items ih =>
    obtain ⟨set, clear, handledSet, handledClear, tracksSet, tracksClear, _⟩ :=
      handleItem_spec fromUtf8 fromBase64 parseJson subscriptionMax now packetFrom sound item
    rw [orderly_cons fromUtf8 fromBase64 parseJson rfl, noneRejected]
    have accepted_iff : ((e.sessions.wsSessions (fromUtf8 item.cid)).isSome = true →
        gripVerdict fromUtf8 fromBase64 parseJson item = some true → ok = true) ↔
        (verdictIn fromUtf8 fromBase64 parseJson e.sessions item = some true → (!ok) = false) := by
      unfold verdictIn liveIn
      cases (e.sessions.wsSessions (fromUtf8 item.cid)).isSome <;> simp
    rw [accepted_iff]
    refine and_congr_right fun _ => ?_
    cases ok with
    | true =>
      rw [handledSet, ← tracksSet.2, forall_some_pair, ih tracksSet.1]
      simp
    | false =>
      rw [handledClear, ← tracksClear.2, forall_some_pair, ih tracksClear.1]
      simp

/-- The items of a packet are independent exactly if no well-formed Grip control
    message for a session comes after a malformed one. -/
theorem items_independent_iff (packetFrom : Bytes) {sessions : Sessions} (sound : sessions.Sound)
    (items : List ControlItem) :
    Independent fromUtf8 fromBase64 parseJson subscriptionMax now packetFrom sessions items ↔
      orderly fromUtf8 fromBase64 parseJson (liveIn sessions) false items = true := by
  have rejected : noneRejected fromUtf8 fromBase64 parseJson subscriptionMax now packetFrom
    (.start sessions) true items ↔
      orderly fromUtf8 fromBase64 parseJson (liveIn sessions) false items = true :=
    noneRejected_iff fromUtf8 fromBase64 parseJson subscriptionMax now packetFrom items sound
  constructor
  · intro independent
    exact rejected.mp independent.2
  · intro inOrder
    exact ⟨handleItems_eq_deliverEach fromUtf8 fromBase64 parseJson subscriptionMax now packetFrom
      items sound inOrder, rejected.mpr inOrder⟩

end

def sampleJson (message : Bytes) : Variant :=
  if message = toUtf8 "\x7b\x7d" then .map []
  else if message = toUtf8 "\x7b\"type\":\"detach\"\x7d" then .map [("type", .string "detach")]
  else .invalid

def sampleItem (type : ItemType) (message : String) : ControlItem :=
  { cid := [97], type := type, message := toUtf8 message }

def spoiledItems : List ControlItem :=
  [sampleItem .here "", sampleItem .grip "\x7b\x7d", sampleItem .grip "\x7b\"type\":\"detach\"\x7d"]

theorem spoiled_packet_loses_reply :
    ¬ Independent PushpinFilters.latin1 some sampleJson 20 0 [] Sessions.new spoiledItems := by
  rintro ⟨same, _⟩
  have together :
    (wsControlInReadyRead PushpinFilters.latin1 some sampleJson 20 0 [] (.start Sessions.new)
      spoiledItems).map Effects.replies = some [] := by decide +kernel
  have apart : (deliverEach PushpinFilters.latin1 some sampleJson 20 0 [] (.start Sessions.new)
      spoiledItems).map Effects.replies = some [.detach [97]] := by decide +kernel
  rw [same, apart] at together
  cases together

theorem valid_message_first_is_independent :
    Independent PushpinFilters.latin1 some sampleJson 20 0 [] Sessions.new
      [sampleItem .here "", sampleItem .grip "\x7b\"type\":\"detach\"\x7d",
      sampleItem .grip "\x7b\x7d"] :=
  (items_independent_iff PushpinFilters.latin1 some sampleJson 20 0 [] Sessions.Sound.new _).mpr
    (by decide +kernel)

end PushpinWsControl
