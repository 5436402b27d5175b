import Pushpin.Core.RetryRequestPacket
import Pushpin.Foundations.Runs

/-!
`WsControlSession` of the proxy: the items that a WebSocket connection writes to its
handler and receives from it. The handler's address is learnt from its first item, and
what is written before is parked. `none` is a failed assertion, a use of a session that
is gone or a request number past the largest one.
-/
namespace PushpinControlSession
open PushpinRingBuffer PushpinTnetstring PushpinTnetCodec PushpinPackets Text

def SESSION_TTL : Int32 := 60
def SESSION_EXPIRE : Int32 := 60000
def REQUEST_TIMEOUT : Int := 8000

structure Setup (qt : Qt) where
  debug : Bool
  route : List Byte
  separateStats : Bool
  channelPrefix : List Byte
  logLevel : Int32
  uri : qt.Url
  targetTrusted : Bool

/-- A null id is `none`. `inits` and `stream` are what the manager sent; `written` is every
    other item that `write` was given, and whether it acknowledges a Send; `sends` are
    the ids of the Sends, and `reported` counts those that were written. -/
structure Session (qt : Qt) where
  manager : Bool := true
  registered : Bool := false
  nextReqId : Nat := 0
  pendingItems : List (Item qt) := []
  pendingRequests : List (Int × Int) := []
  pendingSendEventWrites : List (Option (List Byte)) := []
  requestTimer : Option Int := none
  peer : List Byte := []
  cid : List Byte
  inits : List (Item qt) := []
  stream : List (List Byte × Item qt) := []
  written : List (Item qt × Bool) := []
  sends : List (List Byte) := []
  reported : Nat := 0

variable {qt : Qt}

def createSession (qt : Qt) (cid : List Byte) : Session qt := { cid }

def stamped (cid : List Byte) (item : Item qt) : Item qt := { item with cid }

def number (reqId : Nat) : List Byte := Decimal.text reqId

namespace Session
variable (s : Session qt)

def writeStream (out : Item qt) (instanceAddress : List Byte) : Session qt :=
  { s with stream := s.stream ++ [(instanceAddress, out)] }

def writeInit (out : Item qt) : Session qt := { s with inits := s.inits ++ [out] }

def write (item : Item qt) (acksSend : Bool) : Session qt :=
  let out := stamped s.cid item
  let s := { s with written := s.written ++ [(out, acksSend)] }
  if s.peer ≠ [] then s.writeStream out s.peer
    else { s with pendingItems := s.pendingItems ++ [item] }

def writeFirst (item : Item qt) : Session qt := s.writeInit (stamped s.cid item)

def flushPending : Session qt :=
  { s with
    stream := s.stream ++ s.pendingItems.map fun item => (s.peer, stamped s.cid item)
    pendingItems := [] }

def cleanup : Session qt :=
  if s.manager then
    { { s with registered := false }.write { type := .gone } false with manager := false } else s

def takeReqId : Option (Nat × Session qt) :=
  if s.nextReqId + 1 < intEnd then some (s.nextReqId, { s with nextReqId := s.nextReqId + 1 })
    else none

def start (setup : Setup qt) : Option (Session qt) := do
  let (reqId, s) ← { s with registered := true }.takeReqId
  return s.writeFirst
    { type := .here
      requestId := number reqId
      debug := setup.debug
      route := setup.route
      separateStats := setup.separateStats
      channelPrefix := setup.channelPrefix
      logLevel := setup.logLevel
      uri := setup.uri
      trusted := setup.targetTrusted
      ttl := SESSION_TTL }

def lowestTime (requests : List (Int × Int)) : Int :=
  requests.foldl (fun lowest request => if lowest = -1 ∨
    request.2 < lowest then request.2 else lowest) (-1)

def setupRequestTimer (now : Int) : Session qt :=
  if s.pendingRequests ≠ [] then
    { s with requestTimer := some (max (lowestTime s.pendingRequests - now) 0) }
  else { s with requestTimer := none }

def sendRequest (item : Item qt) (now : Int) : Option (Session qt) := do
  let (reqId, s) ← s.takeReqId
  let others := s.pendingRequests.filter fun request => request.1 ≠ (reqId : Int)
  let s := { s with pendingRequests := others ++ [((reqId : Int), now + REQUEST_TIMEOUT)] }
  return (s.setupRequestTimer now).write { item with requestId := number reqId } false

def sendGripMessage (message : Option (List Byte)) (now : Int) : Option (Session qt) :=
  s.sendRequest { type := .grip, message } now

def sendSubscribe (channel : List Byte) (now : Int) : Option (Session qt) :=
  s.sendRequest { type := .subscribe, channel } now

def sendNeedKeepAlive : Session qt := s.write { type := .needKeepAlive } false

def ack (requestId : List Byte) : Item qt := { type := .ack, requestId }

def answer (item : Item qt) : Session qt :=
  if item.type ≠ .ack ∧ item.requestId ≠ [] ∧
    item.type ≠ .send then s.write (ack item.requestId) false else s

/-- The events that are raised here, after everything else, are steps of their own. -/
def note (item : Item qt) (now : Int) : Session qt :=
  match item.type with
  | .send =>
    { s with
      pendingSendEventWrites :=
        s.pendingSendEventWrites ++ [if item.requestId ≠ [] then some item.requestId else none]
      sends := s.sends ++ [item.requestId] }
  | .ack =>
    let reqId := (toInt item.requestId).getD 0
    if reqId ∈ s.pendingRequests.map Prod.fst then
      { s with
        pendingRequests := s.pendingRequests.filter fun request => request.1 ≠ reqId
        }.setupRequestTimer now
    else s
  | _ => s

def handle (from_ : List Byte) (item : Item qt) (now : Int) : Session qt :=
  ({ s with peer := from_ }.flushPending.answer item).note item now

def sendEventWritten : Option (Session qt) :=
  match s.pendingSendEventWrites with
  | [] => none
  | requestId :: rest =>
    let s := { s with pendingSendEventWrites := rest, reported := s.reported + 1 }
    match requestId with
    | some requestId => some (s.write (ack requestId) true)
    | none => some s

def requestTimer_timeout (now : Int) : Session qt :=
  { s with pendingRequests := [] }.setupRequestTimer now

def refresh : Session qt :=
  if s.peer = [] then s
  else s.writeStream { type := .keepAlive, cid := s.cid, ttl := SESSION_EXPIRE / 1000 } s.peer

end Session

inductive Event (qt : Qt) where
  | start (setup : Setup qt)
  | sendGripMessage (message : Option (List Byte)) (now : Int)
  | sendSubscribe (channel : List Byte) (now : Int)
  | sendNeedKeepAlive
  | handle (from_ : List Byte) (item : Item qt) (now : Int)
  | sendEventWritten
  | timeout (now : Int)
  | refresh
  | destroy

def Session.take (s : Session qt) : Event qt → Option (Session qt)
  | .start setup => s.start setup
  | .sendGripMessage message now => s.sendGripMessage message now
  | .sendSubscribe channel now => s.sendSubscribe channel now
  | .sendNeedKeepAlive => some s.sendNeedKeepAlive
  | .handle from_ item now => some (s.handle from_ item now)
  | .sendEventWritten => s.sendEventWritten
  | .timeout now => some (s.requestTimer_timeout now)
  | .refresh => some s.refresh
  | .destroy => some s.cleanup

def step (s : Session qt) (event : Event qt) : Option (Session qt) :=
  if s.manager then s.take event else none

/-- The events that can come: the session is there, a Send is only reported that was
    received, an item has a sender, and timers run. -/
def possible (s : Session qt) (event : Event qt) : Bool :=
  s.manager &&
    match event with
    | .sendEventWritten => s.pendingSendEventWrites ≠ []
    | .handle from_ _ _ => from_ ≠ []
    | .timeout _ => s.requestTimer.isSome
    | .refresh => s.registered
    | _ => true

/-- The session goes after the handler's first item, and its requests are counted. -/
def fits (s : Session qt) : Event qt → Bool
  | .destroy => s.peer ≠ []
  | .start _ | .sendGripMessage .. | .sendSubscribe .. => s.nextReqId + 1 < intEnd
  | _ => true

namespace Session

def delivered (s : Session qt) : List (Item qt) :=
  (s.stream.map Prod.snd).filter fun item => item.type ≠ .keepAlive

/-- What was written went out in order, or is parked until the handler is known. -/
structure Flowing (s : Session qt) : Prop where
  order : s.delivered ++ s.pendingItems.map (stamped s.cid) = s.written.map Prod.fst
  known : s.peer ≠ [] → s.pendingItems = []
  own : ∀ item ∈ s.pendingItems, item.type ≠ .keepAlive

def Parted (s : Session qt) : Prop :=
  ∃ before, s.written.map Prod.fst = before ++ (if s.manager then
    [] else [{ type := .gone, cid := s.cid }]) ∧ ∀ item ∈ before, item.type ≠ .gone

structure Acknowledged (s : Session qt) : Prop where
  done : (s.written.filter Prod.snd).map Prod.fst =
    ((s.sends.take s.reported).filter (· ≠ [])).map fun id => stamped s.cid (ack id)
  waiting : s.pendingSendEventWrites = (s.sends.drop s.reported).map fun id => if id ≠ [] then
    some id else none
  bound : s.reported ≤ s.sends.length

structure Awaiting (s : Session qt) : Prop where
  timer : s.requestTimer.isSome = true ↔ s.pendingRequests ≠ []
  issued : ∀ request ∈ s.pendingRequests, request.1 < s.nextReqId

section
variable {s : Session qt} {item : Item qt}

theorem write_eq (s : Session qt) (item : Item qt) (acksSend : Bool) :
    s.write item acksSend =
      { s with
        written := s.written ++ [(stamped s.cid item, acksSend)]
        stream := if s.peer ≠ [] then s.stream ++ [(s.peer, stamped s.cid item)] else s.stream
        pendingItems := if s.peer ≠ [] then s.pendingItems else s.pendingItems ++ [item] } := by
  by_cases there : s.peer ≠ []
  · simp only [write, writeStream, if_pos there]
  · simp only [write, if_neg there]

theorem Flowing.write (flowing : s.Flowing) (acksSend : Bool) (own : item.type ≠ .keepAlive) :
    (s.write item acksSend).Flowing := by
  rw [write_eq]
  obtain ⟨order, known, mine⟩ := flowing
  have kept : (stamped s.cid item).type ≠ .keepAlive := own
  by_cases there : s.peer ≠ []
  · simp only [if_pos there]
    refine ⟨?_, known, mine⟩
    simp only [delivered] at order
    simp only [delivered, List.map_append, List.filter_append, ← order, known there]
    simp [kept]
  · simp only [if_neg there]
    refine ⟨?_, fun known => absurd known there, ?_⟩
    · simp only [delivered] at order
      simp only [delivered, List.map_append, ← order, List.map_cons, List.map_nil,
        List.append_assoc]
    · intro other mem
      rcases List.mem_append.mp mem with before | last
      · exact mine other before
      · rw [List.mem_singleton.mp last]
        exact own

theorem Flowing.greet (flowing : s.Flowing) (from_ : List Byte) :
    ({ s with peer := from_ }.flushPending).Flowing := by
  obtain ⟨order, -, mine⟩ := flowing
  refine ⟨?_, fun _ => rfl, fun _ mem => absurd mem List.not_mem_nil⟩
  have all : (s.pendingItems.map (stamped s.cid)).filter (fun item => item.type ≠ .keepAlive) =
      s.pendingItems.map (stamped s.cid) := by
    refine List.filter_eq_self.mpr fun item mem => ?_
    obtain ⟨parked, there, rfl⟩ := List.mem_map.mp mem
    exact decide_eq_true (mine parked there)
  simp only [delivered] at order
  simp only [delivered, flushPending, List.map_append, List.map_map, List.filter_append,
    List.map_nil, List.append_nil, ← order]
  exact congrArg _ all

theorem Parted.write (parted : s.Parted) (there : s.manager = true) (acksSend : Bool)
    (other : item.type ≠ .gone) : (s.write item acksSend).Parted := by
  obtain ⟨before, eq, none⟩ := parted
  rw [there, if_pos rfl, List.append_nil] at eq
  refine ⟨before ++ [stamped s.cid item], ?_, ?_⟩
  · rw [write_eq]
    simp [eq, there]
  · intro i mem
    rcases List.mem_append.mp mem with old | new
    · exact none i old
    · rw [List.mem_singleton.mp new]
      exact other

theorem Acknowledged.write (acknowledged : s.Acknowledged) : (s.write item false).Acknowledged := by
  obtain ⟨done, waiting, bound⟩ := acknowledged
  rw [write_eq]
  refine ⟨?_, waiting, bound⟩
  simp only [List.filter_append, List.map_append, done]
  simp

theorem Awaiting.write (awaiting : s.Awaiting) (acksSend : Bool) :
    (s.write item acksSend).Awaiting := by
  rw [write_eq]
  exact ⟨awaiting.timer, awaiting.issued⟩

theorem setupRequestTimer_eq (s : Session qt) (now : Int) :
    s.setupRequestTimer now =
      { s with
        requestTimer :=
          if s.pendingRequests ≠ [] then some (max (lowestTime s.pendingRequests - now) 0)
            else none } := by
  unfold setupRequestTimer
  split <;> rfl

theorem setupRequestTimer_awaiting (issued : ∀ request ∈ s.pendingRequests, request.1 < s.nextReqId)
    (now : Int) : (s.setupRequestTimer now).Awaiting := by
  rw [setupRequestTimer_eq]
  refine ⟨?_, issued⟩
  by_cases some_ : s.pendingRequests ≠ []
  · simp [some_]
  · simp [some_]

end

structure InStep (s : Session qt) : Prop where
  flowing : s.Flowing
  parted : s.Parted
  acknowledged : s.Acknowledged
  awaiting : s.Awaiting

section
variable {s : Session qt}

section
variable (inStep : s.InStep)
include inStep

theorem InStep.write (there : s.manager = true) {item : Item qt}
    (own : item.type ≠ .keepAlive ∧ item.type ≠ .gone) : (s.write item false).InStep :=
  ⟨inStep.flowing.write false own.1, inStep.parted.write there false own.2,
    inStep.acknowledged.write, inStep.awaiting.write false⟩

theorem InStep.setupRequestTimer {requests : List (Int × Int)}
    (issued : ∀ request ∈ requests, request.1 < s.nextReqId) (now : Int) :
    ({ s with pendingRequests := requests }.setupRequestTimer now).InStep := by
  have awaiting :=
    setupRequestTimer_awaiting (s := { s with pendingRequests := requests }) issued now
  rw [setupRequestTimer_eq] at awaiting ⊢
  obtain ⟨⟨order, known, mine⟩, parted, ⟨done, waiting, bound⟩, -⟩ := inStep
  exact ⟨⟨order, known, mine⟩, parted, ⟨done, waiting, bound⟩, awaiting⟩

theorem InStep.counted : ({ s with nextReqId := s.nextReqId + 1 } : Session qt).InStep := by
  obtain ⟨⟨order, known, mine⟩, parted, ⟨done, waiting, bound⟩, timer, issued⟩ := inStep
  refine ⟨⟨order, known, mine⟩, parted, ⟨done, waiting, bound⟩, timer, fun request mem => ?_⟩
  have small := issued request mem
  show request.1 < ((s.nextReqId + 1 : Nat) : Int)
  omega

theorem start_inStep (room : s.nextReqId + 1 < intEnd) (setup : Setup qt) :
    ∃ next, s.start setup = some next ∧ next.InStep := by
  rw [start, takeReqId, if_pos room]
  refine ⟨_, rfl, ?_⟩
  obtain ⟨⟨order, known, mine⟩, parted, ⟨done, waiting, bound⟩, awaiting⟩ := inStep.counted
  exact ⟨⟨order, known, mine⟩, parted, ⟨done, waiting, bound⟩, ⟨awaiting.timer, awaiting.issued⟩⟩

theorem sendRequest_inStep (there : s.manager = true)
    (room : s.nextReqId + 1 < intEnd) {item : Item qt}
    (own : item.type ≠ .keepAlive ∧ item.type ≠ .gone) (now : Int) :
    ∃ next, s.sendRequest item now = some next ∧ next.InStep := by
  rw [sendRequest, takeReqId, if_pos room]
  refine ⟨_, rfl, ?_⟩
  have timed : (({ s with nextReqId := s.nextReqId + 1 } : Session qt).InStep) := inStep.counted
  refine (timed.setupRequestTimer ?_ now).write ?_ own
  · intro request mem
    rcases List.mem_append.mp mem with old | new
    · exact timed.awaiting.issued request (List.mem_of_mem_filter old)
    · rw [List.mem_singleton.mp new]
      exact Int.ofNat_lt.mpr (Nat.lt_succ_self _)
  · rw [setupRequestTimer_eq]
    exact there

theorem answer_inStep (there : s.manager = true) (item : Item qt) : (s.answer item).InStep := by
  unfold answer
  split
  · exact inStep.write there ⟨ItemType.noConfusion, ItemType.noConfusion⟩
  · exact inStep

theorem note_inStep (item : Item qt) (now : Int) : (s.note item now).InStep := by
  unfold note
  split
  · obtain ⟨⟨order, known, mine⟩, parted, ⟨done, waiting, bound⟩, awaiting⟩ := inStep
    refine ⟨⟨order, known, mine⟩, parted, ⟨?_, ?_, ?_⟩, ⟨awaiting.timer, awaiting.issued⟩⟩
    · simp only [List.take_append_of_le_length bound, done]
    · simp only [List.drop_append_of_le_length bound, waiting, List.map_append, List.map_cons,
        List.map_nil]
    · simp only [List.length_append]
      omega
  · dsimp only
    split
    · refine inStep.setupRequestTimer (fun request mem => ?_) now
      exact inStep.awaiting.issued request (List.mem_of_mem_filter mem)
    · exact inStep
  · exact inStep

theorem handle_inStep (there : s.manager = true) (from_ : List Byte)
    (item : Item qt) (now : Int) : (s.handle from_ item now).InStep := by
  have greeted : ({ s with peer := from_ }.flushPending).InStep := ?_
  · exact note_inStep (answer_inStep greeted there item) item now
  obtain ⟨flowing, parted, ⟨done, waiting, bound⟩, awaiting⟩ := inStep
  exact ⟨flowing.greet from_, parted, ⟨done, waiting, bound⟩, ⟨awaiting.timer, awaiting.issued⟩⟩

theorem sendEventWritten_inStep (there : s.manager = true)
    (some_ : s.pendingSendEventWrites ≠ []) :
    ∃ next, s.sendEventWritten = some next ∧ next.InStep := by
  obtain ⟨flowing, parted, ⟨done, waiting, bound⟩, awaiting⟩ := inStep
  have more : s.reported < s.sends.length := by
    rw [waiting] at some_
    by_contra all
    exact some_ (by rw [List.drop_eq_nil_of_le (by omega), List.map_nil])
  rw [List.drop_eq_getElem_cons more, List.map_cons] at waiting
  have taken : s.sends.take (s.reported + 1) = s.sends.take s.reported ++ [s.sends[s.reported]] :=
    (List.take_append_getElem more).symm
  generalize rest_eq :
    (s.sends.drop (s.reported + 1)).map (fun id => if id ≠ [] then some id else none) = rest
    at waiting
  have flows : ({ s with pendingSendEventWrites := rest, reported := s.reported + 1 } : Session
      qt).Flowing :=
    ⟨flowing.order, flowing.known, flowing.own⟩
  have awaits : ({ s with pendingSendEventWrites := rest, reported := s.reported + 1 } : Session
      qt).Awaiting :=
    ⟨awaiting.timer, awaiting.issued⟩
  unfold sendEventWritten
  simp only [waiting]
  by_cases id : s.sends[s.reported] ≠ []
  · simp only [if_pos id]
    have passes :=
      @Parted.write _ { s with pendingSendEventWrites := rest, reported := s.reported + 1 }
        (ack s.sends[s.reported]) parted there true ItemType.noConfusion
    refine ⟨_, rfl, flows.write true ItemType.noConfusion, passes, ?_, awaits.write true⟩
    rw [write_eq]
    refine ⟨?_, rest_eq.symm, more⟩
    simp only [taken, List.filter_append, List.map_append, done]
    simp [id]
  · simp only [if_neg id]
    refine ⟨_, rfl, flows, parted, ⟨?_, rest_eq.symm, more⟩, awaits⟩
    simp only [taken, List.filter_append, List.map_append, done]
    simp [not_not.mp id]

theorem refresh_inStep : s.refresh.InStep := by
  unfold refresh
  split
  · exact inStep
  · obtain ⟨⟨order, known, mine⟩, parted, ⟨done, waiting, bound⟩, awaiting⟩ := inStep
    refine ⟨⟨?_, known, mine⟩, parted, ⟨done, waiting, bound⟩, ⟨awaiting.timer, awaiting.issued⟩⟩
    refine Eq.trans ?_ order
    simp [delivered, writeStream]

theorem cleanup_inStep : s.cleanup.InStep := by
  unfold cleanup
  split
  · next there =>
    obtain ⟨⟨order, known, mine⟩, parted, ⟨done, waiting, bound⟩, awaiting⟩ := inStep
    have flowing : ({ s with registered := false } : Session qt).Flowing := ⟨order, known, mine⟩
    have acknowledged : ({ s with registered := false } : Session qt).Acknowledged :=
      ⟨done, waiting, bound⟩
    have left := @Flowing.write _ _ { type := .gone } flowing false ItemType.noConfusion
    have still := @Acknowledged.write _ _ { type := .gone } acknowledged
    refine ⟨⟨left.order, left.known, left.own⟩, ?_, ⟨still.done, still.waiting, still.bound⟩, ?_⟩
    · obtain ⟨before, eq, none⟩ := parted
      rw [there, if_pos rfl, List.append_nil] at eq
      refine ⟨before, ?_, none⟩
      simp [write_eq, eq, stamped]
    · rw [write_eq]
      exact ⟨awaiting.timer, awaiting.issued⟩
  · exact inStep

end

end

def sendOf : Event qt → List (List Byte)
  | .handle _ item _ => if item.type = .send then [item.requestId] else []
  | _ => []

def reportOf : Event qt → Nat
  | .sendEventWritten => 1
  | _ => 0

def asks : Event qt → Bool
  | .sendGripMessage .. | .sendSubscribe .. => true
  | _ => false

def settles (reqId : Int) : Event qt → Bool
  | .handle _ item _ => item.type = .ack ∧ toInt item.requestId = some reqId
  | .timeout _ => true
  | _ => false

structure Effect (s t : Session qt) (event : Event qt) : Prop where
  cid : t.cid = s.cid
  sends : t.sends = s.sends ++ sendOf event
  reported : t.reported = s.reported + reportOf event
  counted : s.nextReqId ≤ t.nextReqId
  asked : asks event = true → ((s.nextReqId : Int) ∈ t.pendingRequests.map Prod.fst) ∧
    s.nextReqId < t.nextReqId
  pending : ∀ reqId : Int, 0 < reqId → reqId < s.nextReqId →
    (reqId ∈ t.pendingRequests.map Prod.fst ↔ reqId ∈ s.pendingRequests.map Prod.fst ∧
      settles reqId event = false)
  stays : event ≠ .destroy → t.manager = s.manager
  leaves : event = .destroy → t.peer = s.peer

section
variable {s t : Session qt}

theorem Effect.quiet {event : Event qt} (cid : t.cid = s.cid)
    (sends : t.sends = s.sends ++ sendOf event)
    (reported : t.reported = s.reported + reportOf event) (counted : s.nextReqId ≤ t.nextReqId)
    (pending : t.pendingRequests = s.pendingRequests)
    (still : asks event = false ∧ ∀ reqId, settles reqId event = false)
    (stays : event ≠ .destroy → t.manager = s.manager) (leaves : event = .destroy →
    t.peer = s.peer) :
    Effect s t event := by
  refine ⟨cid, sends, reported, counted, ?_, fun reqId _ _ => ?_, stays, leaves⟩
  · rw [still.1]
    nofun
  · rw [pending, still.2 reqId]
    exact (and_iff_left rfl).symm

theorem sendRequest_effect {item : Item qt} {now : Int} (stepped : s.sendRequest item now = some t)
    {event : Event qt} (quiet : sendOf event = [] ∧ reportOf event = 0)
    (keeps : ∀ reqId, settles reqId event = false)
    (leaves : event ≠ .destroy) : Effect s t event := by
  unfold sendRequest takeReqId at stepped
  split at stepped
  · cases stepped
    simp only [write_eq, setupRequestTimer_eq]
    refine ⟨rfl, by simp [quiet.1], by simp [quiet.2], Nat.le_succ _, fun _ =>
      ⟨by simp, Nat.lt_succ_self _⟩, ?_, fun _ => rfl, fun leaving => absurd leaving leaves⟩
    intro reqId _ small
    simp only [keeps, and_true, List.map_append, List.mem_append, List.map_cons, List.map_nil,
      List.mem_singleton, List.mem_map, List.mem_filter, decide_eq_true_eq]
    constructor
    · rintro (⟨request, ⟨mem, -⟩, eq⟩ | eq)
      · exact ⟨request, mem, eq⟩
      · omega
    · rintro ⟨request, mem, eq⟩
      exact Or.inl ⟨request, ⟨mem, by omega⟩, eq⟩
  · cases stepped

theorem answer_eq (s : Session qt) (item : Item qt) :
    ∃ written stream pendingItems, s.answer item = { s with written, stream, pendingItems } := by
  unfold answer
  split
  · exact ⟨_, _, _, write_eq ..⟩
  · exact ⟨_, _, _, rfl⟩

theorem handle_effect (s : Session qt) (from_ : List Byte) (item : Item qt) (now : Int) :
    Effect s (s.handle from_ item now) (.handle from_ item now) := by
  unfold handle
  obtain ⟨written, stream, pendingItems, answered⟩ :=
    answer_eq ({ s with peer := from_ }.flushPending) item
  rw [answered]
  unfold note flushPending
  have calm : item.type ≠ .ack → ∀ reqId, settles reqId (.handle from_ item now) = false := by
    intro other reqId
    simp [settles, other]
  cases type : item.type
  case send =>
    exact .quiet rfl (by simp [sendOf, type]) rfl (Nat.le_refl _) rfl ⟨rfl, calm (by simp [type])⟩
      (fun _ => rfl) nofun
  case ack =>
    have sends : sendOf (.handle from_ item now) = [] := by simp [sendOf, type]
    dsimp only
    split
    · simp only [setupRequestTimer_eq]
      refine ⟨rfl, by simp [sends], rfl, Nat.le_refl _, nofun, fun reqId pos _ => ?_, fun _ => rfl,
        nofun⟩
      simp only [settles, type, List.mem_map, List.mem_filter, decide_eq_true_eq, true_and,
        decide_eq_false_iff_not]
      constructor
      · rintro ⟨request, ⟨mem, other⟩, rfl⟩
        refine ⟨⟨request, mem, rfl⟩, fun same => ?_⟩
        rw [same] at other
        exact other rfl
      · rintro ⟨⟨request, mem, rfl⟩, other⟩
        refine ⟨request, ⟨mem, ?_⟩, rfl⟩
        cases number : toInt item.requestId with
        | none => exact Int.ne_of_gt pos
        | some n =>
          rintro same
          exact other (by rw [number, same]; rfl)
    · next absent =>
      refine ⟨rfl, by simp [sends], rfl, Nat.le_refl _, nofun, fun reqId _ _ => ?_, fun _ => rfl,
        nofun⟩
      refine ⟨fun mem => ⟨mem, ?_⟩, And.left⟩
      simp only [settles, type, true_and, decide_eq_false_iff_not]
      rintro number
      rw [number] at absent
      exact absent mem
  all_goals
    exact .quiet rfl (by simp [sendOf, type]) rfl (Nat.le_refl _) rfl ⟨rfl, calm (by simp [type])⟩
      (fun _ => rfl) nofun

theorem step_effect {event : Event qt} (stepped : step s event = some t) : Effect s t event := by
  unfold step at stepped
  split at stepped
  · next there =>
    have none : s.sends = s.sends ++ [] := (List.append_nil _).symm
    cases event
    case start setup =>
      simp only [take, start, takeReqId] at stepped
      split at stepped
      · cases stepped
        exact .quiet rfl none rfl (Nat.le_succ _) rfl ⟨rfl, fun _ => rfl⟩ (fun _ => rfl) nofun
      · cases stepped
    case sendGripMessage => exact sendRequest_effect stepped ⟨rfl, rfl⟩ (fun _ => rfl) nofun
    case sendSubscribe => exact sendRequest_effect stepped ⟨rfl, rfl⟩ (fun _ => rfl) nofun
    case handle =>
      cases stepped
      exact handle_effect ..
    case sendNeedKeepAlive =>
      cases stepped
      rw [sendNeedKeepAlive, write_eq]
      exact .quiet rfl none rfl (Nat.le_refl _) rfl ⟨rfl, fun _ => rfl⟩ (fun _ => rfl) nofun
    case sendEventWritten =>
      simp only [take, sendEventWritten] at stepped
      split at stepped
      · cases stepped
      · split at stepped <;> cases stepped
        · rw [write_eq]
          exact .quiet rfl none rfl (Nat.le_refl _) rfl ⟨rfl, fun _ => rfl⟩ (fun _ => rfl) nofun
        · exact .quiet rfl none rfl (Nat.le_refl _) rfl ⟨rfl, fun _ => rfl⟩ (fun _ => rfl) nofun
    case timeout =>
      cases stepped
      rw [requestTimer_timeout, setupRequestTimer_eq]
      exact ⟨rfl, none, rfl, Nat.le_refl _, nofun,
        fun _ _ _ => by simp [settles], fun _ => rfl, nofun⟩
    case refresh =>
      cases stepped
      unfold refresh
      split
      · exact .quiet rfl none rfl (Nat.le_refl _) rfl ⟨rfl, fun _ => rfl⟩ (fun _ => rfl) nofun
      · exact .quiet rfl none rfl (Nat.le_refl _) rfl ⟨rfl, fun _ => rfl⟩ (fun _ => rfl) nofun
    case destroy =>
      cases stepped
      rw [cleanup, if_pos there, write_eq]
      exact .quiet rfl none rfl (Nat.le_refl _) rfl ⟨rfl, fun _ => rfl⟩
        (fun stays => absurd rfl stays) fun _ => rfl
  · cases stepped

theorem step_inStep {event : Event qt} (inStep : s.InStep) (come : possible s event = true)
    (fit : fits s event = true) : ∃ next, step s event = some next ∧ next.InStep := by
  unfold possible at come
  obtain ⟨there, come⟩ := Bool.and_eq_true_iff.mp come
  rw [step, if_pos there]
  cases event with
  | start setup => exact start_inStep inStep (of_decide_eq_true fit) setup
  | sendGripMessage message now =>
    exact sendRequest_inStep inStep there (of_decide_eq_true fit) ⟨ItemType.noConfusion,
      ItemType.noConfusion⟩ now
  | sendSubscribe channel now =>
    exact sendRequest_inStep inStep there (of_decide_eq_true fit) ⟨ItemType.noConfusion,
      ItemType.noConfusion⟩ now
  | sendNeedKeepAlive =>
      exact ⟨_, rfl, inStep.write there ⟨ItemType.noConfusion, ItemType.noConfusion⟩⟩
  | handle from_ item now => exact ⟨_, rfl, handle_inStep inStep there from_ item now⟩
  | sendEventWritten => exact sendEventWritten_inStep inStep there (of_decide_eq_true come)
  | timeout now =>
      exact ⟨_, rfl, inStep.setupRequestTimer (fun _ mem => absurd mem List.not_mem_nil) now⟩
  | refresh => exact ⟨_, rfl, refresh_inStep inStep⟩
  | destroy => exact ⟨_, rfl, cleanup_inStep inStep⟩

def Known (s : Session qt) : Prop := s.manager = false → s.peer ≠ []

theorem step_known {event : Event qt} (come : possible s event = true) (fit : fits s event = true)
    (stepped : step s event = some t) : t.Known := by
  intro gone
  have there : s.manager = true := (Bool.and_eq_true_iff.mp come).1
  have effect := step_effect stepped
  by_cases leaving : event = .destroy
  · rw [effect.leaves leaving]
    rw [leaving] at fit
    exact of_decide_eq_true fit
  · rw [effect.stays leaving, there] at gone
    cases gone

section
variable {events : List (Event qt)}

theorem run_inStep (inStep : s.InStep) (known : s.Known)
    (come : Runs.along step possible s events = true) (fit : Runs.along step fits s events = true) :
    ∃ last, Runs.run step s events = some last ∧ last.InStep ∧ last.Known := by
  refine Runs.run_rule (fun s => s.InStep ∧ s.Known) ?_ events ⟨inStep, known⟩
    (Runs.along_and.mpr ⟨come, fit⟩)
  rintro s event ⟨inStep, -⟩ checked
  obtain ⟨come, fit⟩ := Bool.and_eq_true_iff.mp checked
  obtain ⟨next, stepped, kept⟩ := step_inStep inStep come fit
  exact ⟨next, stepped, kept, step_known come fit stepped⟩

theorem run_effect (ran : Runs.run step s events = some t) :
    t.cid = s.cid ∧ t.sends = s.sends ++ events.flatMap sendOf ∧
      t.reported = s.reported + (events.map reportOf).sum ∧ s.nextReqId ≤ t.nextReqId := by
  induction events generalizing s with
  | nil =>
    cases ran
    simp
  | cons event events ih =>
    obtain ⟨next, stepped, ran⟩ := Option.bind_eq_some_iff.mp ran
    obtain ⟨cid, sends, reported, counted⟩ := ih ran
    have effect := step_effect stepped
    refine ⟨cid.trans effect.cid, ?_, ?_, effect.counted.trans counted⟩
    · rw [sends, effect.sends, List.flatMap_cons, List.append_assoc]
    · rw [reported, effect.reported, List.map_cons, List.sum_cons, Nat.add_assoc]

theorem run_pending {reqId : Int} (pos : 0 < reqId)
    (small : reqId < s.nextReqId) (ran : Runs.run step s events = some t) :
    reqId ∈ t.pendingRequests.map Prod.fst ↔
      reqId ∈ s.pendingRequests.map Prod.fst ∧ ∀ event ∈ events, settles reqId event = false := by
  induction events generalizing s with
  | nil =>
    cases ran
    simp
  | cons event events ih =>
    obtain ⟨next, stepped, ran⟩ := Option.bind_eq_some_iff.mp ran
    have effect := step_effect stepped
    have counted := effect.counted
    rw [ih (by omega) ran, effect.pending reqId pos small, List.forall_mem_cons, and_assoc]

end

end

end Session

open Session

theorem created_inStep (qt : Qt) (cid : List Byte) : (createSession qt cid).InStep where
  flowing := ⟨rfl, fun _ => rfl, fun _ mem => absurd mem List.not_mem_nil⟩
  parted := ⟨[], rfl, fun _ mem => absurd mem List.not_mem_nil⟩
  acknowledged := ⟨rfl, rfl, Nat.le_refl 0⟩
  awaiting := ⟨by simp [createSession], fun _ mem => absurd mem List.not_mem_nil⟩

/-- A session that is started, and goes only after the handler's first item. -/
theorem session_in_step {qt : Qt} (cid : List Byte) (setup : Setup qt) (events : List (Event qt))
    (come : Runs.along step possible (createSession qt cid) (.start setup :: events) = true)
    (fit : Runs.along step fits (createSession qt cid) (.start setup :: events) = true) :
    ∃ last, Runs.run step (createSession qt cid) (.start setup :: events) = some last ∧
      (last.delivered ++ last.pendingItems.map (stamped cid) = last.written.map Prod.fst ∧
        (last.peer ≠ [] → last.pendingItems = [])) ∧
      (last.manager = false →
        ∃ before, last.delivered = before ++ [{ type := .gone, cid }] ∧
          ∀ item ∈ before, item.type ≠ .gone) ∧
      ((last.written.filter Prod.snd).map Prod.fst =
        (((events.flatMap sendOf).take (events.map reportOf).sum).filter (· ≠ [])).map fun id =>
        stamped cid (ack id)) ∧
      ∀ front event rest, events = front ++ event :: rest → asks event = true →
        ∀ s, Runs.run step (createSession qt cid) (.start setup :: front) = some s →
          ((s.nextReqId : Int) ∈ last.pendingRequests.map Prod.fst ↔
          ∀ e ∈ rest, settles s.nextReqId e = false) := by
  obtain ⟨last, ran, inStep, known⟩ := run_inStep (created_inStep qt cid) nofun come fit
  obtain ⟨same, sends, reported, -⟩ := run_effect ran
  have here : last.cid = cid := same
  refine ⟨last, ran, ⟨?_, inStep.flowing.known⟩, fun gone => ?_, ?_, ?_⟩
  · rw [← inStep.flowing.order, here]
  · obtain ⟨before, eq, none⟩ := inStep.parted
    refine ⟨before, ?_, none⟩
    have order := inStep.flowing.order
    rw [inStep.flowing.known (known gone), List.map_nil, List.append_nil, eq, gone] at order
    rw [order, ← here]
    rfl
  · have sent : last.sends = events.flatMap sendOf := sends
    have count : last.reported = (events.map reportOf).sum := by
      rw [reported]
      simp [createSession, reportOf]
    rw [inStep.acknowledged.done, here, sent, count]
  · rintro front event rest rfl asking s before
    rw [← List.cons_append, Runs.run_append, before, Option.bind_some] at ran
    obtain ⟨next, stepped, later⟩ := Option.bind_eq_some_iff.mp ran
    obtain ⟨pending, counted⟩ := (step_effect stepped).asked asking
    obtain ⟨opened, started, went⟩ := Option.bind_eq_some_iff.mp before
    have numbered : 1 ≤ s.nextReqId := by
      have first : opened.nextReqId = 1 := by
        cases started
        rfl
      have more := (run_effect went).2.2.2
      omega
    rw [run_pending (by omega) (by omega) later]
    exact and_iff_right pending

theorem ack_settles {qt : Qt} {reqId : Nat} (small : reqId < intEnd) (from_ : List Byte)
    (now : Int) : settles reqId (.handle from_ (ack (number reqId) : Item qt) now) = true := by
  have int : toInt (number reqId) = some (reqId : Int) := (toInt_text reqId).trans (if_pos small)
  exact decide_eq_true ⟨rfl, int⟩

def plainSetup : Setup textQt := ⟨false, [], false, [], -1, [], false⟩

def servedEvents : List (Event textQt) :=
  [.sendSubscribe (ascii "news") 5,
    .handle (ascii "handler") { type := .ack, requestId := ascii "1" } 6,
    .sendGripMessage none 7, .handle (ascii "handler") { type := .send, requestId := ascii "0" } 8,
    .sendEventWritten, .refresh, .destroy]

theorem served_session_in_step :
    ∃ last, Runs.run step (createSession textQt (ascii "c"))
      (.start plainSetup :: servedEvents) = some last ∧
      last.delivered.map Item.type = [.subscribe, .grip, .ack, .gone] ∧
        last.pendingRequests.map Prod.fst = [2] := by
  obtain ⟨last, ran, -⟩ :=
    session_in_step (ascii "c") plainSetup servedEvents (by decide +kernel) (by decide +kernel)
  refine ⟨last, ran, ?_⟩
  cases ran
  decide +kernel

/-- A session that goes before its handler answers takes the item that says so with it. -/
theorem gone_is_lost :
    Runs.along step possible (createSession textQt (ascii "c"))
      [.start plainSetup, .destroy] = true ∧
    ∃ last, Runs.run step (createSession textQt (ascii "c"))
      [.start plainSetup, .destroy] = some last ∧
      last.inits.map Item.type = [.here] ∧ last.manager = false ∧ last.stream.map Prod.snd = [] ∧
      last.pendingItems.map Item.type = [.gone] := by
  refine ⟨by decide +kernel, _, rfl, ?_⟩
  decide +kernel

end PushpinControlSession
