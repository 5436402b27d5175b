import Pushpin.Core.ZhttpRequest

namespace PushpinZhttpRequest
open PushpinVariant (Bytes toInt32)
open PushpinZhttpPackets ZhttpRequest Runs

def Packet.data : Packet → Option ZhttpResponsePacket
  | .response packet _ _ => if packet.type = .data then some packet else none
  | _ => none

def Packet.dataOf (packets : List Packet) : List ZhttpResponsePacket :=
  packets.filterMap Packet.data

def bodyOf (packets : List ZhttpResponsePacket) : Bytes :=
  packets.flatMap fun packet => bytesOf packet.body

def ZhttpRequest.datas (s : ZhttpRequest) : List ZhttpResponsePacket := Packet.dataOf s.sent

/-- What a step leaves alone that does not respond. An update may have become due. -/
structure Aside (s t : ZhttpRequest) : Prop where
  server : t.server = s.server
  started : t.started = s.started
  deleted : t.deleted = s.deleted
  manager : t.manager = s.manager
  state : t.state = s.state
  errored : t.errored = s.errored
  code : t.responseCode = s.responseCode
  reason : t.responseReason = s.responseReason
  headers : t.responseHeaders = s.responseHeaders
  buffer : t.responseBodyBuf = s.responseBodyBuf
  credits : t.outCredits = s.outCredits
  ledger : t.ledger.written = s.ledger.written ∧ t.ledger.creditsIn = s.ledger.creditsIn
  finished : t.bodyFinished = s.bodyFinished
  due : t.pendingUpdate = false → s.pendingUpdate = false
  datas : t.datas = s.datas

theorem Aside.refl (s : ZhttpRequest) : Aside s s := by
  constructor <;> simp

variable {s t u : ZhttpRequest}

theorem Aside.trans (first : Aside s t) (second : Aside t u) : Aside s u where
  server := second.server.trans first.server
  started := second.started.trans first.started
  deleted := second.deleted.trans first.deleted
  manager := second.manager.trans first.manager
  state := second.state.trans first.state
  errored := second.errored.trans first.errored
  code := second.code.trans first.code
  reason := second.reason.trans first.reason
  headers := second.headers.trans first.headers
  buffer := second.buffer.trans first.buffer
  credits := second.credits.trans first.credits
  ledger := ⟨second.ledger.1.trans first.ledger.1, second.ledger.2.trans first.ledger.2⟩
  finished := second.finished.trans first.finished
  due := fun idle => first.due (second.due idle)
  datas := second.datas.trans first.datas

theorem writeResponse_aside {packet : ZhttpResponsePacket} (other : packet.type ≠ .data)
    (s : ZhttpRequest) : Aside s (s.writeResponse packet) := by
  unfold writeResponse
  split
  · constructor <;> simp [abort, datas]
  · constructor <;> simp [datas, Packet.dataOf, Packet.data, other]

theorem writeRequest_aside (packet : ZhttpRequestPacket) (s : ZhttpRequest) :
    Aside s (s.writeRequest packet) := by
  unfold writeRequest
  repeat' split
  all_goals constructor <;> simp [abort, datas, Packet.dataOf, Packet.data]

theorem outSeqInc_aside (s : ZhttpRequest) : Aside s s.outSeqInc := by
  unfold outSeqInc
  split
  · constructor <;> simp [abort, datas]
  · constructor <;> simp [datas, Packet.dataOf, Packet.data]

theorem keepAliveTimeout_aside (s : ZhttpRequest) : Aside s s.keepAliveTimeout := by
  unfold keepAliveTimeout
  split
  · exact writeResponse_aside (by decide) s
  · exact writeRequest_aside _ s

theorem startKeepAlive_aside (s : ZhttpRequest) : Aside s s.startKeepAlive := by
  unfold startKeepAlive
  split
  · constructor <;> simp [abort, datas]
  · split
    · split
      · refine (keepAliveTimeout_aside s).trans ?_
        constructor <;> simp [datas]
      · constructor <;> simp [datas]
    · constructor <;> simp [datas]

theorem switchMulti_aside (multi restart : Bool) (s : ZhttpRequest) :
    Aside s (s.switchMulti multi restart) := by
  unfold switchMulti
  split
  · split
    · refine Aside.trans ?_ (startKeepAlive_aside _)
      constructor <;> simp [datas]
    · constructor <;> simp [datas]
  · exact Aside.refl s

theorem readBody_aside (server : s.server = true) (size : Int) : Aside s (s.readBody size) := by
  unfold readBody
  rw [if_pos server]
  dsimp only
  split
  · exact Aside.refl s
  · split
    · refine Aside.trans ?_ (writeResponse_aside (by simp) _)
      constructor <;> simp [datas]
    · constructor <;> simp [datas]

theorem emitReadable_aside (s : ZhttpRequest) : Aside s s.emitReadable := by
  unfold emitReadable
  split
  · constructor <;> simp [signal, datas]
  · exact Aside.refl s

theorem emitWritable_aside (s : ZhttpRequest) : Aside s s.emitWritable := by
  unfold emitWritable
  split
  · constructor <;> simp [signal, datas]
  · exact Aside.refl s

def ZhttpRequest.begun (s : ZhttpRequest) : Bool :=
  s.started && (s.state = .serverResponding || s.state = .stopped)

structure ZhttpRequest.Ended (s : ZhttpRequest) : Prop where
  started : s.started = true
  state : s.state = .stopped
  errored : s.errored = false
  deleted : s.deleted = false

def State.client : State → Bool
  | .clientStarting | .clientRequestStartWait | .clientRequesting | .clientRequestFinishWait
  | .clientReceiving => true
  | _ => false

/-- A server whose packets so far are the response as far as it went. -/
structure Responds (s : ZhttpRequest) : Prop where
  server : s.server = true
  role : s.state.client = false
  linked : s.deleted = false → s.state ≠ .stopped → s.manager = true
  unlinked : s.started = true → s.state = .stopped → s.manager = false
  awake : s.state = .serverResponseStarting ∨ s.state = .serverResponding → s.started = true
  kept : bodyOf s.datas ++ s.responseBodyBuf = s.ledger.written
  paid : ((bodyOf s.datas).length : Int) + s.outCredits = s.ledger.creditsIn
  solvent : 0 ≤ s.outCredits
  early : s.begun = false → s.datas = []
  head : ∀ packet ∈ s.datas.head?,
    packet.code = s.responseCode ∧ packet.reason = s.responseReason ∧
      packet.headers = s.responseHeaders
  tail : ∀ packet ∈ s.datas.tail, packet.code = -1 ∧ packet.reason = [] ∧ packet.headers = []
  ongoing : s.state ≠ .stopped → ∀ packet ∈ s.datas, packet.more = true
  front : ∀ packet ∈ s.datas.dropLast, packet.more = true
  finish : s.Ended → (∃ packet ∈ s.datas.getLast?, packet.more = false) ∧ s.responseBodyBuf = [] ∧
    s.bodyFinished = true

structure Prompt (s : ZhttpRequest) : Prop where
  opened : s.state = .serverResponding → s.datas ≠ []
  starting : s.pendingUpdate = false → s.state ≠ .serverResponseStarting
  closing : s.pendingUpdate = false → s.state = .serverResponding → s.responseBodyBuf = [] →
    s.bodyFinished = false
  sending : s.pendingUpdate = false → s.state = .serverResponding → s.responseBodyBuf ≠ [] →
    s.outCredits = 0

def State.progress : State → Nat
  | .serverResponseStarting => 1
  | .serverResponding => 2
  | .stopped => 3
  | _ => 0

theorem State.progress_le (state : State) : state.progress ≤ State.stopped.progress := by
  cases state <;> decide

def Forward (s t : ZhttpRequest) : Prop :=
  s.started = true → t.started = true ∧ (1 ≤ s.state.progress → s.state.progress ≤ t.state.progress)

structure Onward (s t : ZhttpRequest) : Prop where
  responds : Responds t
  prompt : Prompt t
  forward : Forward s t

theorem Aside.forward (aside : Aside s t) : Forward s t := by
  intro started
  rw [aside.started, aside.state]
  exact ⟨started, fun _ => le_rfl⟩

theorem Aside.responds (aside : Aside s t) (before : Responds s) : Responds t where
  server := aside.server.trans before.server
  role := by rw [aside.state]; exact before.role
  linked := by rw [aside.deleted, aside.state, aside.manager]; exact before.linked
  unlinked := by rw [aside.state, aside.manager, aside.started]; exact before.unlinked
  awake := by rw [aside.state, aside.started]; exact before.awake
  kept := by rw [aside.datas, aside.buffer, aside.ledger.1]; exact before.kept
  paid := by rw [aside.datas, aside.credits, aside.ledger.2]; exact before.paid
  solvent := by rw [aside.credits]; exact before.solvent
  early := by
    simp only [begun, aside.started, aside.state, aside.datas]
    exact before.early
  head := by rw [aside.datas, aside.code, aside.reason, aside.headers]; exact before.head
  tail := by rw [aside.datas]; exact before.tail
  ongoing := by rw [aside.state, aside.datas]; exact before.ongoing
  front := by rw [aside.datas]; exact before.front
  finish := by
    rintro ⟨started, state, errored, deleted⟩
    rw [aside.datas, aside.buffer, aside.finished]
    rw [aside.started] at started
    rw [aside.state] at state
    rw [aside.errored] at errored
    rw [aside.deleted] at deleted
    exact before.finish ⟨started, state, errored, deleted⟩

theorem Aside.prompt (aside : Aside s t) (before : Prompt s) : Prompt t where
  opened := by rw [aside.state, aside.datas]; exact before.opened
  starting := by rw [aside.state]; exact fun idle => before.starting (aside.due idle)
  closing := by
    rw [aside.state, aside.buffer, aside.finished]
    exact fun idle => before.closing (aside.due idle)
  sending := by
    rw [aside.state, aside.buffer, aside.credits]
    exact fun idle => before.sending (aside.due idle)

theorem Aside.onward (aside : Aside t u) (before : Onward s t) : Onward s u where
  responds := aside.responds before.responds
  prompt := aside.prompt before.prompt
  forward := by
    intro started
    obtain ⟨started', rising⟩ := before.forward started
    rw [aside.started, aside.state]
    exact ⟨started', rising⟩

theorem Onward.trans (first : Onward s t) (second : Onward t u) : Onward s u where
  responds := second.responds
  prompt := second.prompt
  forward := by
    intro started
    obtain ⟨started', rising⟩ := first.forward started
    obtain ⟨started'', rising'⟩ := second.forward started'
    refine ⟨started'', fun some => ?_⟩
    exact (rising some).trans (rising' (some.trans (rising some)))

theorem quiet_prompt (starting : s.state ≠ .serverResponseStarting)
    (responding : s.state ≠ .serverResponding) : Prompt s :=
  ⟨fun h => absurd h responding, fun _ => starting, fun _ h => absurd h responding,
    fun _ h => absurd h responding⟩

structure Halt (s t : ZhttpRequest) : Prop where
  server : t.server = s.server
  started : t.started = s.started
  values : t.responseCode = s.responseCode ∧ t.responseReason = s.responseReason ∧
    t.responseHeaders = s.responseHeaders
  buffer : t.responseBodyBuf = s.responseBodyBuf
  credits : t.outCredits = s.outCredits
  ledger : t.ledger.written = s.ledger.written ∧ t.ledger.creditsIn = s.ledger.creditsIn
  finished : t.bodyFinished = s.bodyFinished
  due : t.pendingUpdate = false → s.pendingUpdate = false
  datas : t.datas = s.datas
  manager : t.manager = false
  state : t.state = .stopped ∨ t.state = s.state ∧ t.deleted = true
  ended : t.errored = true ∨ t.deleted = true

theorem Halt.onward (halt : Halt s t) (before : Responds s) (prompt : Prompt s) : Onward s t := by
  constructor
  · exact {
      server := halt.server.trans before.server
      role := by
        rcases halt.state with state | ⟨state, _⟩
        · rw [state]
          rfl
        · rw [state]
          exact before.role
      linked := by
        intro undeleted going
        rcases halt.state with state | ⟨_, deleted⟩
        · exact absurd state going
        · rw [undeleted] at deleted
          cases deleted
      unlinked := fun _ _ => halt.manager
      awake := by
        rw [halt.started]
        rcases halt.state with state | ⟨state, _⟩
        · rw [state]
          nofun
        · rw [state]
          exact before.awake
      kept := by rw [halt.datas, halt.buffer, halt.ledger.1]; exact before.kept
      paid := by rw [halt.datas, halt.credits, halt.ledger.2]; exact before.paid
      solvent := by rw [halt.credits]; exact before.solvent
      early := by
        intro unbegun
        rw [halt.datas]
        refine before.early ?_
        simp only [begun, halt.started, Bool.and_eq_false_iff] at unbegun ⊢
        rcases unbegun with unstarted | other
        · exact Or.inl unstarted
        · rcases halt.state with state | ⟨state, _⟩
          · simp [state] at other
          · rw [state] at other
            exact Or.inr other
      head := by rw [halt.datas, halt.values.1, halt.values.2.1, halt.values.2.2]; exact before.head
      tail := by rw [halt.datas]; exact before.tail
      ongoing := by
        intro going
        rcases halt.state with state | ⟨state, _⟩
        · exact absurd state going
        · rw [halt.datas]
          rw [state] at going
          exact before.ongoing going
      front := by rw [halt.datas]; exact before.front
      finish := by
        rintro ⟨_, _, errored, deleted⟩
        rcases halt.ended with h | h
        · rw [errored] at h
          cases h
        · rw [deleted] at h
          cases h }
  · rcases halt.state with state | ⟨state, _⟩
    · exact quiet_prompt (by rw [state]; decide) (by rw [state]; decide)
    · constructor
      · rw [state, halt.datas]
        exact prompt.opened
      · rw [state]
        exact fun idle => prompt.starting (halt.due idle)
      · rw [state, halt.buffer, halt.finished]
        exact fun idle => prompt.closing (halt.due idle)
      · rw [state, halt.buffer, halt.credits]
        exact fun idle => prompt.sending (halt.due idle)
  · intro started
    refine ⟨halt.started.trans started, fun _ => ?_⟩
    rcases halt.state with state | ⟨state, _⟩
    · rw [state]
      exact s.state.progress_le
    · rw [state]

structure BodySent (packet : ZhttpResponsePacket) (s t : ZhttpRequest) (out : ZhttpResponsePacket) :
    Prop where
  server : t.server = s.server
  started : t.started = s.started
  deleted : t.deleted = s.deleted
  errored : t.errored = s.errored
  due : t.pendingUpdate = s.pendingUpdate
  values : t.responseCode = s.responseCode ∧ t.responseReason = s.responseReason ∧
    t.responseHeaders = s.responseHeaders
  ledger : t.ledger = s.ledger
  finished : t.bodyFinished = s.bodyFinished
  buffer : t.responseBodyBuf = leaveBack s.outCredits s.responseBodyBuf
  credits : t.outCredits = s.outCredits - (takeFront s.outCredits s.responseBodyBuf).length
  state : t.state = if out.more then .serverResponding else .stopped
  manager : t.manager = out.more
  datas : t.datas = s.datas ++ [out]
  like : out.code = packet.code ∧ out.reason = packet.reason ∧ out.headers = packet.headers
  body : bytesOf out.body = takeFront s.outCredits s.responseBodyBuf
  more : out.more = (!(leaveBack s.outCredits s.responseBodyBuf).isEmpty || !s.bodyFinished)

theorem writeResponseBody_sent {s : ZhttpRequest} (linked : s.manager = true)
    {packet : ZhttpResponsePacket} (data : packet.type = .data) : ∃ out,
    BodySent packet s ({ s with state := .serverResponding }.writeResponseBody packet) out := by
  simp only [writeResponseBody, writeResponse, linked, Bool.not_true, Bool.false_eq_true, if_false]
  cases more : !(leaveBack s.outCredits s.responseBodyBuf).isEmpty || !s.bodyFinished with
  | true =>
    refine ⟨{ packet with
      body := taken (takeFront s.outCredits s.responseBodyBuf), more := true
      from_ := s.instanceId, ids := [⟨s.rid.2, s.outSeq⟩], userData := s.userData }, ?_⟩
    constructor <;> simp [datas, Packet.dataOf, Packet.data, data, more]
  | false =>
    refine ⟨{ packet with
      body := taken (takeFront s.outCredits s.responseBodyBuf), more := false
      from_ := s.instanceId, ids := [⟨s.rid.2, s.outSeq⟩], userData := s.userData }, ?_⟩
    constructor <;> simp [datas, Packet.dataOf, Packet.data, data, cleanup, more]

theorem BodySent.onward {packet out : ZhttpResponsePacket} (sent : BodySent packet s t out)
    (before : Responds s) (responding : s.state = .serverResponseStarting ∨
    s.state = .serverResponding)
    (head : s.datas = [] → packet.code = s.responseCode ∧ packet.reason = s.responseReason ∧
      packet.headers = s.responseHeaders)
    (tail : s.datas ≠ [] → packet.code = -1 ∧ packet.reason = [] ∧ packet.headers = []) :
    Onward s t := by
  have going : s.state ≠ .stopped := by rcases responding with h | h <;> rw [h] <;> decide
  have all := before.ongoing going
  have awake : t.started = true := sent.started.trans (before.awake responding)
  have fits := length_takeFront_le before.solvent s.responseBodyBuf
  have lengths := length_takeFront_add s.outCredits s.responseBodyBuf
  have more_of : t.state ≠ .stopped → out.more = true := by
    rw [sent.state]
    cases out.more <;> simp
  constructor
  · exact {
      server := sent.server.trans before.server
      role := by
        rw [sent.state]
        split <;> rfl
      linked := fun _ open_ => sent.manager.trans (more_of open_)
      unlinked := by
        intro _ state
        rw [sent.manager]
        rw [sent.state] at state
        cases more : out.more with
        | true => simp [more] at state
        | false => rfl
      awake := fun _ => awake
      kept := by
        rw [sent.datas, sent.buffer, sent.ledger, ← before.kept]
        simp [bodyOf, sent.body]
      paid := by
        rw [sent.datas, sent.credits, sent.ledger, ← before.paid]
        simp only [bodyOf, List.flatMap_append, List.flatMap_singleton, List.length_append,
          sent.body]
        omega
      solvent := by
        rw [sent.credits]
        omega
      early := by
        intro unbegun
        simp only [begun, awake, Bool.true_and, sent.state] at unbegun
        cases more : out.more <;> simp [more] at unbegun
      head := by
        rw [sent.datas, sent.values.1, sent.values.2.1, sent.values.2.2]
        cases none_yet : s.datas with
        | nil =>
          simp only [List.nil_append, List.head?_cons, Option.mem_some_iff, forall_eq']
          rw [sent.like.1, sent.like.2.1, sent.like.2.2]
          exact head none_yet
        | cons first rest =>
          have known := before.head
          rw [none_yet] at known
          exact known
      tail := by
        rw [sent.datas]
        cases some_yet : s.datas with
        | nil => simp
        | cons first rest =>
          have known := before.tail
          simp only [some_yet, List.cons_append, List.tail_cons, List.mem_append,
            List.mem_singleton] at known ⊢
          rintro packet (earlier | rfl)
          · exact known packet earlier
          · rw [sent.like.1, sent.like.2.1, sent.like.2.2]
            exact tail (by simp [some_yet])
      ongoing := by
        intro open_ packet known
        rw [sent.datas] at known
        rcases List.mem_append.mp known with earlier | new
        · exact all packet earlier
        · rw [List.mem_singleton.mp new]
          exact more_of open_
      front := by
        rw [sent.datas, List.dropLast_concat]
        exact all
      finish := by
        rintro ⟨_, state, _, _⟩
        have last : out.more = false := by
          rw [sent.state] at state
          cases more : out.more with
          | true => simp [more] at state
          | false => rfl
        have finished := sent.more
        rw [last] at finished
        simp only [Bool.false_eq, Bool.or_eq_false_iff, Bool.not_eq_false',
          List.isEmpty_iff] at finished
        rw [sent.datas, sent.buffer, sent.finished]
        exact ⟨⟨out, by simp, last⟩, finished⟩ }
  · exact {
      opened := by
        intro _
        rw [sent.datas]
        simp
      starting := by
        intro _ state
        rw [sent.state] at state
        split at state <;> cases state
      closing := by
        intro _ state empty
        have more := sent.more
        rw [more_of (by rw [state]; decide), ← sent.buffer, empty] at more
        rw [sent.finished]
        simpa using more.symm
      sending := by
        intro _ _ rest
        rw [sent.buffer] at rest
        rw [sent.credits]
        unfold leaveBack at rest
        unfold takeFront
        rw [if_neg (not_lt.mpr before.solvent)] at rest ⊢
        have := List.length_pos_iff.mpr rest
        rw [List.length_drop] at this
        rw [List.length_take]
        omega }
  · intro started
    refine ⟨awake, fun _ => ?_⟩
    rw [sent.state]
    rcases responding with h | h <;> rw [h] <;> split <;> decide

theorem Onward.refl (before : Responds s) (prompt : Prompt s) : Onward s s where
  responds := before
  prompt := prompt
  forward := fun started => ⟨started, fun _ => le_rfl⟩

theorem signal_aside (signal : Signal) (s : ZhttpRequest) : Aside s (s.signal signal) := by
  constructor <;> simp [ZhttpRequest.signal, datas]

theorem update_aside (s : ZhttpRequest) : Aside s s.update := by
  constructor <;> simp [update, datas]

theorem refreshTimeout_aside (s : ZhttpRequest) : Aside s s.refreshTimeout := by
  constructor <;> simp [refreshTimeout, datas]

section
variable (app : ZhttpRequest → ZhttpRequest) (answers : ∀ t, Onward s t → Onward s (app t))
  (before : Responds s) (undeleted : s.deleted = false)
include app answers before undeleted

end

/-- The request as it arrives is in order if its end does not come once the response
    has begun, and no credits go past the range of an `int`. -/
def orderly (s : ZhttpRequest) : Event → Bool
  | .request _ packet =>
    (packet.type ≠ .data || packet.more || (s.state ≠ .serverResponseStarting && s.state ≠
      .serverResponding)) && (packet.credits ≤ 0 || s.outCredits + packet.credits < 2 ^ 31)
  | _ => true

structure Accepted (packet : ZhttpRequestPacket) (s : ZhttpRequest) : Prop where
  made : ∃ instanceId id seq, setupServer instanceId id seq packet = (s, true)

theorem Accepted.eq {packet : ZhttpRequestPacket} (accepted : Accepted packet s) :
    ∃ instanceId id, s = {
      manager := true, server := true, instanceId := instanceId, rid := (packet.from_, id)
      inSeq := 1
      outCredits := if packet.credits = -1 then 0 else packet.credits
      requestMethod := packet.method
      requestUri := packet.uri
      requestHeaders := packet.headers
      requestBodyBuf := bytesOf packet.body
      passthrough := packet.passthrough
      userData := packet.userData
      peerAddress := packet.peerAddress
      multi := packet.multi
      routerResp := packet.routerResp
      haveRequestBody := !packet.more
      ledger := { creditsIn := if packet.credits = -1 then 0 else packet.credits } } := by
  obtain ⟨instanceId, id, seq, made⟩ := accepted.made
  refine ⟨instanceId, id, ?_⟩
  unfold setupServer at made
  split at made
  · cases congrArg Prod.snd made
  · split at made
    · cases congrArg Prod.snd made
    · split at made
      · cases congrArg Prod.snd made
      · split at made
        · cases congrArg Prod.snd made
        · exact (congrArg Prod.fst made).symm

theorem Accepted.responds {packet : ZhttpRequestPacket} (accepted : Accepted packet s)
    (credits : -1 ≤ packet.credits) : Responds s ∧ Prompt s := by
  obtain ⟨instanceId, id, rfl⟩ := accepted.eq
  refine ⟨?_, quiet_prompt (by simp) (by simp)⟩
  constructor <;> simp [datas, bodyOf, Packet.dataOf, State.client]
  · split <;> omega
  · rintro ⟨started, _, _, _⟩
    cases started

def streamed (credits : Int) : ZhttpRequestPacket :=
  { type := .data, from_ := [1], stream := true, more := true, credits := credits }

def streamedServer (credits : Int) : ZhttpRequest := (setupServer [9] [2] 0 (streamed credits)).1

theorem streamed_accepted (credits : Int) : Accepted (streamed credits) (streamedServer credits) :=
  ⟨[9], [2], 0, rfl⟩

def hello : List Event :=
  [.startServer, .update true [], .call (.beginResponse 200 [79, 75] []),
    .call (.writeBody [104, 105]), .update true []]

end PushpinZhttpRequest
