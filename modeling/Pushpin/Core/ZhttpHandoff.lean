import Pushpin.Core.ZhttpCounting
import Pushpin.Core.ZhttpResponses

namespace PushpinZhttpRequest
open PushpinVariant (Bytes toInt32)
open PushpinZhttpPackets ZhttpRequest Runs

def Packet.seq : Packet → Int
  | .request packet _ => (packet.ids.head?.map Id.seq).getD (-1)
  | .response packet _ _ => (packet.ids.head?.map Id.seq).getD (-1)
  | .shared seq => seq

def Consecutive (first : Int) (packets : List Packet) : Prop :=
  packets.map Packet.seq = (List.range packets.length).map fun i : Nat => first + i

variable {first : Int}

theorem Consecutive.append {second : Int} {xs ys : List Packet} (before : Consecutive first xs)
    (after : Consecutive second ys) (meets : second = first + xs.length) :
    Consecutive first (xs ++ ys) := by
  unfold Consecutive at *
  rw [List.map_append, before, after, List.length_append, List.range_add, List.map_append,
    List.map_map, meets]
  congr 1
  refine List.map_congr_left fun i _ => ?_
  simp only [Function.comp, Nat.cast_add]
  omega

structure Numbered (first : Int) (s : ZhttpRequest) : Prop where
  packets : s.sent.map Packet.seq = (List.range s.sent.length).map fun i : Nat =>
    toInt32 (first + i)
  next : s.outSeq = toInt32 (first + s.sent.length)

/-- No number so far has gone past the range of an `int`, nor will the next. -/
structure InRange (first : Int) (s : ZhttpRequest) : Prop where
  nonneg : 0 ≤ first
  room : first + s.sent.length < 2 ^ 31

variable {s t : ZhttpRequest}

theorem toInt32_of_fits {n : Int} (nonneg : 0 ≤ n) (room : n < 2 ^ 31) : toInt32 n = n :=
  Int.bmod_eq_of_le (by omega) (by omega)

theorem Numbered.consecutive (numbered : Numbered first s) (within : InRange first s) :
    Consecutive first s.sent := by
  rw [Consecutive, numbered.packets]
  refine List.map_congr_left fun i known => ?_
  have early := List.mem_range.mp known
  have nonneg := within.nonneg
  have room := within.room
  exact toInt32_of_fits (by omega) (by omega)

theorem Numbered.outSeq (numbered : Numbered first s) (within : InRange first s) :
    s.outSeq = first + s.sent.length := by
  have nonneg := within.nonneg
  exact numbered.next.trans (toInt32_of_fits (by omega) within.room)

theorem Numbered.same (numbered : Numbered first s) (sent : t.sent = s.sent)
    (outSeq : t.outSeq = s.outSeq) : Numbered first t :=
  ⟨sent ▸ numbered.packets, by rw [outSeq, sent]; exact numbered.next⟩

theorem Numbered.sends {packet : Packet} (numbered : Numbered first s) (seq : packet.seq = s.outSeq)
    (sent : t.sent = s.sent ++ [packet]) (outSeq : t.outSeq = toInt32 (s.outSeq + 1)) :
    Numbered first t where
  packets := by
    rw [sent, List.map_append, numbered.packets, List.map_singleton, seq, numbered.next,
      List.length_append, List.length_singleton, List.range_succ, List.map_append,
        List.map_singleton]
  next := by
    rw [outSeq, numbered.next, sent, List.length_append, List.length_singleton, Nat.cast_add,
      Nat.cast_one, ← Int.add_assoc]
    exact Int.bmod_add_bmod

theorem writeResponse_numbered (numbered : Numbered first s)
    (packet : ZhttpResponsePacket) : Numbered first (s.writeResponse packet) := by
  unfold writeResponse
  split
  · exact numbered.same rfl rfl
  · exact numbered.sends rfl rfl rfl

theorem outSeqInc_numbered (numbered : Numbered first s) : Numbered first s.outSeqInc := by
  unfold outSeqInc
  split
  · exact numbered.same rfl rfl
  · exact numbered.sends rfl rfl rfl

/-- What a step leaves alone that has no part in a handover, apart from the packets. -/
structure Steady (s t : ZhttpRequest) : Prop extends Aside s t where
  pausing : t.pausing = s.pausing
  paused : t.paused = s.paused
  needPause : t.needPause = s.needPause
  inSeq : t.inSeq = s.inSeq
  timers : t.keepAliveTimer = s.keepAliveTimer ∧ t.registered = s.registered
  numbered : ∀ first, Numbered first s → Numbered first t

theorem Steady.trans {u : ZhttpRequest} (first : Steady s t) (second : Steady t u) :
    Steady s u where
  toAside := first.toAside.trans second.toAside
  pausing := second.pausing.trans first.pausing
  paused := second.paused.trans first.paused
  needPause := second.needPause.trans first.needPause
  inSeq := second.inSeq.trans first.inSeq
  timers := ⟨second.timers.1.trans first.timers.1, second.timers.2.trans first.timers.2⟩
  numbered := fun n numbered => second.numbered n (first.numbered n numbered)

theorem Steady.refl (s : ZhttpRequest) : Steady s s :=
  ⟨Aside.refl s, rfl, rfl, rfl, rfl, ⟨rfl, rfl⟩, fun _ numbered => numbered⟩

theorem writeResponse_steady {packet : ZhttpResponsePacket} (other : packet.type ≠ .data)
    (s : ZhttpRequest) : Steady s (s.writeResponse packet) where
  toAside := writeResponse_aside other s
  pausing := by unfold writeResponse; split <;> rfl
  paused := by unfold writeResponse; split <;> rfl
  needPause := by unfold writeResponse; split <;> rfl
  inSeq := by unfold writeResponse; split <;> rfl
  timers := by unfold writeResponse; split <;> exact ⟨rfl, rfl⟩
  numbered := fun _ numbered => writeResponse_numbered numbered packet

theorem outSeqInc_steady (s : ZhttpRequest) : Steady s s.outSeqInc where
  toAside := outSeqInc_aside s
  pausing := by unfold outSeqInc; split <;> rfl
  paused := by unfold outSeqInc; split <;> rfl
  needPause := by unfold outSeqInc; split <;> rfl
  inSeq := by unfold outSeqInc; split <;> rfl
  timers := by unfold outSeqInc; split <;> exact ⟨rfl, rfl⟩
  numbered := fun _ numbered => outSeqInc_numbered numbered

theorem keepAliveTimeout_steady (server : s.server = true) : Steady s s.keepAliveTimeout := by
  unfold keepAliveTimeout
  rw [if_pos server]
  exact writeResponse_steady (by simp) s

theorem Steady.silent (aside : Aside s t) (pausing : t.pausing = s.pausing)
    (paused : t.paused = s.paused) (needPause : t.needPause = s.needPause)
    (inSeq : t.inSeq = s.inSeq)
    (timers : t.keepAliveTimer = s.keepAliveTimer ∧ t.registered = s.registered)
    (sent : t.sent = s.sent)
    (outSeq : t.outSeq = s.outSeq) : Steady s t :=
  ⟨aside, pausing, paused, needPause, inSeq, timers, fun _ numbered => numbered.same sent outSeq⟩

theorem emitReadable_steady (s : ZhttpRequest) : Steady s s.emitReadable := by
  refine Steady.silent (emitReadable_aside s) ?_ ?_ ?_ ?_ ?_ ?_ ?_ <;> unfold emitReadable <;> split
    <;> simp [signal]

theorem emitWritable_steady (s : ZhttpRequest) : Steady s s.emitWritable := by
  refine Steady.silent (emitWritable_aside s) ?_ ?_ ?_ ?_ ?_ ?_ ?_ <;> unfold emitWritable <;> split
    <;> simp [signal]

theorem emitReadable_sent (s : ZhttpRequest) : s.emitReadable.sent = s.sent := by
  unfold emitReadable
  split <;> rfl

theorem emitWritable_sent (s : ZhttpRequest) : s.emitWritable.sent = s.sent := by
  unfold emitWritable
  split <;> rfl

theorem signal_steady (signal : Signal) (s : ZhttpRequest) : Steady s (s.signal signal) :=
  Steady.silent (signal_aside signal s) rfl rfl rfl rfl ⟨rfl, rfl⟩ rfl rfl

theorem update_steady (s : ZhttpRequest) : Steady s s.update :=
  Steady.silent (update_aside s) rfl rfl rfl rfl ⟨rfl, rfl⟩ rfl rfl

theorem refreshTimeout_steady (s : ZhttpRequest) : Steady s s.refreshTimeout :=
  Steady.silent (refreshTimeout_aside s) rfl rfl rfl rfl ⟨rfl, rfl⟩ rfl rfl

theorem readBody_steady (server : s.server = true) (size : Int) : Steady s (s.readBody size) := by
  have aside := readBody_aside server size
  unfold readBody at aside ⊢
  rw [if_pos server] at aside ⊢
  dsimp only at aside ⊢
  split
  · exact Steady.refl s
  · split
    · refine Steady.trans ?_ (writeResponse_steady (by simp) _)
      refine Steady.silent ?_ rfl rfl rfl rfl ⟨rfl, rfl⟩ rfl rfl
      constructor <;> simp [datas]
    · refine Steady.silent ?_ rfl rfl rfl rfl ⟨rfl, rfl⟩ rfl rfl
      constructor <;> simp [datas]

theorem readBody_sent (server : s.server = true) (handing : s.pausing = true ∨ s.paused = true)
    (size : Int) : (s.readBody size).sent = s.sent := by
  have quiet : (!s.pausing && !s.paused) = false := by rcases handing with h | h <;> simp [h]
  unfold readBody
  rw [if_pos server]
  dsimp only
  split
  · rfl
  · rw [if_neg (by simp [quiet])]

structure Control (first : Int) (s : ZhttpRequest) : Prop where
  numbered : Numbered first s
  server : s.server = true
  role : s.state.client = false
  linked : s.deleted = false → s.state ≠ .stopped → s.manager = true
  unlinked : s.started = true → s.state = .stopped → s.manager = false
  idle : s.manager = false → s.keepAliveTimer = false ∧ s.registered = false
  solvent : 0 ≤ s.outCredits
  counting : 0 ≤ s.inSeq

def Packet.offersHandoff : Packet → Bool
  | .response packet _ _ => packet.type = .handoffStart
  | _ => false

structure ZhttpRequest.Offered (s : ZhttpRequest) : Prop where
  last : ∃ packet ∈ s.sent.getLast?, packet.offersHandoff = true
  buffer : s.responseBodyBuf = []

structure HandsOver (s : ZhttpRequest) : Prop where
  begun : s.pausing = true ∨ s.paused = true → s.started = true
  single : s.pausing = true → s.paused = false
  needed : s.needPause = true → s.pausing = true
  quiet : s.pausing = true ∨ s.paused = true → s.keepAliveTimer = false ∧ s.registered = false
  handed : s.paused = true → s.Offered ∧
    (s.state = .serverResponseWait ∨ (s.state = .serverResponding ∧ s.bodyFinished = false) ∨
      s.state = .stopped)

structure Handing (first : Int) (s : ZhttpRequest) : Prop where
  control : Control first s
  hands : HandsOver s
  offered : s.pausing = true → s.needPause = false → s.state ≠ .stopped →
    s.Offered ∧ (s.state = .serverResponseWait ∨ s.state = .serverResponding)

section
variable (hands : HandsOver s)
include hands

theorem HandsOver.unpausing (paused : s.paused = true) : s.pausing = false := by
  by_contra pausing
  cases paused.symm.trans (hands.single (Bool.not_eq_false _ ▸ pausing))

theorem HandsOver.unneeded (pausing : s.pausing = false) : s.needPause = false := by
  by_contra needed
  cases pausing.symm.trans (hands.needed (Bool.not_eq_false _ ▸ needed))

theorem HandsOver.unbegun (unstarted : s.started = false) :
    s.pausing = false ∧ s.paused = false := by
  constructor
  · by_contra pausing
    cases unstarted.symm.trans (hands.begun (Or.inl (Bool.not_eq_false _ ▸ pausing)))
  · by_contra paused
    cases unstarted.symm.trans (hands.begun (Or.inr (Bool.not_eq_false _ ▸ paused)))

theorem HandsOver.early (early : s.state = .serverStarting ∨
    s.state = .serverResponseStarting) : s.paused = false := by
  by_contra paused
  obtain ⟨_, state⟩ := hands.handed (Bool.not_eq_false _ ▸ paused)
  rcases early with at_ | at_ <;> rw [at_] at state <;> rcases state with h | ⟨h, _⟩ | h <;> cases h

end

/-- The old owner has nothing more to send, unless the handover fails. -/
def ZhttpRequest.waiting (s : ZhttpRequest) : Prop :=
  s.paused = true ∨ (s.pausing = true ∧ s.needPause = false ∧ s.state ≠ .stopped)

theorem Control.steady (before : Control first s) (steady : Steady s t) :
    Control first t where
  numbered := steady.numbered first before.numbered
  server := steady.server.trans before.server
  role := by rw [steady.state]; exact before.role
  linked := by rw [steady.deleted, steady.state, steady.manager]; exact before.linked
  unlinked := by rw [steady.started, steady.state, steady.manager]; exact before.unlinked
  idle := by rw [steady.manager, steady.timers.1, steady.timers.2]; exact before.idle
  solvent := by rw [steady.credits]; exact before.solvent
  counting := by rw [steady.inSeq]; exact before.counting

theorem Handing.plain {first : Int} {s : ZhttpRequest} (control : Control first s)
    (pausing : s.pausing = false) (paused : s.paused = false) (needPause : s.needPause = false) :
    Handing first s where
  control := control
  hands := by constructor <;> simp [pausing, paused, needPause]
  offered := by simp [pausing]

theorem Handing.steady (before : Handing first s) (steady : Steady s t)
    (silent : s.waiting → t.sent = s.sent) : Handing first t where
  control := before.control.steady steady
  hands := {
    begun := by rw [steady.pausing, steady.paused, steady.started]; exact before.hands.begun
    single := by rw [steady.pausing, steady.paused]; exact before.hands.single
    needed := by rw [steady.needPause, steady.pausing]; exact before.hands.needed
    quiet := by
      rw [steady.pausing, steady.paused, steady.timers.1, steady.timers.2]
      exact before.hands.quiet
    handed := by
      rw [steady.paused, steady.state, steady.finished]
      intro paused
      obtain ⟨⟨last, buffer⟩, state⟩ := before.hands.handed paused
      refine ⟨⟨?_, steady.buffer.trans buffer⟩, state⟩
      rw [silent (Or.inl paused)]
      exact last }
  offered := by
    rw [steady.pausing, steady.needPause, steady.state]
    intro pausing unneeded going
    obtain ⟨⟨last, buffer⟩, state⟩ := before.offered pausing unneeded going
    refine ⟨⟨?_, steady.buffer.trans buffer⟩, state⟩
    rw [silent (Or.inr ⟨pausing, unneeded, going⟩)]
    exact last

theorem fail_handing (condition : ErrorCondition) (before : Control first s)
    (hands : HandsOver s) : Handing first (s.fail condition) where
  control := { before with
    numbered := before.numbered.same rfl rfl
    role := rfl
    linked := fun _ going => absurd rfl going
    unlinked := fun _ _ => rfl
    idle := fun _ => ⟨rfl, rfl⟩ }
  hands := { hands with
    needed := nofun
    quiet := fun _ => ⟨rfl, rfl⟩
    handed := fun paused => ⟨{ (hands.handed paused).1 with }, Or.inr (Or.inr rfl)⟩ }
  offered := fun _ _ going => absurd rfl going

theorem trySendPause_handing (before : Handing first s) (undeleted : s.deleted = false) :
    Handing first s.trySendPause := by
  unfold trySendPause
  split
  · next fits =>
    simp only [Bool.and_eq_true, Bool.or_eq_true, decide_eq_true_eq, List.isEmpty_iff] at fits
    obtain ⟨⟨needed, state⟩, empty⟩ := fits
    have pausing := before.hands.needed needed
    have linked :=
      before.control.linked undeleted (by rcases state with h | h <;> rw [h] <;> decide)
    have numbered : Numbered first { s with needPause := false } :=
      before.control.numbered.same rfl rfl
    have written := writeResponse_numbered numbered { type := .handoffStart }
    have writes : (!({ s with needPause := false } : ZhttpRequest).manager) = false := by
      simp [linked]
    simp only [writeResponse, writes, Bool.false_eq_true, if_false] at written ⊢
    exact {
      control := { before.control with
        numbered := written }
      hands := { before.hands with
        needed := by rintro ⟨⟩
        handed := by
          intro paused
          rw [before.hands.single pausing] at paused
          cases paused }
      offered := fun _ _ _ => ⟨⟨⟨_, List.getLast?_concat, rfl⟩, empty⟩, state⟩ }
  · exact before

theorem trySendPause_alive (before : Handing first s) :
    Handing first (if s.deleted then s else s.trySendPause) := by
  split
  · exact before
  · next alive => exact trySendPause_handing before (by simpa using alive)

/-- What a data packet does to a handover: nothing, unless it is the last one. -/
structure BodyFrame (s t : ZhttpRequest) : Prop where
  pausing : t.pausing = s.pausing
  paused : t.paused = s.paused
  inSeq : t.inSeq = s.inSeq
  rest : (t.manager = s.manager ∧ t.needPause = s.needPause ∧ t.keepAliveTimer = s.keepAliveTimer ∧
    t.registered = s.registered) ∨
    (t.state = .stopped ∧ t.needPause = false ∧ t.keepAliveTimer = false ∧ t.registered = false)
  numbered : ∀ first, Numbered first s → Numbered first t

theorem writeResponseBody_frame (packet : ZhttpResponsePacket) (s : ZhttpRequest) :
    BodyFrame s ({ s with state := .serverResponding }.writeResponseBody packet) := by
  unfold writeResponseBody
  dsimp only
  generalize going : ({ s with
    state := .serverResponding, responseBodyBuf := leaveBack s.outCredits s.responseBodyBuf
    outCredits := s.outCredits - (takeFront s.outCredits s.responseBodyBuf).length } :
      ZhttpRequest) = s'
  have same : s'.pausing = s.pausing ∧ s'.paused = s.paused ∧ s'.inSeq = s.inSeq ∧
    s'.manager = s.manager ∧
      s'.needPause = s.needPause ∧ s'.keepAliveTimer = s.keepAliveTimer ∧
        s'.registered = s.registered := by
    subst going
    simp
  have numbered : ∀ first, Numbered first s → Numbered first s' := by
    subst going
    exact fun first numbered => numbered.same rfl rfl
  generalize ({ packet with
    body := taken (takeFront s.outCredits s.responseBodyBuf)
    more := !(leaveBack s.outCredits s.responseBodyBuf).isEmpty || !s.bodyFinished } :
      ZhttpResponsePacket) = packet'
  have written : (s'.writeResponse packet').pausing = s'.pausing ∧
    (s'.writeResponse packet').paused = s'.paused ∧
      (s'.writeResponse packet').inSeq = s'.inSeq ∧
        (s'.writeResponse packet').manager = s'.manager ∧
      (s'.writeResponse packet').needPause = s'.needPause ∧
      (s'.writeResponse packet').keepAliveTimer = s'.keepAliveTimer ∧
      (s'.writeResponse packet').registered = s'.registered := by
    unfold writeResponse
    split <;> simp [abort]
  obtain ⟨pausing, paused, inSeq, manager, needPause, keepAliveTimer, registered⟩ := same
  rw [pausing, paused, inSeq, manager, needPause, keepAliveTimer, registered] at written
  obtain ⟨pausing', paused', inSeq', manager', needPause', keepAliveTimer', registered'⟩ := written
  split
  · exact ⟨pausing', paused', inSeq', Or.inl ⟨manager', needPause', keepAliveTimer', registered'⟩,
      fun first before => writeResponse_numbered (numbered first before) packet'⟩
  · exact ⟨pausing', paused', inSeq', Or.inr ⟨rfl, rfl, rfl, rfl⟩,
      fun first before => (writeResponse_numbered (numbered first before) packet').same rfl rfl⟩

theorem writeResponseBody_handing {first : Int} {s : ZhttpRequest} (before : Handing first s)
    {packet : ZhttpResponsePacket} (data : packet.type = .data) (linked : s.manager = true)
    (unpaused : s.paused = false)
    (open_ : s.pausing = true → s.needPause = false → s.responseBodyBuf = [] ∧
    s.bodyFinished = true) :
    Handing first ({ s with state := .serverResponding }.writeResponseBody packet) := by
  obtain ⟨out, sent⟩ := writeResponseBody_sent linked data
  have frame := writeResponseBody_frame packet s
  generalize ({ s with state := .serverResponding } : ZhttpRequest).writeResponseBody packet =
    t at *
  have fits := length_takeFront_le before.control.solvent s.responseBodyBuf
  have more_of : t.state ≠ .stopped → out.more = true := by
    rw [sent.state]
    cases out.more <;> simp
  constructor
  · exact {
      numbered := frame.numbered first before.control.numbered
      server := sent.server.trans before.control.server
      role := by
        rw [sent.state]
        split <;> rfl
      linked := fun _ going => sent.manager.trans (more_of going)
      unlinked := by
        intro _ stopped
        rw [sent.state] at stopped
        rw [sent.manager]
        cases more : out.more with
        | true => simp [more] at stopped
        | false => rfl
      idle := by
        intro unlinked
        rcases frame.rest with ⟨manager, _, _, _⟩ | ⟨_, _, keepAliveTimer, registered⟩
        · rw [manager, linked] at unlinked
          cases unlinked
        · exact ⟨keepAliveTimer, registered⟩
      solvent := by
        rw [sent.credits]
        omega
      counting := by
        rw [frame.inSeq]
        exact before.control.counting }
  · exact {
      begun := by
        rw [frame.pausing, frame.paused, sent.started]
        exact before.hands.begun
      single := by
        rw [frame.pausing, frame.paused]
        exact before.hands.single
      needed := by
        intro needed
        rw [frame.pausing]
        rcases frame.rest with ⟨_, needPause, _, _⟩ | ⟨_, needPause, _, _⟩
        · exact before.hands.needed (needPause.symm.trans needed)
        · rw [needPause] at needed
          cases needed
      quiet := by
        rw [frame.pausing, frame.paused]
        intro handing
        rcases frame.rest with ⟨_, _, keepAliveTimer, registered⟩ | ⟨_, _, keepAliveTimer,
          registered⟩
        · rw [keepAliveTimer, registered]
          exact before.hands.quiet handing
        · exact ⟨keepAliveTimer, registered⟩
      handed := by
        rw [frame.paused, unpaused]
        nofun }
  · intro pausing unneeded going
    rw [frame.pausing] at pausing
    have needPause : s.needPause = false := by
      rcases frame.rest with ⟨_, needPause, _, _⟩ | ⟨stopped, _⟩
      · exact needPause.symm.trans unneeded
      · exact absurd stopped going
    obtain ⟨empty, finished⟩ := open_ pausing needPause
    have more := sent.more
    rw [more_of going, empty, finished] at more
    simp [leaveBack] at more

section
variable (app : ZhttpRequest → ZhttpRequest)
  (answers : ∀ t, Handing first t → Handing first (app t)) (before : Handing first s)
  (undeleted : s.deleted = false)
include app answers before undeleted

theorem tryWrite_handing (responding : s.state = .serverResponding) :
    Handing first (s.tryWrite app) := by
  have written : Handing first (if (!s.responseBodyBuf.isEmpty && decide (0 < s.outCredits)) ||
      (s.responseBodyBuf.isEmpty && s.bodyFinished) then s.tryWriteResponse app else s) := by
    split
    · next fits =>
      simp only [Bool.or_eq_true, Bool.and_eq_true, Bool.not_eq_true', List.isEmpty_iff,
        List.isEmpty_eq_false_iff, decide_eq_true_eq] at fits
      refine answers _ ?_
      generalize changed : { s with
        writableChanged :=
          s.writableChanged || !(takeFront s.outCredits s.responseBodyBuf).isEmpty } = s'
      have steady : Steady s s' := by
        subst changed
        refine Steady.silent ?_ rfl rfl rfl rfl ⟨rfl, rfl⟩ rfl rfl
        constructor <;> simp [datas]
      have before' := before.steady steady (fun _ => by subst changed; rfl)
      have responding' : s'.state = .serverResponding := steady.state.trans responding
      have linked :=
        before'.control.linked (steady.deleted.trans undeleted) (by rw [responding']; decide)
      have same : { s' with state := .serverResponding } = s' := by rw [← responding']
      have sends := @writeResponseBody_handing first s' before' { type := .data } rfl linked
      rw [same] at sends
      refine (sends ?_ ?_).steady (signal_steady _ _) (fun _ => rfl)
      · cases paused : s'.paused with
        | false => rfl
        | true =>
          obtain ⟨⟨_, empty⟩, state⟩ := before'.hands.handed paused
          rw [steady.buffer] at empty
          rw [responding', steady.finished] at state
          rcases fits with ⟨nonempty, _⟩ | ⟨_, finished⟩
          · exact absurd empty nonempty
          · rcases state with h | ⟨_, h⟩ | h
            · cases h
            · rw [finished] at h
              cases h
            · cases h
      · intro pausing unneeded
        obtain ⟨⟨_, empty⟩, _⟩ := before'.offered pausing unneeded (by rw [responding']; decide)
        refine ⟨empty, ?_⟩
        rw [steady.buffer] at empty
        rw [steady.finished]
        rcases fits with ⟨nonempty, _⟩ | ⟨_, finished⟩
        · exact absurd empty nonempty
        · exact finished
    · exact before
  simp only [tryWrite, responding, reduceCtorEq, if_false, if_true]
  exact trySendPause_alive written

theorem startResponse_handing (starting : s.state = .serverResponseStarting) :
    Handing first (s.startResponse app) := by
  have linked := before.control.linked undeleted (by rw [starting]; decide)
  have first_packet := @writeResponseBody_handing first s before
    { type := .data, code := s.responseCode, reason := s.responseReason,
      headers := s.responseHeaders } rfl linked
    (before.hands.early (Or.inr starting))
    (by
      intro pausing unneeded
      obtain ⟨_, state⟩ := before.offered pausing unneeded (by rw [starting]; decide)
      rw [starting] at state
      rcases state with h | h <;> cases h)
  simp only [startResponse]
  refine trySendPause_alive ?_
  split
  · exact answers _ (first_packet.steady (signal_steady _ _) (fun _ => rfl))
  · exact first_packet

end

theorem Control.restate {first : Int} {s : ZhttpRequest} (before : Control first s)
    (linked : s.manager = true) {next : State} (role : next.client = false)
    (going : next ≠ .stopped) : Control first { s with state := next } where
  numbered := before.numbered.same rfl rfl
  server := before.server
  role := role
  linked := fun _ _ => linked
  unlinked := fun _ stopped => absurd stopped going
  idle := before.idle
  solvent := before.solvent
  counting := before.counting

theorem ackRequest_handing (before : Handing first s) (undeleted : s.deleted = false)
    (starting : s.state = .serverStarting) : Handing first s.ackRequest := by
  have linked := before.control.linked undeleted (by rw [starting]; decide)
  have unpaused := before.hands.early (Or.inl starting)
  have unoffered : s.pausing = true → s.needPause = false → False := by
    intro pausing unneeded
    obtain ⟨_, state⟩ := before.offered pausing unneeded (by rw [starting]; decide)
    rw [starting] at state
    rcases state with h | h <;> cases h
  have goes : ∀ next : State, next.client = false → next ≠ .stopped →
      Handing first { s with state := next } := by
    intro next role going
    exact {
      control := before.control.restate linked role going
      hands := { before.hands with
        handed := fun paused => by rw [show _ = false from unpaused] at paused; cases paused }
      offered := fun pausing unneeded => absurd unneeded (unoffered pausing) }
  have silent : ∀ {t : ZhttpRequest} (next : State),
    ({ s with state := next } : ZhttpRequest).waiting →
      t.sent = ({ s with state := next } : ZhttpRequest).sent := by
    rintro t next (paused | ⟨pausing, unneeded, _⟩)
    · rw [show _ = false from unpaused] at paused
      cases paused
    · exact (unoffered pausing unneeded).elim
  unfold ackRequest
  refine Handing.steady ?_ (signal_steady _ _) (fun _ => rfl)
  split
  · exact (goes .serverResponseWait rfl (by decide)).steady (writeResponse_steady (by simp) _)
      (silent _)
  · exact (goes .serverReceiving rfl (by decide)).steady (writeResponse_steady (by simp) _)
      (silent _)

theorem startKeepAlive_flags (server : s.server = true) :
    s.startKeepAlive.pausing = s.pausing ∧ s.startKeepAlive.paused = s.paused ∧
      s.startKeepAlive.needPause = s.needPause := by
  have steady := keepAliveTimeout_steady server
  unfold startKeepAlive
  split
  · exact ⟨rfl, rfl, rfl⟩
  · split
    · split
      · exact ⟨steady.pausing, steady.paused, steady.needPause⟩
      · exact ⟨rfl, rfl, rfl⟩
    · exact ⟨rfl, rfl, rfl⟩

theorem startKeepAlive_control (before : Control first s) : Control first s.startKeepAlive := by
  have retimed : ∀ {t : ZhttpRequest} (keepAliveTimer registered : Bool), Control first t →
    t.manager = true →
      Control first { t with keepAliveTimer := keepAliveTimer, registered := registered } := by
    intro t keepAliveTimer registered control linked
    exact { control with
      numbered := control.numbered.same rfl rfl
      linked := fun _ _ => linked
      idle := fun unlinked => by rw [show _ = true from linked] at unlinked; cases unlinked }
  unfold startKeepAlive
  split
  · exact { before with
      numbered := before.numbered.same rfl rfl }
  · next linked =>
    have linked' : s.manager = true := by simpa using linked
    split
    · split
      · have steady := keepAliveTimeout_steady before.server
        exact retimed false true (before.steady steady) (steady.manager.trans linked')
      · exact retimed s.keepAliveTimer true before linked'
    · exact retimed true false before linked'

section
variable (before : Handing first s)
include before

theorem startServer_handing (linked : s.manager = true)
    (unstarted : s.started = false) : Handing first s.startServer := by
  obtain ⟨pausing, paused⟩ := before.hands.unbegun unstarted
  have needPause := before.hands.unneeded pausing
  have begins : Control first { s with state := .serverStarting, started := true } :=
      { before.control with
    numbered := before.control.numbered.same rfl rfl
    role := rfl
    linked := fun _ _ => linked
    unlinked := fun _ => nofun }
  have flags := startKeepAlive_flags begins.server
  refine Handing.steady (Handing.steady ?_ (refreshTimeout_steady _) (fun _ => rfl))
    (update_steady _) (fun _ => rfl)
  exact Handing.plain (startKeepAlive_control begins) (flags.1.trans pausing)
    (flags.2.1.trans paused) (flags.2.2.trans needPause)

theorem pause_handing (started : s.started = true)
    (unpaused : s.paused = false) : Handing first s.pause := by
  have control := before.control
  have stopped : Control first s.stopKeepAlive ∧ s.stopKeepAlive.keepAliveTimer = false ∧
      s.stopKeepAlive.registered = false ∧ s.stopKeepAlive.paused = false ∧
        s.stopKeepAlive.started = true := by
    unfold stopKeepAlive
    split
    · next unlinked =>
      obtain ⟨keepAliveTimer, registered⟩ := control.idle (by simpa using unlinked)
      exact ⟨{ control with numbered := control.numbered.same rfl rfl }, keepAliveTimer, registered,
        unpaused, started⟩
    · exact ⟨{ control with
        numbered := control.numbered.same rfl rfl, idle := fun _ => ⟨rfl, rfl⟩ }, rfl, rfl,
          unpaused, started⟩
  obtain ⟨control', keepAliveTimer, registered, unpaused', started'⟩ := stopped
  exact {
    control := { control' with
      numbered := control'.numbered.same rfl rfl }
    hands := {
      begun := fun _ => started'
      single := fun _ => unpaused'
      needed := fun _ => rfl
      quiet := fun _ => ⟨keepAliveTimer, registered⟩
      handed := fun paused => (Bool.false_ne_true (unpaused'.symm.trans paused)).elim }
    offered := fun _ => nofun }

theorem resume_handing (paused : s.paused = true) : Handing first s.resume := by
  have pausing := before.hands.unpausing paused
  have needPause := before.hands.unneeded pausing
  have control := before.control
  have resumed : Control first { s with paused := false } :=
    { control with numbered := control.numbered.same rfl rfl }
  have flags := startKeepAlive_flags resumed.server
  have steady := @writeResponse_steady { type := .keepAlive } (by simp)
    ({ s with paused := false } : ZhttpRequest).startKeepAlive
  exact Handing.plain ((startKeepAlive_control resumed).steady steady)
    (steady.pausing.trans (flags.1.trans pausing))
    (steady.paused.trans flags.2.1) (steady.needPause.trans (flags.2.2.trans needPause))

theorem destroy_handing (undeleted : s.deleted = false) : Handing first s.destroy := by
  have control := before.control
  unfold destroy
  split
  · next alive =>
    simp only [Bool.and_eq_true, Bool.not_eq_true', decide_eq_true_eq] at alive
    have cancel : s.tryCancel = { s with state := .stopped }.writeResponse { type := .cancel } := by
      have other : (decide (s.state = .clientRequesting) || decide (s.state = .clientReceiving)) =
          false := by
        have role := control.role
        cases state : s.state <;> simp [state, State.client] at role <;> rfl
      simp [tryCancel, other, control.server]
    have steady := @writeResponse_steady { type := .cancel } (by simp) { s with state := .stopped }
    have numbered := steady.numbered first (control.numbered.same rfl rfl)
    rw [cancel]
    have unpaused := steady.paused.trans alive.1.2
    exact {
      control := {
        numbered := numbered.same rfl rfl
        server := steady.server.trans control.server
        role := congrArg State.client steady.state
        linked := by rintro ⟨⟩
        unlinked := fun _ _ => rfl
        idle := fun _ => ⟨rfl, rfl⟩
        solvent := (show 0 ≤ s.outCredits from control.solvent).trans_eq steady.credits.symm
        counting := (show 0 ≤ s.inSeq from control.counting).trans_eq steady.inSeq.symm }
      hands := {
        begun := by
          rintro (pausing | paused)
          · exact steady.started.trans
              (before.hands.begun (Or.inl (steady.pausing.symm.trans pausing)))
          · exact (Bool.false_ne_true (unpaused.symm.trans paused)).elim
        single := fun _ => unpaused
        needed := by rintro ⟨⟩
        quiet := fun _ => ⟨rfl, rfl⟩
        handed := fun paused => (Bool.false_ne_true (unpaused.symm.trans paused)).elim }
      offered := fun _ _ going => absurd steady.state going }
  · next asleep =>
    exact {
      control := { control with
        numbered := control.numbered.same rfl rfl
        linked := by rintro ⟨⟩
        unlinked := fun _ _ => rfl
        idle := fun _ => ⟨rfl, rfl⟩ }
      hands := { before.hands with
        needed := by rintro ⟨⟩
        quiet := fun _ => ⟨rfl, rfl⟩
        handed := fun paused =>
          ⟨{ (before.hands.handed paused).1 with }, (before.hands.handed paused).2⟩ }
      offered := by
        intro pausing _ going
        have unpaused := before.hands.single pausing
        have linked := control.linked undeleted going
        simp only [linked, unpaused, Bool.not_false, Bool.and_self, Bool.true_and,
          decide_eq_true_eq, not_not] at asleep
        exact absurd asleep going }

theorem call_handing (undeleted : s.deleted = false)
    {call : Call} (legal : call.legal s = true) : Handing first (call.make s) := by
  have control := before.control
  have unneeded : s.pausing = false → s.needPause = false := by
    intro pausing
    cases needed : s.needPause with
    | false => rfl
    | true => rw [before.hands.needed needed] at pausing; cases pausing
  cases call with
  | start method uri fields => simp [Call.legal, control.server] at legal
  | beginResponse code reason fields =>
    simp only [Call.legal, Bool.and_eq_true, Bool.not_eq_true', Bool.or_eq_true,
      decide_eq_true_eq] at legal
    obtain ⟨⟨⟨⟨_, _⟩, pausing⟩, paused⟩, state⟩ := legal
    have linked := control.linked undeleted (by rcases state with h | h <;> rw [h] <;> decide)
    have goes := @Control.restate first s control linked .serverResponseStarting rfl (by decide)
    exact Handing.plain ⟨goes.numbered.same rfl rfl, goes.server, goes.role, goes.linked,
      goes.unlinked, goes.idle, goes.solvent, goes.counting⟩ pausing paused (unneeded pausing)
  | writeBody body =>
    simp only [Call.legal, Bool.and_eq_true, Bool.not_eq_true'] at legal
    obtain ⟨⟨_, pausing⟩, paused⟩ := legal
    have same : Control first (s.writeBody body) := by
      unfold writeBody
      rw [if_pos control.server]
      exact { control with numbered := control.numbered.same rfl rfl }
    refine Handing.plain same ?_ ?_ ?_ <;> simp only [Call.make, writeBody, control.server, if_true,
      update]
    · exact pausing
    · exact paused
    · exact unneeded pausing
  | endBody =>
    simp only [Call.legal, Bool.and_eq_true, Bool.not_eq_true'] at legal
    obtain ⟨⟨_, pausing⟩, paused⟩ := legal
    exact Handing.plain { control with numbered := control.numbered.same rfl rfl } pausing paused
      (unneeded pausing)
  | readBody size =>
    refine before.steady (readBody_steady control.server size)
      (fun waiting => readBody_sent control.server ?_ size)
    rcases waiting with paused | ⟨pausing, _, _⟩
    · exact Or.inr paused
    · exact Or.inl pausing
  | pause =>
    simp only [Call.legal, Bool.and_eq_true, Bool.not_eq_true'] at legal
    exact pause_handing before legal.1.1.2 legal.2
  | resume =>
    simp only [Call.legal, Bool.and_eq_true] at legal
    exact resume_handing before legal.2
  | destroy => exact destroy_handing before undeleted

end

/-- A handover is in order if it is taken up after it was offered, when nothing of the
    response is left to send, and no credits go past the range of an `int`. -/
def takesInOrder (s : ZhttpRequest) (packet : ZhttpRequestPacket) : Bool :=
  (packet.type ≠ .handoffProceed || !s.pausing ||
    (!s.needPause && (s.state ≠ .serverResponding || !s.bodyFinished))) &&
    (packet.credits ≤ 0 || s.outCredits + packet.credits < 2 ^ 31)

def counts (s : ZhttpRequest) (seq : Int) : Bool := seq ≠ s.inSeq || s.inSeq + 1 < 2 ^ 31

/-- A packet is taken up in order, and no sequence number goes past the range of an `int`. -/
def handsOver (s : ZhttpRequest) (event : Event) : Bool :=
  s.outSeq + event.packets < 2 ^ 31 &&
    match event with
    | .request seq packet => takesInOrder s packet && counts s seq
    | _ => true

theorem addCredits_handing {credits : Int} (before : Handing first s)
    (room : 0 < credits → s.outCredits + credits < 2 ^ 31) :
    Handing first (s.addCredits credits) := by
  unfold addCredits
  split
  · next some =>
    have control := before.control
    have solvent := control.solvent
    have sum : toInt32 (s.outCredits + credits) = s.outCredits + credits :=
      Int.bmod_eq_of_le (by omega) (by have := room some; omega)
    rw [sum]
    exact {
      control := ⟨control.numbered.same rfl rfl, control.server, control.role, control.linked,
        control.unlinked, control.idle, by show 0 ≤ s.outCredits + credits; omega, control.counting⟩
      hands := { before.hands with
        handed := fun paused => ⟨{ (before.hands.handed paused).1 with },
          (before.hands.handed paused).2⟩ }
      offered := fun pausing unneeded going =>
        ⟨{ (before.offered pausing unneeded going).1 with },
          (before.offered pausing unneeded going).2⟩ }
  · exact before

theorem updateIfChanged_handing (before : Handing first s) : Handing first s.updateIfChanged := by
  unfold updateIfChanged
  split
  · exact before.steady (update_steady s) (fun _ => rfl)
  · exact before

theorem takeRequestData_handing (packet : ZhttpRequestPacket) (before : Handing first s)
    (linked : s.manager = true) (unpaused : s.paused = false) :
    Handing first (s.takeRequestData packet) := by
  have taken : ∀ {t : ZhttpRequest}, Handing first t →
    t.state = (if packet.more then s.state else .serverResponseWait) →
      t = { s with state := t.state } → Handing first (s.takeRequestData packet) := by
    intro t handing state same
    refine handing.steady (t := s.takeRequestData packet) (Steady.silent ?_ ?_ ?_ ?_ ?_ ?_ ?_ ?_)
      (fun _ => ?_) <;>
      rw [same, state]
    · constructor <;> simp [takeRequestData, datas]
    · rfl
    · rfl
    · rfl
    · rfl
    · exact ⟨rfl, rfl⟩
    · rfl
    · rfl
    · rfl
  cases more : packet.more with
  | true => exact taken before (by simp [more]) rfl
  | false =>
    refine taken (t := { s with state := .serverResponseWait }) ?_ (by simp [more]) rfl
    exact {
      control := before.control.restate linked rfl (by decide)
      hands := { before.hands with
        handed := fun paused => (Bool.false_ne_true (unpaused.symm.trans paused)).elim }
      offered := by
        intro pausing unneeded _
        have going : s.state ≠ .stopped := by
          intro stopped
          have := before.control.unlinked (before.hands.begun (Or.inl pausing)) stopped
          rw [linked] at this
          cases this
        obtain ⟨⟨last, buffer⟩, _⟩ := before.offered pausing unneeded going
        exact ⟨⟨last, buffer⟩, Or.inl rfl⟩ }

theorem takeRequest_handing {packet : ZhttpRequestPacket}
    (before : Handing first s) (linked : s.manager = true) (unpaused : s.paused = false)
    (inOrder : takesInOrder s packet = true) : Handing first (s.takeRequest packet) := by
  simp only [takesInOrder, Bool.and_eq_true, Bool.or_eq_true, decide_eq_true_eq] at inOrder
  obtain ⟨answered, room⟩ := inOrder
  have room' : 0 < packet.credits → s.outCredits + packet.credits < 2 ^ 31 := by
    intro some
    rcases room with none | room
    · omega
    · exact room
  unfold takeRequest
  split
  · exact updateIfChanged_handing
      (addCredits_handing (takeRequestData_handing packet before linked unpaused) room')
  · split
    · exact (addCredits_handing before room').steady (update_steady _) (fun _ => rfl)
    · exact before
  · next proceed =>
    split
    · next pausing =>
      simp only [proceed, ne_eq, not_true_eq_false, pausing, Bool.not_true, Bool.false_eq_true,
        false_or, Bool.not_eq_true'] at answered
      obtain ⟨unneeded, finished⟩ := answered
      have going : s.state ≠ .stopped := by
        intro stopped
        have := before.control.unlinked (before.hands.begun (Or.inl pausing)) stopped
        rw [linked] at this
        cases this
      obtain ⟨⟨last, buffer⟩, state⟩ := before.offered pausing unneeded going
      have control := before.control
      refine Handing.steady ?_ (signal_steady _ _) (fun _ => rfl)
      exact {
        control := { control with numbered := control.numbered.same rfl rfl }
        hands := {
          begun := fun _ => before.hands.begun (Or.inl pausing)
          single := nofun
          needed := fun needed => (Bool.false_ne_true (unneeded.symm.trans needed)).elim
          quiet := fun _ => before.hands.quiet (Or.inl pausing)
          handed := by
            refine fun _ => ⟨⟨last, buffer⟩, ?_⟩
            rcases state with h | h
            · exact Or.inl h
            · rcases finished with other | unfinished
              · simp [h] at other
              · exact Or.inr (Or.inl ⟨h, unfinished⟩) }
        offered := nofun }
    · exact before
  · exact before

theorem switchMulti_handing (before : Handing first s) (unpaused : s.paused = false)
    (multi : Bool) : Handing first (s.switchMulti multi (!s.pausing)) ∧
      (s.switchMulti multi (!s.pausing)).pausing = s.pausing ∧
      (s.switchMulti multi (!s.pausing)).paused = s.paused ∧
      (s.switchMulti multi (!s.pausing)).needPause = s.needPause := by
  have control := before.control
  have aside : Aside s { s with multi := true } := by constructor <;> simp [datas]
  have steady : Steady s { s with multi := true } :=
    Steady.silent aside rfl rfl rfl rfl ⟨rfl, rfl⟩ rfl rfl
  have switched := before.steady steady (fun _ => rfl)
  unfold switchMulti
  split
  · split
    · next waking =>
      have pausing : s.pausing = false := by simpa using waking
      have needPause := before.hands.unneeded pausing
      obtain ⟨pausing', paused', needPause'⟩ := startKeepAlive_flags switched.control.server
      exact ⟨Handing.plain (startKeepAlive_control switched.control) (pausing'.trans pausing)
        (paused'.trans unpaused) (needPause'.trans needPause), pausing', paused', needPause'⟩
    · exact ⟨switched, rfl, rfl, rfl⟩
  · exact ⟨before, rfl, rfl, rfl⟩

theorem handleRequest_handing {seq : Int} {packet : ZhttpRequestPacket}
    (before : Handing first s) (linked : s.manager = true) (inOrder : takesInOrder s packet = true)
    (room : counts s seq = true) : Handing first (s.handleRequest seq packet) := by
  have control := before.control
  unfold handleRequest
  split
  · exact before
  · next unpaused =>
    have unpaused' : s.paused = false := by simpa using unpaused
    split
    · exact fail_handing _ control before.hands
    · split
      · exact fail_handing _ control before.hands
      · split
        · have steady := @writeResponse_steady { type := .cancel } (by simp) s
          refine fail_handing _ (control.steady steady) ?_
          constructor
          · rw [steady.pausing, steady.paused, steady.started]
            exact before.hands.begun
          · rw [steady.pausing, steady.paused]
            exact before.hands.single
          · rw [steady.needPause, steady.pausing]
            exact before.hands.needed
          · rw [steady.pausing, steady.paused, steady.timers.1, steady.timers.2]
            exact before.hands.quiet
          · rw [steady.paused, unpaused']
            nofun
        · next expected =>
          have counting : 0 ≤ if seq = -1 then s.inSeq else toInt32 (s.inSeq + 1) := by
            split
            · exact control.counting
            · next numbered =>
              have seq_eq : seq = s.inSeq := by
                by_contra other
                exact expected ⟨numbered, other⟩
              have nonneg := control.counting
              simp only [counts, seq_eq, ne_eq, not_true_eq_false, decide_false, Bool.false_or,
                decide_eq_true_eq] at room
              rw [toInt32_of_fits (by omega) room]
              omega
          generalize counted :
            ({ s with inSeq := if seq = -1 then s.inSeq else toInt32 (s.inSeq + 1) } : ZhttpRequest)
              = s'
          have before' : Handing first s' := by
            subst counted
            exact {
              control := ⟨control.numbered.same rfl rfl, control.server, control.role,
                control.linked, control.unlinked, control.idle, control.solvent, counting⟩
              hands := { before.hands with
                handed := fun paused => (Bool.false_ne_true (unpaused'.symm.trans paused)).elim }
              offered := fun pausing unneeded going =>
                ⟨{ (before.offered pausing unneeded going).1 with },
                  (before.offered pausing unneeded going).2⟩ }
          have same : s'.manager = true ∧ s'.paused = false ∧ takesInOrder s' packet = true ∧
              s'.pausing = s.pausing := by
            subst counted
            exact ⟨linked, unpaused', inOrder, rfl⟩
          rw [← same.2.2.2]
          obtain ⟨linked', unpaused'', inOrder', _⟩ := same
          obtain ⟨switched, pausing, paused, needPause⟩ :=
            switchMulti_handing before' unpaused'' packet.multi
          have aside := switchMulti_aside packet.multi (!s'.pausing) s'
          refine takeRequest_handing (switched.steady (refreshTimeout_steady _) (fun _ => rfl))
            (aside.manager.trans linked') (paused.trans unpaused'') ?_
          simp only [takesInOrder, refreshTimeout, pausing, needPause, aside.state, aside.finished,
            aside.credits] at inOrder' ⊢
          exact inOrder'

section
variable (canWriteImmediately : Bool) (app : ZhttpRequest → ZhttpRequest)
  (answers : ∀ t, Handing first t → Handing first (app t)) (before : Handing first s)
  (undeleted : s.deleted = false)
include canWriteImmediately app answers before undeleted

theorem updateState_handing : Handing first (s.updateState canWriteImmediately app) := by
  have role := before.control.role
  unfold updateState
  cases state : s.state with
  | clientStarting | clientRequestStartWait | clientRequesting | clientRequestFinishWait
  | clientReceiving =>
    rw [state] at role
    cases role
  | stopped => exact before
  | serverStarting => exact ackRequest_handing before undeleted state
  | serverReceiving => exact before.steady (emitReadable_steady _) (fun _ => emitReadable_sent _)
  | serverResponseWait =>
    exact (trySendPause_handing before undeleted).steady (emitReadable_steady _)
      (fun _ => emitReadable_sent _)
  | serverResponseStarting => exact startResponse_handing app answers before undeleted state
  | serverResponding =>
    have written := tryWrite_handing app answers before undeleted state
    dsimp only
    split
    · exact written
    · exact written.steady (emitWritable_steady _) (fun _ => emitWritable_sent _)

theorem doUpdate_handing : Handing first (s.doUpdate canWriteImmediately app) := by
  have control := before.control
  refine updateState_handing canWriteImmediately app answers ?_ undeleted
  exact {
    control := { control with numbered := control.numbered.same rfl rfl }
    hands := { before.hands with
      handed := fun paused => ⟨{ (before.hands.handed paused).1 with },
        (before.hands.handed paused).2⟩ }
    offered := fun pausing unneeded going =>
      ⟨{ (before.offered pausing unneeded going).1 with },
        (before.offered pausing unneeded going).2⟩ }

end

theorem step_handing {event : Event} (before : Handing first s)
    (inOrder : ∀ seq packet, event = .request seq packet → takesInOrder s packet = true ∧
    counts s seq = true)
    (stepped : step s event = some t) : Handing first t := by
  unfold step at stepped
  split at stepped
  · next possible =>
    cases stepped
    simp only [Bool.and_eq_true, Bool.not_eq_true'] at possible
    obtain ⟨⟨undeleted, _⟩, possible⟩ := possible
    have awake : s.keepAliveTimer = true ∨ s.registered = true → ¬ s.waiting := by
      rintro timers (paused | ⟨pausing, _, _⟩)
      · obtain ⟨keepAliveTimer, registered⟩ := before.hands.quiet (Or.inr paused)
        simp [keepAliveTimer, registered] at timers
      · obtain ⟨keepAliveTimer, registered⟩ := before.hands.quiet (Or.inl pausing)
        simp [keepAliveTimer, registered] at timers
    cases event with
    | request seq packet =>
      simp only [Event.possible, Bool.and_eq_true] at possible
      obtain ⟨inOrder, room⟩ := inOrder seq packet rfl
      exact handleRequest_handing before possible.1 inOrder room
    | response seq packet => simp [Event.possible, before.control.server] at possible
    | update canWriteImmediately calls =>
      refine doUpdate_handing canWriteImmediately _ (fun t handing => ?_) before undeleted
      exact @answer_rule (Handing first)
        (fun u call handing undeleted _ legal => call_handing handing undeleted legal) calls t
          handing
    | call made => exact call_handing before undeleted possible
    | startServer =>
      simp only [Event.possible, Bool.and_eq_true, Bool.not_eq_true'] at possible
      exact startServer_handing before possible.1.1 possible.2
    | expire => exact fail_handing _ before.control before.hands
    | keepAlive =>
      exact before.steady (keepAliveTimeout_steady before.control.server)
        (fun waiting => absurd waiting (awake (Or.inl possible)))
    | refresh =>
        exact before.steady (outSeqInc_steady s)
          (fun waiting => absurd waiting (awake (Or.inr possible)))
  · cases stepped

theorem handsOver_request {event : Event} (inOrder : handsOver s event = true) :
    ∀ seq packet, event = .request seq packet → takesInOrder s packet = true ∧
      counts s seq = true := by
  rintro seq packet rfl
  simp only [handsOver, Bool.and_eq_true] at inOrder
  exact inOrder.2

theorem step_inRange {event : Event} (before : Handing first s) (within : InRange first s)
    (inOrder : handsOver s event = true) (stepped : step s event = some t) : InRange first t := by
  have next := before.control.numbered.outSeq within
  simp only [handsOver, Bool.and_eq_true, decide_eq_true_eq] at inOrder
  obtain ⟨room, _⟩ := inOrder
  refine ⟨within.nonneg, ?_⟩
  unfold step at stepped
  split at stepped
  · next possible =>
    cases stepped
    simp only [Bool.and_eq_true] at possible
    have few : (event.take s).sent.length ≤ s.sent.length + event.packets :=
      take_sends before.control.server possible.2
    omega
  · cases stepped

theorem run_handing {events : List Event} (before : Handing first s) (within : InRange first s)
    (inOrder : along step handsOver s events = true) (ran : run step s events = some t) :
    Handing first t ∧ InRange first t := by
  refine run_kept (fun s => Handing first s ∧ InRange first s) ?_ ⟨before, within⟩ ran inOrder
  rintro s event t ⟨handing, within⟩ checked stepped
  exact ⟨step_handing handing (handsOver_request checked) stepped,
    step_inRange handing within checked stepped⟩

structure Resting (s t : ZhttpRequest) : Prop where
  paused : t.paused = true
  sent : t.sent = s.sent

theorem updateState_resting (canWriteImmediately : Bool)
    (app : ZhttpRequest → ZhttpRequest) (before : Handing first s) (paused : s.paused = true) :
    Resting s (s.updateState canWriteImmediately app) := by
  have unneeded := before.hands.unneeded (before.hands.unpausing paused)
  have pauses : s.trySendPause = s := by simp [trySendPause, unneeded]
  obtain ⟨⟨_, empty⟩, state⟩ := before.hands.handed paused
  unfold updateState
  rcases state with state | ⟨state, unfinished⟩ | state
  · simp only [state, pauses]
    exact ⟨(emitReadable_steady s).paused.trans paused, emitReadable_sent s⟩
  · have written : s.tryWrite app = s := by
      simp [tryWrite, state, empty, unfinished, pauses]
    simp only [state, written]
    split
    · exact ⟨paused, rfl⟩
    · exact ⟨(emitWritable_steady s).paused.trans paused, emitWritable_sent s⟩
  · simp only [state]
    exact ⟨paused, rfl⟩

theorem step_resting {event : Event} (before : Handing first s)
    (paused : s.paused = true) (other : event ≠ .call .resume) (stepped : step s event = some t) :
    Resting s t ∧ Handing first t := by
  have unpausing := before.hands.unpausing paused
  unfold step at stepped
  split at stepped
  · next possible =>
    have stepped' : step s event = some (event.take s) := by rw [step, if_pos possible]
    cases stepped
    simp only [Bool.and_eq_true, Bool.not_eq_true'] at possible
    obtain ⟨⟨undeleted, _⟩, possible⟩ := possible
    obtain ⟨keepAliveTimer, registered⟩ := before.hands.quiet (Or.inr paused)
    cases event with
    | request seq packet =>
      have ignored : Event.take s (.request seq packet) = s := by
        simp [Event.take, handleRequest, paused]
      rw [ignored]
      exact ⟨⟨paused, rfl⟩, before⟩
    | response seq packet => simp [Event.possible, before.control.server] at possible
    | update canWriteImmediately calls =>
      refine ⟨?_, step_handing before (by rintro _ _ ⟨⟩) stepped'⟩
      have idle : Handing first { s with pendingUpdate := false } := by
        have control := before.control
        exact {
          control := { control with numbered := control.numbered.same rfl rfl }
          hands := { before.hands with
            handed := fun paused => ⟨{ (before.hands.handed paused).1 with },
              (before.hands.handed paused).2⟩ }
          offered := fun pausing => by
            rw [show _ = false from unpausing] at pausing; cases pausing }
      have rests := updateState_resting canWriteImmediately (answer calls) idle paused
      exact ⟨rests.paused, rests.sent⟩
    | call made =>
      refine ⟨?_, step_handing before (by rintro _ _ ⟨⟩) stepped'⟩
      cases made with
      | start method uri fields =>
          simp [Event.possible, Call.legal, before.control.server] at possible
      | beginResponse code reason fields => simp [Event.possible, Call.legal, paused] at possible
      | writeBody body => simp [Event.possible, Call.legal, paused] at possible
      | endBody => simp [Event.possible, Call.legal, paused] at possible
      | readBody size =>
        exact ⟨(readBody_steady before.control.server size).paused.trans paused,
          readBody_sent before.control.server (Or.inr paused) size⟩
      | pause => simp [Event.possible, Call.legal, paused] at possible
      | resume => exact absurd rfl other
      | destroy =>
        have kept : Event.take s (.call .destroy) = { s.cleanup with deleted := true } := by
          simp [Event.take, Call.make, destroy, paused]
        rw [kept]
        exact ⟨paused, rfl⟩
    | startServer => simp [Event.possible, before.hands.begun (Or.inr paused)] at possible
    | expire => exact ⟨⟨paused, rfl⟩, fail_handing _ before.control before.hands⟩
    | keepAlive => simp [Event.possible, keepAliveTimer] at possible
    | refresh => simp [Event.possible, registered] at possible
  · cases stepped

theorem run_resting {events : List Event} (before : Handing first s)
    (paused : s.paused = true) (others : ∀ event ∈ events, event ≠ .call .resume)
    (ran : run step s events = some t) :
    t.sent = s.sent := by
  induction events generalizing s with
  | nil =>
    cases ran
    rfl
  | cons event events ih =>
    obtain ⟨next, stepped, ran'⟩ := Option.bind_eq_some_iff.mp ran
    obtain ⟨rests, handing⟩ := step_resting before paused (others event (by simp)) stepped
    exact (ih handing rests.paused (fun e known => others e (by simp [known])) ran').trans
      rests.sent

/-- The two ways in which a server comes to own a request, with its first sequence number.
    The one who takes over sends a packet at once. -/
inductive Owner : Int → ZhttpRequest → Prop
  | first {packet : ZhttpRequestPacket} {s : ZhttpRequest} (accepted : Accepted packet s)
      (credits : -1 ≤ packet.credits) : Owner 0 s
  | next (instanceId : Bytes) (ss : ServerState) (numbered : 0 ≤ ss.outSeq)
      (room : ss.outSeq + 1 < 2 ^ 31) : Owner ss.outSeq (setupServerFrom instanceId ss)

theorem Owner.inRange (owner : Owner first s) : InRange first s := by
  cases owner with
  | first accepted credits =>
    obtain ⟨instanceId, id, rfl⟩ := accepted.eq
    exact ⟨le_rfl, by simp⟩
  | next instanceId ss numbered room =>
    refine ⟨numbered, ?_⟩
    simpa [setupServerFrom, refreshTimeout, startKeepAlive, writeResponse] using room

theorem Owner.handing (owner : Owner first s) : Handing first s := by
  cases owner with
  | first accepted credits =>
    obtain ⟨instanceId, id, rfl⟩ := accepted.eq
    refine Handing.plain ?_ rfl rfl rfl
    exact {
      numbered := ⟨rfl, by simp [toInt32]⟩
      server := rfl
      role := rfl
      linked := fun _ _ => rfl
      unlinked := fun begun => by cases begun
      idle := by rintro ⟨⟩
      solvent := by dsimp only; split <;> omega
      counting := by dsimp only; omega }
  | next instanceId ss numbered room =>
    have exact_ : toInt32 ss.outSeq = ss.outSeq := toInt32_of_fits numbered (by omega)
    simp only [setupServerFrom, refreshTimeout, startKeepAlive, writeResponse, numbered, if_true,
      Bool.not_true, Bool.false_eq_true, if_false]
    refine Handing.plain ?_ rfl rfl rfl
    exact {
      numbered := ⟨by simp [Packet.seq, exact_], by simp⟩
      server := rfl
      role := by dsimp only; split <;> rfl
      linked := fun _ _ => rfl
      unlinked := by
        intro _ stopped
        dsimp only at stopped
        split at stopped <;> cases stopped
      idle := by rintro ⟨⟩
      solvent := by dsimp only; split <;> omega
      counting := by dsimp only; split <;> omega }

/-- In every run whose handovers are in order, up to one that is taken up, the packets are
    numbered without a gap and the offer of the handover is the last of them, with no
    body left in the buffer. The old owner sends nothing more unless it is resumed, and
    then the numbers go on, as they do with a new owner, which starts from the same
    input number and credits. -/
theorem handover_numbers_packets {first : Int} {s old : ZhttpRequest} {before : List Event}
    (owner : Owner first s) (inOrder : along step handsOver s before = true)
    (ran : run step s before = some old) (paused : old.paused = true) :
    Consecutive first old.sent ∧ old.Offered ∧
    (∀ after last, (∀ event ∈ after, event ≠ .call .resume) → run step old after = some last →
    last.sent = old.sent) ∧
    (∀ after last, along step handsOver old after = true → run step old after = some last →
      Consecutive first last.sent) ∧
    (∀ instanceId, (setupServerFrom instanceId old.serverState).inSeq = old.inSeq ∧
      (setupServerFrom instanceId old.serverState).outCredits = old.outCredits ∧
      ∀ after last, old.outSeq + 1 < 2 ^ 31 →
        along step handsOver (setupServerFrom instanceId old.serverState) after = true →
        run step (setupServerFrom instanceId old.serverState) after = some last →
          Consecutive first (old.sent ++ last.sent)) := by
  obtain ⟨handing, within⟩ := run_handing owner.handing owner.inRange inOrder ran
  have control := handing.control
  have next := control.numbered.outSeq within
  have packets := control.numbered.consecutive within
  refine ⟨packets, (handing.hands.handed paused).1, ?_, ?_, ?_⟩
  · intro after last others ran'
    exact run_resting handing paused others ran'
  · intro after last inOrder' ran'
    obtain ⟨handing', within'⟩ := run_handing handing within inOrder' ran'
    exact handing'.control.numbered.consecutive within'
  · intro instanceId
    have counting : 0 ≤ old.serverState.inSeq := control.counting
    have solvent : 0 ≤ old.serverState.outCredits := control.solvent
    refine ⟨?_, ?_, ?_⟩
    · simp only [setupServerFrom, refreshTimeout, startKeepAlive, writeResponse, Bool.not_true,
        Bool.false_eq_true, if_false, counting, if_true]
      rfl
    · simp only [setupServerFrom, refreshTimeout, startKeepAlive, writeResponse, Bool.not_true,
        Bool.false_eq_true, if_false, solvent, if_true]
      rfl
    · intro after last room inOrder' ran'
      have numbered : 0 ≤ old.serverState.outSeq := by
        have := within.nonneg
        show 0 ≤ old.outSeq
        omega
      have owner' := Owner.next instanceId old.serverState numbered room
      obtain ⟨handing', within'⟩ := run_handing owner'.handing owner'.inRange inOrder' ran'
      exact packets.append (handing'.control.numbered.consecutive within') next

def pausedHello : List Event := hello ++ [.call .pause]

theorem small_handover : ∃ old,
    run step (streamedServer 100)
      (pausedHello ++ [.update true [], .request 1 { type := .handoffProceed, from_ := [1] }]) =
      some old ∧ old.sent.map Packet.seq = [0, 1, 2] ∧ old.Offered := by
  obtain ⟨old, ran⟩ : ∃ old, run step (streamedServer 100)
      (pausedHello ++ [.update true [], .request 1 { type := .handoffProceed, from_ := [1] }]) =
        some old :=
    Option.isSome_iff_exists.mp (by decide +kernel)
  have facts : (run step (streamedServer 100)
      (pausedHello ++ [.update true [], .request 1 { type := .handoffProceed, from_ := [1] }])).map
        (fun s => (s.paused, s.sent.length)) = some (true, 3) := by decide +kernel
  rw [ran] at facts
  simp only [Option.map_some, Option.some.injEq, Prod.mk.injEq] at facts
  obtain ⟨consecutive, offered, _⟩ :=
    handover_numbers_packets (Owner.first (streamed_accepted 100) (by decide))
      (by decide +kernel) ran facts.1
  refine ⟨old, ran, ?_, offered⟩
  rw [consecutive, facts.2]
  rfl

/-- A handover that is taken up before it is offered: the offer goes out after the
    old owner has been let go, with the number that the new owner starts from. Credits
    below zero are not handed over. -/
theorem unoffered_handover_breaks_sequence :
    ((run step (streamedServer 100)
    (pausedHello ++ [.request 1 { type := .handoffProceed, from_ := [1] }])).map fun s =>
      (s.paused, s.sent.map Packet.seq, s.sent.getLast?.map Packet.offersHandoff,
        (setupServerFrom [9] s.serverState).sent.map Packet.seq)) = some (true, [0, 1], some false,
          [2]) ∧
    ((run step (streamedServer 100)
      (pausedHello ++ [.request 1 { type := .handoffProceed, from_ := [1] },
      .update true []])).map fun s => (s.paused, s.sent.map Packet.seq)) = some (true, [0, 1, 2]) ∧
    ((run step (streamedServer (-5)) [.startServer, .update true [],
      .request 1 { type := .data, from_ := [1] },
      .call .pause, .update true [], .request 2 { type := .handoffProceed, from_ := [1] }]).map
        fun s =>
        (s.paused, s.outCredits, (setupServerFrom [9] s.serverState).outCredits)) = some (true, -5,
          0) := by
  decide +kernel

end PushpinZhttpRequest
