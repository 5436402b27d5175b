import Pushpin.Foundations.Outcome
import Pushpin.Foundations.Runs
import Pushpin.WebSocket.MessageRuns

namespace PushpinWebSocket
open PushpinRingBuffer PushpinVectored Runs Results

section
variable {ε δ : Type}

def counted : Except Error Nat → Nat
  | .ok size => size
  | .error _ => 0

def cutAt : List Nat → List Byte → List (List Byte)
  | [], [] => []
  | [], bytes => [bytes]
  | size :: sizes, bytes => bytes.take size :: cutAt sizes (bytes.drop size)

/-- One call for a frame: the bytes that joined the source before it, how the
    source is cut, what the writer will do, and arguments that only the first
    call of a frame reads. -/
structure FrameCall where
  more : List Byte
  sizes : List Nat
  schedule : List Response
  opcode : Byte
  fin : Bool
  rsv1 : Bool
  deriving DecidableEq, Repr

/-- A caller of `send_frame`. `data` is all that the source ever held, `frame`
    the frame as the first call set it up, and `written` what the calls counted. -/
structure FrameSender (ε δ : Type) where
  protocol : Protocol ε δ
  wire : List Byte
  source : List Byte
  data : List Byte
  frame : Option SendingFrame
  written : Nat
  deriving DecidableEq, Repr

def FrameSender.going (s : FrameSender ε δ) (_ : FrameCall) : Bool :=
  s.frame.isNone || s.protocol.sendingFrame.isSome

def FrameCall.frame (call : FrameCall) (p : Protocol ε δ) (mask : Option Mask)
    (src : List (List Byte)) : Option SendingFrame :=
  (currentFrame p.sendingFrame call.opcode (capBufs src sendFrameBufsMax).1.flatten.length
    (call.fin && !(capBufs src sendFrameBufsMax).2) call.rsv1 mask).toOption

def frameStep (mask : Option Mask) (s : FrameSender ε δ) (call : FrameCall) :
    Option (FrameSender ε δ) := do
  let src := cutAt call.sizes (s.source ++ call.more)
  let (protocol, w, src', ret) ←
    s.protocol.sendFrame ⟨s.wire, call.schedule⟩ call.opcode src call.fin call.rsv1 mask
  return {
    protocol := protocol
    wire := w.wire
    source := src'.flatten.drop (counted ret)
    data := s.data ++ call.more
    frame := s.frame <|> call.frame s.protocol mask src
    written := s.written + counted ret }

theorem cutAt_flatten (sizes : List Nat) (bytes : List Byte) :
    (cutAt sizes bytes).flatten = bytes := by
  induction sizes generalizing bytes with
  | nil =>
    cases bytes with
    | nil => rfl
    | cons b bytes =>
      show (b :: bytes) ++ [] = b :: bytes
      rw [List.append_nil]
  | cons size sizes ih =>
    rw [cutAt, List.flatten_cons, ih, List.take_append_drop]

section
variable {p p' : Protocol ε δ} {w w' : Writer} {opcode : Byte} {src src' : List (List Byte)}
  {fin rsv1 : Bool} {mask : Option Mask} {ret : Except Error Nat}
  (called : p.sendFrame w opcode src fin rsv1 mask = some (p', w', src', ret))
include called

/-- Whatever the state of the frame, a call counts no more bytes than it was given,
    gives back those it does not count and leaves the message alone. -/
theorem sendFrame_effect :
    (src'.map List.length = src.map List.length ∧
      src'.flatten.drop (counted ret) = src.flatten.drop (counted ret)) ∧
      counted ret ≤ src.flatten.length ∧ p'.sendingMessage = p.sendingMessage := by
  unfold Protocol.sendFrame at called
  split at called
  · cases called
  · obtain ⟨front, _⟩ := capBufs_flatten src sendFrameBufsMax
    generalize capBufs src sendFrameBufsMax = cap at called front
    obtain ⟨view, capped⟩ := cap
    dsimp only at called front
    split at called
    · cases called
      exact ⟨⟨rfl, rfl⟩, Nat.zero_le _, rfl⟩
    · rename_i frame cur
      have split : (if frame.sent < frame.header.length then (frame.header.length - frame.sent, 0)
          else (0, frame.sent - frame.header.length)) =
          (frame.header.length - frame.sent, frame.sent - frame.header.length) := by
        split
        · rw [Nat.sub_eq_zero_of_le (by omega : frame.sent ≤ frame.header.length)]
        · rw [Nat.sub_eq_zero_of_le (by omega : frame.header.length ≤ frame.sent)]
      rw [split] at called
      dsimp only at called
      split at called
      · cases called
      · have begins :
          (limit view (frame.payloadSize - (frame.sent - frame.header.length))).flatten <+:
            src.flatten := by
          rw [limit_flatten]
          exact (List.take_prefix _ _).trans front
        generalize limit view (frame.payloadSize - (frame.sent - frame.header.length)) = part
          at called begins
        have offered := offerFrame_spec w frame
          (maskedBufs mask part (frame.sent - frame.header.length))
        rw [maskedBufs_flatten] at offered
        rcases offered with ⟨kind, schedule, refused⟩ | ⟨count, schedule, most, took⟩
        · obtain ⟨answer, length, same⟩ :=
            withMask_spec part mask (frame.sent - frame.header.length)
              (offerFrame w frame (frame.header.length - frame.sent))
              (by rw [refused]; exact Nat.zero_le _)
          rw [refused] at answer same
          generalize withMask part mask (frame.sent - frame.header.length)
            (offerFrame w frame (frame.header.length - frame.sent)) = result
              at answer length same called
          obtain ⟨view', ret'⟩ := result
          dsimp only at answer length same called
          subst answer
          cases called
          exact ⟨storeAt_front begins length (Nat.zero_le _) same, Nat.zero_le _, rfl⟩
        · have short : count - (frame.header.length - frame.sent) ≤ part.flatten.length := by
            simp only [List.length_append, List.length_drop, masked_length] at most
            omega
          obtain ⟨answer, length, same⟩ :=
            withMask_spec part mask (frame.sent - frame.header.length)
              (offerFrame w frame (frame.header.length - frame.sent)) (by rw [took]; exact short)
          rw [took] at answer same
          generalize withMask part mask (frame.sent - frame.header.length)
            (offerFrame w frame (frame.header.length - frame.sent)) = result
              at answer length same called
          obtain ⟨view', ret'⟩ := result
          dsimp only at answer length same called
          subst answer
          have restored := storeAt_front begins length short same
          have inside := short.trans begins.length_le
          have unchanged : ∀ opcode, (p.frameSent opcode).sendingMessage = p.sendingMessage := by
            intro opcode
            unfold Protocol.frameSent
            split <;> rfl
          dsimp only at called
          split at called
          · cases called
          · split at called
            · rename_i inHeader
              have nothing : count - (frame.header.length - frame.sent) = 0 := by omega
              rw [nothing] at restored
              cases called
              exact ⟨restored, Nat.zero_le _, rfl⟩
            · have kept : count - (frame.header.length - frame.sent) =
                  frame.sent +
                    count - frame.header.length - (frame.sent - frame.header.length) := by
                omega
              rw [kept] at restored inside
              split at called
              · cases called
                exact ⟨restored, inside, unchanged _⟩
              · cases called
                exact ⟨restored, inside, rfl⟩

theorem sendFrame_restores :
    src'.map List.length = src.map List.length ∧
      src'.flatten.drop (counted ret) = src.flatten.drop (counted ret) :=
  (sendFrame_effect called).1

end

/-- What has been sent of the frame is on the wire, and the source holds the rest. -/
structure FrameOnWire (mask : Option Mask) (base : List Byte) (s : FrameSender ε δ)
    (frame : SendingFrame) (sent : Nat) : Prop where
  held : s.frame = some frame
  fresh : frame.sent = 0
  enough : frame.payloadSize ≤ s.data.length
  within : sent ≤ frame.header.length + frame.payloadSize
  wire : s.wire = base ++ (wholeFrame frame mask (s.data.take frame.payloadSize)).take sent
  written : s.written = sent - frame.header.length
  source : s.source = s.data.drop s.written
  finished : sent = frame.header.length + frame.payloadSize → s.protocol.sendingFrame = none
  going : sent < frame.header.length + frame.payloadSize →
    s.protocol.state.sends = true ∧ s.protocol.sendingFrame = some { frame with sent }

inductive FrameSending (mask : Option Mask) (base : List Byte) (s : FrameSender ε δ) : Prop where
  | idle (held : s.frame = none) (ready : s.protocol.state.sends = true)
      (unset : s.protocol.sendingFrame = none) (wire : s.wire = base) (source : s.source = s.data)
      (written : s.written = 0)
  | flying (frame : SendingFrame) (sent : Nat) (onWire : FrameOnWire mask base s frame sent)

section
variable {mask : Option Mask} {base : List Byte} {s : FrameSender ε δ}

theorem frameStep_onWire (call : FrameCall) {frame : SendingFrame} {sent : Nat}
    (fresh : frame.sent = 0) (ready : s.protocol.state.sends = true)
    (cur : call.frame s.protocol mask (cutAt call.sizes (s.source ++ call.more)) =
      some { frame with sent })
    (held : (s.frame <|> some { frame with sent }) = some frame)
    (enough : frame.payloadSize ≤ (s.data ++ call.more).length)
    (unsent : sent < frame.header.length + frame.payloadSize)
    (wire : s.wire = base ++
      (wholeFrame frame mask ((s.data ++ call.more).take frame.payloadSize)).take sent)
    (written : s.written = sent - frame.header.length)
    (source : s.source ++ call.more = (s.data ++ call.more).drop s.written) :
    ∃ next sent', frameStep mask s call = some next ∧ FrameOnWire mask base next frame sent' := by
  have bytes : (cutAt call.sizes (s.source ++ call.more)).flatten =
      (s.data ++ call.more).drop s.written := by
    rw [cutAt_flatten, source]
  have noted : (s.frame <|> call.frame s.protocol mask (cutAt call.sizes (s.source ++ call.more))) =
      some frame := by
    rw [cur, held]
  have started : currentFrame s.protocol.sendingFrame call.opcode
      (capBufs (cutAt call.sizes (s.source ++ call.more)) sendFrameBufsMax).1.flatten.length
      (call.fin && !(capBufs (cutAt call.sizes (s.source ++ call.more)) sendFrameBufsMax).2)
        call.rsv1
      mask = .ok { frame with sent } := ok_of_toOption cur
  have short : s.written ≤ frame.payloadSize := by omega
  have before : ((s.data ++ call.more).take s.written).length = sent - frame.header.length := by
    rw [List.length_take, ← written]
    omega
  have whole :
    (s.data ++ call.more).take frame.payloadSize = (s.data ++ call.more).take s.written ++
      (cutAt call.sizes (s.source ++ call.more)).flatten.take
        (frame.payloadSize - ((s.data ++ call.more).take s.written).length) := by
    rw [bytes, before, ← written, ← List.take_add, Nat.add_sub_cancel' short]
  have spec := sendFrame_spec (w := ⟨s.wire, call.schedule⟩) ready started before whole
    (List.length_take_of_le enough) unsent wire
  unfold frameStep
  dsimp only
  rw [noted]
  generalize cutAt call.sizes (s.source ++ call.more) = src at bytes spec ⊢
  rw [before, ← written] at spec
  have rest : ∀ n, src.flatten.drop n = (s.data ++ call.more).drop (s.written + n) := fun n => by
    rw [bytes, List.drop_drop]
  rcases spec with ⟨kind, schedule, src', called, same⟩ | ⟨sent', schedule, src', later, unsent',
    called, same⟩ | ⟨schedule, src', called, same⟩
  · rw [called]
    refine ⟨_, sent, rfl, rfl, fresh, enough, by omega, wire, written, ?_, fun finished => by omega,
      fun _ => ⟨ready, rfl⟩⟩
    show src'.flatten.drop 0 = (s.data ++ call.more).drop (s.written + 0)
    rw [same, rest]
  · rw [called]
    have more : s.written + (sent' - frame.header.length - s.written) =
        sent' - frame.header.length := by
      dsimp only at later
      omega
    refine ⟨_, sent', rfl, rfl, fresh, enough, Nat.le_of_lt unsent', rfl, more, ?_,
      fun finished => ?_, fun _ => ⟨ready, rfl⟩⟩
    · show src'.flatten.drop (sent' - frame.header.length - s.written) = _
      rw [same, rest]
      rfl
    · dsimp only at unsent'
      omega
  · rw [called]
    have more : s.written + (frame.payloadSize - s.written) =
        frame.header.length + frame.payloadSize - frame.header.length := by omega
    refine ⟨_, frame.header.length + frame.payloadSize, rfl, rfl, fresh, enough, Nat.le_refl _,
      ?_, more, ?_, fun _ => ?_, fun going => absurd going (Nat.lt_irrefl _)⟩
    · have total : (wholeFrame frame mask ((s.data ++ call.more).take frame.payloadSize)).length =
          frame.header.length + frame.payloadSize := by
        rw [wholeFrame, List.length_append, masked_length, List.length_take_of_le enough]
      rw [← total, List.take_length]
      rfl
    · show src'.flatten.drop (frame.payloadSize - s.written) = _
      rw [same, rest]
      rfl
    · unfold Protocol.frameSent
      split <;> rfl

theorem frameStep_sending (call : FrameCall) (sending : FrameSending mask base s)
    (going : s.going call = true) :
    ∃ next, frameStep mask s call = some next ∧ FrameSending mask base next := by
  cases sending with
  | idle held ready unset wire source written =>
    let src := cutAt call.sizes (s.source ++ call.more)
    have bytes : src.flatten = s.data ++ call.more := by
      rw [cutAt_flatten, source]
    -- the first call sets the frame up for what it can see of the source
    let frame : SendingFrame :=
      ⟨call.opcode, headerBytes (call.fin && !(capBufs src sendFrameBufsMax).2)
        call.rsv1 call.opcode (capBufs src sendFrameBufsMax).1.flatten.length mask,
        (capBufs src sendFrameBufsMax).1.flatten.length, 0⟩
    have cur : call.frame s.protocol mask src = some frame := by
      rw [FrameCall.frame, unset, currentFrame_new]
      rfl
    have enough := (capBufs_flatten src sendFrameBufsMax).1.length_le
    rw [bytes] at enough
    have header : frame.header.length = headerSize frame.payloadSize mask.isSome :=
      headerBytes_length _ _ _ _ _
    have least := (headerSize_le frame.payloadSize mask.isSome).1
    obtain ⟨next, sent, stepped, onWire⟩ := @frameStep_onWire ε δ mask base s call frame 0 rfl ready
      cur (by rw [held]; rfl) enough (by omega)
      (by rw [wire, List.take_zero, List.append_nil]) (by rw [written, Nat.zero_sub])
      (by rw [written, source, List.drop_zero])
    exact ⟨next, stepped, .flying _ sent onWire⟩
  | flying frame sent onWire =>
    have inside := onWire.within
    by_cases finished : sent = frame.header.length + frame.payloadSize
    · rw [FrameSender.going, onWire.held, onWire.finished finished] at going
      cases going
    · obtain ⟨ready, flies⟩ := onWire.going (by omega)
      have enough := onWire.enough
      have short : s.written ≤ s.data.length := by
        rw [onWire.written]
        omega
      obtain ⟨next, sent', stepped, onWire'⟩ := @frameStep_onWire ε δ mask base s call frame sent
        onWire.fresh ready (by rw [FrameCall.frame, flies]; rfl) (by rw [onWire.held]; rfl)
        (by rw [List.length_append]; omega) (by omega)
        (by rw [onWire.wire, List.take_append_of_le_length enough]) onWire.written
        (by rw [onWire.source, List.drop_append_of_le_length short])
      exact ⟨next, stepped, .flying frame sent' onWire'⟩

theorem FrameOnWire.bytes {frame : SendingFrame} {sent : Nat}
    (onWire : FrameOnWire mask base s frame sent) :
    s.wire = base ++ (frame.header.take sent ++ masked mask (s.data.take s.written) 0) := by
  have short : s.written ≤ frame.payloadSize := by
    have within := onWire.within
    rw [onWire.written]
    omega
  have enough := onWire.enough
  have front :
      (masked mask ((s.data.take frame.payloadSize).take s.written) 0).length = s.written := by
    rw [masked_length, List.length_take, List.length_take]
    omega
  have cut : (masked mask (s.data.take frame.payloadSize) 0).take s.written =
      masked mask (s.data.take s.written) 0 := by
    conv_lhs => rw [← List.take_append_drop s.written (s.data.take frame.payloadSize),
      masked_append, List.take_left' front]
    rw [List.take_take, Nat.min_eq_left short]
  rw [onWire.wire, wholeFrame, List.take_append, ← onWire.written, cut]

end

/-- A call returns to the source every byte that it does not count, in any state of the frame.
Over the calls for a frame, none of which panics, the source holds all that was not counted and
the wire holds the counted bytes under the mask, each at its position in the frame. -/
theorem sendFrame_masks_and_restores (ε δ : Type) (mask : Option Mask) :
    (∀ (p p' : Protocol ε δ) (w w' : Writer) (opcode : Byte) (src src' : List (List Byte))
        (fin rsv1 : Bool) (ret : Except Error Nat),
      p.sendFrame w opcode src fin rsv1 mask = some (p', w', src', ret) →
        src'.map List.length = src.map List.length ∧
          src'.flatten.drop (counted ret) = src.flatten.drop (counted ret)) ∧
      ∀ (p : Protocol ε δ) (wire data : List Byte) (calls : List FrameCall),
        p.state.sends = true → p.sendingFrame = none →
        along (frameStep mask) FrameSender.going ⟨p, wire, data, data, none, 0⟩ calls = true →
        ∃ s, run (frameStep mask) ⟨p, wire, data, data, none, 0⟩ calls = some s ∧
          s.source = s.data.drop s.written ∧
          ∀ frame, s.frame = some frame → ∃ headerSent,
            s.wire = wire ++ (frame.header.take headerSent ++ masked mask
              (s.data.take s.written) 0) ∧ (0 < s.written → frame.header.length ≤ headerSent) ∧
              s.written ≤ frame.payloadSize ∧ frame.payloadSize ≤ s.data.length ∧
              (s.protocol.sendingFrame = none →
                frame.header.length ≤ headerSent ∧ s.written = frame.payloadSize) := by
  refine ⟨fun p p' w w' opcode src src' fin rsv1 ret called => sendFrame_restores called,
    fun p wire data calls ready unset checked => ?_⟩
  obtain ⟨s, ran, sending⟩ := run_rule (FrameSending mask wire)
    (fun s call sending going => frameStep_sending call sending going) calls
    (FrameSending.idle rfl ready unset rfl rfl rfl) checked
  refine ⟨s, ran, ?_⟩
  cases sending with
  | idle held ready unset wire source written =>
    refine ⟨by rw [written, source, List.drop_zero], fun frame set => ?_⟩
    rw [held] at set
    cases set
  | flying frame sent onWire =>
    have within := onWire.within
    have counts := onWire.written
    refine ⟨onWire.source, fun other set => ?_⟩
    obtain rfl := Option.some.inj (onWire.held.symm.trans set)
    refine ⟨sent, onWire.bytes, fun some => by omega, by omega, onWire.enough, fun gone => ?_⟩
    by_cases finished : sent = frame.header.length + frame.payloadSize
    · exact ⟨by omega, by omega⟩
    · have flies := (onWire.going (by omega)).2
      rw [gone] at flies
      cases flies

end

def cutCalls : List FrameCall :=
  [⟨[], [1], [.accept 4], opcodeText, true, false⟩,
    ⟨[], [2], [.fail .wouldBlock], opcodeText, true, false⟩,
    ⟨[], [2], [.accept 3], opcodeText, true, false⟩, ⟨[], [], [.accept 9], opcodeText, true, false⟩]

theorem cut_frame_masks_and_restores :
    (∃ p w src ret, openSession.sendFrame ⟨[], [.accept 7]⟩ opcodeText [[104],
        [101, 108]] true false (some ⟨1, 2, 3, 4⟩) = some (p, w, src, ret) ∧
      src.map List.length = [1, 2] ∧ src.flatten.drop (counted ret) =
        [104, 101, 108].drop (counted ret)) ∧
    ∃ s, run (frameStep (some ⟨1, 2, 3, 4⟩)) ⟨openSession, [], [104, 101, 108],
      [104, 101, 108], none, 0⟩ cutCalls =
        some s ∧ s.written = 3 ∧ s.source = [] ∧
          s.wire = [129, 131, 1, 2, 3, 4] ++ masked (some ⟨1, 2, 3, 4⟩) [104, 101, 108] 0 := by
  obtain ⟨s, ran, source, _⟩ :=
    (sendFrame_masks_and_restores Unit Unit (some ⟨1, 2, 3, 4⟩)).2 openSession []
      [104, 101, 108] cutCalls rfl rfl (by decide +kernel)
  have facts : (run (frameStep (some ⟨1, 2, 3, 4⟩)) ⟨openSession, [], [104, 101, 108],
      [104, 101, 108], none, 0⟩ cutCalls).map (fun s => (s.written, s.data, s.wire)) =
        some (3, [104, 101, 108],
          [129, 131, 1, 2, 3, 4] ++ masked (some ⟨1, 2, 3, 4⟩) [104, 101, 108] 0) := by
    decide +kernel
  rw [ran] at facts
  simp only [Option.map_some, Option.some.injEq, Prod.mk.injEq] at facts
  obtain ⟨written, data, wire⟩ := facts
  obtain ⟨p, w, src, ret, called⟩ :
    ∃ p w src ret, openSession.sendFrame ⟨[], [.accept 7]⟩ opcodeText [[104], [101, 108]]
      true false (some ⟨1, 2, 3, 4⟩) = some (p, w, src, ret) := ⟨_, _, _, _, rfl⟩
  obtain ⟨lengths, rest⟩ :=
    (sendFrame_masks_and_restores Unit Unit (some ⟨1, 2, 3, 4⟩)).1 _ _ _ _ _ _ _ _ _ _ called
  refine ⟨⟨p, w, src, ret, called, lengths, rest⟩, s, ran, written, ?_, wire⟩
  rw [source, written, data]
  rfl

end PushpinWebSocket
