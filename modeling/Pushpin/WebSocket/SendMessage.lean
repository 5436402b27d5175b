import Pushpin.Core.Caller
import Pushpin.Core.RingStore
import Pushpin.WebSocket.SendFrame

/-!
`Protocol::send_message_start` and `Protocol::send_message_content`, and runs of
a caller that keeps what was not consumed. The encoder of a compressed session
is a parameter. A frame in flight keeps the FIN bit it was started with, so a
message whose end becomes known while its last bytes are in flight is reported
as done without a final frame.
-/
namespace PushpinWebSocket
open PushpinRingBuffer PushpinVectored PushpinCaller Runs

def bufferBufsMax : Nat := 2

structure Encoder (ε : Type) where
  encodeToRingbuffer : ε → List Byte → Bool → RingBuffer →
    Option (ε × RingBuffer × Except ErrorKind (Nat × Bool))
  reset : ε → ε

def SendingMessage.isControl (msg : SendingMessage) : Bool := msg.opcode &&& 0x08 ≠ 0

def SendingMessage.noteEnd (msg : SendingMessage) (srcLen : Nat) (ended : Bool) :
    Option SendingMessage :=
  match msg.endLen with
  | some endLen => if ended ∧ srcLen = endLen then some msg else none
  | none => some (if ended then { msg with endLen := some srcLen } else msg)

def SendingMessage.lowerEnd (msg : SendingMessage) (read : Nat) : Option SendingMessage :=
  match msg.endLen with
  | some endLen => if read ≤ endLen then some { msg with endLen := some (endLen - read) } else none
  | none => some msg

def encodeSrc {ε : Type} (c : Encoder ε) (ended : Bool) : List (List Byte) → ε → RingBuffer → Nat →
    Bool → Option (ε × RingBuffer × Except ErrorKind (Nat × Bool))
  | [], enc, ring, read, outputEnd => some (enc, ring, .ok (read, outputEnd))
  | buf :: bufs, enc, ring, read, _ => do
    let (enc, ring, result) ← c.encodeToRingbuffer enc buf (ended && bufs.isEmpty) ring
    match result with
    | .error kind => return (enc, ring, .error kind)
    | .ok (r, outputEnd) =>
      if r < buf.length ∨ outputEnd then return (enc, ring, .ok (read + r, outputEnd))
      else encodeSrc c ended bufs enc ring (read + r) outputEnd

namespace Protocol
variable {ε δ : Type}

def sendMessageStart (p : Protocol ε δ) (opcode : Byte) (mask : Option Mask) :
    Option (Protocol ε δ) :=
  if ¬ p.state.sends ∨ p.sendingMessage.isSome then none
  else some { p with sendingMessage := some ⟨opcode, mask, false, none, false⟩ }

def endMessage (c : Encoder ε) (p : Protocol ε δ) (sentAll : Bool) : Protocol ε δ :=
  if sentAll ∧ p.sendingFrame.isNone then
    { p with
      sendingMessage := none
      deflateState := p.deflateState.map fun state =>
        if state.allowTakeover then state else { state with enc := c.reset state.enc } }
  else p

def sendPlain (c : Encoder ε) (p : Protocol ε δ) (w : Writer) (msg : SendingMessage) (opcode : Byte)
    (src : List (List Byte)) (ended : Bool) :
    Option (Protocol ε δ × Writer × List (List Byte) × Except Error (Nat × Bool)) := do
  let srcLen := src.flatten.length
  let (p, w, src, result) ← p.sendFrame w opcode src ended false msg.mask
  match result with
  | .error e => return (p, w, src, .error e)
  | .ok read =>
    let msg ← msg.lowerEnd read
    let p := { p with sendingMessage := some { msg with frameSent := true } }
    let p := p.endMessage c (ended && read = srcLen)
    return (p, w, src, .ok (read, p.sendingMessage.isNone))

def encodeMessage (c : Encoder ε) (state : DeflateState ε δ) (msg : SendingMessage)
    (src : List (List Byte)) (ended : Bool) :
    Option (DeflateState ε δ × Except ErrorKind (Nat × Bool)) := do
  if msg.encOutputEnd then return (state, .ok (0, true))
  else if src.flatten.length > 0 then
    let (enc, encBuf, result) ← encodeSrc c ended src state.enc state.encBuf 0 false
    return ({ state with enc, encBuf }, result)
  else
    let (enc, encBuf, result) ← c.encodeToRingbuffer state.enc [] ended state.encBuf
    return ({ state with enc, encBuf },
      match result with
      | .error kind => .error kind
      | .ok (_, outputEnd) => .ok (0, outputEnd))

def sendEncoded (p : Protocol ε δ) (w : Writer) (state : DeflateState ε δ) (msg : SendingMessage)
    (opcode : Byte) : Option (Protocol ε δ × Writer × Except Error Bool) := do
  let bufs ← state.encBuf.readBufs bufferBufsMax
  let (p, w, bufs, result) ←
    p.sendFrame w opcode bufs msg.encOutputEnd (decide (opcode ≠ opcodeContinuation)) msg.mask
  let encBuf := state.encBuf.storeBufs bufs
  match result with
  | .error e => return ({ p with deflateState := some { state with encBuf } }, w, .error e)
  | .ok size =>
    let encBuf ← encBuf.readCommit size
    return ({ p with
        sendingMessage := some { msg with frameSent := true }
        deflateState := some { state with encBuf } }, w,
      .ok (msg.encOutputEnd && encBuf.len = 0))

def sendCompressed (c : Encoder ε) (p : Protocol ε δ) (w : Writer) (state : DeflateState ε δ)
    (msg : SendingMessage) (opcode : Byte) (src : List (List Byte)) (ended : Bool) :
    Option (Protocol ε δ × Writer × List (List Byte) × Except Error (Nat × Bool)) := do
  let srcLen := src.flatten.length
  let (state, result) ← encodeMessage c state msg src ended
  let p := { p with deflateState := some state }
  match result with
  | .error kind => return (p, w, src, .error (.io kind))
  | .ok (read, outputEnd) =>
    if outputEnd ∧ read ≠ srcLen then none
    else do
      let msg ← { msg with encOutputEnd := outputEnd }.lowerEnd read
      let p := { p with sendingMessage := some msg }
      if read = 0 ∧ (0 < state.encBuf.len ∨ outputEnd) then do
        let (p, w, result) ← p.sendEncoded w state msg opcode
        match result with
        | .error e => return (p, w, src, .error e)
        | .ok sentAll =>
          let p := p.endMessage c sentAll
          return (p, w, src, .ok (read, p.sendingMessage.isNone))
      else return (p, w, src, .ok (read, p.sendingMessage.isNone))

def sendMessageContent (c : Encoder ε) (p : Protocol ε δ) (w : Writer) (src : List (List Byte))
    (ended : Bool) :
    Option (Protocol ε δ × Writer × List (List Byte) × Except Error (Nat × Bool)) :=
  if ¬ p.state.sends then none
  else do
    let msg ← p.sendingMessage
    let msg ← msg.noteEnd src.flatten.length ended
    let p := { p with sendingMessage := some msg }
    if msg.isControl ∧ (src.flatten.length > controlFramePayloadMax ∨ ¬ ended) then
      return (p, w, src, .error .invalidControlFrame)
    else
      let opcode := if msg.frameSent then opcodeContinuation else msg.opcode
      match p.deflateState, msg.isControl with
      | some state, false => p.sendCompressed c w state msg opcode src ended
      | _, _ => p.sendPlain c w msg opcode src ended

end Protocol

def messageReply : Except Error (Nat × Bool) → Reply
  | .ok (read, true) => .finished read
  | .ok (read, false) => .consumed read
  | .error _ => .failed

section
variable {ε δ : Type}

def messageStep (c : Encoder ε) : Caller (Protocol ε δ) → CallEvent →
    Option (Caller (Protocol ε δ)) :=
  Caller.step fun p w bufs ended =>
    (p.sendMessageContent c w bufs ended).map fun (p, w, src, result) =>
      (p, w, src, messageReply result)

/-- Calls are made in the states that allow them, and lengths are a `usize`. -/
def permitted (s : Caller (Protocol ε δ)) (event : CallEvent) : Bool :=
  s.allowed event &&
    match event with
    | .append data => decide ((s.pending ++ data).length < 2 ^ 64)
    | .finish => true
    | .send _ _ => s.protocol.state.sends

def SendingFrame.lacksFin (frame : SendingFrame) : Bool :=
  match frame.header with
  | b0 :: _ => decide (b0 &&& 0x80 = 0)
  | [] => true

def SendingFrame.payloadLeft (frame : SendingFrame) : Nat :=
  frame.payloadSize - (frame.sent - frame.header.length)

/-- The call has the end of the message, and the frame it works on takes all of
    the bytes without a FIN bit: a frame in flight that was started before the
    end, or a new one from the first eight of more buffers. -/
def endsUnmarked (frame : Option SendingFrame) (bufs : List (List Byte)) (ended : Bool) : Bool :=
  ended &&
    match frame with
    | some frame => frame.lacksFin && frame.payloadLeft = bufs.flatten.length
    | none => (capBufs bufs sendFrameBufsMax).2 &&
        (capBufs bufs sendFrameBufsMax).1.flatten.length = bufs.flatten.length

def marked (s : Caller (Protocol ε δ)) (event : CallEvent) : Bool :=
  permitted s event &&
    match event with
    | .send bufs _ => !endsUnmarked s.protocol.sendingFrame bufs s.ended
    | _ => true

end

def messageOpcodes (opcode : Byte) : Nat → List Byte
  | 0 => []
  | count + 1 => opcode :: List.replicate count opcodeContinuation

/-- The bytes parse as the frames of one message with this content: the first
    frame has the opcode, the others continue it, and exactly the last is final. -/
def IsMessage (opcode : Byte) (content wire : List Byte) : Prop :=
  ∃ frames, parseFrames wire = some frames ∧ (frames.map Frame.payload).flatten = content ∧
    frames.map Frame.opcode = messageOpcodes opcode frames.length ∧
    frames.map Frame.fin = List.replicate (frames.length - 1) false ++ [true]

def nextOpcode (opcode : Byte) (frames : List Frame) : Byte :=
  if frames = [] then opcode else opcodeContinuation

theorem messageOpcodes_succ (opcode : Byte) (frames : List Frame) :
    messageOpcodes opcode (frames.length + 1) =
      messageOpcodes opcode frames.length ++ [nextOpcode opcode frames] := by
  cases frames with
  | nil => rfl
  | cons f frames =>
    simp only [messageOpcodes, nextOpcode, List.length_cons, List.cons_append,
      if_neg (List.cons_ne_nil f frames)]
    rw [List.replicate_succ']

structure Opening (opcode : Byte) (frames : List Frame) : Prop where
  opcodes : frames.map Frame.opcode = messageOpcodes opcode frames.length
  open_ : frames.map Frame.fin = List.replicate frames.length false
  fits : ∀ f ∈ frames, f.opcode < 16 ∧ f.payload.length < 2 ^ 64

theorem Opening.nil (opcode : Byte) : Opening opcode [] := ⟨rfl, rfl, by simp⟩

theorem nextOpcode_small {opcode : Byte} (small : opcode < 16) (frames : List Frame) :
    nextOpcode opcode frames < 16 := by
  unfold nextOpcode
  split
  · exact small
  · decide

section
variable {opcode : Byte} {frames : List Frame} (opening : Opening opcode frames)
  (small : opcode < 16)
include opening small

theorem Opening.snoc {payload : List Byte} (fits : payload.length < 2 ^ 64) :
    Opening opcode (frames ++ [⟨false, false, nextOpcode opcode frames, payload⟩]) := by
  refine ⟨?_, ?_, ?_⟩
  · rw [List.map_append, opening.opcodes, List.length_append, List.length_singleton,
      messageOpcodes_succ]
    rfl
  · rw [List.map_append, opening.open_, List.length_append, List.length_singleton,
      List.replicate_succ']
    rfl
  · intro f mem
    rcases List.mem_append.mp mem with old | new
    · exact opening.fits f old
    · rw [List.mem_singleton.mp new]
      exact ⟨nextOpcode_small small frames, fits⟩

theorem Opening.ends (mask : Option Mask) {payload : List Byte}
    (fits : payload.length < 2 ^ 64) :
    IsMessage opcode ((frames.map Frame.payload).flatten ++ payload)
      (encodedFrames mask frames ++
        encodedFrame mask ⟨true, false, nextOpcode opcode frames, payload⟩) := by
  refine ⟨frames ++ [⟨true, false, nextOpcode opcode frames, payload⟩], ?_, ?_, ?_, ?_⟩
  · have parsed := parseFrames_encodedFrames mask
      (frames ++ [⟨true, false, nextOpcode opcode frames, payload⟩]) (by
        intro f mem
        rcases List.mem_append.mp mem with old | new
        · exact opening.fits f old
        · rw [List.mem_singleton.mp new]
          exact ⟨nextOpcode_small small frames, fits⟩)
    simpa [encodedFrames] using parsed
  · simp
  · rw [List.map_append, opening.opcodes, List.length_append, List.length_singleton,
      messageOpcodes_succ]
    rfl
  · rw [List.map_append, opening.open_, List.length_append, List.length_singleton,
      Nat.add_sub_cancel]
    rfl

end

/-- How a frame in flight stands to the pending bytes; the caller has removed
    the `consumed` part of its payload. -/
structure InFlight (opcode : Byte) (mask : Option Mask) (frames : List Frame) (pending : List Byte)
    (ended : Bool) (frame : SendingFrame) (consumed : List Byte) (fin : Bool) : Prop where
  header : frame.header =
    headerBytes fin false (nextOpcode opcode frames) frame.payloadSize mask
  opcode : frame.opcode = nextOpcode opcode frames
  before : consumed.length = frame.sent - frame.header.length
  held : frame.payloadSize ≤ consumed.length + pending.length
  unsent : frame.sent < frame.header.length + frame.payloadSize
  fits : frame.payloadSize < 2 ^ 64
  last : fin = true → ended = true ∧ frame.payloadSize = consumed.length + pending.length

def flightPayload (frame : SendingFrame) (consumed pending : List Byte) : List Byte :=
  consumed ++ pending.take (frame.payloadSize - consumed.length)

inductive OnWire (opcode : Byte) (mask : Option Mask) (frames : List Frame) (pending : List Byte)
    (ended : Bool) : Option SendingFrame → List Byte → List Byte → Prop where
  | idle : OnWire opcode mask frames pending ended none [] []
  | flying {frame : SendingFrame} {consumed : List Byte} {fin : Bool}
      (inFlight : InFlight opcode mask frames pending ended frame consumed fin) :
      OnWire opcode mask frames pending ended (some frame)
        ((wholeFrame frame mask (flightPayload frame consumed pending)).take frame.sent) consumed

end PushpinWebSocket
