import Pushpin.Core.RingStore
import Pushpin.WebSocket.SendMessage

/-!
`Protocol::recv_message_content` of `connmgr/websocket.rs` and the loop around it
in `connmgr/connection.rs`. Received bytes are unmasked in place before they are
decoded. The decoder of a compressed session is a parameter. A `none` is a panic.
-/
namespace PushpinWebSocket
open PushpinRingBuffer PushpinVectored Slices
variable {ε δ : Type}

/-- `Decoder::decode` with the source bytes, the end flag and the room in the
    destination: the bytes read, the bytes written and whether it is at the end. -/
structure Decoder (δ : Type) where
  decode : δ → List Byte → Bool → Nat → δ × Except ErrorKind (Nat × List Byte × Bool)

/-- What `decode_from_buffer` leaves behind; `masked` is the count that its
    callback keeps. -/
structure Decoded (δ : Type) where
  rbuf : RingBuffer
  dec : δ
  masked : Nat
  result : Except ErrorKind (List Byte × Bool)
  deriving DecidableEq

def preprocess (mask : Option Mask) (maskOffset : Nat) (buf : List Byte) (offset : Nat) :
    List Byte :=
  masked mask buf (maskOffset + offset)

def maskedCount (mask : Option Mask) (buf : List Byte) : Nat :=
  if mask.isSome then buf.length else 0

def decodeFromBuffer (dec : Decoder δ) (st : δ) (src : RingBuffer) (limit : Nat) (end_ : Bool)
    (dest : Nat) (mask : Option Mask) (maskOffset : Nat) : Option (Decoded δ) := do
  let buf ← src.readBuf
  let limit := min limit buf.length
  let buf := preprocess mask maskOffset (buf.take limit) 0
  let src := src.storeBuf buf
  match dec.decode st buf end_ dest with
  | (st, .error kind) => return ⟨src, st, maskedCount mask buf, .error kind⟩
  | (st, .ok (read, written, endAck)) => do
    let src ← src.readCommit read
    let rest ← src.readBuf
    if read ≤ limit ∧ limit - read ≤ rest.length then
      let rest := rest.take (limit - read)
      if endAck = false ∧ read = buf.length ∧ rest ≠ [] then
        let rest := preprocess mask maskOffset rest read
        let src := src.storeBuf rest
        if written.length ≤ dest then
          match dec.decode st rest end_ (dest - written.length) with
          | (st, .error kind) =>
            return ⟨src, st, maskedCount mask buf + maskedCount mask rest, .error kind⟩
          | (st, .ok (read, more, endAck)) => do
            let src ← src.readCommit read
            return ⟨src, st, maskedCount mask buf + maskedCount mask rest,
              .ok (written ++ more, endAck)⟩
        else none
      else return ⟨src, st, maskedCount mask buf, .ok (written, endAck)⟩
    else none

def undoMask (src : RingBuffer) (mask : Option Mask) (offset masked read : Nat) :
    Option RingBuffer :=
  match mask with
  | none => some src
  | some mask =>
    if read ≤ masked then do
      let bufs ← src.readBufs bufferBufsMax
      return src.storeBufs (storeAt bufs 0
        (applyMaskVectored (limit bufs (masked - read)) mask (offset + read)))
    else none

/-- On an error the mask is not undone. -/
def unmaskAndDecode (dec : Decoder δ) (st : δ) (src : RingBuffer) (limit : Nat) (end_ : Bool)
    (mask : Option Mask) (maskOffset dest : Nat) :
    Option (RingBuffer × δ × Except ErrorKind (Nat × List Byte × Bool)) := do
  let d ← decodeFromBuffer dec st src limit end_ dest mask maskOffset
  match d.result with
  | .error kind => return (d.rbuf, d.dec, .error kind)
  | .ok (written, outputEnd) => do
    let read := src.len - d.rbuf.len
    let rbuf ← undoMask d.rbuf mask maskOffset d.masked read
    return (rbuf, d.dec, .ok (read, written, outputEnd))

inductive Received where
  | wait
  | failed (e : Error)
  | got (opcode : Byte) (bytes : List Byte) (done : Bool)
  deriving DecidableEq, Repr

def isControl (opcode : Byte) : Bool := opcode &&& 0x08 ≠ 0

def acceptFrame (message : Option ReceivingMessage) (fi : FrameInfo) :
    Except Error ReceivingMessage :=
  match message with
  | some msg =>
    if fi.opcode ≠ opcodeContinuation then .error .unexpectedOpcode
    else if fi.rsv1 then .error .compressionError
    else .ok { msg with framePayloadRead := 0 }
  | none =>
    if fi.opcode = opcodeContinuation then .error .unexpectedOpcode
    else if isControl fi.opcode ∧
      (fi.payloadSize > controlFramePayloadMax ∨ ¬ fi.fin ∨ fi.rsv1) then
      .error .invalidControlFrame
    else .ok ⟨fi.opcode, 0, if fi.rsv1 then .compressed else .uncompressed⟩

namespace Protocol

def receives (p : Protocol ε δ) : Bool := p.state = .connected || p.state = .closing

def openFrame (p : Protocol ε δ) (rbuf : RingBuffer) :
    Option (Protocol ε δ × RingBuffer × Option Received) :=
  match p.receivingFrame with
  | some _ => some (p, rbuf, none)
  | none => do
    let buf ← rbuf.readBuf
    match readHeader buf with
    | .error .unexpectedEof => return (p, rbuf, some .wait)
    | .error kind => return (p, rbuf, some (.failed (.io kind)))
    | .ok fi => do
      let rbuf ← rbuf.readCommit fi.payloadOffset
      let p := { p with receivingFrame := some fi }
      match acceptFrame p.receivingMessage fi with
      | .error e => return (p, rbuf, some (.failed e))
      | .ok msg => return ({ p with receivingMessage := some msg }, rbuf, none)

def endFrame (p : Protocol ε δ) (fi : FrameInfo) (opcode : Byte) (bytes : List Byte)
    (frameReadEnd : Bool) : Protocol ε δ × Received :=
  let p := if frameReadEnd then { p with receivingFrame := none } else p
  let p := if frameReadEnd ∧ fi.fin then { p with receivingMessage := none } else p
  let p := if frameReadEnd ∧ fi.fin ∧ opcode = opcodeClose then
      { p with state := if p.state = .closing then .finished else .peerClosed }
    else p
  (p, .got opcode bytes p.receivingMessage.isNone)

def recvCompressed (dec : Decoder δ) (p : Protocol ε δ) (rbuf : RingBuffer) (dest : Nat)
    (fi : FrameInfo) (msg : ReceivingMessage) : Option (Protocol ε δ × RingBuffer × Received) :=
  match p.deflateState with
  | none => some (p, rbuf, .failed .compressionError)
  | some state => do
    let left := fi.payloadSize - msg.framePayloadRead
    let limit := min left rbuf.len
    let end_ := decide (msg.framePayloadRead + limit = fi.payloadSize) && fi.fin
    let (rbuf, st, result) ←
      unmaskAndDecode dec state.dec rbuf limit end_ fi.mask msg.framePayloadRead dest
    let p := { p with deflateState := some { state with dec := st } }
    match result with
    | .error kind => return (p, rbuf, .failed (.io kind))
    | .ok (read, written, outputEnd) =>
      let msg := { msg with framePayloadRead := msg.framePayloadRead + read }
      let p := { p with receivingMessage := some msg }
      let frameReadEnd := decide (msg.framePayloadRead = fi.payloadSize) && (!fi.fin || outputEnd)
      if frameReadEnd = false ∧ written = [] ∧ rbuf.len = 0 then return (p, rbuf, .wait)
      else
        let (p, reply) := p.endFrame fi msg.opcode written frameReadEnd
        return (p, rbuf, reply)

def recvPlain (p : Protocol ε δ) (rbuf : RingBuffer) (dest : Nat) (fi : FrameInfo)
    (msg : ReceivingMessage) : Option (Protocol ε δ × RingBuffer × Received) := do
  let buf ← rbuf.readBuf
  let left := fi.payloadSize - msg.framePayloadRead
  if isControl fi.opcode ∧ buf.length < fi.payloadSize then return (p, rbuf, .wait)
  else if left > 0 ∧ buf = [] then return (p, rbuf, .wait)
  else do
    let size := min (min left buf.length) dest
    let bytes := masked fi.mask (buf.take size) msg.framePayloadRead
    let rbuf ← rbuf.readCommit size
    let msg := { msg with framePayloadRead := msg.framePayloadRead + size }
    if msg.framePayloadRead ≤ fi.payloadSize then
      let (p, reply) := { p with receivingMessage := some msg }.endFrame fi msg.opcode bytes
        (decide (msg.framePayloadRead = fi.payloadSize))
      return (p, rbuf, reply)
    else none

def recvMessageContent (dec : Decoder δ) (p : Protocol ε δ) (rbuf : RingBuffer) (dest : Nat) :
    Option (Protocol ε δ × RingBuffer × Received) :=
  if p.receives then do
    let (p, rbuf, reply) ← p.openFrame rbuf
    match reply with
    | some reply => return (p, rbuf, reply)
    | none => do
      let fi ← p.receivingFrame
      let msg ← p.receivingMessage
      if msg.compressionMode = .compressed then p.recvCompressed dec rbuf dest fi msg
      else p.recvPlain rbuf dest fi msg
  else none

/-- Only wrapped bytes are aligned, so the second round is the last. -/
def tryRecvLoop (dec : Decoder δ) (dest : Nat) : Nat → Protocol ε δ → RingBuffer →
    Option (Protocol ε δ × RingBuffer × Received)
  | 0, _, _ => none
  | rounds + 1, p, rbuf => do
    let (p, rbuf, reply) ← p.recvMessageContent dec rbuf dest
    match reply with
    | .wait =>
      if rbuf.isReadableContiguous then return (p, rbuf, .wait)
      else do
        let (rbuf, _) ← rbuf.align
        tryRecvLoop dec dest rounds p rbuf
    | reply => return (p, rbuf, reply)

def tryRecvMessageContent (dec : Decoder δ) (p : Protocol ε δ) (rbuf : RingBuffer) (dest : Nat) :
    Option (Protocol ε δ × RingBuffer × Received) :=
  tryRecvLoop dec dest 2 p rbuf

end Protocol
end PushpinWebSocket
