import Pushpin.WebSocket.Frame

/-!
The protocol object of `connmgr/websocket.rs` and `Protocol::send_frame`. The
source buffers are masked in place, so the functions return them as well. The
encoder and the decoder of a compressed session are parameters. A `none` is a
panic.
-/
namespace PushpinWebSocket
open PushpinRingBuffer PushpinVectored

inductive State where
  | connected
  | peerClosed
  | closing
  | finished
  deriving DecidableEq, Repr

inductive Error where
  | io (kind : ErrorKind)
  | invalidControlFrame
  | unexpectedOpcode
  | compressionError
  deriving DecidableEq, Repr

structure SendingFrame where
  opcode : Byte
  header : List Byte
  payloadSize : Nat
  sent : Nat
  deriving DecidableEq, Repr

structure SendingMessage where
  opcode : Byte
  mask : Option Mask
  frameSent : Bool
  endLen : Option Nat
  encOutputEnd : Bool
  deriving DecidableEq, Repr

inductive CompressionMode where
  | compressed
  | uncompressed
  deriving DecidableEq, Repr

structure ReceivingMessage where
  opcode : Byte
  framePayloadRead : Nat
  compressionMode : CompressionMode
  deriving DecidableEq, Repr

structure DeflateState (ε δ : Type) where
  enc : ε
  dec : δ
  allowTakeover : Bool
  encBuf : RingBuffer
  deriving DecidableEq, Repr

/-- The cells of the protocol object; `sending` and `receiving` are flattened. -/
structure Protocol (ε δ : Type) where
  state : State
  sendingFrame : Option SendingFrame
  sendingMessage : Option SendingMessage
  receivingFrame : Option FrameInfo
  receivingMessage : Option ReceivingMessage
  deflateState : Option (DeflateState ε δ)
  deriving DecidableEq, Repr

def State.sends (state : State) : Bool := state = .connected || state = .peerClosed

/-- `LimitBufsMut::skip`. Without a buffer that reaches the wanted size the
    guard starts at the first buffer. -/
def skip (bufs : List (List Byte)) (size : Nat) : List (List Byte) :=
  (skipFrom bufs size).getD bufs
where
  skipFrom : List (List Byte) → Nat → Option (List (List Byte))
    | [], _ => none
    | buf :: bufs, size =>
      if buf.length ≥ size then some (buf.drop size :: bufs) else skipFrom bufs (size - buf.length)

def recut : List (List Byte) → List Byte → List (List Byte)
  | [], _ => []
  | buf :: bufs, bytes => bytes.take buf.length :: recut bufs (bytes.drop buf.length)

def storeAt (bufs : List (List Byte)) (offset : Nat) (part : List (List Byte)) : List (List Byte) :=
  recut bufs (bufs.flatten.take offset ++ (part.flatten ++
    bufs.flatten.drop (offset + part.flatten.length)))

/-- `f` returns how many bytes to leave masked. -/
def withMask {ρ : Type} (src : List (List Byte)) (mask : Option Mask) (maskOffset : Nat)
    (f : List (List Byte) → Nat × ρ) : List (List Byte) × ρ :=
  match mask with
  | none => (src, (f src).2)
  | some mask =>
    let src := applyMaskVectored src mask maskOffset
    let (skipUnmask, ret) := f src
    (storeAt src skipUnmask
      (applyMaskVectored (skip src skipUnmask) mask (maskOffset + skipUnmask)), ret)

def currentFrame (frame : Option SendingFrame) (opcode : Byte) (srcLen : Nat) (fin rsv1 : Bool)
    (mask : Option Mask) : Except ErrorKind SendingFrame :=
  match frame with
  | some frame => .ok frame
  | none =>
    match writeHeader fin rsv1 opcode srcLen mask (List.replicate headerSizeMax 0) with
    | .error kind => .error kind
    | .ok (header, size) => .ok ⟨opcode, header.take size, srcLen, 0⟩

def offerFrame (w : Writer) (frame : SendingFrame) (headerRemaining : Nat)
    (src : List (List Byte)) : Nat × Writer × Except ErrorKind Nat :=
  let out := (if headerRemaining > 0 then [frame.header.drop frame.sent] else []) ++ src
  let (w, ret) := writeVectoredOffset w out 0
  let size := match ret with
    | .ok size => size
    | .error _ => 0
  (size - headerRemaining, w, ret)

def Protocol.frameSent {ε δ : Type} (p : Protocol ε δ) (opcode : Byte) : Protocol ε δ :=
  if opcode = opcodeClose then
    { p with
      sendingFrame := none
      state := if p.state = .peerClosed then .finished else .closing }
  else { p with sendingFrame := none }

def Protocol.sendFrame {ε δ : Type} (p : Protocol ε δ) (w : Writer) (opcode : Byte)
    (src : List (List Byte)) (fin rsv1 : Bool) (mask : Option Mask) :
    Option (Protocol ε δ × Writer × List (List Byte) × Except Error Nat) :=
  if ¬ p.state.sends then none
  else
    let (view, capped) := capBufs src sendFrameBufsMax
    match currentFrame p.sendingFrame opcode view.flatten.length (fin && !capped) rsv1 mask with
    | .error kind => some (p, w, src, .error (.io kind))
    | .ok frame =>
      let (headerRemaining, payloadSent) :=
        if frame.sent < frame.header.length then (frame.header.length - frame.sent, 0)
        else (0, frame.sent - frame.header.length)
      if ¬ payloadSent ≤ frame.payloadSize then none
      else
        let (view, w, ret) :=
          withMask (limit view (frame.payloadSize - payloadSent)) mask payloadSent
            (offerFrame w frame headerRemaining)
        let src := storeAt src 0 view
        match ret with
        | .error kind => some ({ p with sendingFrame := some frame }, w, src, .error (.io kind))
        | .ok size =>
          let sent := frame.sent + size
          if ¬ sent ≤ frame.header.length + frame.payloadSize then none
          else if sent < frame.header.length then
            some ({ p with sendingFrame := some { frame with sent } }, w, src, .ok 0)
          else
            let payloadWritten := sent - frame.header.length - payloadSent
            if sent = frame.header.length + frame.payloadSize then
              some (p.frameSent frame.opcode, w, src, .ok payloadWritten)
            else some ({ p with sendingFrame := some { frame with sent } }, w, src,
              .ok payloadWritten)

theorem recut_flatten (bufs : List (List Byte)) {bytes : List Byte}
    (same : bytes.length = bufs.flatten.length) : (recut bufs bytes).flatten = bytes := by
  induction bufs generalizing bytes with
  | nil => exact (List.length_eq_zero_iff.mp same).symm
  | cons buf bufs ih =>
    rw [List.flatten_cons, List.length_append] at same
    simp only [recut, List.flatten_cons]
    rw [ih (by rw [List.length_drop]; omega), List.take_append_drop]

theorem storeAt_flatten (bufs part : List (List Byte)) {offset : Nat}
    (inside : offset + part.flatten.length ≤ bufs.flatten.length) :
    (storeAt bufs offset part).flatten = bufs.flatten.take offset ++ (part.flatten ++
      bufs.flatten.drop (offset + part.flatten.length)) := by
  unfold storeAt
  apply recut_flatten
  simp only [List.length_append, List.length_take, List.length_drop]
  omega

theorem recut_lengths (bufs : List (List Byte)) {bytes : List Byte}
    (same : bytes.length = bufs.flatten.length) :
    (recut bufs bytes).map List.length = bufs.map List.length := by
  induction bufs generalizing bytes with
  | nil => rfl
  | cons buf bufs ih =>
    rw [List.flatten_cons, List.length_append] at same
    simp only [recut, List.map_cons]
    rw [ih (by rw [List.length_drop]; omega), List.length_take, Nat.min_eq_left (by omega)]

theorem storeAt_front {src part view : List (List Byte)} {kept : Nat}
    (begins : part.flatten <+: src.flatten) (length : view.flatten.length = part.flatten.length)
    (short : kept ≤ part.flatten.length) (same : view.flatten.drop kept = part.flatten.drop kept) :
    (storeAt src 0 view).map List.length = src.map List.length ∧
      (storeAt src 0 view).flatten.drop kept = src.flatten.drop kept := by
  have fits := begins.length_le
  constructor
  · unfold storeAt
    apply recut_lengths
    simp only [List.length_append, List.length_take, List.length_drop]
    omega
  · rw [storeAt_flatten src view (by omega), List.take_zero, List.nil_append, Nat.zero_add,
      List.drop_append_of_le_length (by omega), same, length]
    obtain ⟨rest, eq⟩ := begins
    rw [← eq, List.drop_left, List.drop_append_of_le_length short]

theorem skip_flatten (bufs : List (List Byte)) {size : Nat} (inside : size ≤ bufs.flatten.length) :
    (skip bufs size).flatten = bufs.flatten.drop size := by
  have found : ∀ (bufs : List (List Byte)) (size : Nat), bufs ≠ [] → size ≤ bufs.flatten.length →
      ∃ rest, skip.skipFrom bufs size = some rest ∧ rest.flatten = bufs.flatten.drop size := by
    intro bufs
    induction bufs with
    | nil =>
      intro size filled
      exact absurd rfl filled
    | cons buf bufs ih =>
      intro size _ inside
      rw [List.flatten_cons, List.length_append] at inside
      by_cases reach : buf.length ≥ size
      · refine ⟨buf.drop size :: bufs, by simp only [skip.skipFrom, if_pos reach], ?_⟩
        rw [List.flatten_cons, List.flatten_cons, List.drop_append_of_le_length reach]
      · have more : bufs ≠ [] := by
          intro empty
          rw [empty, List.flatten_nil, List.length_nil] at inside
          omega
        obtain ⟨rest, skipped, bytes⟩ := ih (size - buf.length) more (by omega)
        refine ⟨rest, by simp only [skip.skipFrom, if_neg reach, skipped], ?_⟩
        have past : buf.drop size = [] := List.drop_eq_nil_of_le (by omega)
        rw [bytes, List.flatten_cons, List.drop_append, past, List.nil_append]
  unfold skip
  cases bufs with
  | nil => simp [skip.skipFrom]
  | cons buf bufs =>
    obtain ⟨rest, skipped, bytes⟩ := found (buf :: bufs) size (by simp) inside
    rw [skipped]
    exact bytes

def maskedBufs (mask : Option Mask) (src : List (List Byte)) (offset : Nat) : List (List Byte) :=
  match mask with
  | none => src
  | some mask => applyMaskVectored src mask offset

theorem maskedBufs_flatten (mask : Option Mask) (src : List (List Byte)) (offset : Nat) :
    (maskedBufs mask src offset).flatten = masked mask src.flatten offset := by
  cases mask with
  | none => rfl
  | some mask => exact applyMaskVectored_flatten src mask offset

theorem withMask_spec {ρ : Type} (src : List (List Byte)) (mask : Option Mask) (offset : Nat)
    (f : List (List Byte) → Nat × ρ)
    (inside : (f (maskedBufs mask src offset)).1 ≤ src.flatten.length) :
    (withMask src mask offset f).2 = (f (maskedBufs mask src offset)).2 ∧
      (withMask src mask offset f).1.flatten.length = src.flatten.length ∧
      (withMask src mask offset f).1.flatten.drop (f (maskedBufs mask src offset)).1 =
        src.flatten.drop (f (maskedBufs mask src offset)).1 := by
  cases mask with
  | none => exact ⟨rfl, rfl, rfl⟩
  | some mask =>
    simp only [maskedBufs] at inside ⊢
    simp only [withMask]
    generalize (f (applyMaskVectored src mask offset)).1 = kept at inside ⊢
    have whole := applyMaskVectored_flatten src mask offset
    have length : (applyMaskVectored src mask offset).flatten.length = src.flatten.length := by
      rw [whole, applyMask_length]
    -- the masked bytes, cut where the unmasking starts
    have cut : applyMask src.flatten mask offset = applyMask (src.flatten.take kept) mask offset ++
        applyMask (src.flatten.drop kept) mask (offset + kept) := by
      have split := applyMask_append (src.flatten.take kept) (src.flatten.drop kept) mask offset
      rw [List.take_append_drop, List.length_take, Nat.min_eq_left inside] at split
      exact split
    have front : (applyMask (src.flatten.take kept) mask offset).length = kept := by
      rw [applyMask_length, List.length_take, Nat.min_eq_left inside]
    have back : (applyMaskVectored (skip (applyMaskVectored src mask offset) kept) mask
        (offset + kept)).flatten = src.flatten.drop kept := by
      rw [applyMaskVectored_flatten, skip_flatten _ (by rw [length]; exact inside), whole, cut,
        List.drop_left' front, applyMask_applyMask]
    have stored := storeAt_flatten (applyMaskVectored src mask offset)
      (applyMaskVectored (skip (applyMaskVectored src mask offset) kept) mask (offset + kept))
      (by rw [back, length, List.length_drop]; omega : kept + _ ≤ _)
    have none_left :
        (applyMask src.flatten mask offset).drop (kept + (src.flatten.drop kept).length) = [] := by
      apply List.drop_eq_nil_of_le
      rw [applyMask_length, List.length_drop]
      omega
    rw [back, whole, none_left, List.append_nil] at stored
    rw [stored]
    have taken : ((applyMask src.flatten mask offset).take kept).length = kept := by
      rw [List.length_take, applyMask_length, Nat.min_eq_left inside]
    refine ⟨trivial, ?_, List.drop_left' taken⟩
    rw [List.length_append, taken, List.length_drop]
    omega

theorem offerFrame_spec (w : Writer) (frame : SendingFrame) (src : List (List Byte)) :
    (∃ kind schedule, offerFrame w frame (frame.header.length - frame.sent) src =
      (0, ⟨w.wire, schedule⟩, .error kind)) ∨
    ∃ size schedule, size ≤ (frame.header.drop frame.sent ++ src.flatten).length ∧
      offerFrame w frame (frame.header.length - frame.sent) src =
        (size - (frame.header.length - frame.sent),
          ⟨w.wire ++ (frame.header.drop frame.sent ++ src.flatten).take size, schedule⟩,
            .ok size) := by
  have bytes :
    ((if frame.header.length - frame.sent > 0 then [frame.header.drop frame.sent] else []) ++
      src).flatten = frame.header.drop frame.sent ++ src.flatten := by
    rw [List.flatten_append]
    congr 1
    split
    · rw [List.flatten_singleton]
    · rw [List.flatten_nil, List.drop_eq_nil_of_le (by omega)]
  unfold offerFrame
  simp only
  generalize (if frame.header.length - frame.sent > 0 then [frame.header.drop frame.sent]
    else []) ++ src = out at bytes ⊢
  rw [← bytes]
  by_cases some : 0 < out.flatten.length
  · rw [writeVectoredOffset_inside w out some, List.drop_zero]
    rcases writeVectored_cases w out.flatten with
      ⟨kind, schedule, _, failed⟩ | ⟨count, rest, _, took⟩
    · left
      exact ⟨kind, schedule, by rw [failed]; simp⟩
    · right
      refine ⟨min count out.flatten.length, rest, Nat.min_le_right _ _, ?_⟩
      rw [took]
      simp only [List.take_eq_take_min (i := count)]
  · rcases writeVectoredOffset_outside w out (Nat.le_of_not_lt some) with stopped | ⟨kind, failed⟩
    · right
      refine ⟨0, w.schedule, Nat.zero_le _, ?_⟩
      rw [stopped]
      simp
    · left
      refine ⟨kind, w.schedule, ?_⟩
      rw [failed]
      simp

def wholeFrame (frame : SendingFrame) (mask : Option Mask) (payload : List Byte) : List Byte :=
  frame.header ++ masked mask payload 0

theorem wholeFrame_drop (frame : SendingFrame) (mask : Option Mask) (consumed rest : List Byte)
    (sent : consumed.length = frame.sent - frame.header.length) :
    (wholeFrame frame mask (consumed ++ rest)).drop frame.sent =
      frame.header.drop frame.sent ++ masked mask rest consumed.length := by
  have front : (masked mask consumed 0).length = frame.sent - frame.header.length := by
    rw [masked_length, sent]
  unfold wholeFrame
  rw [List.drop_append, masked_append, List.drop_left' front, Nat.zero_add]

theorem masked_begins {front back : List Byte} (begins : front <+: back) (mask : Option Mask)
    (offset : Nat) : masked mask front offset <+: masked mask back offset := by
  obtain ⟨rest, rfl⟩ := begins
  rw [masked_append]
  exact List.prefix_append _ _

theorem sendFrame_spec {ε δ : Type} {p : Protocol ε δ} {w : Writer} {opcode : Byte}
    {src : List (List Byte)} {fin rsv1 : Bool} {mask : Option Mask} {frame : SendingFrame}
    {base consumed payload : List Byte} (ready : p.state.sends = true)
    (cur : currentFrame p.sendingFrame opcode (capBufs src sendFrameBufsMax).1.flatten.length
      (fin && !(capBufs src sendFrameBufsMax).2) rsv1 mask = .ok frame)
    (before : consumed.length = frame.sent - frame.header.length)
    (whole : payload = consumed ++ src.flatten.take (frame.payloadSize - consumed.length))
    (size : payload.length = frame.payloadSize)
    (unsent : frame.sent < frame.header.length + frame.payloadSize)
    (wire : w.wire = base ++ (wholeFrame frame mask payload).take frame.sent) :
    (∃ kind schedule src', p.sendFrame w opcode src fin rsv1 mask =
        some ({ p with sendingFrame := some frame }, ⟨w.wire, schedule⟩, src', .error (.io kind)) ∧
      src'.flatten = src.flatten) ∨
    (∃ sent schedule src', frame.sent ≤ sent ∧ sent < frame.header.length + frame.payloadSize ∧
      p.sendFrame w opcode src fin rsv1 mask =
        some ({ p with sendingFrame := some { frame with sent } },
          ⟨base ++ (wholeFrame frame mask payload).take sent, schedule⟩, src',
          .ok (sent - frame.header.length - consumed.length)) ∧
      src'.flatten.drop (sent - frame.header.length - consumed.length) =
        src.flatten.drop (sent - frame.header.length - consumed.length)) ∨
    (∃ schedule src', p.sendFrame w opcode src fin rsv1 mask =
        some (p.frameSent frame.opcode, ⟨base ++ wholeFrame frame mask payload, schedule⟩, src',
          .ok (frame.payloadSize - consumed.length)) ∧
      src'.flatten.drop (frame.payloadSize - consumed.length) =
        src.flatten.drop (frame.payloadSize - consumed.length)) := by
  obtain ⟨front, _⟩ := capBufs_flatten src sendFrameBufsMax
  have total :
      (wholeFrame frame mask payload).length = frame.header.length + frame.payloadSize := by
    unfold wholeFrame
    rw [List.length_append, masked_length, size]
  have split : (if frame.sent < frame.header.length then (frame.header.length - frame.sent, 0)
      else (0, frame.sent - frame.header.length)) =
      (frame.header.length - frame.sent, consumed.length) := by
    rw [before]
    split
    · rw [Nat.sub_eq_zero_of_le (by omega : frame.sent ≤ frame.header.length)]
    · rw [Nat.sub_eq_zero_of_le (by omega : frame.header.length ≤ frame.sent)]
  have within : consumed.length ≤ frame.payloadSize := by omega
  unfold Protocol.sendFrame
  rw [if_neg (not_not.mpr ready)]
  generalize capBufs src sendFrameBufsMax = cap at cur front ⊢
  obtain ⟨view, capped⟩ := cap
  simp only at cur front ⊢
  rw [cur]
  simp only [split, within, not_true_eq_false, if_false]
  -- the bytes offered are the next ones of the frame
  have limited : (limit view (frame.payloadSize - consumed.length)).flatten <+:
      src.flatten.take (frame.payloadSize - consumed.length) := by
    rw [limit_flatten]
    exact List.prefix_take_iff.mpr ⟨(List.take_prefix _ _).trans front, List.length_take_le _ _⟩
  generalize limit view (frame.payloadSize - consumed.length) = part at limited ⊢
  have next : frame.header.drop frame.sent ++ masked mask part.flatten consumed.length <+:
      (wholeFrame frame mask payload).drop frame.sent := by
    rw [whole, wholeFrame_drop frame mask _ _ before]
    exact (List.prefix_append_right_inj _).mpr (masked_begins limited mask _)
  have begins : part.flatten <+: src.flatten := limited.trans (List.take_prefix _ _)
  have offered := offerFrame_spec w frame (maskedBufs mask part consumed.length)
  rw [maskedBufs_flatten] at offered
  rcases offered with ⟨kind, schedule, refused⟩ | ⟨count, schedule, most, took⟩
  · left
    obtain ⟨answer, length, same⟩ := withMask_spec part mask consumed.length
      (offerFrame w frame (frame.header.length - frame.sent)) (by rw [refused]; exact Nat.zero_le _)
    rw [refused] at answer same
    generalize withMask part mask consumed.length
      (offerFrame w frame (frame.header.length - frame.sent)) = result at answer length same ⊢
    obtain ⟨view', ret⟩ := result
    simp only at answer length same
    subst answer
    refine ⟨kind, schedule, storeAt src 0 view', rfl, ?_⟩
    have restored := (storeAt_front begins length (Nat.zero_le _) same).2
    simpa using restored
  · right
    have kept : count - (frame.header.length - frame.sent) =
        frame.sent + count - frame.header.length - consumed.length := by
      omega
    have short : count - (frame.header.length - frame.sent) ≤ part.flatten.length := by
      simp only [List.length_append, List.length_drop, masked_length] at most
      omega
    obtain ⟨answer, length, same⟩ := withMask_spec part mask consumed.length
      (offerFrame w frame (frame.header.length - frame.sent)) (by rw [took]; exact short)
    rw [took] at answer same
    generalize withMask part mask consumed.length
      (offerFrame w frame (frame.header.length - frame.sent)) = result at answer length same ⊢
    obtain ⟨view', ret⟩ := result
    simp only at answer length same
    subst answer
    have restored := (storeAt_front begins length short same).2
    rw [kept] at restored
    have reach : frame.sent + count ≤ frame.header.length + frame.payloadSize := by
      have fits := Nat.le_trans most next.length_le
      rw [List.length_drop, total] at fits
      omega
    have grown : w.wire ++ (frame.header.drop frame.sent ++
        masked mask part.flatten consumed.length).take count =
        base ++ (wholeFrame frame mask payload).take (frame.sent + count) := by
      obtain ⟨rest, eq⟩ := next
      rw [wire, List.append_assoc, List.take_add, ← eq, List.take_append_of_le_length most]
    simp only [grown, reach, not_true_eq_false, if_false]
    by_cases all : frame.sent + count = frame.header.length + frame.payloadSize
    · right
      have counted : frame.sent + count - frame.header.length - consumed.length =
          frame.payloadSize - consumed.length := by
        omega
      rw [counted] at restored
      refine ⟨schedule, storeAt src 0 view', ?_, restored⟩
      rw [if_neg (by omega), if_pos all, counted, all, ← total, List.take_length]
    · left
      refine ⟨frame.sent + count, schedule, storeAt src 0 view', by omega, by omega, ?_, restored⟩
      by_cases header : frame.sent + count < frame.header.length
      · have nothing : frame.sent + count - frame.header.length - consumed.length = 0 := by omega
        rw [if_pos header, nothing]
      · rw [if_neg header, if_neg all]

end PushpinWebSocket
