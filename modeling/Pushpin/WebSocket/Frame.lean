import Pushpin.Core.VectoredWrite
import Pushpin.Foundations.BigEndian

namespace PushpinWebSocket
open PushpinRingBuffer PushpinVectored

def headerSizeMax : Nat := 14
def psize3Byte : Nat := 126
def psize9Byte : Nat := 65536

def opcodeContinuation : Byte := 0
def opcodeText : Byte := 1
def opcodeClose : Byte := 8

def controlFramePayloadMax : Nat := 125
def sendFrameBufsMax : Nat := 8

structure Mask where
  b0 : Byte
  b1 : Byte
  b2 : Byte
  b3 : Byte
  deriving DecidableEq, Repr

def Mask.bytes (mask : Mask) : List Byte := [mask.b0, mask.b1, mask.b2, mask.b3]

def Mask.at (mask : Mask) (index : Nat) : Byte :=
  match index % 4 with
  | 0 => mask.b0
  | 1 => mask.b1
  | 2 => mask.b2
  | _ => mask.b3

structure FrameInfo where
  fin : Bool
  rsv1 : Bool
  opcode : Byte
  mask : Option Mask
  payloadOffset : Nat
  payloadSize : Nat
  deriving DecidableEq, Repr

def headerSize (payloadSize : Nat) (masked : Bool) : Nat :=
  let size := if payloadSize < psize3Byte then 2 else if payloadSize < psize9Byte then 4 else 10
  if masked then size + 4 else size

def readLength (buf : List Byte) (b1 : Byte) : Except ErrorKind (Nat × Nat) :=
  if b1 &&& 0x7f < 126 then .ok (2, (b1 &&& 0x7f).toNat)
  else if b1 &&& 0x7f = 126 then
    if buf.length < 4 then .error .unexpectedEof
    else .ok (4, BigEndian.value ((buf.drop 2).take 2))
  else if buf.length < 10 then .error .unexpectedEof
  else .ok (10, BigEndian.value ((buf.drop 2).take 8))

def readHeader (buf : List Byte) : Except ErrorKind FrameInfo :=
  match buf with
  | b0 :: b1 :: _ =>
    match readLength buf b1 with
    | .error kind => .error kind
    | .ok (hsize, psize) =>
      if b1 &&& 0x80 ≠ 0 then
        match buf.drop hsize with
        | m0 :: m1 :: m2 :: m3 :: _ =>
          .ok ⟨b0 &&& 0x80 ≠ 0, b0 &&& 0x40 ≠ 0, b0 &&& 0x0f, some ⟨m0, m1, m2, m3⟩, hsize + 4,
            psize⟩
        | _ => .error .unexpectedEof
      else .ok ⟨b0 &&& 0x80 ≠ 0, b0 &&& 0x40 ≠ 0, b0 &&& 0x0f, none, hsize, psize⟩
  | _ => .error .unexpectedEof

def flagsByte (fin rsv1 : Bool) (opcode : Byte) : Byte :=
  (if fin then 0x80 else 0) ||| (if rsv1 then 0x40 else 0) ||| (opcode &&& 0x0f)

def lengthBytes (payloadSize : Nat) : Byte × List Byte :=
  if payloadSize < psize3Byte then (UInt8.ofNat payloadSize, [])
  else if payloadSize < psize9Byte then (126, BigEndian.bytes 2 payloadSize)
  else (0x7f, BigEndian.bytes 8 payloadSize)

def headerBytes (fin rsv1 : Bool) (opcode : Byte) (payloadSize : Nat) (mask : Option Mask) :
    List Byte :=
  let (b1, length) := lengthBytes payloadSize
  match mask with
  | none => flagsByte fin rsv1 opcode :: b1 :: length
  | some mask => flagsByte fin rsv1 opcode :: (b1 ||| 0x80) :: (length ++ mask.bytes)

def writeHeader (fin rsv1 : Bool) (opcode : Byte) (payloadSize : Nat) (mask : Option Mask)
    (buf : List Byte) : Except ErrorKind (List Byte × Nat) :=
  let hsize := headerSize payloadSize mask.isSome
  if buf.length < hsize then .error .writeZero
  else .ok (headerBytes fin rsv1 opcode payloadSize mask ++ buf.drop hsize, hsize)

def applyMask (buf : List Byte) (mask : Mask) (offset : Nat) : List Byte :=
  buf.mapIdx fun i c => c ^^^ mask.at (offset + i)

def applyMaskVectored : List (List Byte) → Mask → Nat → List (List Byte)
  | [], _, _ => []
  | buf :: bufs, mask, offset =>
    applyMask buf mask offset :: applyMaskVectored bufs mask (offset + buf.length)

def masked (mask : Option Mask) (buf : List Byte) (offset : Nat) : List Byte :=
  match mask with
  | none => buf
  | some mask => applyMask buf mask offset

structure Frame where
  fin : Bool
  rsv1 : Bool
  opcode : Byte
  payload : List Byte
  deriving DecidableEq, Repr

def parseFrame (s : List Byte) : Option (Frame × List Byte) :=
  match readHeader s with
  | .error _ => none
  | .ok fi =>
    if s.length < fi.payloadOffset + fi.payloadSize then none
    else
      some (⟨fi.fin, fi.rsv1, fi.opcode,
          masked fi.mask ((s.drop fi.payloadOffset).take fi.payloadSize) 0⟩,
        s.drop (fi.payloadOffset + fi.payloadSize))

def parseFramesFrom : Nat → List Byte → Option (List Frame)
  | _, [] => some []
  | 0, _ => none
  | rounds + 1, s => do
    let (frame, rest) ← parseFrame s
    let frames ← parseFramesFrom rounds rest
    return frame :: frames

/-- All of a stream as frames. A frame has at least one byte. -/
def parseFrames (s : List Byte) : Option (List Frame) := parseFramesFrom s.length s

def encodedFrame (mask : Option Mask) (f : Frame) : List Byte :=
  headerBytes f.fin f.rsv1 f.opcode f.payload.length mask ++ masked mask f.payload 0

def encodedFrames (mask : Option Mask) (frames : List Frame) : List Byte :=
  (frames.map (encodedFrame mask)).flatten

theorem lengthBytes_length (payloadSize : Nat) (masked : Bool) :
    headerSize payloadSize masked =
      2 + (lengthBytes payloadSize).2.length + if masked then 4 else 0 := by
  unfold headerSize lengthBytes
  cases masked <;> split <;> first | rfl | (split <;> rfl)

theorem headerBytes_length (fin rsv1 : Bool) (opcode : Byte) (payloadSize : Nat)
    (mask : Option Mask) :
    (headerBytes fin rsv1 opcode payloadSize mask).length = headerSize payloadSize mask.isSome := by
  rw [lengthBytes_length]
  cases mask with
  | none =>
    simp only [headerBytes, List.length_cons, Option.isSome_none, Bool.false_eq_true, if_false]
    omega
  | some mask =>
    simp only [headerBytes, Mask.bytes, List.length_cons, List.length_append, List.length_nil,
      Option.isSome_some, if_true]
    omega

theorem headerSize_le (payloadSize : Nat) (masked : Bool) :
    2 ≤ headerSize payloadSize masked ∧ headerSize payloadSize masked ≤ headerSizeMax := by
  unfold headerSize headerSizeMax
  cases masked <;> simp only [Bool.false_eq_true, if_false, if_true] <;> split <;>
    first | omega | (split <;> omega)

theorem flagsByte_bits (fin rsv1 : Bool) {opcode : Byte} (small : opcode < 16) :
    decide (flagsByte fin rsv1 opcode &&& 0x80 ≠ 0) = fin ∧
      decide (flagsByte fin rsv1 opcode &&& 0x40 ≠ 0) = rsv1 ∧
      flagsByte fin rsv1 opcode &&& 0x0f = opcode := by
  have all : ∀ fin rsv1 : Bool, ∀ o : Fin 16,
      decide (flagsByte fin rsv1 (UInt8.ofNat o) &&& 0x80 ≠ 0) = fin ∧
        decide (flagsByte fin rsv1 (UInt8.ofNat o) &&& 0x40 ≠ 0) = rsv1 ∧
        flagsByte fin rsv1 (UInt8.ofNat o) &&& 0x0f = UInt8.ofNat o := by decide +kernel
  have back : UInt8.ofNat opcode.toNat = opcode := UInt8.ofNat_toNat
  have found := all fin rsv1 ⟨opcode.toNat, UInt8.lt_iff_toNat_lt.mp small⟩
  simp only [back] at found
  exact found

theorem lengthByte_bits {n : Nat} (small : n < 128) :
    (UInt8.ofNat n &&& 0x7f = UInt8.ofNat n ∧ UInt8.ofNat n &&& 0x80 = 0) ∧
      ((UInt8.ofNat n ||| 0x80) &&& 0x7f = UInt8.ofNat n ∧
      (UInt8.ofNat n ||| 0x80) &&& 0x80 ≠ 0) := by
  have all : ∀ i : Fin 128,
      (UInt8.ofNat i &&& 0x7f = UInt8.ofNat i ∧ UInt8.ofNat i &&& 0x80 = 0) ∧
        ((UInt8.ofNat i ||| 0x80) &&& 0x7f = UInt8.ofNat i ∧
          (UInt8.ofNat i ||| 0x80) &&& 0x80 ≠ 0) := by decide +kernel
  exact all ⟨n, small⟩

theorem lengthBytes_read {payloadSize : Nat} (fits : payloadSize < 2 ^ 64) (b0 : Byte)
    (rest : List Byte) (mark : Byte) (same : mark &&& 0x7f = (lengthBytes payloadSize).1) :
    readLength (b0 :: mark :: ((lengthBytes payloadSize).2 ++ rest)) mark =
      .ok (2 + (lengthBytes payloadSize).2.length, payloadSize) := by
  unfold readLength
  rw [same]
  unfold lengthBytes
  by_cases small : payloadSize < psize3Byte
  · have below : payloadSize < 126 := small
    have value : (UInt8.ofNat payloadSize).toNat = payloadSize := by
      rw [UInt8.toNat_ofNat']
      omega
    have first : UInt8.ofNat payloadSize < 126 := by
      rw [UInt8.lt_iff_toNat_lt, value]
      exact below
    simp only [if_pos small, if_pos first, value, List.length_nil, Nat.add_zero]
  · by_cases medium : payloadSize < psize9Byte
    · have below : payloadSize < 65536 := medium
      have whole : BigEndian.value (BigEndian.bytes 2 payloadSize) = payloadSize := by
        rw [BigEndian.value_bytes]
        exact Nat.mod_eq_of_lt below
      have front : (BigEndian.bytes 2 payloadSize ++ rest).take 2 = BigEndian.bytes 2 payloadSize :=
        List.take_left' (BigEndian.bytes_length 2 payloadSize)
      have long : ¬ (b0 :: mark :: (BigEndian.bytes 2 payloadSize ++ rest)).length < 4 := by
        simp only [List.length_cons, List.length_append, BigEndian.bytes_length]
        omega
      have notFirst : ¬ (126 : Byte) < 126 := by decide
      simp only [if_neg small, if_pos medium, if_neg notFirst, if_true, if_neg long,
        List.drop_succ_cons, List.drop_zero, front, whole, BigEndian.bytes_length]
    · have whole : BigEndian.value (BigEndian.bytes 8 payloadSize) = payloadSize := by
        rw [BigEndian.value_bytes]
        exact Nat.mod_eq_of_lt fits
      have front : (BigEndian.bytes 8 payloadSize ++ rest).take 8 = BigEndian.bytes 8 payloadSize :=
        List.take_left' (BigEndian.bytes_length 8 payloadSize)
      have long : ¬ (b0 :: mark :: (BigEndian.bytes 8 payloadSize ++ rest)).length < 10 := by
        simp only [List.length_cons, List.length_append, BigEndian.bytes_length]
        omega
      have notFirst : ¬ (0x7f : Byte) < 126 := by decide
      have notSecond : ¬ (0x7f : Byte) = 126 := by decide
      simp only [if_neg small, if_neg medium, if_neg notFirst, if_neg notSecond, if_neg long,
        List.drop_succ_cons, List.drop_zero, front, whole, BigEndian.bytes_length]

theorem lengthBytes_mark (payloadSize : Nat) :
    ∃ n, n < 128 ∧ (lengthBytes payloadSize).1 = UInt8.ofNat n := by
  unfold lengthBytes psize3Byte
  by_cases small : payloadSize < 126
  · exact ⟨payloadSize, by omega, by rw [if_pos small]⟩
  · rw [if_neg small]
    split
    · exact ⟨126, by decide, rfl⟩
    · exact ⟨127, by decide, rfl⟩

theorem readHeader_headerBytes (fin rsv1 : Bool) {opcode : Byte} (small : opcode < 16)
    {payloadSize : Nat} (fits : payloadSize < 2 ^ 64) (mask : Option Mask) (rest : List Byte) :
    readHeader (headerBytes fin rsv1 opcode payloadSize mask ++ rest) =
      .ok ⟨fin, rsv1, opcode, mask, headerSize payloadSize mask.isSome, payloadSize⟩ := by
  obtain ⟨hasFin, hasRsv1, hasOpcode⟩ := flagsByte_bits fin rsv1 small
  obtain ⟨n, seven, mark⟩ := lengthBytes_mark payloadSize
  obtain ⟨⟨plain, unset⟩, marked, set⟩ := lengthByte_bits seven
  rw [← mark] at plain unset marked set
  rw [lengthBytes_length]
  cases mask with
  | none =>
    have read := lengthBytes_read fits (flagsByte fin rsv1 opcode) rest _ plain
    simp only [headerBytes, List.cons_append, readHeader, read, hasFin, hasRsv1, hasOpcode, unset,
      ne_eq, not_true_eq_false, if_false, Option.isSome_none, Bool.false_eq_true, Nat.add_zero]
  | some mask =>
    have read := lengthBytes_read fits (flagsByte fin rsv1 opcode) (mask.bytes ++ rest) _ marked
    have after : (flagsByte fin rsv1 opcode :: ((lengthBytes payloadSize).1 ||| 0x80) ::
        ((lengthBytes payloadSize).2 ++ (mask.bytes ++ rest))).drop
          (2 + (lengthBytes payloadSize).2.length) = mask.bytes ++ rest := by
      rw [Nat.add_comm]
      exact List.drop_left
    simp only [headerBytes, List.cons_append, List.append_assoc, readHeader, read, if_pos set]
    rw [after]
    simp only [Mask.bytes, List.cons_append, hasFin, hasRsv1, hasOpcode, Option.isSome_some,
      if_true]

@[simp] theorem applyMask_length (buf : List Byte) (mask : Mask) (offset : Nat) :
    (applyMask buf mask offset).length = buf.length := by
  unfold applyMask
  exact List.length_mapIdx

@[simp] theorem masked_length (mask : Option Mask) (buf : List Byte) (offset : Nat) :
    (masked mask buf offset).length = buf.length := by
  cases mask with
  | none => rfl
  | some mask => exact applyMask_length buf mask offset

theorem applyMask_append (front back : List Byte) (mask : Mask) (offset : Nat) :
    applyMask (front ++ back) mask offset =
      applyMask front mask offset ++ applyMask back mask (offset + front.length) := by
  unfold applyMask
  rw [List.mapIdx_append]
  congr 1
  apply List.ext_getElem?
  intro i
  simp only [List.getElem?_mapIdx]
  congr 1
  funext c
  rw [show offset + (i + front.length) = offset + front.length + i by omega]

theorem masked_append (mask : Option Mask) (front back : List Byte) (offset : Nat) :
    masked mask (front ++ back) offset =
      masked mask front offset ++ masked mask back (offset + front.length) := by
  cases mask with
  | none => rfl
  | some mask => exact applyMask_append front back mask offset

theorem masked_drop (mask : Option Mask) (buf : List Byte) (offset n : Nat)
    (inside : n ≤ buf.length) : (masked mask buf offset).drop n = masked mask (buf.drop n)
    (offset + n) := by
  have front : (masked mask (buf.take n) offset).length = n := by
    rw [masked_length, List.length_take_of_le inside]
  conv_lhs => rw [← List.take_append_drop n buf, masked_append, List.drop_left' front,
    List.length_take_of_le inside]

theorem applyMask_applyMask (buf : List Byte) (mask : Mask) (offset : Nat) :
    applyMask (applyMask buf mask offset) mask offset = buf := by
  apply List.ext_getElem?
  intro i
  unfold applyMask
  rw [List.getElem?_mapIdx, List.getElem?_mapIdx, Option.map_map]
  cases found : buf[i]? with
  | none => rfl
  | some c =>
    simp only [Option.map_some, Function.comp_apply, UInt8.xor_assoc, UInt8.xor_self,
      UInt8.xor_zero]

theorem masked_masked (mask : Option Mask) (buf : List Byte) (offset : Nat) :
    masked mask (masked mask buf offset) offset = buf := by
  cases mask with
  | none => rfl
  | some mask => exact applyMask_applyMask buf mask offset

theorem applyMaskVectored_flatten (bufs : List (List Byte)) (mask : Mask) (offset : Nat) :
    (applyMaskVectored bufs mask offset).flatten = applyMask bufs.flatten mask offset := by
  induction bufs generalizing offset with
  | nil => rfl
  | cons buf bufs ih =>
    simp only [applyMaskVectored, List.flatten_cons, ih, applyMask_append]

theorem parseFrame_encodedFrame (mask : Option Mask) {f : Frame} (small : f.opcode < 16)
    (fits : f.payload.length < 2 ^ 64) (rest : List Byte) :
    parseFrame (encodedFrame mask f ++ rest) = some (f, rest) := by
  have length := headerBytes_length f.fin f.rsv1 f.opcode f.payload.length mask
  unfold parseFrame
  simp only [encodedFrame, List.append_assoc, readHeader_headerBytes f.fin f.rsv1 small fits mask]
  rw [if_neg (by simp only [List.length_append, masked_length, length]; omega)]
  have payload : (headerBytes f.fin f.rsv1 f.opcode f.payload.length mask ++
      (masked mask f.payload 0 ++ rest)).drop (headerSize f.payload.length mask.isSome) =
      masked mask f.payload 0 ++ rest := List.drop_left' length
  have front : (masked mask f.payload 0 ++ rest).take f.payload.length = masked mask f.payload 0 :=
    List.take_left' (masked_length mask f.payload 0)
  have back : (masked mask f.payload 0 ++ rest).drop f.payload.length = rest :=
    List.drop_left' (masked_length mask f.payload 0)
  rw [← List.drop_drop, payload, front, back, masked_masked]

theorem parseFrames_encodedFrames (mask : Option Mask) (frames : List Frame)
    (good : ∀ f ∈ frames, f.opcode < 16 ∧ f.payload.length < 2 ^ 64) :
    parseFrames (encodedFrames mask frames) = some frames := by
  have enough : ∀ rounds, (encodedFrames mask frames).length ≤ rounds →
      parseFramesFrom rounds (encodedFrames mask frames) = some frames := by
    induction frames with
    | nil =>
      intro rounds _
      cases rounds <;> rfl
    | cons f frames ih =>
      intro rounds short
      obtain ⟨small, fits⟩ := good f List.mem_cons_self
      have more : encodedFrames mask (f :: frames) =
          encodedFrame mask f ++ encodedFrames mask frames := rfl
      have long : 2 ≤ (encodedFrame mask f).length := by
        have least := (headerSize_le f.payload.length mask.isSome).1
        simp only [encodedFrame, List.length_append, headerBytes_length]
        omega
      rw [more] at short ⊢
      rw [List.length_append] at short
      obtain ⟨rounds, rfl⟩ : ∃ r, rounds = r + 1 := ⟨rounds - 1, by omega⟩
      obtain ⟨b, tail, cons⟩ :
          ∃ b tail, encodedFrame mask f ++ encodedFrames mask frames = b :: tail :=
        List.exists_cons_of_length_pos (by rw [List.length_append]; omega)
      have rest := ih (fun g mem => good g (List.mem_cons_of_mem _ mem)) rounds (by omega)
      have step : parseFramesFrom (rounds + 1) (b :: tail) = (do
          let (frame, rest) ← parseFrame (b :: tail)
          let frames ← parseFramesFrom rounds rest
          return frame :: frames) := rfl
      rw [cons, step, ← cons, parseFrame_encodedFrame mask small fits]
      simp only [Option.bind_eq_bind, Option.bind_some, rest]
      rfl
  exact enough _ (Nat.le_refl _)

theorem readLength_append {s : List Byte} {b1 : Byte} {hsize psize : Nat}
    (ok : readLength s b1 = .ok (hsize, psize)) (long : 2 ≤ s.length) (more : List Byte) :
    readLength (s ++ more) b1 = .ok (hsize, psize) ∧ hsize ≤ s.length := by
  unfold readLength at ok ⊢
  split at ok
  · rename_i small
    cases ok
    rw [if_pos small]
    exact ⟨rfl, long⟩
  · rename_i large
    rw [if_neg large]
    split at ok
    · rename_i two
      rw [if_pos two]
      split at ok
      · cases ok
      · cases ok
        rw [if_neg (by rw [List.length_append]; omega), List.drop_append_of_le_length (by omega),
          List.take_append_of_le_length (by rw [List.length_drop]; omega)]
        exact ⟨rfl, by omega⟩
    · rename_i eight
      rw [if_neg eight]
      split at ok
      · cases ok
      · cases ok
        rw [if_neg (by rw [List.length_append]; omega), List.drop_append_of_le_length (by omega),
          List.take_append_of_le_length (by rw [List.length_drop]; omega)]
        exact ⟨rfl, by omega⟩

theorem readHeader_append {s : List Byte} {fi : FrameInfo} (ok : readHeader s = .ok fi)
    (more : List Byte) : readHeader (s ++ more) = .ok fi ∧ fi.payloadOffset ≤ s.length := by
  rcases s with _ | ⟨b0, _ | ⟨b1, tail⟩⟩
  · cases ok
  · cases ok
  · simp only [readHeader, List.cons_append] at ok ⊢
    cases length : readLength (b0 :: b1 :: tail) b1 with
    | error kind =>
      rw [length] at ok
      cases ok
    | ok sizes =>
      obtain ⟨hsize, psize⟩ := sizes
      obtain ⟨longer, inside⟩ := readLength_append length (by simp) more
      simp only [List.cons_append] at longer
      rw [length] at ok
      rw [longer]
      simp only at ok ⊢
      split at ok
      · rename_i has_mask
        rw [if_pos has_mask]
        have split_rest : (b0 :: b1 :: (tail ++ more)).drop hsize =
            (b0 :: b1 :: tail).drop hsize ++ more := by
          rw [← List.cons_append, ← List.cons_append, List.drop_append_of_le_length inside]
        rw [split_rest]
        cases after : (b0 :: b1 :: tail).drop hsize with
        | nil =>
          rw [after] at ok
          cases ok
        | cons m0 after1 =>
          rw [after] at ok
          rcases after1 with _ | ⟨m1, _ | ⟨m2, _ | ⟨m3, rest⟩⟩⟩
          · cases ok
          · cases ok
          · cases ok
          · cases ok
            refine ⟨rfl, ?_⟩
            have counted := congrArg List.length after
            simp only [List.length_drop, List.length_cons] at counted ⊢
            omega
      · rename_i no_mask
        rw [if_neg no_mask]
        cases ok
        exact ⟨rfl, inside⟩

end PushpinWebSocket
