import Pushpin.Foundations.Slices
import Pushpin.WebSocket.Frame

namespace PushpinWebSocket
open PushpinRingBuffer PushpinVectored Slices

def readLength? (buf : List Byte) (b1 : Byte) : Option (Except ErrorKind (Nat × Nat)) :=
  if b1 < 126 then some (.ok (2, b1.toNat))
  else if b1 = 126 then
    if buf.length < 2 + 2 then some (.error .unexpectedEof)
    else do
      let arr ← slice? buf 2 4
      return .ok (4, BigEndian.value arr)
  else if buf.length < 2 + 8 then some (.error .unexpectedEof)
  else do
    let arr ← slice? buf 2 10
    return .ok (10, BigEndian.value arr)

def maskOf? : List Byte → Option Mask
  | [b0, b1, b2, b3] => some ⟨b0, b1, b2, b3⟩
  | _ => none

def readHeader? (buf : List Byte) : Option (Except ErrorKind FrameInfo) :=
  if buf.length < 2 then some (.error .unexpectedEof)
  else do
    let b0 ← buf[0]?
    let b1 ← buf[1]?
    match ← readLength? buf (b1 &&& 0x7f) with
    | .error kind => return .error kind
    | .ok (hsize, psize) =>
      if b1 &&& 0x80 ≠ 0 then
        if buf.length < hsize + 4 then return .error .unexpectedEof
        else do
          let mask ← maskOf? (← slice? buf hsize (hsize + 4))
          return .ok ⟨b0 &&& 0x80 ≠ 0, b0 &&& 0x40 ≠ 0, b0 &&& 0x0f, some mask, hsize + 4, psize⟩
      else return .ok ⟨b0 &&& 0x80 ≠ 0, b0 &&& 0x40 ≠ 0, b0 &&& 0x0f, none, hsize, psize⟩

def setByte? (buf : List Byte) (i : Nat) (b : Byte) : Option (List Byte) :=
  if i < buf.length then some (buf.set i b) else none

def writeLength? (payloadSize : Nat) (buf : List Byte) : Option (List Byte × Nat) :=
  if payloadSize < psize3Byte then do
    let buf ← setByte? buf 1 (UInt8.ofNat payloadSize)
    return (buf, 2)
  else if payloadSize < psize9Byte then do
    let buf ← setByte? buf 1 126
    let buf ← copyFromSlice? buf 2 4 (BigEndian.bytes 2 (payloadSize % 2 ^ 16))
    return (buf, 4)
  else do
    let buf ← setByte? buf 1 0x7f
    let buf ← copyFromSlice? buf 2 10 (BigEndian.bytes 8 (payloadSize % 2 ^ 64))
    return (buf, 10)

def writeHeader? (fin rsv1 : Bool) (opcode : Byte) (payloadSize : Nat) (mask : Option Mask)
    (buf : List Byte) : Option (Except ErrorKind (List Byte × Nat)) :=
  if buf.length < headerSize payloadSize mask.isSome then some (.error .writeZero)
  else do
    let buf ← setByte? buf 0 (flagsByte fin rsv1 opcode)
    let (buf, hsize) ← writeLength? payloadSize buf
    match mask with
    | some mask =>
      let b1 ← buf[1]?
      let buf ← setByte? buf 1 (b1 ||| 0x80)
      let buf ← copyFromSlice? buf hsize (hsize + 4) mask.bytes
      return .ok (buf, hsize + 4)
    | none => return .ok (buf, hsize)

theorem maskOf?_slice {buf : List Byte} {hsize : Nat} (long : ¬ buf.length < hsize + 4) :
    ∃ (mask : Mask) (rest : List Byte), slice? buf hsize (hsize + 4) = some mask.bytes ∧
      buf.drop hsize = mask.b0 :: mask.b1 :: mask.b2 :: mask.b3 :: rest := by
  have size : 4 ≤ (buf.drop hsize).length := by
    rw [List.length_drop]
    omega
  match after : buf.drop hsize, size with
  | b0 :: b1 :: b2 :: b3 :: rest, _ =>
    refine ⟨⟨b0, b1, b2, b3⟩, rest, ?_, rfl⟩
    rw [slice?_eq buf hsize (hsize + 4) (by omega) (by omega), slice, List.drop_take, after,
      Nat.add_sub_cancel_left]
    rfl

theorem readLength?_eq (buf : List Byte) (b1 : Byte) :
    readLength? buf (b1 &&& 0x7f) = some (readLength buf b1) := by
  unfold readLength? readLength
  split
  · rfl
  · split
    · split
      · rfl
      · rename_i long
        rw [slice?_eq buf 2 4 (by omega) (by omega)]
        simp only [slice, List.drop_take]
        rfl
    · split
      · rfl
      · rename_i long
        rw [slice?_eq buf 2 10 (by omega) (by omega)]
        simp only [slice, List.drop_take]
        rfl

theorem readHeader?_eq (buf : List Byte) : readHeader? buf = some (readHeader buf) := by
  match buf with
  | [] => rfl
  | [_] => rfl
  | b0 :: b1 :: rest =>
    have long : ¬ (b0 :: b1 :: rest).length < 2 := by
      simp only [List.length_cons]
      omega
    unfold readHeader? readHeader
    simp only [if_neg long, List.getElem?_cons_zero, List.getElem?_cons_succ, readLength?_eq,
      Option.bind_eq_bind, Option.bind_some]
    cases readLength (b0 :: b1 :: rest) b1 with
    | error kind => rfl
    | ok read =>
      obtain ⟨hsize, psize⟩ := read
      dsimp only
      split
      · split
        · rename_i short
          split
          · rename_i m0 m1 m2 m3 more after
            have size := congrArg List.length after
            simp only [List.length_drop, List.length_cons] at size short
            omega
          · rfl
        · rename_i long
          obtain ⟨mask, more, sliced, after⟩ := maskOf?_slice long
          rw [sliced, after]
          rfl
      · rfl

theorem copyFromSlice?_front (front after src : List Byte) (hi : Nat)
    (size : hi = front.length + src.length) (room : src.length ≤ after.length) :
    copyFromSlice? (front ++ after) front.length hi src =
      some (front ++ (src ++ after.drop src.length)) := by
  rw [copyFromSlice?_eq _ _ _ _ (by omega) (by rw [List.length_append]; omega) (by omega), overlay,
    List.take_left, List.append_assoc, ← List.drop_drop, List.drop_left]

theorem setByte?_first (b0 : Byte) (after : List Byte) (b : Byte) :
    setByte? (b0 :: after) 0 b = some (b :: after) := by
  unfold setByte?
  rw [if_pos (by simp only [List.length_cons]; omega)]
  rfl

theorem setByte?_second (b0 b1 : Byte) (after : List Byte) (b : Byte) :
    setByte? (b0 :: b1 :: after) 1 b = some (b0 :: b :: after) := by
  unfold setByte?
  rw [if_pos (by simp only [List.length_cons]; omega)]
  rfl

theorem writeLength?_eq {payloadSize : Nat} (fits : payloadSize < 2 ^ 64) (b0 b1 : Byte)
    (after : List Byte) (room : (lengthBytes payloadSize).2.length ≤ after.length) :
    writeLength? payloadSize (b0 :: b1 :: after) =
      some (b0 :: (lengthBytes payloadSize).1 :: ((lengthBytes payloadSize).2 ++
        after.drop (lengthBytes payloadSize).2.length),
          2 + (lengthBytes payloadSize).2.length) := by
  unfold writeLength? lengthBytes at *
  by_cases small : payloadSize < psize3Byte
  · simp only [if_pos small, setByte?_second, Option.bind_eq_bind, Option.bind_some]
    rfl
  · by_cases medium : payloadSize < psize9Byte
    · have below : payloadSize < 2 ^ 16 := medium
      simp only [if_neg small, if_pos medium] at room ⊢
      simp only [setByte?_second, Option.bind_eq_bind, Option.bind_some, Nat.mod_eq_of_lt below]
      have copied := copyFromSlice?_front [b0, 126] after (BigEndian.bytes 2 payloadSize) 4
        (by rw [BigEndian.bytes_length]; rfl) room
      simp only [List.cons_append, List.nil_append, List.length_cons, List.length_nil] at copied
      rw [copied, BigEndian.bytes_length]
      rfl
    · simp only [if_neg small, if_neg medium] at room ⊢
      simp only [setByte?_second, Option.bind_eq_bind, Option.bind_some, Nat.mod_eq_of_lt fits]
      have copied := copyFromSlice?_front [b0, 0x7f] after (BigEndian.bytes 8 payloadSize) 10
        (by rw [BigEndian.bytes_length]; rfl) room
      simp only [List.cons_append, List.nil_append, List.length_cons, List.length_nil] at copied
      rw [copied, BigEndian.bytes_length]
      rfl

theorem writeHeader?_eq (fin rsv1 : Bool) (opcode : Byte) {payloadSize : Nat}
    (fits : payloadSize < 2 ^ 64) (mask : Option Mask) (buf : List Byte) :
    writeHeader? fin rsv1 opcode payloadSize mask buf =
      some (writeHeader fin rsv1 opcode payloadSize mask buf) := by
  unfold writeHeader? writeHeader
  by_cases short : buf.length < headerSize payloadSize mask.isSome
  · simp only [if_pos short]
  · have size := lengthBytes_length payloadSize mask.isSome
    simp only [if_neg short]
    match buf, short with
    | [], short | [_], short =>
      simp only [List.length_cons, List.length_nil] at short
      omega
    | x0 :: x1 :: after, short =>
      have room : (lengthBytes payloadSize).2.length + (if mask.isSome then 4 else 0) ≤
          after.length := by
        simp only [List.length_cons] at short
        omega
      have behind : (x0 :: x1 :: after).drop (headerSize payloadSize mask.isSome) =
          after.drop ((lengthBytes payloadSize).2.length + if mask.isSome then 4 else 0) := by
        rw [size, Nat.add_assoc, Nat.add_comm 2]
        rfl
      rw [behind, size]
      simp only [setByte?_first, Option.bind_eq_bind, Option.bind_some,
        writeLength?_eq fits _ _ after (by omega)]
      cases mask with
      | none =>
        simp only [headerBytes, Option.isSome_none, Bool.false_eq_true, if_false, Nat.add_zero,
          List.cons_append]
        rfl
      | some mask =>
        simp only [Option.isSome_some, if_true] at room
        have copied := copyFromSlice?_front
          (flagsByte fin rsv1 opcode :: ((lengthBytes payloadSize).1 ||| 0x80) ::
            (lengthBytes payloadSize).2)
          (after.drop (lengthBytes payloadSize).2.length) mask.bytes
          (2 + (lengthBytes payloadSize).2.length + 4)
          (by simp only [List.length_cons, Mask.bytes, List.length_nil]; omega)
          (by simp only [List.length_drop, Mask.bytes, List.length_cons, List.length_nil]; omega)
        rw [List.length_cons, List.length_cons,
          show (lengthBytes payloadSize).2.length + 1 + 1 = 2 +
            (lengthBytes payloadSize).2.length by omega]
          at copied
        simp only [List.cons_append] at copied
        simp only [List.getElem?_cons_succ, List.getElem?_cons_zero, Option.bind_some,
          setByte?_second, copied,
          headerBytes, Option.isSome_some, if_true, List.drop_drop, List.cons_append,
            List.append_assoc]
        rfl

theorem readLength_cut {payloadSize : Nat} (b0 mark : Byte)
    (same : mark &&& 0x7f = (lengthBytes payloadSize).1) {after : List Byte}
    (cut : after.length < (lengthBytes payloadSize).2.length) :
    readLength (b0 :: mark :: after) mark = .error .unexpectedEof := by
  unfold readLength
  rw [same]
  unfold lengthBytes at cut ⊢
  by_cases small : payloadSize < psize3Byte
  · simp only [if_pos small, List.length_nil] at cut
    omega
  · by_cases medium : payloadSize < psize9Byte
    · simp only [if_neg small, if_pos medium, BigEndian.bytes_length] at cut
      have short : (b0 :: mark :: after).length < 4 := by
        simp only [List.length_cons]
        omega
      have notFirst : ¬ (126 : Byte) < 126 := by decide
      simp only [if_neg small, if_pos medium, if_neg notFirst, if_true, if_pos short]
    · simp only [if_neg small, if_neg medium, BigEndian.bytes_length] at cut
      have short : (b0 :: mark :: after).length < 10 := by
        simp only [List.length_cons]
        omega
      have notFirst : ¬ (0x7f : Byte) < 126 := by decide
      have notSecond : ¬ (0x7f : Byte) = 126 := by decide
      simp only [if_neg small, if_neg medium, if_neg notFirst, if_neg notSecond, if_pos short]

theorem readHeader_maskCut (b0 mark : Byte) {payloadSize : Nat} (fits : payloadSize < 2 ^ 64)
    (same : mark &&& 0x7f = (lengthBytes payloadSize).1) (set : mark &&& 0x80 ≠ 0)
    {after : List Byte}
    (cut : after.length < 4) :
    readHeader (b0 :: mark :: ((lengthBytes payloadSize).2 ++ after)) = .error .unexpectedEof := by
  have behind : (b0 :: mark :: ((lengthBytes payloadSize).2 ++ after)).drop
      (2 + (lengthBytes payloadSize).2.length) = after := by
    rw [Nat.add_comm]
    exact List.drop_left
  simp only [readHeader, lengthBytes_read fits b0 after mark same, if_pos set]
  rw [behind]
  rcases after with _ | ⟨a, _ | ⟨b, _ | ⟨c, _ | ⟨d, after⟩⟩⟩⟩
  all_goals first | rfl | (simp only [List.length_cons] at cut; omega)

theorem readHeader_cut (fin rsv1 : Bool) (opcode : Byte) {payloadSize : Nat}
    (fits : payloadSize < 2 ^ 64) (mask : Option Mask) {count : Nat}
    (cut : count < headerSize payloadSize mask.isSome) :
    readHeader ((headerBytes fin rsv1 opcode payloadSize mask).take count) =
      .error .unexpectedEof := by
  obtain ⟨n, seven, mark⟩ := lengthBytes_mark payloadSize
  obtain ⟨⟨plain, _⟩, marked, set⟩ := lengthByte_bits seven
  rw [← mark] at plain marked set
  rw [lengthBytes_length] at cut
  match count, cut with
  | 0, _ => rfl
  | 1, _ => cases mask <;> rfl
  | count + 2, cut =>
    by_cases inLength : count < (lengthBytes payloadSize).2.length
    · have short : ∀ more, (((lengthBytes payloadSize).2 ++ more).take count).length <
          (lengthBytes payloadSize).2.length := fun more => by
        rw [List.length_take]
        omega
      cases mask with
      | none =>
        have stopped := readLength_cut (flagsByte fin rsv1 opcode) _ plain (short [])
        rw [List.append_nil] at stopped
        simp only [headerBytes, List.take_succ_cons, readHeader, stopped]
      | some mask =>
        have stopped := readLength_cut (flagsByte fin rsv1 opcode) _ marked (short mask.bytes)
        simp only [headerBytes, List.take_succ_cons, readHeader, stopped]
    · cases mask with
      | none =>
        simp only [Option.isSome_none, Bool.false_eq_true, if_false] at cut
        omega
      | some mask =>
        simp only [Option.isSome_some, if_true] at cut
        simp only [headerBytes, List.take_succ_cons]
        rw [List.take_append, List.take_of_length_le (by omega)]
        exact readHeader_maskCut _ _ fits marked set (by rw [List.length_take]; omega)

theorem readLength_bounds {buf : List Byte} (long : 2 ≤ buf.length) {b1 : Byte} {hsize psize : Nat}
    (read : readLength buf b1 = .ok (hsize, psize)) : psize < 2 ^ 64 ∧ hsize ≤ buf.length := by
  unfold readLength at read
  split at read
  · cases read
    exact ⟨Nat.lt_trans (UInt8.toNat_lt _) (by decide), long⟩
  · split at read
    · split at read
      · cases read
      · cases read
        have value := BigEndian.value_lt ((buf.drop 2).take 2)
        have size : ((buf.drop 2).take 2).length = 2 := by
          rw [List.length_take, List.length_drop]
          omega
        rw [size] at value
        exact ⟨Nat.lt_trans value (by decide), by omega⟩
    · split at read
      · cases read
      · cases read
        have value := BigEndian.value_lt ((buf.drop 2).take 8)
        have size : ((buf.drop 2).take 8).length = 8 := by
          rw [List.length_take, List.length_drop]
          omega
        rw [size] at value
        exact ⟨value, by omega⟩

theorem readHeader_bounds {buf : List Byte} {fi : FrameInfo} (read : readHeader buf = .ok fi) :
    fi.payloadSize < 2 ^ 64 ∧ fi.payloadOffset ≤ buf.length := by
  match buf with
  | [] | [_] => cases read
  | b0 :: b1 :: rest =>
    unfold readHeader at read
    dsimp only at read
    cases length : readLength (b0 :: b1 :: rest) b1 with
    | error kind =>
      rw [length] at read
      cases read
    | ok found =>
      obtain ⟨hsize, psize⟩ := found
      obtain ⟨fits, inside⟩ := readLength_bounds (by simp only [List.length_cons]; omega) length
      rw [length] at read
      dsimp only at read
      split at read
      · split at read
        · rename_i after
          cases read
          have size := congrArg List.length after
          simp only [List.length_drop, List.length_cons] at size ⊢
          exact ⟨fits, by omega⟩
        · cases read
      · cases read
        exact ⟨fits, inside⟩

/-- Whatever `write_header` stores, `read_header` reads it back whole and nothing less than it;
no bytes make it panic or answer with a size that no `usize` holds. -/
theorem readHeader_writeHeader (fin rsv1 : Bool) {opcode : Byte} (small : opcode < 16)
    {payloadSize : Nat} (fits : payloadSize < 2 ^ 63) (mask : Option Mask) {buf : List Byte}
    (room : headerSize payloadSize mask.isSome ≤ buf.length) :
    (∃ written : List Byte,
      writeHeader? fin rsv1 opcode payloadSize mask buf =
          some (.ok (written, headerSize payloadSize mask.isSome)) ∧
        written.length = buf.length ∧
        written.drop (headerSize payloadSize mask.isSome) =
          buf.drop (headerSize payloadSize mask.isSome) ∧
        (∀ rest, readHeader? (written.take (headerSize payloadSize mask.isSome) ++ rest) =
          some (.ok {
            fin := fin
            rsv1 := rsv1
            opcode := opcode
            mask := mask
            payloadOffset := headerSize payloadSize mask.isSome
            payloadSize := payloadSize })) ∧
        ∀ count, count < headerSize payloadSize mask.isSome →
          readHeader? (written.take count) = some (.error .unexpectedEof)) ∧
      ∀ bytes : List Byte, ∃ result, readHeader? bytes = some result ∧
        ∀ fi, result = .ok fi → fi.payloadSize < 2 ^ 64 ∧ fi.payloadOffset ≤ bytes.length := by
  have whole : payloadSize < 2 ^ 64 := Nat.lt_trans fits (by decide)
  have size := headerBytes_length fin rsv1 opcode payloadSize mask
  have front : ∀ after : List Byte,
      (headerBytes fin rsv1 opcode payloadSize mask ++ after).take
        (headerSize payloadSize mask.isSome) =
        headerBytes fin rsv1 opcode payloadSize mask := fun after => List.take_left' size
  refine ⟨⟨headerBytes fin rsv1 opcode payloadSize mask ++ buf.drop
    (headerSize payloadSize mask.isSome),
    ?_, ?_, List.drop_left' size, fun rest => ?_, fun count cut => ?_⟩,
    fun bytes => ⟨readHeader bytes, readHeader?_eq bytes, fun fi read => readHeader_bounds read⟩⟩
  · rw [writeHeader?_eq fin rsv1 opcode whole, writeHeader, if_neg (by omega)]
  · rw [List.length_append, size, List.length_drop]
    omega
  · rw [readHeader?_eq, front, readHeader_headerBytes fin rsv1 small whole]
  · rw [readHeader?_eq, List.take_append_of_le_length (by omega),
      readHeader_cut fin rsv1 opcode whole mask cut]

theorem readHeader_writeHeader_text :
    ∃ written : List Byte,
      writeHeader? true false opcodeText 126 (some ⟨1, 2, 3, 4⟩) (List.replicate headerSizeMax 0) =
        some (.ok (written, 8)) := by
  have small : opcodeText < 16 := by decide
  have fits : 126 < 2 ^ 63 := by decide
  have room : headerSize 126 (some (⟨1, 2, 3, 4⟩ : Mask)).isSome ≤
      (List.replicate headerSizeMax (0 : Byte)).length := by decide
  obtain ⟨⟨written, stored, _⟩, _⟩ :=
    readHeader_writeHeader true false small fits (some ⟨1, 2, 3, 4⟩) room
  exact ⟨written, stored⟩

end PushpinWebSocket
