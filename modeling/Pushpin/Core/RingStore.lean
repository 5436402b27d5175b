import Pushpin.Core.RingQueue

namespace PushpinRingBuffer
open Slices

namespace RingBuffer

def storeBuf (r : RingBuffer) (data : List Byte) : RingBuffer :=
  { r with buf := overlay r.buf r.start data }

def storeBufs (r : RingBuffer) : List (List Byte) → RingBuffer
  | [all] => r.storeBuf all
  | [part2, rest] => { r with buf := overlay (overlay r.buf r.start part2) 0 rest }
  | _ => r

def firstLen (r : RingBuffer) : Nat := min r.stop r.buf.length - r.start

theorem readBuf_eq {r : RingBuffer} (valid : r.Valid) :
    r.readBuf = some (r.content.take r.firstLen) ∧ r.firstLen ≤ r.len ∧
      (r.isReadableContiguous = true → r.firstLen = r.len) := by
  have h1 := valid.ordered
  have h2 := valid.fits
  have h3 := valid.start_inside
  refine ⟨?_, ?_, ?_⟩
  · rw [readBuf, slice?_eq _ _ _ (by omega) (by omega), content]
    have size : (slice r.buf r.start (min r.stop r.buf.length)).length = r.firstLen := by
      rw [slice_length, firstLen]
      omega
    rw [List.take_left' size]
  · simp only [firstLen, len]
    omega
  · intro flat
    simp only [isReadableContiguous, decide_eq_true_eq] at flat
    simp only [firstLen, len]
    omega

structure Stored (r s : RingBuffer) (bytes : List Byte) : Prop where
  valid : s.Valid
  content : s.content = bytes
  room : s.capacity = r.capacity
  flat : s.isReadableContiguous = r.isReadableContiguous
  first : s.firstLen = r.firstLen

section
variable {r : RingBuffer} (valid : r.Valid)
include valid

/-- A store keeps the bounds of the readable bytes, so it is compared cell by cell. -/
theorem store_spec {buf : List Byte}
    (size : buf.length = r.buf.length) {bytes : List Byte} (length : bytes.length = r.len)
    (cells : ∀ i, i < r.len → buf[r.position i]? = bytes[i]?) :
    Stored r { r with buf } bytes := by
  have valid' : Valid { r with buf } := by
    refine ⟨valid.ordered, ?_, ?_, ?_⟩
    · rw [size]
      exact valid.fits
    · rw [size]
      exact valid.start_inside
    · rw [size]
      exact valid.tmp_large
  refine ⟨valid', ?_,
    size, by simp only [isReadableContiguous, size], by simp only [firstLen, size]⟩
  apply List.ext_getElem?
  intro i
  rw [content_getElem? valid']
  have same_position : position { r with buf } i = r.position i := by
    simp only [position, size]
  have same_len : len { r with buf } = r.len := rfl
  rw [same_position, same_len]
  split
  · rename_i inside
    exact cells i inside
  · rename_i outside
    rw [List.getElem?_eq_none (by omega)]

theorem storeBuf_spec {data : List Byte}
    (fits : data.length ≤ r.firstLen) :
    Stored r (r.storeBuf data) (data ++ r.content.drop data.length) := by
  have h1 := valid.ordered
  have h2 := valid.fits
  have h3 := valid.start_inside
  have width := content_length valid
  have room : r.start + data.length ≤ r.buf.length := by
    simp only [firstLen] at fits
    omega
  refine store_spec valid (overlay_length _ _ _ room) ?_ ?_
  · simp only [List.length_append, List.length_drop, width]
    have := (readBuf_eq valid).2.1
    omega
  · intro i inside
    rw [overlay_getElem? _ _ _ room, List.getElem?_append, List.getElem?_drop,
      content_getElem? valid]
    have bound := inside
    simp only [firstLen, len] at fits bound
    by_cases early : i < data.length
    · have here : r.position i = r.start + i := by
        simp only [position]
        rw [if_pos (by omega)]
      rw [here, if_neg (by omega), if_pos (by omega), if_pos early]
      congr 1
      omega
    · rw [if_neg early, show data.length + (i - data.length) = i by omega, if_pos inside]
      simp only [position]
      split
      · rw [if_neg (by omega), if_neg (by omega)]
      · rw [if_pos (by omega)]

theorem storeBufs_spec {bufs : List (List Byte)}
    (slices : r.readBufs 2 = some bufs) {others : List (List Byte)}
    (sizes : others.map List.length = bufs.map List.length) :
    Stored r (r.storeBufs others) others.flatten := by
  have h1 := valid.ordered
  have h2 := valid.fits
  have h3 := valid.start_inside
  have width := content_length valid
  by_cases wrapped : r.buf.length < r.stop
  · have part1 : (slice r.buf 0 r.start).length = r.start := by
      rw [slice_length]
      omega
    have slices_eq : bufs = [slice r.buf r.start r.buf.length,
        slice (slice r.buf 0 r.start) 0 (r.stop - r.buf.length)] := by
      rw [readBufs, if_neg (by decide), if_pos ⟨wrapped, Nat.le_refl 2⟩] at slices
      simp only [slice?_eq r.buf 0 r.start (by omega) (by omega),
        slice?_eq r.buf r.start r.buf.length (by omega)
        (by omega), slice?_eq (slice r.buf 0 r.start) 0 (r.stop - r.buf.length) (by omega)
          (by omega),
        Option.bind_eq_bind, Option.bind_some, Option.pure_def, Option.some.injEq] at slices
      exact slices.symm
    subst slices_eq
    have two : others.length = 2 := by simpa using congrArg List.length sizes
    obtain ⟨part2, rest, rfl⟩ := List.length_eq_two.mp two
    simp only [List.map_cons, List.map_nil, List.cons.injEq, and_true, slice_length] at sizes
    obtain ⟨len2, lenr⟩ := sizes
    have fits2 : r.start + part2.length ≤ r.buf.length := by omega
    have size2 := overlay_length r.buf r.start part2 fits2
    have fitsr : 0 + rest.length ≤ (overlay r.buf r.start part2).length := by omega
    have size := (overlay_length _ 0 rest fitsr).trans size2
    simp only [storeBufs]
    refine store_spec valid size ?_ ?_
    · simp only [List.flatten_cons, List.flatten_nil, List.append_nil, List.length_append, len]
      omega
    · intro i inside
      rw [overlay_getElem? _ _ _ fitsr, overlay_getElem? _ _ _ fits2]
      simp only [List.flatten_cons, List.flatten_nil, List.append_nil, List.getElem?_append]
      simp only [len] at inside
      simp only [position]
      split
      · rw [if_neg (by omega), if_neg (by omega), if_neg (by omega), if_pos (by omega),
          if_pos (by omega)]
        congr 1
        omega
      · rw [if_neg (by omega), if_pos (by omega), if_neg (by omega)]
        congr 1
        omega
  · have slices_eq : bufs = [slice r.buf r.start r.stop] := by
      rw [readBufs, if_neg (by decide), if_neg (fun both => wrapped both.1)] at slices
      simp only [slice?_eq r.buf r.start r.stop (by omega) (by omega), Option.bind_eq_bind,
        Option.bind_some, Option.pure_def, Option.some.injEq] at slices
      exact slices.symm
    subst slices_eq
    have one : others.length = 1 := by simpa using congrArg List.length sizes
    obtain ⟨all, rfl⟩ := List.length_eq_one_iff.mp one
    simp only [List.map_cons, List.map_nil, List.cons.injEq, and_true, slice_length] at sizes
    have fits : all.length ≤ r.firstLen := by
      simp only [firstLen]
      omega
    have stored := storeBuf_spec valid fits
    have none_left : r.content.drop all.length = [] := by
      rw [List.drop_eq_nil_iff, width, len]
      omega
    rw [none_left, List.append_nil] at stored
    simpa [storeBufs] using stored

end

end RingBuffer
end PushpinRingBuffer
