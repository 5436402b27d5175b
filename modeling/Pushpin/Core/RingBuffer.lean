import Mathlib.Tactic.SplitIfs
import Pushpin.Foundations.Slices

/-!
The byte ring buffer of `core/buffer.rs`. Every operation answers `none` where
the source panics: a failed assertion, an index or a slice out of range. The
field `stop` is the source's `end`; it runs past the capacity while the
readable bytes are wrapped. All arithmetic is unbounded Nat.
-/
namespace PushpinRingBuffer
open Slices

abbrev Byte := UInt8

inductive ErrorKind where
  | writeZero
  | wouldBlock
  | unexpectedEof
  | invalidInput
  deriving DecidableEq, Repr

structure FilledBuf where
  data : List Byte
  filled : Nat
  deriving DecidableEq, Repr

def FilledBuf.new (data : List Byte) (filled : Nat) : Option FilledBuf :=
  if filled ≤ data.length then some ⟨data, filled⟩ else none

structure RingBuffer where
  buf : List Byte
  start : Nat
  stop : Nat
  tmp : List Byte
  deriving DecidableEq, Repr

namespace RingBuffer

def new (size : Nat) (tmp : List Byte) : Option RingBuffer :=
  if size ≤ tmp.length then some ⟨List.replicate size 0, 0, 0, tmp⟩ else none

def capacity (r : RingBuffer) : Nat := r.buf.length

def clear (r : RingBuffer) : RingBuffer := { r with start := 0, stop := 0 }

def isReadableContiguous (r : RingBuffer) : Bool := decide (r.stop ≤ r.buf.length)

def len (r : RingBuffer) : Nat := r.stop - r.start

def remainingCapacity (r : RingBuffer) : Nat := r.buf.length - (r.stop - r.start)

/-- The wrapped case whose two parts cannot be moved without overlap: the
    smaller part goes through the temporary buffer. -/
def alignThroughTmp (r : RingBuffer) : Option (List Byte × List Byte) := do
  let leftSize := r.stop - r.buf.length
  let rightSize := r.buf.length - r.start
  let (lsize, lsrc, ldest, hsize, hsrc, hdest) :=
    if leftSize < rightSize then (leftSize, 0, rightSize, rightSize, r.start, 0)
    else (rightSize, r.start, 0, leftSize, 0, rightSize)
  let low ← slice? r.buf lsrc (lsrc + lsize)
  let tmp ← copyFromSlice? r.tmp 0 lsize low
  let buf ← copyWithin? r.buf hsrc (hsrc + hsize) hdest
  let saved ← slice? tmp 0 lsize
  let buf ← copyFromSlice? buf ldest (ldest + lsize) saved
  return (buf, tmp)

def align (r : RingBuffer) : Option (RingBuffer × Nat) :=
  if ¬ r.buf.length ≤ r.tmp.length then none
  else if r.start = 0 then some (r, 0)
  else
    let size := r.stop - r.start
    if r.stop ≤ r.buf.length then do
      let buf ← copyWithin? r.buf r.start r.buf.length 0
      return ({ r with buf, start := 0, stop := size }, size)
    else if size ≤ r.start then do
      let leftSize := r.stop - r.buf.length
      let rightSize := r.buf.length - r.start
      let buf ← copyWithin? r.buf 0 leftSize rightSize
      let buf ← copyWithin? buf r.start (r.start + rightSize) 0
      return ({ r with buf, start := 0, stop := size }, size)
    else do
      let (buf, tmp) ← r.alignThroughTmp
      return (⟨buf, 0, size, tmp⟩, size)

def writeRange (r : RingBuffer) : Nat × Nat :=
  if r.stop < r.buf.length then (r.stop, r.buf.length)
  else (r.stop - r.buf.length, r.start)

def writeBuf (r : RingBuffer) : Option (List Byte) :=
  slice? r.buf r.writeRange.1 r.writeRange.2

def writeCommit (r : RingBuffer) (amount : Nat) : Option RingBuffer :=
  if (r.stop - r.start) + amount ≤ r.buf.length then some { r with stop := r.stop + amount }
  else none

def fillWriteBuf (r : RingBuffer) (data : List Byte) : Option RingBuffer := do
  let dest ← r.writeBuf
  if data.length ≤ dest.length then
    let buf ← copyFromSlice? r.buf r.writeRange.1 (r.writeRange.1 + data.length) data
    return { r with buf }
  else none

/-- The loop of `write`; every round stores at least one byte, so as many
    rounds as there are bytes left are enough. -/
def writeLoop : Nat → RingBuffer → List Byte → Nat → Option (RingBuffer × Nat)
  | 0, r, data, pos =>
    if pos < data.length ∧ 0 < r.remainingCapacity then none else some (r, pos)
  | rounds + 1, r, data, pos =>
    if pos < data.length ∧ 0 < r.remainingCapacity then do
      let dest ← r.writeBuf
      let size := min dest.length (data.length - pos)
      let src ← slice? data pos (pos + size)
      let r ← r.fillWriteBuf src
      let r ← r.writeCommit size
      writeLoop rounds r data (pos + size)
    else some (r, pos)

def write (r : RingBuffer) (data : List Byte) : Option (RingBuffer × Except ErrorKind Nat) :=
  if data ≠ [] ∧ r.remainingCapacity = 0 then some (r, .error .writeZero)
  else do
    let (r, pos) ← writeLoop data.length r data 0
    return (r, .ok pos)

def readBuf (r : RingBuffer) : Option (List Byte) :=
  slice? r.buf r.start (min r.stop r.buf.length)

/-- `count` is the number of slots of the caller's scratch slice. -/
def readBufs (r : RingBuffer) (count : Nat) : Option (List (List Byte)) :=
  if count = 0 then none
  else if r.buf.length < r.stop ∧ 2 ≤ count then do
    let part1 ← slice? r.buf 0 r.start
    let part2 ← slice? r.buf r.start r.buf.length
    let rest ← slice? part1 0 (r.stop - r.buf.length)
    return [part2, rest]
  else do
    let all ← slice? r.buf r.start r.stop
    return [all]

def readCommit (r : RingBuffer) (amount : Nat) : Option RingBuffer :=
  if r.start + amount ≤ r.stop then
    let start := r.start + amount
    if start = r.stop then some { r with start := 0, stop := 0 }
    else if r.buf.length ≤ start then
      some { r with start := start - r.buf.length, stop := r.stop - r.buf.length }
    else some { r with start := start }
  else none

def takeInner (r : RingBuffer) : Option (RingBuffer × FilledBuf) := do
  let (r, _) ← r.align
  let filled ← FilledBuf.new r.buf r.stop
  return ({ r with buf := [], stop := 0 }, filled)

def setInner (r : RingBuffer) (b : FilledBuf) : Option RingBuffer :=
  if b.data.length ≤ r.tmp.length then some { r with buf := b.data, start := 0, stop := b.filled }
  else none

def swapInner (r other : RingBuffer) : Option (RingBuffer × RingBuffer) := do
  let (r, buf) ← r.takeInner
  let (other, otherBuf) ← other.takeInner
  let r ← r.setInner otherBuf
  let other ← other.setInner buf
  return (r, other)

def vecResize (xs : List Byte) (size : Nat) : List Byte :=
  xs.take size ++ List.replicate (size - xs.length) 0

def resize (r : RingBuffer) (size : Nat) : Option RingBuffer :=
  if size = r.buf.length then some r
  else do
    let (r, _) ← r.align
    return { r with buf := vecResize r.buf size, stop := min r.stop size }

/-- The representation invariant. The last field is the assertion of `new`,
    `set_inner` and `align`. -/
structure Valid (r : RingBuffer) : Prop where
  ordered : r.start ≤ r.stop
  fits : r.stop ≤ r.start + r.buf.length
  start_inside : r.start = 0 ∨ r.start < r.buf.length
  tmp_large : r.buf.length ≤ r.tmp.length

def content (r : RingBuffer) : List Byte :=
  slice r.buf r.start (min r.stop r.buf.length) ++ r.buf.take (r.stop - r.buf.length)

def position (r : RingBuffer) (i : Nat) : Nat :=
  if r.start + i < r.buf.length then r.start + i else r.start + i - r.buf.length

variable {r : RingBuffer}

theorem content_getElem? (valid : r.Valid) (i : Nat) :
    r.content[i]? = if i < r.len then r.buf[r.position i]? else none := by
  have h1 := valid.ordered
  have h2 := valid.fits
  have h3 := valid.start_inside
  have first : (slice r.buf r.start (min r.stop r.buf.length)).length =
      min r.stop r.buf.length - r.start := by
    rw [slice_length]; omega
  simp only [content, List.getElem?_append, first, slice_getElem?, List.getElem?_take, len,
    position]
  split
  · have inside : r.start + i < min r.stop r.buf.length := by omega
    have bound : i < r.stop - r.start := by omega
    have low : r.start + i < r.buf.length := by omega
    simp only [inside, bound, low, ↓reduceIte]
  · by_cases bound : i < r.stop - r.start
    · have inside : i - (min r.stop r.buf.length - r.start) < r.stop - r.buf.length := by omega
      have high : ¬ r.start + i < r.buf.length := by omega
      simp only [inside, bound, high, ↓reduceIte]
      congr 1
      omega
    · have outside : ¬ i - (min r.stop r.buf.length - r.start) < r.stop - r.buf.length := by omega
      simp only [outside, bound, ↓reduceIte]

theorem content_length (valid : r.Valid) : r.content.length = r.len := by
  have h1 := valid.ordered
  have h2 := valid.fits
  have h3 := valid.start_inside
  simp only [content, List.length_append, slice_length, List.length_take, len]
  omega

theorem content_of_contiguous (flat : r.stop ≤ r.buf.length) :
    r.content = slice r.buf r.start r.stop := by
  have none_wrapped : r.stop - r.buf.length = 0 := by omega
  simp [content, none_wrapped, Nat.min_eq_left flat]

theorem new_valid {size : Nat} {tmp : List Byte} (made : new size tmp = some r) :
    r.Valid ∧ r.content = [] ∧ r.capacity = size := by
  simp only [new, Option.ite_none_right_eq_some, Option.some.injEq] at made
  obtain ⟨fits, rfl⟩ := made
  refine ⟨⟨Nat.le_refl _, by simp, Or.inl rfl, by simpa using fits⟩, ?_, by simp [capacity]⟩
  simp [content, slice]

theorem clear_valid (valid : r.Valid) :
    r.clear.Valid ∧ r.clear.content = [] ∧ r.clear.capacity = r.capacity := by
  refine ⟨⟨Nat.le_refl _, by simp [clear], Or.inl rfl, valid.tmp_large⟩, ?_, rfl⟩
  simp [clear, content, slice]

structure Aligned (r a : RingBuffer) : Prop where
  valid : a.Valid
  same : a.content = r.content
  flat : a.start = 0
  room : a.capacity = r.capacity
  tmp : a.tmp.length = r.tmp.length

theorem aligned_of_front (valid : r.Valid) (buf tmp : List Byte)
    (size : buf.length = r.buf.length) (tmp_size : tmp.length = r.tmp.length)
    (moved : ∀ i, i < r.len → buf[i]? = r.buf[r.position i]?) :
    Aligned r ⟨buf, 0, r.len, tmp⟩ := by
  have h1 := valid.ordered
  have h2 := valid.fits
  have fresh : Valid ⟨buf, 0, r.len, tmp⟩ := by
    refine ⟨Nat.zero_le _, ?_, Or.inl rfl, ?_⟩
    · simp only [len]; omega
    · have := valid.tmp_large; simp only; omega
  refine ⟨fresh, ?_, rfl, size, tmp_size⟩
  apply List.ext_getElem?
  intro i
  rw [content_getElem? fresh, content_getElem? valid]
  have width : len ⟨buf, 0, r.len, tmp⟩ = r.len := by simp [len]
  rw [width]
  split
  · rename_i h
    rw [← moved i h]
    have low : i < buf.length := by simp only [len] at h; omega
    simp [position, low]
  · rfl

theorem align_copy_down (valid : r.Valid) (flat : r.stop ≤ r.buf.length) :
    ∃ buf, copyWithin? r.buf r.start r.buf.length 0 = some buf ∧
      Aligned r ⟨buf, 0, r.len, r.tmp⟩ := by
  have h1 := valid.ordered
  have h3 := valid.start_inside
  refine ⟨_, copyWithin?_eq _ _ _ _ (by omega) (Nat.le_refl _) (by omega), ?_⟩
  have width : (slice r.buf r.start r.buf.length).length = r.buf.length - r.start := by
    rw [slice_length]; omega
  apply aligned_of_front valid _ _ (overlay_length _ _ _ (by omega)) rfl
  intro i hi
  simp only [len] at hi
  rw [overlay_getElem? _ _ _ (by omega), slice_getElem?]
  have low : r.start + i < r.buf.length := by omega
  have before : i < 0 + (slice r.buf r.start r.buf.length).length := by omega
  simp only [Nat.not_lt_zero, before, low, position, ↓reduceIte, Nat.sub_zero]

theorem align_disjoint (valid : r.Valid) (wrapped : r.buf.length < r.stop)
    (disjoint : r.stop - r.start ≤ r.start) :
    ∃ buf buf', copyWithin? r.buf 0 (r.stop - r.buf.length) (r.buf.length - r.start) = some buf ∧
      copyWithin? buf r.start (r.start + (r.buf.length - r.start)) 0 = some buf' ∧
      Aligned r ⟨buf', 0, r.len, r.tmp⟩ := by
  have h1 := valid.ordered
  have h2 := valid.fits
  have h3 := valid.start_inside
  have left : (slice r.buf 0 (r.stop - r.buf.length)).length = r.stop - r.buf.length := by
    rw [slice_length]; omega
  have size : (overlay r.buf (r.buf.length - r.start)
      (slice r.buf 0 (r.stop - r.buf.length))).length = r.buf.length :=
    overlay_length _ _ _ (by omega)
  have right : (slice (overlay r.buf (r.buf.length - r.start)
      (slice r.buf 0 (r.stop - r.buf.length))) r.start
      (r.start + (r.buf.length - r.start))).length = r.buf.length - r.start := by
    rw [slice_length, size]; omega
  refine ⟨_, _, copyWithin?_eq _ _ _ _ (by omega) (by omega) (by omega),
    copyWithin?_eq _ _ _ _ (by omega) (by omega) (by omega), ?_⟩
  apply aligned_of_front valid _ _ ((overlay_length _ _ _ (by omega)).trans size) rfl
  intro i hi
  simp only [len] at hi
  rw [overlay_getElem? _ _ _ (by omega), right]
  by_cases low : i < r.buf.length - r.start
  · -- the right part, untouched by the first copy
    have before : i < 0 + (r.buf.length - r.start) := by omega
    have top : r.start + i < r.start + (r.buf.length - r.start) := by omega
    have past : ¬ r.start + i < r.buf.length - r.start := by omega
    have beyond : ¬ r.start + i < r.buf.length - r.start + (r.stop - r.buf.length) := by omega
    have inside : r.start + i < r.buf.length := by omega
    simp only [Nat.not_lt_zero, before, ↓reduceIte, Nat.sub_zero, slice_getElem?, top]
    rw [overlay_getElem? _ _ _ (by omega), left]
    simp only [past, beyond, position, inside, ↓reduceIte]
  · have after : ¬ i < 0 + (r.buf.length - r.start) := by omega
    have inside : i < r.buf.length - r.start + (r.stop - r.buf.length) := by omega
    have wrap : ¬ r.start + i < r.buf.length := by omega
    have source : 0 + (i - (r.buf.length - r.start)) < r.stop - r.buf.length := by omega
    simp only [Nat.not_lt_zero, after, ↓reduceIte]
    rw [overlay_getElem? _ _ _ (by omega), left]
    simp only [low, inside, ↓reduceIte, slice_getElem?, source, position, wrap]
    congr 1
    omega

/-- Moving a smaller part through the temporary buffer and the larger part in
    place, for any placement of the two parts side by side at the front. -/
theorem move_two_parts (buf tmp : List Byte) (lsize lsrc ldest hsize hsrc hdest : Nat)
    (lfits : lsrc + lsize ≤ buf.length) (hfits : hsrc + hsize ≤ buf.length)
    (lplace : ldest + lsize ≤ buf.length) (hplace : hdest + hsize ≤ buf.length)
    (tmp_fits : lsize ≤ tmp.length) :
    ∃ low tmp' buf' saved buf'', slice? buf lsrc (lsrc + lsize) = some low ∧
      copyFromSlice? tmp 0 lsize low = some tmp' ∧
      copyWithin? buf hsrc (hsrc + hsize) hdest = some buf' ∧
      slice? tmp' 0 lsize = some saved ∧
      copyFromSlice? buf' ldest (ldest + lsize) saved = some buf'' ∧
      tmp'.length = tmp.length ∧ buf''.length = buf.length ∧
      ∀ i, buf''[i]? = if ldest ≤ i ∧ i < ldest + lsize then buf[lsrc + (i - ldest)]?
        else if hdest ≤ i ∧ i < hdest + hsize then buf[hsrc + (i - hdest)]? else buf[i]? := by
  have low : (slice buf lsrc (lsrc + lsize)).length = lsize := by rw [slice_length]; omega
  have high : (slice buf hsrc (hsrc + hsize)).length = hsize := by rw [slice_length]; omega
  have tmp_size : (overlay tmp 0 (slice buf lsrc (lsrc + lsize))).length = tmp.length :=
    overlay_length _ _ _ (by omega)
  have buf_size : (overlay buf hdest (slice buf hsrc (hsrc + hsize))).length = buf.length :=
    overlay_length _ _ _ (by omega)
  have kept : slice (overlay tmp 0 (slice buf lsrc (lsrc + lsize))) 0 lsize =
      slice buf lsrc (lsrc + lsize) := by
    have whole := slice_self_overlay tmp 0 (slice buf lsrc (lsrc + lsize)) (by omega)
    rwa [low, Nat.zero_add] at whole
  refine ⟨_, _, _, slice buf lsrc (lsrc + lsize), _, slice?_eq _ _ _ (by omega) lfits,
    copyFromSlice?_eq _ _ _ _ (by omega) tmp_fits (by omega),
    copyWithin?_eq _ _ _ _ (by omega) hfits (by omega), ?_,
    copyFromSlice?_eq _ _ _ _ (by omega) (by omega) (by omega), tmp_size,
    (overlay_length _ _ _ (by omega)).trans buf_size, ?_⟩
  · rw [slice?_eq _ _ _ (by omega) (by omega), kept]
  · intro i
    rw [overlay_getElem? _ _ _ (by omega), overlay_getElem? _ _ _ (by omega), low, high,
      slice_getElem?, slice_getElem?]
    split_ifs <;> first | rfl | omega

section
variable (valid : r.Valid)
include valid

theorem align_through_tmp (wrapped : r.buf.length < r.stop) :
    ∃ buf tmp, r.alignThroughTmp = some (buf, tmp) ∧ Aligned r ⟨buf, 0, r.len, tmp⟩ := by
  have h1 := valid.ordered
  have h2 := valid.fits
  have h3 := valid.start_inside
  have h4 := valid.tmp_large
  by_cases smaller : r.stop - r.buf.length < r.buf.length - r.start
  · obtain ⟨low, tmp, buf, saved, buf', e1, e2, e3, e4, e5, ts, bs, cells⟩ :=
      move_two_parts r.buf r.tmp (r.stop - r.buf.length) 0 (r.buf.length - r.start)
        (r.buf.length - r.start) r.start 0 (by omega) (by omega) (by omega) (by omega) (by omega)
    rw [Nat.zero_add] at e1
    refine ⟨buf', tmp, ?_, aligned_of_front valid buf' tmp bs ts ?_⟩
    · simp [alignThroughTmp, smaller, e1, e2, e3, e4, e5]
    · intro i hi
      simp only [len] at hi
      rw [cells]
      unfold position
      split
      · have wrap : ¬ r.start + i < r.buf.length := by omega
        simp only [wrap, ↓reduceIte]
        congr 1
        omega
      · have low : 0 ≤ i ∧ i < 0 + (r.buf.length - r.start) := by omega
        have inside : r.start + i < r.buf.length := by omega
        simp only [low, inside, and_self, ↓reduceIte, Nat.sub_zero]
  · obtain ⟨low, tmp, buf, saved, buf', e1, e2, e3, e4, e5, ts, bs, cells⟩ :=
      move_two_parts r.buf r.tmp (r.buf.length - r.start) r.start 0
        (r.stop - r.buf.length) 0 (r.buf.length - r.start)
        (by omega) (by omega) (by omega) (by omega) (by omega)
    rw [Nat.zero_add] at e3 e5
    refine ⟨buf', tmp, ?_, aligned_of_front valid buf' tmp bs ts ?_⟩
    · simp [alignThroughTmp, smaller, e1, e2, e3, e4, e5]
    · intro i hi
      simp only [len] at hi
      rw [cells]
      unfold position
      split
      · have inside : r.start + i < r.buf.length := by omega
        simp only [inside, ↓reduceIte, Nat.sub_zero]
      · have high : r.buf.length - r.start ≤ i ∧
            i < r.buf.length - r.start + (r.stop - r.buf.length) := by omega
        have wrap : ¬ r.start + i < r.buf.length := by omega
        simp only [high, wrap, and_self, ↓reduceIte]
        congr 1
        omega

theorem aligned_self (flat : r.start = 0) : Aligned r r :=
  ⟨valid, rfl, flat, rfl, rfl⟩

theorem align_spec : ∃ a n, r.align = some (a, n) ∧ Aligned r a := by
  have h4 := valid.tmp_large
  by_cases zero : r.start = 0
  · exact ⟨r, 0, by simp [align, zero, h4], aligned_self valid zero⟩
  · by_cases flat : r.stop ≤ r.buf.length
    · obtain ⟨buf, run, good⟩ := align_copy_down valid flat
      exact ⟨_, r.len, by simp [align, zero, h4, flat, run, len], good⟩
    · have wrapped : r.buf.length < r.stop := by omega
      by_cases disjoint : r.stop - r.start ≤ r.start
      · obtain ⟨buf, buf', run, run', good⟩ := align_disjoint valid wrapped disjoint
        exact ⟨_, r.len, by simp [align, zero, h4, flat, disjoint, run, run', len], good⟩
      · obtain ⟨buf, tmp, run, good⟩ := align_through_tmp valid wrapped
        exact ⟨_, r.len, by simp [align, zero, h4, flat, disjoint, run, len], good⟩

theorem writeRange_spec :
    r.writeRange.1 ≤ r.writeRange.2 ∧ r.writeRange.2 ≤ r.buf.length ∧
      r.writeRange.2 - r.writeRange.1 ≤ r.remainingCapacity ∧
      (0 < r.remainingCapacity → r.writeRange.1 < r.writeRange.2) := by
  have h1 := valid.ordered
  have h2 := valid.fits
  have h3 := valid.start_inside
  simp only [writeRange, remainingCapacity]
  split <;> refine ⟨?_, ?_, ?_, ?_⟩ <;> omega

theorem position_free {j : Nat}
    (hj : j < r.writeRange.2 - r.writeRange.1) : r.position (r.len + j) = r.writeRange.1 + j := by
  have h1 := valid.ordered
  have h2 := valid.fits
  have h3 := valid.start_inside
  have back : r.start + (r.len + j) = r.stop + j := by simp only [len]; omega
  simp only [position, back]
  simp only [writeRange] at hj ⊢
  split at hj <;> rename_i h <;> simp only [h, ↓reduceIte] at hj ⊢ <;> split <;> omega

theorem writeBuf_spec :
    ∃ dest, r.writeBuf = some dest ∧ dest.length = r.writeRange.2 - r.writeRange.1 ∧
      dest.length ≤ r.remainingCapacity ∧ (0 < r.remainingCapacity → 0 < dest.length) := by
  obtain ⟨ordered, inside, fits, room⟩ := writeRange_spec valid
  have width : (slice r.buf r.writeRange.1 r.writeRange.2).length =
      r.writeRange.2 - r.writeRange.1 := by rw [slice_length]; omega
  exact ⟨_, slice?_eq _ _ _ ordered inside, width, by omega, by omega⟩

theorem position_occupied_ne {i j : Nat} (hi : i < r.len)
    (hj : j < r.writeRange.2 - r.writeRange.1) : r.position i ≠ r.writeRange.1 + j := by
  have h2 := valid.fits
  simp only [writeRange] at hj ⊢
  simp only [position, len] at hi ⊢
  split at hj <;> split <;> simp_all <;> omega

theorem fill_commit_spec (data : List Byte) (amount : Nat)
    (fits : data.length ≤ r.writeRange.2 - r.writeRange.1) (some_of : amount ≤ data.length) :
    ∃ f r', r.fillWriteBuf data = some f ∧ f.writeCommit amount = some r' ∧ r'.Valid ∧
      r'.content = r.content ++ data.take amount ∧ r'.capacity = r.capacity ∧
      r'.tmp = r.tmp ∧ r'.start = r.start := by
  have h1 := valid.ordered
  have h2 := valid.fits
  have h3 := valid.start_inside
  obtain ⟨ordered, inside, room, _⟩ := writeRange_spec valid
  obtain ⟨dest, hdest, width, _, _⟩ := writeBuf_spec valid
  have size : (overlay r.buf r.writeRange.1 data).length = r.buf.length :=
    overlay_length _ _ _ (by omega)
  simp only [remainingCapacity] at room
  have grown : Valid { r with
      buf := overlay r.buf r.writeRange.1 data, stop := r.stop + amount } := by
    refine ⟨?_, ?_, ?_, ?_⟩
    · simp only; omega
    · simp only [size]; omega
    · simp only [size]; exact h3
    · simp only [size]; exact valid.tmp_large
  refine ⟨{ r with buf := overlay r.buf r.writeRange.1 data }, _, ?_, ?_, grown, ?_, size, rfl, rfl⟩
  · have small : data.length ≤ dest.length := by omega
    have stored := copyFromSlice?_eq r.buf r.writeRange.1 (r.writeRange.1 + data.length) data
      (by omega) (by omega) (by omega)
    simp [fillWriteBuf, hdest, small, stored]
  · have room' : r.stop - r.start + amount ≤ r.buf.length := by omega
    simp [writeCommit, size, room']
  · apply List.ext_getElem?
    intro i
    rw [content_getElem? grown, List.getElem?_append, content_length valid]
    have same_position : ∀ k, position { r with
        buf := overlay r.buf r.writeRange.1 data, stop := r.stop + amount } k = r.position k := by
      intro k; simp only [position, size]
    rw [same_position]
    by_cases old : i < r.len
    · have still : i < len { r with
          buf := overlay r.buf r.writeRange.1 data, stop := r.stop + amount } := by
        simp only [len] at old ⊢; omega
      simp only [old, still, ↓reduceIte]
      rw [content_getElem? valid, overlay_getElem? _ _ _ (by omega)]
      have apart := fun j => position_occupied_ne valid (j := j) old
      simp only [old, ↓reduceIte]
      split
      · rfl
      · rename_i above
        split
        · rename_i below
          exact absurd (apart (r.position i - r.writeRange.1) (by omega)) (by simp; omega)
        · rfl
    · simp only [old, ↓reduceIte, List.getElem?_take]
      by_cases fresh : i - r.len < amount
      · have now : i < len { r with
            buf := overlay r.buf r.writeRange.1 data, stop := r.stop + amount } := by
          simp only [len] at old fresh ⊢; omega
        have spot := position_free valid (j := i - r.len) (by omega)
        have back : r.len + (i - r.len) = i := by omega
        rw [back] at spot
        simp only [now, fresh, ↓reduceIte, spot]
        rw [overlay_getElem? _ _ _ (by omega)]
        have past : ¬ r.writeRange.1 + (i - r.len) < r.writeRange.1 := by omega
        have before : r.writeRange.1 + (i - r.len) < r.writeRange.1 + data.length := by omega
        simp only [past, before, ↓reduceIte]
        congr 1
        omega
      · have late : ¬ i < len { r with
            buf := overlay r.buf r.writeRange.1 data, stop := r.stop + amount } := by
          simp only [len] at old fresh ⊢; omega
        simp only [late, fresh, ↓reduceIte]

end

end RingBuffer
end PushpinRingBuffer
