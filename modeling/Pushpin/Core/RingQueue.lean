import Mathlib.Data.List.InsertIdx
import Pushpin.Core.RingBuffer

namespace PushpinRingBuffer
open Slices RingBuffer

structure Queue where
  cap : Nat
  bytes : List Byte
  deriving DecidableEq, Repr

def RingBuffer.queue (r : RingBuffer) : Queue := ⟨r.capacity, r.content⟩

def Queue.free (q : Queue) : Nat := q.cap - q.bytes.length

def Queue.push (q : Queue) (data : List Byte) : Queue := { q with bytes := q.bytes ++ data }

def Queue.writeResult (q : Queue) (data : List Byte) : Except ErrorKind Nat :=
  if data ≠ [] ∧ q.free = 0 then .error .writeZero else .ok (min data.length q.free)

def Queue.write (q : Queue) (data : List Byte) : Queue := q.push (data.take q.free)

def Queue.drop (q : Queue) (amount : Nat) : Queue := { q with bytes := q.bytes.drop amount }

def Queue.resize (q : Queue) (size : Nat) : Queue := ⟨size, q.bytes.take size⟩

namespace RingBuffer

variable {r : RingBuffer}

theorem remainingCapacity_eq_free (valid : r.Valid) : r.remainingCapacity = r.queue.free := by
  simp only [remainingCapacity, queue, Queue.free, content_length valid, capacity, len]

theorem writeLoop_spec (rounds : Nat) (valid : r.Valid) (data : List Byte)
    (pos : Nat) (inside : pos ≤ data.length) (enough : data.length - pos ≤ rounds) :
    ∃ r', writeLoop rounds r data pos =
        some (r', pos + min (data.length - pos) r.remainingCapacity) ∧ r'.Valid ∧
      r'.content = r.content ++ (data.drop pos).take r.remainingCapacity ∧
      r'.capacity = r.capacity ∧ r'.tmp = r.tmp := by
  induction rounds generalizing r pos with
  | zero =>
    have done : pos = data.length := by omega
    subst done
    exact ⟨r, by simp [writeLoop], valid, by simp, rfl, rfl⟩
  | succ rounds ih =>
    by_cases more : pos < data.length ∧ 0 < r.remainingCapacity
    · obtain ⟨dest, hdest, width, room, nonempty⟩ := writeBuf_spec valid
      have progress := nonempty more.2
      have piece : (slice data pos (pos + min dest.length (data.length - pos))).length =
          min dest.length (data.length - pos) := by rw [slice_length]; omega
      obtain ⟨f, r₁, filled, committed, valid₁, content₁, cap₁, tmp₁, _⟩ :=
        fill_commit_spec valid (slice data pos (pos + min dest.length (data.length - pos)))
          (min dest.length (data.length - pos)) (by omega) (by omega)
      have left : r₁.remainingCapacity =
          r.remainingCapacity - min dest.length (data.length - pos) := by
        rw [remainingCapacity_eq_free valid, remainingCapacity_eq_free valid₁]
        simp only [queue, Queue.free, cap₁, content₁, List.length_append, List.length_take, piece]
        omega
      obtain ⟨r₂, run, valid₂, content₂, cap₂, tmp₂⟩ :=
        ih valid₁ (pos + min dest.length (data.length - pos)) (by omega) (by omega)
      refine ⟨r₂, ?_, valid₂, ?_, cap₂.trans cap₁, tmp₂.trans tmp₁⟩
      · have src := slice?_eq data pos (pos + min dest.length (data.length - pos))
          (by omega) (by omega)
        have total : pos + min dest.length (data.length - pos) +
            min (data.length - (pos + min dest.length (data.length - pos)))
              (r.remainingCapacity - min dest.length (data.length - pos)) =
            pos + min (data.length - pos) r.remainingCapacity := by omega
        rw [left, total] at run
        simp [writeLoop, more, hdest, src, filled, committed, run]
      · have chop : (slice data pos (pos + min dest.length (data.length - pos))).take
            (min dest.length (data.length - pos)) =
            (data.drop pos).take (min dest.length (data.length - pos)) := by
          rw [List.take_of_length_le (Nat.le_of_eq piece), slice, List.drop_take]
          congr 1
          omega
        rw [content₂, content₁, left, chop, List.append_assoc, ← List.drop_drop, ← List.take_add]
        congr 2
        omega
    · refine ⟨r, ?_, valid, ?_, rfl, rfl⟩
      · have stop : min (data.length - pos) r.remainingCapacity = 0 := by omega
        simp [writeLoop, more, stop]
      · by_cases full : r.remainingCapacity = 0
        · simp [full]
        · have done : data.length ≤ pos := by omega
          simp [List.drop_eq_nil_of_le done]

section
variable (valid : r.Valid)
include valid

theorem write_spec (data : List Byte) :
    ∃ r', r.write data = some (r', r.queue.writeResult data) ∧ r'.Valid ∧
      r'.queue = r.queue.write data ∧ r'.tmp = r.tmp := by
  have free := remainingCapacity_eq_free valid
  by_cases full : data ≠ [] ∧ r.queue.free = 0
  · refine ⟨r, ?_, valid, ?_, rfl⟩
    · simp [write, Queue.writeResult, free, full]
    · simp [Queue.write, Queue.push, full.2]
  · obtain ⟨r', run, valid', content', cap', tmp'⟩ :=
      writeLoop_spec data.length valid data 0 (Nat.zero_le _) (Nat.le_refl _)
    simp only [Nat.zero_add, Nat.sub_zero, free, List.drop_zero] at run content'
    refine ⟨r', ?_, valid', ?_, tmp'⟩
    · simp [write, Queue.writeResult, free, full, run]
    · simp only [queue, Queue.write, Queue.push, cap'] at content' ⊢
      rw [content']

theorem readBuf_spec :
    ∃ b rest, r.readBuf = some b ∧ r.content = b ++ rest ∧ (b = [] → rest = []) ∧
      (r.isReadableContiguous = true → rest = []) := by
  have h1 := valid.ordered
  have h2 := valid.fits
  have h3 := valid.start_inside
  refine ⟨_, r.buf.take (r.stop - r.buf.length), slice?_eq _ _ _ (by omega) (by omega), rfl, ?_, ?_⟩
  · intro empty
    have size := slice_length r.buf r.start (min r.stop r.buf.length)
    rw [empty, List.length_nil] at size
    have flat : r.stop - r.buf.length = 0 := by omega
    simp [flat]
  · intro flat
    simp only [isReadableContiguous, decide_eq_true_eq] at flat
    have zero : r.stop - r.buf.length = 0 := by omega
    simp [zero]

theorem readBufs_spec (count : Nat)
    (slots : 2 ≤ count ∨ count = 1 ∧ r.isReadableContiguous = true) :
    ∃ bufs, r.readBufs count = some bufs ∧ bufs.flatten = r.content ∧ bufs.length ≤ count := by
  have h1 := valid.ordered
  have h2 := valid.fits
  have h3 := valid.start_inside
  have nonzero : count ≠ 0 := by omega
  by_cases wrapped : r.buf.length < r.stop
  · have two : 2 ≤ count := by
      rcases slots with h | ⟨_, flat⟩
      · exact h
      · simp only [isReadableContiguous, decide_eq_true_eq] at flat; omega
    have part1 : (slice r.buf 0 r.start).length = r.start := by rw [slice_length]; omega
    refine ⟨[slice r.buf r.start r.buf.length,
      slice (slice r.buf 0 r.start) 0 (r.stop - r.buf.length)], ?_, ?_, ?_⟩
    · simp [readBufs, nonzero, wrapped, two, slice?_eq r.buf 0 r.start (by omega) (by omega),
        slice?_eq r.buf r.start r.buf.length (by omega) (Nat.le_refl _),
        slice?_eq (slice r.buf 0 r.start) 0 (r.stop - r.buf.length) (by omega) (by omega)]
    · have whole : min r.stop r.buf.length = r.buf.length := by omega
      have short : min (r.stop - r.buf.length) r.start = r.stop - r.buf.length := by omega
      simp [content, whole, slice, List.take_take, short]
    · simpa using two
  · refine ⟨[slice r.buf r.start r.stop], ?_, ?_, ?_⟩
    · simp [readBufs, nonzero, wrapped, slice?_eq r.buf r.start r.stop h1 (by omega)]
    · simp [content_of_contiguous (Nat.le_of_not_lt wrapped)]
    · simp; omega

theorem readCommit_spec (amount : Nat) (within : amount ≤ r.len) :
    ∃ r', r.readCommit amount = some r' ∧ r'.Valid ∧ r'.queue = r.queue.drop amount ∧
      r'.tmp = r.tmp ∧ (r.isReadableContiguous = true → r'.isReadableContiguous = true) := by
  have h1 := valid.ordered
  have h2 := valid.fits
  have h3 := valid.start_inside
  have h4 := valid.tmp_large
  simp only [len] at within
  have inside : r.start + amount ≤ r.stop := by omega
  -- each outcome keeps `buf`, so only the view of the bytes has to be compared
  have view : ∀ start stop : Nat, Valid { r with start := start, stop := stop } →
      stop - start = r.len - amount →
      (∀ i, i < r.len - amount →
        position { r with start := start, stop := stop } i = r.position (amount + i)) →
      queue { r with start := start, stop := stop } = r.queue.drop amount := by
    intro start stop fresh width moved
    simp only [queue, Queue.drop, capacity, Queue.mk.injEq, true_and]
    apply List.ext_getElem?
    intro i
    rw [content_getElem? fresh, List.getElem?_drop, content_getElem? valid]
    simp only [len] at width moved ⊢
    by_cases hi : i < r.stop - r.start - amount
    · have now : i < stop - start := by omega
      have before : amount + i < r.stop - r.start := by omega
      simp only [now, before, ↓reduceIte, moved i hi]
    · have now : ¬ i < stop - start := by omega
      have before : ¬ amount + i < r.stop - r.start := by omega
      simp only [now, before, ↓reduceIte]
  by_cases empty : r.start + amount = r.stop
  · refine ⟨{ r with start := 0, stop := 0 }, by simp [readCommit, empty], ?_, ?_, rfl, ?_⟩
    · exact ⟨Nat.le_refl _, by simp, Or.inl rfl, h4⟩
    · apply view 0 0 ⟨Nat.le_refl _, by simp, Or.inl rfl, h4⟩
      · simp only [len]; omega
      · intro i hi; simp only [len] at hi; omega
    · simp [isReadableContiguous]
  · by_cases past : r.buf.length ≤ r.start + amount
    · have fresh : Valid { r with
          start := r.start + amount - r.buf.length, stop := r.stop - r.buf.length } := by
        refine ⟨?_, ?_, ?_, h4⟩ <;> simp only <;> omega
      refine ⟨_, by simp only [readCommit, inside, empty, past, ↓reduceIte], fresh, ?_, rfl, ?_⟩
      · apply view _ _ fresh
        · simp only [len]; omega
        · intro i hi
          simp only [len] at hi
          simp only [position]
          split <;> split <;> omega
      · simp only [isReadableContiguous, decide_eq_true_eq]
        omega
    · have fresh : Valid { r with start := r.start + amount } := by
        refine ⟨?_, ?_, ?_, h4⟩ <;> simp only <;> omega
      refine ⟨_, by simp only [readCommit, inside, empty, past, ↓reduceIte], fresh, ?_, rfl, ?_⟩
      · apply view _ _ fresh
        · simp only [len]; omega
        · intro i hi
          simp only [len] at hi
          simp only [position]
          split <;> split <;> omega
      · simp [isReadableContiguous]

theorem takeInner_spec :
    ∃ r' b, r.takeInner = some (r', b) ∧ r'.Valid ∧ r'.queue = ⟨0, []⟩ ∧
      r'.tmp.length = r.tmp.length ∧ b.filled ≤ b.data.length ∧
      b.data.length = r.capacity ∧ b.data.take b.filled = r.content := by
  obtain ⟨a, n, run, good⟩ := align_spec valid
  have ha := good.valid.fits
  have flat : a.stop ≤ a.buf.length := by rw [good.flat] at ha; omega
  refine ⟨{ a with buf := [], stop := 0 }, ⟨a.buf, a.stop⟩, ?_, ?_, ?_, good.tmp, flat,
    good.room, ?_⟩
  · simp [takeInner, run, FilledBuf.new, flat]
  · refine ⟨?_, by simp, Or.inl good.flat, Nat.zero_le _⟩
    simp [good.flat]
  · simp [queue, capacity, content, slice]
  · rw [← good.same, content_of_contiguous flat, good.flat, slice, List.drop_zero]

end

theorem setInner_spec (b : FilledBuf) (filled : b.filled ≤ b.data.length)
    (fits : b.data.length ≤ r.tmp.length) :
    ∃ r', r.setInner b = some r' ∧ r'.Valid ∧
      r'.queue = ⟨b.data.length, b.data.take b.filled⟩ ∧ r'.tmp = r.tmp := by
  refine ⟨{ r with
    buf := b.data, start := 0, stop := b.filled }, by simp [setInner, fits], ?_, ?_, rfl⟩
  · exact ⟨Nat.zero_le _, by simpa using filled, Or.inl rfl, fits⟩
  · have flat : ({ r with buf := b.data, start := 0, stop := b.filled } : RingBuffer).stop ≤
        b.data.length := filled
    simp only [queue, capacity, content_of_contiguous flat, slice, List.drop_zero]

theorem swapInner_spec {other : RingBuffer} (valid : r.Valid) (valid' : other.Valid)
    (fits : other.capacity ≤ r.tmp.length) (fits' : r.capacity ≤ other.tmp.length) :
    ∃ r' other', r.swapInner other = some (r', other') ∧ r'.Valid ∧ other'.Valid ∧
      r'.queue = other.queue ∧ other'.queue = r.queue ∧
      r'.tmp.length = r.tmp.length ∧ other'.tmp.length = other.tmp.length := by
  obtain ⟨r₁, b, take, _, _, tmp₁, filled, size, bytes⟩ := takeInner_spec valid
  obtain ⟨o₁, c, take', _, _, tmp₁', filled', size', bytes'⟩ := takeInner_spec valid'
  obtain ⟨r₂, set, valid₂, queue₂, tmp₂⟩ := setInner_spec (r := r₁) c filled' (by omega)
  obtain ⟨o₂, set', valid₂', queue₂', tmp₂'⟩ := setInner_spec (r := o₁) b filled (by omega)
  refine ⟨r₂, o₂, ?_, valid₂, valid₂', ?_, ?_, by rw [tmp₂, tmp₁], by rw [tmp₂', tmp₁']⟩
  · simp [swapInner, take, take', set, set']
  · rw [queue₂, size', bytes']; rfl
  · rw [queue₂', size, bytes]; rfl

theorem vecResize_length (xs : List Byte) (size : Nat) : (vecResize xs size).length = size := by
  simp [vecResize]
  omega

theorem resize_spec (valid : r.Valid) (size : Nat) (fits : size ≤ r.tmp.length) :
    ∃ r', r.resize size = some r' ∧ r'.Valid ∧ r'.queue = r.queue.resize size ∧
      r'.tmp.length = r.tmp.length := by
  by_cases same : size = r.buf.length
  · refine ⟨r, by simp [resize, same], valid, ?_, rfl⟩
    have short := content_length valid
    have h2 := valid.fits
    simp only [len] at short
    simp only [queue, Queue.resize, capacity, same]
    rw [List.take_of_length_le (by omega)]
  · obtain ⟨a, n, run, good⟩ := align_spec valid
    have ha := good.valid.fits
    have flat : a.stop ≤ a.buf.length := by rw [good.flat] at ha; omega
    have size' := vecResize_length a.buf size
    have tmp := good.tmp
    refine ⟨{ a with buf := vecResize a.buf size, stop := min a.stop size }, ?_, ?_, ?_, good.tmp⟩
    · simp [resize, same, run]
    · refine ⟨?_, ?_, Or.inl good.flat, ?_⟩
      · simp [good.flat]
      · simp only [size']; omega
      · simp only [size']; omega
    · have inside : ({ a with buf := vecResize a.buf size, stop := min a.stop size } :
          RingBuffer).stop ≤ (vecResize a.buf size).length := by simp only [size']; omega
      have bytes : r.content = a.buf.take a.stop := by
        rw [← good.same, content_of_contiguous flat, good.flat, slice, List.drop_zero]
      have kept : min a.stop size ≤ (a.buf.take size).length := by
        simp only [List.length_take]; omega
      have least : min (min a.stop size) size = min size a.stop := by omega
      simp only [queue, Queue.resize, capacity, size', content_of_contiguous inside, bytes]
      rw [good.flat, slice, List.drop_zero, vecResize, List.take_append_of_le_length kept,
        List.take_take, List.take_take, least]

end RingBuffer

structure Rings where
  first : RingBuffer
  second : RingBuffer
  held : List FilledBuf
  deriving DecidableEq, Repr

inductive Side where
  | first
  | second
  deriving DecidableEq, Repr

def Rings.get (s : Rings) : Side → RingBuffer
  | .first => s.first
  | .second => s.second

def Rings.set (s : Rings) (r : RingBuffer) : Side → Rings
  | .first => { s with first := r }
  | .second => { s with second := r }

inductive Op where
  | write (side : Side) (data : List Byte)
  | fill (side : Side) (data : List Byte) (amount : Nat)
  | readBuf (side : Side)
  | readBufs (side : Side) (count : Nat)
  | readCommit (side : Side) (amount : Nat)
  | align (side : Side)
  | resize (side : Side) (size : Nat)
  | clear (side : Side)
  | takeInner (side : Side)
  | setInner (side : Side) (index : Nat)
  | swapInner
  deriving DecidableEq, Repr

inductive Out where
  | nothing
  | wrote (result : Except ErrorKind Nat)
  | bytes (bs : List Byte)
  | segments (bss : List (List Byte))
  | contiguous (flag : Bool)

def Rings.step (s : Rings) : Op → Option (Rings × Out)
  | .write side data => do
    let (r, result) ← (s.get side).write data
    return (s.set r side, .wrote result)
  | .fill side data amount => do
    let r ← (s.get side).fillWriteBuf data
    let r ← r.writeCommit amount
    return (s.set r side, .nothing)
  | .readBuf side => do
    let bs ← (s.get side).readBuf
    return (s, .bytes bs)
  | .readBufs side count => do
    let bss ← (s.get side).readBufs count
    return (s, .segments bss)
  | .readCommit side amount => do
    let r ← (s.get side).readCommit amount
    return (s.set r side, .nothing)
  | .align side => do
    let (r, _) ← (s.get side).align
    return (s.set r side, .contiguous r.isReadableContiguous)
  | .resize side size => do
    let r ← (s.get side).resize size
    return (s.set r side, .nothing)
  | .clear side => some (s.set (s.get side).clear side, .nothing)
  | .takeInner side => do
    let (r, b) ← (s.get side).takeInner
    return ({ s.set r side with held := s.held ++ [b] }, .nothing)
  | .setInner side index => do
    let b ← s.held[index]?
    let r ← (s.get side).setInner b
    return ({ s.set r side with held := s.held.eraseIdx index }, .nothing)
  | .swapInner => do
    let (r, other) ← s.first.swapInner s.second
    return ({ s with first := r, second := other }, .nothing)

def Rings.run (s : Rings) : List Op → Option (Rings × List Out)
  | [] => some (s, [])
  | op :: ops => do
    let (s, out) ← s.step op
    let (s, outs) ← s.run ops
    return (s, out :: outs)

/-- The documented preconditions of the callers. Storing stays inside the
    offered slice, commits stay inside what was stored or is readable, and
    capacities stay within the temporary buffer. -/
def Rings.Admissible (s : Rings) : Op → Prop
  | .fill side data amount => amount ≤ data.length ∧
      data.length ≤ (s.get side).writeRange.2 - (s.get side).writeRange.1
  | .readBufs side count =>
      2 ≤ count ∨ count = 1 ∧ (s.get side).isReadableContiguous = true
  | .readCommit side amount => amount ≤ (s.get side).len
  | .resize side size => size ≤ (s.get side).tmp.length
  | .setInner side index => ∃ h : index < s.held.length,
      (s.held.get ⟨index, h⟩).data.length ≤ (s.get side).tmp.length
  | .swapInner => s.second.capacity ≤ s.first.tmp.length ∧ s.first.capacity ≤ s.second.tmp.length
  | _ => True

instance (s : Rings) (op : Op) : Decidable (s.Admissible op) := by
  cases op <;> simp only [Rings.Admissible] <;> infer_instance

def Rings.admissibleRun (s : Rings) : List Op → Bool
  | [] => true
  | op :: ops => decide (s.Admissible op) &&
      match s.step op with
      | some (s', _) => s'.admissibleRun ops
      | none => true

structure Queues where
  first : Queue
  second : Queue
  held : List Queue
  deriving DecidableEq, Repr

def Queues.get (q : Queues) : Side → Queue
  | .first => q.first
  | .second => q.second

def Queues.set (q : Queues) (b : Queue) : Side → Queues
  | .first => { q with first := b }
  | .second => { q with second := b }

def Queues.step (q : Queues) : Op → Queues
  | .write side data => q.set ((q.get side).write data) side
  | .fill side data amount => q.set ((q.get side).push (data.take amount)) side
  | .readCommit side amount => q.set ((q.get side).drop amount) side
  | .resize side size => q.set ((q.get side).resize size) side
  | .clear side => q.set { q.get side with bytes := [] } side
  | .takeInner side => { q.set ⟨0, []⟩ side with held := q.held ++ [q.get side] }
  | .setInner side index =>
      { q.set (q.held[index]?.getD ⟨0, []⟩) side with held := q.held.eraseIdx index }
  | .swapInner => { q with first := q.second, second := q.first }
  | .readBuf _ | .readBufs _ _ | .align _ => q

/-- What the caller of an operation may observe, given the queues before it. -/
def Queues.Observes (q : Queues) : Op → Out → Prop
  | .write side data, .wrote result => result = (q.get side).writeResult data
  | .readBuf side, .bytes bs => bs <+: (q.get side).bytes ∧ (bs = [] → (q.get side).bytes = [])
  | .readBufs side count, .segments bss =>
      bss.flatten = (q.get side).bytes ∧ bss.length ≤ count
  | .align _, .contiguous flag => flag = true
  | .fill .., .nothing | .readCommit .., .nothing | .resize .., .nothing | .clear .., .nothing
  | .takeInner .., .nothing | .setInner .., .nothing | .swapInner, .nothing => True
  | _, _ => False

def Queues.ObservesRun (q : Queues) : List Op → List Out → Prop
  | [], [] => True
  | op :: ops, out :: outs => q.Observes op out ∧ (q.step op).ObservesRun ops outs
  | _, _ => False

def FilledBuf.queue (b : FilledBuf) : Queue := ⟨b.data.length, b.data.take b.filled⟩

def Rings.queues (s : Rings) : Queues := ⟨s.first.queue, s.second.queue, s.held.map FilledBuf.queue⟩

structure Rings.Valid (s : Rings) : Prop where
  first : s.first.Valid
  second : s.second.Valid
  held : ∀ b ∈ s.held, b.filled ≤ b.data.length

variable {s : Rings}

theorem rings_get_valid (valid : s.Valid) (side : Side) : (s.get side).Valid := by
  cases side
  · exact valid.first
  · exact valid.second

theorem rings_set_valid (valid : s.Valid) {r : RingBuffer} (good : r.Valid)
    (side : Side) : (s.set r side).Valid := by
  cases side
  · exact ⟨good, valid.second, valid.held⟩
  · exact ⟨valid.first, good, valid.held⟩

@[simp] theorem rings_set_held (s : Rings) (r : RingBuffer) (side : Side) :
    (s.set r side).held = s.held := by
  cases side <;> rfl

@[simp] theorem rings_queues_get (s : Rings) (side : Side) :
    s.queues.get side = (s.get side).queue := by
  cases side <;> rfl

@[simp] theorem rings_queues_set (s : Rings) (r : RingBuffer) (side : Side) :
    (s.set r side).queues = s.queues.set r.queue side := by
  cases side <;> rfl

@[simp] theorem queues_set_self (s : Rings) (side : Side) :
    s.queues.set (s.get side).queue side = s.queues := by
  cases side <;> rfl

theorem rings_step_refines (valid : s.Valid) (op : Op) (adm : s.Admissible op) :
    ∃ s' out, s.step op = some (s', out) ∧ s'.Valid ∧ s'.queues = s.queues.step op ∧
      s.queues.Observes op out := by
  cases op with
  | write side data =>
    obtain ⟨r, run, good, view, _⟩ := write_spec (rings_get_valid valid side) data
    refine ⟨s.set r side,
      _, by simp [Rings.step, run]; rfl, rings_set_valid valid good side, ?_, ?_⟩
    · simp [Queues.step, view]
    · simp [Queues.Observes]
  | fill side data amount =>
    obtain ⟨f, r, filled, committed, good, bytes, cap, _, _⟩ :=
      fill_commit_spec (rings_get_valid valid side) data amount adm.2 adm.1
    refine ⟨s.set r side, .nothing, by simp [Rings.step, filled, committed],
      rings_set_valid valid good side, ?_, trivial⟩
    simp [Queues.step, Queue.push, queue, cap, bytes]
  | readBuf side =>
    obtain ⟨bs, rest, run, split, empty, _⟩ := readBuf_spec (rings_get_valid valid side)
    refine ⟨s, .bytes bs, by simp [Rings.step, run], valid, rfl, ?_⟩
    simp only [Queues.Observes, rings_queues_get, queue, split]
    exact ⟨List.prefix_append _ _, fun none => by simp [none, empty none]⟩
  | readBufs side count =>
    obtain ⟨bss, run, all, few⟩ := readBufs_spec (rings_get_valid valid side) count adm
    refine ⟨s, .segments bss, by simp [Rings.step, run], valid, rfl, ?_⟩
    simpa [Queues.Observes, queue] using ⟨all, few⟩
  | readCommit side amount =>
    obtain ⟨r, run, good, view, _, _⟩ := readCommit_spec (rings_get_valid valid side) amount adm
    refine ⟨s.set r side, .nothing, by simp [Rings.step, run], rings_set_valid valid good side, ?_,
      trivial⟩
    simp [Queues.step, view]
  | align side =>
    obtain ⟨r, n, run, good⟩ := align_spec (rings_get_valid valid side)
    have flat : r.stop ≤ r.buf.length := by
      have := good.valid.fits; rw [good.flat] at this; omega
    have view : r.queue = (s.get side).queue := by simp only [queue, good.room, good.same]
    refine ⟨s.set r side, _, by simp [Rings.step, run]; rfl, rings_set_valid valid good.valid side,
      ?_, ?_⟩
    · simp [Queues.step, view]
    · simpa [Queues.Observes, isReadableContiguous] using flat
  | resize side size =>
    obtain ⟨r, run, good, view, _⟩ := resize_spec (rings_get_valid valid side) size adm
    refine ⟨s.set r side, .nothing, by simp [Rings.step, run], rings_set_valid valid good side, ?_,
      trivial⟩
    simp [Queues.step, view]
  | clear side =>
    obtain ⟨good, bytes, cap⟩ := clear_valid (rings_get_valid valid side)
    refine ⟨s.set (s.get side).clear side, .nothing, rfl, rings_set_valid valid good side, ?_,
      trivial⟩
    simp [Queues.step, queue, bytes, cap]
  | takeInner side =>
    obtain ⟨r, b, run, good, view, _, filled, size, bytes⟩ :=
      takeInner_spec (rings_get_valid valid side)
    have kept := rings_set_valid valid good side
    refine ⟨{ s.set r side with held := s.held ++ [b] }, .nothing, by simp [Rings.step, run],
      ⟨kept.first, kept.second, ?_⟩, ?_, trivial⟩
    · intro c hc
      rcases List.mem_append.mp hc with old | new
      · exact valid.held c old
      · rw [List.mem_singleton.mp new]; exact filled
    · have taken : b.queue = (s.get side).queue := by
        simp only [FilledBuf.queue, queue, size, bytes]
      cases side <;> simp [Rings.queues, Queues.step, Queues.set, Queues.get, Rings.set, view,
        taken, Rings.get]
  | setInner side index =>
    obtain ⟨inside, fits⟩ := adm
    obtain ⟨b, found⟩ : ∃ b, s.held[index]? = some b := ⟨_, List.getElem?_eq_getElem inside⟩
    rw [List.get_eq_getElem, ← Option.some.inj (found.symm.trans (List.getElem?_eq_getElem inside))]
      at fits
    have filled := valid.held b (List.mem_of_getElem? found)
    obtain ⟨r, run, good, view, _⟩ := setInner_spec (r := s.get side) b filled fits
    have kept := rings_set_valid valid good side
    refine ⟨{ s.set r side with held := s.held.eraseIdx index }, .nothing,
      by simp [Rings.step, found, run], ⟨kept.first, kept.second, ?_⟩, ?_, trivial⟩
    · intro c hc
      exact valid.held c (List.mem_of_mem_eraseIdx hc)
    · cases side <;> simp [Rings.queues, Queues.step, Queues.set, Rings.set, view, found,
        List.eraseIdx_map, FilledBuf.queue]
  | swapInner =>
    obtain ⟨r, other, run, good, good', view, view', _, _⟩ :=
      swapInner_spec valid.first valid.second adm.1 adm.2
    refine ⟨{ s with first := r, second := other }, .nothing, by simp [Rings.step, run],
      ⟨good, good', valid.held⟩, ?_, trivial⟩
    simp [Rings.queues, Queues.step, view, view']

theorem rings_run_refines (ops : List Op) (valid : s.Valid)
    (adm : s.admissibleRun ops = true) :
    ∃ s' outs, s.run ops = some (s', outs) ∧ s'.Valid ∧
      s'.queues = ops.foldl Queues.step s.queues ∧ s.queues.ObservesRun ops outs := by
  induction ops generalizing s with
  | nil => exact ⟨s, [], rfl, valid, rfl, trivial⟩
  | cons op ops ih =>
    simp only [Rings.admissibleRun, Bool.and_eq_true, decide_eq_true_eq] at adm
    obtain ⟨s₁, out, step, valid₁, view₁, seen⟩ := rings_step_refines valid op adm.1
    obtain ⟨s₂, outs, run, valid₂, view₂, rest⟩ := ih valid₁ (by simpa [step] using adm.2)
    refine ⟨s₂, out :: outs, by simp [Rings.run, step, run], valid₂, ?_, seen, ?_⟩
    · rw [view₂, view₁, List.foldl_cons]
    · rw [← view₁]; exact rest

def Rings.new (size size' : Nat) (tmp tmp' : List Byte) : Option Rings := do
  let first ← RingBuffer.new size tmp
  let second ← RingBuffer.new size' tmp'
  return ⟨first, second, []⟩

theorem rings_new_valid {size size' : Nat} {tmp tmp' : List Byte}
    (made : Rings.new size size' tmp tmp' = some s) :
    s.Valid ∧ s.queues = ⟨⟨size, []⟩, ⟨size', []⟩, []⟩ := by
  simp only [Rings.new, Option.bind_eq_bind, Option.bind_eq_some_iff, Option.pure_def,
    Option.some.injEq] at made
  obtain ⟨first, h, second, h', rfl⟩ := made
  obtain ⟨valid, bytes, cap⟩ := new_valid h
  obtain ⟨valid', bytes', cap'⟩ := new_valid h'
  exact ⟨⟨valid, valid', by simp⟩, by simp [Rings.queues, queue, bytes, bytes', cap, cap']⟩

/-- Any run of admissible operations from fresh buffers reads what was written.
    The readable bytes are those of the queues, the operations report what the
    queues report, and no assertion fails and no index leaves its slice. -/
theorem ring_buffers_refine_queues (size size' : Nat) (tmp tmp' : List Byte) {s : Rings}
    (made : Rings.new size size' tmp tmp' = some s) (ops : List Op)
    (adm : s.admissibleRun ops = true) :
    ∃ s' outs, s.run ops = some (s', outs) ∧ s'.Valid ∧
      s'.queues = ops.foldl Queues.step ⟨⟨size, []⟩, ⟨size', []⟩, []⟩ ∧
      Queues.ObservesRun ⟨⟨size, []⟩, ⟨size', []⟩, []⟩ ops outs := by
  obtain ⟨valid, empty⟩ := rings_new_valid made
  rw [← empty]
  exact rings_run_refines ops valid adm

theorem wrapped_run_refines_queues :
    ∃ s s' outs, Rings.new 4 2 (List.replicate 8 0) (List.replicate 8 0) = some s ∧
      s.run [.write .first [1, 2, 3], .readCommit .first 2, .write .first [4, 5, 6],
        .readBufs .first 2, .align .first, .resize .first 6, .swapInner] = some (s', outs) ∧
      s'.queues = ⟨⟨2, []⟩, ⟨6, [3, 4, 5, 6]⟩, []⟩ := by
  obtain ⟨s', outs, run, _, view, _⟩ := ring_buffers_refine_queues 4 2 (List.replicate 8 0)
    (List.replicate 8 0) rfl
    [.write .first [1, 2, 3], .readCommit .first 2, .write .first [4, 5, 6],
      .readBufs .first 2, .align .first, .resize .first 6, .swapInner] (by decide)
  exact ⟨_, s', outs, rfl, run, by rw [view]; decide⟩

/-- `resize` below the readable length drops the newest bytes, and `align`
    refuses a buffer that was grown past its temporary buffer. -/
theorem resize_shrink_truncates_and_growth_blocks_align :
    (do
      let r ← RingBuffer.new 12 (List.replicate 16 0)
      let (r, _) ← r.write [1, 2, 3, 4, 5, 6, 7, 8, 9, 10]
      let r' ← r.resize 8
      return (r.content, r'.content)) =
        some ([1, 2, 3, 4, 5, 6, 7, 8, 9, 10], [1, 2, 3, 4, 5, 6, 7, 8]) ∧
    (do
      let r ← RingBuffer.new 4 (List.replicate 4 0)
      let (r, _) ← r.write [1, 2, 3]
      let r ← r.resize 8
      let r ← r.readCommit 1
      r.align) = none := by
  decide

end PushpinRingBuffer
