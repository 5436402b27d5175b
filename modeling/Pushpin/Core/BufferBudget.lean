import Pushpin.Core.RingQueue
import Pushpin.Foundations.Text

/-!
The expansion budget of `core/buffer.rs`. A budget takes blocks from a counter
that all connections share, one block for every expansion of a full buffer, and
gives them back when the buffer shrinks. The counter is a number that the
operations are given and return. `none` is a panic.
-/
namespace PushpinBudget
open PushpinRingBuffer Text

/-- `Counter::inc`; `none` is the `CounterError`. -/
def Counter.inc (value amount : Nat) : Option Nat :=
  if amount = 0 then some value
  else if amount > usizeEnd - 1 - value then none
  else some (value + amount)

def Counter.dec (value amount : Nat) : Option Nat :=
  if amount = 0 then some value
  else if amount > value then none
  else some (value - amount)

structure BufferBudget where
  blocksMax : Option Nat
  blockSize : Nat
  blocksUsed : Nat
  deriving DecidableEq, Repr

namespace BufferBudget

def new (blocksMax : Option Nat) (blockSize : Nat) : BufferBudget := ⟨blocksMax, blockSize, 0⟩

def localLimitOk (b : BufferBudget) : Bool := b.blocksMax.all fun max => decide (b.blocksUsed < max)

/-- What one expansion leaves behind: the counter, the budget and the buffer,
    and the number of bytes by which the buffer has grown. -/
def expandBufferIfNeeded (b : BufferBudget) (counter : Nat) (buf : RingBuffer) :
    Option (Nat × BufferBudget × RingBuffer × Nat) :=
  if buf.remainingCapacity = 0 ∧ b.localLimitOk then
    match Counter.dec counter 1 with
    | some counter => do
      let buf ← buf.resize (buf.capacity + b.blockSize)
      return (counter, { b with blocksUsed := b.blocksUsed + 1 }, buf, b.blockSize)
    | none => some (counter, b, buf, 0)
  else some (counter, b, buf, 0)

def releaseBlocks (b : BufferBudget) (counter count : Nat) : Option (Nat × BufferBudget) := do
  let count := min count b.blocksUsed
  let counter ← Counter.inc counter count
  return (counter, { b with blocksUsed := b.blocksUsed - count })

def shrinkBuffer (b : BufferBudget) (counter : Nat) (buf : RingBuffer) (target : Nat) :
    Option (Nat × BufferBudget × RingBuffer) :=
  if buf.capacity > target then
    if b.blockSize ≠ 0 ∧ (buf.capacity - target) % b.blockSize = 0 then do
      let shrunk ← buf.resize target
      let (counter, b) ← b.releaseBlocks counter ((buf.capacity - target) / b.blockSize)
      return (counter, b, shrunk)
    else none
  else some (counter, b, buf)

def drop (b : BufferBudget) (counter : Nat) : Option Nat := Counter.inc counter b.blocksUsed

def limit (b : BufferBudget) (total : Nat) : Nat := (b.blocksMax.map (min total)).getD total

end BufferBudget

theorem Counter.inc_fits {value amount : Nat} (fits : value + amount < usizeEnd) :
    Counter.inc value amount = some (value + amount) := by
  unfold Counter.inc
  by_cases nothing : amount = 0
  · simp [nothing]
  · have room : ¬ amount > usizeEnd - 1 - value := by omega
    simp only [nothing, room, ↓reduceIte]

theorem Counter.dec_one (value : Nat) :
    Counter.dec value 1 = if value = 0 then none else some (value - 1) := by
  simp only [Counter.dec, Nat.one_ne_zero, ↓reduceIte]
  by_cases zero : value = 0
  · simp [zero]
  · have present : ¬ 1 > value := by omega
    simp only [zero, present, ↓reduceIte]

namespace BufferBudget

theorem limit_of_room {b : BufferBudget} {total : Nat} (room : b.localLimitOk = true)
    (some_left : b.blocksUsed < total) : b.blocksUsed + 1 ≤ b.limit total := by
  unfold localLimitOk at room
  unfold limit
  cases bound : b.blocksMax with
  | none => exact some_left
  | some max =>
    rw [bound] at room
    simp only [Option.all_some, decide_eq_true_eq] at room
    simp only [Option.map_some, Option.getD_some]
    omega

/-- An expansion either changes nothing, or it takes one block from the counter
    and adds a block of room to a full buffer. -/
theorem expandBufferIfNeeded_spec (b : BufferBudget) (counter : Nat) {buf : RingBuffer}
    (valid : buf.Valid) : b.expandBufferIfNeeded counter buf = some (counter, b, buf, 0) ∨
    buf.remainingCapacity = 0 ∧ b.localLimitOk = true ∧ 0 < counter ∧
      (buf.capacity + b.blockSize ≤ buf.tmp.length → ∃ grown,
        b.expandBufferIfNeeded counter buf =
          some (counter - 1, { b with blocksUsed := b.blocksUsed + 1 }, grown, b.blockSize) ∧
        grown.Valid ∧ grown.queue = ⟨buf.capacity + b.blockSize, buf.content⟩ ∧
        grown.tmp.length = buf.tmp.length) := by
  by_cases needed : buf.remainingCapacity = 0 ∧ b.localLimitOk = true
  · by_cases zero : counter = 0
    · left
      simp [expandBufferIfNeeded, needed, Counter.dec_one, zero]
    · right
      refine ⟨needed.1, needed.2, by omega, ?_⟩
      intro fits
      obtain ⟨grown, resized, valid', queue', tmp'⟩ := RingBuffer.resize_spec valid _ fits
      refine ⟨grown, ?_, valid', ?_, tmp'⟩
      · simp [expandBufferIfNeeded, needed, Counter.dec_one, zero, resized]
      · have short : buf.content.length ≤ buf.capacity + b.blockSize := by
          have held := RingBuffer.content_length valid
          have inside := valid.fits
          simp only [RingBuffer.len] at held
          simp only [RingBuffer.capacity]
          omega
        rw [queue']
        simp only [Queue.resize, RingBuffer.queue, List.take_of_length_le short]
  · left
    simp [expandBufferIfNeeded, needed]

theorem shrinkBuffer_spec (b : BufferBudget) (counter blocks target : Nat) {buf : RingBuffer}
    (valid : buf.Valid) (whole : buf.capacity = target + blocks * b.blockSize)
    (held : blocks ≤ b.blocksUsed)
    (sized : blocks ≠ 0 → b.blockSize ≠ 0) (empty : buf.content = [])
    (fits : counter + blocks < usizeEnd) :
    ∃ shrunk, b.shrinkBuffer counter buf target =
        some (counter + blocks, { b with blocksUsed := b.blocksUsed - blocks }, shrunk) ∧
      shrunk.Valid ∧ shrunk.queue = ⟨target, []⟩ ∧ shrunk.tmp.length = buf.tmp.length := by
  by_cases grown : blocks = 0
  · subst grown
    rw [Nat.zero_mul, Nat.add_zero] at whole
    refine ⟨buf, ?_, valid, ?_, rfl⟩
    · simp [shrinkBuffer, whole]
    · simp only [RingBuffer.queue, whole, empty]
  · have positive := sized grown
    have more : 0 < blocks * b.blockSize := Nat.mul_pos (by omega) (by omega)
    have extra : buf.capacity - target = blocks * b.blockSize := by omega
    have tmp := valid.tmp_large
    have smaller : target ≤ buf.tmp.length := by
      simp only [RingBuffer.capacity] at whole
      omega
    obtain ⟨shrunk, resized, valid', queue', tmp'⟩ := RingBuffer.resize_spec valid target smaller
    refine ⟨shrunk, ?_, valid', ?_, tmp'⟩
    · have count : min blocks b.blocksUsed = blocks := by omega
      have blocks_of : blocks * b.blockSize / b.blockSize = blocks :=
        Nat.mul_div_cancel _ (by omega)
      have larger : buf.capacity > target := by omega
      simp [shrinkBuffer, larger, positive, extra, resized, releaseBlocks, blocks_of, count,
        Counter.inc_fits fits]
    · rw [queue']
      simp [Queue.resize, RingBuffer.queue, empty]

end BufferBudget
end PushpinBudget
