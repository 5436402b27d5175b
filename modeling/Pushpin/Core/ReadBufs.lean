import Pushpin.Core.RingQueue
import Pushpin.Foundations.Runs

namespace PushpinRingBuffer
open Slices
open Option (bind_eq_some_iff ite_none_right_eq_some)

namespace RingBuffer
variable {r a : RingBuffer}

structure Laid (r : RingBuffer) : Prop where
  ordered : r.start ≤ r.stop
  fits : r.stop ≤ r.start + r.buf.length
  start_inside : r.start = 0 ∨ r.start < r.buf.length

theorem Laid.of_valid (valid : r.Valid) : r.Laid := { valid with }

theorem Laid.valid (laid : r.Laid) : Valid { r with tmp := r.buf } :=
  { laid with tmp_large := Nat.le_refl r.buf.length }

theorem Laid.of_front (front : a.start = 0) (inside : a.stop ≤ a.buf.length) : a.Laid :=
  ⟨by omega, by omega, Or.inl front⟩

theorem Laid.same (laid : r.Laid) {buf : List Byte} (size : buf.length = r.buf.length) :
    Laid { r with buf } := by
  refine ⟨laid.ordered, ?_, ?_⟩
  · show r.stop ≤ r.start + buf.length
    rw [size]
    exact laid.fits
  · show r.start = 0 ∨ r.start < buf.length
    rw [size]
    exact laid.start_inside

theorem Laid.fillWriteBuf (laid : r.Laid) {data : List Byte}
    (filled : r.fillWriteBuf data = some a) : a.Laid := by
  obtain ⟨dest, -, filled⟩ := bind_eq_some_iff.mp filled
  obtain ⟨-, filled⟩ := ite_none_right_eq_some.mp filled
  obtain ⟨buf, copied, same⟩ := bind_eq_some_iff.mp filled
  cases same
  exact laid.same (copyFromSlice?_length copied)

theorem Laid.writeCommit (laid : r.Laid) {amount : Nat}
    (committed : r.writeCommit amount = some a) : a.Laid := by
  obtain ⟨room, same⟩ := ite_none_right_eq_some.mp committed
  cases same
  have ordered := laid.ordered
  exact ⟨Nat.le_add_right_of_le ordered, by dsimp only; omega, laid.start_inside⟩

theorem Laid.writeLoop {rounds pos n : Nat} {data : List Byte} (laid : r.Laid)
    (wrote : writeLoop rounds r data pos = some (a, n)) : a.Laid := by
  induction rounds generalizing r pos with
  | zero =>
    unfold RingBuffer.writeLoop at wrote
    split at wrote
    · cases wrote
    · cases wrote
      exact laid
  | succ rounds ih =>
    unfold RingBuffer.writeLoop at wrote
    split at wrote
    · obtain ⟨dest, -, wrote⟩ := bind_eq_some_iff.mp wrote
      obtain ⟨src, -, wrote⟩ := bind_eq_some_iff.mp wrote
      obtain ⟨filled, stored, wrote⟩ := bind_eq_some_iff.mp wrote
      obtain ⟨next, committed, wrote⟩ := bind_eq_some_iff.mp wrote
      exact ih ((laid.fillWriteBuf stored).writeCommit committed) wrote
    · cases wrote
      exact laid

theorem Laid.write (laid : r.Laid) {data : List Byte} {result : Except ErrorKind Nat}
    (wrote : r.write data = some (a, result)) : a.Laid := by
  unfold RingBuffer.write at wrote
  split at wrote
  · cases wrote
    exact laid
  · obtain ⟨⟨next, pos⟩, looped, same⟩ := bind_eq_some_iff.mp wrote
    cases same
    exact laid.writeLoop looped

theorem Laid.readCommit (laid : r.Laid) {amount : Nat} (committed : r.readCommit amount = some a) :
    a.Laid := by
  obtain ⟨ordered, fits, inside⟩ := laid
  unfold RingBuffer.readCommit at committed
  split at committed
  · dsimp only at committed
    split at committed
    · cases committed
      exact .of_front rfl (Nat.zero_le _)
    · split at committed
      · cases committed
        exact ⟨by dsimp only; omega, by dsimp only; omega, by dsimp only; omega⟩
      · cases committed
        exact ⟨by dsimp only; omega, by dsimp only; omega, by dsimp only; omega⟩
  · cases committed

theorem alignThroughTmp_length {buf tmp : List Byte} (moved : r.alignThroughTmp = some (buf, tmp)) :
    buf.length = r.buf.length := by
  unfold alignThroughTmp at moved
  dsimp only at moved
  generalize (if r.stop - r.buf.length < r.buf.length - r.start then _ else _) = parts at moved
  obtain ⟨lsize, lsrc, ldest, hsize, hsrc, hdest⟩ := parts
  obtain ⟨low, -, moved⟩ := bind_eq_some_iff.mp moved
  obtain ⟨tmp', -, moved⟩ := bind_eq_some_iff.mp moved
  obtain ⟨first, high, moved⟩ := bind_eq_some_iff.mp moved
  obtain ⟨saved, -, moved⟩ := bind_eq_some_iff.mp moved
  obtain ⟨second, back, same⟩ := bind_eq_some_iff.mp moved
  cases same
  rw [copyFromSlice?_length back, copyWithin?_length high]

theorem Laid.align (laid : r.Laid) {n : Nat} (aligned : r.align = some (a, n)) :
    a.start = 0 ∧ a.stop ≤ a.buf.length := by
  have room : r.stop - r.start ≤ r.buf.length := Nat.sub_le_iff_le_add'.mpr laid.fits
  unfold RingBuffer.align at aligned
  split at aligned
  · cases aligned
  · split at aligned
    · next front =>
      cases aligned
      exact ⟨front, by rw [front] at room; exact room⟩
    · dsimp only at aligned
      split at aligned
      · obtain ⟨buf, copied, same⟩ := bind_eq_some_iff.mp aligned
        cases same
        exact ⟨rfl, by rw [copyWithin?_length copied]; exact room⟩
      · split at aligned
        · obtain ⟨first, copied, aligned⟩ := bind_eq_some_iff.mp aligned
          obtain ⟨second, again, same⟩ := bind_eq_some_iff.mp aligned
          cases same
          exact ⟨rfl, by rw [copyWithin?_length again, copyWithin?_length copied]; exact room⟩
        · obtain ⟨⟨buf, tmp⟩, moved, same⟩ := bind_eq_some_iff.mp aligned
          cases same
          exact ⟨rfl, by rw [alignThroughTmp_length moved]; exact room⟩

theorem Laid.resize (laid : r.Laid) {size : Nat} (resized : r.resize size = some a) : a.Laid := by
  unfold RingBuffer.resize at resized
  split at resized
  · cases resized
    exact laid
  · obtain ⟨⟨front, n⟩, aligned, same⟩ := bind_eq_some_iff.mp resized
    cases same
    refine .of_front (laid.align aligned).1 ?_
    show min front.stop size ≤ (vecResize front.buf size).length
    rw [vecResize_length]
    exact Nat.min_le_right _ _

theorem Laid.takeInner (laid : r.Laid) {b : FilledBuf} (took : r.takeInner = some (a, b)) :
    a.Laid ∧ b.filled ≤ b.data.length := by
  obtain ⟨⟨front, n⟩, aligned, took⟩ := bind_eq_some_iff.mp took
  obtain ⟨filled, made, same⟩ := bind_eq_some_iff.mp took
  cases same
  obtain ⟨inside, same⟩ := ite_none_right_eq_some.mp made
  cases same
  exact ⟨.of_front (laid.align aligned).1 (Nat.zero_le _), inside⟩

theorem Laid.setInner {b : FilledBuf} (inside : b.filled ≤ b.data.length)
    (set_ : r.setInner b = some a) : a.Laid := by
  obtain ⟨-, same⟩ := ite_none_right_eq_some.mp set_
  cases same
  exact .of_front rfl inside

def ReadsBufs (r : RingBuffer) (count : Nat) : Prop :=
  ∃ bufs, r.readBufs count = some bufs ∧ bufs.length ≤ count ∧ bufs.flatten <+: r.content ∧
    (2 ≤ count ∨ r.isReadableContiguous = true → bufs.flatten = r.content)

theorem Laid.readBufs_iff (laid : r.Laid) (count : Nat) (slots : 1 ≤ count) :
    r.ReadsBufs count ↔ 2 ≤ count ∨ r.isReadableContiguous = true := by
  constructor
  · rintro ⟨bufs, read, -⟩
    by_contra neither
    obtain ⟨one, wrapped⟩ := not_or.mp neither
    simp only [isReadableContiguous, decide_eq_true_eq] at wrapped
    -- the only slot gets a slice that ends past the storage
    rw [RingBuffer.readBufs, if_neg (by omega), if_neg (by omega)] at read
    obtain ⟨all, slice_, -⟩ := bind_eq_some_iff.mp read
    obtain ⟨inside, -⟩ := ite_none_right_eq_some.mp slice_
    exact wrapped inside.2
  · intro fits
    have enough : 2 ≤ count ∨ count = 1 ∧ r.isReadableContiguous = true := by
      rcases fits with two | flat
      · exact Or.inl two
      · by_cases two : 2 ≤ count
        · exact Or.inl two
        · exact Or.inr ⟨by omega, flat⟩
    obtain ⟨bufs, read, same, few⟩ := readBufs_spec laid.valid count enough
    have same : bufs.flatten = r.content := same
    exact ⟨bufs, read, few, same ▸ List.prefix_refl _, fun _ => same⟩

/-- One readable byte is replaced, through a slice of `read_buf_mut` or `read_bufs_mut`. -/
def storeByte (r : RingBuffer) (index : Nat) (byte : Byte) : RingBuffer :=
  { r with buf := r.buf.set (r.position index) byte }

end RingBuffer

/-- What the callers do: the operations, stores to readable bytes, and filled buffers that
    they make themselves. -/
inductive Use where
  | op (op : Op)
  | store (side : Side) (index : Nat) (byte : Byte)
  | hold (data : List Byte) (filled : Nat)
  deriving DecidableEq

def Rings.use (s : Rings) : Use → Option Rings
  | .op op => (s.step op).map Prod.fst
  | .store side index byte => some (s.set ((s.get side).storeByte index byte) side)
  | .hold data filled => (FilledBuf.new data filled).map fun b => { s with held := s.held ++ [b] }

structure Rings.Laid (s : Rings) : Prop where
  get : ∀ side, (s.get side).Laid
  held : ∀ b ∈ s.held, b.filled ≤ b.data.length

variable {s t : Rings}

theorem Rings.Laid.set (laid : s.Laid) {r : RingBuffer} (good : r.Laid) (side : Side) :
    (s.set r side).Laid where
  get := fun side' => by
    cases side <;> cases side'
    · exact good
    · exact laid.get .second
    · exact laid.get .first
    · exact good
  held := by
    rw [rings_set_held]
    exact laid.held

theorem Rings.Laid.step (laid : s.Laid) {op : Op} {out : Out}
    (stepped : s.step op = some (t, out)) : t.Laid := by
  cases op with
  | write side data =>
    obtain ⟨⟨r, result⟩, wrote, same⟩ := bind_eq_some_iff.mp stepped
    cases same
    exact laid.set ((laid.get side).write wrote) side
  | fill side data amount =>
    obtain ⟨filled, stored, stepped⟩ := bind_eq_some_iff.mp stepped
    obtain ⟨r, committed, same⟩ := bind_eq_some_iff.mp stepped
    cases same
    exact laid.set (((laid.get side).fillWriteBuf stored).writeCommit committed) side
  | readBuf side =>
    obtain ⟨bytes, -, same⟩ := bind_eq_some_iff.mp stepped
    cases same
    exact laid
  | readBufs side count =>
    obtain ⟨bufs, -, same⟩ := bind_eq_some_iff.mp stepped
    cases same
    exact laid
  | readCommit side amount =>
    obtain ⟨r, committed, same⟩ := bind_eq_some_iff.mp stepped
    cases same
    exact laid.set ((laid.get side).readCommit committed) side
  | align side =>
    obtain ⟨⟨r, n⟩, aligned, same⟩ := bind_eq_some_iff.mp stepped
    cases same
    obtain ⟨front, inside⟩ := (laid.get side).align aligned
    exact laid.set (.of_front front inside) side
  | resize side size =>
    obtain ⟨r, resized, same⟩ := bind_eq_some_iff.mp stepped
    cases same
    exact laid.set ((laid.get side).resize resized) side
  | clear side =>
    cases stepped
    exact laid.set (.of_front rfl (Nat.zero_le _)) side
  | takeInner side =>
    obtain ⟨⟨r, b⟩, took, same⟩ := bind_eq_some_iff.mp stepped
    cases same
    obtain ⟨good, inside⟩ := (laid.get side).takeInner took
    have set_ := laid.set good side
    refine ⟨set_.get, fun b' mem => ?_⟩
    rcases List.mem_append.mp mem with old | new
    · exact laid.held b' old
    · rw [List.mem_singleton.mp new]
      exact inside
  | setInner side index =>
    obtain ⟨b, there, stepped⟩ := bind_eq_some_iff.mp stepped
    obtain ⟨r, set_, same⟩ := bind_eq_some_iff.mp stepped
    cases same
    have good := laid.set (.setInner (laid.held b (List.mem_of_getElem? there)) set_) side
    exact ⟨good.get, fun b' mem => laid.held b' (List.mem_of_mem_eraseIdx mem)⟩
  | swapInner =>
    obtain ⟨⟨r, other⟩, swapped, same⟩ := bind_eq_some_iff.mp stepped
    cases same
    obtain ⟨⟨first, buf⟩, took, swapped⟩ := bind_eq_some_iff.mp swapped
    obtain ⟨⟨second, otherBuf⟩, took', swapped⟩ := bind_eq_some_iff.mp swapped
    obtain ⟨r', set_, swapped⟩ := bind_eq_some_iff.mp swapped
    obtain ⟨other', set_', same⟩ := bind_eq_some_iff.mp swapped
    cases same
    refine ⟨fun side => ?_, laid.held⟩
    cases side
    · exact .setInner ((laid.get .second).takeInner took').2 set_
    · exact .setInner ((laid.get .first).takeInner took).2 set_'

theorem Rings.Laid.use (laid : s.Laid) {u : Use} (used : s.use u = some t) : t.Laid := by
  cases u with
  | op op =>
    obtain ⟨⟨t', out⟩, stepped, rfl⟩ := Option.map_eq_some_iff.mp used
    exact laid.step stepped
  | store side index byte =>
    cases used
    exact laid.set ((laid.get side).same List.length_set) side
  | hold data filled =>
    obtain ⟨b, made, rfl⟩ := Option.map_eq_some_iff.mp used
    obtain ⟨inside, same⟩ := ite_none_right_eq_some.mp made
    cases same
    refine ⟨laid.get, fun b' mem => ?_⟩
    rcases List.mem_append.mp mem with old | new
    · exact laid.held b' old
    · rw [List.mem_singleton.mp new]
      exact inside

/-- In every state that a run without a panic comes to, and for every scratch slice that is
    not empty, `read_bufs` gives the readable bytes if and only if the slice has two slots
    or the bytes are contiguous. -/
theorem readBufs_works_iff (size size' : Nat) (tmp tmp' : List Byte) {first last : Rings}
    (made : Rings.new size size' tmp tmp' = some first) (uses : List Use)
    (ran : Runs.run Rings.use first uses = some last) (side : Side) (count : Nat)
    (slots : 1 ≤ count) :
    (last.get side).ReadsBufs count ↔ 2 ≤ count ∨ (last.get side).isReadableContiguous = true := by
  have valid := (rings_new_valid made).1
  have start : first.Laid := ⟨fun side => .of_valid (rings_get_valid valid side), valid.held⟩
  have laid : last.Laid := Runs.run_kept Rings.Laid
    (fun _ _ _ laid _ used => laid.use used) start ran (Runs.along_of_forall fun _ _ _ => rfl)
  exact (laid.get side).readBufs_iff count slots

def wrappingUses : List Use :=
  [.op (.write .first [1, 2, 3]), .op (.readCommit .first 2), .store .first 0 9,
    .op (.write .first [4, 5, 6])]

theorem wrapped_reads_into_two_slots : ∃ first last, Rings.new 4 2 (List.replicate 4 0)
    [0, 0] = some first ∧
    Runs.run Rings.use first wrappingUses = some last ∧ (last.get .first).ReadsBufs 2 :=
  ⟨_, _, rfl, rfl, (readBufs_works_iff 4 2 (List.replicate 4 0) [0, 0] rfl wrappingUses rfl .first 2
    (by decide)).mpr (Or.inl (by decide))⟩

theorem wrapped_fails_in_one_slot : ∃ first last, Rings.new 4 2 (List.replicate 4 0)
    [0, 0] = some first ∧
    Runs.run Rings.use first wrappingUses = some last ∧ (last.get .first).readBufs 1 = none ∧
    ¬ (last.get .first).ReadsBufs 1 := by
  have failed : ∃ first last, Rings.new 4 2 (List.replicate 4 0) [0, 0] = some first ∧
      Runs.run Rings.use first wrappingUses = some last ∧ (last.get .first).readBufs 1 = none :=
        ⟨_, _, rfl, rfl, rfl⟩
  obtain ⟨first, last, made, ran, none_⟩ := failed
  refine ⟨first, last, made, ran, none_, ?_⟩
  rintro ⟨bufs, read, -⟩
  cases none_.symm.trans read

end PushpinRingBuffer
