import Pushpin.Http.HeaderBuffers

namespace PushpinHttp
open PushpinRingBuffer PushpinBudget Scanning Loops Text

theorem HeadParsers.parseHead_steady {p : HeadParsers} (steady : p.Steady) (role : Role) :
    Scanning.Steady (p.parseHead role) := by
  cases role with
  | server => exact (steady.request headersMax).judged .parse requestBodySize
  | client state => exact (steady.response headersMax).judged .parse (responseBodySize state)

theorem parseHead_error_not_remaining {p : HeadParsers} {role : Role} {bytes : List Byte}
    {why : Failure} (failed : p.parseHead role bytes = .error why) : why.isRemaining = false := by
  cases role with
  | server =>
    simp only [HeadParsers.parseHead, Parsed.judged, requestBodySize] at failed
    split at failed
    · cases failed
      rfl
    · cases failed
    · split at failed <;> cases failed
      rename_i judged
      split at judged <;> cases judged
      rfl
  | client state =>
    simp only [HeadParsers.parseHead, Parsed.judged, responseBodySize] at failed
    split at failed
    · cases failed
      rfl
    · cases failed
    · split at failed <;> cases failed
      rename_i judged
      split at judged <;> cases judged
      rfl

theorem writeAll_spec (rounds : Nat) {r : RingBuffer} (valid : r.Valid) (data : List Byte)
    (enough : data.length ≤ rounds) :
    ∃ r' result, writeAll rounds r data = some (r', result) ∧ r'.Valid ∧ r'.capacity = r.capacity ∧
      r'.tmp = r.tmp ∧ (result = .ok () ↔ data.length ≤ r.queue.free) ∧
      (result = .ok () → r'.content = r.content ++ data) := by
  induction rounds generalizing r data with
  | zero =>
    cases data with
    | nil => exact ⟨r, .ok (), rfl, valid, rfl, rfl, by simp, by simp⟩
    | cons b data => simp at enough
  | succ rounds ih =>
    cases data with
    | nil => exact ⟨r, .ok (), rfl, valid, rfl, rfl, by simp, by simp⟩
    | cons b data =>
      obtain ⟨r₁, wrote, valid₁, queue₁, tmp₁⟩ := RingBuffer.write_spec valid (b :: data)
      have cap₁ : r₁.capacity = r.capacity := congrArg Queue.cap queue₁
      have bytes₁ : r₁.content = r.content ++ (b :: data).take r.queue.free :=
        congrArg Queue.bytes queue₁
      by_cases full : r.queue.free = 0
      · refine ⟨r₁, .error .writeZero, ?_, valid₁, cap₁, tmp₁, by simp [full], by simp⟩
        simp [writeAll, wrote, Queue.writeResult, full]
      · obtain ⟨count, size⟩ : ∃ count, min (b :: data).length r.queue.free = count + 1 :=
          ⟨min (b :: data).length r.queue.free - 1, by simp only [List.length_cons]; omega⟩
        have free₁ : r₁.queue.free = r.queue.free - (count + 1) := by
          have held := congrArg List.length bytes₁
          simp only [List.length_append, List.length_take] at held
          simp only [RingBuffer.queue, Queue.free, cap₁] at size held ⊢
          omega
        obtain ⟨r₂, result, run, valid₂, cap₂, tmp₂, all, bytes₂⟩ :=
          ih valid₁ ((b :: data).drop (count + 1)) (by simp only [List.length_drop]; omega)
        refine ⟨r₂, result, ?_, valid₂, cap₂.trans cap₁, tmp₂.trans tmp₁, ?_, ?_⟩
        · have answer : r.queue.writeResult (b :: data) = .ok (count + 1) := by
            rw [← size]
            simp [Queue.writeResult, full]
          simp only [writeAll, wrote, answer, Option.bind_eq_bind, Option.bind_some]
          exact run
        · rw [all, free₁, List.length_drop]
          omega
        · intro ok
          have room := all.mp ok
          rw [free₁, List.length_drop] at room
          have taken : (b :: data).take r.queue.free = (b :: data).take (count + 1) := by
            rw [← size, List.take_eq_take_iff]
            omega
          rw [bytes₂ ok, bytes₁, taken, List.append_assoc, List.take_append_drop]

theorem recvNonzero_keeps {rbuf : RingBuffer} (valid : rbuf.Valid) {data : List Byte}
    (fits : data.length ≤ rbuf.writeRange.2 - rbuf.writeRange.1) :
    ∃ rbuf' result, recvNonzero rbuf data = some (rbuf', result) ∧ rbuf'.Valid ∧
      rbuf'.capacity = rbuf.capacity ∧ rbuf'.tmp = rbuf.tmp ∧ rbuf'.content = rbuf.content ++ data ∧
      (0 < rbuf.remainingCapacity → result ≠ .error .writeZero) := by
  by_cases full : rbuf.remainingCapacity = 0
  · have room := (RingBuffer.writeRange_spec valid).2.2.1
    have nothing : data = [] := List.length_eq_zero_iff.mp (by omega)
    refine ⟨rbuf,
      .error .writeZero, by simp [recvNonzero, full], valid, rfl, rfl, by simp [nothing], ?_⟩
    intro free
    omega
  · obtain ⟨f, rbuf', stored, committed, valid', bytes, cap, tmp, _⟩ :=
      RingBuffer.fill_commit_spec valid data data.length fits (Nat.le_refl _)
    refine ⟨rbuf', if data.length = 0 then .error .unexpectedEof else .ok (), ?_, valid', cap, tmp,
      ?_, ?_⟩
    · simp [recvNonzero, full, stored, committed]
    · rw [bytes, List.take_length]
    · intro _
      split <;> simp

namespace HeaderBuffers

def grant (budget : Option BufferBudget) (blocks : Nat) : Option BufferBudget :=
  budget.map fun b => { b with blocksUsed := b.blocksUsed + blocks }

def limit (c : HeaderBuffers) (total : Nat) : Nat := c.budget.elim 0 (BufferBudget.limit · total)

/-- A connection between two headers. The buffers share a temporary buffer that
    is large enough for what the budget allows. -/
structure Start (total : Nat) (c : HeaderBuffers) : Prop where
  phase : c.phase = .ready
  readable : c.rbuf.Valid
  writable : c.wbuf.Valid
  shared : c.wbuf.tmp.length = c.rbuf.tmp.length
  room : max c.rbuf.capacity c.wbuf.capacity + (c.limit total - c.blocksUsed) * c.blockSize ≤
    c.rbuf.tmp.length

def Even (c : HeaderBuffers) : Prop := c.rbuf.capacity = c.wbuf.capacity ∧
    c.blockSize ≤ c.rbuf.capacity

def Sizes (start : HeaderBuffers) (original other : Nat) : Prop :=
  original = start.rbuf.capacity ∧ other = start.wbuf.capacity ∨
    original = start.wbuf.capacity ∧ other = start.rbuf.capacity

structure Holds (start c : HeaderBuffers) (blocks : Nat) : Prop where
  readable : c.rbuf.Valid
  writable : c.wbuf.Valid
  read_tmp : c.rbuf.tmp.length = start.rbuf.tmp.length
  write_tmp : c.wbuf.tmp.length = start.rbuf.tmp.length
  budget : c.budget = grant start.budget blocks
  sized : blocks ≠ 0 → start.blockSize ≠ 0
  room : max start.rbuf.capacity start.wbuf.capacity + blocks * start.blockSize ≤
    start.rbuf.tmp.length

def Paid (start c : HeaderBuffers) : Prop :=
  c.rbuf.capacity + c.wbuf.capacity + start.blocksUsed * start.blockSize =
    start.rbuf.capacity + start.wbuf.capacity + c.blocksUsed * start.blockSize

/-- While a header is received: every block was added when the bytes up to its
    beginning were not a whole header. -/
structure Waits (p : HeadParsers) (start c : HeaderBuffers) (original other blocks : Nat) :
    Prop where
  sizes : Sizes start original other
  holds : Holds start c blocks
  read : c.rbuf.capacity = original + blocks * start.blockSize
  write : c.wbuf.queue = ⟨other, []⟩
  earned : blocks = 0 ∨ ∃ front, front <+: c.rbuf.content ∧
    front.length + start.blockSize = c.rbuf.capacity ∧ p.parseHead c.role front = .incomplete

structure Keeps (start c : HeaderBuffers) (kept : KeptHeader) (other blocks : Nat) : Prop where
  sizes : Sizes start kept.original other
  holds : Holds start c blocks
  read : c.rbuf.capacity = other
  write : c.wbuf.capacity = 0
  filled : kept.buf.filled ≤ kept.buf.data.length
  held : kept.buf.data.length = kept.original + blocks * start.blockSize

inductive Sound (p : HeadParsers) (start c : HeaderBuffers) : Prop
  | ready (phase : c.phase = .ready) (original other : Nat) (sizes : Sizes start original other)
      (holds : Holds start c 0) (read : c.rbuf.capacity = original)
      (write : c.wbuf.capacity = other)
  | receiving (original other blocks : Nat) (phase : c.phase = .receiving original)
      (waits : Waits p start c original other blocks) (free : 0 < c.rbuf.remainingCapacity)
  | keeping (kept : KeptHeader) (ended : Bool) (other blocks : Nat)
      (phase : c.phase = .keeping kept ended) (keeps : Keeps start c kept other blocks)
  | failed (why : Failure) (phase : c.phase = .failed why)
      (fits : start.Even → why.isRemaining = false) (paid : why.isRemaining = false → Paid start c)
  | closed (phase : c.phase = .closed) (dropped : c.budget = none)

variable {start c : HeaderBuffers} {blocks : Nat}

theorem blocksUsed_grant (budget : c.budget = grant start.budget blocks)
    (sized : blocks ≠ 0 → start.blockSize ≠ 0) : c.blocksUsed = start.blocksUsed + blocks := by
  unfold blocksUsed
  rw [budget]
  cases given : start.budget with
  | some b => rfl
  | none =>
    by_cases nothing : blocks = 0
    · simp [nothing, grant]
    · exact absurd (by simp [blockSize, given]) (sized nothing)

variable {p : HeadParsers} {original other : Nat}

theorem Waits.paid
    (waits : Waits p start c original other blocks) : Paid start c := by
  have used := blocksUsed_grant waits.holds.budget waits.holds.sized
  have read := waits.read
  have write : c.wbuf.capacity = other := congrArg Queue.cap waits.write
  have spread : c.blocksUsed * start.blockSize =
      start.blocksUsed * start.blockSize + blocks * start.blockSize := by rw [used, Nat.add_mul]
  unfold Paid
  rcases waits.sizes with ⟨h1, h2⟩ | ⟨h1, h2⟩ <;> omega

theorem tooLarge_not_remaining (c : HeaderBuffers) : c.tooLarge.isRemaining = false := by
  unfold tooLarge
  cases c.role <;> rfl

theorem Sizes.le_max (sizes : Sizes start original other) :
    original ≤ max start.rbuf.capacity start.wbuf.capacity ∧
      other ≤ max start.rbuf.capacity start.wbuf.capacity := by
  rcases sizes with ⟨rfl, rfl⟩ | ⟨rfl, rfl⟩ <;> omega

variable {total counter : Nat}

theorem grant_some {start : Option BufferBudget} {budget : BufferBudget}
    (granted : some budget = grant start blocks) :
    ∃ b, start = some b ∧ budget = { b with blocksUsed := b.blocksUsed + blocks } := by
  obtain ⟨b, at_start, eq⟩ := Option.map_eq_some_iff.mp granted.symm
  exact ⟨b, at_start, eq.symm⟩

theorem room_for_block {budget : BufferBudget}
    (begun : Start total start) (holds : Holds start c blocks) (given : c.budget = some budget)
    (shares : counter + c.blocksUsed ≤ total) (some_left : 0 < counter)
    (room : budget.localLimitOk = true) :
    max start.rbuf.capacity start.wbuf.capacity + (blocks + 1) * start.blockSize ≤
      start.rbuf.tmp.length := by
  have used := blocksUsed_grant holds.budget holds.sized
  have mine : c.blocksUsed = budget.blocksUsed := by simp [blocksUsed, given]
  have below := BufferBudget.limit_of_room room (by omega : budget.blocksUsed < total)
  have same : budget.limit total = start.limit total := by
    obtain ⟨b, at_start, rfl⟩ := grant_some (given.symm.trans holds.budget)
    simp [limit, at_start, BufferBudget.limit]
  have count : blocks + 1 ≤ start.limit total - start.blocksUsed := by omega
  have more := Nat.mul_le_mul_right start.blockSize count
  have whole := begun.room
  omega

theorem grant_succ {start : Option BufferBudget} {budget : BufferBudget}
    (granted : some budget = grant start blocks) :
    some { budget with blocksUsed := budget.blocksUsed + 1 } = grant start (blocks + 1) := by
  obtain ⟨b, rfl, rfl⟩ := grant_some granted
  simp only [grant, Option.map_some, Nat.add_assoc]

theorem blockSize_grant {budget : BufferBudget}
    (given : c.budget = some budget) (granted : c.budget = grant start.budget blocks) :
    budget.blockSize = start.blockSize := by
  obtain ⟨b, at_start, rfl⟩ := grant_some (given.symm.trans granted)
  simp [blockSize, at_start]

theorem content_of_full {r : RingBuffer} (valid : r.Valid) (full : r.remainingCapacity = 0) :
    r.content.length = r.capacity := by
  have held := RingBuffer.content_length valid
  have inside := valid.fits
  simp only [RingBuffer.remainingCapacity, RingBuffer.len, RingBuffer.capacity] at full held ⊢
  omega

theorem onWriteZero_spec
    (begun : Start total start) (waits : Waits p start c original other blocks)
    (shares : counter + c.blocksUsed ≤ total)
    (needed : c.rbuf.remainingCapacity = 0 → p.parseHead c.role c.rbuf.content = .incomplete) :
    (∃ c' counter', c.onWriteZero counter = some (.again (c', counter')) ∧
      Waits p start c' original other (blocks + 1) ∧ c.rbuf.remainingCapacity = 0 ∧
      0 < c'.rbuf.remainingCapacity ∧ counter' + c'.blocksUsed = counter + c.blocksUsed) ∨
    ∃ c' counter', c.onWriteZero counter = some (.done (c', counter') ()) ∧ Sound p start c' ∧
      counter' + c'.blocksUsed = counter + c.blocksUsed := by
  have holds := waits.holds
  cases given : c.budget with
  | none =>
    right
    refine ⟨{ c with phase := .failed c.tooLarge }, counter, ?_, ?_, rfl⟩
    · simp [onWriteZero, given]
    · exact .failed _ rfl (fun _ => tooLarge_not_remaining c) fun _ => waits.paid
  | some budget =>
    have block := blockSize_grant given holds.budget
    rcases budget.expandBufferIfNeeded_spec counter holds.readable with
      kept | ⟨full, room, some_left, grows⟩
    · right
      refine ⟨{ c with budget := some budget, phase := .failed c.tooLarge }, counter, ?_, ?_, ?_⟩
      · simp [onWriteZero, given, kept, tooLarge]
      · refine .failed _ rfl (fun _ => tooLarge_not_remaining c) fun _ => ?_
        rw [← given]
        exact waits.paid
      · simp [blocksUsed, given]
    · have fits := room_for_block begun holds given shares some_left room
      have larger := waits.sizes.le_max.1
      have read := waits.read
      have next : (blocks + 1) * start.blockSize = blocks * start.blockSize + start.blockSize :=
        Nat.succ_mul _ _
      obtain ⟨grown, run, valid, queue, tmp⟩ := grows (by rw [holds.read_tmp, block]; omega)
      have used : counter - 1 + (budget.blocksUsed + 1) = counter + c.blocksUsed := by
        simp only [blocksUsed, given, Option.elim_some]
        omega
      have cap : grown.capacity = c.rbuf.capacity + budget.blockSize := congrArg Queue.cap queue
      have bytes : grown.content = c.rbuf.content := congrArg Queue.bytes queue
      by_cases empty : budget.blockSize = 0
      · right
        refine ⟨{ c with
          budget := some { budget with blocksUsed := budget.blocksUsed + 1 }
          rbuf := grown
          phase := .failed (tooLarge { c with rbuf := grown }) }, counter - 1, ?_, ?_, used⟩
        · simp [onWriteZero, given, run, empty, tooLarge]
        · refine .failed _ rfl (fun _ => tooLarge_not_remaining _) fun _ => ?_
          have paid := waits.paid
          simp only [Paid, ← block, empty, Nat.mul_zero] at paid ⊢
          rw [cap, empty]
          exact paid
      · left
        refine ⟨{ c with
          budget := some { budget with blocksUsed := budget.blocksUsed + 1 }
          rbuf := grown }, counter - 1, ?_, ⟨waits.sizes, ?_, ?_, waits.write, ?_⟩, full, ?_, used⟩
        · simp [onWriteZero, given, run, Nat.pos_of_ne_zero empty]
        · refine ⟨valid, holds.writable, tmp.trans holds.read_tmp, holds.write_tmp, ?_, ?_, fits⟩
          · exact grant_succ (given.symm.trans holds.budget)
          · intro _
            omega
        · rw [cap]
          omega
        · -- the bytes that filled the buffer were no header
          right
          exact ⟨c.rbuf.content, by rw [bytes], by rw [cap, block,
            content_of_full holds.readable full], needed full⟩
        · rw [RingBuffer.remainingCapacity_eq_free valid, queue, Queue.free,
            content_of_full holds.readable full]
          exact Nat.sub_pos_of_lt (Nat.lt_add_of_pos_right (Nat.pos_of_ne_zero empty))

theorem setInner_contiguous {r r' : RingBuffer} {b : FilledBuf} (filled : b.filled ≤ b.data.length)
    (set : r.setInner b = some r') : r'.isReadableContiguous = true := by
  simp only [RingBuffer.setInner, Option.ite_none_right_eq_some, Option.some.injEq] at set
  obtain ⟨_, rfl⟩ := set
  simpa [RingBuffer.isReadableContiguous] using filled

/-- The bytes behind a header are fewer than the last block, or than the buffer
    if it has not grown. -/
theorem Waits.remaining_fits (steady : p.Steady)
    {size : Nat} {bodySize : BodySize} (waits : Waits p start c original other blocks)
    (even : start.Even) (done : p.parseHead c.role c.rbuf.content = .complete size bodySize) :
    (c.rbuf.content.drop size).length ≤ other := by
  have head := HeadParsers.parseHead_steady steady c.role
  have held := RingBuffer.content_length waits.holds.readable
  have inside := waits.holds.readable.fits
  have read := waits.read
  obtain ⟨equal, small⟩ := even
  have same : original = start.rbuf.capacity ∧ other = start.rbuf.capacity := by
    rcases waits.sizes with ⟨h1, h2⟩ | ⟨h1, h2⟩ <;> omega
  simp only [RingBuffer.len, RingBuffer.capacity] at held read
  rw [List.length_drop]
  rcases waits.earned with none_added | ⟨front, begins, fills, short⟩
  · rw [none_added, Nat.zero_mul] at read
    simp only [RingBuffer.capacity] at same
    omega
  · have beyond := head.incomplete_is_short begins short done
    simp only [RingBuffer.capacity] at same fills small
    omega

theorem Waits.set
    (waits : Waits p start c original other blocks) {rbuf : RingBuffer} (valid : rbuf.Valid)
    (cap : rbuf.capacity = c.rbuf.capacity) (begins : c.rbuf.content <+: rbuf.content)
    (tmp : rbuf.tmp.length = c.rbuf.tmp.length) :
    Waits p start { c with rbuf } original other blocks := by
  obtain ⟨sizes, holds, read, write, earned⟩ := waits
  refine ⟨sizes, ⟨valid, holds.writable, tmp.trans holds.read_tmp, holds.write_tmp, holds.budget,
    holds.sized, holds.room⟩, cap.trans read, write, ?_⟩
  rcases earned with zero | ⟨front, begun, fills, short⟩
  · exact .inl zero
  · exact .inr ⟨front, begun.trans begins, fills.trans cap.symm, short⟩

section
variable (steady : p.Steady) (begun : Start total start)
  (waits : Waits p start c original other blocks) (shares : counter + c.blocksUsed ≤ total)
include steady begun waits shares

theorem recvRound_spec :
    (∃ c' counter', recvRound p original (c, counter) = some (.again (c', counter')) ∧
      Waits p start c' original other (blocks + 1) ∧ c.rbuf.remainingCapacity = 0 ∧
      0 < c'.rbuf.remainingCapacity ∧ counter' + c'.blocksUsed = counter + c.blocksUsed) ∨
    ∃ c' counter', recvRound p original (c, counter) = some (.done (c', counter') ()) ∧
      Sound p start c' ∧ counter' + c'.blocksUsed = counter + c.blocksUsed := by
  have holds := waits.holds
  obtain ⟨empty, buf, take, valid₁, queue₁, tmp₁, filled, size, bytes⟩ :=
    RingBuffer.takeInner_spec holds.readable
  have fits : buf.data.length ≤ empty.tmp.length := by
    rw [size, tmp₁]
    exact holds.readable.tmp_large
  obtain ⟨rbuf, set, valid₂, queue₂, tmp₂⟩ := RingBuffer.setInner_spec buf filled fits
  have cap₂ : rbuf.capacity = c.rbuf.capacity := (congrArg Queue.cap queue₂).trans size
  have bytes₂ : rbuf.content = c.rbuf.content := (congrArg Queue.bytes queue₂).trans bytes
  have back : Waits p start { c with rbuf } original other blocks :=
    waits.set valid₂ cap₂ (by rw [bytes₂]) (by rw [tmp₂, tmp₁])
  cases parsed : p.parseHead c.role c.rbuf.content with
  | error why =>
    right
    refine ⟨{ c with rbuf, phase := .failed why }, counter, ?_, .failed why rfl ?_ fun _ =>
      back.paid, rfl⟩
    · simp [recvRound, take, bytes, parsed, set]
    · intro _
      exact parseHead_error_not_remaining parsed
  | incomplete =>
    have contiguous := setInner_contiguous filled set
    by_cases full : rbuf.remainingCapacity = 0
    · have room : c.rbuf.remainingCapacity = 0 := by
        rw [RingBuffer.remainingCapacity_eq_free holds.readable]
        rw [RingBuffer.remainingCapacity_eq_free valid₂] at full
        simpa only [RingBuffer.queue, Queue.free, cap₂, bytes₂] using full
      have run : recvRound p original (c, counter) = onWriteZero { c with rbuf } counter := by
        simp [recvRound, take, bytes, parsed, set, contiguous, full]
      rw [run]
      rcases onWriteZero_spec begun back shares (fun _ => by rw [bytes₂]; exact parsed) with
        ⟨c', counter', again, more, _, free, same⟩ | ⟨c', counter', done, sound, same⟩
      · exact .inl ⟨c', counter', again, more, room, free, same⟩
      · exact .inr ⟨c', counter', done, sound, same⟩
    · right
      refine ⟨{ c with rbuf, phase := .receiving original }, counter, ?_, ?_, rfl⟩
      · simp [recvRound, take, bytes, parsed, set, contiguous, full]
      · exact .receiving original other blocks rfl
          ⟨back.sizes, ⟨valid₂, holds.writable, back.holds.read_tmp, holds.write_tmp, holds.budget,
            holds.sized, holds.room⟩, back.read, waits.write, back.earned⟩ (Nat.pos_of_ne_zero full)
  | complete pos bodySize =>
    right
    obtain ⟨wbuf, result, wrote, valid₃, cap₃, tmp₃, all, _⟩ :=
      writeAll_spec _ holds.writable (c.rbuf.content.drop pos) (Nat.le_refl _)
    have free : c.wbuf.queue.free = other := by simp [waits.write, Queue.free]
    rw [free] at all
    have other_cap : c.wbuf.capacity = other := congrArg Queue.cap waits.write
    cases result with
    | error kind =>
      refine ⟨{ c with rbuf := empty, wbuf, phase := .failed (.remaining kind) }, counter, ?_,
        .failed _ rfl ?_ ?_, rfl⟩
      · simp only [recvRound, take, bytes, parsed, wrote, Option.bind_eq_bind, Option.bind_some]
        rfl
      · intro even
        have none_left := all.mpr (waits.remaining_fits steady even parsed)
        cases none_left
      · intro other_cause
        cases other_cause
    | ok done =>
      have small := waits.sizes.le_max.2
      have room := holds.room
      have enough : wbuf.capacity ≤ empty.tmp.length := by
        rw [cap₃, other_cap, tmp₁, holds.read_tmp]
        omega
      have nothing : empty.capacity = 0 := congrArg Queue.cap queue₁
      obtain ⟨r, w, swap, valid_r, valid_w, queue_r, queue_w, tmp_r, tmp_w⟩ :=
        RingBuffer.swapInner_spec valid₁ valid₃ enough (by omega)
      refine ⟨{ c with rbuf := r, wbuf := w, phase := .keeping ⟨buf, original⟩ false }, counter, ?_,
        ?_, rfl⟩
      · simp only [recvRound, take, bytes, parsed, wrote, swap, Option.bind_eq_bind,
          Option.bind_some]
        rfl
      · refine .keeping ⟨buf, original⟩ false other blocks rfl ⟨waits.sizes,
          ⟨valid_r, valid_w, ?_, ?_, holds.budget, holds.sized, holds.room⟩, ?_, ?_, filled, ?_⟩
        · rw [tmp_r, tmp₁, holds.read_tmp]
        · rw [tmp_w, tmp₃, holds.write_tmp]
        · exact (congrArg Queue.cap queue_r).trans (cap₃.trans other_cap)
        · exact (congrArg Queue.cap queue_w).trans nothing
        · exact size.trans waits.read

theorem recvLoop_spec :
    ∃ c' counter', recvLoop p original c counter = some (c', counter') ∧ Sound p start c' ∧
      counter' + c'.blocksUsed = counter + c.blocksUsed := by
  have done : ∃ last result, loop (recvRound p original) 2 (c, counter) = some (last, result) ∧
      (Sound p start last.1 ∧ last.2 + last.1.blocksUsed = counter + c.blocksUsed) := by
    apply loop_rule (fun s : HeaderBuffers × Nat => if s.1.rbuf.remainingCapacity = 0 then 1 else 0)
      (fun s => (∃ blocks, Waits p start s.1 original other blocks) ∧
        s.2 + s.1.blocksUsed = counter + c.blocksUsed)
      ?_ 2 ⟨⟨blocks, waits⟩, rfl⟩ ?_ (throughout_true _ _ _)
    · rintro ⟨c₁, counter₁⟩ ⟨⟨blocks₁, waits₁⟩, same₁⟩ _
      have shares₁ : counter₁ + c₁.blocksUsed ≤ total := by simpa only [same₁] using shares
      rcases recvRound_spec steady begun waits₁ shares₁ with
        ⟨c₂, counter₂, again, more, full, free, same₂⟩ | ⟨c₂, counter₂, done, sound, same₂⟩
      · refine .inl ⟨(c₂, counter₂), again, ⟨⟨_, more⟩, same₂.trans same₁⟩, ?_⟩
        simp only [full, ↓reduceIte, Nat.ne_of_gt free]
        omega
      · exact .inr ⟨(c₂, counter₂), (), done, sound, same₂.trans same₁⟩
    · split <;> omega
  obtain ⟨last, result, run, sound, same⟩ := done
  exact ⟨last.1, last.2, by simp [recvLoop, run], sound, same⟩

end

section
variable (sound : Sound p start c)
include sound

theorem Sound.of_ready (idle : c.phase = .ready) :
    ∃ original other, Sizes start original other ∧ Holds start c 0 ∧ c.rbuf.capacity = original ∧
      c.wbuf.capacity = other := by
  cases sound with
  | ready _ original other sizes holds read write =>
      exact ⟨original, other, sizes, holds, read, write⟩
  | receiving _ _ _ phase | keeping _ _ _ _ phase | failed _ phase | closed phase =>
      cases idle.symm.trans phase

theorem Sound.of_receiving (waiting : c.phase.isReceiving = true) :
    ∃ original other blocks, c.phase = .receiving original ∧ Waits p start c original other blocks ∧
      0 < c.rbuf.remainingCapacity := by
  cases sound with
  | receiving original other blocks phase waits free =>
      exact ⟨original, other, blocks, phase, waits, free⟩
  | ready phase | keeping _ _ _ _ phase | failed _ phase | closed phase =>
    rw [phase] at waiting
    cases waiting

theorem Sound.of_keeping (keeping : c.phase.isKeeping = true) :
    ∃ kept ended other blocks, c.phase = .keeping kept ended ∧ Keeps start c kept other blocks := by
  cases sound with
  | keeping kept ended other blocks phase keeps => exact ⟨kept, ended, other, blocks, phase, keeps⟩
  | ready phase | receiving _ _ _ phase | failed _ phase | closed phase =>
    rw [phase] at keeping
    cases keeping

theorem Sound.set_read (body : c.phase.isBody = true) {rbuf : RingBuffer} (valid : rbuf.Valid)
    (cap : rbuf.capacity = c.rbuf.capacity) (tmp : rbuf.tmp.length = c.rbuf.tmp.length) :
    Sound p start { c with rbuf } := by
  have moved : ∀ {blocks}, Holds start c blocks → Holds start { c with rbuf } blocks := by
    intro blocks holds
    exact ⟨valid, holds.writable, tmp.trans holds.read_tmp, holds.write_tmp, holds.budget,
      holds.sized, holds.room⟩
  cases sound with
  | ready phase original other sizes holds read write =>
    exact .ready phase original other sizes (moved holds) (cap.trans read) write
  | keeping kept ended other blocks phase keeps =>
    exact .keeping kept ended other blocks phase
      ⟨keeps.sizes, moved keeps.holds, cap.trans keeps.read, keeps.write, keeps.filled, keeps.held⟩
  | receiving _ _ _ phase | failed _ phase | closed phase =>
    rw [phase] at body
    cases body

theorem Sound.set_write (idle : c.phase = .ready) {wbuf : RingBuffer} (valid : wbuf.Valid)
    (cap : wbuf.capacity = c.wbuf.capacity) (tmp : wbuf.tmp.length = c.wbuf.tmp.length) :
    Sound p start { c with wbuf } := by
  obtain ⟨original, other, sizes, holds, read, write⟩ := sound.of_ready idle
  exact .ready idle original other sizes ⟨holds.readable, valid, holds.read_tmp,
    tmp.trans holds.write_tmp, holds.budget, holds.sized, holds.room⟩ read (cap.trans write)

theorem Sound.readable (body : c.phase.isBody = true) : c.rbuf.Valid := by
  cases sound with
  | ready phase original other sizes holds read write => exact holds.readable
  | receiving original other blocks phase waits => exact waits.holds.readable
  | keeping kept ended other blocks phase keeps => exact keeps.holds.readable
  | failed _ phase | closed phase =>
    rw [phase] at body
    cases body

theorem Sound.writable (idle : c.phase = .ready) : c.wbuf.Valid := by
  obtain ⟨_, _, _, holds, _, _⟩ := sound.of_ready idle
  exact holds.writable

end

theorem discardHeader_spec
    {kept : KeptHeader} {ended : Bool} (keeps : Keeps start c kept other blocks)
    (shares : counter + c.blocksUsed ≤ total) (usize : total < usizeEnd)
    (shrinks : ended = true → kept.buf.data.length ≤ kept.original) :
    ∃ c' counter', c.discardHeader counter kept ended = some (c', counter') ∧ Sound p start c' ∧
      counter' + c'.blocksUsed = counter + c.blocksUsed := by
  have holds := keeps.holds
  have room := holds.room
  have small := keeps.sizes.le_max.1
  have held := keeps.held
  have swapped : Sizes start other kept.original := by
    rcases keeps.sizes with ⟨h1, h2⟩ | ⟨h1, h2⟩
    · exact .inr ⟨h2, h1⟩
    · exact .inl ⟨h2, h1⟩
  obtain ⟨wbuf, set, valid, queue, tmp⟩ :=
    RingBuffer.setInner_spec (r := c.wbuf) kept.buf keeps.filled (by rw [holds.write_tmp]; omega)
  obtain ⟨cleared, empty, cap⟩ := RingBuffer.clear_valid valid
  have whole : wbuf.clear.capacity = kept.original + blocks * start.blockSize := by
    rw [cap, ← held]
    exact congrArg Queue.cap queue
  have used := blocksUsed_grant holds.budget holds.sized
  have tmp' : wbuf.clear.tmp.length = start.rbuf.tmp.length := by
    rw [← holds.write_tmp, ← tmp]
    rfl
  -- without a budget, or with the body ended, nothing is shrunk and nothing was added
  have unchanged : blocks = 0 → Sound p start { c with wbuf := wbuf.clear, phase := .ready } := by
    intro zero
    subst zero
    rw [Nat.zero_mul, Nat.add_zero] at whole
    exact .ready rfl other kept.original swapped ⟨holds.readable, cleared, holds.read_tmp, tmp',
      holds.budget, holds.sized, holds.room⟩ keeps.read whole
  cases ended with
  | true =>
    have none_added : blocks = 0 := by
      by_contra some_added
      have positive :=
        Nat.mul_pos (Nat.pos_of_ne_zero some_added) (Nat.pos_of_ne_zero (holds.sized some_added))
      have := shrinks rfl
      omega
    refine ⟨{ c with wbuf := wbuf.clear, phase := .ready }, counter, ?_, unchanged none_added, rfl⟩
    simp [discardHeader, set]
  | false =>
    cases given : c.budget with
    | none =>
      have none_added : blocks = 0 := by
        by_contra some_added
        have granted := holds.budget
        rw [given] at granted
        refine holds.sized some_added ?_
        cases at_start : start.budget with
        | none => simp [blockSize, at_start]
        | some b => simp [grant, at_start] at granted
      refine ⟨{ c with wbuf := wbuf.clear, phase := .ready }, counter, ?_,
        unchanged none_added, rfl⟩
      simp [discardHeader, set, given]
    | some budget =>
      have block := blockSize_grant given holds.budget
      have mine : c.blocksUsed = budget.blocksUsed := by simp [blocksUsed, given]
      obtain ⟨shrunk, run, valid', queue', tmp''⟩ :=
        budget.shrinkBuffer_spec counter blocks kept.original
          cleared (by rw [whole, block]) (by omega)
          (by rw [block]; exact holds.sized) empty (by omega)
      refine ⟨{ c with
        wbuf := shrunk
        budget := some { budget with blocksUsed := budget.blocksUsed - blocks }
        phase := .ready }, counter + blocks, ?_, ?_, ?_⟩
      · simp [discardHeader, set, given, run]
      · refine .ready rfl other kept.original swapped ⟨holds.readable, valid', holds.read_tmp,
          tmp''.trans tmp', ?_, by simp, by omega⟩ keeps.read (congrArg Queue.cap queue')
        obtain ⟨b, at_start, rfl⟩ := grant_some (given.symm.trans holds.budget)
        simp [grant, at_start]
      · simp only [blocksUsed, given, Option.elim_some]
        omega

theorem close_spec
    (shares : counter + c.blocksUsed ≤ total) (usize : total < usizeEnd)
    (allowed : c.possible .close = true) :
    ∃ c' counter', c.step p counter .close = some (c', counter') ∧ Sound p start c' ∧
      counter' + c'.blocksUsed = counter + c.blocksUsed := by
  simp only [possible, Bool.and_eq_true, decide_eq_true_eq, ne_eq, Bool.not_eq_true',
    Bool.and_eq_false_iff, decide_eq_false_iff_not] at allowed
  obtain ⟨open_, gone⟩ := allowed
  have stepped : c.step p counter .close = c.close counter := by
    cases at_ : c.phase with
    | closed => exact absurd at_ open_
    | ready => simp [step, at_]
    | receiving original => simp [step, at_]
    | keeping kept ended => simp [step, at_]
    | failed why => simp [step, at_]
  have dropped : c.close counter = (c.budget.elim (some counter) fun budget =>
      budget.drop counter).map fun counter =>
        ({ c with budget := none, phase := .closed }, counter) := by
    unfold close
    split
    · rename_i kept ended server keeping
      rw [server, keeping] at gone
      simp [HeaderPhase.isKeeping] at gone
    · cases given : c.budget <;> simp [Option.map_eq_bind]
  refine ⟨{ c with budget := none, phase := .closed }, counter + c.blocksUsed, ?_,
    .closed rfl rfl, rfl⟩
  rw [stepped, dropped]
  cases given : c.budget with
  | none => simp [blocksUsed, given]
  | some budget =>
    have mine : c.blocksUsed = budget.blocksUsed := by simp [blocksUsed, given]
    simp [BufferBudget.drop, Counter.inc_fits (by omega : counter + budget.blocksUsed < usizeEnd),
      mine]

theorem step_spec (steady : p.Steady)
    {event : BufferEvent} (begun : Start total start) (usize : total < usizeEnd)
    (sound : Sound p start c)
    (shares : counter + c.blocksUsed ≤ total) (allowed : c.possible event = true)
    (fine : c.shrinks event = true) :
    ∃ c' counter', c.step p counter event = some (c', counter') ∧ Sound p start c' ∧
      counter' + c'.blocksUsed = counter + c.blocksUsed := by
  cases event with
  | recv =>
    simp only [possible, Bool.and_eq_true, decide_eq_true_eq] at allowed
    obtain ⟨idle, nothing⟩ := allowed
    obtain ⟨original, other, sizes, holds, read, write⟩ := sound.of_ready idle
    have empty : c.wbuf.content = [] := by
      apply List.length_eq_zero_iff.mp
      rw [RingBuffer.content_length holds.writable, nothing]
    have waits : Waits p start c c.rbuf.capacity other 0 := by
      refine ⟨by rw [read]; exact sizes, holds, by simp, ?_, .inl rfl⟩
      simp only [RingBuffer.queue, write, empty]
    obtain ⟨c', counter', run, sound', same⟩ := recvLoop_spec steady begun waits shares
    exact ⟨c', counter', by simp [step, idle, run], sound', same⟩
  | read data =>
    simp only [possible, Bool.and_eq_true, decide_eq_true_eq] at allowed
    obtain ⟨waiting, fits⟩ := allowed
    obtain ⟨original, other, blocks, phase, waits, free⟩ := sound.of_receiving waiting
    obtain ⟨rbuf, result, run, valid, cap, tmp, bytes, open_⟩ :=
      recvNonzero_keeps waits.holds.readable fits
    have waits' : Waits p start { c with rbuf } original other blocks :=
      waits.set valid cap (by rw [bytes]; exact List.prefix_append _ _) (by rw [tmp])
    cases result with
    | ok done =>
      obtain ⟨c', counter', loop, sound', same⟩ := recvLoop_spec steady begun waits' shares
      rw [phase] at loop
      exact ⟨c', counter', by simp [step, phase, run, loop], sound', same⟩
    | error kind =>
      have other_kind : kind ≠ .writeZero := fun is => open_ free (by rw [is])
      refine ⟨{ c with rbuf, phase := .failed (.io kind) }, counter, ?_,
        .failed _ rfl (fun _ => rfl) fun _ => waits'.paid, rfl⟩
      simp [step, phase, run, recvFailed, other_kind]
  | readError kind =>
    simp only [possible] at allowed
    obtain ⟨original, other, blocks, phase, waits, free⟩ := sound.of_receiving allowed
    have stepped : c.step p counter (.readError kind) = recvFailed p original c counter kind := by
      simp [step, phase]
    rw [stepped]
    by_cases full : kind = .writeZero
    · rcases onWriteZero_spec begun waits shares (fun none_free => by omega) with
        ⟨c', counter', _, _, none_free, _⟩ | ⟨c', counter', done, sound', same⟩
      · omega
      · exact ⟨c', counter', by simp [recvFailed, full, done], sound', same⟩
    · exact ⟨{ c with phase := .failed (.io kind) }, counter, by simp [recvFailed, full],
        .failed _ rfl (fun _ => rfl) fun _ => waits.paid, rfl⟩
  | arrive data =>
    simp only [possible, Bool.and_eq_true, decide_eq_true_eq] at allowed
    obtain ⟨rbuf, result, run, valid, cap, tmp, _, _⟩ :=
      recvNonzero_keeps (sound.readable allowed.1) allowed.2
    exact ⟨{ c with rbuf },
      counter, by simp [step, run], sound.set_read allowed.1 valid cap (by rw [tmp]), rfl⟩
  | align =>
    simp only [possible] at allowed
    obtain ⟨rbuf, count, run, aligned⟩ := RingBuffer.align_spec (sound.readable allowed)
    exact ⟨{ c with rbuf }, counter, by simp [step, run],
      sound.set_read allowed aligned.valid aligned.room aligned.tmp, rfl⟩
  | consume count =>
    simp only [possible, Bool.and_eq_true, decide_eq_true_eq] at allowed
    obtain ⟨rbuf, run, valid, queue, tmp, _⟩ :=
      RingBuffer.readCommit_spec (sound.readable allowed.1) count allowed.2
    exact ⟨{ c with rbuf }, counter, by simp [step, run],
      sound.set_read allowed.1 valid (congrArg Queue.cap queue) (by rw [tmp]), rfl⟩
  | bodyEnds =>
    simp only [possible, Bool.and_eq_true] at allowed
    obtain ⟨kept, ended, other, blocks, phase, keeps⟩ := sound.of_keeping allowed.1
    cases side : c.role with
    | server =>
      exact ⟨c, counter, by simp [step, phase, side], .keeping kept ended other blocks phase keeps,
        rfl⟩
    | client state =>
      refine ⟨{ c with phase := .keeping kept true }, counter, by simp [step, phase, side], ?_, rfl⟩
      exact .keeping kept true other blocks rfl ⟨keeps.sizes,
        ⟨keeps.holds.readable, keeps.holds.writable,
        keeps.holds.read_tmp, keeps.holds.write_tmp, keeps.holds.budget, keeps.holds.sized,
          keeps.holds.room⟩,
        keeps.read, keeps.write, keeps.filled, keeps.held⟩
  | discardHeader =>
    simp only [possible] at allowed
    obtain ⟨kept, ended, other, blocks, phase, keeps⟩ := sound.of_keeping allowed
    have shrunk : ended = true → kept.buf.data.length ≤ kept.original := by
      intro is
      simpa [shrinks, phase, is] using fine
    obtain ⟨c', counter', run, sound', same⟩ :=
      discardHeader_spec (p := p) keeps shares usize shrunk
    exact ⟨c', counter', by simp [step, phase, run], sound', same⟩
  | prepare data =>
    simp only [possible, decide_eq_true_eq] at allowed
    obtain ⟨wbuf, run, valid, queue, tmp⟩ := RingBuffer.write_spec (sound.writable allowed) data
    exact ⟨{ c with wbuf }, counter, by simp [step, run],
      sound.set_write allowed valid (congrArg Queue.cap queue) (by rw [tmp]), rfl⟩
  | sent count =>
    simp only [possible, Bool.and_eq_true, decide_eq_true_eq] at allowed
    obtain ⟨wbuf, run, valid, queue, tmp, _⟩ :=
      RingBuffer.readCommit_spec (sound.writable allowed.1) count allowed.2
    exact ⟨{ c with wbuf }, counter, by simp [step, run],
      sound.set_write allowed.1 valid (congrArg Queue.cap queue) (by rw [tmp]), rfl⟩
  | clearWrite =>
    simp only [possible, decide_eq_true_eq] at allowed
    obtain ⟨cleared, _, cap⟩ := RingBuffer.clear_valid (sound.writable allowed)
    exact ⟨{ c with wbuf := c.wbuf.clear },
      counter, by simp [step], sound.set_write allowed cleared cap rfl, rfl⟩
  | close => exact close_spec shares usize allowed

/-- As long as the connection has its storage, the blocks that it uses are what
    it has beyond the start. Between headers it has what it had at the start. -/
structure GivesBack (start c : HeaderBuffers) : Prop where
  paid : isLost c.phase = false → c.capacity + start.blocksUsed * start.blockSize =
    start.capacity + c.blocksUsed * start.blockSize
  restored : c.phase = .ready → c.capacity = start.capacity ∧ c.blocksUsed = start.blocksUsed

theorem capacity_of_none_held (nothing : heldCapacity c.phase = 0) :
    c.capacity = c.rbuf.capacity + c.wbuf.capacity := by
  rw [capacity, nothing, Nat.add_zero]

theorem Sound.givesBack (begun : Start total start)
    (sound : Sound p start c) : GivesBack start c := by
  have whole : start.capacity = start.rbuf.capacity + start.wbuf.capacity :=
    capacity_of_none_held (by rw [begun.phase]; rfl)
  cases sound with
  | ready phase original other sizes holds read write =>
    have used := blocksUsed_grant holds.budget holds.sized
    rw [Nat.add_zero] at used
    have same : c.capacity = start.capacity := by
      rw [whole, capacity_of_none_held (by rw [phase]; rfl), read, write]
      rcases sizes with ⟨h1, h2⟩ | ⟨h1, h2⟩ <;> omega
    exact ⟨fun _ => by rw [same, used], fun _ => ⟨same, used⟩⟩
  | receiving original other blocks phase waits free =>
    refine ⟨fun _ => ?_, fun idle => by rw [phase] at idle; cases idle⟩
    rw [whole, capacity_of_none_held (by rw [phase]; rfl)]
    exact waits.paid
  | keeping kept ended other blocks phase keeps =>
    refine ⟨fun _ => ?_, fun idle => by rw [phase] at idle; cases idle⟩
    have used := blocksUsed_grant keeps.holds.budget keeps.holds.sized
    have spread : c.blocksUsed * start.blockSize =
        start.blocksUsed * start.blockSize + blocks * start.blockSize := by rw [used, Nat.add_mul]
    have held := keeps.held
    rw [whole, capacity, phase, heldCapacity, keeps.read, keeps.write]
    rcases keeps.sizes with ⟨h1, h2⟩ | ⟨h1, h2⟩ <;> omega
  | failed why phase fits paid =>
    refine ⟨fun lost => ?_, fun idle => by rw [phase] at idle; cases idle⟩
    rw [phase] at lost
    rw [whole, capacity_of_none_held (by rw [phase]; rfl)]
    exact paid lost
  | closed phase dropped =>
    refine ⟨fun lost => ?_, fun idle => by rw [phase] at idle; cases idle⟩
    rw [phase] at lost
    cases lost

end HeaderBuffers

namespace BufferPool
open HeaderBuffers
variable {ι : Type} [DecidableEq ι] [Fintype ι]

structure Start (s : BufferPool ι) : Prop where
  conns : ∀ i, (s.conns i).Start s.blocks
  usize : s.blocks < usizeEnd

theorem blocks_split (s : BufferPool ι) (i : ι) :
    s.blocks = s.counter + (s.conns i).blocksUsed + ∑ j ∈ Finset.univ.erase i,
      (s.conns j).blocksUsed := by
  have apart :=
    Finset.add_sum_erase Finset.univ (fun j => (s.conns j).blocksUsed) (Finset.mem_univ i)
  unfold blocks
  omega

theorem blocks_update (s : BufferPool ι) (i : ι) (c : HeaderBuffers) (counter : Nat)
    (same : counter + c.blocksUsed = s.counter + (s.conns i).blocksUsed) :
    blocks ⟨counter, Function.update s.conns i c⟩ = s.blocks := by
  have others : ∑ j ∈ Finset.univ.erase i, (Function.update s.conns i c j).blocksUsed =
      ∑ j ∈ Finset.univ.erase i, (s.conns j).blocksUsed := by
    refine Finset.sum_congr rfl fun j apart => ?_
    rw [Function.update_of_ne (Finset.ne_of_mem_erase apart)]
  rw [blocks_split _ i, blocks_split s i]
  simp only [others, Function.update_self, same]

theorem share_le_blocks (s : BufferPool ι) (i : ι) :
    s.counter + (s.conns i).blocksUsed ≤ s.blocks := by
  rw [blocks_split s i]
  omega

def Sound (p : HeadParsers) (start s : BufferPool ι) : Prop :=
  s.blocks = start.blocks ∧ ∀ i, (start.conns i).Sound p (s.conns i)

theorem step_sound {p : HeadParsers} (steady : p.Steady) {start s : BufferPool ι}
    (begun : start.Start) (sound : Sound p start s) (event : ι × BufferEvent)
    (fine : (s.possible event && s.shrinks event) = true) :
    ∃ next, s.step p event = some next ∧ Sound p start next := by
  obtain ⟨total, each⟩ := sound
  simp only [Bool.and_eq_true] at fine
  obtain ⟨c, counter, run, sound, same⟩ :=
    step_spec steady (begun.conns event.1) begun.usize (each event.1)
      (by rw [← total]; exact s.share_le_blocks event.1) fine.1 fine.2
  refine ⟨⟨counter, Function.update s.conns event.1 c⟩, by simp [step, run], ?_, ?_⟩
  · rw [blocks_update s event.1 c counter same, total]
  · intro i
    by_cases here : i = event.1
    · subst here
      simpa using sound
    · simpa [here] using each i

theorem run_sound {p : HeadParsers} (steady : p.Steady) {start : BufferPool ι} (begun : start.Start)
    (events : List (ι × BufferEvent)) (allowed : Runs.along (step p) possible start events = true)
    (shrunk : Runs.along (step p) shrinks start events = true) :
    ∃ last, Runs.run (step p) start events = some last ∧ Sound p start last := by
  have both := Runs.along_and.mpr ⟨allowed, shrunk⟩
  refine Runs.run_rule (Sound p start)
    (fun s event sound fine => step_sound steady begun sound event fine) events ⟨rfl, ?_⟩ both
  intro i
  have here := begun.conns i
  exact .ready here.phase _ _ (.inl ⟨rfl, rfl⟩) ⟨here.readable, here.writable, rfl, here.shared,
    by cases (start.conns i).budget <;> simp [grant], by simp,
    by have := here.room; omega⟩ rfl rfl

/-- In every run that discards no grown header after the end of its body, the
    shared counter and the blocks in use add up to what there was, the blocks in
    use are the storage beyond that of the start, and a connection between two
    headers has the storage and the blocks of the start. -/
theorem header_blocks_are_given_back {p : HeadParsers} (steady : p.Steady) {start : BufferPool ι}
    (begun : start.Start) (events : List (ι × BufferEvent))
    (allowed : Runs.along (step p) possible start events = true)
    (shrunk : Runs.along (step p) shrinks start events = true) :
    ∃ last, Runs.run (step p) start events = some last ∧ last.blocks = start.blocks ∧
      ∀ i, (start.conns i).GivesBack (last.conns i) := by
  obtain ⟨last, run, total, sound⟩ := run_sound steady begun events allowed shrunk
  exact ⟨last, run, total, fun i => (sound i).givesBack (begun.conns i)⟩

def smallClient : HeaderBuffers :=
  ⟨.client ⟨.noBody, none, 0, false, false, none⟩, ⟨List.replicate 8 0, 0, 0, List.replicate 80 0⟩,
    ⟨List.replicate 8 0, 0, 0, List.replicate 80 0⟩, some (.new (some 8) 8), .ready⟩

def smallPool : BufferPool Unit := ⟨8, fun _ => smallClient⟩

theorem smallPool_even (i : Unit) : (smallPool.conns i).Even := ⟨rfl, by decide +revert⟩

theorem smallPool_start : smallPool.Start := by
  have valid : (⟨List.replicate 8 0, 0, 0, List.replicate 80 0⟩ : RingBuffer).Valid :=
    ⟨by decide, by decide, by decide, by decide⟩
  exact ⟨fun _ => ⟨rfl, valid, valid, rfl, by decide +revert⟩, by decide⟩

def reads : List (List Byte) → List (Unit × BufferEvent)
  | [] => []
  | data :: rest => ((), .read data) :: reads rest

def shortHead : List (Unit × BufferEvent) :=
  ((), .recv) :: reads [ascii "HTTP/1.1", ascii " 204 A\r\n", ascii "\r\n"]

theorem short_head_gives_back :
    ∃ last, Runs.run (step headScanners) smallPool (shortHead ++ [((), .discardHeader)]) =
      some last ∧
      last.blocks = smallPool.blocks ∧ ∀ i, (smallPool.conns i).GivesBack (last.conns i) :=
  header_blocks_are_given_back headScanners_steady smallPool_start _ (by decide +kernel)
    (by decide +kernel)

/-- The body of a response without one ends before the header is discarded: the
    two blocks stay in use, and the buffers stay larger. -/
theorem ended_body_keeps_blocks :
    smallPool.Start ∧
    Runs.along (step headScanners) possible smallPool
      (shortHead ++ [((), .bodyEnds), ((), .discardHeader)]) = true ∧
    ∃ last, Runs.run (step headScanners) smallPool
        (shortHead ++ [((), .bodyEnds), ((), .discardHeader)]) = some last ∧
      (last.conns ()).phase = .ready ∧ (last.conns ()).capacity = smallClient.capacity + 16 ∧
      (last.conns ()).blocksUsed = smallClient.blocksUsed + 2 := by
  refine ⟨smallPool_start, by decide +kernel, ?_⟩
  have ran : ((Runs.run (step headScanners) smallPool
      (shortHead ++ [((), .bodyEnds), ((), .discardHeader)])).map fun last =>
        ((last.conns ()).phase, (last.conns ()).capacity, (last.conns ()).blocksUsed)) =
      some (.ready, smallClient.capacity + 16, smallClient.blocksUsed + 2) := by decide +kernel
  obtain ⟨last, run, same⟩ := Option.map_eq_some_iff.mp ran
  simp only [Prod.mk.injEq] at same
  exact ⟨last, run, same⟩

/-- In every run that discards no grown header after the end of its body, on
    connections whose two buffers start with the same capacity and whose blocks
    are no larger, no reception fails because the bytes behind the header do not
    fit the write buffer. -/
theorem remaining_bytes_fit {p : HeadParsers} (steady : p.Steady) {start : BufferPool ι}
    (begun : start.Start) (even : ∀ i, (start.conns i).Even) (events : List (ι × BufferEvent))
    (allowed : Runs.along (step p) possible start events = true)
    (shrunk : Runs.along (step p) shrinks start events = true) :
    ∃ last, Runs.run (step p) start events = some last ∧
      ∀ i why, (last.conns i).phase = .failed why → why.isRemaining = false := by
  obtain ⟨last, run, _, sound⟩ := run_sound steady begun events allowed shrunk
  refine ⟨last, run, ?_⟩
  intro i why failed
  cases sound i with
  | ready phase => rw [phase] at failed; cases failed
  | receiving original other blocks phase => rw [phase] at failed; cases failed
  | keeping kept ended other blocks phase => rw [phase] at failed; cases failed
  | failed cause phase fits paid =>
    rw [phase] at failed
    cases failed
    exact fits (even i)
  | closed phase => rw [phase] at failed; cases failed

theorem body_behind_short_head_fits :
    (∀ i, (smallPool.conns i).Even) ∧
    ∃ last, Runs.run (step headScanners) smallPool
        (shortHead ++ [((), .discardHeader), ((), .arrive (ascii "next"))]) = some last ∧
      ∀ i why, (last.conns i).phase = .failed why → why.isRemaining = false :=
  ⟨smallPool_even, remaining_bytes_fit headScanners_steady smallPool_start smallPool_even _
    (by decide +kernel) (by decide +kernel)⟩

/-- A head of 31 bytes, the body of which ends before the header is discarded;
    then a short head, after which the grown storage is in the read buffer; then a
    head with 14 bytes of its body, for which the write buffer has room for 8. -/
def threeHeads : List (Unit × BufferEvent) :=
  ((), .recv) :: reads [ascii "HTTP/1.1", ascii " 204 Not", ascii "hing to ",
    ascii "say\r\n\r\n"] ++
    [((), .bodyEnds), ((), .discardHeader)] ++ shortHead ++ [((), .discardHeader), ((), .recv),
      ((), .read (ascii "HTTP/1.1 200 A\r\n\r\n01234567890123"))]

theorem grown_read_buffer_overflows :
    smallPool.Start ∧ (∀ i, (smallPool.conns i).Even) ∧
    Runs.along (step headScanners) possible smallPool threeHeads = true ∧
    ∃ last, Runs.run (step headScanners) smallPool threeHeads = some last ∧
      (last.conns ()).phase = .failed (.remaining .writeZero) := by
  refine ⟨smallPool_start, smallPool_even, by decide +kernel, ?_⟩
  have ran : ((Runs.run (step headScanners) smallPool threeHeads).map fun last =>
      (last.conns ()).phase) = some (.failed (.remaining .writeZero)) := by decide +kernel
  exact Option.map_eq_some_iff.mp ran

end BufferPool
end PushpinHttp
