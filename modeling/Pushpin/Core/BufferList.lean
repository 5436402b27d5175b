import Pushpin.Core.Variant
import Pushpin.Foundations.Refinement

/-!
A byte string in several buffers, of which the first may be used in part. A failed
assertion, a read past the last buffer and a loop that does not end are `none`.
-/
namespace PushpinBufferList
open PushpinVariant (Bytes)

/-- The numbers are of type `int`, which has room for them while there are fewer than
    2^31 bytes in the buffers. -/
structure BufferList where
  bufs : List Bytes := []
  size : Int := 0
  offset : Int := 0
deriving DecidableEq, Repr

namespace BufferList

/-- The search from a buffer on: how many buffers are passed, and the offset in the last. -/
def findFrom : List Bytes → Int → Int → Option (Nat × Int)
  | [], _, _ => none
  | buf :: rest, curOffset, pos =>
    if curOffset + pos < buf.length then some (0, curOffset + pos)
    else (findFrom rest 0 (pos - (buf.length - curOffset))).map fun (at_, offset) =>
      (at_ + 1, offset)

def findPos (b : BufferList) (pos : Int) : Option (Nat × Int) := do
  guard (pos < b.size)
  findFrom b.bufs b.offset pos

def copy : Nat → BufferList → Int → Bytes → Option (Bytes × BufferList)
  | 0, b, toRead, out => if 0 < toRead then none else some (out, b)
  | passes + 1, b, toRead, out =>
    if 0 < toRead then
      match b.bufs with
      | [] => none
      | buf :: rest =>
        let bsize := min (buf.length - b.offset) toRead
        let out := out ++ (buf.drop b.offset.toNat).take bsize.toNat
        let b := if buf.length ≤ b.offset + bsize then { b with bufs := rest, offset := 0 }
          else { b with offset := b.offset + bsize }
        copy passes { b with size := b.size - bsize } (toRead - bsize) out
    else some (out, b)

def amount (size available : Int) : Int := if 0 < size then min size available else available

def mid (b : BufferList) (pos size : Int) : Option Bytes := do
  guard (0 ≤ pos)
  if b.size = 0 ∨ size = 0 ∨ b.size ≤ pos then return []
  let toRead := amount size (b.size - pos)
  guard (b.bufs ≠ [])
  let (at_, offset) ← b.findPos pos
  let current := b.bufs.drop at_
  let buf ← current.head?
  if offset = 0 ∧ buf.length = toRead then return buf
  let (out, _) ← copy (current.length + 1) { b with bufs := current, offset } toRead []
  return out

def clear (_ : BufferList) : BufferList := { bufs := [], size := 0, offset := 0 }

def append (b : BufferList) (buf : Bytes) : BufferList :=
  if buf.length < 1 then b else { b with bufs := b.bufs ++ [buf], size := b.size + buf.length }

def take (b : BufferList) (size : Int) : Option (Bytes × BufferList) := do
  if b.size = 0 ∨ size = 0 then return ([], b)
  let toRead := amount size b.size
  guard (b.bufs ≠ [])
  match b.bufs with
  | [] => none
  | buf :: rest =>
    if b.offset = 0 ∧
      buf.length = toRead then return (buf, { b with bufs := rest, size := b.size - toRead })
    copy (b.bufs.length + 1) b toRead []

def join : List Bytes → Int → Bytes → Bytes × Int
  | [], offset, out => (out, offset)
  | buf :: rest, offset, out =>
    if 0 < offset then join rest 0 (out ++ buf.drop offset.toNat) else join rest offset (out ++ buf)

def toByteArray (b : BufferList) : Bytes × BufferList :=
  if b.size = 0 then ([], b)
  else
    let (out, offset) := join b.bufs b.offset []
    (out, { b with bufs := [out], offset })

end BufferList

inductive Op where
  | append (buf : Bytes)
  | take (size : Int)
  | mid (pos : Nat) (size : Int)
  | toByteArray
  | clear
deriving DecidableEq, Repr

def step (b : BufferList) : Op → Option (BufferList × Bytes)
  | .append buf => some (b.append buf, [])
  | .take size => (b.take size).map fun (out, b) => (b, out)
  | .mid pos size => (b.mid pos size).map fun out => (b, out)
  | .toByteArray => some (b.toByteArray.2, b.toByteArray.1)
  | .clear => some (b.clear, [])

def upTo (size : Int) (content : Bytes) : Bytes :=
  if size < 0 then content else content.take size.toNat

def spec (content : Bytes) : Op → Bytes × Bytes
  | .append buf => (content ++ buf, [])
  | .take size => (content.drop (upTo size content).length, upTo size content)
  | .mid pos size => (content, upTo size (content.drop pos))
  | .toByteArray => (content, content)
  | .clear => ([], [])

/-- The content of some buffers, the first from an offset on. No buffer is empty. -/
inductive Spells : List Bytes → Int → Bytes → Prop where
  | nil : Spells [] 0 []
  | cons {buf : Bytes} {rest : List Bytes} {offset : Nat} (inside : offset < buf.length)
      (full : ∀ buf ∈ rest, buf ≠ []) :
      Spells (buf :: rest) offset (buf.drop offset ++ rest.flatten)

structure Holds (b : BufferList) (content : Bytes) : Prop where
  spells : Spells b.bufs b.offset content
  size_eq : b.size = content.length

theorem Spells.whole {bufs : List Bytes} (full : ∀ buf ∈ bufs, buf ≠ []) :
    Spells bufs 0 bufs.flatten := by
  cases bufs with
  | nil => exact .nil
  | cons buf rest =>
    have some_ : 0 < buf.length := List.length_pos_of_ne_nil (full buf List.mem_cons_self)
    exact @Spells.cons _ _ 0 some_ fun buf' member => full buf' (List.mem_cons_of_mem buf member)

theorem Spells.append {bufs : List Bytes} {offset : Int} {content : Bytes}
    (spells : Spells bufs offset content) {buf : Bytes} (some_ : buf ≠ []) :
    Spells (bufs ++ [buf]) offset (content ++ buf) := by
  cases spells with
  | nil =>
    have one := @Spells.whole [buf] (by simpa using some_)
    simpa using one
  | @cons first rest offset inside full =>
    have full' : ∀ b ∈ rest ++ [buf], b ≠ [] := by
      intro b member
      rcases List.mem_append.mp member with old | new
      · exact full b old
      · rwa [List.mem_singleton.mp new]
    have more := Spells.cons inside full'
    rw [List.flatten_append, List.flatten_singleton, ← List.append_assoc] at more
    exact more

namespace BufferList

theorem copy_done (passes : Nat) (b : BufferList) (out : Bytes) :
    copy passes b 0 out = some (out, b) := by
  cases passes with
  | zero => rfl
  | succ passes => rfl

theorem copy_spec (passes : Nat) {b : BufferList} {content : Bytes}
    (spells : Spells b.bufs b.offset content) {k : Nat} (inside : k ≤ content.length)
    (enough : b.bufs.length < passes) (out : Bytes) :
    ∃ b', copy passes b k out = some (out ++ content.take k, b') ∧
      Spells b'.bufs b'.offset (content.drop k) ∧ b'.size = b.size - k := by
  induction passes generalizing b content k out with
  | zero => omega
  | succ passes ih =>
    obtain ⟨bufs, size, offset⟩ := b
    dsimp only at spells enough
    rcases Nat.eq_zero_or_pos k with rfl | some_
    · exact ⟨_, by rw [Nat.cast_zero, copy_done, List.take_zero, List.append_nil], by rwa
        [List.drop_zero], by simp⟩
    · cases spells with
      | nil => exact absurd inside (Nat.not_le.mpr some_)
      | @cons buf rest offset within full =>
        rw [copy, if_pos (by omega)]
        dsimp only
        rw [List.length_append, List.length_drop] at inside
        rw [List.length_cons] at enough
        rcases Nat.lt_or_ge (offset + k) buf.length with part | whole
        · have bsize : min ((buf.length : Int) - offset) k = k := by omega
          have short : k ≤ (buf.drop offset).length := by
            rw [List.length_drop]
            omega
          rw [bsize, if_neg (by omega), sub_self, copy_done, Int.toNat_natCast, Int.toNat_natCast,
            List.take_append_of_le_length short, List.drop_append_of_le_length short,
              List.drop_drop]
          exact ⟨_, rfl, @Spells.cons _ _ (offset + k) part full, rfl⟩
        · have bsize : min ((buf.length : Int) - offset) k = (buf.length - offset : Nat) := by omega
          have left : (k : Int) - (buf.length - offset : Nat) =
            (k - (buf.length - offset) : Nat) := by omega
          have split : k = (buf.drop offset).length + (k - (buf.length - offset)) := by
            rw [List.length_drop]
            omega
          rw [bsize, if_pos (by omega), left, Int.toNat_natCast, Int.toNat_natCast]
          obtain ⟨b', ran, more, counted⟩ :=
            @ih { bufs := rest, size := size - (buf.length - offset : Nat), offset := 0 }
              rest.flatten
              (Spells.whole full) (k - (buf.length - offset)) (by omega) (by dsimp only; omega)
              (out ++ (buf.drop offset).take (buf.length - offset))
          refine ⟨b', ?_, ?_, by rw [counted]; dsimp only; omega⟩
          · rw [ran]
            conv_rhs => rw [split, List.take_length_add_append]
            rw [List.append_assoc, List.take_of_length_le (by rw [List.length_drop])]
          · rw [split, List.drop_length_add_append]
            exact more

section
variable {bufs : List Bytes} {offset : Int} {content : Bytes} (spells : Spells bufs offset content)
include spells

theorem findFrom_spec {pos : Nat} (inside : pos < content.length) :
    ∃ at_ offset', findFrom bufs offset pos = some (at_, offset') ∧ at_ < bufs.length ∧
      Spells (bufs.drop at_) offset' (content.drop pos) := by
  induction bufs generalizing offset content pos with
  | nil =>
    cases spells
    exact absurd inside (by simp)
  | cons buf bufs ih =>
    cases spells with
    | @cons _ _ offset within full =>
      rw [List.length_append, List.length_drop] at inside
      rw [findFrom]
      rcases Nat.lt_or_ge (offset + pos) buf.length with here | later
      · have short : pos ≤ (buf.drop offset).length := by
          rw [List.length_drop]
          omega
        rw [if_pos (by omega), List.drop_append_of_le_length short, List.drop_drop]
        exact ⟨0, _, rfl, by simp, @Spells.cons _ _ (offset + pos) here full⟩
      · have next :
          (pos : Int) - (buf.length - offset) = (pos - (buf.length - offset) : Nat) := by omega
        have split : pos = (buf.drop offset).length + (pos - (buf.length - offset)) := by
          rw [List.length_drop]
          omega
        obtain ⟨at_, offset', found, below, more⟩ :=
          @ih _ _ (Spells.whole full) (pos - (buf.length - offset)) (by omega)
        rw [if_neg (by omega), next, found]
        refine ⟨at_ + 1, offset', rfl, by simpa using below, ?_⟩
        conv => arg 3; rw [split, List.drop_length_add_append]
        exact more

theorem join_spec (out : Bytes) : join bufs offset out = (out ++ content, 0) := by
  induction bufs generalizing offset content out with
  | nil =>
    cases spells
    simp [join]
  | cons buf bufs ih =>
    cases spells with
    | @cons _ _ offset within full =>
      have later := ih (Spells.whole full)
      rw [join]
      split
      · rw [later, Int.toNat_natCast, List.append_assoc]
      · have none_ : offset = 0 := by omega
        rw [none_, Nat.cast_zero, later, List.drop_zero, List.append_assoc]

end

theorem amount_eq {size : Int} (asked : size ≠ 0) (content : Bytes) :
    amount size content.length = (upTo size content).length ∧
      upTo size content = content.take (upTo size content).length := by
  rcases Int.lt_or_gt_of_ne asked with all | part
  · rw [amount, if_neg (by omega), upTo, if_pos all, List.take_length]
    exact ⟨rfl, rfl⟩
  · rw [amount, if_pos part, upTo, if_neg (by omega), List.length_take]
    refine ⟨by omega, ?_⟩
    rw [← List.take_take, List.take_length]

theorem upTo_zero (content : Bytes) : upTo 0 content = [] := by
  rw [upTo, if_neg (by omega)]
  rfl

theorem upTo_nil (size : Int) : upTo size [] = [] := by
  rw [upTo]
  split
  · rfl
  · exact List.take_nil

section
variable {b : BufferList} {content : Bytes} (holds : Holds b content)
include holds

theorem mid_spec (pos : Nat)
    (size : Int) : b.mid pos size = some (upTo size (content.drop pos)) := by
  obtain ⟨spells, size_eq⟩ := holds
  by_cases nothing : b.size = 0 ∨ size = 0 ∨ b.size ≤ pos
  · have empty : upTo size (content.drop pos) = [] := by
      rcases nothing with none_ | rfl | past
      · rw [List.drop_eq_nil_of_le (by omega), upTo_nil]
      · exact upTo_zero _
      · rw [List.drop_eq_nil_of_le (by omega), upTo_nil]
    rw [empty, mid, guard]
    simp [nothing]
  · have ⟨some_, asked, before⟩ : b.size ≠ 0 ∧ size ≠ 0 ∧ pos < b.size := by
      simpa [not_or] using nothing
    obtain ⟨at_, offset, found, below, more⟩ := @findFrom_spec _ _ _ spells pos (by omega)
    obtain ⟨much, front⟩ := amount_eq asked (content.drop pos)
    have left : b.size - pos = (content.drop pos).length := by
      rw [List.length_drop]
      omega
    have bufs : b.bufs ≠ [] := List.ne_nil_of_length_pos (by omega)
    have short : (upTo size (content.drop pos)).length ≤ (content.drop pos).length := by
      rw [front, List.length_take]
      exact Nat.min_le_right _ _
    have filled : 0 < (content.drop pos).length := by omega
    rw [mid, if_neg nothing, left, much, findPos, found]
    simp only [guard, before, bufs, if_true, ne_eq, not_false_eq_true, Nat.cast_nonneg,
      Option.pure_def, Option.bind_eq_bind, Option.bind_some]
    have enough := Nat.lt_succ_self (b.bufs.drop at_).length
    generalize upTo size (content.drop pos) = result at *
    generalize b.bufs.drop at_ = current at *
    generalize content.drop pos = rest at *
    cases more with
    | nil => exact absurd filled (by simp)
    | @cons buf later offset inside full =>
      obtain ⟨b', ran, -⟩ := copy_spec _ (b := { b with bufs := buf :: later, offset := offset })
        (.cons inside full) short enough []
      rw [← front, List.nil_append] at ran
      rw [List.head?_cons, Option.bind_some]
      split
      · rename_i exact_
        have none_ : offset = 0 := by omega
        have same : buf.length = result.length := by omega
        rw [none_, List.drop_zero, ← same, List.take_left] at front
        rw [front]
      · exact congrArg (Option.bind · fun copied => some copied.1) ran

theorem take_spec (size : Int) :
    ∃ b', b.take size = some (upTo size content, b') ∧
      Holds b' (content.drop (upTo size content).length) := by
  obtain ⟨spells, size_eq⟩ := holds
  by_cases nothing : b.size = 0 ∨ size = 0
  · have empty : upTo size content = [] := by
      rcases nothing with none_ | rfl
      · rw [List.length_eq_zero_iff.mp (by omega : content.length = 0), upTo_nil]
      · exact upTo_zero content
    refine ⟨b, ?_, ?_⟩
    · rw [take, if_pos nothing, empty]
      rfl
    · rw [empty]
      exact ⟨spells, size_eq⟩
  · have ⟨some_, asked⟩ : b.size ≠ 0 ∧ size ≠ 0 := not_or.mp nothing
    obtain ⟨much, front⟩ := amount_eq asked content
    have short : (upTo size content).length ≤ content.length := by
      rw [front, List.length_take]
      exact Nat.min_le_right _ _
    have rest_size : b.size - (upTo size content).length =
        (content.drop (upTo size content).length).length := by
      rw [List.length_drop]
      omega
    obtain ⟨b', ran, more, counted⟩ :=
      copy_spec (b.bufs.length + 1) spells short (Nat.lt_succ_self _) []
    rw [← front, List.nil_append] at ran
    rw [take, if_neg nothing, size_eq, much]
    generalize upTo size content = result at *
    obtain ⟨bufs, total, offset⟩ := b
    cases spells with
    | nil => exact absurd size_eq some_
    | @cons buf later offset inside full =>
      dsimp only at ran rest_size size_eq ⊢
      simp only [guard, ran, if_true, ne_eq, not_false_eq_true, Option.pure_def,
        Option.bind_eq_bind, Option.bind_some, reduceCtorEq]
      split
      · rename_i exact_
        have none_ : offset = 0 := Int.natCast_eq_zero.mp exact_.1
        have same : buf.length = result.length := by omega
        rw [none_, List.drop_zero, ← same, List.take_left] at front
        refine ⟨{ bufs := later, size := total - result.length, offset := offset }, ?_, ?_,
          rest_size⟩
        · rw [front, size_eq]
          rfl
        · rw [none_, List.drop_zero, ← same, List.drop_left]
          exact Spells.whole full
      · exact ⟨b', rfl, more, counted.trans rest_size⟩

theorem toByteArray_spec : b.toByteArray.1 = content ∧ Holds b.toByteArray.2 content := by
  rw [toByteArray]
  split
  · rename_i none_
    have empty : content = [] := List.length_eq_zero_iff.mp (by have := holds.size_eq; omega)
    exact ⟨empty.symm, holds⟩
  · rename_i some_
    rw [join_spec holds.spells, List.nil_append]
    refine ⟨rfl, ?_, holds.size_eq⟩
    have filled : content ≠ [] := by
      rintro rfl
      exact some_ holds.size_eq
    have one := @Spells.whole [content] (by simpa using filled)
    rwa [List.flatten_singleton] at one

end

end BufferList

theorem refines : Refinement.Refines step spec Holds := by
  intro b content op holds
  cases op with
  | append buf =>
    refine ⟨b.append buf, rfl, ?_⟩
    rw [BufferList.append, spec]
    split
    · rename_i empty
      rw [List.length_eq_zero_iff.mp (Nat.lt_one_iff.mp empty), List.append_nil]
      exact holds
    · rename_i some_
      refine ⟨holds.spells.append (List.ne_nil_of_length_pos (by omega)), ?_⟩
      rw [List.length_append, Nat.cast_add, ← holds.size_eq]
  | take size =>
    obtain ⟨b', taken, later⟩ := BufferList.take_spec holds size
    exact ⟨b', by rw [step, taken]; rfl, later⟩
  | mid pos size => exact ⟨b, by rw [step, BufferList.mid_spec holds]; rfl, holds⟩
  | toByteArray =>
    obtain ⟨result, later⟩ := BufferList.toByteArray_spec holds
    exact ⟨b.toByteArray.2, by rw [step, result]; rfl, later⟩
  | clear => exact ⟨_, rfl, .nil, rfl⟩

theorem Holds.in_range {b : BufferList} {content : Bytes} (holds : Holds b content)
    (small : b.bufs.flatten.length < 2 ^ 31) : 0 ≤ b.size ∧ b.size < 2 ^ 31 ∧ 0 ≤ b.offset ∧
    b.offset < 2 ^ 31 := by
  obtain ⟨bufs, length, offset⟩ := b
  obtain ⟨spells, size⟩ := holds
  dsimp only at spells size small ⊢
  cases spells with
  | nil =>
    rw [List.length_nil] at size
    omega
  | cons inside full =>
    simp only [List.length_append, List.length_drop, List.flatten_cons] at size small
    omega

/-- A buffer list gives what one byte string gives, and no assertion fails. -/
theorem bufferList_runs (ops : List Op) :
    ∃ b, Refinement.run step {} ops = some (b, (Refinement.runSpec spec [] ops).2) ∧
      b.size = (Refinement.runSpec spec [] ops).1.length ∧
      (b.bufs.flatten.length < 2 ^ 31 → 0 ≤ b.size ∧ b.size < 2 ^ 31 ∧ 0 ≤ b.offset ∧
      b.offset < 2 ^ 31) := by
  obtain ⟨b, ran, holds⟩ := refines.run ops (s := {}) (t := []) ⟨.nil, rfl⟩
  exact ⟨b, ran, holds.size_eq, holds.in_range⟩

end PushpinBufferList
