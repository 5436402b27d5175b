import Pushpin.Core.VectoredWrite
import Pushpin.Foundations.Runs

/-!
What `write_vectored_offset` gives to its writer, and the guards of `limit` and `skip`,
from `core/buffer.rs`. A guard borrows a list of slices, shortens one of them, and puts
that one back when it is dropped. The slices are places in a memory, so that a list is
the same one only if its slices are, whatever bytes they hold.
-/
namespace PushpinVectored
open PushpinRingBuffer Slices

/-- A call of `write_vectored_offset` up to where its writer answers. -/
inductive Offer where
  | returns (result : Except ErrorKind Nat)
  | writes (bufs : List (List Byte))

def scratchLen (count : Nat) : Nat :=
  if count ≤ 8 then 8
  else if count ≤ 16 then 16
  else if count ≤ 32 then 32
  else if count ≤ 64 then 64
  else if count ≤ 128 then 128
  else if count ≤ 256 then 256
  else if count ≤ 512 then 512
  else if count ≤ 1024 then 1024
  else count

def offer (bufs : List (List Byte)) (offset : Nat) : Offer :=
  match passOver bufs offset with
  | .error kind => .returns (.error kind)
  | .ok none => .returns (.ok 0)
  | .ok (some bufs) => .writes (bufs.take (scratchLen bufs.length))

structure Slice where
  ptr : Nat
  len : Nat
  deriving DecidableEq, Repr

def Slice.bytes (mem : Nat → Byte) (s : Slice) : List Byte := (List.range' s.ptr s.len).map mem

def bytesOf (mem : Nat → Byte) (bufs : List Slice) : List Byte :=
  (bufs.map (Slice.bytes mem)).flatten

def Slice.upTo? (s : Slice) (n : Nat) : Option Slice := if n ≤ s.len then some ⟨s.ptr, n⟩ else none

def Slice.from? (s : Slice) (n : Nat) : Option Slice :=
  if n ≤ s.len then some ⟨s.ptr + n, s.len - n⟩ else none

structure Restore where
  index : Nat
  ptr : Nat
  len : Nat
  deriving DecidableEq, Repr

structure Guard where
  bufs : List Slice
  start : Nat
  stop : Nat
  restore : Option Restore
  deriving DecidableEq, Repr

def Guard.asSlice (g : Guard) : Option (List Slice) := slice? g.bufs g.start g.stop

def Guard.drop (g : Guard) : Option (List Slice) :=
  match g.restore with
  | none => some g.bufs
  | some restore =>
    if restore.index < g.bufs.length then some (g.bufs.set restore.index ⟨restore.ptr, restore.len⟩)
      else none

def reach : List Slice → Nat → Option (Nat × Slice × Nat)
  | [], _ => none
  | item :: bufs, want =>
    if item.len ≥ want then some (0, item, want)
    else (reach bufs (want - item.len)).map fun (index, found, want) => (index + 1, found, want)

def LimitBufs.limit (bufs : List Slice) (size : Nat) : Option Guard :=
  match reach bufs size with
  | none => some ⟨bufs, 0, bufs.length, none⟩
  | some (index, item, want) => do
    let cut ← item.upTo? want
    return ⟨bufs.set index cut, 0, index + 1, some ⟨index, item.ptr, item.len⟩⟩

def LimitBufsMut.limit (bufs : List Slice) (size : Nat) : Option Guard := LimitBufs.limit bufs size

/-- If the slices have fewer bytes, nothing is skipped. -/
def LimitBufsMut.skip (bufs : List Slice) (size : Nat) : Option Guard :=
  match reach bufs size with
  | none => some ⟨bufs, 0, bufs.length, none⟩
  | some (index, item, skip) => do
    let cut ← item.from? skip
    return ⟨bufs.set index cut, index, bufs.length, some ⟨index, item.ptr, item.len⟩⟩

inductive Cut where
  | limit (size : Nat)
  | skip (size : Nat)
  deriving DecidableEq, Repr

def Cut.guard : Cut → List Slice → Option Guard
  | .limit size, bufs => LimitBufsMut.limit bufs size
  | .skip size, bufs => LimitBufsMut.skip bufs size

def Cut.range : Cut → List Byte → List Byte
  | .limit size, bytes => bytes.take size
  | .skip size, bytes => if size ≤ bytes.length then bytes.drop size else bytes

/-- A list and the guards over it, the innermost one first. Each guard is over what
    `as_slice` of the next one gives. -/
structure Nest where
  bufs : List Slice
  guards : List Guard
  deriving DecidableEq, Repr

def Nest.current (s : Nest) : Option (List Slice) :=
  match s.guards with
  | [] => some s.bufs
  | g :: _ => g.asSlice

inductive Move where
  | cut (c : Cut)
  | drop
  deriving DecidableEq, Repr

/-- Only the innermost guard can be used or dropped, and its list is in the list of the next one. -/
def Nest.step (s : Nest) : Move → Option Nest
  | .cut c => do
    let window ← s.current
    let g ← c.guard window
    return { s with guards := g :: s.guards }
  | .drop =>
    match s.guards with
    | [] => some s
    | [g] => g.drop.map fun bufs => ⟨bufs, []⟩
    | g :: outer :: guards => g.drop.map fun window =>
      { s with guards := { outer with bufs := overlay outer.bufs outer.start window } :: guards }

def Move.cuts (cuts : List Cut) : Move → List Cut
  | .cut c => c :: cuts
  | .drop => cuts.tail

theorem le_scratchLen (count : Nat) : count ≤ scratchLen count := by
  unfold scratchLen
  split_ifs <;> omega

theorem offer_inside (bufs : List (List Byte)) {offset : Nat}
    (inside : offset < bufs.flatten.length) :
    ∃ slices, offer bufs offset = .writes slices ∧ slices.flatten = bufs.flatten.drop offset := by
  obtain ⟨rest, passed, bytes⟩ := passOver_inside bufs inside
  refine ⟨rest, ?_, bytes⟩
  unfold offer
  rw [passed]
  dsimp only
  rw [List.take_of_length_le (le_scratchLen rest.length)]

theorem offer_outside (bufs : List (List Byte)) {offset : Nat}
    (outside : bufs.flatten.length ≤ offset) : offer bufs offset =
      .returns (if bufs ≠ [] ∧ bufs.flatten.length < offset then .error .invalidInput
        else .ok 0) := by
  unfold offer
  rw [passOver_outside bufs outside]
  by_cases beyond : bufs ≠ [] ∧ bufs.flatten.length < offset
  · rw [if_pos beyond, if_pos beyond]
  · rw [if_neg beyond, if_neg beyond]

theorem writeVectoredOffset_offer (w : Writer) (bufs : List (List Byte)) (offset : Nat) :
    writeVectoredOffset w bufs offset =
      match offer bufs offset with
      | .returns result => (w, result)
      | .writes slices => w.writeVectored slices := by
  unfold writeVectoredOffset offer
  cases passOver bufs offset with
  | error kind => rfl
  | ok passed =>
    cases passed with
    | none => rfl
    | some rest =>
      dsimp only
      rw [List.take_of_length_le (le_scratchLen rest.length)]

section
variable (mem : Nat → Byte)

@[simp] theorem bytes_length (s : Slice) : (s.bytes mem).length = s.len := by
  simp [Slice.bytes]

theorem bytes_take {s : Slice} {n : Nat} (fits : n ≤ s.len) :
    Slice.bytes mem ⟨s.ptr, n⟩ = (s.bytes mem).take n := by
  unfold Slice.bytes
  rw [← List.map_take, List.take_range'_of_length_ge fits]

theorem bytes_drop (s : Slice) (n : Nat) : Slice.bytes mem ⟨s.ptr + n, s.len - n⟩ =
    (s.bytes mem).drop n := by
  unfold Slice.bytes
  rw [← List.map_drop, List.drop_range', Nat.mul_one]

@[simp] theorem bytesOf_append (xs ys : List Slice) :
    bytesOf mem (xs ++ ys) = bytesOf mem xs ++ bytesOf mem ys := by
  simp [bytesOf]

@[simp] theorem bytesOf_cons (s : Slice) (bufs : List Slice) :
    bytesOf mem (s :: bufs) = s.bytes mem ++ bytesOf mem bufs := by
  simp [bytesOf]

@[simp] theorem bytesOf_nil : bytesOf mem [] = [] := rfl

end

theorem reach_cases (bufs : List Slice) (want : Nat) :
    (reach bufs want = none ∧ ∀ mem, bytesOf mem bufs = [] ∨ (bytesOf mem bufs).length < want) ∨
    ∃ before item after rest, bufs = before ++ item :: after ∧ rest ≤ item.len ∧
      reach bufs want = some (before.length, item, rest) ∧
        ∀ mem, want = (bytesOf mem before).length + rest := by
  induction bufs generalizing want with
  | nil => exact Or.inl ⟨rfl, fun _ => Or.inl rfl⟩
  | cons item bufs ih =>
    unfold reach
    by_cases enough : item.len ≥ want
    · rw [if_pos enough]
      exact Or.inr ⟨[], item, bufs, want, rfl, enough, rfl, by simp⟩
    · rw [if_neg enough]
      rcases ih (want - item.len) with ⟨missed, few⟩ | ⟨before, found, after, rest, rfl, fits, hit,
        count⟩
      · refine Or.inl ⟨by rw [missed]; rfl, fun mem => Or.inr ?_⟩
        rw [bytesOf_cons, List.length_append, bytes_length]
        rcases few mem with empty | few
        · rw [empty, List.length_nil]
          omega
        · omega
      · refine Or.inr ⟨item :: before, found, after, rest, rfl,
          fits, by rw [hit]; rfl, fun mem => ?_⟩
        rw [bytesOf_cons, List.length_append, bytes_length]
        have := count mem
        omega

structure Guards (c : Cut) (bufs : List Slice) (g : Guard) (window : List Slice) : Prop where
  shown : g.asSlice = some window
  range : ∀ mem, bytesOf mem window = c.range (bytesOf mem bufs)
  dropped : g.drop = some bufs

theorem set_middle (before after : List Slice) (item cut : Slice) :
    (before ++ item :: after).set before.length cut = before ++ cut :: after := by
  rw [List.set_append_right _ _ (Nat.le_refl _), Nat.sub_self, List.set_cons_zero]

theorem limit_guards (bufs : List Slice) (size : Nat) :
    ∃ g window, LimitBufs.limit bufs size = some g ∧ Guards (.limit size) bufs g window := by
  unfold LimitBufs.limit
  rcases reach_cases bufs size with ⟨missed, few⟩ | ⟨before, item, after, rest, rfl, fits, hit,
    count⟩
  · rw [missed]
    refine ⟨_, bufs, rfl, ⟨?_, fun mem => ?_, rfl⟩⟩
    · simp [Guard.asSlice, slice?, slice]
    · have short : (bytesOf mem bufs).length ≤ size := by
        rcases few mem with empty | few
        · rw [empty]
          exact Nat.zero_le _
        · exact Nat.le_of_lt few
      exact (List.take_of_length_le short).symm
  · rw [hit]
    simp only [Slice.upTo?, if_pos fits, Option.bind_eq_bind, Option.bind_some, pure, set_middle]
    refine ⟨_, before ++ [⟨item.ptr, rest⟩], rfl, ⟨?_, fun mem => ?_, ?_⟩⟩
    · have front : before ++ (⟨item.ptr, rest⟩ : Slice) :: after =
        (before ++ [⟨item.ptr, rest⟩]) ++ after := by simp
      simp only [Guard.asSlice]
      rw [slice?_eq _ _ _ (Nat.zero_le _) (by simp), slice, List.drop_zero, front]
      exact congrArg some (List.take_left' (by simp))
    · simp only [Cut.range, bytesOf_append, bytesOf_cons, bytesOf_nil, List.append_nil]
      rw [count mem, List.take_length_add_append,
        List.take_append_of_le_length (by simpa using fits), bytes_take mem fits]
    · simp [Guard.drop]

theorem skip_guards (bufs : List Slice) (size : Nat) :
    ∃ g window, LimitBufsMut.skip bufs size = some g ∧ Guards (.skip size) bufs g window := by
  unfold LimitBufsMut.skip
  rcases reach_cases bufs size with ⟨missed, few⟩ | ⟨before, item, after, rest, rfl, fits, hit,
    count⟩
  · rw [missed]
    refine ⟨_, bufs, rfl, ⟨?_, fun mem => ?_, rfl⟩⟩
    · simp [Guard.asSlice, slice?, slice]
    · simp only [Cut.range]
      rcases few mem with empty | few
      · simp [empty]
      · rw [if_neg (by omega)]
  · rw [hit]
    simp only [Slice.from?, if_pos fits, Option.bind_eq_bind, Option.bind_some, pure, set_middle]
    refine ⟨_, ⟨item.ptr + rest, item.len - rest⟩ :: after, rfl, ⟨?_, fun mem => ?_, ?_⟩⟩
    · simp only [Guard.asSlice]
      rw [slice?_eq _ _ _ (by simp) (by simp), slice, List.take_of_length_le (by simp)]
      exact congrArg some (List.drop_left' rfl)
    · have inside : size ≤ (bytesOf mem (before ++ item :: after)).length := by
        rw [count mem, bytesOf_append, bytesOf_cons, List.length_append, List.length_append,
          bytes_length]
        omega
      simp only [Cut.range, if_pos inside]
      simp only [bytesOf_append, bytesOf_cons, bytes_drop]
      rw [count mem, List.drop_length_add_append,
        List.drop_append_of_le_length (by simpa using fits)]
    · simp [Guard.drop]

theorem cut_guards (c : Cut) (bufs : List Slice) : ∃ g window, c.guard bufs = some g ∧
    Guards c bufs g window := by
  cases c with
  | limit size => exact limit_guards bufs size
  | skip size => exact skip_guards bufs size

theorem overlay_slice {α : Type} {xs : List α} {lo hi : Nat} (ordered : lo ≤ hi)
    (inside : hi ≤ xs.length) : overlay xs lo (slice xs lo hi) = xs := by
  have size : lo + (slice xs lo hi).length = hi := by
    rw [slice_length]
    omega
  have front : xs.take lo = (xs.take hi).take lo := by rw [List.take_take, Nat.min_eq_left ordered]
  rw [overlay, size, slice, front, List.take_append_drop, List.take_append_drop]

theorem step_cut (s : Nest) (c : Cut) {window : List Slice} (shown : s.current = some window) :
    ∃ t window', s.step (.cut c) = some t ∧ t.current = some window' ∧
      (∀ mem, bytesOf mem window' = c.range (bytesOf mem window)) ∧ t.step .drop = some s := by
  obtain ⟨g, window', made, guards⟩ := cut_guards c window
  refine ⟨{ s with guards := g :: s.guards }, window', ?_, guards.shown, guards.range, ?_⟩
  · simp [Nest.step, shown, made]
  · obtain ⟨bufs, outside⟩ := s
    unfold Nest.current at shown
    cases outside with
    | nil =>
      cases shown
      simp [Nest.step, guards.dropped]
    | cons outer outside =>
      obtain ⟨fits, same⟩ := Option.ite_none_right_eq_some.mp shown
      cases same
      simp [Nest.step, guards.dropped, overlay_slice fits.1 fits.2]

inductive Nested (bufs : List Slice) : List Cut → Nest → Prop where
  | start : Nested bufs [] ⟨bufs, []⟩
  | cut {cuts c s t} : Nested bufs cuts s → s.step (.cut c) = some t → Nested bufs (c :: cuts) t

variable {bufs : List Slice} {cuts : List Cut} {s : Nest}

theorem Nested.shows (nested : Nested bufs cuts s) :
    ∃ window, s.current = some window ∧
      ∀ mem, bytesOf mem window = cuts.foldr Cut.range (bytesOf mem bufs) := by
  induction nested with
  | start => exact ⟨bufs, rfl, fun _ => rfl⟩
  | @cut cuts c s t _ opened ih =>
    obtain ⟨window, shown, bytes⟩ := ih
    obtain ⟨t', window', opened', shown', range, -⟩ := step_cut s c shown
    cases opened.symm.trans opened'
    exact ⟨window', shown', fun mem => by rw [range, bytes, List.foldr_cons]⟩

theorem Nested.step (nested : Nested bufs cuts s) (m : Move) :
    ∃ t, s.step m = some t ∧ Nested bufs (m.cuts cuts) t := by
  obtain ⟨window, shown, -⟩ := nested.shows
  cases m with
  | cut c =>
    obtain ⟨t, -, opened, -⟩ := step_cut s c shown
    exact ⟨t, opened, .cut nested opened⟩
  | drop =>
    cases nested with
    | start => exact ⟨_, rfl, .start⟩
    | @cut cuts c outer _ inner opened =>
      -- the drop undoes the step that made the guard
      obtain ⟨window, shown, -⟩ := inner.shows
      obtain ⟨t, -, opened', -, -, undone⟩ := step_cut outer c shown
      cases opened.symm.trans opened'
      exact ⟨outer, undone, inner⟩

theorem Nested.run (nested : Nested bufs cuts s) (moves : List Move) :
    ∃ t, Runs.run Nest.step s moves = some t ∧ Nested bufs (moves.foldl Move.cuts cuts) t := by
  induction moves generalizing cuts s with
  | nil => exact ⟨s, rfl, nested⟩
  | cons m moves ih =>
    obtain ⟨next, stepped, nested⟩ := nested.step m
    obtain ⟨last, ran, nested⟩ := ih nested
    exact ⟨last, by simp [Runs.run, stepped, ran], nested⟩

/-- The writer is offered the bytes from the offset on, `limit` and `skip` denote ranges
    of the bytes in any nesting, and the lists are back when the guards are gone. -/
theorem slices_denote_ranges :
    (∀ (bufs : List (List Byte)) (offset : Nat),
      (offset < bufs.flatten.length →
        ∃ slices, offer bufs offset = .writes slices ∧ slices.flatten = bufs.flatten.drop offset) ∧
      (offset = bufs.flatten.length → offer bufs offset = .returns (.ok 0)) ∧
      (bufs.flatten.length < offset → bufs ≠ [] →
      offer bufs offset = .returns (.error .invalidInput)) ∧
      (bufs = [] → offer bufs offset = .returns (.ok 0))) ∧
    (∀ (bufs : List Slice) (size : Nat), ∃ g window, LimitBufs.limit bufs size = some g ∧
      g.asSlice = some window ∧ (∀ mem, bytesOf mem window = (bytesOf mem bufs).take size) ∧
        g.drop = some bufs) ∧
    ∀ (bufs : List Slice) (moves : List Move), ∃ last window,
      Runs.run Nest.step ⟨bufs, []⟩ moves = some last ∧ last.current = some window ∧
      (∀ mem, bytesOf mem window = (moves.foldl Move.cuts []).foldr Cut.range (bytesOf mem bufs)) ∧
      (moves.foldl Move.cuts [] = [] → last = ⟨bufs, []⟩) := by
  refine ⟨fun bufs offset => ⟨offer_inside bufs, fun same => ?_, fun beyond filled => ?_, ?_⟩,
    fun bufs size => ?_, fun bufs moves => ?_⟩
  · rw [offer_outside bufs (Nat.le_of_eq same.symm),
      if_neg fun beyond => Nat.ne_of_gt beyond.2 same]
  · rw [offer_outside bufs (Nat.le_of_lt beyond), if_pos ⟨filled, beyond⟩]
  · rintro rfl
    rfl
  · obtain ⟨g, window, made, guards⟩ := limit_guards bufs size
    exact ⟨g, window, made, guards.shown, guards.range, guards.dropped⟩
  · obtain ⟨last, ran, nested⟩ := (Nested.start : Nested bufs [] ⟨bufs, []⟩).run moves
    obtain ⟨window, shown, bytes⟩ := nested.shows
    refine ⟨last, window, ran, shown, bytes, fun closed => ?_⟩
    rw [closed] at nested
    cases nested
    rfl

/-- No slices end before any offset, and are not written at all. -/
theorem empty_list_is_written : ¬ ∀ (bufs : List (List Byte)) (offset : Nat),
    bufs.flatten.length < offset → offer bufs offset = .returns (.error .invalidInput) := by
  intro beyond
  cases beyond [] 1 (by decide)

end PushpinVectored
