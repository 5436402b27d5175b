import Pushpin.Foundations.Iteration
import Pushpin.Http.Head

/-!
Structured header values of `core/http1/protocol.rs`: lists of values with
parameters, read by two iterators over one text. Texts are bytes in UTF-8, and a
slice that is not cut between characters panics, as `unreachable!` does.
-/
namespace PushpinHeaderValue
open Text Iteration PushpinRingBuffer
open PushpinHttp (trim whitespace stripFront)

def isAsciiWhitespace (c : Byte) : Bool := c == 9 || c == 10 || c == 12 || c == 13 || c == 32

def sliceTo (s : List Byte) (pos : Nat) : Outcome Unit (List Byte) :=
  if isCharBoundary s pos then .returns (s.take pos) else .panics

def sliceFrom (s : List Byte) (pos : Nat) : Outcome Unit (List Byte) :=
  if isCharBoundary s pos then .returns (s.drop pos) else .panics

def findOneOf : List Byte → List Byte → Option (Nat × Byte)
  | [], _ => none
  | c :: s, values => if c ∈ values then some (0, c) else (findOneOf s values).map fun (pos, b) =>
    (pos + 1, b)

/-- Every character before the one that is found has one byte. -/
def findNonSpace (s : List Byte) : Option Nat := s.findIdx? fun c => !isAsciiWhitespace c

def parseQuoted (s : List Byte) : Outcome Unit (List Byte × List Byte) :=
  match s.findIdx? (· == 34) with
  | some pos => do
    let value ← sliceTo s pos
    let remainder ← sliceFrom s (pos + 1)
    return (value, remainder)
  | none => .fails ()

def skipSpace (s : List Byte) : Outcome Unit (List Byte) :=
  match findNonSpace s with
  | some pos => sliceFrom s pos
  | none => return []

def parseParamValue (s : List Byte) : Outcome Unit (List Byte × List Byte) :=
  match findNonSpace s with
  | none => return ([], [])
  | some pos => do
    let s ← sliceFrom s pos
    match s with
    | [] => .panics
    | 34 :: _ =>
      let s ← sliceFrom s 1
      let (value, remainder) ← parseQuoted s
      let remainder ← skipSpace remainder
      return (value, remainder)
    | _ =>
      match findOneOf s [59, 44] with
      | some (pos, _) =>
        let value ← sliceTo s pos
        let remainder ← sliceFrom s pos
        return (trim value, remainder)
      | none => return (trim s, [])

structure HeaderParamsIterator where
  s : List Byte
  done : Bool
  deriving DecidableEq, Repr

def HeaderParamsIterator.new (s : List Byte) : HeaderParamsIterator := ⟨s, false⟩

def HeaderParamsIterator.empty : HeaderParamsIterator := ⟨[], true⟩

def afterParam (remainder : List Byte) : Outcome Unit (List Byte × Bool) :=
  match remainder with
  | [] => return ([], true)
  | 59 :: _ => do
    let rest ← sliceFrom remainder 1
    return (rest, false)
  | 44 :: _ => return (remainder, true)
  | _ => .fails ()

def splitParam (s : List Byte) : Outcome Unit (List Byte × List Byte × List Byte × Bool) :=
  match findOneOf s [61, 59, 44] with
  | some (pos, c) => do
    let k ← sliceTo s pos
    if c = 61 then
      let rest ← sliceFrom s (pos + 1)
      let (v, remainder) ← parseParamValue rest
      let (remainder, done) ← afterParam remainder
      return (k, v, remainder, done)
    else if c = 59 then
      let remainder ← sliceFrom s (pos + 1)
      return (k, [], remainder, false)
    else if c = 44 then
      let remainder ← sliceFrom s pos
      return (k, [], remainder, true)
    else .panics
  | none => return (s, [], [], true)

def HeaderParamsIterator.next (it : HeaderParamsIterator) :
    Outcome Unit (HeaderParamsIterator × Option (List Byte × List Byte)) :=
  if it.done then return (it, none)
  else do
    let (k, v, remainder, done) ← splitParam it.s
    let k := trim k
    if k = [] then .fails ()
    else return (⟨remainder, done⟩, some (k, v))

structure HeaderValueIterator where
  s : List Byte
  done : Bool
  deriving DecidableEq, Repr

/-- Where the parameters of a value end, found by a temporary iterator that is
    driven to its end. -/
def afterParams (s : List Byte) : Outcome Unit (List Byte × Bool) :=
  match iterate HeaderParamsIterator.next (s.length + 2) (.new s) with
  | none => .panics
  | some (_, _, some e) => .fails e
  | some (params, _, none) =>
    match params.s with
    | 44 :: _ => do
      let rest ← sliceFrom params.s 1
      return (rest, false)
    | [] => return ([], true)
    | _ => .panics

def splitValue (s : List Byte) :
    Outcome Unit (List Byte × HeaderParamsIterator × List Byte × Bool) :=
  match findOneOf s [59, 44] with
  | some (pos, c) => do
    let firstPart ← sliceTo s pos
    let rest ← sliceFrom s (pos + 1)
    if c = 59 then
      let (remainder, done) ← afterParams rest
      return (firstPart, .new rest, remainder, done)
    else if c = 44 then return (firstPart, .empty, rest, false)
    else .panics
  | none => return (s, .empty, [], true)

def HeaderValueIterator.next (it : HeaderValueIterator) :
    Outcome Unit (HeaderValueIterator × Option (List Byte × HeaderParamsIterator)) :=
  if it.done then return (it, none)
  else do
    let (firstPart, params, remainder, done) ← splitValue it.s
    let firstPart := trim firstPart
    if firstPart = [] then .fails ()
    else return (⟨remainder, done⟩, some (firstPart, params))

def parseHeaderValue (s : List Byte) : HeaderValueIterator :=
  if isUtf8 s then ⟨s, false⟩ else ⟨[], false⟩

section Slices
variable {a b s : List Byte} {c : Byte}

theorem isCharBoundary_append (text : isUtf8 b = true) :
    isCharBoundary (a ++ b) a.length = true := by
  unfold isCharBoundary
  cases b with
  | nil => simp
  | cons c b => simp [utf8_starts text]

theorem sliceTo_append (text : isUtf8 b = true) : sliceTo (a ++ b) a.length = .returns a := by
  rw [sliceTo, if_pos (isCharBoundary_append text), List.take_left]

theorem sliceFrom_append (text : isUtf8 b = true) : sliceFrom (a ++ b) a.length = .returns b := by
  rw [sliceFrom, if_pos (isCharBoundary_append text), List.drop_left]

theorem isUtf8_cons (small : c ≤ 0x7f) : isUtf8 (c :: b) = isUtf8 b := by
  rw [isUtf8.eq_def]
  dsimp only
  rw [if_pos small]

theorem sliceFrom_after (text : isUtf8 b = true) : sliceFrom (a ++ c :: b)
    (a.length + 1) = .returns b := by
  have moved : a ++ c :: b = (a ++ [c]) ++ b := by simp
  rw [moved, show a.length + 1 = (a ++ [c]).length by simp]
  exact sliceFrom_append text

variable {values : List Byte}

theorem findOneOf_free (free : ∀ x ∈ a, x ∉ values) (found : c ∈ values) :
    findOneOf (a ++ c :: b) values = some (a.length, c) := by
  induction a with
  | nil => exact if_pos found
  | cons x a ih =>
    obtain ⟨other, free⟩ := List.forall_mem_cons.mp free
    rw [List.cons_append, findOneOf, if_neg other, ih free]
    rfl

theorem findOneOf_none (free : ∀ x ∈ s, x ∉ values) : findOneOf s values = none := by
  induction s with
  | nil => rfl
  | cons x s ih =>
    obtain ⟨other, free⟩ := List.forall_mem_cons.mp free
    rw [findOneOf, if_neg other, ih free]
    rfl

variable {pos : Nat}

theorem findOneOf_spec (found : findOneOf s values = some (pos, c)) :
    ∃ a b, s = a ++ c :: b ∧ a.length = pos ∧ c ∈ values := by
  induction s generalizing pos with
  | nil => cases found
  | cons x s ih =>
    rw [findOneOf] at found
    split at found
    · cases found
      rename_i here
      exact ⟨[], s, rfl, rfl, here⟩
    · obtain ⟨⟨pos', c'⟩, later, same⟩ := Option.map_eq_some_iff.mp found
      cases same
      obtain ⟨a, b, rfl, rfl, here⟩ := ih later
      exact ⟨x :: a, b, rfl, rfl, here⟩

theorem findOneOf_cut (small : ∀ x ∈ values, x ≤ 0x7f)
    (found : findOneOf s values = some (pos, c)) (text : isUtf8 s = true) :
    ∃ a b, s = a ++ c :: b ∧ a.length = pos ∧ c ∈ values ∧ isUtf8 (c :: b) = true ∧
      isUtf8 b = true := by
  obtain ⟨a, b, rfl, size, mem⟩ := findOneOf_spec found
  have rest := (isUtf8_cut (small c mem) text).2
  exact ⟨a, b, rfl, size, mem, (isUtf8_cons (small c mem)).trans rest, rest⟩

theorem findIdx_cut {test : Byte → Bool} (found : s.findIdx? test = some pos) :
    ∃ a c b, s = a ++ c :: b ∧ a.length = pos ∧ test c = true ∧ ∀ x ∈ a, test x = false := by
  obtain ⟨inside, here, before⟩ := List.findIdx?_eq_some_iff_getElem.mp found
  refine ⟨s.take pos, s[pos], s.drop (pos + 1), ?_, ?_, here, ?_⟩
  · rw [← List.drop_eq_getElem_cons inside, List.take_append_drop]
  · rw [List.length_take, Nat.min_eq_left (Nat.le_of_lt inside)]
  · intro x mem
    obtain ⟨i, small, rfl⟩ := List.getElem_of_mem mem
    rw [List.length_take] at small
    rw [List.getElem_take]
    simpa using before i (by omega)

theorem findIdx_free {test : Byte → Bool} (before : ∀ x ∈ a, test x = false)
    (here : test c = true) : (a ++ c :: b).findIdx? test = some a.length := by
  rw [List.findIdx?_append, List.findIdx?_eq_none_iff.mpr (by simpa using before),
    List.findIdx?_cons, here]
  simp

theorem space_small (space : isAsciiWhitespace c = true) : c ≤ 0x7f := by
  have all : ∀ c : UInt8, isAsciiWhitespace c = true → c ≤ 0x7f := forall_byte (by decide +kernel)
  exact all c space

theorem isUtf8_spaces (spaces : ∀ x ∈ a, isAsciiWhitespace x = true) (s : List Byte) :
    isUtf8 (a ++ s) = isUtf8 s :=
  isUtf8_append (isUtf8_of_small fun x mem => space_small (spaces x mem)) s

theorem findNonSpace_cut (found : findNonSpace s = some pos) (text : isUtf8 s = true) :
    ∃ a c b, s = a ++ c :: b ∧ a.length = pos ∧ isAsciiWhitespace c = false ∧
      isUtf8 (c :: b) = true := by
  obtain ⟨a, c, b, rfl, size, here, before⟩ := findIdx_cut found
  rw [isUtf8_spaces fun x mem => by simpa using before x mem] at text
  exact ⟨a, c, b, rfl, size, by simpa using here, text⟩

end Slices

def Shortens {α : Type} (s : List Byte) (outcome : Outcome Unit α) (rest : α → List Byte) : Prop :=
  outcome ≠ .panics ∧ ∀ a, outcome = .returns a → isUtf8 (rest a) = true ∧
    (rest a).length ≤ s.length

variable {s : List Byte}

theorem skipSpace_shortens (text : isUtf8 s = true) : Shortens s (skipSpace s) id := by
  unfold skipSpace
  cases found : findNonSpace s with
  | none => exact ⟨nofun, fun a same => by cases same; exact ⟨rfl, Nat.zero_le _⟩⟩
  | some pos =>
    obtain ⟨a, c, b, rfl, rfl, -, rest⟩ := findNonSpace_cut found text
    dsimp only
    rw [sliceFrom_append rest]
    refine ⟨nofun, fun r same => ?_⟩
    cases same
    exact ⟨rest, by simp⟩

theorem parseQuoted_shortens (text : isUtf8 s = true) : Shortens s (parseQuoted s) Prod.snd := by
  unfold parseQuoted
  cases found : s.findIdx? (· == 34) with
  | none => exact ⟨nofun, fun a same => by cases same⟩
  | some pos =>
    obtain ⟨a, c, b, rfl, rfl, here, -⟩ := findIdx_cut found
    rw [beq_iff_eq] at here
    have small : c ≤ 0x7f := by
      rw [here]
      decide
    obtain ⟨-, rest⟩ := isUtf8_cut small text
    dsimp only
    rw [sliceTo_append (by rw [isUtf8_cons small, rest]), sliceFrom_after rest]
    refine ⟨nofun, fun r same => ?_⟩
    cases same
    exact ⟨rest, by simp; omega⟩

theorem parseParamValue_shortens (text : isUtf8 s = true) :
    Shortens s (parseParamValue s) Prod.snd := by
  unfold parseParamValue
  cases found : findNonSpace s with
  | none => exact ⟨nofun, fun a same => by cases same; exact ⟨rfl, Nat.zero_le _⟩⟩
  | some pos =>
    obtain ⟨a, c, b, rfl, rfl, -, rest⟩ := findNonSpace_cut found text
    dsimp only
    rw [sliceFrom_append rest, Outcome.returns_bind]
    by_cases quote : c = 34
    · subst quote
      have inside : isUtf8 b = true := (isUtf8_cons (by decide)).symm.trans rest
      have cut : sliceFrom (34 :: b) 1 = .returns b := sliceFrom_append (a := [34]) inside
      obtain ⟨safe, kept⟩ := parseQuoted_shortens inside
      rw [cut, Outcome.returns_bind]
      cases quoted : parseQuoted b with
      | panics => exact absurd quoted safe
      | fails e => exact ⟨nofun, fun a same => by cases same⟩
      | returns got =>
        obtain ⟨value, remainder⟩ := got
        obtain ⟨utf8, le⟩ := kept _ quoted
        obtain ⟨safe, kept⟩ := skipSpace_shortens utf8
        rw [Outcome.returns_bind]
        dsimp only at le ⊢
        cases skipped : skipSpace remainder with
        | panics => exact absurd skipped safe
        | fails e => exact ⟨nofun, fun a same => by cases same⟩
        | returns r =>
          refine ⟨nofun, fun got same => ?_⟩
          cases same
          obtain ⟨utf8, less⟩ := kept r skipped
          change r.length ≤ remainder.length at less
          exact ⟨utf8, by simp only [List.length_append, List.length_cons]; omega⟩
    · split
      · rename_i nil
        cases nil
      · rename_i same
        cases same
        exact absurd rfl quote
      · cases sep : findOneOf (c :: b) [59, 44] with
        | none => exact ⟨nofun, fun a same => by cases same; exact ⟨rfl, Nat.zero_le _⟩⟩
        | some hit =>
          obtain ⟨pos, d⟩ := hit
          obtain ⟨v, r, eq, rfl, -, tail, -⟩ := findOneOf_cut (by simp) sep rest
          dsimp only
          rw [eq, sliceTo_append tail, Outcome.returns_bind, sliceFrom_append tail]
          refine ⟨nofun, fun got same => ?_⟩
          cases same
          have size := congrArg List.length eq
          refine ⟨tail, ?_⟩
          simp only [List.length_append, List.length_cons] at size ⊢
          omega

def EndsValue (remainder : List Byte) (done : Bool) : Prop :=
  done = true → remainder = [] ∨ ∃ b, remainder = 44 :: b

theorem afterParam_spec (text : isUtf8 s = true) :
    afterParam s ≠ .panics ∧ ∀ r done, afterParam s = .returns (r, done) →
      isUtf8 r = true ∧ r.length ≤ s.length ∧ EndsValue r done := by
  unfold afterParam
  split
  · refine ⟨nofun, fun r done same => ?_⟩
    cases same
    exact ⟨rfl, Nat.le_refl _, fun _ => Or.inl rfl⟩
  · rename_i b
    have rest : isUtf8 b = true := (isUtf8_cons (by decide)).symm.trans text
    have cut : sliceFrom (59 :: b) 1 = .returns b := sliceFrom_append (a := [59]) rest
    rw [cut]
    refine ⟨nofun, fun r done same => ?_⟩
    cases same
    exact ⟨rest, Nat.le_succ _, fun last => by cases last⟩
  · rename_i b
    refine ⟨nofun, fun r done same => ?_⟩
    cases same
    exact ⟨text, Nat.le_refl _, fun _ => Or.inr ⟨b, rfl⟩⟩
  · exact ⟨nofun, fun r done same => by cases same⟩

theorem splitParam_spec (text : isUtf8 s = true) :
    splitParam s ≠ .panics ∧ ∀ k v r done, splitParam s = .returns (k, v, r, done) →
      isUtf8 r = true ∧ r.length ≤ s.length ∧ (done = false → r.length < s.length) ∧
        EndsValue r done := by
  unfold splitParam
  cases found : findOneOf s [61, 59, 44] with
  | none =>
    refine ⟨nofun, fun k v r done same => ?_⟩
    cases same
    exact ⟨rfl, Nat.zero_le _, fun last => (by cases last), fun _ => Or.inl rfl⟩
  | some hit =>
    obtain ⟨pos, c⟩ := hit
    obtain ⟨a, b, rfl, rfl, mem, tail, rest⟩ := findOneOf_cut (by simp) found text
    have shorter : b.length < (a ++ c :: b).length := by
      simp only [List.length_append, List.length_cons]
      omega
    dsimp only
    rw [sliceTo_append tail, Outcome.returns_bind]
    rcases List.mem_cons.mp mem with rfl | mem
    · rw [if_pos rfl, sliceFrom_after rest, Outcome.returns_bind]
      obtain ⟨safe, kept⟩ := parseParamValue_shortens rest
      cases value : parseParamValue b with
      | panics => exact absurd value safe
      | fails e => exact ⟨nofun, fun k v r done same => by cases same⟩
      | returns got =>
        obtain ⟨v, remainder⟩ := got
        obtain ⟨utf8, le⟩ := kept _ value
        obtain ⟨safe, kept⟩ := afterParam_spec utf8
        rw [Outcome.returns_bind]
        dsimp only at le ⊢
        cases after : afterParam remainder with
        | panics => exact absurd after safe
        | fails e => exact ⟨nofun, fun k v r done same => by cases same⟩
        | returns got =>
          obtain ⟨r, done⟩ := got
          obtain ⟨utf8, less, ends⟩ := kept r done after
          refine ⟨nofun, fun k v r' done' same => ?_⟩
          cases same
          have short : r.length < (a ++ 61 :: b).length :=
            Nat.lt_of_le_of_lt (Nat.le_trans less le) shorter
          exact ⟨utf8, Nat.le_of_lt short, fun _ => short, ends⟩
    · rcases List.mem_cons.mp mem with rfl | mem
      · rw [if_neg (by decide), if_pos rfl, sliceFrom_after rest]
        refine ⟨nofun, fun k v r done same => ?_⟩
        cases same
        exact ⟨rest, Nat.le_of_lt shorter, fun _ => shorter, fun last => by cases last⟩
      · obtain rfl := List.mem_singleton.mp mem
        rw [if_neg (by decide), if_neg (by decide), if_pos rfl, sliceFrom_append tail]
        refine ⟨nofun, fun k v r done same => ?_⟩
        cases same
        exact ⟨tail, by simp, fun last => (by cases last), fun _ => Or.inr ⟨b, rfl⟩⟩

namespace HeaderParamsIterator

structure Sound (size : Nat) (it : HeaderParamsIterator) : Prop where
  text : isUtf8 it.s = true
  fits : it.s.length ≤ size
  ends : EndsValue it.s it.done

def left (it : HeaderParamsIterator) : Nat := if it.done then 0 else it.s.length + 1

section
variable {size : Nat} {it : HeaderParamsIterator} (sound : it.Sound size)
include sound

theorem next_spec :
    it.next ≠ .panics ∧ (∀ it', it.next = .returns (it', none) → it'.Sound size ∧ it'.done = true) ∧
      ∀ it' a, it.next = .returns (it', some a) → it'.Sound size ∧ it'.left < it.left := by
  obtain ⟨s, done⟩ := it
  unfold next
  cases done with
  | true =>
    refine ⟨nofun, fun it' same => ?_, fun it' a same => by cases same⟩
    cases same
    exact ⟨sound, rfl⟩
  | false =>
    obtain ⟨safe, kept⟩ := splitParam_spec sound.text
    dsimp only at safe kept ⊢
    rw [if_neg Bool.false_ne_true]
    cases split : splitParam s with
    | panics => exact absurd split safe
    | fails e => exact ⟨nofun, fun it' same => (by cases same), fun it' a same => by cases same⟩
    | returns got =>
      obtain ⟨k, v, r, last⟩ := got
      obtain ⟨utf8, le, less, ends⟩ := kept k v r last split
      rw [Outcome.returns_bind]
      dsimp only
      by_cases empty : trim k = []
      · rw [if_pos empty]
        exact ⟨nofun, fun it' same => (by cases same), fun it' a same => by cases same⟩
      · rw [if_neg empty]
        refine ⟨nofun, fun it' same => (by cases same), fun it' a same => ?_⟩
        cases same
        refine ⟨⟨utf8, Nat.le_trans le sound.fits, ends⟩, ?_⟩
        cases last with
        | true => exact Nat.succ_pos _
        | false => exact Nat.succ_lt_succ (less rfl)

theorem iterate_spec {calls : Nat}
    (enough : it.s.length + 2 ≤ calls) :
    ∃ last items e, iterate next calls it = some (last, items, e) ∧
      (e = none → last.Sound size ∧ last.done = true) := by
  apply iterate_total (Sound size) (fun it => it.Sound size ∧ it.done = true) left
  · intro it sound
    exact next_spec sound
  · exact sound
  · unfold left
    split <;> omega

end

end HeaderParamsIterator

theorem afterParams_spec (text : isUtf8 s = true) :
    afterParams s ≠ .panics ∧ ∀ r done, afterParams s = .returns (r, done) →
      isUtf8 r = true ∧ r.length ≤ s.length ∧
        ∃ last items, iterate HeaderParamsIterator.next (s.length + 2)
          (.new s) = some (last, items, none) := by
  have sound : (HeaderParamsIterator.new s).Sound s.length :=
    ⟨text, Nat.le_refl _, fun last => by cases last⟩
  obtain ⟨last, items, e, driven, ends⟩ := HeaderParamsIterator.iterate_spec sound (Nat.le_refl _)
  change iterate HeaderParamsIterator.next (s.length + 2) (.new s) = _ at driven
  unfold afterParams
  rw [driven]
  cases e with
  | some e => exact ⟨nofun, fun r done same => by cases same⟩
  | none =>
    obtain ⟨kept, finished⟩ := ends rfl
    have fits := kept.fits
    dsimp only
    -- What remains behind the last parameter is empty or begins with a comma.
    rcases kept.ends finished with nil | ⟨b, comma⟩
    · rw [nil]
      refine ⟨nofun, fun r done same => ?_⟩
      cases same
      exact ⟨rfl, Nat.zero_le _, last, items, rfl⟩
    · have utf8 := kept.text
      rw [comma] at utf8 fits ⊢
      have rest : isUtf8 b = true := (isUtf8_cons (by decide)).symm.trans utf8
      have cut : sliceFrom (44 :: b) 1 = .returns b := sliceFrom_append (a := [44]) rest
      rw [cut]
      refine ⟨nofun, fun r done same => ?_⟩
      cases same
      exact ⟨rest, Nat.le_of_succ_le fits, last, items, rfl⟩

def Yields (it : HeaderParamsIterator) (pairs : List (List Byte × List Byte)) : Prop :=
  ∃ last, ∀ calls, it.s.length + 2 ≤ calls →
    iterate HeaderParamsIterator.next calls it = some (last, pairs, none)

theorem empty_yields : Yields .empty [] := by
  refine ⟨.empty, fun calls enough => ?_⟩
  obtain ⟨calls, rfl⟩ : ∃ k, calls = k + 1 := ⟨calls - 1, by omega⟩
  rfl

theorem splitValue_spec (text : isUtf8 s = true) :
    splitValue s ≠ .panics ∧ ∀ first params r done,
      splitValue s = .returns (first, params, r, done) →
      isUtf8 r = true ∧ (done = false → r.length < s.length) ∧ ∃ pairs, Yields params pairs := by
  unfold splitValue
  cases found : findOneOf s [59, 44] with
  | none =>
    refine ⟨nofun, fun first params r done same => ?_⟩
    cases same
    exact ⟨rfl, fun last => (by cases last), [], empty_yields⟩
  | some hit =>
    obtain ⟨pos, c⟩ := hit
    obtain ⟨a, b, rfl, rfl, mem, tail, rest⟩ := findOneOf_cut (by simp) found text
    have shorter : b.length < (a ++ c :: b).length := by
      simp only [List.length_append, List.length_cons]
      omega
    dsimp only
    rw [sliceTo_append tail, Outcome.returns_bind, sliceFrom_after rest, Outcome.returns_bind]
    rcases List.mem_cons.mp mem with rfl | mem
    · rw [if_pos rfl]
      obtain ⟨safe, kept⟩ := afterParams_spec rest
      cases after : afterParams b with
      | panics => exact absurd after safe
      | fails e => exact ⟨nofun, fun first params r done same => by cases same⟩
      | returns got =>
        obtain ⟨r, done⟩ := got
        obtain ⟨utf8, le, last, items, driven⟩ := kept r done after
        refine ⟨nofun, fun first params r' done' same => ?_⟩
        cases same
        exact ⟨utf8, fun _ => Nat.lt_of_le_of_lt le shorter, items, last,
          fun calls enough => iterate_more driven enough⟩
    · obtain rfl := List.mem_singleton.mp mem
      rw [if_neg (by decide), if_pos rfl]
      refine ⟨nofun, fun first params r done same => ?_⟩
      cases same
      exact ⟨rest, fun _ => shorter, [], empty_yields⟩

namespace HeaderValueIterator

def left (it : HeaderValueIterator) : Nat := if it.done then 0 else it.s.length + 1

theorem next_spec {it : HeaderValueIterator} (text : isUtf8 it.s = true) :
    it.next ≠ .panics ∧ ∀ it' item, it.next = .returns (it', some item) →
      (isUtf8 it'.s = true ∧ it'.left < it.left) ∧ ∃ pairs, Yields item.2 pairs := by
  obtain ⟨s, done⟩ := it
  unfold next
  cases done with
  | true => exact ⟨nofun, fun it' a same => by cases same⟩
  | false =>
    obtain ⟨safe, kept⟩ := splitValue_spec text
    dsimp only at safe kept ⊢
    rw [if_neg Bool.false_ne_true]
    cases split : splitValue s with
    | panics => exact absurd split safe
    | fails e => exact ⟨nofun, fun it' a same => by cases same⟩
    | returns got =>
      obtain ⟨first, params, r, last⟩ := got
      obtain ⟨utf8, less, yields⟩ := kept first params r last split
      rw [Outcome.returns_bind]
      dsimp only
      by_cases empty : trim first = []
      · rw [if_pos empty]
        exact ⟨nofun, fun it' a same => by cases same⟩
      · rw [if_neg empty]
        refine ⟨nofun, fun it' a same => ?_⟩
        cases same
        refine ⟨⟨utf8, ?_⟩, yields⟩
        cases last with
        | true => exact Nat.succ_pos _
        | false => exact Nat.succ_lt_succ (less rfl)

end HeaderValueIterator

theorem parseHeaderValue_text (b : List Byte) :
    isUtf8 (parseHeaderValue b).s = true ∧ (parseHeaderValue b).s.length ≤ b.length := by
  unfold parseHeaderValue
  split
  · rename_i text
    exact ⟨text, Nat.le_refl _⟩
  · exact ⟨rfl, Nat.zero_le _⟩

/-- On every byte string the iteration comes to its end or to an error, and each
    value that it yields has parameters without an error. -/
theorem parse_total (b : List Byte) :
    ∃ last items e, (∀ calls, b.length + 2 ≤ calls →
        iterate HeaderValueIterator.next calls (parseHeaderValue b) = some (last, items, e)) ∧
      ∀ item ∈ items, ∃ pairs, Yields item.2 pairs := by
  obtain ⟨text, short⟩ := parseHeaderValue_text b
  obtain ⟨last, items, e, ended, -⟩ :=
    iterate_total (fun it => isUtf8 it.s = true) (fun _ => True) HeaderValueIterator.left
      (fun it text => ⟨(HeaderValueIterator.next_spec text).1, fun _ _ => trivial,
        fun it' a stepped => ((HeaderValueIterator.next_spec text).2 it' a stepped).1⟩)
      (b.length + 2) text (by unfold HeaderValueIterator.left; split <;> omega)
  refine ⟨last, items, e, fun calls enough => iterate_more ended enough, ?_⟩
  refine iterate_items (fun it => isUtf8 it.s = true) (fun item => ∃ pairs, Yields item.2 pairs) ?_
    text ended
  intro it it' item text stepped
  obtain ⟨⟨kept, _⟩, yields⟩ := (HeaderValueIterator.next_spec text).2 it' item stepped
  exact ⟨kept, yields⟩

end PushpinHeaderValue
