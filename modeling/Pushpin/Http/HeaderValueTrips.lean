import Pushpin.Http.HeaderValues

namespace PushpinHeaderValue
open Text Iteration PushpinRingBuffer
open PushpinHttp (trim whitespace stripFront)

abbrev Spaces := { s : List Byte // ∀ c ∈ s, isAsciiWhitespace c = true }

structure Token where
  text : List Byte
  utf8 : isUtf8 text = true
  filled : text ≠ []
  trimmed : trim text = text
  free : ∀ c ∈ text, c ∉ ([61, 59, 44] : List Byte)

structure Plain where
  text : List Byte
  utf8 : isUtf8 text = true
  trimmed : trim text = text
  free : ∀ c ∈ text, c ∉ ([59, 44] : List Byte)
  unquoted : text.head? ≠ some 34

structure Quoted where
  text : List Byte
  utf8 : isUtf8 text = true
  free : ∀ c ∈ text, c ≠ 34

inductive ParamValue where
  | absent
  | plain (before : Spaces) (value : Plain) (after : Spaces)
  | quoted (before : Spaces) (value : Quoted) (after : Spaces)

structure Param where
  before : Spaces
  name : Token
  after : Spaces
  value : ParamValue

structure Item where
  before : Spaces
  name : Token
  after : Spaces
  params : List Param

def ParamValue.text : ParamValue → List Byte
  | .absent => []
  | .plain _ value _ => value.text
  | .quoted _ value _ => value.text

def Param.pair (p : Param) : List Byte × List Byte := (p.name.text, p.value.text)

def ParamValue.print : ParamValue → List Byte
  | .absent => []
  | .plain before value after => 61 :: (before.1 ++ (value.text ++ after.1))
  | .quoted before value after => 61 :: (before.1 ++ 34 :: (value.text ++ 34 :: after.1))

def Param.print (p : Param) : List Byte :=
  p.before.1 ++ (p.name.text ++ (p.after.1 ++ p.value.print))

def printParams (ps : List Param) : List Byte := ps.flatMap fun p => 59 :: p.print

def Item.print (i : Item) : List Byte :=
  i.before.1 ++ (i.name.text ++ (i.after.1 ++ printParams i.params))

def printValues : List Item → List Byte
  | [] => []
  | [i] => i.print
  | i :: is => i.print ++ 44 :: printValues is

section Trimming
variable {pieces : List (List Byte)} {s sp : List Byte}

def Apart (pieces : List (List Byte)) : Prop :=
  ∀ piece ∈ pieces, piece.length = 1 ∨ piece ≠ [] ∧ ∀ c ∈ piece, 0x80 ≤ c

theorem Apart.filled (apart : Apart pieces) {piece : List Byte} (mem : piece ∈ pieces) :
    piece ≠ [] := by
  rcases apart piece mem with one | high
  · rintro rfl
    cases one
  · exact high.1

theorem apart_of_all (all : (pieces.all fun piece =>
    piece.length = 1 || piece ≠ [] && piece.all fun c => 0x80 ≤ c) = true) : Apart pieces := by
  intro piece mem
  have one := List.all_eq_true.mp all piece mem
  simpa only [Bool.or_eq_true, Bool.and_eq_true, decide_eq_true_eq, List.all_eq_true] using one

theorem whitespace_apart : Apart whitespace ∧ Apart (whitespace.map List.reverse) :=
  ⟨apart_of_all (by decide), apart_of_all (by decide)⟩

theorem space_piece {c : Byte} (space : isAsciiWhitespace c = true) : [c] ∈ whitespace := by
  have all : ∀ c : UInt8, isAsciiWhitespace c = true → [c] ∈ whitespace :=
    forall_byte (by decide +kernel)
  exact all c space

theorem stripFront_none (clean : pieces.find? (·.isPrefixOf s) = none) (rounds : Nat) :
    stripFront pieces rounds s = s := by
  cases rounds with
  | zero => rfl
  | succ rounds => rw [stripFront, clean]

theorem stripFront_length (rounds : Nat) : (stripFront pieces rounds s).length ≤ s.length := by
  induction rounds generalizing s with
  | zero => exact Nat.le_refl _
  | succ rounds ih =>
    rw [stripFront]
    split
    · exact Nat.le_trans ih (by simp)
    · exact Nat.le_refl _

section
variable (apart : Apart pieces)
include apart

theorem stripFront_eq (filled : s ≠ [])
    (same : s.length ≤ (stripFront pieces s.length s).length) :
    pieces.find? (·.isPrefixOf s) = none := by
  cases found : pieces.find? (·.isPrefixOf s) with
  | none => rfl
  | some piece =>
    have size := List.length_pos_of_ne_nil (apart.filled (List.mem_of_find?_eq_some found))
    have whole := List.length_pos_of_ne_nil filled
    obtain ⟨n, more⟩ : ∃ n, s.length = n + 1 := ⟨s.length - 1, by omega⟩
    rw [more, stripFront, found] at same
    have le := @stripFront_length pieces (s.drop piece.length) n
    rw [List.length_drop] at le
    dsimp only at same
    omega

theorem find_append (filled : s ≠ [])
    (spaces : ∀ c ∈ sp, isAsciiWhitespace c = true) (clean : pieces.find? (·.isPrefixOf s) = none) :
    pieces.find? (·.isPrefixOf (s ++ sp)) = none := by
  rw [List.find?_eq_none] at clean ⊢
  intro piece mem front
  apply clean piece mem
  rw [List.isPrefixOf_iff_prefix] at front ⊢
  by_cases short : piece.length ≤ s.length
  · exact List.prefix_of_prefix_length_le front (List.prefix_append s sp) short
  · exfalso
    obtain ⟨tail, rfl⟩ := List.prefix_of_prefix_length_le (List.prefix_append s sp) front (by omega)
    have size := List.length_pos_of_ne_nil filled
    rw [List.length_append] at short
    cases tail with
    | nil => simp at short
    | cons c tail =>
      have inside : c ∈ sp := by
        have begins := (List.prefix_append_right_inj s).mp front
        exact begins.subset List.mem_cons_self
      rcases apart _ mem with one | high
      · rw [List.length_append, List.length_cons] at one
        omega
      · have large : (0x80 : UInt8) ≤ c := high.2 c (by simp)
        exact absurd (UInt8.le_trans large (space_small (spaces c inside))) (by decide)

theorem find_space {c : Byte} (piece : [c] ∈ pieces) (small : c ≤ 0x7f) :
    pieces.find? (·.isPrefixOf (c :: s)) = some [c] := by
  induction pieces with
  | nil => exact absurd piece List.not_mem_nil
  | cons p pieces ih =>
    rw [List.find?_cons]
    by_cases front : p.isPrefixOf (c :: s) = true
    · rw [front]
      rw [List.isPrefixOf_iff_prefix] at front
      rcases apart p List.mem_cons_self with one | high
      · obtain ⟨x, rfl⟩ := List.length_eq_one_iff.mp one
        obtain ⟨rfl, _⟩ := List.cons_prefix_cons.mp front
        rfl
      · cases p with
        | nil => exact absurd rfl high.1
        | cons x p =>
          obtain ⟨rfl, _⟩ := List.cons_prefix_cons.mp front
          exact absurd (UInt8.le_trans (high.2 x List.mem_cons_self) small) (by decide)
    · have other : p ≠ [c] := by
        rintro rfl
        exact front (by simp [List.isPrefixOf])
      rw [Bool.not_eq_true] at front
      rw [front]
      have later := (List.mem_cons.mp piece).resolve_left (Ne.symm other)
      exact ih (fun p mem => apart p (List.mem_cons_of_mem _ mem)) later

theorem stripFront_spaces (pieces_of : ∀ c, isAsciiWhitespace c = true →
    [c] ∈ pieces)
    (spaces : ∀ c ∈ sp, isAsciiWhitespace c = true) (clean : pieces.find? (·.isPrefixOf s) = none)
    {rounds : Nat}
    (enough : sp.length ≤ rounds) : stripFront pieces rounds (sp ++ s) = s := by
  induction sp generalizing rounds with
  | nil => exact stripFront_none clean rounds
  | cons c sp ih =>
    obtain ⟨rounds, rfl⟩ : ∃ n, rounds = n + 1 :=
      ⟨rounds - 1, by rw [List.length_cons] at enough; omega⟩
    obtain ⟨here, spaces⟩ := List.forall_mem_cons.mp spaces
    rw [List.cons_append, stripFront, find_space apart (pieces_of c here) (space_small here)]
    exact ih spaces (Nat.le_of_succ_le_succ enough)

end

theorem trimmed_clean {t : List Byte} (filled : t ≠ []) (trimmed : trim t = t) :
    whitespace.find? (·.isPrefixOf t) = none ∧
      (whitespace.map List.reverse).find? (·.isPrefixOf t.reverse) = none := by
  have size := congrArg List.length trimmed
  unfold PushpinHttp.trim at size
  dsimp only at size
  rw [List.length_reverse] at size
  have back :=
    @stripFront_length (whitespace.map List.reverse) (stripFront whitespace t.length t).reverse
      (stripFront whitespace t.length t).length
  rw [size, List.length_reverse] at back
  have front := stripFront_eq whitespace_apart.1 filled back
  refine ⟨front, ?_⟩
  rw [stripFront_none front] at size
  apply stripFront_eq whitespace_apart.2
  · exact fun empty => filled (List.reverse_eq_nil_iff.mp empty)
  · rw [List.length_reverse, size]

theorem trim_spaced (before after : Spaces) {t : List Byte} (filled : t ≠ [])
    (trimmed : trim t = t) : trim (before.1 ++ (t ++ after.1)) = t := by
  obtain ⟨front, back⟩ := trimmed_clean filled trimmed
  have first : stripFront whitespace (before.1 ++ (t ++ after.1)).length
      (before.1 ++ (t ++ after.1)) = t ++ after.1 :=
    stripFront_spaces whitespace_apart.1 (fun c => space_piece) before.2
      (find_append whitespace_apart.1 filled after.2 front) (by rw [List.length_append]; omega)
  have reversed : ∀ c, isAsciiWhitespace c = true → [c] ∈ whitespace.map List.reverse := by
    intro c space
    exact List.mem_map.mpr ⟨[c], space_piece space, rfl⟩
  unfold PushpinHttp.trim
  dsimp only
  rw [first, List.reverse_append, stripFront_spaces whitespace_apart.2 reversed _ back,
    List.reverse_reverse]
  · rw [List.length_reverse, List.length_append]
    omega
  · intro c mem
    exact after.2 c (List.mem_reverse.mp mem)

theorem trimmed_head {c : Byte} (trimmed : trim (c :: s) = c :: s) :
    isAsciiWhitespace c = false := by
  rw [← Bool.not_eq_true]
  intro space
  have clean := (trimmed_clean (List.cons_ne_nil c s) trimmed).1
  rw [find_space whitespace_apart.1 (space_piece space) (space_small space)] at clean
  cases clean

end Trimming

section Reading
variable {s rest : List Byte}

structure Follows (rest : List Byte) : Prop where
  text : isUtf8 rest = true
  begins : rest = [] ∨ ∃ c b, rest = c :: b ∧ c ∈ ([59, 44] : List Byte)

theorem space_free {c : Byte} (space : isAsciiWhitespace c = true) :
    c ∉ ([61, 59, 44, 34] : List Byte) := by
  intro mem
  simp only [List.mem_cons, List.not_mem_nil, or_false] at mem
  rcases mem with rfl | rfl | rfl | rfl <;> exact absurd space (by decide)

@[simp] theorem spaces_utf8 (sp : Spaces) (s : List Byte) : isUtf8 (sp.1 ++ s) = isUtf8 s :=
  isUtf8_spaces sp.2 s

@[simp] theorem token_utf8 (t : Token) (s : List Byte) : isUtf8 (t.text ++ s) = isUtf8 s :=
  isUtf8_append t.utf8 s

theorem valuePrint_utf8 (v : ParamValue) (s : List Byte) : isUtf8 (v.print ++ s) = isUtf8 s := by
  cases v with
  | absent => rfl
  | plain before value after =>
    rw [ParamValue.print, List.cons_append, isUtf8_cons (by decide), List.append_assoc,
      List.append_assoc, spaces_utf8, isUtf8_append value.utf8, spaces_utf8]
  | quoted before value after =>
    rw [ParamValue.print, List.cons_append, isUtf8_cons (by decide), List.append_assoc, spaces_utf8,
      List.cons_append, isUtf8_cons (by decide), List.append_assoc, isUtf8_append value.utf8,
        List.cons_append,
      isUtf8_cons (by decide), spaces_utf8]

theorem paramPrint_utf8 (p : Param) (s : List Byte) : isUtf8 (p.print ++ s) = isUtf8 s := by
  rw [Param.print, List.append_assoc, List.append_assoc, List.append_assoc, spaces_utf8, token_utf8,
    spaces_utf8, valuePrint_utf8]

theorem paramsPrint_utf8 (ps : List Param) (s : List Byte) :
    isUtf8 (printParams ps ++ s) = isUtf8 s := by
  induction ps with
  | nil => rfl
  | cons p ps ih =>
    rw [printParams, List.flatMap_cons, List.cons_append, List.cons_append, List.append_assoc,
      isUtf8_cons (by decide), paramPrint_utf8]
    exact ih

theorem itemPrint_utf8 (i : Item) (s : List Byte) : isUtf8 (i.print ++ s) = isUtf8 s := by
  rw [Item.print, List.append_assoc, List.append_assoc, List.append_assoc, spaces_utf8, token_utf8,
    spaces_utf8, paramsPrint_utf8]

theorem printValues_cons (i j : Item) (is : List Item) :
    printValues (i :: j :: is) = i.print ++ 44 :: printValues (j :: is) := rfl

theorem valuesPrint_utf8 (is : List Item) : isUtf8 (printValues is) = true := by
  match is with
  | [] => rfl
  | [i] => rw [printValues, ← List.append_nil i.print, itemPrint_utf8]; rfl
  | i :: j :: is =>
    rw [printValues_cons, itemPrint_utf8, isUtf8_cons (by decide)]
    exact valuesPrint_utf8 (j :: is)

theorem findNonSpace_spaced (before : Spaces) {c : Byte} (other : isAsciiWhitespace c = false) :
    findNonSpace (before.1 ++ c :: s) = some before.1.length := by
  apply findIdx_free
  · intro x mem
    rw [before.2 x mem]
    rfl
  · rw [other]
    rfl

theorem skipSpace_spaced (after : Spaces) (follows : Follows rest) :
    skipSpace (after.1 ++ rest) = .returns rest := by
  rcases follows.begins with rfl | ⟨c, b, rfl, mem⟩
  · have all : findNonSpace (after.1 ++ []) = none := by
      rw [List.append_nil, findNonSpace, List.findIdx?_eq_none_iff]
      intro x mem
      rw [after.2 x mem]
      rfl
    rw [skipSpace, all]
    rfl
  · have other : isAsciiWhitespace c = false := by
      have both : ∀ x ∈ ([59, 44] : List Byte), isAsciiWhitespace x = false := by
        simp [isAsciiWhitespace]
      exact both c mem
    rw [skipSpace, findNonSpace_spaced after other]
    exact sliceFrom_append follows.text

theorem parseParamValue_quoted (before : Spaces) (value : Quoted) (after : Spaces)
    (follows : Follows rest) :
    parseParamValue (before.1 ++ 34 :: (value.text ++ 34 :: (after.1 ++ rest))) = .returns
      (value.text, rest) := by
  have tail : isUtf8 (after.1 ++ rest) = true := (spaces_utf8 after rest).trans follows.text
  have close : isUtf8 (34 :: (after.1 ++ rest)) = true := (isUtf8_cons (by decide)).trans tail
  have inside : isUtf8 (value.text ++ 34 :: (after.1 ++ rest)) = true :=
    (isUtf8_append value.utf8 _).trans close
  have open_ : isUtf8 (34 :: (value.text ++ 34 :: (after.1 ++ rest))) = true :=
    (isUtf8_cons (by decide)).trans inside
  have found :
      (value.text ++ 34 :: (after.1 ++ rest)).findIdx? (· == 34) = some value.text.length := by
    apply findIdx_free
    · intro x mem
      exact beq_eq_false_iff_ne.mpr (value.free x mem)
    · rfl
  have cut : sliceFrom (34 :: (value.text ++ 34 :: (after.1 ++ rest))) 1 =
      .returns (value.text ++ 34 :: (after.1 ++ rest)) := sliceFrom_append (a := [34]) inside
  have quoted : parseQuoted (value.text ++ 34 :: (after.1 ++ rest)) = .returns
      (value.text, after.1 ++ rest) := by
    rw [parseQuoted, found]
    dsimp only
    rw [sliceTo_append close, sliceFrom_after tail]
    rfl
  unfold parseParamValue
  rw [findNonSpace_spaced before (by decide)]
  dsimp only
  rw [sliceFrom_append open_, Outcome.returns_bind]
  rw [cut, Outcome.returns_bind, quoted, Outcome.returns_bind]
  dsimp only
  rw [skipSpace_spaced after follows]
  rfl

theorem parseParamValue_bare {c : Byte} (before : Spaces) (other : isAsciiWhitespace c = false)
    (bare : c ≠ 34) (text : isUtf8 (c :: s) = true) :
    parseParamValue (before.1 ++ c :: s) =
      match findOneOf (c :: s) [59, 44] with
      | some (pos, _) => do
        let value ← sliceTo (c :: s) pos
        let remainder ← sliceFrom (c :: s) pos
        return (trim value, remainder)
      | none => return (trim (c :: s), []) := by
  unfold parseParamValue
  rw [findNonSpace_spaced before other]
  dsimp only
  rw [sliceFrom_append text, Outcome.returns_bind]
  split
  · rename_i nil
    cases nil
  · rename_i same
    cases same
    exact absurd rfl bare
  · rfl

theorem parseParamValue_plain (before : Spaces) (value : Plain) (after : Spaces)
    (follows : Follows rest) :
    parseParamValue (before.1 ++ (value.text ++ (after.1 ++ rest))) = .returns
      (value.text, rest) := by
  obtain ⟨text, utf8, trimmed, free, unquoted⟩ := value
  dsimp only
  cases text with
  | nil =>
    rw [List.nil_append]
    rcases follows.begins with rfl | ⟨c, b, rfl, mem⟩
    · have all : findNonSpace (before.1 ++ (after.1 ++ [])) = none := by
        rw [List.append_nil, findNonSpace, List.findIdx?_eq_none_iff]
        intro x mem
        rcases List.mem_append.mp mem with mem | mem
        · rw [before.2 x mem]
          rfl
        · rw [after.2 x mem]
          rfl
      rw [parseParamValue, all]
      rfl
    · have both : ∀ x ∈ ([59, 44] : List Byte), isAsciiWhitespace x = false ∧
        x ≠ 34 := by simp [isAsciiWhitespace]
      obtain ⟨other, bare⟩ := both c mem
      have joined : ∀ x ∈ before.1 ++ after.1, isAsciiWhitespace x = true := by
        intro x mem
        exact (List.mem_append.mp mem).elim (before.2 x) (after.2 x)
      have read := parseParamValue_bare ⟨before.1 ++ after.1, joined⟩ other bare follows.text
      have found : findOneOf (c :: b) [59, 44] = some (0, c) := if_pos mem
      have front : sliceTo (c :: b) 0 = .returns [] := sliceTo_append (a := []) follows.text
      have back : sliceFrom (c :: b) 0 = .returns (c :: b) :=
        sliceFrom_append (a := []) follows.text
      rw [← List.append_assoc, read, found]
      dsimp only
      rw [front, back]
      rfl
  | cons x t =>
    have other := trimmed_head trimmed
    have bare : x ≠ 34 := by
      rintro rfl
      exact unquoted rfl
    have whole : isUtf8 (x :: (t ++ (after.1 ++ rest))) = true := by
      rw [← List.cons_append, isUtf8_append utf8, spaces_utf8]
      exact follows.text
    have free_spaced : ∀ y ∈ x :: (t ++ after.1), y ∉ ([59, 44] : List Byte) := by
      intro y mem
      rw [← List.cons_append] at mem
      rcases List.mem_append.mp mem with mem | mem
      · exact free y mem
      · have none := space_free (after.2 y mem)
        simp only [List.mem_cons, not_or] at none ⊢
        exact ⟨none.2.1, none.2.2.1, List.not_mem_nil⟩
    have trims : trim (x :: (t ++ after.1)) = x :: t :=
      trim_spaced ⟨[], fun _ mem => absurd mem List.not_mem_nil⟩ after
        (List.cons_ne_nil x t) trimmed
    rw [List.cons_append, parseParamValue_bare before other bare whole]
    rcases follows.begins with rfl | ⟨c, b, rfl, mem⟩
    · rw [List.append_nil, findOneOf_none free_spaced]
      dsimp only
      rw [trims]
      rfl
    · have split : x :: (t ++ (after.1 ++ c :: b)) = (x :: (t ++ after.1)) ++ c :: b := by simp
      rw [split, findOneOf_free free_spaced mem]
      dsimp only
      rw [sliceTo_append follows.text, sliceFrom_append follows.text, Outcome.returns_bind,
        Outcome.returns_bind, trims]
      rfl

theorem name_free (before : Spaces) (name : Token) (after : Spaces) :
    ∀ c ∈ before.1 ++ (name.text ++ after.1), c ∉ ([61, 59, 44] : List Byte) := by
  have spaces : ∀ sp : Spaces, ∀ c ∈ sp.1, c ∉ ([61, 59, 44] : List Byte) := by
    intro sp c mem
    have none := space_free (sp.2 c mem)
    simp only [List.mem_cons, not_or] at none ⊢
    exact ⟨none.1, none.2.1, none.2.2.1, List.not_mem_nil⟩
  intro c mem
  rcases List.mem_append.mp mem with mem | mem
  · exact spaces before c mem
  · exact (List.mem_append.mp mem).elim (name.free c) (spaces after c)

theorem splitParam_print (p : Param) (follows : Follows rest) :
    splitParam (p.print ++ rest) = (do
      let (r, done) ← afterParam rest
      return (p.before.1 ++ (p.name.text ++ p.after.1), p.value.text, r, done)) := by
  obtain ⟨before, name, after, value⟩ := p
  have free := name_free before name after
  cases value with
  | absent =>
    have printed : Param.print ⟨before, name, after, .absent⟩ = before.1 ++
        (name.text ++ after.1) := by
      rw [Param.print, ParamValue.print, List.append_nil]
    rw [printed]
    rcases follows.begins with rfl | ⟨c, b, rfl, mem⟩
    · rw [splitParam, List.append_nil, findOneOf_none free]
      rfl
    · have rest : isUtf8 b = true := by
        rw [← follows.text, isUtf8_cons]
        have both : ∀ x ∈ ([59, 44] : List Byte), x ≤ 0x7f := by simp
        exact both c mem
      rw [splitParam, findOneOf_free free (List.mem_cons_of_mem _ mem)]
      dsimp only
      rw [sliceTo_append follows.text, Outcome.returns_bind]
      rcases List.mem_cons.mp mem with rfl | mem
      · have cut : sliceFrom (59 :: b) 1 = .returns b := sliceFrom_append (a := [59]) rest
        rw [if_neg (by decide), if_pos rfl, sliceFrom_after rest, afterParam, cut]
        rfl
      · obtain rfl := List.mem_singleton.mp mem
        rw [if_neg (by decide), if_neg (by decide), if_pos rfl, sliceFrom_append follows.text]
        rfl
  | plain before' v after' =>
    have printed : Param.print ⟨before, name, after, .plain before' v after'⟩ ++ rest =
        (before.1 ++ (name.text ++ after.1)) ++ 61 ::
          (before'.1 ++ (v.text ++ (after'.1 ++ rest))) := by
      simp [Param.print, ParamValue.print]
    have tail : isUtf8 (before'.1 ++ (v.text ++ (after'.1 ++ rest))) = true := by
      rw [spaces_utf8, isUtf8_append v.utf8, spaces_utf8]
      exact follows.text
    rw [printed, splitParam, findOneOf_free free List.mem_cons_self]
    dsimp only
    rw [sliceTo_append ((isUtf8_cons (by decide)).trans tail), Outcome.returns_bind, if_pos rfl,
      sliceFrom_after tail, Outcome.returns_bind, parseParamValue_plain before' v after' follows,
        Outcome.returns_bind]
    rfl
  | quoted before' v after' =>
    have printed : Param.print ⟨before, name, after, .quoted before' v after'⟩ ++ rest =
        (before.1 ++ (name.text ++ after.1)) ++ 61 ::
          (before'.1 ++ 34 :: (v.text ++ 34 :: (after'.1 ++ rest))) := by
      simp [Param.print, ParamValue.print]
    have tail : isUtf8 (before'.1 ++ 34 :: (v.text ++ 34 :: (after'.1 ++ rest))) = true := by
      rw [spaces_utf8, isUtf8_cons (by decide), isUtf8_append v.utf8, isUtf8_cons (by decide),
        spaces_utf8]
      exact follows.text
    rw [printed, splitParam, findOneOf_free free List.mem_cons_self]
    dsimp only
    rw [sliceTo_append ((isUtf8_cons (by decide)).trans tail), Outcome.returns_bind, if_pos rfl,
      sliceFrom_after tail, Outcome.returns_bind, parseParamValue_quoted before' v after' follows,
        Outcome.returns_bind]
    rfl

theorem nextParam_print (p : Param) (follows : Follows rest) {r : List Byte} {done : Bool}
    (after : afterParam rest = .returns (r, done)) :
    HeaderParamsIterator.next ⟨p.print ++ rest, false⟩ = .returns (⟨r, done⟩, some p.pair) := by
  rw [HeaderParamsIterator.next, if_neg Bool.false_ne_true]
  dsimp only
  rw [splitParam_print p follows, after, Outcome.returns_bind]
  dsimp only
  rw [Outcome.pure_eq, Outcome.returns_bind]
  dsimp only
  rw [trim_spaced p.before p.after p.name.filled p.name.trimmed, if_neg p.name.filled]
  rfl

structure Closes (rest : List Byte) : Prop where
  text : isUtf8 rest = true
  begins : rest = [] ∨ ∃ b, rest = 44 :: b

theorem Closes.follows (closes : Closes rest) : Follows rest := by
  refine ⟨closes.text, closes.begins.imp id ?_⟩
  rintro ⟨b, rfl⟩
  exact ⟨44, b, rfl, by decide⟩

theorem Closes.afterParam (closes : Closes rest) : afterParam rest = .returns (rest, true) := by
  rcases closes.begins with rfl | ⟨b, rfl⟩ <;> rfl

theorem iterate_params (p : Param) (ps : List Param) (closes : Closes rest) :
    iterate HeaderParamsIterator.next (ps.length + 2) ⟨p.print ++ (printParams ps ++ rest), false⟩ =
      some (⟨rest, true⟩, (p :: ps).map Param.pair, none) := by
  induction ps generalizing p with
  | nil =>
    rw [printParams, List.flatMap_nil, List.nil_append,
      iterate_item (nextParam_print p closes.follows closes.afterParam), iterate_end]
    · rfl
    · rfl
  | cons q qs ih =>
    have more : printParams (q :: qs) ++ rest = 59 :: (q.print ++ (printParams qs ++ rest)) := by
      rw [printParams, List.flatMap_cons, List.cons_append, List.cons_append, List.append_assoc]
      rfl
    have text : isUtf8 (q.print ++ (printParams qs ++ rest)) = true := by
      rw [paramPrint_utf8, paramsPrint_utf8]
      exact closes.text
    have follows : Follows (59 :: (q.print ++ (printParams qs ++ rest))) :=
      ⟨(isUtf8_cons (by decide)).trans text, Or.inr ⟨59, _, rfl, by decide⟩⟩
    have cut : sliceFrom (59 :: (q.print ++ (printParams qs ++ rest))) 1 =
        .returns (q.print ++ (printParams qs ++ rest)) := sliceFrom_append (a := [59]) text
    have after : PushpinHeaderValue.afterParam (59 :: (q.print ++ (printParams qs ++ rest))) =
        .returns (q.print ++ (printParams qs ++ rest), false) := by
      rw [PushpinHeaderValue.afterParam, cut]
      rfl
    rw [more, List.length_cons, iterate_item (nextParam_print p follows after), ih q]
    rfl

theorem iterate_printed (p : Param) (ps : List Param) (closes : Closes rest) {calls : Nat}
    (enough : (p.print ++ (printParams ps ++ rest)).length + 2 ≤ calls) :
    iterate HeaderParamsIterator.next calls (.new (p.print ++ (printParams ps ++ rest))) =
      some (⟨rest, true⟩, (p :: ps).map Param.pair, none) := by
  have text : isUtf8 (p.print ++ (printParams ps ++ rest)) = true := by
    rw [paramPrint_utf8, paramsPrint_utf8]
    exact closes.text
  have sound : (HeaderParamsIterator.new (p.print ++ (printParams ps ++ rest))).Sound _ :=
    ⟨text, Nat.le_refl _, fun last => by cases last⟩
  obtain ⟨last, items, e, ended, -⟩ := HeaderParamsIterator.iterate_spec sound enough
  rw [ended]
  exact congrArg some (iterate_same ended (iterate_params p ps closes))

def GoesOn (rest r : List Byte) (done : Bool) : Prop :=
  rest = [] ∧ r = [] ∧ done = true ∨ rest = 44 :: r ∧ done = false

theorem afterParams_print (p : Param) (ps : List Param) (closes : Closes rest) {r : List Byte}
    {done : Bool} (goes : GoesOn rest r done) :
    afterParams (p.print ++ (printParams ps ++ rest)) = .returns (r, done) := by
  rw [afterParams, iterate_printed p ps closes (Nat.le_refl _)]
  rcases goes with ⟨rfl, rfl, rfl⟩ | ⟨rfl, rfl⟩
  · rfl
  · have text : isUtf8 r = true := (isUtf8_cons (by decide)).symm.trans closes.text
    have cut : sliceFrom (44 :: r) 1 = .returns r := sliceFrom_append (a := [44]) text
    dsimp only
    rw [cut]
    rfl

section
variable (i : Item) (closes : Closes rest) {r : List Byte} {done : Bool} (goes : GoesOn rest r done)
include i closes goes

theorem splitValue_print :
    ∃ params, splitValue (i.print ++ rest) = .returns (i.before.1 ++ (i.name.text ++ i.after.1),
      params, r, done) ∧ Yields params (i.params.map Param.pair) := by
  obtain ⟨before, name, after, params⟩ := i
  have free : ∀ c ∈ before.1 ++ (name.text ++ after.1), c ∉ ([59, 44] : List Byte) := by
    intro c mem found
    exact name_free before name after c mem (List.mem_cons_of_mem _ found)
  cases params with
  | nil =>
    have printed : Item.print ⟨before, name, after, []⟩ = before.1 ++ (name.text ++ after.1) := by
      rw [Item.print, printParams, List.flatMap_nil, List.append_nil]
    refine ⟨.empty, ?_, empty_yields⟩
    rw [printed]
    rcases goes with ⟨rfl, rfl, rfl⟩ | ⟨rfl, rfl⟩
    · rw [splitValue, List.append_nil, findOneOf_none free]
      rfl
    · have text : isUtf8 r = true := (isUtf8_cons (by decide)).symm.trans closes.text
      rw [splitValue, findOneOf_free free (by decide)]
      dsimp only
      rw [sliceTo_append closes.text, Outcome.returns_bind, sliceFrom_after text,
        Outcome.returns_bind, if_neg (by decide), if_pos rfl]
      rfl
  | cons p ps =>
    have printed : Item.print ⟨before, name, after, p :: ps⟩ ++ rest =
        (before.1 ++ (name.text ++ after.1)) ++ 59 :: (p.print ++ (printParams ps ++ rest)) := by
      simp [Item.print, printParams]
    have text : isUtf8 (p.print ++ (printParams ps ++ rest)) = true := by
      rw [paramPrint_utf8, paramsPrint_utf8]
      exact closes.text
    refine ⟨.new (p.print ++ (printParams ps ++ rest)), ?_, ⟨rest, true⟩, fun calls enough => ?_⟩
    · rw [printed, splitValue, findOneOf_free free List.mem_cons_self]
      dsimp only
      rw [sliceTo_append ((isUtf8_cons (by decide)).trans text), Outcome.returns_bind,
        sliceFrom_after text, Outcome.returns_bind, if_pos rfl, afterParams_print p ps closes goes]
      rfl
    · exact iterate_printed p ps closes enough

theorem nextValue_print :
    ∃ params, HeaderValueIterator.next ⟨i.print ++ rest, false⟩ = .returns
      (⟨r, done⟩, some (i.name.text, params)) ∧ Yields params (i.params.map Param.pair) := by
  obtain ⟨params, split, yields⟩ := splitValue_print i closes goes
  refine ⟨params, ?_, yields⟩
  rw [HeaderValueIterator.next, if_neg Bool.false_ne_true]
  dsimp only
  rw [split, Outcome.returns_bind]
  dsimp only
  rw [trim_spaced i.before i.after i.name.filled i.name.trimmed, if_neg i.name.filled]
  rfl

end

def ReadsAs (i : Item) (got : List Byte × HeaderParamsIterator) : Prop :=
  got.1 = i.name.text ∧ Yields got.2 (i.params.map Param.pair)

theorem iterate_values (i : Item) (is : List Item) :
    ∃ got, iterate HeaderValueIterator.next (is.length + 2) ⟨printValues (i :: is), false⟩ =
        some (⟨[], true⟩, got, none) ∧ List.Forall₂ ReadsAs (i :: is) got := by
  induction is generalizing i with
  | nil =>
    obtain ⟨params, stepped, yields⟩ := nextValue_print i ⟨rfl, Or.inl rfl⟩ (Or.inl ⟨rfl, rfl, rfl⟩)
    rw [List.append_nil] at stepped
    refine ⟨[(i.name.text, params)], ?_, .cons ⟨rfl, yields⟩ .nil⟩
    rw [printValues, iterate_item stepped, iterate_end]
    · rfl
    · rfl
  | cons j js ih =>
    have text := valuesPrint_utf8 (j :: js)
    obtain ⟨params, stepped, yields⟩ := nextValue_print i
      ⟨(isUtf8_cons (by decide)).trans text, Or.inr ⟨_, rfl⟩⟩ (Or.inr ⟨rfl, rfl⟩)
    obtain ⟨got, later, read⟩ := ih j
    refine ⟨(i.name.text, params) :: got, ?_, .cons ⟨rfl, yields⟩ read⟩
    rw [printValues_cons, List.length_cons, iterate_item stepped, later]
    rfl

end Reading

/-- Whether a printed list is read back: the iterators come to their end without
    an error and yield this list. -/
def ReadsBack (is : List Item) : Prop :=
  ∃ last got, (∀ calls, (printValues is).length + 2 ≤ calls →
      iterate HeaderValueIterator.next calls (parseHeaderValue (printValues is)) = some (last, got,
        none)) ∧
    List.Forall₂ ReadsAs is got

/-- On every byte string the iteration is total, and the values it yields have
    parameters without an error. Every list of at least one value is read back
    from its printed form, whatever spaces are in it. -/
theorem header_values_total_and_faithful :
    (∀ b : List Byte, ∃ last items e, (∀ calls, b.length + 2 ≤ calls →
        iterate HeaderValueIterator.next calls (parseHeaderValue b) = some (last, items, e)) ∧
      ∀ item ∈ items, ∃ pairs, Yields item.2 pairs) ∧
    ∀ (first : Item) (rest : List Item), ReadsBack (first :: rest) := by
  refine ⟨parse_total, fun first rest => ?_⟩
  obtain ⟨last, items, e, ended, -⟩ := parse_total (printValues (first :: rest))
  obtain ⟨got, all, read⟩ := iterate_values first rest
  have start : parseHeaderValue (printValues (first :: rest)) =
      ⟨printValues (first :: rest), false⟩ :=
    if_pos (valuesPrint_utf8 (first :: rest))
  refine ⟨⟨[], true⟩, got, fun calls enough => ?_, read⟩
  rw [ended calls enough]
  rw [← start] at all
  exact congrArg some (iterate_same (ended calls enough) all)

theorem empty_list_not_read_back : ¬ ∀ is : List Item, ReadsBack is := by
  intro all
  obtain ⟨last, got, ended, -⟩ := all []
  have fails : iterate HeaderValueIterator.next 2 (parseHeaderValue (printValues [])) =
      some (⟨[], false⟩, [], some ()) := by decide
  rw [ended 2 (Nat.le_refl _)] at fails
  cases fails

end PushpinHeaderValue
