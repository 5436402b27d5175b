import Pushpin.Core.HttpHeaders

/-!
Lines of the routes file. Texts are in UTF-8, whose bytes above 127 are never one of the
characters that the parser looks for. The position is what is left of the line.
-/
namespace PushpinRoutesFile
open PushpinVariant (Bytes)
open PushpinHttpHeaders (ascii)

/-- The props in the order in which they were inserted. -/
structure RouteSection where
  value : Bytes
  props : List (Bytes × Bytes) := []
deriving DecidableEq, Repr

inductive Token where
  | error (value : Bytes)
  | initialValue (value : Bytes)
  | prop (name value : Bytes)
  | endOfLine
deriving DecidableEq, Repr

inductive State where
  | readSeparator
  | readInitialValue
  | readProp
deriving DecidableEq, Repr

def quote : UInt8 := 34
def comma : UInt8 := 44
def space : UInt8 := 32
def hash : UInt8 := 35
def equals : UInt8 := 61
def backslash : UInt8 := 92

def ends (c : UInt8) : Bool := c = comma || c = space || c = hash

def readPart (quoted : Bool) (part : Bytes) : Bytes → Except Bytes (Bytes × Bytes)
  | [] => if quoted then .error (ascii "unterminated quoted section") else .ok (part, [])
  | c :: rest =>
    if quoted then
      if c = backslash then
        match rest with
        | [] => .error (ascii "unterminated escape sequence")
        | d :: rest =>
          if d = backslash ∨ d = quote then readPart true (part ++ [d]) rest
          else .error (ascii "unexpected escape character: " ++ [d])
      else if c = quote then readPart false part rest
      else readPart true (part ++ [c]) rest
    else if c = quote then readPart true part rest
    else if ends c then .ok (part, c :: rest)
    else readPart false (part ++ [c]) rest

structure LineParser where
  state : State := .readSeparator
  rest : Bytes
deriving DecidableEq, Repr

def splitProp (part : Bytes) : Bytes × Bytes :=
  if equals ∈ part then (part.takeWhile (· ≠ equals), (part.dropWhile (· ≠ equals)).drop 1)
    else (part, [])

def afterPart (rest : Bytes) : LineParser :=
  match rest with
  | c :: rest => if c = comma then ⟨.readProp, rest⟩ else ⟨.readSeparator, c :: rest⟩
  | [] => ⟨.readSeparator, []⟩

namespace LineParser

def readToken (state : State) (start rest : Bytes) : Token × LineParser :=
  match readPart false [] rest with
  | .error message => (.error message, ⟨state, rest⟩)
  | .ok (part, after) =>
    if state = .readInitialValue then
      -- the empty initial value is returned, and the part is read again as a prop
      if equals ∈ part then (.initialValue [], ⟨.readProp, start⟩)
      else (.initialValue part, afterPart after)
    else if part = [] then (.error (ascii "expecting prop"), ⟨state, rest⟩)
    else
      let (name, value) := splitProp part
      if name = [] then (.error (ascii "empty prop name"), ⟨state, rest⟩)
      else (.prop name value, afterPart after)

def nextToken (p : LineParser) : Token × LineParser :=
  match p.state with
  | .readSeparator =>
    match p.rest.dropWhile (· = space) with
    | [] => (.endOfLine, ⟨.readSeparator, []⟩)
    | c :: rest =>
      if c = hash then (.endOfLine, ⟨.readSeparator, c :: rest⟩)
      else readToken .readInitialValue p.rest (c :: rest)
  | state => readToken state p.rest p.rest

end LineParser

inductive Parsed where
  | ok (sections : List RouteSection)
  | error (message : Bytes)
  | asserts
deriving DecidableEq, Repr

def addProp (name value : Bytes) : List RouteSection → Option (List RouteSection)
  | [] => none
  | [s] => some [{ s with props := s.props ++ [(name, value)] }]
  | s :: rest => (addProp name value rest).map (s :: ·)

def parseFrom : Nat → LineParser → List RouteSection → Option Parsed
  | 0, _, _ => none
  | tokens + 1, p, out =>
    match p.nextToken with
    | (.error message, _) => some (.error message)
    | (.initialValue value, p) => parseFrom tokens p (out ++ [⟨value, []⟩])
    | (.prop name value, p) =>
      match addProp name value out with
      | none => some .asserts
      | some out => parseFrom tokens p out
    | (.endOfLine, _) => some (.ok out)

/-- Twice the length of the line and two are enough tokens. -/
def parseLine (line : Bytes) : Option Parsed :=
  parseFrom (2 * line.length + 2) ⟨.readSeparator, line⟩ []

theorem readPart_plain (part : Bytes) (c : UInt8) (rest : Bytes) : readPart false part (c :: rest) =
    if c = quote then readPart true part rest
    else if ends c then .ok (part, c :: rest)
    else readPart false (part ++ [c]) rest := by
  cases rest <;> rfl

theorem readPart_length {quoted : Bool} {part input result rest : Bytes}
    (read : readPart quoted part input = .ok (result, rest)) :
    rest.length ≤ input.length ∧ result.length + rest.length ≤ part.length + input.length := by
  fun_induction readPart quoted part input with
  | case1 | case3 | case5 => cases read
  | case2 | case9 =>
    cases read
    exact ⟨le_rfl, le_rfl⟩
  | _ =>
    rename_i ih
    have shorter := ih read
    simp only [List.length_append, List.length_cons, List.length_nil] at shorter ⊢
    omega

def remaining (p : LineParser) : Nat := 2 * p.rest.length + if p.state = .readProp then 0 else 1

theorem remaining_afterPart (rest : Bytes) : remaining (afterPart rest) ≤ 2 * rest.length + 1 ∧
    (afterPart rest).state ≠ .readInitialValue := by
  cases rest with
  | nil => exact ⟨le_rfl, State.noConfusion⟩
  | cons c rest =>
    rw [afterPart]
    split
    · refine ⟨?_, State.noConfusion⟩
      simp only [remaining, if_true, List.length_cons]
      omega
    · exact ⟨le_rfl, State.noConfusion⟩

theorem readPart_here {c : UInt8} {input result rest : Bytes}
    (read : readPart false [] (c :: input) = .ok (result, rest)) :
    rest.length ≤ input.length ∨ (ends c = true ∧ result = [] ∧ rest = c :: input) := by
  rw [readPart_plain] at read
  split at read
  · exact Or.inl (readPart_length read).1
  · split at read
    · rename_i isEnd
      cases read
      exact Or.inr ⟨isEnd, rfl, rfl⟩
    · exact Or.inl (readPart_length read).1

inductive Progress (p : LineParser) : Token × LineParser → Prop where
  | error (message : Bytes) (p' : LineParser) : Progress p (.error message, p')
  | endOfLine (p' : LineParser) : Progress p (.endOfLine, p')
  | initialValue (value : Bytes) {p' : LineParser} (less : remaining p' < remaining p)
      (outside : p'.state ≠ .readInitialValue) : Progress p (.initialValue value, p')
  | prop (name value : Bytes) {p' : LineParser} (less : remaining p' < remaining p)
      (outside : p'.state ≠ .readInitialValue) (inside : p.state = .readProp) :
        Progress p (.prop name value, p')

theorem nextToken_progress (p : LineParser) (outside : p.state ≠ .readInitialValue) :
    Progress p p.nextToken := by
  obtain ⟨state, rest⟩ := p
  cases state with
  | readInitialValue => exact absurd rfl outside
  | readSeparator =>
    rw [LineParser.nextToken]
    dsimp only
    cases skipped : rest.dropWhile (· = space) with
    | nil => exact .endOfLine _
    | cons c later =>
      have shorter : (c :: later).length ≤ rest.length := by
        rw [← skipped]
        exact (List.dropWhile_suffix _).length_le
      have noSpace : c ≠ space := by
        have first := List.head?_dropWhile_not (fun b : UInt8 => decide (b = space)) rest
        rw [skipped] at first
        simpa using first
      have whole : remaining ⟨.readSeparator, rest⟩ = 2 * rest.length + 1 := rfl
      rw [List.length_cons] at shorter
      dsimp only
      split
      · exact .endOfLine _
      · rename_i noHash
        rw [LineParser.readToken]
        split
        · exact .error _ _
        · rename_i part after read
          rw [if_pos rfl]
          have counted := remaining_afterPart after
          split
          · exact .initialValue [] (by simp [remaining]) State.noConfusion
          · refine .initialValue part ?_ counted.2
            rcases readPart_here read with less | ⟨isEnd, -, rfl⟩
            · omega
            · have isComma : c = comma := by simpa [ends, noSpace, noHash] using isEnd
              have jumped : remaining (afterPart (c :: later)) = 2 * later.length := by
                rw [afterPart, if_pos isComma]
                rfl
              omega
  | readProp =>
    rw [LineParser.nextToken]
    dsimp only
    rw [LineParser.readToken]
    split
    · exact .error _ _
    · rename_i part after read
      rw [if_neg State.noConfusion]
      have counted := remaining_afterPart after
      split
      · exact .error _ _
      · rename_i some_
        dsimp only
        split
        · exact .error _ _
        · refine .prop _ _ ?_ counted.2 rfl
          have less := (readPart_length read).2
          have long := List.length_pos_of_ne_nil some_
          have whole : remaining ⟨.readProp, rest⟩ = 2 * rest.length := rfl
          rw [List.length_nil] at less
          omega

theorem addProp_last (name value : Bytes) (front : List RouteSection) (s : RouteSection) :
    addProp name value (front ++ [s]) =
      some (front ++ [{ s with props := s.props ++ [(name, value)] }]) := by
  induction front with
  | nil => rfl
  | cons t front ih =>
    have more : t :: front ++ [s] = t :: (front ++ [s]) := rfl
    rw [more, addProp, ih]
    · rfl
    · simp

theorem addProp_some {name value : Bytes} {out : List RouteSection} (some_ : out ≠ []) :
    ∃ last, addProp name value out = some last ∧ last ≠ [] := by
  obtain ⟨front, s, rfl⟩ := (List.eq_nil_or_concat' out).resolve_left some_
  exact ⟨_, addProp_last name value front s, by simp⟩

theorem parseFrom_ends (tokens : Nat) {p : LineParser} {out : List RouteSection}
    (outside : p.state ≠ .readInitialValue) (section_ : p.state = .readProp → out ≠ [])
    (enough : remaining p < tokens) :
    ∃ result, parseFrom tokens p out = some result ∧ result ≠ .asserts := by
  induction tokens generalizing p out with
  | zero => omega
  | succ tokens ih =>
    have progress := nextToken_progress p outside
    rw [parseFrom]
    cases token : p.nextToken with
    | mk t p' =>
      rw [token] at progress
      cases progress with
      | error message => exact ⟨_, rfl, Parsed.noConfusion⟩
      | endOfLine => exact ⟨_, rfl, Parsed.noConfusion⟩
      | initialValue value less outside' => exact ih outside' (fun _ => by simp) (by omega)
      | prop name value less outside' inside =>
        obtain ⟨last, added, some_⟩ := @addProp_some name value _ (section_ inside)
        dsimp only
        rw [added]
        exact ih outside' (fun _ => some_) (by omega)

theorem parseLine_ends (line : Bytes) : ∃ result, parseLine line = some result ∧
    result ≠ .asserts :=
  parseFrom_ends _ State.noConfusion State.noConfusion (by simp [remaining])

end PushpinRoutesFile
