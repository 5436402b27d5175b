import Mathlib.Algebra.Order.Ring.Int
import Pushpin.Proxy.WebSocketOverHttp

namespace PushpinWebSocketOverHttp
open PushpinVariant (Bytes)
open PushpinHttpHeaders (ascii)

def INT_MAX : Int := 2 ^ 31 - 1

@[grind =]
def nextLine : Bytes → Option (Bytes × Bytes)
  | [] => none
  | [_] => none
  | b :: c :: rest =>
    if b = 13 ∧ c = 10 then some ([], rest)
    else (nextLine (c :: rest)).map fun (line, after) => (b :: line, after)

/-- `indexOf("\r\n", from)`: a negative position counts from the end. -/
def indexOfCrlf (input : Bytes) (start : Int) : Option Int :=
  let start := if start < 0 then max (start + input.length) 0 else start
  (nextLine (input.drop start.toNat)).map fun (line, _) => start + line.length

/-- `mid` of a byte array: a negative length is all that is left. -/
def mid (input : Bytes) (pos len : Int) : Bytes :=
  if input.length < pos then []
  else if pos < 0 then
    if len < 0 ∨ input.length ≤ len + pos then input
    else if len + pos ≤ 0 then []
    else input.take (len + pos).toNat
  else if len < 0 ∨ input.length - pos < len then input.drop pos.toNat
  else (input.drop pos.toNat).take len.toNat

def splitLine (line : Bytes) : Option (Bytes × Bytes) :=
  if 32 ∈ line then some (line.takeWhile (· ≠ 32), (line.dropWhile (· ≠ 32)).drop 1) else none

inductive Step where
  | ended
  | fails
  | overflows
  | event (e : Event) (afterLine next : Int)
deriving DecidableEq, Repr

section
-- the number that a text is in base 16
variable (toInt : Bytes → Option Int)

def step (input : Bytes) (start : Int) : Step :=
  if start < input.length then
    match indexOfCrlf input start with
    | none => .fails
    | some at_ =>
      let typeLine := mid input start (at_ - start)
      let start := at_ + 2
      if INT_MAX < start then .overflows
      else
        match splitLine typeLine with
        | some (type, length) =>
          match toInt length with
          | none => .fails
          | some clen =>
            if INT_MAX < clen + 2 ∨ INT_MAX < start + (clen + 2) then .overflows
            else .event ⟨type, some (mid input start clen)⟩ start (start + (clen + 2))
        | none => .event ⟨typeLine, none⟩ start start
  else .ended

inductive Decoded where
  | ok (events : List Event)
  | failed
  | overflowed
deriving DecidableEq, Repr

@[grind =]
def decodeFrom : Nat → Bytes → Int → List Event → Option Decoded
  | 0, _, _, _ => none
  | fuel + 1, input, start, out =>
    match step toInt input start with
    | .ended => some (.ok out)
    | .fails => some .failed
    | .overflows => some .overflowed
    | .event e _ next => decodeFrom fuel input next (out ++ [e])

def decodeEvents (fuel : Nat) (input : Bytes) : Option Decoded := decodeFrom toInt fuel input 0 []

inductive Visits (input : Bytes) : Int → Prop where
  | start : Visits input 0
  | next {start afterLine next : Int} {e : Event} (visited : Visits input start)
      (read : step toInt input start = .event e afterLine next) : Visits input next

end
variable {input line after : Bytes}

theorem nextLine_some (found : nextLine input = some (line, after)) :
    input = line ++ 13 :: 10 :: after ∧ nextLine line = none := by
  induction input generalizing line after with
  | nil => cases found
  | cons b input ih =>
    cases input with
    | nil => cases found
    | cons c rest =>
      rw [nextLine] at found
      split at found
      · rename_i isEnd
        cases found
        exact ⟨by rw [isEnd.1, isEnd.2]; rfl, rfl⟩
      · rename_i notEnd
        obtain ⟨⟨tail, after'⟩, inner, same⟩ := Option.map_eq_some_iff.mp found
        cases same
        obtain ⟨split, oneLine⟩ := ih inner
        refine ⟨by rw [split]; rfl, ?_⟩
        cases tail with
        | nil => rfl
        | cons d tail =>
          have next : c = d := (List.cons.inj split).1
          subst next
          rw [nextLine, if_neg notEnd, oneLine]
          rfl

theorem nextLine_append (oneLine : nextLine line = none) (after : Bytes) :
    nextLine (line ++ 13 :: 10 :: after) = some (line, after) := by
  induction line with
  | nil => rfl
  | cons b line ih =>
    cases line with
    | nil =>
      change nextLine (b :: 13 :: 10 :: after) = _
      rw [nextLine, if_neg (fun both => absurd both.2 (by decide)), nextLine, if_pos ⟨rfl, rfl⟩]
      rfl
    | cons c line =>
      rw [nextLine] at oneLine
      split at oneLine
      · cases oneLine
      · rename_i notEnd
        rw [Option.map_eq_none_iff] at oneLine
        change nextLine (b :: c :: (line ++ 13 :: 10 :: after)) = _
        rw [nextLine, if_neg notEnd]
        have inner := ih oneLine
        rw [List.cons_append] at inner
        rw [inner]
        rfl

theorem nextLine_none (noReturn : 13 ∉ line) : nextLine line = none := by
  induction line with
  | nil => rfl
  | cons b line ih =>
    cases line with
    | nil => rfl
    | cons c rest =>
      have other : b ≠ 13 := fun same => noReturn (by simp [same])
      rw [nextLine, if_neg (fun both => other both.1),
        ih (fun member => noReturn (List.mem_cons_of_mem b member))]
      rfl

theorem splitLine_append {type : Bytes} (noSpace : 32 ∉ type) (length : Bytes) :
    splitLine (type ++ 32 :: length) = some (type, length) := by
  have other : ∀ b ∈ type, decide (b ≠ 32) = true := fun b member =>
    decide_eq_true fun same => noSpace (same ▸ member)
  rw [splitLine, if_pos (by simp), List.takeWhile_append_of_pos other,
    List.dropWhile_append_of_pos other]
  simp

theorem splitLine_some {type length : Bytes} (split : splitLine line = some (type, length)) :
    line = type ++ 32 :: length ∧ 32 ∉ type := by
  by_cases member : 32 ∈ line
  · obtain ⟨front, rest, rfl, noSpace⟩ := List.eq_append_cons_of_mem member
    rw [splitLine_append noSpace rest] at split
    cases split
    exact ⟨rfl, noSpace⟩
  · rw [splitLine, if_neg member] at split
    cases split

theorem splitLine_none : splitLine line = none ↔ 32 ∉ line := by
  rw [splitLine]
  split
  · rename_i member
    exact iff_of_false (by simp) (fun none_ => none_ member)
  · rename_i noMember
    exact iff_of_true rfl noMember

variable {p : Nat}

section
variable (split : input.drop p = line ++ 13 :: 10 :: after)
include split

theorem length_of_drop : p + line.length + 2 + after.length = input.length := by
  have lengths := congrArg List.length split
  simp only [List.length_drop, List.length_append, List.length_cons] at lengths
  omega

theorem drop_after : input.drop (p + line.length + 2) = after := by
  rw [Nat.add_assoc, ← List.drop_drop, split, ← List.drop_drop, List.drop_left]
  rfl

theorem mid_line : mid input p line.length = line := by
  have lengths := length_of_drop split
  rw [mid, if_neg (by omega), if_neg (by omega), if_neg (by omega), Int.toNat_natCast,
    Int.toNat_natCast, split, List.take_left]

end

theorem mid_content {content rest : Bytes} (split : input.drop p = content ++ rest)
    (inside : p ≤ input.length) : mid input p content.length = content := by
  have lengths := congrArg List.length split
  simp only [List.length_drop, List.length_append] at lengths
  rw [mid, if_neg (by omega), if_neg (by omega), if_neg (by omega), Int.toNat_natCast,
    Int.toNat_natCast, split, List.take_left]

section
variable (toInt : Bytes → Option Int) {input : Bytes} {p : Nat}

theorem step_ended (past : input.length ≤ p) : step toInt input p = .ended := by
  rw [step, if_neg (by omega)]

theorem indexOfCrlf_eq (input : Bytes) (p : Nat) :
    indexOfCrlf input p = (nextLine (input.drop p)).map fun (line, _) =>
      (p : Int) + line.length := by
  rw [indexOfCrlf, if_neg (by omega), Int.toNat_natCast]

theorem step_fails (inside : p < input.length) (unended : nextLine (input.drop p) = none) :
    step toInt input p = .fails := by
  rw [step, if_pos (by omega), indexOfCrlf_eq, unended]
  rfl

theorem step_line (small : input.length ≤ INT_MAX) {line after : Bytes}
    (found : nextLine (input.drop p) = some (line, after)) :
    step toInt input p =
      match splitLine line with
      | some (type, length) =>
        match toInt length with
        | none => .fails
        | some clen =>
          if INT_MAX < clen + 2 ∨ INT_MAX < ((p + line.length + 2 : Nat) : Int) + (clen + 2)
            then .overflows
          else .event ⟨type, some (mid input (p + line.length + 2 : Nat) clen)⟩
            (p + line.length + 2 : Nat) ((p + line.length + 2 : Nat) + (clen + 2))
      | none => .event ⟨line, none⟩ (p + line.length + 2 : Nat) (p + line.length + 2 : Nat) := by
  obtain ⟨split, -⟩ := nextLine_some found
  have lengths := length_of_drop split
  have position : (p : Int) + line.length + 2 = (p + line.length + 2 : Nat) := by omega
  have span : (p : Int) + line.length - p = line.length := by omega
  rw [step, if_pos (by omega), indexOfCrlf_eq, found]
  dsimp only [Option.map_some]
  rw [span, mid_line split, position, if_neg (by omega)]

end

def hexDigit (b : UInt8) : Option Nat :=
  if 48 ≤ b ∧ b ≤ 57 then some (b.toNat - 48)
  else if 97 ≤ b ∧ b ≤ 102 then some (b.toNat - 87)
  else if 65 ≤ b ∧ b ≤ 70 then some (b.toNat - 55)
  else none

def hexNumber (n : Nat) : Bytes → Nat × Bytes
  | [] => (n, [])
  | b :: rest =>
    match hexDigit b with
    | some d => hexNumber (n * 16 + d) rest
    | none => (n, b :: rest)

def hexValue (text : Bytes) : Option Int :=
  let (n, rest) := hexNumber 0 text
  if text ≠ [] ∧ rest = [] then some (n : Int) else none

/-- A concatenation of events. In the grammar a length is written in hex digits, with
    `hexValue`; the loop reads lengths with its `toInt`. -/
inductive Events (lengthOf : Bytes → Option Int) : Bytes → List Event → Prop where
  | nil : Events lengthOf [] []
  | plain {line rest : Bytes} {events : List Event} (oneLine : nextLine line = none)
      (noSpace : 32 ∉ line)
      (more : Events lengthOf rest events) :
        Events lengthOf (line ++ 13 :: 10 :: rest) (⟨line, none⟩ :: events)
  | sized {type length content rest : Bytes} {events : List Event}
      (oneLine : nextLine (type ++ 32 :: length) = none)
      (noSpace : 32 ∉ type) (number : lengthOf length = some (content.length : Int))
      (more : Events lengthOf rest events) :
      Events lengthOf ((type ++ 32 :: length) ++ 13 :: 10 :: (content ++ 13 :: 10 :: rest))
        (⟨type, some content⟩ :: events)

section
variable (toInt : Bytes → Option Int)

/-- A line without an end, or a length that is no number, is met where the lengths
    before it lead to. -/
inductive Broken : Bytes → Prop where
  | unended {input : Bytes} (some_ : input ≠ []) (endless : nextLine input = none) : Broken input
  | unreadable {type length rest : Bytes} (oneLine : nextLine (type ++ 32 :: length) = none)
      (noSpace : 32 ∉ type)
      (noNumber : toInt length = none) : Broken ((type ++ 32 :: length) ++ 13 :: 10 :: rest)
  | plain {line rest : Bytes} (oneLine : nextLine line = none) (noSpace : 32 ∉ line)
      (later : Broken rest) : Broken (line ++ 13 :: 10 :: rest)
  | sized {type length rest : Bytes} {clen : Int} (oneLine : nextLine (type ++ 32 :: length) = none)
      (noSpace : 32 ∉ type) (number : toInt length = some clen) (forward : -2 ≤ clen)
      (later : Broken (rest.drop (clen + 2).toNat)) :
        Broken ((type ++ 32 :: length) ++ 13 :: 10 :: rest)

variable {toInt} {input : Bytes} (small : input.length ≤ INT_MAX)
include small

theorem step_events {p : Nat} {events : List Event} (rest : Events toInt (input.drop p) events) :
    (events = [] ∧ step toInt input p = .ended) ∨
    ∃ e later, ∃ afterLine next : Nat, events = e :: later ∧
      step toInt input p = .event e afterLine next ∧
      p ≤ afterLine ∧ afterLine ≤ next ∧ next ≤ input.length ∧ p < next ∧
        Events toInt (input.drop next) later := by
  generalize split : input.drop p = x at rest
  cases rest with
  | nil =>
    have past := congrArg List.length split
    rw [List.length_drop, List.length_nil] at past
    exact Or.inl ⟨rfl, step_ended toInt (by omega)⟩
  | @plain line after later oneLine noSpace more =>
    have lengths := length_of_drop split
    have found : nextLine (input.drop p) = some (line, after) := by
      rw [split, nextLine_append oneLine]
    refine Or.inr ⟨_, _, p + line.length + 2, p + line.length + 2, rfl,
      ?_, by omega, by omega, by omega, by omega, ?_⟩
    · rw [step_line toInt small found, splitLine_none.mpr noSpace]
    · rwa [drop_after split]
  | @sized type length content after later oneLine noSpace number more =>
    have lengths := length_of_drop split
    have found := nextLine_append oneLine (content ++ 13 :: 10 :: after)
    rw [← split] at found
    have afterLine := drop_after split
    have longer : (content ++ 13 :: 10 :: after).length = content.length + (after.length + 2) := by
      simp
    have whole := mid_content afterLine (by omega)
    refine Or.inr ⟨_, _, p + (type ++ 32 :: length).length + 2, p + (type ++ 32 :: length).length +
      2 + (content.length + 2), rfl, ?_, by omega, by omega, by omega, by omega, ?_⟩
    · rw [step_line toInt small found, splitLine_append noSpace]
      dsimp only
      rw [number]
      dsimp only
      rw [if_neg (by omega), whole]
      rfl
    · rw [← List.drop_drop, afterLine, ← List.drop_drop, List.drop_left]
      exact more

theorem decodeFrom_events {events : List Event} (fuel : Nat) {p : Nat}
    (rest : Events toInt (input.drop p) events) (inside : p ≤ input.length)
    (enough : input.length < p + fuel) (out : List Event) :
    decodeFrom toInt fuel input p out = some (.ok (out ++ events)) := by
  induction fuel generalizing p events out with
  | zero => omega
  | succ fuel ih =>
    rcases step_events small rest with
      ⟨rfl, ended⟩ | ⟨e, later, afterLine, next, rfl, read, _, _, nextInside, further, more⟩
    · rw [decodeFrom, ended, List.append_nil]
    · rw [decodeFrom, read]
      dsimp only
      rw [ih more nextInside (by omega), List.append_assoc]
      rfl

theorem step_broken {p : Nat} (rest : Broken toInt (input.drop p)) :
    step toInt input p = .fails ∨
    ∃ e, ∃ afterLine next : Nat, step toInt input p = .event e afterLine next ∧ p ≤ afterLine ∧
      afterLine ≤ next ∧ p < next ∧ next ≤ input.length ∧ Broken toInt (input.drop next) := by
  have inside : p < input.length := by
    by_contra past
    rw [List.drop_eq_nil_of_le (by omega)] at rest
    generalize empty : ([] : Bytes) = x at rest
    cases rest with
    | unended some_ _ => exact some_ empty.symm
    | _ => simp at empty
  generalize split : input.drop p = x at rest
  cases rest with
  | unended some_ endless =>
    rw [← split] at endless
    exact Or.inl (step_fails toInt inside endless)
  | @unreadable type length after oneLine noSpace noNumber =>
    have found := nextLine_append oneLine after
    rw [← split] at found
    left
    rw [step_line toInt small found, splitLine_append noSpace]
    dsimp only
    rw [noNumber]
  | @plain line after oneLine noSpace later =>
    have lengths := length_of_drop split
    have found := nextLine_append oneLine after
    rw [← split] at found
    refine Or.inr ⟨⟨line, none⟩, p + line.length + 2, p + line.length + 2,
      ?_, by omega, by omega, by omega, by omega, ?_⟩
    · rw [step_line toInt small found, splitLine_none.mpr noSpace]
    · rwa [drop_after split]
  | @sized type length after clen oneLine noSpace number forward later =>
    have lengths := length_of_drop split
    have found := nextLine_append oneLine after
    rw [← split] at found
    have within : (clen + 2).toNat < after.length := by
      by_contra past
      rw [List.drop_eq_nil_of_le (by omega)] at later
      generalize empty : ([] : Bytes) = x at later
      cases later with
      | unended some_ _ => exact some_ empty.symm
      | _ => simp at empty
    have whole : ((clen + 2).toNat : Int) = clen + 2 := by omega
    refine Or.inr ⟨⟨type, some (mid input (p + (type ++ 32 :: length).length + 2 : Nat) clen)⟩,
      p + (type ++ 32 :: length).length + 2, p + (type ++ 32 :: length).length + 2 +
        (clen + 2).toNat,
      ?_, by omega, by omega, by omega, by omega, ?_⟩
    · rw [step_line toInt small found, splitLine_append noSpace]
      dsimp only
      rw [number]
      dsimp only
      rw [if_neg (by omega), Nat.cast_add (p + (type ++ 32 :: length).length + 2), whole]
    · rwa [← List.drop_drop, drop_after split]

theorem decodeFrom_broken (fuel : Nat) {p : Nat} (rest : Broken toInt (input.drop p))
    (enough : input.length < p + fuel) (out : List Event) :
    decodeFrom toInt fuel input p out = some .failed := by
  induction fuel generalizing p out with
  | zero =>
    rcases step_broken small rest with fails | ⟨e, afterLine, next, read, _, _, further, inside, _⟩
    · rw [step_ended toInt (by omega)] at fails
      cases fails
    · omega
  | succ fuel ih =>
    rcases step_broken small rest with fails | ⟨e, afterLine, next, read, _, _, further, inside,
      later⟩
    · rw [decodeFrom, fails]
    · rw [decodeFrom, read]
      exact ih later (by omega) _

theorem not_both {events : List Event} (read : Events toInt input events)
    (broken : Broken toInt input) : False := by
  have ends :=
    @decodeFrom_events toInt input small events (input.length + 1) 0 read (by omega) (by omega) []
  have fails := @decodeFrom_broken toInt input small (input.length + 1) 0 broken (by omega) []
  rw [ends] at fails
  cases fails

theorem broken_of_failed (forward : ∀ p e afterLine next, Visits toInt input p →
      step toInt input p = .event e afterLine next → p ≤ afterLine ∧ afterLine ≤ next)
    {fuel p : Nat} (visited : Visits toInt input p) {out : List Event}
    (failed : decodeFrom toInt fuel input p out = some .failed) : Broken toInt (input.drop p) := by
  induction fuel generalizing p out with
  | zero => cases failed
  | succ fuel ih =>
    rw [decodeFrom] at failed
    by_cases inside : p < input.length
    · cases found : nextLine (input.drop p) with
      | none => exact .unended (by simpa using inside) found
      | some both =>
        obtain ⟨line, after⟩ := both
        obtain ⟨split, oneLine⟩ := nextLine_some found
        have afterLine := drop_after split
        have read := step_line toInt small found
        cases parts : splitLine line with
        | none =>
          rw [parts] at read
          rw [read] at failed
          have later := ih (visited.next read) failed
          rw [afterLine] at later
          rw [split]
          exact .plain oneLine (splitLine_none.mp parts) later
        | some two =>
          obtain ⟨type, length⟩ := two
          obtain ⟨rfl, noSpace⟩ := splitLine_some parts
          rw [parts] at read
          dsimp only at read
          rw [split]
          cases number : toInt length with
          | none => exact .unreadable oneLine noSpace number
          | some clen =>
            rw [number] at read
            dsimp only at read
            split_ifs at read with tooFar
            · rw [read] at failed
              cases failed
            · have onward := (forward _ _ _ _ visited read).2
              have whole : ((p + (type ++ 32 :: length).length + 2 : Nat) : Int) + (clen + 2) =
                  (p + (type ++ 32 :: length).length + 2 + (clen + 2).toNat : Nat) := by omega
              rw [whole] at read
              rw [read] at failed
              have later := ih (visited.next read) failed
              rw [← List.drop_drop, afterLine] at later
              exact .sized oneLine noSpace number (by omega) later
    · rw [step_ended toInt (by omega)] at failed
      cases failed

end

theorem Events.ends {lengthOf : Bytes → Option Int} {events : List Event}
    (read : Events lengthOf input events) : input = [] ∨ ∃ before, input = before ++ crlf := by
  induction read with
  | nil => exact Or.inl rfl
  | @plain line rest _ _ _ _ ih =>
    right
    rcases ih with rfl | ⟨before, rfl⟩
    · exact ⟨line, rfl⟩
    · exact ⟨line ++ 13 :: 10 :: before, by simp⟩
  | @sized type length content rest _ _ _ _ _ ih =>
    right
    rcases ih with rfl | ⟨before, rfl⟩
    · exact ⟨(type ++ 32 :: length) ++ 13 :: 10 :: content, by simp [crlf]⟩
    · exact ⟨(type ++ 32 :: length) ++ 13 :: 10 :: (content ++ 13 :: 10 :: before), by simp⟩

theorem Events.reread {lengthOf toInt : Bytes → Option Int} {events : List Event}
    (reads : ∀ text n, lengthOf text = some n → n ≤ INT_MAX → toInt text = some n)
    (small : input.length ≤ INT_MAX) (read : Events lengthOf input events) :
    Events toInt input events := by
  induction read with
  | nil => exact .nil
  | plain oneLine noSpace _ ih =>
    simp only [List.length_append, List.length_cons] at small
    exact .plain oneLine noSpace (ih (by omega))
  | sized oneLine noSpace number _ ih =>
    simp only [List.length_append, List.length_cons] at small
    exact .sized oneLine noSpace (reads _ _ number (by omega)) (ih (by omega))

/-- A number as `toInt` reads it in base 16: with spaces around it, a sign, `0x` before
    the digits, and in the range of `int`. -/
def hexToInt (text : Bytes) : Option Int :=
  let text := text.dropWhile PushpinHttpHeaders.isSpace
  let sign : Int := if text.head? = some 45 then -1 else 1
  let text := if text.head? = some 45 ∨ text.head? = some 43 then text.drop 1 else text
  let text := if (text.take 2 = ascii "0x" ∨ text.take 2 = ascii "0X") ∧
    ((text.drop 2).head?.bind hexDigit).isSome
    then text.drop 2 else text
  let (n, rest) := hexNumber 0 text
  if (text.head?.bind hexDigit).isSome ∧ rest.all PushpinHttpHeaders.isSpace ∧
      -INT_MAX - 1 ≤ sign * n ∧ sign * n ≤ INT_MAX then some (sign * n)
  else none

theorem hexDigit_isSpace {b : UInt8} (space : PushpinHttpHeaders.isSpace b = true) :
    hexDigit b = none := by
  simp only [PushpinHttpHeaders.isSpace, Bool.or_eq_true, Bool.and_eq_true, decide_eq_true_eq,
    UInt8.le_iff_toNat_le, ← UInt8.toNat_inj] at space
  have below : b.toNat ≤ 32 := by
    rcases space with same | between
    · exact le_of_eq same
    · exact le_trans between.2 (by decide)
  simp only [hexDigit, UInt8.le_iff_toNat_le]
  rw [if_neg, if_neg, if_neg]
  all_goals
    rintro ⟨above, -⟩
    exact absurd (le_trans above below) (by decide)

theorem hexDigit_of_hexNumber {text : Bytes} {n : Nat} (whole : (hexNumber n text).2 = []) :
    ∀ b ∈ text, ∃ d, hexDigit b = some d := by
  induction text generalizing n with
  | nil => simp
  | cons b text ih =>
    rw [hexNumber] at whole
    cases digit : hexDigit b with
    | none =>
      rw [digit] at whole
      cases whole
    | some d =>
      rw [digit] at whole
      exact List.forall_mem_cons.mpr ⟨⟨d, digit⟩, ih whole⟩

theorem hexToInt_of_hexValue (text : Bytes) (n : Int) (value : hexValue text = some n)
    (small : n ≤ INT_MAX) : hexToInt text = some n := by
  simp only [hexValue, Option.ite_none_right_eq_some, Option.some.injEq] at value
  obtain ⟨⟨some_, whole⟩, rfl⟩ := value
  have digits := hexDigit_of_hexNumber whole
  cases text with
  | nil => exact absurd rfl some_
  | cons b rest =>
    obtain ⟨d, digit⟩ := digits b List.mem_cons_self
    have other : ∀ c ∈ b :: rest, ∀ c', hexDigit c' = none → c ≠ c' := by
      rintro c member c' none_ rfl
      obtain ⟨d, digit⟩ := digits c member
      rw [none_] at digit
      cases digit
    have noSpace : ¬ PushpinHttpHeaders.isSpace b = true := fun space =>
      absurd rfl (other b List.mem_cons_self b (hexDigit_isSpace space))
    have noPrefix : ¬ ((b :: rest).take 2 = ascii "0x" ∨ (b :: rest).take 2 = ascii "0X") := by
      cases rest with
      | nil => simp [ascii]
      | cons c rest =>
        have second := other c (by simp)
        rintro (same | same)
        · exact second 120 (by decide) (List.cons.inj (List.cons.inj same).2).1
        · exact second 88 (by decide) (List.cons.inj (List.cons.inj same).2).1
    have noMinus : ¬ (b :: rest).head? = some 45 := by
      simpa using other b List.mem_cons_self 45 (by decide)
    have noPlus : ¬ (b :: rest).head? = some 43 := by
      simpa using other b List.mem_cons_self 43 (by decide)
    have noHex : ¬ (((b :: rest).take 2 = ascii "0x" ∨ (b :: rest).take 2 = ascii "0X") ∧
        (((b :: rest).drop 2).head?.bind hexDigit).isSome = true) := fun both => noPrefix both.1
    have lower : -INT_MAX - 1 ≤ 1 * ((hexNumber 0 (b :: rest)).1 : Int) := by
      have positive : (0 : Int) ≤ INT_MAX := by decide
      omega
    have upper : 1 * ((hexNumber 0 (b :: rest)).1 : Int) ≤ INT_MAX := by rwa [one_mul]
    unfold hexToInt
    rw [List.dropWhile_cons_of_neg noSpace]
    dsimp only
    rw [if_neg noMinus, if_neg (not_or.mpr ⟨noMinus, noPlus⟩), if_neg noHex, whole,
      if_pos ⟨by simp [digit], rfl, lower, upper⟩, one_mul]

/-- What is asked of the reading of an input: it comes to an end, without an overflow; it
    succeeds exactly for a concatenation of events; and no position is before the one that
    it comes from. -/
structure ReadsWell (toInt : Bytes → Option Int) (input : Bytes) : Prop where
  result : ∃ fuel decoded, decodeEvents toInt fuel input = some decoded ∧ decoded ≠ .overflowed ∧
    ((∃ events, decoded = .ok events) ↔ ∃ events, Events hexValue input events)
  forward : ∀ p e afterLine next, Visits toInt input p →
    step toInt input p = .event e afterLine next → p ≤ afterLine ∧ afterLine ≤ next

section
variable {toInt : Bytes → Option Int} {input : Bytes} (small : input.length ≤ INT_MAX)
include small

theorem visits_good (good : (∃ events, Events toInt input events) ∨ Broken toInt input) {p : Int}
    (visited : Visits toInt input p) :
    ∃ n : Nat, p = n ∧ n ≤ input.length ∧
      ((∃ events, Events toInt (input.drop n) events) ∨ Broken toInt (input.drop n)) := by
  induction visited with
  | start => exact ⟨0, rfl, by omega, good⟩
  | next visited read ih =>
    obtain ⟨n, rfl, inside, ⟨events, rest⟩ | rest⟩ := ih
    · rcases step_events small rest with
        ⟨-, ended⟩ | ⟨e, later, afterLine, next, -, read', -, -, nextInside, -, more⟩
      · rw [ended] at read
        cases read
      · rw [read'] at read
        cases read
        exact ⟨next, rfl, nextInside, Or.inl ⟨later, more⟩⟩
    · rcases step_broken small rest with fails | ⟨e, afterLine, next, read', -, -, -, nextInside,
        later⟩
      · rw [fails] at read
        cases read
      · rw [read'] at read
        cases read
        exact ⟨next, rfl, nextInside, Or.inr later⟩

/-- The reading is as it should be exactly for concatenations of events and for inputs
    that are broken where the lengths lead to. -/
theorem decode_reads_well_iff (reads : ∀ text n, hexValue text = some n → n ≤ INT_MAX →
    toInt text = some n) :
    ReadsWell toInt input ↔ (∃ events, Events hexValue input events) ∨ Broken toInt input := by
  constructor
  · intro well
    obtain ⟨fuel, decoded, ran, noOverflow, exact_⟩ := well.result
    cases decoded with
    | ok events => exact Or.inl (exact_.mp ⟨events, rfl⟩)
    | failed => exact Or.inr (broken_of_failed small well.forward .start ran)
    | overflowed => exact absurd rfl noOverflow
  · intro good
    constructor
    · rcases good with ⟨events, read⟩ | broken
      · refine ⟨input.length + 1, .ok events, ?_, by simp, iff_of_true ⟨events, rfl⟩ ⟨events, read⟩⟩
        exact @decodeFrom_events toInt input small events (input.length + 1) 0
          (read.reread reads small) (by omega) (by omega) []
      · refine ⟨input.length + 1, .failed, ?_, by simp, iff_of_false (by simp) ?_⟩
        · exact @decodeFrom_broken toInt input small (input.length + 1) 0 broken (by omega) []
        · rintro ⟨events, read⟩
          exact not_both small (read.reread reads small) broken
    · intro p e afterLine next visited read
      have followed : (∃ events, Events toInt input events) ∨ Broken toInt input :=
        good.imp_left fun ⟨events, read⟩ => ⟨events, read.reread reads small⟩
      obtain ⟨n, rfl, inside, ⟨events, rest⟩ | rest⟩ := visits_good small followed visited
      · rcases step_events small rest with
          ⟨-, ended⟩ | ⟨e', later, afterLine', next', -, read', before, behind, -, -, -⟩
        · rw [ended] at read
          cases read
        · rw [read'] at read
          cases read
          omega
      · rcases step_broken small rest with fails | ⟨e', afterLine', next', read', before, behind,
          -, -, -⟩
        · rw [fails] at read
          cases read
        · rw [read'] at read
          cases read
          omega

end

theorem decode_reads_well_example : ReadsWell hexToInt (ascii "TEXT 2\r\nab\r\nPING\r\n") := by
  rw [decode_reads_well_iff (by decide) hexToInt_of_hexValue]
  have last : Events hexValue (ascii "PING\r\n") _ :=
    @Events.plain hexValue (ascii "PING") [] [] (by decide) (by decide) Events.nil
  exact Or.inl ⟨_, @Events.sized hexValue (ascii "TEXT") (ascii "2") (ascii "ab") _ _ (by decide)
    (by decide) (by decide) last⟩

/-- The negative length leads back to the line it is in, and the event is added forever. -/
theorem decodeFrom_back (fuel : Nat) (out : List Event) :
    decodeFrom hexToInt fuel (ascii "A -8\r\n") 0 out = none := by
  induction fuel generalizing out with
  | zero => rfl
  | succ fuel ih =>
    have back : step hexToInt (ascii "A -8\r\n") 0 = .event ⟨ascii "A", some []⟩ 6 0 := by decide
    rw [decodeFrom, back]
    exact ih _

theorem decodeFrom_mono {toInt : Bytes → Option Int} {fuel more : Nat} (le : fuel ≤ more) {p : Int}
    {out : List Event} {decoded : Decoded}
    (ran : decodeFrom toInt fuel input p out = some decoded) :
    decodeFrom toInt more input p out = some decoded := by
  induction fuel generalizing more p out with
  | zero => cases ran
  | succ fuel ih =>
    obtain ⟨more, rfl⟩ : ∃ k, more = k + 1 := ⟨more - 1, by omega⟩
    rw [decodeFrom] at ran ⊢
    cases read : step toInt input p with
    | ended | fails | overflows => rwa [read] at ran
    | event e afterLine next =>
      rw [read] at ran
      exact ih (by omega) ran

theorem ReadsWell.grammatical {toInt : Bytes → Option Int} (well : ReadsWell toInt input)
    {fuel : Nat} {events : List Event}
    (accepted : decodeEvents toInt fuel input = some (.ok events)) :
    ∃ events, Events hexValue input events := by
  obtain ⟨fuel', decoded, ran, -, exact_⟩ := well.result
  have one := decodeFrom_mono (Nat.le_max_left fuel fuel') accepted
  have other := decodeFrom_mono (Nat.le_max_right fuel fuel') ran
  rw [one] at other
  cases other
  exact exact_.mp ⟨events, rfl⟩

/-- A length that leads back, one that leads past the end, one that is too large, and
    one that is not written in digits alone. -/
theorem lengths_unchecked : ¬ ReadsWell hexToInt (ascii "A -8\r\n") ∧
    ¬ ReadsWell hexToInt (ascii "TEXT 5\r\nab") ∧
    ¬ ReadsWell hexToInt (ascii "TEXT 7fffffff\r\n") ∧
      ¬ ReadsWell hexToInt (ascii "TEXT +2\r\nab\r\n") := by
  refine ⟨fun well => ?_, fun well => ?_, fun well => ?_, fun well => ?_⟩
  · obtain ⟨fuel, decoded, ran, -⟩ := well.result
    rw [decodeEvents, decodeFrom_back] at ran
    cases ran
  · have accepted : decodeEvents hexToInt 2 (ascii "TEXT 5\r\nab") =
        some (.ok [⟨ascii "TEXT", some (ascii "ab")⟩]) := by
      decide
    obtain ⟨events, read⟩ := well.grammatical accepted
    rcases read.ends with empty | ⟨before, ends⟩
    · exact absurd empty (by decide)
    · have last : (before ++ crlf).getLast? = some 10 := by
        rw [List.getLast?_append]
        rfl
      rw [← ends] at last
      exact absurd last (by decide)
  · obtain ⟨fuel, decoded, ran, noOverflow, -⟩ := well.result
    have overflows : step hexToInt (ascii "TEXT 7fffffff\r\n") 0 = .overflows := by decide
    cases fuel with
    | zero => cases ran
    | succ fuel =>
      rw [decodeEvents, decodeFrom, overflows] at ran
      cases ran
      exact noOverflow rfl
  · have accepted : decodeEvents hexToInt 2 (ascii "TEXT +2\r\nab\r\n") =
        some (.ok [⟨ascii "TEXT", some (ascii "ab")⟩]) := by
      decide
    obtain ⟨events, read⟩ := well.grammatical accepted
    have refused : decodeEvents hexValue 14 (ascii "TEXT +2\r\nab\r\n") = some .failed := by decide
    have ran := @decodeFrom_events hexValue _ (by decide) events 14 0 read (by decide)
      (by decide) []
    cases refused.symm.trans ran

end PushpinWebSocketOverHttp
