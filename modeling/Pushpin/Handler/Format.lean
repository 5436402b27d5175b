import Mathlib.Algebra.Order.Ring.Nat
import Mathlib.Data.List.Basic

/-!
Format strings: text with directives such as `%I` and `%(name)s`, which a handler
replaces. `Template` says which strings are complete, piece by piece.
-/
namespace PushpinFormat

abbrev Bytes := List UInt8

abbrev Handler := UInt8 → Option Bytes → Except String Bytes

def percent : UInt8 := 37
def openParen : UInt8 := 40
def closeParen : UInt8 := 41
def backslash : UInt8 := 92

def isAlpha (c : UInt8) : Bool := (65 ≤ c && c ≤ 90) || (97 ≤ c && c ≤ 122)

/-- Where the loops of `process` are. The position is that of the `%`, and an
    argument is null until its first character. -/
inductive Mode where
  | text
  | marker (pos : Nat)
  | opened (pos : Nat)
  | field (pos : Nat) (arg : Option Bytes)
  | escape (pos : Nat) (arg : Option Bytes)
  | closed (pos : Nat) (arg : Option Bytes)

def extend (arg : Option Bytes) (c : UInt8) : Option Bytes := some (arg.getD [] ++ [c])

def charText (c : UInt8) : String := String.singleton (Char.ofNat c.toNat)

def atPosition (error : String) (n : Nat) : String := error ++ " at position " ++ toString n

def fieldStep (pos : Nat) (arg : Option Bytes) (c : UInt8) : Mode :=
  if c = backslash then .escape pos arg
  else if c = closeParen then .closed pos arg
  else .field pos (extend arg c)

/-- One character at position `n`: the next mode, and what is written. -/
def step (handler : Handler) (n : Nat) (c : UInt8) : Mode → Except String (Mode × Bytes)
  | .text => if c = percent then .ok (.marker n, []) else .ok (.text, [c])
  | .marker pos =>
    if c = openParen then .ok (.opened pos, [])
    else if c = percent then .ok (.text, [c])
    else if isAlpha c then
      match handler c none with
      | .ok result => .ok (.text, result)
      | .error e => .error (atPosition e n)
    else .error (atPosition ("Unknown directive '" ++ charText c ++ "'") n)
  | .opened pos => .ok (fieldStep pos none c, [])
  | .field pos arg => .ok (fieldStep pos arg c, [])
  | .escape pos arg => .ok (.field pos (extend arg c), [])
  | .closed _ arg =>
    match handler c arg with
    | .ok result => .ok (.text, result)
    | .error e => .error (atPosition e n)

/-- The end of the string at position `n`: the position of the directive that it
    cuts off, or the error. -/
def atEnd (keepPartial : Bool) (n : Nat) : Mode → Except String Nat
  | .text => .ok n
  | .marker pos => if keepPartial then .ok pos
    else .error (atPosition "Expected directive after '%'" (n - 1))
  | .opened pos => if keepPartial then .ok pos
    else .error (atPosition "Expected character after '('" (n - 1))
  | .field pos _ =>
    if keepPartial then .ok pos else .error (atPosition "Unterminated field starting" (pos + 1))
  | .escape pos _ => if keepPartial then .ok pos
    else .error (atPosition "Expected character after '\\'" (n - 1))
  | .closed pos _ => if keepPartial then .ok pos
    else .error (atPosition "Expected directive after ')'" (n - 1))

def processFrom (handler : Handler) (keepPartial : Bool) : Mode → Nat → Bytes → Bytes →
    Except String (Bytes × Nat)
  | mode, n, out, [] => (atEnd keepPartial n mode).map (out, ·)
  | mode, n, out, c :: rest =>
    match step handler n c mode with
    | .ok (mode, written) => processFrom handler keepPartial mode (n + 1) (out ++ written) rest
    | .error e => .error e

/-- What is written, and the position up to which the string was used: its end,
    unless the caller keeps a directive that is cut off. -/
def process (handler : Handler) (keepPartial : Bool) (format : Bytes) :
    Except String (Bytes × Nat) :=
  processFrom handler keepPartial .text 0 [] format

inductive FieldChar where
  | plain (c : UInt8) (noBackslash : c ≠ backslash) (noParen : c ≠ closeParen)
  | escaped (c : UInt8)

def FieldChar.text : FieldChar → Bytes
  | .plain c _ _ => [c]
  | .escaped c => [backslash, c]

def FieldChar.value : FieldChar → UInt8
  | .plain c _ _ => c
  | .escaped c => c

inductive Piece where
  | literal (c : UInt8) (noPercent : c ≠ percent)
  | percentSign
  | letter (c : UInt8) (alpha : isAlpha c = true)
  | field (body : List FieldChar) (type : UInt8)

def Piece.text : Piece → Bytes
  | .literal c _ => [c]
  | .percentSign => [percent, percent]
  | .letter c _ => [percent, c]
  | .field body type => percent :: openParen :: (body.flatMap FieldChar.text ++ [closeParen, type])

def argOf (body : Bytes) : Option Bytes := if body = [] then none else some body

def Piece.Gives (handler : Handler) : Piece → Bytes → Prop
  | .literal c _, out => out = [c]
  | .percentSign, out => out = [percent]
  | .letter c _, out => handler c none = .ok out
  | .field body type, out => handler type (argOf (body.map FieldChar.value)) = .ok out

inductive Template (handler : Handler) : Bytes → Bytes → Prop
  | nil : Template handler [] []
  | cons {piece : Piece} {result format out : Bytes} (gives : piece.Gives handler result)
      (rest : Template handler format out) : Template handler (piece.text ++ format) (result ++ out)

variable {handler : Handler} {s t out : Bytes}

theorem Template.append {more : Bytes} (first : Template handler s out)
    (second : Template handler t more) : Template handler (s ++ t) (out ++ more) := by
  induction first with
  | nil => exact second
  | cons gives _ ih =>
    rw [List.append_assoc, List.append_assoc]
    exact Template.cons gives ih

theorem Template.uncons (template : Template handler s out) :
    s = [] ∧ out = [] ∨ ∃ piece : Piece, ∃ rest result more, s = piece.text ++ rest ∧
      piece.Gives handler result ∧ Template handler rest more ∧ out = result ++ more := by
  cases template with
  | nil => exact Or.inl ⟨rfl, rfl⟩
  | cons gives rest => exact Or.inr ⟨_, _, _, _, rfl, gives, rest, rfl⟩

def FieldRest (handler : Handler) (arg s out : Bytes) : Prop :=
  ∃ body : List FieldChar, ∃ type rest result more,
    s = body.flatMap FieldChar.text ++ closeParen :: type :: rest ∧
    handler type (argOf (arg ++ body.map FieldChar.value)) = .ok result ∧
      Template handler rest more ∧
    out = result ++ more

def Completes (handler : Handler) : Mode → Bytes → Bytes → Prop
  | .text, s, out => Template handler s out
  | .marker _, s, out => Template handler (percent :: s) out
  | .opened _, s, out => FieldRest handler [] s out
  | .field _ arg, s, out => FieldRest handler (arg.getD []) s out
  | .escape _ arg, s, out => ∃ c rest, s = c :: rest ∧
    FieldRest handler (arg.getD [] ++ [c]) rest out
  | .closed _ arg, s, out => ∃ type rest result more, s = type :: rest ∧
      handler type arg = .ok result ∧ Template handler rest more ∧ out = result ++ more

def Mode.Sound : Mode → Prop
  | .text | .marker _ | .opened _ => True
  | .field _ arg | .escape _ arg | .closed _ arg => arg = argOf (arg.getD [])

theorem extend_sound (arg : Option Bytes) (c : UInt8) :
    extend arg c = argOf ((extend arg c).getD []) := by
  simp [extend, argOf]

theorem fieldStep_sound (pos : Nat) {arg : Option Bytes} (sound : arg = argOf (arg.getD []))
    (c : UInt8) : (fieldStep pos arg c).Sound := by
  unfold fieldStep
  split_ifs
  · exact sound
  · exact sound
  · exact extend_sound arg c

variable {n : Nat} {c : UInt8} {mode : Mode}

theorem step_sound {next : Mode} {written : Bytes}
    (sound : mode.Sound) (stepped : step handler n c mode = .ok (next, written)) : next.Sound := by
  cases mode with
  | text =>
    simp only [step] at stepped
    split_ifs at stepped <;> cases stepped <;> trivial
  | marker pos =>
    simp only [step] at stepped
    split_ifs at stepped
    · cases stepped
      trivial
    · cases stepped
      trivial
    · split at stepped
      · cases stepped
        trivial
      · cases stepped
  | opened pos =>
    cases stepped
    exact fieldStep_sound pos rfl c
  | field pos arg =>
    cases stepped
    exact fieldStep_sound pos sound c
  | escape pos arg =>
    cases stepped
    exact extend_sound arg c
  | closed pos arg =>
    simp only [step] at stepped
    split at stepped
    · cases stepped
      trivial
    · cases stepped

theorem completes_nil : Completes handler mode [] out ↔ mode = .text ∧ out = [] := by
  cases mode with
  | text =>
    constructor
    · intro template
      rcases Template.uncons template with ⟨_, rfl⟩ | ⟨piece, rest, _, _, split, _⟩
      · exact ⟨rfl, rfl⟩
      · cases piece <;> cases split
    · rintro ⟨_, rfl⟩
      exact Template.nil
  | marker pos =>
    refine ⟨fun template => ?_, fun absurd => by cases absurd.1⟩
    rcases Template.uncons template with ⟨absurd, _⟩ | ⟨piece, rest, _, _, split, _⟩
    · cases absurd
    · cases piece with
      | literal c noPercent => exact (noPercent (List.cons.inj split).1.symm).elim
      | percentSign => cases (List.cons.inj split).2
      | letter c alpha => cases (List.cons.inj split).2
      | field body type => cases (List.cons.inj split).2
  | opened pos => simp [Completes, FieldRest]
  | field pos arg => simp [Completes, FieldRest]
  | escape pos arg => simp [Completes]
  | closed pos arg => simp [Completes]

theorem fieldRest_cons {arg : Option Bytes} (sound : arg = argOf (arg.getD [])) {pos : Nat} :
    FieldRest handler (arg.getD []) (c :: s) out ↔
      Completes handler (fieldStep pos arg c) s out := by
  unfold fieldStep
  constructor
  · rintro ⟨body, type, rest, result, more, split, given, template, rfl⟩
    cases body with
    | nil =>
      simp only [List.flatMap_nil, List.nil_append, List.cons.injEq] at split
      obtain ⟨rfl, rfl⟩ := split
      rw [if_neg (by decide), if_pos rfl]
      simp only [List.map_nil, List.append_nil, ← sound] at given
      exact ⟨type, rest, result, more, rfl, given, template, rfl⟩
    | cons first body =>
      cases first with
      | plain d noBackslash noParen =>
        simp only [List.flatMap_cons, FieldChar.text, List.cons_append, List.nil_append,
          List.cons.injEq] at split
        obtain ⟨rfl, rfl⟩ := split
        rw [if_neg noBackslash, if_neg noParen]
        refine ⟨body, type, rest, result, more, rfl, ?_, template, rfl⟩
        simpa [extend, FieldChar.value] using given
      | escaped d =>
        simp only [List.flatMap_cons, FieldChar.text, List.cons_append, List.nil_append,
          List.cons.injEq] at split
        obtain ⟨rfl, rfl⟩ := split
        rw [if_pos rfl]
        refine ⟨d, _, rfl, body, type, rest, result, more, rfl, ?_, template, rfl⟩
        simpa [FieldChar.value] using given
  · split_ifs with isBackslash isParen
    · rintro ⟨d, _, rfl, body, type, rest, result, more, rfl, given, template, rfl⟩
      refine ⟨.escaped d :: body, type, rest, result, more, ?_, ?_, template, rfl⟩
      · simp [FieldChar.text, isBackslash]
      · simpa [FieldChar.value] using given
    · rintro ⟨type, rest, result, more, rfl, given, template, rfl⟩
      refine ⟨[], type, rest, result, more, by simp [isParen], ?_, template, rfl⟩
      rw [List.map_nil, List.append_nil, ← sound]
      exact given
    · rintro ⟨body, type, rest, result, more, rfl, given, template, rfl⟩
      refine ⟨.plain c isBackslash isParen :: body, type, rest, result, more, ?_, ?_, template, rfl⟩
      · simp [FieldChar.text]
      · simpa [extend, FieldChar.value] using given

theorem silent_iff :
    Completes handler mode s out ↔
      ∃ next written more, (Except.ok (mode, []) : Except String (Mode × Bytes)) =
      .ok (next, written) ∧ Completes handler next s more ∧ out = written ++ more := by
  constructor
  · intro completes
    exact ⟨mode, [], out, rfl, completes, rfl⟩
  · rintro ⟨next, written, more, same, completes, rfl⟩
    cases same
    exact completes

theorem completes_cons (sound : mode.Sound) (n : Nat) :
    Completes handler mode (c :: s) out ↔
      ∃ next written more, step handler n c mode = .ok (next, written) ∧
      Completes handler next s more ∧ out = written ++ more := by
  cases mode with
  | text =>
    by_cases isPercent : c = percent
    · simp only [step, if_pos isPercent]
      constructor
      · intro template
        subst isPercent
        exact ⟨_, _, out, rfl, template, rfl⟩
      · rintro ⟨next, written, more, same, completes, rfl⟩
        cases same
        subst isPercent
        exact completes
    · simp only [step, if_neg isPercent]
      constructor
      · intro template
        rcases Template.uncons template with ⟨absurd, _⟩ | ⟨piece, rest, result, more, split, gives,
          later, rfl⟩
        · cases absurd
        · cases piece with
          | literal d noPercent =>
            obtain ⟨rfl, rfl⟩ := List.cons.inj split
            cases gives
            exact ⟨_, _, more, rfl, later, rfl⟩
          | percentSign => exact (isPercent (List.cons.inj split).1).elim
          | letter d alpha => exact (isPercent (List.cons.inj split).1).elim
          | field body type => exact (isPercent (List.cons.inj split).1).elim
      · rintro ⟨next, written, more, same, completes, rfl⟩
        cases same
        have gives : (Piece.literal c isPercent).Gives handler [c] := rfl
        exact Template.cons gives completes
  | marker pos =>
    constructor
    · intro template
      rcases Template.uncons template with ⟨absurd, _⟩ | ⟨piece, rest, result, more, split, gives,
        later, rfl⟩
      · cases absurd
      · cases piece with
        | literal d noPercent => exact (noPercent (List.cons.inj split).1.symm).elim
        | percentSign =>
          obtain ⟨rfl, rfl⟩ := List.cons.inj (List.cons.inj split).2
          cases gives
          exact ⟨.text, [percent], more, rfl, later, rfl⟩
        | letter d alpha =>
          obtain ⟨rfl, rfl⟩ := List.cons.inj (List.cons.inj split).2
          have noParen : c ≠ openParen := by
            rintro rfl
            cases alpha
          have noPercent : c ≠ percent := by
            rintro rfl
            cases alpha
          refine ⟨.text, result, more, ?_, later, rfl⟩
          have given : handler c none = .ok result := gives
          simp only [step, if_neg noParen, if_neg noPercent, if_pos alpha, given]
        | field body type =>
          simp only [Piece.text, List.cons_append, List.append_assoc, List.nil_append,
            List.cons.injEq] at split
          obtain ⟨_, rfl, rfl⟩ := split
          refine ⟨.opened pos, [], result ++ more, rfl, ?_, rfl⟩
          exact ⟨body, type, rest, result, more, rfl, gives, later, rfl⟩
    · rintro ⟨next, written, more, stepped, completes, rfl⟩
      simp only [step] at stepped
      split_ifs at stepped with isOpen isPercent alpha
      · cases stepped
        obtain ⟨body, type, rest, result, more, rfl, given, template, rfl⟩ := completes
        have gives : (Piece.field body type).Gives handler result := given
        have whole := Template.cons gives template
        simpa [Piece.text, isOpen, Completes] using whole
      · cases stepped
        have gives : Piece.percentSign.Gives handler [c] := by rw [isPercent]; rfl
        have whole := Template.cons gives completes
        simpa [Piece.text, isPercent, Completes] using whole
      · split at stepped
        · rename_i answer given
          cases stepped
          have gives : (Piece.letter c alpha).Gives handler written := given
          exact Template.cons gives completes
        · cases stepped
  | opened pos =>
    have noArg : (none : Option Bytes) = argOf ((none : Option Bytes).getD []) := rfl
    exact (fieldRest_cons noArg).trans silent_iff
  | field pos arg => exact (fieldRest_cons sound).trans silent_iff
  | escape pos arg =>
    refine Iff.trans ?_ silent_iff
    constructor
    · rintro ⟨d, rest, split, later⟩
      obtain ⟨rfl, rfl⟩ := List.cons.inj split
      exact later
    · intro later
      exact ⟨c, s, rfl, later⟩
  | closed pos arg =>
    constructor
    · rintro ⟨type, rest, result, more, split, given, template, rfl⟩
      obtain ⟨rfl, rfl⟩ := List.cons.inj split
      exact ⟨.text, result, more, by simp only [step, given], template, rfl⟩
    · rintro ⟨next, written, more, stepped, completes, rfl⟩
      simp only [step] at stepped
      split at stepped
      · rename_i answer given
        cases stepped
        exact ⟨c, s, written, more, rfl, given, completes, rfl⟩
      · cases stepped

variable {acc : Bytes} {stop : Nat}

theorem processFrom_iff (sound : mode.Sound) :
    processFrom handler false mode n acc s = .ok (out, stop) ↔
      (∃ more, out = acc ++ more ∧ Completes handler mode s more) ∧ stop = n + s.length := by
  induction s generalizing mode n acc with
  | nil =>
    simp only [completes_nil, processFrom, List.length_nil, Nat.add_zero]
    cases mode <;> simp [atEnd, Except.map, eq_comm]
  | cons c rest ih =>
    simp only [completes_cons sound n, processFrom, List.length_cons]
    cases stepped : step handler n c mode with
    | error e =>
      constructor
      · intro absurd
        cases absurd
      · rintro ⟨⟨_, _, _, _, _, absurd, _⟩, _⟩
        cases absurd
    | ok result =>
      obtain ⟨next, written⟩ := result
      simp only [ih (step_sound sound stepped), List.append_assoc]
      constructor
      · rintro ⟨⟨more, rfl, completes⟩, rfl⟩
        exact ⟨⟨written ++ more, rfl, next, written, more, rfl, completes, rfl⟩, by omega⟩
      · rintro ⟨⟨_, rfl, _, _, more, same, completes, rfl⟩, rfl⟩
        cases same
        exact ⟨⟨more, rfl, completes⟩, by omega⟩

theorem process_iff_template {handler : Handler} {format out : Bytes} {stop : Nat} :
    process handler false format = .ok (out, stop) ↔
      Template handler format out ∧ stop = format.length := by
  have sound : Mode.text.Sound := trivial
  rw [process, processFrom_iff sound]
  simp [Completes]

theorem processFrom_keep {answer : Bytes × Nat}
    (done : processFrom handler false mode n acc s = .ok answer) :
    processFrom handler true mode n acc s = .ok answer := by
  induction s generalizing mode n acc with
  | nil =>
    cases mode with
    | text => exact done
    | marker pos => cases done
    | opened pos => cases done
    | field pos arg => cases done
    | escape pos arg => cases done
    | closed pos arg => cases done
  | cons c rest ih =>
    simp only [processFrom] at done ⊢
    cases stepped : step handler n c mode with
    | error e => simp only [stepped] at done; cases done
    | ok result =>
      simp only [stepped] at done ⊢
      exact ih done

def Mode.pos? : Mode → Option Nat
  | .text => none
  | .marker pos | .opened pos | .field pos _ | .escape pos _ | .closed pos _ => some pos

theorem fieldStep_pos (pos : Nat) (arg : Option Bytes) (c : UInt8) :
    (fieldStep pos arg c).pos? = some pos := by
  unfold fieldStep
  split_ifs <;> rfl

theorem step_pos {next : Mode} {written : Bytes}
    (stepped : step handler n c mode = .ok (next, written)) {pos : Nat}
    (within : next.pos? = some pos) :
    written = [] ∧ (mode.pos? = some pos ∨ mode = .text ∧ pos = n) := by
  cases mode with
  | text =>
    simp only [step] at stepped
    split_ifs at stepped
    · cases stepped
      cases within
      exact ⟨rfl, Or.inr ⟨rfl, rfl⟩⟩
    · cases stepped
      cases within
  | marker start =>
    simp only [step] at stepped
    split_ifs at stepped
    · cases stepped
      exact ⟨rfl, Or.inl within⟩
    · cases stepped
      cases within
    · split at stepped
      · cases stepped
        cases within
      · cases stepped
  | opened start =>
    cases stepped
    rw [fieldStep_pos] at within
    exact ⟨rfl, Or.inl within⟩
  | field start arg =>
    cases stepped
    rw [fieldStep_pos] at within
    exact ⟨rfl, Or.inl within⟩
  | escape start arg =>
    cases stepped
    exact ⟨rfl, Or.inl within⟩
  | closed start arg =>
    simp only [step] at stepped
    split at stepped
    · cases stepped
      cases within
    · cases stepped

theorem processFrom_cut (sound : mode.Sound)
    (done : processFrom handler true mode n acc s = .ok (out, stop)) :
    mode.pos? = some stop ∧ out = acc ∨
      n ≤ stop ∧ ∃ more, out = acc ++ more ∧ Completes handler mode (s.take (stop - n)) more := by
  induction s generalizing mode n acc with
  | nil =>
    cases mode with
    | text =>
      cases done
      exact Or.inr ⟨le_rfl, [], (List.append_nil _).symm, by rw [List.take_nil]; exact Template.nil⟩
    | marker pos => cases done; exact Or.inl ⟨rfl, rfl⟩
    | opened pos => cases done; exact Or.inl ⟨rfl, rfl⟩
    | field pos arg => cases done; exact Or.inl ⟨rfl, rfl⟩
    | escape pos arg => cases done; exact Or.inl ⟨rfl, rfl⟩
    | closed pos arg => cases done; exact Or.inl ⟨rfl, rfl⟩
  | cons c rest ih =>
    simp only [processFrom] at done
    cases stepped : step handler n c mode with
    | error e => simp only [stepped] at done; cases done
    | ok result =>
      obtain ⟨next, written⟩ := result
      simp only [stepped] at done
      rcases ih (step_sound sound stepped) done with ⟨within, same⟩ | ⟨past, more, same, completes⟩
      · obtain ⟨rfl, atMode | ⟨rfl, rfl⟩⟩ := step_pos stepped within
        · exact Or.inl ⟨atMode, by rw [same, List.append_nil]⟩
        · refine Or.inr ⟨le_rfl, [], same, ?_⟩
          rw [Nat.sub_self, List.take_zero]
          exact Template.nil
      · refine Or.inr ⟨by omega, written ++ more, by rw [same, List.append_assoc], ?_⟩
        rw [show stop - n = stop - (n + 1) + 1 by omega, List.take_succ_cons]
        exact (completes_cons sound n).mpr ⟨next, written, more, stepped, completes, rfl⟩

theorem process_whole {format : Bytes} :
    process handler true format = .ok (out, format.length) ↔ Template handler format out := by
  constructor
  · intro done
    have sound : Mode.text.Sound := trivial
    rcases processFrom_cut sound done with ⟨absurd, _⟩ | ⟨_, front, same, completes⟩
    · cases absurd
    · rw [Nat.sub_zero, List.take_length] at completes
      rw [same]
      exact completes
  · intro template
    exact processFrom_keep (process_iff_template.mpr ⟨template, rfl⟩)

theorem process_rest {format : Bytes}
    (done : process handler true format = .ok (out, stop)) {more : Bytes} {last : Nat}
    (later : process handler false (format.drop stop) = .ok (more, last)) :
    stop = format.length := by
  have sound : Mode.text.Sound := trivial
  rcases processFrom_cut sound done with ⟨absurd, _⟩ | ⟨_, front, same, completes⟩
  · cases absurd
  · have whole := completes.append (process_iff_template.mp later).1
    rw [Nat.sub_zero, List.take_append_drop] at whole
    have complete := processFrom_keep (process_iff_template.mpr ⟨whole, rfl⟩)
    rw [process] at done
    rw [complete] at done
    cases done
    rfl

theorem processFrom_append (sound : mode.Sound) {keep : Bool}
    (completes : Completes handler mode s out) :
    processFrom handler keep mode n acc (s ++ t) = processFrom handler keep .text (n + s.length)
      (acc ++ out) t := by
  induction s generalizing mode n acc out with
  | nil =>
    obtain ⟨rfl, rfl⟩ := completes_nil.mp completes
    rw [List.nil_append, List.append_nil, List.length_nil, Nat.add_zero]
  | cons c s ih =>
    obtain ⟨next, written, more, stepped, later, rfl⟩ := (completes_cons sound n).mp completes
    simp only [List.cons_append, processFrom, stepped, ih (step_sound sound stepped) later,
      List.append_assoc, List.length_cons]
    congr 1
    omega

theorem template_append_iff {whole : Bytes} (front : Template handler s out) :
    Template handler (s ++ t) whole ↔ ∃ more, whole = out ++ more ∧ Template handler t more := by
  have sound : Mode.text.Sound := trivial
  have continues :
      process handler false (s ++ t) = processFrom handler false .text s.length out t := by
    rw [process, processFrom_append sound (show Completes handler .text s out from front),
      Nat.zero_add, List.nil_append]
  have whole_iff := @process_iff_template handler (s ++ t) whole (s ++ t).length
  rw [continues, processFrom_iff sound, List.length_append] at whole_iff
  simp only [and_true] at whole_iff
  exact whole_iff.symm

theorem processFrom_error (sound : mode.Sound) {e : String}
    (failed : processFrom handler true mode n acc s = .error e) :
    ¬ Completes handler mode (s ++ t) out := by
  induction s generalizing mode n acc out with
  | nil => cases mode <;> cases failed
  | cons c s ih =>
    intro completes
    obtain ⟨next, written, more, stepped, later, rfl⟩ := (completes_cons sound n).mp completes
    simp only [processFrom, stepped] at failed
    exact ih (step_sound sound stepped) failed later

/-- A string that is kept back from a directive that is cut off goes on where it
    stopped. -/
theorem template_resumes
    (done : process handler true s = .ok (out, stop)) (t whole : Bytes) :
    Template handler (s ++ t) whole ↔
      ∃ more, whole = out ++ more ∧ Template handler (s.drop stop ++ t) more := by
  have sound : Mode.text.Sound := trivial
  rcases processFrom_cut sound done with ⟨absurd, _⟩ | ⟨_, front, same, completes⟩
  · cases absurd
  · rw [Nat.sub_zero] at completes
    rw [same, List.nil_append, ← template_append_iff completes, ← List.append_assoc,
      List.take_append_drop]

end PushpinFormat
