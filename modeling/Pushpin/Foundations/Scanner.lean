import Mathlib.Algebra.Order.Ring.Nat
import Mathlib.Data.List.Basic

/-!
Parsers of a byte stream that may see only a beginning of it. A lawful parser
decides from the bytes it consumes, so a decision never changes when more bytes
arrive. Every left-to-right scanner is lawful.
-/
namespace Scanning
variable {σ β ε α ε' γ : Type}

inductive Parsed (ε α : Type) where
  | error (e : ε)
  | incomplete
  | complete (pos : Nat) (value : α)
  deriving DecidableEq, Repr

def Parsed.judged (answer : Parsed ε α) (lift : ε → ε') (judge : α → Except ε' γ) : Parsed ε' γ :=
  match answer with
  | .error e => .error (lift e)
  | .incomplete => .incomplete
  | .complete pos value =>
    match judge value with
    | .error e => .error e
    | .ok value => .complete pos value

theorem Parsed.judged_complete {answer : Parsed ε α} {lift : ε → ε'} {judge : α → Except ε' γ}
    {pos : Nat} {value : γ} :
    answer.judged lift judge = .complete pos value ↔
      ∃ raw, answer = .complete pos raw ∧ judge raw = .ok value := by
  cases answer with
  | error e => simp [Parsed.judged]
  | incomplete => simp [Parsed.judged]
  | complete at_ raw => cases verdict : judge raw <;> simp [Parsed.judged, verdict]

structure Lawful (parse : List β → Parsed ε α) : Prop where
  consumes : ∀ {s pos value}, parse s = .complete pos value → 0 < pos ∧ pos ≤ s.length
  completes : ∀ {s pos value}, parse s = .complete pos value →
    ∀ more, parse (s ++ more) = .complete pos value
  fails : ∀ {s e}, parse s = .error e → ∀ more, parse (s ++ more) = .error e

/-- What a complete answer of a parser depends on: the bytes it consumes, neither
    more nor fewer. Nothing is said about errors. -/
structure Steady (parse : List β → Parsed ε α) : Prop where
  consumes : ∀ {s pos value}, parse s = .complete pos value → pos ≤ s.length
  decided : ∀ {s pos value}, parse s = .complete pos value →
    ∀ count, pos ≤ count → parse (s.take count) = .complete pos value

/-- A beginning that is not enough ends before the last byte consumed. -/
theorem Steady.incomplete_is_short {parse : List β → Parsed ε α} (steady : Steady parse)
    {front s : List β} {pos : Nat} {value : α} (begins : front <+: s)
    (short : parse front = .incomplete)
    (done : parse s = .complete pos value) : front.length < pos := by
  by_contra reach
  have whole := steady.decided done front.length (by omega)
  rw [← List.prefix_iff_eq_take.mp begins, short] at whole
  cases whole

theorem Steady.judged {parse : List β → Parsed ε α} (steady : Steady parse) (lift : ε → ε')
    (judge : α → Except ε' γ) : Steady fun s => (parse s).judged lift judge := by
  constructor
  · intro s pos value done
    obtain ⟨raw, parsed, _⟩ := Parsed.judged_complete.mp done
    exact steady.consumes parsed
  · intro s pos value done count enough
    obtain ⟨raw, parsed, verdict⟩ := Parsed.judged_complete.mp done
    exact Parsed.judged_complete.mpr ⟨raw, steady.decided parsed count enough, verdict⟩

/-- Feeding one byte gives the next state or a verdict. -/
structure Scanner (σ β ε α : Type) where
  start : σ
  feed : σ → β → σ ⊕ Except ε α

def Scanner.scanFrom (m : Scanner σ β ε α) : σ → Nat → List β → Parsed ε α
  | _, _, [] => .incomplete
  | state, pos, b :: rest =>
    match m.feed state b with
    | .inl state => m.scanFrom state (pos + 1) rest
    | .inr (.ok value) => .complete (pos + 1) value
    | .inr (.error e) => .error e

def Scanner.parse (m : Scanner σ β ε α) (s : List β) : Parsed ε α := m.scanFrom m.start 0 s

section
variable (m : Scanner σ β ε α)
include m

theorem scanFrom_consumes (s : List β) {state : σ} {start pos : Nat}
    {value : α} (done : m.scanFrom state start s = .complete pos value) :
    start < pos ∧ pos ≤ start + s.length := by
  induction s generalizing state start with
  | nil => cases done
  | cons b rest ih =>
    simp only [Scanner.scanFrom] at done
    cases fed : m.feed state b with
    | inl next =>
      rw [fed] at done
      have := ih done
      simp only [List.length_cons]
      omega
    | inr verdict =>
      rw [fed] at done
      cases verdict with
      | ok v =>
        simp only [Parsed.complete.injEq] at done
        simp only [List.length_cons]
        omega
      | error e => cases done

theorem scanFrom_append (s more : List β) {state : σ} {start : Nat}
    (decided : m.scanFrom state start s ≠ .incomplete) :
    m.scanFrom state start (s ++ more) = m.scanFrom state start s := by
  induction s generalizing state start with
  | nil => exact absurd rfl decided
  | cons b rest ih =>
    simp only [Scanner.scanFrom, List.cons_append] at decided ⊢
    cases fed : m.feed state b with
    | inl next =>
      rw [fed] at decided
      exact ih decided
    | inr verdict => cases verdict <;> rfl

theorem scanFrom_take (s : List β) {state : σ} {start pos count : Nat}
    {value : α} (done : m.scanFrom state start s = .complete pos value)
    (enough : pos ≤ start + count) :
    m.scanFrom state start (s.take count) = .complete pos value := by
  induction s generalizing state start count with
  | nil => cases done
  | cons b rest ih =>
    have ahead := scanFrom_consumes m (b :: rest) done
    obtain ⟨more, rfl⟩ : ∃ more, count = more + 1 := ⟨count - 1, by omega⟩
    simp only [Scanner.scanFrom, List.take_succ_cons] at done ⊢
    cases fed : m.feed state b with
    | inl next =>
      rw [fed] at done
      exact ih done (by omega)
    | inr verdict =>
      rw [fed] at done
      cases verdict with
      | ok v => exact done
      | error e => cases done

theorem scanner_steady : Steady m.parse := by
  constructor
  · intro s pos value done
    have := scanFrom_consumes m s done
    omega
  · intro s pos value done count enough
    exact scanFrom_take m s done (by omega)

theorem scanner_lawful : Lawful m.parse := by
  constructor
  · intro s pos value done
    have := scanFrom_consumes m s done
    omega
  · intro s pos value done more
    unfold Scanner.parse at done ⊢
    rw [scanFrom_append m s more (by rw [done]; simp), done]
  · intro s e failed more
    unfold Scanner.parse at failed ⊢
    rw [scanFrom_append m s more (by rw [failed]; simp), failed]

end

end Scanning
