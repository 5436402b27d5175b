import Pushpin.Core.Tnetstring

namespace PushpinTnetstring
open PushpinRingBuffer Slices Text
open Option (bind_eq_bind bind_none bind_some)

def parsePlain (src : List Byte) : Except ParseError (Frame × Nat) :=
  match findColon src 0 with
  | .error e => .error e
  | .ok sizeEnd =>
    match parseUsize (src.take sizeEnd) with
    | none => .error .invalidData
    | some size =>
      if sizeEnd + size + 2 > src.length then .error .unexpectedEof
      else
        match src[sizeEnd + 1 + size]?.bind typeOf with
        | none => .error .invalidData
        | some ftype => .ok (⟨ftype, (src.drop (sizeEnd + 1)).take size⟩, sizeEnd + size + 2)

def overflows (src : List Byte) : Bool :=
  match findColon src 0 with
  | .error _ => false
  | .ok sizeEnd =>
    match parseUsize (src.take sizeEnd) with
    | none => false
    | some size => decide (usizeEnd ≤ sizeEnd + size + 2)

theorem addUsize_fits {checks : Bool} {a b : Nat} (fits : a + b < usizeEnd) :
    addUsize checks a b = some (a + b) :=
  if_pos fits

theorem parseFrame_plain (checks : Bool) {src : List Byte} (fits : overflows src = false) :
    parseFrame checks src = some (parsePlain src) := by
  unfold overflows at fits
  unfold parseFrame parsePlain
  cases colon : findColon src 0 with
  | error e => rfl
  | ok sizeEnd =>
    rw [colon] at fits
    simp only at fits ⊢
    cases parsed : parseUsize (src.take sizeEnd) with
    | none => rfl
    | some size =>
      rw [parsed] at fits
      simp only [decide_eq_false_iff_not, Nat.not_le] at fits ⊢
      rw [addUsize_fits (by omega : sizeEnd + size < usizeEnd), bind_eq_bind,
        bind_some, addUsize_fits fits, bind_some]
      by_cases long : sizeEnd + size + 2 > src.length
      · rw [if_pos long, if_pos long]
        rfl
      · rw [if_neg long, if_neg long, addUsize_fits (by omega : sizeEnd + 1 < usizeEnd),
          bind_some, addUsize_fits (by omega : sizeEnd + 1 + size < usizeEnd),
            bind_some]
        have inside : sizeEnd + 1 + size < src.length := by omega
        simp only [List.getElem?_eq_getElem inside, bind_eq_bind, bind_some]
        cases typeOf src[sizeEnd + 1 + size] with
        | none => rfl
        | some ftype =>
          have cut : slice? src (sizeEnd + 1) (sizeEnd + 1 + size) =
              some ((src.drop (sizeEnd + 1)).take size) := by
            rw [slice?, if_pos ⟨by omega, by omega⟩, slice, List.drop_take, Nat.add_sub_cancel_left]
          simp only [bind_some, addUsize_fits fits, cut]
          rfl

theorem parseFrame_overflows {src : List Byte} (large : overflows src = true) :
    parseFrame true src = none := by
  unfold overflows at large
  unfold parseFrame
  cases colon : findColon src 0 with
  | error e =>
    rw [colon] at large
    cases large
  | ok sizeEnd =>
    rw [colon] at large
    simp only at large ⊢
    cases parsed : parseUsize (src.take sizeEnd) with
    | none =>
      rw [parsed] at large
      cases large
    | some size =>
      rw [parsed] at large
      simp only [decide_eq_true_eq] at large
      simp only [bind_eq_bind]
      by_cases early : sizeEnd + size < usizeEnd
      · have late : ¬ sizeEnd + size + 2 < usizeEnd := by omega
        simp only [addUsize, early, late, if_true, if_false, bind_some, bind_none]
      · simp only [addUsize, early, if_true, if_false, bind_none]

theorem findColon_spec (src : List Byte) (i : Nat) {sizeEnd : Nat}
    (found : findColon src i = .ok sizeEnd) :
    ∃ digits rest, src = digits ++ 58 :: rest ∧ sizeEnd = i + digits.length ∧
      digits.all Decimal.isDigit = true := by
  induction src generalizing i with
  | nil => cases found
  | cons c src ih =>
    unfold findColon at found
    split at found
    · rename_i colon
      cases found
      exact ⟨[], src, by rw [colon]; rfl, rfl, rfl⟩
    · split at found
      · rename_i is_digit
        obtain ⟨digits, rest, rfl, place, all⟩ := ih (i + 1) found
        refine ⟨c :: digits, rest, rfl,
          ?_, by simp only [List.all_cons, is_digit, all, Bool.and_self]⟩
        rw [place, List.length_cons]
        omega
      · cases found

theorem findColon_digits {digits : List Byte} (all : digits.all Decimal.isDigit = true)
    (rest : List Byte) (i : Nat) :
    findColon (digits ++ 58 :: rest) i = .ok (i + digits.length) := by
  induction digits generalizing i with
  | nil => rfl
  | cons c digits ih =>
    simp only [List.all_cons, Bool.and_eq_true] at all
    have other : c ≠ 58 := by
      rintro rfl
      exact absurd all.1 (by decide)
    simp only [List.cons_append, findColon, if_neg other, all.1, if_true, ih all.2]
    rw [List.length_cons]
    congr 1
    omega

structure Placed (src : List Byte) (frame : Frame) (end_ : Nat) (digits : List Byte)
    (typeByte : Byte) (rest : List Byte) : Prop where
  bytes : src = digits ++ 58 :: (frame.data ++ typeByte :: rest)
  sized : digits ≠ [] ∧ digits.all Decimal.isDigit = true ∧ Decimal.value digits = frame.data.length
  typed : typeOf typeByte = some frame.ftype
  ended : end_ = digits.length + frame.data.length + 2

theorem parsePlain_digits {digits : List Byte} (all : digits.all Decimal.isDigit = true)
    {size : Nat} (parsed : parseDigits usizeEnd digits = some size) (rest : List Byte) :
    parsePlain (digits ++ 58 :: rest) =
      if rest.length < size + 1 then .error .unexpectedEof
      else
        match rest[size]?.bind typeOf with
        | none => .error .invalidData
        | some ftype => .ok (⟨ftype, rest.take size⟩, digits.length + size + 2) := by
  have behind : (digits ++ 58 :: rest).drop (digits.length + 1) = rest := by
    rw [← List.drop_drop, List.drop_left]
    rfl
  have place : (digits ++ 58 :: rest)[digits.length + 1 + size]? = rest[size]? := by
    rw [← List.getElem?_drop, behind]
  unfold parsePlain
  rw [findColon_digits all]
  simp only [Nat.zero_add, List.take_left', parseUsize_digits all, parsed, behind, place]
  by_cases short : rest.length < size + 1
  · rw [if_pos short, if_pos (by rw [List.length_append, List.length_cons]; omega)]
  · rw [if_neg short, if_neg (by rw [List.length_append, List.length_cons]; omega)]

theorem plain_placed {src : List Byte} {frame : Frame} {end_ : Nat}
    (ok : parsePlain src = .ok (frame, end_)) :
    ∃ digits typeByte rest, Placed src frame end_ digits typeByte rest := by
  cases colon : findColon src 0 with
  | error e =>
    rw [parsePlain, colon] at ok
    cases ok
  | ok sizeEnd =>
    obtain ⟨digits, rest, rfl, _, all⟩ := findColon_spec src 0 colon
    cases parsed : parseDigits usizeEnd digits with
    | none =>
      rw [parsePlain, findColon_digits all] at ok
      simp only [Nat.zero_add, List.take_left', parseUsize_digits all, parsed] at ok
      cases ok
    | some size =>
      obtain ⟨filled, _, value, _⟩ := parseDigits_spec parsed
      rw [parsePlain_digits all parsed] at ok
      split at ok
      · cases ok
      · rename_i long
        have inside : size < rest.length := by omega
        rw [List.getElem?_eq_getElem inside, bind_some] at ok
        cases typed : typeOf rest[size] with
        | none =>
          rw [typed] at ok
          cases ok
        | some ftype =>
          rw [typed] at ok
          cases ok
          have length : (rest.take size).length = size := by
            rw [List.length_take]
            omega
          refine ⟨digits, rest[size], rest.drop (size + 1), ?_, ⟨filled, all, ?_⟩, typed, ?_⟩
          · rw [List.getElem_cons_drop, List.take_append_drop]
          · rw [length, value]
          · rw [length]

section
variable {src : List Byte} {frame : Frame} {end_ : Nat} {digits : List Byte} {typeByte : Byte}
  {rest : List Byte} (placed : Placed src frame end_ digits typeByte rest)
include placed

theorem placed_plain (small : frame.data.length < usizeEnd) :
    parsePlain src = .ok (frame, end_) := by
  obtain ⟨ftype, data⟩ := frame
  obtain ⟨rfl, ⟨filled, all, value⟩, typed, rfl⟩ := placed
  replace value : Decimal.value digits = data.length := value
  replace small : data.length < usizeEnd := small
  have parsed : parseDigits usizeEnd digits = some data.length := by
    rw [parseDigits, if_pos ⟨filled, all⟩, value, if_pos small]
  have long : ¬ (data ++ typeByte :: rest).length < data.length + 1 := by
    rw [List.length_append, List.length_cons]
    omega
  rw [parsePlain_digits all parsed, if_neg long, List.getElem?_append_right (Nat.le_refl _),
    Nat.sub_self, List.take_left' rfl]
  simp only [List.getElem?_cons_zero, bind_some, typed]

theorem Placed.end_le : 2 ≤ end_ ∧ end_ ≤ src.length := by
  obtain ⟨rfl, _, _, rfl⟩ := placed
  simp only [List.length_append, List.length_cons]
  omega

end

section
variable {α : Type}

def items (front : List Byte → Except ParseError (α × Nat)) : Nat → List Byte →
    List (Except ParseError α)
  | 0, _ => []
  | n + 1, src =>
    if src = [] then []
    else
      match front src with
      | .error e => [.error e]
      | .ok (a, k) => .ok a :: items front n (src.drop k)

def itemsFit (bad : List Byte → Bool) (front : List Byte → Except ParseError (α × Nat)) : Nat →
    List Byte → Bool
  | 0, _ => true
  | n + 1, src =>
    if src = [] then true
    else
      !bad src && match front src with
        | .error _ => true
        | .ok (_, k) => itemsFit bad front n (src.drop k)

def Consumes (front : List Byte → Except ParseError (α × Nat)) : Prop :=
  ∀ {src a k}, front src = .ok (a, k) → 0 < k ∧ k ≤ src.length

variable {ι : Type} {front : List Byte → Except ParseError (α × Nat)} {bad : List Byte → Bool}
  {next : ι → Option (Option (Except ParseError α) × ι)} {good : ι → Prop} {left : ι → List Byte}

structure Iterates (front : List Byte → Except ParseError (α × Nat)) (bad : List Byte → Bool)
    (next : ι → Option (Option (Except ParseError α) × ι)) (good : ι → Prop)
    (left : ι → List Byte) : Prop where
  ends : ∀ {it}, good it → left it = [] → next it = some (none, it)
  reads : ∀ {it a k}, good it → left it ≠ [] → bad (left it) = false →
    front (left it) = .ok (a, k) →
    ∃ it', next it = some (some (.ok a), it') ∧ good it' ∧ left it' = (left it).drop k
  stops : ∀ {it e}, good it → left it ≠ [] → bad (left it) = false → front (left it) = .error e →
    ∃ it', next it = some (some (.error e), it') ∧ good it' ∧ left it' = []

theorem drain_items (consumes : Consumes front) (iterates : Iterates front bad next good left)
    (n : Nat) {it : ι} (fine : good it) (enough : (left it).length ≤ n)
    (fits : itemsFit bad front n (left it) = true)
    {calls : Nat} (more : n + 2 ≤ calls) :
    drain next calls it = some (items front n (left it)) := by
  obtain ⟨calls, rfl⟩ := Nat.exists_eq_add_of_le more
  rw [show n + 2 + calls = n + 1 + calls + 1 by omega]
  induction n generalizing it with
  | zero =>
    have empty : left it = [] := List.length_eq_zero_iff.mp (by omega)
    simp only [drain, iterates.ends fine empty, bind_eq_bind, bind_some, items]
    rfl
  | succ n ih =>
    unfold itemsFit at fits
    unfold items
    by_cases empty : left it = []
    · simp only [drain, iterates.ends fine empty, bind_eq_bind, bind_some,
        if_pos empty]
      rfl
    · rw [if_neg empty] at fits ⊢
      simp only [Bool.and_eq_true, Bool.not_eq_true'] at fits
      obtain ⟨well, later⟩ := fits
      cases read : front (left it) with
      | error e =>
        obtain ⟨it', eq, fine', past⟩ := iterates.stops fine empty well read
        rw [show n + 1 + 1 + calls + 1 = n + 1 + calls + 1 + 1 by omega]
        simp only [drain, eq, iterates.ends fine' past, bind_eq_bind, bind_some]
        rfl
      | ok pair =>
        obtain ⟨a, k⟩ := pair
        obtain ⟨pos, inside⟩ := consumes read
        obtain ⟨it', eq, fine', rest⟩ := iterates.reads fine empty well read
        rw [read] at later
        have tail :=
          ih fine' (by rw [rest, List.length_drop]; omega) (by rw [rest]; exact later) (by omega)
        rw [show n + 1 + 1 + calls + 1 = n + 1 + calls + 1 + 1 by omega, drain, eq]
        simp only [bind_eq_bind, bind_some, tail, rest]
        rfl

theorem drain_panics (iterates : Iterates front bad next good left)
    (panics : ∀ {it}, good it → left it ≠ [] → bad (left it) = true → next it = none) (n : Nat)
    {it : ι}
    (fine : good it) (unfit : itemsFit bad front n (left it) = false) (calls : Nat) :
    drain next calls it = none := by
  induction n generalizing it calls with
  | zero => cases unfit
  | succ n ih =>
    cases calls with
    | zero => rfl
    | succ calls =>
      unfold itemsFit at unfit
      by_cases empty : left it = []
      · rw [if_pos empty] at unfit
        cases unfit
      · rw [if_neg empty, Bool.and_eq_false_iff] at unfit
        by_cases wrong : bad (left it) = true
        · simp only [drain, panics fine empty wrong, bind_eq_bind, bind_none]
        · have well : bad (left it) = false := by simpa using wrong
          rcases unfit with bad_now | later
          · rw [well] at bad_now
            cases bad_now
          · cases read : front (left it) with
            | error e =>
              rw [read] at later
              cases later
            | ok pair =>
              obtain ⟨a, k⟩ := pair
              rw [read] at later
              obtain ⟨it', eq, fine', rest⟩ := iterates.reads fine empty well read
              have tail := ih fine' (by rw [rest]; exact later) calls
              simp only [drain, eq, bind_eq_bind, bind_some, tail, bind_none]

end
end PushpinTnetstring
