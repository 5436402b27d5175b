import Pushpin.Foundations.JsonDocuments
import Pushpin.Foundations.Outcome
import Pushpin.Handler.Filters
import Pushpin.Handler.JsonPatch

namespace PushpinJsonPatch
open PushpinVariant PushpinJsonPointer JsonDocuments Results
open Option (bind_eq_bind bind_some map_none map_some)

section
variable (fromUtf8 : Bytes → String)

mutual

def denote : Variant → Json
  | .invalid => .null
  | .null => .null
  | .bool b => .bool b
  | .int n => .number n
  | .double q => .number q
  | .string s => .text s
  | .byteArray b => .text ((b.map fromUtf8).getD "")
  | .list items => .array (denoteItems items)
  | .map entries => .object (denoteEntries entries)
  | .hash entries => .object (denoteEntries entries)

@[grind =]
def denoteItems : List Variant → List Json
  | [] => []
  | v :: items => denote v :: denoteItems items

@[grind =]
def denoteEntries : List (String × Variant) → List (String × Json)
  | [] => []
  | (name, v) :: entries => (name, denote v) :: denoteEntries entries

end

def memberFits (part : List Char) : Bool := part ≠ [] && (decode part).isSome

/-- The code reads the part as an index of the list exactly if it is written as one. -/
def indexFits (length : Nat) (part : List Char) : Bool :=
  (List.range length).all fun n =>
    decide (parseInt (String.ofList (unescape part)) = some (n : Int)) == decide
      ((decode part).bind arrayIndex = some n)

def partFits (v : Variant) (part : List Char) : Bool :=
  match v with
  | .map _ | .hash _ => memberFits part
  | .list items => indexFits items.length part
  | _ => true

def addFits (v : Variant) (part : List Char) : Bool :=
  match v with
  | .map _ | .hash _ => memberFits part
  | .list items =>
    part = ['-'] ||
      ((List.range (items.length + 1)).all fun n => (decode part).bind arrayIndex ≠ some n) &&
      (List.range items.length).all fun n => parseInt (String.ofList (unescape part)) ≠
        some (n : Int)
  | _ => true

def partRef (v : Variant) (part : List Char) : Option Ref :=
  if part = [] then none else (childRef v (unescape part)).toOption

def walkFits (lastFits : Variant → List Char → Bool) (v : Variant) : List (List Char) → Bool
  | [] => true
  | [part] => lastFits v part
  | part :: next :: parts =>
    partFits v part &&
      match (partRef v part).bind (stepInto v) with
      | some child => walkFits lastFits child (next :: parts)
      | none => true

def pathFits (lastFits : Variant → List Char → Bool) (doc : Variant) (path : String) : Bool :=
  path ≠ "" && path ≠ "/" && (!startsWithSlash path || walkFits lastFits doc (partsOf path))

def numberOf : Variant → Option Rat
  | .int n => some n
  | .double q => some q
  | _ => none

/-- Scalars of one kind are in one form, and unequal scalars that are compared as
    integers are different integers. -/
def scalarsFit (a b : Variant) : Bool :=
  match a, b with
  | .string _, .string _ | .bool _, .bool _ | .invalid, .invalid => true
  | .invalid, .null | .null, .invalid | .null, .null => false
  | .byteArray _, .byteArray _ | .byteArray _, .string _ | .string _, .byteArray _ => false
  | .hash _, .hash _ | .hash _, .map _ | .map _, .hash _ => false
  | a, b =>
    !(a.canConvertInt && b.canConvertInt) || decide (a.toInt ≠ b.toInt) ||
      (numberOf a).isSome && decide (numberOf a = numberOf b)

mutual

def valuesFit : Variant → Variant → Bool
  | .map am, .map bm => entriesFit am bm
  | .list al, .list bl => itemsFit al bl
  | a, b => scalarsFit a b

def itemsFit : List Variant → List Variant → Bool
  | a :: al, b :: bl => valuesFit a b && itemsFit al bl
  | _, _ => true

def entriesFit : List (String × Variant) → List (String × Variant) → Bool
  | [], _ => true
  | (key, val) :: am, bm =>
    (match lookup bm key with
    | some other => valuesFit val other
    | none => true) && entriesFit am bm

end

theorem replacePair_of_ne {tilde digit by' c : Char} (other : c ≠ tilde) (rest : List Char) :
    replacePair tilde digit by' (c :: rest) = c :: replacePair tilde digit by' rest := by
  cases rest with
  | nil => rfl
  | cons d rest =>
    rw [replacePair, if_neg (fun both => other both.1)]

variable {part : List Char}

theorem unescape_of_decode {name : List Char} (decoded : decode part = some name) :
    unescape part = name := by
  unfold unescape
  induction part using decode.induct generalizing name with
  | case1 => simpa [decode, replacePair] using decoded
  | case2 => simp [decode] at decoded
  | case3 c other =>
    simp only [decode, if_neg other, Option.some.injEq] at decoded
    simpa [replacePair] using decoded
  | case4 rest ih =>
    simp only [decode, if_true, Option.map_eq_some_iff] at decoded
    obtain ⟨tail, decodedTail, rfl⟩ := decoded
    have first : replacePair '~' '1' '/' ('~' :: '0' :: rest) = '~' :: '0' :: replacePair '~' '1'
        '/' rest := by
      rw [replacePair, if_neg (by decide), replacePair_of_ne (by decide)]
    rw [first, replacePair, if_pos ⟨rfl, rfl⟩, ih decodedTail]
  | case5 rest _ ih =>
    simp only [decode, if_true] at decoded
    rw [if_neg (by decide), Option.map_eq_some_iff] at decoded
    obtain ⟨tail, decodedTail, rfl⟩ := decoded
    rw [replacePair, if_pos ⟨rfl, rfl⟩, replacePair_of_ne (by decide), ih decodedTail]
  | case6 d rest notZero notOne =>
    simp [decode, notZero, notOne] at decoded
  | case7 c d rest other ih =>
    simp only [decode, if_neg other, Option.map_eq_some_iff] at decoded
    obtain ⟨tail, decodedTail, rfl⟩ := decoded
    rw [replacePair_of_ne other, replacePair_of_ne other, ih decodedTail]

theorem replacePair_eq_dash {digit by' : Char} (other : by' ≠ '-')
    (same : replacePair '~' digit by' part = ['-']) : part = ['-'] := by
  match part with
  | [] => simp [replacePair] at same
  | [c] => simpa [replacePair] using same
  | c :: d :: rest =>
    rw [replacePair] at same
    split at same
    · simp [other] at same
    · have empty : replacePair '~' digit by' (d :: rest) = [] := (List.cons.inj same).2
      cases rest with
      | nil => simp [replacePair] at empty
      | cons e rest =>
        rw [replacePair] at empty
        split at empty <;> simp at empty

theorem unescape_eq_dash : unescape part = ['-'] ↔ part = ['-'] := by
  constructor
  · intro same
    exact replacePair_eq_dash (by decide) (replacePair_eq_dash (by decide) same)
  · rintro rfl
    rfl

theorem denoteItems_eq (items : List Variant) :
    denoteItems fromUtf8 items = items.map (denote fromUtf8) := by
  induction items with
  | nil => rfl
  | cons v items ih => rw [denoteItems, ih, List.map_cons]

theorem denoteEntries_eq (entries : List (String × Variant)) :
    denoteEntries fromUtf8 entries = entries.map fun e => (e.1, denote fromUtf8 e.2) := by
  induction entries with
  | nil => rfl
  | cons e entries ih => rw [denoteEntries, ih, List.map_cons]

theorem find_denote (entries : List (String × Variant)) (name : String) :
    find (denoteEntries fromUtf8 entries) name = (lookup entries name).map (denote fromUtf8) := by
  rw [denoteEntries_eq, find, lookup, List.find?_map, Option.map_map, Option.map_map]
  rfl

theorem put_denote (name : String) (v : Variant) (entries : List (String × Variant)) :
    put name (denote fromUtf8 v) (denoteEntries fromUtf8 entries) = denoteEntries fromUtf8
      (assign name v entries) := by
  induction entries with
  | nil => rfl
  | cons e entries ih =>
    rw [denoteEntries, put, assign]
    split
    · rw [denoteEntries]
    · rw [denoteEntries, ih]

theorem drop_denote (name : String) (entries : List (String × Variant)) :
    drop name (denoteEntries fromUtf8 entries) = denoteEntries fromUtf8 (discard name entries) := by
  rw [denoteEntries_eq, denoteEntries_eq, drop, PushpinVariant.discard, List.filter_map]
  rfl

@[simp] theorem denote_list (items : List Variant) :
    denote fromUtf8 (.list items) = .array (items.map (denote fromUtf8)) := by
  rw [denote, denoteItems_eq]

theorem indexFits_iff {length n : Nat} (fits : indexFits length part = true) (below : n < length) :
    parseInt (String.ofList (unescape part)) = some (n : Int) ↔
      (decode part).bind arrayIndex = some n := by
  have both := List.all_eq_true.mp fits n (List.mem_range.mpr below)
  simpa using both

theorem partRef_list (items : List Variant) (part : List Char) :
    (part = ['-'] ∧ partRef (.list items) part = some (.array (-1))) ∨
    (part ≠ ['-'] ∧ ∃ n : Nat, n < items.length ∧ parseInt (String.ofList (unescape part)) =
      some (n : Int) ∧ part ≠ [] ∧ partRef (.list items) part = some (.array n)) ∨
    (part ≠ ['-'] ∧ (part = [] ∨ ∀ n : Nat, n < items.length →
    parseInt (String.ofList (unescape part)) ≠ some (n : Int)) ∧
      partRef (.list items) part = none) := by
  by_cases empty : part = []
  · refine Or.inr (Or.inr ⟨?_, Or.inl empty, if_pos empty⟩)
    rw [empty]
    decide
  by_cases dash : part = ['-']
  · refine Or.inl ⟨dash, ?_⟩
    rw [dash]
    rfl
  have notDash : ¬ unescape part = ['-'] := fun same => dash (unescape_eq_dash.mp same)
  rw [partRef, if_neg empty, childRef, if_neg notDash]
  cases parsed : parseInt (String.ofList (unescape part)) with
  | none => exact Or.inr (Or.inr ⟨dash, Or.inr fun n _ => nofun, rfl⟩)
  | some index =>
    by_cases outside : index < 0 ∨ (items.length : Int) ≤ index
    · refine Or.inr (Or.inr ⟨dash, Or.inr ?_, ?_⟩)
      · rintro n below ⟨⟩
        omega
      · simp only [if_pos outside]
        rfl
    · obtain ⟨n, rfl⟩ := Int.eq_ofNat_of_zero_le (by omega : 0 ≤ index)
      refine Or.inr (Or.inl ⟨dash, n, by omega, rfl, empty, ?_⟩)
      simp only [if_neg outside]
      rfl

structure Place (v : Variant) (part : List Char) (ref : Ref) : Prop where
  fits : ref.fits v = true
  child : (stepInto v ref).map (denote fromUtf8) = (denote fromUtf8 v).child part
  found : existsFunc v ref = (stepInto v ref).isSome
  value : valueFunc v ref = (stepInto v ref).getD .invalid
  gone : (removed v ref).map (denote fromUtf8) = (denote fromUtf8 v).remove part
  removes : (removed v ref).isSome = (stepInto v ref).isSome
  changed : (stepInto v ref).isSome = true → ∀ x,
    (setValueFunc x v ref).1 = some (setChild v ref x) ∧
    denote fromUtf8 (setChild v ref x) = (denote fromUtf8 v).setChild part (denote fromUtf8 x)

structure NoPlace (v : Variant) (part : List Char) : Prop where
  child : (denote fromUtf8 v).child part = none
  gone : (denote fromUtf8 v).remove part = none

variable {v : Variant}

theorem place_member (keyed : v.isKeyedObject = true)
    (document : denote fromUtf8 v = .object (denoteEntries fromUtf8 v.entries)) {name : List Char}
    (decoded : decode part = some name) : Place fromUtf8 v part (.object (String.ofList name)) := by
  have documentSet : ∀ entries, denote fromUtf8 (setEntries entries v) = .object
      (denoteEntries fromUtf8 entries) := by
    intro entries
    cases v <;> rfl
  have child : (denote fromUtf8 v).child part = (lookup v.entries (String.ofList name)).map
      (denote fromUtf8) := by
    rw [document, Json.child, decoded, ← find_denote]
    rfl
  have gone : (removed v (.object (String.ofList name))).map (denote fromUtf8) =
      (denote fromUtf8 v).remove part := by
    rw [document, Json.remove, decoded, bind_eq_bind, bind_some]
    dsimp only [removed]
    rw [find_denote, Option.isSome_map]
    split
    · rw [map_some, documentSet, drop_denote]
    · rfl
  refine ⟨keyed, child.symm, rfl, rfl, gone, ?_, ?_⟩
  · dsimp only [removed, stepInto]
    cases lookup v.entries (String.ofList name) <;> rfl
  · intro _ x
    refine ⟨rfl, ?_⟩
    rw [document, setChild, documentSet]
    dsimp only [Json.setChild]
    rw [decoded, ← put_denote]

theorem place_index {items : List Variant} {n : Nat} (below : n < items.length)
    (index : (decode part).bind arrayIndex = some n) :
    Place fromUtf8 (.list items) part (.array n) := by
  have inside : inRange (.list items) n = true := by simp [inRange, PushpinJsonPointer.items, below]
  have step : stepInto (.list items) (.array n) = items[n]? := by
    simp [stepInto, PushpinJsonPointer.items, below]
  have present : items[n]?.isSome = true := by simp [below]
  refine ⟨rfl, ?_, ?_, ?_, ?_, ?_, ?_⟩
  · rw [step, denote_list, child_array, index, bind_some, List.getElem?_map]
  · rw [step, present]
    exact inside
  · rw [step, valueFunc, if_pos inside]
    rfl
  · rw [removed, if_pos inside, denote_list, remove_array, index, bind_some, List.length_map,
      if_pos below, map_some, denote_list, List.eraseIdx_map]
    rfl
  · rw [step, present, removed, if_pos inside]
    rfl
  · intro _ x
    have notEnd : (n : Int) ≠ -1 := by omega
    refine ⟨?_, ?_⟩
    · rw [setValueFunc, if_neg notEnd, if_pos inside]
      rfl
    · rw [denote_list, setChild_array _ index, setChild, denote_list, List.map_set]
      rfl

theorem place_end (items : List Variant) : Place fromUtf8 (.list items) ['-'] (.array (-1)) where
  fits := rfl
  child := by
    rw [denote_list, child_array]
    rfl
  found := rfl
  value := rfl
  gone := by
    rw [denote_list, remove_array]
    rfl
  removes := rfl
  changed := nofun

theorem noPlace_list {items : List Variant}
    (noIndex : ∀ n, n < items.length → (decode part).bind arrayIndex ≠ some n) :
    NoPlace fromUtf8 (.list items) part := by
  refine ⟨?_, ?_⟩
  · rw [denote_list, child_array]
    cases index : (decode part).bind arrayIndex with
    | none => rfl
    | some n =>
      have above : items.length ≤ n := not_lt.mp fun below => noIndex n below index
      rw [bind_some, List.getElem?_eq_none_iff, List.length_map]
      exact above
  · rw [denote_list, remove_array]
    cases index : (decode part).bind arrayIndex with
    | none => rfl
    | some n =>
      have outside : ¬ n < (items.map (denote fromUtf8)).length := by
        rw [List.length_map]
        exact fun below => noIndex n below index
      rw [bind_some, if_neg outside]

theorem noPlace_scalar (scalar : v.isKeyedObject = false ∧ ∀ items, v ≠ .list items)
    (part : List Char) :
    partRef v part = none ∧ NoPlace fromUtf8 v part ∧ ∀ x,
      (denote fromUtf8 v).add part x = none := by
  have noRef : partRef v part = none := by
    unfold partRef
    split
    · rfl
    · cases v with
      | map entries => cases scalar.1
      | hash entries => cases scalar.1
      | list items => exact (scalar.2 items rfl).elim
      | _ => rfl
  have none : ∀ name, decode part = some name → NoPlace fromUtf8 v part ∧ ∀ x,
      (denote fromUtf8 v).add part x = none := by
    intro name decoded
    cases v with
    | map entries => cases scalar.1
    | hash entries => cases scalar.1
    | list items => exact (scalar.2 items rfl).elim
    | _ =>
      refine ⟨⟨?_, ?_⟩, fun x => ?_⟩
      · rw [Json.child, decoded]
        rfl
      · rw [Json.remove, decoded]
        rfl
      · rw [Json.add, decoded]
        rfl
  refine ⟨noRef, ?_⟩
  cases decoded : decode part with
  | some name => exact none name decoded
  | none =>
    refine ⟨⟨?_, ?_⟩, fun x => ?_⟩
    · rw [Json.child, decoded]
      rfl
    · rw [Json.remove, decoded]
      rfl
    · rw [Json.add, decoded]
      rfl

theorem member_of_fits (keyed : v.isKeyedObject = true) (fits : memberFits part = true) :
    denote fromUtf8 v = .object (denoteEntries fromUtf8 v.entries) ∧
      ∃ name, decode part = some name ∧ partRef v part = some (.object (String.ofList name)) := by
  simp only [memberFits, Bool.and_eq_true, decide_eq_true_eq, Option.isSome_iff_exists] at fits
  obtain ⟨named, name, decoded⟩ := fits
  have ref : partRef v part = some (.object (String.ofList (unescape part))) := by
    rw [partRef, if_neg named]
    cases v <;> first | rfl | cases keyed
  rw [unescape_of_decode decoded] at ref
  refine ⟨?_, name, decoded, ref⟩
  cases v <;> first | rfl | cases keyed

theorem place_of_fits (fits : partFits v part = true) :
    (∃ ref, partRef v part = some ref ∧ Place fromUtf8 v part ref) ∨
      (partRef v part = none ∧ NoPlace fromUtf8 v part) := by
  by_cases keyed : v.isKeyedObject = true
  · have named : memberFits part = true := by
      cases v <;> first | exact fits | cases keyed
    obtain ⟨document, name, decoded, ref⟩ := member_of_fits fromUtf8 keyed named
    exact Or.inl ⟨_, ref, place_member fromUtf8 keyed document decoded⟩
  by_cases listed : ∃ items, v = .list items
  · obtain ⟨items, rfl⟩ := listed
    have index : indexFits items.length part = true := fits
    rcases partRef_list items part with ⟨rfl, ref⟩ | ⟨_, n, below, parsed, _, ref⟩ | ⟨_,
      nothing, ref⟩
    · exact Or.inl ⟨_, ref, place_end fromUtf8 items⟩
    · exact Or.inl ⟨_, ref, place_index fromUtf8 below ((indexFits_iff index below).mp parsed)⟩
    · refine Or.inr ⟨ref, noPlace_list fromUtf8 ?_⟩
      intro n below isIndex
      rcases nothing with rfl | other
      · cases isIndex
      · exact other n below ((indexFits_iff index below).mpr isIndex)
  · have scalar : v.isKeyedObject = false ∧ ∀ items, v ≠ .list items :=
      ⟨Bool.eq_false_iff.mpr keyed, fun items same => listed ⟨items, same⟩⟩
    obtain ⟨ref, noPlace, _⟩ := noPlace_scalar fromUtf8 scalar part
    exact Or.inr ⟨ref, noPlace⟩

structure Room (v : Variant) (part : List Char) (ref : Ref) : Prop where
  fits : ref.fits v = true
  added : ∀ x, ∃ next, (setValueFunc x v ref).1 = some next ∧
    (denote fromUtf8 v).add part (denote fromUtf8 x) = some (denote fromUtf8 next)

theorem room_of_fits (fits : addFits v part = true) :
    (∃ ref, partRef v part = some ref ∧ Room fromUtf8 v part ref) ∨
      (partRef v part = none ∧ ∀ x, (denote fromUtf8 v).add part x = none) := by
  by_cases keyed : v.isKeyedObject = true
  · have named : memberFits part = true := by
      cases v <;> first | exact fits | cases keyed
    obtain ⟨document, name, decoded, ref⟩ := member_of_fits fromUtf8 keyed named
    refine Or.inl ⟨_, ref, keyed, fun x => ⟨_, rfl, ?_⟩⟩
    rw [document, Json.add, decoded, bind_eq_bind, bind_some]
    dsimp only
    rw [put_denote]
    cases v <;> rfl
  by_cases listed : ∃ items, v = .list items
  · obtain ⟨items, rfl⟩ := listed
    by_cases dash : part = ['-']
    · have ref : partRef (.list items) part = some (.array (-1)) := by
        rw [dash]
        rfl
      refine Or.inl ⟨_, ref, rfl, fun x => ⟨.list (items ++ [x]), rfl, ?_⟩⟩
      rw [dash, denote_list, denote_list, List.map_append]
      rfl
    · simp only [addFits, dash, decide_false, Bool.false_or, Bool.and_eq_true, List.all_eq_true,
        List.mem_range, ne_eq, decide_not, Bool.not_eq_true', decide_eq_false_iff_not] at fits
      obtain ⟨noIndex, noParse⟩ := fits
      rcases partRef_list items part with ⟨isDash, _⟩ | ⟨_, n, below, parsed, _, _⟩ | ⟨_, _, ref⟩
      · exact (dash isDash).elim
      · exact (noParse n below parsed).elim
      · refine Or.inr ⟨ref, fun x => ?_⟩
        rw [denote_list, add_array_of_no_index dash fun n within => noIndex n ?_]
        rw [List.length_map] at within
        omega
  · have scalar : v.isKeyedObject = false ∧ ∀ items, v ≠ .list items :=
      ⟨Bool.eq_false_iff.mpr keyed, fun items same => listed ⟨items, same⟩⟩
    obtain ⟨ref, _, noRoom⟩ := noPlace_scalar fromUtf8 scalar part
    exact Or.inr ⟨ref, noRoom⟩

def refsOf (v : Variant) (parts : List (List Char)) : Option (List Ref) :=
  (resolveParts v none parts).toOption

theorem resolvePart_toOption (v : Variant) (prevRef : Option Ref) (part : List Char) :
    (resolvePart v prevRef part).toOption =
      (stepFrom v prevRef).toOption.bind fun v => (partRef v part).map (v, ·) := by
  unfold resolvePart partRef
  split
  · cases stepFrom v prevRef <;> rfl
  · cases stepFrom v prevRef with
    | error message => rfl
    | ok v =>
      change (childRef v (unescape part) >>= fun ref => pure (v, ref)).toOption =
        ((childRef v (unescape part)).toOption).map (v, ·)
      cases childRef v (unescape part) <;> rfl

theorem stepFrom_some (v : Variant) (ref : Ref) :
    (stepFrom v (some ref)).toOption = stepInto v ref := by
  rw [stepFrom]
  cases stepInto v ref <;> rfl

theorem resolveParts_some (v : Variant) (ref : Ref) (next : List Char) (parts : List (List Char)) :
    (resolveParts v (some ref) (next :: parts)).toOption =
      (stepInto v ref).bind fun child => refsOf child (next :: parts) := by
  rw [resolveParts, toOption_bind, resolvePart_toOption, stepFrom_some]
  cases stepInto v ref with
  | none => rfl
  | some child =>
    rw [bind_some, bind_some, refsOf, resolveParts, toOption_bind,
      resolvePart_toOption]
    rfl

theorem refsOf_eq (v : Variant) (part : List Char) (parts : List (List Char)) :
    refsOf v (part :: parts) =
      (partRef v part).bind fun ref => ((resolveParts v (some ref) parts).toOption).map
      (ref :: ·) := by
  rw [refsOf, resolveParts, toOption_bind, resolvePart_toOption]
  change ((partRef v part).map (v, ·)).bind _ = _
  cases partRef v part with
  | none => rfl
  | some ref =>
    change (resolveParts v (some ref) parts >>= fun refs => pure (ref :: refs)).toOption = _
    rw [toOption_bind, bind_some]
    cases resolveParts v (some ref) parts <;> rfl

theorem refsOf_one (v : Variant) (part : List Char) :
    refsOf v [part] = (partRef v part).map ([·]) := by
  rw [refsOf_eq]
  cases partRef v part <;> rfl

theorem refsOf_cons (v : Variant) (part next : List Char) (parts : List (List Char)) :
    refsOf v (part :: next :: parts) =
      (partRef v part).bind fun ref => (stepInto v ref).bind fun child =>
        (refsOf child (next :: parts)).map (ref :: ·) := by
  rw [refsOf_eq]
  refine congrArg (partRef v part).bind (funext fun ref => ?_)
  rw [resolveParts_some, Option.map_bind]
  rfl

/-- What a walk along references comes to: the value that holds the place and the
    reference there, and the document around it. -/
structure Reaches (v : Variant) (refs : List Ref) (holder : Variant) (last : Ref)
    (rebuild : Variant → Variant) : Prop where
  nonempty : refs ≠ []
  reads : ∀ {β : Type} (func : Variant → Ref → β),
    executeConst func refs v = some (func holder last)
  writes : ∀ {β : Type} (func : Variant → Ref → Option Variant × β),
    execute func refs v = some ((func holder last).1.map rebuild, (func holder last).2)

theorem reaches_one {ref : Ref} (fits : ref.fits v = true) : Reaches v [ref] v ref id := by
  refine ⟨by simp, fun func => ?_, fun func => ?_⟩
  · rw [executeConst, if_pos fits]
  · rw [execute, if_pos fits, Option.map_id]
    rfl

theorem Reaches.cons {v child holder : Variant} {ref last : Ref} {refs : List Ref}
    {rebuild : Variant → Variant} (step : stepInto v ref = some child)
    (reaches : Reaches child refs holder last rebuild) :
    Reaches v (ref :: refs) holder last fun x => setChild v ref (rebuild x) := by
  obtain ⟨nonempty, reads, writes⟩ := reaches
  obtain ⟨next, refs, rfl⟩ := List.exists_cons_of_ne_nil nonempty
  refine ⟨by simp, fun func => ?_, fun func => ?_⟩
  · rw [executeConst, step, bind_eq_bind, bind_some, reads]
  · rw [execute, step, bind_eq_bind, bind_some, writes, bind_eq_bind,
      bind_some]
    dsimp only
    rw [Option.map_map]
    rfl

/-- The walk of the code and the walk in the document end at the same place, or the
    code's fails where the other does. The last part is still to be looked up. -/
theorem walk_spec {lastFits : Variant → List Char → Bool} (parts : List (List Char))
    (some_ : parts ≠ []) (fits : walkFits lastFits v parts = true) :
    ((denote fromUtf8 v).site parts = none ∧ refsOf v parts = none) ∨
    ∃ holder last rebuild jsonRebuild,
      (denote fromUtf8 v).site parts = some (denote fromUtf8 holder, last, jsonRebuild) ∧ (∀ x,
      denote fromUtf8 (rebuild x) = jsonRebuild (denote fromUtf8 x)) ∧ lastFits holder last = true ∧
      (partRef holder last = none → refsOf v parts = none) ∧
      ∀ ref, partRef holder last = some ref → ref.fits holder = true →
        ∃ refs, refsOf v parts = some refs ∧ Reaches v refs holder ref rebuild := by
  induction parts generalizing v with
  | nil => exact (some_ rfl).elim
  | cons part parts ih =>
    cases parts with
    | nil =>
      refine Or.inr ⟨v, part, id, id, rfl, fun x => rfl, fits, ?_, ?_⟩
      · intro nothing
        rw [refsOf_one, nothing]
        rfl
      · intro ref found fit
        exact ⟨[ref], by rw [refsOf_one, found]; rfl, reaches_one fit⟩
    | cons next parts =>
      rw [walkFits, Bool.and_eq_true] at fits
      obtain ⟨partFit, onward⟩ := fits
      rcases place_of_fits fromUtf8 partFit with ⟨ref, found, place⟩ | ⟨nothing, noPlace⟩
      · rw [found, bind_some] at onward
        rw [refsOf_cons, found, bind_some, Json.site, ← place.child]
        cases step : stepInto v ref with
        | none => exact Or.inl ⟨rfl, rfl⟩
        | some child =>
          rw [step] at onward
          have changed := place.changed (by rw [step]; rfl)
          rw [map_some, bind_eq_bind, bind_some, bind_some]
          rcases ih (by simp) onward with ⟨noSite, noRefs⟩ | ⟨holder, last, rebuild, jsonRebuild,
            site, rebuilt, lastFit, absent, present⟩
          · rw [noSite, noRefs]
            exact Or.inl ⟨rfl, rfl⟩
          · rw [site]
            refine Or.inr ⟨holder, last, fun x => setChild v ref (rebuild x), _, rfl, ?_, lastFit,
              ?_, ?_⟩
            · intro x
              rw [(changed (rebuild x)).2, rebuilt]
            · intro nothing
              rw [absent nothing]
              rfl
            · intro lastRef foundLast fit
              obtain ⟨refs, resolved, reaches⟩ := present lastRef foundLast fit
              exact ⟨ref :: refs, by rw [resolved]; rfl, reaches.cons step⟩
      · rw [refsOf_cons, nothing, Json.site, noPlace.child]
        exact Or.inl ⟨rfl, rfl⟩

variable {path : String}

theorem pointer_of_slash (slash : startsWithSlash path = true) :
    pointer path = some (partsOf path) := by
  simp only [startsWithSlash, decide_eq_true_eq] at slash
  unfold pointer partsOf
  obtain ⟨c, rest, chars⟩ : ∃ c rest, path.toList = c :: rest := by
    cases chars : path.toList with
    | nil => rw [chars] at slash; cases slash
    | cons c rest => exact ⟨c, rest, rfl⟩
  rw [chars] at slash ⊢
  have isSlash : c = '/' := Option.some.inj slash
  simp [isSlash, List.splitOn_cons_eq_if_modifyHead]

theorem pointer_of_no_slash (text : path ≠ "") (slash : startsWithSlash path = false) :
    pointer path = none := by
  simp only [startsWithSlash, decide_eq_false_iff_not] at slash
  unfold pointer
  cases chars : path.toList with
  | nil => exact (text (String.toList_eq_nil_iff.mp chars)).elim
  | cons c rest =>
    have other : c ≠ '/' := fun same => slash (by rw [chars, same]; rfl)
    simp only [if_neg other]

theorem partsOf_ne_nil (slash : startsWithSlash path = true) : partsOf path ≠ [] := by
  have tokens := pointer_of_slash slash
  unfold pointer at tokens
  split at tokens
  · rename_i empty
    simp [startsWithSlash, empty] at slash
  · split at tokens
    · rw [← Option.some.inj tokens]
      exact List.splitOn_ne_nil _ _
    · cases tokens

variable {doc : Variant}

theorem path_cases {lastFits : Variant → List Char → Bool}
    (fits : pathFits lastFits doc path = true) :
    (pointer path = none ∧ (resolve doc path).toOption = none) ∨
    (pointer path = some (partsOf path) ∧ (resolve doc path).toOption = refsOf doc (partsOf path) ∧
      partsOf path ≠ [] ∧ walkFits lastFits doc (partsOf path) = true) := by
  simp only [pathFits, Bool.and_eq_true, Bool.or_eq_true, decide_eq_true_eq, Bool.not_eq_true',
    ne_eq] at fits
  obtain ⟨⟨text, notRoot⟩, walk⟩ := fits
  by_cases slash : startsWithSlash path = true
  · have long : ¬ path.toList.length = 1 := by
      intro short
      obtain ⟨c, chars⟩ := List.length_eq_one_iff.mp short
      have isSlash : c = '/' := by simpa [startsWithSlash, chars] using slash
      exact notRoot (String.toList_inj.mp (by rw [chars, isSlash]; rfl))
    refine Or.inr ⟨pointer_of_slash slash, ?_, partsOf_ne_nil slash,
      walk.resolve_left (by simp [slash])⟩
    rw [resolve, if_pos slash, if_neg long]
    rfl
  · refine Or.inl ⟨pointer_of_no_slash text (Bool.eq_false_iff.mpr slash), ?_⟩
    rw [resolve, if_neg slash]
    rfl

structure Missing (doc : Variant) (path : String) : Prop where
  value : (pointer path).bind (denote fromUtf8 doc).valueAt = none
  removed : (pointer path).bind (denote fromUtf8 doc).removeAt = none
  replaced : ∀ x, ((pointer path).bind fun ts => (denote fromUtf8 doc).replaceAt ts x) = none

structure Present (doc : Variant) (path : String) (refs : List Ref) (value without : Variant) :
    Prop where
  resolved : resolve doc path = .ok refs
  found : pointerExists doc refs = true
  reads : pointerValue doc refs = value
  removes : pointerRemove doc refs = (without, true)
  takes : pointerTake doc refs = (without, value)
  document : (pointer path).bind (denote fromUtf8 doc).valueAt = some (denote fromUtf8 value)
  removed : (pointer path).bind (denote fromUtf8 doc).removeAt = some (denote fromUtf8 without)
  replaced : ∀ x,
    ((pointer path).bind fun ts => (denote fromUtf8 doc).replaceAt ts (denote fromUtf8 x)) =
    some (denote fromUtf8 (pointerSetValue doc refs x).1)

theorem missing_of_pointer (malformed : pointer path = none) : Missing fromUtf8 doc path := by
  refine ⟨?_, ?_, fun x => ?_⟩
  all_goals
    rw [malformed]
    rfl

theorem missing_of_site {parts : List (List Char)} (tokens : pointer path = some parts)
    (noSite : (denote fromUtf8 doc).site parts = none) : Missing fromUtf8 doc path := by
  refine ⟨?_, ?_, fun x => ?_⟩
  · rw [tokens, bind_some, Json.valueAt, noSite]
    rfl
  · rw [tokens, bind_some, Json.removeAt, noSite]
    rfl
  · rw [tokens, bind_some, Json.replaceAt, noSite]
    rfl

theorem missing_of_child {parts : List (List Char)} {holder : Json} {last : Token}
    {rebuild : Json → Json} (tokens : pointer path = some parts)
    (site : (denote fromUtf8 doc).site parts = some (holder, last, rebuild))
    (noChild : holder.child last = none)
    (noRemoval : holder.remove last = none) : Missing fromUtf8 doc path := by
  refine ⟨?_, ?_, fun x => ?_⟩
  · rw [tokens, bind_some, Json.valueAt, site]
    exact noChild
  · rw [tokens, bind_some, Json.removeAt, site, bind_eq_bind, bind_some]
    dsimp only
    rw [noRemoval]
    rfl
  · rw [tokens, bind_some, Json.replaceAt, site, bind_eq_bind, bind_some]
    dsimp only
    rw [Json.replace, noChild]
    rfl

theorem existing_spec (fits : pathFits partFits doc path = true) :
    ((resolve doc path).toOption = none ∧ Missing fromUtf8 doc path) ∨
    (∃ refs, resolve doc path = .ok refs ∧ pointerExists doc refs = false ∧
      pointerValue doc refs = .invalid ∧ Missing fromUtf8 doc path) ∨
    ∃ refs value without, Present fromUtf8 doc path refs value without := by
  rcases path_cases fits with ⟨malformed, failed⟩ | ⟨tokens, resolved, nonempty, walk⟩
  · exact Or.inl ⟨failed, missing_of_pointer fromUtf8 malformed⟩
  rw [resolved]
  rcases walk_spec fromUtf8 _ nonempty walk with
    ⟨noSite, noRefs⟩ | ⟨holder, last, rebuild, jsonRebuild, site, rebuilt, lastFit, absent, present⟩
  · exact Or.inl ⟨noRefs, missing_of_site fromUtf8 tokens noSite⟩
  rcases place_of_fits fromUtf8 lastFit with ⟨ref, found, place⟩ | ⟨nothing, noPlace⟩
  · obtain ⟨refs, ofParts, reaches⟩ := present ref found place.fits
    have ok : resolve doc path = .ok refs := ok_of_toOption (resolved.trans ofParts)
    have exist : pointerExists doc refs = (stepInto holder ref).isSome := by
      rw [pointerExists, reaches.reads, place.found]
      rfl
    have value : pointerValue doc refs = (stepInto holder ref).getD .invalid := by
      rw [pointerValue, reaches.reads, place.value]
      rfl
    cases step : stepInto holder ref with
    | none =>
      rw [step] at exist value
      have noChild : (denote fromUtf8 holder).child last = none := by
        rw [← place.child, step]
        rfl
      have noRemoval : (denote fromUtf8 holder).remove last = none := by
        have isNone : removed holder ref = none := by
          have := place.removes
          rw [step] at this
          exact Option.isNone_iff_eq_none.mp (by simpa using this)
        rw [← place.gone, isNone]
        rfl
      exact Or.inr
        (Or.inl ⟨refs, ok, exist, value, missing_of_child fromUtf8 tokens site noChild noRemoval⟩)
    | some child =>
      rw [step] at exist value
      obtain ⟨less, removes⟩ : ∃ less, removed holder ref = some less := by
        have := place.removes
        rw [step] at this
        exact Option.isSome_iff_exists.mp this
      have changed := place.changed (by rw [step]; rfl)
      have childFound : (denote fromUtf8 holder).child last = some (denote fromUtf8 child) := by
        rw [← place.child, step]
        rfl
      refine Or.inr (Or.inr ⟨refs, child, rebuild less, ok, exist, value, ?_, ?_, ?_, ?_,
        fun x => ?_⟩)
      · rw [pointerRemove, reaches.writes, removeFunc, removes]
        rfl
      · rw [pointerTake, reaches.writes, takeFunc, removes, place.value, step]
        rfl
      · rw [tokens, bind_some, Json.valueAt, site]
        exact childFound
      · rw [tokens, bind_some, Json.removeAt, site, bind_eq_bind, bind_some]
        dsimp only
        rw [← place.gone, removes, map_some, map_some, rebuilt]
      · rw [tokens, bind_some, Json.replaceAt, site, bind_eq_bind, bind_some]
        dsimp only
        rw [Json.replace, childFound, map_some, map_some, pointerSetValue,
          reaches.writes, (changed x).1, ← (changed x).2, ← rebuilt]
        rfl
  · exact Or.inl ⟨absent nothing, missing_of_child fromUtf8 tokens site noPlace.child noPlace.gone⟩

theorem adding_spec (fits : pathFits addFits doc path = true) :
    ((resolve doc path).toOption = none ∧ ∀ x,
    ((pointer path).bind fun ts => (denote fromUtf8 doc).addAt ts x) = none) ∨
    ∃ refs, resolve doc path = .ok refs ∧ ∀ x,
      ((pointer path).bind fun ts => (denote fromUtf8 doc).addAt ts (denote fromUtf8 x)) =
        some (denote fromUtf8 (pointerSetValue doc refs x).1) := by
  rcases path_cases fits with ⟨malformed, failed⟩ | ⟨tokens, resolved, nonempty, walk⟩
  · exact Or.inl ⟨failed, fun x => by rw [malformed]; rfl⟩
  rw [tokens]
  rcases walk_spec fromUtf8 _ nonempty walk with
    ⟨noSite, noRefs⟩ | ⟨holder, last, rebuild, jsonRebuild, site, rebuilt, lastFit, absent, present⟩
  · exact Or.inl ⟨resolved.trans noRefs, fun x => by rw [bind_some, Json.addAt, noSite]; rfl⟩
  rcases room_of_fits fromUtf8 lastFit with ⟨ref, found, room⟩ | ⟨nothing, noRoom⟩
  · obtain ⟨refs, ofParts, reaches⟩ := present ref found room.fits
    refine Or.inr ⟨refs, ok_of_toOption (resolved.trans ofParts), fun x => ?_⟩
    obtain ⟨next, set, added⟩ := room.added x
    rw [bind_some, Json.addAt, site, bind_eq_bind, bind_some]
    dsimp only
    rw [added, map_some, pointerSetValue, reaches.writes, set, ← rebuilt]
    rfl
  · refine Or.inl ⟨resolved.trans (absent nothing), fun x => ?_⟩
    rw [bind_some, Json.addAt, site, bind_eq_bind, bind_some]
    dsimp only
    rw [noRoom]
    rfl

mutual

theorem denote_convert (v : Variant) :
    denote fromUtf8 (convertToJsonStyle fromUtf8 v) = denote fromUtf8 v := by
  cases v with
  | list items => rw [convertToJsonStyle, denote, denote, denoteItems_convert items]
  | hash entries => rw [convertToJsonStyle, denote, denote, denoteEntries_convert entries]
  | _ => rfl

theorem denoteItems_convert (items : List Variant) :
    denoteItems fromUtf8 (convertItems fromUtf8 items) = denoteItems fromUtf8 items := by
  cases items with
  | nil => rfl
  | cons v items =>
      rw [convertItems, denoteItems, denoteItems, denote_convert v, denoteItems_convert items]

theorem denoteEntries_convert (entries : List (String × Variant)) :
    denoteEntries fromUtf8 (convertEntries fromUtf8 entries) = denoteEntries fromUtf8 entries := by
  match entries with
  | [] => rfl
  | (name, v) :: entries =>
    rw [convertEntries, denoteEntries, denoteEntries, denote_convert v,
      denoteEntries_convert entries]

end

theorem qRound_int (n : Int) : qRound (n : Rat) = n := by
  unfold qRound
  split
  · rw [Int.floor_eq_iff]
    constructor
    · linarith
    · linarith
  · rw [neg_eq_iff_eq_neg, Int.floor_eq_iff]
    push_cast
    constructor
    · linarith
    · linarith

variable {a b : Variant}

theorem toInt_of_numbers {q : Rat} (aNumber : numberOf a = some q) (bNumber : numberOf b = some q) :
    a.toInt = b.toInt := by
  have rounded : ∀ v : Variant, numberOf v = some q →
      v.toInt = toInt32 (toLongLong (qRound q)) := by
    intro v number
    cases v with
    | int n =>
      have same : (n : Rat) = q := Option.some.inj number
      rw [← same, qRound_int]
      rfl
    | double r =>
      have same : r = q := Option.some.inj number
      rw [← same]
      rfl
    | _ => cases number
  rw [rounded a aNumber, rounded b bNumber]

theorem same_of_numbers {q r : Rat} (aNumber : numberOf a = some q)
    (bNumber : numberOf b = some r) : (denote fromUtf8 a).same (denote fromUtf8 b) = (q == r) := by
  have document : ∀ (v : Variant) (q : Rat), numberOf v = some q →
      denote fromUtf8 v = .number q := by
    intro v q number
    cases v <;> first | exact congrArg Json.number (Option.some.inj number) | cases number
  rw [document a q aNumber, document b r bNumber]
  rfl

theorem canConvertInt_of_number {q : Rat} (number : numberOf v = some q) :
    v.canConvertInt = true := by
  cases v <;> first | rfl | cases number

theorem compareScalars_as_ints
    (compared : compareScalars a b =
      if a.canConvertInt && b.canConvertInt then a.toInt == b.toInt else false)
    (fits : (!(a.canConvertInt && b.canConvertInt) || decide (a.toInt ≠ b.toInt) ||
      (numberOf a).isSome && decide (numberOf a = numberOf b)) = true)
    (different : numberOf a = none ∨ numberOf b = none →
    (denote fromUtf8 a).same (denote fromUtf8 b) = false) :
    compareScalars a b = (denote fromUtf8 a).same (denote fromUtf8 b) := by
  rw [compared]
  cases aNumber : numberOf a with
  | none =>
    rw [different (Or.inl aNumber)]
    rw [aNumber] at fits
    split
    · rename_i both
      simpa [both] using fits
    · rfl
  | some q =>
    cases bNumber : numberOf b with
    | none =>
      rw [different (Or.inr bNumber)]
      rw [aNumber, bNumber] at fits
      split
      · rename_i both
        simpa [both] using fits
      · rfl
    | some r =>
      have both : (a.canConvertInt && b.canConvertInt) = true := by
        rw [canConvertInt_of_number aNumber, canConvertInt_of_number bNumber]
        rfl
      rw [if_pos both, same_of_numbers fromUtf8 aNumber bNumber]
      by_cases equal : q = r
      · have ints := toInt_of_numbers aNumber (equal ▸ bNumber)
        rw [ints, equal, beq_self_eq_true, beq_self_eq_true]
      · have ints : a.toInt ≠ b.toInt := by
          simpa [both, aNumber, bNumber, equal] using fits
        rw [beq_eq_false_iff_ne.mpr ints, beq_eq_false_iff_ne.mpr equal]

theorem compareScalars_of_fits (fits : scalarsFit a b = true)
    (notMaps : ∀ am bm, ¬ (a = .map am ∧ b = .map bm))
    (notLists : ∀ al bl, ¬ (a = .list al ∧ b = .list bl)) :
    compareScalars a b = (denote fromUtf8 a).same (denote fromUtf8 b) := by
  cases a <;> cases b <;> first
    | exact (notMaps _ _ ⟨rfl, rfl⟩).elim
    | exact (notLists _ _ ⟨rfl, rfl⟩).elim
    | exact compareScalars_as_ints fromUtf8 rfl fits fun _ => rfl
    | exact compareScalars_as_ints fromUtf8 rfl fits
        fun other => by rcases other with other | other <;> cases other
    | rfl
    | cases fits

theorem compareStyled_scalar (fits : valuesFit a b = true)
    (notMaps : ∀ am bm, ¬ (a = .map am ∧ b = .map bm))
    (notLists : ∀ al bl, ¬ (a = .list al ∧ b = .list bl)) :
    compareStyled a b = (denote fromUtf8 a).same (denote fromUtf8 b) := by
  have maps : ∀ am bm, a = .map am → b = .map bm → False :=
    fun am bm ofA ofB => notMaps am bm ⟨ofA, ofB⟩
  have lists : ∀ al bl, a = .list al → b = .list bl → False :=
    fun al bl ofA ofB => notLists al bl ⟨ofA, ofB⟩
  rw [valuesFit.eq_3 a b maps lists] at fits
  rw [compareStyled.eq_3 a b maps lists, compareScalars_of_fits fromUtf8 fits notMaps notLists]

theorem denoteItems_length (items : List Variant) :
    (denoteItems fromUtf8 items).length = items.length := by
  rw [denoteItems_eq, List.length_map]

theorem denoteEntries_length (entries : List (String × Variant)) :
    (denoteEntries fromUtf8 entries).length = entries.length := by
  rw [denoteEntries_eq, List.length_map]

theorem sameItems_of_length {as bs : List Json} (different : as.length ≠ bs.length) :
    Json.sameItems as bs = false := by
  induction as generalizing bs with
  | nil =>
    cases bs with
    | nil => exact (different rfl).elim
    | cons b bs => rfl
  | cons a as ih =>
    cases bs with
    | nil => rfl
    | cons b bs =>
      rw [Json.sameItems, ih (fun same => different (by simp [same])), Bool.and_false]

mutual

theorem compareStyled_of_fits (a b : Variant) (fits : valuesFit a b = true) :
    compareStyled a b = (denote fromUtf8 a).same (denote fromUtf8 b) := by
  cases a with
  | map am =>
    cases b with
    | map bm =>
      rw [valuesFit] at fits
      rw [compareStyled, denote, denote, Json.same, denoteEntries_length, denoteEntries_length,
        compareEntries_of_fits am bm fits]
    | _ =>
        exact compareStyled_scalar fromUtf8 fits (by rintro _ _ ⟨⟨⟩, ⟨⟩⟩) (by rintro _ _ ⟨⟨⟩, ⟨⟩⟩)
  | list al =>
    cases b with
    | list bl =>
      rw [valuesFit] at fits
      rw [compareStyled, denote, denote, Json.same]
      by_cases same : al.length = bl.length
      · rw [compareItems_of_fits al bl same fits, same, beq_self_eq_true, Bool.true_and]
      · have different : (denoteItems fromUtf8 al).length ≠ (denoteItems fromUtf8 bl).length := by
          rw [denoteItems_length, denoteItems_length]
          exact same
        rw [sameItems_of_length different, beq_eq_false_iff_ne.mpr same, Bool.false_and]
    | _ =>
        exact compareStyled_scalar fromUtf8 fits (by rintro _ _ ⟨⟨⟩, ⟨⟩⟩) (by rintro _ _ ⟨⟨⟩, ⟨⟩⟩)
  | _ => exact compareStyled_scalar fromUtf8 fits (by rintro _ _ ⟨⟨⟩, ⟨⟩⟩) (by rintro _ _ ⟨⟨⟩, ⟨⟩⟩)

theorem compareItems_of_fits (al bl : List Variant) (same : al.length = bl.length)
    (fits : itemsFit al bl = true) :
    compareItems al bl = Json.sameItems (denoteItems fromUtf8 al) (denoteItems fromUtf8 bl) := by
  match al, bl with
  | [], [] => rfl
  | [], _ :: _ => cases same
  | _ :: _, [] => cases same
  | a :: al, b :: bl =>
    rw [itemsFit, Bool.and_eq_true] at fits
    rw [compareItems, denoteItems, denoteItems, Json.sameItems, compareStyled_of_fits a b fits.1,
      compareItems_of_fits al bl (Nat.succ.inj same) fits.2]

theorem compareEntries_of_fits (am bm : List (String × Variant)) (fits : entriesFit am bm = true) :
    compareEntries am bm = Json.sameMembers (denoteEntries fromUtf8 am)
      (denoteEntries fromUtf8 bm) := by
  match am with
  | [] => rfl
  | (key, val) :: am =>
    rw [entriesFit, Bool.and_eq_true] at fits
    rw [compareEntries, denoteEntries, Json.sameMembers, find_denote,
      compareEntries_of_fits am bm fits.2]
    cases found : lookup bm key with
    | none => rfl
    | some other =>
      rw [found] at fits
      rw [map_some]
      dsimp only
      rw [compareStyled_of_fits val other fits.1]

end

variable {vop : Variant}

theorem getValue_toOption (vop : Variant) :
    (getValue vop).toOption = lookup vop.entries "value" := by
  unfold getValue Variant.keyedObjectContains Variant.keyedObjectGetValue
  cases lookup vop.entries "value" <;> rfl

theorem failing_toOption {α : Type} (x : Except String α) : (failing x).toOption = x.toOption := by
  cases x <;> rfl

variable {value : Variant}

theorem add_spec (fits : pathFits addFits doc path = true)
    (read : lookup vop.entries "value" = some value) :
    ((failing (resolve doc path) >>= fun ptr => add doc vop ptr).toOption).map (denote fromUtf8) =
      (pointer path).bind fun ts => (denote fromUtf8 doc).addAt ts (denote fromUtf8 value) := by
  have got : getValue vop = .ok value := ok_of_toOption (by rw [getValue_toOption, read])
  rw [toOption_bind, failing_toOption]
  rcases adding_spec fromUtf8 fits with ⟨failed, none⟩ | ⟨refs, resolved, added⟩
  · rw [failed, none]
    rfl
  · rw [resolved, added]
    change ((add doc vop refs).toOption).map _ = _
    rw [add, got]
    rfl

theorem remove_spec (fits : pathFits partFits doc path = true) :
    ((failing (resolve doc path) >>= fun ptr => remove doc ptr).toOption).map (denote fromUtf8) =
      (pointer path).bind (denote fromUtf8 doc).removeAt := by
  rw [toOption_bind, failing_toOption]
  rcases existing_spec fromUtf8 fits with
    ⟨failed, missing⟩ | ⟨refs, resolved, found, _, missing⟩ | ⟨refs, value, without, present⟩
  · rw [failed, missing.removed]
    rfl
  · rw [resolved, missing.removed]
    change ((remove doc refs).toOption).map _ = none
    rw [remove, found]
    rfl
  · rw [present.resolved, present.removed]
    change ((remove doc refs).toOption).map _ = _
    rw [remove, present.found, present.removes]
    rfl

variable {source : String}

theorem resolveExisting_spec (fits : pathFits partFits doc source = true) :
    ((resolveExisting doc source).toOption = none ∧ Missing fromUtf8 doc source) ∨
    ∃ refs value without, resolveExisting doc source = .ok refs ∧
      Present fromUtf8 doc source refs value without := by
  rcases existing_spec fromUtf8 fits with
    ⟨failed, missing⟩ | ⟨refs, resolved, found, _, missing⟩ | ⟨refs, value, without, present⟩
  · refine Or.inl ⟨?_, missing⟩
    rw [resolveExisting, toOption_bind, failing_toOption, failed]
    rfl
  · refine Or.inl ⟨?_, missing⟩
    rw [resolveExisting, resolved, failing]
    change (if pointerExists doc refs = true then _ else _ : Except (Option String)
      (List Ref)).toOption = none
    rw [found]
    rfl
  · refine Or.inr ⟨refs, value, without, ?_, present⟩
    rw [resolveExisting, present.resolved, failing]
    change (if pointerExists doc refs = true then _ else _ : Except (Option String) (List Ref)) = _
    rw [present.found]
    rfl

theorem copy_spec (sourceFits : pathFits partFits doc source = true)
    (pathFit : pathFits addFits doc path = true)
    (read : (getText fromUtf8 vop "from").toOption = some source) :
    ((failing (resolve doc path) >>= fun _ => copy fromUtf8 doc vop path).toOption).map
      (denote fromUtf8) = (Operation.copy source path).apply (denote fromUtf8 doc) := by
  have got := ok_of_toOption read
  have left : (failing (resolve doc path) >>= fun _ => copy fromUtf8 doc vop path).toOption =
      (resolveExisting doc source).toOption.bind fun fromPtr =>
        (resolve doc path).toOption.map fun ptr =>
          (pointerSetValue doc ptr (pointerValue doc fromPtr)).1 := by
    rw [copy, got]
    cases resolve doc path with
    | error message => cases resolveExisting doc source <;> rfl
    | ok ptr =>
      change (resolveExisting doc source >>= fun fromPtr =>
        (pure (pointerSetValue doc ptr (pointerValue doc fromPtr)).1 : Except
          (Option String) Variant)).toOption = _
      rw [toOption_bind]
      rfl
  rw [left, Operation.apply]
  rcases resolveExisting_spec fromUtf8 sourceFits with ⟨failed, missing⟩ | ⟨refs, value, without,
    found, present⟩
  · have noValue := missing.value
    rw [failed]
    cases tokens : pointer source with
    | none => rfl
    | some s =>
      rw [tokens, bind_some] at noValue
      simp only [bind_eq_bind, bind_some, noValue, Option.bind_none, map_none]
  · obtain ⟨s, tokens, valueAt⟩ := Option.bind_eq_some_iff.mp present.document
    rw [found, tokens, bind_eq_bind, bind_some, valueAt, bind_eq_bind,
      bind_some]
    change ((resolve doc path).toOption.map fun ptr =>
      (pointerSetValue doc ptr (pointerValue doc refs)).1).map _ = _
    rw [present.reads]
    rcases adding_spec fromUtf8 pathFit with ⟨failed, none⟩ | ⟨ptr, resolved, added⟩
    · rw [failed, none]
      rfl
    · rw [resolved, added]
      rfl

end

end PushpinJsonPatch
