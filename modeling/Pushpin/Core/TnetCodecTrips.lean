import Pushpin.Core.TnetCodec

namespace PushpinTnetCodec
open PushpinRingBuffer PushpinTnetstring Text

mutual
def treeValue : Tree → Value
  | .null => .null
  | .bool b => .bool b
  | .int x => .int x
  | .string s => .byteArray s
  | .array items => .list (itemsValue items)
  | .map entries => .hash (entriesValue entries)
def itemsValue : List Tree → List Value
  | [] => []
  | t :: items => treeValue t :: itemsValue items
def entriesValue : List (List Byte × Tree) → List (List Byte × Value)
  | [] => []
  | (key, t) :: entries => (key, treeValue t) :: entriesValue entries
end

mutual
def distinctKeys : Tree → Prop
  | .null => True
  | .bool _ => True
  | .int _ => True
  | .string _ => True
  | .array items => itemsDistinct items
  | .map entries => (entries.map Prod.fst).Nodup ∧ entriesDistinct entries
def itemsDistinct : List Tree → Prop
  | [] => True
  | t :: items => distinctKeys t ∧ itemsDistinct items
def entriesDistinct : List (List Byte × Tree) → Prop
  | [] => True
  | (_, t) :: entries => distinctKeys t ∧ entriesDistinct entries
end

def mark : List Byte := [0xef, 0xbb, 0xbf]

/-- Text without a byte order mark in front, which `QString::fromUtf8` drops. -/
def isPlain (key : List Byte) : Bool := isUtf8 key && !mark.isPrefixOf key

section
variable (ok : List Byte → Bool)

mutual
def keysHold : Tree → Bool
  | .array items => itemsHold items
  | .map entries => entriesHold entries
  | _ => true
def itemsHold : List Tree → Bool
  | [] => true
  | t :: items => keysHold t && itemsHold items
def entriesHold : List (List Byte × Tree) → Bool
  | [] => true
  | (key, t) :: entries => ok key && (keysHold t && entriesHold entries)
end

end

section
variable {ok ok' : List Byte → Bool}

mutual
theorem keysHold_mono (more : ∀ key, ok key = true → ok' key = true) (t : Tree)
    (hold : keysHold ok t = true) : keysHold ok' t = true := by
  cases t with
  | null | bool | int | string => rfl
  | array items => exact itemsHold_mono more items hold
  | map entries => exact entriesHold_mono more entries hold
theorem itemsHold_mono (more : ∀ key, ok key = true → ok' key = true) (items : List Tree)
    (hold : itemsHold ok items = true) : itemsHold ok' items = true := by
  cases items with
  | nil => rfl
  | cons t items =>
    simp only [itemsHold, Bool.and_eq_true] at hold ⊢
    exact ⟨keysHold_mono more t hold.1, itemsHold_mono more items hold.2⟩
theorem entriesHold_mono (more : ∀ key, ok key = true → ok' key = true)
    (entries : List (List Byte × Tree)) (hold : entriesHold ok entries = true) :
    entriesHold ok' entries = true := by
  cases entries with
  | nil => rfl
  | cons entry entries =>
    simp only [entriesHold, Bool.and_eq_true] at hold ⊢
    exact ⟨more entry.1 hold.1, keysHold_mono more entry.2 hold.2.1,
      entriesHold_mono more entries hold.2.2⟩
end

end

theorem marked_of_text {key : List Byte} (text : isUtf8 key = true) (marked : isPlain key = false) :
    ∃ rest, key = mark ++ rest := by
  rw [isPlain, text, Bool.true_and, Bool.not_eq_false', List.isPrefixOf_iff_prefix] at marked
  obtain ⟨rest, same⟩ := marked
  exact ⟨rest, same.symm⟩

theorem isPlain_of_ascii {key : List Byte} (small : key.all (· ≤ 0x7f) = true) :
    isPlain key = true := by
  have unmarked : mark.isPrefixOf key = false := by
    cases key with
    | nil => rfl
    | cons c key =>
      have other : c ≠ 0xef := by
        rintro rfl
        simp at small
      simp [mark, List.isPrefixOf, Ne.symm other]
  rw [isPlain, isUtf8_of_ascii small, unmarked]
  rfl

theorem all_isPlain {keys : List (List Byte)}
    (small : (keys.all fun key => key.all (· ≤ 0x7f)) = true) : keys.all isPlain = true :=
  List.all_eq_true.mpr fun key mem => isPlain_of_ascii (List.all_eq_true.mp small key mem)

mutual
theorem textKeys_of_plain (t : Tree) (plain : keysHold isPlain t = true) : t.textKeys = true := by
  cases t with
  | null | bool | int | string => rfl
  | array items => exact itemsText_of_plain items plain
  | map entries => exact entriesText_of_plain entries plain
theorem itemsText_of_plain (items : List Tree) (plain : itemsHold isPlain items = true) :
    itemsTextKeys items = true := by
  cases items with
  | nil => rfl
  | cons t items =>
    simp only [itemsHold, itemsTextKeys, Bool.and_eq_true] at plain ⊢
    exact ⟨textKeys_of_plain t plain.1, itemsText_of_plain items plain.2⟩
theorem entriesText_of_plain (entries : List (List Byte × Tree))
    (plain : entriesHold isPlain entries = true) : entriesTextKeys entries = true := by
  cases entries with
  | nil => rfl
  | cons entry entries =>
    simp only [entriesHold, isPlain, entriesTextKeys, Bool.and_eq_true] at plain ⊢
    exact ⟨plain.1.1, textKeys_of_plain entry.2 plain.2.1, entriesText_of_plain entries plain.2.2⟩
end

section
variable (fromUtf8 : List Byte → List Byte)

mutual
/-- What is read of a value that was written: the keys of its hashes go through `fromUtf8`. -/
def reread : Value → Value
  | .list items => .list (itemsReread items)
  | .hash entries => .hash (entriesReread entries [])
  | value => value
def itemsReread : List Value → List Value
  | [] => []
  | value :: items => reread value :: itemsReread items
def entriesReread : List (List Byte × Value) → List (List Byte × Value) → List (List Byte × Value)
  | [], out => out
  | (key, value) :: entries, out => entriesReread entries (assign (fromUtf8 key) (reread value) out)
end

end

section
variable (doubleText : UInt64 → List Byte)

mutual
theorem fromVariant_value (t : Tree) : fromVariant doubleText (treeValue t) = t.encode := by
  cases t with
  | null | bool _ | int _ | string _ => simp only [treeValue, fromVariant, Tree.encode]
  | array items => simp only [treeValue, fromVariant, Tree.encode, fromList_value items]
  | map entries => simp only [treeValue, fromVariant, Tree.encode, fromHash_value entries]
theorem fromList_value (items : List Tree) :
    fromList doubleText (itemsValue items) = itemsEncode items := by
  cases items with
  | nil => simp only [itemsValue, fromList, itemsEncode]
  | cons t items =>
      simp only [itemsValue, fromList, itemsEncode, fromVariant_value t, fromList_value items]
theorem fromHash_value (entries : List (List Byte × Tree)) :
    fromHash doubleText (entriesValue entries) = entriesEncode entries := by
  cases entries with
  | nil => simp only [entriesValue, fromHash, entriesEncode]
  | cons entry entries =>
    simp only [entriesValue, fromHash, entriesEncode, fromVariant_value entry.2,
      fromHash_value entries]
end

end

theorem digit_not_space {c : Byte} (is_digit : Decimal.isDigit c = true) : isSpace c = false ∧
    c ≠ 45 ∧ c ≠ 43 := by
  have all : ∀ c : Fin 256, Decimal.isDigit (UInt8.ofNat c.val) = true →
      isSpace (UInt8.ofNat c.val) = false ∧ UInt8.ofNat c.val ≠ 45 ∧ UInt8.ofNat c.val ≠ 43 := by
        decide +kernel
  have here := all ⟨c.toNat, c.toNat_lt⟩
  rw [UInt8.ofNat_toNat] at here
  exact here is_digit

theorem takeWhile_all {p : Byte → Bool} {s : List Byte} (all : s.all p = true) :
    s.takeWhile p = s ∧ s.dropWhile p = [] := by
  induction s with
  | nil => exact ⟨rfl, rfl⟩
  | cons c s ih =>
    simp only [List.all_cons, Bool.and_eq_true] at all
    simp [all.1, ih all.2]

theorem toLongLong_digits {s : List Byte} (filled : s ≠ []) (all : s.all Decimal.isDigit = true) :
    toLongLong s = if Decimal.value s < isizeEnd then some (Decimal.value s : Int) else none := by
  cases s with
  | nil => exact absurd rfl filled
  | cons c s =>
    have first : Decimal.isDigit c = true := by
      simp only [List.all_cons, Bool.and_eq_true] at all
      exact all.1
    obtain ⟨no_space, no_minus, no_plus⟩ := digit_not_space first
    obtain ⟨taken, dropped⟩ := takeWhile_all all
    unfold toLongLong
    simp only [List.dropWhile_cons, no_space, Bool.false_eq_true, if_false, List.head?_cons,
      Option.some.injEq, no_minus, no_plus, or_self, taken, dropped]
    rw [if_neg (by simp)]
    split
    · rw [if_pos (by omega)]
    · rw [if_neg (by omega)]

theorem toLongLong_intText (x : Isize) : toLongLong (intText x.val) = some x.val := by
  have low := x.low
  have high := x.high
  have filled := Decimal.text_ne_nil x.val.natAbs
  have all := Decimal.text_all x.val.natAbs
  have value := Decimal.value_text x.val.natAbs
  unfold intText
  split
  · obtain ⟨taken, dropped⟩ := takeWhile_all all
    unfold toLongLong
    have no_space : isSpace 45 = false := by decide
    simp only [List.dropWhile_cons, no_space, Bool.false_eq_true, if_false, List.head?_cons,
      true_or, if_true, List.tail_cons, taken, dropped, value]
    rw [if_neg (by simp [filled]), if_pos (by omega)]
    congr 1
    omega
  · rw [toLongLong_digits filled all, value, if_pos (by omega)]
    congr 1
    omega

theorem toInt_text (n : Nat) : toInt (Decimal.text n) = if n < intEnd then some (n : Int)
    else none := by
  rw [toInt, toLongLong_digits (Decimal.text_ne_nil n) (Decimal.text_all n), Decimal.value_text]
  unfold intEnd isizeEnd
  split
  · by_cases small : n < 2 ^ 31
    · rw [if_pos small, Option.filter_some, if_pos (by simp; omega)]
    · rw [if_neg small, Option.filter_some, if_neg (by simp; omega)]
  · rw [if_neg (by omega)]
    rfl

theorem indexOf_digits {digits : List Byte} (all : digits.all Decimal.isDigit = true)
    (before rest : List Byte) :
    indexOf (before ++ (digits ++ 58 :: rest)) 58 before.length =
      some (before.length + digits.length) := by
  have found : (digits ++ 58 :: rest).findIdx? (· = 58) = some digits.length := by
    rw [List.findIdx?_append]
    have none : digits.findIdx? (· = 58) = none := by
      rw [List.findIdx?_eq_none_iff]
      intro c mem
      have is_digit := List.all_eq_true.mp all c mem
      simp only [decide_eq_false_iff_not]
      rintro rfl
      exact absurd is_digit (by decide)
    simp [none, List.findIdx?_cons]
  rw [indexOf, List.drop_left, found]
  rfl

theorem mid_middle (before data rest : List Byte) :
    mid (before ++ (data ++ rest)) before.length data.length = data := by
  rw [mid, List.drop_left, List.take_left]

def headerAt (place : Nat) (type : FrameType) (payload : List Byte) : Header :=
  ⟨type, place + (Decimal.text payload.length).length + 1, payload.length⟩

theorem headerAt_next (place : Nat) (type : FrameType) (payload : List Byte) (typeByte : Byte) :
    (headerAt place type payload).next = place + (framed payload typeByte).length := by
  simp only [headerAt, Header.next, framed, List.length_append, List.length_cons, List.length_nil]
  omega

section
variable {type : FrameType} {typeByte : Byte}

theorem check_framed (typed : typeOf typeByte = some type) (before payload rest : List Byte)
    (small : before.length + (framed payload typeByte).length ≤ intEnd) :
    check (before ++ (framed payload typeByte ++ rest)) before.length = .returns
      (headerAt before.length type payload) := by
  have whole : before ++ (framed payload typeByte ++ rest) =
      before ++ (Decimal.text payload.length ++ 58 :: (payload ++ typeByte :: rest)) := by
        simp [framed]
  simp only [framed, List.length_append, List.length_cons, List.length_nil] at small
  have place :
    (before ++ (Decimal.text payload.length ++ 58 :: (payload ++ typeByte :: rest)))[before.length +
      (Decimal.text payload.length).length + 1 + payload.length]? = some typeByte := by
    rw [List.getElem?_append_right (by omega), List.getElem?_append_right (by omega)]
    have behind :
      before.length + (Decimal.text payload.length).length + 1 + payload.length - before.length -
        (Decimal.text payload.length).length = payload.length + 1 := by omega
    rw [behind, List.getElem?_cons_succ, List.getElem?_append_right (Nat.le_refl _), Nat.sub_self]
    rfl
  unfold check
  rw [whole, indexOf_digits (Decimal.text_all _)]
  simp only [Nat.add_sub_cancel_left, mid_middle, toInt_text,
    if_pos (show payload.length < intEnd by omega)]
  rw [if_neg (by omega), if_neg (by omega), Int.toNat_natCast, if_neg (by omega), place]
  simp only [typed]
  rfl

theorem check_large (payload : List Byte) (large : intEnd < (framed payload typeByte).length) :
    ∀ h, check (framed payload typeByte) 0 ≠ .returns h := by
  have whole : framed payload typeByte =
      [] ++ (Decimal.text payload.length ++ 58 :: (payload ++ [typeByte])) := by
    simp [framed]
  have found := indexOf_digits (Decimal.text_all payload.length) [] (payload ++ [typeByte])
  have digits := mid_middle [] (Decimal.text payload.length) (58 :: (payload ++ [typeByte]))
  rw [← whole] at found digits
  simp only [List.length_nil, Nat.zero_add] at found digits
  simp only [framed, List.length_append, List.length_cons, List.length_nil] at large
  intro h
  unfold check
  rw [found]
  simp only [Nat.sub_zero, digits, toInt_text]
  split
  · exact nofun
  · by_cases fits : payload.length < intEnd
    · simp only [if_pos fits]
      rw [if_neg (by omega), Int.toNat_natCast, if_pos (by omega)]
      exact nofun
    · simp only [if_neg fits]
      exact nofun

end

theorem assign_new {α : Type} {key : List Byte} (value : α) {out : List (List Byte × α)}
    (new : key ∉ out.map Prod.fst) : assign key value out = out ++ [(key, value)] := by
  induction out with
  | nil => rfl
  | cons entry out ih =>
    simp only [List.map_cons, List.mem_cons, not_or] at new
    rw [assign, if_neg (fun same => new.1 same.symm), ih new.2]
    rfl

theorem mid_header (type : FrameType) (typeByte : Byte) (before payload rest : List Byte) :
    mid (before ++ (framed payload typeByte ++ rest))
      (headerAt before.length type payload).dataOffset
      (headerAt before.length type payload).dataSize = payload := by
  have whole : before ++ (framed payload typeByte ++ rest) =
      (before ++ (Decimal.text payload.length ++ [58])) ++ (payload ++ (typeByte :: rest)) := by
        simp [framed]
  have place : before.length + (Decimal.text payload.length).length + 1 =
      (before ++ (Decimal.text payload.length ++ [58])).length := by
    simp only [List.length_append, List.length_cons, List.length_nil]
    omega
  rw [headerAt, whole, place]
  exact mid_middle _ payload (typeByte :: rest)

section
variable (toDouble : List Byte → Option UInt64) (fromUtf8 : List Byte → List Byte)

mutual
theorem typedVariant_encode (t : Tree) (before rest : List Byte) (fuel : Nat)
    (enough : t.encode.length ≤ fuel) (small : before.length + t.encode.length ≤ intEnd) :
    typedVariant toDouble fromUtf8 (before ++ (t.encode ++ rest)) fuel
      (headerAt before.length t.ftype t.payload) = .returns (reread fromUtf8 (treeValue t)) := by
  have pos := t.encode_pos
  obtain ⟨fuel, rfl⟩ := Nat.exists_eq_add_of_le' (show 1 ≤ fuel by omega)
  have data := mid_header t.ftype t.typeByte before t.payload rest
  rw [← t.encode_eq] at data
  unfold typedVariant
  rw [data]
  cases t with
  | null => rfl
  | bool b => cases b <;> rfl
  | int x =>
    simp only [headerAt, Tree.ftype, Tree.payload, toLongLong_intText, Option.bind_some,
      Isize.of_val, orRefused]
    rfl
  | string s => rfl
  | array ts =>
    have whole : before ++ ((Tree.array ts).encode ++ rest) =
        (before ++ (Decimal.text (itemsEncode ts).length ++ [58])) ++
          (itemsEncode ts ++ (93 :: rest)) := by
      simp [Tree.encode, framed]
    have place : before.length + (Decimal.text (itemsEncode ts).length).length + 1 =
        (before ++ (Decimal.text (itemsEncode ts).length ++ [58])).length := by
      simp only [List.length_append, List.length_cons, List.length_nil]
      omega
    simp only [Tree.encode, framed, List.length_append, List.length_cons,
      List.length_nil] at enough small
    have items := toList_encode ts (before ++ (Decimal.text (itemsEncode ts).length ++ [58]))
      (93 :: rest) fuel [] (by omega) (by rw [← place]; omega)
    simp only [headerAt, Tree.ftype, Tree.payload]
    rw [whole, place, items]
    rfl
  | map entries =>
    have whole : before ++ ((PushpinTnetstring.Tree.map entries).encode ++ rest) =
        (before ++ (Decimal.text (entriesEncode entries).length ++ [58])) ++
          (entriesEncode entries ++ (125 :: rest)) := by
      simp [Tree.encode, framed]
    have place : before.length + (Decimal.text (entriesEncode entries).length).length + 1 =
        (before ++ (Decimal.text (entriesEncode entries).length ++ [58])).length := by
      simp only [List.length_append, List.length_cons, List.length_nil]
      omega
    simp only [Tree.encode, framed, List.length_append, List.length_cons,
      List.length_nil] at enough small
    have items := toHash_encode entries
      (before ++ (Decimal.text (entriesEncode entries).length ++ [58])) (125 :: rest) fuel []
        (by omega)
      (by rw [← place]; omega)
    simp only [headerAt, Tree.ftype, Tree.payload]
    rw [whole, place, Nat.add_comm (entriesEncode entries).length, items]
    rfl
theorem toList_encode (ts : List Tree) (before rest : List Byte) (fuel : Nat)
    (out : List Value) (enough : (itemsEncode ts).length < fuel)
    (small : before.length + (itemsEncode ts).length < intEnd) :
    toList toDouble fromUtf8 (before ++ (itemsEncode ts ++ rest))
      fuel (before.length + (itemsEncode ts).length)
      before.length out = .returns (out ++ itemsReread fromUtf8 (itemsValue ts)) := by
  obtain ⟨fuel, rfl⟩ := Nat.exists_eq_add_of_le' (show 1 ≤ fuel by omega)
  unfold toList
  cases ts with
  | nil => simp [itemsEncode, itemsValue, itemsReread]
  | cons t ts =>
    have pos := t.encode_pos
    simp only [itemsEncode, List.length_append] at enough small ⊢
    have frame :=
      check_framed t.typed before t.payload (itemsEncode ts ++ rest) (by rw [← t.encode_eq]; omega)
    have value := typedVariant_encode t before (itemsEncode ts ++ rest) fuel (by omega) (by omega)
    have later := toList_encode ts (before ++ t.encode) rest fuel
      (out ++ [reread fromUtf8 (treeValue t)]) (by omega) (by rw [List.length_append]; omega)
    rw [← t.encode_eq] at frame
    rw [if_pos (by omega), List.append_assoc t.encode, frame, Outcome.returns_bind, value,
      Outcome.returns_bind, headerAt_next before.length t.ftype t.payload t.typeByte, ← t.encode_eq]
    simp only [List.length_append, List.append_assoc, List.cons_append, List.nil_append] at later ⊢
    rw [← Nat.add_assoc, later]
    rfl
theorem toHash_encode (entries : List (List Byte × Tree)) (before rest : List Byte) (fuel : Nat)
    (out : List (List Byte × Value)) (enough : (entriesEncode entries).length < fuel)
    (small : before.length + (entriesEncode entries).length < intEnd) :
    toHash toDouble fromUtf8 (before ++ (entriesEncode entries ++ rest)) fuel
      (before.length + (entriesEncode entries).length) before.length out =
      .returns (entriesReread fromUtf8 (entriesValue entries) out) := by
  obtain ⟨fuel, rfl⟩ := Nat.exists_eq_add_of_le' (show 1 ≤ fuel by omega)
  unfold toHash
  cases entries with
  | nil => simp [entriesEncode, entriesValue, entriesReread]
  | cons entry entries =>
    obtain ⟨key, t⟩ := entry
    have pos := t.encode_pos
    simp only [entriesEncode, List.length_append] at enough small ⊢
    have found := check_framed (show typeOf 44 = some .string by rfl) before key
      (t.encode ++ (entriesEncode entries ++ rest)) (by omega)
    have text := mid_header .string 44 before key (t.encode ++ (entriesEncode entries ++ rest))
    have frame :=
      check_framed t.typed (before ++ framed key 44) t.payload (entriesEncode entries ++ rest)
        (by rw [← t.encode_eq, List.length_append]; omega)
    have value :=
      typedVariant_encode t (before ++ framed key 44) (entriesEncode entries ++ rest) fuel
        (by omega) (by rw [List.length_append]; omega)
    have later := toHash_encode entries (before ++ (framed key 44 ++ t.encode)) rest fuel
      (assign (fromUtf8 key) (reread fromUtf8 (treeValue t)) out) (by omega)
        (by rw [List.length_append, List.length_append]; omega)
    rw [← t.encode_eq] at frame
    simp only [List.length_append, List.append_assoc] at found text frame value later ⊢
    rw [if_pos (by omega), found, Outcome.returns_bind, if_neg (by simp [headerAt]),
      headerAt_next before.length .string key 44, frame, Outcome.returns_bind, value,
        Outcome.returns_bind, text,
      headerAt_next _ t.ftype t.payload t.typeByte, ← t.encode_eq]
    simp only [Nat.add_assoc] at later ⊢
    rw [later, entriesValue, entriesReread]
end

theorem toVariant_encode (t : Tree) (small : t.encode.length ≤ intEnd) :
    toVariant toDouble fromUtf8 t.encode 0 = .returns (reread fromUtf8 (treeValue t)) := by
  have found := check_framed t.typed [] t.payload [] (by rw [← t.encode_eq, List.length_nil]; omega)
  have value := typedVariant_encode toDouble fromUtf8 t [] [] (t.encode.length + 1) (by omega)
    (by rw [List.length_nil]; omega)
  rw [← t.encode_eq] at found
  simp only [List.nil_append, List.append_nil, List.length_nil] at found value
  rw [toVariant, found, Outcome.returns_bind, value]

theorem toVariant_large (t : Tree) (large : intEnd < t.encode.length) (value : Value) :
    toVariant toDouble fromUtf8 t.encode 0 ≠ .returns value := by
  intro decoded
  rw [t.encode_eq] at large decoded
  cases found : check (framed t.payload t.typeByte) 0 with
  | panics => simp [toVariant, found] at decoded
  | fails e => simp [toVariant, found] at decoded
  | returns h => exact check_large t.payload large h found

end

section
variable {fromUtf8 : List Byte → List Byte}

section
variable {entries : List (List Byte × Value)} (kept : ∀ entry ∈ entries, fromUtf8 entry.1 = entry.1)
include kept

theorem entriesReread_new {out : List (List Byte × Value)}
    (new : (out.map Prod.fst ++ entries.map Prod.fst).Nodup) :
    entriesReread fromUtf8 entries out = out ++ entries.map fun entry =>
      (entry.1, reread fromUtf8 entry.2) := by
  induction entries generalizing out with
  | nil => simp [entriesReread]
  | cons entry entries ih =>
    obtain ⟨key, value⟩ := entry
    obtain ⟨here, later⟩ := List.forall_mem_cons.mp kept
    have unused : key ∉ out.map Prod.fst := by
      intro mem
      rw [List.nodup_append] at new
      exact new.2.2 key mem key List.mem_cons_self rfl
    rw [entriesReread, here, assign_new _ unused, ih later (by simpa using new)]
    simp

theorem reread_hash (new : (entries.map Prod.fst).Nodup) :
    reread fromUtf8 (.hash entries) = .hash (entries.map fun entry =>
      (entry.1, reread fromUtf8 entry.2)) := by
  rw [reread, entriesReread_new kept (by simpa using new), List.nil_append]

end

theorem entriesValue_map (entries : List (List Byte × Tree)) :
    entriesValue entries = entries.map fun entry => (entry.1, treeValue entry.2) := by
  induction entries with
  | nil => rfl
  | cons entry entries ih => rw [entriesValue, ih, List.map_cons]

theorem entries_kept (utf8 : ∀ key, isPlain key = true → fromUtf8 key = key)
    {entries : List (List Byte × Tree)} (plain : entriesHold isPlain entries = true) :
    ∀ entry ∈ entriesValue entries, fromUtf8 entry.1 = entry.1 := by
  induction entries with
  | nil => simp [entriesValue]
  | cons entry entries ih =>
    simp only [entriesHold, Bool.and_eq_true] at plain
    exact List.forall_mem_cons.mpr ⟨utf8 entry.1 plain.1, ih plain.2.2⟩

mutual
theorem reread_plain (utf8 : ∀ key, isPlain key = true → fromUtf8 key = key) (t : Tree)
    (plain : keysHold isPlain t = true) (distinct : distinctKeys t) :
    reread fromUtf8 (treeValue t) = treeValue t := by
  cases t with
  | null | bool | int | string => rfl
  | array items => exact congrArg Value.list (itemsReread_plain utf8 items plain distinct)
  | map entries =>
    have new : ((entriesValue entries).map Prod.fst).Nodup := by
      simpa [entriesValue_map, Function.comp_def] using distinct.1
    rw [treeValue, reread_hash (entries_kept utf8 plain) new,
      entriesReread_plain utf8 entries plain distinct.2]
theorem itemsReread_plain (utf8 : ∀ key, isPlain key = true → fromUtf8 key = key)
    (items : List Tree) (plain : itemsHold isPlain items = true) (distinct : itemsDistinct items) :
    itemsReread fromUtf8 (itemsValue items) = itemsValue items := by
  cases items with
  | nil => rfl
  | cons t items =>
    simp only [itemsHold, Bool.and_eq_true] at plain
    rw [itemsValue, itemsReread, reread_plain utf8 t plain.1 distinct.1,
      itemsReread_plain utf8 items plain.2 distinct.2]
theorem entriesReread_plain (utf8 : ∀ key, isPlain key = true → fromUtf8 key = key)
    (entries : List (List Byte × Tree)) (plain : entriesHold isPlain entries = true)
    (distinct : entriesDistinct entries) :
    (entriesValue entries).map (fun entry => (entry.1, reread fromUtf8 entry.2)) =
    entriesValue entries := by
  cases entries with
  | nil => rfl
  | cons entry entries =>
    simp only [entriesHold, Bool.and_eq_true] at plain
    rw [entriesValue, List.map_cons, reread_plain utf8 entry.2 plain.2.1 distinct.1,
      entriesReread_plain utf8 entries plain.2.2 distinct.2]
end

/-- What a tree is encoded to gives the tree back on both sides, as long as the offsets
    in it are those of an `int`. -/
theorem tree_recovered_iff (utf8 : ∀ key, isPlain key = true → fromUtf8 key = key)
    (toDouble : List Byte → Option UInt64) (doubleText : UInt64 → List Byte) (checks : Bool)
    (t : Tree) (plain : keysHold isPlain t = true) (distinct : distinctKeys t) :
    (toVariant toDouble fromUtf8 (fromVariant doubleText (treeValue t)) 0 = .returns (treeValue t) ∧
      readBack checks (fromVariant doubleText (treeValue t)) =
        some (.ok (t, (fromVariant doubleText (treeValue t)).length))) ↔
      (fromVariant doubleText (treeValue t)).length ≤ intEnd := by
  rw [fromVariant_value]
  constructor
  · rintro ⟨read, _⟩
    by_contra large
    exact toVariant_large toDouble fromUtf8 t (not_le.mp large) _ read
  · intro small
    have read := readTree_encode checks (t.encode.length + 1) t [] (textKeys_of_plain t plain)
      (by omega) (by rw [List.append_nil, isizeEnd]; rw [intEnd] at small; omega)
    rw [List.append_nil] at read
    rw [toVariant_encode toDouble fromUtf8 t small, reread_plain utf8 t plain distinct]
    exact ⟨rfl, read⟩

end

theorem example_tree_recovered :
    toVariant (fun _ => none) id (fromVariant (fun _ => []) (treeValue exampleTree)) 0 =
        .returns (treeValue exampleTree) ∧
      readBack true (fromVariant (fun _ => []) (treeValue exampleTree)) =
        some (.ok (exampleTree, (fromVariant (fun _ => []) (treeValue exampleTree)).length)) :=
  (tree_recovered_iff (fun _ _ => rfl) (fun _ => none) (fun _ => []) true exampleTree (by decide)
    ⟨by decide, ⟨trivial, trivial, trivial, trivial⟩, trivial, trivial⟩).mpr (by decide +kernel)

def largeTree : Tree := .string (List.replicate (2 ^ 31) 0)

def dropMark (key : List Byte) : List Byte :=
  if mark.isPrefixOf key then key.drop mark.length else key

def markedTree : Tree := .map [(mark, .null)]

theorem large_array_is_not_recovered :
    toVariant (fun _ => none) id (fromVariant (fun _ => []) (treeValue largeTree))
      0 ≠ .returns (treeValue largeTree) ∧
    toVariant (fun _ => none) dropMark (fromVariant (fun _ => []) (treeValue markedTree)) 0 ≠
      .returns (treeValue markedTree) := by
  constructor
  · have large : intEnd < largeTree.encode.length := by
      rw [largeTree.encode_eq, framed_length, intEnd,
        show largeTree.payload.length = 2 ^ 31 from List.length_replicate]
      omega
    rw [fromVariant_value]
    exact toVariant_large _ _ largeTree large _
  · rw [fromVariant_value, toVariant_encode _ _ markedTree (by decide +kernel)]
    simp [reread, entriesReread, treeValue, entriesValue, markedTree, assign, dropMark, mark]

end PushpinTnetCodec
