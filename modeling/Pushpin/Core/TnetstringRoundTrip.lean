import Pushpin.Core.TnetstringTrees

namespace PushpinTnetstring
open PushpinRingBuffer Slices Text
open Option (bind_eq_bind bind_eq_some_iff bind_some)

theorem writePieces_spec {w w' : Cursor} {pieces : List (List Byte)}
    (ok : w.writePieces pieces = (true, w')) : w'.written = w.written ++ pieces.flatten := by
  induction pieces generalizing w with
  | nil =>
    cases ok
    simp
  | cons piece pieces ih =>
    unfold Cursor.writePieces Cursor.writeExact at ok
    by_cases room : piece.length ≤ w.capacity - w.written.length
    · simp only [decide_eq_true room] at ok
      rw [ih ok]
      simp only [List.take_of_length_le room, List.flatten_cons, List.append_assoc]
    · simp [decide_eq_false room] at ok

theorem flushGroup_spec {ops left : List Op} {lens : List Nat} {w w' : Cursor}
    (ok : flushGroup ops lens w = some (true, left, w')) :
    w'.written = w.written ++ output ops lens := by
  induction ops generalizing lens w left with
  | nil =>
    cases ok
    simp [output]
  | cons op ops ih =>
    cases lens with
    | nil => cases ok
    | cons len lens =>
      simp only [flushGroup, Op.serialize, bind_eq_bind, bind_eq_some_iff,
        Option.map_eq_some_iff] at ok
      obtain ⟨⟨done, between⟩, ⟨pieces, found, written⟩, rest⟩ := ok
      cases done with
      | false => cases rest
      | true =>
        obtain ⟨⟨done, later, after⟩, group, same⟩ := bind_eq_some_iff.mp rest
        cases same
        rw [ih group, writePieces_spec written, output, Op.bytes, found, Option.getD_some,
          List.append_assoc]

def flushMore (checks : Bool) (groups : Nat) (rest : List Op) : Bool × List Op × Cursor →
    Option (Bool × List Op × Cursor)
  | (false, left, w) => some (false, left ++ rest, w)
  | (true, left, w) => (flushFrom checks groups rest w).bind fun after =>
    some (after.1, left ++ after.2.1, after.2.2)

theorem flush_tree {checks : Bool} {t : Tree} {writer flushed : Writer} (ops : writer.ops = t.ops)
    (ok : writer.flush checks = some (true, flushed)) :
    ∃ lens, t.lens checks = some lens ∧
      flushed.dest.written = writer.dest.written ++ output t.ops lens := by
  have pos := t.ops_pos
  obtain ⟨groups, count⟩ := Nat.exists_eq_add_of_le' pos
  obtain ⟨op, rest, shape, _⟩ := t.ops_cons
  have first : calcLen checks (2 * t.ops.length) t.ops = t.lens checks := by
    have known := @calcLen_tree checks (2 * t.ops.length - 1) t [] (by omega)
    rwa [List.append_nil, show 2 * t.ops.length - 1 + 1 = 2 * t.ops.length by omega] at known
  have unfolded : flushFrom checks (groups + 1) t.ops writer.dest =
      (calcLen checks (2 * t.ops.length) t.ops).bind fun lens =>
        if lens.length > t.ops.length then none
        else (flushGroup (t.ops.take lens.length) lens writer.dest).bind
          (flushMore checks groups (t.ops.drop lens.length)) := by
    rw [shape]
    rfl
  unfold Writer.flush at ok
  rw [ops, count, unfolded, first] at ok
  cases sized : t.lens checks with
  | none =>
    rw [sized] at ok
    cases ok
  | some lens =>
    have same := t.lens_length sized
    rw [sized, bind_some, if_neg (by omega), same, List.take_length, List.drop_length] at ok
    refine ⟨lens, rfl, ?_⟩
    cases group : flushGroup t.ops lens writer.dest with
    | none =>
      rw [group] at ok
      cases ok
    | some found =>
      obtain ⟨done, left, w⟩ := found
      rw [group] at ok
      cases done with
      | false => cases ok
      | true =>
        cases groups <;> cases ok <;> exact flushGroup_spec group

theorem appendAll_spec {writer writer' : Writer} {ops : List Op} (ok : writer.appendAll ops =
    (true, writer')) : writer'.ops = writer.ops ++ ops ∧ writer'.dest = writer.dest := by
  induction ops generalizing writer with
  | nil =>
    cases ok
    exact ⟨(List.append_nil _).symm, rfl⟩
  | cons op ops ih =>
    unfold Writer.appendAll Writer.append at ok
    split at ok
    · rename_i taken
      split at taken
      · cases taken
      · cases taken
        obtain ⟨more, same⟩ := ih ok
        exact ⟨by rw [more, List.append_assoc]; rfl, same⟩
    · cases ok

def Isize.of (x : Int) : Option Isize :=
  if range : -(isizeEnd : Int) ≤ x ∧ x < isizeEnd then some ⟨x, range.1, range.2⟩ else none

section
variable (read : List Byte → Option (Except ParseError (Tree × Nat)))

def readItems : List (Except ParseError SequenceItem) → Option (Except ParseError (List Tree))
  | [] => some (.ok [])
  | .error e :: _ => some (.error e)
  | .ok item :: items => do
    match ← read item.data with
    | .error e => return .error e
    | .ok (t, _) =>
      match ← readItems items with
      | .error e => return .error e
      | .ok ts => return .ok (t :: ts)

def readEntries : List (Except ParseError MapItem) →
    Option (Except ParseError (List (List Byte × Tree)))
  | [] => some (.ok [])
  | .error e :: _ => some (.error e)
  | .ok item :: items => do
    match ← read item.data with
    | .error e => return .error e
    | .ok (t, _) =>
      match ← readEntries items with
      | .error e => return .error e
      | .ok entries => return .ok ((item.key, t) :: entries)

end

/-- The tree at the front of a byte string and where it ends, read by the parser
    down to the given depth. -/
def readTree (checks : Bool) : Nat → List Byte → Option (Except ParseError (Tree × Nat))
  | 0, _ => none
  | depth + 1, src => do
    match ← parseFrame checks src with
    | .error e => return .error e
    | .ok (frame, end_) =>
      match frame.ftype with
      | .null => return (← parseNull checks src).map fun _ => (.null, end_)
      | .bool => return (← parseBool checks src).map fun b => (.bool b, end_)
      | .int =>
        match ← parseInt checks src with
        | .error e => return .error e
        | .ok x => (Isize.of x).map fun x => .ok (.int x, end_)
      | .float => return .error .invalidData
      | .string => return (← parseString checks src).map fun s => (.string s, end_)
      | .array =>
        match ← parseArray checks src with
        | .error e => return .error e
        | .ok it => return (← readItems (readTree checks depth) (← it.all checks)).map fun ts =>
          (.array ts, end_)
      | .map =>
        match ← parseMap checks src with
        | .error e => return .error e
        | .ok it =>
          return (← readEntries (readTree checks depth) (← it.all checks)).map fun entries =>
            (.map entries, end_)

def readBack (checks : Bool) (src : List Byte) : Option (Except ParseError (Tree × Nat)) :=
  readTree checks (src.length + 1) src

def Tree.payload : Tree → List Byte
  | .null => []
  | .bool b => boolBytes b
  | .int x => intText x.val
  | .string s => s
  | .array items => itemsEncode items
  | .map entries => entriesEncode entries

def Tree.ftype : Tree → FrameType
  | .null => .null
  | .bool _ => .bool
  | .int _ => .int
  | .string _ => .string
  | .array _ => .array
  | .map _ => .map

def Tree.typeByte : Tree → Byte
  | .null => 126
  | .bool _ => 33
  | .int _ => 35
  | .string _ => 44
  | .array _ => 93
  | .map _ => 125

theorem Tree.encode_eq (t : Tree) : t.encode = framed t.payload t.typeByte := by
  cases t <;> simp only [Tree.encode, Tree.payload, Tree.typeByte]

theorem Tree.typed (t : Tree) : typeOf t.typeByte = some t.ftype := by
  cases t <;> rfl

theorem plain_fits {src : List Byte} {frame : Frame} {end_ : Nat}
    (ok : parsePlain src = .ok (frame, end_)) (small : src.length < isizeEnd) :
    overflows src = false := by
  unfold parsePlain at ok
  unfold overflows
  cases colon : findColon src 0 with
  | error e => rfl
  | ok sizeEnd =>
    rw [colon] at ok
    simp only at ok ⊢
    cases parsed : parseUsize (src.take sizeEnd) with
    | none => rfl
    | some size =>
      rw [parsed] at ok
      simp only at ok ⊢
      split at ok
      · cases ok
      · rename_i inside
        rw [decide_eq_false_iff_not, usizeEnd]
        rw [isizeEnd] at small
        omega

section
variable {payload rest : List Byte} {typeByte : Byte} {ftype : FrameType}

theorem framed_placed (payload rest : List Byte) (typed : typeOf typeByte = some ftype) :
    Placed (framed payload typeByte ++ rest) ⟨ftype, payload⟩ (framed payload typeByte).length
      (Decimal.text payload.length) typeByte rest where
  bytes := by simp [framed]
  sized := ⟨Decimal.text_ne_nil _, Decimal.text_all _, Decimal.value_text _⟩
  typed := typed
  ended := by rw [framed_length, usizeLen_text]

theorem framed_plain (typed : typeOf typeByte = some ftype)
    (small : (framed payload typeByte ++ rest).length < isizeEnd) :
    parsePlain (framed payload typeByte ++ rest) = .ok (⟨ftype, payload⟩,
      (framed payload typeByte).length) ∧ overflows (framed payload typeByte ++ rest) = false := by
  have length : payload.length < usizeEnd := by
    rw [List.length_append, framed_length, isizeEnd] at small
    rw [usizeEnd]
    omega
  have plain := placed_plain (framed_placed payload rest typed) length
  exact ⟨plain, plain_fits plain small⟩

theorem parseTyped_framed (checks : Bool) (typed : typeOf typeByte = some ftype)
    (small : (framed payload typeByte ++ rest).length < isizeEnd) :
    parseTyped checks ftype (framed payload typeByte ++ rest) = some (.ok payload) := by
  obtain ⟨plain, fits⟩ := framed_plain typed small
  rw [parseTyped_plain checks ftype fits, plain]
  simp

end

theorem isUtf8_intText (x : Int) : isUtf8 (intText x) = true := by
  have digits : ∀ c ∈ Decimal.text x.natAbs, c ≤ 0x7f := by
    intro c mem
    exact digit_small (List.all_eq_true.mp (Decimal.text_all _) c mem)
  apply isUtf8_of_small
  unfold intText
  split
  · intro c mem
    rcases List.mem_cons.mp mem with rfl | mem
    · decide
    · exact digits c mem
  · exact digits

theorem parseIsize_intText (x : Isize) : parseIsize (intText x.val) = some x.val := by
  have low := x.low
  have high := x.high
  unfold intText
  split
  · rw [parseIsize, parseDigits_text (by omega), Option.map_some, Option.some.injEq]
    omega
  · rw [parseIsize_digits (Decimal.text_all _), parseDigits_text (by omega), Option.map_some,
      Option.some.injEq]
    omega

theorem Tree.encode_pos (t : Tree) : 0 < t.encode.length := by
  rw [t.encode_eq, framed_length]
  omega

theorem seqFront_encode (t : Tree) {rest : List Byte}
    (small : (t.encode ++ rest).length < isizeEnd) :
    seqFront (t.encode ++ rest) = .ok (⟨t.ftype, t.encode⟩, t.encode.length) ∧
      overflows (t.encode ++ rest) = false := by
  rw [t.encode_eq] at small ⊢
  obtain ⟨plain, fits⟩ := framed_plain t.typed small
  refine ⟨?_, fits⟩
  rw [seqFront, plain]
  simp only [List.take_left']

theorem mapFront_encode {key : List Byte} (text : isUtf8 key = true) (t : Tree) {rest : List Byte}
    (small : (framed key 44 ++ (t.encode ++ rest)).length < isizeEnd) :
    mapFront (framed key 44 ++ (t.encode ++ rest)) =
        .ok (⟨key, t.ftype, t.encode⟩, (framed key 44).length + t.encode.length) ∧
      entryOverflows (framed key 44 ++ (t.encode ++ rest)) = false := by
  have inside : (t.encode ++ rest).length < isizeEnd := by
    rw [List.length_append] at small
    omega
  have is_key : isKey ⟨.string, key⟩ = true := by simp [isKey, text]
  obtain ⟨plain, fits⟩ := framed_plain (show typeOf 44 = some .string by rfl) small
  rw [t.encode_eq] at inside ⊢
  rw [t.encode_eq] at plain fits
  obtain ⟨value, value_fits⟩ := framed_plain t.typed inside
  constructor
  · rw [mapFront, plain]
    simp only [is_key, if_true, List.drop_left', value, List.take_left']
  · rw [entryOverflows, fits, plain]
    simp only [is_key, List.drop_left', value_fits, Bool.and_false, Bool.or_self]

theorem items_encode (ts : List Tree) (n : Nat) (enough : (itemsEncode ts).length ≤ n)
    (small : (itemsEncode ts).length < isizeEnd) :
    items seqFront n (itemsEncode ts) = ts.map (fun t => .ok ⟨t.ftype, t.encode⟩) ∧
      itemsFit overflows seqFront n (itemsEncode ts) = true := by
  induction ts generalizing n with
  | nil => cases n <;> simp [itemsEncode, items, itemsFit]
  | cons t ts ih =>
    have pos := t.encode_pos
    simp only [itemsEncode] at enough small ⊢
    obtain ⟨front, fits⟩ := seqFront_encode t small
    rw [List.length_append] at enough small
    obtain ⟨n, rfl⟩ := Nat.exists_eq_add_of_le' (show 1 ≤ n by omega)
    have filled : t.encode ++ itemsEncode ts ≠ [] := by
      intro empty
      rw [List.append_eq_nil_iff] at empty
      rw [empty.1] at pos
      exact absurd pos (Nat.lt_irrefl 0)
    obtain ⟨later, later_fits⟩ := ih n (by omega) (by omega)
    constructor
    · rw [items, if_neg filled, front]
      simp only [List.drop_left', later, List.map_cons]
    · rw [itemsFit, if_neg filled, fits, front]
      simp only [List.drop_left', later_fits, Bool.not_false, Bool.and_self]

theorem entries_encode (entries : List (List Byte × Tree)) (keys : entriesTextKeys entries = true)
    (n : Nat) (enough : (entriesEncode entries).length ≤ n)
    (small : (entriesEncode entries).length < isizeEnd) :
    items mapFront n (entriesEncode entries) =
        entries.map (fun entry => .ok ⟨entry.1, entry.2.ftype, entry.2.encode⟩) ∧
      itemsFit entryOverflows mapFront n (entriesEncode entries) = true := by
  induction entries generalizing n with
  | nil => cases n <;> simp [entriesEncode, items, itemsFit]
  | cons entry entries ih =>
    obtain ⟨key, t⟩ := entry
    have pos := t.encode_pos
    simp only [entriesTextKeys, Bool.and_eq_true] at keys
    simp only [entriesEncode] at enough small ⊢
    obtain ⟨front, fits⟩ := mapFront_encode keys.1 t small
    rw [List.length_append, List.length_append] at enough small
    obtain ⟨n, rfl⟩ := Nat.exists_eq_add_of_le' (show 1 ≤ n by omega)
    have filled : framed key 44 ++ (t.encode ++ entriesEncode entries) ≠ [] := by
      simp [framed]
    have behind : (framed key 44 ++ (t.encode ++ entriesEncode entries)).drop
        ((framed key 44).length + t.encode.length) = entriesEncode entries := by
      rw [← List.drop_drop, List.drop_left, List.drop_left]
    obtain ⟨later, later_fits⟩ := ih keys.2.2 n (by omega) (by omega)
    constructor
    · rw [items, if_neg filled, front]
      simp only [behind, later, List.map_cons]
    · rw [itemsFit, if_neg filled, fits, front]
      simp only [behind, later_fits, Bool.not_false, Bool.and_self]

theorem Isize.of_val (x : Isize) : Isize.of x.val = some x := dif_pos ⟨x.low, x.high⟩

theorem readTree_frame (checks : Bool) (t : Tree) {rest : List Byte}
    (small : (t.encode ++ rest).length < isizeEnd) :
    parseFrame checks (t.encode ++ rest) = some (.ok (⟨t.ftype, t.payload⟩, t.encode.length)) ∧
      parseTyped checks t.ftype (t.encode ++ rest) = some (.ok t.payload) := by
  rw [t.encode_eq] at small ⊢
  obtain ⟨plain, fits⟩ := framed_plain t.typed small
  exact ⟨by rw [parseFrame_plain checks fits, plain], parseTyped_framed checks t.typed small⟩

mutual
theorem readTree_encode (checks : Bool) (depth : Nat) (t : Tree) (rest : List Byte)
    (keys : t.textKeys = true) (deep : t.encode.length < depth)
    (small : (t.encode ++ rest).length < isizeEnd) :
    readTree checks depth (t.encode ++ rest) = some (.ok (t, t.encode.length)) := by
  obtain ⟨depth, rfl⟩ := Nat.exists_eq_add_of_le' (show 1 ≤ depth by omega)
  obtain ⟨frame, typed⟩ := readTree_frame checks t small
  rw [readTree, frame]
  cases t with
  | null =>
    simp only [Tree.ftype] at typed ⊢
    simp only [bind_eq_bind, bind_some, parseNull, typed]
    rfl
  | bool b =>
    simp only [Tree.ftype, Tree.payload] at typed ⊢
    simp only [bind_eq_bind, bind_some, parseBool, typed]
    cases b <;> rfl
  | int x =>
    simp only [Tree.ftype, Tree.payload] at typed ⊢
    simp only [bind_eq_bind, bind_some, parseInt, typed, isUtf8_intText, if_true,
      parseIsize_intText]
    simp only [Option.pure_def, bind_some, Isize.of_val, Option.map_some]
  | string s =>
    simp only [Tree.ftype, Tree.payload] at typed ⊢
    simp only [bind_eq_bind, bind_some, parseString, typed]
    rfl
  | array ts =>
    simp only [Tree.ftype, Tree.payload] at typed ⊢
    have length : (itemsEncode ts).length < (Tree.array ts).encode.length := by
      rw [Tree.encode, framed_length]
      omega
    rw [List.length_append] at small
    have inside : Inside (itemsEncode ts) 0 := ⟨Nat.zero_le _, by omega⟩
    obtain ⟨parts, fits⟩ := items_encode ts _ (Nat.le_refl _) inside.small
    have inner := readItems_encode checks depth ts keys (by omega) inside.small
    simp only [bind_eq_bind, bind_some, parseArray, typed]
    simp only [Option.pure_def, bind_some, sequence_all inside fits, parts, inner]
    rfl
  | map entries =>
    simp only [Tree.ftype, Tree.payload] at typed ⊢
    have length : (entriesEncode entries).length < (Tree.map entries).encode.length := by
      rw [Tree.encode, framed_length]
      omega
    rw [List.length_append] at small
    have inside : Inside (entriesEncode entries) 0 := ⟨Nat.zero_le _, by omega⟩
    obtain ⟨parts, fits⟩ := entries_encode entries keys _ (Nat.le_refl _) inside.small
    have inner := readEntries_encode checks depth entries keys (by omega) inside.small
    simp only [bind_eq_bind, bind_some, parseMap, typed]
    simp only [Option.pure_def, bind_some, map_all inside fits, parts, inner]
    rfl
theorem readItems_encode (checks : Bool) (depth : Nat) (ts : List Tree)
    (keys : itemsTextKeys ts = true) (deep : (itemsEncode ts).length < depth)
    (small : (itemsEncode ts).length < isizeEnd) :
    readItems (readTree checks depth) (ts.map fun t => .ok ⟨t.ftype, t.encode⟩) =
      some (.ok ts) := by
  cases ts with
  | nil => rfl
  | cons t ts =>
    simp only [itemsTextKeys, Bool.and_eq_true] at keys
    simp only [itemsEncode, List.length_append] at deep small
    have head :=
      readTree_encode checks depth t [] keys.1 (by omega) (by rw [List.append_nil]; omega)
    have tail := readItems_encode checks depth ts keys.2 (by omega) (by omega)
    rw [List.append_nil] at head
    simp only [List.map_cons, readItems, head, tail, bind_eq_bind, bind_some]
    rfl
theorem readEntries_encode (checks : Bool) (depth : Nat) (entries : List (List Byte × Tree))
    (keys : entriesTextKeys entries = true) (deep : (entriesEncode entries).length < depth)
    (small : (entriesEncode entries).length < isizeEnd) :
    readEntries (readTree checks depth)
      (entries.map fun entry => .ok ⟨entry.1, entry.2.ftype, entry.2.encode⟩) =
      some (.ok entries) := by
  cases entries with
  | nil => rfl
  | cons entry entries =>
    obtain ⟨key, t⟩ := entry
    simp only [entriesTextKeys, Bool.and_eq_true] at keys
    simp only [entriesEncode, List.length_append] at deep small
    have head :=
      readTree_encode checks depth t [] keys.2.1 (by omega) (by rw [List.append_nil]; omega)
    have tail := readEntries_encode checks depth entries keys.2.2 (by omega) (by omega)
    rw [List.append_nil] at head
    simp only [List.map_cons, readEntries, head, tail, bind_eq_bind, bind_some]
    rfl
end

theorem MapIterator.next_text {checks : Bool} {it it' : MapIterator} {item : MapItem}
    (ok : MapIterator.next checks it = some (some (.ok item), it')) : isUtf8 item.key = true := by
  unfold MapIterator.next at ok
  split at ok
  · cases ok
  · obtain ⟨first, _, rest⟩ := bind_eq_some_iff.mp ok
    split at rest
    · cases rest
    · rename_i kframe kend
      split at rest
      · cases rest
      · split at rest
        · cases rest
        · rename_i text
          obtain ⟨vpos, _, rest⟩ := bind_eq_some_iff.mp rest
          obtain ⟨tail, _, rest⟩ := bind_eq_some_iff.mp rest
          obtain ⟨value, _, rest⟩ := bind_eq_some_iff.mp rest
          split at rest
          · cases rest
          · obtain ⟨_, _, rest⟩ := bind_eq_some_iff.mp rest
            obtain ⟨_, _, last⟩ := bind_eq_some_iff.mp rest
            cases last
            simpa using text

theorem drain_text {checks : Bool} (calls : Nat) {it : MapIterator}
    {parts : List (Except ParseError MapItem)} (ok : drain (MapIterator.next checks) calls it =
    some parts) {item : MapItem} (mem : .ok item ∈ parts) :
    isUtf8 item.key = true := by
  induction calls generalizing it parts with
  | zero => cases ok
  | succ calls ih =>
    obtain ⟨⟨found, it'⟩, next, rest⟩ := bind_eq_some_iff.mp ok
    cases found with
    | none =>
      cases rest
      cases mem
    | some part =>
      obtain ⟨more, later, last⟩ := bind_eq_some_iff.mp rest
      cases last
      rcases List.mem_cons.mp mem with here | there
      · rw [← here] at next
        exact MapIterator.next_text next
      · exact ih later there

section
variable {read : List Byte → Option (Except ParseError (Tree × Nat))}

section
variable (reads : ∀ {src t k}, read src = some (.ok (t, k)) → t.textKeys = true)
include reads

theorem readItems_text {parts : List (Except ParseError SequenceItem)} {ts : List Tree}
    (ok : readItems read parts = some (.ok ts)) :
    itemsTextKeys ts = true := by
  induction parts generalizing ts with
  | nil =>
    cases ok
    rfl
  | cons part parts ih =>
    cases part with
    | error e => cases ok
    | ok item =>
      obtain ⟨first, head, rest⟩ := bind_eq_some_iff.mp ok
      cases first with
      | error e => cases rest
      | ok pair =>
        obtain ⟨later, tail, last⟩ := bind_eq_some_iff.mp rest
        cases later with
        | error e => cases last
        | ok more =>
          cases last
          simp only [itemsTextKeys, reads head, ih tail, Bool.and_self]

theorem readEntries_text {parts : List (Except ParseError MapItem)}
    (texts : ∀ {item}, .ok item ∈ parts → isUtf8 item.key = true)
    {entries : List (List Byte × Tree)} (ok : readEntries read parts = some (.ok entries)) :
    entriesTextKeys entries = true := by
  induction parts generalizing entries with
  | nil =>
    cases ok
    rfl
  | cons part parts ih =>
    cases part with
    | error e => cases ok
    | ok item =>
      obtain ⟨first, head, rest⟩ := bind_eq_some_iff.mp ok
      cases first with
      | error e => cases rest
      | ok pair =>
        obtain ⟨later, tail, last⟩ := bind_eq_some_iff.mp rest
        cases later with
        | error e => cases last
        | ok more =>
          cases last
          have others := ih (fun mem => texts (List.mem_cons_of_mem _ mem)) tail
          simp only [entriesTextKeys, texts List.mem_cons_self, reads head, others, Bool.and_self]

end

end

theorem readTree_text {checks : Bool} (depth : Nat) {src : List Byte} {t : Tree} {k : Nat}
    (ok : readTree checks depth src = some (.ok (t, k))) : t.textKeys = true := by
  induction depth generalizing src t k with
  | zero => cases ok
  | succ depth ih =>
    obtain ⟨first, _, rest⟩ := bind_eq_some_iff.mp ok
    cases first with
    | error e => cases rest
    | ok pair =>
      obtain ⟨⟨ftype, data⟩, end_⟩ := pair
      cases ftype with
      | null | bool | string =>
        obtain ⟨found, _, last⟩ := bind_eq_some_iff.mp rest
        cases found <;> cases last
        rfl
      | float => cases rest
      | int =>
        obtain ⟨found, _, last⟩ := bind_eq_some_iff.mp rest
        cases found with
        | error e => cases last
        | ok x =>
          obtain ⟨number, _, same⟩ := Option.map_eq_some_iff.mp last
          cases same
          rfl
      | array =>
        obtain ⟨found, _, last⟩ := bind_eq_some_iff.mp rest
        cases found with
        | error e => cases last
        | ok it =>
          obtain ⟨parts, _, last⟩ := bind_eq_some_iff.mp last
          obtain ⟨trees, inner, last⟩ := bind_eq_some_iff.mp last
          cases trees with
          | error e => cases last
          | ok ts =>
            cases last
            exact readItems_text ih inner
      | map =>
        obtain ⟨found, _, last⟩ := bind_eq_some_iff.mp rest
        cases found with
        | error e => cases last
        | ok it =>
          obtain ⟨parts, all, last⟩ := bind_eq_some_iff.mp last
          obtain ⟨trees, inner, last⟩ := bind_eq_some_iff.mp last
          cases trees with
          | error e => cases last
          | ok entries =>
            cases last
            exact readEntries_text ih (drain_text _ all) inner

/-- Every length in front of a payload is that of the payload, and the parser
    gives the tree back and takes all the bytes. -/
structure RoundTrip (checks : Bool) (t : Tree) (bytes : List Byte) : Prop where
  lengths : bytes = t.encode
  reads : readBack checks bytes = some (.ok (t, bytes.length))

theorem flush_output {checks : Bool} {t : Tree} {dest : Cursor} {writer flushed : Writer}
    (appended : (Writer.new dest).appendAll t.ops = (true, writer))
    (ok : writer.flush checks = some (true, flushed)) :
    ∃ len out, flushed.dest.written = dest.written ++ out ∧ out.length < isizeEnd ∧
      Measured len out t.encode t.hasMin := by
  obtain ⟨ops, same_dest⟩ := appendAll_spec appended
  rw [Writer.new, List.nil_append] at ops
  obtain ⟨lens, sized, written⟩ := flush_tree ops ok
  have small : (output t.ops lens).length < isizeEnd := by
    have inside := flushed.dest.inside
    have bound := flushed.dest.small
    rw [written, List.length_append] at inside
    omega
  exact ⟨_, output t.ops lens, by rw [written, same_dest]; rfl, small, t.measured sized small⟩

/-- A tree whose flush succeeds is given back exactly when none of its integers
    is `isize::MIN` and the keys of its maps are text. -/
theorem tree_round_trips_iff (checks : Bool) (t : Tree) (dest : Cursor) {writer flushed : Writer}
    (appended : (Writer.new dest).appendAll t.ops = (true, writer))
    (ok : writer.flush checks = some (true, flushed)) :
    RoundTrip checks t (flushed.dest.written.drop dest.written.length) ↔
      t.hasMin = false ∧ t.textKeys = true := by
  obtain ⟨len, out, written, small, measured⟩ := flush_output appended ok
  rw [written, List.drop_left]
  constructor
  · rintro ⟨lengths, reads⟩
    refine ⟨?_, readTree_text _ reads⟩
    by_contra low
    have shorter := measured.shorter (by simpa using low)
    rw [lengths] at shorter
    exact absurd shorter (Nat.lt_irrefl _)
  · rintro ⟨no_min, keys⟩
    have exactly := (measured.good no_min).1
    rw [exactly] at small ⊢
    have reads := readTree_encode checks (t.encode.length + 1) t [] keys (Nat.lt_succ_self _)
      (by rwa [List.append_nil])
    rw [List.append_nil] at reads
    exact ⟨rfl, reads⟩

def exampleDest : Cursor := ⟨64, [], by decide, by decide⟩

def exampleTree : Tree :=
  .map [(ascii "id", .array [.int ⟨-17, by decide, by decide⟩, .bool true, .null]),
    (ascii "body", .string [255])]

theorem example_tree_round_trips : ∃ writer flushed,
    (Writer.new exampleDest).appendAll exampleTree.ops = (true, writer) ∧
    writer.flush true = some (true, flushed) ∧ RoundTrip true exampleTree flushed.dest.written :=
  ⟨_, _, rfl, rfl, (tree_round_trips_iff true exampleTree exampleDest rfl rfl).mpr ⟨rfl, rfl⟩⟩

def lowest : Tree := .int ⟨-9223372036854775808, by decide, by decide⟩

theorem lowest_integer_is_lost : ∃ writer flushed, (Writer.new exampleDest).appendAll lowest.ops =
    (true, writer) ∧
    writer.flush false = some (true, flushed) ∧
      flushed.dest.written = ascii "2:-9223372036854775808#" ∧
    ¬ RoundTrip false lowest flushed.dest.written := by
  refine ⟨_, _, rfl, rfl, rfl, ?_⟩
  rintro ⟨lengths, _⟩
  exact absurd lengths (by decide)

end PushpinTnetstring
