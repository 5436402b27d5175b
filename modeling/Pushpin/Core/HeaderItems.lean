import Pushpin.Core.HttpHeaders

namespace PushpinHttpHeaders
open PushpinVariant (Bytes)

theorem findNonQuoted_length {c : UInt8} {inQuote : Bool} {value part after : Bytes}
    (found : findNonQuoted c inQuote value = some (part, some after)) :
    after.length < value.length := by
  fun_induction findNonQuoted c inQuote value generalizing part with
  | case1 => simp at found
  | case2 => simp at found
  | case3 => simp at found
  | case4 => simp at found
  | case5 d rest ih =>
    obtain ⟨⟨inner, _⟩, more, same⟩ := Option.map_eq_some_iff.mp found
    cases same
    have shorter := ih more
    simp only [List.length_cons]
    omega
  | case6 i d rest _ ih =>
    obtain ⟨⟨inner, _⟩, more, same⟩ := Option.map_eq_some_iff.mp found
    cases same
    exact Nat.lt_succ_of_lt (ih more)
  | case7 rest ih =>
    obtain ⟨⟨inner, _⟩, more, same⟩ := Option.map_eq_some_iff.mp found
    cases same
    exact Nat.lt_succ_of_lt (ih more)
  | case8 =>
    cases found
    exact Nat.lt_succ_self _
  | case9 i rest _ _ ih =>
    obtain ⟨⟨inner, _⟩, more, same⟩ := Option.map_eq_some_iff.mp found
    cases same
    exact Nat.lt_succ_of_lt (ih more)

theorem headerSplitFrom_fuel {fuel : Nat} {value : Bytes} (enough : value.length ≤ fuel) :
    headerSplitFrom fuel value = headerSplit value := by
  have any : ∀ fuel' fuel (value : Bytes), value.length ≤ fuel → value.length ≤ fuel' →
      headerSplitFrom fuel value = headerSplitFrom fuel' value := by
    intro fuel'
    induction fuel' with
    | zero =>
      intro fuel value _ enough'
      rw [List.length_eq_zero_iff.mp (Nat.le_zero.mp enough')]
      simp [headerSplitFrom]
    | succ fuel' ih =>
      intro fuel value enough enough'
      cases value with
      | nil => simp [headerSplitFrom]
      | cons b value =>
        obtain ⟨fuel, rfl⟩ : ∃ n, fuel = n + 1 :=
          ⟨fuel - 1, by rw [List.length_cons] at enough; omega⟩
        rw [headerSplitFrom, headerSplitFrom]
        · split
          · rfl
          · rfl
          · rename_i part after found
            have shorter := findNonQuoted_length found
            rw [List.length_cons] at shorter enough enough'
            rw [ih fuel after (by omega) (by omega)]
        · simp
        · simp
  exact any _ _ _ enough (Nat.le_refl _)

theorem quoted_length {value val after : Bytes} (read : quoted value = some (val, after)) :
    after.length < value.length := by
  fun_induction quoted value generalizing val with
  | case1 => simp at read
  | case2 =>
    cases read
    exact Nat.zero_lt_one
  | case3 => simp at read
  | case4 d rest ih =>
    obtain ⟨⟨inner, _⟩, more, same⟩ := Option.map_eq_some_iff.mp read
    cases same
    have shorter := ih more
    simp only [List.length_cons]
    omega
  | case5 =>
    cases read
    exact Nat.lt_succ_self _
  | case6 c d rest _ _ ih =>
    obtain ⟨⟨inner, _⟩, more, same⟩ := Option.map_eq_some_iff.mp read
    cases same
    exact Nat.lt_succ_of_lt (ih more)

theorem afterSemicolon_length (b : Bytes) : (afterSemicolon b).length ≤ b.length := by
  rw [afterSemicolon, List.length_drop]
  have fewer := (List.dropWhile_sublist (· ≠ (59 : UInt8)) (l := b)).length_le
  omega

theorem parseFrom_fuel {fuel : Nat} {value : Bytes} (enough : value.length ≤ fuel) :
    parseFrom fuel value = parseFrom value.length value := by
  have any : ∀ fuel' fuel (value : Bytes), value.length ≤ fuel → value.length ≤ fuel' →
      parseFrom fuel value = parseFrom fuel' value := by
    intro fuel'
    induction fuel' with
    | zero =>
      intro fuel value _ enough'
      rw [List.length_eq_zero_iff.mp (Nat.le_zero.mp enough')]
      simp [parseFrom]
    | succ fuel' ih =>
      intro fuel value enough enough'
      cases value with
      | nil => simp [parseFrom]
      | cons b value =>
        obtain ⟨fuel, rfl⟩ : ∃ n, fuel = n + 1 :=
          ⟨fuel - 1, by rw [List.length_cons] at enough; omega⟩
        have rest :=
          (List.dropWhile_sublist (fun b : UInt8 => b ≠ 61 && b ≠ 59) (l := b :: value)).length_le
        rw [parseFrom, parseFrom]
        · dsimp only
          generalize (b :: value).dropWhile (fun b => b ≠ 61 && b ≠ 59) = left at rest ⊢
          cases left with
          | nil => rfl
          | cons c after =>
            rw [List.length_cons] at rest
            dsimp only
            split
            · split
              · rename_i text
                cases read : quoted text with
                | none => rfl
                | some both =>
                  obtain ⟨val, after⟩ := both
                  have shorter := quoted_length read
                  have next := afterSemicolon_length after
                  simp only [List.length_cons] at rest enough enough'
                  have same := ih fuel (afterSemicolon after) (by omega) (by omega)
                  simp only [Option.bind_eq_bind, Option.bind_some, same]
              · have next := afterSemicolon_length after
                rw [ih fuel (afterSemicolon after) (by omega) (by omega)]
            · rw [ih fuel after (by omega) (by omega)]
        · simp
        · simp
  exact any _ _ _ enough (Nat.le_refl _)

def escape : Bytes → Bytes
  | [] => []
  | b :: bs => if b = 34 ∨ b = 92 then 92 :: b :: escape bs else b :: escape bs

def Spaces := { b : Bytes // ∀ c ∈ b, isSpace c = true }

structure Item where
  first : Bytes
  params : List (Bytes × Bytes)
  trimmed_first : trimmed first = first
  plain_first : ∀ b ∈ first, b ≠ 44 ∧ b ≠ 59 ∧ b ≠ 34 ∧ b ≠ 92
  trimmed_names : ∀ p ∈ params, trimmed p.1 = p.1
  plain_names : ∀ p ∈ params, ∀ b ∈ p.1, b ≠ 61 ∧ b ≠ 59 ∧ b ≠ 44 ∧ b ≠ 34

def parameterText (gap : Spaces) (p : Bytes × Bytes) : Bytes :=
  gap.1 ++ p.1 ++ [61, 34] ++ escape p.2 ++ [34]

def Item.text (gap : Spaces) (item : Item) : Bytes :=
  item.first ++ item.params.flatMap fun p => 59 :: parameterText gap p

def joinItems (gap : Spaces) (items : List Item) : Bytes :=
  [44, 32].intercalate (items.map (Item.text gap))

def Item.parameters (item : Item) : Parameters :=
  (item.first, none) :: item.params.map fun p => (p.1, if p.2 = [] then none else some p.2)

def before (text : Bytes) (r : Option (Bytes × Option Bytes)) : Option (Bytes × Option Bytes) :=
  r.map fun (part, after) => (text ++ part, after)

theorem before_before (a b : Bytes) (r : Option (Bytes × Option Bytes)) :
    before a (before b r) = before (a ++ b) r := by
  cases r with
  | none => rfl
  | some both => simp [before]

def Closed (text : Bytes) : Prop :=
  ∀ rest, findNonQuoted 44 false (text ++ rest) = before text (findNonQuoted 44 false rest)

theorem Closed.append {a b : Bytes} (first : Closed a) (second : Closed b) : Closed (a ++ b) := by
  intro rest
  rw [List.append_assoc, first, second, before_before]

theorem closed_nil : Closed [] := by
  intro rest
  rw [List.nil_append, before]
  simp

theorem closed_plain {text : Bytes} (plain : ∀ b ∈ text, b ≠ 34 ∧ b ≠ 44) : Closed text := by
  induction text with
  | nil => exact closed_nil
  | cons b text ih =>
    intro rest
    obtain ⟨here, plain⟩ := List.forall_mem_cons.mp plain
    rw [List.cons_append, findNonQuoted, if_neg here.1, if_neg here.2, ih plain]
    exact before_before [b] text _

theorem findNonQuoted_escape (value rest : Bytes) :
    findNonQuoted 44 true (escape value ++ 34 :: rest) =
    before (escape value ++ [34]) (findNonQuoted 44 false rest) := by
  induction value with
  | nil =>
    cases rest with
    | nil => simp [escape, findNonQuoted, before]
    | cons d rest => simp [escape, findNonQuoted, before]
  | cons b value ih =>
    rw [escape]
    split
    · rw [List.cons_append, List.cons_append, findNonQuoted, if_pos rfl, ih]
      exact before_before [92, b] (escape value ++ [34]) _
    · rename_i plain
      obtain ⟨d, more, shape⟩ : ∃ d more, escape value ++ 34 :: rest = d :: more := by
        cases escaped : escape value ++ 34 :: rest with
        | nil => simp at escaped
        | cons d more => exact ⟨d, more, rfl⟩
      have noQuote : b ≠ 34 := fun quote => plain (Or.inl quote)
      have noEscape : b ≠ 92 := fun slash => plain (Or.inr slash)
      rw [List.cons_append, shape, findNonQuoted, if_neg noEscape, ← shape]
      simp only [noQuote, ne_eq, not_false_eq_true, decide_true]
      rw [ih]
      exact before_before [b] (escape value ++ [34]) _

theorem Spaces.apart (gap : Spaces) : ∀ b ∈ gap.1, b ≠ 34 ∧ b ≠ 44 ∧ b ≠ 59 ∧ b ≠ 61 := by
  intro b member
  have space := gap.2 b member
  refine ⟨?_, ?_, ?_, ?_⟩ <;> rintro rfl <;> exact absurd space (by decide)

section
variable (gap : Spaces) (item : Item)

theorem closed_parameter {p : Bytes × Bytes} (plain : ∀ b ∈ p.1, b ≠ 61 ∧ b ≠ 59 ∧ b ≠ 44 ∧
    b ≠ 34) : Closed (59 :: parameterText gap p) := by
  have front : Closed (59 :: (gap.1 ++ p.1 ++ [61])) := by
    apply closed_plain
    intro b member
    simp only [List.mem_cons, List.mem_append, List.not_mem_nil, or_false] at member
    obtain rfl | (inGap | inName) | rfl := member
    · decide
    · exact ⟨(gap.apart b inGap).1, (gap.apart b inGap).2.1⟩
    · exact ⟨(plain b inName).2.2.2, (plain b inName).2.2.1⟩
    · decide
  have value : Closed (34 :: (escape p.2 ++ [34])) := by
    intro rest
    have inside : 34 :: (escape p.2 ++ [34]) ++ rest = 34 :: (escape p.2 ++ 34 :: rest) := by simp
    rw [inside, findNonQuoted, if_pos rfl, findNonQuoted_escape]
    exact before_before [34] (escape p.2 ++ [34]) _
  have whole : 59 :: parameterText gap p = 59 :: (gap.1 ++ p.1 ++ [61]) ++ 34 ::
      (escape p.2 ++ [34]) := by
    simp [parameterText]
  rw [whole]
  exact front.append value

theorem closed_item : Closed (item.text gap) := by
  have params : ∀ ps : List (Bytes × Bytes), (∀ p ∈ ps, ∀ b ∈ p.1, b ≠ 61 ∧ b ≠ 59 ∧ b ≠ 44 ∧
      b ≠ 34) → Closed (ps.flatMap fun p => 59 :: parameterText gap p) := by
    intro ps plain
    induction ps with
    | nil => exact closed_nil
    | cons p ps ih =>
      obtain ⟨here, plain⟩ := List.forall_mem_cons.mp plain
      exact (closed_parameter gap here).append (ih plain)
  apply Closed.append
  · apply closed_plain
    intro b member
    obtain ⟨comma, _, quote, _⟩ := item.plain_first b member
    exact ⟨quote, comma⟩
  · exact params item.params item.plain_names

end

theorem headerSplit_last {text : Bytes} (closed : Closed text) (some_ : text ≠ []) :
    headerSplit text = [trimmed text] := by
  have found := closed []
  rw [List.append_nil] at found
  cases text with
  | nil => exact absurd rfl some_
  | cons b text =>
    rw [headerSplit, List.length_cons, headerSplitFrom, found]
    · simp [findNonQuoted, before]
    · simp

theorem headerSplit_more {text : Bytes} (closed : Closed text) (rest : Bytes) :
    headerSplit (text ++ 44 :: rest) = trimmed text :: headerSplit rest := by
  have found : findNonQuoted 44 false (text ++ 44 :: rest) = some (text, some rest) := by
    rw [closed]
    simp [findNonQuoted, before]
  have size : (text ++ 44 :: rest).length = (text.length + rest.length) + 1 := by
    rw [List.length_append, List.length_cons, Nat.add_assoc]
  rw [headerSplit, size, headerSplitFrom, found]
  · dsimp only
    rw [headerSplitFrom_fuel (by omega)]
  · simp

theorem trimmed_spaces (gap : Spaces) (text : Bytes) : trimmed (gap.1 ++ text) = trimmed text := by
  rw [trimmed, trimmed, List.dropWhile_append_of_pos gap.2]

theorem trimmed_of_ends {text : Bytes} (front : ∀ b, text.head? = some b → isSpace b = false)
    (back : ∀ b, text.getLast? = some b → isSpace b = false) : trimmed text = text := by
  have stays : ∀ t : Bytes, (∀ b, t.head? = some b → isSpace b = false) →
      t.dropWhile isSpace = t := by
    intro t clean
    cases t with
    | nil => rfl
    | cons b t => exact List.dropWhile_cons_of_neg (by simp [clean b rfl])
  rw [trimmed, stays text front, stays, List.reverse_reverse]
  intro b isLast
  exact back b (by rw [← isLast, List.head?_reverse])

theorem trimmed_head {b : UInt8} {text : Bytes} (clean : trimmed (b :: text) = b :: text) :
    isSpace b = false := by
  by_contra space
  have dropped : (b :: text).dropWhile isSpace = text.dropWhile isSpace :=
    List.dropWhile_cons_of_pos (Bool.not_eq_false _ ▸ space)
  have size := congrArg List.length clean
  have fewer := (List.dropWhile_sublist isSpace (l := text)).length_le
  have fewer' := (List.dropWhile_sublist isSpace (l := (text.dropWhile isSpace).reverse)).length_le
  rw [trimmed, dropped, List.length_reverse, List.length_cons] at size
  rw [List.length_reverse] at fewer'
  omega

theorem trimmed_item (gap : Spaces) (item : Item) : trimmed (item.text gap) = item.text gap := by
  cases ends : item.params.getLast? with
  | none =>
    rw [Item.text, List.getLast?_eq_none_iff.mp ends, List.flatMap_nil, List.append_nil,
      item.trimmed_first]
  | some last =>
    obtain ⟨params, shape⟩ := List.getLast?_eq_some_iff.mp ends
    apply trimmed_of_ends
    · intro b isFirst
      cases first : item.first with
      | nil =>
        have semicolon : b = 59 := by
          cases params with
          | nil => simpa [Item.text, first, shape, eq_comm] using isFirst
          | cons p params => simpa [Item.text, first, shape, eq_comm] using isFirst
        rw [semicolon]
        decide
      | cons c rest =>
        have same : c = b := by simpa [Item.text, first] using isFirst
        rw [← same]
        exact trimmed_head (first ▸ item.trimmed_first)
    · intro b isLast
      have tail : item.text gap = item.first ++
        (params.flatMap fun p => 59 :: parameterText gap p) ++
          59 :: (gap.1 ++ last.1 ++ [61, 34] ++ escape last.2) ++ [34] := by
        simp [Item.text, shape, parameterText]
      rw [tail, List.getLast?_concat] at isLast
      cases isLast
      decide

theorem headerSplit_items (gap lead : Spaces) (item : Item) (items : List Item)
    (some_ : lead.1 ++ joinItems gap (item :: items) ≠ []) :
    headerSplit (lead.1 ++ joinItems gap (item :: items)) =
      (item :: items).map (Item.text gap) := by
  have closed : ∀ i : Item, Closed (lead.1 ++ i.text gap) := by
    intro i
    apply Closed.append
    · exact closed_plain fun b member => ⟨(lead.apart b member).1, (lead.apart b member).2.1⟩
    · exact closed_item gap i
  induction items generalizing lead item with
  | nil =>
    have single : joinItems gap [item] = item.text gap := by simp [joinItems, List.intercalate]
    rw [single] at some_ ⊢
    rw [headerSplit_last (closed item) some_, trimmed_spaces, trimmed_item]
    rfl
  | cons next items ih =>
    have joined : lead.1 ++ joinItems gap (item :: next :: items) =
        lead.1 ++ item.text gap ++ 44 :: (32 :: joinItems gap (next :: items)) := by
      simp [joinItems, List.intercalate]
    have rest := ih ⟨[32], by simp [isSpace]⟩ next (by simp)
      (fun i => closed_plain (by simp) |>.append (closed_item gap i))
    rw [List.singleton_append] at rest
    rw [joined, headerSplit_more (closed item), rest, trimmed_spaces, trimmed_item]
    rfl

theorem quoted_escape (value rest : Bytes) :
    quoted (escape value ++ 34 :: rest) = some (value, rest) := by
  induction value with
  | nil =>
    cases rest with
    | nil => simp [escape, quoted]
    | cons d rest => simp [escape, quoted]
  | cons b value ih =>
    rw [escape]
    split
    · rw [List.cons_append, List.cons_append, quoted, if_pos rfl, ih]
      rfl
    · rename_i plain
      obtain ⟨d, more, shape⟩ : ∃ d more, escape value ++ 34 :: rest = d :: more := by
        cases escaped : escape value ++ 34 :: rest with
        | nil => simp at escaped
        | cons d more => exact ⟨d, more, rfl⟩
      have noQuote : b ≠ 34 := fun quote => plain (Or.inl quote)
      have noEscape : b ≠ 92 := fun slash => plain (Or.inr slash)
      rw [List.cons_append, shape, quoted, if_neg noEscape, if_neg noQuote, ← shape, ih]
      rfl

theorem takeWhile_stop {p : UInt8 → Bool} {front : Bytes} {b : UInt8}
    (pass : ∀ c ∈ front, p c = true) (stop : p b = false) (rest : Bytes) :
    (front ++ b :: rest).takeWhile p = front ∧ (front ++ b :: rest).dropWhile p = b :: rest := by
  constructor
  · rw [List.takeWhile_append_of_pos pass, List.takeWhile_cons_of_neg (by simp [stop]),
      List.append_nil]
  · rw [List.dropWhile_append_of_pos pass, List.dropWhile_cons_of_neg (by simp [stop])]

theorem parseFrom_parameter (gap : Spaces) {p : Bytes × Bytes} (trimmed_name : trimmed p.1 = p.1)
    (plain : ∀ b ∈ p.1, b ≠ 61 ∧ b ≠ 59 ∧ b ≠ 44 ∧ b ≠ 34) (fuel : Nat) (rest : Bytes) :
    parseFrom (fuel + 1) (parameterText gap p ++ rest) = (parseFrom fuel (afterSemicolon rest)).map
      ((p.1, if p.2 = [] then none else some p.2) :: ·) := by
  have shape : parameterText gap p ++ rest = (gap.1 ++ p.1) ++ 61 :: 34 ::
      (escape p.2 ++ 34 :: rest) := by
    simp [parameterText]
  have pass : ∀ b ∈ gap.1 ++ p.1, (b ≠ 61 && b ≠ 59) = true := by
    intro b member
    cases List.mem_append.mp member with
    | inl inGap => simp [(gap.apart b inGap).2.2]
    | inr inName => simp [(plain b inName).1, (plain b inName).2.1]
  obtain ⟨name, value⟩ := @takeWhile_stop (fun b => b ≠ 61 && b ≠ 59) _ 61 pass (by decide)
    (34 :: (escape p.2 ++ 34 :: rest))
  rw [shape, parseFrom, name, value]
  · dsimp only
    rw [if_pos rfl, trimmed_spaces, trimmed_name]
    split
    · rename_i text same
      cases same
      rw [quoted_escape, Option.bind_eq_bind, Option.bind_some]
      cases parseFrom fuel (afterSemicolon rest) <;> rfl
    · rename_i other
      exact absurd rfl (other _)
  · simp

theorem parseFrom_parameters (gap : Spaces) (params : List (Bytes × Bytes))
    (trimmed_names : ∀ p ∈ params, trimmed p.1 = p.1)
    (plain_names : ∀ p ∈ params, ∀ b ∈ p.1, b ≠ 61 ∧ b ≠ 59 ∧ b ≠ 44 ∧ b ≠ 34) (fuel : Nat)
    (enough : params.length ≤ fuel) :
    parseFrom fuel (afterSemicolon (params.flatMap fun p => 59 :: parameterText gap p)) =
      some (params.map fun p => (p.1, if p.2 = [] then none else some p.2)) := by
  induction params generalizing fuel with
  | nil => simp [afterSemicolon, parseFrom]
  | cons p params ih =>
    obtain ⟨fuel, rfl⟩ : ∃ n, fuel = n + 1 := ⟨fuel - 1, by rw [List.length_cons] at enough; omega⟩
    obtain ⟨trimmed_name, trimmed_names⟩ := List.forall_mem_cons.mp trimmed_names
    obtain ⟨plain_name, plain_names⟩ := List.forall_mem_cons.mp plain_names
    have next : afterSemicolon ((p :: params).flatMap fun p => 59 :: parameterText gap p) =
        parameterText gap p ++ params.flatMap fun p => 59 :: parameterText gap p := by
      simp [afterSemicolon]
    rw [next, parseFrom_parameter gap trimmed_name plain_name,
      ih trimmed_names plain_names fuel (Nat.le_of_succ_le_succ enough)]
    rfl

theorem parseParameters_item (gap : Spaces) (item : Item) :
    parseParameters (item.text gap) .noParseFirstParameter = some item.parameters := by
  have pass : ∀ b ∈ item.first, decide (b ≠ 59) = true := by
    intro b member
    exact decide_eq_true (item.plain_first b member).2.1
  have enough : item.params.length ≤ (item.text gap).length := by
    rw [Item.text, List.length_append]
    have each : item.params.length ≤
        (item.params.flatMap fun p => 59 :: parameterText gap p).length := by
      induction item.params with
      | nil => exact Nat.le_refl _
      | cons p params ih =>
        rw [List.flatMap_cons, List.length_append, List.length_cons, List.length_cons]
        omega
    omega
  have first : (item.text gap).takeWhile (· ≠ 59) = item.first := by
    rw [Item.text, List.takeWhile_append_of_pos pass]
    cases item.params with
    | nil => simp
    | cons p params => simp
  have rest : afterSemicolon (item.text gap) =
      afterSemicolon (item.params.flatMap fun p => 59 :: parameterText gap p) := by
    rw [afterSemicolon, afterSemicolon, Item.text, List.dropWhile_append_of_pos pass]
  rw [parseParameters, rest, parseFrom_parameters gap item.params item.trimmed_names
    item.plain_names _ enough, first, item.trimmed_first]
  rfl

theorem getAll_cons {name key : Bytes} (same : sameName name key = true) (text : Bytes)
    (hs : Headers) :
    Headers.getAll ((name, text) :: hs) key = headerSplit text ++ Headers.getAll hs key := by
  rw [Headers.getAll, Headers.getAll, List.filter_cons, if_pos same, List.flatMap_cons]

/-- A header with a list of items gives the items, and so does a header for each item,
    unless there is nothing in a header. The loops end for any value. -/
theorem getAllAsParameters_items {name key : Bytes} (same : sameName name key = true)
    (gap : Spaces) :
    (∀ items, Headers.getAllAsParameters [(name, joinItems gap items)] key .noParseFirstParameter =
      if joinItems gap items = [] then [] else items.map Item.parameters) ∧
    (∀ items : List Item,
      Headers.getAllAsParameters (items.map fun i => (name, i.text gap))
        key .noParseFirstParameter = (items.filter fun i => i.text gap ≠ []).map Item.parameters) ∧
    ∀ value more, headerSplitFrom (value.length + more) value = headerSplit value ∧
      parseFrom (value.length + more) value = parseFrom value.length value := by
  have parsed : ∀ items : List Item, (items.map (Item.text gap)).filterMap
      (fun value => parseParameters value .noParseFirstParameter) = items.map Item.parameters := by
    intro items
    induction items with
    | nil => rfl
    | cons item items ih =>
      rw [List.map_cons, List.filterMap_cons, parseParameters_item gap item, ih]
      rfl
  refine ⟨fun items => ?_, fun items => ?_, fun value more => ?_⟩
  · have values :
        Headers.getAll [(name, joinItems gap items)] key = headerSplit (joinItems gap items) := by
      rw [getAll_cons same]
      exact List.append_nil _
    rw [Headers.getAllAsParameters, values]
    split
    · rename_i empty
      rw [empty]
      rfl
    · rename_i some_
      cases items with
      | nil => exact absurd rfl some_
      | cons item items =>
        have split := headerSplit_items gap ⟨[], by simp⟩ item items some_
        rw [List.nil_append] at split
        rw [split, parsed]
  · have values : Headers.getAll (items.map fun i => (name, i.text gap)) key =
        (items.filter fun i => i.text gap ≠ []).map (Item.text gap) := by
      induction items with
      | nil => rfl
      | cons item items ih =>
        rw [List.map_cons, getAll_cons same, ih]
        by_cases empty : item.text gap = []
        · rw [List.filter_cons_of_neg (by simp [empty]), empty]
          rfl
        · rw [List.filter_cons_of_pos (by simp [empty]),
            headerSplit_last (closed_item gap item) empty, trimmed_item]
          rfl
    rw [Headers.getAllAsParameters, values, parsed]
  · exact ⟨headerSplitFrom_fuel (Nat.le_add_right _ _), parseFrom_fuel (Nat.le_add_right _ _)⟩

def Item.named (first name value : Bytes) (trimmed_first : trimmed first = first)
    (plain_first : ∀ b ∈ first, b ≠ 44 ∧ b ≠ 59 ∧ b ≠ 34 ∧ b ≠ 92)
    (trimmed_name : trimmed name = name)
    (plain_name : ∀ b ∈ name, b ≠ 61 ∧ b ≠ 59 ∧ b ≠ 44 ∧ b ≠ 34) : Item where
  first := first
  params := [(name, value)]
  trimmed_first := trimmed_first
  plain_first := plain_first
  trimmed_names := fun p member => by
    rw [List.mem_singleton.mp member]
    exact trimmed_name
  plain_names := fun p member => by
    rw [List.mem_singleton.mp member]
    exact plain_name

def Item.blank : Item where
  first := []
  params := []
  trimmed_first := rfl
  plain_first := by simp
  trimmed_names := by simp
  plain_names := by simp

theorem getAllAsParameters_items_example :
    Headers.getAllAsParameters [(ascii "grip-channel", joinItems ⟨[32], by decide +kernel⟩
      [Item.named (ascii "news") (ascii "prev-id") [44, 59, 34, 92] (by decide) (by decide +kernel)
      (by decide) (by decide +kernel),
        Item.blank])] (ascii "Grip-Channel") .noParseFirstParameter =
      [[(ascii "news", none), (ascii "prev-id", some [44, 59, 34, 92])], [([], none)]] := by
  have read := (@getAllAsParameters_items (ascii "grip-channel") (ascii "Grip-Channel") (by decide)
    ⟨[32], by decide +kernel⟩).1
    [Item.named (ascii "news") (ascii "prev-id") [44, 59, 34, 92] (by decide) (by decide +kernel)
      (by decide) (by decide +kernel), Item.blank]
  rw [read, if_neg (by decide)]
  rfl

theorem blank_item_lost : ¬ ∀ (gap : Spaces) (items : List Item) (key : Bytes),
    Headers.getAllAsParameters [(key, joinItems gap items)] key .noParseFirstParameter =
      items.map Item.parameters := by
  intro holds
  have read := holds ⟨[32], by decide +kernel⟩ [Item.blank] (ascii "Grip-Channel")
  revert read
  decide

end PushpinHttpHeaders
