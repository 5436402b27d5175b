import Pushpin.Proxy.RoutesFile

namespace PushpinRoutesFile
open PushpinVariant (Bytes)
open PushpinHttpHeaders (ascii)

def escape (text : Bytes) : Bytes := text.flatMap fun c => if c = backslash ∨ c = quote then
    [backslash, c] else [c]

inductive Spells : Bytes → Bytes → Prop where
  | nil : Spells [] []
  | raw {c : UInt8} {printed text : Bytes} (noQuote : c ≠ quote) (inside : ends c = false)
      (more : Spells printed text) : Spells (c :: printed) (c :: text)
  | quoted {printed text : Bytes} (inner : Bytes) (more : Spells printed text) :
      Spells (quote :: (escape inner ++ quote :: printed)) (inner ++ text)

inductive PropText : Bytes × Bytes → Bytes → Prop where
  | valued {name value : Bytes} (some_ : name ≠ []) (plain : equals ∉ name) :
      PropText (name, value) (name ++ equals :: value)
  | flag {name : Bytes} (some_ : name ≠ []) (plain : equals ∉ name) : PropText (name, []) name

inductive Props : List (Bytes × Bytes) → Bytes → Prop where
  | nil : Props [] []
  | cons {prop : Bytes × Bytes} {text printed rest : Bytes} {props : List (Bytes × Bytes)}
      (isProp : PropText prop text)
      (spells : Spells printed text) (more : Props props rest) :
        Props (prop :: props) (comma :: (printed ++ rest))

/-- The printed forms of a section. A bare one has no initial value, and no comma before
    its first prop. -/
inductive Prints : Bool → RouteSection → Bytes → Prop where
  | valued {value printed rest : Bytes} {props : List (Bytes × Bytes)}
      (spells : Spells printed value)
      (more : Props props rest) (visible : printed ++ rest ≠ []) :
        Prints false ⟨value, props⟩ (printed ++ rest)
  | bare {name value printed rest : Bytes} {props : List (Bytes × Bytes)} (some_ : name ≠ [])
      (plain : equals ∉ name)
      (spells : Spells printed (name ++ equals :: value)) (more : Props props rest) :
      Prints true ⟨[], (name, value) :: props⟩ (printed ++ rest)

structure Item where
  spaces : Nat
  bare : Bool
  section_ : RouteSection
  printed : Bytes
  prints : Prints bare section_ printed

def Item.text (i : Item) : Bytes := List.replicate i.spaces space ++ i.printed

inductive Tail : Bytes → Prop where
  | spaces (n : Nat) : Tail (List.replicate n space)
  | comment (n : Nat) (text : Bytes) : Tail (List.replicate n space ++ hash :: text)

theorem readPart_escaped (part : Bytes) {c : UInt8} (special : c = backslash ∨ c = quote)
    (rest : Bytes) :
    readPart true part (backslash :: c :: rest) = readPart true (part ++ [c]) rest := by
  rw [readPart, if_pos rfl, if_pos rfl, if_pos special]

theorem readPart_inner (part : Bytes) {c : UInt8} (plain : ¬ (c = backslash ∨ c = quote))
    (rest : Bytes) : readPart true part (c :: rest) = readPart true (part ++ [c]) rest := by
  rw [not_or] at plain
  cases rest with
  | nil => simp [readPart, plain.1, plain.2]
  | cons d rest => rw [readPart, if_pos rfl, if_neg plain.1, if_neg plain.2]

theorem readPart_closing (part rest : Bytes) :
    readPart true part (quote :: rest) = readPart false part rest := by
  cases rest <;> rfl

theorem readPart_escape (inner part rest : Bytes) :
    readPart true part (escape inner ++ quote :: rest) = readPart false (part ++ inner) rest := by
  induction inner generalizing part with
  | nil => rw [List.append_nil, escape, List.flatMap_nil, List.nil_append, readPart_closing]
  | cons c inner ih =>
    have first : escape (c :: inner) = (if c = backslash ∨ c = quote then
        [backslash, c] else [c]) ++ escape inner :=
      List.flatMap_cons
    have whole : part ++ c :: inner = (part ++ [c]) ++ inner := by simp
    rw [first, whole, ← ih]
    split
    · rename_i special
      exact readPart_escaped part special _
    · rename_i plain
      exact readPart_inner part plain _

def Stops (rest : Bytes) : Prop := ∀ c ∈ rest.head?, ends c = true

theorem readPart_spells {printed text : Bytes} (spells : Spells printed text) (part : Bytes)
    {rest : Bytes} (stops : Stops rest) :
    readPart false part (printed ++ rest) = .ok (part ++ text, rest) := by
  induction spells generalizing part with
  | nil =>
    rw [List.nil_append, List.append_nil]
    cases rest with
    | nil => rfl
    | cons c rest =>
      have isEnd := stops c rfl
      have noQuote : c ≠ quote := by
        rintro rfl
        cases isEnd
      rw [readPart_plain, if_neg noQuote, if_pos isEnd]
  | @raw c printed text noQuote inside more ih =>
    rw [List.cons_append, readPart_plain, if_neg noQuote, if_neg (by simp [inside]), ih,
      List.append_assoc]
    rfl
  | @quoted printed text inner more ih =>
    rw [List.cons_append, readPart_plain, if_pos rfl, List.append_assoc, List.cons_append,
      readPart_escape, ih, List.append_assoc]

variable {name : Bytes}

theorem splitProp_append (plain : equals ∉ name) (value : Bytes) :
    splitProp (name ++ equals :: value) = (name, value) := by
  have other : ∀ c ∈ name, decide (c ≠ equals) = true :=
    fun c member => decide_eq_true fun same => plain (same ▸ member)
  rw [splitProp, if_pos (by simp), List.takeWhile_append_of_pos other,
    List.dropWhile_append_of_pos other]
  simp

variable {value text : Bytes}

theorem splitProp_text (isProp : PropText (name, value) text) :
    splitProp text = (name, value) ∧ text ≠ [] ∧ name ≠ [] := by
  cases isProp with
  | valued some_ plain => exact ⟨splitProp_append plain value, by simp, some_⟩
  | flag some_ plain => exact ⟨by rw [splitProp, if_neg plain], some_, some_⟩

def Reads (p : LineParser) (out : List RouteSection) (p' : LineParser) (out' : List RouteSection) :
    Prop :=
  ∃ tokens, ∀ n, parseFrom (n + tokens) p out = parseFrom n p' out'

theorem Reads.refl (p : LineParser) (out : List RouteSection) : Reads p out p out :=
  ⟨0, fun _ => rfl⟩

variable {p : LineParser}

theorem Reads.trans {q r : LineParser} {a b c : List RouteSection} (one : Reads p a q b)
    (two : Reads q b r c) : Reads p a r c := by
  obtain ⟨m, one⟩ := one
  obtain ⟨k, two⟩ := two
  exact ⟨k + m, fun n => by rw [← Nat.add_assoc, one, two]⟩

theorem Reads.initialValue {p' : LineParser} (token : p.nextToken = (.initialValue value, p'))
    (out : List RouteSection) : Reads p out p' (out ++ [⟨value, []⟩]) :=
  ⟨1, fun n => by rw [parseFrom, token]⟩

theorem Reads.prop {p' : LineParser} (token : p.nextToken = (.prop name value, p'))
    (front : List RouteSection) (s : RouteSection) :
    Reads p (front ++ [s]) p' (front ++ [{ s with props := s.props ++ [(name, value)] }]) :=
  ⟨1, fun n => by rw [parseFrom, token]; dsimp only; rw [addProp_last]⟩

variable {printed rest : Bytes}

theorem nextToken_prop (isProp : PropText (name, value) text)
    (spells : Spells printed text) (stops : Stops rest) :
    LineParser.nextToken ⟨.readProp, printed ++ rest⟩ = (.prop name value, afterPart rest) := by
  obtain ⟨split, some_, named⟩ := splitProp_text isProp
  rw [LineParser.nextToken]
  dsimp only
  rw [LineParser.readToken, readPart_spells spells [] stops, List.nil_append]
  dsimp only
  rw [if_neg State.noConfusion, if_neg some_, split]
  dsimp only
  rw [if_neg named]

def Clear (rest : Bytes) : Prop := ∀ c ∈ rest.head?, c = space ∨ c = hash

theorem Clear.afterPart (clear : Clear rest) : afterPart rest = ⟨.readSeparator, rest⟩ := by
  cases rest with
  | nil => rfl
  | cons c rest =>
    have noComma : c ≠ comma := by
      rintro rfl
      exact absurd (clear comma rfl) (by decide)
    rw [PushpinRoutesFile.afterPart, if_neg noComma]

section
variable {props : List (Bytes × Bytes)} (isProps : Props props printed) (clear : Clear rest)
include isProps clear

theorem Props.stops : Stops (printed ++ rest) := by
  cases isProps with
  | nil =>
    intro c first
    rcases clear c first with rfl | rfl
    · rfl
    · rfl
  | cons isProp spells more =>
    intro c first
    cases first
    rfl

theorem reads_props (front : List RouteSection) (s : RouteSection) :
    Reads (afterPart (printed ++ rest)) (front ++ [s]) ⟨.readSeparator, rest⟩
      (front ++ [{ s with props := s.props ++ props }]) := by
  induction isProps generalizing s with
  | nil =>
    rw [List.nil_append, clear.afterPart, List.append_nil]
    exact Reads.refl _ _
  | @cons prop text printed more props isProp spells later ih =>
    obtain ⟨name, value⟩ := prop
    have next : afterPart (comma :: (printed ++ more) ++ rest) =
        ⟨.readProp, printed ++ (more ++ rest)⟩ := by
      rw [List.cons_append, afterPart, if_pos rfl, List.append_assoc]
    rw [next]
    have one := Reads.prop (nextToken_prop isProp spells (later.stops clear)) front s
    have rest_ := ih { s with props := s.props ++ [(name, value)] }
    rw [List.append_assoc, List.singleton_append] at rest_
    exact one.trans rest_

end

theorem prints_first {bare : Bool} {s : RouteSection} (prints : Prints bare s printed) :
    ∃ c rest, printed = c :: rest ∧ c ≠ space ∧ c ≠ hash := by
  have spelled : ∀ {printed text : Bytes}, Spells printed text → printed ≠ [] →
      ∃ c rest, printed = c :: rest ∧ c ≠ space ∧ c ≠ hash := by
    intro printed text spells some_
    cases spells with
    | nil => exact absurd rfl some_
    | @raw c printed text noQuote inside more =>
      refine ⟨c, printed, rfl, ?_, ?_⟩
      all_goals
        rintro rfl
        cases inside
    | quoted inner more => exact ⟨quote, _, rfl, by decide, by decide⟩
  cases prints with
  | @valued value printed rest props spells more visible =>
    cases printed with
    | nil =>
      cases more with
      | nil => exact absurd rfl visible
      | cons isProp spells' later => exact ⟨comma, _, rfl, by decide, by decide⟩
    | cons c printed =>
      obtain ⟨d, later, split, noSpace, noHash⟩ := spelled spells (by simp)
      cases split
      exact ⟨c, printed ++ rest, rfl, noSpace, noHash⟩
  | @bare name value printed rest props some_ plain spells more =>
    cases printed with
    | nil =>
      generalize whole : name ++ equals :: value = text at spells
      cases spells
      exact absurd whole (by simp)
    | cons c printed =>
      obtain ⟨d, later, split, noSpace, noHash⟩ := spelled spells (by simp)
      cases split
      exact ⟨c, printed ++ rest, rfl, noSpace, noHash⟩

theorem dropWhile_spaces (n : Nat) {rest : Bytes} (first : ∀ c ∈ rest.head?, c ≠ space) :
    (List.replicate n space ++ rest).dropWhile (· = space) = rest := by
  rw [List.dropWhile_append_of_pos (by simp +contextual)]
  cases rest with
  | nil => rfl
  | cons c rest => rw [List.dropWhile_cons_of_neg (by simpa using first c rfl)]

theorem nextToken_section {bare : Bool} {s : RouteSection} (prints : Prints bare s printed)
    (spaces : Nat) (rest : Bytes) :
    LineParser.nextToken ⟨.readSeparator, List.replicate spaces space ++ (printed ++ rest)⟩ =
      LineParser.readToken .readInitialValue (List.replicate spaces space ++ (printed ++ rest))
        (printed ++ rest) := by
  obtain ⟨c, more, rfl, noSpace, noHash⟩ := prints_first prints
  rw [LineParser.nextToken]
  dsimp only
  rw [dropWhile_spaces spaces (by simpa using noSpace)]
  dsimp only [List.cons_append]
  rw [if_neg noHash]

theorem readToken_again (spells : Spells printed text) (hasEquals : equals ∈ text)
    (stops : Stops rest) (start : Bytes) :
    LineParser.readToken .readInitialValue start (printed ++ rest) = (.initialValue [],
      ⟨.readProp, start⟩) := by
  rw [LineParser.readToken, readPart_spells spells [] stops, List.nil_append]
  dsimp only
  rw [if_pos rfl, if_pos hasEquals]

theorem readToken_value (spells : Spells printed text) (plain : equals ∉ text)
    (stops : Stops rest) (start : Bytes) :
    LineParser.readToken .readInitialValue start (printed ++ rest) =
      (.initialValue text, afterPart rest) := by
  rw [LineParser.readToken, readPart_spells spells [] stops, List.nil_append]
  dsimp only
  rw [if_pos rfl, if_neg plain]

/-- What lets a section be read back: no equals sign in the initial value, and no space
    before a bare prop. -/
def Item.Readable (i : Item) : Prop := equals ∉ i.section_.value ∧ (i.bare = true → i.spaces = 0)

theorem reads_item {i : Item} (readable : i.Readable) (clear : Clear rest)
    (out : List RouteSection) :
    Reads ⟨.readSeparator, i.text ++ rest⟩ out ⟨.readSeparator, rest⟩ (out ++ [i.section_]) := by
  obtain ⟨spaces, bare, s, printed, prints⟩ := i
  have token := nextToken_section prints spaces rest
  obtain ⟨plain, atStart⟩ := readable
  rw [Item.text, List.append_assoc]
  dsimp only at plain atStart ⊢
  cases prints with
  | @valued value printed more props spells isProps visible =>
    rw [List.append_assoc] at token ⊢
    rw [readToken_value spells plain (isProps.stops clear)] at token
    exact (Reads.initialValue token out).trans (reads_props isProps clear out ⟨value, []⟩)
  | @bare name value printed more props some_ plainName spells isProps =>
    have none_ : spaces = 0 := atStart rfl
    subst none_
    rw [List.append_assoc] at token ⊢
    rw [readToken_again spells (by simp) (isProps.stops clear)] at token
    have isProp : PropText (name, value) (name ++ equals :: value) := .valued some_ plainName
    have prop := Reads.prop (nextToken_prop isProp spells (isProps.stops clear)) out ⟨[], []⟩
    exact ((Reads.initialValue token out).trans prop).trans (reads_props isProps clear out ⟨[],
      [(name, value)]⟩)

def lineOf (items : List Item) (rest : Bytes) : Bytes :=
  items.foldr (fun i rest => i.text ++ rest) rest

theorem lineOf_clear {items : List Item} (spaced : ∀ i ∈ items, 0 < i.spaces) (clear : Clear rest) :
    Clear (lineOf items rest) := by
  cases items with
  | nil => exact clear
  | cons i items =>
    intro c first
    have some_ := spaced i List.mem_cons_self
    obtain ⟨n, count⟩ : ∃ n, i.spaces = n + 1 := ⟨i.spaces - 1, by omega⟩
    rw [lineOf, List.foldr_cons, Item.text, count, List.replicate_succ] at first
    cases first
    exact Or.inl rfl

theorem reads_items {items : List Item} (spaced : ∀ i ∈ items.tail, 0 < i.spaces)
    (readable : ∀ i ∈ items, i.Readable) (clear : Clear rest) (out : List RouteSection) :
    Reads ⟨.readSeparator, lineOf items rest⟩ out ⟨.readSeparator, rest⟩
      (out ++ items.map Item.section_) := by
  induction items generalizing out with
  | nil =>
    rw [List.map_nil, List.append_nil]
    exact Reads.refl _ _
  | cons i items ih =>
    rw [List.tail_cons] at spaced
    have one := reads_item (readable i List.mem_cons_self) (lineOf_clear spaced clear) out
    have later := ih (fun j member => spaced j (List.mem_of_mem_tail member))
      (fun j member => readable j (List.mem_cons_of_mem i member)) (out ++ [i.section_])
    rw [List.append_assoc] at later
    exact one.trans later

theorem Tail.clear (tail : Tail rest) : Clear rest := by
  cases tail with
  | spaces n =>
    intro c first
    exact Or.inl (List.eq_of_mem_replicate (List.mem_of_mem_head? first))
  | comment n text =>
    intro c first
    cases n with
    | zero =>
      cases first
      exact Or.inr rfl
    | succ n =>
      cases first
      exact Or.inl rfl

theorem Tail.ends (tail : Tail rest) (n : Nat) (out : List RouteSection) :
    parseFrom (n + 1) ⟨.readSeparator, rest⟩ out = some (.ok out) := by
  have token : (LineParser.nextToken ⟨.readSeparator, rest⟩).1 = .endOfLine := by
    rw [LineParser.nextToken]
    dsimp only
    cases tail with
    | spaces k =>
      have skipped := @dropWhile_spaces k [] (by simp)
      rw [List.append_nil] at skipped
      rw [skipped]
    | comment k text =>
      rw [@dropWhile_spaces k (hash :: text) (by simp; decide)]
      rfl
  rw [parseFrom]
  cases read : LineParser.nextToken ⟨.readSeparator, rest⟩ with
  | mk t p =>
    rw [read] at token
    cases token
    rfl

variable {tokens : Nat} {out : List RouteSection}

theorem parseFrom_more {result : Parsed}
    (parsed : parseFrom tokens p out = some result) (more : Nat) :
    parseFrom (tokens + more) p out = some result := by
  induction tokens generalizing p out with
  | zero => cases parsed
  | succ tokens ih =>
    rw [Nat.succ_add, parseFrom]
    rw [parseFrom] at parsed
    split
    · rename_i token
      rw [token] at parsed
      exact parsed
    · rename_i token
      rw [token] at parsed
      exact ih parsed
    · rename_i token
      rw [token] at parsed
      dsimp only at parsed
      split
      · rename_i none_
        rw [none_] at parsed
        exact parsed
      · rename_i added
        rw [added] at parsed
        exact ih parsed
    · rename_i token
      rw [token] at parsed
      exact parsed

theorem Reads.result {p' : LineParser} {out' : List RouteSection} (reads : Reads p out p' out')
    {result : Parsed} (parsed : parseFrom tokens p out = some result) :
    parseFrom tokens p' out' = some result := by
  obtain ⟨k, same⟩ := reads
  rw [← same]
  exact parseFrom_more parsed k

theorem parseFrom_values {sections : List RouteSection}
    (parsed : parseFrom tokens p out = some (.ok sections)) :
    out.map RouteSection.value <+: sections.map RouteSection.value := by
  induction tokens generalizing p out with
  | zero => cases parsed
  | succ tokens ih =>
    rw [parseFrom] at parsed
    split at parsed
    · cases parsed
    · have later := ih parsed
      rw [List.map_append] at later
      exact (List.prefix_append _ _).trans later
    · split at parsed
      · cases parsed
      · rename_i added
        rcases List.eq_nil_or_concat' out with rfl | ⟨front, s, rfl⟩
        · cases added
        · rw [addProp_last] at added
          cases added
          have later := ih parsed
          rw [List.map_append] at later ⊢
          exact later
    · cases parsed
      exact List.prefix_refl _

theorem not_read_back {i : Item} (unreadable : ¬ i.Readable) (clear : Clear rest)
    {sections : List RouteSection}
    (parsed : parseFrom tokens ⟨.readSeparator, i.text ++ rest⟩ out = some (.ok sections)) :
    ¬ (out ++ [i.section_]).map RouteSection.value <+: sections.map RouteSection.value := by
  obtain ⟨spaces, bare, s, printed, prints⟩ := i
  have token := nextToken_section prints spaces rest
  rw [Item.text, List.append_assoc] at parsed
  dsimp only at parsed ⊢
  have again : LineParser.readToken .readInitialValue (List.replicate spaces space ++
    (printed ++ rest)) (printed ++ rest) =
      (.initialValue [], ⟨.readProp, List.replicate spaces space ++ (printed ++ rest)⟩) ∧
      (spaces = 0 → s.value ≠ []) := by
    cases prints with
    | @valued value printed more props spells isProps visible =>
      have hasEquals : equals ∈ value := by
        by_contra plain
        exact unreadable ⟨plain, fun isBare => Bool.noConfusion isBare⟩
      rw [List.append_assoc]
      exact ⟨readToken_again spells hasEquals (isProps.stops clear) _,
        fun _ => List.ne_nil_of_mem hasEquals⟩
    | @bare name value printed more props some_ plainName spells isProps =>
      rw [List.append_assoc]
      exact ⟨readToken_again spells (by simp) (isProps.stops clear) _, fun none_ =>
        absurd ⟨List.not_mem_nil, fun _ => none_⟩ unreadable⟩
  rw [again.1] at token
  have next := (Reads.initialValue token out).result parsed
  rcases Nat.eq_zero_or_pos spaces with none_ | some_
  · intro kept
    have values := parseFrom_values next
    rw [List.map_append] at kept values
    have lengths : (out.map RouteSection.value ++ [s].map RouteSection.value).length =
        (out.map RouteSection.value ++
          [(⟨[], []⟩ : RouteSection)].map RouteSection.value).length := by simp
    have same :=
      (List.prefix_of_prefix_length_le kept values (le_of_eq lengths)).eq_of_length lengths
    exact again.2 none_ (List.singleton_inj.mp (List.append_cancel_left same))
  · obtain ⟨n, rfl⟩ : ∃ n, spaces = n + 1 := ⟨spaces - 1, by omega⟩
    have empty :
      LineParser.nextToken ⟨.readProp, List.replicate (n + 1) space ++ (printed ++ rest)⟩ =
        (.error (ascii "expecting prop"),
          ⟨.readProp, List.replicate (n + 1) space ++ (printed ++ rest)⟩) := by
      have here :=
          @readPart_spells _ _ .nil [] (List.replicate (n + 1) space ++ (printed ++ rest)) (by
        intro c first
        cases first
        rfl)
      rw [List.nil_append, List.nil_append] at here
      rw [LineParser.nextToken]
      dsimp only
      rw [LineParser.readToken, here]
      rfl
    cases tokens with
    | zero => cases next
    | succ tokens =>
      rw [parseFrom, empty] at next
      cases next

theorem readable_of_parsed {items : List Item} (spaced : ∀ i ∈ items.tail, 0 < i.spaces)
    (clear : Clear rest) {sections : List RouteSection}
    (parsed : parseFrom tokens ⟨.readSeparator, lineOf items rest⟩ out = some (.ok sections))
    (same : sections.map RouteSection.value =
    (out ++ items.map Item.section_).map RouteSection.value) :
    ∀ i ∈ items, i.Readable := by
  induction items generalizing out with
  | nil => simp
  | cons i items ih =>
    rw [List.tail_cons] at spaced
    have more : out ++ (i :: items).map Item.section_ =
      (out ++ [i.section_]) ++ items.map Item.section_ := by simp
    have clear' := lineOf_clear spaced clear
    by_cases readable : i.Readable
    · have later := ih (fun j member => spaced j (List.mem_of_mem_tail member))
        ((reads_item readable clear' out).result parsed) (by rw [same, more])
      exact List.forall_mem_cons.mpr ⟨readable, later⟩
    · refine absurd ?_ (not_read_back readable clear' parsed)
      rw [same, more, @List.map_append _ _ _ (out ++ [i.section_])]
      exact List.prefix_append _ _

/-- A line reads back exactly if each of its sections can be, and the parser comes to an
    end with every line. -/
theorem parseLine_line_iff {items : List Item} (spaced : ∀ i ∈ items.tail, 0 < i.spaces)
    {tail : Bytes} (isTail : Tail tail) : (parseLine (lineOf items tail) =
    some (.ok (items.map Item.section_)) ↔ ∀ i ∈ items, i.Readable) ∧
      ∀ line, ∃ result, parseLine line = some result ∧ result ≠ .asserts := by
  refine ⟨⟨?_, ?_⟩, parseLine_ends⟩
  · intro parsed
    exact readable_of_parsed spaced isTail.clear parsed (by rw [List.nil_append])
  · intro readable
    have whole := reads_items spaced readable isTail.clear []
    obtain ⟨k, same⟩ := whole
    obtain ⟨result, parsed, -⟩ := parseLine_ends (lineOf items tail)
    have ends := same 1
    rw [List.nil_append, isTail.ends 0] at ends
    have one := parseFrom_more ends (2 * (lineOf items tail).length + 2)
    have two := parseFrom_more parsed (1 + k)
    rw [Nat.add_comm, two] at one
    rw [parsed, one]

theorem spells_quoted (text : Bytes) : Spells (quote :: (escape text ++ [quote])) text := by
  have whole := Spells.quoted text Spells.nil
  rwa [List.append_nil] at whole

theorem spells_raw (plain : ∀ c ∈ text, c ≠ quote ∧ ends c = false) : Spells text text := by
  induction text with
  | nil => exact .nil
  | cons c text ih =>
    rw [List.forall_mem_cons] at plain
    exact .raw plain.1.1 plain.1.2 (ih plain.2)

def plainItem (spaces : Nat) (value printed : Bytes) (spells : Spells printed value)
    (visible : printed ≠ []) : Item where
  spaces := spaces
  bare := false
  section_ := ⟨value, []⟩
  printed := printed ++ []
  prints := .valued spells .nil (by simpa using visible)

def propItem (spaces : Nat) (name value printed : Bytes) (some_ : name ≠ []) (plain : equals ∉ name)
    (spells : Spells printed (name ++ equals :: value)) : Item where
  spaces := spaces
  bare := true
  section_ := ⟨[], [(name, value)]⟩
  printed := printed ++ []
  prints := .bare some_ plain spells .nil

instance (i : Item) : Decidable i.Readable := inferInstanceAs (Decidable (_ ∧ _))

theorem parseLine_line_example :
    ∃ items tail, lineOf items tail = ascii "type=gala apple  \"a,b\" # comment" ∧
    parseLine (lineOf items tail) = some (.ok (items.map Item.section_)) := by
  refine ⟨[propItem 0 (ascii "type") (ascii "gala") (ascii "type=gala") (by decide +kernel)
    (by decide +kernel) (spells_raw (by decide +kernel)),
    plainItem 1 (ascii "apple") (ascii "apple") (spells_raw (by decide +kernel))
      (by decide +kernel),
    plainItem 2 (ascii "a,b") (ascii "\"a,b\"") (spells_quoted (ascii "a,b")) (by decide +kernel)],
      _, ?_,
    (parseLine_line_iff (by decide) (.comment 1 (ascii " comment"))).1.mpr (by decide)⟩
  decide +kernel

/-- A prop alone after a space, and an initial value with an equals sign, are not read back. -/
theorem props_after_spaces :
    (∃ items : List Item, ∃ tail, Tail tail ∧ (∀ i ∈ items.tail, 0 < i.spaces) ∧
      lineOf items tail = ascii "apple type=gala" ∧
        parseLine (lineOf items tail) = some (.error (ascii "expecting prop"))) ∧
    ∃ items : List Item, ∃ tail, Tail tail ∧ (∀ i ∈ items.tail, 0 < i.spaces) ∧
      lineOf items tail = ascii "\"a=b\"" ∧ items.map Item.section_ = [⟨ascii "a=b", []⟩] ∧
      parseLine (lineOf items tail) = some (.ok [⟨[], [(ascii "a", ascii "b")]⟩]) := by
  constructor
  · exact ⟨[plainItem 0 (ascii "apple") (ascii "apple") (spells_raw (by decide +kernel))
      (by decide +kernel),
      propItem 1 (ascii "type") (ascii "gala") (ascii "type=gala") (by decide +kernel)
        (by decide +kernel) (spells_raw (by decide +kernel))], [],
      .spaces 0, by decide, by decide +kernel, by decide +kernel⟩
  · exact ⟨[plainItem 0 (ascii "a=b") (ascii "\"a=b\"") (spells_quoted (ascii "a=b"))
      (by decide +kernel)], [], .spaces 0, by decide,
      by decide +kernel, rfl, by decide +kernel⟩

end PushpinRoutesFile
