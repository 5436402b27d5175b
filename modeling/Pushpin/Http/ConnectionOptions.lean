import Pushpin.Http.Head

namespace PushpinHttp
open PushpinRingBuffer Text

def closeValue : List Byte := ascii "close"
def keepAliveValue : List Byte := ascii "keep-alive"
def continueValue : List Byte := ascii "100-continue"

def tokens (value : List Byte) : List (List Byte) :=
  (((value.splitOn 44).filter isUtf8).map trim).filter (· ≠ [])

def optionsOf (name : List Byte) (headers : Headers) : List (List Byte) :=
  ((valuesOf name headers).flatMap tokens).map (List.map lowerCase)

def otherHeaders (headers : Headers) : Headers :=
  headers.filter fun h =>
    !(eqIgnoreAsciiCase h.1 connectionName || eqIgnoreAsciiCase h.1 expectName)

structure Rearranged (a b : Headers) : Prop where
  others : otherHeaders a = otherHeaders b
  connection : (optionsOf connectionName a).Perm (optionsOf connectionName b)
  expect : (optionsOf expectName a).Perm (optionsOf expectName b)

def ServerExchange.outcome (e : ServerExchange) (version : Nat) (headers : Headers) :
    Except HeadError (Bool × Bool) :=
  (e.processRequest version headers).map fun (e, expect) => (e.protocol.persistent, expect)

def ClientState.outcome (state : ClientState) (version code : Nat) (headers : Headers) :
    Except HeadError Bool :=
  (state.processResponse version code headers).map fun state => state.persistent

def refusedHeaders (headers : Headers) : Bool :=
  !((valuesOf contentLengthName headers).all fun v => (parseAsInt v).isSome) ||
    !((valuesOf transferEncodingName headers).all fun v => decide (v = chunkedValue))

def announcesBody (headers : Headers) : Bool :=
  !(valuesOf contentLengthName headers).isEmpty || !(valuesOf transferEncodingName headers).isEmpty

/-- There is an option `close` in some spelling, on a connection that would else persist. -/
def closeCounts (version : Nat) (headers : Headers) : Bool :=
  decide (closeValue ∈ optionsOf connectionName headers) &&
    (decide (version ≥ 1) || decide (keepAliveValue ∈ optionsOf connectionName headers))

def expectCounts (version : Nat) (headers : Headers) : Bool :=
  decide (continueValue ∈ optionsOf expectName headers) && decide (version ≥ 1) &&
    announcesBody headers

def requestSteady (version : Nat) (headers : Headers) : Bool :=
  refusedHeaders headers || (!closeCounts version headers && !expectCounts version headers)

def responseSteady (version code : Nat) (headers : Headers) : Bool :=
  refusedHeaders headers || !closeCounts version headers ||
    !(announcesBody headers || bodiless code)

def CaseMap (f : Byte → Byte) : Prop := ∀ c, lowerCase (f c) = lowerCase c

def upperCase (c : Byte) : Byte := if 97 ≤ c ∧ c ≤ 122 then c - 32 else c

def recase (name : List Byte) (f : Byte → Byte) (headers : Headers) : Headers :=
  headers.map fun h => if eqIgnoreAsciiCase h.1 name then (h.1, h.2.map f) else h

def plain (w : Byte) : Bool := lowerCase w = w && upperCase w = w

theorem letter_facts (c : Byte) :
    (lowerCase (lowerCase c) = lowerCase c ∧ lowerCase (upperCase c) = lowerCase c ∧
    upperCase (upperCase c) = upperCase c) ∧
      (plain c = true → ¬ (97 ≤ c ∧ c ≤ 122)) ∧
      (lowerCase c = c ∨ (97 ≤ lowerCase c ∧ lowerCase c ≤ 122)) ∧
      (¬ c ≤ 0x7f → plain c = true) := by
  revert c
  apply forall_byte
  decide +kernel

theorem lowerCase_caseMap : CaseMap lowerCase := fun c => (letter_facts c).1.1

theorem upperCase_caseMap : CaseMap upperCase := fun c => (letter_facts c).1.2.1

section
variable {f : Byte → Byte}

section
variable (recased : CaseMap f)
include recased

theorem CaseMap.plain_iff {w : Byte} (other : plain w = true) (c : Byte) : f c = w ↔ c = w := by
  have fixed : lowerCase w = w := by
    simp only [plain, Bool.and_eq_true, decide_eq_true_eq] at other
    exact other.1
  -- nothing but `w` has the lower case of `w`
  have only : ∀ x, lowerCase x = w → x = w := by
    intro x same
    rcases (letter_facts x).2.2.1 with still | letter
    · exact still.symm.trans same
    · rw [same] at letter
      exact absurd letter ((letter_facts w).2.1 other)
  constructor
  · intro same
    exact only c (by rw [← recased c, same, fixed])
  · intro same
    exact only (f c) (by rw [recased c, same, fixed])

theorem CaseMap.isPrefixOf {piece : List Byte}
    (other : piece.all plain = true) (s : List Byte) :
    piece.isPrefixOf (s.map f) = piece.isPrefixOf s := by
  induction piece generalizing s with
  | nil => rfl
  | cons w piece ih =>
    obtain ⟨first, others⟩ := (Bool.and_eq_true _ _).mp (List.all_cons.symm.trans other)
    cases s with
    | nil => rfl
    | cons c s =>
      have same : (w == f c) = (w == c) := by
        rw [Bool.eq_iff_iff, beq_iff_eq, beq_iff_eq, eq_comm, recased.plain_iff first, eq_comm]
      rw [List.map_cons, List.isPrefixOf, List.isPrefixOf, same, ih others]

theorem CaseMap.stripFront {pieces : List (List Byte)}
    (other : ∀ piece ∈ pieces, piece.all plain = true) (rounds : Nat) (s : List Byte) :
    stripFront pieces rounds (s.map f) = (stripFront pieces rounds s).map f := by
  induction rounds generalizing s with
  | zero => rfl
  | succ rounds ih =>
    have found : pieces.find? (·.isPrefixOf (s.map f)) = pieces.find? (·.isPrefixOf s) := by
      clear ih
      induction pieces with
      | nil => rfl
      | cons piece pieces rest =>
        rw [List.find?_cons, List.find?_cons, recased.isPrefixOf (other piece List.mem_cons_self),
          rest fun later mem => other later (List.mem_cons_of_mem piece mem)]
    unfold PushpinHttp.stripFront
    rw [found]
    cases pieces.find? (·.isPrefixOf s) with
    | none => rfl
    | some piece =>
      dsimp only
      rw [← List.map_drop, ih]

theorem CaseMap.trim (s : List Byte) : trim (s.map f) = (trim s).map f := by
  have front : ∀ piece ∈ whitespace, piece.all plain = true := List.all_eq_true.mp (by decide)
  have back : ∀ piece ∈ whitespace.map List.reverse, piece.all plain = true :=
    List.all_eq_true.mp (by decide)
  unfold PushpinHttp.trim
  dsimp only
  rw [recased.stripFront front, ← List.map_reverse, recased.stripFront back, List.length_map,
    List.length_map, List.map_reverse]

theorem CaseMap.tokens (value : List Byte) :
    tokens (value.map f) = (tokens value).map (List.map f) := by
  have comma : ∀ c, f c = 44 ↔ c = 44 := recased.plain_iff (by decide)
  have high : ∀ c : Byte, ¬ c ≤ 0x7f → plain c = true := fun c => (letter_facts c).2.2.2
  have large : ∀ c, ¬ c ≤ 0x7f → f c = c :=
    fun c beyond => (recased.plain_iff (high c beyond) c).mpr rfl
  have small : ∀ c, c ≤ 0x7f → f c ≤ 0x7f := by
    intro c within
    by_contra beyond
    have fixed := (recased.plain_iff (high (f c) beyond) c).mp rfl
    rw [← fixed] at beyond
    exact beyond within
  have utf8 : (isUtf8 ∘ List.map f) = isUtf8 := funext fun part => isUtf8_map small large part
  have trims : (PushpinHttp.trim ∘ List.map f) = (List.map f ∘ PushpinHttp.trim) :=
    funext fun part => recased.trim part
  have filled : ((fun part => decide (part ≠ [])) ∘ List.map f) = fun part : List Byte =>
      decide (part ≠ []) := by
    funext part
    cases part <;> rfl
  unfold PushpinHttp.tokens
  rw [splitOn_map comma, List.filter_map (p := isUtf8), utf8, List.map_map, trims, ← List.map_map,
    List.filter_map (f := List.map f), filled]

end

end

variable {param : List Byte}

theorem headerContainsParam_tokens (value : List Byte) (text : isUtf8 param = true)
    (filled : param ≠ []) (ignoreCase : Bool) :
    headerContainsParam value param ignoreCase =
      (tokens value).any fun part => if ignoreCase then eqIgnoreAsciiCase part param
      else decide (part = param) := by
  have nonempty : ∀ part : List Byte,
      (decide (part ≠ []) && if ignoreCase then eqIgnoreAsciiCase part param
        else decide (part = param)) =
        if ignoreCase then eqIgnoreAsciiCase part param else decide (part = param) := by
    intro part
    cases part with
    | nil =>
      cases param with
      | nil => exact absurd rfl filled
      | cons c param => cases ignoreCase <;> rfl
    | cons c part => rfl
  unfold headerContainsParam tokens
  rw [text, Bool.true_and, List.any_filter]
  simp only [nonempty]
  rw [List.any_map, List.any_filter]
  rfl

def mentions (name param : List Byte) (ignoreCase : Bool) (headers : Headers) : Bool :=
  (valuesOf name headers).any fun value => headerContainsParam value param ignoreCase

structure OptionName (param : List Byte) : Prop where
  text : isUtf8 param = true
  filled : param ≠ []
  lower : param.map lowerCase = param

section
variable {param : List Byte}

theorem mentions_eq (option : OptionName param) (name : List Byte) (ignoreCase : Bool)
    (headers : Headers) : mentions name param ignoreCase headers =
      ((valuesOf name headers).flatMap tokens).any fun part =>
        if ignoreCase then eqIgnoreAsciiCase part param else decide (part = param) := by
  unfold mentions
  rw [List.any_flatMap]
  simp only [headerContainsParam_tokens _ option.text option.filled]

theorem mentions_ignoring (option : OptionName param) (name : List Byte) (headers : Headers) :
    mentions name param true headers = decide (param ∈ optionsOf name headers) := by
  rw [mentions_eq option, Bool.eq_iff_iff, List.any_eq_true, decide_eq_true_eq, optionsOf,
    List.mem_map]
  simp only [if_true, eqIgnoreAsciiCase, decide_eq_true_eq, option.lower]

theorem mentions_exact (option : OptionName param) {name : List Byte} {headers : Headers}
    (found : mentions name param false headers = true) : param ∈ optionsOf name headers := by
  rw [mentions_eq option, List.any_eq_true] at found
  obtain ⟨part, mem, same⟩ := found
  simp only [Bool.false_eq_true, if_false, decide_eq_true_eq] at same
  rw [optionsOf, List.mem_map]
  exact ⟨part, mem, by rw [same, option.lower]⟩

end

theorem recase_cons (name : List Byte) (f : Byte → Byte) (h : List Byte × List Byte)
    (headers : Headers) : recase name f (h :: headers) =
      (if eqIgnoreAsciiCase h.1 name then (h.1, h.2.map f) else h) :: recase name f headers := rfl

theorem otherHeaders_cons (h : List Byte × List Byte) (headers : Headers) :
    otherHeaders (h :: headers) =
      if eqIgnoreAsciiCase h.1 connectionName || eqIgnoreAsciiCase h.1 expectName then
        otherHeaders headers
      else h :: otherHeaders headers := by
  unfold otherHeaders
  rw [List.filter_cons]
  cases eqIgnoreAsciiCase h.1 connectionName || eqIgnoreAsciiCase h.1 expectName <;> rfl

theorem valuesOf_recase (name : List Byte) (f : Byte → Byte) (headers : Headers) :
    valuesOf name (recase name f headers) = (valuesOf name headers).map (List.map f) := by
  induction headers with
  | nil => rfl
  | cons h headers ih =>
    rw [recase_cons, valuesOf_cons, valuesOf_cons, ih]
    by_cases same : eqIgnoreAsciiCase h.1 name = true
    · simp only [if_pos same, List.map_cons]
    · simp only [if_neg same]

variable {name : List Byte}

theorem valuesOf_recase_other {other : List Byte} (apart : eqIgnoreAsciiCase name other = false)
    (f : Byte → Byte) (headers : Headers) :
    valuesOf other (recase name f headers) = valuesOf other headers := by
  induction headers with
  | nil => rfl
  | cons h headers ih =>
    rw [recase_cons, valuesOf_cons, valuesOf_cons, ih]
    by_cases same : eqIgnoreAsciiCase h.1 name = true
    · have different := eqIgnoreAsciiCase_other apart same
      simp only [if_pos same, different, Bool.false_eq_true, if_false]
    · simp only [if_neg same]

theorem otherHeaders_recase (own : name = connectionName ∨ name = expectName) (f : Byte → Byte)
    (headers : Headers) : otherHeaders (recase name f headers) = otherHeaders headers := by
  induction headers with
  | nil => rfl
  | cons h headers ih =>
    rw [recase_cons, otherHeaders_cons, otherHeaders_cons, ih]
    by_cases same : eqIgnoreAsciiCase h.1 name = true
    · have out :
          (eqIgnoreAsciiCase h.1 connectionName || eqIgnoreAsciiCase h.1 expectName) = true := by
        rcases own with rfl | rfl
        · rw [same, Bool.true_or]
        · rw [same, Bool.or_true]
      simp only [if_pos same, out, if_true]
    · simp only [if_neg same]

section
variable {f : Byte → Byte} (recased : CaseMap f)
include recased

theorem tokens_recase (name : List Byte)
    (headers : Headers) : (valuesOf name (recase name f headers)).flatMap tokens =
      ((valuesOf name headers).flatMap tokens).map (List.map f) := by
  rw [valuesOf_recase, List.flatMap_map, List.map_flatMap]
  simp only [recased.tokens]

theorem optionsOf_recase (name : List Byte)
    (headers : Headers) : optionsOf name (recase name f headers) = optionsOf name headers := by
  have same : (List.map lowerCase ∘ List.map f) = List.map lowerCase := by
    funext part
    rw [Function.comp_apply, List.map_map]
    exact List.map_congr_left fun c _ => recased c
  unfold optionsOf
  rw [tokens_recase recased, List.map_map, same]

theorem recase_rearranged (own : name = connectionName ∨ name = expectName) (headers : Headers) :
    Rearranged headers (recase name f headers) := by
  have apart : eqIgnoreAsciiCase connectionName expectName = false := by decide
  have apart' : eqIgnoreAsciiCase expectName connectionName = false := by decide
  refine ⟨(otherHeaders_recase own f headers).symm, ?_, ?_⟩
  · rcases own with rfl | rfl
    · rw [optionsOf_recase recased]
    · unfold optionsOf
      rw [valuesOf_recase_other apart']
  · rcases own with rfl | rfl
    · unfold optionsOf
      rw [valuesOf_recase_other apart]
    · rw [optionsOf_recase recased]

end

def Scan.bare (acc : Scan) : Scan := ⟨acc.contentLen, acc.chunked, false, false, false⟩

def Scan.flagged (acc found : Scan) (expects : Bool) (headers : Headers) : Scan where
  contentLen := found.contentLen
  chunked := found.chunked
  keepAlive := acc.keepAlive || mentions connectionName keepAliveValue true headers
  close := acc.close || mentions connectionName closeValue false headers
  expect100 := acc.expect100 || (expects && mentions expectName continueValue false headers)

theorem mentions_cons (name param : List Byte) (ignoreCase : Bool) (h : List Byte × List Byte)
    (headers : Headers) : mentions name param ignoreCase (h :: headers) =
      (eqIgnoreAsciiCase h.1 name && headerContainsParam h.2 param ignoreCase ||
        mentions name param ignoreCase headers) := by
  unfold mentions
  rw [valuesOf_cons]
  by_cases same : eqIgnoreAsciiCase h.1 name = true
  · rw [if_pos same, List.any_cons, same, Bool.true_and]
  · rw [if_neg same, Bool.eq_false_of_not_eq_true same, Bool.false_and, Bool.false_or]

theorem names_apart :
    (eqIgnoreAsciiCase connectionName contentLengthName = false ∧
      eqIgnoreAsciiCase connectionName transferEncodingName = false ∧
      eqIgnoreAsciiCase connectionName expectName = false) ∧
    eqIgnoreAsciiCase expectName contentLengthName = false ∧
      eqIgnoreAsciiCase expectName transferEncodingName = false ∧
      eqIgnoreAsciiCase expectName connectionName = false := by decide

section
variable (expects : Bool) (acc : Scan) {h : List Byte × List Byte}
include expects acc

theorem Scan.header_connection (conn : eqIgnoreAsciiCase h.1 connectionName = true) :
    acc.header expects h = .ok { acc with
      keepAlive := acc.keepAlive || headerContainsParam h.2 keepAliveValue true
      close := acc.close || headerContainsParam h.2 closeValue false } := by
  obtain ⟨⟨length, coding, _⟩, _⟩ := names_apart
  unfold Scan.header
  simp only [eqIgnoreAsciiCase_other length conn, eqIgnoreAsciiCase_other coding conn, conn,
    Bool.false_eq_true, if_false, if_true, keepAliveValue, closeValue]

theorem Scan.header_expect (exp : eqIgnoreAsciiCase h.1 expectName = true) :
    acc.header expects h = .ok { acc with
      expect100 := acc.expect100 || (expects && headerContainsParam h.2 continueValue false) } := by
  obtain ⟨_, length, coding, conn⟩ := names_apart
  unfold Scan.header
  simp only [eqIgnoreAsciiCase_other length exp, eqIgnoreAsciiCase_other coding exp,
    eqIgnoreAsciiCase_other conn exp, exp, Bool.false_eq_true, if_false, Bool.and_true,
      continueValue]
  cases expects with
  | false => simp only [Bool.false_eq_true, if_false, Bool.false_and, Bool.or_false]
  | true => simp only [if_true, Bool.true_and]

theorem Scan.header_other (conn : ¬ eqIgnoreAsciiCase h.1 connectionName = true)
    (exp : ¬ eqIgnoreAsciiCase h.1 expectName = true) :
    (∃ e, acc.header expects h = .error e ∧ acc.bare.header false h = .error e) ∨
      ∃ next : Scan, acc.header expects h = .ok next ∧ acc.bare.header false h = .ok next.bare ∧
        next.keepAlive = acc.keepAlive ∧ next.close = acc.close ∧
          next.expect100 = acc.expect100 := by
  unfold Scan.header
  simp only [conn, exp, Bool.false_eq_true, if_false, Bool.and_false]
  split
  · cases parseAsInt h.2 with
    | none => exact Or.inl ⟨_, rfl, rfl⟩
    | some len => exact Or.inr ⟨_, rfl, rfl, rfl, rfl, rfl⟩
  · split
    · split
      · exact Or.inr ⟨_, rfl, rfl, rfl, rfl, rfl⟩
      · exact Or.inl ⟨_, rfl, rfl⟩
    · exact Or.inr ⟨_, rfl, rfl, rfl, rfl, rfl⟩

end

theorem Scan.flagged_nil (acc : Scan) (expects : Bool) : acc.flagged acc.bare expects [] = acc := by
  simp only [Scan.flagged, mentions, valuesOf, List.filter_nil, List.map_nil, List.any_nil,
    Bool.or_false, Bool.and_false, Scan.bare]

theorem Scan.headers_parts (expects : Bool) (acc : Scan) (headers : Headers) :
    acc.headers expects headers =
      (acc.bare.headers false (otherHeaders headers)).map fun found =>
      acc.flagged found expects headers := by
  obtain ⟨⟨_, _, connExpect⟩, _, _, expConn⟩ := names_apart
  induction headers generalizing acc with
  | nil => exact congrArg Except.ok (acc.flagged_nil expects).symm
  | cons h headers ih =>
    rw [Scan.headers, otherHeaders_cons]
    by_cases conn : eqIgnoreAsciiCase h.1 connectionName = true
    · rw [Scan.header_connection expects acc conn, conn, Bool.true_or, if_pos rfl]
      dsimp only
      rw [ih]
      simp only [Scan.flagged, mentions_cons, conn, eqIgnoreAsciiCase_other connExpect conn,
        Bool.true_and, Bool.false_and, Bool.false_or, Bool.or_assoc, Scan.bare]
    · by_cases exp : eqIgnoreAsciiCase h.1 expectName = true
      · rw [Scan.header_expect expects acc exp, exp, Bool.or_true, if_pos rfl]
        dsimp only
        rw [ih]
        simp only [Scan.flagged, mentions_cons, exp, conn, Bool.true_and, Bool.false_and,
          Bool.false_or, Bool.or_assoc, Bool.and_or_distrib_left, Scan.bare]
      · rw [Bool.eq_false_of_not_eq_true conn, Bool.eq_false_of_not_eq_true exp, Bool.or_false,
          if_neg Bool.false_ne_true, Scan.headers]
        rcases Scan.header_other expects acc conn exp with ⟨e, failed, bare⟩ | ⟨next, read, bare,
          keep, close, expect⟩
        · rw [failed, bare]
          rfl
        · rw [read, bare]
          dsimp only
          rw [ih]
          simp only [Scan.flagged, mentions_cons, conn, exp, Bool.false_and, Bool.false_or, keep,
            close, expect]

theorem valuesOf_otherHeaders (conn : eqIgnoreAsciiCase name connectionName = false)
    (exp : eqIgnoreAsciiCase name expectName = false) (headers : Headers) :
    valuesOf name (otherHeaders headers) = valuesOf name headers := by
  induction headers with
  | nil => rfl
  | cons h headers ih =>
    rw [otherHeaders_cons]
    by_cases same : eqIgnoreAsciiCase h.1 name = true
    · rw [eqIgnoreAsciiCase_other conn same, eqIgnoreAsciiCase_other exp same, Bool.or_false,
        if_neg Bool.false_ne_true, valuesOf_cons, valuesOf_cons, ih]
    · split
      · rw [valuesOf_cons, if_neg same, ih]
      · rw [valuesOf_cons, valuesOf_cons, ih]

theorem scan_accepts (expects : Bool) (acc : Scan) {headers : Headers}
    (fine : refusedHeaders headers = false) : ∃ found, acc.headers expects headers = .ok found := by
  induction headers generalizing acc with
  | nil => exact ⟨acc, rfl⟩
  | cons h headers ih =>
    have split : (∃ next, acc.header expects h = .ok next) ∧ refusedHeaders headers = false := by
      unfold refusedHeaders at fine ⊢
      rw [valuesOf_cons, valuesOf_cons] at fine
      unfold Scan.header
      by_cases length : eqIgnoreAsciiCase h.1 contentLengthName = true
      · have coding : eqIgnoreAsciiCase h.1 transferEncodingName = false :=
          eqIgnoreAsciiCase_other (by decide) length
        rw [if_pos length] at fine ⊢
        rw [coding] at fine
        rw [List.all_cons] at fine
        cases parsed : parseAsInt h.2 with
        | none =>
          rw [parsed] at fine
          cases fine
        | some len =>
          rw [parsed] at fine
          exact ⟨⟨_, rfl⟩, fine⟩
      · rw [if_neg length] at fine ⊢
        by_cases coding : eqIgnoreAsciiCase h.1 transferEncodingName = true
        · rw [if_pos coding] at fine ⊢
          rw [List.all_cons] at fine
          by_cases value : h.2 = chunkedValue
          · rw [decide_eq_true value, Bool.true_and] at fine
            rw [if_pos value]
            exact ⟨⟨_, rfl⟩, fine⟩
          · rw [decide_eq_false value, Bool.false_and, Bool.not_false, Bool.or_true] at fine
            cases fine
        · rw [if_neg coding] at fine ⊢
          refine ⟨?_, fine⟩
          split
          · exact ⟨_, rfl⟩
          · split <;> exact ⟨_, rfl⟩
    obtain ⟨⟨next, read⟩, rest⟩ := split
    obtain ⟨found, all⟩ := ih next rest
    exact ⟨found, by rw [Scan.headers, read]; exact all⟩

theorem scan_body (headers : Headers) :
    (refusedHeaders headers = true ∧
    ∃ e, Scan.start.headers false (otherHeaders headers) = .error e) ∨
      (refusedHeaders headers = false ∧ ∃ found, Scan.start.headers false (otherHeaders headers) =
        .ok found ∧ (found.chunked || found.contentLen.isSome) = announcesBody headers) := by
  have lengths :=
    valuesOf_otherHeaders (by decide : eqIgnoreAsciiCase contentLengthName connectionName = false)
      (by decide) headers
  have codings := valuesOf_otherHeaders
    (by decide : eqIgnoreAsciiCase transferEncodingName connectionName = false) (by decide) headers
  have refused : refusedHeaders (otherHeaders headers) = refusedHeaders headers := by
    unfold refusedHeaders
    rw [lengths, codings]
  cases scan : Scan.start.headers false (otherHeaders headers) with
  | error e =>
    left
    refine ⟨?_, e, rfl⟩
    cases fine : refusedHeaders headers with
    | true => rfl
    | false =>
      obtain ⟨found, accepted⟩ := scan_accepts false Scan.start (refused.trans fine)
      rw [scan] at accepted
      cases accepted
  | ok found =>
    right
    obtain ⟨parsed, chunks, contentLen, chunked⟩ := scan_headers false (otherHeaders headers) scan
    rw [lengths] at parsed contentLen
    rw [codings] at chunks chunked
    refine ⟨?_, found, rfl, ?_⟩
    · have all :
          (valuesOf contentLengthName headers).all (fun v => (parseAsInt v).isSome) = true := by
        rw [List.all_eq_true]
        intro v mem
        obtain ⟨n, number⟩ := parsed v mem
        rw [number]
        rfl
      have both : (valuesOf transferEncodingName headers).all (fun v => decide (v = chunkedValue)) =
          true := by
        rw [List.all_eq_true]
        exact fun v mem => decide_eq_true (chunks v mem)
      rw [refusedHeaders, all, both]
      rfl
    · have known : found.contentLen.isSome = !(valuesOf contentLengthName headers).isEmpty := by
        rw [contentLen]
        cases values : valuesOf contentLengthName headers with
        | nil => rfl
        | cons v vs =>
          rw [values] at parsed
          obtain ⟨n, number⟩ := parsed _ (List.getLast_mem (List.cons_ne_nil v vs))
          rw [List.getLast?_eq_getLast_of_ne_nil (List.cons_ne_nil v vs), Option.bind_some, number]
          rfl
      rw [announcesBody, known, chunked, Bool.or_comm]
      rfl

def persists (version : Nat) (headers : Headers) : Bool :=
  !mentions connectionName closeValue false headers &&
    (decide (version ≥ 1) || mentions connectionName keepAliveValue true headers)

def heeds (version : Nat) (headers : Headers) : Bool :=
  decide (version ≥ 1) && mentions expectName continueValue false headers

theorem request_outcome (e : ServerExchange) (version : Nat) (headers : Headers) :
    e.outcome version headers = (Scan.start.headers false (otherHeaders headers)).map fun found =>
      (persists version headers, heeds version headers &&
      (found.chunked || found.contentLen.isSome)) := by
  unfold ServerExchange.outcome ServerExchange.processRequest persists heeds
  rw [Scan.headers_parts]
  have bare : Scan.start.bare = Scan.start := rfl
  rw [bare]
  cases Scan.start.headers false (otherHeaders headers) with
  | error err => rfl
  | ok found =>
    obtain ⟨contentLen, chunked, _, _, _⟩ := found
    simp only [Except.map, Scan.flagged, Scan.start, Bool.false_or]
    generalize mentions connectionName closeValue false headers = close
    generalize mentions connectionName keepAliveValue true headers = keepAlive
    generalize mentions expectName continueValue false headers = expect
    by_cases late : version ≥ 1
    · simp only [late, if_true, decide_true, Bool.true_or, Bool.and_true, Bool.true_and]
      cases chunked <;> cases contentLen <;> rfl
    · simp only [late, if_false, decide_false, Bool.false_or, Bool.false_and,
        Bool.and_comm keepAlive]

theorem response_outcome (state : ClientState) (version code : Nat) (headers : Headers) :
    state.outcome version code headers =
      (Scan.start.headers false (otherHeaders headers)).map fun found =>
      persists version headers && (found.chunked || found.contentLen.isSome || bodiless code) := by
  unfold ClientState.outcome ClientState.processResponse persists
  rw [Scan.headers_parts]
  have bare : Scan.start.bare = Scan.start := rfl
  rw [bare]
  cases Scan.start.headers false (otherHeaders headers) with
  | error err => rfl
  | ok found =>
    obtain ⟨contentLen, chunked, _, _, _⟩ := found
    simp only [Except.map, Scan.flagged, Scan.start, Bool.false_or]
    generalize mentions connectionName closeValue false headers = close
    generalize mentions connectionName keepAliveValue true headers = keepAlive
    by_cases late : version ≥ 1
    · simp only [late, if_true, decide_true, Bool.true_or, Bool.and_true]
      cases chunked <;> cases contentLen <;> cases bodiless code <;> rfl
    · simp only [late, if_false, decide_false, Bool.false_or, Bool.and_comm keepAlive]
      cases chunked <;> cases contentLen <;> cases bodiless code <;> rfl

theorem options_fine :
    OptionName closeValue ∧ OptionName keepAliveValue ∧ OptionName continueValue := by
  have fine : ∀ {param : List Byte}, (param.all fun c => c ≤ 0x7f) = true → param ≠ [] →
      param.map lowerCase = param → OptionName param :=
    fun small filled lower => ⟨isUtf8_of_ascii small, filled, lower⟩
  exact ⟨fine rfl (by decide) (by decide), fine rfl (by decide) (by decide),
    fine rfl (by decide) (by decide)⟩

theorem mentions_absent (option : OptionName param) {name : List Byte} {a b : Headers}
    (same : param ∈ optionsOf name b ↔ param ∈ optionsOf name a)
    (absent : param ∉ optionsOf name a) :
    mentions name param false b = false := by
  rw [Bool.eq_false_iff]
  exact fun found => absent (same.mp (mentions_exact option found))

theorem mentions_lower (option : OptionName param) (name : List Byte) (headers : Headers) :
    mentions name param false (recase name lowerCase headers) = decide
      (param ∈ optionsOf name headers) := by
  rw [mentions_eq option, tokens_recase lowerCase_caseMap, Bool.eq_iff_iff, decide_eq_true_eq,
    List.any_eq_true]
  simp only [Bool.false_eq_true, if_false, decide_eq_true_eq, optionsOf, exists_eq_right]

theorem mentions_upper (option : OptionName param) (letter : param.map upperCase ≠ param)
    (name : List Byte) (headers : Headers) :
    mentions name param false (recase name upperCase headers) = false := by
  rw [mentions_eq option, tokens_recase upperCase_caseMap, List.any_eq_false]
  intro part mem found
  obtain ⟨token, _, rfl⟩ := List.mem_map.mp mem
  simp only [Bool.false_eq_true, if_false, decide_eq_true_eq] at found
  apply letter
  rw [← found, List.map_map]
  exact List.map_congr_left fun c _ => (letter_facts c).1.2.2

variable {a : Headers}

theorem Rearranged.same {b : Headers} (rearranged : Rearranged a b) :
    (param ∈ optionsOf connectionName b ↔ param ∈ optionsOf connectionName a) ∧
      (param ∈ optionsOf expectName b ↔ param ∈ optionsOf expectName a) :=
  ⟨rearranged.connection.symm.mem_iff, rearranged.expect.symm.mem_iff⟩

variable {version : Nat}

theorem persists_steady {b : Headers} (idle : closeCounts version a = false)
    (rearranged : Rearranged a b) : persists version b = persists version a := by
  obtain ⟨closes, keeps, _⟩ := options_fine
  unfold persists
  rw [mentions_ignoring keeps, mentions_ignoring keeps, decide_eq_decide.mpr rearranged.same.1]
  unfold closeCounts at idle
  by_cases there : closeValue ∈ optionsOf connectionName a
  · rw [decide_eq_true there, Bool.true_and] at idle
    rw [idle, Bool.and_false, Bool.and_false]
  · rw [mentions_absent closes rearranged.same.1 there, mentions_absent closes Iff.rfl there]

theorem persists_varies (counts : closeCounts version a = true) :
    persists version (recase connectionName lowerCase a) = false ∧
      persists version (recase connectionName upperCase a) = true := by
  obtain ⟨closes, keeps, _⟩ := options_fine
  obtain ⟨there, open_⟩ := (Bool.and_eq_true _ _).mp counts
  unfold persists
  rw [mentions_lower closes, mentions_upper closes (by decide), there, mentions_ignoring keeps,
    mentions_ignoring keeps, optionsOf_recase upperCase_caseMap, open_]
  exact ⟨rfl, rfl⟩

theorem heeds_steady {b : Headers} (idle : expectCounts version a = false)
    (rearranged : Rearranged a b) (body : announcesBody a = true) :
    heeds version b = heeds version a := by
  obtain ⟨_, _, expects⟩ := options_fine
  unfold heeds
  rw [expectCounts, body, Bool.and_true] at idle
  by_cases there : continueValue ∈ optionsOf expectName a
  · rw [decide_eq_true there, Bool.true_and] at idle
    rw [idle, Bool.false_and, Bool.false_and]
  · rw [mentions_absent expects rearranged.same.2 there, mentions_absent expects Iff.rfl there]

theorem heeds_varies (counts : expectCounts version a = true) :
    announcesBody a = true ∧ heeds version (recase expectName lowerCase a) = true ∧
      heeds version (recase expectName upperCase a) = false := by
  obtain ⟨_, _, expects⟩ := options_fine
  obtain ⟨both, body⟩ := (Bool.and_eq_true _ _).mp counts
  obtain ⟨there, late⟩ := (Bool.and_eq_true _ _).mp both
  unfold heeds
  rw [mentions_lower expects, mentions_upper expects (by decide), there, late]
  exact ⟨body, rfl, rfl⟩

/-- A request is read alike in every arrangement of its options exactly if none of them counts
that is matched with regard to case. -/
theorem request_steady_iff (e : ServerExchange) (version : Nat) (a : Headers) :
    (∀ b, Rearranged a b → e.outcome version b = e.outcome version a) ↔
    requestSteady version a = true := by
  constructor
  · intro same
    by_contra unsteady
    simp only [requestSteady, Bool.or_eq_true, Bool.and_eq_true, Bool.not_eq_true', not_or,
      not_and_or, Bool.not_eq_true, Bool.not_eq_false] at unsteady
    obtain ⟨fine, counts⟩ := unsteady
    rcases scan_body a with ⟨refused, _⟩ | ⟨_, found, scan, body⟩
    · rw [fine] at refused
      cases refused
    · have recased : ∀ {name f}, CaseMap f → (name = connectionName ∨ name = expectName) →
          e.outcome version (recase name f a) = .ok (persists version (recase name f a),
            heeds version (recase name f a) && announcesBody a) := by
        intro name f caseMap own
        rw [request_outcome, otherHeaders_recase own, scan, ← body]
        rfl
      rcases counts with counts | counts
      · obtain ⟨lower, upper⟩ := persists_varies counts
        have one := same _ (recase_rearranged lowerCase_caseMap (Or.inl rfl) a)
        have two := same _ (recase_rearranged upperCase_caseMap (Or.inl rfl) a)
        rw [recased lowerCase_caseMap (Or.inl rfl), lower] at one
        rw [recased upperCase_caseMap (Or.inl rfl), upper, ← one] at two
        cases two
      · obtain ⟨announced, lower, upper⟩ := heeds_varies counts
        have one := same _ (recase_rearranged lowerCase_caseMap (Or.inr rfl) a)
        have two := same _ (recase_rearranged upperCase_caseMap (Or.inr rfl) a)
        rw [recased lowerCase_caseMap (Or.inr rfl), lower, announced] at one
        rw [recased upperCase_caseMap (Or.inr rfl), upper, ← one] at two
        cases congrArg Prod.snd (Except.ok.inj two)
  · intro steady b rearranged
    rw [request_outcome, request_outcome, ← rearranged.others]
    rcases scan_body a with ⟨_, err, scan⟩ | ⟨fine, found, scan, body⟩
    · rw [scan]
      rfl
    · rw [requestSteady, fine, Bool.false_or, Bool.and_eq_true, Bool.not_eq_true',
        Bool.not_eq_true'] at steady
      rw [scan]
      simp only [Except.map]
      rw [persists_steady steady.1 rearranged, body]
      cases announced : announcesBody a with
      | false => rw [Bool.and_false, Bool.and_false]
      | true => rw [heeds_steady steady.2 rearranged announced]

theorem response_steady_iff (state : ClientState) (version code : Nat) (a : Headers) :
    (∀ b, Rearranged a b → state.outcome version code b = state.outcome version code a) ↔
      responseSteady version code a = true := by
  constructor
  · intro same
    by_contra unsteady
    simp only [responseSteady, Bool.or_eq_true, Bool.not_eq_true', not_or, Bool.not_eq_true,
      Bool.not_eq_false] at unsteady
    obtain ⟨⟨fine, counts⟩, ends⟩ := unsteady
    rcases scan_body a with ⟨refused, _⟩ | ⟨_, found, scan, body⟩
    · rw [fine] at refused
      cases refused
    · have recased : ∀ {f}, CaseMap f →
          state.outcome version code (recase connectionName f a) =
            .ok (persists version (recase connectionName f a) &&
              (announcesBody a || bodiless code)) := by
        intro f caseMap
        rw [response_outcome, otherHeaders_recase (Or.inl rfl), scan, ← body]
        rfl
      obtain ⟨lower, upper⟩ := persists_varies counts
      have one := same _ (recase_rearranged lowerCase_caseMap (Or.inl rfl) a)
      have two := same _ (recase_rearranged upperCase_caseMap (Or.inl rfl) a)
      rw [recased lowerCase_caseMap, lower, Bool.false_and] at one
      rw [recased upperCase_caseMap, upper, Bool.true_and, ← one] at two
      rw [← Bool.or_eq_true, Except.ok.inj two] at ends
      cases ends
  · intro steady b rearranged
    rw [response_outcome, response_outcome, ← rearranged.others]
    rcases scan_body a with ⟨_, err, scan⟩ | ⟨fine, found, scan, body⟩
    · rw [scan]
      rfl
    · rw [scan]
      simp only [Except.map]
      rw [body]
      rw [responseSteady, fine, Bool.false_or, Bool.or_eq_true, Bool.not_eq_true',
        Bool.not_eq_true'] at steady
      rcases steady with idle | ends
      · rw [persists_steady idle rearranged]
      · rw [ends, Bool.and_false, Bool.and_false]

/-- The exact header lists whose options may be spelled, ordered and spread over headers in any
way without a difference: those whose options `close` and `100-continue`, however they are
spelled, do not count. -/
theorem options_steady_iff (a : Headers) :
    (∀ (e : ServerExchange) (version : Nat),
      (∀ b, Rearranged a b → e.outcome version b = e.outcome version a) ↔
      requestSteady version a = true) ∧
    ∀ (state : ClientState) (version code : Nat),
      (∀ b, Rearranged a b → state.outcome version code b = state.outcome version code a) ↔
        responseSteady version code a = true :=
  ⟨fun e version => request_steady_iff e version a, fun state version code =>
    response_steady_iff state version code a⟩

def closeHeader (value : String) : Headers :=
  [(ascii "Connection", ascii value), (ascii "Content-Length", ascii "1")]

def expectHeader (value : String) : Headers :=
  [(ascii "Expect", ascii value), (ascii "Content-Length", ascii "1")]

/-- `Close` does not close and `100-Continue` is not answered, while `Keep-Alive` keeps alive. -/
theorem spelling_decides :
    (Rearranged (closeHeader "close") (closeHeader "Close") ∧
      ServerExchange.new.outcome 1 (closeHeader "close") = .ok (false, false) ∧
      ServerExchange.new.outcome 1 (closeHeader "Close") = .ok (true, false) ∧
      ∀ state : ClientState, state.outcome 1 200 (closeHeader "close") = .ok false ∧
        state.outcome 1 200 (closeHeader "Close") = .ok true) ∧
    (Rearranged (expectHeader "100-continue") (expectHeader "100-Continue") ∧
      ServerExchange.new.outcome 1 (expectHeader "100-continue") = .ok (true, true) ∧
      ServerExchange.new.outcome 1 (expectHeader "100-Continue") = .ok (true, false)) ∧
    ServerExchange.new.outcome 0 (closeHeader "Keep-Alive") = .ok (true, false) := by
  have same : ∀ {a b : Headers}, otherHeaders a = otherHeaders b →
      optionsOf connectionName a = optionsOf connectionName b →
        optionsOf expectName a = optionsOf expectName b →
      Rearranged a b := fun others connection expect => ⟨others, by rw [connection], by rw [expect]⟩
  refine ⟨⟨same (by decide +kernel) (by decide +kernel)
    (by decide +kernel), by decide +kernel, by decide +kernel,
    fun state => ⟨?_, ?_⟩⟩,
      ⟨same (by decide +kernel) (by decide +kernel) (by decide +kernel), by decide +kernel,
    by decide +kernel⟩, by decide +kernel⟩
  · rw [response_outcome]
    decide +kernel
  · rw [response_outcome]
    decide +kernel

end PushpinHttp
