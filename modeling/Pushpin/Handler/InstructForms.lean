import Mathlib.Data.List.Forall2
import Pushpin.Handler.Instruct
import Pushpin.Handler.JsonPatchRfc

namespace PushpinInstruct
open OrderedMaps PushpinVariant PushpinHttpHeaders Results
open PushpinFilters (Meta toUtf8 messageFilterStackSizeMax)
open PushpinJsonPatch (numberOf toInt_of_numbers canConvertInt_of_number)

structure KeepAlive where
  content : Bytes
  timeout : Option Int

structure Description where
  stream : Bool
  channels : List Channel
  timeout : Option Int
  keepAlive : Option KeepAlive
  holdMeta : Meta

def Description.mode (d : Description) : HoldMode := if d.stream then .streamHold else .responseHold

def Description.modeName (d : Description) : String := if d.stream then "stream" else "response"

def isInt (n : Int) : Prop := -2 ^ 31 ≤ n ∧ n < 2 ^ 31

section
variable (fromUtf8 : Bytes → String) (fromBase64 : Bytes → Option Bytes)
  (parseJson : Bytes → Variant)

/-- The channel is the first parameter, and the others have its last id and filters. -/
structure HeaderChannel (params : Parameters) (c : Channel) : Prop where
  form : ∃ name rest, params = (name, none) :: rest ∧ fromUtf8 name = c.name ∧
    (Parameters.get rest (ascii "prev-id")).map fromUtf8 = c.prevId ∧
    ((rest.filter fun p => p.1 = ascii "filter").map fun p => fromUtf8 (p.2.getD [])) = c.filters

def HeaderNumber (text : Option Bytes) (n : Option Int) : Prop :=
  match n with
  | none => text = none
  | some n => ∃ digits, text = some digits ∧ bytesToInt digits = some n

structure HeaderKeepAlive (params : Parameters) (ka : KeepAlive) : Prop where
  form : ∃ content rest, params = (content, none) :: rest ∧ content ≠ [] ∧
    keepAliveDataOf fromUtf8 fromBase64 ((Parameters.get rest (ascii "format")).getD []) content =
      .ok ka.content ∧
    Parameters.contains rest (ascii "mode") = false ∧
    (Parameters.contains rest (ascii "timeout") = ka.timeout.isSome ∧
      HeaderNumber (Parameters.get rest (ascii "timeout")) ka.timeout)

def HeaderMeta (params : List Parameters) (metas : Meta) : Prop :=
  ∃ pairs : List (Bytes × Bytes),
    params.map List.head? = pairs.map (fun p => some (p.1, some p.2)) ∧
    pairs.foldl (fun metas p => metas.insert (fromUtf8 p.1) (some (fromUtf8 p.2)))
      OrderedMap.empty = metas

structure HeaderForm (response : ResponseData) (d : Description) : Prop where
  noDocument : response.headers.getAsFirstParameter (ascii "Content-Type") ≠ gripInstruct
  noStatus : response.headers.contains (ascii "Grip-Status") = false
  noLinks : response.headers.contains (ascii "Grip-Link") = false
  mode : response.headers.get (ascii "Grip-Hold") = some (ascii d.modeName)
  channels : List.Forall₂ (HeaderChannel fromUtf8)
    (response.headers.getAllAsParameters (ascii "Grip-Channel") .noParseFirstParameter) d.channels
  timeout : HeaderNumber (response.headers.get (ascii "Grip-Timeout")) d.timeout
  keepAlive : match d.keepAlive with
    | none => response.headers.contains (ascii "Grip-Keep-Alive") = false
    | some ka => HeaderKeepAlive fromUtf8 fromBase64
      (response.headers.getAsParameters (ascii "Grip-Keep-Alive") .noParseFirstParameter) ka
  metas : HeaderMeta fromUtf8
    (response.headers.getAllAsParameters (ascii "Grip-Set-Meta") .parseAllParameters) d.holdMeta

def JsonNumber (v : Option Variant) (n : Option Int) : Prop :=
  match n with
  | none => v = none
  | some n => isInt n ∧ ∃ number, v = some number ∧ numberOf number = some (n : Rat)

structure JsonChannel (v : Variant) (c : Channel) : Prop where
  form : ∃ members, v = .map members ∧ lookup members "name" = some (.string c.name) ∧
    lookup members "prev-id" = c.prevId.map .string ∧
    (lookup members "filters" = some (.list (c.filters.map .string)) ∨
      lookup members "filters" = none ∧ c.filters = [])

structure JsonKeepAlive (v : Variant) (ka : KeepAlive) : Prop where
  form : ∃ members, v = .map members ∧ JsonNumber (lookup members "timeout") ka.timeout ∧
    ((∃ text, lookup members "content-bin" = some (.string text) ∧
      fromBase64 (toUtf8 text) = some ka.content) ∨
      lookup members "content-bin" = none ∧ ∃ text, lookup members "content" = some (.string text) ∧
        toUtf8 text = ka.content)

def JsonMeta (v : Option Variant) (metas : Meta) : Prop :=
  match v with
  | none => metas = OrderedMap.empty
  | some v => ∃ pairs : List (String × String), v = .map (pairs.map fun p => (p.1, .string p.2)) ∧
    pairs.foldl (fun metas p => metas.insert p.1 (some p.2)) OrderedMap.empty = metas

structure JsonForm (response : ResponseData) (d : Description) : Prop where
  document : response.headers.getAsFirstParameter (ascii "Content-Type") = gripInstruct
  code : response.code = 200
  noGrip : ∀ key ∈ ["Grip-Hold", "Grip-Channel", "Grip-Timeout", "Grip-Keep-Alive", "Grip-Set-Meta",
    "Grip-Status", "Grip-Link"], response.headers.contains (ascii key) = false
  body : ∃ entries hold, parseJson response.body = .map entries ∧
    lookup entries "hold" = some (.map hold) ∧
    lookup entries "response" = none ∧ lookup hold "mode" = some (.string d.modeName) ∧
    (∃ channels, lookup hold "channels" = some (.list channels) ∧
      List.Forall₂ JsonChannel channels d.channels) ∧
    JsonNumber (lookup hold "timeout") d.timeout ∧
    (match d.keepAlive with
    | none => lookup hold "keep-alive" = none
    | some ka => ∃ v, lookup hold "keep-alive" = some v ∧ JsonKeepAlive fromBase64 v ka) ∧
    JsonMeta (lookup hold "meta") d.holdMeta

def Instruct.bounded (i : Instruct) : Prop :=
  ∀ c ∈ i.hold.channels, c.filters.length ≤ messageFilterStackSizeMax

/-- The two forms are accepted alike and give the same hold, which can be served. -/
def Equivalent (a b : Option Instruct) : Prop :=
  match a, b with
  | some i, some j => i.hold = j.hold ∧ i.bounded ∧ j.bounded
  | none, none => True
  | _, _ => False

def Description.invalid (d : Description) : Prop :=
  (∃ n, d.timeout = some n ∧ n < 0) ∨ ∃ ka n, d.keepAlive = some ka ∧ ka.timeout = some n ∧ n < 0

/-- The name of the channel hides its last id, as it reads like the name of that
    parameter. -/
def hidesPrevId : Parameters → Bool
  | [] => false
  | first :: rest => sameName first.1 (ascii "prev-id") &&
    (Parameters.get rest (ascii "prev-id")).isSome

/-- The hold has no keep-alives, no channel has too many filters, and none hides its
    last id. -/
structure Plain (response : ResponseData) (d : Description) : Prop where
  noKeepAlive : d.keepAlive = none
  filters : ∀ c ∈ d.channels, c.filters.length ≤ messageFilterStackSizeMax
  prevIds : ∀ params ∈ response.headers.getAllAsParameters
    (ascii "Grip-Channel") .noParseFirstParameter, hidesPrevId params = false

def checked (n : Option Int) (default : Int) : Option Int :=
  match n with
  | none => some default
  | some n => if n < 0 then none else some n

variable {fromUtf8 fromBase64 parseJson}
variable {response : ResponseData} {d : Description}

theorem gripHold_of_form (form : HeaderForm fromUtf8 fromBase64 response d) :
    gripHold response.headers = .ok d.mode := by
  rw [gripHold, form.mode]
  unfold Description.modeName Description.mode
  cases d.stream <;> rfl

theorem get_cons_none {name : Bytes} {rest : Parameters} (key : Bytes) :
    Parameters.get ((name, none) :: rest) key = if sameName name key then none
      else Parameters.get rest key := by
  unfold Parameters.get
  rw [List.find?_cons]
  cases sameName name key <;> rfl

theorem contains_cons {first : Parameter} {rest : Parameters} (key : Bytes) :
    Parameters.contains (first :: rest) key =
      (sameName first.1 key || Parameters.contains rest key) := rfl

def seen (params : Parameters) (c : Channel) : Channel :=
  { c with prevId := if hidesPrevId params then none else c.prevId }

section
variable {params : Parameters} {c : Channel} (form : HeaderChannel fromUtf8 params c)
include form

theorem gripChannel_of_form : (gripChannel fromUtf8 params).toOption =
      if c.filters.length ≤ messageFilterStackSizeMax then some (seen params c) else none := by
  obtain ⟨name, rest, rfl, named, last, filters⟩ := form.form
  have hides : hidesPrevId ((name, none) :: rest) =
      (sameName name (ascii "prev-id") && (Parameters.get rest (ascii "prev-id")).isSome) := rfl
  rw [gripChannel]
  dsimp only
  rw [filters, named, get_cons_none, seen, hides]
  by_cases few : c.filters.length ≤ messageFilterStackSizeMax
  · rw [if_neg (not_lt.mpr few), if_pos few, ← last]
    cases sameName name (ascii "prev-id") with
    | false => rfl
    | true => cases Parameters.get rest (ascii "prev-id") <;> rfl
  · rw [if_pos (not_le.mp few), if_neg few]
    rfl

theorem seen_eq_iff : seen params c = c ↔ hidesPrevId params = false := by
  cases hides : hidesPrevId params with
  | false => simp [seen, hides]
  | true =>
    obtain ⟨name, rest, rfl, _, last, _⟩ := form.form
    have present : (Parameters.get rest (ascii "prev-id")).isSome = true := by
      have both : (sameName name (ascii "prev-id") &&
        (Parameters.get rest (ascii "prev-id")).isSome) = true := hides
      exact (Bool.and_eq_true _ _ ▸ both).2
    obtain ⟨id, found⟩ := Option.isSome_iff_exists.mp present
    have some_ : c.prevId = some (fromUtf8 id) := by
      rw [← last, found]
      rfl
    simp only [Bool.true_eq_false, iff_false]
    intro same
    have gone : c.prevId = none := by
      rw [← same, seen, hides]
      rfl
    rw [some_] at gone
    cases gone

end

section
variable {params : List Parameters} {channels : List Channel}
  (forms : List.Forall₂ (HeaderChannel fromUtf8) params channels)
include forms

theorem mapM_gripChannel :
    (params.mapM (gripChannel fromUtf8)).toOption =
      if ∀ c ∈ channels, c.filters.length ≤ messageFilterStackSizeMax then
        some (List.zipWith seen params channels)
      else none := by
  induction forms with
  | nil => simp [Except.toOption, pure, Except.pure]
  | @cons p c params channels form _ ih =>
    rw [mapM_cons_toOption, gripChannel_of_form form, ih]
    by_cases few : c.filters.length ≤ messageFilterStackSizeMax
    · by_cases others : ∀ c ∈ channels, c.filters.length ≤ messageFilterStackSizeMax
      · have all : ∀ x ∈ c :: channels, x.filters.length ≤ messageFilterStackSizeMax :=
          List.forall_mem_cons.mpr ⟨few, others⟩
        rw [if_pos few, if_pos others, if_pos all]
        rfl
      · have notAll : ¬ ∀ x ∈ c :: channels, x.filters.length ≤ messageFilterStackSizeMax :=
          fun all => others (List.forall_mem_cons.mp all).2
        rw [if_pos few, if_neg others, if_neg notAll]
        rfl
    · have notAll : ¬ ∀ x ∈ c :: channels, x.filters.length ≤ messageFilterStackSizeMax :=
        fun all => few (List.forall_mem_cons.mp all).1
      rw [if_neg few, if_neg notAll]
      rfl

theorem zipWith_seen_iff :
    List.zipWith seen params channels = channels ↔ ∀ p ∈ params, hidesPrevId p = false := by
  induction forms with
  | nil => simp
  | cons form _ ih =>
    rw [List.zipWith_cons_cons, List.cons.injEq, ih, seen_eq_iff form, List.forall_mem_cons]

end

theorem parseTimeout_eq {digits : Bytes} {n : Int} (number : bytesToInt digits = some n)
    (unparsed invalid : String) :
    (parseTimeout digits unparsed invalid).toOption = if n < 0 then none else some n := by
  rw [parseTimeout, number]
  dsimp only
  split <;> rfl

theorem gripTimeout_of_form (form : HeaderForm fromUtf8 fromBase64 response d) :
    (gripTimeout response.headers).toOption = checked d.timeout (-1) := by
  have number := form.timeout
  unfold HeaderNumber at number
  rw [gripTimeout]
  cases given : d.timeout with
  | none =>
    rw [given] at number
    rw [number]
    rfl
  | some n =>
    rw [given] at number
    obtain ⟨digits, text, parsed⟩ := number
    rw [text]
    exact parseTimeout_eq parsed _ _

theorem keepAliveModeOf_ne {mode : Bytes} {k : KeepAliveMode}
    (ok : keepAliveModeOf fromUtf8 mode = .ok k) : k ≠ .noKeepAlive := by
  unfold keepAliveModeOf at ok
  split_ifs at ok
  · cases ok
    nofun
  · cases ok
    nofun

theorem keepAliveTimeoutOf_negative {content : Bytes} {rest : Parameters} {n : Int} {digits : Bytes}
    (present : Parameters.contains rest (ascii "timeout") = true)
    (text : Parameters.get rest (ascii "timeout") = some digits)
    (parsed : bytesToInt digits = some n) (negative : n < 0) :
    (keepAliveTimeoutOf ((content, none) :: rest)).toOption = none := by
  have found : Parameters.contains ((content, none) :: rest) (ascii "timeout") = true := by
    rw [contains_cons, present, Bool.or_true]
  rw [keepAliveTimeoutOf, if_pos found, get_cons_none]
  cases sameName content (ascii "timeout") with
  | true => rfl
  | false =>
    rw [if_neg Bool.false_ne_true, text, Option.getD_some, parseTimeout_eq parsed, if_pos negative]

theorem gripKeepAlive_of_form (form : HeaderForm fromUtf8 fromBase64 response d) {ka : KeepAlive}
    (given : d.keepAlive = some ka) :
    (∀ result, (gripKeepAlive fromUtf8 fromBase64 response.headers).toOption = some result →
    result.1 ≠ .noKeepAlive) ∧
      ∀ n, ka.timeout = some n → n < 0 →
        (gripKeepAlive fromUtf8 fromBase64 response.headers).toOption = none := by
  have fields := form.keepAlive
  rw [given] at fields
  obtain ⟨content, rest, params, nonempty, _, _, present, number⟩ := fields.form
  have unfolded : (gripKeepAlive fromUtf8 fromBase64 response.headers).toOption =
      (keepAliveModeOf fromUtf8 ((Parameters.get ((content, none) :: rest) (ascii "mode")).getD
        [])).toOption.bind fun mode =>
        (keepAliveTimeoutOf ((content, none) :: rest)).toOption.bind fun timeout =>
          (keepAliveDataOf fromUtf8 fromBase64
            ((Parameters.get ((content, none) :: rest) (ascii "format")).getD [])
              content).toOption.map fun data =>
              (mode, data, timeout) := by
    rw [gripKeepAlive, params]
    dsimp only
    rw [if_neg nonempty, toOption_bind]
    refine congrArg _ (funext fun mode => ?_)
    rw [toOption_bind]
    refine congrArg _ (funext fun timeout => ?_)
    cases keepAliveDataOf fromUtf8 fromBase64
      ((Parameters.get ((content, none) :: rest) (ascii "format")).getD []) content <;> rfl
  rw [unfolded]
  constructor
  · intro result ok
    obtain ⟨mode, modeOk, inner⟩ := Option.bind_eq_some_iff.mp ok
    obtain ⟨timeout, _, last⟩ := Option.bind_eq_some_iff.mp inner
    obtain ⟨data, _, rfl⟩ := Option.map_eq_some_iff.mp last
    exact keepAliveModeOf_ne (ok_of_toOption modeOk)
  · intro n timed negative
    unfold HeaderNumber at number
    rw [timed] at present number
    obtain ⟨digits, text, parsed⟩ := number
    rw [keepAliveTimeoutOf_negative present text parsed negative]
    cases (keepAliveModeOf fromUtf8 ((Parameters.get ((content, none) :: rest) (ascii "mode")).getD
      [])).toOption <;> rfl

theorem gripKeepAlive_of_none (form : HeaderForm fromUtf8 fromBase64 response d)
    (given : d.keepAlive = none) :
    gripKeepAlive fromUtf8 fromBase64 response.headers = .ok (.noKeepAlive, [], -1) := by
  have absent := form.keepAlive
  rw [given] at absent
  rw [gripKeepAlive, Headers.getAsParameters_nil absent]

theorem foldlM_gripMeta {params : List Parameters} {pairs : List (Bytes × Bytes)}
    (same : params.map List.head? = pairs.map fun p => some (p.1, some p.2)) (metas : Meta) :
    params.foldlM (gripSetMeta fromUtf8) metas =
      .ok (pairs.foldl (fun metas p => metas.insert (fromUtf8 p.1) (some (fromUtf8 p.2)))
        metas) := by
  induction params generalizing pairs metas with
  | nil =>
    cases pairs with
    | nil => rfl
    | cons p pairs => cases same
  | cons param params ih =>
    cases pairs with
    | nil => cases same
    | cons p pairs =>
      obtain ⟨head, tail⟩ := List.cons.inj same
      cases param with
      | nil => cases head
      | cons first rest =>
        have isFirst : first = (p.1, some p.2) := Option.some.inj head
        subst isFirst
        exact ih tail _

theorem gripMeta_of_form (form : HeaderForm fromUtf8 fromBase64 response d) :
    gripMeta fromUtf8 response.headers = .ok d.holdMeta := by
  obtain ⟨pairs, same, made⟩ := form.metas
  rw [gripMeta, foldlM_gripMeta same, made]

theorem headerHold_toOption (hs : Headers) :
    (headerHold fromUtf8 fromBase64 hs).toOption =
      (gripHold hs).toOption.bind fun holdMode =>
      (gripChannels fromUtf8 hs).toOption.bind fun channels =>
        (gripTimeout hs).toOption.bind fun timeout =>
        (gripKeepAlive fromUtf8 fromBase64 hs).toOption.bind fun keepAlive =>
          (gripMeta fromUtf8 hs).toOption.map fun holdMeta =>
            ⟨holdMode, channels, timeout, keepAlive.1, keepAlive.2.1, keepAlive.2.2, holdMeta⟩ := by
  rw [headerHold, toOption_bind]
  refine congrArg _ (funext fun holdMode => ?_)
  rw [toOption_bind]
  refine congrArg _ (funext fun channels => ?_)
  rw [toOption_bind]
  refine congrArg _ (funext fun timeout => ?_)
  rw [toOption_bind]
  refine congrArg _ (funext fun keepAlive => ?_)
  cases gripMeta fromUtf8 hs <;> rfl

variable {validLink : String → Bool} {getReason : Int → Bytes}

theorem fromResponse_of_headers (form : HeaderForm fromUtf8 fromBase64 response d) :
    (fromResponse fromUtf8 fromBase64 parseJson validLink getReason response).toOption.map
    Instruct.hold =
      (headerHold fromUtf8 fromBase64 response.headers).toOption.map Hold.finish := by
  have status : gripStatus response = .ok response := by
    rw [gripStatus, Headers.get_none form.noStatus]
  have links : gripLinks fromUtf8 validLink response.headers = .ok {} := by
    rw [gripLinks, Headers.getAllAsParameters_nil form.noLinks]
    rfl
  rw [fromResponse, status, links]
  cases headerHold fromUtf8 fromBase64 response.headers with
  | error message => rfl
  | ok hold =>
    simp only [fromDocument, if_neg form.noDocument]
    rfl

theorem toInt_of_number {v : Variant} {n : Int} (small : isInt n)
    (number : numberOf v = some (n : Rat)) : v.canConvertInt = true ∧ v.toInt = n := by
  have asInt : numberOf (.int n) = some (n : Rat) := rfl
  refine ⟨canConvertInt_of_number number, ?_⟩
  rw [toInt_of_numbers number asInt]
  obtain ⟨low, high⟩ := small
  rw [Variant.toInt, toLongLong, if_pos (by omega)]
  exact Int.bmod_eq_of_le (by omega) (by omega)

variable {members : List (String × Variant)}

theorem jsonTimeout_of_form {n : Option Int}
    (number : JsonNumber (lookup members "timeout") n) (pn : String) (default : Int) :
    (jsonTimeout (.map members) pn default).toOption = checked n default := by
  rw [jsonTimeout]
  unfold checked
  unfold JsonNumber at number
  cases n with
  | none =>
    have absent : (Variant.map members).keyedObjectContains "timeout" = false := by
      rw [Variant.keyedObjectContains, Variant.entries, number]
      rfl
    rw [absent]
    rfl
  | some n =>
    obtain ⟨small, v, found, isNumber⟩ := number
    obtain ⟨converts, value⟩ := toInt_of_number small isNumber
    have present : (Variant.map members).keyedObjectContains "timeout" = true := by
      rw [Variant.keyedObjectContains, Variant.entries, found]
      rfl
    have got : (Variant.map members).keyedObjectGetValue "timeout" = v := by
      rw [Variant.keyedObjectGetValue, Variant.entries, found]
      rfl
    rw [if_pos present]
    dsimp only
    rw [got, converts, value]
    by_cases negative : n < 0
    · rw [if_pos negative, if_pos negative]
      rfl
    · rw [if_neg negative, if_neg negative]
      rfl

variable {name pn : String}

theorem getString_of_lookup {text : String} {required : Bool}
    (found : lookup members name = some (.string text)) :
    (Variant.map members).getString fromUtf8 pn name required = .ok (some text) := by
  unfold Variant.getString Variant.getChild
  rw [Variant.entries, found]
  rfl

theorem getString_of_none
    (absent : lookup members name = none) :
    (Variant.map members).getString fromUtf8 pn name false = .ok none := by
  unfold Variant.getString Variant.getChild
  rw [Variant.entries, absent]
  rfl

theorem getList_of_lookup {items : List Variant}
    {required : Bool} (found : lookup members name = some (.list items)) :
    (Variant.map members).getList pn name required = .ok items := by
  unfold Variant.getList Variant.getChild
  rw [Variant.entries, found]
  rfl

theorem getList_of_none
    (absent : lookup members name = none) :
    (Variant.map members).getList pn name false = .ok [] := by
  unfold Variant.getList Variant.getChild
  rw [Variant.entries, absent]
  rfl

theorem mapM_jsonFilter (filters : List String) :
    (filters.map Variant.string).mapM (jsonFilter fromUtf8) = .ok filters := by
  induction filters with
  | nil => rfl
  | cons f filters ih =>
    rw [List.map_cons, List.mapM_cons, ih]
    rfl

theorem jsonChannel_of_form {v : Variant} {c : Channel} (form : JsonChannel v c) :
    jsonChannel fromUtf8 v = .ok c := by
  obtain ⟨members, rfl, named, last, filters⟩ := form.form
  have lastId :
      (Variant.map members).getString fromUtf8 "channel" "prev-id" false = .ok c.prevId := by
    cases given : c.prevId with
    | none => exact getString_of_none (by rw [last, given]; rfl)
    | some id => exact getString_of_lookup (by rw [last, given]; rfl)
  have theFilters : ∃ vfilters, (Variant.map members).getList "channel" "filters" false =
      .ok vfilters ∧ vfilters.mapM (jsonFilter fromUtf8) = .ok c.filters := by
    rcases filters with found | ⟨absent, empty⟩
    · exact ⟨_, getList_of_lookup found, mapM_jsonFilter c.filters⟩
    · exact ⟨_, getList_of_none absent, by rw [empty]; rfl⟩
  obtain ⟨vfilters, got, read⟩ := theFilters
  rw [jsonChannel, getString_of_lookup named, lastId, got]
  change (vfilters.mapM (jsonFilter fromUtf8) >>= fun filters =>
    (pure ⟨c.name, c.prevId, filters⟩ : Except String Channel)) = _
  rw [read]
  rfl

theorem mapM_jsonChannel {vs : List Variant} {channels : List Channel}
    (forms : List.Forall₂ JsonChannel vs channels) :
    vs.mapM (jsonChannel fromUtf8) = .ok channels := by
  induction forms with
  | nil => rfl
  | cons form _ ih =>
    rw [List.mapM_cons, jsonChannel_of_form form, ih]
    rfl

theorem getKeyedObject_of_lookup {inner : List (String × Variant)}
    (found : lookup members name = some (.map inner)) :
    (Variant.map members).getKeyedObject pn name false = .ok (.map inner) := by
  unfold Variant.getKeyedObject Variant.getChild
  rw [Variant.entries, found]
  rfl

theorem getKeyedObject_of_none
    (absent : lookup members name = none) :
    (Variant.map members).getKeyedObject pn name false = .ok .invalid := by
  unfold Variant.getKeyedObject Variant.getChild
  rw [Variant.entries, absent]
  rfl

theorem foldlM_jsonSetMeta (pairs : List (String × String)) (metas : Meta) :
    (pairs.map fun p => (p.1, Variant.string p.2)).foldlM (jsonSetMeta fromUtf8) metas =
      .ok (pairs.foldl (fun metas p => metas.insert p.1 (some p.2)) metas) := by
  induction pairs generalizing metas with
  | nil => rfl
  | cons p pairs ih => exact ih _

theorem jsonMeta_of_form {metas : Meta}
    (form : JsonMeta (lookup members "meta") metas) :
    jsonMeta fromUtf8 {} (.map members) = .ok metas := by
  unfold JsonMeta at form
  rw [jsonMeta]
  cases found : lookup members "meta" with
  | none =>
    rw [found] at form
    rw [getKeyedObject_of_none found, form]
    rfl
  | some v =>
    rw [found] at form
    obtain ⟨pairs, rfl, made⟩ := form
    rw [getKeyedObject_of_lookup found]
    exact (foldlM_jsonSetMeta pairs _).trans (congrArg Except.ok made)

theorem jsonBytes_of_form {ka : KeepAlive}
    (content : (∃ text, lookup members "content-bin" = some (.string text) ∧
    fromBase64 (toUtf8 text) = some ka.content) ∨
      lookup members "content-bin" = none ∧ ∃ text, lookup members "content" = some (.string text) ∧
        toUtf8 text = ka.content) :
    jsonBytes fromUtf8 fromBase64 (.map members) "keep-alive" "content" "content-bin" [] =
      .ok ka.content := by
  rw [jsonBytes]
  unfold Variant.keyedObjectContains Variant.keyedObjectGetValue
  rw [Variant.entries]
  rcases content with ⟨text, found, decoded⟩ | ⟨absent, text, found, encoded⟩
  · rw [found, if_pos (by rfl), getString_of_lookup found]
    change Except.ok ((fromBase64 (toUtf8 text)).getD []) = _
    rw [decoded]
    rfl
  · rw [absent, found, ← encoded]
    rfl

theorem jsonKeepAlive_of_form {v : Variant} {ka : KeepAlive}
    (found : lookup members "keep-alive" = some v) (form : JsonKeepAlive fromBase64 v ka) :
    (jsonKeepAlive fromUtf8 fromBase64 {} (.map members)).toOption =
    (checked ka.timeout 55).map (ka.content, ·) := by
  obtain ⟨inner, rfl, number, content⟩ := form.form
  have timeout : (jsonTimeout (.map inner) "keep-alive" 55).toOption = checked ka.timeout 55 :=
    jsonTimeout_of_form number "keep-alive" 55
  rw [jsonKeepAlive, getKeyedObject_of_lookup found]
  change (jsonBytes fromUtf8 fromBase64 (.map inner) "keep-alive" "content" "content-bin"
    [] >>= fun data =>
    jsonTimeout (.map inner) "keep-alive" 55 >>= fun timeout => pure (data, timeout)).toOption = _
  rw [jsonBytes_of_form content]
  change (jsonTimeout (.map inner) "keep-alive" 55 >>= fun timeout =>
    pure (ka.content, timeout)).toOption = _
  rw [toOption_bind, timeout]
  cases checked ka.timeout 55 <;> rfl

theorem jsonKeepAlive_of_none (absent : lookup members "keep-alive" = none) :
    jsonKeepAlive fromUtf8 fromBase64 {} (.map members) = .ok ([], -1) := by
  rw [jsonKeepAlive, getKeyedObject_of_none absent]
  rfl

def documentKeepAlive (keepAlive : Option KeepAlive) : Option (Bytes × Int) :=
  match keepAlive with
  | none => some ([], -1)
  | some ka => (checked ka.timeout 55).map (ka.content, ·)

theorem documentKeepAlive_none : documentKeepAlive none = some ([], -1) := rfl

theorem documentKeepAlive_some (ka : KeepAlive) :
    documentKeepAlive (some ka) = (checked ka.timeout 55).map (ka.content, ·) := rfl

theorem jsonMode_of_form (mode : lookup members "mode" = some (.string d.modeName)) :
    jsonMode fromUtf8 (.map members) = .ok d.mode := by
  rw [jsonMode, getString_of_lookup mode]
  unfold Description.modeName Description.mode
  cases d.stream <;> rfl

theorem headerHold_of_document (form : JsonForm fromBase64 parseJson response d) :
    headerHold fromUtf8 fromBase64 response.headers = .ok {} := by
  have absent := form.noGrip
  have hold : gripHold response.headers = .ok .noHold := by
    rw [gripHold, Headers.get_none (absent "Grip-Hold" (by decide))]
  have channels : gripChannels fromUtf8 response.headers = .ok [] := by
    rw [gripChannels, Headers.getAllAsParameters_nil (absent "Grip-Channel" (by decide))]
    rfl
  have timeout : gripTimeout response.headers = .ok (-1) := by
    rw [gripTimeout, Headers.get_none (absent "Grip-Timeout" (by decide))]
  have keepAlive : gripKeepAlive fromUtf8 fromBase64 response.headers = .ok (.noKeepAlive,
      [], -1) := by
    rw [gripKeepAlive, Headers.getAsParameters_nil (absent "Grip-Keep-Alive" (by decide))]
  have metas : gripMeta fromUtf8 response.headers = .ok OrderedMap.empty := by
    rw [gripMeta, Headers.getAllAsParameters_nil (absent "Grip-Set-Meta" (by decide))]
    rfl
  rw [headerHold, hold, channels, timeout, keepAlive, metas]
  rfl

theorem jsonHold_of_form {hold : List (String × Variant)} {channels : List Variant}
    (mode : lookup hold "mode" = some (.string d.modeName))
    (listed : lookup hold "channels" = some (.list channels))
    (forms : List.Forall₂ JsonChannel channels d.channels)
    (number : JsonNumber (lookup hold "timeout") d.timeout)
    (keepAlive : match d.keepAlive with
      | none => lookup hold "keep-alive" = none
      | some ka => ∃ v, lookup hold "keep-alive" = some v ∧ JsonKeepAlive fromBase64 v ka)
    (metas : JsonMeta (lookup hold "meta") d.holdMeta) :
    (jsonHold fromUtf8 fromBase64 {} (.map hold)).toOption =
      (checked d.timeout (-1)).bind fun timeout =>
      (documentKeepAlive d.keepAlive).map fun keepAlive =>
        ⟨d.mode, d.channels, timeout, .noKeepAlive, keepAlive.1, keepAlive.2, d.holdMeta⟩ := by
  have timeout : (jsonTimeout (.map hold) "hold" (-1)).toOption = checked d.timeout (-1) :=
    jsonTimeout_of_form number "hold" (-1)
  have alive : (jsonKeepAlive fromUtf8 fromBase64 {} (.map hold)).toOption =
      documentKeepAlive d.keepAlive := by
    unfold documentKeepAlive
    cases given : d.keepAlive with
    | none =>
      rw [given] at keepAlive
      rw [jsonKeepAlive_of_none keepAlive]
      rfl
    | some ka =>
      rw [given] at keepAlive
      obtain ⟨v, found, form⟩ := keepAlive
      exact jsonKeepAlive_of_form found form
  rw [jsonHold, jsonMode_of_form mode, getList_of_lookup listed]
  change (channels.mapM (jsonChannel fromUtf8) >>= fun read => _).toOption = _
  rw [mapM_jsonChannel forms]
  change (jsonTimeout (.map hold) "hold" (-1) >>= fun read => _).toOption = _
  rw [toOption_bind, timeout]
  refine congrArg _ (funext fun time => ?_)
  rw [toOption_bind, alive, jsonMeta_of_form metas]
  cases documentKeepAlive d.keepAlive <;> rfl

theorem fromResponse_of_document (form : JsonForm fromBase64 parseJson response d) :
    (fromResponse fromUtf8 fromBase64 parseJson validLink getReason response).toOption.map
    Instruct.hold =
      ((checked d.timeout (-1)).bind fun timeout =>
      (documentKeepAlive d.keepAlive).map fun keepAlive =>
        (⟨d.mode, d.channels, timeout, .noKeepAlive, keepAlive.1, keepAlive.2,
        d.holdMeta⟩ : Hold)).map Hold.finish := by
  have status : gripStatus response = .ok response := by
    rw [gripStatus, Headers.get_none (form.noGrip "Grip-Status" (by decide))]
  have links : gripLinks fromUtf8 validLink response.headers = .ok {} := by
    rw [gripLinks, Headers.getAllAsParameters_nil (form.noGrip "Grip-Link" (by decide))]
    rfl
  obtain ⟨entries, hold, parsed, found, noResponse, mode, ⟨channels, listed, forms⟩, number,
    keepAlive, metas⟩ := form.body
  have docu : document parseJson response = .ok entries := by
    rw [document, form.code, parsed]
    rfl
  have theHold : documentHold fromUtf8 fromBase64 {} entries = failing
      (jsonHold fromUtf8 fromBase64 {} (.map hold)) := by
    rw [documentHold, found]
  rw [← jsonHold_of_form mode listed forms number keepAlive metas, fromResponse,
    headerHold_of_document form, status, links]
  simp only [failing, bind, Except.bind, fromDocument, if_pos form.document, docu, theHold,
    documentResponse, noResponse]
  cases jsonHold fromUtf8 fromBase64 {} (.map hold) <;> rfl

def SameHold (x y : Option Hold) : Prop :=
  match x, y with
  | some h, some k => h.finish = k.finish ∧
      (∀ c ∈ h.channels, c.filters.length ≤ messageFilterStackSizeMax) ∧
    ∀ c ∈ k.channels, c.filters.length ≤ messageFilterStackSizeMax
  | none, none => True
  | _, _ => False

theorem equivalent_iff_sameHold {a b : Option Instruct} {x y : Option Hold}
    (ofA : a.map Instruct.hold = x.map Hold.finish)
    (ofB : b.map Instruct.hold = y.map Hold.finish) :
    Equivalent a b ↔ SameHold x y := by
  cases a with
  | none =>
    cases x with
    | some h => cases ofA
    | none =>
      cases b with
      | none =>
        cases y with
        | some k => cases ofB
        | none => exact Iff.rfl
      | some j =>
        cases y with
        | none => cases ofB
        | some k => exact Iff.rfl
  | some i =>
    cases x with
    | none => cases ofA
    | some h =>
      have isH : i.hold = h.finish := Option.some.inj ofA
      cases b with
      | none =>
        cases y with
        | some k => cases ofB
        | none => exact Iff.rfl
      | some j =>
        cases y with
        | none => cases ofB
        | some k =>
          have isK : j.hold = k.finish := Option.some.inj ofB
          unfold Equivalent Instruct.bounded
          dsimp only
          rw [isH, isK]
          exact Iff.rfl

theorem checked_some {n : Option Int} (valid : ∀ k, n = some k → ¬ k < 0) (default : Int) :
    ∃ t, checked n default = some t := by
  cases n with
  | none => exact ⟨default, rfl⟩
  | some k => exact ⟨k, if_neg (valid k rfl)⟩

theorem checked_none {n : Option Int} {k : Int} (given : n = some k) (negative : k < 0)
    (default : Int) : checked n default = none := by
  rw [given]
  exact if_pos negative

section
variable {headers : ResponseData} (form : HeaderForm fromUtf8 fromBase64 headers d)
include form

theorem headerHold_of_form :
      (headerHold fromUtf8 fromBase64 headers.headers).toOption =
      (if ∀ c ∈ d.channels, c.filters.length ≤ messageFilterStackSizeMax
        then some (List.zipWith seen
          (headers.headers.getAllAsParameters (ascii "Grip-Channel") .noParseFirstParameter)
          d.channels)
        else none).bind fun channels => (checked d.timeout (-1)).bind fun timeout =>
          (gripKeepAlive fromUtf8 fromBase64 headers.headers).toOption.map fun keepAlive =>
            ⟨d.mode, channels, timeout, keepAlive.1, keepAlive.2.1, keepAlive.2.2, d.holdMeta⟩ := by
  have channels : (gripChannels fromUtf8 headers.headers).toOption = _ :=
    mapM_gripChannel form.channels
  rw [headerHold_toOption, gripHold_of_form form, channels, gripTimeout_of_form form,
    gripMeta_of_form form]
  simp only [Except.toOption, Option.bind_some, Option.map_eq_bind]
  rfl

theorem headerHold_of_invalid (invalid : d.invalid) :
    (headerHold fromUtf8 fromBase64 headers.headers).toOption = none := by
  rw [headerHold_of_form form, Option.bind_eq_none_iff]
  intro channels _
  rcases invalid with ⟨n, timed, negative⟩ | ⟨ka, n, given, timed, negative⟩
  · rw [checked_none timed negative]
    rfl
  · rw [(gripKeepAlive_of_form form given).2 n timed negative, Option.bind_eq_none_iff]
    exact fun timeout _ => rfl

end

/-- The two forms of a description are equivalent exactly if a timeout is negative,
    or the description is plain. -/
theorem forms_equivalent_iff {headers document : ResponseData}
    (headerForm : HeaderForm fromUtf8 fromBase64 headers d)
    (jsonForm : JsonForm fromBase64 parseJson document d) :
    Equivalent (fromResponse fromUtf8 fromBase64 parseJson validLink getReason headers).toOption
        (fromResponse fromUtf8 fromBase64 parseJson validLink getReason document).toOption ↔
      d.invalid ∨ Plain headers d := by
  rw [equivalent_iff_sameHold (fromResponse_of_headers headerForm)
    (fromResponse_of_document jsonForm)]
  by_cases invalid : d.invalid
  · have noDocument : ((checked d.timeout (-1)).bind fun timeout =>
        (documentKeepAlive d.keepAlive).map fun keepAlive =>
        (⟨d.mode, d.channels, timeout, .noKeepAlive, keepAlive.1, keepAlive.2, d.holdMeta⟩ : Hold))
          = none := by
      rcases invalid with ⟨n, timed, negative⟩ | ⟨ka, n, given, timed, negative⟩
      · rw [checked_none timed negative]
        rfl
      · rw [Option.bind_eq_none_iff, given, documentKeepAlive_some, checked_none timed negative]
        exact fun timeout _ => rfl
    rw [headerHold_of_invalid headerForm invalid, noDocument]
    exact iff_of_true trivial (Or.inl invalid)
  obtain ⟨t, timeout⟩ :=
    checked_some (fun k given negative => invalid (Or.inl ⟨k, given, negative⟩)) (-1)
  obtain ⟨p, alive⟩ : ∃ p, documentKeepAlive d.keepAlive = some p := by
    cases given : d.keepAlive with
    | none => exact ⟨_, documentKeepAlive_none⟩
    | some ka =>
      obtain ⟨k, valid⟩ := checked_some
        (fun k timed negative => invalid (Or.inr ⟨ka, k, given, timed, negative⟩)) 55
      exact ⟨(ka.content, k), by rw [documentKeepAlive_some, valid]; rfl⟩
  rw [headerHold_of_form headerForm, timeout, alive]
  constructor
  · intro same
    refine Or.inr ?_
    by_cases few : ∀ c ∈ d.channels, c.filters.length ≤ messageFilterStackSizeMax
    · rw [if_pos few] at same
      cases keepAlive : (gripKeepAlive fromUtf8 fromBase64 headers.headers).toOption with
      | none =>
        rw [keepAlive] at same
        exact same.elim
      | some result =>
        rw [keepAlive] at same
        have finished := same.1
        have mode : result.1 = .noKeepAlive := congrArg Hold.keepAliveMode finished
        have channels : List.zipWith seen
            (headers.headers.getAllAsParameters (ascii "Grip-Channel") .noParseFirstParameter)
              d.channels = d.channels :=
          congrArg Hold.channels finished
        refine ⟨?_, few, (zipWith_seen_iff headerForm.channels).mp channels⟩
        cases given : d.keepAlive with
        | none => rfl
        | some ka => exact ((gripKeepAlive_of_form headerForm given).1 result keepAlive mode).elim
    · rw [if_neg few] at same
      exact same.elim
  · rintro (bad | plain)
    · exact (invalid bad).elim
    · have nothing : p = ([], -1) := by
        rw [plain.noKeepAlive, documentKeepAlive_none] at alive
        exact (Option.some.inj alive).symm
      rw [if_pos plain.filters, (zipWith_seen_iff headerForm.channels).mpr plain.prevIds,
        gripKeepAlive_of_none headerForm plain.noKeepAlive, nothing]
      exact ⟨rfl, plain.filters, plain.filters⟩

end

def crowded : Description :=
  ⟨false, [⟨"a", none, ["f", "f", "f", "f", "f", "f"]⟩], none, none, OrderedMap.empty⟩

def crowdedHeaders : ResponseData :=
  ⟨200, [], [(ascii "Grip-Hold", ascii "response"),
    (ascii "Grip-Channel", ascii "a; filter=f; filter=f; filter=f; filter=f; filter=f; filter=f")],
      []⟩

def crowdedText : Bytes :=
  ascii ("\x7b\"hold\":\x7b\"mode\":\"response\",\"channels\":[\x7b\"name\":\"a\"," ++
    "\"filters\":[\"f\",\"f\",\"f\",\"f\",\"f\",\"f\"]\x7d]\x7d\x7d")

def crowdedDocument : ResponseData := ⟨200, [], [(ascii "Content-Type", gripInstruct)], crowdedText⟩

def crowdedEntries : List (String × Variant) :=
  [("hold", .map [("mode", .string "response"), ("channels", .list [.map [("name", .string "a"),
    ("filters", .list [.string "f", .string "f", .string "f", .string "f", .string "f",
      .string "f"])]])])]

def crowdedJson (text : Bytes) : Variant :=
  if text = crowdedText then .map crowdedEntries else .invalid

def sampleReason (_ : Int) : Bytes := ascii "OK"

theorem not_equivalent_of {a b : Option Instruct} (refused : a.isNone = true)
    (accepted : b.isSome = true) : ¬ Equivalent a b := by
  cases a with
  | some i => cases refused
  | none =>
    cases b with
    | none => cases accepted
    | some j => exact not_false

theorem six_filters_differ :
    HeaderForm PushpinFilters.latin1 some crowdedHeaders crowded ∧
      JsonForm some crowdedJson crowdedDocument crowded ∧ ¬ Equivalent
        (fromResponse PushpinFilters.latin1 some crowdedJson (fun _ => true) sampleReason
        crowdedHeaders).toOption
        (fromResponse PushpinFilters.latin1 some crowdedJson (fun _ => true) sampleReason
        crowdedDocument).toOption := by
  have params :
    crowdedHeaders.headers.getAllAsParameters (ascii "Grip-Channel") .noParseFirstParameter =
      [(ascii "a", none) :: List.replicate 6 (ascii "filter", some (ascii "f"))] := by
        decide +kernel
  have noMeta : crowdedHeaders.headers.getAllAsParameters
      (ascii "Grip-Set-Meta") .parseAllParameters = [] := by
    decide +kernel
  have noKeepAlive : crowdedHeaders.headers.contains (ascii "Grip-Keep-Alive") = false := by
    decide +kernel
  have noTimeout : crowdedHeaders.headers.get (ascii "Grip-Timeout") = none := by decide +kernel
  refine ⟨⟨by decide +kernel, by decide +kernel, by decide +kernel, by decide +kernel, ?_,
    noTimeout, noKeepAlive, ?_⟩,
    ⟨by decide +kernel, rfl, by decide +kernel, crowdedEntries,
      _, by simp [crowdedJson, crowdedDocument], rfl, rfl, rfl, ⟨_, rfl, ?_⟩, rfl, rfl, rfl⟩, ?_⟩
  · rw [params]
    exact .cons ⟨_, _, rfl, by decide +kernel, by decide +kernel, by decide +kernel⟩ .nil
  · rw [noMeta]
    exact ⟨[], rfl, rfl⟩
  · exact .cons ⟨_, rfl, rfl, rfl, Or.inl rfl⟩ .nil
  · exact not_equivalent_of (by decide +kernel) (by decide +kernel)

def plainHold : Description :=
  ⟨true, [⟨"a", some "1", ["f"]⟩], some 10, none, OrderedMap.empty.insert "x" (some "y")⟩

def plainHeaders : ResponseData :=
  ⟨200, [], [(ascii "Grip-Hold", ascii "stream"),
    (ascii "Grip-Channel", ascii "a; prev-id=\"1\"; filter=f"),
    (ascii "Grip-Timeout", ascii "10"), (ascii "Grip-Set-Meta", ascii "x=y")], []⟩

def plainText : Bytes :=
  ascii ("\x7b\"hold\":\x7b\"mode\":\"stream\",\"timeout\":10,\"channels\":[\x7b\"name\":\"a\"," ++
    "\"prev-id\":\"1\",\"filters\":[\"f\"]\x7d],\"meta\":\x7b\"x\":\"y\"\x7d\x7d\x7d")

def plainDocument : ResponseData := ⟨200, [], [(ascii "Content-Type", gripInstruct)], plainText⟩

def plainEntries : List (String × Variant) :=
  [("hold", .map [("mode", .string "stream"), ("timeout", .double 10),
    ("channels", .list [.map [("name", .string "a"), ("prev-id", .string "1"),
      ("filters", .list [.string "f"])]]),
    ("meta", .map [("x", .string "y")])])]

def plainJson (text : Bytes) : Variant := if text = plainText then .map plainEntries else .invalid

theorem plain_forms_equivalent :
    HeaderForm PushpinFilters.latin1 some plainHeaders plainHold ∧
      JsonForm some plainJson plainDocument plainHold ∧ Equivalent
        (fromResponse PushpinFilters.latin1 some plainJson (fun _ => true) sampleReason
        plainHeaders).toOption
        (fromResponse PushpinFilters.latin1 some plainJson (fun _ => true) sampleReason
        plainDocument).toOption := by
  have params :
    plainHeaders.headers.getAllAsParameters (ascii "Grip-Channel") .noParseFirstParameter =
      [[(ascii "a", none), (ascii "prev-id", some (ascii "1")),
        (ascii "filter", some (ascii "f"))]] := by decide +kernel
  have metas : plainHeaders.headers.getAllAsParameters (ascii "Grip-Set-Meta") .parseAllParameters =
      [[(ascii "x", some (ascii "y"))]] := by decide +kernel
  have noKeepAlive : plainHeaders.headers.contains (ascii "Grip-Keep-Alive") = false := by
    decide +kernel
  have headerForm : HeaderForm PushpinFilters.latin1 some plainHeaders plainHold := by
    refine ⟨by decide +kernel, by decide +kernel, by decide +kernel, by decide +kernel, ?_,
      ⟨ascii "10", by decide +kernel, by decide +kernel⟩, noKeepAlive, ?_⟩
    · rw [params]
      exact .cons ⟨_, _, rfl, by decide +kernel, by decide +kernel, by decide +kernel⟩ .nil
    · rw [metas]
      exact ⟨[(ascii "x", ascii "y")], by decide +kernel, by rfl⟩
  have jsonForm : JsonForm some plainJson plainDocument plainHold := by
    refine ⟨by decide +kernel, rfl, by decide +kernel, plainEntries,
      _, by simp [plainJson, plainDocument], rfl, rfl, rfl, ⟨_, rfl, ?_⟩,
      ⟨⟨by decide, by decide⟩, _, rfl, rfl⟩, rfl, ⟨[("x", "y")], rfl, rfl⟩⟩
    exact .cons ⟨_, rfl, rfl, rfl, Or.inl rfl⟩ .nil
  refine ⟨headerForm, jsonForm, ?_⟩
  rw [forms_equivalent_iff headerForm jsonForm]
  refine Or.inr ⟨rfl, by decide, ?_⟩
  rw [params]
  decide +kernel

end PushpinInstruct
