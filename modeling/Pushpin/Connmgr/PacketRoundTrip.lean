import Pushpin.Connmgr.PacketLoops

namespace PushpinZhttpPacket
open PushpinRingBuffer PushpinTnetstring Text Outcome

def entryItem (entry : Entry) : MapItem := ⟨entry.1, entry.2.ftype, entry.2.encode⟩

def treeItem (t : Tree) : SequenceItem := ⟨t.ftype, t.encode⟩

section
variable {checks : Bool}

theorem parse_encoded (t : Tree) (small : t.encode.length < isizeEnd) :
    parseTyped checks t.ftype t.encode = some (.ok t.payload) := by
  have read := (@readTree_frame checks t [] (by rwa [List.append_nil])).2
  rwa [List.append_nil] at read

variable {entries : List Entry}

theorem entriesEncode_small (small : (PushpinTnetstring.Tree.map entries).encode.length <
    isizeEnd) : (entriesEncode entries).length < isizeEnd := by
  rw [Tree.encode, framed_length] at small
  omega

variable {ts : List Tree}

theorem itemsEncode_small (small : (Tree.array ts).encode.length < isizeEnd) :
    (itemsEncode ts).length < isizeEnd := by
  rw [Tree.encode, framed_length] at small
  omega

theorem entry_small (small : (entriesEncode entries).length < isizeEnd) {entry : Entry}
    (mem : entry ∈ entries) : entry.2.encode.length < isizeEnd := by
  induction entries with
  | nil => cases mem
  | cons first entries ih =>
    rw [entriesEncode, List.length_append, List.length_append] at small
    rcases List.mem_cons.mp mem with rfl | later
    · omega
    · exact ih (by omega) later

theorem item_small (small : (itemsEncode ts).length < isizeEnd) {t : Tree} (mem : t ∈ ts) :
    t.encode.length < isizeEnd := by
  induction ts with
  | nil => cases mem
  | cons first ts ih =>
    rw [itemsEncode, List.length_append] at small
    rcases List.mem_cons.mp mem with rfl | later
    · omega
    · exact ih (by omega) later

theorem parseMap_encoded (small : (PushpinTnetstring.Tree.map entries).encode.length < isizeEnd) :
    parseMap checks (PushpinTnetstring.Tree.map entries).encode =
      some (.ok (.new (entriesEncode entries))) := by
  have typed : parseTyped checks .map (PushpinTnetstring.Tree.map entries).encode =
      some (.ok (entriesEncode entries)) :=
    parse_encoded (.map entries) small
  rw [parseMap, typed]
  rfl

theorem parseArray_encoded (small : (Tree.array ts).encode.length < isizeEnd) :
    parseArray checks (Tree.array ts).encode = some (.ok (.new (itemsEncode ts))) := by
  have typed : parseTyped checks .array (Tree.array ts).encode = some (.ok (itemsEncode ts)) :=
    parse_encoded (.array ts) small
  rw [parseArray, typed]
  rfl

theorem forEntries_encoded {σ : Type} (keys : entriesTextKeys entries = true)
    (small : (entriesEncode entries).length < isizeEnd) (body : σ → MapItem → Parse σ) (s : σ) :
    forEntries checks (.new (entriesEncode entries)) s body =
      (entries.map entryItem).foldlM body s := by
  obtain ⟨parts, fits⟩ := entries_encode entries keys _ (Nat.le_refl _) small
  have all := @map_all checks _ ⟨Nat.zero_le _, small⟩ fits
  rw [parts] at all
  apply forEach_drain
  rw [List.map_map]
  exact all

theorem forItems_encoded {σ : Type} (small : (itemsEncode ts).length < isizeEnd)
    (body : σ → SequenceItem → Parse σ) (s : σ) :
    forItems checks (.new (itemsEncode ts)) s body = (ts.map treeItem).foldlM body s := by
  obtain ⟨parts, fits⟩ := items_encode ts _ (Nat.le_refl _) small
  have all := @sequence_all checks _ ⟨Nat.zero_le _, small⟩ fits
  rw [parts] at all
  apply forEach_drain
  rw [List.map_map]
  exact all

variable {field : String}

theorem parseBytes_encoded {s : List Byte} (small : (Tree.string s).encode.length < isizeEnd) :
    parseBytes checks field (Tree.string s).encode = .returns s := by
  have typed : parseTyped checks .string (Tree.string s).encode = some (.ok s) :=
    parse_encoded (.string s) small
  rw [parseBytes, parseString, typed]
  rfl

theorem parseStr_encoded {utf8Field : String} {s : Str}
    (small : (Tree.string s.bytes).encode.length < isizeEnd) :
    parseStr checks field utf8Field (Tree.string s.bytes).encode = .returns s := by
  rw [parseStr, parseBytes_encoded small, returns_bind, dif_pos s.utf8]

theorem parseBool_encoded (small : (Tree.bool true).encode.length < isizeEnd) :
    withField field (parseBool checks (Tree.bool true).encode) = .returns true := by
  have typed : parseTyped checks .bool (Tree.bool true).encode = some (.ok trueBytes) :=
    parse_encoded (.bool true) small
  rw [parseBool, typed]
  rfl

theorem parseUint_encoded {ν : Type} {cast : String → Nat → Parse ν} {x : Nat} {fits : x < 2 ^ 32}
    (small : (uintTree x fits).encode.length < isizeEnd) :
    parseUint checks cast field (uintTree x fits).encode = cast field x := by
  have typed : parseTyped checks .int (uintTree x fits).encode = some (.ok (intText x)) :=
    parse_encoded (uintTree x fits) small
  have read : parseInt checks (uintTree x fits).encode = some (.ok (x : Int)) := by
    rw [parseInt, typed]
    have parsed : parseIsize (intText x) = some (x : Int) :=
      parseIsize_intText ⟨x, by unfold isizeEnd; omega, by unfold isizeEnd; omega⟩
    simp only [Option.bind_eq_bind, Option.bind_some, isUtf8_intText, if_true, parsed]
    rfl
  rw [parseUint, read]
  rfl

theorem parseU32_encoded {x : UInt32} (small : (u32Tree x).encode.length < isizeEnd) :
    parseUint checks wrapping.u32 field (u32Tree x).encode = .returns x := by
  rw [u32Tree, parseUint_encoded small]
  exact congrArg Outcome.returns UInt32.ofNat_toNat

theorem parseU16_encoded {x : UInt16} (small : (u16Tree x).encode.length < isizeEnd) :
    parseUint checks wrapping.u16 field (u16Tree x).encode = .returns x := by
  rw [u16Tree, parseUint_encoded small]
  exact congrArg Outcome.returns UInt16.ofNat_toNat

theorem nextPart_encoded {t : Tree} {rest : List Tree} {hi : SequenceIterator}
    (inside : Inside hi.src hi.pos) (left : hi.src.drop hi.pos = itemsEncode (t :: rest)) :
    ∃ hi', nextPart checks hi = .returns (treeItem t, hi') ∧ Inside hi'.src hi'.pos ∧
      hi'.src.drop hi'.pos = itemsEncode rest := by
  have small : (t.encode ++ itemsEncode rest).length < isizeEnd := by
    rw [← itemsEncode, ← left, List.length_drop]
    have := inside.small
    omega
  obtain ⟨front, fits⟩ := seqFront_encode t small
  rw [itemsEncode] at left
  have filled : hi.src.drop hi.pos ≠ [] := by
    intro empty
    have pos := t.encode_pos
    rw [left, List.append_eq_nil_iff] at empty
    rw [empty.1] at pos
    exact absurd pos (Nat.lt_irrefl 0)
  obtain ⟨hi', next, inside', left'⟩ :=
    (sequence_iterates checks).reads inside filled (by rw [left]; exact fits)
      (by rw [left]; exact front)
  refine ⟨hi', ?_, inside', ?_⟩
  · rw [nextPart, next]
    rfl
  · rw [left', left, List.drop_left]

theorem parseHeader_encoded (h : Header) (small : (headerTree h).encode.length < isizeEnd) :
    parseHeader checks (headerTree h).encode = .returns h := by
  have items_small := itemsEncode_small small
  obtain ⟨hi, name, inside, left⟩ :=
    @nextPart_encoded checks (.string h.name.bytes) [.string h.value]
      (.new (itemsEncode [.string h.name.bytes, .string h.value])) ⟨Nat.zero_le _, items_small⟩ rfl
  obtain ⟨_, value, _⟩ := @nextPart_encoded checks _ _ hi inside left
  have name_small := item_small items_small List.mem_cons_self
  have value_small := item_small items_small (List.mem_cons_of_mem _ List.mem_cons_self)
  rw [parseHeader, headerTree, parseArray_encoded small]
  simp only [withField, lift, returns_bind, name, treeItem, parseStr_encoded name_small, value,
    parseBytes_encoded value_small]
  rfl

theorem headerItems_encoded (hs : List Header)
    (small : (itemsEncode (hs.map headerTree)).length < isizeEnd) (scratch : List Header)
    (room : scratch.length + hs.length ≤ headersMax) :
    ((hs.map headerTree).map treeItem).foldlM (headerItem checks) scratch = .returns
    (scratch ++ hs) := by
  induction hs generalizing scratch with
  | nil => rw [List.append_nil]; rfl
  | cons h hs ih =>
    rw [List.length_cons] at room
    have first_small := item_small small List.mem_cons_self
    rw [List.map_cons, itemsEncode, List.length_append] at small
    have here : headerItem checks scratch (treeItem (headerTree h)) = .returns
        (scratch ++ [h]) := by
      rw [headerItem, if_neg (by omega), treeItem, parseHeader_encoded h first_small,
        returns_bind, push, if_pos (by omega)]
    rw [List.map_cons, List.map_cons, List.foldlM_cons, here, returns_bind,
      ih (by omega) (scratch ++ [h]) (by rw [List.length_append, List.length_singleton]; omega),
        List.append_assoc]
    rfl

theorem parseHeaders_encoded (hs : List Header) (small : (headersTree hs).encode.length < isizeEnd)
    (room : hs.length ≤ headersMax) :
    parseHeaders checks (headersTree hs).encode [] = .returns hs := by
  have items_small := itemsEncode_small small
  rw [parseHeaders, headersTree, parseArray_encoded small]
  simp only [withField, lift, returns_bind]
  rw [forItems_encoded items_small]
  exact headerItems_encoded hs items_small [] (by rw [List.length_nil, Nat.zero_add]; exact room)

end

structure FineTree (t : Tree) : Prop where
  noMin : t.hasMin = false
  textKeys : t.textKeys = true

theorem fine_string (s : List Byte) : FineTree (.string s) := ⟨rfl, rfl⟩

theorem fine_bool (b : Bool) : FineTree (.bool b) := ⟨rfl, rfl⟩

theorem fine_uint (x : Nat) (fits : x < 2 ^ 32) : FineTree (uintTree x fits) where
  noMin := by
    have above : ¬ (x : Int) = -(isizeEnd : Int) := by
      unfold isizeEnd
      omega
    exact decide_eq_false above
  textKeys := rfl

theorem fine_u32 (x : UInt32) : FineTree (u32Tree x) := fine_uint _ _

theorem fine_u16 (x : UInt16) : FineTree (u16Tree x) := fine_uint _ _

theorem fine_array {ts : List Tree} (all : ∀ t ∈ ts, FineTree t) : FineTree (.array ts) := by
  induction ts with
  | nil => exact ⟨rfl, rfl⟩
  | cons t ts ih =>
    obtain ⟨first, later⟩ := List.forall_mem_cons.mp all
    obtain ⟨noMin, textKeys⟩ := ih later
    simp only [Tree.hasMin, Tree.textKeys] at noMin textKeys
    constructor
    · simp only [Tree.hasMin, itemsHaveMin, first.noMin, noMin, Bool.or_self]
    · simp only [Tree.textKeys, itemsTextKeys, first.textKeys, textKeys, Bool.and_self]

theorem fine_map {entries : List Entry} (all : ∀ entry ∈ entries, isUtf8 entry.1 = true ∧
    FineTree entry.2) : FineTree (.map entries) := by
  induction entries with
  | nil => exact ⟨rfl, rfl⟩
  | cons entry entries ih =>
    obtain ⟨key, t⟩ := entry
    obtain ⟨⟨text, first⟩, later⟩ := List.forall_mem_cons.mp all
    obtain ⟨noMin, textKeys⟩ := ih later
    simp only [Tree.hasMin, Tree.textKeys] at noMin textKeys
    replace text : isUtf8 key = true := text
    replace first : FineTree t := first
    constructor
    · simp only [Tree.hasMin, entriesHaveMin, first.noMin, noMin, Bool.or_self]
    · simp only [Tree.textKeys, entriesTextKeys, text, first.textKeys, textKeys, Bool.and_self]

theorem fine_headers (hs : List Header) : FineTree (headersTree hs) := by
  apply fine_array
  intro t mem
  obtain ⟨h, _, rfl⟩ := List.mem_map.mp mem
  apply fine_array
  intro part mem
  rcases List.mem_cons.mp mem with rfl | mem
  · exact fine_string _
  · rw [List.mem_singleton.mp mem]
    exact fine_string _

section
variable {σ : Type}

def Folds (body : σ → MapItem → Parse σ) (seg : List Entry) (s s' : σ) : Prop :=
  (∀ entry ∈ seg, entry.2.encode.length < isizeEnd) →
    (seg.map entryItem).foldlM body s = .returns s'

structure Segment (keys : List (List Byte)) (body : σ → MapItem → Parse σ) (seg : List Entry)
    (s s' : σ) : Prop where
  folds : Folds body seg s s'
  fine : ∀ entry ∈ seg, entry.1 ∈ keys ∧ FineTree entry.2

variable {keys : List (List Byte)} {body : σ → MapItem → Parse σ} {s s' s'' : σ}

theorem Folds.append {seg rest : List Entry} (first : Folds body seg s s')
    (later : Folds body rest s' s'') : Folds body (seg ++ rest) s s'' := by
  intro small
  rw [List.map_append, List.foldlM_append, first fun entry mem =>
    small entry (List.mem_append_left _ mem), returns_bind]
  exact later fun entry mem => small entry (List.mem_append_right _ mem)

theorem Folds.skip {seg : List Entry}
    (skips : ∀ entry ∈ seg, body s (entryItem entry) = .returns s) : Folds body seg s s := by
  intro small
  induction seg with
  | nil => rfl
  | cons entry seg ih =>
    rw [List.map_cons, List.foldlM_cons, skips entry List.mem_cons_self, returns_bind]
    exact ih (fun later mem => skips later (List.mem_cons_of_mem entry mem))
      fun later mem => small later (List.mem_cons_of_mem entry mem)

theorem Segment.nil : Segment keys body [] s s :=
  ⟨fun _ => rfl, fun _ mem => absurd mem List.not_mem_nil⟩

theorem Segment.append {seg rest : List Entry} (first : Segment keys body seg s s')
    (later : Segment keys body rest s' s'') : Segment keys body (seg ++ rest) s s'' where
  folds := first.folds.append later.folds
  fine := by
    intro entry mem
    rcases List.mem_append.mp mem with here | there
    · exact first.fine entry here
    · exact later.fine entry there

theorem Segment.one {key : List Byte} {t : Tree} (known : key ∈ keys) (fine : FineTree t)
    (reads : t.encode.length < isizeEnd → body s (entryItem (key, t)) = .returns s') :
    Segment keys body [(key, t)] s s' where
  folds := by
    intro small
    rw [List.map_singleton, List.foldlM_cons, reads (small _ List.mem_cons_self), returns_bind]
    rfl
  fine := by
    intro entry mem
    rw [List.mem_singleton.mp mem]
    exact ⟨known, fine⟩

theorem Segment.entryIf {written : Bool} {key : String} {t : Tree} (known : ascii key ∈ keys)
    (fine : FineTree t) (reads : t.encode.length < isizeEnd →
    body s (entryItem (ascii key, t)) = .returns s')
    (skips : written = false → s' = s) : Segment keys body (entryIf written key t) s s' := by
  cases written with
  | false =>
    rw [skips rfl]
    exact Segment.nil
  | true => exact Segment.one known fine reads

theorem Segment.cast {seg : List Entry} (segment : Segment keys body seg s s') (same : s' = s'') :
    Segment keys body seg s s'' :=
  same ▸ segment

end

theorem str_empty {v : Str} (unwritten : decide (v.bytes ≠ []) = false) : v = .empty := by
  obtain ⟨bytes, utf8⟩ := v
  simp only [ne_eq, decide_not, Bool.not_eq_false', decide_eq_true_eq] at unwritten
  subst unwritten
  rfl

def fieldKeys {σ : Type} (fields : List (String × Field σ)) : List (List Byte) :=
  fields.map fun field => ascii field.1

abbrev FieldSegment {σ : Type} (checks : Bool) (fields : List (String × Field σ)) (seg : List Entry)
    (s s' : σ) : Prop :=
  Segment (fieldKeys fields) (fieldEntry wrapping checks fields) seg s s'

section
variable {σ : Type} {checks : Bool} {fields : List (String × Field σ)} {s : σ}

theorem fieldOf_known {key : List Byte} {field : Field σ}
    (known : fieldOf fields key = some field) : key ∈ fieldKeys fields := by
  obtain ⟨found, here, _⟩ := Option.map_eq_some_iff.mp known
  have same := List.find?_some here
  exact List.mem_map.mpr ⟨found, List.mem_of_find?_eq_some here, of_decide_eq_true same⟩

theorem fieldOf_none {key : List Byte} (unknown : key ∉ fieldKeys fields) :
    fieldOf fields key = none := by
  cases found : fieldOf fields key with
  | none => rfl
  | some field => exact absurd (fieldOf_known found) unknown

theorem fieldEntry_known {key : String} {field : Field σ}
    (known : fieldOf fields (ascii key) = some field) (t : Tree) :
    fieldEntry wrapping checks fields s (entryItem (ascii key, t)) =
      field.read wrapping checks t.encode s := by
  simp only [fieldEntry, entryItem, known]

variable {name : String}

section
variable (key : String)
include key

theorem segment_field {field : Field σ} (known : fieldOf fields (ascii key) = some field)
    {written : Bool} {t : Tree} {s' : σ} (fine : FineTree t)
    (reads : t.encode.length < isizeEnd → field.read wrapping checks t.encode s = .returns s')
    (skips : written = false → s' = s) :
    FieldSegment checks fields (entryIf written key t) s s' :=
  Segment.entryIf (fieldOf_known known) fine
    (fun small => (fieldEntry_known known t).trans (reads small)) skips

theorem segment_u32 {set : UInt32 → σ → σ}
    (known : fieldOf fields (ascii key) = some (.u32 name set)) (written : Bool) (x : UInt32)
    (skips : written = false → set x s = s) :
    FieldSegment checks fields (entryIf written key (u32Tree x)) s (set x s) :=
  segment_field key known (fine_u32 x)
    (fun small => by rw [Field.read, parseU32_encoded small]; rfl) skips

theorem segment_u16 {set : UInt16 → σ → σ}
    (known : fieldOf fields (ascii key) = some (.u16 name set)) (written : Bool) (x : UInt16)
    (skips : written = false → set x s = s) :
    FieldSegment checks fields (entryIf written key (u16Tree x)) s (set x s) :=
  segment_field key known (fine_u16 x)
    (fun small => by rw [Field.read, parseU16_encoded small]; rfl) skips

theorem segment_bool {set : Bool → σ → σ}
    (known : fieldOf fields (ascii key) = some (.bool name set)) (b : Bool)
    (skips : set false s = s) :
    FieldSegment checks fields (entryIf b key (.bool true)) s (set b s) := by
  cases b with
  | false =>
    rw [skips]
    exact Segment.nil
  | true =>
    apply Segment.one (fieldOf_known known) (fine_bool true)
    intro small
    rw [fieldEntry_known known, Field.read, parseBool_encoded small]
    rfl

theorem segment_bytes {set : List Byte → σ → σ}
    (known : fieldOf fields (ascii key) = some (.bytes name set)) (written : Bool) (v : List Byte)
    (skips : written = false → set v s = s) :
    FieldSegment checks fields (entryIf written key (.string v)) s (set v s) :=
  segment_field key known (fine_string v)
    (fun small => by rw [Field.read, parseBytes_encoded small]; rfl) skips

theorem segment_str {utf8Name : String} {set : Str → σ → σ}
    (known : fieldOf fields (ascii key) = some (.str name utf8Name set)) (written : Bool) (v : Str)
    (skips : written = false → set v s = s) :
    FieldSegment checks fields (entryIf written key (.string v.bytes)) s (set v s) :=
  segment_field key known (fine_string v.bytes)
    (fun small => by rw [Field.read, parseStr_encoded small]; rfl) skips

theorem segment_headers {get : σ → List Header} {set : List Header → σ → σ}
    (known : fieldOf fields (ascii key) = some (.headers get set)) (empty : get s = [])
    {v : List Header}
    (room : v.length ≤ headersMax) (skips : set [] s = s) :
    FieldSegment checks fields (entryIf (v ≠ []) key (headersTree v)) s (set v s) := by
  apply Segment.entryIf (fieldOf_known known) (fine_headers v)
  · intro small
    rw [fieldEntry_known known, Field.read, empty, parseHeaders_encoded v small room]
    rfl
  · intro unwritten
    have nothing : v = [] := by simpa using unwritten
    rw [nothing, skips]

end

end

theorem bytes_empty {v : List Byte} (unwritten : decide (v ≠ []) = false) : v = [] := by
  simpa using unwritten

theorem u32_zero {x : UInt32} (unwritten : decide (x > 0) = false) : x = 0 := by
  simpa using unwritten

theorem u16_zero {x : UInt16} (unwritten : decide (x > 0) = false) : x = 0 := by
  simpa using unwritten

theorem contentTypeOf_text (ctype : ContentType) :
    contentTypeOf (ascii (contentTypeText ctype)) = ctype := by
  cases ctype <;> decide

theorem segment_contentType {σ : Type} {checks : Bool} {fields : List (String × Field σ)} {s : σ}
    {name : String} (set : Option ContentType → σ → σ)
    (known : fieldOf fields (ascii "content-type") =
    some (.bytes name fun v => set (some (contentTypeOf v))))
    (ctype : Option ContentType) (skips : set none s = s) :
    FieldSegment checks fields (contentTypeEntries ctype) s (set ctype s) := by
  cases ctype with
  | none =>
    rw [skips]
    exact Segment.nil
  | some ctype =>
    apply Segment.one (fieldOf_known known) (fine_string _)
    intro small
    rw [fieldEntry_known known, Field.read, parseBytes_encoded small, returns_bind,
      contentTypeOf_text]
    rfl

structure RequestData.Canonical (d : RequestData) : Prop where
  headers : d.headers.length ≤ headersMax
  peerPort : d.peerAddress = .empty → d.peerPort = 0
  rest : (d.connectHost, d.connectPort, d.ignorePolicies, d.trustConnectHost, d.ignoreTlsErrors,
    d.clientCert,
    d.clientKey, d.followRedirects) = (.empty, 0, false, false, false, .empty, .empty, false)

section
variable {checks : Bool}

theorem RequestData.segment (d : RequestData) (canonical : d.Canonical) :
    FieldSegment checks RequestData.fields d.serialize RequestData.new d := by
  have method : FieldSegment checks RequestData.fields _ RequestData.new _ :=
    segment_str "method" rfl (d.method.bytes ≠ []) d.method
      fun unwritten => by rw [str_empty unwritten]; rfl
  have uri := method.append (segment_str "uri" rfl (d.uri.bytes ≠ []) d.uri
    fun unwritten => by rw [str_empty unwritten]; rfl)
  dsimp only at uri
  have headers := uri.append (segment_headers "headers" rfl rfl canonical.headers rfl)
  dsimp only at headers
  have contentType := headers.append
    (segment_contentType (fun ctype d => { d with contentType := ctype }) rfl d.contentType rfl)
  dsimp only at contentType
  have body := contentType.append (segment_bytes "body" rfl (d.body ≠ []) d.body
    fun unwritten => by rw [bytes_empty unwritten]; rfl)
  dsimp only at body
  have credits := body.append (segment_u32 "credits" rfl (d.credits > 0) d.credits
    fun unwritten => by rw [u32_zero unwritten]; rfl)
  dsimp only at credits
  have more := credits.append (segment_bool "more" rfl d.more rfl)
  dsimp only at more
  have stream := more.append (segment_bool "stream" rfl d.stream rfl)
  dsimp only at stream
  have routerResp := stream.append (segment_bool "router-resp" rfl d.routerResp rfl)
  dsimp only at routerResp
  have maxSize := routerResp.append (segment_u32 "max-size" rfl (d.maxSize > 0) d.maxSize
    fun unwritten => by rw [u32_zero unwritten]; rfl)
  dsimp only at maxSize
  have timeout := maxSize.append (segment_u32 "timeout" rfl (d.timeout > 0) d.timeout
    fun unwritten => by rw [u32_zero unwritten]; rfl)
  dsimp only at timeout
  have peerAddress := timeout.append
    (segment_str "peer-address" rfl (d.peerAddress.bytes ≠ []) d.peerAddress
      fun unwritten => by rw [str_empty unwritten]; rfl)
  dsimp only at peerAddress
  have peerPort := peerAddress.append
    (segment_u16 "peer-port" rfl (d.peerAddress.bytes ≠ []) d.peerPort
      fun unwritten => by rw [canonical.peerPort (str_empty unwritten)]; rfl)
  apply peerPort.cast
  obtain ⟨_, _, rest⟩ := canonical
  simp only [Prod.mk.injEq] at rest
  obtain ⟨h1, h2, h3, h4, h5, h6, h7, h8⟩ := rest
  cases d
  simp only at h1 h2 h3 h4 h5 h6 h7 h8
  subst h1 h2 h3 h4 h5 h6 h7 h8
  rfl

theorem ResponseData.segment (d : ResponseData)
    (room : d.headers.length ≤ headersMax) :
    FieldSegment checks ResponseData.fields d.serialize ResponseData.new d := by
  have code : FieldSegment checks ResponseData.fields _ ResponseData.new _ :=
    segment_u16 "code" rfl (d.code > 0) d.code fun unwritten => by rw [u16_zero unwritten]; rfl
  have reason := code.append (segment_str "reason" rfl (d.reason.bytes ≠ []) d.reason
    fun unwritten => by rw [str_empty unwritten]; rfl)
  have headers := reason.append (segment_headers "headers" rfl rfl room rfl)
  have contentType := headers.append
    (segment_contentType (fun ctype d => { d with contentType := ctype }) rfl d.contentType rfl)
  have body := contentType.append (segment_bytes "body" rfl (d.body ≠ []) d.body
    fun unwritten => by rw [bytes_empty unwritten]; rfl)
  have credits := body.append (segment_u32 "credits" rfl (d.credits > 0) d.credits
    fun unwritten => by rw [u32_zero unwritten]; rfl)
  exact (credits.append (segment_bool "more" rfl d.more rfl)).cast rfl

theorem RequestErrorData.segment (d : RequestErrorData) :
    FieldSegment checks RequestErrorData.fields d.serialize ⟨.empty⟩ d :=
  (segment_str "condition" rfl true d.condition nofun).cast rfl

theorem CreditData.segment (d : CreditData) :
    FieldSegment checks CreditData.fields d.serialize ⟨0⟩ d :=
  (segment_u32 "credits" rfl true d.credits nofun).cast rfl

theorem PingData.segment (d : PingData) (canonical : d.credits = 0) :
    FieldSegment checks PingData.fields d.serialize ⟨0, []⟩ d := by
  apply (segment_bytes "body" rfl
    (d.body ≠ []) d.body fun unwritten => by rw [bytes_empty unwritten]).cast
  rw [← canonical]

end

def CloseData.final (d : CloseData) : CloseFields :=
  match d.status with
  | some (code, reason) => ⟨some code, reason⟩
  | none => ⟨none, .empty⟩

theorem CloseData.segment {checks : Bool} (d : CloseData) :
    FieldSegment checks CloseFields.fields d.serialize ⟨none, .empty⟩ d.final := by
  obtain ⟨status⟩ := d
  cases status with
  | none => exact Segment.nil
  | some status =>
    obtain ⟨code, reason⟩ := status
    have first : FieldSegment checks CloseFields.fields [(ascii "code", u16Tree code)]
        ⟨none, .empty⟩ ⟨some code, .empty⟩ :=
      (segment_u16 "code" rfl true code nofun).cast rfl
    exact (first.append (segment_str "body" rfl (reason.bytes ≠ []) reason
      fun unwritten => by rw [str_empty unwritten])).cast rfl

def ResponseErrorData.final (d : ResponseErrorData) : ErrorFields :=
  ⟨d.condition, d.rejectedInfo.getD ⟨0, .empty, [], []⟩⟩

structure ResponseErrorData.Canonical (d : ResponseErrorData) : Prop where
  rejected : d.rejectedInfo.isSome = true ↔ d.condition = rejected
  headers : ∀ ri, d.rejectedInfo = some ri → ri.headers.length ≤ headersMax

theorem ResponseErrorData.segment {checks : Bool} (d : ResponseErrorData)
    (canonical : d.Canonical) :
    FieldSegment checks ErrorFields.fields d.serialize ⟨.empty, 0, .empty, [], []⟩ d.final := by
  obtain ⟨condition, info⟩ := d
  have first : FieldSegment checks ErrorFields.fields [(ascii "condition", .string condition.bytes)]
      ⟨.empty, 0, .empty, [], []⟩ ⟨condition, 0, .empty, [], []⟩ :=
    (segment_str "condition" rfl true condition nofun).cast rfl
  cases info with
  | none => exact first
  | some ri =>
    have code := first.append (segment_u16 "code" rfl true ri.code nofun)
    have reason := code.append (segment_str "reason" rfl true ri.reason nofun)
    have headers :=
      reason.append (segment_headers "headers" rfl rfl (canonical.headers ri rfl) rfl)
    exact (headers.append (segment_bytes "body" rfl true ri.body nofun)).cast rfl

def commonKeys : List (List Byte) :=
  [ascii "from", ascii "id", ascii "seq", ascii "type", ascii "ext"]

abbrev CommonSegment (checks : Bool) (seg : List Entry) (d d' : CommonData) : Prop :=
  Segment commonKeys (commonEntry wrapping checks) seg d d'

section
variable {checks : Bool}

variable {d : CommonData} {e : MapItem}

theorem commonEntry_from_eq (key : e.key = ascii "from") :
    commonEntry wrapping checks d e = (do
      let s ← parseBytes checks "from" e.data
      return { d with from_ := s }) := by
  rw [commonEntry, if_pos key]

theorem commonEntry_id_eq (key : e.key = ascii "id") :
    commonEntry wrapping checks d e = (do
      let ids ← parseId wrapping checks e d.ids
      return { d with ids := ids }) := by
  rw [commonEntry, if_neg (by rw [key]; decide), if_pos key]

theorem commonEntry_seq_eq (key : e.key = ascii "seq") :
    commonEntry wrapping checks d e = (do
      let ids ← parseSeq wrapping checks e.data d.ids
      return { d with ids := ids }) := by
  rw [commonEntry, if_neg (by rw [key]; decide), if_neg (by rw [key]; decide), if_pos key]

theorem commonEntry_type_eq (key : e.key = ascii "type") :
    commonEntry wrapping checks d e = (do
      let s ← parseStr checks "type" "type" e.data
      return { d with ptypeStr := s }) := by
  rw [commonEntry, if_neg (by rw [key]; decide), if_neg (by rw [key]; decide),
    if_neg (by rw [key]; decide), if_pos key]

theorem commonEntry_ext_eq (key : e.key = ascii "ext") :
    commonEntry wrapping checks d e = (do
      let multi ← parseExt checks e.data d.multi
      return { d with multi := multi }) := by
  rw [commonEntry, if_neg (by rw [key]; decide), if_neg (by rw [key]; decide),
    if_neg (by rw [key]; decide), if_neg (by rw [key]; decide), if_pos key]

theorem commonEntry_skips (other : e.key ∉ commonKeys) :
    commonEntry wrapping checks d e = .returns d := by
  simp only [commonKeys, List.mem_cons, List.not_mem_nil, or_false, not_or] at other
  obtain ⟨not_from, not_id, not_seq, not_type, not_ext⟩ := other
  rw [commonEntry, if_neg not_from, if_neg not_id, if_neg not_seq, if_neg not_type, if_neg not_ext]
  rfl

theorem segment_from (d : CommonData) (v : List Byte) (fresh : d.from_ = []) :
    CommonSegment checks (entryIf (v ≠ []) "from" (.string v)) d { d with from_ := v } := by
  apply Segment.entryIf (by decide) (fine_string v)
  · intro small
    rw [commonEntry_from_eq rfl, entryItem, parseBytes_encoded small]
    rfl
  · intro unwritten
    rw [bytes_empty unwritten, ← fresh]

theorem segment_type (d : CommonData) (v : Str) (fresh : d.ptypeStr = .empty) :
    CommonSegment checks (entryIf (v.bytes ≠ []) "type" (.string v.bytes))
      d { d with ptypeStr := v } := by
  apply Segment.entryIf (by decide) (fine_string v.bytes)
  · intro small
    rw [commonEntry_type_eq rfl, entryItem, parseStr_encoded small]
    rfl
  · intro unwritten
    rw [str_empty unwritten, ← fresh]

theorem isUtf8_multi : isUtf8 (ascii "multi") = true := isUtf8_of_ascii rfl

theorem segment_ext (d : CommonData) (multi : Bool) (fresh : d.multi = false) :
    CommonSegment checks (entryIf multi "ext" (.map [(ascii "multi", .bool true)]))
      d { d with multi := multi } := by
  have fine : FineTree (.map [(ascii "multi", .bool true)]) := by
    apply fine_map
    intro entry mem
    rw [List.mem_singleton.mp mem]
    exact ⟨isUtf8_multi, fine_bool true⟩
  cases multi with
  | false =>
    have same : { d with multi := false } = d := by rw [← fresh]
    exact Segment.nil.cast same.symm
  | true =>
    apply Segment.one (by decide) fine
    intro small
    have inner_small := entriesEncode_small small
    have bool_small := entry_small inner_small List.mem_cons_self
    have step : extEntry checks d.multi (entryItem (ascii "multi", .bool true)) =
        .returns true := by
      rw [extEntry, entryItem, if_pos rfl, parseBool_encoded bool_small]
    have looped : forEntries checks (.new (entriesEncode [(ascii "multi", .bool true)])) d.multi
        (extEntry checks) = .returns true := by
      rw [forEntries_encoded fine.textKeys inner_small, List.map_singleton, List.foldlM_cons, step]
      rfl
    rw [commonEntry_ext_eq rfl, entryItem, parseExt, parseMap_encoded small]
    simp only [withField, lift, returns_bind, looped]
    rfl

def idKeys : List (List Byte) := [ascii "id", ascii "seq"]

theorem segment_idMap (id : Id) :
    Segment idKeys (idEntry wrapping checks) ((ascii "id", .string id.id) :: seqEntries id.seq)
      emptyId id := by
  obtain ⟨id, seq⟩ := id
  have first : Segment idKeys (idEntry wrapping checks) [(ascii "id", .string id)] emptyId
      ⟨id, none⟩ := by
    apply Segment.one (by decide) (fine_string id)
    intro small
    rw [idEntry, entryItem, if_pos rfl, parseBytes_encoded small]
    rfl
  cases seq with
  | none => exact first
  | some seq =>
    apply first.append
    apply Segment.one (by decide) (fine_u32 seq)
    intro small
    have other : ascii "seq" ≠ ascii "id" := by decide
    rw [idEntry, entryItem, if_neg other, if_pos rfl, parseU32_encoded small]
    rfl

theorem fine_id (id : Id) : FineTree (idTree id) := by
  apply fine_map
  intro entry mem
  obtain ⟨known, fine⟩ := (@segment_idMap true id).fine entry mem
  refine ⟨?_, fine⟩
  have texts : ∀ key ∈ idKeys, isUtf8 key = true := List.all_eq_true.mp (all_isUtf8 rfl)
  exact texts _ known

theorem idItem_encoded (id : Id) (small : (idTree id).encode.length < isizeEnd) (scratch : List Id)
    (room : scratch.length < idsMax) :
    idItem wrapping checks scratch (treeItem (idTree id)) = .returns (scratch ++ [id]) := by
  have inner_small := entriesEncode_small small
  have looped := (@segment_idMap checks id).folds fun entry mem => entry_small inner_small mem
  rw [idItem, if_neg (by omega), treeItem, idTree, parseMap_encoded small]
  simp only [lift, returns_bind, forEntries_encoded (fine_id id).textKeys inner_small, looped, push,
    if_pos room]

theorem idItems_encoded (ids : List Id) (small : (itemsEncode (ids.map idTree)).length < isizeEnd)
    (scratch : List Id) (room : scratch.length + ids.length ≤ idsMax) :
    ((ids.map idTree).map treeItem).foldlM (idItem wrapping checks) scratch = .returns
    (scratch ++ ids) := by
  induction ids generalizing scratch with
  | nil => rw [List.append_nil]; rfl
  | cons id ids ih =>
    rw [List.length_cons] at room
    have first_small := item_small small List.mem_cons_self
    rw [List.map_cons, itemsEncode, List.length_append] at small
    rw [List.map_cons, List.map_cons, List.foldlM_cons, idItem_encoded id first_small scratch
      (by omega), returns_bind, ih (by omega) (scratch ++ [id])
        (by rw [List.length_append, List.length_singleton]; omega), List.append_assoc]
    rfl

theorem segment_ids (d : CommonData) (ids : List Id) (fresh : d.ids = [])
    (room : ids.length ≤ idsMax) :
    CommonSegment checks (idEntries ids) d { d with ids := ids } := by
  match ids, room with
  | [], _ =>
    have same : { d with ids := [] } = d := by rw [← fresh]
    exact Segment.nil.cast same.symm
  | [id], _ =>
    obtain ⟨id, seq⟩ := id
    have first :
        CommonSegment checks [(ascii "id", .string id)] d { d with ids := [⟨id, none⟩] } := by
      apply Segment.one (by decide) (fine_string id)
      intro small
      have typed : parseTyped checks .string (Tree.string id).encode = some (.ok id) :=
        parse_encoded (.string id) small
      rw [commonEntry_id_eq rfl, fresh]
      simp only [parseId, entryItem, Tree.ftype, parseString, typed, lift, returns_bind]
      rfl
    cases seq with
    | none => exact first
    | some seq =>
      apply first.append
      apply Segment.one (by decide) (fine_u32 seq)
      intro small
      rw [commonEntry_seq_eq rfl, entryItem, parseSeq, parseU32_encoded small]
      rfl
  | first :: second :: rest, room =>
    apply Segment.one (by decide)
    · apply fine_array
      intro t mem
      obtain ⟨id, _, rfl⟩ := List.mem_map.mp mem
      exact fine_id id
    · intro small
      have items_small := itemsEncode_small small
      rw [commonEntry_id_eq rfl, fresh]
      simp only [parseId, entryItem, Tree.ftype, parseArray_encoded small, lift, returns_bind,
        forItems_encoded items_small]
      rw [idItems_encoded _ items_small [] (by rw [List.length_nil, Nat.zero_add]; exact room)]
      rfl

theorem CommonData.segment (d : CommonData) (room : d.ids.length ≤ idsMax) :
    CommonSegment checks d.serialize CommonData.new d := by
  have from_ := @segment_from checks CommonData.new d.from_ rfl
  have ids := from_.append (segment_ids _ d.ids rfl room)
  have ext := ids.append (segment_ext _ d.multi rfl)
  exact ext.append (segment_type _ d.ptypeStr rfl)

structure DataEntry (entry : Entry) : Prop where
  text : isUtf8 entry.1 = true
  apart : entry.1 ∉ commonKeys
  fine : FineTree entry.2

def tableFits {σ : Type} (fields : List (String × Field σ)) : Bool :=
  (fieldKeys fields).all fun key => isUtf8 key && !commonKeys.contains key

theorem tableFits_of_ascii {σ : Type} {fields : List (String × Field σ)}
    (fits : ((fieldKeys fields).all fun key => key.all (· ≤ 0x7f) && !commonKeys.contains key) =
    true) :
    tableFits fields = true := by
  apply List.all_eq_true.mpr
  intro key known
  have both := List.all_eq_true.mp fits key known
  rw [Bool.and_eq_true] at both ⊢
  exact ⟨isUtf8_of_ascii both.1, both.2⟩

variable {σ : Type} {seg : List Entry}

section
variable {fields : List (String × Field σ)} {s s' : σ} (table : tableFits fields = true)
  (segment : FieldSegment checks fields seg s s')
include table segment

theorem FieldSegment.entries : ∀ entry ∈ seg, DataEntry entry := by
  intro entry mem
  obtain ⟨known, fine⟩ := segment.fine entry mem
  have fits := List.all_eq_true.mp table entry.1 known
  simp only [Bool.and_eq_true, Bool.not_eq_true', List.contains_eq_mem,
    decide_eq_false_iff_not] at fits
  exact ⟨fits.1, fits.2, fine⟩

theorem readFields_encoded {common : List Entry}
    (keys : ∀ entry ∈ common, entry.1 ∈ commonKeys) (texts : entriesTextKeys (common ++ seg) = true)
    (small : (entriesEncode (common ++ seg)).length < isizeEnd) :
    readFields wrapping checks fields (.new (entriesEncode (common ++ seg))) s = .returns s' := by
  have skipped : Folds (fieldEntry wrapping checks fields) common s s := by
    apply Folds.skip
    intro entry mem
    have unknown : fieldOf fields entry.1 = none := by
      apply fieldOf_none
      intro known
      have fits := List.all_eq_true.mp table entry.1 known
      simp only [Bool.and_eq_true, Bool.not_eq_true', List.contains_eq_mem,
        decide_eq_false_iff_not] at fits
      exact fits.2 (keys entry mem)
    simp only [fieldEntry, entryItem, unknown]
    rfl
  rw [readFields, forEntries_encoded texts small]
  exact (skipped.append segment.folds) fun entry mem => entry_small small mem

end

structure Written {π : Type} (parse : MapIterator → Option PacketType → Parse π) (t : PacketType)
    (seg : List Entry) (p : π) : Prop where
  entries : ∀ entry ∈ seg, DataEntry entry
  reads : ∀ common : List Entry, (∀ entry ∈ common, entry.1 ∈ commonKeys) →
    entriesTextKeys (common ++ seg) = true → (entriesEncode (common ++ seg)).length < isizeEnd →
    parse (.new (entriesEncode (common ++ seg))) (some t) = .returns p

variable {π : Type}

theorem written_of_reads (checks : Bool) {parse : MapIterator → Option PacketType → Parse π}
    {t : PacketType} {fields : List (String × Field σ)} {s s' : σ} {p : π}
    (table : tableFits fields = true)
    (segment : FieldSegment checks fields seg s s')
    (shape : ∀ root, readFields wrapping checks fields root s = .returns s' →
    parse root (some t) = .returns p) :
    Written parse t seg p where
  entries := segment.entries table
  reads := by
    intro common keys texts small
    exact shape _ (readFields_encoded table segment keys texts small)

theorem written_fields (checks : Bool) {parse : MapIterator → Option PacketType → Parse π}
    {t : PacketType} (wrap : σ → π) {fields : List (String × Field σ)} {s s' : σ}
    (table : tableFits fields = true)
    (segment : FieldSegment checks fields seg s s')
    (shape : ∀ root, parse root (some t) = wrap <$> readFields wrapping checks fields root s) :
    Written parse t seg (wrap s') := by
  apply written_of_reads checks table segment
  intro root read
  rw [shape, read]
  rfl

theorem written_bare {parse : MapIterator → Option PacketType → Parse π} {t : PacketType} {p : π}
    (shape : ∀ root, parse root (some t) = .returns p) : Written parse t [] p where
  entries := fun _ mem => absurd mem List.not_mem_nil
  reads := fun _ _ _ _ => shape _

theorem written_close (checks : Bool) {parse : MapIterator → Option PacketType → Parse π}
    (wrap : CloseData → π) (d : CloseData)
    (shape : ∀ root, parse root (some .close) = wrap <$> CloseData.parse wrapping checks root) :
    Written parse .close d.serialize (wrap d) := by
  apply written_of_reads checks (tableFits_of_ascii rfl) d.segment
  intro root read
  have whole : CloseData.parse wrapping checks root = .returns d := by
    obtain ⟨status⟩ := d
    rw [CloseData.parse, read]
    cases status <;> rfl
  rw [shape, whole]
  rfl

theorem written_error (checks : Bool) {parse : MapIterator → Option PacketType → Parse π}
    (wrap : ResponseErrorData → π) (d : ResponseErrorData) (canonical : d.Canonical)
    (shape : ∀ root, parse root (some .error) = wrap <$> ResponseErrorData.parse wrapping checks
    root) :
    Written parse .error d.serialize (wrap d) := by
  apply written_of_reads checks (tableFits_of_ascii rfl) (d.segment canonical)
  intro root read
  have whole : ResponseErrorData.parse wrapping checks root = .returns d := by
    have agrees := canonical.rejected
    obtain ⟨condition, info⟩ := d
    rw [ResponseErrorData.parse, read]
    cases info with
    | none =>
      have other : condition ≠ rejected := fun same => absurd (agrees.mpr same) Bool.false_ne_true
      simp only [ResponseErrorData.final, returns_bind, if_neg other, pure_eq]
    | some ri =>
      have same : condition = rejected := agrees.mp rfl
      simp only [ResponseErrorData.final, returns_bind, if_pos same, pure_eq, Option.getD_some]
  rw [shape, whole]
  rfl

end

def RequestPacket.Canonical : RequestPacket → Prop
  | .unknown => False
  | .data d => d.Canonical
  | .ping d => d.credits = 0
  | .pong d => d.credits = 0
  | _ => True

def ResponsePacket.Canonical : ResponsePacket → Prop
  | .unknown => False
  | .data d => d.headers.length ≤ headersMax
  | .error d => d.Canonical
  | .ping d => d.credits = 0
  | .pong d => d.credits = 0
  | _ => True

theorem RequestPacket.written (checks : Bool) (p : RequestPacket) (canonical : p.Canonical) :
    ∃ t seg, p.serialize = some (t, seg) ∧ Written (RequestPacket.parse wrapping checks)
      t seg p := by
  cases p with
  | unknown => cases canonical
  | data d =>
    exact ⟨_, _, rfl, written_fields checks RequestPacket.data (tableFits_of_ascii rfl)
      (d.segment canonical) fun _ => rfl⟩
  | error d =>
    exact ⟨_, _, rfl, written_fields checks RequestPacket.error (tableFits_of_ascii rfl)
      d.segment fun _ => rfl⟩
  | credit d =>
    exact ⟨_, _, rfl, written_fields checks RequestPacket.credit (tableFits_of_ascii rfl)
      d.segment fun _ => rfl⟩
  | keepAlive | cancel | handoffStart | handoffProceed =>
    exact ⟨_, [], rfl, written_bare fun _ => rfl⟩
  | close d => exact ⟨_, _, rfl, written_close checks RequestPacket.close d fun _ => rfl⟩
  | ping d =>
    exact ⟨_, _, rfl, written_fields checks RequestPacket.ping (tableFits_of_ascii rfl)
      (d.segment canonical) fun _ => rfl⟩
  | pong d =>
    exact ⟨_, _, rfl, written_fields checks RequestPacket.pong (tableFits_of_ascii rfl)
      (d.segment canonical) fun _ => rfl⟩

theorem ResponsePacket.written (checks : Bool) (p : ResponsePacket) (canonical : p.Canonical) :
    ∃ t seg, p.serialize = some (t, seg) ∧ Written (ResponsePacket.parse wrapping checks)
      t seg p := by
  cases p with
  | unknown => cases canonical
  | data d =>
    exact ⟨_, _, rfl, written_fields checks ResponsePacket.data (tableFits_of_ascii rfl)
      (d.segment canonical) fun _ => rfl⟩
  | error d =>
    exact ⟨_, _, rfl, written_error checks ResponsePacket.error d canonical fun _ => rfl⟩
  | credit d =>
    exact ⟨_, _, rfl, written_fields checks ResponsePacket.credit (tableFits_of_ascii rfl)
      d.segment fun _ => rfl⟩
  | keepAlive | cancel | handoffStart | handoffProceed =>
    exact ⟨_, [], rfl, written_bare fun _ => rfl⟩
  | close d => exact ⟨_, _, rfl, written_close checks ResponsePacket.close d fun _ => rfl⟩
  | ping d =>
    exact ⟨_, _, rfl, written_fields checks ResponsePacket.ping (tableFits_of_ascii rfl)
      (d.segment canonical) fun _ => rfl⟩
  | pong d =>
    exact ⟨_, _, rfl, written_fields checks ResponsePacket.pong (tableFits_of_ascii rfl)
      (d.segment canonical) fun _ => rfl⟩

section
variable {π : Type} {ptype : π → Option (PacketType × List Entry)}

theorem serializePacket_bytes {checks : Bool} {p : Packet π} {dest : Dest} {n : Nat}
    {bytes : List Byte} (ok : serializePacket ptype checks p dest = some (some n, bytes))
    {t : PacketType} {seg : List Entry} (typed : ptype p.ptype = some (t, seg))
    (fine : FineTree (.map ((CommonData.mk p.from_ p.ids p.multi t.str).serialize ++ seg))) :
    bytes.take n = 84 :: (PushpinTnetstring.Tree.map
      ((CommonData.mk p.from_ p.ids p.multi t.str).serialize ++ seg)).encode ∧
      (PushpinTnetstring.Tree.map ((CommonData.mk p.from_ p.ids p.multi t.str).serialize ++
      seg)).encode.length < isizeEnd := by
  unfold serializePacket at ok
  split at ok
  · cases ok
  · rw [typed] at ok
    simp only at ok
    split at ok
    · cases ok
    · rename_i writer appended
      split at ok
      · cases ok
      · cases ok
      · rename_i flushed done
        cases ok
        obtain ⟨len, out, written, small, measured⟩ := flush_output appended done
        have exactly := (measured.good fine.noMin).1
        have whole : flushed.dest.written = out := written
        rw [whole, ← exactly]
        exact ⟨List.take_left' rfl, small⟩

theorem packet_round_trips {parse : MapIterator → Option PacketType → Parse π}
    {checks checks' : Bool} {p : Packet π} {t : PacketType}
    {seg : List Entry} (typed : ptype p.ptype = some (t, seg))
    (written : Written parse t seg p.ptype)
    (room : p.ids.length ≤ idsMax) {dest : Dest} {n : Nat} {bytes : List Byte}
    (ok : serializePacket ptype checks p dest = some (some n, bytes)) :
    parsePacket wrapping checks' parse (bytes.take n) = .returns { p with ptypeStr := t.str } := by
  have segment := @CommonData.segment checks' ⟨p.from_, p.ids, p.multi, t.str⟩ room
  have common_texts : ∀ key ∈ commonKeys, isUtf8 key = true := List.all_eq_true.mp (all_isUtf8 rfl)
  have fine : FineTree (.map ((CommonData.mk p.from_ p.ids p.multi t.str).serialize ++ seg)) := by
    apply fine_map
    intro entry mem
    rcases List.mem_append.mp mem with here | there
    · obtain ⟨known, fine⟩ := segment.fine entry here
      exact ⟨common_texts _ known, fine⟩
    · exact ⟨(written.entries entry there).text, (written.entries entry there).fine⟩
  obtain ⟨front, small⟩ := serializePacket_bytes ok typed fine
  have inner_small := entriesEncode_small small
  have skipped : Folds (commonEntry wrapping checks') seg ⟨p.from_, p.ids, p.multi, t.str⟩
      ⟨p.from_, p.ids, p.multi, t.str⟩ :=
    Folds.skip fun entry mem => commonEntry_skips (written.entries entry mem).apart
  have common := (segment.folds.append skipped) fun entry mem => entry_small inner_small mem
  have data :=
    written.reads _ (fun entry mem => (segment.fine entry mem).1) fine.textKeys inner_small
  have known : PacketType.of t.str.bytes = some t := by
    cases t <;> rfl
  rw [front, parsePacket, parseRoot, parseMap_encoded small]
  simp only [withField, lift, returns_bind, CommonData.parse,
    forEntries_encoded fine.textKeys inner_small, common, known, data]
  rfl

end

/-- Every packet in its canonical form that a serializer writes is read back. -/
theorem packets_round_trip (checks checks' : Bool) (dest : Dest) (n : Nat) (bytes : List Byte) :
    (∀ request : Request, request.ids.length ≤ idsMax → request.ptype.Canonical →
      request.serialize checks dest = some (some n, bytes) →
      ∃ ptypeStr, Request.parse checks' (bytes.take n) = .returns
        { request with ptypeStr := ptypeStr }) ∧
    (∀ response : Response, response.ids.length ≤ idsMax → response.ptype.Canonical →
      response.serialize checks dest = some (some n, bytes) →
      ∃ ptypeStr, Response.parse checks' (bytes.take n) = .returns
        { response with ptypeStr := ptypeStr }) := by
  constructor
  · intro request room canonical ok
    obtain ⟨t, seg, typed, written⟩ := RequestPacket.written checks' request.ptype canonical
    exact ⟨t.str, packet_round_trips typed written room ok⟩
  · intro response room canonical ok
    obtain ⟨t, seg, typed, written⟩ := ResponsePacket.written checks' response.ptype canonical
    exact ⟨t.str, packet_round_trips typed written room ok⟩

def smallDest : Dest := ⟨List.replicate 92 0, by decide⟩

def smallRequest : Request where
  from_ := ascii "c"
  ids := [⟨ascii "1", some 7⟩]
  multi := false
  ptype := .data { RequestData.new with method := .of "GET" (by decide +kernel), credits := 5 }
  ptypeStr := .empty

def smallResponse : Response where
  from_ := []
  ids := [⟨ascii "1", none⟩, ⟨ascii "2", none⟩]
  multi := true
  ptype := .close ⟨some (1000, .empty)⟩
  ptypeStr := .empty

def smallRequestBytes : List Byte :=
  ascii "T59:4:from,1:c,2:id,1:1,3:seq,1:7#6:method,3:GET,7:credits,1:5#\x7d" ++ List.replicate 28 0

def smallResponseBytes : List Byte :=
  ascii "T87:2:id,24:9:2:id,1:1,\x7d9:2:id,1:2,\x7d]3:ext,15:5:multi,4:true!\x7d4:type,5:close,4:code,4:1000#\x7d"

theorem small_packets_round_trip :
    (∃ ptypeStr, Request.parse true (smallRequestBytes.take 64) = .returns
    { smallRequest with ptypeStr := ptypeStr }) ∧
      ∃ ptypeStr, Response.parse true (smallResponseBytes.take 92) = .returns
        { smallResponse with ptypeStr := ptypeStr } := by
  have canonical : smallRequest.ptype.Canonical := ⟨by decide, fun _ => rfl, rfl⟩
  exact ⟨(packets_round_trip true true smallDest 64 smallRequestBytes).1 smallRequest
      (by decide) canonical (by decide +kernel),
    (packets_round_trip true true smallDest 92 smallResponseBytes).2 smallResponse
      (by decide) trivial (by decide +kernel)⟩

end PushpinZhttpPacket
