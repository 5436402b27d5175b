import Pushpin.Connmgr.PacketLoops

namespace PushpinZhttpPacket
open PushpinRingBuffer PushpinTnetstring Text Outcome

def checked : Casts where
  u32 field x := if x < 2 ^ 32 then .returns (UInt32.ofNat x) else .fails (.wrongType field .int)
  u16 field x := if x < 2 ^ 16 then .returns (UInt16.ofNat x) else .fails (.wrongType field .int)

def Request.parseChecked (checks : Bool) (src : List Byte) : Parse Request :=
  parsePacket checked checks (RequestPacket.parse checked checks) src

def Response.parseChecked (checks : Bool) (src : List Byte) : Parse Response :=
  parsePacket checked checks (ResponsePacket.parse checked checks) src

def intFits (checks : Bool) (bound : Nat) (data : List Byte) : Bool :=
  match parseInt checks data with
  | some (.ok x) => decide (x < (bound : Int))
  | _ => true

section
variable (checks : Bool)

def seqFits (m : MapItem) : Bool := m.key ≠ ascii "seq" || intFits checks (2 ^ 32) m.data

def idMapFits (idm : SequenceItem) : Bool :=
  match parseMap checks idm.data with
  | some (.ok entries) => (entriesOf checks entries).all (seqFits checks)
  | _ => true

def commonFits (e : MapItem) : Bool :=
  if e.key = ascii "id" then
    match e.ftype, parseArray checks e.data with
    | .array, some (.ok ids) => (itemsOf checks ids).all (idMapFits checks)
    | _, _ => true
  else seqFits checks e

def Field.bound {σ : Type} : Field σ → Option Nat
  | .u32 _ _ => some (2 ^ 32)
  | .u16 _ _ => some (2 ^ 16)
  | _ => none

def fieldFits {σ : Type} (fields : List (String × Field σ)) (e : MapItem) : Bool :=
  match (fieldOf fields e.key).bind Field.bound with
  | some bound => intFits checks bound e.data
  | none => true

def fieldsFit {σ : Type} (fields : List (String × Field σ)) (root : MapIterator) : Bool :=
  (entriesOf checks root).all (fieldFits checks fields)

def RequestPacket.intsFit (root : MapIterator) : Option PacketType → Bool
  | some .data => fieldsFit checks RequestData.fields root
  | some .error => fieldsFit checks RequestErrorData.fields root
  | some .credit => fieldsFit checks CreditData.fields root
  | some .close => fieldsFit checks CloseFields.fields root
  | some .ping => fieldsFit checks PingData.fields root
  | some .pong => fieldsFit checks PingData.fields root
  | _ => true

def ResponsePacket.intsFit (root : MapIterator) : Option PacketType → Bool
  | some .data => fieldsFit checks ResponseData.fields root
  | some .error => fieldsFit checks ErrorFields.fields root
  | some .credit => fieldsFit checks CreditData.fields root
  | some .close => fieldsFit checks CloseFields.fields root
  | some .ping => fieldsFit checks PingData.fields root
  | some .pong => fieldsFit checks PingData.fields root
  | _ => true

def typeAfter (s : List Byte) (e : MapItem) : List Byte :=
  if e.key = ascii "type" then
    match parseString checks e.data with
    | some (.ok t) => t
    | _ => s
  else s

def typeText (root : MapIterator) : List Byte := (entriesOf checks root).foldl (typeAfter checks) []

def packetFits (ptypeFits : MapIterator → Option PacketType → Bool) (src : List Byte) : Bool :=
  match parseRoot checks src with
  | .returns root => (entriesOf checks root).all (commonFits checks) &&
      ptypeFits root (PacketType.of (typeText checks root))
  | _ => true

end

section
variable {checks : Bool}

theorem parseUint_guarded {ν : Type} {cast strict : String → Nat → Parse ν} {bound : Nat}
    (narrow : ∀ field x, Guarded (x < bound) (cast field x) (strict field x)) (field : String)
    (data : List Byte) :
    Guarded (intFits checks bound data = true) (parseUint checks cast field data)
      (parseUint checks strict field data) := by
  apply Guarded.after
  intro x read
  have carried := withField_returns read
  unfold intFits
  rw [carried]
  simp only [decide_eq_true_eq]
  by_cases negative : x < 0
  · rw [if_pos negative]
    exact ⟨nofun, nofun⟩
  · rw [if_neg negative, if_neg negative]
    exact (narrow field x.toNat).of_iff (by omega)

theorem u32_guarded (field : String) (data : List Byte) :
    Guarded (intFits checks (2 ^ 32) data = true) (parseUint checks wrapping.u32 field data)
      (parseUint checks checked.u32 field data) := by
  apply parseUint_guarded
  intro field x
  exact Guarded.check (.returns (UInt32.ofNat x)) (ParseError.wrongType field .int)

theorem u16_guarded (field : String) (data : List Byte) :
    Guarded (intFits checks (2 ^ 16) data = true) (parseUint checks wrapping.u16 field data)
      (parseUint checks checked.u16 field data) := by
  apply parseUint_guarded
  intro field x
  exact Guarded.check (.returns (UInt16.ofNat x)) (ParseError.wrongType field .int)

theorem forEach_guarded {ι α σ : Type}
    {next : ι → Option (Option (Except PushpinTnetstring.ParseError α) × ι)} {body other : σ → α →
    Parse σ} {fits : α → Bool} (step : ∀ s e, Guarded (fits e = true) (body s e) (other s e))
    (calls : Nat) (it : ι) (s : σ) :
    Guarded ((collected (drain next calls it)).all fits = true) (forEach next body calls it s)
      (forEach next other calls it s) := by
  have folds :=
    (Guarded.foldlM step (collected (drain next calls it)) s).of_iff List.all_eq_true.symm
  constructor
  · intro s' ok well
    obtain ⟨loops, folded⟩ := forEach_folds ok
    rw [loops]
    exact folds.agrees folded well
  · intro s' t ok strict
    obtain ⟨loops, folded⟩ := forEach_folds ok
    rw [loops] at strict
    exact folds.refuses folded strict

theorem seqFits_other {m : MapItem} (other : m.key ≠ ascii "seq") : seqFits checks m = true := by
  unfold seqFits
  rw [decide_eq_true other, Bool.true_or]

theorem seqFits_seq {m : MapItem} (key : m.key = ascii "seq") :
    intFits checks (2 ^ 32) m.data = true ↔ seqFits checks m = true := by
  unfold seqFits
  rw [decide_eq_false (not_not.mpr key), Bool.false_or]

theorem idEntry_guarded (id : Id) (m : MapItem) :
    Guarded (seqFits checks m = true) (idEntry wrapping checks id m)
      (idEntry checked checks id m) := by
  unfold idEntry
  by_cases is_id : m.key = ascii "id"
  · rw [if_pos is_id, if_pos is_id]
    exact Guarded.refl _ (seqFits_other (by rw [is_id]; decide))
  · rw [if_neg is_id, if_neg is_id]
    by_cases is_seq : m.key = ascii "seq"
    · rw [if_pos is_seq, if_pos is_seq]
      exact ((u32_guarded "seq" m.data).of_iff (seqFits_seq is_seq)).before _
    · rw [if_neg is_seq, if_neg is_seq]
      exact Guarded.refl _ (seqFits_other is_seq)

theorem idItem_guarded (scratch : List Id) (idm : SequenceItem) :
    Guarded (idMapFits checks idm = true) (idItem wrapping checks scratch idm)
      (idItem checked checks scratch idm) := by
  unfold idItem
  by_cases full : scratch.length = idsMax
  · rw [if_pos full]
    exact ⟨nofun, nofun⟩
  · rw [if_neg full, if_neg full]
    apply Guarded.after
    intro entries read
    unfold idMapFits
    rw [lift_returns read]
    exact (forEach_guarded idEntry_guarded _ entries emptyId).before _

theorem parseId_guarded (e : MapItem) (is_id : e.key = ascii "id") (scratch : List Id) :
    Guarded (commonFits checks e = true) (parseId wrapping checks e scratch)
      (parseId checked checks e scratch) := by
  unfold parseId commonFits
  rw [if_pos is_id]
  cases e.ftype with
  | array =>
    apply Guarded.after
    intro ids read
    rw [lift_returns read]
    exact forEach_guarded idItem_guarded _ ids scratch
  | null | bool | int | float | string | map => exact Guarded.refl _ rfl

theorem commonEntry_guarded (d : CommonData) (e : MapItem) :
    Guarded (commonFits checks e = true) (commonEntry wrapping checks d e)
      (commonEntry checked checks d e) := by
  unfold commonEntry
  by_cases is_id : e.key = ascii "id"
  · have not_from : e.key ≠ ascii "from" := by
      rw [is_id]
      decide
    rw [if_neg not_from, if_neg not_from, if_pos is_id, if_pos is_id]
    exact (parseId_guarded e is_id d.ids).before _
  · have fits : commonFits checks e = seqFits checks e := if_neg is_id
    rw [fits, if_neg is_id, if_neg is_id]
    by_cases is_seq : e.key = ascii "seq"
    · have not_from : e.key ≠ ascii "from" := by
        rw [is_seq]
        decide
      rw [if_neg not_from, if_neg not_from, if_pos is_seq, if_pos is_seq]
      exact (((u32_guarded "seq" e.data).of_iff (seqFits_seq is_seq)).before _).before _
    · rw [if_neg is_seq, if_neg is_seq]
      exact Guarded.refl _ (seqFits_other is_seq)

theorem fieldEntry_guarded {σ : Type} (fields : List (String × Field σ)) (d : σ) (e : MapItem) :
    Guarded (fieldFits checks fields e = true) (fieldEntry wrapping checks fields d e)
      (fieldEntry checked checks fields d e) := by
  unfold fieldEntry fieldFits
  cases fieldOf fields e.key with
  | none => exact Guarded.refl _ rfl
  | some field =>
    cases field with
    | u32 name set => exact (u32_guarded name e.data).before _
    | u16 name set => exact (u16_guarded name e.data).before _
    | bool name set | bytes name set | str name utf8Name set | headers get set =>
        exact Guarded.refl _ rfl

theorem readFields_guarded {σ : Type} (fields : List (String × Field σ)) (root : MapIterator)
    (d : σ) :
    Guarded (fieldsFit checks fields root = true) (readFields wrapping checks fields root d)
      (readFields checked checks fields root d) :=
  forEach_guarded (fieldEntry_guarded fields) _ root d

theorem RequestPacket.parse_guarded (root : MapIterator) (t : Option PacketType) :
    Guarded (RequestPacket.intsFit checks root t = true)
      (RequestPacket.parse wrapping checks root t) (RequestPacket.parse checked checks root t) := by
  cases t with
  | none => exact Guarded.refl _ rfl
  | some t =>
    cases t with
    | data => exact (readFields_guarded RequestData.fields root _).before _
    | error => exact (readFields_guarded RequestErrorData.fields root _).before _
    | credit => exact (readFields_guarded CreditData.fields root _).before _
    | keepAlive | cancel | handoffStart | handoffProceed => exact Guarded.refl _ rfl
    | close => exact ((readFields_guarded CloseFields.fields root _).before _).before _
    | ping | pong => exact (readFields_guarded PingData.fields root _).before _

theorem ResponsePacket.parse_guarded (root : MapIterator) (t : Option PacketType) :
    Guarded (ResponsePacket.intsFit checks root t = true)
      (ResponsePacket.parse wrapping checks root t)
      (ResponsePacket.parse checked checks root t) := by
  cases t with
  | none => exact Guarded.refl _ rfl
  | some t =>
    cases t with
    | data => exact (readFields_guarded ResponseData.fields root _).before _
    | error => exact ((readFields_guarded ErrorFields.fields root _).before _).before _
    | credit => exact (readFields_guarded CreditData.fields root _).before _
    | keepAlive | cancel | handoffStart | handoffProceed => exact Guarded.refl _ rfl
    | close => exact ((readFields_guarded CloseFields.fields root _).before _).before _
    | ping | pong => exact (readFields_guarded PingData.fields root _).before _

theorem commonEntry_type {casts : Casts} {d d' : CommonData} {e : MapItem}
    (ok : commonEntry casts checks d e = .returns d') :
    d'.ptypeStr.bytes = typeAfter checks d.ptypeStr.bytes e := by
  unfold typeAfter
  cases commonEntry_step ok with
  | type key read => rw [if_pos key, parseStr_returns read]
  | from_ key read | id key read | seq key read | ext key read => rw [if_neg (by rw [key]; decide)]
  | other keys => rw [if_neg keys.2.2.2]

theorem CommonData.parse_type {casts : Casts} {root : MapIterator} {d : CommonData}
    (ok : CommonData.parse casts checks root = .returns d) :
    d.ptypeStr.bytes = typeText checks root :=
  foldlM_view (fun d => d.ptypeStr.bytes) (typeAfter checks) _ (fun _ step => commonEntry_type step)
    (forEntries_returns ok).2

theorem parsePacket_guarded (checks : Bool) {π : Type} (ptype : Casts → MapIterator →
    Option PacketType → Parse π) {ptypeFits : MapIterator → Option PacketType → Bool}
    (fields : ∀ root t, Guarded (ptypeFits root t = true) (ptype wrapping root t)
    (ptype checked root t))
    (src : List Byte) : Guarded (packetFits checks ptypeFits src = true)
      (parsePacket wrapping checks (ptype wrapping) src)
      (parsePacket checked checks (ptype checked) src) := by
  apply Guarded.after
  intro root read
  unfold packetFits
  rw [read]
  simp only [Bool.and_eq_true]
  apply Guarded.bind (forEach_guarded commonEntry_guarded _ root CommonData.new)
  intro common parsed
  rw [← CommonData.parse_type parsed]
  exact (fields root _).before _

end

/-- A packet that is accepted has the integers that the message carries exactly
    when each of them fits its field. -/
theorem integers_are_kept_iff (checks : Bool) (src : List Byte) :
    (∀ request, Request.parse checks src = .returns request →
      (Request.parseChecked checks src = .returns request ↔
        packetFits checks (RequestPacket.intsFit checks) src = true)) ∧
    (∀ response, Response.parse checks src = .returns response →
      (Response.parseChecked checks src = .returns response ↔
        packetFits checks (ResponsePacket.intsFit checks) src = true)) := by
  constructor
  · intro request ok
    have guarded := parsePacket_guarded checks (fun casts => RequestPacket.parse casts checks)
      RequestPacket.parse_guarded src
    exact guarded.iff ok
  · intro response ok
    have guarded := parsePacket_guarded checks (fun casts => ResponsePacket.parse casts checks)
      ResponsePacket.parse_guarded src
    exact guarded.iff ok

def creditRequest (credits : UInt32) : Request :=
  ⟨[], [], false, .data { RequestData.new with credits := credits }, .empty⟩

def codeResponse (code : UInt16) : Response :=
  ⟨[], [], false, .data { ResponseData.new with code := code }, .empty⟩

theorem small_integers_are_kept :
    Request.parseChecked true (ascii "T14:7:credits,1:5#\x7d") = .returns (creditRequest 5) ∧
      Response.parseChecked true (ascii "T13:4:code,3:200#\x7d") = .returns (codeResponse 200) :=
  ⟨((integers_are_kept_iff true (ascii "T14:7:credits,1:5#\x7d")).1 (creditRequest 5)
      (by decide +kernel)).mpr (by decide +kernel),
    ((integers_are_kept_iff true (ascii "T13:4:code,3:200#\x7d")).2 (codeResponse 200)
      (by decide +kernel)).mpr (by decide +kernel)⟩

theorem large_credits_are_lost :
    Request.parse true (ascii "T24:7:credits,10:4294967296#\x7d") = .returns (creditRequest 0) ∧
      ¬ ∀ checks src request, Request.parse checks src = .returns request →
        Request.parseChecked checks src = .returns request := by
  have accepted : Request.parse true (ascii "T24:7:credits,10:4294967296#\x7d") = .returns
      (creditRequest 0) := by
    decide +kernel
  refine ⟨accepted, ?_⟩
  intro kept
  exact absurd (kept true _ _ accepted) (by decide +kernel)

end PushpinZhttpPacket
