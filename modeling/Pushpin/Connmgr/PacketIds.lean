import Pushpin.Connmgr.PacketInts

namespace PushpinZhttpPacket
open PushpinRingBuffer PushpinTnetstring Text Outcome

inductive IdEvent where
  | one (id : List Byte)
  | many (ids : List (List Byte))
  | seq

def IdEvent.ids : IdEvent → List (List Byte)
  | .one id => [id]
  | .many ids => ids
  | .seq => []

def IdEvent.isOne : IdEvent → Bool
  | .one _ => true
  | _ => false

def assign (ids : List (List Byte)) : IdEvent → List (List Byte)
  | .one id => if ids = [] then [id] else ids.modifyHead fun _ => id
  | .many more => ids ++ more
  | .seq => if ids = [] then [[]] else ids

def noneIsOne (events : List IdEvent) : Bool := events.all fun event => !event.isOne

/-- After a sequence number that came before all ids: the ids of arrays so far,
    and then the single id that takes the place. -/
def agreeAfterSeq (before : List (List Byte)) : List IdEvent → Bool
  | [] => false
  | .seq :: events => agreeAfterSeq before events
  | .many ids :: events => agreeAfterSeq (before ++ ids) events
  | .one id :: events => before.all (· = id) && noneIsOne events

/-- No single id is assigned over another id, and a sequence number that comes
    first finds its id later, behind no other id. -/
def agree : List IdEvent → Bool
  | [] => true
  | .many [] :: events => agree events
  | .many (_ :: _) :: events => noneIsOne events
  | .one _ :: events => noneIsOne events
  | .seq :: events => agreeAfterSeq [] events

def arrayIds : IdEvent → List (List Byte)
  | .many ids => ids
  | _ => []

def lastOne (id : List Byte) : List IdEvent → List Byte
  | [] => id
  | .one id :: events => lastOne id events
  | _ :: events => lastOne id events

theorem assign_cons (id : List Byte) (ids : List (List Byte)) (events : List IdEvent) :
    events.foldl assign (id :: ids) = lastOne id events :: (ids ++ events.flatMap arrayIds) := by
  induction events generalizing id ids with
  | nil => simp [lastOne]
  | cons event events ih =>
    cases event with
    | one other => simp [assign, ih, lastOne, arrayIds]
    | many more => simp [assign, ih, lastOne, arrayIds]
    | seq => simp [assign, ih, lastOne, arrayIds]

theorem arrayIds_length (events : List IdEvent) :
    (events.flatMap arrayIds).length ≤ (events.flatMap IdEvent.ids).length := by
  induction events with
  | nil => exact Nat.le_refl _
  | cons event events ih =>
    rw [List.flatMap_cons, List.flatMap_cons, List.length_append, List.length_append]
    have here : (arrayIds event).length ≤ event.ids.length := by
      cases event <;> simp [arrayIds, IdEvent.ids]
    omega

theorem noneIsOne_iff (events : List IdEvent) :
    (events.flatMap arrayIds).length = (events.flatMap IdEvent.ids).length ↔
    noneIsOne events = true := by
  induction events with
  | nil => exact ⟨fun _ => rfl, fun _ => rfl⟩
  | cons event events ih =>
    have later := arrayIds_length events
    simp only [noneIsOne, List.all_cons, Bool.and_eq_true, List.flatMap_cons,
      List.length_append] at ih ⊢
    rw [← ih]
    cases event with
    | one id =>
      simp only [arrayIds, IdEvent.ids, IdEvent.isOne, List.length_nil, List.length_singleton]
      constructor
      · intro same
        omega
      · intro both
        cases both.1
    | many ids => simp [arrayIds, IdEvent.ids, IdEvent.isOne]
    | seq => simp [arrayIds, IdEvent.ids, IdEvent.isOne]

theorem noneIsOne_same {events : List IdEvent} (none : noneIsOne events = true) (id : List Byte) :
    events.flatMap arrayIds = events.flatMap IdEvent.ids ∧ lastOne id events = id := by
  induction events with
  | nil => exact ⟨rfl, rfl⟩
  | cons event events ih =>
    simp only [noneIsOne, List.all_cons, Bool.and_eq_true] at none ih
    obtain ⟨same, last⟩ := ih none.2
    cases event with
    | one id => cases none.1
    | many ids => exact ⟨by rw [List.flatMap_cons, List.flatMap_cons, same]; rfl, last⟩
    | seq => exact ⟨by rw [List.flatMap_cons, List.flatMap_cons, same]; rfl, last⟩

theorem assign_cons_iff (id : List Byte) (ids : List (List Byte)) (events : List IdEvent) :
    events.foldl assign (id :: ids) = id :: (ids ++ events.flatMap IdEvent.ids) ↔
      noneIsOne events = true := by
  rw [assign_cons]
  constructor
  · intro same
    have lengths := congrArg List.length same
    simp only [List.length_cons, List.length_append] at lengths
    exact (noneIsOne_iff events).mp (by omega)
  · intro none
    obtain ⟨same, last⟩ := noneIsOne_same none id
    rw [same, last]

theorem cons_eq_append_iff (id : List Byte) (before after : List (List Byte)) :
    id :: (before ++ after) = before ++ id :: after ↔ before.all (· = id) = true := by
  induction before with
  | nil => simp
  | cons first before ih =>
    simp only [List.cons_append, List.cons.injEq, List.all_cons, Bool.and_eq_true,
      decide_eq_true_eq, ← ih]
    constructor
    · rintro ⟨rfl, rest⟩
      exact ⟨rfl, rest⟩
    · rintro ⟨rfl, rest⟩
      exact ⟨rfl, rest⟩

theorem agreeAfterSeq_iff (before : List (List Byte)) (events : List IdEvent) :
    lastOne [] events :: (before ++ events.flatMap arrayIds) = before ++
      events.flatMap IdEvent.ids ↔ agreeAfterSeq before events = true := by
  induction events generalizing before with
  | nil =>
    simp only [List.flatMap_nil, List.append_nil, agreeAfterSeq, Bool.false_eq_true, iff_false]
    intro same
    have lengths := congrArg List.length same
    rw [List.length_cons] at lengths
    omega
  | cons event events ih =>
    cases event with
    | seq => exact ih before
    | many ids =>
      rw [agreeAfterSeq, ← ih (before ++ ids), List.append_assoc, List.append_assoc]
      rfl
    | one id =>
      rw [agreeAfterSeq, Bool.and_eq_true]
      simp only [List.flatMap_cons, arrayIds, IdEvent.ids, List.nil_append, List.singleton_append,
        lastOne]
      constructor
      · intro same
        have lengths := congrArg List.length same
        simp only [List.length_cons, List.length_append] at lengths
        have none := (noneIsOne_iff events).mp (by omega)
        obtain ⟨arrays, last⟩ := noneIsOne_same none id
        rw [arrays, last, cons_eq_append_iff] at same
        exact ⟨same, none⟩
      · rintro ⟨all, none⟩
        obtain ⟨arrays, last⟩ := noneIsOne_same none id
        rw [arrays, last, cons_eq_append_iff]
        exact all

/-- The two lists of ids are the same exactly when the entries agree. -/
theorem assign_iff (events : List IdEvent) :
    events.foldl assign [] = events.flatMap IdEvent.ids ↔ agree events = true := by
  induction events with
  | nil => exact ⟨fun _ => rfl, fun _ => rfl⟩
  | cons event events ih =>
    cases event with
    | one id => exact assign_cons_iff id [] events
    | seq =>
      rw [agree, ← agreeAfterSeq_iff]
      exact iff_of_eq (congrArg (· = _) (assign_cons [] [] events))
    | many ids =>
      cases ids with
      | nil => exact ih
      | cons id ids => exact assign_cons_iff id ids events

section
variable (checks : Bool)

def stringOr (data before : List Byte) : List Byte :=
  match parseString checks data with
  | some (.ok s) => s
  | _ => before

def idAfter (id : List Byte) (m : MapItem) : List Byte :=
  if m.key = ascii "id" then stringOr checks m.data id else id

def mapId (idm : SequenceItem) : List Byte :=
  match parseMap checks idm.data with
  | some (.ok entries) => (entriesOf checks entries).foldl (idAfter checks) []
  | _ => []

def idEvent (e : MapItem) : Option IdEvent :=
  if e.key = ascii "id" then
    match e.ftype, parseArray checks e.data, parseString checks e.data with
    | .array, some (.ok ids), _ => some (.many ((itemsOf checks ids).map (mapId checks)))
    | .string, _, some (.ok id) => some (.one id)
    | _, _, _ => none
  else if e.key = ascii "seq" then some .seq
  else none

def fromAfter (from_ : List Byte) (e : MapItem) : List Byte :=
  if e.key = ascii "from" then stringOr checks e.data from_ else from_

def entryIds (e : MapItem) : List (List Byte) := ((idEvent checks e).map IdEvent.ids).getD []

def assignEntry (ids : List (List Byte)) (e : MapItem) : List (List Byte) :=
  ((idEvent checks e).map (assign ids)).getD ids

def bare (id : List Byte) : Id := ⟨id, none⟩

end

section
variable {checks : Bool} {casts : Casts}

theorem parseBytes_string {field : String} {data s before : List Byte}
    (ok : parseBytes checks field data = .returns s) : stringOr checks data before = s := by
  unfold stringOr
  rw [withField_returns ok]

theorem idEntry_id {id id' : Id} {m : MapItem} (ok : idEntry casts checks id m = .returns id') :
    id'.id = idAfter checks id.id m := by
  unfold idEntry at ok
  unfold idAfter
  by_cases is_id : m.key = ascii "id"
  · rw [if_pos is_id] at ok ⊢
    obtain ⟨s, read, last⟩ := bind_returns ok
    cases last
    exact (parseBytes_string read).symm
  · rw [if_neg is_id] at ok ⊢
    split at ok
    · obtain ⟨x, _, last⟩ := bind_returns ok
      cases last
      rfl
    · cases ok
      rfl

structure GoodMap (casts : Casts) (checks : Bool) (idm : SequenceItem) (id : Id) : Prop where
  read : ∃ entries, parseMap checks idm.data = some (.ok entries) ∧
    forEntries checks entries emptyId (idEntry casts checks) = .returns id
  same : id.id = mapId checks idm

variable {scratch scratch' : List Id}

theorem idItem_returns {idm : SequenceItem}
    (ok : idItem casts checks scratch idm = .returns scratch') :
    ∃ id, GoodMap casts checks idm id ∧ scratch.length < idsMax ∧ scratch' = scratch ++ [id] := by
  unfold idItem at ok
  split at ok
  · cases ok
  · obtain ⟨entries, read, rest⟩ := bind_returns ok
    obtain ⟨id, looped, pushed⟩ := bind_returns rest
    have parsed := lift_returns read
    have same : id.id = mapId checks idm := by
      unfold mapId
      rw [parsed]
      exact foldlM_view Id.id (idAfter checks) _ (fun _ step => idEntry_id step)
        (forEntries_returns looped).2
    unfold push at pushed
    split at pushed
    · rename_i room
      cases pushed
      exact ⟨id, ⟨⟨entries, parsed, looped⟩, same⟩, room, rfl⟩
    · cases pushed

theorem routeIdEntry_accepted {t t' : Id} {m : MapItem}
    (accepted : idEntry casts checks t m = .returns t') (id : List Byte) :
    routeIdEntry checks id m = .returns (idAfter checks id m) := by
  unfold idEntry at accepted
  unfold routeIdEntry idAfter
  by_cases is_id : m.key = ascii "id"
  · rw [if_pos is_id] at accepted ⊢
    obtain ⟨s, read, _⟩ := bind_returns accepted
    rw [read, if_pos is_id, parseBytes_string read]
  · rw [if_neg is_id, if_neg is_id]
    rfl

theorem routeIdItem_good {idm : SequenceItem} {id : Id} (good : GoodMap casts checks idm id)
    (scratch : List Id) : routeIdItem checks scratch idm =
      if scratch.length = idsMax then .fails .tooManyIds else push idsMax scratch
        (bare (mapId checks idm)) := by
  obtain ⟨⟨entries, parsed, looped⟩, _⟩ := good
  obtain ⟨loops, folded⟩ := forEntries_returns looped
  have each : ∀ m ∈ entriesOf checks entries, ∀ id, routeIdEntry checks id m = .returns
      (idAfter checks id m) := by
    intro m mem id
    obtain ⟨t, t', accepted⟩ := foldlM_each _ folded m mem
    exact routeIdEntry_accepted accepted id
  unfold routeIdItem mapId
  rw [parsed]
  by_cases full : scratch.length = idsMax
  · rw [if_pos full, if_pos full]
  · rw [if_neg full, if_neg full]
    simp only [lift, returns_bind]
    rw [loops, foldlM_pure _ each []]
    rfl

theorem idItems_returns {ids : SequenceIterator}
    (ok : forItems checks ids scratch (idItem casts checks) = .returns scratch') :
    scratch'.map Id.id = scratch.map Id.id ++ (itemsOf checks ids).map (mapId checks) ∧
      (scratch.length ≤ idsMax → scratch'.length ≤ idsMax) := by
  obtain ⟨_, folded⟩ := forItems_returns ok
  constructor
  · have one : ∀ {s idm s'}, idm ∈ itemsOf checks ids → idItem casts checks s idm = .returns s' →
        s'.map Id.id = s.map Id.id ++ [mapId checks idm] := by
      intro s idm s' _ step
      obtain ⟨id, good, _, rfl⟩ := idItem_returns step
      rw [List.map_append, List.map_singleton, good.same]
    rw [foldlM_view (List.map Id.id) (fun seen idm => seen ++ [mapId checks idm]) _ one folded,
      List.foldl_append_eq_append, ← List.flatMap_def, ← List.map_eq_flatMap]
  · intro room
    apply foldlM_invariant (fun s => s.length ≤ idsMax) _ _ room folded
    intro s idm s' _ step
    obtain ⟨id, _, small, rfl⟩ := idItem_returns step
    rw [List.length_append, List.length_singleton]
    omega

theorem withFirst_returns (ok : withFirst scratch = .returns scratch') :
    scratch' = if scratch = [] then [emptyId] else scratch := by
  unfold withFirst at ok
  split at ok
  · rename_i empty
    subst empty
    cases ok
    rfl
  · rename_i filled
    cases ok
    rw [if_neg filled]

theorem first_assigned (ok : withFirst scratch = .returns scratch')
    (set : Id → Id) :
    (scratch'.modifyHead set).map Id.id =
        (if scratch = [] then [(set emptyId).id] else (scratch.modifyHead set).map Id.id) ∧
      (scratch'.modifyHead set).length = max 1 scratch.length := by
  rw [withFirst_returns ok]
  cases scratch with
  | nil => exact ⟨rfl, rfl⟩
  | cons id scratch => simp

theorem parseSeq_ids {data : List Byte}
    (ok : parseSeq casts checks data scratch = .returns scratch') :
    scratch'.map Id.id = assign (scratch.map Id.id) .seq ∧
      scratch'.length = max 1 scratch.length := by
  obtain ⟨x, _, rest⟩ := bind_returns ok
  obtain ⟨mid, first, last⟩ := bind_returns rest
  cases last
  obtain ⟨ids, length⟩ := first_assigned first fun id => { id with seq := some x }
  rw [ids, length]
  cases scratch with
  | nil => exact ⟨rfl, rfl⟩
  | cons id scratch => exact ⟨rfl, rfl⟩

inductive IdRead (casts : Casts) (checks : Bool) (e : MapItem) (scratch scratch' : List Id) :
    Prop where
  | one {id : List Byte} (is_string : e.ftype = .string)
      (read : parseString checks e.data = some (.ok id))
    (first : ∃ mid, withFirst scratch = .returns mid ∧ scratch' = mid.modifyHead fun first =>
      { first with id := id })
  | many {ids : SequenceIterator} (is_array : e.ftype = .array) (read : parseArray checks e.data =
    some (.ok ids)) (looped : forItems checks ids scratch (idItem casts checks) = .returns scratch')

variable {e : MapItem}

theorem parseId_returns
    (ok : parseId casts checks e scratch = .returns scratch') :
    IdRead casts checks e scratch scratch' := by
  unfold parseId at ok
  split at ok
  · rename_i is_array
    obtain ⟨ids, read, looped⟩ := bind_returns ok
    exact .many is_array (lift_returns read) looped
  · rename_i is_string
    obtain ⟨id, read, rest⟩ := bind_returns ok
    obtain ⟨mid, first, last⟩ := bind_returns rest
    cases last
    exact .one is_string (lift_returns read) ⟨mid, first, rfl⟩
  · cases ok

theorem idEvent_one (key : e.key = ascii "id") (is_string : e.ftype = .string) {id : List Byte}
    (read : parseString checks e.data = some (.ok id)) : idEvent checks e = some (.one id) := by
  unfold idEvent
  rw [if_pos key, is_string, read]

theorem idEvent_many (key : e.key = ascii "id") (is_array : e.ftype = .array)
    {ids : SequenceIterator} (read : parseArray checks e.data = some (.ok ids)) :
    idEvent checks e = some (.many ((itemsOf checks ids).map (mapId checks))) := by
  unfold idEvent
  rw [if_pos key, is_array, read]

theorem idEvent_none (not_id : e.key ≠ ascii "id") (not_seq : e.key ≠ ascii "seq") :
    idEvent checks e = none := by
  unfold idEvent
  rw [if_neg not_id, if_neg not_seq]

theorem idEvent_seq (key : e.key = ascii "seq") : idEvent checks e = some .seq := by
  unfold idEvent
  rw [if_neg (by rw [key]; decide), if_pos key]

variable {d : CommonData}

section
variable {d' : CommonData} (ok : commonEntry casts checks d e = .returns d')
include ok

theorem commonEntry_ids :
    d'.ids.map Id.id = assignEntry checks (d.ids.map Id.id) e ∧
      (d.ids.length ≤ idsMax → d'.ids.length ≤ idsMax) := by
  unfold assignEntry
  cases commonEntry_step ok with
  | from_ key read | type key read | ext key read =>
    rw [idEvent_none (by rw [key]; decide) (by rw [key]; decide)]
    exact ⟨rfl, id⟩
  | other keys =>
    rw [idEvent_none keys.2.1 keys.2.2.1]
    exact ⟨rfl, id⟩
  | seq key read =>
    obtain ⟨ids, length⟩ := parseSeq_ids read
    rw [idEvent_seq key]
    exact ⟨ids, fun room => by rw [length]; exact Nat.max_le.mpr ⟨by decide, room⟩⟩
  | id key read =>
    cases parseId_returns read with
    | one is_string text first =>
      obtain ⟨mid, first, rfl⟩ := first
      obtain ⟨ids, length⟩ := first_assigned first _
      rw [idEvent_one key is_string text]
      constructor
      · rw [ids]
        cases d.ids with
        | nil => rfl
        | cons id rest => rfl
      · intro room
        rw [length]
        exact Nat.max_le.mpr ⟨by decide, room⟩
    | many is_array array looped =>
      rw [idEvent_many key is_array array]
      exact idItems_returns looped

theorem commonEntry_from : d'.from_ = fromAfter checks d.from_ e := by
  unfold fromAfter
  cases commonEntry_step ok with
  | from_ key read => rw [if_pos key, parseBytes_string read]
  | id key read | seq key read | type key read | ext key read => rw [if_neg (by rw [key]; decide)]
  | other keys => rw [if_neg keys.1]

end

def routeStep (checks : Bool) (d : List Byte × List Id) (e : MapItem) : List Byte × List Id :=
  (fromAfter checks d.1 e, d.2 ++ (entryIds checks e).map bare)

theorem push_returns_iff {α : Type} {capacity : Nat} {scratch scratch' : List α} {a : α} :
    push capacity scratch a = .returns scratch' ↔
      scratch.length + 1 ≤ capacity ∧ scratch' = scratch ++ [a] := by
  unfold push
  split
  · rename_i room
    constructor
    · intro same
      cases same
      exact ⟨room, rfl⟩
    · intro both
      rw [both.2]
  · rename_i full
    constructor
    · intro same
      cases same
    · intro both
      exact absurd both.1 full

theorem routeIdItem_returns_iff {idm : SequenceItem} {id : Id}
    (good : GoodMap casts checks idm id) : routeIdItem checks scratch idm = .returns scratch' ↔
      scratch.length + 1 ≤ idsMax ∧ scratch' = scratch ++ [bare (mapId checks idm)] := by
  rw [routeIdItem_good good]
  split
  · rename_i full
    constructor
    · intro same
      cases same
    · intro both
      omega
  · exact push_returns_iff

theorem routeIdItems_returns_iff {ids : SequenceIterator} {before after : List Id}
    (accepted : forItems checks ids before (idItem casts checks) = .returns after)
    (room : scratch.length ≤ idsMax) :
    forItems checks ids scratch (routeIdItem checks) = .returns scratch' ↔
      scratch.length + ((itemsOf checks ids).map (mapId checks)).length ≤ idsMax ∧
        scratch' = scratch ++ ((itemsOf checks ids).map (mapId checks)).map bare := by
  obtain ⟨loops, folded⟩ := forItems_returns accepted
  have each : ∀ {s idm s'}, idm ∈ itemsOf checks ids → s.length ≤ idsMax →
      (routeIdItem checks s idm = .returns s' ↔
        s.length + 1 ≤ idsMax ∧ s' = s ++ [bare (mapId checks idm)]) := by
    intro s idm s' mem _
    obtain ⟨t, t', step⟩ := foldlM_each _ folded idm mem
    obtain ⟨id, good, _⟩ := idItem_returns step
    exact routeIdItem_returns_iff good
  rw [loops, foldlM_bounded List.length (fun _ => 1) (fun s idm => s ++ [bare (mapId checks idm)])
    (itemsOf checks ids) (fun s idm => List.length_append) each room, List.foldl_append_eq_append,
      ← List.flatMap_def, ← List.map_eq_flatMap, List.map_map,
    List.length_map, List.map_const', List.sum_replicate_nat, Nat.mul_one]
  rfl

/-- The routing parser goes on behind an entry that the full parser accepts as
    long as there is room for the ids in it. -/
theorem routeEntry_returns_iff {c c' : CommonData}
    (accepted : commonEntry casts checks c e = .returns c') {d d' : List Byte × List Id}
    (room : d.2.length ≤ idsMax) :
    routeEntry checks d e = .returns d' ↔
      d.2.length + (entryIds checks e).length ≤ idsMax ∧ d' = routeStep checks d e := by
  obtain ⟨from_, scratch⟩ := d
  unfold routeEntry routeStep entryIds fromAfter
  cases commonEntry_step accepted with
  | from_ key read =>
    rw [if_pos key, if_pos key, parseBytes_string read, read,
      idEvent_none (by rw [key]; decide) (by rw [key]; decide)]
    simp only [Option.map_none, Option.getD_none, List.map_nil, List.append_nil]
    exact returns_iff room
  | type key read | ext key read =>
    rw [if_neg (by rw [key]; decide), if_neg (by rw [key]; decide), if_neg (by rw [key]; decide),
      idEvent_none (by rw [key]; decide) (by rw [key]; decide)]
    simp only [Option.map_none, Option.getD_none, List.map_nil, List.append_nil]
    exact returns_iff room
  | other keys =>
    rw [if_neg keys.1, if_neg keys.2.1, if_neg keys.1, idEvent_none keys.2.1 keys.2.2.1]
    simp only [Option.map_none, Option.getD_none, List.map_nil, List.append_nil]
    exact returns_iff room
  | seq key read =>
    rw [if_neg (by rw [key]; decide), if_neg (by rw [key]; decide), if_neg (by rw [key]; decide),
      idEvent_seq key]
    simp only [Option.map_some, Option.getD_some, IdEvent.ids, List.map_nil, List.append_nil]
    exact returns_iff room
  | id key read =>
    rw [if_neg (by rw [key]; decide), if_pos key, if_neg (by rw [key]; decide)]
    unfold routeId
    cases parseId_returns read with
    | one is_string text first =>
      rw [idEvent_one key is_string text, is_string, text]
      exact bind_returns_iff (fun _ => push_returns_iff) (fun ids => (from_, ids))
    | many is_array array looped =>
      rw [idEvent_many key is_array array, is_array, array]
      exact bind_returns_iff (fun _ => routeIdItems_returns_iff looped room) (fun ids =>
        (from_, ids))

def idEvents (checks : Bool) (root : MapIterator) : List IdEvent :=
  (entriesOf checks root).filterMap (idEvent checks)

theorem assignEntry_foldl (as : List MapItem) (ids : List (List Byte)) :
    as.foldl (assignEntry checks) ids = (as.filterMap (idEvent checks)).foldl assign ids := by
  induction as generalizing ids with
  | nil => rfl
  | cons e as ih =>
    rw [List.foldl_cons, ih]
    unfold assignEntry
    cases event : idEvent checks e with
    | none => rw [List.filterMap_cons_none event]; rfl
    | some found => rw [List.filterMap_cons_some event]; rfl

theorem entryIds_flatMap (as : List MapItem) :
    as.flatMap (entryIds checks) = (as.filterMap (idEvent checks)).flatMap IdEvent.ids := by
  induction as with
  | nil => rfl
  | cons e as ih =>
    rw [List.flatMap_cons, ih]
    unfold entryIds
    cases event : idEvent checks e with
    | none => rw [List.filterMap_cons_none event]; rfl
    | some found => rw [List.filterMap_cons_some event]; rfl

theorem routeStep_foldl (as : List MapItem) (d : List Byte × List Id) :
    as.foldl (routeStep checks) d =
      (as.foldl (fromAfter checks) d.1, d.2 ++ (as.flatMap (entryIds checks)).map bare) := by
  induction as generalizing d with
  | nil => rw [List.flatMap_nil, List.map_nil, List.append_nil]; rfl
  | cons e as ih =>
    rw [List.foldl_cons, ih, List.foldl_cons, List.flatMap_cons, List.map_append,
      ← List.append_assoc]
    rfl

theorem CommonData.parse_spec {root : MapIterator}
    (ok : CommonData.parse casts checks root = .returns d) :
    d.from_ = (entriesOf checks root).foldl (fromAfter checks) [] ∧
      d.ids.map Id.id = (idEvents checks root).foldl assign [] ∧ d.ids.length ≤ idsMax := by
  obtain ⟨_, folded⟩ := forEntries_returns ok
  have from_ :=
    foldlM_view CommonData.from_ (fromAfter checks) _ (fun _ step => commonEntry_from step) folded
  have ids := foldlM_view (fun d => d.ids.map Id.id) (assignEntry checks) _ (fun _ step =>
    (commonEntry_ids step).1) folded
  rw [assignEntry_foldl] at ids
  exact ⟨from_, ids, foldlM_invariant (fun d => d.ids.length ≤ idsMax) (fun room step =>
    (commonEntry_ids step).2 room) _ (Nat.zero_le _) folded⟩

theorem parseIds_returns_iff {root : MapIterator}
    (accepted : CommonData.parse casts checks root = .returns d) {result : List Byte × List Id} :
    forEntries checks root ([], []) (routeEntry checks) = .returns result ↔
      ((idEvents checks root).flatMap IdEvent.ids).length ≤ idsMax ∧
        result = (d.from_, ((idEvents checks root).flatMap IdEvent.ids).map bare) := by
  obtain ⟨loops, folded⟩ := forEntries_returns accepted
  have each : ∀ {s e s'}, e ∈ entriesOf checks root → s.2.length ≤ idsMax →
    (routeEntry checks s e = .returns s' ↔
      s.2.length + (entryIds checks e).length ≤ idsMax ∧ s' = routeStep checks s e) := by
    intro s e s' mem room
    obtain ⟨t, t', step⟩ := foldlM_each _ folded e mem
    exact routeEntry_returns_iff step room
  have grows : ∀ s e,
      (routeStep checks s e).2.length = s.2.length + (entryIds checks e).length := by
    intro s e
    rw [routeStep, List.length_append, List.length_map]
  rw [loops, foldlM_bounded (fun s => s.2.length) (fun e => (entryIds checks e).length)
    (routeStep checks) _ grows each
    (Nat.zero_le _), routeStep_foldl, ← List.length_flatMap, entryIds_flatMap,
      (CommonData.parse_spec accepted).1,
    List.length_nil, Nat.zero_add, List.nil_append]
  rfl

def messageEvents (checks : Bool) (src : List Byte) : List IdEvent :=
  match parseRoot checks src with
  | .returns root => idEvents checks root
  | _ => []

def Packet.route {π : Type} (p : Packet π) : List Byte × List Id :=
  (p.from_, p.ids.map fun id => bare id.id)

theorem route_iff {π : Type} {ptype : MapIterator → Option PacketType → Parse π} {src : List Byte}
    {p : Packet π} (accepted : parsePacket casts checks ptype src = .returns p) :
    parseIds checks src = .returns p.route ↔ agree (messageEvents checks src) = true := by
  obtain ⟨root, read, rest⟩ := bind_returns accepted
  obtain ⟨common, parsed, rest⟩ := bind_returns rest
  obtain ⟨_, _, last⟩ := bind_returns rest
  cases last
  obtain ⟨_, ids, room⟩ := CommonData.parse_spec parsed
  have bare_ids : common.ids.map (fun id => bare id.id) = (common.ids.map Id.id).map bare := by
    rw [List.map_map]
    rfl
  unfold parseIds messageEvents Packet.route
  rw [read, returns_bind, parseIds_returns_iff parsed, ← assign_iff, ← ids, bare_ids]
  constructor
  · intro both
    exact List.map_injective_iff.mpr (fun a b same => congrArg Id.id same)
      (Prod.ext_iff.mp both.2).2
  · intro same
    rw [← same, List.length_map]
    exact ⟨room, rfl⟩

end
end PushpinZhttpPacket
