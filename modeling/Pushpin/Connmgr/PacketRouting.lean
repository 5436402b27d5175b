import Pushpin.Connmgr.PacketIds

namespace PushpinZhttpPacket
open PushpinRingBuffer PushpinTnetstring Text Outcome

section
variable {α β : Type}

def walkLoop (bad : List Byte → Bool)
    (front : List Byte → Except PushpinTnetstring.ParseError (α × Nat))
    (step : β → α → Outcome Unit β) : Nat → List Byte → β → Outcome Unit β
  | 0, _, b => .returns b
  | n + 1, src, b =>
    if src = [] then .returns b
    else if bad src then .panics
    else
      match front src with
      | .error _ => .fails ()
      | .ok (a, k) => step b a >>= walkLoop bad front step n (src.drop k)

end

def payloadOf (data : List Byte) : List Byte :=
  match parsePlain data with
  | .ok (frame, _) => frame.data
  | .error _ => []

def walkEntries {β : Type} (step : β → MapItem → Outcome Unit β) (data : List Byte) (b : β) :
    Outcome Unit β :=
  walkLoop entryOverflows mapFront step data.length data b

def walkItems {β : Type} (step : β → SequenceItem → Outcome Unit β) (data : List Byte) (b : β) :
    Outcome Unit β :=
  walkLoop overflows seqFront step data.length data b

def expect {β : Type} (ftype expected : FrameType) (b : β) : Outcome Unit β :=
  if ftype = expected then .returns b else .fails ()

def walkIdEntry (_ : Unit) (m : MapItem) : Outcome Unit Unit :=
  if m.key = ascii "id" then expect m.ftype .string () else .returns ()

def walkPush (count : Nat) : Outcome Unit Nat := if count < idsMax then .returns (count + 1)
    else .panics

def walkIdItem (count : Nat) (idm : SequenceItem) : Outcome Unit Nat :=
  if count = idsMax then .fails ()
  else do
    let data ← expect idm.ftype .map (payloadOf idm.data)
    walkEntries walkIdEntry data ()
    walkPush count

/-- A single id is taken without a look at the room that is left. -/
def walkEntry (count : Nat) (e : MapItem) : Outcome Unit Nat :=
  if e.key = ascii "from" then expect e.ftype .string count
  else if e.key = ascii "id" then
    match e.ftype with
    | .array => walkItems walkIdItem (payloadOf e.data) count
    | .string => walkPush count
    | _ => .fails ()
  else .returns count

def walkIds : List Byte → Outcome Unit Nat
  | 84 :: src =>
    if overflows src then .panics
    else
      match parsePlain src with
      | .error _ => .fails ()
      | .ok (frame, _) => do
        let data ← expect frame.ftype .map frame.data
        walkEntries walkEntry data 0
  | _ => .fails ()

structure Cut (ftype : FrameType) (data : List Byte) : Prop where
  plain : ∃ end_, parsePlain data = .ok (⟨ftype, payloadOf data⟩, end_)
  small : data.length < isizeEnd

variable {src : List Byte}

theorem plain_cut {frame : Frame} {end_ : Nat} (ok : parsePlain src = .ok (frame, end_))
    (small : src.length < isizeEnd) : Cut frame.ftype (src.take end_) := by
  obtain ⟨digits, typeByte, rest, placed⟩ := plain_placed ok
  have bytes : src = (digits ++ 58 :: (frame.data ++ [typeByte])) ++ rest := by
    rw [placed.bytes]
    simp
  have length : end_ = (digits ++ 58 :: (frame.data ++ [typeByte])).length := by
    rw [placed.ended]
    simp
    omega
  have front : src.take end_ = digits ++ 58 :: (frame.data ++ [typeByte]) := by
    rw [bytes, List.take_left' length.symm]
  have inside : Placed (src.take end_) frame end_ digits typeByte [] :=
    ⟨front, placed.sized, placed.typed, placed.ended⟩
  have cut_small : (src.take end_).length < isizeEnd :=
    Nat.lt_of_le_of_lt (List.length_take_le' _ _) small
  have data_small : frame.data.length < usizeEnd := by
    rw [front] at cut_small
    simp only [List.length_append, List.length_cons, isizeEnd] at cut_small
    rw [usizeEnd]
    omega
  have plain := placed_plain inside data_small
  refine ⟨⟨end_, ?_⟩, cut_small⟩
  rw [payloadOf, plain]

section
variable {ι α σ β : Type}
  {next : Bool → ι → Option (Option (Except PushpinTnetstring.ParseError α) × ι)} {front : List
  Byte → Except PushpinTnetstring.ParseError (α × Nat)} {bad : List Byte → Bool} {good : ι → Prop}
  {left : ι → List Byte} {body : Bool → σ → α → Parse σ} {walk : β → α → Outcome Unit β}
  {view : σ → β} {well : α → Prop}

theorem forEach_ended {c : Bool} (iterates : Iterates front bad (next c) good left) {it : ι}
    (fine : good it) (empty : left it = []) (calls : Nat) (s : σ) : forEach (next c) (body c)
    (calls + 1) it s = .returns s := by
  rw [forEach, iterates.ends fine empty]

theorem forEach_mirrors (consumes : Consumes front)
    (iterates : ∀ c, Iterates front bad (next c) good left) (panics : ∀ {it}, good it →
    left it ≠ [] → bad (left it) = true → next true it = none)
    (fronts : ∀ {src a k}, src.length < isizeEnd → front src = .ok (a, k) → well a)
    (steps : ∀ s a, well a → Mirrors true view (fun c => body c s a) (walk (view s) a)) (n : Nat)
    (it : Bool → ι)
    (fine : ∀ c, good (it c)) (src : List Byte) (here : ∀ c, left (it c) = src)
    (enough : src.length ≤ n)
    (small : src.length < isizeEnd) {calls : Nat} (more : n < calls) (s : σ) :
    Mirrors true view (fun c => forEach (next c) (body c) calls (it c) s)
      (walkLoop bad front walk n src (view s)) := by
  obtain ⟨calls, rfl⟩ := Nat.exists_eq_add_of_lt more
  clear more
  induction n generalizing it src s with
  | zero =>
    have empty : src = [] := List.length_eq_zero_iff.mp (by omega)
    exact ⟨s, rfl, fun c => forEach_ended (iterates c) (fine c) ((here c).trans empty) _ s⟩
  | succ n ih =>
    unfold walkLoop
    by_cases empty : src = []
    · rw [if_pos empty]
      exact ⟨s, rfl, fun c => forEach_ended (iterates c) (fine c) ((here c).trans empty) _ s⟩
    · rw [if_neg empty]
      have filled : ∀ c, left (it c) ≠ [] := fun c => by rw [here c]; exact empty
      by_cases large : bad src = true
      · rw [if_pos large]
        show forEach _ _ _ _ _ = _
        rw [forEach, panics (fine true) (filled true) (by rw [here]; exact large)]
      · rw [if_neg large]
        have fits : ∀ c, bad (left (it c)) = false :=
          fun c => by rw [here c]; exact Bool.of_not_eq_true large
        cases read : front src with
        | error e =>
          intro c
          obtain ⟨it', eq, _⟩ :=
            (iterates c).stops (fine c) (filled c) (fits c) (by rw [here c]; exact read)
          exact ⟨.tnetParse e, by simp only [forEach, eq]⟩
        | ok pair =>
          obtain ⟨a, k⟩ := pair
          have bounds := consumes read
          choose it' eq fine' rest using fun c =>
            (iterates c).reads (fine c) (filled c) (fits c) (by rw [here c]; exact read)
          have same : (fun c => forEach (next c) (body c) (n + 1 + calls + 1) (it c) s) =
              fun c => body c s a >>= forEach (next c) (body c) (n + calls + 1) (it' c) := by
            funext c
            rw [show n + 1 + calls + 1 = n + calls + 1 + 1 by omega, forEach, eq]
          rw [same]
          apply (steps s a (fronts small read)).bind
          intro t _
          have left' : ∀ c, left (it' c) = src.drop k := fun c => by rw [rest c, here c]
          have shorter : (src.drop k).length = src.length - k := List.length_drop
          exact ih it' fine' (src.drop k) left' (by omega) (by omega) t

end

theorem seqFront_cut {item : SequenceItem} {k : Nat} (small : src.length < isizeEnd)
    (read : seqFront src = .ok (item, k)) : Cut item.ftype item.data := by
  unfold seqFront at read
  cases plain : parsePlain src with
  | error e =>
    rw [plain] at read
    cases read
  | ok pair =>
    rw [plain] at read
    cases read
    exact plain_cut plain small

theorem mapFront_cut {item : MapItem} {k : Nat} (small : src.length < isizeEnd)
    (read : mapFront src = .ok (item, k)) : Cut item.ftype item.data := by
  unfold mapFront at read
  cases plain : parsePlain src with
  | error e =>
    rw [plain] at read
    cases read
  | ok pair =>
    obtain ⟨kframe, kend⟩ := pair
    rw [plain] at read
    simp only at read
    split at read
    · cases value : parsePlain (src.drop kend) with
      | error e =>
        rw [value] at read
        cases read
      | ok pair =>
        rw [value] at read
        cases read
        apply plain_cut value
        rw [List.length_drop]
        omega
    · cases read

section
variable {σ β : Type} {view : σ → β}

theorem forEntries_mirrors {body : Bool → σ → MapItem → Parse σ} {walk : β → MapItem →
    Outcome Unit β}
    (steps : ∀ s e, Cut e.ftype e.data → Mirrors true view (fun c => body c s e) (walk (view s) e))
    {data : List Byte} (small : data.length < isizeEnd) (s : σ) :
    Mirrors true view (fun c => forEntries c (MapIterator.new data) s (body c))
      (walkEntries walk data (view s)) :=
  forEach_mirrors mapFront_consumes map_iterates map_panics mapFront_cut steps data.length
    (fun _ => MapIterator.new data) (fun _ => ⟨Nat.zero_le _, small⟩) data (fun _ => rfl)
      (Nat.le_refl _) small (Nat.lt_add_of_pos_right (by decide)) s

theorem forItems_mirrors {body : Bool → σ → SequenceItem → Parse σ} {walk : β → SequenceItem →
    Outcome Unit β}
    (steps : ∀ s e, Cut e.ftype e.data → Mirrors true view (fun c => body c s e) (walk (view s) e))
    {data : List Byte} (small : data.length < isizeEnd) (s : σ) :
    Mirrors true view (fun c => forItems c (SequenceIterator.new data) s (body c))
      (walkItems walk data (view s)) :=
  forEach_mirrors seqFront_consumes sequence_iterates (fun _ => sequence_panics) seqFront_cut steps
    data.length
    (fun _ => SequenceIterator.new data) (fun _ => ⟨Nat.zero_le _, small⟩) data (fun _ => rfl)
      (Nat.le_refl _) small (Nat.lt_add_of_pos_right (by decide)) s

end

variable {ftype : FrameType} {data : List Byte}

theorem Cut.typed (cut : Cut ftype data) (checks : Bool) (expected : FrameType) :
    parseTyped checks expected data =
      some (if ftype = expected then .ok (payloadOf data)
        else .error (.wrongType ftype expected)) := by
  obtain ⟨⟨end_, plain⟩, small⟩ := cut
  rw [parseTyped_plain checks expected (plain_fits plain small), plain]

theorem Cut.payload_small (cut : Cut ftype data) : (payloadOf data).length < isizeEnd := by
  obtain ⟨end_, plain⟩ := cut.plain
  exact (data_small plain cut.small).small

theorem Cut.bytes_mirrors {β : Type} (cut : Cut ftype data) (field : String)
    (b : β) : Mirrors true (fun _ => b) (fun c => parseBytes c field data)
    (expect ftype .string b) := by
  simp only [parseBytes, parseString, cut.typed, expect]
  by_cases is_string : ftype = .string
  · simp only [if_pos is_string]
    exact ⟨payloadOf data, rfl, fun _ => rfl⟩
  · simp only [if_neg is_string]
    exact fun _ => ⟨.wrongType field .string, rfl⟩

theorem Cut.map (cut : Cut ftype data) (checks : Bool) :
    parseMap checks data =
      some (if ftype = .map then .ok (.new (payloadOf data))
        else .error (.wrongType ftype .map)) := by
  rw [parseMap, cut.typed]
  split <;> rfl

theorem Cut.array (cut : Cut .array data) (checks : Bool) :
    parseArray checks data = some (.ok (.new (payloadOf data))) := by
  rw [parseArray, cut.typed]
  rfl

theorem routeIdEntry_mirrors (id : List Byte) (m : MapItem) (cut : Cut m.ftype m.data) :
    Mirrors true (fun _ => ()) (fun c => routeIdEntry c id m) (walkIdEntry () m) := by
  unfold routeIdEntry walkIdEntry
  by_cases is_id : m.key = ascii "id"
  · simp only [if_pos is_id]
    exact cut.bytes_mirrors "id" ()
  · simp only [if_neg is_id]
    exact ⟨id, rfl, fun _ => rfl⟩

theorem push_mirrors (scratch : List Id) (id : Id) :
    Mirrors true List.length (fun _ => push idsMax scratch id) (walkPush scratch.length) := by
  unfold push walkPush
  by_cases room : scratch.length < idsMax
  · rw [if_pos room, if_pos room]
    exact ⟨scratch ++ [id], List.length_append, fun _ => rfl⟩
  · rw [if_neg room, if_neg room]
    exact rfl

theorem routeIdItem_mirrors (scratch : List Id) (idm : SequenceItem)
    (cut : Cut idm.ftype idm.data) :
    Mirrors true List.length (fun c => routeIdItem c scratch idm)
      (walkIdItem scratch.length idm) := by
  unfold routeIdItem walkIdItem
  by_cases full : scratch.length = idsMax
  · simp only [if_pos full]
    exact fun _ => ⟨.tooManyIds, rfl⟩
  · simp only [if_neg full]
    simp only [cut.map, expect]
    by_cases is_map : idm.ftype = .map
    · simp only [if_pos is_map, lift, returns_bind]
      apply (forEntries_mirrors routeIdEntry_mirrors cut.payload_small []).bind
      intro id _
      exact push_mirrors scratch ⟨id, none⟩
    · simp only [if_neg is_map]
      exact fun _ => ⟨.tnetParse (.wrongType idm.ftype .map), rfl⟩

theorem routeId_mirrors (e : MapItem) (cut : Cut e.ftype e.data) (scratch : List Id) :
    Mirrors true List.length (fun c => routeId c e scratch)
      (match e.ftype with
        | .array => walkItems walkIdItem (payloadOf e.data) scratch.length
        | .string => walkPush scratch.length
        | _ => .fails ()) := by
  obtain ⟨key, ftype, data⟩ := e
  cases ftype with
  | array =>
    simp only [routeId, cut.array, lift, returns_bind]
    exact forItems_mirrors routeIdItem_mirrors cut.payload_small scratch
  | string =>
    simp only [routeId, parseString, cut.typed, lift, returns_bind, if_true]
    exact push_mirrors scratch _
  | null | bool | int | float | map => exact fun _ => ⟨.notMapOrString "id", rfl⟩

theorem routeEntry_mirrors (d : List Byte × List Id) (e : MapItem) (cut : Cut e.ftype e.data) :
    Mirrors true (fun d => d.2.length) (fun c => routeEntry c d e) (walkEntry d.2.length e) := by
  unfold routeEntry walkEntry
  by_cases is_from : e.key = ascii "from"
  · simp only [if_pos is_from]
    exact (cut.bytes_mirrors "from" d.2.length).map fun _ => rfl
  · simp only [if_neg is_from]
    by_cases is_id : e.key = ascii "id"
    · simp only [if_pos is_id]
      exact (routeId_mirrors e cut d.2).map fun _ => rfl
    · simp only [if_neg is_id]
      exact ⟨d, rfl, fun _ => rfl⟩

theorem parseIds_mirrors (src : List Byte) (small : src.length < isizeEnd) :
    Mirrors true (fun d => d.2.length) (fun c => parseIds c src) (walkIds src) := by
  unfold parseIds walkIds
  split
  · rename_i src
    simp only [parseRoot]
    have inside : src.length < isizeEnd := Nat.lt_of_succ_lt small
    by_cases large : overflows src = true
    · rw [if_pos large]
      show (withField "root" (parseMap true src) >>= _) = _
      rw [parseMap, parseTyped, parseFrame_overflows large]
      rfl
    · rw [if_neg large]
      simp only [parseMap, parseTyped_plain _ .map (Bool.of_not_eq_true large)]
      cases plain : parsePlain src with
      | error e =>
        have failed : ∃ e', withField "root" (some (.error e : Except _ MapIterator)) =
            .fails e' := by
          cases e <;> exact ⟨_, rfl⟩
        obtain ⟨e', same⟩ := failed
        exact fun _ => ⟨e', congrArg (· >>= _) same⟩
      | ok pair =>
        obtain ⟨frame, end_⟩ := pair
        simp only [expect]
        by_cases is_map : frame.ftype = .map
        · simp only [if_pos is_map]
          exact forEntries_mirrors routeEntry_mirrors (data_small plain inside).small ([], [])
        · simp only [if_neg is_map]
          exact fun _ => ⟨.wrongType "root" .map, rfl⟩
  · rename_i other
    have refused : ∀ c, parseRoot c src = .fails .unrecognized := by
      intro c
      unfold parseRoot
      split
      · exact absurd rfl (other _)
      · rfl
    simp only [refused]
    exact fun _ => ⟨.unrecognized, rfl⟩

theorem parseIds_panics (small : src.length < isizeEnd) (walked : walkIds src = .panics) :
    parseIds true src = .panics :=
  (parseIds_mirrors src small).strict_panics walked

/-- The routing parser agrees with the full one exactly when the entries about ids
    do, and it panics in no build exactly when every announced end fits a `usize`
    and every single id finds room. -/
theorem routing_parser_agrees_iff (src : List Byte) (small : src.length < isizeEnd) :
    ((∀ checks, parseIds checks src ≠ .panics) ↔ walkIds src ≠ .panics) ∧
    (∀ checks request, Request.parse checks src = .returns request →
      (parseIds checks src = .returns request.route ↔ agree (messageEvents checks src) = true)) ∧
    (∀ checks response, Response.parse checks src = .returns response →
      (parseIds checks src = .returns response.route ↔
      agree (messageEvents checks src) = true)) := by
  refine ⟨(parseIds_mirrors src small).panic_iff, ?_, ?_⟩
  · intro checks request accepted
    exact route_iff accepted
  · intro checks response accepted
    exact route_iff accepted

def plainMessage : List Byte := ascii "T30:4:from,1:c,2:id,1:1,3:seq,1:0#\x7d"

def plainPacket {π : Type} (ptype : π) : Packet π :=
  ⟨ascii "c", [⟨ascii "1", some 0⟩], false, ptype, .empty⟩

theorem plain_message_is_routed :
    (∀ checks, parseIds checks plainMessage ≠ .panics) ∧
      parseIds true plainMessage = .returns
        (plainPacket (RequestPacket.data RequestData.new)).route ∧
      parseIds true plainMessage = .returns
        (plainPacket (ResponsePacket.data ResponseData.new)).route :=
  ⟨(routing_parser_agrees_iff plainMessage (by decide +kernel)).1.mpr (by decide +kernel),
    ((routing_parser_agrees_iff plainMessage (by decide +kernel)).2.1 true _
      (by decide +kernel)).mpr (by decide +kernel),
    ((routing_parser_agrees_iff plainMessage (by decide +kernel)).2.2 true _
      (by decide +kernel)).mpr (by decide +kernel)⟩

def twoIds : List Byte := ascii "T18:2:id,1:a,2:id,1:b,\x7d"

def manyIds : List Byte :=
  ascii "T1161:" ++ (List.replicate 129 (ascii "2:id,1:a,")).flatten ++ ascii "\x7d"

def lastIdRequest (id : String) : Request :=
  ⟨[], [⟨ascii id, none⟩], false, .data RequestData.new, .empty⟩

theorem single_ids_are_appended :
    (Request.parse true twoIds = .returns (lastIdRequest "b") ∧
      parseIds true twoIds = .returns ([], [⟨ascii "a", none⟩, ⟨ascii "b", none⟩])) ∧
    parseIds true manyIds = .panics ∧
    ¬ ∀ src : List Byte, src.length < isizeEnd →
      (∀ checks, parseIds checks src ≠ .panics) ∧
      ∀ checks request, Request.parse checks src = .returns request →
        parseIds checks src = .returns request.route := by
  have accepted : Request.parse true twoIds = .returns (lastIdRequest "b") := by decide +kernel
  have both : parseIds true twoIds = .returns ([], [⟨ascii "a", none⟩, ⟨ascii "b", none⟩]) := by
    decide +kernel
  have walked : walkIds manyIds = .panics := by decide +kernel
  have full : parseIds true manyIds = .panics := parseIds_panics (by decide +kernel) walked
  refine ⟨⟨accepted, both⟩, full, ?_⟩
  intro agrees
  have same := (agrees twoIds (by decide +kernel)).2 true _ accepted
  rw [both] at same
  exact absurd same (by decide +kernel)

end PushpinZhttpPacket
