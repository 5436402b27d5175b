import Pushpin.Core.WsControlPacket

/-!
`RetryRequestPacket`, and what of it and of a `WsControlPacket` comes back from the
encoding. The entries of a hash from byte arrays to byte arrays are in the order of its
iteration.
-/
namespace PushpinPackets
open PushpinRingBuffer PushpinTnetstring PushpinTnetCodec Text

structure Request (qt : Qt) where
  rid : List Byte × List Byte
  https : Bool := false
  peerAddress : qt.Address := qt.noAddress
  debug : Bool := false
  autoCrossOrigin : Bool := false
  jsonpCallback : List Byte := []
  jsonpExtendedResponse : Bool := false
  unreportedTime : Int32 := -1
  inSeq : Int32 := -1
  outSeq : Int32 := -1
  outCredits : Int32 := -1
  routerResp : Bool := false
  userData : Value := .null

structure HttpRequestData (qt : Qt) where
  method : List Byte
  uri : qt.Url
  headers : List (List Byte × List Byte)
  body : List Byte

structure InspectInfo where
  doProxy : Bool := false
  sharingKey : List Byte := []
  sid : List Byte := []
  lastIds : List (List Byte × List Byte) := []
  userData : Value := .null

structure RetryRequestPacket (qt : Qt) where
  requests : List (Request qt)
  requestData : HttpRequestData qt
  inspectInfo : Option InspectInfo
  route : List Byte
  retrySeq : Int32

def someValue : Value → Option Value
  | .null => none
  | value => some value

def fromLatin1 (b : List Byte) : List Byte :=
  b.flatMap fun c => if c < 0x80 then [c] else [(0xc0 : Byte) ||| (c >>> 6),
    (0x80 : Byte) ||| (c &&& 0x3f)]

section
variable (qt : Qt)

def ridFields (rid : List Byte × List Byte) : List (List Byte × Option Value) :=
  [(ascii "sender", some (.byteArray rid.1)), (ascii "id", some (.byteArray rid.2))]

def Request.fields (r : Request qt) : List (List Byte × Option Value) :=
  [(ascii "rid", some (hashOf qt (ridFields r.rid))),
   (ascii "https", someBool r.https),
   (ascii "peer-address",
     if qt.addressIsNull r.peerAddress then none
       else some (.byteArray (qt.addressText r.peerAddress))),
   (ascii "debug", someBool r.debug),
   (ascii "auto-cross-origin", someBool r.autoCrossOrigin),
   (ascii "jsonp-callback", someBytes r.jsonpCallback),
   (ascii "jsonp-extended-response", someBool r.jsonpExtendedResponse),
   (ascii "unreported-time", if 0 < r.unreportedTime.toInt then
     some (.int (isizeOf r.unreportedTime)) else none),
   (ascii "in-seq", some (.int (isizeOf r.inSeq))),
   (ascii "out-seq", some (.int (isizeOf r.outSeq))),
   (ascii "out-credits", some (.int (isizeOf r.outCredits))),
   (ascii "router-resp", someBool r.routerResp),
   (ascii "user-data", someValue r.userData)]

def headerValue (h : List Byte × List Byte) : Value := .list [.byteArray h.1, .byteArray h.2]

def HttpRequestData.fields (data : HttpRequestData qt) : List (List Byte × Option Value) :=
  [(ascii "method", some (.byteArray data.method)),
   (ascii "uri", some (.byteArray (qt.toEncoded data.uri))),
   (ascii "headers", some (.list (data.headers.map headerValue))),
   (ascii "body", some (.byteArray data.body))]

/-- The names of the channels become texts, and a text that is there already is replaced. -/
def lastIdEntries (lastIds : List (List Byte × List Byte)) : List (List Byte × Value) :=
  lastIds.foldl (fun out id => assign (qt.fromUtf8 id.1) (.byteArray id.2) out) []

def InspectInfo.fields (info : InspectInfo) : List (List Byte × Option Value) :=
  [(ascii "no-proxy", some (.bool !info.doProxy)),
   (ascii "sharing-key", someBytes info.sharingKey),
   (ascii "sid", someBytes info.sid),
   (ascii "last-ids",
     if info.lastIds = [] then none else some (.hash (qt.order (lastIdEntries qt info.lastIds)))),
   (ascii "user-data", someValue info.userData)]

def RetryRequestPacket.fields (p : RetryRequestPacket qt) : List (List Byte × Option Value) :=
  [(ascii "requests", some (.list (p.requests.map fun r => hashOf qt (r.fields qt)))),
   (ascii "request-data", some (hashOf qt (p.requestData.fields qt))),
   (ascii "inspect", p.inspectInfo.map fun info => hashOf qt (info.fields qt)),
   (ascii "route", someBytes p.route),
   (ascii "retry-seq", someInt p.retrySeq)]

def RetryRequestPacket.toVariant (p : RetryRequestPacket qt) : Value := hashOf qt (p.fields qt)

def ridOf (v : Value) : Option (List Byte × List Byte) := do
  let .hash vrid := v | none
  return (← bytesField vrid (ascii "sender"), ← bytesField vrid (ascii "id"))

section
variable (obj : List (List Byte × Value)) (name : List Byte)

def addressFieldOr : Option qt.Address :=
  match lookup obj name with
  | none => some qt.noAddress
  | some (.byteArray b) => some (qt.parseAddress b)
  | some _ => none

end

/-- The extended response is looked for only next to a callback. -/
def jsonpOf (vrequest : List (List Byte × Value)) : Option (List Byte × Bool) :=
  match lookup vrequest (ascii "jsonp-callback") with
  | none => some ([], false)
  | some (.byteArray b) =>
    (boolFieldOr vrequest (ascii "jsonp-extended-response") false).map fun extended => (b, extended)
  | some _ => none

def Request.fromVariant (v : Value) : Option (Request qt) := do
  let .hash vrequest := v | none
  let rid ← ridOf (← lookup vrequest (ascii "rid"))
  let https ← boolFieldOr vrequest (ascii "https") false
  let peerAddress ← addressFieldOr qt vrequest (ascii "peer-address")
  let debug ← boolFieldOr vrequest (ascii "debug") false
  let autoCrossOrigin ← boolFieldOr vrequest (ascii "auto-cross-origin") false
  let jsonp ← jsonpOf vrequest
  let unreportedTime ← intFieldOr vrequest (ascii "unreported-time") qt.doubleInt (-1)
  let inSeq ← intField vrequest (ascii "in-seq") qt.doubleInt
  let outSeq ← intField vrequest (ascii "out-seq") qt.doubleInt
  let outCredits ← intField vrequest (ascii "out-credits") qt.doubleInt
  let routerResp ← boolFieldOr vrequest (ascii "router-resp") false
  let userData := (lookup vrequest (ascii "user-data")).getD .null
  return ⟨rid, https, peerAddress, debug, autoCrossOrigin, jsonp.1, jsonp.2, unreportedTime, inSeq,
    outSeq, outCredits, routerResp, userData⟩

def headerOf : Value → Option (List Byte × List Byte)
  | .list [.byteArray name, .byteArray value] => some (name, value)
  | _ => none

def headersOf (vrequestData : List (List Byte × Value)) : Option (List (List Byte × List Byte)) :=
  match lookup vrequestData (ascii "headers") with
  | none => some []
  | some (.list items) => items.mapM headerOf
  | some _ => none

def HttpRequestData.fromVariant (v : Value) : Option (HttpRequestData qt) := do
  let .hash vrequestData := v | none
  let method ← bytesField vrequestData (ascii "method")
  let uri ← bytesField vrequestData (ascii "uri")
  let headers ← headersOf vrequestData
  let body ← bytesField vrequestData (ascii "body")
  return ⟨fromLatin1 method, qt.fromEncoded uri, headers, body⟩

def lastIdsOf (vinspect : List (List Byte × Value)) : Option (List (List Byte × List Byte)) :=
  match lookup vinspect (ascii "last-ids") with
  | none => some []
  | some (.hash entries) => entries.foldlM (fun out entry =>
      match entry.2 with
      | .byteArray id => some (assign entry.1 id out)
      | _ => none) []
  | some _ => none

def InspectInfo.fromVariant (v : Value) : Option InspectInfo := do
  let .hash vinspect := v | none
  let .bool noProxy ← lookup vinspect (ascii "no-proxy") | none
  let sharingKey ← bytesFieldOr vinspect (ascii "sharing-key") []
  let sid ← bytesFieldOr vinspect (ascii "sid") []
  let lastIds ← lastIdsOf vinspect
  return ⟨!noProxy, sharingKey, sid, lastIds, (lookup vinspect (ascii "user-data")).getD .null⟩

def inspectOf (obj : List (List Byte × Value)) : Option (Option InspectInfo) :=
  match lookup obj (ascii "inspect") with
  | none => some none
  | some v => (InspectInfo.fromVariant v).map some

def RetryRequestPacket.fromVariant (v : Value) : Option (RetryRequestPacket qt) := do
  let .hash obj := v | none
  let .list vrequests ← lookup obj (ascii "requests") | none
  let requests ← vrequests.mapM (Request.fromVariant qt)
  let requestData ← HttpRequestData.fromVariant qt (← lookup obj (ascii "request-data"))
  let inspectInfo ← inspectOf obj
  let route ← bytesFieldOr obj (ascii "route") []
  let retrySeq ← intFieldOr obj (ascii "retry-seq") qt.doubleInt (-1)
  return ⟨requests, requestData, inspectInfo, route, retrySeq⟩

end

def Request.settled {qt : Qt} (r : Request qt) : Request qt :=
  { r with
    jsonpExtendedResponse := r.jsonpExtendedResponse && !r.jsonpCallback.isEmpty
    unreportedTime := if 0 < r.unreportedTime.toInt then r.unreportedTime else -1 }

section
variable {obj : List (List Byte × Value)} {name : List Byte}

theorem intField_some {n : Int32} (found : lookup obj name = some (.int (isizeOf n)))
    (doubleInt : UInt64 → Int32) : intField obj name doubleInt = some n := by
  rw [intField, found]
  exact congrArg some (toInt_isizeOf doubleInt n)

theorem positiveField_some {n : Int32}
    (found : lookup obj name = if 0 < n.toInt then some (.int (isizeOf n)) else none)
    (doubleInt : UInt64 → Int32) :
    intFieldOr obj name doubleInt (-1) = some (if 0 < n.toInt then n else -1) := by
  unfold intFieldOr
  rw [found]
  by_cases positive : 0 < n.toInt
  · rw [if_pos positive, if_pos positive]
    exact congrArg some (toInt_isizeOf doubleInt n)
  · rw [if_neg positive, if_neg positive]

theorem valueField_some {v : Value} (found : lookup obj name = someValue v) :
    (lookup obj name).getD .null = v := by
  rw [found]
  cases v <;> rfl

theorem addressFieldOr_some {qt : Qt} (lawful : qt.Lawful) {address : qt.Address}
    (found : lookup obj name =
      if qt.addressIsNull address then none else some (.byteArray (qt.addressText address))) :
    addressFieldOr qt obj name = some address := by
  unfold addressFieldOr
  rw [found]
  cases null : qt.addressIsNull address with
  | true => exact congrArg some (lawful.noAddress _ null).symm
  | false => exact congrArg some (lawful.address _)

theorem jsonpOf_some {callback : List Byte} {extended : Bool}
    (found : lookup obj (ascii "jsonp-callback") = someBytes callback)
    (found' : lookup obj (ascii "jsonp-extended-response") = someBool extended) :
    jsonpOf obj = some (callback, extended && !callback.isEmpty) := by
  unfold jsonpOf
  rw [found, boolFieldOr_some found']
  cases callback with
  | nil => simp [someBytes]
  | cons c callback => simp [someBytes]

end

section
variable {qt : Qt} (lawful : qt.Lawful)
include lawful

theorem rid_recovered (rid : List Byte × List Byte) :
    ridOf (hashOf qt (ridFields rid)) = some rid := by
  have names : ((ridFields rid).map Prod.fst).Nodup :=
    (by decide : [ascii "sender", ascii "id"].Nodup)
  have sender := lookup_field lawful names
    (by simp [ridFields] : (ascii "sender", some (Value.byteArray rid.1)) ∈ _)
  have id := lookup_field lawful names
    (by simp [ridFields] : (ascii "id", some (Value.byteArray rid.2)) ∈ _)
  simp only [ridOf, hashOf, bytesField_some sender, bytesField_some id, Option.bind_eq_bind,
    Option.bind_some, Option.pure_def]

def requestNames : List (List Byte) :=
  [ascii "rid", ascii "https", ascii "peer-address", ascii "debug", ascii "auto-cross-origin",
    ascii "jsonp-callback",
    ascii "jsonp-extended-response", ascii "unreported-time", ascii "in-seq", ascii "out-seq",
      ascii "out-credits",
    ascii "router-resp", ascii "user-data"]

omit lawful in
theorem requestNames_fine : requestNames.Nodup ∧ requestNames.all isPlain = true :=
  ⟨by decide +kernel, all_isPlain rfl⟩

theorem request_recovered (r : Request qt) :
    Request.fromVariant qt (hashOf qt (r.fields qt)) = some r.settled := by
  have names : ((r.fields qt).map Prod.fst).Nodup := requestNames_fine.1
  have found : ∀ {name value}, (name, value) ∈ r.fields qt →
      lookup (qt.order (present (r.fields qt))) name = value :=
        fun mem => lookup_field lawful names mem
  have rid := found
    (by simp [Request.fields] : (ascii "rid", some (hashOf qt (ridFields r.rid))) ∈ _)
  have address :=
    addressFieldOr_some lawful (found (by simp [Request.fields] : (ascii "peer-address",
      if qt.addressIsNull r.peerAddress then none
        else some (Value.byteArray (qt.addressText r.peerAddress))) ∈ _))
  have jsonp := jsonpOf_some
    (found (by simp [Request.fields] : (ascii "jsonp-callback", someBytes r.jsonpCallback) ∈ _))
    (found (by simp [Request.fields] : (ascii "jsonp-extended-response",
      someBool r.jsonpExtendedResponse) ∈ _))
  have unreported := positiveField_some (found (by simp [Request.fields] : (ascii "unreported-time",
    if 0 < r.unreportedTime.toInt then some (Value.int (isizeOf r.unreportedTime)) else none) ∈ _))
      qt.doubleInt
  have inSeq := intField_some
    (found (by simp [Request.fields] : (ascii "in-seq", some (Value.int (isizeOf r.inSeq))) ∈ _))
      qt.doubleInt
  have outSeq := intField_some
    (found (by simp [Request.fields] : (ascii "out-seq", some (Value.int (isizeOf r.outSeq))) ∈ _))
      qt.doubleInt
  have outCredits := intField_some
    (found (by simp [Request.fields] : (ascii "out-credits",
      some (Value.int (isizeOf r.outCredits))) ∈ _)) qt.doubleInt
  have userData := valueField_some
    (found (by simp [Request.fields] : (ascii "user-data", someValue r.userData) ∈ _))
  rw [show hashOf qt (r.fields qt) = .hash (qt.order (present (r.fields qt))) from rfl]
  simp only [Request.fromVariant, Option.bind_eq_bind, Option.pure_def, rid, rid_recovered lawful,
    Option.bind_some, boolFieldOr_some
      (found (by simp [Request.fields] : (ascii "https", someBool r.https) ∈ _)), address,
    boolFieldOr_some (found (by simp [Request.fields] : (ascii "debug", someBool r.debug) ∈ _)),
    boolFieldOr_some (found
      (by simp [Request.fields] : (ascii "auto-cross-origin", someBool r.autoCrossOrigin) ∈ _)),
    jsonp, unreported, inSeq, outSeq, outCredits,
    boolFieldOr_some (found
      (by simp [Request.fields] : (ascii "router-resp", someBool r.routerResp) ∈ _)), userData,
    Request.settled]

end

def Value.bytes : Value → List Byte
  | .byteArray b => b
  | _ => []

def readEntries (qt : Qt) (lastIds : List (List Byte × List Byte)) : List (List Byte × Value) :=
  entriesReread qt.fromUtf8 (qt.order (lastIdEntries qt lastIds)) []

/-- What comes back of the last ids, in the order of the hash that carries them. -/
def InspectInfo.settled (qt : Qt) (info : InspectInfo) : InspectInfo :=
  { info with
    lastIds := if info.lastIds = [] then []
      else (readEntries qt info.lastIds).map fun entry => (entry.1, Value.bytes entry.2) }

theorem fromLatin1_ascii {b : List Byte} (ascii : ∀ c ∈ b, c < 0x80) : fromLatin1 b = b := by
  induction b with
  | nil => rfl
  | cons c b ih =>
    obtain ⟨here, later⟩ := List.forall_mem_cons.mp ascii
    rw [fromLatin1, List.flatMap_cons, if_pos here]
    exact congrArg (c :: ·) (ih later)

theorem lastIdEntries_eq (qt : Qt) (lastIds : List (List Byte × List Byte)) :
    lastIdEntries qt lastIds = entriesReread qt.fromUtf8 (lastIds.map fun id =>
      (id.1, .byteArray id.2)) [] := by
  have all : ∀ (lastIds : List (List Byte × List Byte)) (out : List (List Byte × Value)),
      lastIds.foldl (fun out id => assign (qt.fromUtf8 id.1) (.byteArray id.2) out) out =
        entriesReread qt.fromUtf8 (lastIds.map fun id => (id.1, .byteArray id.2)) out := by
    intro lastIds
    induction lastIds with
    | nil => exact fun out => rfl
    | cons id lastIds ih => exact fun out => ih _
  exact all lastIds []

theorem lastIdEntries_mem {qt : Qt} {lastIds : List (List Byte × List Byte)}
    {entry : List Byte × Value} (mem : entry ∈ lastIdEntries qt lastIds) :
    ∃ id ∈ lastIds, entry = (qt.fromUtf8 id.1, .byteArray id.2) := by
  rw [lastIdEntries_eq] at mem
  rcases entriesReread_mem mem with none | ⟨_, there, rfl⟩
  · cases none
  · obtain ⟨id, held, rfl⟩ := List.mem_map.mp there
    exact ⟨id, held, rfl⟩

theorem lastIdEntries_nodup (qt : Qt) (lastIds : List (List Byte × List Byte)) :
    ((lastIdEntries qt lastIds).map Prod.fst).Nodup := by
  rw [lastIdEntries_eq]
  exact entriesReread_nodup _ List.nodup_nil

section
variable {qt : Qt} (lawful : qt.Lawful) {lastIds : List (List Byte × List Byte)}
include lawful

theorem readEntries_mem {entry : List Byte × Value} (mem : entry ∈ readEntries qt lastIds) :
    ∃ id ∈ lastIds, entry = (qt.fromUtf8 (qt.fromUtf8 id.1), .byteArray id.2) := by
  rcases entriesReread_mem mem with none | ⟨_, there, rfl⟩
  · cases none
  · obtain ⟨id, held, rfl⟩ := lastIdEntries_mem ((lawful.order _).mem_iff.mp there)
    exact ⟨id, held, rfl⟩

theorem readEntries_plain (distinct : (lastIds.map Prod.fst).Nodup)
    (plain : ∀ id ∈ lastIds, isPlain id.1 = true) :
    (readEntries qt lastIds).Perm (lastIds.map fun id => (id.1, .byteArray id.2)) := by
  have written : lastIdEntries qt lastIds = lastIds.map fun id => (id.1, .byteArray id.2) := by
    rw [lastIdEntries_eq, entriesReread_new, List.nil_append, List.map_map]
    · rfl
    · intro entry mem
      obtain ⟨id, held, rfl⟩ := List.mem_map.mp mem
      exact lawful.utf8 _ (plain id held)
    · simpa [Function.comp_def] using distinct
  have perm := lawful.order (lastIds.map fun id => (id.1, Value.byteArray id.2))
  rw [readEntries, written, entriesReread_new, List.nil_append]
  · refine (perm.map _).trans (List.Perm.of_eq ?_)
    rw [List.map_map]
    rfl
  · intro entry mem
    obtain ⟨id, held, rfl⟩ := List.mem_map.mp (perm.mem_iff.mp mem)
    exact lawful.utf8 _ (plain id held)
  · have names := (perm.map Prod.fst).nodup_iff.mpr (by simpa [Function.comp_def] using distinct)
    simpa using names

end

theorem lastIds_insert (entries : List (List Byte × Value)) (out : List (List Byte × List Byte))
    (distinct : (out.map Prod.fst ++ entries.map Prod.fst).Nodup)
    (bytes : ∀ entry ∈ entries, ∃ b, entry.2 = .byteArray b) :
    entries.foldlM (fun out entry =>
      match entry.2 with
      | .byteArray id => some (assign entry.1 id out)
      | _ => none) out = some (out ++ entries.map fun entry => (entry.1, Value.bytes entry.2)) := by
  induction entries generalizing out with
  | nil => simp
  | cons entry entries ih =>
    obtain ⟨key, value⟩ := entry
    obtain ⟨⟨b, rfl⟩, later⟩ := List.forall_mem_cons.mp bytes
    have new : key ∉ out.map Prod.fst := by
      intro mem
      rw [List.nodup_append] at distinct
      exact distinct.2.2 key mem key List.mem_cons_self rfl
    rw [List.foldlM_cons]
    simp only [Option.bind_eq_bind, Option.bind_some, assign_new _ new]
    rw [ih (out ++ [(key, b)]) (by simpa using distinct) later]
    simp [Value.bytes]

section
variable {qt : Qt} (lawful : qt.Lawful)
include lawful

theorem lastIds_recovered {obj : List (List Byte × Value)} {lastIds : List (List Byte × List Byte)}
    (found : lookup obj (ascii "last-ids") =
      if lastIds = [] then none else some (.hash (readEntries qt lastIds))) :
    lastIdsOf obj = some (if lastIds = [] then []
      else (readEntries qt lastIds).map fun entry => (entry.1, Value.bytes entry.2)) := by
  unfold lastIdsOf
  rw [found]
  by_cases none : lastIds = []
  · rw [if_pos none, if_pos none]
  · rw [if_neg none, if_neg none]
    have distinct : ((readEntries qt lastIds).map Prod.fst).Nodup :=
      entriesReread_nodup _ List.nodup_nil
    have inserted := lastIds_insert (readEntries qt lastIds) [] (by simpa using distinct) (by
      intro entry mem
      obtain ⟨id, _, rfl⟩ := readEntries_mem lawful mem
      exact ⟨id.2, rfl⟩)
    simpa using inserted

section
variable {fields : List (List Byte × Option Value)} (names : (fields.map Prod.fst).Nodup)
include names

theorem lookup_reread {name : List Byte} {value : Option Value}
    (mem : (name, value) ∈ fields) :
    lookup ((qt.order (present fields)).map fun entry => (entry.1, reread qt.fromUtf8 entry.2))
      name = value.map (reread qt.fromUtf8) := by
  have names' : ((fields.map fun field => (field.1, field.2.map (reread qt.fromUtf8))).map
      Prod.fst).Nodup := by
    simpa [Function.comp_def] using names
  refine lookup_present names' ?_ (List.mem_map.mpr ⟨_, mem, rfl⟩)
  rw [present_map]
  exact (lawful.order _).map _

theorem lookup_kept {name : List Byte} {value : Option Value} (mem : (name, value) ∈ fields)
    (carried : ∀ v, value = some v → Carried isPlain v) :
    lookup ((qt.order (present fields)).map fun entry => (entry.1, reread qt.fromUtf8 entry.2))
      name = value := by
  rw [lookup_reread lawful names mem]
  cases value with
  | none => rfl
  | some v => exact congrArg some (carried_kept lawful.utf8 (carried v rfl))

theorem reread_hashOf (plain : (fields.map Prod.fst).all isPlain = true) :
    reread qt.fromUtf8 (hashOf qt fields) =
      .hash ((qt.order (present fields)).map fun entry =>
        (entry.1, reread qt.fromUtf8 entry.2)) := by
  have perm := lawful.order (present fields)
  refine reread_hash (fun entry mem => ?_) ?_
  · have there := mem_present.mp (perm.mem_iff.mp mem)
    exact lawful.utf8 _ (List.all_eq_true.mp plain entry.1 (List.mem_map_of_mem there))
  · exact (perm.map Prod.fst).nodup_iff.mpr (names.sublist (present_names fields))

end

def inspectNames : List (List Byte) :=
  [ascii "no-proxy", ascii "sharing-key", ascii "sid", ascii "last-ids", ascii "user-data"]

omit lawful in
theorem inspectNames_fine : inspectNames.Nodup ∧ inspectNames.all isPlain = true :=
  ⟨by decide, all_isPlain rfl⟩

omit lawful in
theorem carried_value {ok : List Byte → Bool} {v value : Value} (carried : Carried ok v)
    (some_ : someValue v = some value) : Carried ok value := by
  cases v <;> simp only [someValue, Option.some.injEq, reduceCtorEq] at some_ <;> exact some_ ▸
    carried

theorem inspectInfo_recovered {info : InspectInfo} (carried : Carried isPlain info.userData) :
    InspectInfo.fromVariant (reread qt.fromUtf8 (hashOf qt (info.fields qt))) =
      some (info.settled qt) := by
  have names : ((info.fields qt).map Prod.fst).Nodup := inspectNames_fine.1
  have kept := fun {name value} => @lookup_kept _ lawful _ names name value
  have noProxy := kept
    (by simp [InspectInfo.fields] : (ascii "no-proxy", some (Value.bool !info.doProxy)) ∈
      info.fields qt)
    (by rintro _ ⟨⟩; exact ⟨.bool !info.doProxy, rfl, rfl, trivial⟩)
  have lastIds :=
    lastIds_recovered lawful ((lookup_reread lawful names (by simp [InspectInfo.fields] :
      (ascii "last-ids", if info.lastIds = [] then none
        else some (Value.hash (qt.order (lastIdEntries qt info.lastIds)))) ∈ info.fields qt)).trans
          (apply_ite (Option.map (reread qt.fromUtf8)) _ _ _))
  have userData := valueField_some (kept
    (by simp [InspectInfo.fields] : (ascii "user-data", someValue info.userData) ∈ info.fields qt)
    fun _ here => carried_value carried here)
  rw [reread_hashOf lawful names inspectNames_fine.2]
  simp only [InspectInfo.fromVariant, Option.bind_eq_bind, Option.pure_def, noProxy,
    Option.bind_some, bytesFieldOr_some (kept
      (by simp [InspectInfo.fields] : (ascii "sharing-key", someBytes info.sharingKey) ∈
        info.fields qt)
      fun _ => carried_bytes),
    bytesFieldOr_some
      (kept (by simp [InspectInfo.fields] : (ascii "sid", someBytes info.sid) ∈ info.fields qt)
      fun _ => carried_bytes), lastIds, userData, Bool.not_not, InspectInfo.settled]

def dataNames : List (List Byte) := [ascii "method", ascii "uri", ascii "headers", ascii "body"]

omit lawful in
theorem dataNames_fine : dataNames.Nodup ∧ dataNames.all isPlain = true :=
  ⟨by decide, all_isPlain rfl⟩

theorem requestData_recovered {data : HttpRequestData qt} (method : ∀ c ∈ data.method, c < 0x80) :
    HttpRequestData.fromVariant qt (hashOf qt (data.fields qt)) = some data := by
  have names : ((data.fields qt).map Prod.fst).Nodup := dataNames_fine.1
  have found : ∀ {name value}, (name, value) ∈ data.fields qt →
      lookup (qt.order (present (data.fields qt))) name = value :=
        fun mem => lookup_field lawful names mem
  have headers := found
    (by simp [HttpRequestData.fields] : (ascii "headers",
      some (Value.list (data.headers.map headerValue))) ∈ _)
  have each : (data.headers.map headerValue).mapM headerOf = some data.headers :=
    mapM_recovered fun h _ => rfl
  have headers' : headersOf (qt.order (present (data.fields qt))) = some data.headers := by
    rw [headersOf, headers]
    exact each
  rw [show hashOf qt (data.fields qt) = .hash (qt.order (present (data.fields qt))) from rfl]
  simp only [HttpRequestData.fromVariant, Option.bind_eq_bind, Option.pure_def, Option.bind_some,
    headers', bytesField_some
      (found (by simp [HttpRequestData.fields] : (ascii "method",
        some (Value.byteArray data.method)) ∈ _)),
    bytesField_some
      (found (by simp [HttpRequestData.fields] : (ascii "uri",
        some (Value.byteArray (qt.toEncoded data.uri))) ∈ _)),
    bytesField_some (found
      (by simp [HttpRequestData.fields] : (ascii "body", some (Value.byteArray data.body)) ∈ _)),
    fromLatin1_ascii method, lawful.url]

end

def RetryRequestPacket.settled {qt : Qt} (p : RetryRequestPacket qt) : RetryRequestPacket qt :=
  { p with
    requests := p.requests.map Request.settled
    inspectInfo := p.inspectInfo.map (InspectInfo.settled qt)
    retrySeq := written p.retrySeq }

structure RetryRequestPacket.Ordinary {qt : Qt} (p : RetryRequestPacket qt) : Prop where
  method : ∀ c ∈ p.requestData.method, c < 0x80
  userData : ∀ r ∈ p.requests, Carried isPlain r.userData
  inspectData : ∀ info, p.inspectInfo = some info → Carried isPlain info.userData
  channels : ∀ info, p.inspectInfo = some info → (info.lastIds.map Prod.fst).Nodup

theorem mapM_some {α β : Type} {read : α → Option β} {result : α → β} {as : List α}
    (reads : ∀ a ∈ as, read a = some (result a)) : as.mapM read = some (as.map result) := by
  induction as with
  | nil => rfl
  | cons a as ih =>
    obtain ⟨here, later⟩ := List.forall_mem_cons.mp reads
    rw [List.mapM_cons, here, ih later]
    rfl

def retryNames : List (List Byte) :=
  [ascii "requests", ascii "request-data", ascii "inspect", ascii "route", ascii "retry-seq"]

theorem retryNames_fine : retryNames.Nodup ∧ retryNames.all isPlain = true :=
  ⟨by decide, all_isPlain rfl⟩

section
variable {qt : Qt} (lawful : qt.Lawful)
include lawful

theorem request_carried {r : Request qt} (userData : Carried isPlain r.userData) :
    Carried isPlain (hashOf qt (r.fields qt)) := by
  refine carried_hashOf lawful requestNames_fine.1 requestNames_fine.2 ?_
  intro field mem value here
  simp only [Request.fields, List.mem_cons, List.not_mem_nil, or_false] at mem
  rcases mem with rfl | rfl | rfl | rfl | rfl | rfl | rfl | rfl | rfl | rfl | rfl | rfl | rfl
  case inl =>
    cases here
    refine carried_hashOf lawful (by decide : [ascii "sender", ascii "id"].Nodup)
      (all_isPlain rfl : [ascii "sender", ascii "id"].all isPlain = true) ?_
    intro field mem value here
    simp only [ridFields, List.mem_cons, List.not_mem_nil, or_false] at mem
    rcases mem with rfl | rfl <;> cases here <;> exact carried_byteArray _
  case inr.inr.inl =>
    dsimp only at here
    split at here
    · cases here
    · cases here
      exact carried_byteArray _
  case inr.inr.inr.inr.inr.inr.inr.inl =>
    dsimp only at here
    split at here
    · cases here
      exact ⟨.int (isizeOf r.unreportedTime), rfl, rfl, trivial⟩
    · cases here
  case inr.inr.inr.inr.inr.inr.inr.inr.inl =>
    cases here
    exact ⟨.int (isizeOf r.inSeq), rfl, rfl, trivial⟩
  case inr.inr.inr.inr.inr.inr.inr.inr.inr.inl =>
    cases here
    exact ⟨.int (isizeOf r.outSeq), rfl, rfl, trivial⟩
  case inr.inr.inr.inr.inr.inr.inr.inr.inr.inr.inl =>
    cases here
    exact ⟨.int (isizeOf r.outCredits), rfl, rfl, trivial⟩
  case inr.inr.inr.inr.inr.inr.inr.inr.inr.inr.inr.inr => exact carried_value userData here
  all_goals first | exact carried_bytes here | exact carried_bool here

theorem requests_carried {requests : List (Request qt)}
    (userData : ∀ r ∈ requests, Carried isPlain r.userData) :
    Carried isPlain (.list (requests.map fun r => hashOf qt (r.fields qt))) := by
  refine carried_list fun value mem => ?_
  obtain ⟨r, there, rfl⟩ := List.mem_map.mp mem
  exact request_carried lawful (userData r there)

theorem requestData_carried (data : HttpRequestData qt) :
    Carried isPlain (hashOf qt (data.fields qt)) := by
  refine carried_hashOf lawful dataNames_fine.1 dataNames_fine.2 ?_
  intro field mem value here
  simp only [HttpRequestData.fields, List.mem_cons, List.not_mem_nil, or_false] at mem
  rcases mem with rfl | rfl | rfl | rfl <;> cases here
  · exact carried_byteArray _
  · exact carried_byteArray _
  · refine carried_list fun value mem => ?_
    obtain ⟨h, _, rfl⟩ := List.mem_map.mp mem
    exact ⟨.array [.string h.1, .string h.2], rfl, rfl, trivial, trivial, trivial⟩
  · exact carried_byteArray _

theorem retryPacket_recovered {p : RetryRequestPacket qt} (ordinary : p.Ordinary) :
    RetryRequestPacket.fromVariant qt (reread qt.fromUtf8 (p.toVariant qt)) = some p.settled := by
  have names : ((p.fields qt).map Prod.fst).Nodup := retryNames_fine.1
  have kept := fun {name value} => @lookup_kept _ lawful _ names name value
  have requests := kept (by simp [RetryRequestPacket.fields] :
    (ascii "requests", some (Value.list (p.requests.map fun r => hashOf qt (r.fields qt)))) ∈
      p.fields qt) (by
      rintro _ ⟨⟩
      exact requests_carried lawful ordinary.userData)
  have data := kept (by simp [RetryRequestPacket.fields] :
    (ascii "request-data", some (hashOf qt (p.requestData.fields qt))) ∈ p.fields qt) (by
      rintro _ ⟨⟩
      exact requestData_carried lawful p.requestData)
  have inspect := lookup_reread lawful names (by simp [RetryRequestPacket.fields] :
    (ascii "inspect", p.inspectInfo.map fun info => hashOf qt (info.fields qt)) ∈ p.fields qt)
  have retrySeq := intFieldOr_some (kept
    (by simp [RetryRequestPacket.fields] : (ascii "retry-seq", someInt p.retrySeq) ∈ p.fields qt)
    fun _ => carried_int) qt.doubleInt
  have each : (p.requests.map fun r => hashOf qt (r.fields qt)).mapM (Request.fromVariant qt) =
      some (p.requests.map Request.settled) := by
    rw [List.mapM_map]
    exact mapM_some fun r _ => request_recovered lawful r
  have inspect' : inspectOf ((qt.order (present (p.fields qt))).map fun entry =>
      (entry.1, reread qt.fromUtf8 entry.2)) =
        some (p.inspectInfo.map (InspectInfo.settled qt)) := by
    rw [inspectOf, inspect]
    cases there : p.inspectInfo with
    | none => rfl
    | some info =>
      simp only [Option.map_some, inspectInfo_recovered lawful (ordinary.inspectData info there)]
  rw [RetryRequestPacket.toVariant, reread_hashOf lawful names retryNames_fine.2]
  simp only [RetryRequestPacket.fromVariant, Option.bind_eq_bind, Option.pure_def, requests,
    Option.bind_some, each, data, requestData_recovered lawful ordinary.method, inspect', retrySeq,
    bytesFieldOr_some
      (kept (by simp [RetryRequestPacket.fields] : (ascii "route", someBytes p.route) ∈ p.fields qt)
      fun _ => carried_bytes),
    RetryRequestPacket.settled]

theorem inspectInfo_carried {info : InspectInfo} (userData : Carried isPlain info.userData) :
    Carried (fun _ => true) (hashOf qt (info.fields qt)) := by
  refine carried_hashOf lawful inspectNames_fine.1 rfl ?_
  intro field mem value here
  simp only [InspectInfo.fields, List.mem_cons, List.not_mem_nil, or_false] at mem
  rcases mem with rfl | rfl | rfl | rfl | rfl
  · cases here
    exact ⟨.bool !info.doProxy, rfl, rfl, trivial⟩
  · exact carried_bytes here
  · exact carried_bytes here
  · dsimp only at here
    split at here
    · cases here
    · cases here
      have perm := lawful.order (lastIdEntries qt info.lastIds)
      have names := (perm.map Prod.fst).nodup_iff.mpr (lastIdEntries_nodup qt info.lastIds)
      refine carried_hash names (fun _ _ => rfl) fun entry mem => ?_
      obtain ⟨id, _, rfl⟩ := lastIdEntries_mem (perm.mem_iff.mp mem)
      exact carried_byteArray id.2
  · exact carried_value userData.any here

theorem retryPacket_carried {p : RetryRequestPacket qt} (ordinary : p.Ordinary) :
    Carried (fun _ => true) (p.toVariant qt) := by
  refine carried_hashOf lawful retryNames_fine.1 rfl ?_
  intro field mem value here
  simp only [RetryRequestPacket.fields, List.mem_cons, List.not_mem_nil, or_false] at mem
  rcases mem with rfl | rfl | rfl | rfl | rfl
  · cases here
    exact (requests_carried lawful ordinary.userData).any
  · cases here
    exact (requestData_carried lawful p.requestData).any
  · obtain ⟨info, there, rfl⟩ := Option.map_eq_some_iff.mp here
    exact inspectInfo_carried lawful (ordinary.inspectData info there)
  · exact carried_bytes here
  · exact carried_int here

end

def wireSize (qt : Qt) (v : Value) : Nat := (fromVariant qt.doubleText v).length

def carry (qt : Qt) (v : Value) : Outcome Stop Value :=
  toVariant qt.toDouble qt.fromUtf8 (fromVariant qt.doubleText v) 0

section
variable {qt : Qt} {ok : List Byte → Bool} {v : Value}

theorem carry_value (carried : Carried ok v) (small : wireSize qt v ≤ intEnd) :
    carry qt v = .returns (reread qt.fromUtf8 v) := by
  obtain ⟨t, rfl, _, _⟩ := carried
  rw [wireSize, fromVariant_value] at small
  rw [carry, fromVariant_value]
  exact toVariant_encode qt.toDouble qt.fromUtf8 t small

theorem carry_large (carried : Carried ok v) (large : intEnd < wireSize qt v) (value : Value) :
    carry qt v ≠ .returns value := by
  obtain ⟨t, rfl, _, _⟩ := carried
  rw [wireSize, fromVariant_value] at large
  rw [carry, fromVariant_value]
  exact toVariant_large qt.toDouble qt.fromUtf8 t large value

end

def WsControlPacket.recoded {qt : Qt} (p : WsControlPacket qt) :
    Outcome Stop (Option (WsControlPacket qt)) :=
  carry qt (p.toVariant qt) >>= fun v => .returns (WsControlPacket.fromVariant qt v)

def RetryRequestPacket.recoded {qt : Qt} (p : RetryRequestPacket qt) :
    Outcome Stop (Option (RetryRequestPacket qt)) :=
  carry qt (p.toVariant qt) >>= fun v => .returns (RetryRequestPacket.fromVariant qt v)

structure InspectInfo.Same (a b : InspectInfo) : Prop where
  others : { a with lastIds := [] } = { b with lastIds := [] }
  lastIds : a.lastIds.Perm b.lastIds

structure RetryRequestPacket.Same {qt : Qt} (a b : RetryRequestPacket qt) : Prop where
  others : { a with inspectInfo := none } = { b with inspectInfo := none }
  inspectInfo : Option.Rel InspectInfo.Same a.inspectInfo b.inspectInfo

/-- What the encoding keeps: an extended response comes with a callback, a time is not
    zero, the names of channels are plain text, and a sequence number is -1 where there is none. -/
structure RetryRequestPacket.Intact {qt : Qt} (p : RetryRequestPacket qt) : Prop where
  extended : ∀ r ∈ p.requests, r.jsonpExtendedResponse = true → r.jsonpCallback ≠ []
  unreported : ∀ r ∈ p.requests, r.unreportedTime = -1 ∨ 0 < r.unreportedTime.toInt
  channels : ∀ info, p.inspectInfo = some info → ∀ id ∈ info.lastIds, isPlain id.1 = true
  retrySeq : -1 ≤ p.retrySeq.toInt

theorem request_settled_iff {qt : Qt} (r : Request qt) :
    r.settled = r ↔ (r.jsonpExtendedResponse = true → r.jsonpCallback ≠ []) ∧
      (r.unreportedTime = -1 ∨ 0 < r.unreportedTime.toInt) := by
  constructor
  · intro same
    have extended := congrArg Request.jsonpExtendedResponse same
    have unreported := congrArg Request.unreportedTime same
    simp only [Request.settled] at extended unreported
    constructor
    · intro set
      rw [set] at extended
      simpa using extended
    · split at unreported
      · next positive => exact Or.inr positive
      · exact Or.inl unreported.symm
  · rintro ⟨extended, unreported⟩
    obtain ⟨rid, https, address, debug, cross, callback, ext, time, inSeq, outSeq, credits, router,
      data⟩ := r
    simp only at extended unreported
    simp only [Request.settled, Request.mk.injEq, true_and, and_true]
    constructor
    · cases ext with
      | false => rfl
      | true => simpa using extended rfl
    · rcases unreported with none | positive
      · rw [none]
        decide
      · rw [if_pos positive]

theorem written_iff (n : Int32) : written n = n ↔ -1 ≤ n.toInt := by
  constructor
  · intro same
    unfold written at same
    split at same
    · omega
    · rw [← same, show (-1 : Int32).toInt = -1 by decide]
  · exact written_count

section
variable {qt : Qt} (lawful : qt.Lawful)
include lawful

/-- Names that all come back are plain: a mark in front of one is lost, so there would
    have to be a longer name with a mark. -/
theorem plain_of_reread {names : List (List Byte)}
    (back : ∀ name ∈ names, ∃ name' ∈ names, name = qt.fromUtf8 (qt.fromUtf8 name')) :
    ∀ name ∈ names, isPlain name = true := by
  have text : ∀ name ∈ names, isUtf8 name = true := by
    intro name mem
    obtain ⟨name', _, rfl⟩ := back name mem
    exact lawful.text _
  have shorter : ∀ name, isUtf8 name = true → isPlain name = false →
      (qt.fromUtf8 name).length < name.length := by
    intro name utf8 marked
    obtain ⟨key, rfl⟩ := marked_of_text utf8 marked
    rw [lawful.marked key utf8, List.length_append]
    exact Nat.lt_add_of_pos_left (by decide)
  have longer : ∀ name ∈ names, isPlain name = false →
      ∃ name' ∈ names, isPlain name' = false ∧ name.length < name'.length := by
    intro name mem marked
    obtain ⟨name', mem', rfl⟩ := back name mem
    refine ⟨name', mem', ?_⟩
    cases plain : isPlain name' with
    | true =>
      rw [lawful.utf8 _ plain, lawful.utf8 _ plain, plain] at marked
      cases marked
    | false =>
      have first := shorter name' (text name' mem') plain
      refine ⟨rfl, lt_of_le_of_lt ?_ first⟩
      cases again : isPlain (qt.fromUtf8 name') with
      | true => rw [lawful.utf8 _ again]
      | false => exact (shorter _ (lawful.text _) again).le
  intro name mem
  by_contra marked
  have unbounded : ∀ n, ∃ name ∈ names, isPlain name = false ∧ n ≤ name.length := by
    intro n
    induction n with
    | zero => exact ⟨name, mem, Bool.not_eq_true _ ▸ marked, Nat.zero_le _⟩
    | succ n ih =>
      obtain ⟨name, mem, marked, long⟩ := ih
      obtain ⟨name', mem', marked', more⟩ := longer name mem marked
      exact ⟨name', mem', marked', by omega⟩
  obtain ⟨name', mem', _, long⟩ := unbounded (names.flatten.length + 1)
  have bound := (List.sublist_flatten_of_mem mem').length_le
  omega

theorem inspectInfo_settled_iff {info : InspectInfo}
    (distinct : (info.lastIds.map Prod.fst).Nodup) :
    (info.settled qt).Same info ↔ ∀ id ∈ info.lastIds, isPlain id.1 = true := by
  constructor
  · intro same id mem
    refine plain_of_reread lawful (fun name held => ?_) id.1 (List.mem_map_of_mem mem)
    obtain ⟨id, mem, rfl⟩ := List.mem_map.mp held
    have there := same.lastIds.mem_iff.mpr mem
    simp only [InspectInfo.settled] at there
    split at there
    · cases there
    · obtain ⟨entry, read, rfl⟩ := List.mem_map.mp there
      obtain ⟨id', mem', rfl⟩ := readEntries_mem lawful read
      exact ⟨id'.1, List.mem_map_of_mem mem', rfl⟩
  · intro plain
    refine ⟨rfl, ?_⟩
    simp only [InspectInfo.settled]
    split
    · next none => rw [none]
    · refine ((readEntries_plain lawful distinct plain).map _).trans (List.Perm.of_eq ?_)
      rw [List.map_map]
      exact List.map_id _

theorem retryPacket_settled_iff {p : RetryRequestPacket qt}
    (ordinary : p.Ordinary) : p.settled.Same p ↔ p.Intact := by
  constructor
  · intro same
    have requests := congrArg RetryRequestPacket.requests same.others
    have retrySeq := congrArg RetryRequestPacket.retrySeq same.others
    have inspect := same.inspectInfo
    simp only [RetryRequestPacket.settled] at requests retrySeq inspect
    have each : ∀ r ∈ p.requests, r.settled = r :=
      List.map_inj_left.mp (requests.trans (List.map_id' _).symm)
    refine ⟨fun r mem => ((request_settled_iff r).mp (each r mem)).1,
      fun r mem => ((request_settled_iff r).mp (each r mem)).2, fun info there => ?_,
        (written_iff _).mp retrySeq⟩
    rw [there, Option.map_some, Option.rel_some_some] at inspect
    exact (inspectInfo_settled_iff lawful (ordinary.channels info there)).mp inspect
  · intro intact
    have each : p.requests.map Request.settled = p.requests :=
      (List.map_inj_left.mpr fun r mem =>
        (request_settled_iff r).mpr ⟨intact.extended r mem, intact.unreported r mem⟩).trans
          (List.map_id' _)
    refine ⟨?_, ?_⟩
    · simp only [RetryRequestPacket.settled, each, (written_iff _).mpr intact.retrySeq]
    · simp only [RetryRequestPacket.settled]
      cases there : p.inspectInfo with
      | none => exact Option.Rel.none
      | some info =>
        exact Option.Rel.some ((inspectInfo_settled_iff lawful (ordinary.channels info there)).mpr
          (intact.channels info there))

end

/-- A control packet comes back from the encoding if that is not too long, and a retry
    packet if it is intact as well. -/
theorem packets_survive_iff {qt : Qt} (lawful : qt.Lawful) :
    (∀ p : WsControlPacket qt, (∀ item ∈ p.items, item.Counts) →
      (p.recoded = .returns (some p) ↔ wireSize qt (p.toVariant qt) ≤ intEnd)) ∧
    (∀ p : RetryRequestPacket qt, p.Ordinary →
      ((∃ q, p.recoded = .returns (some q) ∧ q.Same p) ↔ wireSize qt (p.toVariant qt) ≤ intEnd ∧
      p.Intact)) := by
  constructor
  · intro p counts
    have carried := controlPacket_carried lawful p
    unfold WsControlPacket.recoded
    constructor
    · intro back
      by_contra large
      obtain ⟨v, carries, _⟩ := Outcome.bind_returns back
      exact carry_large carried (not_le.mp large) v carries
    · intro small
      rw [carry_value carried small, Outcome.returns_bind, carried_kept lawful.utf8 carried,
        controlPacket_recovered lawful counts]
  · intro p ordinary
    have carried := retryPacket_carried lawful ordinary
    unfold RetryRequestPacket.recoded
    constructor
    · rintro ⟨q, back, same⟩
      have small : wireSize qt (p.toVariant qt) ≤ intEnd := by
        by_contra large
        obtain ⟨v, carries, _⟩ := Outcome.bind_returns back
        exact carry_large carried (not_le.mp large) v carries
      rw [carry_value carried small, Outcome.returns_bind,
        retryPacket_recovered lawful ordinary] at back
      cases back
      exact ⟨small, (retryPacket_settled_iff lawful ordinary).mp same⟩
    · rintro ⟨small, intact⟩
      refine ⟨p.settled, ?_, (retryPacket_settled_iff lawful ordinary).mpr intact⟩
      rw [carry_value carried small, Outcome.returns_bind, retryPacket_recovered lawful ordinary]

def replaced (b : List Byte) : List Byte := b.flatMap fun c => if c ≤ 0x7f then [c]
    else [0xef, 0xbf, 0xbd]

theorem replaced_text (b : List Byte) : isUtf8 (replaced b) = true := by
  induction b with
  | nil => rfl
  | cons c b ih =>
    rw [replaced, List.flatMap_cons, ← replaced]
    split
    · next small =>
      rw [List.singleton_append]
      unfold isUtf8
      rw [if_pos small]
      exact ih
    · have more : ∀ s, isUtf8 (0xef :: 0xbf :: 0xbd :: s) = isUtf8 s := by
        intro s
        conv_lhs => unfold isUtf8
        simp [isTail]
      exact (more _).trans ih

theorem mark_isUtf8 (s : List Byte) : isUtf8 (mark ++ s) = isUtf8 s := by
  show isUtf8 (0xef :: 0xbb :: 0xbf :: s) = isUtf8 s
  conv_lhs => unfold isUtf8
  simp [isTail]

def textQt : Qt where
  Url := List Byte
  noUrl := []
  urlIsEmpty := List.isEmpty
  toEncoded := id
  fromEncoded := id
  Address := List Byte
  noAddress := []
  addressIsNull := List.isEmpty
  addressText := id
  parseAddress := id
  fromUtf8 b := if isUtf8 (dropMark b) then dropMark b else replaced (dropMark b)
  doubleText _ := []
  toDouble _ := none
  doubleInt _ := 0
  order := id

theorem textQt_lawful : textQt.Lawful where
  noUrl _ empty := List.isEmpty_iff.mp empty
  url _ := rfl
  noAddress _ empty := List.isEmpty_iff.mp empty
  address _ := rfl
  utf8 key plain := by
    simp only [isPlain, Bool.and_eq_true, Bool.not_eq_true'] at plain
    have kept : dropMark key = key := if_neg (by simp [plain.2])
    show (if isUtf8 (dropMark key) then dropMark key else _) = key
    rw [kept, if_pos plain.1]
  marked key utf8 := by
    have dropped : dropMark (mark ++ key) = key := rfl
    show (if isUtf8 (dropMark (mark ++ key)) then dropMark (mark ++ key) else _) = key
    rw [dropped, if_pos (mark_isUtf8 key ▸ utf8)]
  text bytes := by
    show isUtf8 (if isUtf8 (dropMark bytes) then dropMark bytes else replaced (dropMark bytes)) =
      true
    split
    · next text => exact text
    · exact replaced_text (dropMark bytes)
  order _ := List.Perm.refl _

def sentPacket : WsControlPacket textQt :=
  ⟨ascii "handler", [{ cid := ascii "c", type := .send, message := some [] }]⟩

def heldRequest : Request textQt :=
  { rid := (ascii "client", ascii "1"), inSeq := 1, outSeq := 0, outCredits := 200000 }

def heldPacket (r : Request textQt) (channel : List Byte) : RetryRequestPacket textQt where
  requests := [r]
  requestData := ⟨ascii "GET", ascii "/path", [(ascii "Accept", ascii "*/*")], []⟩
  inspectInfo := some { lastIds := [(channel, ascii "7")] }
  route := []
  retrySeq := -1

theorem heldPacket_ordinary {r : Request textQt} (none : r.userData = .null) (channel : List Byte) :
    (heldPacket r channel).Ordinary where
  method := (by simp [ascii] : ∀ c ∈ ascii "GET", c < 0x80)
  userData := by
    intro r' mem
    rw [List.mem_singleton.mp mem, none]
    exact ⟨.null, rfl, rfl, trivial⟩
  inspectData := by
    rintro info there
    cases there
    exact ⟨.null, rfl, rfl, trivial⟩
  channels := by
    rintro info there
    cases there
    exact List.nodup_singleton channel

theorem small_packets_survive :
    sentPacket.recoded = .returns (some sentPacket) ∧
    ∃ q, (heldPacket heldRequest (ascii "news")).recoded = .returns (some q) ∧
      q.Same (heldPacket heldRequest (ascii "news")) := by
  refine ⟨((packets_survive_iff textQt_lawful).1 _ ?_).mpr (by decide +kernel),
    ((packets_survive_iff textQt_lawful).2 _ (heldPacket_ordinary rfl _)).mpr
      ⟨by decide +kernel, ?_⟩⟩
  · intro item mem
    rw [List.mem_singleton.mp mem]
    constructor <;> decide
  · refine ⟨?_, ?_, ?_, by decide⟩
    · intro r mem set
      rw [List.mem_singleton.mp mem] at set
      cases set
    · intro r mem
      rw [List.mem_singleton.mp mem]
      exact Or.inl rfl
    · rintro info there id mem
      cases there
      rw [List.mem_singleton.mp mem]
      decide

/-- An extended response without a callback, a time of zero, a channel that is no text and
    one with a mark in front. -/
def bridgedPacket : RetryRequestPacket textQt :=
  heldPacket { heldRequest with jsonpExtendedResponse := true } (ascii "news")

def timedPacket : RetryRequestPacket textQt := heldPacket { heldRequest with unreportedTime := 0 }
    (ascii "news")

def binaryPacket : RetryRequestPacket textQt := heldPacket heldRequest [255]

def markedPacket : RetryRequestPacket textQt := heldPacket heldRequest (mark ++ ascii "news")

theorem parts_of_packets_are_lost :
    (bridgedPacket.recoded = .returns (some (heldPacket heldRequest (ascii "news"))) ∧
      ¬ (heldPacket heldRequest (ascii "news")).Same bridgedPacket) ∧
    (timedPacket.recoded = .returns (some (heldPacket heldRequest (ascii "news"))) ∧
      ¬ (heldPacket heldRequest (ascii "news")).Same timedPacket) ∧
    (binaryPacket.recoded = .returns (some (heldPacket heldRequest [0xef, 0xbf, 0xbd])) ∧
      ¬ (heldPacket heldRequest [0xef, 0xbf, 0xbd]).Same binaryPacket) ∧
    (markedPacket.recoded = .returns (some (heldPacket heldRequest (ascii "news"))) ∧
      ¬ (heldPacket heldRequest (ascii "news")).Same markedPacket) := by
  have recoded : ∀ (r : Request textQt) (channel : List Byte), r.userData = .null →
      wireSize textQt ((heldPacket r channel).toVariant textQt) ≤ intEnd →
        (heldPacket r channel).recoded = .returns (some (heldPacket r channel).settled) := by
    intro r channel none small
    have ordinary := heldPacket_ordinary none channel
    rw [RetryRequestPacket.recoded, carry_value (retryPacket_carried textQt_lawful ordinary) small,
      Outcome.returns_bind, retryPacket_recovered textQt_lawful ordinary]
  refine ⟨⟨?_, fun same => ?_⟩, ⟨?_, fun same => ?_⟩, ⟨?_, fun same => ?_⟩, ⟨?_, fun same => ?_⟩⟩
  · exact recoded { heldRequest with jsonpExtendedResponse := true } (ascii "news") rfl
      (by decide +kernel)
  · have flags := congrArg (fun p => p.requests.map Request.jsonpExtendedResponse) same.others
    exact absurd flags (by decide)
  · exact recoded { heldRequest with unreportedTime := 0 } (ascii "news") rfl (by decide +kernel)
  · have times := congrArg (fun p => p.requests.map Request.unreportedTime) same.others
    exact absurd times (by decide)
  · exact recoded heldRequest [255] rfl (by decide +kernel)
  · have inspect := same.inspectInfo
    simp only [heldPacket, binaryPacket, Option.rel_some_some] at inspect
    exact absurd (List.perm_singleton.mp inspect.lastIds) (by decide)
  · exact recoded heldRequest (mark ++ ascii "news") rfl (by decide +kernel)
  · have inspect := same.inspectInfo
    simp only [heldPacket, markedPacket, Option.rel_some_some] at inspect
    exact absurd (List.perm_singleton.mp inspect.lastIds) (by decide)

end PushpinPackets
