import Pushpin.Core.TnetFields

/-!
`WsControlPacket`: the items that the proxy and the handler exchange about WebSocket
connections. What the code has from Qt is in `Qt`. A null message is `none`, and any
other byte array that is null is empty.
-/
namespace PushpinPackets
open PushpinRingBuffer PushpinTnetstring PushpinTnetCodec Text

structure Qt where
  Url : Type
  noUrl : Url
  urlIsEmpty : Url → Bool
  toEncoded : Url → List Byte
  fromEncoded : List Byte → Url
  Address : Type
  noAddress : Address
  addressIsNull : Address → Bool
  addressText : Address → List Byte
  parseAddress : List Byte → Address
  fromUtf8 : List Byte → List Byte
  doubleText : UInt64 → List Byte
  toDouble : List Byte → Option UInt64
  doubleInt : UInt64 → Int32
  order : List (List Byte × Value) → List (List Byte × Value)

/-- What is encoded is decoded again, any conversion gives a text, without the byte order
    mark in front of it, and a hash iterates over every entry once. -/
structure Qt.Lawful (qt : Qt) : Prop where
  noUrl : ∀ url, qt.urlIsEmpty url = true → url = qt.noUrl
  url : ∀ url, qt.fromEncoded (qt.toEncoded url) = url
  noAddress : ∀ address, qt.addressIsNull address = true → address = qt.noAddress
  address : ∀ address, qt.parseAddress (qt.addressText address) = address
  utf8 : ∀ key, isPlain key = true → qt.fromUtf8 key = key
  marked : ∀ key, isUtf8 (mark ++ key) = true → qt.fromUtf8 (mark ++ key) = key
  text : ∀ bytes, isUtf8 (qt.fromUtf8 bytes) = true
  order : ∀ entries, (qt.order entries).Perm entries

inductive ItemType where
  | here
  | keepAlive
  | gone
  | grip
  | needKeepAlive
  | subscribe
  | cancel
  | send
  | keepAliveSetup
  | refresh
  | close
  | detach
  | ack
  deriving DecidableEq, Repr

def ItemType.typeStr : ItemType → List Byte
  | .here => ascii "here"
  | .keepAlive => ascii "keep-alive"
  | .gone => ascii "gone"
  | .grip => ascii "grip"
  | .keepAliveSetup => ascii "keep-alive-setup"
  | .cancel => ascii "cancel"
  | .send => ascii "send"
  | .needKeepAlive => ascii "need-keep-alive"
  | .subscribe => ascii "subscribe"
  | .refresh => ascii "refresh"
  | .close => ascii "close"
  | .detach => ascii "detach"
  | .ack => ascii "ack"

def ItemType.ofStr (typeStr : List Byte) : Option ItemType :=
  [here, keepAlive, gone, grip, keepAliveSetup, cancel, send, needKeepAlive, subscribe, refresh,
    close, detach, ack].find? fun type => type.typeStr = typeStr

theorem ItemType.ofStr_typeStr (type : ItemType) : ofStr type.typeStr = some type := by
  cases type <;> decide

structure Item (qt : Qt) where
  cid : List Byte := []
  type : ItemType
  requestId : List Byte := []
  uri : qt.Url := qt.noUrl
  contentType : List Byte := []
  message : Option (List Byte) := none
  queue : Bool := false
  code : Int32 := -1
  reason : List Byte := []
  debug : Bool := false
  route : List Byte := []
  separateStats : Bool := false
  channelPrefix : List Byte := []
  logLevel : Int32 := -1
  trusted : Bool := false
  channel : List Byte := []
  ttl : Int32 := -1
  timeout : Int32 := -1
  keepAliveMode : List Byte := []

structure WsControlPacket (qt : Qt) where
  from_ : List Byte
  items : List (Item qt)

def someBytes (b : List Byte) : Option Value := if b = [] then none else some (.byteArray b)

def someBool (b : Bool) : Option Value := if b then some (.bool true) else none

def someInt (n : Int32) : Option Value := if 0 ≤ n.toInt then some (.int (isizeOf n)) else none

section
variable (qt : Qt)

def hashOf (fields : List (List Byte × Option Value)) : Value := .hash (qt.order (present fields))

def Item.fields (item : Item qt) : List (List Byte × Option Value) :=
  [(ascii "cid", some (.byteArray item.cid)),
   (ascii "type", some (.byteArray item.type.typeStr)),
   (ascii "req-id", someBytes item.requestId),
   (ascii "uri", if qt.urlIsEmpty item.uri then none
     else some (.byteArray (qt.toEncoded item.uri))),
   (ascii "content-type", someBytes item.contentType),
   (ascii "message", item.message.map .byteArray),
   (ascii "queue", someBool item.queue),
   (ascii "code", someInt item.code),
   (ascii "reason", someBytes item.reason),
   (ascii "debug", someBool item.debug),
   (ascii "route", someBytes item.route),
   (ascii "separate-stats", someBool item.separateStats),
   (ascii "channel-prefix", someBytes item.channelPrefix),
   (ascii "log-level", someInt item.logLevel),
   (ascii "trusted", someBool item.trusted),
   (ascii "channel", someBytes item.channel),
   (ascii "ttl", someInt item.ttl),
   (ascii "timeout", someInt item.timeout),
   (ascii "keep-alive-mode", someBytes item.keepAliveMode)]

def WsControlPacket.fields (p : WsControlPacket qt) : List (List Byte × Option Value) :=
  [(ascii "from", some (.byteArray p.from_)),
   (ascii "items", some (.list (p.items.map fun item => hashOf qt (item.fields qt))))]

def WsControlPacket.toVariant (p : WsControlPacket qt) : Value := hashOf qt (p.fields qt)

def atLeastZero (n : Int32) : Int32 := if n.toInt < 0 then 0 else n

section
variable (obj : List (List Byte × Value)) (name : List Byte)

def urlFieldOr : Option qt.Url :=
  match lookup obj name with
  | none => some qt.noUrl
  | some (.byteArray b) => some (qt.fromEncoded b)
  | some _ => none

def nullableField : Option (Option (List Byte)) :=
  match lookup obj name with
  | none => some none
  | some (.byteArray b) => some (some b)
  | some _ => none

def countFieldOr (default : Int32) : Option Int32 :=
  match lookup obj name with
  | none => some default
  | some n => if n.isScalar then some (atLeastZero (n.toInt qt.doubleInt)) else none

def convertedFieldOr (default : List Byte) : Option (List Byte) :=
  match lookup obj name with
  | none => some default
  | some value => if value.isScalar then some (value.toByteArray qt.doubleText) else none

end

def Item.fromVariant (v : Value) : Option (Item qt) := do
  let .hash vitem := v | none
  let cid ← bytesField vitem (ascii "cid")
  let type ← ItemType.ofStr (← bytesField vitem (ascii "type"))
  let requestId ← bytesFieldOr vitem (ascii "req-id") []
  let uri ← urlFieldOr qt vitem (ascii "uri")
  let contentType ← bytesFieldOr vitem (ascii "content-type") []
  let message ← nullableField vitem (ascii "message")
  let queue ← boolFieldOr vitem (ascii "queue") false
  let code ← intFieldOr vitem (ascii "code") qt.doubleInt (-1)
  let reason ← bytesFieldOr vitem (ascii "reason") []
  let debug ← boolFieldOr vitem (ascii "debug") false
  let route ← bytesFieldOr vitem (ascii "route") []
  let separateStats ← boolFieldOr vitem (ascii "separate-stats") false
  let channelPrefix ← bytesFieldOr vitem (ascii "channel-prefix") []
  let logLevel ← intFieldOr vitem (ascii "log-level") qt.doubleInt (-1)
  let trusted ← boolFieldOr vitem (ascii "trusted") false
  let channel ← bytesFieldOr vitem (ascii "channel") []
  let ttl ← countFieldOr qt vitem (ascii "ttl") (-1)
  let timeout ← countFieldOr qt vitem (ascii "timeout") (-1)
  let keepAliveMode ← convertedFieldOr qt vitem (ascii "keep-alive-mode") []
  return ⟨cid, type, requestId, uri, contentType, message, queue, code, reason, debug, route,
    separateStats, channelPrefix, logLevel, trusted, channel, ttl, timeout, keepAliveMode⟩

def WsControlPacket.fromVariant (v : Value) : Option (WsControlPacket qt) := do
  let .hash obj := v | none
  let from_ ← bytesField obj (ascii "from")
  let .list vitems ← lookup obj (ascii "items") | none
  let items ← vitems.mapM (Item.fromVariant qt)
  return ⟨from_, items⟩

end

section
variable {qt : Qt} (lawful : qt.Lawful)

variable {obj : List (List Byte × Value)} {name : List Byte}

theorem bytesFieldOr_some {b : List Byte}
    (found : lookup obj name = someBytes b) : bytesFieldOr obj name [] = some b := by
  unfold bytesFieldOr
  rw [found]
  cases b <;> rfl

theorem boolFieldOr_some {b : Bool}
    (found : lookup obj name = someBool b) : boolFieldOr obj name false = some b := by
  unfold boolFieldOr
  rw [found]
  cases b <;> rfl

def written (n : Int32) : Int32 := if 0 ≤ n.toInt then n else -1

theorem intFieldOr_some {n : Int32}
    (found : lookup obj name = someInt n) (doubleInt : UInt64 → Int32) :
    intFieldOr obj name doubleInt (-1) = some (written n) := by
  unfold intFieldOr written
  rw [found]
  by_cases count : 0 ≤ n.toInt
  · rw [someInt, if_pos count, if_pos count]
    exact congrArg some (toInt_isizeOf doubleInt n)
  · rw [someInt, if_neg count, if_neg count]

theorem bytesField_some {b : List Byte}
    (found : lookup obj name = some (.byteArray b)) : bytesField obj name = some b := by
  rw [bytesField, found]

theorem countFieldOr_some (qt : Qt) {n : Int32}
    (found : lookup obj name = someInt n) : countFieldOr qt obj name (-1) = some (written n) := by
  unfold countFieldOr written
  rw [found]
  by_cases count : 0 ≤ n.toInt
  · rw [someInt, if_pos count, if_pos count]
    have same : atLeastZero n = n := if_neg (by omega)
    exact congrArg some ((congrArg atLeastZero (toInt_isizeOf qt.doubleInt n)).trans same)
  · rw [someInt, if_neg count, if_neg count]

theorem convertedFieldOr_some (qt : Qt) {b : List Byte}
    (found : lookup obj name = someBytes b) : convertedFieldOr qt obj name [] = some b := by
  unfold convertedFieldOr
  rw [found]
  cases b <;> rfl

theorem nullableField_some {b : Option (List Byte)}
    (found : lookup obj name = b.map Value.byteArray) : nullableField obj name = some b := by
  unfold nullableField
  rw [found]
  cases b <;> rfl

include lawful

theorem urlFieldOr_some {obj : List (List Byte × Value)} {name : List Byte} {url : qt.Url}
    (found : lookup obj name =
    (if qt.urlIsEmpty url then none else some (.byteArray (qt.toEncoded url)))) :
    urlFieldOr qt obj name = some url := by
  unfold urlFieldOr
  rw [found]
  cases empty : qt.urlIsEmpty url with
  | true => exact congrArg some (lawful.noUrl _ empty).symm
  | false => exact congrArg some (lawful.url _)

theorem lookup_field {fields : List (List Byte × Option Value)}
    (names : (fields.map Prod.fst).Nodup) {value : Option Value} (mem : (name, value) ∈ fields) :
    lookup (qt.order (present fields)) name = value :=
  lookup_present names (lawful.order _) mem

theorem carried_hashOf {ok : List Byte → Bool} {fields : List (List Byte × Option Value)}
    (names : (fields.map Prod.fst).Nodup) (fine : (fields.map Prod.fst).all ok = true)
    (carried : ∀ field ∈ fields, ∀ value, field.2 = some value → Carried ok value) :
    Carried ok (hashOf qt fields) := by
  refine carried_fields names (fun field mem => ?_) carried (lawful.order _)
  exact List.all_eq_true.mp fine field.1 (List.mem_map_of_mem mem)

end

/-- The numbers of an item are counts, or -1 where there is none. -/
structure Item.Counts {qt : Qt} (item : Item qt) : Prop where
  code : -1 ≤ item.code.toInt
  logLevel : -1 ≤ item.logLevel.toInt
  ttl : -1 ≤ item.ttl.toInt
  timeout : -1 ≤ item.timeout.toInt

theorem written_count {n : Int32} (count : -1 ≤ n.toInt) : written n = n := by
  unfold written
  split
  · rfl
  · apply Int32.toInt_inj.mp
    rw [show (-1 : Int32).toInt = -1 by decide]
    omega

def itemNames : List (List Byte) :=
  [ascii "cid", ascii "type", ascii "req-id", ascii "uri", ascii "content-type", ascii "message",
    ascii "queue",
    ascii "code", ascii "reason", ascii "debug", ascii "route", ascii "separate-stats",
      ascii "channel-prefix",
    ascii "log-level", ascii "trusted", ascii "channel", ascii "ttl", ascii "timeout",
      ascii "keep-alive-mode"]

theorem itemNames_fine : itemNames.Nodup ∧ itemNames.all isPlain = true :=
  ⟨by decide +kernel, all_isPlain rfl⟩

variable {qt : Qt}

theorem item_recovered (lawful : qt.Lawful) {item : Item qt} (counts : item.Counts) :
    Item.fromVariant qt (hashOf qt (item.fields qt)) = some item := by
  have names : ((item.fields qt).map Prod.fst).Nodup := itemNames_fine.1
  have found : ∀ {name value}, (name, value) ∈ item.fields qt →
      lookup (qt.order (present (item.fields qt))) name = value :=
    fun mem => lookup_field lawful names mem
  have code := intFieldOr_some
    (found (by simp [Item.fields] : (ascii "code", someInt item.code) ∈ _)) qt.doubleInt
  have logLevel :=
    intFieldOr_some (found (by simp [Item.fields] : (ascii "log-level", someInt item.logLevel) ∈ _))
      qt.doubleInt
  have ttl := countFieldOr_some qt
    (found (by simp [Item.fields] : (ascii "ttl", someInt item.ttl) ∈ _))
  have timeout := countFieldOr_some qt
    (found (by simp [Item.fields] : (ascii "timeout", someInt item.timeout) ∈ _))
  rw [written_count counts.code] at code
  rw [written_count counts.logLevel] at logLevel
  rw [written_count counts.ttl] at ttl
  rw [written_count counts.timeout] at timeout
  have uri := found (by simp [Item.fields] :
    (ascii "uri", if qt.urlIsEmpty item.uri then none
      else some (Value.byteArray (qt.toEncoded item.uri))) ∈ _)
  have message := nullableField_some
    (found (by simp [Item.fields] : (ascii "message", item.message.map Value.byteArray) ∈ _))
  simp only [Item.fromVariant, hashOf, Option.bind_eq_bind, Option.pure_def, code, logLevel, ttl,
    timeout, urlFieldOr_some lawful uri, Option.bind_some, ItemType.ofStr_typeStr,
    bytesField_some
      (found (by simp [Item.fields] : (ascii "cid", some (Value.byteArray item.cid)) ∈ _)),
    bytesField_some (found
      (by simp [Item.fields] : (ascii "type", some (Value.byteArray item.type.typeStr)) ∈ _)),
    bytesFieldOr_some
      (found (by simp [Item.fields] : (ascii "req-id", someBytes item.requestId) ∈ _)),
    bytesFieldOr_some
      (found (by simp [Item.fields] : (ascii "content-type", someBytes item.contentType) ∈ _)),
    message,
    boolFieldOr_some (found (by simp [Item.fields] : (ascii "queue", someBool item.queue) ∈ _)),
    bytesFieldOr_some (found (by simp [Item.fields] : (ascii "reason", someBytes item.reason) ∈ _)),
    boolFieldOr_some (found (by simp [Item.fields] : (ascii "debug", someBool item.debug) ∈ _)),
    bytesFieldOr_some (found (by simp [Item.fields] : (ascii "route", someBytes item.route) ∈ _)),
    boolFieldOr_some
      (found (by simp [Item.fields] : (ascii "separate-stats", someBool item.separateStats) ∈ _)),
    bytesFieldOr_some
      (found (by simp [Item.fields] : (ascii "channel-prefix", someBytes item.channelPrefix) ∈ _)),
    boolFieldOr_some (found (by simp [Item.fields] : (ascii "trusted", someBool item.trusted) ∈ _)),
    bytesFieldOr_some
      (found (by simp [Item.fields] : (ascii "channel", someBytes item.channel) ∈ _)),
    convertedFieldOr_some qt
      (found (by simp [Item.fields] : (ascii "keep-alive-mode", someBytes item.keepAliveMode) ∈ _))]

variable {ok : List Byte → Bool}

theorem carried_byteArray (b : List Byte) : Carried ok (.byteArray b) :=
  ⟨.string b, rfl, rfl, trivial⟩

theorem carried_bytes {b : List Byte} {value : Value} (some_ : someBytes b = some value) :
    Carried ok value := by
  unfold someBytes at some_
  split at some_
  · cases some_
  · cases some_
    exact carried_byteArray b

theorem carried_bool {b : Bool} {value : Value} (some_ : someBool b = some value) :
    Carried ok value := by
  unfold someBool at some_
  split at some_
  · cases some_
    exact ⟨.bool true, rfl, rfl, trivial⟩
  · cases some_

theorem carried_int {n : Int32} {value : Value} (some_ : someInt n = some value) :
    Carried ok value := by
  unfold someInt at some_
  split at some_
  · cases some_
    exact ⟨.int (isizeOf n), rfl, rfl, trivial⟩
  · cases some_

theorem item_carried (lawful : qt.Lawful) (item : Item qt) :
    Carried isPlain (hashOf qt (item.fields qt)) := by
  refine carried_hashOf lawful itemNames_fine.1 itemNames_fine.2 ?_
  intro field mem value here
  simp only [Item.fields, List.mem_cons, List.not_mem_nil, or_false] at mem
  rcases mem with
    rfl | rfl | rfl | rfl | rfl | rfl | rfl | rfl | rfl | rfl | rfl | rfl | rfl | rfl | rfl | rfl |
    rfl | rfl | rfl
  case inr.inr.inr.inl =>
    split at here
    · cases here
    · cases here
      exact carried_byteArray _
  case inr.inr.inr.inr.inr.inl =>
    obtain ⟨b, _, rfl⟩ := Option.map_eq_some_iff.mp here
    exact carried_byteArray b
  case inl =>
    cases here
    exact carried_byteArray _
  case inr.inl =>
    cases here
    exact carried_byteArray _
  all_goals first | exact carried_bytes here | exact carried_bool here | exact carried_int here

theorem controlPacket_carried (lawful : qt.Lawful) (p : WsControlPacket qt) :
    Carried isPlain (p.toVariant qt) := by
  refine carried_hashOf lawful ?_ ?_ ?_
  · exact (by decide : [ascii "from", ascii "items"].Nodup)
  · exact (all_isPlain rfl : [ascii "from", ascii "items"].all isPlain = true)
  · intro field mem value here
    simp only [WsControlPacket.fields, List.mem_cons, List.not_mem_nil, or_false] at mem
    rcases mem with rfl | rfl
    · cases here
      exact carried_byteArray p.from_
    · cases here
      refine carried_list fun value mem => ?_
      obtain ⟨item, _, rfl⟩ := List.mem_map.mp mem
      exact item_carried lawful item

theorem mapM_recovered {α β : Type} {read : β → Option α} {write : α → β} {as : List α}
    (recovered : ∀ a ∈ as, read (write a) = some a) : (as.map write).mapM read = some as := by
  induction as with
  | nil => rfl
  | cons a as ih =>
    obtain ⟨here, later⟩ := List.forall_mem_cons.mp recovered
    rw [List.map_cons, List.mapM_cons, here, ih later]
    rfl

theorem controlPacket_recovered (lawful : qt.Lawful) {p : WsControlPacket qt}
    (counts : ∀ item ∈ p.items, item.Counts) :
    WsControlPacket.fromVariant qt (p.toVariant qt) = some p := by
  have names : ((p.fields qt).map Prod.fst).Nodup :=
    (by decide : [ascii "from", ascii "items"].Nodup)
  have from_ := lookup_field lawful names
    (by simp [WsControlPacket.fields] : (ascii "from", some (Value.byteArray p.from_)) ∈ _)
  have items := lookup_field lawful names (by simp [WsControlPacket.fields] :
    (ascii "items", some (Value.list (p.items.map fun item => hashOf qt (item.fields qt)))) ∈ _)
  have each : (p.items.map fun item => hashOf qt (item.fields qt)).mapM (Item.fromVariant qt) =
      some p.items :=
    mapM_recovered fun item mem => item_recovered lawful (counts item mem)
  rw [show p.toVariant qt = .hash (qt.order (present (p.fields qt))) from rfl]
  simp only [WsControlPacket.fromVariant, Option.bind_eq_bind, bytesField_some from_, items,
    Option.bind_some, each, Option.pure_def]

end PushpinPackets
