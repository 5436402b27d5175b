import Pushpin.Core.TnetstringRoundTrip
import Pushpin.Foundations.Outcome

/-!
The packets of `connmgr/zhttppacket.rs`: what is read from a byte string and what
is written. A text is the bytes of a `str`. The scratch space of the parser starts
empty; `checks` is whether the build checks additions for overflow.
-/
namespace PushpinZhttpPacket
open PushpinRingBuffer PushpinTnetstring Text

def idsMax : Nat := 128
def headersMax : Nat := 64

inductive ParseError where
  | unrecognized
  | tnetParse (e : PushpinTnetstring.ParseError)
  | wrongType (field : String) (expected : FrameType)
  | notMapOrString (field : String)
  | notUtf8 (field : String)
  | negativeInt (field : String)
  | tooManyIds
  | tooManyHeaders
  | invalidHeader
  | noId
  deriving DecidableEq, Repr

abbrev Parse (α : Type) := Outcome ParseError α

def lift {α : Type} : Option (Except PushpinTnetstring.ParseError α) → Parse α
  | none => .panics
  | some (.error e) => .fails (.tnetParse e)
  | some (.ok a) => .returns a

def withField {α : Type} (field : String) : Option (Except PushpinTnetstring.ParseError α) → Parse α
  | some (.error (.wrongType _ expected)) => .fails (.wrongType field expected)
  | result => lift result

structure Str where
  bytes : List Byte
  utf8 : isUtf8 bytes = true
  deriving DecidableEq

def Str.empty : Str := ⟨[], rfl⟩

def Str.of (s : String) (small : ∀ c ∈ ascii s, c ≤ 0x7f) : Str := ⟨ascii s, isUtf8_of_small small⟩

structure Id where
  id : List Byte
  seq : Option UInt32
  deriving DecidableEq

def emptyId : Id := ⟨[], none⟩

structure Header where
  name : Str
  value : List Byte
  deriving DecidableEq

inductive ContentType where
  | text
  | binary
  deriving DecidableEq

/-- `ArrayVec::push` panics when there is no capacity left. -/
def push {α : Type} (capacity : Nat) (scratch : List α) (a : α) : Parse (List α) :=
  if scratch.length < capacity then .returns (scratch ++ [a]) else .panics

section
variable {ι α σ : Type}

def forEach (next : ι → Option (Option (Except PushpinTnetstring.ParseError α) × ι))
    (body : σ → α → Parse σ) : Nat → ι → σ → Parse σ
  | 0, _, _ => .panics
  | calls + 1, it, s =>
    match next it with
    | none => .panics
    | some (none, _) => .returns s
    | some (some (.error e), _) => .fails (.tnetParse e)
    | some (some (.ok a), it) => body s a >>= forEach next body calls it

def forEntries (checks : Bool) (it : MapIterator) (s : σ) (body : σ → MapItem → Parse σ) :
    Parse σ :=
  forEach (MapIterator.next checks) body (it.src.length + 2) it s

def forItems (checks : Bool) (it : SequenceIterator) (s : σ) (body : σ → SequenceItem → Parse σ) :
    Parse σ :=
  forEach (SequenceIterator.next checks) body (it.src.length + 2) it s

end

structure Casts where
  u32 : String → Nat → Parse UInt32
  u16 : String → Nat → Parse UInt16

def wrapping : Casts := ⟨fun _ x => .returns (UInt32.ofNat x), fun _ x => .returns (UInt16.ofNat x)⟩

section
variable (casts : Casts) (checks : Bool)

def parseBytes (field : String) (data : List Byte) : Parse (List Byte) :=
  withField field (parseString checks data)

/-- The text of a string; the two names of the field are for its type and for its
    bytes. -/
def parseStr (field utf8Field : String) (data : List Byte) : Parse Str := do
  let s ← parseBytes checks field data
  if utf8 : isUtf8 s = true then .returns ⟨s, utf8⟩ else .fails (.notUtf8 utf8Field)

def parseUint {ν : Type} (cast : String → Nat → Parse ν) (field : String) (data : List Byte) :
    Parse ν := do
  let x ← withField field (parseInt checks data)
  if x < 0 then .fails (.negativeInt field) else cast field x.toNat

def nextPart (hi : SequenceIterator) : Parse (SequenceItem × SequenceIterator) :=
  match hi.next checks with
  | none => .panics
  | some (none, _) => .fails .invalidHeader
  | some (some (.error e), _) => .fails (.tnetParse e)
  | some (some (.ok part), hi) => .returns (part, hi)

def parseHeader (data : List Byte) : Parse Header := do
  let hi ← withField "header item" (parseArray checks data)
  let (name, hi) ← nextPart checks hi
  let name ← parseStr checks "header name" "header name" name.data
  let (value, _) ← nextPart checks hi
  let value ← parseBytes checks "header value" value.data
  return ⟨name, value⟩

def headerItem (scratch : List Header) (ha : SequenceItem) : Parse (List Header) :=
  if scratch.length = headersMax then .fails .tooManyHeaders
  else do
    let header ← parseHeader checks ha.data
    push headersMax scratch header

def parseHeaders (data : List Byte) (scratch : List Header) : Parse (List Header) := do
  let headers ← withField "headers" (parseArray checks data)
  forItems checks headers scratch (headerItem checks)

def idEntry (id : Id) (m : MapItem) : Parse Id :=
  if m.key = ascii "id" then do
    let s ← parseBytes checks "id" m.data
    return { id with id := s }
  else if m.key = ascii "seq" then do
    let x ← parseUint checks casts.u32 "seq" m.data
    return { id with seq := some x }
  else return id

def idItem (scratch : List Id) (idm : SequenceItem) : Parse (List Id) :=
  if scratch.length = idsMax then .fails .tooManyIds
  else do
    let entries ← lift (parseMap checks idm.data)
    let id ← forEntries checks entries emptyId (idEntry casts checks)
    push idsMax scratch id

def withFirst (scratch : List Id) : Parse (List Id) :=
  if scratch = [] then push idsMax scratch emptyId else return scratch

def parseId (e : MapItem) (scratch : List Id) : Parse (List Id) :=
  match e.ftype with
  | .array => do
    let ids ← lift (parseArray checks e.data)
    forItems checks ids scratch (idItem casts checks)
  | .string => do
    let s ← lift (parseString checks e.data)
    let scratch ← withFirst scratch
    return scratch.modifyHead fun id => { id with id := s }
  | _ => .fails (.notMapOrString "id")

def parseSeq (data : List Byte) (scratch : List Id) : Parse (List Id) := do
  let x ← parseUint checks casts.u32 "seq" data
  let scratch ← withFirst scratch
  return scratch.modifyHead fun id => { id with seq := some x }

def extEntry (multi : Bool) (m : MapItem) : Parse Bool :=
  if m.key = ascii "multi" then withField "multi" (parseBool checks m.data) else return multi

def parseExt (data : List Byte) (multi : Bool) : Parse Bool := do
  let ext ← withField "ext" (parseMap checks data)
  forEntries checks ext multi (extEntry checks)

structure CommonData where
  from_ : List Byte
  ids : List Id
  multi : Bool
  ptypeStr : Str
  deriving DecidableEq

def CommonData.new : CommonData := ⟨[], [], false, .empty⟩

def commonEntry (d : CommonData) (e : MapItem) : Parse CommonData :=
  if e.key = ascii "from" then do
    let s ← parseBytes checks "from" e.data
    return { d with from_ := s }
  else if e.key = ascii "id" then do
    let ids ← parseId casts checks e d.ids
    return { d with ids := ids }
  else if e.key = ascii "seq" then do
    let ids ← parseSeq casts checks e.data d.ids
    return { d with ids := ids }
  else if e.key = ascii "type" then do
    let s ← parseStr checks "type" "type" e.data
    return { d with ptypeStr := s }
  else if e.key = ascii "ext" then do
    let multi ← parseExt checks e.data d.multi
    return { d with multi := multi }
  else return d

def CommonData.parse (root : MapIterator) : Parse CommonData :=
  forEntries checks root CommonData.new (commonEntry casts checks)

inductive Field (σ : Type) where
  | u32 (name : String) (set : UInt32 → σ → σ)
  | u16 (name : String) (set : UInt16 → σ → σ)
  | bool (name : String) (set : Bool → σ → σ)
  | bytes (name : String) (set : List Byte → σ → σ)
  | str (name utf8Name : String) (set : Str → σ → σ)
  | headers (get : σ → List Header) (set : List Header → σ → σ)

def Field.read {σ : Type} (data : List Byte) (d : σ) : Field σ → Parse σ
  | .u32 name set => do
    let x ← parseUint checks casts.u32 name data
    return set x d
  | .u16 name set => do
    let x ← parseUint checks casts.u16 name data
    return set x d
  | .bool name set => do
    let b ← withField name (parseBool checks data)
    return set b d
  | .bytes name set => do
    let s ← parseBytes checks name data
    return set s d
  | .str name utf8Name set => do
    let s ← parseStr checks name utf8Name data
    return set s d
  | .headers get set => do
    let headers ← parseHeaders checks data (get d)
    return set headers d

def fieldOf {σ : Type} (fields : List (String × Field σ)) (key : List Byte) : Option (Field σ) :=
  (fields.find? fun field => ascii field.1 = key).map Prod.snd

def fieldEntry {σ : Type} (fields : List (String × Field σ)) (d : σ) (e : MapItem) : Parse σ :=
  match fieldOf fields e.key with
  | some field => field.read casts checks e.data d
  | none => return d

def readFields {σ : Type} (fields : List (String × Field σ)) (root : MapIterator) (d : σ) :
    Parse σ :=
  forEntries checks root d (fieldEntry casts checks fields)

end

structure RequestData where
  credits : UInt32
  more : Bool
  stream : Bool
  routerResp : Bool
  maxSize : UInt32
  timeout : UInt32
  method : Str
  uri : Str
  headers : List Header
  contentType : Option ContentType
  body : List Byte
  peerAddress : Str
  peerPort : UInt16
  connectHost : Str
  connectPort : UInt16
  ignorePolicies : Bool
  trustConnectHost : Bool
  ignoreTlsErrors : Bool
  clientCert : Str
  clientKey : Str
  followRedirects : Bool
  deriving DecidableEq

def RequestData.new : RequestData where
  credits := 0
  more := false
  stream := false
  routerResp := false
  maxSize := 0
  timeout := 0
  method := .empty
  uri := .empty
  headers := []
  contentType := none
  body := []
  peerAddress := .empty
  peerPort := 0
  connectHost := .empty
  connectPort := 0
  ignorePolicies := false
  trustConnectHost := false
  ignoreTlsErrors := false
  clientCert := .empty
  clientKey := .empty
  followRedirects := false

def contentTypeOf (s : List Byte) : ContentType := if s = ascii "binary" then .binary else .text

def RequestData.fields : List (String × Field RequestData) := [
  ("credits", .u32 "credits" fun x d => { d with credits := x }),
  ("more", .bool "more" fun b d => { d with more := b }),
  ("stream", .bool "stream" fun b d => { d with stream := b }),
  ("router-resp", .bool "router-resp" fun b d => { d with routerResp := b }),
  ("max-size", .u32 "max-size" fun x d => { d with maxSize := x }),
  ("timeout", .u32 "timeout" fun x d => { d with timeout := x }),
  ("method", .str "method" "method" fun s d => { d with method := s }),
  ("uri", .str "uri" "uri" fun s d => { d with uri := s }),
  ("headers", .headers (fun d => d.headers) fun headers d => { d with headers := headers }),
  ("content-type", .bytes "content-type" fun s d =>
    { d with contentType := some (contentTypeOf s) }),
  ("body", .bytes "body" fun s d => { d with body := s }),
  ("peer-address", .str "peer-address" "peer-address" fun s d => { d with peerAddress := s }),
  ("peer-port", .u16 "peer-port" fun x d => { d with peerPort := x }),
  ("connect-host", .str "connect-host" "connect-host" fun s d => { d with connectHost := s }),
  ("connect-port", .u16 "connect-port" fun x d => { d with connectPort := x }),
  ("ignore-policies", .bool "ignore-policies" fun b d => { d with ignorePolicies := b }),
  ("trust-connect-host", .bool "trust-connect-host" fun b d => { d with trustConnectHost := b }),
  ("ignore-tls-errors", .bool "ignore-tls-errors" fun b d => { d with ignoreTlsErrors := b }),
  ("client-cert", .str "client-cert" "client-cert" fun s d => { d with clientCert := s }),
  ("client-key", .str "client-key" "client-key" fun s d => { d with clientKey := s }),
  ("follow-redirects", .bool "follow-redirects" fun b d => { d with followRedirects := b })]

structure ResponseData where
  credits : UInt32
  more : Bool
  code : UInt16
  reason : Str
  headers : List Header
  contentType : Option ContentType
  body : List Byte
  deriving DecidableEq

def ResponseData.new : ResponseData := ⟨0, false, 0, .empty, [], none, []⟩

def ResponseData.fields : List (String × Field ResponseData) := [
  ("credits", .u32 "credits" fun x d => { d with credits := x }),
  ("more", .bool "more" fun b d => { d with more := b }),
  ("code", .u16 "code" fun x d => { d with code := x }),
  ("reason", .str "reason" "reason" fun s d => { d with reason := s }),
  ("headers", .headers (fun d => d.headers) fun headers d => { d with headers := headers }),
  ("content-type", .bytes "content-type" fun s d =>
    { d with contentType := some (contentTypeOf s) }),
  ("body", .bytes "body" fun s d => { d with body := s })]

structure RequestErrorData where
  condition : Str
  deriving DecidableEq

def RequestErrorData.fields : List (String × Field RequestErrorData) := [
  ("condition", .str "condition" "condition" fun s d => { d with condition := s })]

structure RejectedInfo where
  code : UInt16
  reason : Str
  headers : List Header
  body : List Byte
  deriving DecidableEq

structure ResponseErrorData where
  condition : Str
  rejectedInfo : Option RejectedInfo
  deriving DecidableEq

structure ErrorFields where
  condition : Str
  info : RejectedInfo

def ErrorFields.fields : List (String × Field ErrorFields) := [
  ("condition", .str "condition" "condition" fun s d => { d with condition := s }),
  ("code", .u16 "code" fun x d => { d with info.code := x }),
  ("reason", .str "reason" "reason" fun s d => { d with info.reason := s }),
  ("headers", .headers (fun d => d.info.headers) fun headers d =>
    { d with info.headers := headers }),
  ("body", .bytes "body" fun s d => { d with info.body := s })]

structure CreditData where
  credits : UInt32
  deriving DecidableEq

def CreditData.fields : List (String × Field CreditData) := [
  ("credits", .u32 "credits" fun x d => { d with credits := x })]

structure CloseData where
  status : Option (UInt16 × Str)
  deriving DecidableEq

structure CloseFields where
  code : Option UInt16
  reason : Str

def CloseFields.fields : List (String × Field CloseFields) := [
  ("code", .u16 "code" fun x d => { d with code := some x }),
  ("body", .str "body" "condition" fun s d => { d with reason := s })]

structure PingData where
  credits : UInt32
  body : List Byte
  deriving DecidableEq

def PingData.fields : List (String × Field PingData) := [
  ("credits", .u32 "credits" fun x d => { d with credits := x }),
  ("body", .bytes "body" fun s d => { d with body := s })]

inductive PacketType where
  | data
  | error
  | credit
  | keepAlive
  | cancel
  | handoffStart
  | handoffProceed
  | close
  | ping
  | pong
  deriving DecidableEq

def PacketType.text : PacketType → String
  | .data => ""
  | .error => "error"
  | .credit => "credit"
  | .keepAlive => "keep-alive"
  | .cancel => "cancel"
  | .handoffStart => "handoff-start"
  | .handoffProceed => "handoff-proceed"
  | .close => "close"
  | .ping => "ping"
  | .pong => "pong"

def PacketType.all : List PacketType :=
  [.data, .error, .credit, .keepAlive, .cancel, .handoffStart, .handoffProceed, .close, .ping,
    .pong]

def PacketType.of (s : List Byte) : Option PacketType :=
  PacketType.all.find? fun t => ascii t.text = s

def PacketType.str (t : PacketType) : Str := .of t.text (by cases t <;> decide +kernel)

inductive RequestPacket where
  | unknown
  | data (d : RequestData)
  | error (d : RequestErrorData)
  | credit (d : CreditData)
  | keepAlive
  | cancel
  | handoffStart
  | handoffProceed
  | close (d : CloseData)
  | ping (d : PingData)
  | pong (d : PingData)
  deriving DecidableEq

inductive ResponsePacket where
  | unknown
  | data (d : ResponseData)
  | error (d : ResponseErrorData)
  | credit (d : CreditData)
  | keepAlive
  | cancel
  | handoffStart
  | handoffProceed
  | close (d : CloseData)
  | ping (d : PingData)
  | pong (d : PingData)
  deriving DecidableEq

structure Packet (π : Type) where
  from_ : List Byte
  ids : List Id
  multi : Bool
  ptype : π
  ptypeStr : Str
  deriving DecidableEq

section
variable (casts : Casts) (checks : Bool)

def rejected : Str := .of "rejected" (by decide +kernel)

def ResponseErrorData.parse (root : MapIterator) : Parse ResponseErrorData := do
  let d ← readFields casts checks ErrorFields.fields root ⟨.empty, 0, .empty, [], []⟩
  return ⟨d.condition, if d.condition = rejected then some d.info else none⟩

def CloseData.parse (root : MapIterator) : Parse CloseData := do
  let d ← readFields casts checks CloseFields.fields root ⟨none, .empty⟩
  return ⟨d.code.map fun code => (code, d.reason)⟩

def RequestPacket.parse (root : MapIterator) : Option PacketType → Parse RequestPacket
  | some .data => .data <$> readFields casts checks RequestData.fields root RequestData.new
  | some .error => .error <$> readFields casts checks RequestErrorData.fields root ⟨.empty⟩
  | some .credit => .credit <$> readFields casts checks CreditData.fields root ⟨0⟩
  | some .keepAlive => return .keepAlive
  | some .cancel => return .cancel
  | some .handoffStart => return .handoffStart
  | some .handoffProceed => return .handoffProceed
  | some .close => .close <$> CloseData.parse casts checks root
  | some .ping => .ping <$> readFields casts checks PingData.fields root ⟨0, []⟩
  | some .pong => .pong <$> readFields casts checks PingData.fields root ⟨0, []⟩
  | none => return .unknown

def ResponsePacket.parse (root : MapIterator) : Option PacketType → Parse ResponsePacket
  | some .data => .data <$> readFields casts checks ResponseData.fields root ResponseData.new
  | some .error => .error <$> ResponseErrorData.parse casts checks root
  | some .credit => .credit <$> readFields casts checks CreditData.fields root ⟨0⟩
  | some .keepAlive => return .keepAlive
  | some .cancel => return .cancel
  | some .handoffStart => return .handoffStart
  | some .handoffProceed => return .handoffProceed
  | some .close => .close <$> CloseData.parse casts checks root
  | some .ping => .ping <$> readFields casts checks PingData.fields root ⟨0, []⟩
  | some .pong => .pong <$> readFields casts checks PingData.fields root ⟨0, []⟩
  | none => return .unknown

def parseRoot : List Byte → Parse MapIterator
  | 84 :: src => withField "root" (parseMap checks src)
  | _ => .fails .unrecognized

def parsePacket {π : Type} (ptype : MapIterator → Option PacketType → Parse π) (src : List Byte) :
    Parse (Packet π) := do
  let root ← parseRoot checks src
  let common ← CommonData.parse casts checks root
  let ptype ← ptype root (PacketType.of common.ptypeStr.bytes)
  return ⟨common.from_, common.ids, common.multi, ptype, common.ptypeStr⟩

end

abbrev Request := Packet RequestPacket
abbrev Response := Packet ResponsePacket

def Request.parse (checks : Bool) (src : List Byte) : Parse Request :=
  parsePacket wrapping checks (RequestPacket.parse wrapping checks) src

def Response.parse (checks : Bool) (src : List Byte) : Parse Response :=
  parsePacket wrapping checks (ResponsePacket.parse wrapping checks) src

section
variable (checks : Bool)

def routeIdEntry (id : List Byte) (m : MapItem) : Parse (List Byte) :=
  if m.key = ascii "id" then parseBytes checks "id" m.data else return id

def routeIdItem (scratch : List Id) (idm : SequenceItem) : Parse (List Id) :=
  if scratch.length = idsMax then .fails .tooManyIds
  else do
    let entries ← lift (parseMap checks idm.data)
    let id ← forEntries checks entries [] (routeIdEntry checks)
    push idsMax scratch ⟨id, none⟩

def routeId (e : MapItem) (scratch : List Id) : Parse (List Id) :=
  match e.ftype with
  | .array => do
    let ids ← lift (parseArray checks e.data)
    forItems checks ids scratch (routeIdItem checks)
  | .string => do
    let s ← lift (parseString checks e.data)
    push idsMax scratch ⟨s, none⟩
  | _ => .fails (.notMapOrString "id")

def routeEntry (d : List Byte × List Id) (e : MapItem) : Parse (List Byte × List Id) :=
  if e.key = ascii "from" then do
    let s ← parseBytes checks "from" e.data
    return (s, d.2)
  else if e.key = ascii "id" then do
    let ids ← routeId checks e d.2
    return (d.1, ids)
  else return d

def parseIds (src : List Byte) : Parse (List Byte × List Id) := do
  let root ← parseRoot checks src
  forEntries checks root ([], []) (routeEntry checks)

end

abbrev Entry := List Byte × Tree

def entryIf (written : Bool) (key : String) (t : Tree) : List Entry :=
  if written then [(ascii key, t)] else []

def uintTree (x : Nat) (small : x < 2 ^ 32) : Tree :=
  .int ⟨x, by unfold isizeEnd; omega, by unfold isizeEnd; omega⟩

def u32Tree (x : UInt32) : Tree := uintTree x.toNat x.toNat_lt

def u16Tree (x : UInt16) : Tree := uintTree x.toNat (by have := x.toNat_lt; omega)

def headerTree (h : Header) : Tree := .array [.string h.name.bytes, .string h.value]

def headersTree (headers : List Header) : Tree := .array (headers.map headerTree)

def seqEntries (seq : Option UInt32) : List Entry :=
  match seq with
  | some seq => [(ascii "seq", u32Tree seq)]
  | none => []

def idTree (id : Id) : Tree := .map ((ascii "id", .string id.id) :: seqEntries id.seq)

def idEntries : List Id → List Entry
  | [] => []
  | [id] => (ascii "id", .string id.id) :: seqEntries id.seq
  | ids => [(ascii "id", .array (ids.map idTree))]

def CommonData.serialize (d : CommonData) : List Entry :=
  entryIf (d.from_ ≠ []) "from" (.string d.from_) ++ idEntries d.ids ++
    entryIf d.multi "ext" (.map [(ascii "multi", .bool true)]) ++
    entryIf (d.ptypeStr.bytes ≠ []) "type" (.string d.ptypeStr.bytes)

def contentTypeText : ContentType → String
  | .text => "text"
  | .binary => "binary"

def contentTypeEntries : Option ContentType → List Entry
  | some ctype => [(ascii "content-type", .string (ascii (contentTypeText ctype)))]
  | none => []

def RequestData.serialize (d : RequestData) : List Entry :=
  entryIf (d.method.bytes ≠ []) "method" (.string d.method.bytes) ++
    entryIf (d.uri.bytes ≠ []) "uri" (.string d.uri.bytes) ++
    entryIf (d.headers ≠ []) "headers" (headersTree d.headers) ++
    contentTypeEntries d.contentType ++
    entryIf (d.body ≠ []) "body" (.string d.body) ++
    entryIf (d.credits > 0) "credits" (u32Tree d.credits) ++
    entryIf d.more "more" (.bool true) ++
    entryIf d.stream "stream" (.bool true) ++
    entryIf d.routerResp "router-resp" (.bool true) ++
    entryIf (d.maxSize > 0) "max-size" (u32Tree d.maxSize) ++
    entryIf (d.timeout > 0) "timeout" (u32Tree d.timeout) ++
    entryIf (d.peerAddress.bytes ≠ []) "peer-address" (.string d.peerAddress.bytes) ++
    entryIf (d.peerAddress.bytes ≠ []) "peer-port" (u16Tree d.peerPort)

def ResponseData.serialize (d : ResponseData) : List Entry :=
  entryIf (d.code > 0) "code" (u16Tree d.code) ++
    entryIf (d.reason.bytes ≠ []) "reason" (.string d.reason.bytes) ++
    entryIf (d.headers ≠ []) "headers" (headersTree d.headers) ++
    contentTypeEntries d.contentType ++
    entryIf (d.body ≠ []) "body" (.string d.body) ++
    entryIf (d.credits > 0) "credits" (u32Tree d.credits) ++
    entryIf d.more "more" (.bool true)

def RequestErrorData.serialize (d : RequestErrorData) : List Entry :=
  [(ascii "condition", .string d.condition.bytes)]

def RejectedInfo.serialize (ri : RejectedInfo) : List Entry :=
  [(ascii "code", u16Tree ri.code), (ascii "reason", .string ri.reason.bytes)] ++
    entryIf (ri.headers ≠ []) "headers" (headersTree ri.headers) ++
      [(ascii "body", .string ri.body)]

def ResponseErrorData.serialize (d : ResponseErrorData) : List Entry :=
  (ascii "condition", .string d.condition.bytes) ::
    match d.rejectedInfo with
    | some ri => ri.serialize
    | none => []

def CreditData.serialize (d : CreditData) : List Entry := [(ascii "credits", u32Tree d.credits)]

def CloseData.serialize (d : CloseData) : List Entry :=
  match d.status with
  | some (code, reason) =>
    (ascii "code", u16Tree code) :: entryIf (reason.bytes ≠ []) "body" (.string reason.bytes)
  | none => []

def PingData.serialize (d : PingData) : List Entry := entryIf (d.body ≠ []) "body" (.string d.body)

def RequestPacket.serialize : RequestPacket → Option (PacketType × List Entry)
  | .unknown => none
  | .data d => some (.data, d.serialize)
  | .error d => some (.error, d.serialize)
  | .credit d => some (.credit, d.serialize)
  | .keepAlive => some (.keepAlive, [])
  | .cancel => some (.cancel, [])
  | .handoffStart => some (.handoffStart, [])
  | .handoffProceed => some (.handoffProceed, [])
  | .close d => some (.close, d.serialize)
  | .ping d => some (.ping, d.serialize)
  | .pong d => some (.pong, d.serialize)

def ResponsePacket.serialize : ResponsePacket → Option (PacketType × List Entry)
  | .unknown => none
  | .data d => some (.data, d.serialize)
  | .error d => some (.error, d.serialize)
  | .credit d => some (.credit, d.serialize)
  | .keepAlive => some (.keepAlive, [])
  | .cancel => some (.cancel, [])
  | .handoffStart => some (.handoffStart, [])
  | .handoffProceed => some (.handoffProceed, [])
  | .close d => some (.close, d.serialize)
  | .ping d => some (.ping, d.serialize)
  | .pong d => some (.pong, d.serialize)

structure Dest where
  bytes : List Byte
  small : bytes.length < isizeEnd

def Dest.cursor (dest : Dest) : Cursor :=
  ⟨dest.bytes.length - 1, [], Nat.zero_le _, Nat.lt_of_le_of_lt (Nat.sub_le _ _) dest.small⟩

def Dest.overwritten (dest : Dest) (written : List Byte) : List Byte :=
  written ++ dest.bytes.drop written.length

def serializePacket {π : Type} (ptype : π → Option (PacketType × List Entry)) (checks : Bool)
    (p : Packet π) (dest : Dest) : Option (Option Nat × List Byte) :=
  if dest.bytes = [] then some (none, [])
  else
    match ptype p.ptype with
    | none => none
    | some (t, entries) =>
      let common : CommonData := ⟨p.from_, p.ids, p.multi, t.str⟩
      match (Writer.new dest.cursor).appendAll
        (PushpinTnetstring.Tree.map (common.serialize ++ entries)).ops with
      | (false, _) => some (none, dest.overwritten [84])
      | (true, writer) =>
        match writer.flush checks with
        | none => none
        | some (false, writer) => some (none, dest.overwritten (84 :: writer.dest.written))
        | some (true, writer) =>
          some (some (writer.dest.written.length + 1), dest.overwritten (84 :: writer.dest.written))

def Request.serialize (checks : Bool) (p : Request) (dest : Dest) :
    Option (Option Nat × List Byte) :=
  serializePacket RequestPacket.serialize checks p dest

def Response.serialize (checks : Bool) (p : Response) (dest : Dest) :
    Option (Option Nat × List Byte) :=
  serializePacket ResponsePacket.serialize checks p dest

end PushpinZhttpPacket
