import Pushpin.Core.HttpHeaders
import Pushpin.Handler.Filters

/-!
Hold instructions of a response: as Grip header fields, or as a JSON document of the
type `application/grip-instruct`. An error that leaves the text of the caller alone
is `none`.
-/
namespace PushpinInstruct
open OrderedMaps PushpinVariant PushpinHttpHeaders
open PushpinFilters (Meta toUtf8 messageFilterStackSizeMax)

def defaultResponseTimeout : Int := 55
def minimumResponseTimeout : Int := 5
def defaultNextLinkTimeout : Int := 120

inductive HoldMode where
  | noHold
  | responseHold
  | streamHold
deriving DecidableEq, Repr

inductive KeepAliveMode where
  | noKeepAlive
  | idle
  | interval
deriving DecidableEq, Repr

structure Channel where
  name : String
  prevId : Option String := none
  filters : List String := []
deriving DecidableEq, Repr

structure Hold where
  holdMode : HoldMode := .noHold
  channels : List Channel := []
  timeout : Int := -1
  keepAliveMode : KeepAliveMode := .noKeepAlive
  keepAliveData : Bytes := []
  keepAliveTimeout : Int := -1
  holdMeta : Meta := OrderedMap.empty

structure ResponseData where
  code : Int
  reason : Bytes
  headers : Headers
  body : Bytes
deriving DecidableEq, Repr

structure Links where
  nextLink : Option String := none
  nextLinkTimeout : Int := -1
  goneLink : Option String := none
deriving DecidableEq, Repr

structure Instruct where
  hold : Hold
  exposeHeaders : List Bytes
  response : ResponseData
  links : Links

def charToHex (c : UInt8) : Option UInt8 :=
  if 48 ≤ c && c ≤ 57 then some (c - 48)
  else if 97 ≤ c && c ≤ 102 then some (c - 97 + 10)
  else if 65 ≤ c && c ≤ 70 then some (c - 65 + 10)
  else none

/-- `unescape`, without the null that stands for no bytes. The byte after an unknown
    escape is lost. -/
def unescapeFrom : Nat → Bytes → Option Bytes
  | _, [] => some []
  | 0, _ => none
  | fuel + 1, c :: rest =>
    if c = 92 then
      match rest with
      | [] => none
      | d :: rest =>
        if d = 92 then (unescapeFrom fuel rest).map (92 :: ·)
        else if d = 114 then (unescapeFrom fuel rest).map (13 :: ·)
        else if d = 110 then (unescapeFrom fuel rest).map (10 :: ·)
        else if d = 120 then
          match rest with
          | hi :: lo :: rest => do
            let hi ← charToHex hi
            let lo ← charToHex lo
            (unescapeFrom fuel rest).map ((16 * hi + lo) :: ·)
          | _ => none
        else unescapeFrom fuel rest
    else (unescapeFrom fuel rest).map (c :: ·)

def unescape (b : Bytes) : Option Bytes := (unescapeFrom b.length b).filter (· ≠ [])

section
variable (fromUtf8 : Bytes → String) (fromBase64 : Bytes → Option Bytes)

def gripHold (hs : Headers) : Except String HoldMode :=
  match hs.get (ascii "Grip-Hold") with
  | none => .ok .noHold
  | some mode =>
    if mode = ascii "response" then .ok .responseHold
    else if mode = ascii "stream" then .ok .streamHold
    else .error "Grip-Hold must be set to either 'response' or 'stream'"

def gripChannel : Parameters → Except String Channel
  | [] => .error "failed to parse Grip-Channel"
  | first :: rest =>
    let params : Parameters := first :: rest
    let name := fromUtf8 first.1
    let filters := (rest.filter fun p => p.1 = ascii "filter").map fun p => fromUtf8 (p.2.getD [])
    if messageFilterStackSizeMax < filters.length then
      .error ("too many filters for channel '" ++ name ++ "'")
    else .ok ⟨name, (params.get (ascii "prev-id")).map fromUtf8, filters⟩

def gripChannels (hs : Headers) : Except String (List Channel) :=
  (hs.getAllAsParameters (ascii "Grip-Channel") .noParseFirstParameter).mapM (gripChannel fromUtf8)

def parseTimeout (text : Bytes) (unparsed invalid : String) : Except String Int :=
  match bytesToInt text with
  | none => .error unparsed
  | some timeout => if timeout < 0 then .error invalid else .ok timeout

def gripTimeout (hs : Headers) : Except String Int :=
  match hs.get (ascii "Grip-Timeout") with
  | none => .ok (-1)
  | some text => parseTimeout text "failed to parse Grip-Timeout" "Grip-Timeout has invalid value"

def keepAliveModeOf (mode : Bytes) : Except String KeepAliveMode :=
  if mode = [] ∨ mode = ascii "idle" then .ok .idle
  else if mode = ascii "interval" then .ok .interval
  else .error ("no such Grip-Keep-Alive mode '" ++ fromUtf8 mode ++ "'")

def keepAliveTimeoutOf (params : Parameters) : Except String Int :=
  if Parameters.contains params (ascii "timeout") then
    parseTimeout ((Parameters.get params (ascii "timeout")).getD [])
      "failed to parse Grip-Keep-Alive timeout value" "Grip-Keep-Alive timeout has invalid value"
  else .ok defaultResponseTimeout

def keepAliveDataOf (format val : Bytes) : Except String Bytes :=
  if format = [] ∨ format = ascii "raw" then .ok val
  else if format = ascii "cstring" then
    match unescape val with
    | none => .error "failed to parse Grip-Keep-Alive cstring format"
    | some data => .ok data
  else if format = ascii "base64" then .ok ((fromBase64 val).getD [])
  else .error ("no such Grip-Keep-Alive format '" ++ fromUtf8 format ++ "'")

def gripKeepAlive (hs : Headers) : Except String (KeepAliveMode × Bytes × Int) :=
  match hs.getAsParameters (ascii "Grip-Keep-Alive") .noParseFirstParameter with
  | [] => .ok (.noKeepAlive, [], -1)
  | first :: rest =>
    let params : Parameters := first :: rest
    if first.1 = [] then .error "Grip-Keep-Alive cannot be empty"
    else do
      let mode ← keepAliveModeOf fromUtf8 ((params.get (ascii "mode")).getD [])
      let timeout ← keepAliveTimeoutOf params
      let data ← keepAliveDataOf fromUtf8 fromBase64 ((params.get (ascii "format")).getD []) first.1
      return (mode, data, timeout)

def gripSetMeta (metas : Meta) : Parameters → Except String Meta
  | [] => .error "Grip-Set-Meta cannot be empty"
  | (key, val) :: _ => .ok (metas.insert (fromUtf8 key) (val.map fromUtf8))

def gripMeta (hs : Headers) : Except String Meta :=
  (hs.getAllAsParameters (ascii "Grip-Set-Meta") .parseAllParameters).foldlM
    (gripSetMeta fromUtf8) OrderedMap.empty

def gripStatus (response : ResponseData) : Except String ResponseData :=
  match response.headers.get (ascii "Grip-Status") with
  | none | some [] => .ok response
  | some status =>
    match bytesToInt (status.takeWhile (· ≠ 32)) with
    | none => .error "Grip-Status contains invalid status code"
    | some code =>
      if code < 0 ∨ 999 < code then .error "Grip-Status contains invalid status code"
      else .ok { response with code := code, reason := (status.dropWhile (· ≠ 32)).drop 1 }

/-- A link between angle brackets. Links without a parameter are passed over. -/
def gripLink (validLink : String → Bool) (links : Links) (params : Parameters) :
    Except String Links :=
  match params with
  | first :: second :: rest =>
    let link := first.1
    if link.length ≤ 2 ∨ link.head? ≠ some 60 ∨
      link.getLast? ≠ some 62 then .error "failed to parse Grip-Link value"
    else
      let linkString := fromUtf8 ((link.drop 1).dropLast)
      if !validLink linkString then .error "Grip-Link contains invalid link"
      else
        let params : Parameters := first :: second :: rest
        let rel := (params.get (ascii "rel")).getD []
        if rel = ascii "next" then
          if params.contains (ascii "timeout") then do
            let timeout ← parseTimeout ((params.get (ascii "timeout")).getD [])
              "failed to parse Grip-Link timeout value" "Grip-Link timeout has invalid value"
            return { links with nextLink := some linkString, nextLinkTimeout := timeout }
          else .ok { links with
            nextLink := some linkString, nextLinkTimeout := defaultNextLinkTimeout }
        else if rel = ascii "gone" then .ok { links with goneLink := some linkString }
        else .ok links
  | _ => .ok links

def gripLinks (validLink : String → Bool) (hs : Headers) : Except String Links :=
  (hs.getAllAsParameters (ascii "Grip-Link") .noParseFirstParameter).foldlM
    (gripLink fromUtf8 validLink) {}

/-- The fields that the client gets: none of Grip, and only those that are exposed. -/
def exposed (exposeHeaders : List Bytes) (hs : Headers) : Headers :=
  hs.filter fun h =>
    !((h.1.take 5).map lower = (ascii "Grip-").map lower) &&
      (exposeHeaders.isEmpty || exposeHeaders.any fun e => sameName e h.1)

def jsonMode (vhold : Variant) : Except String HoldMode := do
  match ← vhold.getString fromUtf8 "hold" "mode" false with
  | none => return .responseHold
  | some mode =>
    if mode = "response" then return .responseHold
    else if mode = "stream" then return .streamHold
    else throw "hold 'mode' must be set to either 'response' or 'stream'"

def jsonFilter (vfilter : Variant) : Except String String :=
  match vfilter.asString fromUtf8 with
  | some filter => .ok (filter.getD "")
  | none => .error "filters contains value with wrong type"

def jsonChannel (vchannel : Variant) : Except String Channel := do
  let name ← vchannel.getString fromUtf8 "channel" "name" true
  let prevId ← vchannel.getString fromUtf8 "channel" "prev-id" false
  let vfilters ← vchannel.getList "channel" "filters" false
  let filters ← vfilters.mapM (jsonFilter fromUtf8)
  return ⟨name.getD "", prevId, filters⟩

def jsonTimeout (v : Variant) (pn : String) (default : Int) : Except String Int :=
  if v.keyedObjectContains "timeout" then
    let vtimeout := v.keyedObjectGetValue "timeout"
    if !vtimeout.canConvertInt then .error (pn ++ " contains 'timeout' with wrong type")
    else if vtimeout.toInt < 0 then .error (pn ++ " contains 'timeout' with invalid value")
    else .ok (vtimeout.toInt)
  else .ok default

def jsonBytes (v : Variant) (pn name binName : String) (default : Bytes) : Except String Bytes :=
  if v.keyedObjectContains binName then do
    let contentBin ← v.getString fromUtf8 pn binName false
    return (fromBase64 (toUtf8 (contentBin.getD ""))).getD []
  else if v.keyedObjectContains name then
    match v.keyedObjectGetValue name with
    | .byteArray b => .ok (b.getD [])
    | .string s => .ok (toUtf8 s)
    | _ => .error (pn ++ " contains '" ++ name ++ "' with wrong type")
  else .ok default

def jsonKeepAlive (hold : Hold) (vhold : Variant) : Except String (Bytes × Int) := do
  let vka ← vhold.getKeyedObject "hold" "keep-alive" false
  if vka.isKeyedObject then do
    let data ← jsonBytes fromUtf8 fromBase64 vka "keep-alive" "content" "content-bin"
      hold.keepAliveData
    let timeout ← jsonTimeout vka "keep-alive" 55
    return (data, timeout)
  else return (hold.keepAliveData, hold.keepAliveTimeout)

def jsonSetMeta (metas : Meta) (e : String × Variant) : Except String Meta :=
  match e.2.asString fromUtf8 with
  | some val => .ok (metas.insert e.1 val)
  | none => .error ("'meta' contains '" ++ e.1 ++ "' with wrong type")

def jsonMeta (hold : Hold) (vhold : Variant) : Except String Meta := do
  let vmeta ← vhold.getKeyedObject "hold" "meta" false
  vmeta.entries.foldlM (jsonSetMeta fromUtf8) hold.holdMeta

def jsonHold (hold : Hold) (vhold : Variant) : Except String Hold := do
  let holdMode ← jsonMode fromUtf8 vhold
  let vchannels ← vhold.getList "hold" "channels" true
  let channels ← vchannels.mapM (jsonChannel fromUtf8)
  let timeout ← jsonTimeout vhold "hold" hold.timeout
  let keepAlive ← jsonKeepAlive fromUtf8 fromBase64 hold vhold
  let holdMeta ← jsonMeta fromUtf8 hold vhold
  return {
    holdMode := holdMode
    channels := hold.channels ++ channels
    timeout := timeout
    keepAliveMode := hold.keepAliveMode
    keepAliveData := keepAlive.1
    keepAliveTimeout := keepAlive.2
    holdMeta := holdMeta }

def jsonHeader (vheader : Variant) : Except String (Bytes × Bytes) :=
  match vheader with
  | .list [vname, vval] => do
    let name ← (vname.asString fromUtf8).elim
      (throw "header contains name element with wrong type") pure
    let val ← (vval.asString fromUtf8).elim
      (throw "header contains value element with wrong type") pure
    return (toUtf8 (name.getD ""), toUtf8 (val.getD ""))
  | .list _ => .error "headers contains list with wrong number of elements"
  | _ => .error "headers contains element with wrong type"

def jsonHeaders (vheaders : Variant) : Except String Headers :=
  match vheaders with
  | .list items => items.mapM (jsonHeader fromUtf8)
  | .map entries | .hash entries => entries.mapM fun e =>
    match e.2.asString fromUtf8 with
    | some val => .ok (toUtf8 e.1, toUtf8 (val.getD ""))
    | none => .error ("headers contains '" ++ e.1 ++ "' with wrong type")
  | _ => .error "response contains 'headers' with wrong type"

def jsonCode (response : ResponseData) (v : Variant) : Except String ResponseData :=
  if v.keyedObjectContains "code" then
    let vcode := v.keyedObjectGetValue "code"
    if !vcode.canConvertInt then .error "response contains 'code' with wrong type"
    else if vcode.toInt < 0 ∨
      999 < vcode.toInt then .error "response contains 'code' with invalid value"
    else .ok { response with code := vcode.toInt, reason := [] }
  else .ok response

def jsonResponse (response : ResponseData) (v : Variant) : Except String ResponseData := do
  let response ← jsonCode response v
  let reason := (← v.getString fromUtf8 "response" "reason" false).getD ""
  let headers ← if v.keyedObjectContains "headers" then
    jsonHeaders fromUtf8 (v.keyedObjectGetValue "headers") else pure []
  let body ← jsonBytes fromUtf8 fromBase64 v "response" "body" "body-bin" []
  return {
    code := response.code
    reason := if reason = "" then response.reason else toUtf8 reason
    headers := headers
    body := body }

def failing {α : Type} : Except String α → Except (Option String) α
  | .ok a => .ok a
  | .error message => .error (some message)

def documentHold (hold : Hold) (entries : List (String × Variant)) : Except (Option String) Hold :=
  match lookup entries "hold" with
  | none => .ok hold
  | some (.map holdEntries) => failing (jsonHold fromUtf8 fromBase64 hold (.map holdEntries))
  | some _ => .error (some "instruct contains 'hold' with wrong type")

def documentResponse (response : ResponseData) (entries : List (String × Variant)) :
    Except (Option String) ResponseData :=
  match lookup entries "response" with
  | none => .ok { response with headers := [], body := [] }
  | some (.map members) => failing (jsonResponse fromUtf8 fromBase64 response (.map members))
  | some _ => .error none

def document (parseJson : Bytes → Variant) (response : ResponseData) :
    Except String (List (String × Variant)) :=
  if response.code ≠ 200 then
    .error "response code for application/grip-instruct content must be 200"
  else
    match parseJson response.body with
    | .invalid => .error "failed to parse application/grip-instruct content as JSON"
    | .map entries => .ok entries
    | _ => .error "instruct must be an object"

def headerHold (hs : Headers) : Except String Hold := do
  let holdMode ← gripHold hs
  let channels ← gripChannels fromUtf8 hs
  let timeout ← gripTimeout hs
  let keepAlive ← gripKeepAlive fromUtf8 fromBase64 hs
  let holdMeta ← gripMeta fromUtf8 hs
  return {
    holdMode := holdMode
    channels := channels
    timeout := timeout
    keepAliveMode := keepAlive.1
    keepAliveData := keepAlive.2.1
    keepAliveTimeout := keepAlive.2.2
    holdMeta := holdMeta }

def Hold.finish (hold : Hold) : Hold :=
  { hold with
    timeout := max (if hold.timeout = -1 then defaultResponseTimeout else hold.timeout)
      minimumResponseTimeout
    keepAliveTimeout :=
      if hold.keepAliveTimeout ≠ -1 ∧ hold.keepAliveTimeout < 1 then 1 else hold.keepAliveTimeout }

def gripInstruct : Bytes := ascii "application/grip-instruct"

def fromDocument (parseJson : Bytes → Variant) (response newResponse : ResponseData) (hold : Hold) :
    Except (Option String) (Hold × ResponseData) :=
  if response.headers.getAsFirstParameter (ascii "Content-Type") = gripInstruct then do
    let entries ← failing (document parseJson response)
    let hold ← documentHold fromUtf8 fromBase64 hold entries
    let newResponse ← documentResponse fromUtf8 fromBase64 newResponse entries
    return (hold, newResponse)
  else .ok (hold, newResponse)

def fromResponse (parseJson : Bytes → Variant) (validLink : String → Bool) (getReason : Int → Bytes)
    (response : ResponseData) : Except (Option String) Instruct := do
  let hold ← failing (headerHold fromUtf8 fromBase64 response.headers)
  let exposeHeaders := response.headers.getAll (ascii "Grip-Expose-Headers")
  let newResponse ← failing (gripStatus response)
  let links ← failing (gripLinks fromUtf8 validLink response.headers)
  let newResponse := { newResponse with headers := exposed exposeHeaders response.headers }
  let (hold, newResponse) ← fromDocument fromUtf8 fromBase64 parseJson response newResponse hold
  return {
    hold := hold.finish
    exposeHeaders := exposeHeaders
    response :=
      if newResponse.reason = [] then { newResponse with reason := getReason newResponse.code }
        else newResponse
    links := links }

end
end PushpinInstruct
