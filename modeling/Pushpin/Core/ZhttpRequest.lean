import Pushpin.Core.ZhttpPackets
import Pushpin.Foundations.Runs

/-!
`ZhttpRequest`, either end of an HTTP exchange over ZHTTP. The object defers its
updates, so an update is an event of its own. The signal that it emits in the middle
of an update may be answered by calls, which the update has as its argument; every
other signal is the last thing that an event does, and the calls that answer it are
the events after it. A failed assertion, like the use of a null manager, sets `aborted`.
-/
namespace PushpinZhttpRequest
open PushpinVariant (Bytes Variant toInt32)
open PushpinHttpHeaders (Headers ascii)
open PushpinZhttpPackets

def idealCredits : Int := 200000

def reqBufMax : Nat := 1000000

inductive State where
  | stopped
  | clientStarting
  | clientRequestStartWait
  | clientRequesting
  | clientRequestFinishWait
  | clientReceiving
  | serverStarting
  | serverReceiving
  | serverResponseWait
  | serverResponseStarting
  | serverResponding
deriving DecidableEq, Repr

inductive ErrorCondition where
  | generic
  | policy
  | connect
  | connectTimeout
  | tls
  | lengthRequired
  | disconnected
  | timeout
  | unavailable
  | requestTooLarge
deriving DecidableEq, Repr

inductive Signal where
  | readyRead
  | bytesWritten (count : Nat)
  | writeBytesChanged
  | error
  | paused
deriving DecidableEq, Repr

/-- What goes out. A first request packet has no address. A keep-alive that the manager
    sends for many sessions is known by the sequence number it takes of this one. -/
inductive Packet where
  | request (packet : ZhttpRequestPacket) (address : Option Bytes)
  | response (packet : ZhttpResponsePacket) (address : Bytes) (routerResp : Bool)
  | shared (seq : Int)

/-- What the history of a request adds up to: the body bytes taken up after the first
    packet, the credits received, and the body bytes that the application wrote. -/
structure Ledger where
  bodyIn : Nat := 0
  creditsIn : Int := 0
  written : Bytes := []

structure Options where
  connectHost : String := ""
  connectPort : Int := -1
  ignorePolicies : Bool := false
  trustConnectHost : Bool := false
  ignoreTlsErrors : Bool := false
  timeout : Int := 0
  clientCert : String := ""
  clientKey : String := ""
  sendBodyAfterAck : Bool := false
  quiet : Bool := false

structure ServerState where
  rid : Bytes × Bytes
  peerAddress : String
  requestMethod : String
  requestUri : Bytes
  requestHeaders : Headers
  requestBody : Bytes := []
  responseCode : Int := -1
  inSeq : Int := -1
  outSeq : Int := -1
  outCredits : Int := -1
  routerResp : Bool := false
  userData : Variant

/-- The manager is there until `cleanup`, with its instance id. Timers are armed or not. -/
structure ZhttpRequest where
  manager : Bool := false
  instanceId : Bytes
  server : Bool := false
  started : Bool := false
  state : State := .stopped
  rid : Bytes × Bytes
  doReq : Bool := false
  toAddress : Bytes := []
  peerAddress : String := ""
  options : Options := {}
  passthrough : Variant := .invalid
  requestMethod : String := ""
  requestUri : Bytes := []
  requestHeaders : Headers := []
  requestBodyBuf : Bytes := []
  inSeq : Int := 0
  outSeq : Int := 0
  outCredits : Int := 0
  bodyFinished : Bool := false
  pendingInCredits : Int := 0
  haveRequestBody : Bool := false
  haveResponseValues : Bool := false
  responseCode : Int := 0
  responseReason : Bytes := []
  responseHeaders : Headers := []
  responseBodyBuf : Bytes := []
  userData : Variant := .invalid
  pausing : Bool := false
  paused : Bool := false
  pendingUpdate : Bool := false
  needPause : Bool := false
  readableChanged : Bool := false
  writableChanged : Bool := false
  errored : Bool := false
  errorCondition : ErrorCondition := .generic
  expireTimer : Bool := false
  keepAliveTimer : Bool := false
  finishTimer : Bool := false
  multi : Bool := false
  routerResp : Bool := false
  registered : Bool := false
  deleted : Bool := false
  aborted : Bool := false
  sent : List Packet := []
  signals : List Signal := []
  ledger : Ledger := {}

def convertError (cond : Bytes) : ErrorCondition :=
  if cond = ascii "policy-violation" then .policy
  else if cond = ascii "remote-connection-failed" then .connect
  else if cond = ascii "tls-error" then .tls
  else if cond = ascii "length-required" then .lengthRequired
  else if cond = ascii "connection-timeout" then .connectTimeout
  else if cond = ascii "disconnected" then .disconnected
  else .generic

namespace ZhttpRequest

def abort (s : ZhttpRequest) : ZhttpRequest := { s with aborted := true }

def signal (signal : Signal) (s : ZhttpRequest) : ZhttpRequest :=
  { s with signals := s.signals ++ [signal] }

/-- Both ends take the next sequence number, except for a client in req mode. -/
def writeRequest (packet : ZhttpRequestPacket) (s : ZhttpRequest) : ZhttpRequest :=
  if !s.manager then s.abort
  else if s.doReq then
    { s with
      sent := s.sent ++
        [.request { packet with from_ := s.rid.1, ids := [{ id := s.rid.2 }] } none] }
  else if s.outSeq = 0 then
    { s with
      outSeq := toInt32 (s.outSeq + 1)
      sent := s.sent ++
        [.request { packet with from_ := s.rid.1, ids := [⟨s.rid.2, s.outSeq⟩] } none] }
  else if s.toAddress.isEmpty then s.abort
  else
    { s with
      outSeq := toInt32 (s.outSeq + 1)
      sent := s.sent ++ [.request { packet with from_ := s.rid.1, ids := [⟨s.rid.2, s.outSeq⟩] }
        (some s.toAddress)] }

def writeResponse (packet : ZhttpResponsePacket) (s : ZhttpRequest) : ZhttpRequest :=
  if !s.manager then s.abort
  else
    { s with
      outSeq := toInt32 (s.outSeq + 1)
      sent := s.sent ++ [.response { packet with
        from_ := s.instanceId, ids := [⟨s.rid.2, s.outSeq⟩], userData :=
          s.userData } s.rid.1 s.routerResp] }

def destination (s : ZhttpRequest) : Bytes := if s.server then s.rid.1 else s.toAddress

def outSeqInc (s : ZhttpRequest) : ZhttpRequest :=
  if s.destination.isEmpty then s.abort
  else { s with outSeq := toInt32 (s.outSeq + 1), sent := s.sent ++ [.shared s.outSeq] }

def cleanup (s : ZhttpRequest) : ZhttpRequest :=
  { s with
    needPause := false, readableChanged := false, writableChanged := false
    expireTimer := false, keepAliveTimer := false, finishTimer := false
    registered := false, manager := false }

def fail (condition : ErrorCondition) (s : ZhttpRequest) : ZhttpRequest :=
  { s with state := .stopped, errored := true, errorCondition := condition }.cleanup.signal .error

def update (s : ZhttpRequest) : ZhttpRequest := { s with pendingUpdate := true }

def refreshTimeout (s : ZhttpRequest) : ZhttpRequest := { s with expireTimer := true }

def keepAliveTimeout (s : ZhttpRequest) : ZhttpRequest :=
  if s.server then s.writeResponse { type := .keepAlive } else s.writeRequest { type := .keepAlive }

def startKeepAlive (s : ZhttpRequest) : ZhttpRequest :=
  if !s.manager then s.abort
  else if s.multi then
    if s.keepAliveTimer then { s.keepAliveTimeout with keepAliveTimer := false, registered := true }
    else { s with registered := true }
  else { s with registered := false, keepAliveTimer := true }

def stopKeepAlive (s : ZhttpRequest) : ZhttpRequest :=
  if !s.manager then s.abort else { s with keepAliveTimer := false, registered := false }

def trySendPause (s : ZhttpRequest) : ZhttpRequest :=
  if s.needPause && (s.state = .serverResponseWait || s.state = .serverResponding) &&
    s.responseBodyBuf.isEmpty then
    { s with needPause := false }.writeResponse { type := .handoffStart }
  else s

def writeRequestEnd (s : ZhttpRequest) : ZhttpRequest :=
  ({ s with state := .clientReceiving }.writeRequest { type := .data }).signal (.bytesWritten 0)

/-- Request body as far as the credits go, with the credits that are due. -/
def writeRequestBody (s : ZhttpRequest) : ZhttpRequest :=
  let buf := takeFront s.outCredits s.requestBodyBuf
  let rest := leaveBack s.outCredits s.requestBodyBuf
  let more := !rest.isEmpty || !s.bodyFinished
  ({ s with
    requestBodyBuf := rest
    outCredits := s.outCredits - buf.length
    writableChanged := true
    pendingInCredits := if 0 < s.pendingInCredits then 0 else s.pendingInCredits
    state := if more then s.state else .clientReceiving }.writeRequest
      { type := .data, body := taken buf, more := more
        credits := if 0 < s.pendingInCredits then s.pendingInCredits else -1 }).signal
          (.bytesWritten buf.length)

def writeRequestCredits (s : ZhttpRequest) : ZhttpRequest :=
  { s with pendingInCredits := 0 }.writeRequest { type := .credit, credits := s.pendingInCredits }

/-- A data packet with response body as far as the credits go. The one without `more`
    ends the session. -/
def writeResponseBody (packet : ZhttpResponsePacket) (s : ZhttpRequest) : ZhttpRequest :=
  let body := takeFront s.outCredits s.responseBodyBuf
  let rest := leaveBack s.outCredits s.responseBodyBuf
  let more := !rest.isEmpty || !s.bodyFinished
  let s := { s with
    responseBodyBuf := rest, outCredits := s.outCredits - body.length }.writeResponse
    { packet with body := taken body, more := more }
  if more then s else { s with state := .stopped }.cleanup

section
-- the calls that answer `bytesWritten`
variable (app : ZhttpRequest → ZhttpRequest)

def tryWriteResponse (s : ZhttpRequest) : ZhttpRequest :=
  let body := takeFront s.outCredits s.responseBodyBuf
  app (({ s with writableChanged := s.writableChanged || !body.isEmpty }.writeResponseBody
    { type := .data }).signal (.bytesWritten body.length))

def tryWrite (s : ZhttpRequest) : ZhttpRequest :=
  let s :=
    if s.state = .clientRequesting then
      if s.requestBodyBuf.isEmpty && s.bodyFinished then app s.writeRequestEnd
      else if !s.requestBodyBuf.isEmpty && 0 < s.outCredits then app s.writeRequestBody
      else s
    else if s.state = .clientReceiving then
      if 0 < s.pendingInCredits then s.writeRequestCredits else s
    else if s.state = .serverResponding then
      if (!s.responseBodyBuf.isEmpty && 0 < s.outCredits) ||
        (s.responseBodyBuf.isEmpty && s.bodyFinished) then
        s.tryWriteResponse app
      else s
    else s
  if s.deleted then s else s.trySendPause

end

def readBody (size : Int) (s : ZhttpRequest) : ZhttpRequest :=
  if s.server then
    let out := takeFront size s.requestBodyBuf
    if out.isEmpty then s
    else
      let s := { s with
        requestBodyBuf := leaveBack size s.requestBodyBuf, pendingInCredits :=
          s.pendingInCredits + out.length }
      if !s.pausing && !s.paused then
        { s with pendingInCredits := 0 }.writeResponse
          { type := .credit, credits := s.pendingInCredits }
      else s
  else
    let out := takeFront size s.responseBodyBuf
    if out.isEmpty then s
    else
      let s := { s with
        responseBodyBuf := leaveBack size s.responseBodyBuf, pendingInCredits :=
          s.pendingInCredits + out.length }
      if s.state = .clientReceiving then s.tryWrite id else s

def startClient (s : ZhttpRequest) : ZhttpRequest :=
  { s with
    state := .clientStarting
    finishTimer := s.finishTimer || 0 < s.options.timeout }.refreshTimeout.update

def startServer (s : ZhttpRequest) : ZhttpRequest :=
  { s with state := .serverStarting, started := true }.startKeepAlive.refreshTimeout.update

def start (method : String) (uri : Bytes) (headers : Headers) (s : ZhttpRequest) : ZhttpRequest :=
  { s with
    requestMethod := method, requestUri := uri, requestHeaders := headers
    started := true }.startClient

def beginResponse (code : Int) (reason : Bytes) (headers : Headers) (s : ZhttpRequest) :
    ZhttpRequest :=
  { s with
    responseCode := code, responseReason := reason, responseHeaders := headers
    state := .serverResponseStarting }.update

def writeBody (body : Bytes) (s : ZhttpRequest) : ZhttpRequest :=
  let ledger := { s.ledger with written := s.ledger.written ++ body }
  if s.server then { s with responseBodyBuf := s.responseBodyBuf ++ body, ledger := ledger }.update
  else { s with requestBodyBuf := s.requestBodyBuf ++ body, ledger := ledger }.update

def endBody (s : ZhttpRequest) : ZhttpRequest := { s with bodyFinished := true }.update

def pause (s : ZhttpRequest) : ZhttpRequest :=
  { s.stopKeepAlive with pausing := true, needPause := true }.update

def resume (s : ZhttpRequest) : ZhttpRequest :=
  { s with paused := false }.startKeepAlive.writeResponse { type := .keepAlive }

def tryCancel (s : ZhttpRequest) : ZhttpRequest :=
  if s.state = .clientRequesting || s.state = .clientReceiving then
    if s.doReq then { s with state := .stopped } else { s with state := .stopped }.writeRequest
      { type := .cancel }
  else if s.server then { s with state := .stopped }.writeResponse { type := .cancel }
  else s

def destroy (s : ZhttpRequest) : ZhttpRequest :=
  { (if s.manager && !s.paused && s.state ≠ .stopped then s.tryCancel else s).cleanup with
    deleted := true }

def serverState (s : ZhttpRequest) : ServerState where
  rid := s.rid
  peerAddress := s.peerAddress
  requestMethod := s.requestMethod
  requestUri := s.requestUri
  requestHeaders := s.requestHeaders
  responseCode := if s.state = .serverResponding then s.responseCode else -1
  inSeq := s.inSeq
  outSeq := s.outSeq
  outCredits := s.outCredits
  routerResp := s.routerResp
  userData := s.userData

def switchMulti (multi restart : Bool) (s : ZhttpRequest) : ZhttpRequest :=
  if !s.multi && multi then
    if restart then { s with multi := true }.startKeepAlive else { s with multi := true }
  else s

def addCredits (credits : Int) (s : ZhttpRequest) : ZhttpRequest :=
  if 0 < credits then
    { s with
      outCredits := toInt32 (s.outCredits + credits), writableChanged := true
      ledger := { s.ledger with creditsIn := s.ledger.creditsIn + credits } }
  else s

def updateIfChanged (s : ZhttpRequest) : ZhttpRequest :=
  if s.readableChanged || s.writableChanged then s.update else s

def takeRequestData (packet : ZhttpRequestPacket) (s : ZhttpRequest) : ZhttpRequest :=
  let body := bytesOf packet.body
  { s with
    requestBodyBuf := s.requestBodyBuf ++ body
    haveRequestBody := s.haveRequestBody || !packet.more
    state := if packet.more then s.state else .serverResponseWait
    readableChanged := s.readableChanged || !body.isEmpty || (!s.haveRequestBody && !packet.more)
    ledger := { s.ledger with bodyIn := s.ledger.bodyIn + body.length } }

def takeRequest (packet : ZhttpRequestPacket) (s : ZhttpRequest) : ZhttpRequest :=
  match packet.type with
  | .data => ((s.takeRequestData packet).addCredits packet.credits).updateIfChanged
  | .credit => if 0 < packet.credits then (s.addCredits packet.credits).update else s
  | .handoffProceed => if s.pausing then { s with pausing := false, paused := true }.signal .paused
      else s
  | _ => s

def handleRequest (seq : Int) (packet : ZhttpRequestPacket) (s : ZhttpRequest) : ZhttpRequest :=
  if s.paused then s
  else if packet.type = .error then s.fail (convertError packet.condition)
  else if packet.type = .cancel then s.fail .generic
  else if seq ≠ -1 ∧ seq ≠ s.inSeq then (s.writeResponse { type := .cancel }).fail .generic
  else
    (({ s with inSeq := if seq = -1 then s.inSeq else toInt32 (s.inSeq + 1) }.switchMulti
      packet.multi (!s.pausing)).refreshTimeout).takeRequest packet

def takeResponseData (packet : ZhttpResponsePacket) (s : ZhttpRequest) : ZhttpRequest :=
  let body := bytesOf packet.body
  let first := !s.haveResponseValues
  { s with
    haveResponseValues := true
    responseCode := if first then packet.code else s.responseCode
    responseReason := if first then packet.reason else s.responseReason
    responseHeaders := if first then packet.headers else s.responseHeaders
    responseBodyBuf := s.responseBodyBuf ++ body
    readableChanged := s.readableChanged || (packet.more && (first || !body.isEmpty))
    ledger := { s.ledger with bodyIn := s.ledger.bodyIn + body.length } }

def takeResponse (packet : ZhttpResponsePacket) (s : ZhttpRequest) : ZhttpRequest :=
  match packet.type with
  | .data =>
    let s := s.takeResponseData packet
    if packet.more then (if s.doReq then s else s.addCredits packet.credits).updateIfChanged
    else { s with state := .stopped }.cleanup.signal .readyRead
  | .credit => if 0 < packet.credits then (s.addCredits packet.credits).update else s
  | _ => s

/-- The first packet from the peer says where the others go. -/
def acknowledge (packet : ZhttpResponsePacket) (s : ZhttpRequest) : ZhttpRequest :=
  if s.state = .clientRequestStartWait then
    { s with toAddress := packet.from_, state := .clientRequesting }.startKeepAlive
  else if s.state = .clientRequestFinishWait then
    let s := { s with toAddress := packet.from_, state := .clientReceiving }
    if s.doReq then s else s.startKeepAlive
  else s

def checkResponse (seq : Int) (packet : ZhttpResponsePacket) (s : ZhttpRequest) : ZhttpRequest :=
  if packet.type = .error then s.fail (convertError packet.condition)
  else if packet.type = .cancel then s.fail .generic
  else if !s.doReq && seq ≠ s.inSeq then (s.writeRequest { type := .cancel }).fail .generic
  else
    let s := ({ s with inSeq := toInt32 (s.inSeq + 1) }.switchMulti packet.multi
      true).refreshTimeout
    if s.doReq && (packet.type ≠ .data || packet.more) then s.fail .generic
      else s.takeResponse packet

def handleResponse (seq : Int) (packet : ZhttpResponsePacket) (s : ZhttpRequest) : ZhttpRequest :=
  if s.state = .clientRequestStartWait ∧ packet.from_.isEmpty then s.fail .generic
  else (s.acknowledge packet).checkResponse seq packet

end ZhttpRequest

inductive Call where
  | start (method : String) (uri : Bytes) (headers : Headers)
  | beginResponse (code : Int) (reason : Bytes) (headers : Headers)
  | writeBody (body : Bytes)
  | endBody
  | readBody (size : Int)
  | pause
  | resume
  | destroy

/-- A client is started once, and a server's application gets the request when the
    manager has started it. The rest is what the functions assert. -/
def Call.legal (s : ZhttpRequest) : Call → Bool
  | .start _ _ _ => !s.server && !s.started
  | .beginResponse _ _ _ => s.server && s.started && !s.pausing && !s.paused &&
      (s.state = .serverReceiving || s.state = .serverResponseWait)
  | .writeBody _ | .endBody => s.started && !s.bodyFinished && !s.pausing && !s.paused
  | .readBody _ => s.started
  | .pause => s.server && s.started && !s.pausing && !s.paused
  | .resume => s.server && s.paused
  | .destroy => true

def Call.make (s : ZhttpRequest) : Call → ZhttpRequest
  | .start method uri headers => s.start method uri headers
  | .beginResponse code reason headers => s.beginResponse code reason headers
  | .writeBody body => s.writeBody body
  | .endBody => s.endBody
  | .readBody size => s.readBody size
  | .pause => s.pause
  | .resume => s.resume
  | .destroy => s.destroy

def answer (calls : List Call) (s : ZhttpRequest) : ZhttpRequest :=
  calls.foldl (fun s call => if !s.deleted && !s.aborted && call.legal s then call.make s else s) s

theorem answer_rule {inv : ZhttpRequest → Prop}
    (keeps : ∀ s call, inv s → s.deleted = false → s.aborted = false → Call.legal s call = true →
    inv (call.make s))
    (calls : List Call) {s : ZhttpRequest} (start : inv s) : inv (answer calls s) := by
  induction calls generalizing s with
  | nil => exact start
  | cons call calls ih =>
    rw [answer, List.foldl_cons]
    split
    · next fine =>
      simp only [Bool.and_eq_true, Bool.not_eq_true'] at fine
      exact ih (keeps s call start fine.1.1 fine.1.2 fine.2)
    · exact ih start

namespace ZhttpRequest

section
variable (canWriteImmediately : Bool) (app : ZhttpRequest → ZhttpRequest)

def requestPacket (s : ZhttpRequest) : ZhttpRequestPacket where
  type := .data
  method := s.requestMethod
  uri := s.requestUri
  headers := s.requestHeaders
  connectHost := s.options.connectHost
  connectPort := s.options.connectPort
  ignorePolicies := s.options.ignorePolicies
  trustConnectHost := s.options.trustConnectHost
  ignoreTlsErrors := s.options.ignoreTlsErrors
  clientCert := s.options.clientCert
  clientKey := s.options.clientKey
  passthrough := s.passthrough
  quiet := s.options.quiet

def startReq (s : ZhttpRequest) : ZhttpRequest :=
  if reqBufMax < s.requestBodyBuf.length then s.fail .requestTooLarge
  else if s.bodyFinished then
    { { s with requestBodyBuf := [] }.writeRequest
        { s.requestPacket with body := taken s.requestBodyBuf, maxSize := reqBufMax } with
      state := .clientRequestFinishWait }.signal (.bytesWritten s.requestBodyBuf.length)
  else s

def startStream (s : ZhttpRequest) : ZhttpRequest :=
  if !canWriteImmediately then s.fail .unavailable
  else
    let size := if s.options.sendBodyAfterAck then 0 else idealCredits
    let body := takeFront size s.requestBodyBuf
    let rest := leaveBack size s.requestBodyBuf
    let more := !rest.isEmpty || !s.bodyFinished
    let s := { { s with requestBodyBuf := rest }.writeRequest { s.requestPacket with
      body := taken body, more := more, stream := true, routerResp := true, credits :=
        idealCredits, multi := true } with
      state := if more then .clientRequestStartWait else .clientRequestFinishWait }
    if !body.isEmpty || !more then s.signal (.bytesWritten body.length) else s

def emitReadable (s : ZhttpRequest) : ZhttpRequest :=
  if s.readableChanged then { s with readableChanged := false }.signal .readyRead else s

def emitWritable (s : ZhttpRequest) : ZhttpRequest :=
  if s.writableChanged then { s with writableChanged := false }.signal .writeBytesChanged else s

def ackRequest (s : ZhttpRequest) : ZhttpRequest :=
  (if s.haveRequestBody then
    { s with state := .serverResponseWait }.writeResponse { type := .keepAlive, multi := s.multi }
  else
    { s with state := .serverReceiving }.writeResponse
      { type := .credit, credits := idealCredits - s.responseBodyBuf.length,
        multi := s.multi }).signal .readyRead

def startResponse (s : ZhttpRequest) : ZhttpRequest :=
  let body := takeFront s.outCredits s.responseBodyBuf
  let s := { s with state := .serverResponding }.writeResponseBody
    { type := .data, code := s.responseCode, reason := s.responseReason,
      headers := s.responseHeaders }
  let s := if !body.isEmpty || s.state = .stopped then app (s.signal (.bytesWritten body.length))
    else s
  if s.deleted then s else s.trySendPause

def updateState (s : ZhttpRequest) : ZhttpRequest :=
  match s.state with
  | .clientStarting => if s.doReq then s.startReq else s.startStream canWriteImmediately
  | .clientRequesting | .serverResponding =>
    let s := s.tryWrite app
    if s.deleted then s else s.emitWritable
  | .clientReceiving | .serverReceiving => s.emitReadable
  | .serverStarting => s.ackRequest
  | .serverResponseWait => s.trySendPause.emitReadable
  | .serverResponseStarting => s.startResponse app
  | _ => s

def doUpdate (s : ZhttpRequest) : ZhttpRequest :=
  { s with pendingUpdate := false }.updateState canWriteImmediately app

end

def expireTimeout (s : ZhttpRequest) : ZhttpRequest := s.fail .timeout

def setupClient (instanceId uuid : Bytes) (req : Bool) : ZhttpRequest where
  manager := true
  instanceId := instanceId
  rid := (instanceId, uuid)
  doReq := req

def writeError (condition : Bytes) (s : ZhttpRequest) : ZhttpRequest :=
  s.writeResponse { type := .error, condition := condition }

/-- A server that the manager has made for a first packet. It is kept if the packet is
    fine, and otherwise deleted once it has replied. -/
def setupServer (instanceId id : Bytes) (seq : Int) (packet : ZhttpRequestPacket) :
    ZhttpRequest × Bool :=
  let s : ZhttpRequest :=
    { manager := true, server := true, instanceId := instanceId, rid := (packet.from_, id) }
  if packet.type ≠ .data then
    (if packet.type ≠ .error ∧ packet.type ≠ .cancel then s.writeResponse { type := .cancel }
      else s, false)
  else if seq ≠ -1 ∧ seq ≠ 0 then (s.writeError (ascii "bad-request"), false)
  else if !packet.stream then (s.writeError (ascii "bad-request"), false)
  else if seq = -1 ∧ packet.more then (s.writeError (ascii "bad-request"), false)
  else
    ({ s with
      inSeq := 1
      outCredits := if packet.credits = -1 then 0 else packet.credits
      requestMethod := packet.method
      requestUri := packet.uri
      requestHeaders := packet.headers
      requestBodyBuf := bytesOf packet.body
      passthrough := packet.passthrough
      userData := packet.userData
      peerAddress := packet.peerAddress
      multi := packet.multi
      routerResp := packet.routerResp
      haveRequestBody := !packet.more
      ledger := { creditsIn := if packet.credits = -1 then 0 else packet.credits } }, true)

def setupServerFrom (instanceId : Bytes) (ss : ServerState) : ZhttpRequest :=
  let s : ZhttpRequest := {
    manager := true, server := true, started := true, instanceId := instanceId, rid := ss.rid
    peerAddress := ss.peerAddress
    requestMethod := ss.requestMethod
    requestUri := ss.requestUri
    requestHeaders := ss.requestHeaders
    requestBodyBuf := ss.requestBody
    inSeq := if 0 ≤ ss.inSeq then ss.inSeq else 0
    outSeq := if 0 ≤ ss.outSeq then ss.outSeq else 0
    outCredits := if 0 ≤ ss.outCredits then ss.outCredits else 0
    routerResp := ss.routerResp
    userData := ss.userData
    responseCode := if ss.responseCode ≠ -1 then ss.responseCode else 0
    state := if ss.responseCode ≠ -1 then .serverResponding else .serverResponseWait
    ledger := { creditsIn := if 0 ≤ ss.outCredits then ss.outCredits else 0 } }
  s.refreshTimeout.startKeepAlive.writeResponse { type := .keepAlive, multi := true }

end ZhttpRequest

inductive Event where
  | request (seq : Int) (packet : ZhttpRequestPacket)
  | response (seq : Int) (packet : ZhttpResponsePacket)
  | update (canWriteImmediately : Bool) (calls : List Call)
  | call (made : Call)
  | startServer
  | expire
  | keepAlive
  | refresh

/-- The events that can come. The manager passes packets on only to the sessions it has,
    and a timer that is armed may fire at any time. -/
def Event.possible (s : ZhttpRequest) : Event → Bool
  | .request _ _ => s.manager && s.server
  | .response _ _ => s.manager && !s.server
  | .update _ _ => s.pendingUpdate
  | .call made => made.legal s
  | .startServer => s.manager && s.server && !s.started
  | .expire => s.expireTimer || s.finishTimer
  | .keepAlive => s.keepAliveTimer
  | .refresh => s.registered

def Event.take (s : ZhttpRequest) : Event → ZhttpRequest
  | .request seq packet => s.handleRequest seq packet
  | .response seq packet => s.handleResponse seq packet
  | .update canWriteImmediately calls => s.doUpdate canWriteImmediately (answer calls)
  | .call made => made.make s
  | .startServer => s.startServer
  | .expire => s.expireTimeout
  | .keepAlive => s.keepAliveTimeout
  | .refresh => s.outSeqInc

def step (s : ZhttpRequest) (event : Event) : Option ZhttpRequest :=
  if !s.deleted && !s.aborted && event.possible s then some (event.take s) else none

end PushpinZhttpRequest
