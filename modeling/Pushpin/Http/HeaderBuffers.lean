import Mathlib.Algebra.BigOperators.Group.Finset.Basic
import Mathlib.Data.Fintype.Basic
import Pushpin.Core.BufferBudget
import Pushpin.Foundations.Loop
import Pushpin.Foundations.Runs
import Pushpin.Http.Head
import Pushpin.Http.Scanners

/-!
The two buffers of a connection while headers are received: `RequestHeader::recv`
of `core/http1/server.rs` and `Response::recv_header` of `core/http1/client.rs`,
and the three ways to discard a header that has been kept. A reception stops
wherever the source awaits a read, so that the connections that share a counter
can take turns there. `none` is a panic.
-/
namespace PushpinHttp
open PushpinRingBuffer PushpinBudget Scanning Loops

structure HeadParsers where
  parseRequest : Nat → List Byte → Parsed ParseError (Nat × Headers)
  parseResponse : Nat → List Byte → Parsed ParseError (Nat × Nat × Headers)

structure HeadParsers.Steady (p : HeadParsers) : Prop where
  request : ∀ count, Scanning.Steady (p.parseRequest count)
  response : ∀ count, Scanning.Steady (p.parseResponse count)

structure HeadLines (α : Type) where
  first : Option α
  block : HeaderBlock

def headLines {α : Type} (firstLine : List Byte → Except ParseError α) (count : Nat) :
    Scanner (HeadLines α) Byte ParseError (α × Headers) where
  start := ⟨none, ⟨[], []⟩⟩
  feed lines b :=
    match lines.first with
    | some first =>
      match (headerBlock count).feed lines.block b with
      | .inl block => .inl ⟨some first, block⟩
      | .inr (.error e) => .inr (.error e)
      | .inr (.ok headers) => .inr (.ok (first, headers))
    | none =>
      if b ≠ 10 then .inl ⟨none, ⟨lines.block.line ++ [b], []⟩⟩
      else match firstLine lines.block.line with
        | .error e => .inr (.error e)
        | .ok first => .inl ⟨some first, ⟨[], []⟩⟩

def readVersion (word : List Byte) : Except ParseError Nat :=
  if word = Text.ascii "HTTP/1.1" then .ok 1
  else if word = Text.ascii "HTTP/1.0" then .ok 0
  else .error .version

def readRequestLine (line : List Byte) : Except ParseError Nat :=
  match (line.filter (· ≠ 13)).splitOn 32 with
  | [_, _, version] => readVersion version
  | _ => .error .token

def readStatusLine (line : List Byte) : Except ParseError (Nat × Nat) :=
  match line.splitOn 32 with
  | version :: code :: _ =>
    match readVersion version, Text.parseUsize code with
    | .ok version, some code => .ok (version, code)
    | .error e, _ => .error e
    | _, none => .error .status
  | _ => .error .status

def responseHead (head : (Nat × Nat) × Headers) : Except ParseError (Nat × Nat × Headers) :=
  .ok (head.1.1, head.1.2, head.2)

def headScanners : HeadParsers where
  parseRequest count := (headLines readRequestLine count).parse
  parseResponse count s := ((headLines readStatusLine count).parse s).judged id responseHead

theorem headScanners_steady : headScanners.Steady :=
  ⟨fun count => scanner_steady (headLines readRequestLine count),
    fun count => (scanner_steady (headLines readStatusLine count)).judged id responseHead⟩

inductive Role where
  | server
  | client (state : ClientState)
  deriving DecidableEq, Repr

/-- Why a reception ended without a header. `remaining` is the error of the
    `write_all` of the bytes behind the header. -/
inductive Failure where
  | parse (e : ParseError)
  | head (e : HeadError)
  | requestTooLarge (capacity : Nat)
  | bufferExceeded
  | io (kind : ErrorKind)
  | remaining (kind : ErrorKind)
  deriving DecidableEq, Repr

def Failure.isRemaining : Failure → Bool
  | .remaining _ => true
  | _ => false

def requestBodySize (head : Nat × Headers) : Except Failure BodySize :=
  match ServerExchange.new.processRequest head.1 head.2 with
  | .error e => .error (.head e)
  | .ok (exchange, _) => .ok exchange.protocol.bodySize

def responseBodySize (state : ClientState) (head : Nat × Nat × Headers) : Except Failure BodySize :=
  match state.processResponse head.1 head.2.1 head.2.2 with
  | .error e => .error (.head e)
  | .ok state => .ok state.bodySize

def HeadParsers.parseHead (p : HeadParsers) : Role → List Byte → Parsed Failure BodySize
  | .server, bytes => (p.parseRequest headersMax bytes).judged .parse requestBodySize
  | .client state, bytes => (p.parseResponse headersMax bytes).judged .parse
    (responseBodySize state)

def writeAll : Nat → RingBuffer → List Byte → Option (RingBuffer × Except ErrorKind Unit)
  | _, r, [] => some (r, .ok ())
  | 0, _, _ => none
  | rounds + 1, r, data => do
    let (r, written) ← r.write data
    match written with
    | .error kind => return (r, .error kind)
    | .ok 0 => return (r, .error .writeZero)
    | .ok count => writeAll rounds r (data.drop count)

structure KeptHeader where
  buf : FilledBuf
  original : Nat
  deriving DecidableEq, Repr

inductive HeaderPhase where
  | ready
  /-- A read is awaited; `original` is the capacity that the read buffer had. -/
  | receiving (original : Nat)
  /-- `ended` is whether the client holds a `FinishedKeepHeader`. -/
  | keeping (kept : KeptHeader) (ended : Bool)
  | failed (why : Failure)
  | closed
  deriving DecidableEq, Repr

def HeaderPhase.isReceiving : HeaderPhase → Bool
  | .receiving _ => true
  | _ => false

def HeaderPhase.isKeeping : HeaderPhase → Bool
  | .keeping _ _ => true
  | _ => false

def HeaderPhase.isBody : HeaderPhase → Bool
  | .ready => true
  | .keeping _ ended => !ended
  | _ => false

structure HeaderBuffers where
  role : Role
  rbuf : RingBuffer
  wbuf : RingBuffer
  budget : Option BufferBudget
  phase : HeaderPhase
  deriving DecidableEq, Repr

inductive BufferEvent where
  | recv
  | read (data : List Byte)
  | readError (kind : ErrorKind)
  | arrive (data : List Byte)
  | align
  | consume (count : Nat)
  | bodyEnds
  | discardHeader
  | prepare (data : List Byte)
  | sent (count : Nat)
  | clearWrite
  | close
  deriving DecidableEq, Repr

namespace HeaderBuffers

def tooLarge (c : HeaderBuffers) : Failure :=
  match c.role with
  | .server => .requestTooLarge c.rbuf.capacity
  | .client _ => .bufferExceeded

def onWriteZero (c : HeaderBuffers) (counter : Nat) : Option (Step (HeaderBuffers × Nat) Unit) :=
  match c.budget with
  | some budget => do
    let (counter, budget, rbuf, expanded) ← budget.expandBufferIfNeeded counter c.rbuf
    let c := { c with budget := some budget, rbuf }
    if expanded > 0 then return .again (c, counter)
    else return .done ({ c with phase := .failed c.tooLarge }, counter) ()
  | none => some (.done ({ c with phase := .failed c.tooLarge }, counter) ())

def recvRound (p : HeadParsers) (original : Nat) (s : HeaderBuffers × Nat) :
    Option (Step (HeaderBuffers × Nat) Unit) := do
  let (c, counter) := s
  let (rbuf, buf) ← c.rbuf.takeInner
  match p.parseHead c.role (buf.data.take buf.filled) with
  | .error why =>
    let rbuf ← rbuf.setInner buf
    return .done ({ c with rbuf, phase := .failed why }, counter) ()
  | .incomplete =>
    let rbuf ← rbuf.setInner buf
    if rbuf.isReadableContiguous then
      if rbuf.remainingCapacity = 0 then onWriteZero { c with rbuf } counter
      else return .done ({ c with rbuf, phase := .receiving original }, counter) ()
    else none
  | .complete size _ =>
    -- the storage of the read buffer is gone, and the write buffer lends its own
    let remaining := (buf.data.take buf.filled).drop size
    let (wbuf, written) ← writeAll remaining.length c.wbuf remaining
    match written with
    | .error kind =>
      return .done ({ c with rbuf, wbuf, phase := .failed (.remaining kind) }, counter) ()
    | .ok () =>
      let (rbuf, wbuf) ← rbuf.swapInner wbuf
      return .done ({ c with rbuf, wbuf, phase := .keeping ⟨buf, original⟩ false }, counter) ()

/-- A buffer that has grown is not full, so the loop goes round at most once
    before it awaits a read. -/
def recvLoop (p : HeadParsers) (original : Nat) (c : HeaderBuffers) (counter : Nat) :
    Option (HeaderBuffers × Nat) :=
  (loop (recvRound p original) 2 (c, counter)).map Prod.fst

def recvFailed (p : HeadParsers) (original : Nat) (c : HeaderBuffers) (counter : Nat)
    (kind : ErrorKind) : Option (HeaderBuffers × Nat) :=
  if kind = .writeZero then do
    match ← c.onWriteZero counter with
    | .again (c, counter) => recvLoop p original c counter
    | .done s () => return s
  else some ({ c with phase := .failed (.io kind) }, counter)

/-- The storage of the header goes back to the write buffer. Only a header
    whose body has not ended carries the budget that can shrink it. -/
def discardHeader (c : HeaderBuffers) (counter : Nat) (kept : KeptHeader) (ended : Bool) :
    Option (HeaderBuffers × Nat) := do
  let wbuf ← c.wbuf.setInner kept.buf
  let wbuf := wbuf.clear
  match ended, c.budget with
  | false, some budget =>
    let (counter, budget, wbuf) ← budget.shrinkBuffer counter wbuf kept.original
    return ({ c with wbuf, budget := some budget, phase := .ready }, counter)
  | _, _ => return ({ c with wbuf, phase := .ready }, counter)

/-- Dropping a `RequestBodyKeepHeader` panics. -/
def close (c : HeaderBuffers) (counter : Nat) : Option (HeaderBuffers × Nat) :=
  match c.role, c.phase with
  | .server, .keeping _ _ => none
  | _, _ => do
    let counter ← match c.budget with
      | some budget => budget.drop counter
      | none => some counter
    return ({ c with budget := none, phase := .closed }, counter)

def step (p : HeadParsers) (c : HeaderBuffers) (counter : Nat) (event : BufferEvent) :
    Option (HeaderBuffers × Nat) :=
  match event, c.phase with
  | .recv, .ready => recvLoop p c.rbuf.capacity c counter
  | .read data, .receiving original => do
    let (rbuf, result) ← recvNonzero c.rbuf data
    match result with
    | .ok () => recvLoop p original { c with rbuf } counter
    | .error kind => recvFailed p original { c with rbuf } counter kind
  | .readError kind, .receiving original => recvFailed p original c counter kind
  | .arrive data, _ => do
    let (rbuf, _) ← recvNonzero c.rbuf data
    return ({ c with rbuf }, counter)
  | .align, _ => do
    let (rbuf, _) ← c.rbuf.align
    return ({ c with rbuf }, counter)
  | .consume count, _ => do
    let rbuf ← c.rbuf.readCommit count
    return ({ c with rbuf }, counter)
  | .bodyEnds, .keeping kept _ =>
    match c.role with
    | .server => some (c, counter)
    | .client _ => some ({ c with phase := .keeping kept true }, counter)
  | .discardHeader, .keeping kept ended => c.discardHeader counter kept ended
  | .prepare data, _ => do
    let (wbuf, _) ← c.wbuf.write data
    return ({ c with wbuf }, counter)
  | .sent count, _ => do
    let wbuf ← c.wbuf.readCommit count
    return ({ c with wbuf }, counter)
  | .clearWrite, _ => some ({ c with wbuf := c.wbuf.clear }, counter)
  | .close, .closed => none
  | .close, _ => c.close counter
  | _, _ => none

/-- What the types and the callers of the source allow: the phases of a header
    follow each other, the write buffer has been emptied before a reception and
    belongs to the header while it is kept, a read returns what fits the slice it
    was given, and no more is taken out than is there. -/
def possible (c : HeaderBuffers) : BufferEvent → Bool
  | .recv => decide (c.phase = .ready) && decide (c.wbuf.len = 0)
  | .read data => c.phase.isReceiving && decide
    (data.length ≤ c.rbuf.writeRange.2 - c.rbuf.writeRange.1)
  | .readError _ => c.phase.isReceiving
  | .arrive data => c.phase.isBody && decide
    (data.length ≤ c.rbuf.writeRange.2 - c.rbuf.writeRange.1)
  | .align => c.phase.isBody
  | .consume count => c.phase.isBody && decide (count ≤ c.rbuf.len)
  | .bodyEnds => c.phase.isKeeping && c.phase.isBody
  | .discardHeader => c.phase.isKeeping
  | .prepare _ => decide (c.phase = .ready)
  | .sent count => decide (c.phase = .ready) && decide (count ≤ c.wbuf.len)
  | .clearWrite => decide (c.phase = .ready)
  | .close => decide (c.phase ≠ .closed) && !(decide (c.role = .server) && c.phase.isKeeping)

/-- A header whose body has ended is discarded only if its storage has not grown. -/
def shrinks (c : HeaderBuffers) : BufferEvent → Bool
  | .discardHeader => match c.phase with
    | .keeping kept true => decide (kept.buf.data.length ≤ kept.original)
    | _ => true
  | _ => true

def blocksUsed (c : HeaderBuffers) : Nat := c.budget.elim 0 BufferBudget.blocksUsed

def blockSize (c : HeaderBuffers) : Nat := c.budget.elim 0 BufferBudget.blockSize

def heldCapacity : HeaderPhase → Nat
  | .keeping kept _ => kept.buf.data.length
  | _ => 0

def isLost : HeaderPhase → Bool
  | .failed why => why.isRemaining
  | .closed => true
  | _ => false

def capacity (c : HeaderBuffers) : Nat := c.rbuf.capacity + c.wbuf.capacity + heldCapacity c.phase

end HeaderBuffers

structure BufferPool (ι : Type) where
  counter : Nat
  conns : ι → HeaderBuffers

namespace BufferPool
variable {ι : Type} [DecidableEq ι]

def step (p : HeadParsers) (s : BufferPool ι) (event : ι × BufferEvent) :
    Option (BufferPool ι) := do
  let (c, counter) ← (s.conns event.1).step p s.counter event.2
  return ⟨counter, Function.update s.conns event.1 c⟩

def possible (s : BufferPool ι) (event : ι × BufferEvent) : Bool :=
  (s.conns event.1).possible event.2

def shrinks (s : BufferPool ι) (event : ι × BufferEvent) : Bool := (s.conns event.1).shrinks event.2

def blocks [Fintype ι] (s : BufferPool ι) : Nat := s.counter + ∑ i, (s.conns i).blocksUsed

end BufferPool
end PushpinHttp
