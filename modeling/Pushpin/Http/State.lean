import Pushpin.Core.RingQueue
import Pushpin.Foundations.Scanner

/-!
The data of the HTTP/1 protocol objects of `core/http1`, and the two parsers
they take from `httparse`. The parsers are parameters; what the protocol relies
on is that they are lawful.
-/
namespace PushpinHttp
open PushpinRingBuffer Scanning

inductive ParseError where
  | headerName
  | headerValue
  | newLine
  | status
  | token
  | tooManyHeaders
  | version
  deriving DecidableEq, Repr

inductive Error where
  | parse (e : ParseError)
  | io (kind : ErrorKind)
  | invalidChunkSize
  | chunkTooLarge
  | invalidChunkSuffix
  | bufferExceeded
  | unusable
  deriving DecidableEq, Repr

abbrev Headers := List (List Byte × List Byte)

structure Httparse where
  parseChunkSize : List Byte → Parsed Unit Nat
  parseHeaders : Nat → List Byte → Parsed ParseError Headers

structure Httparse.Lawful (h : Httparse) : Prop where
  chunkSize : Scanning.Lawful h.parseChunkSize
  headers : ∀ count, Scanning.Lawful (h.parseHeaders count)

def headersMax : Nat := 64

def crlf : List Byte := [13, 10]

inductive BodySize where
  | noBody
  | known (size : Nat)
  | unknown
  deriving DecidableEq, Repr

inductive ServerState where
  | receivingRequest
  | receivingBody
  | awaitingResponse
  | sendingBody
  | finished
  deriving DecidableEq, Repr

structure Chunk where
  header : List Byte
  size : Nat
  sent : Nat
  deriving DecidableEq, Repr

structure ServerProtocol where
  state : ServerState
  bodySize : BodySize
  chunkLeft : Option Nat
  chunkSize : Nat
  persistent : Bool
  chunked : Bool
  sendingChunk : Option Chunk
  deriving DecidableEq, Repr

structure ClientState where
  bodySize : BodySize
  chunkLeft : Option Nat
  chunkSize : Nat
  persistent : Bool
  chunked : Bool
  sendingChunk : Option Chunk
  deriving DecidableEq, Repr

inductive RecvStatus where
  | needBytes
  | read (written : Nat)
  | complete (written : Nat)
  deriving DecidableEq, Repr

end PushpinHttp
