import Pushpin.Core.VectoredWrite
import Pushpin.Foundations.Runs

/-!
The caller of a sender that may take only a part of what it is given. It keeps
what has not been consumed and tries again until the sender has finished.
-/
namespace PushpinCaller
open PushpinRingBuffer PushpinVectored

inductive Reply where
  | consumed (count : Nat)
  | finished (count : Nat)
  | failed
  deriving DecidableEq, Repr

/-- `pending` is what the caller still has to hand over; `content` records
    everything it was given. -/
structure Caller (σ : Type) where
  protocol : σ
  pending : List Byte
  ended : Bool
  done : Bool
  wire : List Byte
  content : List Byte
  deriving DecidableEq, Repr

inductive CallEvent where
  | append (data : List Byte)
  | finish
  | send (bufs : List (List Byte)) (schedule : List Response)
  deriving DecidableEq, Repr

namespace Caller
variable {σ : Type}

def start (protocol : σ) : Caller σ := ⟨protocol, [], false, false, [], []⟩

/-- The caller removes exactly what the reply says was consumed. A sender
    returns the buffers too, as it leaves them. -/
def step (send : σ → Writer → List (List Byte) → Bool →
      Option (σ × Writer × List (List Byte) × Reply))
    (s : Caller σ) : CallEvent → Option (Caller σ)
  | .append data => some { s with pending := s.pending ++ data, content := s.content ++ data }
  | .finish => some { s with ended := true }
  | .send bufs schedule => do
    let (protocol, w, bufs, reply) ← send s.protocol ⟨s.wire, schedule⟩ bufs s.ended
    match reply with
    | .consumed count =>
      return { s with protocol, wire := w.wire, pending := bufs.flatten.drop count }
    | .finished count =>
      return { s with protocol, wire := w.wire, pending := bufs.flatten.drop count, done := true }
    | .failed => return { s with protocol, wire := w.wire, pending := bufs.flatten }

/-- Content is added only before its end, and calls pass exactly the pending
    bytes until the sender has finished. -/
def allowed (s : Caller σ) : CallEvent → Bool
  | .append _ => !s.ended
  | .finish => true
  | .send bufs _ => !s.done && decide (bufs.flatten = s.pending)

end Caller
end PushpinCaller
