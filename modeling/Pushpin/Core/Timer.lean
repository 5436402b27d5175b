import Mathlib.Data.Nat.Log
import Pushpin.Foundations.CyclicMask
import Pushpin.Foundations.Slab

/-!
The hierarchical timer wheel of `core/timer.rs`. Ticks are unbounded Nat; no
operation below leaves the 64-bit range when its inputs are in it. A slot's
intrusive list is the sequence of its keys. Operations answer `none` where the
source panics: a failed assertion, a missing key or an underflow.
-/
namespace PushpinTimer
open CyclicMask Slabs

def wheelBits : Nat := 6
def wheelNum : Nat := 4
def wheelLen : Nat := 1 <<< wheelBits
def wheelMax : Nat := wheelLen - 1
def wheelMask : Nat := wheelLen - 1
def timeoutMax : Nat := (1 <<< (wheelBits * wheelNum)) - 1

def fls64 (x : Nat) : Nat := if x = 0 then 0 else Nat.log2 x + 1

def wheelPending (wheel curtime newtime elapsed : Nat) : Word :=
  let truncBits := wheel * wheelBits
  if elapsed >>> truncBits > wheelMax then BitVec.allOnes 64
  else
    let oldSlot := (curtime >>> truncBits) &&& wheelMask
    let newSlot := (newtime >>> truncBits) &&& wheelMask
    let d := if newSlot > oldSlot then newSlot - oldSlot else wheelLen - oldSlot + newSlot
    if d ≥ wheelLen then BitVec.allOnes 64
    else if wheel > 0 then (ones d).rotateLeft oldSlot
    else (ones d).rotateLeft (oldSlot + 1)

def finishedBit (wheel : Nat) : Word := if wheel > 0 then single (wheelLen - 1) else single 0

def needReschedFrom (curtime newtime : Nat) : Nat → Nat → Nat → List Word
  | 0, _, _ => []
  | left + 1, wheel, elapsed =>
    let pending := wheelPending wheel curtime newtime elapsed
    pending ::
      if pending &&& finishedBit wheel = 0 then List.replicate left 0
      else needReschedFrom curtime newtime left (wheel + 1)
        (max elapsed (wheelLen <<< (wheel * wheelBits)))

def needResched (curtime newtime : Nat) : List Word :=
  if newtime ≤ curtime then List.replicate wheelNum 0
  else needReschedFrom curtime newtime wheelNum 0 (newtime - curtime)

inductive InList where
  | wheel (wheel slot : Nat)
  | expired
  deriving DecidableEq, Repr

structure Timer where
  expires : Nat
  list : Option InList
  userData : Nat
  deriving DecidableEq, Repr

structure TimerWheel where
  nodes : Slab Timer
  wheel : Nat → Nat → List Nat
  expired : List Nat
  pending : Nat → Word
  curtime : Nat

namespace TimerWheel

def new (capacity : Nat) : TimerWheel :=
  ⟨Slab.withCapacity capacity, fun _ _ => [], [], fun _ => 0, 0⟩

def setSlot (w : TimerWheel) (wheel slot : Nat) (keys : List Nat) : TimerWheel :=
  { w with wheel := Function.update w.wheel wheel (Function.update (w.wheel wheel) slot keys) }

def setPending (w : TimerWheel) (wheel : Nat) (bits : Word) : TimerWheel :=
  { w with pending := Function.update w.pending wheel bits }

def setList (w : TimerWheel) (key : Nat) (n : Timer) (list : Option InList) : TimerWheel :=
  { w with nodes := w.nodes.insert key { n with list } }

def sched (w : TimerWheel) (key : Nat) : Option TimerWheel := do
  let n ← w.nodes.get? key
  if n.expires > w.curtime then
    let t := min (n.expires - w.curtime) timeoutMax
    if ¬ t > 0 then none
    else
      let wheel := (fls64 t - 1) / wheelBits
      if ¬ wheel < wheelNum then none
      else
        let truncBits := wheel * wheelBits
        let offset := if wheel > 0 then 1 else 0
        if ¬ offset ≤ n.expires >>> truncBits then none
        else
          let slot := ((n.expires >>> truncBits) - offset) &&& wheelMask
          let w := w.setSlot wheel slot (w.wheel wheel slot ++ [key])
          let w := w.setPending wheel (w.pending wheel ||| single slot)
          return w.setList key n (some (.wheel wheel slot))
  else
    let w := { w with expired := w.expired ++ [key] }
    return w.setList key n (some .expired)

def add (w : TimerWheel) (key expires userData : Nat) :
    Option (TimerWheel × Except Unit Nat) :=
  if w.nodes.len = w.nodes.capacity then some (w, .error ())
  else do
    let w ← sched { w with nodes := w.nodes.insert key ⟨expires, none, userData⟩ } key
    return (w, .ok key)

def remove (w : TimerWheel) (key : Nat) : TimerWheel :=
  match w.nodes.get? key with
  | none => w
  | some n =>
    let w := match n.list with
      | some (.wheel wheel slot) =>
        let keys := (w.wheel wheel slot).erase key
        let w := w.setSlot wheel slot keys
        if keys.isEmpty then w.setPending wheel (w.pending wheel &&& ~~~ single slot) else w
      | some .expired => { w with expired := w.expired.erase key }
      | none => w
    { w with nodes := w.nodes.remove key }

def wheelTimeout (w : TimerWheel) (wheel relmask : Nat) : Nat :=
  let truncBits := wheel * wheelBits
  let slot := (w.curtime >>> truncBits) &&& wheelMask
  let pending := (w.pending wheel).rotateRight slot
  let offset := if wheel > 0 then 1 else 0
  ((first pending + offset) <<< truncBits) - (relmask &&& w.curtime)

def closer (timeout : Option Nat) (t : Nat) : Nat :=
  match timeout with
  | some best => min best t
  | none => t

def timeoutFrom (w : TimerWheel) : Nat → Nat → Nat → Option Nat → Option Nat
  | 0, _, _, timeout => timeout
  | left + 1, wheel, relmask, timeout =>
    let timeout :=
      if w.pending wheel ≠ 0 then some (closer timeout (w.wheelTimeout wheel relmask)) else timeout
    timeoutFrom w left (wheel + 1) ((relmask <<< wheelBits) ||| wheelMask) timeout

def timeout (w : TimerWheel) : Option Nat :=
  if ¬ w.expired.isEmpty then some 0 else w.timeoutFrom wheelNum 0 0 none

/-- The inner loop of `update` for one wheel; every round clears one bit, so 64
    rounds are enough. `l` is the list of the keys moved out so far. -/
def moveOut (wheel : Nat) (need : Word) : Nat → TimerWheel → List Nat →
    Option (TimerWheel × List Nat)
  | 0, w, l => if need &&& w.pending wheel ≠ 0 then none else some (w, l)
  | rounds + 1, w, l =>
    if need &&& w.pending wheel ≠ 0 then
      let slot := first (need &&& w.pending wheel)
      let l := l ++ w.wheel wheel slot
      let w := w.setSlot wheel slot []
      moveOut wheel need rounds (w.setPending wheel (w.pending wheel &&& ~~~ single slot)) l
    else some (w, l)

def moveOutAll : List Word → Nat → TimerWheel → List Nat → Option (TimerWheel × List Nat)
  | [], _, w, l => some (w, l)
  | need :: needs, wheel, w, l => do
    let (w, l) ← moveOut wheel need 64 w l
    moveOutAll needs (wheel + 1) w l

def schedAll : List Nat → TimerWheel → Option TimerWheel
  | [], w => some w
  | key :: keys, w => do
    let n ← w.nodes.get? key
    let w ← (w.setList key n none).sched key
    schedAll keys w

def update (w : TimerWheel) (curtime : Nat) : Option TimerWheel :=
  if curtime ≤ w.curtime then some w
  else do
    let (w, l) ← moveOutAll (needResched w.curtime curtime) 0 w []
    schedAll l { w with curtime := curtime }

def takeExpired (w : TimerWheel) : Option (TimerWheel × Option (Nat × Nat)) :=
  match w.expired with
  | [] => some (w, none)
  | key :: keys => do
    let n ← w.nodes.get? key
    return ({ w with expired := keys, nodes := w.nodes.remove key }, some (key, n.userData))

end TimerWheel
end PushpinTimer
