import Pushpin.Core.RingBuffer
import Pushpin.Foundations.Text

/-!
The parser of `core/tnetstring.rs`. A `usize` has 64 bits; `checks` is whether
the build checks additions for overflow, as the dev profile does and the release
profile does not. A `none` is a panic. Texts are the bytes of a `str`.
-/
namespace PushpinTnetstring
open PushpinRingBuffer Slices Text

def addUsize (checks : Bool) (a b : Nat) : Option Nat :=
  if a + b < usizeEnd then some (a + b) else if checks then none else some ((a + b) % usizeEnd)

inductive FrameType where
  | null
  | bool
  | int
  | float
  | string
  | array
  | map
  deriving DecidableEq, Repr

inductive ParseError where
  | unexpectedEof
  | invalidData
  | wrongType (got expected : FrameType)
  | invalidKey
  deriving DecidableEq, Repr

structure Frame where
  ftype : FrameType
  data : List Byte
  deriving DecidableEq, Repr

def trueBytes : List Byte := [116, 114, 117, 101]
def falseBytes : List Byte := [102, 97, 108, 115, 101]

def typeOf (typeByte : Byte) : Option FrameType :=
  if typeByte = 126 then some .null
  else if typeByte = 33 then some .bool
  else if typeByte = 35 then some .int
  else if typeByte = 94 then some .float
  else if typeByte = 44 then some .string
  else if typeByte = 93 then some .array
  else if typeByte = 125 then some .map
  else none

def findColon : List Byte → Nat → Except ParseError Nat
  | [], _ => .error .unexpectedEof
  | c :: src, i =>
    if c = 58 then .ok i else if Decimal.isDigit c then findColon src (i + 1)
      else .error .invalidData

def parseFrame (checks : Bool) (src : List Byte) : Option (Except ParseError (Frame × Nat)) :=
  match findColon src 0 with
  | .error e => some (.error e)
  | .ok sizeEnd =>
    match parseUsize (src.take sizeEnd) with
    | none => some (.error .invalidData)
    | some size => do
      let most ← addUsize checks (← addUsize checks sizeEnd size) 2
      if most > src.length then return .error .unexpectedEof
      else do
        let dataStart ← addUsize checks sizeEnd 1
        let dataEnd ← addUsize checks dataStart size
        let typeByte ← src[dataEnd]?
        match typeOf typeByte with
        | none => return .error .invalidData
        | some ftype => do
          let end_ ← addUsize checks (← addUsize checks sizeEnd size) 2
          let data ← slice? src dataStart dataEnd
          return .ok (⟨ftype, data⟩, end_)

def parseTyped (checks : Bool) (expected : FrameType) (src : List Byte) :
    Option (Except ParseError (List Byte)) := do
  match ← parseFrame checks src with
  | .error e => return .error e
  | .ok (frame, _) =>
    if frame.ftype = expected then return .ok frame.data
      else return .error (.wrongType frame.ftype expected)

def parseNull (checks : Bool) (src : List Byte) : Option (Except ParseError Unit) := do
  match ← parseTyped checks .null src with
  | .error e => return .error e
  | .ok _ => return .ok ()

def parseBool (checks : Bool) (src : List Byte) : Option (Except ParseError Bool) := do
  match ← parseTyped checks .bool src with
  | .error e => return .error e
  | .ok data =>
    if data = trueBytes then return .ok true
    else if data = falseBytes then return .ok false
    else return .error .invalidData

def parseInt (checks : Bool) (src : List Byte) : Option (Except ParseError Int) := do
  match ← parseTyped checks .int src with
  | .error e => return .error e
  | .ok data =>
    if isUtf8 data then
      match parseIsize data with
      | some x => return .ok x
      | none => return .error .invalidData
    else return .error .invalidData

def parseString (checks : Bool) (src : List Byte) : Option (Except ParseError (List Byte)) :=
  parseTyped checks .string src

structure SequenceItem where
  ftype : FrameType
  data : List Byte
  deriving DecidableEq, Repr

structure SequenceIterator where
  src : List Byte
  pos : Nat
  deriving DecidableEq, Repr

def SequenceIterator.new (src : List Byte) : SequenceIterator := ⟨src, 0⟩

/-- An error makes this the last iteration. -/
def SequenceIterator.next (checks : Bool) (it : SequenceIterator) :
    Option (Option (Except ParseError SequenceItem) × SequenceIterator) :=
  if it.pos ≥ it.src.length then some (none, it)
  else do
    match ← parseFrame checks (it.src.drop it.pos) with
    | .error e => return (some (.error e), { it with pos := it.src.length })
    | .ok (frame, end_) => do
      let nextPos ← addUsize checks it.pos end_
      let idata ← slice? it.src it.pos nextPos
      return (some (.ok ⟨frame.ftype, idata⟩), { it with pos := nextPos })

def parseArray (checks : Bool) (src : List Byte) : Option (Except ParseError SequenceIterator) := do
  match ← parseTyped checks .array src with
  | .error e => return .error e
  | .ok data => return .ok (SequenceIterator.new data)

structure MapItem where
  key : List Byte
  ftype : FrameType
  data : List Byte
  deriving DecidableEq, Repr

structure MapIterator where
  src : List Byte
  pos : Nat
  deriving DecidableEq, Repr

def MapIterator.new (src : List Byte) : MapIterator := ⟨src, 0⟩

def MapIterator.next (checks : Bool) (it : MapIterator) :
    Option (Option (Except ParseError MapItem) × MapIterator) :=
  if it.pos ≥ it.src.length then some (none, it)
  else do
    match ← parseFrame checks (it.src.drop it.pos) with
    | .error e => return (some (.error e), { it with pos := it.src.length })
    | .ok (kframe, kend) =>
      if kframe.ftype ≠ .string then return (some (.error .invalidKey),
        { it with pos := it.src.length })
      else if isUtf8 kframe.data = false then
        return (some (.error .invalidKey), { it with pos := it.src.length })
      else do
        let vpos ← addUsize checks it.pos kend
        let tail ← slice? it.src vpos it.src.length
        match ← parseFrame checks tail with
        | .error e => return (some (.error e), { it with pos := it.src.length })
        | .ok (vframe, vend) => do
          let nextPos ← addUsize checks vpos vend
          let vdata ← slice? it.src vpos nextPos
          return (some (.ok ⟨kframe.data, vframe.ftype, vdata⟩), { it with pos := nextPos })

def parseMap (checks : Bool) (src : List Byte) : Option (Except ParseError MapIterator) := do
  match ← parseTyped checks .map src with
  | .error e => return .error e
  | .ok data => return .ok (MapIterator.new data)

def drain {ι α : Type} (next : ι → Option (Option α × ι)) : Nat → ι → Option (List α)
  | 0, _ => none
  | calls + 1, it => do
    match ← next it with
    | (none, _) => return []
    | (some item, it) => do
      let items ← drain next calls it
      return item :: items

def SequenceIterator.all (checks : Bool) (it : SequenceIterator) :
    Option (List (Except ParseError SequenceItem)) :=
  drain (SequenceIterator.next checks) (it.src.length + 2) it

def MapIterator.all (checks : Bool) (it : MapIterator) :
    Option (List (Except ParseError MapItem)) :=
  drain (MapIterator.next checks) (it.src.length + 2) it

end PushpinTnetstring
