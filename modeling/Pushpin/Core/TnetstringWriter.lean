import Pushpin.Core.TnetstringItems

/-!
The writer of `core/tnetstring.rs`. Operations are collected first; the flush
computes the lengths in one pass and writes the bytes in another. Floats are left
out.
-/
namespace PushpinTnetstring
open PushpinRingBuffer Slices Text

def opsMax : Nat := 1000

structure Isize where
  val : Int
  low : -(isizeEnd : Int) ≤ val
  high : val < isizeEnd
  deriving DecidableEq

def lenFrom : Nat → Nat → Nat → Nat
  | 0, _, len => len
  | fuel + 1, x, len => if x ≥ 10 then lenFrom fuel (x / 10) (len + 1) else len

def usizeLen (value : Nat) : Nat := lenFrom value value 1

/-- The absolute value of `isize::MIN` is no `isize`: with overflow checks it
    panics, without them it is `isize::MIN` again, which is below ten. -/
def isizeLen (checks : Bool) (value : Isize) : Option Nat :=
  if value.val < 0 then
    if value.val = -(isizeEnd : Int) then
      if checks then none else some 2
    else some (lenFrom value.val.natAbs value.val.natAbs 2)
  else some (lenFrom value.val.natAbs value.val.natAbs 1)

def boolBytes (value : Bool) : List Byte := if value then trueBytes else falseBytes

def boolLen (value : Bool) : Nat := (boolBytes value).length

def intText (x : Int) : List Byte :=
  if x < 0 then 45 :: Decimal.text x.natAbs else Decimal.text x.natAbs

inductive Op where
  | invalid
  | null
  | bool (b : Bool)
  | int (x : Isize)
  | string (s : List Byte)
  | startArray
  | endArray
  | startMap
  | endMap
  deriving DecidableEq

structure Cursor where
  capacity : Nat
  written : List Byte
  inside : written.length ≤ capacity
  small : capacity < isizeEnd

/-- A piece is written as far as there is room; whether it is written whole. -/
def Cursor.writeExact (w : Cursor) (data : List Byte) : Bool × Cursor :=
  (decide (data.length ≤ w.capacity - w.written.length),
    { w with
      written := w.written ++ data.take (w.capacity - w.written.length)
      inside := by
        have := w.inside
        rw [List.length_append, List.length_take]
        omega })

def Cursor.writePieces (w : Cursor) : List (List Byte) → Bool × Cursor
  | [] => (true, w)
  | piece :: pieces =>
    match w.writeExact piece with
    | (true, w) => w.writePieces pieces
    | (false, w) => (false, w)

def Op.pieces (len : Nat) : Op → Option (List (List Byte))
  | .invalid => none
  | .null => some [Decimal.text len, [58, 126]]
  | .bool b => some [Decimal.text len, [58], boolBytes b, [33]]
  | .int x => some [Decimal.text len, [58], intText x.val, [35]]
  | .string s => some [Decimal.text len, [58], s, [44]]
  | .startArray => some [Decimal.text len, [58]]
  | .startMap => some [Decimal.text len, [58]]
  | .endArray => some [[93]]
  | .endMap => some [[125]]

def Op.serialize (op : Op) (w : Cursor) (len : Nat) : Option (Bool × Cursor) :=
  (op.pieces len).map w.writePieces

mutual
def calcLen (checks : Bool) : Nat → List Op → Option (List Nat)
  | 0, _ => none
  | _ + 1, [] => none
  | _ + 1, .invalid :: _ => none
  | _ + 1, .null :: _ => some [0]
  | _ + 1, .bool b :: _ => some [boolLen b]
  | _ + 1, .int x :: _ => (isizeLen checks x).map fun len => [len]
  | _ + 1, .string s :: _ => some [s.length]
  | fuel + 1, .startArray :: ops => do
    let (total, lens) ← calcItems checks fuel .endArray .endMap ops 0
    return total :: (lens ++ [0])
  | _ + 1, .endArray :: _ => none
  | fuel + 1, .startMap :: ops => do
    let (total, lens) ← calcItems checks fuel .endMap .endArray ops 0
    return total :: (lens ++ [0])
  | _ + 1, .endMap :: _ => none

def calcItems (checks : Bool) : Nat → Op → Op → List Op → Nat → Option (Nat × List Nat)
  | 0, _, _, _, _ => none
  | _ + 1, _, _, [], _ => none
  | fuel + 1, closing, other, op :: ops, total =>
    if op = closing then some (total, [])
    else if op = other then none
    else do
      let lens ← calcLen checks fuel (op :: ops)
      let len := lens.headD 0
      let cost ← addUsize checks (← addUsize checks (usizeLen len) len) 2
      let total ← addUsize checks total cost
      let (total, more) ← calcItems checks fuel closing other ((op :: ops).drop lens.length) total
      return (total, lens ++ more)
end

structure Writer where
  ops : List Op
  dest : Cursor

def Writer.new (dest : Cursor) : Writer := ⟨[], dest⟩

def Writer.append (writer : Writer) (op : Op) : Bool × Writer :=
  if writer.ops.length ≥ opsMax then (false, writer)
  else (true, { writer with ops := writer.ops ++ [op] })

def Writer.appendAll (writer : Writer) : List Op → Bool × Writer
  | [] => (true, writer)
  | op :: ops =>
    match writer.append op with
    | (true, writer) => writer.appendAll ops
    | (false, writer) => (false, writer)

/-- The operations of one group are written and taken away; whether all were, and
    the operations that are left in their places. -/
def flushGroup : List Op → List Nat → Cursor → Option (Bool × List Op × Cursor)
  | [], _, w => some (true, [], w)
  | _ :: _, [], _ => none
  | op :: ops, len :: lens, w => do
    match ← op.serialize w len with
    | (false, w) => return (false, op :: ops, w)
    | (true, w) => do
      let (ok, left, w) ← flushGroup ops lens w
      return (ok, .invalid :: left, w)

def flushFrom (checks : Bool) : Nat → List Op → Cursor → Option (Bool × List Op × Cursor)
  | _, [], w => some (true, [], w)
  | 0, _ :: _, _ => none
  | groups + 1, ops, w => do
    let lens ← calcLen checks (2 * ops.length) ops
    if lens.length > ops.length then none
    else do
      match ← flushGroup (ops.take lens.length) lens w with
      | (false, left, w) => return (false, left ++ ops.drop lens.length, w)
      | (true, left, w) => do
        let (ok, rest, w) ← flushFrom checks groups (ops.drop lens.length) w
        return (ok, left ++ rest, w)

def Writer.flush (checks : Bool) (writer : Writer) : Option (Bool × Writer) := do
  match ← flushFrom checks writer.ops.length writer.ops writer.dest with
  | (true, _, dest) => return (true, ⟨[], dest⟩)
  | (false, ops, dest) => return (false, ⟨ops, dest⟩)

end PushpinTnetstring
