import Pushpin.Core.TnetstringRoundTrip
import Pushpin.Foundations.Outcome

/-!
The encoder and the decoder of `core/tnetstring.cpp`. A text of a value is its UTF-8
form, and a double its 64 bits. An index outside of the array panics, and so does an
offset that is no `int`; a failure is what the source gives with `ok` set to false.
-/
namespace PushpinTnetCodec
open PushpinRingBuffer PushpinTnetstring Text

def intEnd : Nat := 2 ^ 31

inductive Value where
  | null
  | bool (b : Bool)
  | int (x : Isize)
  | double (bits : UInt64)
  | byteArray (b : List Byte)
  | list (items : List Value)
  | hash (entries : List (List Byte × Value))

section
variable (doubleText : UInt64 → List Byte)

mutual
def fromVariant : Value → List Byte
  | .byteArray b => framed b 44
  | .double bits => framed (doubleText bits) 94
  | .bool b => framed (boolBytes b) 33
  | .null => framed [] 126
  | .hash entries => framed (fromHash entries) 125
  | .list items => framed (fromList items) 93
  | .int x => framed (intText x.val) 35
def fromHash : List (List Byte × Value) → List Byte
  | [] => []
  | (key, value) :: entries => framed key 44 ++ (fromVariant value ++ fromHash entries)
def fromList : List Value → List Byte
  | [] => []
  | value :: items => fromVariant value ++ fromList items
end

end

def isSpace (c : Byte) : Bool := c = 32 || (9 ≤ c && c ≤ 13)

/-- A number with a sign and spaces around it, as it is read since Qt 6. A null byte ends
    the text. -/
def toLongLong (s : List Byte) : Option Int :=
  let s := s.dropWhile isSpace
  let negative := s.head? = some 45
  let s := if s.head? = some 45 ∨ s.head? = some 43 then s.tail else s
  let digits := s.takeWhile Decimal.isDigit
  let rest := (s.dropWhile Decimal.isDigit).dropWhile isSpace
  let value : Int := if negative then -(Decimal.value digits : Int) else Decimal.value digits
  if digits = [] ∨ (rest.head? ≠ none ∧ rest.head? ≠ some 0) then none
  else if -(isizeEnd : Int) ≤ value ∧ value < isizeEnd then some value else none

def toInt (s : List Byte) : Option Int :=
  (toLongLong s).filter fun n => -(intEnd : Int) ≤ n ∧ n < intEnd

def indexOf (src : List Byte) (c : Byte) (offset : Nat) : Option Nat :=
  ((src.drop offset).findIdx? (· = c)).map (offset + ·)

def mid (src : List Byte) (pos len : Nat) : List Byte := (src.drop pos).take len

inductive Stop where
  | refused
  | unfinished
  deriving DecidableEq, Repr

structure Header where
  type : FrameType
  dataOffset : Nat
  dataSize : Nat
  deriving DecidableEq, Repr

def Header.next (h : Header) : Nat := h.dataOffset + h.dataSize + 1

def check (src : List Byte) (offset : Nat) : Outcome Stop Header :=
  match indexOf src 58 offset with
  | none => .fails .refused
  | some at_ =>
    if intEnd ≤ at_ then .panics
    else
      match toInt (mid src offset (at_ - offset)) with
      | none => .fails .refused
      | some size =>
        if size < 0 then .fails .refused
        else if intEnd ≤ at_ + 1 + size.toNat then .panics
        else
          match src[at_ + 1 + size.toNat]? with
          | none => .panics
          | some typeChar =>
            match typeOf typeChar with
            | none => .fails .refused
            | some type => .returns ⟨type, at_ + 1, size.toNat⟩

def assign {α : Type} (key : List Byte) (value : α) : List (List Byte × α) → List (List Byte × α)
  | [] => [(key, value)]
  | entry :: entries => if entry.1 = key then
    (key, value) :: entries else entry :: assign key value entries

def orRefused {α : Type} : Option α → Outcome Stop α
  | some a => .returns a
  | none => .fails .refused

section
variable (toDouble : List Byte → Option UInt64) (fromUtf8 : List Byte → List Byte) (src : List Byte)

def toBool (s : List Byte) : Option Bool :=
  if s = trueBytes then some true else if s = falseBytes then some false else none

mutual
def typedVariant : Nat → Header → Outcome Stop Value
  | 0, _ => .fails .unfinished
  | fuel + 1, h =>
    let data := mid src h.dataOffset h.dataSize
    match h.type with
    | .string => .returns (.byteArray data)
    | .int => orRefused ((toLongLong data).bind Isize.of) >>= fun x => .returns (.int x)
    | .float => orRefused (toDouble data) >>= fun bits => .returns (.double bits)
    | .bool => orRefused (toBool data) >>= fun b => .returns (.bool b)
    | .null => .returns .null
    | .map => toHash fuel (h.dataSize + h.dataOffset) h.dataOffset [] >>= fun entries =>
        .returns (.hash entries)
    | .array => toList fuel (h.dataOffset + h.dataSize) h.dataOffset [] >>= fun items =>
        .returns (.list items)
def toHash : Nat → Nat → Nat → List (List Byte × Value) → Outcome Stop (List (List Byte × Value))
  | 0, _, _, _ => .fails .unfinished
  | fuel + 1, end_, at_, out =>
    if at_ < end_ then do
      let key ← check src at_
      if key.type ≠ .string then .fails .refused
      else do
        let h ← check src key.next
        let value ← typedVariant fuel h
        toHash fuel end_ h.next (assign (fromUtf8 (mid src key.dataOffset key.dataSize)) value out)
    else .returns out
def toList : Nat → Nat → Nat → List Value → Outcome Stop (List Value)
  | 0, _, _, _ => .fails .unfinished
  | fuel + 1, end_, at_, out =>
    if at_ < end_ then do
      let h ← check src at_
      let value ← typedVariant fuel h
      toList fuel end_ h.next (out ++ [value])
    else .returns out
end

def toVariant (offset : Nat) : Outcome Stop Value := do
  let h ← check src offset
  typedVariant toDouble fromUtf8 src (src.length + 1) h

end

end PushpinTnetCodec
