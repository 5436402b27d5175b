import Mathlib.Algebra.Order.Floor.Ring
import Mathlib.Data.Rat.Floor
import Mathlib.Data.String.Basic

/-!
Values of unknown type, as they come out of a JSON or TNetString document, and the
functions that read typed members of a keyed object. A null byte array is `none`.
-/
namespace PushpinVariant

abbrev Bytes := List UInt8

/-- A map comes from JSON, a hash from a TNetString. The entries of either are in
    no particular order, and the first one with a key is its value. `null` is the null
    pointer that stands for a null inside of a JSON array or object. -/
inductive Variant where
  | invalid
  | null
  | bool (b : Bool)
  | int (n : Int)
  | double (q : Rat)
  | string (s : String)
  | byteArray (b : Option Bytes)
  | list (items : List Variant)
  | map (entries : List (String × Variant))
  | hash (entries : List (String × Variant))

def lookup (entries : List (String × Variant)) (name : String) : Option Variant :=
  (entries.find? fun e => e.1 = name).map Prod.snd

def assign (name : String) (value : Variant) : List (String × Variant) → List (String × Variant)
  | [] => [(name, value)]
  | e :: rest => if e.1 = name then (name, value) :: rest else e :: assign name value rest

def discard (name : String) (entries : List (String × Variant)) : List (String × Variant) :=
  entries.filter fun e => e.1 ≠ name

def qRound (q : Rat) : Int := if 0 ≤ q then ⌊q + 1 / 2⌋ else -⌊-q + 1 / 2⌋

def toInt32 (n : Int) : Int := n.bmod (2 ^ 32)

/-- A `qlonglong`. A double that is out of its range becomes the least one, as the
    processor converts it. -/
def toLongLong (n : Int) : Int := if -2 ^ 63 ≤ n ∧ n < 2 ^ 63 then n else -2 ^ 63

def isAsciiSpace (c : Char) : Bool := c = ' ' || (9 ≤ c.toNat && c.toNat ≤ 13)

/-- `isSpace` of a character: the separators of Unicode too. -/
def isSpaceChar (c : Char) : Bool :=
  isAsciiSpace c || (0x2000 ≤ c.toNat && c.toNat ≤ 0x200a) ||
    [0x85, 0xa0, 0x1680, 0x2028, 0x2029, 0x202f, 0x205f, 0x3000].contains c.toNat

def digitsValue : List Char → Option Nat
  | [] => none
  | cs =>
    cs.foldl
      (fun acc c => acc.bind fun n => if c.isDigit then some (10 * n + (c.toNat - 48)) else none)
      (some 0)

/-- A number in decimal: spaces around it are skipped, and a sign may come first. It
    has to fit into an integer with so many bits beside the sign. -/
def parseNumber (isSpace : Char → Bool) (bits : Nat) (cs : List Char) : Option Int :=
  let cs := ((cs.dropWhile isSpace).reverse.dropWhile isSpace).reverse
  let value : Option Int :=
    match cs with
    | '-' :: digits => (digitsValue digits).map fun n => -(n : Int)
    | '+' :: digits => (digitsValue digits).map fun n => (n : Int)
    | digits => (digitsValue digits).map fun n => (n : Int)
  value.filter fun n => -2 ^ bits ≤ n ∧ n < 2 ^ bits

def parseInt (s : String) : Option Int := parseNumber isSpaceChar 31 s.toList

def parseLongLong (s : String) : Option Int := parseNumber isSpaceChar 63 s.toList

/-- A number in a byte array, which a null byte ends. White space after the number is
    skipped, as it is since Qt 6. -/
def bytesNumber (bits : Nat) (b : Bytes) : Option Int :=
  parseNumber isAsciiSpace bits ((b.takeWhile (· ≠ 0)).map fun b => Char.ofNat b.toNat)

namespace Variant

def isValid : Variant → Bool
  | .invalid => false
  | _ => true

def isKeyedObject : Variant → Bool
  | .map _ | .hash _ => true
  | _ => false

def entries : Variant → List (String × Variant)
  | .map entries | .hash entries => entries
  | _ => []

def keyedObjectContains (v : Variant) (name : String) : Bool := (lookup v.entries name).isSome

def keyedObjectGetValue (v : Variant) (name : String) : Variant :=
  (lookup v.entries name).getD .invalid

def canConvertInt : Variant → Bool
  | .bool _ | .int _ | .double _ | .string _ | .byteArray _ => true
  | _ => false

/-- Every number goes through a `qlonglong`, whose low bits are the `int`. -/
def toInt : Variant → Int
  | .bool b => if b then 1 else 0
  | .int n => toInt32 (toLongLong n)
  | .double q => toInt32 (toLongLong (qRound q))
  | .string s => toInt32 ((parseLongLong s).getD 0)
  | .byteArray b => toInt32 ((b.bind (bytesNumber 63)).getD 0)
  | _ => 0

section
-- how a byte array becomes a string
variable (fromUtf8 : Bytes → String)

def orElse (name other : String) : String := if name = "" then other else name

/-- The child, or an invalid value where there is none and none is required. -/
def getChild (v : Variant) (parentName childName : String) (required : Bool) :
    Except String Variant :=
  if v.isKeyedObject then
    match lookup v.entries childName with
    | some child => .ok child
    | none =>
      if required then
        .error (orElse parentName "object" ++ " does not contain '" ++ childName ++ "'")
      else .ok .invalid
  else .error (orElse parentName "value" ++ " is not an object")

def wrongType (parentName childName : String) : String :=
  orElse parentName "object" ++ " contains '" ++ childName ++ "' with wrong type"

def getKeyedObject (v : Variant) (parentName childName : String) (required : Bool) :
    Except String Variant := do
  let child ← v.getChild parentName childName required
  if !child.isValid && !required then return .invalid
  if child.isKeyedObject then return child
  throw (wrongType parentName childName)

def getList (v : Variant) (parentName childName : String) (required : Bool) :
    Except String (List Variant) := do
  let child ← v.getChild parentName childName required
  if !child.isValid && !required then return []
  match child with
  | .list items => return items
  | _ => throw (wrongType parentName childName)

/-- A string or a byte array as text. Null text is the inner `none`. -/
def asString : Variant → Option (Option String)
  | .string s => some (some s)
  | .byteArray b => some (b.map fromUtf8)
  | _ => none

def getString (v : Variant) (parentName childName : String) (required : Bool) :
    Except String (Option String) := do
  let child ← v.getChild parentName childName required
  if !child.isValid && !required then return none
  match child.asString fromUtf8 with
  | some s => return s
  | none => throw (wrongType parentName childName)

end
end Variant
end PushpinVariant
