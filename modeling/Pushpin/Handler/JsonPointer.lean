import Pushpin.Core.Variant

/-!
JSON pointers: a pointer is resolved against a document to references, and each
operation walks the document along the references to the value that holds the place.
-/
namespace PushpinJsonPointer
open PushpinVariant

inductive Ref where
  | self
  | object (name : String)
  /-- The index after the last one is `-1`. -/
  | array (index : Int)
deriving DecidableEq, Repr

def Ref.fits : Ref → Variant → Bool
  | .self, _ => true
  | .object _, v => v.isKeyedObject
  | .array _, .list _ => true
  | .array _, _ => false

def replacePair (tilde digit : Char) (by' : Char) : List Char → List Char
  | [] => []
  | [c] => [c]
  | c :: d :: rest =>
    if c = tilde ∧ d = digit then by' :: replacePair tilde digit by' rest
    else c :: replacePair tilde digit by' (d :: rest)

def unescape (part : List Char) : List Char :=
  replacePair '~' '0' '~' (replacePair '~' '1' '/' part)

def items : Variant → List Variant
  | .list items => items
  | _ => []

def stepInto (v : Variant) : Ref → Option Variant
  | .self => none
  | .object name => lookup v.entries name
  | .array index => if 0 ≤ index ∧ index < (items v).length then (items v)[index.toNat]? else none

def setEntries (entries : List (String × Variant)) : Variant → Variant
  | .hash _ => .hash entries
  | _ => .map entries

def setChild (v : Variant) (ref : Ref) (child : Variant) : Variant :=
  match ref with
  | .self => v
  | .object name => setEntries (assign name child v.entries) v
  | .array index => .list ((items v).set index.toNat child)

def cannotStepInto : Ref → String
  | .self => ""
  | .object name => "cannot step into undefined reference: key=" ++ name
  | .array index => "cannot step into undefined reference: index=" ++ toString index

def childRef (v : Variant) (p : List Char) : Except String Ref :=
  match v with
  | .map _ | .hash _ => .ok (.object (String.ofList p))
  | .list l =>
    if p = ['-'] then .ok (.array (-1))
    else
      match parseInt (String.ofList p) with
      | none => .error "index must be an integer"
      | some index => if index < 0 ∨
          (l.length : Int) ≤ index then .error "index out of range" else .ok (.array index)
  | _ => .error "non-container value cannot have child reference"

def stepFrom (v : Variant) : Option Ref → Except String Variant
  | none => .ok v
  | some prevRef =>
    match stepInto v prevRef with
    | some child => .ok child
    | none => .error (cannotStepInto prevRef)

def resolvePart (v : Variant) (prevRef : Option Ref) (part : List Char) :
    Except String (Variant × Ref) :=
  if part = [] then .error "reference cannot be empty"
  else do
    let v ← stepFrom v prevRef
    let ref ← childRef v (unescape part)
    return (v, ref)

/-- The parts that are left. The value is stepped into when the next part is there,
    not before. -/
def resolveParts (v : Variant) (prevRef : Option Ref) : List (List Char) → Except String (List Ref)
  | [] => .ok []
  | part :: parts => do
    let (v, ref) ← resolvePart v prevRef part
    let refs ← resolveParts v (some ref) parts
    return ref :: refs

def partsOf (pointerStr : String) : List (List Char) := (pointerStr.toList.splitOn '/').drop 1

def startsWithSlash (pointerStr : String) : Bool := pointerStr.toList.head? = some '/'

def resolve (data : Variant) (pointerStr : String) : Except String (List Ref) :=
  if startsWithSlash pointerStr then
    if pointerStr.toList.length = 1 then .ok []
    else resolveParts data none (partsOf pointerStr)
  else .error "pointer must start with /"

def executeConst {β : Type} (func : Variant → Ref → β) : List Ref → Variant → Option β
  | [], v => some (func v .self)
  | [ref], v => if ref.fits v then some (func v ref) else none
  | ref :: next :: refs, v => do executeConst func (next :: refs) (← stepInto v ref)

/-- `execute` of a function that may change the value, and has then a new one. -/
def execute {β : Type} (func : Variant → Ref → Option Variant × β) : List Ref → Variant →
    Option (Option Variant × β)
  | [], v => some (func v .self)
  | [ref], v => if ref.fits v then some (func v ref) else none
  | ref :: next :: refs, v => do
    let (changed, out) ← execute func (next :: refs) (← stepInto v ref)
    some (changed.map (setChild v ref), out)

def inRange (v : Variant) (index : Int) : Bool := 0 ≤ index && index < (items v).length

def existsFunc (v : Variant) : Ref → Bool
  | .self => true
  | .object name => (lookup v.entries name).isSome
  | .array index => inRange v index

def valueFunc (v : Variant) : Ref → Variant
  | .self => v
  | .object name => (lookup v.entries name).getD .invalid
  | .array index => if inRange v index then ((items v)[index.toNat]?).getD .invalid else .invalid

def removed (v : Variant) : Ref → Option Variant
  | .self => none
  | .object name => if (lookup v.entries name).isSome then
    some (setEntries (discard name v.entries) v) else none
  | .array index => if inRange v index then some (.list ((items v).eraseIdx index.toNat)) else none

def removeFunc (v : Variant) (ref : Ref) : Option Variant × Bool :=
  (removed v ref, (removed v ref).isSome)

def takeFunc (v : Variant) (ref : Ref) : Option Variant × Variant :=
  (removed v ref, valueFunc v ref)

def setValueFunc (value : Variant) (v : Variant) : Ref → Option Variant × Bool
  | .self => (some value, true)
  | .object name => (some (setEntries (assign name value v.entries) v), true)
  | .array index =>
    if index = -1 then (some (.list (items v ++ [value])), true)
    else if inRange v index then (some (.list ((items v).set index.toNat value)), true)
    else (none, false)

def pointerExists (data : Variant) (refs : List Ref) : Bool :=
  (executeConst existsFunc refs data).getD false

def pointerValue (data : Variant) (refs : List Ref) : Variant :=
  (executeConst valueFunc refs data).getD .invalid

def afterwards {β : Type} (data : Variant) (otherwise : β) : Option (Option Variant × β) →
    Variant × β
  | none => (data, otherwise)
  | some (changed, out) => (changed.getD data, out)

def pointerRemove (data : Variant) (refs : List Ref) : Variant × Bool :=
  afterwards data false (execute removeFunc refs data)

def pointerTake (data : Variant) (refs : List Ref) : Variant × Variant :=
  afterwards data .invalid (execute takeFunc refs data)

def pointerSetValue (data : Variant) (refs : List Ref) (value : Variant) : Variant × Bool :=
  afterwards data false (execute (setValueFunc value) refs data)

/-- Whether `b` is a pointer to a place inside of the one at `a`, by their texts. -/
def isWithin (bPointerStr aPointerStr : String) : Bool :=
  if !startsWithSlash aPointerStr || !startsWithSlash bPointerStr || aPointerStr = bPointerStr
    then false
  else
    let aParts := partsOf aPointerStr
    let bParts := partsOf bPointerStr
    if bParts.length ≤ aParts.length then false
    else (aParts.zip bParts).all fun (a, b) => a = b

end PushpinJsonPointer
