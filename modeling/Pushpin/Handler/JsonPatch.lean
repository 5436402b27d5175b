import Pushpin.Handler.JsonPointer

/-!
Patches of a JSON document. An operation that fails ends the patch, with the text of
its error where it has one.
-/
namespace PushpinJsonPatch
open PushpinVariant PushpinJsonPointer

section
variable (fromUtf8 : Bytes → String)

mutual

/-- Hashes become maps and byte arrays become text. The entries of a map are not
    looked at. -/
def convertToJsonStyle : Variant → Variant
  | .hash entries => .map (convertEntries entries)
  | .list items => .list (convertItems items)
  | .byteArray b => .string ((b.map fromUtf8).getD "")
  | v => v

def convertItems : List Variant → List Variant
  | [] => []
  | v :: items => convertToJsonStyle v :: convertItems items

def convertEntries : List (String × Variant) → List (String × Variant)
  | [] => []
  | (name, v) :: entries => (name, convertToJsonStyle v) :: convertEntries entries

end

/-- Values other than two maps, lists, strings or booleans are compared as integers. -/
def compareScalars (a b : Variant) : Bool :=
  match a, b with
  | .string a, .string b => a == b
  | .bool a, .bool b => a == b
  | .invalid, .invalid => true
  | a, b => if a.canConvertInt && b.canConvertInt then a.toInt == b.toInt else false

mutual

def compareStyled : Variant → Variant → Bool
  | .map am, .map bm => am.length == bm.length && compareEntries am bm
  | .list al, .list bl => al.length == bl.length && compareItems al bl
  | a, b => compareScalars a b

def compareItems : List Variant → List Variant → Bool
  | a :: al, b :: bl => compareStyled a b && compareItems al bl
  | _, _ => true

def compareEntries : List (String × Variant) → List (String × Variant) → Bool
  | [], _ => true
  | (key, val) :: am, bm =>
    (match lookup bm key with
    | some other => compareStyled val other
    | none => false) && compareEntries am bm

end

def compareJsonValues (a b : Variant) : Bool :=
  compareStyled (convertToJsonStyle fromUtf8 a) (convertToJsonStyle fromUtf8 b)

def failing {α : Type} : Except String α → Except (Option String) α
  | .ok a => .ok a
  | .error message => .error (some message)

def getText (vop : Variant) (name : String) : Except (Option String) String :=
  failing ((vop.getString fromUtf8 "op" name true).map (·.getD ""))

def getValue (vop : Variant) : Except (Option String) Variant :=
  if vop.keyedObjectContains "value" then .ok (vop.keyedObjectGetValue "value")
  else .error (some "op does not contain 'value'")

def resolveExisting (out : Variant) (path : String) : Except (Option String) (List Ref) := do
  let refs ← failing (resolve out path)
  if pointerExists out refs then return refs else throw (some "location does not exist")

def add (out vop : Variant) (ptr : List Ref) : Except (Option String) Variant := do
  let value ← getValue vop
  return (pointerSetValue out ptr value).1

/-- The root cannot be removed, and then there is no text of an error. -/
def remove (out : Variant) (ptr : List Ref) : Except (Option String) Variant :=
  if pointerExists out ptr then
    match pointerRemove out ptr with
    | (out, true) => .ok out
    | (_, false) => .error none
  else .error (some "location does not exist")

def replace (out vop : Variant) (ptr : List Ref) : Except (Option String) Variant := do
  let value ← getValue vop
  if pointerExists out ptr then return (pointerSetValue out ptr value).1
  else throw (some "location does not exist")

def move (out vop : Variant) (path : String) : Except (Option String) Variant := do
  let source ← getText fromUtf8 vop "from"
  if isWithin path source then throw (some "cannot move location into itself")
  else do
    let fromPtr ← resolveExisting out source
    let (out, value) := pointerTake out fromPtr
    let ptr ← failing (resolve out path)
    return (pointerSetValue out ptr value).1

def copy (out vop : Variant) (path : String) : Except (Option String) Variant := do
  let source ← getText fromUtf8 vop "from"
  let fromPtr ← resolveExisting out source
  let ptr ← failing (resolve out path)
  return (pointerSetValue out ptr (pointerValue out fromPtr)).1

def test (out vop : Variant) (ptr : List Ref) : Except (Option String) Variant := do
  let value ← getValue vop
  if compareJsonValues fromUtf8 (pointerValue out ptr) value then return out
  else throw (some "tested values are not equal")

end
end PushpinJsonPatch
