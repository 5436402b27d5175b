import Mathlib.Algebra.Order.Ring.Rat
import Mathlib.Data.List.Basic

/-!
JSON documents, RFC 6901 pointers into them and RFC 6902 patches. The order of an
object's members has no meaning. A pointer to the whole document names no place
inside of it, and is no concern of the operations here.
-/
namespace JsonDocuments

inductive Json where
  | null
  | bool (b : Bool)
  | number (q : Rat)
  | text (s : String)
  | array (items : List Json)
  | object (members : List (String × Json))

section Members
variable {α : Type}

def find (members : List (String × α)) (name : String) : Option α :=
  (members.find? fun m => m.1 = name).map Prod.snd

def put (name : String) (value : α) : List (String × α) → List (String × α)
  | [] => [(name, value)]
  | m :: rest => if m.1 = name then (name, value) :: rest else m :: put name value rest

def drop (name : String) (members : List (String × α)) : List (String × α) :=
  members.filter fun m => m.1 ≠ name

end Members

abbrev Token := List Char

def decode : Token → Option (List Char)
  | [] => some []
  | [c] => if c = '~' then none else some [c]
  | c :: d :: rest =>
    if c = '~' then
      if d = '0' then (decode rest).map ('~' :: ·)
      else if d = '1' then (decode rest).map ('/' :: ·)
      else none
    else (decode (d :: rest)).map (c :: ·)

def digitsNumber (digits : List Char) : Nat := digits.foldl (fun n c => 10 * n + (c.toNat - 48)) 0

/-- An index of an array has digits only, and no leading zero. -/
def arrayIndex (digits : List Char) : Option Nat :=
  if digits = ['0'] ∨ (digits ≠ [] ∧ digits.head? ≠ some '0' ∧ digits.all Char.isDigit = true)
  then some (digitsNumber digits) else none

def pointer (s : String) : Option (List Token) :=
  match s.toList with
  | [] => some []
  | c :: rest => if c = '/' then some (rest.splitOn '/') else none

namespace Json

/-- The value that the token refers to. The dash refers to none. -/
def child (j : Json) (token : Token) : Option Json := do
  let name ← decode token
  match j with
  | .array items => do items[← arrayIndex name]?
  | .object members => find members (String.ofList name)
  | _ => none

def setChild (j : Json) (token : Token) (value : Json) : Json :=
  match j, decode token with
  | .array items, some name =>
    match arrayIndex name with
    | some i => .array (items.set i value)
    | none => .array items
  | .object members, some name => .object (put (String.ofList name) value members)
  | j, _ => j

def add (j : Json) (token : Token) (value : Json) : Option Json := do
  let name ← decode token
  match j with
  | .array items =>
    if name = ['-'] then some (.array (items ++ [value]))
    else do
      let i ← arrayIndex name
      if i ≤ items.length then some (.array (items.insertIdx i value)) else none
  | .object members => some (.object (put (String.ofList name) value members))
  | _ => none

def replace (j : Json) (token : Token) (value : Json) : Option Json :=
  (j.child token).map fun _ => j.setChild token value

def remove (j : Json) (token : Token) : Option Json := do
  let name ← decode token
  match j with
  | .array items => do
    let i ← arrayIndex name
    if i < items.length then some (.array (items.eraseIdx i)) else none
  | .object members =>
    if (find members (String.ofList name)).isSome then
      some (.object (drop (String.ofList name) members)) else none
  | _ => none

/-- The value that holds the place, the token of the place in it, and the document
    with something else for the holder. -/
def site : Json → List Token → Option (Json × Token × (Json → Json))
  | _, [] => none
  | j, [t] => some (j, t, id)
  | j, t :: s :: ts => do
    let c ← j.child t
    let (holder, last, rebuild) ← c.site (s :: ts)
    some (holder, last, fun x => j.setChild t (rebuild x))

def valueAt (j : Json) (ts : List Token) : Option Json := do
  let (holder, last, _) ← j.site ts
  holder.child last

def addAt (j : Json) (ts : List Token) (value : Json) : Option Json := do
  let (holder, last, rebuild) ← j.site ts
  (holder.add last value).map rebuild

def replaceAt (j : Json) (ts : List Token) (value : Json) : Option Json := do
  let (holder, last, rebuild) ← j.site ts
  (holder.replace last value).map rebuild

def removeAt (j : Json) (ts : List Token) : Option Json := do
  let (holder, last, rebuild) ← j.site ts
  (holder.remove last).map rebuild

mutual

def same : Json → Json → Bool
  | .null, .null => true
  | .bool a, .bool b => a == b
  | .number a, .number b => a == b
  | .text a, .text b => a == b
  | .array as, .array bs => sameItems as bs
  | .object as, .object bs => as.length == bs.length && sameMembers as bs
  | _, _ => false

def sameItems : List Json → List Json → Bool
  | [], [] => true
  | a :: as, b :: bs => same a b && sameItems as bs
  | _, _ => false

def sameMembers : List (String × Json) → List (String × Json) → Bool
  | [], _ => true
  | (name, a) :: as, bs =>
    (match find bs name with
    | some b => same a b
    | none => false) && sameMembers as bs

end
end Json

theorem child_array (items : List Json) (t : Token) :
    (Json.array items).child t = ((decode t).bind arrayIndex).bind (items[·]?) := by
  rw [Option.bind_assoc]
  rfl

theorem remove_array (items : List Json) (t : Token) :
    (Json.array items).remove t = ((decode t).bind arrayIndex).bind fun i =>
      if i < items.length then some (.array (items.eraseIdx i)) else none := by
  rw [Option.bind_assoc]
  rfl

theorem setChild_array (items : List Json) {t : Token} {i : Nat}
    (index : (decode t).bind arrayIndex = some i) (value : Json) :
    (Json.array items).setChild t value = .array (items.set i value) := by
  obtain ⟨name, decoded, isIndex⟩ := Option.bind_eq_some_iff.mp index
  simp only [Json.setChild, decoded, isIndex]

theorem decode_eq_dash {t : Token} (decoded : decode t = some ['-']) : t = ['-'] := by
  match t with
  | [] => cases decoded
  | [c] =>
    rw [decode] at decoded
    split at decoded
    · cases decoded
    · exact Option.some.inj decoded
  | c :: d :: rest =>
    exfalso
    rw [decode] at decoded
    split_ifs at decoded
    · simp at decoded
    · simp at decoded
    · obtain ⟨tail, decodedTail, same⟩ := Option.map_eq_some_iff.mp decoded
      have empty : tail = [] := (List.cons.inj same).2
      rw [empty] at decodedTail
      cases rest with
      | nil =>
        rw [decode] at decodedTail
        split at decodedTail <;> simp at decodedTail
      | cons e rest =>
        rw [decode] at decodedTail
        split_ifs at decodedTail <;> simp at decodedTail

theorem add_array_of_no_index {items : List Json} {t : Token} (notEnd : t ≠ ['-'])
    (noIndex : ∀ i, i ≤ items.length → (decode t).bind arrayIndex ≠ some i) (value : Json) :
    (Json.array items).add t value = none := by
  unfold Json.add
  cases decoded : decode t with
  | none => rfl
  | some name =>
    have inner : name ≠ ['-'] := fun same => notEnd (decode_eq_dash (same ▸ decoded))
    rw [Option.bind_eq_bind, Option.bind_some]
    dsimp only
    rw [if_neg inner]
    cases index : arrayIndex name with
    | none => rfl
    | some i =>
      have above : ¬ i ≤ items.length :=
        fun within => noIndex i within (by rw [decoded]; exact index)
      rw [Option.bind_eq_bind, Option.bind_some, if_neg above]

inductive Operation (α : Type) where
  | add (path : String) (value : α)
  | remove (path : String)
  | replace (path : String) (value : α)
  | move (source path : String)
  | copy (source path : String)
  | test (path : String) (value : α)

def Operation.map {α β : Type} (f : α → β) : Operation α → Operation β
  | .add path value => .add path (f value)
  | .remove path => .remove path
  | .replace path value => .replace path (f value)
  | .move source path => .move source path
  | .copy source path => .copy source path
  | .test path value => .test path (f value)

def Operation.apply (j : Json) : Operation Json → Option Json
  | .add path value => do j.addAt (← pointer path) value
  | .remove path => do j.removeAt (← pointer path)
  | .replace path value => do j.replaceAt (← pointer path) value
  | .move source path => do
    let source ← pointer source
    let path ← pointer path
    -- a place cannot move into itself
    if source <+: path ∧ source ≠ path then none
    else do
      let value ← j.valueAt source
      (← j.removeAt source).addAt path value
  | .copy source path => do
    let value ← j.valueAt (← pointer source)
    j.addAt (← pointer path) value
  | .test path value => do
    let current ← j.valueAt (← pointer path)
    if current.same value then some j else none

end JsonDocuments
