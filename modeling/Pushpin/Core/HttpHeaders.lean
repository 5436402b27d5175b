import Pushpin.Core.Variant

/-!
Header fields and their parameters. A null byte array is `none`.
-/
namespace PushpinHttpHeaders
open PushpinVariant (Bytes bytesNumber)

def ascii (s : String) : Bytes := s.toList.map fun c => UInt8.ofNat c.toNat

def isSpace (b : UInt8) : Bool := b = 32 || (9 ≤ b && b ≤ 13)

def trimmed (b : Bytes) : Bytes := ((b.dropWhile isSpace).reverse.dropWhile isSpace).reverse

/-- `toInt` of a byte array. -/
def bytesToInt (b : Bytes) : Option Int := bytesNumber 31 b

def lower (b : UInt8) : UInt8 := if 65 ≤ b && b ≤ 90 then b + 32 else b

/-- `qstricmp`: the bytes up to a null byte, without regard to case. -/
def sameName (a b : Bytes) : Bool :=
  (a.takeWhile (· ≠ 0)).map lower = (b.takeWhile (· ≠ 0)).map lower

abbrev Parameter := Bytes × Option Bytes
abbrev Parameters := List Parameter

def Parameters.contains (ps : Parameters) (key : Bytes) : Bool := ps.any fun p => sameName p.1 key

def Parameters.get (ps : Parameters) (key : Bytes) : Option Bytes :=
  (ps.find? fun p => sameName p.1 key).bind Prod.snd

abbrev Headers := List (Bytes × Bytes)

def Headers.contains (hs : Headers) (key : Bytes) : Bool := hs.any fun h => sameName h.1 key

def Headers.get (hs : Headers) (key : Bytes) : Option Bytes :=
  (hs.find? fun h => sameName h.1 key).map Prod.snd

/-- The bytes before a comma that is not quoted, and those after it. An escape at the
    end or a quote that stays open is an error. -/
def findNonQuoted (c : UInt8) : Bool → Bytes → Option (Bytes × Option Bytes)
  | inQuote, [] => if inQuote then none else some ([], none)
  | true, [i] => if i = 34 then some ([i], none) else none
  | true, i :: d :: rest =>
    if i = 92 then (findNonQuoted c true rest).map fun (part, after) => (i :: d :: part, after)
    else (findNonQuoted c (i ≠ 34) (d :: rest)).map fun (part, after) => (i :: part, after)
  | false, i :: rest =>
    if i = 34 then (findNonQuoted c true rest).map fun (part, after) => (i :: part, after)
    else if i = c then some ([], some rest)
    else (findNonQuoted c false rest).map fun (part, after) => (i :: part, after)

def headerSplitFrom : Nat → Bytes → List Bytes
  | _, [] => []
  | 0, _ => []
  | fuel + 1, value =>
    match findNonQuoted 44 false value with
    | none => [trimmed value]
    | some (part, none) => [trimmed part]
    | some (part, some after) => trimmed part :: headerSplitFrom fuel after

def headerSplit (value : Bytes) : List Bytes := headerSplitFrom value.length value

inductive ParseMode where
  | noParseFirstParameter
  | parseAllParameters
deriving DecidableEq, Repr

def quoted : Bytes → Option (Bytes × Bytes)
  | [] => none
  | [c] => if c = 34 then some ([], []) else none
  | c :: d :: rest =>
    if c = 92 then (quoted rest).map fun (value, after) => (d :: value, after)
    else if c = 34 then some ([], d :: rest)
    else (quoted (d :: rest)).map fun (value, after) => (c :: value, after)

def afterSemicolon (b : Bytes) : Bytes := (b.dropWhile (· ≠ 59)).drop 1

/-- The parameters from here on. A quoted value without bytes is null. The fuel is the
    length. -/
def parseFrom : Nat → Bytes → Option Parameters
  | _, [] => some []
  | 0, _ => some []
  | fuel + 1, value =>
    let var := trimmed (value.takeWhile fun b => b ≠ 61 && b ≠ 59)
    match value.dropWhile fun b => b ≠ 61 && b ≠ 59 with
    | [] => some [(var, none)]
    | c :: rest =>
      if c = 61 then
        match rest with
        | 34 :: rest => do
          let (val, after) ← quoted rest
          let params ← parseFrom fuel (afterSemicolon after)
          some ((var, if val = [] then none else some val) :: params)
        | _ => do
          let params ← parseFrom fuel (afterSemicolon rest)
          some ((var, some (trimmed (rest.takeWhile (· ≠ 59)))) :: params)
      else do
        let params ← parseFrom fuel rest
        some ((var, none) :: params)

def parseParameters (value : Bytes) (mode : ParseMode) : Option Parameters :=
  match mode with
  | .noParseFirstParameter =>
    (parseFrom value.length (afterSemicolon value)).map
      ((trimmed (value.takeWhile (· ≠ 59)), none) :: ·)
  | .parseAllParameters => parseFrom value.length value

namespace Headers

/-- Parameters that cannot be parsed are none. -/
def getAsParameters (hs : Headers) (key : Bytes) (mode : ParseMode) : Parameters :=
  match hs.get key with
  | none | some [] => []
  | some value => (parseParameters value mode).getD []

def getAsFirstParameter (hs : Headers) (key : Bytes) : Bytes :=
  ((hs.getAsParameters key .noParseFirstParameter).head?.map Prod.fst).getD []

def getAll (hs : Headers) (key : Bytes) : List Bytes :=
  (hs.filter fun h => sameName h.1 key).flatMap fun h => headerSplit h.2

def getAllAsParameters (hs : Headers) (key : Bytes) (mode : ParseMode) : List Parameters :=
  (hs.getAll key).filterMap fun value => parseParameters value mode

section
variable {hs : Headers} {key : Bytes} (absent : hs.contains key = false)
include absent

theorem get_none : hs.get key = none := by
  rw [get, Option.map_eq_none_iff, List.find?_eq_none]
  intro h member same
  have found : hs.contains key = true := List.any_eq_true.mpr ⟨h, member, same⟩
  rw [absent] at found
  cases found

theorem getAsParameters_nil (mode : ParseMode) : hs.getAsParameters key mode = [] := by
  rw [getAsParameters, get_none absent]

theorem getAllAsParameters_nil (mode : ParseMode) : hs.getAllAsParameters key mode = [] := by
  have noFields : (hs.filter fun h => sameName h.1 key) = [] := by
    rw [List.filter_eq_nil_iff]
    intro h member same
    have found : hs.contains key = true := List.any_eq_true.mpr ⟨h, member, same⟩
    rw [absent] at found
    cases found
  rw [getAllAsParameters, getAll, noFields]
  rfl

end

end Headers
end PushpinHttpHeaders
