import Mathlib.Logic.Function.Basic
import Pushpin.Proxy.DomainMap
import Pushpin.Proxy.RoutesFile

/-!
Rules from lines of the routes file. Of a line's settings there are those that a rule has
here, and the checks that can refuse the line. A file is read if it can be.
-/
namespace PushpinDomainMap
open PushpinVariant (Bytes)
open PushpinHttpHeaders (ascii bytesToInt)
open PushpinRoutesFile

abbrev Props := List (Bytes × Bytes)

def contains (props : Props) (key : Bytes) : Bool := props.any fun p => p.1 = key

def values (props : Props) (key : Bytes) : List Bytes :=
  ((props.filter fun p => p.1 = key).map Prod.snd).reverse

def value (props : Props) (key : Bytes) : Bytes := (values props key).head?.getD []

def cutAt (mark : Bytes) : Bytes → Option (Bytes × Bytes)
  | [] => if mark = [] then some ([], []) else none
  | c :: rest =>
    if mark.isPrefixOf (c :: rest) then some ([], (c :: rest).drop mark.length)
    else (cutAt mark rest).map fun (before, after) => (c :: before, after)

section
-- the content of a file that can be read
variable (readFile : Bytes → Option Bytes)

def parseHost (val : Bytes) : Option Target := do
  let (host, sport) ← if (ascii "[").isPrefixOf val then
    (cutAt (ascii "]:") val).map fun (before, after) => (before.drop 1, after)
    else cutAt (ascii ":") val
  let port ← bytesToInt sport
  if port < 1 ∨ 65535 < port then none
  else some (.default host port)

def parseTarget (s : RouteSection) : Option Target := do
  let target ← if s.value = ascii "test" then some .test
    else if (ascii "zhttp/").isPrefixOf s.value then some (.custom (s.value.drop 6) false)
    else if (ascii "zhttpreq/").isPrefixOf s.value then some (.custom (s.value.drop 9) true)
    else parseHost s.value
  if contains s.props (ascii "client_cert") &&
    (readFile (value s.props (ascii "client_cert"))).isNone then none
  else if contains s.props (ascii "client_key") &&
    (readFile (value s.props (ascii "client_key"))).isNone then none
  else some target

def choice (props : Props) (key : Bytes) (one : Bytes × Int) (two : Bytes × Int) : Option Int :=
  if contains props key then
    if value props key = one.1 then some one.2
    else if value props key = two.1 then some two.2
    else none
  else some (-1)

def headerFits (s : Bytes) : Bool :=
  match cutAt (ascii ":") s with
  | some (name, _) => !name.isEmpty
  | none => false

/-- A null domain is unspecified, and an empty one is the wildcard. -/
def domainOf (val : Bytes) : Option Bytes :=
  if val = [] then none else if val = ascii "*" then some [] else some val

def parseSections (condition : RouteSection) (targets : List RouteSection) : Option Rule := do
  let props := condition.props
  let proto ← choice props (ascii "proto") (ascii "http", 0) (ascii "ws", 1)
  let ssl ← choice props (ascii "ssl") (ascii "yes", 1) (ascii "no", 0)
  if contains props (ascii "path_beg") && (value props (ascii "path_beg")).isEmpty then none
  else if (choice props (ascii "jsonp_mode") (ascii "basic", 0) (ascii "extended", 1)).isNone
    then none
  else if !(values props (ascii "header")).all headerFits then none
  else
    let targets ← targets.mapM (parseTarget readFile)
    let r : Rule :=
      { domain := domainOf condition.value, proto, ssl, targets,
        pathBeg := value props (ascii "path_beg"),
        id := value props (ascii "id"), explicitId := contains props (ascii "id") }
    some (if r.id.isEmpty then { r with id := r.idFromCondition } else r)

def parseRouteLine (line : Bytes) : Option Rule :=
  match parseLine line with
  | some (.ok (condition :: target :: targets)) => parseSections readFile condition
      (target :: targets)
  | _ => none

inductive AddRuleResult where
  | ok
  | noDomainOrId
  | duplicate
deriving DecidableEq, Repr

namespace DomainMap

/-- The rule is listed under its domain. A second rule with an id makes the id unusable. -/
def addRule (r : Rule) (d : DomainMap) : AddRuleResult × DomainMap :=
  if r.domain.isNone && r.id.isEmpty then (.noDomainOrId, d)
  else if r.domain.any fun domain => ((d.rulesByDomain domain).getD []).any fun b =>
    b.compare r then (.duplicate, d)
  else
    (.ok,
      { allRules := d.allRules ++ [r]
        rulesByDomain :=
          match r.domain with
          | some domain => Function.update d.rulesByDomain domain
              (some ((d.rulesByDomain domain).getD [] ++ [r]))
          | none => d.rulesByDomain
        rulesById :=
          if r.id.isEmpty then d.rulesById
          else
            match d.rulesById r.id with
            | none => Function.update d.rulesById r.id (some r)
            | some _ => Function.update d.rulesById r.id (some {}) })

def addLine (d : DomainMap) (line : Bytes) : DomainMap :=
  match parseRouteLine readFile line with
  | none => d
  | some r => (d.addRule r).2

def reload (lines : List Bytes) : DomainMap := lines.foldl (addLine readFile) {}

def addRouteLine (d : DomainMap) (line : Bytes) : Bool × DomainMap :=
  match parseRouteLine readFile line with
  | none => (false, d)
  | some r => ((d.addRule r).1 = .ok, (d.addRule r).2)

end DomainMap
end
end PushpinDomainMap
