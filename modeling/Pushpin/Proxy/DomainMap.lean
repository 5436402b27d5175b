import Pushpin.Core.HttpHeaders
import Pushpin.Foundations.Selection

/-!
The routes: which rule a request gets, and the rules by domain and by id. Texts are in
UTF-8. Of a rule's settings there are those of its condition, the ids and the targets.
-/
namespace PushpinDomainMap
open PushpinVariant (Bytes)
open PushpinHttpHeaders (ascii)

inductive Protocol where
  | http
  | webSocket
deriving DecidableEq, Repr

inductive Target where
  | test
  | custom (baseSpec : Bytes) (req : Bool)
  | default (connectHost : Bytes) (connectPort : Int)
deriving DecidableEq, Repr

/-- A null domain is `none`, and the wildcard is the empty domain. -/
structure Rule where
  domain : Option Bytes := none
  proto : Int := -1
  pathBeg : Bytes := []
  ssl : Int := -1
  id : Bytes := []
  explicitId : Bool := false
  targets : List Target := []
deriving DecidableEq, Repr

namespace Rule
variable (r other : Rule) (reqProto : Protocol) (reqSsl : Bool) (reqPath : Bytes)

def compare : Bool := r.proto = other.proto && r.ssl = other.ssl && r.pathBeg = other.pathBeg

def matchProto : Bool := (r.proto = 0 && reqProto = .http) || (r.proto = 1 && reqProto = .webSocket)

def matchSsl : Bool := (r.ssl = 0 && !reqSsl) || (r.ssl = 1 && reqSsl)

def isMatch : Bool :=
  (r.proto = -1 || r.matchProto reqProto) && (r.ssl = -1 || r.matchSsl reqSsl) &&
    (r.pathBeg.isEmpty || r.pathBeg.isPrefixOf reqPath)

def isMoreSpecificMatch : Bool :=
  if !r.isMatch reqProto reqSsl reqPath then false
  else if other.proto = -1 ∧ r.proto ≠ -1 then true
  else if other.proto ≠ -1 ∧ r.proto = -1 then false
  else if other.pathBeg.length < r.pathBeg.length then true
  else if other.ssl = -1 ∧ r.ssl ≠ -1 then true
  else false

def idFromCondition : Bytes :=
  let domainStr := if (r.domain.getD []).isEmpty then ascii "*" else r.domain.getD []
  let protoStr :=
    if r.proto = 0 then ascii "http" else if r.proto = 1 then ascii "ws" else ascii "*"
  let sslStr := if r.ssl = 0 then ascii "ssl" else if r.ssl = 1 then ascii "no-ssl" else ascii "*"
  let pathBegStr := if r.pathBeg.isEmpty then ascii "*" else r.pathBeg
  domainStr ++ ascii "," ++ protoStr ++ ascii "," ++ sslStr ++ ascii "," ++ pathBegStr

end Rule

def bestMatch (rules : List Rule) (proto : Protocol) (ssl : Bool) (path : Bytes) : Option Rule :=
  Selection.select (fun r => r.isMatch proto ssl path)
    (fun r best => r.isMoreSpecificMatch best proto ssl path) none rules

structure DomainMap where
  allRules : List Rule := []
  rulesByDomain : Bytes → Option (List Rule) := fun _ => none
  rulesById : Bytes → Option Rule := fun _ => none

namespace DomainMap
variable (d : DomainMap)

def rulesFor (domain : Bytes) : Option (List Rule) :=
  (d.rulesByDomain domain).or (d.rulesByDomain [])

/-- A failed assertion is `none`, and a null entry is `some none`. -/
def entry (proto : Protocol) (ssl : Bool) (domain path : Bytes) : Option (Option Rule) :=
  match d.rulesFor domain with
  | none => some none
  | some rules =>
    match bestMatch rules proto ssl path with
    | none => some none
    | some best => if best.targets.isEmpty then none else some (some best)

end DomainMap
end PushpinDomainMap
