import Pushpin.Foundations.Joining
import Pushpin.Foundations.Runs
import Pushpin.Proxy.RouteLines

namespace PushpinDomainMap
open PushpinVariant (Bytes)
open PushpinHttpHeaders (ascii)
open PushpinRoutesFile (comma parseLine)

def ofDomain (rules : List Rule) (domain : Bytes) : List Rule :=
  rules.filter fun r => r.domain = some domain

def ofId (rules : List Rule) (id : Bytes) : List Rule := rules.filter fun r => r.id = id

structure Rule.Made (r : Rule) : Prop where
  id : r.id ≠ []
  domain : r.domain ≠ some (ascii "*")
  proto : r.proto = -1 ∨ r.proto = 0 ∨ r.proto = 1
  ssl : r.ssl = -1 ∨ r.ssl = 1 ∨ r.ssl = 0

namespace Rule

theorem compare_comm (r s : Rule) : r.compare s = s.compare r := by
  simp only [compare, eq_comm]

theorem compare_self (r : Rule) : r.compare r = true := by simp [compare]

end Rule

/-- A line gives an id if its prop is not empty; an empty one is as good as none. -/
def givesId (line : Bytes) : Bool :=
  match parseLine line with
  | some (.ok (condition :: _)) => !(value condition.props (ascii "id")).isEmpty
  | _ => false

section
variable {readFile : Bytes → Option Bytes}

end

structure Indexed (d : DomainMap) : Prop where
  made : ∀ r ∈ d.allRules, r.Made
  byDomain : ∀ domain, (d.rulesByDomain domain).getD [] = ofDomain d.allRules domain
  distinct : ∀ domain, (ofDomain d.allRules domain).Pairwise fun r s => r.compare s = false
  byId : ∀ id, d.rulesById id =
    match ofId d.allRules id with
    | [] => none
    | [r] => some r
    | _ => some {}

namespace Rule

def domainText (r : Rule) : Bytes :=
  if (r.domain.getD []).isEmpty then ascii "*" else r.domain.getD []

def protoText (r : Rule) : Bytes :=
  if r.proto = 0 then ascii "http" else if r.proto = 1 then ascii "ws" else ascii "*"

def sslText (r : Rule) : Bytes :=
  if r.ssl = 0 then ascii "ssl" else if r.ssl = 1 then ascii "no-ssl" else ascii "*"

def pathText (r : Rule) : Bytes := if r.pathBeg.isEmpty then ascii "*" else r.pathBeg

theorem idFromCondition_eq (r : Rule) :
    r.idFromCondition = r.domainText ++ comma ::
      (r.protoText ++ comma :: (r.sslText ++ comma :: r.pathText)) := by
  have isComma : ascii "," = [comma] := rfl
  simp only [idFromCondition, isComma, List.append_assoc, List.singleton_append]
  rfl

theorem protoText_plain (r : Rule) : comma ∉ r.protoText := by
  rw [protoText]
  split_ifs <;> decide

theorem sslText_plain (r : Rule) : comma ∉ r.sslText := by
  rw [sslText]
  split_ifs <;> decide

/-- The domain of one goes on after the other domain and a comma, and the path of the
    other ends with a comma and its path. -/
def continues (r s : Rule) : Bool :=
  (r.domainText ++ [comma]).isPrefixOf s.domainText && (comma :: s.pathText).isSuffixOf r.pathText

/-- The conditions differ only in the path, which is not given in one and a star in the
    other, or they look alike because of commas. -/
def confusable (r s : Rule) : Bool :=
  (r.domain = s.domain && r.proto = s.proto && r.ssl = s.ssl &&
    ((r.pathBeg = [] && s.pathBeg = ascii "*") || (s.pathBeg = [] && r.pathBeg = ascii "*"))) ||
  r.continues s || s.continues r

theorem continues_of_later {r s : Rule} {m : Bytes}
    (domain : s.domainText = r.domainText ++ comma :: m)
    (rest : r.protoText ++ comma :: (r.sslText ++ comma :: r.pathText) =
      m ++ comma :: (s.protoText ++ comma :: (s.sslText ++ comma :: s.pathText))) :
        r.continues s = true := by
  have front : (r.domainText ++ [comma]) <+: s.domainText :=
    ⟨m, by rw [domain, List.append_assoc, List.singleton_append]⟩
  -- the path of `r` ends with what comes after its own part before ssl
  have back : (comma :: s.pathText) <:+ r.pathText := by
    rcases Joining.append_sep_first comma r.protoText_plain rest with ⟨-, afterProto⟩ | ⟨m, -,
      afterProto⟩
    · rcases Joining.append_sep_first comma r.sslText_plain afterProto with ⟨-, afterSsl⟩ | ⟨m,
        inside, -⟩
      · exact ⟨s.sslText, afterSsl.symm⟩
      · exact absurd (by rw [inside]; simp) s.protoText_plain
    · rcases Joining.append_sep_first comma r.sslText_plain afterProto with ⟨-, afterSsl⟩ | ⟨m, -,
        afterSsl⟩
      · exact ⟨s.protoText ++ comma :: s.sslText, by rw [afterSsl]; simp⟩
      · exact ⟨m ++ comma :: (s.protoText ++ comma :: s.sslText), by rw [afterSsl]; simp⟩
  rw [continues, Bool.and_eq_true]
  exact ⟨List.isPrefixOf_iff_prefix.mpr front, List.isSuffixOf_iff_suffix.mpr back⟩

section
variable {r s : Rule} (one : r.Made) (two : s.Made)
include one two

theorem domain_of_text (domain₁ : r.domain ≠ none)
    (domain₂ : s.domain ≠ none) (same : r.domainText = s.domainText) : r.domain = s.domain := by
  obtain ⟨a, isA⟩ := Option.ne_none_iff_exists'.mp domain₁
  obtain ⟨b, isB⟩ := Option.ne_none_iff_exists'.mp domain₂
  have starA := one.domain
  have starB := two.domain
  rw [isA] at starA
  rw [isB] at starB
  rw [domainText, domainText, isA, isB, Option.getD_some, Option.getD_some] at same
  rw [isA, isB]
  split_ifs at same with emptyA emptyB emptyB
  · rw [List.isEmpty_iff.mp emptyA, List.isEmpty_iff.mp emptyB]
  · exact absurd (congrArg some same.symm) starB
  · exact absurd (congrArg some same) starA
  · rw [same]

theorem proto_of_text (same : r.protoText = s.protoText) : r.proto = s.proto := by
  rw [protoText, protoText] at same
  rcases one.proto with isR | isR | isR <;> rcases two.proto with isS | isS | isS <;> rw [isR,
    isS] at same ⊢ <;>
    exact absurd same (by decide)

theorem ssl_of_text (same : r.sslText = s.sslText) : r.ssl = s.ssl := by
  rw [sslText, sslText] at same
  rcases one.ssl with isR | isR | isR <;> rcases two.ssl with isS | isS | isS <;> rw [isR,
    isS] at same ⊢ <;>
    exact absurd same (by decide)

theorem same_of_id (domain₁ : r.domain ≠ none)
    (domain₂ : s.domain ≠ none) (same : r.idFromCondition = s.idFromCondition)
    (apart : r.confusable s = false) :
    r.domain = s.domain ∧ r.compare s = true := by
  rw [confusable, Bool.or_eq_false_iff, Bool.or_eq_false_iff] at apart
  obtain ⟨⟨noStar, noRS⟩, noSR⟩ := apart
  rw [idFromCondition_eq, idFromCondition_eq] at same
  rcases Joining.append_sep_cases comma same with ⟨domainSame, rest⟩ | ⟨m, later, rest⟩ | ⟨m,
    later, rest⟩
  · obtain ⟨protoSame, rest⟩ | ⟨m, inside, -⟩ :=
      Joining.append_sep_first comma r.protoText_plain rest
    · obtain ⟨sslSame, pathSame⟩ | ⟨m, inside, -⟩ :=
        Joining.append_sep_first comma r.sslText_plain rest
      · have domains := domain_of_text one two domain₁ domain₂ domainSame
        have protos := proto_of_text one two protoSame
        have ssls := ssl_of_text one two sslSame
        have paths : r.pathBeg = s.pathBeg := by
          rw [pathText, pathText] at pathSame
          split_ifs at pathSame with emptyR emptyS emptyS
          · rw [List.isEmpty_iff.mp emptyR, List.isEmpty_iff.mp emptyS]
          · simp [domains, protos, ssls, List.isEmpty_iff.mp emptyR, ← pathSame] at noStar
          · simp [domains, protos, ssls, List.isEmpty_iff.mp emptyS, pathSame] at noStar
          · exact pathSame
        exact ⟨domains, by simp [compare, protos, ssls, paths]⟩
      · exact absurd (by rw [inside]; simp) s.sslText_plain
    · exact absurd (by rw [inside]; simp) s.protoText_plain
  · rw [continues_of_later later rest] at noRS
    cases noRS
  · rw [continues_of_later later rest] at noSR
    cases noSR

end

end Rule

structure Accepted where
  rule : Rule
  named : Bool
deriving DecidableEq

structure Loaded where
  map : DomainMap := {}
  accepted : List Accepted := []

structure Told (d : DomainMap) (accepted : List Accepted) : Prop where
  rules : accepted.map Accepted.rule = d.allRules
  derived : ∀ a ∈ accepted, a.named = false → a.rule.id = a.rule.idFromCondition
  given : ∀ a ∈ accepted, a.rule.domain ≠ none ∨ a.named = true
  ids : ∀ a ∈ accepted, ∀ b ∈ accepted, a.named = false → b.named = false → a.rule.id = b.rule.id →
    a.rule.domain = b.rule.domain ∧ a.rule.compare b.rule = true

section
variable (readFile : Bytes → Option Bytes)

/-- An accepted line has a domain or an id, and without an id its condition cannot be
    confused with that of an earlier rule without an id. -/
def fits (accepted : List Accepted) (line : Bytes) : Bool :=
  match parseRouteLine readFile line with
  | none => true
  | some r => (r.domain.isSome || givesId line) &&
    (givesId line || accepted.all fun a => a.named || !r.confusable a.rule)

inductive Event where
  | reload (lines : List Bytes)
  | addRouteLine (line : Bytes)
deriving DecidableEq, Repr

def accept (s : Loaded) (line : Bytes) : List Accepted :=
  match parseRouteLine readFile line with
  | none => s.accepted
  | some r => if (s.map.addRule r).1 = .ok then s.accepted ++ [⟨r, givesId line⟩] else s.accepted

def Loaded.addLine (s : Loaded) (line : Bytes) : Loaded :=
  ⟨s.map.addLine readFile line, accept readFile s line⟩

def step (s : Loaded) : Event → Option Loaded
  | .reload lines => some ⟨DomainMap.reload readFile lines,
    (lines.foldl (Loaded.addLine readFile) {}).accepted⟩
  | .addRouteLine line => some ⟨(s.map.addRouteLine readFile line).2, accept readFile s line⟩

variable {readFile}

theorem Told.snoc {d : DomainMap} {accepted : List Accepted} (told : Told d accepted) {a : Accepted}
    (made : a.rule.Made) (olds : ∀ b ∈ accepted, b.rule.Made) (derived : a.named = false →
    a.rule.id = a.rule.idFromCondition)
    (given : a.rule.domain ≠ none ∨ a.named = true)
    (apart : a.named = true ∨ ∀ b ∈ accepted, b.named = true ∨ a.rule.confusable b.rule = false)
    {d' : DomainMap} (rules : d'.allRules = d.allRules ++ [a.rule]) :
    Told d' (accepted ++ [a]) := by
  -- the new rule beside an old one
  have beside : ∀ b ∈ accepted, a.named = false → b.named = false → a.rule.id = b.rule.id →
      a.rule.domain = b.rule.domain ∧ a.rule.compare b.rule = true := by
    intro b member unnamed₁ unnamed₂ same
    have domain₁ : a.rule.domain ≠ none := given.resolve_right (by simp [unnamed₁])
    have domain₂ : b.rule.domain ≠ none := (told.given b member).resolve_right (by simp [unnamed₂])
    have notConfused : a.rule.confusable b.rule = false :=
      (apart.resolve_left (by simp [unnamed₁]) b member).resolve_left (by simp [unnamed₂])
    rw [derived unnamed₁, told.derived b member unnamed₂] at same
    exact Rule.same_of_id made (olds b member) domain₁ domain₂ same notConfused
  refine ⟨?_, ?_, ?_, ?_⟩
  · rw [List.map_append, told.rules, rules]
    rfl
  · intro b member
    rcases List.mem_append.mp member with old | new
    · exact told.derived b old
    · rwa [List.mem_singleton.mp new]
  · intro b member
    rcases List.mem_append.mp member with old | new
    · exact told.given b old
    · rwa [List.mem_singleton.mp new]
  · intro b memberB c memberC unnamed₁ unnamed₂ same
    rcases List.mem_append.mp memberB with oldB | newB
    · rcases List.mem_append.mp memberC with oldC | newC
      · exact told.ids b oldB c oldC unnamed₁ unnamed₂ same
      · rw [List.mem_singleton.mp newC] at unnamed₂ same ⊢
        obtain ⟨domains, conditions⟩ := beside b oldB unnamed₂ unnamed₁ same.symm
        exact ⟨domains.symm, by rw [Rule.compare_comm]; exact conditions⟩
    · rw [List.mem_singleton.mp newB] at unnamed₁ same ⊢
      rcases List.mem_append.mp memberC with oldC | newC
      · exact beside c oldC unnamed₁ unnamed₂ same
      · rw [List.mem_singleton.mp newC]
        exact ⟨rfl, Rule.compare_self a.rule⟩

end

end PushpinDomainMap
