import Mathlib.Data.List.Pairwise
import Mathlib.Data.Prod.Lex
import Pushpin.Proxy.DomainMap

namespace PushpinDomainMap
open PushpinVariant (Bytes)
open PushpinHttpHeaders (ascii)
open Selection

namespace Rule

def rank (r : Rule) : ℕ ×ₗ ℕ ×ₗ ℕ :=
  toLex (if r.proto = -1 then 0 else 1, toLex (r.pathBeg.length, if r.ssl = -1 then 0 else 1))

variable {r s b : Rule} {proto : Protocol} {ssl : Bool} {path : Bytes}

theorem isMatch_of_better (better : r.isMoreSpecificMatch b proto ssl path = true) :
    r.isMatch proto ssl path = true := by
  by_contra noMatch
  rw [Bool.not_eq_true] at noMatch
  rw [isMoreSpecificMatch, noMatch] at better
  cases better

theorem rank_lt_iff : b.rank < r.rank ↔
    (b.proto = -1 ∧ r.proto ≠ -1) ∨
    ((b.proto = -1 ↔ r.proto = -1) ∧
      (b.pathBeg.length < r.pathBeg.length ∨
      (b.pathBeg.length = r.pathBeg.length ∧ b.ssl = -1 ∧ r.ssl ≠ -1))) := by
  rw [rank, rank, Prod.Lex.toLex_lt_toLex, Prod.Lex.toLex_lt_toLex]
  by_cases one : b.proto = -1 <;> by_cases two : r.proto = -1 <;> by_cases three : b.ssl = -1 <;>
    by_cases four : r.ssl = -1 <;> simp [one, two, three, four]

theorem rank_eq_iff : b.rank = r.rank ↔
    (b.proto = -1 ↔ r.proto = -1) ∧ b.pathBeg.length = r.pathBeg.length ∧
    (b.ssl = -1 ↔ r.ssl = -1) := by
  rw [rank, rank, toLex_inj, Prod.mk.injEq, toLex_inj, Prod.mk.injEq]
  by_cases one : b.proto = -1 <;> by_cases two : r.proto = -1 <;> by_cases three : b.ssl = -1 <;>
    by_cases four : r.ssl = -1 <;> simp [one, two, three, four]

theorem isMatch_iff : r.isMatch proto ssl path = true ↔
    (r.proto = -1 ∨ r.proto = if proto = .http then 0 else 1) ∧
      (r.ssl = -1 ∨ r.ssl = if ssl then 1 else 0) ∧ r.pathBeg <+: path := by
  have prefix_ : (r.pathBeg.isEmpty || r.pathBeg.isPrefixOf path) = true ↔ r.pathBeg <+: path := by
    rw [Bool.or_eq_true, List.isPrefixOf_iff_prefix, List.isEmpty_iff]
    exact or_iff_right_of_imp fun empty => empty ▸ List.nil_prefix
  rw [isMatch, Bool.and_eq_true, Bool.and_eq_true, prefix_, and_assoc]
  cases proto <;> cases ssl <;> simp [matchProto, matchSsl]

theorem compare_of_rank (one : r.isMatch proto ssl path = true)
    (two : s.isMatch proto ssl path = true) (same : r.rank = s.rank) : r.compare s = true := by
  obtain ⟨protos, lengths, ssls⟩ := rank_eq_iff.mp same
  obtain ⟨proto₁, ssl₁, path₁⟩ := isMatch_iff.mp one
  obtain ⟨proto₂, ssl₂, path₂⟩ := isMatch_iff.mp two
  have paths : r.pathBeg = s.pathBeg :=
    (List.prefix_of_prefix_length_le path₁ path₂ (le_of_eq lengths)).eq_of_length lengths
  simp only [compare, Bool.and_eq_true, decide_eq_true_eq]
  refine ⟨⟨?_, ?_⟩, paths⟩
  · rcases proto₁ with unspecified | specified
    · rw [unspecified, protos.mp unspecified]
    · rcases proto₂ with unspecified | specified'
      · rw [unspecified, protos.mpr unspecified]
      · rw [specified, specified']
  · rcases ssl₁ with unspecified | specified
    · rw [unspecified, ssls.mp unspecified]
    · rcases ssl₂ with unspecified | specified'
      · rw [unspecified, ssls.mpr unspecified]
      · rw [specified, specified']

def Deposes (r b : Rule) : Prop := (b.proto = -1 ↔ r.proto = -1) ∧ b.ssl = -1 ∧ r.ssl ≠ -1

instance (r b : Rule) : Decidable (r.Deposes b) := inferInstanceAs (Decidable (_ ∧ _))

theorem better_iff (matches_ : r.isMatch proto ssl path = true) :
    r.isMoreSpecificMatch b proto ssl path = true ↔ b.rank < r.rank ∨ r.Deposes b := by
  rw [rank_lt_iff, Deposes, isMoreSpecificMatch, matches_]
  by_cases one : b.proto = -1 <;> by_cases two : r.proto = -1 <;> by_cases three : b.ssl = -1 <;>
    by_cases four : r.ssl = -1 <;> simp [one, two, three, four]

end Rule

def IsBest (rules : List Rule) (proto : Protocol) (ssl : Bool) (path : Bytes) (b : Rule) : Prop :=
  b ∈ rules ∧ b.isMatch proto ssl path = true ∧
    ∀ r ∈ rules, r ≠ b → r.isMatch proto ssl path = true → r.rank < b.rank

section
variable {rules : List Rule} {proto : Protocol} {ssl : Bool} {path : Bytes}

theorem apart_of_mem (distinct : rules.Pairwise fun r s => r.compare s = false) {r s : Rule}
    (one : r ∈ rules) (two : s ∈ rules) (other : r ≠ s) : r.compare s = false := by
  have symmetric : Std.Symm fun r s : Rule => r.compare s = false := ⟨fun r s apart => by
    rw [← apart]
    simp [Rule.compare, eq_comm]⟩
  exact distinct.forall one two other

theorem isBest_of_match (distinct : rules.Pairwise fun r s => r.compare s = false) {r : Rule}
    (member : r ∈ rules) (fits : r.isMatch proto ssl path = true) :
    ∃ b, IsBest rules proto ssl path b := by
  have candidate : r ∈ rules.filter fun r => r.isMatch proto ssl path :=
    List.mem_filter.mpr ⟨member, fits⟩
  cases greatest : (rules.filter fun r => r.isMatch proto ssl path).argmax Rule.rank with
  | none =>
    rw [List.argmax_eq_none] at greatest
    rw [greatest] at candidate
    cases candidate
  | some b =>
    obtain ⟨inside, matches_⟩ := List.mem_filter.mp (List.argmax_mem greatest)
    refine ⟨b, inside, matches_, fun s member' other fits' => ?_⟩
    have above : s.rank ≤ b.rank :=
      List.le_of_mem_argmax (List.mem_filter.mpr ⟨member', fits'⟩) greatest
    refine lt_of_le_of_ne above fun same => ?_
    have apart := apart_of_mem distinct member' inside other
    rw [Rule.compare_of_rank fits' matches_ same] at apart
    cases apart

theorem IsBest.unique {b c : Rule} (one : IsBest rules proto ssl path b)
    (two : IsBest rules proto ssl path c) : b = c := by
  by_contra other
  have below := one.2.2 c two.1 (Ne.symm other) two.2.1
  exact absurd (two.2.2 b one.1 other one.2.1) (lt_asymm below)

theorem nodup_of_distinct (distinct : rules.Pairwise fun r s => r.compare s = false) :
    rules.Nodup := by
  refine distinct.imp fun apart same => ?_
  rw [same, Rule.compare] at apart
  simp at apart

theorem bestMatch_some {b : Rule} (chosen : bestMatch rules proto ssl path = some b) :
    b ∈ rules ∧ b.isMatch proto ssl path = true := by
  rcases select_some (fun r b => Rule.isMatch_of_better (r := r) (b := b)) chosen with
    absent | found
  · cases absent
  · exact found

/-- The best rule is taken in every order of the list, exactly if no matching rule
    deposes it. -/
theorem bestMatch_all_orders_iff (distinct : rules.Pairwise fun r s => r.compare s = false)
    {b : Rule} (isBest : IsBest rules proto ssl path b) :
    (∀ order, order.Perm rules → bestMatch order proto ssl path = some b) ↔
      ∀ r ∈ rules, r.isMatch proto ssl path = true → ¬ r.Deposes b := by
  refine (select_all_orders_iff (fun r b => Rule.isMatch_of_better (r := r) (b := b))
    (nodup_of_distinct distinct) isBest.1 isBest.2.1 ?_).trans ?_
  · intro r member other fits
    exact (Rule.better_iff isBest.2.1).mpr (Or.inl (isBest.2.2 r member other fits))
  · refine forall_congr' fun r => imp_congr_right fun member => ?_
    constructor
    · intro unbeaten fits deposes
      have other : r ≠ b := by
        rintro rfl
        exact deposes.2.2 deposes.2.1
      have beaten := (Rule.better_iff fits).mpr (Or.inr deposes)
      rw [unbeaten other] at beaten
      cases beaten
    · intro undeposed other
      by_contra beats
      rw [Bool.not_eq_false] at beats
      have fits := Rule.isMatch_of_better beats
      rcases (Rule.better_iff fits).mp beats with above | deposes
      · exact lt_asymm above (isBest.2.2 r member other fits)
      · exact undeposed fits deposes

structure SelectsBest (rules : List Rule) (proto : Protocol) (ssl : Bool) (path : Bytes) :
    Prop where
  best : ∀ (d : DomainMap) domain order, d.rulesFor domain = some order → order.Perm rules →
    ∀ b, d.entry proto ssl domain path = some (some b) ↔ IsBest rules proto ssl path b
  none_ : ∀ (d : DomainMap) domain order, d.rulesFor domain = some order → order.Perm rules →
    (d.entry proto ssl domain path = some none ↔ ∀ r ∈ rules, r.isMatch proto ssl path = false)

theorem entry_eq {d : DomainMap} {domain : Bytes} (found : d.rulesFor domain = some rules)
    (targets : ∀ r ∈ rules, r.targets ≠ []) :
    d.entry proto ssl domain path = some (bestMatch rules proto ssl path) := by
  rw [DomainMap.entry, found]
  dsimp only
  cases chosen : bestMatch rules proto ssl path with
  | none => rfl
  | some b =>
    dsimp only
    rw [if_neg (by simpa using targets b (bestMatch_some chosen).1)]

/-- The best rule is taken in every order, exactly if no matching rule of its kind has ssl
    where it has not. -/
theorem selectsBest_iff (distinct : rules.Pairwise fun r s => r.compare s = false)
    (targets : ∀ r ∈ rules, r.targets ≠ []) :
    SelectsBest rules proto ssl path ↔
      ∀ b, IsBest rules proto ssl path b → ∀ r ∈ rules, r.isMatch proto ssl path = true →
        ¬ r.Deposes b := by
  have entries : ∀ (d : DomainMap) domain order, d.rulesFor domain = some order → order.Perm rules →
      d.entry proto ssl domain path = some (bestMatch order proto ssl path) :=
        fun d domain order found perm =>
    entry_eq found fun r member => targets r (perm.mem_iff.mp member)
  constructor
  · intro selects b isBest
    refine (bestMatch_all_orders_iff distinct isBest).mp fun order perm => ?_
    have chosen :=
      (selects.best { rulesByDomain := fun _ => some order } [] order rfl perm b).mpr isBest
    rw [entries _ _ order rfl perm] at chosen
    exact Option.some.inj chosen
  · intro undeposed
    refine ⟨fun d domain order found perm b => ?_, fun d domain order found perm => ?_⟩
    · rw [entries d domain order found perm, Option.some_inj]
      constructor
      · intro chosen
        obtain ⟨member, fits⟩ := bestMatch_some chosen
        obtain ⟨c, isBest⟩ := isBest_of_match distinct (perm.mem_iff.mp member) fits
        have same := (bestMatch_all_orders_iff distinct isBest).mpr (undeposed c isBest) order perm
        rw [chosen] at same
        cases same
        exact isBest
      · intro isBest
        exact (bestMatch_all_orders_iff distinct isBest).mpr (undeposed b isBest) order perm
    · rw [entries d domain order found perm, Option.some_inj, bestMatch, select_none_iff]
      exact forall_congr' fun r => imp_congr_left perm.mem_iff

end

theorem selectsBest_example :
    SelectsBest [{ pathBeg := ascii "/a", ssl := 1, targets := [.test] }, { targets := [.test] }]
      .http true (ascii "/a/b") := by
  rw [selectsBest_iff (by decide) (by decide)]
  rintro b ⟨member, -, above⟩ r inside - ⟨-, none_, some_⟩
  have greater := above { pathBeg := ascii "/a", ssl := 1, targets := [.test] } (by decide)
  rcases List.mem_pair.mp member with rfl | rfl
  · exact absurd none_ (by decide)
  · have less := greater (by decide) (by decide)
    rw [Rule.rank_lt_iff] at less
    exact absurd less (by decide)

/-- The shorter path with ssl is taken if it comes later. -/
theorem shorter_path_deposes :
    ¬ SelectsBest [{ ssl := 1, targets := [.test] }, { pathBeg := ascii "/a", targets := [.test] }]
      .http true (ascii "/a/b") := by
  intro selects
  have isBest :=
    (selects.best { rulesByDomain := fun _ => some [{ pathBeg := ascii "/a", targets := [.test] },
      { ssl := 1, targets := [.test] }] } [] _ rfl (by decide) { ssl := 1, targets := [.test] }).mp
        (by decide)
  have above :=
    isBest.2.2 { pathBeg := ascii "/a", targets := [.test] } (by decide) (by decide) (by decide)
  rw [Rule.rank_lt_iff] at above
  exact absurd above (by decide)

end PushpinDomainMap
