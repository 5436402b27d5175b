import Mathlib.Data.Prod.Lex
import Pushpin.Foundations.OrderedMap

/-!
`PublishLastIds`: the last id of each channel, with the least recently set one
given up when the table is full. The strings of the source are the values of a
linear order. `none` is a failed assertion.
-/
namespace PushpinHandler
open OrderedMaps
open OrderedMap (get?_erase get?_insert)

structure LastId (σ : Type) where
  channel : σ
  id : σ
  time : Int

structure PublishLastIds (σ : Type) [LinearOrder σ] where
  table : OrderedMap σ (LastId σ)
  recentlyUsed : OrderedMap (Int ×ₗ σ) (LastId σ)
  maxCapacity : Int

namespace PublishLastIds
variable {σ : Type} [LinearOrder σ]

def new (maxCapacity : Int) : PublishLastIds σ := ⟨.empty, .empty, maxCapacity⟩

def evict : Nat → PublishLastIds σ → Option (PublishLastIds σ)
  | 0, p => some p
  | rounds + 1, p =>
    if p.table.isEmpty || decide (p.table.count < p.maxCapacity) then some p
    else
      match p.recentlyUsed.firstPair? with
      | none => none
      | some (key, i) =>
        evict rounds
          { p with table := p.table.erase i.channel, recentlyUsed := p.recentlyUsed.erase key }

def set (now : Int) (channel id : σ) (p : PublishLastIds σ) : Option (PublishLastIds σ) :=
  match p.table.get? channel with
  | some i =>
    let new := { i with id := id, time := now }
    some { p with
      table := p.table.insert channel new
      recentlyUsed :=
        (p.recentlyUsed.erase (toLex (i.time, channel))).insert (toLex (now, channel)) new }
  | none => do
    let p ← evict p.table.count p
    let new : LastId σ := ⟨channel, id, now⟩
    return { p with
      table := p.table.insert channel new
      recentlyUsed := p.recentlyUsed.insert (toLex (now, channel)) new }

def remove (channel : σ) (p : PublishLastIds σ) : PublishLastIds σ :=
  match p.table.get? channel with
  | some i =>
    { p with
      table := p.table.erase channel
      recentlyUsed := p.recentlyUsed.erase (toLex (i.time, channel)) }
  | none => p

def clear (p : PublishLastIds σ) : PublishLastIds σ :=
  { p with table := .empty, recentlyUsed := .empty }

def value (channel : σ) (p : PublishLastIds σ) : Option σ := (p.table.get? channel).map LastId.id

structure Valid (p : PublishLastIds σ) : Prop where
  used : ∀ channel i, p.table.get? channel = some i →
    i.channel = channel ∧ p.recentlyUsed.get? (toLex (i.time, channel)) = some i
  listed : ∀ key i, p.recentlyUsed.get? key = some i →
    key = toLex (i.time, i.channel) ∧ p.table.get? i.channel = some i

theorem new_valid (maxCapacity : Int) : (new maxCapacity : PublishLastIds σ).Valid := by
  constructor
  · intro channel i found
    cases found
  · intro key i found
    cases found

theorem clear_valid (p : PublishLastIds σ) : p.clear.Valid := by
  constructor
  · intro channel i found
    cases found
  · intro key i found
    cases found

theorem Valid.drop {p : PublishLastIds σ} (valid : p.Valid) {channel : σ} {i : LastId σ}
    (found : p.table.get? channel = some i) :
    ({ p with
      table := p.table.erase channel
      recentlyUsed := p.recentlyUsed.erase (toLex (i.time, channel)) } :
      PublishLastIds σ).Valid := by
  constructor
  · intro other j at_other
    rw [get?_erase] at at_other
    split_ifs at at_other with own
    obtain ⟨name, used⟩ := valid.used other j at_other
    refine ⟨name, ?_⟩
    rw [get?_erase, if_neg, used]
    intro same
    exact own (Prod.ext_iff.mp (toLex.injective same)).2
  · intro key j at_key
    rw [get?_erase] at at_key
    split_ifs at at_key with own
    obtain ⟨name, listed⟩ := valid.listed key j at_key
    refine ⟨name, ?_⟩
    rw [get?_erase, if_neg, listed]
    intro same
    rw [same, found] at listed
    cases listed
    exact own (name.trans (by rw [same]))

theorem Valid.add {p : PublishLastIds σ} (valid : p.Valid) {channel : σ}
    (fresh : p.table.get? channel = none) (id : σ) (now : Int) :
    ({ p with
      table := p.table.insert channel ⟨channel, id, now⟩
      recentlyUsed := p.recentlyUsed.insert (toLex (now, channel)) ⟨channel, id, now⟩ } :
        PublishLastIds σ).Valid := by
  constructor
  · intro other j at_other
    rw [get?_insert] at at_other
    split_ifs at at_other with own
    · cases at_other
      refine ⟨own.symm, ?_⟩
      rw [own, get?_insert, if_pos rfl]
    · obtain ⟨name, used⟩ := valid.used other j at_other
      refine ⟨name, ?_⟩
      rw [get?_insert, if_neg, used]
      intro same
      exact own (Prod.ext_iff.mp (toLex.injective same)).2
  · intro key j at_key
    rw [get?_insert] at at_key
    split_ifs at at_key with own
    · cases at_key
      exact ⟨own, by rw [get?_insert, if_pos rfl]⟩
    · obtain ⟨name, listed⟩ := valid.listed key j at_key
      refine ⟨name, ?_⟩
      rw [get?_insert, if_neg, listed]
      intro same
      rw [same, fresh] at listed
      cases listed

theorem evict_spec (rounds : Nat) {p : PublishLastIds σ} (valid : p.Valid) :
    ∃ p', evict rounds p = some p' ∧ p'.Valid ∧ ∀ channel, p.table.get? channel = none →
      p'.table.get? channel = none := by
  induction rounds generalizing p with
  | zero => exact ⟨p, rfl, valid, fun _ none => none⟩
  | succ rounds ih =>
    unfold evict
    split_ifs with room
    · exact ⟨p, rfl, valid, fun _ none => none⟩
    · -- a table that is not empty has an item, and the item is in the other table
      have filled : ¬ p.table.isEmpty = true := fun empty => room (by rw [empty, Bool.true_or])
      cases first : p.recentlyUsed.firstPair? with
      | none =>
        refine absurd (OrderedMap.isEmpty_iff.mpr ?_) filled
        intro channel
        cases found : p.table.get? channel with
        | none => rfl
        | some i =>
          have used := (valid.used channel i found).2
          rw [OrderedMap.firstPair?_eq_none first] at used
          cases used
      | some oldest =>
        obtain ⟨key, i⟩ := oldest
        obtain ⟨name, listed⟩ := valid.listed key i (OrderedMap.firstPair?_present first)
        subst name
        obtain ⟨p', ran, valid', kept⟩ := ih (valid.drop listed)
        refine ⟨p', ran, valid', ?_⟩
        intro channel none
        apply kept
        rw [get?_erase, none, ite_self]

theorem set_spec {p : PublishLastIds σ} (valid : p.Valid) (now : Int) (channel id : σ) :
    ∃ p', p.set now channel id = some p' ∧ p'.Valid ∧ p'.value channel = some id := by
  unfold set
  cases found : p.table.get? channel with
  | some i =>
    have name := (valid.used channel i found).1
    have gone : (p.table.erase channel).get? channel = none := by
      rw [get?_erase, if_pos rfl]
    have valid' := (valid.drop found).add gone id now
    refine ⟨_, rfl, ?_, ?_⟩
    · subst name
      constructor
      · intro other j at_other
        refine valid'.used other j ?_
        rw [get?_insert] at at_other ⊢
        rw [get?_erase]
        split_ifs at at_other ⊢ with own
        · exact at_other
        · exact at_other
      · intro key j at_key
        obtain ⟨same, listed⟩ := valid'.listed key j at_key
        refine ⟨same, ?_⟩
        rw [get?_insert, get?_erase] at listed
        rw [get?_insert]
        split_ifs at listed ⊢ with own
        · exact listed
        · exact listed
    · rw [value, get?_insert, if_pos rfl]
      rfl
  | none =>
    obtain ⟨p', ran, valid', kept⟩ := evict_spec p.table.count valid
    simp only [ran, Option.bind_eq_bind, Option.bind_some]
    refine ⟨_, rfl, valid'.add (kept channel found) id now, ?_⟩
    rw [value, get?_insert, if_pos rfl]
    rfl

theorem remove_spec {p : PublishLastIds σ} (valid : p.Valid) (channel : σ) :
    (p.remove channel).Valid ∧ (p.remove channel).value channel = none := by
  unfold remove
  cases found : p.table.get? channel with
  | none => exact ⟨valid, by rw [value, found, Option.map_none]⟩
  | some i =>
    refine ⟨valid.drop found, ?_⟩
    rw [value, get?_erase, if_pos rfl, Option.map_none]

end PublishLastIds
end PushpinHandler
