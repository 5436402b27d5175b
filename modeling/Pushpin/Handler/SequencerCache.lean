import Pushpin.Handler.SequencerRuns

namespace PushpinHandler
open OrderedMaps

namespace Sequencer
variable {σ β : Type} [LinearOrder σ]

structure Cached (s : Sequencer σ β) : Prop where
  byId : ∀ key i, s.idCacheById.get? key = some i →
    key = toLex (i.channel, i.id) ∧ s.idCacheByExpireTime.get? (toLex (i.expireTime, i.addr)) =
      some i
  byExpireTime : ∀ key i, s.idCacheByExpireTime.get? key = some i →
    key = toLex (i.expireTime, i.addr)

theorem new_cached (lastIds : PublishLastIds σ) (wait ttl : Int) :
    (new lastIds wait ttl : Sequencer σ β).Cached := by
  constructor
  · intro key i found
    cases found
  · intro key i found
    cases found

structure SameCache (s s' : Sequencer σ β) : Prop where
  ttl : s'.idCacheTtl = s.idCacheTtl
  byId : s'.idCacheById = s.idCacheById
  byExpireTime : s'.idCacheByExpireTime = s.idCacheByExpireTime

namespace SameCache
variable {s s' s'' : Sequencer σ β}

theorem refl (s : Sequencer σ β) : SameCache s s := ⟨rfl, rfl, rfl⟩

theorem trans (first : SameCache s s') (second : SameCache s' s'') : SameCache s s'' := by
  constructor
  · exact second.ttl.trans first.ttl
  · exact second.byId.trans first.byId
  · exact second.byExpireTime.trans first.byExpireTime

theorem cached (same : SameCache s s') (cached : s.Cached) : s'.Cached := by
  constructor
  · rw [same.byId, same.byExpireTime]
    exact cached.byId
  · rw [same.byExpireTime]
    exact cached.byExpireTime

end SameCache

variable {now : Int} {s s' : Sequencer σ β}

theorem emit_sameCache {item : PublishItem σ β} {waited : Option Int}
    {e : Emission σ β} (ran : s.emit now item waited = some (s', e)) : SameCache s s' ∧
    e.item = item := by
  unfold emit at ran
  split at ran
  · obtain ⟨lastIds, _, eq⟩ := Option.map_eq_some_iff.mp ran
    cases eq
    exact ⟨⟨rfl, rfl, rfl⟩, rfl⟩
  · cases ran
    exact ⟨⟨rfl, rfl, rfl⟩, rfl⟩

theorem dropIfEmpty_sameCache (channel : σ) (s : Sequencer σ β) :
    SameCache s (s.dropIfEmpty channel) := by
  unfold dropIfEmpty
  split_ifs
  · exact ⟨rfl, rfl, rfl⟩
  · exact SameCache.refl s

theorem flush_sameCache {clock : Nat → Int} {channel : σ} {left : Nat} {id : Option σ}
    {es : List (Emission σ β)} (ran : flush clock channel left id s = some (s', es)) :
    SameCache s s' := by
  induction left generalizing id s es with
  | zero =>
    cases ran
    exact SameCache.refl _
  | succ left ih =>
    unfold flush at ran
    split at ran
    · cases ran
      exact SameCache.refl _
    · rename_i p _
      obtain ⟨⟨s₁, first⟩, emitted, ran⟩ := Option.bind_eq_some_iff.mp ran
      obtain ⟨⟨s₂, later⟩, flushed, eq⟩ := Option.bind_eq_some_iff.mp ran
      cases eq
      have unlisted : SameCache s (s.unlist p) := ⟨rfl, rfl, rfl⟩
      exact (unlisted.trans (emit_sameCache emitted).1).trans (ih flushed)

theorem sendItem_sameCache {clock : Nat → Int} {item : PublishItem σ β} {waited : Option Int}
    {es : List (Emission σ β)} (ran : s.sendItem clock item waited = some (s', es)) :
    SameCache s s' := by
  unfold sendItem at ran
  obtain ⟨⟨s₁, first⟩, emitted, ran⟩ := Option.bind_eq_some_iff.mp ran
  simp only at ran
  split at ran
  · cases ran
    exact (emit_sameCache emitted).1
  · obtain ⟨⟨s₂, later⟩, flushed, eq⟩ := Option.bind_eq_some_iff.mp ran
    cases eq
    exact ((emit_sameCache emitted).1.trans (flush_sameCache flushed)).trans
      (dropIfEmpty_sameCache _ _)

theorem expireLoop_sameCache {threshold : Int} {clock : Nat → Nat → Int} {left : Nat}
    {es : List (Emission σ β)} (ran : expireLoop now threshold clock left s = some (s', es)) :
    SameCache s s' := by
  induction left generalizing s es with
  | zero =>
    cases ran
    exact SameCache.refl _
  | succ left ih =>
    unfold expireLoop at ran
    split at ran
    · cases ran
      exact SameCache.refl _
    · rename_i p _
      split_ifs at ran
      · cases ran
        exact SameCache.refl _
      · obtain ⟨⟨s₁, emitted⟩, sent, ran⟩ := Option.bind_eq_some_iff.mp ran
        obtain ⟨⟨s₂, later⟩, looped, eq⟩ := Option.bind_eq_some_iff.mp ran
        cases eq
        have unlisted : SameCache s (s.unlist p) := ⟨rfl, rfl, rfl⟩
        have dropped := unlisted.trans (dropIfEmpty_sameCache p.item.channel (s.unlist p))
        exact (dropped.trans (sendItem_sameCache sent)).trans (ih looped)

theorem clear_sameCache (channel : σ) (s : Sequencer σ β) : SameCache s (s.clear channel).1 := by
  unfold clear
  split
  · exact SameCache.refl s
  · exact ⟨rfl, rfl, rfl⟩

theorem expireIds_spec (now : Int) (left : Nat) (cached : s.Cached)
    (enough : s.idCacheByExpireTime.count ≤ left) :
    (s.expireIds now left).Cached ∧ (s.expireIds now left).idCacheTtl = s.idCacheTtl ∧
      (∀ key i, (s.expireIds now left).idCacheById.get? key = some i →
        s.idCacheById.get? key = some i ∧ now < i.expireTime) ∧
      ∀ key i, (s.expireIds now left).idCacheByExpireTime.get? key = some i →
        s.idCacheByExpireTime.get? key = some i := by
  induction left generalizing s with
  | zero =>
    refine ⟨cached, rfl, ?_, fun key i found => found⟩
    intro key i found
    have counted := OrderedMap.count_erase (cached.byId key i found).2
    omega
  | succ left ih =>
    unfold expireIds
    cases first : s.idCacheByExpireTime.firstPair? with
    | none =>
      refine ⟨cached, rfl, ?_, fun key i found => found⟩
      intro key i found
      have listed := (cached.byId key i found).2
      rw [OrderedMap.firstPair?_eq_none first] at listed
      cases listed
    | some oldest =>
      obtain ⟨key₀, i₀⟩ := oldest
      have present := OrderedMap.firstPair?_present first
      have name := cached.byExpireTime key₀ i₀ present
      simp only
      split_ifs with young
      · refine ⟨cached, rfl, ?_, fun key i found => found⟩
        intro key i found
        refine ⟨found, ?_⟩
        have least := OrderedMap.firstPair?_least first (cached.byId key i found).2
        rw [name, Prod.Lex.toLex_le_toLex] at least
        rcases least with earlier | ⟨same, _⟩
        · exact lt_trans young earlier
        · exact lt_of_lt_of_eq young same
      · have kept : ({ s with
            idCacheById := s.idCacheById.erase (toLex (i₀.channel, i₀.id))
            idCacheByExpireTime := s.idCacheByExpireTime.erase key₀ } : Sequencer σ β).Cached := by
          constructor
          · intro key i found
            simp only [OrderedMap.get?_erase] at found ⊢
            split_ifs at found with gone
            obtain ⟨own, listed⟩ := cached.byId key i found
            refine ⟨own, ?_⟩
            rw [if_neg, listed]
            intro same
            rw [same, present] at listed
            cases listed
            exact gone own
          · intro key i found
            simp only [OrderedMap.get?_erase] at found
            split_ifs at found
            exact cached.byExpireTime key i found
        have fewer : (s.idCacheByExpireTime.erase key₀).count ≤ left := by
          have counted :
              s.idCacheByExpireTime.count = (s.idCacheByExpireTime.erase key₀).count + 1 :=
            OrderedMap.count_erase present
          omega
        obtain ⟨cached', ttl, young', before⟩ := ih kept fewer
        refine ⟨cached', ttl, ?_, ?_⟩
        · intro key i found
          obtain ⟨found', fresh⟩ := young' key i found
          simp only [OrderedMap.get?_erase] at found'
          split_ifs at found'
          exact ⟨found', fresh⟩
        · intro key i found
          have found' := before key i found
          simp only [OrderedMap.get?_erase] at found'
          split_ifs at found'
          exact found'

def admitItem (now : Int) (idAddr : Nat) (item : PublishItem σ β) (s : Sequencer σ β) :
    Bool × Sequencer σ β :=
  (s.expireIds now s.idCacheByExpireTime.count).seenId now idAddr item

theorem cacheMSecs_le {s : Sequencer σ β} (on : 0 < s.idCacheTtl) :
    s.cacheMSecs ≤ s.idCacheTtl * 1000 := by
  rw [cacheMSecs, Int.bmod_def]
  split <;> omega

theorem admitItem_spec {idAddr : Nat} (item : PublishItem σ β) (cached : s.Cached)
    (fresh : ∀ time, s.idCacheByExpireTime.get? (toLex (time, idAddr)) = none) :
    (s.admitItem now idAddr item).2.Cached ∧
    (s.admitItem now idAddr item).2.idCacheTtl = s.idCacheTtl ∧
      ∀ key i, (s.admitItem now idAddr item).2.idCacheById.get? key = some i →
        s.idCacheById.get? key = some i ∨
        (s.admitItem now idAddr item).1 = false ∧ i.channel = item.channel ∧ some i.id = item.id ∧
          i.expireTime ≤ now + s.idCacheTtl * 1000 := by
  obtain ⟨cached₁, ttl, young, before⟩ :=
    expireIds_spec now s.idCacheByExpireTime.count cached (Nat.le_refl _)
  simp only [admitItem]
  generalize s.expireIds now s.idCacheByExpireTime.count = s₁ at cached₁ ttl young before
  unfold seenId
  split
  · rename_i id named
    split_ifs with on seen
    · exact ⟨cached₁, ttl, fun key i found => Or.inl (young key i found).1⟩
    · have free : s₁.idCacheByExpireTime.get? (toLex (now + s₁.cacheMSecs, idAddr)) = none := by
        rw [Option.eq_none_iff_forall_ne_some]
        intro i found
        have old := before _ i found
        rw [fresh] at old
        cases old
      refine ⟨?_, ttl, ?_⟩
      · constructor
        · intro key i found
          simp only [OrderedMap.get?_insert] at found ⊢
          split_ifs at found with own
          · cases found
            exact ⟨own, by rw [if_pos rfl]⟩
          · obtain ⟨name, listed⟩ := cached₁.byId key i found
            refine ⟨name, ?_⟩
            rw [if_neg, listed]
            intro same
            rw [same, free] at listed
            cases listed
        · intro key i found
          simp only [OrderedMap.get?_insert] at found
          split_ifs at found with own
          · cases found
            exact own
          · exact cached₁.byExpireTime key i found
      · intro key i found
        simp only [OrderedMap.get?_insert] at found
        split_ifs at found with own
        · cases found
          exact Or.inr
            ⟨rfl, rfl, named.symm, by rw [← ttl]; exact Int.add_le_add_left (cacheMSecs_le on) now⟩
        · exact Or.inl (young key i found).1
    · exact ⟨cached₁, ttl, fun key i found => Or.inl (young key i found).1⟩
  · exact ⟨cached₁, ttl, fun key i found => Or.inl (young key i found).1⟩

end Sequencer

inductive Fate where
  | seen
  | rejected
  | accepted
  deriving DecidableEq

namespace Sequencer
variable {σ β : Type} [LinearOrder σ]

def fate (now : Int) (idAddr : Nat) (item : PublishItem σ β) (seq : Bool) (s : Sequencer σ β) :
    Fate :=
  match s.admitItem now idAddr item with
  | (true, _) => .seen
  | (false, s) =>
    match seq, s.verdict item with
    | true, .drop => .rejected
    | _, _ => .accepted

section
variable {now : Int} {idAddr : Nat} {item : PublishItem σ β}

theorem fate_seen {seq : Bool}
    {s : Sequencer σ β} :
    s.fate now idAddr item seq = .seen ↔ (s.admitItem now idAddr item).1 = true := by
  unfold fate
  split
  · rename_i admitted
    rw [admitted]
    exact iff_of_true rfl rfl
  · rename_i admitted
    rw [admitted]
    split
    · exact iff_of_false (fun h => by cases h) (fun h => by cases h)
    · exact iff_of_false (fun h => by cases h) (fun h => by cases h)

theorem fate_of_verdict {s s' : Sequencer σ β}
    {v : Verdict σ} (admitted : s.admitItem now idAddr item = (false, s'))
    (decided : s'.verdict item = v) :
    s.fate now idAddr item true = (v.casesOn .accepted (fun _ => .accepted) .rejected : Fate) := by
  unfold fate
  simp only [admitted, decided]
  cases v <;> rfl

end

theorem addItem_fate {s : Sequencer σ β} (sound : s.Sound none) {now : Int} {addr : Nat}
    (idAddr : Nat) (clock : Nat → Int) (item : PublishItem σ β) (seq : Bool)
    (fresh : s.pendingItemsByTime.get? (toLex (now, addr)) = none) :
    ∃ s' es, s.addItem now addr idAddr clock item seq =
        some (s', decide (s.fate now idAddr item seq = .accepted), es) ∧
      s'.Sound none ∧ SameCache (s.admitItem now idAddr item).2 s' ∧
      ((if s.fate now idAddr item seq = .accepted then [item] else []) ++ s.pending).Perm
        (es.map Emission.item ++ s'.pending) := by
  cases seq with
  | true =>
    obtain ⟨s', taken, es, ran, sound', delivers, _⟩ := addItem_spec sound idAddr clock item fresh 0
    have told : taken = decide (s.fate now idAddr item true = .accepted) ∧
        SameCache (s.admitItem now idAddr item).2 s' := by
      unfold addItem at ran
      rw [← admitItem] at ran
      split at ran
      · rename_i admitted
        cases ran
        rw [fate_seen.mpr (by rw [admitted]), admitted]
        exact ⟨rfl, SameCache.refl _⟩
      · rename_i admitted
        simp only [Bool.not_true, Bool.false_eq_true, if_false] at ran
        split at ran
        · rename_i drops
          cases ran
          rw [fate_of_verdict admitted drops, admitted]
          exact ⟨rfl, ⟨rfl, rfl, rfl⟩⟩
        · rename_i keeps
          cases ran
          rw [fate_of_verdict admitted keeps, admitted]
          exact ⟨rfl, ⟨rfl, rfl, rfl⟩⟩
        · rename_i sends
          rw [fate_of_verdict admitted sends, admitted]
          obtain ⟨⟨s₁, es₁⟩, sent, eq⟩ := Option.map_eq_some_iff.mp ran
          cases eq
          exact ⟨rfl, sendItem_sameCache sent⟩
    obtain ⟨rfl, same⟩ := told
    refine ⟨s', es, ran, sound', same, ?_⟩
    simpa only [decide_eq_true_eq] using delivers.moved
  | false =>
    obtain ⟨last₁, channel₁, time₁, timer₁, _⟩ := expireIds_same now s.idCacheByExpireTime.count s
    obtain ⟨last₂, channel₂, time₂, timer₂, _⟩ :=
      seenId_same now idAddr item (s.expireIds now s.idCacheByExpireTime.count)
    have sound₂ : (s.admitItem now idAddr item).2.Sound none := sound.of_same
      (by rw [admitItem, last₂, last₁]; exact sound.lastIds) (channel₂.trans channel₁)
        (time₂.trans time₁)
      (timer₂.trans timer₁)
    have pending₂ : (s.admitItem now idAddr item).2.pending = s.pending := by
      rw [pending, pending, admitItem, time₂, time₁]
    unfold addItem fate
    rw [← admitItem]
    cases admitted : s.admitItem now idAddr item with
    | mk seen s₂ =>
      rw [admitted] at sound₂ pending₂
      cases seen with
      | true =>
          exact ⟨s₂, [], rfl, sound₂, SameCache.refl _, by rw [pending₂]; exact List.Perm.refl _⟩
      | false =>
        exact ⟨s₂, [s₂.emission item none], rfl, sound₂,
          SameCache.refl _, by rw [pending₂]; exact List.Perm.refl _⟩

end Sequencer

structure Offer (σ β : Type) where
  now : Int
  item : PublishItem σ β
  fate : Fate

structure Offering (σ β : Type) [LinearOrder σ] where
  sequencer : Sequencer σ β
  offers : List (Offer σ β)
  cleared : List (PublishItem σ β)
  emitted : List (PublishItem σ β)

namespace Offering
variable {σ β : Type} [LinearOrder σ]

inductive Event (σ β : Type) where
  | addItem (now : Int) (addr idAddr : Nat) (clock : Nat → Int) (item : PublishItem σ β)
      (seq : Bool)
  | expireTimerTimeout (now : Int) (clock : Nat → Nat → Int)
  | clearPendingForChannel (channel : σ)
  | removeLastId (channel : σ)
  | clearLastIds

def start (lastIds : PublishLastIds σ) (wait ttl : Int) : Offering σ β :=
  ⟨.new lastIds wait ttl, [], [], []⟩

def step (d : Offering σ β) : Event σ β → Option (Offering σ β)
  | .addItem now addr idAddr clock item seq =>
    (d.sequencer.addItem now addr idAddr clock item seq).map fun (s, _, emitted) =>
      { d with
        sequencer := s
        offers := d.offers ++ [⟨now, item, d.sequencer.fate now idAddr item seq⟩]
        emitted := d.emitted ++ emitted.map Emission.item }
  | .expireTimerTimeout now clock =>
    (d.sequencer.expireTimerTimeout now clock).map fun (s, emitted) =>
      { d with sequencer := s, emitted := d.emitted ++ emitted.map Emission.item }
  | .clearPendingForChannel channel =>
    let (s, items) := d.sequencer.clear channel
    some { d with sequencer := s, cleared := d.cleared ++ items }
  | .removeLastId channel =>
    some { d with sequencer := { d.sequencer with lastIds := d.sequencer.lastIds.remove channel } }
  | .clearLastIds =>
      some { d with sequencer := { d.sequencer with lastIds := d.sequencer.lastIds.clear } }

def allowed (d : Offering σ β) : Event σ β → Bool
  | .addItem _ addr idAddr _ _ _ =>
    d.sequencer.pendingItemsByTime.entries.all (fun e => e.2.addr ≠ addr) &&
      d.sequencer.idCacheByExpireTime.entries.all (fun e => e.2.addr ≠ idAddr)
  | _ => true

def accepted (d : Offering σ β) : List (PublishItem σ β) :=
  (d.offers.filter fun o => o.fate = .accepted).map Offer.item

structure Good (ttl : Int) (d : Offering σ β) : Prop where
  sound : d.sequencer.Sound none
  cached : d.sequencer.Cached
  lifetime : d.sequencer.idCacheTtl = ttl
  accounted : d.accepted.Perm (d.emitted ++ (d.cleared ++ d.sequencer.pending))
  offered : ∀ key i, d.sequencer.idCacheById.get? key = some i → ∃ o ∈ d.offers, o.fate ≠ .seen ∧
    o.item.channel = i.channel ∧ o.item.id = some i.id ∧ i.expireTime ≤ o.now + ttl * 1000

theorem Good.kept {ttl : Int} {d : Offering σ β} (good : d.Good ttl) {s : Sequencer σ β}
    {cleared emitted : List (PublishItem σ β)} (sound : s.Sound none)
    (same : d.sequencer.SameCache s)
    (moved : d.sequencer.pending.Perm (emitted ++ (cleared ++ s.pending))) :
    Good ttl { d with
      sequencer := s, cleared := d.cleared ++ cleared, emitted := d.emitted ++ emitted } := by
  constructor
  · exact sound
  · exact same.cached good.cached
  · exact same.ttl.trans good.lifetime
  · classical
    have before := good.accounted
    rw [List.perm_iff_count] at before moved ⊢
    intro item
    have one := before item
    have two := moved item
    simp only [accepted, List.count_append] at one two ⊢
    omega
  · intro key i found
    rw [same.byId] at found
    exact good.offered key i found

theorem step_good {ttl : Int} {d : Offering σ β} {event : Event σ β} (good : d.Good ttl)
    (may : d.allowed event = true) : ∃ next, d.step event = some next ∧ next.Good ttl := by
  cases event with
  | addItem now addr idAddr clock item seq =>
    simp only [allowed, Bool.and_eq_true, List.all_eq_true, decide_eq_true_eq] at may
    have fresh : d.sequencer.pendingItemsByTime.get? (toLex (now, addr)) = none := by
      rw [Option.eq_none_iff_forall_ne_some]
      intro p found
      have key := (good.sound.timed _ _ found).1
      have other := may.1 _ (OrderedMap.mem_iff_get?.mpr found)
      exact other (Prod.ext_iff.mp (toLex.injective key)).2.symm
    have free : ∀ time, d.sequencer.idCacheByExpireTime.get? (toLex (time, idAddr)) = none := by
      intro time
      rw [Option.eq_none_iff_forall_ne_some]
      intro i found
      have key := good.cached.byExpireTime _ _ found
      have other := may.2 _ (OrderedMap.mem_iff_get?.mpr found)
      exact other (Prod.ext_iff.mp (toLex.injective key)).2.symm
    obtain ⟨s, es, ran, sound, same, moved⟩ :=
      Sequencer.addItem_fate good.sound idAddr clock item seq fresh
    obtain ⟨cached, ttl', entered⟩ : (d.sequencer.admitItem now idAddr item).2.Cached ∧ _ :=
      Sequencer.admitItem_spec item good.cached free
    refine ⟨{ d with
      sequencer := s
      offers := d.offers ++ [⟨now, item, d.sequencer.fate now idAddr item seq⟩]
      emitted := d.emitted ++ es.map Emission.item }, by simp only [step, ran, Option.map_some], ?_⟩
    constructor
    · exact sound
    · exact same.cached cached
    · exact (same.ttl.trans ttl').trans good.lifetime
    · classical
      have before := good.accounted
      have taken : (Offering.accepted ({ d with
          sequencer := s
          offers := d.offers ++ [⟨now, item, d.sequencer.fate now idAddr item seq⟩]
          emitted := d.emitted ++ es.map Emission.item })) =
          d.accepted ++ if d.sequencer.fate now idAddr item seq = .accepted then
            [item] else [] := by
        simp only [accepted, List.filter_append, List.map_append, List.filter_singleton]
        split_ifs with yes <;> simp [yes]
      rw [taken]
      rw [List.perm_iff_count] at before moved ⊢
      intro item'
      have one := before item'
      have two := moved item'
      simp only [List.count_append] at one two ⊢
      omega
    · intro key i found
      rw [same.byId] at found
      rcases entered key i found with old | ⟨new, channel, id, expires⟩
      · obtain ⟨o, mem, rest⟩ := good.offered key i old
        exact ⟨o, List.mem_append_left _ mem, rest⟩
      · refine ⟨_, List.mem_append_right _ (List.mem_singleton.mpr rfl), ?_, channel.symm,
          id.symm, ?_⟩
        · intro seen
          rw [Sequencer.fate_seen.mp seen] at new
          cases new
        · rwa [good.lifetime] at expires
  | expireTimerTimeout now clock =>
    obtain ⟨s, es, ran, sound, delivers, _, _⟩ :=
      Sequencer.expireLoop_spec d.sequencer.pendingExpireMSecs now clock
        d.sequencer.pendingItemsByTime.count good.sound (Nat.le_refl _)
    have kept : Good ttl { d with
        sequencer := s, cleared := d.cleared ++ [], emitted :=
          d.emitted ++ es.map Emission.item } :=
      good.kept sound (Sequencer.expireLoop_sameCache ran) delivers.moved
    rw [List.append_nil] at kept
    exact ⟨_, by simp only [step, Sequencer.expireTimerTimeout, ran, Option.map_some], kept⟩
  | clearPendingForChannel channel =>
    obtain ⟨sound, moved, _⟩ := Sequencer.clear_spec good.sound channel
    have kept : Good ttl { d with
        sequencer := (d.sequencer.clear channel).1
        cleared := d.cleared ++ (d.sequencer.clear channel).2
        emitted := d.emitted ++ [] } :=
      good.kept sound (Sequencer.clear_sameCache channel d.sequencer) moved
    rw [List.append_nil] at kept
    exact ⟨_, rfl, kept⟩
  | removeLastId channel =>
    have valid := (PublishLastIds.remove_spec good.sound.lastIds channel).1
    exact ⟨_, rfl, ⟨good.sound.of_same valid rfl rfl rfl,
      ⟨good.cached.byId, good.cached.byExpireTime⟩, good.lifetime, good.accounted, good.offered⟩⟩
  | clearLastIds =>
    have valid := PublishLastIds.clear_valid d.sequencer.lastIds
    exact ⟨_, rfl, ⟨good.sound.of_same valid rfl rfl rfl,
      ⟨good.cached.byId, good.cached.byExpireTime⟩, good.lifetime, good.accounted, good.offered⟩⟩

theorem start_good (maxCapacity wait ttl : Int) :
    (start (.new maxCapacity) wait ttl : Offering σ β).Good ttl := by
  constructor
  · exact Sequencer.new_sound (PublishLastIds.new_valid maxCapacity) wait ttl
  · exact Sequencer.new_cached _ wait ttl
  · rfl
  · exact List.Perm.refl _
  · intro key i found
    cases found

end Offering
end PushpinHandler
