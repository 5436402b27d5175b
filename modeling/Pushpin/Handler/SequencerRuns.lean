import Mathlib.Data.List.Nodup
import Pushpin.Handler.Sequencer

namespace PushpinHandler
open OrderedMaps
open OrderedMap (count_erase get?_erase get?_insert mem_iff_get?)
variable {σ β : Type}

/-- The item may go out: it starts the channel, follows its last item, or has
    waited for the given time. -/
def Emission.Due (wait : Int) (e : Emission σ β) : Prop :=
  e.lastId = none ∨ e.item.prevId = none ∨ e.item.prevId = e.lastId ∨ ∃ w, e.waited = some w ∧
    wait ≤ w

def Chained : List (Emission σ β) → Prop
  | [] => True
  | e :: later => (∀ item, e.follower = some item → later.head?.map Emission.item = some item) ∧
    Chained later

theorem Chained.append {one two : List (Emission σ β)} (first : Chained one)
    (second : Chained two) : Chained (one ++ two) := by
  induction one with
  | nil => exact second
  | cons e later ih =>
    refine ⟨?_, ih first.2⟩
    intro item waits
    have next := first.1 item waits
    cases later with
    | nil => cases next
    | cons e' rest => exact next

namespace Sequencer
variable [LinearOrder σ]

/-- Both indexes have the same items, under their keys. Only the channel that is
    being worked on may be left without items. -/
structure Sound (busy : Option σ) (s : Sequencer σ β) : Prop where
  lastIds : s.lastIds.Valid
  listed : ∀ channel items prevId p, s.pendingItemsByChannel.get? channel = some items →
    items.get? prevId = some p → p.item.channel = channel ∧ p.item.prevId = some prevId ∧
      s.pendingItemsByTime.get? (toLex (p.time, p.addr)) = some p
  timed : ∀ key p, s.pendingItemsByTime.get? key = some p → key = toLex (p.time, p.addr) ∧
    ∃ items prevId, s.pendingItemsByChannel.get? p.item.channel = some items ∧
      p.item.prevId = some prevId ∧ items.get? prevId = some p
  filled : ∀ channel items, s.pendingItemsByChannel.get? channel = some items →
    busy ≠ some channel → items.isEmpty = false
  bounded : ∀ channel items, s.pendingItemsByChannel.get? channel = some items →
    items.count ≤ channelPendingMax
  ticking : s.pendingItemsByChannel.isEmpty = false → s.expireTimer = true

theorem new_sound {lastIds : PublishLastIds σ} (valid : lastIds.Valid) (wait ttl : Int) :
    (new lastIds wait ttl : Sequencer σ β).Sound none := by
  constructor
  · exact valid
  · intro channel items prevId p found
    cases found
  · intro key p found
    cases found
  · intro channel items found
    cases found
  · intro channel items found
    cases found
  · intro filled
    cases filled

variable {s : Sequencer σ β}

theorem Sound.of_same {busy : Option σ} {s' : Sequencer σ β} (sound : s.Sound busy)
    (lastIds : s'.lastIds.Valid) (byChannel : s'.pendingItemsByChannel = s.pendingItemsByChannel)
    (byTime : s'.pendingItemsByTime = s.pendingItemsByTime)
    (timer : s'.expireTimer = s.expireTimer) :
    s'.Sound busy := by
  constructor
  · exact lastIds
  · rw [byChannel, byTime]
    exact sound.listed
  · rw [byChannel, byTime]
    exact sound.timed
  · rw [byChannel]
    exact sound.filled
  · rw [byChannel]
    exact sound.bounded
  · rw [byChannel, timer]
    exact sound.ticking

theorem waitingFor_eq_some {channel : σ} {id : Option σ} {p : PendingItem σ β} :
    s.waitingFor channel id = some p ↔
      ∃ items x, s.pendingItemsByChannel.get? channel = some items ∧ id = some x ∧
        items.get? x = some p := by
  simp only [waitingFor, Option.bind_eq_bind, Option.bind_eq_some_iff]
  constructor
  · rintro ⟨items, found, x, eq, at_x⟩
    exact ⟨items, x, found, eq, at_x⟩
  · rintro ⟨items, x, found, eq, at_x⟩
    exact ⟨items, found, x, eq, at_x⟩

theorem not_isEmpty {κ γ : Type} [LinearOrder κ] {m : OrderedMap κ γ} {key : κ} {value : γ}
    (found : m.get? key = some value) : m.isEmpty = false := by
  rw [Bool.eq_false_iff]
  intro empty
  rw [OrderedMap.isEmpty_iff.mp empty] at found
  cases found

def Lists (s : Sequencer σ β) (p : PendingItem σ β) : Prop :=
  ∃ items prevId, s.pendingItemsByChannel.get? p.item.channel = some items ∧
    p.item.prevId = some prevId ∧ items.get? prevId = some p

theorem unlist_spec {busy : Option σ} {p : PendingItem σ β} (sound : s.Sound busy)
    (lists : s.Lists p) (free : busy = none ∨ busy = some p.item.channel) :
    (s.unlist p).Sound (some p.item.channel) ∧ s.pending.Perm (p.item :: (s.unlist p).pending) ∧
      ∀ items, (s.unlist p).pendingItemsByChannel.get? p.item.channel = some items →
        ∃ old, s.pendingItemsByChannel.get? p.item.channel = some old ∧
          old.count = items.count + 1 := by
  obtain ⟨items, prevId, found, prev, at_prev⟩ := lists
  obtain ⟨_, _, timed⟩ := sound.listed _ _ _ _ found at_prev
  have eq : s.unlist p = { s with
      pendingItemsByChannel := s.pendingItemsByChannel.insert p.item.channel (items.erase prevId)
      pendingItemsByTime := s.pendingItemsByTime.erase (toLex (p.time, p.addr)) } := by
    rw [unlist, found, prev, Option.getD_some, Option.elim_some]
  rw [eq]
  refine ⟨?_, ?_, ?_⟩
  · constructor
    · exact sound.lastIds
    · intro channel items' prevId' p' at_channel at_prev'
      rw [get?_insert] at at_channel
      split_ifs at at_channel with own
      · cases at_channel
        rw [get?_erase] at at_prev'
        split_ifs at at_prev' with same
        rw [own]
        obtain ⟨name, prev', timed'⟩ := sound.listed _ _ _ _ found at_prev'
        refine ⟨name, prev', ?_⟩
        rw [get?_erase, if_neg, timed']
        intro key
        rw [key, timed] at timed'
        cases timed'
        exact same (Option.some.inj (prev'.symm.trans prev))
      · obtain ⟨name, prev', timed'⟩ := sound.listed _ _ _ _ at_channel at_prev'
        refine ⟨name, prev', ?_⟩
        rw [get?_erase, if_neg, timed']
        intro key
        rw [key, timed] at timed'
        cases timed'
        exact own name.symm
    · intro key p' at_key
      rw [get?_erase] at at_key
      split_ifs at at_key with same
      obtain ⟨name, items', prevId', found', prev', at_prev'⟩ := sound.timed key p' at_key
      refine ⟨name, ?_⟩
      by_cases own : p'.item.channel = p.item.channel
      · rw [own, found] at found'
        cases found'
        refine ⟨items.erase prevId, prevId', ?_, prev', ?_⟩
        · rw [get?_insert, if_pos own]
        · rw [get?_erase, if_neg, at_prev']
          intro same_prev
          rw [same_prev, at_prev] at at_prev'
          cases at_prev'
          exact same name
      · refine ⟨items', prevId', ?_, prev', at_prev'⟩
        rw [get?_insert, if_neg own, found']
    · intro channel items' at_channel other
      rw [get?_insert, if_neg (fun own => other (congrArg some own.symm))] at at_channel
      refine sound.filled channel items' at_channel ?_
      rcases free with none | own
      · rw [none]
        exact nofun
      · rw [own]
        exact other
    · intro channel items' at_channel
      rw [get?_insert] at at_channel
      split_ifs at at_channel with own
      · cases at_channel
        have counted := count_erase at_prev
        have most := sound.bounded _ _ found
        omega
      · exact sound.bounded channel items' at_channel
    · intro _
      exact sound.ticking (not_isEmpty found)
  · have moved := (OrderedMap.perm_erase timed).map fun e => e.2.item
    exact moved
  · intro items' at_channel
    rw [get?_insert, if_pos rfl] at at_channel
    cases at_channel
    exact ⟨items, found, count_erase at_prev⟩

theorem dropIfEmpty_spec {channel : σ} (sound : s.Sound (some channel)) :
    (s.dropIfEmpty channel).Sound none ∧ (s.dropIfEmpty channel).pending = s.pending ∧
      (s.dropIfEmpty channel).pendingExpireMSecs = s.pendingExpireMSecs := by
  unfold dropIfEmpty
  split_ifs with empty
  · refine ⟨?_, rfl, rfl⟩
    have nothing : ∀ items prevId, s.pendingItemsByChannel.get? channel = some items →
        items.get? prevId = none := by
      intro items prevId found
      rw [found, Option.getD_some] at empty
      exact OrderedMap.isEmpty_iff.mp empty prevId
    constructor
    · exact sound.lastIds
    · intro other items prevId p found
      rw [get?_erase] at found
      split_ifs at found with own
      exact sound.listed other items prevId p found
    · intro key p timed
      obtain ⟨name, items, prevId, found, prev, at_prev⟩ := sound.timed key p timed
      refine ⟨name, items, prevId, ?_, prev, at_prev⟩
      rw [get?_erase, if_neg, found]
      intro own
      rw [own] at found
      rw [nothing items prevId found] at at_prev
      cases at_prev
    · intro other items found _
      rw [get?_erase] at found
      split_ifs at found with own
      exact sound.filled other items found fun same => own (Option.some.inj same).symm
    · intro other items found
      rw [get?_erase] at found
      split_ifs at found with own
      exact sound.bounded other items found
    · intro some_left
      have before : s.pendingItemsByChannel.isEmpty = false := by
        rw [Bool.eq_false_iff]
        intro none
        rw [Bool.eq_false_iff] at some_left
        apply some_left
        rw [OrderedMap.isEmpty_iff] at none ⊢
        intro key
        rw [get?_erase, none, ite_self]
      have left : (s.pendingItemsByChannel.erase channel).isEmpty = false := some_left
      simp only [sound.ticking before, left, Bool.not_false, Bool.and_self]
  · refine ⟨?_, rfl, rfl⟩
    constructor
    · exact sound.lastIds
    · exact sound.listed
    · exact sound.timed
    · intro other items found _
      by_cases own : some channel = some other
      · cases own
        rw [found, Option.getD_some, Bool.not_eq_true] at empty
        exact empty
      · exact sound.filled other items found own
    · exact sound.bounded
    · exact sound.ticking

theorem emit_spec {busy : Option σ} (sound : s.Sound busy) (now : Int) (item : PublishItem σ β)
    (waited : Option Int) :
    ∃ lastIds, s.emit now item waited = some ({ s with lastIds := lastIds },
      s.emission item waited) ∧ lastIds.Valid ∧ lastIds.value item.channel = item.id := by
  unfold emit
  cases id : item.id with
  | some x =>
    obtain ⟨lastIds, set, valid, value⟩ := PublishLastIds.set_spec sound.lastIds now item.channel x
    exact ⟨lastIds, by simp only [set, Option.map_some], valid, value⟩
  | none =>
    obtain ⟨valid, value⟩ := PublishLastIds.remove_spec sound.lastIds item.channel
    exact ⟨_, rfl, valid, value⟩

structure Delivers (wait : Int) (before after : List (PublishItem σ β))
    (emitted : List (Emission σ β)) : Prop where
  moved : before.Perm (emitted.map Emission.item ++ after)
  chained : Chained emitted
  due : ∀ e ∈ emitted, e.Due wait

omit [LinearOrder σ] in
theorem Delivers.nil (wait : Int) (items : List (PublishItem σ β)) :
    Delivers wait items items [] := by
  constructor
  · exact List.Perm.refl items
  · exact trivial
  · intro e mem
    cases mem

omit [LinearOrder σ] in
theorem Delivers.append {wait : Int} {one two three : List (PublishItem σ β)}
    {es es' : List (Emission σ β)} (first : Delivers wait one two es)
    (second : Delivers wait two three es') : Delivers wait one three (es ++ es') := by
  constructor
  · rw [List.map_append, List.append_assoc]
    exact first.moved.trans (second.moved.append_left _)
  · exact first.chained.append second.chained
  · intro e mem
    rcases List.mem_append.mp mem with early | late
    · exact first.due e early
    · exact second.due e late

omit [LinearOrder σ] in
theorem Delivers.cons {wait : Int} {before after : List (PublishItem σ β)} {e : Emission σ β}
    {es : List (Emission σ β)} (later : Delivers wait before after es) (due : e.Due wait)
    (follows : es.head?.map Emission.item = e.follower) :
    Delivers wait (e.item :: before) after (e :: es) := by
  constructor
  · exact later.moved.cons e.item
  · exact ⟨fun item waits => follows.trans waits, later.chained⟩
  · intro e' mem
    rcases List.mem_cons.mp mem with rfl | mem
    · exact due
    · exact later.due e' mem

theorem flush_spec (wait : Int) (clock : Nat → Int) {channel : σ} (left : Nat) {id : Option σ}
    (sound : s.Sound (some channel)) (last : s.lastIds.value channel = id)
    (room : ∀ items, s.pendingItemsByChannel.get? channel = some items → items.count ≤ left) :
    ∃ s' es, flush clock channel left id s = some (s', es) ∧ s'.Sound (some channel) ∧
      Delivers wait s.pending s'.pending es ∧
      es.head?.map Emission.item = (s.waitingFor channel id).map PendingItem.item ∧
      s'.pendingExpireMSecs = s.pendingExpireMSecs := by
  induction left generalizing id s with
  | zero =>
    have nobody : s.waitingFor channel id = none := by
      rw [Option.eq_none_iff_forall_ne_some]
      intro p waits
      obtain ⟨items, x, found, _, at_x⟩ := waitingFor_eq_some.mp waits
      have counted := count_erase at_x
      have none := room items found
      omega
    exact ⟨s, [], rfl, sound, Delivers.nil wait _, by rw [nobody]; rfl, rfl⟩
  | succ left ih =>
    unfold flush
    cases waits : s.waitingFor channel id with
    | none => exact ⟨s, [], rfl, sound, Delivers.nil wait _, rfl, rfl⟩
    | some p =>
      obtain ⟨items, x, found, id_eq, at_x⟩ := waitingFor_eq_some.mp waits
      obtain ⟨name, prev, _⟩ := sound.listed channel items x p found at_x
      have lists : s.Lists p := ⟨items, x, by rw [name, found], prev, at_x⟩
      obtain ⟨sound₁, moved, fewer⟩ := unlist_spec sound lists (Or.inr (by rw [name]))
      obtain ⟨lastIds, emitted, valid, value⟩ := emit_spec sound₁ (clock left) p.item none
      have sound₂ :
          ({ s.unlist p with lastIds := lastIds } : Sequencer σ β).Sound (some channel) := by
        rw [← name]
        exact sound₁.of_same valid rfl rfl rfl
      have room₂ : ∀ items, (s.unlist p).pendingItemsByChannel.get? channel = some items →
          items.count ≤ left := by
        intro items' at_channel
        rw [← name] at at_channel
        obtain ⟨old, at_old, counted⟩ := fewer items' at_channel
        have most := room old (by rw [← name, at_old])
        omega
      rw [name] at value
      obtain ⟨s', es, ran, sound', later, head, same⟩ := ih sound₂ value room₂
      refine ⟨s', (s.unlist p).emission p.item none :: es, ?_, sound', ?_, rfl, ?_⟩
      · simp only [emitted, ran, Option.bind_eq_bind, Option.bind_some, Option.pure_def]
      · have due : ((s.unlist p).emission p.item none).Due wait := by
          refine Or.inr (Or.inr (Or.inl ?_))
          show p.item.prevId = s.lastIds.value p.item.channel
          rw [prev, name, last, id_eq]
        have both := later.cons due (by rw [head, ← name]; rfl)
        exact ⟨moved.trans both.moved, both.chained, both.due⟩
      · exact same

theorem sendItem_spec {wait : Int} (clock : Nat → Int) (sound : s.Sound none)
    {item : PublishItem σ β} {waited : Option Int}
    (due : (s.emission item waited).Due wait) :
    ∃ s' es, s.sendItem clock item waited = some (s', es) ∧ s'.Sound none ∧ es ≠ [] ∧
      Delivers wait (item :: s.pending) s'.pending es ∧
        s'.pendingExpireMSecs = s.pendingExpireMSecs := by
  obtain ⟨lastIds, emitted, valid, value⟩ := emit_spec sound (clock 0) item waited
  unfold sendItem
  simp only [emitted, Option.bind_eq_bind, Option.bind_some]
  cases found : s.pendingItemsByChannel.get? item.channel with
  | none =>
    refine ⟨_, _, rfl, sound.of_same valid rfl rfl rfl, List.cons_ne_nil _ _, ?_, rfl⟩
    apply (Delivers.nil wait s.pending).cons due
    simp only [emission, waitingFor, found, Option.bind_eq_bind, Option.bind_none]
    rfl
  | some items =>
    have busy : ({ s with lastIds := lastIds } : Sequencer σ β).Sound (some item.channel) := by
      constructor
      · exact valid
      · exact sound.listed
      · exact sound.timed
      · exact fun channel items found _ => sound.filled channel items found nofun
      · exact sound.bounded
      · exact sound.ticking
    have room : ∀ items', s.pendingItemsByChannel.get? item.channel = some items' →
        items'.count ≤ items.count := by
      intro items' at_channel
      rw [found] at at_channel
      cases at_channel
      exact Nat.le_refl _
    obtain ⟨s', es, ran, sound', later, head, same⟩ :=
      flush_spec wait (fun left => clock (left + 1)) items.count busy value room
    obtain ⟨dropped, unchanged, wait_same⟩ := dropIfEmpty_spec sound'
    refine ⟨s'.dropIfEmpty item.channel, s.emission item waited :: es, ?_, dropped,
      List.cons_ne_nil _ _, ?_, wait_same.trans same⟩
    · simp only [ran, Option.bind_some, Option.pure_def]
    · rw [unchanged]
      exact later.cons due head

theorem expireLoop_spec (wait now : Int) (clock : Nat → Nat → Int) (left : Nat)
    (sound : s.Sound none) (enough : s.pendingItemsByTime.count ≤ left) :
    ∃ s' es, expireLoop now (now - wait) clock left s = some (s', es) ∧ s'.Sound none ∧
      Delivers wait s.pending s'.pending es ∧ s'.pendingExpireMSecs = s.pendingExpireMSecs ∧
      ∀ key p, s'.pendingItemsByTime.get? key = some p → now - wait < p.time := by
  induction left generalizing s with
  | zero =>
    refine ⟨s, [], rfl, sound, Delivers.nil wait _, rfl, ?_⟩
    intro key p found
    have counted := count_erase found
    omega
  | succ left ih =>
    unfold expireLoop
    cases first : s.pendingItemsByTime.firstPair? with
    | none =>
      refine ⟨s, [], rfl, sound, Delivers.nil wait _, rfl, ?_⟩
      intro key p found
      rw [OrderedMap.firstPair?_eq_none first] at found
      cases found
    | some oldest =>
      obtain ⟨key₀, p⟩ := oldest
      have present := OrderedMap.firstPair?_present first
      obtain ⟨name, lists⟩ := sound.timed key₀ p present
      simp only
      split_ifs with young
      · refine ⟨s, [], rfl, sound, Delivers.nil wait _, rfl, ?_⟩
        intro key p' found
        have least := OrderedMap.firstPair?_least first found
        rw [name, (sound.timed key p' found).1, Prod.Lex.toLex_le_toLex] at least
        rcases least with earlier | ⟨same, _⟩
        · exact lt_trans young earlier
        · exact lt_of_lt_of_eq young same
      · obtain ⟨sound₁, moved, _⟩ := unlist_spec sound lists (Or.inl rfl)
        obtain ⟨sound₂, unchanged, wait₂⟩ := dropIfEmpty_spec sound₁
        have due : (((s.unlist p).dropIfEmpty p.item.channel).emission p.item
            (some (now - p.time))).Due wait :=
          Or.inr (Or.inr (Or.inr ⟨now - p.time, rfl, by omega⟩))
        obtain ⟨s₃, es, ran, sound₃, some_sent, delivers, wait₃⟩ :=
          sendItem_spec (clock left) sound₂ due
        rw [unchanged] at delivers
        have sent : Delivers wait s.pending s₃.pending es :=
          ⟨moved.trans delivers.moved, delivers.chained, delivers.due⟩
        have fewer : s₃.pendingItemsByTime.count ≤ left := by
          have counted := sent.moved.length_eq
          have one := List.length_pos_of_ne_nil some_sent
          simp only [pending, List.length_map, List.length_append, OrderedMap.count]
            at counted enough ⊢
          omega
        obtain ⟨s', es', ran', sound', later, wait', young'⟩ := ih sound₃ fewer
        refine ⟨s', es ++ es', ?_, sound', sent.append later, wait'.trans (wait₃.trans wait₂),
          young'⟩
        simp only [ran, ran', Option.bind_eq_bind, Option.bind_some, Option.pure_def]

theorem expireIds_same (now : Int) (left : Nat) (s : Sequencer σ β) :
    (s.expireIds now left).lastIds = s.lastIds ∧
      (s.expireIds now left).pendingItemsByChannel = s.pendingItemsByChannel ∧
      (s.expireIds now left).pendingItemsByTime = s.pendingItemsByTime ∧
      (s.expireIds now left).expireTimer = s.expireTimer ∧
      (s.expireIds now left).pendingExpireMSecs = s.pendingExpireMSecs := by
  induction left generalizing s with
  | zero => exact ⟨rfl, rfl, rfl, rfl, rfl⟩
  | succ left ih =>
    unfold expireIds
    split
    · exact ⟨rfl, rfl, rfl, rfl, rfl⟩
    · split_ifs
      · exact ⟨rfl, rfl, rfl, rfl, rfl⟩
      · exact ih _

theorem seenId_same (now : Int) (addr : Nat) (item : PublishItem σ β) (s : Sequencer σ β) :
    (s.seenId now addr item).2.lastIds = s.lastIds ∧
      (s.seenId now addr item).2.pendingItemsByChannel = s.pendingItemsByChannel ∧
      (s.seenId now addr item).2.pendingItemsByTime = s.pendingItemsByTime ∧
      (s.seenId now addr item).2.expireTimer = s.expireTimer ∧
      (s.seenId now addr item).2.pendingExpireMSecs = s.pendingExpireMSecs := by
  unfold seenId
  split
  · split_ifs <;> exact ⟨rfl, rfl, rfl, rfl, rfl⟩
  · exact ⟨rfl, rfl, rfl, rfl, rfl⟩

theorem verdict_spec (item : PublishItem σ β) (s : Sequencer σ β) :
    match s.verdict item with
    | .send => s.lastIds.value item.channel = none ∨ item.prevId = none ∨
      item.prevId = s.lastIds.value item.channel
    | .keep prevId => item.prevId = some prevId ∧
      ((s.pendingItemsByChannel.get? item.channel).getD .empty).get? prevId = none ∧
      ((s.pendingItemsByChannel.get? item.channel).getD .empty).count < channelPendingMax
    | .drop => ∃ items, s.pendingItemsByChannel.get? item.channel = some items := by
  unfold verdict
  cases last : s.lastIds.value item.channel with
  | none => exact Or.inl rfl
  | some lastId =>
    cases prev : item.prevId with
    | none => exact Or.inr (Or.inl rfl)
    | some prevId =>
      simp only
      split_ifs with same full
      · exact Or.inr (Or.inr (by rw [same]))
      · cases found : s.pendingItemsByChannel.get? item.channel with
        | some items => exact ⟨items, rfl⟩
        | none =>
          rw [found] at full
          have none_kept : (OrderedMap.empty : OrderedMap σ (PendingItem σ β)).count = 0 := rfl
          simp only [Option.getD_none, OrderedMap.get?_empty, none_kept] at full
          cases full
      · simp only [Bool.or_eq_true, Option.isSome_iff_ne_none, decide_eq_true_eq, not_or,
          not_not] at full
        exact ⟨rfl, full.1, Nat.lt_of_not_le full.2⟩

theorem enlist_spec (sound : s.Sound none) {p : PendingItem σ β} {prevId : σ}
    (prev : p.item.prevId = some prevId) {items : OrderedMap σ (PendingItem σ β)}
    (at_channel : items = (s.pendingItemsByChannel.get? p.item.channel).getD .empty)
    (free : items.get? prevId = none)
    (room : items.count < channelPendingMax)
    (fresh : s.pendingItemsByTime.get? (toLex (p.time, p.addr)) = none) :
    (s.enlist p prevId items).Sound none ∧
    (p.item :: s.pending).Perm (s.enlist p prevId items).pending := by
  have inside : ∀ x q, items.get? x = some q → ∃ items',
      s.pendingItemsByChannel.get? p.item.channel = some items' ∧ items'.get? x = some q := by
    intro x q found
    rw [at_channel] at found
    cases known : s.pendingItemsByChannel.get? p.item.channel with
    | none =>
      rw [known] at found
      cases found
    | some items' =>
      rw [known] at found
      exact ⟨items', rfl, found⟩
  refine ⟨?_, ?_⟩
  · constructor
    · exact sound.lastIds
    · intro channel items' x q found at_x
      simp only [enlist] at found ⊢
      rw [get?_insert] at found
      split_ifs at found with own
      · cases found
        rw [get?_insert] at at_x
        split_ifs at at_x with same
        · cases at_x
          refine ⟨own.symm, ?_, ?_⟩
          · rw [prev, same]
          · rw [get?_insert, if_pos rfl]
        · obtain ⟨items', known, at_old⟩ := inside x q at_x
          obtain ⟨name, prev', timed⟩ := sound.listed _ _ _ _ known at_old
          refine ⟨name.trans own.symm, prev', ?_⟩
          rw [get?_insert, if_neg, timed]
          intro key
          rw [key, fresh] at timed
          cases timed
      · obtain ⟨name, prev', timed⟩ := sound.listed _ _ _ _ found at_x
        refine ⟨name, prev', ?_⟩
        rw [get?_insert, if_neg, timed]
        intro key
        rw [key, fresh] at timed
        cases timed
    · intro key q timed
      simp only [enlist] at timed ⊢
      rw [get?_insert] at timed
      split_ifs at timed with own
      · cases timed
        refine ⟨own, items.insert prevId p, prevId, ?_, prev, ?_⟩
        · rw [get?_insert, if_pos rfl]
        · rw [get?_insert, if_pos rfl]
      · obtain ⟨name, items', x, known, prev', at_x⟩ := sound.timed key q timed
        refine ⟨name, ?_⟩
        by_cases same : q.item.channel = p.item.channel
        · refine ⟨items.insert prevId p, x, ?_, prev', ?_⟩
          · rw [get?_insert, if_pos same]
          · rw [same] at known
            have both : items.get? x = some q := by rw [at_channel, known, Option.getD_some, at_x]
            rw [get?_insert, if_neg, both]
            intro taken
            rw [taken, free] at both
            cases both
        · refine ⟨items', x, ?_, prev', at_x⟩
          rw [get?_insert, if_neg same, known]
    · intro channel items' found _
      simp only [enlist] at found
      rw [get?_insert] at found
      split_ifs at found with own
      · cases found
        exact not_isEmpty (by rw [get?_insert, if_pos rfl])
      · exact sound.filled channel items' found nofun
    · intro channel items' found
      simp only [enlist] at found
      rw [get?_insert] at found
      split_ifs at found with own
      · cases found
        rw [OrderedMap.count_insert free]
        omega
      · exact sound.bounded channel items' found
    · intro _
      rfl
  · exact ((OrderedMap.perm_insert fresh p).map fun e => e.2.item).symm

theorem addItem_spec (sound : s.Sound none) {now : Int} {addr : Nat} (idAddr : Nat)
    (clock : Nat → Int) (item : PublishItem σ β)
    (fresh : s.pendingItemsByTime.get? (toLex (now, addr)) = none)
    (wait : Int) :
    ∃ s' taken es, s.addItem now addr idAddr clock item true = some (s', taken, es) ∧
      s'.Sound none ∧ Delivers wait ((if taken then [item] else []) ++ s.pending) s'.pending es ∧
      s'.pendingExpireMSecs = s.pendingExpireMSecs := by
  obtain ⟨last₁, channel₁, time₁, timer₁, wait₁⟩ := expireIds_same now s.idCacheByExpireTime.count s
  obtain ⟨last₂, channel₂, time₂, timer₂, wait₂⟩ :=
    seenId_same now idAddr item (s.expireIds now s.idCacheByExpireTime.count)
  unfold addItem
  cases seen : (s.expireIds now s.idCacheByExpireTime.count).seenId now idAddr item with
  | mk known s₂ =>
    rw [seen] at last₂ channel₂ time₂ timer₂ wait₂
    have sound₂ : s₂.Sound none := sound.of_same (by rw [last₂, last₁]; exact sound.lastIds)
      (channel₂.trans channel₁) (time₂.trans time₁) (timer₂.trans timer₁)
    have pending₂ : s₂.pending = s.pending := by rw [pending, pending, time₂, time₁]
    have same := wait₂.trans wait₁
    rw [← pending₂]
    cases known with
    | true => exact ⟨s₂, false, [], rfl, sound₂, Delivers.nil wait _, same⟩
    | false =>
      have decided := verdict_spec item s₂
      simp only [Bool.not_true, Bool.false_eq_true, if_false]
      cases verdict : s₂.verdict item with
      | send =>
        rw [verdict] at decided
        have due : (s₂.emission item none).Due wait := by
          rcases decided with starts | free | follows
          · exact Or.inl starts
          · exact Or.inr (Or.inl free)
          · exact Or.inr (Or.inr (Or.inl follows))
        obtain ⟨s', es, ran, sound', _, delivers, kept⟩ := sendItem_spec clock sound₂ due
        exact ⟨s', true, es, by simp only [ran, Option.map_some], sound', delivers, kept.trans same⟩
      | keep prevId =>
        rw [verdict] at decided
        obtain ⟨prev, free, room⟩ := decided
        have clear : s₂.pendingItemsByTime.get? (toLex (now, addr)) = none := by
          rw [time₂, time₁, fresh]
        obtain ⟨sound', moved⟩ :=
          enlist_spec (p := ⟨addr, now, item⟩) sound₂ prev rfl free room clear
        refine ⟨_, true, [], rfl, sound', ⟨moved, trivial, ?_⟩, same⟩
        intro e mem
        cases mem
      | drop =>
        rw [verdict] at decided
        obtain ⟨items, found⟩ := decided
        refine ⟨_, false, [], rfl, ?_, Delivers.nil wait _, same⟩
        refine sound₂.of_same sound₂.lastIds ?_ rfl rfl
        rw [found, Option.getD_some, OrderedMap.insert_self found]

theorem eraseAll_spec {κ γ : Type} [LinearOrder κ] (key : γ → κ) (values : List γ)
    (m : OrderedMap κ γ) (present : ∀ v ∈ values, m.get? (key v) = some v)
    (distinct : (values.map key).Nodup) :
    m.entries.Perm (values.map (fun v => (key v, v)) ++
      (values.foldl (fun m v => m.erase (key v)) m).entries) ∧
      ∀ k, (values.foldl (fun m v => m.erase (key v)) m).get? k = if k ∈ values.map key then none
        else m.get? k := by
  induction values generalizing m with
  | nil => exact ⟨List.Perm.refl _, fun k => by simp⟩
  | cons v values ih =>
    obtain ⟨other, distinct'⟩ :=
      List.nodup_cons.mp (by simpa using distinct : (key v :: values.map key).Nodup)
    have left : ∀ w ∈ values, (m.erase (key v)).get? (key w) = some w := by
      intro w mem
      rw [get?_erase, if_neg, present w (List.mem_cons_of_mem v mem)]
      intro same
      exact other (same ▸ List.mem_map_of_mem mem)
    obtain ⟨moved, looked⟩ := ih (m.erase (key v)) left distinct'
    constructor
    · exact (OrderedMap.perm_erase (present v List.mem_cons_self)).trans (moved.cons (key v, v))
    · intro k
      rw [List.foldl_cons, looked, get?_erase]
      by_cases own : k = key v
      · simp [own]
      · simp [own]

theorem clear_spec (sound : s.Sound none) (channel : σ) :
    (s.clear channel).1.Sound none ∧
    s.pending.Perm ((s.clear channel).2 ++ (s.clear channel).1.pending) ∧
      (s.clear channel).1.pendingExpireMSecs = s.pendingExpireMSecs := by
  unfold clear
  cases found : s.pendingItemsByChannel.get? channel with
  | none => exact ⟨sound, List.Perm.refl _, rfl⟩
  | some items =>
    have listed : ∀ e ∈ items.entries, e.2.item.channel = channel ∧ e.2.item.prevId = some e.1 ∧
        s.pendingItemsByTime.get? (toLex (e.2.time, e.2.addr)) = some e.2 := by
      intro e mem
      exact sound.listed channel items e.1 e.2 found (mem_iff_get?.mp mem)
    have distinct : ((items.entries.map Prod.snd).map fun p => toLex (p.time, p.addr)).Nodup := by
      rw [List.map_map]
      refine (List.Nodup.of_map Prod.fst ?_).map_on ?_
      · exact List.pairwise_map.mpr (items.sorted.imp fun below => ne_of_lt below)
      · intro a mem_a b mem_b same
        obtain ⟨_, prev_a, timed_a⟩ := listed a mem_a
        obtain ⟨_, prev_b, timed_b⟩ := listed b mem_b
        have key : toLex (a.2.time, a.2.addr) = toLex (b.2.time, b.2.addr) := same
        rw [key, timed_b] at timed_a
        have value : b.2 = a.2 := Option.some.inj timed_a
        rw [value, prev_a] at prev_b
        exact Prod.ext (Option.some.inj prev_b) value.symm
    have fold : items.entries.foldl (fun byTime e => byTime.erase (toLex (e.2.time, e.2.addr)))
      s.pendingItemsByTime =
        (items.entries.map Prod.snd).foldl (fun byTime p => byTime.erase (toLex (p.time, p.addr)))
          s.pendingItemsByTime := by
      rw [List.foldl_map]
    obtain ⟨moved, looked⟩ := eraseAll_spec (fun p : PendingItem σ β => toLex (p.time, p.addr))
      (items.entries.map Prod.snd) s.pendingItemsByTime
      (by
        intro p mem
        obtain ⟨e, at_e, rfl⟩ := List.mem_map.mp mem
        exact (listed e at_e).2.2)
      distinct
    rw [← fold] at moved looked
    refine ⟨?_, ?_, rfl⟩
    · constructor
      · exact sound.lastIds
      · intro other items' prevId p at_other at_prev
        rw [get?_erase] at at_other
        split_ifs at at_other with own
        obtain ⟨name, prev, timed⟩ := sound.listed other items' prevId p at_other at_prev
        refine ⟨name, prev, ?_⟩
        rw [looked, if_neg, timed]
        intro mem
        simp only [List.map_map, List.mem_map, Function.comp_apply] at mem
        obtain ⟨e, at_e, key⟩ := mem
        obtain ⟨name', _, timed'⟩ := listed e at_e
        rw [key, timed] at timed'
        cases timed'
        exact own (name.symm.trans name')
      · intro key p timed
        rw [looked] at timed
        split_ifs at timed with gone
        obtain ⟨name, items', prevId, known, prev, at_prev⟩ := sound.timed key p timed
        refine ⟨name, items', prevId, ?_, prev, at_prev⟩
        rw [get?_erase, if_neg, known]
        intro own
        apply gone
        rw [own, found] at known
        cases known
        rw [name]
        exact List.mem_map_of_mem (List.mem_map_of_mem (mem_iff_get?.mpr at_prev))
      · intro other items' at_other _
        rw [get?_erase] at at_other
        split_ifs at at_other with own
        exact sound.filled other items' at_other nofun
      · intro other items' at_other
        rw [get?_erase] at at_other
        split_ifs at at_other with own
        exact sound.bounded other items' at_other
      · intro _
        exact sound.ticking (not_isEmpty found)
    · have items_moved := moved.map fun e => e.2.item
      simp only [List.map_append, List.map_map] at items_moved
      exact items_moved

end Sequencer

structure Delivery (σ β : Type) [LinearOrder σ] where
  sequencer : Sequencer σ β
  now : Int
  accepted : List (PublishItem σ β)
  cleared : List (PublishItem σ β)
  log : List (Emission σ β)

namespace Delivery
variable [LinearOrder σ]

inductive Event (σ β : Type) where
  | addItem (now : Int) (addr idAddr : Nat) (clock : Nat → Int) (item : PublishItem σ β)
  | expireTimerTimeout (now : Int) (clock : Nat → Nat → Int)
  | clearPendingForChannel (channel : σ)
  | removeLastId (channel : σ)
  | clearLastIds

def start (lastIds : PublishLastIds σ) (wait ttl now : Int) : Delivery σ β :=
  ⟨.new lastIds wait ttl, now, [], [], []⟩

def step (d : Delivery σ β) : Event σ β → Option (Delivery σ β)
  | .addItem now addr idAddr clock item =>
    (d.sequencer.addItem now addr idAddr clock item true).map fun (s, taken, emitted) =>
      { d with
        sequencer := s
        now := now
        accepted := d.accepted ++ if taken then [item] else []
        log := d.log ++ emitted }
  | .expireTimerTimeout now clock =>
    (d.sequencer.expireTimerTimeout now clock).map fun (s, emitted) =>
      { d with sequencer := s, now := now, log := d.log ++ emitted }
  | .clearPendingForChannel channel =>
    let (s, items) := d.sequencer.clear channel
    some { d with sequencer := s, cleared := d.cleared ++ items }
  | .removeLastId channel =>
    some { d with sequencer := { d.sequencer with lastIds := d.sequencer.lastIds.remove channel } }
  | .clearLastIds =>
      some { d with sequencer := { d.sequencer with lastIds := d.sequencer.lastIds.clear } }

/-- Time does not go back, and the allocator hands out addresses that are free. -/
def allowed (d : Delivery σ β) : Event σ β → Bool
  | .addItem now addr idAddr _ _ => decide (d.now ≤ now) &&
      d.sequencer.pendingItemsByTime.entries.all (fun e => e.2.addr ≠ addr) &&
      d.sequencer.idCacheByExpireTime.entries.all (fun e => e.2.addr ≠ idAddr)
  | .expireTimerTimeout now _ => decide (d.now ≤ now)
  | _ => true

/-- The two indexes have the same items, no channel is left without items, and none
    has more than `CHANNEL_PENDING_MAX`. -/
structure Indexed (s : Sequencer σ β) : Prop where
  same : ∀ p, s.Lists p ↔ s.pendingItemsByTime.get? (toLex (p.time, p.addr)) = some p
  byPrevId : ∀ channel items prevId p, s.pendingItemsByChannel.get? channel = some items →
    items.get? prevId = some p → p.item.channel = channel ∧ p.item.prevId = some prevId
  byTime : ∀ key p, s.pendingItemsByTime.get? key = some p → key = toLex (p.time, p.addr)
  filled : ∀ channel items, s.pendingItemsByChannel.get? channel = some items →
    0 < items.count ∧ items.count ≤ channelPendingMax

structure Good (wait : Int) (d : Delivery σ β) : Prop where
  sound : d.sequencer.Sound none
  waits : d.sequencer.pendingExpireMSecs = wait
  accounted : d.accepted.Perm (d.log.map Emission.item ++ (d.cleared ++ d.sequencer.pending))
  chained : Chained d.log
  due : ∀ e ∈ d.log, e.Due wait

theorem Good.delivered {wait : Int} {d : Delivery σ β} (good : d.Good wait) {s : Sequencer σ β}
    (taken : List (PublishItem σ β)) {emitted : List (Emission σ β)} (now : Int)
    (sound : s.Sound none)
    (waits : s.pendingExpireMSecs = d.sequencer.pendingExpireMSecs)
    (delivers : Sequencer.Delivers wait (taken ++ d.sequencer.pending) s.pending emitted) :
    Good wait { d with
      sequencer := s, now := now, accepted := d.accepted ++ taken, log := d.log ++ emitted } := by
  constructor
  · exact sound
  · exact waits.trans good.waits
  · simp only [List.map_append]
    classical
    have before := good.accounted
    have moved := delivers.moved
    rw [List.perm_iff_count] at before moved ⊢
    intro item
    have one := before item
    have two := moved item
    simp only [List.count_append] at one two ⊢
    omega
  · exact good.chained.append delivers.chained
  · intro e mem
    rcases List.mem_append.mp mem with early | late
    · exact good.due e early
    · exact delivers.due e late

theorem step_good {wait : Int} {d : Delivery σ β} {event : Event σ β} (good : d.Good wait)
    (may : d.allowed event = true) :
    ∃ next, d.step event = some next ∧ next.Good wait ∧
      ∀ now clock, event = .expireTimerTimeout now clock →
        ∀ key p, next.sequencer.pendingItemsByTime.get? key = some p → now - wait < p.time := by
  cases event with
  | addItem now addr idAddr clock item =>
    simp only [allowed, Bool.and_eq_true, List.all_eq_true, decide_eq_true_eq] at may
    have fresh : d.sequencer.pendingItemsByTime.get? (toLex (now, addr)) = none := by
      cases found : d.sequencer.pendingItemsByTime.get? (toLex (now, addr)) with
      | none => rfl
      | some p =>
        have key := (good.sound.timed _ _ found).1
        have other := may.1.2 _ (mem_iff_get?.mpr found)
        exact absurd (Prod.ext_iff.mp (toLex.injective key)).2.symm other
    obtain ⟨s, taken, emitted, ran, sound, delivers, waits⟩ :=
      Sequencer.addItem_spec good.sound idAddr clock item fresh wait
    exact ⟨_, by simp only [step, ran, Option.map_some], good.delivered _ now sound waits delivers,
      nofun⟩
  | expireTimerTimeout now clock =>
    obtain ⟨s, emitted, ran, sound, delivers, waits, young⟩ :=
      Sequencer.expireLoop_spec wait now clock d.sequencer.pendingItemsByTime.count good.sound
        (Nat.le_refl _)
    rw [← good.waits] at ran
    refine ⟨{ d with sequencer := s, now := now, log := d.log ++ emitted }, ?_, ?_, ?_⟩
    · simp only [step, Sequencer.expireTimerTimeout, ran, Option.map_some]
    · have kept := good.delivered [] now sound waits delivers
      rwa [List.append_nil] at kept
    · intro now' clock' eq
      cases eq
      exact young
  | clearPendingForChannel channel =>
    obtain ⟨sound, moved, waits⟩ := Sequencer.clear_spec good.sound channel
    refine ⟨{ d with
      sequencer := (d.sequencer.clear channel).1, cleared :=
        d.cleared ++ (d.sequencer.clear channel).2 },
      rfl, ⟨sound, waits.trans good.waits, ?_, good.chained, good.due⟩, nofun⟩
    classical
    have before := good.accounted
    rw [List.perm_iff_count] at before moved ⊢
    intro item
    have one := before item
    have two := moved item
    simp only [List.count_append] at one two ⊢
    omega
  | removeLastId channel =>
    have valid := (PublishLastIds.remove_spec good.sound.lastIds channel).1
    exact ⟨_, rfl, ⟨good.sound.of_same valid rfl rfl rfl, good.waits, good.accounted, good.chained,
      good.due⟩, nofun⟩
  | clearLastIds =>
    have valid := PublishLastIds.clear_valid d.sequencer.lastIds
    exact ⟨_, rfl, ⟨good.sound.of_same valid rfl rfl rfl, good.waits, good.accounted, good.chained,
      good.due⟩, nofun⟩

theorem start_good (maxCapacity wait ttl now : Int) :
    (start (.new maxCapacity) wait ttl now : Delivery σ β).Good wait := by
  constructor
  · exact Sequencer.new_sound (PublishLastIds.new_valid maxCapacity) wait ttl
  · rfl
  · exact List.Perm.refl _
  · exact trivial
  · intro e mem
    cases mem

end Delivery
end PushpinHandler
