import Mathlib.Data.List.Nodup
import Mathlib.Data.List.TakeWhile
import Pushpin.Connmgr.Batch

namespace PushpinConnmgr
open PushpinRingBuffer Slabs
namespace Batch

theorem forget_spec {b : Batch} (valid : b.Valid) {index next : Nat} {item : AddrItem}
    {rest : List Nat} {nodes : Slab Nat} (found : b.addrs[index]? = some item)
    (sub : rest.Sublist item.keys)
    (left : ∀ k, nodes.get? k = if k ∈ item.keys ∧ k ∉ rest then none else b.nodes.get? k)
    (passed : ∀ i nkey, i < next → ¬ b.At i nkey) (inside : next ≤ b.addrs.length) :
    Valid ⟨nodes, b.addrs.set index { item with keys := rest }, next⟩ ∧
      ∀ key c a, Holds ⟨nodes, b.addrs.set index { item with keys := rest }, next⟩ key c a ↔
        b.Holds key c a ∧ ¬ (key.nkey ∈ item.keys ∧ key.nkey ∉ rest) := by
  have inList : index < b.addrs.length := (List.getElem?_eq_some_iff.mp found).1
  generalize after : (⟨nodes, b.addrs.set index { item with keys := rest }, next⟩ : Batch) = b'
  have entries : ∀ i, b'.addrs[i]? =
      if i = index then some { item with keys := rest } else b.addrs[i]? := by
    intro i
    subst after
    simp only [List.getElem?_set]
    by_cases same : index = i
    · subst same
      simp only [if_true, inList]
    · simp only [if_neg same, if_neg (Ne.symm same)]
  have left' : ∀ k, b'.nodes.get? k = if k ∈ item.keys ∧
      k ∉ rest then none else b.nodes.get? k := by
    subst after
    exact left
  have listed : ∀ i k a, b'.Listed i k a ↔ b.Listed i k a ∧ (i = index → k ∈ rest) := by
    intro i k a
    unfold Listed
    simp only [entries]
    by_cases same : i = index
    · subst same
      simp only [if_true, Option.some.injEq, found]
      constructor
      · rintro ⟨_, rfl, mem, rfl⟩
        exact ⟨⟨item, rfl, sub.mem mem, rfl⟩, fun _ => mem⟩
      · rintro ⟨⟨_, rfl, _, rfl⟩, mem⟩
        exact ⟨_, rfl, mem trivial, rfl⟩
    · simp only [same, if_false, false_imp_iff, and_true]
  have kept : ∀ {i k}, b.At i k → (i = index → k ∈ rest) → ¬ (k ∈ item.keys ∧ k ∉ rest) := by
    rintro i k here mem ⟨old, gone⟩
    exact gone (mem (valid.apart here ⟨item, found, old⟩))
  have at_old : ∀ {i k}, b'.At i k → b.At i k ∧ (i = index → k ∈ rest) := by
    intro i k here
    obtain ⟨a, there⟩ := here.listed
    obtain ⟨old, mem⟩ := (listed i k a).mp there
    exact ⟨old.at, mem⟩
  have holds : ∀ key c a, b'.Holds key c a ↔
      b.Holds key c a ∧ ¬ (key.nkey ∈ item.keys ∧ key.nkey ∉ rest) := by
    intro key c a
    simp only [Holds, left', listed]
    constructor
    · rintro ⟨filled, there, mem⟩
      rw [if_neg (kept there.at mem)] at filled
      exact ⟨⟨filled, there⟩, kept there.at mem⟩
    · rintro ⟨⟨filled, there⟩, stays⟩
      rw [if_neg stays]
      refine ⟨filled, there, ?_⟩
      intro same
      by_contra gone
      obtain ⟨item', found', mem, _⟩ := there
      rw [same, found] at found'
      cases found'
      exact stays ⟨mem, gone⟩
  refine ⟨⟨?_, ?_, ?_, ?_, ?_, ?_⟩, holds⟩
  · intro i item' found'
    rw [entries] at found'
    split at found'
    · cases found'
      exact (valid.distinct found).sublist sub
    · exact valid.distinct found'
  · intro i j k here there
    exact valid.apart (at_old here).1 (at_old there).1
  · intro i k here
    obtain ⟨old, mem⟩ := at_old here
    rw [left', if_neg (kept old mem)]
    exact valid.filled old
  · intro k c filled
    rw [left'] at filled
    split at filled
    · cases filled
    · rename_i stays
      obtain ⟨key, a, held, rfl⟩ := valid.holds_of_get? filled
      exact ⟨key.addrIndex, ((holds key c a).mpr ⟨held, stays⟩).2.at⟩
  · intro i k before here
    subst after
    exact passed i k before (at_old here).1
  · subst after
    simpa using inside

theorem remove_spec {b : Batch} (valid : b.Valid) {key : BatchKey} {ckey : Nat} {addr : Addr}
    (held : b.Holds key ckey addr) :
    ∃ b', b.remove key = some b' ∧ b'.Valid ∧ b'.capacity = b.capacity ∧
      ∀ k c a, b'.Holds k c a ↔ b.Holds k c a ∧ k ≠ key := by
  have ⟨filled, item, found, mem, _⟩ := held
  have distinct := valid.distinct found
  have gone : ∀ k, k ∈ item.keys ∧ k ∉ item.keys.erase key.nkey ↔ k = key.nkey := by
    intro k
    rw [distinct.mem_erase_iff]
    constructor
    · rintro ⟨there, missing⟩
      by_contra other
      exact missing ⟨other, there⟩
    · rintro rfl
      exact ⟨mem, fun there => there.1 rfl⟩
  have left : ∀ k, (b.nodes.remove key.nkey).get? k =
      if k ∈ item.keys ∧ k ∉ item.keys.erase key.nkey then none else b.nodes.get? k := by
    intro k
    rw [Slab.get?_remove]
    simp only [gone]
  obtain ⟨valid', holds⟩ := forget_spec valid found List.erase_sublist left
    (fun _ _ before => valid.passed before) valid.inside
  refine ⟨⟨b.nodes.remove key.nkey,
      b.addrs.set key.addrIndex { item with keys := item.keys.erase key.nkey }, b.addrIndex⟩,
    ?_, valid', ?_, ?_⟩
  · simp only [remove, found, filled, Option.bind_eq_bind, Option.bind_some, mem, if_true]
    rfl
  · simp only [capacity, Slab.capacity_remove]
  · intro k c a
    rw [holds, gone]
    constructor
    · rintro ⟨there, other⟩
      refine ⟨there, ?_⟩
      rintro rfl
      exact other rfl
    · rintro ⟨there, other⟩
      exact ⟨there, fun same => other (there.key_eq valid held same)⟩

def idsOf (include_ : Nat → Option (Option PacketId)) (ckeys : List Nat) : List PacketId :=
  ckeys.filterMap fun ckey => (include_ ckey).join

def removedOf (include_ : Nat → Option (Option PacketId)) (ckeys : List Nat) : List (Nat × Bool) :=
  ckeys.map fun ckey => (ckey, (include_ ckey).join.isSome)

theorem idsOf_append (include_ : Nat → Option (Option PacketId)) (one two : List Nat) :
    idsOf include_ (one ++ two) = idsOf include_ one ++ idsOf include_ two :=
  List.filterMap_append

theorem removedOf_append (include_ : Nat → Option (Option PacketId)) (one two : List Nat) :
    removedOf include_ (one ++ two) = removedOf include_ one ++ removedOf include_ two :=
  List.map_append

theorem included_of_idsOf_nil {include_ : Nat → Option (Option PacketId)} {ckeys : List Nat}
    (none_included : idsOf include_ ckeys = []) {ckey : Nat} (mem : ckey ∈ ckeys) :
    (include_ ckey).join.isSome = false := by
  have missing := List.filterMap_eq_nil_iff.mp none_included ckey mem
  rw [missing]
  rfl

theorem takeKeys_spec {include_ : Nat → Option (Option PacketId)} (keys : List Nat)
    (nodes : Slab Nat) (ids : List PacketId) (removed : List (Nat × Bool)) (distinct : keys.Nodup)
    (filled : ∀ k ∈ keys, ∃ c found, nodes.get? k = some c ∧ include_ c = some found) :
    ∃ (taken : List (Nat × Nat)) (rest : List Nat) (nodes' : Slab Nat), keys = taken.map Prod.fst ++
      rest ∧ takeKeys include_ keys nodes ids removed = some (rest, nodes',
        ids ++ idsOf include_ (taken.map Prod.snd),
          removed ++ removedOf include_ (taken.map Prod.snd)) ∧
      nodes'.capacity = nodes.capacity ∧
      (∀ pair ∈ taken, nodes.get? pair.1 = some pair.2) ∧
      (∀ k, nodes'.get? k = if k ∈ taken.map Prod.fst then none else nodes.get? k) ∧
      (rest = [] ∨ idsMax ≤ (ids ++ idsOf include_ (taken.map Prod.snd)).length) := by
  induction keys generalizing nodes ids removed with
  | nil =>
    exact ⟨[], [], nodes,
      rfl, by simp [takeKeys, idsOf, removedOf], rfl, by simp, by simp, Or.inl rfl⟩
  | cons nkey keys ih =>
    by_cases full : ids.length < idsMax
    · obtain ⟨ckey, found, here, answer⟩ := filled nkey List.mem_cons_self
      obtain ⟨apart, distinct'⟩ := List.nodup_cons.mp distinct
      have filled' : ∀ k ∈ keys, ∃ c found, (nodes.remove nkey).get? k = some c ∧
          include_ c = some found := by
        intro k mem
        have other : k ≠ nkey := by
          rintro rfl
          exact apart mem
        rw [Slab.get?_remove, if_neg other]
        exact filled k (List.mem_cons_of_mem nkey mem)
      obtain ⟨taken, rest, nodes', split, eq, size, values, left, stop⟩ :=
        ih (nodes.remove nkey) (ids ++ found.toList) (removed ++ [(ckey, found.isSome)]) distinct'
          filled'
      have one_id : idsOf include_ (((nkey, ckey) :: taken).map Prod.snd) =
          found.toList ++ idsOf include_ (taken.map Prod.snd) := by
        cases found <;> simp [idsOf, answer]
      have one_removed : removedOf include_ (((nkey, ckey) :: taken).map Prod.snd) =
          (ckey, found.isSome) :: removedOf include_ (taken.map Prod.snd) := by
        simp [removedOf, answer]
      refine ⟨(nkey, ckey) :: taken, rest, nodes', ?_, ?_, ?_, ?_, ?_, ?_⟩
      · simp only [List.map_cons, List.cons_append, split]
      · simp only [takeKeys, full, if_true, here, answer, Option.bind_eq_bind, Option.bind_some, eq,
          one_id, one_removed, List.append_assoc, List.singleton_append]
      · rw [size, Slab.capacity_remove]
      · intro pair mem
        rcases List.mem_cons.mp mem with rfl | mem
        · exact here
        · have value := values pair mem
          rw [Slab.get?_remove] at value
          split at value
          · cases value
          · exact value
      · intro k
        rw [left, Slab.get?_remove, List.map_cons]
        by_cases same : k = nkey
        · simp [same]
        · simp only [List.mem_cons, same, false_or, if_false]
      · rcases stop with empty | long
        · exact Or.inl empty
        · right
          rw [one_id, ← List.append_assoc]
          exact long
    · refine ⟨[], nkey :: keys, nodes, rfl, ?_, rfl, by simp, by simp, Or.inr ?_⟩
      · simp [takeKeys, full, idsOf, removedOf]
      · simp only [List.map_nil, idsOf, List.filterMap_nil, List.append_nil]
        omega

theorem takeWhile_stops {α : Type} (p : α → Bool) (l : List α) {x : α}
    (found : l[(l.takeWhile p).length]? = some x) : p x = false := by
  induction l with
  | nil => cases found
  | cons y l ih =>
    by_cases holds : p y = true
    · rw [List.takeWhile_cons_of_pos holds, List.length_cons, List.getElem?_cons_succ] at found
      exact ih found
    · rw [List.takeWhile_cons_of_neg holds] at found
      cases found
      exact Bool.eq_false_iff.mpr holds

theorem skipEmpty_spec {addrs : List AddrItem} {index : Nat} (inside : index ≤ addrs.length) :
    index ≤ skipEmpty addrs index ∧ skipEmpty addrs index ≤ addrs.length ∧
      (∀ {i : Nat} {item : AddrItem}, index ≤ i → i < skipEmpty addrs index →
        addrs[i]? = some item → item.keys = []) ∧
      ∀ {item : AddrItem}, addrs[skipEmpty addrs index]? = some item → item.keys ≠ [] := by
  have short :=
    List.takeWhile_prefix (fun item : AddrItem => item.keys.isEmpty) (l := addrs.drop index)
  have bound := short.length_le
  rw [List.length_drop] at bound
  refine ⟨by unfold skipEmpty; omega, by unfold skipEmpty; omega, ?_, ?_⟩
  · intro i item low high found
    unfold skipEmpty at high
    obtain ⟨j, rfl⟩ := Nat.exists_eq_add_of_le low
    have inPrefix : j < ((addrs.drop index).takeWhile fun item => item.keys.isEmpty).length := by
      omega
    rw [← List.getElem?_drop] at found
    have same := short.getElem inPrefix
    rw [List.getElem?_eq_getElem (by rw [List.length_drop]; omega), ← same] at found
    cases found
    have empty := List.mem_takeWhile_imp (List.getElem_mem inPrefix)
    simpa using empty
  · intro item found
    unfold skipEmpty at found
    rw [← List.getElem?_drop] at found
    have filled := takeWhile_stops _ _ found
    simpa using filled

structure Took (b b' : Batch) (taken : List (BatchKey × Nat)) : Prop where
  valid : b'.Valid
  size : b'.capacity = b.capacity
  once : (taken.map Prod.fst).Nodup
  held : ∀ {key ckey}, (key, ckey) ∈ taken → ∃ addr, b.Holds key ckey addr
  left : ∀ key ckey addr, b'.Holds key ckey addr ↔ b.Holds key ckey addr ∧ key ∉ taken.map Prod.fst

theorem Took.trans {b c d : Batch} {one two : List (BatchKey × Nat)} (first : b.Took c one)
    (second : c.Took d two) : b.Took d (one ++ two) := by
  refine ⟨second.valid, second.size.trans first.size, ?_, ?_, ?_⟩
  · rw [List.map_append]
    refine List.Nodup.append first.once second.once ?_
    intro key gone again
    obtain ⟨⟨_, ckey⟩, mem, rfl⟩ := List.mem_map.mp again
    obtain ⟨addr, held⟩ := second.held mem
    exact ((first.left _ _ _).mp held).2 gone
  · intro key ckey mem
    rcases List.mem_append.mp mem with early | late
    · exact first.held early
    · obtain ⟨addr, held⟩ := second.held late
      exact ⟨addr, ((first.left _ _ _).mp held).1⟩
  · intro key ckey addr
    rw [second.left, first.left, List.map_append, List.mem_append, not_or, and_assoc]

theorem Took.len_lt {b b' : Batch} {taken : List (BatchKey × Nat)} (valid : b.Valid)
    (took : b.Took b' taken) (some_taken : taken ≠ []) : b'.len < b.len := by
  obtain ⟨⟨key, ckey⟩, mem⟩ := List.exists_mem_of_ne_nil taken some_taken
  obtain ⟨addr, held⟩ := took.held mem
  refine Slab.len_lt_of_subset took.size ?_ (?_ : b'.nodes.get? key.nkey = none) ?_
  · intro nkey filled
    obtain ⟨c, found⟩ := Option.isSome_iff_exists.mp filled
    obtain ⟨other, a, there, rfl⟩ := took.valid.holds_of_get? found
    rw [((took.left _ _ _).mp there).1.1]
    rfl
  · by_contra filled
    obtain ⟨c, found⟩ := Option.ne_none_iff_exists'.mp filled
    obtain ⟨other, a, there, same⟩ := took.valid.holds_of_get? found
    obtain ⟨before, stays⟩ := (took.left _ _ _).mp there
    have again := before.key_eq valid held same
    subst again
    exact stays (List.mem_map.mpr ⟨_, mem, rfl⟩)
  · rw [held.1]
    rfl

theorem skip_took {b : Batch} (valid : b.Valid) : b.Took b.skip [] := by
  obtain ⟨forward, bound, empty, _⟩ := skipEmpty_spec valid.inside
  refine ⟨⟨valid.distinct, valid.apart, valid.filled, valid.listed, ?_, bound⟩, rfl, List.nodup_nil,
    ?_, ?_⟩
  · rintro index nkey before ⟨item, found, mem⟩
    rcases Nat.lt_or_ge index b.addrIndex with early | late
    · exact valid.passed early ⟨item, found, mem⟩
    · rw [empty late before found] at mem
      cases mem
  · intro key ckey mem
    cases mem
  · intro key ckey addr
    constructor
    · intro held
      exact ⟨held, List.not_mem_nil⟩
    · intro held
      exact held.1

theorem takeKeys_took {include_ : Nat → Option (Option PacketId)} {b : Batch} (valid : b.Valid)
    {item : AddrItem} (found : b.addrs[b.addrIndex]? = some item)
    (answers : ∀ {key ckey addr}, b.Holds key ckey addr → ∃ reply, include_ ckey = some reply)
    (removed : List (Nat × Bool)) :
    ∃ rest nodes taken, takeKeys include_ item.keys b.nodes [] removed = some (rest, nodes,
        idsOf include_ (taken.map Prod.snd), removed ++ removedOf include_ (taken.map Prod.snd)) ∧
      b.Took { b with nodes, addrs := b.addrs.set b.addrIndex { item with keys := rest } } taken ∧
      (∀ {key ckey}, (key, ckey) ∈ taken → b.Holds key ckey item.addr) ∧
      (rest = [] ∨ idsOf include_ (taken.map Prod.snd) ≠ []) := by
  have listed : ∀ {k c}, k ∈ item.keys → b.nodes.get? k = some c →
      b.Holds ⟨b.addrIndex, k⟩ c item.addr := by
    intro k c mem value
    exact ⟨value, item, found, mem, rfl⟩
  have filled : ∀ k ∈ item.keys, ∃ c reply, b.nodes.get? k = some c ∧ include_ c = some reply := by
    intro k mem
    obtain ⟨c, value⟩ := valid.filled ⟨item, found, mem⟩
    obtain ⟨reply, answer⟩ := answers (listed mem value)
    exact ⟨c, reply, value, answer⟩
  have distinct := valid.distinct found
  obtain ⟨taken, rest, nodes, split, eq, size, values, left, stop⟩ :=
    takeKeys_spec item.keys b.nodes [] removed distinct filled
  have gone : ∀ k, k ∈ item.keys ∧ k ∉ rest ↔ k ∈ taken.map Prod.fst := by
    rw [split] at distinct ⊢
    have apart := List.disjoint_of_nodup_append distinct
    intro k
    rw [List.mem_append]
    constructor
    · rintro ⟨front | back, missing⟩
      · exact front
      · exact absurd back missing
    · intro front
      exact ⟨Or.inl front, apart front⟩
  obtain ⟨valid', holds⟩ := forget_spec valid found (split ▸ List.sublist_append_right _ _)
    (fun k => by rw [left]; simp only [gone]) (fun _ _ before => valid.passed before) valid.inside
  have snd_eq : (taken.map fun pair => ((⟨b.addrIndex, pair.1⟩ : BatchKey), pair.2)).map Prod.snd =
      taken.map Prod.snd := by
    rw [List.map_map]
    rfl
  have fst_eq : (taken.map fun pair => ((⟨b.addrIndex, pair.1⟩ : BatchKey), pair.2)).map Prod.fst =
      (taken.map Prod.fst).map fun nkey => ⟨b.addrIndex, nkey⟩ := by
    rw [List.map_map, List.map_map]
    rfl
  have each : ∀ {key ckey},
      (key, ckey) ∈ taken.map (fun pair => ((⟨b.addrIndex, pair.1⟩ : BatchKey), pair.2)) →
        b.Holds key ckey item.addr := by
    intro key ckey mem
    obtain ⟨⟨nkey, c⟩, there, same⟩ := List.mem_map.mp mem
    cases same
    have front := (gone nkey).mpr (List.mem_map.mpr ⟨_, there, rfl⟩)
    exact listed front.1 (values _ there)
  refine ⟨rest, nodes, taken.map fun pair => (⟨b.addrIndex, pair.1⟩, pair.2), ?_, ?_, each, ?_⟩
  · rw [snd_eq, eq, List.nil_append]
  · refine ⟨valid', size, ?_, fun mem => ⟨item.addr, each mem⟩, ?_⟩
    · rw [fst_eq]
      refine List.Nodup.map ?_ (List.Nodup.of_append_left (split ▸ distinct))
      intro k k' same
      cases same
      rfl
    · intro key ckey addr
      rw [holds, gone, fst_eq]
      constructor
      · rintro ⟨held, stays⟩
        refine ⟨held, ?_⟩
        intro mem
        obtain ⟨nkey, front, rfl⟩ := List.mem_map.mp mem
        exact stays front
      · rintro ⟨held, stays⟩
        refine ⟨held, ?_⟩
        intro front
        have other := listed ((gone key.nkey).mpr front).1 held.1
        have key_eq := held.key_eq valid other rfl
        exact stays (List.mem_map.mpr ⟨key.nkey, front, key_eq.symm⟩)
  · rcases stop with empty | long
    · exact Or.inl empty
    · right
      rw [snd_eq]
      intro none_included
      rw [none_included] at long
      exact absurd long (by decide)

theorem nothing_left {b : Batch} (valid : b.Valid) (past : b.addrs[b.addrIndex]? = none) :
    b.nodes.isEmpty = true := by
  rw [isEmpty_iff]
  intro nkey
  by_contra filled
  obtain ⟨ckey, value⟩ := Option.ne_none_iff_exists'.mp filled
  obtain ⟨index, here⟩ := valid.listed value
  have ⟨item, found, _⟩ := here
  have inside := (List.getElem?_eq_some_iff.mp found).1
  have beyond := List.getElem?_eq_none_iff.mp past
  exact valid.passed (by omega) here

/-- The included connections are all from the address where the loop stops. -/
theorem groupLoop_spec {include_ : Nat → Option (Option PacketId)} (rounds : Nat) {b : Batch}
    (valid : b.Valid)
    (answers : ∀ {key ckey addr}, b.Holds key ckey addr → ∃ reply, include_ ckey = some reply)
    (removed : List (Nat × Bool))
    (enough : b.addrs.length < skipEmpty b.addrs b.addrIndex + rounds) :
    ∃ b' taken, groupLoop include_ rounds b [] removed = some (b',
        idsOf include_ (taken.map Prod.snd), removed ++ removedOf include_ (taken.map Prod.snd)) ∧
      b.Took b' taken ∧
      (idsOf include_ (taken.map Prod.snd) = [] → ∀ key ckey addr, ¬ b'.Holds key ckey addr) ∧
      ∀ {key ckey}, (key, ckey) ∈ taken → (include_ ckey).join.isSome = true →
        ∃ item, b'.addrs[b'.addrIndex]? = some item ∧ b.Holds key ckey item.addr := by
  induction rounds generalizing b removed with
  | zero =>
    obtain ⟨_, bound, _⟩ := skipEmpty_spec valid.inside
    omega
  | succ rounds ih =>
    have skipped := skip_took valid
    simp only [groupLoop, ne_eq, not_true_eq_false, if_false]
    have enough' : b.skip.addrs.length < b.skip.addrIndex + (rounds + 1) := enough
    generalize b.skip = c at skipped enough' ⊢
    have answers' : ∀ {key ckey addr}, c.Holds key ckey addr →
        ∃ reply, include_ ckey = some reply :=
      fun held => answers ((skipped.left _ _ _).mp held).1
    cases found : c.addrs[c.addrIndex]? with
    | none =>
      have empty := nothing_left skipped.valid found
      simp only [empty, if_true]
      refine ⟨c, [], ?_, skipped, ?_, ?_⟩
      · simp [idsOf, removedOf]
      · intro _ key ckey addr held
        have filled := held.1
        rw [(isEmpty_iff c).mp empty] at filled
        cases filled
      · intro key ckey mem
        cases mem
    | some item =>
      obtain ⟨rest, nodes, taken, eq, took, under, stop⟩ :=
        takeKeys_took skipped.valid found answers' removed
      simp only [eq, Option.bind_eq_bind, Option.bind_some]
      have inside := (List.getElem?_eq_some_iff.mp found).1
      have here : (c.addrs.set c.addrIndex { item with keys := rest })[c.addrIndex]? =
          some { item with keys := rest } := by
        rw [List.getElem?_set_self inside]
      generalize after : ({ c with
        nodes, addrs := c.addrs.set c.addrIndex { item with keys := rest } } : Batch) = d at took
      have index_eq' : c.addrIndex = d.addrIndex := by rw [← after]
      have addrs_eq' : c.addrs.set c.addrIndex { item with keys := rest } = d.addrs := by
        rw [← after]
      have both := skipped.trans took
      by_cases none_included : idsOf include_ (taken.map Prod.snd) = []
      · -- Everything at this address was left out, so the loop goes on behind it.
        have emptied : rest = [] :=
          stop.resolve_right fun some_included => some_included none_included
        have length_eq : d.addrs.length = c.addrs.length := by rw [← addrs_eq', List.length_set]
        have further : c.addrIndex < skipEmpty d.addrs d.addrIndex := by
          obtain ⟨forward, _, _, filled⟩ := skipEmpty_spec took.valid.inside
          rcases Nat.lt_or_ge c.addrIndex (skipEmpty d.addrs d.addrIndex) with more | stuck
          · exact more
          · have same : skipEmpty d.addrs d.addrIndex = c.addrIndex := by omega
            rw [same, ← addrs_eq', here] at filled
            exact absurd emptied (filled rfl)
        obtain ⟨b', later, eq', took', past, included⟩ := ih took.valid
          (fun held => answers' ((took.left _ _ _).mp held).1)
          (removed ++ removedOf include_ (taken.map Prod.snd)) (by omega)
        have ids_eq : idsOf include_ ((taken ++ later).map Prod.snd) =
            idsOf include_ (later.map Prod.snd) := by
          rw [List.map_append, idsOf_append, none_included, List.nil_append]
        refine ⟨b', taken ++ later, ?_, both.trans took', ?_, ?_⟩
        · rw [none_included, ids_eq, List.map_append, removedOf_append, ← List.append_assoc]
          exact eq'
        · rw [ids_eq]
          exact past
        · intro key ckey mem chosen
          rcases List.mem_append.mp mem with early | late
          · have left_out := included_of_idsOf_nil none_included (List.mem_map.mpr ⟨_, early, rfl⟩)
            rw [left_out] at chosen
            cases chosen
          · obtain ⟨item', there, held⟩ := included late chosen
            exact ⟨item', there, ((both.left _ _ _).mp held).1⟩
      · obtain ⟨more, rfl⟩ : ∃ more, rounds = more + 1 := by
          refine ⟨rounds - 1, ?_⟩
          omega
        refine ⟨d, taken, ?_, both, fun empty => absurd empty none_included, ?_⟩
        · simp only [groupLoop, ne_eq, none_included, not_false_eq_true, if_true]
        · intro key ckey mem _
          refine ⟨{ item with keys := rest }, ?_, ?_⟩
          · rw [← index_eq', ← addrs_eq', here]
          · exact ((skipped.left _ _ _).mp (under mem)).1

structure Group (b : Batch) (include_ : Nat → Option (Option PacketId)) (b' : Batch)
    (group : BatchGroup) (taken : List (BatchKey × Nat)) : Prop where
  took : b.Took b' taken
  some_taken : taken ≠ []
  removed : group.removed = removedOf include_ (taken.map Prod.snd)
  ids : group.ids = idsOf include_ (taken.map Prod.snd)
  addressed : ∀ {key ckey}, (key, ckey) ∈ taken → (include_ ckey).join.isSome = true →
    b.Holds key ckey group.addr

theorem takeGroup_spec {include_ : Nat → Option (Option PacketId)} {b : Batch} (valid : b.Valid)
    (answers : ∀ {key ckey addr}, b.Holds key ckey addr → ∃ reply, include_ ckey = some reply) :
    ∃ b' reply, b.takeGroup include_ = some (b', reply) ∧
      match reply with
      | none => b.Took b' [] ∧ ∀ key ckey addr, ¬ b.Holds key ckey addr
      | some group => ∃ taken, b.Group include_ b' group taken := by
  obtain ⟨b', taken, eq, took, past, included⟩ :=
    groupLoop_spec (b.addrs.length + 2) valid answers [] (by omega)
  simp only [takeGroup, eq, Option.bind_eq_bind, Option.bind_some, List.nil_append]
  by_cases none_taken : taken = []
  · subst none_taken
    refine ⟨b', none, rfl, took, ?_⟩
    intro key ckey addr held
    exact past rfl key ckey addr ((took.left _ _ _).mpr ⟨held, List.not_mem_nil⟩)
  · have some_removed : removedOf include_ (taken.map Prod.snd) ≠ [] := by
      simpa [removedOf] using none_taken
    rw [if_neg some_removed]
    by_cases none_included : idsOf include_ (taken.map Prod.snd) = []
    · rw [if_pos none_included]
      refine ⟨b', _, rfl, taken, took, none_taken, rfl, rfl, ?_⟩
      intro key ckey mem chosen
      have left_out := included_of_idsOf_nil none_included (List.mem_map.mpr ⟨_, mem, rfl⟩)
      rw [left_out] at chosen
      cases chosen
    · rw [if_neg none_included]
      obtain ⟨id, mem_id⟩ := List.exists_mem_of_ne_nil _ none_included
      obtain ⟨ckey, mem_ckey, chosen⟩ := List.mem_filterMap.mp mem_id
      obtain ⟨⟨key, _⟩, mem, rfl⟩ := List.mem_map.mp mem_ckey
      obtain ⟨item, there, _⟩ := included mem (by rw [chosen]; rfl)
      simp only [there, Option.bind_some]
      refine ⟨b', _, rfl, taken, took, none_taken, rfl, rfl, ?_⟩
      intro key' ckey' mem' chosen'
      obtain ⟨item', there', held⟩ := included mem' chosen'
      rw [there] at there'
      cases there'
      exact held

end Batch
end PushpinConnmgr
