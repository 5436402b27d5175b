import Mathlib.Data.List.Induction
import Mathlib.Data.List.Perm.Lattice
import Pushpin.Foundations.Runs
import Pushpin.Connmgr.TakeGroup

namespace PushpinConnmgr
open PushpinRingBuffer Slabs Runs

structure Queued where
  key : BatchKey
  ckey : Nat
  addr : Addr
  useRouter : Bool
  deriving DecidableEq, Repr

def Queued.nkey (e : Queued) : Nat := e.key.nkey

def listOf (q : List Queued) (index : Nat) : List Queued :=
  q.filter fun e => e.key.addrIndex = index

theorem mem_listOf {q : List Queued} {index : Nat} {e : Queued} :
    e ∈ listOf q index ↔ e ∈ q ∧ e.key.addrIndex = index := by
  simp [listOf]

namespace Batch

structure Represents (b : Batch) (q : List Queued) : Prop where
  valid : b.Valid
  once : (q.map Queued.nkey).Nodup
  lists : ∀ {index item}, b.addrs[index]? = some item → item.keys = (listOf q index).map Queued.nkey
  pairs : ∀ {e}, e ∈ q → ∃ item, b.addrs[e.key.addrIndex]? = some item ∧ item.addr = e.addr ∧
    item.useRouter = e.useRouter
  nodes : ∀ {e}, e ∈ q → b.nodes.get? e.nkey = some e.ckey

variable {b : Batch} {q : List Queued}

section
variable (rep : b.Represents q)
include rep

theorem Represents.nodup : q.Nodup := rep.once.of_map

theorem Represents.key_inj {e e' : Queued} (mem : e ∈ q)
    (mem' : e' ∈ q) (same : e.nkey = e'.nkey) : e = e' :=
  List.inj_on_of_nodup_map rep.once mem mem' same

theorem Represents.node {nkey ckey : Nat}
    (found : b.nodes.get? nkey = some ckey) : ∃ e ∈ q, e.nkey = nkey := by
  obtain ⟨index, item, there, mem⟩ := rep.valid.listed found
  rw [rep.lists there] at mem
  obtain ⟨e, listed, rfl⟩ := List.mem_map.mp mem
  exact ⟨e, (mem_listOf.mp listed).1, rfl⟩

theorem Represents.empty_iff : b.nodes.isEmpty = true ↔ q = [] := by
  rw [isEmpty_iff]
  constructor
  · intro none_there
    rw [List.eq_nil_iff_forall_not_mem]
    intro e mem
    have found := rep.nodes mem
    rw [none_there] at found
    cases found
  · rintro rfl nkey
    by_contra filled
    obtain ⟨ckey, found⟩ := Option.ne_none_iff_exists'.mp filled
    obtain ⟨e, mem, _⟩ := rep.node found
    cases mem

end

theorem represents_of_empty (none_listed : b.addrs = []) (start : b.addrIndex = 0)
    (empty : ∀ key, b.nodes.get? key = none) : b.Represents [] := by
  refine ⟨valid_of_empty none_listed start empty, List.nodup_nil, ?_, ?_, ?_⟩
  · intro index item found
    rw [none_listed] at found
    cases found
  · intro e mem
    cases mem
  · intro e mem
    cases mem

theorem Represents.startClean (rep : b.Represents q) : b.startClean.Represents q := by
  unfold Batch.startClean
  split
  · rename_i empty
    rw [rep.empty_iff.mp empty]
    exact represents_of_empty rfl rfl ((isEmpty_iff b).mp empty)
  · exact rep

theorem Represents.push (rep : b.Represents q) (toAddr : Addr) (useRouter : Bool) :
    Represents { b with addrs := b.addrs ++ [⟨toAddr, useRouter, []⟩] } q := by
  refine ⟨(push_valid rep.valid toAddr useRouter).1, rep.once, ?_, ?_, rep.nodes⟩
  · intro index item found
    rcases Nat.lt_or_ge index b.addrs.length with inside | outside
    · rw [List.getElem?_append_left inside] at found
      exact rep.lists found
    · have nobody : listOf q index = [] := by
        rw [List.eq_nil_iff_forall_not_mem]
        intro e listed
        obtain ⟨mem, rfl⟩ := mem_listOf.mp listed
        obtain ⟨item', there, _⟩ := rep.pairs mem
        have := (List.getElem?_eq_some_iff.mp there).1
        omega
      rw [List.getElem?_append_right outside, List.getElem?_singleton] at found
      split at found
      · cases found
        rw [nobody]
        rfl
      · cases found
  · intro e mem
    obtain ⟨item, there, same⟩ := rep.pairs mem
    have inside := (List.getElem?_eq_some_iff.mp there).1
    exact ⟨item, by rw [List.getElem?_append_left inside, there], same⟩

theorem set_entries {addrs : List AddrItem} {pos : Nat} {old : AddrItem}
    (found : addrs[pos]? = some old) (item : AddrItem) (index : Nat) :
    (addrs.set pos item)[index]? = if index = pos then some item else addrs[index]? := by
  have inside := (List.getElem?_eq_some_iff.mp found).1
  rw [List.getElem?_set]
  by_cases same : pos = index
  · subst same
    simp only [if_true, inside]
  · simp only [if_neg same, if_neg (Ne.symm same)]

inductive Enqueued (q : List Queued) (toAddr : Addr) (useRouter : Bool) (ckey : Nat) :
    Batch × Except Unit BatchKey → Prop
  | refused {b' : Batch} (rep : b'.Represents q) : Enqueued q toAddr useRouter ckey (b', .error ())
  | added {b' : Batch} {key : BatchKey}
    (rep : b'.Represents (q ++ [⟨key, ckey, toAddr, useRouter⟩])) :
      Enqueued q toAddr useRouter ckey (b', .ok key)

section
variable (rep : b.Represents q)
include rep

theorem Represents.append {pos : Nat} {item : AddrItem}
    (ckey : Nat) (found : b.addrs[pos]? = some item) (reachable : b.addrIndex ≤ pos)
    (room : b.nodes.len < b.nodes.capacity) :
    Enqueued q item.addr item.useRouter ckey (b.append pos ckey item) := by
  obtain ⟨b', nkey, eq, valid, vacant, nodes_eq, nodes, index_eq, _, _⟩ :=
    append_spec rep.valid ckey found reachable room
  have addrs_eq : b'.addrs = b.addrs.set pos { item with keys := item.keys ++ [nkey] } := by
    unfold Batch.append at eq
    cases eq
    rfl
  rw [eq]
  refine .added ⟨valid, ?_, ?_, ?_, ?_⟩
  · rw [List.map_append]
    refine List.Nodup.append rep.once (List.nodup_singleton _) ?_
    rw [List.map_singleton, List.disjoint_singleton]
    intro mem
    obtain ⟨e, there, same⟩ := List.mem_map.mp mem
    have filled := rep.nodes there
    rw [same] at filled
    simp only [Queued.nkey, vacant, reduceCtorEq] at filled
  · intro index item' there
    rw [addrs_eq, set_entries found] at there
    by_cases own : index = pos
    · subst own
      rw [if_pos rfl] at there
      cases there
      simp [listOf, rep.lists found, Queued.nkey]
    · rw [if_neg own] at there
      simp [listOf, rep.lists there, Ne.symm own]
  · intro e mem
    rw [addrs_eq, set_entries found]
    rcases List.mem_append.mp mem with old | new
    · obtain ⟨item', there, same⟩ := rep.pairs old
      by_cases own : e.key.addrIndex = pos
      · rw [own, found] at there
        cases there
        rw [if_pos own]
        exact ⟨_, rfl, same⟩
      · rw [if_neg own]
        exact ⟨item', there, same⟩
    · cases List.mem_singleton.mp new
      rw [if_pos rfl]
      exact ⟨_, rfl, rfl, rfl⟩
  · intro e mem
    rw [nodes]
    rcases List.mem_append.mp mem with old | new
    · have filled := rep.nodes old
      have other : e.nkey ≠ nkey := by
        intro same
        rw [same, vacant] at filled
        cases filled
      rw [if_neg other]
      exact filled
    · cases List.mem_singleton.mp new
      exact if_pos rfl

theorem Represents.add (toAddr : Addr) (useRouter : Bool)
    (ckey : Nat) : Enqueued q toAddr useRouter ckey (b.add toAddr useRouter ckey) := by
  unfold Batch.add
  split
  · exact .refused rep
  rename_i not_full
  have clean := rep.startClean
  have room : b.startClean.nodes.len < b.startClean.nodes.capacity := by
    have bound : b.nodes.len ≤ b.nodes.capacity := List.countP_le_length
    rw [(startClean_spec rep.valid).1]
    omega
  generalize b.startClean = b at clean room ⊢
  simp only
  rcases findAddr_spec toAddr useRouter b.addrs 0 b.addrs.length with missing | ⟨i, item, eq, found,
    rfl, rfl⟩
  · rw [missing, List.getElem?_eq_none (Nat.le_refl _)]
    simp only
    split
    · exact .refused clean
    · have last : (b.addrs ++ [(⟨toAddr, useRouter, []⟩ : AddrItem)])[b.addrs.length]? =
          some ⟨toAddr, useRouter, []⟩ := List.getElem?_concat_length
      exact (clean.push toAddr useRouter).append ckey last clean.valid.inside room
  · rw [eq, Nat.zero_add, found]
    simp only
    split
    · exact .refused clean
    · exact clean.append ckey found (by omega) room

theorem Represents.leave {index next : Nat} {item : AddrItem}
    {nodes : Slab Nat} {keys : List Nat} (gone : Queued → Bool)
    (found : b.addrs[index]? = some item)
    (own : ∀ {e}, e ∈ q → gone e = true → e.key.addrIndex = index)
    (valid : Valid ⟨nodes, b.addrs.set index { item with keys }, next⟩)
    (kept : keys = ((listOf q index).filter fun e => !gone e).map Queued.nkey)
    (left : ∀ {e}, e ∈ q → gone e = false → nodes.get? e.nkey = b.nodes.get? e.nkey) :
    Represents ⟨nodes, b.addrs.set index { item with keys }, next⟩ (q.filter fun e => !gone e) := by
  have stays : ∀ {e}, e ∈ q.filter (fun e => !gone e) → e ∈ q ∧ gone e = false := by
    intro e mem
    simpa using List.mem_filter.mp mem
  have swapped : ∀ i, listOf (q.filter fun e => !gone e) i = (listOf q i).filter fun e =>
      !gone e := by
    intro i
    simp only [listOf, List.filter_filter, Bool.and_comm]
  refine ⟨valid, rep.once.sublist (List.filter_sublist.map _), ?_, ?_, ?_⟩
  · intro i item' there
    simp only [set_entries found] at there
    rw [swapped]
    by_cases here : i = index
    · rw [if_pos here] at there
      cases there
      rw [here]
      exact kept
    · rw [if_neg here] at there
      rw [rep.lists there, List.filter_eq_self.mpr]
      intro e listed
      obtain ⟨mem, rfl⟩ := mem_listOf.mp listed
      cases away : gone e with
      | false => rfl
      | true => exact absurd (own mem away) here
  · intro e mem
    obtain ⟨old, _⟩ := stays mem
    obtain ⟨item', there, same⟩ := rep.pairs old
    simp only [set_entries found]
    by_cases here : e.key.addrIndex = index
    · rw [here, found] at there
      cases there
      rw [if_pos here]
      exact ⟨_, rfl, same⟩
    · rw [if_neg here]
      exact ⟨item', there, same⟩
  · intro e mem
    obtain ⟨old, remains⟩ := stays mem
    exact (left old remains).trans (rep.nodes old)

theorem Represents.holds {e : Queued} (mem : e ∈ q) : b.Holds e.key e.ckey e.addr := by
  obtain ⟨item, there, addr, _⟩ := rep.pairs mem
  refine ⟨rep.nodes mem, item, there, ?_, addr⟩
  rw [rep.lists there]
  exact List.mem_map.mpr ⟨e, mem_listOf.mpr ⟨mem, rfl⟩, rfl⟩

theorem Represents.remove {e : Queued} (mem : e ∈ q) :
    ∃ b', b.remove e.key = some b' ∧ b'.Represents (q.filter fun e' => !decide (e' = e)) := by
  obtain ⟨b', eq, valid, _⟩ := remove_spec rep.valid (rep.holds mem)
  have ⟨item, there, _⟩ := rep.pairs mem
  have listed : e.nkey ∈ item.keys := by
    rw [rep.lists there]
    exact List.mem_map.mpr ⟨e, mem_listOf.mpr ⟨mem, rfl⟩, rfl⟩
  have after : b' = ⟨b.nodes.remove e.nkey,
      b.addrs.set e.key.addrIndex { item with keys := item.keys.erase e.nkey }, b.addrIndex⟩ := by
    have filled := rep.nodes mem
    simp only [Queued.nkey] at filled listed
    simp only [Batch.remove, there, filled, listed, Option.bind_eq_bind, Option.bind_some,
      if_true] at eq
    cases eq
    rfl
  refine ⟨b', eq, ?_⟩
  subst after
  refine rep.leave _ there ?_ valid ?_ ?_
  · intro e' _ same
    rw [of_decide_eq_true same]
  · have distinct := rep.valid.distinct there
    rw [distinct.erase_eq_filter, rep.lists there, List.filter_map]
    congr 1
    refine List.filter_congr ?_
    intro e' listed'
    have old := (mem_listOf.mp listed').1
    by_cases same : e' = e
    · simp [same]
    · have other : e'.nkey ≠ e.nkey := fun keys => same (rep.key_inj old mem keys)
      simp [same, other]
  · intro e' old remains
    rw [Slab.get?_remove, if_neg]
    intro keys
    have same := rep.key_inj old mem keys
    rw [decide_eq_true same] at remains
    cases remains

end

def chosen (f : Nat → Option PacketId) (taken : List Queued) : List Queued :=
  taken.filter fun e => (f e.ckey).isSome

def idsFor (f : Nat → Option PacketId) (taken : List Queued) : List PacketId :=
  taken.filterMap fun e => f e.ckey

def removedFor (f : Nat → Option PacketId) (taken : List Queued) : List (Nat × Bool) :=
  taken.map fun e => (e.ckey, (f e.ckey).isSome)

theorem idsFor_length (f : Nat → Option PacketId) (taken : List Queued) :
    (idsFor f taken).length = (chosen f taken).length := by
  induction taken with
  | nil => rfl
  | cons e taken ih =>
    unfold idsFor chosen at ih ⊢
    cases answer : f e.ckey with
    | none => simpa [answer] using ih
    | some pid => simpa [answer] using ih

theorem takeKeys_bound {include_ : Nat → Option (Option PacketId)} {keys : List Nat}
    {nodes : Slab Nat} {ids : List PacketId} {removed : List (Nat × Bool)}
    (few : ids.length ≤ idsMax) {rest : List Nat}
    {nodes' : Slab Nat} {ids' : List PacketId} {removed' : List (Nat × Bool)}
    (ran : takeKeys include_ keys nodes ids removed = some (rest, nodes', ids', removed')) :
    ids'.length ≤ idsMax := by
  induction keys generalizing nodes ids removed with
  | nil =>
    cases ran
    exact few
  | cons nkey keys ih =>
    unfold takeKeys at ran
    split at ran
    · rename_i room
      obtain ⟨ckey, _, ran⟩ := Option.bind_eq_some_iff.mp ran
      obtain ⟨found, _, ran⟩ := Option.bind_eq_some_iff.mp ran
      refine ih ?_ ran
      rw [List.length_append]
      have : found.toList.length ≤ 1 := by cases found <;> simp
      omega
    · cases ran
      exact few

theorem Represents.takeKeys (rep : b.Represents q) (f : Nat → Option PacketId)
    {item : AddrItem} (found : b.addrs[b.addrIndex]? = some item) (removed : List (Nat × Bool)) :
    ∃ rest nodes taken, Batch.takeKeys (fun k => some (f k)) item.keys b.nodes [] removed =
        some (rest, nodes, idsFor f taken, removed ++ removedFor f taken) ∧
      Represents { b with nodes, addrs := b.addrs.set b.addrIndex { item with keys := rest } }
        (q.filter fun e => !decide (e ∈ taken)) ∧
      taken <+: listOf q b.addrIndex ∧ (chosen f taken).length ≤ idsMax ∧
      (rest = [] ∨ chosen f taken ≠ []) := by
  have filled : ∀ k ∈ item.keys, ∃ c reply, b.nodes.get? k = some c ∧ some (f c) = some reply := by
    intro k mem
    obtain ⟨c, value⟩ := rep.valid.filled ⟨item, found, mem⟩
    exact ⟨c, f c, value, rfl⟩
  obtain ⟨rest, nodes, _, eq, took, _, _⟩ :=
    @takeKeys_took (fun k => some (f k)) b rep.valid item found (fun _ => ⟨_, rfl⟩) removed
  obtain ⟨pairs, _, _, split, eq', _, values, left, stop⟩ :=
    takeKeys_spec item.keys b.nodes [] removed (rep.valid.distinct found) filled
  rw [eq] at eq'
  obtain ⟨rfl, rfl, ids_eq, removed_eq⟩ : _ ∧ _ ∧ _ ∧ _ := by
    simpa only [Option.some.injEq, Prod.mk.injEq] using eq'
  rw [rep.lists found] at split
  obtain ⟨taken, behind, cut, front, back⟩ := List.map_eq_append_iff.mp split
  have from_list : ∀ {e}, e ∈ taken → e ∈ q ∧ e.key.addrIndex = b.addrIndex := by
    intro e mem
    refine mem_listOf.mp ?_
    rw [cut]
    exact List.mem_append_left _ mem
  -- the nodes of the entries hold their connections
  have ckeys : pairs.map Prod.snd = taken.map Queued.ckey := by
    refine List.map_injective_iff.mpr (Option.some_injective Nat) ?_
    calc (pairs.map Prod.snd).map some = (pairs.map Prod.fst).map b.nodes.get? := by
          rw [List.map_map, List.map_map]
          refine List.map_congr_left ?_
          intro pair mem
          exact (values pair mem).symm
      _ = (taken.map Queued.ckey).map some := by
          rw [← front, List.map_map, List.map_map]
          refine List.map_congr_left ?_
          intro e mem
          exact rep.nodes (from_list mem).1
  have ids_for : idsOf (fun k => some (f k)) (pairs.map Prod.snd) = idsFor f taken := by
    rw [ckeys, idsOf, List.filterMap_map]
    rfl
  have removed_for : removedOf (fun k => some (f k)) (pairs.map Prod.snd) = removedFor f taken := by
    rw [ckeys, removedOf, List.map_map]
    rfl
  rw [List.nil_append, ids_for] at ids_eq stop
  rw [removed_for] at removed_eq
  rw [ids_eq, removed_eq] at eq
  have few := takeKeys_bound (Nat.zero_le _) eq
  rw [idsFor_length] at few
  have distinct : (taken ++ behind).Nodup := cut ▸ rep.nodup.filter _
  refine ⟨rest, nodes, taken, eq, ?_, ⟨behind, cut.symm⟩, few, ?_⟩
  · refine rep.leave (fun e => decide (e ∈ taken)) found ?_ took.valid ?_ ?_
    · intro e _ mem
      exact (from_list (of_decide_eq_true mem)).2
    · rw [cut, List.filter_append, List.filter_eq_nil_iff.mpr, List.filter_eq_self.mpr,
        List.nil_append, back]
      · intro e mem
        have apart := List.disjoint_of_nodup_append distinct
        simp only [Bool.not_eq_true', decide_eq_false_iff_not]
        exact fun early => apart early mem
      · intro e mem
        simp [mem]
    · intro e old remains
      rw [left, if_neg]
      rw [← front]
      intro mem
      obtain ⟨e', early, same⟩ := List.mem_map.mp mem
      have entry := rep.key_inj (from_list early).1 old same
      subst entry
      simp [early] at remains
  · rcases stop with empty | long
    · exact Or.inl empty
    · right
      intro none_chosen
      rw [idsFor_length, none_chosen] at long
      exact absurd long (by decide)

theorem Represents.skip {b : Batch} {q : List Queued} (rep : b.Represents q) :
    b.skip.Represents q :=
  ⟨(skip_took rep.valid).valid, rep.once, rep.lists, rep.pairs, rep.nodes⟩

structure Taken (f : Nat → Option PacketId) (q taken : List Queued) : Prop where
  once : taken.Nodup
  queued : ∀ {e}, e ∈ taken → e ∈ q
  ordered : (chosen f taken).Sublist q
  few : (chosen f taken).length ≤ idsMax

theorem Represents.groupLoop (f : Nat → Option PacketId) (rounds : Nat)
    (rep : b.Represents q) (removed : List (Nat × Bool))
    (enough : b.addrs.length < skipEmpty b.addrs b.addrIndex + rounds) :
    ∃ b' taken, Batch.groupLoop (fun k => some (f k)) rounds b [] removed =
        some (b', idsFor f taken, removed ++ removedFor f taken) ∧
      b'.Represents (q.filter fun e => !decide (e ∈ taken)) ∧ Taken f q taken ∧
      (chosen f taken = [] → (q.filter fun e => !decide (e ∈ taken)) = []) ∧
      (chosen f taken ≠ [] → ∃ item, b'.addrs[b'.addrIndex]? = some item ∧
        ∀ e ∈ chosen f taken, e.addr = item.addr ∧ e.useRouter = item.useRouter) := by
  induction rounds generalizing b q removed with
  | zero =>
    obtain ⟨_, bound, _⟩ := skipEmpty_spec rep.valid.inside
    omega
  | succ rounds ih =>
    have skipped := rep.skip
    simp only [Batch.groupLoop, ne_eq, not_true_eq_false, if_false]
    have enough' : b.skip.addrs.length < b.skip.addrIndex + (rounds + 1) := enough
    generalize b.skip = c at skipped enough' ⊢
    cases found : c.addrs[c.addrIndex]? with
    | none =>
      have empty := nothing_left skipped.valid found
      have nobody := skipped.empty_iff.mp empty
      subst nobody
      simp only [empty, if_true]
      refine ⟨c, [], by simp [idsFor, removedFor], skipped,
        ⟨List.nodup_nil, ?_, List.Sublist.refl _, ?_⟩,
        fun _ => rfl, fun some_chosen => absurd rfl some_chosen⟩
      · intro e mem
        cases mem
      · exact Nat.zero_le _
    | some item =>
      obtain ⟨rest, nodes, taken, eq, rep', front, few, stop⟩ := skipped.takeKeys f found removed
      simp only [eq, Option.bind_eq_bind, Option.bind_some]
      have from_list : ∀ {e}, e ∈ taken → e ∈ q ∧ e.key.addrIndex = c.addrIndex :=
        fun mem => mem_listOf.mp (front.subset mem)
      have some_of : Taken f q taken := by
        refine ⟨(skipped.nodup.filter _).sublist front.sublist, fun mem => (from_list mem).1,
          ?_, few⟩
        exact List.filter_sublist.trans (front.sublist.trans List.filter_sublist)
      have inside := (List.getElem?_eq_some_iff.mp found).1
      have here : (c.addrs.set c.addrIndex { item with keys := rest })[c.addrIndex]? =
          some { item with keys := rest } := List.getElem?_set_self inside
      generalize after : ({ c with
        nodes, addrs := c.addrs.set c.addrIndex { item with keys := rest } } : Batch) = d at rep'
      have index_eq : c.addrIndex = d.addrIndex := by rw [← after]
      have addrs_eq : c.addrs.set c.addrIndex { item with keys := rest } = d.addrs := by
        rw [← after]
      by_cases none_chosen : chosen f taken = []
      · -- Everything at this address was left out, so the loop goes on behind it.
        have emptied : rest = [] := stop.resolve_right fun some_chosen => some_chosen none_chosen
        have no_ids : idsFor f taken = [] := by
          rw [← List.length_eq_zero_iff, idsFor_length, none_chosen]
          rfl
        have length_eq : d.addrs.length = c.addrs.length := by rw [← addrs_eq, List.length_set]
        have further : c.addrIndex < skipEmpty d.addrs d.addrIndex := by
          obtain ⟨forward, _, _, filled⟩ := skipEmpty_spec rep'.valid.inside
          rcases Nat.lt_or_ge c.addrIndex (skipEmpty d.addrs d.addrIndex) with more | stuck
          · exact more
          · have same : skipEmpty d.addrs d.addrIndex = c.addrIndex := by omega
            rw [same, ← addrs_eq, here] at filled
            exact absurd emptied (filled rfl)
        obtain ⟨b', later, eq', rep'', later_of, past, addressed⟩ :=
          ih rep' (removed ++ removedFor f taken) (by omega)
        have chosen_eq : chosen f (taken ++ later) = chosen f later := by
          rw [chosen, List.filter_append]
          exact (congrArg (· ++ chosen f later) none_chosen).trans (List.nil_append _)
        have left_eq : (q.filter fun e => !decide (e ∈ taken ++ later)) =
            (q.filter fun e => !decide (e ∈ taken)).filter fun e => !decide (e ∈ later) := by
          rw [List.filter_filter]
          refine List.filter_congr ?_
          intro e _
          by_cases early : e ∈ taken <;> by_cases late : e ∈ later <;> simp [early, late]
        refine ⟨b', taken ++ later, ?_, ?_, ⟨?_, ?_, ?_, ?_⟩, ?_, ?_⟩
        · rw [no_ids, eq']
          have ids_eq : idsFor f (taken ++ later) = idsFor f later := by
            rw [idsFor, List.filterMap_append]
            exact (congrArg (· ++ idsFor f later) no_ids).trans (List.nil_append _)
          rw [ids_eq, List.append_assoc, removedFor, removedFor, removedFor, List.map_append]
        · rw [left_eq]
          exact rep''
        · refine List.Nodup.append some_of.once later_of.once ?_
          intro e early late
          have remains := (List.mem_filter.mp (later_of.queued late)).2
          simp [early] at remains
        · intro e mem
          rcases List.mem_append.mp mem with early | late
          · exact some_of.queued early
          · exact (List.mem_filter.mp (later_of.queued late)).1
        · rw [chosen_eq]
          exact later_of.ordered.trans List.filter_sublist
        · rw [chosen_eq]
          exact later_of.few
        · rw [chosen_eq, left_eq]
          exact past
        · rw [chosen_eq]
          exact addressed
      · obtain ⟨more, rfl⟩ : ∃ more, rounds = more + 1 := by
          refine ⟨rounds - 1, ?_⟩
          omega
        have some_ids : idsFor f taken ≠ [] := by
          intro no_ids
          have length := idsFor_length f taken
          rw [no_ids] at length
          exact none_chosen (List.length_eq_zero_iff.mp length.symm)
        refine ⟨d, taken, ?_, rep', some_of, fun empty => absurd empty none_chosen, ?_⟩
        · simp only [Batch.groupLoop, ne_eq, some_ids, not_false_eq_true, if_true]
        · intro _
          refine ⟨{ item with keys := rest }, by rw [← index_eq, ← addrs_eq, here], ?_⟩
          intro e mem
          obtain ⟨old, index⟩ := from_list (List.mem_filter.mp mem).1
          obtain ⟨item', there, addr, router⟩ := skipped.pairs old
          rw [index, found] at there
          cases there
          exact ⟨addr.symm, router.symm⟩

/-- A group: some entries of the queue, of which the chosen ones are in the
    packet, in the order of the queue and all with the address of the group. -/
structure Grouped (f : Nat → Option PacketId) (q : List Queued) (group : BatchGroup)
    (taken : List Queued) : Prop where
  part : Taken f q taken
  filled : taken ≠ []
  removed : group.removed = removedFor f taken
  ids : group.ids = idsFor f taken
  addressed : ∀ e ∈ chosen f taken, e.addr = group.addr ∧ e.useRouter = group.useRouter

theorem Represents.takeGroup (rep : b.Represents q) (f : Nat → Option PacketId) :
    ∃ b' reply, b.takeGroup (fun k => some (f k)) = some (b', reply) ∧
      match reply with
      | none => q = [] ∧ b'.Represents []
      | some group => ∃ taken, Grouped f q group taken ∧
          b'.Represents (q.filter fun e => !decide (e ∈ taken)) := by
  obtain ⟨b', taken, eq, rep', part, past, addressed⟩ :=
    rep.groupLoop f (b.addrs.length + 2) [] (by omega)
  simp only [Batch.takeGroup, eq, Option.bind_eq_bind, Option.bind_some, List.nil_append]
  by_cases none_taken : taken = []
  · subst none_taken
    have empty := past rfl
    simp only [List.not_mem_nil, decide_false, Bool.not_false, List.filter_true] at empty rep'
    subst empty
    exact ⟨b', none, rfl, rfl, rep'⟩
  · have some_removed : removedFor f taken ≠ [] := by
      simpa [removedFor] using none_taken
    rw [if_neg some_removed]
    by_cases no_ids : idsFor f taken = []
    · rw [if_pos no_ids]
      refine ⟨b', _, rfl, taken, ⟨part, none_taken, rfl, rfl, ?_⟩, rep'⟩
      intro e mem
      have length := idsFor_length f taken
      rw [no_ids] at length
      rw [List.length_eq_zero_iff.mp length.symm] at mem
      cases mem
    · rw [if_neg no_ids]
      have some_chosen : chosen f taken ≠ [] := by
        intro none_chosen
        have length := idsFor_length f taken
        rw [none_chosen] at length
        exact no_ids (List.length_eq_zero_iff.mp length)
      obtain ⟨item, there, same⟩ := addressed some_chosen
      simp only [there, Option.bind_some]
      exact ⟨b', _, rfl, taken, ⟨part, none_taken, rfl, rfl, same⟩, rep'⟩

end Batch

inductive BatchEvent
  | add (toAddr : Addr) (useRouter : Bool) (ckey : Nat)
  | remove (key : BatchKey)
  | takeGroup (f : Nat → Option PacketId)
  | clear

inductive BatchOut
  | added (reply : Except Unit BatchKey)
  | removed
  | group (reply : Option BatchGroup)
  | cleared
  deriving DecidableEq

namespace Batch

def step (s : Batch × List BatchOut) : BatchEvent → Option (Batch × List BatchOut)
  | .add toAddr useRouter ckey =>
    let (b, reply) := s.1.add toAddr useRouter ckey
    some (b, s.2 ++ [.added reply])
  | .remove key => (s.1.remove key).map fun b => (b, s.2 ++ [.removed])
  | .takeGroup f => (s.1.takeGroup fun k => some (f k)).map fun (b, reply) =>
      (b, s.2 ++ [.group reply])
  | .clear => some (s.1.clear, s.2 ++ [.cleared])

def live (b : Batch) (key : BatchKey) : Bool :=
  match b.addrs[key.addrIndex]? with
  | some item => item.keys.contains key.nkey
  | none => false

def allowed (s : Batch × List BatchOut) : BatchEvent → Bool
  | .remove key => s.1.live key
  | _ => true

theorem Represents.live_iff {b : Batch} {q : List Queued} (rep : b.Represents q) {key : BatchKey}
    (there : b.live key = true) : ∃ e ∈ q, e.key = key := by
  unfold Batch.live at there
  split at there
  · rename_i item found
    rw [List.contains_iff_mem, rep.lists found] at there
    obtain ⟨e, listed, same⟩ := List.mem_map.mp there
    obtain ⟨mem, index⟩ := mem_listOf.mp listed
    refine ⟨e, mem, ?_⟩
    obtain ⟨⟨addrIndex, nkey⟩, ckey, addr, useRouter⟩ := e
    obtain ⟨addrIndex', nkey'⟩ := key
    simp only [Queued.nkey] at same index
    simp only [same, index]
  · cases there

end Batch

/-- The queue with an account of the connections: those that were added, those
    that were reported as they left, and those that were dropped by `clear`. -/
structure Book where
  queue : List Queued
  added : List Nat
  reported : List Nat
  dropped : List Nat

namespace Book

def blank : Book := ⟨[], [], [], []⟩

inductive Step : Book → BatchEvent → BatchOut → Book → Prop
  | refused {k : Book} {toAddr : Addr} {useRouter : Bool} {ckey : Nat} :
      Step k (.add toAddr useRouter ckey) (.added (.error ())) k
  | added {k : Book} {toAddr : Addr} {useRouter : Bool} {ckey : Nat} {key : BatchKey}
      (fresh : ∀ e ∈ k.queue, e.key ≠ key) :
      Step k (.add toAddr useRouter ckey) (.added (.ok key))
        { k with queue := k.queue ++ [⟨key, ckey, toAddr, useRouter⟩], added := k.added ++ [ckey] }
  | removed {k : Book} {e : Queued} (there : e ∈ k.queue) :
      Step k (.remove e.key) .removed
        { k with
          queue := k.queue.filter fun e' => !decide (e' = e), reported := k.reported ++ [e.ckey] }
  | empty {k : Book} {f : Nat → Option PacketId} (nobody : k.queue = []) :
      Step k (.takeGroup f) (.group none) k
  | grouped {k : Book} {f : Nat → Option PacketId} {group : BatchGroup} {taken : List Queued}
      (grouped : Batch.Grouped f k.queue group taken) :
      Step k (.takeGroup f) (.group (some group))
        { k with
          queue := k.queue.filter fun e => !decide (e ∈ taken)
          reported := k.reported ++ group.removed.map Prod.fst }
  | cleared {k : Book} : Step k .clear .cleared
      { k with queue := [], dropped := k.dropped ++ k.queue.map Queued.ckey }

inductive Run : Book → List BatchEvent → List BatchOut → Book → Prop
  | nil {k : Book} : Run k [] [] k
  | snoc {k k' k'' : Book} {events : List BatchEvent} {outs : List BatchOut} {event : BatchEvent}
      {out : BatchOut} (before : Run k events outs k') (last : Step k' event out k'') :
      Run k (events ++ [event]) (outs ++ [out]) k''

def Balanced (k : Book) : Prop :=
  k.added.Perm (k.queue.map Queued.ckey ++ (k.reported ++ k.dropped))

theorem perm_of_taken {q taken : List Queued} (distinct : q.Nodup) (once : taken.Nodup)
    (queued : ∀ {e}, e ∈ taken → e ∈ q) :
    q.Perm ((q.filter fun e => !decide (e ∈ taken)) ++ taken) := by
  have inside : (q.filter fun e => decide (e ∈ taken)).Perm taken := by
    refine (List.perm_ext_iff_of_nodup (distinct.filter _) once).mpr ?_
    intro e
    simp only [List.mem_filter, decide_eq_true_eq]
    exact ⟨fun both => both.2, fun mem => ⟨queued mem, mem⟩⟩
  have halves := List.filter_append_perm (fun e => !decide (e ∈ taken)) q
  simp only [Bool.not_not] at halves
  exact halves.symm.trans (List.Perm.append_left _ inside)

theorem Step.balanced {k k' : Book} {event : BatchEvent} {out : BatchOut}
    (stepped : Step k event out k') (distinct : k.queue.Nodup) (balanced : k.Balanced) :
    k'.Balanced := by
  unfold Balanced at balanced ⊢
  -- the connections of some entries move from the queue to the reports
  have moves : ∀ {taken : List Queued}, taken.Nodup → (∀ {e}, e ∈ taken → e ∈ k.queue) →
      k.added.Perm ((k.queue.filter fun e => !decide (e ∈ taken)).map Queued.ckey ++
        ((k.reported ++ taken.map Queued.ckey) ++ k.dropped)) := by
    intro taken once queued
    have split := (perm_of_taken distinct once queued).map Queued.ckey
    rw [List.map_append] at split
    refine balanced.trans ((split.append_right _).trans ?_)
    rw [List.append_assoc, List.append_assoc]
    exact List.Perm.append_left _ (List.perm_append_comm_assoc _ _ _)
  cases stepped with
  | refused => exact balanced
  | empty _ => exact balanced
  | @added _ _ ckey key fresh =>
    simp only [List.map_append, List.map_singleton, List.append_assoc]
    refine (balanced.append_right [ckey]).trans ?_
    rw [List.append_assoc]
    exact List.Perm.append_left _ List.perm_append_comm
  | @removed e there =>
    have one := moves (List.nodup_singleton e) (by
      intro e' mem
      rw [List.mem_singleton.mp mem]
      exact there)
    simpa using one
  | @grouped f group taken grouped =>
    have all := moves grouped.part.once grouped.part.queued
    have keys : group.removed.map Prod.fst = taken.map Queued.ckey := by
      rw [grouped.removed, Batch.removedFor, List.map_map]
      rfl
    rw [keys]
    exact all
  | cleared =>
    simp only [List.map_nil, List.nil_append]
    refine balanced.trans (List.perm_append_comm.trans ?_)
    rw [List.append_assoc]

end Book

namespace Batch

theorem step_book {b : Batch} {outs : List BatchOut} {k : Book} (rep : b.Represents k.queue)
    (event : BatchEvent) (ok : allowed (b, outs) event = true) :
    ∃ b' out k', step (b, outs) event = some (b', outs ++ [out]) ∧ Book.Step k event out k' ∧
      b'.Represents k'.queue := by
  cases event with
  | add toAddr useRouter ckey =>
    have enqueued := rep.add toAddr useRouter ckey
    simp only [step]
    generalize b.add toAddr useRouter ckey = reply at enqueued ⊢
    cases enqueued with
    | refused rep' => exact ⟨_, _, k, rfl, .refused, rep'⟩
    | @added b' key rep' =>
      refine ⟨b', _, _, rfl, .added ?_, rep'⟩
      intro e mem same
      have once := rep'.nodup
      have keys := rep'.key_inj (List.mem_append_left _ mem)
        (List.mem_append_right _ (List.mem_singleton.mpr rfl)) (congrArg BatchKey.nkey same)
      rw [keys] at mem
      exact List.disjoint_of_nodup_append once mem (List.mem_singleton.mpr rfl)
  | remove key =>
    obtain ⟨e, mem, rfl⟩ := rep.live_iff ok
    obtain ⟨b', eq, rep'⟩ := rep.remove mem
    exact ⟨b', .removed, _, by simp only [step, eq, Option.map_some], .removed mem, rep'⟩
  | takeGroup f =>
    obtain ⟨b', reply, eq, result⟩ := rep.takeGroup f
    simp only [step, eq, Option.map_some]
    cases reply with
    | none =>
      obtain ⟨nobody, rep'⟩ := result
      refine ⟨b', _, k, rfl, .empty nobody, ?_⟩
      rw [nobody]
      exact rep'
    | some group =>
      obtain ⟨taken, grouped, rep'⟩ := result
      exact ⟨b', _, _, rfl, .grouped grouped, rep'⟩
  | clear =>
    refine ⟨b.clear, _, _, rfl, .cleared, ?_⟩
    exact represents_of_empty rfl rfl fun key => Slab.get?_withCapacity b.capacity key

theorem run_book (capacity : Nat) (events : List BatchEvent)
    (possible : along step allowed (new capacity, []) events = true) :
    ∃ b outs k, run step (new capacity, []) events = some (b, outs) ∧
      Book.Run .blank events outs k ∧ b.Represents k.queue ∧ k.Balanced := by
  induction events using List.reverseRecOn with
  | nil =>
    refine ⟨new capacity, [], .blank, rfl, .nil, ?_, List.Perm.refl _⟩
    exact represents_of_empty rfl rfl fun key => Slab.get?_withCapacity capacity key
  | append_singleton events event ih =>
    obtain ⟨b, outs, k, ran, book, rep, balanced⟩ := ih (along_front possible)
    rw [along_append ran] at possible
    simp only [along, Bool.and_eq_true] at possible
    obtain ⟨b', out, k', stepped, noted, rep'⟩ := step_book rep event possible.2.1
    refine ⟨b', outs ++ [out], k', ?_, .snoc book noted, rep', noted.balanced rep.nodup balanced⟩
    simp only [run_append, ran, Option.bind_some, run, stepped]

/-- Every run of a batch is a run of the queue: whoever was added is still
    queued, was reported once or was dropped by `clear`. From the state it
    leads to `take_group` replies, with `None` exactly if the batch is empty. -/
theorem batch_is_a_grouped_queue (capacity : Nat) (events : List BatchEvent)
    (possible : along step allowed (new capacity, []) events = true) :
    ∃ b outs k, run step (new capacity, []) events = some (b, outs) ∧
      Book.Run .blank events outs k ∧ k.Balanced ∧ (b.isEmpty = true ↔ k.queue = []) ∧
      ∀ f : Nat → Option PacketId, ∃ b' reply, b.takeGroup (fun ckey => some (f ckey)) =
        some (b', reply) ∧ (reply = none ↔ b.isEmpty = true) ∧ (reply ≠ none → b'.len < b.len) := by
  obtain ⟨b, outs, k, ran, book, rep, balanced⟩ := run_book capacity events possible
  refine ⟨b, outs, k, ran, book, balanced, rep.empty_iff, ?_⟩
  intro f
  obtain ⟨b', reply, eq, result⟩ := rep.takeGroup f
  refine ⟨b', reply, eq, ?_, ?_⟩
  · rw [show b.isEmpty = b.nodes.isEmpty from rfl, rep.empty_iff]
    cases reply with
    | none => exact ⟨fun _ => result.1, fun _ => rfl⟩
    | some group =>
      obtain ⟨taken, grouped, _⟩ := result
      constructor
      · intro absent
        cases absent
      · intro nobody
        obtain ⟨e, mem⟩ := List.exists_mem_of_ne_nil taken grouped.filled
        have queued := grouped.part.queued mem
        rw [nobody] at queued
        cases queued
  · intro replied
    obtain ⟨b'', reply', eq', result'⟩ :=
      @takeGroup_spec (fun ckey => some (f ckey)) b rep.valid (fun _ => ⟨_, rfl⟩)
    rw [eq] at eq'
    cases eq'
    cases reply with
    | none => exact absurd rfl replied
    | some group =>
      obtain ⟨taken, grouped⟩ := result'
      exact grouped.took.len_lt rep.valid grouped.some_taken

def nearPeer : Addr := Addr.single 97
def farPeer : Addr := Addr.single 98

def drainEvents : List BatchEvent :=
  [.add nearPeer false 7, .add nearPeer false 8, .add farPeer true 9, .add farPeer true 7,
    .remove ⟨1, 2⟩, .takeGroup fun ckey => if ckey = 8 then none else some ⟨[49], 5⟩,
    .takeGroup fun ckey => if ckey = 8 then none else some ⟨[49], 5⟩]

theorem drained_batch_is_empty :
    along step allowed (new 4, []) drainEvents = true ∧
      (run step (new 4, []) drainEvents).map (fun s => s.2.drop 4) =
        some [.removed, .group (some ⟨nearPeer, false, [(7, true), (8, false)], [⟨[49], 5⟩]⟩),
          .group (some ⟨farPeer, true, [(7, true)], [⟨[49], 5⟩]⟩)] ∧
      ∃ b outs k, run step (new 4, []) drainEvents = some (b, outs) ∧
        Book.Run .blank drainEvents outs k ∧ k.Balanced ∧ (b.isEmpty = true ↔ k.queue = []) ∧
        ∀ f : Nat → Option PacketId, ∃ b' reply, b.takeGroup (fun ckey => some (f ckey)) =
          some (b', reply) ∧ (reply = none ↔ b.isEmpty = true) ∧ (reply ≠ none → b'.len < b.len) :=
  ⟨by decide, by decide, batch_is_a_grouped_queue 4 drainEvents (by decide)⟩

/-- A cleared connection is not reported by any group, and removing it with its
    key panics. -/
theorem cleared_connection_is_not_reported :
    run step (new 4, []) [.add nearPeer false 7, .clear, .takeGroup fun _ => none] =
        some (new 4, [.added (.ok ⟨0, 0⟩), .cleared, .group none]) ∧
      run step (new 4, []) [.add nearPeer false 7, .clear, .remove ⟨0, 0⟩] = none := by
  decide

end Batch
end PushpinConnmgr
