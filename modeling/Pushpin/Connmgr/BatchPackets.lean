import Pushpin.Foundations.Runs
import Pushpin.Connmgr.Connections

/-!
Batched packets and the peers of their sessions. The events are the calls that
the tasks of a worker make between two awaits, in any order. The address of a
packet was taken when the connection joined the batch.
-/
namespace PushpinConnmgr
open PushpinRingBuffer Slabs Runs
open Option (bind_eq_bind bind_some isSome_iff_exists map_some)
namespace ConnectionItems

section Send
variable {side : Side} {fits : Addr → StreamSharedData → Prop} {stopping : Bool}
  {items : ConnectionItems}

theorem includeIn_joined {ckey : Nat} {ci : ConnectionItem} {key : BatchKey} {addr : Addr}
    (found : items.nodes.get? ckey = some ci) (joined : Joined fits ci key addr) :
    ∃ reply, includeIn items.nodes ckey = some reply := by
  obtain ⟨shared, streams, _⟩ := joined.shared
  obtain ⟨id, named⟩ := isSome_iff_exists.mp joined.named
  simp only [includeIn, found, streams, named, bind_eq_bind, bind_some]
  cases shared.toAddr with
  | none => exact ⟨none, rfl⟩
  | some peer => exact ⟨some ⟨id, shared.outSeq⟩, rfl⟩

theorem includeIn_some {nodes : Slab ConnectionItem} {ckey : Nat} {pid : PacketId}
    (included : (includeIn nodes ckey).join = some pid) :
    ∃ ci shared peer id, nodes.get? ckey = some ci ∧ ci.shared = some shared ∧
      shared.toAddr = some peer ∧ ci.id = some id ∧ pid = ⟨id, shared.outSeq⟩ := by
  unfold includeIn at included
  cases found : nodes.get? ckey with
  | none =>
    rw [found] at included
    cases included
  | some ci =>
    cases streams : ci.shared with
    | none =>
      simp only [found, streams, bind_eq_bind, bind_some,
        Option.bind_none] at included
      cases included
    | some shared =>
      simp only [found, streams, bind_eq_bind, bind_some] at included
      cases known : shared.toAddr with
      | none =>
        rw [known] at included
        cases included
      | some peer =>
        cases named : ci.id with
        | none =>
          simp only [known, named, Option.bind_none] at included
          cases included
        | some id =>
          simp only [known, named, bind_some] at included
          cases included
          exact ⟨ci, shared, peer, id, rfl, streams, known, named, rfl⟩

structure Sent (fits : Addr → StreamSharedData → Prop) (items items' : ConnectionItems)
    (group : BatchGroup) : Prop where
  each : ∀ {ckey}, (ckey, true) ∈ group.removed → ∃ ci shared peer id,
    items.nodes.get? ckey = some ci ∧ ci.shared = some shared ∧ shared.toAddr = some peer ∧
    fits group.addr shared ∧ ci.id = some id ∧ ⟨id, shared.outSeq⟩ ∈ group.ids ∧
    items'.nodes.get? ckey = some ⟨some id, some shared.incOutSeq, none⟩
  others : ∀ {ckey}, (ckey, true) ∉ group.removed →
    (items'.nodes.get? ckey).bind clearKey = (items.nodes.get? ckey).bind clearKey

theorem clear_spec (valid : items.Valid side fits stopping) {batch : Batch} {group : BatchGroup}
    {taken : List (BatchKey × Nat)}
    (grouped : items.batch.Group (includeIn items.nodes) batch group taken) :
    ∃ nodes, changeAll clearKey (group.removed.map Prod.fst) items.nodes = some nodes ∧
      Valid side fits stopping ⟨nodes, batch⟩ ∧ nodes.capacity = items.nodes.capacity ∧
      (∀ k, (nodes.get? k).bind clearKey = (items.nodes.get? k).bind clearKey) ∧
      (taken.map Prod.snd).Nodup ∧
      ∀ k ∈ taken.map Prod.snd, nodes.get? k = (items.nodes.get? k).bind clearKey := by
  have keyed : ∀ {key ckey}, (key, ckey) ∈ taken →
      ∃ ci, items.nodes.get? ckey = some ci ∧ ci.batchKey = some key := by
    intro key ckey mem
    obtain ⟨addr, held⟩ := grouped.took.held mem
    obtain ⟨ci, found, joined⟩ := valid.joined held
    exact ⟨ci, found, joined.keyed⟩
  have distinct : (taken.map Prod.snd).Nodup := by
    -- the batch key of a connection tells its node
    have back : taken.map Prod.fst = (taken.map Prod.snd).map fun ckey =>
        (((items.nodes.get? ckey).bind ConnectionItem.batchKey).getD ⟨0, 0⟩) := by
      rw [List.map_map]
      refine List.map_congr_left ?_
      rintro ⟨key, ckey⟩ mem
      obtain ⟨ci, found, eq⟩ := keyed mem
      simp only [Function.comp_apply, found, bind_some, eq, Option.getD_some]
    have once := grouped.took.once
    rw [back] at once
    exact List.Nodup.of_map _ once
  have keys_eq : group.removed.map Prod.fst = taken.map Prod.snd := by
    rw [grouped.removed, Batch.removedOf, List.map_map]
    exact List.map_id' _
  have present : ∀ k ∈ taken.map Prod.snd, ∃ ci ci', items.nodes.get? k = some ci ∧
      clearKey ci = some ci' := by
    intro k mem
    obtain ⟨⟨key, _⟩, there, rfl⟩ := List.mem_map.mp mem
    obtain ⟨ci, found, _⟩ := keyed there
    exact ⟨ci, _, found, rfl⟩
  obtain ⟨nodes, eq, size, values⟩ :=
    changeAll_spec (taken.map Prod.snd) items.nodes distinct present
  have same : ∀ k, (nodes.get? k).bind clearKey = (items.nodes.get? k).bind clearKey := by
    intro k
    rw [values]
    split
    · cases items.nodes.get? k <;> rfl
    · rfl
  have apart : ∀ {key ckey addr}, batch.Holds key ckey addr → ckey ∉ taken.map Prod.snd := by
    intro key ckey addr held mem
    obtain ⟨⟨key', _⟩, there, rfl⟩ := List.mem_map.mp mem
    obtain ⟨before, stays⟩ := (grouped.took.left _ _ _).mp held
    obtain ⟨ci, found, eq⟩ := keyed there
    have own := (valid.own found before).keyed
    rw [eq] at own
    cases own
    exact stays (List.mem_map.mpr ⟨_, there, rfl⟩)
  refine ⟨nodes, by rw [keys_eq, eq], ⟨grouped.took.valid, ?_, ?_, ?_⟩, size, same, distinct, ?_⟩
  · intro key ckey addr held
    rw [values, if_neg (apart held)]
    exact valid.joined ((grouped.took.left _ _ _).mp held).1
  · intro running ckey ci key found eq
    simp only [values] at found
    split at found
    · obtain ⟨old, _, cleared⟩ := Option.bind_eq_some_iff.mp found
      cases cleared
      cases eq
    · rename_i not_taken
      obtain ⟨addr, held⟩ := valid.keyed running found eq
      refine ⟨addr, (grouped.took.left _ _ _).mpr ⟨held, ?_⟩⟩
      intro mem
      obtain ⟨⟨_, ckey'⟩, there, rfl⟩ := List.mem_map.mp mem
      obtain ⟨_, held'⟩ := grouped.took.held there
      rw [(held.det held').1] at not_taken
      exact not_taken (List.mem_map.mpr ⟨_, there, rfl⟩)
  · intro server ckey ci found
    simp only [values] at found
    split at found
    · obtain ⟨old, before, cleared⟩ := Option.bind_eq_some_iff.mp found
      cases cleared
      have named := valid.named server before
      exact named
    · exact valid.named server found
  · intro k mem
    rw [values, if_pos mem]

theorem count_spec {nodes : Slab ConnectionItem} {batch : Batch}
    (valid : Valid side fits stopping ⟨nodes, batch⟩) {ckeys : List Nat} (distinct : ckeys.Nodup)
    (out : ∀ k ∈ ckeys, ∃ id shared, nodes.get? k = some ⟨some id, some shared, none⟩) :
    ∃ nodes', changeAll countUp ckeys nodes = some nodes' ∧
      Valid side fits stopping ⟨nodes', batch⟩ ∧ nodes'.capacity = nodes.capacity ∧
      ∀ k, nodes'.get? k = if k ∈ ckeys then (nodes.get? k).bind countUp else nodes.get? k := by
  have present : ∀ k ∈ ckeys, ∃ ci ci', nodes.get? k = some ci ∧ countUp ci = some ci' := by
    intro k mem
    obtain ⟨id, shared, found⟩ := out k mem
    exact ⟨_, _, found, rfl⟩
  obtain ⟨nodes', eq, size, values⟩ := changeAll_spec ckeys nodes distinct present
  have counted : ∀ {k ci}, nodes'.get? k = some ci → nodes.get? k = some ci ∨
      ∃ id shared, ci = ⟨some id, some shared, none⟩ := by
    intro k ci found
    rw [values] at found
    split at found
    · rename_i mem
      obtain ⟨id, shared, before⟩ := out k mem
      rw [before] at found
      cases found
      exact Or.inr ⟨id, shared.incOutSeq, rfl⟩
    · exact Or.inl found
  refine ⟨nodes', eq, ⟨valid.batch, ?_, ?_, ?_⟩, size, values⟩
  · intro key ckey addr held
    have joined := valid.joined held
    have apart : ckey ∉ ckeys := by
      intro mem
      obtain ⟨id, shared, found⟩ := out ckey mem
      cases (valid.own found held).keyed
    simp only [values, if_neg apart]
    exact joined
  · intro running ckey ci key found keyed
    rcases counted found with before | ⟨id, shared, rfl⟩
    · exact valid.keyed running before keyed
    · cases keyed
  · intro server ckey ci found
    rcases counted found with before | ⟨id, shared, rfl⟩
    · exact valid.named server before
    · rfl

theorem mem_removedOf {include_ : Nat → Option (Option PacketId)} {ckeys : List Nat} {ckey : Nat}
    {b : Bool} : (ckey, b) ∈ Batch.removedOf include_ ckeys ↔ ckey ∈ ckeys ∧
    (include_ ckey).join.isSome = b := by
  unfold Batch.removedOf
  constructor
  · intro mem
    obtain ⟨c, there, same⟩ := List.mem_map.mp mem
    cases same
    exact ⟨there, rfl⟩
  · rintro ⟨mem, rfl⟩
    exact List.mem_map.mpr ⟨ckey, mem, rfl⟩

theorem included_spec (valid : items.Valid side fits stopping) {batch : Batch} {group : BatchGroup}
    {taken : List (BatchKey × Nat)}
    (grouped : items.batch.Group (includeIn items.nodes) batch group taken)
    {ckey : Nat} (included : (ckey, true) ∈ group.removed) :
    ∃ ci shared peer id, items.nodes.get? ckey = some ci ∧ ci.shared = some shared ∧
      shared.toAddr = some peer ∧ fits group.addr shared ∧ ci.id = some id ∧
      ⟨id, shared.outSeq⟩ ∈ group.ids ∧ ckey ∈ taken.map Prod.snd ∧
      (items.nodes.get? ckey).bind clearKey = some ⟨some id, some shared, none⟩ := by
  rw [grouped.removed, mem_removedOf] at included
  obtain ⟨mem, chosen⟩ := included
  obtain ⟨⟨key, _⟩, there, rfl⟩ := List.mem_map.mp mem
  obtain ⟨pid, answer⟩ := isSome_iff_exists.mp chosen
  obtain ⟨ci, shared, peer, id, found, streams, known, named, rfl⟩ := includeIn_some answer
  obtain ⟨shared', streams', tied⟩ := (valid.own found (grouped.addressed there chosen)).shared
  rw [streams] at streams'
  cases streams'
  refine ⟨ci, shared, peer, id, found, streams, known, tied, named, ?_, mem, ?_⟩
  · rw [grouped.ids]
    exact List.mem_filterMap.mpr ⟨_, mem, answer⟩
  · simp only [found, bind_some, clearKey, streams, named]

theorem Sent.of_cleared {nodes : Slab ConnectionItem} {batch : Batch} {items' : ConnectionItems}
    {group : BatchGroup} (sent : Sent fits ⟨nodes, batch⟩ items' group)
    (same : ∀ k, (nodes.get? k).bind clearKey = (items.nodes.get? k).bind clearKey) :
    Sent fits items items' group := by
  refine ⟨?_, ?_⟩
  · intro ckey mem
    obtain ⟨ci, shared, peer, id, found, streams, rest⟩ := sent.each mem
    obtain ⟨known, tied, named, listed, after⟩ := rest
    have before := same ckey
    simp only at found
    rw [found] at before
    obtain ⟨old, there, cleared⟩ := Option.bind_eq_some_iff.mp before.symm
    have both : ({ old with batchKey := none } : ConnectionItem) = { ci with batchKey := none } :=
      Option.some.inj cleared
    have shared_eq := congrArg ConnectionItem.shared both
    have id_eq := congrArg ConnectionItem.id both
    exact ⟨old, shared, peer, id, there, shared_eq.trans streams, known, tied, id_eq.trans named,
      listed, after⟩
  · intro ckey missing
    exact (sent.others missing).trans (same ckey)

theorem nextLoop_spec (packs : BatchGroup → Bool) (rounds : Nat) {items : ConnectionItems}
    (valid : items.Valid side fits stopping) (enough : items.batch.len < rounds) :
    ∃ items' reply, nextLoop packs rounds items = some (items', reply) ∧
      items'.Valid side fits stopping ∧ items'.nodes.capacity = items.nodes.capacity ∧
      items'.batch.capacity = items.batch.capacity ∧
      ∀ {group}, reply = some group → Sent fits items items' group := by
  induction rounds generalizing items with
  | zero => omega
  | succ rounds ih =>
    have answers : ∀ {key ckey addr}, items.batch.Holds key ckey addr →
        ∃ reply, includeIn items.nodes ckey = some reply := by
      intro key ckey addr held
      obtain ⟨ci, found, joined⟩ := valid.joined held
      exact includeIn_joined found joined
    obtain ⟨batch, reply, eq, result⟩ := Batch.takeGroup_spec valid.batch answers
    simp only [nextLoop, eq, bind_eq_bind, bind_some]
    cases reply with
    | none =>
      obtain ⟨took, nothing⟩ := result
      refine ⟨{ items with batch }, none, rfl, ⟨took.valid, ?_, ?_, valid.named⟩, rfl,
        took.size, ?_⟩
      · intro key ckey addr held
        exact valid.joined ((took.left _ _ _).mp held).1
      · intro running ckey ci key found keyed
        obtain ⟨addr, held⟩ := valid.keyed running found keyed
        exact absurd held (nothing _ _ _)
      · intro group absent
        cases absent
    | some group =>
      obtain ⟨taken, grouped⟩ := result
      obtain ⟨nodes, cleared, valid', size, same, distinct, values⟩ := clear_spec valid grouped
      simp only [cleared, bind_some]
      by_cases sent : group.ids ≠ [] ∧ packs group = true
      · rw [if_pos sent]
        have keys_mem : ∀ {k}, k ∈ (group.removed.filter Prod.snd).map Prod.fst ↔
            (k, true) ∈ group.removed := by
          intro k
          constructor
          · intro mem
            obtain ⟨⟨_, b⟩, there, rfl⟩ := List.mem_map.mp mem
            obtain ⟨listed, included⟩ := List.mem_filter.mp there
            simp only at included
            rw [included] at listed
            exact listed
          · intro mem
            exact List.mem_map.mpr ⟨_, List.mem_filter.mpr ⟨mem, rfl⟩, rfl⟩
        have once : ((group.removed.filter Prod.snd).map Prod.fst).Nodup := by
          have keys_eq : group.removed.map Prod.fst = taken.map Prod.snd := by
            rw [grouped.removed, Batch.removedOf, List.map_map]
            exact List.map_id' _
          rw [← keys_eq] at distinct
          exact distinct.sublist (List.filter_sublist.map Prod.fst)
        obtain ⟨nodes', counted, valid'', size', values'⟩ := count_spec valid' once (by
          intro k mem
          obtain ⟨ci, shared, peer, id, _, _, _, _, _, _, there, now⟩ :=
            included_spec valid grouped (keys_mem.mp mem)
          exact ⟨id, shared, (values k there).trans now⟩)
        rw [counted]
        refine ⟨⟨nodes', batch⟩, some group, rfl, valid'', size'.trans size, grouped.took.size, ?_⟩
        intro group' same_group
        cases same_group
        refine ⟨?_, ?_⟩
        · intro ckey mem
          obtain ⟨ci, shared, peer, id, found, streams, known, tied, named, listed, there, now⟩ :=
            included_spec valid grouped mem
          refine ⟨ci, shared, peer, id, found, streams, known, tied, named, listed, ?_⟩
          simp only [values', keys_mem, mem, if_true, values ckey there, now, bind_some,
            countUp, map_some]
        · intro ckey missing
          simp only [values', keys_mem, missing, if_false]
          exact same ckey
      · rw [if_neg sent]
        have fewer := grouped.took.len_lt valid.batch grouped.some_taken
        obtain ⟨items', reply, eq', valid'', size', batch_size, reported⟩ :=
          ih valid' (show batch.len < rounds by omega)
        refine ⟨items', reply, eq', valid'', size'.trans size, batch_size.trans grouped.took.size,
          ?_⟩
        intro group' same_group
        exact (reported same_group).of_cleared same

end Send

end ConnectionItems

inductive Change
  | toAddr (addr : Option Addr)
  | routerResp (b : Bool)
  | outSeq
  | reset

def Change.apply : Change → StreamSharedData → StreamSharedData
  | .toAddr addr => StreamSharedData.setToAddr addr
  | .routerResp b => StreamSharedData.setRouterResp b
  | .outSeq => StreamSharedData.incOutSeq
  | .reset => StreamSharedData.reset

inductive ConnEvent
  | add (nkey : Nat) (id : List Byte) (stream : Bool)
  | remove (ckey : Nat)
  | regenId (ckey : Nat) (id : List Byte)
  | setId (ckey : Nat) (id : Option (List Byte))
  | share (ckey : Nat) (change : Change)
  | batchAdd (ckey : Nat)
  | nextBatchMessage (packs : BatchGroup → Bool)
  | batchClear

structure Connections where
  items : ConnectionItems
  stopping : Bool
  deriving DecidableEq, Repr

namespace Connections

def new (capacity batchCapacity : Nat) : Connections :=
  ⟨ConnectionItems.new capacity (Batch.new batchCapacity), false⟩

def newShared (stream : Bool) : Option StreamSharedData := if stream then some .new else none

def step (side : Side) (c : Connections) : ConnEvent → Option Connections
  | .add nkey id stream =>
    match c.items.add side nkey id (newShared stream) with
    | .ok items => some { c with items }
    | .error _ => none
  | .remove ckey => (c.items.remove ckey).map fun items => { c with items }
  | .regenId ckey id => (c.items.regenId ckey id).map fun items => { c with items }
  | .setId ckey id => (c.items.setId ckey id).map fun items => { c with items }
  | .share ckey change => (c.items.share ckey change.apply).map fun items => { c with items }
  | .batchAdd ckey => (c.items.batchAdd side ckey).map fun reply => { c with items := reply.1 }
  | .nextBatchMessage packs => (c.items.nextBatchMessage packs).map fun reply =>
      { c with items := reply.1 }
  | .batchClear => some ⟨c.items.batchClear, true⟩

def present (c : Connections) (ckey : Nat) : Bool := (c.items.nodes.get? ckey).isSome

def streams (c : Connections) (ckey : Nat) : Bool :=
  ((c.items.nodes.get? ckey).bind ConnectionItem.shared).isSome

def inBatch (c : Connections) (ckey : Nat) : Bool :=
  c.items.batch.nodes.entries.contains (some ckey)

/-- What the tasks of a worker keep to. The slab picks a vacant slot. A
    connection is batched by the keep alives when the batch was empty, and once
    by the cancels, which start when all connection tasks are done. -/
def allowed (side : Side) (c : Connections) : ConnEvent → Bool
  | .add nkey _ _ => !c.stopping && decide (c.items.nodes.Vacant nkey)
  | .remove ckey => !c.stopping && c.present ckey
  | .regenId ckey _ => !c.stopping && side == .server && c.present ckey
  | .setId ckey _ => !c.stopping && side == .client && c.present ckey
  | .share ckey _ => !c.stopping && c.streams ckey
  | .batchAdd ckey => c.items.canStream side ckey && !c.inBatch ckey
  | .nextBatchMessage _ => true
  | .batchClear => true

def batchAddr (c : Connections) (ckey : Nat) : Option Addr := do
  let ci ← c.items.nodes.get? ckey
  let key ← ci.batchKey
  let item ← c.items.batch.addrs[key.addrIndex]?
  return item.addr

def keepsPeer (c : Connections) : ConnEvent → Bool
  | .share ckey (.toAddr (some addr)) => c.batchAddr ckey == none || c.batchAddr ckey == some addr
  | _ => true

theorem not_held {c : Connections} {ckey : Nat} (out : c.inBatch ckey = false) (key : BatchKey)
    (addr : Addr) : ¬ c.items.batch.Holds key ckey addr := by
  intro held
  have filled := held.1
  simp only [Slab.get?, Option.join_eq_some_iff] at filled
  have mem := List.mem_of_getElem? filled
  unfold inBatch at out
  rw [List.contains_iff_mem.mpr mem] at out
  cases out

section
variable {side : Side} {fits : Addr → StreamSharedData → Prop} {c : Connections}

theorem batchAddr_of_holds (valid : c.items.Valid side fits c.stopping) {key : BatchKey}
    {ckey : Nat} {addr : Addr} (held : c.items.batch.Holds key ckey addr) :
    c.batchAddr ckey = some addr := by
  obtain ⟨ci, found, joined⟩ := valid.joined held
  obtain ⟨_, item, there, _, rfl⟩ := held
  simp only [batchAddr, found, joined.keyed, there, bind_eq_bind, bind_some]
  rfl

theorem step_valid (adds : ∀ {shared addr}, shared.toAddr = some addr → fits addr shared)
    (valid : c.items.Valid side fits c.stopping) (event : ConnEvent)
    (ok : c.allowed side event = true)
    (tied : ∀ {ckey change}, event = .share ckey change → ∀ {key addr shared},
      c.items.batch.Holds key ckey addr → fits addr shared → fits addr (change.apply shared)) :
    ∃ c', c.step side event = some c' ∧ c'.items.Valid side fits c'.stopping ∧
      c'.items.nodes.capacity = c.items.nodes.capacity ∧
      c'.items.batch.capacity = c.items.batch.capacity := by
  obtain ⟨items, stopping⟩ := c
  cases event with
  | add nkey id stream =>
    simp only [allowed, Bool.and_eq_true, decide_eq_true_eq] at ok
    obtain ⟨items', eq, valid', ⟨_, nodes⟩, batch⟩ :=
      ConnectionItems.add_spec valid ok.2 id (newShared stream)
    refine ⟨⟨items', stopping⟩, by simp only [step, eq], valid', ?_, by rw [batch]⟩
    rw [nodes, Slab.capacity_insert]
  | remove ckey =>
    simp only [allowed, present, Bool.and_eq_true, Bool.not_eq_true'] at ok
    obtain ⟨rfl, there⟩ := ok
    obtain ⟨ci, found⟩ := isSome_iff_exists.mp there
    obtain ⟨items', eq, valid', nodes, size⟩ := ConnectionItems.remove_spec valid found
    refine ⟨⟨items', false⟩, by simp only [step, eq, map_some], valid', ?_, size⟩
    rw [nodes, Slab.capacity_remove]
  | regenId ckey id =>
    simp only [allowed, present, Bool.and_eq_true, Bool.not_eq_true'] at ok
    obtain ⟨⟨rfl, _⟩, there⟩ := ok
    obtain ⟨ci, found⟩ := isSome_iff_exists.mp there
    obtain ⟨items', eq, valid', nodes, size⟩ := ConnectionItems.regenId_spec valid found id
    refine ⟨⟨items', false⟩, by simp only [step, eq, map_some], valid', ?_, size⟩
    rw [nodes, Slab.capacity_insert]
  | setId ckey id =>
    simp only [allowed, present, Bool.and_eq_true, Bool.not_eq_true', beq_iff_eq] at ok
    obtain ⟨⟨rfl, rfl⟩, there⟩ := ok
    obtain ⟨ci, found⟩ := isSome_iff_exists.mp there
    obtain ⟨items', eq, valid', ⟨_, nodes⟩, size⟩ := ConnectionItems.setId_spec valid found id
    refine ⟨⟨items', false⟩, by simp only [step, eq, map_some], valid', ?_, size⟩
    rw [nodes, Slab.capacity_insert]
  | share ckey change =>
    simp only [allowed, streams, Bool.and_eq_true] at ok
    obtain ⟨shared, there⟩ := isSome_iff_exists.mp ok.2
    obtain ⟨ci, found, streaming⟩ := Option.bind_eq_some_iff.mp there
    obtain ⟨items', eq, valid', nodes, batch⟩ :=
      ConnectionItems.share_spec valid found streaming change.apply
        (fun held fit => tied rfl held fit)
    refine ⟨⟨items', stopping⟩, by simp only [step, eq, map_some], valid', ?_, by rw [batch]⟩
    rw [nodes, Slab.capacity_insert]
  | batchAdd ckey =>
    simp only [allowed, Bool.and_eq_true, Bool.not_eq_true'] at ok
    obtain ⟨items', reply, eq, valid', size, batch_size, _⟩ :=
      ConnectionItems.batchAdd_spec valid ok.1 (not_held ok.2) adds
    exact ⟨⟨items', stopping⟩, by simp only [step, eq, map_some], valid', size, batch_size⟩
  | nextBatchMessage packs =>
    obtain ⟨items', reply, eq, valid', size, batch_size, _⟩ :=
      ConnectionItems.nextLoop_spec packs (items.batch.len + 1) valid (Nat.lt_succ_self _)
    refine ⟨⟨items', stopping⟩, ?_, valid', size, batch_size⟩
    simp only [step, ConnectionItems.nextBatchMessage, eq, map_some]
  | batchClear =>
    refine ⟨⟨items.batchClear, true⟩, rfl, ⟨Batch.clear_valid items.batch, ?_, ?_, valid.named⟩,
      rfl, ?_⟩
    · intro key ckey addr held
      have filled := held.1
      simp only [ConnectionItems.batchClear, Batch.clear, Slab.get?_withCapacity,
        reduceCtorEq] at filled
    · intro running
      cases running
    · simp [ConnectionItems.batchClear, Batch.clear, Batch.capacity, Slab.capacity,
        Slab.withCapacity]

end

def SamePeer (addr : Addr) (shared : StreamSharedData) : Prop :=
  shared.toAddr = none ∨ shared.toAddr = some addr

theorem change_same_peer {side : Side} {c : Connections}
    (valid : c.items.Valid side SamePeer c.stopping) {ckey : Nat} {change : Change}
    (kept : c.keepsPeer (.share ckey change) = true) {key : BatchKey}
    {addr : Addr} {shared : StreamSharedData} (held : c.items.batch.Holds key ckey addr)
    (same : SamePeer addr shared) : SamePeer addr (change.apply shared) := by
  cases change with
  | toAddr peer =>
    cases peer with
    | none => exact Or.inl rfl
    | some peer =>
      simp only [keepsPeer, batchAddr_of_holds valid held, Bool.or_eq_true, beq_iff_eq,
        reduceCtorEq, false_or, Option.some.injEq] at kept
      subst kept
      exact Or.inr rfl
  | routerResp b => exact same
  | outSeq => exact same
  | reset => exact Or.inl rfl

def ReachesPeers (items items' : ConnectionItems) (group : BatchGroup) : Prop :=
  ∀ ckey, (ckey, true) ∈ group.removed → ∃ ci shared id, items.nodes.get? ckey = some ci ∧
    ci.shared = some shared ∧ shared.toAddr = some group.addr ∧ ci.id = some id ∧
    ⟨id, shared.outSeq⟩ ∈ group.ids ∧
    items'.nodes.get? ckey = some ⟨some id, some shared.incOutSeq, none⟩

/-- Packets go to the current peers as long as a connection in the batch is not
    given another address. -/
theorem batched_packets_reach_current_peers (side : Side) (capacity batchCapacity : Nat)
    (events : List ConnEvent)
    (kept : along (step side) (fun c event => c.allowed side event && c.keepsPeer event)
      (new capacity batchCapacity) events = true) :
    ∃ c, run (step side) (new capacity batchCapacity) events = some c ∧
      ∀ packs, ∃ items' reply, c.items.nextBatchMessage packs = some (items', reply) ∧
        ∀ group, reply = some group → ReachesPeers c.items items' group := by
  have keeps : ∀ (c : Connections) (event : ConnEvent), c.items.Valid side SamePeer c.stopping →
      (c.allowed side event && c.keepsPeer event) = true →
      ∃ c', c.step side event = some c' ∧ c'.items.Valid side SamePeer c'.stopping := by
    intro c event valid ok
    obtain ⟨may, peer⟩ := Bool.and_eq_true_iff.mp ok
    obtain ⟨c', eq, valid', _⟩ := step_valid (fun known => Or.inr known) valid event may (by
      rintro ckey change rfl key addr shared held same
      exact change_same_peer valid peer held same)
    exact ⟨c', eq, valid'⟩
  have start : (new capacity batchCapacity).items.Valid side SamePeer
      (new capacity batchCapacity).stopping :=
    ConnectionItems.new_valid capacity batchCapacity
  obtain ⟨c, ran, valid⟩ :=
    run_rule (fun c => c.items.Valid side SamePeer c.stopping) keeps events start kept
  refine ⟨c, ran, ?_⟩
  intro packs
  obtain ⟨items', reply, eq, _, _, _, sent⟩ :=
    ConnectionItems.nextLoop_spec packs (c.items.batch.len + 1) valid (Nat.lt_succ_self _)
  refine ⟨items', reply, eq, ?_⟩
  intro group sending ckey included
  obtain ⟨ci, shared, peer, id, found, streaming, known, same, named, listed, after⟩ :=
    (sent sending).each included
  refine ⟨ci, shared, id, found, streaming, ?_, named, listed, after⟩
  rcases same with unknown | current
  · rw [known] at unknown
    cases unknown
  · exact current

def oldPeer : Addr := Addr.single 97
def newPeer : Addr := Addr.single 98

def steadyEvents : List ConnEvent :=
  [.add 0 [49] true, .share 0 (.toAddr (some oldPeer)), .batchAdd 0,
    .share 0 (.toAddr (some oldPeer)), .share 0 .outSeq]

theorem steady_session_is_kept_alive_at_its_peer :
    along (step .server) (fun c event => c.allowed .server event && c.keepsPeer event) (new 2 1)
        steadyEvents = true ∧
      ((run (step .server) (new 2 1) steadyEvents).bind fun c =>
        (c.items.nextBatchMessage fun _ => true).bind Prod.snd) =
          some ⟨oldPeer, false, [(0, true)], [⟨[49], 1⟩]⟩ ∧
      ∃ c, run (step .server) (new 2 1) steadyEvents = some c ∧
        ∀ packs, ∃ items' reply, c.items.nextBatchMessage packs = some (items', reply) ∧
          ∀ group, reply = some group → ReachesPeers c.items items' group :=
  ⟨by decide, by decide, batched_packets_reach_current_peers .server 2 1 steadyEvents (by decide)⟩

def movedEvents : List ConnEvent :=
  [.add 0 [49] true, .share 0 (.toAddr (some oldPeer)), .batchAdd 0,
    .share 0 (.toAddr none), .share 0 (.toAddr (some newPeer))]

theorem moved_session_is_kept_alive_at_its_old_peer :
    along (step .server) (allowed .server) (new 2 1) movedEvents = true ∧
      ((run (step .server) (new 2 1) movedEvents).bind fun c =>
        (c.items.nextBatchMessage fun _ => true).bind Prod.snd) =
          some ⟨oldPeer, false, [(0, true)], [⟨[49], 0⟩]⟩ ∧
      ((run (step .server) (new 2 1) movedEvents).bind fun c =>
        ((c.items.nodes.get? 0).bind ConnectionItem.shared).bind StreamSharedData.toAddr) =
        some newPeer ∧
      oldPeer ≠ newPeer := by
  decide

end Connections
end PushpinConnmgr
