import Pushpin.Connmgr.TakeGroup

/-!
The connection table of a worker, `Connections` of `connmgr/server.rs` and
`connmgr/client.rs`, with the data that a stream connection shares with it. The
slot of a new connection is an argument. Out are the stop and message channels,
the list of active keys and the map from session ids to keys. A `none` is a
panic.
-/
namespace PushpinConnmgr
open PushpinRingBuffer Slabs

inductive Side
  | server
  | client
  deriving DecidableEq, Repr

structure StreamSharedData where
  toAddr : Option Addr
  outSeq : UInt32
  routerResp : Bool
  deriving DecidableEq, Repr

namespace StreamSharedData

def new : StreamSharedData := ⟨none, 0, false⟩

def reset (_ : StreamSharedData) : StreamSharedData := ⟨none, 0, false⟩

def setToAddr (addr : Option Addr) (s : StreamSharedData) : StreamSharedData :=
  { s with toAddr := addr }

def incOutSeq (s : StreamSharedData) : StreamSharedData := { s with outSeq := s.outSeq + 1 }

def setRouterResp (b : Bool) (s : StreamSharedData) : StreamSharedData := { s with routerResp := b }

end StreamSharedData

structure ConnectionItem where
  id : Option (List Byte)
  shared : Option StreamSharedData
  batchKey : Option BatchKey
  deriving DecidableEq, Repr

structure ConnectionItems where
  nodes : Slab ConnectionItem
  batch : Batch
  deriving DecidableEq, Repr

namespace ConnectionItems

def new (capacity : Nat) (batch : Batch) : ConnectionItems := ⟨Slab.withCapacity capacity, batch⟩

def set (items : ConnectionItems) (ckey : Nat) (ci : ConnectionItem) : ConnectionItems :=
  { items with nodes := items.nodes.insert ckey ci }

def add (side : Side) (items : ConnectionItems) (nkey : Nat) (id : List Byte)
    (shared : Option StreamSharedData) : Except Unit ConnectionItems :=
  if items.nodes.len = items.nodes.capacity then .error ()
  else
    match side with
    | .server => .ok (items.set nkey ⟨some id, shared, none⟩)
    | .client => .ok (items.set nkey ⟨none, shared, none⟩)

def leaveBatch (batch : Batch) (ci : ConnectionItem) : Option Batch :=
  match ci.batchKey with
  | some bkey => batch.remove bkey
  | none => some batch

def remove (items : ConnectionItems) (ckey : Nat) : Option ConnectionItems := do
  let ci ← items.nodes.get? ckey
  let batch ← leaveBatch items.batch ci
  return ⟨items.nodes.remove ckey, batch⟩

def regenId (items : ConnectionItems) (ckey : Nat) (id : List Byte) : Option ConnectionItems := do
  let ci ← items.nodes.get? ckey
  let batch ← leaveBatch items.batch ci
  return { items with batch }.set ckey { ci with id := some id, batchKey := none }

def setId (items : ConnectionItems) (ckey : Nat) (id : Option (List Byte)) :
    Option ConnectionItems := do
  let ci ← items.nodes.get? ckey
  match id with
  | some id => return items.set ckey { ci with id := some id }
  | none => do
    let batch ← leaveBatch items.batch ci
    return { items with batch }.set ckey { ci with id := none, batchKey := none }

def share (items : ConnectionItems) (ckey : Nat) (change : StreamSharedData → StreamSharedData) :
    Option ConnectionItems := do
  let ci ← items.nodes.get? ckey
  let shared ← ci.shared
  return items.set ckey { ci with shared := some (change shared) }

def canStream (side : Side) (items : ConnectionItems) (ckey : Nat) : Bool :=
  match items.nodes.get? ckey with
  | some ci =>
    match side with
    | .server => ci.shared.isSome
    | .client => ci.shared.isSome && ci.id.isSome
  | none => false

def useRouter (side : Side) (shared : StreamSharedData) : Bool :=
  match side with
  | .server => false
  | .client => shared.routerResp

def batchAdd (side : Side) (items : ConnectionItems) (ckey : Nat) :
    Option (ConnectionItems × Except Unit Unit) := do
  let ci ← items.nodes.get? ckey
  let shared ← ci.shared
  match shared.toAddr with
  | none => return (items, .error ())
  | some addr =>
    match items.batch.add addr (useRouter side shared) ckey with
    | (batch, .error _) => return ({ items with batch }, .error ())
    | (batch, .ok bkey) => return ({ items with batch }.set ckey { ci with batchKey := some bkey },
        .ok ())

/-- Addr could have been removed after adding to the batch. -/
def includeIn (nodes : Slab ConnectionItem) (ckey : Nat) : Option (Option PacketId) := do
  let ci ← nodes.get? ckey
  let shared ← ci.shared
  match shared.toAddr with
  | none => return none
  | some _ => do
    let id ← ci.id
    return some ⟨id, shared.outSeq⟩

def changeAll (change : ConnectionItem → Option ConnectionItem) :
    List Nat → Slab ConnectionItem → Option (Slab ConnectionItem)
  | [], nodes => some nodes
  | ckey :: ckeys, nodes => do
    let ci ← nodes.get? ckey
    let ci ← change ci
    changeAll change ckeys (nodes.insert ckey ci)

def clearKey (ci : ConnectionItem) : Option ConnectionItem := some { ci with batchKey := none }

def countUp (ci : ConnectionItem) : Option ConnectionItem :=
  ci.shared.map fun shared => { ci with shared := some shared.incOutSeq }

def nextLoop (packs : BatchGroup → Bool) : Nat → ConnectionItems →
    Option (ConnectionItems × Option BatchGroup)
  | 0, _ => none
  | rounds + 1, items => do
    let (batch, reply) ← items.batch.takeGroup (includeIn items.nodes)
    match reply with
    | none => return ({ items with batch }, none)
    | some group => do
      let nodes ← changeAll clearKey (group.removed.map Prod.fst) items.nodes
      if group.ids ≠ [] ∧ packs group = true then do
        let nodes ← changeAll countUp ((group.removed.filter Prod.snd).map Prod.fst) nodes
        return (⟨nodes, batch⟩, some group)
      else nextLoop packs rounds ⟨nodes, batch⟩

def nextBatchMessage (packs : BatchGroup → Bool) (items : ConnectionItems) :
    Option (ConnectionItems × Option BatchGroup) :=
  nextLoop packs (items.batch.len + 1) items

def batchClear (items : ConnectionItems) : ConnectionItems :=
  { items with batch := items.batch.clear }

/-- The connection of a node in the batch. The shared data may be tied to the
    address by `fits`. -/
structure Joined (fits : Addr → StreamSharedData → Prop) (ci : ConnectionItem) (key : BatchKey)
    (addr : Addr) : Prop where
  shared : ∃ shared, ci.shared = some shared ∧ fits addr shared
  named : ci.id.isSome = true
  keyed : ci.batchKey = some key

/-- The nodes of the batch and the batch keys of the connections agree. After
    `batch_clear` old batch keys remain, but then no connection is removed. -/
structure Valid (side : Side) (fits : Addr → StreamSharedData → Prop) (stopping : Bool)
    (items : ConnectionItems) : Prop where
  batch : items.batch.Valid
  joined : ∀ {key ckey addr}, items.batch.Holds key ckey addr →
    ∃ ci, items.nodes.get? ckey = some ci ∧ Joined fits ci key addr
  keyed : stopping = false → ∀ {ckey ci key}, items.nodes.get? ckey = some ci →
    ci.batchKey = some key → ∃ addr, items.batch.Holds key ckey addr
  named : side = .server → ∀ {ckey ci}, items.nodes.get? ckey = some ci → ci.id.isSome = true

section Keep
variable {side : Side} {fits : Addr → StreamSharedData → Prop} {stopping : Bool}
  {items : ConnectionItems}

theorem new_valid (capacity batchCapacity : Nat) :
    (new capacity (Batch.new batchCapacity)).Valid side fits stopping := by
  refine ⟨Batch.new_valid batchCapacity, ?_, ?_, ?_⟩
  · intro key ckey addr held
    have filled := held.1
    simp only [new, Batch.new, Slab.get?_withCapacity, reduceCtorEq] at filled
  · intro _ ckey ci key found
    rw [new, Slab.get?_withCapacity] at found
    cases found
  · intro _ ckey ci found
    rw [new, Slab.get?_withCapacity] at found
    cases found

variable {ckey : Nat}

theorem Valid.replace (valid : items.Valid side fits stopping) {nodes : Slab ConnectionItem}
    {batch : Batch} {entry : Option ConnectionItem}
    (values : ∀ k, nodes.get? k = if k = ckey then entry else items.nodes.get? k)
    (batch_valid : batch.Valid)
    (others : ∀ {key c addr}, c ≠ ckey → (batch.Holds key c addr ↔ items.batch.Holds key c addr))
    (own : ∀ {key addr}, batch.Holds key ckey addr → ∃ ci, entry = some ci ∧
    Joined fits ci key addr)
    (own_key : stopping = false → ∀ {ci key}, entry = some ci → ci.batchKey = some key →
      ∃ addr, batch.Holds key ckey addr)
    (own_name : side = .server → ∀ {ci}, entry = some ci → ci.id.isSome = true) :
    Valid side fits stopping ⟨nodes, batch⟩ := by
  refine ⟨batch_valid, ?_, ?_, ?_⟩
  · intro key c addr held
    simp only [values]
    by_cases same : c = ckey
    · subst same
      simpa using own held
    · rw [if_neg same]
      exact valid.joined ((others same).mp held)
  · intro running c ci key found keyed
    simp only [values] at found
    by_cases same : c = ckey
    · subst same
      exact own_key running (by simpa using found) keyed
    · rw [if_neg same] at found
      obtain ⟨addr, held⟩ := valid.keyed running found keyed
      exact ⟨addr, (others same).mpr held⟩
  · intro server c ci found
    simp only [values] at found
    by_cases same : c = ckey
    · exact own_name server (by simpa [same] using found)
    · rw [if_neg same] at found
      exact valid.named server found

variable {ci : ConnectionItem}

theorem Valid.own (valid : items.Valid side fits stopping)
    (found : items.nodes.get? ckey = some ci) {key : BatchKey} {addr : Addr}
    (held : items.batch.Holds key ckey addr) : Joined fits ci key addr := by
  obtain ⟨ci', found', joined⟩ := valid.joined held
  rw [found] at found'
  cases found'
  exact joined

theorem values_set {old : ConnectionItem} (found : items.nodes.get? ckey = some old)
    (ci : ConnectionItem) (k : Nat) :
    (items.nodes.insert ckey ci).get? k = if k = ckey then some ci else items.nodes.get? k :=
  Slab.get?_insert (Slab.lt_capacity_of_get? found) ci k

theorem leaveBatch_spec (valid : items.Valid side fits false)
    (found : items.nodes.get? ckey = some ci) :
    ∃ batch, leaveBatch items.batch ci = some batch ∧ batch.Valid ∧
      batch.capacity = items.batch.capacity ∧
      ∀ key c addr, batch.Holds key c addr ↔ items.batch.Holds key c addr ∧ c ≠ ckey := by
  cases keyed : ci.batchKey with
  | none =>
    refine ⟨items.batch, by simp only [leaveBatch, keyed], valid.batch, rfl, ?_⟩
    intro key c addr
    constructor
    · intro held
      refine ⟨held, ?_⟩
      rintro rfl
      have there := (valid.own found held).keyed
      rw [keyed] at there
      cases there
    · intro held
      exact held.1
  | some key =>
    obtain ⟨addr, held⟩ := valid.keyed rfl found keyed
    obtain ⟨batch, removed, batch_valid, size, left⟩ := Batch.remove_spec valid.batch held
    refine ⟨batch, by simp only [leaveBatch, keyed, removed], batch_valid, size, ?_⟩
    intro k c a
    rw [left]
    constructor
    · rintro ⟨there, other⟩
      refine ⟨there, ?_⟩
      rintro rfl
      have same := (valid.own found there).keyed
      rw [keyed] at same
      cases same
      exact other rfl
    · rintro ⟨there, other⟩
      refine ⟨there, ?_⟩
      rintro rfl
      exact other (there.det held).1

theorem Valid.left (valid : items.Valid side fits stopping) {nodes : Slab ConnectionItem}
    {batch : Batch} {ckey : Nat} {entry : Option ConnectionItem}
    (values : ∀ k, nodes.get? k = if k = ckey then entry else items.nodes.get? k)
    (batch_valid : batch.Valid)
    (holds : ∀ key c addr, batch.Holds key c addr ↔ items.batch.Holds key c addr ∧ c ≠ ckey)
    (unkeyed : ∀ {ci}, entry = some ci → ci.batchKey = none)
    (own_name : side = .server → ∀ {ci}, entry = some ci → ci.id.isSome = true) :
    Valid side fits stopping ⟨nodes, batch⟩ := by
  refine valid.replace values batch_valid ?_ ?_ ?_ own_name
  · intro key c addr other
    rw [holds]
    exact and_iff_left other
  · intro key addr held
    exact absurd rfl ((holds _ _ _).mp held).2
  · intro _ ci key found keyed
    rw [unkeyed found] at keyed
    cases keyed

section
variable (valid : items.Valid side fits false) (found : items.nodes.get? ckey = some ci)
include valid found

theorem remove_spec :
    ∃ items', items.remove ckey = some items' ∧ items'.Valid side fits false ∧
      items'.nodes = items.nodes.remove ckey ∧ items'.batch.capacity = items.batch.capacity := by
  obtain ⟨batch, left, batch_valid, size, holds⟩ := leaveBatch_spec valid found
  refine ⟨⟨items.nodes.remove ckey, batch⟩, ?_, ?_, rfl, size⟩
  · simp only [remove, found, left, Option.bind_eq_bind, Option.bind_some]
    rfl
  · refine valid.left (Slab.get?_remove items.nodes ckey) batch_valid holds ?_ ?_
    · intro ci absent
      cases absent
    · intro _ ci absent
      cases absent

theorem regenId_spec (id : List Byte) :
    ∃ items', items.regenId ckey id = some items' ∧ items'.Valid side fits false ∧
      items'.nodes = items.nodes.insert ckey { ci with id := some id, batchKey := none } ∧
      items'.batch.capacity = items.batch.capacity := by
  obtain ⟨batch, left, batch_valid, size, holds⟩ := leaveBatch_spec valid found
  refine ⟨{ items with batch }.set ckey { ci with id := some id, batchKey := none }, ?_, ?_,
    rfl, size⟩
  · simp only [regenId, found, left, Option.bind_eq_bind, Option.bind_some]
    rfl
  · refine valid.left (values_set found _) batch_valid holds ?_ ?_
    · intro ci' same
      cases same
      rfl
    · intro _ ci' same
      cases same
      rfl

end

theorem Valid.change (valid : items.Valid side fits stopping)
    (found : items.nodes.get? ckey = some ci) {ci' : ConnectionItem}
    (same_key : ci'.batchKey = ci.batchKey)
    (named : ci'.id.isSome = true ∨ ci'.id = ci.id)
    (shared : ∀ {key addr}, items.batch.Holds key ckey addr → ∃ shared, ci'.shared = some shared ∧
    fits addr shared) :
    (items.set ckey ci').Valid side fits stopping := by
  have name_kept : ci.id.isSome = true → ci'.id.isSome = true := by
    intro before
    rcases named with now | same
    · exact now
    · rw [same]
      exact before
  refine valid.replace (values_set found ci') valid.batch (fun _ => Iff.rfl) ?_ ?_ ?_
  · intro key addr held
    have joined := valid.own found held
    exact ⟨ci', rfl, shared held, name_kept joined.named, same_key.trans joined.keyed⟩
  · intro running ci'' key same keyed
    cases same
    exact valid.keyed running found (same_key.symm.trans keyed)
  · intro server ci'' same
    cases same
    exact name_kept (valid.named server found)

theorem setId_spec (valid : items.Valid .client fits false)
    (found : items.nodes.get? ckey = some ci) (id : Option (List Byte)) :
    ∃ items', items.setId ckey id = some items' ∧ items'.Valid .client fits false ∧
      (∃ batchKey, items'.nodes = items.nodes.insert ckey ⟨id, ci.shared, batchKey⟩) ∧
      items'.batch.capacity = items.batch.capacity := by
  cases id with
  | some id =>
    refine ⟨items.set ckey { ci with id := some id }, ?_, ?_, ⟨ci.batchKey, rfl⟩, rfl⟩
    · simp only [setId, found, Option.bind_eq_bind, Option.bind_some]
      rfl
    · refine valid.change found rfl (Or.inl rfl) ?_
      intro key addr held
      exact (valid.own found held).shared
  | none =>
    obtain ⟨batch, left, batch_valid, size, holds⟩ := leaveBatch_spec valid found
    refine ⟨{ items with batch }.set ckey { ci with id := none, batchKey := none }, ?_, ?_,
      ⟨none, rfl⟩, size⟩
    · simp only [setId, found, left, Option.bind_eq_bind, Option.bind_some]
      rfl
    · refine valid.left (values_set found _) batch_valid holds ?_ ?_
      · intro ci' same
        cases same
        rfl
      · intro server
        cases server

section
variable (valid : items.Valid side fits stopping)
include valid

theorem share_spec {shared : StreamSharedData} (found : items.nodes.get? ckey = some ci)
    (streams : ci.shared = some shared)
    (change : StreamSharedData → StreamSharedData)
    (still : ∀ {key addr}, items.batch.Holds key ckey addr → fits addr shared →
    fits addr (change shared)) :
    ∃ items', items.share ckey change = some items' ∧ items'.Valid side fits stopping ∧
      items'.nodes = items.nodes.insert ckey { ci with shared := some (change shared) } ∧
      items'.batch = items.batch := by
  refine ⟨items.set ckey { ci with shared := some (change shared) }, ?_, ?_, rfl, rfl⟩
  · simp only [share, found, streams, Option.bind_eq_bind, Option.bind_some]
    rfl
  · refine valid.change found rfl (Or.inr rfl) ?_
    intro key addr held
    obtain ⟨shared', streams', tied⟩ := (valid.own found held).shared
    rw [streams] at streams'
    cases streams'
    exact ⟨_, rfl, still held tied⟩

theorem add_spec {nkey : Nat}
    (vacant : items.nodes.Vacant nkey) (id : List Byte) (shared : Option StreamSharedData) :
    ∃ items', items.add side nkey id shared = .ok items' ∧ items'.Valid side fits stopping ∧
      (∃ id', items'.nodes = items.nodes.insert nkey ⟨id', shared, none⟩) ∧
      items'.batch = items.batch := by
  have room := Slab.vacant_len_lt vacant
  have absent : ∀ {key addr}, ¬ items.batch.Holds key nkey addr := by
    intro key addr held
    obtain ⟨ci, found, _⟩ := valid.joined held
    rw [vacant.2] at found
    cases found
  have fresh : ∀ id', (side = .server → id'.isSome = true) →
      (items.set nkey ⟨id', shared, none⟩).Valid side fits stopping := by
    intro id' named
    refine valid.replace (Slab.get?_insert vacant.1 _) valid.batch (fun _ => Iff.rfl) ?_ ?_ ?_
    · intro key addr held
      exact absurd held absent
    · intro _ ci key same keyed
      cases same
      cases keyed
    · intro server ci same
      cases same
      exact named server
  unfold add
  rw [if_neg (by omega)]
  cases side with
  | server => exact ⟨_, rfl, fresh (some id) (fun _ => rfl), ⟨_, rfl⟩, rfl⟩
  | client => exact ⟨_, rfl, fresh none (fun server => by cases server), ⟨_, rfl⟩, rfl⟩

theorem canStream_spec (streams : items.canStream side ckey = true) :
    ∃ ci shared, items.nodes.get? ckey = some ci ∧ ci.shared = some shared ∧
      ci.id.isSome = true := by
  unfold canStream at streams
  cases found : items.nodes.get? ckey with
  | none =>
    rw [found] at streams
    cases streams
  | some ci =>
    rw [found] at streams
    cases side with
    | server =>
      obtain ⟨shared, eq⟩ := Option.isSome_iff_exists.mp streams
      exact ⟨ci, shared, rfl, eq, valid.named rfl found⟩
    | client =>
      simp only [Bool.and_eq_true] at streams
      obtain ⟨shared, eq⟩ := Option.isSome_iff_exists.mp streams.1
      exact ⟨ci, shared, rfl, eq, streams.2⟩

theorem batchAdd_spec (streams : items.canStream side ckey = true)
    (fresh : ∀ key addr, ¬ items.batch.Holds key ckey addr)
    (adds : ∀ {shared addr}, shared.toAddr = some addr → fits addr shared) :
    ∃ items' reply, items.batchAdd side ckey = some (items', reply) ∧
      items'.Valid side fits stopping ∧
      items'.nodes.capacity = items.nodes.capacity ∧ items'.batch.capacity = items.batch.capacity ∧
      (∀ k, (items'.nodes.get? k).bind clearKey = (items.nodes.get? k).bind clearKey) ∧
      ∀ key c addr, items'.batch.Holds key c addr → c = ckey ∨ items.batch.Holds key c addr := by
  obtain ⟨⟨id, _, old_key⟩, shared, found, streaming, named⟩ := canStream_spec valid streams
  simp only at streaming named
  subst streaming
  simp only [batchAdd, found, Option.bind_eq_bind, Option.bind_some]
  cases known : shared.toAddr with
  | none => exact ⟨items, _, rfl, valid, rfl, rfl, fun _ => rfl, fun _ _ _ held => Or.inr held⟩
  | some addr =>
    have added := Batch.add_added valid.batch addr (useRouter side shared) ckey
    simp only
    generalize items.batch.add addr (useRouter side shared) ckey = reply at added ⊢
    cases added with
    | @refused batch batch_valid size same =>
      refine ⟨{ items with batch }, _, rfl, ?_, rfl, size, fun _ => rfl, ?_⟩
      · refine ⟨batch_valid, ?_, ?_, valid.named⟩
        · intro key c a held
          exact valid.joined ((same key c a).mp held)
        · intro running c ci' key found' keyed
          obtain ⟨a, held⟩ := valid.keyed running found' keyed
          exact ⟨a, (same key c a).mpr held⟩
      · intro key c a held
        exact Or.inr ((same key c a).mp held)
    | @added batch bkey batch_valid size new_key one_more =>
      refine ⟨{ items with batch }.set ckey ⟨id, some shared, some bkey⟩, _, rfl, ?_, ?_, size,
        ?_, ?_⟩
      · refine valid.replace (values_set found _) batch_valid ?_ ?_ ?_ ?_
        · intro key c a other
          rw [one_more]
          constructor
          · rintro (old | ⟨_, same, _⟩)
            · exact old
            · exact absurd same other
          · exact Or.inl
        · intro key a held
          rcases (one_more _ _ _).mp held with old | ⟨rfl, _, rfl⟩
          · exact absurd old (fresh key a)
          · exact ⟨_, rfl, ⟨shared, rfl, adds known⟩, named, rfl⟩
        · intro _ ci' key same keyed
          cases same
          cases keyed
          exact ⟨addr, (one_more _ _ _).mpr (Or.inr ⟨rfl, rfl, rfl⟩)⟩
        · intro _ ci' same
          cases same
          exact named
      · simp only [set, Slab.capacity_insert]
      · intro k
        simp only [set, values_set found]
        by_cases same : k = ckey
        · simp only [same, if_true, found, Option.bind_some, clearKey]
        · simp only [same, if_false]
      · intro key c a held
        rcases (one_more _ _ _).mp held with old | ⟨_, same, _⟩
        · exact Or.inr old
        · exact Or.inl same

end

theorem changeAll_spec {change : ConnectionItem → Option ConnectionItem} (ckeys : List Nat)
    (nodes : Slab ConnectionItem) (distinct : ckeys.Nodup)
    (defined : ∀ k ∈ ckeys, ∃ ci ci', nodes.get? k = some ci ∧ change ci = some ci') :
    ∃ nodes', changeAll change ckeys nodes = some nodes' ∧ nodes'.capacity = nodes.capacity ∧
      ∀ k, nodes'.get? k = if k ∈ ckeys then (nodes.get? k).bind change else nodes.get? k := by
  induction ckeys generalizing nodes with
  | nil => exact ⟨nodes, rfl, rfl, fun k => by simp⟩
  | cons ckey ckeys ih =>
    obtain ⟨ci, ci', found, changed⟩ := defined ckey List.mem_cons_self
    obtain ⟨apart, distinct'⟩ := List.nodup_cons.mp distinct
    have values : ∀ k, (nodes.insert ckey ci').get? k = if k = ckey then some ci'
        else nodes.get? k :=
      Slab.get?_insert (Slab.lt_capacity_of_get? found) ci'
    obtain ⟨nodes', eq, size, left⟩ := ih (nodes.insert ckey ci') distinct' (by
      intro k mem
      have other : k ≠ ckey := by
        rintro rfl
        exact apart mem
      rw [values, if_neg other]
      exact defined k (List.mem_cons_of_mem ckey mem))
    refine ⟨nodes', ?_, ?_, ?_⟩
    · simp only [changeAll, found, changed, Option.bind_eq_bind, Option.bind_some, eq]
    · rw [size, Slab.capacity_insert]
    · intro k
      rw [left, values]
      by_cases same : k = ckey
      · subst same
        simp only [apart, if_false, if_true, List.mem_cons, true_or, found, Option.bind_some,
          changed]
      · simp only [same, if_false, List.mem_cons, false_or]

end Keep

end ConnectionItems
end PushpinConnmgr
