import Mathlib.Data.List.Nodup
import Pushpin.Foundations.Slab
import Pushpin.Core.RingBuffer

/-!
The batch of `connmgr/batch.rs`: connection keys grouped by peer address. The
linked list of an address is the list of its node keys. Which vacant slot the
slab of nodes hands out cannot be observed, so the first one is taken. A `none`
is a panic.
-/
namespace PushpinConnmgr
open PushpinRingBuffer Slabs

def fromMax : Nat := 64
def idsMax : Nat := 128

structure Addr where
  bytes : List Byte
  fits : bytes.length ≤ fromMax
  deriving DecidableEq, Repr

def Addr.empty : Addr := ⟨[], Nat.zero_le _⟩

def Addr.single (b : Byte) : Addr := ⟨[b], Nat.succ_le_succ (Nat.zero_le _)⟩

structure BatchKey where
  addrIndex : Nat
  nkey : Nat
  deriving DecidableEq, Repr

structure PacketId where
  id : List Byte
  seq : UInt32
  deriving DecidableEq, Repr

structure BatchGroup where
  addr : Addr
  useRouter : Bool
  removed : List (Nat × Bool)
  ids : List PacketId
  deriving DecidableEq, Repr

structure AddrItem where
  addr : Addr
  useRouter : Bool
  keys : List Nat
  deriving DecidableEq, Repr

structure Batch where
  nodes : Slab Nat
  addrs : List AddrItem
  addrIndex : Nat
  deriving DecidableEq, Repr

namespace Batch

def new (capacity : Nat) : Batch := ⟨Slab.withCapacity capacity, [], 0⟩

def len (b : Batch) : Nat := b.nodes.len

def capacity (b : Batch) : Nat := b.nodes.capacity

def isEmpty (b : Batch) : Bool := b.nodes.isEmpty

def clear (b : Batch) : Batch := ⟨Slab.withCapacity b.capacity, [], 0⟩

def findAddr (toAddr : Addr) (useRouter : Bool) : List AddrItem → Nat → Nat → Nat
  | [], _, pos => pos
  | ai :: addrs, n, pos =>
    findAddr toAddr useRouter addrs (n + 1)
      (if ai.addr = toAddr ∧ ai.useRouter = useRouter then n else pos)

def startClean (b : Batch) : Batch := if b.nodes.isEmpty then { b with addrs := [], addrIndex := 0 }
    else b

def append (b : Batch) (pos ckey : Nat) (item : AddrItem) : Batch × Except Unit BatchKey :=
  let nkey := b.nodes.firstVacant
  ({ b with
      nodes := b.nodes.insert nkey ckey
      addrs := b.addrs.set pos { item with keys := item.keys ++ [nkey] } },
    .ok ⟨pos, nkey⟩)

def add (b : Batch) (toAddr : Addr) (useRouter : Bool) (ckey : Nat) :
    Batch × Except Unit BatchKey :=
  if b.nodes.len = b.nodes.capacity then (b, .error ())
  else
    let b := b.startClean
    let pos := findAddr toAddr useRouter b.addrs 0 b.addrs.length
    match b.addrs[pos]? with
    | none =>
      if b.addrs.length = b.nodes.capacity then (b, .error ())
      else
        let item : AddrItem := ⟨toAddr, useRouter, []⟩
        { b with addrs := b.addrs ++ [item] }.append pos ckey item
    | some item => if pos < b.addrIndex then (b, .error ()) else b.append pos ckey item

def remove (b : Batch) (key : BatchKey) : Option Batch := do
  let item ← b.addrs[key.addrIndex]?
  let _ ← b.nodes.get? key.nkey
  if key.nkey ∈ item.keys then
    return { b with
      nodes := b.nodes.remove key.nkey
      addrs := b.addrs.set key.addrIndex { item with keys := item.keys.erase key.nkey } }
  else none

def takeKeys (include_ : Nat → Option (Option PacketId)) : List Nat → Slab Nat → List PacketId →
    List (Nat × Bool) → Option (List Nat × Slab Nat × List PacketId × List (Nat × Bool))
  | [], nodes, ids, removed => some ([], nodes, ids, removed)
  | nkey :: keys, nodes, ids, removed =>
    if ids.length < idsMax then do
      let ckey ← nodes.get? nkey
      let found ← include_ ckey
      takeKeys include_ keys (nodes.remove nkey) (ids ++ found.toList)
        (removed ++ [(ckey, found.isSome)])
    else some (nkey :: keys, nodes, ids, removed)

def skipEmpty (addrs : List AddrItem) (index : Nat) : Nat :=
  index + ((addrs.drop index).takeWhile fun item => item.keys.isEmpty).length

def skip (b : Batch) : Batch := { b with addrIndex := skipEmpty b.addrs b.addrIndex }

def groupLoop (include_ : Nat → Option (Option PacketId)) : Nat → Batch → List PacketId →
    List (Nat × Bool) → Option (Batch × List PacketId × List (Nat × Bool))
  | 0, _, _, _ => none
  | rounds + 1, b, ids, removed =>
    if ids ≠ [] then some (b, ids, removed)
    else
      let b := b.skip
      match b.addrs[b.addrIndex]? with
      | none => if b.nodes.isEmpty then some (b, ids, removed) else none
      | some item => do
        let (keys, nodes, ids, removed) ← takeKeys include_ item.keys b.nodes ids removed
        groupLoop include_ rounds { b with
          nodes
          addrs := b.addrs.set b.addrIndex { item with keys } } ids removed

def takeGroup (b : Batch) (include_ : Nat → Option (Option PacketId)) :
    Option (Batch × Option BatchGroup) := do
  let (b, ids, removed) ← groupLoop include_ (b.addrs.length + 2) b [] []
  if removed = [] then return (b, none)
  else if ids = [] then return (b, some ⟨Addr.empty, false, removed, ids⟩)
  else do
    let item ← b.addrs[b.addrIndex]?
    return (b, some ⟨item.addr, item.useRouter, removed, ids⟩)

def At (b : Batch) (index nkey : Nat) : Prop :=
  ∃ item, b.addrs[index]? = some item ∧ nkey ∈ item.keys

/-- The lists of the addresses share out the nodes, and those that were passed
    over are empty. -/
structure Valid (b : Batch) : Prop where
  distinct : ∀ {index : Nat} {item : AddrItem}, b.addrs[index]? = some item → item.keys.Nodup
  apart : ∀ {i j nkey}, b.At i nkey → b.At j nkey → i = j
  filled : ∀ {index nkey}, b.At index nkey → ∃ ckey, b.nodes.get? nkey = some ckey
  listed : ∀ {nkey ckey}, b.nodes.get? nkey = some ckey → ∃ index, b.At index nkey
  passed : ∀ {index nkey}, index < b.addrIndex → ¬ b.At index nkey
  inside : b.addrIndex ≤ b.addrs.length

variable {b : Batch}

theorem valid_of_empty (none_listed : b.addrs = []) (start : b.addrIndex = 0)
    (empty : ∀ key, b.nodes.get? key = none) : b.Valid := by
  have nowhere : ∀ index nkey, ¬ b.At index nkey := by
    rintro index nkey ⟨item, found, _⟩
    rw [none_listed] at found
    cases found
  refine ⟨?_, ?_, ?_, ?_, ?_, by omega⟩
  · intro index item found
    rw [none_listed] at found
    cases found
  · intro i j nkey here
    exact absurd here (nowhere _ _)
  · intro index nkey here
    exact absurd here (nowhere _ _)
  · intro nkey ckey found
    rw [empty nkey] at found
    cases found
  · intro index nkey _
    exact nowhere _ _

theorem new_valid (capacity : Nat) : (new capacity).Valid :=
  valid_of_empty rfl rfl fun key => Slab.get?_withCapacity capacity key

theorem clear_valid (b : Batch) : b.clear.Valid :=
  valid_of_empty rfl rfl fun key => Slab.get?_withCapacity b.capacity key

def Listed (b : Batch) (index nkey : Nat) (addr : Addr) : Prop :=
  ∃ item, b.addrs[index]? = some item ∧ nkey ∈ item.keys ∧ item.addr = addr

theorem Listed.at {index nkey : Nat} {addr : Addr} (listed : b.Listed index nkey addr) :
    b.At index nkey := by
  obtain ⟨item, found, mem, _⟩ := listed
  exact ⟨item, found, mem⟩

theorem At.listed {index nkey : Nat} (here : b.At index nkey) :
    ∃ addr, b.Listed index nkey addr := by
  obtain ⟨item, found, mem⟩ := here
  exact ⟨item.addr, item, found, mem, rfl⟩

theorem findAddr_spec (toAddr : Addr) (useRouter : Bool) (addrs : List AddrItem) (n pos : Nat) :
    findAddr toAddr useRouter addrs n pos = pos ∨
      ∃ i item, findAddr toAddr useRouter addrs n pos = n + i ∧ addrs[i]? = some item ∧
        item.addr = toAddr ∧ item.useRouter = useRouter := by
  induction addrs generalizing n pos with
  | nil => exact Or.inl rfl
  | cons ai addrs ih =>
    simp only [findAddr]
    rcases ih (n + 1) (if ai.addr = toAddr ∧ ai.useRouter = useRouter then n else pos) with
      same | ⟨i, item, eq, found, matching⟩
    · rw [same]
      by_cases matching : ai.addr = toAddr ∧ ai.useRouter = useRouter
      · rw [if_pos matching]
        exact Or.inr ⟨0, ai, rfl, rfl, matching⟩
      · rw [if_neg matching]
        exact Or.inl rfl
    · exact Or.inr ⟨i + 1, item, by rw [eq]; omega, by simpa using found, matching⟩

theorem isEmpty_iff (b : Batch) : b.nodes.isEmpty = true ↔ ∀ key, b.nodes.get? key = none := by
  simp only [Slab.isEmpty, beq_iff_eq]
  exact Slab.len_eq_zero_iff b.nodes

theorem startClean_spec (valid : b.Valid) :
    b.startClean.nodes = b.nodes ∧ b.startClean.Valid ∧
      ∀ index nkey addr, b.startClean.Listed index nkey addr ↔ b.Listed index nkey addr := by
  unfold startClean
  split
  · rename_i empty
    have none_there := (isEmpty_iff b).mp empty
    refine ⟨rfl, valid_of_empty rfl rfl none_there, ?_⟩
    intro index nkey addr
    constructor
    · rintro ⟨item, found, _⟩
      cases found
    · intro listed
      obtain ⟨ckey, found⟩ := valid.filled listed.at
      rw [none_there] at found
      cases found
  · exact ⟨rfl, valid, fun _ _ _ => Iff.rfl⟩

theorem append_spec (valid : b.Valid) {pos : Nat} {item : AddrItem} (ckey : Nat)
    (found : b.addrs[pos]? = some item) (reachable : b.addrIndex ≤ pos)
    (room : b.nodes.len < b.nodes.capacity) :
    ∃ b' nkey, b.append pos ckey item = (b', .ok ⟨pos, nkey⟩) ∧ b'.Valid ∧
      b.nodes.get? nkey = none ∧ b'.nodes = b.nodes.insert nkey ckey ∧
      (∀ k, b'.nodes.get? k = if k = nkey then some ckey else b.nodes.get? k) ∧
      b'.addrIndex = b.addrIndex ∧ b'.addrs.length = b.addrs.length ∧
      ∀ index k addr, b'.Listed index k addr ↔
        b.Listed index k addr ∨ (index = pos ∧ k = nkey ∧ addr = item.addr) := by
  obtain ⟨inside, vacant⟩ := Slab.firstVacant_vacant room
  have inList : pos < b.addrs.length := (List.getElem?_eq_some_iff.mp found).1
  refine ⟨_, b.nodes.firstVacant, rfl, ?_⟩
  generalize b.nodes.firstVacant = nkey at inside vacant ⊢
  have entries : ∀ index, (b.addrs.set pos { item with keys := item.keys ++ [nkey] })[index]? =
      if index = pos then some { item with keys := item.keys ++ [nkey] } else b.addrs[index]? := by
    intro index
    rw [List.getElem?_set]
    by_cases same : pos = index
    · subst same
      simp only [if_true, inList]
    · simp only [if_neg same, if_neg (Ne.symm same)]
  have nodes : ∀ k, (b.nodes.insert nkey ckey).get? k =
      if k = nkey then some ckey else b.nodes.get? k := fun k => Slab.get?_insert inside ckey k
  have listed : ∀ index k addr, Listed { b with
        nodes := b.nodes.insert nkey ckey
        addrs := b.addrs.set pos { item with keys := item.keys ++ [nkey] } } index k addr ↔
      b.Listed index k addr ∨ (index = pos ∧ k = nkey ∧ addr = item.addr) := by
    intro index k addr
    unfold Listed
    simp only [entries]
    by_cases same : index = pos
    · subst same
      simp only [if_true, Option.some.injEq, found]
      constructor
      · rintro ⟨_, rfl, mem, rfl⟩
        rcases List.mem_append.mp mem with old | new
        · exact Or.inl ⟨item, rfl, old, rfl⟩
        · exact Or.inr ⟨trivial, List.mem_singleton.mp new, rfl⟩
      · rintro (⟨_, rfl, mem, rfl⟩ | ⟨_, rfl, rfl⟩)
        · exact ⟨_, rfl, List.mem_append_left _ mem, rfl⟩
        · exact ⟨_, rfl, List.mem_append_right _ (List.mem_singleton.mpr rfl), rfl⟩
    · simp only [same, if_false, false_and, or_false]
  have fresh : ∀ index, ¬ b.At index nkey := by
    intro index here
    obtain ⟨ckey', filled⟩ := valid.filled here
    rw [vacant] at filled
    cases filled
  have at_iff : ∀ index k, At { b with
        nodes := b.nodes.insert nkey ckey
        addrs := b.addrs.set pos { item with keys := item.keys ++ [nkey] } } index k ↔
      b.At index k ∨ (index = pos ∧ k = nkey) := by
    intro index k
    constructor
    · intro here
      obtain ⟨addr, there⟩ := here.listed
      rcases (listed index k addr).mp there with old | ⟨same, key, _⟩
      · exact Or.inl old.at
      · exact Or.inr ⟨same, key⟩
    · rintro (old | ⟨same, key⟩)
      · obtain ⟨addr, there⟩ := old.listed
        exact ((listed index k addr).mpr (Or.inl there)).at
      · exact ((listed index k item.addr).mpr (Or.inr ⟨same, key, rfl⟩)).at
  have inside' :
      b.addrIndex ≤ (b.addrs.set pos { item with keys := item.keys ++ [nkey] }).length := by
    rw [List.length_set]
    exact valid.inside
  refine ⟨⟨?_, ?_, ?_, ?_, ?_, inside'⟩, vacant, rfl, nodes, rfl, List.length_set, listed⟩
  · intro index item' found'
    simp only [entries] at found'
    split at found'
    · cases found'
      refine List.Nodup.append (valid.distinct found) (List.nodup_singleton nkey) ?_
      rw [List.disjoint_singleton]
      intro mem
      exact fresh pos ⟨item, found, mem⟩
    · exact valid.distinct found'
  · intro i j k here there
    rcases (at_iff i k).mp here with old | ⟨rfl, rfl⟩ <;>
      rcases (at_iff j k).mp there with old' | ⟨rfl, same⟩
    · exact valid.apart old old'
    · subst same
      exact absurd old (fresh i)
    · exact absurd old' (fresh j)
    · rfl
  · intro index k here
    simp only [nodes]
    rcases (at_iff index k).mp here with old | ⟨_, rfl⟩
    · split
      · exact ⟨ckey, rfl⟩
      · exact valid.filled old
    · exact ⟨ckey, by rw [if_pos rfl]⟩
  · intro k ckey' found'
    simp only [nodes] at found'
    split at found'
    · rename_i same
      exact ⟨pos, (at_iff pos k).mpr (Or.inr ⟨rfl, same⟩)⟩
    · obtain ⟨index, here⟩ := valid.listed found'
      exact ⟨index, (at_iff index k).mpr (Or.inl here)⟩
  · intro index k before here
    rcases (at_iff index k).mp here with old | ⟨same, _⟩
    · exact valid.passed before old
    · simp only at before
      omega

def Holds (b : Batch) (key : BatchKey) (ckey : Nat) (addr : Addr) : Prop :=
  b.nodes.get? key.nkey = some ckey ∧ b.Listed key.addrIndex key.nkey addr

variable {ckey : Nat}

theorem Holds.key_eq (valid : b.Valid) {key other : BatchKey} {ckey' : Nat}
    {addr addr' : Addr} (one : b.Holds key ckey addr) (two : b.Holds other ckey' addr')
    (same : key.nkey = other.nkey) : key = other := by
  obtain ⟨index, nkey⟩ := key
  obtain ⟨index', nkey'⟩ := other
  simp only at same
  subst same
  have indices := valid.apart one.2.at two.2.at
  simp only at indices
  rw [indices]

theorem Holds.det {key : BatchKey} {ckey' : Nat} {addr addr' : Addr}
    (one : b.Holds key ckey addr) (two : b.Holds key ckey' addr') : ckey = ckey' ∧
    addr = addr' := by
  obtain ⟨found, item, there, _, rfl⟩ := one
  obtain ⟨found', item', there', _, rfl⟩ := two
  rw [found] at found'
  rw [there] at there'
  cases found'
  cases there'
  exact ⟨rfl, rfl⟩

theorem Valid.holds_of_get? (valid : b.Valid) {nkey : Nat}
    (found : b.nodes.get? nkey = some ckey) : ∃ key addr, b.Holds key ckey addr ∧
    key.nkey = nkey := by
  obtain ⟨index, here⟩ := valid.listed found
  obtain ⟨addr, listed⟩ := here.listed
  exact ⟨⟨index, nkey⟩, addr, ⟨found, listed⟩, rfl⟩

inductive Added (b : Batch) (toAddr : Addr) (ckey : Nat) : Batch × Except Unit BatchKey → Prop
  | refused {b' : Batch} (valid : b'.Valid) (size : b'.capacity = b.capacity)
      (same : ∀ key c a, b'.Holds key c a ↔ b.Holds key c a) : Added b toAddr ckey (b', .error ())
  | added {b' : Batch} {key : BatchKey} (valid : b'.Valid) (size : b'.capacity = b.capacity)
      (fresh : ∀ c a, ¬ b.Holds key c a)
      (one_more : ∀ k c a, b'.Holds k c a ↔ b.Holds k c a ∨ (k = key ∧ c = ckey ∧ a = toAddr)) :
      Added b toAddr ckey (b', .ok key)

theorem append_added (valid : b.Valid) {pos : Nat} {item : AddrItem} (ckey : Nat)
    (found : b.addrs[pos]? = some item) (reachable : b.addrIndex ≤ pos)
    (room : b.nodes.len < b.nodes.capacity) : Added b item.addr ckey (b.append pos ckey item) := by
  obtain ⟨b', nkey, eq, valid', vacant, nodes, values, _, _, listed⟩ :=
    append_spec valid ckey found reachable room
  rw [eq]
  have fresh : ∀ index addr, ¬ b.Listed index nkey addr := by
    intro index addr there
    obtain ⟨c, filled⟩ := valid.filled there.at
    rw [vacant] at filled
    cases filled
  refine Added.added valid' ?_ ?_ ?_
  · simp only [capacity, nodes, Slab.capacity_insert]
  · intro c a held
    exact fresh pos a held.2
  · rintro ⟨index, k⟩ c a
    simp only [Holds, values, listed, BatchKey.mk.injEq]
    by_cases same : k = nkey
    · subst same
      simp only [if_true, Option.some.injEq, fresh, vacant, reduceCtorEq, false_and, false_or,
        true_and, and_true]
      constructor
      · rintro ⟨rfl, rfl, rfl⟩
        exact ⟨rfl, rfl, rfl⟩
      · rintro ⟨rfl, rfl, rfl⟩
        exact ⟨rfl, rfl, rfl⟩
    · simp only [same, if_false, false_and, and_false, or_false]

theorem push_valid (valid : b.Valid) (toAddr : Addr) (useRouter : Bool) :
    Valid { b with addrs := b.addrs ++ [⟨toAddr, useRouter, []⟩] } ∧
      ∀ index nkey addr, Listed { b with addrs := b.addrs ++ [⟨toAddr, useRouter, []⟩] } index nkey
        addr ↔ b.Listed index nkey addr := by
  have entries : ∀ (index : Nat) (item : AddrItem),
      (b.addrs ++ [(⟨toAddr, useRouter, []⟩ : AddrItem)])[index]? = some item →
        b.addrs[index]? = some item ∨ item.keys = [] := by
    intro index item found
    rcases Nat.lt_or_ge index b.addrs.length with inside | outside
    · rw [List.getElem?_append_left inside] at found
      exact Or.inl found
    · rw [List.getElem?_append_right outside, List.getElem?_singleton] at found
      split at found
      · cases found
        exact Or.inr rfl
      · cases found
  have listed : ∀ index nkey addr,
      Listed { b with addrs := b.addrs ++ [⟨toAddr, useRouter, []⟩] } index nkey addr ↔
        b.Listed index nkey addr := by
    intro index nkey addr
    constructor
    · rintro ⟨item, found, mem, rfl⟩
      rcases entries index item found with old | empty
      · exact ⟨item, old, mem, rfl⟩
      · rw [empty] at mem
        cases mem
    · rintro ⟨item, found, mem, rfl⟩
      have inside := (List.getElem?_eq_some_iff.mp found).1
      refine ⟨item, ?_, mem, rfl⟩
      simp only [List.getElem?_append_left inside, found]
  have at_iff : ∀ index nkey,
      At { b with addrs := b.addrs ++ [⟨toAddr, useRouter, []⟩] } index nkey ↔ b.At index nkey := by
    intro index nkey
    constructor
    · intro here
      obtain ⟨addr, there⟩ := here.listed
      exact ((listed index nkey addr).mp there).at
    · intro here
      obtain ⟨addr, there⟩ := here.listed
      exact ((listed index nkey addr).mpr there).at
  have inside : b.addrIndex ≤ (b.addrs ++ [(⟨toAddr, useRouter, []⟩ : AddrItem)]).length := by
    rw [List.length_append]
    exact Nat.le_add_right_of_le valid.inside
  refine ⟨⟨?_, ?_, ?_, ?_, ?_, inside⟩, listed⟩
  · intro index item found
    rcases entries index item found with old | empty
    · exact valid.distinct old
    · rw [empty]
      exact List.nodup_nil
  · intro i j nkey here there
    exact valid.apart ((at_iff i nkey).mp here) ((at_iff j nkey).mp there)
  · intro index nkey here
    exact valid.filled ((at_iff index nkey).mp here)
  · intro nkey ckey found
    obtain ⟨index, here⟩ := valid.listed found
    exact ⟨index, (at_iff index nkey).mpr here⟩
  · intro index nkey before here
    exact valid.passed before ((at_iff index nkey).mp here)

theorem Added.of_same {c : Batch} {toAddr : Addr} {reply : Batch × Except Unit BatchKey}
    (added : Added c toAddr ckey reply) (size : c.capacity = b.capacity)
    (same : ∀ key c' a, c.Holds key c' a ↔ b.Holds key c' a) : Added b toAddr ckey reply := by
  cases added with
  | refused valid size' same' =>
    exact Added.refused valid (size'.trans size) fun key c' a =>
      (same' key c' a).trans (same key c' a)
  | added valid size' fresh one_more =>
    refine Added.added valid (size'.trans size) ?_ ?_
    · intro c' a held
      exact fresh c' a ((same _ c' a).mpr held)
    · intro k c' a
      rw [one_more k c' a, same k c' a]

theorem add_added (valid : b.Valid) (toAddr : Addr) (useRouter : Bool) (ckey : Nat) :
    Added b toAddr ckey (b.add toAddr useRouter ckey) := by
  unfold add
  split
  · exact Added.refused valid rfl fun _ _ _ => Iff.rfl
  rename_i not_full
  obtain ⟨nodes, valid', listed⟩ := startClean_spec valid
  have size : b.startClean.capacity = b.capacity := by
    simp only [capacity, nodes]
  have same : ∀ key c a, b.startClean.Holds key c a ↔ b.Holds key c a := by
    intro key c a
    simp only [Holds, nodes, listed]
  have room : b.startClean.nodes.len < b.startClean.nodes.capacity := by
    have bound : b.nodes.len ≤ b.nodes.capacity := List.countP_le_length
    rw [nodes]
    omega
  refine Added.of_same ?_ size same
  generalize b.startClean = b at valid' room ⊢
  simp only
  rcases findAddr_spec toAddr useRouter b.addrs 0 b.addrs.length with missing | ⟨i, item, eq, found,
    rfl, -⟩
  · rw [missing, List.getElem?_eq_none (Nat.le_refl _)]
    simp only
    split
    · exact Added.refused valid' rfl fun _ _ _ => Iff.rfl
    · obtain ⟨pushed, unchanged⟩ := push_valid valid' toAddr useRouter
      have last : (b.addrs ++ [(⟨toAddr, useRouter, []⟩ : AddrItem)])[b.addrs.length]? =
          some ⟨toAddr, useRouter, []⟩ := List.getElem?_concat_length
      refine Added.of_same (append_added pushed ckey last valid'.inside room) rfl ?_
      intro key c a
      simp only [Holds, unchanged]
  · rw [eq, Nat.zero_add, found]
    simp only
    split
    · exact Added.refused valid' rfl fun _ _ _ => Iff.rfl
    · exact append_added valid' ckey found (by omega) room

def Additions (b : Batch) (n : Nat) : Prop :=
  b.nodes.len ≤ n ∧ (b.nodes.len = 0 ∨ b.addrIndex = 0 ∧ b.addrs.length ≤ n)

theorem add_of_additions {n : Nat} (so_far : b.Additions n) (room : n < b.capacity)
    (toAddr : Addr) (useRouter : Bool) (ckey : Nat) :
    ∃ b' key, b.add toAddr useRouter ckey = (b', .ok key) ∧ b'.Additions (n + 1) := by
  obtain ⟨few, listed⟩ := so_far
  simp only [capacity] at room
  have start : b.startClean.nodes = b.nodes ∧ b.startClean.addrIndex = 0 ∧
      b.startClean.addrs.length ≤ n := by
    unfold startClean
    split
    · exact ⟨rfl, rfl, Nat.zero_le n⟩
    · rename_i filled
      rcases listed with empty | ⟨first, short⟩
      · simp [Slab.isEmpty, empty] at filled
      · exact ⟨rfl, first, short⟩
  unfold add
  rw [if_neg (by omega)]
  generalize b.startClean = c at start ⊢
  obtain ⟨nodes, first, short⟩ := start
  have grown := Slab.len_insert_le c.nodes c.nodes.firstVacant ckey
  rw [← nodes] at few room
  simp only
  cases c.addrs[findAddr toAddr useRouter c.addrs 0 c.addrs.length]? with
  | none =>
    simp only
    rw [if_neg (by omega)]
    refine ⟨_, _, rfl, Nat.le_trans grown (by omega), Or.inr ⟨first, ?_⟩⟩
    simp only [List.length_set, List.length_append, List.length_singleton]
    omega
  | some item =>
    simp only
    rw [if_neg (by omega)]
    refine ⟨_, _, rfl, Nat.le_trans grown (by omega), Or.inr ⟨first, ?_⟩⟩
    simp only [List.length_set]
    omega

end Batch
end PushpinConnmgr
