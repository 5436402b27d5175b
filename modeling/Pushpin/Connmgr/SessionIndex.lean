import Mathlib.Data.List.AList
import Pushpin.Foundations.Runs
import Pushpin.Connmgr.Connections

/-!
The connections of a client worker with the map from session ids to their keys.
An id is the address of a peer and a name that the peer chose, so connections
may have one id in common; the map has room for one of them. Out are the stop
and message channels and the list of active keys. A `none` is a panic.
-/
namespace PushpinConnmgr
open PushpinRingBuffer Slabs Runs

def reqIdMax : Nat := 64

structure ReqId where
  bytes : List Byte
  fits : bytes.length ≤ reqIdMax
  deriving DecidableEq, Repr

structure SessionKey where
  sender : Addr
  id : ReqId
  deriving DecidableEq, Repr

structure ClientItem where
  id : Option SessionKey
  shared : Option StreamSharedData
  batchKey : Option BatchKey
  deriving DecidableEq, Repr

def ClientItem.plain (ci : ClientItem) : ConnectionItem :=
  ⟨ci.id.map fun key => key.id.bytes, ci.shared, ci.batchKey⟩

structure ClientItems where
  nodes : Slab ClientItem
  nodesById : AList fun _ : SessionKey => Nat
  batch : Batch

namespace ClientItems

def new (capacity : Nat) (batch : Batch) : ClientItems := ⟨Slab.withCapacity capacity, ∅, batch⟩

def add (c : ClientItems) (nkey : Nat) (shared : Option StreamSharedData) :
    Except Unit ClientItems :=
  if c.nodes.len = c.nodes.capacity then .error ()
  else .ok { c with nodes := c.nodes.insert nkey ⟨none, shared, none⟩ }

def forgetId (nodesById : AList fun _ : SessionKey => Nat) (id : Option SessionKey) :
    AList fun _ : SessionKey => Nat :=
  match id with
  | some id => nodesById.erase id
  | none => nodesById

def remove (c : ClientItems) (ckey : Nat) : Option ClientItems := do
  let ci ← c.nodes.get? ckey
  let batch ← ConnectionItems.leaveBatch c.batch ci.plain
  return ⟨c.nodes.remove ckey, forgetId c.nodesById ci.id, batch⟩

def setId (c : ClientItems) (ckey : Nat) (id : Option SessionKey) : Option ClientItems := do
  let ci ← c.nodes.get? ckey
  let nodesById := forgetId c.nodesById ci.id
  match id with
  | some id =>
    return { c with
      nodes := c.nodes.insert ckey { ci with id := some id }
      nodesById := nodesById.insert id ckey }
  | none => do
    let batch ← ConnectionItems.leaveBatch c.batch ci.plain
    return ⟨c.nodes.insert ckey { ci with id := none, batchKey := none }, nodesById, batch⟩

def findKey (c : ClientItems) (id : SessionKey) : Option Nat := c.nodesById.lookup id

def plain (c : ClientItems) : ConnectionItems :=
  ⟨⟨c.nodes.entries.map (Option.map ClientItem.plain)⟩, c.batch⟩

theorem plain_get? (c : ClientItems) (ckey : Nat) :
    c.plain.nodes.get? ckey = (c.nodes.get? ckey).map ClientItem.plain := by
  simp only [plain, Slab.get?, List.getElem?_map]
  cases c.nodes.entries[ckey]? <;> rfl

theorem add_plain (c : ClientItems) (nkey : Nat) (id : List Byte)
    (shared : Option StreamSharedData) :
    (c.add nkey shared).map plain = c.plain.add .client nkey id shared := by
  have len_eq : c.plain.nodes.len = c.nodes.len := by
    simp only [plain, Slab.len, List.countP_map]
    congr 1
    funext entry
    cases entry <;> rfl
  have capacity_eq : c.plain.nodes.capacity = c.nodes.capacity := List.length_map _
  unfold add ConnectionItems.add
  rw [len_eq, capacity_eq]
  split
  · rfl
  · simp only [Except.map, plain, ConnectionItems.set, Slab.insert, List.map_set]
    rfl

theorem remove_plain (c : ClientItems) (ckey : Nat) :
    (c.remove ckey).map plain = c.plain.remove ckey := by
  unfold remove ConnectionItems.remove
  rw [plain_get?]
  cases c.nodes.get? ckey with
  | none => rfl
  | some ci =>
    simp only [Option.bind_eq_bind, Option.bind_some, Option.map_some]
    show Option.map plain ((ConnectionItems.leaveBatch c.batch ci.plain).bind _) =
      (ConnectionItems.leaveBatch c.batch ci.plain).bind _
    cases ConnectionItems.leaveBatch c.batch ci.plain with
    | none => rfl
    | some batch => simp [plain, Slab.remove, List.map_set]

theorem setId_plain (c : ClientItems) (ckey : Nat) (id : Option SessionKey) :
    (c.setId ckey id).map plain = c.plain.setId ckey (id.map fun key => key.id.bytes) := by
  unfold setId ConnectionItems.setId
  rw [plain_get?]
  cases c.nodes.get? ckey with
  | none => rfl
  | some ci =>
    cases id with
    | some id => simp [plain, ConnectionItems.set, Slab.insert, List.map_set, ClientItem.plain]
    | none =>
      simp only [Option.bind_eq_bind, Option.bind_some, Option.map_some, Option.map_none]
      show Option.map plain ((ConnectionItems.leaveBatch c.batch ci.plain).bind _) =
        (ConnectionItems.leaveBatch c.batch ci.plain).bind _
      cases ConnectionItems.leaveBatch c.batch ci.plain with
      | none => rfl
      | some batch => simp [plain, ConnectionItems.set, Slab.insert, List.map_set, ClientItem.plain]

def idOf (c : ClientItems) (ckey : Nat) : Option SessionKey :=
  (c.nodes.get? ckey).bind ClientItem.id

/-- Every id of a live connection is found, at a connection that has it. -/
def Indexed (c : ClientItems) : Prop :=
  ∀ ckey key, c.idOf ckey = some key → ∃ found, c.findKey key = some found ∧ c.idOf found = some key

theorem not_indexed {c : ClientItems} {ckey : Nat} {key : SessionKey} (has : c.idOf ckey = some key)
    (lost : c.findKey key = none) : ¬ c.Indexed := by
  intro indexed
  obtain ⟨found, there, _⟩ := indexed ckey key has
  rw [lost] at there
  cases there

def Pointing (c : ClientItems) : Prop := ∀ key ckey, c.findKey key = some ckey →
    c.idOf ckey = some key

def elsewhere (c : ClientItems) (ckey : Nat) (key : SessionKey) : Bool :=
  (List.range c.nodes.capacity).any fun other => decide (other ≠ ckey) && decide
    (c.idOf other = some key)

theorem elsewhere_iff (c : ClientItems) (ckey : Nat) (key : SessionKey) :
    c.elsewhere ckey key = true ↔ ∃ other, other ≠ ckey ∧ c.idOf other = some key := by
  simp only [elsewhere, List.any_eq_true, List.mem_range, Bool.and_eq_true, decide_eq_true_eq]
  constructor
  · rintro ⟨other, _, apart, has⟩
    exact ⟨other, apart, has⟩
  · rintro ⟨other, apart, has⟩
    obtain ⟨ci, found, _⟩ := Option.bind_eq_some_iff.mp has
    exact ⟨other, Slab.lt_capacity_of_get? found, apart, has⟩

def takesShared (c : ClientItems) (ckey : Nat) (id : Option SessionKey) : Bool :=
  match c.idOf ckey with
  | some key => decide (id ≠ some key) && c.elsewhere ckey key
  | none => false

structure Renamed (c c' : ClientItems) (ckey : Nat) (id : Option SessionKey) : Prop where
  ids : ∀ k, c'.idOf k = if k = ckey then id else c.idOf k
  finds : ∀ key, c'.findKey key =
    if id = some key then some ckey else if c.idOf ckey = some key then none else c.findKey key

theorem Renamed.pointing {c c' : ClientItems} {ckey : Nat} {id : Option SessionKey}
    (renamed : c.Renamed c' ckey id) (pointing : c.Pointing) : c'.Pointing := by
  intro key found there
  rw [renamed.finds] at there
  rw [renamed.ids]
  split at there
  · rename_i same
    cases there
    rw [if_pos rfl, same]
  · split at there
    · cases there
    · rename_i own
      have has := pointing key found there
      have other : found ≠ ckey := by
        rintro rfl
        exact own has
      rw [if_neg other, has]

theorem Renamed.indexed_iff {c c' : ClientItems} {ckey : Nat} {id : Option SessionKey}
    (renamed : c.Renamed c' ckey id) (pointing : c.Pointing) (indexed : c.Indexed) :
    c'.Indexed ↔ c.takesShared ckey id = false := by
  constructor
  · intro indexed'
    by_contra taken
    simp only [takesShared, Bool.not_eq_false] at taken
    split at taken
    · rename_i key own
      simp only [Bool.and_eq_true, decide_eq_true_eq, elsewhere_iff] at taken
      obtain ⟨change, other, apart, has⟩ := taken
      have still : c'.idOf other = some key := by rw [renamed.ids, if_neg apart, has]
      obtain ⟨found, there, _⟩ := indexed' other key still
      rw [renamed.finds, if_neg change, if_pos own] at there
      cases there
    · cases taken
  · intro kept k key has
    have pointing' := renamed.pointing pointing
    suffices ∃ found, c'.findKey key = some found by
      obtain ⟨found, there⟩ := this
      exact ⟨found, there, pointing' key found there⟩
    rw [renamed.finds]
    rw [renamed.ids] at has
    by_cases own : id = some key
    · exact ⟨ckey, if_pos own⟩
    · rw [if_neg own]
      have apart : k ≠ ckey := by
        rintro rfl
        rw [if_pos rfl] at has
        exact own has
      rw [if_neg apart] at has
      have other : c.idOf ckey ≠ some key := by
        intro current
        have shared : c.elsewhere ckey key = true := (elsewhere_iff c ckey key).mpr ⟨k, apart, has⟩
        simp only [takesShared, current, own, ne_eq, not_false_eq_true, decide_true,
          Bool.true_and] at kept
        rw [shared] at kept
        cases kept
      rw [if_neg other]
      obtain ⟨found, there, _⟩ := indexed k key has
      exact ⟨found, there⟩

theorem forgetId_lookup (nodesById : AList fun _ : SessionKey => Nat) (id : Option SessionKey)
    (key : SessionKey) :
    (forgetId nodesById id).lookup key = if id = some key then none else nodesById.lookup key := by
  cases id with
  | none => rfl
  | some cur =>
    simp only [forgetId, Option.some.injEq]
    split
    · rename_i same
      rw [same, AList.lookup_erase]
    · rename_i other
      exact AList.lookup_erase_ne (Ne.symm other)

def Unbatched (c : ClientItems) : Prop := ∀ ckey ci, c.nodes.get? ckey = some ci →
    ci.batchKey = none

theorem leaveBatch_unbatched {ci : ClientItem} (out : ci.batchKey = none) (batch : Batch) :
    ConnectionItems.leaveBatch batch ci.plain = some batch := by
  simp only [ConnectionItems.leaveBatch, ClientItem.plain, out]

section
variable {c : ClientItems} (unbatched : c.Unbatched)
include unbatched

theorem remove_spec {ckey : Nat}
    (present : (c.nodes.get? ckey).isSome = true) :
    ∃ c', c.remove ckey = some c' ∧ c'.Unbatched ∧ c.Renamed c' ckey none ∧
      c'.nodes.get? ckey = none := by
  obtain ⟨ci, found⟩ := Option.isSome_iff_exists.mp present
  refine ⟨⟨c.nodes.remove ckey, forgetId c.nodesById ci.id, c.batch⟩, ?_, ?_, ⟨?_, ?_⟩, ?_⟩
  · simp only [remove, found, Option.bind_eq_bind, Option.bind_some,
      leaveBatch_unbatched (unbatched ckey ci found)]
    rfl
  · intro k ci' there
    simp only [Slab.get?_remove] at there
    split at there
    · cases there
    · exact unbatched k ci' there
  · intro k
    simp only [idOf, Slab.get?_remove]
    split <;> rfl
  · intro key
    have own : c.idOf ckey = ci.id := by simp only [idOf, found, Option.bind_some]
    simp only [findKey, forgetId_lookup, own, reduceCtorEq, if_false]
  · simp only [Slab.get?_remove, if_true]

theorem setId_spec {ckey : Nat} (id : Option SessionKey)
    (present : (c.nodes.get? ckey).isSome = true) :
    ∃ c', c.setId ckey id = some c' ∧ c'.Unbatched ∧ c.Renamed c' ckey id := by
  obtain ⟨ci, found⟩ := Option.isSome_iff_exists.mp present
  have inside := Slab.lt_capacity_of_get? found
  have own : c.idOf ckey = ci.id := by simp only [idOf, found, Option.bind_some]
  have kept : ∀ ci' : ClientItem, ci'.batchKey = none → ∀ k entry,
      (c.nodes.insert ckey ci').get? k = some entry → entry.batchKey = none := by
    intro ci' out k entry there
    rw [Slab.get?_insert inside] at there
    split at there
    · cases there
      exact out
    · exact unbatched k entry there
  have ids : ∀ (ci' : ClientItem) (k : Nat), ((c.nodes.insert ckey ci').get? k).bind ClientItem.id =
      if k = ckey then ci'.id else c.idOf k := by
    intro ci' k
    rw [Slab.get?_insert inside]
    split <;> rfl
  cases id with
  | some id =>
    refine ⟨{ c with
        nodes := c.nodes.insert ckey { ci with id := some id }
        nodesById := (forgetId c.nodesById ci.id).insert id ckey }, ?_,
      kept _ (unbatched ckey ci found), ids _, ?_⟩
    · simp only [setId, found, Option.bind_eq_bind, Option.bind_some]
      rfl
    · intro key
      simp only [findKey, own, Option.some.injEq]
      split
      · rename_i same
        rw [same, AList.lookup_insert]
      · rename_i other
        rw [AList.lookup_insert_ne (Ne.symm other), forgetId_lookup]
  | none =>
    refine ⟨⟨c.nodes.insert ckey { ci with id := none, batchKey := none },
      forgetId c.nodesById ci.id, c.batch⟩, ?_, kept _ rfl, ids _, ?_⟩
    · simp only [setId, found, Option.bind_eq_bind, Option.bind_some,
        leaveBatch_unbatched (unbatched ckey ci found)]
      rfl
    · intro key
      simp only [findKey, own, forgetId_lookup, reduceCtorEq, if_false]

theorem add_spec {nkey : Nat}
    (vacant : c.nodes.Vacant nkey) (shared : Option StreamSharedData) :
    ∃ c', c.add nkey shared = .ok c' ∧ c'.Unbatched ∧ c.Renamed c' nkey none := by
  have room := Slab.vacant_len_lt vacant
  have nobody : c.idOf nkey = none := by simp only [idOf, vacant.2, Option.bind_none]
  refine ⟨_, by rw [add, if_neg (by omega)], ?_, ?_, ?_⟩
  · intro k ci there
    simp only [Slab.get?_insert vacant.1] at there
    split at there
    · cases there
      rfl
    · exact unbatched k ci there
  · intro k
    simp only [idOf, Slab.get?_insert vacant.1]
    split <;> rfl
  · intro key
    simp only [findKey, nobody, reduceCtorEq, if_false]

end

end ClientItems

inductive IndexEvent
  | add (nkey : Nat) (shared : Option StreamSharedData)
  | setId (ckey : Nat) (id : Option SessionKey)
  | remove (ckey : Nat)

namespace ClientItems

def step (c : ClientItems) : IndexEvent → Option ClientItems
  | .add nkey shared =>
    match c.add nkey shared with
    | .ok c => some c
    | .error _ => none
  | .setId ckey id => c.setId ckey id
  | .remove ckey => c.remove ckey

def allowed (c : ClientItems) : IndexEvent → Bool
  | .add nkey _ => decide (c.nodes.Vacant nkey)
  | .setId ckey _ => (c.nodes.get? ckey).isSome
  | .remove ckey => (c.nodes.get? ckey).isSome

def keepsOthers (c : ClientItems) : IndexEvent → Bool
  | .add _ _ => true
  | .setId ckey id => !c.takesShared ckey id
  | .remove ckey => !c.takesShared ckey none

def Forgets (c : ClientItems) : IndexEvent → Prop
  | .remove ckey => ∀ key, c.findKey key ≠ some ckey
  | .setId ckey none => ∀ key, c.findKey key ≠ some ckey
  | _ => True

theorem Renamed.forgets {c c' : ClientItems} {ckey : Nat} (renamed : c.Renamed c' ckey none)
    (pointing : c.Pointing) (key : SessionKey) : c'.findKey key ≠ some ckey := by
  intro there
  have has := renamed.pointing pointing key ckey there
  rw [renamed.ids, if_pos rfl] at has
  cases has

theorem step_renames {c : ClientItems} (unbatched : c.Unbatched) (pointing : c.Pointing)
    (event : IndexEvent) (ok : c.allowed event = true) :
    ∃ c', c.step event = some c' ∧ c'.Unbatched ∧ c'.Pointing ∧ c'.Forgets event ∧
      (c.Indexed → (c'.Indexed ↔ c.keepsOthers event = true)) := by
  cases event with
  | add nkey shared =>
    have vacant : c.nodes.Vacant nkey := of_decide_eq_true ok
    obtain ⟨c', eq, unbatched', renamed⟩ := add_spec unbatched vacant shared
    refine ⟨c', by simp only [step, eq], unbatched', renamed.pointing pointing, trivial, ?_⟩
    intro indexed
    have nobody : c.idOf nkey = none := by simp only [idOf, vacant.2, Option.bind_none]
    simp only [renamed.indexed_iff pointing indexed, takesShared, nobody, keepsOthers]
  | setId ckey id =>
    obtain ⟨c', eq, unbatched', renamed⟩ := setId_spec unbatched id ok
    refine ⟨c', eq, unbatched', renamed.pointing pointing, ?_, ?_⟩
    · cases id with
      | none => exact renamed.forgets pointing
      | some id => trivial
    · intro indexed
      rw [renamed.indexed_iff pointing indexed, keepsOthers, Bool.not_eq_true']
  | remove ckey =>
    obtain ⟨c', eq, unbatched', renamed, _⟩ := remove_spec unbatched ok
    refine ⟨c', eq, unbatched', renamed.pointing pointing, renamed.forgets pointing, ?_⟩
    intro indexed
    rw [renamed.indexed_iff pointing indexed, keepsOthers, Bool.not_eq_true']

def Sound (c : ClientItems) : Prop := c.Unbatched ∧ c.Pointing

theorem new_sound (capacity : Nat) (batch : Batch) : (new capacity batch).Sound ∧
    (new capacity batch).Indexed := by
  refine ⟨⟨?_, ?_⟩, ?_⟩
  · intro ckey ci found
    rw [new, Slab.get?_withCapacity] at found
    cases found
  · intro key ckey found
    rw [findKey, new, AList.lookup_empty] at found
    cases found
  · intro ckey key has
    simp only [idOf, new, Slab.get?_withCapacity, Option.bind_none, reduceCtorEq] at has

theorem run_forgets {c : ClientItems} (sound : c.Sound) {taken : List IndexEvent}
    (possible : along step allowed c taken = true) :
    ∃ last, run step c taken = some last ∧ ∀ event, taken.getLast? = some event →
      last.Forgets event := by
  have keeps : ∀ (c : ClientItems) (event : IndexEvent), c.Sound → c.allowed event = true →
      ∃ c', c.step event = some c' ∧ c'.Sound := by
    intro c event sound ok
    obtain ⟨c', eq, unbatched, pointing, _⟩ := step_renames sound.1 sound.2 event ok
    exact ⟨c', eq, unbatched, pointing⟩
  rcases List.eq_nil_or_concat taken with rfl | ⟨front, event, rfl⟩
  · refine ⟨c, rfl, ?_⟩
    intro event absent
    cases absent
  · rw [List.concat_eq_append] at possible ⊢
    obtain ⟨before, ran, sound'⟩ := run_rule Sound keeps front sound (along_front possible)
    rw [along_append ran] at possible
    simp only [along, Bool.and_eq_true] at possible
    obtain ⟨last, eq, _, _, forgets, _⟩ := step_renames sound'.1 sound'.2 event possible.2.1
    refine ⟨last, ?_, ?_⟩
    · simp only [run_append, ran, run, Option.bind_some, eq]
    · intro event' same
      rw [List.getLast?_concat] at same
      cases same
      exact forgets

/-- In every state of a run the ids of live connections are found, and lost ids
    are forgotten, exactly if no step takes an id away that another live
    connection has as well. -/
theorem sessions_are_found_iff (capacity batchCapacity : Nat) (events : List IndexEvent)
    (possible : along step allowed (new capacity (Batch.new batchCapacity)) events = true) :
    (∀ taken, taken <+: events → ∃ c, run step (new capacity (Batch.new batchCapacity)) taken =
        some c ∧ c.Indexed ∧ ∀ event, taken.getLast? = some event → c.Forgets event) ↔
      along step keepsOthers (new capacity (Batch.new batchCapacity)) events = true := by
  obtain ⟨sound, indexed⟩ := new_sound capacity (Batch.new batchCapacity)
  have reached := reached_iff_along Sound Indexed (fun c event sound indexed ok => by
      obtain ⟨c', eq, unbatched, pointing, _, decides⟩ := step_renames sound.1 sound.2 event ok
      exact ⟨c', eq, ⟨unbatched, pointing⟩, decides indexed⟩) events sound indexed possible
  rw [← reached]
  constructor
  · intro all taken front last ran
    obtain ⟨c, ran', good, _⟩ := all taken front
    rw [ran] at ran'
    cases ran'
    exact good
  · intro all taken front
    obtain ⟨rest, rfl⟩ := front
    obtain ⟨c, ran, forgets⟩ := run_forgets sound (along_front possible)
    exact ⟨c, ran, all taken (List.prefix_append taken rest) c ran, forgets⟩

def sessionKey : SessionKey := ⟨⟨[112], by decide⟩, ⟨[49], by decide⟩⟩

def reusedEvents : List IndexEvent :=
  [.add 0 none, .setId 0 (some sessionKey), .remove 0, .add 0 (some .new),
    .setId 0 (some sessionKey)]

theorem reused_session_is_found :
    along step allowed (new 2 (Batch.new 1)) reusedEvents = true ∧
      along step keepsOthers (new 2 (Batch.new 1)) reusedEvents = true ∧
      ∀ taken, taken <+: reusedEvents → ∃ c, run step (new 2 (Batch.new 1)) taken = some c ∧
        c.Indexed ∧ ∀ event, taken.getLast? = some event → c.Forgets event :=
  ⟨by decide, by decide, (sessions_are_found_iff 2 1 reusedEvents (by decide)).mpr (by decide)⟩

def sharedEvents : List IndexEvent :=
  [.add 0 none, .setId 0 (some sessionKey), .add 1 (some .new), .setId 1 (some sessionKey),
    .remove 0]

theorem ended_request_hides_a_stream :
    along step allowed (new 2 (Batch.new 1)) sharedEvents = true ∧
      ∃ c, run step (new 2 (Batch.new 1)) sharedEvents = some c ∧ c.idOf 1 = some sessionKey ∧
        c.findKey sessionKey = none ∧ ¬ c.Indexed := by
  refine ⟨by decide, _, rfl, by decide, by decide, @not_indexed _ 1 sessionKey ?_ ?_⟩
  · decide
  · decide

end ClientItems
end PushpinConnmgr
