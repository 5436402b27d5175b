import Pushpin.Connmgr.BatchPackets

/-!
The sequence numbers of a session. A connection sends single messages with
`try_send_msg`, and the keep alives of its worker send batched ones; both count
on the data they share. The log has what was handed over. The counter is a
`u32` and starts again after 2^32 messages.
-/
namespace PushpinConnmgr
open PushpinRingBuffer Slabs Runs
open Option (bind_eq_bind bind_eq_some_iff bind_some map_eq_some_iff map_some)

inductive SendError
  | serialize
  | send
  deriving DecidableEq, Repr

def ConnectionItems.handOver (items : ConnectionItems) (ckey : Nat) (id : List Byte)
    (shared : StreamSharedData) (ready : Bool) :
    Option (ConnectionItems × Except SendError PacketId) :=
  if ready then do
    let items ← items.share ckey StreamSharedData.incOutSeq
    return (items, .ok ⟨id, shared.outSeq⟩)
  else some (items, .error .send)

/-- `try_send_msg` of `ZhttpStreamSessionOut` for the server, which serializes
    before it unwraps the address, and of `ZhttpServerStreamSessionOut` for the
    client. Addresses have no more than 64 bytes, so they always fit. -/
def ConnectionItems.trySendMsg (side : Side) (items : ConnectionItems) (ckey : Nat) (id : List Byte)
    (serializes ready : Bool) : Option (ConnectionItems × Except SendError PacketId) := do
  let ci ← items.nodes.get? ckey
  let shared ← ci.shared
  match side with
  | .server =>
    if serializes then do
      let _ ← shared.toAddr
      items.handOver ckey id shared ready
    else return (items, .error .serialize)
  | .client => do
    let _ ← shared.toAddr
    if serializes then items.handOver ckey id shared ready
    else return (items, .error .serialize)

inductive Entry
  | began (ckey : Nat)
  | handed (ckey : Nat) (message : PacketId)
  deriving DecidableEq, Repr

def Entry.note (ckey : Nat) (messages : List PacketId) : Entry → List PacketId
  | .began k => if k = ckey then [] else messages
  | .handed k message => if k = ckey then messages ++ [message] else messages

def session (ckey : Nat) (log : List Entry) : List PacketId := log.foldl (Entry.note ckey) []

theorem session_append (ckey : Nat) (log more : List Entry) :
    session ckey (log ++ more) = more.foldl (Entry.note ckey) (session ckey log) :=
  List.foldl_append

def BatchGroup.included (group : BatchGroup) : List Nat :=
  (group.removed.filter Prod.snd).map Prod.fst

def BatchGroup.entries (group : BatchGroup) : List Entry :=
  List.zipWith .handed group.included group.ids

structure Outgoing where
  conns : Connections
  log : List Entry
  deriving DecidableEq, Repr

inductive OutEvent
  | conn (event : ConnEvent)
  | nextBatchMessage (packs : BatchGroup → Bool)
  | trySendMsg (ckey : Nat) (id : List Byte) (serializes ready : Bool)

def ConnEvent.begins : ConnEvent → List Entry
  | .add nkey _ _ => [.began nkey]
  | .share ckey .reset => [.began ckey]
  | _ => []

namespace Outgoing

def start (capacity batchCapacity : Nat) : Outgoing := ⟨Connections.new capacity batchCapacity, []⟩

def step (side : Side) (s : Outgoing) : OutEvent → Option Outgoing
  | .conn event => (s.conns.step side event).map fun conns => ⟨conns, s.log ++ event.begins⟩
  | .nextBatchMessage packs => do
    let (items, reply) ← s.conns.items.nextBatchMessage packs
    return ⟨{ s.conns with items }, s.log ++ (reply.map BatchGroup.entries).getD []⟩
  | .trySendMsg ckey id serializes ready => do
    let (items, reply) ← s.conns.items.trySendMsg side ckey id serializes ready
    match reply with
    | .ok message => return ⟨{ s.conns with items }, s.log ++ [.handed ckey message]⟩
    | .error _ => return { s with conns := { s.conns with items } }

def peer (s : Outgoing) (ckey : Nat) : Option Addr :=
  ((s.conns.items.nodes.get? ckey).bind ConnectionItem.shared).bind StreamSharedData.toAddr

/-- Messages are counted by the two senders only, and a connection sends single
    messages while the address of its peer is known. -/
def allowed (side : Side) (s : Outgoing) : OutEvent → Bool
  | .conn (.nextBatchMessage _) => false
  | .conn (.share _ .outSeq) => false
  | .conn event => s.conns.allowed side event
  | .nextBatchMessage _ => true
  | .trySendMsg ckey _ _ _ => !s.conns.stopping && (s.peer ckey).isSome

end Outgoing

def ConnectionItems.seqOf (items : ConnectionItems) (ckey : Nat) : Option UInt32 :=
  ((items.nodes.get? ckey).bind ConnectionItem.shared).map StreamSharedData.outSeq

def Numbered (messages : List PacketId) (counter : Option UInt32) : Prop :=
  messages.map PacketId.seq = (List.range messages.length).map UInt32.ofNat ∧
    ∀ seq, counter = some seq → seq = UInt32.ofNat messages.length

theorem numbered_nil (counter : Option UInt32) (zero : ∀ seq, counter = some seq → seq = 0) :
    Numbered [] counter :=
  ⟨rfl, zero⟩

theorem Numbered.next {messages : List PacketId} {seq : UInt32}
    (numbered : Numbered messages (some seq)) (id : List Byte) : Numbered (messages ++ [⟨id, seq⟩])
    (some (seq + 1)) := by
  have here := numbered.2 seq rfl
  refine ⟨?_, ?_⟩
  · rw [List.map_append, numbered.1, List.length_append, List.length_singleton, List.range_succ,
      List.map_append]
    simp only [List.map_cons, List.map_nil, here]
  · intro seq' same
    cases same
    rw [here, List.length_append, List.length_singleton, UInt32.ofNat_add]
    rfl

theorem Numbered.weaken {messages : List PacketId} {counter counter' : Option UInt32}
    (numbered : Numbered messages counter) (same : counter' = counter ∨ counter' = none) :
    Numbered messages counter' := by
  rcases same with rfl | rfl
  · exact numbered
  · refine ⟨numbered.1, ?_⟩
    intro seq absent
    cases absent

namespace ConnectionItems

theorem seqOf_of_cleared {items items' : ConnectionItems} {ckey : Nat}
    (same : (items'.nodes.get? ckey).bind clearKey = (items.nodes.get? ckey).bind clearKey) :
    items'.seqOf ckey = items.seqOf ckey := by
  have through : ∀ items : ConnectionItems, items.seqOf ckey =
      (((items.nodes.get? ckey).bind clearKey).bind ConnectionItem.shared).map
        StreamSharedData.outSeq := by
    intro items
    unfold seqOf
    cases items.nodes.get? ckey <;> rfl
  rw [through, through, same]

section
variable {items : ConnectionItems} {ckey : Nat} {old : ConnectionItem}
  (found : items.nodes.get? ckey = some old) (ci : ConnectionItem)
include found ci

theorem seqOf_set (k : Nat) :
    (items.set ckey ci).seqOf k =
      if k = ckey then ci.shared.map StreamSharedData.outSeq else items.seqOf k := by
  simp only [seqOf, set, values_set found]
  split <;> rfl

theorem seqOf_set_other (same : ci.shared.map StreamSharedData.outSeq =
    old.shared.map StreamSharedData.outSeq) (k : Nat) :
    (items.set ckey ci).seqOf k = items.seqOf k := by
  rw [seqOf_set found]
  split
  · rename_i own
    simp only [seqOf, own, found, bind_some, same]
  · rfl

end

theorem includeIn_cleared {nodes nodes' : Slab ConnectionItem} {ckey : Nat}
    (same : (nodes'.get? ckey).bind clearKey = (nodes.get? ckey).bind clearKey) :
    includeIn nodes' ckey = includeIn nodes ckey := by
  unfold includeIn
  cases found : nodes.get? ckey with
  | none =>
    cases found' : nodes'.get? ckey with
    | none => rfl
    | some ci' =>
      rw [found, found'] at same
      cases same
  | some ci =>
    cases found' : nodes'.get? ckey with
    | none =>
      rw [found, found'] at same
      cases same
    | some ci' =>
      rw [found, found'] at same
      have kept : ({ ci' with batchKey := none } : ConnectionItem) = { ci with batchKey := none } :=
        Option.some.inj same
      obtain ⟨id, shared, _⟩ := ConnectionItem.mk.inj kept
      simp only [bind_eq_bind, bind_some, shared, id]

theorem included_removedOf (include_ : Nat → Option (Option PacketId)) (ckeys : List Nat) :
    ((Batch.removedOf include_ ckeys).filter Prod.snd).map Prod.fst =
      ckeys.filter fun ckey => (include_ ckey).join.isSome := by
  rw [Batch.removedOf, List.filter_map, List.map_map]
  exact List.map_id' _

theorem idsOf_filter (include_ : Nat → Option (Option PacketId)) (ckeys : List Nat) :
    (Batch.idsOf include_ ckeys).map some =
      (ckeys.filter fun ckey => (include_ ckey).join.isSome).map fun ckey =>
      (include_ ckey).join := by
  induction ckeys with
  | nil => rfl
  | cons ckey ckeys ih =>
    unfold Batch.idsOf at ih ⊢
    cases answer : (include_ ckey).join with
    | none => simp [answer, ih]
    | some pid => simp [answer, ih]

/-- What a call leaves of the batch, and the numbers in the packet it makes. -/
structure Numbers (items items' : ConnectionItems) (reply : Option BatchGroup) : Prop where
  left : ∀ {key ckey addr}, items'.batch.Holds key ckey addr → items.batch.Holds key ckey addr
  idle : reply = none → ∀ k, (items'.nodes.get? k).bind clearKey =
    (items.nodes.get? k).bind clearKey
  once : ∀ {group}, reply = some group → group.included.Nodup
  ids : ∀ {group}, reply = some group →
    group.ids.map some = group.included.map fun k => (includeIn items.nodes k).join

theorem nextLoop_numbers {side : Side} {fits : Addr → StreamSharedData → Prop} {stopping : Bool}
    (packs : BatchGroup → Bool) (rounds : Nat) {items items' : ConnectionItems}
    {reply : Option BatchGroup}
    (valid : items.Valid side fits stopping)
    (ran : nextLoop packs rounds items = some (items', reply)) :
    Numbers items items' reply := by
  induction rounds generalizing items with
  | zero => cases ran
  | succ rounds ih =>
    have answers : ∀ {key ckey addr}, items.batch.Holds key ckey addr →
        ∃ reply, includeIn items.nodes ckey = some reply := by
      intro key ckey addr held
      obtain ⟨ci, found, joined⟩ := valid.joined held
      exact includeIn_joined found joined
    obtain ⟨batch, group, eq, result⟩ := Batch.takeGroup_spec valid.batch answers
    simp only [nextLoop, eq, bind_eq_bind, bind_some] at ran
    cases group with
    | none =>
      cases ran
      refine ⟨fun held => ((result.1.left _ _ _).mp held).1, fun _ _ => rfl, ?_, ?_⟩
      · intro group absent
        cases absent
      · intro group absent
        cases absent
    | some group =>
      obtain ⟨taken, grouped⟩ := result
      obtain ⟨nodes, cleared, valid', _, same, distinct, _⟩ := clear_spec valid grouped
      simp only [cleared, bind_some] at ran
      have before : ∀ {key ckey addr}, batch.Holds key ckey addr →
          items.batch.Holds key ckey addr :=
        fun held => ((grouped.took.left _ _ _).mp held).1
      split at ran
      · obtain ⟨nodes', _, last⟩ := bind_eq_some_iff.mp ran
        cases last
        have included : group.included =
            (taken.map Prod.snd).filter fun ckey => (includeIn items.nodes ckey).join.isSome := by
          rw [BatchGroup.included, grouped.removed, included_removedOf]
        refine ⟨before, ?_, ?_, ?_⟩
        · intro absent
          cases absent
        · intro group' same_group
          cases same_group
          rw [included]
          exact distinct.filter _
        · intro group' same_group
          cases same_group
          rw [included, grouped.ids, idsOf_filter]
      · -- nothing was sent for this group, so the loop goes on with what is left
        have later := ih valid' ran
        refine ⟨fun held => before (later.left held), ?_, later.once, ?_⟩
        · intro absent k
          exact (later.idle absent k).trans (same k)
        · intro group' same_group
          rw [later.ids same_group]
          refine List.map_congr_left ?_
          intro k _
          rw [includeIn_cleared (same k)]

/-- A connection names its own live node, as it did before the call, or it has
    no batch key and no node. -/
def KeysLive (items items' : ConnectionItems) : Prop :=
  ∀ ckey ci', items'.nodes.get? ckey = some ci' →
    (ci'.batchKey = none ∧ ∀ key addr, ¬ items'.batch.Holds key ckey addr) ∨
    ∃ ci key addr, ci'.batchKey = some key ∧ items'.batch.Holds key ckey addr ∧
      items.nodes.get? ckey = some ci ∧ ci.batchKey = some key

theorem keysLive_of_numbers {side : Side} {fits : Addr → StreamSharedData → Prop}
    {items items' : ConnectionItems} {reply : Option BatchGroup}
    (valid : items.Valid side fits false) (valid' : items'.Valid side fits false)
    (numbers : Numbers items items' reply) : KeysLive items items' := by
  intro ckey ci' found
  cases keyed : ci'.batchKey with
  | none =>
    refine Or.inl ⟨rfl, ?_⟩
    intro key addr held
    have own := (valid'.own found held).keyed
    rw [keyed] at own
    cases own
  | some key =>
    obtain ⟨addr, held⟩ := valid'.keyed rfl found keyed
    obtain ⟨ci, before, joined⟩ := valid.joined (numbers.left held)
    exact Or.inr ⟨ci, key, addr, rfl, held, before, joined.keyed⟩

end ConnectionItems

theorem session_of_began (ckey : Nat) (log : List Entry) : session ckey (log ++ [.began ckey]) =
    [] := by
  simp only [session_append, List.foldl_cons, List.foldl_nil, Entry.note, if_true]

theorem session_of_other {ckey k : Nat} (other : k ≠ ckey) (log : List Entry) :
    session ckey (log ++ [.began k]) = session ckey log := by
  simp only [session_append, List.foldl_cons, List.foldl_nil, Entry.note, if_neg other]

theorem entries_note (ckey : Nat) (answer : Nat → Option PacketId) {included : List Nat}
    {ids : List PacketId} (once : included.Nodup) (same : ids.map some = included.map answer)
    (messages : List PacketId) :
    (List.zipWith Entry.handed included ids).foldl (Entry.note ckey) messages =
      messages ++ if ckey ∈ included then (answer ckey).toList else [] := by
  induction included generalizing ids messages with
  | nil => simp
  | cons k included ih =>
    cases ids with
    | nil => cases same
    | cons pid ids =>
      obtain ⟨apart, once'⟩ := List.nodup_cons.mp once
      obtain ⟨here, rest⟩ := List.cons.inj same
      simp only [List.zipWith_cons_cons, List.foldl_cons, ih once' rest, Entry.note]
      by_cases own : k = ckey
      · subst own
        simp only [if_true, apart, if_false, List.append_nil, List.mem_cons, true_or, ← here,
          Option.toList_some]
      · simp only [if_neg own, List.mem_cons, Ne.symm own, false_or]

namespace Connections

theorem step_seqOf {side : Side} {c c' : Connections} {event : ConnEvent}
    (stepped : c.step side event = some c') (adds : ∀ {nkey id stream}, event ≠ .add nkey id stream)
    (sends : ∀ {packs}, event ≠ .nextBatchMessage packs)
    (counts : ∀ {ckey}, event ≠ .share ckey .outSeq) (begins : ∀ {ckey}, event ≠ .share ckey .reset)
    (k : Nat) :
    c'.items.seqOf k = c.items.seqOf k ∨ c'.items.seqOf k = none := by
  obtain ⟨items, stopping⟩ := c
  cases event with
  | add nkey id stream => exact absurd rfl adds
  | nextBatchMessage packs => exact absurd rfl sends
  | remove ckey =>
    obtain ⟨items', eq, rfl⟩ := map_eq_some_iff.mp stepped
    obtain ⟨ci, found, eq⟩ := bind_eq_some_iff.mp eq
    obtain ⟨batch, _, last⟩ := bind_eq_some_iff.mp eq
    cases last
    simp only [ConnectionItems.seqOf, Slab.get?_remove]
    by_cases same : k = ckey
    · exact Or.inr (by rw [if_pos same]; rfl)
    · exact Or.inl (by rw [if_neg same])
  | regenId ckey id =>
    obtain ⟨items', eq, rfl⟩ := map_eq_some_iff.mp stepped
    obtain ⟨ci, found, eq⟩ := bind_eq_some_iff.mp eq
    obtain ⟨batch, _, last⟩ := bind_eq_some_iff.mp eq
    cases last
    exact Or.inl (ConnectionItems.seqOf_set_other found ⟨some id, ci.shared, none⟩ rfl k)
  | setId ckey id =>
    obtain ⟨items', eq, rfl⟩ := map_eq_some_iff.mp stepped
    obtain ⟨ci, found, eq⟩ := bind_eq_some_iff.mp eq
    left
    cases id with
    | some id =>
      cases eq
      exact ConnectionItems.seqOf_set_other found ⟨some id, ci.shared, ci.batchKey⟩ rfl k
    | none =>
      obtain ⟨batch, _, last⟩ := bind_eq_some_iff.mp eq
      cases last
      exact ConnectionItems.seqOf_set_other found ⟨none, ci.shared, none⟩ rfl k
  | share ckey change =>
    obtain ⟨items', eq, rfl⟩ := map_eq_some_iff.mp stepped
    obtain ⟨ci, found, eq⟩ := bind_eq_some_iff.mp eq
    obtain ⟨shared, streams, last⟩ := bind_eq_some_iff.mp eq
    cases last
    refine Or.inl (ConnectionItems.seqOf_set_other found _ ?_ k)
    rw [streams]
    cases change with
    | toAddr addr => rfl
    | routerResp b => rfl
    | outSeq => exact absurd rfl counts
    | reset => exact absurd rfl begins
  | batchAdd ckey =>
    obtain ⟨reply, eq, rfl⟩ := map_eq_some_iff.mp stepped
    obtain ⟨ci, found, eq⟩ := bind_eq_some_iff.mp eq
    obtain ⟨shared, streams, eq⟩ := bind_eq_some_iff.mp eq
    left
    split at eq
    · cases eq
      rfl
    · split at eq
      · cases eq
        rfl
      · rename_i batch bkey _
        cases eq
        exact ConnectionItems.seqOf_set_other found ⟨ci.id, ci.shared, some bkey⟩ rfl k
  | batchClear =>
    cases stepped
    exact Or.inl rfl

end Connections

namespace Outgoing

structure Good (side : Side) (s : Outgoing) : Prop where
  valid : s.conns.items.Valid side (fun _ _ => True) s.conns.stopping
  numbered : ∀ ckey, Numbered (session ckey s.log) (s.conns.items.seqOf ckey)

theorem start_good (side : Side) (capacity batchCapacity : Nat) :
    (start capacity batchCapacity).Good side := by
  refine ⟨ConnectionItems.new_valid capacity batchCapacity, ?_⟩
  intro ckey
  refine numbered_nil _ ?_
  intro seq there
  simp only [start, Connections.new, ConnectionItems.new, ConnectionItems.seqOf,
    Slab.get?_withCapacity, Option.bind_none, Option.map_none, reduceCtorEq] at there

theorem conn_good {side : Side} {s : Outgoing} (good : s.Good side) {event : ConnEvent}
    (ok : s.allowed side (.conn event) = true) : ∃ s', s.step side (.conn event) = some s' ∧
    s'.Good side := by
  have sends : ∀ {packs}, event ≠ .nextBatchMessage packs := by
    rintro packs rfl
    cases ok
  have counts : ∀ {ckey}, event ≠ .share ckey .outSeq := by
    rintro ckey rfl
    cases ok
  have may : s.conns.allowed side event = true := by
    unfold allowed at ok
    split at ok
    · cases ok
    · cases ok
    · rename_i same
      cases same
      exact ok
    · rename_i same
      cases same
    · rename_i same
      cases same
  obtain ⟨c', eq, valid, _⟩ := Connections.step_valid (fun _ => trivial) good.valid event may
    (fun _ => fun _ _ => trivial)
  refine ⟨⟨c', s.log ++ event.begins⟩, by simp only [step, eq, map_some], valid, ?_⟩
  intro k
  have before := good.numbered k
  by_cases adds : ∃ nkey id stream, event = .add nkey id stream
  · obtain ⟨nkey, id, stream, rfl⟩ := adds
    simp only [Connections.allowed, Bool.and_eq_true, decide_eq_true_eq] at may
    obtain ⟨items', added, _, ⟨id', nodes⟩, _⟩ :=
      ConnectionItems.add_spec good.valid may.2 id (Connections.newShared stream)
    simp only [Connections.step, added, Option.some.injEq] at eq
    subst eq
    have counter : items'.seqOf k = if k = nkey then
        (Connections.newShared stream).map StreamSharedData.outSeq else s.conns.items.seqOf k := by
      simp only [ConnectionItems.seqOf, nodes, Slab.get?_insert may.2.1]
      split <;> rfl
    simp only [ConnEvent.begins, counter]
    by_cases own : k = nkey
    · subst own
      rw [session_of_began, if_pos rfl]
      refine numbered_nil _ ?_
      intro seq there
      cases stream with
      | false => cases there
      | true =>
        cases there
        rfl
    · rw [session_of_other (Ne.symm own), if_neg own]
      exact before
  by_cases begins : ∃ ckey, event = .share ckey .reset
  · obtain ⟨ckey, rfl⟩ := begins
    obtain ⟨items', shared, rfl⟩ := map_eq_some_iff.mp eq
    obtain ⟨ci, found, shared⟩ := bind_eq_some_iff.mp shared
    obtain ⟨data, streams, last⟩ := bind_eq_some_iff.mp shared
    cases last
    simp only [ConnEvent.begins, ConnectionItems.seqOf_set found]
    by_cases own : k = ckey
    · subst own
      rw [session_of_began, if_pos rfl]
      refine numbered_nil _ ?_
      intro seq there
      cases there
      rfl
    · rw [session_of_other (Ne.symm own), if_neg own]
      exact before
  · have quiet : event.begins = [] := by
      cases event with
      | add nkey id stream => exact absurd ⟨nkey, id, stream, rfl⟩ adds
      | share ckey change =>
        cases change with
        | reset => exact absurd ⟨ckey, rfl⟩ begins
        | toAddr addr => rfl
        | routerResp b => rfl
        | outSeq => rfl
      | _ => rfl
    simp only [quiet, List.append_nil]
    refine before.weaken (Connections.step_seqOf eq ?_ sends counts ?_ k)
    · intro nkey id stream same
      exact adds ⟨nkey, id, stream, same⟩
    · intro ckey same
      exact begins ⟨ckey, same⟩

theorem mem_included {group : BatchGroup} {ckey : Nat} : ckey ∈ group.included ↔
    (ckey, true) ∈ group.removed := by
  unfold BatchGroup.included
  constructor
  · intro mem
    obtain ⟨⟨_, b⟩, there, rfl⟩ := List.mem_map.mp mem
    obtain ⟨listed, included⟩ := List.mem_filter.mp there
    simp only at included
    rw [included] at listed
    exact listed
  · intro mem
    exact List.mem_map.mpr ⟨_, List.mem_filter.mpr ⟨mem, rfl⟩, rfl⟩

theorem next_good {side : Side} {s : Outgoing} (good : s.Good side) (packs : BatchGroup → Bool) :
    ∃ items' reply, s.conns.items.nextBatchMessage packs = some (items', reply) ∧
      items'.Valid side (fun _ _ => True) s.conns.stopping ∧
      ConnectionItems.Numbers s.conns.items items' reply ∧
      ∀ ckey, Numbered (session ckey (s.log ++ (reply.map BatchGroup.entries).getD []))
        (items'.seqOf ckey) := by
  obtain ⟨items', reply, eq, valid, _, _, sent⟩ :=
    ConnectionItems.nextLoop_spec packs (s.conns.items.batch.len + 1) good.valid
      (Nat.lt_succ_self _)
  have numbers := ConnectionItems.nextLoop_numbers packs _ good.valid eq
  refine ⟨items', reply, eq, valid, numbers, ?_⟩
  intro ckey
  have before := good.numbered ckey
  cases reply with
  | none =>
    rw [ConnectionItems.seqOf_of_cleared (numbers.idle rfl ckey)]
    simpa using before
  | some group =>
    simp only [map_some, Option.getD_some, BatchGroup.entries, session_append,
      entries_note ckey _ (numbers.once rfl) (numbers.ids rfl), mem_included]
    by_cases mem : (ckey, true) ∈ group.removed
    · obtain ⟨ci, shared, peer, id, found, streams, known, _, named, _, after⟩ :=
        (sent rfl).each mem
      have answer :
          (ConnectionItems.includeIn s.conns.items.nodes ckey).join = some ⟨id, shared.outSeq⟩ := by
        simp only [ConnectionItems.includeIn, found, streams, known, named, bind_eq_bind,
          bind_some]
        rfl
      have counter : s.conns.items.seqOf ckey = some shared.outSeq := by
        simp only [ConnectionItems.seqOf, found, streams, bind_some, map_some]
      have counter' : items'.seqOf ckey = some (shared.outSeq + 1) := by
        simp only [ConnectionItems.seqOf, after, bind_some, map_some]
        rfl
      rw [if_pos mem, answer, counter', Option.toList_some]
      rw [counter] at before
      exact before.next id
    · rw [if_neg mem, List.append_nil, ConnectionItems.seqOf_of_cleared ((sent rfl).others mem)]
      exact before

theorem trySend_good {side : Side} {s : Outgoing} (good : s.Good side) {ckey : Nat} (id : List Byte)
    (serializes ready : Bool) (ok : s.allowed side (.trySendMsg ckey id serializes ready) = true) :
    ∃ s', s.step side (.trySendMsg ckey id serializes ready) = some s' ∧ s'.Good side := by
  simp only [allowed, Bool.and_eq_true] at ok
  obtain ⟨addr, addressed⟩ := Option.isSome_iff_exists.mp ok.2
  obtain ⟨shared, streaming, known⟩ := bind_eq_some_iff.mp addressed
  obtain ⟨ci, found, streams⟩ := bind_eq_some_iff.mp streaming
  by_cases sends : serializes = true ∧ ready = true
  · obtain ⟨rfl, rfl⟩ := sends
    obtain ⟨items', counted, valid, nodes, _⟩ := ConnectionItems.share_spec good.valid found streams
      StreamSharedData.incOutSeq (fun _ _ => trivial)
    have sent : s.conns.items.trySendMsg side ckey id true true =
        some (items', .ok ⟨id, shared.outSeq⟩) := by
      cases side <;> simp [ConnectionItems.trySendMsg, ConnectionItems.handOver, found, streams,
        known, counted]
    refine ⟨⟨{ s.conns with items := items' }, s.log ++ [.handed ckey ⟨id, shared.outSeq⟩]⟩, ?_,
      valid, ?_⟩
    · simp only [step, sent, bind_eq_bind, bind_some]
      rfl
    · intro k
      have before := good.numbered k
      have counter : items'.seqOf k =
          if k = ckey then some (shared.outSeq + 1) else s.conns.items.seqOf k := by
        simp only [ConnectionItems.seqOf, nodes, Slab.get?_insert (Slab.lt_capacity_of_get? found)]
        split <;> rfl
      simp only [session_append, List.foldl_cons, List.foldl_nil, Entry.note, counter]
      by_cases own : k = ckey
      · subst own
        have here : s.conns.items.seqOf k = some shared.outSeq := by
          simp only [ConnectionItems.seqOf, found, streams, bind_some, map_some]
        rw [here] at before
        rw [if_pos rfl, if_pos rfl]
        exact before.next id
      · rw [if_neg (Ne.symm own), if_neg own]
        exact before
  · -- neither failure uses a number
    have kept : ∃ e, s.conns.items.trySendMsg side ckey id serializes ready = some (s.conns.items,
        .error e) := by
      cases serializes with
      | false =>
          cases side <;>
            exact ⟨.serialize, by simp [ConnectionItems.trySendMsg, found, streams, known]⟩
      | true =>
        cases ready with
        | true => exact absurd ⟨rfl, rfl⟩ sends
        | false =>
          refine ⟨.send, ?_⟩
          cases side <;>
            simp [ConnectionItems.trySendMsg, ConnectionItems.handOver, found, streams, known]
    obtain ⟨e, refused⟩ := kept
    refine ⟨s, ?_, good⟩
    simp only [step, refused, bind_eq_bind, bind_some]
    rfl

theorem step_good {side : Side} (s : Outgoing) (event : OutEvent) (good : s.Good side)
    (ok : s.allowed side event = true) : ∃ s', s.step side event = some s' ∧ s'.Good side := by
  cases event with
  | conn event => exact conn_good good ok
  | nextBatchMessage packs =>
    obtain ⟨items', reply, eq, valid, _, numbered⟩ := next_good good packs
    refine ⟨⟨{ s.conns with items := items' }, s.log ++ (reply.map BatchGroup.entries).getD []⟩, ?_,
      valid, numbered⟩
    simp only [step, eq, bind_eq_bind, bind_some]
    rfl
  | trySendMsg ckey id serializes ready => exact trySend_good good id serializes ready ok

/-- In every run the messages of a session carry the numbers from 0 on, modulo
    2^32, and after a batched message the batch keys name live nodes. -/
theorem session_messages_are_numbered (side : Side) (capacity batchCapacity : Nat)
    (events : List OutEvent)
    (possible : along (step side) (allowed side) (start capacity batchCapacity) events = true) :
    ∃ s, run (step side) (start capacity batchCapacity) events = some s ∧
      (∀ ckey, (session ckey s.log).map PacketId.seq =
        (List.range (session ckey s.log).length).map UInt32.ofNat) ∧
      (s.conns.stopping = false → ∀ packs, ∃ items' reply,
        s.conns.items.nextBatchMessage packs = some (items', reply) ∧
        ConnectionItems.KeysLive s.conns.items items') := by
  obtain ⟨s, ran, good⟩ :=
    run_rule (Good side) step_good events (start_good side capacity batchCapacity) possible
  refine ⟨s, ran, fun ckey => (good.numbered ckey).1, ?_⟩
  intro running packs
  obtain ⟨items', reply, eq, valid', numbers, _⟩ := next_good good packs
  refine ⟨items', reply, eq, ?_⟩
  have valid := good.valid
  rw [running] at valid valid'
  exact ConnectionItems.keysLive_of_numbers valid valid' numbers

def sessionPeer : Addr := Addr.single 97

def talkEvents : List OutEvent :=
  [.conn (.add 0 [49] true), .conn (.share 0 (.toAddr (some sessionPeer))),
    .trySendMsg 0 [49] true true,
    .conn (.batchAdd 0), .trySendMsg 0 [49] false true, .nextBatchMessage fun _ => true,
    .trySendMsg 0 [49] true false, .trySendMsg 0 [49] true true]

theorem talk_is_numbered :
    along (step .server) (allowed .server) (start 2 1) talkEvents = true ∧
      (run (step .server) (start 2 1) talkEvents).map (fun s =>
        (session 0 s.log).map PacketId.seq) = some [0, 1, 2] ∧
      ∃ s, run (step .server) (start 2 1) talkEvents = some s ∧
        (∀ ckey, (session ckey s.log).map PacketId.seq =
          (List.range (session ckey s.log).length).map UInt32.ofNat) ∧
        (s.conns.stopping = false → ∀ packs, ∃ items' reply,
          s.conns.items.nextBatchMessage packs = some (items', reply) ∧
          ConnectionItems.KeysLive s.conns.items items') :=
  ⟨by decide, by decide, session_messages_are_numbered .server 2 1 talkEvents (by decide)⟩

def openEvents : List OutEvent :=
  [.conn (.add 0 [49] true), .conn (.share 0 (.toAddr (some sessionPeer)))]

def Talked (n : Nat) (s : Outgoing) : Prop :=
  s.conns.stopping = false ∧ (session 0 s.log).length = n ∧ s.Good .server ∧
    (s.peer 0).isSome = true

theorem talks (n : Nat) : ∃ s, Talked n s ∧
    along (step .server) (allowed .server) (start 1 1)
      (openEvents ++ List.replicate n (.trySendMsg 0 [49] true true)) = true ∧
    run (step .server) (start 1 1) (openEvents ++ List.replicate n (.trySendMsg 0 [49] true true)) =
      some s := by
  induction n with
  | zero =>
    have opened : along (step .server) (allowed .server) (start 1 1) openEvents = true := by decide
    obtain ⟨s, ran, good⟩ :=
      run_rule (Good .server) step_good openEvents (start_good .server 1 1) opened
    have same := Option.some.inj (ran.symm.trans rfl)
    refine ⟨s, ⟨?_, ?_, good, ?_⟩, by simpa using opened, by simpa using ran⟩
    all_goals rw [same]; decide
  | succ n ih =>
    obtain ⟨s, ⟨running, count, good, known⟩, possible, ran⟩ := ih
    have ok : s.allowed .server (.trySendMsg 0 [49] true true) = true := by
      simp only [allowed, running, known, Bool.not_false, Bool.and_self]
    obtain ⟨addr, addressed⟩ := Option.isSome_iff_exists.mp known
    obtain ⟨shared, streaming, there⟩ := bind_eq_some_iff.mp addressed
    obtain ⟨ci, found, streams⟩ := bind_eq_some_iff.mp streaming
    obtain ⟨s', stepped, good'⟩ := step_good s _ good ok
    have after : s' = ⟨{ s.conns with
        items := s.conns.items.set 0 { ci with shared := some shared.incOutSeq } },
        s.log ++ [.handed 0 ⟨[49], shared.outSeq⟩]⟩ := by
      simp [step, ConnectionItems.trySendMsg, ConnectionItems.handOver, ConnectionItems.share,
        found, streams, there] at stepped
      exact stepped.symm
    refine ⟨s', ⟨?_, ?_, good', ?_⟩, ?_, ?_⟩
    · rw [after]
      exact running
    · rw [after, session_append]
      simp only [List.foldl_cons, List.foldl_nil, Entry.note, if_true, List.length_append, count,
        List.length_singleton]
    · rw [after]
      simp only [peer, ConnectionItems.set, ConnectionItems.values_set found, if_true,
        bind_some]
      exact Option.isSome_iff_exists.mpr ⟨addr, there⟩
    · rw [List.replicate_succ', ← List.append_assoc, along_append ran, possible]
      simp only [along, ok, stepped, Bool.and_self]
    · rw [List.replicate_succ', ← List.append_assoc, run_append, ran]
      simp only [bind_some, run, stepped]

theorem counter_starts_again :
    along (step .server) (allowed .server) (start 1 1)
        (openEvents ++ List.replicate (2 ^ 32 + 1) (.trySendMsg 0 [49] true true)) = true ∧
      ∃ s, run (step .server) (start 1 1)
          (openEvents ++ List.replicate (2 ^ 32 + 1) (.trySendMsg 0 [49] true true)) = some s ∧
        ((session 0 s.log).map PacketId.seq)[0]? = some 0 ∧
        ((session 0 s.log).map PacketId.seq)[2 ^ 32]? = some 0 := by
  obtain ⟨s, ⟨_, count, good, _⟩, possible, ran⟩ := talks (2 ^ 32 + 1)
  refine ⟨possible, s, ran, ?_, ?_⟩
  · rw [(good.numbered 0).1, count, List.getElem?_map, List.getElem?_range (by omega)]
    rfl
  · rw [(good.numbered 0).1, count, List.getElem?_map, List.getElem?_range (by omega)]
    rfl

end Outgoing
end PushpinConnmgr
