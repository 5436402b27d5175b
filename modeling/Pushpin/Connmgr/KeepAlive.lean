import Pushpin.Connmgr.BatchPackets

/-!
The keep alives of a worker, `keep_alives_task` of `connmgr/server.rs` and
`connmgr/client.rs`. A round batches the connections under the next few keys of
the table; after `KEEP_ALIVE_BATCHES` rounds the scan starts over. Requests and
streams share the keys of one table, but the size of a round is that of the
streams alone.
-/
namespace PushpinConnmgr
open PushpinRingBuffer Slabs Runs
open Option (bind_eq_bind bind_some map_some)

def keepAliveTimeoutMs : Nat := 45000
def keepAliveBatchMs : Nat := 100
def keepAliveBatches : Nat := keepAliveTimeoutMs / keepAliveBatchMs

def kaBatch (streamMaxconn : Nat) : Nat :=
  (streamMaxconn + (keepAliveBatches - 1)) / keepAliveBatches

/-- A worker with the state of its keep alive task; `batched` records the keys
    that the task put in the batch. -/
structure Worker where
  conns : Connections
  reqCount : Nat
  reqMax : Nat
  streamCount : Nat
  streamMax : Nat
  keepAliveCount : Nat
  nextKeepAliveIndex : Nat
  batched : List Nat
  deriving DecidableEq, Repr

inductive WorkerEvent
  | conn (event : ConnEvent)
  | round

namespace Worker

def new (reqMaxconn streamMaxconn : Nat) : Worker :=
  ⟨Connections.new (reqMaxconn + streamMaxconn) (kaBatch streamMaxconn), 0, reqMaxconn, 0,
    streamMaxconn, 0, 0, []⟩

def roundLoop (side : Side) : Nat → ConnectionItems → Nat → List Nat →
    Option (ConnectionItems × Nat × List Nat)
  | 0, items, index, batched => some (items, index, batched)
  | rounds + 1, items, index, batched =>
    if items.nodes.capacity ≤ index then some (items, index, batched)
    else if items.canStream side index then do
      let (items, reply) ← items.batchAdd side index
      match reply with
      | .ok _ => roundLoop side rounds items (index + 1) (batched ++ [index])
      | .error _ => roundLoop side rounds items (index + 1) batched
    else roundLoop side rounds items (index + 1) batched

def round (side : Side) (w : Worker) : Option Worker := do
  let (items, index, batched) ←
    roundLoop side w.conns.items.batch.capacity w.conns.items w.nextKeepAliveIndex w.batched
  let w := { w with conns := { w.conns with items }, batched }
  if keepAliveBatches ≤ w.keepAliveCount + 1 then
    return { w with keepAliveCount := 0, nextKeepAliveIndex := 0 }
  else return { w with keepAliveCount := w.keepAliveCount + 1, nextKeepAliveIndex := index }

def countConns (w : Worker) : ConnEvent → Worker
  | .add _ _ stream =>
    if stream then { w with streamCount := w.streamCount + 1 }
      else { w with reqCount := w.reqCount + 1 }
  | .remove ckey =>
    if w.conns.streams ckey then { w with streamCount := w.streamCount - 1 }
    else { w with reqCount := w.reqCount - 1 }
  | _ => w

def step (side : Side) (w : Worker) : WorkerEvent → Option Worker
  | .conn event => (w.conns.step side event).map fun conns => { w.countConns event with conns }
  | .round => w.round side

/-- A connection is accepted below its maximum, and a round starts when the
    batch of the last one was sent. Only rounds batch connections until the
    worker stops. -/
def allowed (side : Side) (w : Worker) : WorkerEvent → Bool
  | .conn (.add nkey id stream) => w.conns.allowed side (.add nkey id stream) &&
      (if stream then decide (w.streamCount < w.streamMax) else decide (w.reqCount < w.reqMax))
  | .conn (.batchAdd _) => false
  | .conn .batchClear => false
  | .conn event => w.conns.allowed side event
  | .round => w.conns.items.batch.isEmpty

def registered (side : Side) (items : ConnectionItems) (key : Nat) : Bool :=
  items.canStream side key &&
    (((items.nodes.get? key).bind ConnectionItem.shared).bind StreamSharedData.toAddr).isSome

def rounds (events : List WorkerEvent) : Nat :=
  events.countP fun event => match event with
    | .round => true
    | .conn _ => false

/-- In every full cycle of rounds, each connection that stays registered is
    batched exactly once. -/
def CoversCycle (side : Side) (reqMaxconn streamMaxconn : Nat) : Prop :=
  ∀ (before cycle : List WorkerEvent) (w : Worker),
    along (step side) (allowed side) (new reqMaxconn streamMaxconn) before = true →
    run (step side) (new reqMaxconn streamMaxconn) before = some w →
    w.keepAliveCount = 0 → rounds cycle = keepAliveBatches →
    along (step side) (allowed side) w cycle = true →
    ∀ key, along (step side) (fun w _ => registered side w.conns.items key) w cycle = true →
      ∃ w' news, run (step side) w cycle = some w' ∧ w'.batched = w.batched ++ news ∧
        news.count key = 1

def AnyPeer (_ : Addr) (_ : StreamSharedData) : Prop := True

variable {items : ConnectionItems} {key : Nat}

theorem same_connection {items' : ConnectionItems}
    (same : (items'.nodes.get? key).bind ConnectionItems.clearKey =
      (items.nodes.get? key).bind ConnectionItems.clearKey) (side : Side) :
    items'.canStream side key = items.canStream side key ∧
      registered side items' key = registered side items key := by
  have both : items'.canStream side key = items.canStream side key ∧
      (items'.nodes.get? key).bind ConnectionItem.shared =
        (items.nodes.get? key).bind ConnectionItem.shared := by
    unfold ConnectionItems.canStream
    cases after : items'.nodes.get? key with
    | none =>
      cases before : items.nodes.get? key with
      | none => exact ⟨rfl, rfl⟩
      | some ci =>
        rw [after, before] at same
        cases same
    | some ci' =>
      cases before : items.nodes.get? key with
      | none =>
        rw [after, before] at same
        cases same
      | some ci =>
        rw [after, before] at same
        obtain ⟨id, shared, batchKey⟩ := ci
        obtain ⟨id', shared', batchKey'⟩ := ci'
        cases same
        exact ⟨rfl, rfl⟩
  refine ⟨both.1, ?_⟩
  simp only [registered, both.1, both.2]

variable {side : Side}

theorem batchAdd_unknown
    (valid : items.Valid side AnyPeer false) (streams : items.canStream side key = true)
    (unknown : registered side items key = false) :
    items.batchAdd side key = some (items, .error ()) := by
  obtain ⟨ci, shared, found, streaming, _⟩ := ConnectionItems.canStream_spec valid streams
  simp only [registered, streams, found, streaming, bind_some, Bool.true_and,
    Option.isSome_eq_false_iff, Option.isNone_iff_eq_none] at unknown
  simp only [ConnectionItems.batchAdd, found, streaming, unknown, bind_eq_bind,
    bind_some]
  rfl

theorem batchAdd_known {n : Nat}
    (known : registered side items key = true) (so_far : items.batch.Additions n)
    (room : n < items.batch.capacity) :
    ∃ items', items.batchAdd side key = some (items', .ok ()) ∧ items'.batch.Additions (n + 1) := by
  unfold registered at known
  cases found : items.nodes.get? key with
  | none =>
    rw [found] at known
    simp at known
  | some ci =>
    cases streaming : ci.shared with
    | none =>
      rw [found] at known
      simp [streaming] at known
    | some shared =>
      simp only [found, streaming, bind_some, Bool.and_eq_true] at known
      obtain ⟨addr, peer⟩ := Option.isSome_iff_exists.mp known.2
      obtain ⟨batch, bkey, added, more⟩ :=
        Batch.add_of_additions so_far room addr (ConnectionItems.useRouter side shared) key
      simp only [ConnectionItems.batchAdd, found, streaming, peer, added, bind_eq_bind,
        bind_some]
      exact ⟨_, rfl, more⟩

theorem roundLoop_skip (n : Nat) {index : Nat} (batched : List Nat)
    (valid : items.Valid side AnyPeer false) (inside : index < items.nodes.capacity)
    (unknown : registered side items index = false) :
    roundLoop side (n + 1) items index batched = roundLoop side n items (index + 1) batched := by
  rw [roundLoop, if_neg (Nat.not_le_of_lt inside)]
  by_cases streams : items.canStream side index = true
  · rw [if_pos streams, batchAdd_unknown valid streams unknown]
    rfl
  · rw [if_neg streams]

theorem roundLoop_spec (n : Nat) {index additions : Nat}
    (batched : List Nat) (valid : items.Valid side AnyPeer false)
    (below : ∀ key c addr, items.batch.Holds key c addr → c < index)
    (inside : index ≤ items.nodes.capacity)
    (so_far : items.batch.Additions additions) (room : additions + n ≤ items.batch.capacity) :
    ∃ items' news, roundLoop side n items index batched =
        some (items', min (index + n) items.nodes.capacity, batched ++ news) ∧
      items'.Valid side AnyPeer false ∧ items'.nodes.capacity = items.nodes.capacity ∧
      items'.batch.capacity = items.batch.capacity ∧ news.Nodup ∧
      (∀ k ∈ news, index ≤ k ∧ k < min (index + n) items.nodes.capacity) ∧
      ∀ k, registered side items k = true → index ≤ k → k < min (index + n) items.nodes.capacity →
        k ∈ news := by
  induction n generalizing items index additions batched with
  | zero =>
    refine ⟨items, [], ?_, valid, rfl, rfl, List.nodup_nil, by simp, ?_⟩
    · simp only [roundLoop, Nat.add_zero, Nat.min_eq_left inside, List.append_nil]
    · intro k _ low high
      omega
  | succ n ih =>
    by_cases past : items.nodes.capacity ≤ index
    · rw [roundLoop, if_pos past]
      refine ⟨items, [], ?_, valid, rfl, rfl, List.nodup_nil, by simp, ?_⟩
      · rw [List.append_nil, show min (index + (n + 1)) items.nodes.capacity = index by omega]
      · intro k _ low high
        omega
    · have ends : min (index + 1 + n) items.nodes.capacity = min
          (index + (n + 1)) items.nodes.capacity := by
        rw [show index + 1 + n = index + (n + 1) by omega]
      by_cases known : registered side items index = true
      · have streams : items.canStream side index = true := (Bool.and_eq_true_iff.mp known).1
        obtain ⟨items', reply, eq, valid', size, batch_size, same, holds⟩ :=
          ConnectionItems.batchAdd_spec valid streams
            (fun key addr held => absurd (below key index addr held) (Nat.lt_irrefl _))
              (fun _ => trivial)
        obtain ⟨items'', eq', more⟩ := batchAdd_known known so_far (by omega)
        rw [eq] at eq'
        cases eq'
        obtain ⟨last, news, ran, valid'', size', batch_size', once, range, all⟩ :=
          ih (batched ++ [index]) valid'
            (by
              intro key c addr held
              rcases holds key c addr held with rfl | old
              · omega
              · have := below key c addr old
                omega)
            (show index + 1 ≤ items'.nodes.capacity by omega) more (by omega)
        rw [size, ends] at ran range all
        refine ⟨last, index :: news, ?_, valid'', size'.trans size, batch_size'.trans batch_size,
          ?_, ?_, ?_⟩
        · simp only [roundLoop, past, if_false, streams, if_true, eq, bind_eq_bind,
            bind_some, ran, List.append_assoc, List.singleton_append]
        · refine List.nodup_cons.mpr ⟨?_, once⟩
          intro again
          have := (range index again).1
          omega
        · intro k mem
          rcases List.mem_cons.mp mem with rfl | later
          · omega
          · have := range k later
            omega
        · intro k there low high
          by_cases first : k = index
          · subst first
            exact List.mem_cons_self
          · refine List.mem_cons_of_mem _ (all k ?_ (by omega) high)
            rw [(same_connection (same k) side).2]
            exact there
      · have skipped :=
          roundLoop_skip n batched valid (Nat.lt_of_not_le past) (by simpa using known)
        obtain ⟨last, news, ran, valid', size, batch_size, once, range, all⟩ :=
          ih batched valid (fun key c addr held => Nat.lt_succ_of_lt (below key c addr held))
            (show index + 1 ≤ items.nodes.capacity by omega) so_far (by omega)
        rw [ends] at ran range all
        refine ⟨last, news, ?_, valid', size, batch_size, once, ?_, ?_⟩
        · rw [skipped, ran]
        · intro k mem
          have := range k mem
          omega
        · intro k there low high
          refine all k there ?_ high
          by_contra first
          have same : k = index := by omega
          subst same
          exact known there

structure Running (side : Side) (req stream : Nat) (w : Worker) : Prop where
  running : w.conns.stopping = false
  valid : w.conns.items.Valid side AnyPeer false
  size : w.conns.items.nodes.capacity = req + stream
  batchSize : w.conns.items.batch.capacity = kaBatch stream
  count : w.keepAliveCount < keepAliveBatches
  index : w.nextKeepAliveIndex = min (w.keepAliveCount * kaBatch stream) (req + stream)

theorem new_running (side : Side) (req stream : Nat) :
    (new req stream).Running side req stream := by
  refine ⟨rfl, ConnectionItems.new_valid _ _, ?_, ?_, show 0 < keepAliveBatches by decide, ?_⟩
  · simp [new, Connections.new, ConnectionItems.new, Slab.capacity, Slab.withCapacity]
  · simp [new, Connections.new, ConnectionItems.new, Batch.new, Batch.capacity, Slab.capacity,
      Slab.withCapacity]
  · simp [new]

theorem step_stopping {c c' : Connections} {event : ConnEvent}
    (going : event ≠ .batchClear) (stepped : c.step side event = some c') :
    c'.stopping = c.stopping := by
  cases event with
  | batchClear => exact absurd rfl going
  | add nkey id stream =>
    simp only [Connections.step] at stepped
    split at stepped
    · cases stepped
      rfl
    · cases stepped
  | _ =>
    simp only [Connections.step, Option.map_eq_some_iff] at stepped
    obtain ⟨_, _, rfl⟩ := stepped
    rfl

variable {w : Worker}

theorem allowed_conn {event : ConnEvent}
    (ok : w.allowed side (.conn event) = true) :
    w.conns.allowed side event = true ∧ event ≠ .batchClear := by
  cases event with
  | add nkey id stream =>
    simp only [allowed, Bool.and_eq_true] at ok
    exact ⟨ok.1, by simp⟩
  | batchAdd ckey => cases ok
  | batchClear => cases ok
  | _ => exact ⟨ok, by simp⟩

variable {req stream : Nat}

theorem conn_spec (inv : w.Running side req stream)
    {event : ConnEvent} (ok : w.allowed side (.conn event) = true) :
    ∃ w', w.step side (.conn event) = some w' ∧ w'.Running side req stream ∧
      w'.batched = w.batched ∧ w'.keepAliveCount = w.keepAliveCount := by
  obtain ⟨may, going⟩ := allowed_conn ok
  have valid : w.conns.items.Valid side AnyPeer w.conns.stopping := by
    rw [inv.running]
    exact inv.valid
  obtain ⟨conns, eq, valid', size, batch_size⟩ :=
    Connections.step_valid (fun _ => trivial) valid event may (fun _ _ _ _ _ _ => trivial)
  have running : conns.stopping = false := (step_stopping going eq).trans inv.running
  rw [running] at valid'
  have counted : ∀ w : Worker, (w.countConns event).batched = w.batched ∧
      (w.countConns event).keepAliveCount = w.keepAliveCount ∧
      (w.countConns event).nextKeepAliveIndex = w.nextKeepAliveIndex := by
    intro w
    unfold countConns
    split
    · split <;> exact ⟨rfl, rfl, rfl⟩
    · split <;> exact ⟨rfl, rfl, rfl⟩
    · exact ⟨rfl, rfl, rfl⟩
  obtain ⟨batched, count, index⟩ := counted w
  refine ⟨{ w.countConns event with
    conns }, by simp only [step, eq, map_some], ?_, batched, count⟩
  refine ⟨running, valid', size.trans inv.size, batch_size.trans inv.batchSize, ?_, ?_⟩
  · simp only [count]
    exact inv.count
  · simp only [index, count]
    exact inv.index

theorem round_spec (inv : w.Running side req stream)
    (empty : w.conns.items.batch.isEmpty = true) :
    ∃ w' news, w.step side .round = some w' ∧ w'.Running side req stream ∧
      w'.batched = w.batched ++ news ∧
      (w.keepAliveCount + 1 < keepAliveBatches → w'.keepAliveCount = w.keepAliveCount + 1) ∧
      ∀ key, registered side w.conns.items key = true → news.count key =
        if min (w.keepAliveCount * kaBatch stream) (req + stream) ≤ key ∧
          key < min ((w.keepAliveCount + 1) * kaBatch stream) (req + stream) then 1 else 0 := by
  have none_held : ∀ key c addr, w.conns.items.batch.Holds key c addr →
      c < w.nextKeepAliveIndex := by
    intro key c addr held
    have filled := held.1
    rw [(Batch.isEmpty_iff _).mp empty] at filled
    cases filled
  have start : w.conns.items.batch.Additions 0 := by
    have none_there : w.conns.items.batch.nodes.len = 0 := by
      simpa [Batch.isEmpty, Slab.isEmpty] using empty
    exact ⟨Nat.le_of_eq none_there, Or.inl none_there⟩
  obtain ⟨items, news, eq, valid, size, batch_size, once, range, all⟩ :=
    roundLoop_spec w.conns.items.batch.capacity w.batched inv.valid none_held
      (by rw [inv.index, inv.size]; exact Nat.min_le_right _ _) start
        (Nat.le_of_eq (Nat.zero_add _))
  have ends : min (w.nextKeepAliveIndex + w.conns.items.batch.capacity)
    w.conns.items.nodes.capacity =
      min ((w.keepAliveCount + 1) * kaBatch stream) (req + stream) := by
    rw [inv.index, inv.size, inv.batchSize, Nat.add_mul, Nat.one_mul]
    omega
  rw [ends] at eq range all
  rw [inv.index] at range all
  have counts : ∀ key, registered side w.conns.items key = true → news.count key =
      if min (w.keepAliveCount * kaBatch stream) (req + stream) ≤ key ∧
        key < min ((w.keepAliveCount + 1) * kaBatch stream) (req + stream) then 1 else 0 := by
    intro key there
    split
    · rename_i scanned
      exact List.count_eq_one_of_mem once (all key there scanned.1 scanned.2)
    · rename_i passed_over
      refine List.count_eq_zero_of_not_mem ?_
      intro mem
      exact passed_over (range key mem)
  by_cases last : keepAliveBatches ≤ w.keepAliveCount + 1
  · refine ⟨{ w with
        conns := { w.conns with items }, batched := w.batched ++ news
        keepAliveCount := 0, nextKeepAliveIndex := 0 }, news, ?_, ?_, rfl,
          fun more => by omega, counts⟩
    · simp only [step, round, eq, bind_eq_bind, bind_some, if_pos last]
      rfl
    · refine ⟨inv.running, valid, size.trans inv.size, batch_size.trans inv.batchSize, ?_, ?_⟩
      · exact show 0 < keepAliveBatches by decide
      · simp only [Nat.zero_mul, Nat.zero_min]
  · refine ⟨{ w with
        conns := { w.conns with items }, batched := w.batched ++ news
        keepAliveCount := w.keepAliveCount + 1
        nextKeepAliveIndex := min ((w.keepAliveCount + 1) * kaBatch stream) (req + stream) },
      news, ?_, ?_, rfl, fun _ => rfl, counts⟩
    · simp only [step, round, eq, bind_eq_bind, bind_some, if_neg last]
      rfl
    · exact ⟨inv.running, valid, size.trans inv.size, batch_size.trans inv.batchSize,
        Nat.lt_of_not_le last, rfl⟩

theorem cycle_counts
    (covered : req + stream ≤ keepAliveBatches * kaBatch stream) (events : List WorkerEvent)
    (inv : w.Running side req stream) {done : Nat}
    (left : done + rounds events = keepAliveBatches)
    (at_count : done < keepAliveBatches → w.keepAliveCount = done)
    (ok : along (step side) (allowed side) w events = true) (bound : key < req + stream)
    (stays : along (step side) (fun w _ => registered side w.conns.items key) w events = true) :
    ∃ w' news, run (step side) w events = some w' ∧ w'.batched = w.batched ++ news ∧
      news.count key = if min (done * kaBatch stream) (req + stream) ≤ key then 1 else 0 := by
  induction events generalizing w done with
  | nil =>
    refine ⟨w, [], rfl, by rw [List.append_nil], ?_⟩
    have past : done = keepAliveBatches := by simpa [rounds] using left
    rw [past, Nat.min_eq_right covered, if_neg (by omega)]
    rfl
  | cons event events ih =>
    simp only [along, Bool.and_eq_true] at ok stays
    cases event with
    | conn event =>
      obtain ⟨w', eq, inv', batched, count⟩ := conn_spec inv ok.1
      rw [eq] at ok stays
      have left' : done + rounds events = keepAliveBatches := by simpa [rounds] using left
      obtain ⟨last, news, ran, grown, counts⟩ :=
        ih inv' left' (fun more => count.trans (at_count more)) ok.2 stays.2
      exact ⟨last,
        news, by simp only [run, eq, bind_some, ran], by rw [grown, batched], counts⟩
    | round =>
      have left' : done + 1 + rounds events = keepAliveBatches := by
        simp only [rounds, List.countP_cons] at left ⊢
        simp only [if_true] at left
        omega
      have here := at_count (by omega)
      obtain ⟨w', early, eq, inv', batched, count, once⟩ := round_spec inv ok.1
      rw [eq] at ok stays
      obtain ⟨last, late, ran, grown, counts⟩ :=
        ih inv' left' (fun more => by rw [count (by omega), here]) ok.2 stays.2
      refine ⟨last, early ++ late, by simp only [run, eq, bind_some, ran], ?_, ?_⟩
      · rw [grown, batched, List.append_assoc]
      · rw [List.count_append, counts, once key stays.1, here]
        have grows : done * kaBatch stream ≤ (done + 1) * kaBatch stream :=
          Nat.mul_le_mul_right _ (by omega)
        split <;> split <;> split <;> omega

def fill (req : Nat) : Nat → Nat → List WorkerEvent
  | _, 0 => []
  | i, n + 1 => .conn (.add i [] (decide (req ≤ i))) :: fill req (i + 1) n

structure Filled (side : Side) (req stream i : Nat) (w : Worker) : Prop where
  inv : w.Running side req stream
  start : w.keepAliveCount = 0
  empty : w.conns.items.batch.isEmpty = true
  maxes : w.reqMax = req ∧ w.streamMax = stream
  counts : w.reqCount = min i req ∧ w.streamCount = i - req
  vacant : ∀ k, i ≤ k → w.conns.items.nodes.get? k = none
  added : ∀ k, k < i → ∃ id, w.conns.items.nodes.get? k =
    some ⟨id, Connections.newShared (decide (req ≤ k)), none⟩

theorem new_filled (side : Side) (req stream : Nat) :
    (new req stream).Filled side req stream 0 := by
  refine ⟨new_running side req stream, rfl, ?_, ⟨rfl, rfl⟩, ⟨by simp [new], by simp [new]⟩, ?_, ?_⟩
  · rw [Batch.isEmpty, Batch.isEmpty_iff]
    intro key
    exact Slab.get?_withCapacity _ key
  · intro k _
    exact Slab.get?_withCapacity _ k
  · intro k less
    omega

theorem fill_step {i : Nat} (filled : w.Filled side req stream i)
    (room : i < req + stream) :
    w.allowed side (.conn (.add i [] (decide (req ≤ i)))) = true ∧
      ∃ w', w.step side (.conn (.add i [] (decide (req ≤ i)))) = some w' ∧
        w'.Filled side req stream (i + 1) := by
  have vacant : w.conns.items.nodes.Vacant i := by
    refine ⟨?_, filled.vacant i (Nat.le_refl i)⟩
    rw [filled.inv.size]
    exact room
  have counts := filled.counts
  have maxes := filled.maxes
  have ok : w.allowed side (.conn (.add i [] (decide (req ≤ i)))) = true := by
    simp only [allowed, Connections.allowed, filled.inv.running, Bool.not_false, Bool.true_and,
      Bool.and_eq_true, decide_eq_true_eq]
    refine ⟨vacant, ?_⟩
    split <;> simp only [decide_eq_true_eq] <;> omega
  refine ⟨ok, ?_⟩
  obtain ⟨w', eq, inv, _, start⟩ := conn_spec filled.inv ok
  obtain ⟨items, added, _, ⟨id, nodes⟩, batch⟩ :=
    ConnectionItems.add_spec filled.inv.valid vacant [] (Connections.newShared (decide (req ≤ i)))
  refine ⟨w', eq, ?_⟩
  simp only [step, Connections.step, added, map_some, Option.some.injEq] at eq
  subst eq
  have values := Slab.get?_insert vacant.1
    (⟨id, Connections.newShared (decide (req ≤ i)), none⟩ : ConnectionItem)
  refine ⟨inv, start.trans filled.start, ?_, ?_, ?_, ?_, ?_⟩
  · simp only [batch]
    exact filled.empty
  · unfold countConns
    simp only
    split <;> exact maxes
  · unfold countConns
    simp only
    split
    · rename_i streaming
      simp only [decide_eq_true_eq] at streaming
      simp only
      omega
    · rename_i requesting
      simp only [decide_eq_true_eq] at requesting
      simp only
      omega
  · intro k beyond
    simp only [nodes, values]
    rw [if_neg (by omega)]
    exact filled.vacant k (by omega)
  · intro k less
    simp only [nodes, values]
    by_cases same : k = i
    · subst same
      exact ⟨id, by rw [if_pos rfl]⟩
    · rw [if_neg same]
      exact filled.added k (by omega)

theorem fill_run (n : Nat) {i : Nat}
    (filled : w.Filled side req stream i) (room : i + n ≤ req + stream) :
    along (step side) (allowed side) w (fill req i n) = true ∧
      ∃ w', run (step side) w (fill req i n) = some w' ∧ w'.Filled side req stream (i + n) := by
  induction n generalizing i w with
  | zero => exact ⟨rfl, w, rfl, filled⟩
  | succ n ih =>
    obtain ⟨ok, w', eq, filled'⟩ := fill_step filled (by omega)
    obtain ⟨oks, last, ran, full⟩ := ih filled' (by omega)
    refine ⟨?_, last, ?_, ?_⟩
    · simp only [fill, along, ok, eq, oks, Bool.and_self]
    · simp only [fill, run, eq, bind_some, ran]
    · rw [show i + (n + 1) = i + 1 + n by omega]
      exact full

structure LastOnly (side : Side) (req stream last : Nat) (w : Worker) : Prop where
  inv : w.Running side req stream
  empty : w.conns.items.batch.isEmpty = true
  inside : last < req + stream
  here : registered side w.conns.items last = true
  others : ∀ k, k < last → registered side w.conns.items k = false

variable {last : Nat}

theorem roundLoop_quiet (n : Nat) {index : Nat}
    (batched : List Nat) (valid : items.Valid side AnyPeer false)
    (inside : last < items.nodes.capacity)
    (others : ∀ k, k < last → registered side items k = false) (before : index + n ≤ last) :
    roundLoop side n items index batched = some (items, index + n, batched) := by
  induction n generalizing index with
  | zero => rfl
  | succ n ih =>
    rw [roundLoop_skip n batched valid (by omega) (others index (by omega)), ih (by omega)]
    rw [show index + 1 + n = index + (n + 1) by omega]

theorem quiet_round
    (only : w.LastOnly side req stream last) (beyond : keepAliveBatches * kaBatch stream ≤ last) :
    ∃ w', w.step side .round = some w' ∧ w'.LastOnly side req stream last ∧
      w'.batched = w.batched := by
  have inv := only.inv
  obtain ⟨w', news, eq, inv', _⟩ := round_spec inv only.empty
  have ends : (w.keepAliveCount + 1) * kaBatch stream ≤ keepAliveBatches * kaBatch stream :=
    Nat.mul_le_mul_right _ inv.count
  rw [Nat.add_mul, Nat.one_mul] at ends
  have scanned := roundLoop_quiet w.conns.items.batch.capacity w.batched inv.valid
    (by rw [inv.size]; exact only.inside) only.others
    (show w.nextKeepAliveIndex + w.conns.items.batch.capacity ≤ last by
      rw [inv.index, inv.batchSize]
      omega)
  refine ⟨w', eq, ?_⟩
  simp only [step, round, scanned, bind_eq_bind, bind_some] at eq
  split at eq
  · cases eq
    exact ⟨⟨inv', only.empty, only.inside, only.here, only.others⟩, rfl⟩
  · cases eq
    exact ⟨⟨inv', only.empty, only.inside, only.here, only.others⟩, rfl⟩

theorem quiet_cycle (n : Nat)
    (only : w.LastOnly side req stream last) (beyond : keepAliveBatches * kaBatch stream ≤ last) :
    along (step side) (allowed side) w (List.replicate n .round) = true ∧
      along (step side) (fun w _ => registered side w.conns.items last)
        w (List.replicate n .round) = true ∧
      ∃ w', run (step side) w (List.replicate n .round) = some w' ∧ w'.batched = w.batched := by
  induction n generalizing w with
  | zero => exact ⟨rfl, rfl, w, rfl, rfl⟩
  | succ n ih =>
    obtain ⟨w', eq, only', same⟩ := quiet_round only beyond
    obtain ⟨oks, stays, last_state, ran, same'⟩ := ih only'
    have empty : w.conns.items.batch.isEmpty = true := only.empty
    refine ⟨?_, ?_, last_state, ?_, same'.trans same⟩
    · simp only [List.replicate_succ, along, allowed, empty, eq, oks, Bool.and_self]
    · simp only [List.replicate_succ, along, only.here, eq, stays, Bool.and_self]
    · simp only [List.replicate_succ, run, eq, bind_some, ran]

structure Named (side : Side) (req stream last : Nat) (w : Worker) : Prop where
  inv : w.Running side req stream
  start : w.keepAliveCount = 0
  empty : w.conns.items.batch.isEmpty = true
  inside : last < req + stream
  here : ∃ id, w.conns.items.nodes.get? last = some ⟨some id, some .new, none⟩
  others : ∀ k, k < last →
    ∃ id stream, w.conns.items.nodes.get? k = some ⟨id, Connections.newShared stream, none⟩

theorem share_last (named : w.Named side req stream last)
    (peer : Addr) :
    w.allowed side (.conn (.share last (.toAddr (some peer)))) = true ∧
      ∃ w', w.step side (.conn (.share last (.toAddr (some peer)))) = some w' ∧
        w'.LastOnly side req stream last ∧ w'.keepAliveCount = 0 := by
  obtain ⟨id, found⟩ := named.here
  have ok : w.allowed side (.conn (.share last (.toAddr (some peer)))) = true := by
    simp only [allowed, Connections.allowed, Connections.streams, named.inv.running, found,
      bind_some, Bool.not_false, Bool.true_and, Option.isSome_some]
  refine ⟨ok, ?_⟩
  obtain ⟨w', eq, inv, _, start⟩ := conn_spec named.inv ok
  obtain ⟨items, shared, _, nodes, batch⟩ := ConnectionItems.share_spec named.inv.valid found rfl
    (StreamSharedData.setToAddr (some peer)) (fun _ _ => trivial)
  refine ⟨w', eq, ?_, start.trans named.start⟩
  simp only [step, Connections.step, Change.apply, shared, map_some, Option.some.injEq] at eq
  subst eq
  have values := ConnectionItems.values_set found
    ⟨some id, some (StreamSharedData.new.setToAddr (some peer)), none⟩
  refine ⟨inv, ?_, named.inside, ?_, ?_⟩
  · simp only [batch]
    exact named.empty
  · simp only [registered, ConnectionItems.canStream, nodes, values, if_true]
    cases side <;> rfl
  · intro k less
    obtain ⟨id', stream', there⟩ := named.others k less
    have other : k ≠ last := Nat.ne_of_lt less
    simp only [registered, nodes, values, if_neg other, there, bind_some]
    cases stream' <;> simp [Connections.newShared, StreamSharedData.new]

def nameLast (side : Side) (last : Nat) : List WorkerEvent :=
  match side with
  | .server => []
  | .client => [.conn (.setId last (some []))]

theorem name_last (some_stream : 1 ≤ stream)
    (full : w.Filled side req stream (req + stream)) :
    along (step side) (allowed side) w (nameLast side (req + stream - 1)) = true ∧
      ∃ w', run (step side) w (nameLast side (req + stream - 1)) = some w' ∧
        w'.Named side req stream (req + stream - 1) := by
  obtain ⟨id, found⟩ := full.added (req + stream - 1) (by omega)
  have streaming : decide (req ≤ req + stream - 1) = true := decide_eq_true (by omega)
  rw [streaming] at found
  have others : ∀ k, k < req + stream - 1 →
      ∃ id stream, w.conns.items.nodes.get? k = some ⟨id, Connections.newShared stream, none⟩ := by
    intro k less
    obtain ⟨id', there⟩ := full.added k (by omega)
    exact ⟨id', _, there⟩
  cases side with
  | server =>
    obtain ⟨name, same⟩ := Option.isSome_iff_exists.mp (full.inv.valid.named rfl found)
    simp only at same
    subst same
    exact ⟨rfl, w, rfl, full.inv, full.start, full.empty, by omega, ⟨name, found⟩, others⟩
  | client =>
    have ok : w.allowed .client (.conn (.setId (req + stream - 1) (some []))) = true := by
      simp only [allowed, Connections.allowed, Connections.present, full.inv.running, found,
        Bool.not_false, Bool.true_and, Option.isSome_some, beq_self_eq_true]
    obtain ⟨w', eq, inv, _, start⟩ := conn_spec full.inv ok
    refine ⟨by simp only [nameLast, along, ok, eq, Bool.and_self], w',
      by simp only [nameLast, run, eq, bind_some], ?_⟩
    have unbatched :
        w'.conns.items = w.conns.items.set (req + stream - 1) ⟨some [], some .new, none⟩ := by
      simp only [step, Connections.step, ConnectionItems.setId, found, bind_eq_bind,
        bind_some, Option.pure_def, map_some, Option.some.injEq] at eq
      rw [← eq]
      rfl
    have values := ConnectionItems.values_set found ⟨some [], some .new, none⟩
    refine ⟨inv, start.trans full.start, ?_, by omega, ⟨[], ?_⟩, ?_⟩
    · rw [unbatched]
      exact full.empty
    · simp only [unbatched, ConnectionItems.set, values, if_true]
    · intro k less
      have other : k ≠ req + stream - 1 := Nat.ne_of_lt less
      simp only [unbatched, ConnectionItems.set, values, if_neg other]
      exact others k less

def lastRegistered (side : Side) (req stream : Nat) (peer : Addr) : List WorkerEvent :=
  fill req 0 (req + stream) ++ (nameLast side (req + stream - 1) ++
    [.conn (.share (req + stream - 1) (.toAddr (some peer)))])

theorem last_registered {side : Side} {req stream : Nat} (some_stream : 1 ≤ stream) (peer : Addr) :
    along (step side) (allowed side) (new req stream) (lastRegistered side req stream peer) = true ∧
      ∃ w, run (step side) (new req stream) (lastRegistered side req stream peer) = some w ∧
        w.LastOnly side req stream (req + stream - 1) ∧ w.keepAliveCount = 0 := by
  obtain ⟨ok₁, w₁, ran₁, full⟩ := fill_run (req + stream) (new_filled side req stream) (by omega)
  rw [Nat.zero_add] at full
  obtain ⟨ok₂, w₂, ran₂, named⟩ := name_last some_stream full
  obtain ⟨ok₃, w₃, eq₃, only, start⟩ := share_last named peer
  refine ⟨?_, w₃, ?_, only, start⟩
  · rw [lastRegistered, along_append ran₁, along_append ran₂, ok₁, ok₂]
    simp only [along, ok₃, eq₃, Bool.and_self]
  · rw [lastRegistered, run_append, ran₁, bind_some, run_append, ran₂, bind_some]
    simp only [run, eq₃, bind_some]

/-- With more keys than the rounds of a cycle scan, the last connection is never
    batched. -/
theorem not_covered (some_stream : 1 ≤ stream)
    (beyond : keepAliveBatches * kaBatch stream < req + stream) :
    ¬ CoversCycle side req stream := by
  intro covers
  obtain ⟨ok, w, ran, only, start⟩ := @last_registered side req stream some_stream Addr.empty
  obtain ⟨oks, stays, w', ran', same⟩ := quiet_cycle keepAliveBatches only (by omega)
  have all_rounds : rounds (List.replicate keepAliveBatches .round) = keepAliveBatches := by
    simp [rounds, List.countP_replicate]
  obtain ⟨last, news, ran'', grown, once⟩ := covers _ _ w ok ran start all_rounds oks _ stays
  rw [ran'] at ran''
  cases ran''
  rw [same] at grown
  have none_new : news = [] := List.self_eq_append_right.mp grown
  rw [none_new] at once
  cases once

theorem running_of_run {events : List WorkerEvent}
    (ok : along (step side) (allowed side) (new req stream) events = true)
    (ran : run (step side) (new req stream) events = some w) : w.Running side req stream := by
  obtain ⟨last, ran', inv⟩ := run_rule (fun w => w.Running side req stream) (by
    intro w event inv may
    cases event with
    | conn event =>
      obtain ⟨w', eq, inv', _⟩ := conn_spec inv may
      exact ⟨w', eq, inv'⟩
    | round =>
      obtain ⟨w', _, eq, inv', _⟩ := round_spec inv may
      exact ⟨w', eq, inv'⟩) events (new_running side req stream) ok
  rw [ran] at ran'
  cases ran'
  exact inv

/-- The keep alives cover every connection exactly when the rounds of a cycle
    scan as many keys as the table has. -/
theorem keep_alives_cover_iff (side : Side) (req stream : Nat) (some_stream : 1 ≤ stream) :
    CoversCycle side req stream ↔ req + stream ≤ keepAliveBatches * kaBatch stream := by
  constructor
  · intro covers
    by_contra beyond
    exact not_covered some_stream (Nat.lt_of_not_le beyond) covers
  · intro covered before cycle w ok ran start full oks key stays
    have inv := running_of_run ok ran
    have bound : key < req + stream := by
      cases cycle with
      | nil => cases full
      | cons event events =>
        simp only [along, registered, Bool.and_eq_true] at stays
        obtain ⟨ci, _, found, _⟩ := ConnectionItems.canStream_spec inv.valid stays.1.1
        rw [← inv.size]
        exact Slab.lt_capacity_of_get? found
    obtain ⟨w', news, ran', grown, counts⟩ :=
      cycle_counts covered cycle inv (show 0 + rounds cycle = keepAliveBatches by omega)
        (fun _ => start) oks bound stays
    refine ⟨w', news, ran', grown, ?_⟩
    rw [counts, if_pos (by omega)]

theorem hundred_of_each_are_covered : 1 ≤ 100 ∧ CoversCycle .server 100 100 :=
  ⟨by decide, (keep_alives_cover_iff .server 100 100 (by decide)).mpr (by decide)⟩

theorem one_request_leaves_a_stream_uncovered : ¬ CoversCycle .server 1 450 :=
  not_covered (by decide) (by decide)

end Worker
end PushpinConnmgr
