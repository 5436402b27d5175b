import Mathlib.Data.List.Perm.Basic
import Mathlib.Data.List.Nodup
import Mathlib.Logic.Function.Basic
import Pushpin.Core.TimerInvariant

/-!
The pool of idle connections of `connmgr/pool.rs`: a slab of items, a list of
nodes for each key and a timer wheel, all over the same items. A per-key list is
the sequence of its nodes. The slabs' choices of a slot are arguments, and
`none` is a panic.
-/
namespace PushpinPool
open PushpinTimer Slabs
open Function (update update_apply update_of_ne update_self)

def tickDurationMs : Nat := 10

def durationToTicksRoundDown (d : Nat) : Nat := d / 1000000 / tickDurationMs % 2 ^ 64

structure PoolItem (K V : Type) where
  key : K
  value : V
  timerId : Nat
  deriving DecidableEq, Repr

structure Pool (K V : Type) where
  nodes : Slab (PoolItem K V)
  byKey : K → Option (List Nat)
  wheel : TimerWheel
  start : Nat
  currentTicks : Nat

def settle {K : Type} [DecidableEq K] (byKey : K → Option (List Nat)) (key : K) (l : List Nat) :
    K → Option (List Nat) :=
  if l.isEmpty then update byKey key none else update byKey key (some l)

def getTicks (start t : Nat) : Nat := durationToTicksRoundDown (if t > start then t - start else 0)

namespace Pool
variable {K V : Type} [DecidableEq K]

def new (capacity start : Nat) : Pool K V :=
  ⟨Slab.withCapacity capacity, fun _ => none, TimerWheel.new capacity, start, 0⟩

def add (p : Pool K V) (key : K) (value : V) (expires nkey timerId : Nat) :
    Option (Pool K V × Except V Unit) :=
  if p.nodes.len = p.nodes.capacity then some (p, .error value)
  else do
    let (wheel, timer) ← p.wheel.add timerId (getTicks p.start expires) nkey
    let timerId ← timer.toOption
    let l := (p.byKey key).getD []
    return ({ p with
      nodes := p.nodes.insert nkey ⟨key, value, timerId⟩
      wheel := wheel
      byKey := update p.byKey key (some (l ++ [nkey])) }, .ok ())

def take (p : Pool K V) (key : K) : Option (Pool K V × Option V) :=
  match p.byKey key with
  | none => some (p, none)
  | some [] => some (p, none)
  | some (nkey :: l) => do
    let pi ← p.nodes.get? nkey
    return ({ p with
      byKey := settle p.byKey key l
      nodes := p.nodes.remove nkey
      wheel := p.wheel.remove pi.timerId }, some pi.value)

def advance (p : Pool K V) (ticks : Nat) : Option (Pool K V) :=
  if ticks > p.currentTicks then do
    let wheel ← p.wheel.update ticks
    return { p with wheel := wheel, currentTicks := ticks }
  else some p

def expire (p : Pool K V) (now : Nat) : Option (Pool K V × Option (K × V)) := do
  let p ← p.advance (getTicks p.start now)
  let (wheel, timer) ← p.wheel.takeExpired
  match timer with
  | none => return ({ p with wheel := wheel }, none)
  | some (_, nkey) =>
    let pi ← p.nodes.get? nkey
    let l ← p.byKey pi.key
    return ({ p with
      byKey := settle p.byKey pi.key (l.erase nkey)
      nodes := p.nodes.remove nkey
      wheel := wheel }, some (pi.key, pi.value))

end Pool

inductive Op (K V : Type) where
  | add (key : K) (value : V) (expires nkey timerId : Nat)
  | take (key : K)
  | expire (now : Nat)
  deriving Repr

inductive Out (K V : Type) where
  | added (result : Except V Unit)
  | taken (value : Option V)
  | expired (item : Option (K × V))

namespace Pool
variable {K V : Type} [DecidableEq K]

def step (p : Pool K V) : Op K V → Option (Pool K V × Out K V)
  | .add key value expires nkey timerId => do
    let (p, result) ← p.add key value expires nkey timerId
    return (p, .added result)
  | .take key => do
    let (p, value) ← p.take key
    return (p, .taken value)
  | .expire now => do
    let (p, item) ← p.expire now
    return (p, .expired item)

def run (p : Pool K V) : List (Op K V) → Option (Pool K V × List (Out K V))
  | [] => some (p, [])
  | op :: ops => do
    let (p, out) ← p.step op
    let (p, outs) ← p.run ops
    return (p, out :: outs)

/-- A slab hands out a vacant slot whenever it is not full. The clock does not
    go back, and its reading is within the 64 bits of ticks. -/
def Allowed (p : Pool K V) (clock : Nat) : Op K V → Prop
  | .add _ _ _ nkey timerId =>
    (p.nodes.len = p.nodes.capacity ∨ p.nodes.Vacant nkey) ∧
      (p.wheel.nodes.len = p.wheel.nodes.capacity ∨ p.wheel.nodes.Vacant timerId)
  | .take _ => True
  | .expire now => clock ≤ now ∧ (now - p.start) / 1000000 / tickDurationMs < 2 ^ 64

instance (p : Pool K V) (clock : Nat) (op : Op K V) : Decidable (p.Allowed clock op) := by
  cases op <;> simp only [Allowed] <;> infer_instance

def clockAfter (clock : Nat) : Op K V → Nat
  | .expire now => now
  | _ => clock

def allowedRun (p : Pool K V) (clock : Nat) : List (Op K V) → Bool
  | [] => true
  | op :: ops => decide (p.Allowed clock op) &&
      match p.step op with
      | some (p', _) => p'.allowedRun (clockAfter clock op) ops
      | none => true

end Pool

structure Entry (K V : Type) where
  key : K
  value : V
  expires : Nat

inductive Step {K V : Type} (capacity start : Nat) :
    List (Entry K V) → Op K V → Out K V → List (Entry K V) → Prop where
  | added {stored : List (Entry K V)} {key : K} {value : V} {expires nkey timerId : Nat}
      (room : stored.length < capacity) :
      Step capacity start stored (.add key value expires nkey timerId) (.added (.ok ()))
        (stored ++ [⟨key, value, getTicks start expires⟩])
  | full {stored : List (Entry K V)} {key : K} {value : V} {expires nkey timerId : Nat}
      (full : stored.length = capacity) :
      Step capacity start stored (.add key value expires nkey timerId)
        (.added (.error value)) stored
  | taken {before after : List (Entry K V)} {e : Entry K V} (oldest : ∀ b ∈ before, b.key ≠ e.key) :
      Step capacity start (before ++ e :: after) (.take e.key) (.taken (some e.value))
        (before ++ after)
  | missing {stored : List (Entry K V)} {key : K} (absent : ∀ b ∈ stored, b.key ≠ key) :
      Step capacity start stored (.take key) (.taken none) stored
  | expired {before after : List (Entry K V)} {e : Entry K V} {now : Nat}
      (due : e.expires ≤ getTicks start now) :
      Step capacity start (before ++ e :: after) (.expire now) (.expired (some (e.key, e.value)))
        (before ++ after)
  | nothing {stored : List (Entry K V)} {now : Nat} (early : ∀ b ∈ stored, getTicks start now <
      b.expires) : Step capacity start stored (.expire now) (.expired none) stored

inductive Steps {K V : Type} (capacity start : Nat) :
    List (Entry K V) → List (Op K V) → List (Out K V) → List (Entry K V) → Prop where
  | nil (stored : List (Entry K V)) : Steps capacity start stored [] [] stored
  | cons {s s' s'' : List (Entry K V)} {op : Op K V} {out : Out K V} {ops : List (Op K V)}
      {outs : List (Out K V)} (first : Step capacity start s op out s')
      (rest : Steps capacity start s' ops outs s'') :
      Steps capacity start s (op :: ops) (out :: outs) s''

section Conservation
variable {K V : Type}

def accepted : Op K V × Out K V → Option (K × V)
  | (.add key value _ _ _, .added (.ok _)) => some (key, value)
  | _ => none

def returned : Op K V × Out K V → Option (K × V)
  | (.take key, .taken (some value)) => some (key, value)
  | (.expire _, .expired (some item)) => some item
  | _ => none

def Entry.item (e : Entry K V) : K × V := (e.key, e.value)

variable {capacity start : Nat} {stored stored' : List (Entry K V)}

theorem step_conserves {op : Op K V} {out : Out K V}
    (step : Step capacity start stored op out stored') :
      (stored.map Entry.item ++ (accepted (op, out)).toList).Perm
      ((returned (op, out)).toList ++ stored'.map Entry.item) := by
  have left : ∀ (before after : List (Entry K V)) (e : Entry K V),
      ((before ++ e :: after).map Entry.item).Perm
        (e.item :: (before ++ after).map Entry.item) := by
    intro before after e
    rw [← List.map_cons]
    exact (List.perm_middle).map Entry.item
  cases step with
  | added room => simp [accepted, returned, Entry.item]
  | full full => simp [accepted, returned]
  | @taken before after e oldest =>
    simp only [accepted, returned, Option.toList_none, Option.toList_some, List.append_nil]
    exact left before after e
  | missing absent => simp [accepted, returned]
  | @expired before after e now due =>
    simp only [accepted, returned, Option.toList_none, Option.toList_some, List.append_nil]
    exact left before after e
  | nothing early => simp [accepted, returned]

theorem steps_conserve {ops : List (Op K V)} {outs : List (Out K V)}
    (steps : Steps capacity start stored ops outs stored') :
    (stored.map Entry.item ++ (ops.zip outs).filterMap accepted).Perm
      ((ops.zip outs).filterMap returned ++ stored'.map Entry.item) := by
  induction steps with
  | nil stored => simp
  | @cons s s' s'' op out ops outs first rest ih =>
    have consed : ∀ (f : Op K V × Out K V → Option (K × V)),
        (((op :: ops).zip (out :: outs)).filterMap f) = (f (op, out)).toList ++
          (ops.zip outs).filterMap f := by
      intro f
      rw [List.zip_cons_cons, List.filterMap_cons]
      cases f (op, out) <;> rfl
    rw [consed, consed, ← List.append_assoc]
    refine ((step_conserves first).append_right _).trans ?_
    rw [List.append_assoc, List.append_assoc]
    exact ih.append_left _

end Conservation

namespace Pool
variable {K V : Type} [DecidableEq K] {p : Pool K V} {items : List (Nat × Entry K V)}

def nodesOf (items : List (Nat × Entry K V)) (key : K) : List Nat :=
  (items.filter fun x => x.2.key == key).map Prod.fst

def queueOf (items : List (Nat × Entry K V)) (key : K) : Option (List Nat) :=
  if nodesOf items key = [] then none else some (nodesOf items key)

/-- The pool's slab, lists and wheel hold these entries, each at its node. -/
structure Represents (p : Pool K V) (items : List (Nat × Entry K V)) : Prop where
  nodup : (items.map Prod.fst).Nodup
  node : ∀ nkey e, (nkey, e) ∈ items → ∃ timerId, p.nodes.get? nkey = some ⟨e.key, e.value,
    timerId⟩ ∧ p.wheel.live timerId = some (e.expires, nkey)
  listed : ∀ nkey pi, p.nodes.get? nkey = some pi → ∃ e, (nkey, e) ∈ items
  timed : ∀ timerId expires nkey, p.wheel.live timerId = some (expires, nkey) →
    ∃ pi, p.nodes.get? nkey = some pi ∧ pi.timerId = timerId
  byKey : p.byKey = queueOf items
  wheel : p.wheel.Valid []
  capacity : p.wheel.nodes.capacity = p.nodes.capacity
  nodesLen : p.nodes.len = items.length
  wheelLen : p.wheel.nodes.len = items.length
  clock : p.wheel.curtime = p.currentTicks

theorem new_represents (capacity start : Nat) : (new capacity start : Pool K V).Represents [] := by
  have empty : ∀ (α : Type), (Slab.withCapacity capacity : Slab α).len = 0 := by
    intro α
    rw [Slab.len_eq_zero_iff]
    exact Slab.get?_withCapacity capacity
  constructor
  · exact List.nodup_nil
  · intro nkey e mem
    exact absurd mem List.not_mem_nil
  · intro nkey pi found
    simp [new, Slab.get?_withCapacity] at found
  · intro timerId expires nkey known
    simp [new, TimerWheel.new, TimerWheel.live] at known
  · funext key
    rfl
  · exact TimerWheel.new_timers_valid capacity
  · simp [new, TimerWheel.new, Slab.capacity, Slab.withCapacity]
  · exact empty _
  · exact empty _
  · rfl

section
variable {w w' : TimerWheel} {timerId : Nat} {x : Nat × Nat}

theorem wheel_len_added (vacant : w.nodes.Vacant timerId)
    (live : w'.live = update w.live timerId (some x))
    (capacity : w'.nodes.capacity = w.nodes.capacity) :
    w'.nodes.len = w.nodes.len + 1 := by
  rw [← Slab.len_insert vacant ⟨x.1, none, x.2⟩]
  apply Slab.len_congr
  · rw [Slab.capacity_insert, capacity]
  · intro k
    have used : ∀ v : TimerWheel, (v.nodes.get? k).isSome = (v.live k).isSome := by
      intro v
      rw [TimerWheel.live, Option.isSome_map]
    rw [Slab.get?_insert vacant.1, used, live, update_apply]
    split
    · rfl
    · exact (used w).symm

theorem wheel_len_dropped (known : w.live timerId = some x)
    (live : w'.live = update w.live timerId none)
    (capacity : w'.nodes.capacity = w.nodes.capacity) :
    w'.nodes.len + 1 = w.nodes.len := by
  have gone : w'.nodes.Vacant timerId := by
    obtain ⟨n, found, _⟩ := Option.map_eq_some_iff.mp known
    refine ⟨capacity ▸ Slab.lt_capacity_of_get? found, ?_⟩
    have here := congrFun live timerId
    rw [update_self] at here
    exact Option.map_eq_none_iff.mp here
  have back : w.live = update w'.live timerId (some x) := by
    rw [live, Function.update_idem, ← known, Function.update_eq_self]
  exact (wheel_len_added gone back capacity.symm).symm

end

@[simp] theorem nodesOf_nil (key : K) : nodesOf ([] : List (Nat × Entry K V)) key = [] := rfl

theorem nodesOf_append (xs ys : List (Nat × Entry K V)) (key : K) :
    nodesOf (xs ++ ys) key = nodesOf xs key ++ nodesOf ys key := by
  simp [nodesOf]

theorem nodesOf_cons (nkey : Nat) (e : Entry K V) (ys : List (Nat × Entry K V)) (key : K) :
    nodesOf ((nkey, e) :: ys) key = (if e.key = key then [nkey] else []) ++ nodesOf ys key := by
  simp only [nodesOf, List.filter_cons, beq_iff_eq]
  split <;> rfl

theorem mem_nodesOf {nkey : Nat} {key : K} :
    nkey ∈ nodesOf items key ↔ ∃ e, (nkey, e) ∈ items ∧ e.key = key := by
  simp only [nodesOf, List.mem_map, List.mem_filter, beq_iff_eq, Prod.exists]
  constructor
  · rintro ⟨n, e, ⟨mem, same⟩, rfl⟩
    exact ⟨e, mem, same⟩
  · rintro ⟨e, mem, same⟩
    exact ⟨nkey, e, ⟨mem, same⟩, rfl⟩

theorem settle_spec {before after : List (Nat × Entry K V)} {nkey : Nat} {e : Entry K V}
    (nodup : ((before ++ (nkey, e) :: after).map Prod.fst).Nodup) :
    settle (queueOf (before ++ (nkey, e) :: after)) e.key
        ((nodesOf (before ++ (nkey, e) :: after) e.key).erase nkey) = queueOf
        (before ++ after) := by
  have fresh : nkey ∉ nodesOf before e.key := by
    intro mem
    obtain ⟨e', mem, _⟩ := mem_nodesOf.mp mem
    rw [List.map_append, List.nodup_append] at nodup
    exact nodup.2.2 nkey (List.mem_map_of_mem mem) nkey (by simp) rfl
  have own : (nodesOf (before ++ (nkey, e) :: after) e.key).erase nkey = nodesOf
      (before ++ after) e.key := by
    rw [nodesOf_append, nodesOf_cons, if_pos rfl, List.erase_append_right _ fresh,
      List.singleton_append, List.erase_cons_head, nodesOf_append]
  have others : ∀ k, k ≠ e.key →
      nodesOf (before ++ (nkey, e) :: after) k = nodesOf (before ++ after) k := by
    intro k other
    rw [nodesOf_append, nodesOf_cons, if_neg (Ne.symm other), List.nil_append, nodesOf_append]
  funext k
  rw [own, settle]
  by_cases same : k = e.key
  · rw [same, queueOf]
    by_cases last : nodesOf (before ++ after) e.key = []
    · rw [last, if_pos List.isEmpty_nil, if_pos rfl, update_self]
    · rw [if_neg (by simpa using last), if_neg last, update_self]
  · have kept : queueOf (before ++ (nkey, e) :: after) k = queueOf (before ++ after) k := by
      rw [queueOf, queueOf, others k same]
    split
    · rw [update_of_ne same, kept]
    · rw [update_of_ne same, kept]

theorem Represents.drop {before after : List (Nat × Entry K V)} {nkey timerId : Nat} {e : Entry K V}
    (held : p.Represents (before ++ (nkey, e) :: after))
    (found : p.nodes.get? nkey = some ⟨e.key, e.value, timerId⟩) {p' : Pool K V}
    (nodes : p'.nodes = p.nodes.remove nkey)
    (byKey : p'.byKey = settle p.byKey e.key
    ((nodesOf (before ++ (nkey, e) :: after) e.key).erase nkey))
    (valid : p'.wheel.Valid []) (live : p'.wheel.live = update p.wheel.live timerId none)
    (capacity : p'.wheel.nodes.capacity = p.wheel.nodes.capacity)
    (clock : p'.wheel.curtime = p'.currentTicks) : p'.Represents (before ++ after) := by
  have mem : (nkey, e) ∈ before ++ (nkey, e) :: after := by simp
  obtain ⟨timerId', found', known⟩ := held.node nkey e mem
  obtain rfl : timerId' = timerId := by
    rw [found] at found'
    exact (congrArg PoolItem.timerId (Option.some.inj found')).symm
  have sub : (before ++ after).Sublist (before ++ (nkey, e) :: after) :=
    (List.sublist_cons_self _ after).append_left before
  have other : ∀ k e', (k, e') ∈ before ++ after → k ≠ nkey := by
    intro k e' inside same
    have perm : ((before ++ (nkey, e) :: after).map Prod.fst).Perm
        (nkey :: (before ++ after).map Prod.fst) := (List.perm_middle).map Prod.fst
    have fresh := (List.nodup_cons.mp (perm.nodup_iff.mp held.nodup)).1
    exact fresh (same ▸ List.mem_map_of_mem inside)
  have shorter : (before ++ (nkey, e) :: after).length = (before ++ after).length + 1 := by
    simp only [List.length_append, List.length_cons]
    omega
  constructor
  · exact held.nodup.sublist (sub.map Prod.fst)
  · intro k e' inside
    have apart := other k e' inside
    obtain ⟨t, here, timer⟩ := held.node k e' (sub.subset inside)
    refine ⟨t, by rw [nodes, Slab.get?_remove, if_neg apart, here], ?_⟩
    rw [live, update_of_ne, timer]
    intro same
    rw [same, known] at timer
    exact apart (congrArg Prod.snd (Option.some.inj timer)).symm
  · intro k pi here
    rw [nodes, Slab.get?_remove] at here
    split at here
    · cases here
    · rename_i apart
      obtain ⟨e', inside⟩ := held.listed k pi here
      refine ⟨e', ?_⟩
      simp only [List.mem_append, List.mem_cons, Prod.mk.injEq] at inside ⊢
      tauto
  · intro t expires k timer
    rw [live, update_apply] at timer
    split at timer
    · cases timer
    · rename_i apart
      obtain ⟨pi, here, same⟩ := held.timed t expires k timer
      refine ⟨pi, ?_, same⟩
      rw [nodes, Slab.get?_remove, if_neg, here]
      intro eq
      rw [eq, found] at here
      rw [← Option.some.inj here] at same
      exact apart same.symm
  · rw [byKey, held.byKey, settle_spec held.nodup]
  · exact valid
  · rw [capacity, nodes, Slab.capacity_remove, held.capacity]
  · have fewer := Slab.len_remove found
    rw [← nodes, held.nodesLen] at fewer
    omega
  · have fewer := wheel_len_dropped known live capacity
    rw [held.wheelLen] at fewer
    omega
  · exact clock

section
variable (held : p.Represents items)
include held

theorem Represents.push {nkey timerId : Nat} {e : Entry K V}
    (vacant : p.nodes.Vacant nkey) (free : p.wheel.nodes.Vacant timerId) {p' : Pool K V}
    (nodes : p'.nodes = p.nodes.insert nkey ⟨e.key, e.value, timerId⟩)
    (byKey : p'.byKey = update p.byKey e.key (some ((p.byKey e.key).getD [] ++ [nkey])))
    (valid : p'.wheel.Valid [])
    (live : p'.wheel.live = update p.wheel.live timerId (some (e.expires, nkey)))
    (capacity : p'.wheel.nodes.capacity = p.wheel.nodes.capacity)
    (clock : p'.wheel.curtime = p'.currentTicks) : p'.Represents (items ++ [(nkey, e)]) := by
  have unused : p.wheel.live timerId = none := by
    rw [TimerWheel.live, free.2]
    rfl
  have fresh : ∀ e, (nkey, e) ∉ items := by
    intro e mem
    obtain ⟨_, found, _⟩ := held.node nkey e mem
    rw [vacant.2] at found
    cases found
  constructor
  · rw [List.map_append, List.nodup_append]
    refine ⟨held.nodup, List.nodup_singleton _, ?_⟩
    intro a mem b last same
    obtain ⟨⟨k, e⟩, inside, rfl⟩ := List.mem_map.mp mem
    rw [List.map_singleton, List.mem_singleton] at last
    obtain rfl : k = nkey := same.trans last
    exact fresh e inside
  · intro k x mem
    rcases List.mem_append.mp mem with old | new
    · obtain ⟨t, found, known⟩ := held.node k x old
      refine ⟨t, ?_, ?_⟩
      · rw [nodes, Slab.get?_insert vacant.1, if_neg, found]
        rintro rfl
        exact fresh x old
      · rw [live, update_of_ne, known]
        rintro rfl
        rw [unused] at known
        cases known
    · cases List.mem_singleton.mp new
      exact ⟨timerId, by rw [nodes, Slab.get?_insert vacant.1, if_pos rfl], by rw [live,
        update_self]⟩
  · intro k pi found
    rw [nodes, Slab.get?_insert vacant.1] at found
    split at found
    · rename_i here
      exact ⟨_, List.mem_append_right items (by rw [here]; exact List.mem_singleton.mpr rfl)⟩
    · obtain ⟨x, mem⟩ := held.listed k pi found
      exact ⟨x, List.mem_append_left _ mem⟩
  · intro t due k known
    rw [live, update_apply] at known
    rw [nodes]
    split at known
    · rename_i here
      cases known
      exact ⟨_, by rw [Slab.get?_insert vacant.1, if_pos rfl], here.symm⟩
    · obtain ⟨pi, found, same⟩ := held.timed t due k known
      refine ⟨pi, ?_, same⟩
      rw [Slab.get?_insert vacant.1, if_neg, found]
      rintro rfl
      rw [vacant.2] at found
      cases found
  · funext k
    have queued : (p.byKey e.key).getD [] = nodesOf items e.key := by
      rw [held.byKey, queueOf]
      split
      · rename_i none
        rw [none]
        rfl
      · rfl
    rw [byKey, update_apply, queued, queueOf, nodesOf_append, nodesOf_cons]
    by_cases same : k = e.key
    · simp [same]
    · rw [if_neg same, if_neg (Ne.symm same), held.byKey, queueOf, nodesOf_nil, List.append_nil,
        List.append_nil]
  · exact valid
  · rw [capacity, held.capacity, nodes, Slab.capacity_insert]
  · rw [nodes, Slab.len_insert vacant, held.nodesLen, List.length_append]
    rfl
  · rw [wheel_len_added free live capacity, held.wheelLen, List.length_append]
    rfl
  · exact clock

theorem add_spec (key : K) (value : V) (expires : Nat)
    {nkey timerId : Nat} (node : p.nodes.len = p.nodes.capacity ∨ p.nodes.Vacant nkey)
    (timer : p.wheel.nodes.len = p.wheel.nodes.capacity ∨ p.wheel.nodes.Vacant timerId) :
    (items.length = p.nodes.capacity ∧
    p.add key value expires nkey timerId = some (p, .error value)) ∨
      items.length < p.nodes.capacity ∧ ∃ p', p.add key value expires nkey timerId = some (p',
        .ok ()) ∧ p'.Represents (items ++ [(nkey, ⟨key, value, getTicks p.start expires⟩)]) ∧
        p'.nodes.capacity = p.nodes.capacity ∧ p'.start = p.start ∧
          p'.currentTicks = p.currentTicks := by
  by_cases full : p.nodes.len = p.nodes.capacity
  · exact Or.inl ⟨held.nodesLen ▸ full, by rw [add, if_pos full]⟩
  right
  have vacant := node.resolve_left full
  have room := Slab.vacant_len_lt vacant
  -- The wheel holds as many timers as the slab holds items, so it has room too.
  have free := timer.resolve_left fun all => by
    rw [held.wheelLen, held.capacity, ← held.nodesLen] at all
    exact full all
  obtain ⟨w, ran, valid, live, capacity, now⟩ :=
    TimerWheel.add_spec held.wheel (getTicks p.start expires) nkey free
  refine ⟨held.nodesLen ▸ room, { p with
    nodes := p.nodes.insert nkey ⟨key, value, timerId⟩
    wheel := w
    byKey := update p.byKey key (some ((p.byKey key).getD [] ++ [nkey])) }, ?_, ?_, ?_,
      rfl, rfl⟩
  · simp only [add, if_neg full, ran, Option.bind_eq_bind, Option.bind_some, Except.toOption]
    rfl
  · exact held.push vacant free rfl rfl valid live capacity (now.trans held.clock)
  · exact Slab.capacity_insert _ _ _

theorem take_spec (key : K) :
    ((∀ x ∈ items, x.2.key ≠ key) ∧ p.take key = some (p, none)) ∨
      ∃ before after nkey e p', items = before ++ (nkey, e) :: after ∧ e.key = key ∧
        (∀ x ∈ before, x.2.key ≠ key) ∧ p.take key = some (p', some e.value) ∧
        p'.Represents (before ++ after) ∧
        p'.nodes.capacity = p.nodes.capacity ∧ p'.start = p.start ∧
          p'.currentTicks = p.currentTicks := by
  cases mine : items.filter fun x => x.2.key == key with
  | nil =>
    left
    have empty : nodesOf items key = [] := by rw [nodesOf, mine, List.map_nil]
    constructor
    · intro x mem same
      have := List.filter_eq_nil_iff.mp mine x mem
      exact this (beq_iff_eq.mpr same)
    · rw [take, held.byKey, queueOf, if_pos empty]
  | cons first rest =>
    right
    obtain ⟨nkey, e⟩ := first
    obtain ⟨before, after, rfl, others, own, later⟩ := List.filter_eq_cons_iff.mp mine
    rw [beq_iff_eq] at own
    obtain ⟨timerId, found, known⟩ := held.node nkey e (by simp)
    have queue : nodesOf (before ++ (nkey, e) :: after) key = nkey :: rest.map Prod.fst := by
      rw [nodesOf, mine, List.map_cons]
    have listed : p.byKey key = some (nkey :: rest.map Prod.fst) := by
      rw [held.byKey, queueOf, queue, if_neg (List.cons_ne_nil _ _)]
    obtain ⟨valid, live, capacity, now⟩ := TimerWheel.remove_spec held.wheel timerId
    refine ⟨before, after, nkey, e, { p with
      byKey := settle p.byKey key (rest.map Prod.fst)
      nodes := p.nodes.remove nkey
      wheel := p.wheel.remove timerId }, rfl, own, ?_, ?_, ?_, Slab.capacity_remove _ _, rfl, rfl⟩
    · intro x mem same
      exact others x mem (beq_iff_eq.mpr same)
    · simp only [take, listed, found, Option.bind_eq_bind, Option.bind_some]
      rfl
    · refine held.drop found rfl ?_ valid live capacity (now.trans held.clock)
      rw [own, queue, List.erase_cons_head]

theorem advance_spec (ticks : Nat) :
    ∃ p', p.advance ticks = some p' ∧ p'.Represents items ∧ p'.nodes.capacity = p.nodes.capacity ∧
      p'.start = p.start ∧ p'.currentTicks = max p.currentTicks ticks := by
  by_cases later : ticks > p.currentTicks
  · obtain ⟨w, ran, valid, live, capacity, now⟩ := TimerWheel.update_spec held.wheel ticks
    have same : w.nodes.len = p.wheel.nodes.len := by
      apply Slab.len_congr capacity
      intro k
      have here := congrArg Option.isSome (congrFun live k)
      rwa [TimerWheel.live, TimerWheel.live, Option.isSome_map, Option.isSome_map] at here
    refine ⟨{ p with wheel := w, currentTicks := ticks }, ?_, ?_, rfl, rfl,
      (Nat.max_eq_right (Nat.le_of_lt later)).symm⟩
    · simp only [advance, if_pos later, ran, Option.bind_eq_bind, Option.bind_some]
      rfl
    · constructor
      · exact held.nodup
      · rw [live]
        exact held.node
      · exact held.listed
      · rw [live]
        exact held.timed
      · exact held.byKey
      · exact valid
      · rw [capacity, held.capacity]
      · exact held.nodesLen
      · rw [same, held.wheelLen]
      · rw [now, held.clock]
        exact Nat.max_eq_right (Nat.le_of_lt later)
  · refine ⟨p, by rw [advance, if_neg later], held, rfl, rfl, ?_⟩
    exact (Nat.max_eq_left (Nat.le_of_not_lt later)).symm

theorem expire_spec (now : Nat)
    (forward : p.currentTicks ≤ getTicks p.start now) :
    ∃ p', p'.nodes.capacity = p.nodes.capacity ∧ p'.start = p.start ∧
      p'.currentTicks = getTicks p.start now ∧
      ((∀ x ∈ items, getTicks p.start now < x.2.expires) ∧ p.expire now = some (p', none) ∧
          p'.Represents items ∨
        ∃ before after nkey e, items = before ++ (nkey, e) :: after ∧
          e.expires ≤ getTicks p.start now ∧
          p.expire now = some (p', some (e.key, e.value)) ∧ p'.Represents (before ++ after)) := by
  obtain ⟨q, moved, held, capacity, start, clock⟩ := advance_spec held (getTicks p.start now)
  rw [Nat.max_eq_right forward] at clock
  cases late : q.wheel.expired with
  | nil =>
    refine ⟨q, capacity, start, clock, Or.inl ⟨?_, ?_, held⟩⟩
    · rintro ⟨nkey, e⟩ mem
      by_contra due
      obtain ⟨timerId, _, known⟩ := held.node nkey e mem
      have listed := (TimerWheel.mem_expired_iff held.wheel timerId).mpr
        ⟨e.expires, nkey, known, by rw [held.clock, clock]; exact Nat.le_of_not_lt due⟩
      rw [late] at listed
      exact List.not_mem_nil listed
    · simp only [expire, moved, TimerWheel.takeExpired_nil late, Option.bind_eq_bind,
        Option.bind_some]
      rfl
  | cons timerId rest =>
    obtain ⟨w, expires, nkey, taken, valid, known, due, live, _, slots, same⟩ :=
      TimerWheel.takeExpired_cons held.wheel late
    obtain ⟨pi, found, owner⟩ := held.timed timerId expires nkey known
    obtain ⟨e, mem⟩ := held.listed nkey pi found
    obtain ⟨timerId', found', known'⟩ := held.node nkey e mem
    rw [found] at found'
    cases Option.some.inj found'
    change timerId' = timerId at owner
    rw [owner, known] at known'
    obtain rfl : expires = e.expires := congrArg Prod.fst (Option.some.inj known')
    obtain ⟨before, after, rfl⟩ := List.append_of_mem mem
    have queue : nkey ∈ nodesOf (before ++ (nkey, e) :: after) e.key :=
      mem_nodesOf.mpr ⟨e, mem, rfl⟩
    have listed : q.byKey e.key = some (nodesOf (before ++ (nkey, e) :: after) e.key) := by
      rw [held.byKey, queueOf, if_neg (List.ne_nil_of_mem queue)]
    refine ⟨{ q with
      byKey := settle q.byKey e.key ((nodesOf (before ++ (nkey, e) :: after) e.key).erase nkey)
      nodes := q.nodes.remove nkey
      wheel := w }, ?_, start, clock, Or.inr ⟨before, after, nkey, e, rfl, ?_, ?_, ?_⟩⟩
    · rw [← capacity]
      exact Slab.capacity_remove _ _
    · rw [← clock, ← held.clock]
      exact due
    · simp only [expire, moved, taken, found, listed, Option.bind_eq_bind, Option.bind_some]
      rfl
    · rw [owner] at found
      exact held.drop found rfl rfl valid live slots (same.trans held.clock)

end

def entries (items : List (Nat × Entry K V)) : List (Entry K V) := items.map Prod.snd

theorem ticks_forward {start earlier later : Nat} (forward : earlier ≤ later)
    (small : (later - start) / 1000000 / tickDurationMs < 2 ^ 64) :
    getTicks start earlier ≤ getTicks start later := by
  have span : ∀ t, (if t > start then t - start else 0) = t - start := by
    intro t
    split <;> omega
  have le : (earlier - start) / 1000000 / tickDurationMs ≤
      (later - start) / 1000000 / tickDurationMs :=
    Nat.div_le_div_right (Nat.div_le_div_right (Nat.sub_le_sub_right forward start))
  unfold getTicks durationToTicksRoundDown
  rw [span, span, Nat.mod_eq_of_lt small, Nat.mod_eq_of_lt (Nat.lt_of_le_of_lt le small)]
  exact le

theorem step_refines (held : p.Represents items) {clock : Nat}
    (told : p.currentTicks ≤ getTicks p.start clock) (op : Op K V) (allowed : p.Allowed clock op) :
    ∃ p' out items', p.step op = some (p', out) ∧ p'.Represents items' ∧
      Step p.nodes.capacity p.start (entries items) op out (entries items') ∧
      p'.nodes.capacity = p.nodes.capacity ∧ p'.start = p.start ∧
      p'.currentTicks ≤ getTicks p.start (clockAfter clock op) := by
  cases op with
  | add key value expires nkey timerId =>
    rcases add_spec held key value expires allowed.1 allowed.2 with ⟨full, ran⟩ |
      ⟨room, p', ran, held', capacity, start, same⟩
    · refine ⟨p, _, items, by simp only [step, ran]; rfl, held, .full ?_, rfl, rfl, told⟩
      rw [entries, List.length_map, full]
    · refine ⟨p', _, _, by simp only [step, ran]; rfl, held', ?_, capacity, start, same ▸ told⟩
      rw [entries, entries, List.map_append]
      exact .added (by rw [List.length_map]; exact room)
  | take key =>
    rcases take_spec held key with ⟨absent, ran⟩ |
      ⟨before, after, nkey, e, p', rfl, rfl, oldest, ran, held', capacity, start, same⟩
    · refine ⟨p, _, items, by simp only [step, ran]; rfl, held, .missing ?_, rfl, rfl, told⟩
      intro b mem
      obtain ⟨x, inside, rfl⟩ := List.mem_map.mp mem
      exact absent x inside
    · refine ⟨p', _, _, by simp only [step, ran]; rfl, held', ?_, capacity, start, same ▸ told⟩
      rw [entries, entries, List.map_append, List.map_append]
      refine .taken ?_
      intro b mem
      obtain ⟨x, inside, rfl⟩ := List.mem_map.mp mem
      exact oldest x inside
  | expire now =>
    have forward := Nat.le_trans told (ticks_forward allowed.1 allowed.2)
    obtain ⟨p', capacity, start, ticks,
        ⟨early, ran, held'⟩ | ⟨before, after, nkey, e, rfl, due, ran, held'⟩⟩ :=
      expire_spec held now forward
    · refine ⟨p', _,
        items, by simp only [step, ran]; rfl, held', .nothing ?_, capacity, start,
          Nat.le_of_eq ticks⟩
      intro b mem
      obtain ⟨x, inside, rfl⟩ := List.mem_map.mp mem
      exact early x inside
    · refine ⟨p', _,
        _, by simp only [step, ran]; rfl, held', ?_, capacity, start, Nat.le_of_eq ticks⟩
      rw [entries, entries, List.map_append, List.map_append]
      exact .expired due

theorem run_refines (ops : List (Op K V)) (held : p.Represents items) {clock : Nat}
    (told : p.currentTicks ≤ getTicks p.start clock) (allowed : p.allowedRun clock ops = true) :
    ∃ p' outs items', p.run ops = some (p', outs) ∧ p'.Represents items' ∧
      Steps p.nodes.capacity p.start (entries items) ops outs (entries items') := by
  induction ops generalizing p items clock with
  | nil => exact ⟨p, [], items, rfl, held, .nil _⟩
  | cons op ops ih =>
    simp only [allowedRun, Bool.and_eq_true, decide_eq_true_eq] at allowed
    obtain ⟨p₁, out, items₁, stepped, held₁, first, capacity, start, told₁⟩ :=
      step_refines held told op allowed.1
    rw [← start] at told₁
    obtain ⟨p₂, outs, items₂, ran, held₂, rest⟩ :=
      ih held₁ told₁ (by simpa only [stepped] using allowed.2)
    rw [capacity, start] at rest
    refine ⟨p₂, out :: outs, items₂, ?_, held₂, .cons first rest⟩
    simp only [run, stepped, ran, Option.bind_eq_bind, Option.bind_some]
    rfl

theorem no_empty_list (held : p.Represents items) (key : K) : p.byKey key ≠ some [] := by
  rw [held.byKey, queueOf]
  split
  · intro h
    cases h
  · rename_i some_node
    intro empty
    exact some_node (Option.some.inj empty)

end Pool

/-- Every run of the pool is a run of the bounded collection and never panics.
    What was accepted has been handed out once, under its own key, or is still
    stored, and no empty list is kept for a key. -/
theorem pool_refines_collection {K V : Type} [DecidableEq K] (capacity start : Nat)
    (ops : List (Op K V))
    (allowed : (Pool.new capacity start : Pool K V).allowedRun start ops = true) :
    ∃ p outs stored, (Pool.new capacity start).run ops = some (p, outs) ∧
      Steps capacity start [] ops outs stored ∧
      ((ops.zip outs).filterMap accepted).Perm
      ((ops.zip outs).filterMap returned ++ stored.map Entry.item) ∧
      p.nodes.len = stored.length ∧ p.wheel.nodes.len = stored.length ∧
        ∀ key, p.byKey key ≠ some [] := by
  obtain ⟨p, outs, items, ran, held, steps⟩ :=
    Pool.run_refines ops (Pool.new_represents capacity start) (Nat.zero_le _) allowed
  have slots : (Pool.new capacity start : Pool K V).nodes.capacity = capacity := by
    simp [Pool.new, Slab.capacity, Slab.withCapacity]
  rw [slots] at steps
  refine ⟨p, outs, Pool.entries items, ran, steps, steps_conserve steps, ?_, ?_,
    Pool.no_empty_list held⟩
  · rw [held.nodesLen, Pool.entries, List.length_map]
  · rw [held.wheelLen, Pool.entries, List.length_map]

theorem mixed_run_refines_collection :
    let ms := 1000000
    let ops : List (Op Nat String) := [.add 1 "a" (1000 * ms) 0 0, .add 1 "b" (2000 * ms) 1 2,
      .add 2 "c" (3000 * ms) 2 1, .add 2 "d" 0 3 3, .take 1, .expire (1000 * ms),
        .expire (2000 * ms),
      .take 1, .take 2]
    ∃ p outs stored, (Pool.new 3 0).run ops = some (p, outs) ∧ Steps 3 0 [] ops outs stored ∧
      ((ops.zip outs).filterMap accepted).Perm
        ((ops.zip outs).filterMap returned ++ stored.map Entry.item) ∧
      p.nodes.len = stored.length ∧ p.wheel.nodes.len = stored.length ∧
        ∀ key, p.byKey key ≠ some [] :=
  pool_refines_collection 3 0 _ (by decide +kernel)

end PushpinPool
