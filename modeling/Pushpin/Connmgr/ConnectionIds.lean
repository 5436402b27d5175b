import Mathlib.Data.List.Nodup
import Mathlib.Logic.Function.Basic
import Pushpin.Foundations.Runs
import Pushpin.Foundations.Slab
import Pushpin.Foundations.Text
import Pushpin.Http.ChunkSending

/-!
The ids of a worker's connections: `gen_id` and `get_key` of `connmgr/server.rs`,
the prefix filters of `connmgr/zhttpsocket.rs`, and how a response finds the
connection it is for. Machine integers wrap; a `none` is a panic.
-/
namespace PushpinConnIds
open Slabs PushpinRingBuffer
open PushpinHttp (hexDigits hexByte)

def dash : Byte := 45

def idMax : Nat := 32

def idText (id ckey : UInt64) (nextCid : UInt32) : List Byte :=
  Decimal.text id.toNat ++ dash :: (Decimal.text ckey.toNat ++ dash :: hexDigits 8 nextCid.toNat)

def genId (id ckey : UInt64) (nextCid : UInt32) : Option (List Byte × UInt32) :=
  if (idText id ckey nextCid).length ≤ idMax then some (idText id ckey nextCid, nextCid + 1)
    else none

def dashes : List Byte → Nat → Option Nat → Option Nat × Option Nat
  | [], _, start => (start, none)
  | b :: id, i, start =>
    if b = dash then
      match start with
      | none => dashes id (i + 1) (some (i + 1))
      | some start => (some start, some i)
    else dashes id (i + 1) start

def getKey (id : List Byte) : Option Nat :=
  match dashes id 0 none with
  | (some start, some stop) =>
    let key := (id.take stop).drop start
    if Text.isUtf8 key then Text.parseUsize key else none
  | _ => none

def idPrefix (id : UInt64) : List Byte := Decimal.text id.toNat ++ [dash]

def doSend (filter : List Byte) (ids : List (List Byte)) : Bool :=
  ids.any fun id => filter.isPrefixOf id

structure Channel where
  queue : List (List (List Byte) × Nat)
  receiver : Bool
  deriving DecidableEq, Repr

def respSenderBound : Nat := 1

inductive TrySend where
  | sent
  | full
  | disconnected
  deriving DecidableEq, Repr

def Channel.trySend (c : Channel) (msg : List (List Byte) × Nat) : Channel × TrySend :=
  if c.receiver then
    if c.queue.length < respSenderBound then ({ c with queue := c.queue ++ [msg] }, .sent)
      else (c, .full)
  else (c, .disconnected)

/-- `serial` tells the connections apart that have had the same key. -/
structure Item where
  id : List Byte
  zreceiver : Channel
  serial : Nat
  deriving DecidableEq, Repr

structure Task where
  cid : List Byte
  serial : Nat
  deriving DecidableEq, Repr

/-- `generated` are the ids in the order of their making, with the connection
    that each was made for, and `taken` what the connections' tasks have read. -/
structure Worker where
  id : UInt64
  nodes : Slab Item
  nextCid : UInt32
  pool : List Channel
  tasks : Nat → Option Task
  born : Nat
  generated : List (Nat × List Byte)
  taken : List (Nat × List Byte)

namespace Worker

def new (id : UInt64) (maxconn : Nat) : Worker :=
  ⟨id, Slab.withCapacity maxconn, 0, List.replicate maxconn ⟨[], true⟩, fun _ => none, 0, [], []⟩

def setItem (w : Worker) (ckey : Nat) (ci : Item) : Worker :=
  { w with nodes := w.nodes.insert ckey ci }

def setTask (w : Worker) (ckey : Nat) (task : Option Task) : Worker :=
  { w with tasks := Function.update w.tasks ckey task }

def nextId (w : Worker) (ckey serial : Nat) : Option (Worker × List Byte) := do
  let (id, nextCid) ← genId w.id (UInt64.ofNat ckey) w.nextCid
  return ({ w with nextCid := nextCid, generated := w.generated ++ [(serial, id)] }, id)

def accept (w : Worker) (nkey : Nat) : Option Worker := do
  let zreceiver ← w.pool.getLast?
  if w.nodes.len = w.nodes.capacity then none
  let (w, id) ← w.nextId nkey w.born
  return ({ w with pool := w.pool.dropLast, born := w.born + 1 }.setItem nkey ⟨id, zreceiver,
    w.born⟩).setTask nkey (some ⟨id, w.born⟩)

def regenId (w : Worker) (ckey : Nat) : Option Worker := do
  let task ← w.tasks ckey
  let ci ← w.nodes.get? ckey
  let (w, id) ← w.nextId ckey ci.serial
  return (w.setItem ckey { ci with id := id }).setTask ckey (some { task with cid := id })

def checkId (w : Worker) (ckey : Nat) (id : List Byte) : Bool :=
  match w.nodes.get? ckey with
  | some ci => ci.id = id
  | none => false

def trySend (w : Worker) (ckey : Nat) (msg : List (List Byte) × Nat) : Option Worker := do
  let ci ← w.nodes.get? ckey
  return w.setItem ckey { ci with zreceiver := (ci.zreceiver.trySend msg).1 }

def route (ids : List (List Byte)) (w : Worker) (i : Nat) : Option Worker := do
  let id ← ids[i]?
  match getKey id with
  | none => return w
  | some key => if w.checkId key id then w.trySend key (ids, i) else return w

def handlePacket (w : Worker) (ids : List (List Byte)) : Option Worker :=
  (List.range ids.length).foldlM (route ids) w

/-- A task reads a message: it skips one to an old id and drops one that comes
    while it waits for something else. -/
def read (w : Worker) (ckey : Nat) : Option Worker := do
  let task ← w.tasks ckey
  let ci ← w.nodes.get? ckey
  match ci.zreceiver.queue with
  | [] => return w
  | (ids, i) :: queue => do
    let id ← ids[i]?
    return { w with taken := w.taken ++ [(task.serial, id)] }.setItem ckey
      { ci with zreceiver := { ci.zreceiver with queue := queue } }

def finish (w : Worker) (ckey : Nat) : Option Worker := do
  let ci ← w.nodes.get? ckey
  return (w.setItem ckey { ci with zreceiver := { ci.zreceiver with receiver := false } }).setTask
    ckey none

def done (w : Worker) (ckey : Nat) : Option Worker := do
  let ci ← w.nodes.get? ckey
  if ci.zreceiver.receiver then none
  return { w with nodes := w.nodes.remove ckey, pool := w.pool ++ [⟨[], true⟩] }

inductive Event where
  | accept (nkey : Nat)
  | regenId (ckey : Nat)
  | handlePacket (ids : List (List Byte))
  | read (ckey : Nat)
  | finish (ckey : Nat)
  | done (ckey : Nat)
  deriving Repr

def step (w : Worker) : Event → Option Worker
  | .accept nkey => w.accept nkey
  | .regenId ckey => w.regenId ckey
  | .handlePacket ids => w.handlePacket ids
  | .read ckey => w.read ckey
  | .finish ckey => w.finish ckey
  | .done ckey => w.done ckey

/-- The slab hands out a vacant slot, and a connection that is done has ended. -/
def allowed (w : Worker) : Event → Bool
  | .accept nkey => decide (w.nodes.Vacant nkey)
  | .regenId ckey => (w.tasks ckey).isSome
  | .read ckey => (w.tasks ckey).isSome
  | .finish ckey => (w.tasks ckey).isSome
  | .done ckey => (w.tasks ckey).isNone && (w.nodes.get? ckey).isSome
  | .handlePacket _ => true

end Worker

section Texts
variable {id ckey : UInt64} {cid : UInt32}

theorem decimal_no_dash (n : Nat) : ∀ c ∈ Decimal.text n, c ≠ dash := by
  intro c mem same
  have all := List.all_eq_true.mp (Decimal.text_all n) c mem
  rw [same] at all
  cases all

theorem hexByte_injective {a b : Nat} (small : a < 16) (small' : b < 16)
    (same : hexByte a = hexByte b) : a = b := by
  have all : ∀ a b : Fin 16, hexByte a = hexByte b → a = b := by decide
  exact congrArg Fin.val (all ⟨a, small⟩ ⟨b, small'⟩ same)

theorem hexDigits_ne_nil (places n : Nat) : hexDigits (places + 1) n ≠ [] := by
  rw [hexDigits]
  split
  · exact List.cons_ne_nil _ _
  · simp

theorem hexDigits_injective (places : Nat) {a b : Nat} (small : a < 16 ^ places)
    (small' : b < 16 ^ places) (same : hexDigits places a = hexDigits places b) : a = b := by
  induction places generalizing a b with
  | zero => omega
  | succ places ih =>
    have low : ∀ n, n < 16 ^ (places + 1) → n / 16 < 16 ^ places := by
      intro n lt
      rw [Nat.pow_succ] at lt
      omega
    -- One digit against several: the front of the longer one is not empty.
    have lengths : ∀ x y : Nat, 16 ≤ y → y < 16 ^ (places + 1) →
        [hexByte x] ≠ hexDigits places (y / 16) ++ [hexByte (y % 16)] := by
      intro x y large lt eq
      cases places with
      | zero => omega
      | succ places =>
        have size := congrArg List.length eq
        have filled := List.length_pos_of_ne_nil (hexDigits_ne_nil places (y / 16))
        rw [List.length_append, List.length_singleton, List.length_singleton] at size
        omega
    rw [hexDigits, hexDigits] at same
    split at same <;> split at same
    · rename_i one two
      exact hexByte_injective one two (List.cons.inj same).1
    · rename_i one many
      exact absurd same (lengths a b (by omega) small')
    · rename_i many one
      exact absurd same.symm (lengths b a (by omega) small)
    · obtain ⟨front, last⟩ := List.append_inj' same rfl
      have upper := ih (low a small) (low b small') front
      have lower := hexByte_injective (Nat.mod_lt a (by decide)) (Nat.mod_lt b (by decide))
        (List.cons.inj last).1
      omega

theorem cut_unique {a b a' b' : List Byte} (free : ∀ c ∈ a, c ≠ dash) (free' : ∀ c ∈ a', c ≠ dash)
    (same : a ++ dash :: b = a' ++ dash :: b') : a = a' ∧ b = b' := by
  induction a generalizing a' with
  | nil =>
    cases a' with
    | nil => exact ⟨rfl, (List.cons.inj same).2⟩
    | cons c a' => exact absurd (List.cons.inj same).1.symm (free' c List.mem_cons_self)
  | cons c a ih =>
    cases a' with
    | nil => exact absurd (List.cons.inj same).1 (free c List.mem_cons_self)
    | cons c' a' =>
      obtain ⟨rfl, rest⟩ := List.cons.inj same
      obtain ⟨rfl, rfl⟩ := ih (fun x mem => free x (List.mem_cons_of_mem c mem))
        (fun x mem => free' x (List.mem_cons_of_mem c mem)) rest
      exact ⟨rfl, rfl⟩

theorem hexDigits_length (places n : Nat) : (hexDigits places n).length ≤ places := by
  induction places generalizing n with
  | zero => exact Nat.le_refl _
  | succ places ih =>
    rw [hexDigits]
    split
    · exact Nat.succ_pos places
    · rw [List.length_append]
      exact Nat.succ_le_succ (ih _)

theorem genId_fits (fits : (Decimal.text id.toNat).length + (Decimal.text ckey.toNat).length + 10 ≤
    idMax) (cid : UInt32) : genId id ckey cid = some (idText id ckey cid, cid + 1) := by
  have hex := hexDigits_length 8 cid.toNat
  rw [genId, if_pos]
  simp only [idText, List.length_append, List.length_cons]
  omega

theorem dashes_free {a : List Byte} (free : ∀ c ∈ a, c ≠ dash) (b : List Byte) (i : Nat)
    (start : Option Nat) : dashes (a ++ b) i start = dashes b (i + a.length) start := by
  induction a generalizing i with
  | nil => rfl
  | cons c a ih =>
    obtain ⟨other, free⟩ := List.forall_mem_cons.mp free
    have passed : dashes (c :: (a ++ b)) i start = dashes (a ++ b) (i + 1) start := by
      cases start <;> exact if_neg other
    rw [List.cons_append, passed, ih free, List.length_cons, Nat.add_assoc, Nat.add_comm 1]

theorem getKey_idText (id ckey : UInt64) (cid : UInt32) :
    getKey (idText id ckey cid) = some ckey.toNat := by
  have found : dashes (idText id ckey cid) 0 none =
      (some ((Decimal.text id.toNat).length + 1),
        some ((Decimal.text id.toNat).length + 1 + (Decimal.text ckey.toNat).length)) := by
    have first : ∀ rest i, dashes (dash :: rest) i none = dashes rest (i + 1) (some (i + 1)) :=
      fun _ _ => rfl
    have second : ∀ rest i start, dashes (dash :: rest) i (some start) = (some start, some i) :=
      fun _ _ _ => rfl
    rw [idText, dashes_free (decimal_no_dash _), first, dashes_free (decimal_no_dash _), second,
      Nat.zero_add]
  have cut : ((idText id ckey cid).take ((Decimal.text id.toNat).length + 1 +
    (Decimal.text ckey.toNat).length)).drop
      ((Decimal.text id.toNat).length + 1) = Decimal.text ckey.toNat := by
    rw [List.take_add, idText]
    simp
  have small : ckey.toNat < Text.usizeEnd := ckey.toNat_lt
  have utf8 : Text.isUtf8 (Decimal.text ckey.toNat) = true :=
    Text.isUtf8_of_small fun c mem => Text.digit_small
      (List.all_eq_true.mp (Decimal.text_all _) c mem)
  rw [getKey, found]
  simp only [cut]
  rw [if_pos utf8, Text.parseUsize_digits (Decimal.text_all _), Text.parseDigits_text small]

theorem decimal_injective {m n : Nat} (same : Decimal.text m = Decimal.text n) : m = n := by
  rw [← Decimal.value_text m, same, Decimal.value_text]

theorem prefix_iff (id ckey : UInt64) (cid : UInt32) (other : UInt64) :
    (idPrefix other).isPrefixOf (idText id ckey cid) = true ↔ other = id := by
  rw [List.isPrefixOf_iff_prefix]
  constructor
  · rintro ⟨rest, eq⟩
    have cut : Decimal.text other.toNat ++ dash :: rest = idText id ckey cid := by
      rw [← eq, idPrefix, List.append_assoc]
      rfl
    obtain ⟨same, -⟩ := cut_unique (decimal_no_dash _) (decimal_no_dash _) cut
    exact UInt64.toNat_inj.mp (decimal_injective same)
  · rintro rfl
    exact ⟨Decimal.text ckey.toNat ++ dash ::
      hexDigits 8 cid.toNat, by rw [idPrefix, idText, List.append_assoc]; rfl⟩

theorem idText_injective {id ckey ckey' : UInt64} {cid cid' : UInt32}
    (same : idText id ckey cid = idText id ckey' cid') : ckey = ckey' ∧ cid = cid' := by
  obtain ⟨-, rest⟩ := cut_unique (decimal_no_dash _) (decimal_no_dash _) same
  obtain ⟨keys, counters⟩ := cut_unique (decimal_no_dash _) (decimal_no_dash _) rest
  have low : ∀ c : UInt32, c.toNat < 16 ^ 8 := fun c => Nat.lt_of_lt_of_le c.toNat_lt (by decide)
  exact ⟨UInt64.toNat_inj.mp (decimal_injective keys),
    UInt32.toNat_inj.mp (hexDigits_injective 8 (low cid) (low cid') counters)⟩

end Texts

namespace Worker
variable {w w' : Worker}

def Addressed (generated : List (Nat × List Byte)) (serial : Nat) (msg : List (List Byte) × Nat) :
    Prop :=
  ∃ id, msg.1[msg.2]? = some id ∧ (serial, id) ∈ generated

structure Routed (w : Worker) : Prop where
  counter : w.nextCid = UInt32.ofNat w.generated.length
  made : ∀ i g, w.generated[i]? = some g → ∃ ckey, g.2 = idText w.id ckey (UInt32.ofNat i)
  named : ∀ ckey ci, w.nodes.get? ckey = some ci → (ci.serial, ci.id) ∈ w.generated
  queued : ∀ ckey ci, w.nodes.get? ckey = some ci → ∀ msg ∈ ci.zreceiver.queue,
    Addressed w.generated ci.serial msg
  owned : ∀ ckey task, w.tasks ckey = some task → ∃ ci, w.nodes.get? ckey = some ci ∧
    ci.serial = task.serial ∧ ci.id = task.cid
  pooled : ∀ c ∈ w.pool, c.queue = []
  taken : ∀ x ∈ w.taken, x ∈ w.generated

theorem new_routed (id : UInt64) (maxconn : Nat) : (new id maxconn).Routed := by
  have empty : ∀ ckey, (new id maxconn).nodes.get? ckey = none := Slab.get?_withCapacity maxconn
  constructor
  · rfl
  · intro i g found
    cases found
  · intro ckey ci found
    rw [empty] at found
    cases found
  · intro ckey ci found
    rw [empty] at found
    cases found
  · intro ckey task found
    cases found
  · intro c mem
    rw [List.eq_of_mem_replicate mem]
  · exact fun x mem => absurd mem List.not_mem_nil

theorem Routed.distinct (inv : w.Routed) (few : w.generated.length ≤ 2 ^ 32) :
    (w.generated.map Prod.snd).Nodup := by
  rw [List.Nodup, List.pairwise_iff_getElem]
  intro i j before inside less texts
  rw [List.length_map] at before inside
  rw [List.getElem_map, List.getElem_map] at texts
  obtain ⟨k, first⟩ := inv.made i _ (List.getElem?_eq_getElem before)
  obtain ⟨k', second⟩ := inv.made j _ (List.getElem?_eq_getElem inside)
  rw [first, second] at texts
  have counters := congrArg UInt32.toNat (idText_injective texts).2
  rw [UInt32.toNat_ofNat', UInt32.toNat_ofNat', Nat.mod_eq_of_lt (by omega),
    Nat.mod_eq_of_lt (by omega)] at counters
  omega

theorem nextId_spec {ckey serial : Nat} {id : List Byte}
    (next : w.nextId ckey serial = some (w', id)) :
    w' = { w with nextCid := w.nextCid + 1, generated := w.generated ++ [(serial, id)] } ∧
      id = idText w.id (UInt64.ofNat ckey) w.nextCid := by
  rw [nextId, genId] at next
  split at next
  · cases next
    exact ⟨rfl, rfl⟩
  · cases next

section
variable (inv : w.Routed)
include inv

theorem Routed.issue {ckey serial : Nat} {id : List Byte}
    (next : w.nextId ckey serial = some (w', id)) :
    w'.Routed ∧ (serial, id) ∈ w'.generated ∧ w'.nodes = w.nodes ∧ w'.tasks = w.tasks ∧
      w'.pool = w.pool ∧ w'.born = w.born := by
  obtain ⟨rfl, text⟩ := nextId_spec next
  have old : ∀ x, x ∈ w.generated → x ∈ w.generated ++ [(serial, id)] :=
    fun x => List.mem_append_left _
  refine ⟨?_, by simp, rfl, rfl, rfl, rfl⟩
  constructor
  · change w.nextCid + 1 = UInt32.ofNat (w.generated ++ [(serial, id)]).length
    rw [inv.counter, List.length_append, List.length_singleton, UInt32.ofNat_add]
    rfl
  · intro i g found
    rcases Nat.lt_trichotomy i w.generated.length with before | rfl | after
    · rw [List.getElem?_append_left before] at found
      exact inv.made i g found
    · rw [List.getElem?_concat_length] at found
      cases found
      exact ⟨_, by rw [text, inv.counter]⟩
    · rw [List.getElem?_eq_none
        (by simp only [List.length_append, List.length_singleton]; omega)] at found
      cases found
  · intro ckey ci found
    exact old _ (inv.named ckey ci found)
  · intro ckey ci found msg mem
    obtain ⟨id, here, made⟩ := inv.queued ckey ci found msg mem
    exact ⟨id, here, old _ made⟩
  · exact inv.owned
  · exact inv.pooled
  · exact fun x mem => old x (inv.taken x mem)

theorem Routed.put {ckey : Nat} {ci : Item} (inside : ckey < w.nodes.capacity)
    (named : (ci.serial, ci.id) ∈ w.generated)
    (queued : ∀ msg ∈ ci.zreceiver.queue, Addressed w.generated ci.serial msg) {task : Option Task}
    (own : ∀ t, task = some t → ci.serial = t.serial ∧ ci.id = t.cid) :
    ((w.setItem ckey ci).setTask ckey task).Routed := by
  have nodes : ∀ k, ((w.setItem ckey ci).setTask ckey task).nodes.get? k =
      if k = ckey then some ci else w.nodes.get? k := Slab.get?_insert inside ci
  constructor
  · exact inv.counter
  · exact inv.made
  · intro k x found
    rw [nodes] at found
    split at found
    · cases found
      exact named
    · exact inv.named k x found
  · intro k x found
    rw [nodes] at found
    split at found
    · cases found
      exact queued
    · exact inv.queued k x found
  · intro k t found
    change Function.update w.tasks ckey task k = some t at found
    rw [nodes]
    by_cases here : k = ckey
    · rw [here, Function.update_self] at found
      exact ⟨ci, if_pos here, own t found⟩
    · rw [Function.update_of_ne here] at found
      rw [if_neg here]
      exact inv.owned k t found
  · exact inv.pooled
  · exact inv.taken

theorem Routed.requeue {ckey : Nat} {ci : Item}
    (found : w.nodes.get? ckey = some ci) {zreceiver : Channel}
    (queued : ∀ msg ∈ zreceiver.queue, Addressed w.generated ci.serial msg) :
    (w.setItem ckey { ci with zreceiver := zreceiver }).Routed := by
  have own : ∀ t, w.tasks ckey = some t → ci.serial = t.serial ∧ ci.id = t.cid := by
    intro t task
    obtain ⟨x, here, both⟩ := inv.owned ckey t task
    rw [found] at here
    cases here
    exact both
  have kept := @put w inv ckey { ci with zreceiver := zreceiver } (Slab.lt_capacity_of_get? found)
    (inv.named ckey ci found) queued (w.tasks ckey) own
  have same : ((w.setItem ckey { ci with zreceiver := zreceiver }).setTask ckey (w.tasks ckey)) =
      w.setItem ckey { ci with zreceiver := zreceiver } := by
    unfold setTask
    rw [show (w.setItem ckey { ci with zreceiver := zreceiver }).tasks = w.tasks from rfl,
      Function.update_eq_self]
    rfl
  rwa [same] at kept

theorem accept_routed {nkey : Nat} (vacant : w.nodes.Vacant nkey)
    (ran : w.accept nkey = some w') : w'.Routed := by
  obtain ⟨zreceiver, last, ran⟩ := Option.bind_eq_some_iff.mp ran
  split at ran
  · cases ran
  · obtain ⟨⟨w₁, id⟩, next, ran⟩ := Option.bind_eq_some_iff.mp ran
    cases ran
    obtain ⟨inv₁, made, nodes, -, pool, born⟩ := inv.issue next
    have empty : zreceiver.queue = [] := inv.pooled zreceiver (List.mem_of_getLast? last)
    have shrunk : Routed { w₁ with pool := w₁.pool.dropLast, born := w₁.born + 1 } :=
      ⟨inv₁.counter, inv₁.made, inv₁.named, inv₁.queued, inv₁.owned,
        fun c mem => inv₁.pooled c (List.dropLast_subset _ mem), inv₁.taken⟩
    rw [← born] at made
    refine shrunk.put (nodes ▸ vacant.1) made ?_ ?_
    · intro msg mem
      rw [show (Item.mk id zreceiver w₁.born).zreceiver.queue = [] from empty] at mem
      exact absurd mem List.not_mem_nil
    · intro t same
      cases same
      exact ⟨rfl, rfl⟩

theorem regenId_routed {ckey : Nat} (ran : w.regenId ckey = some w') : w'.Routed := by
  obtain ⟨task, running, ran⟩ := Option.bind_eq_some_iff.mp ran
  obtain ⟨ci, found, ran⟩ := Option.bind_eq_some_iff.mp ran
  obtain ⟨⟨w₁, id⟩, next, ran⟩ := Option.bind_eq_some_iff.mp ran
  cases ran
  obtain ⟨inv₁, made, nodes, -, -, -⟩ := inv.issue next
  obtain ⟨x, here, serial, -⟩ := inv.owned ckey task running
  rw [found] at here
  cases here
  rw [← nodes] at found
  refine @Routed.put w₁ inv₁ ckey { ci with id := id } (Slab.lt_capacity_of_get? found) made
    (inv₁.queued ckey ci found) (some { task with cid := id }) ?_
  intro t same
  cases same
  exact ⟨serial, rfl⟩

theorem route_routed {ids : List (List Byte)} {i : Nat}
    (ran : route ids w i = some w') : w'.Routed := by
  obtain ⟨id, meant, ran⟩ := Option.bind_eq_some_iff.mp ran
  split at ran
  · cases ran
    exact inv
  · rename_i key _
    split at ran
    · rename_i checked
      obtain ⟨ci, found, ran⟩ := Option.bind_eq_some_iff.mp ran
      cases ran
      rw [checkId, found] at checked
      have same : ci.id = id := of_decide_eq_true checked
      refine inv.requeue found ?_
      intro msg mem
      have old := inv.queued key ci found
      unfold Channel.trySend at mem
      split at mem
      · split at mem
        · rcases List.mem_append.mp mem with mem | mem
          · exact old msg mem
          · rw [List.mem_singleton.mp mem]
            exact ⟨id, meant, same ▸ inv.named key ci found⟩
        · exact old msg mem
      · exact old msg mem
    · cases ran
      exact inv

theorem handlePacket_routed {ids : List (List Byte)}
    (ran : w.handlePacket ids = some w') : w'.Routed := by
  unfold handlePacket at ran
  generalize List.range ids.length = indexes at ran
  induction indexes generalizing w with
  | nil =>
    cases ran
    exact inv
  | cons i indexes ih =>
    rw [List.foldlM_cons] at ran
    obtain ⟨w₁, first, rest⟩ := Option.bind_eq_some_iff.mp ran
    exact ih (route_routed inv first) rest

theorem read_routed {ckey : Nat} (ran : w.read ckey = some w') : w'.Routed := by
  obtain ⟨task, running, ran⟩ := Option.bind_eq_some_iff.mp ran
  obtain ⟨ci, found, ran⟩ := Option.bind_eq_some_iff.mp ran
  split at ran
  · cases ran
    exact inv
  · rename_i ids i queue waiting
    obtain ⟨id, meant, ran⟩ := Option.bind_eq_some_iff.mp ran
    cases ran
    have queued := inv.queued ckey ci found
    rw [waiting] at queued
    obtain ⟨⟨id', here, made⟩, later⟩ := List.forall_mem_cons.mp queued
    rw [show (ids, i).1[(ids, i).2]? = ids[i]? from rfl, meant] at here
    cases here
    obtain ⟨x, same, serial, -⟩ := inv.owned ckey task running
    rw [found] at same
    cases same
    have told : Routed { w with taken := w.taken ++ [(task.serial, id)] } := by
      refine ⟨inv.counter, inv.made, inv.named, inv.queued, inv.owned, inv.pooled, ?_⟩
      intro x mem
      rcases List.mem_append.mp mem with mem | mem
      · exact inv.taken x mem
      · rw [List.mem_singleton.mp mem, ← serial]
        exact made
    exact told.requeue found later

theorem finish_routed {ckey : Nat} (ran : w.finish ckey = some w') : w'.Routed := by
  obtain ⟨ci, found, ran⟩ := Option.bind_eq_some_iff.mp ran
  cases ran
  exact @Routed.put w inv ckey { ci with zreceiver := { ci.zreceiver with receiver := false } }
    (Slab.lt_capacity_of_get? found) (inv.named ckey ci found) (inv.queued ckey ci found) none
    fun t same => by cases same

theorem done_routed {ckey : Nat} (ended : w.tasks ckey = none)
    (ran : w.done ckey = some w') : w'.Routed := by
  obtain ⟨ci, found, ran⟩ := Option.bind_eq_some_iff.mp ran
  split at ran
  · cases ran
  · cases ran
    have kept : ∀ k x, (w.nodes.remove ckey).get? k = some x →
        k ≠ ckey ∧ w.nodes.get? k = some x := by
      intro k x here
      rw [Slab.get?_remove] at here
      split at here
      · cases here
      · rename_i other
        exact ⟨other, here⟩
    constructor
    · exact inv.counter
    · exact inv.made
    · exact fun k x here => inv.named k x (kept k x here).2
    · exact fun k x here => inv.queued k x (kept k x here).2
    · intro k t running
      obtain ⟨x, here, both⟩ := inv.owned k t running
      refine ⟨x, ?_, both⟩
      rw [Slab.get?_remove, if_neg, here]
      rintro rfl
      rw [ended] at running
      cases running
    · intro c mem
      rcases List.mem_append.mp mem with mem | mem
      · exact inv.pooled c mem
      · rw [List.mem_singleton.mp mem]
    · exact inv.taken

end

theorem step_routed (event : Event) (inv : w.Routed) (possible : w.allowed event = true)
    (ran : w.step event = some w') : w'.Routed := by
  cases event with
  | accept nkey => exact accept_routed inv (of_decide_eq_true possible) ran
  | regenId ckey => exact regenId_routed inv ran
  | handlePacket ids => exact handlePacket_routed inv ran
  | read ckey => exact read_routed inv ran
  | finish ckey => exact finish_routed inv ran
  | done ckey =>
    rw [allowed, Bool.and_eq_true] at possible
    exact done_routed inv (Option.isNone_iff_eq_none.mp possible.1) ran

end Worker

/-- An id reads back to the key and to no worker but its own. In every run of a
    worker whose counter has not wrapped its ids differ, and what a connection
    takes from its channel is for an id that was made for this connection and
    for no other. -/
theorem ids_route_back :
    (∀ (id ckey : UInt64),
      (Decimal.text id.toNat).length + (Decimal.text ckey.toNat).length + 10 ≤ idMax →
      ∀ cid : UInt32,
      ∃ text, genId id ckey cid = some (text, cid + 1) ∧ getKey text = some ckey.toNat ∧
        ∀ other, doSend (idPrefix other) [text] = true ↔ other = id) ∧
    ∀ (id : UInt64) (maxconn : Nat) (events : List Worker.Event) (w : Worker),
      Runs.along Worker.step Worker.allowed (Worker.new id maxconn) events = true →
      Runs.run Worker.step (Worker.new id maxconn) events = some w → w.generated.length ≤ 2 ^ 32 →
      (w.generated.map Prod.snd).Nodup ∧
        ∀ serial text, (serial, text) ∈ w.taken →
          (serial, text) ∈ w.generated ∧ ∀ other, (other, text) ∈ w.generated → other = serial := by
  constructor
  · intro id ckey fits cid
    refine ⟨idText id ckey cid, genId_fits fits cid, getKey_idText id ckey cid, fun other => ?_⟩
    rw [doSend, List.any_cons, List.any_nil, Bool.or_false]
    exact prefix_iff id ckey cid other
  · intro id maxconn events w possible ran few
    have inv : w.Routed := Runs.run_kept Worker.Routed (fun w event w' inv possible ran =>
      Worker.step_routed event inv possible ran) (Worker.new_routed id maxconn) ran possible
    have distinct := inv.distinct few
    refine ⟨distinct, fun serial text mem => ⟨inv.taken _ mem, fun other also => ?_⟩⟩
    have same := List.inj_on_of_nodup_map distinct also (inv.taken _ mem) rfl
    exact congrArg Prod.fst same

def servedEvents : List Worker.Event :=
  [.accept 0, .accept 1, .handlePacket [idText 7 1 1, idText 7 0 0], .read 1, .read 0, .regenId 0,
    .handlePacket [idText 7 0 0, idText 7 0 2], .read 0]

theorem ids_route_back_example :
    (∃ text, genId 7 12 255 = some (text, 256) ∧ getKey text = some 12 ∧
      ∀ other, doSend (idPrefix other) [text] = true ↔ other = 7) ∧
    ∃ w, Runs.run Worker.step (Worker.new 7 2) servedEvents = some w ∧ w.taken.map Prod.fst =
      [1, 0, 0] ∧ (w.generated.map Prod.snd).Nodup ∧ ∀ serial text, (serial, text) ∈ w.taken →
        (serial, text) ∈ w.generated ∧ ∀ other, (other, text) ∈ w.generated → other = serial := by
  obtain ⟨w, ran⟩ : ∃ w, Runs.run Worker.step (Worker.new 7 2) servedEvents = some w :=
    Option.isSome_iff_exists.mp (by decide +kernel)
  have facts : (Runs.run Worker.step (Worker.new 7 2) servedEvents).map
      (fun w => (w.generated.length, w.taken.map Prod.fst)) = some (3, [1, 0, 0]) := by
        decide +kernel
  rw [ran] at facts
  simp only [Option.map_some, Option.some.injEq, Prod.mk.injEq] at facts
  obtain ⟨few, taken⟩ := facts
  exact ⟨ids_route_back.1 7 12 (by decide +kernel) 255, w, ran, taken,
    ids_route_back.2 7 2 servedEvents w (by decide +kernel) ran (by omega)⟩

end PushpinConnIds
