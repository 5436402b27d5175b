import Pushpin.Core.RingBuffer
import Pushpin.Foundations.TaggedQueue

/-!
`MessageTracker` of `connmgr/connection.rs`. The bytes of all queued messages are
in one buffer; the tracker knows their types and lengths. It mirrors a queue of
the messages themselves. `none` is a panic, apart from `start`.
-/
namespace PushpinMessageTracker
open PushpinRingBuffer (Byte)

structure MessageItem where
  mtype : Byte
  avail : Nat
  deriving DecidableEq, Repr

structure MessageTracker where
  items : List MessageItem
  capacity : Nat
  lastPartial : Bool
  deriving DecidableEq, Repr

namespace MessageTracker

def new (maxMessages : Nat) : MessageTracker := ⟨[], maxMessages, false⟩

def inProgress (t : MessageTracker) : Bool := t.lastPartial

def start (t : MessageTracker) (mtype : Byte) : Option MessageTracker :=
  if t.lastPartial = true ∨ t.items.length = t.capacity then none
  else some { t with items := t.items ++ [⟨mtype, 0⟩], lastPartial := true }

def addToBack (amt : Nat) : List MessageItem → Option (List MessageItem)
  | [] => none
  | [m] => some [{ m with avail := m.avail + amt }]
  | m :: items => (addToBack amt items).map (m :: ·)

def extend (t : MessageTracker) (amt : Nat) : Option MessageTracker :=
  if t.lastPartial then (addToBack amt t.items).map fun items => { t with items }
  else none

def done (t : MessageTracker) : MessageTracker := { t with lastPartial := false }

def current (t : MessageTracker) : Option (Byte × Nat × Bool) :=
  match t.items with
  | [] => none
  | [m] => some (m.mtype, m.avail, !t.lastPartial)
  | m :: _ :: _ => some (m.mtype, m.avail, true)

def consumed (t : MessageTracker) (amt : Nat) (done : Bool) : Option MessageTracker :=
  match t.items with
  | [] => none
  | m :: items =>
    if amt ≤ m.avail then
      if done then
        if m.avail - amt = 0 then some { t with items } else none
      else some { t with items := { m with avail := m.avail - amt } :: items }
    else none

end MessageTracker

abbrev Messages := TaggedQueue Byte Byte

def itemOf (message : Byte × List Byte) : MessageItem := ⟨message.1, message.2.length⟩

structure Mirrors (t : MessageTracker) (q : Messages) : Prop where
  items : t.items = q.items.map itemOf
  partly : t.lastPartial = q.growing

namespace Mirrors
open MessageTracker
variable {t : MessageTracker} {q : Messages}

theorem new (maxMessages : Nat) : Mirrors (.new maxMessages) .empty := ⟨rfl, rfl⟩

theorem sum (mirrors : Mirrors t q) : (t.items.map MessageItem.avail).sum = q.elements.length := by
  rw [mirrors.items, TaggedQueue.elements, List.length_flatMap, List.map_map]
  rfl

theorem addToBack_snoc (amt : Nat) (items : List MessageItem) (m : MessageItem) :
    addToBack amt (items ++ [m]) = some (items ++ [{ m with avail := m.avail + amt }]) := by
  induction items with
  | nil => rfl
  | cons first items ih =>
    cases items with
    | nil => rfl
    | cons next items =>
      show (addToBack amt (next :: items ++ [m])).map (first :: ·) = _
      rw [ih]
      rfl

section
variable (mirrors : Mirrors t q)
include mirrors

theorem extend (grows : q.growing = true) (tag : Byte) (body : List Byte)
    (more : Bool) :
    ∃ t', t.extend body.length = some t' ∧ Mirrors (if more then t' else t'.done)
      (q.put tag body more) := by
  obtain ⟨front, first, held, eq⟩ := TaggedQueue.snoc_of_ne_nil (q.begun grows)
  have items : t.items = front.map itemOf ++ [⟨first, held.length⟩] := by
    rw [mirrors.items, eq, List.map_append]
    rfl
  refine ⟨{ t with items := front.map itemOf ++ [⟨first, held.length + body.length⟩] }, ?_, ?_⟩
  · rw [MessageTracker.extend, if_pos (mirrors.partly.trans grows), items, addToBack_snoc]
    rfl
  · have filled : (q.put tag body more).items = front ++ [(first, held ++ body)] := by
      rw [TaggedQueue.put_items grows, eq, TaggedQueue.growLast_snoc]
    have open_ := q.put_growing tag body more
    cases more with
    | true =>
      refine ⟨?_, (mirrors.partly.trans grows).trans open_.symm⟩
      simp [filled, itemOf]
    | false =>
      refine ⟨?_, open_.symm⟩
      simp [filled, itemOf, done]

theorem start {tag : Byte} {t' : MessageTracker}
    (started : t.start tag = some t') (body : List Byte) (more : Bool) :
    ∃ t'', t'.extend body.length = some t'' ∧ Mirrors (if more then t'' else t''.done)
      (q.put tag body more) := by
  unfold MessageTracker.start at started
  split at started
  · cases started
  · rename_i free
    cases started
    have closed : ¬ q.growing = true := fun grows => free (Or.inl (mirrors.partly.trans grows))
    let opened : Messages := ⟨q.items ++ [(tag, [])], true, fun _ => by simp⟩
    have first : Mirrors { t with items := t.items ++ [⟨tag, 0⟩], lastPartial := true } opened :=
      ⟨by rw [mirrors.items, List.map_append]; rfl, rfl⟩
    have same : opened.put tag body more = q.put tag body more := by
      rw [TaggedQueue.put, TaggedQueue.put, dif_pos rfl, dif_neg closed]
      simp [opened, TaggedQueue.growLast_snoc]
    rw [← same]
    exact first.extend rfl tag body more

theorem current :
    q.items = [] ∧ t.current = none ∨ ∃ mtype held items done, q.items = (mtype, held) :: items ∧
      t.current = some (mtype, held.length, done) ∧ (done = true ↔
        (items = [] → q.growing = false)) := by
  have partly := mirrors.partly
  cases eq : q.items with
  | nil =>
    refine Or.inl ⟨rfl, ?_⟩
    rw [MessageTracker.current, mirrors.items, eq]
    rfl
  | cons first items =>
    obtain ⟨mtype, held⟩ := first
    right
    cases items with
    | nil =>
      refine ⟨mtype, held, [], !t.lastPartial, rfl, ?_, ?_⟩
      · rw [MessageTracker.current, mirrors.items, eq]
        rfl
      · rw [partly, Bool.not_eq_true']
        exact ⟨fun closed _ => closed, fun closed => closed rfl⟩
    | cons next items =>
      refine ⟨mtype, held, next :: items, true, rfl, ?_, ?_⟩
      · rw [MessageTracker.current, mirrors.items, eq]
        rfl
      · exact ⟨fun _ none => (by cases none), fun _ => rfl⟩

theorem consumed_part {tag : Byte} {body rest : List Byte}
    {items : List (Byte × List Byte)} (first : q.items = (tag, body ++ rest) :: items) :
    ∃ t' q', t.consumed body.length false = some t' ∧ TaggedQueue.Step q (.take tag body false) q' ∧
      q'.items = (tag, rest) :: items ∧ q'.growing = q.growing ∧ Mirrors t' q' := by
  let q' : Messages := ⟨(tag, rest) :: items, q.growing, fun _ => by simp⟩
  refine ⟨{ t with items := ⟨tag, rest.length⟩ :: items.map itemOf }, q', ?_, .part first rfl rfl,
    rfl, rfl, ?_⟩
  · rw [MessageTracker.consumed, mirrors.items, first]
    simp [itemOf]
  · exact ⟨rfl, mirrors.partly⟩

theorem consumed_whole {tag : Byte} {body : List Byte}
    {items : List (Byte × List Byte)} (first : q.items = (tag, body) :: items)
    (closed : items = [] → q.growing = false) :
    ∃ t' q', t.consumed body.length true = some t' ∧ TaggedQueue.Step q (.take tag body true) q' ∧
      q'.items = items ∧ Mirrors t' q' := by
  let q' : Messages :=
    ⟨items, q.growing, fun grows none => by rw [closed none] at grows; cases grows⟩
  refine ⟨{ t with items := items.map itemOf }, q', ?_, .whole first closed rfl, rfl, ?_⟩
  · rw [MessageTracker.consumed, mirrors.items, first]
    simp [itemOf]
  · exact ⟨rfl, mirrors.partly⟩

end

end Mirrors
end PushpinMessageTracker
