import Mathlib.Data.List.Basic

/-!
Queues of tagged strings that share one buffer. A string is filled at the back of
the queue until it is closed, and leaves at the front once it is closed and all of
it has been taken.
-/
variable {τ α : Type}

structure TaggedQueue (τ α : Type) where
  items : List (τ × List α)
  growing : Bool
  begun : growing = true → items ≠ []

namespace TaggedQueue

def empty : TaggedQueue τ α := ⟨[], false, fun grows => by cases grows⟩

def growLast (body : List α) : List (τ × List α) → List (τ × List α)
  | [] => []
  | [(tag, held)] => [(tag, held ++ body)]
  | item :: items => item :: growLast body items

theorem snoc_of_ne_nil {items : List (τ × List α)} (some_item : items ≠ []) :
    ∃ front tag held, items = front ++ [(tag, held)] :=
  ⟨items.dropLast, _, _, (List.dropLast_append_getLast some_item).symm⟩

theorem growLast_snoc (body : List α) (items : List (τ × List α)) (tag : τ) (held : List α) :
    growLast body (items ++ [(tag, held)]) = items ++ [(tag, held ++ body)] := by
  induction items with
  | nil => rfl
  | cons item items ih =>
    cases items with
    | nil => rfl
    | cons next items =>
      show item :: growLast body (next :: items ++ [(tag, held)]) = _
      rw [ih]
      rfl

theorem growLast_ne_nil {body : List α} {items : List (τ × List α)} (some_item : items ≠ []) :
    growLast body items ≠ [] := by
  obtain ⟨front, tag, held, rfl⟩ := snoc_of_ne_nil some_item
  simp [growLast_snoc]

def put (q : TaggedQueue τ α) (tag : τ) (body : List α) (more : Bool) : TaggedQueue τ α :=
  if grows : q.growing = true then
    ⟨growLast body q.items, more, fun _ => growLast_ne_nil (q.begun grows)⟩
  else ⟨q.items ++ [(tag, body)], more, fun _ => by simp⟩

theorem put_items {q : TaggedQueue τ α} (grows : q.growing = true) (tag : τ) (body : List α)
    (more : Bool) : (q.put tag body more).items = growLast body q.items := by
  rw [put, dif_pos grows]

theorem put_items_closed {q : TaggedQueue τ α} (closed : ¬ q.growing = true) (tag : τ)
    (body : List α) (more : Bool) : (q.put tag body more).items = q.items ++ [(tag, body)] := by
  rw [put, dif_neg closed]

theorem put_growing (q : TaggedQueue τ α) (tag : τ) (body : List α) (more : Bool) :
    (q.put tag body more).growing = more := by
  unfold put
  split <;> rfl

inductive Op (τ α : Type) where
  | put (tag : τ) (body : List α) (more : Bool)
  | take (tag : τ) (body : List α) (done : Bool)
  deriving DecidableEq, Repr

/-- What is taken is the beginning of the first string, under its own tag. It is
    done with the string once nothing is left of it and it is not open. -/
inductive Step : TaggedQueue τ α → Op τ α → TaggedQueue τ α → Prop where
  | put (q : TaggedQueue τ α) (tag : τ) (body : List α) (more : Bool) :
      Step q (.put tag body more) (q.put tag body more)
  | part {q next : TaggedQueue τ α} {tag : τ} {body rest : List α} {items : List (τ × List α)}
      (first : q.items = (tag, body ++ rest) :: items) (left : next.items = (tag, rest) :: items)
      (same : next.growing = q.growing) : Step q (.take tag body false) next
  | whole {q next : TaggedQueue τ α} {tag : τ} {body : List α} (first : q.items = (tag, body) ::
      next.items) (closed : next.items = [] → q.growing = false) (same : next.growing = q.growing) :
      Step q (.take tag body true) next

inductive Transitions : TaggedQueue τ α → List (Op τ α) → TaggedQueue τ α → Prop where
  | nil (q : TaggedQueue τ α) : Transitions q [] q
  | cons {q middle last : TaggedQueue τ α} {op : Op τ α} {ops : List (Op τ α)}
      (step : Step q op middle)
      (rest : Transitions middle ops last) : Transitions q (op :: ops) last

theorem Transitions.append {q middle last : TaggedQueue τ α} {before after : List (Op τ α)}
    (first : Transitions q before middle) (second : Transitions middle after last) :
    Transitions q (before ++ after) last := by
  induction first with
  | nil => exact second
  | cons step _ ih => exact .cons step (ih second)

theorem Transitions.single {q next : TaggedQueue τ α} {op : Op τ α} (step : Step q op next) :
    Transitions q [op] next := .cons step (.nil next)

def elements (q : TaggedQueue τ α) : List α := q.items.flatMap Prod.snd

def tagged (items : List (τ × List α)) : List (τ × α) :=
  items.flatMap fun item => item.2.map (item.1, ·)

def open_ (q : TaggedQueue τ α) : Option τ :=
  if q.growing then q.items.getLast?.map Prod.fst else none

def given : Option τ → List (Op τ α) → List (τ × α)
  | _, [] => []
  | current, .put tag body more :: ops =>
    body.map (current.getD tag, ·) ++ given (if more then some (current.getD tag) else none) ops
  | current, .take _ _ _ :: ops => given current ops

def taken : List (Op τ α) → List (τ × α)
  | [] => []
  | .put _ _ _ :: ops => taken ops
  | .take tag body _ :: ops => body.map (tag, ·) ++ taken ops

theorem put_spec (q : TaggedQueue τ α) (tag : τ) (body : List α) (more : Bool) :
    (q.put tag body more).elements = q.elements ++ body ∧
      tagged (q.put tag body more).items = tagged q.items ++ body.map (q.open_.getD tag, ·) ∧
      (q.put tag body more).open_ = (if more then some (q.open_.getD tag) else none) := by
  unfold put open_ elements
  split
  · rename_i grows
    obtain ⟨front, first, held, eq⟩ := snoc_of_ne_nil (q.begun grows)
    simp [eq, growLast_snoc, tagged]
  · rename_i closed
    simp [tagged]

/-- Nothing is lost, doubled, reordered or given to another tag. -/
theorem Transitions.conserve {q last : TaggedQueue τ α} {ops : List (Op τ α)}
    (run : Transitions q ops last) :
    taken ops ++ tagged last.items = tagged q.items ++ given q.open_ ops := by
  induction run with
  | nil => simp [taken, given]
  | @cons q middle last op ops step rest ih =>
    cases step with
    | put tag body more =>
      obtain ⟨-, all, opened⟩ := q.put_spec tag body more
      rw [taken, given, ih, all, opened, List.append_assoc]
    | @part _ tag body remains items first left same =>
      have opened : middle.open_ = q.open_ := by
        unfold open_
        rw [same, first, left]
        cases items <;> simp
      rw [taken, given, List.append_assoc, ih, opened, first, left]
      simp [tagged]
    | @whole _ tag body first closed same =>
      have opened : middle.open_ = q.open_ := by
        unfold open_
        rw [same, first]
        cases rest_items : middle.items with
        | nil => simp [closed rest_items]
        | cons item items => simp
      rw [taken, given, List.append_assoc, ih, opened, first]
      simp [tagged]

end TaggedQueue
