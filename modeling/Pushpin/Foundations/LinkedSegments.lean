import Mathlib.Data.List.Induction
import Mathlib.Data.List.Nodup

/-!
Doubly linked segments. Nodes hold the links to their neighbours; a sequence of
nodes is a segment between what its first node has before it and what its last
node has behind it.
-/
namespace LinkedSegments
variable {ι : Type}

structure Node (ι : Type) where
  prev : Option ι
  next : Option ι
  deriving DecidableEq, Repr

abbrev Nodes (ι : Type) := ι → Option (Node ι)

def Seg (b : Nodes ι) : Option ι → List ι → Option ι → Prop
  | _, [], _ => True
  | p, x :: xs, n => b x = some ⟨p, xs.head?.or n⟩ ∧ Seg b (some x) xs n

variable {b : Nodes ι} {p n : Option ι}

theorem seg_append (xs ys : List ι) :
    Seg b p (xs ++ ys) n ↔ Seg b p xs (ys.head?.or n) ∧ Seg b (xs.getLast?.or p) ys n := by
  induction xs generalizing p with
  | nil => simp only [List.nil_append, Seg, List.getLast?_nil, Option.none_or, true_and]
  | cons x xs ih =>
    have last : (x :: xs).getLast?.or p = xs.getLast?.or (some x) := by
      rw [List.getLast?_cons]
      cases xs.getLast? <;> rfl
    simp only [List.cons_append, Seg, ih, last, and_assoc, List.head?_append, Option.or_assoc]

variable {xs : List ι}

theorem seg_congr {b' : Nodes ι} (same : ∀ x ∈ xs, b' x = b x) : Seg b' p xs n ↔ Seg b p xs n := by
  induction xs generalizing p with
  | nil => exact Iff.rfl
  | cons x xs ih =>
    simp only [Seg, same x List.mem_cons_self, ih fun y mem => same y (List.mem_cons_of_mem x mem)]

theorem seg_node {ys : List ι} {x : ι} (seg : Seg b p (xs ++ x :: ys) n) :
    b x = some ⟨xs.getLast?.or p, ys.head?.or n⟩ :=
  ((seg_append xs (x :: ys)).mp seg).2.1

theorem seg_left {ys : List ι} (seg : Seg b none (xs ++ ys) none) {a : ι}
    (last : xs.getLast? = some a) : ∃ q, b a = some ⟨q, ys.head?⟩ := by
  obtain ⟨front, rfl⟩ := List.getLast?_eq_some_iff.mp last
  rw [List.append_assoc, List.singleton_append] at seg
  exact ⟨front.getLast?.or none, by rw [seg_node seg, Option.or_none (o := ys.head?)]⟩

theorem seg_right {b : Nodes ι} {xs ys : List ι} (seg : Seg b none (xs ++ ys) none) {c : ι}
    (first : ys.head? = some c) : ∃ m, b c = some ⟨xs.getLast?, m⟩ := by
  obtain ⟨back, rfl⟩ := List.head?_eq_some_iff.mp first
  exact ⟨back.head?.or none, by rw [seg_node seg, Option.or_none]⟩

def walk (b : Nodes ι) (link : Node ι → Option ι) : Nat → Option ι → Option (List ι)
  | _, none => some []
  | 0, some _ => none
  | steps + 1, some x => do
    let node ← b x
    let rest ← walk b link steps (link node)
    return x :: rest

theorem walk_next (seg : Seg b p xs none) {steps : Nat}
    (enough : xs.length ≤ steps) : walk b Node.next steps xs.head? = some xs := by
  induction xs generalizing p steps with
  | nil => cases steps <;> rfl
  | cons x xs ih =>
    obtain ⟨steps, rfl⟩ := Nat.exists_eq_add_of_le' (Nat.lt_of_lt_of_le (Nat.zero_lt_succ _) enough)
    obtain ⟨here, rest⟩ := seg
    rw [Option.or_none] at here
    have behind := ih rest (by simpa using enough)
    simp only [List.head?_cons, walk, here, Option.bind_eq_bind, Option.bind_some, behind]
    rfl

theorem walk_prev (seg : Seg b none xs n) {steps : Nat}
    (enough : xs.length ≤ steps) : walk b Node.prev steps xs.getLast? = some xs.reverse := by
  induction xs using List.reverseRecOn generalizing n steps with
  | nil => cases steps <;> rfl
  | append_singleton xs x ih =>
    rw [List.length_append, List.length_singleton] at enough
    obtain ⟨steps, rfl⟩ := Nat.exists_eq_add_of_le' (Nat.lt_of_lt_of_le (Nat.zero_lt_succ _) enough)
    obtain ⟨front, here, _⟩ := (seg_append xs [x]).mp seg
    rw [Option.or_none] at here
    have before : walk b Node.prev steps xs.getLast? = some xs.reverse := ih front (by omega)
    simp only [List.getLast?_append, List.getLast?_singleton, Option.some_or, walk, here,
      Option.bind_eq_bind, Option.bind_some, before, List.reverse_append, List.reverse_singleton,
        List.singleton_append]
    rfl

theorem seg_relast {b' : Nodes ι} {m : Option ι} (seg : Seg b p xs n)
    (last : ∀ a node, xs.getLast? = some a → b a = some node → b' a = some { node with next := m })
    (same : ∀ j ∈ xs.dropLast, b' j = b j) : Seg b' p xs m := by
  induction xs using List.reverseRecOn with
  | nil => trivial
  | append_singleton xs a _ =>
    obtain ⟨front, here, _⟩ := (seg_append xs [a]).mp seg
    rw [List.dropLast_concat] at same
    refine (seg_append xs [a]).mpr ⟨(seg_congr same).mpr front, ?_, trivial⟩
    exact last a _ List.getLast?_concat here

theorem seg_rehead {b' : Nodes ι} {q : Option ι} (seg : Seg b p xs n)
    (first : ∀ c node, xs.head? = some c → b c = some node → b' c = some { node with prev := q })
    (same : ∀ j ∈ xs.tail, b' j = b j) : Seg b' q xs n := by
  cases xs with
  | nil => trivial
  | cons c xs => exact ⟨first c _ rfl seg.1, (seg_congr same).mpr seg.2⟩

theorem ne_of_mem_dropLast (nodup : xs.Nodup) {j : ι} (mem : j ∈ xs.dropLast) :
    xs.getLast? ≠ some j := by
  induction xs using List.reverseRecOn with
  | nil => cases mem
  | append_singleton xs a _ =>
    rw [List.dropLast_concat] at mem
    rw [List.getLast?_concat]
    rintro ⟨⟩
    exact (List.nodup_append.mp nodup).2.2 j mem j List.mem_cons_self rfl

theorem ne_of_mem_tail (nodup : xs.Nodup) {j : ι} (mem : j ∈ xs.tail) : xs.head? ≠ some j := by
  cases xs with
  | nil => cases mem
  | cons c xs =>
    rintro ⟨⟩
    exact (List.nodup_cons.mp nodup).1 mem

/-- Two neighbours are linked to others, and one node is set; the rest is as it was. -/
structure Spliced (b b' : Nodes ι) (x : Option ι) (here : Node ι) (p q n m : Option ι) : Prop where
  here : ∀ i, x = some i → b' i = some here
  before : ∀ a node, p = some a → b a = some node → b' a = some { node with next := q }
  behind : ∀ c node, n = some c → b c = some node → b' c = some { node with prev := m }
  same : ∀ j, x ≠ some j → p ≠ some j → n ≠ some j → b' j = b j

section
variable {b b' : Nodes ι} {x : Option ι} {here : Node ι} {q m : Option ι} {front back : List ι}

section
variable (spliced : Spliced b b' x here front.getLast? q back.head? m)
include spliced

theorem Spliced.sides (nodup : (front ++ back).Nodup)
    (outside : ∀ i, x = some i → i ∉ front ++ back) {p n : Option ι}
    (left : Seg b p front n) {p' n' : Option ι} (right : Seg b p' back n') :
    Seg b' p front q ∧ Seg b' m back n' := by
  obtain ⟨nodupFront, nodupBack, apart⟩ := List.nodup_append.mp nodup
  have other : ∀ j, j ∈ front ++ back → x ≠ some j := fun j mem same => outside j same mem
  constructor
  · refine seg_relast left spliced.before fun j mem => ?_
    have inside : j ∈ front := (List.dropLast_sublist front).subset mem
    refine spliced.same j (other j (List.mem_append_left _ inside))
      (ne_of_mem_dropLast nodupFront mem) fun first => ?_
    exact apart j inside j (List.mem_of_mem_head? first) rfl
  · refine seg_rehead right spliced.behind fun j mem => ?_
    have inside : j ∈ back := List.mem_of_mem_tail mem
    refine spliced.same j (other j (List.mem_append_right _ inside)) (fun last => ?_)
      (ne_of_mem_tail nodupBack mem)
    exact apart j (List.mem_of_getLast? last) j inside rfl

theorem Spliced.outside {j : ι}
    (other : x ≠ some j) (outside : j ∉ front ++ back) : b' j = b j :=
  spliced.same j other
    (fun last => outside (List.mem_append_left _ (List.mem_of_getLast? last)))
    (fun first => outside (List.mem_append_right _ (List.mem_of_mem_head? first)))

end

theorem Spliced.insert {i : ι}
    (spliced : Spliced b b' (some i) ⟨front.getLast?, back.head?⟩ front.getLast? (some i) back.head?
    (some i))
    (nodup : (front ++ back).Nodup) (fresh : i ∉ front ++ back)
    (seg : Seg b none (front ++ back) none) :
    Seg b' none (front ++ i :: back) none := by
  obtain ⟨left, right⟩ := (seg_append front back).mp seg
  obtain ⟨left', right'⟩ :=
    spliced.sides nodup (fun j same => Option.some.inj same ▸ fresh) left right
  refine (seg_append front (i :: back)).mpr ⟨left', ?_, right'⟩
  rw [Option.or_none, Option.or_none]
  exact spliced.here i rfl

theorem Spliced.erase {i : ι}
    (spliced : Spliced b b' (some i) here front.getLast? back.head? back.head? front.getLast?)
    (nodup : (front ++ i :: back).Nodup) (seg : Seg b none (front ++ i :: back) none) :
    Seg b' none (front ++ back) none := by
  obtain ⟨left, _, right⟩ := (seg_append front (i :: back)).mp seg
  have apart := List.nodup_middle.mp nodup
  obtain ⟨fresh, nodup'⟩ := List.nodup_cons.mp apart
  obtain ⟨left', right'⟩ :=
    spliced.sides nodup' (fun j same => Option.some.inj same ▸ fresh) left right
  refine (seg_append front back).mpr ⟨?_, ?_⟩
  · rw [Option.or_none]
    exact left'
  · rw [Option.or_none]
    exact right'

theorem Spliced.join
    (spliced : Spliced b b' none here front.getLast? back.head? back.head? front.getLast?)
    (nodup : (front ++ back).Nodup) (left : Seg b none front none) (right : Seg b none back none) :
    Seg b' none (front ++ back) none := by
  obtain ⟨left', right'⟩ := spliced.sides nodup (fun j same => by cases same) left right
  refine (seg_append front back).mpr ⟨?_, ?_⟩
  · rw [Option.or_none]
    exact left'
  · rw [Option.or_none]
    exact right'

end

end LinkedSegments
