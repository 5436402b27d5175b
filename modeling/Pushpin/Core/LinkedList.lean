import Mathlib.Data.Fintype.Basic
import Pushpin.Foundations.LinkedSegments
import Pushpin.Foundations.Runs

/-!
The intrusive list of `core/list.rs`. The nodes live in a backend that all lists
over it share, and a list has only its two ends. A `none` is a missing node, at
which the backend of a slab panics. The values of the nodes are left out.
-/
namespace PushpinList
open LinkedSegments Runs

inductive Relation where
  | prev
  | next
  deriving DecidableEq, Repr

section
variable {ι : Type}

def link (node : Node ι) : Relation → Option ι
  | .prev => node.prev
  | .next => node.next

def withLink (node : Node ι) (rel : Relation) (value : Option ι) : Node ι :=
  match rel with
  | .prev => { node with prev := value }
  | .next => { node with next := value }

structure Ends (ι : Type) where
  head : Option ι
  tail : Option ι
  deriving DecidableEq, Repr

def Ends.empty : Ends ι := ⟨none, none⟩

end

section
variable {ι : Type} [DecidableEq ι]

def setLink (b : Nodes ι) (index : ι) (rel : Relation) (value : Option ι) : Option (Nodes ι) := do
  let node ← b index
  return Function.update b index (some (withLink node rel value))

def takeLink (b : Nodes ι) (index : ι) (rel : Relation) : Option (Option ι × Nodes ι) := do
  let node ← b index
  return (link node rel, Function.update b index (some (withLink node rel none)))

namespace Ends

def insert (l : Ends ι) (b : Nodes ι) (index : ι) (after : Option ι) : Option (Ends ι × Nodes ι) :=
  match after with
  | some after => do
    let (next, b) ← takeLink b after .next
    let b ← setLink b index .next next
    let b ← setLink b after .next (some index)
    match next with
    | some next =>
      let (prev, b) ← takeLink b next .prev
      let b ← setLink b index .prev prev
      let b ← setLink b next .prev (some index)
      return (l, b)
    | none =>
      let b ← setLink b index .prev (some after)
      return ({ l with tail := some index }, b)
  | none =>
    match l.head with
    | some next => do
      let b ← setLink b next .prev (some index)
      let b ← setLink b index .next (some next)
      return ({ l with head := some index }, b)
    | none => do
      let b ← setLink b index .next none
      return (⟨some index, some index⟩, b)

def setLinkOf (b : Nodes ι) (index : Option ι) (rel : Relation) (value : Option ι) :
    Option (Nodes ι) :=
  match index with
  | some index => setLink b index rel value
  | none => some b

def remove (l : Ends ι) (b : Nodes ι) (index : ι) : Option (Ends ι × Nodes ι) := do
  let (prev, b) ← takeLink b index .prev
  let (next, b) ← takeLink b index .next
  let b ← setLinkOf b prev .next next
  let b ← setLinkOf b next .prev prev
  return (⟨if l.head = some index then next else l.head, if l.tail = some index then prev
    else l.tail⟩, b)

def popFront (l : Ends ι) (b : Nodes ι) : Option (Option ι × Ends ι × Nodes ι) :=
  match l.head with
  | none => some (none, l, b)
  | some index => do
    let (next, b) ← takeLink b index .next
    let b ← setLinkOf b next .prev none
    let b ← setLink b index .prev none
    return (some index, ⟨next, if next.isSome then l.tail else none⟩, b)

def pushBack (l : Ends ι) (b : Nodes ι) (index : ι) : Option (Ends ι × Nodes ι) :=
  match l.tail with
  | some after => do
    let b ← setLink b after .next (some index)
    let b ← setLink b index .prev (some after)
    let b ← setLink b index .next none
    return ({ l with tail := some index }, b)
  | none => l.insert b index none

def concat (l other : Ends ι) (b : Nodes ι) : Option (Ends ι × Ends ι × Nodes ι) :=
  match other.head with
  | none => some (l, other, b)
  | some head => do
    let (next, b) ← takeLink b head .next
    let (l, b) ← l.pushBack b head
    let b ← setLink b head .next next
    return (⟨l.head, other.tail⟩, ⟨none, none⟩, b)

def iter (l : Ends ι) (b : Nodes ι) (items : Nat) : Option (List ι) := walk b Node.next items l.head

end Ends

def insertAfter (after index : ι) : List ι → List ι
  | [] => []
  | x :: xs => if x = after then x :: index :: xs else x :: insertAfter after index xs

/-- A list holds a sequence: its nodes are linked in that order and it has the two ends. -/
structure Threaded (b : Nodes ι) (l : Ends ι) (xs : List ι) : Prop where
  seg : Seg b none xs none
  head : l.head = xs.head?
  tail : l.tail = xs.getLast?
  nodup : xs.Nodup

theorem insertAfter_split {after index : ι} {front back : List ι} (first : after ∉ front) :
    insertAfter after index (front ++ after :: back) = front ++ after :: index :: back := by
  induction front with
  | nil => rw [List.nil_append, insertAfter, if_pos rfl, List.nil_append]
  | cons x front ih =>
    have other : ¬ x = after := fun same => first (same ▸ List.mem_cons_self)
    rw [List.cons_append, insertAfter, if_neg other,
      ih fun mem => first (List.mem_cons_of_mem x mem), List.cons_append]

section
variable {l : Ends ι} {b : Nodes ι} {front back : List ι} {index : ι}

theorem insert_after_links {after : ι} {p n : Option ι} (here : b after = some ⟨p, n⟩)
    (behind : ∀ c, n = some c → ∃ m, b c = some ⟨some after, m⟩)
    (node : b index = some ⟨none, none⟩)
    (apart : index ≠ after) (beside : n ≠ some index) (loop : n ≠ some after) :
    ∃ b', l.insert b index (some after) = some (⟨l.head, if n = none then some index else l.tail⟩,
      b') ∧ Spliced b b' (some index) ⟨some after, n⟩ (some after) (some index) n (some index) := by
  cases n with
  | none =>
    refine ⟨_, by
      simp [Ends.insert, takeLink, setLink, here, link, withLink, node, apart, apart.symm]
      rfl, ?_⟩
    refine ⟨?_, ?_, ?_, ?_⟩
    · rintro i ⟨⟩
      simp
    · rintro a found ⟨⟩ held
      obtain rfl := Option.some.inj (here.symm.trans held)
      simp [apart.symm]
    · rintro c found ⟨⟩
    · intro j other left right
      have one : j ≠ index := fun same => other (same ▸ rfl)
      have two : j ≠ after := fun same => left (same ▸ rfl)
      simp [one, two]
  | some c =>
    obtain ⟨m, there⟩ := behind c rfl
    have one : c ≠ index := fun same => beside (same ▸ rfl)
    have two : c ≠ after := fun same => loop (same ▸ rfl)
    refine ⟨_, by
      simp [Ends.insert, takeLink, setLink, here, there, link, withLink, node, apart, apart.symm,
        one, one.symm, two]
      rfl, ?_⟩
    refine ⟨?_, ?_, ?_, ?_⟩
    · rintro i ⟨⟩
      simp [one.symm]
    · rintro a found ⟨⟩ held
      obtain rfl := Option.some.inj (here.symm.trans held)
      simp [apart.symm, two.symm]
    · rintro c found ⟨⟩ held
      obtain rfl := Option.some.inj (there.symm.trans held)
      simp
    · intro j other left right
      have first : j ≠ index := fun same => other (same ▸ rfl)
      have second : j ≠ after := fun same => left (same ▸ rfl)
      have third : j ≠ c := fun same => right (same ▸ rfl)
      simp [first, second, third]

theorem insert_front_links {n : Option ι} (head : l.head = n)
    (behind : ∀ c, n = some c → ∃ m, b c = some ⟨none, m⟩) (node : b index = some ⟨none, none⟩)
    (beside : n ≠ some index) :
    ∃ b', l.insert b index none = some (⟨some index, if n = none then some index else l.tail⟩, b') ∧
      Spliced b b' (some index) ⟨none, n⟩ none (some index) n (some index) := by
  cases n with
  | none =>
    refine ⟨_, by
      simp [Ends.insert, setLink, withLink, node, head]
      rfl, ?_, ?_, ?_, ?_⟩
    · rintro i ⟨⟩
      simp
    · rintro a found ⟨⟩
    · rintro c found ⟨⟩
    · intro j other left right
      have first : j ≠ index := fun same => other (same ▸ rfl)
      simp [first]
  | some c =>
    obtain ⟨m, there⟩ := behind c rfl
    have one : c ≠ index := fun same => beside (same ▸ rfl)
    refine ⟨_, by
      simp [Ends.insert, setLink, withLink, node, there, head, one.symm]
      rfl, ?_, ?_, ?_, ?_⟩
    · rintro i ⟨⟩
      simp
    · rintro a found ⟨⟩
    · rintro c found ⟨⟩ held
      obtain rfl := Option.some.inj (there.symm.trans held)
      simp [one]
    · intro j other left right
      have first : j ≠ index := fun same => other (same ▸ rfl)
      have third : j ≠ c := fun same => right (same ▸ rfl)
      simp [first, third]

theorem pushBack_links {after : ι} {p : Option ι} (tail : l.tail = some after)
    (here : b after = some ⟨p, none⟩) (node : b index = some ⟨none, none⟩) (apart : index ≠ after) :
    ∃ b', l.pushBack b index = some (⟨l.head, some index⟩, b') ∧
      Spliced b b' (some index) ⟨some after, none⟩ (some after) (some index) none (some index) := by
  refine ⟨_, by
    simp [Ends.pushBack, setLink, withLink, tail, here, node, apart]
    rfl, ?_, ?_, ?_, ?_⟩
  · rintro i ⟨⟩
    simp
  · rintro a found ⟨⟩ held
    obtain rfl := Option.some.inj (here.symm.trans held)
    simp [apart.symm]
  · rintro c found ⟨⟩
  · intro j other left right
    have first : j ≠ index := fun same => other (same ▸ rfl)
    have second : j ≠ after := fun same => left (same ▸ rfl)
    simp [first, second]

theorem remove_links {p n : Option ι} (here : b index = some ⟨p, n⟩)
    (before : ∀ a, p = some a → ∃ q, b a = some ⟨q, some index⟩)
    (behind : ∀ c, n = some c → ∃ m, b c = some ⟨some index, m⟩)
    (left : p ≠ some index) (right : n ≠ some index) (apart : ∀ a, p = some a → n ≠ some a) :
    ∃ b', l.remove b index = some (⟨if l.head = some index then n else l.head,
        if l.tail = some index then p else l.tail⟩, b') ∧
      Spliced b b' (some index) ⟨none, none⟩ p n n p := by
  cases p with
  | none =>
    cases n with
    | none =>
      refine ⟨_, by
        simp [Ends.remove, takeLink, Ends.setLinkOf, here, link, withLink]
        rfl, ?_, ?_, ?_, ?_⟩
      · rintro i ⟨⟩
        simp
      · rintro a found ⟨⟩
      · rintro c found ⟨⟩
      · intro j other _ _
        have first : j ≠ index := fun same => other (same ▸ rfl)
        simp [first]
    | some c =>
      obtain ⟨m, there⟩ := behind c rfl
      have one : c ≠ index := fun same => right (same ▸ rfl)
      refine ⟨_, by
        simp [Ends.remove, takeLink, setLink, Ends.setLinkOf, here, there, link, withLink, one]
        rfl, ?_, ?_, ?_, ?_⟩
      · rintro i ⟨⟩
        simp [one.symm]
      · rintro a found ⟨⟩
      · rintro c found ⟨⟩ held
        obtain rfl := Option.some.inj (there.symm.trans held)
        simp
      · intro j other _ beside
        have first : j ≠ index := fun same => other (same ▸ rfl)
        have third : j ≠ c := fun same => beside (same ▸ rfl)
        simp [first, third]
  | some a =>
    obtain ⟨q, back⟩ := before a rfl
    have two : a ≠ index := fun same => left (same ▸ rfl)
    cases n with
    | none =>
      refine ⟨_, by
        simp [Ends.remove, takeLink, setLink, Ends.setLinkOf, here, back, link, withLink, two]
        rfl, ?_, ?_, ?_, ?_⟩
      · rintro i ⟨⟩
        simp [two.symm]
      · rintro a found ⟨⟩ held
        obtain rfl := Option.some.inj (back.symm.trans held)
        simp
      · rintro c found ⟨⟩
      · intro j other beside _
        have first : j ≠ index := fun same => other (same ▸ rfl)
        have second : j ≠ a := fun same => beside (same ▸ rfl)
        simp [first, second]
    | some c =>
      obtain ⟨m, there⟩ := behind c rfl
      have one : c ≠ index := fun same => right (same ▸ rfl)
      have three : c ≠ a := fun same => apart a rfl (same ▸ rfl)
      refine ⟨_, by
        simp [Ends.remove, takeLink, setLink, Ends.setLinkOf, here, back, there, link, withLink,
          one, two, three]
        rfl, ?_, ?_, ?_, ?_⟩
      · rintro i ⟨⟩
        simp [one.symm, two.symm]
      · rintro a found ⟨⟩ held
        obtain rfl := Option.some.inj (back.symm.trans held)
        simp [three.symm]
      · rintro c found ⟨⟩ held
        obtain rfl := Option.some.inj (there.symm.trans held)
        simp
      · intro j other before behind
        have first : j ≠ index := fun same => other (same ▸ rfl)
        have second : j ≠ a := fun same => before (same ▸ rfl)
        have third : j ≠ c := fun same => behind (same ▸ rfl)
        simp [first, second, third]

theorem popFront_links {n : Option ι} (head : l.head = some index) (here : b index = some ⟨none, n⟩)
    (behind : ∀ c, n = some c → ∃ m, b c = some ⟨some index, m⟩) (right : n ≠ some index) :
    ∃ b', l.popFront b = some (some index, ⟨n, if n.isSome then l.tail else none⟩, b') ∧
      Spliced b b' (some index) ⟨none, none⟩ none n n none := by
  cases n with
  | none =>
    refine ⟨_, by
      simp [Ends.popFront, takeLink, setLink, Ends.setLinkOf, head, here, link, withLink]
      rfl, ?_, ?_, ?_, ?_⟩
    · rintro i ⟨⟩
      simp
    · rintro a found ⟨⟩
    · rintro c found ⟨⟩
    · intro j other _ _
      have first : j ≠ index := fun same => other (same ▸ rfl)
      simp [first]
  | some c =>
    obtain ⟨m, there⟩ := behind c rfl
    have one : c ≠ index := fun same => right (same ▸ rfl)
    refine ⟨_, by
      simp [Ends.popFront, takeLink, setLink, Ends.setLinkOf, head, here, there, link, withLink,
        one, one.symm]
      rfl, ?_, ?_, ?_, ?_⟩
    · rintro i ⟨⟩
      simp
    · rintro a found ⟨⟩
    · rintro c found ⟨⟩ held
      obtain rfl := Option.some.inj (there.symm.trans held)
      simp [one]
    · intro j other _ beside
      have first : j ≠ index := fun same => other (same ▸ rfl)
      have third : j ≠ c := fun same => beside (same ▸ rfl)
      simp [first, third]

theorem concat_links {other : Ends ι} {after : Option ι} {head : ι} {n : Option ι}
    (tail : l.tail = after) (begins : l.head = none ↔ after = none) (first : other.head = some head)
    (here : b head = some ⟨none, n⟩)
    (before : ∀ a, after = some a → ∃ q, b a = some ⟨q, none⟩) (apart : after ≠ some head) :
    ∃ b', l.concat other b = some (⟨if after = none then some head else l.head, other.tail⟩,
      .empty, b') ∧ Spliced b b' none ⟨none, none⟩ after (some head) (some head) after := by
  cases after with
  | none =>
    have empty : l.head = none := begins.mpr rfl
    refine ⟨_, by
      simp [Ends.concat, Ends.pushBack, Ends.insert, takeLink, setLink, tail, empty, first, here,
        link, withLink, Ends.empty]
      rfl, ?_, ?_, ?_, ?_⟩
    · rintro i ⟨⟩
    · rintro a found ⟨⟩
    · rintro c found ⟨⟩ held
      obtain rfl := Option.some.inj (here.symm.trans held)
      simp
    · intro j _ _ beside
      have third : j ≠ head := fun same => beside (same ▸ rfl)
      simp [third]
  | some a =>
    obtain ⟨q, back⟩ := before a rfl
    have two : a ≠ head := fun same => apart (same ▸ rfl)
    refine ⟨_, by
      simp [Ends.concat, Ends.pushBack, takeLink, setLink, tail, first, here, back, link, withLink,
        Ends.empty, two, two.symm]
      rfl, ?_, ?_, ?_, ?_⟩
    · rintro i ⟨⟩
    · rintro a found ⟨⟩ held
      obtain rfl := Option.some.inj (back.symm.trans held)
      simp [two]
    · rintro c found ⟨⟩ held
      obtain rfl := Option.some.inj (here.symm.trans held)
      simp
    · intro j _ beside behind
      have second : j ≠ a := fun same => beside (same ▸ rfl)
      have third : j ≠ head := fun same => behind (same ▸ rfl)
      simp [second, third]

theorem Threaded.insert_after {after : ι} (threaded : Threaded b l (front ++ after :: back))
    (fresh : index ∉ front ++ after :: back) (node : b index = some ⟨none, none⟩) :
    ∃ l' b', l.insert b index (some after) = some (l', b') ∧
      Threaded b' l' (front ++ after :: index :: back) ∧
      ∀ j, j ≠ index → j ∉ front ++ after :: back → b' j = b j := by
  have cut : front ++ after :: back = (front ++ [after]) ++ back := by
    rw [List.append_assoc, List.singleton_append]
  have last : (front ++ [after]).getLast? = some after := List.getLast?_concat
  have seg := threaded.seg
  have nodup := threaded.nodup
  have here := seg_node seg
  rw [Option.or_none, Option.or_none] at here
  rw [cut] at seg nodup fresh
  have apart : index ≠ after :=
    fun same => fresh (same ▸ List.mem_append_left _ (List.mem_append_right _ List.mem_cons_self))
  have beside : back.head? ≠ some index :=
    fun first => fresh (List.mem_append_right _ (List.mem_of_mem_head? first))
  have loop : back.head? ≠ some after := fun first =>
    (List.nodup_append.mp nodup).2.2 after (List.mem_append_right _ List.mem_cons_self) after
      (List.mem_of_mem_head? first) rfl
  obtain ⟨b', called, spliced⟩ := insert_after_links here
    (fun c first => last ▸ seg_right seg first) node apart beside loop
  rw [← last] at spliced
  refine ⟨_, b', called, ⟨?_, ?_, ?_, ?_⟩, fun j other outside => ?_⟩
  · have whole := spliced.insert nodup fresh seg
    rwa [List.append_assoc, List.singleton_append] at whole
  · rw [threaded.head]
    cases front <;> rfl
  · rw [threaded.tail]
    cases back with
    | nil => simp
    | cons c back => simp
  · have grown : ((front ++ [after]) ++ index :: back).Nodup :=
      List.nodup_middle.mpr (List.nodup_cons.mpr ⟨fresh, nodup⟩)
    rwa [List.append_assoc, List.singleton_append] at grown
  · exact spliced.outside (fun same => other (Option.some.inj same).symm) (cut ▸ outside)

section
variable {xs : List ι} (threaded : Threaded b l xs) (fresh : index ∉ xs)
  (node : b index = some ⟨none, none⟩)
include threaded fresh node

theorem Threaded.insert_front :
    ∃ l' b', l.insert b index none = some (l', b') ∧ Threaded b' l' (index :: xs) ∧
      ∀ j, j ≠ index → j ∉ xs → b' j = b j := by
  have beside : xs.head? ≠ some index := fun first => fresh (List.mem_of_mem_head? first)
  have behind : ∀ c, xs.head? = some c → ∃ m, b c = some ⟨none, m⟩ := fun c first =>
    @seg_right ι b [] xs threaded.seg c first
  obtain ⟨b', called, spliced⟩ := insert_front_links threaded.head behind node beside
  have spliced' : Spliced b b' (some index) ⟨([] : List ι).getLast?, xs.head?⟩
      ([] : List ι).getLast? (some index) xs.head? (some index) := spliced
  refine ⟨_, b', called, ⟨spliced'.insert threaded.nodup fresh threaded.seg, rfl, ?_,
    List.nodup_cons.mpr ⟨fresh, threaded.nodup⟩⟩, fun j other outside => ?_⟩
  · cases xs with
    | nil => rfl
    | cons c xs =>
      rw [List.getLast?_cons_cons]
      exact threaded.tail
  · exact spliced'.outside (fun same => other (Option.some.inj same).symm) outside

theorem Threaded.pushBack :
    ∃ l' b', l.pushBack b index = some (l', b') ∧ Threaded b' l' (xs ++ [index]) ∧
      ∀ j, j ≠ index → j ∉ xs → b' j = b j := by
  have tail := threaded.tail
  cases last : xs.getLast? with
  | none =>
    obtain rfl := List.getLast?_eq_none_iff.mp last
    obtain ⟨l', b', called, rest⟩ := threaded.insert_front fresh node
    refine ⟨l', b', ?_, rest⟩
    rw [Ends.pushBack, tail]
    exact called
  | some after =>
    rw [last] at tail
    have seg := threaded.seg
    rw [← List.append_nil xs] at seg
    obtain ⟨q, here⟩ := seg_left seg last
    have apart : index ≠ after := fun same => fresh (same ▸ List.mem_of_getLast? last)
    obtain ⟨b', called, spliced⟩ := pushBack_links tail here node apart
    have spliced' : Spliced b b' (some index) ⟨xs.getLast?, ([] : List ι).head?⟩ xs.getLast?
        (some index) ([] : List ι).head? (some index) := last ▸ spliced
    refine ⟨_, b', called, ⟨spliced'.insert ?_ ?_ seg, ?_, ?_, ?_⟩, fun j other outside => ?_⟩
    · rw [List.append_nil]
      exact threaded.nodup
    · rw [List.append_nil]
      exact fresh
    · rw [threaded.head, List.head?_append]
      cases xs with
      | nil => cases last
      | cons x xs => rfl
    · rw [List.getLast?_concat]
    · exact List.nodup_middle.mpr (List.nodup_cons.mpr ⟨by rwa [List.append_nil], by
        rw [List.append_nil]
        exact threaded.nodup⟩)
    · exact spliced'.outside (fun same => other (Option.some.inj same).symm)
        (by rwa [List.append_nil])

end

theorem Threaded.remove (threaded : Threaded b l (front ++ index :: back)) :
    ∃ l' b', l.remove b index = some (l', b') ∧ Threaded b' l' (front ++ back) ∧
      b' index = some ⟨none, none⟩ ∧ ∀ j, j ≠ index → j ∉ front ++ back → b' j = b j := by
  have seg := threaded.seg
  have here := seg_node seg
  rw [Option.or_none, Option.or_none] at here
  obtain ⟨fresh, nodup⟩ := List.nodup_cons.mp (List.nodup_middle.mp threaded.nodup)
  have cut : front ++ index :: back = (front ++ [index]) ++ back := by
    rw [List.append_assoc, List.singleton_append]
  have left : front.getLast? ≠ some index :=
    fun last => fresh (List.mem_append_left _ (List.mem_of_getLast? last))
  have right : back.head? ≠ some index :=
    fun first => fresh (List.mem_append_right _ (List.mem_of_mem_head? first))
  have apart : ∀ a, front.getLast? = some a → back.head? ≠ some a := fun a last first =>
    (List.nodup_append.mp nodup).2.2 a (List.mem_of_getLast? last) a
      (List.mem_of_mem_head? first) rfl
  obtain ⟨b', called, spliced⟩ := remove_links here (fun a last => seg_left seg last)
    (fun c first => by
      have found := seg_right (cut ▸ seg) first
      rwa [List.getLast?_concat] at found) left right apart
  refine ⟨_, b', called, ⟨spliced.erase threaded.nodup seg, ?_, ?_, nodup⟩, spliced.here index rfl,
    fun j other outside => spliced.outside (fun same => other (Option.some.inj same).symm) outside⟩
  · have head := threaded.head
    cases front with
    | nil =>
      rw [List.nil_append, List.head?_cons] at head
      rw [head, if_pos rfl, List.nil_append]
    | cons x front =>
      rw [List.cons_append, List.head?_cons] at head
      have other : ¬ some x = some index :=
        fun same => fresh (Option.some.inj same ▸ List.mem_cons_self)
      rw [head, if_neg other, List.cons_append, List.head?_cons]
  · have tail := threaded.tail
    rw [List.getLast?_append, List.getLast?_cons] at tail
    rw [List.getLast?_append, tail, Option.some_or]
    cases last : back.getLast? with
    | none => rw [Option.getD_none, if_pos rfl, Option.none_or]
    | some z =>
      have other : ¬ some z = some index := fun same =>
        fresh (List.mem_append_right _ (Option.some.inj same ▸ List.mem_of_getLast? last))
      rw [Option.getD_some, if_neg other, Option.some_or]

theorem Threaded.popFront {xs : List ι} (threaded : Threaded b l (index :: xs)) :
    ∃ l' b', l.popFront b = some (some index, l', b') ∧ Threaded b' l' xs ∧
      b' index = some ⟨none, none⟩ ∧ ∀ j, j ≠ index → j ∉ xs → b' j = b j := by
  have seg := threaded.seg
  have here : b index = some ⟨none, xs.head?.or none⟩ := seg.1
  rw [Option.or_none] at here
  obtain ⟨fresh, nodup⟩ := List.nodup_cons.mp threaded.nodup
  have behind : ∀ c, xs.head? = some c → ∃ m, b c = some ⟨some index, m⟩ := fun c first =>
    @seg_right ι b [index] xs seg c first
  have right : xs.head? ≠ some index := fun first => fresh (List.mem_of_mem_head? first)
  obtain ⟨b', called, spliced⟩ := popFront_links threaded.head here behind right
  have spliced' : Spliced b b' (some index) ⟨none, none⟩ ([] : List ι).getLast? xs.head? xs.head?
      ([] : List ι).getLast? := spliced
  refine ⟨_, b', called,
    ⟨@Spliced.erase ι b b' ⟨none, none⟩ [] xs index spliced' threaded.nodup seg, rfl, ?_,
    nodup⟩, spliced.here index rfl,
    fun j other outside => spliced'.outside (fun same => other (Option.some.inj same).symm) outside⟩
  cases xs with
  | nil => rfl
  | cons c xs =>
    have tail := threaded.tail
    rw [List.getLast?_cons_cons] at tail
    exact tail

theorem Threaded.concat {other : Ends ι} {xs ys : List ι} (threaded : Threaded b l xs)
    (second : Threaded b other ys) (apart : ∀ i ∈ xs, i ∉ ys) :
    ∃ l' o' b', l.concat other b = some (l', o', b') ∧ Threaded b' l' (xs ++ ys) ∧
      Threaded b' o' [] ∧ ∀ j, j ∉ xs → j ∉ ys → b' j = b j := by
  cases ys with
  | nil =>
    have empty : other.head = none := second.head
    refine ⟨l, other,
      b, by rw [Ends.concat, empty], by rw [List.append_nil]; exact threaded, second,
      fun j _ _ => rfl⟩
  | cons head ys =>
    have here : b head = some ⟨none, ys.head?.or none⟩ := second.seg.1
    have seg := threaded.seg
    rw [← List.append_nil xs] at seg
    have begins : l.head = none ↔ xs.getLast? = none := by
      rw [threaded.head, List.head?_eq_none_iff, List.getLast?_eq_none_iff]
    have outside : xs.getLast? ≠ some head := fun last =>
      apart head (List.mem_of_getLast? last) List.mem_cons_self
    have nodup : (xs ++ head :: ys).Nodup := List.nodup_append.mpr
      ⟨threaded.nodup, second.nodup, fun a mem c there same => apart a mem (same ▸ there)⟩
    obtain ⟨b', called, spliced⟩ := concat_links threaded.tail begins second.head here
      (fun a last => seg_left seg last) outside
    have spliced' : Spliced b b' none ⟨none, none⟩ xs.getLast? (head :: ys).head?
        (head :: ys).head? xs.getLast? :=
      spliced
    refine ⟨_, _, b', called, ⟨spliced'.join nodup threaded.seg second.seg, ?_, ?_, nodup⟩,
      ⟨trivial, rfl, rfl, List.nodup_nil⟩, fun j one two => spliced'.outside
        (fun absurd => by cases absurd) (fun mem => (List.mem_append.mp mem).elim one two)⟩
    · rw [List.head?_append]
      cases xs with
      | nil => rfl
      | cons x xs =>
        rw [if_neg (by rw [List.getLast?_cons]; exact Option.some_ne_none _)]
        exact threaded.head
    · rw [List.getLast?_append, second.tail, List.getLast?_cons, Option.some_or]

end

section
variable {κ : Type} [DecidableEq κ]

structure Lists (κ ι : Type) where
  nodes : Nodes ι
  ends : κ → Ends ι
  seqs : κ → List ι

inductive Op (κ ι : Type) where
  | insert (list : κ) (index : ι) (after : Option ι)
  | remove (list : κ) (index : ι)
  | popFront (list : κ)
  | pushBack (list : κ) (index : ι)
  | concat (list other : κ)
  deriving DecidableEq, Repr

def Op.abstract (seqs : κ → List ι) : Op κ ι → κ → List ι
  | .insert list index none => Function.update seqs list (index :: seqs list)
  | .insert list index (some after) => Function.update seqs list
    (insertAfter after index (seqs list))
  | .remove list index => Function.update seqs list ((seqs list).erase index)
  | .popFront list => Function.update seqs list (seqs list).tail
  | .pushBack list index => Function.update seqs list (seqs list ++ [index])
  | .concat list other => Function.update (Function.update seqs list (seqs list ++ seqs other))
    other []

def Lists.step (s : Lists κ ι) (op : Op κ ι) : Option (Lists κ ι) :=
  let seqs := op.abstract s.seqs
  match op with
  | .insert list index after => do
    let (l, b) ← (s.ends list).insert s.nodes index after
    return ⟨b, Function.update s.ends list l, seqs⟩
  | .remove list index => do
    let (l, b) ← (s.ends list).remove s.nodes index
    return ⟨b, Function.update s.ends list l, seqs⟩
  | .popFront list => do
    let (_, l, b) ← (s.ends list).popFront s.nodes
    return ⟨b, Function.update s.ends list l, seqs⟩
  | .pushBack list index => do
    let (l, b) ← (s.ends list).pushBack s.nodes index
    return ⟨b, Function.update s.ends list l, seqs⟩
  | .concat list other => do
    let (l, o, b) ← (s.ends list).concat (s.ends other) s.nodes
    return ⟨b, Function.update (Function.update s.ends list l) other o, seqs⟩

def Lists.unlinked [Fintype κ] (s : Lists κ ι) (index : ι) : Bool :=
  (s.nodes index).isSome && decide (∀ list, index ∉ s.seqs list)

def Lists.permits [Fintype κ] (s : Lists κ ι) : Op κ ι → Bool
  | .insert list index after => s.unlinked index && after.all fun after =>
      decide (after ∈ s.seqs list)
  | .remove list index => decide (index ∈ s.seqs list)
  | .popFront _ => true
  | .pushBack _ index => s.unlinked index
  | .concat list other => decide (list ≠ other)

/-- Every list holds its sequence, no node is in two of them, and a node in none has no links. -/
structure Linked (s : Lists κ ι) : Prop where
  threaded : ∀ k, Threaded s.nodes (s.ends k) (s.seqs k)
  apart : ∀ k k' i, i ∈ s.seqs k → i ∈ s.seqs k' → k = k'
  free : ∀ i node, s.nodes i = some node → (∀ k, i ∉ s.seqs k) → node = ⟨none, none⟩

omit [DecidableEq ι] in
theorem Threaded.congr {b b' : Nodes ι} {l : Ends ι} {xs : List ι} (threaded : Threaded b l xs)
    (same : ∀ i ∈ xs, b' i = b i) : Threaded b' l xs :=
  ⟨(seg_congr same).mpr threaded.seg, threaded.head, threaded.tail, threaded.nodup⟩

omit [DecidableEq ι] [DecidableEq κ] in
/-- An operation that touches some of the lists leaves the others alone. -/
theorem Linked.touch {s next : Lists κ ι} (linked : Linked s) (touched : κ → Prop)
    (kept : ∀ k, ¬ touched k → next.ends k = s.ends k ∧ next.seqs k = s.seqs k)
    (threaded : ∀ k, touched k → Threaded next.nodes (next.ends k) (next.seqs k))
    (apart : ∀ k k' i, touched k → touched k' → i ∈ next.seqs k → i ∈ next.seqs k' → k = k')
    (news : ∀ k i, touched k → i ∈ next.seqs k →
    (∃ k', touched k' ∧ i ∈ s.seqs k') ∨ ∀ k', i ∉ s.seqs k')
    (gone : ∀ k i, touched k → i ∈ s.seqs k → (∀ k', touched k' → i ∉ next.seqs k') →
      next.nodes i = some ⟨none, none⟩)
    (same : ∀ j, (∀ k, touched k → j ∉ s.seqs k ∧ j ∉ next.seqs k) → next.nodes j = s.nodes j) :
    Linked next := by
  -- a node of an untouched list is in no touched one, before or after
  have outside : ∀ k i, ¬ touched k → i ∈ s.seqs k → ∀ k', touched k' → i ∉ s.seqs k' ∧
      i ∉ next.seqs k' := by
    intro k i other mem k' at_work
    have before : ∀ k', touched k' → i ∉ s.seqs k' := fun k' at_work there =>
      other (linked.apart k k' i mem there ▸ at_work)
    refine ⟨before k' at_work, fun after => ?_⟩
    rcases news k' i at_work after with ⟨old, at_work', there⟩ | nowhere
    · exact before old at_work' there
    · exact nowhere k mem
  refine ⟨fun k => ?_, fun k k' i one two => ?_, fun i node found nowhere => ?_⟩
  · by_cases at_work : touched k
    · exact threaded k at_work
    · obtain ⟨ends, seqs⟩ := kept k at_work
      rw [ends, seqs]
      exact (linked.threaded k).congr fun i mem => same i (outside k i at_work mem)
  · by_cases first : touched k
    · by_cases second : touched k'
      · exact apart k k' i first second one two
      · rw [(kept k' second).2] at two
        exact absurd one (outside k' i second two k first).2
    · rw [(kept k first).2] at one
      by_cases second : touched k'
      · exact absurd two (outside k i first one k' second).2
      · rw [(kept k' second).2] at two
        exact linked.apart k k' i one two
  · by_cases inside : ∃ k, touched k ∧ i ∈ s.seqs k
    · obtain ⟨k, at_work, mem⟩ := inside
      rw [gone k i at_work mem fun k' _ => nowhere k'] at found
      exact (Option.some.inj found).symm
    · rw [same i fun k at_work => ⟨fun mem => inside ⟨k, at_work, mem⟩, nowhere k⟩] at found
      refine linked.free i node found fun k mem => ?_
      by_cases at_work : touched k
      · exact inside ⟨k, at_work, mem⟩
      · exact nowhere k ((kept k at_work).2 ▸ mem)

omit [DecidableEq ι] in
theorem Linked.update {s : Lists κ ι} (linked : Linked s) {k : κ} {l : Ends ι} {b : Nodes ι}
    {xs : List ι} (threaded : Threaded b l xs) (news : ∀ i ∈ xs, i ∈ s.seqs k ∨ ∀ k', i ∉ s.seqs k')
    (gone : ∀ i ∈ s.seqs k, i ∉ xs → b i = some ⟨none, none⟩)
    (same : ∀ j, j ∉ s.seqs k → j ∉ xs → b j = s.nodes j) :
    Linked ⟨b, Function.update s.ends k l, Function.update s.seqs k xs⟩ := by
  refine linked.touch (· = k) (fun m other => ?_) (fun m at_work => ?_)
    (fun m m' i first second _ _ => ?_)
    (fun m i at_work mem => ?_) (fun m i at_work mem nowhere => ?_) (fun j outside => ?_)
  · exact ⟨Function.update_of_ne other _ _, Function.update_of_ne other _ _⟩
  · subst at_work
    simp only [Function.update_self]
    exact threaded
  · exact first.trans second.symm
  · subst at_work
    simp only [Function.update_self] at mem
    exact (news i mem).imp_left fun there => ⟨m, rfl, there⟩
  · subst at_work
    have absent := nowhere m rfl
    simp only [Function.update_self] at absent
    exact gone i mem absent
  · have both := outside k rfl
    simp only [Function.update_self] at both
    exact same j both.1 both.2

omit [DecidableEq κ] in
theorem Lists.unlinked_iff [Fintype κ] {s : Lists κ ι} (linked : Linked s) {index : ι}
    (unlinked : s.unlinked index = true) : s.nodes index = some ⟨none, none⟩ ∧
    ∀ k, index ∉ s.seqs k := by
  obtain ⟨there, nowhere⟩ := (Bool.and_eq_true _ _).mp unlinked
  obtain ⟨node, found⟩ := Option.isSome_iff_exists.mp there
  have out := of_decide_eq_true nowhere
  rw [found, linked.free index node found out]
  exact ⟨rfl, out⟩

omit [DecidableEq ι] in
theorem Linked.joins {s : Lists κ ι} (linked : Linked s) {k : κ} {l : Ends ι} {b : Nodes ι}
    {xs : List ι} {index : ι} (nowhere : ∀ k', index ∉ s.seqs k') (threaded : Threaded b l xs)
    (members : ∀ i, i ∈ xs ↔ i = index ∨ i ∈ s.seqs k)
    (same : ∀ j, j ≠ index → j ∉ s.seqs k → b j = s.nodes j) :
    Linked ⟨b, Function.update s.ends k l, Function.update s.seqs k xs⟩ := by
  refine linked.update threaded (fun i mem => ?_) (fun i mem gone => ?_) (fun j old new => ?_)
  · rcases (members i).mp mem with rfl | there
    · exact Or.inr nowhere
    · exact Or.inl there
  · exact absurd ((members i).mpr (Or.inr mem)) gone
  · exact same j (fun own => new ((members j).mpr (Or.inl own))) old

omit [DecidableEq ι] in
theorem Linked.leaves {s : Lists κ ι} (linked : Linked s) {k : κ} {l : Ends ι} {b : Nodes ι}
    {xs : List ι} {index : ι} (threaded : Threaded b l xs) (node : b index = some ⟨none, none⟩)
    (members : ∀ i, i ∈ s.seqs k ↔ i = index ∨ i ∈ xs) (same : ∀ j, j ≠ index → j ∉ xs →
    b j = s.nodes j) :
    Linked ⟨b, Function.update s.ends k l, Function.update s.seqs k xs⟩ := by
  refine linked.update threaded (fun i mem => ?_) (fun i mem gone => ?_) (fun j old new => ?_)
  · exact Or.inl ((members i).mpr (Or.inr mem))
  · rcases (members i).mp mem with rfl | there
    · exact node
    · exact absurd there gone
  · exact same j (fun own => old ((members j).mpr (Or.inl own))) new

theorem Linked.step [Fintype κ] {s : Lists κ ι} (linked : Linked s) (op : Op κ ι)
    (permitted : s.permits op = true) : ∃ next, s.step op = some next ∧ Linked next := by
  cases op with
  | insert list index after =>
    obtain ⟨unlinked, member⟩ := (Bool.and_eq_true _ _).mp permitted
    obtain ⟨node, nowhere⟩ := Lists.unlinked_iff linked unlinked
    cases after with
    | none =>
      obtain ⟨l', b', called, threaded, same⟩ :=
        (linked.threaded list).insert_front (nowhere list) node
      refine ⟨_, by simp only [Lists.step, called]; rfl, ?_⟩
      exact linked.joins nowhere threaded (fun i => List.mem_cons) same
    | some after =>
      have inside : after ∈ s.seqs list := of_decide_eq_true member
      obtain ⟨front, back, cut, first⟩ := List.eq_append_cons_of_mem inside
      have threaded := linked.threaded list
      rw [cut] at threaded
      obtain ⟨l', b', called, threaded', same⟩ := threaded.insert_after (cut ▸ nowhere list) node
      have placed : insertAfter after index (s.seqs list) = front ++ after :: index :: back := by
        rw [cut, insertAfter_split first]
      refine ⟨_, by simp only [Lists.step, called]; rfl, ?_⟩
      simp only [Op.abstract]
      refine linked.joins nowhere (placed ▸ threaded') (fun i => ?_) (cut ▸ same)
      rw [placed, cut]
      simp only [List.mem_append, List.mem_cons]
      tauto
  | remove list index =>
    have inside : index ∈ s.seqs list := of_decide_eq_true permitted
    obtain ⟨front, back, cut, first⟩ := List.eq_append_cons_of_mem inside
    have threaded := linked.threaded list
    rw [cut] at threaded
    obtain ⟨l', b', called, threaded', node, same⟩ := threaded.remove
    have placed : (s.seqs list).erase index = front ++ back := by
      rw [cut, List.erase_append_right _ first, List.erase_cons_head]
    refine ⟨_, by simp only [Lists.step, called]; rfl, ?_⟩
    simp only [Op.abstract]
    refine linked.leaves (placed ▸ threaded') node (fun i => ?_) (placed ▸ same)
    rw [placed, cut]
    simp only [List.mem_append, List.mem_cons]
    tauto
  | popFront list =>
    have threaded := linked.threaded list
    cases cut : s.seqs list with
    | nil =>
      rw [cut] at threaded
      have called : (s.ends list).popFront s.nodes = some (none, s.ends list, s.nodes) := by
        rw [Ends.popFront, threaded.head]
        rfl
      refine ⟨_, by simp only [Lists.step, called]; rfl, ?_⟩
      simp only [Op.abstract, cut]
      refine linked.update threaded (fun i mem => ?_) (fun i mem _ => ?_) (fun _ _ _ => rfl)
      · cases mem
      · rw [cut] at mem
        cases mem
    | cons index xs =>
      rw [cut] at threaded
      obtain ⟨l', b', called, threaded', node, same⟩ := threaded.popFront
      refine ⟨_, by simp only [Lists.step, called]; rfl, ?_⟩
      simp only [Op.abstract, cut]
      exact linked.leaves threaded' node (fun i => by rw [cut]; exact List.mem_cons) same
  | pushBack list index =>
    obtain ⟨node, nowhere⟩ := Lists.unlinked_iff linked permitted
    obtain ⟨l', b', called, threaded, same⟩ := (linked.threaded list).pushBack (nowhere list) node
    refine ⟨_, by simp only [Lists.step, called]; rfl, ?_⟩
    exact linked.joins nowhere threaded (fun i => by
      rw [List.mem_append, List.mem_singleton, or_comm]) same
  | concat list other =>
    have distinct : list ≠ other := of_decide_eq_true permitted
    obtain ⟨l', o', b', called, threaded, emptied, same⟩ :=
      (linked.threaded list).concat (linked.threaded other)
        (fun i one two => distinct (linked.apart list other i one two))
    refine ⟨_, by simp only [Lists.step, called]; rfl, ?_⟩
    have first : ∀ {α : κ → Type} (f : ∀ k, α k) (v : α list) (w : α other),
        Function.update (Function.update f list v) other w list = v := fun f v w => by
      rw [Function.update_of_ne distinct, Function.update_self]
    simp only [Op.abstract]
    refine linked.touch (fun k => k = list ∨ k = other) (fun k outside => ?_) (fun k at_work => ?_)
      (fun k k' i one two mem mem' => ?_) (fun k i at_work mem => ?_)
        (fun k i at_work mem nowhere => ?_)
      (fun j outside => ?_)
    · obtain ⟨one, two⟩ := not_or.mp outside
      dsimp only
      rw [Function.update_of_ne two, Function.update_of_ne one, Function.update_of_ne two,
        Function.update_of_ne one]
      exact ⟨rfl, rfl⟩
    · rcases at_work with rfl | rfl
      · simp only [first]
        exact threaded
      · simp only [Function.update_self]
        exact emptied
    · rcases one with rfl | rfl
      · rcases two with rfl | rfl
        · rfl
        · simp only [Function.update_self] at mem'
          cases mem'
      · simp only [Function.update_self] at mem
        cases mem
    · rcases at_work with rfl | rfl
      · simp only [first] at mem
        rcases List.mem_append.mp mem with mem | mem
        · exact Or.inl ⟨k, Or.inl rfl, mem⟩
        · exact Or.inl ⟨other, Or.inr rfl, mem⟩
      · simp only [Function.update_self] at mem
        cases mem
    · have absent := nowhere list (Or.inl rfl)
      simp only [first] at absent
      rcases at_work with rfl | rfl
      · exact absurd (List.mem_append_left _ mem) absent
      · exact absurd (List.mem_append_right _ mem) absent
    · exact same j (outside list (Or.inl rfl)).1 (outside other (Or.inr rfl)).1

theorem Lists.step_seqs {s next : Lists κ ι} {op : Op κ ι} (stepped : s.step op = some next) :
    next.seqs = op.abstract s.seqs := by
  cases op <;>
  · obtain ⟨_, _, eq⟩ := Option.bind_eq_some_iff.mp stepped
    cases eq
    rfl

theorem Lists.run_seqs {s last : Lists κ ι} {ops : List (Op κ ι)}
    (ran : run Lists.step s ops = some last) : last.seqs = ops.foldl Op.abstract s.seqs := by
  induction ops generalizing s with
  | nil =>
    cases ran
    rfl
  | cons op ops ih =>
    obtain ⟨next, stepped, rest⟩ := Option.bind_eq_some_iff.mp ran
    rw [ih rest, Lists.step_seqs stepped]
    rfl

def Lists.start (nodes : ι → Bool) : Lists κ ι :=
  ⟨fun i => if nodes i then some ⟨none, none⟩ else none, fun _ => .empty, fun _ => []⟩

omit [DecidableEq κ] [DecidableEq ι] in
theorem Linked.start (nodes : ι → Bool) : Linked (.start nodes : Lists κ ι) := by
  refine ⟨fun k => ⟨trivial, rfl, rfl, List.nodup_nil⟩, fun k k' i mem => (by cases mem),
    fun i node found _ => ?_⟩
  simp only [Lists.start] at found
  split at found
  · exact (Option.some.inj found).symm
  · cases found

/-- After any sequence of operations that keep to their conditions, the links from the head are the
sequence and the links from the tail its reverse, in every list; the ends and the nodes in no list
have no links beyond, and what is taken from the front is the first item. -/
theorem lists_refine_sequences [Fintype κ] (nodes : ι → Bool) (ops : List (Op κ ι))
    (permitted : along Lists.step Lists.permits (.start nodes) ops = true) :
    ∃ last, run Lists.step (.start nodes) ops = some last ∧
      last.seqs = ops.foldl Op.abstract (fun _ => []) ∧
      (∀ k, (last.seqs k).Nodup ∧
        (∀ steps, (last.seqs k).length ≤ steps →
          (last.ends k).iter last.nodes steps = some (last.seqs k) ∧
            walk last.nodes Node.prev steps (last.ends k).tail = some (last.seqs k).reverse) ∧
        (∀ i, (last.ends k).head = some i → ∃ next, last.nodes i = some ⟨none, next⟩) ∧
        (∀ i, (last.ends k).tail = some i → ∃ prev, last.nodes i = some ⟨prev, none⟩) ∧
        ((last.ends k).popFront last.nodes).map Prod.fst = some (last.seqs k).head?) ∧
      (∀ k k' i, i ∈ last.seqs k → i ∈ last.seqs k' → k = k') ∧
      ∀ i node, last.nodes i = some node → (∀ k, i ∉ last.seqs k) → node = ⟨none, none⟩ := by
  obtain ⟨last, ran, linked⟩ := run_rule (fun s : Lists κ ι => Linked s)
    (fun s op linked permitted => linked.step op permitted) ops (Linked.start nodes) permitted
  refine ⟨last, ran, Lists.run_seqs ran, fun k => ?_, linked.apart, linked.free⟩
  obtain ⟨seg, head, tail, nodup⟩ := linked.threaded k
  refine ⟨nodup, fun steps enough => ⟨?_, ?_⟩, fun i first => ?_, fun i final => ?_, ?_⟩
  · rw [Ends.iter, head]
    exact walk_next seg enough
  · rw [tail]
    exact walk_prev seg enough
  · exact @seg_right ι _ [] _ seg i (head ▸ first)
  · rw [← List.append_nil (last.seqs k)] at seg
    exact seg_left seg (tail ▸ final)
  · have threaded := linked.threaded k
    cases cut : last.seqs k with
    | nil =>
      rw [cut] at head
      rw [Ends.popFront, head]
      rfl
    | cons index xs =>
      rw [cut] at threaded
      obtain ⟨l', b', called, _⟩ := threaded.popFront
      rw [called]
      rfl

end

end

def moves : List (Op (Fin 2) Nat) :=
  [.pushBack 0 1, .insert 0 2 none, .insert 0 3 (some 2), .remove 0 1, .pushBack 1 4, .pushBack 1 1,
    .popFront 1, .concat 0 1]

theorem moves_refine :
    ∃ last, run Lists.step (.start (· < 5)) moves = some last ∧ last.seqs 0 = [2, 3, 1] ∧
      last.seqs 1 = [] := by
  obtain ⟨last, ran, seqs, _⟩ := lists_refine_sequences (· < 5) moves (by decide)
  refine ⟨last, ran, ?_, ?_⟩ <;>
  · rw [seqs]
    decide

end PushpinList
