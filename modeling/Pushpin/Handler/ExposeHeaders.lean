import Pushpin.Handler.HttpSession
import Pushpin.Handler.Instruct

namespace PushpinExposeHeaders
open PushpinVariant PushpinHttpHeaders

section Removal
variable {α : Type}

/-- A loop over the positions of a list that removes items in place and then steps
    back, from position `n` on and for so many rounds at most. -/
def removeFrom (drops : α → Bool) : Nat → Nat → List α → List α
  | 0, _, items => items
  | left + 1, n, items =>
    match items[n]? with
    | none => items
    | some item =>
      if drops item then removeFrom drops left n (items.eraseIdx n)
        else removeFrom drops left (n + 1) items

def remove (drops : α → Bool) (items : List α) : List α := removeFrom drops items.length 0 items

theorem removeFrom_spec (drops : α → Bool) (left n : Nat) (items : List α)
    (enough : items.length ≤ n + left) :
    removeFrom drops left n items = items.take n ++ (items.drop n).filter fun item =>
      !drops item := by
  induction left generalizing n items with
  | zero =>
    have beyond : items.length ≤ n := enough
    rw [removeFrom, List.take_of_length_le beyond, List.drop_of_length_le beyond, List.filter_nil,
      List.append_nil]
  | succ left ih =>
    unfold removeFrom
    cases found : items[n]? with
    | none =>
      have beyond := List.getElem?_eq_none_iff.mp found
      rw [List.take_of_length_le beyond, List.drop_of_length_le beyond, List.filter_nil,
        List.append_nil]
    | some item =>
      obtain ⟨inside, at_n⟩ := List.getElem?_eq_some_iff.mp found
      have split : items.drop n = item :: items.drop (n + 1) := by
        rw [← at_n]
        exact List.drop_eq_getElem_cons inside
      have front_length : (items.take n).length = n := List.length_take_of_le (le_of_lt inside)
      simp only
      split_ifs with drop
      · rw [List.eraseIdx_eq_take_drop_succ, ih]
        · rw [split, List.filter_cons_of_neg (by simp [drop]),
            List.take_append_of_le_length (le_of_eq front_length.symm),
              List.drop_append_of_le_length (le_of_eq front_length.symm)]
          simp
        · rw [List.length_append, front_length, List.length_drop]
          omega
      · rw [ih (n + 1) items (by omega), split, List.filter_cons_of_pos (by simp [drop]),
          List.take_add_one, found]
        simp

theorem remove_eq_filter (drops : α → Bool) (items : List α) :
    remove drops items = items.filter fun item => !drops item := by
  rw [remove, removeFrom_spec drops items.length 0 items (by omega), List.take_zero, List.drop_zero,
    List.nil_append]

end Removal

def isGrip (h : Bytes × Bytes) : Bool := (h.1.take 5).map lower = (ascii "Grip-").map lower

/-- What `sequencer_itemReady` makes of the headers of a pushed response: the names
    that it exposes, and the headers of the push. -/
def relayed (headers : Headers) : List Bytes × Headers :=
  (headers.getAll (ascii "Grip-Expose-Headers"), remove isGrip headers)

def inherit (inherited headers : Headers) : Headers :=
  headers.foldl (fun acc h => remove (fun other => sameName other.1 h.1) acc) inherited ++ headers

def listed (exposeHeaders : List Bytes) (h : Bytes × Bytes) : Bool :=
  exposeHeaders.any fun e => sameName h.1 e

def respondHeaders (inherited headers : Headers) (exposeHeaders : List Bytes) : Headers :=
  let headers := inherit inherited headers
  if exposeHeaders.isEmpty then headers else remove (listed exposeHeaders) headers

theorem inherit_eq (inherited headers : Headers) :
    inherit inherited headers =
      (inherited.filter fun h => !headers.any fun r => sameName h.1 r.1) ++ headers := by
  have folded : ∀ acc : Headers,
    headers.foldl (fun acc h => remove (fun other => sameName other.1 h.1) acc) acc =
      acc.filter fun h => !headers.any fun r => sameName h.1 r.1 := by
    induction headers with
    | nil =>
      intro acc
      simp
    | cons h headers ih =>
      intro acc
      rw [List.foldl_cons, ih, remove_eq_filter, List.filter_filter]
      refine List.filter_congr ?_
      intro other _
      rw [List.any_cons, Bool.not_or, Bool.and_comm]
  rw [inherit, folded]

theorem respondExposed_eq (lib : PushpinHttpSession.Libraries) (names : lib.sameHeader = sameName)
    (s : PushpinHttpSession.Session) (response : PushpinHttpSession.Response)
    (exposeHeaders : List Bytes) :
    s.respondExposed lib response exposeHeaders = s.respond lib { response with
      headers := respondHeaders s.instruct.response.headers response.headers exposeHeaders } := by
  unfold PushpinHttpSession.Session.respondExposed respondHeaders
  rw [names, inherit_eq]
  by_cases none : exposeHeaders = []
  · subst none
    simp
  · rw [if_neg (by simpa using none), remove_eq_filter]
    rfl

theorem sameName_comm (a b : Bytes) : sameName a b = sameName b a := by
  unfold sameName
  simp only [eq_comm]

theorem exposed_eq {exposeHeaders : List Bytes} (given : exposeHeaders ≠ []) (headers : Headers) :
    PushpinInstruct.exposed exposeHeaders headers = (remove isGrip headers).filter
      (listed exposeHeaders) := by
  rw [remove_eq_filter, List.filter_filter]
  refine List.filter_congr ?_
  intro h _
  have some_given : exposeHeaders.isEmpty = false := by simpa using given
  rw [some_given, Bool.false_or, Bool.and_comm]
  congr 1
  unfold listed
  simp only [sameName_comm]

/-- The response of the origin keeps the headers that are listed. The answer to a push
    keeps the others, and so does the same only if there are none at all. -/
theorem pushed_headers_exposed_iff (inherited headers : Headers)
    (given : (relayed headers).1 ≠ []) :
      (∀ origin, PushpinInstruct.exposed (relayed headers).1 origin = (remove isGrip origin).filter
      (listed (relayed headers).1)) ∧
    (respondHeaders inherited (relayed headers).2 (relayed headers).1 =
        (inherit inherited (relayed headers).2).filter (listed (relayed headers).1) ↔
      inherit inherited (relayed headers).2 = []) := by
  refine ⟨exposed_eq given, ?_⟩
  unfold respondHeaders
  rw [if_neg (by simpa using given), remove_eq_filter]
  generalize inherit inherited (relayed headers).2 = merged
  constructor
  · intro same
    rw [List.eq_nil_iff_forall_not_mem]
    intro h mem
    by_cases shown : listed (relayed headers).1 h = true
    · have kept : h ∈ merged.filter (listed (relayed headers).1) := List.mem_filter.mpr ⟨mem, shown⟩
      rw [← same, List.mem_filter, shown] at kept
      cases kept.2
    · have kept : h ∈ merged.filter fun h => !listed (relayed headers).1 h :=
        List.mem_filter.mpr ⟨mem, by simpa using shown⟩
      rw [same, List.mem_filter] at kept
      exact shown kept.2
  · intro none
    rw [none]
    rfl

def sampleHeaders : Headers :=
  [(ascii "Grip-Expose-Headers", ascii "X-One"), (ascii "X-One", ascii "1"),
    (ascii "X-Two", ascii "2")]

theorem push_without_headers :
    (∀ origin, PushpinInstruct.exposed (relayed (sampleHeaders.take 1)).1 origin =
      (remove isGrip origin).filter (listed (relayed (sampleHeaders.take 1)).1)) ∧
    (respondHeaders [] (relayed (sampleHeaders.take 1)).2 (relayed (sampleHeaders.take 1)).1 =
        (inherit [] (relayed (sampleHeaders.take 1)).2).filter
        (listed (relayed (sampleHeaders.take 1)).1) ↔
      inherit [] (relayed (sampleHeaders.take 1)).2 = []) ∧
    inherit [] (relayed (sampleHeaders.take 1)).2 = [] := by
  obtain ⟨origin, pushed⟩ :=
    pushed_headers_exposed_iff [] (sampleHeaders.take 1) (by decide +kernel)
  exact ⟨origin, pushed, by decide +kernel⟩

theorem listed_header_is_lost :
    respondHeaders [] (relayed sampleHeaders).2 (relayed sampleHeaders).1 =
      [(ascii "X-Two", ascii "2")] ∧
    (inherit [] (relayed sampleHeaders).2).filter (listed (relayed sampleHeaders).1) =
    [(ascii "X-One", ascii "1")] ∧
    PushpinInstruct.exposed (relayed sampleHeaders).1 sampleHeaders =
      [(ascii "X-One", ascii "1")] := by
  decide +kernel

end PushpinExposeHeaders
