import Mathlib.Data.List.Nodup
import Mathlib.Logic.Function.Basic
import Pushpin.Core.TimerPlacement

namespace PushpinTimer
open CyclicMask Slabs

namespace TimerWheel
variable {w : TimerWheel} {loose : List Nat} {key : Nat} {n : Timer}

@[simp] theorem setSlot_wheel (wheel slot : Nat) (keys : List Nat) (i s : Nat) :
    (w.setSlot wheel slot keys).wheel i s =
      if i = wheel ∧ s = slot then keys else w.wheel i s := by
  simp only [setSlot, Function.update_apply]
  by_cases same : i = wheel
  · by_cases here : s = slot <;> simp [same, here]
  · simp [same]

@[simp] theorem setPending_pending (wheel : Nat) (bits : Word) (i : Nat) :
    (w.setPending wheel bits).pending i = if i = wheel then bits else w.pending i := by
  simp only [setPending, Function.update_apply]

@[simp] theorem setSlot_pending (wheel slot : Nat) (keys : List Nat) :
    (w.setSlot wheel slot keys).pending = w.pending := rfl

@[simp] theorem setPending_wheel (wheel : Nat) (bits : Word) :
    (w.setPending wheel bits).wheel = w.wheel := rfl

def live (w : TimerWheel) (key : Nat) : Option (Nat × Nat) :=
  (w.nodes.get? key).map fun n => (n.expires, n.userData)

def At (w : TimerWheel) (key : Nat) (list : InList) (expires : Nat) : Prop :=
  ∃ n, w.nodes.get? key = some n ∧ n.list = some list ∧ n.expires = expires

structure Valid (w : TimerWheel) (loose : List Nat) : Prop where
  inSlot : ∀ wheel slot key, key ∈ w.wheel wheel slot → wheel < wheelNum ∧ key ∉ loose ∧
    ∃ expires, w.At key (.wheel wheel slot) expires ∧ Placed wheel slot expires w.curtime
  inExpired : ∀ key, key ∈ w.expired → key ∉ loose ∧
    ∃ expires, w.At key .expired expires ∧ expires ≤ w.curtime
  inLoose : ∀ key, key ∈ loose → ∃ n, w.nodes.get? key = some n
  total : ∀ key n, w.nodes.get? key = some n →
    key ∈ loose ∨ key ∈ w.expired ∨ ∃ wheel slot, key ∈ w.wheel wheel slot
  slotNodup : ∀ wheel slot, (w.wheel wheel slot).Nodup
  expiredNodup : w.expired.Nodup
  looseNodup : loose.Nodup
  pending : ∀ wheel slot, wheel < wheelNum → slot < 64 →
    (has (w.pending wheel) slot = true ↔ w.wheel wheel slot ≠ [])

theorem new_timers_valid (capacity : Nat) : (new capacity).Valid [] := by
  constructor <;> simp [new, Slab.get?_withCapacity]
  intro _ slot _ _
  exact has_zero slot

theorem At.unique {list list' : InList} {e e' : Nat} (h : w.At key list e)
    (h' : w.At key list' e') : list = list' := by
  obtain ⟨n, found, here, _⟩ := h
  obtain ⟨n', found', here', _⟩ := h'
  rw [found] at found'
  rw [Option.some.inj found', here'] at here
  exact (Option.some.inj here).symm

theorem At.kept {k : Nat} {list : InList} {e : Nat} (h : w.At k list e) {w' : TimerWheel}
    (found : w.nodes.get? key = some n) {m : Timer} (nodes : w'.nodes = w.nodes.insert key m)
    (out : k ∉ key :: loose) : k ∉ loose ∧ w'.At k list e := by
  rw [List.mem_cons, not_or] at out
  obtain ⟨x, here, rest⟩ := h
  refine ⟨out.2, x, ?_, rest⟩
  rw [nodes, Slab.get?_insert (Slab.lt_capacity_of_get? found), if_neg out.1, here]

theorem At.written {w' : TimerWheel} (found : w.nodes.get? key = some n) {list : InList}
    (nodes : w'.nodes = w.nodes.insert key { n with list := some list }) :
    w'.At key list n.expires := by
  refine ⟨{ n with list := some list }, ?_, rfl, rfl⟩
  rw [nodes, Slab.get?_insert (Slab.lt_capacity_of_get? found), if_pos rfl]

theorem Valid.looseKept (valid : w.Valid (key :: loose)) {w' : TimerWheel}
    (found : w.nodes.get? key = some n) {m : Timer} (nodes : w'.nodes = w.nodes.insert key m) :
    ∀ k, k ∈ loose → ∃ x, w'.nodes.get? k = some x := by
  intro k mem
  obtain ⟨x, here⟩ := valid.inLoose k (List.mem_cons_of_mem _ mem)
  have fresh : key ∉ loose := (List.nodup_cons.mp valid.looseNodup).1
  have other : k ≠ key := fun same => fresh (same ▸ mem)
  exact ⟨x, by rw [nodes, Slab.get?_insert (Slab.lt_capacity_of_get? found), if_neg other, here]⟩

def place (w : TimerWheel) (key : Nat) (n : Timer) (wheel slot : Nat) : TimerWheel :=
  let w := w.setSlot wheel slot (w.wheel wheel slot ++ [key])
  let w := w.setPending wheel (w.pending wheel ||| single slot)
  w.setList key n (some (.wheel wheel slot))

theorem place_valid (valid : w.Valid (key :: loose)) (found : w.nodes.get? key = some n)
    {wheel slot : Nat} (inside : wheel < wheelNum)
    (placed : Placed wheel slot n.expires w.curtime) :
    (w.place key n wheel slot).Valid loose := by
  have small := placed.slot_lt
  have nodes : (w.place key n wheel slot).nodes =
      w.nodes.insert key { n with list := some (.wheel wheel slot) } := rfl
  have lists : ∀ i s, (w.place key n wheel slot).wheel i s =
      if i = wheel ∧ s = slot then w.wheel wheel slot ++ [key] else w.wheel i s :=
    fun i s => setSlot_wheel (w := w) wheel slot _ i s
  have bits : ∀ i, (w.place key n wheel slot).pending i =
      if i = wheel then w.pending wheel ||| single slot else w.pending i :=
    fun i => setPending_pending (w := w) wheel _ i
  have old : ∀ i s k, k ∈ w.wheel i s → i < wheelNum ∧ k ∉ loose ∧
      ∃ e, (w.place key n wheel slot).At k (.wheel i s) e ∧ Placed i s e w.curtime := by
    intro i s k mem
    obtain ⟨low, out, e, at_, spot⟩ := valid.inSlot i s k mem
    obtain ⟨out, at_⟩ := at_.kept found nodes out
    exact ⟨low, out, e, at_, spot⟩
  constructor
  · intro i s k mem
    rw [lists] at mem
    split at mem
    · rename_i here
      rw [here.1, here.2]
      rcases List.mem_append.mp mem with before | last
      · exact old wheel slot k before
      · rw [List.mem_singleton.mp last]
        exact ⟨inside, (List.nodup_cons.mp valid.looseNodup).1, n.expires, At.written found nodes,
          placed⟩
    · exact old i s k mem
  · intro k mem
    obtain ⟨out, e, at_, due⟩ := valid.inExpired k mem
    obtain ⟨out, at_⟩ := at_.kept found nodes out
    exact ⟨out, e, at_, due⟩
  · exact valid.looseKept found nodes
  · intro k m here
    by_cases same : k = key
    · right; right
      exact ⟨wheel, slot, by rw [lists, if_pos ⟨rfl, rfl⟩, same]; simp⟩
    · rw [nodes, Slab.get?_insert (Slab.lt_capacity_of_get? found), if_neg same] at here
      rcases valid.total k m here with one | two | ⟨i, s, three⟩
      · exact Or.inl ((List.mem_cons.mp one).resolve_left same)
      · exact Or.inr (Or.inl two)
      · right; right
        refine ⟨i, s, ?_⟩
        rw [lists]
        split
        · rename_i eq
          rw [eq.1, eq.2] at three
          exact List.mem_append_left _ three
        · exact three
  · intro i s
    rw [lists]
    split
    · rw [← List.concat_eq_append]
      apply List.Nodup.concat _ (valid.slotNodup _ _)
      intro mem
      exact (valid.inSlot _ _ key mem).2.1 List.mem_cons_self
    · exact valid.slotNodup i s
  · exact valid.expiredNodup
  · exact (List.nodup_cons.mp valid.looseNodup).2
  · intro i s low narrow
    have before := valid.pending i s low narrow
    rw [lists, bits]
    by_cases same : i = wheel
    · subst same
      rw [if_pos rfl, has_or, Bool.or_eq_true, before, has_single _ _ small,
        Nat.mod_eq_of_lt narrow]
      by_cases here : s = slot <;> simp [here]
    · rw [if_neg same, if_neg (fun both => same both.1)]
      exact before

def expire (w : TimerWheel) (key : Nat) (n : Timer) : TimerWheel :=
  TimerWheel.setList { w with expired := w.expired ++ [key] } key n (some .expired)

theorem expire_valid (valid : w.Valid (key :: loose)) (found : w.nodes.get? key = some n)
    (due : n.expires ≤ w.curtime) : (w.expire key n).Valid loose := by
  have nodes : (w.expire key n).nodes = w.nodes.insert key { n with list := some .expired } := rfl
  constructor
  · intro i s k mem
    obtain ⟨low, out, e, at_, spot⟩ := valid.inSlot i s k mem
    obtain ⟨out, at_⟩ := at_.kept found nodes out
    exact ⟨low, out, e, at_, spot⟩
  · intro k mem
    rcases List.mem_append.mp mem with before | last
    · obtain ⟨out, e, at_, late⟩ := valid.inExpired k before
      obtain ⟨out, at_⟩ := at_.kept found nodes out
      exact ⟨out, e, at_, late⟩
    · rw [List.mem_singleton.mp last]
      exact ⟨(List.nodup_cons.mp valid.looseNodup).1, n.expires, At.written found nodes, due⟩
  · exact valid.looseKept found nodes
  · intro k m here
    by_cases same : k = key
    · right; left
      exact List.mem_append_right _ (List.mem_singleton.mpr same)
    · rw [nodes, Slab.get?_insert (Slab.lt_capacity_of_get? found), if_neg same] at here
      rcases valid.total k m here with one | two | three
      · exact Or.inl ((List.mem_cons.mp one).resolve_left same)
      · exact Or.inr (Or.inl (List.mem_append_left _ two))
      · exact Or.inr (Or.inr three)
  · exact valid.slotNodup
  · show (w.expired ++ [key]).Nodup
    rw [← List.concat_eq_append]
    apply List.Nodup.concat _ valid.expiredNodup
    intro mem
    exact (valid.inExpired key mem).1 List.mem_cons_self
  · exact (List.nodup_cons.mp valid.looseNodup).2
  · exact valid.pending

structure Same (w w' : TimerWheel) : Prop where
  live : w'.live = w.live
  capacity : w'.nodes.capacity = w.nodes.capacity
  curtime : w'.curtime = w.curtime

theorem Same.trans {a b c : TimerWheel} (first : Same a b) (second : Same b c) : Same a c :=
  ⟨second.live.trans first.live, second.capacity.trans first.capacity,
    second.curtime.trans first.curtime⟩

theorem live_insert (found : w.nodes.get? key = some n) {w' : TimerWheel} {list : Option InList}
    (nodes : w'.nodes = w.nodes.insert key { n with list }) : w'.live = w.live := by
  funext k
  unfold live
  rw [nodes, Slab.get?_insert (Slab.lt_capacity_of_get? found)]
  by_cases same : k = key
  · rw [if_pos same, same, found]; rfl
  · rw [if_neg same]

theorem sched_spec (valid : w.Valid (key :: loose)) :
    ∃ w', w.sched key = some w' ∧ w'.Valid loose ∧ Same w w' := by
  obtain ⟨n, found⟩ := valid.inLoose key List.mem_cons_self
  rcases Nat.lt_or_ge w.curtime n.expires with future | due
  · obtain ⟨pos, inside, fits, placed⟩ := sched_placed future
    refine ⟨_, ?_, place_valid valid found inside placed, ?_, ?_, rfl⟩
    · simp only [sched, found, Option.bind_eq_bind, Option.bind_some]
      rw [if_pos future, if_neg (not_not.mpr pos), if_neg (not_not.mpr inside),
        if_neg (not_not.mpr fits)]
      rfl
    · exact live_insert found rfl
    · exact Slab.capacity_insert _ _ _
  · refine ⟨w.expire key n, ?_, expire_valid valid found due, ?_, ?_, rfl⟩
    · simp only [sched, found, Option.bind_eq_bind, Option.bind_some]
      rw [if_neg (Nat.not_lt.mpr due)]
      rfl
    · exact live_insert found rfl
    · exact Slab.capacity_insert _ _ _

theorem moveSlot_valid (valid : w.Valid loose) (wheel : Nat) {slot : Nat} (small : slot < 64) :
    ((w.setSlot wheel slot []).setPending wheel (w.pending wheel &&& ~~~ single slot)).Valid
      (loose ++ w.wheel wheel slot) := by
  have lists : ∀ i s k, k ∈ (if i = wheel ∧ s = slot then [] else w.wheel i s) →
      k ∈ w.wheel i s ∧ ¬ (i = wheel ∧ s = slot) := by
    intro i s k mem
    split at mem
    · exact absurd mem List.not_mem_nil
    · rename_i other
      exact ⟨mem, other⟩
  constructor
  · intro i s k mem
    simp only [setPending_wheel, setSlot_wheel] at mem
    obtain ⟨mem, other⟩ := lists i s k mem
    obtain ⟨low, out, e, at_, placed⟩ := valid.inSlot i s k mem
    refine ⟨low, ?_, e, at_, placed⟩
    intro moved
    rcases List.mem_append.mp moved with before | here
    · exact out before
    · obtain ⟨_, _, e', at_', _⟩ := valid.inSlot wheel slot k here
      have same := at_.unique at_'
      exact other (by simpa using same)
  · intro k mem
    obtain ⟨out, e, at_, due⟩ := valid.inExpired k mem
    refine ⟨?_, e, at_, due⟩
    intro moved
    rcases List.mem_append.mp moved with before | here
    · exact out before
    · obtain ⟨_, _, e', at_', _⟩ := valid.inSlot wheel slot k here
      have same := at_.unique at_'
      exact InList.noConfusion same
  · intro k mem
    rcases List.mem_append.mp mem with before | here
    · exact valid.inLoose k before
    · obtain ⟨_, _, e, ⟨n, found, _⟩, _⟩ := valid.inSlot wheel slot k here
      exact ⟨n, found⟩
  · intro k m here
    rcases valid.total k m here with one | two | ⟨i, s, three⟩
    · exact Or.inl (List.mem_append_left _ one)
    · exact Or.inr (Or.inl two)
    · by_cases same : i = wheel ∧ s = slot
      · rw [same.1, same.2] at three
        exact Or.inl (List.mem_append_right _ three)
      · right; right
        exact ⟨i, s, by simpa [same] using three⟩
  · intro i s
    simp only [setPending_wheel, setSlot_wheel]
    split
    · exact List.nodup_nil
    · exact valid.slotNodup i s
  · exact valid.expiredNodup
  · rw [List.nodup_append]
    refine ⟨valid.looseNodup, valid.slotNodup _ _, ?_⟩
    intro a ha b hb same
    exact (valid.inSlot wheel slot b hb).2.1 (same ▸ ha)
  · intro i s low narrow
    have before := valid.pending i s low narrow
    simp only [setPending_wheel, setSlot_wheel, setPending_pending]
    by_cases same : i = wheel
    · subst same
      rw [if_pos rfl, has_clear _ _ _ small, Nat.mod_eq_of_lt narrow, Bool.and_eq_true, before]
      by_cases here : s = slot <;> simp [here]
    · rw [if_neg same, if_neg (fun both => same both.1)]
      exact before

structure Emptied (w w' : TimerWheel) : Prop where
  nodes : w'.nodes = w.nodes
  curtime : w'.curtime = w.curtime
  keeps : ∀ wheel slot, w.wheel wheel slot = [] → w'.wheel wheel slot = []

theorem Emptied.trans {a b c : TimerWheel} (first : Emptied a b) (second : Emptied b c) :
    Emptied a c :=
  ⟨second.nodes.trans first.nodes, second.curtime.trans first.curtime,
    fun wheel slot empty => second.keeps wheel slot (first.keeps wheel slot empty)⟩

theorem empty_of_no_overlap (valid : w.Valid loose) {wheel : Nat} (inside : wheel < wheelNum)
    {need : Word} (none : need &&& w.pending wheel = 0) :
    ∀ slot, slot < 64 → has need slot = true → w.wheel wheel slot = [] := by
  intro slot small needed
  by_contra filled
  have bit := (valid.pending wheel slot inside small).mpr filled
  have absent := (eq_zero_iff _).mp none slot small
  rw [has_and, needed, bit] at absent
  exact absurd absent (by decide)

-- The bits below `low` are clear, and every round clears the lowest that is set.
theorem moveOut_spec (rounds : Nat) {wheel : Nat} (inside : wheel < wheelNum) (need : Word)
    (valid : w.Valid loose) (low : Nat)
    (cleared : ∀ slot, slot < low → slot < 64 → has (need &&& w.pending wheel) slot = false)
    (enough : 64 ≤ low + rounds) :
    ∃ w' loose', moveOut wheel need rounds w loose = some (w', loose') ∧ w'.Valid loose' ∧
      Emptied w w' ∧ ∀ slot, slot < 64 → has need slot = true → w'.wheel wheel slot = [] := by
  induction rounds generalizing w loose low with
  | zero =>
    have none : need &&& w.pending wheel = 0 :=
      (eq_zero_iff _).mpr fun slot small => cleared slot (by omega) small
    refine ⟨w, loose, ?_, valid, ⟨rfl, rfl, fun _ _ empty => empty⟩,
      empty_of_no_overlap valid inside none⟩
    rw [moveOut, if_neg (not_not.mpr none)]
  | succ rounds ih =>
    by_cases none : need &&& w.pending wheel = 0
    · refine ⟨w, loose, ?_, valid, ⟨rfl, rfl, fun _ _ empty => empty⟩,
        empty_of_no_overlap valid inside none⟩
      rw [moveOut, if_neg (not_not.mpr none)]
    · have small := first_lt none
      have bound : low ≤ first (need &&& w.pending wheel) := by
        by_contra under
        have := cleared _ (Nat.lt_of_not_le under) small
        rw [has_first none] at this
        exact absurd this (by decide)
      have next := moveSlot_valid valid wheel small
      obtain ⟨w', loose', run, valid', emptied, clear⟩ := ih next
        (first (need &&& w.pending wheel) + 1) (by
          intro slot under narrow
          simp only [setPending_pending, if_pos, has_and, has_clear _ _ _ small,
            Nat.mod_eq_of_lt narrow]
          rcases Nat.lt_or_ge slot (first (need &&& w.pending wheel)) with before | here
          · have := not_has_before_first before narrow
            rw [has_and] at this
            rw [← Bool.and_assoc, this, Bool.false_and]
          · have same : slot = first (need &&& w.pending wheel) := by omega
            simp [same]) (by omega)
      have round : Emptied w ((w.setSlot wheel (first (need &&& w.pending wheel)) []).setPending
          wheel (w.pending wheel &&& ~~~ single (first (need &&& w.pending wheel)))) := by
        refine ⟨rfl, rfl, ?_⟩
        intro i s empty
        simp only [setPending_wheel, setSlot_wheel, empty, ite_self]
      refine ⟨w', loose', ?_, valid', round.trans emptied, clear⟩
      rw [moveOut, if_pos none]
      exact run

theorem moveOutAll_spec (needs : List Word) (wheel : Nat) (inside : wheel + needs.length ≤ wheelNum)
    (valid : w.Valid loose) :
    ∃ w' loose', moveOutAll needs wheel w loose = some (w', loose') ∧ w'.Valid loose' ∧
      Emptied w w' ∧ ∀ index slot, index < needs.length → slot < 64 →
        has (needs.getD index 0) slot = true → w'.wheel (wheel + index) slot = [] := by
  induction needs generalizing w loose wheel with
  | nil =>
    refine ⟨w, loose, rfl, valid, ⟨rfl, rfl, fun _ _ empty => empty⟩, ?_⟩
    intro index slot absurd
    exact (Nat.not_lt_zero _ absurd).elim
  | cons need needs ih =>
    rw [List.length_cons] at inside
    obtain ⟨w₁, loose₁, run₁, valid₁, emptied₁, clear₁⟩ :=
      moveOut_spec 64 (by omega : wheel < wheelNum) need valid 0 (by omega) (by omega)
    obtain ⟨w₂, loose₂, run₂, valid₂, emptied₂, clear₂⟩ :=
      ih (wheel + 1) (by omega) valid₁
    refine ⟨w₂, loose₂, ?_, valid₂, emptied₁.trans emptied₂, ?_⟩
    · simp only [moveOutAll, run₁, Option.bind_eq_bind, Option.bind_some]
      exact run₂
    · intro index slot within small needed
      cases index with
      | zero => exact emptied₂.keeps _ _ (clear₁ slot small needed)
      | succ index =>
        have := clear₂ index slot (by simpa using within) small needed
        rw [show wheel + (index + 1) = wheel + 1 + index by omega]
        exact this

theorem unlist_valid (valid : w.Valid (key :: loose)) (found : w.nodes.get? key = some n) :
    (w.setList key n none).Valid (key :: loose) := by
  have nodes : (w.setList key n none).nodes = w.nodes.insert key { n with list := none } := rfl
  have room := Slab.lt_capacity_of_get? found
  constructor
  · intro i s k mem
    obtain ⟨low, out, e, at_, spot⟩ := valid.inSlot i s k mem
    exact ⟨low, out, e, (at_.kept found nodes out).2, spot⟩
  · intro k mem
    obtain ⟨out, e, at_, due⟩ := valid.inExpired k mem
    exact ⟨out, e, (at_.kept found nodes out).2, due⟩
  · intro k mem
    rcases List.mem_cons.mp mem with same | other
    · exact ⟨_, by rw [nodes, Slab.get?_insert room, if_pos same]⟩
    · exact valid.looseKept found nodes k other
  · intro k m here
    by_cases same : k = key
    · exact Or.inl (same ▸ List.mem_cons_self)
    · rw [nodes, Slab.get?_insert room, if_neg same] at here
      exact valid.total k m here
  · exact valid.slotNodup
  · exact valid.expiredNodup
  · exact valid.looseNodup
  · exact valid.pending

theorem schedAll_spec (valid : w.Valid loose) :
    ∃ w', schedAll loose w = some w' ∧ w'.Valid [] ∧ Same w w' := by
  induction loose generalizing w with
  | nil => exact ⟨w, rfl, valid, rfl, rfl, rfl⟩
  | cons key loose ih =>
    obtain ⟨n, found⟩ := valid.inLoose key List.mem_cons_self
    have unlisted : Same w (w.setList key n none) :=
      ⟨live_insert found rfl, Slab.capacity_insert _ _ _, rfl⟩
    obtain ⟨w₁, run₁, valid₁, same₁⟩ := sched_spec (unlist_valid valid found)
    obtain ⟨w₂, run₂, valid₂, same₂⟩ := ih valid₁
    refine ⟨w₂, ?_, valid₂, (unlisted.trans same₁).trans same₂⟩
    simp only [schedAll, found, run₁, Option.bind_eq_bind, Option.bind_some]
    exact run₂

theorem advance_valid (valid : w.Valid loose) {newtime : Nat} (forward : w.curtime ≤ newtime)
    (clear : ∀ wheel slot, wheel < wheelNum → slot < 64 → Passed wheel w.curtime newtime slot →
      w.wheel wheel slot = []) : Valid { w with curtime := newtime } loose := by
  constructor
  · intro i s k mem
    obtain ⟨low, out, e, at_, placed⟩ := valid.inSlot i s k mem
    refine ⟨low, out, e, at_, placed.advance forward ?_⟩
    intro passed
    have none := clear i s low placed.slot_lt passed
    exact List.not_mem_nil (none ▸ mem)
  · intro k mem
    obtain ⟨out, e, at_, due⟩ := valid.inExpired k mem
    exact ⟨out, e, at_, Nat.le_trans due forward⟩
  · exact valid.inLoose
  · exact valid.total
  · exact valid.slotNodup
  · exact valid.expiredNodup
  · exact valid.looseNodup
  · exact valid.pending

theorem update_spec (valid : w.Valid []) (newtime : Nat) :
    ∃ w', w.update newtime = some w' ∧ w'.Valid [] ∧ w'.live = w.live ∧
      w'.nodes.capacity = w.nodes.capacity ∧ w'.curtime = max w.curtime newtime := by
  by_cases back : newtime ≤ w.curtime
  · exact ⟨w, by rw [update, if_pos back], valid, rfl, rfl, by omega⟩
  · have forward : w.curtime < newtime := Nat.lt_of_not_le back
    have count := needResched_length w.curtime newtime
    obtain ⟨w₁, loose, run₁, valid₁, emptied, clear⟩ :=
      moveOutAll_spec (needResched w.curtime newtime) 0 (by omega) valid
    have moved : Valid { w₁ with curtime := newtime } loose := by
      apply advance_valid valid₁ (by rw [emptied.curtime]; omega)
      intro wheel slot inside small passed
      rw [emptied.curtime, ← needResched_spec forward inside] at passed
      have := clear wheel slot (by omega) small passed
      rwa [Nat.zero_add] at this
    obtain ⟨w₂, run₂, valid₂, same⟩ := schedAll_spec moved
    refine ⟨w₂, ?_, valid₂, ?_, ?_, ?_⟩
    · simp only [update, if_neg back, run₁, Option.bind_eq_bind, Option.bind_some]
      exact run₂
    · rw [same.live]
      unfold live
      rw [emptied.nodes]
    · rw [same.capacity, emptied.nodes]
    · rw [same.curtime]
      exact (Nat.max_eq_right (Nat.le_of_lt forward)).symm

theorem add_spec (valid : w.Valid []) (expires userData : Nat) (room : w.nodes.Vacant key) :
    ∃ w', w.add key expires userData = some (w', .ok key) ∧ w'.Valid [] ∧
      w'.live = Function.update w.live key (some (expires, userData)) ∧
      w'.nodes.capacity = w.nodes.capacity ∧ w'.curtime = w.curtime := by
  have notFull := Slab.vacant_len_lt room
  have fresh : ∀ k n, w.nodes.get? k = some n → k ≠ key := by
    intro k n found same
    rw [same, room.2] at found
    exact absurd found (by simp)
  have others : ∀ k list e, w.At k list e →
      k ∉ [key] ∧ TimerWheel.At { w with nodes := w.nodes.insert key ⟨expires, none, userData⟩ } k
        list e := by
    intro k list e at_
    obtain ⟨n, found, rest⟩ := at_
    have other := fresh k n found
    refine ⟨by simpa using other, n, ?_, rest⟩
    rw [Slab.get?_insert room.1, if_neg other, found]
  have inserted : Valid { w with nodes := w.nodes.insert key ⟨expires, none, userData⟩ } [key] := by
    constructor
    · intro i s k mem
      obtain ⟨low, _, e, at_, placed⟩ := valid.inSlot i s k mem
      obtain ⟨out, at_⟩ := others k _ e at_
      exact ⟨low, out, e, at_, placed⟩
    · intro k mem
      obtain ⟨_, e, at_, due⟩ := valid.inExpired k mem
      obtain ⟨out, at_⟩ := others k _ e at_
      exact ⟨out, e, at_, due⟩
    · intro k mem
      exact ⟨_, by rw [Slab.get?_insert room.1, if_pos (List.mem_singleton.mp mem)]⟩
    · intro k m here
      by_cases same : k = key
      · exact Or.inl (List.mem_singleton.mpr same)
      · rw [Slab.get?_insert room.1, if_neg same] at here
        rcases valid.total k m here with one | rest
        · exact absurd one List.not_mem_nil
        · exact Or.inr rest
    · exact valid.slotNodup
    · exact valid.expiredNodup
    · exact List.nodup_singleton key
    · exact valid.pending
  obtain ⟨w', run, valid', same⟩ := sched_spec inserted
  refine ⟨w', ?_, valid', ?_, ?_, same.curtime⟩
  · simp only [add, if_neg (Nat.ne_of_lt notFull), run, Option.bind_eq_bind, Option.bind_some]
    rfl
  · rw [same.live]
    funext k
    simp only [live, Slab.get?_insert room.1, Function.update_apply]
    by_cases here : k = key <;> simp [here]
  · rw [same.capacity]
    exact Slab.capacity_insert _ _ _

theorem add_full {w : TimerWheel} (key expires userData : Nat)
    (full : w.nodes.len = w.nodes.capacity) :
    w.add key expires userData = some (w, .error ()) := by
  rw [add, if_pos full]

theorem At.removed {k : Nat} {list : InList} {e : Nat} (h : w.At k list e) {w' : TimerWheel}
    (nodes : w'.nodes = w.nodes.remove key) (other : k ≠ key) : w'.At k list e := by
  obtain ⟨m, found, rest⟩ := h
  exact ⟨m, by rw [nodes, Slab.get?_remove, if_neg other, found], rest⟩

theorem live_remove {w w' : TimerWheel} (key : Nat) (nodes : w'.nodes = w.nodes.remove key) :
    w'.live = Function.update w.live key none := by
  funext k
  simp only [live, nodes, Slab.get?_remove, Function.update_apply]
  by_cases same : k = key <;> simp [same]

theorem drop_valid (valid : w.Valid []) {w' : TimerWheel} (nodes : w'.nodes = w.nodes.remove key)
    (curtime : w'.curtime = w.curtime)
    (lists : ∀ i s, w'.wheel i s = (w.wheel i s).erase key)
    (expired : w'.expired = w.expired.erase key)
    (pending : ∀ i s, i < wheelNum → s < 64 →
      (has (w'.pending i) s = true ↔ w'.wheel i s ≠ [])) : w'.Valid [] := by
  constructor
  · intro i s k mem
    rw [lists, (valid.slotNodup i s).mem_erase_iff] at mem
    obtain ⟨low, out, e, at_, placed⟩ := valid.inSlot i s k mem.2
    exact ⟨low, out, e, at_.removed nodes mem.1, curtime ▸ placed⟩
  · intro k mem
    rw [expired, valid.expiredNodup.mem_erase_iff] at mem
    obtain ⟨out, e, at_, due⟩ := valid.inExpired k mem.2
    exact ⟨out, e, at_.removed nodes mem.1, curtime ▸ due⟩
  · intro k mem
    exact absurd mem List.not_mem_nil
  · intro k m here
    rw [nodes, Slab.get?_remove] at here
    split at here
    · exact absurd here (by simp)
    · rename_i other
      right
      rcases valid.total k m here with one | two | ⟨i, s, three⟩
      · exact absurd one List.not_mem_nil
      · left
        rw [expired, valid.expiredNodup.mem_erase_iff]
        exact ⟨other, two⟩
      · right
        refine ⟨i, s, ?_⟩
        rw [lists, (valid.slotNodup i s).mem_erase_iff]
        exact ⟨other, three⟩
  · intro i s
    rw [lists]
    exact (valid.slotNodup i s).erase key
  · rw [expired]
    exact valid.expiredNodup.erase key
  · exact List.nodup_nil
  · exact pending

theorem not_mem_slot (valid : w.Valid loose) {list : InList} {e : Nat} (at_ : w.At key list e)
    {i s : Nat} (other : list ≠ .wheel i s) : key ∉ w.wheel i s := by
  intro mem
  obtain ⟨_, _, e', here, _⟩ := valid.inSlot i s key mem
  exact other (at_.unique here)

theorem remove_spec (valid : w.Valid []) (key : Nat) :
    (w.remove key).Valid [] ∧ (w.remove key).live = Function.update w.live key none ∧
      (w.remove key).nodes.capacity = w.nodes.capacity ∧ (w.remove key).curtime = w.curtime := by
  cases found : w.nodes.get? key with
  | none =>
    have same : w.remove key = w := by rw [remove, found]
    rw [same]
    refine ⟨valid, ?_, rfl, rfl⟩
    rw [eq_comm, Function.update_eq_self_iff, live, found]
    rfl
  | some n =>
    rcases valid.total key n found with one | late | ⟨wheel, slot, mem⟩
    · exact absurd one List.not_mem_nil
    · obtain ⟨_, e, at_, _⟩ := valid.inExpired key late
      obtain ⟨n', found', here, _⟩ := at_
      have listed : n.list = some .expired := by
        rw [found] at found'
        rw [Option.some.inj found', here]
      have eq : w.remove key =
          { w with expired := w.expired.erase key, nodes := w.nodes.remove key } := by
        simp only [remove, found, listed]
      rw [eq]
      refine ⟨drop_valid valid rfl rfl ?_ rfl valid.pending, live_remove key rfl,
        Slab.capacity_remove _ _, rfl⟩
      intro i s
      exact (List.erase_of_not_mem
        (not_mem_slot valid ⟨n, found, listed, rfl⟩ (by simp))).symm
    · obtain ⟨inside, _, e, ⟨n', found', here, _⟩, placed⟩ := valid.inSlot wheel slot key mem
      have listed : n.list = some (.wheel wheel slot) := by
        rw [found] at found'
        rw [Option.some.inj found', here]
      have small := placed.slot_lt
      have at_ : w.At key (.wheel wheel slot) n.expires := ⟨n, found, listed, rfl⟩
      have lists : ∀ i s, (if i = wheel ∧ s = slot then (w.wheel wheel slot).erase key
          else w.wheel i s) = (w.wheel i s).erase key := by
        intro i s
        split
        · rename_i eq
          rw [eq.1, eq.2]
        · rename_i other
          rw [List.erase_of_not_mem]
          apply not_mem_slot valid at_
          intro same
          exact other (by simpa [eq_comm] using same)
      have late : w.expired.erase key = w.expired := by
        apply List.erase_of_not_mem
        intro mem'
        obtain ⟨_, e', there, _⟩ := valid.inExpired key mem'
        exact InList.noConfusion (at_.unique there)
      by_cases last : ((w.wheel wheel slot).erase key).isEmpty
      · have eq : w.remove key =
          { (w.setSlot wheel slot ((w.wheel wheel slot).erase key)).setPending
            wheel (w.pending wheel &&& ~~~ single slot) with nodes := w.nodes.remove key } := by
          simp only [remove, found, listed, last, if_true, setSlot_pending]
          rfl
        rw [eq]
        refine ⟨drop_valid valid rfl rfl ?_ late.symm ?_, live_remove key rfl,
          Slab.capacity_remove _ _, rfl⟩
        · intro i s
          exact (setSlot_wheel wheel slot _ i s).trans (lists i s)
        · intro i s low narrow
          have before := valid.pending i s low narrow
          simp only [setPending_wheel, setSlot_wheel, setPending_pending]
          by_cases same : i = wheel
          · subst same
            rw [if_pos rfl, has_clear _ _ _ small, Nat.mod_eq_of_lt narrow, Bool.and_eq_true,
              before]
            by_cases spot : s = slot
            · simp [spot, List.isEmpty_iff.mp last]
            · simp [spot]
          · rw [if_neg same, if_neg (fun both => same both.1)]
            exact before
      · have eq : w.remove key = { w.setSlot wheel slot ((w.wheel wheel slot).erase key) with
            nodes := w.nodes.remove key } := by
          simp only [remove, found, listed, last]
          rfl
        rw [eq]
        refine ⟨drop_valid valid rfl rfl ?_ late.symm ?_, live_remove key rfl,
          Slab.capacity_remove _ _, rfl⟩
        · intro i s
          exact (setSlot_wheel wheel slot _ i s).trans (lists i s)
        · intro i s low narrow
          have before := valid.pending i s low narrow
          simp only [setSlot_wheel, setSlot_pending]
          split
          · rename_i spot
            rw [before, spot.1, spot.2]
            exact ⟨fun _ => by simpa using last, fun _ => List.ne_nil_of_mem mem⟩
          · exact before

theorem takeExpired_nil (empty : w.expired = []) : w.takeExpired = some (w, none) := by
  rw [takeExpired, empty]

theorem takeExpired_cons (valid : w.Valid []) {keys : List Nat} (head : w.expired = key :: keys) :
    ∃ w' expires userData, w.takeExpired = some (w', some (key, userData)) ∧ w'.Valid [] ∧
      w.live key = some (expires, userData) ∧ expires ≤ w.curtime ∧
      w'.live = Function.update w.live key none ∧ w'.expired = keys ∧
      w'.nodes.capacity = w.nodes.capacity ∧ w'.curtime = w.curtime := by
  obtain ⟨_, e, ⟨n, found, listed, rfl⟩, due⟩ := valid.inExpired key (by rw [head]; simp)
  refine ⟨{ w with expired := keys, nodes := w.nodes.remove key }, n.expires, n.userData, ?_,
    ?_, ?_, due, live_remove key rfl, rfl, Slab.capacity_remove _ _, rfl⟩
  · simp only [takeExpired, head, found, Option.bind_eq_bind, Option.bind_some]
    rfl
  · refine drop_valid valid rfl rfl ?_ ?_ valid.pending
    · intro i s
      rw [List.erase_of_not_mem]
      exact not_mem_slot valid ⟨n, found, listed, rfl⟩ (by simp)
    · rw [head, List.erase_cons_head]
  · rw [live, found]
    rfl

theorem mem_expired_iff (valid : w.Valid []) (key : Nat) :
    key ∈ w.expired ↔ ∃ expires userData, w.live key = some (expires, userData) ∧
      expires ≤ w.curtime := by
  constructor
  · intro mem
    obtain ⟨_, e, ⟨n, found, _, rfl⟩, due⟩ := valid.inExpired key mem
    exact ⟨n.expires, n.userData, by rw [live, found]; rfl, due⟩
  · rintro ⟨expires, userData, known, due⟩
    obtain ⟨n, found, same⟩ := Option.map_eq_some_iff.mp known
    rcases valid.total key n found with one | two | ⟨i, s, three⟩
    · exact absurd one List.not_mem_nil
    · exact two
    · obtain ⟨_, _, e, ⟨n', found', _, rfl⟩, placed⟩ := valid.inSlot i s key three
      rw [found] at found'
      rw [← Option.some.inj found'] at placed
      have future := placed.future
      have : n.expires = expires := congrArg Prod.fst same
      omega

end TimerWheel
end PushpinTimer
