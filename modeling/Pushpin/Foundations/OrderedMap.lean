import Mathlib.Algebra.Order.Ring.Nat
import Mathlib.Data.List.Basic

/-!
Maps that are walked in the order of their keys.
-/
namespace OrderedMaps

structure OrderedMap (κ β : Type) [LinearOrder κ] where
  entries : List (κ × β)
  sorted : entries.Pairwise fun a b => a.1 < b.1

variable {κ β : Type} [LinearOrder κ]

def insertEntry (key : κ) (value : β) : List (κ × β) → List (κ × β)
  | [] => [(key, value)]
  | e :: rest =>
    if key < e.1 then (key, value) :: e :: rest
    else if key = e.1 then (key, value) :: rest
    else e :: insertEntry key value rest

theorem mem_insertEntry {key : κ} {value : β} {entries : List (κ × β)} {e : κ × β}
    (mem : e ∈ insertEntry key value entries) : e = (key, value) ∨ e ∈ entries := by
  induction entries with
  | nil => exact Or.inl (List.mem_singleton.mp mem)
  | cons first rest ih =>
    unfold insertEntry at mem
    split_ifs at mem with before same
    · exact List.mem_cons.mp mem
    · rcases List.mem_cons.mp mem with new | old
      · exact Or.inl new
      · exact Or.inr (List.mem_cons_of_mem first old)
    · rcases List.mem_cons.mp mem with head | later
      · exact Or.inr (head ▸ List.mem_cons_self)
      · rcases ih later with new | old
        · exact Or.inl new
        · exact Or.inr (List.mem_cons_of_mem first old)

theorem insertEntry_sorted (key : κ) (value : β) {entries : List (κ × β)}
    (sorted : entries.Pairwise fun a b => a.1 < b.1) :
    (insertEntry key value entries).Pairwise fun a b => a.1 < b.1 := by
  induction entries with
  | nil => exact List.pairwise_singleton _ _
  | cons first rest ih =>
    obtain ⟨least, tail⟩ := List.pairwise_cons.mp sorted
    unfold insertEntry
    split_ifs with before same
    · refine List.pairwise_cons.mpr ⟨?_, sorted⟩
      intro e mem
      rcases List.mem_cons.mp mem with rfl | later
      · exact before
      · exact lt_trans before (least e later)
    · refine List.pairwise_cons.mpr ⟨?_, tail⟩
      intro e mem
      rw [same]
      exact least e mem
    · refine List.pairwise_cons.mpr ⟨?_, ih tail⟩
      intro e mem
      rcases mem_insertEntry mem with rfl | old
      · exact lt_of_le_of_ne (not_lt.mp before) (Ne.symm same)
      · exact least e old

namespace OrderedMap

def empty : OrderedMap κ β := ⟨[], List.Pairwise.nil⟩

def get? (m : OrderedMap κ β) (key : κ) : Option β :=
  (m.entries.find? fun e => e.1 = key).map Prod.snd

def insert (m : OrderedMap κ β) (key : κ) (value : β) : OrderedMap κ β :=
  ⟨insertEntry key value m.entries, insertEntry_sorted key value m.sorted⟩

def erase (m : OrderedMap κ β) (key : κ) : OrderedMap κ β :=
  ⟨m.entries.filter fun e => e.1 ≠ key, m.sorted.filter _⟩

def isEmpty (m : OrderedMap κ β) : Bool := m.entries.isEmpty

def count (m : OrderedMap κ β) : Nat := m.entries.length

def firstPair? (m : OrderedMap κ β) : Option (κ × β) := m.entries.head?

def first? (m : OrderedMap κ β) : Option κ := m.firstPair?.map Prod.fst

def after? (m : OrderedMap κ β) (key : κ) : Option κ :=
  (m.entries.find? fun e => key < e.1).map Prod.fst

def last? (m : OrderedMap κ β) : Option (κ × β) := m.entries.getLast?

@[simp] theorem get?_empty (key : κ) : (empty : OrderedMap κ β).get? key = none := rfl

theorem get?_insert (m : OrderedMap κ β) (key : κ) (value : β) (k : κ) :
    (m.insert key value).get? k = if k = key then some value else m.get? k := by
  obtain ⟨entries, sorted⟩ := m
  simp only [get?, insert]
  clear sorted
  induction entries with
  | nil =>
    by_cases same : k = key
    · simp [insertEntry, same]
    · simp [insertEntry, same, Ne.symm same]
  | cons first rest ih =>
    unfold insertEntry
    by_cases before : key < first.1
    · rw [if_pos before, List.find?_cons]
      by_cases same : k = key
      · simp [same]
      · simp [same, Ne.symm same]
    · rw [if_neg before]
      by_cases matching : key = first.1
      · rw [if_pos matching, List.find?_cons, List.find?_cons]
        by_cases same : k = key
        · simp [same]
        · simp [same, Ne.symm same, ← matching]
      · rw [if_neg matching, List.find?_cons, List.find?_cons]
        by_cases own : first.1 = k
        · have other : k ≠ key := fun eq => matching (own.trans eq).symm
          simp [own, other]
        · simpa [own] using ih

theorem get?_erase (m : OrderedMap κ β) (key k : κ) :
    (m.erase key).get? k = if k = key then none else m.get? k := by
  simp only [get?, erase, List.find?_filter]
  split_ifs with same
  · subst same
    rw [List.find?_eq_none.mpr (by simp), Option.map_none]
  · congr 2
    funext e
    by_cases found : e.1 = k
    · simp [found, same]
    · simp [found]

variable {m : OrderedMap κ β} {key : κ} {value : β}

theorem mem_iff_get? : (key, value) ∈ m.entries ↔ m.get? key = some value := by
  obtain ⟨entries, sorted⟩ := m
  simp only [get?]
  induction entries with
  | nil => simp
  | cons first rest ih =>
    obtain ⟨least, tail⟩ := List.pairwise_cons.mp sorted
    by_cases same : first.1 = key
    · rw [List.find?_cons_of_pos (by simpa using same), Option.map_some, Option.some.injEq,
        List.mem_cons]
      constructor
      · rintro (head | later)
        · rw [← head]
        · exact absurd same (ne_of_lt (least _ later))
      · intro value_eq
        exact Or.inl (Prod.ext same.symm value_eq.symm)
    · rw [List.find?_cons_of_neg (by simpa using same), List.mem_cons, ← ih tail]
      constructor
      · rintro (head | later)
        · exact absurd (congrArg Prod.fst head).symm same
        · exact later
      · exact Or.inr

theorem ext_get? {m' : OrderedMap κ β} (same : ∀ key, m.get? key = m'.get? key) : m = m' := by
  have members : ∀ e, e ∈ m.entries ↔ e ∈ m'.entries := by
    intro e
    rw [show e = (e.1, e.2) from rfl, mem_iff_get?, mem_iff_get?, same]
  have distinct : ∀ m : OrderedMap κ β, m.entries.Nodup := fun m => m.sorted.imp fun below eq => by
    rw [eq] at below
    exact lt_irrefl _ below
  have perm := (List.perm_ext_iff_of_nodup (distinct m) (distinct m')).mpr members
  have eq : m.entries = m'.entries :=
    perm.eq_of_pairwise (fun a b _ _ below above => absurd (lt_trans below above) (lt_irrefl _))
      m.sorted m'.sorted
  cases m
  cases m'
  simpa only [mk.injEq] using eq

theorem insert_self (found : m.get? key = some value) : m.insert key value = m := by
  apply ext_get?
  intro k
  rw [get?_insert]
  split_ifs with same
  · rw [same, found]
  · rfl

theorem firstPair?_present {e : κ × β} (found : m.firstPair? = some e) :
    m.get? e.1 = some e.2 := mem_iff_get?.mp (List.mem_of_mem_head? found)

theorem firstPair?_least {e : κ × β} (found : m.firstPair? = some e)
    (present : m.get? key = some value) : e.1 ≤ key := by
  obtain ⟨rest, eq⟩ := List.head?_eq_some_iff.mp found
  have sorted := m.sorted
  have mem := mem_iff_get?.mpr present
  rw [eq] at sorted mem
  rcases List.mem_cons.mp mem with same | later
  · exact le_of_eq (congrArg Prod.fst same).symm
  · exact le_of_lt ((List.pairwise_cons.mp sorted).1 _ later)

theorem firstPair?_eq_none (none : m.firstPair? = none) (key : κ) : m.get? key = Option.none := by
  rw [firstPair?, List.head?_eq_none_iff] at none
  simp [get?, none]

theorem first?_present (found : m.first? = some key) : ∃ value, m.get? key = some value := by
  obtain ⟨e, head, rfl⟩ := Option.map_eq_some_iff.mp found
  exact ⟨e.2, firstPair?_present head⟩

theorem after?_present {next : κ} (found : m.after? key = some next) :
    key < next ∧ ∃ value, m.get? next = some value := by
  obtain ⟨e, later, rfl⟩ := Option.map_eq_some_iff.mp found
  exact ⟨by simpa using List.find?_some later, e.2,
    mem_iff_get?.mp (List.mem_of_find?_eq_some later)⟩

theorem isEmpty_iff : m.isEmpty = true ↔ ∀ key, m.get? key = none := by
  simp only [isEmpty, List.isEmpty_iff]
  constructor
  · intro none key
    simp [get?, none]
  · intro all
    apply List.eq_nil_iff_forall_not_mem.mpr
    intro e mem
    have found := mem_iff_get?.mp (show (e.1, e.2) ∈ m.entries from mem)
    rw [all] at found
    cases found

theorem erase_insert (m : OrderedMap κ β) (key : κ) (value : β) :
    (m.insert key value).erase key = m.erase key := by
  apply ext_get?
  intro k
  simp only [get?_insert, get?_erase]
  split_ifs <;> rfl

theorem perm_erase (found : m.get? key = some value) :
    m.entries.Perm ((key, value) :: (m.erase key).entries) := by
  obtain ⟨entries, sorted⟩ := m
  have mem : (key, value) ∈ entries := mem_iff_get?.mpr found
  simp only [erase]
  clear found
  induction entries with
  | nil => cases mem
  | cons first rest ih =>
    obtain ⟨least, tail⟩ := List.pairwise_cons.mp sorted
    rcases List.mem_cons.mp mem with rfl | later
    · rw [List.filter_cons_of_neg (by simp), List.filter_eq_self.mpr]
      intro e later
      simpa using ne_of_gt (least e later)
    · have kept : first.1 ≠ key := ne_of_lt (least _ later)
      rw [List.filter_cons_of_pos (by simpa using kept)]
      exact ((ih tail later).cons first).trans (List.Perm.swap (key, value) first _)

theorem perm_replace (m : OrderedMap κ β) (key : κ) (value : β) :
    (m.insert key value).entries.Perm ((key, value) :: (m.erase key).entries) := by
  rw [← erase_insert m key value]
  exact perm_erase (by rw [get?_insert, if_pos rfl])

theorem perm_insert (fresh : m.get? key = none) (value : β) :
    (m.insert key value).entries.Perm ((key, value) :: m.entries) := by
  have kept : m.erase key = m := by
    apply ext_get?
    intro k
    rw [get?_erase]
    split_ifs with same
    · rw [same, fresh]
    · rfl
  simpa only [kept] using perm_replace m key value

theorem count_insert (fresh : m.get? key = none) (value : β) :
    (m.insert key value).count = m.count + 1 := (perm_insert fresh value).length_eq

theorem count_erase (found : m.get? key = some value) :
    m.count = (m.erase key).count + 1 := (perm_erase found).length_eq

variable {old : β}

theorem first?_least (found : m.first? = some key) {k : κ}
    (present : m.get? k = some value) : key ≤ k := by
  obtain ⟨e, head, rfl⟩ := Option.map_eq_some_iff.mp found
  exact firstPair?_least head present

theorem first?_of_present (present : m.get? key = some value) : ∃ first, m.first? = some first := by
  cases found : m.firstPair? with
  | none =>
    rw [firstPair?_eq_none found] at present
    cases present
  | some e => exact ⟨e.1, by rw [first?, found, Option.map_some]⟩

theorem after?_eq_none : m.after? key = none ↔ ∀ k value, m.get? k = some value → k ≤ key := by
  simp only [after?, Option.map_eq_none_iff, List.find?_eq_none, decide_eq_true_eq, not_lt]
  constructor
  · intro all k value found
    exact all (k, value) (mem_iff_get?.mpr found)
  · intro all e mem
    exact all e.1 e.2 (mem_iff_get?.mp mem)

theorem after?_least {next : κ} (found : m.after? key = some next) {k : κ}
    (present : m.get? k = some value) (above : key < k) : next ≤ k := by
  obtain ⟨e, first, rfl⟩ := Option.map_eq_some_iff.mp found
  obtain ⟨_, before, after, eq, none⟩ := List.find?_eq_some_iff_append.mp first
  have mem := mem_iff_get?.mpr present
  have sorted := m.sorted
  rw [eq] at mem sorted
  rcases List.mem_append.mp mem with early | late
  · have wrong := none _ early
    simp [above] at wrong
  · rcases List.mem_cons.mp late with rfl | later
    · exact le_refl _
    · exact le_of_lt ((List.pairwise_cons.mp (List.pairwise_append.mp sorted).2.1).1 _ later)

theorem last?_eq_some :
    m.last? = some (key, value) ↔ m.get? key = some value ∧ ∀ k v, m.get? k = some v → k ≤ key := by
  have unique : ∀ e, m.last? = some e → m.get? e.1 = some e.2 ∧ ∀ k v, m.get? k = some v →
      k ≤ e.1 := by
    intro e found
    obtain ⟨front, eq⟩ := List.getLast?_eq_some_iff.mp found
    refine ⟨mem_iff_get?.mp (by rw [eq]; exact List.mem_append_right _ List.mem_cons_self), ?_⟩
    intro k v present
    have mem := mem_iff_get?.mpr present
    have sorted := m.sorted
    rw [eq] at mem sorted
    rcases List.mem_append.mp mem with early | late
    · exact le_of_lt ((List.pairwise_append.mp sorted).2.2 _ early _ List.mem_cons_self)
    · rw [List.mem_singleton] at late
      exact le_of_eq (congrArg Prod.fst late)
  constructor
  · exact unique (key, value)
  · rintro ⟨present, greatest⟩
    cases found : m.last? with
    | none =>
      have mem := mem_iff_get?.mpr present
      rw [List.getLast?_eq_none_iff.mp found] at mem
      cases mem
    | some e =>
      obtain ⟨present', greatest'⟩ := unique e found
      have same : e.1 = key := le_antisymm (greatest _ _ present') (greatest' _ _ present)
      rw [same, present] at present'
      rw [← same, Option.some.inj present']

theorem insert_insert (m : OrderedMap κ β) (key : κ) (old new : β) :
    (m.insert key old).insert key new = m.insert key new := by
  apply ext_get?
  intro k
  simp only [get?_insert]
  split_ifs <;> rfl

theorem keys_insert (found : m.get? key = some old) (value : β) :
    (m.insert key value).entries.map Prod.fst = m.entries.map Prod.fst := by
  have perm :=
    ((perm_replace m key value).map Prod.fst).trans ((perm_erase found).map Prod.fst).symm
  have ordered : ∀ m : OrderedMap κ β, (m.entries.map Prod.fst).Pairwise (· < ·) :=
    fun m => List.pairwise_map.mpr m.sorted
  exact perm.eq_of_pairwise (fun a b _ _ below above => absurd above (lt_asymm below)) (ordered _)
    (ordered m)

theorem after?_insert (found : m.get? key = some old) (value : β) (k : κ) :
    (m.insert key value).after? k = m.after? k := by
  have by_keys : ∀ m : OrderedMap κ β, m.after? k = (m.entries.map Prod.fst).find? fun x =>
      k < x := by
    intro m
    rw [after?, List.find?_map]
    rfl
  rw [by_keys, by_keys, keys_insert found]

theorem first?_insert (found : m.get? key = some old) (value : β) :
    (m.insert key value).first? = m.first? := by
  have by_keys : ∀ m : OrderedMap κ β, m.first? = (m.entries.map Prod.fst).head? := by
    intro m
    rw [first?, firstPair?, List.head?_map]
  rw [by_keys, by_keys, keys_insert found]

end OrderedMap
end OrderedMaps
