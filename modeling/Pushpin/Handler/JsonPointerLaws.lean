import Pushpin.Foundations.Outcome
import Pushpin.Foundations.Places
import Pushpin.Handler.JsonPointer

namespace PushpinJsonPointer
open PushpinVariant Places
open Option (bind_some)

theorem lookup_assign (name : String) (value : Variant) (entries : List (String × Variant)) :
    lookup (assign name value entries) name = some value := by
  induction entries with
  | nil => simp [lookup, assign]
  | cons e rest ih =>
    rw [assign]
    split
    · simp [lookup]
    · rename_i other
      simpa [lookup, List.find?_cons, other] using ih

theorem lookup_assign_of_ne {name other : String} (differ : other ≠ name) (value : Variant)
    (entries : List (String × Variant)) :
    lookup (assign name value entries) other = lookup entries other := by
  induction entries with
  | nil => simp [lookup, assign, Ne.symm differ]
  | cons e rest ih =>
    rw [assign]
    split
    · rename_i here
      simp [lookup, here, Ne.symm differ]
    · by_cases found : e.1 = other
      · simp [lookup, found]
      · simpa [lookup, List.find?_cons, found] using ih

theorem lookup_discard_of_ne {name other : String} (differ : other ≠ name)
    (entries : List (String × Variant)) :
    lookup (discard name entries) other = lookup entries other := by
  unfold lookup PushpinVariant.discard
  rw [List.find?_filter]
  refine congrArg (Option.map Prod.snd)
    (congrArg (fun p => List.find? p entries) (funext fun e => ?_))
  by_cases found : e.1 = other
  · simp [found, differ]
  · simp [found]

@[simp] theorem setEntries_entries (entries : List (String × Variant)) (v : Variant) :
    (setEntries entries v).entries = entries := by
  cases v <;> rfl

@[simp] theorem setEntries_items (entries : List (String × Variant)) (v : Variant) :
    items (setEntries entries v) = [] := by
  cases v <;> rfl

variable {v c : Variant}

theorem items_of_entries {name : String} (found : lookup v.entries name = some c) :
    items v = [] := by
  cases v <;> first | rfl | exact absurd found (by simp [Variant.entries, lookup])

theorem entries_of_items (some_ : 0 < (items v).length) : v.entries = [] := by
  cases v <;> first | rfl | exact absurd some_ (by simp [items])

theorem stepInto_array (v : Variant) (index : Int) :
    stepInto v (.array index) = if 0 ≤ index then (items v)[index.toNat]? else none := by
  rw [stepInto]
  by_cases nonneg : 0 ≤ index
  · rw [if_pos nonneg]
    split
    · rfl
    · rename_i out
      exact (List.getElem?_eq_none (by omega)).symm
  · rw [if_neg nonneg, if_neg fun h => nonneg h.1]

theorem index_of_step {index : Int} (step : stepInto v (.array index) = some c) :
    0 ≤ index ∧ index.toNat < (items v).length := by
  rw [stepInto] at step
  split at step
  · omega
  · cases step

theorem stepInto_setChild {r : Ref} (c : Variant) (there : (stepInto v r).isSome) :
    stepInto (setChild v r c) r = some c := by
  obtain ⟨old, step⟩ := Option.isSome_iff_exists.mp there
  cases r with
  | self => cases step
  | object name =>
    rw [setChild, stepInto, setEntries_entries]
    exact lookup_assign name c v.entries
  | array index =>
    obtain ⟨nonneg, below⟩ := index_of_step step
    rw [setChild, stepInto_array, if_pos nonneg]
    exact List.getElem?_set_self below

theorem stepInto_setChild_of_ne {r s : Ref} (c : Variant) (there : (stepInto v r).isSome)
    (differ : s ≠ r) : stepInto (setChild v r c) s = stepInto v s := by
  obtain ⟨old, step⟩ := Option.isSome_iff_exists.mp there
  cases r with
  | self => cases step
  | object name =>
    cases s with
    | self => rfl
    | object other =>
      rw [setChild, stepInto, stepInto, setEntries_entries]
      exact lookup_assign_of_ne (fun same => differ (by rw [same])) c v.entries
    | array index =>
        rw [setChild, stepInto_array, stepInto_array, setEntries_items, items_of_entries step]
  | array index =>
    obtain ⟨nonneg, below⟩ := index_of_step step
    cases s with
    | self => rfl
    | object other =>
      have none_ : v.entries = [] := entries_of_items (by omega)
      rw [setChild, stepInto, stepInto, none_]
      rfl
    | array other =>
      rw [setChild, stepInto_array, stepInto_array]
      by_cases otherNonneg : 0 ≤ other
      · rw [if_pos otherNonneg, if_pos otherNonneg]
        have apart : index.toNat ≠ other.toNat :=
          fun same => differ (by rw [show other = index by omega])
        exact List.getElem?_set_ne apart
      · rw [if_neg otherNonneg, if_neg otherNonneg]

def nesting : Nesting Variant Ref where
  child := stepInto
  setChild := setChild
  child_setChild := stepInto_setChild
  child_setChild_of_ne := stepInto_setChild_of_ne

variable {β : Type} {refs : List Ref}

theorem execute_cons (func : Variant → Ref → Option Variant × β) (ref : Ref)
    (more : refs ≠ []) (v : Variant) :
    execute func (ref :: refs) v =
      (stepInto v ref).bind fun c => (execute func refs c).map fun r =>
      (r.1.map (setChild v ref), r.2) := by
  obtain ⟨next, refs, rfl⟩ := List.exists_cons_of_ne_nil more
  rw [execute]
  cases stepInto v ref with
  | none => rfl
  | some c =>
    rw [bind_some]
    change (execute func (next :: refs) c).bind _ = _
    cases execute func (next :: refs) c <;> rfl

theorem executeConst_cons (func : Variant → Ref → β) (ref : Ref) (more : refs ≠ [])
    (v : Variant) : executeConst func (ref :: refs) v =
    (stepInto v ref).bind (executeConst func refs) := by
  obtain ⟨next, refs, rfl⟩ := List.exists_cons_of_ne_nil more
  rfl

theorem executeConst_append (func : Variant → Ref → β) (path : List Ref) (ref : Ref) (v : Variant) :
    executeConst func (path ++ [ref]) v =
      (nesting.locate v path).bind fun holder => if ref.fits holder then some (func holder ref)
      else none := by
  induction path generalizing v with
  | nil => rfl
  | cons r path ih =>
    rw [List.cons_append, executeConst_cons func r (by simp), nesting.locate_cons,
      Option.bind_assoc]
    exact congrArg _ (funext ih)

theorem execute_append (func : Variant → Ref → Option Variant × β) (path : List Ref) (ref : Ref)
    (v : Variant) : execute func (path ++ [ref]) v =
      (nesting.locate v path).bind fun holder =>
        if ref.fits holder then some ((func holder ref).1.map (nesting.replaceAt v path),
          (func holder ref).2)
        else none := by
  induction path generalizing v with
  | nil =>
    have whole : nesting.replaceAt v [] = id := rfl
    rw [List.nil_append, execute, whole, Option.map_id]
    rfl
  | cons r path ih =>
    rw [List.cons_append, execute_cons func r (by simp), nesting.locate_cons, Option.bind_assoc]
    change (stepInto v r).bind _ = (stepInto v r).bind _
    cases step : stepInto v r with
    | none => rfl
    | some c =>
      rw [bind_some, bind_some, ih]
      cases nesting.locate c path with
      | none => rfl
      | some holder =>
        rw [bind_some, bind_some]
        split
        · rw [Option.map_some, Option.map_map]
          have back : setChild v r ∘ nesting.replaceAt c path = nesting.replaceAt v (r :: path) :=
            funext fun x => (nesting.replaceAt_cons step path x).symm
          rw [back]
        · rfl

theorem place_cases (places : Ref.self ∉ refs) :
    refs = [] ∨ ∃ path ref, refs = path ++ [ref] ∧ ref ≠ .self := by
  rcases List.eq_nil_or_concat refs with rfl | ⟨path, ref, rfl⟩
  · exact Or.inl rfl
  · exact Or.inr ⟨path, ref, List.concat_eq_append, fun same => places (by simp [same])⟩

variable {ref : Ref}

theorem fits_of_step (step : stepInto v ref = some c) : ref.fits v = true := by
  cases ref with
  | self => rfl
  | object name =>
      cases v <;> first | rfl | exact absurd step (by simp [stepInto, Variant.entries, lookup])
  | array index =>
    obtain ⟨-, below⟩ := index_of_step step
    cases v <;> first | rfl | exact absurd below (by simp [items])

theorem existsFunc_eq (v : Variant) (place : ref ≠ .self) :
    existsFunc v ref = (stepInto v ref).isSome := by
  cases ref with
  | self => exact absurd rfl place
  | object name => rfl
  | array index =>
    rw [existsFunc, inRange, stepInto_array, ← Bool.decide_and]
    by_cases nonneg : 0 ≤ index
    · rw [if_pos nonneg]
      by_cases below : index < (items v).length
      · simp [nonneg, below]
      · simp [nonneg, below]
    · simp [nonneg]

theorem valueFunc_eq (v : Variant) (place : ref ≠ .self) :
    valueFunc v ref = (stepInto v ref).getD .invalid := by
  cases ref with
  | self => exact absurd rfl place
  | object name => rfl
  | array index =>
    have there := existsFunc_eq v place
    rw [existsFunc] at there
    rw [valueFunc, there]
    cases step : stepInto v (.array index) with
    | none => rfl
    | some c =>
      have nonneg := (index_of_step step).1
      rw [stepInto_array, if_pos nonneg] at step
      rw [Option.isSome_some, if_pos rfl, step]

theorem setValueFunc_eq (step : stepInto v ref = some c) (x : Variant) :
    setValueFunc x v ref = (some (setChild v ref x), true) := by
  cases ref with
  | self => cases step
  | object name => rfl
  | array index =>
    have there := existsFunc_eq v (show Ref.array index ≠ .self by simp)
    obtain ⟨nonneg, -⟩ := index_of_step step
    rw [existsFunc, step] at there
    rw [setValueFunc, if_neg (by omega), there]
    rfl

/-- A later index of the same array: what is there moves up when an item is removed. -/
def Ref.before : Ref → Ref → Prop
  | .array index, .array later => index < later
  | _, _ => False

theorem removed_none (step : stepInto v ref = none) : removed v ref = none := by
  cases ref with
  | self => rfl
  | object name =>
    rw [stepInto] at step
    rw [removed, step]
    rfl
  | array index =>
    have there := existsFunc_eq v (show Ref.array index ≠ .self by simp)
    rw [existsFunc, step] at there
    rw [removed, there]
    rfl

theorem removed_some (step : stepInto v ref = some c) :
    ∃ w, removed v ref = some w ∧ ∀ s, s ≠ ref → ¬ ref.before s → stepInto w s = stepInto v s := by
  cases ref with
  | self => cases step
  | object name =>
    refine ⟨setEntries (PushpinVariant.discard name v.entries) v, ?_, fun s differ _ => ?_⟩
    · rw [stepInto] at step
      rw [removed, step]
      rfl
    · cases s with
      | self => rfl
      | object other =>
        rw [stepInto, stepInto, setEntries_entries]
        exact lookup_discard_of_ne (fun same => differ (by rw [same])) v.entries
      | array index => rw [stepInto_array, stepInto_array, setEntries_items, items_of_entries step]
  | array index =>
    obtain ⟨nonneg, below⟩ := index_of_step step
    have there := existsFunc_eq v (show Ref.array index ≠ .self by simp)
    rw [existsFunc, step] at there
    refine ⟨.list ((items v).eraseIdx index.toNat), ?_, fun s differ notMoved => ?_⟩
    · rw [removed, there]
      rfl
    · cases s with
      | self => rfl
      | object other =>
        have none_ : v.entries = [] := entries_of_items (by omega)
        rw [stepInto, stepInto, none_]
        rfl
      | array other =>
        rw [stepInto_array, stepInto_array]
        by_cases otherNonneg : 0 ≤ other
        · have ahead : other.toNat < index.toNat := by
            have notLater : ¬ index < other := notMoved
            have apart : other ≠ index := fun same => differ (by rw [same])
            omega
          rw [if_pos otherNonneg, if_pos otherNonneg]
          exact List.getElem?_eraseIdx_of_lt ahead
        · rw [if_neg otherNonneg, if_neg otherNonneg]

section Operations
variable {data : Variant} {refs : List Ref} (places : Ref.self ∉ refs)
include places

theorem pointerExists_eq : pointerExists data refs = (nesting.locate data refs).isSome := by
  rcases place_cases places with rfl | ⟨path, ref, rfl, place⟩
  · rfl
  · rw [pointerExists, executeConst_append, nesting.locate_append]
    cases nesting.locate data path with
    | none => rfl
    | some holder =>
      rw [bind_some, bind_some, existsFunc_eq holder place]
      change _ = ((stepInto holder ref).bind some).isSome
      cases step : stepInto holder ref with
      | none => split <;> rfl
      | some c =>
        rw [if_pos (fits_of_step step)]
        rfl

theorem pointerValue_eq : pointerValue data refs = (nesting.locate data refs).getD .invalid := by
  rcases place_cases places with rfl | ⟨path, ref, rfl, place⟩
  · rfl
  · rw [pointerValue, executeConst_append, nesting.locate_append]
    cases nesting.locate data path with
    | none => rfl
    | some holder =>
      rw [bind_some, bind_some, valueFunc_eq holder place]
      change _ = ((stepInto holder ref).bind some).getD _
      cases step : stepInto holder ref with
      | none => split <;> rfl
      | some c =>
        rw [if_pos (fits_of_step step)]
        rfl

theorem pointerValue_absent (absent : pointerExists data refs = false) :
    pointerValue data refs = .invalid := by
  rw [pointerExists_eq places, Option.isSome_eq_false_iff, Option.isNone_iff_eq_none] at absent
  rw [pointerValue_eq places, absent]
  rfl

theorem locate_eq :
    nesting.locate data refs = if pointerExists data refs then some (pointerValue data refs)
      else none := by
  rw [pointerExists_eq places, pointerValue_eq places]
  cases nesting.locate data refs <;> rfl

theorem pointerSetValue_eq (there : pointerExists data refs = true) (v : Variant) :
    pointerSetValue data refs v = (nesting.replaceAt data refs v, true) := by
  rw [pointerExists_eq places] at there
  rcases place_cases places with rfl | ⟨path, ref, rfl, place⟩
  · rfl
  · rw [nesting.locate_append] at there
    rw [pointerSetValue, execute_append]
    cases held : nesting.locate data path with
    | none => rw [held] at there; cases there
    | some holder =>
      rw [held, bind_some] at there
      cases step : stepInto holder ref with
      | none =>
        change ((stepInto holder ref).bind some).isSome = true at there
        rw [step] at there
        cases there
      | some c =>
        rw [bind_some, if_pos (fits_of_step step), setValueFunc_eq step,
          nesting.replaceAt_append held]
        rw [nesting.replaceAt_cons step]
        rfl

theorem remove_nothing (nothing : pointerExists data refs = false ∨ refs = []) :
    pointerRemove data refs = (data, false) ∧ (pointerTake data refs).1 = data := by
  rcases place_cases places with rfl | ⟨path, ref, rfl, place⟩
  · exact ⟨rfl, rfl⟩
  · have absent := nothing.resolve_right (by simp)
    rw [pointerExists_eq places, nesting.locate_append] at absent
    rw [pointerRemove, pointerTake, execute_append, execute_append]
    cases held : nesting.locate data path with
    | none => exact ⟨rfl, rfl⟩
    | some holder =>
      rw [held, bind_some] at absent
      change ((stepInto holder ref).bind some).isSome = false at absent
      cases step : stepInto holder ref with
      | some c => rw [step] at absent; cases absent
      | none =>
        rw [bind_some, bind_some, removeFunc, takeFunc, removed_none step]
        constructor <;> split <;> rfl

theorem remove_something {path : List Ref} {ref : Ref} (ends : refs = path ++ [ref])
    (there : pointerExists data refs = true) :
    ∃ holder c w, nesting.locate data path = some holder ∧ stepInto holder ref = some c ∧
      pointerRemove data refs = (nesting.replaceAt data path w, true) ∧
      (pointerTake data refs).1 = nesting.replaceAt data path w ∧
      ∀ s, s ≠ ref → ¬ ref.before s → stepInto w s = stepInto holder s := by
  subst ends
  rw [pointerExists_eq places, nesting.locate_append] at there
  cases held : nesting.locate data path with
  | none => rw [held] at there; cases there
  | some holder =>
    rw [held, bind_some] at there
    change ((stepInto holder ref).bind some).isSome = true at there
    cases step : stepInto holder ref with
    | none => rw [step] at there; cases there
    | some c =>
      obtain ⟨w, change, same⟩ := removed_some step
      refine ⟨holder, c, w, rfl, step, ?_, ?_, same⟩
      · rw [pointerRemove, execute_append, held, bind_some, if_pos (fits_of_step step),
          removeFunc, change]
        rfl
      · rw [pointerTake, execute_append, held, bind_some, if_pos (fits_of_step step),
          takeFunc, change]
        rfl

theorem pointerTake_value : (pointerTake data refs).2 = pointerValue data refs := by
  rcases place_cases places with rfl | ⟨path, ref, rfl, place⟩
  · rfl
  · rw [pointerTake, pointerValue, execute_append, executeConst_append]
    cases nesting.locate data path with
    | none => rfl
    | some holder =>
      rw [bind_some, bind_some]
      split <;> rfl

end Operations

/-- The second path leads to, or into, a later index of the array that the first one
    ends in. -/
def Moved (refs q : List Ref) : Prop :=
  ∃ path ref later rest, refs = path ++ [ref] ∧ q = path ++ later :: rest ∧ ref.before later

structure Unchanged (data after : Variant) (q : List Ref) : Prop where
  present : pointerExists after q = pointerExists data q
  value : pointerValue after q = pointerValue data q

theorem unchanged_of_locate {data after : Variant} {q : List Ref} (places : Ref.self ∉ q)
    (same : nesting.locate after q = nesting.locate data q) : Unchanged data after q := by
  constructor
  · rw [pointerExists_eq places, pointerExists_eq places, same]
  · rw [pointerValue_eq places, pointerValue_eq places, same]

theorem unchanged_of_remove {data : Variant} {q : List Ref} (places : Ref.self ∉ refs)
    (apart : Apart refs q) (notMoved : ¬ Moved refs q) (placesOther : Ref.self ∉ q) :
    Unchanged data (pointerRemove data refs).1 q := by
  apply unchanged_of_locate placesOther
  by_cases there : pointerExists data refs = true
  · rcases place_cases places with rfl | ⟨path, ref, ends, place⟩
    · exact (apart.1 q.nil_prefix).elim
    · obtain ⟨holder, c, w, held, step, removes, -, same⟩ := remove_something places ends there
      have heldSome : (nesting.locate data path).isSome := by rw [held]; rfl
      rw [removes]
      subst ends
      rcases apart.of_append with apart | ⟨s, rest, rfl, differ⟩
      · exact nesting.locate_replaceAt_apart heldSome w apart
      · refine nesting.locate_replaceAt_through heldSome w fun h hold => ?_
        rw [held, Option.some.injEq] at hold
        subst hold
        have still : ¬ ref.before s := fun before => notMoved ⟨path, ref, s, rest, rfl, rfl, before⟩
        exact congrArg (fun c : Option Variant => c.bind fun c => nesting.locate c rest)
          (same s differ still)
  · rw [(remove_nothing places (Or.inl (Bool.eq_false_iff.mpr there))).1]

theorem childRef_place {p : List Char} (found : childRef v p = .ok ref) : ref ≠ .self := by
  rintro rfl
  unfold childRef at found
  split at found
  · cases found
  · cases found
  · split at found
    · cases found
    · split at found
      · cases found
      · split at found <;> cases found
  · cases found

theorem resolveParts_places {prevRef : Option Ref} {parts : List (List Char)}
    (resolved : resolveParts v prevRef parts = .ok refs) : Ref.self ∉ refs := by
  induction parts generalizing v prevRef refs with
  | nil =>
    cases resolved
    simp
  | cons part parts ih =>
    obtain ⟨⟨holder, ref⟩, here, resolved⟩ := Results.bind_ok resolved
    obtain ⟨rest, more, resolved⟩ := Results.bind_ok resolved
    cases resolved
    unfold resolvePart at here
    split at here
    · cases here
    · obtain ⟨w, -, here⟩ := Results.bind_ok here
      obtain ⟨found, isRef, here⟩ := Results.bind_ok here
      cases here
      intro self_
      rcases List.mem_cons.mp self_ with same | inside
      · exact childRef_place isRef same.symm
      · exact ih more inside

theorem resolve_places {data : Variant} {pointerStr : String}
    (resolved : resolve data pointerStr = .ok refs) : Ref.self ∉ refs := by
  unfold resolve at resolved
  split at resolved
  · split at resolved
    · cases resolved
      simp
    · exact resolveParts_places resolved
  · cases resolved

/-- The laws. A place above the pointer contains what is at the pointer, and the root
    is never removed. -/
theorem pointer_laws {data : Variant} {pointerStr : String} {refs : List Ref}
    (resolved : resolve data pointerStr = .ok refs) (v : Variant) :
    (pointerExists data refs = true →
      pointerValue (pointerSetValue data refs v).1 refs = v ∧
        (pointerSetValue data refs v).2 = true ∧
      ∀ q, Ref.self ∉ q → Apart refs q → Unchanged data (pointerSetValue data refs v).1 q) ∧
    (∀ q, Ref.self ∉ q → Apart refs q → ¬ Moved refs q →
      Unchanged data (pointerRemove data refs).1 q ∧ Unchanged data (pointerTake data refs).1 q) ∧
    (pointerTake data refs).2 = pointerValue data refs ∧
    (pointerTake data refs).1 = (pointerRemove data refs).1 ∧
    ((pointerRemove data refs).2 = true ↔ pointerExists data refs = true ∧ refs ≠ []) ∧
    ((pointerRemove data refs).2 = false → (pointerRemove data refs).1 = data) ∧
    (pointerExists data refs = false → pointerValue data refs = .invalid) ∧
    nesting.locate data refs = if pointerExists data refs then some (pointerValue data refs)
      else none := by
  have places := resolve_places resolved
  have removals : (pointerTake data refs).1 = (pointerRemove data refs).1 ∧
      ((pointerRemove data refs).2 = true ↔ pointerExists data refs = true ∧ refs ≠ []) ∧
      ((pointerRemove data refs).2 = false → (pointerRemove data refs).1 = data) := by
    by_cases removable : pointerExists data refs = true ∧ refs ≠ []
    · obtain ⟨path, ref, ends, -⟩ := (place_cases places).resolve_left removable.2
      obtain ⟨holder, c, w, -, -, removes, takes, -⟩ := remove_something places ends removable.1
      rw [removes, takes]
      exact ⟨rfl, iff_of_true rfl removable, fun kept => by cases kept⟩
    · have nothing : pointerExists data refs = false ∨ refs = [] := by
        simpa only [not_and_or, Bool.not_eq_true, ne_eq, not_not] using removable
      obtain ⟨removes, takes⟩ := remove_nothing places nothing
      rw [removes, takes]
      exact ⟨rfl, iff_of_false (by simp) removable, fun _ => rfl⟩
  refine ⟨fun there => ?_, fun q placesOther apart notMoved => ?_, pointerTake_value places,
    removals.1, removals.2.1, removals.2.2, pointerValue_absent places, locate_eq places⟩
  · have located : (nesting.locate data refs).isSome := by rwa [pointerExists_eq places] at there
    rw [pointerSetValue_eq places there]
    refine ⟨?_, rfl, fun q placesOther apart => ?_⟩
    · rw [pointerValue_eq places, nesting.locate_replaceAt located]
      rfl
    · exact unchanged_of_locate placesOther (nesting.locate_replaceAt_apart located v apart)
  · rw [removals.1]
    exact ⟨unchanged_of_remove places apart notMoved placesOther,
      unchanged_of_remove places apart notMoved placesOther⟩

def basket : Variant := .map [("fruit", .list [.string "apple", .string "pear"]), ("count", .int 2)]

theorem pointer_laws_of_basket :
    resolve basket "/fruit/0" = .ok [.object "fruit", .array 0] ∧
    pointerValue (pointerSetValue basket [.object "fruit", .array 0] (.int 5)).1 [.object "fruit",
      .array 0] = .int 5 ∧
    Unchanged basket (pointerRemove basket [.object "fruit", .array 0]).1 [.object "count"] := by
  have resolved : resolve basket "/fruit/0" = .ok [.object "fruit", .array 0] := by rfl
  have laws := pointer_laws resolved (.int 5)
  refine ⟨resolved, (laws.1 (by rfl)).1, (laws.2.1 [.object "count"] (by decide) (by decide) ?_).1⟩
  rintro ⟨path, ref, later, rest, ends, other, -⟩
  cases path with
  | nil => cases ends
  | cons r path =>
    rw [List.cons_append, List.cons.injEq] at ends other
    exact absurd (ends.1.trans other.1.symm) (by decide)

theorem root_is_not_removed :
    resolve basket "/" = .ok [] ∧ pointerExists basket [] = true ∧
      pointerRemove basket [] = (basket, false) ∧
    (pointerTake basket []).1 = basket ∧ resolve basket "/count" = .ok [.object "count"] ∧
    pointerExists basket [.object "count"] = true ∧ ¬ [Ref.object "count"] <+: [] ∧
    pointerValue (pointerSetValue basket [.object "count"] (.int 3)).1 [] ≠ pointerValue basket
      [] := by
  refine ⟨by rfl, rfl, rfl, rfl, by rfl, by rfl, by simp, ?_⟩
  intro same
  have one : Variant.int 3 = .int 2 :=
    congrArg (fun d => pointerValue d [.object "count"]) same
  cases one

end PushpinJsonPointer
