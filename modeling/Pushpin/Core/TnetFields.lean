import Mathlib.Data.List.Nodup
import Pushpin.Core.TnetCodecTrips

namespace PushpinTnetCodec
open PushpinRingBuffer PushpinTnetstring Text

def lookup {α : Type} (entries : List (List Byte × α)) (name : List Byte) : Option α :=
  (entries.find? fun entry => entry.1 = name).map Prod.snd

def present {α : Type} (fields : List (List Byte × Option α)) : List (List Byte × α) :=
  fields.filterMap fun field => field.2.map fun value => (field.1, value)

namespace Value

def isScalar : Value → Bool
  | .bool _ | .int _ | .double _ | .byteArray _ => true
  | _ => false

section
variable (doubleInt : UInt64 → Int32) (doubleText : UInt64 → List Byte)

/-- `toInt` of a value. A number in a byte array is read as 64 bits and narrowed. -/
def toInt : Value → Int32
  | .bool b => if b then 1 else 0
  | .int x => Int32.ofInt x.val
  | .double bits => doubleInt bits
  | .byteArray b => Int32.ofInt ((toLongLong b).getD 0)
  | _ => 0

def toByteArray : Value → List Byte
  | .bool b => boolBytes b
  | .int x => intText x.val
  | .double bits => doubleText bits
  | .byteArray b => b
  | _ => []

end
end Value

section
variable (obj : List (List Byte × Value)) (name : List Byte)

def bytesField : Option (List Byte) :=
  match lookup obj name with
  | some (.byteArray b) => some b
  | _ => none

def bytesFieldOr (default : List Byte) : Option (List Byte) :=
  match lookup obj name with
  | none => some default
  | some (.byteArray b) => some b
  | some _ => none

def boolFieldOr (default : Bool) : Option Bool :=
  match lookup obj name with
  | none => some default
  | some (.bool b) => some b
  | some _ => none

def intFieldOr (doubleInt : UInt64 → Int32) (default : Int32) : Option Int32 :=
  match lookup obj name with
  | none => some default
  | some value => if value.isScalar then some (value.toInt doubleInt) else none

def intField (doubleInt : UInt64 → Int32) : Option Int32 :=
  match lookup obj name with
  | none => none
  | some value => if value.isScalar then some (value.toInt doubleInt) else none

end

theorem int_low (n : Int32) : -(isizeEnd : Int) ≤ n.toInt := by
  have := n.le_toInt
  rw [isizeEnd]
  omega

theorem int_high (n : Int32) : n.toInt < (isizeEnd : Int) := by
  have := n.toInt_lt
  rw [isizeEnd]
  omega

def isizeOf (n : Int32) : Isize := ⟨n.toInt, int_low n, int_high n⟩

theorem toInt_isizeOf (doubleInt : UInt64 → Int32) (n : Int32) :
    (Value.int (isizeOf n)).toInt doubleInt = n :=
  Int32.ofInt_toInt n

section
variable {α : Type}

theorem mem_present {fields : List (List Byte × Option α)} {entry : List Byte × α} :
    entry ∈ present fields ↔ (entry.1, some entry.2) ∈ fields := by
  obtain ⟨name, value⟩ := entry
  simp only [present, List.mem_filterMap, Option.map_eq_some_iff, Prod.mk.injEq]
  constructor
  · rintro ⟨⟨name', value'⟩, mem, _, rfl, rfl, rfl⟩
    exact mem
  · intro mem
    exact ⟨_, mem, _, rfl, rfl, rfl⟩

theorem present_names (fields : List (List Byte × Option α)) :
    ((present fields).map Prod.fst).Sublist (fields.map Prod.fst) := by
  induction fields with
  | nil => exact List.Sublist.refl _
  | cons field fields ih =>
    obtain ⟨name, value⟩ := field
    cases value with
    | none => exact ih.cons name
    | some value => exact ih.cons_cons name

theorem lookup_mem {entries : List (List Byte × α)} (distinct : (entries.map Prod.fst).Nodup)
    {name : List Byte} {value : α} (mem : (name, value) ∈ entries) :
    lookup entries name = some value := by
  induction entries with
  | nil => cases mem
  | cons entry entries ih =>
    rw [List.map_cons, List.nodup_cons] at distinct
    rw [lookup, List.find?_cons]
    rcases List.mem_cons.mp mem with rfl | mem
    · simp
    · have other : entry.1 ≠ name := by
        intro same
        exact distinct.1 (same ▸ List.mem_map_of_mem mem)
      simp only [other, decide_false]
      exact ih distinct.2 mem

theorem lookup_absent {entries : List (List Byte × α)} {name : List Byte}
    (absent : name ∉ entries.map Prod.fst) : lookup entries name = none := by
  rw [lookup, Option.map_eq_none_iff, List.find?_eq_none]
  intro entry mem
  simp only [decide_eq_true_eq]
  rintro rfl
  exact absent (List.mem_map_of_mem mem)

theorem lookup_present {fields : List (List Byte × Option α)}
    (distinct : (fields.map Prod.fst).Nodup) {entries : List (List Byte × α)}
    (perm : entries.Perm (present fields)) {name : List Byte} {value : Option α}
    (mem : (name, value) ∈ fields) : lookup entries name = value := by
  have distinct' : (entries.map Prod.fst).Nodup :=
    (perm.map Prod.fst).nodup_iff.mpr (distinct.sublist (present_names fields))
  cases value with
  | some value => exact lookup_mem distinct' (perm.mem_iff.mpr (mem_present.mpr mem))
  | none =>
    refine lookup_absent fun there => ?_
    obtain ⟨entry, held, rfl⟩ := List.mem_map.mp there
    have both := mem_present.mp (perm.mem_iff.mp held)
    have one := List.inj_on_of_nodup_map distinct both mem rfl
    simp at one

end

section
variable {ok : List Byte → Bool}

/-- A value without doubles, whose hashes have each key once, and only keys that are `ok`. -/
def Carried (ok : List Byte → Bool) (value : Value) : Prop :=
  ∃ t : Tree, treeValue t = value ∧ keysHold ok t = true ∧ distinctKeys t

theorem carried_list {items : List Value} (carried : ∀ value ∈ items, Carried ok value) :
    Carried ok (.list items) := by
  have trees : ∃ ts, itemsValue ts = items ∧ itemsHold ok ts = true ∧ itemsDistinct ts := by
    induction items with
    | nil => exact ⟨[], rfl, rfl, trivial⟩
    | cons value items ih =>
      obtain ⟨⟨t, rfl, key, distinct⟩, later⟩ := List.forall_mem_cons.mp carried
      obtain ⟨ts, rfl, keys, distincts⟩ := ih later
      exact ⟨t :: ts, rfl, by rw [itemsHold, key, keys]; rfl, distinct, distincts⟩
  obtain ⟨ts, same, keys, distincts⟩ := trees
  exact ⟨.array ts, congrArg Value.list same, keys, distincts⟩

theorem carried_hash {entries : List (List Byte × Value)} (names : (entries.map Prod.fst).Nodup)
    (fine : ∀ entry ∈ entries, ok entry.1 = true)
    (carried : ∀ entry ∈ entries, Carried ok entry.2) :
    Carried ok (.hash entries) := by
  have trees : ∃ ts, entriesValue ts = entries ∧ entriesHold ok ts = true ∧ entriesDistinct ts := by
    clear names
    induction entries with
    | nil => exact ⟨[], rfl, rfl, trivial⟩
    | cons entry entries ih =>
      obtain ⟨key, value⟩ := entry
      obtain ⟨name, later_fine⟩ := List.forall_mem_cons.mp fine
      obtain ⟨⟨t, here, keys, distinct⟩, later⟩ := List.forall_mem_cons.mp carried
      obtain ⟨ts, rfl, keys', distincts⟩ := ih later_fine later
      refine ⟨(key, t) :: ts, by rw [entriesValue, here], ?_, distinct, distincts⟩
      rw [entriesHold, name, keys, keys']
      rfl
  obtain ⟨ts, rfl, keys, distincts⟩ := trees
  refine ⟨.map ts, rfl, keys, ?_, distincts⟩
  simpa [entriesValue_map, Function.comp_def] using names

theorem carried_fields {fields : List (List Byte × Option Value)}
    (names : (fields.map Prod.fst).Nodup) (fine : ∀ field ∈ fields, ok field.1 = true)
    (carried : ∀ field ∈ fields, ∀ value, field.2 = some value → Carried ok value)
    {entries : List (List Byte × Value)} (perm : entries.Perm (present fields)) :
    Carried ok (.hash entries) := by
  refine carried_hash ?_ ?_ ?_
  · exact (perm.map Prod.fst).nodup_iff.mpr (names.sublist (present_names fields))
  · intro entry mem
    exact fine _ (mem_present.mp (perm.mem_iff.mp mem))
  · intro entry mem
    exact carried _ (mem_present.mp (perm.mem_iff.mp mem)) _ rfl

end

theorem Carried.any {ok : List Byte → Bool} {value : Value} (carried : Carried ok value) :
    Carried (fun _ => true) value := by
  obtain ⟨t, same, hold, distinct⟩ := carried
  exact ⟨t, same, keysHold_mono (fun _ _ => rfl) t hold, distinct⟩

theorem present_map {α β : Type} (g : α → β) (fields : List (List Byte × Option α)) :
    present (fields.map fun field => (field.1, field.2.map g)) =
      (present fields).map fun entry => (entry.1, g entry.2) := by
  induction fields with
  | nil => rfl
  | cons field fields ih =>
    obtain ⟨name, value⟩ := field
    cases value with
    | none => exact ih
    | some value => exact congrArg ((name, g value) :: ·) ih

theorem mem_assign {α : Type} {key : List Byte} {value : α} {out : List (List Byte × α)}
    {entry : List Byte × α} (mem : entry ∈ assign key value out) : entry = (key, value) ∨
    entry ∈ out := by
  induction out with
  | nil => simpa [assign] using mem
  | cons first out ih =>
    rw [assign] at mem
    split at mem
    · rcases List.mem_cons.mp mem with here | later
      · exact Or.inl here
      · exact Or.inr (List.mem_cons_of_mem _ later)
    · rcases List.mem_cons.mp mem with here | later
      · exact Or.inr (here ▸ List.mem_cons_self)
      · rcases ih later with here | there
        · exact Or.inl here
        · exact Or.inr (List.mem_cons_of_mem _ there)

theorem assign_nodup {α : Type} (key : List Byte) (value : α) {out : List (List Byte × α)}
    (distinct : (out.map Prod.fst).Nodup) : ((assign key value out).map Prod.fst).Nodup := by
  induction out with
  | nil => simp [assign]
  | cons first out ih =>
    rw [List.map_cons, List.nodup_cons] at distinct
    rw [assign]
    split
    · next same => simpa [← same] using distinct
    · next other =>
      rw [List.map_cons, List.nodup_cons]
      refine ⟨fun mem => ?_, ih distinct.2⟩
      obtain ⟨entry, mem, same⟩ := List.mem_map.mp mem
      rcases mem_assign mem with rfl | there
      · exact other same.symm
      · exact distinct.1 (same ▸ List.mem_map_of_mem there)

section
variable {fromUtf8 : List Byte → List Byte}

theorem entriesReread_mem {entries out : List (List Byte × Value)} {entry : List Byte × Value}
    (mem : entry ∈ entriesReread fromUtf8 entries out) :
    entry ∈ out ∨ ∃ written ∈ entries, entry = (fromUtf8 written.1, reread fromUtf8 written.2) := by
  induction entries generalizing out with
  | nil => exact Or.inl mem
  | cons written entries ih =>
    rcases ih mem with early | ⟨written', later, same⟩
    · rcases mem_assign early with same | there
      · exact Or.inr ⟨written, List.mem_cons_self, same⟩
      · exact Or.inl there
    · exact Or.inr ⟨written', List.mem_cons_of_mem _ later, same⟩

theorem entriesReread_nodup (entries : List (List Byte × Value)) {out : List (List Byte × Value)}
    (distinct : (out.map Prod.fst).Nodup) :
    ((entriesReread fromUtf8 entries out).map Prod.fst).Nodup := by
  induction entries generalizing out with
  | nil => exact distinct
  | cons written entries ih => exact ih (assign_nodup _ _ distinct)

theorem carried_kept (utf8 : ∀ key, isPlain key = true → fromUtf8 key = key) {value : Value}
    (carried : Carried isPlain value) : reread fromUtf8 value = value := by
  obtain ⟨t, rfl, plain, distinct⟩ := carried
  exact reread_plain utf8 t plain distinct

end

end PushpinTnetCodec
