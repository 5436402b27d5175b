import Pushpin.Handler.JsonPatchRfc
import Pushpin.Handler.JsonPointerLaws

namespace PushpinJsonPatch
open PushpinVariant PushpinJsonPointer JsonDocuments Results

section Pairs
variable (pair : Variant → Variant → Bool)

mutual

def somePair : Variant → Variant → Bool
  | .map am, .map bm => pair (.map am) (.map bm) || someEntry am bm
  | .list al, .list bl => pair (.list al) (.list bl) || someItem al bl
  | a, b => pair a b

def someItem : List Variant → List Variant → Bool
  | a :: al, b :: bl => somePair a b || someItem al bl
  | _, _ => false

def someEntry : List (String × Variant) → List (String × Variant) → Bool
  | [], _ => false
  | (key, val) :: am, bm =>
    (match lookup bm key with
    | some other => somePair val other
    | none => false) || someEntry am bm

end
end Pairs

section
variable (fromUtf8 : Bytes → String)

def sameJson (a b : Variant) : Bool := (denote fromUtf8 a).same (denote fromUtf8 b)

/-- Different scalars that are the same integer when they are converted, and that are
    not two texts or two booleans. -/
def takenForEqual (a b : Variant) : Bool :=
  match a, b with
  | .string _, .string _ | .bool _, .bool _ => false
  | a, b => a.canConvertInt && b.canConvertInt && a.toInt == b.toInt && !sameJson fromUtf8 a b

/-- Two objects that have not the same keys, two arrays of different lengths, and any
    two different values that are not both converted to one integer. -/
def plainlyDifferent (a b : Variant) : Bool :=
  match a, b with
  | .map am, .map bm => am.length != bm.length || am.any fun e => (lookup bm e.1).isNone
  | .list al, .list bl => al.length != bl.length
  | a, b => !sameJson fromUtf8 a b && !takenForEqual fromUtf8 a b

/-- An equality that walks two maps and two lists member by member, and that pairs of
    the kind `wrong` make false. -/
structure Walks (equal wrong : Variant → Variant → Bool) : Prop where
  maps : ∀ am bm, equal (.map am) (.map bm) =
    (am.length == bm.length && am.all fun e => (lookup bm e.1).any (equal e.2))
  lists : ∀ al bl, equal (.list al) (.list bl) =
    (al.length == bl.length && (al.zip bl).all fun p => equal p.1 p.2)
  leaf : ∀ {a b}, (∀ am bm, a = .map am → b = .map bm → False) →
    (∀ al bl, a = .list al → b = .list bl → False) →
    equal a b = (!plainlyDifferent fromUtf8 a b && !wrong a b)
  wrong_maps : ∀ am bm, wrong (.map am) (.map bm) = false
  wrong_lists : ∀ al bl, wrong (.list al) (.list bl) = false

section Walk
variable {fromUtf8} {equal wrong : Variant → Variant → Bool}

theorem Walks.eq_leaf (walks : Walks fromUtf8 equal wrong) {a b : Variant}
    (notMaps : ∀ am bm, a = .map am → b = .map bm → False)
    (notLists : ∀ al bl, a = .list al → b = .list bl → False) :
    equal a b = (!somePair (plainlyDifferent fromUtf8) a b && !somePair wrong a b) := by
  rw [somePair.eq_3 _ a b notMaps notLists, somePair.eq_3 _ a b notMaps notLists]
  exact walks.leaf notMaps notLists

mutual

theorem Walks.eq_somePair (walks : Walks fromUtf8 equal wrong) (a b : Variant) :
    equal a b = (!somePair (plainlyDifferent fromUtf8) a b && !somePair wrong a b) := by
  cases a with
  | map am =>
    cases b with
    | map bm =>
      rw [walks.maps, walks.eq_someEntry am bm, somePair, somePair, walks.wrong_maps,
        plainlyDifferent, bne]
      cases am.length == bm.length <;>
        cases am.any (fun e => (lookup bm e.1).isNone) <;>
        cases someEntry (plainlyDifferent fromUtf8) am bm <;> rfl
    | _ => exact walks.eq_leaf (by rintro _ _ ⟨⟩ ⟨⟩) (by rintro _ _ ⟨⟩ ⟨⟩)
  | list al =>
    cases b with
    | list bl =>
      rw [walks.lists, walks.eq_someItem al bl, somePair, somePair, walks.wrong_lists,
        plainlyDifferent, bne]
      cases al.length == bl.length <;> cases someItem (plainlyDifferent fromUtf8) al bl <;> rfl
    | _ => exact walks.eq_leaf (by rintro _ _ ⟨⟩ ⟨⟩) (by rintro _ _ ⟨⟩ ⟨⟩)
  | _ => exact walks.eq_leaf (by rintro _ _ ⟨⟩ ⟨⟩) (by rintro _ _ ⟨⟩ ⟨⟩)

theorem Walks.eq_someItem (walks : Walks fromUtf8 equal wrong) (al bl : List Variant) :
    ((al.zip bl).all fun p => equal p.1 p.2) =
      (!someItem (plainlyDifferent fromUtf8) al bl && !someItem wrong al bl) := by
  match al, bl with
  | [], _ => simp [someItem]
  | _ :: _, [] => simp [someItem]
  | a :: al, b :: bl =>
    rw [List.zip_cons_cons, List.all_cons, walks.eq_somePair a b, walks.eq_someItem al bl, someItem,
      someItem]
    cases somePair (plainlyDifferent fromUtf8) a b <;> cases somePair wrong a b <;>
      cases someItem (plainlyDifferent fromUtf8) al bl <;> rfl

theorem Walks.eq_someEntry (walks : Walks fromUtf8 equal wrong)
    (am bm : List (String × Variant)) :
    (am.all fun e => (lookup bm e.1).any (equal e.2)) =
      (!(am.any fun e => (lookup bm e.1).isNone) && !someEntry (plainlyDifferent fromUtf8) am bm &&
        !someEntry wrong am bm) := by
  match am with
  | [] => rfl
  | (key, val) :: am =>
    rw [List.all_cons, List.any_cons, walks.eq_someEntry am bm, someEntry, someEntry]
    cases lookup bm key with
    | none => rfl
    | some other =>
      dsimp only [Option.any_some, Option.isNone_some]
      rw [walks.eq_somePair val other]
      cases somePair (plainlyDifferent fromUtf8) val other <;> cases somePair wrong val other <;>
        cases am.any (fun e => (lookup bm e.1).isNone) <;>
        cases someEntry (plainlyDifferent fromUtf8) am bm <;> rfl

end
end Walk

end

end PushpinJsonPatch
