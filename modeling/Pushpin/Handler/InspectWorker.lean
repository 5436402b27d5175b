import Mathlib.Data.List.Sort
import Pushpin.Core.HttpHeaders
import Pushpin.Foundations.Joining

namespace PushpinInspect
open PushpinVariant (Bytes)
open PushpinHttpHeaders Joining

structure InspectWorker where
  shareAll : Bool
  method : String
  uri : Bytes
  headers : Headers
  autoShare : Bool
  sid : String
  lastIds : List (String × String)

structure InspectResult where
  noProxy : Bool
  sharingKey : Option Bytes
  sid : Option Bytes
  lastIds : Option (List (String × Bytes))
deriving DecidableEq

def bar : UInt8 := 124

def toUtf8 (s : String) : Bytes := s.toUTF8.data.toList

namespace InspectWorker

def gripLastHeaders (w : InspectWorker) : List Bytes := w.headers.getAll (ascii "Grip-Last")

def sortedGripLast (w : InspectWorker) : List Bytes :=
  w.gripLastHeaders.insertionSort fun a b => a ≤ b

section
-- a URI with its query removed
variable (withoutQuery : Bytes → Bytes)

def sharingKey (w : InspectWorker) : Option Bytes :=
  if w.autoShare && w.method = "GET" then
    some (w.sortedGripLast.foldl (fun key h => key ++ bar :: h)
      (ascii "auto|" ++ withoutQuery w.uri))
  else if w.shareAll then some (toUtf8 w.method ++ bar :: w.uri)
  else none

def doFinish (w : InspectWorker) : InspectResult where
  noProxy := false
  sharingKey := w.sharingKey withoutQuery
  sid := if w.sid = "" then none else some (toUtf8 w.sid)
  lastIds :=
    if w.sid = "" || w.lastIds.isEmpty then none else some (w.lastIds.map fun (channel, id) =>
      (channel, toUtf8 id))

def keyTexts (w : InspectWorker) : List Bytes := withoutQuery w.uri :: w.sortedGripLast

def Auto (w : InspectWorker) : Prop := w.autoShare = true ∧ w.method = "GET"

def All (w : InspectWorker) : Prop := ¬ w.Auto ∧ w.shareAll = true

instance (w : InspectWorker) : Decidable w.Auto := inferInstanceAs (Decidable (_ ∧ _))

instance (w : InspectWorker) : Decidable w.All := inferInstanceAs (Decidable (_ ∧ _))

theorem sharingKey_of_auto {w : InspectWorker} (auto : w.Auto) :
    w.sharingKey withoutQuery =
      some ([bar].intercalate (ascii "auto" :: w.keyTexts withoutQuery)) := by
  have both : (w.autoShare && decide (w.method = "GET")) = true := by simp [auto.1, auto.2]
  have start : ascii "auto|" ++ withoutQuery w.uri =
      [bar].intercalate [ascii "auto", withoutQuery w.uri] := by
    rw [List.intercalate_cons_cons, List.intercalate_singleton]
    rfl
  rw [sharingKey, if_pos both, foldl_append bar, start, intercalate_cons, intercalate_cons,
    intercalate_cons, keyTexts]
  simp

theorem sharingKey_of_all {w : InspectWorker} (all : w.All) :
    w.sharingKey withoutQuery = some ([bar].intercalate [toUtf8 w.method, w.uri]) := by
  have notBoth : ¬ (w.autoShare && decide (w.method = "GET")) = true := by
    rw [Bool.and_eq_true, decide_eq_true_eq]
    exact all.1
  rw [sharingKey, if_neg notBoth, if_pos all.2, List.intercalate_cons_cons,
    List.intercalate_singleton, List.append_assoc]
  rfl

end

theorem sortedGripLast_eq_iff (a b : InspectWorker) :
    a.sortedGripLast = b.sortedGripLast ↔ a.gripLastHeaders.Perm b.gripLastHeaders := by
  have sorted : ∀ w : InspectWorker, w.sortedGripLast.Perm w.gripLastHeaders :=
    fun w => List.perm_insertionSort _ _
  constructor
  · intro same
    exact (sorted a).symm.trans (same ▸ sorted b)
  · intro perm
    exact ((sorted a).trans (perm.trans (sorted b).symm)).eq_of_pairwise'
      (List.pairwise_insertionSort _ _) (List.pairwise_insertionSort _ _)

section
variable (withoutQuery : Bytes → Bytes)

theorem auto_keys_eq_iff {a b : InspectWorker} (aAuto : a.Auto) (bAuto : b.Auto) :
    a.sharingKey withoutQuery = b.sharingKey withoutQuery ↔
      parts bar (a.keyTexts withoutQuery) = parts bar (b.keyTexts withoutQuery) := by
  rw [sharingKey_of_auto withoutQuery aAuto, sharingKey_of_auto withoutQuery bAuto,
    Option.some.injEq, intercalate_eq_iff bar (by simp) (by simp)]
  exact List.append_right_inj _

theorem keyTexts_eq_iff (a b : InspectWorker) :
    a.keyTexts withoutQuery = b.keyTexts withoutQuery ↔
      withoutQuery a.uri = withoutQuery b.uri ∧ a.gripLastHeaders.Perm b.gripLastHeaders := by
  rw [keyTexts, keyTexts, List.cons.injEq, sortedGripLast_eq_iff]

theorem keys_identify_of_clean {a b : InspectWorker} (aAuto : a.Auto) (bAuto : b.Auto)
    (aClean : ∀ t ∈ a.keyTexts withoutQuery, bar ∉ t)
    (bClean : ∀ t ∈ b.keyTexts withoutQuery, bar ∉ t)
    (same : a.sharingKey withoutQuery = b.sharingKey withoutQuery) :
    withoutQuery a.uri = withoutQuery b.uri ∧ a.gripLastHeaders.Perm b.gripLastHeaders := by
  rw [auto_keys_eq_iff withoutQuery aAuto bAuto, parts_eq_self bar aClean,
    parts_eq_self bar bClean] at same
  exact (keyTexts_eq_iff withoutQuery a b).mp same

/-- Auto-share keys identify what is shared unless the parts between bars are the same
    and the bars inside of the texts are not. An auto-share key is no share-all key
    unless the parts of the method and the URI are the ones of the auto-share key. -/
theorem sharing_keys_identify_iff {a b c : InspectWorker} (aAuto : a.Auto) (bAuto : b.Auto)
    (cAll : c.All) : (((a.doFinish withoutQuery).sharingKey = (b.doFinish withoutQuery).sharingKey →
        withoutQuery a.uri = withoutQuery b.uri ∧ a.gripLastHeaders.Perm b.gripLastHeaders) ↔
      (parts bar (a.keyTexts withoutQuery) = parts bar (b.keyTexts withoutQuery) →
        inside bar (a.keyTexts withoutQuery) = inside bar (b.keyTexts withoutQuery))) ∧
    ((a.doFinish withoutQuery).sharingKey ≠ (c.doFinish withoutQuery).sharingKey ↔
      ascii "auto" :: parts bar (a.keyTexts withoutQuery) ≠ parts bar [toUtf8 c.method,
        c.uri]) := by
  constructor
  · rw [← keyTexts_eq_iff, doFinish, doFinish, auto_keys_eq_iff withoutQuery aAuto bAuto]
    constructor
    · intro identify sameParts
      rw [identify sameParts]
    · intro sameInside sameParts
      exact eq_of_parts bar sameParts (sameInside sameParts)
  · rw [doFinish, doFinish, sharingKey_of_auto withoutQuery aAuto,
      sharingKey_of_all withoutQuery cAll, Ne, Ne, Option.some.injEq,
        intercalate_eq_iff bar (by simp) (by simp)]
    exact Iff.rfl

end

/-- The part of a URI between the first question mark and the fragment is left out. -/
def dropQuery (uri : Bytes) : Bytes :=
  let front := uri.takeWhile (· ≠ 35)
  front.takeWhile (· ≠ 63) ++ uri.drop front.length

def sample (method uri : String) (fields : List String) : InspectWorker :=
  ⟨true, method, ascii uri, fields.map fun value => (ascii "Grip-Last", ascii value), true, "", []⟩

theorem sample_keys_identify :
    (((sample "GET" "http://x/a?n=1" ["p"]).doFinish dropQuery).sharingKey =
          ((sample "GET" "http://x/a" ["p"]).doFinish dropQuery).sharingKey →
        dropQuery (ascii "http://x/a?n=1") = dropQuery (ascii "http://x/a") ∧
          (sample "GET" "http://x/a?n=1" ["p"]).gripLastHeaders.Perm
          (sample "GET" "http://x/a" ["p"]).gripLastHeaders) ∧
    ((sample "GET" "http://x/a?n=1" ["p"]).doFinish dropQuery).sharingKey ≠
      ((sample "POST" "http://x/a" []).doFinish dropQuery).sharingKey := by
  have both := sharing_keys_identify_iff dropQuery
    (show (sample "GET" "http://x/a?n=1" ["p"]).Auto by decide)
      (show (sample "GET" "http://x/a" ["p"]).Auto by decide)
    (show (sample "POST" "http://x/a" []).All by decide)
  exact ⟨both.1.mpr fun _ => by decide +kernel, both.2.mpr (by decide +kernel)⟩

/-- One value with a bar and two values have one key; so do a path with a bar and a
    value; and a method that is the word at the start makes a share-all key that is an
    auto-share key. -/
theorem bar_merges_keys :
    (sample "GET" "http://x/a" ["p|q"]).Auto ∧ (sample "GET" "http://x/a" ["p", "q"]).Auto ∧
    ((sample "GET" "http://x/a" ["p|q"]).doFinish dropQuery).sharingKey =
      ((sample "GET" "http://x/a" ["p", "q"]).doFinish dropQuery).sharingKey ∧
    ¬ (sample "GET" "http://x/a" ["p|q"]).gripLastHeaders.Perm
      (sample "GET" "http://x/a" ["p", "q"]).gripLastHeaders ∧
    ((sample "GET" "http://x/a|b" []).doFinish dropQuery).sharingKey =
      ((sample "GET" "http://x/a" ["b"]).doFinish dropQuery).sharingKey ∧
    dropQuery (ascii "http://x/a|b") ≠ dropQuery (ascii "http://x/a") ∧
    (sample "auto" "http://x/a" []).All ∧
    ((sample "GET" "http://x/a" []).doFinish dropQuery).sharingKey =
      ((sample "auto" "http://x/a" []).doFinish dropQuery).sharingKey := by
  refine ⟨by decide, by decide, by decide +kernel,
    ?_, by decide +kernel, by decide +kernel, by decide, by decide +kernel⟩
  intro perm
  have lengths := perm.length_eq
  exact absurd lengths (by decide +kernel)

end InspectWorker
end PushpinInspect
