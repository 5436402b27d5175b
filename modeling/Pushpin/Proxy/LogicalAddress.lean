import Pushpin.Proxy.HeaderFrames

namespace PushpinProxyUtil
open PushpinVariant (Bytes)
open PushpinHttpHeaders
open Sweeping

def isForwarded (h : Bytes × Bytes) : Bool := sameName h.1 (ascii "X-Forwarded-For")

theorem apart_forwarded {key : Bytes} (other : sameName key (ascii "X-Forwarded-For") = false) :
    Apart isForwarded key := by
  intro h same
  have lowered := of_decide_eq_true same
  rw [isForwarded, sameName, lowered]
  exact other

theorem starts_apart {start : Bytes} (other : hasPrefix (ascii "X-Forwarded-For") start = false)
    {h : Bytes × Bytes} (kind : isForwarded h = true) : hasPrefix h.1 start = false :=
  (hasPrefix_of_sameName kind start).trans other

theorem marked_prefix (name : Bytes) : hasPrefix (marker ++ name) marker = true := by
  have clean : ∀ b ∈ marker, decide (b ≠ 0) = true := List.all_eq_true.mp (by decide)
  rw [hasPrefix, List.takeWhile_append_of_pos clean, List.take_left]
  exact decide_eq_true rfl

section
variable {Key : Type} (a : Arguments Key) (makeToken : Bytes → Key → Bytes) (versionGe2 : Bool)

theorem marked_apart {h : Bytes × Bytes} (marked : hasPrefix h.1 marker = true) :
    isForwarded h = false := by
  by_contra kind
  rw [@starts_apart marker (by decide) _ (Bool.not_eq_false _ ▸ kind)] at marked
  cases marked

theorem removePrefixed_keeps {start : Bytes}
    (other : hasPrefix (ascii "X-Forwarded-For") start = false) :
    Keeps isForwarded fun hs => Headers.removePrefixed hs start := by
  have same : (fun hs => Headers.removePrefixed hs start) = List.filter fun h =>
      !hasPrefix h.1 start :=
    funext fun hs => Headers.removePrefixed_eq hs start
  rw [same]
  exact keeps_filter fun h kind => by rw [starts_apart other kind]; rfl

theorem markOriginals_keeps : Keeps isForwarded (markOriginals a) := by
  unfold markOriginals
  simp only [sweep_eq]
  split
  · apply (keeps_filter _).append
    · intro hs h member
      obtain ⟨original, _, given⟩ := List.mem_flatMap.mp member
      apply marked_apart
      split at given
      · rename_i marked
        rw [List.mem_singleton.mp given]
        exact marked
      · split at given
        · cases given
        · rw [List.mem_singleton.mp given]
          exact marked_prefix _
    · intro h kind
      rw [starts_apart (by decide) kind]
      rfl
  · split
    · exact removePrefixed_keeps (by decide)
    · exact keeps_id

theorem addCdnLoop_keeps : Keeps isForwarded (addCdnLoop a) := by
  unfold addCdnLoop
  simp only [Headers.takeAll_eq]
  split
  · exact keeps_id
  · exact keeps_replace (apart_forwarded (by decide)) fun hs =>
      Headers.join (Headers.getAll hs (ascii "CDN-Loop") ++ [a.cdnLoop])

theorem applyGripSig_keeps : Keeps isForwarded (applyGripSig makeToken a) := by
  unfold applyGripSig
  cases a.sigKey with
  | none => exact keeps_id
  | some key =>
    dsimp only
    split
    · exact keeps_id
    · split
      · exact keeps_id
      · exact keeps_replace (apart_forwarded (by decide)) _

theorem addGrip_keeps : Keeps isForwarded (addGrip makeToken versionGe2 a) := by
  have featured : Keeps isForwarded fun hs => Headers.removeAll (applyGripSig makeToken a hs)
      (ascii "Grip-Feature") ++ [(ascii "Grip-Feature", Headers.join (features versionGe2))] :=
    (keeps_replace (apart_forwarded (by decide)) fun _ => Headers.join (features versionGe2)).comp
      (applyGripSig_keeps a makeToken)
  unfold addGrip
  split
  · apply Keeps.append
    · split
      · exact featured
      · exact (keeps_replace (apart_forwarded (by decide)) fun _ => a.sid).comp featured
    · intro hs h member
      obtain ⟨⟨channel, id⟩, _, rfl⟩ := List.mem_map.mp member
      change sameName (ascii "Grip-Last") (ascii "X-Forwarded-For") = false
      decide
  · exact keeps_id

theorem dropGrip_keeps : Keeps isForwarded (dropGrip a) := by
  unfold dropGrip
  split
  · exact removePrefixed_keeps (by decide)
  · exact keeps_id

theorem dropRoute_keeps : Keeps isForwarded (dropRoute a) := by
  unfold dropRoute
  split
  · exact keeps_removeAll (apart_forwarded (by decide))
  · exact keeps_id

theorem dropHopHeaders_keeps : Keeps isForwarded dropHopHeaders := by
  apply keeps_removeAlls
  intro key member
  apply apart_forwarded
  revert key
  decide

theorem beforeForwarded_keeps : Keeps isForwarded fun hs =>
    addProto a (addGrip makeToken versionGe2 a
      (dropGrip a (addCdnLoop a (dropRoute a (dropHopHeaders (markOriginals a hs)))))) := by
  apply (addProto_keeps a (apart_forwarded (by decide)) (apart_forwarded (by decide))).comp
  apply (addGrip_keeps a makeToken versionGe2).comp
  apply (dropGrip_keeps a).comp
  apply (addCdnLoop_keeps a).comp
  apply (dropRoute_keeps a).comp
  exact dropHopHeaders_keeps.comp (markOriginals_keeps a)

theorem getAll_keeps {f : Headers → Headers} (keeps : Keeps isForwarded f) (hs : Headers) :
    (f hs).getAll (ascii "X-Forwarded-For") = hs.getAll (ascii "X-Forwarded-For") := by
  have same : (f hs).filter isForwarded = hs.filter isForwarded := keeps hs
  change ((f hs).filter isForwarded).flatMap _ = (hs.filter isForwarded).flatMap _
  rw [same]

section
variable (xr : XffRule) (chosen : (if a.trustedClient then a.xffTrustedRule else a.xffRule) = xr)
  (hs : Headers)
include xr chosen hs

theorem addForwarded_values :
    (addForwarded a hs).filter isForwarded =
      match xr.keep (hs.getAll (ascii "X-Forwarded-For")) ++
        (if xr.append then [a.peerAddress] else []) with
      | [] => []
      | values => [(ascii "X-Forwarded-For", Headers.join values)] := by
  have removed : (hs.removeAll (ascii "X-Forwarded-For")).filter isForwarded = [] := by
    rw [Headers.removeAll_eq, List.filter_filter, List.filter_eq_nil_iff]
    intro h _
    simp [isForwarded]
  have appended : ∀ values : List Bytes, (if xr.append then values ++ [a.peerAddress] else values) =
      values ++ if xr.append then [a.peerAddress] else [] := by
    intro values
    split
    · rfl
    · rw [List.append_nil]
  have added : isForwarded (ascii "X-Forwarded-For", Headers.join []) = true := sameName_self _
  unfold addForwarded
  rw [chosen, Headers.takeAll_eq]
  dsimp only
  rw [appended]
  cases xr.keep (hs.getAll (ascii "X-Forwarded-For")) ++
    (if xr.append then [a.peerAddress] else []) with
  | nil => exact removed
  | cons first rest =>
    rw [if_neg (by simp), List.filter_append, removed, List.nil_append]
    exact List.filter_cons_of_pos added

theorem manipulate_values :
    (manipulateRequestHeaders makeToken versionGe2 a hs).filter isForwarded =
      match xr.keep (hs.getAll (ascii "X-Forwarded-For")) ++
        (if xr.append then [a.peerAddress] else []) with
      | [] => []
      | values => [(ascii "X-Forwarded-For", Headers.join values)] := by
  rw [manipulateRequestHeaders, addForwarded_values a xr chosen,
    getAll_keeps (beforeForwarded_keeps a makeToken versionGe2)]

end

end

section
variable {Address : Type} (setAddress : Bytes → Option Address)

def keptAddress (hs : Headers) (xffRule : XffRule) (peerAddress : Address) : Address :=
  match xffRule.keep (hs.getAll (ascii "X-Forwarded-For")) with
  | [] => peerAddress
  | first :: _ => (setAddress first).getD peerAddress

theorem keep_short {rule : XffRule} {values : List Bytes}
    (short : rule.truncate < 0 ∨ values.length ≤ rule.truncate) : rule.keep values = values := by
  rw [XffRule.keep]
  split
  · have none_ : (max ((values.length : Int) - rule.truncate) 0).toNat = 0 := by omega
    rw [none_, List.drop_zero]
  · rfl

theorem keep_none {rule : XffRule} (none_ : rule.truncate = 0) (values : List Bytes) :
    rule.keep values = [] := by
  rw [XffRule.keep, none_, if_pos (Int.le_refl 0)]
  apply List.drop_eq_nil_of_le
  omega

theorem keep_long {rule : XffRule} {values : List Bytes} (some_ : 0 < rule.truncate)
    (long : rule.truncate < values.length) : ∃ kept rest, rule.keep values = kept :: rest ∧
      values[values.length - rule.truncate.toNat]? = some kept := by
  have start : (max ((values.length : Int) - rule.truncate) 0).toNat =
    values.length - rule.truncate.toNat := by omega
  have inside : values.length - rule.truncate.toNat < values.length := by omega
  refine ⟨values[values.length - rule.truncate.toNat],
    values.drop (values.length - rule.truncate.toNat + 1), ?_, ?_⟩
  · rw [XffRule.keep, if_pos (Int.le_of_lt some_), start]
    exact List.drop_eq_getElem_cons inside
  · exact List.getElem?_eq_getElem inside

/-- The address is the right one unless the rule cuts values off and the first of all
    values reads as another address than the first of those that stay. -/
theorem getLogicalAddress_iff (hs : Headers) (rule : XffRule) (peer : Address) :
    getLogicalAddress setAddress hs rule peer = keptAddress setAddress hs rule peer ↔
      rule.truncate ≤ 0 ∨ ((hs.getAll (ascii "X-Forwarded-For")).length : Int) ≤ rule.truncate ∨
      ∃ first kept, (hs.getAll (ascii "X-Forwarded-For"))[0]? = some first ∧
        (hs.getAll (ascii "X-Forwarded-For"))[(hs.getAll
          (ascii "X-Forwarded-For")).length - rule.truncate.toNat]? = some kept ∧
        (setAddress first).getD peer = (setAddress kept).getD peer := by
  rw [getLogicalAddress, keptAddress]
  generalize hs.getAll (ascii "X-Forwarded-For") = values
  by_cases none_ : rule.truncate = 0
  · rw [keep_none none_]
    have peers : (match values with
        | [] => peer
        | first :: _ => if rule.truncate ≠ 0 then (setAddress first).getD peer else peer) =
            peer := by
      cases values with
      | nil => rfl
      | cons first rest => exact if_neg fun some_ => some_ none_
    exact ⟨fun _ => Or.inl (by omega), fun _ => peers⟩
  · by_cases short : rule.truncate < 0 ∨ (values.length : Int) ≤ rule.truncate
    · rw [keep_short short]
      constructor
      · intro _
        cases short with
        | inl all => exact Or.inl (by omega)
        | inr few => exact Or.inr (Or.inl few)
      · intro _
        cases values with
        | nil => rfl
        | cons first rest => exact if_pos none_
    · have positive : 0 < rule.truncate := by omega
      have long : rule.truncate < values.length := by omega
      obtain ⟨kept, rest, keeps, place⟩ := keep_long positive long
      rw [keeps, place]
      cases values with
      | nil => simp at place
      | cons first others =>
        simp only [if_pos none_]
        constructor
        · intro same
          exact Or.inr (Or.inr ⟨first, kept, rfl, rfl, same⟩)
        · intro holds
          obtain few | few | ⟨_, _, isFirst, isKept, same⟩ := holds
          · omega
          · omega
          · cases isFirst
            cases isKept
            exact same

theorem forged_value : ¬ ∀ (hs : Headers) (rule : XffRule) (peer : Bytes),
    getLogicalAddress (fun text => if text = ascii "1.1.1.1" ∨ text = ascii "2.2.2.2" then some text
      else none) hs rule peer =
    keptAddress (fun text => if text = ascii "1.1.1.1" ∨ text = ascii "2.2.2.2" then some text
      else none) hs rule peer := by
  intro holds
  have forged :=
    holds [(ascii "X-Forwarded-For", ascii "1.1.1.1, 2.2.2.2")] { truncate := 1 } (ascii "10.0.0.1")
  revert forged
  decide +kernel

end
end PushpinProxyUtil
