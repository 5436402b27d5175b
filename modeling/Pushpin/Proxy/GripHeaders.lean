import Pushpin.Proxy.HeaderFrames

namespace PushpinProxyUtil
open PushpinVariant (Bytes)
open PushpinHttpHeaders
open Sweeping

def isGrip (h : Bytes × Bytes) : Bool := hasPrefix h.1 (ascii "Grip-")

theorem removeAll_respects (key : Bytes) : Respects isGrip fun hs => Headers.removeAll hs key := by
  have same : (fun hs => Headers.removeAll hs key) = List.filter fun h => !sameName h.1 key :=
    funext fun hs => Headers.removeAll_eq hs key
  rw [same]
  exact respects_filter _

theorem removeAlls_respects (keys : List Bytes) :
    Respects isGrip fun hs => keys.foldl Headers.removeAll hs := by
  induction keys with
  | nil => exact respects_id
  | cons key keys ih => exact ih.comp (removeAll_respects key)

section
variable {Key : Type} (a : Arguments Key)

theorem dropRoute_respects : Respects isGrip (dropRoute a) := by
  unfold dropRoute
  cases a.acceptPushpinRoute with
  | false => exact respects_id
  | true => exact removeAll_respects _

theorem addCdnLoop_respects : Respects isGrip (addCdnLoop a) := by
  unfold addCdnLoop
  by_cases none_ : a.cdnLoop = []
  · simp only [none_, if_true]
    exact respects_id
  · simp only [none_, if_false, Headers.takeAll, sweep_eq]
    have nothing : ∀ h : Bytes × Bytes, isGrip h = true →
        (if sameName h.1 (ascii "CDN-Loop") then if true then headerSplit h.2 else [h.2] else []) =
          [] := by
      intro h isHidden
      have other : sameName h.1 (ascii "CDN-Loop") = false := by
        apply @sameName_of_hasPrefix _ (ascii "Grip-")
        rw [show hasPrefix h.1 (ascii "Grip-") = true from isHidden]
        decide
      rw [other]
      rfl
    have visible : ∀ values : List Bytes,
        ∀ h ∈ [(ascii "CDN-Loop", Headers.join (values ++ [a.cdnLoop]))], isGrip h = false := by
      intro values h member
      rw [List.mem_singleton.mp member]
      change hasPrefix (ascii "CDN-Loop") (ascii "Grip-") = false
      decide
    exact @respects_collect _ _ _ _ _ (fun values =>
      [(ascii "CDN-Loop", Headers.join (values ++ [a.cdnLoop]))]) nothing visible

theorem markOriginals_respects (plain : a.origHeaders = false) :
    Respects isGrip (markOriginals a) := by
  unfold markOriginals
  simp only [plain, Bool.and_false, Bool.false_eq_true, if_false, Bool.not_false, if_true]
  have same : (fun hs => Headers.removePrefixed hs marker) = List.filter fun h =>
      !hasPrefix h.1 marker :=
    funext fun hs => Headers.removePrefixed_eq hs marker
  rw [same]
  exact respects_filter _

theorem beforeGrip_respects (plain : a.origHeaders = false) :
    Respects isGrip fun hs => addCdnLoop a (dropRoute a (dropHopHeaders (markOriginals a hs))) := by
  have hops : Respects isGrip dropHopHeaders := removeAlls_respects _
  apply (addCdnLoop_respects a).comp
  apply (dropRoute_respects a).comp
  exact hops.comp (markOriginals_respects a plain)

section
variable (untrusted : a.trustedClient = false) (external : a.intReq = false) (hs : Headers)
include untrusted external hs

theorem dropGrip_eq : dropGrip a hs = shown isGrip hs := by
  rw [dropGrip, untrusted, external]
  exact Headers.removePrefixed_eq hs _

theorem dropGrip_clear : ∀ h ∈ dropGrip a hs, isGrip h = false := by
  intro h member
  rw [dropGrip_eq a untrusted external] at member
  simpa using (List.mem_filter.mp member).2

end

variable (makeToken : Bytes → Key → Bytes) (versionGe2 : Bool)

section
variable {front : Headers} (clear : ∀ h ∈ front, isGrip h = false)
include clear

theorem removeAll_append {key : Bytes}
    (grip : hasPrefix key (ascii "Grip-") = true) (hs : Headers) :
    Headers.removeAll (front ++ hs) key = front ++ hs.removeAll key := by
  have kept : front.filter (fun h => !sameName h.1 key) = front := by
    rw [List.filter_eq_self]
    intro h member
    have other : sameName h.1 key = false := by
      apply @sameName_of_hasPrefix _ (ascii "Grip-")
      rw [grip, show hasPrefix h.1 (ascii "Grip-") = false from clear h member]
      decide
    rw [other]
    rfl
  rw [Headers.removeAll_eq, Headers.removeAll_eq, List.filter_append, kept]

theorem applyGripSig_append (hs : Headers) :
    applyGripSig makeToken a (front ++ hs) = front ++ applyGripSig makeToken a hs := by
  unfold applyGripSig
  cases a.sigKey with
  | none => rfl
  | some key =>
    dsimp only
    rw [removeAll_append clear (by decide), List.append_assoc]
    split
    · rfl
    · split <;> rfl

theorem addGrip_append (hs : Headers) :
    addGrip makeToken versionGe2 a (front ++ hs) = front ++ addGrip makeToken versionGe2 a hs := by
  unfold addGrip
  split
  · dsimp only
    rw [applyGripSig_append a makeToken clear, removeAll_append clear (by decide),
      List.append_assoc, removeAll_append clear (by decide)]
    split
    · rw [List.append_assoc]
    · rw [List.append_assoc, List.append_assoc, List.append_assoc]
  · rfl

end

theorem grips_replace {key : Bytes} (grip : hasPrefix key (ascii "Grip-") = true) {hs : Headers}
    (all : ∀ h ∈ hs, isGrip h = true) (value : Bytes) : ∀ h ∈ hs.removeAll key ++ [(key, value)],
    isGrip h = true := by
  intro h member
  rw [Headers.removeAll_eq] at member
  cases List.mem_append.mp member with
  | inl before => exact all h (List.mem_filter.mp before).1
  | inr added =>
    rw [List.mem_singleton.mp added]
    exact grip

theorem applyGripSig_grips {hs : Headers} (all : ∀ h ∈ hs, isGrip h = true) :
    ∀ h ∈ applyGripSig makeToken a hs, isGrip h = true := by
  unfold applyGripSig
  cases a.sigKey with
  | none => exact all
  | some key =>
    dsimp only
    split
    · exact all
    · split
      · exact all
      · exact grips_replace (by decide) all _

theorem addGrip_grips : ∀ h ∈ addGrip makeToken versionGe2 a [], isGrip h = true := by
  have signed := @applyGripSig_grips _ a makeToken [] (by simp)
  have featured :=
    @grips_replace (ascii "Grip-Feature") (by decide) _ signed (Headers.join (features versionGe2))
  unfold addGrip
  split
  · dsimp only
    intro h member
    cases List.mem_append.mp member with
    | inl before =>
      split at before
      · exact featured h before
      · exact grips_replace (by decide) featured _ h before
    | inr last =>
      obtain ⟨⟨channel, id⟩, _, rfl⟩ := List.mem_map.mp last
      change hasPrefix (ascii "Grip-Last") (ascii "Grip-") = true
      decide
  · simp

theorem apart_grip {key : Bytes} (other : hasPrefix key (ascii "Grip-") = false) :
    Apart isGrip key :=
  fun _ same => (hasPrefix_of_sameName same _).trans other

theorem addForwarded_grips (hs : Headers) :
    (addForwarded a hs).filter isGrip = hs.filter isGrip := by
  have apart := @apart_grip (ascii "X-Forwarded-For") (by decide)
  have either : ∀ values : List Bytes,
    List.filter isGrip (if values = [] then hs.removeAll (ascii "X-Forwarded-For")
      else hs.removeAll (ascii "X-Forwarded-For") ++
        [(ascii "X-Forwarded-For", Headers.join values)]) = hs.filter isGrip := by
    intro values
    split
    · exact keeps_removeAll apart hs
    · exact keeps_replace apart (fun _ => Headers.join values) hs
  unfold addForwarded
  rw [Headers.takeAll_eq]
  exact either _

/-- Requests that differ in headers with the prefix only go on alike, and the headers
    with the prefix that go on are the proxy's own. -/
theorem grip_headers_ignored (untrusted : a.trustedClient = false) (external : a.intReq = false)
    (plain : a.origHeaders = false) :
    (∀ hs hs', shown isGrip hs = shown isGrip hs' →
      manipulateRequestHeaders makeToken versionGe2 a hs = manipulateRequestHeaders makeToken
        versionGe2 a hs') ∧
    ∀ hs, (manipulateRequestHeaders makeToken versionGe2 a hs).filter isGrip =
      addGrip makeToken versionGe2 a [] := by
  refine ⟨fun hs hs' alike => ?_, fun hs => ?_⟩
  · have same := (beforeGrip_respects a plain).same alike
    rw [← dropGrip_eq a untrusted external, ← dropGrip_eq a untrusted external] at same
    rw [manipulateRequestHeaders, manipulateRequestHeaders, same]
  · have clear := dropGrip_clear a untrusted external
      (addCdnLoop a (dropRoute a (dropHopHeaders (markOriginals a hs))))
    have own : (addGrip makeToken versionGe2 a []).filter isGrip = addGrip makeToken versionGe2
        a [] :=
      List.filter_eq_self.mpr (addGrip_grips a makeToken versionGe2)
    have nothing : (dropGrip a
        (addCdnLoop a (dropRoute a (dropHopHeaders (markOriginals a hs))))).filter isGrip = [] :=
      List.filter_eq_nil_iff.mpr fun h member => by simp [clear h member]
    have split := addGrip_append a makeToken versionGe2 clear []
    rw [List.append_nil] at split
    rw [manipulateRequestHeaders, addForwarded_grips,
      addProto_keeps a (apart_grip (by decide)) (apart_grip (by decide)), split, List.filter_append,
        nothing, own,
      List.nil_append]

end

def exampleArguments : Arguments Unit where
  trustedClient := false
  origHeaders := false
  sigIss := ascii "pushpin"
  sigKey := some ()
  acceptXForwardedProtocol := true
  useXForwardedProto := true
  useXForwardedProtocol := false
  xffTrustedRule := {}
  xffRule := { append := true }
  origHeadersNeedMark := []
  acceptPushpinRoute := true
  cdnLoop := ascii "pushpin"
  peerAddress := ascii "10.0.0.1"
  sid := ascii "session"
  lastIds := [(ascii "news", ascii "4")]
  gripEnabled := true
  intReq := false
  scheme := ascii "https"

theorem grip_headers_ignored_example :
    manipulateRequestHeaders (fun iss _ => ascii "token of " ++ iss) true exampleArguments
        [(ascii "grip-SIG", ascii "forged"), (ascii "Host", ascii "example.com"),
        (ascii "Grip-Last", ascii "x")] =
      manipulateRequestHeaders (fun iss _ => ascii "token of " ++ iss) true exampleArguments
        [(ascii "Host", ascii "example.com")] :=
  (grip_headers_ignored exampleArguments (fun iss _ => ascii "token of " ++ iss) true rfl rfl rfl).1
    _ _ (by decide)

end PushpinProxyUtil
