import Pushpin.Proxy.ProxyUtil

namespace PushpinHttpHeaders
open PushpinVariant (Bytes)
open Sweeping

namespace Headers

theorem removeAll_eq (hs : Headers) (key : Bytes) :
    hs.removeAll key = hs.filter fun h => !sameName h.1 key := by
  rw [removeAll, sweep_eq]

theorem removePrefixed_eq (hs : Headers) (start : Bytes) :
    hs.removePrefixed start = hs.filter fun h => !hasPrefix h.1 start := by
  rw [removePrefixed, sweep_eq]

theorem getAll_eq (hs : Headers) (key : Bytes) :
    hs.getAll key = hs.flatMap fun h => if sameName h.1 key then headerSplit h.2 else [] := by
  rw [getAll]
  induction hs with
  | nil => rfl
  | cons h hs ih =>
    rw [List.flatMap_cons, ← ih, List.filter_cons]
    split
    · rw [List.flatMap_cons]
    · rfl

theorem takeAll_eq (hs : Headers) (key : Bytes) :
    hs.takeAll key true = (hs.getAll key, hs.removeAll key) := by
  rw [takeAll, sweep_eq, removeAll_eq, getAll_eq]
  rfl

end Headers

theorem hasPrefix_of_sameName {name key : Bytes} (same : sameName name key = true) (start : Bytes) :
    hasPrefix name start = hasPrefix key start := by
  have lowered := of_decide_eq_true same
  rw [hasPrefix, hasPrefix, List.map_take, List.map_take, lowered]

theorem sameName_of_hasPrefix {name start key : Bytes}
    (starts : hasPrefix name start ≠ hasPrefix key start) : sameName name key = false := by
  by_contra same
  exact starts (hasPrefix_of_sameName (Bool.not_eq_false _ ▸ same) start)

def Apart (p : Bytes × Bytes → Bool) (key : Bytes) : Prop := ∀ h, sameName h.1 key = true →
    p h = false

variable {p : Bytes × Bytes → Bool} {key : Bytes}

theorem sameName_self (name : Bytes) : sameName name name = true := decide_eq_true rfl

theorem Apart.name (apart : Apart p key) {h : Bytes × Bytes} (kind : p h = true) :
    sameName h.1 key = false := by
  by_contra same
  rw [apart h (Bool.not_eq_false _ ▸ same)] at kind
  cases kind

theorem keeps_removeAll (apart : Apart p key) : Keeps p fun hs => Headers.removeAll hs key := by
  have same : (fun hs => Headers.removeAll hs key) = List.filter fun h => !sameName h.1 key :=
    funext fun hs => Headers.removeAll_eq hs key
  rw [same]
  exact keeps_filter fun h kind => by simp [apart.name kind]

theorem keeps_removeAlls (keys : List Bytes) (apart : ∀ key ∈ keys, Apart p key) :
    Keeps p fun hs => keys.foldl Headers.removeAll hs := by
  induction keys with
  | nil => exact keeps_id
  | cons key keys ih =>
    apply (ih fun other member => apart other (List.mem_cons_of_mem _ member)).comp
    exact keeps_removeAll (apart key List.mem_cons_self)

theorem keeps_replace (apart : Apart p key) (value : Headers → Bytes) :
    Keeps p fun hs => Headers.removeAll hs key ++ [(key, value hs)] := by
  apply (keeps_removeAll apart).append
  intro hs h member
  rw [List.mem_singleton.mp member]
  exact apart _ (sameName_self key)

end PushpinHttpHeaders

namespace PushpinProxyUtil
open PushpinVariant (Bytes)
open PushpinHttpHeaders
open Sweeping

variable {Key : Type} (a : Arguments Key) {p : Bytes × Bytes → Bool}

theorem addProto_keeps (proto : Apart p (ascii "X-Forwarded-Proto"))
    (protocol : Apart p (ascii "X-Forwarded-Protocol")) : Keeps p (addProto a) := by
  have removed : Keeps p fun hs =>
      (if a.acceptXForwardedProtocol || a.useXForwardedProto || a.useXForwardedProtocol then
      (Headers.removeAll hs (ascii "X-Forwarded-Proto")).removeAll (ascii "X-Forwarded-Protocol")
        else hs) := by
    split
    · exact (keeps_removeAll protocol).comp (keeps_removeAll proto)
    · exact keeps_id
  unfold addProto
  dsimp only
  split
  · apply Keeps.append
    · apply removed.append
      intro _ h member
      split at member
      · rw [List.mem_singleton.mp member]
        exact proto _ (sameName_self _)
      · cases member
    · intro _ h member
      split at member
      · rw [List.mem_singleton.mp member]
        exact protocol _ (sameName_self _)
      · cases member
  · exact removed

end PushpinProxyUtil
