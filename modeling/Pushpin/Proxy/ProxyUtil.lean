import Pushpin.Core.HttpHeaders
import Pushpin.Foundations.Sweeping

/-!
The headers of a request on its way to the origin, and the address of the client. Tokens
and addresses are made and read by code that is not here.
-/
namespace PushpinHttpHeaders
open PushpinVariant (Bytes)
open Sweeping

/-- `qstrnicmp` for the length of a text: whether a name starts with it. -/
def hasPrefix (name start : Bytes) : Bool :=
  ((name.takeWhile (· ≠ 0)).take start.length).map lower = start.map lower

namespace Headers

def takeAll (hs : Headers) (key : Bytes) (split : Bool) : List Bytes × Headers :=
  sweep (fun h => sameName h.1 key)
    (fun h => if sameName h.1 key then (if split then headerSplit h.2 else [h.2]) else []) hs

def removeAll (hs : Headers) (key : Bytes) : Headers :=
  (sweep (fun h => sameName h.1 key) (fun _ => ([] : List Unit)) hs).2

def removePrefixed (hs : Headers) (start : Bytes) : Headers :=
  (sweep (fun h => hasPrefix h.1 start) (fun _ => ([] : List Unit)) hs).2

def join (values : List Bytes) : Bytes := (ascii ", ").intercalate values

end Headers
end PushpinHttpHeaders

namespace PushpinProxyUtil
open PushpinVariant (Bytes)
open PushpinHttpHeaders

structure XffRule where
  truncate : Int := -1
  append : Bool := false
deriving DecidableEq, Repr

/-- What a request's headers are made with, besides the request. The peer's address is in
    its text form, and a null key is `none`. -/
structure Arguments (Key : Type) where
  trustedClient : Bool
  origHeaders : Bool
  sigIss : Bytes
  sigKey : Option Key
  acceptXForwardedProtocol : Bool
  useXForwardedProto : Bool
  useXForwardedProtocol : Bool
  xffTrustedRule : XffRule
  xffRule : XffRule
  origHeadersNeedMark : List Bytes
  acceptPushpinRoute : Bool
  cdnLoop : Bytes
  peerAddress : Bytes
  sid : Bytes
  lastIds : List (Bytes × Bytes)
  gripEnabled : Bool
  intReq : Bool
  scheme : Bytes

def marker : Bytes := ascii "eb9bf0f5-"

section
variable {Key : Type}
-- a signed token for an issuer, at the time of the request
variable (makeToken : Bytes → Key → Bytes)
-- whether the version has the filters that it was built with from 2 on
variable (versionGe2 : Bool)
variable (a : Arguments Key)

def markOriginals (hs : Headers) : Headers :=
  if !a.trustedClient && a.origHeaders then
    let (origHeaders, hs) := Sweeping.sweep (fun h => hasPrefix h.1 marker)
      (fun h =>
        if hasPrefix h.1 marker then [h]
        else if a.origHeadersNeedMark.any fun i => sameName h.1 i then []
        else [(marker ++ h.1, h.2)]) hs
    hs ++ origHeaders
  else if !a.origHeaders then hs.removePrefixed marker
  else hs

def dropHopHeaders (hs : Headers) : Headers :=
  [ascii "Connection", ascii "Keep-Alive", ascii "Accept-Encoding", ascii "Content-Encoding",
    ascii "Transfer-Encoding", ascii "Expect"].foldl Headers.removeAll hs

def dropRoute (hs : Headers) : Headers :=
  if a.acceptPushpinRoute then hs.removeAll (ascii "Pushpin-Route") else hs

def addCdnLoop (hs : Headers) : Headers :=
  if a.cdnLoop = [] then hs
  else
    let (values, hs) := hs.takeAll (ascii "CDN-Loop") true
    hs ++ [(ascii "CDN-Loop", Headers.join (values ++ [a.cdnLoop]))]

def dropGrip (hs : Headers) : Headers :=
  if !a.trustedClient && !a.intReq then hs.removePrefixed (ascii "Grip-") else hs

def applyGripSig (hs : Headers) : Headers :=
  match a.sigKey with
  | none => hs
  | some key =>
    if a.sigIss = [] then hs
    else
      let token := makeToken a.sigIss key
      if token = [] then hs else hs.removeAll (ascii "Grip-Sig") ++ [(ascii "Grip-Sig", token)]

def features : List Bytes :=
  [ascii "status", ascii "session", ascii "link:next", ascii "link:gone", ascii "filter:skip-self",
    ascii "filter:skip-users", ascii "filter:require-sub", ascii "filter:build-id",
      ascii "filter:var-subst"] ++
  if versionGe2 then [ascii "filter:http-check", ascii "filter:http-modify"] else []

def addGrip (hs : Headers) : Headers :=
  if !a.trustedClient && a.gripEnabled then
    let hs := applyGripSig makeToken a hs
    let hs := hs.removeAll (ascii "Grip-Feature") ++
      [(ascii "Grip-Feature", Headers.join (features versionGe2))]
    let hs := if a.sid = [] then hs else hs.removeAll (ascii "Grip-Session-Id") ++
      [(ascii "Grip-Session-Id", a.sid)]
    hs ++ a.lastIds.map fun (channel, id) =>
      (ascii "Grip-Last", channel ++ ascii "; last-id=" ++ id)
  else hs

def addProto (hs : Headers) : Headers :=
  let hs := if a.acceptXForwardedProtocol || a.useXForwardedProto || a.useXForwardedProtocol then
      (hs.removeAll (ascii "X-Forwarded-Proto")).removeAll (ascii "X-Forwarded-Protocol")
    else hs
  if (a.useXForwardedProto || a.useXForwardedProtocol) &&
    (a.scheme = ascii "https" || a.scheme = ascii "wss") then
    hs ++ (if a.useXForwardedProto then [(ascii "X-Forwarded-Proto", a.scheme)] else []) ++
      if a.useXForwardedProtocol then [(ascii "X-Forwarded-Protocol", a.scheme)] else []
  else hs

def XffRule.keep (xr : XffRule) (xffValues : List Bytes) : List Bytes :=
  if 0 ≤ xr.truncate then xffValues.drop (max (xffValues.length - xr.truncate) 0).toNat
    else xffValues

def addForwarded (hs : Headers) : Headers :=
  let xr := if a.trustedClient then a.xffTrustedRule else a.xffRule
  let (xffValues, hs) := hs.takeAll (ascii "X-Forwarded-For") true
  let xffValues := xr.keep xffValues
  let xffValues := if xr.append then xffValues ++ [a.peerAddress] else xffValues
  if xffValues = [] then hs else hs ++ [(ascii "X-Forwarded-For", Headers.join xffValues)]

def manipulateRequestHeaders (hs : Headers) : Headers :=
  addForwarded a (addProto a (addGrip makeToken versionGe2 a
    (dropGrip a (addCdnLoop a (dropRoute a (dropHopHeaders (markOriginals a hs)))))))

end

section
variable {Address : Type}
-- the address of a text, if it is one
variable (setAddress : Bytes → Option Address)

def getLogicalAddress (hs : Headers) (xffRule : XffRule) (peerAddress : Address) : Address :=
  match hs.getAll (ascii "X-Forwarded-For") with
  | [] => peerAddress
  | first :: _ => if xffRule.truncate ≠ 0 then (setAddress first).getD peerAddress else peerAddress

end
end PushpinProxyUtil
