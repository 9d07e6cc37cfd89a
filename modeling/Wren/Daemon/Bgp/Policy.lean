import Wren.Bgp.Path
import Wren.Bgp.Rpki
import Wren.Filter.Basic

/-! What the BGP speaker decides about single routes: building a path from an UPDATE, loop
checks, the default-deny and route-leak rules, and the filters of a neighbour. -/

namespace Wren.Daemon.Bgp
open Wren.Core Wren.Bgp

inductive PeerType where
  | ibgp
  | confed
  | ebgp
deriving DecidableEq

inductive BgpRole where
  | provider
  | routeServer
  | routeServerClient
  | customer
  | peer
deriving DecidableEq

def BgpRole.complement : BgpRole → BgpRole
  | provider => customer
  | customer => provider
  | routeServer => routeServerClient
  | routeServerClient => routeServer
  | peer => peer

/-- The configured properties of a neighbour. -/
structure PeerProps where
  rrClient : Bool
  peerType : PeerType
  maxPrefix : Option UInt32
  requirePolicy : Bool
  role : Option BgpRole
deriving DecidableEq

/-- What the speaker knows about itself. -/
structure Local where
  localAs : UInt32
  routerId : Ipv4Addr
  clusterId : Ipv4Addr
  confedId : Option UInt32
  nextHop6 : Option Ipv6Addr
deriving DecidableEq

/-- The AS presented to true external peers. -/
def Local.externalAs (loc : Local) : UInt32 := loc.confedId.getD loc.localAs

/-- The session facts a received UPDATE is tagged with. -/
structure PeerFacts where
  addr : IpAddr
  asn : UInt32
  id : Ipv4Addr
  fromEbgp : Bool
  fromConfed : Bool
  fromClient : Bool
deriving DecidableEq

/-- The path an UPDATE describes, before its AS4_PATH is merged in. -/
def readAttribute (s : Path × Option (List AsPathSegment)) (a : PathAttribute) :
    Path × Option (List AsPathSegment) :=
  let (p, as4) := s
  match a with
  | .origin o => ({ p with origin := o }, as4)
  | .asPath segs => ({ p with asPath := segs }, as4)
  | .as4Path segs => (p, some segs)
  | .multiExitDisc m => ({ p with med := m }, as4)
  | .localPref lp => ({ p with localPref := lp }, as4)
  | .communities c => ({ p with communities := c }, as4)
  | .largeCommunities c => ({ p with largeCommunities := c }, as4)
  | .extendedCommunities c => ({ p with extCommunities := c }, as4)
  | .originatorId id => ({ p with originatorId := some id }, as4)
  | .clusterList ids => ({ p with clusterList := ids }, as4)
  | .prefixSid srv6 _ => ({ p with srv6Sid := srv6.head?.bind fun t => t.sids.head? }, as4)
  | .onlyToCustomer asn => ({ p with otc := some asn }, as4)
  | .unknown flags typeCode value =>
    if flags &&& flagOptional ≠ 0 ∧ flags &&& flagTransitive ≠ 0 then
      ({ p with passThrough := p.passThrough ++ [.unknown flags typeCode value] }, as4)
    else (p, as4)
  | _ => (p, as4)

def buildPath (update : Update) (nextHop : IpAddr) (nextHopIface : Option String) (peer : PeerFacts) :
    Path :=
  let start : Path :=
    { origin := .incomplete, asPath := [], nextHop, nextHopIface, localPref := defaultLocalPref,
      med := 0, fromEbgp := peer.fromEbgp, fromConfed := peer.fromConfed, peerAs := peer.asn,
      igpMetric := 0, peerId := peer.id, peerAddr := peer.addr, fromClient := peer.fromClient,
      originatorId := none, clusterList := [], communities := [], largeCommunities := [],
      extCommunities := [], srv6Sid := none, otc := none, passThrough := [] }
  let (p, as4) := update.attributes.foldl readAttribute (start, none)
  { p with
    asPath := as4.elim p.asPath (reconstructAsPath p.asPath)
    -- LOCAL_PREF does not cross a true external boundary
    localPref := if peer.fromEbgp then defaultLocalPref else p.localPref }

theorem foldl_readAttribute_frame (l : List PathAttribute) (s : Path × Option (List AsPathSegment)) :
    (l.foldl readAttribute s).1.peerAddr = s.1.peerAddr ∧ (l.foldl readAttribute s).1.nextHop = s.1.nextHop := by
  induction l generalizing s with
  | nil => exact ⟨rfl, rfl⟩
  | cons a l ih =>
    have hone : (readAttribute s a).1.peerAddr = s.1.peerAddr ∧ (readAttribute s a).1.nextHop = s.1.nextHop := by
      cases a <;> simp only [readAttribute, and_self]
      split_ifs <;> simp
    obtain ⟨hpeer, hnh⟩ := ih (readAttribute s a)
    exact ⟨hpeer.trans hone.1, hnh.trans hone.2⟩

@[simp] theorem buildPath_peerAddr (u : Update) (ip : IpAddr) (iface : Option String) (facts : PeerFacts) :
    (buildPath u ip iface facts).peerAddr = facts.addr := (foldl_readAttribute_frame u.attributes _).1

@[simp] theorem buildPath_nextHop (u : Update) (ip : IpAddr) (iface : Option String) (facts : PeerFacts) :
    (buildPath u ip iface facts).nextHop = ip := (foldl_readAttribute_frame u.attributes _).2

def otcFromUpdate (update : Update) : Option UInt32 :=
  update.attributes.findSome? fun
    | .onlyToCustomer v => some v
    | _ => none

/-- A true external session without a policy in this direction, where one is required. -/
def rfc8212Deny (requirePolicy fromEbgp hasPolicy : Bool) : Bool :=
  requirePolicy && fromEbgp && !hasPolicy

/-- Whether reachability is a route leak, and the OTC value to stamp on it if not. -/
def otcIngress (remoteRole : Option BgpRole) (otcIn : Option UInt32) (peerAs : UInt32) :
    Bool × Option UInt32 :=
  match remoteRole, otcIn with
  | none, _ => (false, none)
  | some role, some v =>
    (role = .customer ∨ role = .routeServerClient ∨ (role = .peer ∧ v ≠ peerAs), none)
  | some role, none =>
    (false, if role = .provider ∨ role = .peer ∨ role = .routeServer then some peerAs else none)

def isAsPathLoop (update : Update) (localAs : UInt32) : Bool :=
  update.attributes.any fun
    | .asPath segs => segs.any fun s => !s.isConfederation && s.asns.contains localAs
    | _ => false

def isConfedLoop (update : Update) (memberAs : UInt32) : Bool :=
  update.attributes.any fun
    | .asPath segs => segs.any fun s => s.isConfederation && s.asns.contains memberAs
    | _ => false

def isReflectionLoop (update : Update) (routerId clusterId : Ipv4Addr) : Bool :=
  update.attributes.any fun
    | .originatorId id => id == routerId
    | .clusterList ids => ids.contains clusterId
    | _ => false

def baseNextHop (update : Update) : Option Ipv4Addr :=
  update.attributes.findSome? fun
    | .nextHop nh => some nh
    | _ => none

/-- The next hop to install and whether it is link-local, if the field can be read. -/
def installNextHop (field : List UInt8) : Option (Ipv6Addr × Bool) :=
  (decodeV6NextHop field).map fun
    | (_, some ll) => (ll, true)
    | (glob, none) => (glob, false)

def mpReachV6 (update : Update) : Option (Ipv6Addr × List Prefix × Bool) :=
  update.attributes.findSome? fun
    | .mpReachNlri afi _ field nlri =>
      if afi = afiIpv6 then (installNextHop field).map fun (nh, ll) => (nh, nlri, ll) else none
    | _ => none

/-- IPv4 networks with an IPv6 next hop. -/
def mpReachV4OverV6 (update : Update) : Option (Ipv6Addr × List Prefix × Bool) :=
  update.attributes.findSome? fun
    | .mpReachNlri afi safi field nlri =>
      if afi = afiIpv4 ∧ safi = safiUnicast ∧ 16 ≤ field.length then
        (installNextHop field).map fun (nh, ll) => (nh, nlri, ll)
      else none
    | _ => none

def mpUnreachV6 (update : Update) : List Prefix :=
  (update.attributes.findSome? fun
    | .mpUnreachNlri afi _ withdrawn => if afi = afiIpv6 then some withdrawn else none
    | _ => none).getD []

/-- The view of a path that a filter works on. -/
def pathToRoute (p : Prefix) (path : Path) : Route :=
  { Route.new p .bgp [] path.med with
    preference := path.localPref
    communities := path.communities
    largeCommunities := path.largeCommunities
    extCommunities := path.extCommunities }

/-- The path as a neighbour's filter lets it through. Without a filter it passes as it is. -/
def filterPath (filter : Option Filter) (p : Prefix) (path : Path) : Option Path :=
  match filter with
  | none => some path
  | some f =>
    (f.apply (pathToRoute p path)).accepted.map fun modified =>
      { path with
        med := modified.metric
        localPref := modified.preference
        communities := modified.communities
        largeCommunities := modified.largeCommunities
        extCommunities := modified.extCommunities }

/-- A filter decides on the metrics and the communities, and leaves the rest of a path as it is. -/
theorem filterPath_frame {filter : Option Filter} {p : Prefix} {path q : Path} (h : filterPath filter p path = some q) :
    q.peerAddr = path.peerAddr ∧ q.asPath = path.asPath ∧ q.peerAs = path.peerAs ∧ q.otc = path.otc := by
  cases filter with
  | none =>
    cases h
    exact ⟨rfl, rfl, rfl, rfl⟩
  | some f =>
    obtain ⟨modified, -, rfl⟩ := Option.map_eq_some_iff.mp h
    exact ⟨rfl, rfl, rfl, rfl⟩

def noExport : UInt32 := 0xffffff01
def noAdvertise : UInt32 := 0xffffff02
def noExportSubconfed : UInt32 := 0xffffff03

/-- What the well-known communities allow. -/
def shouldAdvertise (communities : List UInt32) (toType : PeerType) : Bool :=
  if communities.contains noAdvertise then false
  else
    match toType with
    | .ibgp => true
    | .confed => !communities.contains noExportSubconfed
    | .ebgp => !communities.contains noExport && !communities.contains noExportSubconfed

/-- Never back to where a route came from, and from a non-client interior peer only to clients and
non-interior peers. -/
def shouldPropagate (path : Path) (toType : PeerType) (toRrClient : Bool) (toPeer : IpAddr) : Bool :=
  if path.peerAddr = toPeer then false
  else if path.fromEbgp || path.fromConfed || path.fromClient || toRrClient || toType != .ibgp then
    shouldAdvertise path.communities toType
  else false

end Wren.Daemon.Bgp
