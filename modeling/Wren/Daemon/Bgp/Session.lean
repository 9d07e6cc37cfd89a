import Wren.Daemon.Bgp.Policy
import Wren.Lib.Replica

/-! What a session writes to its peer for the commands of the central task, and the routes the
peer holds from it. -/

namespace Wren.Daemon.Bgp
open Wren.Core Wren.Bgp Replica

structure OriginRoute where
  pfx : Prefix
  communities : List UInt32
  largeCommunities : List (UInt32 × UInt32 × UInt32)
  extCommunities : List (Vector UInt8 8)
  atomicAggregate : Bool
deriving DecidableEq

/-- A best path of the Loc-RIB on its way to a peer. -/
structure PropRoute where
  pfx : Prefix
  path : Path
deriving DecidableEq

structure AddPathRoute where
  pfx : Prefix
  pathId : UInt32
  path : Path
deriving DecidableEq

inductive SessionCmd where
  | advertise (routes : List OriginRoute)
  | withdraw (prefixes : List Prefix)
  | propagate (routes : List PropRoute)
  | withdrawPropagated (prefixes : List Prefix)
  | advertiseAddPath (routes : List AddPathRoute)
  | withdrawAddPath (pfx : Prefix) (ids : List UInt32)
  | shutdown
  | ceaseDeconfigured
  | ceaseOverLimit
  | bfdDown
  | sendRefresh
  | sendEndOfRib

/-- Only the tags of an originated route can be changed by a filter. -/
def filterOrigin (filter : Option Filter) (r : OriginRoute) : Option OriginRoute :=
  match filter with
  | none => some r
  | some f =>
    let route : Route :=
      { Route.new r.pfx .bgp [] 0 with
        communities := r.communities
        largeCommunities := r.largeCommunities
        extCommunities := r.extCommunities }
    (f.apply route).accepted.map fun modified =>
      { r with
        communities := modified.communities
        largeCommunities := modified.largeCommunities
        extCommunities := modified.extCommunities }

/-- An AS goes in front of a leading sequence, or starts one. -/
def prependAs (asn : UInt32) : List AsPathSegment → List AsPathSegment
  | .sequence v :: segs => .sequence (asn :: v) :: segs
  | segs => .sequence [asn] :: segs

def prependConfed (asn : UInt32) : List AsPathSegment → List AsPathSegment
  | .confedSequence v :: segs => .confedSequence (asn :: v) :: segs
  | segs => .confedSequence [asn] :: segs

def stripConfedSegments (segs : List AsPathSegment) : List AsPathSegment :=
  segs.filter fun s => !s.isConfederation

/-- An attribute the speaker did not understand travels on with the Partial bit set. -/
def reflagPassThrough (passThrough : List PathAttribute) : List PathAttribute :=
  passThrough.filterMap fun
    | .unknown flags typeCode value => some (.unknown (flags ||| flagPartial) typeCode value)
    | _ => none

def communityAttrs (communities : List UInt32) (large : List (UInt32 × UInt32 × UInt32))
    (ext : List (Vector UInt8 8)) : List PathAttribute :=
  let c : List PathAttribute := if communities = [] then [] else [.communities communities]
  let l : List PathAttribute := if large = [] then [] else [.largeCommunities large]
  let e : List PathAttribute := if ext = [] then [] else [.extendedCommunities ext]
  c ++ l ++ e

/-- An Established session: its configuration, what was negotiated and where it runs. -/
structure Session where
  loc : Local
  addr : IpAddr
  peerType : PeerType
  rrClient : Bool
  requirePolicy : Bool
  exportFilter : Option Filter
  role : Option BgpRole
  localAsOverride : Option UInt32
  localIp : Ipv4Addr
  link : Option (String × Ipv6Addr)
  fourOctet : Bool
  mpIpv6 : Bool
  extNexthopSend : Bool
  addPathSend : Bool

namespace Session
variable (s : Session)

def fromEbgp : Bool := s.peerType == .ebgp

def effExternalAs : UInt32 := s.localAsOverride.getD s.loc.externalAs

def remoteRole : Option BgpRole := s.role.map BgpRole.complement

/-- Toward a customer, a peer or a route-server client every route carries OTC. -/
def otcEgressAdd : Bool :=
  s.remoteRole == some .customer || s.remoteRole == some .peer || s.remoteRole == some .routeServerClient

/-- A route that carries OTC goes to no provider, peer or route server. -/
def otcEgressBlock : Bool :=
  s.remoteRole == some .provider || s.remoteRole == some .peer || s.remoteRole == some .routeServer

def exportDenyAll : Bool := rfc8212Deny s.requirePolicy s.fromEbgp s.exportFilter.isSome

def v6NextHopField (glob : Ipv6Addr) (nextHopSelf : Bool) : List UInt8 :=
  encodeV6NextHop glob (if nextHopSelf then s.link.map Prod.snd else none)

def basePathAttrs : List PathAttribute :=
  let ext := s.effExternalAs
  -- a 2-octet peer would read a large AS as AS_TRANS
  let as4 : List PathAttribute :=
    if !s.fourOctet && ext > 0xffff then [.as4Path [.sequence [ext]]] else []
  let path : List PathAttribute :=
    match s.peerType with
    | .ebgp => .asPath [.sequence [ext]] :: as4
    | .confed => [.asPath [.confedSequence [s.loc.localAs]], .localPref defaultLocalPref]
    | .ibgp => [.asPath [], .localPref defaultLocalPref]
  let otc : List PathAttribute := if s.otcEgressAdd then [.onlyToCustomer ext] else []
  .origin .igp :: (path ++ otc)

def asTrans : UInt32 := 23456

/-- What an address aggregate carries beside the attributes of every originated route. -/
def aggregateAttrs : List PathAttribute :=
  let aggAs := s.effExternalAs
  .atomicAggregate ::
    if !s.fourOctet && aggAs > 0xffff then
      [.aggregator asTrans s.loc.routerId, .as4Aggregator aggAs s.loc.routerId]
    else [.aggregator aggAs s.loc.routerId]

/-- An originated network with its attributes: next-hop-self, in the encoding the peer negotiated. -/
def sendOriginatedUpdate (attrs : List PathAttribute) (p : Prefix) : Option Update :=
  if p.isIpv4 then
    match s.extNexthopSend, s.loc.nextHop6 with
    | true, some nh6 =>
      some { attributes := attrs ++ [.mpReachNlri afiIpv4 safiUnicast (s.v6NextHopField nh6 true) [p]] }
    | _, _ => some { attributes := attrs ++ [.nextHop s.localIp], nlri := [p] }
  else
    match s.mpIpv6, s.loc.nextHop6 with
    | true, some nh6 =>
      some { attributes := attrs ++ [.mpReachNlri afiIpv6 safiUnicast (s.v6NextHopField nh6 true) [p]] }
    | _, _ => none

/-- The UPDATE for one originated route. Which routes of the same attributes share a message is not
observable to the peer and left out. -/
def advertiseOne (r : OriginRoute) : Option Update := do
  let r ← filterOrigin s.exportFilter r
  if shouldAdvertise r.communities s.peerType then
    s.sendOriginatedUpdate
      (s.basePathAttrs ++ (if r.atomicAggregate then s.aggregateAttrs else []) ++
        communityAttrs r.communities r.largeCommunities r.extCommunities) r.pfx
  else none

def advertise (routes : List OriginRoute) : List Update :=
  if s.exportDenyAll then [] else routes.filterMap s.advertiseOne

/-- IPv4 in the Withdrawn Routes field, IPv6 in MP_UNREACH_NLRI. -/
def withdraw (prefixes : List Prefix) : List Update :=
  let v4 := prefixes.filter fun p => p.isIpv4
  let v6 := prefixes.filter fun p => !p.isIpv4
  (if v4 = [] then [] else [{ withdrawn := v4 }]) ++
    if v6 ≠ [] ∧ s.mpIpv6 = true then
      [{ attributes := [.mpUnreachNlri afiIpv6 safiUnicast v6] }]
    else []

def propagatedBaseAttrs (path : Path) : List PathAttribute :=
  let med : List PathAttribute := if path.med ≠ 0 then [.multiExitDisc path.med] else []
  -- reflection, not the first introduction of the route
  let reflection : List PathAttribute :=
    if !path.fromEbgp && !path.fromConfed then
      [.originatorId (path.originatorId.getD path.peerId), .clusterList (s.loc.clusterId :: path.clusterList)]
    else []
  let interior : List PathAttribute := .localPref path.localPref :: med
  let attrs : List PathAttribute :=
    match s.peerType with
    | .ebgp => [.asPath (prependAs s.effExternalAs (stripConfedSegments path.asPath))]
    | .confed => .asPath (prependConfed s.loc.localAs path.asPath) :: interior
    | .ibgp => .asPath path.asPath :: (interior ++ reflection)
  .origin path.origin :: (attrs ++ communityAttrs path.communities path.largeCommunities path.extCommunities ++
    reflagPassThrough path.passThrough)

/-- The UPDATE that carries a learned path to this peer, with next-hop-self only toward a true
external one. -/
def sendPropagated (attrs : List PathAttribute) (p : Prefix) (nextHop : IpAddr) : Option Update :=
  if p.isIpv4 then
    if s.fromEbgp then some { attributes := attrs ++ [.nextHop s.localIp], nlri := [p] }
    else
      match nextHop with
      | .v4 nh => some { attributes := attrs ++ [.nextHop nh], nlri := [p] }
      | .v6 _ => none
  else if !s.mpIpv6 then none
  else
    let nh6 : Option Ipv6Addr :=
      if s.fromEbgp then s.loc.nextHop6
      else
        match nextHop with
        | .v6 nh => some nh
        | .v4 _ => none
    nh6.map fun nh =>
      { attributes := attrs ++ [.mpReachNlri afiIpv6 safiUnicast (s.v6NextHopField nh s.fromEbgp) [p]] }

/-- The UPDATE for one learned route, if it is eligible for this peer. -/
def propagateOne (p : Prefix) (path : Path) : Option Update :=
  if !shouldPropagate path s.peerType s.rrClient s.addr then none
  else if s.otcEgressBlock && path.otc.isSome then none
  else do
    let path ← filterPath s.exportFilter p path
    let otc := path.otc <|> if s.otcEgressAdd then some s.effExternalAs else none
    let attrs := s.propagatedBaseAttrs path ++ (otc.elim [] fun v => [.onlyToCustomer v])
    s.sendPropagated attrs p path.nextHop

def propagateRoutes (routes : List PropRoute) : List Update :=
  if s.exportDenyAll then [] else routes.filterMap fun r => s.propagateOne r.pfx r.path

/-- One path under its own identifier. The central task has already applied the export rules. -/
def advertiseAddPathOne (r : AddPathRoute) : Option Update :=
  if !r.pfx.isIpv4 then none
  else
    let nh : Option Ipv4Addr :=
      if s.fromEbgp then some s.localIp
      else
        match r.path.nextHop with
        | .v4 nh => some nh
        | .v6 _ => none
    nh.map fun nh =>
      { attributes := s.propagatedBaseAttrs r.path ++ [.nextHop nh], nlri := [r.pfx],
        nlriPathIds := [r.pathId] }

def withdrawAddPath (p : Prefix) (ids : List UInt32) : List Update :=
  if ids = [] ∨ p.isIpv4 = false then []
  else [{ withdrawn := ids.map fun _ => p, withdrawnPathIds := ids }]

/-- The UPDATEs with unicast routes that an Established session writes for a command. -/
def written : SessionCmd → List Update
  | .advertise routes => s.advertise routes
  | .withdraw prefixes => s.withdraw prefixes
  -- a session that sends ADD-PATH is driven by its own two commands
  | .propagate routes => if s.addPathSend then [] else s.propagateRoutes routes
  | .withdrawPropagated prefixes => if s.addPathSend then [] else s.withdraw prefixes
  | .advertiseAddPath routes => routes.filterMap s.advertiseAddPathOne
  | .withdrawAddPath p ids => withdrawAddPath p ids
  | _ => []

end Session

/-- The attributes an UPDATE gives its networks, without the networks themselves. -/
def describing (u : Update) : List PathAttribute :=
  u.attributes.map fun
    | .mpReachNlri afi safi nextHop _ => .mpReachNlri afi safi nextHop []
    | a => a

/-- The networks a path attribute makes reachable. -/
def reached : PathAttribute → List Prefix
  | .mpReachNlri _ _ _ nlri => nlri
  | _ => []

def unreached : PathAttribute → List Prefix
  | .mpUnreachNlri _ _ withdrawn => withdrawn
  | _ => []

/-- What an UPDATE does to the routes of a peer that receives it. -/
def changes (u : Update) : List (Delta Prefix (List PathAttribute)) :=
  ((u.withdrawn ++ u.attributes.flatMap unreached).map fun p => ⟨p, none⟩) ++
    (u.nlri ++ u.attributes.flatMap reached).map fun p => ⟨p, some (describing u)⟩

namespace Session
variable (s : Session)

/-- The changes a command makes at the peer. -/
def deltas (c : SessionCmd) : List (Delta Prefix (List PathAttribute)) :=
  (s.written c).flatMap changes

/-- The routes the peer holds once the session has worked through its commands. -/
def holds (log : List SessionCmd) : Prefix → Option (List PathAttribute) :=
  replay (fun _ => none) (log.flatMap s.deltas)

/-- The attributes a learned route leaves with, if it is eligible for this peer. -/
def outgoing (p : Prefix) (path : Path) : Option (List PathAttribute) :=
  if s.exportDenyAll then none else (s.propagateOne p path).map describing

/-- The same for an originated route. -/
def originating (r : OriginRoute) : Option (List PathAttribute) :=
  if s.exportDenyAll then none else (s.advertiseOne r).map describing

theorem holds_append_list (log cs : List SessionCmd) :
    s.holds (log ++ cs) = replay (s.holds log) (cs.flatMap s.deltas) := by
  rw [holds, List.flatMap_append, replay_append]
  rfl

theorem holds_append (log : List SessionCmd) (c : SessionCmd) :
    s.holds (log ++ [c]) = replay (s.holds log) (s.deltas c) := by
  rw [holds_append_list, List.flatMap_singleton]

/-- No attribute of the list names a network. -/
def Plain (attrs : List PathAttribute) : Prop :=
  attrs.flatMap reached = [] ∧ attrs.flatMap unreached = []

theorem Plain.append {l r : List PathAttribute} (hl : Plain l) (hr : Plain r) : Plain (l ++ r) := by
  simp [Plain, hl.1, hl.2, hr.1, hr.2]

theorem plain_communityAttrs (c : List UInt32) (large : List (UInt32 × UInt32 × UInt32))
    (ext : List (Vector UInt8 8)) : Plain (communityAttrs c large ext) := by
  unfold communityAttrs Plain
  dsimp only
  split_ifs <;> exact ⟨rfl, rfl⟩

theorem plain_reflagPassThrough (l : List PathAttribute) : Plain (reflagPassThrough l) := by
  have hall : ∀ a ∈ reflagPassThrough l, reached a = [] ∧ unreached a = [] := by
    intro a ha
    obtain ⟨b, -, hb⟩ := List.mem_filterMap.mp ha
    cases b <;> simp at hb
    rw [← hb]
    exact ⟨rfl, rfl⟩
  simp only [Plain, List.flatMap_eq_nil_iff]
  exact ⟨fun a ha => (hall a ha).1, fun a ha => (hall a ha).2⟩

theorem plain_basePathAttrs : Plain s.basePathAttrs := by
  unfold basePathAttrs
  cases s.peerType <;> dsimp only <;> split_ifs <;> exact ⟨rfl, rfl⟩

theorem plain_aggregateAttrs : Plain s.aggregateAttrs := by
  unfold aggregateAttrs
  dsimp only
  split_ifs <;> exact ⟨rfl, rfl⟩

theorem plain_propagatedBaseAttrs (path : Path) : Plain (s.propagatedBaseAttrs path) := by
  unfold propagatedBaseAttrs
  refine Plain.append (l := [_]) ⟨rfl, rfl⟩
    ((Plain.append ?_ (plain_communityAttrs _ _ _)).append (plain_reflagPassThrough _))
  cases s.peerType with
  | ebgp => exact ⟨rfl, rfl⟩
  | confed =>
    dsimp only
    split_ifs <;> exact ⟨rfl, rfl⟩
  | ibgp =>
    dsimp only
    split_ifs <;> exact ⟨rfl, rfl⟩

/-- A network in the base field of an UPDATE that names no other. -/
theorem changes_nlri {attrs : List PathAttribute} (h : Plain attrs) (nh : Ipv4Addr) (p : Prefix)
    (ids : List UInt32) :
    let u : Update := { attributes := attrs ++ [.nextHop nh], nlri := [p], nlriPathIds := ids }
    changes u = [⟨p, some (describing u)⟩] := by
  have hplain := h.append (r := [.nextHop nh]) ⟨rfl, rfl⟩
  simp [changes, hplain.1, hplain.2]

/-- The same in MP_REACH_NLRI. -/
theorem changes_mpReach {attrs : List PathAttribute} (h : Plain attrs) (afi : UInt16) (safi : UInt8)
    (field : List UInt8) (p : Prefix) :
    let u : Update := { attributes := attrs ++ [.mpReachNlri afi safi field [p]] }
    changes u = [⟨p, some (describing u)⟩] := by
  simp [changes, h.1, h.2, reached, unreached]

theorem changes_sendOriginatedUpdate {attrs : List PathAttribute} (h : Plain attrs) {p : Prefix}
    {u : Update} (hu : s.sendOriginatedUpdate attrs p = some u) :
    changes u = [⟨p, some (describing u)⟩] := by
  unfold sendOriginatedUpdate at hu
  split_ifs at hu with hv4
  · split at hu <;> cases hu
    · exact changes_mpReach h _ _ _ p
    · exact changes_nlri h _ p []
  · split at hu <;> cases hu
    exact changes_mpReach h _ _ _ p

theorem changes_sendPropagated {attrs : List PathAttribute} (h : Plain attrs) {p : Prefix}
    {nh : IpAddr} {u : Update} (hu : s.sendPropagated attrs p nh = some u) :
    changes u = [⟨p, some (describing u)⟩] := by
  unfold sendPropagated at hu
  split at hu
  · split at hu
    · cases hu
      exact changes_nlri h _ p []
    · split at hu <;> cases hu
      exact changes_nlri h _ p []
  · split at hu
    · cases hu
    · obtain ⟨nh, -, rfl⟩ := Option.map_eq_some_iff.mp hu
      exact changes_mpReach h _ _ _ p

/-- A route that is propagated passed all gates before its next hop is looked at. -/
theorem sendPropagated_of_propagateOne {p : Prefix} {path : Path} {u : Update}
    (hu : s.propagateOne p path = some u) :
    ∃ attrs nh, Plain attrs ∧ s.sendPropagated attrs p nh = some u := by
  unfold propagateOne at hu
  split at hu
  · cases hu
  · split at hu
    · cases hu
    · obtain ⟨out, -, hu⟩ := Option.bind_eq_some_iff.mp hu
      refine ⟨_, out.nextHop, (s.plain_propagatedBaseAttrs out).append ?_, hu⟩
      cases s.otcEgressAdd <;> cases out.otc <;> exact ⟨rfl, rfl⟩

theorem changes_propagateOne {p : Prefix} {path : Path} {u : Update} (hu : s.propagateOne p path = some u) :
    changes u = [⟨p, some (describing u)⟩] := by
  obtain ⟨attrs, nh, hplain, hu⟩ := s.sendPropagated_of_propagateOne hu
  exact s.changes_sendPropagated hplain hu

theorem pfx_of_filterOrigin {f : Option Filter} {r r' : OriginRoute} (h : filterOrigin f r = some r') :
    r'.pfx = r.pfx := by
  unfold filterOrigin at h
  cases f with
  | none => rw [Option.some.inj h]
  | some f =>
    obtain ⟨modified, -, rfl⟩ := Option.map_eq_some_iff.mp h
    rfl

theorem changes_advertiseOne {r : OriginRoute} {u : Update} (hu : s.advertiseOne r = some u) :
    changes u = [⟨r.pfx, some (describing u)⟩] := by
  unfold advertiseOne at hu
  obtain ⟨r', hr', hu⟩ := Option.bind_eq_some_iff.mp hu
  rw [← pfx_of_filterOrigin hr']
  split at hu
  · refine s.changes_sendOriginatedUpdate ((s.plain_basePathAttrs.append ?_).append
      (plain_communityAttrs _ _ _)) hu
    cases r'.atomicAggregate with
    | true => exact s.plain_aggregateAttrs
    | false => exact ⟨rfl, rfl⟩
  · cases hu

/-- UPDATEs that each set the attributes of one network. -/
theorem flatMap_changes {α : Type} (f : α → Option Update) (key : α → Prefix)
    (h : ∀ a u, f a = some u → changes u = [⟨key a, some (describing u)⟩]) (l : List α) :
    (l.filterMap f).flatMap changes =
      l.filterMap fun a => ((f a).map describing).map fun attrs => ⟨key a, some attrs⟩ := by
  induction l with
  | nil => rfl
  | cons a l ih =>
    cases hf : f a with
    | none => simp [hf, ih]
    | some u => simp [hf, ih, h a u hf]

theorem deltas_propagate (hap : s.addPathSend = false) (routes : List PropRoute) :
    s.deltas (.propagate routes) =
      routes.filterMap fun r => (s.outgoing r.pfx r.path).map fun attrs => ⟨r.pfx, some attrs⟩ := by
  unfold deltas written propagateRoutes outgoing
  rw [hap]
  cases s.exportDenyAll with
  | true => simp
  | false =>
    exact flatMap_changes (fun r : PropRoute => s.propagateOne r.pfx r.path) PropRoute.pfx
      (fun _ _ hu => s.changes_propagateOne hu) routes

theorem deltas_advertise (routes : List OriginRoute) :
    s.deltas (.advertise routes) =
      routes.filterMap fun r => (s.originating r).map fun attrs => ⟨r.pfx, some attrs⟩ := by
  unfold deltas written advertise originating
  cases s.exportDenyAll with
  | true => simp
  | false => exact flatMap_changes s.advertiseOne OriginRoute.pfx (fun _ _ hu => s.changes_advertiseOne hu) routes

theorem changes_withdraw (prefixes : List Prefix) :
    (s.withdraw prefixes).flatMap changes =
      ((prefixes.filter fun p => p.isIpv4) ++
        if s.mpIpv6 then prefixes.filter fun p => !p.isIpv4 else []).map fun p => ⟨p, none⟩ := by
  unfold withdraw
  cases s.mpIpv6 <;> by_cases h4 : prefixes.filter (fun p => p.isIpv4) = [] <;>
    by_cases h6 : prefixes.filter (fun p => !p.isIpv4) = [] <;>
    simp [h4, h6, changes, unreached, reached]

/-- A withdrawal reaches the peer unless it is of a family the peer did not negotiate. -/
theorem replay_withdraw (m : Prefix → Option (List PathAttribute)) (prefixes : List Prefix) (x : Prefix) :
    replay m ((s.withdraw prefixes).flatMap changes) x =
      if x ∈ prefixes ∧ (x.isIpv4 = true ∨ s.mpIpv6 = true) then none else m x := by
  rw [changes_withdraw, replay_clear]
  cases s.mpIpv6 <;> cases hx : x.isIpv4 <;> simp [hx]

theorem negotiated_of_originating {r : OriginRoute} (h : s.originating r ≠ none) :
    r.pfx.isIpv4 = true ∨ s.mpIpv6 = true := by
  unfold originating at h
  split_ifs at h
  · exact absurd rfl h
  · have hne : s.advertiseOne r ≠ none := fun hn => h (by rw [hn]; rfl)
    obtain ⟨u, hu⟩ := Option.ne_none_iff_exists'.mp hne
    unfold advertiseOne at hu
    obtain ⟨r', hr', hu⟩ := Option.bind_eq_some_iff.mp hu
    rw [← pfx_of_filterOrigin hr']
    split at hu
    · unfold sendOriginatedUpdate at hu
      split at hu
      · exact Or.inl ‹_›
      · split at hu
        · exact Or.inr ‹_›
        · cases hu
    · cases hu

theorem negotiated_of_outgoing {p : Prefix} (path : Path) (h : s.outgoing p path ≠ none) :
    p.isIpv4 = true ∨ s.mpIpv6 = true := by
  unfold outgoing at h
  split_ifs at h
  · exact absurd rfl h
  · have hne : s.propagateOne p path ≠ none := fun hn => h (by rw [hn]; rfl)
    obtain ⟨u, hu⟩ := Option.ne_none_iff_exists'.mp hne
    obtain ⟨attrs, nh, -, hu⟩ := s.sendPropagated_of_propagateOne hu
    unfold sendPropagated at hu
    split at hu
    · exact Or.inl ‹_›
    · cases hmp : s.mpIpv6 with
      | true => exact Or.inr rfl
      | false => simp [hmp] at hu

/-- A route is only ever set at the peer in a family it negotiated. -/
theorem negotiated_of_deltas {c : SessionCmd} {d : Delta Prefix (List PathAttribute)}
    (hd : d ∈ s.deltas c) (hv : d.value ≠ none) : d.key.isIpv4 = true ∨ s.mpIpv6 = true := by
  have hwithdraw : ∀ prefixes, d ∉ (s.withdraw prefixes).flatMap changes := by
    intro prefixes hmem
    rw [changes_withdraw] at hmem
    obtain ⟨p, -, rfl⟩ := List.mem_map.mp hmem
    exact hv rfl
  cases c with
  | advertise routes =>
    rw [deltas_advertise] at hd
    obtain ⟨r, -, hr⟩ := List.mem_filterMap.mp hd
    obtain ⟨attrs, hattrs, rfl⟩ := Option.map_eq_some_iff.mp hr
    exact s.negotiated_of_originating (by simp [hattrs])
  | withdraw prefixes => exact absurd hd (hwithdraw prefixes)
  | propagate routes =>
    cases hap : s.addPathSend with
    | true => simp [deltas, written, hap] at hd
    | false =>
      rw [deltas_propagate s hap] at hd
      obtain ⟨r, -, hr⟩ := List.mem_filterMap.mp hd
      obtain ⟨attrs, hattrs, rfl⟩ := Option.map_eq_some_iff.mp hr
      exact s.negotiated_of_outgoing r.path (by simp [hattrs])
  | withdrawPropagated prefixes =>
    cases hap : s.addPathSend with
    | true => simp [deltas, written, hap] at hd
    | false =>
      simp only [deltas, written, hap] at hd
      exact absurd hd (hwithdraw prefixes)
  | advertiseAddPath routes =>
    obtain ⟨u, hu, hd⟩ := List.mem_flatMap.mp hd
    obtain ⟨r, -, hr⟩ := List.mem_filterMap.mp hu
    unfold advertiseAddPathOne at hr
    split at hr
    · cases hr
    · obtain ⟨nh, -, rfl⟩ := Option.map_eq_some_iff.mp hr
      rw [changes_nlri (s.plain_propagatedBaseAttrs r.path), List.mem_singleton] at hd
      rw [hd]
      left
      simpa using ‹¬(!r.pfx.isIpv4) = true›
  | withdrawAddPath p ids =>
    simp only [deltas, written, withdrawAddPath] at hd
    split_ifs at hd
    · cases hd
    · simp only [List.flatMap_cons, List.flatMap_nil, changes, List.append_nil, List.map_nil] at hd
      obtain ⟨p, -, rfl⟩ := List.mem_map.mp hd
      exact absurd rfl hv
  | shutdown => cases hd
  | ceaseDeconfigured => cases hd
  | ceaseOverLimit => cases hd
  | bfdDown => cases hd
  | sendRefresh => cases hd
  | sendEndOfRib => cases hd

theorem holds_of_not_negotiated (log : List SessionCmd) {x : Prefix} (hx : x.isIpv4 = false)
    (hmp : s.mpIpv6 = false) : s.holds log x = none := by
  have hall : ∀ d ∈ log.flatMap s.deltas, d.key = x → d.value = none := by
    intro d hd hkey
    obtain ⟨c, -, hd⟩ := List.mem_flatMap.mp hd
    by_contra hv
    have hneg := s.negotiated_of_deltas hd hv
    simp [hkey, hx, hmp] at hneg
  unfold holds
  rcases exists_last Delta.key (log.flatMap s.deltas) x with hnot | ⟨l, d, r, heq, hkey, hlast⟩
  · exact replay_of_notMem _ _ _ hnot
  · rw [heq, ← hkey, replay_of_last _ l d r (hkey ▸ hlast)]
    exact hall d (by simp [heq]) hkey

end Session
end Wren.Daemon.Bgp
