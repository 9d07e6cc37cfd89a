import Wren.Daemon.Bgp.Sendable
import Wren.Lib.Chunks
import Wren.Lib.OrdMap

/-! The messages for originated routes: those of the same tags share their attributes, and as many go into
one message as its length allows. -/

namespace Wren.Daemon.Bgp
open Wren.Core Wren.Bgp OrdMap Chunks Replica

/-- The octets of a network: its identifier, its length and what is significant of its address. -/
def routeCost (addPath : Bool) (p : Prefix) : ℕ := (if addPath then 4 else 0) + 1 + (p.len.toNat + 7) / 8

/-- For the length octet that an attribute of more than 255 octets has in addition, and some more. -/
def splitMargin : ℕ := 8

/-- What is left for networks in a message with everything else in it. -/
def splitBudget (addPath four : Bool) (build : List Prefix → Update) : ℕ :=
  maxMessageLen - (((Message.update (build [])).encode four ⟨addPath⟩).length + splitMargin)

def splitUpdates (prefixes : List Prefix) (addPath four : Bool) (build : List Prefix → Update) : List Update :=
  if prefixes.isEmpty then []
  else (pack (routeCost addPath) (splitBudget addPath four build) prefixes).map build

/-- The tags that the routes of one message have in common. -/
abbrev TagKey := List UInt32 × List (UInt32 × UInt32 × UInt32) × List (Vector UInt8 8)

def OriginRoute.tags (r : OriginRoute) : TagKey := (r.communities, r.largeCommunities, r.extCommunities)

namespace Session
variable (s : Session)

def sendOriginatedUpdates (base : List PathAttribute) (v4 v6 : List Prefix) : List Update :=
  let forV4 : List Update :=
    match s.extNexthopSend, s.loc.nextHop6 with
    | true, some nh6 =>
      splitUpdates v4 false s.fourOctet fun nlri =>
        { attributes := base ++ [.mpReachNlri afiIpv4 safiUnicast (s.v6NextHopField nh6 true) nlri] }
    | _, _ =>
      splitUpdates v4 s.addPathSend s.fourOctet fun nlri => { attributes := base ++ [.nextHop s.localIp], nlri }
  let forV6 : List Update :=
    match s.mpIpv6, s.loc.nextHop6 with
    | true, some nh6 =>
      splitUpdates v6 false s.fourOctet fun nlri =>
        { attributes := base ++ [.mpReachNlri afiIpv6 safiUnicast (s.v6NextHopField nh6 true) nlri] }
    | _, _ => []
  forV4 ++ forV6

/-- Both families of one list of networks. -/
def sendOriginatedBoth (base : List PathAttribute) (nlri : List Prefix) : List Update :=
  s.sendOriginatedUpdates base (nlri.filter fun p => p.isIpv4) (nlri.filter fun p => !p.isIpv4)

/-- The routes of the same tags share their messages, but each aggregate has one of its own. -/
def advertiseUpdates (routes : List OriginRoute) : List Update :=
  if s.exportDenyAll then []
  else
    let routes := routes.filterMap (filterOrigin s.exportFilter)
    let tagged := routes.filter fun r => !r.atomicAggregate && shouldAdvertise r.communities s.peerType
    let aggregates := routes.filter fun r => r.atomicAggregate && shouldAdvertise r.communities s.peerType
    ((groups OriginRoute.tags OriginRoute.pfx tagged).toList.flatMap fun g =>
      s.sendOriginatedBoth (s.basePathAttrs ++ communityAttrs g.1.1 g.1.2.1 g.1.2.2) g.2) ++
    aggregates.flatMap fun r =>
      s.sendOriginatedBoth (s.basePathAttrs ++ s.aggregateAttrs ++
        communityAttrs r.communities r.largeCommunities r.extCommunities) [r.pfx]

end Session

/-! ### The length of a message -/

/-- The octets of a message on this session. -/
def Session.size (s : Session) (u : Update) : ℕ := ((Message.update u).encode s.fourOctet ⟨s.addPathSend⟩).length

theorem length_encodeUpdate (four : Bool) (ap : AddPath) (u : Update) :
    ((Message.update u).encode four ap).length =
      headerLen + 4 + (encodeRoutes ap.ipv4Unicast u.withdrawn u.withdrawnPathIds).length +
        (u.attributes.flatMap (PathAttribute.encode four)).length +
          (encodeRoutes ap.ipv4Unicast u.nlri u.nlriPathIds).length := by
  rw [Message.length_encode, Message.encodeBody, encodeUpdate]
  simp only [List.length_append, Octets.length_digits]
  omega

theorem length_encodePrefixAny (p : Prefix) : (encodePrefixAny p).length = 1 + (p.len.toNat + 7) / 8 := by
  obtain ⟨addr, len, hlen, hmask⟩ := p
  cases addr with
  | v4 a =>
    have hle : len.toNat ≤ 32 := UInt8.le_iff_toNat_le.mp hlen
    simp only [encodePrefixAny, List.length_cons, List.length_take, Octets.length_digits]
    omega
  | v6 a =>
    have hle : len.toNat ≤ 128 := UInt8.le_iff_toNat_le.mp hlen
    simp only [encodePrefixAny, List.length_cons, List.length_take, Octets.length_digits]
    omega

theorem length_encodeRoutes (addPath : Bool) {ps : List Prefix} (hps : ∀ p ∈ ps, p.isIpv4 = true) (ids : List UInt32) :
    (encodeRoutes addPath ps ids).length = (ps.map (routeCost addPath)).sum := by
  induction ps generalizing ids with
  | nil => rfl
  | cons p ps ih =>
    have hp := encodePrefix_eq (hps p List.mem_cons_self)
    have hid : (if addPath then u32Octets (ids.headD 0) else []).length = if addPath then 4 else 0 := by
      cases addPath <;> simp
    simp only [encodeRoutes, List.length_append, hid, hp, length_encodePrefixAny,
      ih (fun q hq => hps q (List.mem_cons_of_mem _ hq)), List.map_cons, List.sum_cons, routeCost]
    omega

theorem length_flatMap_encodePrefixAny (ps : List Prefix) :
    (ps.flatMap encodePrefixAny).length = (ps.map (routeCost false)).sum := by
  rw [List.length_flatMap]
  congr 1
  apply List.map_congr_left
  intro p _
  rw [length_encodePrefixAny, routeCost]
  rfl

/-- An attribute is three octets longer than its value, or four. -/
theorem length_encode_attribute (four : Bool) (a : PathAttribute) :
    (a.encode four).length = (a.encodeValue four).length + if (a.encodeValue four).length > 0xff then 4 else 3 := by
  unfold PathAttribute.encode
  dsimp only
  split_ifs
  · simp only [List.length_append, List.length_cons, List.length_nil, Octets.length_digits]
    omega
  · simp only [List.length_append, List.length_cons, List.length_nil]
    omega

/-- Where a message has its networks: in the base field, or in an attribute with a next hop of another
family. -/
inductive Carrier where
  | base (nh : Ipv4Addr)
  | multiprotocol (afi : UInt16) (field : List UInt8)

namespace Carrier

def build (attrs : List PathAttribute) : Carrier → List Prefix → Update
  | base nh, nlri => { attributes := attrs ++ [.nextHop nh], nlri }
  | multiprotocol afi field, nlri => { attributes := attrs ++ [.mpReachNlri afi safiUnicast field nlri] }

/-- The networks are of the family that the carrier is for. -/
def Carries : Carrier → List Prefix → Prop
  | base _, nlri => ∀ p ∈ nlri, p.isIpv4 = true
  | multiprotocol afi field, nlri =>
    knownFamily afi safiUnicast = true ∧ unicastNextHopLen afi field.length = true ∧
      ∀ p ∈ nlri, p.isIpv4 = !(afi = afiIpv6)

/-- Only networks in the base field have identifiers. -/
def identified (addPath : Bool) : Carrier → Bool
  | base _ => addPath
  | multiprotocol .. => false

variable {s : Session} {attrs : List PathAttribute} {c : Carrier} {nlri : List Prefix}

theorem Carries.subset {l : List Prefix} (h : c.Carries nlri) (hsub : l ⊆ nlri) : c.Carries l := by
  cases c with
  | base nh => exact fun p hp => h p (hsub hp)
  | multiprotocol afi field => exact ⟨h.1, h.2.1, fun p hp => h.2.2 p (hsub hp)⟩

theorem Carries.reaches (h : c.Carries nlri) (attrs : List PathAttribute) :
    ∃ last base, Session.Reaches nlri last base ∧ c.build attrs nlri = { attributes := attrs ++ [last], nlri := base } := by
  cases c with
  | base nh => exact ⟨_, _, .base nh h, rfl⟩
  | multiprotocol afi field => exact ⟨_, _, .multiprotocol afi field h.1 h.2.1 h.2.2, rfl⟩

/-- A message is as long as the one without networks, the networks and at most one octet more. -/
theorem size_build_le (s : Session) (attrs : List PathAttribute) (h : c.Carries nlri) :
    s.size (c.build attrs nlri) ≤
      ((Message.update (c.build attrs [])).encode s.fourOctet ⟨c.identified s.addPathSend⟩).length +
        (nlri.map (routeCost (c.identified s.addPathSend))).sum + 1 := by
  rw [Session.size, length_encodeUpdate, length_encodeUpdate]
  cases c with
  | base nh =>
    have hroutes := length_encodeRoutes s.addPathSend h []
    simp only [build, identified, hroutes, encodeRoutes, List.length_nil]
    omega
  | multiprotocol afi field =>
    have hlen := length_flatMap_encodePrefixAny nlri
    simp only [build, identified, encodeRoutes, List.length_nil, List.flatMap_append, List.flatMap_singleton,
      List.length_append, length_encode_attribute, PathAttribute.encodeValue, hlen, List.flatMap_nil]
    split_ifs <;> omega

theorem one_le_routeCost (addPath : Bool) (p : Prefix) : 1 ≤ routeCost addPath p := by
  unfold routeCost
  omega

/-- A message after the split has a part of the networks. -/
theorem mem_splitUpdates {addPath four : Bool} {build : List Prefix → Update} {u : Update}
    (hu : u ∈ splitUpdates nlri addPath four build) :
    ∃ part ⊆ nlri, Packed (routeCost addPath) (splitBudget addPath four build) part ∧ u = build part := by
  unfold splitUpdates at hu
  split_ifs at hu
  · cases hu
  obtain ⟨part, hpart, rfl⟩ := List.mem_map.mp hu
  refine ⟨part, fun p hp => ?_, packed_of_mem hpart, rfl⟩
  rw [← flatten_pack (routeCost addPath) (splitBudget addPath four build) nlri]
  exact List.mem_flatten.mpr ⟨part, hpart, hp⟩

/-- Each part fits a message, if each network on its own does. -/
theorem size_le_of_mem_split (h : c.Carries nlri)
    (hone : ∀ p ∈ nlri, s.size (c.build attrs [p]) ≤ maxMessageLen) {u : Update}
    (hu : u ∈ splitUpdates nlri (c.identified s.addPathSend) s.fourOctet (c.build attrs)) : s.size u ≤ maxMessageLen := by
  obtain ⟨part, hsub, ⟨hne, hsingle | hwithin⟩, rfl⟩ := mem_splitUpdates hu
  · obtain ⟨p, rfl⟩ := List.length_eq_one_iff.mp hsingle
    exact hone p (hsub (List.mem_singleton_self p))
  · have hlen := size_build_le s attrs (h.subset hsub)
    have hpos : 1 ≤ (part.map (routeCost (c.identified s.addPathSend))).sum := by
      obtain ⟨p, rest, rfl⟩ := List.exists_cons_of_ne_nil hne
      have hp := one_le_routeCost (c.identified s.addPathSend) p
      simp only [List.map_cons, List.sum_cons]
      omega
    have hmargin : splitMargin = 8 := rfl
    unfold splitBudget at hwithin
    omega

theorem changes_build (h : Session.Plain attrs) (c : Carrier) (nlri : List Prefix) :
    changes (c.build attrs nlri) = nlri.map fun p => ⟨p, some (describing (c.build attrs []))⟩ := by
  cases c with
  | base nh =>
    have hplain := h.append (r := [.nextHop nh]) ⟨rfl, rfl⟩
    simp [build, changes, hplain.1, hplain.2, describing]
  | multiprotocol afi field => simp [build, changes, h.1, h.2, reached, unreached, describing]

/-- However the networks are split, the peer is told the same. -/
theorem changes_splitUpdates (h : Session.Plain attrs) (c : Carrier) (nlri : List Prefix) (addPath four : Bool) :
    (splitUpdates nlri addPath four (c.build attrs)).flatMap changes = changes (c.build attrs nlri) := by
  unfold splitUpdates
  split_ifs with hnil
  · rw [List.isEmpty_iff.mp hnil, changes_build h]
    rfl
  · simp only [List.flatMap_map, changes_build h]
    rw [List.flatMap_def, ← List.map_flatten, flatten_pack]

end Carrier

namespace Session
variable (s : Session)

/-! ### What the peer is told -/

def carrierV4 : Carrier :=
  match s.extNexthopSend, s.loc.nextHop6 with
  | true, some nh6 => .multiprotocol afiIpv4 (s.v6NextHopField nh6 true)
  | _, _ => .base s.localIp

def carrierV6 : Option Carrier :=
  match s.mpIpv6, s.loc.nextHop6 with
  | true, some nh6 => some (.multiprotocol afiIpv6 (s.v6NextHopField nh6 true))
  | _, _ => none

/-- The carrier for the family of a network. -/
def carrierFor (p : Prefix) : Option Carrier := if p.isIpv4 then some s.carrierV4 else s.carrierV6

/-- The parts of a list of networks of one family. -/
def splitFor (base : List PathAttribute) (nlri : List Prefix) (c : Carrier) : List Update :=
  splitUpdates nlri (c.identified s.addPathSend) s.fourOctet (c.build base)

theorem sendOriginatedUpdates_eq (base : List PathAttribute) (v4 v6 : List Prefix) :
    s.sendOriginatedUpdates base v4 v6 = s.splitFor base v4 s.carrierV4 ++ s.carrierV6.elim [] (s.splitFor base v6) := by
  unfold sendOriginatedUpdates carrierV4 carrierV6 splitFor
  cases s.extNexthopSend <;> cases s.mpIpv6 <;> cases s.loc.nextHop6 <;> rfl

theorem sendOriginatedUpdate_eq (base : List PathAttribute) (p : Prefix) :
    s.sendOriginatedUpdate base p = (s.carrierFor p).map fun c => c.build base [p] := by
  unfold sendOriginatedUpdate carrierFor carrierV4 carrierV6
  split_ifs
  · cases s.extNexthopSend <;> cases s.loc.nextHop6 <;> rfl
  · cases s.mpIpv6 <;> cases s.loc.nextHop6 <;> rfl

theorem carries_carrierV4 (nlri : List Prefix) : s.carrierV4.Carries (nlri.filter fun p => p.isIpv4) := by
  have hv4 : ∀ p ∈ nlri.filter (fun p => p.isIpv4), p.isIpv4 = true := fun p hp => (List.mem_filter.mp hp).2
  unfold carrierV4
  split
  · exact ⟨rfl, s.unicastNextHopLen_v6NextHopField _ _ rfl, hv4⟩
  · exact hv4

theorem carries_carrierV6 {c : Carrier} (hc : s.carrierV6 = some c) (nlri : List Prefix) :
    c.Carries (nlri.filter fun p => !p.isIpv4) := by
  have hv6 : ∀ p ∈ nlri.filter (fun p => !p.isIpv4), p.isIpv4 = !decide (afiIpv6 = afiIpv6) := by
    intro p hp
    simpa using (List.mem_filter.mp hp).2
  unfold carrierV6 at hc
  split at hc <;> cases hc
  exact ⟨rfl, s.unicastNextHopLen_v6NextHopField _ _ rfl, hv6⟩

/-- A message for some networks is a part of those that one carrier is for. -/
theorem mem_sendOriginatedBoth {base : List PathAttribute} {nlri : List Prefix} {u : Update}
    (hu : u ∈ s.sendOriginatedBoth base nlri) :
    ∃ c l, l ⊆ nlri ∧ c.Carries l ∧ u ∈ s.splitFor base l c ∧
      ∀ p ∈ l, s.sendOriginatedUpdate base p = some (c.build base [p]) := by
  rw [sendOriginatedBoth, sendOriginatedUpdates_eq, List.mem_append] at hu
  rcases hu with hu | hu
  · refine ⟨_, _, List.filter_sublist.subset, s.carries_carrierV4 nlri, hu, fun p hp => ?_⟩
    rw [sendOriginatedUpdate_eq, carrierFor, if_pos (List.mem_filter.mp hp).2, Option.map_some]
  · cases hc : s.carrierV6 with
    | none =>
      rw [hc] at hu
      cases hu
    | some c =>
      rw [hc] at hu
      refine ⟨_, _, List.filter_sublist.subset, s.carries_carrierV6 hc nlri, hu, fun p hp => ?_⟩
      have hv6 : ¬ p.isIpv4 = true := by simpa using (List.mem_filter.mp hp).2
      rw [sendOriginatedUpdate_eq, carrierFor, if_neg hv6, hc, Option.map_some]

/-- What the peer is told of one network. -/
def told (base : List PathAttribute) (p : Prefix) : List (Delta Prefix (List PathAttribute)) :=
  (s.sendOriginatedUpdate base p).toList.flatMap changes

theorem told_eq {base : List PathAttribute} (h : Plain base) (p : Prefix) :
    s.told base p = (s.carrierFor p).elim [] fun c => [⟨p, some (describing (c.build base []))⟩] := by
  rw [told, sendOriginatedUpdate_eq]
  cases s.carrierFor p with
  | none => rfl
  | some c => simp [Carrier.changes_build h]

/-- Each network is told of once. -/
theorem changes_sendOriginatedBoth {base : List PathAttribute} (h : Plain base) (nlri : List Prefix) :
    ((s.sendOriginatedBoth base nlri).flatMap changes).Perm (nlri.flatMap (s.told base)) := by
  have hv4 : (s.splitFor base (nlri.filter fun p => p.isIpv4) s.carrierV4).flatMap changes =
      (nlri.filter fun p => p.isIpv4).flatMap (s.told base) := by
    rw [splitFor, Carrier.changes_splitUpdates h, Carrier.changes_build h, ← List.flatMap_pure_eq_map]
    refine List.flatMap_congr fun p hp => ?_
    rw [told_eq s h, carrierFor, if_pos (List.mem_filter.mp hp).2]
    rfl
  have hv6 : (s.carrierV6.elim [] (s.splitFor base (nlri.filter fun p => !p.isIpv4))).flatMap changes =
      (nlri.filter fun p => !p.isIpv4).flatMap (s.told base) := by
    have hone : ∀ p ∈ nlri.filter (fun p => !p.isIpv4), s.told base p =
        s.carrierV6.elim [] fun c => [⟨p, some (describing (c.build base []))⟩] := by
      intro p hp
      have hnot : ¬ p.isIpv4 = true := by simpa using (List.mem_filter.mp hp).2
      rw [told_eq s h, carrierFor, if_neg hnot]
    rw [List.flatMap_congr hone]
    cases s.carrierV6 with
    | none => simp
    | some c =>
      rw [Option.elim_some, splitFor, Carrier.changes_splitUpdates h, Carrier.changes_build h,
        ← List.flatMap_pure_eq_map]
      rfl
  rw [sendOriginatedBoth, sendOriginatedUpdates_eq, List.flatMap_append, hv4, hv6, ← List.flatMap_append]
  exact (List.filter_append_perm _ nlri).flatMap_right _

/-- The attributes of originated routes with some tags, but for their next hop. -/
def taggedAttrs (aggregate : Bool) (tags : TagKey) : List PathAttribute :=
  s.basePathAttrs ++ (if aggregate then s.aggregateAttrs else []) ++ communityAttrs tags.1 tags.2.1 tags.2.2

def originatedAttrs (r : OriginRoute) : List PathAttribute := s.taggedAttrs r.atomicAggregate r.tags

theorem plain_taggedAttrs (aggregate : Bool) (tags : TagKey) : Plain (s.taggedAttrs aggregate tags) := by
  refine (s.plain_basePathAttrs.append ?_).append (plain_communityAttrs _ _ _)
  cases aggregate with
  | true => exact s.plain_aggregateAttrs
  | false => exact ⟨rfl, rfl⟩

theorem advertiseOne_eq (r : OriginRoute) : s.advertiseOne r = (filterOrigin s.exportFilter r).bind fun r =>
    if shouldAdvertise r.communities s.peerType then s.sendOriginatedUpdate (s.originatedAttrs r) r.pfx else none := rfl

/-- What remains of the routes after the export filter and the well-known communities. -/
def exported (routes : List OriginRoute) : List OriginRoute :=
  if s.exportDenyAll then []
  else (routes.filterMap (filterOrigin s.exportFilter)).filter fun r => shouldAdvertise r.communities s.peerType

theorem flatMap_changes_advertise (routes : List OriginRoute) :
    (s.advertise routes).flatMap changes = (s.exported routes).flatMap fun r => s.told (s.originatedAttrs r) r.pfx := by
  unfold advertise exported
  split_ifs
  · rfl
  induction routes with
  | nil => rfl
  | cons r routes ih =>
    have hone := s.advertiseOne_eq r
    cases hr : filterOrigin s.exportFilter r with
    | none =>
      rw [hr, Option.bind_none] at hone
      rw [List.filterMap_cons_none hone, List.filterMap_cons_none hr, ih]
    | some r' =>
      rw [hr, Option.bind_some] at hone
      rw [List.filterMap_cons_some hr, List.filter_cons]
      split_ifs at hone ⊢
      · have htold : s.told (s.originatedAttrs r') r'.pfx = (s.advertiseOne r).toList.flatMap changes := by
          rw [told, ← hone]
        rw [List.flatMap_cons, htold, ← ih]
        cases hu : s.advertiseOne r with
        | none => rw [List.filterMap_cons_none hu, Option.toList_none, List.flatMap_nil, List.nil_append]
        | some u => rw [List.filterMap_cons_some hu, Option.toList_some, List.flatMap_singleton, List.flatMap_cons]
      · rw [List.filterMap_cons_none hone, ih]

/-- Routes of the same tags are told of together. -/
theorem changes_tagged {rs : List OriginRoute} (h : ∀ r ∈ rs, r.atomicAggregate = false) :
    (((groups OriginRoute.tags OriginRoute.pfx rs).toList.flatMap fun g =>
      s.sendOriginatedBoth (s.taggedAttrs false g.1) g.2).flatMap changes).Perm
      (rs.flatMap fun r => s.told (s.originatedAttrs r) r.pfx) := by
  let tell : TagKey × Prefix → List (Delta Prefix (List PathAttribute)) := fun e => s.told (s.taggedAttrs false e.1) e.2
  have hgroup : ∀ g ∈ (groups OriginRoute.tags OriginRoute.pfx rs).toList,
      ((s.sendOriginatedBoth (s.taggedAttrs false g.1) g.2).flatMap changes).Perm
        ((g.2.map fun p => (g.1, p)).flatMap tell) := by
    intro g _
    rw [List.flatMap_map]
    exact s.changes_sendOriginatedBoth (s.plain_taggedAttrs false g.1) g.2
  have hpairs := (perm_groups OriginRoute.tags OriginRoute.pfx rs).flatMap_right tell
  rw [pairs, List.flatMap_assoc, List.flatMap_map] at hpairs
  have htell : rs.flatMap (fun r => tell (r.tags, r.pfx)) = rs.flatMap fun r => s.told (s.originatedAttrs r) r.pfx := by
    refine List.flatMap_congr fun r hr => ?_
    simp only [tell, originatedAttrs, h r hr]
  rw [List.flatMap_assoc]
  exact (List.Perm.flatMap_left _ hgroup).trans (htell ▸ hpairs)

theorem changes_aggregates (rs : List OriginRoute) :
    ((rs.flatMap fun r => s.sendOriginatedBoth (s.originatedAttrs r) [r.pfx]).flatMap changes).Perm
      (rs.flatMap fun r => s.told (s.originatedAttrs r) r.pfx) := by
  rw [List.flatMap_assoc]
  refine List.Perm.flatMap_left _ fun r _ => ?_
  have hone := s.changes_sendOriginatedBoth (s.plain_taggedAttrs r.atomicAggregate r.tags) [r.pfx]
  rwa [List.flatMap_singleton] at hone

theorem advertiseUpdates_eq (routes : List OriginRoute) : s.advertiseUpdates routes =
    ((groups OriginRoute.tags OriginRoute.pfx ((s.exported routes).filter fun r => !r.atomicAggregate)).toList.flatMap
      fun g => s.sendOriginatedBoth (s.taggedAttrs false g.1) g.2) ++
    ((s.exported routes).filter fun r => r.atomicAggregate).flatMap fun r =>
      s.sendOriginatedBoth (s.originatedAttrs r) [r.pfx] := by
  unfold advertiseUpdates exported
  split_ifs
  · rfl
  dsimp only
  rw [List.filter_filter, List.filter_filter]
  congr 1
  · simp only [taggedAttrs, Bool.false_eq_true, if_false, List.append_nil]
  · refine List.flatMap_congr fun r hr => ?_
    have hkept := (List.mem_filter.mp hr).2
    rw [Bool.and_eq_true] at hkept
    rw [originatedAttrs, taggedAttrs, hkept.1, if_pos rfl]
    rfl

/-- The peer is told the same as if each route had a message of its own. -/
theorem changes_advertiseUpdates (routes : List OriginRoute) :
    ((s.advertiseUpdates routes).flatMap changes).Perm ((s.advertise routes).flatMap changes) := by
  rw [flatMap_changes_advertise, advertiseUpdates_eq, List.flatMap_append]
  have hboth := (List.filter_append_perm (fun r : OriginRoute => r.atomicAggregate) (s.exported routes)).flatMap_right
    fun r => s.told (s.originatedAttrs r) r.pfx
  rw [List.flatMap_append] at hboth
  have hplain : ∀ r ∈ (s.exported routes).filter (fun r => !r.atomicAggregate), r.atomicAggregate = false := by
    intro r hr
    simpa using (List.mem_filter.mp hr).2
  exact ((s.changes_tagged hplain).append (s.changes_aggregates _)).trans (List.perm_append_comm.trans hboth)

/-! ### What single messages look like -/

theorem mem_exported {routes : List OriginRoute} {r : OriginRoute} (h : r ∈ s.exported routes) :
    ∃ r' ∈ routes, s.advertiseOne r' = s.sendOriginatedUpdate (s.originatedAttrs r) r.pfx := by
  unfold exported at h
  split_ifs at h
  · cases h
  obtain ⟨hr, hallowed⟩ := List.mem_filter.mp h
  obtain ⟨r', hmem, hr'⟩ := List.mem_filterMap.mp hr
  refine ⟨r', hmem, ?_⟩
  rw [advertiseOne_eq, hr', Option.bind_some, if_pos hallowed]

/-- Where a message for originated routes comes from. -/
theorem mem_advertiseUpdates {routes : List OriginRoute} {u : Update} (hu : u ∈ s.advertiseUpdates routes) :
    ∃ aggregate tags l c, u ∈ s.splitFor (s.taggedAttrs aggregate tags) l c ∧ c.Carries l ∧
      ∀ p ∈ l, ∃ r ∈ routes, s.advertiseOne r = some (c.build (s.taggedAttrs aggregate tags) [p]) := by
  rw [advertiseUpdates_eq] at hu
  rcases List.mem_append.mp hu with hu | hu
  · obtain ⟨⟨k, ps⟩, hg, hu⟩ := List.mem_flatMap.mp hu
    obtain ⟨c, l, hl, hcarries, hu, hsend⟩ := s.mem_sendOriginatedBoth hu
    refine ⟨false, k, l, c, hu, hcarries, fun p hp => ?_⟩
    obtain ⟨r, hr, rfl, rfl⟩ := exists_of_mem_groups hg (hl hp)
    obtain ⟨hr, hplain⟩ := List.mem_filter.mp hr
    obtain ⟨r', hmem, hr'⟩ := s.mem_exported hr
    refine ⟨r', hmem, ?_⟩
    have hnot : r.atomicAggregate = false := by simpa using hplain
    rw [hr', ← hsend _ hp, originatedAttrs, hnot]
  · obtain ⟨r, hr, hu⟩ := List.mem_flatMap.mp hu
    obtain ⟨c, l, hl, hcarries, hu, hsend⟩ := s.mem_sendOriginatedBoth hu
    obtain ⟨r', hmem, hr'⟩ := s.mem_exported (List.mem_filter.mp hr).1
    refine ⟨r.atomicAggregate, r.tags, l, c, hu, hcarries, fun p hp => ⟨r', hmem, ?_⟩⟩
    rw [hr', ← List.mem_singleton.mp (hl hp)]
    exact hsend p hp

/-- No message is too long, if none for a single route is. -/
theorem size_le_of_mem_advertiseUpdates {routes : List OriginRoute}
    (hone : ∀ r ∈ routes, ∀ u, s.advertiseOne r = some u → s.size u ≤ maxMessageLen) {u : Update}
    (hu : u ∈ s.advertiseUpdates routes) : s.size u ≤ maxMessageLen := by
  obtain ⟨aggregate, tags, l, c, hu, hcarries, hfrom⟩ := s.mem_advertiseUpdates hu
  refine Carrier.size_le_of_mem_split hcarries (fun p hp => ?_) hu
  obtain ⟨r, hmem, hr⟩ := hfrom p hp
  exact hone r hmem _ hr

theorem sendOriginatedBoth_singleton (base : List PathAttribute) (p : Prefix) :
    s.sendOriginatedBoth base [p] = (s.sendOriginatedUpdate base p).toList := by
  have hone : ∀ c, s.splitFor base [p] c = [c.build base [p]] := fun _ => rfl
  have hnone : ∀ c, s.splitFor base [] c = [] := fun _ => rfl
  rw [sendOriginatedBoth, sendOriginatedUpdates_eq, sendOriginatedUpdate_eq, carrierFor]
  cases hv4 : p.isIpv4 with
  | true =>
    rw [List.filter_singleton, List.filter_singleton]
    cases s.carrierV6 <;> simp [hv4, hone, hnone]
  | false =>
    rw [List.filter_singleton, List.filter_singleton]
    cases s.carrierV6 <;> simp [hv4, hone, hnone]

/-- For one route there is one message at most. -/
theorem advertiseUpdates_singleton (r : OriginRoute) : s.advertiseUpdates [r] = s.advertise [r] := by
  rw [advertiseUpdates_eq, advertise, exported]
  split_ifs
  · rfl
  have hone := s.advertiseOne_eq r
  cases hr : filterOrigin s.exportFilter r with
  | none =>
    rw [hr, Option.bind_none] at hone
    rw [List.filterMap_cons_none hr, List.filterMap_cons_none hone]
    rfl
  | some r' =>
    rw [hr, Option.bind_some] at hone
    rw [List.filterMap_cons_some hr, List.filterMap_nil]
    by_cases hallowed : shouldAdvertise r'.communities s.peerType = true
    · rw [if_pos hallowed, originatedAttrs] at hone
      have hboth := s.sendOriginatedBoth_singleton (s.taggedAttrs r'.atomicAggregate r'.tags) r'.pfx
      have hlist : [r].filterMap s.advertiseOne = (s.advertiseOne r).toList := by
        cases hu : s.advertiseOne r <;> simp [hu]
      have hkept : [r'].filter (fun r => shouldAdvertise r.communities s.peerType) = [r'] := by simp [hallowed]
      rw [hkept, hlist, hone, ← hboth]
      cases hagg : r'.atomicAggregate with
      | true =>
        rw [List.filter_cons_of_neg (by simp [hagg]), List.filter_cons_of_pos hagg, List.filter_nil, List.filter_nil,
          List.flatMap_singleton, originatedAttrs, hagg]
        rfl
      | false =>
        rw [List.filter_cons_of_pos (by simp [hagg]), List.filter_cons_of_neg (by simp [hagg]), List.filter_nil,
          List.filter_nil, toList_groups_singleton, List.flatMap_singleton, List.flatMap_nil, List.append_nil]
    · rw [if_neg hallowed] at hone
      have hkept : [r'].filter (fun r => shouldAdvertise r.communities s.peerType) = [] := by simp [hallowed]
      rw [hkept, List.filterMap_cons_none hone]
      rfl

end Session
end Wren.Daemon.Bgp
