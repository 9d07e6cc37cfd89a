import Wren.Bgp.EvpnNormal
import Wren.Bgp.Formats

/-! The routes of every family that MP_REACH_NLRI and MP_UNREACH_NLRI carry, and which families these are. -/

namespace Wren.Bgp
open Wren.Core Octets

/-! ### SR Policy -/

structure SrPolicyNlri where
  color : UInt32
  endpoint : IpAddr
  distinguisher : UInt32
deriving DecidableEq

namespace SrPolicyNlri

/-- The length counts bits. -/
def encode (n : SrPolicyNlri) : List UInt8 :=
  let bits : UInt8 := if n.endpoint.isIpv4 then 96 else 192
  bits :: (u32Octets n.distinguisher ++ u32Octets n.color ++ ipOctets n.endpoint)

/-- The AFI says how wide the endpoint is. -/
def decode (afi : UInt16) : List UInt8 → Option (SrPolicyNlri × ℕ)
  | [] => none
  | bits :: rest => do
    let (body, _) ← field? (bits.toNat / 8) rest
    let endpointLen := if afi = afiIpv6 then 16 else 4
    if body.length ≠ 8 + endpointLen then none
    else
      let endpoint := body.drop 8
      some ({
        color := u32OfOctets ((body.drop 4).take 4)
        endpoint := if afi = afiIpv6 then .v6 (BitVec.ofNat 128 (value endpoint)) else .v4 (ipv4OfOctets endpoint)
        distinguisher := u32OfOctets (body.take 4) }, 1 + bits.toNat / 8)

def decodeNlris (afi : UInt16) : List UInt8 → Option (List SrPolicyNlri) := readAll (decode afi)

end SrPolicyNlri

/-! ### Link-State -/

structure LsTlv where
  type : UInt16
  body : List UInt8
deriving DecidableEq

namespace LsTlv

def encode (t : LsTlv) : List UInt8 := u16Octets t.type ++ (digits 2 t.body.length ++ t.body)

def decode (buf : List UInt8) : Option (LsTlv × ℕ) := do
  let (type, rest) ← field? 2 buf
  let (len, rest) ← field? 2 rest
  let (body, _) ← field? (value len) rest
  return (⟨UInt16.ofNat (value type), body⟩, 4 + value len)

end LsTlv

def decodeLsTlvs : List UInt8 → Option (List LsTlv) := readAll LsTlv.decode

inductive LsObjectKind where
  | node
  | link
  | ipv4Prefix
  | ipv6Prefix
deriving DecidableEq

namespace LsObjectKind

def code : LsObjectKind → ℕ
  | node => 1
  | link => 2
  | ipv4Prefix => 3
  | ipv6Prefix => 4

def ofCode (c : ℕ) : Option LsObjectKind :=
  if c = 1 then some node
  else if c = 2 then some link
  else if c = 3 then some ipv4Prefix
  else if c = 4 then some ipv6Prefix
  else none

end LsObjectKind

structure LinkStateNlri where
  kind : LsObjectKind
  protocol : UInt8
  identifier : UInt64
  descriptors : List LsTlv
deriving DecidableEq

namespace LinkStateNlri

def encode (n : LinkStateNlri) : List UInt8 :=
  let body := n.protocol :: (digits 8 n.identifier.toNat ++ n.descriptors.flatMap LsTlv.encode)
  digits 2 n.kind.code ++ (digits 2 body.length ++ body)

def decode (buf : List UInt8) : Option (LinkStateNlri × ℕ) := do
  let (type, rest) ← field? 2 buf
  let (len, rest) ← field? 2 rest
  let (body, _) ← field? (value len) rest
  if body.length < 9 then none
  else
    let kind ← LsObjectKind.ofCode (value type)
    let descriptors ← decodeLsTlvs (body.drop 9)
    return ({
      kind := kind
      protocol := body.getD 0 0
      identifier := UInt64.ofNat (value ((body.drop 1).take 8))
      descriptors := descriptors }, 4 + value len)

def decodeNlris : List UInt8 → Option (List LinkStateNlri) := readAll decode

end LinkStateNlri

/-! ### All families -/

/-- The network that a component matches. -/
def Component.network : Component → Option Prefix
  | destPrefix p | srcPrefix p => some p
  | _ => none

namespace FamilyNlri

def ofSrPolicy (n : SrPolicyNlri) : FamilyNlri := ⟨n.encode, true⟩

def ofLinkState (n : LinkStateNlri) : FamilyNlri := ⟨n.encode, true⟩

end FamilyNlri

/-- The routes of an attribute. -/
inductive MpRoutes where
  | prefixes (l : List Prefix)
  | evpn (l : List EvpnNlri)
  | flowSpec (l : List FlowSpec)
  | srPolicy (l : List SrPolicyNlri)
  | linkState (l : List LinkStateNlri)
deriving DecidableEq

/-- Routes that are reachable by a next hop, or withdrawn where there is none. -/
structure MpAttr where
  afi : UInt16
  safi : UInt8
  nextHop : Option (List UInt8)
  routes : MpRoutes
deriving DecidableEq

namespace MpRoutes

/-- The routes that are no networks, as the family has them. -/
def ofFamily (f : Family) (afi : UInt16) (buf : List UInt8) : Option MpRoutes :=
  match f with
  | .evpn => (EvpnNlri.decodeAll buf).map evpn
  | .flowSpec => (FlowSpec.decodeNlris buf).map flowSpec
  | .srPolicy => (SrPolicyNlri.decodeNlris afi buf).map srPolicy
  | .linkState => (LinkStateNlri.decodeNlris buf).map linkState

/-- The same as octets. Networks have no family of their own. -/
def family : MpRoutes → Option (Family × List FamilyNlri)
  | prefixes _ => none
  | evpn l => some (.evpn, l.map FamilyNlri.ofEvpn)
  | flowSpec l => some (.flowSpec, l.map FamilyNlri.ofFlowSpec)
  | srPolicy l => some (.srPolicy, l.map FamilyNlri.ofSrPolicy)
  | linkState l => some (.linkState, l.map FamilyNlri.ofLinkState)

def networks : MpRoutes → List Prefix
  | prefixes l => l
  | evpn l => l.filterMap fun n =>
    match n with
    | .ipPrefix _ _ _ pfx _ _ => some pfx
    | _ => none
  | flowSpec l => l.flatMap fun spec => spec.components.filterMap Component.network
  | srPolicy _ | linkState _ => []

end MpRoutes

namespace MpAttr

def decodeReach : List UInt8 → Option MpAttr
  | a₁ :: a₀ :: safi :: nhLen :: rest =>
    let afi := UInt16.ofNat (value [a₁, a₀])
    if rest.length < nhLen.toNat + 1 then none
    else
      let nh := rest.take nhLen.toNat
      let routes := rest.drop (nhLen.toNat + 1)
      match Family.of? afi safi with
      | some f => (MpRoutes.ofFamily f afi routes).map fun r => ⟨afi, safi, some nh, r⟩
      | none =>
        if knownFamily afi safi = false ∨ unicastNextHopLen afi nhLen.toNat = false then none
        else (decodeMpPrefixes afi routes).map fun l => ⟨afi, safi, some nh, .prefixes l⟩
  | _ => none

def decodeUnreach : List UInt8 → Option MpAttr
  | a₁ :: a₀ :: safi :: routes =>
    let afi := UInt16.ofNat (value [a₁, a₀])
    match Family.of? afi safi with
    | some f => (MpRoutes.ofFamily f afi routes).map fun r => ⟨afi, safi, none, r⟩
    | none =>
      if knownFamily afi safi = false then none
      else (decodeMpPrefixes afi routes).map fun l => ⟨afi, safi, none, .prefixes l⟩
  | _ => none

/-- An attribute of one of the two types. -/
def decode (code : UInt8) (v : List UInt8) : Option MpAttr :=
  if code = PathAttribute.typeMpReachNlri then decodeReach v else decodeUnreach v

def toAttribute (m : MpAttr) : PathAttribute :=
  match m.nextHop, m.routes.family with
  | some nh, some (f, l) => .mpReachFamily f m.afi nh l
  | none, some (f, l) => .mpUnreachFamily f m.afi l
  | some nh, none => .mpReachNlri m.afi m.safi nh m.routes.networks
  | none, none => .mpUnreachNlri m.afi m.safi m.routes.networks

end MpAttr

/-- The routes of all families as the speaker reads them, beside the formats of the attributes that only some use. -/
def mpFormats (others : FamilyFormats) : FamilyFormats :=
  { readFormats others with
    nlris := fun f afi buf => ((MpRoutes.ofFamily f afi buf).bind MpRoutes.family).map Prod.snd }

theorem MpRoutes.family_ofFamily {f : Family} {afi : UInt16} {buf : List UInt8} {r : MpRoutes}
    (h : ofFamily f afi buf = some r) : ∃ l, r.family = some (f, l) := by
  cases f with
  | evpn =>
    obtain ⟨l, -, rfl⟩ := Option.map_eq_some_iff.mp h
    exact ⟨_, rfl⟩
  | flowSpec =>
    obtain ⟨l, -, rfl⟩ := Option.map_eq_some_iff.mp h
    exact ⟨_, rfl⟩
  | srPolicy =>
    obtain ⟨l, -, rfl⟩ := Option.map_eq_some_iff.mp h
    exact ⟨_, rfl⟩
  | linkState =>
    obtain ⟨l, -, rfl⟩ := Option.map_eq_some_iff.mp h
    exact ⟨_, rfl⟩

theorem toAttribute_ofFamily {f : Family} {afi : UInt16} {buf : List UInt8} {r : MpRoutes}
    (h : MpRoutes.ofFamily f afi buf = some r) (safi : UInt8) (nextHop : Option (List UInt8)) (l : List FamilyNlri)
    (hl : r.family.map Prod.snd = some l) : (MpAttr.mk afi safi nextHop r).toAttribute =
      nextHop.elim (.mpUnreachFamily f afi l) fun nh => .mpReachFamily f afi nh l := by
  obtain ⟨l', hl'⟩ := MpRoutes.family_ofFamily h
  obtain rfl : l' = l := by simpa [hl'] using hl
  cases nextHop <;> simp only [MpAttr.toAttribute, hl'] <;> rfl

/-- The routes as octets are those of the routes as they are. -/
theorem nlris_map (others : FamilyFormats) (f : Family) (afi : UInt16) (safi : UInt8) (buf : List UInt8)
    (nextHop : Option (List UInt8)) :
    (((mpFormats others).nlris f afi buf).map fun l =>
      nextHop.elim (.mpUnreachFamily f afi l) fun nh => .mpReachFamily f afi nh l) =
    ((MpRoutes.ofFamily f afi buf).map fun r => (⟨afi, safi, nextHop, r⟩ : MpAttr)).map MpAttr.toAttribute := by
  cases hr : MpRoutes.ofFamily f afi buf with
  | none => simp [mpFormats, hr]
  | some r =>
    obtain ⟨l, hl⟩ := MpRoutes.family_ofFamily hr
    have hto := toAttribute_ofFamily hr safi nextHop l (by rw [hl]; rfl)
    simp [mpFormats, hr, hl, hto]

/-- The attribute with its routes as octets is the one with its routes as they are. -/
theorem decodeMpReach_eq (others : FamilyFormats) (v : List UInt8) :
    PathAttribute.decodeMpReach (mpFormats others) v = (MpAttr.decodeReach v).map MpAttr.toAttribute := by
  unfold PathAttribute.decodeMpReach MpAttr.decodeReach
  match v with
  | [] | [_] | [_, _] | [_, _, _] => rfl
  | a₁ :: a₀ :: safi :: nhLen :: rest =>
    simp only
    by_cases hlen : rest.length < nhLen.toNat + 1
    · rw [if_pos hlen, if_pos hlen, Option.map_none]
    · rw [if_neg hlen, if_neg hlen]
      cases hf : Family.of? (UInt16.ofNat (value [a₁, a₀])) safi with
      | some f => exact nlris_map others f _ safi _ (some (rest.take nhLen.toNat))
      | none =>
        simp only
        split_ifs
        · rfl
        · rw [Option.map_map]
          rfl

theorem decodeMpUnreach_eq (others : FamilyFormats) (v : List UInt8) :
    PathAttribute.decodeMpUnreach (mpFormats others) v = (MpAttr.decodeUnreach v).map MpAttr.toAttribute := by
  unfold PathAttribute.decodeMpUnreach MpAttr.decodeUnreach
  match v with
  | [] | [_] | [_, _] => rfl
  | a₁ :: a₀ :: safi :: routes =>
    cases hf : Family.of? (UInt16.ofNat (value [a₁, a₀])) safi with
    | some f =>
      simp only [hf]
      exact nlris_map others f _ safi _ none
    | none =>
      simp only [hf]
      split_ifs
      · rfl
      · rw [Option.map_map]
        rfl

/-! ### Which families are let in -/

/-- The network is of the address family that the AFI names, if it names one. -/
def InFamily (afi : UInt16) (p : Prefix) : Prop :=
  (afi = afiIpv4 → p.isIpv4 = true) ∧ (afi = afiIpv6 → p.isIpv4 = false)

/-- IP unicast, EVPN, FlowSpec and SR Policy of both address families, and Link-State. -/
def gatedFamilies : List (UInt16 × UInt8) :=
  [(afiIpv4, safiUnicast), (afiIpv6, safiUnicast), (afiL2vpn, safiEvpn), (afiIpv4, safiFlowSpec),
    (afiIpv6, safiFlowSpec), (afiIpv4, safiSrPolicy), (afiIpv6, safiSrPolicy), (afiLinkState, safiLinkState)]

structure MpAttr.Gated (m : MpAttr) : Prop where
  family : (m.afi, m.safi) ∈ gatedFamilies
  networks : ∀ p ∈ m.routes.networks, InFamily m.afi p

def afiOf (v : List UInt8) : UInt16 := UInt16.ofNat (value (v.take 2))

def safiOf (v : List UInt8) : UInt8 := v.getD 2 0

/-- The octets of the routes. -/
def routesOf (code : UInt8) (v : List UInt8) : List UInt8 :=
  if code = PathAttribute.typeMpReachNlri then v.drop (5 + (v.getD 3 0).toNat) else v.drop 3

/-- FlowSpec and SR Policy come with an AFI of IP, and no FlowSpec rule of IPv6 matches a network. -/
structure Proper (code : UInt8) (v : List UInt8) : Prop where
  afi : safiOf v = safiFlowSpec ∨ safiOf v = safiSrPolicy → afiOf v = afiIpv4 ∨ afiOf v = afiIpv6
  networks : afiOf v = afiIpv6 → safiOf v = safiFlowSpec → ∀ rules, FlowSpec.decodeNlris (routesOf code v) = some rules →
    ∀ spec ∈ rules, ∀ c ∈ spec.components, c.network = none

theorem isIpv4_of_readPrefix {width : ℕ} {addr : List UInt8 → IpAddr} {b : Bool} (haddr : ∀ l, (addr l).isIpv4 = b)
    {buf : List UInt8} {p : Prefix} {used : ℕ} (h : readPrefix width addr buf = some (p, used)) : p.isIpv4 = b := by
  simp only [readPrefix, Option.bind_eq_bind, Option.bind_eq_some_iff] at h
  obtain ⟨len, -, -, -, -, -, q, hq, heq⟩ := h
  obtain ⟨rfl, -⟩ := Prod.mk.inj (Option.some.inj heq)
  rw [isIpv4_of_new hq, haddr]

theorem isIpv4_of_decodePrefix {buf : List UInt8} {p : Prefix} {used : ℕ} (h : decodePrefix buf = some (p, used)) :
    p.isIpv4 = true := by
  have hv4 : ∀ octets, (IpAddr.v4 (ipv4OfOctets octets)).isIpv4 = true := fun _ => rfl
  exact isIpv4_of_readPrefix hv4 h

theorem inFamily_of_decodeMpPrefixes {afi : UInt16} {buf : List UInt8} {l : List Prefix}
    (h : decodeMpPrefixes afi buf = some l) : ∀ p ∈ l, InFamily afi p := by
  unfold decodeMpPrefixes at h
  split_ifs at h with h6
  · have hv6 : ∀ buf (p : Prefix) used, decodePrefixV6 buf = some (p, used) → InFamily afi p := by
      intro buf p used hp
      have hp4 : p.isIpv4 = false := by
        have hoctets : ∀ octets, (IpAddr.v6 (BitVec.ofNat 128 (value octets))).isIpv4 = false := fun _ => rfl
        exact isIpv4_of_readPrefix hoctets hp
      refine ⟨fun h4 => ?_, fun _ => hp4⟩
      rw [h6] at h4
      exact absurd h4 (by decide)
    exact forall_of_readRecords hv6 h
  · have hv4 : ∀ buf (p : Prefix) used, decodePrefix buf = some (p, used) → InFamily afi p :=
      fun buf p used hp => ⟨fun _ => isIpv4_of_decodePrefix hp, fun h => absurd h h6⟩
    exact forall_of_readRecords hv4 h

theorem network_of_map {α : Type} {make : α → Component} {o : Option (α × ℕ)} {c : Component} {used : ℕ}
    (h : (o.map fun (a, n) => (make a, n)) = some (c, used)) : ∃ a n, o = some (a, n) ∧ make a = c := by
  obtain ⟨⟨a, n⟩, ho, heq⟩ := Option.map_eq_some_iff.mp h
  exact ⟨a, n, ho, congrArg Prod.fst heq⟩

theorem isIpv4_of_decodeValue {type : UInt8} {buf : List UInt8} {c : Component} {used : ℕ}
    (h : Component.decodeValue type buf = some (c, used)) : ∀ p ∈ c.network, p.isIpv4 = true := by
  unfold Component.decodeValue at h
  -- the networks come first
  iterate 2
    obtain ⟨-, h⟩ | ⟨-, h⟩ := ite_eq_iff.mp h
    · obtain ⟨p, n, hp, rfl⟩ := network_of_map h
      intro q hq
      cases hq
      exact isIpv4_of_decodePrefix hp
  iterate 10
    obtain ⟨-, h⟩ | ⟨-, h⟩ := ite_eq_iff.mp h
    · obtain ⟨ops, n, -, rfl⟩ := network_of_map h
      intro q hq
      cases hq
  cases h

theorem isIpv4_of_decodeNlris {buf : List UInt8} {l : List FlowSpec} (h : FlowSpec.decodeNlris buf = some l) :
    ∀ p ∈ (MpRoutes.flowSpec l).networks, p.isIpv4 = true := by
  have hcomponent : ∀ buf c used, Component.decode buf = some (c, used) → ∀ p ∈ c.network, p.isIpv4 = true := by
    intro buf c used hc
    cases buf with
    | nil => cases hc
    | cons type rest =>
      obtain ⟨⟨c', n⟩, hvalue, heq⟩ := Option.map_eq_some_iff.mp hc
      obtain ⟨rfl, -⟩ := Prod.mk.inj heq
      exact isIpv4_of_decodeValue hvalue
  have hrule : ∀ buf (spec : FlowSpec) used, FlowSpec.decode buf = some (spec, used) →
      ∀ c ∈ spec.components, ∀ p ∈ c.network, p.isIpv4 = true := by
    intro buf spec used hspec
    simp only [FlowSpec.decode, Option.bind_eq_bind, Option.bind_eq_some_iff, Option.pure_def, Option.some.injEq] at hspec
    obtain ⟨⟨len, hdr⟩, -, body, -, components, hcs, heq⟩ := hspec
    obtain ⟨rfl, -⟩ := Prod.mk.inj heq
    exact forall_of_readRecords hcomponent hcs
  intro p hp
  obtain ⟨spec, hspec, hp⟩ := List.mem_flatMap.mp hp
  obtain ⟨c, hc, hp⟩ := List.mem_filterMap.mp hp
  exact forall_of_readRecords hrule h spec hspec c hc p hp

theorem networks_flowSpec_eq_nil {l : List FlowSpec} : (MpRoutes.flowSpec l).networks = [] ↔
    ∀ spec ∈ l, ∀ c ∈ spec.components, c.network = none := by
  simp [MpRoutes.networks]

theorem of?_eq_some {afi : UInt16} {safi : UInt8} {f : Family} (h : Family.of? afi safi = some f) :
    (f = .evpn ∧ afi = afiL2vpn ∧ safi = safiEvpn) ∨ (f = .flowSpec ∧ safi = safiFlowSpec) ∨
      (f = .srPolicy ∧ safi = safiSrPolicy) ∨ (f = .linkState ∧ afi = afiLinkState ∧ safi = safiLinkState) := by
  unfold Family.of? at h
  split_ifs at h with hevpn hflow hsr hls
  · exact .inl ⟨(Option.some.inj h).symm, hevpn⟩
  · exact .inr (.inl ⟨(Option.some.inj h).symm, hflow⟩)
  · exact .inr (.inr (.inl ⟨(Option.some.inj h).symm, hsr⟩))
  · exact .inr (.inr (.inr ⟨(Option.some.inj h).symm, hls⟩))

theorem mem_gatedFamilies_flowSpec {afi : UInt16} :
    (afi, safiFlowSpec) ∈ gatedFamilies ↔ afi = afiIpv4 ∨ afi = afiIpv6 := by
  simp +decide [gatedFamilies]

theorem mem_gatedFamilies_srPolicy {afi : UInt16} :
    (afi, safiSrPolicy) ∈ gatedFamilies ↔ afi = afiIpv4 ∨ afi = afiIpv6 := by
  simp +decide [gatedFamilies]

/-- FlowSpec rules are read as those of IPv4, so of IPv6 there can be none that matches a network. -/
theorem inFamily_flowSpec_iff {afi : UInt16} {buf : List UInt8} {l : List FlowSpec}
    (h : FlowSpec.decodeNlris buf = some l) : (∀ p ∈ (MpRoutes.flowSpec l).networks, InFamily afi p) ↔
      (afi = afiIpv6 → ∀ spec ∈ l, ∀ c ∈ spec.components, c.network = none) := by
  have hv4 := isIpv4_of_decodeNlris h
  rw [← networks_flowSpec_eq_nil]
  constructor
  · intro hin h6
    rw [List.eq_nil_iff_forall_not_mem]
    intro p hp
    exact absurd (hv4 p hp) (by simp [(hin p hp).2 h6])
  · intro hnil p hp
    refine ⟨fun _ => hv4 p hp, fun h6 => ?_⟩
    rw [hnil h6] at hp
    exact absurd hp List.not_mem_nil

/-- What is made of the routes of a family is let in as it should be where its AFI is one of IP, and where no rule
of IPv6 matches a network. -/
theorem gated_ofFamily_iff {afi : UInt16} {safi : UInt8} {f : Family} (hf : Family.of? afi safi = some f)
    {buf : List UInt8} {r : MpRoutes} (hr : MpRoutes.ofFamily f afi buf = some r) (nextHop : Option (List UInt8)) :
    (MpAttr.mk afi safi nextHop r).Gated ↔
      (safi = safiFlowSpec ∨ safi = safiSrPolicy → afi = afiIpv4 ∨ afi = afiIpv6) ∧
      (afi = afiIpv6 → safi = safiFlowSpec → ∀ rules, FlowSpec.decodeNlris buf = some rules →
        ∀ spec ∈ rules, ∀ c ∈ spec.components, c.network = none) := by
  have hother : ∀ p, InFamily afiL2vpn p := fun p => ⟨fun h => absurd h (by decide), fun h => absurd h (by decide)⟩
  obtain ⟨rfl, rfl, rfl⟩ | ⟨rfl, rfl⟩ | ⟨rfl, rfl⟩ | ⟨rfl, rfl, rfl⟩ := of?_eq_some hf
  · exact iff_of_true ⟨by simp [gatedFamilies], fun p _ => hother p⟩
      ⟨by decide, fun h => absurd h (by decide)⟩
  · obtain ⟨l, hl, rfl⟩ := Option.map_eq_some_iff.mp hr
    have hrules : (∀ rules, FlowSpec.decodeNlris buf = some rules → ∀ spec ∈ rules, ∀ c ∈ spec.components,
        c.network = none) ↔ ∀ spec ∈ l, ∀ c ∈ spec.components, c.network = none := by
      simp [hl]
    simp only [true_or, forall_const, hrules]
    rw [← mem_gatedFamilies_flowSpec, ← inFamily_flowSpec_iff hl]
    exact ⟨fun h => ⟨h.family, h.networks⟩, fun h => ⟨h.1, h.2⟩⟩
  · obtain ⟨l, hl, rfl⟩ := Option.map_eq_some_iff.mp hr
    have hne : ¬ safiSrPolicy = safiFlowSpec := by decide
    simp only [hne, or_true, forall_const, false_imp_iff, implies_true, and_true]
    rw [← mem_gatedFamilies_srPolicy]
    exact ⟨fun h => h.family, fun h => ⟨h, fun p hp => absurd hp List.not_mem_nil⟩⟩
  · obtain ⟨l, hl, rfl⟩ := Option.map_eq_some_iff.mp hr
    exact iff_of_true ⟨by simp [gatedFamilies], fun p hp => absurd hp List.not_mem_nil⟩
      ⟨by decide, fun h => absurd h (by decide)⟩

theorem of?_eq_none {afi : UInt16} {safi : UInt8} (h : Family.of? afi safi = none) :
    safi ≠ safiFlowSpec ∧ safi ≠ safiSrPolicy := by
  unfold Family.of? at h
  split_ifs at h with hevpn hflow hsr hls
  exact ⟨hflow, hsr⟩

/-- Networks are only read of the families of IP unicast. -/
theorem gated_prefixes {afi : UInt16} {safi : UInt8} {buf : List UInt8} {l : List Prefix}
    (hknown : knownFamily afi safi = true) (h : decodeMpPrefixes afi buf = some l) (nextHop : Option (List UInt8)) :
    (MpAttr.mk afi safi nextHop (.prefixes l)).Gated := by
  refine ⟨?_, inFamily_of_decodeMpPrefixes h⟩
  obtain ⟨rfl | rfl, rfl⟩ := of_decide_eq_true hknown
  · simp [gatedFamilies]
  · simp [gatedFamilies]

theorem proper_iff {code : UInt8} {v routes : List UInt8} (hroutes : routesOf code v = routes) : Proper code v ↔
    (safiOf v = safiFlowSpec ∨ safiOf v = safiSrPolicy → afiOf v = afiIpv4 ∨ afiOf v = afiIpv6) ∧
    (afiOf v = afiIpv6 → safiOf v = safiFlowSpec → ∀ rules, FlowSpec.decodeNlris routes = some rules →
      ∀ spec ∈ rules, ∀ c ∈ spec.components, c.network = none) := by
  subst hroutes
  exact ⟨fun h => ⟨h.afi, h.networks⟩, fun h => ⟨h.1, h.2⟩⟩

/-- Networks are in the way of no family with routes of its own. -/
theorem proper_of_none {code : UInt8} {v : List UInt8} (h : Family.of? (afiOf v) (safiOf v) = none) : Proper code v where
  afi hsafi := by
    obtain ⟨hflow, hsr⟩ := of?_eq_none h
    exact absurd hsafi (by simp [hflow, hsr])
  networks _ hsafi := absurd hsafi (of?_eq_none h).1

theorem gated_decodeReach_iff {v : List UInt8} {m : MpAttr} (h : MpAttr.decodeReach v = some m) :
    m.Gated ↔ Proper PathAttribute.typeMpReachNlri v := by
  match v with
  | [] | [_] | [_, _] | [_, _, _] => cases h
  | a₁ :: a₀ :: safi :: nhLen :: rest =>
    have hroutes : routesOf PathAttribute.typeMpReachNlri (a₁ :: a₀ :: safi :: nhLen :: rest) =
        rest.drop (nhLen.toNat + 1) := by
      have hsum : 5 + nhLen.toNat = nhLen.toNat + 1 + 4 := by omega
      rw [routesOf, if_pos rfl]
      simp [hsum]
    obtain ⟨-, h⟩ | ⟨-, h⟩ := ite_eq_iff.mp h
    · cases h
    cases hf : Family.of? (UInt16.ofNat (value [a₁, a₀])) safi with
    | some f =>
      simp only [hf] at h
      obtain ⟨r, hr, rfl⟩ := Option.map_eq_some_iff.mp h
      rw [gated_ofFamily_iff hf hr, proper_iff hroutes]
      rfl
    | none =>
      simp only [hf] at h
      obtain ⟨-, h⟩ | ⟨hknown, h⟩ := ite_eq_iff.mp h
      · cases h
      obtain ⟨l, hl, rfl⟩ := Option.map_eq_some_iff.mp h
      rw [not_or, Bool.not_eq_false] at hknown
      exact iff_of_true (gated_prefixes hknown.1 hl _) (proper_of_none hf)

theorem gated_decodeUnreach_iff {v : List UInt8} {m : MpAttr} (h : MpAttr.decodeUnreach v = some m) :
    m.Gated ↔ Proper PathAttribute.typeMpUnreachNlri v := by
  match v with
  | [] | [_] | [_, _] => cases h
  | a₁ :: a₀ :: safi :: routes =>
    have hroutes : routesOf PathAttribute.typeMpUnreachNlri (a₁ :: a₀ :: safi :: routes) = routes := rfl
    cases hf : Family.of? (UInt16.ofNat (value [a₁, a₀])) safi with
    | some f =>
      simp only [MpAttr.decodeUnreach, hf] at h
      obtain ⟨r, hr, rfl⟩ := Option.map_eq_some_iff.mp h
      rw [gated_ofFamily_iff hf hr, proper_iff hroutes]
      rfl
    | none =>
      simp only [MpAttr.decodeUnreach, hf] at h
      obtain ⟨-, h⟩ | ⟨hknown, h⟩ := ite_eq_iff.mp h
      · cases h
      obtain ⟨l, hl, rfl⟩ := Option.map_eq_some_iff.mp h
      rw [Bool.not_eq_false] at hknown
      exact iff_of_true (gated_prefixes hknown hl _) (proper_of_none hf)

/-- An attribute of multiprotocol routes that is kept is of a family that the speaker understands, and its networks are
of the address family of its AFI, exactly where FlowSpec and SR Policy come with an AFI of IP, and no FlowSpec rule of
IPv6 matches a network. -/
theorem gated_iff_proper (others : FamilyFormats) (four : Bool) {buf v : List UInt8} {flags code : UInt8} {n used : ℕ}
    {a : PathAttribute} (hframe : PathAttribute.frame buf = some (flags, code, v, n))
    (hcode : code = PathAttribute.typeMpReachNlri ∨ code = PathAttribute.typeMpUnreachNlri)
    (hkeep : PathAttribute.decode (mpFormats others) four buf = some (.keep a, used)) :
    ∃ m, MpAttr.decode code v = some m ∧ m.toAttribute = a ∧ (m.Gated ↔ Proper code v) := by
  have hvalue : ∃ m, MpAttr.decode code v = some m ∧ m.toAttribute = a := by
    simp only [PathAttribute.decode, hframe, Option.bind_eq_bind, Option.bind_some, Option.bind_eq_some_iff] at hkeep
    obtain ⟨r, hr, hkeep⟩ := hkeep
    have hmap : PathAttribute.decodeValue (mpFormats others) four flags code v =
        ((MpAttr.decode code v).map MpAttr.toAttribute).map .ok := by
      obtain rfl | rfl := hcode
      · exact congrArg (Option.map Except.ok) (decodeMpReach_eq others v)
      · exact congrArg (Option.map Except.ok) (decodeMpUnreach_eq others v)
    rw [hmap] at hr
    obtain ⟨a', ha', rfl⟩ := Option.map_eq_some_iff.mp hr
    obtain ⟨m, hm, rfl⟩ := Option.map_eq_some_iff.mp ha'
    obtain ⟨-, heq⟩ | ⟨-, heq⟩ := ite_eq_iff.mp hkeep
    · cases heq
      exact ⟨m, hm, rfl⟩
    · cases heq
  obtain ⟨m, hm, ha⟩ := hvalue
  refine ⟨m, hm, ha, ?_⟩
  obtain rfl | rfl := hcode
  · exact gated_decodeReach_iff hm
  · exact gated_decodeUnreach_iff hm

def noFormats : FamilyFormats where
  nlris _ _ _ := none
  prefixSid _ := none
  tunnelEncap _ := none
  bgpLs _ := none

/-- A rule of IPv4 for what goes to 10.0.0.0/24. -/
def ruleValue : List UInt8 := [0, 1, 133, 0, 0, 5, 1, 24, 10, 0, 0]

theorem gated_ruleValue : ∃ m, MpAttr.decode PathAttribute.typeMpReachNlri ruleValue = some m ∧ m.Gated := by
  obtain ⟨m, hm, -, hiff⟩ := @gated_iff_proper noFormats true ([0x80, 14, 11] ++ ruleValue) ruleValue 0x80 14 14 14
    (.mpReachFamily .flowSpec 1 [] [⟨[5, 1, 24, 10, 0, 0], true⟩]) rfl (.inl rfl) (by decide +kernel)
  exact ⟨m, hm, hiff.mpr ⟨fun _ => .inl rfl, fun h => absurd h (by decide)⟩⟩

/-- FlowSpec with the AFI of L2VPN is kept. -/
theorem not_forall_gated : ¬ ∀ (others : FamilyFormats) (four : Bool) (buf v : List UInt8) (flags code : UInt8) (n used : ℕ)
    (a : PathAttribute), PathAttribute.frame buf = some (flags, code, v, n) →
    code = PathAttribute.typeMpReachNlri ∨ code = PathAttribute.typeMpUnreachNlri →
    PathAttribute.decode (mpFormats others) four buf = some (.keep a, used) →
    ∀ m, MpAttr.decode code v = some m → m.Gated := by
  intro h
  have hgated := h noFormats true [0x80, 15, 3, 0, 25, 133] [0, 25, 133] 0x80 15 6 6
    (.mpUnreachFamily .flowSpec 25 []) rfl (.inr rfl) (by decide +kernel) ⟨25, 133, none, .flowSpec []⟩ (by decide +kernel)
  exact absurd hgated.family (by decide)

end Wren.Bgp
