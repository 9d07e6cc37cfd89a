import Wren.Bgp.Formats
import Wren.Daemon.Bgp.Evpn
import Wren.Daemon.Bgp.Splitting

/-! What a session writes for one call, and what the peer reads of it. -/

namespace Wren.Bgp
open Std

/-! The order of service TLVs, field by field. -/

def Srv6ServiceSid.key (s : Srv6ServiceSid) : Vector UInt8 16 × UInt16 × UInt8 × List UInt8 :=
  (s.sid, s.behavior, s.flags, [s.layout.locatorBlockLen, s.layout.locatorNodeLen, s.layout.functionLen,
    s.layout.argumentLen, s.layout.transpositionLen, s.layout.transpositionOffset])

theorem Srv6ServiceSid.key_injective : Function.Injective key := by
  rintro ⟨sid, behavior, flags, layout⟩ ⟨sid', behavior', flags', layout'⟩ h
  cases layout
  cases layout'
  simp_all [key]

instance : Ord Srv6ServiceSid := ⟨compareOn Srv6ServiceSid.key⟩

instance : TransOrd Srv6ServiceSid := inferInstanceAs (TransCmp (compareOn Srv6ServiceSid.key))

instance : LawfulEqOrd Srv6ServiceSid where
  eq_of_compare h := Srv6ServiceSid.key_injective (LawfulEqOrd.eq_of_compare h)

def Srv6ServiceTlv.key (t : Srv6ServiceTlv) : Bool × List Srv6ServiceSid := (t.isL2, t.sids)

theorem Srv6ServiceTlv.key_injective : Function.Injective key := by
  rintro ⟨isL2, sids⟩ ⟨isL2', sids'⟩ h
  simp_all [key]

instance : Ord Srv6ServiceTlv := ⟨compareOn Srv6ServiceTlv.key⟩

instance : TransOrd Srv6ServiceTlv := inferInstanceAs (TransCmp (compareOn Srv6ServiceTlv.key))

instance : LawfulEqOrd Srv6ServiceTlv where
  eq_of_compare h := Srv6ServiceTlv.key_injective (LawfulEqOrd.eq_of_compare h)

end Wren.Bgp

namespace Wren.Daemon.Bgp
open Wren.Core Wren.Bgp OrdMap

/-- What to do with the traffic of a rule. A rate is kept as the bits of the floating-point number. -/
inductive FlowSpecAction where
  | rateLimit (rate : UInt32)
  | marking (dscp : UInt8)
deriving DecidableEq

def FlowSpecAction.encode : FlowSpecAction → Vector UInt8 8
  | rateLimit rate => Vector.ofFn fun i => ([0x80, 0x06, 0, 0] ++ u32Octets rate).getD i 0
  | marking dscp => #v[0x80, 0x09, 0, 0, 0, 0, 0, dscp &&& 0x3f]

structure FlowSpecRuleCfg where
  afi : UInt16
  spec : FlowSpec
  action : FlowSpecAction
deriving DecidableEq

namespace EvpnOriginRoute

/-- What the routes of one message have in common. -/
def shared (r : EvpnOriginRoute) : List (Vector UInt8 8) × List UInt8 × Option (List Srv6ServiceTlv) :=
  (r.extCommunities, r.nextHop, r.srv6)

end EvpnOriginRoute

namespace Session
variable (s : Session)

def evpnAttrs (ext : List (Vector UInt8 8)) (srv6 : Option (List Srv6ServiceTlv)) : List PathAttribute :=
  s.basePathAttrs ++ (if ext = [] then [] else [.extendedCommunities ext]) ++ srv6.elim [] fun tlvs => [.prefixSid tlvs []]

/-- One message for all routes that share their attributes. -/
def advertiseEvpn (routes : List EvpnOriginRoute) : List Update :=
  (groups EvpnOriginRoute.shared EvpnOriginRoute.nlri routes).toList.map fun g =>
    { attributes := s.evpnAttrs g.1.1 g.1.2.2 ++ [.mpReachFamily .evpn afiL2vpn g.1.2.1 (g.2.map FamilyNlri.ofEvpn)] }

/-- One message for all rules of a family and an action. -/
def advertiseFlowspec (rules : List FlowSpecRuleCfg) : List Update :=
  (groups (fun r => (r.afi, r.action.encode)) FlowSpecRuleCfg.spec rules).toList.map fun g =>
    { attributes := s.basePathAttrs ++ [.extendedCommunities [g.1.2]] ++
        [.mpReachFamily .flowSpec g.1.1 [] (g.2.map FamilyNlri.ofFlowSpec)] }

end Session

/-- The calls that make a session write UPDATEs. -/
inductive Call where
  | advertise (routes : List OriginRoute)
  | withdraw (prefixes : List Prefix)
  | propagateRoutes (routes : List PropRoute)
  | withdrawAddPath (pfx : Prefix) (ids : List UInt32)
  | advertiseEvpn (routes : List EvpnOriginRoute)
  | advertiseFlowspec (rules : List FlowSpecRuleCfg)

namespace Call

/-- The calls with a single element each. -/
def singles : Call → List Call
  | advertise routes => routes.map fun r => advertise [r]
  | withdraw prefixes => prefixes.map fun p => withdraw [p]
  | propagateRoutes routes => routes.map fun r => propagateRoutes [r]
  | withdrawAddPath p ids => ids.map fun id => withdrawAddPath p [id]
  | advertiseEvpn routes => routes.map fun r => advertiseEvpn [r]
  | advertiseFlowspec rules => rules.map fun r => advertiseFlowspec [r]

/-- The calls that mind the length of a message. -/
def Bounded : Call → Prop
  | advertise _ | propagateRoutes _ => True
  | _ => False

end Call

def Session.messages (s : Session) : Call → List Update
  | .advertise routes => s.advertiseUpdates routes
  | .withdraw prefixes => s.withdraw prefixes
  | .propagateRoutes routes => s.propagateRoutes routes
  | .withdrawAddPath p ids => Session.withdrawAddPath p ids
  | .advertiseEvpn routes => s.advertiseEvpn routes
  | .advertiseFlowspec rules => s.advertiseFlowspec rules

/-- What a message can carry: a network, maybe with an identifier, or a route of another family. -/
inductive Item where
  | network (p : Prefix) (id : Option UInt32)
  | family (f : Family) (afi : UInt16) (n : FamilyNlri)
deriving DecidableEq

def identify (ps : List Prefix) (ids : List UInt32) : List Item :=
  if ids = [] then ps.map fun p => .network p none else List.zipWith (fun p id => .network p (some id)) ps ids

def itemsOf : PathAttribute → List Item
  | .mpReachNlri _ _ _ nlri => nlri.map fun p => .network p none
  | .mpUnreachNlri _ _ withdrawn => withdrawn.map fun p => .network p none
  | .mpReachFamily f afi _ nlri => nlri.map (.family f afi)
  | .mpUnreachFamily f afi withdrawn => withdrawn.map (.family f afi)
  | _ => []

def carried (u : Update) : List Item :=
  identify u.withdrawn u.withdrawnPathIds ++ identify u.nlri u.nlriPathIds ++ u.attributes.flatMap itemsOf

namespace Session
variable (s : Session)

/-- There is a next hop for the network of a learned route. -/
def hasNextHop (p : Prefix) (nextHop : IpAddr) : Bool :=
  if p.isIpv4 then s.fromEbgp || nextHop.isIpv4
  else s.mpIpv6 && if s.fromEbgp then s.loc.nextHop6.isSome else !nextHop.isIpv4

/-- The export rules let a learned route through to this peer. -/
def eligible (r : PropRoute) : Bool :=
  shouldPropagate r.path s.peerType s.rrClient s.addr && !(s.otcEgressBlock && r.path.otc.isSome) &&
    (filterPath s.exportFilter r.pfx r.path).any fun path => s.hasNextHop r.pfx path.nextHop

/-- What a call is to tell this peer: what the export rules let through, in the families that were
negotiated. -/
def items : Call → List Item
  | .advertise routes =>
    ((s.exported routes).filter fun r => (s.carrierFor r.pfx).isSome).map fun r => .network r.pfx none
  | .withdraw prefixes => (prefixes.filter fun p => p.isIpv4 || s.mpIpv6).map fun p => .network p none
  | .propagateRoutes routes =>
    if s.exportDenyAll then [] else (routes.filter s.eligible).map fun r => .network r.pfx none
  | .withdrawAddPath p ids => if p.isIpv4 then ids.map fun id => .network p (some id) else []
  | .advertiseEvpn routes => routes.map fun r => .family .evpn afiL2vpn (.ofEvpn r.nlri)
  | .advertiseFlowspec rules => rules.map fun r => .family .flowSpec r.afi (.ofFlowSpec r.spec)

/-- What the elements of a call are known to be: paths that were received and whose AS path can be counted
as it is sent, EVPN routes and next hops that have an encoding, and rules of which each component has one. -/
def Valid (fmt : FamilyFormats) : Call → Prop
  | .propagateRoutes routes =>
    ∀ r ∈ routes, Sound fmt r.path ∧ ∀ seg ∈ s.sentAsPath r.path.asPath, seg.asns.length ≤ 255
  | .advertiseEvpn routes => ∀ r ∈ routes, r.nlri.WellFormed ∧ r.nextHop.length ≤ 255
  | .advertiseFlowspec rules => ∀ r ∈ rules, ∀ c ∈ r.spec.components, c.WellFormed
  | _ => True

end Session

/-! ### What the peer reads -/

theorem length_encodeValue_lt_size (s : Session) {attrs : List PathAttribute} {a : PathAttribute} (ha : a ∈ attrs) :
    (a.encodeValue s.fourOctet).length < s.size { attributes := attrs } := by
  have hone := PathAttribute.length_encodeValue_lt s.fourOctet a
  have hmem := PathAttribute.length_encode_le s.fourOctet ha
  rw [Session.size, length_encodeUpdate]
  dsimp only
  omega

theorem length_le_flatMap {α : Type} {f : α → List UInt8} {l : List α} {a : α} (h : a ∈ l) :
    (f a).length ≤ (l.flatMap f).length := by
  rw [List.flatMap_def]
  exact (List.sublist_flatten_of_mem (List.mem_map_of_mem h)).length_le

/-- An attribute of a type of its own beside others. -/
theorem Describes.concat {fmt : FamilyFormats} {attrs : List PathAttribute} (h : Describes fmt attrs)
    {a : PathAttribute} (ha : a.Sendable fmt) (hnew : a.typeCode ∉ attrs.map PathAttribute.typeCode)
    (hnext : a.typeCode ≠ PathAttribute.typeNextHop) (hreach : a.typeCode ≠ PathAttribute.typeMpReachNlri) :
    Describes fmt (attrs ++ [a]) where
  sendable := by
    intro b hb
    rcases List.mem_append.mp hb with hb | hb
    · exact h.sendable b hb
    · rw [List.mem_singleton.mp hb]
      exact ha
  codes := by
    rw [List.map_append, List.map_singleton, ← List.concat_eq_append, List.nodup_concat]
    exact ⟨hnew, h.codes⟩
  noNextHop := by simpa using ⟨by simpa using h.noNextHop, hnext.symm⟩
  noReach := by simpa using ⟨by simpa using h.noReach, hreach.symm⟩
  origin := h.origin.imp fun _ ho => List.mem_append_left _ ho
  asPath := h.asPath.imp fun _ hsegs => List.mem_append_left _ hsegs

namespace Session
variable {s : Session} {others : FamilyFormats} {u : Update}

theorem sendable_of_mem_advertise (hs : s.Numbered) {fmt : FamilyFormats} {routes : List OriginRoute}
    (hu : u ∈ s.advertiseUpdates routes) : u.Sendable fmt := by
  obtain ⟨aggregate, tags, l, c, hu, hcarries, -⟩ := s.mem_advertiseUpdates hu
  obtain ⟨part, hsub, -, rfl⟩ := Carrier.mem_splitUpdates hu
  obtain ⟨last, base, hlast, heq⟩ := (hcarries.subset hsub).reaches (s.taggedAttrs aggregate tags)
  rw [heq]
  exact hlast.sendable_update (describes_originated hs aggregate tags.1 tags.2.1 tags.2.2) []

theorem sendable_of_mem_withdraw {fmt : FamilyFormats} {prefixes : List Prefix} (hu : u ∈ s.withdraw prefixes) :
    u.Sendable fmt := by
  unfold withdraw at hu
  dsimp only at hu
  rcases List.mem_append.mp hu with hu | hu
  · split_ifs at hu
    · cases hu
    · rw [List.mem_singleton.mp hu]
      exact ⟨by simp, by simp, fun p hp => (List.mem_filter.mp hp).2, by simp, rfl⟩
  · split_ifs at hu
    · rw [List.mem_singleton.mp hu]
      refine ⟨?_, by simp, by simp, by simp, rfl⟩
      intro a ha
      rw [List.mem_singleton.mp ha]
      refine ⟨rfl, fun p hp => ?_⟩
      simpa using (List.mem_filter.mp hp).2
    · cases hu

theorem sendable_of_mem_withdrawAddPath {fmt : FamilyFormats} {p : Prefix} {ids : List UInt32}
    (hu : u ∈ withdrawAddPath p ids) : u.Sendable fmt := by
  unfold withdrawAddPath at hu
  split_ifs at hu with hnone
  · cases hu
  · rw [List.mem_singleton.mp hu]
    refine ⟨by simp, by simp, fun q hq => ?_, by simp, rfl⟩
    obtain ⟨id, -, rfl⟩ := List.mem_map.mp hq
    simpa using (not_or.mp hnone).2

theorem sendable_of_mem_propagate {fmt : FamilyFormats} {routes : List PropRoute}
    (hv : s.Valid fmt (.propagateRoutes routes)) (hs : s.Numbered) (hu : u ∈ s.propagateRoutes routes) :
    u.Sendable fmt := by
  unfold propagateRoutes at hu
  split_ifs at hu
  · cases hu
  obtain ⟨r, hr, hone⟩ := List.mem_filterMap.mp hu
  obtain ⟨hsound, hcount⟩ := hv r hr
  obtain ⟨q, otc, last, nlri, hq, hlast, rfl⟩ := propagateOne_cases hone
  have hsame : q.asPath = r.path.asPath := (filterPath_frame hq).2.1
  have hzero := noZero_sentAsPath hs hsound.noZero
  have hpath : ∀ seg ∈ s.sentAsPath q.asPath, seg.Countable := by
    rw [hsame]
    exact fun seg hseg => ⟨hcount seg hseg, hzero seg hseg⟩
  exact hlast.sendable_update (describes_propagated (hsound.filterPath hq) hpath otc) []

theorem describes_evpnAttrs (hs : s.Numbered) {ext : List (Vector UInt8 8)} {srv6 : Option (List Srv6ServiceTlv)}
    (hsrv6 : ∀ tlvs ∈ srv6, ∀ t ∈ tlvs, (encodeSrv6ServiceTlv t).length < 65536) :
    Describes (readFormats others) (s.evpnAttrs ext srv6) := by
  have hbase : Describes (readFormats others) (s.basePathAttrs ++ communityAttrs [] [] ext) := by
    have hall : Describes (readFormats others) (s.taggedAttrs false ([], [], ext)) :=
      describes_originated hs false [] [] ext
    simpa [taggedAttrs] using hall
  have hattrs : communityAttrs [] [] ext = if ext = [] then [] else [.extendedCommunities ext] := by
    simp [communityAttrs]
  rw [hattrs] at hbase
  cases srv6 with
  | none => simpa [evpnAttrs] using hbase
  | some tlvs =>
    have hcodes := s.codes_originated false [] [] ext
    rw [hattrs] at hcodes
    have hother : PathAttribute.typePrefixSid ∉ originatedTypes ∧
        PathAttribute.typePrefixSid ≠ PathAttribute.typeNextHop ∧
          PathAttribute.typePrefixSid ≠ PathAttribute.typeMpReachNlri := by decide
    refine hbase.concat ?_ (fun hmem => ?_) hother.2.1 hother.2.2
    · have hvalue : (PathAttribute.prefixSid tlvs []).encodeValue true = tlvs.flatMap encodeSrv6ServiceTlv :=
        List.append_nil _
      rw [PathAttribute.Sendable, hvalue]
      exact decodePrefixSid_encode (hsrv6 tlvs rfl)
    · have hcode : (PathAttribute.prefixSid tlvs []).typeCode = PathAttribute.typePrefixSid := rfl
      rw [hcode] at hmem
      exact hother.1 (hcodes.subset (by simpa using hmem))

/-- A route of another family behind its attributes. -/
theorem sendable_family {attrs : List PathAttribute} (h : Describes (readFormats others) attrs) {f : Family}
    {afi : UInt16} {nextHop : List UInt8} {nlri : List FamilyNlri} (hfam : Family.of? afi f.safi = some f)
    (hnext : nextHop.length ≤ 255)
    (hnlri : (readFormats others).nlris f afi (nlri.flatMap FamilyNlri.octets) = some nlri) :
    ({ attributes := attrs ++ [.mpReachFamily f afi nextHop nlri] } : Update).Sendable (readFormats others) := by
  have hreach : (PathAttribute.mpReachFamily f afi nextHop nlri).Sendable (readFormats others) := ⟨hfam, hnext, hnlri⟩
  exact h.sendable_update hreach (.inr rfl) (by simp) (fun hne => absurd rfl hne) []

theorem sendable_of_mem_evpn (hs : s.Numbered) {routes : List EvpnOriginRoute}
    (hv : s.Valid (readFormats others) (.advertiseEvpn routes)) (hu : u ∈ s.advertiseEvpn routes)
    (hsize : s.size u ≤ maxMessageLen) : u.Sendable (readFormats others) := by
  obtain ⟨⟨⟨ext, nextHop, srv6⟩, nlri⟩, hg, rfl⟩ := List.mem_map.mp hu
  dsimp only at hsize ⊢
  have hmax : maxMessageLen = 4096 := rfl
  have hnlri : ∀ n ∈ nlri, n.WellFormed := by
    intro n hn
    obtain ⟨r, hr, -, rfl⟩ := exists_of_mem_groups hg hn
    exact (hv r hr).1
  have hnext : nextHop.length ≤ 255 := by
    obtain ⟨n, hn⟩ := List.exists_mem_of_ne_nil _ (ne_nil_of_mem_groups hg)
    obtain ⟨r, hr, hkey, -⟩ := exists_of_mem_groups hg hn
    cases hkey
    exact (hv r hr).2
  refine sendable_family (describes_evpnAttrs hs ?_) rfl hnext (nlris_ofEvpn others hnlri)
  intro tlvs htlvs t ht
  have hmem : PathAttribute.prefixSid tlvs [] ∈ s.evpnAttrs ext srv6 ++
      [.mpReachFamily .evpn afiL2vpn nextHop (nlri.map FamilyNlri.ofEvpn)] := by
    rw [Option.mem_def.mp htlvs]
    simp [evpnAttrs]
  have hvalue := length_encodeValue_lt_size s hmem
  have hone := length_le_flatMap (f := encodeSrv6ServiceTlv) ht
  simp only [PathAttribute.encodeValue, List.length_append] at hvalue
  omega

theorem sendable_of_mem_flowspec (hs : s.Numbered) {rules : List FlowSpecRuleCfg}
    (hv : s.Valid (readFormats others) (.advertiseFlowspec rules)) (hu : u ∈ s.advertiseFlowspec rules)
    (hsize : s.size u ≤ maxMessageLen) : u.Sendable (readFormats others) := by
  obtain ⟨⟨⟨afi, ec⟩, specs⟩, hg, rfl⟩ := List.mem_map.mp hu
  dsimp only at hsize ⊢
  have hmax : maxMessageLen = 4096 := rfl
  have hbase : Describes (readFormats others) (s.basePathAttrs ++ [.extendedCommunities [ec]]) := by
    have hall : Describes (readFormats others) (s.taggedAttrs false ([], [], [ec])) :=
      describes_originated hs false [] [] [ec]
    simpa [taggedAttrs, communityAttrs] using hall
  have hfam : Family.of? afi safiFlowSpec = some .flowSpec := by
    simp +decide [Family.of?]
  refine sendable_family hbase hfam (by simp) (nlris_ofFlowSpec others fun spec hspec => ?_)
  obtain ⟨r, hr, -, rfl⟩ := exists_of_mem_groups hg hspec
  refine ⟨hv r hr, ?_⟩
  have hmem : PathAttribute.mpReachFamily .flowSpec afi [] (specs.map FamilyNlri.ofFlowSpec) ∈
      s.basePathAttrs ++ [.extendedCommunities [ec]] ++
        [.mpReachFamily .flowSpec afi [] (specs.map FamilyNlri.ofFlowSpec)] := by simp
  have hvalue := length_encodeValue_lt_size s hmem
  have hone := length_le_flatMap (f := FamilyNlri.octets) (List.mem_map_of_mem (f := FamilyNlri.ofFlowSpec) hspec)
  have hbody : r.spec.encodeBody.length ≤ (FamilyNlri.ofFlowSpec r.spec).octets.length := by
    simp [FamilyNlri.ofFlowSpec, FlowSpec.encode]
  simp only [PathAttribute.encodeValue, List.length_append, List.length_cons, List.length_nil] at hvalue
  omega

/-- Each message can be understood, if it is not too long. -/
theorem sendable_of_mem_messages (hs : s.Numbered) {c : Call} (hv : s.Valid (readFormats others) c)
    (hu : u ∈ s.messages c) (hsize : s.size u ≤ maxMessageLen) : u.Sendable (readFormats others) := by
  cases c with
  | advertise routes => exact sendable_of_mem_advertise hs hu
  | withdraw prefixes => exact sendable_of_mem_withdraw hu
  | propagateRoutes routes => exact sendable_of_mem_propagate hv hs hu
  | withdrawAddPath p ids => exact sendable_of_mem_withdrawAddPath hu
  | advertiseEvpn routes => exact sendable_of_mem_evpn hs hv hu hsize
  | advertiseFlowspec rules => exact sendable_of_mem_flowspec hs hv hu hsize

/-- Where the length is minded, no message is too long if none for a single element is. -/
theorem size_le_of_mem_messages {c : Call} (hc : c.Bounded)
    (hone : ∀ c' ∈ c.singles, ∀ u ∈ s.messages c', s.size u ≤ maxMessageLen) (hu : u ∈ s.messages c) :
    s.size u ≤ maxMessageLen := by
  cases c with
  | advertise routes =>
    have hallowed : s.exportDenyAll = false := by
      by_contra hdeny
      simp [messages, advertiseUpdates, Bool.not_eq_false _ ▸ hdeny] at hu
    refine s.size_le_of_mem_advertiseUpdates (fun r hr v hv => ?_) hu
    refine hone _ (List.mem_map_of_mem hr) v ?_
    rw [messages, advertiseUpdates_singleton, advertise, hallowed, if_neg Bool.false_ne_true]
    exact List.mem_filterMap.mpr ⟨r, List.mem_singleton_self r, hv⟩
  | propagateRoutes routes =>
    rw [messages, propagateRoutes] at hu
    split_ifs at hu with hdeny
    · cases hu
    obtain ⟨r, hr, hv⟩ := List.mem_filterMap.mp hu
    refine hone _ (List.mem_map_of_mem hr) u ?_
    rw [messages, propagateRoutes, if_neg hdeny]
    exact List.mem_filterMap.mpr ⟨r, List.mem_singleton_self r, hv⟩
  | withdraw _ | withdrawAddPath _ _ | advertiseEvpn _ | advertiseFlowspec _ => exact hc.elim

/-! ### Nothing is lost and nothing told twice -/

theorem itemsOf_eq_nil {a : PathAttribute} (hreach : a.typeCode ≠ PathAttribute.typeMpReachNlri)
    (hunreach : a.typeCode ≠ PathAttribute.typeMpUnreachNlri) : itemsOf a = [] := by
  cases a <;> first | rfl | exact absurd rfl hreach | exact absurd rfl hunreach

theorem flatMap_itemsOf_eq_nil {attrs : List PathAttribute}
    (hreach : PathAttribute.typeMpReachNlri ∉ attrs.map PathAttribute.typeCode)
    (hunreach : PathAttribute.typeMpUnreachNlri ∉ attrs.map PathAttribute.typeCode) : attrs.flatMap itemsOf = [] := by
  rw [List.flatMap_eq_nil_iff]
  intro a ha
  refine itemsOf_eq_nil (fun h => hreach ?_) fun h => hunreach ?_
  · exact h ▸ List.mem_map_of_mem ha
  · exact h ▸ List.mem_map_of_mem ha

theorem items_taggedAttrs (s : Session) (aggregate : Bool) (tags : TagKey) :
    (s.taggedAttrs aggregate tags).flatMap itemsOf = [] := by
  have hcodes := s.codes_originated aggregate tags.1 tags.2.1 tags.2.2
  exact flatMap_itemsOf_eq_nil (fun h => absurd (hcodes.subset h) (by decide))
    fun h => absurd (hcodes.subset h) (by decide)

theorem carried_build {attrs : List PathAttribute} (h : attrs.flatMap itemsOf = []) (c : Carrier) (nlri : List Prefix) :
    carried (c.build attrs nlri) = nlri.map fun p => .network p none := by
  cases c <;> simp [Carrier.build, carried, identify, itemsOf, h]

theorem carried_reaches {attrs : List PathAttribute} (h : attrs.flatMap itemsOf = []) {ps nlri : List Prefix}
    {last : PathAttribute} (hlast : Reaches ps last nlri) :
    carried { attributes := attrs ++ [last], nlri } = ps.map fun p => .network p none := by
  cases hlast <;> simp [carried, identify, itemsOf, h]

theorem carried_advertise (routes : List OriginRoute) :
    ((s.messages (.advertise routes)).flatMap carried).Perm (s.items (.advertise routes)) := by
  have hitem : ∀ u ∈ s.advertiseUpdates routes, carried u = (changes u).map fun d => .network d.key none := by
    intro u hu
    obtain ⟨aggregate, tags, l, c, hu, -, -⟩ := s.mem_advertiseUpdates hu
    obtain ⟨part, -, -, rfl⟩ := Carrier.mem_splitUpdates hu
    rw [carried_build (s.items_taggedAttrs aggregate tags), Carrier.changes_build (s.plain_taggedAttrs aggregate tags),
      List.map_map]
    rfl
  have htold : ∀ r ∈ s.exported routes, (s.told (s.originatedAttrs r) r.pfx).map (fun d => Item.network d.key none) =
      if (s.carrierFor r.pfx).isSome then [.network r.pfx none] else [] := by
    intro r _
    rw [originatedAttrs, told_eq s (s.plain_taggedAttrs r.atomicAggregate r.tags)]
    cases s.carrierFor r.pfx <;> rfl
  have hperm := (s.changes_advertiseUpdates routes).map fun d => Item.network d.key none
  rw [flatMap_changes_advertise, List.map_flatMap, List.map_flatMap, List.flatMap_congr htold] at hperm
  rw [messages, List.flatMap_congr hitem]
  refine hperm.trans (List.Perm.of_eq ?_)
  rw [items]
  induction s.exported routes with
  | nil => rfl
  | cons r rs ih =>
    rw [List.flatMap_cons, ih, List.filter_cons]
    split_ifs <;> rfl

theorem isSome_sendPropagated (s : Session) (attrs : List PathAttribute) (p : Prefix) (nextHop : IpAddr) :
    (s.sendPropagated attrs p nextHop).isSome = s.hasNextHop p nextHop := by
  unfold sendPropagated hasNextHop
  cases p.isIpv4 <;> cases s.fromEbgp <;> cases s.mpIpv6 <;> cases s.loc.nextHop6 <;> cases nextHop <;> rfl

theorem isSome_propagateOne (s : Session) (r : PropRoute) : (s.propagateOne r.pfx r.path).isSome = s.eligible r := by
  unfold propagateOne eligible
  cases shouldPropagate r.path s.peerType s.rrClient s.addr with
  | false => rfl
  | true =>
    cases s.otcEgressBlock && r.path.otc.isSome with
    | true => rfl
    | false =>
      cases filterPath s.exportFilter r.pfx r.path with
      | none => rfl
      | some q => exact s.isSome_sendPropagated _ _ _

/-- Messages with one item each. -/
theorem flatMap_carried {α : Type} {f : α → Option Update} {keep : α → Bool} {item : α → Item} {l : List α}
    (hsome : ∀ a, (f a).isSome = keep a) (hone : ∀ a ∈ l, ∀ u, f a = some u → carried u = [item a]) :
    (l.filterMap f).flatMap carried = (l.filter keep).map item := by
  induction l with
  | nil => rfl
  | cons a l ih =>
    have htail := ih fun b hb => hone b (List.mem_cons_of_mem _ hb)
    have hkeep := hsome a
    cases hu : f a with
    | none =>
      rw [hu] at hkeep
      rw [List.filterMap_cons_none hu, List.filter_cons_of_neg (by simp [← hkeep]), htail]
    | some u =>
      rw [hu] at hkeep
      rw [List.filterMap_cons_some hu, List.filter_cons_of_pos hkeep.symm, List.flatMap_cons,
        hone a List.mem_cons_self u hu, htail]
      rfl

theorem carried_propagate {fmt : FamilyFormats} {routes : List PropRoute} (hv : s.Valid fmt (.propagateRoutes routes)) :
    (s.messages (.propagateRoutes routes)).flatMap carried = s.items (.propagateRoutes routes) := by
  rw [messages, items, propagateRoutes]
  split_ifs
  · rfl
  refine flatMap_carried s.isSome_propagateOne fun r hr u hu => ?_
  obtain ⟨q, otc, last, nlri, hq, hlast, rfl⟩ := propagateOne_cases hu
  have hsound := (hv r hr).1.filterPath hq
  have hbare : (s.propagatedBaseAttrs q ++ otcAttrs otc).flatMap itemsOf = [] :=
    flatMap_itemsOf_eq_nil (notMem_propagated hsound otc (by decide) (by decide))
      (notMem_propagated hsound otc (by decide) (by decide))
  exact carried_reaches hbare hlast

theorem carried_withdraw (s : Session) (prefixes : List Prefix) :
    ((s.messages (.withdraw prefixes)).flatMap carried).Perm (s.items (.withdraw prefixes)) := by
  let item : Prefix → Item := fun p => .network p none
  have hcarried : (s.withdraw prefixes).flatMap carried = (prefixes.filter fun p => p.isIpv4).map item ++
      if s.mpIpv6 then (prefixes.filter fun p => !p.isIpv4).map item else [] := by
    unfold withdraw
    cases s.mpIpv6 <;> by_cases h4 : prefixes.filter (fun p => p.isIpv4) = [] <;>
      by_cases h6 : prefixes.filter (fun p => !p.isIpv4) = [] <;> simp [h4, h6, carried, identify, itemsOf, item]
  rw [messages, items, hcarried]
  cases s.mpIpv6 with
  | false => simp [item]
  | true =>
    rw [if_pos rfl, ← List.map_append]
    simpa using (List.filter_append_perm (fun p : Prefix => p.isIpv4) prefixes).map item

theorem carried_withdrawAddPath (s : Session) (p : Prefix) (ids : List UInt32) :
    (s.messages (.withdrawAddPath p ids)).flatMap carried = s.items (.withdrawAddPath p ids) := by
  rw [messages, items, withdrawAddPath]
  cases hv4 : p.isIpv4 with
  | false => simp
  | true =>
    by_cases hnil : ids = []
    · simp [hnil]
    · have hzip : ∀ l : List UInt32, List.zipWith (fun p id => Item.network p (some id)) (l.map fun _ => p) l =
          l.map fun id => .network p (some id) := by
        intro l
        induction l with
        | nil => rfl
        | cons id l ih => rw [List.map_cons, List.zipWith_cons_cons, ih, List.map_cons]
      have hmany := hzip ids
      rw [List.map_const'] at hmany
      simp [hnil, carried, identify, hmany]

/-- What is in the groups is what came. -/
theorem flatMap_groups {κ ν α : Type} [Ord κ] [Std.TransOrd κ] [Std.LawfulEqOrd κ] [DecidableEq κ] {key : α → κ}
    {val : α → ν} {l : List α} {build : κ × List ν → Update} (item : κ → ν → Item)
    (h : ∀ g, carried (build g) = g.2.map (item g.1)) :
    (((groups key val l).toList.map build).flatMap carried).Perm (l.map fun a => item (key a) (val a)) := by
  have hpairs := (perm_groups key val l).map fun e => item e.1 e.2
  rw [pairs, List.map_flatMap, List.map_map] at hpairs
  rw [List.flatMap_map]
  simpa [h, Function.comp_def] using hpairs

theorem items_basePathAttrs (s : Session) : s.basePathAttrs.flatMap itemsOf = [] := by
  simpa [taggedAttrs, communityAttrs] using s.items_taggedAttrs false ([], [], [])

theorem carried_evpn (s : Session) (routes : List EvpnOriginRoute) :
    ((s.messages (.advertiseEvpn routes)).flatMap carried).Perm (s.items (.advertiseEvpn routes)) := by
  refine flatMap_groups (fun _ n => .family .evpn afiL2vpn (.ofEvpn n)) fun g => ?_
  have hbare : (s.evpnAttrs g.1.1 g.1.2.2).flatMap itemsOf = [] := by
    rw [evpnAttrs, List.flatMap_append, List.flatMap_append, s.items_basePathAttrs]
    cases g.1.2.2 <;> split_ifs <;> rfl
  simp [carried, identify, itemsOf, hbare]

theorem carried_flowspec (s : Session) (rules : List FlowSpecRuleCfg) :
    ((s.messages (.advertiseFlowspec rules)).flatMap carried).Perm (s.items (.advertiseFlowspec rules)) := by
  refine flatMap_groups (fun (k : UInt16 × Vector UInt8 8) spec => .family .flowSpec k.1 (.ofFlowSpec spec)) fun g => ?_
  simp [carried, identify, itemsOf, s.items_basePathAttrs]

/-- The messages of a call carry what it is to tell, each once. -/
theorem perm_carried {fmt : FamilyFormats} {c : Call} (hv : s.Valid fmt c) :
    ((s.messages c).flatMap carried).Perm (s.items c) := by
  cases c with
  | advertise routes => exact carried_advertise routes
  | withdraw prefixes => exact s.carried_withdraw prefixes
  | propagateRoutes routes => exact .of_eq (carried_propagate hv)
  | withdrawAddPath p ids => exact .of_eq (s.carried_withdrawAddPath p ids)
  | advertiseEvpn routes => exact s.carried_evpn routes
  | advertiseFlowspec rules => exact s.carried_flowspec rules

/-- What is known of a session and of a call: among others that a message with a single element is well
below the limit. -/
structure Given (others : FamilyFormats) (s : Session) (c : Call) : Prop where
  numbered : s.Numbered
  valid : s.Valid (readFormats others) c
  single : ∀ c' ∈ c.singles, ∀ u ∈ s.messages c', s.size u ≤ 4000

/-- What the peer makes of the octets of a message. -/
def readBack (others : FamilyFormats) (s : Session) (u : Update) : Except DecodeError Message :=
  Message.decode (readFormats others) s.fourOctet ⟨s.addPathSend⟩
    ((Message.update u).encode s.fourOctet ⟨s.addPathSend⟩)

/-- What a session writes is received: it is short enough where its length is minded, the peer reads each
message that is short enough as it is on the wire, and everything is told once. -/
theorem messages_received {c : Call} (h : Given others s c) :
    (c.Bounded → ∀ u ∈ s.messages c, s.size u ≤ maxMessageLen) ∧
      (∀ u ∈ s.messages c, s.size u ≤ maxMessageLen →
        s.readBack others u = .ok (.update (u.onWire s.fourOctet ⟨s.addPathSend⟩))) ∧
        ((s.messages c).flatMap carried).Perm (s.items c) := by
  have hmax : maxMessageLen = 4096 := rfl
  refine ⟨fun hc u hu => size_le_of_mem_messages hc (fun c' hc' v hv => ?_) hu, fun u hu hsize => ?_, perm_carried h.valid⟩
  · have hle := h.single c' hc' v hv
    omega
  · exact Message.decode_encode_onWire (sendable_of_mem_messages h.numbered h.valid hu hsize) hsize

end Session

namespace Sample

/-- The speaker in AS 70000, and a peer that knows ASes of two octets only. -/
def narrow : Session := { session 1 false with loc := { loc with localAs := 70000 }, fourOctet := false }

def network (communities : List UInt32) : OriginRoute := ⟨net10, communities, [], [], false⟩

/-- The addresses from 10.0.0.0 on. -/
def hosts (n : ℕ) : List Prefix := (List.range n).map fun i => Prefix.host (.v4 (0x0a000000 + BitVec.ofNat 32 i))

theorem messages_withdraw {ps : List Prefix} (hne : ps ≠ []) (hps : ∀ p ∈ ps, p.isIpv4 = true) :
    narrow.messages (.withdraw ps) = [{ withdrawn := ps }] := by
  have hfour : ps.filter (fun p => p.isIpv4) = ps := List.filter_eq_self.mpr hps
  have hsix : ps.filter (fun p => !p.isIpv4) = [] := List.filter_eq_nil_iff.mpr fun p hp => by simp [hps p hp]
  simp [Session.messages, Session.withdraw, hfour, hsix, hne]

/-- A withdrawal of IPv4 hosts is one message, with five octets for each. -/
theorem size_withdraw {ps : List Prefix} (hne : ps ≠ []) (hps : ∀ p ∈ ps, p.isIpv4 = true ∧ p.len = 32) {u : Update}
    (hu : u ∈ narrow.messages (.withdraw ps)) : narrow.size u = 23 + 5 * ps.length := by
  have hcost : ∀ l : List Prefix, (∀ p ∈ l, p.isIpv4 = true ∧ p.len = 32) → (l.map (routeCost false)).sum = 5 * l.length := by
    intro l hl
    induction l with
    | nil => rfl
    | cons p l ih =>
      have hp : routeCost false p = 5 := by
        rw [routeCost, (hl p List.mem_cons_self).2]
        rfl
      rw [List.map_cons, List.sum_cons, hp, ih fun q hq => hl q (List.mem_cons_of_mem _ hq), List.length_cons]
      omega
  rw [messages_withdraw hne fun p hp => (hps p hp).1, List.mem_singleton] at hu
  have hlen := length_encodeUpdate narrow.fourOctet ⟨narrow.addPathSend⟩ u
  subst hu
  have hroutes := length_encodeRoutes false (fun p hp => (hps p hp).1) []
  rw [hcost ps hps] at hroutes
  have hheader : headerLen = 19 := rfl
  rw [Session.size, hlen]
  change headerLen + 4 + (encodeRoutes false ps []).length + 0 + 0 = _
  omega

theorem of_mem_hosts {n : ℕ} {p : Prefix} (hp : p ∈ hosts n) : p.isIpv4 = true ∧ p.len = 32 := by
  obtain ⟨i, -, rfl⟩ := List.mem_map.mp hp
  exact ⟨rfl, rfl⟩

theorem given_withdraw (n : ℕ) : Session.Given Message.noFamilies narrow (.withdraw (hosts n)) := by
  refine ⟨⟨by decide, by decide⟩, trivial, fun c' hc' u hu => ?_⟩
  obtain ⟨p, hp, rfl⟩ := List.mem_map.mp hc'
  have hsize := size_withdraw (List.cons_ne_nil p []) (fun q hq => by
    rw [List.mem_singleton.mp hq]
    exact of_mem_hosts hp) hu
  rw [hsize, List.length_singleton]
  omega

theorem given_advertise (communities : List UInt32)
    (h : ∀ c' ∈ (Call.advertise [network communities]).singles, ∀ u ∈ narrow.messages c', narrow.size u ≤ 4000) :
    Session.Given Message.noFamilies narrow (.advertise [network communities]) :=
  ⟨⟨by decide, by decide⟩, trivial, h⟩

end Sample

theorem messages_received_network :
    let c := Call.advertise [Sample.network []]
    (c.Bounded → ∀ u ∈ Sample.narrow.messages c, Sample.narrow.size u ≤ maxMessageLen) ∧
      (∀ u ∈ Sample.narrow.messages c, Sample.narrow.size u ≤ maxMessageLen →
        Sample.narrow.readBack Message.noFamilies u = .ok (.update (u.onWire false ⟨false⟩))) ∧
        ((Sample.narrow.messages c).flatMap carried).Perm (Sample.narrow.items c) :=
  Session.messages_received (Sample.given_advertise [] (by decide +kernel))

/-- Every element of a call. -/
def Call.elements : Call → List Item
  | advertise routes => routes.map fun r => .network r.pfx none
  | withdraw prefixes => prefixes.map fun p => .network p none
  | propagateRoutes routes => routes.map fun r => .network r.pfx none
  | withdrawAddPath p ids => ids.map fun id => .network p (some id)
  | advertiseEvpn routes => routes.map fun r => .family .evpn afiL2vpn (.ofEvpn r.nlri)
  | advertiseFlowspec rules => rules.map fun r => .family .flowSpec r.afi (.ofFlowSpec r.spec)

/-- The withdrawal of 815 hosts is too long, a large AS is not what the peer reads where ASes have two
octets, and a route that its communities hold back is not told at all. -/
theorem not_forall_received :
    (¬ ∀ others s c, Session.Given others s c → ∀ u ∈ s.messages c, s.size u ≤ maxMessageLen) ∧
      (¬ ∀ others s c, Session.Given others s c → ∀ u ∈ s.messages c, s.readBack others u = .ok (.update u)) ∧
        ¬ ∀ others s c, Session.Given others s c → ((s.messages c).flatMap carried).Perm c.elements := by
  refine ⟨fun h => ?_, fun h => ?_, fun h => ?_⟩
  · have hall := h Message.noFamilies Sample.narrow (.withdraw (Sample.hosts 815)) (Sample.given_withdraw 815)
    have hlen : (Sample.hosts 815).length = 815 := by rw [Sample.hosts, List.length_map, List.length_range]
    have hne : Sample.hosts 815 ≠ [] := List.ne_nil_of_length_pos (by omega)
    obtain ⟨u, hu⟩ : ∃ u, u ∈ Sample.narrow.messages (.withdraw (Sample.hosts 815)) := by
      rw [Sample.messages_withdraw hne fun p hp => (Sample.of_mem_hosts hp).1]
      exact ⟨_, List.mem_singleton_self _⟩
    have hsize := Sample.size_withdraw hne (fun p hp => Sample.of_mem_hosts hp) hu
    have hshort := hall u hu
    rw [hsize, hlen] at hshort
    exact absurd hshort (by decide)
  · have hall := h Message.noFamilies Sample.narrow (.advertise [Sample.network []])
      (Sample.given_advertise [] (by decide +kernel))
    exact absurd hall (by decide +kernel)
  · have hall := h Message.noFamilies Sample.narrow (.advertise [Sample.network [noAdvertise]])
      (Sample.given_advertise [noAdvertise] (by decide +kernel))
    exact absurd hall (by decide +kernel)

end Wren.Daemon.Bgp
