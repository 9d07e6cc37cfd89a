import Wren.Bgp.EvpnCodec
import Wren.Bgp.FlowSpec

/-! The octets of SRv6 service SIDs, and what the speaker makes of the octets of EVPN and FlowSpec routes. -/

namespace Wren.Bgp
open Wren.Core Octets

def tlvSrv6L3Service : UInt8 := 5
def tlvSrv6L2Service : UInt8 := 6
def subtlvSidInformation : UInt8 := 1
def subsubtlvSidStructure : UInt8 := 1

/-- The first SID Structure among at most `n` records. -/
def decodeSidStructureFrom : ℕ → List UInt8 → Option Srv6SidStructure
  | 0, _ => none
  | n + 1, buf => do
    let ((t, body), used) ← decodeTlv 2 buf
    match t == subsubtlvSidStructure, body with
    | true, block :: node :: function :: argument :: len :: offset :: _ =>
      some ⟨block, node, function, argument, len, offset⟩
    | _, _ => decodeSidStructureFrom n (buf.drop used)

def decodeSidStructure (buf : List UInt8) : Option Srv6SidStructure := decodeSidStructureFrom buf.length buf

/-- A SID that says nothing of its structure has an empty one. -/
def decodeSidInformation (body : List UInt8) : Option Srv6ServiceSid := do
  let (_, rest) ← field? 1 body
  let (sid, rest) ← field? 16 rest
  let (flags, rest) ← field? 1 rest
  let (behavior, rest) ← field? 2 rest
  let (_, rest) ← field? 1 rest
  return ⟨Vector.ofFn fun i => sid.getD i 0, UInt16.ofNat (value behavior), flags.getD 0 0,
    (decodeSidStructure rest).getD ⟨0, 0, 0, 0, 0, 0⟩⟩

/-- Sub-TLVs that are no SID Information are ignored. -/
def decodeServiceSids : List UInt8 → Option (List Srv6ServiceSid)
  | [] => none
  | _ :: subs => do
    let records ← readAll (decodeTlv 2) subs
    (records.filter fun r => r.1 == subtlvSidInformation).mapM fun r => decodeSidInformation r.2

def isServiceTlv (t : UInt8) : Bool := t == tlvSrv6L2Service || t == tlvSrv6L3Service

/-- The service TLVs, and the others as they are. -/
def decodePrefixSid (v : List UInt8) : Option (List Srv6ServiceTlv × List (UInt8 × List UInt8)) := do
  let records ← readAll (decodeTlv 2) v
  let srv6 ← (records.filter fun r => isServiceTlv r.1).mapM fun r =>
    (decodeServiceSids r.2).map fun sids => (⟨r.1 == tlvSrv6L2Service, sids⟩ : Srv6ServiceTlv)
  return (srv6, records.filter fun r => !isServiceTlv r.1)

namespace FamilyNlri

def ofEvpn (n : EvpnNlri) : FamilyNlri where
  octets := n.encode
  known :=
    match n with
    | .unknown .. => false
    | _ => true

def ofFlowSpec (spec : FlowSpec) : FamilyNlri := ⟨spec.encode, true⟩

end FamilyNlri

/-- The routes of EVPN and FlowSpec and the SIDs as the speaker reads them, beside the formats of the
other families. -/
def readFormats (others : FamilyFormats) : FamilyFormats :=
  { others with
    nlris := fun f afi buf =>
      match f with
      | .evpn => (EvpnNlri.decodeAll buf).map fun l => l.map FamilyNlri.ofEvpn
      | .flowSpec => (FlowSpec.decodeNlris buf).map fun l => l.map FamilyNlri.ofFlowSpec
      | f => others.nlris f afi buf
    prefixSid := decodePrefixSid }

/-! Service SIDs are read back -/

def sidStructureOctets (l : Srv6SidStructure) : List UInt8 :=
  encodeTlv 2 subsubtlvSidStructure [l.locatorBlockLen, l.locatorNodeLen, l.functionLen, l.argumentLen,
    l.transpositionLen, l.transpositionOffset]

def sidInformationBody (s : Srv6ServiceSid) : List UInt8 :=
  [0] ++ (s.sid.toList ++ ([s.flags] ++ (u16Octets s.behavior ++ ([0] ++ sidStructureOctets s.layout))))

theorem length_sidInformationBody (s : Srv6ServiceSid) : (sidInformationBody s).length = 30 := by
  simp [sidInformationBody, sidStructureOctets]

theorem encodeSidInformation_eq (s : Srv6ServiceSid) :
    encodeSidInformation s = encodeTlv 2 subtlvSidInformation (sidInformationBody s) := by
  have hsubsub : (sidStructureOctets s.layout).length = 9 := by simp [sidStructureOctets]
  have h6 : u16Octets 6 = digits 2 6 := rfl
  rw [encodeTlv, length_sidInformationBody]
  simp [encodeSidInformation, sidInformationBody, sidStructureOctets, encodeTlv, subtlvSidInformation,
    subsubtlvSidStructure, h6]

theorem encodeSrv6ServiceTlv_eq (t : Srv6ServiceTlv) : encodeSrv6ServiceTlv t =
    encodeTlv 2 (if t.isL2 then tlvSrv6L2Service else tlvSrv6L3Service) (0 :: t.sids.flatMap encodeSidInformation) := by
  simp [encodeSrv6ServiceTlv, encodeTlv, tlvSrv6L2Service, tlvSrv6L3Service, Nat.add_comm 1]

theorem decodeSidStructure_octets (l : Srv6SidStructure) : decodeSidStructure (sidStructureOctets l) = some l := by
  let body : List UInt8 := [l.locatorBlockLen, l.locatorNodeLen, l.functionLen, l.argumentLen, l.transpositionLen,
    l.transpositionOffset]
  have hfits : body.length < 256 ^ 2 := (by decide : 6 < 256 ^ 2)
  have htlv := decodeTlv_encodeTlv subsubtlvSidStructure hfits []
  rw [List.append_nil] at htlv
  have hlen : (sidStructureOctets l).length = 8 + 1 := by simp [sidStructureOctets]
  rw [decodeSidStructure, hlen, decodeSidStructureFrom, sidStructureOctets, htlv]
  rfl

theorem decodeSidInformation_body (s : Srv6ServiceSid) : decodeSidInformation (sidInformationBody s) = some s := by
  simp only [decodeSidInformation, sidInformationBody, field?_append (List.length_singleton), Option.bind_eq_bind,
    Option.bind_some, field?_append s.sid.length_toList, field?_append (length_u16Octets s.behavior),
    ofNat_value_u16Octets, decodeSidStructure_octets, ofFn_getD_toList, Option.pure_def]
  rfl

theorem decodeServiceSids_encode (sids : List Srv6ServiceSid) :
    decodeServiceSids (0 :: sids.flatMap encodeSidInformation) = some sids := by
  have hrecords : readAll (decodeTlv 2) (sids.flatMap encodeSidInformation) =
      some (sids.map fun s => (subtlvSidInformation, sidInformationBody s)) := by
    refine readAll_flatMap _ (fun s _ r => ?_) (fun s _ => ?_)
    · rw [encodeSidInformation_eq]
      refine decodeTlv_encodeTlv _ ?_ r
      rw [length_sidInformationBody]
      decide
    · rw [encodeSidInformation_eq]
      exact encodeTlv_ne_nil _ _ _
  have hkept : (sids.map fun s => (subtlvSidInformation, sidInformationBody s)).filter
      (fun r => r.1 == subtlvSidInformation) = sids.map fun s => (subtlvSidInformation, sidInformationBody s) := by
    rw [List.filter_eq_self]
    intro r hr
    obtain ⟨s, -, rfl⟩ := List.mem_map.mp hr
    rfl
  have hall : (sids.map fun s => (subtlvSidInformation, sidInformationBody s)).mapM
      (fun r => decodeSidInformation r.2) = some sids := by
    rw [mapM_eq_some_iff, List.forall₂_map_left_iff, List.forall₂_same]
    exact fun s _ => decodeSidInformation_body s
  simp only [decodeServiceSids, hrecords, Option.bind_eq_bind, Option.bind_some, hkept, hall]

/-- Service TLVs are read back, and nothing beside them. -/
theorem decodePrefixSid_encode {srv6 : List Srv6ServiceTlv} (h : ∀ t ∈ srv6, (encodeSrv6ServiceTlv t).length < 65536) :
    decodePrefixSid (srv6.flatMap encodeSrv6ServiceTlv) = some (srv6, []) := by
  let record : Srv6ServiceTlv → UInt8 × List UInt8 := fun t =>
    (if t.isL2 then tlvSrv6L2Service else tlvSrv6L3Service, 0 :: t.sids.flatMap encodeSidInformation)
  have hservice : ∀ t : Srv6ServiceTlv, isServiceTlv (record t).1 = true := by
    intro t
    cases ht : t.isL2 <;> simp +decide [record, ht]
  have hrecords : readAll (decodeTlv 2) (srv6.flatMap encodeSrv6ServiceTlv) = some (srv6.map record) := by
    refine readAll_flatMap record (fun t ht r => ?_) (fun t _ => ?_)
    · have hlen := h t ht
      rw [encodeSrv6ServiceTlv_eq] at hlen ⊢
      refine decodeTlv_encodeTlv _ ?_ r
      rw [length_encodeTlv] at hlen
      omega
    · rw [encodeSrv6ServiceTlv_eq]
      exact encodeTlv_ne_nil _ _ _
  have hkept : (srv6.map record).filter (fun r => isServiceTlv r.1) = srv6.map record := by
    rw [List.filter_eq_self]
    intro r hr
    obtain ⟨t, -, rfl⟩ := List.mem_map.mp hr
    exact hservice t
  have hothers : (srv6.map record).filter (fun r => !isServiceTlv r.1) = [] := by
    rw [List.filter_eq_nil_iff]
    intro r hr
    obtain ⟨t, -, rfl⟩ := List.mem_map.mp hr
    simp [hservice t]
  have hall : (srv6.map record).mapM (fun r => (decodeServiceSids r.2).map fun sids =>
      (⟨r.1 == tlvSrv6L2Service, sids⟩ : Srv6ServiceTlv)) = some srv6 := by
    rw [mapM_eq_some_iff, List.forall₂_map_left_iff, List.forall₂_same]
    intro t _
    obtain ⟨isL2, sids⟩ := t
    simp only [record, decodeServiceSids_encode, Option.map_some]
    cases isL2 <;> rfl
  simp only [decodePrefixSid, hrecords, Option.bind_eq_bind, Option.bind_some, hkept, hothers, hall, Option.pure_def]

/-! Routes of EVPN and FlowSpec are read back -/

section ReadFormats
variable (others : FamilyFormats)

theorem nlris_ofEvpn {afi : UInt16} {l : List EvpnNlri} (h : ∀ n ∈ l, n.WellFormed) :
    (readFormats others).nlris .evpn afi ((l.map FamilyNlri.ofEvpn).flatMap FamilyNlri.octets) =
      some (l.map FamilyNlri.ofEvpn) := by
  have hall := EvpnNlri.decodeAll_flatMap h
  have hoctets : (l.map FamilyNlri.ofEvpn).flatMap FamilyNlri.octets = l.flatMap EvpnNlri.encode := List.flatMap_map _ _ _
  simp only [readFormats, hoctets, hall, Option.map_some]

theorem nlris_ofFlowSpec {afi : UInt16} {l : List FlowSpec} (h : ∀ spec ∈ l, spec.WellFormed) :
    (readFormats others).nlris .flowSpec afi ((l.map FamilyNlri.ofFlowSpec).flatMap FamilyNlri.octets) =
      some (l.map FamilyNlri.ofFlowSpec) := by
  have hall := FlowSpec.decodeNlris_flatMap h
  have hoctets : (l.map FamilyNlri.ofFlowSpec).flatMap FamilyNlri.octets = l.flatMap FlowSpec.encode :=
    List.flatMap_map _ _ _
  simp only [readFormats, hoctets, hall, Option.map_some, List.map_map]
  congr 1
  apply List.map_congr_left
  intro spec _
  simp [FamilyNlri.ofFlowSpec]

end ReadFormats
end Wren.Bgp
