import Wren.Bgp.Decoded
import Wren.Bgp.RoundTrip

/-! What a peer reads of an UPDATE that the encoder wrote for it: the UPDATE itself, but for the ASes that
two octets cannot hold and the path identifiers that were left out. -/

namespace Wren.Bgp
open Wren.Core Octets

/-- To a peer that knows ASes of two octets only, a large one is AS_TRANS. -/
def asnOnWire (four : Bool) (asn : UInt32) : UInt32 := if four then asn else (asTransFit asn).toUInt32

theorem toUInt32_asTransFit {asn : UInt32} (h : asn ≤ 0xffff) : (asTransFit asn).toUInt32 = asn := by
  have hle : asn.toNat ≤ 0xffff := UInt32.le_iff_toNat_le.mp h
  rw [asTransFit, if_neg (UInt32.not_lt.mpr h)]
  apply UInt32.toNat_inj.mp
  simp
  omega

theorem asnFits_asnOnWire (four : Bool) (asn : UInt32) : AsnFits four (asnOnWire four asn) := by
  rintro rfl
  apply UInt32.le_iff_toNat_le.mpr
  have hlt := (asTransFit asn).toNat_lt
  have hmax : (0xffff : UInt32).toNat = 65535 := rfl
  simp only [asnOnWire, Bool.false_eq_true, if_false, UInt16.toNat_toUInt32, hmax]
  omega

theorem asnOnWire_of_fits {four : Bool} {asn : UInt32} (h : AsnFits four asn) : asnOnWire four asn = asn := by
  cases four with
  | true => rfl
  | false => exact toUInt32_asTransFit (h rfl)

@[simp] theorem asnOctets_asnOnWire (four : Bool) (asn : UInt32) :
    asnOctets four (asnOnWire four asn) = asnOctets four asn := by
  cases four with
  | true => rfl
  | false =>
    have hback : asTransFit (asnOnWire false asn) = asTransFit asn := by
      apply UInt16.toUInt32_inj.mp
      exact toUInt32_asTransFit (asnFits_asnOnWire false asn rfl)
    simp only [asnOctets, Bool.false_eq_true, if_false, hback]

theorem asnOnWire_ne_zero {four : Bool} {asn : UInt32} (h : asn ≠ 0) : asnOnWire four asn ≠ 0 := by
  by_cases hfits : AsnFits four asn
  · rwa [asnOnWire_of_fits hfits]
  · obtain ⟨rfl, hlarge⟩ := Classical.not_imp.mp hfits
    simp only [asnOnWire, Bool.false_eq_true, if_false, asTransFit, if_pos (UInt32.not_le.mp hlarge)]
    decide

namespace AsPathSegment

def onWire (four : Bool) : AsPathSegment → AsPathSegment
  | set a => set (a.map (asnOnWire four))
  | sequence a => sequence (a.map (asnOnWire four))
  | confedSequence a => confedSequence (a.map (asnOnWire four))
  | confedSet a => confedSet (a.map (asnOnWire four))

@[simp] theorem asns_onWire (four : Bool) (s : AsPathSegment) : (s.onWire four).asns = s.asns.map (asnOnWire four) := by
  cases s <;> rfl

@[simp] theorem kind_onWire (four : Bool) (s : AsPathSegment) : (s.onWire four).kind = s.kind := by
  cases s <;> rfl

/-- The ASes can be counted in one octet, and AS 0 is not among them. -/
structure Countable (s : AsPathSegment) : Prop where
  count : s.asns.length ≤ 255
  noZero : 0 ∉ s.asns

theorem encode_onWire (four : Bool) (s : AsPathSegment) : (s.onWire four).encode four = s.encode four := by
  simp [encode, List.flatMap_map]

theorem fits_onWire {four : Bool} {s : AsPathSegment} (h : s.Countable) : (s.onWire four).Fits four where
  count := by simpa using h.count
  noZero := by
    rw [asns_onWire]
    intro hmem
    obtain ⟨a, ha, hzero⟩ := List.mem_map.mp hmem
    have hne : a ≠ 0 := by
      rintro rfl
      exact h.noZero ha
    exact asnOnWire_ne_zero hne hzero
  width := by
    intro a ha
    rw [asns_onWire] at ha
    obtain ⟨b, -, rfl⟩ := List.mem_map.mp ha
    exact asnFits_asnOnWire four b

theorem onWire_of_fits {four : Bool} {s : AsPathSegment} (h : s.Fits four) : s.onWire four = s := by
  have hsame : s.asns.map (asnOnWire four) = s.asns := by
    conv_rhs => rw [← List.map_id s.asns]
    exact List.map_congr_left fun a ha => asnOnWire_of_fits (h.width a ha)
  cases s with
  | _ a => exact congrArg _ hsame

end AsPathSegment

namespace PathAttribute

/-- The attribute as the peer reads it. -/
def onWire (four : Bool) : PathAttribute → PathAttribute
  | asPath segs => asPath (segs.map (AsPathSegment.onWire four))
  | aggregator asn id => aggregator (asnOnWire four asn) id
  | unknown flags code v => unknown (writtenFlags flags v.length) code v
  | a => a

@[simp] theorem typeCode_onWire (four : Bool) (a : PathAttribute) : (a.onWire four).typeCode = a.typeCode := by
  cases a <;> rfl

theorem writtenFlags_writtenFlags (flags : UInt8) (len : ℕ) :
    writtenFlags (writtenFlags flags len) len = writtenFlags flags len := by
  unfold writtenFlags
  split_ifs
  · rw [UInt8.or_assoc, UInt8.or_self]
  · rw [UInt8.and_assoc, UInt8.and_self]

theorem encodeValue_onWire (four : Bool) (a : PathAttribute) : (a.onWire four).encodeValue four = a.encodeValue four := by
  cases a with
  | asPath segs => simp only [onWire, encodeValue, List.flatMap_map, AsPathSegment.encode_onWire]
  | aggregator asn id => simp only [onWire, encodeValue, asnOctets_asnOnWire]
  | _ => rfl

theorem encode_eq (four : Bool) (a : PathAttribute) :
    a.encode four = writtenFlags a.canonicalFlags (a.encodeValue four).length :: a.typeCode ::
      ((if (a.encodeValue four).length > 0xff then digits 2 (a.encodeValue four).length
        else [UInt8.ofNat (a.encodeValue four).length]) ++ a.encodeValue four) := by
  unfold encode writtenFlags
  dsimp only
  split_ifs <;> rfl

theorem encode_onWire (four : Bool) (a : PathAttribute) : (a.onWire four).encode four = a.encode four := by
  rw [encode_eq, encode_eq, encodeValue_onWire, typeCode_onWire]
  cases a with
  | unknown flags code v => simp only [onWire, canonicalFlags, encodeValue, writtenFlags_writtenFlags]
  | _ => rfl

/-- The attribute can be written so that a peer of either kind understands it. -/
def Sendable (fmt : FamilyFormats) : PathAttribute → Prop
  | origin _ | nextHop _ | multiExitDisc _ | localPref _ | atomicAggregate | communities _
  | largeCommunities _ | extendedCommunities _ | originatorId _ | clusterList _ | aggregator ..
  | as4Aggregator .. | onlyToCustomer _ => True
  | asPath segs | as4Path segs => ∀ s ∈ segs, s.Countable
  | mpReachNlri afi safi nh nlri =>
    knownFamily afi safi = true ∧ unicastNextHopLen afi nh.length = true ∧
      ∀ p ∈ nlri, p.isIpv4 = !(afi = afiIpv6)
  | mpUnreachNlri afi safi withdrawn =>
    knownFamily afi safi = true ∧ ∀ p ∈ withdrawn, p.isIpv4 = !(afi = afiIpv6)
  | mpReachFamily f afi nh nlri =>
    Family.of? afi f.safi = some f ∧ nh.length ≤ 255 ∧ fmt.nlris f afi (nlri.flatMap FamilyNlri.octets) = some nlri
  | mpUnreachFamily f afi withdrawn =>
    Family.of? afi f.safi = some f ∧ fmt.nlris f afi (withdrawn.flatMap FamilyNlri.octets) = some withdrawn
  | prefixSid srv6 other => fmt.prefixSid ((prefixSid srv6 other).encodeValue true) = some (srv6, other)
  | tunnelEncap tlvs => fmt.tunnelEncap tlvs = some tlvs
  | bgpLs tlvs => fmt.bgpLs tlvs = some tlvs
  | unknown flags code v =>
    flags &&& (flagOptional ||| flagTransitive) = flagOptional ||| flagTransitive ∧ Foreign fmt code v

theorem exact_of_decodeValue {fmt : FamilyFormats} {four : Bool} {a : PathAttribute}
    (hval : decodeValue fmt four (writtenFlags a.canonicalFlags (a.encodeValue four).length) a.typeCode
      (a.encodeValue four) = some (.ok a))
    (hflags : flagsFit (writtenFlags a.canonicalFlags (a.encodeValue four).length) a.canonicalFlags = true)
    (hlen : (a.encode four).length < 65536) : a.Exact fmt four := by
  intro r
  have hlt := a.length_encodeValue_lt four
  simp [decode, frame_encode (by omega : (a.encodeValue four).length < 65536) r, hval, hflags]

theorem exact_of_known {fmt : FamilyFormats} {four : Bool} {a : PathAttribute}
    (hval : ∀ flags, decodeValue fmt four flags a.typeCode (a.encodeValue four) = some (.ok a))
    (hknown : ∀ flags code v, a ≠ unknown flags code v) (hlen : (a.encode four).length < 65536) :
    a.Exact fmt four := exact_of_decodeValue (hval _) (flagsFit_writtenFlags hknown _) hlen

theorem decodeMpReach_family {fmt : FamilyFormats} {four : Bool} {f : Family} {afi : UInt16} {nh : List UInt8}
    {nlri : List FamilyNlri} (h : (mpReachFamily f afi nh nlri).Sendable fmt) :
    decodeMpReach fmt ((mpReachFamily f afi nh nlri).encodeValue four) = some (mpReachFamily f afi nh nlri) := by
  obtain ⟨hfam, hnh, hnlri⟩ := h
  obtain ⟨b₁, b₀, hb, hafi⟩ := u16Octets_eq afi
  have hlen : (UInt8.ofNat nh.length).toNat = nh.length := by
    rw [UInt8.toNat_ofNat']
    omega
  have hdrop : (nh ++ 0 :: nlri.flatMap FamilyNlri.octets).drop (nh.length + 1) = nlri.flatMap FamilyNlri.octets := by
    rw [← List.drop_drop, List.drop_left]
    rfl
  simp [encodeValue, hb, decodeMpReach, hafi, hlen, hfam, hdrop, hnlri]

theorem decodeMpUnreach_family {fmt : FamilyFormats} {four : Bool} {f : Family} {afi : UInt16}
    {withdrawn : List FamilyNlri} (h : (mpUnreachFamily f afi withdrawn).Sendable fmt) :
    decodeMpUnreach fmt ((mpUnreachFamily f afi withdrawn).encodeValue four) =
      some (mpUnreachFamily f afi withdrawn) := by
  obtain ⟨hfam, hnlri⟩ := h
  obtain ⟨b₁, b₀, hb, hafi⟩ := u16Octets_eq afi
  simp [encodeValue, hb, decodeMpUnreach, hafi, hfam, hnlri]

theorem flagsFit_self {flags : UInt8}
    (h : flags &&& (flagOptional ||| flagTransitive) = flagOptional ||| flagTransitive) (len : ℕ) :
    flagsFit (writtenFlags flags len) (writtenFlags flags len) = true := by
  have hdefining : writtenFlags flags len &&& (flagOptional ||| flagTransitive) = flagOptional ||| flagTransitive := by
    unfold writtenFlags
    split_ifs
    · rw [← UInt8.toBitVec_inj] at h ⊢
      rw [UInt8.toBitVec_and, UInt8.toBitVec_or, BitVec.and_or_distrib_right, ← UInt8.toBitVec_and, h]
      decide
    · rw [UInt8.and_assoc, UInt8.and_comm (~~~flagExtendedLen), ← UInt8.and_assoc, h]
      decide
  unfold flagsFit
  simp [hdefining]

/-- A sendable attribute is read back as it is on the wire. -/
theorem exact_onWire {fmt : FamilyFormats} {four : Bool} {a : PathAttribute} (h : a.Sendable fmt)
    (hlen : (a.encode four).length < 65536) : (a.onWire four).Exact fmt four := by
  rw [← encode_onWire] at hlen
  cases a with
  | asPath segs =>
    refine exact_of_plain fmt ?_ hlen
    intro s hs
    obtain ⟨t, ht, rfl⟩ := List.mem_map.mp hs
    exact AsPathSegment.fits_onWire (h t ht)
  | as4Path segs =>
    refine exact_of_plain fmt ?_ hlen
    intro s hs
    exact ⟨(h s hs).count, (h s hs).noZero, fun _ _ hfalse => by cases hfalse⟩
  | aggregator asn id => exact exact_of_plain fmt (asnFits_asnOnWire four asn) hlen
  | mpReachNlri afi safi nh nlri => exact exact_of_plain fmt h hlen
  | mpUnreachNlri afi safi withdrawn => exact exact_of_plain fmt h hlen
  | mpReachFamily f afi nh nlri =>
    refine exact_of_known ?_ (by simp [onWire]) hlen
    intro flags
    simp +decide [onWire, decodeValue, typeCode, decodeMpReach_family h]
  | mpUnreachFamily f afi withdrawn =>
    refine exact_of_known ?_ (by simp [onWire]) hlen
    intro flags
    simp +decide [onWire, decodeValue, typeCode, decodeMpUnreach_family h]
  | prefixSid srv6 other =>
    refine exact_of_known ?_ (by simp [onWire]) hlen
    intro flags
    have hback : fmt.prefixSid ((prefixSid srv6 other).encodeValue four) = some (srv6, other) := h
    simp +decide [onWire, decodeValue, typeCode, hback]
  | tunnelEncap tlvs =>
    refine exact_of_known ?_ (by simp [onWire]) hlen
    intro flags
    have hback : fmt.tunnelEncap tlvs = some tlvs := h
    simp +decide [onWire, decodeValue, typeCode, encodeValue, hback]
  | bgpLs tlvs =>
    refine exact_of_known ?_ (by simp [onWire]) hlen
    intro flags
    have hback : fmt.bgpLs tlvs = some tlvs := h
    simp +decide [onWire, decodeValue, typeCode, encodeValue, hback]
  | unknown flags code v =>
    refine exact_of_decodeValue ?_ ?_ hlen
    · simp only [onWire, canonicalFlags, encodeValue, writtenFlags_writtenFlags]
      exact decodeValue_of_foreign h.2 four _
    · simp only [onWire, canonicalFlags, encodeValue, writtenFlags_writtenFlags]
      exact flagsFit_self h.1 _
  | _ => exact exact_of_plain fmt trivial hlen

end PathAttribute

/-! Routes and UPDATEs -/

/-- Identifiers that were left out are zero to a peer that expects them. -/
def idsOnWire (ap : Bool) (ps : List Prefix) (ids : List UInt32) : List UInt32 :=
  if ap then ids.takeD ps.length 0 else []

theorem aligned_idsOnWire (ap : Bool) (ps : List Prefix) (ids : List UInt32) : Aligned ap ps (idsOnWire ap ps ids) := by
  cases ap with
  | false => rfl
  | true => exact List.takeD_length _ _ _

theorem encodeRoutes_idsOnWire (ap : Bool) (ps : List Prefix) (ids : List UInt32) :
    encodeRoutes ap ps (idsOnWire ap ps ids) = encodeRoutes ap ps ids := by
  cases ap with
  | false => rw [encodeRoutes_false, encodeRoutes_false]
  | true =>
    induction ps generalizing ids with
    | nil => rfl
    | cons p ps ih =>
      have htail := ih ids.tail
      simp only [idsOnWire, if_true] at htail ⊢
      rw [List.length_cons, List.takeD]
      simp only [encodeRoutes, List.headD_cons, List.tail_cons, htail]

theorem mandatoryAttributesPresent_onWire (four : Bool) (attrs : List PathAttribute) (hasIpv4Nlri : Bool) :
    mandatoryAttributesPresent (attrs.map (PathAttribute.onWire four)) hasIpv4Nlri =
      mandatoryAttributesPresent attrs hasIpv4Nlri := by
  have hany : ∀ f : PathAttribute → Bool, (∀ a : PathAttribute, f (a.onWire four) = f a) →
      (attrs.map (PathAttribute.onWire four)).any f = attrs.any f := by
    intro f hf
    simp only [List.any_map, Function.comp_def, hf]
  unfold mandatoryAttributesPresent advertisesMultiprotocol
  rw [hany _ ?reach, hany _ ?origin, hany _ ?asPath, hany _ ?nextHop]
  all_goals
    intro a
    cases a <;> rfl

namespace Update

/-- The UPDATE as the peer reads it. -/
def onWire (four : Bool) (addPath : AddPath) (u : Update) : Update where
  withdrawn := u.withdrawn
  attributes := u.attributes.map (PathAttribute.onWire four)
  nlri := u.nlri
  nlriPathIds := idsOnWire addPath.ipv4Unicast u.nlri u.nlriPathIds
  withdrawnPathIds := idsOnWire addPath.ipv4Unicast u.withdrawn u.withdrawnPathIds

/-- An UPDATE that can be written so that a peer of either kind understands it. -/
structure Sendable (fmt : FamilyFormats) (u : Update) : Prop where
  attributes : ∀ a ∈ u.attributes, a.Sendable fmt
  codes : (u.attributes.map PathAttribute.typeCode).Nodup
  withdrawnIpv4 : ∀ p ∈ u.withdrawn, p.isIpv4 = true
  nlriIpv4 : ∀ p ∈ u.nlri, p.isIpv4 = true
  mandatory : mandatoryAttributesPresent u.attributes (!u.nlri.isEmpty) = true

theorem encode_onWire (four : Bool) (addPath : AddPath) (u : Update) :
    encodeUpdate four addPath (u.onWire four addPath) = encodeUpdate four addPath u := by
  simp only [encodeUpdate, onWire, encodeRoutes_idsOnWire, List.flatMap_map, PathAttribute.encode_onWire]

theorem exact_onWire {fmt : FamilyFormats} {four : Bool} {addPath : AddPath} {u : Update} (h : u.Sendable fmt)
    (hlen : (encodeUpdate four addPath u).length < 65536) : (u.onWire four addPath).Exact fmt four addPath where
  attributes := by
    intro a ha
    obtain ⟨b, hb, rfl⟩ := List.mem_map.mp ha
    have hone := PathAttribute.length_encode_le four hb
    have hall := length_attributes_le four addPath u
    exact PathAttribute.exact_onWire (h.attributes b hb) (by omega)
  codes := by
    have hcodes : (u.onWire four addPath).attributes.map PathAttribute.typeCode =
        u.attributes.map PathAttribute.typeCode := by simp [onWire, Function.comp_def]
    exact hcodes ▸ h.codes
  withdrawnIpv4 := h.withdrawnIpv4
  nlriIpv4 := h.nlriIpv4
  withdrawnIds := aligned_idsOnWire _ _ _
  nlriIds := aligned_idsOnWire _ _ _
  mandatory := by
    rw [onWire, mandatoryAttributesPresent_onWire]
    exact h.mandatory

end Update

namespace Message

/-- A peer reads a sendable UPDATE as it is on the wire, unless the message is too long. -/
theorem decode_encode_onWire {fmt : FamilyFormats} {four : Bool} {addPath : AddPath} {u : Update}
    (h : u.Sendable fmt) (hsize : ((update u).encode four addPath).length ≤ maxMessageLen) :
    decode fmt four addPath ((update u).encode four addPath) = .ok (update (u.onWire four addPath)) := by
  have hsame : (update u).encode four addPath = (update (u.onWire four addPath)).encode four addPath := by
    simp only [encode, encodeBody, Update.encode_onWire, messageType]
  have hbody : (encodeUpdate four addPath u).length < 65536 := by
    have hlen : ((update u).encode four addPath).length = headerLen + (encodeUpdate four addPath u).length :=
      length_encode four addPath _
    have hmax : maxMessageLen = 4096 := rfl
    omega
  rw [hsame] at hsize ⊢
  exact decode_encode_of_exact (Update.exact_onWire h hbody) hsize

end Message
end Wren.Bgp
