import Wren.Bgp.Message

/-! An encoded UPDATE is read back unchanged. -/

namespace Wren.Bgp
open Wren.Core Octets

@[simp] theorem length_u16Octets (x : UInt16) : (u16Octets x).length = 2 := length_digits 2 _

@[simp] theorem length_u32Octets (x : UInt32) : (u32Octets x).length = 4 := length_digits 4 _

@[simp] theorem length_ipv4Octets (a : Ipv4Addr) : (ipv4Octets a).length = 4 := length_digits 4 _

@[simp] theorem u32OfOctets_u32Octets (x : UInt32) : u32OfOctets (u32Octets x) = x := by
  rw [u32OfOctets, u32Octets, value_digits_of_lt x.toNat_lt, UInt32.ofNat_toNat]

@[simp] theorem ipv4OfOctets_ipv4Octets (a : Ipv4Addr) : ipv4OfOctets (ipv4Octets a) = a :=
  ofNat_value_digits a (by decide)

theorem u32OfOctets_u16Octets (x : UInt16) : u32OfOctets (u16Octets x) = x.toUInt32 := by
  apply UInt32.toNat_inj.mp
  have hx := x.toNat_lt
  rw [u32OfOctets, u16Octets, value_digits_of_lt hx, UInt32.toNat_ofNat', UInt16.toNat_toUInt32]
  omega

theorem ofNat_value_u16Octets (x : UInt16) : UInt16.ofNat (value (u16Octets x)) = x := by
  rw [u16Octets, value_digits_of_lt x.toNat_lt, UInt16.ofNat_toNat]

/-- Two octets in front of a list. -/
theorem u16Octets_eq (x : UInt16) : ∃ b₁ b₀, u16Octets x = [b₁, b₀] ∧ UInt16.ofNat (value [b₁, b₀]) = x := by
  obtain ⟨b₁, b₀, hb⟩ := List.length_eq_two.mp (length_u16Octets x)
  exact ⟨b₁, b₀, hb, hb ▸ ofNat_value_u16Octets x⟩

/-! Networks -/

theorem readPrefix_cons {width : ℕ} {addr : List UInt8 → IpAddr} {p : Prefix} {octets : List UInt8}
    (hlen : p.len.toNat ≤ 8 * width) (hoctets : octets.length = (p.len.toNat + 7) / 8)
    (haddr : addr (octets ++ List.replicate (width - (p.len.toNat + 7) / 8) 0) = p.addr) (r : List UInt8) :
    readPrefix width addr (p.len :: octets ++ r) = some (p, (p.len :: octets).length) := by
  have hnew : Prefix.new p.addr p.len = .ok p := by
    simp only [Prefix.new, p.len_le, dif_pos, p.masked]
  have htake : (octets ++ r).take ((p.len.toNat + 7) / 8) = octets := List.take_left' hoctets
  have hfits : 1 + (p.len.toNat + 7) / 8 ≤ (p.len :: (octets ++ r)).length := by
    rw [List.length_cons, List.length_append, hoctets]
    omega
  have hused : 1 + (p.len.toNat + 7) / 8 = (p.len :: octets).length := by
    rw [List.length_cons, hoctets, Nat.add_comm]
  rw [readPrefix, List.cons_append, List.head?_cons]
  simp only [Option.bind_eq_bind, Option.bind_some, hlen, guard, if_true, List.drop_one, List.tail_cons,
    htake, haddr, hnew, hfits, Except.toOption, Option.pure_def]
  rw [hused]

theorem decodePrefix_encodePrefixAny {p : Prefix} (hp : p.isIpv4 = true) (r : List UInt8) :
    decodePrefix (encodePrefixAny p ++ r) = some (p, (encodePrefixAny p).length) := by
  obtain ⟨addr, len, hlen, hmask⟩ := p
  cases addr with
  | v6 a => cases hp
  | v4 a =>
    have hle : len.toNat ≤ 32 := UInt8.le_iff_toNat_le.mp hlen
    have hv := ofNat_value_take (n := 4) rfl rfl hle (IpAddr.v4.inj hmask)
    refine readPrefix_cons (p := ⟨.v4 a, len, hlen, hmask⟩) hle ?_ (congrArg IpAddr.v4 hv) r
    simp only [List.length_take, length_digits]
    omega

theorem decodePrefixV6_encodePrefixAny {p : Prefix} (hp : p.isIpv4 = false) (r : List UInt8) :
    decodePrefixV6 (encodePrefixAny p ++ r) = some (p, (encodePrefixAny p).length) := by
  obtain ⟨addr, len, hlen, hmask⟩ := p
  cases addr with
  | v4 a => cases hp
  | v6 a =>
    have hle : len.toNat ≤ 128 := UInt8.le_iff_toNat_le.mp hlen
    have hv := ofNat_value_take (n := 16) rfl rfl hle (IpAddr.v6.inj hmask)
    refine readPrefix_cons (p := ⟨.v6 a, len, hlen, hmask⟩) hle ?_ (congrArg IpAddr.v6 hv) r
    simp only [List.length_take, length_digits]
    omega

theorem encodePrefixAny_ne_nil (p : Prefix) : encodePrefixAny p ≠ [] := by
  obtain ⟨addr, len, hlen, hmask⟩ := p
  cases addr <;> simp [encodePrefixAny]

theorem encodePrefix_eq {p : Prefix} (hp : p.isIpv4 = true) : encodePrefix p = encodePrefixAny p := by
  obtain ⟨addr, len, hlen, hmask⟩ := p
  cases addr with
  | v4 a => rfl
  | v6 a => cases hp

theorem decodeMpPrefixes_encode {afi : UInt16} {ps : List Prefix}
    (h : ∀ p ∈ ps, p.isIpv4 = !(afi = afiIpv6)) :
    decodeMpPrefixes afi (ps.flatMap encodePrefixAny) = some ps := by
  rw [decodeMpPrefixes, readAll_flatMap id ?_ (fun p _ => encodePrefixAny_ne_nil p), List.map_id]
  intro p hp r
  by_cases h6 : afi = afiIpv6
  · rw [if_pos h6]
    exact decodePrefixV6_encodePrefixAny (by simpa [h6] using h p hp) r
  · rw [if_neg h6]
    exact decodePrefix_encodePrefixAny (by simpa [h6] using h p hp) r

/-! AS paths -/

/-- The AS can be written in the width of the session. -/
def AsnFits (four : Bool) (asn : UInt32) : Prop := four = false → asn ≤ 0xffff

@[simp] theorem length_asnOctets (four : Bool) (asn : UInt32) : (asnOctets four asn).length = asnWidth four := by
  cases four <;> simp [asnOctets, asnWidth]

theorem u32OfOctets_asnOctets {four : Bool} {asn : UInt32} (h : AsnFits four asn) :
    u32OfOctets (asnOctets four asn) = asn := by
  cases four with
  | true => exact u32OfOctets_u32Octets asn
  | false =>
    have hle : asn.toNat ≤ 0xffff := UInt32.le_iff_toNat_le.mp (h rfl)
    have hnot : ¬ asn > 0xffff := UInt32.not_lt.mpr (h rfl)
    simp only [asnOctets, Bool.false_eq_true, if_false, asTransFit, if_neg hnot]
    rw [u32OfOctets_u16Octets]
    apply UInt32.toNat_inj.mp
    simp
    omega

theorem asnWidth_pos (four : Bool) : 0 < asnWidth four := by
  cases four <;> decide

namespace AsPathSegment

/-- A segment the session can carry. -/
structure Fits (four : Bool) (s : AsPathSegment) : Prop where
  count : s.asns.length ≤ 255
  noZero : 0 ∉ s.asns
  width : ∀ a ∈ s.asns, AsnFits four a

theorem ofKind_kind (s : AsPathSegment) : ofKind s.kind s.asns = some s := by
  cases s <;> rfl

theorem length_encode (four : Bool) (s : AsPathSegment) :
    (s.encode four).length = 2 + s.asns.length * asnWidth four := by
  rw [encode, List.length_cons, List.length_cons, length_flatMap_of_forall (length_asnOctets four)]
  omega

theorem decode_encode {four : Bool} {s : AsPathSegment} (h : s.Fits four) (r : List UInt8) :
    decode four (s.encode four ++ r) = some (s, (s.encode four).length) := by
  have hcount : (UInt8.ofNat s.asns.length).toNat = s.asns.length := by
    have := h.count
    rw [UInt8.toNat_ofNat']
    omega
  have hsize : (s.asns.flatMap (asnOctets four)).length = s.asns.length * asnWidth four :=
    length_flatMap_of_forall (length_asnOctets four) _
  have hasns : (chunksExact (asnWidth four) (s.asns.flatMap (asnOctets four))).map u32OfOctets = s.asns :=
    map_chunksExact_flatMap (asnWidth_pos four) (length_asnOctets four)
      (fun a ha => u32OfOctets_asnOctets (h.width a ha))
  have hfits : ¬ (s.asns.flatMap (asnOctets four) ++ r).length < s.asns.length * asnWidth four := by
    rw [List.length_append, hsize]
    omega
  rw [encode, List.cons_append, List.cons_append, decode, hcount]
  simp only [if_neg hfits, List.take_left' hsize, hasns, ofKind_kind, Option.map_some]
  rw [List.length_cons, List.length_cons, hsize, Nat.add_comm]

end AsPathSegment

theorem decodeAsSegments_encode {four : Bool} {segs : List AsPathSegment} (h : ∀ s ∈ segs, s.Fits four) :
    decodeAsSegments four (segs.flatMap (AsPathSegment.encode four)) = some segs := by
  rw [decodeAsSegments, readAll_flatMap id ?_ (fun s _ => by simp [AsPathSegment.encode]), List.map_id]
  intro s hs r
  simp [AsPathSegment.decode_encode (h s hs) r, (h s hs).noZero]

/-! Attributes -/

namespace PathAttribute

/-- The attributes of plain unicast routing, as a session can carry them. -/
def Plain (four : Bool) : PathAttribute → Prop
  | origin _ | nextHop _ | multiExitDisc _ | localPref _ | atomicAggregate | communities _
  | largeCommunities _ | extendedCommunities _ | originatorId _ | clusterList _ | as4Aggregator ..
  | onlyToCustomer _ => True
  | asPath segs => ∀ s ∈ segs, s.Fits four
  | as4Path segs => ∀ s ∈ segs, s.Fits true
  | aggregator asn _ => AsnFits four asn
  | mpReachNlri afi safi nh nlri =>
    knownFamily afi safi = true ∧ unicastNextHopLen afi nh.length = true ∧
      ∀ p ∈ nlri, p.isIpv4 = !(afi = afiIpv6)
  | mpUnreachNlri afi safi withdrawn =>
    knownFamily afi safi = true ∧ ∀ p ∈ withdrawn, p.isIpv4 = !(afi = afiIpv6)
  | mpReachFamily .. | mpUnreachFamily .. | prefixSid .. | tunnelEncap _ | bgpLs _ | unknown .. => False

theorem of?_of_knownFamily {afi : UInt16} {safi : UInt8} (h : knownFamily afi safi = true) :
    Family.of? afi safi = none := by
  obtain ⟨hafi, rfl⟩ : (afi = afiIpv4 ∨ afi = afiIpv6) ∧ safi = safiUnicast := by simpa [knownFamily] using h
  rcases hafi with rfl | rfl <;> decide

theorem nextHopLen_le {afi : UInt16} {n : ℕ} (h : unicastNextHopLen afi n = true) : n ≤ 32 := by
  unfold unicastNextHopLen at h
  split_ifs at h <;> simp at h <;> omega

theorem decodeMpReach_encode (fmt : FamilyFormats) {four : Bool} {afi : UInt16} {safi : UInt8} {nh : List UInt8}
    {nlri : List Prefix} (h : (mpReachNlri afi safi nh nlri).Plain four) :
    decodeMpReach fmt ((mpReachNlri afi safi nh nlri).encodeValue four) = some (mpReachNlri afi safi nh nlri) := by
  obtain ⟨hfam, hnh, hnlri⟩ := h
  obtain ⟨b₁, b₀, hb, hafi⟩ := u16Octets_eq afi
  have hlen : (UInt8.ofNat nh.length).toNat = nh.length := by
    have := nextHopLen_le hnh
    rw [UInt8.toNat_ofNat']
    omega
  have hdrop : (nh ++ 0 :: nlri.flatMap encodePrefixAny).drop (nh.length + 1) = nlri.flatMap encodePrefixAny := by
    rw [← List.drop_drop, List.drop_left]
    rfl
  simp [encodeValue, hb, decodeMpReach, hafi, hlen, hfam, hnh, hdrop, of?_of_knownFamily hfam,
    decodeMpPrefixes_encode hnlri]

theorem decodeMpUnreach_encode (fmt : FamilyFormats) {four : Bool} {afi : UInt16} {safi : UInt8}
    {withdrawn : List Prefix} (h : (mpUnreachNlri afi safi withdrawn).Plain four) :
    decodeMpUnreach fmt ((mpUnreachNlri afi safi withdrawn).encodeValue four) =
      some (mpUnreachNlri afi safi withdrawn) := by
  obtain ⟨hfam, hwd⟩ := h
  obtain ⟨b₁, b₀, hb, hafi⟩ := u16Octets_eq afi
  simp [encodeValue, hb, decodeMpUnreach, hafi, hfam, of?_of_knownFamily hfam, decodeMpPrefixes_encode hwd]

theorem decodeAggregator_encode {four : Bool} {asn : UInt32} (h : AsnFits four asn) (id : Ipv4Addr) :
    decodeAggregator four (asnOctets four asn ++ ipv4Octets id) = some (asn, id) := by
  have hlen := length_asnOctets four asn
  simp [decodeAggregator, List.take_left' hlen, List.drop_left' hlen, u32OfOctets_asnOctets h]

theorem communities_encode (c : List UInt32) : (chunksExact 4 (c.flatMap u32Octets)).map u32OfOctets = c :=
  map_chunksExact_flatMap (by decide) length_u32Octets (fun a _ => u32OfOctets_u32Octets a)

theorem clusterList_encode (ids : List Ipv4Addr) :
    (chunksExact 4 (ids.flatMap ipv4Octets)).map ipv4OfOctets = ids :=
  map_chunksExact_flatMap (by decide) length_ipv4Octets (fun a _ => ipv4OfOctets_ipv4Octets a)

theorem extendedCommunities_encode (c : List (Vector UInt8 8)) :
    (chunksExact 8 (c.flatMap Vector.toList)).map (fun l => Vector.ofFn fun i : Fin 8 => l.getD i 0) = c := by
  refine map_chunksExact_flatMap (by decide) (fun v => v.length_toList) ?_
  intro v _
  ext i hi
  simp

theorem largeCommunities_encode (c : List (UInt32 × UInt32 × UInt32)) :
    (chunksExact 12 (c.flatMap fun (g, l₁, l₂) => u32Octets g ++ u32Octets l₁ ++ u32Octets l₂)).map (fun l =>
      (u32OfOctets (l.take 4), u32OfOctets ((l.drop 4).take 4), u32OfOctets (l.drop 8))) = c := by
  refine map_chunksExact_flatMap (by decide) (by simp) ?_
  rintro ⟨g, l₁, l₂⟩ _
  have hg := length_u32Octets g
  have hl := length_u32Octets l₁
  have h8 : (u32Octets g ++ (u32Octets l₁ ++ u32Octets l₂)).drop 8 = u32Octets l₂ := by
    rw [← List.append_assoc]
    exact List.drop_left' (by simp)
  simp [List.append_assoc, List.take_left' hg, List.drop_left' hg, List.take_left' hl, h8]

theorem decodeValue_encodeValue (fmt : FamilyFormats) {four : Bool} {a : PathAttribute} (h : a.Plain four)
    (flags : UInt8) : decodeValue fmt four flags a.typeCode (a.encodeValue four) = some (.ok a) := by
  cases a with
  | origin o => cases o <;> rfl
  | asPath segs => simp +decide [decodeValue, typeCode, encodeValue, decodeAsSegments_encode h]
  | nextHop nh => simp +decide [decodeValue, typeCode, encodeValue]
  | multiExitDisc med => simp +decide [decodeValue, typeCode, encodeValue, readU32]
  | localPref lp => simp +decide [decodeValue, typeCode, encodeValue, readU32]
  | atomicAggregate => rfl
  | communities c =>
    have hlen := length_flatMap_of_forall length_u32Octets c
    simp +decide [decodeValue, typeCode, encodeValue, hlen, communities_encode]
  | largeCommunities c =>
    have hlen : (c.flatMap fun (g, l₁, l₂) => u32Octets g ++ u32Octets l₁ ++ u32Octets l₂).length = c.length * 12 :=
      length_flatMap_of_forall (by simp) c
    have hback := largeCommunities_encode c
    simp +decide [decodeValue, typeCode, encodeValue, hlen, hback, -List.append_assoc, -List.length_flatMap]
  | extendedCommunities c =>
    have hlen : (c.flatMap Vector.toList).length = c.length * 8 :=
      length_flatMap_of_forall (fun v => v.length_toList) c
    have hback := extendedCommunities_encode c
    simp +decide [decodeValue, typeCode, encodeValue, hlen, hback, -List.length_flatMap, -List.getD_eq_getElem?_getD]
  | mpReachNlri afi safi nh nlri => simp +decide [decodeValue, typeCode, decodeMpReach_encode fmt h]
  | mpUnreachNlri afi safi withdrawn => simp +decide [decodeValue, typeCode, decodeMpUnreach_encode fmt h]
  | originatorId id => simp +decide [decodeValue, typeCode, encodeValue]
  | clusterList ids =>
    have hlen := length_flatMap_of_forall length_ipv4Octets ids
    simp +decide [decodeValue, typeCode, encodeValue, hlen, clusterList_encode]
  | aggregator asn id => simp +decide [decodeValue, typeCode, encodeValue, decodeAggregator_encode h]
  | as4Path segs => simp +decide [decodeValue, typeCode, encodeValue, decodeAsSegments_encode h]
  | as4Aggregator asn id =>
    have hfits : AsnFits true asn := fun h => by cases h
    have hback : decodeAggregator true (u32Octets asn ++ ipv4Octets id) = some (asn, id) :=
      decodeAggregator_encode hfits id
    simp +decide [decodeValue, typeCode, encodeValue, hback]
  | onlyToCustomer asn => simp +decide [decodeValue, typeCode, encodeValue, readU32]
  | mpReachFamily f afi nh nlri => exact h.elim
  | mpUnreachFamily f afi withdrawn => exact h.elim
  | prefixSid srv6 other => exact h.elim
  | tunnelEncap tlvs => exact h.elim
  | bgpLs tlvs => exact h.elim
  | unknown flags code v => exact h.elim

/-- The flags in front of a value of this length. -/
def writtenFlags (flags : UInt8) (len : ℕ) : UInt8 :=
  if len > 0xff then flags ||| flagExtendedLen else flags &&& ~~~flagExtendedLen

/-- An attribute has the flags of its type, apart from the length bit. -/
theorem flagsFit_writtenFlags {a : PathAttribute} (h : ∀ flags code v, a ≠ unknown flags code v) (len : ℕ) :
    flagsFit (writtenFlags a.canonicalFlags len) a.canonicalFlags = true := by
  have hflags : a.canonicalFlags = flagOptional ∨ a.canonicalFlags = flagTransitive ∨
      a.canonicalFlags = flagOptional ||| flagTransitive := by
    cases a <;> first | exact (h _ _ _ rfl).elim | simp [canonicalFlags]
  unfold writtenFlags
  split_ifs
  · rcases hflags with hf | hf | hf <;> rw [hf] <;> decide
  · rcases hflags with hf | hf | hf <;> rw [hf] <;> decide

theorem frame_encode {four : Bool} {a : PathAttribute} (hlen : (a.encodeValue four).length < 65536)
    (r : List UInt8) :
    frame (a.encode four ++ r) = some (writtenFlags a.canonicalFlags (a.encodeValue four).length, a.typeCode,
      a.encodeValue four, (a.encode four).length) := by
  unfold encode writtenFlags
  by_cases hlong : (a.encodeValue four).length > 0xff
  · obtain ⟨l₁, l₀, hl⟩ := List.length_eq_two.mp (length_digits 2 (a.encodeValue four).length)
    have hval : value [l₁, l₀] = (a.encodeValue four).length := by
      rw [← hl]
      exact value_digits_of_lt hlen
    have hext : (a.canonicalFlags ||| flagExtendedLen) &&& flagExtendedLen ≠ 0 := by
      intro hzero
      have hbit := congrArg (fun f : UInt8 => f.toBitVec[4]) hzero
      simp [flagExtendedLen] at hbit
    simp only [if_pos hlong, hl, List.cons_append, List.nil_append, frame, if_pos hext, hval]
    rw [if_neg (by simp), List.take_left]
    simp
    omega
  · have hval : (UInt8.ofNat (a.encodeValue four).length).toNat = (a.encodeValue four).length := by
      rw [UInt8.toNat_ofNat']
      omega
    have hext : ¬ (a.canonicalFlags &&& ~~~flagExtendedLen) &&& flagExtendedLen ≠ 0 := by
      rw [UInt8.and_assoc, not_not]
      have hclear : ~~~flagExtendedLen &&& flagExtendedLen = 0 := by decide
      rw [hclear, UInt8.and_zero]
    simp only [if_neg hlong, List.cons_append, List.nil_append, frame, if_neg hext, hval]
    rw [if_neg (by simp), List.take_left]
    simp
    omega

theorem decode_encode (fmt : FamilyFormats) {four : Bool} {a : PathAttribute} (h : a.Plain four)
    (hlen : (a.encodeValue four).length < 65536) (r : List UInt8) :
    decode fmt four (a.encode four ++ r) = some (.keep a, (a.encode four).length) := by
  have hknown : ∀ flags code v, a ≠ unknown flags code v := by
    rintro flags code v rfl
    exact h
  simp [decode, frame_encode hlen r, decodeValue_encodeValue fmt h, flagsFit_writtenFlags hknown]

theorem length_encodeValue_lt (four : Bool) (a : PathAttribute) :
    (a.encodeValue four).length < (a.encode four).length := by
  rw [encode]
  by_cases hlong : (a.encodeValue four).length > 0xff
  · simp only [if_pos hlong, List.length_append, List.length_cons, List.length_nil]
    omega
  · simp only [if_neg hlong, List.length_append, List.length_cons, List.length_nil]
    omega

/-- Whatever follows the attribute, it is read back as it was written. -/
def Exact (fmt : FamilyFormats) (four : Bool) (a : PathAttribute) : Prop :=
  ∀ r, decode fmt four (a.encode four ++ r) = some (.keep a, (a.encode four).length)

theorem encode_ne_nil (four : Bool) (a : PathAttribute) : a.encode four ≠ [] := by
  intro hnil
  have hlt := a.length_encodeValue_lt four
  simp [hnil] at hlt

theorem length_encode_le {a : PathAttribute} {attrs : List PathAttribute} (four : Bool) (ha : a ∈ attrs) :
    (a.encode four).length ≤ (attrs.flatMap (encode four)).length := by
  rw [List.flatMap_def]
  exact (List.sublist_flatten_of_mem (List.mem_map_of_mem ha)).length_le

theorem exact_of_plain (fmt : FamilyFormats) {four : Bool} {a : PathAttribute} (h : a.Plain four)
    (hlen : (a.encode four).length < 65536) : a.Exact fmt four := by
  have hlt := a.length_encodeValue_lt four
  exact decode_encode fmt h (by omega)

end PathAttribute

theorem decodeAttributes_encode {fmt : FamilyFormats} {four : Bool} {attrs : List PathAttribute}
    (h : ∀ a ∈ attrs, a.Exact fmt four) (hcodes : (attrs.map PathAttribute.typeCode).Nodup) :
    decodeAttributes fmt four (attrs.flatMap (PathAttribute.encode four)) = .ok attrs := by
  have hread : readAll (PathAttribute.decode fmt four) (attrs.flatMap (PathAttribute.encode four)) =
      some (attrs.map .keep) := readAll_flatMap AttrOutcome.keep h fun a _ => a.encode_ne_nil four
  have hnodup : ((attrs.map AttrOutcome.keep).map AttrOutcome.typeCode).Nodup := by
    rwa [List.map_map]
  rw [decodeAttributes, hread]
  simp only [if_pos hnodup, List.filterMap_map, Function.comp_def, List.filterMap_some]

/-! Routes and UPDATEs -/

/-- Path identifiers run beside the networks with ADD-PATH and are absent without. -/
def Aligned (ap : Bool) (ps : List Prefix) (ids : List UInt32) : Prop :=
  ids.length = if ap then ps.length else 0

instance (ap : Bool) (ps : List Prefix) (ids : List UInt32) : Decidable (Aligned ap ps ids) :=
  inferInstanceAs (Decidable (_ = _))

theorem encodeRoutes_false (ps : List Prefix) (ids : List UInt32) :
    encodeRoutes false ps ids = ps.flatMap encodePrefix := by
  induction ps generalizing ids with
  | nil => rfl
  | cons p ps ih => simp [encodeRoutes, ih]

theorem encodeRoutes_true {ps : List Prefix} {ids : List UInt32} (h : ids.length = ps.length) :
    encodeRoutes true ps ids = (ids.zip ps).flatMap fun (i, p) => u32Octets i ++ encodePrefix p := by
  induction ps generalizing ids with
  | nil => simp [encodeRoutes]
  | cons p ps ih =>
    cases ids with
    | nil => cases h
    | cons i ids => simp [encodeRoutes, ih (by simpa using h)]

theorem decodeIdentified_append {p : Prefix} (hp : p.isIpv4 = true) (i : UInt32) (r : List UInt8) :
    decodeIdentified (u32Octets i ++ encodePrefix p ++ r) =
      some ((i, p), (u32Octets i ++ encodePrefix p).length) := by
  have hlen := length_u32Octets i
  have hback := decodePrefix_encodePrefixAny hp r
  rw [encodePrefix_eq hp, List.append_assoc]
  simp [decodeIdentified, List.take_left' hlen, List.drop_left' hlen, hback]

theorem decodePrefixes_encodeRoutes {ap : Bool} {ps : List Prefix} {ids : List UInt32}
    (hps : ∀ p ∈ ps, p.isIpv4 = true) (hids : Aligned ap ps ids) :
    decodePrefixes ap (encodeRoutes ap ps ids) = .ok (ps, ids) := by
  cases ap with
  | false =>
    have hnil : ids = [] := List.eq_nil_of_length_eq_zero hids
    have hread : readAll decodePrefix (ps.flatMap encodePrefix) = some ps := by
      rw [readAll_flatMap id ?_ ?_, List.map_id]
      · intro p hp r
        rw [encodePrefix_eq (hps p hp)]
        exact decodePrefix_encodePrefixAny (hps p hp) r
      · intro p hp
        rw [encodePrefix_eq (hps p hp)]
        exact encodePrefixAny_ne_nil p
    simp [decodePrefixes, encodeRoutes_false, hread, hnil]
  | true =>
    have hlen : ids.length = ps.length := hids
    have hread : readAll decodeIdentified (encodeRoutes true ps ids) = some (ids.zip ps) := by
      rw [encodeRoutes_true hlen, readAll_flatMap id ?_ ?_, List.map_id]
      · rintro ⟨i, p⟩ hip r
        exact decodeIdentified_append (hps p (List.of_mem_zip hip).2) i r
      · rintro ⟨i, p⟩ _ hnil
        have := congrArg List.length hnil
        simp at this
    simp [decodePrefixes, hread, List.map_fst_zip hlen.le, List.map_snd_zip hlen.ge]

/-- An UPDATE for plain unicast routes that the session may carry. -/
structure Update.Plain (four : Bool) (addPath : AddPath) (u : Update) : Prop where
  attributes : ∀ a ∈ u.attributes, a.Plain four
  codes : (u.attributes.map PathAttribute.typeCode).Nodup
  withdrawnIpv4 : ∀ p ∈ u.withdrawn, p.isIpv4 = true
  nlriIpv4 : ∀ p ∈ u.nlri, p.isIpv4 = true
  withdrawnIds : Aligned addPath.ipv4Unicast u.withdrawn u.withdrawnPathIds
  nlriIds : Aligned addPath.ipv4Unicast u.nlri u.nlriPathIds
  mandatory : mandatoryAttributesPresent u.attributes (!u.nlri.isEmpty) = true

/-- An UPDATE that a session reads back as it was written. -/
structure Update.Exact (fmt : FamilyFormats) (four : Bool) (addPath : AddPath) (u : Update) : Prop where
  attributes : ∀ a ∈ u.attributes, a.Exact fmt four
  codes : (u.attributes.map PathAttribute.typeCode).Nodup
  withdrawnIpv4 : ∀ p ∈ u.withdrawn, p.isIpv4 = true
  nlriIpv4 : ∀ p ∈ u.nlri, p.isIpv4 = true
  withdrawnIds : Aligned addPath.ipv4Unicast u.withdrawn u.withdrawnPathIds
  nlriIds : Aligned addPath.ipv4Unicast u.nlri u.nlriPathIds
  mandatory : mandatoryAttributesPresent u.attributes (!u.nlri.isEmpty) = true

theorem length_attributes_le (four : Bool) (addPath : AddPath) (u : Update) :
    (u.attributes.flatMap (PathAttribute.encode four)).length ≤ (encodeUpdate four addPath u).length := by
  simp only [encodeUpdate, List.length_append]
  omega

theorem Update.exact_of_plain (fmt : FamilyFormats) {four : Bool} {addPath : AddPath} {u : Update}
    (h : u.Plain four addPath) (hlen : (encodeUpdate four addPath u).length < 65536) : u.Exact fmt four addPath where
  attributes := by
    intro a ha
    have hone := PathAttribute.length_encode_le four ha
    have hall := length_attributes_le four addPath u
    exact PathAttribute.exact_of_plain fmt (h.attributes a ha) (by omega)
  codes := h.codes
  withdrawnIpv4 := h.withdrawnIpv4
  nlriIpv4 := h.nlriIpv4
  withdrawnIds := h.withdrawnIds
  nlriIds := h.nlriIds
  mandatory := h.mandatory

theorem decodeUpdate_encodeUpdate {fmt : FamilyFormats} {four : Bool} {addPath : AddPath} {u : Update}
    (h : u.Exact fmt four addPath) (hlen : (encodeUpdate four addPath u).length < 65536) :
    decodeUpdate fmt four addPath (encodeUpdate four addPath u) = .ok u := by
  let w := encodeRoutes addPath.ipv4Unicast u.withdrawn u.withdrawnPathIds
  let a := u.attributes.flatMap (PathAttribute.encode four)
  let n := encodeRoutes addPath.ipv4Unicast u.nlri u.nlriPathIds
  have hbody : encodeUpdate four addPath u = digits 2 w.length ++ (w ++ (digits 2 a.length ++ (a ++ n))) := by
    simp [encodeUpdate, w, a, n]
  have hsum : (encodeUpdate four addPath u).length = 4 + w.length + a.length + n.length := by
    rw [hbody]
    simp
    omega
  have hwl : withdrawnLen (encodeUpdate four addPath u) = w.length := by
    rw [hbody, withdrawnLen, List.take_left' (length_digits 2 _)]
    exact value_digits_of_lt (by omega)
  have hw : withdrawnOctets (encodeUpdate four addPath u) = w := by
    rw [withdrawnOctets, hwl, hbody, List.drop_left' (length_digits 2 _), List.take_left]
  have hafter : afterWithdrawn (encodeUpdate four addPath u) = digits 2 a.length ++ (a ++ n) := by
    rw [afterWithdrawn, hwl, hbody, ← List.drop_drop, List.drop_left' (length_digits 2 _), List.drop_left]
  have hal : attributeLen (encodeUpdate four addPath u) = a.length := by
    rw [attributeLen, hafter, List.take_left' (length_digits 2 _)]
    exact value_digits_of_lt (by omega)
  have ha : attributeOctets (encodeUpdate four addPath u) = a := by
    rw [attributeOctets, hal, hafter, List.drop_left' (length_digits 2 _), List.take_left]
  have hn : nlriOctets (encodeUpdate four addPath u) = n := by
    rw [nlriOctets, hal, hafter, ← List.drop_drop, List.drop_left' (length_digits 2 _), List.drop_left]
  have hattrs : decodeAttributes fmt four a = .ok u.attributes := decodeAttributes_encode h.attributes h.codes
  have hwd : decodePrefixes addPath.ipv4Unicast w = .ok (u.withdrawn, u.withdrawnPathIds) :=
    decodePrefixes_encodeRoutes h.withdrawnIpv4 h.withdrawnIds
  have hnl : decodePrefixes addPath.ipv4Unicast n = .ok (u.nlri, u.nlriPathIds) :=
    decodePrefixes_encodeRoutes h.nlriIpv4 h.nlriIds
  have hframed : Framed (encodeUpdate four addPath u) := by
    refine ⟨by omega, by omega, ?_, ?_⟩
    · rw [hafter, List.length_append, length_digits]
      omega
    · rw [hafter, hal, List.length_append, List.length_append, length_digits]
      omega
  refine decodeUpdate_eq_ok_iff.mpr ⟨hframed, _, _, hw ▸ hwd, hn ▸ hnl, ?_⟩
  simp [applyAttributes, ha, hattrs, h.mandatory]

namespace Message

theorem length_encode (four : Bool) (addPath : AddPath) (m : Message) :
    (m.encode four addPath).length = headerLen + (m.encodeBody four addPath).length := by
  have hmarker : marker.length = 16 := rfl
  simp only [encode, List.length_append, hmarker, length_digits, List.length_singleton, headerLen]

theorem decode_encode_of_exact {fmt : FamilyFormats} {four : Bool} {addPath : AddPath} {u : Update}
    (h : u.Exact fmt four addPath) (hsize : ((update u).encode four addPath).length ≤ maxMessageLen) :
    decode fmt four addPath ((update u).encode four addPath) = .ok (update u) := by
  let body := encodeUpdate four addPath u
  have hbuf : (update u).encode four addPath = marker ++ (digits 2 (headerLen + body.length) ++ ([2] ++ body)) := by
    simp [encode, encodeBody, messageType, MessageType.asU8, body]
  have hmarker : marker.length = 16 := rfl
  have hlen : ((update u).encode four addPath).length = headerLen + body.length := length_encode four addPath _
  rw [hlen] at hsize
  have hmax : headerLen + body.length < 65536 := by
    have : maxMessageLen = 4096 := rfl
    omega
  have hupd : decodeUpdate fmt four addPath body = .ok u := by
    have hlt : body.length < 65536 := by omega
    exact decodeUpdate_encodeUpdate h hlt
  have htake : ((update u).encode four addPath).take 16 = marker := by
    rw [hbuf]
    exact List.take_left' hmarker
  have hstated : value ((((update u).encode four addPath).drop 16).take 2) = headerLen + body.length := by
    rw [hbuf, List.drop_left' hmarker, List.take_left' (length_digits 2 _)]
    exact value_digits_of_lt hmax
  have hdrop : ((update u).encode four addPath).drop 18 = [2] ++ body := by
    rw [hbuf, ← List.append_assoc]
    exact List.drop_left' (by simp [hmarker])
  have htype : ((update u).encode four addPath).getD 18 0 = 2 := by
    have hget : ((update u).encode four addPath)[18]? = (([2] ++ body : List UInt8))[0]? := by
      rw [← hdrop, List.getElem?_drop]
    simp [hget]
  have hrest : ((update u).encode four addPath).drop headerLen = body := by
    have hsplit : headerLen = 18 + 1 := rfl
    rw [hsplit, ← List.drop_drop, hdrop]
    rfl
  have hshort : ¬ headerLen + body.length < headerLen := by omega
  have hbad : ¬ (headerLen + body.length ≠ headerLen + body.length ∨ headerLen + body.length < headerLen ∨
      headerLen + body.length > maxMessageLen) := by omega
  have hmark : ¬ marker ≠ marker := not_not_intro rfl
  simp only [decode, hlen, htake, hstated, htype, hrest, if_neg hshort, if_neg hmark, if_neg hbad]
  change (do let u' ← decodeUpdate fmt four addPath body; return update u') = _
  rw [hupd]
  rfl

/-- On a session with ASes of either width, with or without ADD-PATH. -/
theorem decode_encode_update (fmt : FamilyFormats) (four : Bool) (addPath : AddPath) (u : Update)
    (h : u.Plain four addPath) (hsize : ((update u).encode four addPath).length ≤ maxMessageLen) :
    decode fmt four addPath ((update u).encode four addPath) = .ok (update u) := by
  have hbody : (encodeUpdate four addPath u).length < 65536 := by
    have hlen : ((update u).encode four addPath).length = headerLen + (encodeUpdate four addPath u).length :=
      length_encode four addPath _
    have hmax : maxMessageLen = 4096 := rfl
    omega
  exact decode_encode_of_exact (u.exact_of_plain fmt h hbody) hsize

/-- An IPv4 route with a path identifier and an IPv6 route in one UPDATE. -/
def twoFamilies : Update where
  attributes := [.origin .igp, .asPath [.sequence [65001, 4200000000], .set [65010]], .nextHop 0x0a000001,
    .mpReachNlri afiIpv6 safiUnicast (List.replicate 16 1) [⟨.v6 0, 0, Prefix.anyV6_len_le, Prefix.anyV6_masked⟩]]
  nlri := [⟨.v4 0x0a000000, 8, Prefix.net10_len_le, Prefix.net10_masked⟩]
  nlriPathIds := [7]

def noFamilies : FamilyFormats := ⟨fun _ _ _ => none, fun _ => none, fun _ => none, fun _ => none⟩

theorem decode_encode_twoFamilies :
    decode noFamilies true ⟨true⟩ ((update twoFamilies).encode true ⟨true⟩) = .ok (update twoFamilies) := by
  refine decode_encode_update noFamilies true ⟨true⟩ twoFamilies ⟨?_, ?_, ?_, ?_, ?_, ?_, ?_⟩ ?_
  · intro a ha
    simp only [twoFamilies, List.mem_cons, List.not_mem_nil, or_false] at ha
    rcases ha with rfl | rfl | rfl | rfl
    · trivial
    · intro s hs
      simp only [List.mem_cons, List.not_mem_nil, or_false] at hs
      rcases hs with rfl | rfl
      · exact ⟨by decide, by decide, fun _ _ h => by cases h⟩
      · exact ⟨by decide, by decide, fun _ _ h => by cases h⟩
    · trivial
    · exact ⟨by decide, by decide, by decide⟩
  all_goals decide +kernel

end Message

end Wren.Bgp
