import Wren.Bgp.Attr

/-! The octets of networks, AS paths and path attributes. -/

namespace Wren.Bgp
open Wren.Core Octets

def afiL2vpn : UInt16 := 25
def afiLinkState : UInt16 := 16388
def safiEvpn : UInt8 := 70
def safiLinkState : UInt8 := 71
def safiSrPolicy : UInt8 := 73
def safiFlowSpec : UInt8 := 133

/-- Stands for an AS that does not fit two octets. -/
def asTrans : UInt16 := 23456

def asTransFit (asn : UInt32) : UInt16 := if asn > 0xffff then asTrans else asn.toUInt16

def u16Octets (x : UInt16) : List UInt8 := digits 2 x.toNat

def u32Octets (x : UInt32) : List UInt8 := digits 4 x.toNat

def ipv4Octets (a : Ipv4Addr) : List UInt8 := digits 4 a.toNat

def ipv4OfOctets (l : List UInt8) : Ipv4Addr := BitVec.ofNat 32 (value l)

def u32OfOctets (l : List UInt8) : UInt32 := UInt32.ofNat (value l)

/-- A network of either family: its length, then the octets that hold significant bits. -/
def encodePrefixAny (p : Prefix) : List UInt8 :=
  let n := (p.len.toNat + 7) / 8
  match p.addr with
  | .v4 a => p.len :: (digits 4 a.toNat).take n
  | .v6 a => p.len :: (digits 16 a.toNat).take n

/-- Of a network that is not IPv4 only the length is written. -/
def encodePrefix (p : Prefix) : List UInt8 :=
  match p.addr with
  | .v4 a => p.len :: (digits 4 a.toNat).take ((p.len.toNat + 7) / 8)
  | .v6 _ => [p.len]

/-- A network with addresses of `width` octets from the front of `buf`, and the octets it took. -/
def readPrefix (width : ℕ) (addr : List UInt8 → IpAddr) (buf : List UInt8) : Option (Prefix × ℕ) := do
  let len ← buf.head?
  guard (len.toNat ≤ 8 * width)
  let n := (len.toNat + 7) / 8
  guard (1 + n ≤ buf.length)
  let octets := (buf.drop 1).take n ++ List.replicate (width - n) 0
  let p ← (Prefix.new (addr octets) len).toOption
  some (p, 1 + n)

def decodePrefix : List UInt8 → Option (Prefix × ℕ) :=
  readPrefix 4 fun octets => .v4 (ipv4OfOctets octets)

def decodePrefixV6 : List UInt8 → Option (Prefix × ℕ) :=
  readPrefix 16 fun octets => .v6 (BitVec.ofNat 128 (value octets))

namespace Origin

def fromU8 (v : UInt8) : Option Origin :=
  if v = 0 then some igp else if v = 1 then some egp else if v = 2 then some incomplete else none

end Origin

namespace AsPathSegment

def kind : AsPathSegment → UInt8
  | set _ => 1
  | sequence _ => 2
  | confedSequence _ => 3
  | confedSet _ => 4

def ofKind (kind : UInt8) (asns : List UInt32) : Option AsPathSegment :=
  if kind = 1 then some (set asns)
  else if kind = 2 then some (sequence asns)
  else if kind = 3 then some (confedSequence asns)
  else if kind = 4 then some (confedSet asns)
  else none

end AsPathSegment

/-- An AS in the width of the session. -/
def asnOctets (four : Bool) (asn : UInt32) : List UInt8 :=
  if four then u32Octets asn else u16Octets (asTransFit asn)

def asnWidth (four : Bool) : ℕ := if four then 4 else 2

namespace AsPathSegment

def encode (four : Bool) (s : AsPathSegment) : List UInt8 :=
  s.kind :: UInt8.ofNat s.asns.length :: s.asns.flatMap (asnOctets four)

def decode (four : Bool) : List UInt8 → Option (AsPathSegment × ℕ)
  | kind :: count :: rest =>
    let size := count.toNat * asnWidth four
    if rest.length < size then none
    else
      let asns := (chunksExact (asnWidth four) (rest.take size)).map u32OfOctets
      (ofKind kind asns).map fun seg => (seg, 2 + size)
  | _ => none

end AsPathSegment

/-- AS 0 makes the whole path malformed. -/
def decodeAsSegments (four : Bool) : List UInt8 → Option (List AsPathSegment) :=
  readAll fun buf => do
    let (seg, used) ← AsPathSegment.decode four buf
    if 0 ∈ seg.asns then none else some (seg, used)

def decodeMpPrefixes (afi : UInt16) : List UInt8 → Option (List Prefix) :=
  readAll (if afi = afiIpv6 then decodePrefixV6 else decodePrefix)

def decodeAggregator (four : Bool) (v : List UInt8) : Option (UInt32 × Ipv4Addr) :=
  if v.length ≠ asnWidth four + 4 then none
  else some (u32OfOctets (v.take (asnWidth four)), ipv4OfOctets (v.drop (asnWidth four)))

def readU32 (v : List UInt8) : Option UInt32 := if v.length ≠ 4 then none else some (u32OfOctets v)

def unicastNextHopLen (afi : UInt16) (len : ℕ) : Bool :=
  if afi = afiIpv4 then len = 4 ∨ len = 16 ∨ len = 32
  else if afi = afiIpv6 then len = 16 ∨ len = 32
  else false

def knownFamily (afi : UInt16) (safi : UInt8) : Bool :=
  (afi = afiIpv4 ∨ afi = afiIpv6) ∧ safi = safiUnicast

def encodeSidInformation (s : Srv6ServiceSid) : List UInt8 :=
  let l := s.layout
  let subsub := [1] ++ u16Octets 6 ++ [l.locatorBlockLen, l.locatorNodeLen, l.functionLen, l.argumentLen,
    l.transpositionLen, l.transpositionOffset]
  [1] ++ digits 2 (1 + 16 + 1 + 2 + 1 + subsub.length) ++ [0] ++ s.sid.toList ++ [s.flags] ++
    u16Octets s.behavior ++ [0] ++ subsub

def encodeSrv6ServiceTlv (t : Srv6ServiceTlv) : List UInt8 :=
  let sub := t.sids.flatMap encodeSidInformation
  [if t.isL2 then 6 else 5] ++ digits 2 (1 + sub.length) ++ [0] ++ sub

/-- The formats of the families that are not IP networks, and of the attributes that only they use:
what a decoder makes of their octets. -/
structure FamilyFormats where
  nlris : Family → UInt16 → List UInt8 → Option (List FamilyNlri)
  prefixSid : List UInt8 → Option (List Srv6ServiceTlv × List (UInt8 × List UInt8))
  tunnelEncap : List UInt8 → Option (List UInt8)
  bgpLs : List UInt8 → Option (List UInt8)

def Family.safi : Family → UInt8
  | evpn => safiEvpn
  | flowSpec => safiFlowSpec
  | srPolicy => safiSrPolicy
  | linkState => safiLinkState

/-- The family with routes of its own that an (AFI, SAFI) pair names. -/
def Family.of? (afi : UInt16) (safi : UInt8) : Option Family :=
  if afi = afiL2vpn ∧ safi = safiEvpn then some evpn
  else if safi = safiFlowSpec then some flowSpec
  else if safi = safiSrPolicy then some srPolicy
  else if afi = afiLinkState ∧ safi = safiLinkState then some linkState
  else none

/-- What an attribute means for the UPDATE that carries it. -/
inductive AttrOutcome where
  | keep (a : PathAttribute)
  | discard (typeCode : UInt8)
deriving DecidableEq

/-- The Optional and Transitive bits are the canonical ones, and Partial is set on an optional
transitive attribute only. -/
def flagsFit (flags canonical : UInt8) : Bool :=
  let defining := flagOptional ||| flagTransitive
  flags &&& defining = canonical &&& defining ∧
    (canonical &&& defining = defining ∨ flags &&& flagPartial = 0)

namespace PathAttribute

def typeOrigin : UInt8 := 1
def typeAsPath : UInt8 := 2
def typeNextHop : UInt8 := 3
def typeMed : UInt8 := 4
def typeLocalPref : UInt8 := 5
def typeAtomicAggregate : UInt8 := 6
def typeAggregator : UInt8 := 7
def typeCommunities : UInt8 := 8
def typeOriginatorId : UInt8 := 9
def typeClusterList : UInt8 := 10
def typeMpReachNlri : UInt8 := 14
def typeMpUnreachNlri : UInt8 := 15
def typeExtendedCommunities : UInt8 := 16
def typeAs4Path : UInt8 := 17
def typeAs4Aggregator : UInt8 := 18
def typeTunnelEncap : UInt8 := 23
def typeBgpLs : UInt8 := 29
def typeLargeCommunities : UInt8 := 32
def typeOnlyToCustomer : UInt8 := 35
def typePrefixSid : UInt8 := 40

def typeCode : PathAttribute → UInt8
  | origin _ => typeOrigin
  | asPath _ => typeAsPath
  | nextHop _ => typeNextHop
  | multiExitDisc _ => typeMed
  | localPref _ => typeLocalPref
  | atomicAggregate => typeAtomicAggregate
  | aggregator .. => typeAggregator
  | communities _ => typeCommunities
  | extendedCommunities _ => typeExtendedCommunities
  | mpReachNlri .. | mpReachFamily .. => typeMpReachNlri
  | mpUnreachNlri .. | mpUnreachFamily .. => typeMpUnreachNlri
  | originatorId _ => typeOriginatorId
  | clusterList _ => typeClusterList
  | largeCommunities _ => typeLargeCommunities
  | as4Path _ => typeAs4Path
  | as4Aggregator .. => typeAs4Aggregator
  | prefixSid .. => typePrefixSid
  | tunnelEncap _ => typeTunnelEncap
  | onlyToCustomer _ => typeOnlyToCustomer
  | bgpLs _ => typeBgpLs
  | unknown _ code _ => code

end PathAttribute

def AttrOutcome.typeCode : AttrOutcome → UInt8
  | keep a => a.typeCode
  | discard code => code

namespace PathAttribute

def canonicalFlags : PathAttribute → UInt8
  | multiExitDisc _ | mpReachNlri .. | mpUnreachNlri .. | mpReachFamily .. | mpUnreachFamily ..
  | bgpLs _ | originatorId _ | clusterList _ => flagOptional
  | aggregator .. | communities _ | extendedCommunities _ | largeCommunities _ | as4Path _
  | as4Aggregator .. | prefixSid .. | tunnelEncap _ | onlyToCustomer _ => flagOptional ||| flagTransitive
  | unknown flags _ _ => flags
  | origin _ | asPath _ | nextHop _ | localPref _ | atomicAggregate => flagTransitive

def encodeValue (four : Bool) : PathAttribute → List UInt8
  | origin o => [o.asU8]
  | asPath segs => segs.flatMap (AsPathSegment.encode four)
  | nextHop ip => ipv4Octets ip
  | multiExitDisc m => u32Octets m
  | localPref lp => u32Octets lp
  | atomicAggregate => []
  | communities c => c.flatMap u32Octets
  | largeCommunities c => c.flatMap fun (g, l₁, l₂) => u32Octets g ++ u32Octets l₁ ++ u32Octets l₂
  | extendedCommunities c => c.flatMap Vector.toList
  | mpReachNlri afi safi nh nlri =>
    u16Octets afi ++ [safi, UInt8.ofNat nh.length] ++ nh ++ [0] ++ nlri.flatMap encodePrefixAny
  | mpUnreachNlri afi safi withdrawn => u16Octets afi ++ [safi] ++ withdrawn.flatMap encodePrefixAny
  | mpReachFamily f afi nh nlri =>
    u16Octets afi ++ [f.safi, UInt8.ofNat nh.length] ++ nh ++ [0] ++ nlri.flatMap FamilyNlri.octets
  | mpUnreachFamily f afi withdrawn => u16Octets afi ++ [f.safi] ++ withdrawn.flatMap FamilyNlri.octets
  | originatorId id => ipv4Octets id
  | clusterList ids => ids.flatMap ipv4Octets
  | aggregator asn id => asnOctets four asn ++ ipv4Octets id
  | as4Path segs => segs.flatMap (AsPathSegment.encode true)
  | as4Aggregator asn id => u32Octets asn ++ ipv4Octets id
  | prefixSid srv6 other =>
    srv6.flatMap encodeSrv6ServiceTlv ++ other.flatMap fun (t, v) => [t] ++ digits 2 v.length ++ v
  | tunnelEncap tlvs => tlvs
  | onlyToCustomer asn => u32Octets asn
  | bgpLs tlvs => tlvs
  | unknown _ _ v => v

/-- Flags, type, length and value. A value of more than 255 octets has a length of two octets. -/
def encode (four : Bool) (a : PathAttribute) : List UInt8 :=
  let v := a.encodeValue four
  if v.length > 0xff then
    [a.canonicalFlags ||| flagExtendedLen, a.typeCode] ++ digits 2 v.length ++ v
  else
    [a.canonicalFlags &&& ~~~flagExtendedLen, a.typeCode, UInt8.ofNat v.length] ++ v

/-- Reachable routes: the family, the next hop, a reserved octet and the routes. -/
def decodeMpReach (fmt : FamilyFormats) : List UInt8 → Option PathAttribute
  | a₁ :: a₀ :: safi :: nhLen :: rest =>
    let afi := UInt16.ofNat (value [a₁, a₀])
    if rest.length < nhLen.toNat + 1 then none
    else
      let nh := rest.take nhLen.toNat
      let routes := rest.drop (nhLen.toNat + 1)
      match Family.of? afi safi with
      | some f => (fmt.nlris f afi routes).map (mpReachFamily f afi nh)
      | none =>
        if knownFamily afi safi = false ∨ unicastNextHopLen afi nhLen.toNat = false then none
        else (decodeMpPrefixes afi routes).map (mpReachNlri afi safi nh)
  | _ => none

def decodeMpUnreach (fmt : FamilyFormats) : List UInt8 → Option PathAttribute
  | a₁ :: a₀ :: safi :: routes =>
    let afi := UInt16.ofNat (value [a₁, a₀])
    match Family.of? afi safi with
    | some f => (fmt.nlris f afi routes).map (mpUnreachFamily f afi)
    | none =>
      if knownFamily afi safi = false then none
      else (decodeMpPrefixes afi routes).map (mpUnreachNlri afi safi)
  | _ => none

/-- The value of an attribute, before its flags are checked. An error is a wrong length that costs
only the attribute, with the flags it should have had. -/
def decodeValue (fmt : FamilyFormats) (four : Bool) (flags code : UInt8) (v : List UInt8) :
    Option (Except UInt8 PathAttribute) :=
  let keep (a : Option PathAttribute) : Option (Except UInt8 PathAttribute) := a.map .ok
  let orUnknown (a : Option PathAttribute) : Option (Except UInt8 PathAttribute) :=
    some (.ok (a.getD (unknown flags code v)))
  if code = typeOrigin then
    match v with
    | [o] => keep ((Origin.fromU8 o).map origin)
    | _ => none
  else if code = typeAsPath then keep ((decodeAsSegments four v).map asPath)
  else if code = typeAs4Path then keep ((decodeAsSegments true v).map as4Path)
  else if code = typeNextHop then if v.length ≠ 4 then none else keep (some (nextHop (ipv4OfOctets v)))
  else if code = typeMed then keep ((readU32 v).map multiExitDisc)
  else if code = typeLocalPref then keep ((readU32 v).map localPref)
  else if code = typeAtomicAggregate then
    if v ≠ [] then some (.error flagTransitive) else keep (some atomicAggregate)
  else if code = typeCommunities then
    if v.length % 4 ≠ 0 then none else keep (some (communities ((chunksExact 4 v).map u32OfOctets)))
  else if code = typeExtendedCommunities then
    if v.length % 8 ≠ 0 then none
    else keep (some (extendedCommunities ((chunksExact 8 v).map fun c => Vector.ofFn fun i => c.getD i 0)))
  else if code = typeLargeCommunities then
    if v.length % 12 ≠ 0 then none
    else keep (some (largeCommunities ((chunksExact 12 v).map fun c =>
      (u32OfOctets (c.take 4), u32OfOctets ((c.drop 4).take 4), u32OfOctets (c.drop 8)))))
  else if code = typeMpReachNlri then keep (decodeMpReach fmt v)
  else if code = typeMpUnreachNlri then keep (decodeMpUnreach fmt v)
  else if code = typeOriginatorId then
    if v.length ≠ 4 then none else keep (some (originatorId (ipv4OfOctets v)))
  else if code = typeClusterList then
    if v.length % 4 ≠ 0 then none else keep (some (clusterList ((chunksExact 4 v).map ipv4OfOctets)))
  else if code = typeAggregator then
    match decodeAggregator four v with
    | some (asn, id) => keep (some (aggregator asn id))
    | none => some (.error (flagOptional ||| flagTransitive))
  else if code = typeAs4Aggregator then
    keep ((decodeAggregator true v).map fun (asn, id) => as4Aggregator asn id)
  else if code = typeOnlyToCustomer then keep ((readU32 v).map onlyToCustomer)
  else if code = typeTunnelEncap then orUnknown ((fmt.tunnelEncap v).map tunnelEncap)
  else if code = typeBgpLs then orUnknown ((fmt.bgpLs v).map bgpLs)
  else if code = typePrefixSid then orUnknown ((fmt.prefixSid v).map fun (srv6, other) => prefixSid srv6 other)
  else orUnknown none

/-- The flags, the type and the value of the first attribute, and the octets it takes. -/
def frame : List UInt8 → Option (UInt8 × UInt8 × List UInt8 × ℕ)
  | flags :: code :: l :: rest =>
    if flags &&& flagExtendedLen ≠ 0 then
      match rest with
      | l₀ :: rest =>
        let len := value [l, l₀]
        if rest.length < len then none else some (flags, code, rest.take len, 4 + len)
      | [] => none
    else
      if rest.length < l.toNat then none else some (flags, code, rest.take l.toNat, 3 + l.toNat)
  | _ => none

def decode (fmt : FamilyFormats) (four : Bool) (buf : List UInt8) : Option (AttrOutcome × ℕ) := do
  let (flags, code, v, used) ← frame buf
  let decoded ← decodeValue fmt four flags code v
  match decoded with
  | .error canonical => if flagsFit flags canonical then some (.discard code, used) else none
  | .ok a => if flagsFit flags a.canonicalFlags then some (.keep a, used) else none

end PathAttribute

end Wren.Bgp
