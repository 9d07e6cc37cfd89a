import Wren.Isis.Basic

/-! The TLVs that make up the body of a PDU, and their wire format. -/

namespace Wren.Isis
open Octets

abbrev AreaAddress := List UInt8

structure LspEntry where
  remainingLifetime : UInt16
  lspId : LspId
  sequenceNumber : UInt32
  checksum : UInt16
deriving DecidableEq

/-- A link to a router or a pseudonode, with a metric of 24 bits on the wire. -/
structure ExtIsReach where
  neighborId : NodeId
  metric : UInt32
  subTlvs : List UInt8
deriving DecidableEq

structure ExtIpReach where
  metric : UInt32
  upDown : Bool
  prefixLen : UInt8
  pfx : Ipv4Addr
  subTlvs : Option (List UInt8)
deriving DecidableEq

structure Ipv6Reach where
  metric : UInt32
  upDown : Bool
  external : Bool
  prefixLen : UInt8
  pfx : Ipv6Addr
  subTlvs : Option (List UInt8)
deriving DecidableEq

inductive Tlv where
  | areaAddresses (areas : List AreaAddress)
  | lanNeighbors (macs : List Snpa)
  | padding (n : ℕ)
  | lspEntries (entries : List LspEntry)
  | authentication (authType : UInt8) (data : List UInt8)
  | extendedIsReachability (reaches : List ExtIsReach)
  | protocolsSupported (nlpids : List UInt8)
  | ipv4InterfaceAddresses (addrs : List Ipv4Addr)
  | extendedIpReachability (reaches : List ExtIpReach)
  | ipv6InterfaceAddresses (addrs : List Ipv6Addr)
  | ipv6Reachability (reaches : List Ipv6Reach)
  | p2pThreeWay (adjState : UInt8) (extLocalCircuitId : UInt32) (neighbor : Option (SystemId × UInt32))
  | unknown (typ : UInt8) (value : List UInt8)
deriving DecidableEq

def pfxBytes (len : UInt8) : ℕ := (len.toNat + 7) / 8

/-- The sub-TLVs of a reachability entry, after a length of their own. -/
def encodeSub : Option (List UInt8) → List UInt8
  | none => []
  | some sub => UInt8.ofNat (min sub.length 255) :: sub

namespace LspEntry

def encode (e : LspEntry) : List UInt8 :=
  digits 2 e.remainingLifetime.toNat ++ e.lspId.encode ++ digits 4 e.sequenceNumber.toNat ++ digits 2 e.checksum.toNat

def decode (c : List UInt8) : Option LspEntry := do
  let lspId ← LspId.decode ((c.drop 2).take 8)
  return ⟨UInt16.ofNat (value (c.take 2)), lspId, UInt32.ofNat (value ((c.drop 10).take 4)),
    UInt16.ofNat (value ((c.drop 14).take 2))⟩

end LspEntry

namespace ExtIsReach

def encode (r : ExtIsReach) : List UInt8 :=
  r.neighborId.encode ++ digits 3 r.metric.toNat ++ UInt8.ofNat (min r.subTlvs.length 255) :: r.subTlvs

def decode (v : List UInt8) : Option (ExtIsReach × ℕ) :=
  if v.length < 11 then none
  else
    let subLen := (v.getD 10 0).toNat
    if v.length < 11 + subLen then none
    else some (⟨⟨BitVec.ofNat 48 (value (v.take 6)), v.getD 6 0⟩, UInt32.ofNat (value ((v.drop 7).take 3)),
      (v.drop 11).take subLen⟩, 11 + subLen)

end ExtIsReach

/-- The sub-TLVs from `p` on, where the entry says that it has any, and where they end. -/
def decodeSub (v : List UInt8) (p : ℕ) (hasSub : Bool) : Option (Option (List UInt8) × ℕ) :=
  if hasSub then
    if v.length ≤ p then none
    else
      let subLen := (v.getD p 0).toNat
      if v.length < p + 1 + subLen then none else some (some ((v.drop (p + 1)).take subLen), p + 1 + subLen)
  else some (none, p)

namespace ExtIpReach

/-- The prefix length is clamped, so that what is written can be read. -/
def encode (r : ExtIpReach) : List UInt8 :=
  let prefixLen := min r.prefixLen 32
  let control := prefixLen ||| (if r.upDown then 0x80 else 0) ||| (if r.subTlvs.isSome then 0x40 else 0)
  digits 4 r.metric.toNat ++ control :: (digits 4 r.pfx.toNat).take (pfxBytes prefixLen) ++ encodeSub r.subTlvs

def decode (v : List UInt8) : Option (ExtIpReach × ℕ) :=
  if v.length < 5 then none
  else
    let control := v.getD 4 0
    let prefixLen := control &&& 0x3f
    let n := pfxBytes prefixLen
    if 32 < prefixLen then none
    else if v.length < 5 + n then none
    else do
      let (subTlvs, used) ← decodeSub v (5 + n) (control &&& 0x40 ≠ 0)
      return (⟨UInt32.ofNat (value (v.take 4)), control &&& 0x80 ≠ 0, prefixLen,
        BitVec.ofNat 32 (value ((v.drop 5).take n ++ List.replicate (4 - n) 0)), subTlvs⟩, used)

end ExtIpReach

namespace Ipv6Reach

def encode (r : Ipv6Reach) : List UInt8 :=
  let flags : UInt8 := (if r.upDown then 0x80 else 0) ||| (if r.external then 0x40 else 0) |||
    (if r.subTlvs.isSome then 0x20 else 0)
  let prefixLen := min r.prefixLen 128
  digits 4 r.metric.toNat ++ flags :: prefixLen :: (digits 16 r.pfx.toNat).take (pfxBytes prefixLen) ++
    encodeSub r.subTlvs

def decode (v : List UInt8) : Option (Ipv6Reach × ℕ) :=
  if v.length < 6 then none
  else
    let flags := v.getD 4 0
    let prefixLen := v.getD 5 0
    let n := pfxBytes prefixLen
    if 128 < prefixLen then none
    else if v.length < 6 + n then none
    else do
      let (subTlvs, used) ← decodeSub v (6 + n) (flags &&& 0x20 ≠ 0)
      return (⟨UInt32.ofNat (value (v.take 4)), flags &&& 0x80 ≠ 0, flags &&& 0x40 ≠ 0, prefixLen,
        BitVec.ofNat 128 (value ((v.drop 6).take n ++ List.replicate (16 - n) 0)), subTlvs⟩, used)

end Ipv6Reach

namespace Tlv

def typeCode : Tlv → UInt8
  | areaAddresses _ => 1
  | lanNeighbors _ => 6
  | padding _ => 8
  | lspEntries _ => 9
  | authentication _ _ => 10
  | extendedIsReachability _ => 22
  | protocolsSupported _ => 129
  | ipv4InterfaceAddresses _ => 132
  | extendedIpReachability _ => 135
  | ipv6InterfaceAddresses _ => 232
  | ipv6Reachability _ => 236
  | p2pThreeWay _ _ _ => 240
  | unknown typ _ => typ

def encodeValue : Tlv → List UInt8
  | areaAddresses areas => areas.flatMap fun a => UInt8.ofNat a.length :: a
  | lanNeighbors macs => macs.flatMap fun m => digits 6 m.toNat
  | padding n => List.replicate n 0
  | lspEntries entries => entries.flatMap LspEntry.encode
  | authentication authType data => authType :: data
  | extendedIsReachability reaches => reaches.flatMap ExtIsReach.encode
  | protocolsSupported nlpids => nlpids
  | ipv4InterfaceAddresses addrs => addrs.flatMap fun a => digits 4 a.toNat
  | extendedIpReachability reaches => reaches.flatMap ExtIpReach.encode
  | ipv6InterfaceAddresses addrs => addrs.flatMap fun a => digits 16 a.toNat
  | ipv6Reachability reaches => reaches.flatMap Ipv6Reach.encode
  | p2pThreeWay adjState ext neighbor => adjState :: digits 4 ext.toNat ++
      match neighbor with
      | none => []
      | some (nid, ncid) => digits 6 nid.toNat ++ digits 4 ncid.toNat
  | unknown _ value => value

/-- A value that does not fit the length octet is cut off. -/
def encode (t : Tlv) : List UInt8 :=
  let value := t.encodeValue.take 255
  t.typeCode :: UInt8.ofNat value.length :: value

def decodeArea (v : List UInt8) : Option (AreaAddress × ℕ) :=
  let n := (v.getD 0 0).toNat
  if v.length < 1 + n then none else some ((v.drop 1).take n, 1 + n)

def decodeOne (typ : UInt8) (v : List UInt8) : Option Tlv :=
  if typ = 1 then (readAll decodeArea v).map areaAddresses
  else if typ = 6 then
    if v.length % 6 ≠ 0 then none
    else some (lanNeighbors ((chunksExact 6 v).map fun c => BitVec.ofNat 48 (value c)))
  else if typ = 8 then some (padding v.length)
  else if typ = 9 then
    if v.length % 16 ≠ 0 then none else ((chunksExact 16 v).mapM LspEntry.decode).map lspEntries
  else if typ = 10 then
    match v with
    | [] => none
    | authType :: data => some (authentication authType data)
  else if typ = 22 then (readAll ExtIsReach.decode v).map extendedIsReachability
  else if typ = 129 then some (protocolsSupported v)
  else if typ = 132 then
    if v.length % 4 ≠ 0 then none
    else some (ipv4InterfaceAddresses ((chunksExact 4 v).map fun c => BitVec.ofNat 32 (value c)))
  else if typ = 135 then (readAll ExtIpReach.decode v).map extendedIpReachability
  else if typ = 232 then
    if v.length % 16 ≠ 0 then none
    else some (ipv6InterfaceAddresses ((chunksExact 16 v).map fun c => BitVec.ofNat 128 (value c)))
  else if typ = 236 then (readAll Ipv6Reach.decode v).map ipv6Reachability
  else if typ = 240 then
    if v.length = 1 then some (p2pThreeWay (v.getD 0 0) 0 none)
    else if v.length = 5 then
      some (p2pThreeWay (v.getD 0 0) (UInt32.ofNat (value ((v.drop 1).take 4))) none)
    else if v.length = 15 then
      some (p2pThreeWay (v.getD 0 0) (UInt32.ofNat (value ((v.drop 1).take 4)))
        (some (BitVec.ofNat 48 (value ((v.drop 5).take 6)), UInt32.ofNat (value ((v.drop 11).take 4)))))
    else none
  else some (unknown typ v)

end Tlv

def encodeAll (tlvs : List Tlv) : List UInt8 := tlvs.flatMap Tlv.encode

/-- One TLV from the front of a body, and how many octets it takes. -/
def decodeNext (buf : List UInt8) : Option (Tlv × ℕ) :=
  if buf.length < 2 then none
  else
    let len := (buf.getD 1 0).toNat
    if buf.length < 2 + len then none
    else (Tlv.decodeOne (buf.getD 0 0) ((buf.drop 2).take len)).map fun t => (t, 2 + len)

def decodeAll (buf : List UInt8) : Option (List Tlv) := readAll decodeNext buf

/-! ### Reading back -/

theorem length_encode_take (t : Tlv) : (t.encodeValue.take 255).length < 256 := by
  rw [List.length_take]
  omega

theorem decodeNext_encode (t : Tlv) (r : List UInt8) :
    decodeNext (t.encode ++ r) =
      (Tlv.decodeOne t.typeCode (t.encodeValue.take 255)).map fun u => (u, t.encode.length) := by
  have hlen : (UInt8.ofNat (t.encodeValue.take 255).length).toNat = (t.encodeValue.take 255).length :=
    UInt8.toNat_ofNat_of_lt' (length_encode_take t)
  have hbuf : t.encode ++ r = t.typeCode :: UInt8.ofNat (t.encodeValue.take 255).length ::
      (t.encodeValue.take 255 ++ r) := rfl
  have htotal : t.encode.length = 2 + (t.encodeValue.take 255).length := by
    rw [Tlv.encode, List.length_cons, List.length_cons]
    omega
  rw [hbuf, decodeNext, if_neg (by simp)]
  simp only [List.getD_cons_succ, List.getD_cons_zero, hlen, List.drop_succ_cons, List.drop_zero, List.take_left]
  rw [if_neg (by simp only [List.length_cons, List.length_append]; omega), htotal]

/-- Each TLV is read on its own, cut off or not. -/
theorem decodeAll_encodeAll (tlvs : List Tlv) :
    decodeAll (encodeAll tlvs) = tlvs.mapM fun t => Tlv.decodeOne t.typeCode (t.encodeValue.take 255) := by
  refine readAll_flatMapM _ (fun t _ r => decodeNext_encode t r) ?_
  intro t _
  simp [Tlv.encode]

end Wren.Isis
