import Wren.Core.Prefix
import Wren.Lib.Octets

/-! Babel TLVs: their address and prefix encodings, and the octets of each record. -/

namespace Wren.Babel
open Wren.Core Octets

def aeWildcard : UInt8 := 0
def aeIpv4 : UInt8 := 1
def aeIpv6 : UInt8 := 2
/-- Link-local IPv6: the `fe80::/64` part is implied, 8 octets are on the wire. -/
def aeIpv6Ll : UInt8 := 3

/-- The default prefix of each address family, which compressed Updates refer to. -/
structure Compress where
  defaultV4 : BitVec 32 := 0
  defaultV6 : BitVec 128 := 0

namespace Compress

def setDefault (ctx : Compress) (p : Prefix) : Compress :=
  match p.addr with
  | .v4 a => { ctx with defaultV4 := a }
  | .v6 a => { ctx with defaultV6 := a }

def defaultFor (ctx : Compress) (ae : UInt8) : List UInt8 :=
  if ae = aeIpv4 then digits 4 ctx.defaultV4.toNat else digits 16 ctx.defaultV6.toNat

end Compress

/-- In `fe80::/10`. -/
def isLinkLocal (a : BitVec 128) : Bool := a.extractLsb' 112 16 &&& 0xffc0 == 0xfe80

/-- The address encoding and the octets of a full address. -/
def writeAddress : IpAddr → UInt8 × List UInt8
  | .v4 a => (aeIpv4, digits 4 a.toNat)
  | .v6 a =>
    if isLinkLocal a then (aeIpv6Ll, (digits 16 a.toNat).drop 8) else (aeIpv6, digits 16 a.toNat)

/-- An address from the front of `buf`, and the number of octets it took. -/
def readAddress (ae : UInt8) (buf : List UInt8) : Option (IpAddr × ℕ) :=
  if ae = aeIpv4 then do
    let b ← slice? buf 0 4
    some (.v4 (BitVec.ofNat 32 (value b)), 4)
  else if ae = aeIpv6 then do
    let b ← slice? buf 0 16
    some (.v6 (BitVec.ofNat 128 (value b)), 16)
  else if ae = aeIpv6Ll then do
    let low ← slice? buf 0 8
    some (.v6 (BitVec.ofNat 128 (value ([0xfe, 0x80, 0, 0, 0, 0, 0, 0] ++ low))), 8)
  else none

/-- Only the significant octets of the network are written. -/
def writePrefix (p : Prefix) : UInt8 × UInt8 × List UInt8 :=
  let nbytes := (p.len.toNat + 7) / 8
  match p.addr with
  | .v4 a => (aeIpv4, p.len, (digits 4 a.toNat).take (min nbytes 4))
  | .v6 a => (aeIpv6, p.len, (digits 16 a.toNat).take (min nbytes 16))

/-- A network whose first `omitted` octets come from the default prefix, and the number of
octets it took from `buf`. -/
def readPrefix (ae plen omitted : UInt8) (buf : List UInt8) (ctx : Compress) :
    Option (Prefix × ℕ) := do
  let maxBits ← if ae = aeIpv4 then some 32 else if ae = aeIpv6 then some 128 else none
  guard (plen.toNat ≤ maxBits)
  let total := (plen.toNat + 7) / 8
  guard (omitted.toNat ≤ total)
  let present := total - omitted.toNat
  guard (present ≤ buf.length)
  let deflt := ctx.defaultFor ae
  guard (omitted.toNat ≤ deflt.length)
  let addr := deflt.take omitted.toNat ++ buf.take present ++ List.replicate (16 - total) 0
  let ip := if ae = aeIpv4 then IpAddr.v4 (BitVec.ofNat 32 (value (addr.take 4)))
    else IpAddr.v6 (BitVec.ofNat 128 (value addr))
  let p ← (Prefix.new ip plen).toOption
  some (p, present)

inductive Tlv where
  | pad1
  | padN (n : UInt8)
  | ackReq (nonce interval : UInt16)
  | ack (nonce : UInt16)
  | hello (flags seqno interval : UInt16)
  | ihu (rxcost interval : UInt16) (address : Option IpAddr)
  | routerId (id : Vector UInt8 8)
  | nextHop (ip : IpAddr)
  | update (flags : UInt8) (interval seqno metric : UInt16) (pfx : Prefix)
  | routeRequest (pfx : Option Prefix)
  | seqnoRequest (seqno : UInt16) (hopCount : UInt8) (routerId : Vector UInt8 8) (pfx : Prefix)
  | unknown (tlvType : UInt8) (body : List UInt8)
deriving DecidableEq

/-- An Update with this flag sets the default prefix of its family. -/
def updateFlagDefaultPrefix : UInt8 := 0x80

def beOctets (x : UInt16) : List UInt8 := digits 2 x.toNat

def be16 (buf : List UInt8) (off : ℕ) : Option UInt16 :=
  (slice? buf off 2).map fun b => UInt16.ofNat (value b)

/-- The eight octets of a router identifier at `off`. -/
def octets8 (buf : List UInt8) (off : ℕ) : Option (Vector UInt8 8) := do
  let b ← slice? buf off 8
  if h : b.length = 8 then some ⟨b.toArray, by simpa using h⟩ else none

/-- The octets from `off` on. -/
def from? (buf : List UInt8) (off : ℕ) : Option (List UInt8) :=
  if off ≤ buf.length then some (buf.drop off) else none

namespace Tlv

def typePad1 : UInt8 := 0
def typePadN : UInt8 := 1
def typeAckReq : UInt8 := 2
def typeAck : UInt8 := 3
def typeHello : UInt8 := 4
def typeIhu : UInt8 := 5
def typeRouterId : UInt8 := 6
def typeNextHop : UInt8 := 7
def typeUpdate : UInt8 := 8
def typeRouteRequest : UInt8 := 9
def typeSeqnoRequest : UInt8 := 10

def tlvType : Tlv → UInt8
  | pad1 => typePad1
  | padN _ => typePadN
  | ackReq .. => typeAckReq
  | ack _ => typeAck
  | hello .. => typeHello
  | ihu .. => typeIhu
  | routerId _ => typeRouterId
  | nextHop _ => typeNextHop
  | update .. => typeUpdate
  | routeRequest _ => typeRouteRequest
  | seqnoRequest .. => typeSeqnoRequest
  | unknown t _ => t

def encodeBody : Tlv → List UInt8
  | pad1 => []
  | padN n => List.replicate n.toNat 0
  | ackReq nonce interval => [0, 0] ++ beOctets nonce ++ beOctets interval
  | ack nonce => beOctets nonce
  | hello flags seqno interval => beOctets flags ++ beOctets seqno ++ beOctets interval
  | ihu rxcost interval address =>
    let (ae, octets) := (address.map writeAddress).getD (aeWildcard, [])
    [ae, 0] ++ beOctets rxcost ++ beOctets interval ++ octets
  | routerId id => [0, 0] ++ id.toList
  | nextHop ip =>
    let (ae, octets) := writeAddress ip
    [ae, 0] ++ octets
  | update flags interval seqno metric p =>
    let (ae, plen, octets) := writePrefix p
    [ae, flags, plen, 0] ++ beOctets interval ++ beOctets seqno ++ beOctets metric ++ octets
  | routeRequest none => [aeWildcard, 0]
  | routeRequest (some p) =>
    let (ae, plen, octets) := writePrefix p
    [ae, plen] ++ octets
  | seqnoRequest seqno hopCount id p =>
    let (ae, plen, octets) := writePrefix p
    [ae, plen] ++ beOctets seqno ++ [hopCount, 0] ++ id.toList ++ octets
  | unknown _ body => body

/-- Type, length and body. A `pad1` is a lone octet. -/
def encode (t : Tlv) : List UInt8 :=
  match t with
  | pad1 => [typePad1]
  | t => t.tlvType :: UInt8.ofNat t.encodeBody.length :: t.encodeBody

/-- One body of the given type. Nothing for an unknown type or a malformed body. -/
def decode (type : UInt8) (body : List UInt8) (ctx : Compress) : Option (Tlv × Compress) :=
  if type = typePadN then some (padN (UInt8.ofNat body.length), ctx)
  else if type = typeAckReq then do
    let nonce ← be16 body 2
    let interval ← be16 body 4
    some (ackReq nonce interval, ctx)
  else if type = typeAck then do
    let nonce ← be16 body 0
    some (ack nonce, ctx)
  else if type = typeHello then do
    let flags ← be16 body 0
    let seqno ← be16 body 2
    let interval ← be16 body 4
    some (hello flags seqno interval, ctx)
  else if type = typeIhu then do
    let ae ← body[0]?
    let rxcost ← be16 body 2
    let interval ← be16 body 4
    if ae = aeWildcard then some (ihu rxcost interval none, ctx)
    else do
      let rest ← from? body 6
      let (ip, _) ← readAddress ae rest
      some (ihu rxcost interval (some ip), ctx)
  else if type = typeRouterId then do
    let id ← octets8 body 2
    some (routerId id, ctx)
  else if type = typeNextHop then do
    let ae ← body[0]?
    let rest ← from? body 2
    let (ip, _) ← readAddress ae rest
    some (nextHop ip, ctx)
  else if type = typeUpdate then do
    let ae ← body[0]?
    let flags ← body[1]?
    let plen ← body[2]?
    let omitted ← body[3]?
    let interval ← be16 body 4
    let seqno ← be16 body 6
    let metric ← be16 body 8
    let rest ← from? body 10
    let (p, _) ← readPrefix ae plen omitted rest ctx
    let ctx := if flags &&& updateFlagDefaultPrefix ≠ 0 then ctx.setDefault p else ctx
    some (update flags interval seqno metric p, ctx)
  else if type = typeRouteRequest then do
    let ae ← body[0]?
    let plen ← body[1]?
    if ae = aeWildcard then some (routeRequest none, ctx)
    else do
      let rest ← from? body 2
      let (p, _) ← readPrefix ae plen 0 rest ctx
      some (routeRequest (some p), ctx)
  else if type = typeSeqnoRequest then do
    let ae ← body[0]?
    let plen ← body[1]?
    let seqno ← be16 body 2
    let hopCount ← body[4]?
    let id ← octets8 body 6
    let rest ← from? body 14
    let (p, _) ← readPrefix ae plen 0 rest ctx
    some (seqnoRequest seqno hopCount id p, ctx)
  else none

end Tlv

@[simp] theorem length_beOctets (x : UInt16) : (beOctets x).length = 2 := length_digits 2 _

@[simp] theorem ofNat_value_beOctets (x : UInt16) : UInt16.ofNat (value (beOctets x)) = x := by
  rw [beOctets, value_digits_of_lt x.toNat_lt, UInt16.ofNat_toNat]

@[simp] theorem be16_beOctets_append (x : UInt16) (r : List UInt8) :
    be16 (beOctets x ++ r) 0 = some x := by
  rw [be16, slice?_append (length_beOctets x), Option.map_some, ofNat_value_beOctets]

@[simp] theorem be16_beOctets (x : UInt16) : be16 (beOctets x) 0 = some x := by
  simpa using be16_beOctets_append x []

@[simp] theorem be16_cons_succ (b : UInt8) (buf : List UInt8) (off : ℕ) :
    be16 (b :: buf) (off + 1) = be16 buf off := by
  rw [be16, slice?_cons_succ, be16]

@[simp] theorem be16_append_right (x : UInt16) (r : List UInt8) (off : ℕ) :
    be16 (beOctets x ++ r) (off + 2) = be16 r off := by
  rw [be16, Nat.add_comm, slice?_append_right (length_beOctets x), be16]

@[simp] theorem getElem?_beOctets_append (x : UInt16) (r : List UInt8) (off : ℕ) :
    (beOctets x ++ r)[off + 2]? = r[off]? := by
  simp [List.getElem?_append_right]

theorem octets8_append (id : Vector UInt8 8) (r : List UInt8) :
    octets8 (id.toList ++ r) 0 = some id := by
  have hid : id.toList.toArray = id.toArray := by
    cases id
    rfl
  simp only [octets8, slice?_append id.length_toList, Option.bind_eq_bind, Option.bind_some]
  rw [dif_pos id.length_toList]
  exact congrArg some (Vector.toArray_inj.mp hid)

@[simp] theorem octets8_toList (id : Vector UInt8 8) : octets8 id.toList 0 = some id := by
  simpa using octets8_append id []

@[simp] theorem from?_zero (buf : List UInt8) : from? buf 0 = some buf := by simp [from?]

@[simp] theorem from?_cons_succ (b : UInt8) (buf : List UInt8) (off : ℕ) :
    from? (b :: buf) (off + 1) = from? buf off := by
  simp [from?]

theorem from?_append {l : List UInt8} {n : ℕ} (hl : l.length = n) (r : List UInt8) (off : ℕ) :
    from? (l ++ r) (n + off) = from? r off := by
  subst hl
  simp [from?]

@[simp] theorem from?_beOctets_append (x : UInt16) (r : List UInt8) (off : ℕ) :
    from? (beOctets x ++ r) (off + 2) = from? r off := by
  rw [Nat.add_comm, from?_append (length_beOctets x)]

@[simp] theorem octets8_cons_succ (b : UInt8) (buf : List UInt8) (off : ℕ) :
    octets8 (b :: buf) (off + 1) = octets8 buf off := by
  simp only [octets8, slice?_cons_succ]

@[simp] theorem octets8_beOctets_append (x : UInt16) (r : List UInt8) (off : ℕ) :
    octets8 (beOctets x ++ r) (off + 2) = octets8 r off := by
  simp only [octets8, Nat.add_comm off 2, slice?_append_right (length_beOctets x)]

/-- The address a receiver rebuilds from the octets of `ip`: it takes the upper half of a
link-local address to be `fe80::`. -/
def receivedAddress : IpAddr → IpAddr
  | .v4 a => .v4 a
  | .v6 a => if isLinkLocal a then .v6 (0xfe80000000000000#64 ++ a.extractLsb' 0 64) else .v6 a

theorem ofNat_value_linkLocal (a : BitVec 128) :
    BitVec.ofNat 128 (value ([0xfe, 0x80, 0, 0, 0, 0, 0, 0] ++ digits 8 a.toNat)) =
      0xfe80000000000000#64 ++ a.extractLsb' 0 64 := by
  have hhigh : value [0xfe, 0x80, 0, 0, 0, 0, 0, 0] = 0xfe80000000000000 := by decide
  have hlow : (a.extractLsb' 0 64).toNat = a.toNat % 256 ^ 8 := by
    simp [BitVec.extractLsb'_toNat]
  have hlt : a.toNat % 256 ^ 8 < 2 ^ 64 := Nat.mod_lt _ (by decide)
  apply BitVec.eq_of_toNat_eq
  rw [BitVec.toNat_append, hlow, ← Nat.shiftLeft_add_eq_or_of_lt hlt, value_append, length_digits,
    value_digits, hhigh, BitVec.toNat_ofNat, Nat.shiftLeft_eq]
  have hval : (0xfe80000000000000#64).toNat = 0xfe80000000000000 := rfl
  rw [hval]
  omega

theorem readAddress_writeAddress (ip : IpAddr) :
    readAddress (writeAddress ip).1 (writeAddress ip).2 =
      some (receivedAddress ip, (writeAddress ip).2.length) := by
  have hslice : ∀ n x, slice? (digits n x) 0 n = some (digits n x) := by
    intro n x
    simpa using slice?_append (length_digits n x) []
  cases ip with
  | v4 a =>
    have hv : BitVec.ofNat 32 (value (digits 4 a.toNat)) = a := ofNat_value_digits a (by decide)
    simp [writeAddress, readAddress, receivedAddress, hslice, hv]
  | v6 a =>
    by_cases hll : isLinkLocal a
    · have hlow : (digits 16 a.toNat).drop 8 = digits 8 a.toNat := drop_digits 8 8 a.toNat
      have hv := ofNat_value_linkLocal a
      simpa [writeAddress, readAddress, receivedAddress, hll, hlow, hslice, aeIpv4, aeIpv6, aeIpv6Ll] using hv
    · have hv : BitVec.ofNat 128 (value (digits 16 a.toNat)) = a := ofNat_value_digits a (by decide)
      simp [writeAddress, readAddress, receivedAddress, hll, hslice, hv, aeIpv4, aeIpv6]

theorem readPrefix_writePrefix (p : Prefix) (ctx : Compress) :
    readPrefix (writePrefix p).1 (writePrefix p).2.1 0 (writePrefix p).2.2 ctx =
      some (p, (writePrefix p).2.2.length) := by
  obtain ⟨addr, len, hlen, hmask⟩ := p
  have hnew : Prefix.new addr len = .ok ⟨addr, len, hlen, hmask⟩ := by
    simp only [Prefix.new, hlen, dif_pos, hmask]
  cases addr with
  | v4 a =>
    have hle : len.toNat ≤ 32 := UInt8.le_iff_toNat_le.mp hlen
    have hk : (len.toNat + 7) / 8 ≤ 4 := by omega
    have hv : BitVec.ofNat 32 (value (((digits 4 a.toNat).take ((len.toNat + 7) / 8) ++
        List.replicate (16 - (len.toNat + 7) / 8) 0).take 4)) = a := by
      have h := ofNat_value_take (n := 4) rfl rfl hle (IpAddr.v4.inj hmask)
      have hsplit : 16 - (len.toNat + 7) / 8 = (4 - (len.toNat + 7) / 8) + 12 := by omega
      rw [hsplit, List.replicate_add, ← List.append_assoc, List.take_append_of_le_length (by simp; omega),
        List.take_of_length_le (by simp; omega)]
      exact h
    simp [writePrefix, readPrefix, hle, hk]
    rw [List.take_take, min_self, hv, hnew]
    rfl
  | v6 a =>
    have hle : len.toNat ≤ 128 := UInt8.le_iff_toNat_le.mp hlen
    have hk : (len.toNat + 7) / 8 ≤ 16 := by omega
    have hv := ofNat_value_take (n := 16) rfl rfl hle (IpAddr.v6.inj hmask)
    have hne : aeIpv6 ≠ aeIpv4 := by decide
    simp [writePrefix, readPrefix, hle, hk, hne]
    rw [List.take_take, min_self, hv, hnew]
    rfl

namespace Tlv

/-- The record a receiver rebuilds. -/
def received : Tlv → Tlv
  | ihu rxcost interval address => ihu rxcost interval (address.map receivedAddress)
  | nextHop ip => nextHop (receivedAddress ip)
  | t => t

/-- The default prefixes after this record. -/
def setsDefault (ctx : Compress) : Tlv → Compress
  | update flags _ _ _ p => if flags &&& updateFlagDefaultPrefix ≠ 0 then ctx.setDefault p else ctx
  | _ => ctx

/-- A record of a type the implementation does not model. -/
def isUnknown : Tlv → Bool
  | unknown .. => true
  | _ => false

theorem aeWildcard_ne_writeAddress (ip : IpAddr) : (writeAddress ip).1 ≠ aeWildcard := by
  cases ip with
  | v4 a => exact (by decide : aeIpv4 ≠ aeWildcard)
  | v6 a =>
    by_cases hll : isLinkLocal a
    · simpa [writeAddress, hll] using (by decide : aeIpv6Ll ≠ aeWildcard)
    · simpa [writeAddress, hll] using (by decide : aeIpv6 ≠ aeWildcard)

theorem aeWildcard_ne_writePrefix (p : Prefix) : (writePrefix p).1 ≠ aeWildcard := by
  obtain ⟨addr, len, hlen, hmask⟩ := p
  cases addr with
  | v4 a => exact (by decide : aeIpv4 ≠ aeWildcard)
  | v6 a => exact (by decide : aeIpv6 ≠ aeWildcard)

theorem decode_encodeBody (t : Tlv) (hpad : t ≠ pad1) (hknown : t.isUnknown = false) (ctx : Compress) :
    decode t.tlvType t.encodeBody ctx = some (t.received, t.setsDefault ctx) := by
  cases t with
  | pad1 => exact absurd rfl hpad
  | padN n => simp +decide [decode, tlvType, encodeBody, received, setsDefault]
  | ackReq nonce interval => simp +decide [decode, tlvType, encodeBody, received, setsDefault]
  | ack nonce => simp +decide [decode, tlvType, encodeBody, received, setsDefault]
  | hello flags seqno interval => simp +decide [decode, tlvType, encodeBody, received, setsDefault]
  | ihu rxcost interval address =>
    cases address with
    | none => simp +decide [decode, tlvType, encodeBody, received, setsDefault]
    | some ip =>
      have hae := aeWildcard_ne_writeAddress ip
      have hread := readAddress_writeAddress ip
      simp +decide [decode, tlvType, encodeBody, received, setsDefault, hae, hread]
  | routerId id => simp +decide [decode, tlvType, encodeBody, received, setsDefault]
  | nextHop ip =>
    have hread := readAddress_writeAddress ip
    simp +decide [decode, tlvType, encodeBody, received, setsDefault, hread]
  | update flags interval seqno metric p =>
    have hread := readPrefix_writePrefix p ctx
    simp +decide [decode, tlvType, encodeBody, received, setsDefault, hread]
  | routeRequest pfx =>
    cases pfx with
    | none => simp +decide [decode, encodeBody, received, setsDefault]
    | some p =>
      have hae := aeWildcard_ne_writePrefix p
      have hread := readPrefix_writePrefix p ctx
      simp +decide [decode, tlvType, encodeBody, received, setsDefault, hae, hread]
  | seqnoRequest seqno hopCount id p =>
    have hread := readPrefix_writePrefix p ctx
    have hid : octets8 (id.toList ++ (writePrefix p).2.2) 0 = some id := octets8_append id _
    have hrest : from? (id.toList ++ (writePrefix p).2.2) 8 = some (writePrefix p).2.2 := by
      simpa using from?_append id.length_toList (writePrefix p).2.2 0
    simp +decide [decode, tlvType, encodeBody, received, setsDefault, hread, hid, hrest]
  | unknown type body => cases hknown

end Tlv
end Wren.Babel
