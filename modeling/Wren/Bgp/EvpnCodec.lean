import Wren.Bgp.EvpnRib
import Wren.Bgp.RoundTrip
import Wren.Lib.Tlv

/-! The octets of EVPN routes. -/

namespace Wren.Bgp
open Wren.Core Octets

def routeTypeMacIp : UInt8 := 2
def routeTypeImet : UInt8 := 3
def routeTypeIpPrefix : UInt8 := 5

/-- The low 24 bits of a label. -/
def u24Octets (v : UInt32) : List UInt8 := digits 3 v.toNat

def ipOctets : IpAddr → List UInt8
  | .v4 a => ipv4Octets a
  | .v6 a => digits 16 a.toNat

/-- An address behind its length in bits, which is 0 when there is none. -/
def encodeOptionalIp : Option IpAddr → List UInt8
  | none => [0]
  | some (.v4 a) => 32 :: ipOctets (.v4 a)
  | some (.v6 a) => 128 :: ipOctets (.v6 a)

def readRd (buf : List UInt8) : Option (Rd × List UInt8) :=
  (field? 8 buf).map fun (b, rest) => (Vector.ofFn fun i => b.getD i 0, rest)

def readEsi (buf : List UInt8) : Option (Esi × List UInt8) :=
  (field? 10 buf).map fun (b, rest) => (Vector.ofFn fun i => b.getD i 0, rest)

def readMac (buf : List UInt8) : Option (MacAddr × List UInt8) :=
  (field? 6 buf).map fun (b, rest) => (Vector.ofFn fun i => b.getD i 0, rest)

/-- A number of `n` octets. -/
def readUInt (n : ℕ) (buf : List UInt8) : Option (UInt32 × List UInt8) :=
  (field? n buf).map fun (b, rest) => (u32OfOctets b, rest)

def readIpv4 (buf : List UInt8) : Option (IpAddr × List UInt8) :=
  (field? 4 buf).map fun (b, rest) => (.v4 (ipv4OfOctets b), rest)

def readIpv6 (buf : List UInt8) : Option (IpAddr × List UInt8) :=
  (field? 16 buf).map fun (b, rest) => (.v6 (BitVec.ofNat 128 (value b)), rest)

/-- An address of so many bits. -/
def readIp (bits : UInt8) (buf : List UInt8) : Option (Option IpAddr × List UInt8) :=
  if bits = 0 then some (none, buf)
  else if bits = 32 then (readIpv4 buf).map fun (ip, rest) => (some ip, rest)
  else if bits = 128 then (readIpv6 buf).map fun (ip, rest) => (some ip, rest)
  else none

namespace EvpnNlri

def routeType : EvpnNlri → UInt8
  | macIp .. => routeTypeMacIp
  | imet .. => routeTypeImet
  | ipPrefix .. => routeTypeIpPrefix
  | unknown routeType _ => routeType

/-- A gateway of the other family is written as an unspecified one. -/
def gatewayOctets (pfx : Prefix) (gw : IpAddr) : List UInt8 :=
  match pfx.addr, gw with
  | .v4 _, .v4 g => ipOctets (.v4 g)
  | .v6 _, .v6 g => ipOctets (.v6 g)
  | .v4 _, _ => ipOctets (.v4 0)
  | .v6 _, _ => ipOctets (.v6 0)

def encodeBody : EvpnNlri → List UInt8
  | macIp rd esi ethTag mac ip label1 label2 =>
    rd.toList ++ (esi.toList ++ (u32Octets ethTag ++ 48 :: (mac.toList ++ (encodeOptionalIp ip ++
      (u24Octets label1 ++ label2.elim [] u24Octets)))))
  | imet rd ethTag origIp => rd.toList ++ (u32Octets ethTag ++ encodeOptionalIp (some origIp))
  | ipPrefix rd esi ethTag pfx gw label =>
    rd.toList ++ (esi.toList ++ (u32Octets ethTag ++ pfx.len :: (ipOctets pfx.addr ++
      (gatewayOctets pfx gw ++ u24Octets label))))
  | unknown _ body => body

/-- Route type, length and body. -/
def encode (n : EvpnNlri) : List UInt8 := encodeTlv 1 n.routeType n.encodeBody

def decodeMacIp (body : List UInt8) : Option EvpnNlri := do
  let (rd, rest) ← readRd body
  let (esi, rest) ← readEsi rest
  let (ethTag, rest) ← readUInt 4 rest
  let macLen ← rest.head?
  guard (macLen = 48)
  let (mac, rest) ← readMac rest.tail
  let bits ← rest.head?
  let (ip, rest) ← readIp bits rest.tail
  let (label1, rest) ← readUInt 3 rest
  -- what is left may be too short for a second label
  return macIp rd esi ethTag mac ip label1 ((readUInt 3 rest).map Prod.fst)

def decodeImet (body : List UInt8) : Option EvpnNlri := do
  let (rd, rest) ← readRd body
  let (ethTag, rest) ← readUInt 4 rest
  let bits ← rest.head?
  let (ip, _) ← readIp bits rest.tail
  let ip ← ip
  return imet rd ethTag ip

/-- The length of the body says which family the network and its gateway are of. -/
def decodeIpPrefix (body : List UInt8) : Option EvpnNlri := do
  let (rd, rest) ← readRd body
  let (esi, rest) ← readEsi rest
  let (ethTag, rest) ← readUInt 4 rest
  let len ← rest.head?
  let readAddr := if body.length = 34 then readIpv4 else readIpv6
  guard (body.length = 34 ∨ body.length = 58)
  let (addr, rest) ← readAddr rest.tail
  let (gw, rest) ← readAddr rest
  let (label, _) ← readUInt 3 rest
  let pfx ← (Prefix.new addr len).toOption
  return ipPrefix rd esi ethTag pfx gw label

def decodeBody (routeType : UInt8) (body : List UInt8) : Option EvpnNlri :=
  if routeType = routeTypeMacIp then decodeMacIp body
  else if routeType = routeTypeImet then decodeImet body
  else if routeType = routeTypeIpPrefix then decodeIpPrefix body
  else none

/-- A body that is not understood is kept as it is. -/
def decode (buf : List UInt8) : Option (EvpnNlri × ℕ) :=
  (decodeTlv 1 buf).map fun ((t, body), used) => ((decodeBody t body).getD (unknown t body), used)

def decodeAll (buf : List UInt8) : Option (List EvpnNlri) := readAll decode buf

/-- Can be written so that it is read back. -/
def WellFormed : EvpnNlri → Prop
  | macIp _ _ _ _ _ label1 label2 => label1.toNat < 2 ^ 24 ∧ ∀ l ∈ label2, l.toNat < 2 ^ 24
  | imet .. => True
  | ipPrefix _ _ _ pfx gw label => gw.isIpv4 = pfx.isIpv4 ∧ label.toNat < 2 ^ 24
  | unknown routeType body =>
    routeType ∉ [routeTypeMacIp, routeTypeImet, routeTypeIpPrefix] ∧ body.length ≤ 255

end EvpnNlri

/-! Fields -/

theorem ofFn_getD_toList {n : ℕ} (v : Vector UInt8 n) : (Vector.ofFn fun i : Fin n => v.toList.getD i 0) = v := by
  apply Vector.ext
  intro i hi
  simp

theorem readRd_append (rd : Rd) (r : List UInt8) : readRd (rd.toList ++ r) = some (rd, r) := by
  simp only [readRd, field?_append rd.length_toList, Option.map_some, ofFn_getD_toList]

theorem readEsi_append (esi : Esi) (r : List UInt8) : readEsi (esi.toList ++ r) = some (esi, r) := by
  simp only [readEsi, field?_append esi.length_toList, Option.map_some, ofFn_getD_toList]

theorem readMac_append (mac : MacAddr) (r : List UInt8) : readMac (mac.toList ++ r) = some (mac, r) := by
  simp only [readMac, field?_append mac.length_toList, Option.map_some, ofFn_getD_toList]

theorem readUInt_u32Octets (v : UInt32) (r : List UInt8) : readUInt 4 (u32Octets v ++ r) = some (v, r) := by
  simp only [readUInt, field?_append (length_u32Octets v), Option.map_some, u32OfOctets_u32Octets]

theorem readUInt_u24Octets {v : UInt32} (h : v.toNat < 2 ^ 24) (r : List UInt8) :
    readUInt 3 (u24Octets v ++ r) = some (v, r) := by
  have hfits : v.toNat < 256 ^ 3 := h
  simp only [readUInt, u24Octets, field?_append (length_digits 3 _), Option.map_some, u32OfOctets,
    value_digits_of_lt hfits, UInt32.ofNat_toNat]

theorem readIpv4_append (a : Ipv4Addr) (r : List UInt8) : readIpv4 (ipOctets (.v4 a) ++ r) = some (.v4 a, r) := by
  simp only [readIpv4, ipOctets, field?_append (length_ipv4Octets a), Option.map_some, ipv4OfOctets_ipv4Octets]

theorem readIpv6_append (a : Ipv6Addr) (r : List UInt8) : readIpv6 (ipOctets (.v6 a) ++ r) = some (.v6 a, r) := by
  have hback : BitVec.ofNat 128 (value (digits 16 a.toNat)) = a := ofNat_value_digits a (by decide)
  simp only [readIpv6, ipOctets, field?_append (length_digits 16 _), Option.map_some, hback]

/-- What is written for an address is its length in bits and what is read with that length. -/
theorem encodeOptionalIp_eq (ip : Option IpAddr) : ∃ bits octets, encodeOptionalIp ip = bits :: octets ∧
    ∀ r, readIp bits (octets ++ r) = some (ip, r) := by
  match ip with
  | none => exact ⟨0, [], rfl, fun r => rfl⟩
  | some (.v4 a) =>
    refine ⟨32, _, rfl, fun r => ?_⟩
    simp +decide [readIp, readIpv4_append]
  | some (.v6 a) =>
    refine ⟨128, _, rfl, fun r => ?_⟩
    simp +decide [readIp, readIpv6_append]

namespace EvpnNlri

theorem decodeMacIp_encodeBody {rd : Rd} {esi : Esi} {ethTag : UInt32} {mac : MacAddr} {ip : Option IpAddr}
    {label1 : UInt32} {label2 : Option UInt32} (h : (macIp rd esi ethTag mac ip label1 label2).WellFormed) :
    decodeMacIp (macIp rd esi ethTag mac ip label1 label2).encodeBody =
      some (macIp rd esi ethTag mac ip label1 label2) := by
  obtain ⟨bits, octets, hip, hread⟩ := encodeOptionalIp_eq ip
  have hsecond : (readUInt 3 (label2.elim [] u24Octets)).map Prod.fst = label2 := by
    cases label2 with
    | none => rfl
    | some l =>
      have hback := readUInt_u24Octets (h.2 l rfl) []
      rw [List.append_nil] at hback
      simp [hback]
  simp [decodeMacIp, encodeBody, readRd_append, readEsi_append, readUInt_u32Octets, readMac_append, hip, hread,
    readUInt_u24Octets h.1, hsecond]

theorem decodeImet_encodeBody (rd : Rd) (ethTag : UInt32) (origIp : IpAddr) :
    decodeImet (imet rd ethTag origIp).encodeBody = some (imet rd ethTag origIp) := by
  obtain ⟨bits, octets, hip, hread⟩ := encodeOptionalIp_eq (some origIp)
  have hnil := hread []
  rw [List.append_nil] at hnil
  simp [decodeImet, encodeBody, readRd_append, readUInt_u32Octets, hip, hnil]

theorem decodeIpPrefix_encodeBody {rd : Rd} {esi : Esi} {ethTag : UInt32} {pfx : Prefix} {gw : IpAddr}
    {label : UInt32} (h : (ipPrefix rd esi ethTag pfx gw label).WellFormed) :
    decodeIpPrefix (ipPrefix rd esi ethTag pfx gw label).encodeBody = some (ipPrefix rd esi ethTag pfx gw label) := by
  have hlabel := readUInt_u24Octets h.2 []
  rw [List.append_nil] at hlabel
  have hnew : Prefix.new pfx.addr pfx.len = .ok pfx := by
    simp only [Prefix.new, pfx.len_le, dif_pos, pfx.masked]
  obtain ⟨addr, len, hlen, hmask⟩ := pfx
  cases addr with
  | v4 a =>
    cases gw with
    | v6 g => cases h.1
    | v4 g =>
      have hbody : (ipPrefix rd esi ethTag ⟨.v4 a, len, hlen, hmask⟩ (.v4 g) label).encodeBody.length = 34 := by
        simp [encodeBody, gatewayOctets, ipOctets, u24Octets]
      unfold decodeIpPrefix
      rw [hbody]
      simp [encodeBody, gatewayOctets, readRd_append, readEsi_append, readUInt_u32Octets, readIpv4_append, hlabel,
        hnew, Except.toOption]
  | v6 a =>
    cases gw with
    | v4 g => cases h.1
    | v6 g =>
      have hbody : (ipPrefix rd esi ethTag ⟨.v6 a, len, hlen, hmask⟩ (.v6 g) label).encodeBody.length = 58 := by
        simp [encodeBody, gatewayOctets, ipOctets, u24Octets]
      unfold decodeIpPrefix
      rw [hbody]
      simp [encodeBody, gatewayOctets, readRd_append, readEsi_append, readUInt_u32Octets, readIpv6_append, hlabel,
        hnew, Except.toOption]

theorem decodeBody_encodeBody {n : EvpnNlri} (h : n.WellFormed) :
    (decodeBody n.routeType n.encodeBody).getD (unknown n.routeType n.encodeBody) = n := by
  cases n with
  | macIp rd esi ethTag mac ip label1 label2 => simp [decodeBody, routeType, decodeMacIp_encodeBody h]
  | imet rd ethTag origIp => simp +decide [decodeBody, routeType, decodeImet_encodeBody]
  | ipPrefix rd esi ethTag pfx gw label => simp +decide [decodeBody, routeType, decodeIpPrefix_encodeBody h]
  | unknown t body =>
    have hother := h.1
    simp only [List.mem_cons, List.not_mem_nil, or_false, not_or] at hother
    simp [decodeBody, routeType, hother, encodeBody]

theorem length_encodeOptionalIp_le (ip : Option IpAddr) : (encodeOptionalIp ip).length ≤ 17 := by
  rcases ip with _ | ⟨a | a⟩ <;> simp [encodeOptionalIp, ipOctets]

theorem length_encodeBody_le {n : EvpnNlri} (h : n.WellFormed) : n.encodeBody.length ≤ 255 := by
  cases n with
  | macIp rd esi ethTag mac ip label1 label2 =>
    have hip := length_encodeOptionalIp_le ip
    cases label2 <;> simp [encodeBody, u24Octets] <;> omega
  | imet rd ethTag origIp =>
    have hip := length_encodeOptionalIp_le (some origIp)
    simp [encodeBody]
    omega
  | ipPrefix rd esi ethTag pfx gw label =>
    have hoctets : ∀ a : IpAddr, (ipOctets a).length ≤ 16 := by
      intro a
      cases a <;> simp [ipOctets]
    have haddr := hoctets pfx.addr
    have hgw : (gatewayOctets pfx gw).length ≤ 16 := by
      unfold gatewayOctets
      split <;> exact hoctets _
    simp [encodeBody, u24Octets]
    omega
  | unknown t body => exact h.2

/-- A route is read back, whatever follows it. -/
theorem decode_encode_append {n : EvpnNlri} (h : n.WellFormed) (r : List UInt8) :
    decode (n.encode ++ r) = some (n, n.encode.length) := by
  have hbody : n.encodeBody.length < 256 ^ 1 := by
    have hle := length_encodeBody_le h
    omega
  simp only [decode, encode, decodeTlv_encodeTlv n.routeType hbody, Option.map_some, decodeBody_encodeBody h]

theorem encode_ne_nil (n : EvpnNlri) : n.encode ≠ [] := encodeTlv_ne_nil _ _ _

/-- Routes one after the other are read back. -/
theorem decodeAll_flatMap {l : List EvpnNlri} (h : ∀ n ∈ l, n.WellFormed) : decodeAll (l.flatMap encode) = some l := by
  have hall : decodeAll (l.flatMap encode) = some (l.map id) :=
    readAll_flatMap id (fun n hn => decode_encode_append (h n hn)) fun n _ => encode_ne_nil n
  rw [hall, List.map_id]

end EvpnNlri
end Wren.Bgp
