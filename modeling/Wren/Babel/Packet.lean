import Wren.Babel.Tlv

/-! Babel packets, and what a receiver makes of an encoded one. -/

namespace Wren.Babel
open Wren.Core Octets

def magic : UInt8 := 42
def version : UInt8 := 2
def headerLen : ℕ := 4

structure Packet where
  body : List Tlv
deriving DecidableEq

inductive DecodeError where
  | tooShort
  | badMagic (m : UInt8)
  | badVersion (v : UInt8)
  | badBodyLength
  | malformed
deriving DecidableEq

namespace Packet

def encodedBody (p : Packet) : List UInt8 := p.body.flatMap Tlv.encode

def encode (p : Packet) : List UInt8 :=
  [magic, version] ++ digits 2 (p.encodedBody.length % 2 ^ 16) ++ p.encodedBody

/-- The records of a body, with the default prefixes seen so far. A record that is not
understood is kept as it is. -/
def decodeBody (ctx : Compress) : List UInt8 → Except DecodeError (List Tlv)
  | [] => .ok []
  | t :: rest =>
    if t = Tlv.typePad1 then do
      let tlvs ← decodeBody ctx rest
      return .pad1 :: tlvs
    else
      match rest with
      | [] => .error .malformed
      | len :: rest =>
        if len.toNat ≤ rest.length then do
          let body := rest.take len.toNat
          let (tlv, ctx) := (Tlv.decode t body ctx).getD (.unknown t body, ctx)
          let tlvs ← decodeBody ctx (rest.drop len.toNat)
          return tlv :: tlvs
        else .error .malformed
termination_by body => body.length
decreasing_by all_goals simp only [List.length_cons, List.length_drop]; omega

def decode (buf : List UInt8) : Except DecodeError Packet :=
  match buf with
  | m :: v :: l₁ :: l₀ :: rest =>
    if m ≠ magic then .error (.badMagic m)
    else if v ≠ version then .error (.badVersion v)
    else
      let bodyLen := value [l₁, l₀]
      if headerLen + bodyLen > buf.length then .error .badBodyLength
      else do
        let tlvs ← decodeBody {} (rest.take bodyLen)
        return ⟨tlvs⟩
  | _ => .error .tooShort

end Packet

namespace Tlv

/-- An unknown record has a type code of its own and a body whose length fits its octet. -/
def Bounded : Tlv → Prop
  | unknown type body => 10 < type ∧ body.length ≤ 255
  | _ => True

instance : DecidablePred Bounded := fun t =>
  match t with
  | unknown type body => inferInstanceAs (Decidable (10 < type ∧ body.length ≤ 255))
  | pad1 | padN _ | ackReq .. | ack _ | hello .. | ihu .. | routerId _ | nextHop _ | update ..
  | routeRequest _ | seqnoRequest .. => inferInstanceAs (Decidable True)

theorem length_writeAddress_le (ip : IpAddr) : (writeAddress ip).2.length ≤ 16 := by
  cases ip with
  | v4 a => simp [writeAddress]
  | v6 a =>
    by_cases hll : isLinkLocal a
    · simp [writeAddress, hll]
    · simp [writeAddress, hll]

theorem length_writePrefix_le (p : Prefix) : (writePrefix p).2.2.length ≤ 16 := by
  obtain ⟨addr, len, hlen, hmask⟩ := p
  cases addr with
  | v4 a =>
    simp only [writePrefix, List.length_take, length_digits]
    omega
  | v6 a =>
    simp only [writePrefix, List.length_take, length_digits]
    omega

theorem length_encodeBody_le {t : Tlv} (h : t.Bounded) : t.encodeBody.length ≤ 255 := by
  cases t with
  | pad1 => simp [encodeBody]
  | padN n =>
    have hn := n.toNat_lt
    simp only [encodeBody, List.length_replicate]
    omega
  | ackReq nonce interval => simp [encodeBody]
  | ack nonce => simp [encodeBody]
  | hello flags seqno interval => simp [encodeBody]
  | ihu rxcost interval address =>
    cases address with
    | none => simp [encodeBody]
    | some ip =>
      have hle := length_writeAddress_le ip
      simp [encodeBody]
      omega
  | routerId id => simp [encodeBody]
  | nextHop ip =>
    have hle := length_writeAddress_le ip
    simp [encodeBody]
    omega
  | update flags interval seqno metric p =>
    have hle := length_writePrefix_le p
    rw [encodeBody]
    generalize writePrefix p = w at hle ⊢
    obtain ⟨ae, plen, octets⟩ := w
    simp at hle ⊢
    omega
  | routeRequest pfx =>
    cases pfx with
    | none => simp [encodeBody]
    | some p =>
      have hle := length_writePrefix_le p
      rw [encodeBody]
      generalize writePrefix p = w at hle ⊢
      obtain ⟨ae, plen, octets⟩ := w
      simp at hle ⊢
      omega
  | seqnoRequest seqno hopCount id p =>
    have hle := length_writePrefix_le p
    rw [encodeBody]
    generalize writePrefix p = w at hle ⊢
    obtain ⟨ae, plen, octets⟩ := w
    simp at hle ⊢
    omega
  | unknown type body => exact h.2

theorem tlvType_ne_typePad1 {t : Tlv} (hpad : t ≠ pad1) (h : t.Bounded) : t.tlvType ≠ typePad1 := by
  cases t with
  | pad1 => exact absurd rfl hpad
  | unknown type body =>
    intro htype
    have hlt : 10 < typePad1 := htype ▸ h.1
    exact absurd hlt (by decide)
  | _ => simp +decide [tlvType]

theorem decode_unknown {type : UInt8} (h : 10 < type) (body : List UInt8) (ctx : Compress) :
    decode type body ctx = none := by
  have hne : ∀ code : UInt8, code ≤ 10 → type ≠ code := by
    intro code hcode htype
    rw [htype] at h
    exact absurd (UInt8.lt_of_lt_of_le h hcode) (UInt8.lt_irrefl _)
  simp only [decode, if_neg (hne _ (by decide : typePadN ≤ 10)),
    if_neg (hne _ (by decide : typeAckReq ≤ 10)), if_neg (hne _ (by decide : typeAck ≤ 10)),
    if_neg (hne _ (by decide : typeHello ≤ 10)), if_neg (hne _ (by decide : typeIhu ≤ 10)),
    if_neg (hne _ (by decide : typeRouterId ≤ 10)), if_neg (hne _ (by decide : typeNextHop ≤ 10)),
    if_neg (hne _ (by decide : typeUpdate ≤ 10)),
    if_neg (hne _ (by decide : typeRouteRequest ≤ 10)),
    if_neg (hne _ (by decide : typeSeqnoRequest ≤ 10))]

/-- The record the loop makes of an encoded body, understood or not. -/
theorem decode_getD {t : Tlv} (hpad : t ≠ pad1) (h : t.Bounded) (ctx : Compress) :
    (decode t.tlvType t.encodeBody ctx).getD (.unknown t.tlvType t.encodeBody, ctx) =
      (t.received, t.setsDefault ctx) := by
  cases hk : t.isUnknown with
  | false => rw [decode_encodeBody t hpad hk, Option.getD_some]
  | true =>
    cases t with
    | unknown type body =>
      rw [tlvType, decode_unknown h.1, Option.getD_none]
      rfl
    | _ => cases hk

end Tlv

namespace Packet

theorem decodeBody_encode_append {t : Tlv} (h : t.Bounded) (ctx : Compress) (rest : List UInt8) :
    decodeBody ctx (t.encode ++ rest) = (do
      let tlvs ← decodeBody (t.setsDefault ctx) rest
      return t.received :: tlvs) := by
  by_cases hpad : t = .pad1
  · subst hpad
    rw [Tlv.encode, List.singleton_append, decodeBody.eq_def]
    rfl
  · have hlen : (UInt8.ofNat t.encodeBody.length).toNat = t.encodeBody.length := by
      have hle := Tlv.length_encodeBody_le h
      simp only [UInt8.toNat_ofNat']
      omega
    have henc : t.encode = t.tlvType :: UInt8.ofNat t.encodeBody.length :: t.encodeBody := by
      cases t with
      | pad1 => exact absurd rfl hpad
      | _ => rfl
    rw [henc, List.cons_append, List.cons_append, decodeBody.eq_def]
    simp only [if_neg (Tlv.tlvType_ne_typePad1 hpad h), hlen, List.length_append, Nat.le_add_right, if_true, List.take_left, List.drop_left,
      Tlv.decode_getD hpad h]

theorem decodeBody_flatMap (l : List Tlv) (h : ∀ t ∈ l, t.Bounded) (ctx : Compress) :
    decodeBody ctx (l.flatMap Tlv.encode) = .ok (l.map Tlv.received) := by
  induction l generalizing ctx with
  | nil => rw [List.flatMap_nil, decodeBody, List.map_nil]
  | cons t l ih =>
    have hl := ih (fun t' ht' => h t' (by simp [ht']))
    rw [List.flatMap_cons, decodeBody_encode_append (h t (by simp)), hl, List.map_cons]
    rfl

theorem decode_encode (p : Packet) (h : ∀ t ∈ p.body, t.Bounded) (hlen : p.encodedBody.length ≤ 65535) :
    decode p.encode = .ok ⟨p.body.map Tlv.received⟩ := by
  have hmod : p.encodedBody.length % 2 ^ 16 = p.encodedBody.length := Nat.mod_eq_of_lt (by omega)
  have hval : value (digits 2 p.encodedBody.length) = p.encodedBody.length :=
    value_digits_of_lt (by omega)
  have hbody : decodeBody {} p.encodedBody = .ok (p.body.map Tlv.received) :=
    decodeBody_flatMap p.body h {}
  rw [encode, hmod]
  show decode (magic :: version :: UInt8.ofNat (p.encodedBody.length / 256) ::
    UInt8.ofNat p.encodedBody.length :: p.encodedBody) = _
  have hval' : value [UInt8.ofNat (p.encodedBody.length / 256), UInt8.ofNat p.encodedBody.length] =
      p.encodedBody.length := hval
  have hle : headerLen + p.encodedBody.length ≤ p.encodedBody.length + 1 + 1 + 1 + 1 := by
    rw [headerLen]
    omega
  simp only [decode, ne_eq, not_true_eq_false, if_false, hval', List.length_cons, Nat.not_lt.mpr hle,
    List.take_length, hbody]
  rfl

end Packet

/-- An address that its encoding keeps: if it is in `fe80::/10`, it is in the `fe80::/64` that the
short form stands for. -/
def AddressKept : IpAddr → Prop
  | .v4 _ => True
  | .v6 a => isLinkLocal a → a.extractLsb' 64 64 = 0xfe80000000000000#64

instance : DecidablePred AddressKept := fun ip =>
  match ip with
  | .v4 _ => inferInstanceAs (Decidable True)
  | .v6 a => inferInstanceAs (Decidable (isLinkLocal a → a.extractLsb' 64 64 = 0xfe80000000000000#64))

theorem append_extractLsb_eq_iff (h : BitVec 64) (a : BitVec 128) :
    h ++ a.extractLsb' 0 64 = a ↔ a.extractLsb' 64 64 = h := by
  have hlow : (a.extractLsb' 0 64).toNat = a.toNat % 2 ^ 64 := by simp [BitVec.extractLsb'_toNat]
  have hhigh : (a.extractLsb' 64 64).toNat = a.toNat / 2 ^ 64 % 2 ^ 64 := by
    simp [BitVec.extractLsb'_toNat, Nat.shiftRight_eq_div_pow]
  have happ : (h ++ a.extractLsb' 0 64).toNat = h.toNat * 2 ^ 64 + a.toNat % 2 ^ 64 := by
    rw [BitVec.toNat_append, ← Nat.shiftLeft_add_eq_or_of_lt (a.extractLsb' 0 64).isLt, hlow,
      Nat.shiftLeft_eq]
  have ha := a.isLt
  have hh := h.isLt
  rw [← BitVec.toNat_inj, ← BitVec.toNat_inj, happ, hhigh]
  omega

theorem receivedAddress_eq_iff (ip : IpAddr) : receivedAddress ip = ip ↔ AddressKept ip := by
  cases ip with
  | v4 a => simp [receivedAddress, AddressKept]
  | v6 a =>
    by_cases hll : isLinkLocal a
    · simp only [receivedAddress, AddressKept, hll, if_true, IpAddr.v6.injEq, forall_const]
      exact append_extractLsb_eq_iff _ a
    · simp [receivedAddress, AddressKept, hll]

/-- The full address a record carries. -/
def Tlv.address? : Tlv → Option IpAddr
  | .ihu _ _ address => address
  | .nextHop ip => some ip
  | _ => none

theorem Tlv.received_eq_iff (t : Tlv) : t.received = t ↔ ∀ ip ∈ t.address?, AddressKept ip := by
  cases t with
  | ihu rxcost interval address =>
    cases address with
    | none => simp [received, address?]
    | some ip => simp [received, address?, receivedAddress_eq_iff]
  | nextHop ip => simp [received, address?, receivedAddress_eq_iff]
  | _ => simp [received, address?]

namespace Packet

theorem decode_encode_eq_ok_iff (p : Packet) (h : ∀ t ∈ p.body, t.Bounded)
    (hlen : p.encodedBody.length ≤ 65535) :
    decode p.encode = .ok p ↔ ∀ t ∈ p.body, ∀ ip ∈ t.address?, AddressKept ip := by
  have hmap : p.body.map Tlv.received = p.body ↔ ∀ t ∈ p.body, t.received = t := by
    simpa using List.map_eq_map_iff (f := Tlv.received) (g := id) (l := p.body)
  rw [decode_encode p h hlen, Except.ok.injEq, mk.injEq, hmap]
  exact forall₂_congr fun t _ => t.received_eq_iff

/-- A Next Hop of `fe80::1`, and a record of an unknown type. -/
theorem decode_encode_nextHop_fe80 :
    decode (encode ⟨[.nextHop (.v6 0xfe800000000000000000000000000001), .unknown 11 [1, 2]]⟩) =
      .ok ⟨[.nextHop (.v6 0xfe800000000000000000000000000001), .unknown 11 [1, 2]]⟩ :=
  (decode_encode_eq_ok_iff _ (by decide) (by decide)).mpr (by decide)

/-- A Next Hop of `fe80:0:0:1::1` comes back as `fe80::1`. -/
theorem not_forall_decode_encode :
    ¬ ∀ p : Packet, (∀ t ∈ p.body, t.Bounded) → p.encodedBody.length ≤ 65535 →
      decode p.encode = .ok p := by
  intro h
  have hp := h ⟨[.nextHop (.v6 0xfe800000000000010000000000000001)]⟩ (by decide) (by decide)
  exact absurd hp (by decide +kernel)

end Packet
end Wren.Babel
