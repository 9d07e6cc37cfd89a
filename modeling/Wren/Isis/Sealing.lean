import Wren.Isis.Bounds
import Wren.Isis.RoundTrip
import Wren.Isis.Survival

/-! What is sealed passes verification, also after its lifetime and its checksum were rewritten on the way. -/

namespace Wren.Isis
open Octets

/-! ### PDUs that are read back as they were written -/

/-- A TLV that is cut short is not read. -/
theorem decodeNext_take {t : Tlv} {r : List UInt8} {m : ℕ} (h : m < t.encode.length) :
    decodeNext ((t.encode ++ r).take m) = none := by
  have hlen : (UInt8.ofNat (t.encodeValue.take 255).length).toNat = (t.encodeValue.take 255).length :=
    UInt8.toNat_ofNat_of_lt' (length_encode_take t)
  have htotal : t.encode.length = 2 + (t.encodeValue.take 255).length := by
    rw [Tlv.encode, List.length_cons, List.length_cons]
    omega
  have htake : ((t.encode ++ r).take m).length = m := by
    rw [List.length_take, List.length_append]
    omega
  rw [decodeNext, htake]
  by_cases htwo : m < 2
  · rw [if_pos htwo]
  · have hsecond : ((t.encode ++ r).take m).getD 1 0 = UInt8.ofNat (t.encodeValue.take 255).length := by
      rw [List.getD_eq_getElem?_getD, List.getElem?_take_of_lt (by omega)]
      rfl
    rw [if_neg htwo, hsecond, hlen, if_pos (by omega)]

/-- As many TLVs as were written are read from all of their octets only. -/
theorem length_le_of_readRecords {ts us : List Tlv} {m n : ℕ}
    (h : readRecords decodeNext n ((encodeAll ts).take m) = some us) (hlen : us.length = ts.length) :
    (encodeAll ts).length ≤ m := by
  induction ts generalizing us m n with
  | nil => simp [encodeAll]
  | cons t ts ih =>
    rw [encodeAll_cons] at h ⊢
    have hne : (t.encode ++ encodeAll ts).take m ≠ [] := by
      intro hnil
      rw [hnil, readRecords_nil] at h
      rw [← Option.some.inj h] at hlen
      simp at hlen
    obtain ⟨n, rfl⟩ : ∃ k, n = k + 1 := by
      cases n with
      | zero =>
        cases hbuf : (t.encode ++ encodeAll ts).take m with
        | nil => exact absurd hbuf hne
        | cons b buf =>
          rw [hbuf] at h
          cases h
      | succ n => exact ⟨n, rfl⟩
    rw [readRecords_succ hne] at h
    by_cases hm : m < t.encode.length
    · rw [decodeNext_take hm] at h
      cases h
    · have hsplit : (t.encode ++ encodeAll ts).take m = t.encode ++ (encodeAll ts).take (m - t.encode.length) := by
        rw [List.take_append, List.take_of_length_le (by omega)]
      rw [hsplit, decodeNext_encode] at h
      obtain ⟨⟨u, used⟩, hu, hrest⟩ := Option.bind_eq_some_iff.mp h
      obtain ⟨u', -, huse⟩ := Option.map_eq_some_iff.mp hu
      obtain rfl : t.encode.length = used := congrArg Prod.snd huse
      obtain ⟨vs, hvs, rfl⟩ := Option.map_eq_some_iff.mp hrest
      rw [List.drop_left] at hvs
      have hlast := ih hvs (by simpa using hlen)
      rw [List.length_append]
      omega

@[simp] theorem PduBody.tlvs_withChecksum (b : PduBody) (c : UInt16) : (b.withChecksum c).tlvs = b.tlvs := by
  cases b <;> rfl

namespace Pdu

/-- The PDU is read back as it was written, but for the checksum of an LSP. -/
def RoundTrips (p : Pdu) : Prop := ∃ c, decode p.encode = .ok { p with body := p.body.withChecksum c }

theorem encode_split (p : Pdu) : ∃ hdr, p.encode = hdr ++ encodeAll p.body.tlvs ∧ hdr.length = p.pduType.fixedHeaderLen ∧
    hdr[1]? = some (UInt8.ofNat hdr.length) ∧ hdr[4]? = some p.pduType.asU8 := by
  obtain ⟨fields, hfields, hall⟩ := p.encode_eq_append
  have hcommon : p.commonHeader.length = 8 := rfl
  have hlen : (p.commonHeader ++ fields).length = p.pduType.fixedHeaderLen := by
    rw [List.length_append]
    omega
  refine ⟨p.commonHeader ++ fields, ?_, hlen, ?_, rfl⟩
  · rw [(hall p.body.tlvs rfl).2 rfl, List.append_assoc]
  · rw [hlen]
    rfl

namespace RoundTrips
variable {p : Pdu} (h : p.RoundTrips)
include h

/-- Otherwise the length field would leave TLVs out. -/
theorem length_le : p.encode.length ≤ 65535 := by
  obtain ⟨c, hdec⟩ := h
  obtain ⟨hdr, henc, hhdr, -, h4⟩ := p.encode_split
  obtain ⟨pt, tlvs, hpt, hfixed, hstated, hall, hbody⟩ := exists_read_of_decode hdec
  have htlvs : tlvs = p.body.tlvs := by
    rw [← tlvs_of_decodeBody hbody, PduBody.tlvs_withChecksum]
  have htype : p.encode.getD 4 0 = p.pduType.asU8 := by
    have hlow : 4 < hdr.length := by
      rw [hhdr]
      cases p.pduType <;> decide
    rw [henc, List.getD_eq_getElem?_getD, List.getElem?_append_left hlow, h4, Option.getD_some]
  rw [htype, PduType.fromU8_asU8] at hpt
  obtain rfl := Option.some.inj hpt
  have hregion : (p.encode.take (u16At p.encode p.pduType.lenOff).toNat).drop p.pduType.fixedHeaderLen =
      (encodeAll p.body.tlvs).take ((u16At p.encode p.pduType.lenOff).toNat - p.pduType.fixedHeaderLen) := by
    rw [List.drop_take, henc, List.drop_left' hhdr]
  rw [hregion, htlvs] at hall
  have hfits := length_le_of_readRecords hall rfl
  have hbound := (u16At p.encode p.pduType.lenOff).toNat_lt
  rw [henc, List.length_append, hhdr]
  omega

theorem cut_eq : ∀ t ∈ p.body.tlvs, t.cut = some t := by
  have hlen := h.length_le
  rw [length_encode] at hlen
  obtain ⟨c, hdec⟩ := h
  obtain ⟨c', hread⟩ := decode_encode p (by omega)
  rw [hdec] at hread
  cases hcut : p.body.tlvs.mapM Tlv.cut with
  | none =>
    rw [hcut] at hread
    cases hread
  | some ts =>
    rw [hcut] at hread
    have hbody := congrArg (fun r : Except DecodeError Pdu => (r.toOption.map fun q => q.body.tlvs)) hread
    have hts : p.body.tlvs = ts := by simpa [Except.toOption] using hbody
    rw [← hts, mapM_eq_some_iff] at hcut
    exact List.forall₂_same.mp hcut

/-- With other values of the same lengths in its Authentication TLVs, the PDU is still read. -/
theorem exists_decode {ts : List Tlv} (hts : List.Forall₂ Tlv.Resealed p.body.tlvs ts) :
    ∃ q, decode (p.withTlvs ts).encode = .ok q := by
  have hlen := h.length_le
  rw [length_encode] at hlen
  have htlvs : (p.withTlvs ts).body.tlvs = ts := PduBody.tlvs_withTlvs p.body ts
  obtain ⟨c, hdec⟩ := decode_encode (p.withTlvs ts)
    (by rw [pduType_withTlvs, htlvs, length_encodeAll_of_resealed hts]; omega)
  obtain ⟨us, hus, -⟩ := exists_mapM_cut hts fun t ht => by rw [h.cut_eq t ht]; rfl
  rw [htlvs, hus] at hdec
  exact ⟨_, hdec⟩

end RoundTrips

/-- The first Authentication TLV is the one that a scheme is to seal. -/
def Places (p : Pdu) (a : IsisAuth) : Prop :=
  p.body.tlvs.find? (fun t => t.typeCode = 10) = some (.authentication a.authType a.placeholder)

end Pdu

/-! ### The first Authentication TLV -/

/-- A header that tells how long it is. -/
def Header (hdr : List UInt8) : Prop := hdr[1]? = some (UInt8.ofNat hdr.length) ∧ hdr.length < 256

/-- What stands before the value of an Authentication TLV. -/
def lead (hdr : List UInt8) (pre : List Tlv) (len : ℕ) : List UInt8 := hdr ++ encodeAll pre ++ [10, UInt8.ofNat len]

theorem authTlvFrom_first {pre : List Tlv} (hpre : ∀ t ∈ pre, t.typeCode ≠ 10) {hdr value rest : List UInt8} {fuel : ℕ}
    (hfuel : pre.length < fuel) (hvalue : 1 ≤ value.length ∧ value.length ≤ 255) :
    authTlvFrom (lead hdr pre value.length ++ value ++ rest) fuel hdr.length =
      some ((lead hdr pre value.length).length, value.length) := by
  obtain ⟨fuel, rfl⟩ : ∃ k, fuel = k + 1 := ⟨fuel - 1, by omega⟩
  induction pre generalizing hdr fuel with
  | nil =>
    have hlen : (UInt8.ofNat value.length).toNat = value.length := UInt8.toNat_ofNat_of_lt' (by change _ < 256; omega)
    have hbuf : lead hdr [] value.length ++ value ++ rest = hdr ++ 10 :: UInt8.ofNat value.length :: (value ++ rest) := by
      simp [lead, encodeAll]
    have h0 : (lead hdr [] value.length ++ value ++ rest).getD hdr.length 0 = 10 := by
      rw [hbuf]
      simp
    have h1 : ((lead hdr [] value.length ++ value ++ rest).getD (hdr.length + 1) 0).toNat = value.length := by
      rw [hbuf]
      simpa [List.getD_eq_getElem?_getD] using hlen
    have htotal : (lead hdr [] value.length ++ value ++ rest).length = hdr.length + 2 + value.length + rest.length := by
      rw [hbuf]
      simp
      omega
    rw [authTlvFrom, h0, h1, htotal, if_neg (by omega), if_neg (by omega), if_pos ⟨rfl, hvalue.1⟩]
    simp [lead, encodeAll]
  | cons t pre ih =>
    obtain ⟨v, hv⟩ : ∃ v, t.encodeValue.take 255 = v := ⟨_, rfl⟩
    have hlen : (UInt8.ofNat v.length).toNat = v.length := by
      rw [← hv]
      exact UInt8.toNat_ofNat_of_lt' (length_encode_take t)
    have hmove : lead hdr (t :: pre) value.length = lead (hdr ++ t.encode) pre value.length := by
      simp [lead]
    have hbuf : lead hdr (t :: pre) value.length ++ value ++ rest =
        hdr ++ t.typeCode :: UInt8.ofNat v.length :: (v ++ (encodeAll pre ++ [10, UInt8.ofNat value.length] ++ value ++ rest)) := by
      rw [← hv]
      simp [lead, Tlv.encode]
    have h0 : (lead hdr (t :: pre) value.length ++ value ++ rest).getD hdr.length 0 = t.typeCode := by
      rw [hbuf]
      simp
    have h1 : ((lead hdr (t :: pre) value.length ++ value ++ rest).getD (hdr.length + 1) 0).toNat = v.length := by
      rw [hbuf]
      simpa [List.getD_eq_getElem?_getD] using hlen
    have htotal : hdr.length + 2 + v.length ≤ (lead hdr (t :: pre) value.length ++ value ++ rest).length := by
      rw [hbuf]
      simp
      omega
    have hnext : hdr.length + 2 + v.length = (hdr ++ t.encode).length := by
      rw [List.length_append, Tlv.encode, List.length_cons, List.length_cons, hv]
      omega
    rw [List.length_cons] at hfuel
    obtain ⟨fuel, rfl⟩ : ∃ k, fuel = k + 1 := ⟨fuel - 1, by omega⟩
    rw [authTlvFrom, h0, h1, if_neg (by omega), if_neg (by omega), if_neg (fun h => hpre t (by simp) h.1), hnext, hmove]
    exact ih (fun u hu => hpre u (by simp [hu])) fuel (by omega)

theorem authTlvRange_first {pre : List Tlv} (hpre : ∀ t ∈ pre, t.typeCode ≠ 10) {hdr value : List UInt8}
    (hhdr : Header hdr) (hvalue : 1 ≤ value.length ∧ value.length ≤ 255) (rest : List UInt8) :
    authTlvRange (lead hdr pre value.length ++ value ++ rest) =
      some ((lead hdr pre value.length).length, value.length) := by
  have hpos : 1 < hdr.length := (List.getElem?_eq_some_iff.mp hhdr.1).1
  have h1 : (lead hdr pre value.length ++ value ++ rest)[1]? = some (UInt8.ofNat hdr.length) := by
    rw [lead, List.append_assoc, List.append_assoc, List.append_assoc, List.getElem?_append_left hpos, hhdr.1]
  have hoff : (UInt8.ofNat hdr.length).toNat = hdr.length := UInt8.toNat_ofNat_of_lt' hhdr.2
  have hcount : ∀ l : List Tlv, l.length ≤ (encodeAll l).length := by
    intro l
    induction l with
    | nil => simp
    | cons t l ih =>
      rw [encodeAll_cons, List.length_append, List.length_cons, Tlv.encode, List.length_cons]
      omega
  have hfuel := hcount pre
  rw [authTlvRange, h1]
  dsimp only
  rw [hoff]
  refine authTlvFrom_first hpre ?_ hvalue
  simp only [lead, List.length_append]
  omega

/-! ### What a digest does not cover -/

/-- The lifetime and the checksum of an LSP are zeroed. -/
def masked (pdu : List UInt8) : List UInt8 := if isLsp pdu then patch (patch pdu 10 [0, 0]) 24 [0, 0] else pdu

/-- The same header but for lifetime and checksum. -/
structure Rewritten (hdr hdr' : List UInt8) : Prop where
  length_eq : hdr'.length = hdr.length
  getElem?_eq : ∀ i, ¬ (10 ≤ i ∧ i < 12) → ¬ (24 ≤ i ∧ i < 26) → hdr'[i]? = hdr[i]?

theorem Rewritten.refl (hdr : List UInt8) : Rewritten hdr hdr := ⟨rfl, fun _ _ _ => rfl⟩

theorem Rewritten.trans {x y z : List UInt8} (hxy : Rewritten x y) (hyz : Rewritten y z) : Rewritten x z := by
  refine ⟨hyz.length_eq.trans hxy.length_eq, ?_⟩
  intro i h10 h24
  rw [hyz.getElem?_eq i h10 h24, hxy.getElem?_eq i h10 h24]

theorem rewritten_patch {hdr field : List UInt8} {start : ℕ} (hstart : start = 10 ∨ start = 24) (hfield : field.length = 2)
    (hhdr : 26 ≤ hdr.length) : Rewritten hdr (patch hdr start field) := by
  have hfits : start + field.length ≤ hdr.length := by omega
  refine ⟨length_patch hfits, ?_⟩
  intro i h10 h24
  rw [getElem?_patch hfits, if_neg (by omega)]

theorem Rewritten.header {hdr hdr' : List UInt8} (h : Rewritten hdr hdr') (hhdr : Header hdr) : Header hdr' := by
  refine ⟨?_, by rw [h.length_eq]; exact hhdr.2⟩
  rw [h.getElem?_eq 1 (by omega) (by omega), hhdr.1, h.length_eq]

theorem Rewritten.isLsp_eq {hdr hdr' : List UInt8} (h : Rewritten hdr hdr') (rest : List UInt8) :
    isLsp (hdr' ++ rest) = isLsp (hdr ++ rest) := by
  have h4 : (hdr' ++ rest)[4]? = (hdr ++ rest)[4]? := by
    rw [List.getElem?_append, List.getElem?_append, h.length_eq, h.getElem?_eq 4 (by omega) (by omega)]
  rw [isLsp, isLsp, h4]

theorem Rewritten.masked_eq {hdr hdr' : List UInt8} (h : Rewritten hdr hdr') (hhdr : 26 ≤ hdr.length) {rest : List UInt8}
    (hlsp : isLsp (hdr ++ rest) = true) : masked (hdr' ++ rest) = masked (hdr ++ rest) := by
  have hzero : ([0, 0] : List UInt8).length = 2 := rfl
  have hten : ∀ x : List UInt8, 26 ≤ x.length → 10 + ([0, 0] : List UInt8).length ≤ (x ++ rest).length := by
    intro x hx
    rw [List.length_append, hzero]
    omega
  have hcheck : ∀ x : List UInt8, 26 ≤ x.length → 24 + ([0, 0] : List UInt8).length ≤ (patch (x ++ rest) 10 [0, 0]).length := by
    intro x hx
    rw [length_patch (hten x hx), List.length_append, hzero]
    omega
  have hhdr' : 26 ≤ hdr'.length := h.length_eq ▸ hhdr
  rw [masked, masked, h.isLsp_eq rest, if_pos hlsp, if_pos hlsp]
  apply List.ext_getElem?
  intro i
  rw [getElem?_patch (hcheck hdr' hhdr'), getElem?_patch (hcheck hdr hhdr), getElem?_patch (hten hdr' hhdr'),
    getElem?_patch (hten hdr hhdr), hzero]
  by_cases h24 : 24 ≤ i ∧ i < 24 + 2
  · rw [if_pos h24, if_pos h24]
  · by_cases h10 : 10 ≤ i ∧ i < 10 + 2
    · rw [if_neg h24, if_neg h24, if_pos h10, if_pos h10]
    · rw [if_neg h24, if_neg h24, if_neg h10, if_neg h10, List.getElem?_append, List.getElem?_append, h.length_eq,
        h.getElem?_eq i h10 h24]

/-! ### Sealing and verification -/

namespace IsisAuth

/-- What stands between the type octet and the digest. -/
def keyOctets : IsisAuth → List UInt8
  | hmacSha256 _ keyId => digits 2 keyId.toNat
  | _ => []

def hash (a : IsisAuth) (octets : List UInt8) : List UInt8 :=
  match a with
  | cleartext _ => []
  | hmacMd5 mac => digits 16 (mac octets).toNat
  | hmacSha256 mac _ => digits 32 (mac octets).toNat

section Keyed
variable {a : IsisAuth} {l : Layout} (hl : a.layout = some l)
include hl

theorem length_keyOctets : a.keyOctets.length = l.keyIdLen := by
  cases a with
  | cleartext _ => simp [layout] at hl
  | hmacMd5 mac => rw [← Option.some.inj hl]; rfl
  | hmacSha256 mac keyId => rw [← Option.some.inj hl]; exact length_digits 2 _

theorem length_hash (octets : List UInt8) : (a.hash octets).length = l.digestLen := by
  cases a with
  | cleartext _ => simp [layout] at hl
  | hmacMd5 mac => rw [← Option.some.inj hl]; exact length_digits 16 _
  | hmacSha256 mac keyId => rw [← Option.some.inj hl]; exact length_digits 32 _

theorem placeholder_eq : a.placeholder = a.keyOctets ++ digestPlaceholder l.digestLen l.apad := by
  cases a with
  | cleartext _ => simp [layout] at hl
  | hmacMd5 mac => rw [← Option.some.inj hl]; rfl
  | hmacSha256 mac keyId => rw [← Option.some.inj hl]; rfl

theorem digest_eq (pdu : List UInt8) (start : ℕ) : a.digest l pdu start =
    some (a.hash (masked (patch pdu (start + 1 + l.keyIdLen) (digestPlaceholder l.digestLen l.apad)))) := by
  cases a with
  | cleartext _ => simp [layout] at hl
  | hmacMd5 mac => rfl
  | hmacSha256 mac keyId => rfl

/-- The length of the value that a scheme is laid out for. -/
theorem length_le_layout : 1 + l.keyIdLen + l.digestLen ≤ 255 := by
  cases a with
  | cleartext _ => simp [layout] at hl
  | hmacMd5 mac => rw [← Option.some.inj hl]; decide
  | hmacSha256 mac keyId => rw [← Option.some.inj hl]; decide

end Keyed

/-- A PDU whose first Authentication TLV has this value. -/
def around (hdr : List UInt8) (pre : List Tlv) (value rest : List UInt8) : List UInt8 :=
  lead hdr pre value.length ++ value ++ rest

theorem around_eq (hdr : List UInt8) (pre : List Tlv) (value rest : List UInt8) :
    around hdr pre value rest = hdr ++ (encodeAll pre ++ ([10, UInt8.ofNat value.length] ++ (value ++ rest))) := by
  simp [around, lead]

section Framed
variable {a : IsisAuth} {l : Layout} (hl : a.layout = some l) {hdr : List UInt8} {pre : List Tlv}
  (hpre : ∀ t ∈ pre, t.typeCode ≠ 10) (hhdr : Header hdr)
include hl

theorem length_value {d : List UInt8} (hd : d.length = l.digestLen) :
    (a.authType :: (a.keyOctets ++ d)).length = 1 + l.keyIdLen + l.digestLen := by
  rw [List.length_cons, List.length_append, length_keyOctets hl, hd]
  omega

variable (hdr pre) in
theorem patch_around {d e : List UInt8} (hd : d.length = l.digestLen) (he : e.length = l.digestLen) (rest : List UInt8) :
    patch (around hdr pre (a.authType :: (a.keyOctets ++ d)) rest)
        ((lead hdr pre (1 + l.keyIdLen + l.digestLen)).length + 1 + l.keyIdLen) e =
      around hdr pre (a.authType :: (a.keyOctets ++ e)) rest := by
  have hsplit : ∀ x : List UInt8, x.length = l.digestLen → around hdr pre (a.authType :: (a.keyOctets ++ x)) rest =
      (lead hdr pre (1 + l.keyIdLen + l.digestLen) ++ a.authType :: a.keyOctets) ++ x ++ rest := by
    intro x hx
    rw [around, length_value hl hx]
    simp
  rw [hsplit d hd, hsplit e he]
  refine patch_append ?_ (hd.trans he.symm)
  rw [List.length_append, List.length_cons, length_keyOctets hl]
  omega

variable (hdr pre) in
theorem digest_around {d : List UInt8} (hd : d.length = l.digestLen) (rest : List UInt8) :
    a.digest l (around hdr pre (a.authType :: (a.keyOctets ++ d)) rest)
        (lead hdr pre (1 + l.keyIdLen + l.digestLen)).length =
      some (a.hash (masked (around hdr pre (a.authType :: a.placeholder) rest))) := by
  rw [digest_eq hl, patch_around hl hdr pre hd (length_placeholder _ _), placeholder_eq hl]

theorem patchKeyId_around {d : List UInt8} (hd : d.length = l.digestLen) (rest : List UInt8) :
    a.patchKeyId (around hdr pre (a.authType :: (a.keyOctets ++ d)) rest)
        (lead hdr pre (1 + l.keyIdLen + l.digestLen)).length =
      around hdr pre (a.authType :: (a.keyOctets ++ d)) rest := by
  cases a with
  | cleartext _ => rfl
  | hmacMd5 mac => rfl
  | hmacSha256 mac keyId =>
    have hsplit : around hdr pre (authType (hmacSha256 mac keyId) :: (keyOctets (hmacSha256 mac keyId) ++ d)) rest =
        (lead hdr pre (1 + l.keyIdLen + l.digestLen) ++ [authType (hmacSha256 mac keyId)]) ++ digits 2 keyId.toNat ++
          (d ++ rest) := by
      rw [around, length_value hl hd]
      simp [keyOctets]
    rw [patchKeyId, hsplit]
    exact patch_append (by simp) rfl

include hpre hhdr

theorem cryptoValueStart_around {d : List UInt8} (hd : d.length = l.digestLen) (rest : List UInt8) :
    a.cryptoValueStart l (around hdr pre (a.authType :: (a.keyOctets ++ d)) rest) =
      some (lead hdr pre (1 + l.keyIdLen + l.digestLen)).length := by
  have hlen := length_value hl hd
  have hmax := length_le_layout hl
  have hfirst : (around hdr pre (a.authType :: (a.keyOctets ++ d)) rest).getD
      (lead hdr pre (1 + l.keyIdLen + l.digestLen)).length 0 = a.authType := by
    rw [around, hlen]
    simp
  rw [cryptoValueStart, around, authTlvRange_first hpre hhdr (by omega) rest, hlen]
  dsimp only
  rw [around, hlen] at hfirst
  rw [if_pos ⟨rfl, hfirst⟩]

/-- The digest over the placeholder is accepted. -/
theorem verify_around {d : List UInt8} (rest : List UInt8)
    (hd : d = a.hash (masked (around hdr pre (a.authType :: a.placeholder) rest))) :
    a.verify (around hdr pre (a.authType :: (a.keyOctets ++ d)) rest) = true := by
  have hlen : d.length = l.digestLen := by
    rw [hd]
    exact length_hash hl _
  have htake : ((around hdr pre (a.authType :: (a.keyOctets ++ d)) rest).drop
      ((lead hdr pre (1 + l.keyIdLen + l.digestLen)).length + 1 + l.keyIdLen)).take l.digestLen = d := by
    have hsplit : around hdr pre (a.authType :: (a.keyOctets ++ d)) rest =
        (lead hdr pre (1 + l.keyIdLen + l.digestLen) ++ a.authType :: a.keyOctets) ++ (d ++ rest) := by
      rw [around, length_value hl hlen]
      simp
    rw [hsplit, List.drop_left' (by rw [List.length_append, List.length_cons, length_keyOctets hl]; omega),
      List.take_left' hlen]
  have hstart := cryptoValueStart_around hl hpre hhdr hlen rest
  have hdigest := digest_around hl hdr pre hlen rest
  rw [← hd] at hdigest
  cases a with
  | cleartext _ => simp [layout] at hl
  | hmacMd5 mac =>
    obtain rfl := Option.some.inj hl
    simp only [verify, layout, hstart, hdigest, htake, decide_true]
  | hmacSha256 mac keyId =>
    obtain rfl := Option.some.inj hl
    simp only [verify, layout, hstart, hdigest, htake, decide_true]

/-- Sealing puts the digest in the place of the placeholder, and computes the checksum of an LSP anew. -/
theorem sealPdu_around (rest : List UInt8) :
    a.sealPdu (around hdr pre (a.authType :: a.placeholder) rest) =
      (let d := a.hash (masked (around hdr pre (a.authType :: a.placeholder) rest))
      let pdu := around hdr pre (a.authType :: (a.keyOctets ++ d)) rest
      if isLsp pdu then pdu.take 12 ++ fletcher16 (pdu.drop 12) 12 else pdu) := by
  have hlen := length_placeholder l.digestLen l.apad
  have hdigest := digest_around hl hdr pre hlen rest
  have hpatch := patch_around hl hdr pre hlen
    (length_hash hl (masked (around hdr pre (a.authType :: a.placeholder) rest))) rest
  rw [placeholder_eq hl] at hdigest hpatch ⊢
  unfold sealPdu
  rw [hl]
  dsimp only
  rw [cryptoValueStart_around hl hpre hhdr hlen]
  dsimp only
  rw [patchKeyId_around hl hlen, hdigest]
  dsimp only
  rw [hpatch]

end Framed

theorem verify_cleartext {password : List UInt8} (hpassword : password.length ≤ 254) {hdr : List UInt8} {pre : List Tlv}
    (hpre : ∀ t ∈ pre, t.typeCode ≠ 10) (hhdr : Header hdr) (rest : List UInt8) :
    (cleartext password).verify (around hdr pre (1 :: password) rest) = true := by
  have hlen : (1 :: password : List UInt8).length = password.length + 1 := rfl
  have hbuf : around hdr pre (1 :: password) rest =
      lead hdr pre (password.length + 1) ++ 1 :: (password ++ rest) := by
    rw [around, hlen]
    simp
  have hvalue : 1 ≤ (1 :: password : List UInt8).length ∧ (1 :: password : List UInt8).length ≤ 255 := by
    rw [hlen]
    omega
  have hrange := authTlvRange_first hpre hhdr hvalue rest
  unfold verify
  rw [around, hrange]
  dsimp only
  rw [← around, hbuf, hlen]
  have hfirst : (lead hdr pre (password.length + 1) ++ 1 :: (password ++ rest)).getD
      (lead hdr pre (password.length + 1)).length 0 = 1 := by simp
  have hdrop : (lead hdr pre (password.length + 1) ++ 1 :: (password ++ rest)).drop
      ((lead hdr pre (password.length + 1)).length + 1) = password ++ rest := by
    rw [← List.drop_drop, List.drop_left]
    rfl
  rw [hfirst, hdrop]
  simp

end IsisAuth

/-! ### The checksum of what is sealed -/

theorem patch_append_left {hdr octets rest : List UInt8} {start : ℕ} (h : start + octets.length ≤ hdr.length) :
    patch (hdr ++ rest) start octets = patch hdr start octets ++ rest := by
  rw [patch, patch, List.take_append_of_le_length (by omega), List.drop_append_of_le_length (by omega), List.append_assoc,
    List.append_assoc, List.append_assoc]

/-- The checksum is computed anew in its own two octets. -/
theorem exists_fletcher {pdu : List UInt8} (h : 26 ≤ pdu.length) :
    ∃ check : List UInt8, check.length = 2 ∧ pdu.take 12 ++ fletcher16 (pdu.drop 12) 12 = patch pdu 24 check ∧
      fletcher16Valid ((patch pdu 24 check).drop 12) = true := by
  obtain ⟨b, c, t, hrest⟩ : ∃ b c t, pdu.drop 24 = b :: c :: t := by
    have hlen : (pdu.drop 24).length = pdu.length - 24 := List.length_drop
    match hd : pdu.drop 24, hlen with
    | [], hlen => simp at hlen; omega
    | [b], hlen => simp at hlen; omega
    | b :: c :: t, _ => exact ⟨b, c, t, rfl⟩
  have htwelve : ((pdu.drop 12).take 12).length = 12 := by
    rw [List.length_take, List.length_drop]
    omega
  have hregion : pdu.drop 12 = (pdu.drop 12).take 12 ++ b :: c :: t := by
    rw [← hrest, show 24 = 12 + 12 from rfl, ← List.drop_drop, List.take_append_drop]
  obtain ⟨x, y, heq, hv⟩ := fletcher16_spec ((pdu.drop 12).take 12) t b c
  rw [htwelve, ← hregion] at heq
  have hpatch : patch pdu 24 [x, y] = pdu.take 12 ++ ((pdu.drop 12).take 12 ++ x :: y :: t) := by
    have hend : pdu.drop (24 + ([x, y] : List UInt8).length) = t := by
      rw [← List.drop_drop, hrest]
      rfl
    have hfront : pdu.take 24 = pdu.take 12 ++ (pdu.drop 12).take 12 := by
      rw [show 24 = 12 + 12 from rfl, List.take_add]
    rw [patch, hend, hfront]
    simp
  refine ⟨[x, y], rfl, by rw [heq, hpatch], ?_⟩
  rw [hpatch, List.drop_left' (by rw [List.length_take]; omega)]
  exact hv

namespace Pdu
variable {p : Pdu} {a : IsisAuth}

theorem length_le_of_cut {typ : UInt8} {data : List UInt8}
    (h : (Tlv.authentication typ data).cut = some (.authentication typ data)) : data.length ≤ 254 := by
  have hcut : (Tlv.authentication typ data).cut = some (.authentication typ (data.take 254)) := rfl
  rw [hcut] at h
  have hdata := congrArg List.length (Tlv.authentication.inj (Option.some.inj h)).2
  rw [List.length_take] at hdata
  omega

/-- The octets of a PDU around its first Authentication TLV. -/
theorem exists_around (h : p.RoundTrips) (ha : p.Places a) : ∃ hdr pre rest, Header hdr ∧ (∀ t ∈ pre, t.typeCode ≠ 10) ∧
    hdr.length = p.pduType.fixedHeaderLen ∧ a.placeholder.length ≤ 254 ∧
    p.encode = IsisAuth.around hdr pre (a.authType :: a.placeholder) rest := by
  obtain ⟨hdr, henc, hlen, h1, -⟩ := p.encode_split
  obtain ⟨-, pre, post, htlvs, hpre⟩ := List.find?_eq_some_iff_append.mp ha
  have hmem : Tlv.authentication a.authType a.placeholder ∈ p.body.tlvs := by
    rw [htlvs]
    simp
  have hfits := length_le_of_cut (h.cut_eq _ hmem)
  refine ⟨hdr, pre, encodeAll post, ⟨h1, ?_⟩, ?_, hlen, hfits, ?_⟩
  · rw [hlen]
    cases p.pduType <;> decide
  · intro t ht
    simpa using hpre t ht
  · have hvalue : (a.authType :: a.placeholder).take 255 = a.authType :: a.placeholder :=
      List.take_of_length_le (by rw [List.length_cons]; omega)
    have hone : (Tlv.authentication a.authType a.placeholder).encode =
        10 :: UInt8.ofNat (a.authType :: a.placeholder).length :: (a.authType :: a.placeholder) := by
      rw [Tlv.encode, Tlv.encodeValue, hvalue]
      rfl
    rw [henc, htlvs, encodeAll_append, encodeAll_cons, hone, IsisAuth.around_eq]
    simp

/-- An LSP has its checksum in its header, and says that it is one. -/
theorem isLsp_iff_of_append {hdr rest : List UInt8} (henc : p.encode = hdr ++ rest)
    (hlen : hdr.length = p.pduType.fixedHeaderLen) (r : List UInt8) :
    (isLsp (hdr ++ r) = true ↔ ∃ l, p.body = .lsp l) ∧ (isLsp (hdr ++ r) = true → 26 ≤ hdr.length) := by
  obtain ⟨hdr', henc', hlen', -, h4⟩ := p.encode_split
  obtain rfl : hdr' = hdr := List.append_inj_left (henc'.symm.trans henc) (hlen'.trans hlen.symm)
  have hlow : 4 < hdr'.length := by
    rw [hlen]
    cases p.pduType <;> decide
  have hiff : isLsp (hdr' ++ r) = true ↔ ∃ l, p.body = .lsp l := by
    rw [← isLsp_commonHeader p [], isLsp, isLsp, List.getElem?_append_left hlow, h4, getElem?_commonHeader]
  refine ⟨hiff, ?_⟩
  intro hlsp
  obtain ⟨l, hl⟩ := hiff.mp hlsp
  have htype : p.pduType = levelType l.level .l1Lsp .l2Lsp := by rw [pduType, hl]
  rw [hlen, htype]
  cases l.level <;> decide

theorem octets_length_of_lsp {l : Lsp} (hl : p.body = .lsp l) : 26 ≤ p.octets.length := by
  have htype : p.pduType = levelType l.level .l1Lsp .l2Lsp := by rw [pduType, hl]
  have hfixed : p.pduType.fixedHeaderLen = 27 := by
    rw [htype]
    cases l.level <;> rfl
  rw [length_octets, hfixed]
  omega

/-- What is encoded as an LSP carries a checksum that verifies. -/
theorem fletcher16Valid_encode {l : Lsp} (hl : p.body = .lsp l) : fletcher16Valid (p.encode.drop 12) = true := by
  obtain ⟨check, -, hsum, hvalid⟩ := exists_fletcher (octets_length_of_lsp hl)
  have henc : p.encode = p.octets.take 12 ++ fletcher16 (p.octets.drop 12) 12 := by
    rw [encode, hl]
  rw [henc, hsum]
  exact hvalid

/-- Lifetime and checksum of an LSP. -/
def Transit (p : Pdu) (hdr hdr' : List UInt8) : Prop := hdr' = hdr ∨ (∃ l, p.body = .lsp l) ∧ Rewritten hdr hdr'

theorem Transit.masked_eq {hdr hdr' rest : List UInt8} (ht : p.Transit hdr hdr')
    (hlsp : (isLsp (hdr ++ rest) = true ↔ ∃ l, p.body = .lsp l) ∧ (isLsp (hdr ++ rest) = true → 26 ≤ hdr.length)) :
    masked (hdr' ++ rest) = masked (hdr ++ rest) := by
  rcases ht with rfl | ⟨hbody, hrw⟩
  · rfl
  · have h := hlsp.1.mpr hbody
    exact hrw.masked_eq (hlsp.2 h) h

theorem Transit.header {hdr hdr' : List UInt8} (ht : p.Transit hdr hdr') (hhdr : Header hdr) : Header hdr' := by
  rcases ht with rfl | ⟨-, hrw⟩
  · exact hhdr
  · exact hrw.header hhdr

/-- What is sealed is accepted, whatever its lifetime and its checksum are rewritten to. -/
theorem exists_sealed (h : p.RoundTrips) (ha : p.Places a) : ∃ hdr rest, a.sealPdu p.encode = hdr ++ rest ∧
    ((∃ l, p.body = .lsp l) → 26 ≤ hdr.length) ∧ ∀ hdr', p.Transit hdr hdr' → a.verify (hdr' ++ rest) = true := by
  obtain ⟨hdr, pre, rest, hhdr, hpre, hlen, hfits, henc⟩ := exists_around h ha
  have hlsp := isLsp_iff_of_append (henc.trans (IsisAuth.around_eq _ _ _ _)) hlen
  have hlow : (∃ l, p.body = .lsp l) → 26 ≤ hdr.length := fun hbody => (hlsp []).2 ((hlsp []).1.mpr hbody)
  cases hl : a.layout with
  | none =>
    obtain ⟨password, rfl⟩ : ∃ password, a = .cleartext password := by
      cases a with
      | cleartext password => exact ⟨password, rfl⟩
      | hmacMd5 mac => cases hl
      | hmacSha256 mac keyId => cases hl
    refine ⟨hdr, _, henc.trans (IsisAuth.around_eq _ _ _ _), hlow, ?_⟩
    intro hdr' ht
    have haccept := IsisAuth.verify_cleartext hfits hpre (ht.header hhdr) rest
    rw [IsisAuth.around_eq] at haccept
    exact haccept
  | some l =>
    have hseal := IsisAuth.sealPdu_around hl hpre hhdr rest
    obtain ⟨d, hd⟩ : ∃ d, a.hash (masked (IsisAuth.around hdr pre (a.authType :: a.placeholder) rest)) = d := ⟨_, rfl⟩
    dsimp only at hseal
    rw [hd, ← henc] at hseal
    -- The digest is over octets in which neither field can be seen.
    have haccept : ∀ hdr', p.Transit hdr hdr' →
        a.verify (IsisAuth.around hdr' pre (a.authType :: (a.keyOctets ++ d)) rest) = true := by
      intro hdr' ht
      refine IsisAuth.verify_around hl hpre (ht.header hhdr) rest ?_
      rw [← hd, IsisAuth.around_eq, IsisAuth.around_eq, ht.masked_eq (hlsp _)]
    by_cases hbody : ∃ l, p.body = .lsp l
    · have hislsp : isLsp (IsisAuth.around hdr pre (a.authType :: (a.keyOctets ++ d)) rest) = true := by
        rw [IsisAuth.around_eq]
        exact (hlsp _).1.mpr hbody
      have hlong : 26 ≤ (IsisAuth.around hdr pre (a.authType :: (a.keyOctets ++ d)) rest).length := by
        rw [IsisAuth.around_eq, List.length_append]
        exact (hlow hbody).trans (Nat.le_add_right _ _)
      obtain ⟨check, hcheck, hsum, -⟩ := exists_fletcher hlong
      have hfirst := rewritten_patch (.inr rfl) hcheck (hlow hbody)
      rw [if_pos hislsp, hsum, IsisAuth.around_eq, patch_append_left (by rw [hcheck]; exact hlow hbody)] at hseal
      refine ⟨patch hdr 24 check, _, hseal, fun hbody => hfirst.length_eq ▸ hlow hbody, ?_⟩
      intro hdr' ht
      have hrewritten : Rewritten hdr hdr' := by
        rcases ht with rfl | ⟨-, hrw⟩
        · exact hfirst
        · exact hfirst.trans hrw
      rw [← IsisAuth.around_eq]
      exact haccept hdr' (.inr ⟨hbody, hrewritten⟩)
    · have hislsp : ¬ isLsp (IsisAuth.around hdr pre (a.authType :: (a.keyOctets ++ d)) rest) = true := by
        rw [IsisAuth.around_eq]
        exact fun hc => hbody ((hlsp _).1.mp hc)
      rw [if_neg hislsp, IsisAuth.around_eq] at hseal
      refine ⟨hdr, _, hseal, hlow, ?_⟩
      intro hdr' ht
      rw [← IsisAuth.around_eq]
      exact haccept hdr' ht

/-- What says that it is an LSP because it was encoded as one is long enough. -/
theorem not_overreaches (p : Pdu) (a : IsisAuth) : ¬ a.Overreaches p.encode := by
  rintro ⟨hislsp, hshort, -⟩
  obtain ⟨hdr, henc, hlen, -, -⟩ := p.encode_split
  rw [henc] at hislsp hshort
  have hlong := (isLsp_iff_of_append henc hlen _).2 hislsp
  rw [List.length_append] at hshort
  omega

end Pdu

/-- Sealing gives octets that are still read and that verify, also after they were forwarded, and no octets are indexed
out of bounds but those that end before the checksum of the LSP that they say they are. -/
theorem sealing_law (a : IsisAuth) :
    (∀ p : Pdu, p.RoundTrips → p.Places a → ∃ octets, a.sealPdu? p.encode = some octets ∧
      (∃ q, Pdu.decode octets = .ok q) ∧ a.verify? octets = some true ∧
      ((∃ l, p.body = .lsp l) → fletcher16Valid (octets.drop 12) = true ∧
        ∀ life check : List UInt8, life.length = 2 → check.length = 2 →
          a.verify? (patch (patch octets 10 life) 24 check) = some true)) ∧
    ∀ pdu : List UInt8, (a.sealPdu? pdu).isSome ∧ (a.verify? pdu).isSome ↔ ¬ a.Overreaches pdu := by
  constructor
  · intro p h ha
    obtain ⟨ts, hts, hencode⟩ := IsisAuth.sealPdu_encode a p
    obtain ⟨hdr, rest, hseal, hlow, haccept⟩ := Pdu.exists_sealed h ha
    refine ⟨a.sealPdu p.encode, IsisAuth.sealPdu?_eq (p.not_overreaches a), ?_, ?_, ?_⟩
    · rw [hencode]
      exact h.exists_decode hts
    · rw [IsisAuth.verify?_eq (by rw [hencode]; exact Pdu.not_overreaches _ a), hseal]
      exact congrArg some (haccept hdr (.inl rfl))
    · rintro ⟨l, hl⟩
      have hbody : (p.withTlvs ts).body = .lsp { l with tlvs := ts } := by rw [Pdu.withTlvs, hl, PduBody.withTlvs]
      have hlong := hlow ⟨l, hl⟩
      refine ⟨by rw [hencode]; exact Pdu.fletcher16Valid_encode hbody, ?_⟩
      intro life check hlife hcheck
      have hten : 10 + life.length ≤ hdr.length := by omega
      have hpatched : patch (patch (a.sealPdu p.encode) 10 life) 24 check =
          patch (patch hdr 10 life) 24 check ++ rest := by
        rw [hseal, patch_append_left hten, patch_append_left (by rw [length_patch hten]; omega)]
      have hfirst : Rewritten hdr (patch hdr 10 life) := rewritten_patch (.inl rfl) hlife hlong
      have hsecond : Rewritten (patch hdr 10 life) (patch (patch hdr 10 life) 24 check) :=
        rewritten_patch (.inr rfl) hcheck (by rw [hfirst.length_eq]; exact hlong)
      have hboth := hfirst.trans hsecond
      have hfits : ¬ a.Overreaches (patch (patch hdr 10 life) 24 check ++ rest) := by
        rintro ⟨-, hshort, -⟩
        rw [List.length_append, hboth.length_eq] at hshort
        omega
      rw [hpatched, IsisAuth.verify?_eq hfits]
      exact congrArg some (haccept _ (.inr ⟨⟨l, hl⟩, hboth⟩))
  · intro pdu
    constructor
    · rintro ⟨hsome, -⟩ hover
      rw [(IsisAuth.eq_none_of_overreaches hover).1] at hsome
      cases hsome
    · intro hfits
      rw [IsisAuth.sealPdu?_eq hfits, IsisAuth.verify?_eq hfits]
      exact ⟨rfl, rfl⟩

/-- An LSP whose Authentication TLV is to be filled in. -/
def unsealedLsp : Pdu := ⟨3, .lsp
  { level := .l1, remainingLifetime := 1200, lspId := ⟨7, 0, 0⟩, sequenceNumber := 5, checksum := 0
    partition := false, attached := 0, overload := false, isType := .l1, tlvs := [.authentication 54 (List.replicate 16 0)] }⟩

theorem sealing_law_lsp : ∃ octets, (IsisAuth.hmacMd5 fun _ => 77).sealPdu? unsealedLsp.encode = some octets ∧
    (IsisAuth.hmacMd5 fun _ => 77).verify? (patch (patch octets 10 [0, 3]) 24 [9, 9]) = some true := by
  have hround : unsealedLsp.RoundTrips := ⟨_, rfl⟩
  obtain ⟨octets, hseal, -, -, hlsp⟩ := (sealing_law (.hmacMd5 fun _ => 77)).1 unsealedLsp hround rfl
  exact ⟨octets, hseal, (hlsp ⟨_, rfl⟩).2 [0, 3] [9, 9] rfl rfl⟩

/-- Octets of an LSP up to its checksum, with room for a digest in the first of them. -/
theorem sealing_overreaches :
    (IsisAuth.hmacMd5 fun _ => 0).sealPdu? ([0x83, 5, 1, 0, 18, 10, 17, 54] ++ List.replicate 16 0) = none ∧
      (IsisAuth.hmacMd5 fun _ => 0).verify? ([0x83, 5, 1, 0, 18, 10, 17, 54] ++ List.replicate 16 0) = none := by
  constructor <;> decide +kernel

end Wren.Isis
