import Wren.Isis.Codec

/-! Authentication of encoded PDUs. A digest covers the octets of a PDU, so it is written into them
after they are encoded. -/

namespace Wren.Isis
open Octets

/-- A keyed scheme comes with its MAC under the shared key. -/
inductive IsisAuth where
  | cleartext (password : List UInt8)
  | hmacMd5 (mac : List UInt8 → BitVec 128)
  | hmacSha256 (mac : List UInt8 → BitVec 256) (keyId : UInt16)

structure Layout where
  keyIdLen : ℕ
  digestLen : ℕ
  apad : Bool

/-- Overwrite octets from a position on. -/
def patch (pdu : List UInt8) (start : ℕ) (octets : List UInt8) : List UInt8 :=
  pdu.take start ++ octets ++ pdu.drop (start + octets.length)

def digestPlaceholder (len : ℕ) (apad : Bool) : List UInt8 :=
  if apad then (List.replicate (len / 4) [0x87, 0x8F, 0xE1, 0xF3]).flatten ++ List.replicate (len % 4) 0
  else List.replicate len 0

def isLsp (pdu : List UInt8) : Bool := pdu[4]? = some 18 || pdu[4]? = some 20

/-- Walk over the TLVs from `off` to the first Authentication TLV: where its value begins and how long it is. -/
def authTlvFrom (pdu : List UInt8) : ℕ → ℕ → Option (ℕ × ℕ)
  | 0, _ => none
  | fuel + 1, off =>
    let len := (pdu.getD (off + 1) 0).toNat
    if pdu.length < off + 2 then none
    else if pdu.length < off + 2 + len then none
    else if pdu.getD off 0 = 10 ∧ 1 ≤ len then some (off + 2, len)
    else authTlvFrom pdu fuel (off + 2 + len)

/-- Every TLV takes two octets at least, so the length of the PDU is fuel enough. -/
def authTlvRange (pdu : List UInt8) : Option (ℕ × ℕ) :=
  match pdu[1]? with
  | none => none
  | some off => authTlvFrom pdu pdu.length off.toNat

namespace IsisAuth

def authType : IsisAuth → UInt8
  | cleartext _ => 1
  | hmacMd5 _ => 54
  | hmacSha256 _ _ => 3

def layout : IsisAuth → Option Layout
  | cleartext _ => none
  | hmacMd5 _ => some ⟨0, 16, false⟩
  | hmacSha256 _ _ => some ⟨2, 32, true⟩

def placeholder : IsisAuth → List UInt8
  | cleartext password => password
  | hmacMd5 _ => digestPlaceholder 16 false
  | hmacSha256 _ keyId => digits 2 keyId.toNat ++ digestPlaceholder 32 true

/-- Where the value of an Authentication TLV of this scheme begins. -/
def cryptoValueStart (a : IsisAuth) (l : Layout) (pdu : List UInt8) : Option ℕ :=
  match authTlvRange pdu with
  | none => none
  | some (start, len) =>
    if len = 1 + l.keyIdLen + l.digestLen ∧ pdu.getD start 0 = a.authType then some start else none

/-- The digest is taken with its own field refilled, and in an LSP with lifetime and checksum zeroed. -/
def digest (a : IsisAuth) (l : Layout) (pdu : List UInt8) (valueStart : ℕ) : Option (List UInt8) :=
  let scratch := patch pdu (valueStart + 1 + l.keyIdLen) (digestPlaceholder l.digestLen l.apad)
  let scratch := if isLsp scratch then patch (patch scratch 10 [0, 0]) 24 [0, 0] else scratch
  match a with
  | cleartext _ => none
  | hmacMd5 mac => some (digits 16 (mac scratch).toNat)
  | hmacSha256 mac _ => some (digits 32 (mac scratch).toNat)

def patchKeyId (a : IsisAuth) (pdu : List UInt8) (valueStart : ℕ) : List UInt8 :=
  match a with
  | hmacSha256 _ keyId => patch pdu (valueStart + 1) (digits 2 keyId.toNat)
  | _ => pdu

/-- Write the digest into an encoded PDU. The checksum of an LSP covers it and is computed anew. -/
def sealPdu (a : IsisAuth) (pdu : List UInt8) : List UInt8 :=
  match a.layout with
  | none => pdu
  | some l =>
    match a.cryptoValueStart l pdu with
    | none => pdu
    | some start =>
      let pdu := a.patchKeyId pdu start
      match a.digest l pdu start with
      | none => pdu
      | some d =>
        let pdu := patch pdu (start + 1 + l.keyIdLen) d
        if isLsp pdu then pdu.take 12 ++ fletcher16 (pdu.drop 12) 12 else pdu

def verify (a : IsisAuth) (pdu : List UInt8) : Bool :=
  match a with
  | cleartext expected =>
    match authTlvRange pdu with
    | none => false
    | some (start, len) => pdu.getD start 0 = 1 && (pdu.drop (start + 1)).take (len - 1) = expected
  | _ =>
    match a.layout with
    | none => false
    | some l =>
      match a.cryptoValueStart l pdu with
      | none => false
      | some start =>
        match a.digest l pdu start with
        | none => false
        | some d => (pdu.drop (start + 1 + l.keyIdLen)).take l.digestLen = d

end IsisAuth

/-- Encode a PDU to send, under whatever authentication is configured. -/
def encodePdu (auth : Option IsisAuth) (p : Pdu) : List UInt8 :=
  match auth with
  | none => p.encode
  | some a => a.sealPdu p.encode

theorem patch_append {a old new b : List UInt8} {n : ℕ} (hn : a.length = n) (h : old.length = new.length) :
    patch (a ++ old ++ b) n new = a ++ new ++ b := by
  have hdrop : (a ++ old ++ b).drop (n + new.length) = b := by
    refine List.drop_left' ?_
    rw [List.length_append, hn, h]
  rw [patch, hdrop, List.append_assoc a old b, List.take_left' hn]

/-! ### What sealing changes -/

/-- The same TLV but for the value of an Authentication TLV. -/
def Tlv.Resealed (t u : Tlv) : Prop :=
  u = t ∨ t.typeCode = 10 ∧ u.typeCode = 10 ∧ t.encodeValue ≠ [] ∧ u.encodeValue.length = t.encodeValue.length

theorem Tlv.resealed_refl (t : Tlv) : t.Resealed t := Or.inl rfl

/-- An Authentication TLV whose value differs only beyond its first octet. -/
theorem Tlv.exists_resealed {t : Tlv} {h : UInt8} {old new : List UInt8} (ht : t.typeCode = 10)
    (hv : t.encodeValue = h :: old) (hlen : new.length = old.length) :
    ∃ u : Tlv, u.typeCode = 10 ∧ u.encodeValue = h :: new ∧ t.Resealed u := by
  have hother : ∀ u : Tlv, u.typeCode = 10 → u.encodeValue = h :: new → t.Resealed u := by
    intro u hu huv
    exact Or.inr ⟨ht, hu, by rw [hv]; simp, by rw [hv, huv]; simp [hlen]⟩
  cases t with
  | authentication authType data =>
    have htype : authType = h := (List.cons.inj hv).1
    exact ⟨.authentication h new, rfl, rfl, hother _ rfl rfl⟩
  | unknown typ value => exact ⟨.unknown typ (h :: new), ht, rfl, hother _ ht rfl⟩
  | _ => simp [Tlv.typeCode] at ht

theorem fletcher16_ignores (p t : List UInt8) (a b c d : UInt8) :
    fletcher16 (p ++ a :: b :: t) p.length = fletcher16 (p ++ c :: d :: t) p.length := by
  have hzeroed : ∀ x y : UInt8, ((p ++ x :: y :: t).set p.length 0).set (p.length + 1) 0 = p ++ 0 :: 0 :: t := by
    intro x y
    simp
  simp only [fletcher16, Ospf.fletcher16, hzeroed]

def PduBody.withTlvs (b : PduBody) (tlvs : List Tlv) : PduBody :=
  match b with
  | .lanHello h => .lanHello { h with tlvs }
  | .p2pHello h => .p2pHello { h with tlvs }
  | .lsp l => .lsp { l with tlvs }
  | .csnp c => .csnp { c with tlvs }
  | .psnp p => .psnp { p with tlvs }

@[simp] theorem PduBody.tlvs_withTlvs (b : PduBody) (tlvs : List Tlv) : (b.withTlvs tlvs).tlvs = tlvs := by
  cases b <;> rfl

@[simp] theorem PduBody.received_withTlvs (b : PduBody) (ts : List Tlv) (c : UInt16) (us : List Tlv) :
    (b.withTlvs ts).received c us = b.received c us := by
  cases b <;> rfl

theorem PduBody.withTlvs_self (b : PduBody) : b.withTlvs b.tlvs = b := by
  cases b <;> rfl

namespace Pdu

def withTlvs (p : Pdu) (tlvs : List Tlv) : Pdu := { p with body := p.body.withTlvs tlvs }

@[simp] theorem pduType_withTlvs (p : Pdu) (tlvs : List Tlv) : (p.withTlvs tlvs).pduType = p.pduType := by
  unfold pduType withTlvs PduBody.withTlvs
  cases p.body <;> rfl

@[simp] theorem commonHeader_withTlvs (p : Pdu) (tlvs : List Tlv) :
    (p.withTlvs tlvs).commonHeader = p.commonHeader := by
  rw [commonHeader, pduType_withTlvs]
  rfl

theorem fixedFields_withTlvs (b : PduBody) (tlvs : List Tlv) (total : ℕ) :
    fixedFields (b.withTlvs tlvs) total = fixedFields b total := by
  cases b <;> rfl

theorem octets_withTlvs (p : Pdu) {ts : List Tlv} (hlen : (encodeAll ts).length = (encodeAll p.body.tlvs).length) :
    (p.withTlvs ts).octets = p.commonHeader ++
      fixedFields p.body (p.pduType.fixedHeaderLen + (encodeAll p.body.tlvs).length) ++ encodeAll ts := by
  have hbody : (p.withTlvs ts).body = p.body.withTlvs ts := rfl
  rw [octets, commonHeader_withTlvs, pduType_withTlvs, hbody, PduBody.tlvs_withTlvs, fixedFields_withTlvs, hlen]

theorem getElem?_commonHeader (p : Pdu) (r : List UInt8) : (p.commonHeader ++ r)[4]? = some p.pduType.asU8 := rfl

theorem isLsp_commonHeader (p : Pdu) (r : List UInt8) :
    isLsp (p.commonHeader ++ r) = true ↔ ∃ l, p.body = .lsp l := by
  rw [isLsp, getElem?_commonHeader, pduType]
  cases p.body with
  | lanHello h => cases hl : h.level <;> simp [levelType, IsLevel.hasL1, IsLevel.hasL2, PduType.asU8, hl]
  | p2pHello h => simp [PduType.asU8]
  | lsp l => cases hl : l.level <;> simp [levelType, IsLevel.hasL1, IsLevel.hasL2, PduType.asU8, hl]
  | csnp c => cases hl : c.level <;> simp [levelType, IsLevel.hasL1, IsLevel.hasL2, PduType.asU8, hl]
  | psnp s => cases hl : s.level <;> simp [levelType, IsLevel.hasL1, IsLevel.hasL2, PduType.asU8, hl]

/-- An encoded PDU ends in its TLVs. With other TLVs of the same length in their place, it is the encoding of
the PDU with these, once the checksum of an LSP is computed anew. -/
theorem encode_eq_append (p : Pdu) : ∃ fields, fields.length + 8 = p.pduType.fixedHeaderLen ∧
    ∀ ts, (encodeAll ts).length = (encodeAll p.body.tlvs).length →
      (p.withTlvs ts).encode =
        (let pdu := p.commonHeader ++ (fields ++ encodeAll ts)
         if isLsp pdu then pdu.take 12 ++ fletcher16 (pdu.drop 12) 12 else pdu) ∧
      (ts = p.body.tlvs → p.encode = p.commonHeader ++ (fields ++ encodeAll ts)) := by
  have hself : p.withTlvs p.body.tlvs = p := by rw [withTlvs, PduBody.withTlvs_self]
  have hfixed := length_fixedFields p (p.pduType.fixedHeaderLen + (encodeAll p.body.tlvs).length)
  by_cases hlsp : ∃ l, p.body = .lsp l
  · obtain ⟨l, hl⟩ := hlsp
    let total := p.pduType.fixedHeaderLen + (encodeAll p.body.tlvs).length
    let lead := digits 2 total ++ digits 2 l.remainingLifetime.toNat
    let cover := l.lspId.encode ++ digits 4 l.sequenceNumber.toNat
    have hlead : (p.commonHeader ++ lead).length = 12 := by simp [lead, commonHeader]
    have hcover : cover.length = 12 := by simp [cover]
    obtain ⟨x, y, hsum, -⟩ := fletcher16_spec cover (lspFlags l :: encodeAll p.body.tlvs) 0 0
    rw [hcover] at hsum
    have henc : ∀ ts, (encodeAll ts).length = (encodeAll p.body.tlvs).length → (p.withTlvs ts).encode =
        p.commonHeader ++ lead ++ fletcher16 (cover ++ 0 :: 0 :: lspFlags l :: encodeAll ts) 12 := by
      intro ts hts
      have hoctets : (p.withTlvs ts).octets =
          p.commonHeader ++ lead ++ (cover ++ 0 :: 0 :: lspFlags l :: encodeAll ts) := by
        rw [octets_withTlvs p hts]
        conv_lhs => rw [hl]
        simp [fixedFields, lead, cover, total, hl]
      have hbody : (p.withTlvs ts).body = .lsp { l with tlvs := ts } := by rw [withTlvs, hl, PduBody.withTlvs]
      rw [encode, hbody]
      change (p.withTlvs ts).octets.take 12 ++ fletcher16 ((p.withTlvs ts).octets.drop 12) 12 = _
      rw [hoctets, List.take_left' hlead, List.drop_left' hlead]
    refine ⟨lead ++ (cover ++ [x, y, lspFlags l]), ?_, ?_⟩
    · have hpt : p.pduType = levelType l.level .l1Lsp .l2Lsp := by rw [pduType, hl]
      have htype : p.pduType.fixedHeaderLen = 27 := by
        rw [hpt]
        cases l.level <;> rfl
      simp [htype, lead, hcover]
    · intro ts hts
      have hpdu : p.commonHeader ++ (lead ++ (cover ++ [x, y, lspFlags l]) ++ encodeAll ts) =
          p.commonHeader ++ lead ++ (cover ++ x :: y :: lspFlags l :: encodeAll ts) := by simp
      constructor
      · dsimp only
        rw [if_pos ((isLsp_commonHeader p _).mpr ⟨l, hl⟩), hpdu, List.take_left' hlead, List.drop_left' hlead,
          henc ts hts, ← hcover, fletcher16_ignores cover _ 0 0 x y]
      · intro hself'
        have hplain := henc p.body.tlvs rfl
        rw [hself, hsum] at hplain
        rw [hself', ← hself', hpdu, hself']
        exact hplain
  · have hplain : ∀ ts, (p.withTlvs ts).encode = (p.withTlvs ts).octets := by
      intro ts
      rw [encode]
      cases hb : p.body with
      | lsp l => exact absurd ⟨l, hb⟩ hlsp
      | _ => simp [withTlvs, hb, PduBody.withTlvs]
    refine ⟨_, hfixed, ?_⟩
    intro ts hts
    constructor
    · dsimp only
      rw [if_neg (by rw [isLsp_commonHeader]; exact hlsp), hplain, octets_withTlvs p hts, List.append_assoc]
    · intro hself'
      subst hself'
      have h := hplain p.body.tlvs
      rw [hself] at h
      rw [h, octets, List.append_assoc]

end Pdu

@[simp] theorem encodeAll_append (a b : List Tlv) : encodeAll (a ++ b) = encodeAll a ++ encodeAll b :=
  List.flatMap_append

@[simp] theorem encodeAll_cons (t : Tlv) (ts : List Tlv) : encodeAll (t :: ts) = t.encode ++ encodeAll ts := rfl

/-- The walk over encoded TLVs stops at one of them. -/
theorem exists_of_authTlvFrom {fuel start len : ℕ} {hdr : List UInt8} {tlvs : List Tlv}
    (h : authTlvFrom (hdr ++ encodeAll tlvs) fuel hdr.length = some (start, len)) :
    ∃ pre t post, tlvs = pre ++ t :: post ∧ t.typeCode = 10 ∧ start = (hdr ++ encodeAll pre).length + 2 ∧
      len = (t.encodeValue.take 255).length ∧ 1 ≤ len := by
  induction fuel generalizing hdr tlvs with
  | zero => simp [authTlvFrom] at h
  | succ fuel ih =>
    cases tlvs with
    | nil => simp [authTlvFrom, encodeAll] at h
    | cons t rest =>
      obtain ⟨value, hvalue⟩ : ∃ value, t.encodeValue.take 255 = value := ⟨_, rfl⟩
      have hbuf : hdr ++ encodeAll (t :: rest) =
          hdr ++ t.typeCode :: UInt8.ofNat value.length :: (value ++ encodeAll rest) := by
        rw [← hvalue]
        rfl
      have hlen : (UInt8.ofNat value.length).toNat = value.length := by
        rw [← hvalue]
        exact UInt8.toNat_ofNat_of_lt' (length_encode_take t)
      have h0 : (hdr ++ encodeAll (t :: rest)).getD hdr.length 0 = t.typeCode := by
        rw [hbuf]
        simp [List.getD_eq_getElem?_getD]
      have h1 : ((hdr ++ encodeAll (t :: rest)).getD (hdr.length + 1) 0).toNat = value.length := by
        rw [hbuf]
        simpa [List.getD_eq_getElem?_getD] using hlen
      have hnext : (hdr ++ t.encode).length = hdr.length + 2 + value.length := by
        rw [List.length_append, Tlv.encode, List.length_cons, List.length_cons, hvalue]
        omega
      rw [authTlvFrom, h0, h1] at h
      split_ifs at h with htooShort hcut hfound
      · obtain ⟨rfl, rfl⟩ : hdr.length + 2 = start ∧ value.length = len := by simpa using h
        exact ⟨[], t, rest, rfl, hfound.1, by simp [encodeAll], by rw [hvalue], hfound.2⟩
      · rw [← hnext, encodeAll_cons, ← List.append_assoc] at h
        obtain ⟨pre, u, post, rfl, hu, hstart, hlen', hpos⟩ := ih h
        exact ⟨t :: pre, u, post, rfl, hu, by rw [hstart, encodeAll_cons, List.append_assoc], hlen', hpos⟩

namespace IsisAuth

theorem length_digest {a : IsisAuth} {l : Layout} {pdu d : List UInt8} {start : ℕ} (hl : a.layout = some l)
    (h : a.digest l pdu start = some d) : d.length = l.digestLen := by
  cases a with
  | cleartext _ => simp [layout] at hl
  | hmacMd5 mac =>
    have hlayout := Option.some.inj hl
    rw [digest] at h
    rw [← Option.some.inj h, ← hlayout, length_digits]
  | hmacSha256 mac keyId =>
    have hlayout := Option.some.inj hl
    rw [digest] at h
    rw [← Option.some.inj h, ← hlayout, length_digits]

/-- The key ID of a scheme that has one goes over the octets before the digest. -/
theorem patchKeyId_append {a : IsisAuth} {l : Layout} (hl : a.layout = some l) {lead keyId rest : List UInt8}
    (hkey : keyId.length = l.keyIdLen) {start : ℕ} (hlead : lead.length = start + 1) :
    ∃ keyId', keyId'.length = l.keyIdLen ∧ a.patchKeyId (lead ++ keyId ++ rest) start = lead ++ keyId' ++ rest := by
  cases a with
  | cleartext _ => simp [layout] at hl
  | hmacMd5 mac => exact ⟨keyId, hkey, rfl⟩
  | hmacSha256 mac k =>
    have hlayout := Option.some.inj hl
    refine ⟨digits 2 k.toNat, by rw [length_digits, ← hlayout], patch_append hlead ?_⟩
    rw [hkey, ← hlayout, length_digits]

/-- Sealing overwrites what follows the type octet of one Authentication TLV. -/
theorem sealPdu_cases (a : IsisAuth) {lead value rest : List UInt8}
    (hrange : authTlvRange (lead ++ value ++ rest) = some (lead.length, value.length)) :
    a.sealPdu (lead ++ value ++ rest) = lead ++ value ++ rest ∨ ∃ typ old new, value = typ :: old ∧
      new.length = old.length ∧ value.length ≤ 35 ∧ a.sealPdu (lead ++ value ++ rest) =
        (let pdu := lead ++ typ :: new ++ rest
         if isLsp pdu then pdu.take 12 ++ fletcher16 (pdu.drop 12) 12 else pdu) := by
  unfold sealPdu
  cases hl : a.layout with
  | none => exact Or.inl rfl
  | some l =>
    dsimp only
    cases hstart : a.cryptoValueStart l (lead ++ value ++ rest) with
    | none => exact Or.inl rfl
    | some start =>
      right
      rw [cryptoValueStart, hrange] at hstart
      dsimp only at hstart ⊢
      split_ifs at hstart with hscheme
      obtain rfl : lead.length = start := Option.some.inj hstart
      have hsmall : l.keyIdLen + l.digestLen ≤ 34 := by
        cases a with
        | cleartext _ => simp [layout] at hl
        | hmacMd5 mac => rw [← Option.some.inj hl]; decide
        | hmacSha256 mac k => rw [← Option.some.inj hl]; decide
      obtain ⟨typ, old, rfl⟩ : ∃ typ old, value = typ :: old := by
        cases value with
        | nil => simp at hscheme; omega
        | cons typ old => exact ⟨typ, old, rfl⟩
      have hlen : old.length = l.keyIdLen + l.digestLen := by
        have := hscheme.1
        simp only [List.length_cons] at this
        omega
      have hsplit : lead ++ typ :: old ++ rest =
          (lead ++ [typ]) ++ old.take l.keyIdLen ++ (old.drop l.keyIdLen ++ rest) := by
        rw [← List.append_assoc, List.append_assoc (lead ++ [typ]), List.take_append_drop]
        simp
      obtain ⟨keyId, hkey, hpatched⟩ := @patchKeyId_append a l hl (lead ++ [typ]) (old.take l.keyIdLen)
        (old.drop l.keyIdLen ++ rest) (by rw [List.length_take]; omega) lead.length (by simp)
      rw [← hsplit] at hpatched
      rw [hpatched]
      cases hd : a.digest l ((lead ++ [typ]) ++ keyId ++ (old.drop l.keyIdLen ++ rest)) lead.length with
      | none =>
        cases a with
        | cleartext _ => simp [layout] at hl
        | _ => simp [digest] at hd
      | some d =>
        have hdlen := length_digest hl hd
        refine ⟨typ, old, keyId ++ d, rfl, by simp [hkey, hdlen, hlen], by simp only [List.length_cons]; omega, ?_⟩
        have hfinal : patch ((lead ++ [typ]) ++ keyId ++ (old.drop l.keyIdLen ++ rest)) (lead.length + 1 + l.keyIdLen) d =
            lead ++ typ :: (keyId ++ d) ++ rest := by
          rw [← List.append_assoc, patch_append (by simp [hkey]; omega) (by rw [List.length_drop, hdlen]; omega)]
          simp
        dsimp only
        rw [hfinal]

theorem sealPdu_of_authTlvRange_eq_none (a : IsisAuth) {pdu : List UInt8} (h : authTlvRange pdu = none) :
    a.sealPdu pdu = pdu := by
  unfold sealPdu cryptoValueStart
  rw [h]
  cases a.layout <;> rfl

/-- A sealed PDU is the encoding of the PDU with another digest in its Authentication TLV. -/
theorem sealPdu_encode (a : IsisAuth) (p : Pdu) :
    ∃ ts, List.Forall₂ Tlv.Resealed p.body.tlvs ts ∧ a.sealPdu p.encode = (p.withTlvs ts).encode := by
  obtain ⟨fields, hfields, hall⟩ := p.encode_eq_append
  have henc : p.encode = p.commonHeader ++ fields ++ encodeAll p.body.tlvs := by
    rw [(hall p.body.tlvs rfl).2 rfl, List.append_assoc]
  have hsame : a.sealPdu p.encode = p.encode →
      ∃ ts, List.Forall₂ Tlv.Resealed p.body.tlvs ts ∧ a.sealPdu p.encode = (p.withTlvs ts).encode := by
    intro h
    refine ⟨p.body.tlvs, List.forall₂_same.mpr fun t _ => t.resealed_refl, ?_⟩
    rw [h, Pdu.withTlvs, PduBody.withTlvs_self]
  cases hrange : authTlvRange p.encode with
  | none => exact hsame (a.sealPdu_of_authTlvRange_eq_none hrange)
  | some r =>
    obtain ⟨start, len⟩ := r
    have hoff : p.encode[1]? = some (UInt8.ofNat p.pduType.fixedHeaderLen) := by
      rw [henc]
      rfl
    have hhdr : (UInt8.ofNat p.pduType.fixedHeaderLen).toNat = (p.commonHeader ++ fields).length := by
      rw [List.length_append, show p.commonHeader.length = 8 from rfl, Nat.add_comm, hfields]
      cases p.pduType <;> rfl
    have hfrom : authTlvFrom (p.commonHeader ++ fields ++ encodeAll p.body.tlvs) p.encode.length
        (p.commonHeader ++ fields).length = some (start, len) := by
      rw [authTlvRange, hoff] at hrange
      rw [← hhdr, ← henc]
      exact hrange
    obtain ⟨pre, t, post, htlvs, htype, hstart, hlen, -⟩ := exists_of_authTlvFrom hfrom
    let lead := p.commonHeader ++ fields ++ encodeAll pre ++ [10, UInt8.ofNat (t.encodeValue.take 255).length]
    have hpdu : p.encode = lead ++ t.encodeValue.take 255 ++ encodeAll post := by
      rw [henc, htlvs]
      simp [lead, Tlv.encode, htype]
    have hrange' : authTlvRange (lead ++ t.encodeValue.take 255 ++ encodeAll post) =
        some (lead.length, (t.encodeValue.take 255).length) := by
      rw [← hpdu, hrange, hstart, hlen]
      simp [lead]
      omega
    rcases a.sealPdu_cases hrange' with h | ⟨typ, old, new, hvalue, hnew, hshort, h⟩
    · rw [← hpdu] at h
      exact hsame h
    · have hwhole : t.encodeValue = typ :: old := by
        rw [← hvalue, List.take_of_length_le]
        rw [List.length_take] at hshort
        omega
      obtain ⟨u, hutype, huvalue, hu⟩ := Tlv.exists_resealed htype hwhole hnew
      have hlenu : u.encodeValue.length = t.encodeValue.length := by
        rw [huvalue, hwhole]
        simp [hnew]
      have hcut : u.encodeValue.take 255 = typ :: new := by
        rw [← huvalue, List.take_of_length_le]
        rw [List.length_take] at hshort
        omega
      refine ⟨pre ++ u :: post, ?_, ?_⟩
      · rw [htlvs]
        refine List.rel_append (List.forall₂_same.mpr fun t _ => t.resealed_refl) (List.Forall₂.cons hu ?_)
        exact List.forall₂_same.mpr fun t _ => t.resealed_refl
      · have hlength : (encodeAll (pre ++ u :: post)).length = (encodeAll p.body.tlvs).length := by
          rw [htlvs]
          simp [Tlv.encode, hlenu]
        have hresealed : p.commonHeader ++ (fields ++ encodeAll (pre ++ u :: post)) =
            lead ++ typ :: new ++ encodeAll post := by
          simp [lead, Tlv.encode, hutype, hcut, hvalue, hnew]
        rw [(hall _ hlength).1, hresealed, hpdu, h]

end IsisAuth

theorem encodePdu_eq (auth : Option IsisAuth) (p : Pdu) :
    ∃ ts, List.Forall₂ Tlv.Resealed p.body.tlvs ts ∧ encodePdu auth p = (p.withTlvs ts).encode := by
  cases auth with
  | none =>
    refine ⟨p.body.tlvs, List.forall₂_same.mpr fun t _ => t.resealed_refl, ?_⟩
    rw [encodePdu, Pdu.withTlvs, PduBody.withTlvs_self]
  | some a => exact a.sealPdu_encode p

end Wren.Isis
