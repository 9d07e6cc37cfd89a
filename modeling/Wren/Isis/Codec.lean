import Wren.Isis.Pdu

/-! What `Pdu.decode` makes of an encoded PDU. -/

namespace Wren.Isis
open Octets

/-- A TLV as it is read back: its value cut off at what a length octet can say. -/
def Tlv.cut (t : Tlv) : Option Tlv := Tlv.decodeOne t.typeCode (t.encodeValue.take 255)

/-- The body of a PDU as it is read back. The checksum of an LSP is what was computed for it. -/
def PduBody.received (b : PduBody) (checksum : UInt16) (tlvs : List Tlv) : PduBody :=
  match b with
  | .lanHello h => .lanHello { h with level := if h.level = .l2 then .l2 else .l1, priority := h.priority &&& 0x7f, tlvs }
  | .p2pHello h => .p2pHello { h with tlvs }
  | .lsp l => .lsp { l with
      level := if l.level = .l2 then .l2 else .l1, checksum, attached := l.attached &&& 0x0f
      isType := if l.isType = .l1 then .l1 else .l2, tlvs }
  | .csnp c => .csnp { c with level := if c.level = .l2 then .l2 else .l1, tlvs }
  | .psnp p => .psnp { p with level := if p.level = .l2 then .l2 else .l1, tlvs }

@[simp] theorem PduBody.tlvs_received (b : PduBody) (checksum : UInt16) (tlvs : List Tlv) :
    (b.received checksum tlvs).tlvs = tlvs := by
  cases b <;> rfl

theorem levelType_eq (level : IsLevel) (l1 l2 : PduType) :
    levelType level l1 l2 = if level = .l2 then l2 else l1 := by
  cases level <;> rfl

theorem fromBits_bits (l : IsLevel) : IsLevel.fromBits l.bits = l := by
  cases l <;> decide

/-! ### Fields of a fixed size, octet by octet -/

theorem exists_digits2 (n : ℕ) (hn : n < 65536) : ∃ p q, digits 2 n = [p, q] ∧ value [p, q] = n := by
  have hlen := length_digits 2 n
  have hval : value (digits 2 n) = n := value_digits_of_lt (by simpa using hn)
  match hd : digits 2 n, hlen, hval with
  | [p, q], _, hval => exact ⟨p, q, rfl, hval⟩

theorem exists_digits4 (n : ℕ) (hn : n < 4294967296) :
    ∃ p q r s, digits 4 n = [p, q, r, s] ∧ value [p, q, r, s] = n := by
  have hlen := length_digits 4 n
  have hval : value (digits 4 n) = n := value_digits_of_lt (by simpa using hn)
  match hd : digits 4 n, hlen, hval with
  | [p, q, r, s], _, hval => exact ⟨p, q, r, s, rfl, hval⟩

theorem exists_digits6 (a : BitVec 48) :
    ∃ p q r s t u, digits 6 a.toNat = [p, q, r, s, t, u] ∧ BitVec.ofNat 48 (value [p, q, r, s, t, u]) = a := by
  have hlen := length_digits 6 a.toNat
  have hval := ofNat_value_digits (n := 6) a (by norm_num)
  match hd : digits 6 a.toNat, hlen, hval with
  | [p, q, r, s, t, u], _, hval => exact ⟨p, q, r, s, t, u, rfl, hval⟩

/-! ### PDUs -/

namespace Pdu

theorem decode_of_header {pt : PduType} {mx : UInt8} {rest : List UInt8}
    (hfix : pt.fixedHeaderLen ≤ rest.length + 8)
    (hstated : (u16At (intradomainDiscriminator :: UInt8.ofNat pt.fixedHeaderLen :: protocolIdExtension :: 0 ::
      pt.asU8 :: version :: 0 :: mx :: rest) pt.lenOff).toNat = rest.length + 8) :
    let buf := intradomainDiscriminator :: UInt8.ofNat pt.fixedHeaderLen :: protocolIdExtension :: 0 ::
      pt.asU8 :: version :: 0 :: mx :: rest
    decode buf = match decodeAll (buf.drop pt.fixedHeaderLen) with
      | none => .error .badTlv
      | some tlvs => (decodeBody buf pt buf.length tlvs).map fun body => ⟨mx, body⟩ := by
  intro buf
  have hlen : buf.length = rest.length + 8 := rfl
  have hstated' : (u16At buf pt.lenOff).toNat = buf.length := hstated
  have h0 : buf.getD 0 0 = intradomainDiscriminator := rfl
  have h2 : buf.getD 2 0 = protocolIdExtension := rfl
  have h3 : buf.getD 3 0 = 0 := rfl
  have h4 : buf.getD 4 0 = pt.asU8 := rfl
  have h5 : buf.getD 5 0 = version := rfl
  have h7 : buf.getD 7 0 = mx := rfl
  unfold decode
  rw [if_neg (by rw [hlen, commonHeaderLen]; omega), h0, h2, h3, h4, h5, h7, PduType.fromU8_asU8]
  rw [if_neg (by simp), if_neg (by simp), if_neg (by simp)]
  dsimp only
  rewrite [hstated', if_neg (by simp), if_neg (by omega), if_neg (by omega), List.take_length]
  rfl

theorem length_fixedFields (p : Pdu) (total : ℕ) :
    (fixedFields p.body total).length + 8 = p.pduType.fixedHeaderLen := by
  unfold pduType fixedFields
  cases p.body with
  | lanHello h => cases hl : h.level <;> simp [levelType, IsLevel.hasL1, IsLevel.hasL2, PduType.fixedHeaderLen, hl]
  | p2pHello h => simp [PduType.fixedHeaderLen]
  | lsp l => cases hl : l.level <;> simp [levelType, IsLevel.hasL1, IsLevel.hasL2, PduType.fixedHeaderLen, hl]
  | csnp c => cases hl : c.level <;> simp [levelType, IsLevel.hasL1, IsLevel.hasL2, PduType.fixedHeaderLen, hl]
  | psnp s => cases hl : s.level <;> simp [levelType, IsLevel.hasL1, IsLevel.hasL2, PduType.fixedHeaderLen, hl]

/-- Where the length field says what the PDU is long, the TLVs decide about the rest. -/
theorem decode_of_octets {p : Pdu} {fields tlvs : List UInt8} (hfields : fields.length + 8 = p.pduType.fixedHeaderLen)
    (hstated : (u16At (p.commonHeader ++ fields ++ tlvs) p.pduType.lenOff).toNat =
      p.pduType.fixedHeaderLen + tlvs.length) :
    decode (p.commonHeader ++ fields ++ tlvs) = match decodeAll tlvs with
      | none => .error .badTlv
      | some ts => (decodeBody (p.commonHeader ++ fields ++ tlvs) p.pduType (p.commonHeader ++ fields ++ tlvs).length
          ts).map fun body => ⟨p.maxAreaAddresses, body⟩ := by
  have hbuf : p.commonHeader ++ fields ++ tlvs = intradomainDiscriminator :: UInt8.ofNat p.pduType.fixedHeaderLen ::
      protocolIdExtension :: 0 :: p.pduType.asU8 :: version :: 0 :: p.maxAreaAddresses :: (fields ++ tlvs) := by
    simp [commonHeader]
  have hlen : (fields ++ tlvs).length + 8 = p.pduType.fixedHeaderLen + tlvs.length := by
    rw [List.length_append]
    omega
  have hdrop : (p.commonHeader ++ fields ++ tlvs).drop p.pduType.fixedHeaderLen = tlvs := by
    refine List.drop_left' ?_
    rw [List.length_append, ← hfields]
    simp [commonHeader]
    omega
  rw [hbuf] at hstated hdrop ⊢
  rw [← hlen] at hstated
  rw [decode_of_header (by omega) hstated, hdrop]

theorem toNat_u16 {n : ℕ} {a b : UInt8} (hn : n < 65536) (h : value [a, b] = n) :
    (UInt16.ofNat (value [a, b])).toNat = n := by
  rw [h]
  exact Nat.mod_eq_of_lt hn

theorem decodeBody_lanHello (buf : List UInt8) (level : IsLevel) (n : ℕ) (tlvs : List Tlv) :
    decodeBody buf (levelType level .l1LanHello .l2LanHello) n tlvs = .ok (.lanHello
      { level := if level = .l2 then .l2 else .l1, circuitType := .fromBits (buf.getD 8 0), sourceId := sysId buf 9
        holdingTime := u16At buf 15, priority := buf.getD 19 0 &&& 0x7f, lanId := (sysId buf 20, buf.getD 26 0), tlvs }) := by
  cases level <;> rfl

theorem received_lanHello (p : Pdu) (h : LanHello) (hp : p.body = .lanHello h) (total : ℕ) (htotal : total < 65536)
    (tlvs : List UInt8) :
    (u16At (p.commonHeader ++ fixedFields p.body total ++ tlvs) p.pduType.lenOff).toNat = total ∧
      ∀ n ts, decodeBody (p.commonHeader ++ fixedFields p.body total ++ tlvs) p.pduType n ts =
        .ok (p.body.received 0 ts) := by
  obtain ⟨s0, s1, s2, s3, s4, s5, hs, hsv⟩ := exists_digits6 h.sourceId
  obtain ⟨l0, l1, l2, l3, l4, l5, hl, hlv⟩ := exists_digits6 h.lanId.1
  obtain ⟨t0, t1, ht, htv⟩ := exists_digits2 h.holdingTime.toNat h.holdingTime.toNat_lt
  obtain ⟨n0, n1, hn, hnv⟩ := exists_digits2 total htotal
  have hpt : p.pduType = levelType h.level .l1LanHello .l2LanHello := by rw [pduType, hp]
  have hoff : p.pduType.lenOff = 17 := by
    rw [hpt]
    cases h.level <;> rfl
  have hbuf : p.commonHeader ++ fixedFields p.body total ++ tlvs = p.commonHeader ++
      (h.circuitType.bits :: s0 :: s1 :: s2 :: s3 :: s4 :: s5 :: t0 :: t1 :: n0 :: n1 :: (h.priority &&& 0x7f) ::
        l0 :: l1 :: l2 :: l3 :: l4 :: l5 :: h.lanId.2 :: tlvs) := by
    rw [hp, fixedFields, hs, hl, ht, hn]
    simp
  constructor
  · rw [hbuf, hoff]
    exact toNat_u16 htotal hnv
  · intro n ts
    have hsource : sysId (p.commonHeader ++ fixedFields p.body total ++ tlvs) 9 = h.sourceId := by
      rw [hbuf]
      exact hsv
    have hlan : sysId (p.commonHeader ++ fixedFields p.body total ++ tlvs) 20 = h.lanId.1 := by
      rw [hbuf]
      exact hlv
    have htime : u16At (p.commonHeader ++ fixedFields p.body total ++ tlvs) 15 = h.holdingTime := by
      rw [hbuf]
      exact UInt16.toNat_inj.mp (toNat_u16 h.holdingTime.toNat_lt htv)
    have h8 : (p.commonHeader ++ fixedFields p.body total ++ tlvs).getD 8 0 = h.circuitType.bits := by rw [hbuf]; rfl
    have h19 : (p.commonHeader ++ fixedFields p.body total ++ tlvs).getD 19 0 = h.priority &&& 0x7f := by rw [hbuf]; rfl
    have h26 : (p.commonHeader ++ fixedFields p.body total ++ tlvs).getD 26 0 = h.lanId.2 := by rw [hbuf]; rfl
    rw [hpt, decodeBody_lanHello, hsource, hlan, htime, h8, h19, h26, fromBits_bits, UInt8.and_assoc, UInt8.and_self,
      hp, PduBody.received]

theorem received_p2pHello (p : Pdu) (h : P2pHello) (hp : p.body = .p2pHello h) (total : ℕ) (htotal : total < 65536)
    (tlvs : List UInt8) :
    (u16At (p.commonHeader ++ fixedFields p.body total ++ tlvs) p.pduType.lenOff).toNat = total ∧
      ∀ n ts, decodeBody (p.commonHeader ++ fixedFields p.body total ++ tlvs) p.pduType n ts =
        .ok (p.body.received 0 ts) := by
  obtain ⟨s0, s1, s2, s3, s4, s5, hs, hsv⟩ := exists_digits6 h.sourceId
  obtain ⟨t0, t1, ht, htv⟩ := exists_digits2 h.holdingTime.toNat h.holdingTime.toNat_lt
  obtain ⟨n0, n1, hn, hnv⟩ := exists_digits2 total htotal
  have hpt : p.pduType = .p2pHello := by rw [pduType, hp]
  have hbuf : p.commonHeader ++ fixedFields p.body total ++ tlvs = p.commonHeader ++
      (h.circuitType.bits :: s0 :: s1 :: s2 :: s3 :: s4 :: s5 :: t0 :: t1 :: n0 :: n1 :: h.localCircuitId :: tlvs) := by
    rw [hp, fixedFields, hs, ht, hn]
    simp
  constructor
  · rw [hbuf, hpt]
    exact toNat_u16 htotal hnv
  · intro n ts
    have hsource : sysId (p.commonHeader ++ fixedFields p.body total ++ tlvs) 9 = h.sourceId := by
      rw [hbuf]
      exact hsv
    have htime : u16At (p.commonHeader ++ fixedFields p.body total ++ tlvs) 15 = h.holdingTime := by
      rw [hbuf]
      exact UInt16.toNat_inj.mp (toNat_u16 h.holdingTime.toNat_lt htv)
    have h8 : (p.commonHeader ++ fixedFields p.body total ++ tlvs).getD 8 0 = h.circuitType.bits := by rw [hbuf]; rfl
    have h19 : (p.commonHeader ++ fixedFields p.body total ++ tlvs).getD 19 0 = h.localCircuitId := by rw [hbuf]; rfl
    rw [hpt, decodeBody, hsource, htime, h8, h19, fromBits_bits, hp, PduBody.received]

theorem decodeBody_psnp (buf : List UInt8) (level : IsLevel) (n : ℕ) (tlvs : List Tlv) :
    decodeBody buf (levelType level .l1Psnp .l2Psnp) n tlvs = .ok (.psnp
      { level := if level = .l2 then .l2 else .l1, sourceId := (sysId buf 10, buf.getD 16 0), tlvs }) := by
  cases level <;> rfl

theorem received_psnp (p : Pdu) (s : Psnp) (hp : p.body = .psnp s) (total : ℕ) (htotal : total < 65536)
    (tlvs : List UInt8) :
    (u16At (p.commonHeader ++ fixedFields p.body total ++ tlvs) p.pduType.lenOff).toNat = total ∧
      ∀ n ts, decodeBody (p.commonHeader ++ fixedFields p.body total ++ tlvs) p.pduType n ts =
        .ok (p.body.received 0 ts) := by
  obtain ⟨s0, s1, s2, s3, s4, s5, hs, hsv⟩ := exists_digits6 s.sourceId.1
  obtain ⟨n0, n1, hn, hnv⟩ := exists_digits2 total htotal
  have hpt : p.pduType = levelType s.level .l1Psnp .l2Psnp := by rw [pduType, hp]
  have hoff : p.pduType.lenOff = 8 := by
    rw [hpt]
    cases s.level <;> rfl
  have hbuf : p.commonHeader ++ fixedFields p.body total ++ tlvs = p.commonHeader ++
      (n0 :: n1 :: s0 :: s1 :: s2 :: s3 :: s4 :: s5 :: s.sourceId.2 :: tlvs) := by
    rw [hp, fixedFields, hs, hn]
    simp
  constructor
  · rw [hbuf, hoff]
    exact toNat_u16 htotal hnv
  · intro n ts
    have hsource : sysId (p.commonHeader ++ fixedFields p.body total ++ tlvs) 10 = s.sourceId.1 := by
      rw [hbuf]
      exact hsv
    have h16 : (p.commonHeader ++ fixedFields p.body total ++ tlvs).getD 16 0 = s.sourceId.2 := by rw [hbuf]; rfl
    rw [hpt, decodeBody_psnp, hsource, h16, hp, PduBody.received]

theorem decodeBody_csnp {buf : List UInt8} {first last : LspId} (h1 : LspId.decode ((buf.drop 17).take 8) = some first)
    (h2 : LspId.decode ((buf.drop 25).take 8) = some last) (level : IsLevel) (n : ℕ) (tlvs : List Tlv) :
    decodeBody buf (levelType level .l1Csnp .l2Csnp) n tlvs = .ok (.csnp
      { level := if level = .l2 then .l2 else .l1, sourceId := (sysId buf 10, buf.getD 16 0), startLspId := first
        endLspId := last, tlvs }) := by
  cases level <;> simp [levelType, IsLevel.hasL1, IsLevel.hasL2, decodeBody, h1, h2, levelOf] <;> rfl

theorem received_csnp (p : Pdu) (c : Csnp) (hp : p.body = .csnp c) (total : ℕ) (htotal : total < 65536)
    (tlvs : List UInt8) :
    (u16At (p.commonHeader ++ fixedFields p.body total ++ tlvs) p.pduType.lenOff).toNat = total ∧
      ∀ n ts, decodeBody (p.commonHeader ++ fixedFields p.body total ++ tlvs) p.pduType n ts =
        .ok (p.body.received 0 ts) := by
  obtain ⟨s0, s1, s2, s3, s4, s5, hs, hsv⟩ := exists_digits6 c.sourceId.1
  obtain ⟨n0, n1, hn, hnv⟩ := exists_digits2 total htotal
  have hpt : p.pduType = levelType c.level .l1Csnp .l2Csnp := by rw [pduType, hp]
  have hoff : p.pduType.lenOff = 8 := by
    rw [hpt]
    cases c.level <;> rfl
  have hbuf : p.commonHeader ++ fixedFields p.body total ++ tlvs = p.commonHeader ++
      (n0 :: n1 :: s0 :: s1 :: s2 :: s3 :: s4 :: s5 :: c.sourceId.2 ::
        (c.startLspId.encode ++ (c.endLspId.encode ++ tlvs))) := by
    rw [hp, fixedFields, hs, hn]
    simp
  have hdrop17 : (p.commonHeader ++ fixedFields p.body total ++ tlvs).drop 17 =
      c.startLspId.encode ++ (c.endLspId.encode ++ tlvs) := by
    rw [hbuf]
    rfl
  have hfirst : LspId.decode (((p.commonHeader ++ fixedFields p.body total ++ tlvs).drop 17).take 8) =
      some c.startLspId := by
    rw [hdrop17, List.take_left' (LspId.length_encode _), ← List.append_nil c.startLspId.encode, LspId.decode_encode]
  have hlast : LspId.decode (((p.commonHeader ++ fixedFields p.body total ++ tlvs).drop 25).take 8) =
      some c.endLspId := by
    rw [show 25 = 17 + 8 from rfl, ← List.drop_drop, hdrop17, List.drop_left' (LspId.length_encode _),
      List.take_left' (LspId.length_encode _), ← List.append_nil c.endLspId.encode, LspId.decode_encode]
  constructor
  · rw [hbuf, hoff]
    exact toNat_u16 htotal hnv
  · intro n ts
    have hsource : sysId (p.commonHeader ++ fixedFields p.body total ++ tlvs) 10 = c.sourceId.1 := by
      rw [hbuf]
      exact hsv
    have h16 : (p.commonHeader ++ fixedFields p.body total ++ tlvs).getD 16 0 = c.sourceId.2 := by rw [hbuf]; rfl
    rw [hpt, decodeBody_csnp hfirst hlast, hsource, h16, hp, PduBody.received]

theorem lspFlags_fields (l : Lsp) :
    (lspFlags l &&& 0x80 ≠ 0 ↔ l.partition = true) ∧ (lspFlags l >>> 3) &&& 0x0f = l.attached &&& 0x0f ∧
      (lspFlags l &&& 0x04 ≠ 0 ↔ l.overload = true) ∧
      IsLevel.isTypeFromBits (lspFlags l) = if l.isType = .l1 then .l1 else .l2 := by
  unfold lspFlags
  generalize l.attached = a
  cases l.partition <;> cases l.overload <;> cases l.isType <;> (revert a; decide +kernel)

theorem decodeBody_lsp {buf : List UInt8} {i : LspId} (h : LspId.decode ((buf.drop 12).take 8) = some i)
    (hvalid : fletcher16Valid (buf.drop 12) = true) (level : IsLevel) (tlvs : List Tlv) :
    decodeBody buf (levelType level .l1Lsp .l2Lsp) buf.length tlvs = .ok (.lsp
      { level := if level = .l2 then .l2 else .l1, remainingLifetime := u16At buf 10, lspId := i
        sequenceNumber := UInt32.ofNat (value ((buf.drop 20).take 4)), checksum := u16At buf 24
        partition := buf.getD 26 0 &&& 0x80 ≠ 0, attached := (buf.getD 26 0 >>> 3) &&& 0x0f
        overload := buf.getD 26 0 &&& 0x04 ≠ 0, isType := .isTypeFromBits (buf.getD 26 0), tlvs }) := by
  have hcheck : ¬ (u16At buf 10 ≠ 0 ∧ fletcher16Valid ((buf.take buf.length).drop 12) = false) := by
    rw [List.take_length, hvalid]
    simp
  cases level
  all_goals
    simp only [levelType, IsLevel.hasL1, IsLevel.hasL2, decodeBody, if_neg hcheck, h, levelOf]
    rfl

/-- The checksum of an LSP is in place when it is encoded, and only its two octets are. -/
theorem received_lsp (p : Pdu) (l : Lsp) (hp : p.body = .lsp l)
    (htotal : p.pduType.fixedHeaderLen + (encodeAll p.body.tlvs).length < 65536) :
    ∃ fields c, p.encode = p.commonHeader ++ fields ++ encodeAll p.body.tlvs ∧
      fields.length + 8 = p.pduType.fixedHeaderLen ∧
      (u16At p.encode p.pduType.lenOff).toNat = p.pduType.fixedHeaderLen + (encodeAll p.body.tlvs).length ∧
      ∀ ts, decodeBody p.encode p.pduType p.encode.length ts = .ok (p.body.received c ts) := by
  obtain ⟨n0, n1, hn, hnv⟩ := exists_digits2 _ htotal
  obtain ⟨t0, t1, ht, htv⟩ := exists_digits2 l.remainingLifetime.toNat l.remainingLifetime.toNat_lt
  obtain ⟨s0, s1, s2, s3, hs, hsv⟩ := exists_digits4 l.sequenceNumber.toNat l.sequenceNumber.toNat_lt
  set tlvs := encodeAll p.body.tlvs with htlvs
  have hoctets : p.octets = p.commonHeader ++ (n0 :: n1 :: t0 :: t1 :: ((l.lspId.encode ++ [s0, s1, s2, s3]) ++
      0 :: 0 :: lspFlags l :: tlvs)) := by
    rw [octets, ← htlvs]
    conv_lhs => rw [hp]
    rw [fixedFields, hn, ht, hs]
    simp
  have htake : p.octets.take 12 = p.commonHeader ++ [n0, n1, t0, t1] := by
    rw [hoctets]
    rfl
  have hdrop : p.octets.drop 12 = (l.lspId.encode ++ [s0, s1, s2, s3]) ++ 0 :: 0 :: lspFlags l :: tlvs := by
    rw [hoctets]
    rfl
  have hcover : (l.lspId.encode ++ [s0, s1, s2, s3]).length = 12 := by simp
  obtain ⟨x, y, hsum, hvalid⟩ := fletcher16_spec (l.lspId.encode ++ [s0, s1, s2, s3]) (lspFlags l :: tlvs) 0 0
  rw [hcover] at hsum
  have hencode : p.encode = p.commonHeader ++ (n0 :: n1 :: t0 :: t1 :: (l.lspId.encode ++
      (s0 :: s1 :: s2 :: s3 :: x :: y :: lspFlags l :: tlvs))) := by
    rw [encode, hp]
    change p.octets.take 12 ++ fletcher16 (p.octets.drop 12) 12 = _
    rw [htake, hdrop, hsum]
    simp
  have hpt : p.pduType = levelType l.level .l1Lsp .l2Lsp := by rw [pduType, hp]
  have hfixed : p.pduType.fixedHeaderLen = 27 := by
    rw [hpt]
    cases l.level <;> rfl
  have hoff : p.pduType.lenOff = 8 := by
    rw [hpt]
    cases l.level <;> rfl
  have hid : LspId.decode ((p.encode.drop 12).take 8) = some l.lspId := by
    rw [hencode]
    change LspId.decode ((l.lspId.encode ++ _).take 8) = _
    rw [List.take_left' (LspId.length_encode _), ← List.append_nil l.lspId.encode, LspId.decode_encode]
  have hchecked : fletcher16Valid (p.encode.drop 12) = true := by
    rw [hencode]
    change fletcher16Valid (l.lspId.encode ++ _) = true
    simpa using hvalid
  have hdrop20 : p.encode.drop 20 = s0 :: s1 :: s2 :: s3 :: x :: y :: lspFlags l :: tlvs := by
    rw [hencode]
    change (l.lspId.encode ++ _).drop 8 = _
    exact List.drop_left' (LspId.length_encode _)
  refine ⟨n0 :: n1 :: t0 :: t1 :: (l.lspId.encode ++ [s0, s1, s2, s3, x, y, lspFlags l]), u16At p.encode 24, ?_, ?_, ?_, ?_⟩
  · rw [hencode]
    simp
  · rw [hfixed]
    simp
  · rw [hencode, hoff]
    exact toNat_u16 htotal hnv
  · intro ts
    obtain ⟨hpart, hatt, hover, htype⟩ := lspFlags_fields l
    have hlife : u16At p.encode 10 = l.remainingLifetime := by
      rw [hencode]
      exact UInt16.toNat_inj.mp (toNat_u16 l.remainingLifetime.toNat_lt htv)
    have hseq : UInt32.ofNat (value ((p.encode.drop 20).take 4)) = l.sequenceNumber := by
      rw [hdrop20]
      change UInt32.ofNat (value [s0, s1, s2, s3]) = _
      rw [hsv, UInt32.ofNat_toNat]
    have h26 : p.encode.getD 26 0 = lspFlags l := by
      have hsplit : p.encode.getD 26 0 = (p.encode.drop 20).getD 6 0 := by simp [List.getD_eq_getElem?_getD]
      rw [hsplit, hdrop20]
      rfl
    rw [hpt, decodeBody_lsp hid hchecked, hlife, hseq, h26, hatt, htype, hp, PduBody.received]
    simp only [hpart, hover, Bool.decide_eq_true]

/-- A PDU whose length fits its length field is read back but for what its TLVs and its flags cannot carry. -/
theorem decode_encode (p : Pdu) (h : p.pduType.fixedHeaderLen + (encodeAll p.body.tlvs).length < 65536) :
    ∃ c, decode p.encode = match p.body.tlvs.mapM Tlv.cut with
      | none => .error .badTlv
      | some ts => .ok ⟨p.maxAreaAddresses, p.body.received c ts⟩ := by
  have hbody : ∃ fields c, p.encode = p.commonHeader ++ fields ++ encodeAll p.body.tlvs ∧
      fields.length + 8 = p.pduType.fixedHeaderLen ∧
      (u16At p.encode p.pduType.lenOff).toNat = p.pduType.fixedHeaderLen + (encodeAll p.body.tlvs).length ∧
      ∀ ts, decodeBody p.encode p.pduType p.encode.length ts = .ok (p.body.received c ts) := by
    have hplain : (∀ l, p.body ≠ .lsp l) → p.encode = p.octets := by
      intro hno
      rw [encode]
      cases hb : p.body with
      | lsp l => exact absurd hb (hno l)
      | _ => rfl
    have hfixed := length_fixedFields p (p.pduType.fixedHeaderLen + (encodeAll p.body.tlvs).length)
    cases hb : p.body with
    | lsp l =>
      rw [← hb]
      exact received_lsp p l hb h
    | lanHello x =>
      obtain ⟨hlen, hrec⟩ := received_lanHello p x hb _ h (encodeAll p.body.tlvs)
      rw [← hb, hplain (by simp [hb])]
      exact ⟨_, 0, rfl, hfixed, hlen, fun ts => hrec _ ts⟩
    | p2pHello x =>
      obtain ⟨hlen, hrec⟩ := received_p2pHello p x hb _ h (encodeAll p.body.tlvs)
      rw [← hb, hplain (by simp [hb])]
      exact ⟨_, 0, rfl, hfixed, hlen, fun ts => hrec _ ts⟩
    | csnp x =>
      obtain ⟨hlen, hrec⟩ := received_csnp p x hb _ h (encodeAll p.body.tlvs)
      rw [← hb, hplain (by simp [hb])]
      exact ⟨_, 0, rfl, hfixed, hlen, fun ts => hrec _ ts⟩
    | psnp x =>
      obtain ⟨hlen, hrec⟩ := received_psnp p x hb _ h (encodeAll p.body.tlvs)
      rw [← hb, hplain (by simp [hb])]
      exact ⟨_, 0, rfl, hfixed, hlen, fun ts => hrec _ ts⟩
  obtain ⟨fields, c, henc, hfields, hlen, hrec⟩ := hbody
  refine ⟨c, ?_⟩
  rw [henc] at hlen hrec ⊢
  rw [decode_of_octets hfields hlen, decodeAll_encodeAll]
  change (match p.body.tlvs.mapM Tlv.cut with
    | none => _
    | some ts => _) = _
  cases p.body.tlvs.mapM Tlv.cut with
  | none => rfl
  | some ts =>
    dsimp only
    rw [hrec ts]
    rfl

end Pdu
end Wren.Isis
