import Wren.Isis.Records
import Wren.Isis.Survival

/-! Which PDUs are read back as they were written, down to the last TLV. -/

namespace Wren.Isis
open Octets

/-- The types that a TLV is interpreted under. -/
def interpretedTypes : List UInt8 := [1, 6, 8, 9, 10, 22, 129, 132, 135, 232, 236, 240]

namespace Tlv

/-- What each kind of TLV can say. -/
def Sayable : Tlv → Prop
  | areaAddresses areas => ∀ a ∈ areas, a.length ≤ 255
  | extendedIsReachability reaches => ∀ r ∈ reaches, r.metric.toNat < 2 ^ 24 ∧ r.subTlvs.length ≤ 255
  | extendedIpReachability reaches => ∀ r ∈ reaches, r.Encodable
  | ipv6Reachability reaches => ∀ r ∈ reaches, r.Encodable
  | unknown typ _ => typ ∉ interpretedTypes
  | _ => True

/-- A TLV that is written in full: its value fits the length octet. -/
structure Encodable (t : Tlv) : Prop where
  sayable : t.Sayable
  length_le : t.encodeValue.length ≤ 255

theorem decodeOne_unknown {typ : UInt8} (h : typ ∉ interpretedTypes) (v : List UInt8) :
    decodeOne typ v = some (unknown typ v) := by
  simp only [interpretedTypes, List.mem_cons, List.not_mem_nil, or_false, not_or] at h
  obtain ⟨h1, h6, h8, h9, h10, h22, h129, h132, h135, h232, h236, h240⟩ := h
  unfold decodeOne
  rw [if_neg h1, if_neg h6, if_neg h8, if_neg h9, if_neg h10, if_neg h22, if_neg h129, if_neg h132,
    if_neg h135, if_neg h232, if_neg h236, if_neg h240]

theorem decodeOne_p2pThreeWay (adjState : UInt8) (ext : UInt32) (neighbor : Option (SystemId × UInt32)) :
    decodeOne 240 (encodeValue (.p2pThreeWay adjState ext neighbor)) = some (.p2pThreeWay adjState ext neighbor) := by
  have hext : UInt32.ofNat (value (digits 4 ext.toNat)) = ext := by
    rw [value_digits_of_lt ext.toNat_lt, UInt32.ofNat_toNat]
  cases neighbor with
  | none =>
    have hv : encodeValue (.p2pThreeWay adjState ext none) = adjState :: digits 4 ext.toNat :=
      congrArg (adjState :: ·) (List.append_nil _)
    have hlen : (adjState :: digits 4 ext.toNat).length = 5 := by simp
    rw [hv]
    unfold decodeOne
    simp [hlen, hext, List.take_of_length_le]
  | some n =>
    obtain ⟨nid, ncid⟩ := n
    have hid : BitVec.ofNat 48 (value (digits 6 nid.toNat)) = nid := ofNat_value_digits nid (by norm_num)
    have hcid : UInt32.ofNat (value (digits 4 ncid.toNat)) = ncid := by
      rw [value_digits_of_lt ncid.toNat_lt, UInt32.ofNat_toNat]
    have hv : encodeValue (.p2pThreeWay adjState ext (some (nid, ncid))) =
        adjState :: (digits 4 ext.toNat ++ (digits 6 nid.toNat ++ digits 4 ncid.toNat)) := rfl
    have hlen : (adjState :: (digits 4 ext.toNat ++ (digits 6 nid.toNat ++ digits 4 ncid.toNat))).length = 15 := by simp
    rw [hv]
    unfold decodeOne
    simp [hlen, hext, hid, hcid, List.take_of_length_le, List.drop_append, List.drop_of_length_le]

theorem Encodable.cut_eq {t : Tlv} (h : t.Encodable) : t.cut = some t := by
  obtain ⟨hsay, hlen⟩ := h
  cases t with
  | areaAddresses areas =>
    rw [cut_of_length_le hlen]
    change (readAll decodeArea (areas.flatMap fun a => UInt8.ofNat a.length :: a)).map _ = _
    rw [readAll_flatMap id (fun a ha r => decodeArea_encode (hsay a ha) r) (by simp), List.map_id]
    rfl
  | lanNeighbors macs =>
    have hsix : (encodeValue (.lanNeighbors macs)).length = macs.length * 6 :=
      length_flatMap_of_forall (fun m => length_digits 6 _) macs
    rw [cut_of_length_le hlen]
    change (if (encodeValue (.lanNeighbors macs)).length % 6 ≠ 0 then none else _) = _
    rw [if_neg (by rw [hsix]; omega)]
    exact congrArg (fun l => some (Tlv.lanNeighbors l)) (map_chunksExact_flatMap (by norm_num)
      (fun m => length_digits 6 _) fun m _ => ofNat_value_digits m (by norm_num))
  | padding n =>
    rw [cut_of_length_le hlen]
    change some (padding (List.replicate n (0 : UInt8)).length) = _
    rw [List.length_replicate]
  | lspEntries entries =>
    rw [cut_lspEntries_iff, Nat.mul_comm, ← length_flatMap_of_forall LspEntry.length_encode entries]
    exact hlen
  | authentication authType data =>
    rw [cut_of_length_le hlen]
    rfl
  | extendedIsReachability reaches =>
    rw [cut_of_length_le hlen]
    change (readAll ExtIsReach.decode (reaches.flatMap ExtIsReach.encode)).map _ = _
    rw [readAll_flatMap id (fun r hr rest => ExtIsReach.decode_encode (hsay r hr).1 (hsay r hr).2 rest)
      (fun r _ => by rw [← List.length_pos_iff, ExtIsReach.length_encode]; omega), List.map_id]
    rfl
  | protocolsSupported nlpids =>
    rw [cut_of_length_le hlen]
    rfl
  | ipv4InterfaceAddresses addrs =>
    rw [cut_ipv4InterfaceAddresses_iff, Nat.mul_comm,
      ← length_flatMap_of_forall (fun a : Ipv4Addr => length_digits 4 a.toNat) addrs]
    exact hlen
  | extendedIpReachability reaches =>
    rw [cut_of_length_le hlen]
    change (readAll ExtIpReach.decode (reaches.flatMap ExtIpReach.encode)).map _ = _
    rw [readAll_flatMap id (fun r hr rest => (hsay r hr).decode_encode rest) (fun r hr => by
      rw [← List.length_pos_iff, (hsay r hr).encode_eq]; simp), List.map_id]
    rfl
  | ipv6InterfaceAddresses addrs =>
    rw [cut_ipv6InterfaceAddresses_iff, Nat.mul_comm,
      ← length_flatMap_of_forall (fun a : Ipv6Addr => length_digits 16 a.toNat) addrs]
    exact hlen
  | ipv6Reachability reaches =>
    rw [cut_of_length_le hlen]
    change (readAll Ipv6Reach.decode (reaches.flatMap Ipv6Reach.encode)).map _ = _
    rw [readAll_flatMap id (fun r hr rest => (hsay r hr).decode_encode rest) (fun r hr => by
      rw [← List.length_pos_iff, (hsay r hr).encode_eq]; simp), List.map_id]
    rfl
  | p2pThreeWay adjState ext neighbor =>
    rw [cut_of_length_le hlen]
    exact decodeOne_p2pThreeWay adjState ext neighbor
  | unknown typ value =>
    rw [cut_of_length_le hlen]
    exact decodeOne_unknown hsay value

end Tlv

namespace PduBody

/-- Values that the fixed fields of a PDU hold: one level, an IS type that has an encoding, and no more bits than there
are. -/
def Encodable : PduBody → Prop
  | lanHello h => h.level ≠ .l1l2 ∧ h.priority < 128
  | p2pHello _ => True
  | lsp l => l.level ≠ .l1l2 ∧ l.isType ≠ .l1l2 ∧ l.attached < 16
  | csnp c => c.level ≠ .l1l2
  | psnp s => s.level ≠ .l1l2

def withChecksum (c : UInt16) : PduBody → PduBody
  | lsp l => lsp { l with checksum := c }
  | b => b

theorem level_of_ne {level : IsLevel} (h : level ≠ .l1l2) : (if level = .l2 then .l2 else .l1) = level := by
  cases level with
  | l1 => rfl
  | l2 => rfl
  | l1l2 => exact absurd rfl h

theorem received_eq {b : PduBody} (h : b.Encodable) (c : UInt16) : b.received c b.tlvs = b.withChecksum c := by
  cases b with
  | lanHello x =>
    have hpri : x.priority &&& 0x7f = x.priority := by
      have hall : ∀ n : UInt8, n < 128 → n &&& 0x7f = n := by decide +kernel
      exact hall _ h.2
    rw [received, level_of_ne h.1, hpri]
    rfl
  | p2pHello x => rfl
  | lsp l =>
    obtain ⟨hlevel, htype, hatt⟩ := h
    have hatt' : l.attached &&& 0x0f = l.attached := by
      have hall : ∀ n : UInt8, n < 16 → n &&& 0x0f = n := by decide +kernel
      exact hall _ hatt
    have htype' : (if l.isType = .l1 then .l1 else .l2) = l.isType := by
      cases ht : l.isType with
      | l1 => rfl
      | l2 => rfl
      | l1l2 => exact absurd ht htype
    rw [received, level_of_ne hlevel, hatt', htype']
    rfl
  | csnp x =>
    rw [received, level_of_ne h]
    rfl
  | psnp x =>
    rw [received, level_of_ne h]
    rfl

end PduBody

namespace Pdu

theorem length_octets (p : Pdu) : p.octets.length = p.pduType.fixedHeaderLen + (encodeAll p.body.tlvs).length := by
  have hfixed := length_fixedFields p (p.pduType.fixedHeaderLen + (encodeAll p.body.tlvs).length)
  have hcommon : p.commonHeader.length = 8 := rfl
  rw [octets, List.length_append, List.length_append, hcommon]
  omega

theorem length_encode (p : Pdu) : p.encode.length = p.pduType.fixedHeaderLen + (encodeAll p.body.tlvs).length := by
  rw [← length_octets, encode]
  cases p.body with
  | lsp l => simp [fletcher16, Ospf.fletcher16]; omega
  | _ => rfl

/-- A PDU whose values fit their fields, and which fits its length field, is read back as it is, but for the checksum
of an LSP, which is computed. -/
theorem decode_encode_encodable {p : Pdu} (hbody : p.body.Encodable) (htlvs : ∀ t ∈ p.body.tlvs, t.Encodable)
    (hlen : p.encode.length ≤ 65535) :
    decode p.encode = .ok { p with body := p.body.withChecksum (u16At p.encode 24) } := by
  rw [length_encode] at hlen
  obtain ⟨c, hdec⟩ := decode_encode p (by omega)
  have hcut : p.body.tlvs.mapM Tlv.cut = some p.body.tlvs := by
    rw [mapM_eq_some_iff]
    exact List.forall₂_same.mpr fun t ht => (htlvs t ht).cut_eq
  rw [hcut] at hdec
  dsimp only at hdec
  rw [PduBody.received_eq hbody] at hdec
  rw [hdec]
  obtain ⟨mx, body⟩ := p
  cases body with
  | lsp l =>
    obtain ⟨pt, stated, ts, -, -, -, -, hread⟩ := decodeBody_of_decode hdec
    obtain ⟨-, -, i, -, hl⟩ := lsp_of_decodeBody hread
    have hc : c = u16At (Pdu.encode ⟨mx, .lsp l⟩) 24 := congrArg Lsp.checksum hl
    rw [hc]
  | _ => rfl

/-- An LSP of a Level 2 router with one TLV of each kind that has parts. -/
def sampleLsp : Pdu :=
  { maxAreaAddresses := 0
    body := .lsp
      { level := .l2, remainingLifetime := 1200, lspId := ⟨1, 0, 0⟩, sequenceNumber := 1, checksum := 0
        partition := false, attached := 1, overload := true, isType := .l2
        tlvs := [.areaAddresses [[0x49, 0, 1]], .extendedIsReachability [⟨⟨2, 0⟩, 10, [3, 4, 5]⟩],
          .extendedIpReachability [⟨10, true, 8, 0x0a000000, some [1, 2]⟩],
          .ipv6Reachability [⟨10, false, true, 0, 0, none⟩], .unknown 137 [119, 114, 101, 110]] } }

theorem decode_encode_encodable_sampleLsp :
    decode sampleLsp.encode = .ok { sampleLsp with body := sampleLsp.body.withChecksum (u16At sampleLsp.encode 24) } := by
  refine decode_encode_encodable ⟨by decide, by decide, by decide⟩ ?_ (by decide +kernel)
  intro t ht
  simp only [sampleLsp, PduBody.tlvs, List.mem_cons, List.not_mem_nil, or_false] at ht
  obtain rfl | rfl | rfl | rfl | rfl := ht
  · exact ⟨by simp [Tlv.Sayable], by decide⟩
  · exact ⟨by simp [Tlv.Sayable], by decide +kernel⟩
  · refine ⟨?_, by decide +kernel⟩
    intro r hr
    rw [List.mem_singleton.mp hr]
    exact ⟨by decide, by decide +kernel, by simp⟩
  · refine ⟨?_, by decide +kernel⟩
    intro r hr
    rw [List.mem_singleton.mp hr]
    exact ⟨by decide, by decide +kernel, by simp⟩
  · exact ⟨by simp [Tlv.Sayable, interpretedTypes], by decide⟩

end Pdu

end Wren.Isis
