import Wren.Isis.Auth
import Wren.Isis.Records

/-! Which TLVs come back from the wire as they were put in. -/

namespace Wren.Isis
open Octets

/-! ### What a record that is read takes -/

theorem length_of_decodeArea {v : List UInt8} {a : AreaAddress} {used : ℕ} (h : Tlv.decodeArea v = some (a, used)) :
    used = 1 + a.length ∧ used ≤ v.length := by
  unfold Tlv.decodeArea at h
  dsimp only at h
  split_ifs at h with hshort
  obtain ⟨rfl, rfl⟩ := Prod.mk.inj (Option.some.inj h)
  rw [List.length_take, List.length_drop]
  omega

theorem value_take_lt (v : List UInt8) (n : ℕ) : value (v.take n) < 256 ^ n :=
  lt_of_lt_of_le (value_lt _) (Nat.pow_le_pow_right (by norm_num) (List.length_take_le n v))

namespace ExtIsReach

theorem length_encode (r : ExtIsReach) : r.encode.length = 11 + r.subTlvs.length := by
  simp [encode]
  omega

/-- A metric that was read has no more than 24 bits. -/
theorem of_decode {v : List UInt8} {r : ExtIsReach} {used : ℕ} (h : decode v = some (r, used)) :
    (used = r.encode.length ∧ used ≤ v.length) ∧ r.metric.toNat < 2 ^ 24 := by
  unfold decode at h
  dsimp only at h
  split_ifs at h with hfix hsub
  obtain ⟨rfl, rfl⟩ := Prod.mk.inj (Option.some.inj h)
  have hmetric := value_take_lt (v.drop 7) 3
  refine ⟨⟨?_, by omega⟩, ?_⟩
  · rw [length_encode, List.length_take, List.length_drop]
    omega
  · rw [UInt32.toNat_ofNat_of_lt' (lt_trans hmetric (by decide))]
    exact hmetric

theorem decode_encode {r : ExtIsReach} (hmetric : r.metric.toNat < 2 ^ 24) (hsub : r.subTlvs.length ≤ 255)
    (rest : List UInt8) : decode (r.encode ++ rest) = some (r, r.encode.length) := by
  have hnode : (r.encode ++ rest).take 6 = digits 6 r.neighborId.systemId.toNat := by
    simp [encode, NodeId.encode]
  have h6 : (r.encode ++ rest).getD 6 0 = r.neighborId.pseudonode := by
    simp [encode, NodeId.encode, List.getD_eq_getElem?_getD]
  have hdrop : (r.encode ++ rest).drop 7 =
      digits 3 r.metric.toNat ++ (UInt8.ofNat (min r.subTlvs.length 255) :: (r.subTlvs ++ rest)) := by
    rw [encode, List.append_assoc, List.append_assoc, List.drop_left' (NodeId.length_encode _)]
    simp
  have h10 : (r.encode ++ rest).getD 10 0 = UInt8.ofNat (min r.subTlvs.length 255) := by
    have hsplit : (r.encode ++ rest).getD 10 0 = ((r.encode ++ rest).drop 7).getD 3 0 := by
      simp [List.getD_eq_getElem?_getD]
    rw [hsplit, hdrop]
    simp [List.getD_eq_getElem?_getD]
  have hlen : (UInt8.ofNat (min r.subTlvs.length 255)).toNat = r.subTlvs.length := by
    rw [Nat.min_eq_left hsub]
    exact UInt8.toNat_ofNat_of_lt' (by change _ < 256; omega)
  have hdrop11 : (r.encode ++ rest).drop 11 = r.subTlvs ++ rest := by
    rw [show 11 = 7 + 3 + 1 from rfl, ← List.drop_drop, ← List.drop_drop, hdrop, List.drop_left' (length_digits 3 _)]
    rfl
  have hmetric' : UInt32.ofNat (value (((r.encode ++ rest).drop 7).take 3)) = r.metric := by
    rw [hdrop, List.take_left' (length_digits 3 _), value_digits_of_lt hmetric, UInt32.ofNat_toNat]
  have htotal : (r.encode ++ rest).length = 11 + r.subTlvs.length + rest.length := by
    rw [List.length_append, length_encode]
  unfold decode
  dsimp only
  rw [h10, hlen, if_neg (by omega), if_neg (by omega), hnode, ofNat_value_digits _ (by norm_num), h6, hmetric', hdrop11,
    List.take_left, length_encode]

end ExtIsReach

theorem of_decodeSub {v : List UInt8} {p q : ℕ} {hasSub : Bool} {s : Option (List UInt8)} (hp : p ≤ v.length)
    (h : decodeSub v p hasSub = some (s, q)) : q = p + (encodeSub s).length ∧ q ≤ v.length := by
  unfold decodeSub at h
  dsimp only at h
  split_ifs at h with hhas hfull hshort
  · obtain ⟨rfl, rfl⟩ := Prod.mk.inj (Option.some.inj h)
    simp only [encodeSub, List.length_cons, List.length_take, List.length_drop]
    omega
  · obtain ⟨rfl, rfl⟩ := Prod.mk.inj (Option.some.inj h)
    exact ⟨rfl, hp⟩

/-- The octets behind the prefix length of a network are zero. -/
theorem dvd_of_pfx {w n : ℕ} {len : UInt8} {a : BitVec w} (hw : w = 8 * n) (hlen : len.toNat ≤ w)
    (hmask : (a &&& if len = 0 then 0 else BitVec.allOnes w <<< (w - len.toNat)) = a) :
    256 ^ (n - pfxBytes len) ∣ a.toNat := by
  have hzero : len = 0 ↔ len.toNat = 0 := by rw [← UInt8.toNat_inj]; rfl
  simp only [hzero] at hmask
  have hbytes : len.toNat ≤ 8 * pfxBytes len ∧ pfxBytes len ≤ n := by
    unfold pfxBytes
    omega
  exact dvd_of_masked hmask (by omega) hbytes.1

namespace ExtIpReach

theorem length_encode {r : ExtIpReach} (h : r.prefixLen ≤ 32) :
    r.encode.length = 5 + pfxBytes r.prefixLen + (encodeSub r.subTlvs).length := by
  have hlen : r.prefixLen.toNat ≤ 32 := h
  have hbytes : pfxBytes r.prefixLen ≤ 4 := by
    unfold pfxBytes
    omega
  rw [encode, min_of_le h]
  simp only [List.length_append, List.length_cons, List.length_take, length_digits]
  omega

theorem of_decode {v : List UInt8} {r : ExtIpReach} {used : ℕ} (h : decode v = some (r, used)) :
    used = r.encode.length ∧ used ≤ v.length := by
  unfold decode at h
  dsimp only at h
  split_ifs at h with hfix hlong hshort
  obtain ⟨⟨sub, q⟩, hsub, hr⟩ := Option.bind_eq_some_iff.mp h
  obtain ⟨rfl, rfl⟩ := Prod.mk.inj (Option.some.inj hr)
  have hspec := of_decodeSub (by omega) hsub
  rw [length_encode (UInt8.not_lt.mp hlong)]
  exact hspec

/-- What is written of a network is read back, as long as its host bits are zero. -/
theorem decode_encode {r : ExtIpReach} (hlen : r.prefixLen ≤ 32)
    (hmask : (r.pfx &&& if r.prefixLen = 0 then 0 else BitVec.allOnes 32 <<< (32 - r.prefixLen.toNat)) = r.pfx)
    (hsub : r.subTlvs = none) (rest : List UInt8) : decode (r.encode ++ rest) = some (r, r.encode.length) := by
  have hencodable : r.Encodable := ⟨hlen, dvd_of_pfx rfl hlen hmask, fun x hx => absurd hx (by simp [hsub])⟩
  exact hencodable.decode_encode rest

end ExtIpReach

namespace Ipv6Reach

theorem length_encode {r : Ipv6Reach} (h : r.prefixLen ≤ 128) :
    r.encode.length = 6 + pfxBytes r.prefixLen + (encodeSub r.subTlvs).length := by
  have hlen : r.prefixLen.toNat ≤ 128 := h
  have hbytes : pfxBytes r.prefixLen ≤ 16 := by
    unfold pfxBytes
    omega
  rw [encode, min_of_le h]
  simp only [List.length_append, List.length_cons, List.length_take, length_digits]
  omega

theorem of_decode {v : List UInt8} {r : Ipv6Reach} {used : ℕ} (h : decode v = some (r, used)) :
    used = r.encode.length ∧ used ≤ v.length := by
  unfold decode at h
  dsimp only at h
  split_ifs at h with hfix hlong hshort
  obtain ⟨⟨sub, q⟩, hsub, hr⟩ := Option.bind_eq_some_iff.mp h
  obtain ⟨rfl, rfl⟩ := Prod.mk.inj (Option.some.inj hr)
  have hspec := of_decodeSub (by omega) hsub
  rw [length_encode (UInt8.not_lt.mp hlong)]
  exact hspec

theorem decode_encode {r : Ipv6Reach} (hlen : r.prefixLen ≤ 128)
    (hmask : (r.pfx &&& if r.prefixLen = 0 then 0 else BitVec.allOnes 128 <<< (128 - r.prefixLen.toNat)) = r.pfx)
    (hsub : r.subTlvs = none) (rest : List UInt8) : decode (r.encode ++ rest) = some (r, r.encode.length) := by
  have hencodable : r.Encodable := ⟨hlen, dvd_of_pfx rfl hlen hmask, fun x hx => absurd hx (by simp [hsub])⟩
  exact hencodable.decode_encode rest

end Ipv6Reach

namespace LspEntry

@[simp] theorem length_encode (e : LspEntry) : e.encode.length = 16 := by simp [encode]

theorem decode_encode (e : LspEntry) : decode e.encode = some e := by
  have htake2 : e.encode.take 2 = digits 2 e.remainingLifetime.toNat := by simp [encode]
  have hdrop2 : e.encode.drop 2 = e.lspId.encode ++ (digits 4 e.sequenceNumber.toNat ++ digits 2 e.checksum.toNat) := by
    rw [encode, List.append_assoc, List.append_assoc, List.drop_left' (length_digits 2 _)]
  have hdrop10 : e.encode.drop 10 = digits 4 e.sequenceNumber.toNat ++ digits 2 e.checksum.toNat := by
    rw [show 10 = 2 + 8 from rfl, ← List.drop_drop, hdrop2, List.drop_left' (LspId.length_encode _)]
  have hdrop14 : e.encode.drop 14 = digits 2 e.checksum.toNat := by
    rw [show 14 = 10 + 4 from rfl, ← List.drop_drop, hdrop10, List.drop_left' (length_digits 4 _)]
  have hid : LspId.decode ((e.encode.drop 2).take 8) = some e.lspId := by
    rw [hdrop2, List.take_left' (LspId.length_encode _), ← List.append_nil e.lspId.encode, LspId.decode_encode]
  have h16 : ∀ n : UInt16, UInt16.ofNat (value (digits 2 n.toNat)) = n := by
    intro n
    rw [value_digits_of_lt (by simpa using n.toNat_lt), UInt16.ofNat_toNat]
  have hseq : UInt32.ofNat (value (digits 4 e.sequenceNumber.toNat)) = e.sequenceNumber := by
    rw [value_digits_of_lt (by simpa using e.sequenceNumber.toNat_lt), UInt32.ofNat_toNat]
  rw [decode, hid, htake2, hdrop10, hdrop14, List.take_left' (length_digits 4 _),
    List.take_of_length_le (by simp), h16, h16, hseq]
  rfl

end LspEntry

/-! ### Whole TLVs -/

theorem length_flatMap_of_readAll {α : Type} {one : List UInt8 → Option (α × ℕ)} {enc : α → List UInt8}
    (hone : ∀ buf a used, one buf = some (a, used) → used = (enc a).length ∧ used ≤ buf.length) {v : List UInt8}
    {l : List α} (h : readAll one v = some l) : (l.flatMap enc).length = v.length := by
  rw [List.length_flatMap]
  exact sum_of_readRecords hone h

theorem length_flatMap_map_chunksExact {α : Type} {n : ℕ} {enc : α → List UInt8} (henc : ∀ a, (enc a).length = n)
    (dec : List UInt8 → α) {v : List UInt8} (hv : v.length % n = 0) :
    (((chunksExact n v).map dec).flatMap enc).length = v.length := by
  rw [length_flatMap_of_forall henc, List.length_map, chunksExact, List.length_map, List.length_range]
  exact Nat.div_mul_cancel (Nat.dvd_of_mod_eq_zero hv)

theorem length_of_mapM_eq_some {α β : Type} {f : α → Option β} {l : List α} {l' : List β} (h : l.mapM f = some l') :
    l'.length = l.length :=
  (mapM_eq_some_iff.mp h).length_eq.symm

namespace Tlv

/-- What a TLV is read from is as long as what it is written to, the three-way TLV aside, whose short form is
written out. -/
theorem of_decodeOne {typ : UInt8} {v : List UInt8} {t : Tlv} (h : decodeOne typ v = some t) :
    t.typeCode = typ ∧ (typ ≠ 240 → t.encodeValue.length = v.length) := by
  unfold decodeOne at h
  by_cases h1 : typ = 1
  · rw [if_pos h1] at h
    obtain ⟨l, hl, rfl⟩ := Option.map_eq_some_iff.mp h
    refine ⟨h1.symm, fun _ => ?_⟩
    refine length_flatMap_of_readAll (fun buf a used ha => ?_) hl
    have hspec := length_of_decodeArea ha
    rw [List.length_cons]
    omega
  rw [if_neg h1] at h
  by_cases h6 : typ = 6
  · rw [if_pos h6] at h
    split_ifs at h with hmod
    cases h
    exact ⟨h6.symm, fun _ => length_flatMap_map_chunksExact (fun m => length_digits 6 _) _ (by simpa using hmod)⟩
  rw [if_neg h6] at h
  by_cases h8 : typ = 8
  · rw [if_pos h8] at h
    cases h
    exact ⟨h8.symm, fun _ => by simp [encodeValue]⟩
  rw [if_neg h8] at h
  by_cases h9 : typ = 9
  · rw [if_pos h9] at h
    split_ifs at h with hmod
    obtain ⟨l, hl, rfl⟩ := Option.map_eq_some_iff.mp h
    refine ⟨h9.symm, fun _ => ?_⟩
    rw [encodeValue, length_flatMap_of_forall LspEntry.length_encode, length_of_mapM_eq_some hl, chunksExact,
      List.length_map, List.length_range]
    exact Nat.div_mul_cancel (Nat.dvd_of_mod_eq_zero (by simpa using hmod))
  rw [if_neg h9] at h
  by_cases h10 : typ = 10
  · rw [if_pos h10] at h
    cases v with
    | nil => cases h
    | cons a data =>
      cases h
      exact ⟨h10.symm, fun _ => rfl⟩
  rw [if_neg h10] at h
  by_cases h22 : typ = 22
  · rw [if_pos h22] at h
    obtain ⟨l, hl, rfl⟩ := Option.map_eq_some_iff.mp h
    exact ⟨h22.symm, fun _ => length_flatMap_of_readAll (fun _ _ _ ha => (ExtIsReach.of_decode ha).1) hl⟩
  rw [if_neg h22] at h
  by_cases h129 : typ = 129
  · rw [if_pos h129] at h
    cases h
    exact ⟨h129.symm, fun _ => rfl⟩
  rw [if_neg h129] at h
  by_cases h132 : typ = 132
  · rw [if_pos h132] at h
    split_ifs at h with hmod
    cases h
    exact ⟨h132.symm, fun _ => length_flatMap_map_chunksExact (fun m => length_digits 4 _) _ (by simpa using hmod)⟩
  rw [if_neg h132] at h
  by_cases h135 : typ = 135
  · rw [if_pos h135] at h
    obtain ⟨l, hl, rfl⟩ := Option.map_eq_some_iff.mp h
    exact ⟨h135.symm, fun _ => length_flatMap_of_readAll (fun _ _ _ ha => ExtIpReach.of_decode ha) hl⟩
  rw [if_neg h135] at h
  by_cases h232 : typ = 232
  · rw [if_pos h232] at h
    split_ifs at h with hmod
    cases h
    exact ⟨h232.symm, fun _ => length_flatMap_map_chunksExact (fun m => length_digits 16 _) _ (by simpa using hmod)⟩
  rw [if_neg h232] at h
  by_cases h236 : typ = 236
  · rw [if_pos h236] at h
    obtain ⟨l, hl, rfl⟩ := Option.map_eq_some_iff.mp h
    exact ⟨h236.symm, fun _ => length_flatMap_of_readAll (fun _ _ _ ha => Ipv6Reach.of_decode ha) hl⟩
  rw [if_neg h236] at h
  by_cases h240 : typ = 240
  · rw [if_pos h240] at h
    split_ifs at h
    all_goals
      cases h
      exact ⟨h240.symm, fun hne => absurd h240 hne⟩
  rw [if_neg h240] at h
  cases h
  exact ⟨rfl, fun _ => rfl⟩

theorem typeCode_of_cut {t u : Tlv} (h : t.cut = some u) : u.typeCode = t.typeCode := (of_decodeOne h).1

/-- A TLV that comes back as it was fits its length octet. -/
theorem length_le_of_cut {t : Tlv} (h : t.cut = some t) (htype : t.typeCode ≠ 240) : t.encodeValue.length ≤ 255 := by
  have hlen := (of_decodeOne h).2 htype
  rw [List.length_take] at hlen
  omega

theorem metric_lt_of_decodeOne {typ : UInt8} {v : List UInt8} {rs : List ExtIsReach}
    (h : decodeOne typ v = some (.extendedIsReachability rs)) : ∀ r ∈ rs, r.metric.toNat < 2 ^ 24 := by
  have htype : typ = 22 := (of_decodeOne h).1.symm
  subst htype
  obtain ⟨l, hl, hrs⟩ := Option.map_eq_some_iff.mp h
  cases hrs
  exact forall_of_readRecords (fun _ _ _ ha => (ExtIsReach.of_decode ha).2) hl

/-! One of each kind that a router puts into what it originates. -/

theorem cut_of_length_le {t : Tlv} (h : t.encodeValue.length ≤ 255) : t.cut = decodeOne t.typeCode t.encodeValue := by
  rw [cut, List.take_of_length_le h]

theorem decodeArea_encode {a : AreaAddress} (h : a.length ≤ 255) (r : List UInt8) :
    decodeArea ((UInt8.ofNat a.length :: a) ++ r) = some (a, (UInt8.ofNat a.length :: a).length) := by
  have hn : (UInt8.ofNat a.length).toNat = a.length := UInt8.toNat_ofNat_of_lt' (by change _ < 256; omega)
  unfold decodeArea
  simp only [List.cons_append, List.getD_cons_zero, hn, List.drop_succ_cons, List.drop_zero, List.take_left]
  rw [if_neg (by simp only [List.length_cons, List.length_append]; omega), List.length_cons, Nat.add_comm]

theorem cut_areaAddresses_iff (a : AreaAddress) : cut (.areaAddresses [a]) = some (.areaAddresses [a]) ↔ a.length ≤ 254 := by
  have hlen : (encodeValue (.areaAddresses [a])).length = a.length + 1 := by simp [encodeValue]
  constructor
  · intro h
    have := length_le_of_cut h (by simp [typeCode])
    omega
  · intro h
    rw [cut_of_length_le (by omega)]
    change (readAll decodeArea ([a].flatMap fun a => UInt8.ofNat a.length :: a)).map _ = _
    rw [readAll_flatMap id (fun b hb r => by rw [List.mem_singleton.mp hb]; exact decodeArea_encode (by omega) r) (by simp)]
    rfl

theorem cut_ipv4InterfaceAddresses_iff (l : List Ipv4Addr) :
    cut (.ipv4InterfaceAddresses l) = some (.ipv4InterfaceAddresses l) ↔ 4 * l.length ≤ 255 := by
  have hlen : (encodeValue (.ipv4InterfaceAddresses l)).length = l.length * 4 :=
    length_flatMap_of_forall (fun a => length_digits 4 _) l
  constructor
  · intro h
    have := length_le_of_cut h (by simp [typeCode])
    omega
  · intro h
    rw [cut_of_length_le (by omega)]
    change (if (encodeValue (.ipv4InterfaceAddresses l)).length % 4 ≠ 0 then none else _) = _
    rw [if_neg (by rw [hlen]; omega)]
    exact congrArg (fun l => some (Tlv.ipv4InterfaceAddresses l)) (map_chunksExact_flatMap (by norm_num)
      (fun a => length_digits 4 _) fun a _ => ofNat_value_digits a (by norm_num))

theorem cut_ipv6InterfaceAddresses_iff (l : List Ipv6Addr) :
    cut (.ipv6InterfaceAddresses l) = some (.ipv6InterfaceAddresses l) ↔ 16 * l.length ≤ 255 := by
  have hlen : (encodeValue (.ipv6InterfaceAddresses l)).length = l.length * 16 :=
    length_flatMap_of_forall (fun a => length_digits 16 _) l
  constructor
  · intro h
    have := length_le_of_cut h (by simp [typeCode])
    omega
  · intro h
    rw [cut_of_length_le (by omega)]
    change (if (encodeValue (.ipv6InterfaceAddresses l)).length % 16 ≠ 0 then none else _) = _
    rw [if_neg (by rw [hlen]; omega)]
    exact congrArg (fun l => some (Tlv.ipv6InterfaceAddresses l)) (map_chunksExact_flatMap (by norm_num)
      (fun a => length_digits 16 _) fun a _ => ofNat_value_digits a (by norm_num))

theorem cut_lspEntries_iff (l : List LspEntry) :
    cut (.lspEntries l) = some (.lspEntries l) ↔ 16 * l.length ≤ 255 := by
  have hlen : (encodeValue (.lspEntries l)).length = l.length * 16 := length_flatMap_of_forall LspEntry.length_encode l
  constructor
  · intro h
    have := length_le_of_cut h (by simp [typeCode])
    omega
  · intro h
    rw [cut_of_length_le (by omega)]
    change (if (encodeValue (.lspEntries l)).length % 16 ≠ 0 then none else _) = _
    rw [if_neg (by rw [hlen]; omega)]
    change ((chunksExact 16 (l.flatMap LspEntry.encode)).mapM LspEntry.decode).map _ = _
    have hread : ((l.map LspEntry.encode).mapM LspEntry.decode) = some l := by
      rw [mapM_eq_some_iff, List.forall₂_map_left_iff]
      exact List.forall₂_same.mpr fun e _ => e.decode_encode
    rw [chunksExact_flatMap (by norm_num) LspEntry.length_encode, hread]
    rfl

theorem cut_extendedIsReachability_iff {l : List ExtIsReach} (hsub : ∀ r ∈ l, r.subTlvs = []) :
    cut (.extendedIsReachability l) = some (.extendedIsReachability l) ↔
      11 * l.length ≤ 255 ∧ ∀ r ∈ l, r.metric.toNat < 2 ^ 24 := by
  have hlen : (encodeValue (.extendedIsReachability l)).length = 11 * l.length := by
    have hall : l.map (fun r => r.encode.length) = l.map fun _ => 11 := by
      refine List.map_congr_left fun r hr => ?_
      rw [ExtIsReach.length_encode, hsub r hr]
      rfl
    rw [encodeValue, List.length_flatMap, hall]
    simp [Nat.mul_comm]
  constructor
  · intro h
    have := length_le_of_cut h (by simp [typeCode])
    exact ⟨by omega, metric_lt_of_decodeOne h⟩
  · rintro ⟨hle, hmetric⟩
    rw [cut_of_length_le (by omega)]
    change (readAll ExtIsReach.decode (l.flatMap ExtIsReach.encode)).map _ = _
    rw [readAll_flatMap id (fun r hr rest => ExtIsReach.decode_encode (hmetric r hr) (by simp [hsub r hr]) rest)
      (fun r _ => by rw [← List.length_pos_iff, ExtIsReach.length_encode]; omega), List.map_id]
    rfl

theorem cut_extendedIpReachability_iff {l : List ExtIpReach} (hlen : ∀ r ∈ l, r.prefixLen ≤ 32)
    (hmask : ∀ r ∈ l, (r.pfx &&& if r.prefixLen = 0 then 0 else BitVec.allOnes 32 <<< (32 - r.prefixLen.toNat)) = r.pfx)
    (hsub : ∀ r ∈ l, r.subTlvs = none) : cut (.extendedIpReachability l) = some (.extendedIpReachability l) ↔
      (l.map fun r => 5 + pfxBytes r.prefixLen).sum ≤ 255 := by
  have hsum : (encodeValue (.extendedIpReachability l)).length = (l.map fun r => 5 + pfxBytes r.prefixLen).sum := by
    rw [encodeValue, List.length_flatMap]
    refine congrArg List.sum (List.map_congr_left fun r hr => ?_)
    rw [ExtIpReach.length_encode (hlen r hr), hsub r hr]
    rfl
  constructor
  · intro h
    have := length_le_of_cut h (by simp [typeCode])
    omega
  · intro h
    rw [cut_of_length_le (by omega)]
    change (readAll ExtIpReach.decode (l.flatMap ExtIpReach.encode)).map _ = _
    rw [readAll_flatMap id (fun r hr rest => ExtIpReach.decode_encode (hlen r hr) (hmask r hr) (hsub r hr) rest)
      (fun r hr => by rw [← List.length_pos_iff, ExtIpReach.length_encode (hlen r hr)]; omega), List.map_id]
    rfl

theorem cut_ipv6Reachability_iff {l : List Ipv6Reach} (hlen : ∀ r ∈ l, r.prefixLen ≤ 128)
    (hmask : ∀ r ∈ l,
      (r.pfx &&& if r.prefixLen = 0 then 0 else BitVec.allOnes 128 <<< (128 - r.prefixLen.toNat)) = r.pfx)
    (hsub : ∀ r ∈ l, r.subTlvs = none) : cut (.ipv6Reachability l) = some (.ipv6Reachability l) ↔
      (l.map fun r => 6 + pfxBytes r.prefixLen).sum ≤ 255 := by
  have hsum : (encodeValue (.ipv6Reachability l)).length = (l.map fun r => 6 + pfxBytes r.prefixLen).sum := by
    rw [encodeValue, List.length_flatMap]
    refine congrArg List.sum (List.map_congr_left fun r hr => ?_)
    rw [Ipv6Reach.length_encode (hlen r hr), hsub r hr]
    rfl
  constructor
  · intro h
    have := length_le_of_cut h (by simp [typeCode])
    omega
  · intro h
    rw [cut_of_length_le (by omega)]
    change (readAll Ipv6Reach.decode (l.flatMap Ipv6Reach.encode)).map _ = _
    rw [readAll_flatMap id (fun r hr rest => Ipv6Reach.decode_encode (hlen r hr) (hmask r hr) (hsub r hr) rest)
      (fun r hr => by rw [← List.length_pos_iff, Ipv6Reach.length_encode (hlen r hr)]; omega), List.map_id]
    rfl

/-! ### Sealed TLVs -/

/-- An Authentication TLV can be read whatever its digest. -/
theorem cut_of_typeCode {t : Tlv} (htype : t.typeCode = 10) (hne : t.encodeValue ≠ []) : t.cut.isSome := by
  obtain ⟨a, rest, hv⟩ := List.exists_cons_of_ne_nil hne
  rw [cut, htype, hv]
  rfl

theorem Resealed.typeCode_eq {t u : Tlv} (h : t.Resealed u) : u.typeCode = t.typeCode := by
  rcases h with rfl | ⟨ht, hu, -, -⟩
  · rfl
  · rw [ht, hu]

theorem Resealed.eq_of_typeCode {t u : Tlv} (h : t.Resealed u) (htype : t.typeCode ≠ 10) : u = t := by
  rcases h with rfl | ⟨ht, -, -, -⟩
  · rfl
  · exact absurd ht htype

theorem Resealed.cut_isSome_iff {t u : Tlv} (h : t.Resealed u) : u.cut.isSome ↔ t.cut.isSome := by
  rcases h with rfl | ⟨ht, hu, hne, hlen⟩
  · rfl
  · have hne' : u.encodeValue ≠ [] := by
      rw [← List.length_pos_iff, hlen, List.length_pos_iff]
      exact hne
    simp [cut_of_typeCode ht hne, cut_of_typeCode hu hne']

theorem Resealed.length_encode {t u : Tlv} (h : t.Resealed u) : u.encode.length = t.encode.length := by
  rcases h with rfl | ⟨-, -, -, hlen⟩
  · rfl
  · simp [encode, hlen]

end Tlv

theorem length_encodeAll_of_resealed {ts us : List Tlv} (h : List.Forall₂ Tlv.Resealed ts us) :
    (encodeAll us).length = (encodeAll ts).length := by
  induction h with
  | nil => rfl
  | cons htu _ ih =>
    rw [encodeAll_cons, encodeAll_cons, List.length_append, List.length_append, htu.length_encode, ih]

/-- One TLV as it comes back: the same kind, and what could be read of it unless it is the Authentication TLV. -/
def ComesBack (t u : Tlv) : Prop := u.typeCode = t.typeCode ∧ (t.typeCode ≠ 10 → t.cut = some u)

theorem exists_mapM_cut {ts us : List Tlv} (h : List.Forall₂ Tlv.Resealed ts us) (hcut : ∀ t ∈ ts, t.cut.isSome) :
    ∃ vs, us.mapM Tlv.cut = some vs ∧ List.Forall₂ ComesBack ts vs := by
  simp only [mapM_eq_some_iff]
  induction h with
  | nil => exact ⟨[], List.Forall₂.nil, List.Forall₂.nil⟩
  | cons htu _ ih =>
    obtain ⟨vs, hvs, hback⟩ := ih fun t ht => hcut t (List.mem_cons_of_mem _ ht)
    obtain ⟨v, hv⟩ := Option.isSome_iff_exists.mp (htu.cut_isSome_iff.mpr (hcut _ List.mem_cons_self))
    refine ⟨v :: vs, List.Forall₂.cons hv hvs, List.Forall₂.cons ⟨?_, fun htype => ?_⟩ hback⟩
    · rw [Tlv.typeCode_of_cut hv, htu.typeCode_eq]
    · rw [← htu.eq_of_typeCode htype]
      exact hv

theorem mapM_cut_eq_none {ts us : List Tlv} (h : List.Forall₂ Tlv.Resealed ts us) {t : Tlv} (ht : t ∈ ts)
    (hcut : t.cut = none) : us.mapM Tlv.cut = none := by
  rw [Option.eq_none_iff_forall_ne_some]
  intro vs hvs
  rw [mapM_eq_some_iff] at hvs
  induction h generalizing vs with
  | nil => simp at ht
  | cons htu _ ih =>
    cases hvs with
    | cons hv hvs =>
      rcases List.mem_cons.mp ht with rfl | ht
      · have hsome := htu.cut_isSome_iff
        simp [hv, hcut] at hsome
      · exact ih ht _ hvs

section Decode
variable {p : Pdu} (hsize : p.pduType.fixedHeaderLen + (encodeAll p.body.tlvs).length < 65536) (auth : Option IsisAuth)
include hsize

theorem decode_encodePdu : ∃ c ts, List.Forall₂ Tlv.Resealed p.body.tlvs ts ∧
    Pdu.decode (encodePdu auth p) = match ts.mapM Tlv.cut with
      | none => .error .badTlv
      | some us => .ok ⟨p.maxAreaAddresses, p.body.received c us⟩ := by
  obtain ⟨ts, hts, henc⟩ := encodePdu_eq auth p
  have hbody : (p.withTlvs ts).body = p.body.withTlvs ts := rfl
  obtain ⟨c, hdec⟩ := Pdu.decode_encode (p.withTlvs ts)
    (by rw [Pdu.pduType_withTlvs, hbody, PduBody.tlvs_withTlvs, length_encodeAll_of_resealed hts]; exact hsize)
  refine ⟨c, ts, hts, ?_⟩
  rw [henc, hdec, hbody, PduBody.tlvs_withTlvs]
  simp only [PduBody.received_withTlvs]
  rfl

/-- A PDU is refused because one of its TLVs is cut off where it cannot be read. -/
theorem decode_encodePdu_of_cut {t : Tlv} (ht : t ∈ p.body.tlvs) (hcut : t.cut = none) :
    Pdu.decode (encodePdu auth p) = .error .badTlv := by
  obtain ⟨c, ts, hts, hdec⟩ := decode_encodePdu hsize auth
  rw [hdec, mapM_cut_eq_none hts ht hcut]

theorem exists_decode_encodePdu (hcut : ∀ t ∈ p.body.tlvs, t.cut.isSome) :
    ∃ c us, Pdu.decode (encodePdu auth p) = .ok ⟨p.maxAreaAddresses, p.body.received c us⟩ ∧
      List.Forall₂ ComesBack p.body.tlvs us := by
  obtain ⟨c, ts, hts, hdec⟩ := decode_encodePdu hsize auth
  obtain ⟨us, hus, hback⟩ := exists_mapM_cut hts hcut
  exact ⟨c, us, by rw [hdec, hus], hback⟩

end Decode

/-- The TLVs that carry something, which the Authentication TLV does not. -/
def contents (tlvs : List Tlv) : List Tlv := tlvs.filter fun t => t.typeCode ≠ 10

/-- What is sent is accepted and carries all that was put in. -/
def Survives (auth : Option IsisAuth) (p : Pdu) : Prop :=
  ∃ q, Pdu.decode (encodePdu auth p) = .ok q ∧ contents q.body.tlvs = contents p.body.tlvs

theorem contents_eq_iff {ts us : List Tlv} (h : List.Forall₂ ComesBack ts us) :
    contents us = contents ts ↔ ∀ t ∈ ts, t.typeCode ≠ 10 → t.cut = some t := by
  induction h with
  | nil => simp
  | @cons t u ts us htu _ ih =>
    have hrest : (∀ s ∈ t :: ts, s.typeCode ≠ 10 → s.cut = some s) ↔
        (t.typeCode ≠ 10 → t.cut = some t) ∧ ∀ s ∈ ts, s.typeCode ≠ 10 → s.cut = some s := List.forall_mem_cons
    rw [hrest, ← ih]
    by_cases htype : t.typeCode = 10
    · simp [contents, htu.1, htype]
    · have hcut := htu.2 htype
      simp [contents, htu.1, htype, hcut]

theorem survives_iff {p : Pdu} (hsize : p.pduType.fixedHeaderLen + (encodeAll p.body.tlvs).length < 65536)
    (auth : Option IsisAuth) (hauth : ∀ t ∈ p.body.tlvs, t.typeCode = 10 → t.encodeValue ≠ []) :
    Survives auth p ↔ ∀ t ∈ p.body.tlvs, t.typeCode ≠ 10 → t.cut = some t := by
  by_cases hcut : ∀ t ∈ p.body.tlvs, t.cut.isSome
  · obtain ⟨c, us, hdec, hback⟩ := exists_decode_encodePdu hsize auth hcut
    rw [← contents_eq_iff hback]
    constructor
    · rintro ⟨q, hq, hcontents⟩
      rw [hdec] at hq
      cases hq
      simpa using hcontents
    · intro h
      exact ⟨_, hdec, by simpa using h⟩
  · push Not at hcut
    obtain ⟨t, ht, hnone⟩ := hcut
    have hnone' : t.cut = none := by simpa using hnone
    constructor
    · rintro ⟨q, hq, -⟩
      rw [decode_encodePdu_of_cut hsize auth ht hnone'] at hq
      cases hq
    · intro h
      by_cases htype : t.typeCode = 10
      · exact absurd (Tlv.cut_of_typeCode htype (hauth t ht htype)) hnone
      · rw [h t ht htype] at hnone'
        cases hnone'

/-- The TLVs of an accepted PDU are those that were read. -/
theorem tlvs_of_decodeBody {buf : List UInt8} {pt : PduType} {stated : ℕ} {tlvs : List Tlv} {b : PduBody}
    (h : Pdu.decodeBody buf pt stated tlvs = .ok b) : b.tlvs = tlvs := by
  cases pt with
  | l1Lsp | l2Lsp =>
    simp only [Pdu.decodeBody] at h
    split_ifs at h
    cases hid : LspId.decode ((buf.drop 12).take 8) with
    | none =>
      rw [hid] at h
      cases h
    | some i =>
      rw [hid] at h
      cases h
      rfl
  | l1Csnp | l2Csnp =>
    simp only [Pdu.decodeBody] at h
    cases hstart : LspId.decode ((buf.drop 17).take 8) with
    | none =>
      rw [hstart] at h
      cases h
    | some i =>
      cases hstop : LspId.decode ((buf.drop 25).take 8) with
      | none =>
        rw [hstart, hstop] at h
        cases h
      | some j =>
        rw [hstart, hstop] at h
        cases h
        rfl
  | _ =>
    cases h
    rfl

/-- An Authentication TLV that was read can be read again. -/
theorem cut_isSome_of_decode {bytes : List UInt8} {p : Pdu} (h : Pdu.decode bytes = .ok p) {t : Tlv}
    (ht : t ∈ p.body.tlvs) (htype : t.typeCode = 10) : t.cut.isSome := by
  obtain ⟨pt, stated, tlvs, -, -, -, hall, hbody⟩ := Pdu.decodeBody_of_decode h
  rw [tlvs_of_decodeBody hbody] at ht
  have hone : ∃ typ v, Tlv.decodeOne typ v = some t := by
    refine forall_of_readRecords (P := fun t => ∃ typ v, Tlv.decodeOne typ v = some t) ?_ hall t ht
    intro buf a used ha
    rw [decodeNext] at ha
    dsimp only at ha
    split_ifs at ha
    obtain ⟨u, hu, heq⟩ := Option.map_eq_some_iff.mp ha
    cases heq
    exact ⟨_, _, hu⟩
  obtain ⟨typ, v, hread⟩ := hone
  have htyp : typ = 10 := (Tlv.of_decodeOne hread).1.symm.trans htype
  subst htyp
  refine Tlv.cut_of_typeCode htype ?_
  cases v with
  | nil => cases hread
  | cons a v =>
    cases hread
    exact List.cons_ne_nil _ _

/-! ### Which LSP it is -/

/-- The ID of an LSP stands at a fixed place, whatever the size of the rest. -/
theorem lspId_octets_encodePdu (auth : Option IsisAuth) (mx : UInt8) (l : Lsp) :
    ((encodePdu auth ⟨mx, .lsp l⟩).drop 12).take 8 = l.lspId.encode := by
  have hplain : ∀ l : Lsp, ((Pdu.encode ⟨mx, .lsp l⟩).drop 12).take 8 = l.lspId.encode := by
    intro l
    obtain ⟨total, htotal⟩ : ∃ total, (Pdu.mk mx (.lsp l)).pduType.fixedHeaderLen + (encodeAll l.tlvs).length = total :=
      ⟨_, rfl⟩
    let cover := l.lspId.encode ++ digits 4 l.sequenceNumber.toNat
    let lead := (Pdu.mk mx (.lsp l)).commonHeader ++ (digits 2 total ++ digits 2 l.remainingLifetime.toNat)
    have hlead : lead.length = 12 := by simp [lead, Pdu.commonHeader]
    have hcover : cover.length = 12 := by simp [cover]
    have hoctets : (Pdu.mk mx (.lsp l)).octets = lead ++ (cover ++ 0 :: 0 :: (lspFlags l :: encodeAll l.tlvs)) := by
      have hbody : (PduBody.lsp l).tlvs = l.tlvs := rfl
      rw [Pdu.octets]
      simp only [hbody, htotal, Pdu.fixedFields]
      simp [lead, cover]
    obtain ⟨x, y, hsum, -⟩ := fletcher16_spec cover (lspFlags l :: encodeAll l.tlvs) 0 0
    rw [hcover] at hsum
    change (((Pdu.mk mx (.lsp l)).octets.take 12 ++ fletcher16 ((Pdu.mk mx (.lsp l)).octets.drop 12) 12).drop 12).take 8 = _
    rw [hoctets, List.take_left' hlead, List.drop_left' hlead, List.drop_left' hlead, hsum, List.append_assoc,
      List.take_left' (LspId.length_encode _)]
  obtain ⟨ts, -, henc⟩ := encodePdu_eq auth ⟨mx, .lsp l⟩
  rw [henc]
  exact hplain { l with tlvs := ts }

theorem lspId_octets_of_decode {bytes : List UInt8} {mx : UInt8} {l : Lsp} (h : Pdu.decode bytes = .ok ⟨mx, .lsp l⟩) :
    l.lspId.encode = (bytes.drop 12).take 8 := by
  obtain ⟨pt, stated, tlvs, -, -, -, -, hbody⟩ := Pdu.decodeBody_of_decode h
  obtain ⟨-, -, i, hid, hl⟩ := Pdu.lsp_of_decodeBody hbody
  have hi : l.lspId = i := congrArg Lsp.lspId hl
  have hoctets := LspId.encode_of_decode hid
  rw [List.take_take] at hoctets
  rw [hi]
  exact hoctets

end Wren.Isis
