import Wren.Isis.RoundTrip
import Wren.Lib.Chunks

/-! Which TLVs are written again as the octets they were read from. -/

namespace Wren.Isis
open Octets

/-! ### Fields -/

theorem digits_ofNat_bitVec {w n : ℕ} {s : List UInt8} (hs : s.length = n) (hw : 256 ^ n ≤ 2 ^ w) :
    digits n (BitVec.ofNat w (value s)).toNat = s := by
  have hlt : value s < 2 ^ w := by
    have := value_lt s
    rw [hs] at this
    omega
  rw [BitVec.toNat_ofNat, Nat.mod_eq_of_lt hlt, digits_value hs]

theorem digits_ofNat_u32 {n : ℕ} {s : List UInt8} (hs : s.length = n) (hn : n ≤ 4) :
    digits n (UInt32.ofNat (value s)).toNat = s := by
  have hlt : value s < 2 ^ 32 := by
    have hv := value_lt s
    have hpow : 256 ^ s.length ≤ 256 ^ 4 := Nat.pow_le_pow_right (by norm_num) (by omega)
    omega
  rw [UInt32.toNat_ofNat_of_lt' hlt, digits_value hs]

theorem digits_ofNat_u16 {s : List UInt8} (hs : s.length = 2) : digits 2 (UInt16.ofNat (value s)).toNat = s := by
  have hlt : value s < 2 ^ 16 := by
    have hv := value_lt s
    rw [hs] at hv
    omega
  rw [UInt16.toNat_ofNat_of_lt' hlt, digits_value hs]

theorem take_drop_one {v : List UInt8} {n : ℕ} (h : n < v.length) : (v.drop n).take 1 = [v.getD n 0] := by
  rw [List.drop_eq_getElem_cons h, List.getD_eq_getElem v 0 h]
  rfl

theorem length_take_drop {v : List UInt8} {p n : ℕ} (h : p + n ≤ v.length) : ((v.drop p).take n).length = n := by
  rw [List.length_take, List.length_drop]
  omega

/-! ### Records -/

theorem ofNat_min_toNat (b : UInt8) : UInt8.ofNat (min b.toNat 255) = b := by
  have := b.toNat_lt
  rw [Nat.min_eq_left (by omega), UInt8.ofNat_toNat]

theorem encode_of_decodeArea {v : List UInt8} {a : AreaAddress} {used : ℕ} (h : Tlv.decodeArea v = some (a, used)) :
    UInt8.ofNat a.length :: a = v.take used := by
  unfold Tlv.decodeArea at h
  dsimp only at h
  split_ifs at h with hshort
  obtain ⟨rfl, rfl⟩ := Prod.mk.inj (Option.some.inj h)
  have hlen := length_take_drop (v := v) (p := 1) (n := (v.getD 0 0).toNat) (by omega)
  have hfirst := take_drop_one (v := v) (n := 0) (by omega)
  rw [List.drop_zero] at hfirst
  rw [hlen, UInt8.ofNat_toNat, List.take_add, hfirst]
  rfl

theorem ExtIsReach.encode_of_decode {v : List UInt8} {r : ExtIsReach} {used : ℕ} (h : decode v = some (r, used)) :
    r.encode = v.take used := by
  unfold decode at h
  dsimp only at h
  split_ifs at h with hfix hsub
  obtain ⟨rfl, rfl⟩ := Prod.mk.inj (Option.some.inj h)
  have hid : digits 6 (BitVec.ofNat 48 (value (v.take 6))).toNat = v.take 6 :=
    digits_ofNat_bitVec (List.length_take_of_le (by omega)) (by norm_num)
  have hmetric : digits 3 (UInt32.ofNat (value ((v.drop 7).take 3))).toNat = (v.drop 7).take 3 :=
    digits_ofNat_u32 (length_take_drop (by omega)) (by norm_num)
  have hlen : ((v.drop 11).take (v.getD 10 0).toNat).length = (v.getD 10 0).toNat := length_take_drop (by omega)
  have hsplit : v.take (6 + 1 + 3 + 1 + (v.getD 10 0).toNat) = v.take 6 ++ [v.getD 6 0] ++ (v.drop 7).take 3 ++
      [v.getD 10 0] ++ (v.drop 11).take (v.getD 10 0).toNat := by
    rw [List.take_add, List.take_add, List.take_add, List.take_add, take_drop_one (by omega), take_drop_one (by omega)]
  rw [encode, NodeId.encode, hid, hmetric, hlen, ofNat_min_toNat]
  rw [show 11 = 6 + 1 + 3 + 1 from rfl, hsplit]
  simp

/-- The sub-TLVs of an entry take what follows `p`. -/
theorem encodeSub_of_decodeSub {v : List UInt8} {p q : ℕ} {hasSub : Bool} {s : Option (List UInt8)}
    (h : decodeSub v p hasSub = some (s, q)) :
    v.take q = v.take p ++ encodeSub s ∧ s.isSome = hasSub := by
  unfold decodeSub at h
  dsimp only at h
  split_ifs at h with hhas hfull hshort
  · obtain ⟨rfl, rfl⟩ := Prod.mk.inj (Option.some.inj h)
    have hlen := length_take_drop (v := v) (p := p + 1) (n := (v.getD p 0).toNat) (by omega)
    refine ⟨?_, by rw [hhas]; rfl⟩
    rw [encodeSub, hlen, ofNat_min_toNat, List.take_add, List.take_add, take_drop_one (by omega)]
    simp
  · obtain ⟨rfl, rfl⟩ := Prod.mk.inj (Option.some.inj h)
    refine ⟨by simp [encodeSub], ?_⟩
    rw [Bool.not_eq_true] at hhas
    rw [hhas]
    rfl

/-- The octets of a prefix that stand on the wire are written again, whatever follows them. -/
theorem take_digits_prefix {w n k : ℕ} {s : List UInt8} (hw : w = 8 * n) (hs : s.length = k) (hk : k ≤ n) :
    (digits n (BitVec.ofNat w (value (s ++ List.replicate (n - k) 0))).toNat).take k = s := by
  have hlen : (s ++ List.replicate (n - k) 0).length = n := by
    rw [List.length_append, List.length_replicate]
    omega
  have hpow : 256 ^ n ≤ 2 ^ w := by
    rw [hw, pow_mul]
    norm_num
  rw [digits_ofNat_bitVec hlen hpow, List.take_left' hs]

theorem pfxBytes_le {len : UInt8} {n : ℕ} (h : len.toNat ≤ 8 * n) : pfxBytes len ≤ n := by
  unfold pfxBytes
  omega

theorem ExtIpReach.encode_of_decode {v : List UInt8} {r : ExtIpReach} {used : ℕ} (h : decode v = some (r, used)) :
    r.encode = v.take used := by
  unfold decode at h
  dsimp only at h
  split_ifs at h with hfix hlong hshort
  obtain ⟨⟨sub, q⟩, hsub, hr⟩ := Option.bind_eq_some_iff.mp h
  obtain ⟨rfl, rfl⟩ := Prod.mk.inj (Option.some.inj hr)
  obtain ⟨hused, hsome⟩ := encodeSub_of_decodeSub hsub
  have hle : v.getD 4 0 &&& 0x3f ≤ 32 := UInt8.not_lt.mp hlong
  have hbytes : pfxBytes (v.getD 4 0 &&& 0x3f) ≤ 4 := pfxBytes_le (n := 4) hle
  have hmetric : digits 4 (UInt32.ofNat (value (v.take 4))).toNat = v.take 4 :=
    digits_ofNat_u32 (List.length_take_of_le (by omega)) (by norm_num)
  have hcontrol : ∀ c : UInt8, (c &&& 0x3f ||| if decide (c &&& 0x80 ≠ 0) = true then 0x80 else 0) |||
      (if decide (c &&& 0x40 ≠ 0) = true then 0x40 else 0) = c := by decide +kernel
  have hpfx := take_digits_prefix (w := 32) rfl (length_take_drop (v := v) (p := 5) (by omega)) hbytes
  have hsplit : v.take (4 + 1 + pfxBytes (v.getD 4 0 &&& 0x3f)) = v.take 4 ++ [v.getD 4 0] ++
      (v.drop 5).take (pfxBytes (v.getD 4 0 &&& 0x3f)) := by
    rw [List.take_add, List.take_add, take_drop_one (by omega)]
  rw [hused, encode]
  dsimp only
  rw [min_of_le hle, hmetric, hsome, hcontrol, hpfx, hsplit]
  simp

/-- The five low bits of the flags are not kept. -/
theorem Ipv6Reach.encode_of_decode {v : List UInt8} {r : Ipv6Reach} {used : ℕ} (h : decode v = some (r, used)) :
    r.encode = v.take used ↔ (v.take used).getD 4 0 &&& 0x1f = 0 := by
  unfold decode at h
  dsimp only at h
  split_ifs at h with hfix hlong hshort
  obtain ⟨⟨sub, q⟩, hsub, hr⟩ := Option.bind_eq_some_iff.mp h
  obtain ⟨rfl, rfl⟩ := Prod.mk.inj (Option.some.inj hr)
  obtain ⟨hused, hsome⟩ := encodeSub_of_decodeSub hsub
  have hle : v.getD 5 0 ≤ 128 := UInt8.not_lt.mp hlong
  have hbytes : pfxBytes (v.getD 5 0) ≤ 16 := pfxBytes_le (n := 16) hle
  have hmetric : digits 4 (UInt32.ofNat (value (v.take 4))).toNat = v.take 4 :=
    digits_ofNat_u32 (List.length_take_of_le (by omega)) (by norm_num)
  have hflags : ∀ c : UInt8, ((if decide (c &&& 0x80 ≠ 0) = true then 0x80 else 0) |||
      (if decide (c &&& 0x40 ≠ 0) = true then 0x40 else 0) |||
      if decide (c &&& 0x20 ≠ 0) = true then 0x20 else 0) = c ↔ c &&& 0x1f = 0 := by decide +kernel
  have hpfx := take_digits_prefix (w := 128) rfl (length_take_drop (v := v) (p := 6) (by omega)) hbytes
  have hsplit : v.take (4 + 1 + 1 + pfxBytes (v.getD 5 0)) = v.take 4 ++ [v.getD 4 0] ++ [v.getD 5 0] ++
      (v.drop 6).take (pfxBytes (v.getD 5 0)) := by
    rw [List.take_add, List.take_add, List.take_add, take_drop_one (by omega), take_drop_one (by omega)]
  have hfour : (v.take 4).length = 4 := List.length_take_of_le (by omega)
  have htake : v.take q = v.take 4 ++ (v.getD 4 0 :: v.getD 5 0 :: ((v.drop 6).take (pfxBytes (v.getD 5 0)) ++
      encodeSub sub)) := by
    rw [hused, show 6 = 4 + 1 + 1 from rfl, hsplit]
    simp
  have hget : (v.take q).getD 4 0 = v.getD 4 0 := by
    rw [htake, List.getD_eq_getElem?_getD, List.getElem?_append_right (by omega), hfour]
    rfl
  rw [hget, ← hflags (v.getD 4 0), htake, encode]
  dsimp only
  rw [min_of_le hle, hmetric, hsome, hpfx]
  simp

theorem LspEntry.encode_of_decode {c : List UInt8} {e : LspEntry} (hc : c.length = 16) (h : decode c = some e) :
    e.encode = c := by
  rw [decode] at h
  cases hid : LspId.decode ((c.drop 2).take 8) with
  | none =>
    rw [hid] at h
    cases h
  | some i =>
    rw [hid] at h
    cases h
    have hi : i.encode = (c.drop 2).take 8 := by
      rw [LspId.encode_of_decode hid, List.take_take]
      rfl
    have hlife := digits_ofNat_u16 (s := c.take 2) (List.length_take_of_le (by omega))
    have hseq := digits_ofNat_u32 (s := (c.drop 10).take 4) (length_take_drop (by omega)) (by norm_num)
    have hsum := digits_ofNat_u16 (s := (c.drop 14).take 2) (length_take_drop (by omega))
    have hsplit : c.take (2 + 8 + 4 + 2) = c.take 2 ++ (c.drop 2).take 8 ++ (c.drop 10).take 4 ++ (c.drop 14).take 2 := by
      rw [List.take_add, List.take_add, List.take_add]
    rw [encode]
    dsimp only
    rw [hlife, hi, hseq, hsum, ← hsplit]
    exact List.take_of_length_le (by omega)

/-! ### Values of one TLV -/

/-- Addresses of `n` octets each. -/
theorem flatMap_digits_chunksExact {w n : ℕ} (hn : 0 < n) (hw : 256 ^ n ≤ 2 ^ w) {v : List UInt8}
    (hv : v.length % n = 0) :
    ((chunksExact n v).map fun c => BitVec.ofNat w (value c)).flatMap (fun a => digits n a.toNat) = v := by
  obtain ⟨hflat, hall⟩ := flatten_chunksExact hn (v.length / n) (l := v)
    (Nat.div_mul_cancel (Nat.dvd_of_mod_eq_zero hv)).symm
  have hmap : (chunksExact n v).map (fun c => digits n (BitVec.ofNat w (value c)).toNat) = chunksExact n v := by
    conv_rhs => rw [← List.map_id (chunksExact n v)]
    exact List.map_congr_left fun c hc => digits_ofNat_bitVec (hall c hc) hw
  rw [List.flatMap_map, List.flatMap_def, hmap, hflat]

theorem flatMap_of_mapM {α : Type} {enc : α → List UInt8} {dec : List UInt8 → Option α} {cs : List (List UInt8)}
    {l : List α} (henc : ∀ c ∈ cs, ∀ a, dec c = some a → enc a = c) (h : cs.mapM dec = some l) :
    l.flatMap enc = cs.flatten := by
  have hread := mapM_eq_some_iff.mp h
  clear h
  induction hread with
  | nil => rfl
  | @cons c a cs l ha _ ih =>
    rw [List.flatMap_cons, List.flatten_cons, ih fun c hc => henc c (List.mem_cons_of_mem _ hc),
      henc c List.mem_cons_self a ha]

namespace Tlv

/-- The values that are written again as they were read: padding is zeros, no reserved flag of an IPv6 entry is set, and
a three-way TLV has its circuit. -/
structure Plain (typ : UInt8) (v : List UInt8) : Prop where
  padding : typ = 8 → ∀ b ∈ v, b = 0
  ipv6Reachability : typ = 236 → ∀ w ∈ pieces Ipv6Reach.decode v, w.getD 4 0 &&& 0x1f = 0
  p2pThreeWay : typ = 240 → v.length ≠ 1

theorem Plain.of_not_mem {typ : UInt8} (h : typ ∉ [8, 236, 240]) (v : List UInt8) : Plain typ v := by
  simp only [List.mem_cons, List.not_mem_nil, or_false, not_or] at h
  obtain ⟨h8, h236, h240⟩ := h
  exact ⟨fun h => absurd h h8, fun h => absurd h h236, fun h => absurd h h240⟩

theorem plain_padding_iff (v : List UInt8) : Plain 8 v ↔ ∀ b ∈ v, b = 0 :=
  ⟨fun h => h.padding rfl, fun h => ⟨fun _ => h, fun h => absurd h (by decide), fun h => absurd h (by decide)⟩⟩

theorem plain_ipv6Reachability_iff (v : List UInt8) :
    Plain 236 v ↔ ∀ w ∈ pieces Ipv6Reach.decode v, w.getD 4 0 &&& 0x1f = 0 :=
  ⟨fun h => h.ipv6Reachability rfl, fun h => ⟨fun h => absurd h (by decide), fun _ => h, fun h => absurd h (by decide)⟩⟩

theorem plain_p2pThreeWay_iff (v : List UInt8) : Plain 240 v ↔ v.length ≠ 1 :=
  ⟨fun h => h.p2pThreeWay rfl, fun h => ⟨fun h => absurd h (by decide), fun h => absurd h (by decide), fun _ => h⟩⟩

/-- A TLV is kept as it is only under a type that is not interpreted. -/
theorem of_decodeOne_unknown {typ typ' : UInt8} {v value : List UInt8} (h : decodeOne typ v = some (unknown typ' value)) :
    typ ∉ interpretedTypes ∧ value = v := by
  by_cases hmem : typ ∈ interpretedTypes
  · exfalso
    simp only [interpretedTypes, List.mem_cons, List.not_mem_nil, or_false] at hmem
    unfold decodeOne at h
    obtain rfl | rfl | rfl | rfl | rfl | rfl | rfl | rfl | rfl | rfl | rfl | rfl := hmem
    all_goals simp at h
    · cases v <;> simp at h
    · split_ifs at h
      all_goals cases h
  · rw [decodeOne_unknown hmem] at h
    cases h
    exact ⟨hmem, rfl⟩

/-- The short form of a three-way TLV is written out with a circuit. -/
theorem encodeValue_of_decodeOne_p2pThreeWay {v : List UInt8} {t : Tlv} (h : decodeOne 240 v = some t) :
    (v.length ≤ t.encodeValue.length ∧ t.encodeValue.length ≤ max v.length 15) ∧ (t.encodeValue = v ↔ Plain 240 v) := by
  change (if v.length = 1 then _ else _) = _ at h
  rw [plain_p2pThreeWay_iff]
  split_ifs at h with h1 h5 h15
  · cases h
    have hlen : (encodeValue (.p2pThreeWay (v.getD 0 0) 0 none)).length = 5 := rfl
    refine ⟨by omega, iff_of_false (fun heq => ?_) (fun hne => hne h1)⟩
    rw [heq] at hlen
    omega
  · cases h
    have hfirst := take_drop_one (v := v) (n := 0) (by omega)
    have hext := digits_ofNat_u32 (s := (v.drop 1).take 4) (length_take_drop (by omega)) (by norm_num)
    have heq : encodeValue (.p2pThreeWay (v.getD 0 0) (UInt32.ofNat (value ((v.drop 1).take 4))) none) = v := by
      rw [encodeValue, hext]
      calc (v.getD 0 0 :: (v.drop 1).take 4) ++ [] = (v.drop 0).take 1 ++ (v.drop 1).take 4 := by
            rw [hfirst, List.append_nil]
            rfl
        _ = v.take (1 + 4) := by rw [List.take_add, List.drop_zero]
        _ = v := List.take_of_length_le (by omega)
    rw [heq]
    exact ⟨⟨le_refl _, le_max_left _ _⟩, iff_of_true rfl h1⟩
  · cases h
    have hfirst := take_drop_one (v := v) (n := 0) (by omega)
    have hext := digits_ofNat_u32 (s := (v.drop 1).take 4) (length_take_drop (by omega)) (by norm_num)
    have hid := digits_ofNat_bitVec (w := 48) (s := (v.drop 5).take 6) (length_take_drop (by omega)) (by norm_num)
    have hcid := digits_ofNat_u32 (s := (v.drop 11).take 4) (length_take_drop (by omega)) (by norm_num)
    have heq : encodeValue (.p2pThreeWay (v.getD 0 0) (UInt32.ofNat (value ((v.drop 1).take 4)))
        (some (BitVec.ofNat 48 (value ((v.drop 5).take 6)), UInt32.ofNat (value ((v.drop 11).take 4))))) = v := by
      rw [encodeValue, hext, hid, hcid]
      calc (v.getD 0 0 :: (v.drop 1).take 4) ++ ((v.drop 5).take 6 ++ (v.drop 11).take 4)
          = (v.drop 0).take 1 ++ (v.drop 1).take 4 ++ (v.drop 5).take 6 ++ (v.drop 11).take 4 := by
            rw [hfirst]
            simp
        _ = v.take (1 + 4 + 6 + 4) := by rw [List.take_add, List.take_add, List.take_add, List.drop_zero]
        _ = v := List.take_of_length_le (by omega)
    rw [heq]
    exact ⟨⟨le_refl _, le_max_left _ _⟩, iff_of_true rfl h1⟩

/-- A value never gets shorter, and it stays what it was only if it is plain. -/
theorem encodeValue_of_decodeOne {typ : UInt8} {v : List UInt8} {t : Tlv} (h : decodeOne typ v = some t) :
    (v.length ≤ t.encodeValue.length ∧ t.encodeValue.length ≤ max v.length 15) ∧ (t.encodeValue = v ↔ Plain typ v) := by
  have htype := (of_decodeOne h).1
  have hsame : t.encodeValue = v → Plain typ v → (v.length ≤ t.encodeValue.length ∧
      t.encodeValue.length ≤ max v.length 15) ∧ (t.encodeValue = v ↔ Plain typ v) := by
    intro heq hplain
    rw [heq]
    exact ⟨⟨le_refl _, le_max_left _ _⟩, iff_of_true rfl hplain⟩
  cases t with
  | areaAddresses areas =>
    change 1 = typ at htype
    subst htype
    obtain ⟨l, hl, heq⟩ := Option.map_eq_some_iff.mp h
    cases heq
    refine hsame ?_ (Plain.of_not_mem (by decide) v)
    refine (flatMap_eq_iff (P := fun _ => True) ?_ hl).mpr fun _ _ => trivial
    intro buf a used ha
    have hlen := length_of_decodeArea ha
    exact ⟨hlen.2, by rw [List.length_cons]; omega, iff_of_true (encode_of_decodeArea ha) trivial⟩
  | lanNeighbors macs =>
    change 6 = typ at htype
    subst htype
    change (if v.length % 6 ≠ 0 then none else _) = _ at h
    split_ifs at h with hmod
    cases h
    exact hsame (flatMap_digits_chunksExact (by norm_num) (by norm_num) (not_not.mp hmod))
      (Plain.of_not_mem (by decide) v)
  | padding n =>
    change 8 = typ at htype
    subst htype
    cases h
    have hlen : (encodeValue (.padding v.length)).length = v.length := List.length_replicate
    refine ⟨⟨hlen.ge, by omega⟩, ?_⟩
    rw [plain_padding_iff, encodeValue, eq_comm, List.eq_replicate_iff]
    simp
  | lspEntries entries =>
    change 9 = typ at htype
    subst htype
    change (if v.length % 16 ≠ 0 then none else _) = _ at h
    split_ifs at h with hmod
    obtain ⟨l, hl, heq⟩ := Option.map_eq_some_iff.mp h
    cases heq
    obtain ⟨hflat, hall⟩ := flatten_chunksExact (n := 16) (by norm_num) (v.length / 16)
      (Nat.div_mul_cancel (Nat.dvd_of_mod_eq_zero (not_not.mp hmod))).symm
    refine hsame ?_ (Plain.of_not_mem (by decide) v)
    exact (flatMap_of_mapM (fun c hc _ he => LspEntry.encode_of_decode (hall c hc) he) hl).trans hflat
  | authentication authType data =>
    change 10 = typ at htype
    subst htype
    refine hsame ?_ (Plain.of_not_mem (by decide) v)
    cases v with
    | nil => cases h
    | cons a v =>
      cases h
      rfl
  | extendedIsReachability reaches =>
    change 22 = typ at htype
    subst htype
    obtain ⟨l, hl, heq⟩ := Option.map_eq_some_iff.mp h
    cases heq
    refine hsame ?_ (Plain.of_not_mem (by decide) v)
    refine (flatMap_eq_iff (P := fun _ => True) ?_ hl).mpr fun _ _ => trivial
    intro buf r used hr
    have hlen := (ExtIsReach.of_decode hr).1
    exact ⟨hlen.2, hlen.1.le, iff_of_true (ExtIsReach.encode_of_decode hr) trivial⟩
  | protocolsSupported nlpids =>
    change 129 = typ at htype
    subst htype
    cases h
    exact hsame rfl (Plain.of_not_mem (by decide) _)
  | ipv4InterfaceAddresses addrs =>
    change 132 = typ at htype
    subst htype
    change (if v.length % 4 ≠ 0 then none else _) = _ at h
    split_ifs at h with hmod
    cases h
    exact hsame (flatMap_digits_chunksExact (by norm_num) (by norm_num) (not_not.mp hmod))
      (Plain.of_not_mem (by decide) v)
  | extendedIpReachability reaches =>
    change 135 = typ at htype
    subst htype
    obtain ⟨l, hl, heq⟩ := Option.map_eq_some_iff.mp h
    cases heq
    refine hsame ?_ (Plain.of_not_mem (by decide) v)
    refine (flatMap_eq_iff (P := fun _ => True) ?_ hl).mpr fun _ _ => trivial
    intro buf r used hr
    have hlen := ExtIpReach.of_decode hr
    exact ⟨hlen.2, hlen.1.le, iff_of_true (ExtIpReach.encode_of_decode hr) trivial⟩
  | ipv6InterfaceAddresses addrs =>
    change 232 = typ at htype
    subst htype
    change (if v.length % 16 ≠ 0 then none else _) = _ at h
    split_ifs at h with hmod
    cases h
    exact hsame (flatMap_digits_chunksExact (by norm_num) (by norm_num) (not_not.mp hmod))
      (Plain.of_not_mem (by decide) v)
  | ipv6Reachability reaches =>
    change 236 = typ at htype
    subst htype
    have hlen := (of_decodeOne h).2 (by decide)
    obtain ⟨l, hl, heq⟩ := Option.map_eq_some_iff.mp h
    cases heq
    refine ⟨⟨hlen.ge, by omega⟩, ?_⟩
    rw [plain_ipv6Reachability_iff]
    refine flatMap_eq_iff ?_ hl
    intro buf r used hr
    have hlen := Ipv6Reach.of_decode hr
    exact ⟨hlen.2, hlen.1.le, Ipv6Reach.encode_of_decode hr⟩
  | p2pThreeWay adjState ext neighbor =>
    change 240 = typ at htype
    subst htype
    exact encodeValue_of_decodeOne_p2pThreeWay h
  | unknown typ' value =>
    obtain ⟨hmem, rfl⟩ := of_decodeOne_unknown h
    refine hsame rfl (Plain.of_not_mem (fun hc => hmem ?_) value)
    simp only [interpretedTypes, List.mem_cons, List.not_mem_nil, or_false] at hc ⊢
    tauto

end Tlv

end Wren.Isis
