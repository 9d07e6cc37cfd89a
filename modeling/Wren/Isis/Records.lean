import Wren.Isis.Pdu

/-! Reachability entries with sub-TLVs, and when they are read back as they were written. -/

namespace Wren.Isis
open Octets

/-- The sub-TLVs of an entry, after what comes before them. -/
theorem decodeSub_encodeSub {s : Option (List UInt8)} (h : ∀ x ∈ s, x.length ≤ 255) {pre : List UInt8} {p : ℕ}
    (hp : pre.length = p) (rest : List UInt8) :
    decodeSub (pre ++ (encodeSub s ++ rest)) p s.isSome = some (s, p + (encodeSub s).length) := by
  cases s with
  | none => rfl
  | some x =>
    have hx : x.length ≤ 255 := h x rfl
    have hn : (UInt8.ofNat (min x.length 255)).toNat = x.length := by
      rw [Nat.min_eq_left hx]
      exact UInt8.toNat_ofNat_of_lt' (by change _ < 256; omega)
    have hbuf : pre ++ (encodeSub (some x) ++ rest) = pre ++ UInt8.ofNat (min x.length 255) :: (x ++ rest) := rfl
    have hlen : (pre ++ (encodeSub (some x) ++ rest)).length = p + 1 + x.length + rest.length := by
      rw [hbuf]
      simp [hp]
      omega
    have hget : (pre ++ (encodeSub (some x) ++ rest)).getD p 0 = UInt8.ofNat (min x.length 255) := by
      rw [hbuf, ← hp]
      simp
    have hdrop : (pre ++ (encodeSub (some x) ++ rest)).drop (p + 1) = x ++ rest := by
      rw [← List.drop_drop, List.drop_left' hp]
      rfl
    rw [decodeSub, if_pos Option.isSome_some, if_neg (by omega)]
    dsimp only
    rw [hget, hn, if_neg (by omega), hdrop, List.take_left]
    simp [encodeSub]
    omega

theorem min_of_le {n m : UInt8} (h : n ≤ m) : min n m = n := if_pos h

namespace ExtIpReach

/-- What the encoder can write: the length of the prefix and of the sub-TLVs fit, and the octets that are not written
are zero. -/
structure Encodable (r : ExtIpReach) : Prop where
  prefixLen_le : r.prefixLen ≤ 32
  dvd : 256 ^ (4 - pfxBytes r.prefixLen) ∣ r.pfx.toNat
  sub_le : ∀ s ∈ r.subTlvs, s.length ≤ 255

def control (r : ExtIpReach) : UInt8 :=
  r.prefixLen ||| (if r.upDown then 0x80 else 0) ||| (if r.subTlvs.isSome then 0x40 else 0)

theorem control_fields {r : ExtIpReach} (h : r.prefixLen ≤ 32) :
    r.control &&& 0x3f = r.prefixLen ∧ decide (r.control &&& 0x80 ≠ 0) = r.upDown ∧
      decide (r.control &&& 0x40 ≠ 0) = r.subTlvs.isSome := by
  have hall : ∀ n : UInt8, n ≤ 32 → ∀ b c : Bool,
      (n ||| (if b then 0x80 else 0) ||| (if c then 0x40 else 0)) &&& 0x3f = n ∧
        decide ((n ||| (if b then 0x80 else 0) ||| (if c then 0x40 else 0)) &&& 0x80 ≠ 0) = b ∧
        decide ((n ||| (if b then 0x80 else 0) ||| (if c then 0x40 else 0)) &&& 0x40 ≠ 0) = c := by
    decide +kernel
  exact hall r.prefixLen h r.upDown r.subTlvs.isSome

namespace Encodable
variable {r : ExtIpReach}

theorem pfxBytes_le (h : r.Encodable) : pfxBytes r.prefixLen ≤ 4 := by
  have : r.prefixLen.toNat ≤ 32 := h.prefixLen_le
  unfold pfxBytes
  omega

theorem encode_eq (h : r.Encodable) : r.encode =
    (digits 4 r.metric.toNat ++ r.control :: (digits 4 r.pfx.toNat).take (pfxBytes r.prefixLen)) ++
      encodeSub r.subTlvs := by
  rw [encode, min_of_le h.prefixLen_le]
  rfl

theorem length_head (h : r.Encodable) : (digits 4 r.metric.toNat ++ r.control ::
    (digits 4 r.pfx.toNat).take (pfxBytes r.prefixLen)).length = 5 + pfxBytes r.prefixLen := by
  have := h.pfxBytes_le
  simp
  omega

theorem decode_encode (h : r.Encodable) (rest : List UInt8) :
    decode (r.encode ++ rest) = some (r, r.encode.length) := by
  have hbytes := h.pfxBytes_le
  obtain ⟨h3f, h80, h40⟩ := control_fields h.prefixLen_le
  let tail := encodeSub r.subTlvs ++ rest
  have hhead := h.length_head
  have hbuf : r.encode ++ rest = digits 4 r.metric.toNat ++ (r.control ::
      ((digits 4 r.pfx.toNat).take (pfxBytes r.prefixLen) ++ tail)) := by
    rw [h.encode_eq]
    simp [tail]
  have hsub : decodeSub (r.encode ++ rest) (5 + pfxBytes r.prefixLen) r.subTlvs.isSome =
      some (r.subTlvs, 5 + pfxBytes r.prefixLen + (encodeSub r.subTlvs).length) := by
    rw [h.encode_eq, List.append_assoc]
    exact decodeSub_encodeSub h.sub_le hhead rest
  have hlen : 5 + pfxBytes r.prefixLen ≤ (r.encode ++ rest).length := by
    rw [h.encode_eq, List.append_assoc, List.length_append, hhead]
    omega
  have h4 : (r.encode ++ rest).getD 4 0 = r.control := by
    rw [hbuf]
    simp
  have hmetric : UInt32.ofNat (value ((r.encode ++ rest).take 4)) = r.metric := by
    rw [hbuf, List.take_left' (length_digits 4 _), value_digits_of_lt r.metric.toNat_lt, UInt32.ofNat_toNat]
  have hpfx : ((r.encode ++ rest).drop 5).take (pfxBytes r.prefixLen) =
      (digits 4 r.pfx.toNat).take (pfxBytes r.prefixLen) := by
    rw [hbuf, show 5 = 4 + 1 from rfl, ← List.drop_drop, List.drop_left' (length_digits 4 _)]
    refine List.take_left' ?_
    rw [List.length_take, length_digits]
    omega
  have haddr : value ((digits 4 r.pfx.toNat).take (pfxBytes r.prefixLen) ++
      List.replicate (4 - pfxBytes r.prefixLen) 0) = r.pfx.toNat := by
    have hsplit : 4 = pfxBytes r.prefixLen + (4 - pfxBytes r.prefixLen) := by omega
    have htake := value_take_digits (k := pfxBytes r.prefixLen) (j := 4 - pfxBytes r.prefixLen) (x := r.pfx.toNat)
      (by rw [← hsplit]; exact r.pfx.isLt) h.dvd
    rwa [← hsplit] at htake
  have htotal : r.encode.length = 5 + pfxBytes r.prefixLen + (encodeSub r.subTlvs).length := by
    rw [h.encode_eq, List.length_append, hhead]
  rw [decode, if_neg (by omega), h4]
  dsimp only
  rw [h3f, h80, h40, if_neg (UInt8.not_lt.mpr h.prefixLen_le), if_neg (by omega), hsub, hmetric, hpfx, haddr, htotal]
  simp

end Encodable
end ExtIpReach

namespace Ipv6Reach

structure Encodable (r : Ipv6Reach) : Prop where
  prefixLen_le : r.prefixLen ≤ 128
  dvd : 256 ^ (16 - pfxBytes r.prefixLen) ∣ r.pfx.toNat
  sub_le : ∀ s ∈ r.subTlvs, s.length ≤ 255

def flags (r : Ipv6Reach) : UInt8 :=
  (if r.upDown then 0x80 else 0) ||| (if r.external then 0x40 else 0) ||| (if r.subTlvs.isSome then 0x20 else 0)

theorem flags_fields (r : Ipv6Reach) : decide (r.flags &&& 0x80 ≠ 0) = r.upDown ∧
    decide (r.flags &&& 0x40 ≠ 0) = r.external ∧ decide (r.flags &&& 0x20 ≠ 0) = r.subTlvs.isSome := by
  unfold flags
  generalize r.subTlvs.isSome = hasSub
  cases r.upDown <;> cases r.external <;> cases hasSub <;> decide

namespace Encodable
variable {r : Ipv6Reach}

theorem pfxBytes_le (h : r.Encodable) : pfxBytes r.prefixLen ≤ 16 := by
  have : r.prefixLen.toNat ≤ 128 := h.prefixLen_le
  unfold pfxBytes
  omega

theorem encode_eq (h : r.Encodable) : r.encode =
    (digits 4 r.metric.toNat ++ r.flags :: r.prefixLen :: (digits 16 r.pfx.toNat).take (pfxBytes r.prefixLen)) ++
      encodeSub r.subTlvs := by
  rw [encode, min_of_le h.prefixLen_le]
  rfl

theorem length_head (h : r.Encodable) : (digits 4 r.metric.toNat ++ r.flags :: r.prefixLen ::
    (digits 16 r.pfx.toNat).take (pfxBytes r.prefixLen)).length = 6 + pfxBytes r.prefixLen := by
  have := h.pfxBytes_le
  simp
  omega

theorem decode_encode (h : r.Encodable) (rest : List UInt8) :
    decode (r.encode ++ rest) = some (r, r.encode.length) := by
  have hbytes := h.pfxBytes_le
  obtain ⟨h80, h40, h20⟩ := r.flags_fields
  let tail := encodeSub r.subTlvs ++ rest
  have hhead := h.length_head
  have hbuf : r.encode ++ rest = digits 4 r.metric.toNat ++ (r.flags :: r.prefixLen ::
      ((digits 16 r.pfx.toNat).take (pfxBytes r.prefixLen) ++ tail)) := by
    rw [h.encode_eq]
    simp [tail]
  have hsub : decodeSub (r.encode ++ rest) (6 + pfxBytes r.prefixLen) r.subTlvs.isSome =
      some (r.subTlvs, 6 + pfxBytes r.prefixLen + (encodeSub r.subTlvs).length) := by
    rw [h.encode_eq, List.append_assoc]
    exact decodeSub_encodeSub h.sub_le hhead rest
  have hlen : 6 + pfxBytes r.prefixLen ≤ (r.encode ++ rest).length := by
    rw [h.encode_eq, List.append_assoc, List.length_append, hhead]
    omega
  have h4 : (r.encode ++ rest).getD 4 0 = r.flags := by
    rw [hbuf]
    simp
  have h5 : (r.encode ++ rest).getD 5 0 = r.prefixLen := by
    rw [hbuf]
    simp [List.getElem?_append_right]
  have hmetric : UInt32.ofNat (value ((r.encode ++ rest).take 4)) = r.metric := by
    rw [hbuf, List.take_left' (length_digits 4 _), value_digits_of_lt r.metric.toNat_lt, UInt32.ofNat_toNat]
  have hpfx : ((r.encode ++ rest).drop 6).take (pfxBytes r.prefixLen) =
      (digits 16 r.pfx.toNat).take (pfxBytes r.prefixLen) := by
    rw [hbuf, show 6 = 4 + 2 from rfl, ← List.drop_drop, List.drop_left' (length_digits 4 _)]
    refine List.take_left' ?_
    rw [List.length_take, length_digits]
    omega
  have haddr : value ((digits 16 r.pfx.toNat).take (pfxBytes r.prefixLen) ++
      List.replicate (16 - pfxBytes r.prefixLen) 0) = r.pfx.toNat := by
    have hsplit : 16 = pfxBytes r.prefixLen + (16 - pfxBytes r.prefixLen) := by omega
    have htake := value_take_digits (k := pfxBytes r.prefixLen) (j := 16 - pfxBytes r.prefixLen) (x := r.pfx.toNat)
      (by rw [← hsplit]; exact r.pfx.isLt) h.dvd
    rwa [← hsplit] at htake
  have htotal : r.encode.length = 6 + pfxBytes r.prefixLen + (encodeSub r.subTlvs).length := by
    rw [h.encode_eq, List.length_append, hhead]
  rw [decode, if_neg (by omega), h4, h5]
  dsimp only
  rw [h80, h40, h20, if_neg (UInt8.not_lt.mpr h.prefixLen_le), if_neg (by omega), hsub, hmetric, hpfx, haddr, htotal]
  simp

end Encodable
end Ipv6Reach

end Wren.Isis
