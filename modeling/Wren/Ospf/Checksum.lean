import Wren.Ospf.Lsa

/-! What `fletcher16` writes, and the length and checksum of an encoded LSA. -/

namespace Wren.Ospf
open Octets

/-- An octet as the checksum counts it. -/
def octet (b : UInt8) : ZMod 255 := b.toNat

theorem octet_inj {a b : UInt8} (ha : a ≠ 0) (hb : b ≠ 0) (h : octet a = octet b) : a = b := by
  have hpos : ∀ c : UInt8, c ≠ 0 → 0 < c.toNat := by
    intro c hc
    by_contra h0
    exact hc (UInt8.toNat_inj.mp (by simpa using h0))
  have hmod := (ZMod.natCast_eq_natCast_iff _ _ _).mp h
  have ha' := hpos a ha
  have hb' := hpos b hb
  have hla := a.toNat_lt
  have hlb := b.toNat_lt
  apply UInt8.toNat_inj.mp
  unfold Nat.ModEq at hmod
  omega

theorem octet_eq_zero_iff (b : UInt8) : octet b = 0 ↔ b = 0 ∨ b = 255 := by
  have hlt := b.toNat_lt
  rw [octet, ZMod.natCast_eq_zero_iff, ← UInt8.toNat_inj, ← UInt8.toNat_inj]
  change 255 ∣ b.toNat ↔ b.toNat = 0 ∨ b.toNat = 255
  omega

def castSums (c : ℕ × ℕ) : ZMod 255 × ZMod 255 := (c.1, c.2)

theorem castSums_mod (c : ℕ × ℕ) : castSums (c.1 % 255, c.2 % 255) = castSums c := by
  simp only [castSums]
  rw [ZMod.natCast_mod, ZMod.natCast_mod]

theorem castSums_foldl (l : List UInt8) (c : ℕ × ℕ) :
    castSums (l.foldl (fun c b => (c.1 + b.toNat, c.2 + (c.1 + b.toNat))) c) =
      Fletcher.run (castSums c) (l.map octet) := by
  induction l generalizing c with
  | nil => rfl
  | cons b l ih =>
    rw [List.foldl_cons, ih]
    simp [Fletcher.run, castSums, octet]

theorem castSums_fletcherBlocks {n : ℕ} {region : List UInt8} (hn : region.length ≤ n) (c : ℕ × ℕ) :
    castSums (fletcherBlocks n region c) = Fletcher.run (castSums c) (region.map octet) := by
  induction n generalizing region c with
  | zero =>
    have hnil : region = [] := List.length_eq_zero_iff.mp (by omega)
    subst hnil
    rfl
  | succ n ih =>
    rw [fletcherBlocks]
    split_ifs with hempty
    · rw [List.isEmpty_iff.mp hempty]
      rfl
    · have hpos : 0 < region.length := by
        rw [List.length_pos_iff]
        simpa using hempty
      have hdrop : (region.drop modx).length ≤ n := by
        have : modx = 4102 := rfl
        rw [List.length_drop]
        omega
      have hsplit : region.map octet = (region.take modx).map octet ++ (region.drop modx).map octet := by
        rw [← List.map_append, List.take_append_drop]
      rw [ih hdrop, castSums_mod, castSums_foldl, hsplit]
      exact List.foldl_append.symm

theorem fletcherBlocks_lt {n : ℕ} {region : List UInt8} {c : ℕ × ℕ} (hc : c.1 < 255 ∧ c.2 < 255) :
    (fletcherBlocks n region c).1 < 255 ∧ (fletcherBlocks n region c).2 < 255 := by
  induction n generalizing region c with
  | zero => exact hc
  | succ n ih =>
    rw [fletcherBlocks]
    split_ifs
    · exact hc
    · exact ih ⟨Nat.mod_lt _ (by decide), Nat.mod_lt _ (by decide)⟩

theorem fletcherSums_lt (region : List UInt8) :
    (fletcherSums region).1 < 255 ∧ (fletcherSums region).2 < 255 :=
  fletcherBlocks_lt ⟨by decide, by decide⟩

/-- The sums are those of the region, modulo 255. -/
theorem castSums_fletcherSums (region : List UInt8) :
    ((fletcherSums region).1 : ZMod 255) = (region.map octet).sum ∧
      ((fletcherSums region).2 : ZMod 255) = Fletcher.weighted (region.map octet) := by
  have h := castSums_fletcherBlocks (le_refl region.length) (0, 0)
  rw [Fletcher.run_eq] at h
  constructor
  · simpa [castSums, fletcherSums] using congrArg Prod.fst h
  · simpa [castSums, fletcherSums] using congrArg Prod.snd h

theorem fletcher16Valid_iff (region : List UInt8) :
    fletcher16Valid region = true ↔ Fletcher.Valid (region.map octet) := by
  obtain ⟨h0, h1⟩ := castSums_fletcherSums region
  obtain ⟨hlt0, hlt1⟩ := fletcherSums_lt region
  have hzero : ∀ c : ℕ, c < 255 → (c = 0 ↔ (c : ZMod 255) = 0) := by
    intro c hc
    rw [ZMod.natCast_eq_zero_iff]
    omega
  simp only [fletcher16Valid, Bool.and_eq_true, beq_iff_eq, Fletcher.Valid, ← h0, ← h1]
  rw [hzero _ hlt0, hzero _ hlt1]

/-- The check octets that go into a region with these sums. -/
theorem check_octets (len off : ℤ) {c : ℕ × ℕ} (hc : c.1 < 255) :
    let x := Int.tmod ((len - off - 1) * c.1 - c.2) 255
    let x := if x ≤ 0 then x + 255 else x
    let y := 510 - (c.1 : ℤ) - x
    let y := if y > 255 then y - 255 else y
    (1 ≤ x ∧ x ≤ 255) ∧ (1 ≤ y ∧ y ≤ 255) ∧
      (x : ZMod 255) = (len - off - 1) * c.1 - c.2 ∧ (y : ZMod 255) = -c.1 - x := by
  intro x₀ x y₀ y
  have h255 : (255 : ZMod 255) = 0 := by decide
  have hlo : -255 < x₀ := Int.lt_tmod_of_pos _ (by decide)
  have hhi : x₀ < 255 := Int.tmod_lt_of_pos _ (by decide)
  have hx : 1 ≤ x ∧ x ≤ 255 := by
    simp only [x]
    split_ifs <;> omega
  have hy : 1 ≤ y ∧ y ≤ 255 := by
    simp only [y, y₀]
    split_ifs <;> omega
  have hx₀ : (x₀ : ZMod 255) = (len - off - 1) * c.1 - c.2 := by
    have hdiv := Int.mul_tdiv_add_tmod ((len - off - 1) * c.1 - c.2) 255
    have hcast := congrArg (Int.cast : ℤ → ZMod 255) hdiv
    push_cast at hcast
    rw [h255, zero_mul, zero_add] at hcast
    exact hcast
  have hxc : (x : ZMod 255) = x₀ := by
    simp only [x]
    split_ifs
    · push_cast
      rw [h255, add_zero]
    · rfl
  refine ⟨hx, hy, hxc.trans hx₀, ?_⟩
  have hy₀ : (y₀ : ZMod 255) = -c.1 - x := by
    simp only [y₀]
    push_cast
    have h510 : (510 : ZMod 255) = 0 := by decide
    rw [h510, zero_sub]
  have hyc : (y : ZMod 255) = y₀ := by
    simp only [y]
    split_ifs
    · push_cast
      rw [h255, sub_zero]
    · rfl
  exact hyc.trans hy₀

theorem ne_zero_of_pos {z : ℤ} (h : 1 ≤ z ∧ z ≤ 255) :
    UInt8.ofNat z.toNat ≠ 0 ∧ octet (UInt8.ofNat z.toNat) = (z : ZMod 255) := by
  have hmod : (UInt8.ofNat z.toNat).toNat = z.toNat := by
    rw [UInt8.toNat_ofNat']
    exact Nat.mod_eq_of_lt (by omega)
  constructor
  · intro h0
    rw [h0] at hmod
    have : (0 : UInt8).toNat = 0 := rfl
    omega
  · rw [octet, hmod, ← Int.cast_natCast, Int.toNat_of_nonneg (by omega)]

/-- The region is valid afterwards, and the check octets are never zero. -/
theorem fletcher16_eq (p t : List UInt8) (a b : UInt8) :
    ∃ x y, (fletcher16 (p ++ a :: b :: t) p.length).1 = p ++ x :: y :: t ∧ x ≠ 0 ∧ y ≠ 0 ∧
      Fletcher.Valid ((p ++ x :: y :: t).map octet) := by
  let region := p ++ 0 :: 0 :: t
  have hzeroed : ((p ++ a :: b :: t).set p.length 0).set (p.length + 1) 0 = region := by
    simp [region]
  have hset : ∀ x y, (region.set p.length x).set (p.length + 1) y = p ++ x :: y :: t := by
    intro x y
    simp [region]
  obtain ⟨h0, h1⟩ := castSums_fletcherSums region
  obtain ⟨hx, hy, hxv, hyv⟩ := check_octets region.length p.length (fletcherSums_lt region).1
  obtain ⟨hx0, hxo⟩ := ne_zero_of_pos hx
  obtain ⟨hy0, hyo⟩ := ne_zero_of_pos hy
  refine ⟨_, _, ?_, hx0, hy0, ?_⟩
  · simp only [fletcher16, hzeroed]
    exact hset _ _
  · rw [List.map_append, List.map_cons, List.map_cons, Fletcher.valid_check_iff, hxo, hyo, hxv, hyv]
    have hmap : p.map octet ++ 0 :: 0 :: t.map octet = region.map octet := by
      simp [region, octet]
    have hlen : ((region.length : ℤ) : ZMod 255) - ((p.length : ℤ) : ZMod 255) - 1 = (t.map octet).length + 1 := by
      simp only [region, List.length_append, List.length_cons, List.length_map]
      push_cast
      ring
    rw [hmap, ← h0, ← h1, hlen]
    exact ⟨rfl, by rw [hxv, hlen]⟩

/-- The octets of a header that the checksum covers, up to the checksum itself. -/
def LsaHeader.cover (h : LsaHeader) : List UInt8 :=
  [h.options, h.lsType.asU8] ++ digits 4 h.linkStateId.toNat ++ digits 4 h.advertisingRouter.toNat ++
    digits 4 h.lsSeq.toUInt32.toNat

@[simp] theorem LsaHeader.length_cover (h : LsaHeader) : h.cover.length = 14 := by
  simp [cover]

theorem LsaHeader.encode_eq (h : LsaHeader) :
    h.encode = digits 2 h.lsAge.toNat ++ (h.cover ++ (digits 2 h.lsChecksum.toNat ++ digits 2 h.length.toNat)) := by
  simp [encode, cover]

theorem exists_pair {l : List UInt8} (h : l.length = 2) : ∃ a b, l = [a, b] := by
  obtain ⟨a, b, rfl⟩ := List.length_eq_two.mp h
  exact ⟨a, b, rfl⟩

/-- Filling length and checksum into an LSA: what stands there before has no part in it, and the check octets fit and
are not zero. -/
theorem fill_eq {a p c n t : List UInt8} (ha : a.length = 2) (hp : p.length = 14) (hc : c.length = 2)
    (hn : n.length = 2) :
    let out := a ++ (p ++ (c ++ n)) ++ t
    ∃ x y, stampChecksum (out.take 18 ++ digits 2 out.length ++ out.drop 20) =
        a ++ (p ++ x :: y :: (digits 2 (20 + t.length) ++ t)) ∧ x ≠ 0 ∧ y ≠ 0 ∧
      Fletcher.Valid ((p ++ x :: y :: (digits 2 (20 + t.length) ++ t)).map octet) := by
  intro out
  obtain ⟨b, d, rfl⟩ := exists_pair hc
  obtain ⟨x, y, hreg, hx, hy, hv⟩ := fletcher16_eq p (digits 2 (20 + t.length) ++ t) b d
  refine ⟨x, y, ?_, hx, hy, hv⟩
  have hout : out = (a ++ (p ++ [b, d])) ++ (n ++ t) := by simp [out]
  have hlead : (a ++ (p ++ [b, d])).length = 18 := by simp [ha, hp]
  have hlen : out.length = 20 + t.length := by
    simp [out, ha, hp, hn]
    omega
  have hhead : (a ++ (p ++ ([b, d] ++ n))).length = 20 := by simp [ha, hp, hn]
  have hdrop : out.drop 20 = t := List.drop_left' hhead
  have htake : out.take 18 = a ++ (p ++ [b, d]) := by
    rw [hout]
    exact List.take_left' hlead
  have hcover : lsaCsumOffset = p.length := hp.symm
  simp only [stampChecksum, hlen, htake, hdrop, List.append_assoc]
  rw [List.take_left' ha, List.drop_left' ha, hcover, ← hreg]
  simp

/-- A field that stands between two parts of a buffer. -/
theorem field_between {p q r : List UInt8} {s n : ℕ} (hp : p.length = s) (hq : q.length = n) :
    field (p ++ (q ++ r)) s n = value q := by
  rw [field, List.drop_left' hp, List.take_left' hq]

/-- What stands in the length and checksum fields once they are filled in. -/
theorem fields_filled {buf a p t : List UInt8} {x y : UInt8} {n : ℕ} (ha : a.length = 2) (hp : p.length = 14)
    (h : buf = a ++ (p ++ x :: y :: (digits 2 n ++ t))) : field buf 16 2 = value [x, y] ∧ field buf 18 2 = n % 65536 := by
  have hapx : (a ++ p).length = 16 := by simp [ha, hp]
  have hapxy : (a ++ p ++ [x, y]).length = 18 := by simp [ha, hp]
  have hcheck : buf = a ++ p ++ ([x, y] ++ (digits 2 n ++ t)) := by
    rw [h]
    simp
  have hlength : buf = a ++ p ++ [x, y] ++ (digits 2 n ++ t) := by
    rw [h]
    simp
  constructor
  · rw [hcheck]
    exact field_between hapx rfl
  · rw [hlength, field_between hapxy (length_digits 2 n), value_digits]
    norm_num

namespace Lsa

/-- The octets of an LSA: its age, what the checksum covers, and check octets that fit. -/
theorem encode_eq (l : Lsa) :
    ∃ x y, l.encode = digits 2 l.header.lsAge.toNat ++
        (l.header.cover ++ x :: y :: (digits 2 (20 + l.body.encode.length) ++ l.body.encode)) ∧
      x ≠ 0 ∧ y ≠ 0 ∧
      Fletcher.Valid ((l.header.cover ++ x :: y ::
        (digits 2 (20 + l.body.encode.length) ++ l.body.encode)).map octet) := by
  have hfill := fill_eq (length_digits 2 l.header.lsAge.toNat) l.header.length_cover
    (length_digits 2 l.header.lsChecksum.toNat) (length_digits 2 l.header.length.toNat) (t := l.body.encode)
  rw [← LsaHeader.encode_eq] at hfill
  exact hfill

/-- The check octets of an LSA are the only ones that fit and are not zero. -/
theorem check_unique {h : LsaHeader} {t : List UInt8} {x y x' y' : UInt8} (hx : x ≠ 0) (hy : y ≠ 0)
    (hx' : x' ≠ 0) (hy' : y' ≠ 0) (hv : Fletcher.Valid ((h.cover ++ x :: y :: t).map octet))
    (hv' : Fletcher.Valid ((h.cover ++ x' :: y' :: t).map octet)) : x = x' ∧ y = y' := by
  rw [List.map_append, List.map_cons, List.map_cons, Fletcher.valid_check_iff] at hv hv'
  have hxx : octet x = octet x' := hv.1.trans hv'.1.symm
  have hyy : octet y = octet y' := by rw [hv.2, hv'.2, hxx]
  exact ⟨octet_inj hx hx' hxx, octet_inj hy hy' hyy⟩

/-- Length, checksum and age of the header have no part in the check octets. -/
theorem encode_congr {l m : Lsa} (hcover : l.header.cover = m.header.cover) (hbody : l.body = m.body) :
    field l.encode 16 2 = field m.encode 16 2 ∧ field l.encode 18 2 = field m.encode 18 2 := by
  obtain ⟨x, y, hl, hx, hy, hv⟩ := encode_eq l
  obtain ⟨x', y', hm, hx', hy', hv'⟩ := encode_eq m
  rw [← hcover, ← hbody] at hv'
  obtain ⟨rfl, rfl⟩ := check_unique hx hy hx' hy' hv hv'
  obtain ⟨hlc, hll⟩ := fields_filled (length_digits 2 _) l.header.length_cover hl
  obtain ⟨hmc, hml⟩ := fields_filled (length_digits 2 _) m.header.length_cover hm
  rw [hlc, hll, hmc, hml, hbody]
  exact ⟨rfl, rfl⟩

/-- Only length and checksum differ afterwards. -/
theorem cover_stamp (l : Lsa) : l.stamp.header.cover = l.header.cover := by
  simp only [stamp, LsaHeader.cover]

theorem body_stamp (l : Lsa) : l.stamp.body = l.body := by
  simp only [stamp]

/-- Stamping twice changes nothing more. -/
@[simp] theorem stamp_stamp (l : Lsa) : l.stamp.stamp = l.stamp := by
  obtain ⟨hc, hl⟩ := encode_congr l.cover_stamp l.body_stamp
  rw [stamp, hc, hl]
  simp only [stamp]

def withAge (l : Lsa) (age : UInt16) : Lsa := { l with header := { l.header with lsAge := age } }

theorem stamp_withAge (l : Lsa) (age : UInt16) : (l.withAge age).stamp = l.stamp.withAge age := by
  have hcover : (l.withAge age).header.cover = l.header.cover := by simp only [withAge, LsaHeader.cover]
  have hbody : (l.withAge age).body = l.body := by simp only [withAge]
  obtain ⟨hc, hl⟩ := encode_congr hcover hbody
  rw [stamp, hc, hl]
  simp only [stamp, withAge]

end Lsa
end Wren.Ospf
