import Wren.Ospf.Checksum

/-! The checksum in the 32-bit arithmetic of the code. `none` propagates an overflow, and an index out of bounds. -/

namespace Wren.Ospf

def i32? (z : ℤ) : Option ℤ := if -2147483648 ≤ z ∧ z ≤ 2147483647 then some z else none

/-- `as i32` wraps. -/
def asI32 (n : ℕ) : ℤ := Int.bmod n 4294967296

def addOctet? (c : ℤ × ℤ) (b : UInt8) : Option (ℤ × ℤ) := do
  let c0 ← i32? (c.1 + b.toNat)
  let c1 ← i32? (c.2 + c0)
  return (c0, c1)

/-- Running sums, reduced after each block. -/
def fletcherBlocks? : ℕ → List UInt8 → ℤ × ℤ → Option (ℤ × ℤ)
  | 0, _, c => some c
  | n + 1, region, c =>
    if region.isEmpty then some c
    else do
      let d ← (region.take modx).foldlM addOctet? c
      fletcherBlocks? n (region.drop modx) (d.1.tmod 255, d.2.tmod 255)

def fletcherSums? (region : List UInt8) : Option (ℤ × ℤ) := fletcherBlocks? region.length region (0, 0)

/-- The two octets that make up for the sums of a region. -/
def check? (len off : ℤ) (c : ℤ × ℤ) : Option (ℤ × ℤ) := do
  let after ← i32? (len - off)
  let after ← i32? (after - 1)
  let weight ← i32? (after * c.1)
  let x := (← i32? (weight - c.2)).tmod 255
  let x ← i32? (if x ≤ 0 then x + 255 else x)
  let y ← i32? (510 - c.1)
  let y ← i32? (y - x)
  let y ← i32? (if y > 255 then y - 255 else y)
  return (x, y)

def fletcher16? (region : List UInt8) (csumOff : ℕ) : Option (List UInt8 × UInt16) :=
  if region.length ≤ csumOff + 1 then none
  else do
    let region := (region.set csumOff 0).set (csumOff + 1) 0
    let c ← fletcherSums? region
    let (x, y) ← check? (asI32 region.length) (asI32 csumOff) c
    return ((region.set csumOff (UInt8.ofNat x.toNat)).set (csumOff + 1) (UInt8.ofNat y.toNat),
      UInt16.ofNat (x.toNat * 256 + y.toNat % 256))

def fletcher16Valid? (region : List UInt8) : Option Bool := do
  let c ← fletcherSums? region
  return c.1 == 0 && c.2 == 0

theorem i32?_eq {z : ℤ} (hlo : -2147483648 ≤ z) (hhi : z ≤ 2147483647) : i32? z = some z := if_pos ⟨hlo, hhi⟩

theorem asI32_eq {n : ℕ} (h : n ≤ 65535) : asI32 n = n := Int.bmod_eq_of_le_mul_two (by omega) (by omega)

def intSums (c : ℕ × ℕ) : ℤ × ℤ := (c.1, c.2)

theorem addOctet?_eq {c : ℕ × ℕ} {b : UInt8} (h : c.2 + (c.1 + b.toNat) ≤ 2147483647) :
    addOctet? (intSums c) b = some (intSums (c.1 + b.toNat, c.2 + (c.1 + b.toNat))) := by
  have h0 : i32? ((c.1 : ℤ) + b.toNat) = some ((c.1 : ℤ) + b.toNat) := i32?_eq (by omega) (by omega)
  have h1 : i32? ((c.2 : ℤ) + (c.1 + b.toNat)) = some ((c.2 : ℤ) + (c.1 + b.toNat)) := i32?_eq (by omega) (by omega)
  simp [addOctet?, intSums, h0, h1]

/-- Every octet adds at most 255 to the running total, and the running total to the second sum. -/
theorem foldlM_addOctet? {l : List UInt8} {c : ℕ × ℕ}
    (h : 2 * (c.2 + l.length * c.1) + 255 * (l.length * (l.length + 1)) ≤ 4294967294) :
    l.foldlM addOctet? (intSums c) = some (intSums (l.foldl (fun c b => (c.1 + b.toNat, c.2 + (c.1 + b.toNat))) c)) := by
  induction l generalizing c with
  | nil => rfl
  | cons b l ih =>
    have hb : b.toNat ≤ 255 := by
      have := b.toNat_lt
      omega
    have hmul : l.length * (c.1 + b.toNat) ≤ l.length * c.1 + l.length * 255 := by
      rw [← Nat.mul_add]
      exact Nat.mul_le_mul_left _ (by omega)
    have hlen : 2 * (c.2 + (l.length + 1) * c.1) + 255 * ((l.length + 1) * (l.length + 1 + 1)) ≤ 4294967294 := h
    have hsquare : (l.length + 1) * (l.length + 1 + 1) = l.length * (l.length + 1) + 2 * l.length + 2 := by ring
    have hcount : (l.length + 1) * c.1 = l.length * c.1 + c.1 := by ring
    have hstep : 2 * ((c.2 + (c.1 + b.toNat)) + l.length * (c.1 + b.toNat)) +
        255 * (l.length * (l.length + 1)) ≤ 4294967294 := by omega
    rw [List.foldlM_cons, addOctet?_eq (by omega)]
    exact ih hstep

/-- A block is short enough for sums that were reduced before it. -/
theorem fletcherBlocks?_eq {n : ℕ} {region : List UInt8} {c : ℕ × ℕ} (hc : c.1 < 255 ∧ c.2 < 255) :
    fletcherBlocks? n region (intSums c) = some (intSums (fletcherBlocks n region c)) := by
  induction n generalizing region c with
  | zero => rfl
  | succ n ih =>
    rw [fletcherBlocks?, fletcherBlocks]
    split_ifs with hempty
    · rfl
    · have hlen : (region.take modx).length ≤ 4102 := List.length_take_le _ _
      have hfirst : (region.take modx).length * c.1 ≤ 4102 * 254 := Nat.mul_le_mul hlen (by omega)
      have hsquare : (region.take modx).length * ((region.take modx).length + 1) ≤ 4102 * 4103 :=
        Nat.mul_le_mul hlen (by omega)
      rw [foldlM_addOctet? (by omega)]
      exact ih (c := (_ % 255, _ % 255)) ⟨Nat.mod_lt _ (by decide), Nat.mod_lt _ (by decide)⟩

theorem fletcherSums?_eq (region : List UInt8) : fletcherSums? region = some (intSums (fletcherSums region)) :=
  fletcherBlocks?_eq (c := (0, 0)) ⟨by decide, by decide⟩

theorem fletcher16Valid?_eq (region : List UInt8) : fletcher16Valid? region = some (fletcher16Valid region) := by
  rw [fletcher16Valid?, fletcherSums?_eq, fletcher16Valid]
  obtain ⟨c0, c1⟩ := fletcherSums region
  cases c0 <;> cases c1 <;> rfl

theorem check?_eq {len off : ℤ} {c : ℕ × ℕ} (hlen : len ≤ 65535) (hoff : 0 ≤ off) (h : off + 1 < len)
    (hc : c.1 < 255 ∧ c.2 < 255) :
    check? len off (intSums c) =
      some (let x := Int.tmod ((len - off - 1) * c.1 - c.2) 255
        let x := if x ≤ 0 then x + 255 else x
        let y := 510 - (c.1 : ℤ) - x
        (x, if y > 255 then y - 255 else y)) := by
  obtain ⟨c0, c1⟩ := c
  have hprod : 0 ≤ (len - off - 1) * (c0 : ℤ) ∧ (len - off - 1) * (c0 : ℤ) ≤ 65535 * 254 :=
    ⟨mul_nonneg (by omega) (by omega), mul_le_mul (by omega) (by omega) (by omega) (by norm_num)⟩
  have hlo := Int.lt_tmod_of_pos ((len - off - 1) * (c0 : ℤ) - c1) (show (0 : ℤ) < 255 by decide)
  have hhi := Int.tmod_lt_of_pos ((len - off - 1) * (c0 : ℤ) - c1) (show (0 : ℤ) < 255 by decide)
  have hafter : i32? (len - off) = some (len - off) := i32?_eq (by omega) (by omega)
  have hnext : i32? (len - off - 1) = some (len - off - 1) := i32?_eq (by omega) (by omega)
  have hweight : i32? ((len - off - 1) * c0) = some ((len - off - 1) * (c0 : ℤ)) := i32?_eq (by omega) (by omega)
  have hdiff : i32? ((len - off - 1) * c0 - c1) = some ((len - off - 1) * (c0 : ℤ) - c1) :=
    i32?_eq (by omega) (by omega)
  simp only [check?, intSums, Option.bind_eq_bind, hafter, Option.bind_some, hnext, hweight, hdiff]
  generalize ((len - off - 1) * (c0 : ℤ) - c1).tmod 255 = x at hlo hhi
  have hpos : 1 ≤ (if x ≤ 0 then x + 255 else x) ∧ (if x ≤ 0 then x + 255 else x) ≤ 255 := by
    split_ifs <;> omega
  generalize (if x ≤ 0 then x + 255 else x) = x at hpos
  have hx : i32? x = some x := i32?_eq (by omega) (by omega)
  have hfirst : i32? (510 - c0) = some (510 - (c0 : ℤ)) := i32?_eq (by omega) (by omega)
  have hsecond : i32? (510 - c0 - x) = some (510 - (c0 : ℤ) - x) := i32?_eq (by omega) (by omega)
  have hy : i32? (if 510 - (c0 : ℤ) - x > 255 then 510 - (c0 : ℤ) - x - 255 else 510 - (c0 : ℤ) - x) =
      some (if 510 - (c0 : ℤ) - x > 255 then 510 - (c0 : ℤ) - x - 255 else 510 - (c0 : ℤ) - x) := by
    apply i32?_eq
    all_goals split_ifs <;> omega
  simp only [hx, hfirst, hsecond, Option.bind_some, hy]
  rfl

/-- Nothing overflows in a region as long as the length field of an LSA allows. -/
theorem fletcher16?_eq {region : List UInt8} {csumOff : ℕ} (hlen : region.length ≤ 65535)
    (hoff : csumOff + 1 < region.length) : fletcher16? region csumOff = some (fletcher16 region csumOff) := by
  obtain ⟨zeroed, hzeroed⟩ : ∃ zeroed, (region.set csumOff 0).set (csumOff + 1) 0 = zeroed := ⟨_, rfl⟩
  have hsame : zeroed.length = region.length := by simp [← hzeroed]
  have hcheck := @check?_eq zeroed.length csumOff (fletcherSums zeroed) (by omega) (by omega) (by omega)
    (fletcherSums_lt zeroed)
  rw [fletcher16?, if_neg (by omega), fletcher16]
  simp only [hzeroed, Option.bind_eq_bind, fletcherSums?_eq, Option.bind_some, asI32_eq (show zeroed.length ≤ 65535 by omega),
    asI32_eq (show csumOff ≤ 65535 by omega), hcheck]
  rfl

/-- Both symbols are written where they belong, and what was there has no part in them. -/
theorem fletcher16_set {region : List UInt8} {csumOff : ℕ} (hoff : csumOff + 1 < region.length) :
    ∃ x y : UInt8, (fletcher16 region csumOff).1 = (region.set csumOff x).set (csumOff + 1) y ∧ x ≠ 0 ∧ y ≠ 0 ∧
      fletcher16Valid (fletcher16 region csumOff).1 = true := by
  obtain ⟨p, t, a, b, rfl, rfl⟩ : ∃ p t a b, region = p ++ a :: b :: t ∧ csumOff = p.length := by
    refine ⟨region.take csumOff, region.drop (csumOff + 2), region[csumOff], region[csumOff + 1], ?_, ?_⟩
    · rw [List.getElem_cons_drop, List.getElem_cons_drop, List.take_append_drop]
    · rw [List.length_take]
      omega
  obtain ⟨x, y, heq, hx, hy, hv⟩ := fletcher16_eq p t a b
  refine ⟨x, y, ?_, hx, hy, ?_⟩
  · rw [heq]
    simp
  · rw [heq, fletcher16Valid_iff]
    exact hv

theorem octet_eq_iff (a b : UInt8) : octet a = octet b ↔ a.toNat % 255 = b.toNat % 255 := ZMod.natCast_eq_natCast_iff _ _ _

/-- One symbol of a valid region is determined by the others, up to the modulus. -/
theorem not_valid_set {region : List UInt8} {i : ℕ} {b : UInt8} (hv : fletcher16Valid region = true) (hi : i < region.length)
    (hb : b.toNat % 255 ≠ region[i].toNat % 255) : fletcher16Valid (region.set i b) = false := by
  rw [← Bool.not_eq_true, fletcher16Valid_iff]
  intro hset
  have hsum := ((fletcher16Valid_iff region).mp hv).1.trans hset.1.symm
  have hregion : region.map octet = (region.take i).map octet ++ octet region[i] :: (region.drop (i + 1)).map octet := by
    rw [← List.map_cons, List.getElem_cons_drop, ← List.map_append, List.take_append_drop]
  have hchanged : (region.set i b).map octet =
      (region.take i).map octet ++ octet b :: (region.drop (i + 1)).map octet := by
    rw [List.set_eq_take_append_cons_drop, if_pos hi, List.map_append, List.map_cons]
  rw [hregion, hchanged] at hsum
  simp only [List.sum_append, List.sum_cons, add_right_inj, add_left_inj] at hsum
  exact hb ((octet_eq_iff _ _).mp hsum.symm)

/-- The checksum is computed without an overflow and fits, no octet of a valid region can change but between 0 and 255,
and the age of an LSA is not covered. -/
theorem checksum_law :
    (∀ (region : List UInt8) (csumOff : ℕ), region.length ≤ 65535 → csumOff + 1 < region.length →
      ∃ (x y : UInt8) (c : UInt16), x ≠ 0 ∧ y ≠ 0 ∧
        fletcher16? region csumOff = some ((region.set csumOff x).set (csumOff + 1) y, c) ∧
        fletcher16Valid? ((region.set csumOff x).set (csumOff + 1) y) = some true) ∧
    (∀ (region : List UInt8) (i : ℕ) (hi : i < region.length) (b : UInt8), fletcher16Valid? region = some true →
      b.toNat % 255 ≠ region[i].toNat % 255 → fletcher16Valid? (region.set i b) = some false) ∧
    ∀ (lsa : List UInt8) (a b : UInt8), checksumValid ((lsa.set 0 a).set 1 b) = checksumValid lsa := by
  refine ⟨?_, ?_, ?_⟩
  · intro region csumOff hlen hoff
    obtain ⟨x, y, heq, hx, hy, hv⟩ := fletcher16_set hoff
    refine ⟨x, y, (fletcher16 region csumOff).2, hx, hy, ?_, ?_⟩
    · rw [fletcher16?_eq hlen hoff, ← heq]
    · rw [fletcher16Valid?_eq, ← heq, hv]
  · intro region i hi b hv hb
    rw [fletcher16Valid?_eq, Option.some_inj] at hv ⊢
    exact not_valid_set hv hi hb
  · intro lsa a b
    simp only [checksumValid, List.length_set]
    congr 2
    simp [List.drop_set]

theorem checksum_law_three :
    (∃ (x y : UInt8) (c : UInt16), x ≠ 0 ∧ y ≠ 0 ∧ fletcher16? [1, 2, 3] 0 = some ([x, y, 3], c) ∧
        fletcher16Valid? [x, y, 3] = some true) ∧
      fletcher16Valid? [255, 7, 255] = some false :=
  ⟨checksum_law.1 [1, 2, 3] 0 (by decide) (by decide),
    checksum_law.2.1 [255, 0, 255] 1 (by decide) 7 (by decide) (by decide)⟩

end Wren.Ospf
