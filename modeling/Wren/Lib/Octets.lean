import Mathlib

/-! Big-endian numbers as lists of octets. -/

namespace Octets

/-- The number that octets spell, most significant first. -/
def value (l : List UInt8) : ℕ := l.foldl (fun n b => n * 256 + b.toNat) 0

/-- The `n` low octets of `x`, most significant first. -/
def digits : ℕ → ℕ → List UInt8
  | 0, _ => []
  | n + 1, x => digits n (x / 256) ++ [UInt8.ofNat x]

/-- The `len` octets from `start` on, if there are that many. -/
def slice? (buf : List UInt8) (start len : ℕ) : Option (List UInt8) :=
  if start + len ≤ buf.length then some ((buf.drop start).take len) else none

@[simp] theorem slice?_cons_succ (b : UInt8) (buf : List UInt8) (start len : ℕ) :
    slice? (b :: buf) (start + 1) len = slice? buf start len := by
  have hle : start + 1 + len ≤ buf.length + 1 ↔ start + len ≤ buf.length := by omega
  simp [slice?, hle]

theorem slice?_append {l : List UInt8} {n : ℕ} (hl : l.length = n) (r : List UInt8) :
    slice? (l ++ r) 0 n = some l := by
  subst hl
  simp [slice?]

theorem slice?_append_right {l : List UInt8} {n : ℕ} (hl : l.length = n) (r : List UInt8)
    (start len : ℕ) : slice? (l ++ r) (n + start) len = slice? r start len := by
  subst hl
  have hle : l.length + start + len ≤ l.length + r.length ↔ start + len ≤ r.length := by omega
  simp [slice?, hle]

@[simp] theorem value_nil : value [] = 0 := rfl

theorem value_concat (l : List UInt8) (b : UInt8) : value (l ++ [b]) = value l * 256 + b.toNat := by
  rw [value, List.foldl_append]
  rfl

theorem value_append_zeros (l : List UInt8) (n : ℕ) :
    value (l ++ List.replicate n 0) = value l * 256 ^ n := by
  induction n with
  | zero => simp
  | succ n ih =>
    rw [List.replicate_succ', ← List.append_assoc, value_concat, ih, pow_succ]
    simp [mul_assoc]

theorem value_append (l r : List UInt8) : value (l ++ r) = value l * 256 ^ r.length + value r := by
  induction r using List.reverseRecOn with
  | nil => simp
  | append_singleton r b ih =>
    rw [← List.append_assoc, value_concat, value_concat, ih, List.length_append, List.length_singleton,
      pow_succ]
    ring

@[simp] theorem length_digits (n x : ℕ) : (digits n x).length = n := by
  induction n generalizing x with
  | zero => rfl
  | succ n ih => rw [digits, List.length_append, ih, List.length_singleton]

theorem value_digits (n x : ℕ) : value (digits n x) = x % 256 ^ n := by
  induction n generalizing x with
  | zero => simp [digits, Nat.mod_one]
  | succ n ih =>
    have hlow : (UInt8.ofNat x).toNat = x % 256 := by simp
    rw [digits, value_concat, ih, hlow, pow_succ, Nat.mul_comm (256 ^ n), Nat.mod_mul]
    omega

theorem value_digits_of_lt {n x : ℕ} (h : x < 256 ^ n) : value (digits n x) = x := by
  rw [value_digits, Nat.mod_eq_of_lt h]

theorem digits_value {n : ℕ} {l : List UInt8} (hl : l.length = n) : digits n (value l) = l := by
  induction l using List.reverseRecOn generalizing n with
  | nil =>
    subst hl
    rfl
  | append_singleton l b ih =>
    subst hl
    have hlt := b.toNat_lt
    have hdiv : (value l * 256 + b.toNat) / 256 = value l := by omega
    have hlow : UInt8.ofNat (value l * 256 + b.toNat) = b := by
      apply UInt8.toNat_inj.mp
      simp
    rw [List.length_append, List.length_singleton, digits, value_concat, hdiv, ih rfl, hlow]

theorem value_lt (l : List UInt8) : value l < 256 ^ l.length := by
  have h := value_digits l.length (value l)
  rw [digits_value rfl] at h
  rw [h]
  exact Nat.mod_lt _ (by positivity)

/-- The leading octets are the leading digits. -/
theorem take_digits (k j x : ℕ) : (digits (k + j) x).take k = digits k (x / 256 ^ j) := by
  induction j generalizing x with
  | zero => simp [List.take_of_length_le]
  | succ j ih =>
    rw [← Nat.add_assoc, digits, List.take_append_of_le_length (by simp), ih, Nat.div_div_eq_div_mul,
      pow_succ, Nat.mul_comm (256 ^ j)]

/-- The trailing octets are the trailing digits. -/
theorem drop_digits (k j x : ℕ) : (digits (k + j) x).drop k = digits j x := by
  induction j generalizing x with
  | zero => simp [List.drop_of_length_le, digits]
  | succ j ih => rw [← Nat.add_assoc, digits, List.drop_append_of_le_length (by simp), ih, digits]

/-- Octets that are cut off where only zeros follow lose nothing. -/
theorem value_take_digits {k j x : ℕ} (hx : x < 256 ^ (k + j)) (hdvd : 256 ^ j ∣ x) :
    value ((digits (k + j) x).take k ++ List.replicate j 0) = x := by
  have hlt : x / 256 ^ j < 256 ^ k := Nat.div_lt_of_lt_mul (by rwa [← pow_add, Nat.add_comm])
  rw [take_digits, value_append_zeros, value_digits_of_lt hlt, Nat.div_mul_cancel hdvd]

theorem ofNat_value_digits {w n : ℕ} (a : BitVec w) (hw : 2 ^ w = 256 ^ n) :
    BitVec.ofNat w (value (digits n a.toNat)) = a := by
  rw [value_digits_of_lt (hw ▸ a.isLt), BitVec.ofNat_toNat, BitVec.setWidth_eq]

/-- The host bits of a network are zero, so the octets that are not written are. -/
theorem dvd_of_masked {w len k j : ℕ} {a : BitVec w}
    (hmask : (a &&& if len = 0 then 0 else BitVec.allOnes w <<< (w - len)) = a)
    (hw : w = 8 * (k + j)) (hk : len ≤ 8 * k) : 256 ^ j ∣ a.toNat := by
  have hpow : (256 : ℕ) ^ j = 2 ^ (8 * j) := by
    rw [pow_mul]
    rfl
  have hbit : ∀ i < 8 * j, a.toNat.testBit i = false := by
    intro i hi
    rw [BitVec.testBit_toNat, ← hmask, BitVec.getLsbD_and]
    by_cases h0 : len = 0
    · simp [h0]
    · have hlt : i < w - len := by omega
      simp [h0, hlt]
  rw [hpow]
  apply Nat.dvd_of_mod_eq_zero
  apply Nat.eq_of_testBit_eq
  intro i
  rw [Nat.testBit_mod_two_pow, Nat.zero_testBit]
  by_cases hi : i < 8 * j
  · simp [hbit i hi]
  · simp [hi]

theorem ofNat_value_take {w n k : ℕ} {len : UInt8} {a : BitVec w} (hw : w = 8 * n)
    (hk : k = (len.toNat + 7) / 8) (hlen : len.toNat ≤ w)
    (hmask : (a &&& if len = 0 then 0 else BitVec.allOnes w <<< (w - len.toNat)) = a) :
    BitVec.ofNat w (value ((digits n a.toNat).take k ++ List.replicate (n - k) 0)) = a := by
  obtain ⟨j, rfl⟩ : ∃ j, n = k + j := ⟨n - k, by omega⟩
  have hzero : len = 0 ↔ len.toNat = 0 := by rw [← UInt8.toNat_inj]; rfl
  simp only [hzero] at hmask
  have hdvd : 256 ^ j ∣ a.toNat := dvd_of_masked hmask hw (by omega)
  have hlt : a.toNat < 256 ^ (k + j) := by
    have hpow : (256 : ℕ) ^ (k + j) = 2 ^ w := by
      rw [hw, pow_mul]
      rfl
    rw [hpow]
    exact a.isLt
  rw [Nat.add_sub_cancel_left, value_take_digits hlt hdvd, BitVec.ofNat_toNat, BitVec.setWidth_eq]

/-- The whole records of `n` octets each. -/
def chunksExact (n : ℕ) (l : List UInt8) : List (List UInt8) :=
  (List.range (l.length / n)).map fun i => (l.drop (i * n)).take n

theorem chunksExact_append {n : ℕ} (hn : 0 < n) {c : List UInt8} (hc : c.length = n) (r : List UInt8) :
    chunksExact n (c ++ r) = c :: chunksExact n r := by
  have hlen : (c ++ r).length / n = r.length / n + 1 := by
    rw [List.length_append, hc, Nat.add_div_left _ hn]
  have hstep : ∀ i, (c ++ r).drop ((i + 1) * n) = r.drop (i * n) := by
    intro i
    rw [Nat.succ_mul, Nat.add_comm, ← List.drop_drop, List.drop_left' hc]
  rw [chunksExact, hlen, List.range_succ_eq_map, List.map_cons, List.map_map, chunksExact]
  congr 1
  · simp [← hc]
  · apply List.map_congr_left
    intro i _
    simp only [Function.comp_apply, Nat.succ_eq_add_one, hstep]

theorem chunksExact_flatMap {α : Type*} {n : ℕ} (hn : 0 < n) {enc : α → List UInt8}
    (henc : ∀ a, (enc a).length = n) (l : List α) : chunksExact n (l.flatMap enc) = l.map enc := by
  induction l with
  | nil => simp [chunksExact]
  | cons a l ih => rw [List.flatMap_cons, chunksExact_append hn (henc a), ih, List.map_cons]

/-- Records of one size are read back one by one. -/
theorem map_chunksExact_flatMap {α : Type*} {n : ℕ} (hn : 0 < n) {enc : α → List UInt8} {dec : List UInt8 → α}
    (henc : ∀ a, (enc a).length = n) {l : List α} (hdec : ∀ a ∈ l, dec (enc a) = a) :
    (chunksExact n (l.flatMap enc)).map dec = l := by
  rw [chunksExact_flatMap hn henc, List.map_map]
  conv_rhs => rw [← List.map_id l]
  exact List.map_congr_left hdec

/-- Octets that are whole records are these records in a row. -/
theorem flatten_chunksExact {n : ℕ} (hn : 0 < n) (k : ℕ) {l : List UInt8} (hl : l.length = k * n) :
    (chunksExact n l).flatten = l ∧ ∀ c ∈ chunksExact n l, c.length = n := by
  induction k generalizing l with
  | zero =>
    have hnil : l = [] := List.length_eq_zero_iff.mp (by omega)
    simp [hnil, chunksExact]
  | succ k ih =>
    have hstep : (k + 1) * n = k * n + n := Nat.succ_mul k n
    have hle : n ≤ l.length := by omega
    have htake : (l.take n).length = n := by
      rw [List.length_take]
      omega
    have hdrop : (l.drop n).length = k * n := by
      rw [List.length_drop]
      omega
    obtain ⟨hflat, hall⟩ := ih hdrop
    have hcons : chunksExact n l = l.take n :: chunksExact n (l.drop n) := by
      conv_lhs => rw [← List.take_append_drop n l]
      exact chunksExact_append hn htake _
    rw [hcons]
    constructor
    · rw [List.flatten_cons, hflat, List.take_append_drop]
    · intro c hc
      rcases List.mem_cons.mp hc with rfl | hc
      · exact htake
      · exact hall c hc

theorem length_flatMap_of_forall {α : Type*} {n : ℕ} {enc : α → List UInt8} (henc : ∀ a, (enc a).length = n)
    (l : List α) : (l.flatMap enc).length = l.length * n := by
  simp [List.length_flatMap, henc]

theorem mapM_eq_some_iff {α β : Type*} {f : α → Option β} {l : List α} {l' : List β} :
    l.mapM f = some l' ↔ List.Forall₂ (fun a b => f a = some b) l l' := by
  induction l generalizing l' with
  | nil => simp [eq_comm]
  | cons a l ih =>
    rw [List.mapM_cons]
    cases l' with
    | nil => simp [Option.bind_eq_some_iff]
    | cons b l' => simp [Option.bind_eq_some_iff, ih]

section ReadAll
variable {α : Type*} (one : List UInt8 → Option (α × ℕ))

/-- At most `n` records from the front, until the octets are used up. -/
def readRecords : ℕ → List UInt8 → Option (List α)
  | _, [] => some []
  | 0, _ :: _ => none
  | n + 1, buf => do
    let (a, used) ← one buf
    let rest ← readRecords n (buf.drop used)
    return a :: rest

/-- A record takes an octet at least, so there are no more records than octets. -/
def readAll (buf : List UInt8) : Option (List α) := readRecords one buf.length buf

@[simp] theorem readRecords_nil (n : ℕ) : readRecords one n [] = some [] := by
  cases n <;> rfl

variable {one}

/-- A further step of the loop, while there are octets. -/
theorem readRecords_succ {n : ℕ} {buf : List UInt8} (h : buf ≠ []) :
    readRecords one (n + 1) buf = (one buf).bind fun (a, used) =>
      (readRecords one n (buf.drop used)).map (a :: ·) := by
  cases buf with
  | nil => exact absurd rfl h
  | cons b buf =>
    cases hone : one (b :: buf) with
    | none => simp [readRecords, hone]
    | some r =>
      cases hrest : readRecords one n ((b :: buf).drop r.2) with
      | none => simp [readRecords, hone, hrest]
      | some rest => simp [readRecords, hone, hrest]

/-- Records that are read one by one are read all together, or not at all if one cannot be. -/
theorem readRecords_flatMapM {β : Type*} {enc : β → List UInt8} (f : β → Option α) {l : List β}
    (henc : ∀ b ∈ l, ∀ r, one (enc b ++ r) = (f b).map fun a => (a, (enc b).length)) (hne : ∀ b ∈ l, enc b ≠ [])
    {n : ℕ} (hn : l.length ≤ n) : readRecords one n (l.flatMap enc) = l.mapM f := by
  induction l generalizing n with
  | nil => simp
  | cons b l ih =>
    obtain ⟨m, rfl⟩ : ∃ m, n = m + 1 := ⟨n - 1, by simp at hn; omega⟩
    have hl := ih (fun c hc => henc c (by simp [hc])) (fun c hc => hne c (by simp [hc])) (n := m) (by simpa using hn)
    have hcons : enc b ++ l.flatMap enc ≠ [] := by simp [hne b (by simp)]
    rw [List.flatMap_cons, readRecords_succ hcons, henc b (by simp), List.mapM_cons]
    cases f b with
    | none => rfl
    | some a =>
      simp only [Option.map_some, Option.bind_some, List.drop_left, hl]
      cases l.mapM f <;> rfl

theorem readAll_flatMapM {β : Type*} {enc : β → List UInt8} (f : β → Option α) {l : List β}
    (henc : ∀ b ∈ l, ∀ r, one (enc b ++ r) = (f b).map fun a => (a, (enc b).length)) (hne : ∀ b ∈ l, enc b ≠ []) :
    readAll one (l.flatMap enc) = l.mapM f := by
  refine readRecords_flatMapM f henc hne ?_
  clear henc
  induction l with
  | nil => simp
  | cons b l ih =>
    have hl := ih fun c hc => hne c (by simp [hc])
    have hb := List.length_pos_iff.mpr (hne b (by simp))
    simp only [List.flatMap_cons, List.length_append, List.length_cons]
    omega

/-- Records that are read back one by one are read back all together. -/
theorem readAll_flatMap {β : Type*} {enc : β → List UInt8} (f : β → α) {l : List β}
    (henc : ∀ b ∈ l, ∀ r, one (enc b ++ r) = some (f b, (enc b).length)) (hne : ∀ b ∈ l, enc b ≠ []) :
    readAll one (l.flatMap enc) = some (l.map f) := by
  rw [readAll_flatMapM (fun b => some (f b)) henc hne]
  exact List.mapM_pure

/-- What is read accounts for every octet. -/
theorem sum_of_readRecords {size : α → ℕ} (hone : ∀ buf a used, one buf = some (a, used) → used = size a ∧ used ≤ buf.length)
    {n : ℕ} {buf : List UInt8} {l : List α} (h : readRecords one n buf = some l) : (l.map size).sum = buf.length := by
  induction n generalizing buf l with
  | zero =>
    cases buf with
    | nil => cases h; rfl
    | cons b buf => cases h
  | succ n ih =>
    by_cases hnil : buf = []
    · subst hnil
      cases h
      rfl
    · rw [readRecords_succ hnil] at h
      obtain ⟨⟨a, used⟩, ha, hrest⟩ := Option.bind_eq_some_iff.mp h
      obtain ⟨rest, hr, rfl⟩ := Option.map_eq_some_iff.mp hrest
      obtain ⟨hused, hle⟩ := hone buf a used ha
      have hsum := ih hr
      rw [List.length_drop] at hsum
      rw [List.map_cons, List.sum_cons]
      omega

/-- Every record is read from some place on. -/
theorem exists_of_readRecords {n : ℕ} {buf : List UInt8} {l : List α} (h : readRecords one n buf = some l) :
    ∀ a ∈ l, ∃ k used, one (buf.drop k) = some (a, used) := by
  induction n generalizing buf l with
  | zero =>
    cases buf with
    | nil => cases h; simp
    | cons b buf => cases h
  | succ n ih =>
    by_cases hnil : buf = []
    · subst hnil
      cases h
      simp
    · rw [readRecords_succ hnil] at h
      obtain ⟨⟨a, used⟩, ha, hrest⟩ := Option.bind_eq_some_iff.mp h
      obtain ⟨rest, hr, rfl⟩ := Option.map_eq_some_iff.mp hrest
      intro c hc
      rcases List.mem_cons.mp hc with rfl | hc
      · exact ⟨0, used, ha⟩
      · obtain ⟨k, used', hc'⟩ := ih hr c hc
        refine ⟨used + k, used', ?_⟩
        rwa [← List.drop_drop]

theorem forall_of_readRecords {P : α → Prop} (hone : ∀ buf a used, one buf = some (a, used) → P a) {n : ℕ}
    {buf : List UInt8} {l : List α} (h : readRecords one n buf = some l) : ∀ a ∈ l, P a := by
  intro a ha
  obtain ⟨k, used, hread⟩ := exists_of_readRecords h a ha
  exact hone _ a used hread

end ReadAll

end Octets
