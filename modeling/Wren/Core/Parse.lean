import Wren.Core.Prefix

/-! Addresses, numbers and networks in text, as the standard library reads them. A string is the list of
its characters. -/

namespace Wren.Core

/-! ### The address parser -/

/-- What a parser reads from the front of a text, and what is left. -/
abbrev Reader (α : Type) := List Char → Option (α × List Char)

/-- The value of a digit in either radix. -/
def toDigit (radix : ℕ) (c : Char) : Option ℕ :=
  let v :=
    if '0' ≤ c ∧ c ≤ '9' then c.toNat - 48
    else if 'a' ≤ c ∧ c ≤ 'f' then c.toNat - 87
    else if 'A' ≤ c ∧ c ≤ 'F' then c.toNat - 55
    else 16
  if v < radix then some v else none

def readGivenChar (target : Char) : Reader Unit
  | c :: cs => if c = target then some ((), cs) else none
  | [] => none

/-- All digits that follow, at least one and at most `maxDigits`. -/
def readNumber (radix maxDigits : ℕ) (allowZeroPrefix : Bool) : Reader ℕ := fun s =>
  let digits := s.takeWhile fun c => (toDigit radix c).isSome
  if digits = [] ∨ maxDigits < digits.length then none
  else if allowZeroPrefix = false ∧ digits.head? = some '0' ∧ 1 < digits.length then none
  else
    some (digits.foldl (fun n c => n * radix + (toDigit radix c).getD 0) 0, s.drop digits.length)

/-- A part of an address, behind a separator unless it is the first. -/
def readSeparator {α : Type} (sep : Char) (first : Bool) (inner : Reader α) : Reader α := fun s =>
  if first then inner s else (readGivenChar sep s).bind fun (_, s) => inner s

def readOctet (first : Bool) : Reader ℕ := fun s =>
  (readSeparator '.' first (readNumber 10 3 false) s).bind fun (n, s) => if n ≤ 255 then some (n, s) else none

def readIpv4Addr : Reader (BitVec 32) := fun s => do
  let (a, s) ← readOctet true s
  let (b, s) ← readOctet false s
  let (c, s) ← readOctet false s
  let (d, s) ← readOctet false s
  some (BitVec.ofNat 32 (((a * 256 + b) * 256 + c) * 256 + d), s)

/-- At most `n` groups of 16 bits, and whether the last two were written as an IPv4 address. -/
def readGroups : ℕ → Bool → List Char → (List ℕ × Bool) × List Char
  | 0, _, s => (([], false), s)
  | n + 1, first, s =>
    -- an IPv4 address takes the place of two groups
    match if n = 0 then none else readSeparator ':' first readIpv4Addr s with
    | some (a, s) => (([a.toNat / 65536, a.toNat % 65536], true), s)
    | none =>
      match readSeparator ':' first (readNumber 16 4 true) s with
      | none => (([], false), s)
      | some (g, s) =>
        let ((gs, v4), s) := readGroups n false s
        ((g :: gs, v4), s)

def ipv6OfGroups (groups : List ℕ) : BitVec 128 := BitVec.ofNat 128 (groups.foldl (fun n g => n * 65536 + g) 0)

/-- The front part, and if it is not the whole address, two colons and the back part. -/
def readIpv6Addr : Reader (BitVec 128) := fun s =>
  let ((head, headIpv4), s) := readGroups 8 true s
  if head.length = 8 then some (ipv6OfGroups head, s)
  else if headIpv4 then none
  else do
    let (_, s) ← readGivenChar ':' s
    let (_, s) ← readGivenChar ':' s
    let ((tail, _), s) := readGroups (8 - (head.length + 1)) true s
    some (ipv6OfGroups (head ++ List.replicate (8 - head.length - tail.length) 0 ++ tail), s)

def readIpAddr : Reader IpAddr := fun s =>
  match readIpv4Addr s with
  | some (a, s) => some (.v4 a, s)
  | none => (readIpv6Addr s).map fun (a, s) => (.v6 a, s)

/-- An address and nothing after it. -/
def IpAddr.fromStr (s : List Char) : Option IpAddr :=
  match readIpAddr s with
  | some (a, []) => some a
  | _ => none

/-! ### Numbers and networks -/

/-- An octet in decimal. A sign may stand before it. -/
def parseU8 (s : List Char) : Option UInt8 :=
  let digits :=
    match s with
    | '+' :: rest => rest
    | _ => s
  if digits = [] ∨ digits.any (fun c => (toDigit 10 c).isNone) then none
  else
    let n := digits.foldl (fun n c => n * 10 + (toDigit 10 c).getD 0) 0
    if n ≤ 255 then some (UInt8.ofNat n) else none

/-- The parts before and after the first occurrence. -/
def splitOnce (sep : Char) (s : List Char) : Option (List Char × List Char) :=
  if sep ∈ s then some (s.takeWhile (· ≠ sep), (s.dropWhile (· ≠ sep)).tail) else none

/-- Every error of the source that does not come from the length alone is Malformed. -/
def Prefix.fromStr (s : List Char) : Option Prefix := do
  let (addr, len) ← splitOnce '/' s
  let addr ← IpAddr.fromStr addr
  let len ← parseU8 len
  (Prefix.new addr len).toOption

/-! ### What is read -/

/-- A character that can be part of an address. -/
def IsAddrChar (c : Char) : Prop := (toDigit 16 c).isSome ∨ c = '.' ∨ c = ':'

theorem isSome_toDigit_mono {radix radix' : ℕ} (h : radix ≤ radix') {c : Char} (hc : (toDigit radix c).isSome) :
    (toDigit radix' c).isSome := by
  unfold toDigit at hc ⊢
  dsimp only at hc ⊢
  generalize (if '0' ≤ c ∧ c ≤ '9' then c.toNat - 48 else if 'a' ≤ c ∧ c ≤ 'f' then c.toNat - 87
    else if 'A' ≤ c ∧ c ≤ 'F' then c.toNat - 55 else 16) = v at hc ⊢
  by_cases hv : v < radix
  · rw [if_pos (by omega)]
    rfl
  · rw [if_neg hv] at hc
    cases hc

/-- What lies between a text and the rest of it is made of characters of an address. -/
def Consumed (s rest : List Char) : Prop := ∃ used, s = used ++ rest ∧ ∀ c ∈ used, IsAddrChar c

theorem Consumed.refl (s : List Char) : Consumed s s := ⟨[], rfl, by simp⟩

theorem Consumed.trans {s t r : List Char} (h : Consumed s t) (h' : Consumed t r) : Consumed s r := by
  obtain ⟨u, rfl, hu⟩ := h
  obtain ⟨v, rfl, hv⟩ := h'
  refine ⟨u ++ v, by simp, ?_⟩
  intro c hc
  rcases List.mem_append.mp hc with hc | hc
  · exact hu c hc
  · exact hv c hc

theorem consumed_of_readGivenChar {target : Char} (ht : IsAddrChar target) {s rest : List Char}
    (h : readGivenChar target s = some ((), rest)) : Consumed s rest := by
  cases s with
  | nil => cases h
  | cons c cs =>
    simp only [readGivenChar] at h
    split_ifs at h with hc
    cases h
    exact ⟨[c], rfl, by simpa [hc] using ht⟩

theorem consumed_of_readNumber {radix maxDigits : ℕ} (hradix : radix ≤ 16) {zero : Bool} {s rest : List Char} {n : ℕ}
    (h : readNumber radix maxDigits zero s = some (n, rest)) : Consumed s rest := by
  unfold readNumber at h
  dsimp only at h
  split_ifs at h
  obtain ⟨-, rfl⟩ := Prod.mk.inj (Option.some.inj h)
  let digits := s.takeWhile fun c => (toDigit radix c).isSome
  have hrest : s.drop digits.length = s.dropWhile fun c => (toDigit radix c).isSome := by
    conv_lhs => rw [← List.takeWhile_append_dropWhile (p := fun c => (toDigit radix c).isSome) (l := s)]
    exact List.drop_left
  refine ⟨digits, ?_, ?_⟩
  · rw [hrest]
    exact List.takeWhile_append_dropWhile.symm
  · intro c hc
    have hsome : (toDigit radix c).isSome := List.mem_takeWhile_imp (p := fun c => (toDigit radix c).isSome) hc
    exact .inl (isSome_toDigit_mono hradix hsome)

theorem consumed_of_readSeparator {α : Type} {sep : Char} (hsep : IsAddrChar sep) {first : Bool} {inner : Reader α}
    (hinner : ∀ s a rest, inner s = some (a, rest) → Consumed s rest) {s rest : List Char} {a : α}
    (h : readSeparator sep first inner s = some (a, rest)) : Consumed s rest := by
  unfold readSeparator at h
  split_ifs at h
  · exact hinner _ _ _ h
  · obtain ⟨⟨_, t⟩, ht, hrest⟩ := Option.bind_eq_some_iff.mp h
    exact (consumed_of_readGivenChar hsep ht).trans (hinner _ _ _ hrest)

theorem consumed_of_readOctet {first : Bool} {s rest : List Char} {n : ℕ} (h : readOctet first s = some (n, rest)) :
    Consumed s rest := by
  obtain ⟨⟨m, t⟩, ht, hrest⟩ := Option.bind_eq_some_iff.mp h
  dsimp only at hrest
  split_ifs at hrest
  cases hrest
  exact consumed_of_readSeparator (.inr (.inl rfl)) (fun _ _ _ => consumed_of_readNumber (by decide)) ht

theorem consumed_of_readIpv4Addr {s rest : List Char} {a : BitVec 32} (h : readIpv4Addr s = some (a, rest)) :
    Consumed s rest := by
  obtain ⟨⟨_, s₁⟩, h₁, h⟩ := Option.bind_eq_some_iff.mp h
  obtain ⟨⟨_, s₂⟩, h₂, h⟩ := Option.bind_eq_some_iff.mp h
  obtain ⟨⟨_, s₃⟩, h₃, h⟩ := Option.bind_eq_some_iff.mp h
  obtain ⟨⟨_, s₄⟩, h₄, h⟩ := Option.bind_eq_some_iff.mp h
  cases h
  exact (consumed_of_readOctet h₁).trans <| (consumed_of_readOctet h₂).trans <|
    (consumed_of_readOctet h₃).trans (consumed_of_readOctet h₄)

theorem consumed_readGroups (n : ℕ) (first : Bool) (s : List Char) : Consumed s (readGroups n first s).2 := by
  induction n generalizing first s with
  | zero => exact .refl s
  | succ n ih =>
    rw [readGroups]
    split
    · rename_i a rest h
      split_ifs at h
      exact consumed_of_readSeparator (.inr (.inr rfl)) (fun _ _ _ => consumed_of_readIpv4Addr) h
    · split
      · exact .refl s
      · rename_i g rest h
        exact (consumed_of_readSeparator (.inr (.inr rfl)) (fun _ _ _ => consumed_of_readNumber (by decide)) h).trans
          (ih false rest)

theorem consumed_of_readIpv6Addr {s rest : List Char} {a : BitVec 128} (h : readIpv6Addr s = some (a, rest)) :
    Consumed s rest := by
  have hhead := consumed_readGroups 8 true s
  unfold readIpv6Addr at h
  dsimp only at h
  split_ifs at h
  · cases h
    exact hhead
  · obtain ⟨⟨_, s₁⟩, h₁, h⟩ := Option.bind_eq_some_iff.mp h
    obtain ⟨⟨_, s₂⟩, h₂, h⟩ := Option.bind_eq_some_iff.mp h
    cases h
    exact hhead.trans <| (consumed_of_readGivenChar (.inr (.inr rfl)) h₁).trans <|
      (consumed_of_readGivenChar (.inr (.inr rfl)) h₂).trans (consumed_readGroups _ true s₂)

/-- An address is made of digits, dots and colons. -/
theorem isAddrChar_of_fromStr {s : List Char} {a : IpAddr} (h : IpAddr.fromStr s = some a) :
    ∀ c ∈ s, IsAddrChar c := by
  have hread : ∃ b, readIpAddr s = some (b, []) := by
    unfold IpAddr.fromStr at h
    split at h
    · exact ⟨_, ‹_›⟩
    · cases h
  obtain ⟨b, hread⟩ := hread
  have hall : Consumed s [] := by
    unfold readIpAddr at hread
    split at hread
    · rename_i v rest hv4
      cases hread
      exact consumed_of_readIpv4Addr hv4
    · obtain ⟨⟨v, rest⟩, hv6, heq⟩ := Option.map_eq_some_iff.mp hread
      cases heq
      exact consumed_of_readIpv6Addr hv6
  obtain ⟨used, hused, hchars⟩ := hall
  rw [List.append_nil] at hused
  rwa [hused]

/-- A number is made of digits, behind a sign. -/
theorem digit_of_parseU8 {s : List Char} {n : UInt8} (h : parseU8 s = some n) :
    s ≠ [] ∧ ∀ c ∈ s, (toDigit 10 c).isSome ∨ c = '+' := by
  have hdigits : ∀ digits : List Char, ¬ (digits = [] ∨ digits.any (fun c => (toDigit 10 c).isNone)) →
      digits ≠ [] ∧ ∀ c ∈ digits, (toDigit 10 c).isSome := by
    intro digits hd
    rw [not_or] at hd
    refine ⟨hd.1, ?_⟩
    intro c hc
    rw [← Option.not_isNone]
    by_contra hnone
    exact hd.2 (List.any_eq_true.mpr ⟨c, hc, by simpa using hnone⟩)
  unfold parseU8 at h
  split at h
  · rename_i rest
    dsimp only at h
    split_ifs at h with hd
    obtain ⟨-, hall⟩ := hdigits rest hd
    refine ⟨by simp, ?_⟩
    intro c hc
    rcases List.mem_cons.mp hc with rfl | hc
    · exact .inr rfl
    · exact .inl (hall c hc)
  · dsimp only at h
    split_ifs at h with hd
    obtain ⟨hne, hall⟩ := hdigits s hd
    exact ⟨hne, fun c hc => .inl (hall c hc)⟩

theorem of_splitOnce {sep : Char} {s a b : List Char} (h : splitOnce sep s = some (a, b)) :
    s = a ++ sep :: b ∧ sep ∉ a := by
  unfold splitOnce at h
  split_ifs at h with hmem
  obtain ⟨rfl, rfl⟩ := Prod.mk.inj (Option.some.inj h)
  refine ⟨?_, ?_⟩
  · have hne : s.dropWhile (· ≠ sep) ≠ [] := by
      intro hnil
      have := List.dropWhile_eq_nil_iff.mp hnil sep hmem
      simp at this
    have hhead : (s.dropWhile (· ≠ sep)).head hne = sep := by
      have := List.head_dropWhile_not (· ≠ sep) hne
      simpa using this
    conv_lhs => rw [← List.takeWhile_append_dropWhile (p := (· ≠ sep)) (l := s)]
    rw [← List.cons_head_tail hne, hhead]
    rfl
  · intro hin
    have := List.mem_takeWhile_imp hin
    simp at this

/-- A network is an address, a slash and a number. -/
theorem Prefix.of_fromStr {s : List Char} {p : Prefix} (h : Prefix.fromStr s = some p) :
    ∃ addr len, s = addr ++ '/' :: len ∧ (∀ c ∈ addr, IsAddrChar c) ∧ len ≠ [] ∧
      ∀ c ∈ len, (toDigit 10 c).isSome ∨ c = '+' := by
  obtain ⟨⟨addr, len⟩, hsplit, h⟩ := Option.bind_eq_some_iff.mp h
  obtain ⟨a, ha, h⟩ := Option.bind_eq_some_iff.mp h
  obtain ⟨n, hn, -⟩ := Option.bind_eq_some_iff.mp h
  obtain ⟨hne, hlen⟩ := digit_of_parseU8 hn
  exact ⟨addr, len, (of_splitOnce hsplit).1, isAddrChar_of_fromStr ha, hne, hlen⟩

end Wren.Core
