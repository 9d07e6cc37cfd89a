import Wren.Core.Parse
import Wren.Filter.Basic

/-! The written form of prefix patterns and of lists of them. -/

namespace Wren.Filter
open Wren.Core

/-- White space as Unicode has it. -/
def isWhitespace (c : Char) : Bool :=
  let n := c.toNat
  (9 ≤ n ∧ n ≤ 13) ∨ n = 0x20 ∨ n = 0x85 ∨ n = 0xa0 ∨ n = 0x1680 ∨ (0x2000 ≤ n ∧ n ≤ 0x200a) ∨ n = 0x2028 ∨
    n = 0x2029 ∨ n = 0x202f ∨ n = 0x205f ∨ n = 0x3000

def trim (s : List Char) : List Char := (s.dropWhile isWhitespace).rdropWhile isWhitespace

/-- The kinds of errors, with the text that the message quotes. -/
inductive ParseError where
  | unterminatedWindow (s : List Char)
  | windowNeedsMinMax (window : List Char)
  | invalidPrefix (s : List Char)
  | invalidLength (s : List Char)
deriving DecidableEq

def parsePrefix (s : List Char) : Except ParseError Prefix :=
  match Prefix.fromStr (trim s) with
  | some p => .ok p
  | none => .error (.invalidPrefix (trim s))

def parseLen (s : List Char) : Except ParseError UInt8 :=
  match parseU8 (trim s) with
  | some n => .ok n
  | none => .error (.invalidLength (trim s))

/-- What stands before the last character, if it is this one. -/
def stripSuffix (c : Char) (s : List Char) : Option (List Char) :=
  if s.getLast? = some c then some s.dropLast else none

namespace PrefixPattern

def clampLen (v lo hi : UInt8) : UInt8 := if v < lo then lo else if v > hi then hi else v

/-- The window is clamped to the lengths the network can have, and ordered. -/
def new (network : Prefix) (minLen maxLen : UInt8) : PrefixPattern :=
  let lo := clampLen minLen network.len network.maxLen
  let hi := clampLen maxLen network.len network.maxLen
  ⟨network, min lo hi, max lo hi⟩

def exact (network : Prefix) : PrefixPattern := new network network.len network.len

def orlonger (network : Prefix) : PrefixPattern := new network network.len network.maxLen

/-- The length window between braces, and the network before it. -/
def parseWindow (s base rest : List Char) : Except ParseError PrefixPattern :=
  match stripSuffix '\x7d' rest with
  | none => .error (.unterminatedWindow s)
  | some window =>
    match splitOnce ',' window with
    | none => .error (.windowNeedsMinMax window)
    | some (lo, hi) => do
      let network ← parsePrefix base
      let minLen ← parseLen lo
      let maxLen ← parseLen hi
      return new network minLen maxLen

/-- `addr/len`, `addr/len+` or `addr/len` with a length window. -/
def fromStr (s : List Char) : Except ParseError PrefixPattern :=
  let s := trim s
  match stripSuffix '+' s with
  | some base => do
    let network ← parsePrefix base
    return orlonger network
  | none =>
    match splitOnce '\x7b' s with
    | some (base, rest) => parseWindow s base rest
    | none => do
      let network ← parsePrefix s
      return exact network

end PrefixPattern

/-- What separates the patterns of a list. -/
def isSeparator (c : Char) : Bool := c = ',' ∨ c = ' ' ∨ c = '\t'

/-- The pieces between separators that are not blank. -/
def tokens (s : List Char) : List (List Char) := (s.splitOnP isSeparator).filter fun t => trim t ≠ []

/-- The patterns of a list one after the other, up to the first error. -/
def PrefixList.fromStr (s : List Char) : Except ParseError PrefixList := (tokens s).mapM PrefixPattern.fromStr

/-! ### White space -/

def Blank (s : List Char) : Prop := ∀ c ∈ s, isWhitespace c = true

theorem trim_append_left {a : List Char} (ha : Blank a) (s : List Char) : trim (a ++ s) = trim s := by
  rw [trim, trim, List.dropWhile_append_of_pos ha]

theorem rdropWhile_append {b : List Char} (hb : Blank b) (s : List Char) :
    (s ++ b).rdropWhile isWhitespace = s.rdropWhile isWhitespace := by
  have hrev : ∀ c ∈ b.reverse, isWhitespace c = true := by
    intro c hc
    exact hb c (List.mem_reverse.mp hc)
  rw [List.rdropWhile, List.rdropWhile, List.reverse_append, List.dropWhile_append_of_pos hrev]

theorem trim_append_right {b : List Char} (hb : Blank b) (s : List Char) : trim (s ++ b) = trim s := by
  rw [trim, trim, List.dropWhile_append]
  split_ifs with hs
  · rw [List.isEmpty_iff.mp hs, List.dropWhile_eq_nil_iff.mpr hb]
  · exact rdropWhile_append hb _

/-- A text is its middle between white space. -/
theorem exists_eq_trim (s : List Char) : ∃ a b, Blank a ∧ Blank b ∧ s = a ++ trim s ++ b := by
  refine ⟨s.takeWhile isWhitespace, (s.dropWhile isWhitespace).rtakeWhile isWhitespace, ?_, ?_, ?_⟩
  · intro c hc
    exact List.mem_takeWhile_imp hc
  · intro c hc
    exact List.mem_rtakeWhile_imp hc
  · rw [trim, List.append_assoc, List.rdropWhile_append_rtakeWhile, List.takeWhile_append_dropWhile]

theorem trim_eq_nil_iff {s : List Char} : trim s = [] ↔ Blank s := by
  constructor
  · intro h
    obtain ⟨a, b, ha, hb, hs⟩ := exists_eq_trim s
    rw [h, List.append_nil] at hs
    rw [hs]
    intro c hc
    rcases List.mem_append.mp hc with hc | hc
    · exact ha c hc
    · exact hb c hc
  · intro h
    rw [trim, List.dropWhile_eq_nil_iff.mpr h]
    rfl

theorem trim_head {s t : List Char} {c : Char} (h : trim s = c :: t) : isWhitespace c = false := by
  obtain ⟨r, hr⟩ := List.rdropWhile_prefix isWhitespace (s.dropWhile isWhitespace)
  change trim s ++ r = _ at hr
  have hhead := List.head?_dropWhile_not isWhitespace s
  rw [← hr, h] at hhead
  simpa using hhead

theorem trim_last {s t : List Char} {c : Char} (h : trim s = t ++ [c]) : isWhitespace c = false := by
  have hne : (s.dropWhile isWhitespace).rdropWhile isWhitespace ≠ [] := by
    change trim s ≠ []
    simp [h]
  have hlast := List.rdropWhile_last_not isWhitespace (s.dropWhile isWhitespace) hne
  have heq : ((s.dropWhile isWhitespace).rdropWhile isWhitespace).getLast hne = c := by
    apply Option.some.inj
    rw [← List.getLast?_eq_some_getLast hne]
    change (trim s).getLast? = some c
    simp [h]
  rw [heq] at hlast
  exact Bool.eq_false_iff.mpr hlast

theorem trim_trim (s : List Char) : trim (trim s) = trim s := by
  have hhead : (trim s).dropWhile isWhitespace = trim s := by
    cases h : trim s with
    | nil => rfl
    | cons c t => exact List.dropWhile_cons_of_neg (by simp [trim_head h])
  rw [trim, hhead]
  exact List.rdropWhile_idempotent isWhitespace _

namespace PrefixPattern

theorem fromStr_trim (s : List Char) : fromStr (trim s) = fromStr s := by
  unfold fromStr
  rw [trim_trim]

end PrefixPattern

/-! ### Tokens -/

/-- No separator stands in it. -/
def Whole (s : List Char) : Prop := ∀ c ∈ s, isSeparator c = false

theorem Whole.append {a b : List Char} (ha : Whole a) (hb : Whole b) : Whole (a ++ b) := by
  intro c hc
  rcases List.mem_append.mp hc with hc | hc
  · exact ha c hc
  · exact hb c hc

theorem tokens_append_cons (a b : List Char) {c : Char} (hc : isSeparator c = true) :
    tokens (a ++ c :: b) = tokens a ++ tokens b := by
  rw [tokens, List.splitOnP_append_cons a b hc, List.filter_append]
  rfl

theorem tokens_of_whole {s : List Char} (h : Whole s) : tokens s = if trim s = [] then [] else [s] := by
  rw [tokens, List.splitOnP_eq_singleton h]
  by_cases hs : trim s = [] <;> simp [hs]

/-- What follows the last separator. -/
theorem exists_last_piece (s : List Char) :
    Whole s ∨ ∃ a c b, isSeparator c = true ∧ Whole b ∧ s = a ++ c :: b := by
  induction s with
  | nil => exact .inl (by simp [Whole])
  | cons x s ih =>
    rcases ih with hs | ⟨a, c, b, hc, hb, rfl⟩
    · cases hx : isSeparator x with
      | true => exact .inr ⟨[], x, s, hx, hs, rfl⟩
      | false =>
        left
        intro c hc
        rcases List.mem_cons.mp hc with rfl | hc
        · exact hx
        · exact hs c hc
    · exact .inr ⟨x :: a, c, b, hc, hb, rfl⟩

/-- What comes before the first separator. -/
theorem exists_first_piece (s : List Char) :
    Whole s ∨ ∃ a c b, isSeparator c = true ∧ Whole a ∧ s = a ++ c :: b := by
  induction s with
  | nil => exact .inl (by simp [Whole])
  | cons x s ih =>
    cases hx : isSeparator x with
    | true => exact .inr ⟨[], x, s, hx, by simp [Whole], rfl⟩
    | false =>
      have hcons : ∀ {t}, Whole t → Whole (x :: t) := by
        intro t ht c hc
        rcases List.mem_cons.mp hc with rfl | hc
        · exact hx
        · exact ht c hc
      rcases ih with hs | ⟨a, c, b, hc, ha, rfl⟩
      · exact .inl (hcons hs)
      · exact .inr ⟨x :: a, c, b, hc, hcons ha, rfl⟩

theorem Blank.of_append {a b : List Char} (h : Blank (a ++ b)) : Blank a ∧ Blank b :=
  ⟨fun c hc => h c (List.mem_append_left _ hc), fun c hc => h c (List.mem_append_right _ hc)⟩

/-- White space has no tokens. -/
theorem tokens_of_blank {s : List Char} (h : Blank s) : tokens s = [] := by
  induction hn : s.length using Nat.strong_induction_on generalizing s with
  | _ n ih =>
    rcases exists_first_piece s with hs | ⟨a, c, b, hc, ha, rfl⟩
    · rw [tokens_of_whole hs, if_pos (trim_eq_nil_iff.mpr h)]
    · obtain ⟨hblank, hrest⟩ := h.of_append
      have hb : Blank b := fun d hd => hrest d (List.mem_cons_of_mem _ hd)
      have hlen : b.length < n := by
        rw [← hn, List.length_append, List.length_cons]
        omega
      rw [tokens_append_cons a b hc, tokens_of_whole ha, if_pos (trim_eq_nil_iff.mpr hblank), ih _ hlen hb rfl]
      rfl

/-- A piece without separators is one token with the white space that touches it, whatever separators
the white space around it has. -/
theorem tokens_of_whole_middle {a t b : List Char} (ha : Blank a) (hb : Blank b) (ht : Whole t) (hne : trim t ≠ []) :
    ∃ a' b', Blank a' ∧ Blank b' ∧ tokens (a ++ t ++ b) = [a' ++ t ++ b'] := by
  have hright : ∀ a', Blank a' → Whole a' → ∃ b', Blank b' ∧ tokens (a' ++ t ++ b) = [a' ++ t ++ b'] := by
    intro a' ha' hwhole
    have htrim : ∀ b', Blank b' → trim (a' ++ t ++ b') ≠ [] := by
      intro b' hb'
      rwa [trim_append_right hb', trim_append_left ha']
    rcases exists_first_piece b with hwb | ⟨b₁, c, b₂, hc, hwb, rfl⟩
    · exact ⟨b, hb, by rw [tokens_of_whole ((hwhole.append ht).append hwb), if_neg (htrim b hb)]⟩
    · obtain ⟨hb₁, hrest⟩ := hb.of_append
      have hb₂ : Blank b₂ := fun d hd => hrest d (List.mem_cons_of_mem _ hd)
      refine ⟨b₁, hb₁, ?_⟩
      rw [← List.append_assoc, tokens_append_cons _ _ hc, tokens_of_blank hb₂,
        tokens_of_whole ((hwhole.append ht).append hwb), if_neg (htrim b₁ hb₁)]
      rfl
  rcases exists_last_piece a with hwa | ⟨a₁, c, a₂, hc, hwa, rfl⟩
  · obtain ⟨b', hb', htok⟩ := hright a ha hwa
    exact ⟨a, b', ha, hb', htok⟩
  · obtain ⟨ha₁, hrest⟩ := ha.of_append
    have ha₂ : Blank a₂ := fun d hd => hrest d (List.mem_cons_of_mem _ hd)
    obtain ⟨b', hb', htok⟩ := hright a₂ ha₂ hwa
    refine ⟨a₂, b', ha₂, hb', ?_⟩
    have hsplit : a₁ ++ c :: a₂ ++ t ++ b = a₁ ++ c :: (a₂ ++ t ++ b) := by simp
    rw [hsplit, tokens_append_cons _ _ hc, tokens_of_blank ha₁, htok]
    rfl

/-- Joined texts have the tokens of each, in order. -/
theorem tokens_intercalate (l : List (List Char)) : tokens ([',', ' '].intercalate l) = l.flatMap tokens := by
  induction l with
  | nil => exact tokens_of_blank (by simp [Blank])
  | cons s l ih =>
    cases l with
    | nil => simp
    | cons t l =>
      have hspace := tokens_append_cons [] ([',', ' '].intercalate (t :: l)) (c := ' ') rfl
      have hcomma := tokens_append_cons s (' ' :: [',', ' '].intercalate (t :: l)) (c := ',') rfl
      have hnil : tokens [] = [] := tokens_of_blank (by simp [Blank])
      rw [List.nil_append, hnil, List.nil_append] at hspace
      have hjoin : [',', ' '].intercalate (s :: t :: l) = s ++ ',' :: ' ' :: [',', ' '].intercalate (t :: l) := by
        simp [List.intercalate_cons_cons]
      rw [hjoin, hcomma, hspace, ih]
      rfl

/-! ### Patterns -/

theorem isSeparator_of_isAddrChar {c : Char} (h : IsAddrChar c) : isSeparator c = false := by
  by_contra hsep
  have hc : c = ',' ∨ c = ' ' ∨ c = '\t' := by
    rw [Bool.not_eq_false] at hsep
    simpa [isSeparator] using hsep
  rcases hc with rfl | rfl | rfl <;> revert h <;> simp [IsAddrChar] <;> decide

/-- A character of a number, or white space around it. -/
def IsLenChar (c : Char) : Prop := (toDigit 10 c).isSome ∨ c = '+' ∨ isWhitespace c = true

theorem IsLenChar.ne_slash {c : Char} (h : IsLenChar c) : c ≠ '/' := by
  rintro rfl
  revert h
  simp [IsLenChar]
  decide

theorem isLenChar_of_parseLen {s : List Char} {n : UInt8} (h : parseLen s = .ok n) : ∀ c ∈ s, IsLenChar c := by
  unfold parseLen at h
  split at h
  · rename_i m hm
    obtain ⟨-, hall⟩ := digit_of_parseU8 hm
    obtain ⟨a, b, ha, hb, hs⟩ := exists_eq_trim s
    intro c hc
    rw [hs] at hc
    rcases List.mem_append.mp hc with hc | hc
    · rcases List.mem_append.mp hc with hc | hc
      · exact .inr (.inr (ha c hc))
      · exact (hall c hc).imp_right .inl
    · exact .inr (.inr (hb c hc))
  · cases h

/-- A network, behind it only what can be part of a number or white space. -/
theorem of_parsePrefix {s : List Char} {p : Prefix} (h : parsePrefix s = .ok p) :
    ∃ a addr len, Blank a ∧ Whole addr ∧ len ≠ [] ∧ (∀ c ∈ len, IsLenChar c) ∧ s = a ++ addr ++ '/' :: len := by
  unfold parsePrefix at h
  split at h
  · rename_i q hq
    obtain ⟨addr, len, htrim, haddr, hne, hlen⟩ := Prefix.of_fromStr hq
    obtain ⟨a, b, ha, hb, hs⟩ := exists_eq_trim s
    refine ⟨a, addr, len ++ b, ha, ?_, by simp [hne], ?_, ?_⟩
    · exact fun c hc => isSeparator_of_isAddrChar (haddr c hc)
    · intro c hc
      rcases List.mem_append.mp hc with hc | hc
      · exact (hlen c hc).imp_right .inl
      · exact .inr (.inr (hb c hc))
    · rw [htrim] at hs
      rw [hs]
      simp
  · cases h

theorem of_stripSuffix {c : Char} {s t : List Char} (h : stripSuffix c s = some t) : s = t ++ [c] := by
  unfold stripSuffix at h
  split_ifs at h with hlast
  rw [← Option.some.inj h]
  exact (List.dropLast_append_getLast? c hlast).symm

/-- How an accepted pattern is written: one slash, before it no separator, and no separator last. -/
structure Spelled (s addr rest : List Char) : Prop where
  eq : s = addr ++ '/' :: rest
  whole : Whole addr
  noSlash : '/' ∉ rest
  last : ∀ t c, rest = t ++ [c] → isSeparator c = false
  ne_nil : rest ≠ []

/-- A network with something behind it that has no slash. -/
theorem exists_spelled_of_parsePrefix {s base tail : List Char} {p : Prefix} (h : parsePrefix base = .ok p)
    (hs : trim s = base ++ tail) (htail : '/' ∉ tail)
    (hlast : ∀ t c, trim s = t ++ [c] → isSeparator c = false) : ∃ addr rest, Spelled (trim s) addr rest := by
  obtain ⟨a, addr, len, ha, haddr, hne, hlen, rfl⟩ := of_parsePrefix h
  -- no white space stands in front, as the text is trimmed
  have hnil : a = [] := by
    cases a with
    | nil => rfl
    | cons c a =>
      have hblank := ha c (by simp)
      rw [trim_head hs] at hblank
      cases hblank
  subst hnil
  have heq : trim s = addr ++ '/' :: (len ++ tail) := by
    rw [hs]
    simp
  refine ⟨addr, len ++ tail, heq, haddr, ?_, ?_, by simp [hne]⟩
  · rw [List.mem_append, not_or]
    exact ⟨fun hmem => (hlen _ hmem).ne_slash rfl, htail⟩
  · intro t c hrest
    refine hlast (addr ++ '/' :: t) c ?_
    rw [heq, hrest]
    simp

namespace PrefixPattern

theorem exists_spelled {s : List Char} {p : PrefixPattern} (h : fromStr s = .ok p) :
    ∃ addr rest, Spelled (trim s) addr rest := by
  have hends : ∀ {x : List Char} {d : Char}, isSeparator d = false → trim s = x ++ [d] →
      ∀ t c, trim s = t ++ [c] → isSeparator c = false := by
    intro x d hd hx t c ht
    rw [hx] at ht
    have hdc := (List.append_inj' ht rfl).2
    rw [← List.singleton_inj.mp hdc]
    exact hd
  unfold fromStr at h
  dsimp only at h
  split at h
  · rename_i base hbase
    have hs := of_stripSuffix hbase
    cases hp : parsePrefix base with
    | error e =>
      rw [hp] at h
      cases h
    | ok network => exact exists_spelled_of_parsePrefix hp hs (by decide) (hends (by decide) hs)
  · split at h
    · rename_i base rest hsplit
      unfold parseWindow at h
      split at h
      · cases h
      · rename_i window hwindow
        split at h
        · cases h
        · rename_i lo hi hcomma
          have hs : trim s = base ++ ('\x7b' :: (lo ++ ',' :: hi) ++ ['\x7d']) := by
            rw [(of_splitOnce hsplit).1, of_stripSuffix hwindow, (of_splitOnce hcomma).1]
            simp
          cases hp : parsePrefix base with
          | error e =>
            rw [hp] at h
            cases h
          | ok network =>
            rw [hp] at h
            cases hlo : parseLen lo with
            | error e =>
              rw [hlo] at h
              cases h
            | ok minLen =>
              rw [hlo] at h
              cases hhi : parseLen hi with
              | error e =>
                rw [hhi] at h
                cases h
              | ok maxLen =>
                have hlo' : '/' ∉ lo := fun hmem => (isLenChar_of_parseLen hlo _ hmem).ne_slash rfl
                have hhi' : '/' ∉ hi := fun hmem => (isLenChar_of_parseLen hhi _ hmem).ne_slash rfl
                refine exists_spelled_of_parsePrefix hp hs (by simp [hlo', hhi']) ?_
                rw [← List.append_assoc] at hs
                exact hends (by decide) hs
    · cases hp : parsePrefix (trim s) with
      | error e =>
        rw [hp] at h
        cases h
      | ok network =>
        refine exists_spelled_of_parsePrefix hp (List.append_nil _).symm (by simp) ?_
        intro t c ht
        obtain ⟨a, addr, len, -, -, hne, hlen, hs⟩ := of_parsePrefix hp
        have hblank := trim_last ht
        have hmem : c ∈ len := by
          rw [hs] at ht
          have hlast := congrArg List.getLast? ht
          rw [List.getLast?_append_of_ne_nil _ (by simp), List.getLast?_cons_of_ne_nil hne] at hlast
          exact List.mem_of_getLast? (by simpa using hlast)
        rcases hlen c hmem with hdigit | rfl | hwhite
        · exact isSeparator_of_isAddrChar (.inl (isSome_toDigit_mono (by decide) hdigit))
        · decide
        · rw [hblank] at hwhite
          cases hwhite

/-- Every accepted text has a slash. -/
theorem slash_mem_of_fromStr {s : List Char} {p : PrefixPattern} (h : fromStr s = .ok p) : '/' ∈ s := by
  obtain ⟨addr, rest, hspelled⟩ := exists_spelled h
  obtain ⟨a, b, -, -, hs⟩ := exists_eq_trim s
  rw [hs, hspelled.eq]
  simp

end PrefixPattern

/-- A separator inside a pattern cuts a token off that has no slash. -/
theorem exists_token_without_slash {s : List Char} {p : PrefixPattern} (h : PrefixPattern.fromStr s = .ok p)
    (hsep : ¬ Whole (trim s)) : ∃ t ∈ tokens s, '/' ∉ t := by
  obtain ⟨addr, rest, hspelled⟩ := PrefixPattern.exists_spelled h
  obtain ⟨a, b, ha, hb, hs⟩ := exists_eq_trim s
  rcases exists_last_piece rest with hwhole | ⟨x, c, y, hc, hy, rfl⟩
  · refine absurd ?_ hsep
    rw [hspelled.eq]
    refine hspelled.whole.append ?_
    intro c hc
    rcases List.mem_cons.mp hc with rfl | hc
    · decide
    · exact hwhole c hc
  · have hyne : y ≠ [] := by
      rintro rfl
      have hlast := hspelled.last x c rfl
      rw [hc] at hlast
      cases hlast
    have hynoSlash : '/' ∉ y := fun hmem => hspelled.noSlash (by simp [hmem])
    obtain ⟨z, d, rfl⟩ := (List.eq_nil_or_concat' y).resolve_left hyne
    have hynb : trim (z ++ [d]) ≠ [] := by
      intro hnil
      have hwhite := trim_eq_nil_iff.mp hnil d (by simp)
      have hd : trim s = (addr ++ '/' :: (x ++ c :: z)) ++ [d] := by
        rw [hspelled.eq]
        simp
      rw [trim_last hd] at hwhite
      cases hwhite
    obtain ⟨a', b', ha', hb', htok⟩ := tokens_of_whole_middle (a := []) (by simp [Blank]) hb hy hynb
    refine ⟨a' ++ (z ++ [d]) ++ b', ?_, ?_⟩
    · have hsplit : s = (a ++ addr ++ '/' :: x) ++ c :: ([] ++ (z ++ [d]) ++ b) := by
        conv_lhs => rw [hs, hspelled.eq]
        simp
      rw [hsplit, tokens_append_cons _ _ hc, htok]
      simp
    · have hblank : ∀ {w}, Blank w → '/' ∉ w := by
        intro w hw hmem
        have hwhite := hw _ hmem
        revert hwhite
        decide
      simp only [List.mem_append, not_or] at hynoSlash ⊢
      exact ⟨⟨hblank ha', hynoSlash⟩, hblank hb'⟩

theorem mapM_eq_ok_iff {α β ε : Type} {f : α → Except ε β} {l : List α} {l' : List β} :
    l.mapM f = .ok l' ↔ List.Forall₂ (fun a b => f a = .ok b) l l' := by
  induction l generalizing l' with
  | nil => cases l' <;> simp [pure, Except.pure]
  | cons a l ih =>
    rw [List.mapM_cons]
    cases hf : f a with
    | error e =>
      refine iff_of_false (fun h => by cases h) ?_
      rintro (_ | ⟨hb, -⟩)
      rw [hf] at hb
      cases hb
    | ok b =>
      cases hl : l.mapM f with
      | error e =>
        refine iff_of_false (fun h => by cases h) ?_
        rintro (_ | ⟨-, hrest⟩)
        rw [← ih, hl] at hrest
        cases hrest
      | ok bs =>
        constructor
        · intro h
          cases h
          exact .cons hf (ih.mp hl)
        · rintro (_ | ⟨hb, hrest⟩)
          rw [hf] at hb
          rw [← ih, hl] at hrest
          cases hb
          cases hrest
          rfl

theorem exists_of_forall₂ {α β : Type} {R : α → β → Prop} {l : List α} {l' : List β} (h : List.Forall₂ R l l') :
    ∀ a ∈ l, ∃ b, R a b := by
  induction h with
  | nil => simp
  | cons hab _ ih =>
    intro a ha
    rcases List.mem_cons.mp ha with rfl | ha
    · exact ⟨_, hab⟩
    · exact ih a ha

/-- Patterns that are accepted one by one are accepted joined exactly if none has a separator inside. -/
theorem fromStr_intercalate_iff {l : List (List Char)} {pats : PrefixList}
    (h : List.Forall₂ (fun s p => PrefixPattern.fromStr s = .ok p) l pats) :
    PrefixList.fromStr ([',', ' '].intercalate l) = .ok pats ↔ ∀ s ∈ l, Whole (trim s) := by
  rw [PrefixList.fromStr, tokens_intercalate, mapM_eq_ok_iff]
  constructor
  · intro hjoined s hs
    by_contra hsep
    obtain ⟨p, hp⟩ := exists_of_forall₂ h s hs
    obtain ⟨t, ht, hslash⟩ := exists_token_without_slash hp hsep
    obtain ⟨q, hq⟩ := exists_of_forall₂ hjoined t (List.mem_flatMap.mpr ⟨s, hs, ht⟩)
    exact hslash (PrefixPattern.slash_mem_of_fromStr hq)
  · intro hwhole
    induction h with
    | nil => exact .nil
    | @cons s p l pats hp hrest ih =>
      obtain ⟨a, b, ha, hb, hs⟩ := exists_eq_trim s
      have hne : trim (trim s) ≠ [] := by
        obtain ⟨addr, rest, hspelled⟩ := PrefixPattern.exists_spelled hp
        rw [trim_trim, hspelled.eq]
        simp
      obtain ⟨a', b', ha', hb', htok⟩ := tokens_of_whole_middle ha hb (hwhole s (by simp)) hne
      rw [← hs] at htok
      rw [List.flatMap_cons, htok, List.singleton_append]
      refine .cons ?_ (ih fun t ht => hwhole t (by simp [ht]))
      rw [← PrefixPattern.fromStr_trim, trim_append_right hb', trim_append_left ha', trim_trim,
        PrefixPattern.fromStr_trim, hp]

/-- Networks of both families, each with a plus sign or without. -/
theorem fromStr_intercalate_plain :
    PrefixList.fromStr ([',', ' '].intercalate ["10.0.0.0/8+".toList, "::/0".toList]) =
      .ok [.orlonger ⟨.v4 0x0a000000, 8, Prefix.net10_len_le, Prefix.net10_masked⟩,
        .exact ⟨.v6 0, 0, Prefix.anyV6_len_le, Prefix.anyV6_masked⟩] := by
  refine (fromStr_intercalate_iff ?_).mpr ?_
  · exact .cons (by decide +kernel) (.cons (by decide +kernel) .nil)
  · intro s hs c hc
    obtain rfl | rfl : s = "10.0.0.0/8+".toList ∨ s = "::/0".toList := by simpa using hs
    · have hall : (trim "10.0.0.0/8+".toList).all (fun c => !isSeparator c) = true := by decide +kernel
      simpa using List.all_eq_true.mp hall c hc
    · have hall : (trim "::/0".toList).all (fun c => !isSeparator c) = true := by decide +kernel
      simpa using List.all_eq_true.mp hall c hc

/-- The comma of a length window ends a token. -/
theorem not_forall_fromStr_intercalate : ¬ ∀ (l : List (List Char)) (pats : PrefixList),
    List.Forall₂ (fun s p => PrefixPattern.fromStr s = .ok p) l pats →
      PrefixList.fromStr ([',', ' '].intercalate l) = .ok pats := by
  intro h
  have hjoined := h ["10.0.0.0/8\x7b16,24\x7d".toList]
    [⟨⟨.v4 0x0a000000, 8, Prefix.net10_len_le, Prefix.net10_masked⟩, 16, 24⟩] (.cons (by decide +kernel) .nil)
  revert hjoined
  decide +kernel

end Wren.Filter
