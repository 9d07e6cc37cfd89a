import Wren.Isis.Auth

/-! Sealing and verification with every index checked. `none` is an index out of bounds. -/

namespace Wren.Isis
open Octets

def patch? (pdu : List UInt8) (start : ℕ) (octets : List UInt8) : Option (List UInt8) :=
  if start + octets.length ≤ pdu.length then some (patch pdu start octets) else none

def authTlvFrom? (pdu : List UInt8) : ℕ → ℕ → Option (Option (ℕ × ℕ))
  | 0, _ => some none
  | fuel + 1, off =>
    if pdu.length < off + 2 then some none
    else do
      let typ ← pdu[off]?
      let len ← pdu[off + 1]?
      if pdu.length < off + 2 + len.toNat then some none
      else if typ = 10 ∧ 1 ≤ len.toNat then some (some (off + 2, len.toNat))
      else authTlvFrom? pdu fuel (off + 2 + len.toNat)

def authTlvRange? (pdu : List UInt8) : Option (Option (ℕ × ℕ)) :=
  match pdu[1]? with
  | none => some none
  | some off => authTlvFrom? pdu pdu.length off.toNat

/-- The checksum is computed over everything from octet 12 on, and written 12 octets into that. -/
def fletcherFrom12? (pdu : List UInt8) : Option (List UInt8) :=
  if pdu.length < 12 + 14 then none else some (pdu.take 12 ++ fletcher16 (pdu.drop 12) 12)

namespace IsisAuth

def cryptoValueStart? (a : IsisAuth) (l : Layout) (pdu : List UInt8) : Option (Option ℕ) := do
  match ← authTlvRange? pdu with
  | none => some none
  | some (start, len) =>
    if len = 1 + l.keyIdLen + l.digestLen then do
      let typ ← pdu[start]?
      if typ = a.authType then some (some start) else some none
    else some none

def digest? (a : IsisAuth) (l : Layout) (pdu : List UInt8) (valueStart : ℕ) : Option (Option (List UInt8)) := do
  let scratch ← patch? pdu (valueStart + 1 + l.keyIdLen) (digestPlaceholder l.digestLen l.apad)
  let scratch ← if isLsp scratch then (patch? scratch 10 [0, 0]).bind (patch? · 24 [0, 0]) else some scratch
  match a with
  | cleartext _ => some none
  | hmacMd5 mac => some (some (digits 16 (mac scratch).toNat))
  | hmacSha256 mac _ => some (some (digits 32 (mac scratch).toNat))

def patchKeyId? (a : IsisAuth) (pdu : List UInt8) (valueStart : ℕ) : Option (List UInt8) :=
  match a with
  | hmacSha256 _ keyId => patch? pdu (valueStart + 1) (digits 2 keyId.toNat)
  | _ => some pdu

def sealPdu? (a : IsisAuth) (pdu : List UInt8) : Option (List UInt8) :=
  match a.layout with
  | none => some pdu
  | some l => do
    match ← a.cryptoValueStart? l pdu with
    | none => some pdu
    | some start => do
      let pdu ← a.patchKeyId? pdu start
      match ← a.digest? l pdu start with
      | none => some pdu
      | some d => do
        let pdu ← patch? pdu (start + 1 + l.keyIdLen) d
        if isLsp pdu then fletcherFrom12? pdu else some pdu

def verify? (a : IsisAuth) (pdu : List UInt8) : Option Bool :=
  match a with
  | cleartext expected => do
    match ← authTlvRange? pdu with
    | none => some false
    | some (start, len) => do
      let typ ← pdu[start]?
      if typ = 1 then (slice? pdu (start + 1) (len - 1)).map fun d => d = expected else some false
  | _ =>
    match a.layout with
    | none => some false
    | some l => do
      match ← a.cryptoValueStart? l pdu with
      | none => some false
      | some start => do
        match ← a.digest? l pdu start with
        | none => some false
        | some d => (slice? pdu (start + 1 + l.keyIdLen) l.digestLen).map fun r => r = d

end IsisAuth

/-! ### Where the Authentication TLV is -/

theorem getElem?_eq_getD {pdu : List UInt8} {i : ℕ} (h : i < pdu.length) : pdu[i]? = some (pdu.getD i 0) := by
  simp [List.getD_eq_getElem?_getD, h]

theorem authTlvFrom?_eq (pdu : List UInt8) (fuel off : ℕ) : authTlvFrom? pdu fuel off = some (authTlvFrom pdu fuel off) := by
  induction fuel generalizing off with
  | zero => rfl
  | succ fuel ih =>
    rw [authTlvFrom?, authTlvFrom]
    by_cases hshort : pdu.length < off + 2
    · rw [if_pos hshort, if_pos hshort]
    · rw [if_neg hshort, if_neg hshort, getElem?_eq_getD (show off < pdu.length by omega),
        getElem?_eq_getD (show off + 1 < pdu.length by omega)]
      simp only [Option.bind_eq_bind, Option.bind_some, ih]
      split_ifs <;> rfl

theorem authTlvRange?_eq (pdu : List UInt8) : authTlvRange? pdu = some (authTlvRange pdu) := by
  unfold authTlvRange? authTlvRange
  cases pdu[1]? with
  | none => rfl
  | some off => exact authTlvFrom?_eq pdu pdu.length off.toNat

/-- A range that is found lies in the PDU, after the two octets that announce it. -/
theorem bounds_of_authTlvFrom {pdu : List UInt8} {fuel off start len : ℕ}
    (h : authTlvFrom pdu fuel off = some (start, len)) :
    start + len ≤ pdu.length ∧ 1 ≤ len ∧ off + 2 ≤ start ∧ pdu.getD (start - 2) 0 = 10 ∧
      (pdu.getD (start - 1) 0).toNat = len := by
  induction fuel generalizing off with
  | zero => simp [authTlvFrom] at h
  | succ fuel ih =>
    rw [authTlvFrom] at h
    split_ifs at h with hshort hcut hfound
    · obtain ⟨rfl, rfl⟩ : off + 2 = start ∧ (pdu.getD (off + 1) 0).toNat = len := by simpa using h
      exact ⟨by omega, hfound.2, le_refl _, hfound.1, rfl⟩
    · obtain ⟨hend, hlen, hoff, htype, hsecond⟩ := ih h
      exact ⟨hend, hlen, by omega, htype, hsecond⟩

/-- The range starts after the octet that tells LSPs. -/
theorem bounds_of_authTlvRange {pdu : List UInt8} {start len : ℕ} (h : authTlvRange pdu = some (start, len)) :
    start + len ≤ pdu.length ∧ 1 ≤ len ∧ 4 ≤ start := by
  unfold authTlvRange at h
  cases hoff : pdu[1]? with
  | none => simp [hoff] at h
  | some off =>
    rw [hoff] at h
    obtain ⟨hend, hlen, hstart, htype, hsecond⟩ := bounds_of_authTlvFrom h
    refine ⟨hend, hlen, ?_⟩
    have hget : pdu.getD 1 0 = off := by simp [List.getD_eq_getElem?_getD, hoff]
    by_contra hlow
    obtain rfl | rfl : start = 2 ∨ start = 3 := by omega
    · rw [hget] at hsecond
      omega
    · rw [hget] at htype
      rw [htype] at hstart
      have hten : (10 : UInt8).toNat = 10 := rfl
      omega

/-! ### Patches -/

theorem patch?_eq {pdu octets : List UInt8} {start : ℕ} (h : start + octets.length ≤ pdu.length) :
    patch? pdu start octets = some (patch pdu start octets) := if_pos h

theorem length_patch {pdu octets : List UInt8} {start : ℕ} (h : start + octets.length ≤ pdu.length) :
    (patch pdu start octets).length = pdu.length := by
  rw [patch, List.length_append, List.length_append, List.length_take, List.length_drop]
  omega

theorem getElem?_patch {pdu octets : List UInt8} {start : ℕ} (h : start + octets.length ≤ pdu.length) (i : ℕ) :
    (patch pdu start octets)[i]? =
      if start ≤ i ∧ i < start + octets.length then octets[i - start]? else pdu[i]? := by
  have hlen : (pdu.take start).length = start := by
    rw [List.length_take]
    omega
  rw [patch, List.append_assoc]
  by_cases hlow : i < start
  · rw [List.getElem?_append_left (by omega), List.getElem?_take_of_lt hlow, if_neg (by omega)]
  · rw [List.getElem?_append_right (by omega), hlen]
    by_cases hin : i < start + octets.length
    · rw [List.getElem?_append_left (by omega), if_pos ⟨by omega, hin⟩]
    · rw [List.getElem?_append_right (by omega), List.getElem?_drop, if_neg (by omega)]
      congr 1
      omega

theorem isLsp_patch {pdu octets : List UInt8} {start : ℕ} (h : start + octets.length ≤ pdu.length) (hstart : 4 < start) :
    isLsp (patch pdu start octets) = isLsp pdu := by
  rw [isLsp, getElem?_patch h, if_neg (by omega)]
  rfl

namespace IsisAuth
variable {a : IsisAuth} {l : Layout} {pdu : List UInt8} {start : ℕ}

theorem cryptoValueStart?_eq (a : IsisAuth) (l : Layout) (pdu : List UInt8) :
    a.cryptoValueStart? l pdu = some (a.cryptoValueStart l pdu) := by
  unfold cryptoValueStart? cryptoValueStart
  rw [authTlvRange?_eq]
  cases hrange : authTlvRange pdu with
  | none => rfl
  | some r =>
    obtain ⟨start, len⟩ := r
    obtain ⟨hend, hlen, -⟩ := bounds_of_authTlvRange hrange
    simp only [Option.bind_eq_bind, Option.bind_some, getElem?_eq_getD (show start < pdu.length by omega)]
    by_cases hscheme : len = 1 + l.keyIdLen + l.digestLen
    · by_cases htype : pdu.getD start 0 = a.authType
      · rw [if_pos hscheme, if_pos htype, if_pos ⟨hscheme, htype⟩]
      · rw [if_pos hscheme, if_neg htype, if_neg fun h => htype h.2]
    · rw [if_neg hscheme, if_neg fun h => hscheme h.1]

/-- What a scheme works on lies in the PDU. -/
theorem bounds_of_cryptoValueStart (h : a.cryptoValueStart l pdu = some start) :
    start + 1 + l.keyIdLen + l.digestLen ≤ pdu.length ∧ 4 ≤ start := by
  rw [cryptoValueStart] at h
  cases hrange : authTlvRange pdu with
  | none => simp [hrange] at h
  | some r =>
    obtain ⟨first, len⟩ := r
    rw [hrange] at h
    dsimp only at h
    split_ifs at h with hscheme
    obtain rfl := Option.some.inj h
    obtain ⟨hend, -, hlow⟩ := bounds_of_authTlvRange hrange
    exact ⟨by omega, hlow⟩

/-- The PDU says that it is an LSP, carries an Authentication TLV of this scheme, and ends before the checksum of an LSP
would. -/
def Overreaches (a : IsisAuth) (pdu : List UInt8) : Prop :=
  isLsp pdu = true ∧ pdu.length < 26 ∧ ∃ l, a.layout = some l ∧ (a.cryptoValueStart l pdu).isSome

theorem length_placeholder (n : ℕ) (apad : Bool) : (digestPlaceholder n apad).length = n := by
  unfold digestPlaceholder
  split_ifs
  · simp
    omega
  · simp

theorem digest?_eq (hl : a.layout = some l) (hend : start + 1 + l.keyIdLen + l.digestLen ≤ pdu.length) (hlow : 4 ≤ start) :
    a.digest? l pdu start = if isLsp pdu = true ∧ pdu.length < 26 then none else some (a.digest l pdu start) := by
  have hfield : start + 1 + l.keyIdLen + (digestPlaceholder l.digestLen l.apad).length ≤ pdu.length := by
    rw [length_placeholder]
    omega
  have hlsp := isLsp_patch hfield (show 4 < start + 1 + l.keyIdLen by omega)
  have hlen := length_patch hfield
  obtain ⟨scratch, hscratch⟩ : ∃ s, patch pdu (start + 1 + l.keyIdLen) (digestPlaceholder l.digestLen l.apad) = s :=
    ⟨_, rfl⟩
  rw [hscratch] at hlsp hlen
  unfold digest? digest
  rw [patch?_eq hfield, hscratch, ← hlsp, ← hlen]
  dsimp only [Option.bind_eq_bind, Option.bind_some]
  by_cases h : isLsp scratch = true
  · rw [if_pos h, if_pos h]
    by_cases hshort : scratch.length < 26
    · rw [if_pos ⟨h, hshort⟩]
      unfold patch?
      simp only [List.length_cons, List.length_nil]
      split_ifs with hten
      · rw [Option.bind_some, if_neg (by rw [length_patch (by simpa using hten)]; omega)]
        rfl
      · rfl
    · have hten : 10 + ([0, 0] : List UInt8).length ≤ scratch.length := by
        simp only [List.length_cons, List.length_nil]
        omega
      have hcheck : 24 + ([0, 0] : List UInt8).length ≤ (patch scratch 10 [0, 0]).length := by
        rw [length_patch hten]
        simp only [List.length_cons, List.length_nil]
        omega
      rw [if_neg (fun hc => hshort hc.2), patch?_eq hten, Option.bind_some, patch?_eq hcheck]
      cases a <;> rfl
  · rw [if_neg h, if_neg h, if_neg (fun hc => h hc.1)]
    cases a <;> rfl

theorem digest_isSome (hl : a.layout = some l) (pdu : List UInt8) (start : ℕ) : ∃ d, a.digest l pdu start = some d := by
  cases a with
  | cleartext _ => simp [layout] at hl
  | hmacMd5 mac => exact ⟨_, rfl⟩
  | hmacSha256 mac keyId => exact ⟨_, rfl⟩

/-- The key ID goes between the type octet and the digest. -/
theorem patchKeyId?_eq (hl : a.layout = some l) (hend : start + 1 + l.keyIdLen + l.digestLen ≤ pdu.length)
    (hlow : 4 ≤ start) :
    a.patchKeyId? pdu start = some (a.patchKeyId pdu start) ∧ (a.patchKeyId pdu start).length = pdu.length ∧
      isLsp (a.patchKeyId pdu start) = isLsp pdu := by
  cases a with
  | cleartext _ => exact ⟨rfl, rfl, rfl⟩
  | hmacMd5 mac => exact ⟨rfl, rfl, rfl⟩
  | hmacSha256 mac keyId =>
    have hkey : l.keyIdLen = 2 := by rw [← Option.some.inj hl]
    have hfield : start + 1 + (digits 2 keyId.toNat).length ≤ pdu.length := by
      rw [length_digits]
      omega
    exact ⟨patch?_eq hfield, length_patch hfield, isLsp_patch hfield (by omega)⟩

theorem not_short (h : ¬ a.Overreaches pdu) (hl : a.layout = some l) (hstart : a.cryptoValueStart l pdu = some start) :
    ¬ (isLsp pdu = true ∧ pdu.length < 26) :=
  fun hshort => h ⟨hshort.1, hshort.2, l, hl, by rw [hstart]; rfl⟩

/-- Sealing stays in the buffer but for PDUs that end too early for the LSPs that they say they are. -/
theorem sealPdu?_eq (h : ¬ a.Overreaches pdu) : a.sealPdu? pdu = some (a.sealPdu pdu) := by
  unfold sealPdu? sealPdu
  cases hl : a.layout with
  | none => rfl
  | some l =>
    dsimp only
    rw [cryptoValueStart?_eq]
    cases hstart : a.cryptoValueStart l pdu with
    | none => rfl
    | some start =>
      obtain ⟨hend, hlow⟩ := bounds_of_cryptoValueStart hstart
      obtain ⟨hkey, hkeyLen, hkeyLsp⟩ := patchKeyId?_eq hl hend hlow
      have hshort := not_short h hl hstart
      simp only [Option.bind_eq_bind, Option.bind_some, hkey]
      rw [digest?_eq hl (by rw [hkeyLen]; exact hend) hlow, hkeyLsp, hkeyLen, if_neg hshort]
      obtain ⟨d, hd⟩ := digest_isSome hl (a.patchKeyId pdu start) start
      have hfield : start + 1 + l.keyIdLen + d.length ≤ (a.patchKeyId pdu start).length := by
        rw [length_digest hl hd, hkeyLen]
        exact hend
      have hlsp := isLsp_patch hfield (by omega)
      have hlen := length_patch hfield
      rw [hd]
      simp only [Option.bind_some, patch?_eq hfield]
      split_ifs with hislsp
      · rw [fletcherFrom12?, if_neg]
        rw [hlen, hkeyLen]
        rw [hlsp, hkeyLsp] at hislsp
        exact fun hlt => hshort ⟨hislsp, hlt⟩
      · rfl

theorem slice?_eq {pdu : List UInt8} {start len : ℕ} (h : start + len ≤ pdu.length) :
    slice? pdu start len = some ((pdu.drop start).take len) := if_pos h

theorem verify?_eq (h : ¬ a.Overreaches pdu) : a.verify? pdu = some (a.verify pdu) := by
  have hcleartext : ∀ expected, (cleartext expected).verify? pdu = some ((cleartext expected).verify pdu) := by
    intro expected
    unfold verify? verify
    rw [authTlvRange?_eq]
    cases hrange : authTlvRange pdu with
    | none => rfl
    | some r =>
      obtain ⟨start, len⟩ := r
      obtain ⟨hend, hlen, -⟩ := bounds_of_authTlvRange hrange
      simp only [Option.bind_eq_bind, Option.bind_some, getElem?_eq_getD (show start < pdu.length by omega),
        slice?_eq (show start + 1 + (len - 1) ≤ pdu.length by omega), Option.map_some]
      by_cases htype : pdu.getD start 0 = 1
      · rw [if_pos htype, decide_eq_true htype, Bool.true_and]
      · rw [if_neg htype, decide_eq_false htype, Bool.false_and]
  have hkeyed : ∀ l, a.layout = some l → (do
      match ← a.cryptoValueStart? l pdu with
      | none => some false
      | some start => do
        match ← a.digest? l pdu start with
        | none => some false
        | some d => (slice? pdu (start + 1 + l.keyIdLen) l.digestLen).map fun r => decide (r = d)) =
      some (match a.cryptoValueStart l pdu with
      | none => false
      | some start =>
        match a.digest l pdu start with
        | none => false
        | some d => decide ((pdu.drop (start + 1 + l.keyIdLen)).take l.digestLen = d)) := by
    intro l hl
    rw [cryptoValueStart?_eq]
    cases hstart : a.cryptoValueStart l pdu with
    | none => rfl
    | some start =>
      obtain ⟨hend, hlow⟩ := bounds_of_cryptoValueStart hstart
      obtain ⟨d, hd⟩ := digest_isSome hl pdu start
      simp only [Option.bind_eq_bind, Option.bind_some]
      rw [digest?_eq hl hend hlow, if_neg (not_short h hl hstart), hd]
      simp only [Option.bind_some, slice?_eq hend, Option.map_some]
  cases a with
  | cleartext expected => exact hcleartext expected
  | hmacMd5 mac => exact hkeyed _ rfl
  | hmacSha256 mac keyId => exact hkeyed _ rfl

/-- What overreaches is indexed out of bounds, by both. -/
theorem eq_none_of_overreaches (h : a.Overreaches pdu) : a.sealPdu? pdu = none ∧ a.verify? pdu = none := by
  obtain ⟨hlsp, hshort, l, hl, hsome⟩ := h
  obtain ⟨start, hstart⟩ := Option.isSome_iff_exists.mp hsome
  obtain ⟨hend, hlow⟩ := bounds_of_cryptoValueStart hstart
  obtain ⟨hkey, hkeyLen, hkeyLsp⟩ := patchKeyId?_eq hl hend hlow
  have hdigest : a.digest? l pdu start = none := by rw [digest?_eq hl hend hlow, if_pos ⟨hlsp, hshort⟩]
  constructor
  · unfold sealPdu?
    rw [hl]
    simp only [cryptoValueStart?_eq, hstart, Option.bind_eq_bind, Option.bind_some, hkey]
    rw [digest?_eq hl (by rw [hkeyLen]; exact hend) hlow, hkeyLsp, hkeyLen, if_pos ⟨hlsp, hshort⟩]
    rfl
  · cases a with
    | cleartext _ => simp [layout] at hl
    | hmacMd5 mac =>
      simp only [verify?, hl, cryptoValueStart?_eq, hstart, Option.bind_eq_bind, Option.bind_some, hdigest, Option.bind_none]
    | hmacSha256 mac keyId =>
      simp only [verify?, hl, cryptoValueStart?_eq, hstart, Option.bind_eq_bind, Option.bind_some, hdigest, Option.bind_none]

end IsisAuth
end Wren.Isis
