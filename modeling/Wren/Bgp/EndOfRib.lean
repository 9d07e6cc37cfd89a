import Wren.Bgp.Message

/-! Which UPDATE bodies are taken for the IPv4 End-of-RIB marker. -/

namespace Wren.Bgp
open Wren.Core Octets

@[simp] theorem decodePrefixes_nil (ap : Bool) : decodePrefixes ap [] = .ok ([], []) := by
  cases ap <;> rfl

/-- Octets that decode hold a route. -/
theorem eq_nil_of_readAll_nil {α : Type*} {one : List UInt8 → Option (α × ℕ)} {buf : List UInt8}
    (h : readAll one buf = some []) : buf = [] := by
  by_contra hne
  obtain ⟨n, hn⟩ : ∃ n, buf.length = n + 1 := Nat.exists_eq_succ_of_ne_zero (by simpa using hne)
  rw [readAll, hn, readRecords_succ hne] at h
  obtain ⟨⟨a, used⟩, -, hrest⟩ := Option.bind_eq_some_iff.mp h
  obtain ⟨rest, -, hcons⟩ := Option.map_eq_some_iff.mp hrest
  cases hcons

theorem eq_nil_of_decodePrefixes_nil {ap : Bool} {buf : List UInt8} {ids : List UInt32}
    (h : decodePrefixes ap buf = .ok ([], ids)) : buf = [] := by
  cases ap with
  | true =>
    cases hread : readAll decodeIdentified buf with
    | none => simp [decodePrefixes, hread] at h
    | some routes =>
      simp only [decodePrefixes, if_true, hread, Except.ok.injEq, Prod.mk.injEq, List.map_eq_nil_iff] at h
      rw [h.1] at hread
      exact eq_nil_of_readAll_nil hread
  | false =>
    cases hread : readAll decodePrefix buf with
    | none => simp [decodePrefixes, hread] at h
    | some routes =>
      simp only [decodePrefixes, Bool.false_eq_true, if_false, hread, Except.ok.injEq, Prod.mk.injEq] at h
      rw [h.1] at hread
      exact eq_nil_of_readAll_nil hread

/-- A block that leaves something other than an empty withdrawal of IPv4 routes. -/
def KeepsAttribute (fmt : FamilyFormats) (four : Bool) (octets : List UInt8) : Prop :=
  ∃ attrs, decodeAttributes fmt four octets = .ok attrs ∧ mandatoryAttributesPresent attrs false = true ∧
    attrs ≠ [] ∧ attrs ≠ [.mpUnreachNlri afiIpv4 safiUnicast []]

theorem endOfRib_attributes_eq_ipv4_iff (attrs : List PathAttribute) :
    Update.endOfRib { attributes := attrs } = some (afiIpv4, safiUnicast) ↔
      attrs = [] ∨ attrs = [.mpUnreachNlri afiIpv4 safiUnicast []] := by
  rcases attrs with _ | ⟨a, _ | ⟨b, attrs⟩⟩
  · simp [Update.endOfRib]
  · cases a with
    | mpUnreachNlri afi safi withdrawn => cases withdrawn <;> simp [Update.endOfRib]
    | mpUnreachFamily f afi withdrawn =>
      cases f <;> cases withdrawn <;> simp +decide [Update.endOfRib]
    | _ => simp [Update.endOfRib]
  · simp [Update.endOfRib]

/-- Without networks the block alone decides. -/
theorem endOfRib_applyAttributes_iff (fmt : FamilyFormats) (four : Bool) (octets : List UInt8) :
    (applyAttributes fmt four octets ([], []) ([], [])).endOfRib = some (afiIpv4, safiUnicast) ↔
      ¬ KeepsAttribute fmt four octets := by
  unfold applyAttributes KeepsAttribute
  cases hdec : decodeAttributes fmt four octets with
  | error e => simp [Update.endOfRib]
  | ok attrs =>
    by_cases hm : mandatoryAttributesPresent attrs false = true
    · simp only [List.isEmpty_nil, Bool.not_true, hm, if_true]
      rw [endOfRib_attributes_eq_ipv4_iff]
      simp [hm, or_iff_not_imp_left]
    · simp [Update.endOfRib, hm]

/-- An UPDATE with a network is no marker. -/
theorem nil_of_endOfRib_applyAttributes {fmt : FamilyFormats} {four : Bool} {octets : List UInt8}
    {w n : List Prefix × List UInt32} {family : UInt16 × UInt8}
    (h : (applyAttributes fmt four octets w n).endOfRib = some family) : w.1 = [] ∧ n.1 = [] := by
  have hempty : ∀ u : Update, u.endOfRib = some family → u.withdrawn = [] ∧ u.nlri = [] := by
    intro u hu
    by_contra hne
    rw [not_and_or] at hne
    simp [Update.endOfRib, hne] at hu
  unfold applyAttributes at h
  cases hdec : decodeAttributes fmt four octets with
  | error e =>
    simp only [hdec] at h
    simpa using (hempty _ h).1
  | ok attrs =>
    simp only [hdec] at h
    split_ifs at h
    · exact hempty _ h
    · simpa using (hempty _ h).1

/-- Only a body without attributes is taken for the IPv4 marker, exactly when a block that stands alone
keeps an attribute. -/
theorem endOfRib_ipv4_only_if_no_attributes_iff (fmt : FamilyFormats) (four : Bool) (addPath : AddPath)
    (body : List UInt8) :
    (∀ u, decodeUpdate fmt four addPath body = .ok u → u.endOfRib = some (afiIpv4, safiUnicast) →
      attributeOctets body = []) ↔
    (Framed body → withdrawnOctets body = [] → nlriOctets body = [] → attributeOctets body ≠ [] →
      KeepsAttribute fmt four (attributeOctets body)) := by
  constructor
  · intro h hf hw hn ha
    by_contra hkeep
    refine ha (h _ (decodeUpdate_eq_ok_iff.mpr ⟨hf, ([], []), ([], []), ?_, ?_, rfl⟩) ?_)
    · rw [hw, decodePrefixes_nil]
    · rw [hn, decodePrefixes_nil]
    · exact (endOfRib_applyAttributes_iff fmt four _).mpr hkeep
  · intro h u hu hmark
    obtain ⟨hf, ⟨w, wi⟩, ⟨n, ni⟩, hw, hn, rfl⟩ := decodeUpdate_eq_ok_iff.mp hu
    obtain ⟨rfl, rfl⟩ : w = [] ∧ n = [] := nil_of_endOfRib_applyAttributes hmark
    have hwnil := eq_nil_of_decodePrefixes_nil hw
    have hnnil := eq_nil_of_decodePrefixes_nil hn
    obtain rfl : wi = [] := by
      rw [hwnil, decodePrefixes_nil] at hw
      cases hw
      rfl
    obtain rfl : ni = [] := by
      rw [hnnil, decodePrefixes_nil] at hn
      cases hn
      rfl
    by_contra ha
    exact (endOfRib_applyAttributes_iff fmt four _).mp hmark (h hf hwnil hnnil ha)

/-- MULTI_EXIT_DISC of three octets and nothing else. -/
def shortMed : List UInt8 := [0, 0, 0, 6, 0x80, 4, 3, 0, 0, 0]

/-- A malformed attribute block passes for the marker. -/
theorem not_forall_endOfRib_no_attributes :
    ¬ ∀ (fmt : FamilyFormats) (four : Bool) (addPath : AddPath) (body : List UInt8) (u : Update),
      decodeUpdate fmt four addPath body = .ok u → u.endOfRib = some (afiIpv4, safiUnicast) →
        attributeOctets body = [] := by
  intro h
  have hbad := h ⟨fun _ _ _ => none, fun _ => none, fun _ => none, fun _ => none⟩ true ⟨false⟩ shortMed {}
    (by decide +kernel) (by decide +kernel)
  exact absurd hbad (by decide +kernel)

end Wren.Bgp
