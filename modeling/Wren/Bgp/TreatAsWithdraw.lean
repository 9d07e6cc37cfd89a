import Wren.Bgp.RoundTrip
import Wren.Bgp.Decoded

/-! What becomes of the routes of an UPDATE whose attributes are rejected. -/

namespace Wren.Bgp
open Wren.Core Octets

def AttrOutcome.kept : AttrOutcome → Option PathAttribute
  | keep a => some a
  | discard _ => none

/-- The places of a block where an attribute starts, as its length fields have it. -/
def attributeStarts : ℕ → List UInt8 → List (List UInt8)
  | 0, _ => []
  | n + 1, buf =>
    match PathAttribute.frame buf with
    | some (_, _, _, used) => buf :: attributeStarts n (buf.drop used)
    | none => []

/-- The well-formed attributes of a block, whatever the others are. -/
def wellFormedAttributes (fmt : FamilyFormats) (four : Bool) (octets : List UInt8) : List PathAttribute :=
  (attributeStarts octets.length octets).filterMap fun buf =>
    (PathAttribute.decode fmt four buf).bind fun (o, _) => o.kept

/-- In a block that is not broken they are the attributes that are kept. -/
theorem wellFormedAttributes_of_decode {fmt : FamilyFormats} {four : Bool} {octets : List UInt8}
    {attrs : List PathAttribute} (h : decodeAttributes fmt four octets = .ok attrs) :
    wellFormedAttributes fmt four octets = attrs := by
  have hread : ∀ (n : ℕ) (buf : List UInt8) (outcomes : List AttrOutcome),
      readRecords (PathAttribute.decode fmt four) n buf = some outcomes →
      ((attributeStarts n buf).filterMap fun buf =>
        (PathAttribute.decode fmt four buf).bind fun (o, _) => o.kept) = outcomes.filterMap AttrOutcome.kept := by
    intro n
    induction n with
    | zero =>
      intro buf outcomes hout
      cases buf with
      | nil =>
        cases hout
        rfl
      | cons b buf => cases hout
    | succ n ih =>
      intro buf outcomes hout
      by_cases hnil : buf = []
      · subst hnil
        cases hout
        rfl
      · rw [readRecords_succ hnil] at hout
        obtain ⟨⟨o, used⟩, ho, hrest⟩ := Option.bind_eq_some_iff.mp hout
        obtain ⟨rest, hr, rfl⟩ := Option.map_eq_some_iff.mp hrest
        obtain ⟨flags, code, v, hframe, -⟩ := PathAttribute.of_decode ho
        simp only [attributeStarts, hframe, List.filterMap_cons, ho, ih _ rest hr]
        cases o <;> rfl
  unfold decodeAttributes at h
  cases hall : readAll (PathAttribute.decode fmt four) octets with
  | none =>
    rw [hall] at h
    cases h
  | some outcomes =>
    rw [hall] at h
    dsimp only at h
    split_ifs at h
    rw [← Except.ok.inj h]
    exact hread _ _ _ hall

/-- The unicast routes that a multiprotocol attribute lists. -/
def PathAttribute.unicastRoutes : PathAttribute → List Prefix
  | mpReachNlri _ _ _ nlri => nlri
  | mpUnreachNlri _ _ withdrawn => withdrawn
  | _ => []

/-- The route is among those that an UPDATE withdraws, in its own field or in MP_UNREACH_NLRI. -/
def Update.Withdraws (u : Update) (p : Prefix) : Prop :=
  p ∈ u.withdrawn ∨ ∃ afi safi withdrawn, .mpUnreachNlri afi safi withdrawn ∈ u.attributes ∧ p ∈ withdrawn

/-- The attributes do not decode, or a mandatory one is missing. -/
def RejectedBlock (fmt : FamilyFormats) (four : Bool) (octets : List UInt8) (nlri : List Prefix) : Prop :=
  ∀ attrs, decodeAttributes fmt four octets = .ok attrs → mandatoryAttributesPresent attrs (!nlri.isEmpty) = false

theorem applyAttributes_of_rejected {fmt : FamilyFormats} {four : Bool} {octets : List UInt8}
    {w n : List Prefix × List UInt32} (h : RejectedBlock fmt four octets n.1) :
    applyAttributes fmt four octets w n = { withdrawn := w.1 ++ n.1, withdrawnPathIds := w.2 ++ n.2 } := by
  unfold applyAttributes
  cases hdec : decodeAttributes fmt four octets with
  | error e => rfl
  | ok attrs =>
    simp only [h attrs hdec]
    rfl

/-- The networks of both fields are withdrawn, the received withdrawn ones first. Those of well-formed
multiprotocol attributes are withdrawn exactly if they are among them. -/
theorem decodeUpdate_of_rejected {fmt : FamilyFormats} {four : Bool} {addPath : AddPath} {body : List UInt8}
    {w n : List Prefix × List UInt32} (hf : Framed body)
    (hw : decodePrefixes addPath.ipv4Unicast (withdrawnOctets body) = .ok w)
    (hn : decodePrefixes addPath.ipv4Unicast (nlriOctets body) = .ok n)
    (hrej : RejectedBlock fmt four (attributeOctets body) n.1) :
    ∃ u, decodeUpdate fmt four addPath body = .ok u ∧
      (u.withdrawn = w.1 ++ n.1 ∧ u.withdrawnPathIds = w.2 ++ n.2 ∧ u.nlri = [] ∧ u.nlriPathIds = []) ∧
      ((∀ a ∈ wellFormedAttributes fmt four (attributeOctets body), ∀ p ∈ a.unicastRoutes, u.Withdraws p) ↔
        ∀ a ∈ wellFormedAttributes fmt four (attributeOctets body), ∀ p ∈ a.unicastRoutes, p ∈ w.1 ++ n.1) := by
  refine ⟨_, decodeUpdate_eq_ok_iff.mpr ⟨hf, w, n, hw, hn, applyAttributes_of_rejected hrej⟩,
    ⟨rfl, rfl, rfl, rfl⟩, ?_⟩
  have hwithdraws : ∀ p, Update.Withdraws { withdrawn := w.1 ++ n.1, withdrawnPathIds := w.2 ++ n.2 } p ↔
      p ∈ w.1 ++ n.1 := by
    intro p
    simp [Update.Withdraws]
  simp only [hwithdraws]

/-- A block with an ORIGIN of the wrong length, and a network behind it. -/
theorem decodeUpdate_of_badOrigin :
    (∃ u, decodeUpdate Message.noFamilies true ⟨false⟩ [0, 0, 0, 5, 0x40, 1, 2, 0, 0, 8, 10] = .ok u ∧
      (u.withdrawn = [] ++ [⟨.v4 0x0a000000, 8, Prefix.net10_len_le, Prefix.net10_masked⟩] ∧
        u.withdrawnPathIds = [] ++ [] ∧ u.nlri = [] ∧ u.nlriPathIds = []) ∧
      ((∀ a ∈ wellFormedAttributes Message.noFamilies true [0x40, 1, 2, 0, 0], ∀ p ∈ a.unicastRoutes,
          u.Withdraws p) ↔
        ∀ a ∈ wellFormedAttributes Message.noFamilies true [0x40, 1, 2, 0, 0], ∀ p ∈ a.unicastRoutes,
          p ∈ [] ++ [(⟨.v4 0x0a000000, 8, Prefix.net10_len_le, Prefix.net10_masked⟩ : Prefix)])) := by
  refine decodeUpdate_of_rejected (w := ([], []))
    (n := ([⟨.v4 0x0a000000, 8, Prefix.net10_len_le, Prefix.net10_masked⟩], [])) ?_ ?_ ?_ ?_
  · refine ⟨?_, ?_, ?_, ?_⟩ <;> decide
  · decide +kernel
  · decide +kernel
  · intro attrs hattrs
    have herror : decodeAttributes Message.noFamilies true [0x40, 1, 2, 0, 0] = .error .malformed := by decide +kernel
    rw [show attributeOctets [0, 0, 0, 5, 0x40, 1, 2, 0, 0, 8, 10] = [0x40, 1, 2, 0, 0] from rfl, herror] at hattrs
    cases hattrs

/-- An MP_REACH_NLRI with ::/0 and no ORIGIN: nothing is withdrawn. -/
theorem not_forall_withdraws_multiprotocol : ¬ ∀ (fmt : FamilyFormats) (four : Bool) (addPath : AddPath)
    (body : List UInt8) (w n : List Prefix × List UInt32) (u : Update), Framed body →
      decodePrefixes addPath.ipv4Unicast (withdrawnOctets body) = .ok w →
      decodePrefixes addPath.ipv4Unicast (nlriOctets body) = .ok n →
      RejectedBlock fmt four (attributeOctets body) n.1 → decodeUpdate fmt four addPath body = .ok u →
      ∀ a ∈ wellFormedAttributes fmt four (attributeOctets body), ∀ p ∈ a.unicastRoutes, u.Withdraws p := by
  intro h
  let reach : PathAttribute := .mpReachNlri afiIpv6 safiUnicast (List.replicate 16 1)
    [⟨.v6 0, 0, Prefix.anyV6_len_le, Prefix.anyV6_masked⟩]
  let body := encodeUpdate true ⟨false⟩ { attributes := [reach] }
  have hattrs : decodeAttributes Message.noFamilies true (attributeOctets body) = .ok [reach] := by decide +kernel
  have hlost := h Message.noFamilies true ⟨false⟩ body ([], []) ([], []) {} (by constructor <;> decide +kernel)
    (by decide +kernel) (by decide +kernel) ?_ (by decide +kernel) reach ?_
    ⟨.v6 0, 0, Prefix.anyV6_len_le, Prefix.anyV6_masked⟩ (by simp [reach, PathAttribute.unicastRoutes])
  · simp [Update.Withdraws] at hlost
  · intro attrs hdec
    rw [hattrs] at hdec
    cases hdec
    decide
  · rw [wellFormedAttributes_of_decode hattrs]
    simp

end Wren.Bgp
