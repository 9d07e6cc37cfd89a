import Wren.Bgp.Message

/-! What an attribute and an UPDATE that were decoded were decoded from. -/

namespace Wren.Bgp
open Octets

namespace PathAttribute

/-- The types whose attributes are always read as what they are. -/
def recognised : List UInt8 :=
  [typeOrigin, typeAsPath, typeAs4Path, typeNextHop, typeMed, typeLocalPref, typeAtomicAggregate, typeCommunities,
    typeExtendedCommunities, typeLargeCommunities, typeMpReachNlri, typeMpUnreachNlri, typeOriginatorId,
    typeClusterList, typeAggregator, typeAs4Aggregator, typeOnlyToCustomer]

/-- An attribute of this type and value is not understood. -/
structure Foreign (fmt : FamilyFormats) (code : UInt8) (v : List UInt8) : Prop where
  notRecognised : code ∉ recognised
  noTunnel : code = typeTunnelEncap → fmt.tunnelEncap v = none
  noLinkState : code = typeBgpLs → fmt.bgpLs v = none
  noSid : code = typePrefixSid → fmt.prefixSid v = none

/-- What is read under a type code is an attribute of that type, and if it is one that is not understood then
it is kept as it came. -/
structure ReadFrom (fmt : FamilyFormats) (flags code : UInt8) (v : List UInt8) (a : PathAttribute) : Prop where
  ofCode : a.typeCode = code
  asItCame : ∀ f c w, a = unknown f c w → f = flags ∧ w = v ∧ Foreign fmt code v

/-- Whatever is read has the property. -/
def Yields (P : PathAttribute → Prop) (r : Option (Except UInt8 PathAttribute)) : Prop :=
  ∀ a, r = some (.ok a) → P a

namespace Yields
variable {P : PathAttribute → Prop}

theorem ite {c : Prop} [Decidable c] {x y : Option (Except UInt8 PathAttribute)} (hx : c → Yields P x)
    (hy : ¬ c → Yields P y) : Yields P (if c then x else y) := by
  split_ifs with h
  · exact hx h
  · exact hy h

theorem none : Yields P none := by
  intro a h
  cases h

theorem error {canonical : UInt8} : Yields P (some (.error canonical)) := by
  intro a h
  cases h

theorem ok {a : PathAttribute} (ha : P a) : Yields P (some (.ok a)) := by
  intro b h
  rw [← Except.ok.inj (Option.some.inj h)]
  exact ha

theorem map {α : Type} {f : α → PathAttribute} (hf : ∀ x, P (f x)) (o : Option α) :
    Yields P ((o.map f).map .ok) := by
  cases o with
  | none => exact none
  | some x => exact ok (hf x)

theorem getD {α : Type} {f : α → PathAttribute} {o : Option α} {d : PathAttribute} (hf : ∀ x, P (f x))
    (hd : o = .none → P d) : Yields P (some (.ok ((o.map f).getD d))) := by
  cases o with
  | none => exact ok (hd rfl)
  | some x => exact ok (hf x)

end Yields

section ReadFrom
variable {fmt : FamilyFormats} {flags code : UInt8} {v : List UInt8}

theorem ReadFrom.known {a : PathAttribute} (hcode : a.typeCode = code) (hne : ∀ f c w, a ≠ unknown f c w) :
    ReadFrom fmt flags code v a :=
  ⟨hcode, fun f c w heq => absurd heq (hne f c w)⟩

theorem ReadFrom.unknown (h : Foreign fmt code v) : ReadFrom fmt flags code v (.unknown flags code v) := by
  refine ⟨rfl, ?_⟩
  intro f c w heq
  cases heq
  exact ⟨rfl, rfl, h⟩

theorem readFrom_decodeMpReach (fmt : FamilyFormats) (flags : UInt8) (v : List UInt8) :
    Yields (ReadFrom fmt flags typeMpReachNlri v) ((decodeMpReach fmt v).map .ok) := by
  intro a h
  obtain ⟨b, hb, heq⟩ := Option.map_eq_some_iff.mp h
  obtain rfl := Except.ok.inj heq
  unfold decodeMpReach at hb
  split at hb
  · dsimp only at hb
    split_ifs at hb
    · split at hb
      · obtain ⟨x, -, rfl⟩ := Option.map_eq_some_iff.mp hb
        exact .known rfl (by simp)
      · cases hb
    · split at hb
      all_goals
        obtain ⟨x, -, rfl⟩ := Option.map_eq_some_iff.mp hb
        exact .known rfl (by simp)
  · cases hb

theorem readFrom_decodeMpUnreach (fmt : FamilyFormats) (flags : UInt8) (v : List UInt8) :
    Yields (ReadFrom fmt flags typeMpUnreachNlri v) ((decodeMpUnreach fmt v).map .ok) := by
  intro a h
  obtain ⟨b, hb, heq⟩ := Option.map_eq_some_iff.mp h
  obtain rfl := Except.ok.inj heq
  unfold decodeMpUnreach at hb
  split at hb
  · dsimp only at hb
    split at hb
    · obtain ⟨x, -, rfl⟩ := Option.map_eq_some_iff.mp hb
      exact .known rfl (by simp)
    · split_ifs at hb
      obtain ⟨x, -, rfl⟩ := Option.map_eq_some_iff.mp hb
      exact .known rfl (by simp)
  · cases hb

theorem readFrom_decodeValue (fmt : FamilyFormats) (four : Bool) (flags code : UInt8) (v : List UInt8) :
    Yields (ReadFrom fmt flags code v) (decodeValue fmt four flags code v) := by
  unfold decodeValue
  dsimp only
  refine .ite ?origin fun h₁ => .ite ?asPath fun h₂ => .ite ?as4Path fun h₃ => .ite ?nextHop fun h₄ =>
    .ite ?med fun h₅ => .ite ?localPref fun h₆ => .ite ?atomicAggregate fun h₇ => .ite ?communities fun h₈ =>
    .ite ?extended fun h₉ => .ite ?large fun h₁₀ => .ite ?mpReach fun h₁₁ => .ite ?mpUnreach fun h₁₂ =>
    .ite ?originatorId fun h₁₃ => .ite ?clusterList fun h₁₄ => .ite ?aggregator fun h₁₅ =>
    .ite ?as4Aggregator fun h₁₆ => .ite ?onlyToCustomer fun h₁₇ => .ite ?tunnelEncap fun h₁₈ =>
    .ite ?bgpLs fun h₁₉ => .ite ?prefixSid fun h₂₀ => ?unknown
  case origin =>
    rintro rfl
    split
    · refine .map ?_ _
      intro _
      exact .known rfl (by simp)
    · exact .none
  case asPath | as4Path | med | localPref | as4Aggregator | onlyToCustomer =>
    rintro rfl
    refine .map ?_ _
    intro _
    exact .known rfl (by simp)
  case nextHop | communities | extended | large | originatorId | clusterList =>
    rintro rfl
    exact .ite (fun _ => .none) fun _ => .ok (.known rfl (by simp))
  case atomicAggregate =>
    rintro rfl
    exact .ite (fun _ => .error) fun _ => .ok (.known rfl (by simp))
  case mpReach =>
    rintro rfl
    exact readFrom_decodeMpReach fmt flags v
  case mpUnreach =>
    rintro rfl
    exact readFrom_decodeMpUnreach fmt flags v
  case aggregator =>
    rintro rfl
    split
    · exact .ok (.known rfl (by simp))
    · exact .error
  case tunnelEncap =>
    rintro rfl
    exact .getD (fun _ => .known rfl (by simp))
      fun hnone => .unknown ⟨by decide, fun _ => hnone, by simp +decide, by simp +decide⟩
  case bgpLs =>
    rintro rfl
    exact .getD (fun _ => .known rfl (by simp))
      fun hnone => .unknown ⟨by decide, by simp +decide, fun _ => hnone, by simp +decide⟩
  case prefixSid =>
    rintro rfl
    exact .getD (fun _ => .known rfl (by simp))
      fun hnone => .unknown ⟨by decide, by simp +decide, by simp +decide, fun _ => hnone⟩
  case unknown =>
    refine .ok (.unknown ⟨?_, fun h => absurd h h₁₈, fun h => absurd h h₁₉, fun h => absurd h h₂₀⟩)
    simp only [recognised, List.mem_cons, List.not_mem_nil, or_false, not_or]
    exact ⟨h₁, h₂, h₃, h₄, h₅, h₆, h₇, h₈, h₉, h₁₀, h₁₁, h₁₂, h₁₃, h₁₄, h₁₅, h₁₆, h₁₇⟩

theorem typeCode_of_decodeValue {four : Bool} {a : PathAttribute}
    (h : decodeValue fmt four flags code v = some (.ok a)) : a.typeCode = code :=
  (readFrom_decodeValue fmt four flags code v a h).ofCode

/-- It does not depend on the session whether an attribute is understood. -/
theorem decodeValue_of_foreign (h : Foreign fmt code v) (four : Bool) (flags : UInt8) :
    decodeValue fmt four flags code v = some (.ok (.unknown flags code v)) := by
  have hcode := h.notRecognised
  simp only [recognised, List.mem_cons, List.not_mem_nil, or_false, not_or] at hcode
  obtain ⟨h₁, h₂, h₃, h₄, h₅, h₆, h₇, h₈, h₉, h₁₀, h₁₁, h₁₂, h₁₃, h₁₄, h₁₅, h₁₆, h₁₇⟩ := hcode
  unfold decodeValue
  simp only [h₁, h₂, h₃, h₄, h₅, h₆, h₇, h₈, h₉, h₁₀, h₁₁, h₁₂, h₁₃, h₁₄, h₁₅, h₁₆, h₁₇, if_false]
  split_ifs with htunnel hls hsid
  · rw [h.noTunnel htunnel]
    rfl
  · rw [h.noLinkState hls]
    rfl
  · rw [h.noSid hsid]
    rfl
  · rfl

end ReadFrom

theorem decodeValue_asPath {fmt : FamilyFormats} {four : Bool} {flags code : UInt8} {v : List UInt8}
    {segs : List AsPathSegment} (h : decodeValue fmt four flags code v = some (.ok (asPath segs))) :
    decodeAsSegments four v = some segs := by
  have hcode : typeAsPath = code := typeCode_of_decodeValue h
  rw [← hcode] at h
  have hval : decodeValue fmt four flags typeAsPath v =
      ((decodeAsSegments four v).map asPath).map .ok := rfl
  rw [hval] at h
  simpa using h

theorem decodeValue_as4Path {fmt : FamilyFormats} {four : Bool} {flags code : UInt8} {v : List UInt8}
    {segs : List AsPathSegment} (h : decodeValue fmt four flags code v = some (.ok (as4Path segs))) :
    decodeAsSegments true v = some segs := by
  have hcode : typeAs4Path = code := typeCode_of_decodeValue h
  rw [← hcode] at h
  have hval : decodeValue fmt four flags typeAs4Path v =
      ((decodeAsSegments true v).map as4Path).map .ok := rfl
  rw [hval] at h
  simpa using h

theorem length_le_of_frame {buf v : List UInt8} {flags code : UInt8} {used : ℕ}
    (h : frame buf = some (flags, code, v, used)) : v.length ≤ buf.length := by
  unfold frame at h
  split at h
  · split_ifs at h
    · split at h
      · dsimp only at h
        split_ifs at h
        cases h
        simp only [List.length_take, List.length_cons]
        omega
      · cases h
    · cases h
      simp only [List.length_take, List.length_cons]
      omega
  · cases h

/-- An attribute that is read was framed, and a kept one is what its value decodes to. -/
theorem of_decode {fmt : FamilyFormats} {four : Bool} {buf : List UInt8} {o : AttrOutcome} {used : ℕ}
    (h : decode fmt four buf = some (o, used)) :
    ∃ flags code v, frame buf = some (flags, code, v, used) ∧
      ∀ a, o = .keep a → decodeValue fmt four flags code v = some (.ok a) := by
  unfold decode at h
  obtain ⟨⟨flags, code, v, n⟩, hframe, h⟩ := Option.bind_eq_some_iff.mp h
  obtain ⟨decoded, hval, h⟩ := Option.bind_eq_some_iff.mp h
  cases decoded with
  | error canonical =>
    dsimp only at h
    split_ifs at h
    cases h
    exact ⟨flags, code, v, hframe, by simp⟩
  | ok b =>
    dsimp only at h
    split_ifs at h
    cases h
    refine ⟨flags, code, v, hframe, ?_⟩
    intro a ha
    rw [← AttrOutcome.keep.inj ha]
    exact hval

end PathAttribute

/-- Every attribute of a block stands somewhere in it. -/
theorem of_decodeAttributes {fmt : FamilyFormats} {four : Bool} {buf : List UInt8} {attrs : List PathAttribute}
    (h : decodeAttributes fmt four buf = .ok attrs) {a : PathAttribute} (ha : a ∈ attrs) :
    ∃ k used, PathAttribute.decode fmt four (buf.drop k) = some (.keep a, used) := by
  unfold decodeAttributes at h
  cases hread : readAll (PathAttribute.decode fmt four) buf with
  | none =>
    rw [hread] at h
    cases h
  | some outcomes =>
    rw [hread] at h
    dsimp only at h
    split_ifs at h
    obtain ⟨outcome, hmem, hkeep⟩ := List.mem_filterMap.mp (Except.ok.inj h ▸ ha)
    cases outcome with
    | discard code => cases hkeep
    | keep b =>
      obtain rfl := Option.some.inj hkeep
      exact exists_of_readRecords hread _ hmem

/-- No type occurs twice in a block. -/
theorem nodup_typeCode_of_decodeAttributes {fmt : FamilyFormats} {four : Bool} {buf : List UInt8}
    {attrs : List PathAttribute} (h : decodeAttributes fmt four buf = .ok attrs) :
    (attrs.map PathAttribute.typeCode).Nodup := by
  unfold decodeAttributes at h
  cases hread : readAll (PathAttribute.decode fmt four) buf with
  | none =>
    rw [hread] at h
    cases h
  | some outcomes =>
    rw [hread] at h
    dsimp only at h
    split_ifs at h with hnodup
    rw [← Except.ok.inj h]
    refine List.Nodup.sublist ?_ hnodup
    clear hread hnodup h
    induction outcomes with
    | nil => exact List.Sublist.refl _
    | cons o outcomes ih =>
      cases o with
      | keep a => exact ih.cons_cons _
      | discard code => exact ih.cons _

namespace Message

theorem of_decode_update {fmt : FamilyFormats} {four : Bool} {addPath : AddPath} {buf : List UInt8} {u : Update}
    (h : decode fmt four addPath buf = .ok (update u)) :
    buf.length ≤ maxMessageLen ∧ decodeUpdate fmt four addPath (buf.drop headerLen) = .ok u := by
  unfold decode at h
  by_cases hshort : buf.length < headerLen
  · simp only [if_pos hshort] at h
    cases h
  by_cases hmark : buf.take 16 ≠ marker
  · simp only [if_neg hshort, if_pos hmark] at h
    cases h
  simp only [if_neg hshort, if_neg hmark] at h
  generalize value ((buf.drop 16).take 2) = stated at h
  by_cases hbad : stated ≠ buf.length ∨ stated < headerLen ∨ stated > maxMessageLen
  · rw [if_pos hbad] at h
    cases h
  rw [if_neg hbad] at h
  refine ⟨by omega, ?_⟩
  split at h
  · cases h
  · cases ho : decodeOpen (buf.drop headerLen) <;> rw [ho] at h <;> cases h
  · cases hu : decodeUpdate fmt four addPath (buf.drop headerLen) with
    | error e =>
      rw [hu] at h
      cases h
    | ok u' =>
      rw [hu] at h
      cases h
      rfl
  · cases hn : decodeNotification (buf.drop headerLen) <;> rw [hn] at h <;> cases h
  · split_ifs at h
    all_goals cases h
  · split at h
    all_goals cases h

end Message

/-- A received UPDATE has the attributes of its block, or none. -/
theorem attributes_of_decode {fmt : FamilyFormats} {four : Bool} {addPath : AddPath} {buf : List UInt8} {u : Update}
    (h : Message.decode fmt four addPath buf = .ok (.update u)) :
    buf.length ≤ maxMessageLen ∧ (u.attributes = [] ∨
      decodeAttributes fmt four (attributeOctets (buf.drop headerLen)) = .ok u.attributes) := by
  obtain ⟨hlen, hu⟩ := Message.of_decode_update h
  obtain ⟨-, w, n, -, -, rfl⟩ := decodeUpdate_eq_ok_iff.mp hu
  refine ⟨hlen, ?_⟩
  unfold applyAttributes
  cases hdec : decodeAttributes fmt four (attributeOctets (buf.drop headerLen)) with
  | error e => exact .inl rfl
  | ok attrs =>
    dsimp only
    split_ifs
    · exact .inr rfl
    · exact .inl rfl

/-- The value of every attribute of a received UPDATE is no longer than the message. -/
theorem of_mem_attributes {fmt : FamilyFormats} {four : Bool} {addPath : AddPath} {buf : List UInt8} {u : Update}
    (h : Message.decode fmt four addPath buf = .ok (.update u)) {a : PathAttribute} (ha : a ∈ u.attributes) :
    ∃ flags code v, v.length ≤ maxMessageLen ∧
      PathAttribute.decodeValue fmt four flags code v = some (.ok a) := by
  obtain ⟨hlen, hnil | hdec⟩ := attributes_of_decode h
  · rw [hnil] at ha
    cases ha
  · obtain ⟨k, used, hone⟩ := of_decodeAttributes hdec ha
    obtain ⟨flags, code, v, hframe, hval⟩ := PathAttribute.of_decode hone
    refine ⟨flags, code, v, ?_, hval a rfl⟩
    have hv := PathAttribute.length_le_of_frame hframe
    have hblock : (attributeOctets (buf.drop headerLen)).length ≤ buf.length := by
      simp only [attributeOctets, afterWithdrawn, List.length_take, List.length_drop]
      omega
    rw [List.length_drop] at hv
    omega

theorem nodup_typeCode_of_decode {fmt : FamilyFormats} {four : Bool} {addPath : AddPath} {buf : List UInt8}
    {u : Update} (h : Message.decode fmt four addPath buf = .ok (.update u)) :
    (u.attributes.map PathAttribute.typeCode).Nodup := by
  obtain ⟨-, hnil | hdec⟩ := attributes_of_decode h
  · rw [hnil]
    exact List.nodup_nil
  · exact nodup_typeCode_of_decodeAttributes hdec

end Wren.Bgp
