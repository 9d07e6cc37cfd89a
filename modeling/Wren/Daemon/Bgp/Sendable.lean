import Wren.Bgp.As4Path
import Wren.Bgp.Wire
import Wren.Daemon.Bgp.Import
import Wren.Daemon.Bgp.Session

/-! What a session writes for its routes can be understood by the peer: the paths it starts from were
received, and what it adds to them is well formed. -/

namespace Wren.Daemon.Bgp
open Wren.Core Wren.Bgp

/-! ### Paths that were received -/

/-- The AS path an UPDATE describes, before its AS4_PATH is merged in. -/
def rawAsPath (u : Update) : List AsPathSegment :=
  u.attributes.foldl (fun segs a => match a with | .asPath s => s | _ => segs) []

def as4PathOf (u : Update) : Option (List AsPathSegment) :=
  u.attributes.foldl (fun segs a => match a with | .as4Path s => some s | _ => segs) none

/-- The AS path that is stored for an UPDATE. -/
def storedAsPath (u : Update) : List AsPathSegment :=
  (as4PathOf u).elim (rawAsPath u) (reconstructAsPath (rawAsPath u))

/-- The attributes that are kept although the speaker does not understand them. -/
def passesThrough : PathAttribute → Bool
  | .unknown flags _ _ => flags &&& flagOptional ≠ 0 ∧ flags &&& flagTransitive ≠ 0
  | _ => false

theorem foldl_readAttribute_asPath (l : List PathAttribute) (s : Path × Option (List AsPathSegment)) :
    (l.foldl readAttribute s).1.asPath =
        l.foldl (fun segs a => match a with | .asPath s => s | _ => segs) s.1.asPath ∧
      (l.foldl readAttribute s).2 = l.foldl (fun segs a => match a with | .as4Path s => some s | _ => segs) s.2 ∧
      (l.foldl readAttribute s).1.passThrough = s.1.passThrough ++ l.filter passesThrough := by
  induction l generalizing s with
  | nil => simp
  | cons a l ih =>
    obtain ⟨hpath, hpath4, hpass⟩ := ih (readAttribute s a)
    rw [List.foldl_cons, List.foldl_cons, List.foldl_cons, hpath, hpath4, hpass]
    cases a with
    | unknown flags code v =>
      by_cases hkept : flags &&& flagOptional ≠ 0 ∧ flags &&& flagTransitive ≠ 0
      · simp [readAttribute, passesThrough, hkept]
      · simp only [readAttribute, if_neg hkept]
        rw [List.filter_cons_of_neg (by simpa [passesThrough] using hkept)]
        exact ⟨trivial, trivial, rfl⟩
    | _ => exact ⟨rfl, rfl, rfl⟩

@[simp] theorem buildPath_asPath (u : Update) (nextHop : IpAddr) (iface : Option String) (facts : PeerFacts) :
    (buildPath u nextHop iface facts).asPath = storedAsPath u := by
  obtain ⟨hpath, hpath4, -⟩ := foldl_readAttribute_asPath u.attributes _
  unfold buildPath storedAsPath as4PathOf rawAsPath
  dsimp only
  rw [hpath, hpath4]

@[simp] theorem buildPath_passThrough (u : Update) (nextHop : IpAddr) (iface : Option String) (facts : PeerFacts) :
    (buildPath u nextHop iface facts).passThrough = u.attributes.filter passesThrough := by
  obtain ⟨-, -, hpass⟩ := foldl_readAttribute_asPath u.attributes _
  unfold buildPath
  dsimp only
  rw [hpass, List.nil_append]

/-- A path that can be passed on, whatever session it came over. -/
structure Sound (fmt : FamilyFormats) (p : Path) : Prop where
  noZero : ∀ s ∈ p.asPath, 0 ∉ s.asns
  notUnderstood : ∀ a ∈ p.passThrough, ∃ flags code v, a = .unknown flags code v ∧ flags &&& flagOptional ≠ 0 ∧
    flags &&& flagTransitive ≠ 0 ∧ PathAttribute.Foreign fmt code v
  codes : (p.passThrough.map PathAttribute.typeCode).Nodup

theorem asPath_mem_of_rawAsPath (u : Update) : rawAsPath u = [] ∨ .asPath (rawAsPath u) ∈ u.attributes := by
  unfold rawAsPath
  induction u.attributes using List.reverseRecOn with
  | nil => exact .inl rfl
  | append_singleton l a ih =>
    rw [List.foldl_concat, List.mem_append]
    cases a with
    | asPath segs => exact .inr (.inr (List.mem_singleton_self _))
    | _ => exact ih.imp_right .inl

theorem rawAsPath_of_mem {u : Update} (hcodes : (u.attributes.map PathAttribute.typeCode).Nodup)
    {segs : List AsPathSegment} (h : .asPath segs ∈ u.attributes) : rawAsPath u = segs := by
  unfold rawAsPath
  generalize u.attributes = attrs at h hcodes ⊢
  induction attrs using List.reverseRecOn with
  | nil => cases h
  | append_singleton l a ih =>
    rw [List.map_append, List.map_singleton, List.nodup_append] at hcodes
    rw [List.foldl_concat]
    rcases List.mem_append.mp h with hl | ha
    · have hne : a.typeCode ≠ PathAttribute.typeAsPath := by
        intro heq
        exact hcodes.2.2 _ (List.mem_map_of_mem hl) _ (List.mem_singleton_self _) heq.symm
      cases a with
      | asPath segs' => exact absurd rfl hne
      | _ => exact ih hl hcodes.1
    · rw [← List.mem_singleton.mp ha]

theorem as4Path_mem_of_as4PathOf {u : Update} {segs : List AsPathSegment} (h : as4PathOf u = some segs) :
    .as4Path segs ∈ u.attributes := by
  unfold as4PathOf at h
  generalize u.attributes = attrs at h ⊢
  induction attrs using List.reverseRecOn with
  | nil => cases h
  | append_singleton l a ih =>
    rw [List.foldl_concat] at h
    rw [List.mem_append]
    cases a with
    | as4Path segs' =>
      obtain rfl := Option.some.inj h
      exact .inr (List.mem_singleton_self _)
    | _ => exact .inl (ih h)

section Received
variable {fmt : FamilyFormats} {four : Bool} {addPath : AddPath} {buf : List UInt8} {u : Update}

theorem noZero_storedAsPath (h : Message.decode fmt four addPath buf = .ok (.update u)) :
    ∀ s ∈ storedAsPath u, 0 ∉ s.asns := by
  have hraw : ∀ s ∈ rawAsPath u, 0 ∉ s.asns := by
    rcases asPath_mem_of_rawAsPath u with hnil | hmem
    · simp [hnil]
    · obtain ⟨flags, code, v, -, hval⟩ := of_mem_attributes h hmem
      exact fun s hs => ((of_decodeAsSegments (PathAttribute.decodeValue_asPath hval)).1 s hs).2
  unfold storedAsPath
  cases hpath4 : as4PathOf u with
  | none => exact hraw
  | some segs =>
    obtain ⟨flags, code, v, -, hval⟩ := of_mem_attributes h (as4Path_mem_of_as4PathOf hpath4)
    exact zero_notMem_reconstructAsPath hraw
      fun s hs => ((of_decodeAsSegments (PathAttribute.decodeValue_as4Path hval)).1 s hs).2

/-- A received UPDATE gives paths that can be passed on. -/
theorem sound_buildPath (h : Message.decode fmt four addPath buf = .ok (.update u)) (nextHop : IpAddr)
    (iface : Option String) (facts : PeerFacts) : Sound fmt (buildPath u nextHop iface facts) where
  noZero := by
    rw [buildPath_asPath]
    exact noZero_storedAsPath h
  notUnderstood := by
    intro a ha
    rw [buildPath_passThrough] at ha
    obtain ⟨hmem, hpass⟩ := List.mem_filter.mp ha
    obtain ⟨flags, code, v, -, hval⟩ := of_mem_attributes h hmem
    cases a with
    | unknown f c w =>
      obtain ⟨-, rfl, hforeign⟩ := (PathAttribute.readFrom_decodeValue fmt four flags code v _ hval).asItCame f c w rfl
      have hcode : c = code := PathAttribute.typeCode_of_decodeValue hval
      have hkept : f &&& flagOptional ≠ 0 ∧ f &&& flagTransitive ≠ 0 := by simpa [passesThrough] using hpass
      exact ⟨f, c, w, rfl, hkept.1, hkept.2, hcode ▸ hforeign⟩
    | _ => cases hpass
  codes := by
    rw [buildPath_passThrough]
    exact (nodup_typeCode_of_decode h).sublist (List.filter_sublist.map _)

end Received

theorem Sound.stampedPath {fmt : FamilyFormats} {pol : ImportPolicy} {m : UpdateMsg} {nextHop : IpAddr}
    {iface : Option String} (h : Sound fmt (buildPath m.update nextHop iface m.facts)) :
    Sound fmt (pol.stampedPath m nextHop iface) :=
  ⟨h.noZero, h.notUnderstood, h.codes⟩

theorem Sound.filterPath {fmt : FamilyFormats} {filter : Option Filter} {p : Prefix} {path q : Path}
    (h : Sound fmt path) (hq : filterPath filter p path = some q) : Sound fmt q := by
  cases filter with
  | none =>
    cases hq
    exact h
  | some f =>
    obtain ⟨modified, -, rfl⟩ := Option.map_eq_some_iff.mp hq
    exact ⟨h.noZero, h.notUnderstood, h.codes⟩

/-- The paths that are stored for a received UPDATE can be passed on. -/
theorem sound_of_accepted {fmt : FamilyFormats} {four : Bool} {addPath : AddPath} {buf : List UInt8}
    {pol : ImportPolicy} {m : UpdateMsg} {k : NlriKey} {raw path : Path}
    (h : Message.decode fmt four addPath buf = .ok (.update m.update)) (hraw : (k, raw) ∈ pol.reachability m)
    (hacc : pol.accepted k.1 raw = some path) : Sound fmt path ∧ path.asPath = storedAsPath m.update := by
  obtain ⟨nextHop, iface, rfl⟩ := ImportPolicy.stampedPath_of_mem_reachability hraw
  have hfilter := pol.filter_of_accepted hacc
  refine ⟨((sound_buildPath h nextHop iface m.facts).stampedPath).filterPath hfilter, ?_⟩
  rw [(filterPath_frame hfilter).2.1]
  exact buildPath_asPath _ _ _ _

/-! ### What a session adds -/

namespace Session
variable (s : Session)

/-- The AS path that goes out for a stored one. -/
def sentAsPath (segs : List AsPathSegment) : List AsPathSegment :=
  match s.peerType with
  | .ebgp => prependAs s.effExternalAs (stripConfedSegments segs)
  | .confed => prependConfed s.loc.localAs segs
  | .ibgp => segs

/-- What only an interior peer is told. -/
def interiorAttrs (path : Path) : List PathAttribute :=
  let med : List PathAttribute := if path.med ≠ 0 then [.multiExitDisc path.med] else []
  let reflection : List PathAttribute :=
    if !path.fromEbgp && !path.fromConfed then
      [.originatorId (path.originatorId.getD path.peerId), .clusterList (s.loc.clusterId :: path.clusterList)]
    else []
  match s.peerType with
  | .ebgp => []
  | .confed => .localPref path.localPref :: med
  | .ibgp => .localPref path.localPref :: (med ++ reflection)

theorem propagatedBaseAttrs_eq (path : Path) :
    s.propagatedBaseAttrs path = .origin path.origin :: .asPath (s.sentAsPath path.asPath) ::
      (s.interiorAttrs path ++ communityAttrs path.communities path.largeCommunities path.extCommunities ++
        reflagPassThrough path.passThrough) := by
  unfold propagatedBaseAttrs sentAsPath interiorAttrs
  cases s.peerType <;> simp

/-- The session has ASes of its own to put into a path. -/
structure Numbered (s : Session) : Prop where
  external : s.effExternalAs ≠ 0
  member : s.loc.localAs ≠ 0

variable {s}

/-- The AS joins the first segment or stands in one of its own. -/
theorem noZero_cons {asn : UInt32} (hasn : asn ≠ 0) {new : AsPathSegment} {asns : List UInt32} (hnew : new.asns = asn :: asns)
    (hasns : 0 ∉ asns) {rest : List AsPathSegment} (h : ∀ seg ∈ rest, 0 ∉ seg.asns) : ∀ seg ∈ new :: rest, 0 ∉ seg.asns := by
  intro seg hseg
  rcases List.mem_cons.mp hseg with rfl | hseg
  · rw [hnew, List.mem_cons, not_or]
    exact ⟨hasn.symm, hasns⟩
  · exact h seg hseg

theorem noZero_prependAs {asn : UInt32} (hasn : asn ≠ 0) {segs : List AsPathSegment} (h : ∀ seg ∈ segs, 0 ∉ seg.asns) :
    ∀ seg ∈ prependAs asn segs, 0 ∉ seg.asns := by
  unfold prependAs
  split
  · exact noZero_cons hasn rfl (h _ List.mem_cons_self) fun seg hseg => h seg (List.mem_cons_of_mem _ hseg)
  · exact noZero_cons hasn rfl List.not_mem_nil h

theorem noZero_prependConfed {asn : UInt32} (hasn : asn ≠ 0) {segs : List AsPathSegment}
    (h : ∀ seg ∈ segs, 0 ∉ seg.asns) : ∀ seg ∈ prependConfed asn segs, 0 ∉ seg.asns := by
  unfold prependConfed
  split
  · exact noZero_cons hasn rfl (h _ List.mem_cons_self) fun seg hseg => h seg (List.mem_cons_of_mem _ hseg)
  · exact noZero_cons hasn rfl List.not_mem_nil h

theorem noZero_sentAsPath (hs : s.Numbered) {segs : List AsPathSegment} (h : ∀ seg ∈ segs, 0 ∉ seg.asns) :
    ∀ seg ∈ s.sentAsPath segs, 0 ∉ seg.asns := by
  unfold sentAsPath
  cases s.peerType with
  | ebgp => exact noZero_prependAs hs.external fun seg hseg => h seg (List.mem_filter.mp hseg).1
  | confed => exact noZero_prependConfed hs.member h
  | ibgp => exact h

end Session

/-- Attributes that describe routes, without the one that says where these are reached. -/
structure Describes (fmt : FamilyFormats) (attrs : List PathAttribute) : Prop where
  sendable : ∀ a ∈ attrs, a.Sendable fmt
  codes : (attrs.map PathAttribute.typeCode).Nodup
  noNextHop : PathAttribute.typeNextHop ∉ attrs.map PathAttribute.typeCode
  noReach : PathAttribute.typeMpReachNlri ∉ attrs.map PathAttribute.typeCode
  origin : ∃ o, .origin o ∈ attrs
  asPath : ∃ segs, .asPath segs ∈ attrs

section Describes
variable {fmt : FamilyFormats} {attrs pass rest : List PathAttribute}

/-- With the next hop and the routes the UPDATE is complete. -/
theorem Describes.sendable_update (h : Describes fmt attrs) {last : PathAttribute} (hlast : last.Sendable fmt)
    (hcode : last.typeCode = PathAttribute.typeNextHop ∨ last.typeCode = PathAttribute.typeMpReachNlri)
    {nlri : List Prefix} (hnlri : ∀ p ∈ nlri, p.isIpv4 = true) (hnext : nlri ≠ [] → ∃ nh, last = .nextHop nh)
    (ids : List UInt32) : ({ attributes := attrs ++ [last], nlri, nlriPathIds := ids } : Update).Sendable fmt where
  attributes := by
    intro a ha
    rcases List.mem_append.mp ha with ha | ha
    · exact h.sendable a ha
    · rw [List.mem_singleton.mp ha]
      exact hlast
  codes := by
    rw [List.map_append, List.map_singleton, List.nodup_append]
    refine ⟨h.codes, List.nodup_singleton _, ?_⟩
    rintro code hmem _ hsame rfl
    rw [List.mem_singleton] at hsame
    subst hsame
    rcases hcode with hcode | hcode
    · exact h.noNextHop (hcode ▸ hmem)
    · exact h.noReach (hcode ▸ hmem)
  withdrawnIpv4 := by simp
  nlriIpv4 := hnlri
  mandatory := by
    obtain ⟨o, ho⟩ := h.origin
    obtain ⟨segs, hsegs⟩ := h.asPath
    unfold mandatoryAttributesPresent
    split_ifs
    · rfl
    · rw [Bool.and_eq_true, Bool.and_eq_true]
      refine ⟨⟨?_, ?_⟩, ?_⟩
      · exact List.any_eq_true.mpr ⟨_, List.mem_append_left _ ho, rfl⟩
      · exact List.any_eq_true.mpr ⟨_, List.mem_append_left _ hsegs, rfl⟩
      · by_cases hnil : nlri = []
        · simp [hnil]
        · obtain ⟨nh, rfl⟩ := hnext hnil
          rw [Bool.or_eq_true]
          exact .inr (List.any_eq_true.mpr ⟨_, List.mem_append_right _ (List.mem_singleton_self _), rfl⟩)

/-- The speaker writes its own attributes in a fixed order, and those it does not understand are of other
types. -/
theorem nodup_typeCode_append (order : List UInt8) (horder : order.Nodup) (hknown : order ⊆ PathAttribute.recognised)
    (hown : ((attrs ++ rest).map PathAttribute.typeCode).Sublist order)
    (hpass : ∀ a ∈ pass, a.typeCode ∉ PathAttribute.recognised) (hcodes : (pass.map PathAttribute.typeCode).Nodup) :
    ((attrs ++ pass ++ rest).map PathAttribute.typeCode).Nodup := by
  have hperm : (attrs ++ pass ++ rest).Perm ((attrs ++ rest) ++ pass) := by
    rw [List.append_assoc, List.append_assoc]
    exact List.perm_append_comm.append_left attrs
  rw [(hperm.map PathAttribute.typeCode).nodup_iff, List.map_append, List.nodup_append]
  refine ⟨horder.sublist hown, hcodes, ?_⟩
  rintro code hcode _ hmem rfl
  obtain ⟨a, ha, rfl⟩ := List.mem_map.mp hmem
  exact hpass a ha (hknown (hown.subset hcode))

theorem codes_communityAttrs (c : List UInt32) (large : List (UInt32 × UInt32 × UInt32)) (ext : List (Vector UInt8 8)) :
    ((communityAttrs c large ext).map PathAttribute.typeCode).Sublist
      [PathAttribute.typeCommunities, PathAttribute.typeLargeCommunities, PathAttribute.typeExtendedCommunities] := by
  simp only [communityAttrs, List.map_append, apply_ite (List.map PathAttribute.typeCode), List.map_nil,
    List.map_singleton, PathAttribute.typeCode]
  split_ifs <;> decide

theorem sendable_communityAttrs (c : List UInt32) (large : List (UInt32 × UInt32 × UInt32))
    (ext : List (Vector UInt8 8)) : ∀ a ∈ communityAttrs c large ext, a.Sendable fmt := by
  intro a ha
  simp only [communityAttrs, List.mem_append] at ha
  rcases ha with (ha | ha) | ha
  all_goals
    split_ifs at ha
    · cases ha
    · rw [List.mem_singleton.mp ha]
      trivial

theorem flags_reflag (flags : UInt8) (hopt : flags &&& flagOptional ≠ 0) (htrans : flags &&& flagTransitive ≠ 0) :
    (flags ||| flagPartial) &&& (flagOptional ||| flagTransitive) = flagOptional ||| flagTransitive := by
  revert flags
  decide +kernel

theorem mem_reflagPassThrough {pass : List PathAttribute} {a : PathAttribute} (h : a ∈ reflagPassThrough pass) :
    ∃ flags code v, .unknown flags code v ∈ pass ∧ a = .unknown (flags ||| flagPartial) code v := by
  obtain ⟨b, hb, heq⟩ := List.mem_filterMap.mp h
  cases b with
  | unknown flags code v => exact ⟨flags, code, v, hb, (Option.some.inj heq).symm⟩
  | _ => cases heq

theorem codes_reflagPassThrough (pass : List PathAttribute) :
    ((reflagPassThrough pass).map PathAttribute.typeCode).Sublist (pass.map PathAttribute.typeCode) := by
  unfold reflagPassThrough
  induction pass with
  | nil => exact List.Sublist.refl _
  | cons a pass ih =>
    cases a with
    | unknown flags code v => exact ih.cons_cons _
    | _ => exact ih.cons _

end Describes

section Sound
variable {fmt : FamilyFormats} {path : Path} (h : Sound fmt path)
include h

theorem Sound.sendable_reflag : ∀ a ∈ reflagPassThrough path.passThrough, a.Sendable fmt := by
  intro a ha
  obtain ⟨flags, code, v, hmem, rfl⟩ := mem_reflagPassThrough ha
  obtain ⟨f, c, w, heq, hopt, htrans, hforeign⟩ := h.notUnderstood _ hmem
  cases heq
  exact ⟨flags_reflag flags hopt htrans, hforeign⟩

theorem Sound.codes_reflag : ((reflagPassThrough path.passThrough).map PathAttribute.typeCode).Nodup :=
  h.codes.sublist (codes_reflagPassThrough _)

theorem Sound.notRecognised_reflag : ∀ a ∈ reflagPassThrough path.passThrough, a.typeCode ∉ PathAttribute.recognised := by
  intro a ha
  obtain ⟨flags, code, v, hmem, rfl⟩ := mem_reflagPassThrough ha
  obtain ⟨f, c, w, heq, -, -, hforeign⟩ := h.notUnderstood _ hmem
  cases heq
  exact hforeign.notRecognised

end Sound

namespace Session
variable {s : Session} {fmt : FamilyFormats} {path : Path}

theorem codes_interiorAttrs (s : Session) (path : Path) : ((s.interiorAttrs path).map PathAttribute.typeCode).Sublist
    [PathAttribute.typeLocalPref, PathAttribute.typeMed, PathAttribute.typeOriginatorId, PathAttribute.typeClusterList] := by
  simp only [interiorAttrs]
  cases s.peerType with
  | ebgp => exact List.nil_sublist _
  | confed =>
    simp only [List.map_cons, apply_ite (List.map PathAttribute.typeCode), List.map_nil, PathAttribute.typeCode]
    split_ifs <;> decide
  | ibgp =>
    simp only [List.map_cons, List.map_append, apply_ite (List.map PathAttribute.typeCode), List.map_nil,
      PathAttribute.typeCode]
    split_ifs <;> decide

theorem sendable_interiorAttrs (s : Session) (path : Path) : ∀ a ∈ s.interiorAttrs path, a.Sendable fmt := by
  intro a ha
  simp only [interiorAttrs] at ha
  cases htype : s.peerType <;> rw [htype] at ha
  · simp only [List.mem_cons, List.mem_append] at ha
    rcases ha with rfl | ha | ha
    · trivial
    all_goals
      split_ifs at ha
      all_goals
        simp at ha
    · rw [ha]
      trivial
    · rcases ha with rfl | rfl <;> trivial
  · simp only [List.mem_cons] at ha
    rcases ha with rfl | ha
    · trivial
    · split_ifs at ha
      all_goals simp at ha
      rw [ha]
      trivial
  · cases ha

/-- The OTC attribute of a route, if it has one. -/
def otcAttrs (otc : Option UInt32) : List PathAttribute := otc.elim [] fun v => [.onlyToCustomer v]

/-- The types of the attributes of a learned route, in the order in which they are written. -/
def propagatedTypes : List UInt8 :=
  [PathAttribute.typeOrigin, PathAttribute.typeAsPath] ++ [PathAttribute.typeLocalPref, PathAttribute.typeMed,
      PathAttribute.typeOriginatorId, PathAttribute.typeClusterList] ++
    [PathAttribute.typeCommunities, PathAttribute.typeLargeCommunities, PathAttribute.typeExtendedCommunities] ++
    [PathAttribute.typeOnlyToCustomer]

/-- What the speaker itself says of a learned route, without its OTC. -/
def ownAttrs (s : Session) (path : Path) : List PathAttribute :=
  [.origin path.origin, .asPath (s.sentAsPath path.asPath)] ++ s.interiorAttrs path ++
    communityAttrs path.communities path.largeCommunities path.extCommunities

theorem propagated_eq (s : Session) (path : Path) (otc : Option UInt32) :
    s.propagatedBaseAttrs path ++ otcAttrs otc =
      s.ownAttrs path ++ reflagPassThrough path.passThrough ++ otcAttrs otc := by
  rw [propagatedBaseAttrs_eq]
  simp [ownAttrs]

theorem codes_ownAttrs (s : Session) (path : Path) (otc : Option UInt32) :
    ((s.ownAttrs path ++ otcAttrs otc).map PathAttribute.typeCode).Sublist propagatedTypes := by
  have hotc : ((otcAttrs otc).map PathAttribute.typeCode).Sublist [PathAttribute.typeOnlyToCustomer] := by
    cases otc with
    | none => exact List.nil_sublist _
    | some v => exact List.Sublist.refl _
  simp only [ownAttrs, List.map_append]
  exact (((List.Sublist.refl _).append (s.codes_interiorAttrs path)).append (codes_communityAttrs _ _ _)).append hotc

/-- A recognised type that the speaker does not write is not among those of a learned route. -/
theorem notMem_propagated (h : Sound fmt path) (otc : Option UInt32) {code : UInt8}
    (hknown : code ∈ PathAttribute.recognised) (hother : code ∉ propagatedTypes) :
    code ∉ (s.propagatedBaseAttrs path ++ otcAttrs otc).map PathAttribute.typeCode := by
  rw [propagated_eq]
  intro hmem
  obtain ⟨a, ha, rfl⟩ := List.mem_map.mp hmem
  have hcases : a ∈ reflagPassThrough path.passThrough ∨ a ∈ s.ownAttrs path ++ otcAttrs otc := by
    simp only [List.mem_append] at ha ⊢
    tauto
  rcases hcases with hpass | hmine
  · exact h.notRecognised_reflag a hpass hknown
  · exact hother ((s.codes_ownAttrs path otc).subset (List.mem_map_of_mem hmine))

/-- What describes a learned route to the peer. -/
theorem describes_propagated (h : Sound fmt path) (hpath : ∀ seg ∈ s.sentAsPath path.asPath, seg.Countable)
    (otc : Option UInt32) : Describes fmt (s.propagatedBaseAttrs path ++ otcAttrs otc) := by
  have hnot : ∀ code, code ∈ PathAttribute.recognised → code ∉ propagatedTypes →
      code ∉ (s.propagatedBaseAttrs path ++ otcAttrs otc).map PathAttribute.typeCode :=
    fun code => notMem_propagated h otc
  refine ⟨?_, ?_, hnot _ (by decide) (by decide), hnot _ (by decide) (by decide),
    ⟨path.origin, by simp [propagatedBaseAttrs]⟩, ⟨s.sentAsPath path.asPath, by simp [propagatedBaseAttrs_eq]⟩⟩
  · intro a ha
    rw [propagated_eq] at ha
    simp only [ownAttrs, List.mem_append, List.mem_cons, List.not_mem_nil, or_false] at ha
    rcases ha with ((((rfl | rfl) | hint) | hcomm) | hpass) | hotc
    · trivial
    · exact hpath
    · exact s.sendable_interiorAttrs path a hint
    · exact sendable_communityAttrs _ _ _ a hcomm
    · exact h.sendable_reflag a hpass
    · cases otc with
      | none => cases hotc
      | some v =>
        rw [List.mem_singleton.mp hotc]
        trivial
  · rw [propagated_eq]
    exact nodup_typeCode_append propagatedTypes (by decide) (by decide) (s.codes_ownAttrs path otc)
      h.notRecognised_reflag h.codes_reflag

/-- The next hop of routes and where they stand: in the base fields, or in an attribute of their own. -/
inductive Reaches (ps : List Prefix) : PathAttribute → List Prefix → Prop
  | base (nh : Ipv4Addr) (hps : ∀ p ∈ ps, p.isIpv4 = true) : Reaches ps (.nextHop nh) ps
  | multiprotocol (afi : UInt16) (field : List UInt8) (hafi : knownFamily afi safiUnicast = true)
    (hfield : unicastNextHopLen afi field.length = true) (hps : ∀ p ∈ ps, p.isIpv4 = !(afi = afiIpv6)) :
    Reaches ps (.mpReachNlri afi safiUnicast field ps) []

theorem Reaches.sendable_update {attrs : List PathAttribute} (h : Describes fmt attrs) {ps nlri : List Prefix}
    {last : PathAttribute} (hlast : Reaches ps last nlri) (ids : List UInt32) :
    ({ attributes := attrs ++ [last], nlri, nlriPathIds := ids } : Update).Sendable fmt := by
  cases hlast with
  | base nh hps =>
    have hnext : (PathAttribute.nextHop nh).Sendable fmt := trivial
    exact h.sendable_update hnext (.inl rfl) hps (fun _ => ⟨nh, rfl⟩) ids
  | multiprotocol afi field hafi hfield hps =>
    have hreach : (PathAttribute.mpReachNlri afi safiUnicast field ps).Sendable fmt := ⟨hafi, hfield, hps⟩
    exact h.sendable_update hreach (.inr rfl) (by simp) (fun hne => absurd rfl hne) ids

theorem unicastNextHopLen_v6NextHopField (s : Session) (glob : Ipv6Addr) (nextHopSelf : Bool) {afi : UInt16}
    (hafi : knownFamily afi safiUnicast = true) :
    unicastNextHopLen afi (s.v6NextHopField glob nextHopSelf).length = true := by
  have hlen : (s.v6NextHopField glob nextHopSelf).length = 16 ∨ (s.v6NextHopField glob nextHopSelf).length = 32 := by
    unfold v6NextHopField encodeV6NextHop
    cases (if nextHopSelf then s.link.map Prod.snd else none) <;> simp
  obtain ⟨h | h, -⟩ : (afi = afiIpv4 ∨ afi = afiIpv6) ∧ safiUnicast = safiUnicast := by
    simpa [knownFamily] using hafi
  · rcases hlen with hl | hl <;> rw [h, hl] <;> decide
  · rcases hlen with hl | hl <;> rw [h, hl] <;> decide

theorem sendPropagated_cases {attrs : List PathAttribute} {p : Prefix} {nextHop : IpAddr} {u : Update}
    (h : s.sendPropagated attrs p nextHop = some u) :
    ∃ last nlri, Reaches [p] last nlri ∧ u = { attributes := attrs ++ [last], nlri } := by
  unfold sendPropagated at h
  split_ifs at h with hv4 hebgp hmp
  · cases h
    exact ⟨_, _, .base _ (by simpa using hv4), rfl⟩
  · split at h
    · cases h
      exact ⟨_, _, .base _ (by simpa using hv4), rfl⟩
    · cases h
  all_goals
    obtain ⟨nh, -, rfl⟩ := Option.map_eq_some_iff.mp h
    refine ⟨_, _, .multiprotocol _ _ rfl (s.unicastNextHopLen_v6NextHopField _ _ rfl) ?_, rfl⟩
    intro q hq
    rw [List.mem_singleton.mp hq]
    simpa using hv4

/-- What a session writes for a learned route. -/
theorem propagateOne_cases {p : Prefix} {u : Update} (h : s.propagateOne p path = some u) :
    ∃ q otc last nlri, filterPath s.exportFilter p path = some q ∧ Reaches [p] last nlri ∧
      u = { attributes := s.propagatedBaseAttrs q ++ otcAttrs otc ++ [last], nlri } := by
  unfold propagateOne at h
  rw [ite_eq_iff] at h
  obtain ⟨-, h⟩ | ⟨-, h⟩ := h
  · cases h
  rw [ite_eq_iff] at h
  obtain ⟨-, h⟩ | ⟨-, h⟩ := h
  · cases h
  obtain ⟨q, hq, h⟩ := Option.bind_eq_some_iff.mp h
  obtain ⟨last, nlri, hlast, rfl⟩ := sendPropagated_cases h
  exact ⟨q, _, last, nlri, hq, hlast, rfl⟩

theorem advertiseAddPathOne_cases {r : AddPathRoute} {u : Update} (h : s.advertiseAddPathOne r = some u) :
    ∃ nh, Reaches [r.pfx] (.nextHop nh) [r.pfx] ∧
      u =
        { attributes := s.propagatedBaseAttrs r.path ++ otcAttrs none ++ [.nextHop nh], nlri := [r.pfx]
          nlriPathIds := [r.pathId] } := by
  unfold advertiseAddPathOne at h
  rw [ite_eq_iff] at h
  obtain ⟨-, h⟩ | ⟨hv4, h⟩ := h
  · cases h
  obtain ⟨nh, -, rfl⟩ := Option.map_eq_some_iff.mp h
  exact ⟨nh, .base nh (by simpa using hv4), by simp [otcAttrs]⟩

/-- The types of the attributes of an originated route, in the order in which they are written. -/
def originatedTypes : List UInt8 :=
  [PathAttribute.typeOrigin, PathAttribute.typeAsPath, PathAttribute.typeAs4Path, PathAttribute.typeLocalPref,
      PathAttribute.typeOnlyToCustomer] ++
    [PathAttribute.typeAtomicAggregate, PathAttribute.typeAggregator, PathAttribute.typeAs4Aggregator] ++
    [PathAttribute.typeCommunities, PathAttribute.typeLargeCommunities, PathAttribute.typeExtendedCommunities]

theorem codes_basePathAttrs (s : Session) : (s.basePathAttrs.map PathAttribute.typeCode).Sublist
    [PathAttribute.typeOrigin, PathAttribute.typeAsPath, PathAttribute.typeAs4Path, PathAttribute.typeLocalPref,
      PathAttribute.typeOnlyToCustomer] := by
  simp only [basePathAttrs]
  cases s.peerType
  all_goals
    simp only [List.map_cons, List.map_append, apply_ite (List.map PathAttribute.typeCode), List.map_nil,
      PathAttribute.typeCode]
    split_ifs <;> decide

theorem codes_aggregateAttrs (s : Session) (aggregate : Bool) :
    ((if aggregate then s.aggregateAttrs else []).map PathAttribute.typeCode).Sublist
      [PathAttribute.typeAtomicAggregate, PathAttribute.typeAggregator, PathAttribute.typeAs4Aggregator] := by
  simp only [aggregateAttrs, apply_ite (List.map PathAttribute.typeCode), List.map_cons, List.map_nil,
    PathAttribute.typeCode]
  split_ifs <;> decide

theorem sendable_basePathAttrs (hs : s.Numbered) : ∀ a ∈ s.basePathAttrs, a.Sendable fmt := by
  have hext : AsPathSegment.Countable (.sequence [s.effExternalAs]) :=
    ⟨Nat.le_of_ble_eq_true rfl, by simpa [AsPathSegment.asns] using hs.external.symm⟩
  have hmember : AsPathSegment.Countable (.confedSequence [s.loc.localAs]) :=
    ⟨Nat.le_of_ble_eq_true rfl, by simpa [AsPathSegment.asns] using hs.member.symm⟩
  unfold basePathAttrs
  cases s.peerType
  all_goals
    dsimp only
    split_ifs
    all_goals simp [PathAttribute.Sendable, hext, hmember]

theorem sendable_aggregateAttrs (s : Session) (aggregate : Bool) :
    ∀ a ∈ (if aggregate then s.aggregateAttrs else []), a.Sendable fmt := by
  unfold aggregateAttrs
  dsimp only
  split_ifs
  all_goals simp [PathAttribute.Sendable]

theorem codes_originated (s : Session) (aggregate : Bool) (c : List UInt32) (large : List (UInt32 × UInt32 × UInt32))
    (ext : List (Vector UInt8 8)) : ((s.basePathAttrs ++ (if aggregate then s.aggregateAttrs else []) ++
      communityAttrs c large ext).map PathAttribute.typeCode).Sublist originatedTypes := by
  simp only [List.map_append]
  exact (s.codes_basePathAttrs.append (s.codes_aggregateAttrs aggregate)).append (codes_communityAttrs _ _ _)

theorem describes_originated (hs : s.Numbered) (aggregate : Bool) (c : List UInt32)
    (large : List (UInt32 × UInt32 × UInt32)) (ext : List (Vector UInt8 8)) :
    Describes fmt (s.basePathAttrs ++ (if aggregate then s.aggregateAttrs else []) ++ communityAttrs c large ext) := by
  have hcodes := s.codes_originated aggregate c large ext
  refine ⟨?_, List.Nodup.sublist hcodes (by decide), fun h => ?_, fun h => ?_, ⟨.igp, ?_⟩, ?_⟩
  · intro a ha
    rcases List.mem_append.mp ha with ha | ha
    · rcases List.mem_append.mp ha with ha | ha
      · exact sendable_basePathAttrs hs a ha
      · exact s.sendable_aggregateAttrs aggregate a ha
    · exact sendable_communityAttrs _ _ _ a ha
  · exact absurd (hcodes.subset h) (by decide)
  · exact absurd (hcodes.subset h) (by decide)
  · simp [basePathAttrs]
  · unfold basePathAttrs
    cases s.peerType <;> simp

theorem sendOriginatedUpdate_cases {attrs : List PathAttribute} {p : Prefix} {u : Update}
    (h : s.sendOriginatedUpdate attrs p = some u) :
    ∃ last nlri, Reaches [p] last nlri ∧ u = { attributes := attrs ++ [last], nlri } := by
  have hone : ∀ {P : Prefix → Prop}, P p → ∀ q ∈ [p], P q := by
    intro P hp q hq
    rwa [List.mem_singleton.mp hq]
  unfold sendOriginatedUpdate at h
  split_ifs at h with hv4
  · split at h <;> cases h
    · exact ⟨_, _, .multiprotocol _ _ rfl (s.unicastNextHopLen_v6NextHopField _ _ rfl)
        (hone (P := fun q => q.isIpv4 = !(afiIpv4 = afiIpv6)) hv4), rfl⟩
    · exact ⟨_, _, .base _ (hone hv4), rfl⟩
  · split at h <;> cases h
    exact ⟨_, _, .multiprotocol _ _ rfl (s.unicastNextHopLen_v6NextHopField _ _ rfl)
      (hone (P := fun q => q.isIpv4 = !(afiIpv6 = afiIpv6)) (by simpa using hv4)), rfl⟩

/-- What a session writes for an originated route. -/
theorem advertiseOne_cases {r : OriginRoute} {u : Update} (h : s.advertiseOne r = some u) :
    ∃ r' last nlri, filterOrigin s.exportFilter r = some r' ∧ Reaches [r.pfx] last nlri ∧
      u = { attributes := s.basePathAttrs ++ (if r'.atomicAggregate then s.aggregateAttrs else []) ++
              communityAttrs r'.communities r'.largeCommunities r'.extCommunities ++ [last]
            nlri } := by
  unfold advertiseOne at h
  obtain ⟨r', hr', h⟩ := Option.bind_eq_some_iff.mp h
  rw [← pfx_of_filterOrigin hr']
  split at h
  · obtain ⟨last, nlri, hlast, rfl⟩ := sendOriginatedUpdate_cases h
    exact ⟨r', last, nlri, hr', hlast, rfl⟩
  · cases h

end Session
end Wren.Daemon.Bgp
