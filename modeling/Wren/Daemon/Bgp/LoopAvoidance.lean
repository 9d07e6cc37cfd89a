import Wren.Daemon.Bgp.Effects
import Wren.Daemon.Bgp.Sendable

/-! Whether a route is kept out of the ASes it has been through: how an UPDATE that names the speaker is
received, and how far a route comes that is passed on from speaker to speaker. -/

namespace Wren.Daemon.Bgp
open Wren.Core Wren.Bgp OrdMap

/-- The AS stands in the path outside the confederation segments. -/
def Outside (asn : UInt32) (segs : List AsPathSegment) : Prop :=
  ∃ seg ∈ segs, seg.isConfederation = false ∧ asn ∈ seg.asns

def Inside (asn : UInt32) (segs : List AsPathSegment) : Prop :=
  ∃ seg ∈ segs, seg.isConfederation = true ∧ asn ∈ seg.asns

/-- The path names the speaker: by an AS that it presents outside the confederation, to anyone or on this
session, or by its Member-AS inside. -/
def NamesUs (loc : Local) (localAs : Option UInt32) (segs : List AsPathSegment) : Prop :=
  Outside loc.localAs segs ∨ Outside loc.externalAs segs ∨ (∃ asn ∈ localAs, Outside asn segs) ∨
    Inside loc.localAs segs

instance (asn : UInt32) (segs : List AsPathSegment) : Decidable (Outside asn segs) :=
  inferInstanceAs (Decidable (∃ seg ∈ segs, _))

instance (asn : UInt32) (segs : List AsPathSegment) : Decidable (Inside asn segs) :=
  inferInstanceAs (Decidable (∃ seg ∈ segs, _))

instance (loc : Local) (localAs : Option UInt32) (segs : List AsPathSegment) : Decidable (NamesUs loc localAs segs) :=
  inferInstanceAs (Decidable (_ ∨ _))

/-! ### One UPDATE -/

/-- The operations that make something reachable. -/
def enters : BgpRib.Op → Bool
  | .update .. => true
  | _ => false

def entersFamily : FamilyOp → Bool
  | .update .. => true
  | _ => false

namespace Central
variable (s : Central) (m : UpdateMsg)

/-- The AS presented on the session with a peer alone. -/
def sessionAs (p : IpAddr) : Option UInt32 := (s.sessions[p]?).bind fun h => h.sess.localAsOverride

/-- The operations on the RIBs of the other families. -/
def familyRibOps : List FamilyOp :=
  if m.facts.addr ∈ s.damped ∨ isLoop s.loc m.update = true ∨ s.tooMany m = true then [] else familyOps m

/-- None of the reachability of an UPDATE enters a RIB. -/
structure Excludes (conn : UInt64) : Prop where
  unicast : ∀ op ∈ s.ribOps (.update conn m), enters op = false
  families : ∀ op ∈ s.familyRibOps m, entersFamily op = false

/-- No route of the UPDATE would be accepted anyway. -/
structure Barren : Prop where
  unicast : (s.policyFor m.facts.addr).rejectReach m = true ∨
    ∀ e ∈ (s.policyFor m.facts.addr).reachability m, (s.policyFor m.facts.addr).accepted e.1.1 e.2 = none
  families : ∀ f, familyReach f m = []

theorem enters_withdrawOps : ∀ op ∈ m.withdrawOps, enters op = false := by
  intro op hop
  obtain ⟨k, -, rfl⟩ := List.mem_map.mp hop
  rfl

theorem enters_importAndInstall {pol : ImportPolicy} {peer : IpAddr} {e : NlriKey × Path} :
    enters (pol.importAndInstall peer e) = false ↔ pol.accepted e.1.1 e.2 = none := by
  unfold ImportPolicy.importAndInstall
  cases pol.accepted e.1.1 e.2 <;> simp [enters]

theorem enters_installOps {pol : ImportPolicy} :
    (∀ op ∈ pol.installOps m, enters op = false) ↔
      pol.rejectReach m = true ∨ ∀ e ∈ pol.reachability m, pol.accepted e.1.1 e.2 = none := by
  unfold ImportPolicy.installOps
  cases hrej : pol.rejectReach m with
  | true => simp
  | false =>
    rw [if_neg Bool.false_ne_true, List.forall_mem_map]
    simp only [enters_importAndInstall, Bool.false_eq_true, false_or]

theorem entersFamily_familyReach {f : Family} {op : FamilyOp} (h : op ∈ familyReach f m) : entersFamily op = true := by
  unfold familyReach at h
  cases hreach : mpReachFamily f m.update with
  | none => simp [hreach] at h
  | some r =>
    rw [hreach] at h
    cases f with
    | evpn =>
      dsimp only [Option.elim_some] at h
      cases hnh : evpnNextHopIp r.1 with
      | none => simp [hnh] at h
      | some nh =>
        rw [hnh] at h
        obtain ⟨n, -, rfl⟩ := List.mem_map.mp h
        rfl
    | _ =>
      obtain ⟨n, -, rfl⟩ := List.mem_map.mp h
      rfl

theorem entersFamily_familyOps : (∀ op ∈ familyOps m, entersFamily op = false) ↔ ∀ f, familyReach f m = [] := by
  constructor
  · intro h f
    rw [List.eq_nil_iff_forall_not_mem]
    intro op hop
    have hmem : op ∈ familyOps m := by
      refine List.mem_flatMap.mpr ⟨f, ?_, List.mem_append_right _ hop⟩
      cases f <;> simp
    have hfalse := h op hmem
    rw [entersFamily_familyReach m hop] at hfalse
    cases hfalse
  · intro h op hop
    obtain ⟨f, -, hop⟩ := List.mem_flatMap.mp hop
    rw [h f, List.append_nil] at hop
    obtain ⟨n, -, rfl⟩ := List.mem_map.mp hop
    rfl

/-- What keeps the reachability of an UPDATE out: a loop check, or something that has nothing to do with loops. -/
theorem excludes_iff (conn : UInt64) : s.Excludes m conn ↔
    isLoop s.loc m.update = true ∨ m.facts.addr ∈ s.damped ∨ s.tooMany m = true ∨ s.Barren m := by
  have hsplit : ∀ {ops : List BgpRib.Op}, (∀ op ∈ m.withdrawOps ++ ops, enters op = false) ↔
      ∀ op ∈ ops, enters op = false := by
    intro ops
    rw [List.forall_mem_append]
    exact and_iff_right (enters_withdrawOps m)
  by_cases hdamped : m.facts.addr ∈ s.damped
  · refine iff_of_true ⟨?_, ?_⟩ (.inr (.inl hdamped))
    · simp [ribOps, hdamped]
    · simp [familyRibOps, hdamped]
  by_cases hloop : isLoop s.loc m.update = true
  · refine iff_of_true ⟨?_, ?_⟩ (.inl hloop)
    · simp only [ribOps, if_neg hdamped, updateOps, if_pos hloop]
      exact hsplit.mpr (by simp)
    · simp [familyRibOps, hloop]
  by_cases hmany : s.tooMany m = true
  · refine iff_of_true ⟨?_, ?_⟩ (.inr (.inr (.inl hmany)))
    · simp only [ribOps, if_neg hdamped, updateOps, if_neg hloop, if_pos hmany]
      exact hsplit.mpr (by simp [enters])
    · simp [familyRibOps, hmany]
  have hops : s.ribOps (.update conn m) = m.withdrawOps ++ (s.policyFor m.facts.addr).installOps m := by
    simp only [ribOps, if_neg hdamped, updateOps, if_neg hloop, if_neg hmany]
  have hfam : s.familyRibOps m = familyOps m := if_neg (by tauto)
  constructor
  · rintro ⟨hunicast, hfamilies⟩
    rw [hops, hsplit, enters_installOps] at hunicast
    rw [hfam, entersFamily_familyOps] at hfamilies
    exact .inr (.inr (.inr ⟨hunicast, hfamilies⟩))
  · rintro (h | h | h | ⟨hunicast, hfamilies⟩)
    · exact absurd h hloop
    · exact absurd h hdamped
    · exact absurd h hmany
    · refine ⟨?_, ?_⟩
      · rwa [hops, hsplit, enters_installOps]
      · rwa [hfam, entersFamily_familyOps]

end Central

/-! ### From speaker to speaker -/

section Prepend
variable {asn own : UInt32} {segs : List AsPathSegment}

theorem outside_prependAs (h : asn = own ∨ Outside asn segs) : Outside asn (prependAs own segs) := by
  unfold prependAs
  split
  · next v rest =>
    rcases h with rfl | ⟨seg, hseg, hconf, hasn⟩
    · exact ⟨_, List.mem_cons_self, rfl, List.mem_cons_self⟩
    · rcases List.mem_cons.mp hseg with rfl | hseg
      · exact ⟨_, List.mem_cons_self, rfl, List.mem_cons_of_mem _ hasn⟩
      · exact ⟨seg, List.mem_cons_of_mem _ hseg, hconf, hasn⟩
  · rcases h with rfl | ⟨seg, hseg, hconf, hasn⟩
    · exact ⟨_, List.mem_cons_self, rfl, List.mem_cons_self⟩
    · exact ⟨seg, List.mem_cons_of_mem _ hseg, hconf, hasn⟩

theorem inside_prependConfed (h : asn = own ∨ Inside asn segs) : Inside asn (prependConfed own segs) := by
  unfold prependConfed
  split
  · next v rest =>
    rcases h with rfl | ⟨seg, hseg, hconf, hasn⟩
    · exact ⟨_, List.mem_cons_self, rfl, List.mem_cons_self⟩
    · rcases List.mem_cons.mp hseg with rfl | hseg
      · exact ⟨_, List.mem_cons_self, rfl, List.mem_cons_of_mem _ hasn⟩
      · exact ⟨seg, List.mem_cons_of_mem _ hseg, hconf, hasn⟩
  · rcases h with rfl | ⟨seg, hseg, hconf, hasn⟩
    · exact ⟨_, List.mem_cons_self, rfl, List.mem_cons_self⟩
    · exact ⟨seg, List.mem_cons_of_mem _ hseg, hconf, hasn⟩

theorem outside_prependConfed (h : Outside asn segs) : Outside asn (prependConfed own segs) := by
  obtain ⟨seg, hseg, hconf, hasn⟩ := h
  unfold prependConfed
  split
  · rcases List.mem_cons.mp hseg with rfl | hseg
    · cases hconf
    · exact ⟨seg, List.mem_cons_of_mem _ hseg, hconf, hasn⟩
  · exact ⟨seg, List.mem_cons_of_mem _ hseg, hconf, hasn⟩

theorem outside_stripConfedSegments (h : Outside asn segs) : Outside asn (stripConfedSegments segs) := by
  obtain ⟨seg, hseg, hconf, hasn⟩ := h
  exact ⟨seg, List.mem_filter.mpr ⟨hseg, by simp [hconf]⟩, hconf, hasn⟩

end Prepend

namespace Session
variable {s : Session} {segs : List AsPathSegment} {asn : UInt32}

theorem outside_sentAsPath (h : Outside asn segs) : Outside asn (s.sentAsPath segs) := by
  unfold sentAsPath
  cases s.peerType with
  | ebgp => exact outside_prependAs (.inr (outside_stripConfedSegments h))
  | confed => exact outside_prependConfed h
  | ibgp => exact h

theorem inside_sentAsPath (hint : s.peerType ≠ .ebgp) (h : Inside asn segs) : Inside asn (s.sentAsPath segs) := by
  unfold sentAsPath
  cases htype : s.peerType with
  | ebgp => exact absurd htype hint
  | confed => exact inside_prependConfed (.inr h)
  | ibgp => exact h

/-- A route leaves for an external peer with the AS that is presented there. -/
theorem outside_effExternalAs (hebgp : s.peerType = .ebgp) : Outside s.effExternalAs (s.sentAsPath segs) := by
  unfold sentAsPath
  rw [hebgp]
  exact outside_prependAs (.inl rfl)

theorem inside_localAs (hconfed : s.peerType = .confed) : Inside s.loc.localAs (s.sentAsPath segs) := by
  unfold sentAsPath
  rw [hconfed]
  exact inside_prependConfed (.inl rfl)

/-- The UPDATE is what the session writes for a stored path, or for an originated route. -/
def Sends (s : Session) (x : Prefix) : Option Path → Update → Prop
  | none, u => s.exportDenyAll = false ∧ ∃ r, r.pfx = x ∧ s.advertiseOne r = some u
  | some path, u =>
    (s.exportDenyAll = false ∧ s.propagateOne x path = some u) ∨
      ∃ id q, filterPath s.exportFilter x path = some q ∧ s.advertiseAddPathOne ⟨x, id, q⟩ = some u

/-- The stored AS path that an UPDATE starts from, empty for an originated route. -/
def startAsPath (o : Option Path) : List AsPathSegment := o.elim [] Path.asPath

theorem asPath_mem_basePathAttrs (s : Session) : .asPath (s.sentAsPath []) ∈ s.basePathAttrs := by
  unfold basePathAttrs sentAsPath
  cases s.peerType <;> simp [prependAs, prependConfed, stripConfedSegments]

/-- AS4_PATH goes with an originated route where its AS does not fit the session, and with no other. -/
theorem as4Path_mem_basePathAttrs {s : Session} {path4 : List AsPathSegment} (h : .as4Path path4 ∈ s.basePathAttrs) :
    s.peerType = .ebgp ∧ ¬ AsnFits s.fourOctet s.effExternalAs := by
  unfold basePathAttrs at h
  cases htype : s.peerType
  all_goals
    rw [htype] at h
    dsimp only at h
  case ebgp =>
    refine ⟨rfl, ?_⟩
    intro hfits
    by_cases hlarge : (!s.fourOctet && decide (s.effExternalAs > 0xffff)) = true
    · obtain ⟨hfour, hlarge⟩ : s.fourOctet = false ∧ 0xffff < s.effExternalAs := by simpa using hlarge
      exact UInt32.not_lt.mpr (hfits hfour) hlarge
    · rw [if_neg hlarge] at h
      split_ifs at h
      all_goals simp at h
  all_goals
    split_ifs at h
    all_goals simp at h

theorem as4Path_notMem_of_reaches {ps nlri : List Prefix} {last : PathAttribute} (h : Reaches ps last nlri)
    (path4 : List AsPathSegment) : .as4Path path4 ≠ last := by
  rintro rfl
  cases h

/-- A written UPDATE can be understood, and has the AS path in one attribute, if the session can carry it. -/
theorem Sends.spec {fmt : FamilyFormats} {x : Prefix} {o : Option Path} {u : Update} (h : s.Sends x o u)
    (hs : s.Numbered) (ho : ∀ path, o = some path → Sound fmt path)
    (hfits : ∀ segs, .asPath segs ∈ u.attributes → ∀ seg ∈ segs, seg.Fits s.fourOctet) :
    u.Sendable fmt ∧ .asPath (s.sentAsPath (startAsPath o)) ∈ u.attributes ∧
      ∀ path4, .as4Path path4 ∉ u.attributes := by
  cases o with
  | none =>
    obtain ⟨-, r, -, hu⟩ := h
    obtain ⟨r', last, nlri, -, hlast, rfl⟩ := advertiseOne_cases hu
    have hmem : ∀ {a rest}, a ∈ s.basePathAttrs → a ∈ s.basePathAttrs ++ rest := List.mem_append_left _
    have hpath : .asPath (s.sentAsPath []) ∈ s.basePathAttrs := s.asPath_mem_basePathAttrs
    refine ⟨hlast.sendable_update (describes_originated hs _ _ _ _) [], by simp [startAsPath, hpath], ?_⟩
    intro path4 hpath4
    simp only [List.mem_append, List.mem_singleton, as4Path_notMem_of_reaches hlast, or_false] at hpath4
    rcases hpath4 with (hbase | hagg) | hcomm
    · obtain ⟨hebgp, hnot⟩ := as4Path_mem_basePathAttrs hbase
      have hseg : AsPathSegment.sequence [s.effExternalAs] ∈ s.sentAsPath [] := by
        simp [sentAsPath, hebgp, prependAs, stripConfedSegments]
      refine hnot ((hfits _ ?_ _ hseg).width _ List.mem_cons_self)
      simp [hpath]
    · have hcode := (s.codes_aggregateAttrs r'.atomicAggregate).subset (List.mem_map_of_mem hagg)
      exact absurd hcode (by simp +decide [PathAttribute.typeCode])
    · have hcode := (codes_communityAttrs _ _ _).subset (List.mem_map_of_mem hcomm)
      exact absurd hcode (by simp +decide [PathAttribute.typeCode])
  | some path =>
    have hlearned : ∀ (q : Path) (otc : Option UInt32) (last : PathAttribute) (nlri : List Prefix) (ids : List UInt32),
        filterPath s.exportFilter x path = some q → Reaches [x] last nlri →
        u = { attributes := s.propagatedBaseAttrs q ++ otcAttrs otc ++ [last], nlri, nlriPathIds := ids } →
        u.Sendable fmt ∧ .asPath (s.sentAsPath (startAsPath (some path))) ∈ u.attributes ∧
          ∀ path4, .as4Path path4 ∉ u.attributes := by
      rintro q otc last nlri ids hq hlast rfl
      have hsound := (ho path rfl).filterPath hq
      have hsame : q.asPath = path.asPath := (filterPath_frame hq).2.1
      have hmem : .asPath (s.sentAsPath path.asPath) ∈ s.propagatedBaseAttrs q := by
        rw [propagatedBaseAttrs_eq, hsame]
        simp
      have hcount : ∀ seg ∈ s.sentAsPath q.asPath, seg.Countable := by
        intro seg hseg
        have hfit := hfits (s.sentAsPath path.asPath) (by simp [hmem]) seg (hsame ▸ hseg)
        exact ⟨hfit.count, hfit.noZero⟩
      refine ⟨hlast.sendable_update (describes_propagated hsound hcount otc) ids, by simp [startAsPath, hmem], ?_⟩
      intro path4 hpath4
      rcases List.mem_append.mp hpath4 with hpath4 | hpath4
      · have hcode : PathAttribute.typeAs4Path ∉ (s.propagatedBaseAttrs q ++ otcAttrs otc).map PathAttribute.typeCode :=
          notMem_propagated hsound otc (by decide) (by decide)
        exact hcode (List.mem_map_of_mem hpath4)
      · exact as4Path_notMem_of_reaches hlast path4 (List.mem_singleton.mp hpath4)
    rcases h with ⟨-, hu⟩ | ⟨id, q, hq, hu⟩
    · obtain ⟨q, otc, last, nlri, hq, hlast, heq⟩ := propagateOne_cases hu
      exact hlearned q otc last nlri [] hq hlast heq
    · obtain ⟨nh, hlast, heq⟩ := advertiseAddPathOne_cases hu
      exact hlearned q none _ _ _ hq hlast heq

end Session

/-- A route on its way from one speaker to the next, which may present an AS of its own on this session. -/
structure Hop where
  tx : Session
  rx : ReceiveSession
  localAs : Option UInt32
  sent : Update
  received : Update
  stored : Path

namespace Hop

/-- The route in the UPDATE is received and stored. Speakers that are not external to each other are of one
confederation or AS, and no speaker has the AS zero. -/
structure Delivers (fmt : FamilyFormats) (x : Prefix) (o : Option Path) (h : Hop) : Prop where
  numbered : h.tx.Numbered
  interior : h.tx.peerType ≠ .ebgp → h.rx.pol.loc.externalAs = h.tx.loc.externalAs
  sends : h.tx.Sends x o h.sent
  wire : Message.decode fmt h.tx.fourOctet ⟨h.tx.addPathSend⟩
    ((Message.update h.sent).encode h.tx.fourOctet ⟨h.tx.addPathSend⟩) = .ok (.update h.received)
  notLoop : isLoop h.rx.pol.loc h.received = false
  accepts : h.rx.pol.rejectReach (h.rx.msg h.received) = false
  stores : ∃ id raw, ((x, id), raw) ∈ h.rx.pol.reachability (h.rx.msg h.received) ∧
    h.rx.pol.accepted x raw = some h.stored

/-- The hop keeps the marks that loop avoidance goes by. -/
structure Marked (h : Hop) : Prop where
  -- the AS path survives in the width of the session and in the counts of its segments
  fits : ∀ segs, .asPath segs ∈ h.sent.attributes → ∀ seg ∈ segs, seg.Fits h.tx.fourOctet
  -- a receiver that the stored path names finds itself in the received one
  recognised : NamesUs h.rx.pol.loc h.localAs (storedAsPath h.received) → isLoop h.rx.pol.loc h.received = true
  -- an external peer is told the AS that the route leaves
  plain : h.tx.peerType = .ebgp → h.tx.effExternalAs = h.tx.loc.externalAs

/-- The later hop brings the route back into the AS, or the Member-AS, that it left with the earlier one. -/
def Returns (left later : Hop) : Prop :=
  later.rx.pol.loc.externalAs = left.tx.loc.externalAs ∧
    (left.tx.peerType = .ebgp ∨
      left.tx.peerType = .confed ∧ later.rx.pol.loc.localAs = left.tx.loc.localAs)

/-- The route goes from speaker to speaker. -/
def Travels (fmt : FamilyFormats) (x : Prefix) : Option Path → List Hop → Prop
  | _, [] => True
  | o, h :: hs => h.Delivers fmt x o ∧ (∀ next ∈ hs.head?, next.tx.loc = h.rx.pol.loc) ∧ Travels fmt x (some h.stored) hs

section Step
variable {fmt : FamilyFormats} {x : Prefix} {o : Option Path} {h : Hop}

/-- What is received is the AS path that was sent. -/
theorem storedAsPath_received (hd : h.Delivers fmt x o) (hm : h.Marked) (ho : ∀ path, o = some path → Sound fmt path) :
    storedAsPath h.received = h.tx.sentAsPath (Session.startAsPath o) := by
  obtain ⟨hsend, hpath, hpath4⟩ := hd.sends.spec hd.numbered ho hm.fits
  have hreceived : h.received = h.sent.onWire h.tx.fourOctet ⟨h.tx.addPathSend⟩ := by
    have hread := Message.decode_encode_onWire hsend (Message.of_decode_update hd.wire).1
    rw [hd.wire] at hread
    exact Message.update.inj (Except.ok.inj hread)
  have hwire : .asPath (h.tx.sentAsPath (Session.startAsPath o)) ∈ h.received.attributes := by
    rw [hreceived]
    refine List.mem_map.mpr ⟨_, hpath, ?_⟩
    have hsame : ∀ seg ∈ h.tx.sentAsPath (Session.startAsPath o), seg.onWire h.tx.fourOctet = seg :=
      fun seg hseg => AsPathSegment.onWire_of_fits (hm.fits _ hpath seg hseg)
    rw [PathAttribute.onWire, List.map_congr_left hsame, List.map_id']
  have hnone : as4PathOf h.received = none := by
    by_contra hsome
    obtain ⟨path4, hsome⟩ := Option.ne_none_iff_exists'.mp hsome
    have hmem := as4Path_mem_of_as4PathOf hsome
    rw [hreceived] at hmem
    obtain ⟨a, ha, heq⟩ := List.mem_map.mp hmem
    cases a <;> cases heq
    exact hpath4 _ ha
  rw [storedAsPath, hnone, Option.elim_none]
  exact rawAsPath_of_mem (nodup_typeCode_of_decode hd.wire) hwire

/-- The stored path is sound, it is the one that was sent, and it does not name its receiver. -/
theorem Delivers.step (hd : h.Delivers fmt x o) (hm : h.Marked) (ho : ∀ path, o = some path → Sound fmt path) :
    Sound fmt h.stored ∧ h.stored.asPath = h.tx.sentAsPath (Session.startAsPath o) ∧
      ¬ NamesUs h.rx.pol.loc h.localAs h.stored.asPath := by
  obtain ⟨id, raw, hraw, hacc⟩ := hd.stores
  obtain ⟨hsound, hpath⟩ := sound_of_accepted (m := h.rx.msg h.received) hd.wire hraw hacc
  have hpath' : h.stored.asPath = storedAsPath h.received := hpath
  refine ⟨hsound, hpath'.trans (storedAsPath_received hd hm ho), ?_⟩
  intro hnames
  have hloop := hm.recognised (hpath' ▸ hnames)
  rw [hd.notLoop] at hloop
  cases hloop

end Step

section Run
variable {fmt : FamilyFormats} {x : Prefix}

/-- A route whose path names an AS outside the confederation segments is never stored in that AS. -/
theorem externalAs_ne_of_outside {o : Option Path} {hops : List Hop} {asn : UInt32} (ht : Travels fmt x o hops)
    (hm : ∀ h ∈ hops, h.Marked) (ho : ∀ path, o = some path → Sound fmt path)
    (hout : Outside asn (Session.startAsPath o)) : ∀ h ∈ hops, h.rx.pol.loc.externalAs ≠ asn := by
  induction hops generalizing o with
  | nil => simp
  | cons d hops ih =>
    obtain ⟨hd, -, hrest⟩ := ht
    obtain ⟨hsound, hpath, hnot⟩ := hd.step (hm d (by simp)) ho
    have hstored : Outside asn d.stored.asPath := by
      rw [hpath]
      exact Session.outside_sentAsPath hout
    intro h hh
    rcases List.mem_cons.mp hh with rfl | hh
    · rintro rfl
      exact hnot (.inr (.inl hstored))
    · refine ih hrest (fun h hh => hm h (by simp [hh])) ?_ hstored h hh
      rintro path ⟨⟩
      exact hsound

/-- A route whose path names a Member-AS in a confederation segment is not stored there again, in whatever way
it leaves the confederation. -/
theorem not_member_of_inside {o : Option Path} {hops : List Hop} {loc : Local} (ht : Travels fmt x o hops)
    (hm : ∀ h ∈ hops, h.Marked) (ho : ∀ path, o = some path → Sound fmt path)
    (hin : Inside loc.localAs (Session.startAsPath o))
    (hsame : ∀ h ∈ hops.head?, h.tx.loc.externalAs = loc.externalAs) :
    ∀ h ∈ hops, h.rx.pol.loc.externalAs = loc.externalAs → h.rx.pol.loc.localAs ≠ loc.localAs := by
  induction hops generalizing o with
  | nil => simp
  | cons d hops ih =>
    obtain ⟨hd, hnext, hrest⟩ := ht
    have hmd := hm d (by simp)
    have hmr : ∀ h ∈ hops, h.Marked := fun h hh => hm h (by simp [hh])
    obtain ⟨hsound, hpath, hnot⟩ := hd.step hmd ho
    have hsound' : ∀ path, some d.stored = some path → Sound fmt path := by
      rintro path ⟨⟩
      exact hsound
    have hexternal : d.tx.loc.externalAs = loc.externalAs := hsame d (by simp)
    by_cases hebgp : d.tx.peerType = .ebgp
    · have hout : Outside loc.externalAs d.stored.asPath := by
        rw [hpath, ← hexternal, ← hmd.plain hebgp]
        exact Session.outside_effExternalAs hebgp
      intro h hh heq
      rcases List.mem_cons.mp hh with rfl | hh
      · exact absurd (.inr (.inl (heq ▸ hout))) hnot
      · exact absurd heq (externalAs_ne_of_outside hrest hmr hsound' hout h hh)
    · have hstored : Inside loc.localAs d.stored.asPath := by
        rw [hpath]
        exact Session.inside_sentAsPath hebgp hin
      intro h hh heq hlocal
      rcases List.mem_cons.mp hh with rfl | hh
      · exact hnot (.inr (.inr (.inr (hlocal ▸ hstored))))
      · refine ih hrest hmr hsound' hstored ?_ h hh heq hlocal
        intro next hmem
        rw [hnext next hmem, hd.interior hebgp, hexternal]

/-- No hop of a marked route brings it back into an AS that it has left. -/
theorem not_returns {o : Option Path} {hops : List Hop} (ht : Travels fmt x o hops) (hm : ∀ h ∈ hops, h.Marked)
    (ho : ∀ path, o = some path → Sound fmt path) {before after : List Hop} {left : Hop}
    (heq : hops = before ++ left :: after) : ∀ later ∈ left :: after, ¬ Returns left later := by
  induction before generalizing o hops with
  | cons d before ih =>
    subst heq
    obtain ⟨hd, -, hrest⟩ := ht
    refine ih hrest (fun h hh => hm h (List.mem_cons_of_mem _ hh)) ?_ rfl
    rintro path ⟨⟩
    exact (hd.step (hm d (by simp)) ho).1
  | nil =>
    subst heq
    obtain ⟨hd, hnext, hrest⟩ := ht
    have hml := hm left (by simp)
    have hmr : ∀ h ∈ after, h.Marked := fun h hh => hm h (by simp [hh])
    obtain ⟨hsound, hpath, hnot⟩ := hd.step hml ho
    have hsound' : ∀ path, some left.stored = some path → Sound fmt path := by
      rintro path ⟨⟩
      exact hsound
    rintro later hlater ⟨hexternal, hebgp | ⟨hconfed, hlocal⟩⟩
    · have hout : Outside left.tx.loc.externalAs left.stored.asPath := by
        rw [hpath, ← hml.plain hebgp]
        exact Session.outside_effExternalAs hebgp
      rcases List.mem_cons.mp hlater with rfl | hlater
      · exact hnot (.inr (.inl (hexternal ▸ hout)))
      · exact externalAs_ne_of_outside hrest hmr hsound' hout later hlater hexternal
    · have hin : Inside left.tx.loc.localAs left.stored.asPath := by
        rw [hpath]
        exact Session.inside_localAs hconfed
      rcases List.mem_cons.mp hlater with rfl | hlater
      · exact hnot (.inr (.inr (.inr (hlocal ▸ hin))))
      · refine not_member_of_inside hrest hmr hsound' hin ?_ later hlater hexternal hlocal
        intro next hmem
        rw [hnext next hmem]
        exact hd.interior (by simp [hconfed])

end Run

end Hop
/-- An UPDATE that names the speaker is excluded exactly if a loop check or something else excludes it. And a route
that goes from speaker to speaker over marked hops never comes back into an AS that it has left. -/
theorem loops_avoided (fmt : FamilyFormats) :
    (∀ (s : Central) (conn : UInt64) (m : UpdateMsg),
      (NamesUs s.loc (s.sessionAs m.facts.addr) (storedAsPath m.update) → s.Excludes m conn) ↔
        (NamesUs s.loc (s.sessionAs m.facts.addr) (storedAsPath m.update) →
          isLoop s.loc m.update = true ∨ m.facts.addr ∈ s.damped ∨ s.tooMany m = true ∨ s.Barren m)) ∧
    ∀ (x : Prefix) (o : Option Path) (hops : List Hop), (∀ path, o = some path → Sound fmt path) →
      Hop.Travels fmt x o hops → (∀ h ∈ hops, h.Marked) →
        ∀ (before after : List Hop) (left : Hop), hops = before ++ left :: after →
          ∀ later ∈ left :: after, ¬ Hop.Returns left later := by
  constructor
  · intro s conn m
    rw [s.excludes_iff m conn]
  · intro x o hops ho ht hm before after left heq
    exact Hop.not_returns ht hm ho heq

namespace Sample

/-- The speaker in AS `asn`, and what it takes from the neighbour `192.0.2.o`. -/
def locIn (asn : UInt32) : Local := { loc with localAs := asn }

def receiver (asn : UInt32) (o : UInt8) : ReceiveSession where
  pol := { ReceiveSession.sample.pol with loc := locIn asn }
  facts := facts o
  ingressIface := none

/-- `10.0.0.0/8` from AS `asn` to an external peer in AS `asn'`. -/
def hop (asn asn' : UInt32) (path : Path) : Hop :=
  let tx : Session := { session 9 false with loc := locIn asn }
  let rx := receiver asn' 8
  let received : Update := { attributes := [.origin .igp, .asPath (tx.sentAsPath path.asPath), .nextHop tx.localIp], nlri := [net10] }
  { tx, rx, localAs := none, sent := received, received
    stored := rx.pol.stampedPath (rx.msg received) (.v4 tx.localIp) none }

def firstHop : Hop := hop 65000 65002 (Bgp.Sample.path 65001 0 1)

def secondHop : Hop := hop 65002 65003 firstHop.stored

/-- The speaker in AS 4200000000, with a neighbour that knows ASes of two octets only. -/
def largeConfig : BgpConfig := { config with loc := locIn 4200000000 }

/-- The neighbour has put AS_TRANS into the AS path, and AS4_PATH says what it stands for. -/
def throughTrans : Update where
  attributes := [.origin .igp, .asPath [.sequence [65001, 23456, 65010]], .nextHop 0xc0000201,
    .as4Path [.sequence [4200000000, 65010]]]
  nlri := [net10]

end Sample

theorem marked_hop {asn asn' : UInt32} {path : Path}
    (hsent : ∀ seg ∈ (Sample.hop asn asn' path).tx.sentAsPath path.asPath, seg.asns.length ≤ 255 ∧ 0 ∉ seg.asns)
    (hnot : ¬ NamesUs (Sample.locIn asn') none (storedAsPath (Sample.hop asn asn' path).received)) :
    (Sample.hop asn asn' path).Marked := by
  refine ⟨?_, fun hnames => absurd hnames hnot, fun _ => rfl⟩
  intro segs hsegs seg hseg
  have heq : segs = (Sample.hop asn asn' path).tx.sentAsPath path.asPath := by
    simpa [Sample.hop] using hsegs
  obtain ⟨hcount, hzero⟩ := hsent seg (heq ▸ hseg)
  exact ⟨hcount, hzero, fun _ _ hfalse => by cases hfalse⟩

/-- From AS 65000 to AS 65002 and on to AS 65003. -/
theorem loops_avoided_two_hops : ¬ Hop.Returns Sample.firstHop Sample.secondHop := by
  let start : Path := Bgp.Sample.path 65001 0 1
  have hsound : ∀ path, some start = some path → Sound Message.noFamilies path := by
    rintro path ⟨⟩
    exact ⟨by decide, fun _ ha => absurd ha List.not_mem_nil, List.nodup_nil⟩
  have hfirst : Sample.firstHop.Delivers Message.noFamilies Sample.net10 (some start) := by
    refine ⟨⟨by decide, by decide⟩, by decide, .inl ⟨by decide, ?_⟩, ?_, ?_, ?_, 0, Sample.firstHop.stored, ?_, ?_⟩
    all_goals decide +kernel
  have hsecond : Sample.secondHop.Delivers Message.noFamilies Sample.net10 (some Sample.firstHop.stored) := by
    refine ⟨⟨by decide, by decide⟩, by decide, .inl ⟨by decide, ?_⟩, ?_, ?_, ?_, 0, Sample.secondHop.stored, ?_, ?_⟩
    all_goals decide +kernel
  have htravels : Hop.Travels Message.noFamilies Sample.net10 (some start) [Sample.firstHop, Sample.secondHop] := by
    refine ⟨hfirst, ?_, hsecond, ?_, trivial⟩
    · rintro next ⟨⟩
      rfl
    · rintro next ⟨⟩
  have hmarked : ∀ h ∈ [Sample.firstHop, Sample.secondHop], h.Marked := by
    intro h hh
    rcases List.mem_cons.mp hh with rfl | hh
    · exact marked_hop (by decide +kernel) (by decide +kernel)
    · rw [List.mem_singleton.mp hh]
      exact marked_hop (by decide +kernel) (by decide +kernel)
  exact (loops_avoided Message.noFamilies).2 Sample.net10 (some start) _ hsound htravels hmarked [] [Sample.secondHop]
    Sample.firstHop rfl Sample.secondHop (by simp)

/-- The AS path of the UPDATE does not name the speaker, and the path that is stored for it does. -/
theorem not_forall_excludes : ¬ ∀ (fmt : FamilyFormats) (four : Bool) (addPath : AddPath) (buf : List UInt8) (s : Central)
    (conn : UInt64) (m : UpdateMsg), Message.decode fmt four addPath buf = .ok (.update m.update) →
      NamesUs s.loc (s.sessionAs m.facts.addr) (storedAsPath m.update) → s.Excludes m conn := by
  intro h
  let sess : Session := { Sample.session 1 false with loc := Sample.largeConfig.loc, fourOctet := false }
  let s := Central.run Sample.largeConfig [.established ⟨1, 1, true, none, sess⟩]
  let m : UpdateMsg := ⟨Sample.facts 1, none, Sample.throughTrans⟩
  have hdec : Message.decode Message.noFamilies false ⟨false⟩ ((Message.update m.update).encode false ⟨false⟩) =
      .ok (.update m.update) := by decide +kernel
  have hnames : NamesUs s.loc (s.sessionAs m.facts.addr) (storedAsPath m.update) := .inl (by decide +kernel)
  have hall := (h Message.noFamilies false ⟨false⟩ _ s 1 m hdec hnames).unicast
  have hany : (s.ribOps (.update 1 m)).any enters = true := by decide +kernel
  obtain ⟨op, hop, hop'⟩ := List.any_eq_true.mp hany
  rw [hall op hop] at hop'
  cases hop'

end Wren.Daemon.Bgp
