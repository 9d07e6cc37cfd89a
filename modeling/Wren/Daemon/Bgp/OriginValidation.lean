import Wren.Daemon.Bgp.Effects

/-! Origin validation over the whole life of the central task: whether a path that the ROAs make invalid
is ever the best one. -/

namespace Wren.Daemon.Bgp
open Wren.Core Wren.Bgp OrdMap

/-- The ROAs say that the origin of the path may not announce the network. -/
def Invalid (roa : RoaTable) (x : Prefix) (path : Path) : Prop :=
  roa.validate x ((originAs path.asPath).getD path.peerAs) = .invalid

instance (roa : RoaTable) (x : Prefix) (path : Path) : Decidable (Invalid roa x path) :=
  inferInstanceAs (Decidable (_ = _))

namespace Central

/-- With ROAs to go by, no best path is invalid. -/
def NoInvalidBest (s : Central) : Prop :=
  s.roa.isEmpty = false → ∀ x path, s.rib.bestOf x = some path → ¬ Invalid s.roa x path

/-- Of the paths that are stored, a new ROA set makes only such invalid as are best and without a path
identifier. -/
def Revalidates (s : Central) : Event → Prop
  | .rtrFeed feed =>
    ∀ x src path, s.rib.offer x src = some path → Invalid ⟨s.staticRoas ++ feed⟩ x path →
      s.rib.bestOf x = some path ∧ src.2 = 0
  | _ => True

/-- No stored path is invalid. -/
structure Validated (s : Central) : Prop where
  reject : s.rpkiReject = true
  selected : s.rib.Selected
  source : ∀ x src path, s.rib.offer x src = some path → path.peerAddr = src.1
  valid : s.roa.isEmpty = false → ∀ x src path, s.rib.offer x src = some path → ¬ Invalid s.roa x path

theorem Validated.noInvalidBest {s : Central} (h : s.Validated) : s.NoInvalidBest := by
  intro hroa x path hbest
  obtain ⟨src, hsrc⟩ := h.selected.offer_of_best hbest
  exact h.valid hroa x src path hsrc

/-- A path that passes the import policy has the origin and the peer it was received with. -/
theorem accepted_spec {pol : ImportPolicy} {m : UpdateMsg} {nextHop : IpAddr} {iface : Option String} {x : Prefix} {path : Path}
    (h : pol.accepted x (pol.stampedPath m nextHop iface) = some path) :
    path.peerAddr = m.facts.addr ∧ (pol.rpkiReject = true → pol.roa.isEmpty = false → ¬ Invalid pol.roa x path) := by
  unfold ImportPolicy.accepted at h
  split_ifs at h with hinvalid
  obtain ⟨haddr, hasPath, hpeerAs, -⟩ := filterPath_frame h
  constructor
  · rw [haddr]
    exact buildPath_peerAddr m.update nextHop iface m.facts
  · intro hreject hroa hbad
    refine hinvalid ?_
    rw [Invalid, hasPath, hpeerAs] at hbad
    simp [ImportPolicy.rpkiInvalid, hreject, hroa, hbad]

/-- A path that an event installs is of the peer that sent it and not invalid. -/
theorem installed_spec {s : Central} (hreject : s.rpkiReject = true) {e : Event} {src : IpAddr × UInt32} {x : Prefix} {path : Path}
    (h : .update src.1 src.2 x path ∈ s.ribOps e) :
    path.peerAddr = src.1 ∧ (s.roa.isEmpty = false → ¬ Invalid s.roa x path) := by
  obtain ⟨conn, m, nextHop, iface, -, hpeer, -, haccepted⟩ := update_of_mem_ribOps h
  obtain ⟨haddr, hvalid⟩ := accepted_spec haccepted
  exact ⟨haddr.trans hpeer.symm, hvalid hreject⟩

theorem source_step {s : Central} (h : s.Validated) (e : Event) (x : Prefix) (src : IpAddr × UInt32) (path : Path)
    (hoffer : (s.step e).rib.offer x src = some path) : path.peerAddr = src.1 := by
  rw [step_rib] at hoffer
  rcases BgpRib.offer_of_foldl_step hoffer with hold | hnew
  · exact h.source x src path hold
  · exact (installed_spec h.reject hnew).1

/-- The best paths without an identifier that a new ROA set makes invalid are withdrawn. -/
theorem offer_rtrFeed {s : Central} {feed : List Roa} (hreject : s.rpkiReject = true)
    (hroa : (⟨s.staticRoas ++ feed⟩ : RoaTable).isEmpty = false) {x : Prefix} {path : Path} (hbest : s.rib.bestOf x = some path)
    (hinvalid : Invalid ⟨s.staticRoas ++ feed⟩ x path) : (s.rtrFeed feed).rib.offer x (path.peerAddr, 0) = none := by
  have hmem : BgpRib.Op.withdraw path.peerAddr 0 x ∈ s.invalidOps ⟨s.staticRoas ++ feed⟩ := by
    simp only [invalidOps, hreject, hroa, Bool.not_false, Bool.and_self, if_true]
    refine List.mem_map.mpr ⟨(x, path), List.mem_filter.mpr ⟨?_, ?_⟩, rfl⟩
    · exact Std.ExtTreeMap.mem_toList_iff_getElem?_eq_some.mpr hbest
    · exact decide_eq_true hinvalid
  have hno : ∀ q, .update path.peerAddr 0 x q ∉ s.invalidOps ⟨s.staticRoas ++ feed⟩ := by
    intro q hop
    obtain ⟨conn, m, nextHop, iface, heq, -⟩ := update_of_mem_ribOps (e := .rtrFeed feed) hop
    cases heq
  rw [rtrFeed, applyOps_rib]
  refine BgpRib.offer_foldl_of_withdrawn hmem ?_ hno s.rib
  intro rib
  rw [BgpRib.offer_withdraw, if_pos ⟨rfl, rfl⟩]

theorem validated_step {s : Central} (h : s.Validated) (e : Event) (he : s.Revalidates e) : (s.step e).Validated := by
  by_cases hrtr : ∃ feed, e = .rtrFeed feed
  · obtain ⟨feed, rfl⟩ := hrtr
    have hset := settings_rtrFeed s feed
    have hroa : (s.rtrFeed feed).roa = ⟨s.staticRoas ++ feed⟩ := congrArg (fun t => t.1.2.2) hset
    refine ⟨?_, selected_step h.selected _, source_step h _, ?_⟩
    · exact (congrArg (fun t => t.1.1) hset).trans h.reject
    · intro hfull x src path hoffer hinvalid
      rw [step, hroa] at hfull hinvalid
      have hold : s.rib.offer x src = some path := by
        have hrib := hoffer
        rw [step_rib] at hrib
        rcases BgpRib.offer_of_foldl_step hrib with hold | hnew
        · exact hold
        · obtain ⟨conn, m, nextHop, iface, heq, -⟩ := update_of_mem_ribOps hnew
          cases heq
      obtain ⟨hbest, hid⟩ := he x src path hold hinvalid
      have hgone := offer_rtrFeed h.reject hfull hbest hinvalid
      have hsrc : src = (path.peerAddr, 0) := Prod.ext (h.source x src path hold).symm hid
      rw [step, hsrc, hgone] at hoffer
      cases hoffer
  · have hrpki : (s.step e).settings.1 = s.settings.1 := by
      by_cases hconfig : ∃ remove add, e = .reconfig remove add
      · obtain ⟨remove, add, rfl⟩ := hconfig
        exact rpki_reconfig s remove add
      · exact congrArg Prod.fst (settings_step s (fun feed heq => hrtr ⟨feed, heq⟩) fun remove add heq => hconfig ⟨remove, add, heq⟩)
    have hroa : (s.step e).roa = s.roa := congrArg (fun t => t.2.2) hrpki
    refine ⟨?_, selected_step h.selected e, source_step h e, ?_⟩
    · exact (congrArg Prod.fst hrpki).trans h.reject
    · intro hfull x src path hoffer
      rw [hroa] at hfull ⊢
      rw [step_rib] at hoffer
      rcases BgpRib.offer_of_foldl_step hoffer with hold | hnew
      · exact h.valid hfull x src path hold
      · exact (installed_spec h.reject hnew).2 hfull

theorem validated_start {c : BgpConfig} (hreject : c.rpkiReject = true) : (start c).Validated := by
  have hrpki : (start c).settings.1 = (c.rpkiReject, c.staticRoas, ⟨c.staticRoas⟩) := by
    refine List.foldlRecOn (motive := fun t : Central => t.settings.1 = (c.rpkiReject, c.staticRoas, ⟨c.staticRoas⟩)) c.neighbors _
      rfl ?_
    intro t ht n _
    rw [← ht]
    unfold addNeighbor
    split_ifs <;> rfl
  have hnone : ∀ x src, (start c).rib.offer x src = none := by
    intro x src
    rw [start_rib, BgpRib.offer_eq]
    simp [BgpRib.withMaxPaths]
  refine ⟨(congrArg Prod.fst hrpki).trans hreject, start_rib c ▸ BgpRib.selected_withMaxPaths _, ?_, ?_⟩
  · intro x src path hoffer
    rw [hnone] at hoffer
    cases hoffer
  · intro _ x src path hoffer
    rw [hnone] at hoffer
    cases hoffer

/-- In every state of a run whose ROA sets only make such stored paths invalid as are best and without an
identifier, no best path is invalid. -/
theorem noInvalidBest_of_revalidates (c : BgpConfig) (hreject : c.rpkiReject = true) (es : List Event)
    (h : Run.Every step Revalidates (start c) es) (fs : List Event) (hfs : fs <+: es) : (run c fs).NoInvalidBest := by
  obtain ⟨gs, rfl⟩ := hfs
  have hvalidated := (Run.every_append.mp h).1.invariant Validated (validated_start hreject) fun s e hs he => validated_step hs e he
  exact hvalidated.noInvalidBest

end Central

namespace Sample

/-- The speaker that rejects invalid routes. -/
def rejecting : BgpConfig := { config with rpkiReject := true }

/-- Only AS 65009 may announce `10.0.0.0/8`. -/
def roaTen (asn : UInt32) : Roa := ⟨net10, 8, asn⟩

end Sample

namespace Central

/-- A feed that makes the only path invalid leaves none. -/
theorem noInvalidBest_one_path :
    let es : List Event := [Sample.established 1 1, Sample.update 1 1 (Sample.announceTen [65001] []), .rtrFeed [Sample.roaTen 65009]]
    (run Sample.rejecting es).NoInvalidBest := by
  intro es
  let s := run Sample.rejecting [Sample.established 1 1, Sample.update 1 1 (Sample.announceTen [65001] [])]
  have hfeed : s.Revalidates (.rtrFeed [Sample.roaTen 65009]) := by
    intro x src path hoffer _
    have hall : s.rib.entries.toList.all (fun e => e.2.toList.all fun o =>
        o.1.2 = 0 && s.rib.bestOf e.1 = some o.2) = true := by decide +kernel
    obtain ⟨peers, hpeers, hpath⟩ := Option.bind_eq_some_iff.mp hoffer
    have hone := List.all_eq_true.mp (List.all_eq_true.mp hall (x, peers) (Std.ExtTreeMap.mem_toList_iff_getElem?_eq_some.mpr hpeers))
      (src, path) (Std.ExtTreeMap.mem_toList_iff_getElem?_eq_some.mpr hpath)
    rw [Bool.and_eq_true, decide_eq_true_eq, decide_eq_true_eq] at hone
    exact ⟨hone.2, hone.1⟩
  have hes : Run.Every step Revalidates (start Sample.rejecting) es := ⟨trivial, trivial, hfeed, trivial⟩
  exact noInvalidBest_of_revalidates Sample.rejecting rfl es hes es (List.prefix_refl es)

/-- Two neighbours announce one network, and a feed makes both paths invalid. Only the best one is
withdrawn, and the other one takes its place. -/
theorem not_forall_noInvalidBest :
    ¬ ∀ (c : BgpConfig) (es : List Event), c.rpkiReject = true → (run c es).NoInvalidBest := by
  intro h
  let s := run Sample.rejecting [Sample.established 1 1, Sample.established 2 2,
    Sample.update 1 1 (Sample.announceTen [65001] []), Sample.update 2 2 (Sample.announceTen [65002] []),
    .rtrFeed [Sample.roaTen 65009]]
  have hnone : s.NoInvalidBest := h Sample.rejecting _ rfl
  have hbest : (s.rib.bestOf Sample.net10).any (fun path => Invalid s.roa Sample.net10 path) = true := by decide +kernel
  obtain ⟨path, hpath, hinvalid⟩ := (Option.any_eq_true _ _).mp hbest
  exact hnone (by decide +kernel) _ path hpath (of_decide_eq_true hinvalid)

end Central
end Wren.Daemon.Bgp
