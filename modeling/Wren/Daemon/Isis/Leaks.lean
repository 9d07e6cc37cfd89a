import Wren.Daemon.Isis.Process
import Wren.Isis.ShortestPaths

/-! The routes that the IS-IS task announces, and the prefixes that a router of both levels carries from one level
into the other. -/

namespace Wren.Daemon
open Wren.Core Wren.Isis OrdMap
open Std (ExtTreeMap)

namespace Isis
variable (s : Isis)

/-- The lowest cost of every prefix that this router does not originate itself. -/
def leakCandidates (routes : List SpfRoute) : BTreeMap Prefix UInt32 :=
  (routes.filter fun r => ¬ (s.native.connected r.pfx ∨ s.native.redistributed r.pfx)).foldl
    (fun out r => out.insert r.pfx (out[r.pfx]?.elim r.cost (min r.cost))) ∅

/-- A change of what is leaked into a level originates the own LSP of that level anew. -/
def leakIntoL2 (m : BTreeMap Prefix UInt32) : Isis :=
  if m = s.leakedIntoL2 then s else { s with leakedIntoL2 := m }.reoriginate .l2

def leakIntoL1 (m : BTreeMap Prefix UInt32) : Isis :=
  if m = s.leakedIntoL1 then s else { s with leakedIntoL1 := m }.reoriginate .l1

def updateLeaks (perLevel : PerLevel (List SpfRoute)) : Isis :=
  if s.cfg.level ≠ .l1l2 then s
  else
    (s.leakIntoL2 (s.leakCandidates perLevel.l1)).leakIntoL1
      (if s.cfg.leakL2ToL1 then s.leakCandidates perLevel.l2 else ∅)

/-- The routes of a level, none where the level is not run. -/
def spfRoutes : PerLevel (List SpfRoute) :=
  let routes (level : IsLevel) :=
    if level ∈ s.activeLevels then (compute (s.dbs.get level) s.cfg.systemId level).routes else []
  ⟨routes .l1, routes .l2⟩

/-- A route that is announced: not of a connected network, and with somewhere to go. -/
def installable (r : Route) : Prop :=
  ¬ s.native.connected r.pfx ∧ ∃ nh ∈ r.nexthops, nh.gateway ≠ none ∨ nh.iface ≠ none

instance (r : Route) : Decidable (s.installable r) := inferInstanceAs (Decidable (_ ∧ _))

/-- The cheapest installable route of every prefix. Between equals the first one stays. -/
def chosenRoutes : BTreeMap Prefix Route :=
  (((s.activeLevels.flatMap s.spfRoutes.get).map SpfRoute.toRoute).filter s.installable).foldl
    (fun chosen r =>
      match chosen[r.pfx]? with
      | some existing => if existing.metric ≤ r.metric then chosen else chosen.insert r.pfx r
      | none => chosen.insert r.pfx r) ∅

def announce (chosen : BTreeMap Prefix Route) : Isis :=
  let gone := s.announced.toList.filter fun p => p ∉ chosen
  { s with
    updates := s.updates ++
      chosen.toList.map (fun e => .announce { e.2 with table := s.cfg.vrfTable }) ++
      gone.map fun p => .withdraw s.cfg.vrfTable p .isis 0
    announced := chosen.toList.foldl (fun set e => set.insert e.1) ∅ }

def runSpfAndAnnounce : Isis := (s.updateLeaks s.spfRoutes).announce s.chosenRoutes

/-! ### What is leaked -/

theorem isSome_foldl_leak (l : List SpfRoute) (m : BTreeMap Prefix UInt32) (p : Prefix) :
    ((l.foldl (fun out r => out.insert r.pfx (out[r.pfx]?.elim r.cost (min r.cost))) m)[p]?).isSome ↔
      m[p]?.isSome ∨ ∃ r ∈ l, r.pfx = p := by
  induction l generalizing m with
  | nil => simp
  | cons r l ih =>
    rw [List.foldl_cons, ih, getElem?_insert]
    by_cases h : p = r.pfx
    · simp [h]
    · simp [h, Ne.symm h]

theorem mem_leakCandidates {routes : List SpfRoute} {p : Prefix} :
    p ∈ s.leakCandidates routes ↔
      (∃ r ∈ routes, r.pfx = p) ∧ ¬ s.native.connected p ∧ ¬ s.native.redistributed p := by
  rw [← ExtTreeMap.isSome_getElem?_iff_mem, leakCandidates, isSome_foldl_leak]
  simp only [List.mem_filter, decide_eq_true_eq, not_or]
  constructor
  · rintro (hnone | ⟨r, ⟨hr, hfree⟩, rfl⟩)
    · simp at hnone
    · exact ⟨⟨r, hr, rfl⟩, hfree⟩
  · rintro ⟨⟨r, hr, rfl⟩, hfree⟩
    exact Or.inr ⟨r, ⟨hr, hfree⟩, rfl⟩

theorem mem_activeLevels {level : IsLevel} (h : s.cfg.level = .l1l2) (hlevel : level ≠ .l1l2) : level ∈ s.activeLevels := by
  rw [activeLevels, h]
  cases level <;> simp at hlevel ⊢

theorem leakIntoL2_spec (m : BTreeMap Prefix UInt32) :
    (s.leakIntoL2 m).leakedIntoL2 = m ∧ (s.leakIntoL2 m).native = s.native ∧ (s.leakIntoL2 m).cfg = s.cfg := by
  rw [leakIntoL2]
  split_ifs with h
  · exact ⟨h.symm, rfl, rfl⟩
  · rw [reoriginate_eq]
    exact ⟨rfl, rfl, rfl⟩

theorem leakIntoL1_spec (m : BTreeMap Prefix UInt32) :
    (s.leakIntoL1 m).leakedIntoL1 = m ∧ (s.leakIntoL1 m).leakedIntoL2 = s.leakedIntoL2 ∧
      (s.leakIntoL1 m).native = s.native ∧ (s.leakIntoL1 m).cfg = s.cfg := by
  rw [leakIntoL1]
  split_ifs with h
  · exact ⟨h.symm, rfl, rfl, rfl⟩
  · rw [reoriginate_eq]
    exact ⟨rfl, rfl, rfl, rfl⟩

/-- What a router of both levels leaks after a run: the candidates of the other level, down into Level 1 only where
that is asked for. -/
theorem leaked_runSpfAndAnnounce (h : s.cfg.level = .l1l2) :
    s.runSpfAndAnnounce.leakedIntoL2 = s.leakCandidates (compute (s.dbs.get .l1) s.cfg.systemId .l1).routes ∧
      s.runSpfAndAnnounce.leakedIntoL1 =
        (if s.cfg.leakL2ToL1 then s.leakCandidates (compute (s.dbs.get .l2) s.cfg.systemId .l2).routes else ∅) ∧
      s.runSpfAndAnnounce.native = s.native := by
  have hl1 : s.spfRoutes.l1 = (compute (s.dbs.get .l1) s.cfg.systemId .l1).routes :=
    if_pos (s.mem_activeLevels h (by simp))
  have hl2 : s.spfRoutes.l2 = (compute (s.dbs.get .l2) s.cfg.systemId .l2).routes :=
    if_pos (s.mem_activeLevels h (by simp))
  have hrun : s.runSpfAndAnnounce = ((s.leakIntoL2 (s.leakCandidates s.spfRoutes.l1)).leakIntoL1
      (if s.cfg.leakL2ToL1 then s.leakCandidates s.spfRoutes.l2 else ∅)).announce s.chosenRoutes := by
    rw [runSpfAndAnnounce, updateLeaks, if_neg (by simpa using h)]
  obtain ⟨hinto2, hnative2, -⟩ := s.leakIntoL2_spec (s.leakCandidates s.spfRoutes.l1)
  obtain ⟨hinto1, hkept2, hnative1, -⟩ := (s.leakIntoL2 (s.leakCandidates s.spfRoutes.l1)).leakIntoL1_spec
    (if s.cfg.leakL2ToL1 then s.leakCandidates s.spfRoutes.l2 else ∅)
  rw [hrun, ← hl1, ← hl2]
  exact ⟨hkept2.trans hinto2, hinto1, hnative1.trans hnative2⟩

/-! ### Prefixes that go up -/

section Drawn
variable (db : Lsdb) (root : NodeId)

/-- A node that can be reached advertises a prefix with this up/down bit. -/
def Drawn (upDown : Bool) (p : Prefix) : Prop :=
  ∃ u d m, Path db (· ≠ maxLinkMetric) root u d ∧ AdvertisesPrefix db u p upDown m

/-- A node that can be reached is attached to the backbone and draws a default route. -/
def DrawnDefault (p : Prefix) : Prop :=
  ∃ u d, Path db (· ≠ maxLinkMetric) root u d ∧ u ≠ root ∧ Flagged db (fun l => l.attached ≠ 0) u ∧
    (p = defaultV4 ∧ Supports db u nlpidIpv4 ∨ p = defaultV6 ∧ Supports db u nlpidIpv6)

theorem exists_prefixCost_iff (p : Prefix) :
    (∃ d, PrefixCost db (· ≠ maxLinkMetric) root (· ≠ root) .l1 p d) ↔
      Drawn db root false p ∨ Drawn db root true p ∨ DrawnDefault db root p := by
  constructor
  · rintro ⟨d, u, e, hpath, ⟨upDown, m, hadv, -⟩ | ⟨-, hne, hflag, hdefault, -⟩⟩
    · cases upDown with
      | false => exact Or.inl ⟨u, e, m, hpath.1, hadv⟩
      | true => exact Or.inr (Or.inl ⟨u, e, m, hpath.1, hadv⟩)
    · exact Or.inr (Or.inr ⟨u, e, hpath.1, hne, hflag, hdefault⟩)
  · have hadv : ∀ upDown, Drawn db root upDown p → ∃ d, PrefixCost db (· ≠ maxLinkMetric) root (· ≠ root) .l1 p d := by
      rintro upDown ⟨u, d, m, hpath, hadv⟩
      obtain ⟨e, hshort⟩ := exists_shortestPath hpath
      exact ⟨_, u, e, hshort, Or.inl ⟨upDown, m, hadv, rfl⟩⟩
    rintro (hclear | hset | ⟨u, d, hpath, hne, hflag, hdefault⟩)
    · exact hadv false hclear
    · exact hadv true hset
    · obtain ⟨e, hshort⟩ := exists_shortestPath hpath
      exact ⟨e, u, e, hshort, Or.inr ⟨rfl, hne, hflag, hdefault, rfl⟩⟩

end Drawn

/-- The node of this router, where its calculations start. -/
def rootNode : NodeId := ⟨s.cfg.systemId, 0⟩

theorem mem_leakedIntoL2_iff (h : s.cfg.level = .l1l2) (p : Prefix) :
    p ∈ s.runSpfAndAnnounce.leakedIntoL2 ↔
      (Drawn (s.dbs.get .l1) s.rootNode false p ∨ Drawn (s.dbs.get .l1) s.rootNode true p ∨
        DrawnDefault (s.dbs.get .l1) s.rootNode p) ∧ ¬ s.native.connected p ∧ ¬ s.native.redistributed p := by
  rw [(s.leaked_runSpfAndAnnounce h).1, mem_leakCandidates, exists_mem_routes_iff]
  exact and_congr_left fun _ => exists_prefixCost_iff _ _ p

/-! ### Prefixes that go down -/

/-- Reachability TLVs list a prefix with this up/down bit. -/
def Lists (tlvs : List Tlv) (p : Prefix) (upDown : Bool) : Prop :=
  (∃ rs, Tlv.extendedIpReachability rs ∈ tlvs ∧
      ∃ r ∈ rs, Prefix.new (.v4 r.pfx) r.prefixLen = .ok p ∧ r.upDown = upDown) ∨
    ∃ rs, Tlv.ipv6Reachability rs ∈ tlvs ∧ ∃ r ∈ rs, Prefix.new (.v6 r.pfx) r.prefixLen = .ok p ∧ r.upDown = upDown

theorem new_self (p : Prefix) : Prefix.new p.addr p.len = .ok p := by
  obtain ⟨addr, len, hlen, hmask⟩ := p
  have hlen' : len ≤ addr.maxLen := hlen
  simp only [Prefix.new, hlen', hmask, dif_pos]

theorem v4_asV4 {a : IpAddr} (h : a.isIpv4 = true) : IpAddr.v4 (asV4 a) = a := by
  cases a with
  | v4 a => rfl
  | v6 a => cases h

theorem v6_asV6 {a : IpAddr} (h : a.isIpv4 = false) : IpAddr.v6 (asV6 a) = a := by
  cases a with
  | v4 a => cases h
  | v6 a => rfl

theorem new_asV4 {p : Prefix} (h : p.addr.isIpv4 = true) : Prefix.new (.v4 (asV4 p.addr)) p.len = .ok p := by
  rw [v4_asV4 h, new_self]

theorem new_asV6 {p : Prefix} (h : p.addr.isIpv4 = false) : Prefix.new (.v6 (asV6 p.addr)) p.len = .ok p := by
  rw [v6_asV6 h, new_self]

theorem mem_of_mem_tlvOf {α : Type} {mk : List α → Tlv} {l : List α} {t : Tlv} (h : t ∈ tlvOf mk l) : t = mk l := by
  rw [tlvOf] at h
  split_ifs at h
  · cases h
  · exact List.mem_singleton.mp h

theorem mem_tlvOf_of_mem {α : Type} {mk : List α → Tlv} {l : List α} {a : α} (h : a ∈ l) : mk l ∈ tlvOf mk l := by
  rw [tlvOf, if_neg (by simpa using List.ne_nil_of_mem h)]
  exact List.mem_singleton.mpr rfl

variable {s}

/-- The own LSP lists what its two lists of networks do. -/
theorem lists_ownLsp_iff {level : IsLevel} {seq : UInt32} {p : Prefix} {upDown : Bool} :
    Lists (s.buildOurLsp level seq).tlvs p upDown ↔
      (∃ r ∈ s.v4Reaches level, Prefix.new (.v4 r.pfx) r.prefixLen = .ok p ∧ r.upDown = upDown) ∨
        ∃ r ∈ s.v6Reaches level, Prefix.new (.v6 r.pfx) r.prefixLen = .ok p ∧ r.upDown = upDown := by
  have htlvs : (s.buildOurLsp level seq).tlvs = s.pushAuth (s.ownTlvs level) := rfl
  have hmem : ∀ t : Tlv, t.typeCode ≠ 10 → (t ∈ s.pushAuth (s.ownTlvs level) ↔ t ∈ s.ownTlvs level) := by
    intro t ht
    rw [pushAuth]
    cases s.cfg.auth with
    | none => rfl
    | some auth =>
      rw [List.mem_cons]
      refine or_iff_right ?_
      rintro rfl
      exact ht rfl
  rw [Lists, htlvs]
  constructor
  · rintro (⟨rs, hrs, hr⟩ | ⟨rs, hrs, hr⟩)
    · rw [hmem _ (by simp [Tlv.typeCode]), ownTlvs] at hrs
      simp only [List.mem_append, List.mem_cons, List.not_mem_nil, or_false, reduceCtorEq, false_or] at hrs
      left
      rcases hrs with (((h | h) | h) | h) | h
      all_goals cases mem_of_mem_tlvOf h
      exact hr
    · rw [hmem _ (by simp [Tlv.typeCode]), ownTlvs] at hrs
      simp only [List.mem_append, List.mem_cons, List.not_mem_nil, or_false, reduceCtorEq, false_or] at hrs
      right
      rcases hrs with (((h | h) | h) | h) | h
      all_goals cases mem_of_mem_tlvOf h
      exact hr
  · rintro (⟨r, hr, hpr⟩ | ⟨r, hr, hpr⟩)
    · refine Or.inl ⟨s.v4Reaches level, ?_, r, hr, hpr⟩
      rw [hmem _ (by simp [Tlv.typeCode]), ownTlvs]
      exact List.mem_append_left _ (List.mem_append_right _ (mem_tlvOf_of_mem hr))
    · refine Or.inr ⟨s.v6Reaches level, ?_, r, hr, hpr⟩
      rw [hmem _ (by simp [Tlv.typeCode]), ownTlvs]
      exact List.mem_append_right _ (mem_tlvOf_of_mem hr)

theorem exists_v4Reaches_iff {level : IsLevel} {p : Prefix} {upDown : Bool} :
    (∃ r ∈ s.v4Reaches level, Prefix.new (.v4 r.pfx) r.prefixLen = .ok p ∧ r.upDown = upDown) ↔
      upDown = false ∧ (p ∈ s.native.v4Reach ∨ p ∈ s.native.extV4) ∨
        upDown = decide (level = .l1) ∧ p ∈ s.leaked level ∧ p.addr.isIpv4 = true := by
  have hkey : ∀ (m : BTreeMap Prefix UInt32) (q : Prefix), q ∈ m ↔ ∃ c, (q, c) ∈ m.toList := by
    intro m q
    rw [← ExtTreeMap.isSome_getElem?_iff_mem, Option.isSome_iff_exists]
    simp only [ExtTreeMap.mem_toList_iff_getElem?_eq_some]
  have hext : ∀ q, q ∈ s.native.extV4 → q.addr.isIpv4 = true := by
    intro q hq
    obtain ⟨m, hm⟩ := Option.isSome_iff_exists.mp (ExtTreeMap.isSome_getElem?_iff_mem.mpr hq)
    exact s.native.extV4_isIpv4 q m hm
  constructor
  · rintro ⟨r, hr, hnew, rfl⟩
    simp only [v4Reaches, List.mem_append, List.mem_map, List.mem_filter] at hr
    rcases hr with (⟨q, hq, rfl⟩ | ⟨⟨q, m⟩, hq, rfl⟩) | ⟨⟨q, m⟩, ⟨hq, hfam⟩, rfl⟩
    · obtain rfl : q = p := Except.ok.inj ((new_asV4 (s.native.v4Reach_isIpv4 q hq)).symm.trans hnew)
      exact Or.inl ⟨rfl, Or.inl hq⟩
    · have hmem : q ∈ s.native.extV4 := (hkey _ q).mpr ⟨m, hq⟩
      obtain rfl : q = p := Except.ok.inj ((new_asV4 (hext q hmem)).symm.trans hnew)
      exact Or.inl ⟨rfl, Or.inr hmem⟩
    · have hfam' : q.addr.isIpv4 = true := by simpa using hfam
      obtain rfl : q = p := Except.ok.inj ((new_asV4 hfam').symm.trans hnew)
      exact Or.inr ⟨rfl, (hkey _ q).mpr ⟨m, hq⟩, hfam'⟩
  · simp only [v4Reaches, List.mem_append, List.mem_map, List.mem_filter]
    rintro (⟨rfl, hp | hp⟩ | ⟨rfl, hp, hfam⟩)
    · exact ⟨_, Or.inl (Or.inl ⟨p, hp, rfl⟩), new_asV4 (s.native.v4Reach_isIpv4 p hp), rfl⟩
    · obtain ⟨m, hm⟩ := (hkey _ p).mp hp
      exact ⟨_, Or.inl (Or.inr ⟨(p, m), hm, rfl⟩), new_asV4 (hext p hp), rfl⟩
    · obtain ⟨m, hm⟩ := (hkey _ p).mp hp
      exact ⟨_, Or.inr ⟨(p, m), ⟨hm, by simpa using hfam⟩, rfl⟩, new_asV4 hfam, rfl⟩

theorem exists_v6Reaches_iff {level : IsLevel} {p : Prefix} {upDown : Bool} :
    (∃ r ∈ s.v6Reaches level, Prefix.new (.v6 r.pfx) r.prefixLen = .ok p ∧ r.upDown = upDown) ↔
      upDown = false ∧ (p ∈ s.native.v6Reach ∨ p ∈ s.native.extV6) ∨
        upDown = decide (level = .l1) ∧ p ∈ s.leaked level ∧ p.addr.isIpv4 = false := by
  have hkey : ∀ (m : BTreeMap Prefix UInt32) (q : Prefix), q ∈ m ↔ ∃ c, (q, c) ∈ m.toList := by
    intro m q
    rw [← ExtTreeMap.isSome_getElem?_iff_mem, Option.isSome_iff_exists]
    simp only [ExtTreeMap.mem_toList_iff_getElem?_eq_some]
  have hext : ∀ q, q ∈ s.native.extV6 → q.addr.isIpv4 = false := by
    intro q hq
    obtain ⟨m, hm⟩ := Option.isSome_iff_exists.mp (ExtTreeMap.isSome_getElem?_iff_mem.mpr hq)
    exact s.native.extV6_isIpv6 q m hm
  constructor
  · rintro ⟨r, hr, hnew, rfl⟩
    simp only [v6Reaches, List.mem_append, List.mem_map, List.mem_filter] at hr
    rcases hr with (⟨q, hq, rfl⟩ | ⟨⟨q, m⟩, hq, rfl⟩) | ⟨⟨q, m⟩, ⟨hq, hfam⟩, rfl⟩
    · obtain rfl : q = p := Except.ok.inj ((new_asV6 (s.native.v6Reach_isIpv6 q hq)).symm.trans hnew)
      exact Or.inl ⟨rfl, Or.inl hq⟩
    · have hmem : q ∈ s.native.extV6 := (hkey _ q).mpr ⟨m, hq⟩
      obtain rfl : q = p := Except.ok.inj ((new_asV6 (hext q hmem)).symm.trans hnew)
      exact Or.inl ⟨rfl, Or.inr hmem⟩
    · have hfam' : q.addr.isIpv4 = false := by simpa using hfam
      obtain rfl : q = p := Except.ok.inj ((new_asV6 hfam').symm.trans hnew)
      exact Or.inr ⟨rfl, (hkey _ q).mpr ⟨m, hq⟩, hfam'⟩
  · simp only [v6Reaches, List.mem_append, List.mem_map, List.mem_filter]
    rintro (⟨rfl, hp | hp⟩ | ⟨rfl, hp, hfam⟩)
    · exact ⟨_, Or.inl (Or.inl ⟨p, hp, rfl⟩), new_asV6 (s.native.v6Reach_isIpv6 p hp), rfl⟩
    · obtain ⟨m, hm⟩ := (hkey _ p).mp hp
      exact ⟨_, Or.inl (Or.inr ⟨(p, m), hm, rfl⟩), new_asV6 (hext p hp), rfl⟩
    · obtain ⟨m, hm⟩ := (hkey _ p).mp hp
      exact ⟨_, Or.inr ⟨(p, m), ⟨hm, by simpa using hfam⟩, rfl⟩, new_asV6 hfam, rfl⟩

/-- The own LSP lists what this router originates with the bit clear, and what it leaks with the bit set at Level 1
only. -/
theorem lists_ownLsp {level : IsLevel} {seq : UInt32} {p : Prefix} {upDown : Bool} :
    Lists (s.buildOurLsp level seq).tlvs p upDown ↔
      upDown = false ∧ (s.native.connected p ∨ s.native.redistributed p) ∨
        upDown = decide (level = .l1) ∧ p ∈ s.leaked level := by
  rw [lists_ownLsp_iff, exists_v4Reaches_iff, exists_v6Reaches_iff, Native.connected, Native.redistributed]
  cases hfam : p.addr.isIpv4
  · simp only [Bool.false_eq_true, and_false, and_true, or_false]
    tauto
  · simp only [Bool.true_eq_false, and_false, and_true, or_false]
    tauto

/-! ### Leaks and the up/down bit -/

/-- All that goes up is advertised within the area with the bit clear. -/
def UpIsClear (s : Isis) : Prop :=
  ∀ p ∈ s.runSpfAndAnnounce.leakedIntoL2, Drawn (s.dbs.get .l1) s.rootNode false p

/-- All that goes down has a Level 2 route, and the own Level 1 LSP lists it with the bit set. -/
def DownIsSet (s : Isis) : Prop :=
  ∀ p ∈ s.runSpfAndAnnounce.leakedIntoL1,
    (∃ r ∈ (compute (s.dbs.get .l2) s.cfg.systemId .l2).routes, r.pfx = p) ∧
      ∀ seq upDown, Lists (s.runSpfAndAnnounce.buildOurLsp .l1 seq).tlvs p upDown ↔ upDown = true

theorem downIsSet (h : s.cfg.level = .l1l2) : s.DownIsSet := by
  obtain ⟨-, hinto1, hnative⟩ := s.leaked_runSpfAndAnnounce h
  intro p hp
  have hcand : p ∈ s.leakCandidates (compute (s.dbs.get .l2) s.cfg.systemId .l2).routes := by
    rw [hinto1] at hp
    split_ifs at hp
    · exact hp
    · simp at hp
  obtain ⟨hroute, hconnected, hredistributed⟩ := s.mem_leakCandidates.mp hcand
  refine ⟨hroute, ?_⟩
  intro seq upDown
  have hleaked : p ∈ s.runSpfAndAnnounce.leaked .l1 := hp
  rw [lists_ownLsp, hnative]
  simp [hconnected, hredistributed, hleaked]

/-- A router of both levels respects the up/down bit exactly if no prefix of others comes to it with the bit set, or as
the default route of an attached node, that is not also advertised to it with the bit clear. -/
theorem leaks_respect_upDown_iff (s : Isis) (h : s.cfg.level = .l1l2) :
    s.UpIsClear ∧ s.DownIsSet ↔
      ∀ p, ¬ s.native.connected p → ¬ s.native.redistributed p →
        Drawn (s.dbs.get .l1) s.rootNode true p ∨ DrawnDefault (s.dbs.get .l1) s.rootNode p →
          Drawn (s.dbs.get .l1) s.rootNode false p := by
  constructor
  · rintro ⟨hup, -⟩ p hconnected hredistributed hdrawn
    exact hup p ((s.mem_leakedIntoL2_iff h p).mpr ⟨Or.inr hdrawn, hconnected, hredistributed⟩)
  · intro hclear
    refine ⟨?_, downIsSet h⟩
    intro p hp
    obtain ⟨hdrawn, hconnected, hredistributed⟩ := (s.mem_leakedIntoL2_iff h p).mp hp
    rcases hdrawn with hfalse | htrue
    · exact hfalse
    · exact hclear p hconnected hredistributed htrue

/-- A router with one neighbour at Level 1 that advertises a network with this up/down bit. -/
def besideOne (upDown : Bool) : Isis :=
  { fresh 7 [] with
    dbs :=
      ⟨(Lsdb.new.put ⟨.l1, 1200, ⟨7, 0, 0⟩, 1, 0, false, 0, false, .l2, [.extendedIsReachability [⟨⟨8, 0⟩, 10, []⟩]]⟩).put
        ⟨.l1, 1200, ⟨8, 0, 0⟩, 1, 0, false, 0, false, .l2,
          [.extendedIsReachability [⟨⟨7, 0⟩, 10, []⟩], .extendedIpReachability [⟨10, upDown, 8, 0x0a000000, none⟩]]⟩,
        Lsdb.new⟩ }

theorem eq_of_advertises_besideOne {upDown b : Bool} {u : NodeId} {p : Prefix} {m : UInt32}
    (h : AdvertisesPrefix ((besideOne upDown).dbs.get .l1) u p b m) : b = upDown := by
  obtain ⟨l, ⟨hget, -, -⟩, hlists⟩ := h
  have hheld : l = ⟨.l1, 1200, ⟨8, 0, 0⟩, 1, 0, false, 0, false, .l2,
      [.extendedIsReachability [⟨⟨7, 0⟩, 10, []⟩], .extendedIpReachability [⟨10, upDown, 8, 0x0a000000, none⟩]]⟩ ∨
      l = ⟨.l1, 1200, ⟨7, 0, 0⟩, 1, 0, false, 0, false, .l2, [.extendedIsReachability [⟨⟨8, 0⟩, 10, []⟩]]⟩ := by
    change Lsdb.get (Lsdb.put (Lsdb.put Lsdb.new _) _) _ = _ at hget
    rw [Lsdb.get_put, Lsdb.get_put, Lsdb.get_new] at hget
    split_ifs at hget
    · exact Or.inl (Option.some.inj hget).symm
    · exact Or.inr (Option.some.inj hget).symm
  rcases hheld with rfl | rfl
  · rcases hlists with ⟨rs, hrs, r, hr, -, hb, -⟩ | ⟨rs, hrs, -⟩
    · simp only [List.mem_cons, reduceCtorEq, List.not_mem_nil, or_false, false_or, Tlv.extendedIpReachability.injEq]
        at hrs
      rw [hrs, List.mem_singleton] at hr
      rw [← hb, hr]
    · simp at hrs
  · rcases hlists with ⟨rs, hrs, -⟩ | ⟨rs, hrs, -⟩
    · simp at hrs
    · simp at hrs

theorem leaks_respect_upDown_iff_clear : (besideOne false).UpIsClear ∧ (besideOne false).DownIsSet := by
  refine (leaks_respect_upDown_iff (besideOne false) rfl).mpr ?_
  rintro p - - (⟨u, d, m, -, hadv⟩ | ⟨u, d, -, -, ⟨l, ⟨hget, -, -⟩, -, hatt⟩, -⟩)
  · exact absurd (eq_of_advertises_besideOne hadv) (by simp)
  · change Lsdb.get (Lsdb.put (Lsdb.put Lsdb.new _) _) _ = _ at hget
    rw [Lsdb.get_put, Lsdb.get_put, Lsdb.get_new] at hget
    split_ifs at hget
    all_goals
      obtain rfl := (Option.some.inj hget).symm
      exact absurd rfl hatt

theorem not_leaks_respect_upDown : ¬ ∀ s : Isis, s.cfg.level = .l1l2 → s.UpIsClear ∧ s.DownIsSet := by
  intro h
  have hleaked : Sample.net ∈ (besideOne true).runSpfAndAnnounce.leakedIntoL2 := by
    rw [((besideOne true).leaked_runSpfAndAnnounce rfl).1]
    decide +kernel
  obtain ⟨u, d, m, -, hadv⟩ := (h (besideOne true) rfl).1 Sample.net hleaked
  exact absurd (eq_of_advertises_besideOne hadv) (by simp)

end Isis
end Wren.Daemon
