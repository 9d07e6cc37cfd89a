import Wren.Lib.Reduce
import Wren.Ospf.Lsa

/-! The interface state machine of OSPFv2 and the election of the Designated Router on a
multi-access network. -/

namespace Wren.Ospf
open Reduce

inductive InterfaceType where
  | pointToPoint
  | broadcast
  | nbma
  | pointToMultipoint
  | virtual
deriving DecidableEq

def InterfaceType.electsDr : InterfaceType → Bool
  | broadcast | nbma => true
  | _ => false

inductive InterfaceState where
  | down
  | loopback
  | waiting
  | pointToPoint
  | drOther
  | backup
  | dr
deriving DecidableEq

inductive InterfaceEvent where
  | interfaceUp
  | waitTimer
  | backupSeen
  | neighborChange
  | loopInd
  | unloopInd
  | interfaceDown
deriving DecidableEq

inductive InterfaceAction where
  | startHellos
  | startWaitTimer
  | stopWaitTimer
  | resetInterface
  | electionChanged
deriving DecidableEq

/-- One participant in the election, with the roles it advertises. `0.0.0.0` is none. -/
structure Candidate where
  routerId : Ipv4Addr
  priority : UInt8
  declaredDr : Ipv4Addr
  declaredBdr : Ipv4Addr
deriving DecidableEq

/-- Higher priority first, then the higher router ID. -/
def moreEligible (a b : Candidate) : Ordering :=
  (compare a.priority.toNat b.priority.toNat).then (compare a.routerId.toNat b.routerId.toNat)

def best (pool : List Candidate) : Ipv4Addr := ((maxBy moreEligible pool).map (·.routerId)).getD 0

/-- Eligible routers that do not declare themselves Designated Router. -/
def notDr (cands : List Candidate) : List Candidate :=
  cands.filter fun c => 0 < c.priority ∧ c.declaredDr ≠ c.routerId

def calcBdr (cands : List Candidate) : Ipv4Addr :=
  let declaringSelfBdr := (notDr cands).filter fun c => c.declaredBdr = c.routerId
  if declaringSelfBdr.isEmpty then best (notDr cands) else best declaringSelfBdr

def calcDr (cands : List Candidate) (bdr : Ipv4Addr) : Ipv4Addr :=
  let dr := best (cands.filter fun c => 0 < c.priority ∧ c.declaredDr = c.routerId)
  if dr = 0 then bdr else dr

/-- The candidates with the roles the first one named `self` declares replaced. -/
def redeclare (self dr bdr : Ipv4Addr) : List Candidate → List Candidate
  | [] => []
  | c :: cs =>
    if c.routerId = self then { c with declaredDr := dr, declaredBdr := bdr } :: cs
    else c :: redeclare self dr bdr cs

def electDrBdr (candidates : List Candidate) (selfId : Ipv4Addr) : Ipv4Addr × Ipv4Addr :=
  let bdr := calcBdr candidates
  let dr := calcDr candidates bdr
  match candidates.find? fun c => c.routerId = selfId with
  | none => (dr, bdr)
  | some me =>
    -- the second round runs only when this router's own role flipped
    if decide (me.declaredDr = selfId) ≠ decide (dr = selfId) ∨
        decide (me.declaredBdr = selfId) ≠ decide (bdr = selfId) then
      let updated := redeclare selfId dr bdr candidates
      let bdr2 := calcBdr updated
      (calcDr updated bdr2, bdr2)
    else (dr, bdr)

structure Interface where
  routerId : Ipv4Addr
  priority : UInt8
  ifaceType : InterfaceType
  state : InterfaceState
  dr : Ipv4Addr
  bdr : Ipv4Addr
deriving DecidableEq

namespace Interface

def new (routerId : Ipv4Addr) (priority : UInt8) (ifaceType : InterfaceType) : Interface :=
  { routerId, priority, ifaceType, state := .down, dr := 0, bdr := 0 }

def isDrOrBdr (i : Interface) : Bool := i.dr = i.routerId ∨ i.bdr = i.routerId

def reset (i : Interface) : Interface := { i with dr := 0, bdr := 0 }

/-- The candidate a router is in the elections of the routers that hear it. -/
def candidate (i : Interface) : Candidate :=
  { routerId := i.routerId, priority := i.priority, declaredDr := i.dr, declaredBdr := i.bdr }

def runElection (i : Interface) (neighbors : List Candidate) : Interface × Bool :=
  let (dr, bdr) := electDrBdr (neighbors ++ [i.candidate]) i.routerId
  let state : InterfaceState :=
    if dr = i.routerId then .dr else if bdr = i.routerId then .backup else .drOther
  ({ i with dr, bdr, state }, decide (dr ≠ i.dr ∨ bdr ≠ i.bdr))

def handle (i : Interface) (ev : InterfaceEvent) (neighbors : List Candidate) :
    Interface × List InterfaceAction :=
  match ev with
  | .interfaceDown => ({ i.reset with state := .down }, [.resetInterface])
  | .loopInd => ({ i.reset with state := .loopback }, [.resetInterface])
  | .unloopInd => (if i.state = .loopback then { i with state := .down } else i, [])
  | .interfaceUp =>
    if i.state ≠ .down then (i, [])
    else if i.ifaceType.electsDr then ({ i with state := .waiting }, [.startHellos, .startWaitTimer])
    else ({ i with state := .pointToPoint }, [.startHellos])
  | .waitTimer | .backupSeen =>
    if i.state = .waiting then
      let (j, changed) := i.runElection neighbors
      (j, .stopWaitTimer :: if changed then [.electionChanged] else [])
    else (i, [])
  | .neighborChange =>
    if i.state = .drOther ∨ i.state = .backup ∨ i.state = .dr then
      let (j, changed) := i.runElection neighbors
      (j, if changed then [.electionChanged] else [])
    else (i, [])

/-- Whether the router runs its election on this event. -/
def elects (i : Interface) (ev : InterfaceEvent) : Prop :=
  match ev with
  | .waitTimer | .backupSeen => i.state = .waiting
  | .neighborChange => i.state = .drOther ∨ i.state = .backup ∨ i.state = .dr
  | _ => False

end Interface

/-! ## Elections on a segment where every router starts out waiting -/

def standing (priority : UInt8) (routerId : Ipv4Addr) : ℕ ×ₗ ℕ := toLex (priority.toNat, routerId.toNat)

theorem standing_injective {p p' : UInt8} {i i' : Ipv4Addr} (h : standing p i = standing p' i') : i = i' :=
  BitVec.eq_of_toNat_eq (congrArg Prod.snd (toLex.injective h))

theorem moreEligible_eq_gt_iff (a b : Candidate) :
    moreEligible a b = .gt ↔ standing b.priority b.routerId < standing a.priority a.routerId := by
  rw [moreEligible, standing, standing, Prod.Lex.toLex_lt_toLex, Ordering.then_eq_gt, Nat.compare_eq_gt,
    Nat.compare_eq_gt, Nat.compare_eq_eq]
  omega

/-- The router of the greatest standing among those that `q` keeps, or none. -/
def highest (q : UInt8 → Ipv4Addr → Bool) (rs : List Interface) : Ipv4Addr :=
  (((rs.filter fun r => q r.priority r.routerId).argmax fun r => standing r.priority r.routerId).map
    (·.routerId)).getD 0

/-- The eligible router of the greatest standing on a segment. -/
def designated (rs : List Interface) : Ipv4Addr := highest (fun p _ => 0 < p) rs

/-- The next eligible router after the one that ranks first. -/
def successor (rs : List Interface) : Ipv4Addr := highest (fun p id => 0 < p ∧ id ≠ designated rs) rs

/-- Both lists are about the same routers, at the same priorities. -/
def SameRouters (cs : List Candidate) (rs : List Interface) : Prop :=
  ∀ p id, (∃ c ∈ cs, c.priority = p ∧ c.routerId = id) ↔ ∃ r ∈ rs, r.priority = p ∧ r.routerId = id

theorem best_nil : best [] = 0 := rfl

theorem best_mem {pool : List Candidate} (h : pool ≠ []) :
    ∃ c ∈ pool, best pool = c.routerId ∧
      ∀ d ∈ pool, standing d.priority d.routerId ≤ standing c.priority c.routerId := by
  cases hm : maxBy moreEligible pool with
  | none => exact absurd (maxBy_eq_none_iff.mp hm) h
  | some c =>
    obtain ⟨hmem, hle⟩ := highest_of_maxBy moreEligible_eq_gt_iff hm
    exact ⟨c, hmem, by rw [best, hm]; rfl, hle⟩

theorem best_eq_of_forall {pool : List Candidate} {id : Ipv4Addr} (h : pool ≠ [])
    (hall : ∀ c ∈ pool, c.routerId = id) : best pool = id := by
  obtain ⟨c, hc, hbest, -⟩ := best_mem h
  rw [hbest, hall c hc]

theorem highest_spec (q : UInt8 → Ipv4Addr → Bool) (rs : List Interface) :
    ((∀ r ∈ rs, q r.priority r.routerId = false) ∧ highest q rs = 0) ∨
      ∃ r ∈ rs, q r.priority r.routerId = true ∧ highest q rs = r.routerId ∧
        ∀ s ∈ rs, q s.priority s.routerId = true →
          standing s.priority s.routerId ≤ standing r.priority r.routerId := by
  cases hm : (rs.filter fun r => q r.priority r.routerId).argmax fun r => standing r.priority r.routerId with
  | none =>
    left
    have hnil := List.argmax_eq_none.mp hm
    refine ⟨?_, by rw [highest, hm]; rfl⟩
    intro r hr
    simpa using List.filter_eq_nil_iff.mp hnil r hr
  | some r =>
    right
    have hr := List.mem_filter.mp (List.argmax_mem hm)
    refine ⟨r, hr.1, hr.2, by rw [highest, hm]; rfl, ?_⟩
    intro s hs hq
    exact List.le_of_mem_argmax (List.mem_filter.mpr ⟨hs, hq⟩) hm

theorem best_filter {cs : List Candidate} {rs : List Interface} (h : SameRouters cs rs)
    (q : UInt8 → Ipv4Addr → Bool) : best (cs.filter fun c => q c.priority c.routerId) = highest q rs := by
  rcases highest_spec q rs with ⟨hnone, hzero⟩ | ⟨r, hr, hq, hid, hle⟩
  · have hnil : cs.filter (fun c => q c.priority c.routerId) = [] := by
      rw [List.filter_eq_nil_iff]
      intro c hc
      obtain ⟨s, hs, hp, hi⟩ := (h c.priority c.routerId).mp ⟨c, hc, rfl, rfl⟩
      have := hnone s hs
      rw [hp, hi] at this
      simp [this]
    rw [hnil, hzero, best_nil]
  · obtain ⟨d, hd, hdp, hdi⟩ := (h r.priority r.routerId).mpr ⟨r, hr, rfl, rfl⟩
    have hdm : d ∈ cs.filter fun c => q c.priority c.routerId :=
      List.mem_filter.mpr ⟨hd, by rw [hdp, hdi]; exact hq⟩
    obtain ⟨c, hc, hbest, hmax⟩ := best_mem (List.ne_nil_of_mem hdm)
    obtain ⟨hcm, hcq⟩ := List.mem_filter.mp hc
    obtain ⟨s, hs, hsp, hsi⟩ := (h c.priority c.routerId).mp ⟨c, hcm, rfl, rfl⟩
    -- both maxima are maxima of the same standings
    have hle' : standing c.priority c.routerId ≤ standing r.priority r.routerId := by
      have := hle s hs (by rw [hsp, hsi]; exact hcq)
      rwa [hsp, hsi] at this
    have hge : standing r.priority r.routerId ≤ standing c.priority c.routerId := by
      have := hmax d hdm
      rwa [hdp, hdi] at this
    rw [hbest, hid]
    exact standing_injective (le_antisymm hle' hge)

theorem mem_redeclare {self dr bdr : Ipv4Addr} {cs : List Candidate}
    (hnd : (cs.map (·.routerId)).Nodup) {c : Candidate} :
    c ∈ redeclare self dr bdr cs ↔ (c ∈ cs ∧ c.routerId ≠ self) ∨
      ∃ d ∈ cs, d.routerId = self ∧ c = { d with declaredDr := dr, declaredBdr := bdr } := by
  induction cs with
  | nil => simp [redeclare]
  | cons d ds ih =>
    rw [List.map_cons, List.nodup_cons] at hnd
    by_cases hd : d.routerId = self
    · -- no later candidate has the same name
      have hother : ∀ e ∈ ds, e.routerId ≠ self := by
        intro e he heq
        exact hnd.1 (List.mem_map.mpr ⟨e, he, heq.trans hd.symm⟩)
      rw [redeclare, if_pos hd]
      constructor
      · intro h
        rcases List.mem_cons.mp h with rfl | h
        · exact Or.inr ⟨d, by simp, hd, rfl⟩
        · exact Or.inl ⟨by simp [h], hother c h⟩
      · rintro (⟨h, hne⟩ | ⟨e, he, hself, rfl⟩)
        · rcases List.mem_cons.mp h with rfl | h
          · exact absurd hd hne
          · simp [h]
        · rcases List.mem_cons.mp he with rfl | he
          · simp
          · exact absurd hself (hother e he)
    · rw [redeclare, if_neg hd, List.mem_cons, ih hnd.2]
      constructor
      · rintro (rfl | ⟨h, hne⟩ | ⟨e, he, hself, rfl⟩)
        · exact Or.inl ⟨by simp, hd⟩
        · exact Or.inl ⟨by simp [h], hne⟩
        · exact Or.inr ⟨e, by simp [he], hself, rfl⟩
      · rintro (⟨h, hne⟩ | ⟨e, he, hself, rfl⟩)
        · rcases List.mem_cons.mp h with rfl | h
          · simp
          · exact Or.inr (Or.inl ⟨h, hne⟩)
        · rcases List.mem_cons.mp he with rfl | he
          · exact absurd hself hd
          · exact Or.inr (Or.inr ⟨e, he, hself, rfl⟩)

section Rounds
variable {cs : List Candidate} {rs : List Interface}

theorem sameRouters_redeclare (h : SameRouters cs rs) (hnd : (cs.map (·.routerId)).Nodup)
    (self dr bdr : Ipv4Addr) : SameRouters (redeclare self dr bdr cs) rs := by
  intro p id
  rw [← h p id]
  constructor
  · rintro ⟨c, hc, hp, hi⟩
    rcases (mem_redeclare hnd).mp hc with ⟨hc, -⟩ | ⟨d, hd, -, rfl⟩
    · exact ⟨c, hc, hp, hi⟩
    · exact ⟨d, hd, hp, hi⟩
  · rintro ⟨c, hc, hp, hi⟩
    by_cases hself : c.routerId = self
    · exact ⟨_, (mem_redeclare hnd).mpr (Or.inr ⟨c, hc, hself, rfl⟩), hp, hi⟩
    · exact ⟨c, (mem_redeclare hnd).mpr (Or.inl ⟨hc, hself⟩), hp, hi⟩

/-- While no router claims a role, the first in rank takes both. -/
theorem calc_unclaimed (h : SameRouters cs rs) (hdr : ∀ c ∈ cs, c.declaredDr ≠ c.routerId)
    (hbdr : ∀ c ∈ cs, c.declaredBdr ≠ c.routerId) :
    calcBdr cs = designated rs ∧ calcDr cs (designated rs) = designated rs := by
  have hnot : notDr cs = cs.filter fun c => decide (0 < c.priority) := by
    refine List.filter_congr fun c hc => ?_
    simp [hdr c hc]
  have hself : (notDr cs).filter (fun c => decide (c.declaredBdr = c.routerId)) = [] := by
    rw [List.filter_eq_nil_iff]
    intro c hc
    simpa using hbdr c (List.mem_of_mem_filter hc)
  have hnone : cs.filter (fun c => decide (0 < c.priority ∧ c.declaredDr = c.routerId)) = [] := by
    rw [List.filter_eq_nil_iff]
    intro c hc
    simp [hdr c hc]
  constructor
  · rw [calcBdr, hself, List.isEmpty_nil, if_pos rfl, hnot]
    exact best_filter h fun p _ => decide (0 < p)
  · rw [calcDr, hnone, best_nil, if_pos rfl]

/-- Once the first in rank claims the Designated Router's role, the next one is its backup. -/
theorem calc_claimed (h : SameRouters cs rs) (hne : designated rs ≠ 0)
    (hdr : ∀ c ∈ cs, c.declaredDr = c.routerId ↔ c.routerId = designated rs)
    (hbdr : ∀ c ∈ cs, c.routerId ≠ designated rs → c.declaredBdr = c.routerId →
      c.routerId = successor rs) :
    calcBdr cs = successor rs ∧ calcDr cs (successor rs) = designated rs := by
  have hnot : notDr cs = cs.filter fun c => decide (0 < c.priority ∧ c.routerId ≠ designated rs) := by
    refine List.filter_congr fun c hc => ?_
    simp [hdr c hc]
  constructor
  · rw [calcBdr]
    by_cases hself : ((notDr cs).filter fun c => decide (c.declaredBdr = c.routerId)) = []
    · rw [hself, List.isEmpty_nil, if_pos rfl, hnot]
      exact best_filter h fun p id => decide (0 < p ∧ id ≠ designated rs)
    · rw [if_neg (by simpa using hself)]
      refine best_eq_of_forall hself ?_
      intro c hc
      obtain ⟨hc, hb⟩ := List.mem_filter.mp hc
      rw [hnot] at hc
      obtain ⟨hmem, hd⟩ := List.mem_filter.mp hc
      exact hbdr c hmem (of_decide_eq_true hd).2 (of_decide_eq_true hb)
  · have hclaim : best (cs.filter fun c => decide (0 < c.priority ∧ c.declaredDr = c.routerId)) =
        designated rs := by
      rcases highest_spec (fun p _ => decide (0 < p)) rs with ⟨-, hzero⟩ | ⟨r, hr, hq, hid, -⟩
      · exact absurd hzero hne
      · obtain ⟨d, hd, hdp, hdi⟩ := (h r.priority r.routerId).mpr ⟨r, hr, rfl, rfl⟩
        have hlead : d.routerId = designated rs := hdi.trans hid.symm
        have hpos : 0 < d.priority := by rw [hdp]; exact of_decide_eq_true hq
        refine best_eq_of_forall (List.ne_nil_of_mem (a := d) ?_) ?_
        · exact List.mem_filter.mpr ⟨hd, decide_eq_true ⟨hpos, (hdr d hd).mpr hlead⟩⟩
        · intro c hc
          obtain ⟨hmem, hc⟩ := List.mem_filter.mp hc
          exact (hdr c hmem).mp (of_decide_eq_true hc).2
    rw [calcDr, hclaim, if_neg hne]

theorem unclaimed (hids : ∀ c ∈ cs, c.routerId ≠ 0)
    (hview : ∀ c ∈ cs, (c.declaredDr = 0 ∧ c.declaredBdr = 0) ∨
      (c.routerId ≠ designated rs ∧ c.declaredDr = designated rs ∧ c.declaredBdr = designated rs)) :
    (∀ c ∈ cs, c.declaredDr ≠ c.routerId) ∧ ∀ c ∈ cs, c.declaredBdr ≠ c.routerId := by
  constructor
  · intro c hc heq
    rcases hview c hc with ⟨hz, -⟩ | ⟨hne, hd, -⟩
    · exact hids c hc (heq.symm.trans hz)
    · exact hne (heq.symm.trans hd)
  · intro c hc heq
    rcases hview c hc with ⟨-, hz⟩ | ⟨hne, -, hd⟩
    · exact hids c hc (heq.symm.trans hz)
    · exact hne (heq.symm.trans hd)

/-- Before the first in rank has run, everyone else sees it in both roles. -/
theorem electDrBdr_early (h : SameRouters cs rs) (hids : ∀ c ∈ cs, c.routerId ≠ 0)
    (hview : ∀ c ∈ cs, (c.declaredDr = 0 ∧ c.declaredBdr = 0) ∨
      (c.routerId ≠ designated rs ∧ c.declaredDr = designated rs ∧ c.declaredBdr = designated rs))
    {self : Ipv4Addr} (hself : self ≠ designated rs) :
    electDrBdr cs self = (designated rs, designated rs) := by
  obtain ⟨hdr, hbdr⟩ := unclaimed hids hview
  obtain ⟨hcb, hcd⟩ := calc_unclaimed h hdr hbdr
  rw [electDrBdr, hcb, hcd]
  cases hme : cs.find? fun c => decide (c.routerId = self) with
  | none => rfl
  | some me =>
    have hmem := List.mem_of_find?_eq_some hme
    have hid : me.routerId = self := by simpa using List.find?_some hme
    have h1 : me.declaredDr ≠ self := hid ▸ hdr me hmem
    have h2 : me.declaredBdr ≠ self := hid ▸ hbdr me hmem
    simp [h1, h2, hself.symm]

/-- The first in rank takes one role itself and leaves the other to the next one. -/
theorem electDrBdr_first (h : SameRouters cs rs) (hnd : (cs.map (·.routerId)).Nodup)
    (hids : ∀ c ∈ cs, c.routerId ≠ 0)
    (hview : ∀ c ∈ cs, (c.declaredDr = 0 ∧ c.declaredBdr = 0) ∨
      (c.routerId ≠ designated rs ∧ c.declaredDr = designated rs ∧ c.declaredBdr = designated rs))
    (hmem : ∃ c ∈ cs, c.routerId = designated rs) :
    electDrBdr cs (designated rs) = (designated rs, successor rs) := by
  obtain ⟨hdr, hbdr⟩ := unclaimed hids hview
  have hne : designated rs ≠ 0 := by
    obtain ⟨c, hc, hid⟩ := hmem
    exact hid ▸ hids c hc
  obtain ⟨hcb, hcd⟩ := calc_unclaimed h hdr hbdr
  have hupdated := calc_claimed (sameRouters_redeclare h hnd (designated rs) (designated rs) (designated rs)) hne
    (by
      intro c hc
      rcases (mem_redeclare hnd).mp hc with ⟨hc, hother⟩ | ⟨d, -, hself, rfl⟩
      · exact ⟨fun heq => absurd heq (hdr c hc), fun heq => absurd heq hother⟩
      · exact ⟨fun _ => hself, fun _ => hself.symm⟩)
    (by
      intro c hc hother heq
      rcases (mem_redeclare hnd).mp hc with ⟨hc, -⟩ | ⟨d, -, hself, rfl⟩
      · exact absurd heq (hbdr c hc)
      · exact absurd hself hother)
  rw [electDrBdr, hcb, hcd]
  cases hme : cs.find? fun c => decide (c.routerId = designated rs) with
  | none =>
    obtain ⟨c, hc, hid⟩ := hmem
    have := List.find?_eq_none.mp hme c hc
    simp [hid] at this
  | some me =>
    have hin := List.mem_of_find?_eq_some hme
    have hid : me.routerId = designated rs := by simpa using List.find?_some hme
    have hflip : me.declaredDr ≠ designated rs := hid ▸ hdr me hin
    simp [hflip, hupdated.1, hupdated.2]

/-- After the first in rank has run, every election ends as its own did. -/
theorem electDrBdr_late (h : SameRouters cs rs) (hnd : (cs.map (·.routerId)).Nodup)
    (hids : ∀ c ∈ cs, c.routerId ≠ 0) (hne : designated rs ≠ 0)
    (hview : ∀ c ∈ cs, (c.routerId ≠ designated rs ∧ c.declaredDr = 0 ∧ c.declaredBdr = 0) ∨
      (c.routerId ≠ designated rs ∧ c.declaredDr = designated rs ∧ c.declaredBdr = designated rs) ∨
      (c.declaredDr = designated rs ∧ c.declaredBdr = successor rs)) (self : Ipv4Addr) :
    electDrBdr cs self = (designated rs, successor rs) := by
  have hdr : ∀ c ∈ cs, c.declaredDr = c.routerId ↔ c.routerId = designated rs := by
    intro c hc
    rcases hview c hc with ⟨hother, hz, -⟩ | ⟨hother, hd, -⟩ | ⟨hd, -⟩
    · exact ⟨fun heq => absurd (heq.symm.trans hz) (hids c hc), fun heq => absurd heq hother⟩
    · exact ⟨fun heq => heq.symm.trans hd, fun heq => absurd heq hother⟩
    · exact ⟨fun heq => heq.symm.trans hd, fun heq => hd.trans heq.symm⟩
  have hbdr : ∀ c ∈ cs, c.routerId ≠ designated rs → c.declaredBdr = c.routerId →
      c.routerId = successor rs := by
    intro c hc hother heq
    rcases hview c hc with ⟨-, -, hz⟩ | ⟨-, -, hd⟩ | ⟨-, hd⟩
    · exact absurd (heq.symm.trans hz) (hids c hc)
    · exact absurd (heq.symm.trans hd) hother
    · exact heq.symm.trans hd
  obtain ⟨hcb, hcd⟩ := calc_claimed h hne hdr hbdr
  -- declaring what was just computed changes neither premise
  obtain ⟨hcb', hcd'⟩ := calc_claimed
    (sameRouters_redeclare h hnd self (designated rs) (successor rs)) hne
    (by
      intro c hc
      rcases (mem_redeclare hnd).mp hc with ⟨hc, -⟩ | ⟨d, -, -, rfl⟩
      · exact hdr c hc
      · exact eq_comm)
    (by
      intro c hc hother heq
      rcases (mem_redeclare hnd).mp hc with ⟨hc, -⟩ | ⟨d, -, -, rfl⟩
      · exact hbdr c hc hother heq
      · exact heq.symm)
  rw [electDrBdr, hcb, hcd]
  cases cs.find? fun c => decide (c.routerId = self) with
  | none => rfl
  | some me =>
    dsimp only
    split_ifs
    · rw [hcb', hcd']
    · rfl

end Rounds

/-! ## Runs -/

theorem successor_ne {rs : List Interface} (h : designated rs ≠ 0) : successor rs ≠ designated rs := by
  rcases highest_spec (fun p id => decide (0 < p ∧ id ≠ designated rs)) rs with ⟨-, hz⟩ | ⟨r, -, hq, hid, -⟩
  · exact fun heq => h (heq.symm.trans hz)
  · intro heq
    exact (of_decide_eq_true hq).2 (hid.symm.trans heq)

/-- Router `i` handles an event, with the others as they are now for its neighbours, in any order. -/
inductive Turn (rs : List Interface) (i : ℕ) (ev : InterfaceEvent) : List Interface → Prop
  | handle {r : Interface} {ns : List Candidate} (hr : rs[i]? = some r)
      (hns : ns.Perm ((rs.eraseIdx i).map Interface.candidate)) : Turn rs i ev (rs.set i (r.handle ev ns).1)

def Step (rs rs' : List Interface) : Prop :=
  ∃ i ev, (ev = .waitTimer ∨ ev = .neighborChange) ∧ Turn rs i ev rs'

/-- Every router waits, knows no Designated Router, and has a name of its own. -/
structure Fresh (rs : List Interface) : Prop where
  waiting : ∀ r ∈ rs, r.state = .waiting ∧ r.dr = 0 ∧ r.bdr = 0
  named : ∀ r ∈ rs, r.routerId ≠ 0
  nodup : (rs.map (·.routerId)).Nodup

namespace Interface

def Early (first : Ipv4Addr) (r : Interface) : Prop :=
  r.routerId ≠ first ∧ r.state = .drOther ∧ r.dr = first ∧ r.bdr = first

def Final (first second : Ipv4Addr) (r : Interface) : Prop :=
  first ≠ 0 ∧ r.dr = first ∧ r.bdr = second ∧
    r.state = if first = r.routerId then .dr else if second = r.routerId then .backup else .drOther

theorem Final.state_ne_waiting {first second : Ipv4Addr} {r : Interface} (h : r.Final first second) :
    r.state ≠ .waiting := by
  rw [h.2.2.2]
  split_ifs <;> simp

theorem handle_of_not_elects {r : Interface} {ev : InterfaceEvent} (hev : ev = .waitTimer ∨ ev = .neighborChange)
    (h : ¬ r.elects ev) (ns : List Candidate) : (r.handle ev ns).1 = r := by
  rcases hev with rfl | rfl
  · exact congrArg Prod.fst (if_neg h)
  · exact congrArg Prod.fst (if_neg h)

theorem handle_of_elects {r : Interface} {ev : InterfaceEvent} (hev : ev = .waitTimer ∨ ev = .neighborChange)
    (h : r.elects ev) (ns : List Candidate) : (r.handle ev ns).1 = (r.runElection ns).1 := by
  rcases hev with rfl | rfl
  · exact congrArg Prod.fst (if_pos h)
  · exact congrArg Prod.fst (if_pos h)

theorem final_runElection {first second : Ipv4Addr} {r : Interface} {ns : List Candidate} (hne : first ≠ 0)
    (h : electDrBdr (ns ++ [r.candidate]) r.routerId = (first, second)) :
    (r.runElection ns).1.Final first second := by
  rw [runElection, h]
  exact ⟨hne, rfl, rfl, rfl⟩

theorem early_runElection {first : Ipv4Addr} {r : Interface} {ns : List Candidate} (hne : r.routerId ≠ first)
    (h : electDrBdr (ns ++ [r.candidate]) r.routerId = (first, first)) :
    (r.runElection ns).1.Early first := by
  rw [runElection, h]
  refine ⟨hne, ?_, rfl, rfl⟩
  dsimp only
  rw [if_neg hne.symm, if_neg hne.symm]

end Interface

/-- Where a run from `rs₀` can be: every router waits, or holds what it must before or after the
first in rank has run. -/
structure Agreeing (rs₀ rs : List Interface) : Prop where
  routers : rs.map (fun r => (r.priority, r.routerId)) = rs₀.map fun r => (r.priority, r.routerId)
  views : ∀ r ∈ rs, (r.state = .waiting ∧ r.dr = 0 ∧ r.bdr = 0) ∨ r.Early (designated rs₀) ∨
    r.Final (designated rs₀) (successor rs₀)
  led : (∃ r ∈ rs, r.Final (designated rs₀) (successor rs₀)) →
    ∃ r ∈ rs, r.routerId = designated rs₀ ∧ r.Final (designated rs₀) (successor rs₀)

namespace Agreeing
variable {rs₀ rs rs' : List Interface}

theorem start (h : Fresh rs₀) : Agreeing rs₀ rs₀ where
  routers := rfl
  views r hr := Or.inl (h.waiting r hr)
  led := by
    rintro ⟨r, hr, hfinal⟩
    exact absurd (h.waiting r hr).1 hfinal.state_ne_waiting

theorem ids_eq (h : Agreeing rs₀ rs) : rs.map (·.routerId) = rs₀.map (·.routerId) := by
  have hsnd := congrArg (List.map Prod.snd) h.routers
  rw [List.map_map, List.map_map] at hsnd
  exact hsnd

/-- The candidates of one router's election are the routers of the segment. -/
theorem sameRouters (h : Agreeing rs₀ rs) {cs : List Candidate} (hcs : cs.Perm (rs.map Interface.candidate)) :
    SameRouters cs rs₀ := by
  intro p id
  have hpair : (p, id) ∈ rs.map (fun r => (r.priority, r.routerId)) ↔
      (p, id) ∈ rs₀.map fun r => (r.priority, r.routerId) := by rw [h.routers]
  simp only [List.mem_map, Prod.mk.injEq] at hpair
  rw [← hpair]
  constructor
  · rintro ⟨c, hc, hp, hi⟩
    obtain ⟨r, hr, rfl⟩ := List.mem_map.mp (hcs.mem_iff.mp hc)
    exact ⟨r, hr, hp, hi⟩
  · rintro ⟨r, hr, hp, hi⟩
    exact ⟨r.candidate, hcs.mem_iff.mpr (List.mem_map.mpr ⟨r, hr, rfl⟩), hp, hi⟩

theorem named (hf : Fresh rs₀) (h : Agreeing rs₀ rs) {r : Interface} (hr : r ∈ rs) : r.routerId ≠ 0 := by
  have hid : r.routerId ∈ rs₀.map (·.routerId) := by
    rw [← h.ids_eq]
    exact List.mem_map.mpr ⟨r, hr, rfl⟩
  obtain ⟨s, hs, hsid⟩ := List.mem_map.mp hid
  exact hsid ▸ hf.named s hs

theorem eq_of_routerId (hf : Fresh rs₀) (h : Agreeing rs₀ rs) {r s : Interface} (hr : r ∈ rs) (hs : s ∈ rs)
    (heq : r.routerId = s.routerId) : r = s := by
  have hnd : (rs.map (·.routerId)).Nodup := by
    rw [h.ids_eq]
    exact hf.nodup
  exact List.inj_on_of_nodup_map hnd hr hs heq

/-- What one election gives, before and after the first in rank has run. -/
theorem runElection_cases (hf : Fresh rs₀) (h : Agreeing rs₀ rs) {i : ℕ} {r : Interface} (hr : rs[i]? = some r)
    {ns : List Candidate} (hns : ns.Perm ((rs.eraseIdx i).map Interface.candidate)) :
    (r.runElection ns).1.Final (designated rs₀) (successor rs₀) ∧
        ((∃ s ∈ rs, s.routerId = designated rs₀ ∧ s.Final (designated rs₀) (successor rs₀)) ∨
          r.routerId = designated rs₀) ∨
      (r.runElection ns).1.Early (designated rs₀) ∧
        ¬ (∃ s ∈ rs, s.routerId = designated rs₀ ∧ s.Final (designated rs₀) (successor rs₀)) := by
  obtain ⟨hi, hri⟩ := List.getElem?_eq_some_iff.mp hr
  have hrm : r ∈ rs := List.mem_of_getElem? hr
  have hcs : (ns ++ [r.candidate]).Perm (rs.map Interface.candidate) := by
    have hperm : (r :: rs.eraseIdx i).Perm rs := by
      rw [← hri]
      exact List.getElem_cons_eraseIdx_perm hi
    have hmap := hperm.map Interface.candidate
    exact ((hns.append_right _).trans (List.perm_append_singleton _ _)).trans hmap
  have hsame := h.sameRouters hcs
  have hmem : ∀ c ∈ ns ++ [r.candidate], ∃ s ∈ rs, s.candidate = c := by
    intro c hc
    obtain ⟨s, hs, hsc⟩ := List.mem_map.mp (hcs.mem_iff.mp hc)
    exact ⟨s, hs, hsc⟩
  have hids : ∀ c ∈ ns ++ [r.candidate], c.routerId ≠ 0 := by
    intro c hc
    obtain ⟨s, hs, rfl⟩ := hmem c hc
    exact h.named hf hs
  have hnd : ((ns ++ [r.candidate]).map (·.routerId)).Nodup := by
    have hperm := (hcs.map (·.routerId)).nodup_iff
    rw [hperm, List.map_map]
    have hids := h.ids_eq
    change (rs.map (·.routerId)).Nodup
    rw [hids]
    exact hf.nodup
  by_cases hlead : ∃ s ∈ rs, s.routerId = designated rs₀ ∧ s.Final (designated rs₀) (successor rs₀)
  · obtain ⟨l, hl, hlid, hlf⟩ := hlead
    refine Or.inl ⟨Interface.final_runElection hlf.1 ?_, Or.inl ⟨l, hl, hlid, hlf⟩⟩
    refine electDrBdr_late hsame hnd hids hlf.1 ?_ r.routerId
    intro c hc
    obtain ⟨s, hs, rfl⟩ := hmem c hc
    rcases h.views s hs with ⟨hw, hd, hb⟩ | ⟨hne, -, hd, hb⟩ | ⟨-, hd, hb, -⟩
    · refine Or.inl ⟨fun heq => ?_, hd, hb⟩
      have hsl : s = l := h.eq_of_routerId hf hs hl (heq.trans hlid.symm)
      exact hlf.state_ne_waiting (hsl ▸ hw)
    · exact Or.inr (Or.inl ⟨hne, hd, hb⟩)
    · exact Or.inr (Or.inr ⟨hd, hb⟩)
  · -- no view is final yet, since the first in rank would hold one
    have hview : ∀ c ∈ ns ++ [r.candidate], (c.declaredDr = 0 ∧ c.declaredBdr = 0) ∨
        (c.routerId ≠ designated rs₀ ∧ c.declaredDr = designated rs₀ ∧ c.declaredBdr = designated rs₀) := by
      intro c hc
      obtain ⟨s, hs, rfl⟩ := hmem c hc
      rcases h.views s hs with ⟨-, hd, hb⟩ | ⟨hne, -, hd, hb⟩ | hfinal
      · exact Or.inl ⟨hd, hb⟩
      · exact Or.inr ⟨hne, hd, hb⟩
      · exact absurd (h.led ⟨s, hs, hfinal⟩) hlead
    by_cases hself : r.routerId = designated rs₀
    · have hne : designated rs₀ ≠ 0 := hself ▸ h.named hf hrm
      refine Or.inl ⟨Interface.final_runElection hne ?_, Or.inr hself⟩
      rw [hself]
      exact electDrBdr_first hsame hnd hids hview ⟨r.candidate, by simp, hself⟩
    · exact Or.inr ⟨Interface.early_runElection hself (electDrBdr_early hsame hids hview hself), hlead⟩

theorem set {i : ℕ} {r r' : Interface} (h : Agreeing rs₀ rs) (hr : rs[i]? = some r)
    (hid : r'.routerId = r.routerId) (hpri : r'.priority = r.priority)
    (hview : r'.Early (designated rs₀) ∧
        ¬ (∃ s ∈ rs, s.routerId = designated rs₀ ∧ s.Final (designated rs₀) (successor rs₀)) ∨
      r'.Final (designated rs₀) (successor rs₀) ∧
        ((∃ s ∈ rs, s.routerId = designated rs₀ ∧ s.Final (designated rs₀) (successor rs₀)) ∨
          r.routerId = designated rs₀)) :
    Agreeing rs₀ (rs.set i r') where
  routers := by
    rw [← h.routers, List.map_set]
    refine List.ext_getElem? fun j => ?_
    rw [List.getElem?_set]
    split_ifs with hij hlt
    · subst hij
      rw [List.getElem?_map, hr]
      simp [hid, hpri]
    · subst hij
      rw [List.getElem?_eq_none (by simpa using hlt)]
    · rfl
  views := by
    intro s hs
    rcases List.mem_or_eq_of_mem_set hs with hs | rfl
    · exact h.views s hs
    · rcases hview with ⟨hearly, -⟩ | ⟨hfinal, -⟩
      · exact Or.inr (Or.inl hearly)
      · exact Or.inr (Or.inr hfinal)
  led := by
    obtain ⟨hi, hri⟩ := List.getElem?_eq_some_iff.mp hr
    have hnew : r' ∈ rs.set i r' := List.mem_set hi r'
    rintro ⟨s, hs, hsf⟩
    rcases hview with ⟨hearly, hnone⟩ | ⟨hfinal, hlead | hself⟩
    · rcases List.mem_or_eq_of_mem_set hs with hs | rfl
      · exact absurd (h.led ⟨s, hs, hsf⟩) hnone
      · exact absurd (hsf.2.2.1.symm.trans hearly.2.2.2) (successor_ne hsf.1)
    · obtain ⟨l, hl, hlid, hlf⟩ := hlead
      by_cases hlr : l = r
      · exact ⟨r', hnew, by rw [hid, ← hlr, hlid], hfinal⟩
      · refine ⟨l, ?_, hlid, hlf⟩
        obtain ⟨j, hj⟩ := List.mem_iff_getElem?.mp hl
        refine List.mem_iff_getElem?.mpr ⟨j, ?_⟩
        rw [List.getElem?_set_ne]
        · exact hj
        · rintro rfl
          exact hlr (Option.some.inj (hj.symm.trans hr))
    · exact ⟨r', hnew, hid.trans hself, hfinal⟩

/-- A step lemma: whichever router's turn it is, the segment goes on agreeing. -/
theorem step (hf : Fresh rs₀) (h : Agreeing rs₀ rs) (hstep : Step rs rs') : Agreeing rs₀ rs' := by
  obtain ⟨i, ev, hev, ⟨hr, hns⟩⟩ := hstep
  rename_i r ns
  by_cases hel : r.elects ev
  · rw [Interface.handle_of_elects hev hel]
    refine h.set hr rfl rfl ?_
    rcases h.runElection_cases hf hr hns with hfinal | hearly
    · exact Or.inr hfinal
    · exact Or.inl hearly
  · have hsame : rs.set i r = rs := by
      obtain ⟨hi, hri⟩ := List.getElem?_eq_some_iff.mp hr
      rw [← hri]
      exact List.set_getElem_self hi
    rw [Interface.handle_of_not_elects hev hel, hsame]
    exact h

theorem run (hf : Fresh rs₀) (h : Agreeing rs₀ rs) (hrun : Relation.ReflTransGen Step rs rs') :
    Agreeing rs₀ rs' := by
  induction hrun with
  | refl => exact h
  | tail _ hstep ih => exact ih.step hf hstep

/-- Once a router holds the final view, no turn of anyone takes it away. -/
theorem final_step (hf : Fresh rs₀) (h : Agreeing rs₀ rs) (hstep : Step rs rs') {j : ℕ} {s : Interface}
    (hs : rs[j]? = some s) (hfinal : s.Final (designated rs₀) (successor rs₀)) :
    ∃ t, rs'[j]? = some t ∧ t.Final (designated rs₀) (successor rs₀) := by
  obtain ⟨i, ev, hev, ⟨hr, hns⟩⟩ := hstep
  rename_i r ns
  obtain ⟨hj, -⟩ := List.getElem?_eq_some_iff.mp hs
  by_cases hij : i = j
  · subst hij
    obtain rfl : r = s := Option.some.inj (hr.symm.trans hs)
    rw [List.getElem?_set_self hj]
    refine ⟨_, rfl, ?_⟩
    by_cases hel : r.elects ev
    · rw [Interface.handle_of_elects hev hel]
      rcases h.runElection_cases hf hr hns with ⟨hnew, -⟩ | ⟨-, hnone⟩
      · exact hnew
      · exact absurd (h.led ⟨r, List.mem_of_getElem? hr, hfinal⟩) hnone
    · rw [Interface.handle_of_not_elects hev hel]
      exact hfinal
  · rw [List.getElem?_set_ne hij]
    exact ⟨s, hs, hfinal⟩

theorem final_run (hf : Fresh rs₀) (h : Agreeing rs₀ rs) (hrun : Relation.ReflTransGen Step rs rs') {j : ℕ}
    {s : Interface} (hs : rs[j]? = some s) (hfinal : s.Final (designated rs₀) (successor rs₀)) :
    ∃ t, rs'[j]? = some t ∧ t.Final (designated rs₀) (successor rs₀) := by
  induction hrun with
  | refl => exact ⟨s, hs, hfinal⟩
  | @tail mid last hmid hstep ih =>
    obtain ⟨t, ht, htf⟩ := ih
    exact (h.run hf hmid).final_step hf hstep ht htf

end Agreeing

/-- The Designated Router's election agrees on a fresh segment, whoever runs it and when. -/
theorem election_agreement {rs₀ rs : List Interface} (hfresh : Fresh rs₀)
    (hrun : Relation.ReflTransGen Step rs₀ rs) :
    (∀ r ∈ rs,
      ((r.dr, r.bdr) = (0, 0) ∨ (r.dr, r.bdr) = (designated rs₀, designated rs₀) ∨
        (r.dr, r.bdr) = (designated rs₀, successor rs₀)) ∧
      (r.routerId = designated rs₀ → (r.dr, r.bdr) ≠ (designated rs₀, designated rs₀)) ∧
      (r.state = .dr → r.routerId = designated rs₀) ∧
      (r.state = .backup → r.routerId = successor rs₀)) ∧
    ∀ i ev r rs' ts, (∃ h ∈ rs, h.routerId = designated rs₀ ∧ h.state ≠ .waiting) →
      (ev = .waitTimer ∨ ev = .neighborChange) → rs[i]? = some r → r.elects ev → Turn rs i ev rs' →
      Relation.ReflTransGen Step rs' ts →
      ∃ t, ts[i]? = some t ∧ t.routerId = r.routerId ∧ (t.dr, t.bdr) = (designated rs₀, successor rs₀) := by
  have h := (Agreeing.start hfresh).run hfresh hrun
  constructor
  · intro r hr
    have hid := h.named hfresh hr
    rcases h.views r hr with ⟨hw, hd, hb⟩ | ⟨hne, hst, hd, hb⟩ | ⟨hne, hd, hb, hst⟩
    · refine ⟨Or.inl (by rw [hd, hb]), ?_, by rw [hw]; simp, by rw [hw]; simp⟩
      intro hself heq
      exact hid (hself.trans ((congrArg Prod.fst heq).symm.trans hd))
    · exact ⟨Or.inr (Or.inl (by rw [hd, hb])), fun hself => absurd hself hne, by rw [hst]; simp, by rw [hst]; simp⟩
    · refine ⟨Or.inr (Or.inr (by rw [hd, hb])), ?_, ?_, ?_⟩
      · intro _ heq
        exact successor_ne hne (hb.symm.trans (congrArg Prod.snd heq))
      · intro hdr
        rw [hst] at hdr
        split_ifs at hdr with hself
        exact hself.symm
      · intro hbackup
        rw [hst] at hbackup
        split_ifs at hbackup with hself hnext
        exact hnext.symm
  · intro i ev r rs' ts hran hev hr hel hturn hts
    obtain ⟨l, hl, hlid, hlst⟩ := hran
    -- the first in rank has run, so its own view is final
    have hlf : l.Final (designated rs₀) (successor rs₀) := by
      rcases h.views l hl with ⟨hw, -, -⟩ | ⟨hne, -⟩ | hfinal
      · exact absurd hw hlst
      · exact absurd hlid hne
      · exact hfinal
    have h' : Agreeing rs₀ rs' := h.step hfresh ⟨i, ev, hev, hturn⟩
    have hnew : ∃ t, rs'[i]? = some t ∧ t.Final (designated rs₀) (successor rs₀) := by
      obtain ⟨hr', hns⟩ := hturn
      rename_i r' ns
      obtain rfl : r' = r := Option.some.inj (hr'.symm.trans hr)
      obtain ⟨hi, -⟩ := List.getElem?_eq_some_iff.mp hr
      rw [List.getElem?_set_self hi, Interface.handle_of_elects hev hel]
      rcases h.runElection_cases hfresh hr hns with ⟨hnew, -⟩ | ⟨-, hnone⟩
      · exact ⟨_, rfl, hnew⟩
      · exact absurd ⟨l, hl, hlid, hlf⟩ hnone
    obtain ⟨s, hs, hsf⟩ := hnew
    obtain ⟨t, ht, htf⟩ := h'.final_run hfresh hts hs hsf
    refine ⟨t, ht, ?_, by rw [htf.2.1, htf.2.2.1]⟩
    have hids : ts.map (·.routerId) = rs.map (·.routerId) := by
      rw [(h'.run hfresh hts).ids_eq, h.ids_eq]
    have hidx := congrArg (fun l : List Ipv4Addr => l[i]?) hids
    simp only [List.getElem?_map, ht, hr, Option.map_some, Option.some.injEq] at hidx
    exact hidx

def pairOfRouters : List Interface :=
  [{ Interface.new 1 1 .broadcast with state := .waiting }, { Interface.new 2 1 .broadcast with state := .waiting }]

theorem fresh_pairOfRouters : Fresh pairOfRouters :=
  ⟨by decide, by decide, by decide⟩

theorem election_agreement_pairOfRouters :
    ∃ rs, Relation.ReflTransGen Step pairOfRouters rs ∧ rs ≠ pairOfRouters ∧
      ∀ r ∈ rs, r.state = .dr → r.routerId = designated pairOfRouters := by
  have hturn := @Turn.handle pairOfRouters 0 .waitTimer _ _ rfl (List.Perm.refl _)
  have hstep : Step pairOfRouters _ := ⟨0, .waitTimer, Or.inl rfl, hturn⟩
  have hrun := Relation.ReflTransGen.single hstep
  refine ⟨_, hrun, by decide +kernel, ?_⟩
  intro r hr
  exact ((election_agreement fresh_pairOfRouters hrun).1 r hr).2.2.1

end Wren.Ospf
