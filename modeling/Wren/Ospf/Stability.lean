import Wren.Ospf.Election

/-! One election beside the next: what a router's own view can change in the Designated Router's
election, and that a second election over the same neighbours changes nothing. -/

namespace Wren.Ospf

/-- The neighbours of a router, under names of their own. -/
structure Named (own : Ipv4Addr) (ns : List Candidate) : Prop where
  nodup : (ns.map (·.routerId)).Nodup
  ne_zero : ∀ n ∈ ns, n.routerId ≠ 0
  ne_self : ∀ n ∈ ns, n.routerId ≠ own

theorem Named.perm {own : Ipv4Addr} {ns ns' : List Candidate} (h : Named own ns) (hp : ns.Perm ns') :
    Named own ns' where
  nodup := (hp.map _).nodup_iff.mp h.nodup
  ne_zero := fun n hn => h.ne_zero n (hp.mem_iff.mpr hn)
  ne_self := fun n hn => h.ne_self n (hp.mem_iff.mpr hn)

/-! ## The best of a pool -/

section Best
variable {pool pool' : List Candidate} {me : Candidate}

/-- Only names and priorities count, not the order or the views. -/
theorem best_congr (h : ∀ p id, (∃ c ∈ pool, c.priority = p ∧ c.routerId = id) ↔
    ∃ c ∈ pool', c.priority = p ∧ c.routerId = id) : best pool = best pool' := by
  by_cases hnil : pool = []
  · subst hnil
    have hnil' : pool' = [] := by
      refine List.eq_nil_iff_forall_not_mem.mpr fun c hc => ?_
      obtain ⟨d, hd, -⟩ := (h c.priority c.routerId).mpr ⟨c, hc, rfl, rfl⟩
      cases hd
    rw [hnil']
  · obtain ⟨c, hc, hbest, hmax⟩ := best_mem hnil
    obtain ⟨d, hd, hdp, hdi⟩ := (h c.priority c.routerId).mp ⟨c, hc, rfl, rfl⟩
    obtain ⟨c', hc', hbest', hmax'⟩ := best_mem (List.ne_nil_of_mem hd)
    obtain ⟨d', hd', hdp', hdi'⟩ := (h c'.priority c'.routerId).mpr ⟨c', hc', rfl, rfl⟩
    have hle : standing c.priority c.routerId ≤ standing c'.priority c'.routerId := by
      have := hmax' d hd
      rwa [hdp, hdi] at this
    have hge : standing c'.priority c'.routerId ≤ standing c.priority c.routerId := by
      have := hmax d' hd'
      rwa [hdp', hdi'] at this
    rw [hbest, hbest']
    exact standing_injective (le_antisymm hle hge)

theorem best_perm (h : pool.Perm pool') : best pool = best pool' :=
  best_congr fun _ _ => by simp only [h.mem_iff]

theorem best_ne_zero (h : ∀ c ∈ pool, c.routerId ≠ 0) (hne : pool ≠ []) : best pool ≠ 0 := by
  obtain ⟨c, hc, hbest, -⟩ := best_mem hne
  rw [hbest]
  exact h c hc

theorem best_eq_zero_iff (h : ∀ c ∈ pool, c.routerId ≠ 0) : best pool = 0 ↔ pool = [] := by
  constructor
  · intro hzero
    by_contra hne
    exact best_ne_zero h hne hzero
  · intro hnil
    rw [hnil, best_nil]

/-- A newcomer comes first itself, or leaves the first where it was. -/
theorem best_concat (me : Candidate) :
    best (pool ++ [me]) = me.routerId ∨ pool ≠ [] ∧ best (pool ++ [me]) = best pool := by
  obtain ⟨c, hc, hbest, hmax⟩ := @best_mem (pool ++ [me]) (by simp)
  rw [hbest]
  rcases List.mem_append.mp hc with hc | hc
  · have hne := List.ne_nil_of_mem hc
    obtain ⟨d, hd, hbest', hmax'⟩ := best_mem hne
    refine Or.inr ⟨hne, ?_⟩
    rw [hbest']
    exact standing_injective (le_antisymm (hmax' c hc) (hmax d (by simp [hd])))
  · exact Or.inl (by rw [List.mem_singleton.mp hc])

end Best

/-! ## The election as its own router sees it -/

/-- A role the neighbours compete for: who wins it among them, and who does once `own` stands. -/
structure Contest (own : Ipv4Addr) where
  others : Ipv4Addr
  joined : Ipv4Addr
  others_eq : others = own → others = 0
  joined_cases : joined = own ∨ others ≠ 0 ∧ joined = others

/-- What an election depends on besides the two roles the router itself may claim. -/
structure Poll (own : Ipv4Addr) where
  eligible : Bool
  /-- Those who claim to be the Designated Router. -/
  claimants : Contest own
  /-- Those who do not, but claim to be its backup. -/
  backups : Contest own
  /-- All those who do not claim to be the Designated Router. -/
  heirs : Contest own

namespace Poll
variable {own : Ipv4Addr}

/-- The roles of one round, from whether the router claims to be the Designated Router (`dr`) or
the backup (`bdr`). -/
def round (p : Poll own) (dr bdr : Bool) : Ipv4Addr × Ipv4Addr :=
  let backup :=
    if p.eligible = false ∨ dr then
      if p.backups.others = 0 then p.heirs.others else p.backups.others
    else if bdr then p.backups.joined
    else if p.backups.others = 0 then p.heirs.joined
    else p.backups.others
  let first := if p.eligible ∧ dr then p.claimants.joined else p.claimants.others
  (if first = 0 then backup else first, backup)

def elect (p : Poll own) (dr bdr : Bool) : Ipv4Addr × Ipv4Addr :=
  let roles := p.round dr bdr
  if dr ≠ decide (roles.1 = own) ∨ bdr ≠ decide (roles.2 = own) then
    p.round (roles.1 = own) (roles.2 = own)
  else roles

end Poll

namespace Poll
variable {own : Ipv4Addr} (p : Poll own)

/-- Electing once more from the roles an election gives does not change them. -/
theorem elect_stable (dr bdr : Bool) :
    p.elect ((p.elect dr bdr).1 = own) ((p.elect dr bdr).2 = own) = p.elect dr bdr := by
  obtain ⟨e, c, b, h⟩ := p
  have hc := c.joined_cases
  have hb := b.joined_cases
  have hh := h.joined_cases
  have hc' := c.others_eq
  have hb' := b.others_eq
  have hh' := h.others_eq
  -- which roles it claims decides which pools it stands in, and the contests' cases do the rest
  cases e <;> cases dr <;> cases bdr <;> simp only [elect, round] <;> grind

/-- While another claims to be the Designated Router, only a claimant becomes it. -/
theorem elect_claimed (hne : p.claimants.others ≠ 0) (dr bdr : Bool) :
    (p.elect dr bdr).1 = p.claimants.others ∨
      p.eligible = true ∧ dr = true ∧ (p.elect dr bdr).1 = p.claimants.joined := by
  obtain ⟨e, c, b, h⟩ := p
  have hc := c.joined_cases
  have hc' := c.others_eq
  cases e <;> cases dr <;> simp only [elect, round] <;> grind

/-- A router that claims to be the Designated Router is out of the contest for the backup. -/
theorem round_backup_ne (hne : own ≠ 0) (bdr : Bool) : (p.round true bdr).2 ≠ own := by
  intro h
  simp only [round, or_true, if_true] at h
  by_cases hb : p.backups.others = 0
  · rw [if_pos hb] at h
    exact hne (h.symm.trans (p.heirs.others_eq h))
  · rw [if_neg hb] at h
    exact hb (p.backups.others_eq h)

theorem round_first_claiming (hne : own ≠ 0) (he : p.eligible = true) (hc : p.claimants.others = 0) (bdr : Bool) :
    (p.round true bdr).1 = own := by
  have hj : p.claimants.joined = own := p.claimants.joined_cases.resolve_right fun h => h.1 hc
  have hfirst : (if p.eligible ∧ true then p.claimants.joined else p.claimants.others) = own := by
    rw [if_pos ⟨he, rfl⟩, hj]
  rw [round, hfirst]
  exact if_neg hne

theorem round_first_unclaiming (hc : p.claimants.others = 0) (bdr : Bool) :
    (p.round false bdr).1 = (p.round false bdr).2 := by
  simp [round, hc]

/-- Who is the backup without claiming it is the backup when it claims it. -/
theorem round_backup_claiming (h : (p.round false false).2 = own) (bdr : Bool) : (p.round false bdr).2 = own := by
  have hb := p.backups.others_eq
  have hj := p.backups.joined_cases
  cases bdr
  · exact h
  · simp only [round] at h ⊢
    grind

theorem round_ineligible (he : p.eligible = false) (dr dr' bdr bdr' : Bool) :
    p.round dr bdr = p.round dr' bdr' := by
  simp [round, he]

/-- No router ends with both roles. -/
theorem elect_one_role (hne : own ≠ 0) (dr bdr : Bool) :
    ¬ ((p.elect dr bdr).1 = own ∧ (p.elect dr bdr).2 = own) := by
  rintro ⟨hfirst, hbackup⟩
  rw [elect] at hfirst hbackup
  split_ifs at hfirst hbackup with hflip
  · by_cases hdr : (p.round dr bdr).1 = own
    · rw [decide_eq_true hdr] at hbackup
      exact p.round_backup_ne hne _ hbackup
    · -- the second round is one without a claimant, and the first was too
      rw [decide_eq_false hdr] at hfirst hbackup
      have hc : p.claimants.others = 0 := by
        by_contra hc
        simp only [round, Bool.false_eq_true, and_false, if_false, if_neg hc] at hfirst
        exact hc (p.claimants.others_eq hfirst)
      cases dr with
      | true =>
        cases he : p.eligible with
        | true => exact hdr (p.round_first_claiming hne he hc bdr)
        | false =>
          rw [p.round_ineligible he _ true _ true] at hbackup
          exact p.round_backup_ne hne true hbackup
      | false =>
        have hsecond : (p.round false bdr).2 ≠ own := by rwa [← p.round_first_unclaiming hc]
        rw [decide_eq_false hsecond] at hbackup
        exact hsecond (p.round_backup_claiming hbackup bdr)
  · obtain ⟨hdr, -⟩ := not_or.mp hflip
    rw [decide_eq_true hfirst, not_not] at hdr
    rw [hdr] at hbackup
    exact p.round_backup_ne hne _ hbackup

end Poll

def contest {own : Ipv4Addr} (pool : List Candidate) (priority : UInt8)
    (h : ∀ c ∈ pool, c.routerId ≠ 0 ∧ c.routerId ≠ own) : Contest own where
  others := best pool
  joined := best (pool ++ [⟨own, priority, 0, 0⟩])
  others_eq := by
    intro heq
    by_cases hnil : pool = []
    · rw [hnil, best_nil]
    · obtain ⟨c, hc, hbest, -⟩ := best_mem hnil
      exact absurd (hbest.symm.trans heq) (h c hc).2
  joined_cases := by
    rcases @best_concat pool ⟨own, priority, 0, 0⟩ with hself | ⟨hne, hothers⟩
    · exact Or.inl hself
    · exact Or.inr ⟨best_ne_zero (fun c hc => (h c hc).1) hne, hothers⟩

def claimants (ns : List Candidate) : List Candidate :=
  ns.filter fun c => 0 < c.priority ∧ c.declaredDr = c.routerId

def backups (ns : List Candidate) : List Candidate :=
  (notDr ns).filter fun c => c.declaredBdr = c.routerId

namespace Named
variable {own : Ipv4Addr} {ns : List Candidate}

theorem distinct (h : Named own ns) : ∀ c ∈ ns, c.routerId ≠ 0 ∧ c.routerId ≠ own :=
  fun c hc => ⟨h.ne_zero c hc, h.ne_self c hc⟩

def poll (h : Named own ns) (priority : UInt8) : Poll own where
  eligible := 0 < priority
  claimants := contest (Wren.Ospf.claimants ns) priority fun c hc => h.distinct c (List.mem_of_mem_filter hc)
  backups := contest (Wren.Ospf.backups ns) priority fun c hc =>
    h.distinct c (List.mem_of_mem_filter (List.mem_of_mem_filter hc))
  heirs := contest (notDr ns) priority fun c hc => h.distinct c (List.mem_of_mem_filter hc)

theorem find?_concat (h : Named own ns) (me : Candidate) (hme : me.routerId = own) :
    (ns ++ [me]).find? (fun c => c.routerId = own) = some me := by
  have hnone : ns.find? (fun c => c.routerId = own) = none := by
    rw [List.find?_eq_none]
    intro n hn
    simpa using h.ne_self n hn
  simp [List.find?_append, hnone, hme]

theorem redeclare_concat (h : Named own ns) (me : Candidate) (hme : me.routerId = own) (dr bdr : Ipv4Addr) :
    redeclare own dr bdr (ns ++ [me]) = ns ++ [{ me with declaredDr := dr, declaredBdr := bdr }] := by
  have hns : ∀ n ∈ ns, n.routerId ≠ own := h.ne_self
  clear h
  induction ns with
  | nil => rw [List.nil_append, redeclare, if_pos hme, List.nil_append]
  | cons n ns ih =>
    rw [List.cons_append, redeclare, if_neg (hns n (by simp)), ih fun m hm => hns m (by simp [hm])]
    rfl

theorem best_concat_congr (pool : List Candidate) (me you : Candidate) (hid : me.routerId = you.routerId)
    (hpri : me.priority = you.priority) : best (pool ++ [me]) = best (pool ++ [you]) :=
  best_congr fun _ _ => by simp [hid, hpri, or_and_right, exists_or]

theorem filter_concat (q : Candidate → Bool) (me : Candidate) :
    (ns ++ [me]).filter q = if q me then ns.filter q ++ [me] else ns.filter q := by
  rw [List.filter_append, List.filter_singleton]
  cases q me <;> simp

/-- One round over the neighbours and the router itself. -/
theorem round_eq (h : Named own ns) (me : Candidate) (hme : me.routerId = own) :
    (calcDr (ns ++ [me]) (calcBdr (ns ++ [me])), calcBdr (ns ++ [me])) =
      (h.poll me.priority).round (me.declaredDr = own) (me.declaredBdr = own) := by
  have hjoin : ∀ pool : List Candidate, best (pool ++ [me]) = best (pool ++ [⟨own, me.priority, 0, 0⟩]) :=
    fun pool => best_concat_congr pool me ⟨own, me.priority, 0, 0⟩ hme rfl
  have hzero : ∀ {pool : List Candidate}, (∀ c ∈ pool, c ∈ ns) → (best pool = 0 ↔ pool.isEmpty) := by
    intro pool hpool
    rw [best_eq_zero_iff fun c hc => h.ne_zero c (hpool c hc), List.isEmpty_iff]
  have hbackups : ∀ c ∈ backups ns, c ∈ ns :=
    fun c hc => List.mem_of_mem_filter (List.mem_of_mem_filter hc)
  have hheirs : notDr (ns ++ [me]) =
      if 0 < me.priority ∧ me.declaredDr ≠ own then notDr ns ++ [me] else notDr ns := by
    rw [notDr, filter_concat, hme]
    simp [notDr]
  have hbdr : calcBdr (ns ++ [me]) =
      ((h.poll me.priority).round (me.declaredDr = own) (me.declaredBdr = own)).2 := by
    change (if (backups (ns ++ [me])).isEmpty then best (notDr (ns ++ [me])) else best (backups (ns ++ [me]))) = _
    rw [backups, hheirs]
    by_cases hin : 0 < me.priority ∧ me.declaredDr ≠ own
    · have hround : ¬ ((h.poll me.priority).eligible = false ∨ decide (me.declaredDr = own) = true) := by
        intro hor
        rcases hor with he | hd
        · exact of_decide_eq_false he hin.1
        · exact hin.2 (of_decide_eq_true hd)
      rw [if_pos hin, filter_concat, hme, Poll.round, if_neg hround]
      by_cases hb : me.declaredBdr = own
      · simp only [hb, decide_true, if_true]
        rw [if_neg (by simp), hjoin]
        rfl
      · simp only [hb, decide_false, Bool.false_eq_true, if_false]
        rw [hjoin]
        exact if_congr (hzero hbackups).symm rfl rfl
    · have hround : (h.poll me.priority).eligible = false ∨ decide (me.declaredDr = own) = true := by
        by_cases he : 0 < me.priority
        · exact Or.inr (decide_eq_true (not_not.mp fun hne => hin ⟨he, hne⟩))
        · exact Or.inl (decide_eq_false he)
      rw [if_neg hin, Poll.round, if_pos hround]
      exact if_congr (hzero hbackups).symm rfl rfl
  have hdr : best ((ns ++ [me]).filter fun c => 0 < c.priority ∧ c.declaredDr = c.routerId) =
      if 0 < me.priority ∧ me.declaredDr = own then best (claimants ns ++ [me]) else best (claimants ns) := by
    rw [filter_concat, hme]
    split_ifs <;> simp_all [claimants]
  rw [Prod.ext_iff]
  refine ⟨?_, hbdr⟩
  rw [calcDr, hdr, hjoin, hbdr]
  simp [Poll.round, poll, contest]

theorem electDrBdr_eq (h : Named own ns) (me : Candidate) (hme : me.routerId = own) :
    electDrBdr (ns ++ [me]) own = (h.poll me.priority).elect (me.declaredDr = own) (me.declaredBdr = own) := by
  have hround := h.round_eq me hme
  have hagain := fun dr bdr => h.round_eq { me with declaredDr := dr, declaredBdr := bdr } hme
  rw [electDrBdr, h.find?_concat me hme, Poll.elect, ← hround]
  dsimp only
  rw [h.redeclare_concat me hme]
  exact if_congr Iff.rfl (hagain _ _) rfl

end Named

/-! ## Who may win a role -/

/-- `id` names no router, or an eligible one. -/
def MayServe (cs : List Candidate) (id : Ipv4Addr) : Prop :=
  id = 0 ∨ ∃ c ∈ cs, 0 < c.priority ∧ c.routerId = id

theorem mayServe_best {cs pool : List Candidate} (h : ∀ c ∈ pool, c ∈ cs ∧ 0 < c.priority) :
    MayServe cs (best pool) := by
  by_cases hnil : pool = []
  · exact Or.inl (by rw [hnil, best_nil])
  · obtain ⟨c, hc, hbest, -⟩ := best_mem hnil
    exact Or.inr ⟨c, (h c hc).1, (h c hc).2, hbest.symm⟩

theorem mem_notDr {cs : List Candidate} {c : Candidate} (h : c ∈ notDr cs) : c ∈ cs ∧ 0 < c.priority := by
  obtain ⟨hc, hq⟩ := List.mem_filter.mp h
  exact ⟨hc, (of_decide_eq_true hq).1⟩

theorem mayServe_calcBdr (cs : List Candidate) : MayServe cs (calcBdr cs) := by
  rw [calcBdr]
  split_ifs
  · exact mayServe_best fun c hc => mem_notDr hc
  · exact mayServe_best fun c hc => mem_notDr (List.mem_of_mem_filter hc)

theorem mayServe_calcDr {cs : List Candidate} {bdr : Ipv4Addr} (h : MayServe cs bdr) :
    MayServe cs (calcDr cs bdr) := by
  rw [calcDr]
  split_ifs
  · exact h
  · refine mayServe_best fun c hc => ?_
    obtain ⟨hc, hq⟩ := List.mem_filter.mp hc
    exact ⟨hc, (of_decide_eq_true hq).1⟩

section Elected
variable {own : Ipv4Addr} {ns ns' : List Candidate}

theorem mayServe_electDrBdr (h : Named own ns) (me : Candidate) (hme : me.routerId = own) :
    MayServe (ns ++ [me]) (electDrBdr (ns ++ [me]) own).1 ∧
      MayServe (ns ++ [me]) (electDrBdr (ns ++ [me]) own).2 := by
  have hboth : ∀ cs, MayServe cs (calcDr cs (calcBdr cs)) ∧ MayServe cs (calcBdr cs) :=
    fun cs => ⟨mayServe_calcDr (mayServe_calcBdr cs), mayServe_calcBdr cs⟩
  -- the second round has the same routers at the same priorities
  have hview : ∀ dr bdr id, MayServe (ns ++ [{ me with declaredDr := dr, declaredBdr := bdr }]) id →
      MayServe (ns ++ [me]) id := by
    intro dr bdr id hid
    simpa [MayServe, or_and_right, exists_or] using hid
  rw [electDrBdr, h.find?_concat me hme]
  dsimp only
  rw [h.redeclare_concat me hme]
  split_ifs
  · exact ⟨hview _ _ _ (hboth _).1, hview _ _ _ (hboth _).2⟩
  · exact hboth _

theorem Named.poll_perm (h : Named own ns) (h' : Named own ns') (hp : ns.Perm ns') (priority : UInt8) :
    h.poll priority = h'.poll priority := by
  have hheirs : (notDr ns).Perm (notDr ns') := hp.filter _
  have hcontest : ∀ {pool pool' : List Candidate} (hq : ∀ c ∈ pool, c.routerId ≠ 0 ∧ c.routerId ≠ own)
      (hq' : ∀ c ∈ pool', c.routerId ≠ 0 ∧ c.routerId ≠ own), pool.Perm pool' →
      contest pool priority hq = contest pool' priority hq' := by
    intro pool pool' hq hq' hperm
    simp only [contest, best_perm hperm, best_perm (hperm.append_right _)]
  rw [Named.poll, Named.poll, Poll.mk.injEq]
  exact ⟨rfl, hcontest _ _ (hp.filter _), hcontest _ _ (hheirs.filter _), hcontest _ _ hheirs⟩

theorem electDrBdr_perm (h : Named own ns) (me : Candidate) (hme : me.routerId = own) (hp : ns.Perm ns') :
    electDrBdr (ns' ++ [me]) own = electDrBdr (ns ++ [me]) own := by
  rw [(h.perm hp).electDrBdr_eq me hme, h.electDrBdr_eq me hme, h.poll_perm (h.perm hp) hp]

/-- The router elected beside a neighbour that claims the role ranks no lower, and claims it as well. -/
theorem electDrBdr_claimed (h : Named own ns) (me : Candidate) (hme : me.routerId = own) {n : Candidate} (hn : n ∈ ns)
    (hpos : 0 < n.priority) (hclaim : n.declaredDr = n.routerId) :
    ∃ c ∈ ns ++ [me], 0 < c.priority ∧ c.declaredDr = c.routerId ∧
      c.routerId = (electDrBdr (ns ++ [me]) own).1 ∧
      standing n.priority n.routerId ≤ standing c.priority c.routerId := by
  have hmem : n ∈ claimants ns := List.mem_filter.mpr ⟨hn, decide_eq_true ⟨hpos, hclaim⟩⟩
  have hnz : ∀ c ∈ claimants ns, c.routerId ≠ 0 := fun c hc => h.ne_zero c (List.mem_of_mem_filter hc)
  have hne : (h.poll me.priority).claimants.others ≠ 0 := best_ne_zero hnz (List.ne_nil_of_mem hmem)
  -- the best of any pool of claimants that holds `n` will do
  have hof : ∀ pool, n ∈ pool → (∀ c ∈ pool, c ∈ ns ++ [me] ∧ 0 < c.priority ∧ c.declaredDr = c.routerId) →
      ∃ c ∈ ns ++ [me], 0 < c.priority ∧ c.declaredDr = c.routerId ∧ c.routerId = best pool ∧
        standing n.priority n.routerId ≤ standing c.priority c.routerId := by
    intro pool hnp hpool
    obtain ⟨c, hc, hbest, hmax⟩ := best_mem (List.ne_nil_of_mem hnp)
    obtain ⟨hcm, hcp, hcd⟩ := hpool c hc
    exact ⟨c, hcm, hcp, hcd, hbest.symm, hmax n hnp⟩
  have hothers : ∀ c ∈ claimants ns, c ∈ ns ++ [me] ∧ 0 < c.priority ∧ c.declaredDr = c.routerId := by
    intro c hc
    obtain ⟨hc, hq⟩ := List.mem_filter.mp hc
    exact ⟨by simp [hc], of_decide_eq_true hq⟩
  rw [h.electDrBdr_eq me hme]
  rcases (h.poll me.priority).elect_claimed hne (me.declaredDr = own) (me.declaredBdr = own) with
    hfirst | ⟨he, hdr, hfirst⟩
  · rw [hfirst]
    exact hof _ hmem hothers
  · have hjoined : (h.poll me.priority).claimants.joined = best (claimants ns ++ [me]) :=
      Named.best_concat_congr (claimants ns) ⟨own, me.priority, 0, 0⟩ me hme.symm rfl
    rw [hfirst, hjoined]
    refine hof _ (by simp [hmem]) fun c hc => ?_
    rcases List.mem_append.mp hc with hc | hc
    · exact hothers c hc
    · obtain rfl := List.mem_singleton.mp hc
      exact ⟨by simp, of_decide_eq_true he, (of_decide_eq_true hdr).trans hme.symm⟩

end Elected

namespace Interface
variable {i : Interface} {ns : List Candidate}

theorem handle_neighborChange (hel : i.elects .neighborChange) (ns : List Candidate) :
    i.handle .neighborChange ns =
      ((i.runElection ns).1, if (i.runElection ns).2 then [.electionChanged] else []) := if_pos hel

theorem elects_runElection (i : Interface) (ns : List Candidate) :
    (i.runElection ns).1.elects .neighborChange := by
  rw [elects, runElection]
  dsimp only
  split_ifs <;> simp

/-- The interface after an election with this outcome, and whether the outcome is news. -/
def adopt (i : Interface) (roles : Ipv4Addr × Ipv4Addr) : Interface × Bool :=
  ({ i with
      dr := roles.1
      bdr := roles.2
      state := if roles.1 = i.routerId then .dr else if roles.2 = i.routerId then .backup else .drOther },
    decide (roles.1 ≠ i.dr ∨ roles.2 ≠ i.bdr))

theorem adopt_adopt (i : Interface) (roles : Ipv4Addr × Ipv4Addr) :
    (i.adopt roles).1.adopt roles = ((i.adopt roles).1, false) := by
  simp [adopt]

/-- The second of two elections over the same neighbours finds what the first one left. -/
theorem runElection_runElection (h : Named i.routerId ns) :
    (i.runElection ns).1.runElection ns = ((i.runElection ns).1, false) := by
  have hroles : electDrBdr (ns ++ [(i.runElection ns).1.candidate]) i.routerId =
      electDrBdr (ns ++ [i.candidate]) i.routerId := by
    rw [h.electDrBdr_eq (i.runElection ns).1.candidate rfl, h.electDrBdr_eq i.candidate rfl]
    have hview : ((i.runElection ns).1.dr, (i.runElection ns).1.bdr) =
        (h.poll i.priority).elect (i.dr = i.routerId) (i.bdr = i.routerId) := h.electDrBdr_eq i.candidate rfl
    obtain ⟨hdr, hbdr⟩ := Prod.ext_iff.mp hview
    change (h.poll i.priority).elect (decide ((i.runElection ns).1.dr = i.routerId))
      (decide ((i.runElection ns).1.bdr = i.routerId)) = _
    dsimp only at hdr hbdr
    rw [hdr, hbdr]
    exact (h.poll i.priority).elect_stable _ _
  calc (i.runElection ns).1.runElection ns
      = (i.runElection ns).1.adopt (electDrBdr (ns ++ [(i.runElection ns).1.candidate]) i.routerId) := rfl
    _ = (i.adopt (electDrBdr (ns ++ [i.candidate]) i.routerId)).1.adopt
          (electDrBdr (ns ++ [i.candidate]) i.routerId) := by rw [hroles]; rfl
    _ = ((i.runElection ns).1, false) := adopt_adopt i _

end Interface

/-- The Designated Router's election gives the roles to eligible routers, keeps a router that claims
the first, does not depend on the order of the neighbours and, run again, changes nothing. -/
theorem election_sound_stable (i : Interface) (ns : List Candidate) (hel : i.elects .neighborChange)
    (h : Named i.routerId ns) :
    let j := (i.handle .neighborChange ns).1
    MayServe (ns ++ [i.candidate]) j.dr ∧ MayServe (ns ++ [i.candidate]) j.bdr ∧
      ¬ (j.dr ≠ 0 ∧ j.dr = i.routerId ∧ j.bdr = i.routerId) ∧
      (∀ n ∈ ns, 0 < n.priority → n.declaredDr = n.routerId →
        (∃ c ∈ ns ++ [i.candidate], 0 < c.priority ∧ c.declaredDr = c.routerId ∧ c.routerId = j.dr ∧
          standing n.priority n.routerId ≤ standing c.priority c.routerId) ∧
        ∀ c ∈ ns ++ [i.candidate], c.declaredDr ≠ c.routerId → c.routerId ≠ j.dr) ∧
      (∀ ns', ns.Perm ns' → i.handle .neighborChange ns' = i.handle .neighborChange ns) ∧
      j.handle .neighborChange ns = (j, []) := by
  intro j
  have hj : j = (i.runElection ns).1 := congrArg Prod.fst (Interface.handle_neighborChange hel ns)
  have hdr : j.dr = (electDrBdr (ns ++ [i.candidate]) i.routerId).1 := by rw [hj]; rfl
  have hbdr : j.bdr = (electDrBdr (ns ++ [i.candidate]) i.routerId).2 := by rw [hj]; rfl
  have hserve := mayServe_electDrBdr h i.candidate rfl
  refine ⟨hdr ▸ hserve.1, hbdr ▸ hserve.2, ?_, ?_, ?_, ?_⟩
  · rintro ⟨hne, hfirst, hsecond⟩
    rw [hdr, h.electDrBdr_eq i.candidate rfl] at hfirst
    rw [hbdr, h.electDrBdr_eq i.candidate rfl] at hsecond
    refine (h.poll i.priority).elect_one_role ?_ _ _ ⟨hfirst, hsecond⟩
    rwa [hdr, h.electDrBdr_eq i.candidate rfl, hfirst] at hne
  · intro n hn hpos hclaim
    obtain ⟨c, hc, hcp, hcd, hcid, hle⟩ := electDrBdr_claimed h i.candidate rfl hn hpos hclaim
    refine ⟨⟨c, hc, hcp, hcd, hcid.trans hdr.symm, hle⟩, ?_⟩
    intro d hd hdd heq
    -- names are distinct, so `d` would be the claimant that was elected
    have hnd : ((ns ++ [i.candidate]).map (·.routerId)).Nodup := by
      rw [List.map_append, List.map_singleton, List.nodup_append]
      refine ⟨h.nodup, by simp, ?_⟩
      intro a ha b hb
      obtain ⟨m, hm, rfl⟩ := List.mem_map.mp ha
      rw [List.mem_singleton.mp hb]
      exact h.ne_self m hm
    have hdc : d = c := List.inj_on_of_nodup_map hnd hd hc (heq.trans (hdr.trans hcid.symm))
    exact hdd (hdc ▸ hcd)
  · intro ns' hp
    rw [Interface.handle_neighborChange hel, Interface.handle_neighborChange hel, Interface.runElection,
      Interface.runElection, electDrBdr_perm h i.candidate rfl hp]
  · rw [hj, Interface.handle_neighborChange (Interface.elects_runElection i ns),
      Interface.runElection_runElection h]
    rfl

/-- A Designated Router that a neighbour of a higher rank, up elsewhere, is about to demote. -/
def demoted : Interface :=
  { routerId := 1, priority := 1, ifaceType := .broadcast, state := .dr, dr := 1, bdr := 0 }

theorem election_sound_stable_demoted :
    (demoted.handle .neighborChange [⟨2, 1, 2, 0⟩]).1.state = .backup ∧
      (demoted.handle .neighborChange [⟨2, 1, 2, 0⟩]).1.handle .neighborChange [⟨2, 1, 2, 0⟩] =
        ((demoted.handle .neighborChange [⟨2, 1, 2, 0⟩]).1, []) :=
  ⟨by decide, (election_sound_stable demoted [⟨2, 1, 2, 0⟩] (Or.inr (Or.inr rfl))
    ⟨by decide, by decide, by decide⟩).2.2.2.2.2⟩

end Wren.Ospf
