import Wren.Daemon.Igmp.Feed

/-! Whether the trees of the routing are the ones the groups on a link call for. -/

namespace Wren.Daemon.Igmp
open Wren.Igmp OrdMap

def WantsAny (table : MembershipTable Ipv4Addr) (g : Ipv4Addr) : Prop :=
  ∃ m, table.get g = some m ∧ m.mode = .excl

def WantsSource (table : MembershipTable Ipv4Addr) (g s : Ipv4Addr) : Prop :=
  ∃ m, table.get g = some m ∧ m.mode = .incl ∧ s ∈ m.sources

/-- A group has its tree for any source exactly if it wants any source, and the trees of the
sources it wants. Trees that were up may stay while its last listeners are asked. -/
def Agrees (before link : Link) : Prop :=
  ∀ g, ((none, g) ∈ link.trees ↔ WantsAny link.iface.table g) ∧
    ∀ s, (WantsSource link.iface.table g s → (some s, g) ∈ link.trees) ∧
      ((some s, g) ∈ link.trees →
        WantsSource link.iface.table g s ∨ g ∈ link.waiting ∧ (some s, g) ∈ before.trees)

/-- A report takes no group from wanting any source to wanting some only, and leaves none that it
joins or refreshes without a source. -/
def Steady (link : Link) : LinkEvent → Prop
  | .report now msg =>
    ∀ g, (WantsAny link.iface.table g → ∀ m, (link.iface.table.apply now msg).1.get g = some m → m.mode ≠ .incl) ∧
      (Reported (link.iface.table.apply now msg).2 g → ∀ m, (link.iface.table.apply now msg).1.get g = some m →
        m.mode = .incl → m.sources.isEmpty = false)
  | .tick _ => True

namespace Link

/-- What holds on any link of the source trees. -/
structure Kept (link : Link) : Prop where
  pairs : Matches link.iface link.trees
  advertised : ∀ g s, s ∈ link.iface.advertised g →
    ∃ m, link.iface.table.get g = some m ∧ m.mode = .incl ∧ (s ∈ m.sources ∨ g ∈ link.waiting)
  wanted : ∀ g s, WantsSource link.iface.table g s → s ∈ link.iface.advertised g

/-- The trees for any source are those of the groups that want any. -/
def Good (link : Link) : Prop := ∀ g, (none, g) ∈ link.trees ↔ WantsAny link.iface.table g

theorem mem_await (evs : List (MembershipEvent Ipv4Addr)) (waiting : BTreeSet Ipv4Addr) {g : Ipv4Addr}
    (hreported : ¬ Reported evs g) (hstays : .left g ∉ evs) :
    g ∈ evs.foldl await waiting ↔ g ∈ waiting ∨ .querying g ∈ evs := by
  induction evs generalizing waiting with
  | nil => simp
  | cons ev evs ih =>
    have hrest : ¬ Reported evs g := by
      intro h
      exact hreported (h.imp (List.mem_cons_of_mem _) (List.mem_cons_of_mem _))
    rw [List.foldl_cons, ih _ hrest fun h => hstays (List.mem_cons_of_mem _ h), List.mem_cons]
    cases ev with
    | querying h =>
      simp only [await, Std.ExtTreeSet.mem_insert, Std.LawfulEqCmp.compare_eq_iff_eq, MembershipEvent.querying.injEq]
      grind
    | joined h =>
      have hne : h ≠ g := by
        rintro rfl
        exact hreported (.inl List.mem_cons_self)
      simp [await, hne]
    | updated h =>
      have hne : h ≠ g := by
        rintro rfl
        exact hreported (.inr List.mem_cons_self)
      simp [await, hne]
    | left h =>
      have hne : h ≠ g := by
        rintro rfl
        exact hstays List.mem_cons_self
      simp [await, hne]

theorem current_eq {iface : Iface} {g : Ipv4Addr} {m : GroupMembership Ipv4Addr} (h : iface.table.get g = some m) :
    iface.current g = if m.mode = .incl then m.sources else ∅ := by
  unfold Iface.current
  rw [h]

section Report
variable {link : Link} {out : MembershipTable Ipv4Addr × List (MembershipEvent Ipv4Addr)}
  (hkept : link.Kept) (htold : MembershipTable.Told link.iface.table out.1 out.2)

include hkept htold in
/-- The trees of a link after a report. -/
theorem fed_settle : Iface.Fed { link.iface with table := out.1 } link.trees (Reported out.2)
    ((link.settle out).iface, ({ link.iface with table := out.1 }.handleEvents out.2).2) := by
  have hpairs : Matches { link.iface with table := out.1 } link.trees := hkept.pairs
  exact Iface.fed_handleEvents hpairs htold.stays

include hkept htold in
theorem kept_settle : (link.settle out).Kept := by
  have hfed := fed_settle hkept htold
  have htable : (link.settle out).iface.table = out.1 := hfed.table
  constructor
  · exact hfed.pairs
  · intro g s hs
    rw [htable]
    by_cases hg : Reported out.2 g
    · have hcurrent := hfed.told g hg
      rw [hcurrent] at hs
      obtain ⟨m, hm⟩ := Option.isSome_iff_exists.mp (htold.reported g hg)
      rw [current_eq hm] at hs
      split_ifs at hs with hmode
      · exact ⟨m, hm, hmode, .inl hs⟩
      · simp at hs
    · have hsame := hfed.kept g hg
      rw [hsame] at hs
      obtain ⟨m, hm, hmode, hsource⟩ := hkept.advertised g s hs
      have hshrinks := htold.queried g (fun h => hg (.inl h)) fun h => hg (.inr h)
      have hwaiting : g ∈ (link.settle out).waiting ↔ g ∈ link.waiting ∨ .querying g ∈ out.2 :=
        mem_await out.2 link.waiting hg (htold.stays g)
      by_cases hasked : .querying g ∈ out.2
      · cases hm' : out.1.get g with
        | none => simp [hm, hm', MembershipTable.Shrinks] at hshrinks
        | some m' =>
          rw [hm, hm'] at hshrinks
          exact ⟨m', rfl, hshrinks.1.trans hmode, .inr (hwaiting.mpr (.inr hasked))⟩
      · have hsilent : out.1.get g = link.iface.table.get g := by
          refine htold.silent g ?_
          intro ev hev hgroup
          cases ev with
          | joined h => exact hg (.inl (hgroup ▸ hev))
          | updated h => exact hg (.inr (hgroup ▸ hev))
          | left h => exact htold.stays h hev
          | querying h => exact hasked (hgroup ▸ hev)
        exact ⟨m, hsilent.trans hm, hmode, hsource.imp_right fun h => hwaiting.mpr (.inl h)⟩
  · intro g s hwants
    rw [htable] at hwants
    obtain ⟨m', hm', hmode, hs⟩ := hwants
    by_cases hg : Reported out.2 g
    · have hcurrent := hfed.told g hg
      rw [hcurrent, current_eq hm', if_pos hmode]
      exact hs
    · have hsame := hfed.kept g hg
      rw [hsame]
      have hshrinks := htold.queried g (fun h => hg (.inl h)) fun h => hg (.inr h)
      refine hkept.wanted g s ?_
      cases hm : link.iface.table.get g with
      | none => simp [hm, hm', MembershipTable.Shrinks] at hshrinks
      | some m =>
        rw [hm, hm'] at hshrinks
        exact ⟨m, hm, hshrinks.1.symm.trans hmode, hshrinks.2 s hs⟩

include hkept htold in
/-- A source tree that the table does not call for after a report was up before. -/
theorem stale_settle {g s : Ipv4Addr} (h : (some s, g) ∈ (link.settle out).trees) :
    WantsSource (link.settle out).iface.table g s ∨ g ∈ (link.settle out).waiting ∧ (some s, g) ∈ link.trees := by
  have hfed := fed_settle hkept htold
  have hnext := kept_settle hkept htold
  have hs := (hnext.pairs s g).mp h
  obtain ⟨m, hm, hmode, hsource⟩ := hnext.advertised g s hs
  obtain hsource | hwaiting := hsource
  · exact .inl ⟨m, hm, hmode, hsource⟩
  · by_cases hg : Reported out.2 g
    · left
      have hcurrent := hfed.told g hg
      have htable : (link.settle out).iface.table = out.1 := hfed.table
      rw [htable] at hm
      rw [hcurrent, current_eq hm, if_pos hmode] at hs
      rw [htable]
      exact ⟨m, hm, hmode, hs⟩
    · right
      have hsame := hfed.kept g hg
      rw [hsame] at hs
      exact ⟨hwaiting, (hkept.pairs s g).mpr hs⟩

/-- The trees for any source stay right over a report exactly if it is steady. -/
theorem good_report_iff {now : ℕ} {msg : Message} (hkept : link.Kept) (hgood : link.Good) :
    (link.step (.report now msg)).Good ↔ Steady link (.report now msg) := by
  have htold := MembershipTable.told_apply link.iface.table now msg
  have hfed := fed_settle hkept htold
  have htable : (link.step (.report now msg)).iface.table = (link.iface.table.apply now msg).1 := hfed.table
  have hany : ∀ g, (none, g) ∈ (link.step (.report now msg)).trees ↔ WantsAny link.iface.table g ∨
      Reported (link.iface.table.apply now msg).2 g ∧
        (Iface.current { link.iface with table := (link.iface.table.apply now msg).1 } g).isEmpty = true := by
    intro g
    rw [← hgood g]
    exact hfed.anySource g
  unfold Good
  rw [htable]
  simp only [hany]
  constructor
  · intro h g
    constructor
    · intro hwants m hm hmode
      obtain ⟨m', hm', hmode'⟩ := (h g).mp (.inl hwants)
      obtain rfl := Option.some.inj (hm.symm.trans hm')
      simp [hmode] at hmode'
    · intro hreported m hm hmode
      by_contra hempty
      have hcurrent : (Iface.current { link.iface with table := (link.iface.table.apply now msg).1 } g).isEmpty = true := by
        rw [current_eq hm, if_pos hmode]
        simpa using hempty
      obtain ⟨m', hm', hmode'⟩ := (h g).mp (.inr ⟨hreported, hcurrent⟩)
      obtain rfl := Option.some.inj (hm.symm.trans hm')
      simp [hmode] at hmode'
  · intro h g
    obtain ⟨hswitch, hempty⟩ := h g
    constructor
    · rintro (hwants | ⟨hreported, hcurrent⟩)
      · have hthere : ((link.iface.table.apply now msg).1.get g).isSome = true := by
          by_cases hg : Reported (link.iface.table.apply now msg).2 g
          · exact htold.reported g hg
          · obtain ⟨m, hm, -⟩ := hwants
            have hshrinks := htold.queried g (fun h => hg (.inl h)) fun h => hg (.inr h)
            cases hm' : (link.iface.table.apply now msg).1.get g with
            | none => simp [hm, hm', MembershipTable.Shrinks] at hshrinks
            | some m' => rfl
        obtain ⟨m, hm⟩ := Option.isSome_iff_exists.mp hthere
        have hmode := hswitch hwants m hm
        cases hexcl : m.mode with
        | incl => exact absurd hexcl hmode
        | excl => exact ⟨m, hm, hexcl⟩
      · obtain ⟨m, hm⟩ := Option.isSome_iff_exists.mp (htold.reported g hreported)
        rw [current_eq hm] at hcurrent
        cases hexcl : m.mode with
        | incl =>
          have hsome := hempty hreported m hm hexcl
          simp [hexcl, hsome] at hcurrent
        | excl => exact ⟨m, hm, hexcl⟩
    · rintro ⟨m', hm', hmode⟩
      by_cases hg : Reported (link.iface.table.apply now msg).2 g
      · right
        refine ⟨hg, ?_⟩
        rw [current_eq hm', if_neg (by simp [hmode])]
        rfl
      · left
        have hshrinks := htold.queried g (fun h => hg (.inl h)) fun h => hg (.inr h)
        cases hm : link.iface.table.get g with
        | none => simp [hm, hm', MembershipTable.Shrinks] at hshrinks
        | some m =>
          rw [hm, hm'] at hshrinks
          exact ⟨m, hm, hshrinks.1.symm.trans hmode⟩

end Report

theorem mem_await_left (gone : List Ipv4Addr) (waiting : BTreeSet Ipv4Addr) (g : Ipv4Addr) :
    g ∈ (gone.map MembershipEvent.left).foldl await waiting ↔ g ∈ waiting ∧ g ∉ gone := by
  induction gone generalizing waiting with
  | nil => simp
  | cons h gone ih =>
    rw [List.map_cons, List.foldl_cons, ih]
    simp only [await, Std.ExtTreeSet.mem_erase, ne_eq, Std.LawfulEqCmp.compare_eq_iff_eq, List.mem_cons]
    grind

/-- A tick leaves nothing of the groups past their time, and changes no other. -/
theorem tick_spec {link : Link} (hkept : link.Kept) (now : ℕ) :
    (link.step (.tick now)).Kept ∧ (link.Good → (link.step (.tick now)).Good) ∧
      ∀ g s, (some s, g) ∈ (link.step (.tick now)).trees → (some s, g) ∈ link.trees := by
  obtain ⟨gone, hgone⟩ : ∃ gone : List Ipv4Addr, (link.iface.table.expire now).2 = gone.map .left := ⟨_, rfl⟩
  have hpairs : Matches { link.iface with table := (link.iface.table.expire now).1 } link.trees := hkept.pairs
  obtain ⟨htable, hadv, hmatches, hany⟩ := Iface.handleEvents_left hpairs gone
  have hstep : link.step (.tick now) = link.settle ((link.iface.table.expire now).1, gone.map .left) := by
    rw [← hgone]
    rfl
  have hget : ∀ g, (link.step (.tick now)).iface.table.get g = if g ∈ gone then none else link.iface.table.get g := by
    intro g
    have hexpire := MembershipTable.get_expire link.iface.table now g
    rw [hgone] at hexpire
    rw [hstep]
    refine (congrArg (fun t => MembershipTable.get t g) htable).trans (hexpire.trans ?_)
    simp
  have hadvertised : ∀ g, (link.step (.tick now)).iface.advertised g =
      if g ∈ gone then ∅ else link.iface.advertised g := by
    rw [hstep]
    exact hadv
  have hwaiting : ∀ g, g ∈ (link.step (.tick now)).waiting ↔ g ∈ link.waiting ∧ g ∉ gone := by
    rw [hstep]
    exact mem_await_left gone link.waiting
  have hmatches' : Matches (link.step (.tick now)).iface (link.step (.tick now)).trees := by
    rw [hstep]
    exact hmatches
  have hnone : ∀ g, (none, g) ∈ (link.step (.tick now)).trees ↔ (none, g) ∈ link.trees ∧ g ∉ gone := by
    rw [hstep]
    exact hany
  refine ⟨⟨hmatches', ?_, ?_⟩, ?_, ?_⟩
  · intro g s hs
    rw [hadvertised] at hs
    split_ifs at hs with hg
    · simp at hs
    · obtain ⟨m, hm, hmode, hsource⟩ := hkept.advertised g s hs
      refine ⟨m, ?_, hmode, hsource.imp_right fun h => (hwaiting g).mpr ⟨h, hg⟩⟩
      rw [hget, if_neg hg, hm]
  · intro g s hwants
    obtain ⟨m, hm, hmode, hs⟩ := hwants
    rw [hget] at hm
    split_ifs at hm with hg
    rw [hadvertised, if_neg hg]
    exact hkept.wanted g s ⟨m, hm, hmode, hs⟩
  · intro hgood g
    rw [hnone, hgood g]
    unfold WantsAny
    rw [hget]
    by_cases hg : g ∈ gone
    · simp [hg]
    · simp [hg]
  · intro g s hs
    have hnow := (hmatches' s g).mp hs
    rw [hadvertised] at hnow
    split_ifs at hnow with hg
    · simp at hnow
    · exact (hkept.pairs s g).mpr hnow

theorem kept_step {link : Link} (hkept : link.Kept) (e : LinkEvent) : (link.step e).Kept := by
  cases e with
  | report now msg => exact kept_settle hkept (MembershipTable.told_apply link.iface.table now msg)
  | tick now => exact (tick_spec hkept now).1

theorem good_step_iff {link : Link} (hkept : link.Kept) (hgood : link.Good) (e : LinkEvent) :
    (link.step e).Good ↔ Steady link e := by
  cases e with
  | report now msg => exact good_report_iff hkept hgood
  | tick now => exact iff_of_true ((tick_spec hkept now).2.1 hgood) trivial

/-- The source trees are always as called for, so that only those for any source decide. -/
theorem agrees_iff_good {link : Link} (hkept : link.Kept) (e : LinkEvent) :
    Agrees link (link.step e) ↔ (link.step e).Good := by
  have hnext := kept_step hkept e
  constructor
  · intro h g
    exact (h g).1
  · intro h g
    refine ⟨h g, fun s => ⟨?_, ?_⟩⟩
    · intro hwants
      exact (hnext.pairs s g).mpr (hnext.wanted g s hwants)
    · intro hs
      cases e with
      | report now msg => exact stale_settle hkept (MembershipTable.told_apply link.iface.table now msg) hs
      | tick now =>
        have hbefore := (tick_spec hkept now).2.2 g s hs
        obtain ⟨m, hm, hmode, hsource⟩ := hnext.advertised g s ((hnext.pairs s g).mp hs)
        exact hsource.imp (fun h => ⟨m, hm, hmode, h⟩) fun h => ⟨h, hbefore⟩

theorem kept_new (ifindex : UInt32) (cfg : TimerConfig) : (new ifindex cfg).Kept := by
  constructor
  · intro s g
    simp [new, Iface.advertised]
  · intro g s hs
    simp [new, Iface.advertised] at hs
  · intro g s hwants
    obtain ⟨m, hm, -⟩ := hwants
    simp [new, MembershipTable.new, MembershipTable.get] at hm

theorem good_new (ifindex : UInt32) (cfg : TimerConfig) : (new ifindex cfg).Good := by
  intro g
  simp [new, WantsAny, MembershipTable.new, MembershipTable.get]

/-- The trees agree with the groups through a run exactly if all its reports are steady. -/
theorem agrees_iff_steady (ifindex : UInt32) (cfg : TimerConfig) (es : List LinkEvent) :
    Run.Every step (fun link e => Agrees link (link.step e)) (new ifindex cfg) es ↔
      Run.Every step Steady (new ifindex cfg) es := by
  have hagrees := Run.every_congr (P := fun link e => Agrees link (link.step e))
    (Q := fun link e => (link.step e).Good) Kept (fun link e h => kept_step h e) (fun link e h => agrees_iff_good h e)
    (kept_new ifindex cfg) es
  rw [hagrees]
  exact Run.every_good_iff Kept Good (fun link e h _ => kept_step h e)
    (fun link e h _ hgood => good_step_iff h hgood e) (Run.every_true step (new ifindex cfg) es)
    (kept_new ifindex cfg) (good_new ifindex cfg)

/-- A receiver that turns from any source to one. -/
def narrowing : List LinkEvent :=
  [.report 0 (.v3Report [⟨4, 0xEF010101, []⟩]), .report 10 (.v3Report [⟨3, 0xEF010101, [0x0A000001]⟩])]

/-- The tree for any source is still up when only one is wanted. -/
theorem narrowing_leaves_tree :
    ¬ ∀ (ifindex : UInt32) (cfg : TimerConfig) (es : List LinkEvent),
      Run.Every step (fun link e => Agrees link (link.step e)) (new ifindex cfg) es := by
  intro hall
  have hlast : Agrees ((new 2 .default).step (narrowing.getD 0 (.tick 0))) (narrowing.foldl step (new 2 .default)) :=
    (hall 2 .default narrowing).2.1
  have htree : (none, 0xEF010101) ∈ (narrowing.foldl step (new 2 .default)).trees := by decide +kernel
  have hincl : ((narrowing.foldl step (new 2 .default)).iface.table.get 0xEF010101).map (·.mode) = some .incl := by
    decide +kernel
  obtain ⟨m, hm, hmode⟩ := (hlast 0xEF010101).1.mp htree
  rw [hm, Option.map_some, hmode] at hincl
  exact absurd hincl (by decide)

end Link
end Wren.Daemon.Igmp
