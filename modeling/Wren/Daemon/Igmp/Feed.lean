import Wren.Igmp.Membership
import Wren.Lib.Run

/-! What a querier tells the multicast routing of the groups on its link. -/

namespace Wren.Daemon.Igmp
open Wren.Igmp OrdMap

structure MembershipUpdate where
  ifindex : UInt32
  group : Ipv4Addr
  /-- One source, or any. -/
  source : Option Ipv4Addr
  present : Bool

structure Iface where
  ifindex : UInt32
  table : MembershipTable Ipv4Addr
  /-- The sources told for each group that has some. -/
  advertisedSources : BTreeMap Ipv4Addr (BTreeSet Ipv4Addr)

namespace Iface

def advertised (iface : Iface) (g : Ipv4Addr) : BTreeSet Ipv4Addr := iface.advertisedSources[g]?.getD ∅

/-- The source set in effect. It is empty for a group that wants any source. -/
def current (iface : Iface) (g : Ipv4Addr) : BTreeSet Ipv4Addr :=
  match iface.table.get g with
  | some m => if m.mode = .incl then m.sources else ∅
  | none => ∅

/-- The same update for each of some sources. -/
def updates (iface : Iface) (g : Ipv4Addr) (present : Bool) (sources : List Ipv4Addr) : List MembershipUpdate :=
  sources.map fun s => ⟨iface.ifindex, g, some s, present⟩

/-- A group was joined or refreshed: tell what came and what went. -/
def refresh (iface : Iface) (g : Ipv4Addr) : Iface × List MembershipUpdate :=
  let current := iface.current g
  let prev := iface.advertised g
  if current.isEmpty then
    ({ iface with advertisedSources := iface.advertisedSources.erase g },
      iface.updates g false prev.toList ++ [⟨iface.ifindex, g, none, true⟩])
  else
    ({ iface with advertisedSources := iface.advertisedSources.insert g current },
      iface.updates g true (current.toList.filter (· ∉ prev)) ++ iface.updates g false (prev.toList.filter (· ∉ current)))

def forget (iface : Iface) (g : Ipv4Addr) : Iface × List MembershipUpdate :=
  ({ iface with advertisedSources := iface.advertisedSources.erase g },
    iface.updates g false (iface.advertised g).toList ++ [⟨iface.ifindex, g, none, false⟩])

def feed (iface : Iface) : MembershipEvent Ipv4Addr → Iface × List MembershipUpdate
  | .joined g | .updated g => iface.refresh g
  | .left g => iface.forget g
  | .querying _ => (iface, [])

def handleEvents (iface : Iface) : List (MembershipEvent Ipv4Addr) → Iface × List MembershipUpdate
  | [] => (iface, [])
  | ev :: evs =>
    let (iface, sent) := iface.feed ev
    let (iface, rest) := iface.handleEvents evs
    (iface, sent ++ rest)

end Iface

/-- Sources and groups that trees are up for. -/
abbrev Trees := Finset (Option Ipv4Addr × Ipv4Addr)

def Trees.apply (trees : Trees) (u : MembershipUpdate) : Trees :=
  if u.present then insert (u.source, u.group) trees else trees.erase (u.source, u.group)

def Trees.applyAll (trees : Trees) (sent : List MembershipUpdate) : Trees := sent.foldl Trees.apply trees

/-- A link, what the routing made of all that was told of it, and the groups whose last listeners
are being asked. -/
structure Link where
  iface : Iface
  trees : Trees
  waiting : BTreeSet Ipv4Addr

inductive LinkEvent where
  | report (now : ℕ) (msg : Message)
  | tick (now : ℕ)

namespace Link

def new (ifindex : UInt32) (cfg : TimerConfig) : Link := ⟨⟨ifindex, .new cfg, ∅⟩, ∅, ∅⟩

/-- A group waits from the time its listeners are asked until it is reported or leaves. -/
def await (waiting : BTreeSet Ipv4Addr) : MembershipEvent Ipv4Addr → BTreeSet Ipv4Addr
  | .querying g => waiting.insert g
  | .joined g | .updated g | .left g => waiting.erase g

/-- Hand the events of a changed table on. -/
def settle (link : Link) (out : MembershipTable Ipv4Addr × List (MembershipEvent Ipv4Addr)) : Link :=
  let (iface, sent) := { link.iface with table := out.1 }.handleEvents out.2
  ⟨iface, link.trees.applyAll sent, out.2.foldl await link.waiting⟩

def step (link : Link) : LinkEvent → Link
  | .report now msg => link.settle (link.iface.table.apply now msg)
  | .tick now => link.settle (link.iface.table.expire now)

end Link

/-- Updates for some sources of a group settle those pairs and touch no other. -/
theorem mem_applyAll_updates (trees : Trees) (iface : Iface) (g : Ipv4Addr) (present : Bool) (l : List Ipv4Addr)
    (pair : Option Ipv4Addr × Ipv4Addr) :
    pair ∈ trees.applyAll (iface.updates g present l) ↔
      if pair.2 = g ∧ ∃ s ∈ l, pair.1 = some s then present = true else pair ∈ trees := by
  unfold Trees.applyAll Iface.updates
  induction l generalizing trees with
  | nil => simp
  | cons s l ih =>
    rw [List.map_cons, List.foldl_cons, ih]
    by_cases hhead : pair = (some s, g)
    · have hhere : pair.2 = g ∧ ∃ s' ∈ s :: l, pair.1 = some s' := by simp [hhead]
      have hnow : pair ∈ trees.apply ⟨iface.ifindex, g, some s, present⟩ ↔ present = true := by
        cases present <;> simp [Trees.apply, hhead]
      rw [if_pos hhere, hnow]
      split_ifs <;> rfl
    · have hsame : pair ∈ trees.apply ⟨iface.ifindex, g, some s, present⟩ ↔ pair ∈ trees := by
        cases present <;> simp [Trees.apply, hhead]
      have htail : (pair.2 = g ∧ ∃ s' ∈ s :: l, pair.1 = some s') ↔ pair.2 = g ∧ ∃ s' ∈ l, pair.1 = some s' := by
        refine and_congr_right fun hg => ?_
        have hne : pair.1 ≠ some s := fun hs => hhead (Prod.ext hs hg)
        simp [hne]
      rw [hsame]
      simp only [htail]

theorem Trees.applyAll_append (trees : Trees) (l l' : List MembershipUpdate) :
    trees.applyAll (l ++ l') = (trees.applyAll l).applyAll l' := List.foldl_append

/-- The routing has the source trees that were told last. -/
def Matches (iface : Iface) (trees : Trees) : Prop := ∀ s g, (some s, g) ∈ trees ↔ s ∈ iface.advertised g

namespace Iface
variable {iface : Iface} {trees : Trees}

theorem advertised_insert (iface : Iface) (g h : Ipv4Addr) (l : BTreeSet Ipv4Addr) :
    Iface.advertised { iface with advertisedSources := iface.advertisedSources.insert g l } h =
      if h = g then l else iface.advertised h := by
  unfold advertised
  rw [getElem?_insert]
  split_ifs <;> rfl

theorem advertised_erase (iface : Iface) (g h : Ipv4Addr) :
    Iface.advertised { iface with advertisedSources := iface.advertisedSources.erase g } h =
      if h = g then ∅ else iface.advertised h := by
  unfold advertised
  rw [getElem?_erase]
  split_ifs <;> rfl

/-- What handing events on makes of a link, of which some groups were reported. -/
structure Fed (iface : Iface) (trees : Trees) (reported : Ipv4Addr → Prop) (out : Iface × List MembershipUpdate) :
    Prop where
  table : out.1.table = iface.table
  told : ∀ g, reported g → out.1.advertised g = iface.current g
  kept : ∀ g, ¬ reported g → out.1.advertised g = iface.advertised g
  pairs : Matches out.1 (trees.applyAll out.2)
  anySource : ∀ g, (none, g) ∈ trees.applyAll out.2 ↔
    (none, g) ∈ trees ∨ reported g ∧ (iface.current g).isEmpty = true

/-- A refresh tells the sources in effect, or that any source is wanted. -/
theorem fed_refresh (h : Matches iface trees) (g : Ipv4Addr) : Fed iface trees (· = g) (iface.refresh g) := by
  simp only [refresh]
  by_cases hempty : (iface.current g).isEmpty = true
  · rw [if_pos hempty]
    have hcurrent : iface.current g = ∅ := Std.ExtTreeSet.isEmpty_iff.mp hempty
    refine ⟨rfl, ?_, ?_, ?_, ?_⟩
    · rintro k rfl
      rw [advertised_erase, hcurrent, if_pos rfl]
    · intro k hk
      rw [advertised_erase, if_neg hk]
    · intro s k
      rw [advertised_erase, Trees.applyAll_append]
      simp only [Trees.applyAll, List.foldl_cons, List.foldl_nil, Trees.apply, if_true, Finset.mem_insert,
        Prod.mk.injEq, reduceCtorEq, false_and, false_or]
      rw [← Trees.applyAll, mem_applyAll_updates]
      by_cases hk : k = g
      · subst hk
        simp only [Std.ExtTreeSet.mem_toList, true_and, Option.some.injEq, exists_eq_right', h s k]
        split_ifs with hs <;> simp [hs]
      · simp [hk, h s k]
    · intro k
      rw [Trees.applyAll_append]
      simp only [Trees.applyAll, List.foldl_cons, List.foldl_nil, Trees.apply, if_true, Finset.mem_insert,
        Prod.mk.injEq, true_and]
      rw [← Trees.applyAll, mem_applyAll_updates, or_comm]
      have hany : k = g ↔ k = g ∧ (iface.current k).isEmpty = true := by
        constructor
        · rintro rfl
          exact ⟨rfl, hempty⟩
        · exact And.left
      rw [← hany]
      simp
  · rw [if_neg hempty]
    refine ⟨rfl, ?_, ?_, ?_, ?_⟩
    · rintro k rfl
      rw [advertised_insert, if_pos rfl]
    · intro k hk
      rw [advertised_insert, if_neg hk]
    · intro s k
      rw [advertised_insert, Trees.applyAll_append, mem_applyAll_updates, mem_applyAll_updates]
      by_cases hk : k = g
      · subst hk
        simp only [List.mem_filter, Std.ExtTreeSet.mem_toList, decide_eq_true_eq, true_and, Option.some.injEq,
          exists_eq_right', h s k, if_true]
        by_cases hs : s ∈ iface.advertised k <;> by_cases hs' : s ∈ iface.current k <;> simp [hs, hs']
      · simp [hk, h s k]
    · intro k
      rw [Trees.applyAll_append, mem_applyAll_updates, mem_applyAll_updates]
      have hnone : ¬ (k = g ∧ (iface.current k).isEmpty = true) := by
        rintro ⟨rfl, hk⟩
        exact hempty hk
      simp only [hnone, or_false]
      simp

/-- Of a group that left nothing stays. -/
theorem forget_spec (h : Matches iface trees) (g : Ipv4Addr) :
    (iface.forget g).1.table = iface.table ∧
      (∀ h, (iface.forget g).1.advertised h = if h = g then ∅ else iface.advertised h) ∧
      Matches (iface.forget g).1 (trees.applyAll (iface.forget g).2) ∧
      ∀ h, (none, h) ∈ trees.applyAll (iface.forget g).2 ↔ (none, h) ∈ trees ∧ h ≠ g := by
  unfold forget
  refine ⟨rfl, ?_, ?_, ?_⟩
  · intro k
    exact advertised_erase iface g k
  · intro s k
    rw [advertised_erase, Trees.applyAll_append]
    simp only [Trees.applyAll, List.foldl_cons, List.foldl_nil, Trees.apply, Bool.false_eq_true, if_false,
      Finset.mem_erase, ne_eq, Prod.mk.injEq, reduceCtorEq, false_and, not_false_eq_true, true_and]
    rw [← Trees.applyAll, mem_applyAll_updates]
    by_cases hk : k = g
    · subst hk
      simp only [Std.ExtTreeSet.mem_toList, true_and, Option.some.injEq, exists_eq_right', h s k]
      split_ifs with hs <;> simp [hs]
    · simp [hk, h s k]
  · intro k
    rw [Trees.applyAll_append]
    simp only [Trees.applyAll, List.foldl_cons, List.foldl_nil, Trees.apply, Bool.false_eq_true, if_false,
      Finset.mem_erase, ne_eq, Prod.mk.injEq, true_and]
    rw [← Trees.applyAll, mem_applyAll_updates]
    simp [and_comm]

end Iface

/-- Whether a group was joined or refreshed. -/
def Reported (evs : List (MembershipEvent Ipv4Addr)) (g : Ipv4Addr) : Prop := .joined g ∈ evs ∨ .updated g ∈ evs

namespace Iface
variable {iface : Iface} {trees : Trees}

theorem Fed.append {P Q R : Ipv4Addr → Prop} {out out' : Iface × List MembershipUpdate} (h : Fed iface trees P out)
    (h' : Fed out.1 (trees.applyAll out.2) Q out') (hR : ∀ g, R g ↔ P g ∨ Q g) :
    Fed iface trees R (out'.1, out.2 ++ out'.2) := by
  have hcurrent : ∀ g, out.1.current g = iface.current g := by
    intro g
    unfold current
    rw [h.table]
  constructor
  · exact h'.table.trans h.table
  · intro g hg
    by_cases hQ : Q g
    · exact (h'.told g hQ).trans (hcurrent g)
    · have hP : P g := ((hR g).mp hg).resolve_right hQ
      exact (h'.kept g hQ).trans (h.told g hP)
  · intro g hg
    rw [hR, not_or] at hg
    exact (h'.kept g hg.2).trans (h.kept g hg.1)
  · rw [Trees.applyAll_append]
    exact h'.pairs
  · intro g
    rw [Trees.applyAll_append, h'.anySource, h.anySource, hcurrent, hR]
    tauto

theorem fed_feed (h : Matches iface trees) {ev : MembershipEvent Ipv4Addr} (hstays : ∀ g, ev ≠ .left g) :
    Fed iface trees (fun g => ev = .joined g ∨ ev = .updated g) (iface.feed ev) := by
  cases ev with
  | joined g => simpa [feed, eq_comm] using fed_refresh h g
  | updated g => simpa [feed, eq_comm] using fed_refresh h g
  | left g => exact absurd rfl (hstays g)
  | querying g => exact ⟨rfl, by simp, fun _ _ => rfl, h, by simp [feed, Trees.applyAll]⟩

/-- After the events of a report, what is told of a reported group is what the table has. -/
theorem fed_handleEvents (h : Matches iface trees) {evs : List (MembershipEvent Ipv4Addr)}
    (hstays : ∀ g, .left g ∉ evs) : Fed iface trees (Reported evs) (iface.handleEvents evs) := by
  induction evs generalizing iface trees with
  | nil => exact ⟨rfl, by simp [Reported], fun _ _ => rfl, h, by simp [Reported, Trees.applyAll, handleEvents]⟩
  | cons ev evs ih =>
    have hfirst := fed_feed h fun g hg => hstays g (hg ▸ List.mem_cons_self)
    have hrest := ih hfirst.pairs fun g hg => hstays g (List.mem_cons_of_mem _ hg)
    refine hfirst.append hrest ?_
    intro g
    simp only [Reported, List.mem_cons, eq_comm]
    tauto

/-- After the events of a tick, nothing is told any more of the groups that left. -/
theorem handleEvents_left (h : Matches iface trees) (gone : List Ipv4Addr) :
    (iface.handleEvents (gone.map .left)).1.table = iface.table ∧
      (∀ g, (iface.handleEvents (gone.map .left)).1.advertised g = if g ∈ gone then ∅ else iface.advertised g) ∧
      Matches (iface.handleEvents (gone.map .left)).1 (trees.applyAll (iface.handleEvents (gone.map .left)).2) ∧
      ∀ g, (none, g) ∈ trees.applyAll (iface.handleEvents (gone.map .left)).2 ↔ (none, g) ∈ trees ∧ g ∉ gone := by
  induction gone generalizing iface trees with
  | nil => exact ⟨rfl, by simp [handleEvents], h, by simp [handleEvents, Trees.applyAll]⟩
  | cons k gone ih =>
    obtain ⟨htable, hadv, hpairs, hany⟩ := forget_spec h k
    obtain ⟨htable', hadv', hpairs', hany'⟩ := ih hpairs
    simp only [List.map_cons, handleEvents, feed]
    refine ⟨htable'.trans htable, ?_, ?_, ?_⟩
    · intro g
      rw [hadv', hadv]
      by_cases hg : g = k
      · simp [hg]
      · simp [hg]
    · rw [Trees.applyAll_append]
      exact hpairs'
    · intro g
      rw [Trees.applyAll_append, hany', hany, List.mem_cons, not_or, and_assoc]

end Iface
end Wren.Daemon.Igmp
