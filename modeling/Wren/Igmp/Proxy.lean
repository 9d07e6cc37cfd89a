import Wren.Igmp.Membership
import Wren.Lib.Run

/-! The election of the querier on a link, and the proxy of memberships: upstream it is a host, downstream the router
of the listeners. -/

namespace Wren.Igmp
open OrdMap

def TimerConfig.otherQuerierPresentInterval (cfg : TimerConfig) : ℕ :=
  cfg.queryInterval * max cfg.robustness.toNat 1 + cfg.queryResponseInterval / 2

inductive ElectionEvent where
  | becameNonQuerier
  | becameQuerier

structure QuerierState (α : Type) where
  own : α
  isQuerier : Bool
  /-- When to ask again if no lower address is heard until then. -/
  otherDeadline : Option ℕ
  otherPresent : ℕ

namespace QuerierState
variable {α : Type} [Ord α]

def new (own : α) (cfg : TimerConfig) : QuerierState α := ⟨own, true, none, cfg.otherQuerierPresentInterval⟩

def onQuery (q : QuerierState α) (now : ℕ) (src : α) : QuerierState α × Option ElectionEvent :=
  if compare src q.own = .lt then
    ({ q with isQuerier := false, otherDeadline := some (now + q.otherPresent) },
      if q.isQuerier then some .becameNonQuerier else none)
  else (q, none)

def tick (q : QuerierState α) (now : ℕ) : QuerierState α × Option ElectionEvent :=
  match q.isQuerier, q.otherDeadline with
  | false, some deadline =>
    if deadline ≤ now then ({ q with isQuerier := true, otherDeadline := none }, some .becameQuerier) else (q, none)
  | _, _ => (q, none)

end QuerierState

inductive ProxyAction (α : Type) where
  | joinUpstream (group : α)
  | leaveUpstream (group : α)

/-- The interfaces that want each group. -/
structure MulticastProxy (α : Type) [Ord α] where
  groups : BTreeMap α (BTreeSet UInt32)

namespace MulticastProxy
variable {α : Type} [Ord α] [Std.TransOrd α]

def new : MulticastProxy α := ⟨∅⟩

def oifs (p : MulticastProxy α) (g : α) : BTreeSet UInt32 := p.groups[g]?.getD ∅

def isJoined (p : MulticastProxy α) (g : α) : Bool := p.groups.contains g

def joinedGroups (p : MulticastProxy α) : List α := p.groups.keys

def forwarding (p : MulticastProxy α) : List (α × List UInt32) := p.groups.toList.map fun e => (e.1, e.2.toList)

/-- One group more for an interface. -/
def add (ifindex : UInt32) (p : MulticastProxy α) (g : α) : MulticastProxy α × List (ProxyAction α) :=
  (⟨p.groups.insert g ((p.oifs g).insert ifindex)⟩, if (p.oifs g).isEmpty then [.joinUpstream g] else [])

def remove (ifindex : UInt32) (p : MulticastProxy α) (g : α) : MulticastProxy α × List (ProxyAction α) :=
  match p.groups[g]? with
  | none => (p, [])
  | some oifs =>
    if (oifs.erase ifindex).isEmpty then (⟨p.groups.erase g⟩, [.leaveUpstream g])
    else (⟨p.groups.insert g (oifs.erase ifindex)⟩, [])

def previously (p : MulticastProxy α) (ifindex : UInt32) : BTreeSet α :=
  insertAll ∅ ((p.groups.toList.filter fun e => ifindex ∈ e.2).map Prod.fst)

/-- Bring the groups of an interface to those wanted there. -/
def syncDownstream (p : MulticastProxy α) (ifindex : UInt32) (wanted : BTreeSet α) :
    MulticastProxy α × List (ProxyAction α) :=
  let previously := p.previously ifindex
  let (p, joins) := Run.outputs (add ifindex) p (wanted.toList.filter (· ∉ previously))
  let (p, leaves) := Run.outputs (remove ifindex) p (previously.toList.filter (· ∉ wanted))
  (p, joins ++ leaves)

/-- Every group has an interface that wants it. -/
def Proper (p : MulticastProxy α) : Prop := ∀ (g : α) (s : BTreeSet UInt32), p.groups[g]? = some s → s.isEmpty = false

variable [DecidableEq α]

/-- What the host has joined, by its reports. It joins no group twice, and leaves none that it has not joined. -/
def hear (joined : Finset α) : ProxyAction α → Option (Finset α)
  | .joinUpstream g => if g ∈ joined then none else some (insert g joined)
  | .leaveUpstream g => if g ∈ joined then some (joined.erase g) else none

def joined (p : MulticastProxy α) : Finset α := p.joinedGroups.toFinset

/-- What becomes of a proxy: who wants which groups, and that the host joins and leaves accordingly. -/
structure Leads (p : MulticastProxy α) (out : MulticastProxy α × List (ProxyAction α)) (wants : α → UInt32 → Prop) :
    Prop where
  proper : out.1.Proper
  oifs : ∀ g i, i ∈ out.1.oifs g ↔ wants g i
  told : out.2.foldlM hear p.joined = some out.1.joined

section Laws
variable {p : MulticastProxy α} {ifindex : UInt32} {wants wants' : α → UInt32 → Prop}

theorem Leads.append {out out' : MulticastProxy α × List (ProxyAction α)} (h : Leads p out wants)
    (h' : Leads out.1 out' wants') : Leads p (out'.1, out.2 ++ out'.2) wants' where
  proper := h'.proper
  oifs := h'.oifs
  told := by
    rw [List.foldlM_append, h.told]
    exact h'.told

/-- The groups of a list, each for the same interface. -/
theorem leads_outputs {f : MulticastProxy α → α → MulticastProxy α × List (ProxyAction α)} {b : Prop}
    (hf : ∀ p : MulticastProxy α, p.Proper → ∀ g, Leads p (f p g) fun h i => if h = g ∧ i = ifindex then b else i ∈ p.oifs h)
    (hp : p.Proper) (gs : List α) :
    Leads p (Run.outputs f p gs) fun h i => if h ∈ gs ∧ i = ifindex then b else i ∈ p.oifs h := by
  induction gs generalizing p with
  | nil => exact ⟨hp, by simp [Run.outputs], rfl⟩
  | cons g gs ih =>
    have hfirst := hf p hp g
    have hall := hfirst.append (ih hfirst.proper)
    refine ⟨hall.proper, ?_, hall.told⟩
    intro h i
    refine (hall.oifs h i).trans ?_
    rw [hfirst.oifs]
    by_cases hi : i = ifindex <;> by_cases hg : h = g <;> simp [hi, hg]

variable [Std.LawfulEqOrd α]

theorem mem_joined (hp : p.Proper) (g : α) : g ∈ p.joined ↔ ∃ i, i ∈ p.oifs g := by
  unfold joined joinedGroups oifs
  rw [List.mem_toFinset, Std.ExtTreeMap.mem_keys, Std.ExtTreeMap.mem_iff_isSome_getElem?]
  cases hg : p.groups[g]? with
  | none => simp
  | some s =>
    have hs := hp g s hg
    refine iff_of_true rfl ?_
    by_contra hnone
    rw [not_exists] at hnone
    rw [(isEmpty_iff_forall s).mpr hnone] at hs
    cases hs

/-- Another set of interfaces for a group, where the host joins or leaves if it is to. -/
theorem leads_of_groups (hp : p.Proper) (g : α) (s : BTreeSet UInt32) {out : MulticastProxy α × List (ProxyAction α)}
    (hgroups : ∀ h, out.1.groups[h]? = if h = g then (if s.isEmpty = true then none else some s) else p.groups[h]?)
    (hactions : out.2 = if s.isEmpty = (p.oifs g).isEmpty then []
      else if s.isEmpty = true then [.leaveUpstream g] else [.joinUpstream g]) :
    Leads p out fun h i => if h = g then i ∈ s else i ∈ p.oifs h := by
  have hproper : out.1.Proper := by
    intro h t ht
    rw [hgroups] at ht
    split_ifs at ht with hh hs
    · cases ht
      simpa using hs
    · exact hp h t ht
  have hoifs : ∀ h, out.1.oifs h = if h = g then s else p.oifs h := by
    intro h
    unfold oifs
    rw [hgroups]
    split_ifs with hh hs
    · exact (Std.ExtTreeSet.isEmpty_iff.mp hs).symm
    · rfl
    · rfl
  refine ⟨hproper, fun h i => by rw [hoifs]; split_ifs <;> rfl, ?_⟩
  have hempty : ∀ t : BTreeSet UInt32, t.isEmpty = true ↔ ¬ ∃ i, i ∈ t := by
    intro t
    rw [isEmpty_iff_forall, not_exists]
  have hjoined : ∀ h, h ∈ out.1.joined ↔ if h = g then s.isEmpty = false else h ∈ p.joined := by
    intro h
    rw [mem_joined hproper, hoifs]
    split_ifs
    · rw [← Bool.not_eq_true, hempty, not_not]
    · exact (mem_joined hp h).symm
  have hwas : g ∈ p.joined ↔ (p.oifs g).isEmpty = false := by
    rw [mem_joined hp, ← Bool.not_eq_true, hempty, not_not]
  rw [hactions]
  cases hs : s.isEmpty <;> cases ho : (p.oifs g).isEmpty <;> rw [ho] at hwas <;>
    simp only [hs, Bool.false_eq_true, Bool.true_eq_false, if_true, if_false] at hwas hjoined ⊢
  · refine congrArg some (Finset.ext fun h => ?_)
    rw [hjoined]
    split_ifs with hh <;> simp [hh, hwas]
  · simp only [List.foldlM_cons, List.foldlM_nil, hear, hwas, if_false]
    refine congrArg some (Finset.ext fun h => ?_)
    rw [Finset.mem_insert, hjoined]
    split_ifs with hh <;> simp [hh]
  · simp only [List.foldlM_cons, List.foldlM_nil, hear, hwas, if_true]
    refine congrArg some (Finset.ext fun h => ?_)
    rw [Finset.mem_erase, hjoined]
    split_ifs with hh <;> simp [hh]
  · refine congrArg some (Finset.ext fun h => ?_)
    rw [hjoined]
    split_ifs with hh <;> simp [hh, hwas]

/-- The interface wants one group more. -/
theorem leads_add (hp : p.Proper) (ifindex : UInt32) (g : α) :
    Leads p (p.add ifindex g) fun h i => if h = g ∧ i = ifindex then True else i ∈ p.oifs h := by
  have hset : Leads p (p.add ifindex g) fun h i => if h = g then i ∈ (p.oifs g).insert ifindex else i ∈ p.oifs h :=
    leads_of_groups hp g ((p.oifs g).insert ifindex) (fun h => by simp [add, getElem?_insert])
      (by cases ho : (p.oifs g).isEmpty <;> simp [add, ho])
  refine ⟨hset.proper, ?_, hset.told⟩
  intro h i
  rw [hset.oifs]
  by_cases hg : h = g <;> by_cases hi : ifindex = i <;> simp [hg, hi, @eq_comm UInt32 i]

/-- The interface no longer wants the group. -/
theorem leads_remove (hp : p.Proper) (ifindex : UInt32) (g : α) :
    Leads p (p.remove ifindex g) fun h i => if h = g ∧ i = ifindex then False else i ∈ p.oifs h := by
  have hset : Leads p (p.remove ifindex g) fun h i => if h = g then i ∈ (p.oifs g).erase ifindex else i ∈ p.oifs h := by
    refine leads_of_groups hp g ((p.oifs g).erase ifindex) ?_ ?_
    · intro h
      unfold remove oifs
      cases hg : p.groups[g]? with
      | none => by_cases hh : h = g <;> simp [hh, hg]
      | some s =>
        by_cases hs : (s.erase ifindex).isEmpty = true <;> simp [hs, getElem?_erase, getElem?_insert]
    · unfold remove oifs
      cases hg : p.groups[g]? with
      | none => simp
      | some s =>
        have hs := hp g s hg
        by_cases hlast : (s.erase ifindex).isEmpty = true <;> simp [hlast, hs]
  refine ⟨hset.proper, ?_, hset.told⟩
  intro h i
  rw [hset.oifs]
  by_cases hg : h = g <;> by_cases hi : ifindex = i <;> simp [hg, hi, @eq_comm UInt32 i]

/-- Just this interface comes to want just these groups. -/
theorem leads_syncDownstream (hp : p.Proper) (ifindex : UInt32) (wanted : BTreeSet α) :
    Leads p (p.syncDownstream ifindex wanted) fun g i => if i = ifindex then g ∈ wanted else i ∈ p.oifs g := by
  have hprevious : ∀ g, g ∈ p.previously ifindex ↔ ifindex ∈ p.oifs g := by
    intro g
    unfold previously oifs
    rw [mem_insertAll, mem_filter_toList p.groups (ifindex ∈ ·)]
    cases p.groups[g]? <;> simp
  have hjoins := leads_outputs (fun p hp g => leads_add hp ifindex g) hp
    (wanted.toList.filter (· ∉ p.previously ifindex))
  have hleaves := leads_outputs (fun p hp g => leads_remove hp ifindex g) hjoins.proper
    ((p.previously ifindex).toList.filter (· ∉ wanted))
  have hall := hjoins.append hleaves
  refine ⟨hall.proper, ?_, hall.told⟩
  intro g i
  rw [syncDownstream, hall.oifs, hjoins.oifs]
  by_cases hi : i = ifindex
  · simp only [hi, and_true, if_true, List.mem_filter, Std.ExtTreeSet.mem_toList, hprevious, decide_eq_true_eq]
    by_cases hw : g ∈ wanted <;> by_cases ho : ifindex ∈ p.oifs g <;> simp [hw, ho]
  · simp [hi]

omit [DecidableEq α] in
theorem mem_forwarding (p : MulticastProxy α) (g : α) (i : UInt32) :
    (∃ oifs, (g, oifs) ∈ p.forwarding ∧ i ∈ oifs) ↔ i ∈ p.oifs g := by
  have hentry : ∀ l, (g, l) ∈ p.forwarding ↔ ∃ s, p.groups[g]? = some s ∧ s.toList = l := by
    intro l
    simp [forwarding]
  simp only [hentry, oifs]
  cases p.groups[g]? <;> simp

end Laws
end MulticastProxy
end Wren.Igmp
