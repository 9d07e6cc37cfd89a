import Wren.Daemon.Pim.Runner
import Wren.Pim.History

/-! The forwarding cache of the kernel as an image of the trees. -/

namespace Wren.Daemon.Pim
open OrdMap Wren.Pim
open Std (ExtTreeMap ExtTreeSet)

/-- Every interface that is known by its name or by a virtual interface has a virtual interface. -/
structure Setup.Closed (setup : Setup) : Prop where
  names : ∀ (name : String) (i : UInt32), setup.nameToIndex[name]? = some i → (setup.indexToVif[i]?).isSome = true
  vifs : ∀ (v : UInt16) (i : UInt32), setup.vifToIndex[v]? = some i → (setup.indexToVif[i]?).isSome = true

theorem Setup.Closed.activate {setup : Setup} (h : setup.Closed) (iface : Opened) : (setup.activate iface).Closed := by
  have hkeep : ∀ i, (setup.indexToVif[i]?).isSome = true ∨ i = iface.ifindex →
      ((setup.indexToVif.insert iface.ifindex setup.nextVif)[i]?).isSome = true := by
    intro i hi
    rw [getElem?_insert]
    split_ifs with heq
    · rfl
    · exact hi.resolve_right heq
  constructor
  · intro name i hi
    apply hkeep
    unfold Setup.activate at hi
    dsimp only at hi
    rw [getElem?_insert] at hi
    split_ifs at hi
    · exact Or.inr (Option.some.inj hi).symm
    · exact Or.inl (h.names name i hi)
  · intro v i hi
    apply hkeep
    unfold Setup.activate at hi
    dsimp only at hi
    rw [getElem?_insert] at hi
    split_ifs at hi
    · exact Or.inr (Option.some.inj hi).symm
    · exact Or.inl (h.vifs v i hi)

theorem Setup.closed_of (localAddrs : List Ipv4Addr) (ifaces : List Opened) : (Setup.of localAddrs ifaces).Closed := by
  have hnone : (Setup.none localAddrs).Closed := by
    constructor
    · intro name i hi
      simp [Setup.none] at hi
    · intro v i hi
      simp [Setup.none] at hi
  exact List.foldlRecOn ifaces Setup.activate hnone fun setup h iface _ => h.activate iface

/-- All ways lead over interfaces that have virtual ones. -/
theorem Setup.Closed.isSome_of_rpf {setup : Setup} (h : setup.Closed) {routes : Routes} {dest : Ipv4Addr} {info : RpfInfo}
    (hinfo : routeRpf setup routes dest = some info) : (setup.indexToVif[info.ifindex]?).isSome = true := by
  unfold routeRpf at hinfo
  split_ifs at hinfo
  obtain ⟨route, -, hroute⟩ := Option.bind_eq_some_iff.mp hinfo
  obtain ⟨i, hi, rfl⟩ := Option.map_eq_some_iff.mp hroute
  exact h.names route.1 i hi

section Flow
variable (setup : Setup) (t : TreeTable) (flow : Flow)

/-- What the trees have go out for a flow that comes in on `iif`. -/
def Out (iif i : UInt32) : Prop := TreeTable.Wanted (fun key => (t.entry key).oifs) flow.1 flow.2 iif i

/-- A cache entry forwards on just the virtual interfaces that the trees want, and there is an interface at all. -/
def Fits (iif : UInt32) (e : Mfc) : Prop :=
  (∃ i, Out t flow iif i) ∧
    ∀ v, v ∈ e.ttls ↔ v.toNat < maxVifs ∧ ∃ i, Out t flow iif i ∧ setup.indexToVif[i]? = some v

/-- The runner and the kernel know the same of a flow. -/
inductive Paired : Option UInt32 × Option Mfc → Prop
  | neither : Paired (none, none)
  | both {iif : UInt32} {e : Mfc} (h : setup.indexToVif[iif]? = some e.parent) : Paired (some iif, some e)

/-- They know of it what the trees want. -/
inductive Settled : Option UInt32 × Option Mfc → Prop
  | neither : Settled (none, none)
  | both {iif : UInt32} {e : Mfc} (h : setup.indexToVif[iif]? = some e.parent) (hfits : Fits setup t flow iif e) :
    Settled (some iif, some e)

variable {setup t flow}

theorem Paired.mapped {p : Option UInt32 × Option Mfc} (h : Paired setup p) :
    (p.1 = none → p.2 = none) ∧ ∀ iif, p.1 = some iif → (setup.indexToVif[iif]?).isSome = true := by
  cases h with
  | neither => exact ⟨fun _ => rfl, fun iif hiif => by cases hiif⟩
  | both h =>
    constructor
    · intro hnone
      cases hnone
    · intro iif hiif
      cases hiif
      rw [h]
      rfl

theorem Settled.paired {p : Option UInt32 × Option Mfc} (h : Settled setup t flow p) : Paired setup p := by
  cases h with
  | neither => exact .neither
  | both h => exact .both h

/-- What the trees want of a flow is a matter of its two entries. -/
theorem Settled.of_entries {t' : TreeTable} {p : Option UInt32 × Option Mfc} (h : Settled setup t flow p)
    (hsame : ∀ key : TreeKey, key.2 = flow.2 → t'.entries[key]? = t.entries[key]?) : Settled setup t' flow p := by
  have hout : Out t' flow = Out t flow := by
    funext iif i
    unfold Out TreeTable.Wanted TreeTable.entry
    dsimp only
    rw [hsame (some flow.1, flow.2) rfl, hsame (none, flow.2) rfl]
  cases h with
  | neither => exact .neither
  | both h hfits =>
    unfold Fits at hfits
    rw [← hout] at hfits
    exact .both h hfits

/-- A new cache entry for the interfaces of a flow fits. -/
theorem fits_of (parent : UInt16) {iif : UInt32}
    (h : ((t.oifsFor flow.1 flow.2 iif).getD ∅).isEmpty = false) :
    Fits setup t flow iif
      (.of parent (((t.oifsFor flow.1 flow.2 iif).getD ∅).toList.filterMap fun i => setup.indexToVif[i]?)) := by
  have hout : ∀ i, i ∈ (t.oifsFor flow.1 flow.2 iif).getD ∅ ↔ Out t flow iif i := t.mem_oifsFor flow.1 flow.2 iif
  constructor
  · by_contra hnone
    rw [Bool.eq_false_iff, ne_eq, isEmpty_iff_forall] at h
    exact h fun i hi => hnone ⟨i, (hout i).mp hi⟩
  · intro v
    unfold Mfc.of
    rw [mem_insertAll, List.mem_filter, List.mem_filterMap, decide_eq_true_iff, and_comm]
    simp only [ExtTreeSet.mem_toList, hout, ExtTreeSet.not_mem_empty, false_or]

end Flow

namespace Runner
variable {setup : Setup} {r : Runner}

/-- What is known of a flow. -/
def view (r : Runner) (flow : Flow) : Option UInt32 × Option Mfc := (r.installed[flow]?, r.kernel[flow]?)

theorem tree_reprogramSg (setup : Setup) (r : Runner) (flow : Flow) : (r.reprogramSg setup flow).tree = r.tree := by
  unfold reprogramSg
  cases r.installed[flow]? with
  | none => rfl
  | some iif =>
    dsimp only
    cases setup.indexToVif[iif]? with
    | none => rfl
    | some parent =>
      dsimp only
      split_ifs <;> rfl

theorem view_reprogramSg_ne {flow other : Flow} (hne : other ≠ flow) (setup : Setup) (r : Runner) :
    (r.reprogramSg setup flow).view other = r.view other := by
  unfold reprogramSg
  cases r.installed[flow]? with
  | none => rfl
  | some iif =>
    dsimp only
    cases setup.indexToVif[iif]? with
    | none => rfl
    | some parent =>
      dsimp only
      split_ifs
      · unfold view
        rw [getElem?_erase, getElem?_erase, if_neg hne, if_neg hne]
      · unfold view
        rw [getElem?_insert, if_neg hne]

/-- A flow that is programmed anew is as the trees want it. -/
theorem settled_reprogramSg {flow : Flow} (hnone : r.installed[flow]? = none → r.kernel[flow]? = none)
    (hmapped : ∀ iif, r.installed[flow]? = some iif → (setup.indexToVif[iif]?).isSome = true) :
    Settled setup r.tree flow ((r.reprogramSg setup flow).view flow) := by
  unfold reprogramSg
  cases hinst : r.installed[flow]? with
  | none =>
    dsimp only
    unfold view
    rw [hinst, hnone hinst]
    exact .neither
  | some iif =>
    obtain ⟨parent, hparent⟩ := Option.isSome_iff_exists.mp (hmapped iif hinst)
    dsimp only
    rw [hparent]
    dsimp only
    split_ifs with hempty
    · unfold view
      rw [getElem?_erase, getElem?_erase, if_pos rfl, if_pos rfl]
      exact .neither
    · unfold view
      rw [hinst, getElem?_insert, if_pos rfl]
      exact .both hparent (fits_of parent (Bool.eq_false_iff.mpr hempty))

/-- All flows of a group are programmed anew, and no others. -/
theorem view_reprogramGroup (hpaired : ∀ flow, Paired setup (r.view flow)) (group : Ipv4Addr) :
    (r.reprogramGroup setup group).tree = r.tree ∧ ∀ flow,
      (flow.2 = group → Settled setup r.tree flow ((r.reprogramGroup setup group).view flow)) ∧
        (flow.2 ≠ group → (r.reprogramGroup setup group).view flow = r.view flow) := by
  have hview : ∀ (s : Runner) (flow other : Flow), other ≠ id flow → (s.reprogramSg setup flow).view other = s.view other :=
    fun s flow other hne => view_reprogramSg_ne hne setup s
  have htree : ∀ (s : Runner) (flow : Flow), s.tree = r.tree → (s.reprogramSg setup flow).tree = r.tree :=
    fun s flow hs => (tree_reprogramSg setup s flow).trans hs
  have hmem : ∀ flow, flow ∈ (r.installed.keys.filter fun flow => flow.2 = group).map id ↔
      flow ∈ r.installed ∧ flow.2 = group := by
    intro flow
    rw [List.map_id, List.mem_filter, ExtTreeMap.mem_keys, decide_eq_true_iff]
  have hnodup : ((r.installed.keys.filter fun flow => flow.2 = group).map id).Nodup := by
    rw [List.map_id]
    exact ExtTreeMap.nodup_keys.filter _
  unfold reprogramGroup
  refine ⟨List.foldlRecOn _ _ (motive := fun s => s.tree = r.tree) rfl fun s hs flow _ => htree s flow hs,
    fun flow => ⟨?_, ?_⟩⟩
  · intro hgroup
    by_cases hinst : flow ∈ r.installed
    · have hin : flow ∈ r.installed.keys.filter fun flow => flow.2 = group := by
        have := (hmem flow).mpr ⟨hinst, hgroup⟩
        rwa [List.map_id] at this
      obtain ⟨s, hs, hsame, hlast⟩ := Run.foldl_view_of_mem view hview htree hnodup rfl hin
      have hmapped := (hpaired flow).mapped
      dsimp only [id] at hsame hlast
      rw [← hsame] at hmapped
      have hsettled := settled_reprogramSg (r := s) hmapped.1 hmapped.2
      rw [hs, ← hlast] at hsettled
      exact hsettled
    · have hout : flow ∉ (r.installed.keys.filter fun flow => flow.2 = group).map id :=
        fun hin => hinst ((hmem flow).mp hin).1
      have hnone : r.view flow = (none, none) := by
        have hinst' := ExtTreeMap.getElem?_eq_none hinst
        have hkernel := ((hpaired flow).mapped).1 hinst'
        exact Prod.ext hinst' hkernel
      rw [Run.foldl_view_of_notMem view hview _ r flow hout, hnone]
      exact .neither
  · intro hgroup
    exact Run.foldl_view_of_notMem view hview _ r flow fun hin => hgroup ((hmem flow).mp hin).2

/-- All flows of some groups are programmed anew, and no others. -/
theorem view_reprogramGroups (hpaired : ∀ flow, Paired setup (r.view flow)) (groups : List Ipv4Addr) :
    (groups.foldl (reprogramGroup setup) r).tree = r.tree ∧ ∀ flow,
      (flow.2 ∈ groups → Settled setup r.tree flow ((groups.foldl (reprogramGroup setup) r).view flow)) ∧
        (flow.2 ∉ groups → (groups.foldl (reprogramGroup setup) r).view flow = r.view flow) := by
  induction groups generalizing r with
  | nil => exact ⟨rfl, fun flow => ⟨fun h => by simp at h, fun _ => rfl⟩⟩
  | cons group groups ih =>
    obtain ⟨htree, hview⟩ := view_reprogramGroup hpaired group
    have hnext : ∀ flow, Paired setup ((r.reprogramGroup setup group).view flow) := by
      intro flow
      by_cases hgroup : flow.2 = group
      · exact ((hview flow).1 hgroup).paired
      · rw [(hview flow).2 hgroup]
        exact hpaired flow
    obtain ⟨htrees, hviews⟩ := ih hnext
    rw [List.foldl_cons]
    refine ⟨htrees.trans htree, fun flow => ⟨?_, ?_⟩⟩
    · intro hin
      by_cases hlater : flow.2 ∈ groups
      · rw [← htree]
        exact (hviews flow).1 hlater
      · rw [(hviews flow).2 hlater]
        exact (hview flow).1 ((List.mem_cons.mp hin).resolve_right hlater)
    · intro hout
      rw [List.mem_cons, not_or] at hout
      rw [(hviews flow).2 hout.2, (hview flow).2 hout.1]

/-- After a change of the trees for which some groups are programmed anew, everything is as the trees want it exactly where
all other flows are. -/
theorem settled_retree_iff (hpaired : ∀ flow, Paired setup (r.view flow)) (tree : TreeTable) (groups : List Ipv4Addr) :
    (∀ flow, Paired setup ((groups.foldl (reprogramGroup setup) { r with tree }).view flow)) ∧
      ((∀ flow, Settled setup (groups.foldl (reprogramGroup setup) { r with tree }).tree flow
          ((groups.foldl (reprogramGroup setup) { r with tree }).view flow)) ↔
        ∀ flow, flow.2 ∉ groups → Settled setup tree flow (r.view flow)) := by
  have hsame : ∀ flow, Paired setup (view { r with tree } flow) := hpaired
  obtain ⟨htree, hview⟩ := view_reprogramGroups hsame groups
  constructor
  · intro flow
    by_cases hin : flow.2 ∈ groups
    · exact ((hview flow).1 hin).paired
    · rw [(hview flow).2 hin]
      exact hsame flow
  · rw [htree]
    constructor
    · intro hall flow hout
      have hflow := hall flow
      rw [(hview flow).2 hout] at hflow
      exact hflow
    · intro hothers flow
      by_cases hin : flow.2 ∈ groups
      · exact (hview flow).1 hin
      · rw [(hview flow).2 hin]
        exact hothers flow hin

/-- Each installed flow is in the cache with just the interfaces that the trees have for it, and no other flow is. -/
structure Mirrors (setup : Setup) (r : Runner) : Prop where
  installed : ∀ (flow : Flow) (iif : UInt32), r.installed[flow]? = some iif → ∃ (oifs : BTreeSet UInt32) (e : Mfc),
    r.tree.oifsFor flow.1 flow.2 iif = some oifs ∧ oifs ≠ ∅ ∧ r.kernel[flow]? = some e ∧
      setup.indexToVif[iif]? = some e.parent ∧
      ∀ v, v ∈ e.ttls ↔ v.toNat < maxVifs ∧ ∃ i ∈ oifs, setup.indexToVif[i]? = some v
  kernel : ∀ flow : Flow, r.installed[flow]? = none → r.kernel[flow]? = none

theorem mirrors_iff : Mirrors setup r ↔ ∀ flow, Settled setup r.tree flow (r.view flow) := by
  constructor
  · intro h flow
    unfold view
    cases hinst : r.installed[flow]? with
    | none =>
      rw [h.kernel flow hinst]
      exact .neither
    | some iif =>
      obtain ⟨oifs, e, hoifs, hne, hkernel, hparent, httls⟩ := h.installed flow iif hinst
      have hout : ∀ i, i ∈ oifs ↔ Out r.tree flow iif i := by
        intro i
        have hmem := r.tree.mem_oifsFor flow.1 flow.2 iif i
        rwa [hoifs] at hmem
      rw [hkernel]
      apply Settled.both hparent
      constructor
      · by_contra hnone
        exact hne (ExtTreeSet.ext_mem fun i => iff_of_false (fun hi => hnone ⟨i, (hout i).mp hi⟩) (by simp))
      · intro v
        rw [httls v]
        simp only [hout]
  · intro h
    constructor
    · intro flow iif hinst
      have hflow := h flow
      generalize hp : r.view flow = p at hflow
      unfold view at hp
      rw [hinst] at hp
      cases hflow with
      | neither => cases hp
      | both hparent hfits =>
        obtain ⟨hiif, hkernel⟩ := Prod.mk.inj hp
        obtain rfl := Option.some.inj hiif
        obtain ⟨⟨i, hi⟩, httls⟩ := hfits
        have hout : ∀ i, i ∈ (r.tree.oifsFor flow.1 flow.2 iif).getD ∅ ↔ Out r.tree flow iif i :=
          r.tree.mem_oifsFor flow.1 flow.2 iif
        cases hoifs : r.tree.oifsFor flow.1 flow.2 iif with
        | none =>
          have hnot := (hout i).mpr hi
          rw [hoifs] at hnot
          simp at hnot
        | some oifs =>
          rw [hoifs] at hout
          refine ⟨oifs, _, rfl, ?_, hkernel, hparent, ?_⟩
          · intro hempty
            have hin := (hout i).mpr hi
            rw [hempty] at hin
            simp at hin
          · intro v
            rw [httls v]
            simp only [← hout, Option.getD_some]
    · intro flow hinst
      have hflow := h flow
      generalize hp : r.view flow = p at hflow
      unfold view at hp
      rw [hinst] at hp
      cases hflow with
      | neither => exact (Prod.mk.inj hp).2
      | both hparent hfits => cases hp

/-- What a tick leaves of the interfaces of a tree. -/
def left (now : ℕ) (rpf : RpfLookup) (t : TreeTable) (key : TreeKey) : BTreeSet UInt32 :=
  (((t.entry key).aged now).route (rpf (t.target key))).oifs

/-- At a tick, the entry gets its first interface or loses its last, which takes a Join or Prune towards the root. -/
def Turns (now : ℕ) (rpf : RpfLookup) (t : TreeTable) (key : TreeKey) : Prop :=
  key ∈ t.entries ∧ (rpf (t.target key)).isSome = true ∧ (t.entry key).upstreamJoined ≠ !(left now rpf t key).isEmpty

/-- The virtual interfaces of an installed flow stay the same at a tick, unless a Join or Prune is sent for its group. -/
def Noticed (setup : Setup) (r : Runner) (ev : Event × Routes) : Prop :=
  ∀ now, ev.1 = .housekeep now → ∀ (flow : Flow) (iif : UInt32), r.installed[flow]? = some iif →
    (∃ key : TreeKey, key.2 = flow.2 ∧ Turns now (routeRpf setup ev.2) r.tree key) ∨
      (∃ i, TreeTable.Wanted (left now (routeRpf setup ev.2) r.tree) flow.1 flow.2 iif i) ∧
        ∀ v : UInt16, v.toNat < maxVifs →
          ((∃ i, TreeTable.Wanted (left now (routeRpf setup ev.2) r.tree) flow.1 flow.2 iif i ∧
              setup.indexToVif[i]? = some v) ↔
            ∃ i, Out r.tree flow iif i ∧ setup.indexToVif[i]? = some v)

section Tick
variable {now : ℕ} {rpf : RpfLookup} {t : TreeTable}

theorem oifs_expire (now : ℕ) (rpf : RpfLookup) (t : TreeTable) (key : TreeKey) :
    ((t.expire now rpf).1.entry key).oifs = left now rpf t key := by
  unfold TreeTable.entry left
  by_cases hkey : key ∈ t.entries
  · exact (TreeTable.touched_expire now rpf hkey).oifs
  · have hnew : t.entry key = .new := by
      unfold TreeTable.entry
      rw [ExtTreeMap.getElem?_eq_none hkey]
      rfl
    have hempty : (Entry.new.route (rpf (t.target key))).isEmpty = true := by
      rw [Entry.isEmpty_iff, Entry.route_new_localOifs, Entry.route_new_joinOifs]
      exact ⟨rfl, rfl⟩
    rw [(TreeTable.expire_of_notMem now rpf hkey).1, hnew, Entry.aged_new, Entry.oifs_route_of_isEmpty hempty]
    rfl

/-- The groups for which a tick sends something are those with an entry that turns. -/
theorem mem_groups_expire {group : Ipv4Addr} :
    group ∈ (t.expire now rpf).2.map JoinPruneAction.group ↔ ∃ key : TreeKey, key.2 = group ∧ Turns now rpf t key := by
  have hturns : ∀ key, flags key (t.expire now rpf).2 ≠ [] ↔ Turns now rpf t key := by
    intro key
    by_cases hkey : key ∈ t.entries
    · have htouched := TreeTable.touched_expire now rpf hkey
      unfold Turns left
      rw [htouched.flags, htouched.upstreamJoined]
      cases hway : (rpf (t.target key)).isSome with
      | false => simp
      | true =>
        have hheld : ((t.entry key).aged now).upstreamJoined = (t.entry key).upstreamJoined := rfl
        rw [hheld, Bool.true_and]
        simp [hkey, eq_comm]
    · rw [(TreeTable.expire_of_notMem now rpf hkey).2]
      exact iff_of_false (fun h => h rfl) fun h => hkey h.1
  rw [List.mem_map]
  constructor
  · rintro ⟨a, ha, rfl⟩
    exact ⟨a.key, snd_key a, (hturns a.key).mp ((flags_ne_nil _ _).mpr ⟨a, ha, rfl⟩)⟩
  · rintro ⟨key, rfl, hkey⟩
    obtain ⟨a, ha, rfl⟩ := (flags_ne_nil _ _).mp ((hturns key).mpr hkey)
    exact ⟨a, ha, (snd_key a).symm⟩

/-- A flow that is not programmed anew at a tick still fits where its virtual interfaces stay the same. -/
theorem settled_expire_iff {flow : Flow} {p : Option UInt32 × Option Mfc} (h : Settled setup t flow p) :
    Settled setup (t.expire now rpf).1 flow p ↔ ∀ iif, p.1 = some iif →
      (∃ i, TreeTable.Wanted (left now rpf t) flow.1 flow.2 iif i) ∧
        ∀ v : UInt16, v.toNat < maxVifs →
          ((∃ i, TreeTable.Wanted (left now rpf t) flow.1 flow.2 iif i ∧ setup.indexToVif[i]? = some v) ↔
            ∃ i, Out t flow iif i ∧ setup.indexToVif[i]? = some v) := by
  have hout : ∀ iif i, Out (t.expire now rpf).1 flow iif i ↔ TreeTable.Wanted (left now rpf t) flow.1 flow.2 iif i := by
    intro iif i
    unfold Out
    rw [funext (oifs_expire now rpf t)]
  cases h with
  | neither => exact iff_of_true .neither fun iif hiif => by cases hiif
  | @both iif e hparent hfits =>
    constructor
    · intro hafter iif' hiif
      cases hiif
      cases hafter with
      | both _ hfits' =>
        obtain ⟨hsome, httls'⟩ := hfits'
        simp only [hout] at hsome httls'
        refine ⟨hsome, fun v hv => ?_⟩
        have hboth := (httls' v).symm.trans (hfits.2 v)
        rwa [and_iff_right hv, and_iff_right hv] at hboth
    · intro hsame
      obtain ⟨hsome, hvifs⟩ := hsame iif rfl
      apply Settled.both hparent
      constructor
      · simp only [hout]
        exact hsome
      · intro v
        simp only [hout]
        rw [hfits.2 v]
        exact and_congr_right fun hv => (hvifs v hv).symm

end Tick

section Step
variable {ev : Event × Routes}

theorem view_noCache_ne {flow other : Flow} (hne : other ≠ flow) (iif : UInt32) :
    (reprogramSg setup { r with installed := r.installed.insert flow iif } flow).view other = r.view other := by
  rw [view_reprogramSg_ne hne]
  unfold view
  rw [getElem?_insert, if_neg hne]

theorem settled_noCache {flow : Flow} {iif : UInt32} (h : (setup.indexToVif[iif]?).isSome = true) :
    Settled setup r.tree flow
      ((reprogramSg setup { r with installed := r.installed.insert flow iif } flow).view flow) := by
  have hinst : (r.installed.insert flow iif)[flow]? = some iif := by rw [getElem?_insert, if_pos rfl]
  apply settled_reprogramSg (r := { r with installed := r.installed.insert flow iif })
  · intro hnone
    rw [hinst] at hnone
    cases hnone
  · intro i hi
    rw [hinst] at hi
    obtain rfl := Option.some.inj hi
    exact h

theorem isSome_of_noCache (hclosed : setup.Closed) {routes : Routes} {flow : Flow} {vif : UInt16} {iif : UInt32}
    (h : ((routeRpf setup routes flow.1).map RpfInfo.ifindex).or setup.vifToIndex[vif]? = some iif) :
    (setup.indexToVif[iif]?).isSome = true := by
  rw [Option.or_eq_some_iff] at h
  obtain hway | ⟨-, hvif⟩ := h
  · obtain ⟨info, hinfo, rfl⟩ := Option.map_eq_some_iff.mp hway
    exact hclosed.isSome_of_rpf hinfo
  · exact hclosed.vifs vif iif hvif

theorem entries_joinGroup (now : ℕ) (ifindex : UInt32) (rpf : RpfLookup) (t : TreeTable) (g : JpGroup) {key : TreeKey}
    (hne : key.2 ≠ g.group) : (joinGroup now ifindex rpf t g).entries[key]? = t.entries[key]? := by
  have hkey : ∀ source, key ≠ (source, g.group) := fun source heq => hne (congrArg Prod.snd heq)
  have hjoin : ∀ (t' : TreeTable) (s : EncodedSource),
      (t'.onReceivedJoin now ifindex g.group (jpSource s) rpf).1.entries[key]? = t'.entries[key]? := by
    intro t' s
    have htouch : (Op.receivedJoin now ifindex g.group (jpSource s)).touches t' key = false := decide_eq_false (hkey _)
    exact (TreeTable.untouched_apply (s := ⟨.receivedJoin now ifindex g.group (jpSource s), rpf⟩) htouch).1
  have hprune : ∀ (t' : TreeTable) (s : EncodedSource),
      (t'.onReceivedPrune ifindex g.group (jpSource s) rpf).1.entries[key]? = t'.entries[key]? := by
    intro t' s
    have htouch : (Op.receivedPrune ifindex g.group (jpSource s)).touches t' key = false := decide_eq_false (hkey _)
    exact (TreeTable.untouched_apply (s := ⟨.receivedPrune ifindex g.group (jpSource s), rpf⟩) htouch).1
  have hjoined := List.foldlRecOn g.joins (fun t s => (t.onReceivedJoin now ifindex g.group (jpSource s) rpf).1)
    (motive := fun t' => t'.entries[key]? = t.entries[key]?) rfl fun t' ht' s _ => (hjoin t' s).trans ht'
  unfold joinGroup
  exact List.foldlRecOn g.prunes (fun t s => (t.onReceivedPrune ifindex g.group (jpSource s) rpf).1)
    (motive := fun t' => t'.entries[key]? = t.entries[key]?) hjoined fun t' ht' s _ => (hprune t' s).trans ht'

theorem entries_joinGroups (now : ℕ) (ifindex : UInt32) (rpf : RpfLookup) (t : TreeTable) (groups : List JpGroup)
    {key : TreeKey} (hout : key.2 ∉ groups.map JpGroup.group) :
    (groups.foldl (joinGroup now ifindex rpf) t).entries[key]? = t.entries[key]? := by
  apply List.foldlRecOn groups (joinGroup now ifindex rpf) (motive := fun t' => t'.entries[key]? = t.entries[key]?) rfl
  intro t' ht' g hg
  have hne : key.2 ≠ g.group := fun heq => hout (List.mem_map.mpr ⟨g, hg, heq.symm⟩)
  exact (entries_joinGroup now ifindex rpf t' g hne).trans ht'

theorem entries_onMembership (ifindex : UInt32) (group : Ipv4Addr) (source : Option Ipv4Addr) (present : Bool)
    (rpf : RpfLookup) (t : TreeTable) {key : TreeKey} (hne : key.2 ≠ group) :
    (t.onMembership ifindex group source present rpf).1.entries[key]? = t.entries[key]? := by
  have htouch : (Op.membership ifindex group source present).touches t key = false :=
    decide_eq_false fun heq => hne (congrArg Prod.snd heq)
  exact (TreeTable.untouched_apply (s := ⟨.membership ifindex group source present, rpf⟩) htouch).1

/-- Where the trees do not change for any other group, all flows stay as the trees want them. -/
theorem settled_retree (hsettled : ∀ flow, Settled setup r.tree flow (r.view flow)) (tree : TreeTable)
    (groups : List Ipv4Addr) (hsame : ∀ key : TreeKey, key.2 ∉ groups → tree.entries[key]? = r.tree.entries[key]?) :
    ∀ flow, Settled setup (groups.foldl (reprogramGroup setup) { r with tree }).tree flow
      ((groups.foldl (reprogramGroup setup) { r with tree }).view flow) := by
  apply (settled_retree_iff (fun flow => (hsettled flow).paired) tree groups).2.mpr
  intro flow hout
  apply (hsettled flow).of_entries
  intro key hkey
  exact hsame key (by rwa [hkey])

theorem settled_step_iff (hclosed : setup.Closed) (hsettled : ∀ flow, Settled setup r.tree flow (r.view flow)) :
    (∀ flow, Settled setup (r.step setup ev).tree flow ((r.step setup ev).view flow)) ↔ Noticed setup r ev := by
  obtain ⟨ev, routes⟩ := ev
  cases ev with
  | housekeep now =>
    have hretree := (settled_retree_iff (fun flow => (hsettled flow).paired) (r.tree.expire now (routeRpf setup routes)).1
      ((r.tree.expire now (routeRpf setup routes)).2.map JoinPruneAction.group)).2
    refine hretree.trans ?_
    unfold Noticed
    constructor
    · intro hall now' heq flow iif hinst
      cases heq
      by_cases hgroup : flow.2 ∈ (r.tree.expire now (routeRpf setup routes)).2.map JoinPruneAction.group
      · exact Or.inl (mem_groups_expire.mp hgroup)
      · exact Or.inr ((settled_expire_iff (hsettled flow)).mp (hall flow hgroup) iif hinst)
    · intro hnoticed flow hgroup
      apply (settled_expire_iff (hsettled flow)).mpr
      intro iif hinst
      exact (hnoticed now rfl flow iif hinst).resolve_left fun hturn => hgroup (mem_groups_expire.mpr hturn)
  | membership up =>
    apply iff_of_true
    · apply settled_retree hsettled _ [up.group]
      intro key hout
      exact entries_onMembership _ _ _ _ _ _ (by simpa using hout)
    · intro now heq
      cases heq
  | joinPrune now ifindex upstream groups =>
    apply iff_of_true
    · unfold step
      dsimp only
      cases setup.ifaces[ifindex]? with
      | none => exact hsettled
      | some addr =>
        dsimp only
        split_ifs
        · exact hsettled
        · exact settled_retree hsettled _ _ fun key hout => entries_joinGroups now ifindex _ r.tree groups hout
    · intro now' heq
      cases heq
  | noCache flow vif =>
    apply iff_of_true
    · unfold step
      dsimp only
      cases hiif : ((routeRpf setup routes flow.1).map RpfInfo.ifindex).or setup.vifToIndex[vif]? with
      | none => exact hsettled
      | some iif =>
        intro other
        dsimp only
        rw [tree_reprogramSg]
        by_cases hne : other = flow
        · rw [hne]
          exact settled_noCache (r := r) (isSome_of_noCache hclosed hiif)
        · rw [view_noCache_ne hne]
          exact hsettled other
    · intro now heq
      cases heq
  | other => exact iff_of_true hsettled fun now heq => by cases heq

end Step

/-- In a run, the kernel mirrors the trees at all times if and only if no tick changes the virtual interfaces of an
installed flow without a Join or Prune for its group. -/
theorem mirrors_iff_noticed (localAddrs : List Ipv4Addr) (ifaces : List Opened) (rp : Ipv4Addr)
    (evs : List (Event × Routes)) :
    Run.Every (step (.of localAddrs ifaces)) (fun r ev => Mirrors (.of localAddrs ifaces) (r.step (.of localAddrs ifaces) ev))
        (start rp) evs ↔
      Run.Every (step (.of localAddrs ifaces)) (Noticed (.of localAddrs ifaces)) (start rp) evs := by
  have hclosed := Setup.closed_of localAddrs ifaces
  have hkeep : ∀ (r : Runner) (ev : Event × Routes), True → True → True := fun _ _ _ _ => trivial
  have hstep : ∀ (r : Runner) (ev : Event × Routes), True → True → Mirrors (.of localAddrs ifaces) r →
      (Mirrors (.of localAddrs ifaces) (r.step (.of localAddrs ifaces) ev) ↔ Noticed (.of localAddrs ifaces) r ev) := by
    intro r ev _ _ h
    rw [mirrors_iff, settled_step_iff hclosed (mirrors_iff.mp h)]
  have hstart : Mirrors (.of localAddrs ifaces) (start rp) := by
    constructor
    · intro flow iif hinst
      simp [start] at hinst
    · intro flow _
      simp [start]
  exact Run.every_good_iff (fun _ => True) (Mirrors (.of localAddrs ifaces)) hkeep hstep (Run.every_true _ _ evs) trivial hstart

/-- The rendezvous point itself, on two links, with a member on one and a Join from the other that is not renewed. -/
def unrenewed : List (Event × Routes) :=
  [(.membership ⟨2, 0xEF010101, none, true⟩, fun _ => none),
    (.joinPrune 0 3 0 [⟨0xEF010101, [⟨0x0A000909, true, true⟩], []⟩], fun _ => none),
    (.noCache (0x0A010101, 0xEF010101) 0, fun _ => none), (.housekeep 210000, fun _ => none)]

def twoLinks : List Opened := [⟨"eth0", 1, 0x0A000909⟩, ⟨"eth1", 2, 0x0A000A01⟩, ⟨"eth2", 3, 0x0A000B01⟩]

/-- The link of the Join still gets the packets. -/
theorem expired_join_still_served : ¬ ∀ (localAddrs : List Ipv4Addr) (ifaces : List Opened) (rp : Ipv4Addr)
    (evs : List (Event × Routes)), Run.Every (step (.of localAddrs ifaces))
      (fun r ev => Mirrors (.of localAddrs ifaces) (r.step (.of localAddrs ifaces) ev)) (start rp) evs := by
  intro hall
  obtain ⟨-, -, -, hlast, -⟩ := hall [0x0A000909] twoLinks 0x0A000909 unrenewed
  have hrun : ((unrenewed.foldl (step (.of [0x0A000909] twoLinks)) (start 0x0A000909)).installed[((0x0A010101, 0xEF010101) : Flow)]?) =
      some 1 := by
    decide +kernel
  obtain ⟨oifs, e, hoifs, -, hkernel, -, httls⟩ := hlast.installed (0x0A010101, 0xEF010101) 1 hrun
  have hstale : ((unrenewed.foldl (step (.of [0x0A000909] twoLinks)) (start 0x0A000909)).kernel[((0x0A010101, 0xEF010101) : Flow)]?).map
      (fun e => decide (2 ∈ e.ttls)) = some true := by
    decide +kernel
  have hleft : ((unrenewed.foldl (step (.of [0x0A000909] twoLinks)) (start 0x0A000909)).tree.oifsFor 0x0A010101 0xEF010101 1).map
      (fun oifs => oifs.toList) = some [2] := by
    decide +kernel
  have hstill : (2 : UInt16) ∈ e.ttls := by
    have hsame := (congrArg (Option.map fun e : Mfc => decide (2 ∈ e.ttls)) hkernel).symm.trans hstale
    exact of_decide_eq_true (Option.some.inj hsame)
  have honly : oifs.toList = [2] := by
    have hsame := (congrArg (Option.map fun oifs : BTreeSet UInt32 => oifs.toList) hoifs).symm.trans hleft
    exact Option.some.inj hsame
  obtain ⟨-, i, hi, hvif⟩ := (httls 2).mp hstill
  rw [← ExtTreeSet.mem_toList, honly, List.mem_singleton] at hi
  rw [hi] at hvif
  exact absurd hvif (by decide +kernel)

end Runner
end Wren.Daemon.Pim
