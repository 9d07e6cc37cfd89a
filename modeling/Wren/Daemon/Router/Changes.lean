import Wren.Lib.Run
import Wren.Daemon.Router.Basic

/-! Every iteration of the router loop is a RIB transition followed by one `programFib` call for
each of a list of changes. The changes have distinct keys and carry the new best routes. -/

namespace Wren.Core
open Std OrdMap

/-- `cs` brings a plane from the best routes of `rib` to those of `rib'`. -/
structure Settles (rib rib' : Rib) (cs : List FibChange) : Prop where
  nodup : (cs.map FibChange.fibKey).Nodup
  target : ∀ c ∈ cs, c.target = rib'.bestIn c.fibKey
  untouched : ∀ k ∉ cs.map FibChange.fibKey, rib'.bestIn k = rib.bestIn k

theorem Settles.nil (rib : Rib) : Settles rib rib [] := ⟨by simp, by simp, fun _ _ => rfl⟩

namespace Rib

/-- Calls in order, with the changes they report. -/
def applyAll (rib : Rib) : List Op → Rib × List FibChange
  | [] => (rib, [])
  | op :: ops =>
    let rest := (rib.apply op).1.applyAll ops
    (rest.1, (rib.apply op).2.toList ++ rest.2)

theorem wellFormed_applyAll {rib : Rib} (h : rib.WellFormed) (ops : List Op) :
    (rib.applyAll ops).1.WellFormed := by
  induction ops generalizing rib with
  | nil => exact h
  | cons op ops ih => exact ih (wellFormed_apply h op)

theorem holds_applyAll {rib : Rib} {ops : List Op} {k : FibKey} {c : Route}
    (h : (rib.applyAll ops).1.Holds k c) : .update c ∈ ops ∨ rib.Holds k c := by
  induction ops generalizing rib with
  | nil => exact Or.inr h
  | cons op ops ih =>
    rcases ih h with hmem | hold
    · exact Or.inl (List.mem_cons_of_mem _ hmem)
    · rcases holds_apply hold with ⟨rfl, -⟩ | hold
      · exact Or.inl (by simp)
      · exact Or.inr hold

/-- No candidate of the RIB is a connected network. -/
def Unconnected (rib : Rib) : Prop := ∀ k r, rib.Holds k r → r.protocol ≠ .connected

theorem unconnected_new : Unconnected new := by
  intro k r hr
  obtain ⟨e, he, -⟩ := hr
  simp [new] at he

theorem unconnected_apply {rib : Rib} (h : Unconnected rib) {op : Op}
    (hop : ∀ r, op = .update r → r.protocol ≠ .connected) : Unconnected (rib.apply op).1 := by
  intro k r hr
  rcases holds_apply hr with ⟨hupd, -⟩ | hold
  · exact hop r hupd
  · exact h k r hold

theorem unconnected_applyAll {rib : Rib} (h : Unconnected rib) {ops : List Op}
    (hops : ∀ r, .update r ∈ ops → r.protocol ≠ .connected) : Unconnected (rib.applyAll ops).1 := by
  intro k r hr
  rcases holds_applyAll hr with hmem | hold
  · exact hops r hmem
  · exact h k r hold

theorem applyAll_fibKey {rib : Rib} (h : rib.WellFormed) {ops : List Op} {c : FibChange}
    (hc : c ∈ (rib.applyAll ops).2) : c.fibKey ∈ ops.map Op.fibKey := by
  induction ops generalizing rib with
  | nil => cases hc
  | cons op ops ih =>
    rcases List.mem_append.mp hc with hhead | htail
    · have hsome := Option.mem_toList.mp hhead
      rw [(h.apply_some hsome).1]
      simp
    · exact List.mem_cons_of_mem _ (ih (wellFormed_apply h op) htail)

/-- Calls on distinct keys: each change stays the last word on its key. -/
theorem settles_applyAll {rib : Rib} (h : rib.WellFormed) {ops : List Op}
    (hops : (ops.map Op.fibKey).Nodup) : Settles rib (rib.applyAll ops).1 (rib.applyAll ops).2 := by
  induction ops generalizing rib with
  | nil => exact Settles.nil rib
  | cons op ops ih =>
    simp only [List.map_cons, List.nodup_cons] at hops
    have hwf := wellFormed_apply h op
    have hrest := ih hwf hops.2
    have hfresh : op.fibKey ∉ ((rib.apply op).1.applyAll ops).2.map FibChange.fibKey := by
      intro hmem
      obtain ⟨c, hc, hkey⟩ := List.mem_map.mp hmem
      exact hops.1 (hkey ▸ applyAll_fibKey hwf hc)
    simp only [applyAll]
    cases hchange : (rib.apply op).2 with
    | none =>
      refine ⟨hrest.nodup, hrest.target, fun k hk => ?_⟩
      rw [hrest.untouched k hk]
      by_cases hop : k = op.fibKey
      · rw [hop, apply_none hchange]
      · rw [bestIn_apply_of_ne _ _ hop]
    | some c =>
      obtain ⟨hkey, htarget⟩ := h.apply_some hchange
      constructor
      · simpa [hkey] using And.intro (by simpa using hfresh) hrest.nodup
      · intro d hd
        rcases List.mem_append.mp hd with hd | hd
        · have hdc : d = c := by simpa using hd
          rw [hdc, htarget, hkey, hrest.untouched _ hfresh]
        · exact hrest.target d hd
      · intro k hk
        simp only [Option.toList_some, List.cons_append, List.nil_append, List.map_cons,
          List.mem_cons, not_or, hkey] at hk
        rw [hrest.untouched k hk.2, bestIn_apply_of_ne _ _ hk.1]

end Rib
end Wren.Core

namespace Wren.Daemon
open Std OrdMap Wren.Core Wren.Filter

/-- The RIB call an update amounts to under the import filters. -/
def RouteUpdate.op (imports : ImportFilters) : RouteUpdate → Rib.Op
  | .announce route =>
    match applyImport imports route with
    | .accept r => .update r
    | .reject => .withdraw route.table route.pfx route.protocol route.source
  | .withdraw table pfx protocol source => .withdraw table pfx protocol source

/-- The key an update is about. -/
def RouteUpdate.fibKey : RouteUpdate → FibKey
  | .announce route => route.fibKey
  | .withdraw table pfx _ _ => (table, pfx)

theorem ingest_eq (rib : Rib) (u : RouteUpdate) (imports : ImportFilters) :
    ingest rib u imports = rib.apply (u.op imports) := by
  cases u with
  | announce route =>
    simp only [ingest, RouteUpdate.op]
    cases applyImport imports route <;> rfl
  | withdraw table pfx protocol source => rfl

/-- A filter that may be absent keeps what identifies a route. -/
theorem applyExport_fibKey {fibExport : Option Filter} {route r : Route}
    (h : applyExport fibExport route = .accept r) :
    r.fibKey = route.fibKey ∧ r.protocol = route.protocol := by
  unfold applyExport at h
  split at h
  · exact ⟨Filter.fibKey_of_accept h, (Filter.apply_accept h).2.2.1⟩
  · cases h
    exact ⟨rfl, rfl⟩

theorem applyImport_accept {imports : ImportFilters} {route r : Route}
    (h : applyImport imports route = .accept r) :
    r.fibKey = route.fibKey ∧ r.protocol = route.protocol := by
  have hexport : applyExport (imports route.protocol) route = .accept r := h
  exact applyExport_fibKey hexport

theorem fibKey_op (imports : ImportFilters) (u : RouteUpdate) : (u.op imports).fibKey = u.fibKey := by
  cases u with
  | announce route =>
    simp only [RouteUpdate.op, RouteUpdate.fibKey]
    cases h : applyImport imports route with
    | accept r => exact (applyImport_accept h).1
    | reject => rfl
  | withdraw table pfx protocol source => rfl

theorem op_ne_connected {imports : ImportFilters} {u : RouteUpdate}
    (hu : ∀ r, u = .announce r → r.protocol ≠ .connected) {r : Route}
    (hr : u.op imports = .update r) : r.protocol ≠ .connected := by
  cases u with
  | announce route =>
    simp only [RouteUpdate.op] at hr
    cases himp : applyImport imports route with
    | accept a =>
      rw [himp] at hr
      cases hr
      rw [(applyImport_accept himp).2]
      exact hu route rfl
    | reject =>
      rw [himp] at hr
      cases hr
  | withdraw table pfx protocol source => cases hr

section Coalesce
variable (imports : ImportFilters)

/-- What the coalescing map holds after part of a batch: for each key that changed, a change to
the current best route; the other keys have the best route they began with. -/
structure Coalesced (rib : Rib) (s : Rib × BTreeMap FibKey FibChange) : Prop where
  wellFormed : s.1.WellFormed
  keyed : ∀ (k : FibKey) (c : FibChange), s.2[k]? = some c → c.fibKey = k
  target : ∀ (k : FibKey) (c : FibChange), s.2[k]? = some c → c.target = s.1.bestIn k
  untouched : ∀ k : FibKey, s.2[k]? = none → s.1.bestIn k = rib.bestIn k

theorem coalesceUpdate_fst (s : Rib × BTreeMap FibKey FibChange) (u : RouteUpdate) :
    (coalesceUpdate imports s u).1 = (s.1.apply (u.op imports)).1 := by
  rw [coalesceUpdate, ingest_eq]
  cases s.1.apply (u.op imports) with
  | mk rib change => cases change <;> rfl

theorem coalesceUpdate_snd (s : Rib × BTreeMap FibKey FibChange) (u : RouteUpdate) :
    (coalesceUpdate imports s u).2 =
      match (s.1.apply (u.op imports)).2 with
      | some change => s.2.insert change.fibKey change
      | none => s.2 := by
  rw [coalesceUpdate, ingest_eq]
  cases s.1.apply (u.op imports) with
  | mk rib change => cases change <;> rfl

theorem coalesced_coalesceUpdate {rib : Rib} {s : Rib × BTreeMap FibKey FibChange}
    (h : Coalesced rib s) (u : RouteUpdate) : Coalesced rib (coalesceUpdate imports s u) := by
  have hwf := Rib.wellFormed_apply h.wellFormed (u.op imports)
  have hne : ∀ k : FibKey, k ≠ (u.op imports).fibKey →
      (s.1.apply (u.op imports)).1.bestIn k = s.1.bestIn k :=
    fun k hk => s.1.bestIn_apply_of_ne (u.op imports) hk
  cases hchange : (s.1.apply (u.op imports)).2 with
  | none =>
    have hsame : ∀ k : FibKey, (s.1.apply (u.op imports)).1.bestIn k = s.1.bestIn k := by
      intro k
      by_cases hk : k = (u.op imports).fibKey
      · rw [hk, Rib.apply_none hchange]
      · exact hne k hk
    constructor <;> simp only [coalesceUpdate_fst, coalesceUpdate_snd, hchange]
    · exact hwf
    · exact h.keyed
    · exact fun k c hc => (h.target k c hc).trans (hsame k).symm
    · exact fun k hk => (hsame k).trans (h.untouched k hk)
  | some c =>
    obtain ⟨hkey, htarget⟩ := h.wellFormed.apply_some hchange
    constructor <;> simp only [coalesceUpdate_fst, coalesceUpdate_snd, hchange, getElem?_insert]
    · exact hwf
    · intro k d hd
      split_ifs at hd with hk
      · rw [← Option.some.inj hd, hk]
      · exact h.keyed k d hd
    · intro k d hd
      split_ifs at hd with hk
      · rw [← Option.some.inj hd, htarget, hk, hkey]
      · exact (h.target k d hd).trans (hne k (hkey ▸ hk)).symm
    · intro k hk
      split_ifs at hk with hkc
      exact (hne k (hkey ▸ hkc)).trans (h.untouched k hk)

theorem coalesced_coalesce {rib : Rib} (h : rib.WellFormed) (batch : List RouteUpdate) :
    Coalesced rib (coalesce imports rib batch) := by
  apply List.foldlRecOn batch
  · exact ⟨h, by simp, by simp, fun _ _ => rfl⟩
  · intro s hs u _
    exact coalesced_coalesceUpdate imports hs u

/-- Coalescing delays only the programming: the RIB takes every update of the batch. -/
theorem coalesce_fst (rib : Rib) (batch : List RouteUpdate) :
    (coalesce imports rib batch).1 = (rib.applyAll (batch.map (RouteUpdate.op imports))).1 := by
  have hfold : ∀ (l : List RouteUpdate) (s : Rib × BTreeMap FibKey FibChange),
      (l.foldl (coalesceUpdate imports) s).1 =
        (s.1.applyAll (l.map (RouteUpdate.op imports))).1 := by
    intro l
    induction l with
    | nil => exact fun s => rfl
    | cons u l ih =>
      intro s
      rw [List.foldl_cons, ih, coalesceUpdate_fst]
      rfl
  exact hfold batch (rib, ∅)

theorem settles_coalesce {rib : Rib} (h : rib.WellFormed) (batch : List RouteUpdate) :
    Settles rib (coalesce imports rib batch).1
      ((coalesce imports rib batch).2.toList.map Prod.snd) := by
  have hc := coalesced_coalesce imports h batch
  have hget : ∀ e ∈ (coalesce imports rib batch).2.toList,
      (coalesce imports rib batch).2[e.1]? = some e.2 :=
    fun e he => ExtTreeMap.mem_toList_iff_getElem?_eq_some.mp he
  have hkeys : ((coalesce imports rib batch).2.toList.map Prod.snd).map FibChange.fibKey =
      (coalesce imports rib batch).2.toList.map Prod.fst := by
    rw [List.map_map]
    exact List.map_congr_left fun e he => hc.keyed e.1 e.2 (hget e he)
  constructor
  · rw [hkeys]
    exact nodup_keys_toList _
  · intro c hmem
    obtain ⟨e, he, rfl⟩ := List.mem_map.mp hmem
    rw [hc.keyed e.1 e.2 (hget e he)]
    exact hc.target e.1 e.2 (hget e he)
  · intro k hk
    rw [hkeys, ExtTreeMap.map_fst_toList_eq_keys, ExtTreeMap.mem_keys] at hk
    exact hc.untouched k (ExtTreeMap.getElem?_eq_none hk)

end Coalesce

theorem fibKey_retryChange {rib : Rib} (h : rib.WellFormed) (k : FibKey) :
    (retryChange rib k).fibKey = k := by
  unfold retryChange
  split
  · rename_i route hroute
    exact h.fibKey_of_bestIn hroute
  · rfl

theorem target_retryChange (rib : Rib) (k : FibKey) : (retryChange rib k).target = rib.bestIn k := by
  unfold retryChange
  split
  · rename_i route hroute
    exact hroute.symm
  · rename_i hnone
    exact hnone.symm

theorem settles_retry {rib : Rib} (h : rib.WellFormed) (failed : BTreeSet FibKey) :
    Settles rib rib (failed.toList.map (retryChange rib)) := by
  constructor
  · have hkeys : (failed.toList.map (retryChange rib)).map FibChange.fibKey = failed.toList := by
      rw [List.map_map]
      exact (List.map_congr_left fun k _ => fibKey_retryChange h k).trans (List.map_id _)
    rw [hkeys]
    exact nodup_toList failed
  · intro c hc
    obtain ⟨k, -, rfl⟩ := List.mem_map.mp hc
    rw [target_retryChange, fibKey_retryChange h]
  · exact fun _ _ => rfl

theorem indexStatics_keyed (statics : List Route) :
    ∀ (k : FibKey) (r : Route), (indexStatics statics)[k]? = some r → r.fibKey = k ∧ r ∈ statics := by
  unfold indexStatics
  apply List.foldlRecOn statics (motive := fun m => ∀ (k : FibKey) (r : Route), m[k]? = some r →
    r.fibKey = k ∧ r ∈ statics)
  · simp
  · intro m hm route hroute k r hr
    rw [getElem?_insert] at hr
    split_ifs at hr with hk
    · cases Option.some.inj hr
      exact ⟨hk.symm, hroute⟩
    · exact hm k r hr

/-- A reload touches each key at most once. -/
theorem nodup_reloadOps (current : BTreeMap FibKey Route) (statics : List Route) :
    ((reloadOps current (indexStatics statics)).map Rib.Op.fibKey).Nodup := by
  have hremoved : ((current.toList.filter fun e => !(indexStatics statics).contains e.1).map
      fun e => (Rib.Op.withdraw e.1.1 e.1.2 .static e.2.source).fibKey).Nodup :=
    (nodup_keys_toList current).sublist (List.filter_sublist.map Prod.fst)
  have hchanged : (((indexStatics statics).toList.filter fun e => current[e.1]? ≠ some e.2).map
      fun e => (Rib.Op.update e.2).fibKey).Nodup := by
    have hkeys : ∀ e ∈ (indexStatics statics).toList.filter fun e => current[e.1]? ≠ some e.2,
        (Rib.Op.update e.2).fibKey = e.1 := by
      intro e he
      exact (indexStatics_keyed statics e.1 e.2 (ExtTreeMap.mem_toList_iff_getElem?_eq_some.mp
        (List.mem_of_mem_filter he))).1
    rw [List.map_congr_left hkeys]
    exact (nodup_keys_toList _).sublist (List.filter_sublist.map Prod.fst)
  rw [reloadOps, List.map_append, List.map_map, List.map_map, List.nodup_append]
  refine ⟨hremoved, hchanged, ?_⟩
  intro a ha b hb hab
  obtain ⟨e, he, rfl⟩ := List.mem_map.mp ha
  obtain ⟨f, hf, rfl⟩ := List.mem_map.mp hb
  have hnot : (indexStatics statics).contains e.1 = false := by
    simpa using (List.mem_filter.mp he).2
  have hget := ExtTreeMap.mem_toList_iff_getElem?_eq_some.mp (List.mem_of_mem_filter hf)
  have hkey : f.2.fibKey = f.1 := (indexStatics_keyed statics f.1 f.2 hget).1
  have heq : e.1 = f.1 := hab.trans hkey
  rw [heq, ExtTreeMap.contains_eq_isSome_getElem?, hget] at hnot
  cases hnot

section
variable {φ : Type} [Fib φ]

theorem foldl_applyOp (fibExport : Option Filter) (s : Plane φ) (rib : Rib) (ops : List Rib.Op) :
    ops.foldl (applyOp fibExport) (rib, s) =
      ((rib.applyAll ops).1, (rib.applyAll ops).2.foldl (programFib fibExport) s) := by
  induction ops generalizing rib s with
  | nil => rfl
  | cons op ops ih =>
    rw [List.foldl_cons, applyOp, Rib.applyAll]
    cases happ : rib.apply op with
    | mk rib' change =>
      cases change with
      | none => exact ih s rib'
      | some c => exact ih (programFib fibExport s c) rib'

namespace Router

/-- The changes that one iteration hands to `programFib`, in order. -/
def changes (s : Router φ) : Event → List FibChange
  | .updates first queued => (coalesce s.imports s.rib (batch first queued)).2.toList.map Prod.snd
  | .reload statics => (s.rib.applyAll (reloadOps s.currentStatics (indexStatics statics))).2
  | .tick => s.plane.failed.toList.map (retryChange s.rib)
  | .subscribe _ => []
  | .filterReload _ _ => []

private theorem foldl_program (l : List FibChange) (s : Router φ) :
    l.foldl program s =
      { s with
        plane := l.foldl (programFib s.fibExport) s.plane
        redist := l.foldl (fun targets c => redistribute targets (redistEvent c)) s.redist } := by
  induction l generalizing s with
  | nil => rfl
  | cons c l ih =>
    rw [List.foldl_cons, ih]
    rfl

theorem step_updates (s : Router φ) (first : RouteUpdate) (queued : List RouteUpdate) :
    s.step (.updates first queued) =
      { s with
        rib := (coalesce s.imports s.rib (batch first queued)).1
        plane := (s.changes (.updates first queued)).foldl (programFib s.fibExport) s.plane
        redist := (s.changes (.updates first queued)).foldl
          (fun targets c => redistribute targets (redistEvent c)) s.redist } := by
  simp only [step, changes]
  rw [← List.foldl_map (f := Prod.snd) (g := program), foldl_program]

theorem step_reload (s : Router φ) (statics : List Route) :
    s.step (.reload statics) =
      { s with
        rib := (s.rib.applyAll (reloadOps s.currentStatics (indexStatics statics))).1
        plane := (s.changes (.reload statics)).foldl (programFib s.fibExport) s.plane
        currentStatics := indexStatics statics } := by
  simp only [step, changes, reloadStatics, foldl_applyOp]

theorem step_tick (s : Router φ) :
    s.step .tick =
      { s with plane := (s.changes .tick).foldl (programFib s.fibExport) s.plane } := by
  simp only [step, changes, retryFailed, List.foldl_map]

/-- Apart from subscriptions, an iteration changes the plane only by programming its changes. -/
theorem step_plane (s : Router φ) (ev : Event) (h : ∀ accepts, ev ≠ .subscribe accepts) :
    (s.step ev).plane = (s.changes ev).foldl (programFib s.fibExport) s.plane := by
  cases ev with
  | updates first queued => rw [step_updates]
  | subscribe accepts => exact absurd rfl (h accepts)
  | reload statics => rw [step_reload]
  | filterReload imports fibExport => rfl
  | tick => rw [step_tick]

theorem step_filters (s : Router φ) (ev : Event) :
    (s.step ev).fibExport =
      match ev with
      | .filterReload _ fibExport => fibExport
      | _ => s.fibExport := by
  cases ev with
  | updates first queued => rw [step_updates]
  | subscribe accepts => rfl
  | reload statics => rw [step_reload]
  | filterReload imports fibExport => rfl
  | tick => rw [step_tick]

/-- The RIB calls of one iteration. -/
def ops (s : Router φ) : Event → List Rib.Op
  | .updates first queued => (batch first queued).map (RouteUpdate.op s.imports)
  | .reload statics => reloadOps s.currentStatics (indexStatics statics)
  | .tick => []
  | .subscribe _ => []
  | .filterReload _ _ => []

theorem step_rib (s : Router φ) (ev : Event) : (s.step ev).rib = (s.rib.applyAll (s.ops ev)).1 := by
  cases ev with
  | updates first queued => rw [step_updates]; exact coalesce_fst _ _ _
  | subscribe accepts => rfl
  | reload statics => rw [step_reload]; rfl
  | filterReload imports fibExport => rfl
  | tick => rfl

theorem wellFormed_step {s : Router φ} (h : s.rib.WellFormed) (ev : Event) :
    (s.step ev).rib.WellFormed := by
  rw [step_rib]
  exact Rib.wellFormed_applyAll h _

/-- The changes of an iteration lead from the old best routes to the new ones. -/
theorem settles_step {s : Router φ} (h : s.rib.WellFormed) (ev : Event) :
    Settles s.rib (s.step ev).rib (s.changes ev) := by
  cases ev with
  | updates first queued => rw [step_updates]; exact settles_coalesce _ h _
  | subscribe accepts => exact Settles.nil _
  | reload statics => rw [step_reload]; exact Rib.settles_applyAll h (nodup_reloadOps _ _)
  | filterReload imports fibExport => exact Settles.nil _
  | tick => rw [step_tick]; exact settles_retry h _

end Router
end
end Wren.Daemon
