import Wren.Daemon.Router.Mirror

/-! Coalescing is transparent: a batch of updates that is folded into the RIB first and programmed
once for each key afterwards leaves what the same updates leave one by one. -/

namespace Wren.Daemon
open Std OrdMap Wren.Core Wren.Filter

/-- The update arm of the loop without the redistribution: fold the batch, then program the last
change of each key. -/
def applyCoalesced {φ : Type} [Fib φ] (imports : ImportFilters) (fibExport : Option Filter)
    (s : Rib × Plane φ) (batch : List RouteUpdate) : Rib × Plane φ :=
  let (rib, coalesced) := coalesce imports s.1 batch
  (rib, coalesced.toList.foldl (fun s e => programFib fibExport s e.2) s.2)

theorem applyCoalesced_eq {φ : Type} [Fib φ] (imports : ImportFilters) (fibExport : Option Filter)
    (rib : Rib) (s : Plane φ) (batch : List RouteUpdate) :
    applyCoalesced imports fibExport (rib, s) batch =
      ((coalesce imports rib batch).1,
        ((coalesce imports rib batch).2.toList.map Prod.snd).foldl (programFib fibExport) s) := by
  rw [List.foldl_map]
  rfl

theorem applyUpdate_eq {φ : Type} [Fib φ] (imports : ImportFilters) (fibExport : Option Filter)
    (s : Rib × Plane φ) (u : RouteUpdate) :
    applyUpdate imports fibExport s u = applyOp fibExport s (u.op imports) := by
  rw [applyUpdate, ingest_eq, applyOp]

theorem foldl_applyUpdate {φ : Type} [Fib φ] (imports : ImportFilters) (fibExport : Option Filter)
    (rib : Rib) (s : Plane φ) (batch : List RouteUpdate) :
    batch.foldl (applyUpdate imports fibExport) (rib, s) =
      ((rib.applyAll (batch.map (RouteUpdate.op imports))).1,
        (rib.applyAll (batch.map (RouteUpdate.op imports))).2.foldl (programFib fibExport) s) := by
  have hstep : applyUpdate imports fibExport = fun (s : Rib × Plane φ) u =>
      applyOp fibExport s (u.op imports) := by
    funext s u
    exact applyUpdate_eq imports fibExport s u
  rw [← foldl_applyOp, List.foldl_map, hstep]

/-- Every key of the plane mirrors the RIB. -/
def Agrees (fibExport : Option Filter) (rib : Rib) (s : Plane MemoryFib) : Prop :=
  ∀ k, (s.cell k).Mirrors fibExport (rib.bestIn k)

theorem agrees_foldl {rib rib' : Rib} {cs : List FibChange} (hset : Settles rib rib' cs)
    {fibExport : Option Filter} {s : Plane MemoryFib} (h : Agrees fibExport rib s)
    (hrib : rib'.Unconnected) : Agrees fibExport rib' (cs.foldl (programFib fibExport) s) := by
  intro k
  refine (mirrors_foldl_iff hset (h k)).mpr ?_
  intro hcovered
  obtain ⟨-, r, hbest, hconn⟩ := hcovered
  exact hrib k r (Rib.holds_of_bestIn hbest) hconn

theorem settles_apply {rib : Rib} (h : rib.WellFormed) (op : Rib.Op) :
    Settles rib (rib.apply op).1 (rib.apply op).2.toList := by
  have hone : Settles rib (rib.applyAll [op]).1 (rib.applyAll [op]).2 :=
    Rib.settles_applyAll h (by simp)
  simpa [Rib.applyAll] using hone

/-- Programming each change at once keeps the plane in agreement with the RIB. -/
theorem agrees_applyAll {fibExport : Option Filter} {ops : List Rib.Op} {rib : Rib}
    {s : Plane MemoryFib} (hwf : rib.WellFormed) (hrib : rib.Unconnected)
    (hops : ∀ r, .update r ∈ ops → r.protocol ≠ .connected) (h : Agrees fibExport rib s) :
    Agrees fibExport (rib.applyAll ops).1
      ((rib.applyAll ops).2.foldl (programFib fibExport) s) := by
  induction ops generalizing rib s with
  | nil => exact h
  | cons op ops ih =>
    have hrib' : (rib.apply op).1.Unconnected :=
      Rib.unconnected_apply hrib fun r hr => hops r (by simp [hr])
    have hagree := agrees_foldl (settles_apply hwf op) h hrib'
    have hrest := ih (Rib.wellFormed_apply hwf op) hrib' (fun r hr => hops r (by simp [hr])) hagree
    simpa only [Rib.applyAll, List.foldl_append] using hrest

/-- Two planes that agree with one RIB hold the same routes. -/
theorem Agrees.unique {fibExport : Option Filter} {rib : Rib} {s t : Plane MemoryFib}
    (hs : Agrees fibExport rib s) (ht : Agrees fibExport rib t) :
    s.exported = t.exported ∧ s.fib = t.fib := by
  constructor
  · exact ExtTreeMap.ext_getElem? fun k => (hs k).exported.trans (ht k).exported.symm
  · exact MemoryFib.ext_installed fun k => (hs k).installed.trans (ht k).installed.symm

/-- A change is kept only for a key that some update of the batch is about. -/
theorem coalesce_keys (imports : ImportFilters) {rib : Rib} (h : rib.WellFormed)
    (batch : List RouteUpdate) (k : FibKey) :
    k ∈ (coalesce imports rib batch).2 → k ∈ batch.map RouteUpdate.fibKey := by
  have hinv : (coalesce imports rib batch).1.WellFormed ∧
      ∀ k ∈ (coalesce imports rib batch).2, k ∈ batch.map RouteUpdate.fibKey := by
    unfold coalesce
    apply List.foldlRecOn batch (motive := fun s : Rib × BTreeMap FibKey FibChange =>
      s.1.WellFormed ∧ ∀ k ∈ s.2, k ∈ batch.map RouteUpdate.fibKey)
    · exact ⟨h, by simp⟩
    · intro s hs u hu
      obtain ⟨hwf, hkeys⟩ := hs
      rw [coalesceUpdate_fst, coalesceUpdate_snd]
      refine ⟨Rib.wellFormed_apply hwf _, ?_⟩
      cases hchange : (s.1.apply (u.op imports)).2 with
      | none => exact hkeys
      | some c =>
        have hkey : c.fibKey = u.fibKey := by
          rw [(hwf.apply_some hchange).1, fibKey_op]
        intro a ha
        rcases ExtTreeMap.mem_insert.mp ha with hcmp | hold
        · rw [← LawfulEqOrd.eq_of_compare hcmp, hkey]
          exact List.mem_map_of_mem hu
        · exact hkeys a hold
  exact hinv.2 k

theorem length_coalesce_le (imports : ImportFilters) {rib : Rib} (h : rib.WellFormed)
    (batch : List RouteUpdate) :
    (coalesce imports rib batch).2.toList.length ≤ (batch.map RouteUpdate.fibKey).toFinset.card := by
  have hnodup := nodup_keys_toList (coalesce imports rib batch).2
  have hsub : ((coalesce imports rib batch).2.toList.map Prod.fst).toFinset ⊆
      (batch.map RouteUpdate.fibKey).toFinset := by
    intro k hk
    rw [List.mem_toFinset, ExtTreeMap.map_fst_toList_eq_keys, ExtTreeMap.mem_keys] at hk
    exact List.mem_toFinset.mpr (coalesce_keys imports h batch k hk)
  calc (coalesce imports rib batch).2.toList.length
      = ((coalesce imports rib batch).2.toList.map Prod.fst).toFinset.card := by
        rw [List.toFinset_card_of_nodup hnodup, List.length_map]
    _ ≤ (batch.map RouteUpdate.fibKey).toFinset.card := Finset.card_le_card hsub

/-- Coalescing a batch and taking its updates one by one end in the same RIB, export record and
plane, and coalescing programs at most one change for each key of the batch. -/
theorem coalesce_transparent {rib : Rib} (hrib : rib.Reachable) (imports : ImportFilters)
    (fibExport : Option Filter) (s : Plane MemoryFib) (batch : List RouteUpdate)
    (hheld : ∀ k r, rib.Holds k r → r.protocol ≠ .connected)
    (hbatch : ∀ r, .announce r ∈ batch → r.protocol ≠ .connected)
    (hfib : ∀ k : FibKey, s.fib.installed[k]? = desired fibExport (rib.bestIn k))
    (hexported : ∀ k : FibKey, s.exported[k]? = desired fibExport (rib.bestIn k)) :
    let coalesced := applyCoalesced imports fibExport (rib, s) batch
    let sequential := batch.foldl (applyUpdate imports fibExport) (rib, s)
    coalesced.1 = sequential.1 ∧ coalesced.2.exported = sequential.2.exported ∧
      coalesced.2.fib = sequential.2.fib ∧
      (coalesce imports rib batch).2.toList.length ≤
        (batch.map RouteUpdate.fibKey).toFinset.card := by
  have hwf := hrib.wellFormed
  have hagree : Agrees fibExport rib s := fun k => ⟨hfib k, hexported k⟩
  have hops : ∀ r, .update r ∈ batch.map (RouteUpdate.op imports) → r.protocol ≠ .connected := by
    intro r hr
    obtain ⟨u, hu, hop⟩ := List.mem_map.mp hr
    exact op_ne_connected (fun a ha => hbatch a (ha ▸ hu)) hop
  have hfinal := Rib.unconnected_applyAll hheld hops
  have hsequential := agrees_applyAll hwf hheld hops hagree
  have hset := settles_coalesce imports hwf batch
  rw [coalesce_fst] at hset
  have hcoalesced := agrees_foldl hset hagree hfinal
  obtain ⟨hexp, hplane⟩ := hcoalesced.unique hsequential
  simp only [applyCoalesced_eq, foldl_applyUpdate]
  exact ⟨coalesce_fst imports rib batch, hexp, hplane, length_coalesce_le imports hwf batch⟩

/-- Two BGP announcements and a withdrawal of one network, from an empty router. -/
theorem coalesce_transparent_flap :
    let batch := [.announce (Sample.route .bgp), .withdraw rtTableMain Sample.net .bgp 0,
      .announce (Sample.route .static)]
    let s : Plane MemoryFib := ⟨.empty, ∅, ∅, []⟩
    (applyCoalesced (fun _ => none) none (Rib.new, s) batch).2.fib =
      (batch.foldl (applyUpdate (fun _ => none) none) (Rib.new, s)).2.fib := by
  exact (coalesce_transparent ⟨[], rfl⟩ (fun _ => none) none ⟨.empty, ∅, ∅, []⟩ _
    Rib.unconnected_new (by simp [Sample.route, Route.new])
    (by simp [Rib.bestIn_new, desired]) (by simp [Rib.bestIn_new, desired])).2.2.1

end Wren.Daemon
