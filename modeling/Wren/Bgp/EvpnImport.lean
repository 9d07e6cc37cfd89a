import Wren.Bgp.EvpnViews

/-! Whether the imported views show all that the EVPN table holds. -/

namespace Wren.Bgp
open Wren.Core OrdMap Std

/-- The table holds an imported best path for the NLRI. -/
def EvpnRib.Imported (rib : EvpnRib) (rts : List RouteTarget) (n : EvpnNlri) : Prop :=
  ∃ p, rib.bestOf n = some p ∧ imports rts p = true

section View
variable {κ σ : Type} {key : EvpnNlri → Option κ} {rts : List RouteTarget} (owner : σ → κ → Option EvpnNlri)
  {f : σ → EvpnRibEvent → σ} {Inv : σ → Prop} (hInv : ∀ s e, Inv s → Inv (f s e))
  (hf : ∀ s e k, Inv s → Owned.Moves key EvpnRibEvent.nlri (·.Live rts) k e (owner s k) (owner (f s e) k))
  {rib rib' : EvpnRib} {events : List EvpnRibEvent} (htells : EvpnRib.Tells rib rib' events)

include htells in
theorem imported_of_told : ∀ e ∈ events, rib'.Imported rts e.nlri ↔ e.Live rts := by
  intro e he
  rw [EvpnRib.Imported, htells.told e he]
  rfl

include htells in
theorem imported_of_silent {n : EvpnNlri} (h : n ∉ events.map EvpnRibEvent.nlri) :
    rib'.Imported rts n ↔ rib.Imported rts n := by
  rw [EvpnRib.Imported, htells.silent n h]
  rfl

include hInv hf htells in
theorem sound_view {s : σ} (hs : Inv s) {k : κ} (h : Owned.Sound key (rib.Imported rts) k (owner s k)) :
    Owned.Sound key (rib'.Imported rts) k (owner (events.foldl f s) k) := by
  refine Owned.sound_foldl hInv hf htells.nodup (imported_of_told htells) hs ?_
  intro n hn
  obtain ⟨hk, hup⟩ := h n hn
  exact ⟨hk, fun hnot => (imported_of_silent htells hnot).mpr hup⟩

include hInv hf htells in
theorem complete_view_iff {s : σ} (hs : Inv s) {k : κ} (hsound : Owned.Sound key (rib.Imported rts) k (owner s k))
    (h : Owned.Complete key (rib.Imported rts) k (owner s k)) :
    Owned.Complete key (rib'.Imported rts) k (owner (events.foldl f s) k) ↔
      Owned.Replaced key EvpnRibEvent.nlri (·.Live rts) owner f (rib'.Imported rts) k s events := by
  refine Owned.complete_foldl_iff hInv hf htells.nodup (imported_of_told htells) hs (fun n hn => (hsound n hn).1) ?_
  intro hnone n hk hup
  by_cases hmem : n ∈ events.map EvpnRibEvent.nlri
  · obtain ⟨e, he, rfl⟩ := List.mem_map.mp hmem
    exact ⟨e, he, (imported_of_told htells e he).mp hup, rfl⟩
  · exact absurd hnone (h ⟨n, hk, (imported_of_silent htells hmem).mp hup⟩)

/-- An entry stands for an imported route exactly if its view is complete there. -/
theorem entry_iff {ν : Type} {entry : Option ν} {o : Option EvpnNlri} {k : κ} (hentry : entry = none ↔ o = none)
    (hsound : Owned.Sound key (rib.Imported rts) k o) :
    (entry.isSome ↔ ∃ n p, key n = some k ∧ rib.bestOf n = some p ∧ imports rts p = true) ↔
      Owned.Complete key (rib.Imported rts) k o := by
  have hsome : entry.isSome ↔ o ≠ none := by
    rw [Option.isSome_iff_ne_none, ne_eq, hentry]
  have hex : (∃ n p, key n = some k ∧ rib.bestOf n = some p ∧ imports rts p = true) ↔
      ∃ n, key n = some k ∧ rib.Imported rts n := by
    simp [EvpnRib.Imported]
  rw [hsome, hex]
  constructor
  · intro h
    exact h.mpr
  · intro h
    refine ⟨?_, h⟩
    intro hne
    obtain ⟨n, rfl⟩ := Option.ne_none_iff_exists'.mp hne
    exact ⟨n, hsound n rfl⟩

end View

/-- The table and the views that follow it. -/
structure EvpnState where
  rib : EvpnRib
  evi : EviTable
  vrf : IpVrfTable

namespace EvpnState

def new (evi vrf : List RouteTarget) : EvpnState := ⟨.new, .new evi, .new vrf⟩

/-- Every event of the table is applied to the views. -/
def step (s : EvpnState) (op : EvpnRib.Op) : EvpnState where
  rib := (s.rib.apply op).1
  evi := (s.rib.apply op).2.foldl EviTable.step s.evi
  vrf := (s.rib.apply op).2.foldl IpVrfTable.step s.vrf

/-- The views show a MAC, a VTEP and a prefix exactly if the table holds an imported best path for it. -/
def Complete (eviRts vrfRts : List RouteTarget) (s : EvpnState) : Prop :=
  (∀ ethTag mac, (s.evi.lookupMac ethTag mac).isSome ↔
    ∃ n p, n.macKey = some (ethTag, mac) ∧ s.rib.bestOf n = some p ∧ imports eviRts p = true) ∧
  (∀ vtep, (s.evi.vteps[vtep]?).isSome ↔
    ∃ n p, n.vtepKey = some vtep ∧ s.rib.bestOf n = some p ∧ imports eviRts p = true) ∧
  ∀ pfx, (s.vrf.lookup pfx).isSome ↔
    ∃ n p, n.prefixKey = some pfx ∧ s.rib.bestOf n = some p ∧ imports vrfRts p = true

/-- No NLRI that owns an entry stops being imported while another one for the same entry is, unless an
event that follows brings one. -/
def HandedOver (eviRts vrfRts : List RouteTarget) (s : EvpnState) (op : EvpnRib.Op) : Prop :=
  (∀ k, Owned.Replaced EvpnNlri.macKey EvpnRibEvent.nlri (·.Live eviRts) (fun t k => t.owners[k]?) EviTable.step
    ((s.rib.apply op).1.Imported eviRts) k s.evi (s.rib.apply op).2) ∧
  (∀ k, Owned.Replaced EvpnNlri.vtepKey EvpnRibEvent.nlri (·.Live eviRts) (fun t k => t.vtepOwners[k]?) EviTable.step
    ((s.rib.apply op).1.Imported eviRts) k s.evi (s.rib.apply op).2) ∧
  ∀ k, Owned.Replaced EvpnNlri.prefixKey EvpnRibEvent.nlri (·.Live vrfRts) (fun t k => t.owners[k]?) IpVrfTable.step
    ((s.rib.apply op).1.Imported vrfRts) k s.vrf (s.rib.apply op).2

/-- Owners are imported routes of their keys. -/
structure Owning (eviRts vrfRts : List RouteTarget) (s : EvpnState) : Prop where
  evi : s.evi.Coherent eviRts
  vrf : s.vrf.Coherent vrfRts
  macs : ∀ k, Owned.Sound EvpnNlri.macKey (s.rib.Imported eviRts) k s.evi.owners[k]?
  vteps : ∀ k, Owned.Sound EvpnNlri.vtepKey (s.rib.Imported eviRts) k s.evi.vtepOwners[k]?
  prefixes : ∀ k, Owned.Sound EvpnNlri.prefixKey (s.rib.Imported vrfRts) k s.vrf.owners[k]?

variable {eviRts vrfRts : List RouteTarget} {s : EvpnState}

theorem complete_iff (h : s.Owning eviRts vrfRts) :
    s.Complete eviRts vrfRts ↔
      (∀ k, Owned.Complete EvpnNlri.macKey (s.rib.Imported eviRts) k s.evi.owners[k]?) ∧
      (∀ k, Owned.Complete EvpnNlri.vtepKey (s.rib.Imported eviRts) k s.evi.vtepOwners[k]?) ∧
      ∀ k, Owned.Complete EvpnNlri.prefixKey (s.rib.Imported vrfRts) k s.vrf.owners[k]? := by
  refine and_congr ?_ (and_congr ?_ ?_)
  · constructor
    · rintro hall ⟨ethTag, mac⟩
      exact (entry_iff (h.evi.macs _) (h.macs _)).mp (hall ethTag mac)
    · intro hall ethTag mac
      exact (entry_iff (h.evi.macs _) (h.macs _)).mpr (hall (ethTag, mac))
  · exact forall_congr' fun k => entry_iff (h.evi.vteps k) (h.vteps k)
  · exact forall_congr' fun k => entry_iff (h.vrf.prefixes k) (h.prefixes k)

theorem owning_step (h : s.Owning eviRts vrfRts) (op : EvpnRib.Op) : (s.step op).Owning eviRts vrfRts := by
  have htells := s.rib.tells_apply op
  have hcohEvi : ∀ (t : EviTable) e, t.Coherent eviRts → (t.step e).Coherent eviRts := fun t e ht =>
    EviTable.coherent_step ht e
  have hcohVrf : ∀ (t : IpVrfTable) e, t.Coherent vrfRts → (t.step e).Coherent vrfRts := fun t e ht =>
    (IpVrfTable.step_spec ht e).1
  refine ⟨?_, ?_, ?_, ?_, ?_⟩
  · exact List.foldlRecOn _ _ h.evi fun t ht e _ => hcohEvi t e ht
  · exact List.foldlRecOn _ _ h.vrf fun t ht e _ => hcohVrf t e ht
  · intro k
    exact sound_view (fun t k => t.owners[k]?) hcohEvi
      (fun t e k ht => (EviTable.moves_step ht e).1 k) htells h.evi (h.macs k)
  · intro k
    exact sound_view (fun t k => t.vtepOwners[k]?) hcohEvi
      (fun t e k ht => (EviTable.moves_step ht e).2 k) htells h.evi (h.vteps k)
  · intro k
    exact sound_view (fun t k => t.owners[k]?) hcohVrf
      (fun t e k ht => (IpVrfTable.step_spec ht e).2 k) htells h.vrf (h.prefixes k)

theorem complete_step_iff (h : s.Owning eviRts vrfRts) (hc : s.Complete eviRts vrfRts) (op : EvpnRib.Op) :
    (s.step op).Complete eviRts vrfRts ↔ s.HandedOver eviRts vrfRts op := by
  have htells := s.rib.tells_apply op
  obtain ⟨hmacs, hvteps, hprefixes⟩ := (complete_iff h).mp hc
  have hcohEvi : ∀ (t : EviTable) e, t.Coherent eviRts → (t.step e).Coherent eviRts := fun t e ht =>
    EviTable.coherent_step ht e
  have hcohVrf : ∀ (t : IpVrfTable) e, t.Coherent vrfRts → (t.step e).Coherent vrfRts := fun t e ht =>
    (IpVrfTable.step_spec ht e).1
  rw [complete_iff (owning_step h op)]
  refine and_congr ?_ (and_congr ?_ ?_)
  · refine forall_congr' fun k => ?_
    exact complete_view_iff (fun t k => t.owners[k]?) hcohEvi
      (fun t e k ht => (EviTable.moves_step ht e).1 k) htells h.evi (h.macs k) (hmacs k)
  · refine forall_congr' fun k => ?_
    exact complete_view_iff (fun t k => t.vtepOwners[k]?) hcohEvi
      (fun t e k ht => (EviTable.moves_step ht e).2 k) htells h.evi (h.vteps k) (hvteps k)
  · refine forall_congr' fun k => ?_
    exact complete_view_iff (fun t k => t.owners[k]?) hcohVrf
      (fun t e k ht => (IpVrfTable.step_spec ht e).2 k) htells h.vrf (h.prefixes k) (hprefixes k)

theorem owning_new (eviRts vrfRts : List RouteTarget) : (new eviRts vrfRts).Owning eviRts vrfRts := by
  refine ⟨EviTable.coherent_new eviRts, IpVrfTable.coherent_new vrfRts, ?_, ?_, ?_⟩
  all_goals
    intro k n hn
    simp [new, EviTable.new, IpVrfTable.new] at hn

theorem complete_new (eviRts vrfRts : List RouteTarget) : (new eviRts vrfRts).Complete eviRts vrfRts := by
  rw [complete_iff (owning_new eviRts vrfRts)]
  refine ⟨?_, ?_, ?_⟩
  all_goals
    rintro k ⟨n, -, p, hp, -⟩
    simp [new] at hp

/-- Along every run of the table, the views are complete exactly as long as every step hands the entries
over. -/
theorem every_complete_iff (eviRts vrfRts : List RouteTarget) (ops : List EvpnRib.Op) :
    Run.Every step (fun s op => (s.step op).Complete eviRts vrfRts) (new eviRts vrfRts) ops ↔
      Run.Every step (HandedOver eviRts vrfRts) (new eviRts vrfRts) ops :=
  Run.every_good_iff (Owning eviRts vrfRts) (Complete eviRts vrfRts) (fun _ op h _ => owning_step h op)
    (fun _ op h _ hc => complete_step_iff h hc op) (Run.every_true _ _ _) (owning_new eviRts vrfRts) (complete_new eviRts vrfRts)

/-- A MAC route under the given Route Distinguisher, and a path that carries the Route Target. -/
def macRoute (o : UInt8) : EvpnNlri :=
  .macIp (.replicate 8 o) (.replicate 10 0) 0 (.replicate 6 2) none 50100 none

def macPath (o : UInt8) : Path := { Sample.path 65001 0 o with extCommunities := [.replicate 8 1] }

/-- Two PEs advertise a MAC under their own Route Distinguishers. When the second withdraws it, the view
forgets the MAC, though the route of the first is still there. -/
theorem not_forall_complete :
    ¬ ∀ (eviRts vrfRts : List RouteTarget) (ops : List EvpnRib.Op),
      (ops.foldl step (new eviRts vrfRts)).Complete eviRts vrfRts := by
  intro h
  have hcomplete := (h [.replicate 8 1] [] [.update (macPath 1).peerAddr (macRoute 1) (macPath 1),
    .update (macPath 2).peerAddr (macRoute 2) (macPath 2),
    .withdraw (macPath 2).peerAddr (macRoute 2)]).1 0 (.replicate 6 2)
  have hseen := hcomplete.mpr ⟨macRoute 1, macPath 1, rfl, by decide +kernel, by decide +kernel⟩
  revert hseen
  decide +kernel

end EvpnState
end Wren.Bgp
