import Wren.Isis.Multipath

/-! Other numbers for the System IDs. -/

namespace Wren.Isis
open OrdMap
open Std (ExtTreeMap)

section Renumber
variable (σ : Equiv.Perm SystemId)

def NodeId.renumber : NodeId ≃ NodeId where
  toFun n := ⟨σ n.systemId, n.pseudonode⟩
  invFun n := ⟨σ.symm n.systemId, n.pseudonode⟩
  left_inv n := by simp
  right_inv n := by simp

def LspId.renumber : LspId ≃ LspId where
  toFun i := ⟨σ i.systemId, i.pseudonode, i.fragment⟩
  invFun i := ⟨σ.symm i.systemId, i.pseudonode, i.fragment⟩
  left_inv i := by simp
  right_inv i := by simp

def Tlv.renumber : Tlv → Tlv
  | .lspEntries entries => .lspEntries (entries.map fun e => { e with lspId := e.lspId.renumber σ })
  | .extendedIsReachability reaches =>
      .extendedIsReachability (reaches.map fun r => { r with neighborId := NodeId.renumber σ r.neighborId })
  | .p2pThreeWay adjState id neighbor => .p2pThreeWay adjState id (neighbor.map fun n => (σ n.1, n.2))
  | t => t

def Lsp.renumber (l : Lsp) : Lsp := { l with lspId := LspId.renumber σ l.lspId, tlvs := l.tlvs.map (Tlv.renumber σ) }

/-- The database with other System IDs. -/
def Lsdb.renumber (db : Lsdb) : Lsdb where
  entries := rekey (LspId.renumber σ) (Lsp.renumber σ) db.entries
  id_eq := by
    intro i l h
    obtain ⟨k, rfl⟩ := (LspId.renumber σ).surjective i
    rw [getElem?_rekey] at h
    obtain ⟨m, hm, rfl⟩ := Option.map_eq_some_iff.mp h
    exact congrArg (LspId.renumber σ) (db.id_eq k m hm)

theorem Lsdb.get_renumber (db : Lsdb) (i : LspId) :
    (db.renumber σ).get (LspId.renumber σ i) = (db.get i).map (Lsp.renumber σ) :=
  getElem?_rekey _ _ db.entries i

theorem Tlv.renumber_refl (t : Tlv) : t.renumber (Equiv.refl SystemId) = t := by
  cases t with
  | lspEntries entries => simp [renumber, LspId.renumber]
  | extendedIsReachability reaches => simp [renumber, NodeId.renumber]
  | p2pThreeWay adjState id neighbor => simp [renumber]
  | _ => rfl

theorem Tlv.renumber_trans (τ : Equiv.Perm SystemId) (t : Tlv) : (t.renumber σ).renumber τ = t.renumber (σ.trans τ) := by
  cases t with
  | lspEntries entries => simp [renumber, LspId.renumber, Function.comp_def]
  | extendedIsReachability reaches => simp [renumber, NodeId.renumber, Function.comp_def]
  | p2pThreeWay adjState id neighbor => simp [renumber, Function.comp_def]
  | _ => rfl

theorem Lsp.renumber_refl (l : Lsp) : l.renumber (Equiv.refl SystemId) = l := by
  have htlvs : l.tlvs.map (Tlv.renumber (Equiv.refl SystemId)) = l.tlvs := List.map_id'' Tlv.renumber_refl l.tlvs
  unfold Lsp.renumber
  rw [htlvs]
  rfl

theorem Lsp.renumber_trans (τ : Equiv.Perm SystemId) (l : Lsp) : (l.renumber σ).renumber τ = l.renumber (σ.trans τ) := by
  have htlvs : (l.tlvs.map (Tlv.renumber σ)).map (Tlv.renumber τ) = l.tlvs.map (Tlv.renumber (σ.trans τ)) := by
    rw [List.map_map]
    exact List.map_congr_left fun t _ => Tlv.renumber_trans σ τ t
  unfold Lsp.renumber
  rw [htlvs]
  rfl

/-- A database is what it answers. -/
theorem Lsdb.ext_get {db db' : Lsdb} (h : ∀ i, db.get i = db'.get i) : db = db' := by
  obtain ⟨entries, hid⟩ := db
  obtain ⟨entries', hid'⟩ := db'
  obtain rfl : entries = entries' := ExtTreeMap.ext_getElem? fun i => h i
  rfl

theorem Lsdb.renumber_refl (db : Lsdb) : db.renumber (Equiv.refl SystemId) = db := by
  refine ext_get fun i => ?_
  have h := get_renumber (Equiv.refl SystemId) db i
  rw [Option.map_congr (g := id) fun l _ => Lsp.renumber_refl l, Option.map_id] at h
  exact h

theorem Lsdb.renumber_symm (db : Lsdb) : (db.renumber σ).renumber σ.symm = db := by
  refine ext_get fun i => ?_
  have hi : LspId.renumber σ.symm (LspId.renumber σ i) = i := (LspId.renumber σ).left_inv i
  have h := get_renumber σ.symm (db.renumber σ) (LspId.renumber σ i)
  rw [hi, get_renumber σ db i, Option.map_map] at h
  rw [h, Option.map_congr (g := id), Option.map_id]
  · rfl
  · intro l _
    change (l.renumber σ).renumber σ.symm = l
    rw [Lsp.renumber_trans, Equiv.self_trans_symm, Lsp.renumber_refl]

end Renumber

/-! ### What the calculation reads keeps its shape -/

section Transport
variable {db : Lsdb} {root : NodeId} {σ : Equiv.Perm SystemId}

@[simp] theorem NodeId.pseudonode_renumber (u : NodeId) : (NodeId.renumber σ u).pseudonode = u.pseudonode := rfl

@[simp] theorem NodeId.renumber_symm (u : NodeId) : NodeId.renumber σ.symm (NodeId.renumber σ u) = u :=
  (NodeId.renumber σ).left_inv u

theorem Live.renumber {u : NodeId} {l : Lsp} (h : Live db u l) :
    Live (db.renumber σ) (NodeId.renumber σ u) (l.renumber σ) := by
  obtain ⟨hget, rfl, hlife⟩ := h
  refine ⟨?_, rfl, hlife⟩
  have hfound := Lsdb.get_renumber σ db l.lspId
  rw [hget] at hfound
  exact hfound

theorem Advertises.renumber {u w : NodeId} {m : UInt32} (h : Advertises db u w m) :
    Advertises (db.renumber σ) (NodeId.renumber σ u) (NodeId.renumber σ w) m := by
  obtain ⟨l, hl, rs, hrs, r, hr, rfl, rfl⟩ := h
  exact ⟨l.renumber σ, hl.renumber, _, List.mem_map.mpr ⟨_, hrs, rfl⟩, _, List.mem_map.mpr ⟨r, hr, rfl⟩, rfl, rfl⟩

theorem HasAddress.renumber {u : NodeId} {a : Ipv4Addr} (h : HasAddress db u a) :
    HasAddress (db.renumber σ) (NodeId.renumber σ u) a := by
  obtain ⟨l, hl, addrs, haddrs, ha⟩ := h
  exact ⟨l.renumber σ, hl.renumber, addrs, List.mem_map.mpr ⟨_, haddrs, rfl⟩, ha⟩

theorem overloaded_renumber {u : NodeId} (h : Flagged db (fun l => l.overload) u) :
    Flagged (db.renumber σ) (fun l => l.overload) (NodeId.renumber σ u) := by
  obtain ⟨l, hl, hzero, hflag⟩ := h
  exact ⟨l.renumber σ, hl.renumber, hzero, hflag⟩

theorem advertises_renumber {u w : NodeId} {m : UInt32} :
    Advertises (db.renumber σ) (NodeId.renumber σ u) (NodeId.renumber σ w) m ↔ Advertises db u w m := by
  refine ⟨fun h => ?_, fun h => h.renumber⟩
  have hback := h.renumber (σ := σ.symm)
  rwa [Lsdb.renumber_symm, NodeId.renumber_symm, NodeId.renumber_symm] at hback

theorem link_renumber {u w : NodeId} {m : UInt32} :
    Link (db.renumber σ) (NodeId.renumber σ root) (NodeId.renumber σ u) (NodeId.renumber σ w) m ↔ Link db root u w m := by
  have hover : Flagged (db.renumber σ) (fun l => l.overload) (NodeId.renumber σ u) ↔ Flagged db (fun l => l.overload) u := by
    refine ⟨fun h => ?_, overloaded_renumber⟩
    have hback := overloaded_renumber (σ := σ.symm) h
    rwa [Lsdb.renumber_symm, NodeId.renumber_symm] at hback
  unfold Link Edge
  rw [advertises_renumber, (NodeId.renumber σ).injective.eq_iff]
  simp only [advertises_renumber]
  rw [hover]

theorem Path.renumber {u : NodeId} {d : ℕ} (h : Path db (· ≠ maxLinkMetric) root u d) :
    Path (db.renumber σ) (· ≠ maxLinkMetric) (NodeId.renumber σ root) (NodeId.renumber σ u) d := by
  induction h with
  | root => exact .root
  | step _ hedge ih => exact .step ih (link_renumber.mpr hedge)

theorem PathOver.renumber {u : NodeId} {p : List NodeId} {d : ℕ} (h : PathOver db root u p d) :
    PathOver (db.renumber σ) (NodeId.renumber σ root) (NodeId.renumber σ u) (p.map (NodeId.renumber σ)) d := by
  induction h with
  | root => exact .root
  | step _ hedge ih => exact .step ih (link_renumber.mpr hedge)

theorem shortest_renumber {u : NodeId} {d : ℕ} :
    Shortest (db.renumber σ) (NodeId.renumber σ root) (NodeId.renumber σ u) d ↔ Shortest db root u d := by
  have hpath : ∀ e, Path (db.renumber σ) (· ≠ maxLinkMetric) (NodeId.renumber σ root) (NodeId.renumber σ u) e ↔
      Path db (· ≠ maxLinkMetric) root u e := by
    intro e
    refine ⟨fun h => ?_, fun h => h.renumber⟩
    have hback := h.renumber (σ := σ.symm)
    rwa [Lsdb.renumber_symm, NodeId.renumber_symm, NodeId.renumber_symm] at hback
  have hset : Path (db.renumber σ) (· ≠ maxLinkMetric) (NodeId.renumber σ root) (NodeId.renumber σ u) =
      Path db (· ≠ maxLinkMetric) root u := funext fun e => propext (hpath e)
  unfold Shortest ShortestPath
  rw [hset]

theorem firstRouter_map (p : List NodeId) : firstRouter (p.map (NodeId.renumber σ)) = (firstRouter p).map (NodeId.renumber σ) := by
  rw [firstRouter, firstRouter, ← List.map_dropLast, ← List.map_reverse, List.find?_map]
  rfl

theorem FirstHop.renumber {v : NodeId} {a : Ipv4Addr} (h : FirstHop db root v a) :
    FirstHop (db.renumber σ) (NodeId.renumber σ root) (NodeId.renumber σ v) a := by
  obtain ⟨p, r, ⟨d, hd, hover⟩, hr, ha⟩ := h
  refine ⟨_, NodeId.renumber σ r, ⟨d, shortest_renumber.mpr hd, hover.renumber⟩, ?_, ha.renumber⟩
  rw [firstRouter_map, hr, Option.map_some]

theorem firstHop_renumber {v : NodeId} {a : Ipv4Addr} :
    FirstHop (db.renumber σ) (NodeId.renumber σ root) (NodeId.renumber σ v) a ↔ FirstHop db root v a := by
  refine ⟨fun h => ?_, fun h => h.renumber⟩
  have hback := h.renumber (σ := σ.symm)
  rwa [Lsdb.renumber_symm, NodeId.renumber_symm, NodeId.renumber_symm] at hback

theorem Regular.renumber (h : Regular db) : Regular (db.renumber σ) := by
  constructor
  · intro u w m hadv hreal
    obtain ⟨u, rfl⟩ := (NodeId.renumber σ).surjective u
    obtain ⟨w, rfl⟩ := (NodeId.renumber σ).surjective w
    exact h.metric u w m (advertises_renumber.mp hadv) hreal
  · intro u l hlive hreal
    have hback := hlive.renumber (σ := σ.symm)
    rw [Lsdb.renumber_symm] at hback
    obtain ⟨u, rfl⟩ := (NodeId.renumber σ).surjective u
    rw [NodeId.renumber_symm] at hback
    obtain ⟨a, ha⟩ := h.addressed u _ hback hreal
    exact ⟨a, ha.renumber⟩

theorem Flat.renumber (h : Flat db root) : Flat (db.renumber σ) (NodeId.renumber σ root) := by
  constructor
  · intro u w m hadv hlan
    obtain ⟨u, rfl⟩ := (NodeId.renumber σ).surjective u
    obtain ⟨w, rfl⟩ := (NodeId.renumber σ).surjective w
    exact h.routers u w m (advertises_renumber.mp hadv) hlan
  · intro v d hd
    obtain ⟨v, rfl⟩ := (NodeId.renumber σ).surjective v
    exact h.bounded v d (shortest_renumber.mp hd)

end Transport

/-- Under other System IDs every router keeps its next hops. -/
def Independent (db : Lsdb) (root : SystemId) (level : IsLevel) : Prop :=
  ∀ (σ : Equiv.Perm SystemId) (v : NodeId) (d : ℕ), Shortest db ⟨root, 0⟩ v d → v.pseudonode = 0 → v ≠ ⟨root, 0⟩ →
    ∃ addrs addrs', (compute db root level).nodeV4Nexthops[v]? = some addrs ∧
      (compute (db.renumber σ) (σ root) level).nodeV4Nexthops[NodeId.renumber σ v]? = some addrs' ∧
      ∀ a, a ∈ addrs' ↔ a ∈ addrs

/-- First hops do not depend on the numbers, so next hops that are complete do not either. -/
theorem complete_and_independent_iff (db : Lsdb) (root : SystemId) (level : IsLevel) :
    EcmpComplete db root level ∧ Independent db root level ↔
      ∀ σ : Equiv.Perm SystemId, EcmpComplete (db.renumber σ) (σ root) level := by
  constructor
  · rintro ⟨hcomplete, hindep⟩ σ v d hd hreal hne
    obtain ⟨v, rfl⟩ := (NodeId.renumber σ).surjective v
    have hd' : Shortest db ⟨root, 0⟩ v d := (@shortest_renumber db ⟨root, 0⟩ σ v d).mp hd
    have hne' : v ≠ ⟨root, 0⟩ := fun heq => hne (congrArg (NodeId.renumber σ) heq)
    obtain ⟨addrs, addrs', haddrs, haddrs', hsame⟩ := hindep σ v d hd' hreal hne'
    obtain ⟨addrs₀, haddrs₀, hall⟩ := hcomplete v d hd' hreal hne'
    rw [haddrs] at haddrs₀
    obtain rfl := Option.some.inj haddrs₀
    refine ⟨addrs', haddrs', fun a => ?_⟩
    rw [hsame, hall]
    exact (@firstHop_renumber db ⟨root, 0⟩ σ v a).symm
  · intro h
    have hcomplete : EcmpComplete db root level := by
      have hrefl := h (Equiv.refl SystemId)
      rwa [Lsdb.renumber_refl] at hrefl
    refine ⟨hcomplete, ?_⟩
    intro σ v d hd hreal hne
    obtain ⟨addrs, haddrs, hall⟩ := hcomplete v d hd hreal hne
    have hd' : Shortest (db.renumber σ) ⟨σ root, 0⟩ (NodeId.renumber σ v) d :=
      (@shortest_renumber db ⟨root, 0⟩ σ v d).mpr hd
    have hne' : NodeId.renumber σ v ≠ ⟨σ root, 0⟩ := fun heq => hne ((NodeId.renumber σ).injective heq)
    obtain ⟨addrs', haddrs', hall'⟩ := h σ _ d hd' hreal hne'
    refine ⟨addrs, addrs', haddrs, haddrs', fun a => ?_⟩
    rw [hall, hall']
    exact @firstHop_renumber db ⟨root, 0⟩ σ v a

def Tlv.reaches : Tlv → List ExtIsReach
  | .extendedIsReachability reaches => reaches
  | _ => []

theorem of_advertises {db : Lsdb} {P : NodeId → NodeId → UInt32 → Prop}
    (h : ∀ l ∈ db.iter, ∀ t ∈ l.tlvs, ∀ r ∈ t.reaches, P l.lspId.node r.neighborId r.metric) {u w : NodeId} {m : UInt32}
    (hadv : Advertises db u w m) : P u w m := by
  obtain ⟨l, ⟨hget, rfl, -⟩, rs, hrs, r, hr, rfl, rfl⟩ := hadv
  exact h l (Lsdb.mem_iter.mpr hget) _ hrs r hr

theorem regular_of_forall {db : Lsdb} (root : NodeId)
    (hmetric : ∀ l ∈ db.iter, ∀ t ∈ l.tlvs, ∀ r ∈ t.reaches, l.lspId.pseudonode = 0 → 1 ≤ r.metric.toNat)
    (haddr : ∀ l ∈ db.iter, l.lspId.pseudonode = 0 → (Spf.mk db root .l1).ifaceV4 l.lspId.node ≠ []) : Regular db := by
  constructor
  · intro u w m hadv hreal
    exact of_advertises (P := fun u _ m => u.pseudonode = 0 → 1 ≤ m.toNat) hmetric hadv hreal
  · rintro u l ⟨hget, rfl, -⟩ hreal
    obtain ⟨a, ha⟩ := List.exists_mem_of_ne_nil _ (haddr l (Lsdb.mem_iter.mpr hget) hreal)
    exact ⟨a, Spf.mem_ifaceV4.mp ha⟩

def lspWith (node : NodeId) (addrs : List Ipv4Addr) (links : List (NodeId × UInt32)) : Lsp :=
  ⟨.l1, 1200, ⟨node.systemId, node.pseudonode, 0⟩, 1, 0, false, 0, false, .l1,
    [.ipv4InterfaceAddresses addrs, .extendedIsReachability (links.map fun e => ⟨e.1, e.2, []⟩)]⟩

def diamond : Lsdb :=
  (((Lsdb.new.put (lspWith ⟨1, 0⟩ [10] [(⟨2, 0⟩, 1), (⟨3, 0⟩, 1)])).put
    (lspWith ⟨2, 0⟩ [20] [(⟨1, 0⟩, 1), (⟨4, 0⟩, 1)])).put
    (lspWith ⟨3, 0⟩ [30] [(⟨1, 0⟩, 1), (⟨4, 0⟩, 1)])).put
    (lspWith ⟨4, 0⟩ [40] [(⟨2, 0⟩, 1), (⟨3, 0⟩, 1)])

/-- The LAN of the fourth router has a higher ID than the router. -/
def twoLans : Lsdb :=
  (((((Lsdb.new.put (lspWith ⟨1, 0⟩ [10] [(⟨2, 0⟩, 1), (⟨3, 0⟩, 1)])).put
    (lspWith ⟨2, 0⟩ [20] [(⟨1, 0⟩, 1), (⟨2, 1⟩, 1)])).put
    (lspWith ⟨3, 0⟩ [30] [(⟨1, 0⟩, 1), (⟨4, 1⟩, 1)])).put
    (lspWith ⟨4, 0⟩ [40] [(⟨2, 1⟩, 1), (⟨4, 1⟩, 1)])).put
    (lspWith ⟨2, 1⟩ [] [(⟨2, 0⟩, 0), (⟨4, 0⟩, 0)])).put
    (lspWith ⟨4, 1⟩ [] [(⟨3, 0⟩, 0), (⟨4, 0⟩, 0)])

end Wren.Isis
