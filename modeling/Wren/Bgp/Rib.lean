import Wren.Bgp.Selection
import Wren.Lib.Replica
import Wren.Lib.Run

/-! The BGP routing information bases: the paths each peer offered and the best one selected
from them, with a notification whenever the selection changes. -/

namespace Wren.Bgp
open Wren.Core OrdMap

inductive RibEvent where
  | best (pfx : Prefix) (path : Path) (hops : List NextHop)
  | withdrawn (pfx : Prefix)
deriving DecidableEq

/-- The paths offered for one destination, by peer and received path identifier. -/
abbrev Offers := BTreeMap (IpAddr × UInt32) Path

def Offers.paths (peers : Offers) : List Path := peers.toList.map Prod.snd

structure BgpRib where
  entries : BTreeMap Prefix Offers
  best : BTreeMap Prefix Path
  hops : BTreeMap Prefix (List NextHop)
  maxPaths : ℕ

namespace BgpRib

def withMaxPaths (maxPaths : ℕ) : BgpRib := ⟨∅, ∅, ∅, max maxPaths 1⟩

def new : BgpRib := withMaxPaths 1

/-- The next hops of the paths that tie with `best`, after those already in `hops`. -/
def collectHops (maxPaths : ℕ) (best : Path) : List NextHop → List Path → List NextHop
  | hops, [] => hops
  | hops, p :: ps =>
    -- the winner itself, of which the source compares the address: an equal path would add no hop
    if p = best ∨ multipathEligible best p = false then collectHops maxPaths best hops ps
    else
      let hops := if p.nextHopEntry ∈ hops then hops else hops ++ [p.nextHopEntry]
      if hops.length ≥ maxPaths then hops else collectHops maxPaths best hops ps

/-- The best path of a destination and its forwarding next hops, the winner's first. -/
def selection (rib : BgpRib) (pfx : Prefix) : Option (Path × List NextHop) := do
  let peers ← rib.entries[pfx]?
  let best ← selectBest peers.paths
  let hops := [best.nextHopEntry]
  some (best, if rib.maxPaths > 1 then collectHops rib.maxPaths best hops peers.paths else hops)

def reselect (rib : BgpRib) (pfx : Prefix) : BgpRib × Option RibEvent :=
  match rib.selection pfx with
  | some (path, hops) =>
    if rib.best[pfx]? = some path ∧ rib.hops[pfx]? = some hops then (rib, none)
    else
      ({ rib with best := rib.best.insert pfx path, hops := rib.hops.insert pfx hops },
        some (.best pfx path hops))
  | none =>
    ({ rib with best := rib.best.erase pfx, hops := rib.hops.erase pfx },
      (rib.best[pfx]?).map fun _ => .withdrawn pfx)

/-- Replace the offers of a destination. An empty set of offers is not kept. -/
def setOffers (rib : BgpRib) (pfx : Prefix) (peers : Offers) : BgpRib :=
  { rib with entries := if peers.isEmpty then rib.entries.erase pfx else rib.entries.insert pfx peers }

def updateWithId (rib : BgpRib) (peer : IpAddr) (pathId : UInt32) (pfx : Prefix) (path : Path) :
    BgpRib × Option RibEvent :=
  let peers := (rib.entries[pfx]?.getD ∅).insert (peer, pathId) path
  reselect { rib with entries := rib.entries.insert pfx peers } pfx

def withdrawWithId (rib : BgpRib) (peer : IpAddr) (pathId : UInt32) (pfx : Prefix) :
    BgpRib × Option RibEvent :=
  match rib.entries[pfx]? with
  | some peers => reselect (rib.setOffers pfx (peers.erase (peer, pathId))) pfx
  | none => reselect rib pfx

/-- The destinations for which `peer` offers a path. -/
def prefixesFrom (rib : BgpRib) (peer : IpAddr) : List Prefix :=
  (rib.entries.toList.filter fun e => e.2.toList.any fun o => o.1.1 == peer).map Prod.fst

/-- Drop what `peer` offers for one destination. -/
def withdrawPeerAt (rib : BgpRib) (peer : IpAddr) (pfx : Prefix) : BgpRib × Option RibEvent :=
  match rib.entries[pfx]? with
  | some peers => reselect (rib.setOffers pfx (peers.filter fun k _ => k.1 ≠ peer)) pfx
  | none => reselect rib pfx

def withdrawPeer (rib : BgpRib) (peer : IpAddr) : BgpRib × List RibEvent :=
  (rib.prefixesFrom peer).foldl (fun (rib, events) pfx =>
    let (rib, ev) := rib.withdrawPeerAt peer pfx
    (rib, events ++ ev.toList)) (rib, [])

/-- The candidate paths of a destination, in the order of their keys. -/
def paths (rib : BgpRib) (pfx : Prefix) : List ((IpAddr × UInt32) × Path) :=
  (rib.entries[pfx]?).elim [] fun peers => peers.toList

/-- The path a peer offers for a destination under one path identifier. -/
def offer (rib : BgpRib) (pfx : Prefix) (src : IpAddr × UInt32) : Option Path :=
  (rib.entries[pfx]?).bind fun peers => peers[src]?

theorem offer_eq (rib : BgpRib) (pfx : Prefix) (src : IpAddr × UInt32) :
    rib.offer pfx src = (rib.entries[pfx]?.getD ∅)[src]? := by
  unfold offer
  cases rib.entries[pfx]? with
  | none => simp
  | some peers => rfl

/-- Best path and next hops of a destination, as notifications report them. -/
def locRib (rib : BgpRib) (pfx : Prefix) : Option (Path × List NextHop) :=
  (rib.best[pfx]?).bind fun path => (rib.hops[pfx]?).map fun hops => (path, hops)

@[simp] theorem reselect_entries (rib : BgpRib) (pfx : Prefix) :
    (rib.reselect pfx).1.entries = rib.entries := by
  unfold reselect
  split
  · split <;> rfl
  · rfl

@[simp] theorem reselect_maxPaths (rib : BgpRib) (pfx : Prefix) :
    (rib.reselect pfx).1.maxPaths = rib.maxPaths := by
  unfold reselect
  split
  · split <;> rfl
  · rfl

theorem reselect_best (rib : BgpRib) (pfx x : Prefix) :
    (rib.reselect pfx).1.best[x]? =
      if x = pfx then (rib.selection pfx).map Prod.fst else rib.best[x]? := by
  unfold reselect
  cases hsel : rib.selection pfx with
  | none => simp [getElem?_erase]
  | some sel =>
    by_cases hsame : rib.best[pfx]? = some sel.1 ∧ rib.hops[pfx]? = some sel.2
    · simp only [hsame, and_self, if_true, Option.map_some]
      split_ifs with hx
      · rw [hx, hsame.1]
      · rfl
    · simp only [hsame, if_false, getElem?_insert, Option.map_some]

theorem reselect_hops (rib : BgpRib) (pfx x : Prefix) :
    (rib.reselect pfx).1.hops[x]? =
      if x = pfx then (rib.selection pfx).map Prod.snd else rib.hops[x]? := by
  unfold reselect
  cases hsel : rib.selection pfx with
  | none => simp [getElem?_erase]
  | some sel =>
    by_cases hsame : rib.best[pfx]? = some sel.1 ∧ rib.hops[pfx]? = some sel.2
    · simp only [hsame, and_self, if_true, Option.map_some]
      split_ifs with hx
      · rw [hx, hsame.2]
      · rfl
    · simp only [hsame, if_false, getElem?_insert, Option.map_some]

end BgpRib

/-- What a notification says about one destination. -/
def RibEvent.delta : RibEvent → Replica.Delta Prefix (Path × List NextHop)
  | .best pfx path hops => ⟨pfx, some (path, hops)⟩
  | .withdrawn pfx => ⟨pfx, none⟩

/-- What it says about the best path alone. -/
def RibEvent.bestDelta : RibEvent → Replica.Delta Prefix Path
  | .best pfx path _ => ⟨pfx, some path⟩
  | .withdrawn pfx => ⟨pfx, none⟩

namespace BgpRib

def bestOf (rib : BgpRib) (pfx : Prefix) : Option Path := rib.best[pfx]?

theorem bestOf_reselect (rib : BgpRib) (pfx : Prefix) :
    (rib.reselect pfx).1.bestOf =
      Replica.replay rib.bestOf ((rib.reselect pfx).2.toList.map RibEvent.bestDelta) := by
  funext x
  have hview : (rib.reselect pfx).1.bestOf x =
      if x = pfx then (rib.selection pfx).map Prod.fst else rib.bestOf x := reselect_best rib pfx x
  rw [hview]
  unfold reselect
  cases hsel : rib.selection pfx with
  | none =>
    cases hbest : rib.best[pfx]? with
    | none =>
      split_ifs with hx
      · simp [hx, bestOf, hbest]
      · rfl
    | some path => simp [RibEvent.bestDelta, Replica.Delta.apply, Function.update_apply]
  | some sel =>
    by_cases hsame : rib.best[pfx]? = some sel.1 ∧ rib.hops[pfx]? = some sel.2
    · split_ifs with hx
      · simp [hx, bestOf, hsame]
      · simp [hsame]
    · simp [hsame, RibEvent.bestDelta, Replica.Delta.apply, Function.update_apply]

/-- A notification is sent exactly when it says something new. -/
theorem locRib_reselect (rib : BgpRib) (pfx : Prefix) :
    (rib.reselect pfx).1.locRib =
      Replica.replay rib.locRib ((rib.reselect pfx).2.toList.map RibEvent.delta) := by
  funext x
  have hview : (rib.reselect pfx).1.locRib x = if x = pfx then rib.selection pfx else rib.locRib x := by
    rw [locRib, reselect_best, reselect_hops]
    split_ifs with hx
    · cases rib.selection pfx <;> rfl
    · rfl
  rw [hview]
  unfold reselect
  cases hsel : rib.selection pfx with
  | none =>
    cases hbest : rib.best[pfx]? with
    | none =>
      split_ifs with hx
      · simp [hx, locRib, hbest]
      · rfl
    | some path => simp [RibEvent.delta, Replica.Delta.apply, Function.update_apply]
  | some sel =>
    by_cases hsame : rib.best[pfx]? = some sel.1 ∧ rib.hops[pfx]? = some sel.2
    · split_ifs with hx
      · simp [hx, locRib, hsame]
      · simp [hsame]
    · simp [hsame, RibEvent.delta, Replica.Delta.apply, Function.update_apply]

/-- Replace the offers of a destination and select anew. -/
def resolve (rib : BgpRib) (pfx : Prefix) (peers : Offers) : BgpRib × Option RibEvent :=
  reselect (rib.setOffers pfx peers) pfx

/-- The offers for a destination, none if it has no entry. -/
def offers (rib : BgpRib) (pfx : Prefix) : Offers := rib.entries[pfx]?.getD ∅

theorem updateWithId_eq (rib : BgpRib) (peer : IpAddr) (pathId : UInt32) (pfx : Prefix) (path : Path) :
    rib.updateWithId peer pathId pfx path =
      rib.resolve pfx ((rib.offers pfx).insert (peer, pathId) path) := by
  have hne : ((rib.offers pfx).insert (peer, pathId) path).isEmpty = false := by simp
  rw [resolve, setOffers, hne]
  rfl

/-- Without an entry there is nothing to withdraw. -/
theorem setOffers_empty {rib : BgpRib} {pfx : Prefix} (h : rib.entries[pfx]? = none) :
    rib.setOffers pfx ∅ = rib := by
  have herase : rib.entries.erase pfx = rib.entries := by
    apply Std.ExtTreeMap.ext_getElem?
    intro x
    rw [getElem?_erase]
    split_ifs with hx
    · rw [hx, h]
    · rfl
  simp [setOffers, herase]

theorem withdrawWithId_eq (rib : BgpRib) (peer : IpAddr) (pathId : UInt32) (pfx : Prefix) :
    rib.withdrawWithId peer pathId pfx =
      rib.resolve pfx ((rib.offers pfx).erase (peer, pathId)) := by
  unfold withdrawWithId resolve offers
  cases h : rib.entries[pfx]? with
  | none =>
    have herase : (∅ : Offers).erase (peer, pathId) = ∅ := by simp
    simp only [Option.getD_none, herase, setOffers_empty h]
  | some peers => rfl

theorem withdrawPeerAt_eq (rib : BgpRib) (peer : IpAddr) (pfx : Prefix) :
    rib.withdrawPeerAt peer pfx =
      rib.resolve pfx ((rib.offers pfx).filter fun k _ => k.1 ≠ peer) := by
  unfold withdrawPeerAt resolve offers
  cases h : rib.entries[pfx]? with
  | none =>
    have hfilter : (∅ : Offers).filter (fun k _ => k.1 ≠ peer) = ∅ := by
      apply Std.ExtTreeMap.ext_getElem?
      intro k
      simp
    simp only [Option.getD_none, hfilter, setOffers_empty h]
  | some peers => rfl

theorem resolve_entries (rib : BgpRib) (pfx x : Prefix) (peers : Offers) :
    (rib.resolve pfx peers).1.entries[x]? =
      if x = pfx then (if peers.isEmpty then none else some peers) else rib.entries[x]? := by
  rw [resolve, reselect_entries, setOffers]
  split_ifs with hempty hx hx
  · rw [getElem?_erase, if_pos hx]
  · rw [getElem?_erase, if_neg hx]
  · rw [getElem?_insert, if_pos hx]
  · rw [getElem?_insert, if_neg hx]

@[simp] theorem resolve_maxPaths (rib : BgpRib) (pfx : Prefix) (peers : Offers) :
    (rib.resolve pfx peers).1.maxPaths = rib.maxPaths := by
  rw [resolve, reselect_maxPaths]
  rfl

theorem offers_resolve (rib : BgpRib) (pfx x : Prefix) (peers : Offers) :
    (rib.resolve pfx peers).1.offers x = if x = pfx then peers else rib.offers x := by
  rw [offers, resolve_entries]
  split_ifs with hx hempty
  · exact (Std.ExtTreeMap.isEmpty_iff.mp hempty).symm
  · rfl
  · rfl

theorem locRib_resolve (rib : BgpRib) (pfx : Prefix) (peers : Offers) :
    (rib.resolve pfx peers).1.locRib =
      Replica.replay rib.locRib ((rib.resolve pfx peers).2.toList.map RibEvent.delta) :=
  locRib_reselect (rib.setOffers pfx peers) pfx

theorem selection_congr {rib rib' : BgpRib} {pfx : Prefix} (hentries : rib.entries[pfx]? = rib'.entries[pfx]?)
    (hmax : rib.maxPaths = rib'.maxPaths) : rib.selection pfx = rib'.selection pfx := by
  unfold selection
  rw [hentries, hmax]

/-- The Loc-RIB is what selection makes of the Adj-RIB-In, and no empty entry is kept. -/
structure Selected (rib : BgpRib) : Prop where
  best_eq : ∀ x : Prefix, rib.best[x]? = (rib.selection x).map Prod.fst
  hops_eq : ∀ x : Prefix, rib.hops[x]? = (rib.selection x).map Prod.snd
  nonempty : ∀ (x : Prefix) (peers : Offers), rib.entries[x]? = some peers → peers.isEmpty = false

theorem selected_withMaxPaths (n : ℕ) : (withMaxPaths n).Selected := by
  refine ⟨?_, ?_, ?_⟩
  · intro x
    simp [withMaxPaths, selection]
  · intro x
    simp [withMaxPaths, selection]
  · intro x peers h
    simp [withMaxPaths] at h

theorem Selected.resolve {rib : BgpRib} (h : rib.Selected) (pfx : Prefix) (peers : Offers) :
    (rib.resolve pfx peers).1.Selected := by
  have hother : ∀ x, x ≠ pfx → (rib.resolve pfx peers).1.selection x = rib.selection x := by
    intro x hx
    apply selection_congr
    · rw [resolve_entries, if_neg hx]
    · exact resolve_maxPaths rib pfx peers
  have hself : (rib.resolve pfx peers).1.selection pfx = (rib.setOffers pfx peers).selection pfx := by
    apply selection_congr
    · rw [BgpRib.resolve, reselect_entries]
    · rw [BgpRib.resolve, reselect_maxPaths]
  refine ⟨?_, ?_, ?_⟩
  · intro x
    by_cases hx : x = pfx
    · subst hx
      rw [hself, BgpRib.resolve, reselect_best, if_pos rfl]
    · rw [hother x hx, BgpRib.resolve, reselect_best, if_neg hx]
      exact h.best_eq x
  · intro x
    by_cases hx : x = pfx
    · subst hx
      rw [hself, BgpRib.resolve, reselect_hops, if_pos rfl]
    · rw [hother x hx, BgpRib.resolve, reselect_hops, if_neg hx]
      exact h.hops_eq x
  · intro x peers' hget
    rw [resolve_entries] at hget
    split_ifs at hget with hx hempty
    · have heq : peers = peers' := Option.some.inj hget
      rw [← heq]
      exact Bool.eq_false_iff.mpr hempty
    · exact h.nonempty x peers' hget

/-- The loop only appends hops of eligible paths, each once, up to the limit. -/
theorem collectHops_spec {maxPaths : ℕ} (best : Path) (ps : List Path) {hops : List NextHop}
    (hnodup : hops.Nodup) (hlen : hops.length < maxPaths) :
    ∃ rest, collectHops maxPaths best hops ps = hops ++ rest ∧ (hops ++ rest).Nodup ∧
      (hops ++ rest).length ≤ maxPaths ∧
      ∀ h ∈ rest, ∃ p ∈ ps, multipathEligible best p = true ∧ p.nextHopEntry = h := by
  induction ps generalizing hops with
  | nil => exact ⟨[], by simp [collectHops], by simpa using hnodup, by simpa using hlen.le, by simp⟩
  | cons p ps ih =>
    rw [collectHops]
    by_cases hskip : p = best ∨ multipathEligible best p = false
    · obtain ⟨rest, heq, hnd, hle, hrest⟩ := ih hnodup hlen
      refine ⟨rest, by rw [if_pos hskip, heq], hnd, hle, ?_⟩
      intro h hh
      obtain ⟨q, hq, helig⟩ := hrest h hh
      exact ⟨q, by simp [hq], helig⟩
    · have helig : multipathEligible best p = true := by
        rw [not_or, Bool.not_eq_false] at hskip
        exact hskip.2
      rw [if_neg hskip]
      by_cases hmem : p.nextHopEntry ∈ hops
      · obtain ⟨rest, heq, hnd, hle, hrest⟩ := ih hnodup hlen
        refine ⟨rest, by simp [hmem, Nat.not_le.mpr hlen, heq], hnd, hle, ?_⟩
        intro h hh
        obtain ⟨q, hq, helig⟩ := hrest h hh
        exact ⟨q, by simp [hq], helig⟩
      · have hnd' : (hops ++ [p.nextHopEntry]).Nodup := by
          rw [← List.concat_eq_append]
          exact hnodup.concat hmem
        simp only [hmem, if_false]
        by_cases hfull : (hops ++ [p.nextHopEntry]).length ≥ maxPaths
        · refine ⟨[p.nextHopEntry], if_pos hfull, hnd', ?_, ?_⟩
          · simp only [List.length_append, List.length_singleton]
            omega
          · intro h hh
            exact ⟨p, by simp, helig, (List.mem_singleton.mp hh).symm⟩
        · obtain ⟨rest, heq, hnd, hle, hrest⟩ := ih hnd' (Nat.not_le.mp hfull)
          refine ⟨p.nextHopEntry :: rest, ?_, by simpa using hnd, by simpa using hle, ?_⟩
          · rw [if_neg hfull, heq]
            simp
          · intro h hh
            rcases List.mem_cons.mp hh with rfl | hh
            · exact ⟨p, by simp, helig, rfl⟩
            · obtain ⟨q, hq, helig'⟩ := hrest h hh
              exact ⟨q, by simp [hq], helig'⟩

/-- What the Loc-RIB holds for a destination, against what its peers offer. -/
structure FollowsOffers (rib : BgpRib) (pfx : Prefix) : Prop where
  no_empty : rib.entries[pfx]? ≠ some ∅
  isSome_iff : (rib.best[pfx]?).isSome ↔ rib.offers pfx ≠ ∅
  best_eq : rib.best[pfx]? = selectBest (rib.offers pfx).paths
  hops_none : rib.best[pfx]? = none → rib.hops[pfx]? = none
  hops_some : ∀ w, rib.best[pfx]? = some w → ∃ rest, rib.hops[pfx]? = some (w.nextHopEntry :: rest) ∧
    (w.nextHopEntry :: rest).Nodup ∧ (w.nextHopEntry :: rest).length ≤ rib.maxPaths ∧
    ∀ h ∈ rest, ∃ p ∈ (rib.offers pfx).paths, multipathEligible w p = true ∧ p.nextHopEntry = h

theorem selection_fst (rib : BgpRib) (pfx : Prefix) :
    (rib.selection pfx).map Prod.fst = selectBest (rib.offers pfx).paths := by
  unfold selection offers
  cases h : rib.entries[pfx]? with
  | none => simp [Offers.paths, selectBest_eq_none_iff.mpr]
  | some peers =>
    cases hbest : selectBest peers.paths with
    | none => simp [hbest]
    | some w => simp [hbest]

/-- A best path is one of the paths offered. -/
theorem Selected.offer_of_best {rib : BgpRib} (h : rib.Selected) {x : Prefix} {path : Path}
    (hbest : rib.best[x]? = some path) : ∃ src, rib.offer x src = some path := by
  rw [h.best_eq, selection_fst] at hbest
  obtain ⟨e, he, rfl⟩ := List.mem_map.mp (selectBest_mem hbest)
  refine ⟨e.1, ?_⟩
  rw [offer_eq]
  exact Std.ExtTreeMap.mem_toList_iff_getElem?_eq_some.mp he

theorem Selected.offer_of_best_none {rib : BgpRib} (h : rib.Selected) {x : Prefix} (hbest : rib.best[x]? = none)
    (src : IpAddr × UInt32) : rib.offer x src = none := by
  rw [h.best_eq, selection_fst, selectBest_eq_none_iff, Offers.paths, List.map_eq_nil_iff] at hbest
  rw [offer_eq]
  by_contra hne
  obtain ⟨path, hpath⟩ := Option.ne_none_iff_exists'.mp hne
  have hmem := Std.ExtTreeMap.mem_toList_iff_getElem?_eq_some.mpr hpath
  have hnil : (rib.entries[x]?.getD ∅).toList = [] := hbest
  rw [hnil] at hmem
  cases hmem

theorem Selected.followsOffers {rib : BgpRib} (h : rib.Selected) (hmax : 1 ≤ rib.maxPaths)
    (pfx : Prefix) : rib.FollowsOffers pfx := by
  have hbest : rib.best[pfx]? = selectBest (rib.offers pfx).paths := by
    rw [h.best_eq, selection_fst]
  have hnil : (rib.offers pfx).paths = [] ↔ rib.offers pfx = ∅ := by
    rw [Offers.paths, List.map_eq_nil_iff, ← Std.ExtTreeMap.isEmpty_iff, ← Std.ExtTreeMap.isEmpty_toList,
      List.isEmpty_iff]
  refine ⟨?_, ?_, hbest, ?_, ?_⟩
  · intro hempty
    have hne := h.nonempty pfx ∅ hempty
    simp at hne
  · rw [hbest, ← Option.ne_none_iff_isSome, ne_eq, selectBest_eq_none_iff, hnil]
  · intro hnone
    rw [h.best_eq, Option.map_eq_none_iff] at hnone
    rw [h.hops_eq, hnone, Option.map_none]
  · intro w hw
    have hsel : selectBest (rib.offers pfx).paths = some w := hbest ▸ hw
    cases hget : rib.entries[pfx]? with
    | none =>
      rw [offers, hget] at hsel
      cases hsel
    | some peers =>
      have hoff : rib.offers pfx = peers := by rw [offers, hget, Option.getD_some]
      rw [hoff] at hsel ⊢
      have hhops : rib.hops[pfx]? = some (if rib.maxPaths > 1 then
          collectHops rib.maxPaths w [w.nextHopEntry] peers.paths else [w.nextHopEntry]) := by
        simp [h.hops_eq, selection, hget, hsel]
      by_cases hmulti : rib.maxPaths > 1
      · obtain ⟨rest, heq, hnd, hle, hrest⟩ :=
          collectHops_spec w peers.paths (List.nodup_singleton w.nextHopEntry) hmulti
        exact ⟨rest, by rw [hhops, if_pos hmulti, heq]; rfl, hnd, hle, hrest⟩
      · exact ⟨[], by rw [hhops, if_neg hmulti], by simp, by simpa using hmax, by simp⟩

/-- The three ways to change the Adj-RIB-In. -/
inductive Op where
  | update (peer : IpAddr) (pathId : UInt32) (pfx : Prefix) (path : Path)
  | withdraw (peer : IpAddr) (pathId : UInt32) (pfx : Prefix)
  | withdrawPeer (peer : IpAddr)

/-- The state after one call and the notifications it returned. -/
def apply (rib : BgpRib) : Op → BgpRib × List RibEvent
  | .update peer pathId pfx path => (rib.updateWithId peer pathId pfx path).map id Option.toList
  | .withdraw peer pathId pfx => (rib.withdrawWithId peer pathId pfx).map id Option.toList
  | .withdrawPeer peer => rib.withdrawPeer peer

def step (rib : BgpRib) (op : Op) : BgpRib := (rib.apply op).1

def notify (rib : BgpRib) (op : Op) : List RibEvent := (rib.apply op).2

/-- Whatever one replacement of offers keeps, dropping a peer keeps, notifications included. -/
theorem withdrawPeer_induction {motive : BgpRib → List RibEvent → Prop} (rib : BgpRib) (peer : IpAddr)
    (h0 : motive rib [])
    (hstep : ∀ rib events pfx peers, motive rib events →
      motive (rib.resolve pfx peers).1 (events ++ (rib.resolve pfx peers).2.toList)) :
    motive (rib.withdrawPeer peer).1 (rib.withdrawPeer peer).2 := by
  rw [withdrawPeer]
  generalize rib.prefixesFrom peer = l
  generalize ([] : List RibEvent) = events at h0 ⊢
  induction l generalizing rib events with
  | nil => exact h0
  | cons pfx l ih =>
    have hnext := hstep rib events pfx ((rib.offers pfx).filter fun k _ => k.1 ≠ peer) h0
    rw [← withdrawPeerAt_eq] at hnext
    exact ih _ _ hnext

/-- The same for every call. -/
theorem apply_induction {motive : BgpRib → List RibEvent → Prop} (rib : BgpRib) (op : Op)
    (h0 : motive rib [])
    (hstep : ∀ rib events pfx peers, motive rib events →
      motive (rib.resolve pfx peers).1 (events ++ (rib.resolve pfx peers).2.toList)) :
    motive (rib.step op) (rib.notify op) := by
  cases op with
  | update peer pathId pfx path =>
    have h := hstep rib [] pfx ((rib.offers pfx).insert (peer, pathId) path) h0
    rwa [← updateWithId_eq] at h
  | withdraw peer pathId pfx =>
    have h := hstep rib [] pfx ((rib.offers pfx).erase (peer, pathId)) h0
    rwa [← withdrawWithId_eq] at h
  | withdrawPeer peer => exact withdrawPeer_induction rib peer h0 hstep

theorem Selected.step {rib : BgpRib} (h : rib.Selected) (op : Op) : (rib.step op).Selected :=
  apply_induction (motive := fun rib _ => rib.Selected) rib op h
    fun _ _ pfx peers h => h.resolve pfx peers

@[simp] theorem step_maxPaths (rib : BgpRib) (op : Op) : (rib.step op).maxPaths = rib.maxPaths :=
  apply_induction (motive := fun rib' _ => rib'.maxPaths = rib.maxPaths) rib op rfl
    fun rib' _ pfx peers h => (resolve_maxPaths rib' pfx peers).trans h

theorem locRib_step (rib : BgpRib) (op : Op) :
    (rib.step op).locRib = Replica.replay rib.locRib ((rib.notify op).map RibEvent.delta) := by
  refine apply_induction
    (motive := fun rib' events => rib'.locRib = Replica.replay rib.locRib (events.map RibEvent.delta))
    rib op rfl ?_
  intro rib' events pfx peers h
  rw [List.map_append, Replica.replay_append, ← h, locRib_resolve]

theorem bestOf_step (rib : BgpRib) (op : Op) :
    (rib.step op).bestOf = Replica.replay rib.bestOf ((rib.notify op).map RibEvent.bestDelta) := by
  refine apply_induction
    (motive := fun rib' events => rib'.bestOf = Replica.replay rib.bestOf (events.map RibEvent.bestDelta))
    rib op rfl ?_
  intro rib' events pfx peers h
  rw [List.map_append, Replica.replay_append, ← h]
  exact bestOf_reselect (rib'.setOffers pfx peers) pfx

theorem offer_resolve (rib : BgpRib) (pfx x : Prefix) (peers : Offers) (src : IpAddr × UInt32) :
    (rib.resolve pfx peers).1.offer x src = if x = pfx then peers[src]? else rib.offer x src := by
  have h := congrArg (fun o : Offers => o[src]?) (offers_resolve rib pfx x peers)
  rw [offer_eq, offer_eq]
  refine h.trans ?_
  split_ifs <;> rfl

theorem offer_update (rib : BgpRib) (peer : IpAddr) (pathId : UInt32) (pfx x : Prefix) (path : Path)
    (src : IpAddr × UInt32) :
    (rib.step (.update peer pathId pfx path)).offer x src =
      if x = pfx ∧ src = (peer, pathId) then some path else rib.offer x src := by
  show (rib.updateWithId peer pathId pfx path).1.offer x src = _
  rw [updateWithId_eq, offer_resolve, offer_eq]
  by_cases hx : x = pfx
  · subst hx
    simp [offers, getElem?_insert]
  · simp [hx]

theorem offer_withdraw (rib : BgpRib) (peer : IpAddr) (pathId : UInt32) (pfx x : Prefix)
    (src : IpAddr × UInt32) :
    (rib.step (.withdraw peer pathId pfx)).offer x src =
      if x = pfx ∧ src = (peer, pathId) then none else rib.offer x src := by
  show (rib.withdrawWithId peer pathId pfx).1.offer x src = _
  rw [withdrawWithId_eq, offer_resolve, offer_eq]
  by_cases hx : x = pfx
  · subst hx
    simp [offers, getElem?_erase]
  · simp [hx]

theorem offer_withdrawPeerAt (rib : BgpRib) (peer : IpAddr) (pfx x : Prefix) (src : IpAddr × UInt32) :
    (rib.withdrawPeerAt peer pfx).1.offer x src =
      if x = pfx ∧ src.1 = peer then none else rib.offer x src := by
  rw [withdrawPeerAt_eq, offer_resolve, offer_eq]
  by_cases hx : x = pfx
  · subst hx
    by_cases hp : src.1 = peer
    · simp [hp]
    · simp only [offers, Std.ExtTreeMap.getElem?_filter', ne_eq, hp, not_false_eq_true, decide_true,
        and_false, if_true, if_false]
      cases (rib.entries[x]?.getD ∅)[src]? <;> rfl
  · simp [hx]

theorem mem_prefixesFrom {rib : BgpRib} {peer : IpAddr} {x : Prefix} :
    x ∈ rib.prefixesFrom peer ↔ ∃ i, (rib.offer x (peer, i)).isSome := by
  have hmem : x ∈ rib.prefixesFrom peer ↔
      ∃ peers : Offers, rib.entries[x]? = some peers ∧ ∃ o ∈ peers.toList, o.1.1 = peer := by
    simp [prefixesFrom, Std.ExtTreeMap.mem_toList_iff_getElem?_eq_some]
  rw [hmem]
  constructor
  · intro h
    obtain ⟨peers, hget, ⟨⟨⟨p, i⟩, path⟩, ho, rfl⟩⟩ := h
    refine ⟨i, ?_⟩
    rw [offer, hget, Option.bind_some, Std.ExtTreeMap.mem_toList_iff_getElem?_eq_some.mp ho]
    rfl
  · intro h
    obtain ⟨i, hi⟩ := h
    obtain ⟨path, hpath⟩ := Option.isSome_iff_exists.mp hi
    obtain ⟨peers, hget, hsrc⟩ := Option.bind_eq_some_iff.mp hpath
    exact ⟨peers, hget, _, Std.ExtTreeMap.mem_toList_iff_getElem?_eq_some.mpr hsrc, rfl⟩

theorem offer_withdrawPeer (rib : BgpRib) (peer : IpAddr) (x : Prefix) (src : IpAddr × UInt32) :
    (rib.withdrawPeer peer).1.offer x src = if src.1 = peer then none else rib.offer x src := by
  have hfold : ∀ (l : List Prefix) (rib : BgpRib) (events : List RibEvent),
      ((l.foldl (fun (rib, events) pfx =>
        let (rib, ev) := rib.withdrawPeerAt peer pfx
        (rib, events ++ ev.toList)) (rib, events)).1 : BgpRib).offer x src =
      if x ∈ l ∧ src.1 = peer then none else rib.offer x src := by
    intro l
    induction l with
    | nil => simp
    | cons pfx l ih =>
      intro rib events
      rw [List.foldl_cons, ih]
      by_cases hx : x = pfx
      · by_cases hp : src.1 = peer <;> simp [offer_withdrawPeerAt, hx, hp]
      · simp [offer_withdrawPeerAt, hx]
  rw [withdrawPeer, hfold]
  by_cases hp : src.1 = peer
  · by_cases hx : x ∈ rib.prefixesFrom peer
    · simp [hx, hp]
    · have hnone : rib.offer x src = none := by
        rw [mem_prefixesFrom, not_exists] at hx
        have hsrc : src = (peer, src.2) := Prod.ext hp rfl
        rw [hsrc]
        simpa using hx src.2
      simp [hx, hp, hnone]
  · simp [hp]

/-- The state a sequence of calls leads to. -/
def run (maxPaths : ℕ) (ops : List Op) : BgpRib := ops.foldl step (withMaxPaths maxPaths)

theorem selected_run (n : ℕ) (ops : List Op) : (run n ops).Selected :=
  (Run.every_true step (withMaxPaths n) ops).invariant Selected (selected_withMaxPaths n)
    fun _ op h _ => h.step op

theorem run_maxPaths (n : ℕ) (ops : List Op) : (run n ops).maxPaths = max n 1 :=
  (Run.every_true step (withMaxPaths n) ops).invariant (fun rib => rib.maxPaths = max n 1) rfl
    fun rib op h _ => (step_maxPaths rib op).trans h

theorem Selected.ext_of_entries {rib rib' : BgpRib} (h : rib.Selected) (h' : rib'.Selected)
    (hmax : rib.maxPaths = rib'.maxPaths) (hentries : rib.entries = rib'.entries) :
    rib.best = rib'.best ∧ rib.hops = rib'.hops := by
  have hsel : ∀ x, rib.selection x = rib'.selection x :=
    fun x => selection_congr (by rw [hentries]) hmax
  constructor
  · apply Std.ExtTreeMap.ext_getElem?
    intro x
    rw [h.best_eq, h'.best_eq, hsel]
  · apply Std.ExtTreeMap.ext_getElem?
    intro x
    rw [h.hops_eq, h'.hops_eq, hsel]

/-- After any calls the Loc-RIB is a function of the Adj-RIB-In, and the notifications of the run
reproduce it. -/
theorem locRib_of_adjRibIn (n : ℕ) (ops : List Op) :
    (∀ pfx, (run n ops).FollowsOffers pfx) ∧ (run n ops).maxPaths = max n 1 ∧
    (∀ pfx, Replica.replay (fun _ => none)
      ((Replica.log step notify (withMaxPaths n) ops).map RibEvent.delta) pfx = (run n ops).locRib pfx) ∧
    ∀ ops', (run n ops).entries = (run n ops').entries →
      (run n ops).best = (run n ops').best ∧ (run n ops).hops = (run n ops').hops := by
  have hmax := run_maxPaths n ops
  refine ⟨?_, hmax, ?_, ?_⟩
  · intro pfx
    exact (selected_run n ops).followsOffers (by omega) pfx
  · intro pfx
    have hempty : (withMaxPaths n).locRib = fun _ => none := by
      funext x
      simp [locRib, withMaxPaths]
    have hreplay := Replica.replay_log step notify RibEvent.delta locRib locRib_step (withMaxPaths n) ops
    rw [hempty] at hreplay
    exact congrFun hreplay pfx
  · intro ops' hentries
    have hmax' : (run n ops).maxPaths = (run n ops').maxPaths := by rw [hmax, run_maxPaths]
    exact (selected_run n ops).ext_of_entries (selected_run n ops') hmax' hentries

/-- A path that is offered after some operations was offered before them or is of one of them. -/
theorem offer_of_foldl_step {ops : List Op} {rib : BgpRib} {x : Prefix} {src : IpAddr × UInt32} {path : Path}
    (h : (ops.foldl step rib).offer x src = some path) :
    rib.offer x src = some path ∨ .update src.1 src.2 x path ∈ ops := by
  induction ops generalizing rib with
  | nil => exact .inl h
  | cons op ops ih =>
    rcases ih h with hnext | hmem
    · cases op with
      | update peer id pfx q =>
        rw [offer_update] at hnext
        split_ifs at hnext with hkey
        · obtain ⟨rfl, rfl⟩ := hkey
          cases hnext
          exact .inr (by simp)
        · exact .inl hnext
      | withdraw peer id pfx =>
        rw [offer_withdraw] at hnext
        split_ifs at hnext
        exact .inl hnext
      | withdrawPeer peer =>
        have hlost : (rib.withdrawPeer peer).1.offer x src = some path := hnext
        rw [offer_withdrawPeer] at hlost
        split_ifs at hlost
        exact .inl hlost
    · exact .inr (by simp [hmem])

/-- What one of the operations withdraws, and none offers again, is not offered in the end. -/
theorem offer_foldl_of_withdrawn {ops : List Op} {op : Op} {x : Prefix} {src : IpAddr × UInt32} (h : op ∈ ops)
    (hop : ∀ rib : BgpRib, (rib.step op).offer x src = none) (hno : ∀ path, .update src.1 src.2 x path ∉ ops) (rib : BgpRib) :
    (ops.foldl step rib).offer x src = none := by
  induction ops generalizing rib with
  | nil => cases h
  | cons first ops ih =>
    have hrest : ∀ path, .update src.1 src.2 x path ∉ ops := fun path hmem => hno path (by simp [hmem])
    rcases List.mem_cons.mp h with rfl | hmem
    · by_contra hne
      obtain ⟨path, hpath⟩ := Option.ne_none_iff_exists'.mp hne
      rw [List.foldl_cons] at hpath
      rcases offer_of_foldl_step hpath with hold | hnew
      · rw [hop] at hold
        cases hold
      · exact hrest path hnew
    · exact ih hmem hrest _

end BgpRib
end Wren.Bgp
