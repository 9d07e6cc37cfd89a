import Wren.Lib.Argmin
import Wren.Lib.Offer

/-! Shortest paths by best-first search, over any costs that do not fall along a path. -/

namespace Dijkstra
open OrdMap Argmin Offer
open Std (TransOrd LawfulEqOrd ExtTreeMap)

/-- A best-first search. An entry says what is known about a vertex: how far it is, and more. -/
structure Search (V D C I R : Type) where
  root : V
  start : I
  /-- The edges out of a vertex. -/
  out : V → List (V × C)
  /-- The cost of a path by one edge more. -/
  extend : D → C → D
  dist : I → D
  /-- What a settled vertex offers to the far end of an edge. -/
  visit : V → I → V → C → I
  merge : I → I → I
  /-- Which of two vertices at the same distance is settled first. -/
  rank : V → R

namespace Search
variable {V D C I R : Type} (s : Search V D C I R)

section Algorithm
variable [Ord V] [TransOrd V] [LawfulEqOrd V] [LinearOrder D] [LinearOrder R]

/-- Offer every neighbour of `u` that is not settled yet a way through `u`. -/
def relax (tree cand : BTreeMap V I) (u : V) (i : I) : BTreeMap V I :=
  (s.out u).foldl (fun cand e => if e.1 ∈ tree then cand else offer s.dist s.merge cand e.1 (s.visit u i e.1 e.2)) cand

def next (cand : BTreeMap V I) : Option (V × I) :=
  argmin cand (fun _ => True) fun e => toLex (s.dist e.2, s.rank e.1)

/-- Relax the vertex that was settled last and settle the nearest candidate, until there is none. It has no
result where the fuel runs out. -/
def loop : ℕ → BTreeMap V I → BTreeMap V I → V → I → Option (BTreeMap V I)
  | 0, _, _, _, _ => none
  | n + 1, tree, cand, u, i =>
    let cand := s.relax tree cand u i
    match s.next cand with
    | none => some tree
    | some (w, e) => loop n (tree.insert w e) (cand.erase w) w e

def run (fuel : ℕ) : Option (BTreeMap V I) :=
  s.loop fuel ((∅ : BTreeMap V I).insert s.root s.start) ∅ s.root s.start

end Algorithm

/-! ### Paths -/

/-- There is a path of this cost from the root. -/
inductive Reaches : V → D → Prop
  | root : Reaches s.root (s.dist s.start)
  | step {u w : V} {d : D} {c : C} : Reaches u d → (w, c) ∈ s.out u → Reaches w (s.extend d c)

/-- There is a path of this cost over these vertices, none of them twice. -/
inductive Trail : V → List V → D → Prop
  | root : Trail s.root [s.root] (s.dist s.start)
  | step {u w : V} {p : List V} {d : D} {c : C} :
    Trail u p d → (w, c) ∈ s.out u → w ∉ p → Trail w (w :: p) (s.extend d c)

variable {s}

theorem Trail.reaches {v : V} {p : List V} {d : D} (h : s.Trail v p d) : s.Reaches v d := by
  induction h with
  | root => exact .root
  | step _ hedge _ ih => exact .step ih hedge

variable [LinearOrder D]

variable (s) in
/-- What the search relies on. Entries need to add up only along paths without a cycle. -/
structure Lawful : Prop where
  mono : ∀ {a b : D} (c : C), a ≤ b → s.extend a c ≤ s.extend b c
  le_extend : ∀ {u : V} {d : D} (c : C), s.Reaches u d → d ≤ s.extend d c
  dist_visit : ∀ {u w : V} {p : List V} {i : I} {c : C}, s.Trail u p (s.dist i) → (w, c) ∈ s.out u → w ∉ p →
    s.dist (s.visit u i w c) = s.extend (s.dist i) c
  dist_merge : ∀ {e i : I}, s.dist i = s.dist e → s.dist (s.merge e i) = s.dist e

variable {hop : I → Prop} {P : D → I → Prop} [Ord V] [TransOrd V] [LawfulEqOrd V] [DecidableEq V]

section Offer
variable (hlaw : s.Lawful) (hmerge : ∀ e i, hop (s.merge e i) ↔ hop e ∨ hop i)
include hlaw hmerge

/-- After relaxing `u`, a vertex that is not settled holds the best of what it held and of the offers from `u`. -/
theorem holds_relax {tree cand : BTreeMap V I} {w : V} (hw : w ∉ tree) (u : V) (i : I) (h : Holds s.dist hop P cand[w]?) :
    Holds s.dist hop (fun d j => P d j ∨ ∃ c, (w, c) ∈ s.out u ∧ d = s.dist (s.visit u i w c) ∧ j = s.visit u i w c)
      (s.relax tree cand u i)[w]? := by
  unfold relax
  induction s.out u generalizing cand P with
  | nil => simpa using h
  | cons e l ih =>
    obtain ⟨x, c⟩ := e
    rw [List.foldl_cons]
    by_cases hx : x = w
    · subst hx
      have hoffer : Holds s.dist hop (fun d j => P d j ∨ d = s.dist (s.visit u i x c) ∧ j = s.visit u i x c)
          (offer s.dist s.merge cand x (s.visit u i x c))[x]? := by
        rw [getElem?_offer, if_pos rfl]
        exact holds_better hlaw.dist_merge hmerge h _
      rw [if_neg hw]
      refine (ih hoffer).congr ?_
      intro d j
      simp only [List.mem_cons, Prod.mk.injEq, true_and]
      constructor
      · rintro ((hP | hnew) | ⟨c', hc', hj⟩)
        · exact Or.inl hP
        · exact Or.inr ⟨c, Or.inl rfl, hnew⟩
        · exact Or.inr ⟨c', Or.inr hc', hj⟩
      · rintro (hP | ⟨c', rfl | hc', hj⟩)
        · exact Or.inl (Or.inl hP)
        · exact Or.inl (Or.inr hj)
        · exact Or.inr ⟨c', hc', hj⟩
    · have hskip : (if x ∈ tree then cand else offer s.dist s.merge cand x (s.visit u i x c))[w]? = cand[w]? := by
        split_ifs
        · rfl
        · rw [getElem?_offer, if_neg (Ne.symm hx)]
      refine (ih (by rw [hskip]; exact h)).congr ?_
      intro d j
      simp only [List.mem_cons, Prod.mk.injEq, Ne.symm hx, false_and, false_or]

end Offer

/-- Relaxing leaves the entries of settled vertices alone. -/
theorem getElem?_relax_of_mem {tree cand : BTreeMap V I} {w : V} (hw : w ∈ tree) (u : V) (i : I) :
    (s.relax tree cand u i)[w]? = cand[w]? := by
  unfold relax
  induction s.out u generalizing cand with
  | nil => rfl
  | cons e l ih =>
    rw [List.foldl_cons, ih]
    split_ifs with he
    · rfl
    · have hne : w ≠ e.1 := fun h => he (h ▸ hw)
      rw [getElem?_offer, if_neg hne]

/-! ### The invariant, after each time a vertex has been relaxed -/

omit [LawfulEqOrd V] [DecidableEq V] in
theorem mem_of_getElem? {m : BTreeMap V I} {v : V} {i : I} (h : m[v]? = some i) : v ∈ m := by
  rw [← ExtTreeMap.isSome_getElem?_iff_mem, h]
  rfl

variable (s) in
/-- What the settled vertices offer to `w`. -/
def Offered (tree : BTreeMap V I) (w : V) (d : D) (j : I) : Prop :=
  ∃ u i c, tree[u]? = some i ∧ (w, c) ∈ s.out u ∧ d = s.extend (s.dist i) c ∧ j = s.visit u i w c

variable (s) in
structure Inv (hop : I → Prop) (tree cand : BTreeMap V I) : Prop where
  start : tree[s.root]? = some s.start
  disjoint : ∀ w, w ∈ tree → cand[w]? = none
  offered : ∀ w, w ∉ tree → Holds s.dist hop (s.Offered tree w) cand[w]?
  trail : ∀ (u : V) (i : I), tree[u]? = some i → ∃ p, s.Trail u p (s.dist i) ∧ ∀ v ∈ p, v ∈ tree
  least : ∀ (u : V) (i : I) (d : D), tree[u]? = some i → s.Reaches u d → s.dist i ≤ d
  cut : ∀ (u w : V) (i e : I), tree[u]? = some i → cand[w]? = some e → s.dist i ≤ s.dist e

theorem mem_insert_iff {m : BTreeMap V I} {v w : V} {e : I} : v ∈ m.insert w e ↔ v = w ∨ v ∈ m := by
  rw [← ExtTreeMap.isSome_getElem?_iff_mem, ← ExtTreeMap.isSome_getElem?_iff_mem, getElem?_insert]
  by_cases h : v = w
  · simp [h]
  · simp [h]

omit [LinearOrder D] in
theorem offered_insert_iff {tree : BTreeMap V I} {w : V} {e : I} (hw : w ∉ tree) (v : V) (d : D) (j : I) :
    s.Offered (tree.insert w e) v d j ↔ s.Offered tree v d j ∨
      ∃ c, (v, c) ∈ s.out w ∧ d = s.extend (s.dist e) c ∧ j = s.visit w e v c := by
  unfold Offered
  constructor
  · rintro ⟨u, i, c, hu, hedge, hd, hj⟩
    rw [getElem?_insert] at hu
    split_ifs at hu with huw
    · subst huw
      obtain rfl : e = i := Option.some.inj hu
      exact Or.inr ⟨c, hedge, hd, hj⟩
    · exact Or.inl ⟨u, i, c, hu, hedge, hd, hj⟩
  · rintro (⟨u, i, c, hu, hedge, hd, hj⟩ | ⟨c, hedge, hd, hj⟩)
    · have huw : u ≠ w := by
        rintro rfl
        exact hw (mem_of_getElem? hu)
      refine ⟨u, i, c, ?_, hedge, hd, hj⟩
      rw [getElem?_insert, if_neg huw]
      exact hu
    · refine ⟨w, e, c, ?_, hedge, hd, hj⟩
      rw [getElem?_insert, if_pos rfl]

section Step
variable {tree cand : BTreeMap V I} (hlaw : s.Lawful) (hinv : s.Inv hop tree cand)
include hlaw hinv

omit [LawfulEqOrd V] [DecidableEq V] in
/-- Any path that leaves the tree passes a candidate that is as near. -/
theorem Inv.exists_candidate {v : V} {d : D} (h : s.Reaches v d) (hv : v ∉ tree) :
    ∃ (x : V) (e : I), cand[x]? = some e ∧ s.dist e ≤ d := by
  induction h with
  | root => exact absurd (mem_of_getElem? hinv.start) hv
  | @step u w d c hu hedge ih =>
    by_cases hut : u ∈ tree
    · obtain ⟨i, hi⟩ : ∃ i, tree[u]? = some i := by
        rw [← Option.isSome_iff_exists, ExtTreeMap.isSome_getElem?_iff_mem]
        exact hut
      have hoff : s.Offered tree w (s.extend (s.dist i) c) (s.visit u i w c) := ⟨u, i, c, hi, hedge, rfl, rfl⟩
      have hholds := hinv.offered w hv
      cases hcand : cand[w]? with
      | none =>
        rw [hcand] at hholds
        exact absurd hoff (hholds _ _)
      | some e =>
        rw [hcand] at hholds
        refine ⟨w, e, hcand, ?_⟩
        calc s.dist e ≤ s.extend (s.dist i) c := hholds.le _ _ hoff
          _ ≤ s.extend d c := hlaw.mono c (hinv.least u i d hi hu)
    · obtain ⟨x, e, hx, hle⟩ := ih hut
      exact ⟨x, e, hx, hle.trans (hlaw.le_extend c hu)⟩

omit [LawfulEqOrd V] [DecidableEq V] hlaw in
/-- A candidate was offered by a settled vertex, over a path that can be extended to it. -/
theorem Inv.trail_candidate {w : V} {e : I} (he : cand[w]? = some e) :
    w ∉ tree ∧ ∃ p, s.Trail w (w :: p) (s.dist e) ∧ ∀ v ∈ p, v ∈ tree := by
  have hw : w ∉ tree := by
    intro hmem
    rw [hinv.disjoint w hmem] at he
    cases he
  have hbest := hinv.offered w hw
  rw [he] at hbest
  obtain ⟨j, u, i, c, hu, hedge, hd, rfl⟩ := hbest.attained
  obtain ⟨p, hp, hmem⟩ := hinv.trail u i hu
  refine ⟨hw, p, ?_, hmem⟩
  rw [hd]
  exact hp.step hedge fun h => hw (hmem w h)

variable [LinearOrder R] {w : V} {e : I} (hnext : s.next cand = some (w, e))
include hnext

omit [DecidableEq V] hlaw hinv in
theorem least_next : cand[w]? = some e ∧ ∀ (x : V) (e' : I), cand[x]? = some e' →
    toLex (s.dist e, s.rank w) ≤ toLex (s.dist e', s.rank x) := by
  have hleast := least_of_argmin hnext
  exact ⟨hleast.lookup, fun x e' hx => hleast.le (x, e') hx trivial⟩

omit [DecidableEq V] hlaw hinv in
theorem dist_next_le {x : V} {e' : I} (hx : cand[x]? = some e') : s.dist e ≤ s.dist e' := by
  have hle := (least_next hnext).2 x e' hx
  rw [Prod.Lex.toLex_le_toLex] at hle
  rcases hle with hlt | ⟨heq, -⟩
  · exact hlt.le
  · exact heq.le

/-- Settling the nearest candidate and relaxing it keeps the invariant. -/
theorem Inv.settle (hmerge : ∀ e i, hop (s.merge e i) ↔ hop e ∨ hop i) :
    s.Inv hop (tree.insert w e) (s.relax (tree.insert w e) (cand.erase w) w e) := by
  obtain ⟨hcand, -⟩ := least_next hnext
  obtain ⟨hw, p, hp, hmem⟩ := hinv.trail_candidate hcand
  have hpath : ∀ v ∈ w :: p, v ∈ tree.insert w e := by
    intro v hv
    rw [mem_insert_iff]
    rcases List.mem_cons.mp hv with rfl | hv
    · exact Or.inl rfl
    · exact Or.inr (hmem v hv)
  have hoffered : ∀ v, v ∉ tree.insert w e →
      Holds s.dist hop (s.Offered (tree.insert w e) v) (s.relax (tree.insert w e) (cand.erase w) w e)[v]? := by
    intro v hv
    have hnot : v ≠ w ∧ v ∉ tree := by
      rw [mem_insert_iff] at hv
      exact not_or.mp hv
    have hheld : Holds s.dist hop (s.Offered tree v) (cand.erase w)[v]? := by
      rw [getElem?_erase, if_neg hnot.1]
      exact hinv.offered v hnot.2
    refine (holds_relax hlaw hmerge hv w e hheld).congr ?_
    intro d j
    have hdist : ∀ c, (v, c) ∈ s.out w → s.dist (s.visit w e v c) = s.extend (s.dist e) c :=
      fun c hedge => hlaw.dist_visit hp hedge fun h => hv (hpath v h)
    rw [offered_insert_iff hw]
    constructor
    · rintro (hold | ⟨c, hedge, hd, hj⟩)
      · exact Or.inl hold
      · exact Or.inr ⟨c, hedge, by rw [hd, hdist c hedge], hj⟩
    · rintro (hold | ⟨c, hedge, hd, hj⟩)
      · exact Or.inl hold
      · exact Or.inr ⟨c, hedge, by rw [hd, hdist c hedge], hj⟩
  -- nothing that is left is nearer than `w`
  have hfar : ∀ (x : V) (e' : I), (s.relax (tree.insert w e) (cand.erase w) w e)[x]? = some e' → s.dist e ≤ s.dist e' := by
    intro x e' hx
    by_cases hxt : x ∈ tree.insert w e
    · rw [getElem?_relax_of_mem hxt, getElem?_erase] at hx
      split_ifs at hx
      exact dist_next_le hnext hx
    · have hbest := hoffered x hxt
      rw [hx] at hbest
      obtain ⟨j, hj⟩ := hbest.attained
      rcases (offered_insert_iff hw x _ j).mp hj with hold | ⟨c, hedge, hd, -⟩
      · have hxt' : x ∉ tree := fun h => hxt (mem_insert_iff.mpr (Or.inr h))
        have hheld := hinv.offered x hxt'
        cases hcx : cand[x]? with
        | none =>
          rw [hcx] at hheld
          exact absurd hold (hheld _ _)
        | some e₀ =>
          rw [hcx] at hheld
          exact (dist_next_le hnext hcx).trans (hheld.le _ _ hold)
      · rw [hd]
        exact hlaw.le_extend c hp.reaches
  refine ⟨?_, ?_, hoffered, ?_, ?_, ?_⟩
  · have hroot : s.root ≠ w := by
      rintro rfl
      exact hw (mem_of_getElem? hinv.start)
    rw [getElem?_insert, if_neg hroot]
    exact hinv.start
  · intro v hv
    rw [getElem?_relax_of_mem hv, getElem?_erase]
    split_ifs with hvw
    · rfl
    · exact hinv.disjoint v ((mem_insert_iff.mp hv).resolve_left hvw)
  · intro u i hu
    rw [getElem?_insert] at hu
    split_ifs at hu with huw
    · subst huw
      obtain rfl : e = i := Option.some.inj hu
      exact ⟨u :: p, hp, hpath⟩
    · obtain ⟨q, hq, hqmem⟩ := hinv.trail u i hu
      exact ⟨q, hq, fun v hv => mem_insert_iff.mpr (Or.inr (hqmem v hv))⟩
  · intro u i d hu hreach
    rw [getElem?_insert] at hu
    split_ifs at hu with huw
    · subst huw
      obtain rfl : e = i := Option.some.inj hu
      obtain ⟨x, e', hx, hle⟩ := hinv.exists_candidate hlaw hreach hw
      exact (dist_next_le hnext hx).trans hle
    · exact hinv.least u i d hu hreach
  · intro u x i e' hu hx
    rw [getElem?_insert] at hu
    split_ifs at hu with huw
    · obtain rfl : e = i := Option.some.inj hu
      exact hfar x e' hx
    · exact (hinv.cut u w i e hu hcand).trans (hfar x e' hx)

end Step

section Run
variable (hlaw : s.Lawful) (hmerge : ∀ e i, hop (s.merge e i) ↔ hop e ∨ hop i)
include hlaw

omit [Ord V] [TransOrd V] [LawfulEqOrd V] [DecidableEq V] in
theorem Reaches.start_le {v : V} {d : D} (h : s.Reaches v d) : s.dist s.start ≤ d := by
  induction h with
  | root => exact le_refl _
  | @step u w d c hu _ ih => exact ih.trans (hlaw.le_extend c hu)

include hmerge

theorem inv_start : s.Inv hop ((∅ : BTreeMap V I).insert s.root s.start)
    (s.relax ((∅ : BTreeMap V I).insert s.root s.start) ∅ s.root s.start) := by
  have hempty : ∀ v : V, v ∉ (∅ : BTreeMap V I) := by
    intro v
    simp
  have hnone : ∀ v : V, (∅ : BTreeMap V I)[v]? = none := by
    intro v
    simp
  have hroot : ∀ (u : V) (i : I), ((∅ : BTreeMap V I).insert s.root s.start)[u]? = some i → u = s.root ∧ i = s.start := by
    intro u i hu
    rw [getElem?_insert, hnone] at hu
    split_ifs at hu with hur
    exact ⟨hur, (Option.some.inj hu).symm⟩
  have hoffered : ∀ w, w ∉ (∅ : BTreeMap V I).insert s.root s.start →
      Holds s.dist hop (s.Offered ((∅ : BTreeMap V I).insert s.root s.start) w)
        (s.relax ((∅ : BTreeMap V I).insert s.root s.start) ∅ s.root s.start)[w]? := by
    intro w hw
    have hnot : w ≠ s.root := by
      rintro rfl
      exact hw (mem_insert_iff.mpr (Or.inl rfl))
    have hheld : Holds s.dist hop (s.Offered ∅ w) (∅ : BTreeMap V I)[w]? := by
      rw [hnone]
      rintro d i ⟨u, j, c, hu, -⟩
      rw [hnone] at hu
      cases hu
    refine (holds_relax hlaw hmerge hw s.root s.start hheld).congr ?_
    intro d j
    have hdist : ∀ c, (w, c) ∈ s.out s.root → s.dist (s.visit s.root s.start w c) = s.extend (s.dist s.start) c :=
      fun c hedge => hlaw.dist_visit .root hedge (by simpa using hnot)
    rw [offered_insert_iff (hempty _)]
    constructor
    · rintro (hold | ⟨c, hedge, hd, hj⟩)
      · exact Or.inl hold
      · exact Or.inr ⟨c, hedge, by rw [hd, hdist c hedge], hj⟩
    · rintro (hold | ⟨c, hedge, hd, hj⟩)
      · exact Or.inl hold
      · exact Or.inr ⟨c, hedge, by rw [hd, hdist c hedge], hj⟩
  refine ⟨?_, ?_, hoffered, ?_, ?_, ?_⟩
  · rw [getElem?_insert, if_pos rfl]
  · intro v hv
    rw [getElem?_relax_of_mem hv, hnone]
  · intro u i hu
    obtain ⟨rfl, rfl⟩ := hroot u i hu
    exact ⟨[s.root], .root, fun v hv => mem_insert_iff.mpr (Or.inl (by simpa using hv))⟩
  · intro u i d hu hreach
    obtain ⟨rfl, rfl⟩ := hroot u i hu
    exact hreach.start_le hlaw
  · intro u w i e hu hw
    obtain ⟨rfl, rfl⟩ := hroot u i hu
    have hwt : w ∉ (∅ : BTreeMap V I).insert s.root s.start := by
      intro hmem
      rw [getElem?_relax_of_mem hmem, hnone] at hw
      cases hw
    have hbest := hoffered w hwt
    rw [hw] at hbest
    obtain ⟨j, v, i, c, hv, -, hd, -⟩ := hbest.attained
    obtain ⟨rfl, rfl⟩ := hroot v i hv
    rw [hd]
    exact hlaw.le_extend c .root

variable [LinearOrder R]

theorem inv_of_loop {n : ℕ} {tree cand t : BTreeMap V I} {u : V} {i : I}
    (hinv : s.Inv hop tree (s.relax tree cand u i)) (h : s.loop n tree cand u i = some t) :
    ∃ cand', s.Inv hop t cand' ∧ s.next cand' = none := by
  induction n generalizing tree cand u i with
  | zero => cases h
  | succ n ih =>
    rw [loop] at h
    cases hnext : s.next (s.relax tree cand u i) with
    | none =>
      rw [hnext] at h
      cases h
      exact ⟨_, hinv, hnext⟩
    | some x =>
      rw [hnext] at h
      exact ih (hinv.settle hlaw hnext hmerge) h

/-- Every loop of the search settles another vertex, so it ends. -/
theorem exists_loop {U : Finset V} (hU : ∀ v d, s.Reaches v d → v ∈ U) {n : ℕ} {tree cand : BTreeMap V I} {u : V}
    {i : I} (hinv : s.Inv hop tree (s.relax tree cand u i)) (hn : U.card < n + tree.size) :
    ∃ t, s.loop n tree cand u i = some t := by
  induction n generalizing tree cand u i with
  | zero =>
    have hsub : tree.keys.toFinset ⊆ U := by
      intro v hv
      rw [List.mem_toFinset, ExtTreeMap.mem_keys, ← ExtTreeMap.isSome_getElem?_iff_mem] at hv
      obtain ⟨j, hj⟩ := Option.isSome_iff_exists.mp hv
      obtain ⟨p, hp, -⟩ := hinv.trail v j hj
      exact hU v _ hp.reaches
    have hcard := Finset.card_le_card hsub
    rw [List.toFinset_card_of_nodup ExtTreeMap.nodup_keys, ExtTreeMap.length_keys] at hcard
    omega
  | succ n ih =>
    rw [loop]
    cases hnext : s.next (s.relax tree cand u i) with
    | none => exact ⟨tree, rfl⟩
    | some x =>
      obtain ⟨w, e⟩ := x
      obtain ⟨hw, -⟩ := hinv.trail_candidate (least_next hnext).1
      refine ih (hinv.settle hlaw hnext hmerge) ?_
      rw [ExtTreeMap.size_insert, if_neg (by simpa using hw)]
      omega

end Run

omit [LawfulEqOrd V] [DecidableEq V] in
/-- Fuel that is left over changes nothing. -/
theorem loop_of_le [LinearOrder R] {n m : ℕ} (hnm : n ≤ m) {tree cand t : BTreeMap V I} {u : V} {i : I}
    (h : s.loop n tree cand u i = some t) : s.loop m tree cand u i = some t := by
  induction n generalizing m tree cand u i with
  | zero => cases h
  | succ n ih =>
    obtain ⟨k, rfl⟩ : ∃ k, m = k + 1 := ⟨m - 1, by omega⟩
    rw [loop] at h ⊢
    cases hnext : s.next (s.relax tree cand u i) with
    | none =>
      rw [hnext] at h
      exact h
    | some x =>
      rw [hnext] at h
      exact ih (by omega) h

/-- What is settled stays as it is. -/
theorem getElem?_loop [LinearOrder R] {n : ℕ} {tree cand t : BTreeMap V I} {u : V} {i : I}
    (hcand : ∀ w ∈ tree, cand[w]? = none) (h : s.loop n tree cand u i = some t) {v : V} {e : I} (hv : tree[v]? = some e) :
    t[v]? = some e := by
  induction n generalizing tree cand u i with
  | zero => cases h
  | succ n ih =>
    rw [loop] at h
    have hrelax : ∀ w ∈ tree, (s.relax tree cand u i)[w]? = none := by
      intro w hw
      rw [getElem?_relax_of_mem hw]
      exact hcand w hw
    cases hnext : s.next (s.relax tree cand u i) with
    | none =>
      rw [hnext] at h
      cases h
      exact hv
    | some x =>
      rw [hnext] at h
      have hx : x.1 ∉ tree := by
        intro hx
        have hsome := (least_next hnext).1
        rw [hrelax x.1 hx] at hsome
        cases hsome
      have hne : v ≠ x.1 := by
        intro hvx
        exact hx (hvx ▸ mem_of_getElem? hv)
      refine ih ?_ h (by rw [getElem?_insert, if_neg hne]; exact hv)
      intro w hw
      rw [getElem?_erase]
      split_ifs with hwx
      · rfl
      · rcases mem_insert_iff.mp hw with rfl | hw
        · exact absurd rfl hwx
        · exact hrelax w hw

theorem getElem?_root_of_run [LinearOrder R] {fuel : ℕ} {t : BTreeMap V I} (h : s.run fuel = some t) :
    t[s.root]? = some s.start := by
  refine getElem?_loop ?_ h (by simp)
  intro w _
  simp

section Entries
variable {Q : V → I → Prop} (hvisit : ∀ u i w c, Q u i → (w, c) ∈ s.out u → Q w (s.visit u i w c))
  (hmerge : ∀ w e i, Q w e → Q w i → Q w (s.merge e i))
include hvisit hmerge

theorem forall_relax (tree : BTreeMap V I) {cand : BTreeMap V I} {u : V} {i : I} (hi : Q u i)
    (hcand : ∀ (w : V) (e : I), cand[w]? = some e → Q w e) (w : V) (e : I)
    (h : (s.relax tree cand u i)[w]? = some e) : Q w e := by
  have hedges : ∀ x ∈ s.out u, Q x.1 (s.visit u i x.1 x.2) := fun x hx => hvisit u i x.1 x.2 hi hx
  unfold relax at h
  generalize s.out u = l at hedges h
  induction l generalizing cand with
  | nil => exact hcand w e h
  | cons x l ih =>
    refine ih ?_ (fun y hy => hedges y (List.mem_cons_of_mem x hy)) h
    intro v j hj
    dsimp only at hj
    split_ifs at hj with hx
    · exact hcand v j hj
    · exact forall_foldl_offer (Q := Q) hmerge Prod.fst (fun x => s.visit u i x.1 x.2) [x]
        (fun y hy => by obtain rfl := List.mem_singleton.mp hy; exact hedges y List.mem_cons_self) hcand v j hj

theorem forall_loop [LinearOrder R] {n : ℕ} {tree cand t : BTreeMap V I} {u : V} {i : I} (hi : Q u i)
    (htree : ∀ (w : V) (e : I), tree[w]? = some e → Q w e) (hcand : ∀ (w : V) (e : I), cand[w]? = some e → Q w e)
    (h : s.loop n tree cand u i = some t) (w : V) (e : I) (hw : t[w]? = some e) : Q w e := by
  induction n generalizing tree cand u i with
  | zero => cases h
  | succ n ih =>
    rw [loop] at h
    have hrelax := forall_relax hvisit hmerge tree hi hcand
    cases hnext : s.next (s.relax tree cand u i) with
    | none =>
      rw [hnext] at h
      cases h
      exact htree w e hw
    | some x =>
      rw [hnext] at h
      have hx := hrelax x.1 x.2 (least_next hnext).1
      refine ih hx ?_ ?_ h
      · intro v j hj
        rw [getElem?_insert] at hj
        split_ifs at hj with hv
        · obtain rfl := Option.some.inj hj
          exact hv ▸ hx
        · exact htree v j hj
      · intro v j hj
        rw [getElem?_erase] at hj
        split_ifs at hj
        exact hrelax v j hj

/-- What holds of the start, and of what an entry with it offers, holds of every entry. -/
theorem forall_run [LinearOrder R] (hstart : Q s.root s.start) {fuel : ℕ} {t : BTreeMap V I} (h : s.run fuel = some t)
    (w : V) (e : I) (hw : t[w]? = some e) : Q w e := by
  refine forall_loop hvisit hmerge hstart ?_ ?_ h w e hw
  · intro v j hj
    rw [getElem?_insert] at hj
    split_ifs at hj with hv
    · obtain rfl := Option.some.inj hj
      exact hv ▸ hstart
    · simp at hj
  · intro v j hj
    simp at hj

end Entries

section Result
variable [LinearOrder R] (hlaw : s.Lawful)
include hlaw

theorem exists_run {U : Finset V} (hU : ∀ v d, s.Reaches v d → v ∈ U) {n : ℕ} (hn : U.card ≤ n) :
    ∃ t, ∀ fuel, n ≤ fuel → s.run fuel = some t := by
  have hstart : s.Inv (fun _ => False) _ _ := inv_start hlaw (by simp)
  have hsize : U.card < n + ((∅ : BTreeMap V I).insert s.root s.start).size := by
    rw [ExtTreeMap.size_insert]
    simp
    omega
  obtain ⟨t, ht⟩ := exists_loop hlaw (by simp) hU hstart hsize
  exact ⟨t, fun fuel hfuel => loop_of_le hfuel ht⟩

/-- A vertex is settled at the cost of a path without a cycle. -/
theorem trail_of_run {fuel : ℕ} {t : BTreeMap V I} (h : s.run fuel = some t) {v : V} {i : I} (hv : t[v]? = some i) :
    ∃ p, s.Trail v p (s.dist i) := by
  have hstart : s.Inv (fun _ => False) _ _ := inv_start hlaw (by simp)
  obtain ⟨cand, hinv, -⟩ := inv_of_loop hlaw (by simp) hstart h
  obtain ⟨p, hp, -⟩ := hinv.trail v i hv
  exact ⟨p, hp⟩

/-- The search settles the vertices that can be reached, each at the cost of a shortest path. -/
theorem run_spec {fuel : ℕ} {t : BTreeMap V I} (h : s.run fuel = some t) :
    (∀ (v : V), v ∈ t ↔ ∃ d, s.Reaches v d) ∧
      ∀ (v : V) (i : I), t[v]? = some i → IsLeast (Set.ofPred (s.Reaches v)) (s.dist i) := by
  have hstart : s.Inv (fun _ => False) _ _ := inv_start hlaw (by simp)
  obtain ⟨cand, hinv, hnext⟩ := inv_of_loop hlaw (by simp) hstart h
  have hnone := argmin_eq_none_iff.mp hnext
  have hleast : ∀ (v : V) (i : I), t[v]? = some i → IsLeast (Set.ofPred (s.Reaches v)) (s.dist i) := by
    intro v i hi
    obtain ⟨p, hp, -⟩ := hinv.trail v i hi
    exact ⟨hp.reaches, fun d hd => hinv.least v i d hi hd⟩
  refine ⟨?_, hleast⟩
  intro v
  constructor
  · intro hv
    rw [← ExtTreeMap.isSome_getElem?_iff_mem] at hv
    obtain ⟨i, hi⟩ := Option.isSome_iff_exists.mp hv
    exact ⟨_, (hleast v i hi).1⟩
  · rintro ⟨d, hd⟩
    by_contra hv
    obtain ⟨x, e, hx, -⟩ := hinv.exists_candidate hlaw hd hv
    exact hnone (x, e) hx trivial

end Result

end Search
end Dijkstra
