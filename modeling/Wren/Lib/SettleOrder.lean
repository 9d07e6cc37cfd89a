import Wren.Lib.Dijkstra

/-! The order in which a best-first search settles the vertices. An equal-cost offer counts for a vertex only if it
comes from one that is settled before. -/

namespace Dijkstra.Search
open OrdMap Argmin Offer

variable {V D C I R : Type} (s : Search V D C I R) [LinearOrder D] [LinearOrder R] [Ord V] [Std.TransOrd V]
  [Std.LawfulEqOrd V] [DecidableEq V]

/-- What the vertices that are settled before `w` offer to it. -/
def OfferedBefore (idx : V → ℕ) (tree : BTreeMap V I) (w : V) (d : D) (j : I) : Prop :=
  ∃ u i c, tree[u]? = some i ∧ idx u < idx w ∧ (w, c) ∈ s.out u ∧ d = s.extend (s.dist i) c ∧ j = s.visit u i w c

/-- The vertices were settled in the order of their index. At each of them, nothing nearer was on offer from those that
were settled before. -/
structure SettleOrder (idx : V → ℕ) (tree : BTreeMap V I) : Prop where
  root_lt : ∀ w ∈ tree, w ≠ s.root → idx s.root < idx w
  mono : ∀ (u w : V) (i e : I), tree[u]? = some i → tree[w]? = some e → idx u ≤ idx w → s.dist i ≤ s.dist e
  best : ∀ hop : I → Prop, (∀ e i, hop (s.merge e i) ↔ hop e ∨ hop i) → ∀ (w : V) (e : I), tree[w]? = some e →
    w ≠ s.root → Best s.dist hop (s.OfferedBefore idx tree w) e
  least : ∀ (u v : V) (i f : I), tree[u]? = some i → tree[v]? = some f → idx u < idx v →
    ∀ (w : V) (c : C), (w, c) ∈ s.out u → (w ∈ tree → idx v ≤ idx w) →
      toLex (s.dist f, s.rank v) ≤ toLex (s.extend (s.dist i) c, s.rank w)

variable {s} {tree cand : BTreeMap V I}

section Step
variable (hinv : ∀ hop : I → Prop, (∀ e i, hop (s.merge e i) ↔ hop e ∨ hop i) → s.Inv hop tree cand)
include hinv

/-- The nearest candidate comes next in the order. -/
theorem SettleOrder.settle {idx : V → ℕ} {n : ℕ} (hord : s.SettleOrder idx tree) (hn : ∀ u ∈ tree, idx u < n) {w : V}
    {e : I} (hnext : s.next cand = some (w, e)) : s.SettleOrder (Function.update idx w n) (tree.insert w e) := by
  have hfalse : s.Inv (fun _ => False) tree cand := hinv _ (by simp)
  obtain ⟨hcand, hmin⟩ := least_next hnext
  obtain ⟨hw, -⟩ := hfalse.trail_candidate hcand
  have hsame : ∀ u ∈ tree, Function.update idx w n u = idx u := by
    intro u hu
    refine Function.update_of_ne ?_ n idx
    rintro rfl
    exact hw hu
  have hnew : Function.update idx w n w = n := Function.update_self w n idx
  have hcases : ∀ {u : V} {i : I}, (tree.insert w e)[u]? = some i → u = w ∧ i = e ∨ tree[u]? = some i := by
    intro u i hu
    rw [getElem?_insert] at hu
    split_ifs at hu with huw
    · exact Or.inl ⟨huw, (Option.some.inj hu).symm⟩
    · exact Or.inr hu
  have hkeep : ∀ {u : V} {i : I}, tree[u]? = some i → (tree.insert w e)[u]? = some i := by
    intro u i hu
    rw [getElem?_insert, if_neg ?_]
    · exact hu
    · rintro rfl
      exact hw (mem_of_getElem? hu)
  have hroot := mem_of_getElem? hfalse.start
  refine ⟨?_, ?_, ?_, ?_⟩
  · intro x hx hne
    rw [hsame _ hroot]
    rcases mem_insert_iff.mp hx with rfl | hx
    · rw [hnew]
      exact hn _ hroot
    · rw [hsame x hx]
      exact hord.root_lt x hx hne
  · intro u x i f hu hx hle
    rcases hcases hu with ⟨rfl, rfl⟩ | hut
    · rcases hcases hx with ⟨rfl, rfl⟩ | hxt
      · exact le_refl _
      · have hlt := hn x (mem_of_getElem? hxt)
        rw [hnew, hsame x (mem_of_getElem? hxt)] at hle
        omega
    · rcases hcases hx with ⟨rfl, rfl⟩ | hxt
      · exact hfalse.cut u x i f hut hcand
      · rw [hsame u (mem_of_getElem? hut), hsame x (mem_of_getElem? hxt)] at hle
        exact hord.mono u x i f hut hxt hle
  · intro hop hmerge x f hx hne
    rcases hcases hx with ⟨rfl, rfl⟩ | hx
    · have hholds := (hinv hop hmerge).offered x hw
      rw [hcand] at hholds
      refine Best.congr hholds fun d j => ?_
      constructor
      · rintro ⟨u, i, c, hu, hrest⟩
        have hut := mem_of_getElem? hu
        exact ⟨u, i, c, hkeep hu, by rw [hsame u hut, hnew]; exact hn u hut, hrest⟩
      · rintro ⟨u, i, c, hu, hlt, hrest⟩
        rcases hcases hu with ⟨rfl, -⟩ | hu
        · exact absurd hlt (lt_irrefl _)
        · exact ⟨u, i, c, hu, hrest⟩
    · refine Best.congr (hord.best hop hmerge x f hx hne) fun d j => ?_
      have hxt := mem_of_getElem? hx
      constructor
      · rintro ⟨u, i, c, hu, hlt, hrest⟩
        exact ⟨u, i, c, hkeep hu, by rw [hsame u (mem_of_getElem? hu), hsame x hxt]; exact hlt, hrest⟩
      · rintro ⟨u, i, c, hu, hlt, hrest⟩
        rcases hcases hu with ⟨rfl, -⟩ | hu
        · have := hn x hxt
          rw [hnew, hsame x hxt] at hlt
          omega
        · rw [hsame u (mem_of_getElem? hu), hsame x hxt] at hlt
          exact ⟨u, i, c, hu, hlt, hrest⟩
  · intro u v i f hu hv hlt x c hedge hafter
    rcases hcases hu with ⟨rfl, -⟩ | hu
    · exfalso
      rcases hcases hv with ⟨rfl, -⟩ | hv
      · exact lt_irrefl _ hlt
      · have := hn v (mem_of_getElem? hv)
        rw [hnew, hsame v (mem_of_getElem? hv)] at hlt
        omega
    have hut := mem_of_getElem? hu
    have hoff : s.Offered tree x (s.extend (s.dist i) c) (s.visit u i x c) := ⟨u, i, c, hu, hedge, rfl, rfl⟩
    rcases hcases hv with ⟨rfl, rfl⟩ | hv
    · -- what is not settled yet is a candidate, and not nearer than the one that is taken
      have hxt : x ∉ tree := by
        intro hxt
        have hle := hafter (mem_insert_iff.mpr (Or.inr hxt))
        have := hn x hxt
        rw [hnew, hsame x hxt] at hle
        omega
      have hholds := hfalse.offered x hxt
      cases hcx : cand[x]? with
      | none =>
        rw [hcx] at hholds
        exact absurd hoff (hholds _ _)
      | some g =>
        rw [hcx] at hholds
        refine (hmin x g hcx).trans ?_
        rw [Prod.Lex.toLex_le_toLex]
        rcases (hholds.le _ _ hoff).lt_or_eq with hlt | heq
        · exact Or.inl hlt
        · exact Or.inr ⟨heq, le_refl _⟩
    · have hvt := mem_of_getElem? hv
      rw [hsame u hut, hsame v hvt] at hlt
      refine hord.least u v i f hu hv hlt x c hedge ?_
      intro hxt
      have hle := hafter (mem_insert_iff.mpr (Or.inr hxt))
      rwa [hsame v hvt, hsame x hxt] at hle

end Step

section Run
variable (hlaw : s.Lawful)
include hlaw

theorem settleOrder_of_loop {idx : V → ℕ} {n m : ℕ} {t : BTreeMap V I} {u : V} {i : I}
    (hinv : ∀ hop : I → Prop, (∀ e i, hop (s.merge e i) ↔ hop e ∨ hop i) → s.Inv hop tree (s.relax tree cand u i))
    (hord : s.SettleOrder idx tree) (hn : ∀ v ∈ tree, idx v < n) (h : s.loop m tree cand u i = some t) :
    ∃ idx', s.SettleOrder idx' t := by
  induction m generalizing tree cand u i idx n with
  | zero => cases h
  | succ m ih =>
    rw [loop] at h
    cases hnext : s.next (s.relax tree cand u i) with
    | none =>
      rw [hnext] at h
      cases h
      exact ⟨idx, hord⟩
    | some x =>
      rw [hnext] at h
      refine ih (n := n + 1) (fun hop hmerge => (hinv hop hmerge).settle hlaw hnext hmerge)
        (hord.settle hinv hn hnext) ?_ h
      intro v hv
      by_cases hvx : v = x.1
      · rw [hvx, Function.update_self]
        omega
      · rw [Function.update_of_ne hvx]
        have := hn v ((mem_insert_iff.mp hv).resolve_left hvx)
        omega

/-- Every run settles the vertices in some order. -/
theorem exists_settleOrder {fuel : ℕ} {t : BTreeMap V I} (h : s.run fuel = some t) :
    ∃ idx : V → ℕ, s.SettleOrder idx t := by
  have hroot : ∀ {u : V} {i : I}, ((∅ : BTreeMap V I).insert s.root s.start)[u]? = some i → u = s.root := by
    intro u i hu
    rw [getElem?_insert] at hu
    split_ifs at hu with hur
    · exact hur
    · simp at hu
  have hmem : ∀ {u : V}, u ∈ (∅ : BTreeMap V I).insert s.root s.start → u = s.root := by
    intro u hu
    rcases mem_insert_iff.mp hu with hur | hu
    · exact hur
    · simp at hu
  refine settleOrder_of_loop hlaw (n := 1) (fun hop hmerge => inv_start hlaw hmerge) (?_ : s.SettleOrder (fun _ => 0) _)
    (fun _ _ => Nat.zero_lt_one) h
  refine ⟨?_, ?_, ?_, ?_⟩
  · intro w hw hne
    exact absurd (hmem hw) hne
  · intro u w i e hu hw _
    obtain rfl := hroot hu
    obtain rfl := hroot hw
    rw [hu] at hw
    obtain rfl := Option.some.inj hw
    exact le_refl _
  · intro hop _ w e hw hne
    exact absurd (hroot hw) hne
  · intro u v i f _ _ hlt
    exact absurd hlt (lt_irrefl _)

end Run

namespace SettleOrder
variable {idx : V → ℕ} {u v w : V} {i e f : I} {c : C} (hord : s.SettleOrder idx tree)
include hord

omit [Std.LawfulEqOrd V] [DecidableEq V] in
/-- What is nearer is settled before. -/
theorem lt_of_dist_lt (hu : tree[u]? = some i) (hw : tree[w]? = some e) (hlt : s.dist i < s.dist e) :
    idx u < idx w := by
  by_contra hle
  exact absurd (hord.mono w u e i hw hu (not_lt.mp hle)) (not_le.mpr hlt)

omit [Std.LawfulEqOrd V] [DecidableEq V] in
/-- A vertex that is on offer when another is settled, and would come first, was settled before. -/
theorem lt_of_offered (hu : tree[u]? = some i) (hv : tree[v]? = some f) (huv : idx u < idx v) (hedge : (w, c) ∈ s.out u)
    (hkey : toLex (s.extend (s.dist i) c, s.rank w) < toLex (s.dist f, s.rank v)) : idx w < idx v := by
  by_contra hle
  exact absurd (hord.least u v i f hu hv huv w c hedge fun _ => not_lt.mp hle) (not_le.mpr hkey)

omit [Std.LawfulEqOrd V] [DecidableEq V] in
/-- Every vertex but the root was offered by one before it, at its distance. -/
theorem exists_before (hw : tree[w]? = some e) (hroot : w ≠ s.root) :
    ∃ u i c, tree[u]? = some i ∧ idx u < idx w ∧ (w, c) ∈ s.out u ∧ s.dist e = s.extend (s.dist i) c := by
  obtain ⟨j, u, i, c, hu, hlt, hedge, hd, -⟩ := (hord.best (fun _ => False) (by simp) w e hw hroot).attained
  exact ⟨u, i, c, hu, hlt, hedge, hd⟩

end SettleOrder

/-! ### Equal-cost paths

Where every edge leads to a vertex that is settled later, all offers of the least cost are in before a vertex is
settled. -/

variable (s) in
/-- Every edge goes up, in cost or else in rank. -/
def Ascending : Prop :=
  ∀ (u w : V) (c : C) (d : D), (w, c) ∈ s.out u → toLex (d, s.rank u) < toLex (s.extend d c, s.rank w)

omit [Std.LawfulEqOrd V] [DecidableEq V] in
/-- Where edges ascend, the vertices are settled in the order of their distance and rank. -/
theorem SettleOrder.lt_of_ascending {idx : V → ℕ} (hord : s.SettleOrder idx tree) (hasc : s.Ascending) {u w : V} {i e : I}
    (hu : tree[u]? = some i) (hw : tree[w]? = some e)
    (hkey : toLex (s.dist i, s.rank u) < toLex (s.dist e, s.rank w)) : idx u < idx w := by
  generalize hn : idx u = n
  induction n using Nat.strong_induction_on generalizing u i with
  | h n ih =>
    by_cases hur : u = s.root
    · subst hur
      rw [← hn]
      refine hord.root_lt w (mem_of_getElem? hw) ?_
      rintro rfl
      rw [hu] at hw
      obtain rfl := Option.some.inj hw
      exact lt_irrefl _ hkey
    · obtain ⟨x, j, c, hx, hlt, hedge, hd⟩ := hord.exists_before hu hur
      have hstep := hasc x u c (s.dist j) hedge
      rw [← hd] at hstep
      have hxw := ih (idx x) (hn ▸ hlt) hx (hstep.trans hkey) rfl
      rw [← hn]
      exact hord.lt_of_offered hx hw hxw hedge (hd ▸ hkey)

/-- In the end every vertex has merged the offers of all its neighbours that lie on shortest paths to it. -/
theorem best_of_run (hlaw : s.Lawful) (hasc : s.Ascending) {hop : I → Prop}
    (hmerge : ∀ e i, hop (s.merge e i) ↔ hop e ∨ hop i) {fuel : ℕ} {t : BTreeMap V I} (h : s.run fuel = some t) {w : V}
    {e : I} (hw : t[w]? = some e) (hroot : w ≠ s.root) : Best s.dist hop (s.Offered t w) e := by
  obtain ⟨idx, hord⟩ := exists_settleOrder hlaw h
  have hbest := hord.best hop hmerge w e hw hroot
  have hsame : ∀ j, s.OfferedBefore idx t w (s.dist e) j ↔ s.Offered t w (s.dist e) j := by
    intro j
    constructor
    · rintro ⟨u, i, c, hu, -, hrest⟩
      exact ⟨u, i, c, hu, hrest⟩
    · rintro ⟨u, i, c, hu, hedge, hd, hj⟩
      refine ⟨u, i, c, hu, hord.lt_of_ascending hasc hu hw ?_, hedge, hd, hj⟩
      rw [hd]
      exact hasc u w c (s.dist i) hedge
  refine ⟨?_, ?_, ?_⟩
  · obtain ⟨j, hj⟩ := hbest.attained
    exact ⟨j, (hsame j).mp hj⟩
  · rintro d j ⟨u, i, c, hu, hedge, rfl, -⟩
    obtain ⟨-, hleast⟩ := run_spec hlaw h
    have hreach : s.Reaches u (s.dist i) := (hleast u i hu).1
    exact (hleast w e hw).2 (hreach.step hedge)
  · rw [hbest.hop_iff]
    simp only [hsame]

end Dijkstra.Search
