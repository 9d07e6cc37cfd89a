import Wren.Bgp.EvpnRib

/-! The single pass that selects among the paths of an EVPN route, and where it agrees with the
selection in two levels that IP routes get. -/

namespace Wren.Bgp
open Reduce

theorem EvpnRib.selectBest_eq_reduce (l : List Path) : EvpnRib.selectBest l = reduce isBetter l := by
  refine List.foldl_ext _ _ _ fun best p _ => ?_
  cases best with
  | none => rfl
  | some b =>
    simp only [keep, Option.elim_some]
    split_ifs <;> rfl

theorem isBetter_asymm {a b : Path} (h : isBetter a b = true) : isBetter b a = false := by
  rw [isBetter_iff_rank] at h
  rw [Bool.eq_false_iff, ne_eq, isBetter_iff_rank]
  have hsymm : decide (b.peerAs = a.peerAs) = decide (a.peerAs = b.peerAs) := by simp [eq_comm]
  rw [hsymm]
  exact not_lt.mpr h.le

/-- A path that is preferred over all others wins in its AS and between the winners. -/
theorem selectBest_eq_of_forall {l : List Path} {w : Path} (hw : w ∈ l)
    (hbest : ∀ p ∈ l, p ≠ w → isBetter w p = true) : selectBest l = some w := by
  cases hsel : selectBest l with
  | none =>
    rw [selectBest_eq_none_iff.mp hsel] at hw
    cases hw
  | some v =>
    have hwin := lowest_of_selectBest hsel
    have hgroup : w ∈ l.filter fun p => p.peerAs = w.peerAs := List.mem_filter.mpr ⟨hw, by simp⟩
    obtain ⟨g, hg⟩ : ∃ g, (bestPerAs l)[w.peerAs]? = some g := by
      rw [← Option.isSome_iff_exists, Option.isSome_iff_ne_none, getElem?_bestPerAs, ne_eq,
        reduce_eq_none_iff]
      exact List.ne_nil_of_mem hgroup
    have hlow := lowest_of_bestPerAs hg
    -- nothing in its AS ranks below the winner there, so that is `w`
    have hgw : g = w := by
      by_contra hne
      have hlt := (isBetter_iff_of_group w hgroup g hlow.mem).mp
        (hbest g (List.mem_of_mem_filter hlow.mem) hne)
      exact absurd (hlow.le w hgroup) (not_le.mpr hlt)
    have hwmem : w ∈ (bestPerAs l).toList.map Prod.snd := mem_winners.mpr (hgw ▸ hg)
    by_contra hne
    have hvw : v ≠ w := fun h => hne (congrArg some h)
    have hlt := (isBetter_iff_of_winners w hwmem v hwin.mem).mp (hbest v (selectBest_mem hsel) hvw)
    exact absurd (hwin.le w hwmem) (not_le.mpr hlt)

/-- In every order the single pass selects what IP routes get, and always the same, exactly if one of
the paths is preferred over every other. -/
theorem evpn_selectBest_agrees_iff (l : List Path) :
    (∀ l', l.Perm l' → EvpnRib.selectBest l' = selectBest l' ∧
      EvpnRib.selectBest l' = EvpnRib.selectBest l) ↔
      l = [] ∨ ∃ w ∈ l, ∀ p ∈ l, p ≠ w → isBetter w p = true := by
  simp only [EvpnRib.selectBest_eq_reduce]
  rw [← reduce_perm_iff fun a b => isBetter_asymm (a := a) (b := b)]
  constructor
  · intro h l' hp
    exact (h l' hp).2
  · intro h l' hp
    refine ⟨?_, h l' hp⟩
    rcases (reduce_perm_iff fun a b => isBetter_asymm (a := a) (b := b)).mp h with rfl | ⟨w, hw, hbest⟩
    · rw [List.nil_perm.mp hp]
      rfl
    · have hw' : w ∈ l' := hp.mem_iff.mp hw
      have hbest' : ∀ p ∈ l', p ≠ w → isBetter w p = true := fun p hpl => hbest p (hp.mem_iff.mpr hpl)
      rw [selectBest_eq_of_forall hw' hbest',
        reduce_eq_of_forall (fun a b => isBetter_asymm (a := a) (b := b)) hw' hbest']

/-- The MED removes the first path only once the third is seen, and by then it has removed the
second. -/
theorem not_forall_evpn_selectBest_agrees :
    ¬ ∀ l : List Path, EvpnRib.selectBest l = selectBest l := by
  intro h
  have hthree := h [Sample.path 100 20 1, Sample.path 200 0 2, Sample.path 100 10 3]
  revert hthree
  decide +kernel

end Wren.Bgp
