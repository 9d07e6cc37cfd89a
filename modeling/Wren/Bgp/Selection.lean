import Wren.Bgp.Path
import Wren.Lib.Reduce

/-! Best-path selection in two levels: within each neighbouring AS, then between the winners. -/

namespace Wren.Bgp
open Wren.Core Reduce OrdMap

/-- The best path of each neighbouring AS. -/
def bestPerAs (paths : List Path) : BTreeMap UInt32 Path := reduceBy isBetter Path.peerAs paths

def selectBest (paths : List Path) : Option Path :=
  reduce isBetter ((bestPerAs paths).toList.map Prod.snd)

/-- What the last two steps of the comparison read. -/
def Path.tieBreak (p : Path) : Ipv4Addr × IpAddr := (p.originatorId.getD p.peerId, p.peerAddr)

/-- The place of an address: IPv4 first, then by number. -/
def addrRank (a : IpAddr) : ℕ := a.key.1.toNat * 2 ^ 128 + a.key.2.toNat

/-- What the comparison reads, in its order and with lower values preferred. The MED counts only
between paths of one AS. -/
def Path.rank (withMed : Bool) (p : Path) : List ℕ :=
  [2 ^ 32 - p.localPref.toNat, p.asPathLen, p.origin.asU8.toNat, if withMed then p.med.toNat else 0,
    if p.fromEbgp then 0 else 1, p.igpMetric.toNat, p.clusterList.length, p.tieBreak.1.toNat,
    addrRank p.tieBreak.2]

theorem compare_eq_lt_iff (a b : IpAddr) : compare a b = .lt ↔ addrRank a < addrRank b := by
  have hlex : compare a b = (compare a.key.1 b.key.1).then (compare a.key.2 b.key.2) := rfl
  have ha : a.key.2.toNat < 2 ^ 128 := a.key.2.isLt
  have hb : b.key.2.toNat < 2 ^ 128 := b.key.2.isLt
  have hfst : compare a.key.1 b.key.1 = .lt ↔ a.key.1 < b.key.1 := compareOfLessAndEq_eq_lt
  have hsnd : compare a.key.2 b.key.2 = .lt ↔ a.key.2 < b.key.2 := compareOfLessAndEq_eq_lt
  rw [hlex, Ordering.then_eq_lt, hfst, hsnd, Std.LawfulEqCmp.compare_eq_iff_eq, BitVec.lt_def,
    UInt8.lt_iff_toNat_lt, ← UInt8.toNat_inj, addrRank, addrRank]
  omega

/-- One step of the comparison: it decides where the values differ. -/
theorem cascade {c P : Prop} [Decidable c] {x y : Bool} {m n : ℕ} (hc : c ↔ m ≠ n)
    (hlt : c → (x = true ↔ m < n)) (hrest : y = true ↔ P) :
    (if c then x else y) = true ↔ m < n ∨ m = n ∧ P := by
  by_cases h : c
  · have hne := hc.mp h
    rw [if_pos h, hlt h]
    omega
  · have heq : m = n := not_not.mp fun hne => h (hc.mpr hne)
    rw [if_neg h, hrest]
    simp [heq]

theorem isBetter_iff_rank (a b : Path) :
    isBetter a b = true ↔ a.rank (a.peerAs = b.peerAs) < b.rank (a.peerAs = b.peerAs) := by
  simp only [Path.rank, List.cons_lt_cons_iff]
  rw [isBetter]
  have hpa := a.localPref.toNat_lt
  have hpb := b.localPref.toNat_lt
  refine cascade ?_ ?_ (cascade Iff.rfl ?_ (cascade ?_ ?_ (cascade ?_ ?_ (cascade ?_ ?_ (cascade ?_ ?_
    (cascade Iff.rfl ?_ (cascade ?_ ?_ ?_)))))))
  · rw [ne_eq, ← UInt32.toNat_inj]
    omega
  · intro _
    rw [decide_eq_true_iff, gt_iff_lt, UInt32.lt_iff_toNat_lt]
    omega
  · intro _
    rw [decide_eq_true_iff]
  · cases a.origin <;> cases b.origin <;> decide
  · intro _
    rw [decide_eq_true_iff, UInt8.lt_iff_toNat_lt]
  · by_cases has : a.peerAs = b.peerAs
    · simp [has, ← UInt32.toNat_inj]
    · simp [has]
  · intro h
    simp [h.1, UInt32.lt_iff_toNat_lt]
  · cases a.fromEbgp <;> cases b.fromEbgp <;> decide
  · cases a.fromEbgp <;> cases b.fromEbgp <;> decide
  · rw [ne_eq, ← UInt32.toNat_inj]
  · intro _
    rw [decide_eq_true_iff, UInt32.lt_iff_toNat_lt]
  · intro _
    rw [decide_eq_true_iff]
  · rw [ne_eq, ← BitVec.toNat_inj]
    rfl
  · intro _
    rw [decide_eq_true_iff, BitVec.lt_def]
    rfl
  · rw [decide_eq_true_iff, compare_eq_lt_iff]
    simp [Path.tieBreak]

theorem isBetter_self (p : Path) : isBetter p p = false := by
  rw [Bool.eq_false_iff, ne_eq, isBetter_iff_rank]
  exact lt_irrefl _

theorem addrRank_injective : Function.Injective addrRank := by
  intro a b h
  have ha : a.key.2.toNat < 2 ^ 128 := a.key.2.isLt
  have hb : b.key.2.toNat < 2 ^ 128 := b.key.2.isLt
  rw [addrRank, addrRank] at h
  apply IpAddr.key_injective
  apply Prod.ext
  · apply UInt8.toNat_inj.mp
    omega
  · apply BitVec.eq_of_toNat_eq
    omega

theorem tieBreak_eq_of_rank_eq {withMed : Bool} {a b : Path} (h : a.rank withMed = b.rank withMed) :
    a.tieBreak = b.tieBreak := by
  simp only [Path.rank, List.cons.injEq] at h
  obtain ⟨-, -, -, -, -, -, -, hid, haddr, -⟩ := h
  exact Prod.ext (BitVec.eq_of_toNat_eq hid) (addrRank_injective haddr)

theorem getElem?_bestPerAs (l : List Path) (asn : UInt32) :
    (bestPerAs l)[asn]? = reduce isBetter (l.filter fun p => p.peerAs = asn) :=
  getElem?_reduceBy isBetter Path.peerAs l asn

/-- Within one AS the MED counts for every pair. -/
theorem isBetter_iff_of_group {l : List Path} {asn : UInt32} :
    ∀ a ∈ l.filter (fun p => p.peerAs = asn), ∀ b ∈ l.filter (fun p => p.peerAs = asn),
      isBetter a b = true ↔ a.rank true < b.rank true := by
  intro a ha b hb
  have has : a.peerAs = b.peerAs := by
    simp only [List.mem_filter, decide_eq_true_iff] at ha hb
    rw [ha.2, hb.2]
  rw [isBetter_iff_rank, decide_eq_true has]

/-- The winner of an AS is one of its paths, and none of them is preferred over it. -/
theorem lowest_of_bestPerAs {l : List Path} {asn : UInt32} {w : Path}
    (h : (bestPerAs l)[asn]? = some w) :
    Lowest (Path.rank true) (l.filter fun p => p.peerAs = asn) w := by
  rw [getElem?_bestPerAs] at h
  exact lowest_of_reduce isBetter_iff_of_group h

theorem peerAs_of_bestPerAs {l : List Path} {asn : UInt32} {w : Path}
    (h : (bestPerAs l)[asn]? = some w) : w.peerAs = asn := by
  have hmem := (lowest_of_bestPerAs h).mem
  simpa using (List.mem_filter.mp hmem).2

theorem mem_winners {l : List Path} {w : Path} :
    w ∈ (bestPerAs l).toList.map Prod.snd ↔ (bestPerAs l)[w.peerAs]? = some w := by
  rw [List.mem_map]
  constructor
  · intro h
    obtain ⟨⟨asn, v⟩, hmem, rfl⟩ := h
    have hget := Std.ExtTreeMap.mem_toList_iff_getElem?_eq_some.mp hmem
    rwa [peerAs_of_bestPerAs hget]
  · intro h
    exact ⟨(w.peerAs, w), Std.ExtTreeMap.mem_toList_iff_getElem?_eq_some.mpr h, rfl⟩

/-- Between winners the MED never counts: two of one AS are the same path. -/
theorem isBetter_iff_of_winners {l : List Path} :
    ∀ a ∈ (bestPerAs l).toList.map Prod.snd, ∀ b ∈ (bestPerAs l).toList.map Prod.snd,
      isBetter a b = true ↔ a.rank false < b.rank false := by
  intro a ha b hb
  by_cases has : a.peerAs = b.peerAs
  · have hab : a = b := by
      have hga := mem_winners.mp ha
      have hgb := mem_winners.mp hb
      rw [has, hgb] at hga
      exact (Option.some.inj hga).symm
    rw [hab, isBetter_self]
    simp
  · rw [isBetter_iff_rank, decide_eq_false has]

theorem lowest_of_selectBest {l : List Path} {w : Path} (h : selectBest l = some w) :
    Lowest (Path.rank false) ((bestPerAs l).toList.map Prod.snd) w :=
  lowest_of_reduce isBetter_iff_of_winners h

theorem selectBest_mem {l : List Path} {w : Path} (h : selectBest l = some w) : w ∈ l := by
  have hget := mem_winners.mp (lowest_of_selectBest h).mem
  exact List.mem_of_mem_filter (lowest_of_bestPerAs hget).mem

theorem selectBest_eq_none_iff {l : List Path} : selectBest l = none ↔ l = [] := by
  rw [selectBest, reduce_eq_none_iff]
  constructor
  · intro hnone
    rw [List.eq_nil_iff_forall_not_mem]
    intro p hp
    cases hg : (bestPerAs l)[p.peerAs]? with
    | none =>
      rw [getElem?_bestPerAs, reduce_eq_none_iff] at hg
      have hpg : p ∈ l.filter fun q => q.peerAs = p.peerAs := List.mem_filter.mpr ⟨hp, by simp⟩
      rw [hg] at hpg
      cases hpg
    | some w =>
      have hw : w ∈ (bestPerAs l).toList.map Prod.snd :=
        mem_winners.mpr (by rw [peerAs_of_bestPerAs hg, hg])
      rw [hnone] at hw
      cases hw
  · intro hl
    subst hl
    rfl

/-- With distinct tie-breaks each AS has one winner, whatever the order of the paths. -/
theorem bestPerAs_perm {l l' : List Path} (hp : l.Perm l') (hl : (l.map Path.tieBreak).Nodup) :
    bestPerAs l = bestPerAs l' := by
  apply Std.ExtTreeMap.ext_getElem?
  intro asn
  rw [getElem?_bestPerAs, getElem?_bestPerAs]
  apply reduce_perm (hp.filter _) isBetter_iff_of_group
  intro a ha b hb hrank
  exact List.inj_on_of_nodup_map hl (List.mem_of_mem_filter ha) (List.mem_of_mem_filter hb)
    (tieBreak_eq_of_rank_eq hrank)

/-- The MED decides between the first and the third path only. -/
theorem isBetter_not_transitive :
    ¬ ∀ a b c : Path, isBetter a b = true → isBetter b c = true → isBetter a c = true := by
  intro h
  have habc := h (Sample.path 100 20 1) (Sample.path 200 0 2) (Sample.path 100 10 3) (by decide)
    (by decide)
  exact absurd habc (by decide)

/-- Selection does not depend on the order of the paths, and its result is beaten neither in its
own AS nor by the winner of another. -/
theorem selectBest_order_independent {l : List Path} (hl : (l.map Path.tieBreak).Nodup) :
    (∀ l', l.Perm l' → selectBest l' = selectBest l) ∧
    (¬ ∀ a b c : Path, isBetter a b = true → isBetter b c = true → isBetter a c = true) ∧
    ∀ w, selectBest l = some w →
      (∀ p ∈ l, p.peerAs = w.peerAs → isBetter p w = false) ∧
      ∀ (asn : UInt32) (g : Path), (bestPerAs l)[asn]? = some g → isBetter g w = false := by
  refine ⟨?_, isBetter_not_transitive, ?_⟩
  · intro l' hp
    rw [selectBest, selectBest, bestPerAs_perm hp hl]
  · intro w hw
    have hwin := lowest_of_selectBest hw
    have hgroup := lowest_of_bestPerAs (mem_winners.mp hwin.mem)
    constructor
    · intro p hp has
      have hpg : p ∈ l.filter fun q => q.peerAs = w.peerAs := List.mem_filter.mpr ⟨hp, by simpa using has⟩
      rw [Bool.eq_false_iff, ne_eq, isBetter_iff_of_group p hpg w hgroup.mem]
      exact not_lt.mpr (hgroup.le p hpg)
    · intro asn g hg
      have hgw : g ∈ (bestPerAs l).toList.map Prod.snd :=
        mem_winners.mpr (by rw [peerAs_of_bestPerAs hg, hg])
      rw [Bool.eq_false_iff, ne_eq, isBetter_iff_of_winners g hgw w hwin.mem]
      exact not_lt.mpr (hwin.le g hgw)

theorem selectBest_order_independent_sample :
    selectBest [Sample.path 100 10 3, Sample.path 200 0 2, Sample.path 100 20 1] =
      selectBest [Sample.path 100 20 1, Sample.path 200 0 2, Sample.path 100 10 3] :=
  (selectBest_order_independent
    (l := [Sample.path 100 20 1, Sample.path 200 0 2, Sample.path 100 10 3]) (by decide)).1 _
      (List.isPerm_iff.mp (by decide))

end Wren.Bgp
