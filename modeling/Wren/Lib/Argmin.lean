import Wren.Lib.OrdMap

/-! The least entry of an ordered map among those with a given property, and the stable sort of a list by a key. -/

namespace Argmin
open Std OrdMap

section Least
variable {κ ν β : Type} [Ord κ] [TransOrd κ] [LE β]

/-- `e` is an entry with property `P`, and no such entry comes before it. -/
structure Least (m : BTreeMap κ ν) (P : κ × ν → Prop) (rank : κ × ν → β) (e : κ × ν) : Prop where
  lookup : m[e.1]? = some e.2
  holds : P e
  le : ∀ e', m[e'.1]? = some e'.2 → P e' → rank e ≤ rank e'

theorem Least.unique [IsLinearOrder β] {m : BTreeMap κ ν} {P : κ × ν → Prop} {rank : κ × ν → β}
    (hrank : ∀ e e', rank e = rank e' → e.1 = e'.1) {e e' : κ × ν} (h : Least m P rank e)
    (h' : Least m P rank e') : e = e' := by
  have heq : rank e = rank e' :=
    le_antisymm (h.le e' h'.lookup h'.holds) (h'.le e h.lookup h.holds)
  have hkey := hrank e e' heq
  have hvalue := h.lookup.symm.trans (hkey ▸ h'.lookup)
  exact Prod.ext hkey (Option.some.inj hvalue)

end Least

variable {κ ν β : Type} [Ord κ] [TransOrd κ] [LawfulEqOrd κ] [LE β] [DecidableLE β]

/-- The entry with property `P` that comes first by `rank`. -/
def argmin (m : BTreeMap κ ν) (P : κ × ν → Prop) [DecidablePred P] (rank : κ × ν → β) :
    Option (κ × ν) :=
  (m.toList.filter P).minOn? rank

variable {m : BTreeMap κ ν} {P : κ × ν → Prop} [DecidablePred P] {rank : κ × ν → β}

theorem mem_candidates {e : κ × ν} : e ∈ m.toList.filter P ↔ m[e.1]? = some e.2 ∧ P e := by
  rw [List.mem_filter, ExtTreeMap.mem_toList_iff_getElem?_eq_some, decide_eq_true_iff]

theorem argmin_eq_none_iff : argmin m P rank = none ↔ ∀ e, m[e.1]? = some e.2 → ¬ P e := by
  unfold argmin
  rw [← Option.not_isSome_iff_eq_none, List.isSome_minOn?_iff, not_ne_iff,
    List.eq_nil_iff_forall_not_mem]
  constructor
  · intro hnil e he hP
    exact hnil e (mem_candidates.mpr ⟨he, hP⟩)
  · intro hnone e he
    obtain ⟨hget, hP⟩ := mem_candidates.mp he
    exact hnone e hget hP

variable [IsLinearOrder β]

theorem least_of_argmin {e : κ × ν} (h : argmin m P rank = some e) : Least m P rank e := by
  unfold argmin at h
  obtain ⟨hget, hP⟩ := mem_candidates.mp (List.minOn?_mem h)
  refine ⟨hget, hP, ?_⟩
  intro e' hget' hP'
  have hle := List.apply_get_minOn?_le_of_mem (f := rank) (mem_candidates.mpr ⟨hget', hP'⟩)
  simpa [h] using hle

/-- Where the rank tells keys apart, the least entry is what `argmin` finds. -/
theorem argmin_eq_some_iff (hrank : ∀ e e', rank e = rank e' → e.1 = e'.1) {e : κ × ν} :
    argmin m P rank = some e ↔ Least m P rank e := by
  constructor
  · exact least_of_argmin
  · intro h
    cases hmin : argmin m P rank with
    | none => exact absurd h.holds (argmin_eq_none_iff.mp hmin e h.lookup)
    | some e' => rw [h.unique hrank (least_of_argmin hmin)]

/-- Maps that hold the same entries with the property have the same least one. -/
theorem argmin_congr (hrank : ∀ e e', rank e = rank e' → e.1 = e'.1) {m' : BTreeMap κ ν}
    {P' : κ × ν → Prop} [DecidablePred P']
    (h : ∀ e, m[e.1]? = some e.2 ∧ P e ↔ m'[e.1]? = some e.2 ∧ P' e) :
    argmin m P rank = argmin m' P' rank := by
  apply Option.ext
  intro e
  rw [argmin_eq_some_iff hrank, argmin_eq_some_iff hrank]
  constructor
  · intro hleast
    obtain ⟨hget, hP⟩ := (h e).mp ⟨hleast.lookup, hleast.holds⟩
    refine ⟨hget, hP, fun e' hget' hP' => ?_⟩
    obtain ⟨hget'', hP''⟩ := (h e').mpr ⟨hget', hP'⟩
    exact hleast.le e' hget'' hP''
  · intro hleast
    obtain ⟨hget, hP⟩ := (h e).mpr ⟨hleast.lookup, hleast.holds⟩
    refine ⟨hget, hP, fun e' hget' hP' => ?_⟩
    obtain ⟨hget'', hP''⟩ := (h e').mp ⟨hget', hP'⟩
    exact hleast.le e' hget'' hP''

end Argmin

/-! The stable sort -/

namespace StableSort
variable {α κ : Type*} [LinearOrder κ] (key : α → κ)

/-- The elements in the order of their keys, and those with one key in the order that they came in. -/
structure Sorts (l out : List α) : Prop where
  ordered : out.Pairwise fun a b => key a ≤ key b
  stable : ∀ k, out.filter (fun a => key a = k) = l.filter fun a => key a = k

variable {key}

theorem le_trans_decide (a b c : α) (hab : decide (key a ≤ key b) = true) (hbc : decide (key b ≤ key c) = true) :
    decide (key a ≤ key c) = true :=
  decide_eq_true (le_trans (of_decide_eq_true hab) (of_decide_eq_true hbc))

theorem le_total_decide (a b : α) : (decide (key a ≤ key b) || decide (key b ≤ key a)) = true := by
  rw [Bool.or_eq_true, decide_eq_true_iff, decide_eq_true_iff]
  exact le_total (key a) (key b)

theorem sorts_mergeSort (l : List α) : Sorts key l (l.mergeSort fun a b => key a ≤ key b) where
  ordered := (List.pairwise_mergeSort le_trans_decide le_total_decide l).imp of_decide_eq_true
  stable k := by
    have hsame : (l.filter fun a => key a = k).Pairwise fun a b => decide (key a ≤ key b) = true := by
      rw [List.pairwise_filter]
      refine List.pairwise_of_forall fun a b ha hb => ?_
      have heq : key a = key b := (of_decide_eq_true ha).trans (of_decide_eq_true hb).symm
      exact decide_eq_true heq.le
    have hsub := (List.sublist_mergeSort le_trans_decide le_total_decide hsame List.filter_sublist).filter
      fun a => decide (key a = k)
    simp only [List.filter_filter, Bool.and_self] at hsub
    have hlen := ((List.mergeSort_perm l fun a b => decide (key a ≤ key b)).filter fun a => decide (key a = k)).length_eq
    exact (hsub.eq_of_length hlen.symm).symm

theorem mem_iff_of_filter {l l' : List α} (h : ∀ k, l.filter (fun a => key a = k) = l'.filter fun a => key a = k)
    (x : α) : x ∈ l ↔ x ∈ l' := by
  have hx : x ∈ l.filter (fun a => key a = key x) ↔ x ∈ l'.filter fun a => key a = key x := by rw [h]
  simpa using hx

theorem le_of_head {x y : α} {l : List α} (h : (x :: l).Pairwise fun a b => key a ≤ key b) (hy : y ∈ x :: l) :
    key x ≤ key y := by
  rcases List.mem_cons.mp hy with rfl | hy
  · exact le_rfl
  · exact List.rel_of_pairwise_cons h hy

/-- Lists in the order of their keys are the same where they agree on each key. -/
theorem eq_of_filter {l l' : List α} (hl : l.Pairwise fun a b => key a ≤ key b)
    (hl' : l'.Pairwise fun a b => key a ≤ key b)
    (h : ∀ k, l.filter (fun a => key a = k) = l'.filter fun a => key a = k) : l = l' := by
  induction l generalizing l' with
  | nil =>
    cases l' with
    | nil => rfl
    | cons b bs => exact absurd ((mem_iff_of_filter h b).mpr List.mem_cons_self) List.not_mem_nil
  | cons a as ih =>
    cases l' with
    | nil => exact absurd ((mem_iff_of_filter h a).mp List.mem_cons_self) List.not_mem_nil
    | cons b bs =>
      have hkey : key b = key a := le_antisymm (le_of_head hl' ((mem_iff_of_filter h a).mp List.mem_cons_self))
        (le_of_head hl ((mem_iff_of_filter h b).mpr List.mem_cons_self))
      have hhead := h (key a)
      simp only [List.filter_cons, hkey, decide_true, if_true] at hhead
      obtain ⟨rfl, -⟩ := List.cons.inj hhead
      refine congrArg (a :: ·) (ih hl.of_cons hl'.of_cons fun k => ?_)
      have hk := h k
      by_cases hak : key a = k
      · simp only [List.filter_cons, hak, decide_true, if_true] at hk
        exact (List.cons.inj hk).2
      · simpa only [List.filter_cons, hak, decide_false, Bool.false_eq_true, if_false] using hk

theorem sorts_iff {l out : List α} : Sorts key l out ↔ l.mergeSort (fun a b => key a ≤ key b) = out := by
  constructor
  · intro h
    have hsort : Sorts key l (l.mergeSort fun a b => key a ≤ key b) := sorts_mergeSort l
    exact eq_of_filter hsort.ordered h.ordered fun k => (hsort.stable k).trans (h.stable k).symm
  · rintro rfl
    exact sorts_mergeSort l

end StableSort
