import Wren.Lib.OrdMap

/-! Folds that keep the better of two elements, for a preference that compares ranks. -/

namespace Reduce
open Std (TransOrd LawfulEqOrd)
open OrdMap

variable {α κ β : Type}

/-- The element to keep when `a` comes after `b`. -/
def keep (better : α → α → Bool) (a b : α) : α := if better a b then a else b

/-- The first element that no later one is better than. -/
def reduce (better : α → α → Bool) (l : List α) : Option α :=
  l.foldl (fun best a => some (best.elim a (keep better a))) none

theorem reduce_concat (better : α → α → Bool) (l : List α) (a : α) :
    reduce better (l ++ [a]) = some ((reduce better l).elim a (keep better a)) := by
  rw [reduce, List.foldl_append]
  rfl

theorem reduce_eq_none_iff {better : α → α → Bool} {l : List α} : reduce better l = none ↔ l = [] := by
  induction l using List.reverseRecOn with
  | nil => simp [reduce]
  | append_singleton l a _ => simp [reduce_concat]

/-- `w` is in the list and ranks lowest there. -/
structure Lowest [LE β] (rank : α → β) (l : List α) (w : α) : Prop where
  mem : w ∈ l
  le : ∀ a ∈ l, rank w ≤ rank a

theorem Lowest.perm [LE β] {rank : α → β} {l l' : List α} {w : α} (h : Lowest rank l w)
    (hp : l.Perm l') : Lowest rank l' w :=
  ⟨hp.mem_iff.mp h.mem, fun a ha => h.le a (hp.mem_iff.mpr ha)⟩

variable [LinearOrder β]

/-- A preference may decide either way between elements of the same rank. -/
theorem lowest_of_reduce_le {better : α → α → Bool} {rank : α → β} {l : List α} {w : α}
    (hle : ∀ a ∈ l, ∀ b ∈ l, better a b = true → rank a ≤ rank b)
    (hge : ∀ a ∈ l, ∀ b ∈ l, ¬ better a b = true → rank b ≤ rank a) (h : reduce better l = some w) :
    Lowest rank l w := by
  induction l using List.reverseRecOn generalizing w with
  | nil => cases h
  | append_singleton l a ih =>
    rw [reduce_concat] at h
    cases hl : reduce better l with
    | none =>
      rw [hl] at h
      have hw : a = w := Option.some.inj h
      have hnil : l = [] := reduce_eq_none_iff.mp hl
      subst hw hnil
      exact ⟨by simp, by simp⟩
    | some b =>
      have hb := ih (fun x hx y hy => hle x (by simp [hx]) y (by simp [hy]))
        (fun x hx y hy => hge x (by simp [hx]) y (by simp [hy])) hl
      rw [hl] at h
      have hw : keep better a b = w := Option.some.inj h
      by_cases hab : better a b = true
      · have hwa : w = a := by rw [← hw, keep, if_pos hab]
        subst hwa
        have hbest := hle w (by simp) b (by simp [hb.mem]) hab
        refine ⟨by simp, ?_⟩
        intro x hx
        rcases List.mem_append.mp hx with hx | hx
        · exact hbest.trans (hb.le x hx)
        · rw [List.mem_singleton.mp hx]
      · have hwb : w = b := by rw [← hw, keep, if_neg hab]
        subst hwb
        have hkept := hge a (by simp) w (by simp [hb.mem]) hab
        refine ⟨by simp [hb.mem], ?_⟩
        intro x hx
        rcases List.mem_append.mp hx with hx | hx
        · exact hb.le x hx
        · rw [List.mem_singleton.mp hx]
          exact hkept

theorem lowest_of_reduce {better : α → α → Bool} {rank : α → β} {l : List α} {w : α}
    (hrank : ∀ a ∈ l, ∀ b ∈ l, better a b = true ↔ rank a < rank b) (h : reduce better l = some w) :
    Lowest rank l w :=
  lowest_of_reduce_le (fun a ha b hb hab => ((hrank a ha b hb).mp hab).le)
    (fun a ha b hb hab => not_lt.mp fun hlt => hab ((hrank a ha b hb).mpr hlt)) h

/-- The last element that no other is greater than. -/
def maxBy (cmp : α → α → Ordering) (l : List α) : Option α := reduce (fun a b => cmp b a ≠ .gt) l

theorem maxBy_eq_none_iff {cmp : α → α → Ordering} {l : List α} : maxBy cmp l = none ↔ l = [] :=
  reduce_eq_none_iff

theorem highest_of_maxBy {cmp : α → α → Ordering} {rank : α → β} {l : List α} {w : α}
    (hcmp : ∀ a b, cmp a b = .gt ↔ rank b < rank a) (h : maxBy cmp l = some w) :
    w ∈ l ∧ ∀ a ∈ l, rank a ≤ rank w := by
  have hlow : Lowest (fun a => OrderDual.toDual (rank a)) l w := by
    refine lowest_of_reduce_le (fun a _ b _ hab => ?_) (fun a _ b _ hab => ?_) h
    · have hab' : ¬ cmp b a = .gt := by simpa using hab
      exact not_lt.mp fun hlt => hab' ((hcmp b a).mpr hlt)
    · have hab' : cmp b a = .gt := by simpa using hab
      exact ((hcmp b a).mp hab').le
  exact ⟨hlow.mem, fun a ha => hlow.le a ha⟩

theorem Lowest.unique {rank : α → β} {l : List α} (hinj : ∀ a ∈ l, ∀ b ∈ l, rank a = rank b → a = b)
    {w w' : α} (h : Lowest rank l w) (h' : Lowest rank l w') : w = w' :=
  hinj w h.mem w' h'.mem (le_antisymm (h.le w' h'.mem) (h'.le w h.mem))

theorem reduce_eq_some_iff {better : α → α → Bool} {rank : α → β} {l : List α} {w : α}
    (hrank : ∀ a ∈ l, ∀ b ∈ l, better a b = true ↔ rank a < rank b)
    (hinj : ∀ a ∈ l, ∀ b ∈ l, rank a = rank b → a = b) :
    reduce better l = some w ↔ Lowest rank l w := by
  constructor
  · exact lowest_of_reduce hrank
  · intro h
    cases hl : reduce better l with
    | none =>
      rw [reduce_eq_none_iff.mp hl] at h
      cases h.mem
    | some w' => rw [(lowest_of_reduce hrank hl).unique hinj h]

/-- Where ranks tell the elements apart, their order in the list does not matter. -/
theorem reduce_perm {better : α → α → Bool} {rank : α → β} {l l' : List α} (hp : l.Perm l')
    (hrank : ∀ a ∈ l, ∀ b ∈ l, better a b = true ↔ rank a < rank b)
    (hinj : ∀ a ∈ l, ∀ b ∈ l, rank a = rank b → a = b) :
    reduce better l = reduce better l' := by
  have hrank' : ∀ a ∈ l', ∀ b ∈ l', better a b = true ↔ rank a < rank b :=
    fun a ha b hb => hrank a (hp.mem_iff.mpr ha) b (hp.mem_iff.mpr hb)
  have hinj' : ∀ a ∈ l', ∀ b ∈ l', rank a = rank b → a = b :=
    fun a ha b hb => hinj a (hp.mem_iff.mpr ha) b (hp.mem_iff.mpr hb)
  apply Option.ext
  intro w
  rw [reduce_eq_some_iff hrank hinj, reduce_eq_some_iff hrank' hinj']
  exact ⟨fun h => h.perm hp, fun h => h.perm hp.symm⟩

/-! ### Preferences that need not be transitive -/

section Asymmetric
variable {better : α → α → Bool}

/-- What comes later leaves the choice as it is or replaces it. -/
theorem mem_of_reduce_append {l r : List α} {a w : α} (hl : reduce better l = some a)
    (h : reduce better (l ++ r) = some w) : w = a ∨ w ∈ r := by
  induction r using List.reverseRecOn generalizing w with
  | nil =>
    rw [List.append_nil, hl] at h
    exact .inl (Option.some.inj h).symm
  | append_singleton r b ih =>
    rw [← List.append_assoc, reduce_concat] at h
    cases hlr : reduce better (l ++ r) with
    | none =>
      have hnil := reduce_eq_none_iff.mp hlr
      rw [List.append_eq_nil_iff.mp hnil |>.1] at hl
      cases hl
    | some c =>
      rw [hlr] at h
      have hw : keep better b c = w := Option.some.inj h
      unfold keep at hw
      split_ifs at hw
      · simp [hw]
      · rcases ih hlr with hc | hc
        · exact .inl (hw ▸ hc)
        · simp [← hw, hc]

theorem mem_of_reduce {l : List α} {w : α} (h : reduce better l = some w) : w ∈ l := by
  cases l with
  | nil => cases h
  | cons a l =>
    have hone : reduce better [a] = some a := rfl
    rcases mem_of_reduce_append (r := l) hone h with rfl | hw
    · simp
    · simp [hw]

theorem reduce_append_of_not_better {l r : List α} {a : α} (hl : reduce better l = some a)
    (h : ∀ b ∈ r, better b a = false) : reduce better (l ++ r) = some a := by
  induction r using List.reverseRecOn with
  | nil => rwa [List.append_nil]
  | append_singleton r b ih =>
    have hb : better b a = false := h b (by simp)
    rw [← List.append_assoc, reduce_concat, ih fun c hc => h c (by simp [hc])]
    simp [keep, hb]

variable (hasymm : ∀ a b, better a b = true → better b a = false)
include hasymm

/-- An element that is better than all others is chosen. -/
theorem reduce_eq_of_forall {l : List α} {w : α} (hw : w ∈ l) (h : ∀ a ∈ l, a ≠ w → better w a = true) :
    reduce better l = some w := by
  induction l using List.reverseRecOn with
  | nil => cases hw
  | append_singleton l a ih =>
    rw [reduce_concat]
    by_cases ha : a = w
    · subst ha
      cases hl : reduce better l with
      | none => rfl
      | some b =>
        by_cases hb : b = a
        · simp [keep, hb]
        · simp [keep, h b (by simp [mem_of_reduce hl]) hb]
    · have hwl : w ∈ l := by simpa [Ne.symm ha] using hw
      have hstay := hasymm w a (h a (by simp) ha)
      rw [ih hwl fun b hb => h b (by simp [hb])]
      simp [keep, hstay]

/-- The choice is the same in every order exactly if it is better than all others. -/
theorem reduce_perm_iff {l : List α} :
    (∀ l', l.Perm l' → reduce better l' = reduce better l) ↔
      l = [] ∨ ∃ w ∈ l, ∀ a ∈ l, a ≠ w → better w a = true := by
  classical
  constructor
  · intro h
    cases hl : reduce better l with
    | none => exact .inl (reduce_eq_none_iff.mp hl)
    | some w =>
      refine .inr ⟨w, mem_of_reduce hl, ?_⟩
      intro a ha hne
      by_contra hnot
      -- `a` first, then `w`: `w` does not replace it, and does not come again
      let ws := (l.erase a).filter (· = w)
      let rest := (l.erase a).filter fun b => !decide (b = w)
      have hperm : l.Perm ((a :: ws) ++ rest) :=
        (List.perm_cons_erase ha).trans ((List.filter_append_perm _ (l.erase a)).symm.cons a)
      have hws : reduce better ([a] ++ ws) = some a := by
        refine reduce_append_of_not_better rfl ?_
        intro b hb
        have hbw : b = w := by simpa [ws] using (List.mem_filter.mp hb).2
        rw [hbw]
        exact Bool.eq_false_iff.mpr hnot
      have hlast : reduce better ((a :: ws) ++ rest) = some w := (h _ hperm).trans hl
      rcases mem_of_reduce_append hws hlast with hwa | hmem
      · exact hne hwa.symm
      · simpa [rest] using (List.mem_filter.mp hmem).2
  · rintro (rfl | ⟨w, hw, h⟩) l' hp
    · rw [List.nil_perm.mp hp]
    · rw [reduce_eq_of_forall hasymm hw h,
        reduce_eq_of_forall hasymm (hp.mem_iff.mp hw) fun a ha => h a (hp.mem_iff.mpr ha)]

end Asymmetric

section Groups
variable [Ord κ] [TransOrd κ] [LawfulEqOrd κ]

/-- One reduction for each group of elements with the same key. -/
def reduceBy (better : α → α → Bool) (key : α → κ) (l : List α) : BTreeMap κ α :=
  l.foldl (fun m a => m.insert (key a) ((m[key a]?).elim a (keep better a))) ∅

theorem getElem?_reduceBy [DecidableEq κ] (better : α → α → Bool) (key : α → κ) (l : List α) (k : κ) :
    (reduceBy better key l)[k]? = reduce better (l.filter fun a => key a = k) := by
  induction l using List.reverseRecOn with
  | nil => simp [reduceBy, reduce]
  | append_singleton l a ih =>
    have hstep : reduceBy better key (l ++ [a]) = (reduceBy better key l).insert (key a)
        (((reduceBy better key l)[key a]?).elim a (keep better a)) := by
      rw [reduceBy, List.foldl_append]
      rfl
    rw [hstep, getElem?_insert, List.filter_append]
    by_cases hk : k = key a
    · subst hk
      rw [if_pos rfl, ih]
      simp [reduce_concat]
    · have hk' : ¬ key a = k := fun h => hk h.symm
      rw [if_neg hk, ih]
      simp [hk']

end Groups
end Reduce
