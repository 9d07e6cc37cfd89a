import Wren.Lib.OrdMap

/-! Keeping the best of what is offered. A nearer offer replaces the one held, one as near is merged into it. -/

namespace Offer
open OrdMap
open Std (TransOrd LawfulEqOrd)

variable {D I : Type} [LinearOrder D] (dist : I → D) (merge : I → I → I)

def better (held : Option I) (i : I) : I :=
  match held with
  | none => i
  | some e => if dist i < dist e then i else if dist i = dist e then merge e i else e

/-- `e` is as near as the nearest of the offers, and a property `hop` that merging keeps is that of any of
those as near. An offer comes with its distance. -/
structure Best (hop : I → Prop) (P : D → I → Prop) (e : I) : Prop where
  attained : ∃ i, P (dist e) i
  le : ∀ d i, P d i → dist e ≤ d
  hop_iff : hop e ↔ ∃ i, P (dist e) i ∧ hop i

def Holds (hop : I → Prop) (P : D → I → Prop) : Option I → Prop
  | none => ∀ d i, ¬ P d i
  | some e => Best dist hop P e

variable {dist merge} {hop : I → Prop} {P Q : D → I → Prop}

theorem Holds.congr {o : Option I} (h : Holds dist hop P o) (hPQ : ∀ d i, P d i ↔ Q d i) : Holds dist hop Q o := by
  have heq : P = Q := by
    funext d i
    exact propext (hPQ d i)
  rw [← heq]
  exact h

theorem Best.congr {e : I} (h : Best dist hop P e) (hPQ : ∀ d i, P d i ↔ Q d i) : Best dist hop Q e :=
  @Holds.congr D I _ dist hop P Q (some e) h hPQ

/-- Offers that are further away do not matter. -/
theorem Best.of_further {e : I} (h : Best dist hop P e) (hQ : ∀ d i, Q d i → dist e < d) :
    Best dist hop (fun d i => P d i ∨ Q d i) e := by
  have honly : ∀ i, P (dist e) i ∨ Q (dist e) i ↔ P (dist e) i := by
    intro i
    constructor
    · rintro (hP | hQi)
      · exact hP
      · exact absurd (hQ _ i hQi) (lt_irrefl _)
    · exact Or.inl
  refine ⟨?_, ?_, ?_⟩
  · obtain ⟨i, hi⟩ := h.attained
    exact ⟨i, Or.inl hi⟩
  · rintro d i (hP | hQi)
    · exact h.le d i hP
    · exact (hQ d i hQi).le
  · rw [h.hop_iff]
    simp only [honly]

section Better
variable (hdist : ∀ {e i : I}, dist i = dist e → dist (merge e i) = dist e)
  (hmerge : ∀ e i, hop (merge e i) ↔ hop e ∨ hop i)
include hdist hmerge

theorem holds_better {o : Option I} (h : Holds dist hop P o) (j : I) :
    Holds dist hop (fun d i => P d i ∨ d = dist j ∧ i = j) (some (better dist merge o j)) := by
  cases o with
  | none =>
    refine ⟨⟨j, Or.inr ⟨rfl, rfl⟩⟩, ?_, ?_⟩
    · rintro d i (hP | ⟨rfl, -⟩)
      · exact absurd hP (h d i)
      · exact le_refl _
    · constructor
      · intro hj
        exact ⟨j, Or.inr ⟨rfl, rfl⟩, hj⟩
      · rintro ⟨i, hP | ⟨-, rfl⟩, hi⟩
        · exact absurd hP (h _ i)
        · exact hi
  | some e =>
    have hbest : Best dist hop P e := h
    change Best dist hop _ (if dist j < dist e then j else if dist j = dist e then merge e j else e)
    rcases lt_trichotomy (dist j) (dist e) with hlt | heq | hgt
    · -- a nearer offer leaves the others behind
      have hold : ∀ i, ¬ P (dist j) i := by
        intro i hP
        exact absurd (hbest.le _ i hP) hlt.not_ge
      rw [if_pos hlt]
      refine ⟨⟨j, Or.inr ⟨rfl, rfl⟩⟩, ?_, ?_⟩
      · rintro d i (hP | ⟨rfl, -⟩)
        · exact hlt.le.trans (hbest.le d i hP)
        · exact le_refl _
      · constructor
        · intro hj
          exact ⟨j, Or.inr ⟨rfl, rfl⟩, hj⟩
        · rintro ⟨i, hP | ⟨-, rfl⟩, hi⟩
          · exact absurd hP (hold i)
          · exact hi
    · have hsame := hdist heq
      rw [if_neg (by rw [heq]; exact lt_irrefl _), if_pos heq]
      obtain ⟨i₀, hi₀⟩ := hbest.attained
      refine ⟨⟨i₀, Or.inl (by rw [hsame]; exact hi₀)⟩, ?_, ?_⟩
      · rintro d i (hP | ⟨rfl, -⟩)
        · rw [hsame]
          exact hbest.le d i hP
        · rw [hsame, heq]
      · rw [hmerge, hbest.hop_iff, hsame]
        constructor
        · rintro (⟨i, hP, hi⟩ | hj)
          · exact ⟨i, Or.inl hP, hi⟩
          · exact ⟨j, Or.inr ⟨heq.symm, rfl⟩, hj⟩
        · rintro ⟨i, hP | ⟨-, rfl⟩, hi⟩
          · exact Or.inl ⟨i, hP, hi⟩
          · exact Or.inr hi
    · rw [if_neg hgt.not_gt, if_neg hgt.ne']
      refine hbest.of_further ?_
      rintro d i ⟨rfl, -⟩
      exact hgt

end Better

section Table
variable {κ : Type} [Ord κ] [TransOrd κ] [LawfulEqOrd κ] [DecidableEq κ]

variable (dist merge) in
/-- Offer an entry under a key. -/
def offer (m : BTreeMap κ I) (k : κ) (i : I) : BTreeMap κ I := m.insert k (better dist merge m[k]? i)

theorem getElem?_offer (m : BTreeMap κ I) (k a : κ) (i : I) :
    (offer dist merge m k i)[a]? = if a = k then some (better dist merge m[k]? i) else m[a]? :=
  getElem?_insert _ _ _ _

/-- What is true of every offer under its key, and kept by merging, is true of the table. -/
theorem forall_foldl_offer {ε : Type} {Q : κ → I → Prop} (hmerge : ∀ k e i, Q k e → Q k i → Q k (merge e i))
    (key : ε → κ) (entry : ε → I) (l : List ε) (hl : ∀ e ∈ l, Q (key e) (entry e)) {m : BTreeMap κ I}
    (hm : ∀ (k : κ) (i : I), m[k]? = some i → Q k i) (k : κ) (i : I)
    (h : (l.foldl (fun m e => offer dist merge m (key e) (entry e)) m)[k]? = some i) : Q k i := by
  induction l generalizing m with
  | nil => exact hm k i h
  | cons e l ih =>
    refine ih (fun e' he' => hl e' (List.mem_cons_of_mem e he')) (m := offer dist merge m (key e) (entry e)) ?_ h
    intro a j hj
    rw [getElem?_offer] at hj
    split_ifs at hj with ha
    · subst ha
      have hnew := hl e List.mem_cons_self
      cases hheld : m[key e]? with
      | none =>
        rw [hheld] at hj
        exact Option.some.inj hj ▸ hnew
      | some held =>
        have hold := hm _ _ hheld
        have hcases : j = entry e ∨ j = merge held (entry e) ∨ j = held := by
          rw [hheld, better] at hj
          split_ifs at hj
          · exact Or.inl (Option.some.inj hj).symm
          · exact Or.inr (Or.inl (Option.some.inj hj).symm)
          · exact Or.inr (Or.inr (Option.some.inj hj).symm)
        rcases hcases with rfl | rfl | rfl
        · exact hnew
        · exact hmerge _ _ _ hold hnew
        · exact hold
    · exact hm a j hj

variable (hdist : ∀ {e i : I}, dist i = dist e → dist (merge e i) = dist e)
  (hmerge : ∀ e i, hop (merge e i) ↔ hop e ∨ hop i)
include hdist hmerge

/-- After a list of offers a table holds the best of those under each key and of what it held. -/
theorem holds_foldl_offer {ε : Type} (key : ε → κ) (entry : ε → I) (l : List ε) {m : BTreeMap κ I} {k : κ}
    (h : Holds dist hop P m[k]?) :
    Holds dist hop (fun d i => P d i ∨ ∃ e ∈ l, key e = k ∧ d = dist (entry e) ∧ i = entry e)
      (l.foldl (fun m e => offer dist merge m (key e) (entry e)) m)[k]? := by
  induction l generalizing m P with
  | nil => simpa using h
  | cons e l ih =>
    rw [List.foldl_cons]
    by_cases hk : key e = k
    · have hoffer : Holds dist hop (fun d i => P d i ∨ d = dist (entry e) ∧ i = entry e)
          (offer dist merge m (key e) (entry e))[k]? := by
        rw [getElem?_offer, if_pos hk.symm, hk]
        exact holds_better hdist hmerge h _
      refine (ih hoffer).congr ?_
      intro d i
      simp only [List.mem_cons, exists_eq_or_imp, hk, true_and]
      tauto
    · have hskip : (offer dist merge m (key e) (entry e))[k]? = m[k]? := by
        rw [getElem?_offer, if_neg (Ne.symm hk)]
      refine (ih (by rw [hskip]; exact h)).congr ?_
      intro d i
      simp only [List.mem_cons, exists_eq_or_imp, hk, false_and, false_or]

end Table

section FromNothing
variable {κ : Type} [Ord κ] [TransOrd κ] [LawfulEqOrd κ] [DecidableEq κ]
  (hdist : ∀ {e i : I}, dist i = dist e → dist (merge e i) = dist e)
  {ε : Type} (key : ε → κ) (entry : ε → I) (l : List ε)
include hdist

/-- What a table holds under a key after a list of offers is the best of those under that key. -/
theorem holds_table (hmerge : ∀ e i, hop (merge e i) ↔ hop e ∨ hop i) (k : κ) :
    Holds dist hop (fun d i => ∃ e ∈ l, key e = k ∧ d = dist (entry e) ∧ i = entry e)
      (l.foldl (fun m e => offer dist merge m (key e) (entry e)) ∅)[k]? := by
  have hnone : Holds dist hop (fun _ _ => False) (∅ : BTreeMap κ I)[k]? := by simp [Holds]
  have h := holds_foldl_offer hdist hmerge key entry l hnone
  exact h.congr fun d i => by simp

/-- The table has an entry at a distance exactly if that is the least one that was offered. -/
theorem exists_table_iff (k : κ) (d : D) :
    (∃ i, (l.foldl (fun m e => offer dist merge m (key e) (entry e)) ∅)[k]? = some i ∧ dist i = d) ↔
      IsLeast (Set.ofPred fun d => ∃ e ∈ l, key e = k ∧ d = dist (entry e)) d := by
  have hholds := @holds_table D I _ dist merge (fun _ => False) κ _ _ _ _ hdist ε key entry l (by simp) k
  constructor
  · rintro ⟨i, hi, rfl⟩
    rw [hi] at hholds
    obtain ⟨i', e, he, hk, hd, -⟩ := hholds.attained
    refine ⟨⟨e, he, hk, hd⟩, ?_⟩
    rintro d ⟨e', he', hk', rfl⟩
    exact hholds.le _ _ ⟨e', he', hk', rfl, rfl⟩
  · rintro ⟨⟨e, he, hk, hd⟩, hleast⟩
    cases hi : (l.foldl (fun m e => offer dist merge m (key e) (entry e)) ∅)[k]? with
    | none =>
      rw [hi] at hholds
      exact absurd ⟨e, he, hk, hd, rfl⟩ (hholds d (entry e))
    | some i =>
      rw [hi] at hholds
      obtain ⟨i', e', he', hk', hd', -⟩ := hholds.attained
      have hge : d ≤ dist i := hleast ⟨e', he', hk', hd'⟩
      have hle : dist i ≤ d := hholds.le _ _ ⟨e, he, hk, hd, rfl⟩
      exact ⟨i, rfl, le_antisymm hle hge⟩

end FromNothing
end Offer
