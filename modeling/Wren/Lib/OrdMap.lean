import Mathlib

/-! Ordered finite maps and sets over a lawful key order, with lookups stated by
equality of keys instead of by the comparison. Then values that are collected by a key. -/

attribute [instance] lexOrd

namespace OrdMap
open Std

/-- An ordered map, equal to another one as soon as all lookups agree. -/
abbrev BTreeMap (κ ν : Type) [Ord κ] := ExtTreeMap κ ν compare

abbrev BTreeSet (κ : Type) [Ord κ] := ExtTreeSet κ compare

/-! The orders and the equality of keys that many maps have, as constants. -/

instance transOrdBitVec32 : TransOrd (BitVec 32) := BitVec.instTransOrd

instance transOrdBitVec48 : TransOrd (BitVec 48) := BitVec.instTransOrd

instance lawfulBEqBitVec32 : LawfulBEq (BitVec 32) := inferInstance

variable {κ ν : Type} [Ord κ] [TransOrd κ]

theorem nodup_keys_toList (m : BTreeMap κ ν) : (m.toList.map Prod.fst).Nodup := by
  rw [ExtTreeMap.map_fst_toList_eq_keys]
  exact ExtTreeMap.nodup_keys

variable [LawfulEqOrd κ]

theorem getElem?_insert [DecidableEq κ] (m : BTreeMap κ ν) (k a : κ) (v : ν) :
    (m.insert k v)[a]? = if a = k then some v else m[a]? := by
  simp [ExtTreeMap.getElem?_insert, @eq_comm κ a k]

theorem getElem?_erase [DecidableEq κ] (m : BTreeMap κ ν) (k a : κ) :
    (m.erase k)[a]? = if a = k then none else m[a]? := by
  simp [ExtTreeMap.getElem?_erase, @eq_comm κ a k]

theorem getElem?_modify [DecidableEq κ] (m : BTreeMap κ ν) (k a : κ) (f : ν → ν) :
    (m.modify k f)[a]? = if a = k then m[a]?.map f else m[a]? := by
  by_cases h : a = k
  · simp [h]
  · simp [ExtTreeMap.getElem?_modify, @eq_comm κ k a, h]

theorem keys_modify [DecidableEq κ] (m : BTreeMap κ ν) (k : κ) (f : ν → ν) : (m.modify k f).keys = m.keys := by
  have hmap : (m.modify k f).map (fun _ _ => ()) = m.map fun _ _ => () := by
    apply ExtTreeMap.ext_getElem?
    intro a
    rw [ExtTreeMap.getElem?_map, ExtTreeMap.getElem?_map, getElem?_modify]
    split_ifs
    · cases m[a]? <;> rfl
    · rfl
  rw [← ExtTreeMap.keys_map (f := fun _ _ => ()), hmap, ExtTreeMap.keys_map]

theorem getElem?_foldl_erase [DecidableEq κ] (l : List κ) (m : BTreeMap κ ν) (a : κ) :
    (l.foldl (fun m k => m.erase k) m)[a]? = if a ∈ l then none else m[a]? := by
  induction l generalizing m with
  | nil => simp
  | cons k l ih =>
    rw [List.foldl_cons, ih, getElem?_erase]
    by_cases hl : a ∈ l
    · simp [hl]
    · by_cases hk : a = k
      · simp [hk]
      · simp [hl, hk]

theorem erase_map {ν' : Type} [DecidableEq κ] (m : BTreeMap κ ν) (f : κ → ν → ν') (k : κ) :
    (m.map f).erase k = (m.erase k).map f := by
  apply ExtTreeMap.ext_getElem?
  intro a
  rw [getElem?_erase, ExtTreeMap.getElem?_map, ExtTreeMap.getElem?_map, getElem?_erase]
  split_ifs <;> rfl

theorem find?_toList [DecidableEq κ] (m : BTreeMap κ ν) (k : κ) :
    m.toList.find? (fun e => e.1 = k) = (m[k]?).map fun v => (k, v) := by
  cases hk : m[k]? with
  | none =>
    rw [Option.map_none, List.find?_eq_none]
    intro e he hek
    rw [ExtTreeMap.mem_toList_iff_getElem?_eq_some] at he
    rw [decide_eq_true_iff] at hek
    rw [hek, hk] at he
    cases he
  | some v =>
    obtain ⟨e, he⟩ : ∃ e, m.toList.find? (fun e => e.1 = k) = some e := by
      rw [← Option.isSome_iff_exists, List.find?_isSome]
      exact ⟨(k, v), ExtTreeMap.mem_toList_iff_getElem?_eq_some.mpr hk, by simp⟩
    have hmem := ExtTreeMap.mem_toList_iff_getElem?_eq_some.mp (List.mem_of_find?_eq_some he)
    have hek : e.1 = k := by simpa using List.find?_some he
    rw [hek, hk] at hmem
    rw [he, Option.map_some]
    exact congrArg some (Prod.ext hek (Option.some.inj hmem).symm)

omit [Ord κ] [TransOrd κ] [LawfulEqOrd κ] in
/-- Among entries with distinct keys a key is found once. -/
theorem filter_eq_find? [DecidableEq κ] {l : List (κ × ν)} (h : (l.map Prod.fst).Nodup) (k : κ) :
    l.filter (fun e => e.1 = k) = (l.find? fun e => e.1 = k).toList := by
  induction l with
  | nil => rfl
  | cons a l ih =>
    rw [List.map_cons, List.nodup_cons] at h
    by_cases hk : a.1 = k
    · have hnone : l.filter (fun e => e.1 = k) = [] := by
        rw [List.filter_eq_nil_iff]
        intro e he hek
        refine h.1 (List.mem_map.mpr ⟨e, he, ?_⟩)
        rw [hk]
        exact of_decide_eq_true hek
      rw [List.filter_cons_of_pos (by simpa using hk), List.find?_cons_of_pos (by simpa using hk), hnone,
        Option.toList_some]
    · rw [List.filter_cons_of_neg (by simpa using hk), List.find?_cons_of_neg (by simpa using hk), ih h.2]

theorem filter_toList [DecidableEq κ] (m : BTreeMap κ ν) (k : κ) :
    m.toList.filter (fun e => e.1 = k) = ((m[k]?).map fun v => (k, v)).toList := by
  rw [filter_eq_find? (nodup_keys_toList m), find?_toList]

/-- What the entries give together, where only one key gives anything. -/
theorem flatMap_toList_of_key [DecidableEq κ] {β : Type} (m : BTreeMap κ ν) (k : κ) (f : κ × ν → List β)
    (h : ∀ e ∈ m.toList, e.1 ≠ k → f e = []) : m.toList.flatMap f = (m[k]?).elim [] fun v => f (k, v) := by
  have hfilter : ∀ l : List (κ × ν), (∀ e ∈ l, e.1 ≠ k → f e = []) →
      l.flatMap f = (l.filter fun e => e.1 = k).flatMap f := by
    intro l
    induction l with
    | nil =>
      intro _
      rfl
    | cons e l ih =>
      intro hl
      have hrest := ih fun e' he' => hl e' (List.mem_cons_of_mem e he')
      by_cases hk : e.1 = k
      · rw [List.filter_cons_of_pos (by simpa using hk), List.flatMap_cons, List.flatMap_cons, hrest]
      · rw [List.filter_cons_of_neg (by simpa using hk), List.flatMap_cons, hl e List.mem_cons_self hk, hrest,
          List.nil_append]
  rw [hfilter m.toList h, filter_toList]
  cases m[k]? with
  | none => rfl
  | some v => simp

section Collect
variable {κ' ν' : Type} [Ord κ'] [TransOrd κ'] [LawfulEqOrd κ']

/-- The entries whose keys `f` renames, under their new keys. -/
def collect (m : BTreeMap κ ν) (f : κ → Option κ') (g : ν → ν') : BTreeMap κ' ν' :=
  m.toList.foldl (fun acc e =>
    match f e.1 with
    | some k => acc.insert k (g e.2)
    | none => acc) ∅

theorem getElem?_collect [DecidableEq κ] [DecidableEq κ'] (m : BTreeMap κ ν) {f : κ → Option κ'} (g : ν → ν') {up : κ' → κ}
    (h : ∀ a k, f a = some k ↔ a = up k) (k : κ') : (collect m f g)[k]? = (m[up k]?).map g := by
  have hfold : ∀ (l : List (κ × ν)) (acc : BTreeMap κ' ν'), (l.map Prod.fst).Nodup →
      (l.foldl (fun acc e =>
        match f e.1 with
        | some k => acc.insert k (g e.2)
        | none => acc) acc)[k]? = ((l.find? fun e => e.1 = up k).map fun e => g e.2).or acc[k]? := by
    intro l
    induction l with
    | nil =>
      intro acc _
      simp
    | cons e l ih =>
      intro acc hnd
      simp only [List.map_cons, List.nodup_cons] at hnd
      rw [List.foldl_cons, ih _ hnd.2]
      by_cases he : e.1 = up k
      · have hf : f e.1 = some k := (h e.1 k).mpr he
        have hrest : l.find? (fun x => x.1 = up k) = none := by
          rw [List.find?_eq_none]
          intro x hx hxk
          rw [decide_eq_true_iff] at hxk
          exact hnd.1 (List.mem_map.mpr ⟨x, hx, hxk.trans he.symm⟩)
        rw [hrest, hf, List.find?_cons_of_pos (by simpa using he)]
        simp
      · have hskip : (match f e.1 with
            | some k => acc.insert k (g e.2)
            | none => acc)[k]? = acc[k]? := by
          cases hf : f e.1 with
          | none => rfl
          | some k' =>
            have hne : k ≠ k' := by
              rintro rfl
              exact he ((h e.1 k).mp hf)
            simp only [getElem?_insert, if_neg hne]
        rw [hskip, List.find?_cons_of_neg (by simpa using he)]
  rw [collect, hfold _ _ (nodup_keys_toList m), find?_toList]
  cases m[up k]? <;> simp

end Collect

/-- The keys of the entries with a given property. -/
theorem mem_filter_toList (m : BTreeMap κ ν) (P : ν → Prop) [DecidablePred P] (a : κ) :
    a ∈ (m.toList.filter fun e => P e.2).map Prod.fst ↔ ∃ v, m[a]? = some v ∧ P v := by
  simp [List.mem_map, ExtTreeMap.mem_toList_iff_getElem?_eq_some]

theorem nodup_toList (s : BTreeSet κ) : s.toList.Nodup := by
  have h := ExtTreeSet.distinct_toList (t := s)
  simpa [List.Nodup] using h

theorem mem_insert (s : BTreeSet κ) (k a : κ) : a ∈ s.insert k ↔ a = k ∨ a ∈ s := by
  rw [ExtTreeSet.mem_insert, LawfulEqCmp.compare_eq_iff_eq, @eq_comm κ k a]

theorem mem_erase (s : BTreeSet κ) (k a : κ) : a ∈ s.erase k ↔ a ≠ k ∧ a ∈ s := by
  rw [ExtTreeSet.mem_erase, ne_eq, LawfulEqCmp.compare_eq_iff_eq, @eq_comm κ k a]

/-- Insert all elements of a list. -/
def insertAll (s : BTreeSet κ) (l : List κ) : BTreeSet κ := l.foldl (fun s a => s.insert a) s

/-- Remove all elements of a list. -/
def eraseAll (s : BTreeSet κ) (l : List κ) : BTreeSet κ := l.foldl (fun s a => s.erase a) s

@[simp] theorem mem_insertAll (s : BTreeSet κ) (l : List κ) (a : κ) : a ∈ insertAll s l ↔ a ∈ s ∨ a ∈ l := by
  unfold insertAll
  induction l generalizing s with
  | nil => simp
  | cons x l ih =>
    rw [List.foldl_cons, ih, ExtTreeSet.mem_insert, LawfulEqCmp.compare_eq_iff_eq, List.mem_cons]
    constructor <;> grind

@[simp] theorem mem_eraseAll (s : BTreeSet κ) (l : List κ) (a : κ) : a ∈ eraseAll s l ↔ a ∈ s ∧ a ∉ l := by
  unfold eraseAll
  induction l generalizing s with
  | nil => simp
  | cons x l ih =>
    rw [List.foldl_cons, ih, ExtTreeSet.mem_erase, ne_eq, LawfulEqCmp.compare_eq_iff_eq, List.mem_cons]
    constructor <;> grind

theorem isEmpty_iff_forall (s : BTreeSet κ) : s.isEmpty = true ↔ ∀ a, a ∉ s := by
  rw [ExtTreeSet.isEmpty_iff]
  constructor
  · rintro rfl a
    simp
  · intro h
    exact ExtTreeSet.ext_mem (by simpa using h)

section Rekey
variable {κ' ν' : Type} [Ord κ'] [TransOrd κ'] [LawfulEqOrd κ'] [DecidableEq κ']

/-- The map with other keys and values. -/
def rekey (e : κ ≃ κ') (f : ν → ν') (m : BTreeMap κ ν) : BTreeMap κ' ν' :=
  ExtTreeMap.ofList (m.toList.map fun x => (e x.1, f x.2)) compare

theorem getElem?_rekey (e : κ ≃ κ') (f : ν → ν') (m : BTreeMap κ ν) (k : κ) : (rekey e f m)[e k]? = (m[k]?).map f := by
  have hkeys : (m.toList.map fun x => (e x.1, f x.2)).map Prod.fst = (m.toList.map Prod.fst).map e := by
    rw [List.map_map, List.map_map]
    rfl
  cases hk : m[k]? with
  | none =>
    refine ExtTreeMap.getElem?_ofList_of_contains_eq_false ?_
    rw [hkeys, List.contains_eq_mem, decide_eq_false_iff_not]
    intro hmem
    obtain ⟨a, ha, hak⟩ := List.mem_map.mp hmem
    obtain rfl := e.injective hak
    obtain ⟨⟨a, v⟩, hv, rfl⟩ := List.mem_map.mp ha
    rw [ExtTreeMap.mem_toList_iff_getElem?_eq_some.mp hv] at hk
    cases hk
  | some v =>
    have hdistinct : (m.toList.map fun x => (e x.1, f x.2)).Pairwise fun a b => ¬ compare a.1 b.1 = .eq := by
      have hnodup := (nodup_keys_toList m).map e.injective
      rw [← hkeys] at hnodup
      exact (List.pairwise_map.mp hnodup).imp fun hne heq => hne (LawfulEqOrd.eq_of_compare heq)
    refine ExtTreeMap.getElem?_ofList_of_mem ReflCmp.compare_self hdistinct ?_
    exact List.mem_map.mpr ⟨(k, v), ExtTreeMap.mem_toList_iff_getElem?_eq_some.mpr hk, rfl⟩
end Rekey

end OrdMap

/-! Values by key -/

namespace OrdMap
open Std

variable {κ ν α : Type} [Ord κ] [TransOrd κ] [LawfulEqOrd κ]

theorem mem_toList (m : BTreeMap κ ν) (k : κ) (v : ν) : (k, v) ∈ m.toList ↔ m[k]? = some v := by
  rw [ExtTreeMap.mem_toList_iff_getElem?_eq_some]

variable [DecidableEq κ]

/-- The entries with one of them in front. -/
theorem perm_toList {m : BTreeMap κ ν} {k : κ} {v : ν} (h : m[k]? = some v) :
    m.toList.Perm ((k, v) :: (m.erase k).toList) := by
  have hnodup : ∀ m : BTreeMap κ ν, m.toList.Nodup := fun m => (nodup_keys_toList m).of_map _
  have hnew : (k, v) ∉ (m.erase k).toList := by
    rw [mem_toList, getElem?_erase, if_pos rfl]
    exact nofun
  rw [List.perm_ext_iff_of_nodup (hnodup m) (List.nodup_cons.mpr ⟨hnew, hnodup _⟩)]
  rintro ⟨a, b⟩
  rw [List.mem_cons, mem_toList, mem_toList, getElem?_erase]
  by_cases ha : a = k
  · subst ha
    simp [h, eq_comm]
  · simp [ha]

/-- The values of each key, in the order in which they come. -/
def groups (key : α → κ) (val : α → ν) (l : List α) : BTreeMap κ (List ν) :=
  l.foldl (fun m a => m.insert (key a) (m[key a]?.getD [] ++ [val a])) ∅

theorem toList_groups_singleton (key : α → κ) (val : α → ν) (a : α) :
    (groups key val [a]).toList = [(key a, [val a])] := by
  have hget : (groups key val [a])[key a]? = some [val a] := by simp [groups]
  have hempty : (groups key val [a]).erase (key a) = ∅ := by
    apply ExtTreeMap.ext_getElem?
    intro k
    rw [getElem?_erase]
    split_ifs with hk
    · simp
    · simp [groups, getElem?_insert, hk]
  have hnil : (∅ : BTreeMap κ (List ν)).toList = [] := by simp
  have hperm := perm_toList hget
  rw [hempty, hnil] at hperm
  exact List.perm_singleton.mp hperm

/-- Each value with its key. -/
def pairs (m : BTreeMap κ (List ν)) : List (κ × ν) := m.toList.flatMap fun g => g.2.map fun v => (g.1, v)

/-- The values of one key in front. -/
theorem perm_pairs (m : BTreeMap κ (List ν)) (k : κ) :
    (pairs m).Perm ((m[k]?.getD []).map (fun v => (k, v)) ++ pairs (m.erase k)) := by
  cases h : m[k]? with
  | some vs => exact (perm_toList h).flatMap_right _
  | none =>
    have hsame : m.erase k = m := by
      apply ExtTreeMap.ext_getElem?
      intro a
      rw [getElem?_erase]
      split_ifs with ha
      · rw [ha, h]
      · rfl
    rw [hsame]
    exact List.Perm.refl _

/-- Each element of the list is in one group. -/
theorem perm_groups (key : α → κ) (val : α → ν) (l : List α) :
    (pairs (groups key val l)).Perm (l.map fun a => (key a, val a)) := by
  induction l using List.reverseRecOn with
  | nil => simp [groups, pairs]
  | append_singleton l a ih =>
    set old := (groups key val l)[key a]?.getD [] with hold
    have hstep : groups key val (l ++ [a]) = (groups key val l).insert (key a) (old ++ [val a]) := by
      rw [groups, List.foldl_concat]
      rfl
    have herase : (groups key val (l ++ [a])).erase (key a) = (groups key val l).erase (key a) := by
      apply ExtTreeMap.ext_getElem?
      intro k
      rw [hstep, getElem?_erase, getElem?_erase, getElem?_insert]
      split_ifs <;> rfl
    have hnew := perm_pairs (groups key val (l ++ [a])) (key a)
    rw [herase, hstep, getElem?_insert, if_pos rfl, Option.getD_some, List.map_append, List.map_singleton,
      List.append_assoc, ← hstep] at hnew
    have hbefore := perm_pairs (groups key val l) (key a)
    rw [← hold] at hbefore
    rw [List.map_append, List.map_singleton]
    calc List.Perm (pairs (groups key val (l ++ [a]))) (old.map (fun v => (key a, v)) ++
          ([(key a, val a)] ++ pairs ((groups key val l).erase (key a)))) := hnew
      List.Perm _ (old.map (fun v => (key a, v)) ++ (pairs ((groups key val l).erase (key a)) ++ [(key a, val a)])) :=
        List.perm_append_comm.append_left _
      List.Perm _ (pairs (groups key val l) ++ [(key a, val a)]) := by
        rw [← List.append_assoc]
        exact hbefore.symm.append_right _
      List.Perm _ (l.map (fun a => (key a, val a)) ++ [(key a, val a)]) := ih.append_right _

/-- What is in a group came with one of the elements. -/
theorem exists_of_mem_groups {key : α → κ} {val : α → ν} {l : List α} {k : κ} {vs : List ν}
    (hg : (k, vs) ∈ (groups key val l).toList) {v : ν} (hv : v ∈ vs) : ∃ a ∈ l, key a = k ∧ val a = v := by
  have hpair : (k, v) ∈ pairs (groups key val l) := List.mem_flatMap.mpr ⟨_, hg, List.mem_map_of_mem hv⟩
  rw [(perm_groups _ _ _).mem_iff] at hpair
  obtain ⟨a, ha, heq⟩ := List.mem_map.mp hpair
  exact ⟨a, ha, congrArg Prod.fst heq, congrArg Prod.snd heq⟩

theorem ne_nil_of_mem_groups {key : α → κ} {val : α → ν} {l : List α} {k : κ} {vs : List ν}
    (hg : (k, vs) ∈ (groups key val l).toList) : vs ≠ [] := by
  rw [mem_toList] at hg
  induction l using List.reverseRecOn generalizing vs with
  | nil => simp [groups] at hg
  | append_singleton l a ih =>
    rw [groups, List.foldl_concat, getElem?_insert] at hg
    split_ifs at hg with hk
    · rw [← Option.some.inj hg]
      simp
    · exact ih hg

end OrdMap
