import Mathlib

/-! Replicas of a partial map that are kept by a stream of messages, each of which says what
one key maps to from now on. -/

namespace Replica
variable {κ ν : Type*} [DecidableEq κ]

/-- One message: `key` now maps to `value`, or to nothing. -/
structure Delta (κ ν : Type*) where
  key : κ
  value : Option ν

def Delta.apply (m : κ → Option ν) (d : Delta κ ν) : κ → Option ν :=
  Function.update m d.key d.value

/-- What a replica that held `m` holds after the messages `ds`. -/
def replay (m : κ → Option ν) (ds : List (Delta κ ν)) : κ → Option ν :=
  ds.foldl Delta.apply m

@[simp] theorem replay_nil (m : κ → Option ν) : replay m [] = m := rfl

@[simp] theorem replay_cons (m : κ → Option ν) (d : Delta κ ν) (ds : List (Delta κ ν)) :
    replay m (d :: ds) = replay (d.apply m) ds := rfl

theorem replay_append (m : κ → Option ν) (ds es : List (Delta κ ν)) :
    replay m (ds ++ es) = replay (replay m ds) es := List.foldl_append

theorem replay_of_notMem (m : κ → Option ν) (ds : List (Delta κ ν)) (k : κ)
    (hk : k ∉ ds.map Delta.key) : replay m ds k = m k := by
  induction ds generalizing m with
  | nil => rfl
  | cons d ds ih =>
    simp only [List.map_cons, List.mem_cons, not_or] at hk
    rw [replay_cons, ih _ hk.2, Delta.apply, Function.update_of_ne hk.1]

/-- The last message about a key decides, whatever the replica held before. -/
theorem replay_of_last (m : κ → Option ν) (ds : List (Delta κ ν)) (d : Delta κ ν)
    (es : List (Delta κ ν)) (hd : d.key ∉ es.map Delta.key) :
    replay m (ds ++ d :: es) d.key = d.value := by
  rw [replay_append, replay_cons, replay_of_notMem _ _ _ hd, Delta.apply, Function.update_self]

/-- Of the elements with a given key, if there is one, some element is the last. -/
theorem exists_last {α : Type*} (key : α → κ) (l : List α) (k : κ) :
    k ∉ l.map key ∨ ∃ l₁ a l₂, l = l₁ ++ a :: l₂ ∧ key a = k ∧ k ∉ l₂.map key := by
  induction l with
  | nil => exact Or.inl (by simp)
  | cons b l ih =>
    rcases ih with hnot | ⟨l₁, a, l₂, rfl, ha, hlast⟩
    · by_cases hb : key b = k
      · exact Or.inr ⟨[], b, l, rfl, hb, hnot⟩
      · refine Or.inl ?_
        rw [List.map_cons, List.mem_cons, not_or]
        exact ⟨fun h => hb h.symm, hnot⟩
    · exact Or.inr ⟨b :: l₁, a, l₂, rfl, ha, hlast⟩

/-- A key that messages name is as they say, whatever the replica held before. -/
theorem replay_eq_of_mem (m m' : κ → Option ν) {ds : List (Delta κ ν)} {k : κ}
    (hk : k ∈ ds.map Delta.key) : replay m ds k = replay m' ds k := by
  rcases exists_last Delta.key ds k with hnot | ⟨l, d, r, rfl, rfl, hlast⟩
  · exact absurd hk hnot
  · rw [replay_of_last m l d r hlast, replay_of_last m' l d r hlast]

/-- A message stream with one message for each key. -/
theorem replay_of_mem (m : κ → Option ν) {ds : List (Delta κ ν)} (hds : (ds.map Delta.key).Nodup)
    {d : Delta κ ν} (hd : d ∈ ds) : replay m ds d.key = d.value := by
  obtain ⟨l, r, rfl⟩ := List.append_of_mem hd
  simp only [List.map_append, List.map_cons, List.nodup_append, List.nodup_cons] at hds
  exact replay_of_last m l d r hds.2.1.1

/-- Messages that only clear keys. -/
theorem replay_clear (m : κ → Option ν) (l : List κ) (k : κ) :
    replay m (l.map fun a => ⟨a, none⟩) k = if k ∈ l then none else m k := by
  induction l generalizing m with
  | nil => simp
  | cons a l ih =>
    rw [List.map_cons, replay_cons, ih, Delta.apply, Function.update_apply]
    by_cases hl : k ∈ l
    · simp [hl]
    · by_cases ha : k = a
      · simp [ha]
      · simp [hl, ha]

/-- Messages that only set keys, each at most once. -/
theorem replay_filterMap {α : Type*} (m : κ → Option ν) (key : α → κ) (val : α → Option ν)
    {l : List α} (hl : (l.map key).Nodup) (k : κ) :
    replay m (l.filterMap fun a => (val a).map fun v => ⟨key a, some v⟩) k =
      ((l.find? fun a => key a = k).bind val <|> m k) := by
  induction l generalizing m with
  | nil => rfl
  | cons a l ih =>
    rw [List.map_cons, List.nodup_cons] at hl
    by_cases ha : key a = k
    · have hnot : k ∉ (l.filterMap fun a => (val a).map fun v => (⟨key a, some v⟩ : Delta κ ν)).map
          Delta.key := by
        intro hmem
        obtain ⟨d, hd, hk⟩ := List.mem_map.mp hmem
        obtain ⟨b, hb, hbd⟩ := List.mem_filterMap.mp hd
        obtain ⟨v, -, rfl⟩ := Option.map_eq_some_iff.mp hbd
        exact hl.1 (ha ▸ hk ▸ List.mem_map_of_mem hb)
      cases hv : val a with
      | none => simp [hv, ha, replay_of_notMem _ _ _ hnot]
      | some v => simp [hv, ha, replay_of_notMem _ _ _ hnot, Delta.apply]
    · cases hv : val a with
      | none => simp [hv, ha, ih _ hl.2]
      | some v => simp [hv, ha, ih _ hl.2, Delta.apply, Function.update_of_ne (Ne.symm ha)]

section Log
variable {σ ε δ : Type*} (step : σ → ε → σ) (emit : σ → ε → List δ)

/-- All messages a run emits, in order. -/
def log : σ → List ε → List δ
  | _, [] => []
  | s, e :: es => emit s e ++ log (step s e) es

/-- A view that each step changes as its own messages say is replayed by the whole log. -/
theorem replay_log (delta : δ → Delta κ ν) (view : σ → κ → Option ν)
    (h : ∀ s e, view (step s e) = replay (view s) ((emit s e).map delta)) (s : σ) (es : List ε) :
    replay (view s) ((log step emit s es).map delta) = view (es.foldl step s) := by
  induction es generalizing s with
  | nil => rfl
  | cons e es ih =>
    rw [log, List.map_append, replay_append, ← h, ih, List.foldl_cons]

end Log
end Replica
