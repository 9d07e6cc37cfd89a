import Mathlib

/-! Tables whose entries get older, and lose those that reach an age by it. -/

namespace Aging
variable {σ κ α : Type*}

/-- Removing keys one after another. -/
theorem get_foldl_remove [DecidableEq κ] {get : σ → κ → Option α} {remove : σ → κ → σ}
    (h : ∀ s k a, get (remove s k) a = if a = k then none else get s a) (l : List κ) (s : σ) (a : κ) :
    get (l.foldl remove s) a = if a ∈ l then none else get s a := by
  induction l generalizing s with
  | nil => simp
  | cons k l ih =>
    rw [List.foldl_cons, ih, h]
    by_cases hl : a ∈ l
    · simp [hl]
    · by_cases hk : a = k
      · simp [hk]
      · simp [hl, hk]

/-- No entry is old. -/
def Live (old : α → Prop) (get : κ → Option α) : Prop := ∀ k a, get k = some a → ¬ old a

/-- Where an entry goes just when it gets old by the tick, what was old before stays: after the tick nothing is old
exactly where nothing was. -/
theorem live_iff_of_reap {old : α → Prop} {older : α → α} {get get' : κ → Option α} [DecidablePred old]
    (hold : ∀ a, old a → old (older a))
    (h : ∀ k, get' k = (get k).bind fun a => if ¬ old a ∧ old (older a) then none else some (older a)) :
    Live old get' ↔ Live old get := by
  constructor
  · intro hlive k a ha hisold
    refine hlive k (older a) ?_ (hold a hisold)
    rw [h k, ha, Option.bind_some, if_neg (fun hgone => hgone.1 hisold)]
  · intro hlive k b hb hisold
    rw [h k, Option.bind_eq_some_iff] at hb
    obtain ⟨a, ha, hkept⟩ := hb
    split_ifs at hkept with hgone
    cases hkept
    exact hgone ⟨hlive k a ha, hisold⟩

end Aging
