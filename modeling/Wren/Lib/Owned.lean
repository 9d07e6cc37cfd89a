import Mathlib

/-! Views that keep one owner for each key while several sources may back it. An event brings one source
up or takes it down. A source that comes up may be refused, but only in favour of the owner, and the key of
an owner that goes down is given up. -/

namespace Owned
variable {α κ ε σ : Type*}

/-- How an event moves the owner of one key. -/
inductive Moves (key : α → Option κ) (source : ε → α) (live : ε → Prop) (k : κ) (e : ε) : Option α → Option α → Prop
  | other {o : Option α} : key (source e) ≠ some k → Moves key source live k e o o
  | taken {o : Option α} : key (source e) = some k → live e → Moves key source live k e o (some (source e))
  | refused {o : Option α} : live e → o ≠ none → Moves key source live k e o o
  | released : key (source e) = some k → ¬ live e → Moves key source live k e (some (source e)) none
  | spared {o : Option α} : ¬ live e → o ≠ some (source e) → Moves key source live k e o o

/-- The owner is a live source of its key. -/
def Sound (key : α → Option κ) (up : α → Prop) (k : κ) (o : Option α) : Prop :=
  ∀ a, o = some a → key a = some k ∧ up a

/-- A key with a live source has an owner. -/
def Complete (key : α → Option κ) (up : α → Prop) (k : κ) (o : Option α) : Prop :=
  (∃ a, key a = some k ∧ up a) → o ≠ none

section
variable {key : α → Option κ} {source : ε → α} {live : ε → Prop} {owner : σ → κ → Option α} {f : σ → ε → σ}
  {Inv : σ → Prop} (hInv : ∀ s e, Inv s → Inv (f s e))
  (hf : ∀ s e k, Inv s → Moves key source live k e (owner s k) (owner (f s e) k))

include hInv hf in
/-- An owner that no event of the batch is about stays, and so does the fact that there is one. -/
theorem foldl_of_settled {es : List ε} (hnodup : (es.map source).Nodup) {s : σ} (hs : Inv s) {k : κ}
    (hset : ∀ a, owner s k = some a → a ∉ es.map source) :
    owner (es.foldl f s) k ≠ none ↔ owner s k ≠ none ∨ ∃ e ∈ es, live e ∧ key (source e) = some k := by
  induction es generalizing s with
  | nil => simp
  | cons e es ih =>
    rw [List.map_cons, List.nodup_cons] at hnodup
    rw [List.foldl_cons]
    have hmove := hf s e k hs
    have hkeep : owner (f s e) k = owner s k → (owner s k ≠ none ∨ ¬ (live e ∧ key (source e) = some k)) →
        (owner (es.foldl f (f s e)) k ≠ none ↔
          owner s k ≠ none ∨ ∃ d ∈ e :: es, live d ∧ key (source d) = some k) := by
      intro hsame hno
      rw [ih hnodup.2 (hInv s e hs), hsame]
      · rcases hno with hsome | hno
        · exact iff_of_true (.inl hsome) (.inl hsome)
        · simp [hno]
      · intro a ha
        rw [hsame] at ha
        have := hset a ha
        simp only [List.map_cons, List.mem_cons, not_or] at this
        exact this.2
    generalize ho : owner s k = o at hmove
    generalize ho' : owner (f s e) k = o' at hmove
    cases hmove with
    | other hne => exact hkeep (ho'.trans ho.symm) (.inr fun h => hne h.2) |>.trans (by rw [ho])
    | refused _ hsome => exact hkeep (ho'.trans ho.symm) (.inl (ho ▸ hsome)) |>.trans (by rw [ho])
    | spared hno _ => exact hkeep (ho'.trans ho.symm) (.inr fun h => hno h.1) |>.trans (by rw [ho])
    | released hk hno => exact absurd (by simp) (hset _ ho)
    | taken hk hlive =>
      rw [ih hnodup.2 (hInv s e hs)]
      · refine iff_of_true (.inl ?_) (.inr ⟨e, by simp, hlive, hk⟩)
        rw [ho']
        simp
      · intro a ha
        rw [ho'] at ha
        cases ha
        exact hnodup.1

/-- An owner is given up only where no live source is left, or where a later event of the batch brings
one. -/
def Replaced (key : α → Option κ) (source : ε → α) (live : ε → Prop) (owner : σ → κ → Option α) (f : σ → ε → σ)
    (up : α → Prop) (k : κ) (s : σ) (es : List ε) : Prop :=
  ∀ before e after, es = before ++ e :: after → ¬ live e → owner (before.foldl f s) k = some (source e) →
    (∃ a, key a = some k ∧ up a) → ∃ d ∈ after, live d ∧ key (source d) = some k

include hInv hf in
/-- An owner was the owner before, or came up on the way. -/
theorem owner_foldl_cases (es : List ε) {s : σ} (hs : Inv s) {k : κ} {a : α} (h : owner (es.foldl f s) k = some a) :
    owner s k = some a ∨ ∃ e ∈ es, live e ∧ source e = a ∧ key a = some k := by
  induction es generalizing s with
  | nil => exact .inl h
  | cons e es ih =>
    rcases ih (hInv s e hs) h with hnext | ⟨d, hd, hlive⟩
    · have hmove := hf s e k hs
      rw [hnext] at hmove
      generalize ho : owner s k = o at hmove
      cases hmove with
      | other _ => exact .inl rfl
      | refused _ _ => exact .inl rfl
      | spared _ _ => exact .inl rfl
      | taken hk hlive => exact .inr ⟨e, by simp, hlive, rfl, hk⟩
    · exact .inr ⟨d, by simp [hd], hlive⟩

variable {up : α → Prop} {k : κ}

include hInv hf in
/-- The owner after a batch is live: it was not taken down, since it would have been released. -/
theorem sound_foldl {es : List ε} (hnodup : (es.map source).Nodup) (hup : ∀ e ∈ es, up (source e) ↔ live e)
    {s : σ} (hs : Inv s)
    (hsound : ∀ a, owner s k = some a → key a = some k ∧ (a ∉ es.map source → up a)) :
    Sound key up k (owner (es.foldl f s) k) := by
  induction es generalizing s with
  | nil =>
    intro a ha
    obtain ⟨hk, hlive⟩ := hsound a ha
    exact ⟨hk, hlive (by simp)⟩
  | cons e es ih =>
    rw [List.map_cons, List.nodup_cons] at hnodup
    refine ih hnodup.2 (fun d hd => hup d (by simp [hd])) (hInv s e hs) ?_
    intro a ha
    have hmove := hf s e k hs
    rw [ha] at hmove
    generalize ho : owner s k = o at hmove
    have hstay : ∀ {o}, owner s k = some o → (o = source e → up o) → key o = some k ∧ (o ∉ es.map source → up o) := by
      intro o ho hself
      obtain ⟨hk, hlive⟩ := hsound o ho
      refine ⟨hk, fun hnot => ?_⟩
      by_cases hoe : o = source e
      · exact hself hoe
      · exact hlive (by simp [hoe, hnot])
    cases hmove with
    | other hne =>
      refine hstay ho ?_
      rintro rfl
      exact absurd (hsound _ ho).1 hne
    | refused hlive _ =>
      refine hstay ho ?_
      rintro rfl
      exact (hup e (by simp)).mpr hlive
    | spared _ hne =>
      refine hstay ho ?_
      rintro rfl
      exact absurd rfl hne
    | taken hk hlive => exact ⟨hk, fun _ => (hup e (by simp)).mpr hlive⟩

include hInv hf in
theorem complete_foldl_iff {es : List ε} (hnodup : (es.map source).Nodup) (hup : ∀ e ∈ es, up (source e) ↔ live e)
    {s : σ} (hs : Inv s) (hkey : ∀ a, owner s k = some a → key a = some k)
    (hmissing : owner s k = none → ∀ a, key a = some k → up a → ∃ e ∈ es, live e ∧ source e = a) :
    Complete key up k (owner (es.foldl f s) k) ↔ Replaced key source live owner f up k s es := by
  induction es generalizing s with
  | nil =>
    refine iff_of_true ?_ ?_
    · rintro ⟨a, hk, ha⟩ hnone
      obtain ⟨e, he, -⟩ := hmissing hnone a hk ha
      cases he
    · intro before e after heq
      exact absurd heq (by simp)
  | cons e es ih =>
    rw [List.map_cons, List.nodup_cons] at hnodup
    -- an event that leaves an owner moves the question on to the rest of the batch
    have hrest : ¬ (¬ live e ∧ owner s k = some (source e)) →
        (Replaced key source live owner f up k s (e :: es) ↔ Replaced key source live owner f up k (f s e) es) := by
      intro hfirst
      constructor
      · intro h before d after heq
        exact h (e :: before) d after (by rw [heq, List.cons_append])
      · rintro h (_ | ⟨b, before⟩) d after heq hdead howner
        · cases heq
          exact absurd ⟨hdead, howner⟩ hfirst
        · cases heq
          exact h before d after rfl hdead howner
    have hmove := hf s e k hs
    generalize ho : owner s k = o at hmove
    generalize ho' : owner (f s e) k = o' at hmove
    have hnext : ¬ (¬ live e ∧ owner s k = some (source e)) → (∀ a, o' = some a → key a = some k) →
        (o' = none → o = none ∧ ¬ (live e ∧ key (source e) = some k)) →
        (Complete key up k (owner ((e :: es).foldl f s) k) ↔ Replaced key source live owner f up k s (e :: es)) := by
      intro hfirst hkey' hnone
      rw [hrest hfirst]
      refine ih hnodup.2 (fun d hd => hup d (by simp [hd])) (hInv s e hs) (fun a ha => hkey' a (ho'.symm.trans ha)) ?_
      intro hn a hk ha
      obtain ⟨hon, hno⟩ := hnone (ho'.symm.trans hn)
      obtain ⟨d, hd, hlive, rfl⟩ := hmissing (ho.trans hon) a hk ha
      rcases List.mem_cons.mp hd with rfl | hd
      · exact absurd ⟨hlive, hk⟩ hno
      · exact ⟨d, hd, hlive, rfl⟩
    cases hmove with
    | other hne =>
      refine hnext ?_ (fun a ha => hkey a (ho.trans ha)) (fun h => ⟨h, fun hl => hne hl.2⟩)
      rintro ⟨-, hs'⟩
      exact hne (hkey _ hs')
    | refused hlive hsome => exact hnext (fun h => h.1 hlive) (fun a ha => hkey a (ho.trans ha)) (fun h => absurd h hsome)
    | spared hno hne =>
      exact hnext (fun h => hne (ho.symm.trans h.2)) (fun a ha => hkey a (ho.trans ha)) (fun h => ⟨h, fun hl => hno hl.1⟩)
    | taken hk hlive =>
      refine hnext (fun h => h.1 hlive) ?_ (fun h => by cases h)
      intro a ha
      cases ha
      exact hk
    | released hk hno =>
      have hsome := foldl_of_settled hInv hf hnodup.2 (hInv s e hs) (k := k) (fun a ha => by rw [ho'] at ha; cases ha)
      rw [ho'] at hsome
      rw [List.foldl_cons]
      constructor
      · rintro h (_ | ⟨b, before⟩) d after heq hdead howner hex
        · cases heq
          rcases hsome.mp (h hex) with hne | hlater
          · exact absurd rfl hne
          · exact hlater
        · -- the owner came up in this batch, so no other event of it is about the owner
          cases heq
          exfalso
          rcases owner_foldl_cases hInv hf before (hInv s e hs) howner with hold | ⟨c, hc, -, hsrc, -⟩
          · rw [ho'] at hold
            cases hold
          · have hnd : ((before ++ d :: after).map source).Nodup := hnodup.2
            rw [List.map_append, List.nodup_append] at hnd
            exact hnd.2.2 _ (List.mem_map_of_mem hc) _ (by simp) hsrc
      · intro h hex
        exact hsome.mpr (.inr (h [] e es rfl hno ho hex))

end
end Owned
