import Mathlib

/-! Runs of a deterministic transition function over a list of inputs, and folds whose
steps each touch one key of the state. -/

namespace Run
variable {σ ε : Type*}

/-- `P` holds of every state and input that the run steps through. -/
def Every (step : σ → ε → σ) (P : σ → ε → Prop) : σ → List ε → Prop
  | _, [] => True
  | s, e :: es => P s e ∧ Every step P (step s e) es

instance (step : σ → ε → σ) (P : σ → ε → Prop) [∀ s e, Decidable (P s e)] :
    (s : σ) → (es : List ε) → Decidable (Every step P s es)
  | _, [] => inferInstanceAs (Decidable True)
  | s, e :: es =>
    have : Decidable (Every step P (step s e) es) := instDecidableEvery step P (step s e) es
    inferInstanceAs (Decidable (P s e ∧ Every step P (step s e) es))

/-- A guarded invariant rule: the guard may be assumed of every step taken. -/
theorem Every.invariant {step : σ → ε → σ} {P : σ → ε → Prop} {s : σ} {es : List ε}
    (h : Every step P s es) (Inv : σ → Prop) (h0 : Inv s)
    (hstep : ∀ s e, Inv s → P s e → Inv (step s e)) : Inv (es.foldl step s) := by
  induction es generalizing s with
  | nil => exact h0
  | cons e es ih => exact ih h.2 (hstep s e h0 h.1)

theorem every_append {step : σ → ε → σ} {P : σ → ε → Prop} {s : σ} {es fs : List ε} :
    Every step P s (es ++ fs) ↔ Every step P s es ∧ Every step P (es.foldl step s) fs := by
  induction es generalizing s with
  | nil => exact ⟨fun h => ⟨trivial, h⟩, fun h => h.2⟩
  | cons e es ih =>
    constructor
    · rintro ⟨h, hrest⟩
      obtain ⟨h', hfs⟩ := ih.mp hrest
      exact ⟨⟨h, h'⟩, hfs⟩
    · rintro ⟨⟨h, h'⟩, hfs⟩
      exact ⟨h, ih.mpr ⟨h', hfs⟩⟩

theorem every_of_forall {step : σ → ε → σ} {P : σ → ε → Prop} {Q : ε → Prop}
    (hQ : ∀ s e, Q e → P s e) {es : List ε} (h : ∀ e ∈ es, Q e) (s : σ) : Every step P s es := by
  induction es generalizing s with
  | nil => trivial
  | cons e es ih =>
    exact ⟨hQ s e (h e (by simp)), ih (fun a ha => h a (by simp [ha])) (step s e)⟩

theorem every_true (step : σ → ε → σ) (s : σ) (es : List ε) : Every step (fun _ _ => True) s es := by
  induction es generalizing s with
  | nil => trivial
  | cons e es ih => exact ⟨trivial, ih (step s e)⟩

theorem Every.imp {step : σ → ε → σ} {P Q : σ → ε → Prop} (hPQ : ∀ s e, P s e → Q s e) {s : σ} {es : List ε}
    (h : Every step P s es) : Every step Q s es := by
  induction es generalizing s with
  | nil => trivial
  | cons e es ih => exact ⟨hPQ s e h.1, ih h.2⟩

theorem Every.and {step : σ → ε → σ} {P Q : σ → ε → Prop} {s : σ} {es : List ε}
    (hP : Every step P s es) (hQ : Every step Q s es) :
    Every step (fun s e => P s e ∧ Q s e) s es := by
  induction es generalizing s with
  | nil => trivial
  | cons e es ih => exact ⟨⟨hP.1, hQ.1⟩, ih hP.2 hQ.2⟩

/-- What an invariant and the guard give of a step holds of every step of a guarded run. -/
theorem Every.under {step : σ → ε → σ} {P Q : σ → ε → Prop} (Inv : σ → Prop)
    (hstep : ∀ s e, Inv s → P s e → Inv (step s e) ∧ Q s e) {s : σ} {es : List ε} (hi : Inv s)
    (h : Every step P s es) : Every step Q s es := by
  induction es generalizing s with
  | nil => trivial
  | cons e es ih =>
    obtain ⟨hnext, hQ⟩ := hstep s e hi h.1
    exact ⟨hQ, ih hnext h.2⟩

/-- Two step properties that agree under an invariant hold along the same runs. -/
theorem every_congr {step : σ → ε → σ} {P Q : σ → ε → Prop} (Inv : σ → Prop)
    (hInv : ∀ s e, Inv s → Inv (step s e)) (h : ∀ s e, Inv s → (P s e ↔ Q s e)) {s : σ}
    (hi : Inv s) (es : List ε) : Every step P s es ↔ Every step Q s es := by
  induction es generalizing s with
  | nil => rfl
  | cons e es ih => exact and_congr (h s e hi) (ih (hInv s e hi))

/-- Where a guard decides, step by step, whether a good state stays good, all states of a
run are good exactly when all its steps meet the guard. `Inv` holds along every run. -/
theorem every_good_iff {step : σ → ε → σ} {P A : σ → ε → Prop} (Inv Good : σ → Prop)
    (hInv : ∀ s e, Inv s → A s e → Inv (step s e))
    (hGood : ∀ s e, Inv s → A s e → Good s → (Good (step s e) ↔ P s e))
    {s : σ} {es : List ε} (hA : Every step A s es) (hi : Inv s) (hg : Good s) :
    Every step (fun s e => Good (step s e)) s es ↔ Every step P s es := by
  induction es generalizing s with
  | nil => rfl
  | cons e es ih =>
    have hs := hGood s e hi hA.1 hg
    constructor
    · intro hall
      have hrest := ih hA.2 (hInv s e hi hA.1) hall.1
      exact ⟨hs.mp hall.1, hrest.mp hall.2⟩
    · intro hall
      have hgood := hs.mpr hall.1
      have hrest := ih hA.2 (hInv s e hi hA.1) hgood
      exact ⟨hgood, hrest.mpr hall.2⟩

/-- A view follows its own specification through every state of a run exactly when each step
moves it as specified. -/
theorem forall_prefix_iff_every {τ : Type*} {step : σ → ε → σ} (view : σ → τ) (spec : τ → ε → τ)
    (s : σ) (es : List ε) :
    (∀ fs, fs <+: es → view (fs.foldl step s) = fs.foldl spec (view s)) ↔
      Every step (fun s e => view (step s e) = spec (view s) e) s es := by
  induction es generalizing s with
  | nil => simp [Every]
  | cons e es ih =>
    constructor
    · intro hall
      have hfirst : view (step s e) = spec (view s) e := hall [e] (by simp)
      refine ⟨hfirst, (ih (step s e)).mp ?_⟩
      intro fs hfs
      rw [hfirst]
      exact hall (e :: fs) (by simpa using hfs)
    · rintro ⟨hfirst, hrest⟩ fs hfs
      cases fs with
      | nil => rfl
      | cons f fs =>
        obtain ⟨rfl, hfs'⟩ := List.cons_prefix_cons.mp hfs
        have hview := (ih (step s f)).mpr hrest fs hfs'
        rw [hfirst] at hview
        exact hview

/-- A transition function with a record beside its state that only observes it. -/
def observe {γ : Type*} (step : σ → ε → σ) (note : γ → σ → ε → γ) (w : σ × γ) (e : ε) : σ × γ :=
  (step w.1 e, note w.2 w.1 e)

/-- A transition function that also puts something out, over a list of inputs. -/
def outputs {β : Type*} (f : σ → ε → σ × List β) : σ → List ε → σ × List β
  | s, [] => (s, [])
  | s, e :: es =>
    let (s, out) := f s e
    let (s, rest) := outputs f s es
    (s, out ++ rest)

/-- Where a reader of what every step puts out keeps up with the state, it keeps up with it in every run. -/
theorem outputs_keep_up {β γ : Type*} {f : σ → ε → σ × List β} {read : γ → β → Option γ} {view : σ → γ} {Inv : σ → Prop}
    (hstep : ∀ s e, Inv s → (f s e).2.foldlM read (view s) = some (view (f s e).1) ∧ Inv (f s e).1) (es : List ε) {s : σ}
    (h : Inv s) : (outputs f s es).2.foldlM read (view s) = some (view (outputs f s es).1) ∧ Inv (outputs f s es).1 := by
  induction es generalizing s with
  | nil => exact ⟨rfl, h⟩
  | cons e es ih =>
    obtain ⟨hfirst, hnext⟩ := hstep s e h
    obtain ⟨hrest, hlast⟩ := ih hnext
    refine ⟨?_, hlast⟩
    simp only [outputs, List.foldlM_append, hfirst]
    exact hrest

/-- The invariant rule for a fold that may fail: it holds of the result, if there is one. -/
theorem foldlM_invariant {α ε' : Type*} {f : σ → α → Except ε' σ} (Inv : σ → Prop) {l : List α}
    {s s' : σ} (h : l.foldlM f s = .ok s') (h0 : Inv s)
    (hstep : ∀ s, ∀ a ∈ l, ∀ s', Inv s → f s a = .ok s' → Inv s') : Inv s' := by
  induction l generalizing s with
  | nil =>
    cases h
    exact h0
  | cons a l ih =>
    rw [List.foldlM_cons] at h
    cases ha : f s a with
    | error e =>
      rw [ha] at h
      cases h
    | ok b =>
      rw [ha] at h
      exact ih h (hstep s a (by simp) b h0 ha) fun s c hc => hstep s c (by simp [hc])

/-- A fold whose steps each reach some goals and lose none reaches the goals of all of them. -/
theorem foldl_establish {α γ : Type*} {f : σ → α → σ} {P : σ → Prop} {Q : γ → σ → Prop}
    {G : α → γ → Prop} {l : List α} {s : σ} (h : P s)
    (hpre : ∀ t, ∀ a ∈ l, P t → P (f t a))
    (hkeep : ∀ t, ∀ a ∈ l, P t → ∀ c, Q c t → Q c (f t a))
    (hgoal : ∀ t, ∀ a ∈ l, P t → ∀ c, G a c → Q c (f t a)) :
    P (l.foldl f s) ∧ (∀ c, Q c s → Q c (l.foldl f s)) ∧
      ∀ a ∈ l, ∀ c, G a c → Q c (l.foldl f s) := by
  induction l generalizing s with
  | nil => exact ⟨h, fun _ hc => hc, by simp⟩
  | cons a l ih =>
    have hfirst := hpre s a (by simp) h
    obtain ⟨hlast, hkept, hrest⟩ := ih hfirst (fun t b hb => hpre t b (by simp [hb]))
      (fun t b hb => hkeep t b (by simp [hb])) (fun t b hb => hgoal t b (by simp [hb]))
    refine ⟨hlast, fun c hc => hkept c (hkeep s a (by simp) h c hc), ?_⟩
    intro b hb c hc
    rcases List.mem_cons.mp hb with rfl | hb'
    · exact hkept c (hgoal s b (by simp) h c hc)
    · exact hrest b hb' c hc

section Keyed
variable {α κ β : Type*} {f : σ → α → σ} {key : α → κ} (view : σ → κ → β)

/-- A key no element carries is viewed after the fold as before it. -/
theorem foldl_view_of_notMem (hf : ∀ s a k, k ≠ key a → view (f s a) k = view s k)
    (l : List α) (s : σ) (k : κ) (hk : k ∉ l.map key) : view (l.foldl f s) k = view s k := by
  induction l generalizing s with
  | nil => rfl
  | cons a l ih =>
    simp only [List.map_cons, List.mem_cons, not_or] at hk
    rw [List.foldl_cons, ih (f s a) hk.2, hf s a k hk.1]

/-- With distinct keys, the view at the key of `a` after the fold is what `f` makes of `a` in
some state that looks there as the first one does. `G` is kept by every step. -/
theorem foldl_view_of_mem (hf : ∀ s a k, k ≠ key a → view (f s a) k = view s k)
    {G : σ → Prop} (hG : ∀ s a, G s → G (f s a)) {l : List α} (hl : (l.map key).Nodup)
    {s : σ} (hs : G s) {a : α} (ha : a ∈ l) :
    ∃ s', G s' ∧ view s' (key a) = view s (key a) ∧
      view (l.foldl f s) (key a) = view (f s' a) (key a) := by
  induction l generalizing s with
  | nil => cases ha
  | cons b l ih =>
    simp only [List.map_cons, List.nodup_cons] at hl
    rcases List.mem_cons.mp ha with rfl | ha'
    · exact ⟨s, hs, rfl, foldl_view_of_notMem view hf l _ _ hl.1⟩
    · have hne : key a ≠ key b := fun h => hl.1 (h ▸ List.mem_map_of_mem ha')
      obtain ⟨s', hs', hv, hfin⟩ := ih hl.2 (hG s b hs) ha'
      exact ⟨s', hs', hv.trans (hf s b _ hne), hfin⟩

end Keyed
end Run
