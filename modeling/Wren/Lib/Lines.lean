import Mathlib

/-! Texts that are taken apart at a mark or at the ends of their lines, and put together again. -/

namespace Text

section Split
variable {α : Type} [DecidableEq α]

def consHead (a : α) : List (List α) → List (List α)
  | [] => [[a]]
  | l :: ls => (a :: l) :: ls

/-- The parts between the occurrences of a mark, of which `skip` elements are still to be passed over. -/
def splitFrom (mark : List α) : ℕ → List α → List (List α)
  | _, [] => [[]]
  | skip + 1, _ :: s => splitFrom mark skip s
  | 0, a :: s =>
    if mark.isPrefixOf (a :: s) then [] :: splitFrom mark (mark.length - 1) s
    else consHead a (splitFrom mark 0 s)

def split (mark s : List α) : List (List α) := splitFrom mark 0 s

variable {mark : List α}

theorem splitFrom_skip (mark a s : List α) : splitFrom mark a.length (a ++ s) = split mark s := by
  induction a with
  | nil => rfl
  | cons x a ih => exact ih

theorem exists_splitFrom (mark : List α) (skip : ℕ) (s : List α) :
    ∃ p ps, splitFrom mark skip s = p :: ps ∧ (skip = 0 → p <+: s) := by
  induction s generalizing skip with
  | nil => exact ⟨[], [], by cases skip <;> rfl, fun _ => List.nil_prefix⟩
  | cons a s ih =>
    cases skip with
    | succ skip =>
      obtain ⟨p, ps, hp, -⟩ := ih skip
      exact ⟨p, ps, hp, by simp⟩
    | zero =>
      rw [splitFrom]
      split_ifs
      · exact ⟨[], _, rfl, fun _ => List.nil_prefix⟩
      · obtain ⟨p, ps, hp, hprefix⟩ := ih 0
        rw [hp]
        exact ⟨a :: p, ps, rfl, fun _ => by simpa using hprefix rfl⟩

/-- No part contains the mark. -/
theorem not_infix_of_mem_split (hmark : mark ≠ []) {s p : List α} (hp : p ∈ split mark s) : ¬ mark <:+: p := by
  have hnil : ¬ mark <:+: [] := fun h => hmark (List.infix_nil.mp h)
  have hall : ∀ (s : List α) (skip : ℕ), ∀ p ∈ splitFrom mark skip s, ¬ mark <:+: p := by
    intro s
    induction s with
    | nil =>
      intro skip p hp
      have hone : splitFrom mark skip [] = [[]] := by cases skip <;> rfl
      rw [hone, List.mem_singleton] at hp
      exact hp ▸ hnil
    | cons a s ih =>
      intro skip p hp
      cases skip with
      | succ skip => exact ih skip p hp
      | zero =>
        rw [splitFrom] at hp
        split_ifs at hp with hpre
        · rcases List.mem_cons.mp hp with rfl | hp
          · exact hnil
          · exact ih _ p hp
        · obtain ⟨q, qs, hq, hprefix⟩ := exists_splitFrom mark 0 s
          have hih := ih 0
          rw [hq] at hp hih
          rcases List.mem_cons.mp hp with rfl | hp
          · rw [List.infix_cons_iff]
            rintro (h | h)
            · exact hpre (List.isPrefixOf_iff_prefix.mpr (h.trans (by simpa using hprefix rfl)))
            · exact hih q List.mem_cons_self h
          · exact hih p (List.mem_cons_of_mem _ hp)
  exact hall s 0 p hp

theorem split_of_not_infix {s : List α} (h : ¬ mark <:+: s) : split mark s = [s] := by
  induction s with
  | nil => rfl
  | cons a s ih =>
    rw [List.infix_cons_iff, not_or] at h
    rw [split, splitFrom, if_neg (fun hp => h.1 (List.isPrefixOf_iff_prefix.mp hp))]
    have hrest := ih h.2
    rw [split] at hrest
    rw [hrest]
    rfl

/-- A mark whose first element does not come again cannot begin in the text before it. -/
theorem split_append {a : α} {r : List α} (ha : a ∉ r) {p : List α} (hp : ¬ a :: r <:+: p) (s : List α) :
    split (a :: r) (p ++ (a :: r ++ s)) = p :: split (a :: r) s := by
  induction p with
  | nil =>
    have hpre : (a :: r).isPrefixOf (a :: (r ++ s)) = true := List.isPrefixOf_iff_prefix.mpr ⟨s, rfl⟩
    rw [List.nil_append, List.cons_append, split, splitFrom, if_pos hpre]
    exact congrArg _ (splitFrom_skip (a :: r) r s)
  | cons x p ih =>
    rw [List.infix_cons_iff, not_or] at hp
    have hpre : ¬ (a :: r) <+: x :: (p ++ (a :: r ++ s)) := by
      intro h
      rw [← List.cons_append] at h
      rcases List.prefix_or_prefix_of_prefix h (List.prefix_append (x :: p) _) with hin | ⟨t, ht⟩
      · exact hp.1 hin
      · cases t with
        | nil =>
          rw [List.append_nil] at ht
          exact hp.1 (ht ▸ List.prefix_refl _)
        | cons y t =>
          rw [← ht, List.prefix_append_right_inj, List.cons_append] at h
          obtain ⟨hx, hr⟩ := List.cons.inj ht
          have hy : y = a := (List.cons_prefix_cons.mp h).1.trans hx
          exact ha (by simp [← hr, hy])
    rw [List.cons_append, split, splitFrom, if_neg (fun h => hpre (List.isPrefixOf_iff_prefix.mp h))]
    have hrest := ih hp.2
    rw [split] at hrest
    rw [hrest]
    rfl

/-- Parts without the mark are found again where they were joined by it. -/
theorem split_flatMap {a : α} {r : List α} (ha : a ∉ r) {p : List α} (hp : ¬ a :: r <:+: p) {ps : List (List α)}
    (hps : ∀ q ∈ ps, ¬ a :: r <:+: q) : split (a :: r) (p ++ ps.flatMap fun q => a :: r ++ q) = p :: ps := by
  induction ps generalizing p with
  | nil => rw [List.flatMap_nil, List.append_nil, split_of_not_infix hp]
  | cons q ps ih =>
    have hrest := ih (hps q List.mem_cons_self) fun q' hq' => hps q' (List.mem_cons_of_mem _ hq')
    rw [List.flatMap_cons, List.append_assoc, split_append ha hp, hrest]

end Split

/-! ### Lines -/

/-- The lines of a text. A carriage return right before the end of a line belongs to that. -/
def lines : List Char → List (List Char)
  | [] => []
  | c :: s =>
    if c = '\n' then [] :: lines s
    else if c = '\r' ∧ s.head? = some '\n' then lines s
    else consHead c (lines s)

def unlines (ls : List (List Char)) : List Char := ls.flatMap fun l => l ++ ['\n']

/-- A line without the carriage return that a newline would take with it. -/
def chop (l : List Char) : List Char := if l.getLast? = some '\r' then l.dropLast else l

/-- A line without carriage returns at its end. -/
def bare (l : List Char) : List Char := l.rdropWhile (· = '\r')

theorem lines_append {l : List Char} (h : '\n' ∉ l) (s : List Char) : lines (l ++ '\n' :: s) = chop l :: lines s := by
  induction l with
  | nil => rfl
  | cons c l ih =>
    rw [List.mem_cons, not_or] at h
    rw [List.cons_append, lines, if_neg (Ne.symm h.1)]
    cases l with
    | nil =>
      by_cases hc : c = '\r'
      · subst hc
        rfl
      · have hchop : chop [c] = [c] := if_neg (by simpa using hc)
        rw [if_neg (fun hboth => hc hboth.1), ih h.2, hchop]
        rfl
    | cons d l =>
      have hd : d ≠ '\n' := fun hd => h.2 (by simp [hd])
      have hchop : chop (c :: d :: l) = c :: chop (d :: l) := by
        rw [chop, chop, List.getLast?_cons_cons]
        split_ifs <;> rfl
      rw [if_neg (fun hboth => hd (Option.some.inj hboth.2)), ih h.2, hchop]
      rfl

theorem not_mem_of_mem_lines {s l : List Char} (hl : l ∈ lines s) : '\n' ∉ l := by
  induction s generalizing l with
  | nil => cases hl
  | cons c s ih =>
    rw [lines] at hl
    split_ifs at hl with hnew hret
    · rcases List.mem_cons.mp hl with rfl | hl
      · exact List.not_mem_nil
      · exact ih hl
    · exact ih hl
    · cases hs : lines s with
      | nil =>
        rw [hs] at hl
        obtain rfl := List.mem_singleton.mp hl
        simpa using Ne.symm hnew
      | cons m ms =>
        rw [hs] at hl ih
        rcases List.mem_cons.mp hl with rfl | hl
        · have hm := ih (l := m) List.mem_cons_self
          rw [List.mem_cons, not_or]
          exact ⟨Ne.symm hnew, hm⟩
        · exact ih (List.mem_cons_of_mem _ hl)

theorem lines_unlines {ls : List (List Char)} (h : ∀ l ∈ ls, '\n' ∉ l) : lines (unlines ls) = ls.map chop := by
  induction ls with
  | nil => rfl
  | cons l ls ih =>
    have hsplit : unlines (l :: ls) = l ++ '\n' :: unlines ls := by simp [unlines]
    rw [hsplit, lines_append (h l List.mem_cons_self), ih (fun m hm => h m (List.mem_cons_of_mem _ hm)), List.map_cons]

theorem infix_of_mem_lines {s l : List Char} (hl : l ∈ lines s) : l <:+: s := by
  have hall : ∀ s, (∀ l ∈ lines s, l <:+: s) ∧ ∀ l ∈ (lines s).head?, l <+: s := by
    intro s
    induction s with
    | nil => simp [lines]
    | cons c s ih =>
      obtain ⟨hin, hhead⟩ := ih
      rw [lines]
      split_ifs with hnew hret
      · refine ⟨?_, by simp⟩
        intro l hl
        rcases List.mem_cons.mp hl with rfl | hl
        · exact List.nil_infix
        · exact (hin l hl).trans (List.suffix_cons c s).isInfix
      · refine ⟨fun l hl => (hin l hl).trans (List.suffix_cons c s).isInfix, ?_⟩
        obtain ⟨t, rfl⟩ : ∃ t, s = '\n' :: t := by
          cases s with
          | nil => cases hret.2
          | cons d t => exact ⟨t, by rw [Option.some.inj hret.2]⟩
        simp [lines]
      · cases hs : lines s with
        | nil =>
          have hc : [c] <+: c :: s := ⟨s, rfl⟩
          exact ⟨by simpa [consHead] using hc.isInfix, by simp [consHead]⟩
        | cons m ms =>
          rw [hs] at hin hhead
          have hm : c :: m <+: c :: s := by simpa using hhead m rfl
          refine ⟨?_, by simpa [consHead] using hm⟩
          intro l hl
          rcases List.mem_cons.mp hl with rfl | hl
          · exact hm.isInfix
          · exact (hin l (List.mem_cons_of_mem _ hl)).trans (List.suffix_cons c s).isInfix
  exact (hall s).1 l hl

/-- What contains no newline does not reach over one. -/
theorem prefix_of_prefix_append {mark l s : List Char} (hmark : '\n' ∉ mark) (h : mark <+: l ++ '\n' :: s) : mark <+: l := by
  rcases List.prefix_or_prefix_of_prefix h (List.prefix_append l _) with hl | ⟨t, ht⟩
  · exact hl
  · cases t with
    | nil =>
      rw [List.append_nil] at ht
      exact ht ▸ List.prefix_refl _
    | cons d t =>
      rw [← ht, List.prefix_append_right_inj] at h
      obtain rfl : d = '\n' := (List.cons_prefix_cons.mp h).1
      exact absurd (by simp [← ht]) hmark

theorem infix_append_newline {mark l s : List Char} (hne : mark ≠ []) (hmark : '\n' ∉ mark) (h : mark <:+: l ++ '\n' :: s) :
    mark <:+: l ∨ mark <:+: s := by
  induction l with
  | nil =>
    rcases List.infix_cons_iff.mp h with hpre | hin
    · exact absurd (List.prefix_nil.mp (prefix_of_prefix_append (l := []) hmark hpre)) hne
    · exact .inr hin
  | cons c l ih =>
    rcases List.infix_cons_iff.mp h with hpre | hin
    · exact .inl (prefix_of_prefix_append (l := c :: l) hmark hpre).isInfix
    · rcases ih hin with hl | hs
      · exact .inl (hl.trans (List.suffix_cons c l).isInfix)
      · exact .inr hs

theorem not_infix_unlines {mark : List Char} (hne : mark ≠ []) (hmark : '\n' ∉ mark) {ls : List (List Char)}
    (h : ∀ l ∈ ls, ¬ mark <:+: l) : ¬ mark <:+: unlines ls := by
  induction ls with
  | nil => exact fun hin => hne (List.infix_nil.mp hin)
  | cons l ls ih =>
    have hsplit : unlines (l :: ls) = l ++ '\n' :: unlines ls := by simp [unlines]
    rw [hsplit]
    intro hin
    rcases infix_append_newline hne hmark hin with hl | hs
    · exact h l List.mem_cons_self hl
    · exact ih (fun m hm => h m (List.mem_cons_of_mem _ hm)) hs

theorem exists_eq_chop (l : List Char) : ∃ b, (∀ c ∈ b, c = '\r') ∧ l = chop l ++ b := by
  rw [chop]
  split_ifs with h
  · refine ⟨['\r'], by simp, ?_⟩
    obtain ⟨t, rfl⟩ := List.getLast?_eq_some_iff.mp h
    simp
  · exact ⟨[], by simp, by simp⟩

theorem exists_eq_bare (l : List Char) : ∃ b, (∀ c ∈ b, c = '\r') ∧ l = bare l ++ b := by
  refine ⟨l.rtakeWhile (· = '\r'), ?_, List.rdropWhile_append_rtakeWhile.symm⟩
  intro c hc
  simpa using List.mem_rtakeWhile_imp hc

theorem bare_append {b : List Char} (hb : ∀ c ∈ b, c = '\r') (l : List Char) : bare (l ++ b) = bare l := by
  induction b using List.reverseRecOn with
  | nil => rw [List.append_nil]
  | append_singleton b c ih =>
    have hc : c = '\r' := hb c (by simp)
    rw [← List.append_assoc, bare, List.rdropWhile_concat_pos _ _ _ (by simpa using hc)]
    exact ih fun d hd => hb d (by simp [hd])

theorem bare_chop (l : List Char) : bare (chop l) = bare l := by
  obtain ⟨b, hb, hl⟩ := exists_eq_chop l
  conv_rhs => rw [hl, bare_append hb]

theorem bare_of_not_mem {l : List Char} (h : '\r' ∉ l) : bare l = l := by
  obtain ⟨b, hb, hl⟩ := exists_eq_bare l
  cases b with
  | nil => rw [List.append_nil] at hl; exact hl.symm
  | cons c b =>
    have hc : c = '\r' := hb c List.mem_cons_self
    exact absurd (by rw [hl, hc]; simp) h

end Text
