import Wren.Lib.Octets

/-! A list cut into consecutive pieces of bounded length, and the octets that records were read from. -/

namespace Chunks
variable {α : Type*}

/-- Pieces of `n` elements each, but for the last. -/
def chunks (n : ℕ) (l : List α) : List (List α) :=
  if _h : l = [] ∨ n = 0 then []
  else l.take n :: chunks n (l.drop n)
termination_by l.length
decreasing_by
  have hpos := List.length_pos_of_ne_nil (not_or.mp _h).1
  have hn := (not_or.mp _h).2
  rw [List.length_drop]
  omega

@[simp] theorem chunks_nil (n : ℕ) : chunks n ([] : List α) = [] := by
  rw [chunks, dif_pos (Or.inl rfl)]

theorem chunks_of_ne_nil {n : ℕ} (hn : n ≠ 0) {l : List α} (hl : l ≠ []) :
    chunks n l = l.take n :: chunks n (l.drop n) := by
  rw [chunks, dif_neg (not_or.mpr ⟨hl, hn⟩)]

/-- No element is lost, and none moved. -/
theorem flatten_chunks {n : ℕ} (hn : n ≠ 0) (l : List α) : (chunks n l).flatten = l := by
  induction l using chunks.induct n with
  | case1 l h =>
    have hl : l = [] := h.resolve_right hn
    rw [hl, chunks_nil, List.flatten_nil]
  | case2 l h ih =>
    rw [chunks_of_ne_nil hn (not_or.mp h).1, List.flatten_cons, ih, List.take_append_drop]

theorem ne_nil_and_length_le_of_mem {n : ℕ} {l c : List α} (h : c ∈ chunks n l) : c ≠ [] ∧ c.length ≤ n := by
  induction l using chunks.induct n with
  | case1 l hl =>
    rw [chunks, dif_pos hl] at h
    cases h
  | case2 l hl ih =>
    obtain ⟨hne, hn⟩ := not_or.mp hl
    rw [chunks_of_ne_nil hn hne] at h
    rcases List.mem_cons.mp h with rfl | hrest
    · have hpos := List.length_pos_of_ne_nil hne
      have hlen : (l.take n).length = min n l.length := List.length_take
      constructor
      · intro hnil
        rw [hnil] at hlen
        simp at hlen
        omega
      · omega
    · exact ih hrest

/-! Pieces of bounded cost -/

section Pack
variable (cost : α → ℕ) (budget : ℕ)

/-- The finished pieces, the one that is being filled and its cost. -/
structure Filling (α : Type*) where
  out : List (List α)
  chunk : List α
  used : ℕ

/-- An element that has no room in the piece being filled starts another one. -/
def put (s : Filling α) (a : α) : Filling α :=
  if s.chunk.isEmpty = false ∧ s.used + cost a > budget then ⟨s.out ++ [s.chunk], [a], cost a⟩
  else ⟨s.out, s.chunk ++ [a], s.used + cost a⟩

/-- The list from the front in as few pieces as the budget allows. -/
def pack (l : List α) : List (List α) :=
  let s := l.foldl (put cost budget) ⟨[], [], 0⟩
  if s.chunk.isEmpty then s.out else s.out ++ [s.chunk]

/-- Within the budget, but for an element that is beyond it alone. -/
structure Packed (c : List α) : Prop where
  ne_nil : c ≠ []
  within : c.length = 1 ∨ (c.map cost).sum ≤ budget

structure FillingOf (s : Filling α) (l : List α) : Prop where
  flatten : s.out.flatten ++ s.chunk = l
  used : s.used = (s.chunk.map cost).sum
  packed : ∀ c ∈ s.out, Packed cost budget c
  last : s.chunk ≠ [] → Packed cost budget s.chunk

variable {cost budget}

theorem FillingOf.put {s : Filling α} {l : List α} (h : FillingOf cost budget s l) (a : α) :
    FillingOf cost budget (put cost budget s a) (l ++ [a]) := by
  have hone : Packed cost budget [a] := ⟨List.cons_ne_nil _ _, .inl rfl⟩
  unfold Chunks.put
  split_ifs with hfull
  · have hne : s.chunk ≠ [] := by simpa using hfull.1
    refine ⟨?_, by simp, ?_, fun _ => hone⟩
    · simp [← h.flatten]
    · intro c hc
      rcases List.mem_append.mp hc with hc | hc
      · exact h.packed c hc
      · rw [List.mem_singleton.mp hc]
        exact h.last hne
  · refine ⟨?_, ?_, h.packed, fun _ => ?_⟩
    · simp [← h.flatten]
    · simp [h.used]
    · by_cases hnil : s.chunk = []
      · simpa [hnil] using hone
      · have hroom : s.used + cost a ≤ budget := by
          by_contra hover
          exact hfull ⟨by simpa using hnil, Nat.lt_of_not_le hover⟩
        refine ⟨by simp, .inr ?_⟩
        simpa [← h.used] using hroom

variable (cost budget)

theorem fillingOf_foldl (l : List α) : FillingOf cost budget (l.foldl (put cost budget) ⟨[], [], 0⟩) l := by
  induction l using List.reverseRecOn with
  | nil => exact ⟨rfl, rfl, by simp, by simp⟩
  | append_singleton l a ih =>
    rw [List.foldl_concat]
    exact ih.put a

theorem flatten_pack (l : List α) : (pack cost budget l).flatten = l := by
  have hflat := (fillingOf_foldl cost budget l).flatten
  unfold pack
  dsimp only
  split_ifs with hnil
  · rwa [List.isEmpty_iff.mp hnil, List.append_nil] at hflat
  · rwa [List.flatten_concat]

variable {cost budget}

theorem packed_of_mem {l c : List α} (h : c ∈ pack cost budget l) : Packed cost budget c := by
  have hfill := fillingOf_foldl cost budget l
  unfold pack at h
  dsimp only at h
  split_ifs at h with hnil
  · exact hfill.packed c h
  · rcases List.mem_append.mp h with hc | hc
    · exact hfill.packed c hc
    · rw [List.mem_singleton.mp hc]
      exact hfill.last (by simpa using hnil)

@[simp] theorem pack_nil : pack cost budget ([] : List α) = [] := rfl

end Pack
end Chunks

/-! The octets of records, and when the records are written as these octets again -/

namespace Octets
variable {α : Type*}

/-- The octets of one record after another, as `one` tells them apart. -/
def pieces (one : List UInt8 → Option (α × ℕ)) (buf : List UInt8) : List (List UInt8) :=
  (readAll (fun b => (one b).map fun r => (b.take r.2, r.2)) buf).getD []

variable {one : List UInt8 → Option (α × ℕ)} {enc : α → List UInt8}

/-- The record `a` was read from the octets `v`. -/
def ReadFrom (one : List UInt8 → Option (α × ℕ)) (a : α) (v : List UInt8) : Prop :=
  ∃ buf used, one buf = some (a, used) ∧ used ≤ buf.length ∧ v = buf.take used

theorem exists_pieces_of_readRecords (hone : ∀ buf a used, one buf = some (a, used) → used ≤ buf.length) {n : ℕ}
    {buf : List UInt8} {l : List α} (h : readRecords one n buf = some l) :
    ∃ ps, readRecords (fun b => (one b).map fun r => (b.take r.2, r.2)) n buf = some ps ∧ ps.flatten = buf ∧
      List.Forall₂ (ReadFrom one) l ps := by
  induction n generalizing buf l with
  | zero =>
    cases buf with
    | nil =>
      cases h
      exact ⟨[], rfl, rfl, List.Forall₂.nil⟩
    | cons b buf => cases h
  | succ n ih =>
    by_cases hnil : buf = []
    · subst hnil
      cases h
      exact ⟨[], rfl, rfl, List.Forall₂.nil⟩
    · rw [readRecords_succ hnil] at h
      obtain ⟨⟨a, used⟩, ha, hrest⟩ := Option.bind_eq_some_iff.mp h
      obtain ⟨rest, hr, rfl⟩ := Option.map_eq_some_iff.mp hrest
      obtain ⟨ps, hps, hflat, hread⟩ := ih hr
      refine ⟨buf.take used :: ps, ?_, ?_, List.Forall₂.cons ⟨buf, used, ha, hone buf a used ha, rfl⟩ hread⟩
      · rw [readRecords_succ hnil, ha]
        simp [hps]
      · rw [List.flatten_cons, hflat, List.take_append_drop]

/-- What is read is read piece by piece, and the pieces make up everything. -/
theorem pieces_of_readAll (hone : ∀ buf a used, one buf = some (a, used) → used ≤ buf.length) {buf : List UInt8}
    {l : List α} (h : readAll one buf = some l) :
    (pieces one buf).flatten = buf ∧ List.Forall₂ (ReadFrom one) l (pieces one buf) := by
  obtain ⟨ps, hps, hflat, hread⟩ := exists_pieces_of_readRecords hone h
  have heq : pieces one buf = ps := by
    rw [pieces, readAll, hps]
    rfl
  rw [heq]
  exact ⟨hflat, hread⟩

theorem length_flatten_le {l : List α} {ps : List (List UInt8)}
    (h : List.Forall₂ (fun a v => v.length ≤ (enc a).length) l ps) : ps.flatten.length ≤ (l.flatMap enc).length := by
  induction h with
  | nil => exact le_refl _
  | cons hle _ ih =>
    rw [List.flatten_cons, List.flatMap_cons, List.length_append, List.length_append]
    omega

/-- Where no record is written shorter than its piece, all of them are written as all the pieces only if each one is. -/
theorem flatMap_eq_flatten_iff {l : List α} {ps : List (List UInt8)}
    (h : List.Forall₂ (fun a v => v.length ≤ (enc a).length) l ps) :
    l.flatMap enc = ps.flatten ↔ List.Forall₂ (fun a v => enc a = v) l ps := by
  induction h with
  | nil => simp
  | @cons a v l ps hle hrest ih =>
    have hshort := length_flatten_le hrest
    rw [List.flatMap_cons, List.flatten_cons, List.forall₂_cons, ← ih]
    constructor
    · intro heq
      have htotal := congrArg List.length heq
      rw [List.length_append, List.length_append] at htotal
      exact List.append_inj heq (by omega)
    · intro heq
      rw [heq.1, heq.2]

/-- Records that are written again are the octets they were read from as long as each piece is one that is kept. -/
theorem flatMap_eq_iff {P : List UInt8 → Prop} (hone : ∀ buf a used, one buf = some (a, used) → used ≤ buf.length ∧
    used ≤ (enc a).length ∧ (enc a = buf.take used ↔ P (buf.take used))) {buf : List UInt8} {l : List α}
    (h : readAll one buf = some l) : l.flatMap enc = buf ↔ ∀ v ∈ pieces one buf, P v := by
  obtain ⟨hflat, hread⟩ := pieces_of_readAll (fun buf a used ha => (hone buf a used ha).1) h
  have hshort : List.Forall₂ (fun a v => v.length ≤ (enc a).length) l (pieces one buf) := by
    refine hread.imp ?_
    rintro a v ⟨b, used, ha, hused, rfl⟩
    rw [List.length_take_of_le hused]
    exact (hone b a used ha).2.1
  have hall : ∀ {l : List α} {ps : List (List UInt8)}, List.Forall₂ (ReadFrom one) l ps →
      (List.Forall₂ (fun a v => enc a = v) l ps ↔ ∀ v ∈ ps, P v) := by
    intro l ps hps
    induction hps with
    | nil => simp
    | cons hav _ ih =>
      obtain ⟨b, used, ha, -, rfl⟩ := hav
      rw [List.forall₂_cons, List.forall_mem_cons, ih, (hone b _ used ha).2.2]
  calc l.flatMap enc = buf
      ↔ l.flatMap enc = (pieces one buf).flatten := by rw [hflat]
    _ ↔ List.Forall₂ (fun a v => enc a = v) l (pieces one buf) := flatMap_eq_flatten_iff hshort
    _ ↔ ∀ v ∈ pieces one buf, P v := hall hread

end Octets
