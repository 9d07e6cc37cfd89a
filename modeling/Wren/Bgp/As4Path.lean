import Wren.Bgp.RoundTrip
import Wren.Bgp.Decoded
import Wren.Bgp.Path

/-! The AS path that is put together from AS_PATH and AS4_PATH: its length, its confederation segments,
and whether it can be written again. -/

namespace Wren.Bgp
open Wren.Core Octets

namespace AsPathSegment

/-- What a segment adds to the length of a path. -/
def hops : AsPathSegment → ℕ
  | sequence a => a.length
  | set _ => 1
  | confedSequence _ | confedSet _ => 0

/-- How many elements a segment is merged as. -/
def elements : AsPathSegment → ℕ
  | sequence a => a.length
  | set _ | confedSequence _ | confedSet _ => 1

end AsPathSegment

def pathHops (segs : List AsPathSegment) : ℕ := (segs.map AsPathSegment.hops).sum

def pathElements (segs : List AsPathSegment) : ℕ := (segs.map AsPathSegment.elements).sum

def confederationSegments (segs : List AsPathSegment) : List AsPathSegment :=
  segs.filter AsPathSegment.isConfederation

theorem Path.asPathLen_eq (p : Path) : p.asPathLen = pathHops p.asPath := by
  rw [asPathLen, pathHops]
  congr 2

namespace AsPathElement

def hops : AsPathElement → ℕ
  | asn _ => 1
  | whole seg => seg.hops

def confederation? : AsPathElement → Option AsPathSegment
  | asn _ => none
  | whole seg => if seg.isConfederation then some seg else none

end AsPathElement

/-! ### Flattening and coalescing -/

theorem flatElements_cons (s : AsPathSegment) (segs : List AsPathSegment) :
    flatElements (s :: segs) = flatElements [s] ++ flatElements segs := by
  simp [flatElements]

theorem length_flatElements (segs : List AsPathSegment) : (flatElements segs).length = pathElements segs := by
  induction segs with
  | nil => rfl
  | cons s segs ih =>
    rw [flatElements_cons, List.length_append, ih, pathElements, pathElements, List.map_cons, List.sum_cons]
    congr 1
    cases s <;> simp [flatElements, AsPathSegment.elements]

theorem sum_hops_flatElements (segs : List AsPathSegment) :
    ((flatElements segs).map AsPathElement.hops).sum = pathHops segs := by
  induction segs with
  | nil => rfl
  | cons s segs ih =>
    rw [flatElements_cons, List.map_append, List.sum_append, ih, pathHops, pathHops, List.map_cons, List.sum_cons]
    congr 1
    cases s with
    | sequence a => simp [flatElements, AsPathSegment.hops, AsPathElement.hops, Function.comp_def]
    | set a => rfl
    | confedSequence a => rfl
    | confedSet a => rfl

theorem filterMap_confederation_flatElements (segs : List AsPathSegment) :
    (flatElements segs).filterMap AsPathElement.confederation? = confederationSegments segs := by
  induction segs with
  | nil => rfl
  | cons s segs ih =>
    rw [flatElements_cons, List.filterMap_append, ih, confederationSegments, confederationSegments,
      List.filter_cons]
    cases s with
    | sequence a =>
      simp [flatElements, AsPathSegment.isConfederation, AsPathElement.confederation?, Function.comp_def]
    | set a => rfl
    | confedSequence a => rfl
    | confedSet a => rfl

/-- The sequence that is being built, if it has an AS. -/
def openRun (run : List UInt32) : List AsPathSegment := if run = [] then [] else [.sequence run]

theorem coalesce_whole (run : List UInt32) (seg : AsPathSegment) (els : List AsPathElement) :
    coalesce run (.whole seg :: els) = openRun run ++ seg :: coalesce [] els := rfl

theorem pathHops_append (l r : List AsPathSegment) : pathHops (l ++ r) = pathHops l + pathHops r := by
  simp [pathHops]

theorem pathHops_openRun (run : List UInt32) : pathHops (openRun run) = run.length := by
  unfold openRun
  split_ifs with h
  · simp [h, pathHops]
  · simp [pathHops, AsPathSegment.hops]

theorem confederationSegments_openRun (run : List UInt32) : confederationSegments (openRun run) = [] := by
  unfold openRun
  split_ifs <;> rfl

theorem pathHops_coalesce (run : List UInt32) (els : List AsPathElement) :
    pathHops (coalesce run els) = run.length + (els.map AsPathElement.hops).sum := by
  induction els generalizing run with
  | nil => exact pathHops_openRun run
  | cons e els ih =>
    cases e with
    | asn a =>
      rw [coalesce, ih, List.map_cons, List.sum_cons]
      simp [AsPathElement.hops]
      omega
    | whole seg =>
      rw [coalesce_whole, pathHops_append, pathHops_openRun, List.map_cons, List.sum_cons]
      have hcons : pathHops (seg :: coalesce [] els) = seg.hops + pathHops (coalesce [] els) := by simp [pathHops]
      rw [hcons, ih]
      simp [AsPathElement.hops]

theorem confederationSegments_coalesce (run : List UInt32) (els : List AsPathElement) :
    confederationSegments (coalesce run els) = els.filterMap AsPathElement.confederation? := by
  induction els generalizing run with
  | nil => exact confederationSegments_openRun run
  | cons e els ih =>
    cases e with
    | asn a => exact ih _
    | whole seg =>
      have hrun := confederationSegments_openRun run
      have hrest := ih []
      rw [confederationSegments] at hrun hrest ⊢
      rw [coalesce_whole, List.filter_append, hrun, List.nil_append, List.filter_cons, hrest, List.filterMap_cons,
        AsPathElement.confederation?]
      cases seg.isConfederation <;> rfl

/-- The elements of the merged path: the front of AS_PATH, then AS4_PATH. -/
def joined (asPath as4Path : List AsPathSegment) : List AsPathElement :=
  (flatElements asPath).take (pathElements asPath - pathElements as4Path) ++ flatElements as4Path

theorem reconstructAsPath_eq (asPath as4Path : List AsPathSegment) :
    reconstructAsPath asPath as4Path =
      if as4Path = [] ∨ pathElements asPath < pathElements as4Path then asPath
      else coalesce [] (joined asPath as4Path) := by
  unfold reconstructAsPath joined
  simp only [length_flatElements]
  by_cases hnil : as4Path = []
  · rw [if_pos hnil, if_pos (.inl hnil)]
  · simp [hnil]

/-! ### Length and confederation segments -/

/-- What the merge promises: the length of the path, and the segments that are internal to a
confederation. -/
def Preserved (p : Path) (as4Path : List AsPathSegment) : Prop :=
  { p with asPath := reconstructAsPath p.asPath as4Path }.asPathLen = p.asPathLen ∧
    confederationSegments (reconstructAsPath p.asPath as4Path) = confederationSegments p.asPath

theorem elements_eq_hops_add (els : List AsPathElement) (h : ∀ e ∈ els, ∀ a, e ≠ .whole (.sequence a)) :
    els.length = (els.map AsPathElement.hops).sum + (els.filterMap AsPathElement.confederation?).length := by
  induction els with
  | nil => rfl
  | cons e els ih =>
    have hrest := ih fun e' he' => h e' (by simp [he'])
    rw [List.length_cons, List.map_cons, List.sum_cons, hrest]
    cases e with
    | asn a =>
      simp only [AsPathElement.hops, List.filterMap_cons, AsPathElement.confederation?]
      omega
    | whole seg =>
      cases seg with
      | sequence a => exact absurd rfl (h _ (by simp) a)
      | set a =>
        simp only [AsPathElement.hops, AsPathSegment.hops, List.filterMap_cons, AsPathElement.confederation?,
          AsPathSegment.isConfederation, Bool.false_eq_true, if_false]
        omega
      | confedSequence a =>
        simp only [AsPathElement.hops, AsPathSegment.hops, List.filterMap_cons, AsPathElement.confederation?,
          AsPathSegment.isConfederation, if_true, List.length_cons]
        omega
      | confedSet a =>
        simp only [AsPathElement.hops, AsPathSegment.hops, List.filterMap_cons, AsPathElement.confederation?,
          AsPathSegment.isConfederation, if_true, List.length_cons]
        omega

theorem not_whole_sequence {segs : List AsPathSegment} :
    ∀ e ∈ flatElements segs, ∀ a, e ≠ .whole (.sequence a) := by
  intro e he a heq
  obtain ⟨s, -, hs⟩ := List.mem_flatMap.mp he
  subst heq
  cases s <;> simp at hs

/-- Where a confederation segment stands among the elements. -/
theorem exists_split_of_mem_drop {segs : List AsPathSegment} {k : ℕ} {e : AsPathElement} {seg : AsPathSegment}
    (he : e ∈ (flatElements segs).drop k) (hseg : e.confederation? = some seg) :
    ∃ pre post, segs = pre ++ seg :: post ∧ seg.isConfederation = true ∧ k ≤ pathElements pre := by
  induction segs generalizing k with
  | nil => simp [flatElements] at he
  | cons s segs ih =>
    rw [flatElements_cons, List.drop_append, List.mem_append] at he
    rcases he with he | he
    · have hmem := List.mem_of_mem_drop he
      have hpos : k < (flatElements [s]).length := by
        by_contra hle
        rw [List.drop_eq_nil_of_le (by omega)] at he
        cases he
      cases s with
      | sequence a =>
        obtain ⟨x, -, rfl⟩ : ∃ x ∈ a, .asn x = e := by simpa [flatElements] using hmem
        cases hseg
      | set a =>
        obtain rfl : e = .whole (.set a) := by simpa [flatElements] using hmem
        cases hseg
      | confedSequence a =>
        obtain rfl : e = .whole (.confedSequence a) := by simpa [flatElements] using hmem
        cases hseg
        exact ⟨[], segs, rfl, rfl, Nat.le_of_lt_succ hpos⟩
      | confedSet a =>
        obtain rfl : e = .whole (.confedSet a) := by simpa [flatElements] using hmem
        cases hseg
        exact ⟨[], segs, rfl, rfl, Nat.le_of_lt_succ hpos⟩
    · obtain ⟨pre, post, hsplit, hconf, hk⟩ := ih he
      refine ⟨s :: pre, post, by simp [hsplit], hconf, ?_⟩
      have hlen := length_flatElements (s :: pre)
      rw [flatElements_cons, List.length_append, length_flatElements pre] at hlen
      omega

theorem pathElements_split (pre post : List AsPathSegment) {seg : AsPathSegment} (h : seg.isConfederation = true) :
    pathElements (pre ++ seg :: post) = pathElements pre + 1 + pathElements post := by
  have hone : seg.elements = 1 := by
    cases seg with
    | sequence a => cases h
    | _ => rfl
  simp only [pathElements, List.map_append, List.map_cons, List.sum_append, List.sum_cons, hone]
  omega

/-- A confederation segment is among the last `n` elements exactly if fewer than `n` follow it. -/
theorem confederation_drop_eq_nil_iff {segs : List AsPathSegment} {n : ℕ} (hn : n ≤ pathElements segs) :
    ((flatElements segs).drop (pathElements segs - n)).filterMap AsPathElement.confederation? = [] ↔
      ∀ pre seg post, segs = pre ++ seg :: post → seg.isConfederation = true → n ≤ pathElements post := by
  rw [List.filterMap_eq_nil_iff]
  constructor
  · intro h pre seg post hsplit hconf
    by_contra hlt
    have hflat : flatElements segs = flatElements pre ++ .whole seg :: flatElements post := by
      cases seg with
      | sequence a => cases hconf
      | _ => simp [hsplit, flatElements]
    have hpre := length_flatElements pre
    have htotal := pathElements_split pre post hconf
    rw [← hsplit] at htotal
    have hmem : .whole seg ∈ (flatElements segs).drop (pathElements segs - n) := by
      rw [hflat, List.drop_append_of_le_length (by omega)]
      simp
    have hnone := h _ hmem
    simp [AsPathElement.confederation?, hconf] at hnone
  · intro h e he
    cases hseg : e.confederation? with
    | none => rfl
    | some seg =>
      obtain ⟨pre, post, hsplit, hconf, hk⟩ := exists_split_of_mem_drop he hseg
      have htotal := pathElements_split pre post hconf
      rw [← hsplit] at htotal
      have hpost := h pre seg post hsplit hconf
      omega

/-- The merge keeps its promise exactly if AS4_PATH is ignored or replaces no confederation segment. -/
theorem preserved_iff (p : Path) {as4Path : List AsPathSegment}
    (h4 : ∀ s ∈ as4Path, s.isConfederation = false) :
    Preserved p as4Path ↔ (pathElements as4Path ≤ pathElements p.asPath →
      ∀ pre seg post, p.asPath = pre ++ seg :: post → seg.isConfederation = true →
        pathElements as4Path ≤ pathElements post) := by
  have hlen := length_flatElements p.asPath
  have hlen4 := length_flatElements as4Path
  have hconf4 : (flatElements as4Path).filterMap AsPathElement.confederation? = [] := by
    rw [filterMap_confederation_flatElements, confederationSegments, List.filter_eq_nil_iff]
    intro s hs
    simp [h4 s hs]
  by_cases hignored : as4Path = [] ∨ pathElements p.asPath < pathElements as4Path
  · have hrec := (reconstructAsPath_eq p.asPath as4Path).trans (if_pos hignored)
    have hkept : Preserved p as4Path := by
      rw [Preserved, hrec]
      exact ⟨rfl, rfl⟩
    simp only [hkept, true_iff]
    intro hle
    rcases hignored with rfl | hlong
    · intros
      exact Nat.zero_le _
    · omega
  · have hle : pathElements as4Path ≤ pathElements p.asPath := by
      rw [not_or, not_lt] at hignored
      exact hignored.2
    let keep := pathElements p.asPath - pathElements as4Path
    let kept := (flatElements p.asPath).take keep
    let replaced := (flatElements p.asPath).drop keep
    have hsplit : kept ++ replaced = flatElements p.asPath := List.take_append_drop _ _
    have hrec : reconstructAsPath p.asPath as4Path = coalesce [] (kept ++ flatElements as4Path) :=
      (reconstructAsPath_eq p.asPath as4Path).trans (if_neg hignored)
    have hold := sum_hops_flatElements p.asPath
    have hconf := filterMap_confederation_flatElements p.asPath
    rw [← hsplit, List.map_append, List.sum_append] at hold
    rw [← hsplit, List.filterMap_append] at hconf
    -- AS4_PATH counts as many hops as it has elements, what it replaces only if no segment is internal
    have hhops4 := elements_eq_hops_add _ (@not_whole_sequence as4Path)
    have hhopsOld := elements_eq_hops_add replaced
      fun e he => @not_whole_sequence p.asPath e (List.mem_of_mem_drop he)
    have hcount : replaced.length = pathElements as4Path := by
      rw [List.length_drop, hlen]
      omega
    rw [hconf4, List.length_nil] at hhops4
    rw [← confederation_drop_eq_nil_iff hle, ← List.length_eq_zero_iff, Preserved, Path.asPathLen_eq,
      Path.asPathLen_eq, hrec, pathHops_coalesce, confederationSegments_coalesce, List.map_append, List.sum_append,
      List.filterMap_append, hconf4, ← hold, ← hconf]
    change _ ↔ (_ → (replaced.filterMap AsPathElement.confederation?).length = 0)
    constructor
    · rintro ⟨hhops, -⟩ _
      simp only [List.length_nil, Nat.zero_add] at hhops
      omega
    · intro h
      have hnone := h hle
      refine ⟨?_, ?_⟩
      · simp only [List.length_nil, Nat.zero_add]
        omega
      · rw [List.length_eq_zero_iff.mp hnone]

/-- A confederation segment before the tail that AS4_PATH replaces stays. -/
theorem preserved_leading : Preserved
    { Sample.path 23456 0 1 with asPath := [.confedSequence [65001], .sequence [23456, 10]] }
    [.sequence [4200000000, 10]] := by
  refine (preserved_iff _ (by decide)).mpr ?_
  rintro - pre seg post hsplit hconf
  rcases pre with _ | ⟨s, _ | ⟨s', pre⟩⟩
  · obtain ⟨rfl, rfl⟩ := List.cons.inj hsplit
    decide
  · obtain ⟨-, hsplit⟩ := List.cons.inj hsplit
    obtain ⟨rfl, -⟩ := List.cons.inj hsplit
    cases hconf
  · simp at hsplit

/-- Two hops replace the one hop after the confederation segment and the segment itself. -/
theorem not_forall_preserved : ¬ ∀ (p : Path) (as4Path : List AsPathSegment),
    (∀ s ∈ as4Path, s.isConfederation = false) → Preserved p as4Path := by
  intro h
  have hlen := (h { Sample.path 23456 0 1 with asPath := [.confedSequence [65001], .sequence [23456]] }
    [.sequence [4200000000, 10]] (by decide)).1
  revert hlen
  decide

/-! ### Writing the path again -/

/-- No more single ASes stand in a row than a segment can count. -/
def ShortRuns (els : List AsPathElement) : Prop :=
  ∀ run : List UInt32, run.map .asn <:+: els → run.length ≤ 255

theorem infix_or_infix {α : Type} {l A B : List α} {x : α} (hx : x ∉ l) (h : l <:+: A ++ x :: B) :
    l <:+: A ∨ l <:+: B := by
  obtain ⟨p, s, h⟩ := h
  rcases List.append_eq_append_iff.mp h with ⟨a, hA, -⟩ | ⟨c, hpl, hB⟩
  · exact .inl ⟨p, a, hA.symm⟩
  · rcases List.append_eq_append_iff.mp hpl with ⟨a, hA, hl⟩ | ⟨d, -, hc⟩
    · cases c with
      | nil => exact .inl ⟨p, [], by simp [hA, hl]⟩
      | cons y c =>
        have hxy : x = y := (List.cons.inj hB).1
        exact absurd (by simp [hl, hxy]) hx
    · cases d with
      | nil =>
        cases l with
        | nil => exact .inl List.nil_infix
        | cons y l =>
          have hxy : x = y := by simpa [hc] using congrArg List.head? hB
          exact absurd (by simp [hxy]) hx
      | cons y d =>
        rw [hc] at hB
        exact .inr ⟨d, s, by simpa using (List.cons.inj hB).2.symm⟩

theorem shortRuns_asns (run : List UInt32) : ShortRuns (run.map .asn) ↔ run.length ≤ 255 := by
  constructor
  · intro h
    exact h run List.infix_rfl
  · intro h run' hsub
    have hle := hsub.length_le
    rw [List.length_map, List.length_map] at hle
    omega

theorem shortRuns_whole (run : List UInt32) (seg : AsPathSegment) (els : List AsPathElement) :
    ShortRuns (run.map .asn ++ .whole seg :: els) ↔ run.length ≤ 255 ∧ ShortRuns els := by
  constructor
  · intro h
    refine ⟨h run (List.prefix_append _ _).isInfix, ?_⟩
    intro run' hsub
    exact h run' (hsub.trans ⟨run.map .asn ++ [.whole seg], [], by simp⟩)
  · rintro ⟨hrun, hels⟩ run' hsub
    have hnot : AsPathElement.whole seg ∉ run'.map AsPathElement.asn := by simp
    rcases infix_or_infix hnot hsub with h | h
    · exact (shortRuns_asns run).mpr hrun run' h
    · exact hels run' h

theorem openRun_short_iff (run : List UInt32) : (∀ s ∈ openRun run, s.asns.length ≤ 255) ↔ run.length ≤ 255 := by
  unfold openRun
  split_ifs with h
  · simp [h]
  · simp [AsPathSegment.asns]

/-- The segments that are built are as long as the runs of single ASes. -/
theorem coalesce_short_iff (run : List UInt32) {els : List AsPathElement}
    (hwhole : ∀ seg, .whole seg ∈ els → seg.asns.length ≤ 255) :
    (∀ s ∈ coalesce run els, s.asns.length ≤ 255) ↔ ShortRuns (run.map .asn ++ els) := by
  induction els generalizing run with
  | nil =>
    rw [List.append_nil, shortRuns_asns]
    exact openRun_short_iff run
  | cons e els ih =>
    have hrest := fun run => ih run fun seg hseg => hwhole seg (List.mem_cons_of_mem _ hseg)
    cases e with
    | asn a =>
      have happ : (run ++ [a]).map AsPathElement.asn ++ els = run.map .asn ++ .asn a :: els := by simp
      rw [coalesce, hrest, happ]
    | whole seg =>
      have hseg := hwhole seg (by simp)
      rw [coalesce_whole, shortRuns_whole, List.forall_mem_append, openRun_short_iff, List.forall_mem_cons,
        hrest []]
      simp [hseg]

/-- Every AS of a segment is one of the elements. -/
theorem mem_asns_of_coalesce {run : List UInt32} {els : List AsPathElement} {s : AsPathSegment} {a : UInt32}
    (hs : s ∈ coalesce run els) (ha : a ∈ s.asns) :
    a ∈ run ∨ .asn a ∈ els ∨ ∃ seg, .whole seg ∈ els ∧ a ∈ seg.asns := by
  have hopen : ∀ run, s ∈ openRun run → a ∈ run := by
    intro run hmem
    unfold openRun at hmem
    split_ifs at hmem
    · cases hmem
    · rw [List.mem_singleton.mp hmem] at ha
      exact ha
  induction els generalizing run with
  | nil => exact .inl (hopen run hs)
  | cons e els ih =>
    cases e with
    | asn b =>
      rcases ih hs with hrun | hels | ⟨seg, hseg, haseg⟩
      · rcases List.mem_append.mp hrun with hrun | hb
        · exact .inl hrun
        · exact .inr (.inl (by simp [List.mem_singleton.mp hb]))
      · exact .inr (.inl (List.mem_cons_of_mem _ hels))
      · exact .inr (.inr ⟨seg, List.mem_cons_of_mem _ hseg, haseg⟩)
    | whole seg =>
      rw [coalesce_whole, List.mem_append, List.mem_cons] at hs
      rcases hs with hs | rfl | hs
      · exact .inl (hopen run hs)
      · exact .inr (.inr ⟨s, by simp, ha⟩)
      · rcases ih hs with hrun | hels | ⟨seg', hseg, haseg⟩
        · cases hrun
        · exact .inr (.inl (List.mem_cons_of_mem _ hels))
        · exact .inr (.inr ⟨seg', List.mem_cons_of_mem _ hseg, haseg⟩)

/-! Sizes -/

/-- What an element takes at most, in a sequence of its own. -/
def AsPathElement.size : AsPathElement → ℕ
  | asn _ => 6
  | whole seg => 2 + 4 * seg.asns.length

def pathSize (width : ℕ) (segs : List AsPathSegment) : ℕ := (segs.map fun s => 2 + s.asns.length * width).sum

theorem length_encode_path (four : Bool) (segs : List AsPathSegment) :
    (segs.flatMap (AsPathSegment.encode four)).length = pathSize (asnWidth four) segs := by
  simp [pathSize, List.length_flatMap, AsPathSegment.length_encode]

theorem pathSize_append (width : ℕ) (l r : List AsPathSegment) :
    pathSize width (l ++ r) = pathSize width l + pathSize width r := by
  simp [pathSize]

theorem pathSize_openRun_le (run : List UInt32) : pathSize 4 (openRun run) ≤ 6 * run.length := by
  unfold openRun
  split_ifs with h
  · simp [pathSize]
  · have hpos := List.length_pos_iff.mpr h
    simp [pathSize, AsPathSegment.asns]
    omega

theorem pathSize_coalesce_le (run : List UInt32) (els : List AsPathElement) :
    pathSize 4 (coalesce run els) ≤ 6 * run.length + (els.map AsPathElement.size).sum := by
  induction els generalizing run with
  | nil => exact pathSize_openRun_le run
  | cons e els ih =>
    rw [List.map_cons, List.sum_cons]
    cases e with
    | asn a =>
      have h := ih (run ++ [a])
      rw [List.length_append, List.length_singleton] at h
      simp only [coalesce, AsPathElement.size]
      omega
    | whole seg =>
      have hrest := ih []
      have hrun := pathSize_openRun_le run
      have hcons : pathSize 4 (seg :: coalesce [] els) = 2 + seg.asns.length * 4 + pathSize 4 (coalesce [] els) := by
        simp [pathSize]
      rw [coalesce_whole, pathSize_append, hcons]
      simp only [AsPathElement.size, List.length_nil] at hrest ⊢
      omega

theorem size_flatElements_le (four : Bool) (segs : List AsPathSegment) :
    ((flatElements segs).map AsPathElement.size).sum ≤ 3 * pathSize (asnWidth four) segs := by
  have hwidth : 2 ≤ asnWidth four := by cases four <;> decide
  induction segs with
  | nil => simp [flatElements]
  | cons s segs ih =>
    have hone : ((flatElements [s]).map AsPathElement.size).sum ≤ 3 * (2 + s.asns.length * asnWidth four) := by
      have hmul : s.asns.length * 2 ≤ s.asns.length * asnWidth four := Nat.mul_le_mul_left _ hwidth
      cases s <;> simp [flatElements, AsPathElement.size, AsPathSegment.asns, Function.comp_def] at hmul ⊢ <;> omega
    have hcons : pathSize (asnWidth four) (s :: segs) =
        2 + s.asns.length * asnWidth four + pathSize (asnWidth four) segs := by simp [pathSize]
    rw [flatElements_cons, List.map_append, List.sum_append, hcons]
    omega

/-! What a decoded path is like -/

namespace AsPathSegment

theorem of_decode {four : Bool} {buf : List UInt8} {s : AsPathSegment} {used : ℕ}
    (h : decode four buf = some (s, used)) :
    used = 2 + s.asns.length * asnWidth four ∧ used ≤ buf.length ∧ s.asns.length ≤ 255 := by
  match buf with
  | [] => cases h
  | [_] => cases h
  | kind :: count :: rest =>
    simp only [decode] at h
    split_ifs at h with hshort
    obtain ⟨seg, hkind, heq⟩ := Option.map_eq_some_iff.mp h
    obtain ⟨rfl, rfl⟩ := Prod.mk.inj heq
    have hasns : seg.asns = (chunksExact (asnWidth four) (rest.take (count.toNat * asnWidth four))).map u32OfOctets := by
      unfold ofKind at hkind
      split_ifs at hkind <;> rw [← Option.some.inj hkind] <;> rfl
    have hlen : seg.asns.length = count.toNat := by
      rw [hasns, List.length_map, chunksExact, List.length_map, List.length_range, List.length_take,
        Nat.min_eq_left (by omega), Nat.mul_div_cancel _ (asnWidth_pos four)]
    have hcount := count.toNat_lt
    rw [hlen, List.length_cons, List.length_cons]
    omega

end AsPathSegment

theorem of_decodeAsSegments {four : Bool} {v : List UInt8} {segs : List AsPathSegment}
    (h : decodeAsSegments four v = some segs) :
    (∀ s ∈ segs, s.asns.length ≤ 255 ∧ 0 ∉ s.asns) ∧ pathSize (asnWidth four) segs = v.length := by
  have hone : ∀ (buf : List UInt8) (s : AsPathSegment) (used : ℕ),
      ((AsPathSegment.decode four buf).bind fun p => if 0 ∈ p.1.asns then none else some p) = some (s, used) →
        AsPathSegment.decode four buf = some (s, used) ∧ 0 ∉ s.asns := by
    intro buf s used hs
    obtain ⟨⟨seg, n⟩, hdec, hs⟩ := Option.bind_eq_some_iff.mp hs
    dsimp only at hs
    split_ifs at hs with hzero
    obtain ⟨rfl, rfl⟩ := Prod.mk.inj (Option.some.inj hs)
    exact ⟨hdec, hzero⟩
  constructor
  · refine forall_of_readRecords (P := fun s => s.asns.length ≤ 255 ∧ 0 ∉ s.asns) ?_ h
    intro buf s used hs
    obtain ⟨hdec, hzero⟩ := hone buf s used hs
    exact ⟨(AsPathSegment.of_decode hdec).2.2, hzero⟩
  · refine sum_of_readRecords ?_ h
    intro buf s used hs
    obtain ⟨hdec, -⟩ := hone buf s used hs
    have hfacts := AsPathSegment.of_decode hdec
    exact ⟨hfacts.1, hfacts.2.1⟩

/-! The merged path -/

theorem mem_of_whole_mem_flatElements {segs : List AsPathSegment} {seg : AsPathSegment}
    (h : .whole seg ∈ flatElements segs) : seg ∈ segs := by
  obtain ⟨s, hs, hmem⟩ := List.mem_flatMap.mp h
  cases s with
  | sequence a => simp at hmem
  | set a =>
    obtain rfl : seg = .set a := by simpa using hmem
    exact hs
  | confedSequence a =>
    obtain rfl : seg = .confedSequence a := by simpa using hmem
    exact hs
  | confedSet a =>
    obtain rfl : seg = .confedSet a := by simpa using hmem
    exact hs

theorem exists_of_asn_mem_flatElements {segs : List AsPathSegment} {a : UInt32}
    (h : .asn a ∈ flatElements segs) : ∃ s ∈ segs, a ∈ s.asns := by
  obtain ⟨s, hs, hmem⟩ := List.mem_flatMap.mp h
  refine ⟨s, hs, ?_⟩
  cases s with
  | sequence as =>
    change a ∈ as
    simpa using hmem
  | _ => simp at hmem

theorem short_reconstructAsPath_iff {asPath as4Path : List AsPathSegment}
    (hpath : ∀ s ∈ asPath, s.asns.length ≤ 255) (hpath4 : ∀ s ∈ as4Path, s.asns.length ≤ 255) :
    (∀ s ∈ reconstructAsPath asPath as4Path, s.asns.length ≤ 255) ↔
      as4Path = [] ∨ pathElements asPath < pathElements as4Path ∨ ShortRuns (joined asPath as4Path) := by
  rw [reconstructAsPath_eq, ← or_assoc]
  split_ifs with hignored
  · exact iff_of_true hpath (.inl hignored)
  · simp only [hignored, false_or]
    have hwhole : ∀ seg, .whole seg ∈ joined asPath as4Path → seg.asns.length ≤ 255 := by
      intro seg hseg
      rcases List.mem_append.mp hseg with h | h
      · exact hpath seg (mem_of_whole_mem_flatElements (List.mem_of_mem_take h))
      · exact hpath4 seg (mem_of_whole_mem_flatElements h)
    exact coalesce_short_iff [] hwhole

theorem zero_notMem_reconstructAsPath {asPath as4Path : List AsPathSegment} (hpath : ∀ s ∈ asPath, 0 ∉ s.asns)
    (hpath4 : ∀ s ∈ as4Path, 0 ∉ s.asns) : ∀ s ∈ reconstructAsPath asPath as4Path, 0 ∉ s.asns := by
  rw [reconstructAsPath_eq]
  split_ifs with hignored
  · exact hpath
  · intro s hs hzero
    rcases mem_asns_of_coalesce hs hzero with hrun | hasn | ⟨seg, hseg, hasns⟩
    · cases hrun
    · rcases List.mem_append.mp hasn with h | h
      · obtain ⟨seg, hseg, hmem⟩ := exists_of_asn_mem_flatElements (List.mem_of_mem_take h)
        exact hpath seg hseg hmem
      · obtain ⟨seg, hseg, hmem⟩ := exists_of_asn_mem_flatElements h
        exact hpath4 seg hseg hmem
    · rcases List.mem_append.mp hseg with h | h
      · exact hpath seg (mem_of_whole_mem_flatElements (List.mem_of_mem_take h)) hasns
      · exact hpath4 seg (mem_of_whole_mem_flatElements h) hasns

theorem pathSize_four_le (segs : List AsPathSegment) : pathSize 4 segs ≤ 2 * pathSize 2 segs := by
  induction segs with
  | nil => rfl
  | cons s segs ih =>
    have hcons : ∀ width, pathSize width (s :: segs) = 2 + s.asns.length * width + pathSize width segs := by
      simp [pathSize]
    rw [hcons, hcons]
    omega

theorem pathSize_reconstructAsPath_le (asPath as4Path : List AsPathSegment) :
    pathSize 4 (reconstructAsPath asPath as4Path) ≤ 3 * pathSize 2 asPath + 3 * pathSize 4 as4Path := by
  rw [reconstructAsPath_eq]
  split_ifs with hignored
  · have hdouble := pathSize_four_le asPath
    omega
  · have hold : ((flatElements asPath).map AsPathElement.size).sum ≤ 3 * pathSize 2 asPath :=
      size_flatElements_le false asPath
    have hnew : ((flatElements as4Path).map AsPathElement.size).sum ≤ 3 * pathSize 4 as4Path :=
      size_flatElements_le true as4Path
    rw [← List.take_append_drop (pathElements asPath - pathElements as4Path) (flatElements asPath),
      List.map_append, List.sum_append] at hold
    have hsum : ((joined asPath as4Path).map AsPathElement.size).sum =
        (((flatElements asPath).take (pathElements asPath - pathElements as4Path)).map AsPathElement.size).sum +
          ((flatElements as4Path).map AsPathElement.size).sum := by
      rw [joined, List.map_append, List.sum_append]
    have hcoalesce := pathSize_coalesce_le [] (joined asPath as4Path)
    rw [List.length_nil] at hcoalesce
    omega

/-- The merged path is written and read back exactly if AS4_PATH is ignored or no 256 single ASes come
to stand in a row. -/
theorem reencodes_iff {fmt : FamilyFormats} {addPath : AddPath} {buf : List UInt8} {u : Update}
    {asPath as4Path : List AsPathSegment} (h : Message.decode fmt false addPath buf = .ok (.update u))
    (hpath : .asPath asPath ∈ u.attributes) (hpath4 : .as4Path as4Path ∈ u.attributes) :
    PathAttribute.decode fmt true ((PathAttribute.asPath (reconstructAsPath asPath as4Path)).encode true) =
        some (.keep (.asPath (reconstructAsPath asPath as4Path)),
          ((PathAttribute.asPath (reconstructAsPath asPath as4Path)).encode true).length) ↔
      as4Path = [] ∨ pathElements asPath < pathElements as4Path ∨ ShortRuns (joined asPath as4Path) := by
  obtain ⟨_, _, v, hlen, hval⟩ := of_mem_attributes h hpath
  obtain ⟨_, _, v4, hlen4, hval4⟩ := of_mem_attributes h hpath4
  obtain ⟨hsegs, hsize⟩ := of_decodeAsSegments (PathAttribute.decodeValue_asPath hval)
  obtain ⟨hsegs4, hsize4⟩ := of_decodeAsSegments (PathAttribute.decodeValue_as4Path hval4)
  rw [← short_reconstructAsPath_iff (fun s hs => (hsegs s hs).1) fun s hs => (hsegs4 s hs).1]
  constructor
  · intro hback
    obtain ⟨_, _, v', -, hval'⟩ := PathAttribute.of_decode hback
    have hsegs' := (of_decodeAsSegments (PathAttribute.decodeValue_asPath (hval' _ rfl))).1
    exact fun s hs => (hsegs' s hs).1
  · intro hshort
    have hzero := zero_notMem_reconstructAsPath (fun s hs => (hsegs s hs).2) fun s hs => (hsegs4 s hs).2
    have hplain : (PathAttribute.asPath (reconstructAsPath asPath as4Path)).Plain true :=
      fun s hs => ⟨hshort s hs, hzero s hs, fun _ _ hfalse => by cases hfalse⟩
    have hbound := pathSize_reconstructAsPath_le asPath as4Path
    have hmax : maxMessageLen = 4096 := rfl
    have hencoded : ((PathAttribute.asPath (reconstructAsPath asPath as4Path)).encodeValue true).length < 65536 := by
      change ((reconstructAsPath asPath as4Path).flatMap (AsPathSegment.encode true)).length < 65536
      rw [length_encode_path]
      have hbound' : pathSize (asnWidth true) (reconstructAsPath asPath as4Path) ≤ 3 * v.length + 3 * v4.length := by
        rw [← hsize, ← hsize4]
        exact hbound
      omega
    have hback := PathAttribute.decode_encode fmt hplain hencoded []
    rwa [List.append_nil] at hback

/-- An UPDATE for 10.0.0.0/8 with an AS_PATH and an AS4_PATH. -/
def Sample.merged (asPath as4Path : List AsPathSegment) : Update where
  attributes := [.origin .igp, .asPath asPath, .nextHop 0x0a000001, .as4Path as4Path]
  nlri := [⟨.v4 0x0a000000, 8, Prefix.net10_len_le, Prefix.net10_masked⟩]

/-- Such an UPDATE is read as it was written. -/
theorem Sample.decode_merged {asPath as4Path : List AsPathSegment} (hpath : ∀ s ∈ asPath, s.Fits false)
    (hpath4 : ∀ s ∈ as4Path, s.Fits true)
    (hsize : ((Message.update (merged asPath as4Path)).encode false ⟨false⟩).length ≤ maxMessageLen) :
    Message.decode Message.noFamilies false ⟨false⟩ ((Message.update (merged asPath as4Path)).encode false ⟨false⟩) =
      .ok (.update (merged asPath as4Path)) := by
  have hplain : (merged asPath as4Path).Plain false ⟨false⟩ := by
    refine ⟨fun a ha => ?_, ?_, List.forall_mem_nil _, List.forall_mem_singleton.mpr rfl, rfl, rfl, rfl⟩
    · simp only [merged, List.mem_cons, List.not_mem_nil, or_false] at ha
      rcases ha with rfl | rfl | rfl | rfl
      · trivial
      · exact hpath
      · trivial
      · exact hpath4
    · change [PathAttribute.typeOrigin, PathAttribute.typeAsPath, PathAttribute.typeNextHop,
        PathAttribute.typeAs4Path].Nodup
      decide
  have hlen := Message.length_encode false ⟨false⟩ (.update (merged asPath as4Path))
  have hmax : maxMessageLen = 4096 := rfl
  have hbody : (encodeUpdate false ⟨false⟩ (merged asPath as4Path)).length < 65536 := by
    change _ = headerLen + (encodeUpdate false ⟨false⟩ (merged asPath as4Path)).length at hlen
    omega
  exact Message.decode_encode_of_exact (Update.exact_of_plain Message.noFamilies hplain hbody) hsize

theorem reencodes_short :
    PathAttribute.decode Message.noFamilies true
        ((PathAttribute.asPath (reconstructAsPath [.sequence [23456, 10]] [.sequence [4200000000, 10]])).encode true) =
      some (.keep (.asPath (reconstructAsPath [.sequence [23456, 10]] [.sequence [4200000000, 10]])),
        ((PathAttribute.asPath (reconstructAsPath [.sequence [23456, 10]] [.sequence [4200000000, 10]])).encode
          true).length) := by
  let u := Sample.merged [.sequence [23456, 10]] [.sequence [4200000000, 10]]
  have hdec : Message.decode Message.noFamilies false ⟨false⟩ ((Message.update u).encode false ⟨false⟩) =
      .ok (.update u) := by decide +kernel
  refine (reencodes_iff hdec (by simp [u, Sample.merged]) (by simp [u, Sample.merged])).mpr (.inr (.inr ?_))
  intro run hsub
  have hle := hsub.length_le
  have hjoined : (joined [.sequence [23456, 10]] [.sequence [4200000000, 10]]).length = 2 := by decide
  rw [List.length_map, hjoined] at hle
  omega

/-- Two full sequences are merged into one, with more ASes than its count can say. -/
theorem not_forall_reencodes : ¬ ∀ (fmt : FamilyFormats) (addPath : AddPath) (buf : List UInt8) (u : Update)
    (asPath as4Path : List AsPathSegment), Message.decode fmt false addPath buf = .ok (.update u) →
      .asPath asPath ∈ u.attributes → .as4Path as4Path ∈ u.attributes →
      PathAttribute.decode fmt true ((PathAttribute.asPath (reconstructAsPath asPath as4Path)).encode true) =
        some (.keep (.asPath (reconstructAsPath asPath as4Path)),
          ((PathAttribute.asPath (reconstructAsPath asPath as4Path)).encode true).length) := by
  intro h
  let path : List AsPathSegment := [.sequence (List.replicate 255 100), .sequence [23456]]
  let path4 : List AsPathSegment := [.sequence [4200000000]]
  let u := Sample.merged path path4
  have hdec : Message.decode Message.noFamilies false ⟨false⟩ ((Message.update u).encode false ⟨false⟩) =
      .ok (.update u) := by
    refine Sample.decode_merged (fun s hs => ?_) (fun s hs => ?_) (by decide +kernel)
    · simp only [path, List.mem_cons, List.not_mem_nil, or_false] at hs
      rcases hs with rfl | rfl
      · have hall : ∀ a ∈ List.replicate 255 (100 : UInt32), a = 100 := fun a ha => (List.mem_replicate.mp ha).2
        exact ⟨(List.length_replicate).le, fun hzero => absurd (hall 0 hzero) (by decide), fun a ha _ => by
          rw [hall a ha]
          decide⟩
      · exact ⟨by decide, by decide, fun a ha _ => by
          rw [List.mem_singleton.mp ha]
          decide⟩
    · rw [List.mem_singleton.mp hs]
      exact ⟨by decide, by decide, fun _ _ hfour => by cases hfour⟩
  have hback := h Message.noFamilies ⟨false⟩ _ u path path4 hdec (by simp [u, Sample.merged])
    (by simp [u, Sample.merged])
  obtain ⟨_, _, v, -, hval⟩ := PathAttribute.of_decode hback
  have hsegs := (of_decodeAsSegments (PathAttribute.decodeValue_asPath (hval _ rfl))).1
  have hlong : ¬ ∀ s ∈ reconstructAsPath path path4, s.asns.length ≤ 255 := by decide +kernel
  exact hlong fun s hs => (hsegs s hs).1

end Wren.Bgp
