import Wren.Daemon.Bgp.Central

/-! The identifiers under which source paths are offered to ADD-PATH peers. The counter has 32 bits:
as long as it has room for every source that is still without an identifier, it does not wrap and
no identifier is given twice. -/

namespace Wren.Daemon.Bgp
open Wren.Core Wren.Bgp OrdMap
namespace AddPathState

/-- No two sources share an identifier, and none is above the counter. -/
structure Distinct (a : AddPathState) : Prop where
  bounded : ∀ (src : IpAddr × UInt32) (id : UInt32), a.ids[src]? = some id → id.toNat ≤ a.next.toNat
  injective : ∀ (src src' : IpAddr × UInt32) (id : UInt32),
    a.ids[src]? = some id → a.ids[src']? = some id → src = src'

/-- How many of the sources have no identifier. -/
def unnamed (a : AddPathState) (sources : List (IpAddr × UInt32)) : ℕ :=
  (sources.filter fun src => src ∉ a.ids).length

/-- The counter can name all of the sources before it wraps. -/
def Room (a : AddPathState) (sources : List (IpAddr × UInt32)) : Prop :=
  a.next.toNat + a.unnamed sources < 2 ^ 32

/-- What a state may be after more sources were named. -/
structure Grows (a b : AddPathState) : Prop where
  next : a.next.toNat ≤ b.next.toNat
  kept : ∀ (src : IpAddr × UInt32) (id : UInt32), a.ids[src]? = some id → b.ids[src]? = some id
  above : ∀ (src : IpAddr × UInt32) (id : UInt32), b.ids[src]? = some id →
    a.ids[src]? = some id ∨ a.next.toNat < id.toNat

theorem Grows.refl (a : AddPathState) : a.Grows a :=
  ⟨le_rfl, fun _ _ h => h, fun _ _ h => Or.inl h⟩

theorem Grows.trans {a b c : AddPathState} (hab : a.Grows b) (hbc : b.Grows c) : a.Grows c := by
  refine ⟨hab.next.trans hbc.next, ?_, ?_⟩
  · intro src id h
    exact hbc.kept src id (hab.kept src id h)
  · intro src id h
    rcases hbc.above src id h with hb | hlt
    · exact hab.above src id hb
    · exact Or.inr (lt_of_le_of_lt hab.next hlt)

variable {a : AddPathState} {sources : List (IpAddr × UInt32)}

/-- A source without an identifier takes one of those for which there is room. -/
theorem unnamed_insert_lt {src : IpAddr × UInt32} (hsrc : src ∈ sources) (hnone : a.ids[src]? = none)
    (next id : UInt32) :
    ({ a with next, ids := a.ids.insert src id } : AddPathState).unnamed sources < a.unnamed sources := by
  have hnot : src ∉ a.ids := by
    rw [Std.ExtTreeMap.mem_iff_isSome_getElem?, hnone]
    exact Bool.false_ne_true
  have hsub : (sources.filter fun b => b ∉ a.ids.insert src id) =
      (sources.filter fun b => b ∉ a.ids).filter fun b => b ≠ src := by
    rw [List.filter_filter]
    congr 1
    funext b
    by_cases hb : b = src
    · simp [hb]
    · simp [hb, @eq_comm _ src b]
  unfold unnamed
  simp only [hsub]
  refine List.length_filter_lt_length_iff_exists.mpr ⟨src, ?_, by simp⟩
  simp [hsrc, hnot]

theorem idFor_spec (h : a.Distinct) (hroom : a.Room sources) {src : IpAddr × UInt32}
    (hsrc : src ∈ sources) :
    (a.idFor src).2.Distinct ∧ (a.idFor src).2.Room sources ∧ a.Grows (a.idFor src).2 ∧
      (a.idFor src).2.ids[src]? = some (a.idFor src).1 := by
  unfold idFor
  cases hid : a.ids[src]? with
  | some id => exact ⟨h, hroom, Grows.refl a, hid⟩
  | none =>
    have hlt := unnamed_insert_lt hsrc hid (a.next + 1) (a.next + 1)
    have hnext : (a.next + 1).toNat = a.next.toNat + 1 := by
      unfold Room at hroom
      rw [UInt32.toNat_add]
      exact Nat.mod_eq_of_lt (by simpa using (show a.next.toNat + 1 < 2 ^ 32 by omega))
    have hget : ∀ (b : IpAddr × UInt32) (id : UInt32), (a.ids.insert src (a.next + 1))[b]? = some id →
        (b = src ∧ id = a.next + 1) ∨ (b ≠ src ∧ a.ids[b]? = some id) := by
      intro b id hb
      rw [getElem?_insert] at hb
      split_ifs at hb with heq
      · exact Or.inl ⟨heq, (Option.some.inj hb).symm⟩
      · exact Or.inr ⟨heq, hb⟩
    refine ⟨⟨?_, ?_⟩, ?_, ⟨?_, ?_, ?_⟩, by rw [getElem?_insert, if_pos rfl]⟩
    · intro b id hb
      rcases hget b id hb with ⟨-, rfl⟩ | ⟨-, hold⟩
      · exact le_rfl
      · show id.toNat ≤ (a.next + 1).toNat
        have hle := h.bounded b id hold
        omega
    · intro b b' id hb hb'
      rcases hget b id hb with ⟨rfl, rfl⟩ | ⟨-, hold⟩
      · rcases hget b' _ hb' with ⟨rfl, -⟩ | ⟨-, hold'⟩
        · rfl
        · have hle := h.bounded b' _ hold'
          omega
      · rcases hget b' id hb' with ⟨rfl, rfl⟩ | ⟨-, hold'⟩
        · have hle := h.bounded b _ hold
          omega
        · exact h.injective b b' id hold hold'
    · unfold Room at hroom ⊢
      show (a.next + 1).toNat + AddPathState.unnamed
        { a with next := a.next + 1, ids := a.ids.insert src (a.next + 1) } sources < 2 ^ 32
      omega
    · show a.next.toNat ≤ (a.next + 1).toNat
      omega
    · intro b id hb
      rw [getElem?_insert]
      split_ifs with heq
      · rw [heq, hid] at hb
        cases hb
      · exact hb
    · intro b id hb
      rcases hget b id hb with ⟨-, rfl⟩ | ⟨-, hold⟩
      · exact Or.inr (by omega)
      · exact Or.inl hold

/-- Every path gets an identifier of its own, and is found under it. -/
theorem assign_spec (h : a.Distinct) (hroom : a.Room sources) {l : List ((IpAddr × UInt32) × Path)}
    (hl : (l.map Prod.fst).Nodup) (hsrc : ∀ e ∈ l, e.1 ∈ sources) :
    (a.assign l).2.Distinct ∧ (a.assign l).2.Room sources ∧ a.Grows (a.assign l).2 ∧
      (∀ e ∈ l, (a.assign l).2.ids[e.1]? ≠ none) ∧
      ∀ id path, (a.assign l).1[id]? = some path ↔
        ∃ src, (src, path) ∈ l ∧ (a.assign l).2.ids[src]? = some id := by
  induction l using List.reverseRecOn with
  | nil =>
    refine ⟨h, hroom, Grows.refl a, by simp, ?_⟩
    intro id path
    simp [assign]
  | append_singleton l e ih =>
    rw [List.map_append, List.nodup_append] at hl
    obtain ⟨hd, hr, hgrow, hnamed, hfound⟩ := ih hl.1 fun e' he' => hsrc e' (by simp [he'])
    have hassign : a.assign (l ++ [e]) =
        (((a.assign l).1.insert ((a.assign l).2.idFor e.1).1 e.2), ((a.assign l).2.idFor e.1).2) := by
      rw [assign, List.foldl_append]
      rfl
    obtain ⟨hd', hr', hgrow', hid⟩ := idFor_spec hd hr (hsrc e (by simp))
    rw [hassign]
    refine ⟨hd', hr', hgrow.trans hgrow', ?_, ?_⟩
    · intro e' he'
      rcases List.mem_append.mp he' with hin | hin
      · obtain ⟨id, hold⟩ := Option.ne_none_iff_exists'.mp (hnamed e' hin)
        simp [hgrow'.kept _ _ hold]
      · rw [List.mem_singleton.mp hin, hid]
        simp
    · intro id path
      simp only [getElem?_insert]
      constructor
      · intro hget
        split_ifs at hget with heq
        · cases hget
          exact ⟨e.1, by simp, by rw [hid, heq]⟩
        · obtain ⟨src, hin, hold⟩ := (hfound id path).mp hget
          exact ⟨src, by simp [hin], hgrow'.kept _ _ hold⟩
      · rintro ⟨src, hin, hget⟩
        rcases List.mem_append.mp hin with hin | hin
        · have hne : src ≠ e.1 := by
            intro heq
            exact hl.2.2 src (List.mem_map_of_mem hin) e.1 (by simp) heq
          have hidne : id ≠ ((a.assign l).2.idFor e.1).1 := by
            intro heq
            exact hne (hd'.injective src e.1 id hget (heq ▸ hid))
          obtain ⟨id', hold⟩ := Option.ne_none_iff_exists'.mp (hnamed _ hin)
          have hsame : id' = id := by
            have hkept := hgrow'.kept _ _ hold
            rw [hget] at hkept
            exact (Option.some.inj hkept).symm
          rw [if_neg hidne]
          exact (hfound id path).mpr ⟨src, hin, hsame ▸ hold⟩
        · have heq : (src, path) = e := List.mem_singleton.mp hin
          subst heq
          rw [hid] at hget
          rw [if_pos (Option.some.inj hget).symm]

theorem assign_out (a : AddPathState) (l : List ((IpAddr × UInt32) × Path)) : (a.assign l).2.out = a.out := by
  refine List.foldlRecOn (motive := fun st : BTreeMap UInt32 Path × AddPathState => st.2.out = a.out) l _ rfl ?_
  intro st hst e _
  rw [← hst]
  simp only [assignOne, idFor]
  cases st.2.ids[e.1]? <;> rfl

/-- What is forgotten with a peer leaves the rest as it was. -/
theorem ids_dropPeer (a : AddPathState) (p : IpAddr) (src : IpAddr × UInt32) :
    (a.dropPeer p).ids[src]? = if src.1 = p then none else a.ids[src]? := by
  by_cases h : src.1 = p <;> cases hsrc : a.ids[src]? <;>
    simp [dropPeer, Std.ExtTreeMap.getElem?_filter, h, hsrc]

theorem Distinct.dropPeer (h : a.Distinct) (p : IpAddr) : (a.dropPeer p).Distinct := by
  have hold : ∀ (src : IpAddr × UInt32) (id : UInt32), (a.dropPeer p).ids[src]? = some id → a.ids[src]? = some id := by
    intro src id hsrc
    rw [ids_dropPeer] at hsrc
    split_ifs at hsrc
    exact hsrc
  refine ⟨fun src id hsrc => h.bounded src id (hold src id hsrc), ?_⟩
  intro src src' id hsrc hsrc'
  exact h.injective src src' id (hold src id hsrc) (hold src' id hsrc')

end AddPathState
end Wren.Daemon.Bgp
