import Wren.Bgp.EvpnViews
import Wren.Lib.Reduce

/-! Moves of a MAC between advertisers: whatever order they arrive in, the last move holds it. -/

namespace Wren.Bgp
open Wren.Core OrdMap Reduce Std

/-- An NLRI with the path that is best for it. -/
abbrev MacOffer := EvpnNlri × Path

namespace MacOffer

def event (x : MacOffer) : EvpnRibEvent := .best x.1 x.2

def seq (x : MacOffer) : UInt32 := ((macMobility x.2).map MacMobility.seq).getD 0

def sticky (x : MacOffer) : Bool := (macMobility x.2).any MacMobility.sticky

/-- What the table says of the MAC while the offer holds it. -/
def entry (x : MacOffer) : Option RemoteMac :=
  match x.1 with
  | .macIp _ _ _ _ ip label1 _ =>
    some ⟨x.2.nextHop, label1, ip, x.2.srv6Sid.map Srv6ServiceSid.sid, routerMac x.2⟩
  | _ => none

/-- `x` gets the MAC from `y`. -/
def takesFrom (x y : MacOffer) : Bool := decide (y.seq ≤ x.seq) && (!y.sticky || x.sticky)

end MacOffer

/-- Offers of one MAC that are imported, by different NLRI and with sequence numbers of their own. -/
structure MacMoves (rts : List RouteTarget) (key : MacKey) (l : List MacOffer) : Prop where
  ofKey : ∀ x ∈ l, x.1.macKey = some key
  imported : ∀ x ∈ l, imports rts x.2 = true
  explicit : ∀ x ∈ l, (macMobility x.2).isSome
  nlris : (l.map Prod.fst).Nodup
  seqs : (l.map MacOffer.seq).Nodup

theorem MacMoves.of_append {rts : List RouteTarget} {key : MacKey} {l r : List MacOffer}
    (h : MacMoves rts key (l ++ r)) : MacMoves rts key l where
  ofKey x hx := h.ofKey x (List.mem_append_left _ hx)
  imported x hx := h.imported x (List.mem_append_left _ hx)
  explicit x hx := h.explicit x (List.mem_append_left _ hx)
  nlris := by
    have hn := h.nlris
    rw [List.map_append] at hn
    exact hn.of_append_left
  seqs := by
    have hs := h.seqs
    rw [List.map_append] at hs
    exact hs.of_append_left

theorem MacMoves.seq_ne {rts : List RouteTarget} {key : MacKey} {l : List MacOffer} (h : MacMoves rts key l)
    {x y : MacOffer} (hx : x ∈ l) (hy : y ∈ l) (hne : x ≠ y) : x.seq ≠ y.seq :=
  fun heq => hne (List.inj_on_of_nodup_map h.seqs hx hy heq)

namespace EviTable

/-- An offer holds the MAC. -/
structure InForce (t : EviTable) (key : MacKey) (x : MacOffer) : Prop where
  owner : t.owners[key]? = some x.1
  mobility : t.mobility[key]? = some (macMobility x.2)
  mac : t.macs[key]? = x.entry

/-- The table after some offers came in. -/
def after (rts : List RouteTarget) (l : List MacOffer) : EviTable := (l.map MacOffer.event).foldl step (new rts)

theorem after_concat (rts : List RouteTarget) (l : List MacOffer) (x : MacOffer) :
    after rts (l ++ [x]) = (after rts l).step x.event := by
  simp [after]

/-- An offer that is not refused is in force. -/
theorem step_event {t : EviTable} {key : MacKey} {x : MacOffer} (hkey : x.1.macKey = some key)
    (himp : imports t.importRts x.2 = true) :
    (t.refuses key x.1 x.2 = true → t.step x.event = t) ∧
      (t.refuses key x.1 x.2 = false →
        (t.step x.event).importRts = t.importRts ∧ (t.step x.event).InForce key x) := by
  obtain ⟨n, p⟩ := x
  cases n with
  | macIp rd esi ethTag mac ip label1 label2 =>
    obtain rfl : (ethTag, mac) = key := Option.some.inj hkey
    simp only [step, apply, MacOffer.event, himp, Bool.true_eq_false, if_false]
    constructor
    · intro hrefuses
      rw [if_pos hrefuses]
    · intro haccepts
      rw [if_neg (by simp [haccepts])]
      refine ⟨rfl, ?_, ?_, ?_⟩
      all_goals
        rw [getElem?_insert, if_pos rfl]
        try rfl
  | imet | ipPrefix | unknown => cases hkey

/-- Between explicit moves of different numbers only these and the sticky flag decide. -/
theorem refuses_eq {t : EviTable} {key : MacKey} {x y : MacOffer} (hy : t.InForce key y)
    (hexp : (macMobility x.2).isSome) (hexp' : (macMobility y.2).isSome) (hn : y.1 ≠ x.1) (hseq : y.seq ≠ x.seq) :
    t.refuses key x.1 x.2 = !x.takesFrom y := by
  obtain ⟨m, hm⟩ := Option.isSome_iff_exists.mp hexp
  obtain ⟨m', hm'⟩ := Option.isSome_iff_exists.mp hexp'
  have howner : ¬ t.owners[key]? = some x.1 := by
    rw [hy.owner]
    exact fun h => hn (Option.some.inj h)
  unfold refuses
  rw [if_neg howner, hy.mobility]
  simp only [MacOffer.takesFrom, MacOffer.seq, MacOffer.sticky, hm, hm', Option.map_some, Option.getD_some,
    Option.any_some] at hseq ⊢
  have hdup : (m.seq == m'.seq) = false := by simpa using Ne.symm hseq
  simp [hdup, ← UInt32.not_le]

/-- What came in is as the offer in force says. -/
theorem after_spec {rts : List RouteTarget} {key : MacKey} {l : List MacOffer} (h : MacMoves rts key l) :
    (after rts l).importRts = rts ∧
      ∀ w, reduce MacOffer.takesFrom l = some w → (after rts l).InForce key w := by
  induction l using List.reverseRecOn with
  | nil => exact ⟨rfl, by simp [reduce]⟩
  | append_singleton l x ih =>
    obtain ⟨hrts, hforce⟩ := ih h.of_append
    have hx : x ∈ l ++ [x] := by simp
    have himp : imports (after rts l).importRts x.2 = true := by
      rw [hrts]
      exact h.imported x hx
    obtain ⟨hrefused, haccepted⟩ := step_event (h.ofKey x hx) himp
    rw [after_concat, reduce_concat]
    cases hl : reduce MacOffer.takesFrom l with
    | none =>
      have hfirst : (after rts l).refuses key x.1 x.2 = false := by
        rw [reduce_eq_none_iff.mp hl]
        simp [refuses, after, new]
      obtain ⟨hkept, hx⟩ := haccepted hfirst
      refine ⟨hkept.trans hrts, ?_⟩
      intro w hw
      rw [← Option.some.inj hw]
      exact hx
    | some y =>
      have hy : y ∈ l := mem_of_reduce hl
      have hnodup := h.nlris
      rw [List.map_append, List.nodup_append] at hnodup
      have hn : y.1 ≠ x.1 := hnodup.2.2 y.1 (List.mem_map_of_mem hy) x.1 (by simp)
      have hseq := h.seq_ne (List.mem_append_left _ hy) hx fun heq => hn (congrArg Prod.fst heq)
      have hrefuses := refuses_eq (hforce y hl) (h.explicit x hx) (h.explicit y (by simp [hy])) hn hseq
      simp only [Option.elim_some, Option.some.injEq, keep, forall_eq']
      cases htakes : x.takesFrom y with
      | true =>
        rw [htakes] at hrefuses
        obtain ⟨hkept, hx⟩ := haccepted hrefuses
        exact ⟨hkept.trans hrts, hx⟩
      | false =>
        rw [htakes] at hrefuses
        rw [hrefused hrefuses]
        exact ⟨hrts, hforce y hl⟩

end EviTable

/-- Among offers that are not sticky the highest number wins. -/
theorem highest_of_reduce {l : List MacOffer} {w : MacOffer} (hl : ∀ x ∈ l, x.sticky = false)
    (h : reduce MacOffer.takesFrom l = some w) : w ∈ l ∧ ∀ x ∈ l, x.seq ≤ w.seq := by
  have hlow : Lowest (fun x : MacOffer => OrderDual.toDual x.seq.toNat) l w := by
    refine lowest_of_reduce_le ?_ ?_ h
    · intro x hx y hy htakes
      have hle : y.seq ≤ x.seq := by
        simp only [MacOffer.takesFrom, Bool.and_eq_true, decide_eq_true_eq] at htakes
        exact htakes.1
      exact OrderDual.toDual_le_toDual.mpr (UInt32.le_iff_toNat_le.mp hle)
    · intro x hx y hy htakes
      have hlt : ¬ y.seq ≤ x.seq := by simpa [MacOffer.takesFrom, hl x hx, hl y hy] using htakes
      rw [UInt32.le_iff_toNat_le] at hlt
      exact OrderDual.toDual_le_toDual.mpr (by omega)
  refine ⟨hlow.mem, ?_⟩
  intro x hx
  exact UInt32.le_iff_toNat_le.mpr (OrderDual.toDual_le_toDual.mp (hlow.le x hx))

/-- A sticky offer gets the MAC if no higher number is there. -/
theorem reduce_sticky {pre : List MacOffer} {s : MacOffer} (hpre : ∀ x ∈ pre, x.sticky = false)
    (hs : s.sticky = true) :
    ∃ w, reduce MacOffer.takesFrom (pre ++ [s]) = some w ∧ (w = s ∨ w ∈ pre) ∧
      ((∀ x ∈ pre, x.seq ≤ s.seq) → w = s) ∧ (w = s → s ∉ pre → ∀ x ∈ pre, x.seq ≤ s.seq) := by
  rw [reduce_concat]
  cases hl : reduce MacOffer.takesFrom pre with
  | none =>
    obtain rfl := reduce_eq_none_iff.mp hl
    exact ⟨s, rfl, .inl rfl, fun _ => rfl, by simp⟩
  | some m =>
    obtain ⟨hm, hmax⟩ := highest_of_reduce hpre hl
    simp only [Option.elim_some, keep, Option.some.injEq, exists_eq_left', MacOffer.takesFrom, hs, Bool.or_true,
      Bool.and_true, decide_eq_true_eq]
    split_ifs with hle
    · refine ⟨.inl rfl, fun _ => rfl, ?_⟩
      intro _ _ x hx
      exact UInt32.le_trans (hmax x hx) hle
    · refine ⟨.inr hm, ?_, ?_⟩
      · intro hall
        exact absurd (hall m hm) hle
      · rintro rfl hnot
        exact absurd hm hnot

/-- Without sticky offers the highest number holds the MAC in the end. A sticky offer gets the MAC exactly if
no higher number came before, and from then on keeps it from the others. -/
theorem lookupMac_after {rts : List RouteTarget} {key : MacKey} {l : List MacOffer} (h : MacMoves rts key l) :
    ((∀ x ∈ l, x.sticky = false) → ∀ w ∈ l, (∀ x ∈ l, x.seq ≤ w.seq) →
      (EviTable.after rts l).lookupMac key.1 key.2 = w.entry) ∧
    (∀ pre s post, l = pre ++ s :: post → s.sticky = true → (∀ x ∈ pre ++ post, x.sticky = false) →
      ((EviTable.after rts (pre ++ [s])).owners[key]? = some s.1 ↔ ∀ x ∈ pre, x.seq ≤ s.seq) ∧
      ((EviTable.after rts (pre ++ [s])).owners[key]? = some s.1 → ∀ seen, seen <+: post →
        (EviTable.after rts (pre ++ s :: seen)).lookupMac key.1 key.2 = s.entry)) := by
  constructor
  · intro hl w hw hmax
    cases hred : reduce MacOffer.takesFrom l with
    | none =>
      rw [reduce_eq_none_iff.mp hred] at hw
      cases hw
    | some v =>
      obtain ⟨hv, hvmax⟩ := highest_of_reduce hl hred
      obtain rfl : v = w := by
        by_contra hne
        exact h.seq_ne hv hw hne (UInt32.le_antisymm (hmax v hv) (hvmax w hw))
      exact ((EviTable.after_spec h).2 v hred).mac
  · rintro pre s post rfl hs hrest
    have hpre : ∀ x ∈ pre, x.sticky = false := fun x hx => hrest x (List.mem_append_left _ hx)
    have hmoves : ∀ seen, seen <+: post → MacMoves rts key (pre ++ [s] ++ seen) := by
      rintro seen ⟨tail, rfl⟩
      refine MacMoves.of_append (r := tail) ?_
      simpa using h
    have hnot : ∀ x ∈ pre, x.1 ≠ s.1 := by
      intro x hx
      have hnodup := h.nlris
      rw [List.map_append, List.nodup_append] at hnodup
      exact hnodup.2.2 x.1 (List.mem_map_of_mem hx) s.1 (by simp)
    obtain ⟨w, hred, hw, hgets, hgot⟩ := reduce_sticky hpre hs
    have hforce := (EviTable.after_spec (by simpa using hmoves [] List.nil_prefix)).2 w hred
    have howner : (EviTable.after rts (pre ++ [s])).owners[key]? = some s.1 ↔ w = s := by
      rw [hforce.owner, Option.some.injEq]
      refine ⟨fun heq => hw.resolve_right fun hmem => hnot w hmem heq, fun heq => by rw [heq]⟩
    rw [howner]
    refine ⟨⟨fun heq => hgot heq fun hmem => hnot s hmem rfl, hgets⟩, ?_⟩
    rintro rfl seen hseen
    have hkeeps : reduce MacOffer.takesFrom (pre ++ [w] ++ seen) = some w := by
      refine reduce_append_of_not_better hred ?_
      intro x hx
      have hx' : x.sticky = false := hrest x (List.mem_append_right _ (hseen.subset hx))
      simp [MacOffer.takesFrom, hs, hx']
    have hmac := ((EviTable.after_spec (hmoves seen hseen)).2 w hkeeps).mac
    rw [List.append_assoc, List.singleton_append] at hmac
    exact hmac

namespace Sample

/-- An advertisement of one MAC by the neighbour `192.0.2.o`, with a Route Target and MAC Mobility. -/
def offer (o : UInt8) (flags seq : UInt8) : MacOffer :=
  (.macIp #v[0, 0, 0, 0, 0, 0, 0, o] (Vector.replicate 10 0) 0 (Vector.replicate 6 1) none 100 none,
    { path 65001 0 o with extCommunities := [#v[0, 2, 0, 1, 0, 0, 0, 1], #v[6, 0, flags, 0, 0, 0, 0, seq]] })

def target : RouteTarget := #v[0, 2, 0, 1, 0, 0, 0, 1]

def macKey : MacKey := (0, Vector.replicate 6 1)

theorem macMoves_plain : MacMoves [target] macKey [offer 1 0 5, offer 3 0 9, offer 2 0 7] := by
  refine ⟨?_, ?_, ?_, ?_, ?_⟩ <;> decide +kernel

theorem macMoves_sticky : MacMoves [target] macKey [offer 1 0 5, offer 2 1 7, offer 3 0 9] := by
  refine ⟨?_, ?_, ?_, ?_, ?_⟩ <;> decide +kernel

end Sample

/-- A late lower number is refused; a sticky offer takes the MAC from a lower number and keeps it from a
higher one. -/
theorem lookupMac_after_three :
    (EviTable.after [Sample.target] [Sample.offer 1 0 5, Sample.offer 3 0 9, Sample.offer 2 0 7]).lookupMac
      Sample.macKey.1 Sample.macKey.2 = (Sample.offer 3 0 9).entry ∧
    (EviTable.after [Sample.target] [Sample.offer 1 0 5, Sample.offer 2 1 7, Sample.offer 3 0 9]).lookupMac
      Sample.macKey.1 Sample.macKey.2 = (Sample.offer 2 1 7).entry := by
  constructor
  · exact (lookupMac_after Sample.macMoves_plain).1 (by decide +kernel) (Sample.offer 3 0 9) (by decide +kernel)
      (by decide +kernel)
  · obtain ⟨hgets, hkeeps⟩ := (lookupMac_after Sample.macMoves_sticky).2 [Sample.offer 1 0 5] (Sample.offer 2 1 7)
      [Sample.offer 3 0 9] rfl (by decide +kernel) (by decide +kernel)
    exact hkeeps (hgets.mpr (by decide +kernel)) [Sample.offer 3 0 9] List.prefix_rfl

/-- A sticky offer with a number below that of the holder is refused like any other, and the MAC moves on
after it. -/
theorem not_forall_sticky_holds : ¬ ∀ (rts : List RouteTarget) (key : MacKey) (pre : List MacOffer) (s : MacOffer)
    (seen : List MacOffer) (x : MacOffer), MacMoves rts key (pre ++ s :: (seen ++ [x])) → s.sticky = true →
      (∀ y ∈ pre ++ (seen ++ [x]), y.sticky = false) →
      (EviTable.after rts (pre ++ s :: (seen ++ [x]))).lookupMac key.1 key.2 =
        (EviTable.after rts (pre ++ s :: seen)).lookupMac key.1 key.2 := by
  intro h
  have hmoves : MacMoves [Sample.target] Sample.macKey [Sample.offer 1 0 5, Sample.offer 2 1 3, Sample.offer 3 0 9] := by
    refine ⟨?_, ?_, ?_, ?_, ?_⟩ <;> decide +kernel
  have hsame := h [Sample.target] Sample.macKey [Sample.offer 1 0 5] (Sample.offer 2 1 3) [] (Sample.offer 3 0 9) hmoves
    (by decide +kernel) (by decide +kernel)
  revert hsame
  decide +kernel

end Wren.Bgp
