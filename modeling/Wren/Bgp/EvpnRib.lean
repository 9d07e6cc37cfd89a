import Wren.Bgp.Rib

/-! The EVPN routing table: the paths each peer offered for an NLRI and the best one, with a
notification whenever the best one changes. -/

namespace Wren.Bgp
open Wren.Core OrdMap Std

abbrev Rd := Vector UInt8 8
abbrev Esi := Vector UInt8 10
abbrev MacAddr := Vector UInt8 6

inductive EvpnNlri where
  | macIp (rd : Rd) (esi : Esi) (ethTag : UInt32) (mac : MacAddr) (ip : Option IpAddr) (label1 : UInt32)
    (label2 : Option UInt32)
  | imet (rd : Rd) (ethTag : UInt32) (origIp : IpAddr)
  | ipPrefix (rd : Rd) (esi : Esi) (ethTag : UInt32) (pfx : Prefix) (gw : IpAddr) (label : UInt32)
  | unknown (routeType : UInt8) (body : List UInt8)
deriving DecidableEq

namespace EvpnNlri

/-- The route types in turn, each by its fields. -/
def key : EvpnNlri → UInt8 × Option (Rd × Esi × UInt32 × MacAddr × Option IpAddr × UInt32 × Option UInt32) ×
    Option (Rd × UInt32 × IpAddr) × Option (Rd × Esi × UInt32 × Prefix × IpAddr × UInt32) ×
    Option (UInt8 × List UInt8)
  | macIp rd esi ethTag mac ip label1 label2 => (0, some (rd, esi, ethTag, mac, ip, label1, label2), none, none, none)
  | imet rd ethTag origIp => (1, none, some (rd, ethTag, origIp), none, none)
  | ipPrefix rd esi ethTag pfx gw label => (2, none, none, some (rd, esi, ethTag, pfx, gw, label), none)
  | unknown routeType body => (3, none, none, none, some (routeType, body))

theorem key_injective : Function.Injective key := by
  intro a b h
  cases a <;> cases b <;> simp_all [key]

instance : Ord EvpnNlri := ⟨compareOn key⟩

instance : TransOrd EvpnNlri := inferInstanceAs (TransCmp (compareOn key))

instance : LawfulEqOrd EvpnNlri where
  eq_of_compare h := key_injective (LawfulEqOrd.eq_of_compare h)

end EvpnNlri

inductive EvpnRibEvent where
  | best (nlri : EvpnNlri) (path : Path)
  | withdrawn (nlri : EvpnNlri)
deriving DecidableEq

namespace EvpnRibEvent

def nlri : EvpnRibEvent → EvpnNlri
  | best n _ => n
  | withdrawn n => n

/-- The best path from now on. -/
def path : EvpnRibEvent → Option Path
  | best _ p => some p
  | withdrawn _ => none

end EvpnRibEvent

structure EvpnRib where
  entries : BTreeMap EvpnNlri Offers
  best : BTreeMap EvpnNlri Path

namespace EvpnRib

def new : EvpnRib := ⟨∅, ∅⟩

/-- The first path that none after it beats. -/
def selectBest (paths : List Path) : Option Path :=
  paths.foldl (fun best p =>
    match best with
    | some b => if isBetter p b then some p else some b
    | none => some p) none

/-- What selection makes of the offers for an NLRI. -/
def selection (rib : EvpnRib) (nlri : EvpnNlri) : Option Path :=
  (rib.entries[nlri]?).bind fun peers => selectBest peers.paths

def reselect (rib : EvpnRib) (nlri : EvpnNlri) : EvpnRib × Option EvpnRibEvent :=
  match rib.selection nlri with
  | some path =>
    if rib.best[nlri]? = some path then (rib, none)
    else ({ rib with best := rib.best.insert nlri path }, some (.best nlri path))
  | none =>
    ({ rib with best := rib.best.erase nlri }, (rib.best[nlri]?).map fun _ => .withdrawn nlri)

def update (rib : EvpnRib) (peer : IpAddr) (nlri : EvpnNlri) (path : Path) : EvpnRib × Option EvpnRibEvent :=
  let peers := (rib.entries[nlri]?.getD ∅).insert (peer, 0) path
  reselect { rib with entries := rib.entries.insert nlri peers } nlri

/-- Drop the paths of a peer for an NLRI, and the NLRI when none is left. -/
def dropPeer (rib : EvpnRib) (peer : IpAddr) (nlri : EvpnNlri) : EvpnRib :=
  match rib.entries[nlri]? with
  | none => rib
  | some peers =>
    let peers := peers.filter fun k _ => k.1 ≠ peer
    { rib with entries := if peers.isEmpty then rib.entries.erase nlri else rib.entries.insert nlri peers }

def withdraw (rib : EvpnRib) (peer : IpAddr) (nlri : EvpnNlri) : EvpnRib × Option EvpnRibEvent :=
  (rib.dropPeer peer nlri).reselect nlri

/-- The NLRI that `peer` offers. -/
def nlrisFrom (rib : EvpnRib) (peer : IpAddr) : List EvpnNlri :=
  (rib.entries.toList.filter fun e => e.2.toList.any fun o => o.1.1 == peer).map Prod.fst

def withdrawPeer (rib : EvpnRib) (peer : IpAddr) : EvpnRib × List EvpnRibEvent :=
  (rib.nlrisFrom peer).foldl (fun (rib, events) nlri =>
    let (rib, ev) := rib.withdraw peer nlri
    (rib, events ++ ev.toList)) (rib, [])

def bestOf (rib : EvpnRib) (nlri : EvpnNlri) : Option Path := rib.best[nlri]?

@[simp] theorem bestOf_new (nlri : EvpnNlri) : new.bestOf nlri = none := by
  simp [bestOf, new]

/-- Each change of a best path is told once, and nothing else is. -/
structure Tells (rib rib' : EvpnRib) (events : List EvpnRibEvent) : Prop where
  nodup : (events.map EvpnRibEvent.nlri).Nodup
  told : ∀ ev ∈ events, rib'.bestOf ev.nlri = ev.path
  changed : ∀ ev ∈ events, rib.bestOf ev.nlri ≠ ev.path
  silent : ∀ n, n ∉ events.map EvpnRibEvent.nlri → rib'.bestOf n = rib.bestOf n

/-- Where the best path is as before, nothing is told. -/
theorem Tells.quiet {rib rib' : EvpnRib} {events : List EvpnRibEvent} (h : Tells rib rib' events) {n : EvpnNlri}
    (hn : rib'.bestOf n = rib.bestOf n) : n ∉ events.map EvpnRibEvent.nlri := by
  intro hmem
  obtain ⟨ev, hev, rfl⟩ := List.mem_map.mp hmem
  exact h.changed ev hev (hn.symm.trans (h.told ev hev))

theorem tells_reselect (rib : EvpnRib) (nlri : EvpnNlri) :
    Tells rib (rib.reselect nlri).1 (rib.reselect nlri).2.toList := by
  unfold reselect
  cases hsel : rib.selection nlri with
  | some path =>
    by_cases hsame : rib.best[nlri]? = some path
    · simp only [hsame, if_true]
      exact ⟨by simp, by simp, by simp, fun _ _ => rfl⟩
    · simp only [hsame, if_false]
      refine ⟨by simp, ?_, ?_, ?_⟩
      · simp [EvpnRibEvent.nlri, EvpnRibEvent.path, bestOf]
      · simpa [EvpnRibEvent.nlri, EvpnRibEvent.path, bestOf] using hsame
      · intro n hn
        have hne : n ≠ nlri := by simpa [EvpnRibEvent.nlri] using hn
        rw [bestOf, bestOf, getElem?_insert, if_neg hne]
  | none =>
    cases hbest : rib.best[nlri]? with
    | none =>
      refine ⟨by simp, by simp, by simp, ?_⟩
      intro n _
      rw [bestOf, bestOf, getElem?_erase]
      split_ifs with hn
      · rw [hn, hbest]
      · rfl
    | some old =>
      refine ⟨by simp, ?_, ?_, ?_⟩
      · simp [EvpnRibEvent.nlri, EvpnRibEvent.path, bestOf]
      · simp [EvpnRibEvent.nlri, EvpnRibEvent.path, bestOf, hbest]
      · intro n hn
        have hne : n ≠ nlri := by simpa [EvpnRibEvent.nlri] using hn
        rw [bestOf, bestOf, getElem?_erase, if_neg hne]

theorem nlri_of_reselect {rib : EvpnRib} {nlri : EvpnNlri} {ev : EvpnRibEvent} (h : (rib.reselect nlri).2 = some ev) :
    ev.nlri = nlri := by
  unfold reselect at h
  cases hsel : rib.selection nlri with
  | some path =>
    simp only [hsel] at h
    split_ifs at h
    cases h
    rfl
  | none =>
    simp only [hsel, Option.map_eq_some_iff] at h
    obtain ⟨p, -, rfl⟩ := h
    rfl

theorem tells_update (rib : EvpnRib) (peer : IpAddr) (nlri : EvpnNlri) (path : Path) :
    Tells rib (rib.update peer nlri path).1 (rib.update peer nlri path).2.toList := by
  obtain ⟨hnodup, htold, hchanged, hsilent⟩ := tells_reselect
    { rib with entries := rib.entries.insert nlri ((rib.entries[nlri]?.getD ∅).insert (peer, 0) path) } nlri
  exact ⟨hnodup, htold, hchanged, hsilent⟩

@[simp] theorem dropPeer_best (rib : EvpnRib) (peer : IpAddr) (nlri : EvpnNlri) :
    (rib.dropPeer peer nlri).best = rib.best := by
  unfold dropPeer
  cases rib.entries[nlri]? <;> rfl

theorem tells_withdraw (rib : EvpnRib) (peer : IpAddr) (nlri : EvpnNlri) :
    Tells rib (rib.withdraw peer nlri).1 (rib.withdraw peer nlri).2.toList := by
  obtain ⟨hnodup, htold, hchanged, hsilent⟩ := tells_reselect (rib.dropPeer peer nlri) nlri
  have hbest : ∀ n, (rib.dropPeer peer nlri).bestOf n = rib.bestOf n := by
    intro n
    rw [bestOf, bestOf, dropPeer_best]
  refine ⟨hnodup, htold, ?_, ?_⟩
  · intro ev hev
    rw [← hbest]
    exact hchanged ev hev
  · intro n hn
    rw [withdraw, hsilent n hn, hbest]

/-- The withdrawals of one peer, NLRI by NLRI. -/
def withdrawAll (peer : IpAddr) (nlris : List EvpnNlri) (s : EvpnRib × List EvpnRibEvent) :
    EvpnRib × List EvpnRibEvent :=
  nlris.foldl (fun (rib, events) nlri =>
    let (rib, ev) := rib.withdraw peer nlri
    (rib, events ++ ev.toList)) s

theorem tells_withdrawAll {peer : IpAddr} {nlris : List EvpnNlri} (hnodup : nlris.Nodup) {rib rib₀ : EvpnRib}
    {events : List EvpnRibEvent} (h : Tells rib₀ rib events) (hapart : ∀ ev ∈ events, ev.nlri ∉ nlris) :
    Tells rib₀ (withdrawAll peer nlris (rib, events)).1 (withdrawAll peer nlris (rib, events)).2 := by
  induction nlris generalizing rib events with
  | nil => exact h
  | cons n nlris ih =>
    obtain ⟨hn, hrest⟩ := List.nodup_cons.mp hnodup
    obtain ⟨-, htold, hchanged, hsilent⟩ := tells_withdraw rib peer n
    have honly : ∀ ev ∈ (rib.withdraw peer n).2.toList, ev.nlri = n := by
      intro ev hev
      exact nlri_of_reselect (Option.mem_toList.mp hev)
    have hothers : ∀ m, m ≠ n → (rib.withdraw peer n).1.bestOf m = rib.bestOf m := by
      intro m hm
      refine hsilent m ?_
      intro hmem
      obtain ⟨ev, hev, rfl⟩ := List.mem_map.mp hmem
      exact hm (honly ev hev)
    have hold : ∀ ev ∈ events, ev.nlri ≠ n := by
      intro ev hev heq
      exact hapart ev hev (by simp [heq])
    have hnext : Tells rib₀ (rib.withdraw peer n).1 (events ++ (rib.withdraw peer n).2.toList) := by
      refine ⟨?_, ?_, ?_, ?_⟩
      · rw [List.map_append, List.nodup_append]
        refine ⟨h.nodup, (tells_withdraw rib peer n).nodup, ?_⟩
        intro a ha b hb hab
        obtain ⟨ev, hev, rfl⟩ := List.mem_map.mp ha
        obtain ⟨ev', hev', rfl⟩ := List.mem_map.mp hb
        exact hold ev hev (hab.trans (honly ev' hev'))
      · intro ev hev
        rcases List.mem_append.mp hev with hev | hev
        · rw [hothers _ (hold ev hev), h.told ev hev]
        · exact htold ev hev
      · intro ev hev
        rcases List.mem_append.mp hev with hev | hev
        · exact h.changed ev hev
        · rw [← h.silent ev.nlri ?_]
          · exact hchanged ev hev
          · rw [honly ev hev]
            intro hmem
            obtain ⟨old, hold', heq⟩ := List.mem_map.mp hmem
            exact hold old hold' heq
      · intro m hm
        rw [List.map_append, List.mem_append, not_or] at hm
        rw [hsilent m hm.2, h.silent m hm.1]
    refine ih hrest hnext ?_
    intro ev hev
    rcases List.mem_append.mp hev with hev | hev
    · have := hapart ev hev
      simp only [List.mem_cons, not_or] at this
      exact this.2
    · rw [honly ev hev]
      exact hn

theorem tells_withdrawPeer (rib : EvpnRib) (peer : IpAddr) :
    Tells rib (rib.withdrawPeer peer).1 (rib.withdrawPeer peer).2 := by
  have hkeys : (rib.nlrisFrom peer).Nodup :=
    (nodup_keys_toList rib.entries).sublist (List.filter_sublist.map _)
  have hnone : Tells rib rib [] := ⟨by simp, by simp, by simp, fun _ _ => rfl⟩
  exact tells_withdrawAll hkeys hnone (by simp)

/-- The paths offered for an NLRI. -/
def offers (rib : EvpnRib) (nlri : EvpnNlri) : Offers := rib.entries[nlri]?.getD ∅

@[simp] theorem offers_new (n : EvpnNlri) : new.offers n = ∅ := by
  simp [offers, new]

theorem selectBest_mem {l : List Path} {p : Path} (h : selectBest l = some p) : p ∈ l := by
  have hall : ∀ (l : List Path) (b : Option Path) (p : Path),
      l.foldl (fun best p =>
        match best with
        | some b => if isBetter p b then some p else some b
        | none => some p) b = some p → b = some p ∨ p ∈ l := by
    intro l
    induction l with
    | nil => exact fun b p h => .inl h
    | cons q l ih =>
      intro b p h
      rw [List.foldl_cons] at h
      rcases ih _ p h with heq | hmem
      · cases b with
        | none =>
          cases heq
          simp
        | some b =>
          dsimp only at heq
          split_ifs at heq
          · cases heq
            simp
          · exact .inl heq
      · exact .inr (by simp [hmem])
  rcases hall l none p h with h | h
  · cases h
  · exact h

theorem selectBest_empty : selectBest (∅ : Offers).paths = none := by
  have hnil : (∅ : Offers).paths = [] := by
    rw [Offers.paths, Std.ExtTreeMap.toList_eq_nil_iff.mpr rfl, List.map_nil]
  rw [hnil]
  rfl

theorem selection_eq (rib : EvpnRib) (n : EvpnNlri) : rib.selection n = selectBest (rib.offers n).paths := by
  unfold selection offers
  cases rib.entries[n]? with
  | none => exact selectBest_empty.symm
  | some peers => rfl

/-- The best path of every NLRI is the one selection finds. -/
def Selected (rib : EvpnRib) : Prop := ∀ n, rib.bestOf n = selectBest (rib.offers n).paths

theorem selected_new : new.Selected := by
  intro n
  rw [bestOf_new, offers_new, selectBest_empty]

@[simp] theorem offers_reselect (rib : EvpnRib) (nlri n : EvpnNlri) :
    (rib.reselect nlri).1.offers n = rib.offers n := by
  unfold reselect
  cases rib.selection nlri with
  | none => rfl
  | some path =>
    dsimp only
    split_ifs <;> rfl

theorem bestOf_reselect (rib : EvpnRib) (nlri n : EvpnNlri) :
    (rib.reselect nlri).1.bestOf n = if n = nlri then rib.selection nlri else rib.bestOf n := by
  unfold reselect
  cases hsel : rib.selection nlri with
  | none => rw [bestOf, getElem?_erase, bestOf]
  | some path =>
    by_cases hsame : rib.best[nlri]? = some path
    · simp only [hsame, if_true]
      split_ifs with hn
      · rw [bestOf, hn, hsame]
      · rfl
    · simp only [hsame, if_false]
      rw [bestOf, getElem?_insert, bestOf]

/-- Selecting anew keeps the best paths right if only this NLRI changed. -/
theorem selected_reselect {rib : EvpnRib} {nlri : EvpnNlri}
    (h : ∀ n, n ≠ nlri → rib.bestOf n = selectBest (rib.offers n).paths) : (rib.reselect nlri).1.Selected := by
  intro n
  rw [bestOf_reselect, offers_reselect]
  split_ifs with hn
  · rw [hn, selection_eq]
  · exact h n hn

theorem offers_update (rib : EvpnRib) (peer : IpAddr) (nlri : EvpnNlri) (path : Path) (n : EvpnNlri) :
    (rib.update peer nlri path).1.offers n =
      if n = nlri then (rib.offers nlri).insert (peer, 0) path else rib.offers n := by
  rw [update, offers_reselect, offers, getElem?_insert]
  split_ifs <;> rfl

theorem selected_update {rib : EvpnRib} (h : rib.Selected) (peer : IpAddr) (nlri : EvpnNlri) (path : Path) :
    (rib.update peer nlri path).1.Selected := by
  refine selected_reselect ?_
  intro n hn
  have hoff := offers_update rib peer nlri path n
  rw [update, offers_reselect, if_neg hn] at hoff
  rw [hoff]
  exact h n

theorem offers_dropPeer (rib : EvpnRib) (peer : IpAddr) (nlri n : EvpnNlri) :
    (rib.dropPeer peer nlri).offers n =
      if n = nlri then (rib.offers nlri).filter fun k _ => k.1 ≠ peer else rib.offers n := by
  unfold dropPeer
  cases hpeers : rib.entries[nlri]? with
  | none =>
    split_ifs with hn
    · rw [hn, offers, hpeers]
      exact (Std.ExtTreeMap.ext_getElem? (by simp)).symm
    · rfl
  | some peers =>
    simp only [offers, hpeers, Option.getD_some]
    split_ifs with hempty hn hn
    · rw [getElem?_erase, if_pos hn]
      exact (Std.ExtTreeMap.isEmpty_iff.mp hempty).symm
    · rw [getElem?_erase, if_neg hn]
    · rw [getElem?_insert, if_pos hn]
      rfl
    · rw [getElem?_insert, if_neg hn]

theorem offers_withdraw (rib : EvpnRib) (peer : IpAddr) (nlri n : EvpnNlri) :
    (rib.withdraw peer nlri).1.offers n =
      if n = nlri then (rib.offers nlri).filter fun k _ => k.1 ≠ peer else rib.offers n := by
  rw [withdraw, offers_reselect, offers_dropPeer]

theorem selected_withdraw {rib : EvpnRib} (h : rib.Selected) (peer : IpAddr) (nlri : EvpnNlri) :
    (rib.withdraw peer nlri).1.Selected := by
  refine selected_reselect ?_
  intro n hn
  rw [offers_dropPeer, if_neg hn, bestOf, dropPeer_best]
  exact h n

theorem withdrawAll_spec {peer : IpAddr} {nlris : List EvpnNlri} (hnodup : nlris.Nodup)
    {s : EvpnRib × List EvpnRibEvent} (h : s.1.Selected) :
    (withdrawAll peer nlris s).1.Selected ∧ ∀ n, (withdrawAll peer nlris s).1.offers n =
      if n ∈ nlris then (s.1.offers n).filter fun k _ => k.1 ≠ peer else s.1.offers n := by
  induction nlris generalizing s with
  | nil => exact ⟨h, fun _ => rfl⟩
  | cons m nlris ih =>
    obtain ⟨hm, hrest⟩ := List.nodup_cons.mp hnodup
    have hnext : ((s.1.withdraw peer m).1, s.2 ++ (s.1.withdraw peer m).2.toList).1.Selected := selected_withdraw h peer m
    obtain ⟨hsel, hoff⟩ := ih hrest hnext
    refine ⟨hsel, ?_⟩
    intro n
    have hn := (hoff n).trans (by rw [offers_withdraw])
    by_cases heq : n = m
    · subst heq
      rw [if_neg hm, if_pos rfl] at hn
      rw [if_pos (by simp)]
      exact hn
    · rw [if_neg heq] at hn
      simp only [List.mem_cons, heq, false_or]
      exact hn

theorem mem_nlrisFrom {rib : EvpnRib} {peer : IpAddr} {n : EvpnNlri} {src : IpAddr × UInt32} {p : Path}
    (h : (rib.offers n)[src]? = some p) (hsrc : src.1 = peer) : n ∈ rib.nlrisFrom peer := by
  unfold offers at h
  cases hpeers : rib.entries[n]? with
  | none =>
    rw [hpeers] at h
    simp at h
  | some peers =>
    rw [hpeers] at h
    refine List.mem_map.mpr ⟨(n, peers), List.mem_filter.mpr ⟨?_, ?_⟩, rfl⟩
    · exact ExtTreeMap.mem_toList_iff_getElem?_eq_some.mpr hpeers
    · rw [List.any_eq_true]
      exact ⟨(src, p), ExtTreeMap.mem_toList_iff_getElem?_eq_some.mpr h, by simpa using hsrc⟩

/-- After a session is lost, none of its offers is left and all others are. -/
theorem withdrawPeer_spec {rib : EvpnRib} (h : rib.Selected) (peer : IpAddr) :
    (rib.withdrawPeer peer).1.Selected ∧
      ∀ n, (rib.withdrawPeer peer).1.offers n = (rib.offers n).filter fun k _ => k.1 ≠ peer := by
  have hkeys : (rib.nlrisFrom peer).Nodup :=
    (nodup_keys_toList rib.entries).sublist (List.filter_sublist.map _)
  have hstart : ((rib, []) : EvpnRib × List EvpnRibEvent).1.Selected := h
  obtain ⟨hsel, hoff⟩ := withdrawAll_spec hkeys hstart
  refine ⟨hsel, ?_⟩
  intro n
  refine (hoff n).trans ?_
  split_ifs with hn
  · rfl
  · symm
    apply ExtTreeMap.ext_getElem?
    intro src
    rw [ExtTreeMap.getElem?_filter']
    cases hp : (rib.offers n)[src]? with
    | none => simp
    | some p =>
      have hne : src.1 ≠ peer := fun hsrc => hn (mem_nlrisFrom hp hsrc)
      simp [hne]

theorem exists_offer_of_best {rib : EvpnRib} (h : rib.Selected) {n : EvpnNlri} {p : Path} (hp : rib.bestOf n = some p) :
    ∃ src : IpAddr × UInt32, (rib.offers n)[src]? = some p := by
  rw [h n] at hp
  obtain ⟨e, he, rfl⟩ := List.mem_map.mp (selectBest_mem hp)
  exact ⟨e.1, Std.ExtTreeMap.mem_toList_iff_getElem?_eq_some.mp he⟩

inductive Op where
  | update (peer : IpAddr) (nlri : EvpnNlri) (path : Path)
  | withdraw (peer : IpAddr) (nlri : EvpnNlri)
  | withdrawPeer (peer : IpAddr)

def apply (rib : EvpnRib) : Op → EvpnRib × List EvpnRibEvent
  | .update peer nlri path => ((rib.update peer nlri path).1, (rib.update peer nlri path).2.toList)
  | .withdraw peer nlri => ((rib.withdraw peer nlri).1, (rib.withdraw peer nlri).2.toList)
  | .withdrawPeer peer => rib.withdrawPeer peer

theorem tells_apply (rib : EvpnRib) (op : Op) : Tells rib (rib.apply op).1 (rib.apply op).2 := by
  cases op with
  | update peer nlri path => exact tells_update rib peer nlri path
  | withdraw peer nlri => exact tells_withdraw rib peer nlri
  | withdrawPeer peer => exact tells_withdrawPeer rib peer

end EvpnRib
end Wren.Bgp
