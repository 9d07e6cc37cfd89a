import Wren.Daemon.Ospf.Books
import Wren.Daemon.Ospf.Frames
import Wren.Daemon.Ospf.Reaping

/-! Whether an area border router keeps quiet about what has not changed. -/

namespace Wren.Daemon
open Wren.Core Wren.Ospf OrdMap

namespace Ospf

/-! ### How often an LSA is originated -/

/-- The sequence number goes on by one with every LSA that is originated under a key. -/
theorem Pass.nextSeq_originateAll (scope : Ipv4Addr) (lsas : List Lsa) (p : Pass) (k : LsaKey) :
    Ospf.nextSeq (lsas.foldl (originate scope) p).seqs scope k =
      Ospf.nextSeq p.seqs scope k + Int32.ofNat (lsas.countP fun l => l.key = k) := by
  induction lsas generalizing p with
  | nil => simp
  | cons l lsas ih =>
    rw [List.foldl_cons, ih, nextSeq_originate, List.countP_cons]
    by_cases hk : l.key = k
    · subst hk
      have hone : Int32.ofNat 1 = 1 := rfl
      simp only [and_self, if_true, decide_true, Int32.ofNat_add, hone]
      rw [Int32.add_assoc, Int32.add_comm 1]
    · simp [hk, Ne.symm hk]

theorem Pass.nextSeq_run {scope : Ipv4Addr} {lsas : List Lsa} {retired : List LsaKey} (p : Pass) {k : LsaKey}
    (hk : k ∉ retired) : Ospf.nextSeq (p.run scope lsas retired).seqs scope k =
      Ospf.nextSeq p.seqs scope k + Int32.ofNat (lsas.countP fun l => l.key = k) := by
  have hflushed : Unchanged scope (· ∈ retired) (lsas.foldl (originate scope) p) (p.run scope lsas retired) :=
    unchanged_foldl retired (fun a ha _ => unchanged_flush ha) _
  rw [hflushed.nextSeq scope k fun h => hk h.2, nextSeq_originateAll]

theorem nextSeq_areaPass (s : Ospf) (area : Ipv4Addr) (lsas : List Lsa) {retired : List LsaKey} (note : Area → Area)
    {k : LsaKey} (hk : k ∉ retired) : nextSeq (s.areaPass area lsas retired note).lsaSeqs area k =
      nextSeq s.lsaSeqs area k + Int32.ofNat (lsas.countP fun l => l.key = k) := by
  rw [lsaSeqs_areaPass, Pass.nextSeq_run _ hk]

theorem nextSeq_externalPass (s : Ospf) (lsas : List Lsa) {retired : List LsaKey} {note : Ospf → Ospf}
    (hnote : ∀ t, (note t).lsaSeqs = t.lsaSeqs) {k : LsaKey} (hk : k ∉ retired) :
    nextSeq (s.externalPass lsas retired note).lsaSeqs asScope k =
      nextSeq s.lsaSeqs asScope k + Int32.ofNat (lsas.countP fun l => l.key = k) := by
  rw [lsaSeqs_externalPass s lsas retired hnote, Pass.nextSeq_run _ hk]

/-! ### What an area border router says -/

/-- What an area border router originates of its own accord: summaries for an area, the default route of an NSSA, and
what it translates. -/
inductive BorderKind where
  | summary (area : Ipv4Addr)
  | nssaDefault (area : Ipv4Addr)
  | translated

namespace BorderKind

def scope : BorderKind → Ipv4Addr
  | summary area | nssaDefault area => area
  | translated => asScope

/-- What is to be said in a state. -/
def lsas (s : Ospf) : BorderKind → List Lsa
  | summary area => if area ∈ s.areas then s.summaryLsas (s.wantSummaries area) area else []
  | nssaDefault area => if area ∈ s.areas ∧ s.cfg.wantsNssaDefault area = true then [s.nssaDefaultLsa] else []
  | translated => s.translatedLsas

/-- Where it is held. -/
def lsdb (s : Ospf) : BorderKind → Lsdb
  | summary area | nssaDefault area => s.areaLsdb area
  | translated => s.externalLsdb

end BorderKind

/-- An LSA to be said is held with the contents it is to have. -/
structure StillSaid (s : Ospf) (b : BorderKind) (k : LsaKey) : Prop where
  said : k ∈ keySet (b.lsas s)
  held : ∃ l, (b.lsdb s).get k = some l ∧ l.header.lsAge < maxAge ∧ ∀ lsa ∈ b.lsas s, lsa.key = k → lsa.body = l.body
  few : (b.lsas s).length < 2 ^ 32

section Sums
variable {s : Ospf} (hs : Booked s)

/-- A pass in each area goes on there by what it originates there. -/
theorem nextSeq_areaFold {f : Ospf → Ipv4Addr → Ospf} {areas : List Ipv4Addr} (hnodup : areas.Nodup)
    {area : Ipv4Addr} (harea : area ∈ areas) {k : LsaKey} {n : ℕ}
    (hf : ∀ t a, ∃ lsas retired note, f t a = t.areaPass a lsas retired note ∧
      (t.cfg = s.cfg → a = area → k ∉ retired ∧ lsas.countP (fun l => l.key = k) = n)) :
    nextSeq (areas.foldl f s).lsaSeqs area k = nextSeq s.lsaSeqs area k + Int32.ofNat n := by
  have hother : ∀ (t : Ospf) (a b : Ipv4Addr), b ≠ id a →
      nextSeq (f t a).lsaSeqs b = nextSeq t.lsaSeqs b := by
    intro t a b hb
    obtain ⟨lsas, retired, note, heq, -⟩ := hf t a
    rw [heq, lsaSeqs_areaPass]
    funext k
    exact (Pass.unchanged_run (K := fun _ => True) (fun _ _ => trivial) (fun _ _ => trivial) _).nextSeq b k
      fun h => hb h.1
  have hcfg : ∀ (t : Ospf) (a : Ipv4Addr), t.cfg = s.cfg → (f t a).cfg = s.cfg := by
    intro t a ht
    obtain ⟨lsas, retired, note, heq, -⟩ := hf t a
    rw [heq]
    exact (Steady.areaPass t a lsas retired note).cfg.trans ht
  obtain ⟨t, ht, hbefore, hafter⟩ := Run.foldl_view_of_mem (fun t a => nextSeq t.lsaSeqs a) hother hcfg
    (by rwa [List.map_id]) rfl harea
  obtain ⟨lsas, retired, note, heq, hcount⟩ := hf t area
  obtain ⟨hnot, hn⟩ := hcount ht rfl
  have hthere : nextSeq (areas.foldl f s).lsaSeqs area k = nextSeq (f t area).lsaSeqs area k := congrFun hafter k
  have hsame : nextSeq t.lsaSeqs area k = nextSeq s.lsaSeqs area k := congrFun hbefore k
  rw [hthere, heq, nextSeq_areaPass t area lsas note hnot, hn, hsame]

theorem notMem_retired {lsas : List Lsa} {k : LsaKey} (hk : k ∈ keySet lsas) (prev : List LsaKey) :
    k ∉ prev.filter (· ∉ keySet lsas) := by
  intro h
  exact of_decide_eq_true (List.mem_filter.mp h).2 hk

include hs

/-- An area border router originates everything it has to say, whatever it has said before. -/
theorem nextSeq_originateSummaries (habr : s.isAbr = true) (b : BorderKind) {k : LsaKey}
    (hk : k ∈ keySet (b.lsas s)) : nextSeq s.originateSummaries.lsaSeqs b.scope k =
      nextSeq s.lsaSeqs b.scope k + Int32.ofNat ((b.lsas s).countP fun l => l.key = k) := by
  have hstages : s.originateSummaries =
      (s.areas.keys.foldl (originateSummariesInto s.wantSummaries) s).originateNssaDefault.translateNssa :=
    if_pos habr
  have hfirst := Stage.summaries s habr
  obtain ⟨hbooked, hsummaries⟩ := differ_summaries hs s.wantSummaries s.areas.keys
  have hsecond := Stage.nssaDefault _ (hfirst.steady.isAbr.trans habr)
  rw [hstages]
  generalize hone : s.areas.keys.foldl (originateSummariesInto s.wantSummaries) s = t at *
  obtain ⟨hbooked', hdefaults⟩ := differ_nssaDefault hbooked
  obtain ⟨-, htranslated⟩ := differ_translated hbooked'
  cases b with
  | summary area =>
    have hin : area ∈ s.areas := by
      by_contra hno
      simp [BorderKind.lsas, hno, keySet] at hk
    have hlsas : BorderKind.lsas s (.summary area) = s.summaryLsas (s.wantSummaries area) area := if_pos hin
    rw [hlsas] at hk ⊢
    have htype : k.1 = .summaryNetwork := (forall_keySet (own_summaryLsas s _ _) k hk).1
    have hnssa : ¬ Own t.cfg.routerId .nssa k := by simp [Own, htype]
    have hext : ¬ (area = asScope ∧ Own t.originateNssaDefault.cfg.routerId .asExternal k) := by simp [Own, htype]
    show nextSeq t.originateNssaDefault.translateNssa.lsaSeqs area k = _
    rw [htranslated.nextSeq area k hext, hdefaults.nextSeq area k hnssa, ← hone]
    refine nextSeq_areaFold Std.ExtTreeMap.nodup_keys (Std.ExtTreeMap.mem_keys.mpr hin) ?_
    intro u a
    refine ⟨_, _, fun x => { x with originatedSummaries := keySet (u.summaryLsas (s.wantSummaries a) a) }, rfl, ?_⟩
    rintro hcfg rfl
    have hsame : u.summaryLsas (s.wantSummaries a) a = s.summaryLsas (s.wantSummaries a) a := by
      simp only [summaryLsas, buildSummaryLsa, selfHeader, hcfg]
    rw [hsame]
    exact ⟨notMem_retired hk _, rfl⟩
  | nssaDefault area =>
    have hin : area ∈ s.areas ∧ s.cfg.wantsNssaDefault area = true := by
      by_contra hno
      simp [BorderKind.lsas, hno, keySet] at hk
    have hlsas : BorderKind.lsas s (.nssaDefault area) = [s.nssaDefaultLsa] := if_pos hin
    rw [hlsas] at hk ⊢
    obtain ⟨l, hl, rfl⟩ := mem_keySet.mp hk
    obtain rfl := List.mem_singleton.mp hl
    have hsum : ¬ Own s.cfg.routerId .summaryNetwork s.nssaDefaultLsa.key := by simp [Own, nssaDefaultLsa, Lsa.key,
      selfHeader, LsaHeader.key]
    have hext : ¬ (area = asScope ∧ Own t.originateNssaDefault.cfg.routerId .asExternal s.nssaDefaultLsa.key) := by
      simp [Own, nssaDefaultLsa, Lsa.key, selfHeader, LsaHeader.key]
    show nextSeq t.originateNssaDefault.translateNssa.lsaSeqs area _ = nextSeq s.lsaSeqs area _ + _
    rw [htranslated.nextSeq area _ hext, ← hsummaries.nextSeq area _ hsum]
    have hcfg : t.cfg = s.cfg := hfirst.steady.cfg
    have hmem : area ∈ t.areas.keys.filter t.cfg.wantsNssaDefault := by
      rw [List.mem_filter, hfirst.steady.keys, Std.ExtTreeMap.mem_keys, hcfg]
      exact hin
    refine nextSeq_areaFold (Std.ExtTreeMap.nodup_keys.filter _) hmem ?_
    intro u a
    refine ⟨_, _, id, rfl, ?_⟩
    rintro hu rfl
    have hsame : u.nssaDefaultLsa = s.nssaDefaultLsa := by
      simp only [nssaDefaultLsa, selfHeader, hu, hcfg]
    rw [hsame]
    exact ⟨List.not_mem_nil, rfl⟩
  | translated =>
    have htype : k.1 = .asExternal := (forall_keySet (own_translatedLsas s) k hk).1
    have hsum : ¬ Own s.cfg.routerId .summaryNetwork k := by simp [Own, htype]
    have hnssa : ¬ Own t.cfg.routerId .nssa k := by simp [Own, htype]
    have hsteady := hfirst.steady.trans hsecond.steady
    have hsame : t.originateNssaDefault.translatedLsas = s.translatedLsas := by
      refine Differ.translatedLsas (Differ.trans (hfirst.differ hs) ?_) hsteady
      have hdiffer := hsecond.differ hbooked
      rwa [hfirst.steady.cfg] at hdiffer
    show nextSeq t.originateNssaDefault.translateNssa.lsaSeqs asScope k = _
    have hbefore : nextSeq t.originateNssaDefault.lsaSeqs asScope k = nextSeq s.lsaSeqs asScope k := by
      rw [hdefaults.nextSeq asScope k hnssa, hsummaries.nextSeq asScope k hsum]
    simp only [translateNssa, hsame]
    refine (nextSeq_externalPass _ _ ?_ (notMem_retired hk _)).trans ?_
    · intro u
      rfl
    · rw [hbefore]
      rfl

/-- What is still to be said is said again. -/
theorem StillSaid.nextSeq_ne (habr : s.isAbr = true) {b : BorderKind} {k : LsaKey} (h : StillSaid s b k) :
    nextSeq s.originateSummaries.lsaSeqs b.scope k ≠ nextSeq s.lsaSeqs b.scope k := by
  rw [nextSeq_originateSummaries hs habr b h.said]
  intro heq
  have hzero : Int32.ofNat ((b.lsas s).countP fun l => l.key = k) = 0 := Int32.add_eq_left.mp heq
  obtain ⟨l, hl, hkey⟩ := mem_keySet.mp h.said
  have hpos : 0 < (b.lsas s).countP fun l => l.key = k := List.countP_pos_iff.mpr ⟨l, hl, decide_eq_true hkey⟩
  have hle := List.countP_le_length (p := fun l : Lsa => l.key = k) (l := b.lsas s)
  have hmod := congrArg (fun x : Int32 => x.toBitVec.toNat) hzero
  have hfew := h.few
  simp only [Int32.toBitVec_ofNat', BitVec.toNat_ofNat] at hmod
  rw [Nat.mod_eq_of_lt (by omega)] at hmod
  have hz : (0 : Int32).toBitVec.toNat = 0 := rfl
  omega

end Sums

/-! ### Link State Updates -/

/-- The intra-area routes are as they were before an update. -/
def RoutesKept (s : Ospf) (idx : ℕ) (nbrId : Ipv4Addr) (lsas : List Lsa) (now : ℕ) : Prop :=
  ∀ area ∈ s.areas.keys, (compute ((s.beforeSummaries idx nbrId lsas now).areaLsdb area) s.cfg.routerId).routes =
    (compute (s.areaLsdb area) s.cfg.routerId).routes

/-- Looking at an LSA changes neither who a neighbour is nor how far the adjacency has come. -/
theorem marks_handleLsa (idx : ℕ) (k area : Ipv4Addr) (now : ℕ) (u : Update) (lsa : Lsa) (i : ℕ) (j : Ipv4Addr) :
    ((u.handleLsa idx k area now lsa).s.neighbor? i j).map OspfNeighbor.mark =
      (u.s.neighbor? i j).map OspfNeighbor.mark := by
  unfold Update.handleLsa
  split
  · dsimp only
    split
    · unfold handleGraceLsa
      split
      · split
        · rfl
        · split_ifs <;> rfl
      · rfl
    · rfl
  · split
    · rfl
    · split
      · exact (Kept.takeLsa area now u lsa).neighbor i j
      all_goals rfl

/-- An update without own LSAs leaves the sequence numbers, unless it is the last one that Loading waits for. -/
theorem lsaSeqs_beforeSummaries {s : Ospf} {idx : ℕ} {nbrId : Ipv4Addr} {lsas : List Lsa} (now : ℕ)
    (hown : ∀ lsa ∈ lsas, lsa.header.advertisingRouter ≠ s.cfg.routerId)
    (hstate : ∀ n, s.neighbor? idx nbrId = some n → n.state ≠ .loading) :
    (s.beforeSummaries idx nbrId lsas now).lsaSeqs = s.lsaSeqs := by
  cases hn : s.neighbor? idx nbrId with
  | none =>
    unfold beforeSummaries
    rw [hn]
    cases s.iface? idx <;> rfl
  | some n =>
    obtain ⟨i, hi, -⟩ := Option.bind_eq_some_iff.mp hn
    have hread : (s.readLsas idx nbrId i.area lsas now).s.lsaSeqs = s.lsaSeqs ∧
        (s.readLsas idx nbrId i.area lsas now).s.cfg = s.cfg ∧
        (s.readLsas idx nbrId i.area lsas now).reclaimSelf = false := by
      refine readLsas_invariant (P := fun u => u.s.lsaSeqs = s.lsaSeqs ∧ u.s.cfg = s.cfg ∧ u.reclaimSelf = false)
        s idx nbrId i.area lsas now ⟨rfl, rfl, rfl⟩ ?_
      rintro u v lsa hlsa hread ⟨hseqs, hcfg, hno⟩
      cases hread with
      | rest hsame _ hreclaim => exact ⟨hsame.lsaSeqs.trans hseqs, hsame.cfg.trans hcfg, hreclaim.trans hno⟩
      | reclaim t _ hself =>
        rw [hcfg] at hself
        exact absurd hself (hown lsa hlsa)
      | foreign t hsame _ _ _ _ heq _ hreclaim =>
        have hinstall : (t.installForeign (scopeOf i.area lsa) i.area now lsa).lsaSeqs = t.lsaSeqs ∧
            (t.installForeign (scopeOf i.area lsa) i.area now lsa).cfg = t.cfg := by
          simp only [installForeign]
          split <;> exact ⟨rfl, rfl⟩
        rw [heq]
        exact ⟨hinstall.1.trans (hsame.lsaSeqs.trans hseqs), hinstall.2.trans (hsame.cfg.trans hcfg),
          hreclaim.trans hno⟩
    have hmarks : ((s.readLsas idx nbrId i.area lsas now).s.neighbor? idx nbrId).map OspfNeighbor.mark =
        some n.mark := by
      unfold readLsas
      refine List.foldlRecOn lsas (Update.handleLsa idx nbrId i.area now)
        (motive := fun u => (u.s.neighbor? idx nbrId).map OspfNeighbor.mark = some n.mark) ?_ ?_
      · exact congrArg (Option.map OspfNeighbor.mark) hn
      · intro u hu lsa _
        exact (marks_handleLsa idx nbrId i.area now u lsa idx nbrId).trans hu
    obtain ⟨hseqs, -, hno⟩ := hread
    simp only [beforeSummaries, hi, hn]
    generalize s.readLsas idx nbrId i.area lsas now = u at hseqs hno hmarks
    split
    · exact (SameCore.driveNeighbor u.s idx nbrId (by decide) false).lsaSeqs.trans hseqs
    · have hanswered := (SameCore.answer u i idx nbrId n.addr).trans (.reflood _ i.area n.addr u)
      have hafter := (Kept.afterLsas (π := OspfNeighbor.mark) (fun _ _ => rfl) u i idx nbrId n.addr).neighbor idx nbrId
      rw [hmarks] at hafter
      obtain ⟨m, hm, hmark⟩ := Option.map_eq_some_iff.mp hafter
      have hloading : m.state ≠ .loading := by
        have hsame : m.state = n.state := congrArg Prod.snd hmark
        rw [hsame]
        exact hstate n hn
      rw [hno]
      unfold finishLoading
      simp only [Bool.false_eq_true, if_false, hm, Option.any_some, hloading, false_and, decide_false]
      exact hanswered.lsaSeqs.trans hseqs

theorem isAbr_beforeSummaries (s : Ospf) (idx : ℕ) (nbrId : Ipv4Addr) (lsas : List Lsa) (now : ℕ) :
    (s.beforeSummaries idx nbrId lsas now).isAbr = s.isAbr := by
  refine beforeSummaries_preserves (P := fun t => t.isAbr = s.isAbr) ?_ ?_ ?_ idx nbrId lsas now rfl
  · exact fun hrest ht => hrest.isAbr.trans ht
  · exact fun hstage ht => hstage.steady.isAbr.trans ht
  · exact fun hread ht => (isAbr_congr hread.links).trans ht

/-- The link of a router in area 1. -/
def areaLink : Link where
  ifindex := 2
  addr := 0x0a000101
  maskLen := 24
  area := 1
  isPassive := false

/-- A Hello that reaches the router on the link in the backbone. -/
def firstHello : Event := .packet 1 0x0a000002 ⟨⟨2, 0⟩, .hello
  { networkMask := lenToMask 24
    helloInterval := 10
    options := optE
    routerPriority := 1
    deadInterval := 40
    designatedRouter := 0
    backupDesignatedRouter := 0
    neighbors := [] }⟩ 0

/-- The Router-LSA of a neighbour that has no links yet. -/
def neighborRouterLsa : Lsa where
  header :=
    { lsAge := 0
      options := optE
      lsType := .router
      linkStateId := 2
      advertisingRouter := 2
      lsSeq := initialSequenceNumber
      lsChecksum := 0
      length := 0 }
  body := .router ⟨0, []⟩

/-- An area border router that heard of a neighbour in the backbone. -/
def helloed : Ospf := [firstHello].foldl step (start (.default 1 .pointToPoint) [backboneLink, areaLink] ∅)

/-- Its state when it has looked at the neighbour's Router-LSA. -/
def told : Ospf := helloed.beforeSummaries 0 2 [neighborRouterLsa] 0

end Ospf
end Wren.Daemon
