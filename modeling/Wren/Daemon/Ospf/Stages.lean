import Wren.Daemon.Ospf.Negotiation
import Wren.Daemon.Ospf.Passes
import Wren.Daemon.Ospf.Process

/-! What the task does to its databases, stage by stage. Most of what happens to it leaves them alone. -/

namespace Wren.Ospf.NeighborState

/-- Only the end of the exchange, or of loading, brings an adjacency up, and it does so once. -/
theorem handle_adjacencyUp (st : NeighborState) (ev : NeighborEvent) (ctx : NeighborContext) :
    (st.handle ev ctx).2 = [.adjacencyUp] ∧ (ev = .exchangeDone ∨ ev = .loadingDone) ∨
      .adjacencyUp ∉ (st.handle ev ctx).2 := by
  obtain ⟨ok, none⟩ := ctx
  cases ev <;> cases st <;> cases ok <;> cases none <;> decide

end Wren.Ospf.NeighborState

namespace Wren.Daemon
open Wren.Core Wren.Ospf OrdMap

namespace Ospf

/-- The AS-external LSAs of what is redistributed. -/
def originateAsExternals (s : Ospf) : Ospf :=
  s.externalPass (s.externalLsas .asExternal optE)
    (s.originatedExternals.filter (· ∉ keySet (s.externalLsas .asExternal optE)))
    fun t => { t with originatedExternals := keySet (s.externalLsas .asExternal optE) }

/-- A stage in which LSAs are originated. Some are for area border routers only. -/
inductive Stage : Ospf → Ospf → Prop
  | routers (s : Ospf) : Stage s (s.areas.keys.foldl reoriginateInto s)
  | externals (s : Ospf) : Stage s s.originateAsExternals
  | nssa (s : Ospf) : Stage s s.originateNssa
  | summaries (s : Ospf) : s.isAbr = true → Stage s (s.areas.keys.foldl (originateSummariesInto s.wantSummaries) s)
  | nssaDefault (s : Ospf) : s.isAbr = true → Stage s s.originateNssaDefault
  | translated (s : Ospf) : s.isAbr = true → Stage s s.translateNssa

/-- At most `n` stages, and between them things that the databases do not notice. -/
inductive Stages : ℕ → Ospf → Ospf → Prop
  | rest {n : ℕ} {s t : Ospf} : SameCore s t → Stages n s t
  | stage {n : ℕ} {s t u v : Ospf} : Stages n s t → Stage t u → SameCore u v → Stages (n + 1) s v

namespace Stages
variable {n m : ℕ} {s t u : Ospf}

theorem refl (n : ℕ) (s : Ospf) : Stages n s s := .rest (.refl s)

theorem one (h : Stage s t) : Stages 1 s t := .stage (.refl 0 s) h (.refl t)

theorem andRest (h : Stages n s t) (hrest : SameCore t u) : Stages n s u := by
  cases h with
  | rest hfirst => exact .rest (hfirst.trans hrest)
  | stage hbefore hstage hafter => exact .stage hbefore hstage (hafter.trans hrest)

theorem mono (h : Stages n s t) (hnm : n ≤ m) : Stages m s t := by
  induction h generalizing m with
  | rest hrest => exact .rest hrest
  | stage hbefore hstage hafter ih =>
    obtain ⟨k, rfl⟩ : ∃ k, m = k + 1 := ⟨m - 1, by omega⟩
    exact .stage (ih (by omega)) hstage hafter

theorem trans (h : Stages n s t) (h' : Stages m t u) : Stages (n + m) s u := by
  induction h' with
  | rest hrest => exact (h.andRest hrest).mono (Nat.le_add_right n _)
  | stage _ hstage hafter ih => exact .stage (ih h) hstage hafter

/-- What every stage and every rest preserves is preserved. -/
theorem preserves {P : Ospf → Prop} (hrest : ∀ {s t}, SameCore s t → P s → P t) (hstage : ∀ {s t}, Stage s t → P s → P t)
    (h : Stages n s t) (hs : P s) : P t := by
  induction h with
  | rest hsame => exact hrest hsame hs
  | stage _ hst hsame ih => exact hrest hsame (hstage hst (ih hs))

end Stages

theorem SameCore.isAsbr {s t : Ospf} (h : SameCore s t) : t.isAsbr = s.isAsbr := by
  unfold Ospf.isAsbr
  rw [h.externals]

theorem SameCore.areaLsdb {s t : Ospf} (h : SameCore s t) (area : Ipv4Addr) : t.areaLsdb area = s.areaLsdb area := by
  unfold Ospf.areaLsdb
  rw [h.areas]

/-! ### What a stage leaves alone -/

/-- The configuration, the links, the set of areas and what is redistributed. -/
structure Steady (s t : Ospf) : Prop where
  cfg : t.cfg = s.cfg
  links : t.ifaces.map Iface.toLink = s.ifaces.map Iface.toLink
  externals : t.externals = s.externals
  keys : t.areas.keys = s.areas.keys

namespace Steady
variable {s t u : Ospf}

theorem refl (s : Ospf) : Steady s s := ⟨rfl, rfl, rfl, rfl⟩

theorem trans (h : Steady s t) (h' : Steady t u) : Steady s u where
  cfg := h'.cfg.trans h.cfg
  links := h'.links.trans h.links
  externals := h'.externals.trans h.externals
  keys := h'.keys.trans h.keys

theorem of_sameCore (h : SameCore s t) : Steady s t := ⟨h.cfg, h.links, h.externals, by rw [h.areas]⟩

theorem foldl {α : Type} {f : Ospf → α → Ospf} (l : List α) (h : ∀ a ∈ l, ∀ s, Steady s (f s a)) (s : Ospf) :
    Steady s (l.foldl f s) := by
  induction l generalizing s with
  | nil => exact refl s
  | cons a l ih => exact (h a List.mem_cons_self s).trans (ih (fun b hb => h b (List.mem_cons_of_mem a hb)) _)

theorem areaPass (s : Ospf) (area : Ipv4Addr) (lsas : List Lsa) (retired : List LsaKey) (note : Area → Area) :
    Steady s (s.areaPass area lsas retired note) := by
  have hdb : Steady s
      { s with
        lsaSeqs := (Pass.run area ⟨s.areaLsdb area, s.lsaSeqs, []⟩ lsas retired).seqs
        areas := s.areas.modify area fun a =>
          note { a with lsdb := (Pass.run area ⟨s.areaLsdb area, s.lsaSeqs, []⟩ lsas retired).lsdb } } :=
    ⟨rfl, rfl, rfl, keys_modify s.areas area _⟩
  exact hdb.trans (of_sameCore (sameCore_areaPass s area lsas retired note))

theorem externalPass (s : Ospf) (lsas : List Lsa) (retired : List LsaKey) {note : Ospf → Ospf}
    (hnote : ∀ s, Steady s (note s)) : Steady s (s.externalPass lsas retired note) := by
  have hdb : Steady s { s with
      lsaSeqs := (Pass.run asScope ⟨s.externalLsdb, s.lsaSeqs, []⟩ lsas retired).seqs
      externalLsdb := (Pass.run asScope ⟨s.externalLsdb, s.lsaSeqs, []⟩ lsas retired).lsdb } := ⟨rfl, rfl, rfl, rfl⟩
  exact (hdb.trans (hnote _)).trans (of_sameCore (sameCore_externalPass s lsas retired note))

theorem isAbr (h : Steady s t) : t.isAbr = s.isAbr := isAbr_congr h.links

theorem isAsbr (h : Steady s t) : t.isAsbr = s.isAsbr := by
  unfold Ospf.isAsbr
  rw [h.externals]

end Steady

theorem Steady.reoriginateInto (s : Ospf) (area : Ipv4Addr) : Steady s (Ospf.reoriginateInto s area) := by
  simp only [Ospf.reoriginateInto]
  exact areaPass s area _ _ _

theorem Steady.originateNssaInto (s : Ospf) (area : Ipv4Addr) : Steady s (Ospf.originateNssaInto s area) := by
  simp only [Ospf.originateNssaInto]
  exact areaPass s area _ _ _

theorem Steady.originateSummariesInto (want : Ipv4Addr → BTreeMap Prefix UInt32) (s : Ospf) (dest : Ipv4Addr) :
    Steady s (Ospf.originateSummariesInto want s dest) := by
  simp only [Ospf.originateSummariesInto]
  exact areaPass s dest _ _ _

theorem Stage.steady {s t : Ospf} (h : Stage s t) : Steady s t := by
  cases h with
  | routers => exact Steady.foldl _ (fun area _ s => Steady.reoriginateInto s area) s
  | externals =>
    refine Steady.externalPass s _ _ ?_
    intro s
    exact ⟨rfl, rfl, rfl, rfl⟩
  | nssa => exact Steady.foldl _ (fun area _ s => Steady.originateNssaInto s area) s
  | summaries => exact Steady.foldl _ (fun area _ t => Steady.originateSummariesInto s.wantSummaries t area) s
  | nssaDefault =>
    refine Steady.foldl _ ?_ s
    intro area _ s
    exact Steady.areaPass s area _ _ _
  | translated =>
    simp only [translateNssa]
    refine Steady.externalPass s _ _ ?_
    intro s
    exact ⟨rfl, rfl, rfl, rfl⟩

theorem Stages.steady {n : ℕ} {s t : Ospf} (h : Stages n s t) : Steady s t := by
  refine h.preserves (P := Steady s) ?_ ?_ (.refl s)
  · intro u v hsame hu
    exact hu.trans (.of_sameCore hsame)
  · intro u v hstage hu
    exact hu.trans hstage.steady

/-! ### The stages of what the task does -/

/-- Originating externals makes no router an AS boundary router, and so the Router-LSAs are left alone. -/
theorem originateExternals_eq (s : Ospf) : s.originateExternals = s.originateAsExternals.originateNssa := by
  have hsteady := (Stage.externals s).steady.trans (Stage.nssa s.originateAsExternals).steady
  have heq : s.originateExternals = if s.originateAsExternals.originateNssa.isAsbr = s.isAsbr
      then s.originateAsExternals.originateNssa else s.originateAsExternals.originateNssa.reoriginateAndFlood := rfl
  rw [heq, if_pos hsteady.isAsbr]

namespace Stages
variable (s : Ospf)

theorem originateSummaries : Stages 3 s s.originateSummaries := by
  unfold Ospf.originateSummaries
  split
  next habr =>
    have hfirst := one (.summaries s habr)
    have habr' := hfirst.steady.isAbr.trans habr
    have hsecond := hfirst.trans (one (.nssaDefault _ habr'))
    exact hsecond.trans (one (.translated _ (hsecond.steady.isAbr.trans habr)))
  · exact refl 3 s

theorem reoriginateAndFlood : Stages 4 s s.reoriginateAndFlood :=
  (one (.routers s)).trans (originateSummaries _)

theorem originateExternals : Stages 2 s s.originateExternals := by
  rw [originateExternals_eq]
  exact (one (.externals s)).trans (one (.nssa _))

end Stages

/-! ### What does without stages -/

namespace SameCore
variable (s : Ospf) (idx : ℕ) (k : Ipv4Addr)

theorem startDdExchange : SameCore s (s.startDdExchange idx k) := by
  have hseq : SameCore s { s with nextDdSeq := s.nextDdSeq + 1 } := ⟨rfl, rfl, rfl, rfl, rfl, rfl, rfl, rfl⟩
  simp only [Ospf.startDdExchange]
  split
  · exact (hseq.trans (modifyNeighbor _ idx k _)).trans (send _ _ _ _)
  · exact hseq

theorem actAllOnNeighbor {acts : List NeighborAction} (h : .adjacencyUp ∉ acts) :
    SameCore s (s.actAllOnNeighbor idx k acts) := by
  refine foldl acts ?_ s
  intro act hact s
  cases act with
  | startDdExchange => exact startDdExchange s idx k
  | adjacencyUp => exact absurd hact h
  | clearAdjacency => exact modifyNeighbor s idx k _
  | _ => exact refl s

theorem driveNeighbor {ev : NeighborEvent} (hev : ev ≠ .exchangeDone ∧ ev ≠ .loadingDone) (ok : Bool) :
    SameCore s (s.driveNeighbor idx k ev ok) := by
  simp only [Ospf.driveNeighbor]
  split
  · exact refl s
  next n _ =>
    refine (modifyNeighbor s idx k _).trans (actAllOnNeighbor _ idx k ?_)
    rcases n.state.handle_adjacencyUp ev ⟨ok, n.requestList.isEmpty⟩ with ⟨-, hdone⟩ | hnot
    · exact absurd hdone (not_or.mpr hev)
    · exact hnot

theorem runInterfaceEvent (ev : InterfaceEvent) : SameCore s (s.runInterfaceEvent idx ev).1 := by
  simp only [Ospf.runInterfaceEvent]
  split
  · exact refl s
  · refine modifyIface s idx ?_
    intro i
    rfl

theorem reevalAdjacencies : SameCore s (s.reevalAdjacencies idx) := by
  simp only [Ospf.reevalAdjacencies]
  split
  · exact refl s
  · refine foldl _ ?_ s
    intro k _ s
    unfold reevalAdjacency
    split
    · exact refl s
    · exact driveNeighbor s idx k (by decide) _

theorem elect (ev : InterfaceEvent) : SameCore s (s.elect idx ev) := by
  simp only [Ospf.elect]
  split
  · exact (runInterfaceEvent s idx ev).trans (reevalAdjacencies _ idx)
  · exact runInterfaceEvent s idx ev

theorem handleHello (routerId src : Ipv4Addr) (h : Hello) (now : ℕ) :
    SameCore s (s.handleHello idx k routerId src h now) := by
  simp only [Ospf.handleHello]
  split
  · exact refl s
  next i _ =>
    split
    · exact refl s
    generalize s.heardNeighbor i k routerId src h now = n
    generalize hev : (if s.cfg.routerId ∈ h.neighbors then NeighborEvent.twoWayReceived else .oneWayReceived) = ev
    generalize hctx : (⟨adjacencyOk i k, n.requestList.isEmpty⟩ : NeighborContext) = ctx
    have hnot : .adjacencyUp ∉ (n.state.handle .helloReceived ctx).2 ++
        ((n.state.handle .helloReceived ctx).1.handle ev ctx).2 := by
      have hfirst := n.state.handle_adjacencyUp .helloReceived ctx
      have hsecond := (n.state.handle .helloReceived ctx).1.handle_adjacencyUp ev ctx
      have hev' : ev ≠ .exchangeDone ∧ ev ≠ .loadingDone := by
        rw [← hev]
        split <;> decide
      rw [List.mem_append]
      rintro (hup | hup)
      · simp_all
      · simp_all
    have hinsert : ∀ n : OspfNeighbor,
        SameCore s (s.modifyIface idx fun i => { i with neighbors := i.neighbors.insert k n }) := by
      intro n
      refine modifyIface s idx ?_
      intro i
      rfl
    have helected : ∀ (t : Ospf) (b b' : Prop) [Decidable b] [Decidable b'], SameCore t
        (if b then t.runInterfaceEvent idx .backupSeen
          else if b' then t.runInterfaceEvent idx .neighborChange else (t, false)).1 := by
      intro t b b' _ _
      split_ifs
      · exact runInterfaceEvent t idx _
      · exact runInterfaceEvent t idx _
      · exact refl t
    have hacted : ∀ (r : Ospf × Bool) (acts : List NeighborAction), .adjacencyUp ∉ acts → SameCore s r.1 → SameCore s
        (if r.2 then (r.1.actAllOnNeighbor idx k acts).reevalAdjacencies idx else r.1.actAllOnNeighbor idx k acts) := by
      intro r acts hacts hr
      split
      · exact (hr.trans (actAllOnNeighbor _ idx k hacts)).trans (reevalAdjacencies _ idx)
      · exact hr.trans (actAllOnNeighbor _ idx k hacts)
    exact hacted _ _ hnot ((hinsert _).trans (helected _ _ _))

theorem handleLsr (entries : List LsRequest) : SameCore s (s.handleLsr idx k entries) := by
  simp only [Ospf.handleLsr]
  split
  · split
    · exact refl s
    · exact send s _ _ _
  · exact refl s

theorem handleLsack (headers : List LsaHeader) : SameCore s (s.handleLsack idx k headers) :=
  modifyNeighbor s idx k _

theorem sendHellos : SameCore s s.sendHellos := ⟨rfl, rfl, rfl, rfl, rfl, rfl, rfl, rfl⟩

theorem sendAll (bodies : Iface → OspfNeighbor → List Body) : SameCore s (s.sendAll bodies) :=
  ⟨rfl, rfl, rfl, rfl, rfl, rfl, rfl, rfl⟩

theorem fireWaitTimers (now : ℕ) : SameCore s (s.fireWaitTimers now) := by
  refine foldl _ ?_ s
  intro idx _ s
  simp only [fireWaitTimer]
  split
  · exact refl s
  · split
    · refine (modifyIface s idx ?_).trans (elect _ idx _)
      intro i
      rfl
    · exact refl s

theorem removeNeighbors (gone : Ospf → Iface → List Ipv4Addr) : SameCore s (s.removeNeighbors gone).1 := by
  have hone : ∀ (idx : ℕ) (s : Ospf) (k : Ipv4Addr), SameCore s (removeNeighbor idx s k) := by
    intro idx s k
    refine (modifyIface s idx ?_).trans (elect _ idx _)
    intro i
    rfl
  unfold Ospf.removeNeighbors
  refine List.foldlRecOn (List.range s.ifaces.length) _ (motive := fun r : Ospf × Bool => SameCore s r.1) (refl s) ?_
  intro r hr idx _
  refine hr.trans ?_
  split
  · exact refl r.1
  · exact foldl _ (fun k _ s => hone idx s k) r.1

end SameCore

/-! ### The ways through the handlers -/

/-- A relation, with a number of stages, that covers what the handlers do between states. -/
structure Walk (P : ℕ → Ospf → Ospf → Prop) : Prop where
  rest : ∀ {s t : Ospf}, SameCore s t → P 0 s t
  mono : ∀ {n m : ℕ} {s t : Ospf}, P n s t → n ≤ m → P m s t
  trans : ∀ {n m : ℕ} {s t u : Ospf}, P n s t → P m t u → P (n + m) s u
  externals : ∀ s : Ospf, P 2 s s.originateExternals
  reoriginate : ∀ s : Ospf, P 4 s s.reoriginateAndFlood
  summaries : ∀ s : Ospf, P 3 s s.originateSummaries

theorem Stages.walk : Walk Stages where
  rest := .rest
  mono := .mono
  trans := .trans
  externals := .originateExternals
  reoriginate := .reoriginateAndFlood
  summaries := .originateSummaries

namespace Walk
variable {P : ℕ → Ospf → Ospf → Prop} (w : Walk P) (s : Ospf) (idx : ℕ) (k : Ipv4Addr)
include w

theorem refl (n : ℕ) : P n s s := w.mono (w.rest (.refl s)) (Nat.zero_le n)

theorem rested {s t : Ospf} (h : SameCore s t) (n : ℕ) : P n s t := w.mono (w.rest h) (Nat.zero_le n)

theorem after {s t u : Ospf} {n : ℕ} (h : SameCore s t) (h' : P n t u) : P n s u := by
  have hboth := w.trans (w.rest h) h'
  rwa [Nat.zero_add] at hboth

theorem refresh : P 6 s s.refresh := w.trans (w.externals s) (w.reoriginate _)

theorem onAdjacencyFull : P 6 s s.onAdjacencyFull := by
  simp only [Ospf.onAdjacencyFull]
  refine w.trans (w.externals s) (w.after ?_ (w.reoriginate _))
  exact SameCore.foldl _ (fun lsa _ t => SameCore.floodOn t _ lsa 0) _

theorem actAllOnNeighbor {acts : List NeighborAction} (h : acts = [.adjacencyUp] ∨ .adjacencyUp ∉ acts) :
    P 6 s (s.actAllOnNeighbor idx k acts) := by
  rcases h with rfl | h
  · rw [Ospf.actAllOnNeighbor, List.foldl_cons, List.foldl_nil]
    exact w.onAdjacencyFull s
  · exact w.rested (.actAllOnNeighbor s idx k h) 6

theorem driveNeighbor (ev : NeighborEvent) (ok : Bool) : P 6 s (s.driveNeighbor idx k ev ok) := by
  simp only [Ospf.driveNeighbor]
  split
  · exact w.refl s 6
  next n _ =>
    have hacts := n.state.handle_adjacencyUp ev ⟨ok, n.requestList.isEmpty⟩
    exact w.after (.modifyNeighbor s idx k _) (w.actAllOnNeighbor _ idx k (hacts.imp And.left id))

theorem handleDd (dd : DatabaseDescription) : P 6 s (s.handleDd idx k dd) := by
  simp only [Ospf.handleDd]
  split
  next i n _ _ =>
    have hacts : ∀ o : DbExchange.Outcome LsaHeader LsaKey,
        DbExchange.Negotiated s.cfg.routerId k n.toAdjacency
          ⟨dd.interfaceMtu, dd.flags, dd.ddSequence, dd.lsaHeaders⟩ o →
        o.acts = [.adjacencyUp] ∨ .adjacencyUp ∉ o.acts := by
      intro o ho
      cases ho with
      | ignored _ _ h => simp [h]
      | slave _ _ _ _ _ h => simp [h]
      | master _ _ _ _ _ _ _ h => simp [h]
      | restarted _ _ _ h => simp [h]
      | driven _ _ _ _ h => rcases h with h | h <;> simp [h]
    refine w.after ?_ (w.actAllOnNeighbor _ idx k (hacts _ (DbExchange.negotiated_handleDd _ _ _ _)))
    refine (SameCore.modifyNeighbor s idx k _).trans (SameCore.foldl _ ?_ _)
    intro m _ t
    exact SameCore.send t _ _ _
  · exact w.refl s 6

theorem ageNeighbors (now : ℕ) : P 4 s (s.ageNeighbors now) := by
  simp only [Ospf.ageNeighbors]
  have hstop : SameCore s (s.stopHelping now) := ⟨rfl, rfl, rfl, rfl, rfl, rfl, rfl, rfl⟩
  have hgone := hstop.trans (.removeNeighbors _ fun s i => s.deadNeighbors i now)
  split
  · exact w.after hgone (w.reoriginate _)
  · exact w.rested hgone 4

theorem forceNeighborDown (peer : Ipv4Addr) : P 4 s (s.forceNeighborDown peer) := by
  simp only [Ospf.forceNeighborDown]
  have hgone := SameCore.removeNeighbors s fun s i => s.neighborAt peer i
  split
  · exact w.after hgone (w.reoriginate _)
  · exact w.rested hgone 4

end Walk

/-! ### Link State Updates -/

/-- Where the sequence numbers of an LSA are kept. -/
def scopeOf (area : Ipv4Addr) (lsa : Lsa) : Ipv4Addr := if lsa.header.lsType = .asExternal then asScope else area

/-- The LSA is more recent than what the database holds of it, if anything. -/
def Newer (s : Ospf) (area : Ipv4Addr) (lsa : Lsa) : Prop :=
  ∀ l, (s.lsdbFor area lsa.header.lsType).get lsa.key = some l → lsa.header.compareRecency l.header = .gt

/-- What looking at an LSA of an update does to the databases: nothing, unless it is more recent than what they hold.
Then it is installed, or the next instance of an own LSA is to follow it. -/
inductive Read (area : Ipv4Addr) (now : ℕ) (u : Update) (lsa : Lsa) (v : Update) : Prop
  | rest : SameCore u.s v.s → v.installed = u.installed → v.reclaimSelf = u.reclaimSelf → Read area now u lsa v
  | reclaim (t : Ospf) : SameCore u.s t → lsa.header.advertisingRouter = u.s.cfg.routerId → Newer u.s area lsa →
    v.s = (t.reclaim (scopeOf area lsa) lsa).1 → (u.installed = true → v.installed = true) → Read area now u lsa v
  | foreign (t : Ospf) : SameCore u.s t → lsa.header.advertisingRouter ≠ u.s.cfg.routerId → Newer u.s area lsa →
    ¬ lsa.header.lsType.isOpaque → ¬ (lsa.header.lsType = .asExternal ∧ u.s.cfg.noExternals area = true) →
    v.s = t.installForeign (scopeOf area lsa) area now lsa → v.installed = true → v.reclaimSelf = u.reclaimSelf →
    Read area now u lsa v

theorem Read.links {area : Ipv4Addr} {now : ℕ} {u v : Update} {lsa : Lsa} (h : Read area now u lsa v) :
    v.s.ifaces.map Iface.toLink = u.s.ifaces.map Iface.toLink := by
  cases h with
  | rest hsame => exact hsame.links
  | reclaim t hsame _ _ heq =>
    have hreclaim : (t.reclaim (scopeOf area lsa) lsa).1.ifaces.map Iface.toLink = t.ifaces.map Iface.toLink := by
      simp only [Ospf.reclaim]
      split
      · exact (SameCore.floodOn _ _ _ _).links
      · rfl
    rw [heq]
    exact hreclaim.trans hsame.links
  | foreign t hsame _ _ _ _ heq =>
    have hinstall : (t.installForeign (scopeOf area lsa) area now lsa).ifaces = t.ifaces := by
      simp only [Ospf.installForeign]
      split <;> rfl
    rw [heq, hinstall]
    exact hsame.links

theorem newer_of_install {s : Ospf} {area : Ipv4Addr} {lsa : Lsa} {input : FloodInput} {b : Bool}
    (h : decideFlood (s.lsdbFor area lsa.header.lsType) lsa input = .install b) : Newer s area lsa := by
  intro l hl
  have hheader : (s.lsdbFor area lsa.header.lsType).header lsa.key = some l.header := by
    rw [Lsdb.header, hl, Option.map_some]
  simp only [decideFlood, hheader, reduceCtorEq, false_and, and_false, if_false] at h
  cases hcmp : lsa.header.compareRecency l.header with
  | gt => rfl
  | eq =>
    rw [hcmp] at h
    split_ifs at h
  | lt =>
    rw [hcmp] at h
    split_ifs at h

theorem read_handleLsa (idx : ℕ) (k area : Ipv4Addr) (now : ℕ) (u : Update) (lsa : Lsa) :
    Read area now u lsa (u.handleLsa idx k area now lsa) := by
  unfold Update.handleLsa
  split
  · refine .rest ?_ rfl rfl
    dsimp only
    split
    · unfold handleGraceLsa
      split <;> try exact .refl _
      split
      · exact .refl _
      · split
        · exact ⟨rfl, rfl, rfl, rfl, rfl, rfl, rfl, rfl⟩
        · split
          · exact .refl _
          · exact ⟨rfl, rfl, rfl, rfl, rfl, rfl, rfl, rfl⟩
    · exact .refl _
  next hop =>
    split
    · exact .rest (.refl _) rfl rfl
    next hext =>
      split
      next b hdecision =>
        have hdrop : SameCore u.s (u.s.dropFromRequestLists lsa.key) := by
          refine SameCore.of_ifaces ?_
          rw [List.map_map]
          rfl
        have hnewer := newer_of_install hdecision
        unfold Update.takeLsa
        dsimp only
        by_cases hself : lsa.header.advertisingRouter = u.s.cfg.routerId
        · rw [if_pos (by exact hself)]
          refine .reclaim (u.s.dropFromRequestLists lsa.key) hdrop hself hnewer ?_ ?_
          · dsimp only [scopeOf]
            generalize (u.s.dropFromRequestLists lsa.key).reclaim _ lsa = r
            split <;> rfl
          · generalize (u.s.dropFromRequestLists lsa.key).reclaim _ lsa = r
            intro h
            split
            · rfl
            · exact h
        · rw [if_neg (by exact hself)]
          exact .foreign _ hdrop hself hnewer hop hext rfl rfl rfl
      all_goals exact .rest (.refl _) rfl rfl

/-- What holds before an update and through every LSA of it holds when they have been looked at. -/
theorem readLsas_invariant {P : Update → Prop} (s : Ospf) (idx : ℕ) (k area : Ipv4Addr) (lsas : List Lsa) (now : ℕ)
    (hnew : P (.new s)) (hstep : ∀ u v, ∀ lsa ∈ lsas, Read area now u lsa v → P u → P v) :
    P (s.readLsas idx k area lsas now) := by
  unfold readLsas
  generalize Update.new s = u at hnew
  induction lsas generalizing u with
  | nil => exact hnew
  | cons lsa lsas ih =>
    refine ih (fun u v l hl => hstep u v l (List.mem_cons_of_mem lsa hl)) _ ?_
    exact hstep _ _ lsa List.mem_cons_self (read_handleLsa idx k area now u lsa) hnew

/-- An update is handled, but for the summaries. -/
def beforeSummaries (s : Ospf) (idx : ℕ) (nbrId : Ipv4Addr) (lsas : List Lsa) (now : ℕ) : Ospf :=
  match s.iface? idx, s.neighbor? idx nbrId with
  | some i, some n =>
    let u := s.readLsas idx nbrId i.area lsas now
    if u.badLsReq then u.s.driveNeighbor idx nbrId .badLsReq false
    else
      let s := (u.answer i idx nbrId n.addr).reflood i.area n.addr u
      let s := if u.reclaimSelf then s.originateExternals.reoriginateAndFlood else s
      s.finishLoading idx nbrId
  | _, _ => s

/-- Something of the update was installed, and all of it was read. -/
def summarises (s : Ospf) (idx : ℕ) (nbrId : Ipv4Addr) (lsas : List Lsa) (now : ℕ) : Bool :=
  match s.iface? idx, s.neighbor? idx nbrId with
  | some i, some _ =>
    let u := s.readLsas idx nbrId i.area lsas now
    !u.badLsReq && u.installed
  | _, _ => false

theorem handleLsu_eq (s : Ospf) (idx : ℕ) (nbrId : Ipv4Addr) (lsas : List Lsa) (now : ℕ) :
    s.handleLsu idx nbrId lsas now =
      if s.summarises idx nbrId lsas now then (s.beforeSummaries idx nbrId lsas now).originateSummaries
      else s.beforeSummaries idx nbrId lsas now := by
  unfold handleLsu summarises beforeSummaries
  cases s.iface? idx with
  | none => rfl
  | some i =>
    cases s.neighbor? idx nbrId with
    | none => rfl
    | some n =>
      dsimp only
      by_cases hbad : (s.readLsas idx nbrId i.area lsas now).badLsReq = true
      · simp only [hbad, Bool.not_true, Bool.false_and, Bool.false_eq_true, if_true, if_false]
      · simp only [hbad, Bool.not_false, Bool.true_and, Bool.false_eq_true, if_false]

theorem SameCore.answer (u : Update) (i : Iface) (idx : ℕ) (k src : Ipv4Addr) : SameCore u.s (u.answer i idx k src) := by
  have hsend : SameCore u.s (if (u.sendBack.filterMap fun k => (u.s.lsdbFor i.area k.1).get k).isEmpty then u.s
      else u.s.send i src (.linkStateUpdate (u.sendBack.filterMap fun k => (u.s.lsdbFor i.area k.1).get k))) := by
    split
    · exact refl _
    · exact send _ _ _ _
  simp only [Update.answer]
  split
  · exact hsend.trans (modifyNeighbor _ idx k _)
  · exact (hsend.trans (modifyNeighbor _ idx k _)).trans (send _ _ _ _)

theorem SameCore.reflood (s : Ospf) (area src : Ipv4Addr) (u : Update) : SameCore s (s.reflood area src u) :=
  (foldl u.refloodArea (fun lsa _ s => floodOn s _ lsa src) s).trans
    (foldl u.refloodExt (fun lsa _ s => floodOn s _ lsa src) _)

/-- Between the LSAs of an update and the summaries own LSAs may be originated, and an adjacency may come up. -/
theorem Walk.beforeSummaries {P : ℕ → Ospf → Ospf → Prop} (w : Walk P) {s : Ospf} {idx : ℕ} {nbrId : Ipv4Addr} {i : Iface}
    {n : OspfNeighbor} (hi : s.iface? idx = some i) (hn : s.neighbor? idx nbrId = some n) (lsas : List Lsa) (now : ℕ) :
    P 12 (s.readLsas idx nbrId i.area lsas now).s (s.beforeSummaries idx nbrId lsas now) := by
  simp only [Ospf.beforeSummaries, hi, hn]
  generalize s.readLsas idx nbrId i.area lsas now = u
  split
  · exact w.rested (.driveNeighbor u.s idx nbrId (by decide) false) 12
  · have hanswered := (SameCore.answer u i idx nbrId n.addr).trans (.reflood _ i.area n.addr u)
    have hown : P 6 u.s (if u.reclaimSelf then
        ((u.answer i idx nbrId n.addr).reflood i.area n.addr u).originateExternals.reoriginateAndFlood
        else (u.answer i idx nbrId n.addr).reflood i.area n.addr u) := by
      split
      · exact w.after hanswered (w.refresh _)
      · exact w.rested hanswered 6
    have hloaded : ∀ t : Ospf, P 6 t (t.finishLoading idx nbrId) := by
      intro t
      unfold finishLoading
      split
      · exact w.driveNeighbor t idx nbrId _ _
      · exact w.refl t 6
    exact w.trans hown (hloaded _)

/-! ### Steps -/

theorem beforeSummaries_preserves {P : Ospf → Prop} (hrest : ∀ {s t}, SameCore s t → P s → P t)
    (hstage : ∀ {s t}, Stage s t → P s → P t) (hread : ∀ {area now u lsa v}, Read area now u lsa v → P u.s → P v.s)
    {s : Ospf} (idx : ℕ) (nbrId : Ipv4Addr) (lsas : List Lsa) (now : ℕ) (hs : P s) :
    P (s.beforeSummaries idx nbrId lsas now) := by
  cases hn : s.neighbor? idx nbrId with
  | none =>
    unfold beforeSummaries
    rw [hn]
    cases s.iface? idx <;> exact hs
  | some n =>
    obtain ⟨i, hi, -⟩ := Option.bind_eq_some_iff.mp hn
    have hdone : P (s.readLsas idx nbrId i.area lsas now).s :=
      readLsas_invariant (P := fun u => P u.s) s idx nbrId i.area lsas now hs fun _ _ _ _ h hu => hread h hu
    exact (Stages.walk.beforeSummaries hi hn lsas now).preserves hrest hstage hdone

/-- What every stage preserves, every rest, every LSA looked at, getting older and another set of destinations, is
preserved by every step. -/
theorem step_preserves {P : Ospf → Prop} (hrest : ∀ {s t}, SameCore s t → P s → P t)
    (hstage : ∀ {s t}, Stage s t → P s → P t)
    (hread : ∀ {area now u lsa v}, Read area now u lsa v → P u.s → P v.s) (hage : ∀ s secs, P s → P (s.ageLsdbs secs))
    (hset : ∀ {s : Ospf} (externals : BTreeMap Prefix UInt32), P s → P { s with externals }) (s : Ospf) (e : Event)
    (hs : P s) : P (step s e) := by
  have hstages : ∀ {n : ℕ} {s t : Ospf}, Stages n s t → P s → P t := fun h => h.preserves hrest hstage
  have hlsu : ∀ idx nbrId lsas now, P (s.handleLsu idx nbrId lsas now) := by
    intro idx nbrId lsas now
    have hbefore := beforeSummaries_preserves hrest hstage hread idx nbrId lsas now hs
    rw [handleLsu_eq]
    split
    · exact hstages (.originateSummaries _) hbefore
    · exact hbefore
  cases e with
  | packet ifindex src p now =>
    simp only [step]
    split
    · simp only [handlePacket]
      split
      · exact hs
      · split
        · exact hs
        · split
          · exact hs
          · split
            · exact hrest (.handleHello ..) hs
            · exact hstages (Stages.walk.handleDd ..) hs
            · exact hrest (.handleLsr ..) hs
            · exact hlsu ..
            · exact hrest (.handleLsack ..) hs
    · exact hs
  | inactivity now => exact hstages (Stages.walk.ageNeighbors s now) hs
  | wait now => exact hrest (.fireWaitTimers s now) hs
  | age secs => exact hage s secs hs
  | hello => exact hrest (.sendHellos s) hs
  | refresh => exact hstages (Stages.walk.refresh s) hs
  | initRxmt => exact hrest (.sendAll s _) hs
  | rxmt => exact hrest (.sendAll s _) hs
  | redistribute r =>
    simp only [step, applyRedistribution]
    split
    · exact hs
    next externals _ =>
      refine hstages (.originateExternals _) ?_
      split
      · exact hset externals hs
      · exact hstages (.reoriginateAndFlood _) (hset externals hs)
  | bfdDown peer => exact hstages (Stages.walk.forceNeighborDown s peer) hs

end Ospf
end Wren.Daemon
