import Wren.Daemon.Ospf.Process

/-! What a neighbour keeps while other things happen. A view shows a part of every neighbour; most of what the task
does leaves most views as they were. -/

namespace Wren.Daemon
open Std (ExtTreeMap)
open Wren.Core Wren.Ospf OrdMap

namespace Ospf

/-- Who a neighbour is, where it is, and when it was heard last. -/
structure Face where
  routerId : Ipv4Addr
  addr : Ipv4Addr
  lastSeen : ℕ
deriving DecidableEq

namespace OspfNeighbor

def face (n : OspfNeighbor) : Face := ⟨n.routerId, n.addr, n.lastSeen⟩

/-- The neighbour, and how far the adjacency with it has come. -/
def mark (n : OspfNeighbor) : Face × NeighborState := (n.face, n.state)

end OspfNeighbor

variable {β : Type} {π : OspfNeighbor → β}

def Iface.views (π : OspfNeighbor → β) (i : Iface) : BTreeMap Ipv4Addr β := i.neighbors.map fun _ n => π n

theorem Iface.views_modifyNeighbor {i : Iface} {k : Ipv4Addr} {f : OspfNeighbor → OspfNeighbor}
    (hf : ∀ n, π (f n) = π n) : (i.modifyNeighbor k f).views π = i.views π := by
  refine ExtTreeMap.ext_getElem? ?_
  intro a
  simp only [views, modifyNeighbor, ExtTreeMap.getElem?_map, getElem?_modify]
  split_ifs
  · cases i.neighbors[a]? with
    | none => rfl
    | some n => exact congrArg some (hf n)
  · rfl

theorem Iface.views_mapNeighbors {i : Iface} {f : OspfNeighbor → OspfNeighbor} (hf : ∀ n, π (f n) = π n) :
    (i.mapNeighbors f).views π = i.views π := by
  refine ExtTreeMap.ext_getElem? ?_
  intro a
  simp only [views, mapNeighbors, ExtTreeMap.getElem?_map]
  cases i.neighbors[a]? with
  | none => rfl
  | some n => exact congrArg some (hf n)

theorem map_neighbor? (s : Ospf) (π : OspfNeighbor → β) (idx : ℕ) (k : Ipv4Addr) :
    (s.neighbor? idx k).map π = ((s.iface? idx).map (Iface.views π)).bind (·[k]?) := by
  unfold neighbor?
  cases s.iface? idx with
  | none => rfl
  | some i => simp only [Option.bind_some, Option.map_some, Iface.views, ExtTreeMap.getElem?_map]

/-- The view of every neighbour is as before, and who is helped. -/
structure Kept (π : OspfNeighbor → β) (s t : Ospf) : Prop where
  cfg : t.cfg = s.cfg
  helping : t.helping = s.helping
  views : ∀ idx, (t.iface? idx).map (Iface.views π) = (s.iface? idx).map (Iface.views π)

namespace Kept

theorem refl (s : Ospf) : Kept π s s := ⟨rfl, rfl, fun _ => rfl⟩

theorem trans {s t u : Ospf} (h : Kept π s t) (h' : Kept π t u) : Kept π s u where
  cfg := h'.cfg.trans h.cfg
  helping := h'.helping.trans h.helping
  views idx := (h'.views idx).trans (h.views idx)

theorem foldl {α : Type} {f : Ospf → α → Ospf} (l : List α) (h : ∀ a ∈ l, ∀ s, Kept π s (f s a)) (s : Ospf) :
    Kept π s (l.foldl f s) := by
  induction l generalizing s with
  | nil => exact refl s
  | cons a l ih => exact (h a List.mem_cons_self s).trans (ih (fun b hb => h b (List.mem_cons_of_mem a hb)) _)

theorem neighbor {s t : Ospf} (h : Kept π s t) (idx : ℕ) (k : Ipv4Addr) :
    (t.neighbor? idx k).map π = (s.neighbor? idx k).map π := by
  rw [map_neighbor?, map_neighbor?, h.views idx]

theorem modifyIface (s : Ospf) (idx : ℕ) {f : Iface → Iface} (hf : ∀ i, (f i).views π = i.views π) :
    Kept π s (s.modifyIface idx f) := by
  refine ⟨rfl, rfl, ?_⟩
  intro j
  simp only [iface?, Ospf.modifyIface, List.getElem?_modify]
  cases s.ifaces[j]? with
  | none => rfl
  | some i =>
    simp only [Option.map_some]
    split_ifs
    · exact congrArg some (hf i)
    · rfl

theorem mapIfaces (s : Ospf) {f : Iface → Iface} (hf : ∀ i, (f i).views π = i.views π) :
    Kept π s { s with ifaces := s.ifaces.map f } := by
  refine ⟨rfl, rfl, ?_⟩
  intro j
  simp only [iface?, List.getElem?_map, Option.map_map]
  cases s.ifaces[j]? with
  | none => rfl
  | some i => exact congrArg some (hf i)

theorem modifyNeighbor (s : Ospf) (idx : ℕ) (k : Ipv4Addr) {f : OspfNeighbor → OspfNeighbor}
    (hf : ∀ n, π (f n) = π n) : Kept π s (s.modifyNeighbor idx k f) :=
  modifyIface s idx fun _ => Iface.views_modifyNeighbor hf

theorem send (s : Ospf) (i : Iface) (dst : Ipv4Addr) (body : Body) : Kept π s (s.send i dst body) :=
  ⟨rfl, rfl, fun _ => rfl⟩

section Origination
variable (hlist : ∀ (n : OspfNeighbor) (m : BTreeMap LsaKey Lsa), π { n with retransmitList := m } = π n)
include hlist

theorem floodOn (s : Ospf) (on : Iface → Bool) (lsa : Lsa) (except : Ipv4Addr) :
    Kept π s (s.floodOn on lsa except) := by
  have hflooded : ∀ i : Iface, (if on i then i.retransmit lsa except else i).views π = i.views π := by
    intro i
    split
    · refine Iface.views_mapNeighbors ?_
      intro n
      split
      · exact hlist n _
      · rfl
    · rfl
  exact ⟨rfl, rfl, (mapIfaces s hflooded).views⟩

theorem floodAll (s : Ospf) (lsas : List Lsa) (on : Iface → Bool) :
    Kept π s (lsas.foldl (fun s lsa => s.floodOn on lsa 0) s) :=
  foldl lsas (fun lsa _ s => floodOn hlist s on lsa 0) s

theorem areaPass (s : Ospf) (area : Ipv4Addr) (lsas : List Lsa) (retired : List LsaKey) (note : Area → Area) :
    Kept π s (s.areaPass area lsas retired note) := by
  have hdb : Kept π s
      { s with
        lsaSeqs := (Pass.run area ⟨s.areaLsdb area, s.lsaSeqs, []⟩ lsas retired).seqs
        areas := s.areas.modify area fun a =>
          note { a with lsdb := (Pass.run area ⟨s.areaLsdb area, s.lsaSeqs, []⟩ lsas retired).lsdb } } :=
    ⟨rfl, rfl, fun _ => rfl⟩
  exact hdb.trans (floodAll hlist _ _ _)

theorem externalPass (s : Ospf) (lsas : List Lsa) (retired : List LsaKey) {note : Ospf → Ospf}
    (hnote : ∀ s, Kept π s (note s)) : Kept π s (s.externalPass lsas retired note) := by
  have hdb : Kept π s
      { s with
        lsaSeqs := (Pass.run asScope ⟨s.externalLsdb, s.lsaSeqs, []⟩ lsas retired).seqs
        externalLsdb := (Pass.run asScope ⟨s.externalLsdb, s.lsaSeqs, []⟩ lsas retired).lsdb } :=
    ⟨rfl, rfl, fun _ => rfl⟩
  have hnoted := hdb.trans (hnote _)
  simp only [Ospf.externalPass]
  refine hnoted.trans (foldl _ ?_ _)
  intro lsa _ t
  exact floodOn hlist t _ lsa 0

theorem reoriginateInto (s : Ospf) (area : Ipv4Addr) : Kept π s (Ospf.reoriginateInto s area) := by
  simp only [Ospf.reoriginateInto]
  exact areaPass hlist s area _ _ _

theorem originateSummariesInto (want : Ipv4Addr → BTreeMap Prefix UInt32) (s : Ospf) (dest : Ipv4Addr) :
    Kept π s (Ospf.originateSummariesInto want s dest) := by
  simp only [Ospf.originateSummariesInto]
  exact areaPass hlist s dest _ _ _

theorem originateNssaInto (s : Ospf) (area : Ipv4Addr) : Kept π s (Ospf.originateNssaInto s area) := by
  simp only [Ospf.originateNssaInto]
  exact areaPass hlist s area _ _ _

theorem originateNssaDefault (s : Ospf) : Kept π s s.originateNssaDefault := by
  refine foldl _ ?_ s
  intro area _ s
  exact areaPass hlist s area _ _ _

theorem translateNssa (s : Ospf) : Kept π s s.translateNssa := by
  simp only [Ospf.translateNssa]
  refine externalPass hlist s _ _ ?_
  intro s
  exact ⟨rfl, rfl, fun _ => rfl⟩

theorem originateSummaries (s : Ospf) : Kept π s s.originateSummaries := by
  unfold Ospf.originateSummaries
  split
  · have hinto := foldl s.areas.keys (fun area _ s' => originateSummariesInto hlist s.wantSummaries s' area) s
    exact (hinto.trans (originateNssaDefault hlist _)).trans (translateNssa hlist _)
  · exact refl s

theorem reoriginateAndFlood (s : Ospf) : Kept π s s.reoriginateAndFlood := by
  have hinto := foldl s.areas.keys (fun area _ s' => reoriginateInto hlist s' area) s
  exact hinto.trans (originateSummaries hlist _)

theorem originateNssa (s : Ospf) : Kept π s s.originateNssa :=
  foldl s.nssaAreas (fun area _ s' => originateNssaInto hlist s' area) s

theorem originateExternals (s : Ospf) : Kept π s s.originateExternals := by
  simp only [Ospf.originateExternals]
  have hpass : Kept π s
      (s.externalPass (s.externalLsas .asExternal optE)
        (s.originatedExternals.filter (· ∉ keySet (s.externalLsas .asExternal optE)))
        fun t => { t with originatedExternals := keySet (s.externalLsas .asExternal optE) }) := by
    refine externalPass hlist s _ _ ?_
    intro s
    exact ⟨rfl, rfl, fun _ => rfl⟩
  have hnssa := hpass.trans (originateNssa hlist _)
  split
  · exact hnssa
  · exact hnssa.trans (reoriginateAndFlood hlist _)

theorem onAdjacencyFull (s : Ospf) : Kept π s s.onAdjacencyFull := by
  simp only [Ospf.onAdjacencyFull]
  refine ((originateExternals hlist s).trans ?_).trans (reoriginateAndFlood hlist _)
  refine foldl _ ?_ s.originateExternals
  intro lsa _ t
  exact floodOn hlist t _ lsa 0

theorem applyRedistribution (s : Ospf) (r : Redistribution) : Kept π s (s.applyRedistribution r) := by
  simp only [Ospf.applyRedistribution]
  split
  · exact refl s
  next externals _ =>
    have hset : Kept π s { s with externals } := ⟨rfl, rfl, fun _ => rfl⟩
    split
    · exact hset.trans (originateExternals hlist _)
    · exact (hset.trans (reoriginateAndFlood hlist _)).trans (originateExternals hlist _)

theorem refresh (s : Ospf) : Kept π s s.refresh := (originateExternals hlist s).trans (reoriginateAndFlood hlist _)

end Origination

/-! ### The face of a neighbour changes by its Hellos only -/

theorem startDdExchange (s : Ospf) (idx : ℕ) (k : Ipv4Addr) : Kept OspfNeighbor.face s (s.startDdExchange idx k) := by
  simp only [Ospf.startDdExchange]
  have hseq : Kept OspfNeighbor.face s { s with nextDdSeq := s.nextDdSeq + 1 } := ⟨rfl, rfl, fun _ => rfl⟩
  split
  · refine (hseq.trans ?_).trans (send _ _ _ _)
    refine modifyNeighbor _ idx k ?_
    intro n
    rfl
  · exact hseq

theorem actOnNeighbor (s : Ospf) (idx : ℕ) (k : Ipv4Addr) (act : NeighborAction) :
    Kept OspfNeighbor.face s (Ospf.actOnNeighbor idx k s act) := by
  cases act with
  | startDdExchange => exact startDdExchange s idx k
  | adjacencyUp => exact onAdjacencyFull (fun _ _ => rfl) s
  | clearAdjacency =>
    refine modifyNeighbor s idx k ?_
    intro n
    rfl
  | _ => exact refl s

theorem actAllOnNeighbor (s : Ospf) (idx : ℕ) (k : Ipv4Addr) (acts : List NeighborAction) :
    Kept OspfNeighbor.face s (s.actAllOnNeighbor idx k acts) :=
  foldl acts (fun act _ s' => actOnNeighbor s' idx k act) s

theorem driveNeighbor (s : Ospf) (idx : ℕ) (k : Ipv4Addr) (ev : NeighborEvent) (ok : Bool) :
    Kept OspfNeighbor.face s (s.driveNeighbor idx k ev ok) := by
  simp only [Ospf.driveNeighbor]
  split
  · exact refl s
  · refine Kept.trans ?_ (actAllOnNeighbor _ idx k _)
    refine modifyNeighbor s idx k ?_
    intro n
    rfl

/-- An election leaves every view. -/
theorem runInterfaceEvent (s : Ospf) (idx : ℕ) (ev : InterfaceEvent) : Kept π s (s.runInterfaceEvent idx ev).1 := by
  simp only [Ospf.runInterfaceEvent]
  split
  · exact refl s
  · refine modifyIface s idx ?_
    intro i
    rfl

theorem reevalAdjacencies (s : Ospf) (idx : ℕ) : Kept OspfNeighbor.face s (s.reevalAdjacencies idx) := by
  simp only [Ospf.reevalAdjacencies]
  split
  · exact refl s
  · refine foldl _ ?_ s
    intro k _ s
    unfold reevalAdjacency
    split
    · exact refl s
    · exact driveNeighbor s idx k _ _

theorem elect (s : Ospf) (idx : ℕ) (ev : InterfaceEvent) : Kept OspfNeighbor.face s (s.elect idx ev) := by
  simp only [Ospf.elect]
  split
  · exact (runInterfaceEvent s idx ev).trans (reevalAdjacencies _ idx)
  · exact runInterfaceEvent s idx ev

theorem handleDd (s : Ospf) (idx : ℕ) (k : Ipv4Addr) (dd : DatabaseDescription) :
    Kept OspfNeighbor.face s (s.handleDd idx k dd) := by
  simp only [Ospf.handleDd]
  split
  · refine Kept.trans (Kept.trans ?_ (foldl _ (fun m _ s' => send s' _ _ _) _)) (actAllOnNeighbor _ idx k _)
    refine modifyNeighbor s idx k ?_
    intro n
    rfl
  · exact refl s

theorem handleLsr (s : Ospf) (idx : ℕ) (k : Ipv4Addr) (entries : List LsRequest) :
    Kept π s (s.handleLsr idx k entries) := by
  simp only [Ospf.handleLsr]
  split
  · split
    · exact refl s
    · exact send s _ _ _
  · exact refl s

theorem handleLsack (s : Ospf) (idx : ℕ) (k : Ipv4Addr) (headers : List LsaHeader) :
    Kept OspfNeighbor.face s (s.handleLsack idx k headers) := by
  refine modifyNeighbor s idx k ?_
  intro n
  rfl

theorem fireWaitTimers (s : Ospf) (now : ℕ) : Kept OspfNeighbor.face s (s.fireWaitTimers now) := by
  refine foldl _ ?_ s
  intro idx _ s
  simp only [fireWaitTimer]
  split
  · exact refl s
  · split
    · refine Kept.trans ?_ (elect _ idx _)
      refine modifyIface s idx ?_
      intro i
      rfl
    · exact refl s

/-! ### Link State Updates -/

theorem takeLsa (area : Ipv4Addr) (now : ℕ) (u : Update) (lsa : Lsa) :
    Kept OspfNeighbor.mark u.s (u.takeLsa area now lsa).s := by
  have hdrop : Kept OspfNeighbor.mark u.s (u.s.dropFromRequestLists lsa.key) := by
    refine mapIfaces u.s ?_
    intro i
    refine Iface.views_mapNeighbors ?_
    intro n
    rfl
  have hreclaim : ∀ (s : Ospf) (scope : Ipv4Addr), Kept OspfNeighbor.mark s (s.reclaim scope lsa).1 := by
    intro s scope
    simp only [reclaim]
    split
    · refine Kept.trans ?_ (floodOn (fun _ _ => rfl) _ _ _ _)
      exact ⟨rfl, rfl, fun _ => rfl⟩
    · exact ⟨rfl, rfl, fun _ => rfl⟩
  have hforeign : ∀ (s : Ospf) (scope : Ipv4Addr), Kept OspfNeighbor.mark s (s.installForeign scope area now lsa) := by
    intro s scope
    simp only [installForeign]
    split <;> exact ⟨rfl, rfl, fun _ => rfl⟩
  simp only [Update.takeLsa]
  split
  · refine hdrop.trans ?_
    split
    all_goals
      split
      all_goals exact hreclaim _ _
  · exact hdrop.trans (hforeign _ _)

theorem afterLsas (hlist : ∀ (n : OspfNeighbor) (m : BTreeMap LsaKey Lsa), π { n with retransmitList := m } = π n)
    (u : Update) (i : Iface) (idx : ℕ) (k src : Ipv4Addr) :
    Kept π u.s ((u.answer i idx k src).reflood i.area src u) := by
  have hlisted : ∀ s : Ospf, Kept π s (s.modifyNeighbor idx k fun n =>
      { n with retransmitList := clearAckedLsas n.retransmitList u.impliedAcks }) := by
    intro s
    refine modifyNeighbor s idx k ?_
    intro n
    exact hlist n _
  have hanswer : Kept π u.s (u.answer i idx k src) := by
    have hsend : Kept π u.s (if (u.sendBack.filterMap fun k => (u.s.lsdbFor i.area k.1).get k).isEmpty
        then u.s
        else u.s.send i src (.linkStateUpdate (u.sendBack.filterMap fun k => (u.s.lsdbFor i.area k.1).get k))) := by
      split
      · exact refl _
      · exact send _ _ _ _
    simp only [Update.answer]
    split
    · exact hsend.trans (hlisted _)
    · exact (hsend.trans (hlisted _)).trans (send _ _ _ _)
  refine hanswer.trans (Kept.trans (foldl u.refloodArea ?_ _) (foldl u.refloodExt ?_ _))
  · intro lsa _ s
    exact floodOn hlist s _ lsa _
  · intro lsa _ s
    exact floodOn hlist s _ lsa _

theorem handleLsu (s : Ospf) (idx : ℕ) (k : Ipv4Addr) (lsas : List Lsa) (now : ℕ) {i : Iface} {n : OspfNeighbor}
    (hi : s.iface? idx = some i) (hn : s.neighbor? idx k = some n) :
    Kept OspfNeighbor.face (s.readLsas idx k i.area lsas now).s (s.handleLsu idx k lsas now) := by
  simp only [Ospf.handleLsu, hi, hn]
  split
  · exact driveNeighbor _ idx k _ _
  · have hafter := afterLsas (π := OspfNeighbor.face) (fun _ _ => rfl) (s.readLsas idx k i.area lsas now) i idx k n.addr
    have hown : ∀ t : Ospf, Kept OspfNeighbor.face t
        (if (s.readLsas idx k i.area lsas now).reclaimSelf then t.originateExternals.reoriginateAndFlood else t) := by
      intro t
      split
      · exact (originateExternals (fun _ _ => rfl) t).trans (reoriginateAndFlood (fun _ _ => rfl) _)
      · exact refl t
    have hloaded : ∀ t : Ospf, Kept OspfNeighbor.face t (t.finishLoading idx k) := by
      intro t
      unfold finishLoading
      split
      · exact driveNeighbor t idx k _ _
      · exact refl t
    have hall := (hafter.trans (hown _)).trans (hloaded _)
    split
    · exact hall.trans (originateSummaries (fun _ _ => rfl) _)
    · exact hall

end Kept
end Ospf
end Wren.Daemon
