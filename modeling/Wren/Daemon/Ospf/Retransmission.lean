import Wren.Daemon.Ospf.Passes
import Wren.Daemon.Ospf.Process
import Wren.Lib.Run

/-! What becomes of the LSAs that a neighbour has not acknowledged. -/

namespace Wren.Daemon
open Std (ExtTreeMap)
open Wren.Core Wren.Ospf OrdMap

namespace Ospf

/-! ### Withdrawal before a stop -/

/-- The own LSAs that are alive, aged out. -/
def shutdownLsas (routerId : Ipv4Addr) (lsas : List Lsa) : List Lsa :=
  (lsas.filter fun l => l.header.advertisingRouter = routerId ∧ l.header.lsAge < maxAge).map fun l => l.withAge maxAge

/-- Nothing else is waited for any more. -/
def withdrawSelfOriginated (s : Ospf) : Ospf :=
  let cleared := { s with ifaces := s.ifaces.map fun i => i.mapNeighbors fun n => { n with retransmitList := ∅ } }
  let s' := s.areas.toList.foldl (fun t e =>
    (shutdownLsas s.cfg.routerId e.2.lsdb.iter).foldl (fun t lsa => t.floodLsa e.1 lsa) t) cleared
  (shutdownLsas s.cfg.routerId s.externalLsdb.iter).foldl (fun t lsa => t.floodExternalExcept lsa 0) s'

/-! ### Events on the lists -/

/-- What concerns the lists of neighbours that stay Full. An acknowledgment may come as a packet or be implied. -/
inductive ListEvent where
  | flood (area : Ipv4Addr) (lsa : Lsa) (except : Ipv4Addr)
  | floodExternal (lsa : Lsa) (except : Ipv4Addr)
  | ack (idx : ℕ) (nbrId : Ipv4Addr) (headers : List LsaHeader)
  | withdraw
  | retransmit

def listStep (s : Ospf) : ListEvent → Ospf
  | .flood area lsa except => s.floodLsaExcept area lsa except
  | .floodExternal lsa except => s.floodExternalExcept lsa except
  | .ack idx nbrId headers => s.handleLsack idx nbrId headers
  | .withdraw => s.withdrawSelfOriginated
  | .retransmit => s.retransmitPending

/-- Put LSAs on the list of a neighbour, one after another. -/
def OspfNeighbor.put (n : OspfNeighbor) (ls : List Lsa) : OspfNeighbor :=
  { n with retransmitList := ls.foldl (fun m l => m.insert l.key l) n.retransmitList }

/-- A neighbour, and the link to it. -/
def entry (s : Ospf) (idx : ℕ) (nbrId : Ipv4Addr) : Option (Link × OspfNeighbor) :=
  (s.iface? idx).bind fun i => (i.neighbors[nbrId]?).map fun n => (i.toLink, n)

def pending (s : Ospf) (idx : ℕ) (nbrId : Ipv4Addr) (k : LsaKey) : Option Lsa :=
  (s.entry idx nbrId).bind fun e => e.2.retransmitList[k]?

/-- One instance is older than another one, as they are sent. -/
def Older (a b : Lsa) : Prop := a.stamp.header.compareRecency b.stamp.header = .lt

theorem not_older_self (l : Lsa) : ¬ Older l l := by simp [Older]

/-- A header confirms an instance, or a more recent one. -/
def Confirms (h : LsaHeader) (k : LsaKey) (l : Lsa) : Prop := h.key = k ∧ h.compareRecency l.stamp.header ≠ .lt

/-- A step forgets no instance: it stays, gives way to one that is not older, or is confirmed. -/
def Faithful (s : Ospf) (ev : ListEvent) : Prop :=
  ∀ idx nbrId e, s.entry idx nbrId = some e → e.2.isFull = true → ∀ k L, e.2.retransmitList[k]? = some L →
    (∃ L', (s.listStep ev).pending idx nbrId k = some L' ∧ ¬ Older L' L) ∨
      ∃ headers, ev = .ack idx nbrId headers ∧ ∃ h ∈ headers, Confirms h k L

/-- The own LSA that a database holds alive, as it is withdrawn. -/
def ownLive (routerId : Ipv4Addr) (db : Lsdb) (k : LsaKey) : Option Lsa :=
  ((db.get k).filter fun l => l.header.advertisingRouter = routerId ∧ l.header.lsAge < maxAge).map fun l =>
    l.withAge maxAge

/-- What a withdrawal sends of an LSA on a link. -/
def withdrawn (s : Ospf) (i : Link) (k : LsaKey) : Option Lsa :=
  (if s.cfg.noExternals i.area then none else ownLive s.cfg.routerId s.externalLsdb k).or
    (ownLive s.cfg.routerId (s.areaLsdb i.area) k)

/-- When a step forgets nothing, by what it is given and finds on the lists. -/
def Guard (s : Ospf) : ListEvent → Prop
  | .flood area lsa except => ∀ idx nbrId e, s.entry idx nbrId = some e → e.1.area = area → e.2.takes except = true →
      ∀ L ∈ e.2.retransmitList[lsa.key]?, ¬ Older lsa L
  | .floodExternal lsa except => ∀ idx nbrId e, s.entry idx nbrId = some e → s.cfg.noExternals e.1.area = false →
      e.2.takes except = true → ∀ L ∈ e.2.retransmitList[lsa.key]?, ¬ Older lsa L
  | .ack idx nbrId headers => ∀ e, s.entry idx nbrId = some e → e.2.isFull = true →
      ∀ k L, e.2.retransmitList[k]? = some L → (∃ h ∈ headers, h.key = k ∧ L.header.lsSeq ≤ h.lsSeq) →
        ∃ h ∈ headers, Confirms h k L
  | .withdraw => ∀ idx nbrId e, s.entry idx nbrId = some e → e.2.isFull = true →
      ∀ k L, e.2.retransmitList[k]? = some L → e.2.addr ≠ 0 ∧ ∃ l ∈ s.withdrawn e.1 k, ¬ Older l L
  | .retransmit => True

/-! ### The lists after a step -/

section Lists
variable {s : Ospf}

theorem entry_map (s : Ospf) {f : Iface → Iface} (hlink : ∀ i, (f i).toLink = i.toLink) {g : Link → OspfNeighbor → OspfNeighbor}
    (hnbr : ∀ (i : Iface) (k : Ipv4Addr), (f i).neighbors[k]? = (i.neighbors[k]?).map (g i.toLink)) (idx : ℕ) (nbrId : Ipv4Addr)
    {S : List Sent} :
    entry { s with ifaces := s.ifaces.map f, sent := S } idx nbrId = (s.entry idx nbrId).map fun e => (e.1, g e.1 e.2) := by
  unfold entry iface?
  rw [List.getElem?_map]
  cases s.ifaces[idx]? with
  | none => rfl
  | some i =>
    simp only [Option.map_some, Option.bind_some, hnbr, hlink, Option.map_map]
    rfl

theorem entry_floodOn (s : Ospf) (on : Link → Bool) (lsa : Lsa) (except : Ipv4Addr) (idx : ℕ) (nbrId : Ipv4Addr) :
    (s.floodOn (fun i => on i.toLink) lsa except).entry idx nbrId = (s.entry idx nbrId).map fun e =>
      (e.1, if on e.1 = true ∧ e.2.takes except = true then e.2.put [lsa] else e.2) := by
  let taken (l : Link) (n : OspfNeighbor) := if on l = true ∧ n.takes except = true then n.put [lsa] else n
  refine entry_map s (g := taken) ?_ ?_ idx nbrId
  · intro i
    split <;> rfl
  · intro i k
    by_cases hon : on i.toLink = true
    · simp only [hon, if_true, true_and, Iface.retransmit, Iface.mapNeighbors, ExtTreeMap.getElem?_map, taken]
      rfl
    · simp [hon, taken]

theorem pending_floodOn {on : Link → Bool} {lsa : Lsa} {except : Ipv4Addr} {idx : ℕ} {nbrId : Ipv4Addr}
    {e : Link × OspfNeighbor} (he : s.entry idx nbrId = some e) (k : LsaKey) :
    (s.floodOn (fun i => on i.toLink) lsa except).pending idx nbrId k =
      if on e.1 = true ∧ e.2.takes except = true ∧ k = lsa.key then some lsa else e.2.retransmitList[k]? := by
  rw [pending, entry_floodOn, he, Option.map_some, Option.bind_some]
  by_cases hon : on e.1 = true ∧ e.2.takes except = true
  · rw [if_pos hon, OspfNeighbor.put, List.foldl_cons, List.foldl_nil, getElem?_insert]
    simp only [hon, true_and]
  · rw [if_neg hon, if_neg (fun h => hon ⟨h.1, h.2.1⟩)]

theorem getElem?_foldl_insert (ls : List Lsa) (m : BTreeMap LsaKey Lsa) (k : LsaKey) :
    (ls.foldl (fun m l => m.insert l.key l) m)[k]? = ((ls.filter fun l => l.key = k).getLast?).or m[k]? := by
  induction ls generalizing m with
  | nil => rfl
  | cons a ls ih =>
    rw [List.foldl_cons, ih, getElem?_insert]
    by_cases hk : a.key = k
    · rw [List.filter_cons_of_pos (by simpa using hk), if_pos hk.symm, List.getLast?_cons]
      cases (ls.filter fun l => l.key = k).getLast? <;> rfl
    · rw [List.filter_cons_of_neg (by simpa using hk), if_neg (fun h => hk h.symm)]

/-- Several floods, one after another. -/
theorem entry_foldl_floodOn (fs : List ((Link → Bool) × Lsa)) (s : Ospf) (idx : ℕ) (nbrId : Ipv4Addr) :
    (fs.foldl (fun s f => s.floodOn (fun i => f.1 i.toLink) f.2 0) s).entry idx nbrId =
      (s.entry idx nbrId).map fun e =>
        (e.1, e.2.put ((fs.filter fun f => f.1 e.1 && e.2.takes 0).map Prod.snd)) := by
  induction fs generalizing s with
  | nil => simp [OspfNeighbor.put]
  | cons f fs ih =>
    rw [List.foldl_cons, ih, entry_floodOn, Option.map_map]
    congr 1
    funext e
    by_cases hon : f.1 e.1 = true ∧ e.2.takes 0 = true
    · have hpos : (f.1 e.1 && e.2.takes 0) = true := by simpa using hon
      simp only [Function.comp_apply, if_pos hon, List.filter_cons, hpos, if_true]
      rfl
    · have hneg : ¬ (f.1 e.1 && e.2.takes 0) = true := by simpa using hon
      simp only [Function.comp_apply, if_neg hon, List.filter_cons, hneg, Bool.false_eq_true, if_false]

theorem getElem?_clearAckedLsas (m : BTreeMap LsaKey Lsa) (headers : List LsaHeader) {k : LsaKey} {L : Lsa}
    (hL : m[k]? = some L) : (clearAckedLsas m headers)[k]? =
      if ∃ h ∈ headers, h.key = k ∧ L.header.lsSeq ≤ h.lsSeq then none else some L := by
  have hnone : ∀ (hs : List LsaHeader) (m : BTreeMap LsaKey Lsa), m[k]? = none → (clearAckedLsas m hs)[k]? = none := by
    intro hs
    induction hs with
    | nil => exact fun m hm => hm
    | cons h hs ih =>
      intro m hm
      refine ih _ ?_
      dsimp only
      split
      · split_ifs
        · rw [getElem?_erase, hm, ite_self]
        · exact hm
      · exact hm
  induction headers generalizing m with
  | nil => simpa [clearAckedLsas] using hL
  | cons h hs ih =>
    have hfirst : clearAckedLsas m (h :: hs) = clearAckedLsas (clearAckedLsas m [h]) hs := rfl
    rw [hfirst]
    by_cases hk : h.key = k
    · have hone : clearAckedLsas m [h] = if L.header.lsSeq ≤ h.lsSeq then m.erase k else m := by
        simp only [clearAckedLsas, List.foldl_cons, List.foldl_nil, hk, hL]
      rw [hone]
      by_cases hseq : L.header.lsSeq ≤ h.lsSeq
      · rw [if_pos hseq, if_pos ⟨h, List.mem_cons_self, hk, hseq⟩]
        refine hnone hs _ ?_
        rw [getElem?_erase, if_pos rfl]
      · rw [if_neg hseq, ih m hL]
        congr 1
        simp [hseq]
    · have hsame : (clearAckedLsas m [h])[k]? = some L := by
        simp only [clearAckedLsas, List.foldl_cons, List.foldl_nil]
        split
        · split_ifs
          · rw [getElem?_erase, if_neg (fun he => hk he.symm), hL]
          · exact hL
        · exact hL
      rw [ih _ hsame]
      congr 1
      simp [hk]

theorem entry_handleLsack (s : Ospf) (idx : ℕ) (nbrId : Ipv4Addr) (headers : List LsaHeader) (idx' : ℕ)
    (nbrId' : Ipv4Addr) : (s.handleLsack idx nbrId headers).entry idx' nbrId' = (s.entry idx' nbrId').map fun e =>
      if idx' = idx ∧ nbrId' = nbrId then
        (e.1, { e.2 with retransmitList := clearAckedLsas e.2.retransmitList headers }) else e := by
  simp only [entry, iface?, handleLsack, modifyNeighbor, modifyIface, List.getElem?_modify]
  cases s.ifaces[idx']? with
  | none => rfl
  | some i =>
    by_cases hidx : idx = idx'
    · subst hidx
      simp only [Option.map_eq_map, Option.map_some, if_true, Option.bind_some, Iface.modifyNeighbor, getElem?_modify,
        true_and, Option.map_map]
      by_cases hid : nbrId' = nbrId
      · simp only [hid, if_true, Option.map_map]
        rfl
      · simp only [hid, if_false]
        rfl
    · have hne : ¬ (idx' = idx ∧ nbrId' = nbrId) := fun h => hidx h.1.symm
      simp only [hidx, if_false, hne, Option.map_id']
      simp

/-! ### Withdrawal -/

theorem filter_shutdownLsas (routerId : Ipv4Addr) (db : Lsdb) (k : LsaKey) :
    (shutdownLsas routerId db.iter).filter (fun l => l.key = k) = (ownLive routerId db k).toList := by
  have hiter : db.iter.filter (fun l => l.key = k) = (db.get k).toList := by
    have hkeys : db.entries.toList.filter (fun e => e.2.key = k) = db.entries.toList.filter fun e => e.1 = k := by
      refine List.filter_congr ?_
      intro e he
      rw [db.key_eq e.1 e.2 (ExtTreeMap.mem_toList_iff_getElem?_eq_some.mp he)]
    rw [Lsdb.iter, List.filter_map, Function.comp_def, hkeys, filter_toList, Lsdb.get]
    cases db.entries[k]? <;> rfl
  have hcomm : (shutdownLsas routerId db.iter).filter (fun l => l.key = k) =
      ((db.iter.filter fun l => l.key = k).filter fun l =>
        l.header.advertisingRouter = routerId ∧ l.header.lsAge < maxAge).map fun l => l.withAge maxAge := by
    rw [shutdownLsas, List.filter_map, List.filter_filter, List.filter_filter]
    congr 1
    refine List.filter_congr ?_
    intro l _
    exact Bool.and_comm _ _
  rw [hcomm, hiter, ownLive]
  cases db.get k with
  | none => rfl
  | some l =>
    by_cases hl : l.header.advertisingRouter = routerId ∧ l.header.lsAge < maxAge
    · simp [hl, Option.filter]
    · simp [hl, Option.filter]

/-- A withdrawal is one flood after another, on lists that were emptied. -/
theorem withdrawSelfOriginated_eq (s : Ospf) : s.withdrawSelfOriginated =
    (((s.areas.toList.flatMap fun e => (shutdownLsas s.cfg.routerId e.2.lsdb.iter).map fun lsa =>
        ((fun i : Link => decide (i.area = e.1)), lsa)) ++
      (shutdownLsas s.cfg.routerId s.externalLsdb.iter).map fun lsa =>
        ((fun i : Link => !s.cfg.noExternals i.area), lsa)).foldl (fun t f => t.floodOn (fun i => f.1 i.toLink) f.2 0)
      { s with ifaces := s.ifaces.map fun i => i.mapNeighbors fun n => { n with retransmitList := ∅ } }) := by
  have hexternal : ∀ (ls : List Lsa) (t : Ospf), t.cfg = s.cfg →
      ls.foldl (fun t lsa => t.floodExternalExcept lsa 0) t =
        ls.foldl (fun t lsa => t.floodOn (fun i => !s.cfg.noExternals i.area) lsa 0) t := by
    intro ls
    induction ls with
    | nil => exact fun _ _ => rfl
    | cons a ls ih =>
      intro t ht
      rw [List.foldl_cons, List.foldl_cons, floodExternalExcept, ht]
      exact ih _ ht
  rw [List.foldl_append, List.foldl_flatMap]
  simp only [List.foldl_map]
  rw [withdrawSelfOriginated]
  refine hexternal _ _ ?_
  exact (SameCore.foldl (f := fun t (e : Ipv4Addr × Area) =>
    (shutdownLsas s.cfg.routerId e.2.lsdb.iter).foldl (fun t lsa => t.floodLsa e.1 lsa) t) s.areas.toList
    (fun e _ t => SameCore.foldl _ (fun lsa _ t => SameCore.floodOn t _ lsa 0) t) _).cfg

/-- Of the areas' LSAs those of the area of a link are sent on it. -/
theorem flatMap_areas (s : Ospf) (area : Ipv4Addr) (g : Lsdb → List Lsa) (hg : g .new = []) :
    s.areas.toList.flatMap (fun e => if area = e.1 then g e.2.lsdb else []) = g (s.areaLsdb area) := by
  have hfilter : ∀ l : List (Ipv4Addr × Area), l.flatMap (fun e => if area = e.1 then g e.2.lsdb else []) =
      (l.filter fun e => e.1 = area).flatMap fun e => g e.2.lsdb := by
    intro l
    induction l with
    | nil => rfl
    | cons e l ih =>
      rw [List.flatMap_cons, ih]
      by_cases he : e.1 = area
      · rw [List.filter_cons_of_pos (by simpa using he), List.flatMap_cons, if_pos he.symm]
      · rw [List.filter_cons_of_neg (by simpa using he), if_neg (fun h => he h.symm), List.nil_append]
  rw [hfilter, filter_toList, areaLsdb]
  cases s.areas[area]? with
  | none => simp [hg]
  | some a => simp

/-- What a withdrawal leaves on a list. -/
theorem pending_withdraw {idx : ℕ} {nbrId : Ipv4Addr} {e : Link × OspfNeighbor} (he : s.entry idx nbrId = some e)
    (hfull : e.2.isFull = true) (k : LsaKey) :
    s.withdrawSelfOriginated.pending idx nbrId k = if e.2.addr ≠ 0 then s.withdrawn e.1 k else none := by
  let cleared (n : OspfNeighbor) : OspfNeighbor := { n with retransmitList := ∅ }
  have hcleared : entry { s with ifaces := s.ifaces.map fun i => i.mapNeighbors fun n => { n with retransmitList := ∅ } }
      idx nbrId = some (e.1, cleared e.2) := by
    have hmap := entry_map s (f := fun i => i.mapNeighbors cleared) (g := fun _ n => cleared n) (fun _ => rfl)
      (fun i k => ExtTreeMap.getElem?_map) idx nbrId
      (S := s.sent)
    rw [he] at hmap
    exact hmap
  have htakes : (cleared e.2).takes 0 = decide (e.2.addr ≠ 0) := by
    have hfull' : (cleared e.2).isFull = true := hfull
    simp only [OspfNeighbor.takes, hfull', true_and]
    rfl
  rw [pending, withdrawSelfOriginated_eq, entry_foldl_floodOn, hcleared, Option.map_some, Option.bind_some,
    OspfNeighbor.put, getElem?_foldl_insert]
  simp only [htakes]
  by_cases haddr : e.2.addr = 0
  · simp [haddr, cleared]
  · have hempty : (cleared e.2).retransmitList[k]? = none := by simp [cleared]
    have hsent : ∀ (c : Bool) (db : Lsdb), ((shutdownLsas s.cfg.routerId db.iter).filter fun _ => c).filter
        (fun l => l.key = k) = if c = true then (ownLive s.cfg.routerId db k).toList else [] := by
      intro c db
      cases c with
      | true => rw [List.filter_true, filter_shutdownLsas, if_pos rfl]
      | false => rw [List.filter_false, List.filter_nil, if_neg (by decide)]
    have harea := flatMap_areas s e.1.area (fun db => (ownLive s.cfg.routerId db k).toList) (by simp [ownLive])
    rw [hempty, Option.or_none, if_pos haddr, withdrawn]
    simp only [haddr, ne_eq, not_false_eq_true, decide_true, Bool.and_true, List.filter_append, List.map_append,
      List.filter_flatMap, List.map_flatMap, List.filter_map, List.map_map, Function.comp_def, List.map_id',
      hsent, decide_eq_true_eq, harea]
    cases s.cfg.noExternals e.1.area with
    | true =>
      rw [if_neg (by decide), if_pos rfl, List.append_nil, Option.none_or]
      cases ownLive s.cfg.routerId (s.areaLsdb e.1.area) k <;> rfl
    | false =>
      rw [if_pos (by decide), if_neg (by decide)]
      cases ownLive s.cfg.routerId s.externalLsdb k with
      | none =>
        rw [Option.toList_none, List.append_nil, Option.none_or]
        cases ownLive s.cfg.routerId (s.areaLsdb e.1.area) k <;> rfl
      | some l => rw [Option.toList_some, List.getLast?_concat, Option.some_or]

end Lists

/-! ### Nothing is forgotten -/

/-- A step forgets nothing exactly where its guard holds. -/
theorem faithful_iff_guard (s : Ospf) (ev : ListEvent) : s.Faithful ev ↔ s.Guard ev := by
  have hflood : ∀ (on : Link → Bool) (lsa : Lsa) (except : Ipv4Addr) (e : Link × OspfNeighbor) (idx : ℕ)
      (nbrId : Ipv4Addr), s.entry idx nbrId = some e →
      ((∀ k L, e.2.retransmitList[k]? = some L → ∃ L',
        (s.floodOn (fun i => on i.toLink) lsa except).pending idx nbrId k = some L' ∧ ¬ Older L' L) ↔
      (on e.1 = true → e.2.takes except = true → ∀ L ∈ e.2.retransmitList[lsa.key]?, ¬ Older lsa L)) := by
    intro on lsa except e idx nbrId he
    constructor
    · intro h hon htakes L hL
      obtain ⟨L', hL', hnot⟩ := h lsa.key L hL
      rw [pending_floodOn he, if_pos ⟨hon, htakes, rfl⟩] at hL'
      cases hL'
      exact hnot
    · intro h k L hL
      rw [pending_floodOn he]
      split_ifs with hput
      · obtain ⟨hon, htakes, rfl⟩ := hput
        exact ⟨lsa, rfl, h hon htakes L hL⟩
      · exact ⟨L, hL, not_older_self L⟩
  have hplain : (∀ idx nbrId headers, ev ≠ .ack idx nbrId headers) → (s.Faithful ev ↔
      ∀ idx nbrId e, s.entry idx nbrId = some e → e.2.isFull = true → ∀ k L, e.2.retransmitList[k]? = some L →
        ∃ L', (s.listStep ev).pending idx nbrId k = some L' ∧ ¬ Older L' L) := by
    intro hne
    have hno : ∀ idx nbrId k L, ¬ ∃ headers, ev = .ack idx nbrId headers ∧ ∃ h ∈ headers, Confirms h k L := by
      intro idx nbrId k L hack
      obtain ⟨headers, heq, -⟩ := hack
      exact hne idx nbrId headers heq
    simp only [Faithful, hno, or_false]
  cases ev with
  | flood area lsa except =>
    rw [hplain (by intro _ _ _ h; cases h)]
    constructor
    · intro h idx nbrId e he harea htakes
      have hfull : e.2.isFull = true := (of_decide_eq_true htakes).1
      exact (hflood (fun i => i.area = area) lsa except e idx nbrId he).mp (h idx nbrId e he hfull)
        (decide_eq_true harea) htakes
    · intro h idx nbrId e he _
      refine (hflood (fun i => i.area = area) lsa except e idx nbrId he).mpr ?_
      exact fun hon htakes => h idx nbrId e he (of_decide_eq_true hon) htakes
  | floodExternal lsa except =>
    rw [hplain (by intro _ _ _ h; cases h)]
    constructor
    · intro h idx nbrId e he hext htakes
      have hfull : e.2.isFull = true := (of_decide_eq_true htakes).1
      refine (hflood (fun i => !s.cfg.noExternals i.area) lsa except e idx nbrId he).mp (h idx nbrId e he hfull) ?_ htakes
      simpa using hext
    · intro h idx nbrId e he _
      refine (hflood (fun i => !s.cfg.noExternals i.area) lsa except e idx nbrId he).mpr ?_
      intro hon htakes
      exact h idx nbrId e he (by simpa using hon) htakes
  | ack idx nbrId headers =>
    have hpending : ∀ e k L, s.entry idx nbrId = some e → e.2.retransmitList[k]? = some L →
        (s.handleLsack idx nbrId headers).pending idx nbrId k =
          if ∃ h ∈ headers, h.key = k ∧ L.header.lsSeq ≤ h.lsSeq then none else some L := by
      intro e k L he hL
      rw [pending, entry_handleLsack, he, Option.map_some, Option.bind_some, if_pos ⟨rfl, rfl⟩,
        getElem?_clearAckedLsas _ _ hL]
    constructor
    · intro h e he hfull k L hL hcleared
      rcases h idx nbrId e he hfull k L hL with ⟨L', hL', -⟩ | ⟨headers', heq, hconf⟩
      · rw [listStep, hpending e k L he hL, if_pos hcleared] at hL'
        cases hL'
      · cases heq
        exact hconf
    · intro h idx' nbrId' e he hfull k L hL
      by_cases hhere : idx' = idx ∧ nbrId' = nbrId
      · obtain ⟨rfl, rfl⟩ := hhere
        by_cases hcleared : ∃ h ∈ headers, h.key = k ∧ L.header.lsSeq ≤ h.lsSeq
        · exact .inr ⟨headers, rfl, h e he hfull k L hL hcleared⟩
        · left
          rw [listStep, hpending e k L he hL, if_neg hcleared]
          exact ⟨L, rfl, not_older_self L⟩
      · left
        rw [listStep, pending, entry_handleLsack, he, Option.map_some, Option.bind_some, if_neg hhere]
        exact ⟨L, hL, not_older_self L⟩
  | withdraw =>
    rw [hplain (by intro _ _ _ h; cases h)]
    constructor
    · intro h idx nbrId e he hfull k L hL
      obtain ⟨L', hL', hnot⟩ := h idx nbrId e he hfull k L hL
      rw [listStep, pending_withdraw he hfull] at hL'
      split_ifs at hL' with haddr
      exact ⟨haddr, L', hL', hnot⟩
    · intro h idx nbrId e he hfull k L hL
      obtain ⟨haddr, L', hL', hnot⟩ := h idx nbrId e he hfull k L hL
      rw [listStep, pending_withdraw he hfull, if_pos haddr]
      exact ⟨L', hL', hnot⟩
  | retransmit =>
    rw [hplain (by intro _ _ _ h; cases h)]
    refine iff_of_true ?_ trivial
    intro idx nbrId e he _ k L hL
    refine ⟨L, ?_, not_older_self L⟩
    show (s.entry idx nbrId).bind _ = some L
    rw [he]
    exact hL

/-- A run forgets no instance exactly where all its steps meet the guard. -/
theorem nothing_forgotten_iff (s : Ospf) (es : List ListEvent) :
    Run.Every listStep Faithful s es ↔ Run.Every listStep Guard s es :=
  Run.every_congr (fun _ => True) (fun _ _ _ => trivial) (fun s ev _ => faithful_iff_guard s ev) trivial es

/-- An own Router-LSA without links. -/
def loneRouterLsa : Lsa where
  header :=
    { lsAge := 0
      options := optE
      lsType := .router
      linkStateId := 1
      advertisingRouter := 1
      lsSeq := initialSequenceNumber
      lsChecksum := 0
      length := 0 }
  body := .router ⟨0, []⟩

/-- A router with one Full neighbour, whose database holds that LSA. -/
def beforeStop : Ospf where
  cfg := .default 1 .pointToPoint
  ifaces :=
    [{ ifindex := 1
       addr := 0x0a000001
       maskLen := 24
       area := 0
       isPassive := false
       fsm := .new 1 1 .pointToPoint
       neighbors := (∅ : BTreeMap Ipv4Addr OspfNeighbor).insert 2 { OspfNeighbor.new 2 0x0a000002 0 with state := .full }
       waitDeadline := none }]
  areas := (∅ : BTreeMap Ipv4Addr Area).insert 0 { Area.new with lsdb := (Lsdb.new.install loneRouterLsa).1 }
  externalLsdb := .new
  externals := ∅
  originatedExternals := []
  originatedTranslated := []
  lsaSeqs := ∅
  lsaInstalledAt := ∅
  nextDdSeq := 0
  helping := ∅
  sent := []

/-- A late acknowledgment of the LSA as it was before its withdrawal takes the withdrawal off the list. -/
theorem withdrawal_forgotten : ¬ ∀ (s : Ospf) (es : List ListEvent), Run.Every listStep Faithful s es := by
  intro hall
  have hack := (hall beforeStop [.withdraw, .ack 0 2 [loneRouterLsa.stamp.header]]).2.1
  have hlisted : (beforeStop.listStep .withdraw).pending 0 2 loneRouterLsa.key =
      some (loneRouterLsa.stamp.withAge maxAge) := by
    decide +kernel
  have hgone : ((beforeStop.listStep .withdraw).listStep (.ack 0 2 [loneRouterLsa.stamp.header])).pending 0 2
      loneRouterLsa.key = none := by
    decide +kernel
  have hfull : ((beforeStop.listStep .withdraw).entry 0 2).all (fun e => e.2.isFull) = true := by decide +kernel
  have holder : loneRouterLsa.stamp.header.compareRecency (loneRouterLsa.stamp.withAge maxAge).stamp.header = .lt := by
    decide +kernel
  obtain ⟨e, he, hL⟩ := Option.bind_eq_some_iff.mp hlisted
  rw [he] at hfull
  rcases hack 0 2 e he hfull loneRouterLsa.key _ hL with ⟨L', hL', -⟩ | ⟨headers, heq, h, hmem, -, hnot⟩
  · rw [hgone] at hL'
    cases hL'
  · cases heq
    rw [List.mem_singleton.mp hmem] at hnot
    exact hnot holder

end Ospf
end Wren.Daemon
