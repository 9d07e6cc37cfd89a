import Wren.Daemon.Igmp.Feed
import Wren.Igmp.Proxy

/-! The multicast task: who asks on each link, and what the proxy reports upstream. -/

namespace Wren.Daemon.Igmp
open Wren.Igmp OrdMap

/-- A link with the role on it. -/
structure Member where
  iface : Iface
  querier : QuerierState Ipv4Addr
  proxyDownstream : Bool

/-- A socket that could be opened: its index, the address it sends from, and whether the link is one of the proxy. -/
structure Opened where
  ifindex : UInt32
  own : Ipv4Addr
  downstream : Bool

def Opened.member (timers : TimerConfig) (o : Opened) : Member :=
  ⟨⟨o.ifindex, .new timers, ∅⟩, .new o.own timers, o.downstream⟩

structure Runner where
  ifaces : BTreeMap UInt32 Member
  proxy : Option (MulticastProxy Ipv4Addr)
  /-- Whether memberships are told to the multicast routing. -/
  pimFeed : Bool

/-- Packets are decoded, with the address they come from. -/
inductive Event where
  | queryTick
  | housekeep (now : ℕ)
  | packet (ifindex : UInt32) (now : ℕ) (src : Ipv4Addr) (msg : Message)

inductive Output where
  | generalQuery (ifindex : UInt32)
  | groupQuery (ifindex : UInt32) (group : Ipv4Addr)
  | fed (update : MembershipUpdate)
  | report (record : GroupRecord)

/-- As a host: exclude nothing to join, include nothing to leave. -/
def upstreamReport : ProxyAction Ipv4Addr → GroupRecord
  | .joinUpstream g => ⟨4, g, []⟩
  | .leaveUpstream g => ⟨3, g, []⟩

/-- The groups to join upstream. -/
def Member.wanted (m : Member) : BTreeSet Ipv4Addr :=
  insertAll ∅ (m.iface.table.groups.keys.filter fun g => !MulticastAddr.isControl g)

def Member.expire (now : ℕ) (m : Member) : Member × List (MembershipEvent Ipv4Addr) :=
  let (table, events) := m.iface.table.expire now
  ({ m with iface := { m.iface with table }, querier := (m.querier.tick now).1 }, events)

def Member.receive (now : ℕ) (src : Ipv4Addr) (msg : Message) (m : Member) : Member × List (MembershipEvent Ipv4Addr) :=
  match msg with
  | .query => ({ m with querier := (m.querier.onQuery now src).1 }, [])
  | msg =>
    let (table, events) := m.iface.table.apply now msg
    ({ m with iface := { m.iface with table } }, events)

/-- A listener wants the group of the proxy. -/
def Member.Wants (m : Member) (g : Ipv4Addr) : Prop :=
  m.proxyDownstream = true ∧ (m.iface.table.get g).isSome = true ∧ MulticastAddr.isControl g = false

theorem Member.mem_wanted (m : Member) (g : Ipv4Addr) :
    g ∈ m.wanted ↔ (m.iface.table.get g).isSome = true ∧ MulticastAddr.isControl g = false := by
  simp [wanted, MembershipTable.get]

theorem Iface.ifindex_handleEvents (iface : Iface) (events : List (MembershipEvent Ipv4Addr)) :
    (iface.handleEvents events).1.ifindex = iface.ifindex := by
  have hfirst : ∀ (iface : Iface) ev, (iface.feed ev).1.ifindex = iface.ifindex := by
    intro iface ev
    cases ev <;> simp only [feed, refresh, forget, apply_ite Prod.fst, apply_ite Iface.ifindex, ite_self]
  induction events generalizing iface with
  | nil => rfl
  | cons ev events ih => exact (ih (iface.feed ev).1).trans (hfirst iface ev)

namespace Runner

def start (opened : List Opened) (timers : TimerConfig) (upstream pimFeed : Bool) : Runner where
  ifaces := opened.foldl (fun ifaces o => ifaces.insert o.ifindex (o.member timers)) ∅
  proxy := if upstream then some .new else none
  pimFeed := pimFeed

def lastMemberQueries (m : Member) (events : List (MembershipEvent Ipv4Addr)) : List Output :=
  events.filterMap fun
    | .querying g => if m.querier.isQuerier then some (.groupQuery m.iface.ifindex g) else none
    | _ => none

def aggregate (proxy : Option (MulticastProxy Ipv4Addr)) (m : Member) : Option (MulticastProxy Ipv4Addr) × List Output :=
  match proxy with
  | none => (none, [])
  | some agg =>
    if m.proxyDownstream then
      let (agg, actions) := agg.syncDownstream m.iface.ifindex m.wanted
      (some agg, actions.map fun a => .report (upstreamReport a))
    else (some agg, [])

/-- Put a link back whose table has changed, with what follows from it. -/
def handleEvents (r : Runner) (i : UInt32) (m : Member) (events : List (MembershipEvent Ipv4Addr)) :
    Runner × List Output :=
  if events.isEmpty then ({ r with ifaces := r.ifaces.insert i m }, [])
  else
    let (iface, told) := if r.pimFeed then m.iface.handleEvents events else (m.iface, [])
    let (proxy, reports) := aggregate r.proxy { m with iface }
    ({ r with ifaces := r.ifaces.insert i { m with iface }, proxy },
      lastMemberQueries m events ++ told.map .fed ++ reports)

/-- What happens on one link. -/
def settle (change : Member → Member × List (MembershipEvent Ipv4Addr)) (r : Runner) (i : UInt32) : Runner × List Output :=
  match r.ifaces[i]? with
  | none => (r, [])
  | some m => r.handleEvents i (change m).1 (change m).2

def sendGeneralQueryAll (r : Runner) : List Output :=
  (r.ifaces.toList.filter fun e => e.2.querier.isQuerier).map fun e => .generalQuery e.2.iface.ifindex

def step (r : Runner) : Event → Runner × List Output
  | .queryTick => (r, r.sendGeneralQueryAll)
  | .housekeep now => Run.outputs (settle (Member.expire now)) r r.ifaces.keys
  | .packet i now src msg => r.settle (Member.receive now src msg) i

/-- What the forwarding cache is to have. -/
def forwarding (r : Runner) : List (Ipv4Addr × List UInt32) := r.proxy.elim [] MulticastProxy.forwarding

def run (opened : List Opened) (timers : TimerConfig) (upstream pimFeed : Bool) (events : List Event) :
    Runner × List Output :=
  Run.outputs step (start opened timers upstream pimFeed) events

/-! What is reported upstream -/

/-- A listener on this interface, a downstream one, wants the group. -/
def Wants (r : Runner) (g : Ipv4Addr) (i : UInt32) : Prop := ∃ m, r.ifaces[i]? = some m ∧ m.Wants g

/-- What the router has joined upstream, by its reports. -/
def hear (joined : Finset Ipv4Addr) : Output → Option (Finset Ipv4Addr)
  | .report record =>
    MulticastProxy.hear joined
      (if record.typed = some .toExclude then .joinUpstream record.multicast else .leaveUpstream record.multicast)
  | _ => some joined

/-- What the proxy has joined. -/
def joined (r : Runner) : Finset Ipv4Addr := r.proxy.elim ∅ MulticastProxy.joined

/-- The proxy knows what is wanted where. -/
structure Proxied (upstream : Bool) (r : Runner) : Prop where
  indexed : ∀ i (m : Member), r.ifaces[i]? = some m → m.iface.ifindex = i
  upstream : r.proxy.isSome = upstream
  follows : ∀ agg ∈ r.proxy, agg.Proper ∧ ∀ g i, i ∈ agg.oifs g ↔ r.Wants g i

theorem hear_upstreamReport (joined : Finset Ipv4Addr) (a : ProxyAction Ipv4Addr) :
    hear joined (.report (upstreamReport a)) = MulticastProxy.hear joined a := by
  cases a <;> rfl

theorem foldlM_hear_reports (joined : Finset Ipv4Addr) (actions : List (ProxyAction Ipv4Addr)) :
    (actions.map fun a => Output.report (upstreamReport a)).foldlM hear joined =
      actions.foldlM MulticastProxy.hear joined := by
  rw [List.foldlM_map]
  simp only [hear_upstreamReport]

/-- Upstream nothing is heard of queries, and of what the routing is told. -/
theorem foldlM_hear_eq {l : List Output} (h : ∀ o ∈ l, ∀ record, o ≠ .report record) (joined : Finset Ipv4Addr) :
    l.foldlM hear joined = some joined := by
  induction l with
  | nil => rfl
  | cons o l ih =>
    rw [List.foldlM_cons]
    have hrest := ih fun o' ho' => h o' (List.mem_cons_of_mem _ ho')
    cases o with
    | report record => exact absurd rfl (h _ List.mem_cons_self record)
    | generalQuery k => exact hrest
    | groupQuery k g => exact hrest
    | fed u => exact hrest

variable {upstream : Bool} {r : Runner} {i : UInt32} {m m' : Member}

theorem wants_insert (r : Runner) (i : UInt32) (m : Member) (proxy : Option (MulticastProxy Ipv4Addr)) (g : Ipv4Addr)
    (k : UInt32) : Wants { r with ifaces := r.ifaces.insert i m, proxy } g k ↔ if k = i then m.Wants g else r.Wants g k := by
  unfold Wants
  simp only [getElem?_insert]
  split_ifs
  · simp
  · rfl

theorem indexed_insert (h : r.Proxied upstream) (hindex : m.iface.ifindex = i) (k : UInt32) (m' : Member)
    (hm' : (r.ifaces.insert i m)[k]? = some m') : m'.iface.ifindex = k := by
  rw [getElem?_insert] at hm'
  split_ifs at hm' with hk
  · cases hm'
    rw [hk, hindex]
  · exact h.indexed k m' hm'

/-- A link that wants what it wanted may be put back without a word. -/
theorem Proxied.put (h : r.Proxied upstream) (hm : r.ifaces[i]? = some m) (hindex : m'.iface.ifindex = i)
    (hquiet : ∀ g, m'.Wants g ↔ m.Wants g) : Proxied upstream { r with ifaces := r.ifaces.insert i m' } where
  indexed := indexed_insert h hindex
  upstream := h.upstream
  follows := by
    intro agg hagg
    obtain ⟨hproper, hoifs⟩ := h.follows agg hagg
    refine ⟨hproper, ?_⟩
    intro g k
    rw [hoifs, wants_insert]
    split_ifs with hk
    · rw [hquiet, hk]
      simp [Wants, hm]
    · rfl

/-- A link that is put back and told to the proxy. -/
theorem Proxied.aggregate (h : r.Proxied upstream) (hm : r.ifaces[i]? = some m) (m' : Member)
    (hindex : m'.iface.ifindex = i) (hdown : m'.proxyDownstream = m.proxyDownstream) :
    (aggregate r.proxy m').2.foldlM hear r.joined =
        some (joined { r with ifaces := r.ifaces.insert i m', proxy := (aggregate r.proxy m').1 }) ∧
      Proxied upstream { r with ifaces := r.ifaces.insert i m', proxy := (aggregate r.proxy m').1 } := by
  have hindexed := indexed_insert h hindex
  unfold joined Runner.aggregate
  cases hproxy : r.proxy with
  | none =>
    have hoff := h.upstream
    rw [hproxy] at hoff
    exact ⟨rfl, hindexed, hoff, nofun⟩
  | some agg =>
    have hon := h.upstream
    rw [hproxy] at hon
    obtain ⟨hproper, hoifs⟩ := h.follows agg hproxy
    by_cases hd : m'.proxyDownstream = true
    · have hleads := MulticastProxy.leads_syncDownstream hproper m'.iface.ifindex m'.wanted
      simp only [hd, if_true]
      refine ⟨?_, hindexed, hon, ?_⟩
      · rw [foldlM_hear_reports]
        exact hleads.told
      · rintro agg' ⟨⟩
        refine ⟨hleads.proper, ?_⟩
        intro g k
        rw [hleads.oifs, wants_insert, hindex, hoifs, Member.mem_wanted]
        simp only [Member.Wants, hd, true_and]
    · have hnot : ∀ g, m'.Wants g ↔ m.Wants g := by
        intro g
        simp [Member.Wants, hd, hdown ▸ hd]
      simp only [hd, if_false, Bool.false_eq_true]
      refine ⟨rfl, hindexed, hon, ?_⟩
      rintro agg' ⟨⟩
      exact (h.put hm hindex hnot).follows agg hproxy

/-- Whatever happens on a link, its events say if other groups are wanted there. -/
structure Honest (change : Member → Member × List (MembershipEvent Ipv4Addr)) : Prop where
  ifindex : ∀ m, (change m).1.iface.ifindex = m.iface.ifindex
  downstream : ∀ m, (change m).1.proxyDownstream = m.proxyDownstream
  quiet : ∀ m, (change m).2 = [] → ∀ g, (change m).1.Wants g ↔ m.Wants g

theorem Proxied.settle (h : r.Proxied upstream) {change : Member → Member × List (MembershipEvent Ipv4Addr)}
    (hchange : Honest change) (i : UInt32) :
    (settle change r i).2.foldlM hear r.joined = some (Runner.settle change r i).1.joined ∧
      (Runner.settle change r i).1.Proxied upstream := by
  unfold Runner.settle
  cases hm : r.ifaces[i]? with
  | none => exact ⟨rfl, h⟩
  | some m =>
    have hindex := (hchange.ifindex m).trans (h.indexed i m hm)
    have hdown := hchange.downstream m
    have hquiet := hchange.quiet m
    dsimp only
    generalize change m = changed at hindex hdown hquiet ⊢
    obtain ⟨m', events⟩ := changed
    dsimp only at hindex hdown hquiet ⊢
    unfold Runner.handleEvents
    cases events with
    | nil => exact ⟨rfl, h.put hm hindex (hquiet rfl)⟩
    | cons ev evs =>
      obtain ⟨told, htold⟩ :
          ∃ told, (if r.pimFeed then m'.iface.handleEvents (ev :: evs) else (m'.iface, [])) = told := ⟨_, rfl⟩
      have hifindex : told.1.ifindex = i := by
        rw [← htold, ← hindex]
        split_ifs
        · exact Iface.ifindex_handleEvents m'.iface (ev :: evs)
        · rfl
      have hsilent : ∀ o ∈ lastMemberQueries m' (ev :: evs) ++ told.2.map Output.fed, ∀ record, o ≠ .report record := by
        rintro o ho record rfl
        rcases List.mem_append.mp ho with ho | ho
        · obtain ⟨e, -, he⟩ := List.mem_filterMap.mp ho
          cases e <;> simp at he
        · simp at ho
      obtain ⟨hheard, hlast⟩ := h.aggregate hm { m' with iface := told.1 } hifindex hdown
      simp only [List.isEmpty_cons, Bool.false_eq_true, if_false, htold, List.foldlM_append, foldlM_hear_eq hsilent]
      exact ⟨hheard, hlast⟩

theorem honest_expire (now : ℕ) : Honest (Member.expire now) where
  ifindex _ := rfl
  downstream _ := rfl
  quiet := by
    intro m hnone g
    have hsame : (m.iface.table.expire now).1.get g = m.iface.table.get g := by
      have hevents : (m.iface.table.expire now).2 = [] := hnone
      rw [MembershipTable.get_expire, hevents, if_neg List.not_mem_nil]
    simp only [Member.Wants, Member.expire, hsame]

theorem honest_receive (now : ℕ) (src : Ipv4Addr) (msg : Message) : Honest (Member.receive now src msg) where
  ifindex := by cases msg <;> exact fun _ => rfl
  downstream := by cases msg <;> exact fun _ => rfl
  quiet := by
    intro m hnone g
    have htold := (MembershipTable.told_apply m.iface.table now msg).silent g
    cases msg <;> simp only [Member.receive, Member.Wants] at hnone ⊢ <;> rw [htold (by simp [hnone])]

theorem Proxied.step (h : r.Proxied upstream) (e : Event) :
    (r.step e).2.foldlM hear r.joined = some (r.step e).1.joined ∧ (r.step e).1.Proxied upstream := by
  cases e with
  | queryTick =>
    refine ⟨foldlM_hear_eq ?_ _, h⟩
    rintro o ho record rfl
    simp [Runner.step, sendGeneralQueryAll] at ho
  | housekeep now => exact Run.outputs_keep_up (fun _ i h => h.settle (honest_expire now) i) r.ifaces.keys h
  | packet i now src msg => exact h.settle (honest_receive now src msg) i

theorem exists_of_start {opened : List Opened} {timers : TimerConfig} {pimFeed : Bool}
    (h : (start opened timers upstream pimFeed).ifaces[i]? = some m) : ∃ o ∈ opened, o.ifindex = i ∧ m = o.member timers := by
  refine List.foldlRecOn
    (motive := fun ifaces : BTreeMap UInt32 Member =>
      ∀ i m, ifaces[i]? = some m → ∃ o ∈ opened, o.ifindex = i ∧ m = o.member timers)
    opened _ (by simp) ?_ i m h
  intro ifaces hifaces o ho i m hm
  rw [getElem?_insert] at hm
  split_ifs at hm with hi
  · cases hm
    exact ⟨o, ho, hi.symm, rfl⟩
  · exact hifaces i m hm

theorem proxied_start (opened : List Opened) (timers : TimerConfig) (upstream pimFeed : Bool) :
    (start opened timers upstream pimFeed).Proxied upstream where
  indexed := by
    intro i m hm
    obtain ⟨o, -, hi, rfl⟩ := exists_of_start hm
    exact hi
  upstream := by cases upstream <;> rfl
  follows := by
    intro agg hagg
    cases upstream
    · cases hagg
    · cases hagg
      refine ⟨by simp [MulticastProxy.Proper, MulticastProxy.new], ?_⟩
      intro g i
      refine iff_of_false (by simp [MulticastProxy.new, MulticastProxy.oifs]) ?_
      rintro ⟨m, hm, -, hg, -⟩
      obtain ⟨o, -, -, rfl⟩ := exists_of_start hm
      simp [Opened.member, MembershipTable.new, MembershipTable.get] at hg

theorem Proxied.mem_joined (h : r.Proxied upstream) (g : Ipv4Addr) :
    g ∈ r.joined ↔ upstream = true ∧ ∃ i, r.Wants g i := by
  obtain ⟨-, rfl, hfollows⟩ := h
  unfold joined
  cases hproxy : r.proxy with
  | none => simp
  | some agg =>
    obtain ⟨hproper, hoifs⟩ := hfollows agg hproxy
    rw [Option.elim_some, MulticastProxy.mem_joined hproper]
    simp only [hoifs, Option.isSome_some, true_and]

theorem Proxied.mem_forwarding (h : r.Proxied upstream) (g : Ipv4Addr) (i : UInt32) :
    (∃ oifs, (g, oifs) ∈ r.forwarding ∧ i ∈ oifs) ↔ upstream = true ∧ r.Wants g i := by
  obtain ⟨-, rfl, hfollows⟩ := h
  unfold forwarding
  cases hproxy : r.proxy with
  | none => simp
  | some agg =>
    rw [Option.elim_some, MulticastProxy.mem_forwarding, (hfollows agg hproxy).2]
    simp only [Option.isSome_some, true_and]

/-- The reports make sense to a router upstream, which hears each group joined once and left once: at any time those
joined are the groups with a listener downstream, the packets of which are to go where these are. -/
theorem reports_follow_listeners (opened : List Opened) (timers : TimerConfig) (upstream pimFeed : Bool)
    (events : List Event) :
    ∃ joined, (run opened timers upstream pimFeed events).2.foldlM hear ∅ = some joined ∧
      (∀ g, g ∈ joined ↔ upstream = true ∧ ∃ i, (run opened timers upstream pimFeed events).1.Wants g i) ∧
      ∀ g i, (∃ oifs, (g, oifs) ∈ (run opened timers upstream pimFeed events).1.forwarding ∧ i ∈ oifs) ↔
        upstream = true ∧ (run opened timers upstream pimFeed events).1.Wants g i := by
  obtain ⟨hheard, h⟩ := Run.outputs_keep_up (fun _ e h => h.step e) events (proxied_start opened timers upstream pimFeed)
  have hnone : (start opened timers upstream pimFeed).joined = ∅ := by cases upstream <;> rfl
  rw [hnone] at hheard
  exact ⟨_, hheard, h.mem_joined, h.mem_forwarding⟩

end Runner
end Wren.Daemon.Igmp
