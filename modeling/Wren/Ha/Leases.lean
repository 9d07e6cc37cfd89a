import Wren.Ha.Witness

/-! Two members and their witness, on clocks of one rate: the members never hold authority at the same instant. -/

namespace Wren.Ha

/-- One exchange with the witness: when it began, the request if it is still on its way, and the reply once there is one. -/
structure Exchange where
  start : ℕ
  request : Option Request
  reply : Option Reply

/-- What a coordinator sends of the state of its agent. -/
structure Report where
  agentBoot : Boot
  priority : ℕ
  preempt : Bool
  readyTerm : ℕ
  policy : Policy
  eligible : Bool

/-- The coordinator of a member, with its role. -/
structure Coordinator where
  cluster : String
  node : ℕ
  leaseMs : ℕ
  boot : Boot
  clock : Clock
  authority : Authority
  deadlineNs : ℕ
  exchange : Option Exchange

namespace Coordinator

abbrev now (c : Coordinator) : ℕ := c.clock.reading

/-- The member acts: its role names it, and the deadline that it computed lies ahead. -/
def Active (c : Coordinator) : Prop :=
  c.authority.owner = c.node ∧ c.authority.boot = c.boot ∧ c.now < c.deadlineNs

instance (c : Coordinator) : Decidable c.Active :=
  inferInstanceAs (Decidable (c.authority.owner = c.node ∧ c.authority.boot = c.boot ∧ c.now < c.deadlineNs))

/-- A coordinator that has just started. -/
def fresh (cluster : String) (node leaseMs : ℕ) (boot : Boot) (clock : Clock) : Coordinator :=
  ⟨cluster, node, leaseMs, boot, clock, .default, 0, none⟩

def ask (c : Coordinator) (report : Report) : Coordinator :=
  match c.exchange with
  | some _ => c
  | none =>
    { c with
      exchange := some ⟨c.now, some ⟨c.cluster, c.node, c.boot, report.agentBoot, report.priority, report.preempt,
        report.readyTerm, report.policy, report.eligible⟩, none⟩ }

/-- The result of `exchange`: the deadline counts from before the connection, and a longer grant is cut to the own lease. -/
def answer (leaseMs start : ℕ) (reply : Reply) : Option (Reply × ℕ) :=
  if reply.remainingMs ≤ maxLeaseMs then
    let valid := min reply.remainingMs leaseMs
    some (reply, if reply.granted then saturatingAdd start ((valid - marginMs) * milli) else 0)
  else none

/-- The result of the exchange that is going on, once its reply has arrived. -/
def answered (c : Coordinator) : Option (Reply × ℕ) :=
  c.exchange.bind fun x => x.reply.bind fun reply => answer c.leaseMs x.start reply

/-- The role follows a reply: the deadline is taken with a grant and with a new authority. -/
def adopt (c : Coordinator) : Option (Reply × ℕ) → Coordinator
  | some (reply, deadline) =>
    { c with
      authority := reply.authority
      deadlineNs := if reply.granted || c.authority ≠ reply.authority then deadline else c.deadlineNs
      exchange := none }
  | none => { c with exchange := none }

/-- A member that is not fit for its role, or does not hold it, gives it up. -/
def review (c : Coordinator) (fit : Bool) : Coordinator :=
  if fit && c.authority.owner = c.node && c.authority.boot = c.boot && c.now < c.deadlineNs then c
  else { c with deadlineNs := 0 }

/-- The rest of a poll, after the exchange. -/
def settle (c : Coordinator) (result : Option (Reply × ℕ)) (fit : Bool) : Coordinator := (c.adopt result).review fit

/-- The reply arrives. -/
def conclude (c : Coordinator) (fit : Bool) : Coordinator :=
  match c.exchange.bind Exchange.reply with
  | none => c
  | some _ => c.settle c.answered fit

end Coordinator

structure System where
  server : Server
  clock : Clock
  members : Fin 2 → Coordinator
  /-- Requests of exchanges that were given up, still on their way. -/
  adrift : List Request

namespace System

abbrev now (s : System) : ℕ := s.clock.reading

inductive Event where
  | tick (elapsed : ℕ)
  | ask (slot : Fin 2) (report : Report)
  | reach (slot : Fin 2) (write : WriteOutcome)
  | reachAdrift (i : ℕ) (write : WriteOutcome)
  | conclude (slot : Fin 2) (fit : Bool)
  | abandon (slot : Fin 2) (fit : Bool)
  | relinquish (slot : Fin 2)
  | restartMember (slot : Fin 2) (boot : Boot) (clock : Clock)
  | restartWitness (c : WitnessConfig) (clock : Clock)

def setMember (s : System) (slot : Fin 2) (c : Coordinator) : System :=
  { s with members := Function.update s.members slot c }

/-- The request that the exchange of a member still has on its way. -/
def onItsWay (c : Coordinator) : Option Request := c.exchange.bind Exchange.request

def reach (s : System) (slot : Fin 2) (write : WriteOutcome) : System :=
  let c := s.members slot
  match c.exchange with
  | some ⟨start, some r, _⟩ =>
    let (server, reply) := s.server.session r s.now write
    { s with server := server }.setMember slot { c with exchange := some ⟨start, none, reply⟩ }
  | _ => s

def reachAdrift (s : System) (i : ℕ) (write : WriteOutcome) : System :=
  match s.adrift[i]? with
  | some r => { s with server := (s.server.session r s.now write).1, adrift := s.adrift.eraseIdx i }
  | none => s

def step (s : System) : Event → System
  | .tick elapsed =>
    { s with
      clock := s.clock.advance elapsed
      members := fun slot => { s.members slot with clock := (s.members slot).clock.advance elapsed } }
  | .ask slot report => s.setMember slot ((s.members slot).ask report)
  | .reach slot write => s.reach slot write
  | .reachAdrift i write => s.reachAdrift i write
  | .conclude slot fit => s.setMember slot ((s.members slot).conclude fit)
  | .abandon slot fit =>
    { s with adrift := s.adrift ++ (onItsWay (s.members slot)).toList }.setMember slot ((s.members slot).settle none fit)
  | .relinquish slot => s.setMember slot { s.members slot with deadlineNs := 0 }
  | .restartMember slot boot clock =>
    let c := s.members slot
    { s with adrift := s.adrift ++ (onItsWay c).toList }.setMember slot (.fresh c.cluster c.node c.leaseMs boot clock)
  | .restartWitness c clock => { s with server := s.server.restart c clock.reading, clock := clock }

/-- Everything has just started, over whatever state file there is. -/
def boot (c : WitnessConfig) (disk : Option Durable) (clock : Clock) (leaseMs : Fin 2 → ℕ) (boots : Fin 2 → Boot)
    (clocks : Fin 2 → Clock) : System :=
  ⟨⟨c, restore c disk clock.reading, disk⟩, clock,
    fun slot => .fresh c.cluster (slot + 1) (leaseMs slot) (boots slot) (clocks slot), []⟩

/-- At most one member acts. -/
def Exclusive (s : System) : Prop := ¬ ((s.members 0).Active ∧ (s.members 1).Active)

end System

/-! ### How long a member may yet act -/

/-- The time that the deadlines of a member leave it: that of its role, and that of the grant it may be about to read. -/
def Coordinator.hold (c : Coordinator) : ℕ :=
  max (c.deadlineNs - c.now) ((c.answered.elim 0 Prod.snd) - c.now)

theorem hold_pos_of_active {c : Coordinator} (h : c.Active) : 0 < c.hold := by
  have hlt := h.2.2
  have hle : c.deadlineNs - c.now ≤ c.hold := le_max_left _ _
  omega

/-- The lease that the state file promises to wait out. -/
def Server.leaseNs (s : Server) : ℕ := (s.disk.map Durable.leaseMs).getD ttlMs * milli

namespace Coordinator

theorem hold_fresh (cluster : String) (node leaseMs : ℕ) (boot : Boot) (clock : Clock) :
    (fresh cluster node leaseMs boot clock).hold = 0 := by
  simp [hold, fresh, answered]

theorem hold_ask (c : Coordinator) (report : Report) : (c.ask report).hold ≤ c.hold := by
  unfold ask
  split
  · exact le_rfl
  · rename_i hnone
    simp [hold, answered, hnone]

theorem hold_relinquish (c : Coordinator) : ({ c with deadlineNs := 0 } : Coordinator).hold ≤ c.hold := by
  simp [hold, answered]

theorem hold_review (c : Coordinator) (fit : Bool) : (c.review fit).hold ≤ c.hold := by
  unfold review
  split
  · exact le_rfl
  · exact c.hold_relinquish

theorem hold_adopt (c : Coordinator) {result : Option (Reply × ℕ)} (h : result = none ∨ result = c.answered) :
    (c.adopt result).hold ≤ c.hold := by
  have hrole : c.deadlineNs - c.now ≤ c.hold := le_max_left _ _
  have hpending : (c.answered.elim 0 Prod.snd) - c.now ≤ c.hold := le_max_right _ _
  have hresult : (result.elim 0 Prod.snd) - c.now ≤ c.hold := by
    rcases h with rfl | rfl
    · simp
    · exact hpending
  cases result with
  | none => simp [adopt, hold, answered]
  | some answer =>
    simp only [adopt, hold, answered, Option.bind_none, Option.elim_none, Nat.zero_sub, Nat.max_zero]
    split
    · exact hresult
    · exact hrole

theorem hold_settle (c : Coordinator) {result : Option (Reply × ℕ)} (h : result = none ∨ result = c.answered)
    (fit : Bool) : (c.settle result fit).hold ≤ c.hold :=
  ((c.adopt result).hold_review fit).trans (c.hold_adopt h)

theorem hold_conclude (c : Coordinator) (fit : Bool) : (c.conclude fit).hold ≤ c.hold := by
  unfold conclude
  split
  · exact le_rfl
  · exact c.hold_settle (.inr rfl) fit

/-- The facts about one member on its own. -/
structure Sane (c : Coordinator) : Prop where
  deadline_le : c.deadlineNs ≤ u64Max
  start_le : ∀ x ∈ c.exchange, x.start ≤ c.now
  own : ∀ x ∈ c.exchange, ∀ r ∈ x.request, r.node = c.node

theorem answer_le {leaseMs start deadline : ℕ} {reply r : Reply} (h : answer leaseMs start reply = some (r, deadline)) :
    deadline ≤ u64Max := by
  unfold answer at h
  split at h
  · cases h
    split
    · exact min_le_right _ _
    · exact Nat.zero_le _
  · cases h

theorem answered_le (c : Coordinator) : c.answered.elim 0 Prod.snd ≤ u64Max := by
  cases h : c.answered with
  | none => exact Nat.zero_le _
  | some result =>
    obtain ⟨x, -, hreply⟩ := Option.bind_eq_some_iff.mp h
    obtain ⟨reply, -, hanswer⟩ := Option.bind_eq_some_iff.mp hreply
    exact answer_le hanswer

theorem hold_tick {c : Coordinator} (h : c.Sane) (elapsed : ℕ) :
    ({ c with clock := c.clock.advance elapsed } : Coordinator).hold ≤ c.hold - elapsed := by
  have hrole := h.deadline_le
  have hpending := c.answered_le
  have hclock := c.clock.le
  have hsame : ({ c with clock := c.clock.advance elapsed } : Coordinator).answered = c.answered := rfl
  have hleft : c.deadlineNs - c.now ≤ c.hold := le_max_left _ _
  have hright : (c.answered.elim 0 Prod.snd) - c.now ≤ c.hold := le_max_right _ _
  show max (c.deadlineNs - min (c.now + elapsed) u64Max) ((c.answered.elim 0 Prod.snd) - min (c.now + elapsed) u64Max) ≤
    c.hold - elapsed
  omega

theorem sane_review {c : Coordinator} (h : c.Sane) (fit : Bool) : (c.review fit).Sane := by
  unfold review
  split
  · exact h
  · exact ⟨Nat.zero_le _, h.start_le, h.own⟩

theorem sane_adopt {c : Coordinator} (h : c.Sane) {result : Option (Reply × ℕ)}
    (hresult : result = none ∨ result = c.answered) : (c.adopt result).Sane := by
  have hle : result.elim 0 Prod.snd ≤ u64Max := by
    rcases hresult with rfl | rfl
    · exact Nat.zero_le _
    · exact c.answered_le
  cases result with
  | none => exact ⟨h.deadline_le, by simp [adopt], by simp [adopt]⟩
  | some answer =>
    refine ⟨?_, by simp [adopt], by simp [adopt]⟩
    simp only [adopt]
    split
    · exact hle
    · exact h.deadline_le

theorem sane_settle {c : Coordinator} (h : c.Sane) {result : Option (Reply × ℕ)}
    (hresult : result = none ∨ result = c.answered) (fit : Bool) : (c.settle result fit).Sane :=
  sane_review (sane_adopt h hresult) fit

theorem sane_conclude {c : Coordinator} (h : c.Sane) (fit : Bool) : (c.conclude fit).Sane := by
  unfold conclude
  split
  · exact h
  · exact sane_settle h (.inr rfl) fit

theorem sane_ask {c : Coordinator} (h : c.Sane) (report : Report) : (c.ask report).Sane := by
  unfold ask
  split
  · exact h
  · exact ⟨h.deadline_le, by simp, by simp⟩

theorem node_settle (c : Coordinator) (result : Option (Reply × ℕ)) (fit : Bool) : (c.settle result fit).node = c.node := by
  unfold settle review
  split <;> cases result <;> rfl

theorem node_conclude (c : Coordinator) (fit : Bool) : (c.conclude fit).node = c.node := by
  unfold conclude
  split
  · rfl
  · exact c.node_settle _ fit

theorem node_ask (c : Coordinator) (report : Report) : (c.ask report).node = c.node := by
  unfold ask
  split <;> rfl

theorem sane_fresh (cluster : String) (node leaseMs : ℕ) (boot : Boot) (clock : Clock) :
    (fresh cluster node leaseMs boot clock).Sane := ⟨Nat.zero_le _, by simp [fresh], by simp [fresh]⟩

/-- A reply leaves the member no more time than it says, counted from a later instant than the member counts. -/
theorem hold_reply {c : Coordinator} (start : ℕ) (hstart : start ≤ c.now) (reply : Option Reply) :
    ({ c with exchange := some ⟨start, none, reply⟩ } : Coordinator).hold ≤ c.hold ∨
      ∃ x ∈ reply, x.granted = true ∧
        ({ c with exchange := some ⟨start, none, reply⟩ } : Coordinator).hold ≤ max c.hold (x.remainingMs * milli) := by
  have hrole : c.deadlineNs - c.now ≤ c.hold := le_max_left _ _
  cases reply with
  | none => exact .inl (by simp [hold, answered])
  | some x =>
    have hanswered : ({ c with exchange := some ⟨start, none, some x⟩ } : Coordinator).answered =
        answer c.leaseMs start x := rfl
    cases hx : x.granted with
    | false =>
      have hzero : (answer c.leaseMs start x).elim 0 Prod.snd = 0 := by
        unfold answer
        split
        · simp [hx]
        · rfl
      refine .inl ?_
      rw [hold, hanswered, hzero]
      exact max_le hrole (by omega)
    | true =>
      refine .inr ⟨x, rfl, hx, ?_⟩
      have hvalid : (min x.remainingMs c.leaseMs - marginMs) * milli ≤ x.remainingMs * milli :=
        Nat.mul_le_mul_right _ (by omega)
      have hbound : (answer c.leaseMs start x).elim 0 Prod.snd ≤ start + x.remainingMs * milli := by
        by_cases hfits : x.remainingMs ≤ maxLeaseMs
        · have hvalue : answer c.leaseMs start x =
              some (x, saturatingAdd start ((min x.remainingMs c.leaseMs - marginMs) * milli)) := by
            simp only [answer, if_pos hfits, hx, if_true]
          rw [hvalue, Option.elim_some]
          exact (min_le_left _ _).trans (Nat.add_le_add_left hvalid start)
        · rw [answer, if_neg hfits]
          exact Nat.zero_le _
      have hnew : (answer c.leaseMs start x).elim 0 Prod.snd - c.now ≤ x.remainingMs * milli := by omega
      rw [hold, hanswered]
      exact max_le (hrole.trans (le_max_left _ _)) (hnew.trans (le_max_right _ _))

end Coordinator

/-! ### The lease of the witness -/

/-- A lease that the witness grants: nobody else holds one. -/
structure Leased (e : Engine) (r : Request) (now : ℕ) (e' : Engine) : Prop where
  clock : now ≠ u64Max
  quarantine_le : e.quarantine ≤ now
  owner : e'.authority.owner = r.node
  expiry : e'.expiry = saturatingAdd now e.leaseNs
  leaseNs : e'.leaseNs = e.leaseNs
  vacant : now < e.expiry ∧ e.authority.owner = r.node ∨ e.expiry ≤ now ∧ e'.authority ≠ e.authority

theorem request_lease {e e' : Engine} {r : Request} {now : ℕ} {answer : Except String Reply}
    (h : e.request r now = (e', answer)) :
    (e'.authority = e.authority ∧ e'.expiry = e.expiry ∧ e'.quarantine = e.quarantine ∧ e'.leaseNs = e.leaseNs ∧
        e'.claim = e.claim ∧ ∀ x, answer = .ok x → x.granted = false) ∨
      Leased e r now e' ∧ answer = .ok (e'.reply now true) := by
  have hnoted : (e.noted r now).authority = e.authority ∧ (e.noted r now).expiry = e.expiry ∧
      (e.noted r now).quarantine = e.quarantine ∧ (e.noted r now).leaseNs = e.leaseNs ∧
      (e.noted r now).claim = e.claim := by
    obtain ⟨p, hp⟩ := e.noted_eq r now
    rw [hp]
    exact ⟨rfl, rfl, rfl, rfl, rfl⟩
  obtain ⟨ha, he, hq, hl, hc⟩ := hnoted
  rcases e.request_cases r now with ⟨-, p, m, hr⟩ | ⟨-, hclock, ⟨m, hr⟩ | hr | ⟨g, hg, hr⟩⟩
  · cases hr.symm.trans h
    exact .inl ⟨rfl, rfl, rfl, rfl, rfl, by simp⟩
  · cases hr.symm.trans h
    exact .inl ⟨ha, he, hq, hl, hc, by simp⟩
  · cases hr.symm.trans h
    refine .inl ⟨ha, he, hq, hl, hc, ?_⟩
    intro x hx
    cases hx
    rfl
  · cases hr.symm.trans h
    have hgr := Engine.granted_of_grant hg
    refine .inr ⟨⟨hclock, hq ▸ hgr.quarantine_le, ?_, ?_, hgr.leaseNs.trans hl, ?_⟩, rfl⟩
    · show g.authority.owner = r.node
      rcases hgr.how with hren | hpro
      · have hours : r.node = e.authority.owner ∧ r.boot = e.authority.boot := by
          simpa [Engine.ours, ha] using hren.ours
        rcases hren.authority with ⟨-, hsame⟩ | ⟨-, hnext⟩
        · rw [hsame, ha, hours.1]
        · rw [hnext]
      · rw [hpro.authority]
    · rw [← hl]
      exact hgr.expiry
    · rcases hgr.how with hren | hpro
      · have hours : r.node = e.authority.owner ∧ r.boot = e.authority.boot := by
          simpa [Engine.ours, ha] using hren.ours
        exact .inl ⟨he ▸ hren.current, hours.1.symm⟩
      · refine .inr ⟨he ▸ hpro.lapsed, ?_⟩
        intro hsame
        have hterm := congrArg Authority.term (hpro.authority.symm.trans hsame)
        rw [ha] at hterm
        exact Nat.succ_ne_self _ hterm

/-- A session leaves the lease alone; or grants one, and records its length before the first grant of a witness is sent; or
fails to record it and fences the witness. -/
theorem session_cases {s t : Server} {e : Engine} {r : Request} {now : ℕ} {write : WriteOutcome} {sent : Option Reply}
    (he : s.engine = some e) (h : s.session r now write = (t, sent)) :
    t.config = s.config ∧ ∃ e', t.engine = some e' ∧
      ((e'.authority = e.authority ∧ e'.expiry = e.expiry ∧ e'.quarantine = e.quarantine ∧ e'.leaseNs = e.leaseNs ∧
          t.disk = s.disk ∧ ∀ x ∈ sent, x.granted = false) ∨
        (Leased e r now e' ∧ sent = some (e'.reply now true) ∧
          (t.leaseNs = s.config.leaseMs * milli ∨ t.disk = s.disk ∧ now < e.expiry)) ∨
        ((∃ g, Leased e r now g) ∧ e'.expiry = 0 ∧ e'.quarantine = u64Max ∧ e'.leaseNs = e.leaseNs ∧ sent = none ∧
          (t.leaseNs = s.config.leaseMs * milli ∨ t.disk = s.disk))) := by
  obtain ⟨⟨e', answer⟩, hreq⟩ : ∃ x, e.request r now = x := ⟨_, rfl⟩
  have hcases := request_lease hreq
  simp only [Server.session, he, hreq] at h
  cases answer with
  | error m =>
    cases h
    refine ⟨rfl, e', rfl, .inl ?_⟩
    rcases hcases with ⟨ha, hx, hq, hl, -, -⟩ | ⟨-, hanswer⟩
    · exact ⟨ha, hx, hq, hl, rfl, by simp⟩
    · cases hanswer
  | ok reply =>
    simp only at h
    split at h
    · rename_i hsame
      cases h
      refine ⟨rfl, e', rfl, ?_⟩
      rcases hcases with ⟨ha, hx, hq, hl, -, hno⟩ | ⟨hleased, hanswer⟩
      · refine .inl ⟨ha, hx, hq, hl, rfl, ?_⟩
        intro x hx
        cases hx
        exact hno _ rfl
      · cases hanswer
        refine .inr (.inl ⟨hleased, rfl, .inr ⟨rfl, ?_⟩⟩)
        rcases hleased.vacant with ⟨hcur, -⟩ | ⟨-, hne⟩
        · exact hcur
        · exact absurd (Prod.mk.inj hsame).1.symm hne
    · rename_i hchanged
      rcases hcases with ⟨ha, -, -, -, hc, -⟩ | ⟨hleased, hanswer⟩
      · exact absurd (by rw [ha, hc]) hchanged
      · cases hanswer
        cases write with
        | stored =>
          cases h
          exact ⟨rfl, e', rfl, .inr (.inl ⟨hleased, rfl, .inl rfl⟩)⟩
        | failed effect =>
          cases h
          refine ⟨rfl, _, rfl, .inr (.inr ⟨⟨e', hleased⟩, rfl, rfl, hleased.leaseNs, rfl, ?_⟩)⟩
          cases effect with
          | false => exact .inr rfl
          | true => exact .inl rfl

namespace System

/-- The witness waits out what the members hold: by its own expiry, or by the quarantine of its start. -/
structure Covers (e : Engine) (s : System) : Prop where
  leaseNs : e.leaseNs = s.server.config.leaseMs * milli
  expiry_le : e.expiry ≤ u64Max
  recorded : e.expiry ≠ 0 → s.server.leaseNs = e.leaseNs
  outlasts : ∀ slot : Fin 2,
    (s.members slot).hold ≤ e.expiry - s.now ∧ (0 < (s.members slot).hold → e.authority.owner = slot + 1) ∨
      e.expiry = 0 ∧ (e.quarantine = u64Max ∨ (s.members slot).hold ≤ e.quarantine - s.now)

structure Inv (s : System) : Prop where
  node : ∀ slot : Fin 2, (s.members slot).node = slot + 1
  sane : ∀ slot, (s.members slot).Sane
  single : (s.members 0).hold = 0 ∨ (s.members 1).hold = 0
  disk : ∀ slot, (s.members slot).hold ≤ s.server.leaseNs
  covers : ∀ e ∈ s.server.engine, Covers e s

theorem exclusive_of_inv {s : System} (h : s.Inv) : s.Exclusive := by
  rintro ⟨h0, h1⟩
  have hpos0 := hold_pos_of_active h0
  have hpos1 := hold_pos_of_active h1
  rcases h.single with hz | hz <;> omega

/-- The lease of an engine stands as that of another one. -/
structure SameLease (e e' : Engine) : Prop where
  authority : e'.authority = e.authority
  expiry : e'.expiry = e.expiry
  quarantine : e'.quarantine = e.quarantine
  leaseNs : e'.leaseNs = e.leaseNs

/-- A step that lengthens no deadline and leaves the lease of the witness alone. -/
theorem inv_of_le {s : System} (h : s.Inv) {t : Server} {members : Fin 2 → Coordinator} (adrift : List Request)
    (hconfig : t.config = s.server.config) (hdisk : t.disk = s.server.disk)
    (hengine : ∀ e' ∈ t.engine, ∃ e ∈ s.server.engine, SameLease e e')
    (hnode : ∀ slot, (members slot).node = (s.members slot).node) (hsane : ∀ slot, (members slot).Sane)
    (hle : ∀ slot, (members slot).hold ≤ (s.members slot).hold) : Inv ⟨t, s.clock, members, adrift⟩ := by
  have hlease : t.leaseNs = s.server.leaseNs := by rw [Server.leaseNs, Server.leaseNs, hdisk]
  constructor
  · intro slot
    exact (hnode slot).trans (h.node slot)
  · exact hsane
  · have h0 := hle 0
    have h1 := hle 1
    show (members 0).hold = 0 ∨ (members 1).hold = 0
    rcases h.single with hz | hz
    · exact .inl (by omega)
    · exact .inr (by omega)
  · intro slot
    show (members slot).hold ≤ t.leaseNs
    rw [hlease]
    exact (hle slot).trans (h.disk slot)
  · intro e' he'
    obtain ⟨e, he, hsame⟩ := hengine e' he'
    have hc := h.covers e he
    refine ⟨?_, ?_, ?_, ?_⟩
    · show e'.leaseNs = t.config.leaseMs * milli
      rw [hsame.leaseNs, hc.leaseNs, hconfig]
    · rw [hsame.expiry]
      exact hc.expiry_le
    · intro hne
      show t.leaseNs = e'.leaseNs
      rw [hlease, hsame.leaseNs]
      exact hc.recorded (hsame.expiry ▸ hne)
    · intro slot
      have hslot := hle slot
      rcases hc.outlasts slot with ⟨hx, ho⟩ | ⟨hz, hq⟩
      · refine .inl ⟨?_, ?_⟩
        · rw [hsame.expiry]
          exact hslot.trans hx
        · intro hpos
          rw [hsame.authority]
          exact ho (lt_of_lt_of_le hpos hslot)
      · refine .inr ⟨hsame.expiry.trans hz, ?_⟩
        rw [hsame.quarantine]
        exact hq.imp id hslot.trans

theorem members_update {P : Coordinator → Coordinator → Prop} (hrefl : ∀ c, P c c) {s : System} {slot : Fin 2}
    {c : Coordinator} (h : P (s.members slot) c) (i : Fin 2) : P (s.members i) (Function.update s.members slot c i) := by
  by_cases hi : i = slot
  · subst hi
    rwa [Function.update_self]
  · rw [Function.update_of_ne hi]
    exact hrefl _

/-- A step of a member that lengthens no deadline. -/
theorem inv_setMember {s : System} (h : s.Inv) {slot : Fin 2} {c : Coordinator} (adrift : List Request)
    (hnode : c.node = (s.members slot).node) (hsane : c.Sane) (hhold : c.hold ≤ (s.members slot).hold) :
    Inv ({ s with adrift := adrift }.setMember slot c) := by
  have hnodes := members_update (P := fun c d => d.node = c.node) (fun _ => rfl) hnode
  have hle := members_update (P := fun c d => d.hold ≤ c.hold) (fun _ => le_rfl) hhold
  have hsanes := members_update (P := fun c d => c.Sane → d.Sane) (fun _ => id) (fun _ : (s.members slot).Sane => hsane)
  exact inv_of_le h adrift rfl rfl (fun e he => ⟨e, he, rfl, rfl, rfl, rfl⟩) hnodes
    (fun i => hsanes i (h.sane i)) hle

/-- While nobody but the asking member may act, nobody else does after a grant. -/
theorem hold_eq_zero_of_leased {s : System} {e e' : Engine} {r : Request} (h : Covers e s) (hl : Leased e r s.now e')
    {slot : Fin 2} (hother : (slot : ℕ) + 1 ≠ r.node ∨ e.expiry ≤ s.now) : (s.members slot).hold = 0 := by
  have hclock := hl.clock
  have hle := s.clock.le
  have hquar := hl.quarantine_le
  rcases h.outlasts slot with ⟨hx, ho⟩ | ⟨hz, hq⟩
  · by_contra hne
    have howner := ho (Nat.pos_of_ne_zero hne)
    rcases hl.vacant with ⟨hcur, hown⟩ | ⟨hlapsed, -⟩
    · rcases hother with hother | hother
      · omega
      · omega
    · omega
  · rcases hq with hq | hq
    · rw [hq] at hquar
      exact absurd (le_antisymm hle hquar) hclock
    · omega

/-- A session of the witness, with what its reply lets a member hold. -/
theorem inv_session {s : System} (h : s.Inv) {r : Request} {write : WriteOutcome} {t : Server} {sent : Option Reply}
    (hs : s.server.session r s.now write = (t, sent)) (members : Fin 2 → Coordinator) (adrift : List Request)
    (hnode : ∀ slot, (members slot).node = (s.members slot).node) (hsane : ∀ slot, (members slot).Sane)
    (hhold : ∀ slot : Fin 2, (members slot).hold ≤ (s.members slot).hold ∨
      (slot : ℕ) + 1 = r.node ∧ ∃ x ∈ sent, x.granted = true ∧
        (members slot).hold ≤ max (s.members slot).hold (x.remainingMs * milli)) :
    Inv ⟨t, s.clock, members, adrift⟩ := by
  have hquiet : (∀ x ∈ sent, x.granted = false) → ∀ slot, (members slot).hold ≤ (s.members slot).hold := by
    intro hno slot
    rcases hhold slot with hle | ⟨-, x, hx, hgranted, -⟩
    · exact hle
    · rw [hno x hx] at hgranted
      cases hgranted
  cases he : s.server.engine with
  | none =>
    simp only [Server.session, he] at hs
    obtain ⟨rfl, rfl⟩ := Prod.mk.inj hs
    exact inv_of_le h adrift rfl rfl (fun e he => ⟨e, he, rfl, rfl, rfl, rfl⟩) hnode hsane (hquiet (by simp))
  | some e =>
    have hc := h.covers e he
    obtain ⟨hconfig, e', he', hcases⟩ := session_cases he hs
    have honly : ∀ e'' ∈ t.engine, e'' = e' := by
      intro e'' he''
      exact Option.some.inj ((show t.engine = some e'' from he'').symm.trans he')
    have hnodes : ∀ slot : Fin 2, (members slot).node = slot + 1 := fun slot => (hnode slot).trans (h.node slot)
    rcases hcases with ⟨ha, hx, hq, hl, hdisk, hno⟩ | ⟨hleased, hsent, hrecord⟩ | ⟨⟨g, hleased⟩, hx, hq, hl, hsent, hrecord⟩
    · refine inv_of_le h adrift hconfig hdisk ?_ hnode hsane (hquiet hno)
      intro e'' he''
      obtain rfl := honly e'' he''
      exact ⟨e, he, ha, hx, hq, hl⟩
    · have hlease : t.leaseNs = e.leaseNs := by
        rw [hc.leaseNs]
        rcases hrecord with hrecord | ⟨hdisk, hcur⟩
        · exact hrecord
        · rw [← hc.leaseNs, ← hc.recorded (by omega), Server.leaseNs, Server.leaseNs, hdisk]
      have hothers : ∀ slot : Fin 2, (slot : ℕ) + 1 ≠ r.node → (members slot).hold = 0 := by
        intro slot hne
        have hzero := hold_eq_zero_of_leased hc hleased (.inl hne)
        rcases hhold slot with hle | ⟨heq, -⟩
        · omega
        · exact absurd heq hne
      have hbound : ∀ slot, (members slot).hold ≤ e'.expiry - s.now := by
        intro slot
        have hremains : (e'.expiry - s.now) / milli * milli ≤ e'.expiry - s.now := Nat.div_mul_le_self _ _
        have hold : (s.members slot).hold ≤ e'.expiry - s.now := by
          rw [hleased.expiry, saturatingAdd]
          rcases Nat.lt_or_ge s.now e.expiry with hcur | hlapsed
          · have hdisk := h.disk slot
            rw [hc.recorded (by omega)] at hdisk
            have hexp := hc.expiry_le
            rcases hc.outlasts slot with ⟨hx, -⟩ | ⟨hz, -⟩ <;> omega
          · rw [hold_eq_zero_of_leased hc hleased (.inr hlapsed)]
            exact Nat.zero_le _
        rcases hhold slot with hle | ⟨-, x, hx, -, hle⟩
        · exact hle.trans hold
        · rw [hsent] at hx
          cases hx
          exact hle.trans (max_le hold hremains)
      constructor
      · exact hnodes
      · exact hsane
      · by_cases hnode1 : r.node = 1
        · exact .inr (hothers 1 (by rw [hnode1]; decide))
        · exact .inl (hothers 0 (fun heq => hnode1 heq.symm))
      · intro slot
        have hslot := hbound slot
        rw [hleased.expiry, saturatingAdd] at hslot
        show (members slot).hold ≤ t.leaseNs
        omega
      · intro e'' he''
        obtain rfl := honly e'' he''
        refine ⟨?_, ?_, fun _ => hlease.trans hleased.leaseNs.symm, ?_⟩
        · show e''.leaseNs = t.config.leaseMs * milli
          rw [hleased.leaseNs, hc.leaseNs, hconfig]
        · rw [hleased.expiry]
          exact min_le_right _ _
        · intro slot
          refine .inl ⟨hbound slot, ?_⟩
          intro hpos
          have hpos' : 0 < (members slot).hold := hpos
          by_contra hne
          have hzero := hothers slot (by rw [hleased.owner] at hne; omega)
          omega
    · have hle := hquiet (by rw [hsent]; simp)
      have hdisk : ∀ slot, (s.members slot).hold ≤ t.leaseNs := by
        intro slot
        rcases hrecord with hrecord | hdisk
        · rw [hrecord]
          rcases Nat.lt_or_ge s.now e.expiry with hcur | hlapsed
          · rw [← hc.leaseNs, ← hc.recorded (by omega)]
            exact h.disk slot
          · rw [hold_eq_zero_of_leased hc hleased (.inr hlapsed)]
            exact Nat.zero_le _
        · rw [Server.leaseNs, hdisk]
          exact h.disk slot
      constructor
      · exact hnodes
      · exact hsane
      · have h0 := hle 0
        have h1 := hle 1
        show (members 0).hold = 0 ∨ (members 1).hold = 0
        rcases h.single with hz | hz
        · exact .inl (by omega)
        · exact .inr (by omega)
      · intro slot
        exact (hle slot).trans (hdisk slot)
      · intro e'' he''
        obtain rfl := honly e'' he''
        refine ⟨?_, by rw [hx]; exact Nat.zero_le _, fun hne => absurd hx hne, fun slot => .inr ⟨hx, .inl hq⟩⟩
        show e''.leaseNs = t.config.leaseMs * milli
        rw [hl, hc.leaseNs, hconfig]

theorem inv_reach {s : System} (h : s.Inv) (slot : Fin 2) (write : WriteOutcome) : (s.reach slot write).Inv := by
  unfold reach
  simp only
  split
  · rename_i start r reply hx
    obtain ⟨⟨t, sent⟩, hs⟩ : ∃ x, s.server.session r s.now write = x := ⟨_, rfl⟩
    have hsane := h.sane slot
    have hstart := hsane.start_le _ hx
    have hown : r.node = slot + 1 := (hsane.own _ hx r rfl).trans (h.node slot)
    have hreply := Coordinator.hold_reply (c := s.members slot) start hstart sent
    have hsane' : (s.members slot).Sane → Coordinator.Sane { s.members slot with exchange := some ⟨start, none, sent⟩ } :=
      fun hc => ⟨hc.deadline_le, by simpa using hstart, by simp⟩
    have hsanes := members_update (P := fun c d => c.Sane → d.Sane) (fun _ => id) hsane'
    rw [hs]
    refine inv_session h hs _ _ (members_update (P := fun c d => d.node = c.node) (fun _ => rfl) rfl)
      (fun i => hsanes i (h.sane i)) ?_
    intro i
    by_cases hi : i = slot
    · subst hi
      rw [Function.update_self]
      exact hreply.imp id fun hgrant => ⟨hown.symm, hgrant⟩
    · rw [Function.update_of_ne hi]
      exact .inl le_rfl
  · exact h

theorem inv_reachAdrift {s : System} (h : s.Inv) (i : ℕ) (write : WriteOutcome) : (s.reachAdrift i write).Inv := by
  unfold reachAdrift
  split
  · rename_i r hr
    exact inv_session h (Prod.mk.eta (p := s.server.session r s.now write)).symm s.members _ (fun _ => rfl) h.sane
      fun slot => .inl le_rfl
  · exact h

theorem inv_tick {s : System} (h : s.Inv) (elapsed : ℕ) : (s.step (.tick elapsed)).Inv := by
  have hle : ∀ slot, ((s.step (.tick elapsed)).members slot).hold ≤ (s.members slot).hold - elapsed :=
    fun slot => Coordinator.hold_tick (h.sane slot) elapsed
  have hnow : (s.step (.tick elapsed)).now = min (s.now + elapsed) u64Max := rfl
  constructor
  · exact h.node
  · intro slot
    have hs := h.sane slot
    refine ⟨hs.deadline_le, ?_, hs.own⟩
    intro x hx
    have hstart := hs.start_le x hx
    have hclock := (s.members slot).clock.le
    show x.start ≤ min ((s.members slot).now + elapsed) u64Max
    exact le_min (by omega) (hstart.trans hclock)
  · have h0 := hle 0
    have h1 := hle 1
    rcases h.single with hz | hz
    · exact .inl (by omega)
    · exact .inr (by omega)
  · intro slot
    have hs := hle slot
    have hd := h.disk slot
    exact (hs.trans (Nat.sub_le _ _)).trans hd
  · intro e he
    have hc := h.covers e he
    refine ⟨hc.leaseNs, hc.expiry_le, hc.recorded, ?_⟩
    intro slot
    have hs := hle slot
    have hx := hc.expiry_le
    rw [hnow]
    rcases hc.outlasts slot with ⟨hxs, ho⟩ | ⟨hz, hq⟩
    · refine .inl ⟨by omega, ?_⟩
      intro hpos
      exact ho (by omega)
    · refine .inr ⟨hz, ?_⟩
      rcases hq with hq | hq
      · exact .inl hq
      · exact .inr (by omega)

theorem inv_restartWitness {s : System} (h : s.Inv) (c : WitnessConfig) (clock : Clock) :
    (s.step (.restartWitness c clock)).Inv := by
  refine ⟨h.node, h.sane, h.single, h.disk, ?_⟩
  intro e he
  obtain ⟨claim, rfl⟩ := restore_eq (show restore c s.server.disk clock.reading = some e from he)
  refine ⟨rfl, Nat.zero_le _, fun hne => absurd rfl hne, ?_⟩
  intro slot
  refine .inr ⟨rfl, ?_⟩
  have hd : (s.members slot).hold ≤ (s.server.disk.map Durable.leaseMs).getD ttlMs * milli := h.disk slot
  have houtlasts : (s.server.disk.map Durable.leaseMs).getD ttlMs * milli ≤
      (max ((s.server.disk.map Durable.leaseMs).getD ttlMs) c.leaseMs + marginMs) * milli :=
    Nat.mul_le_mul_right _ (by omega)
  show saturatingAdd clock.reading
      ((max ((s.server.disk.map Durable.leaseMs).getD ttlMs) c.leaseMs + marginMs) * milli) = u64Max ∨
    (s.members slot).hold ≤ saturatingAdd clock.reading
      ((max ((s.server.disk.map Durable.leaseMs).getD ttlMs) c.leaseMs + marginMs) * milli) - clock.reading
  generalize (max ((s.server.disk.map Durable.leaseMs).getD ttlMs) c.leaseMs + marginMs) * milli = wait at houtlasts ⊢
  unfold saturatingAdd
  by_cases hfits : clock.reading + wait ≤ u64Max
  · exact .inr (by omega)
  · exact .inl (by omega)

theorem inv_step {s : System} (ev : Event) (h : s.Inv) : (s.step ev).Inv := by
  cases ev with
  | tick elapsed => exact inv_tick h elapsed
  | ask slot report =>
    have hsane := Coordinator.sane_ask (h.sane slot) report
    exact inv_setMember h s.adrift ((s.members slot).node_ask report) hsane ((s.members slot).hold_ask report)
  | reach slot write => exact inv_reach h slot write
  | reachAdrift i write => exact inv_reachAdrift h i write
  | conclude slot fit =>
    have hsane := Coordinator.sane_conclude (h.sane slot) fit
    exact inv_setMember h s.adrift ((s.members slot).node_conclude fit) hsane ((s.members slot).hold_conclude fit)
  | abandon slot fit =>
    have hsane := Coordinator.sane_settle (h.sane slot) (.inl rfl) fit
    exact inv_setMember h _ ((s.members slot).node_settle none fit) hsane ((s.members slot).hold_settle (.inl rfl) fit)
  | relinquish slot =>
    have hs := h.sane slot
    exact inv_setMember h s.adrift rfl ⟨Nat.zero_le _, hs.start_le, hs.own⟩ (s.members slot).hold_relinquish
  | restartMember slot boot clock =>
    have hsane := Coordinator.sane_fresh (s.members slot).cluster (s.members slot).node (s.members slot).leaseMs boot clock
    have hhold := Coordinator.hold_fresh (s.members slot).cluster (s.members slot).node (s.members slot).leaseMs boot clock
    exact inv_setMember h _ rfl hsane (hhold.trans_le (Nat.zero_le _))
  | restartWitness c clock => exact inv_restartWitness h c clock

theorem inv_boot (c : WitnessConfig) (disk : Option Durable) (clock : Clock) (leaseMs : Fin 2 → ℕ) (boots : Fin 2 → Boot)
    (clocks : Fin 2 → Clock) : (boot c disk clock leaseMs boots clocks).Inv := by
  have hzero : ∀ slot, ((boot c disk clock leaseMs boots clocks).members slot).hold = 0 :=
    fun slot => Coordinator.hold_fresh _ _ _ _ _
  refine ⟨fun slot => rfl, fun slot => Coordinator.sane_fresh _ _ _ _ _, .inl (hzero 0), ?_, ?_⟩
  · intro slot
    rw [hzero]
    exact Nat.zero_le _
  · intro e he
    obtain ⟨claim, rfl⟩ := restore_eq (show restore c disk clock.reading = some e from he)
    refine ⟨rfl, Nat.zero_le _, fun hne => absurd rfl hne, ?_⟩
    intro slot
    rw [hzero]
    exact .inr ⟨rfl, .inr (Nat.zero_le _)⟩

/-- Whatever is lost, delayed, given up or restarted, at most one member acts. -/
theorem exclusive_run (c : WitnessConfig) (disk : Option Durable) (clock : Clock) (leaseMs : Fin 2 → ℕ)
    (boots : Fin 2 → Boot) (clocks : Fin 2 → Clock) (es : List Event) :
    (es.foldl step (boot c disk clock leaseMs boots clocks)).Exclusive := by
  have hrun : Run.Every step (fun _ _ => True) (boot c disk clock leaseMs boots clocks) es := Run.every_true _ _ _
  exact exclusive_of_inv (hrun.invariant Inv (inv_boot c disk clock leaseMs boots clocks) fun s ev hs _ => inv_step ev hs)

/-- The first member opens a new cluster after the quarantine, and acts. -/
example : (((List.foldl step (boot (.ofCluster "ha-test-cluster-01") none ⟨0, by decide⟩ (fun _ => 250) (fun _ => 1)
      (fun _ => ⟨5, by decide⟩))
    [.tick (270 * milli), .ask 0 ⟨3, 200, true, 0, 7, true⟩, .tick milli, .reach 0 .stored, .tick milli,
      .conclude 0 true]).members 0).Active) := by decide +kernel

end System

end Wren.Ha
