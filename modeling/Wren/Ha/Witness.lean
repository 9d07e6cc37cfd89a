import Mathlib.Data.Nat.Basic
import Mathlib.Logic.Function.Basic
import Mathlib.Data.Prod.Lex
import Wren.Lib.Run

/-! The witness of a pair of gateways: one authority at a time, granted as a lease and recorded on disk. -/

namespace Wren.Ha

def ttlMs : ℕ := 250
def marginMs : ℕ := 20
/-- No configuration lets a lost member keep its authority for longer. -/
def maxLeaseMs : ℕ := 10000
/-- Nanoseconds in a millisecond. -/
def milli : ℕ := 1000000

def u64Max : ℕ := 2 ^ 64 - 1
def saturatingAdd (a b : ℕ) : ℕ := min (a + b) u64Max
def checkedAdd (a b : ℕ) : Option ℕ := if a + b ≤ u64Max then some (a + b) else none

/-- A reading of the boot clock in nanoseconds. It saturates, and its largest value stands for a clock that cannot be read. -/
structure Clock where
  reading : ℕ
  le : reading ≤ u64Max

def Clock.advance (c : Clock) (elapsed : ℕ) : Clock := ⟨saturatingAdd c.reading elapsed, min_le_right _ _⟩

/-- The identity that a process draws when it starts. -/
abbrev Boot := BitVec 128
/-- A SHA-256 fingerprint of the desired configuration. -/
abbrev Policy := BitVec 256

structure Authority where
  term : ℕ
  owner : ℕ
  boot : Boot
  policy : Policy
deriving DecidableEq

/-- No generation at all. -/
def Authority.default : Authority := ⟨0, 0, 0, 0⟩

structure Request where
  cluster : String
  node : ℕ
  boot : Boot
  agentBoot : Boot
  priority : ℕ
  preempt : Bool
  readyTerm : ℕ
  policy : Policy
  eligible : Bool
deriving DecidableEq

structure Claim where
  readyTerm : ℕ
  agentBoot : Boot
deriving DecidableEq

def Claim.default : Claim := ⟨0, 0⟩

structure Reply where
  authority : Authority
  claim : Claim
  remainingMs : ℕ
  granted : Bool
deriving DecidableEq

instance neZeroTwo : NeZero (2 : ℕ) := ⟨by decide⟩

theorem ttlMs_le_maxLeaseMs : ttlMs ≤ maxLeaseMs := by decide

/-- What `WitnessConfig::validate` lets through. -/
structure WitnessConfig where
  cluster : String
  leaseMs : ℕ
  peerSilenceMs : ℕ
  lease_le : leaseMs ≤ maxLeaseMs
  margin_lt : marginMs < leaseMs
  silence_ge : 1000 ≤ peerSilenceMs ∧ 4 * leaseMs ≤ peerSilenceMs
  silence_le : peerSilenceMs ≤ u64Max

/-- The configuration that the defaults give. -/
def WitnessConfig.ofCluster (cluster : String) : WitnessConfig :=
  ⟨cluster, ttlMs, 10000, ttlMs_le_maxLeaseMs, by decide, by decide, by decide⟩

/-- The state file. A witness only ever writes the lease of a valid configuration. -/
structure Durable where
  cluster : String
  authority : Authority
  claim : Claim
  leaseMs : ℕ
  lease_le : leaseMs ≤ maxLeaseMs

structure ColdVote where
  boot : Boot
  policy : Policy
  cast : ℕ
deriving DecidableEq

structure Preference where
  node : ℕ
  priority : ℕ
  expires : ℕ
deriving DecidableEq

structure Engine where
  cluster : String
  authority : Authority
  expiry : ℕ
  quarantine : ℕ
  ownerPriority : ℕ
  preferred : Option Preference
  cold : Fin 2 → Option ColdVote
  claim : Claim
  leaseNs : ℕ
  silenceNs : ℕ
  heard : Fin 2 → ℕ

def Request.slot (r : Request) : Fin 2 := Fin.ofNat 2 (r.node - 1)

/-- The other member's slot. -/
def other (slot : Fin 2) : Fin 2 := 1 - slot

namespace Engine

/-- A witness that starts with what an earlier one left waits out the longer of both leases. -/
def configured (cluster : String) (previous : Authority) (recordedLeaseMs leaseMs silenceMs now : ℕ) : Engine :=
  let outstanding := max recordedLeaseMs leaseMs
  { cluster := cluster
    authority := previous
    expiry := 0
    quarantine := saturatingAdd now ((outstanding + marginMs) * milli)
    ownerPriority := 0
    preferred := none
    cold := fun _ => none
    claim := .default
    leaseNs := leaseMs * milli
    silenceNs := silenceMs * milli % 2 ^ 64
    heard := fun _ => now }

/-- The member check: everything else is an unknown cluster or member. -/
def admits (e : Engine) (r : Request) : Bool :=
  r.cluster = e.cluster ∧ (1 ≤ r.node ∧ r.node ≤ 2) ∧ 0 < r.priority ∧ (r.eligible = true → r.agentBoot ≠ 0)

def lapse (e : Engine) (now : ℕ) : Engine :=
  if e.preferred.any (fun p => p.expires ≤ now) then { e with preferred := none } else e

/-- The request is noted, as a vote if it is a cold one. -/
def hear (e : Engine) (r : Request) (now : ℕ) : Engine :=
  { e with
    heard := Function.update e.heard r.slot now
    cold := Function.update e.cold r.slot
      (if r.eligible && r.readyTerm = 0 then some ⟨r.boot, r.policy, now⟩ else none) }

def coldQuorum (e : Engine) (r : Request) (now : ℕ) : Bool :=
  ∀ slot, (e.cold slot).any fun v => v.policy = r.policy ∧ now - v.cast < 2 * e.leaseNs

def current (e : Engine) (now : ℕ) : Bool := now < e.expiry

def ours (e : Engine) (r : Request) : Bool := r.node = e.authority.owner ∧ r.boot = e.authority.boot

def exact (e : Engine) (r : Request) : Bool :=
  r.policy = e.authority.policy ∧ r.readyTerm = e.authority.term

/-- A complete snapshot of a predecessor is a valid baseline if the owner dies before it exports its own. -/
def ready (e : Engine) (r : Request) : Bool :=
  r.policy = e.authority.policy ∧ 0 < r.readyTerm ∧ r.readyTerm ≤ e.authority.term

def initial (e : Engine) (r : Request) : Bool := e.authority.term = 0 ∧ r.node = 1 ∧ r.readyTerm = 0

/-- The exact claim of the durable grant is repeated. -/
def retry (e : Engine) (r : Request) : Bool :=
  e.ours r ∧ r.policy = e.authority.policy ∧ r.readyTerm = e.claim.readyTerm ∧ r.agentBoot = e.claim.agentBoot

/-- A lone survivor: the other member was silent for the whole interval that this witness observed. -/
def lone (e : Engine) (r : Request) (now : ℕ) : Bool :=
  0 < e.authority.term ∧ r.readyTerm = 0 ∧ e.silenceNs ≤ now - e.heard (other r.slot)

def eligible (e : Engine) (r : Request) (now : ℕ) : Bool :=
  r.eligible && (e.ready r || e.initial r || e.retry r || (e.coldQuorum r now && r.node = 1) || e.lone r now)

/-- A ready member with the better priority asks for the authority of a live owner. -/
def prefer (e : Engine) (r : Request) (now : ℕ) : Engine :=
  if e.current now && !e.ours r && e.exact r && r.eligible && r.preempt &&
      toLex (e.ownerPriority, 3 - e.authority.owner) < toLex (r.priority, 3 - r.node) then
    { e with preferred := some ⟨r.node, r.priority, saturatingAdd now (2 * e.leaseNs)⟩ }
  else e

def preferredUs (e : Engine) (r : Request) : Bool := e.preferred.all fun p => p.node = r.node

/-- The owner renews its lease; a changed policy opens a new term of the same owner. -/
def renew (e : Engine) (r : Request) (now : ℕ) : Option Engine :=
  let renewed (e : Engine) : Engine :=
    { e with expiry := saturatingAdd now e.leaseNs, ownerPriority := r.priority }
  if r.policy = e.authority.policy then some (renewed e)
  else
    (checkedAdd e.authority.term 1).map fun term =>
      renewed { e with authority := { e.authority with term := term, policy := r.policy }, preferred := none }

/-- Nobody holds the lease: the member opens a new term. -/
def promote (e : Engine) (r : Request) (now : ℕ) : Option Engine :=
  (checkedAdd e.authority.term 1).map fun term =>
    { e with
      authority := ⟨term, r.node, r.boot, r.policy⟩
      expiry := saturatingAdd now e.leaseNs
      ownerPriority := r.priority
      preferred := none
      cold := fun _ => none }

def renews (e : Engine) (r : Request) (now : ℕ) : Bool :=
  e.current now && e.ours r && (r.readyTerm = e.authority.term || e.retry r) &&
    (e.preferredUs r || r.policy ≠ e.authority.policy)

def promotes (e : Engine) (r : Request) (now : ℕ) : Bool :=
  !e.current now && e.eligible r now && e.preferredUs r

/-- The engine after the decision, if something is granted; `none` inside is an exhausted term. -/
def grant (e : Engine) (r : Request) (now : ℕ) : Option (Option Engine) :=
  if e.quarantine ≤ now && r.eligible then
    if e.renews r now then some (e.renew r now)
    else if e.promotes r now then some (e.promote r now)
    else none
  else none

def reply (e : Engine) (now : ℕ) (granted : Bool) : Reply :=
  ⟨e.authority, e.claim, (e.expiry - now) / milli, granted⟩

/-- `Engine::request`: what an error leaves behind stays. -/
def request (e : Engine) (r : Request) (now : ℕ) : Engine × Except String Reply :=
  if !e.admits r then (e, .error "unknown cluster/member")
  else if now = u64Max then (e.lapse now, .error "witness clock unavailable")
  else
    let e := ((e.lapse now).hear r now).prefer r now
    match e.grant r now with
    | none => (e, .ok (e.reply now false))
    | some none => (e, .error "HA term exhausted")
    | some (some e) =>
      let e := { e with claim := ⟨r.readyTerm, r.agentBoot⟩ }
      (e, .ok (e.reply now true))

/-! ### What a request can do -/

theorem lapse_eq (e : Engine) (now : ℕ) : ∃ p, e.lapse now = { e with preferred := p } := by
  unfold lapse
  split
  · exact ⟨none, rfl⟩
  · exact ⟨e.preferred, rfl⟩

theorem prefer_eq (e : Engine) (r : Request) (now : ℕ) : ∃ p, e.prefer r now = { e with preferred := p } := by
  unfold prefer
  split
  · exact ⟨_, rfl⟩
  · exact ⟨e.preferred, rfl⟩

/-- The engine that has noted a request and decides about it. -/
def noted (e : Engine) (r : Request) (now : ℕ) : Engine := ((e.lapse now).hear r now).prefer r now

theorem noted_eq (e : Engine) (r : Request) (now : ℕ) :
    ∃ p, e.noted r now = { e.hear r now with preferred := p } := by
  obtain ⟨p, hp⟩ := e.lapse_eq now
  obtain ⟨q, hq⟩ := ({ e with preferred := p }.hear r now).prefer_eq r now
  refine ⟨q, ?_⟩
  rw [noted, hp, hq]
  rfl

/-- A request is turned down unheard, or noted and then answered: with an error, without a grant, or with one. -/
theorem request_cases (e : Engine) (r : Request) (now : ℕ) :
    ((e.admits r = false ∨ now = u64Max) ∧
        ∃ p m, e.request r now = ({ e with preferred := p }, .error m)) ∨
      (e.admits r = true ∧ now ≠ u64Max ∧
        ((∃ m, e.request r now = (e.noted r now, .error m)) ∨
          e.request r now = (e.noted r now, .ok ((e.noted r now).reply now false)) ∨
          ∃ g, (e.noted r now).grant r now = some (some g) ∧
            e.request r now = ({ g with claim := ⟨r.readyTerm, r.agentBoot⟩ },
              .ok ({ g with claim := ⟨r.readyTerm, r.agentBoot⟩ }.reply now true)))) := by
  cases ha : e.admits r with
  | false => exact .inl ⟨.inl rfl, e.preferred, "unknown cluster/member", by simp [request, ha]⟩
  | true =>
    by_cases hnow : now = u64Max
    · obtain ⟨p, hp⟩ := e.lapse_eq now
      exact .inl ⟨.inr hnow, p, "witness clock unavailable", by rw [← hp]; simp [request, ha, hnow]⟩
    · refine .inr ⟨rfl, hnow, ?_⟩
      have hreq : e.request r now =
          match (e.noted r now).grant r now with
          | none => (e.noted r now, .ok ((e.noted r now).reply now false))
          | some none => (e.noted r now, .error "HA term exhausted")
          | some (some g) =>
            ({ g with claim := ⟨r.readyTerm, r.agentBoot⟩ },
              .ok ({ g with claim := ⟨r.readyTerm, r.agentBoot⟩ }.reply now true)) := by
        simp only [request, ha, Bool.not_true, Bool.false_eq_true, if_false, if_neg hnow]
        rfl
      rw [hreq]
      match (e.noted r now).grant r now with
      | none => exact .inr (.inl rfl)
      | some none => exact .inl ⟨_, rfl⟩
      | some (some g) => exact .inr (.inr ⟨g, rfl, rfl⟩)

/-- What a renewal makes of the engine: the owner keeps its term, or opens the next one for its new policy. -/
structure Renewed (e : Engine) (r : Request) (now : ℕ) (g : Engine) : Prop where
  current : now < e.expiry
  ours : e.ours r = true
  baseline : r.readyTerm = e.authority.term ∨ e.retry r = true
  authority : r.policy = e.authority.policy ∧ g.authority = e.authority ∨
    r.policy ≠ e.authority.policy ∧ g.authority = ⟨e.authority.term + 1, r.node, r.boot, r.policy⟩
  cold : g.cold = e.cold

/-- What a promotion makes of it. -/
structure Promoted (e : Engine) (r : Request) (now : ℕ) (g : Engine) : Prop where
  lapsed : e.expiry ≤ now
  eligible : e.eligible r now = true
  authority : g.authority = ⟨e.authority.term + 1, r.node, r.boot, r.policy⟩
  cold : ∀ slot, g.cold slot = none

/-- What every grant does. -/
structure Granted (e : Engine) (r : Request) (now : ℕ) (g : Engine) : Prop where
  quarantine_le : e.quarantine ≤ now
  how : e.Renewed r now g ∨ e.Promoted r now g
  expiry : g.expiry = saturatingAdd now e.leaseNs
  cluster : g.cluster = e.cluster
  quarantine : g.quarantine = e.quarantine
  leaseNs : g.leaseNs = e.leaseNs
  silenceNs : g.silenceNs = e.silenceNs
  heard : g.heard = e.heard

theorem renew_spec {e g : Engine} {r : Request} {now : ℕ} (hours : e.ours r = true) (h : e.renew r now = some g) :
    (r.policy = e.authority.policy ∧ g.authority = e.authority ∨
      r.policy ≠ e.authority.policy ∧ g.authority = ⟨e.authority.term + 1, r.node, r.boot, r.policy⟩) ∧
      g = { e with
        authority := g.authority
        expiry := saturatingAdd now e.leaseNs
        ownerPriority := r.priority
        preferred := g.preferred } := by
  have hown : r.node = e.authority.owner ∧ r.boot = e.authority.boot := by simpa [ours] using hours
  unfold renew at h
  split at h
  · rename_i hpol
    cases h
    exact ⟨.inl ⟨hpol, rfl⟩, rfl⟩
  · rename_i hpol
    obtain ⟨term, hterm, rfl⟩ := Option.map_eq_some_iff.mp h
    have hsucc : e.authority.term + 1 = term := by
      unfold checkedAdd at hterm
      split at hterm
      · exact Option.some.inj hterm
      · cases hterm
    refine ⟨.inr ⟨hpol, ?_⟩, rfl⟩
    rw [hsucc, hown.1, hown.2]

theorem promote_spec {e g : Engine} {r : Request} {now : ℕ} (h : e.promote r now = some g) :
    g = { e with
      authority := ⟨e.authority.term + 1, r.node, r.boot, r.policy⟩
      expiry := saturatingAdd now e.leaseNs
      ownerPriority := r.priority
      preferred := none
      cold := fun _ => none } := by
  obtain ⟨term, hterm, rfl⟩ := Option.map_eq_some_iff.mp h
  have hsucc : e.authority.term + 1 = term := by
    unfold checkedAdd at hterm
    split at hterm
    · exact Option.some.inj hterm
    · cases hterm
  rw [hsucc]

theorem granted_of_grant {e g : Engine} {r : Request} {now : ℕ} (h : e.grant r now = some (some g)) :
    e.Granted r now g := by
  unfold grant at h
  split at h
  · rename_i hq
    have hquar : e.quarantine ≤ now ∧ r.eligible = true := by simpa using hq
    split at h
    · rename_i hren
      have hparts : ((now < e.expiry ∧ e.ours r = true) ∧
          (r.readyTerm = e.authority.term ∨ e.retry r = true)) ∧
          (e.preferredUs r = true ∨ r.policy ≠ e.authority.policy) := by
        simpa [renews, current] using hren
      obtain ⟨⟨⟨hcur, hours⟩, hbase⟩, -⟩ := hparts
      obtain ⟨hauth, hg⟩ := renew_spec hours (Option.some.inj h)
      have hcold : g.cold = e.cold := by rw [hg]
      refine ⟨hquar.1, .inl ⟨hcur, hours, hbase, hauth, hcold⟩, ?_, ?_, ?_, ?_, ?_, ?_⟩ <;> rw [hg]
    · split at h
      · rename_i hpro
        have hparts : (e.expiry ≤ now ∧ e.eligible r now = true) ∧ e.preferredUs r = true := by
          simpa [promotes, current] using hpro
        have hg := promote_spec (Option.some.inj h)
        have hauth : g.authority = ⟨e.authority.term + 1, r.node, r.boot, r.policy⟩ := by rw [hg]
        have hcold : ∀ slot, g.cold slot = none := by
          intro slot
          rw [hg]
        refine ⟨hquar.1, .inr ⟨hparts.1.1, hparts.1.2, hauth, hcold⟩, ?_, ?_, ?_, ?_, ?_, ?_⟩ <;> rw [hg]
      · cases h
  · cases h

end Engine

/-! ### The server around the engine -/

/-- How the write of the state file ends. One that reports an error took effect entirely or not at all. -/
inductive WriteOutcome where
  | stored
  | failed (effect : Bool)
deriving DecidableEq

/-- The engine that `serve` starts from the state file; it does not start from that of another cluster. -/
def restore (c : WitnessConfig) (disk : Option Durable) (now : ℕ) : Option Engine :=
  match disk with
  | none => some (.configured c.cluster .default ttlMs c.leaseMs c.peerSilenceMs now)
  | some saved =>
    if saved.cluster = c.cluster then
      some { Engine.configured c.cluster saved.authority saved.leaseMs c.leaseMs c.peerSilenceMs now with
        claim := saved.claim }
    else none

/-- The engine after a restart: the quarantine counts from the lease on disk. -/
theorem restore_eq {c : WitnessConfig} {disk : Option Durable} {now : ℕ} {e : Engine} (h : restore c disk now = some e) :
    ∃ claim, e = { Engine.configured c.cluster ((disk.map Durable.authority).getD .default)
      ((disk.map Durable.leaseMs).getD ttlMs) c.leaseMs c.peerSilenceMs now with claim := claim } := by
  cases disk with
  | none =>
    simp only [Option.map_none, Option.getD_none]
    exact ⟨.default, (Option.some.inj h).symm⟩
  | some saved =>
    simp only [Option.map_some, Option.getD_some]
    simp only [restore] at h
    split at h
    · exact ⟨saved.claim, (Option.some.inj h).symm⟩
    · cases h

structure Server where
  config : WitnessConfig
  engine : Option Engine
  disk : Option Durable

namespace Server

def record (s : Server) (e : Engine) : Durable :=
  ⟨s.config.cluster, e.authority, e.claim, s.config.leaseMs, s.config.lease_le⟩

/-- One session of `serve`, under the lock of the engine: a changed grant is written before it is sent. -/
def session (s : Server) (r : Request) (now : ℕ) (write : WriteOutcome) : Server × Option Reply :=
  match s.engine with
  | none => (s, none)
  | some e =>
    match e.request r now with
    | (e', .error _) => ({ s with engine := some e' }, none)
    | (e', .ok reply) =>
      if (e.authority, e.claim) = (e'.authority, e'.claim) then ({ s with engine := some e' }, some reply)
      else
        match write with
        | .stored => ({ s with engine := some e', disk := some (s.record e') }, some reply)
        | .failed effect =>
          ({ s with
              engine := some { e' with expiry := 0, quarantine := u64Max }
              disk := if effect then some (s.record e') else s.disk }, none)

def restart (s : Server) (c : WitnessConfig) (now : ℕ) : Server := ⟨c, restore c s.disk now, s.disk⟩

inductive Event where
  | session (r : Request) (now : ℕ) (write : WriteOutcome)
  | restart (c : WitnessConfig) (now : ℕ)

def step (s : Server) : Event → Server × Option Reply
  | .session r now write => s.session r now write
  | .restart c now => (s.restart c now, none)

/-- The generation that a restart finds. -/
def durable (s : Server) : Authority := (s.disk.map Durable.authority).getD .default

end Server
end Wren.Ha
