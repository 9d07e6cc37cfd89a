import Wren.Ha.Witness

/-! When a member without any state may open a term: the votes of the witness against all that it heard. -/

namespace Wren.Ha
open Engine

/-- The silence that the engine waits for, in the wrapping arithmetic of its configuration. -/
def WitnessConfig.silenceNs (c : WitnessConfig) : ℕ := c.peerSilenceMs * milli % 2 ^ 64

def WitnessConfig.leaseNs (c : WitnessConfig) : ℕ := c.leaseMs * milli

/-- A witness on its clock, with the time of its start and the last request that it heard from each member since. -/
structure Watch where
  server : Server
  clock : Clock
  start : ℕ
  last : Fin 2 → Option (Request × ℕ)

namespace Watch

abbrev now (w : Watch) : ℕ := w.clock.reading

inductive Event where
  | tick (elapsed : ℕ)
  | session (r : Request) (write : WriteOutcome)
  | restart (c : WitnessConfig) (clock : Clock)

/-- The witness hears a request that it can attribute and date. -/
def Hears (w : Watch) (r : Request) : Prop := ∃ e ∈ w.server.engine, e.admits r = true ∧ w.now ≠ u64Max

instance (w : Watch) (r : Request) : Decidable (w.Hears r) :=
  inferInstanceAs (Decidable (∃ e ∈ w.server.engine, e.admits r = true ∧ w.now ≠ u64Max))

def step (w : Watch) : Event → Watch
  | .tick elapsed => { w with clock := w.clock.advance elapsed }
  | .session r write =>
    { w with
      server := (w.server.session r w.now write).1
      last := if w.Hears r then Function.update w.last r.slot (some (r, w.now)) else w.last }
  | .restart c clock => ⟨w.server.restart c clock.reading, clock, clock.reading, fun _ => none⟩

/-- The later of the last request of a member and the start of the witness. -/
def lastHeard (w : Watch) (slot : Fin 2) : ℕ := max w.start ((w.last slot).elim 0 Prod.snd)

/-- The other member is cold too: its last request is an eligible vote for the same policy, less than two leases old. -/
def ColdToo (w : Watch) (r : Request) : Prop :=
  ∃ v cast, w.last (other r.slot) = some (v, cast) ∧ v.eligible = true ∧ v.readyTerm = 0 ∧ v.policy = r.policy ∧
    w.now - cast < 2 * w.server.config.leaseNs

def Silent (w : Watch) (slot : Fin 2) : Prop := w.server.config.silenceNs ≤ w.now - w.lastHeard slot

/-- What entitles a request without state to a new term of a cluster that had one. -/
def ColdGrounds (w : Watch) (e : Engine) (r : Request) : Prop :=
  e.retry r = true ∨ r.node = 1 ∧ w.ColdToo r ∨ w.Silent (other r.slot)

/-- The request holds the state of a generation up to the current one, under the current policy. -/
def WarmGrounds (e : Engine) (r : Request) : Prop :=
  r.policy = e.authority.policy ∧ 1 ≤ r.readyTerm ∧ r.readyTerm ≤ e.authority.term

def OpensCold (e : Engine) (r : Request) (reply : Reply) : Prop :=
  r.readyTerm = 0 ∧ reply.authority.term ≠ e.authority.term

def ChangesOwner (e : Engine) (reply : Reply) : Prop :=
  (reply.authority.owner, reply.authority.boot) ≠ (e.authority.owner, e.authority.boot)

/-- No grant discards warm state without grounds. -/
def Warranted (w : Watch) : Prop :=
  ∀ e r e' reply, w.server.engine = some e → e.request r w.now = (e', .ok reply) → reply.granted = true →
    0 < e.authority.term →
      (OpensCold e r reply → w.ColdGrounds e r) ∧
        (¬ OpensCold e r reply → ChangesOwner e reply → WarmGrounds e r)

/-- What the fields of the engine say of the requests that it heard. -/
structure Recalls (e : Engine) (w : Watch) : Prop where
  leaseNs : e.leaseNs = w.server.config.leaseNs
  silenceNs : e.silenceNs = w.server.config.silenceNs
  heard : ∀ slot, e.heard slot = w.lastHeard slot
  cold : ∀ slot v, e.cold slot = some v → ∃ r, w.last slot = some (r, v.cast) ∧ r.eligible = true ∧ r.readyTerm = 0 ∧
    r.policy = v.policy

structure Inv (w : Watch) : Prop where
  start_le : w.start ≤ w.now
  recalls : ∀ e ∈ w.server.engine, Recalls e w

/-! ### What a decision rests on -/

theorem other_ne (slot : Fin 2) : other slot ≠ slot := by
  fin_cases slot <;> decide

theorem noted_fields (e : Engine) (r : Request) (now : ℕ) :
    (e.noted r now).authority = e.authority ∧ (e.noted r now).claim = e.claim ∧
      (e.noted r now).leaseNs = e.leaseNs ∧ (e.noted r now).silenceNs = e.silenceNs ∧
      (e.noted r now).heard = Function.update e.heard r.slot now ∧
      (e.noted r now).cold = Function.update e.cold r.slot
        (if r.eligible && r.readyTerm = 0 then some ⟨r.boot, r.policy, now⟩ else none) := by
  obtain ⟨p, hp⟩ := e.noted_eq r now
  rw [hp]
  exact ⟨rfl, rfl, rfl, rfl, rfl, rfl⟩

theorem retry_noted (e : Engine) (r : Request) (now : ℕ) : (e.noted r now).retry r = e.retry r := by
  obtain ⟨p, hp⟩ := e.noted_eq r now
  rw [hp]
  rfl

theorem ours_of_retry {e : Engine} {r : Request} (h : e.retry r = true) :
    r.node = e.authority.owner ∧ r.boot = e.authority.boot := by
  have hparts : (r.node = e.authority.owner ∧ r.boot = e.authority.boot) ∧ r.policy = e.authority.policy ∧
      r.readyTerm = e.claim.readyTerm ∧ r.agentBoot = e.claim.agentBoot := by
    simpa [retry, ours] using h
  exact hparts.1

/-- The vote of the other member in a cold quorum is its last request. -/
theorem coldToo_of_quorum {w : Watch} {e : Engine} (h : Recalls e w) {r : Request}
    (hq : (e.noted r w.now).coldQuorum r w.now = true) : w.ColdToo r := by
  obtain ⟨-, -, hlease, -, -, hcold⟩ := noted_fields e r w.now
  have hvotes : ∀ slot, ((e.noted r w.now).cold slot).any (fun v =>
      v.policy = r.policy ∧ w.now - v.cast < 2 * (e.noted r w.now).leaseNs) = true := by
    simpa [coldQuorum] using hq
  have hvote := hvotes (other r.slot)
  rw [hcold, Function.update_of_ne (other_ne _), hlease] at hvote
  cases hc : e.cold (other r.slot) with
  | none =>
    rw [hc] at hvote
    cases hvote
  | some v =>
    rw [hc] at hvote
    have hfresh : v.policy = r.policy ∧ w.now - v.cast < 2 * e.leaseNs := by simpa using hvote
    obtain ⟨q, hlast, helig, hready, hpol⟩ := h.cold _ v hc
    refine ⟨q, v.cast, hlast, helig, hready, hpol.trans hfresh.1, ?_⟩
    rw [← h.leaseNs]
    exact hfresh.2

theorem silent_of_lone {w : Watch} {e : Engine} (h : Recalls e w) {r : Request}
    (hl : (e.noted r w.now).lone r w.now = true) : w.Silent (other r.slot) := by
  obtain ⟨-, -, -, hsilence, hheard, -⟩ := noted_fields e r w.now
  have hparts : 0 < (e.noted r w.now).authority.term ∧ r.readyTerm = 0 ∧
      (e.noted r w.now).silenceNs ≤ w.now - (e.noted r w.now).heard (other r.slot) := by
    simpa [lone] using hl
  have hgap := hparts.2.2
  rw [hheard, Function.update_of_ne (other_ne _), hsilence, h.heard, h.silenceNs] at hgap
  exact hgap

/-- Each rule of the witness gives one of the grounds. -/
theorem grounds_of_eligible {w : Watch} {e : Engine} (h : Recalls e w) {r : Request}
    (hterm : 0 < e.authority.term) (helig : (e.noted r w.now).eligible r w.now = true) :
    WarmGrounds e r ∨ r.readyTerm = 0 ∧ w.ColdGrounds e r ∨ e.retry r = true := by
  have hauth := (noted_fields e r w.now).1
  have hrules : ((((e.noted r w.now).ready r = true ∨ (e.noted r w.now).initial r = true) ∨
      (e.noted r w.now).retry r = true) ∨ (e.noted r w.now).coldQuorum r w.now = true ∧ r.node = 1) ∨
      (e.noted r w.now).lone r w.now = true := by
    have hor := (Bool.and_eq_true_iff.mp helig).2
    simpa using hor
  rcases hrules with (((hready | hinit) | hretry) | ⟨hquorum, hnode⟩) | hlone
  · have hparts : r.policy = e.authority.policy ∧ 0 < r.readyTerm ∧ r.readyTerm ≤ e.authority.term := by
      simpa [ready, hauth] using hready
    exact .inl hparts
  · have hzero : e.authority.term = 0 ∧ r.node = 1 ∧ r.readyTerm = 0 := by simpa [initial, hauth] using hinit
    omega
  · rw [retry_noted] at hretry
    exact .inr (.inr hretry)
  · have hcold : r.readyTerm = 0 := by
      have hvotes : ∀ slot, ((e.noted r w.now).cold slot).any (fun v =>
          v.policy = r.policy ∧ w.now - v.cast < 2 * (e.noted r w.now).leaseNs) = true := by
        simpa [coldQuorum] using hquorum
      have hself := hvotes r.slot
      rw [(noted_fields e r w.now).2.2.2.2.2, Function.update_self] at hself
      by_cases hvote : (r.eligible && r.readyTerm = 0) = true
      · have hparts : r.eligible = true ∧ r.readyTerm = 0 := by simpa using hvote
        exact hparts.2
      · rw [if_neg hvote] at hself
        cases hself
    exact .inr (.inl ⟨hcold, .inr (.inl ⟨hnode, coldToo_of_quorum h hquorum⟩)⟩)
  · have hparts : 0 < (e.noted r w.now).authority.term ∧ r.readyTerm = 0 ∧
        (e.noted r w.now).silenceNs ≤ w.now - (e.noted r w.now).heard (other r.slot) := by
      simpa [lone] using hlone
    exact .inr (.inl ⟨hparts.2.1, .inr (.inr (silent_of_lone h hlone))⟩)

/-- A renewal that opens a term has the state of the current one. -/
theorem readyTerm_of_renewed {e g : Engine} {r : Request} {now : ℕ} (h : e.Renewed r now g)
    (hopen : g.authority.term ≠ e.authority.term) : r.readyTerm = e.authority.term := by
  rcases h.authority with ⟨-, hsame⟩ | ⟨hpol, -⟩
  · exact absurd (by rw [hsame]) hopen
  · rcases h.baseline with hterm | hretry
    · exact hterm
    · have hparts : e.ours r = true ∧ r.policy = e.authority.policy ∧ r.readyTerm = e.claim.readyTerm ∧
          r.agentBoot = e.claim.agentBoot := by simpa [retry] using hretry
      exact absurd hparts.2.1 hpol

theorem warranted_of_inv {w : Watch} (h : w.Inv) : w.Warranted := by
  intro e r e' reply he hreq hgranted hterm
  have hrec := h.recalls e he
  rcases e.request_cases r w.now with ⟨-, p, m, hr⟩ | ⟨-, -, ⟨m, hr⟩ | hr | ⟨g, hg, hr⟩⟩
  · rw [hr] at hreq
    simp at hreq
  · rw [hr] at hreq
    simp at hreq
  · rw [hr] at hreq
    cases hreq
    cases hgranted
  · rw [hr] at hreq
    cases hreq
    have hgr := granted_of_grant hg
    have hauth := (noted_fields e r w.now).1
    rcases hgr.how with hren | hpro
    · constructor
      · rintro ⟨hcold, hopen⟩
        have hready := readyTerm_of_renewed hren (by rw [hauth]; exact hopen)
        rw [hauth] at hready
        omega
      · intro _ hchange
        have hours : r.node = e.authority.owner ∧ r.boot = e.authority.boot := by
          simpa [ours, hauth] using hren.ours
        refine absurd ?_ hchange
        show (g.authority.owner, g.authority.boot) = (e.authority.owner, e.authority.boot)
        rcases hren.authority with ⟨-, hsame⟩ | ⟨-, hnext⟩
        · rw [hsame, hauth]
        · rw [hnext]
          exact Prod.ext hours.1 hours.2
    · have hnext : g.authority = ⟨e.authority.term + 1, r.node, r.boot, r.policy⟩ := by
        rw [hpro.authority, hauth]
      have hopens : g.authority.term ≠ e.authority.term := by
        rw [hnext]
        exact Nat.succ_ne_self _
      rcases grounds_of_eligible hrec hterm hpro.eligible with hwarm | ⟨hcold, hgrounds⟩ | hretry
      · constructor
        · rintro ⟨hcold, -⟩
          have hpos := hwarm.2.1
          omega
        · intro _ _
          exact hwarm
      · constructor
        · intro _
          exact hgrounds
        · intro hwarm _
          exact absurd ⟨hcold, hopens⟩ hwarm
      · constructor
        · intro _
          exact .inl hretry
        · intro _ hchange
          have hours := ours_of_retry hretry
          refine absurd ?_ hchange
          show (g.authority.owner, g.authority.boot) = (e.authority.owner, e.authority.boot)
          rw [hnext]
          exact Prod.ext hours.1 hours.2

/-! ### The fields recall the requests -/

/-- A request that is turned down leaves what the engine recalls; one that is heard becomes the last of its member. -/
theorem request_recalls {e e' : Engine} {r : Request} {now : ℕ} {answer : Except String Reply}
    (h : e.request r now = (e', answer)) :
    e'.leaseNs = e.leaseNs ∧ e'.silenceNs = e.silenceNs ∧
      ((¬ (e.admits r = true ∧ now ≠ u64Max) ∧ e'.heard = e.heard ∧ e'.cold = e.cold) ∨
        (e.admits r = true ∧ now ≠ u64Max) ∧ e'.heard = Function.update e.heard r.slot now ∧
          ∀ slot v, e'.cold slot = some v → Function.update e.cold r.slot
            (if r.eligible && r.readyTerm = 0 then some ⟨r.boot, r.policy, now⟩ else none) slot = some v) := by
  obtain ⟨-, -, hlease, hsilence, hheard, hcold⟩ := noted_fields e r now
  rcases e.request_cases r now with ⟨hno, p, m, hr⟩ | ⟨hadm, hclock, ⟨m, hr⟩ | hr | ⟨g, hg, hr⟩⟩
  · rw [hr] at h
    cases h
    refine ⟨rfl, rfl, .inl ⟨?_, rfl, rfl⟩⟩
    rintro ⟨hadm, hclock⟩
    rcases hno with hno | hno
    · simp [hadm] at hno
    · exact hclock hno
  · rw [hr] at h
    cases h
    exact ⟨hlease, hsilence, .inr ⟨⟨hadm, hclock⟩, hheard, fun slot v hv => by rwa [← hcold]⟩⟩
  · rw [hr] at h
    cases h
    exact ⟨hlease, hsilence, .inr ⟨⟨hadm, hclock⟩, hheard, fun slot v hv => by rwa [← hcold]⟩⟩
  · rw [hr] at h
    cases h
    have hgr := granted_of_grant hg
    refine ⟨hgr.leaseNs.trans hlease, hgr.silenceNs.trans hsilence, .inr ⟨⟨hadm, hclock⟩, hgr.heard.trans hheard, ?_⟩⟩
    intro slot v hv
    rw [← hcold]
    rcases hgr.how with hren | hpro
    · rw [← hren.cold]
      exact hv
    · have hnone : g.cold slot = none := hpro.cold slot
      rw [show g.cold slot = some v from hv] at hnone
      cases hnone

/-- What the server keeps of an engine after a session. -/
theorem engine_session {s : Server} {e e'' : Engine} {r : Request} {now : ℕ} {write : WriteOutcome}
    (he : s.engine = some e) (h : (s.session r now write).1.engine = some e'') :
    ∃ e' answer, e.request r now = (e', answer) ∧ e''.leaseNs = e'.leaseNs ∧ e''.silenceNs = e'.silenceNs ∧
      e''.heard = e'.heard ∧ e''.cold = e'.cold := by
  obtain ⟨⟨e', answer⟩, hreq⟩ : ∃ x, e.request r now = x := ⟨_, rfl⟩
  refine ⟨e', answer, hreq, ?_⟩
  simp only [Server.session, he, hreq] at h
  cases answer with
  | error m =>
    cases h
    exact ⟨rfl, rfl, rfl, rfl⟩
  | ok reply =>
    simp only at h
    split at h
    · cases h
      exact ⟨rfl, rfl, rfl, rfl⟩
    · cases write <;> cases h <;> exact ⟨rfl, rfl, rfl, rfl⟩

theorem config_session (s : Server) (r : Request) (now : ℕ) (write : WriteOutcome) :
    (s.session r now write).1.config = s.config := by
  unfold Server.session
  split
  · rfl
  · split
    · rfl
    · split
      · rfl
      · split <;> rfl

theorem engine_of_session_none {s : Server} (he : s.engine = none) (r : Request) (now : ℕ) (write : WriteOutcome) :
    (s.session r now write).1.engine = none := by
  simp only [Server.session, he]

theorem inv_session {w : Watch} (h : w.Inv) (r : Request) (write : WriteOutcome) : (w.step (.session r write)).Inv := by
  refine ⟨h.start_le, ?_⟩
  intro e'' he''
  cases he : w.server.engine with
  | none =>
    have hnone := engine_of_session_none he r w.now write
    rw [show (w.server.session r w.now write).1.engine = some e'' from he''] at hnone
    cases hnone
  | some e =>
    have hrec := h.recalls e he
    obtain ⟨e', answer, hreq, hl, hs, hh, hc⟩ := engine_session he he''
    obtain ⟨hlease, hsilence, hcases⟩ := request_recalls hreq
    have hconfig : (w.step (.session r write)).server.config = w.server.config := config_session _ _ _ _
    have hl' : e''.leaseNs = (w.step (.session r write)).server.config.leaseNs := by
      rw [hl, hlease, hrec.leaseNs, hconfig]
    have hs' : e''.silenceNs = (w.step (.session r write)).server.config.silenceNs := by
      rw [hs, hsilence, hrec.silenceNs, hconfig]
    have hhears : w.Hears r ↔ e.admits r = true ∧ w.now ≠ u64Max := by
      constructor
      · rintro ⟨e₁, he₁, hadm⟩
        rw [he] at he₁
        cases he₁
        exact hadm
      · intro hadm
        exact ⟨e, he, hadm⟩
    rcases hcases with ⟨hno, hheard, hcold⟩ | ⟨hyes, hheard, hcold⟩
    · have hlast : (w.step (.session r write)).last = w.last := if_neg (mt hhears.mp hno)
      refine ⟨hl', hs', ?_, ?_⟩
      · intro slot
        rw [hh, hheard, hrec.heard, lastHeard, lastHeard, hlast]
        rfl
      · intro slot v hv
        rw [hc, hcold] at hv
        rw [hlast]
        exact hrec.cold slot v hv
    · have hlast : (w.step (.session r write)).last = Function.update w.last r.slot (some (r, w.now)) :=
        if_pos (hhears.mpr hyes)
      refine ⟨hl', hs', ?_, ?_⟩
      · intro slot
        rw [hh, hheard, lastHeard, hlast]
        by_cases hslot : slot = r.slot
        · subst hslot
          rw [Function.update_self, Function.update_self]
          exact (max_eq_right h.start_le).symm
        · rw [Function.update_of_ne hslot, Function.update_of_ne hslot, hrec.heard]
          rfl
      · intro slot v hv
        rw [hc] at hv
        have hvote := hcold slot v hv
        rw [hlast]
        by_cases hslot : slot = r.slot
        · subst hslot
          rw [Function.update_self] at hvote ⊢
          by_cases hcast : (r.eligible && r.readyTerm = 0) = true
          · rw [if_pos hcast] at hvote
            cases hvote
            have hparts : r.eligible = true ∧ r.readyTerm = 0 := by simpa using hcast
            exact ⟨r, rfl, hparts.1, hparts.2, rfl⟩
          · rw [if_neg hcast] at hvote
            cases hvote
        · rw [Function.update_of_ne hslot] at hvote ⊢
          exact hrec.cold slot v hvote

theorem recalls_of_restore {c : WitnessConfig} {disk : Option Durable} {clock : Clock} {e : Engine}
    (h : restore c disk clock.reading = some e) :
    Recalls e ⟨⟨c, some e, disk⟩, clock, clock.reading, fun _ => none⟩ := by
  obtain ⟨claim, rfl⟩ := restore_eq h
  refine ⟨rfl, rfl, ?_, ?_⟩
  · intro slot
    exact (max_eq_left (Nat.zero_le _)).symm
  · intro slot v hv
    cases hv

theorem inv_restart (s : Server) (c : WitnessConfig) (clock : Clock) :
    Inv ⟨s.restart c clock.reading, clock, clock.reading, fun _ => none⟩ := by
  refine ⟨le_rfl, ?_⟩
  intro e he
  obtain ⟨hl, hs, hh, hc⟩ := recalls_of_restore (e := e) he
  exact ⟨hl, hs, hh, hc⟩

theorem inv_step {w : Watch} (ev : Event) (h : w.Inv) : (w.step ev).Inv := by
  cases ev with
  | tick elapsed =>
    have hle : w.now ≤ (w.clock.advance elapsed).reading :=
      le_min (Nat.le_add_right _ _) w.clock.le
    refine ⟨h.start_le.trans hle, ?_⟩
    intro e he
    obtain ⟨hl, hs, hh, hc⟩ := h.recalls e he
    exact ⟨hl, hs, hh, hc⟩
  | session r write => exact inv_session h r write
  | restart c clock => exact inv_restart _ _ _

/-- A witness that has just started on the given state file. -/
def boot (c : WitnessConfig) (disk : Option Durable) (clock : Clock) : Watch :=
  ⟨⟨c, restore c disk clock.reading, disk⟩, clock, clock.reading, fun _ => none⟩

/-- In every run, over failed writes and restarts, a grant has its grounds. -/
theorem warranted_run (c : WitnessConfig) (disk : Option Durable) (clock : Clock) (es : List Event) :
    (es.foldl step (boot c disk clock)).Warranted := by
  have hrun : Run.Every step (fun _ _ => True) (boot c disk clock) es := Run.every_true _ _ _
  have hstart : (boot c disk clock).Inv := inv_restart ⟨c, none, disk⟩ c clock
  exact warranted_of_inv (hrun.invariant Inv hstart fun w ev hw _ => inv_step ev hw)

end Watch
end Wren.Ha
