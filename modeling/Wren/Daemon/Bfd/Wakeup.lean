import Wren.Daemon.Bfd.Engine
import Wren.Lib.Run

/-! When the engine has to wake up again after a pass. -/

namespace Wren.Daemon.Bfd
open Std (ExtTreeMap)
open OrdMap Wren.Core Wren.Bfd

namespace PeerSession

/-- The detection timer is up. -/
def Overdue (now : ℕ) (s : PeerSession) : Prop := ∃ d ∈ s.detectDeadline, d ≤ now

/-- No pass leaves such a session with something due: an armed timer that is up can still bring the session down, an
Echo is not missed, and one that is due can be sent. -/
structure Quiet (socks : EchoSocks) (now : ℕ) (s : PeerSession) : Prop where
  detect : s.Overdue now → s.sess.state = .up ∨ s.sess.state = .init
  echo : s.sess.state = .up → ¬ s.Overdue now → ∀ echo ∈ s.echo,
    (∀ last ∈ echo.lastRx, now < last + micros echo.detectUs) ∧
      (now < echo.nextTx ∨ socks.of s.peer = true ∧ 0 < echo.params.intervalUs)

/-- Nothing is left that is due now. -/
def Later (now : ℕ) (s : PeerSession) : Prop := ∀ t ∈ s.deadlines, now < t

theorem later_iff {now : ℕ} {s : PeerSession} : s.Later now ↔ now < s.nextTx ∧ ¬ s.Overdue now ∧
    (s.sess.state = .up → ∀ echo ∈ s.echo, (∀ last ∈ echo.lastRx, now < last + micros echo.detectUs) ∧ now < echo.nextTx) := by
  have hdetect : (∀ d ∈ s.detectDeadline.toList, now < d) ↔ ¬ s.Overdue now := by
    simp only [Overdue, not_exists, not_and, not_le, Option.mem_toList, Option.mem_def]
  unfold Later deadlines
  rw [List.forall_mem_append, List.forall_mem_cons, hdetect, and_assoc]
  cases s.echo with
  | none => simp
  | some echo =>
    by_cases hup : s.sess.state = .up
    · have hlast : (∀ t ∈ (echo.lastRx.map (· + micros echo.detectUs)).toList, now < t) ↔
          ∀ last ∈ echo.lastRx, now < last + micros echo.detectUs := by
        cases echo.lastRx <;> simp
      dsimp only
      rw [if_pos hup, List.forall_mem_cons, hlast]
      simp only [hup, Option.mem_some_iff, forall_eq', true_implies]
      tauto
    · simp [hup]

section Service
variable {now : ℕ} {s : PeerSession}

/-- The timer of a session fires only where it brings the session down. -/
theorem expire_spec (now : ℕ) (s : PeerSession) :
    (s.Overdue now ∧ (s.sess.state = .up ∨ s.sess.state = .init) ∧ (s.expire now).1.sess.state = .down ∧
      (s.expire now).1.detectDeadline = none ∧ (s.expire now).1.echo = s.echo ∧ (s.expire now).1.peer = s.peer) ∨
    (¬ (s.Overdue now ∧ (s.sess.state = .up ∨ s.sess.state = .init)) ∧ (s.expire now).1 = s) := by
  unfold expire Overdue
  cases harmed : s.detectDeadline with
  | none => simp
  | some d =>
    by_cases hd : d ≤ now
    · simp only [if_pos hd]
      rcases Session.timeOut_spec .controlDetectionTimeExpired s.sess with ⟨heq, hnot⟩ | ⟨ht, hstate, -, -⟩
      · right
        rw [Session.onDetectTimeout, heq]
        refine ⟨fun h => hnot h.2, ?_⟩
        rw [← harmed]
      · left
        have hrising : s.sess.state = .up ∨ s.sess.state = .init := by
          by_contra hnot
          rw [Session.timeOut, if_neg hnot] at ht
          cases ht
        have hpair : s.sess.onDetectTimeout = ((s.sess.onDetectTimeout).1, some ⟨s.sess.state, .down⟩) :=
          Prod.ext rfl ht
        rw [hpair]
        exact ⟨⟨d, rfl, hd⟩, hrising, hstate, rfl, rfl, rfl⟩
    · right
      simp [hd]

theorem one_le_transmitIntervalUs {s : Session} (h : s.state ≠ .up) : 1 ≤ s.transmitIntervalUs := by
  have hfloor : slowTxFloorUs ≤ s.effectiveDesiredTxUs := by
    rw [Session.effectiveDesiredTxUs, if_neg h]
    show slowTxFloorUs ≤ if s.cfg.desiredMinTxUs ≤ slowTxFloorUs then slowTxFloorUs else s.cfg.desiredMinTxUs
    split_ifs with hle
    · exact UInt32.le_refl _
    · exact UInt32.le_of_lt (UInt32.not_le.mp hle)
  have hbase : 1000000 ≤ max s.effectiveDesiredTxUs.toNat s.remoteMinRxUs.toNat :=
    (UInt32.le_iff_toNat_le.mp hfloor).trans (le_max_left _ _)
  have hprod := Nat.mul_le_mul hbase (Nat.le_add_right 75 (s.localDiscr.toNat % 16))
  unfold Session.transmitIntervalUs
  omega

theorem transmit_spec (now : ℕ) (hiv : 1 ≤ s.sess.transmitIntervalUs) :
    now < (s.transmit now).1.nextTx ∧ (s.transmit now).1.sess.state = s.sess.state ∧
      (s.transmit now).1.detectDeadline = s.detectDeadline ∧ (s.transmit now).1.echo = s.echo ∧
      (s.transmit now).1.peer = s.peer := by
  unfold transmit
  by_cases hdue : s.nextTx ≤ now
  · rw [if_pos hdue]
    refine ⟨?_, rfl, rfl, rfl, rfl⟩
    have hsame : s.sess.buildControl.1.transmitIntervalUs = s.sess.transmitIntervalUs := rfl
    show now < now + micros s.sess.buildControl.1.transmitIntervalUs
    rw [hsame, micros]
    omega
  · rw [if_neg hdue]
    exact ⟨not_le.mp hdue, rfl, rfl, rfl, rfl⟩

/-- A pass over the timers of Control packets leaves at most the timer of a session that is down already. -/
theorem service_spec (now : ℕ) (hiv : 1 ≤ s.sess.transmitIntervalUs) :
    now < (s.service now).1.nextTx ∧ (s.service now).1.echo = s.echo ∧ (s.service now).1.peer = s.peer ∧
    ((s.Overdue now ∧ (s.sess.state = .up ∨ s.sess.state = .init) ∧ (s.service now).1.sess.state = .down ∧
        (s.service now).1.detectDeadline = none) ∨
      (¬ (s.Overdue now ∧ (s.sess.state = .up ∨ s.sess.state = .init)) ∧
        (s.service now).1.sess.state = s.sess.state ∧ (s.service now).1.detectDeadline = s.detectDeadline)) := by
  rcases expire_spec now s with ⟨hover, hrising, hdown, hdisarmed, hecho, hpeer⟩ | ⟨hnot, heq⟩
  · have hiv' : 1 ≤ (s.expire now).1.sess.transmitIntervalUs := by
      apply one_le_transmitIntervalUs
      rw [hdown]
      decide
    obtain ⟨hnext, hstate, hdetect, hecho', hpeer'⟩ := transmit_spec now hiv'
    exact ⟨hnext, hecho'.trans hecho, hpeer'.trans hpeer,
      .inl ⟨hover, hrising, hstate.trans hdown, hdetect.trans hdisarmed⟩⟩
  · have hiv' : 1 ≤ (s.expire now).1.sess.transmitIntervalUs := by rwa [heq]
    obtain ⟨hnext, hstate, hdetect, hecho', hpeer'⟩ := transmit_spec now hiv'
    exact ⟨hnext, hecho'.trans (congrArg PeerSession.echo heq), hpeer'.trans (congrArg PeerSession.peer heq),
      .inr ⟨hnot, hstate.trans (congrArg (fun s => s.sess.state) heq), hdetect.trans (congrArg detectDeadline heq)⟩⟩

end Service

section Echo
variable {socks : EchoSocks} {mac : Option Mac} {now : ℕ} {s : PeerSession} {echo : EchoState}

theorem transmitEcho_spec (socks : EchoSocks) (mac : Option Mac) (now : ℕ) (he : s.echo = some echo) :
    (s.transmitEcho socks mac now echo).1.sess = s.sess ∧ (s.transmitEcho socks mac now echo).1.nextTx = s.nextTx ∧
      (s.transmitEcho socks mac now echo).1.detectDeadline = s.detectDeadline ∧
      ∃ echo', (s.transmitEcho socks mac now echo).1.echo = some echo' ∧ echo'.lastRx = echo.lastRx ∧
        echo'.detectUs = echo.detectUs ∧
        (now < echo'.nextTx ↔ now < echo.nextTx ∨ socks.of s.peer = true ∧ 0 < echo.params.intervalUs) := by
  unfold transmitEcho
  by_cases hdue : now < echo.nextTx
  · rw [if_pos hdue]
    exact ⟨rfl, rfl, rfl, echo, he, rfl, rfl, by simp [hdue]⟩
  rw [if_neg hdue]
  by_cases hsock : socks.of s.peer = true
  · have hlater : now < now + micros echo.params.intervalUs ↔
        now < echo.nextTx ∨ socks.of s.peer = true ∧ 0 < echo.params.intervalUs := by
      simp only [hdue, hsock, micros, false_or, true_and]
      omega
    rw [if_neg (by simp [hsock])]
    dsimp only
    cases echo.dstMac <|> mac with
    | none => exact ⟨rfl, rfl, rfl, _, rfl, rfl, rfl, hlater⟩
    | some dst => exact ⟨rfl, rfl, rfl, _, rfl, rfl, rfl, hlater⟩
  · rw [if_pos (by simp [hsock])]
    exact ⟨rfl, rfl, rfl, echo, he, rfl, rfl, by simp [hdue, hsock]⟩

/-- A session that fails is to send at once. -/
theorem nextTx_failEcho (hup : s.sess.state = .up) : (s.failEcho now echo).1.nextTx = now := by
  have hpair : s.sess.onEchoTimeout = ((s.sess.onEchoTimeout).1, some ⟨s.sess.state, .down⟩) := by
    refine Prod.ext rfl ?_
    rw [Session.onEchoTimeout, Session.timeOut, if_pos (.inl hup)]
  unfold failEcho
  dsimp only
  rw [hpair]

/-- After the pass over the Echo timers nothing is due exactly where nothing was left to the session by them. -/
theorem later_serviceEcho (hnext : now < s.nextTx) :
    (s.serviceEcho socks mac now).1.Later now ↔ ¬ s.Overdue now ∧ (s.sess.state = .up → ∀ echo ∈ s.echo,
      (∀ last ∈ echo.lastRx, now < last + micros echo.detectUs) ∧
        (now < echo.nextTx ∨ socks.of s.peer = true ∧ 0 < echo.params.intervalUs)) := by
  unfold serviceEcho
  cases he : s.echo with
  | none => simp [later_iff, he, hnext]
  | some echo =>
    by_cases hup : s.sess.state = .up
    · simp only [hup, ne_eq, not_true_eq_false, if_false, Option.mem_some_iff, forall_eq', true_implies]
      have hsent : (s.transmitEcho socks mac now echo).1.Later now ↔ ¬ s.Overdue now ∧
          (∀ last ∈ echo.lastRx, now < last + micros echo.detectUs) ∧
          (now < echo.nextTx ∨ socks.of s.peer = true ∧ 0 < echo.params.intervalUs) := by
        obtain ⟨hsess, hnext', hdetect, echo', hecho, hlast, hus, hdue⟩ := transmitEcho_spec socks mac now he
        rw [later_iff, Overdue, hsess, hnext', hdetect, hecho, ← Overdue]
        simp only [hup, Option.mem_some_iff, forall_eq', true_implies, hlast, hus, hdue, hnext, true_and]
      cases hl : echo.lastRx with
      | none => simpa [hl] using hsent
      | some last =>
        rw [hl] at hsent
        by_cases hfail : micros echo.detectUs < now - last
        · simp only [if_pos hfail]
          constructor
          · intro hlater
            have hnow := (later_iff.mp hlater).1
            rw [nextTx_failEcho hup] at hnow
            exact absurd hnow (lt_irrefl now)
          · intro h
            have hreturned := h.2.1 last rfl
            omega
        · simp only [if_neg hfail]
          exact hsent
    · simp [later_iff, hup, hnext, Overdue]

end Echo

/-- The two passes over one session. -/
def pass (socks : EchoSocks) (mac : Option Mac) (now : ℕ) (s : PeerSession) : PeerSession :=
  if socks.any then ((s.service now).1.serviceEcho socks mac now).1 else (s.service now).1

theorem later_pass_iff (socks : EchoSocks) (mac : Option Mac) {now : ℕ} {s : PeerSession}
    (hiv : 1 ≤ s.sess.transmitIntervalUs) : (s.pass socks mac now).Later now ↔ s.Quiet socks now := by
  obtain ⟨hnext, hecho, hpeer, hstate⟩ := service_spec now hiv
  have hmid : (s.pass socks mac now).Later now ↔ ¬ (s.service now).1.Overdue now ∧
      ((s.service now).1.sess.state = .up → ∀ echo ∈ s.echo, (∀ last ∈ echo.lastRx, now < last + micros echo.detectUs) ∧
        (now < echo.nextTx ∨ socks.of s.peer = true ∧ 0 < echo.params.intervalUs)) := by
    unfold pass
    cases hsocks : socks.any with
    | true =>
      rw [if_pos rfl, later_serviceEcho hnext, hecho, hpeer]
    | false =>
      have hof : socks.of s.peer = false := by
        rw [EchoSocks.any, Bool.or_eq_false_iff] at hsocks
        cases s.peer
        · exact hsocks.1
        · exact hsocks.2
      rw [if_neg (by decide), later_iff, hecho]
      simp only [hnext, hof, Bool.false_eq_true, false_and, or_false, true_and]
  rw [hmid]
  rcases hstate with ⟨hover, hrising, hdown, hdisarmed⟩ | ⟨hnot, hsame, hdetect⟩
  · have hnone : ¬ (s.service now).1.Overdue now := by simp [Overdue, hdisarmed]
    have hup : ¬ (s.service now).1.sess.state = .up := by simp [hdown]
    constructor
    · intro _
      exact ⟨fun _ => hrising, fun _ hno => absurd hover hno⟩
    · intro _
      exact ⟨hnone, fun h => absurd h hup⟩
  · have hkept : (s.service now).1.Overdue now ↔ s.Overdue now := by rw [Overdue, hdetect, ← Overdue]
    rw [hkept, hsame]
    constructor
    · intro h
      exact ⟨fun hover => absurd hover h.1, fun hup _ => h.2 hup⟩
    · intro h
      have hno : ¬ s.Overdue now := fun hover => hnot ⟨hover, h.detect hover⟩
      exact ⟨hno, fun hup => h.echo hup hno⟩

end PeerSession

namespace Engine

theorem foldl_earliest {now : ℕ} (l : List ℕ) (wake : Option ℕ) :
    (∀ t ∈ l.foldl earliest wake, now < t) ↔ (∀ t ∈ wake, now < t) ∧ ∀ t ∈ l, now < t := by
  induction l generalizing wake with
  | nil => simp
  | cons a l ih =>
    have hhead : (∀ t ∈ earliest wake a, now < t) ↔ (∀ t ∈ wake, now < t) ∧ now < a := by
      cases wake <;> simp [earliest]
    rw [List.foldl_cons, ih, hhead, List.forall_mem_cons, and_assoc]

/-- The engine wakes up later exactly where nothing is due for any of the sessions. -/
theorem nextWakeup_later (w : Engine) (now : ℕ) :
    (∀ t ∈ w.nextWakeup, now < t) ↔
      ∀ (key : PeerKey) (s : PeerSession), w.sessions[key]? = some s → s.Later now := by
  have hfold : ∀ (l : List (PeerKey × PeerSession)) (wake : Option ℕ),
      (∀ t ∈ l.foldl (fun wake e => e.2.deadlines.foldl earliest wake) wake, now < t) ↔
        (∀ t ∈ wake, now < t) ∧ ∀ e ∈ l, e.2.Later now := by
    intro l
    induction l with
    | nil => simp
    | cons e l ih =>
      intro wake
      rw [List.foldl_cons, ih, foldl_earliest, List.forall_mem_cons, and_assoc]
      rfl
  rw [nextWakeup, hfold]
  constructor
  · intro h key s hs
    exact h.2 (key, s) (ExtTreeMap.mem_toList_iff_getElem?_eq_some.mpr hs)
  · intro h
    exact ⟨by simp, fun e he => h e.1 e.2 (ExtTreeMap.mem_toList_iff_getElem?_eq_some.mp he)⟩

theorem getElem?_pass (socks : EchoSocks) (macs : PeerKey → Option Mac) (now : ℕ) (w : Engine) (key : PeerKey) :
    (w.pass socks macs now).1.sessions[key]? = w.sessions[key]?.map fun s => s.pass socks (macs key) now := by
  unfold pass serviceEcho service each PeerSession.pass
  cases socks.any with
  | true =>
    simp only [Bool.not_true, Bool.false_eq_true, if_false, ExtTreeMap.getElem?_map, Option.map_map, if_true]
    rfl
  | false =>
    simp only [Bool.not_false, if_true, ExtTreeMap.getElem?_map, Bool.false_eq_true, if_false]

end Engine

section Configured
variable {cfg : BfdConfig} {now : ℕ}

namespace PeerSession
variable (s : PeerSession)

@[simp] theorem cfg_onReceive (buf : List UInt8) : (s.onReceive now buf).1.sess.cfg = s.sess.cfg := by
  unfold onReceive
  cases ControlPacket.decode buf with
  | none => rfl
  | some pkt =>
    dsimp only
    cases (s.authenticate buf pkt).2 with
    | false => rfl
    | true =>
      have hcfg : (s.sess.onPacket pkt).1.cfg = s.sess.cfg := s.sess.cfg_onPacket pkt
      cases (s.sess.onPacket pkt).2 <;> exact hcfg

theorem cfg_timeOut (diag : Diag) (sess : Session) : (Session.timeOut diag sess).1.cfg = sess.cfg := by
  unfold Session.timeOut
  split_ifs <;> rfl

@[simp] theorem cfg_service : (s.service now).1.sess.cfg = s.sess.cfg := by
  have hexpire : (s.expire now).1.sess.cfg = s.sess.cfg := by
    have hcfg : s.sess.onDetectTimeout.1.cfg = s.sess.cfg := cfg_timeOut _ _
    unfold expire
    cases s.detectDeadline with
    | none => rfl
    | some d =>
      dsimp only
      split_ifs
      · cases h : s.sess.onDetectTimeout with
        | mk sess t =>
          rw [h] at hcfg
          cases t <;> exact hcfg
      · rfl
  unfold service transmit
  dsimp only
  split_ifs
  · exact hexpire
  · exact hexpire

@[simp] theorem cfg_serviceEcho (socks : EchoSocks) (mac : Option Mac) :
    (s.serviceEcho socks mac now).1.sess.cfg = s.sess.cfg := by
  have hfail : ∀ echo, (s.failEcho now echo).1.sess.cfg = s.sess.cfg := by
    intro echo
    have hcfg : s.sess.onEchoTimeout.1.cfg = s.sess.cfg := cfg_timeOut _ _
    unfold failEcho
    dsimp only
    cases h : s.sess.onEchoTimeout with
    | mk sess t =>
      rw [h] at hcfg
      cases t <;> exact hcfg
  have hsend : ∀ echo, s.echo = some echo → (s.transmitEcho socks mac now echo).1.sess.cfg = s.sess.cfg :=
    fun echo he => congrArg Session.cfg (transmitEcho_spec _ _ _ he).1
  unfold serviceEcho
  cases he : s.echo with
  | none => rfl
  | some echo =>
    dsimp only
    split_ifs
    · rfl
    · cases echo.lastRx with
      | none => exact hsend echo he
      | some last =>
        dsimp only
        split_ifs
        · exact hfail echo
        · exact hsend echo he

@[simp] theorem cfg_pass (socks : EchoSocks) (mac : Option Mac) : (s.pass socks mac now).sess.cfg = s.sess.cfg := by
  unfold pass
  split_ifs
  · rw [cfg_serviceEcho, cfg_service]
  · exact s.cfg_service

end PeerSession

/-- All sessions have the timing the engine was given. -/
def Configured (cfg : BfdConfig) (w : Engine) : Prop :=
  ∀ (key : PeerKey) (s : PeerSession), w.sessions[key]? = some s → s.sess.cfg = cfg.session

theorem Configured.insert {w : Engine} (h : Configured cfg w) {key : PeerKey} {s : PeerSession} {d : UInt32}
    (hs : s.sess.cfg = cfg.session) : Configured cfg { sessions := w.sessions.insert key s, nextDiscr := d } := by
  intro k t ht
  rw [getElem?_insert] at ht
  split_ifs at ht
  · cases ht
    exact hs
  · exact h k t ht

theorem Configured.step {w : Engine} (h : Configured cfg w) (socks : EchoSocks) (e : Event) :
    Configured cfg (step cfg socks w e) := by
  cases e with
  | register now key consumer notify auth txOk egress =>
    simp only [Bfd.step, Engine.register]
    cases hs : w.sessions[key]? with
    | some s => exact h.insert (h key s hs)
    | none =>
      dsimp only
      split_ifs
      · exact h
      · exact h.insert rfl
  | deregister key consumer =>
    simp only [Bfd.step, Engine.deregister]
    cases hs : w.sessions[key]? with
    | none => exact h
    | some s =>
      dsimp only
      split_ifs
      · intro k t ht
        rw [getElem?_erase] at ht
        split_ifs at ht
        exact h k t ht
      · exact h.insert (h key s hs)
  | receive now buf key =>
    simp only [Bfd.step, Engine.onReceive]
    cases hs : w.sessions[key]? with
    | none => exact h
    | some s => exact h.insert ((s.cfg_onReceive buf).trans (h key s hs))
  | echoReceive now discr =>
    simp only [Bfd.step, Engine.onEchoReceive]
    cases hfind : w.sessions.toList.find? fun e => e.2.sess.localDiscr = discr with
    | none => exact h
    | some e =>
      obtain ⟨key, s⟩ := e
      have hs : w.sessions[key]? = some s :=
        ExtTreeMap.mem_toList_iff_getElem?_eq_some.mp (List.mem_of_find?_eq_some hfind)
      dsimp only
      cases s.echo with
      | none => exact h
      | some echo =>
        apply h.insert
        exact h key s hs
  | pass macs now =>
    intro k t ht
    rw [Bfd.step, Engine.getElem?_pass, Option.map_eq_some_iff] at ht
    obtain ⟨s, hs, rfl⟩ := ht
    rw [PeerSession.cfg_pass]
    exact h k s hs

theorem configured_run (cfg : BfdConfig) (socks : EchoSocks) (es : List Event) :
    Configured cfg (es.foldl (step cfg socks) Engine.start) :=
  (Run.every_true (step cfg socks) Engine.start es).invariant (Configured cfg)
    (by intro key s hs; simp [Engine.start] at hs) fun _ e h _ => h.step socks e

/-- With two microseconds at least between the packets that are wanted, the jitter leaves one at least. -/
theorem one_le_transmitIntervalUs_run (socks : EchoSocks) (es : List Event) (hcfg : 2 ≤ cfg.session.desiredMinTxUs.toNat)
    {key : PeerKey} {s : PeerSession} (hs : (es.foldl (step cfg socks) Engine.start).sessions[key]? = some s) :
    1 ≤ s.sess.transmitIntervalUs := by
  have hsame := configured_run cfg socks es key s hs
  by_cases hup : s.sess.state = .up
  · have hwanted : s.sess.effectiveDesiredTxUs = cfg.session.desiredMinTxUs := by
      rw [Session.effectiveDesiredTxUs, if_pos hup, hsame]
    have hbase : 2 ≤ max s.sess.effectiveDesiredTxUs.toNat s.sess.remoteMinRxUs.toNat := by
      rw [hwanted]
      exact hcfg.trans (le_max_left _ _)
    have hprod := Nat.mul_le_mul hbase (Nat.le_add_right 75 (s.sess.localDiscr.toNat % 16))
    unfold Session.transmitIntervalUs
    omega
  · exact PeerSession.one_le_transmitIntervalUs hup

end Configured

/-- At every instant of every run, a pass leaves the engine nothing to do before later exactly where all sessions are
quiet. -/
theorem pass_wakes_later_iff (cfg : BfdConfig) (socks : EchoSocks) (es : List Event) (macs : PeerKey → Option Mac)
    (now : ℕ) (hiv : ∀ (key : PeerKey) (s : PeerSession), (es.foldl (step cfg socks) Engine.start).sessions[key]? = some s →
      1 ≤ s.sess.transmitIntervalUs) :
    (∀ t ∈ ((es.foldl (step cfg socks) Engine.start).pass socks macs now).1.nextWakeup, now < t) ↔
      ∀ (key : PeerKey) (s : PeerSession), (es.foldl (step cfg socks) Engine.start).sessions[key]? = some s → s.Quiet socks now := by
  generalize es.foldl (step cfg socks) Engine.start = w at hiv
  rw [Engine.nextWakeup_later]
  constructor
  · intro h key s hs
    rw [← PeerSession.later_pass_iff socks (macs key) (hiv key s hs)]
    exact h key _ (by rw [Engine.getElem?_pass, hs, Option.map_some])
  · intro h key s hs
    rw [Engine.getElem?_pass, Option.map_eq_some_iff] at hs
    obtain ⟨s, hs, rfl⟩ := hs
    exact (PeerSession.later_pass_iff socks (macs key) (hiv key s hs)).mpr (h key s hs)

/-- A session of the timing that is the default. -/
def plain : BfdConfig where
  session := bfdSessionConfig none none none
  auth := none
  echo := none

/-- A neighbour that is held down says so, once, to a session that is down. -/
def heldDown : List Event :=
  [.register 0 (.v4 1, 0) .bgp 0 none true none, .pass (fun _ => none) 0,
    .receive 1000 (ControlPacket.encode
      { diag := .administrativelyDown, state := .adminDown, poll := false, final := false, cpi := false, demand := false,
        detectMult := 3, myDiscr := 9, yourDiscr := 0, desiredMinTx := 1000000, requiredMinRx := 300000,
        requiredMinEchoRx := 0, authPresent := false }) (.v4 1, 0),
    .pass (fun _ => none) 1000]

theorem pass_wakes_later_plain :
    (∀ t ∈ ((heldDown.foldl (step plain ⟨false, false⟩) Engine.start).pass ⟨false, false⟩ (fun _ => none) 2000).1.nextWakeup,
      2000 < t) ↔
      ∀ (key : PeerKey) (s : PeerSession),
        (heldDown.foldl (step plain ⟨false, false⟩) Engine.start).sessions[key]? = some s → s.Quiet ⟨false, false⟩ 2000 :=
  pass_wakes_later_iff plain ⟨false, false⟩ heldDown (fun _ => none) 2000 fun _ _ hs =>
    one_le_transmitIntervalUs_run ⟨false, false⟩ heldDown (by decide) hs

/-- Long after the timer of that session, every pass still finds it up. -/
theorem not_always_later : ¬ ∀ (cfg : BfdConfig) (socks : EchoSocks) (es : List Event) (macs : PeerKey → Option Mac)
    (now : ℕ), (∀ (key : PeerKey) (s : PeerSession), (es.foldl (step cfg socks) Engine.start).sessions[key]? = some s →
      1 ≤ s.sess.transmitIntervalUs) →
    ∀ t ∈ ((es.foldl (step cfg socks) Engine.start).pass socks macs now).1.nextWakeup, now < t := by
  intro hall
  have hlater := hall plain ⟨false, false⟩ heldDown (fun _ => none) 60000000000 fun _ _ hs =>
    one_le_transmitIntervalUs_run ⟨false, false⟩ heldDown (by decide) hs
  have hwake : ((heldDown.foldl (step plain ⟨false, false⟩) Engine.start).pass ⟨false, false⟩ (fun _ => none)
      60000000000).1.nextWakeup = some 3000001000 := by
    decide +kernel
  have hnow := hlater 3000001000 hwake
  omega

end Wren.Daemon.Bfd
