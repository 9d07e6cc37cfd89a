import Wren.Bfd.Packet

/-! The state machine of a BFD session. -/

namespace Wren.Bfd

/-- The transmit interval of a session that is not up is at least this long, in microseconds. -/
def slowTxFloorUs : UInt32 := 1000000

structure SessionConfig where
  desiredMinTxUs : UInt32
  requiredMinRxUs : UInt32
  detectMult : UInt8
deriving DecidableEq

/-- The settings of a `[bfd]` block, in milliseconds. None of them is let be zero. -/
def bfdSessionConfig (minTx minRx : Option UInt32) (detectMult : Option UInt8) : SessionConfig where
  desiredMinTxUs := UInt32.ofNat (min ((max (minTx.getD 300) 1).toNat * 1000) (2 ^ 32 - 1))
  requiredMinRxUs := UInt32.ofNat (min ((max (minRx.getD 300) 1).toNat * 1000) (2 ^ 32 - 1))
  detectMult := max (detectMult.getD 3) 1

theorem bfdSessionConfig_detectMult (minTx minRx : Option UInt32) (detectMult : Option UInt8) :
    (bfdSessionConfig minTx minRx detectMult).detectMult ≠ 0 := by
  have hpos : ∀ m : BitVec 8, max (UInt8.ofBitVec m) 1 ≠ 0 := by decide
  exact hpos (detectMult.getD 3).toBitVec

structure Transition where
  src : State
  dst : State
deriving DecidableEq

structure Session where
  localDiscr : UInt32
  cfg : SessionConfig
  state : State
  localDiag : Diag
  remoteDiscr : UInt32
  remoteState : State
  remoteMinRxUs : UInt32
  remoteDesiredTxUs : UInt32
  remoteDetectMult : UInt8
  sendFinal : Bool
deriving DecidableEq

namespace Session

/-- A session starts out down. -/
def new (localDiscr : UInt32) (cfg : SessionConfig) : Session where
  localDiscr
  cfg
  state := .down
  localDiag := .none
  remoteDiscr := 0
  remoteState := .down
  remoteMinRxUs := 1
  remoteDesiredTxUs := 1
  remoteDetectMult := 1
  sendFinal := false

/-- What every packet teaches about the other side. -/
def learn (s : Session) (pkt : ControlPacket) : Session :=
  { s with
    remoteDiscr := pkt.myDiscr
    remoteState := pkt.state
    remoteMinRxUs := pkt.requiredMinRx
    remoteDesiredTxUs := pkt.desiredMinTx
    remoteDetectMult := pkt.detectMult
    sendFinal := s.sendFinal || pkt.poll }

/-- The state to change to, if any, on a packet in this state. -/
def next (s : State) (received : State) : Option State :=
  match received, s with
  | _, .adminDown => none
  | .adminDown, .down => none
  | .adminDown, _ => some .down
  | .down, .down => some .init
  | .init, .down => some .up
  | .init, .init | .up, .init => some .up
  | .down, .up => some .down
  | _, _ => none

/-- Fold a packet into the session. -/
def onPacket (s : Session) (pkt : ControlPacket) : Session × Option Transition :=
  let s := s.learn pkt
  match next s.state pkt.state with
  | none => (s, none)
  | some dst =>
    ({ s with
        state := dst
        localDiag :=
          if dst = .up then .none
          else if dst = .down then .neighborSignaledDown
          else s.localDiag
        remoteDiscr := if dst = .down then 0 else s.remoteDiscr }, some ⟨s.state, dst⟩)

/-- Nothing was heard for too long, of packets or of echoes. Only a session that is up or comes up is concerned. -/
def timeOut (diag : Diag) (s : Session) : Session × Option Transition :=
  if s.state = .up ∨ s.state = .init then
    ({ s with localDiag := diag, state := .down, remoteState := .down, remoteDiscr := 0 }, some ⟨s.state, .down⟩)
  else (s, none)

def onDetectTimeout (s : Session) : Session × Option Transition := timeOut .controlDetectionTimeExpired s

def onEchoTimeout (s : Session) : Session × Option Transition := timeOut .echoFunctionFailed s

def effectiveDesiredTxUs (s : Session) : UInt32 :=
  if s.state = .up then s.cfg.desiredMinTxUs else max s.cfg.desiredMinTxUs slowTxFloorUs

def buildControl (s : Session) : Session × ControlPacket :=
  ({ s with sendFinal := false },
    { diag := s.localDiag
      state := s.state
      poll := false
      final := s.sendFinal
      cpi := false
      demand := false
      detectMult := s.cfg.detectMult
      myDiscr := s.localDiscr
      yourDiscr := s.remoteDiscr
      desiredMinTx := s.effectiveDesiredTxUs
      requiredMinRx := s.cfg.requiredMinRxUs
      requiredMinEchoRx := 0
      authPresent := false })

/-- The greater one of both sides' intervals, less a jitter that depends on the discriminator. -/
def transmitIntervalUs (s : Session) : ℕ :=
  max s.effectiveDesiredTxUs.toNat s.remoteMinRxUs.toNat * (75 + s.localDiscr.toNat % 16) / 100

def detectionTimeUs (s : Session) : ℕ :=
  s.remoteDetectMult.toNat * max s.cfg.requiredMinRxUs.toNat s.remoteDesiredTxUs.toNat

/-- A session that is coming up or up. -/
def Rising (s : State) : Prop := s = .init ∨ s = .up

instance (s : State) : Decidable (Rising s) := inferInstanceAs (Decidable (_ ∨ _))

theorem not_rising_down : ¬ Rising .down := by decide

/-- The state after a packet, and the transition there was. -/
theorem onPacket_spec (s : Session) (pkt : ControlPacket) :
    (next s.state pkt.state = none ∧ s.onPacket pkt = (s.learn pkt, none)) ∨
    (∃ dst, next s.state pkt.state = some dst ∧ (s.onPacket pkt).2 = some ⟨s.state, dst⟩ ∧
      (s.onPacket pkt).1.state = dst ∧ (s.onPacket pkt).1.localDiscr = s.localDiscr ∧
      (s.onPacket pkt).1.cfg = s.cfg ∧
      (s.onPacket pkt).1.remoteDiscr = if dst = .down then 0 else pkt.myDiscr) := by
  have hstate : (s.learn pkt).state = s.state := rfl
  cases h : next s.state pkt.state with
  | none =>
    left
    simp only [onPacket, hstate, h, and_self]
  | some dst =>
    right
    refine ⟨dst, rfl, ?_⟩
    simp only [onPacket, h, learn, and_self]

@[simp] theorem cfg_onPacket (s : Session) (pkt : ControlPacket) : (s.onPacket pkt).1.cfg = s.cfg := by
  rcases s.onPacket_spec pkt with ⟨-, heq⟩ | ⟨dst, -, -, -, -, hcfg, -⟩
  · rw [heq, learn]
  · exact hcfg

@[simp] theorem localDiscr_onPacket (s : Session) (pkt : ControlPacket) :
    (s.onPacket pkt).1.localDiscr = s.localDiscr := by
  rcases s.onPacket_spec pkt with ⟨-, heq⟩ | ⟨dst, -, -, -, hdiscr, -, -⟩
  · rw [heq, learn]
  · exact hdiscr

/-- Only a session that was Init or Up times out, and it is down then. -/
theorem timeOut_spec (diag : Diag) (s : Session) :
    (timeOut diag s = (s, none) ∧ ¬ (s.state = .up ∨ s.state = .init)) ∨
    ((timeOut diag s).2 = some ⟨s.state, .down⟩ ∧ (timeOut diag s).1.state = .down ∧
      (timeOut diag s).1.localDiscr = s.localDiscr ∧ (timeOut diag s).1.cfg = s.cfg) := by
  unfold timeOut
  by_cases h : s.state = .up ∨ s.state = .init
  · right
    rw [if_pos h]
    exact ⟨rfl, rfl, rfl, rfl⟩
  · left
    rw [if_neg h]
    exact ⟨rfl, h⟩

/-- What makes the packets of a session ones that a receiver takes. -/
structure Sound (s : Session) : Prop where
  localDiscr : s.localDiscr ≠ 0
  detectMult : s.cfg.detectMult ≠ 0
  remoteDiscr : Rising s.state → s.remoteDiscr ≠ 0

namespace Sound
variable {s : Session}

theorem new {discr : UInt32} {cfg : SessionConfig} (hdiscr : discr ≠ 0) (hmult : cfg.detectMult ≠ 0) :
    (Session.new discr cfg).Sound where
  localDiscr := hdiscr
  detectMult := hmult
  remoteDiscr h := absurd h not_rising_down

theorem valid (h : s.Sound) : s.buildControl.2.Valid where
  detectMult := h.detectMult
  myDiscr := h.localDiscr
  yourDiscr := h.remoteDiscr

theorem onPacket (h : s.Sound) {pkt : ControlPacket} (hpkt : pkt.Valid) : (s.onPacket pkt).1.Sound where
  localDiscr := by
    rw [localDiscr_onPacket]
    exact h.localDiscr
  detectMult := by
    rw [cfg_onPacket]
    exact h.detectMult
  remoteDiscr hs := by
    rcases s.onPacket_spec pkt with ⟨-, heq⟩ | ⟨dst, -, -, hstate, -, -, hremote⟩
    · rw [heq]
      exact hpkt.myDiscr
    · have hup : dst ≠ .down := by
        intro hdown
        rw [hstate, hdown] at hs
        exact not_rising_down hs
      rw [hremote, if_neg hup]
      exact hpkt.myDiscr

theorem timeOut (h : s.Sound) (diag : Diag) : (Session.timeOut diag s).1.Sound := by
  rcases timeOut_spec diag s with ⟨heq, -⟩ | ⟨-, hstate, hlocal, hcfg⟩
  · rw [heq]
    exact h
  · refine ⟨hlocal ▸ h.localDiscr, hcfg ▸ h.detectMult, ?_⟩
    intro hs
    rw [hstate] at hs
    exact absurd hs not_rising_down

end Sound
end Session
end Wren.Bfd
