import Wren.Daemon.Bfd.Engine
import Wren.Lib.Run

/-! Two engines that share a key: when a session takes the next packet of its peer. -/

namespace Wren.Bfd
open Octets

namespace AuthState

/-- A verification changes the number accepted last at most. -/
theorem verify_fst (st : AuthState) (buf : List UInt8) :
    (st.verify buf).1.cfg = st.cfg := by
  simp only [verify]
  split_ifs <;> rfl

end AuthState
end Wren.Bfd

namespace Wren.Daemon.Bfd
open OrdMap Wren.Core Wren.Bfd

def controls (out : List Output) : List (List UInt8) :=
  out.filterMap fun
    | .control _ octets => some octets
    | _ => none

namespace PeerSession

/-- A session under this key, whose packets a receiver takes. -/
structure Keyed (c : AuthConfig) (s : PeerSession) : Prop where
  auth : ∃ st, s.auth = some st ∧ st.cfg = c
  sound : s.sess.Sound

/-- Detection brought the session down. -/
def Expired (s : PeerSession) : Prop := s.sess.state = .down ∧ s.sess.localDiag = .controlDetectionTimeExpired

instance (s : PeerSession) : Decidable s.Expired := inferInstanceAs (Decidable (_ ∧ _))

/-- A packet passes verification and reaches the state machine. -/
def Folds (s : PeerSession) (buf : List UInt8) : Prop :=
  ∃ st pkt, s.auth = some st ∧ (st.verify buf).2 = true ∧ ControlPacket.decode buf = some pkt ∧
    ∀ now, (s.onReceive now buf).1.sess = (s.sess.onPacket pkt).1

/-- The next number of the peer lies in the window of the session, if it has one yet. -/
def InStep (s peer : PeerSession) : Prop :=
  ∀ st ∈ s.auth, ∀ last ∈ st.rxSeq, ∀ sender ∈ peer.auth,
    (sender.xmitSeq + 1 - last).toNat ≤ 3 * st.detectMult.toNat ∧
      (st.cfg.authType.meticulous = true → sender.xmitSeq + 1 ≠ last)

section Keyed
variable {c : AuthConfig} {s : PeerSession}

theorem keyed_new {cfg : BfdConfig} (hauth : cfg.auth = some c) (hmult : cfg.session.detectMult ≠ 0) {discr : UInt32}
    (hdiscr : discr ≠ 0) (now : ℕ) (peer : IpAddr) (consumer : BfdConsumer) (notify : ℕ) (egress : Option Egress) :
    (PeerSession.new cfg now peer discr consumer notify none egress).Keyed c where
  auth := ⟨c.newState cfg.session.detectMult, by simp [PeerSession.new, hauth], rfl⟩
  sound := .new hdiscr hmult

theorem Keyed.onReceive (h : s.Keyed c) (now : ℕ) (buf : List UInt8) : (s.onReceive now buf).1.Keyed c := by
  obtain ⟨st, hst, hc⟩ := h.auth
  have hauth : ∀ pkt, ∃ st', (s.authenticate buf pkt).1 = some st' ∧ st'.cfg = c := by
    intro pkt
    simp only [authenticate, hst]
    split_ifs
    · exact ⟨st, rfl, hc⟩
    · exact ⟨_, rfl, (st.verify_fst buf).trans hc⟩
  unfold PeerSession.onReceive
  cases hdec : ControlPacket.decode buf with
  | none => exact h
  | some pkt =>
    have hsound : (s.sess.onPacket pkt).1.Sound := h.sound.onPacket (ControlPacket.valid_of_decode hdec)
    dsimp only
    cases (s.authenticate buf pkt).2 with
    | false => exact ⟨hauth pkt, h.sound⟩
    | true =>
      cases (s.sess.onPacket pkt).2 with
      | none => exact ⟨hauth pkt, hsound⟩
      | some t => exact ⟨hauth pkt, hsound⟩

theorem Keyed.expire (h : s.Keyed c) (now : ℕ) : (s.expire now).1.Keyed c := by
  have hsound : s.sess.onDetectTimeout.1.Sound := h.sound.timeOut _
  unfold PeerSession.expire
  cases s.detectDeadline with
  | none => exact h
  | some d =>
    dsimp only
    split_ifs
    · cases ht : s.sess.onDetectTimeout with
      | mk sess t =>
        rw [ht] at hsound
        cases t <;> exact ⟨h.auth, hsound⟩
    · exact h

theorem Keyed.transmit (h : s.Keyed c) (now : ℕ) : (s.transmit now).1.Keyed c := by
  obtain ⟨st, hst, hc⟩ := h.auth
  unfold PeerSession.transmit
  split_ifs
  · refine ⟨?_, h.sound.localDiscr, h.sound.detectMult, h.sound.remoteDiscr⟩
    simp only [hst]
    refine ⟨_, rfl, ?_⟩
    unfold AuthState.append
    dsimp only
    split_ifs <;> exact hc
  · exact h

theorem Keyed.service (h : s.Keyed c) (now : ℕ) : (s.service now).1.Keyed c := (h.expire now).transmit now

theorem Keyed.serviceEcho (h : s.Keyed c) (socks : EchoSocks) (mac : Option Mac) (now : ℕ) :
    (s.serviceEcho socks mac now).1.Keyed c := by
  have hfail : ∀ echo, (s.failEcho now echo).1.Keyed c := by
    intro echo
    have hsound : s.sess.onEchoTimeout.1.Sound := h.sound.timeOut _
    unfold failEcho
    dsimp only
    cases ht : s.sess.onEchoTimeout with
    | mk sess t =>
      rw [ht] at hsound
      cases t <;> exact ⟨h.auth, hsound⟩
  have hsend : ∀ echo, (s.transmitEcho socks mac now echo).1.Keyed c := by
    intro echo
    unfold transmitEcho
    split_ifs
    · exact h
    · exact h
    · dsimp only
      cases echo.dstMac <|> mac <;> exact ⟨h.auth, h.sound⟩
  unfold PeerSession.serviceEcho
  cases s.echo with
  | none => exact h
  | some echo =>
    dsimp only
    split_ifs
    · exact ⟨h.auth, h.sound⟩
    · cases echo.lastRx with
      | none => exact hsend echo
      | some last =>
        dsimp only
        split_ifs
        · exact hfail echo
        · exact hsend echo

/-- What a session under the key sends, when it is due. -/
theorem Keyed.controls_service (h : s.Keyed c) {now : ℕ} (hdue : s.nextTx ≤ now) :
    ∃ (st : AuthState) (p : ControlPacket), s.auth = some st ∧ st.cfg = c ∧ p.Valid ∧
      controls (s.service now).2 = [(st.append p.encode).2] := by
  obtain ⟨st, hst, hc⟩ := h.auth
  have hexpired : (s.expire now).1.auth = s.auth ∧ (s.expire now).1.nextTx ≤ now ∧ controls (s.expire now).2 = [] := by
    have hnotify : controls s.notifyDown = [] := by
      simp [controls, notifyDown, List.filterMap_map]
    unfold PeerSession.expire
    cases s.detectDeadline with
    | none => exact ⟨rfl, hdue, rfl⟩
    | some d =>
      dsimp only
      split_ifs
      · cases ht : s.sess.onDetectTimeout with
        | mk sess t =>
          cases t with
          | none => exact ⟨rfl, hdue, rfl⟩
          | some t =>
            refine ⟨rfl, Nat.le_refl now, ?_⟩
            dsimp only
            split_ifs
            · exact hnotify
            · rfl
      · exact ⟨rfl, hdue, rfl⟩
  obtain ⟨hauth, hdue', hnone⟩ := hexpired
  refine ⟨st, (s.expire now).1.sess.buildControl.2, hst, hc, (h.expire now).sound.valid, ?_⟩
  have happend : ∀ l l', controls (l ++ l') = controls l ++ controls l' := fun l l' => List.filterMap_append
  simp only [PeerSession.service, happend, hnone, PeerSession.transmit, if_pos hdue', hauth, hst]
  rfl

/-- A packet under the key is folded exactly where its number is in the window. -/
theorem Keyed.folds_iff (h : s.Keyed c) (hty : c.authType ≠ .simplePassword) {st : AuthState} (hst : st.cfg = c)
    {p : ControlPacket} (hp : p.Valid) : s.Folds (st.append p.encode).2 ↔
      ∀ rx ∈ s.auth, ∀ last ∈ rx.rxSeq, (st.xmitSeq + 1 - last).toNat ≤ 3 * rx.detectMult.toNat ∧
        (rx.cfg.authType.meticulous = true → st.xmitSeq + 1 ≠ last) := by
  obtain ⟨rx, hrx, hc⟩ := h.auth
  have hty' : st.cfg.authType ≠ .simplePassword := by rwa [hst]
  have hverify := AuthState.verify_append (hc.trans hst.symm) hty' p.length_encode
  have hdec := ControlPacket.decode_append hp hty'
  simp only [hrx, Option.mem_some_iff, forall_eq']
  rw [← AuthState.accepts_iff]
  constructor
  · rintro ⟨rx', pkt, hrx', hpass, -, -⟩
    rw [hrx] at hrx'
    cases hrx'
    by_contra hno
    rw [hverify, if_neg hno] at hpass
    cases hpass
  · intro haccepts
    rw [if_pos haccepts] at hverify
    refine ⟨rx, _, hrx, congrArg Prod.snd hverify, hdec, ?_⟩
    intro now
    simp only [PeerSession.onReceive, hdec, authenticate, hrx, hverify, Bool.not_true, Bool.false_eq_true, if_false]
    split <;> rfl

end Keyed
end PeerSession

namespace Recovery

/-- A discriminator as the engine gives them out. -/
abbrev Discr := { d : UInt32 // d ≠ 0 }

/-- The two sides of a session, and every packet that either has sent. -/
structure Pair where
  side : Bool → PeerSession
  sent : Bool → List (List UInt8)

/-- How the two engines are set up. -/
structure Setup where
  cfg : Bool → BfdConfig
  addr : Bool → IpAddr
  egress : Bool → Option Egress

/-- The session of the side `i` with the other one, new. -/
def Setup.fresh (u : Setup) (i : Bool) (now : ℕ) (discr : Discr) : PeerSession :=
  .new (u.cfg i) now (u.addr !i) discr .bgp 0 none (u.egress i)

/-- `deliver i n` is the arrival, at the side `i`, of the `n`-th packet that the other side ever sent: packets may be
lost, late or doubled. -/
inductive Event where
  | pass (i : Bool) (socks : EchoSocks) (mac : Option Mac) (now : ℕ)
  | deliver (i : Bool) (n : ℕ) (now : ℕ)
  | echoReceive (i : Bool) (now : ℕ)
  | restart (i : Bool) (now : ℕ) (discr : Discr)

def start (u : Setup) (discr : Bool → Discr) : Pair where
  side i := u.fresh i 0 (discr i)
  sent _ := []

def Pair.setSide (w : Pair) (i : Bool) (s : PeerSession) : Pair := { w with side := Function.update w.side i s }

def step (u : Setup) (w : Pair) : Event → Pair
  | .pass i socks mac now =>
    let served := (w.side i).service now
    { w.setSide i (served.1.serviceEcho socks mac now).1 with
      sent := Function.update w.sent i (w.sent i ++ controls served.2) }
  | .deliver i n now =>
    match (w.sent !i)[n]? with
    | some octets => w.setSide i ((w.side i).onReceive now octets).1
    | none => w
  | .echoReceive i now =>
    match (w.side i).echo with
    | some echo => w.setSide i { w.side i with echo := some { echo with lastRx := some now } }
    | none => w
  | .restart i now discr => w.setSide i (u.fresh i now discr)

section Runs
variable {u : Setup} {c : AuthConfig}

theorem keyed_setSide {w : Pair} (h : ∀ i, (w.side i).Keyed c) {i : Bool} {s : PeerSession} (hs : s.Keyed c) (j : Bool) :
    (Function.update w.side i s j).Keyed c := by
  by_cases hj : j = i
  · subst hj
    rw [Function.update_self]
    exact hs
  · rw [Function.update_of_ne hj]
    exact h j

theorem keyed_fresh (hauth : ∀ i, (u.cfg i).auth = some c) (hmult : ∀ i, (u.cfg i).session.detectMult ≠ 0) (i : Bool)
    (now : ℕ) (discr : Discr) : (u.fresh i now discr).Keyed c :=
  PeerSession.keyed_new (hauth i) (hmult i) discr.2 now _ _ _ _

theorem keyed_step (hauth : ∀ i, (u.cfg i).auth = some c) (hmult : ∀ i, (u.cfg i).session.detectMult ≠ 0) {w : Pair}
    (h : ∀ i, (w.side i).Keyed c) (e : Event) (j : Bool) : ((step u w e).side j).Keyed c := by
  cases e with
  | pass i socks mac now => exact keyed_setSide h (((h i).service now).serviceEcho socks mac now) j
  | deliver i n now =>
    simp only [step]
    cases (w.sent !i)[n]? with
    | none => exact h j
    | some octets => exact keyed_setSide h ((h i).onReceive now octets) j
  | echoReceive i now =>
    simp only [step]
    cases (w.side i).echo with
    | none => exact h j
    | some echo =>
      apply keyed_setSide h
      exact ⟨(h i).auth, (h i).sound⟩
  | restart i now discr => exact keyed_setSide h (keyed_fresh hauth hmult i now discr) j

theorem keyed_run (hauth : ∀ i, (u.cfg i).auth = some c) (hmult : ∀ i, (u.cfg i).session.detectMult ≠ 0)
    (discr : Bool → Discr) (es : List Event) (i : Bool) : ((es.foldl (step u) (start u discr)).side i).Keyed c :=
  (Run.every_true (step u) (start u discr) es).invariant (fun w => ∀ i, (w.side i).Keyed c)
    (fun i => keyed_fresh hauth hmult i 0 (discr i)) (fun _ e h _ => keyed_step hauth hmult h e) i

/-- In every run of two engines that share a key, and however the session came to be where it is, the next packet of
the peer is folded into it exactly where its number is in the window of those accepted before. -/
theorem next_folds_iff (u : Setup) (c : AuthConfig) (hty : c.authType ≠ .simplePassword)
    (hauth : ∀ i, (u.cfg i).auth = some c) (hmult : ∀ i, (u.cfg i).session.detectMult ≠ 0) (discr : Bool → Discr)
    (es : List Event) (i : Bool) (now : ℕ) (hdue : ((es.foldl (step u) (start u discr)).side !i).nextTx ≤ now) :
    (∀ octets ∈ controls (((es.foldl (step u) (start u discr)).side !i).service now).2,
      ((es.foldl (step u) (start u discr)).side i).Folds octets) ↔
      ((es.foldl (step u) (start u discr)).side i).InStep ((es.foldl (step u) (start u discr)).side !i) := by
  have h := keyed_run hauth hmult discr es
  generalize es.foldl (step u) (start u discr) = w at h hdue
  obtain ⟨st, p, hst, hc, hp, hsent⟩ := (h !i).controls_service hdue
  rw [hsent, List.forall_mem_singleton, (h i).folds_iff hty hc hp, PeerSession.InStep]
  simp only [hst, Option.mem_some_iff, forall_eq']

end Runs

/-- Two engines with a Detect Mult of one and a key for MD5. -/
def keyedPair : Setup where
  cfg _ := { session := bfdSessionConfig none none (some 1), auth := some ⟨.keyedMd5, 7, [0x6b]⟩, echo := none }
  addr i := if i then .v4 1 else .v4 2
  egress _ := none

def numbers (i : Bool) : Discr := if i then ⟨1, by decide⟩ else ⟨2, by decide⟩

/-- Both sides come up, and then four packets of one are lost. -/
def outage : List Event :=
  [.pass true ⟨false, false⟩ none 0, .deliver false 0 0, .pass false ⟨false, false⟩ none 0, .deliver true 0 0,
    .pass true ⟨false, false⟩ none 0, .deliver false 1 0, .pass true ⟨false, false⟩ none 228000000,
    .pass true ⟨false, false⟩ none 456000000, .pass true ⟨false, false⟩ none 684000000,
    .pass true ⟨false, false⟩ none 912000000, .pass false ⟨false, false⟩ none 912000000]

theorem next_folds_outage :
    (∀ octets ∈ controls (((outage.foldl (step keyedPair) (start keyedPair numbers)).side !false).service 1200000000).2,
      ((outage.foldl (step keyedPair) (start keyedPair numbers)).side false).Folds octets) ↔
      ((outage.foldl (step keyedPair) (start keyedPair numbers)).side false).InStep
        ((outage.foldl (step keyedPair) (start keyedPair numbers)).side !false) :=
  next_folds_iff keyedPair ⟨.keyedMd5, 7, [0x6b]⟩ (by decide) (fun _ => rfl)
    (fun _ => bfdSessionConfig_detectMult none none (some 1)) numbers outage false 1200000000 (by decide +kernel)

/-- After that outage the session is down for good, as far as its peer's next packet goes. -/
theorem not_always_folds : ¬ ∀ (u : Setup) (c : AuthConfig), c.authType ≠ .simplePassword →
    (∀ i, (u.cfg i).auth = some c) → (∀ i, (u.cfg i).session.detectMult ≠ 0) → ∀ (discr : Bool → Discr) (es : List Event)
    (i : Bool) (now : ℕ), ((es.foldl (step u) (start u discr)).side i).Expired →
    ((es.foldl (step u) (start u discr)).side !i).nextTx ≤ now →
    ∀ octets ∈ controls (((es.foldl (step u) (start u discr)).side !i).service now).2,
      ((es.foldl (step u) (start u discr)).side i).Folds octets := by
  intro hall
  have hfolds := hall keyedPair ⟨.keyedMd5, 7, [0x6b]⟩ (by decide) (fun _ => rfl)
    (fun _ => bfdSessionConfig_detectMult none none (some 1)) numbers outage false 1200000000 (by decide +kernel)
    (by decide +kernel)
  have hrejected : ((outage.foldl (step keyedPair) (start keyedPair numbers)).side false).auth.map (fun st =>
      (controls (((outage.foldl (step keyedPair) (start keyedPair numbers)).side !false).service 1200000000).2).map
        fun octets => (st.verify octets).2) = some [false] := by
    decide +kernel
  generalize controls (((outage.foldl (step keyedPair) (start keyedPair numbers)).side !false).service 1200000000).2 =
    sent at hfolds hrejected
  obtain ⟨st, hst, hone⟩ := Option.map_eq_some_iff.mp hrejected
  obtain ⟨octets, hsent, hfalse⟩ := List.map_eq_singleton_iff.mp hone
  obtain ⟨st', pkt, hst', htrue, -⟩ := hfolds octets (by rw [hsent]; exact List.mem_singleton_self octets)
  rw [hst] at hst'
  cases hst'
  rw [hfalse] at htrue
  cases htrue

end Recovery
end Wren.Daemon.Bfd
