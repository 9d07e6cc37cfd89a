import Wren.Daemon.Bfd.Wakeup
import Wren.Lib.Run

/-! The notifications of sessions that go down, and the channels they travel on. -/

namespace Wren.Daemon.Bfd
open Std Octets OrdMap Wren.Core Wren.Bfd

/-- A channel and the peer that a notification on it names. -/
abbrev Notice := ℕ × IpAddr

def Output.notice? : Output → Option Notice
  | .down channel peer => some (channel, peer)
  | _ => none

def notices (outs : List Output) : List Notice := outs.filterMap Output.notice?

@[simp] theorem notices_nil : notices [] = [] := rfl

@[simp] theorem notices_append (outs outs' : List Output) : notices (outs ++ outs') = notices outs ++ notices outs' :=
  List.filterMap_append

namespace PeerSession
variable {now : ℕ}

/-- One notification for each subscriber. -/
def toAll (s : PeerSession) : List Notice := s.subscribers.toList.map fun e => (e.2, s.peer)

@[simp] theorem notices_notifyDown (s : PeerSession) : notices s.notifyDown = s.toAll := by
  unfold notices notifyDown toAll
  rw [List.filterMap_map]
  exact congrFun List.filterMap_eq_map s.subscribers.toList

/-- A session that leaves the Up state. -/
def Fails (s s' : PeerSession) : Prop := s.sess.state = .up ∧ s'.sess.state ≠ .up

instance (s s' : PeerSession) : Decidable (s.Fails s') := inferInstanceAs (Decidable (_ ∧ _))

/-- Who hears of a session is kept, and all of them hear of it if it fails. -/
structure Notifies (s : PeerSession) (out : PeerSession × List Output) : Prop where
  peer : out.1.peer = s.peer
  subscribers : out.1.subscribers = s.subscribers
  notices : notices out.2 = if s.Fails out.1 then s.toAll else []

/-- The same of a step that brings no session up. -/
structure Lowers (s : PeerSession) (out : PeerSession × List Output) : Prop extends Notifies s out where
  lower : out.1.sess.state = .up → s.sess.state = .up

theorem notifies_quiet {s s' : PeerSession} {outs : List Output} (hpeer : s'.peer = s.peer)
    (hsubs : s'.subscribers = s.subscribers) (hstate : s'.sess.state = s.sess.state) (houts : notices outs = []) :
    s.Lowers (s', outs) := by
  have hstays : ¬ s.Fails s' := fun h => h.2 (hstate.trans h.1)
  exact ⟨⟨hpeer, hsubs, by rw [houts, if_neg hstays]⟩, fun h => hstate.symm.trans h⟩

/-- Two steps one after the other, where the second one brings no session up. -/
theorem Lowers.trans {s : PeerSession} {out out' : PeerSession × List Output} (h : s.Lowers out)
    (h' : out.1.Lowers out') : s.Lowers (out'.1, out.2 ++ out'.2) := by
  have htoAll : out.1.toAll = s.toAll := by
    unfold toAll
    rw [h.subscribers, h.peer]
  constructor
  · constructor
    · exact h'.peer.trans h.peer
    · exact h'.subscribers.trans h.subscribers
    · rw [notices_append, h.notices, h'.notices, htoAll]
      have hlow := h.lower
      have hlow' := h'.lower
      unfold Fails
      by_cases hs : s.sess.state = .up <;> by_cases hm : out.1.sess.state = .up <;>
        by_cases he : out'.1.sess.state = .up <;> simp_all
  · exact fun hup => h.lower (h'.lower hup)

/-- A packet takes a session that is up nowhere but down. -/
theorem dst_of_next {r : State} {dst : State} (h : Session.next .up r = some dst) : dst = .down := by
  cases r <;> simp [Session.next] at h <;> exact h.symm

theorem notifies_onReceive (s : PeerSession) (buf : List UInt8) : s.Notifies (s.onReceive now buf) := by
  unfold onReceive
  cases ControlPacket.decode buf with
  | none => exact Lowers.toNotifies (notifies_quiet rfl rfl rfl notices_nil)
  | some pkt =>
    dsimp only
    by_cases hauth : (s.authenticate buf pkt).2 = true
    · rw [if_neg (by simp [hauth])]
      obtain ⟨-, hsame⟩ | ⟨dst, hnext, htrans, hstate, -⟩ := s.sess.onPacket_spec pkt
      · rw [hsame]
        exact Lowers.toNotifies (notifies_quiet rfl rfl rfl notices_nil)
      · rw [htrans]
        constructor
        · rfl
        · rfl
        · dsimp only
          by_cases hup : s.sess.state = .up
          · obtain rfl := dst_of_next (hup ▸ hnext)
            refine Eq.trans ?_ (if_pos ⟨hup, fun h => absurd (hstate.symm.trans h) (by decide)⟩).symm
            rw [if_pos ⟨hup, rfl⟩, notices_notifyDown]
            rfl
          · refine Eq.trans ?_ (if_neg fun h => hup h.1).symm
            rw [if_neg fun h => hup h.1]
            rfl
    · rw [if_pos (by simp [hauth])]
      exact Lowers.toNotifies (notifies_quiet rfl rfl rfl notices_nil)

/-- A timer that fires takes a session down, and tells so if it was up. -/
theorem lowers_timeOut (s s' : PeerSession) {diag : Diag} {sess : Session} {t : Transition}
    (h : Session.timeOut diag s.sess = (sess, some t)) (hsess : s'.sess = sess) (hpeer : s'.peer = s.peer)
    (hsubs : s'.subscribers = s.subscribers) {outs : List Output} (houts : notices outs = s.toAll) :
    s.Lowers (s', if t.src = .up then outs else []) := by
  obtain ⟨hsame, -⟩ | ⟨htrans, hdown, -⟩ := Session.timeOut_spec diag s.sess
  · rw [hsame] at h
    cases h
  · rw [h] at htrans hdown
    obtain rfl := Option.some.inj htrans
    rw [← hsess] at hdown
    constructor
    · constructor
      · exact hpeer
      · exact hsubs
      · dsimp only
        by_cases hup : s.sess.state = .up
        · refine Eq.trans ?_ (if_pos ⟨hup, fun h => absurd (hdown.symm.trans h) (by decide)⟩).symm
          rw [if_pos hup, houts]
        · refine Eq.trans ?_ (if_neg fun h => hup h.1).symm
          rw [if_neg hup]
          rfl
    · intro hup
      rw [hdown] at hup
      cases hup

theorem lowers_expire (s : PeerSession) : s.Lowers (s.expire now) := by
  unfold expire
  cases s.detectDeadline with
  | none => exact notifies_quiet rfl rfl rfl rfl
  | some d =>
    dsimp only
    split_ifs
    · cases h : s.sess.onDetectTimeout with
      | mk sess t =>
        cases t with
        | none =>
          have hstate : sess.state = s.sess.state := by
            obtain ⟨hsame, -⟩ | ⟨htrans, -⟩ := Session.timeOut_spec .controlDetectionTimeExpired s.sess
            · rw [Session.onDetectTimeout, hsame] at h
              rw [(Prod.mk.inj h).1]
            · rw [Session.onDetectTimeout] at h
              rw [h] at htrans
              cases htrans
          exact notifies_quiet rfl rfl hstate rfl
        | some t =>
          have hlow := lowers_timeOut s { s with sess, detectDeadline := none, nextTx := now } h rfl rfl rfl
            s.notices_notifyDown
          exact hlow
    · exact notifies_quiet rfl rfl rfl rfl

theorem lowers_transmit (s : PeerSession) : s.Lowers (s.transmit now) := by
  unfold transmit
  split_ifs
  · exact notifies_quiet rfl rfl rfl rfl
  · exact notifies_quiet rfl rfl rfl rfl

theorem lowers_service (s : PeerSession) : s.Lowers (s.service now) := s.lowers_expire.trans (lowers_transmit _)

theorem lowers_transmitEcho (s : PeerSession) (socks : EchoSocks) (mac : Option Mac) (echo : EchoState) :
    s.Lowers (s.transmitEcho socks mac now echo) := by
  unfold transmitEcho
  split_ifs
  · exact notifies_quiet rfl rfl rfl rfl
  · exact notifies_quiet rfl rfl rfl rfl
  · dsimp only
    cases echo.dstMac <|> mac with
    | none => exact notifies_quiet rfl rfl rfl rfl
    | some dst => exact notifies_quiet rfl rfl rfl rfl

theorem lowers_failEcho (s : PeerSession) (echo : EchoState) : s.Lowers (s.failEcho now echo) := by
  unfold failEcho
  dsimp only
  cases h : s.sess.onEchoTimeout with
  | mk sess t =>
    cases t with
    | none =>
      have hstate : sess.state = s.sess.state := by
        obtain ⟨hsame, -⟩ | ⟨htrans, -⟩ := Session.timeOut_spec .echoFunctionFailed s.sess
        · rw [Session.onEchoTimeout, hsame] at h
          rw [(Prod.mk.inj h).1]
        · rw [Session.onEchoTimeout] at h
          rw [h] at htrans
          cases htrans
      exact notifies_quiet rfl rfl hstate rfl
    | some t =>
      have hlow := lowers_timeOut s { s with
        echo := some { echo with lastRx := none }, sess, detectDeadline := none, nextTx := now } h rfl rfl rfl
        (notices_notifyDown _)
      exact hlow

theorem lowers_serviceEcho (s : PeerSession) (socks : EchoSocks) (mac : Option Mac) :
    s.Lowers (s.serviceEcho socks mac now) := by
  unfold serviceEcho
  cases s.echo with
  | none => exact notifies_quiet rfl rfl rfl rfl
  | some echo =>
    dsimp only
    split_ifs
    · exact notifies_quiet rfl rfl rfl rfl
    · cases echo.lastRx with
      | none => exact s.lowers_transmitEcho socks mac echo
      | some last =>
        dsimp only
        split_ifs
        · exact s.lowers_failEcho echo
        · exact s.lowers_transmitEcho socks mac echo

end PeerSession

namespace Engine
variable {now : ℕ}

/-- What an event makes of the engine, and what the engine gives out at it. -/
def emit (cfg : BfdConfig) (socks : EchoSocks) (w : Engine) : Event → Engine × List Output
  | .register now key consumer notify auth txOk egress => (w.register cfg now key consumer notify auth txOk egress, [])
  | .deregister key consumer => (w.deregister key consumer, [])
  | .receive now buf key => w.onReceive now buf key
  | .echoReceive now discr => (w.onEchoReceive now discr, [])
  | .pass macs now => w.pass socks macs now

theorem emit_fst (cfg : BfdConfig) (socks : EchoSocks) (w : Engine) (e : Event) :
    (w.emit cfg socks e).1 = step cfg socks w e := by
  cases e <;> rfl

/-- One notification for each subscriber of each session that leaves the Up state between `w` and `w'`. -/
def failures (w w' : Engine) : List Notice :=
  w.sessions.toList.flatMap fun e => (w'.sessions[e.1]?).elim [] fun s => if e.2.Fails s then e.2.toAll else []

theorem failures_quiet {w w' : Engine} (h : ∀ (key : PeerKey) (s s' : PeerSession), w.sessions[key]? = some s →
    w'.sessions[key]? = some s' → s'.sess.state = s.sess.state) : w.failures w' = [] := by
  unfold failures
  rw [List.flatMap_eq_nil_iff]
  intro e he
  rw [ExtTreeMap.mem_toList_iff_getElem?_eq_some] at he
  cases hs : w'.sessions[e.1]? with
  | none => rfl
  | some s =>
    have hsame := h e.1 e.2 s he hs
    exact if_neg fun hfails => hfails.2 (hsame.trans hfails.1)

/-- A pass in which nothing comes up notifies of what goes down. -/
theorem notices_each {f : PeerKey → PeerSession → PeerSession × List Output}
    (hf : ∀ (key : PeerKey) (s : PeerSession), s.Lowers (f key s)) (w : Engine) :
    notices (w.each f).2 = w.failures (w.each f).1 := by
  unfold failures each notices
  rw [List.filterMap_flatMap]
  apply List.flatMap_congr
  intro e he
  rw [ExtTreeMap.mem_toList_iff_getElem?_eq_some] at he
  dsimp only
  rw [ExtTreeMap.getElem?_map, he]
  exact (hf e.1 e.2).notices

/-- A step of one session after another one. -/
def both (f g : PeerKey → PeerSession → PeerSession × List Output) (key : PeerKey) (s : PeerSession) :
    PeerSession × List Output :=
  ((g key (f key s).1).1, (f key s).2 ++ (g key (f key s).1).2)

/-- Two passes do what one pass with both steps does, up to the order among the sessions. -/
theorem each_each (f g : PeerKey → PeerSession → PeerSession × List Output) (w : Engine) :
    ((w.each f).1.each g).1 = (w.each (both f g)).1 ∧
      ((w.each f).2 ++ ((w.each f).1.each g).2).Perm (w.each (both f g)).2 := by
  constructor
  · have hsessions : (w.sessions.map fun key s => (f key s).1).map (fun key s => (g key s).1) =
        w.sessions.map fun key s => (both f g key s).1 := by
      apply ExtTreeMap.ext_getElem?
      intro key
      rw [ExtTreeMap.getElem?_map, ExtTreeMap.getElem?_map, ExtTreeMap.getElem?_map, Option.map_map]
      rfl
    unfold each
    dsimp only
    rw [hsessions]
  · unfold each
    dsimp only
    rw [ExtTreeMap.toList_map, List.flatMap_map]
    exact List.flatMap_append_perm _ _ _

theorem notices_pass (socks : EchoSocks) (macs : PeerKey → Option Mac) (w : Engine) :
    (notices (w.pass socks macs now).2).Perm (w.failures (w.pass socks macs now).1) := by
  have hserve : ∀ (_ : PeerKey) (s : PeerSession), s.Lowers (s.service now) := fun _ s => s.lowers_service
  have hecho : ∀ (key : PeerKey) (s : PeerSession), s.Lowers (s.serviceEcho socks (macs key) now) :=
    fun key s => s.lowers_serviceEcho socks (macs key)
  unfold pass service serviceEcho
  dsimp only
  split_ifs
  · rw [List.append_nil, notices_each hserve]
  · obtain ⟨hend, hperm⟩ := each_each (fun _ s => s.service now) (fun key s => s.serviceEcho socks (macs key) now) w
    have hboth : ∀ (key : PeerKey) (s : PeerSession),
        s.Lowers (both (fun _ s => s.service now) (fun key s => s.serviceEcho socks (macs key) now) key s) :=
      fun key s => (hserve key s).trans (hecho key _)
    rw [hend, ← notices_each hboth]
    exact hperm.filterMap _

theorem notices_onReceive (w : Engine) (buf : List UInt8) (key : PeerKey) :
    notices (w.onReceive now buf key).2 = w.failures (w.onReceive now buf key).1 := by
  unfold onReceive
  cases hs : w.sessions[key]? with
  | none =>
    have hquiet : w.failures w = [] := by
      apply failures_quiet
      intro k s s' h h'
      rw [Option.some.inj (h.symm.trans h')]
    exact hquiet.symm
  | some s =>
    dsimp only
    unfold failures
    rw [flatMap_toList_of_key w.sessions key _ fun e he hne => ?_, hs]
    · dsimp only [Option.elim]
      rw [getElem?_insert, if_pos rfl]
      exact (s.notifies_onReceive buf).notices
    · rw [ExtTreeMap.mem_toList_iff_getElem?_eq_some] at he
      rw [getElem?_insert, if_neg hne, he]
      exact if_neg fun hfails => hfails.2 hfails.1

theorem state_register {cfg : BfdConfig} {key k : PeerKey} {consumer : BfdConsumer} {notify : ℕ} {auth : Option AuthConfig}
    {txOk : Bool} {egress : Option Egress} {w : Engine} {s s' : PeerSession} (hs : w.sessions[k]? = some s)
    (hs' : (w.register cfg now key consumer notify auth txOk egress).sessions[k]? = some s') :
    s'.sess.state = s.sess.state := by
  unfold register at hs'
  cases hkey : w.sessions[key]? with
  | some t =>
    rw [hkey] at hs'
    dsimp only at hs'
    rw [getElem?_insert] at hs'
    split_ifs at hs' with hk
    · subst hk
      rw [← Option.some.inj hs', Option.some.inj (hs.symm.trans hkey)]
    · rw [Option.some.inj (hs.symm.trans hs')]
  | none =>
    rw [hkey] at hs'
    dsimp only at hs'
    split_ifs at hs'
    · rw [Option.some.inj (hs.symm.trans hs')]
    · rw [getElem?_insert] at hs'
      split_ifs at hs' with hk
      · subst hk
        rw [hkey] at hs
        cases hs
      · rw [Option.some.inj (hs.symm.trans hs')]

theorem state_deregister {key k : PeerKey} {consumer : BfdConsumer} {w : Engine} {s s' : PeerSession}
    (hs : w.sessions[k]? = some s) (hs' : (w.deregister key consumer).sessions[k]? = some s') :
    s'.sess.state = s.sess.state := by
  unfold deregister at hs'
  cases hkey : w.sessions[key]? with
  | none =>
    rw [hkey] at hs'
    rw [Option.some.inj (hs.symm.trans hs')]
  | some t =>
    rw [hkey] at hs'
    dsimp only at hs'
    split_ifs at hs'
    · rw [getElem?_erase] at hs'
      split_ifs at hs'
      rw [Option.some.inj (hs.symm.trans hs')]
    · rw [getElem?_insert] at hs'
      split_ifs at hs' with hk
      · subst hk
        rw [← Option.some.inj hs', Option.some.inj (hs.symm.trans hkey)]
      · rw [Option.some.inj (hs.symm.trans hs')]

theorem state_onEchoReceive {discr : UInt32} {k : PeerKey} {w : Engine} {s s' : PeerSession}
    (hs : w.sessions[k]? = some s) (hs' : (w.onEchoReceive now discr).sessions[k]? = some s') :
    s'.sess.state = s.sess.state := by
  unfold onEchoReceive at hs'
  cases hfind : w.sessions.toList.find? fun e => e.2.sess.localDiscr = discr with
  | none =>
    rw [hfind] at hs'
    rw [Option.some.inj (hs.symm.trans hs')]
  | some e =>
    obtain ⟨key, t⟩ := e
    have ht : w.sessions[key]? = some t :=
      ExtTreeMap.mem_toList_iff_getElem?_eq_some.mp (List.mem_of_find?_eq_some hfind)
    rw [hfind] at hs'
    dsimp only at hs'
    cases hecho : t.echo with
    | none =>
      rw [hecho] at hs'
      rw [Option.some.inj (hs.symm.trans hs')]
    | some echo =>
      rw [hecho] at hs'
      dsimp only at hs'
      rw [getElem?_insert] at hs'
      split_ifs at hs' with hk
      · subst hk
        rw [← Option.some.inj hs', Option.some.inj (hs.symm.trans ht)]
      · rw [Option.some.inj (hs.symm.trans hs')]

/-- At every event the engine notifies of the sessions that fail at it, and of nothing else. -/
theorem notices_emit (cfg : BfdConfig) (socks : EchoSocks) (w : Engine) (e : Event) :
    (notices (w.emit cfg socks e).2).Perm (w.failures (w.emit cfg socks e).1) := by
  cases e with
  | register now key consumer notify auth txOk egress =>
    unfold emit
    rw [failures_quiet fun k s s' => state_register, notices_nil]
  | deregister key consumer =>
    unfold emit
    rw [failures_quiet fun k s s' => state_deregister, notices_nil]
  | receive now buf key => rw [emit, w.notices_onReceive buf key]
  | echoReceive now discr =>
    unfold emit
    rw [failures_quiet fun k s s' => state_onEchoReceive, notices_nil]
  | pass macs now => exact w.notices_pass socks macs

end Engine
end Wren.Daemon.Bfd
