import Wren.Bfd.Session
import Wren.Lib.Run

/-! The three-way handshake of two sessions over a wire that may lose, repeat and reorder packets. -/

namespace Wren.Bfd.Handshake
open Session (Rising)

/-- A packet on the wire, and whether its sender had received a packet when it was built. -/
structure Frame where
  octets : List UInt8
  heard : Bool

/-- The two sides of a session, each with every packet it has sent so far. -/
structure Pair where
  sess : Bool → Session
  heard : Bool → Bool
  sent : Bool → List Frame

/-- `deliver i n` is the arrival, at the side `i`, of the `n`-th packet that the other side ever sent. -/
inductive Event where
  | transmit (i : Bool)
  | deliver (i : Bool) (n : ℕ)
  | detectTimeout (i : Bool)
  | echoTimeout (i : Bool)

def start (discr : Bool → UInt32) (cfg : Bool → SessionConfig) : Pair where
  sess i := Session.new (discr i) (cfg i)
  heard _ := false
  sent _ := []

namespace Pair

def setSess (w : Pair) (i : Bool) (s : Session) : Pair := { w with sess := Function.update w.sess i s }

/-- The packet that arrives, if a receiver takes it at all. -/
def arrival (w : Pair) (i : Bool) (n : ℕ) : Option (Frame × ControlPacket) := do
  let frame ← (w.sent !i)[n]?
  let pkt ← ControlPacket.decode frame.octets
  return (frame, pkt)

def transmit (w : Pair) (i : Bool) : Pair :=
  let built := (w.sess i).buildControl
  { w.setSess i built.1 with
    sent := Function.update w.sent i (w.sent i ++ [⟨built.2.encode, w.heard i⟩]) }

def deliver (w : Pair) (i : Bool) (n : ℕ) : Pair :=
  match w.arrival i n with
  | none => w
  | some (_, pkt) => { w.setSess i ((w.sess i).onPacket pkt).1 with heard := Function.update w.heard i true }

end Pair

def step (w : Pair) : Event → Pair
  | .transmit i => w.transmit i
  | .deliver i n => w.deliver i n
  | .detectTimeout i => w.setSess i (w.sess i).onDetectTimeout.1
  | .echoTimeout i => w.setSess i (w.sess i).onEchoTimeout.1

/-- What a side knows once it comes up, and what its packets say of it. -/
structure Inv (discr : Bool → UInt32) (w : Pair) : Prop where
  own : ∀ i, (w.sess i).localDiscr = discr i
  mult : ∀ i, (w.sess i).cfg.detectMult ≠ 0
  rising : ∀ i, Rising (w.sess i).state → w.heard i = true ∧ (w.sess i).remoteDiscr = discr !i
  sent : ∀ i, ∀ f ∈ w.sent i, ∃ p : ControlPacket, f.octets = p.encode ∧ p.Valid ∧ p.myDiscr = discr i ∧
    (Rising p.state → f.heard = true)

section Steps
variable {discr : Bool → UInt32} {w : Pair}

theorem inv_start (cfg : Bool → SessionConfig) (hmult : ∀ i, (cfg i).detectMult ≠ 0) : Inv discr (start discr cfg) where
  own _ := rfl
  mult := hmult
  rising _ h := absurd h Session.not_rising_down
  sent i f h := by
    cases h

/-- A frame a receiver takes is a packet as its sender built it. -/
theorem Inv.arrival (h : Inv discr w) {i : Bool} {n : ℕ} {f : Frame} {pkt : ControlPacket}
    (ha : w.arrival i n = some (f, pkt)) : pkt.myDiscr = discr !i ∧ (Rising pkt.state → f.heard = true) := by
  simp only [Pair.arrival, Option.bind_eq_bind, Option.bind_eq_some_iff, Option.pure_def, Option.some.injEq,
    Prod.mk.injEq] at ha
  obtain ⟨f, hf, pkt, hdec, rfl, rfl⟩ := ha
  obtain ⟨p, hoctets, hvalid, hmy, hheard⟩ := h.sent (!i) f (List.mem_of_getElem? hf)
  rw [hoctets, ControlPacket.decode_encode hvalid] at hdec
  cases hdec
  exact ⟨hmy, hheard⟩

/-- Changing the session of one side is all a step does there, if the packets stay. -/
theorem Inv.setSess (h : Inv discr w) {i : Bool} {s : Session} {heard : Bool → Bool}
    (hdiscr : s.localDiscr = discr i) (hmult : s.cfg.detectMult ≠ 0)
    (hrising : Rising s.state → heard i = true ∧ s.remoteDiscr = discr !i)
    (hheard : ∀ j, j ≠ i → heard j = w.heard j) : Inv discr { w.setSess i s with heard } where
  own j := by
    by_cases hj : j = i
    · subst hj
      simpa [Pair.setSess] using hdiscr
    · simpa [Pair.setSess, hj] using h.own j
  mult j := by
    by_cases hj : j = i
    · subst hj
      simpa [Pair.setSess] using hmult
    · simpa [Pair.setSess, hj] using h.mult j
  rising j := by
    by_cases hj : j = i
    · subst hj
      simpa [Pair.setSess] using hrising
    · simpa [Pair.setSess, hj, hheard j hj] using h.rising j
  sent := h.sent

theorem Inv.sound (h : Inv discr w) (hpos : ∀ i, discr i ≠ 0) (i : Bool) : (w.sess i).Sound where
  localDiscr := by
    rw [h.own i]
    exact hpos i
  detectMult := h.mult i
  remoteDiscr hs := by
    rw [(h.rising i hs).2]
    exact hpos _

theorem Inv.transmit (h : Inv discr w) (hpos : ∀ i, discr i ≠ 0) (i : Bool) : Inv discr (w.transmit i) := by
  have hsess : Inv discr { w.setSess i (w.sess i).buildControl.1 with heard := w.heard } :=
    h.setSess (h.own i) (h.mult i) (h.rising i) fun _ _ => rfl
  refine { hsess with sent := ?_ }
  intro j f hf
  by_cases hj : j = i
  · subst hj
    simp only [Pair.transmit, Function.update_self, List.mem_append, List.mem_singleton] at hf
    rcases hf with hold | rfl
    · exact h.sent j f hold
    · exact ⟨_, rfl, (h.sound hpos j).valid, h.own j, fun hs => (h.rising j hs).1⟩
  · simp only [Pair.transmit, Function.update_of_ne hj] at hf
    exact h.sent j f hf

/-- Only a packet of a side that is coming up brings the other one up. -/
theorem rising_of_next_up {s received : State} (h : Session.next s received = some .up) : Rising received := by
  cases received <;> cases s <;> first | exact .inl rfl | exact .inr rfl | cases h

theorem Inv.deliver (h : Inv discr w) (i : Bool) (n : ℕ) : Inv discr (w.deliver i n) := by
  unfold Pair.deliver
  cases ha : w.arrival i n with
  | none => exact h
  | some a =>
    obtain ⟨f, pkt⟩ := a
    obtain ⟨hmy, -⟩ := h.arrival ha
    refine h.setSess ?_ ?_ ?_ ?_
    · rw [Session.localDiscr_onPacket, h.own i]
    · rw [Session.cfg_onPacket]
      exact h.mult i
    · intro hs
      refine ⟨Function.update_self i true w.heard, ?_⟩
      rcases (w.sess i).onPacket_spec pkt with ⟨-, heq⟩ | ⟨dst, -, -, hstate, -, -, hremote⟩
      · rw [heq]
        exact hmy
      · have hup : dst ≠ .down := by
          intro hdown
          rw [hstate, hdown] at hs
          revert hs
          decide
        rw [hremote, if_neg hup, hmy]
    · intro j hj
      exact Function.update_of_ne hj true w.heard

theorem Inv.timeOut (h : Inv discr w) (i : Bool) (diag : Diag) :
    Inv discr (w.setSess i (Session.timeOut diag (w.sess i)).1) := by
  rcases Session.timeOut_spec diag (w.sess i) with ⟨heq, -⟩ | ⟨-, hstate, hlocal, hcfg⟩
  · rw [heq]
    exact h.setSess (h.own i) (h.mult i) (h.rising i) fun _ _ => rfl
  · refine @Inv.setSess discr w h i _ w.heard (hlocal.trans (h.own i)) ?_ ?_ fun _ _ => rfl
    · rw [hcfg]
      exact h.mult i
    · intro hs
      rw [hstate] at hs
      exact absurd hs Session.not_rising_down

theorem Inv.step (h : Inv discr w) (hpos : ∀ i, discr i ≠ 0) (e : Event) : Inv discr (step w e) := by
  cases e with
  | transmit i => exact h.transmit hpos i
  | deliver i n => exact h.deliver i n
  | detectTimeout i => exact h.timeOut i _
  | echoTimeout i => exact h.timeOut i _

end Steps

theorem inv_run {discr : Bool → UInt32} (hpos : ∀ i, discr i ≠ 0) {w : Pair} (h : Inv discr w) (es : List Event) :
    Inv discr (es.foldl step w) :=
  (Run.every_true step w es).invariant (Inv discr) h fun _ e hi _ => hi.step hpos e

/-- Over any wire, a session comes up only by a packet built after its sender had heard from it, every packet is one
a receiver takes, and a session that comes up knows the discriminator of the other side. -/
theorem handshake_safe (discr : Bool → UInt32) (cfg : Bool → SessionConfig) (hpos : ∀ i, discr i ≠ 0)
    (hmult : ∀ i, (cfg i).detectMult ≠ 0) (es : List Event) :
    (∀ i n f pkt, (es.foldl step (start discr cfg)).arrival i n = some (f, pkt) →
      ∀ t ∈ (((es.foldl step (start discr cfg)).sess i).onPacket pkt).2, t.dst = .up → f.heard = true) ∧
    (∀ i, ∀ f ∈ (es.foldl step (start discr cfg)).sent i,
      ∃ pkt, ControlPacket.decode f.octets = some pkt ∧ (Rising pkt.state → pkt.yourDiscr ≠ 0)) ∧
    (∀ i, Rising ((es.foldl step (start discr cfg)).sess i).state →
      ((es.foldl step (start discr cfg)).sess i).remoteDiscr = discr !i) := by
  have h := inv_run hpos (inv_start cfg hmult : Inv discr (start discr cfg)) es
  generalize es.foldl step (start discr cfg) = w at h
  refine ⟨?_, ?_, fun i hs => (h.rising i hs).2⟩
  · intro i n f pkt ha t ht hup
    obtain ⟨-, hheard⟩ := h.arrival ha
    rcases (w.sess i).onPacket_spec pkt with ⟨-, heq⟩ | ⟨dst, hnext, htrans, -⟩
    · rw [heq] at ht
      cases ht
    · rw [htrans] at ht
      cases ht
      have hdst : dst = .up := hup
      rw [hdst] at hnext
      exact hheard (rising_of_next_up hnext)
  · intro i f hf
    obtain ⟨p, hoctets, hvalid, -, -⟩ := h.sent i f hf
    rw [hoctets]
    exact ⟨_, ControlPacket.decode_encode hvalid, hvalid.yourDiscr⟩

/-- Two rounds of packets, of which one is lost and one comes twice. -/
def rounds : List Event :=
  [.transmit true, .transmit true, .deliver false 1, .transmit false, .deliver true 0, .deliver true 0, .transmit true,
    .deliver false 2]

theorem handshake_safe_rounds :
    (∀ i, ((rounds.foldl step (start (fun i => if i then 1 else 2) fun _ => bfdSessionConfig none none none)).sess i).state
      = .up) ∧
    ∀ i, Rising
      ((rounds.foldl step (start (fun i => if i then 1 else 2) fun _ => bfdSessionConfig none none none)).sess i).state →
      ((rounds.foldl step (start (fun i => if i then 1 else 2) fun _ => bfdSessionConfig none none none)).sess i).remoteDiscr
        = if !i then 1 else 2 :=
  ⟨by decide +kernel,
    (handshake_safe (fun i => if i then 1 else 2) (fun _ => bfdSessionConfig none none none) (by decide)
      (fun _ => bfdSessionConfig_detectMult none none none) rounds).2.2⟩

end Wren.Bfd.Handshake
