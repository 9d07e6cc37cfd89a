import Wren.Daemon.Bfd.Notices

/-! The channels on which the consumers hear of the sessions that go down. -/

namespace Wren.Daemon.Bfd
open Wren.Core Wren.Bfd

/-- What the consumer has taken from a channel, and what the channel still holds for it. -/
structure Channel where
  taken : List IpAddr
  held : List IpAddr

namespace Channel

def empty : Channel where
  taken := []
  held := []

/-- A channel that is full refuses, and the sender does not wait. -/
def trySend (cap : ℕ) (peer : IpAddr) (ch : Channel) : Channel :=
  if ch.held.length < cap then { ch with held := ch.held ++ [peer] } else ch

def recv (ch : Channel) : Channel :=
  match ch.held with
  | [] => ch
  | peer :: held => { taken := ch.taken ++ [peer], held }

/-- What the consumer hears, now or when it comes to it. -/
def heard (ch : Channel) : List IpAddr := ch.taken ++ ch.held

@[simp] theorem heard_recv (ch : Channel) : ch.recv.heard = ch.heard := by
  unfold recv heard
  cases hheld : ch.held with
  | nil => exact congrArg (ch.taken ++ ·) hheld
  | cons peer held => exact List.append_assoc ch.taken [peer] held

theorem heard_trySend (cap : ℕ) (peer : IpAddr) (ch : Channel) :
    (ch.trySend cap peer).heard = if ch.held.length < cap then ch.heard ++ [peer] else ch.heard := by
  unfold trySend heard
  split_ifs
  · exact (List.append_assoc ch.taken ch.held [peer]).symm
  · rfl

end Channel

/-- The peers that notifications on a channel name. -/
def naming (channel : ℕ) (ns : List Notice) : List IpAddr := (ns.filter fun n => n.1 = channel).map Prod.snd

@[simp] theorem naming_nil (channel : ℕ) : naming channel [] = [] := rfl

@[simp] theorem naming_append (channel : ℕ) (ns ns' : List Notice) :
    naming channel (ns ++ ns') = naming channel ns ++ naming channel ns' := by
  unfold naming
  rw [List.filter_append, List.map_append]

theorem naming_cons (channel : ℕ) (n : Notice) (ns : List Notice) :
    naming channel (n :: ns) = (if n.1 = channel then [n.2] else []) ++ naming channel ns := by
  unfold naming
  by_cases h : n.1 = channel
  · rw [if_pos h, List.filter_cons_of_pos (by simpa using h)]
    rfl
  · rw [if_neg h, List.filter_cons_of_neg (by simpa using h), List.nil_append]

theorem perm_naming {ns ns' : List Notice} (h : ns.Perm ns') (channel : ℕ) :
    (naming channel ns).Perm (naming channel ns') :=
  (h.filter _).map _

/-- The engine among its channels. -/
structure Plant where
  engine : Engine
  /-- The notifications of the last event that are not sent yet. -/
  outbox : List Notice
  channels : ℕ → Channel
  /-- One notification for each subscriber of each session that has failed so far. -/
  owed : List Notice

inductive Act where
  /-- The engine takes up an event. It has sent all notifications of the last one by then. -/
  | event (e : Event)
  /-- The engine sends the next notification. -/
  | send
  /-- The consumer of a channel takes what is next on it. -/
  | drain (channel : ℕ)

namespace Plant

def start : Plant where
  engine := Engine.start
  outbox := []
  channels := fun _ => Channel.empty
  owed := []

def handle (cfg : BfdConfig) (socks : EchoSocks) (p : Plant) (e : Event) : Plant :=
  match p.outbox with
  | [] =>
    let emitted := p.engine.emit cfg socks e
    { p with engine := emitted.1, outbox := notices emitted.2, owed := p.owed ++ p.engine.failures emitted.1 }
  | _ :: _ => p

def send (caps : ℕ → ℕ) (p : Plant) : Plant :=
  match p.outbox with
  | [] => p
  | n :: rest =>
    { p with outbox := rest, channels := Function.update p.channels n.1 ((p.channels n.1).trySend (caps n.1) n.2) }

def drain (channel : ℕ) (p : Plant) : Plant :=
  { p with channels := Function.update p.channels channel (p.channels channel).recv }

/-- `caps` is what each channel can hold. -/
def step (cfg : BfdConfig) (socks : EchoSocks) (caps : ℕ → ℕ) (p : Plant) : Act → Plant
  | .event e => p.handle cfg socks e
  | .send => p.send caps
  | .drain channel => p.drain channel

/-- On each channel its consumer hears of the failures so far once each, but for those not sent yet. -/
def Informs (p : Plant) : Prop :=
  ∀ channel, ((p.channels channel).heard ++ naming channel p.outbox).Perm (naming channel p.owed)

/-- A notification that is sent finds its channel with room. -/
def Room (caps : ℕ → ℕ) (p : Plant) (a : Act) : Prop :=
  a = .send → ∀ n ∈ p.outbox.head?, (p.channels n.1).held.length < caps n.1

theorem informs_start : start.Informs := by
  intro channel
  exact List.Perm.refl _

theorem Informs.handle {p : Plant} (h : p.Informs) (cfg : BfdConfig) (socks : EchoSocks) (e : Event) :
    (p.handle cfg socks e).Informs := by
  unfold Plant.handle
  cases hout : p.outbox with
  | cons n rest => exact h
  | nil =>
    intro channel
    have hbefore := h channel
    have hevent := perm_naming (p.engine.notices_emit cfg socks e) channel
    rw [hout, naming_nil, List.append_nil] at hbefore
    dsimp only
    rw [naming_append]
    exact hbefore.append hevent

theorem Informs.drain {p : Plant} (h : p.Informs) (channel : ℕ) : (p.drain channel).Informs := by
  intro c
  have hheard : ((p.drain channel).channels c).heard = (p.channels c).heard := by
    unfold Plant.drain
    dsimp only
    by_cases hc : c = channel
    · rw [hc, Function.update_self, Channel.heard_recv]
    · rw [Function.update_of_ne hc]
  rw [hheard]
  exact h c

/-- A notification that is sent gets lost exactly where its channel is full. -/
theorem Informs.send_iff {p : Plant} (h : p.Informs) (caps : ℕ → ℕ) :
    (p.send caps).Informs ↔ ∀ n ∈ p.outbox.head?, (p.channels n.1).held.length < caps n.1 := by
  unfold send
  cases hout : p.outbox with
  | nil => exact iff_of_true h (by simp)
  | cons n rest =>
    have hbefore : ∀ c, ((p.channels c).heard ++ ((if n.1 = c then [n.2] else []) ++ naming c rest)).Perm (naming c p.owed) := by
      intro c
      have hc := h c
      rwa [hout, naming_cons] at hc
    have hroom : (∀ m ∈ (n :: rest).head?, (p.channels m.1).held.length < caps m.1) ↔
        (p.channels n.1).held.length < caps n.1 := by
      simp
    rw [hroom]
    constructor
    · intro hsent
      by_contra hfull
      have hlen := (hsent n.1).length_eq
      have howed := (hbefore n.1).length_eq
      dsimp only at hlen
      rw [Function.update_self, Channel.heard_trySend, if_neg hfull, List.length_append] at hlen
      rw [if_pos rfl, List.length_append, List.length_append, List.length_singleton] at howed
      omega
    · intro hfree c
      have hc := hbefore c
      dsimp only
      by_cases hch : c = n.1
      · subst hch
        rw [if_pos rfl, ← List.append_assoc] at hc
        rw [Function.update_self, Channel.heard_trySend, if_pos hfree]
        exact hc
      · rw [if_neg fun heq => hch heq.symm, List.nil_append] at hc
        rw [Function.update_of_ne hch]
        exact hc

theorem Informs.step_iff {p : Plant} (h : p.Informs) (cfg : BfdConfig) (socks : EchoSocks) (caps : ℕ → ℕ) (a : Act) :
    (p.step cfg socks caps a).Informs ↔ p.Room caps a := by
  cases a with
  | event e => exact iff_of_true (h.handle cfg socks e) fun ha => by cases ha
  | send =>
    have hroom := h.send_iff caps
    constructor
    · exact fun hsent _ => hroom.mp hsent
    · exact fun hfree => hroom.mpr (hfree rfl)
  | drain channel => exact iff_of_true (h.drain channel) fun ha => by cases ha

/-- Along every run, the consumers hear of exactly the sessions that fail, of each once, if and only if no notification
is sent to a full channel. -/
theorem informs_iff_room (cfg : BfdConfig) (socks : EchoSocks) (caps : ℕ → ℕ) (acts : List Act) :
    Run.Every (step cfg socks caps) (fun p a => (p.step cfg socks caps a).Informs) start acts ↔
      Run.Every (step cfg socks caps) (Room caps) start acts := by
  have hkeep : ∀ (p : Plant) (a : Act), True → True → True := fun _ _ _ _ => trivial
  have hstep : ∀ (p : Plant) (a : Act), True → True → p.Informs → ((p.step cfg socks caps a).Informs ↔ p.Room caps a) :=
    fun p a _ _ h => h.step_iff cfg socks caps a
  exact Run.every_good_iff (fun _ => True) Informs hkeep hstep (Run.every_true _ start acts) trivial informs_start

/-- A neighbour that has heard us. -/
def hearing : List UInt8 :=
  ControlPacket.encode
    { diag := .none, state := .init, poll := false, final := false, cpi := false, demand := false, detectMult := 3,
      myDiscr := 9, yourDiscr := 1, desiredMinTx := 1000000, requiredMinRx := 300000, requiredMinEchoRx := 0,
      authPresent := false }

/-- Two neighbours of one consumer come up and fall silent together. -/
def twoSilent : List Act :=
  [.event (.register 0 (.v4 1, 0) .ospf 0 none true none), .event (.register 0 (.v4 2, 0) .ospf 0 none true none),
    .event (.receive 1000 hearing (.v4 1, 0)), .event (.receive 1000 hearing (.v4 2, 0)),
    .event (.pass (fun _ => none) 60000000000), .send, .send]

/-- A channel for one notification loses the second one. -/
theorem full_channel_loses : ¬ ∀ (cfg : BfdConfig) (socks : EchoSocks) (caps : ℕ → ℕ) (acts : List Act),
    (∀ channel, 0 < caps channel) →
      Run.Every (step cfg socks caps) (fun p a => (p.step cfg socks caps a).Informs) start acts := by
  intro hall
  have hrun := hall plain ⟨false, false⟩ (fun _ => 1) twoSilent fun _ => Nat.one_pos
  have hlast := hrun.invariant Informs informs_start fun p a _ hstep => hstep
  have hlen := (hlast 0).length_eq
  have hlost : ((twoSilent.foldl (step plain ⟨false, false⟩ fun _ => 1) start).channels 0).heard.length = 1 ∧
      (twoSilent.foldl (step plain ⟨false, false⟩ fun _ => 1) start).outbox = [] ∧
      (naming 0 (twoSilent.foldl (step plain ⟨false, false⟩ fun _ => 1) start).owed).length = 2 := by
    decide +kernel
  rw [List.length_append, hlost.1, hlost.2.1, hlost.2.2] at hlen
  exact absurd hlen (by decide)

end Plant
end Wren.Daemon.Bfd
