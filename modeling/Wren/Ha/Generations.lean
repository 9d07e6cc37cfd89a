import Wren.Ha.Witness

/-! The generations that the replies of a witness show, over failed writes and restarts. -/

namespace Wren.Ha
open Engine

theorem authority_noted (e : Engine) (r : Request) (now : ℕ) : (e.noted r now).authority = e.authority := by
  obtain ⟨p, hp⟩ := e.noted_eq r now
  rw [hp]
  rfl

/-- A grant keeps the authority or opens the next term. -/
theorem Engine.Granted.authority {e g : Engine} {r : Request} {now : ℕ} (h : e.Granted r now g) :
    g.authority = e.authority ∨ g.authority.term = e.authority.term + 1 := by
  rcases h.how with hren | hpro
  · rcases hren.authority with ⟨-, hsame⟩ | ⟨-, hnext⟩
    · exact .inl hsame
    · exact .inr (by rw [hnext])
  · exact .inr (by rw [hpro.authority])

/-- A later authority: of a higher term, or the same one. -/
def Authority.Follows (b a : Authority) : Prop := a = b ∨ a.term < b.term

theorem Authority.Follows.trans {a b c : Authority} (hcb : c.Follows b) (hba : b.Follows a) : c.Follows a := by
  rcases hcb with rfl | hcb
  · exact hba
  · rcases hba with rfl | hba
    · exact .inr hcb
    · exact .inr (by omega)

theorem Authority.follows_refl (a : Authority) : a.Follows a := .inl rfl

/-- A reply shows the authority of the engine that it leaves, which follows the one before. -/
theorem request_authority {e e' : Engine} {r : Request} {now : ℕ} {answer : Except String Reply}
    (h : e.request r now = (e', answer)) :
    e'.authority.Follows e.authority ∧ ∀ reply, answer = .ok reply → reply.authority = e'.authority := by
  rcases e.request_cases r now with ⟨-, p, m, hreq⟩ | ⟨-, -, ⟨m, hreq⟩ | hreq | ⟨g, hg, hreq⟩⟩
  · obtain ⟨rfl, rfl⟩ := Prod.mk.inj (hreq.symm.trans h)
    exact ⟨.inl rfl, by simp⟩
  · obtain ⟨rfl, rfl⟩ := Prod.mk.inj (hreq.symm.trans h)
    exact ⟨.inl (authority_noted e r now).symm, by simp⟩
  · obtain ⟨rfl, rfl⟩ := Prod.mk.inj (hreq.symm.trans h)
    refine ⟨.inl (authority_noted e r now).symm, ?_⟩
    intro reply hreply
    cases hreply
    rfl
  · obtain ⟨rfl, rfl⟩ := Prod.mk.inj (hreq.symm.trans h)
    have hnext := (granted_of_grant hg).authority
    rw [authority_noted] at hnext
    constructor
    · rcases hnext with hsame | hnext
      · exact .inl hsame.symm
      · exact .inr (show e.authority.term < g.authority.term by omega)
    · intro reply hreply
      cases hreply
      rfl

namespace Server

/-- A witness with every reply that it ever sent, the oldest first. -/
structure Life where
  server : Server
  sent : List Reply

def Life.step (l : Life) (ev : Event) : Life :=
  let (server, reply) := l.server.step ev
  ⟨server, l.sent ++ reply.toList⟩

/-- One authority per term, and terms that never decrease. -/
def Life.Generations (l : Life) : Prop :=
  (∀ x ∈ l.sent, ∀ y ∈ l.sent, x.authority.term = y.authority.term → x.authority = y.authority) ∧
    (l.sent.map fun x => x.authority.term).Pairwise (· ≤ ·)

instance (l : Life) : Decidable l.Generations :=
  inferInstanceAs (Decidable ((∀ x ∈ l.sent, ∀ y ∈ l.sent, x.authority.term = y.authority.term → x.authority = y.authority) ∧
    (l.sent.map fun x => x.authority.term).Pairwise (· ≤ ·)))

/-- The request meets a witness that holds the durable generation, or it is not answered at all. -/
def Settled (l : Life) : Event → Prop
  | .session r now _ =>
    ∀ e ∈ l.server.engine, e.authority = l.server.durable ∨ e.admits r = false ∨ now = u64Max
  | .restart _ _ => True

instance (l : Life) : (ev : Event) → Decidable (Settled l ev)
  | .session r now _ => inferInstanceAs (Decidable (∀ e ∈ l.server.engine,
      e.authority = l.server.durable ∨ e.admits r = false ∨ now = u64Max))
  | .restart _ _ => inferInstanceAs (Decidable True)

/-- What a session sends is durable when it is sent, if it meets a witness that holds the durable generation. -/
theorem session_durable {s t : Server} {r : Request} {now : ℕ} {write : WriteOutcome} {sent : Option Reply}
    (hsettled : ∀ e ∈ s.engine, e.authority = s.durable ∨ e.admits r = false ∨ now = u64Max)
    (h : s.session r now write = (t, sent)) :
    t.durable.Follows s.durable ∧ ∀ x ∈ sent, x.authority = t.durable := by
  unfold session at h
  cases he : s.engine with
  | none =>
    rw [he] at h
    cases h
    exact ⟨.inl rfl, by simp⟩
  | some e =>
    rw [he] at h
    obtain ⟨⟨e', answer⟩, hreq⟩ : ∃ x, e.request r now = x := ⟨_, rfl⟩
    obtain ⟨hfollows, hreply⟩ := request_authority hreq
    simp only [hreq] at h
    cases answer with
    | error m =>
      cases h
      exact ⟨.inl rfl, by simp⟩
    | ok reply =>
      have hsync : e.authority = s.durable := by
        rcases hsettled e he with hsync | hnone
        · exact hsync
        · rcases e.request_cases r now with ⟨-, p, m, hr⟩ | ⟨hadm, hclock, -⟩
          · rw [hreq] at hr
            simp at hr
          · rcases hnone with hadm' | hclock'
            · simp [hadm] at hadm'
            · exact absurd hclock' hclock
      have hauth := hreply reply rfl
      simp only at h
      split at h
      · rename_i hsame
        cases h
        refine ⟨.inl rfl, ?_⟩
        intro x hx
        cases hx
        rw [hauth, ← (Prod.mk.inj hsame).1, hsync]
        rfl
      · cases write with
        | stored =>
          cases h
          constructor
          · rw [← hsync]
            exact hfollows
          · intro x hx
            cases hx
            exact hauth
        | failed effect =>
          cases h
          refine ⟨?_, by simp⟩
          cases effect with
          | false => exact .inl rfl
          | true =>
            rw [← hsync]
            exact hfollows

/-- The durable generation follows every one that was sent, and those follow each other. -/
structure Life.Inv (l : Life) : Prop where
  durable : ∀ x ∈ l.sent, l.server.durable.Follows x.authority
  ordered : l.sent.Pairwise fun x y => y.authority.Follows x.authority

theorem inv_step {l : Life} {ev : Event} (h : l.Inv) (hev : Settled l ev) : (l.step ev).Inv := by
  cases ev with
  | restart c now =>
    have hsent : (l.step (.restart c now)).sent = l.sent := List.append_nil _
    constructor
    · rw [hsent]
      exact h.durable
    · rw [hsent]
      exact h.ordered
  | session r now write =>
    obtain ⟨⟨t, sent⟩, hs⟩ : ∃ x, l.server.session r now write = x := ⟨_, rfl⟩
    obtain ⟨hfollows, hnew⟩ := session_durable hev hs
    have hstep : l.step (.session r now write) = ⟨t, l.sent ++ sent.toList⟩ := by
      simp only [Life.step, Server.step, hs]
    rw [hstep]
    constructor
    · intro x hx
      rcases List.mem_append.mp hx with hold | hlast
      · exact hfollows.trans (h.durable x hold)
      · have hx' : x.authority = t.durable := hnew x (Option.mem_toList.mp hlast)
        exact .inl hx'
    · refine List.pairwise_append.mpr ⟨h.ordered, ?_, ?_⟩
      · cases sent <;> simp
      · intro x hx y hy
        have hy' : y.authority = t.durable := hnew y (Option.mem_toList.mp hy)
        rw [hy']
        exact hfollows.trans (h.durable x hx)

/-- Replies that show the same authority if they show the same term. -/
def Same (x y : Reply) : Prop := x.authority.term = y.authority.term → x.authority = y.authority

instance : Std.Symm Same where
  symm _ _ h hterm := (h hterm.symm).symm

theorem generations_of_inv {l : Life} (h : l.Inv) : l.Generations := by
  constructor
  · have hpairs : l.sent.Pairwise Same := by
      refine h.ordered.imp ?_
      intro x y hxy hterm
      rcases hxy with heq | hlt
      · exact heq
      · omega
    intro x hx y hy
    exact List.Pairwise.forall_of_forall (fun z _ _ => rfl) hpairs hx hy
  · refine List.pairwise_map.mpr (h.ordered.imp ?_)
    intro x y hxy
    rcases hxy with heq | hlt
    · rw [heq]
    · omega

/-- In a run that never asks a witness whose generation was not made durable, every term has one authority, and the terms
of the replies never decrease. -/
theorem generations_run (s : Server) (es : List Event)
    (h : Run.Every Life.step Settled ⟨s, []⟩ es) :
    ∀ fs, fs <+: es → (fs.foldl Life.step ⟨s, []⟩).Generations := by
  intro fs hfs
  obtain ⟨gs, rfl⟩ := hfs
  have hrun := (Run.every_append.mp h).1
  have hinv : (fs.foldl Life.step ⟨s, []⟩).Inv :=
    hrun.invariant Life.Inv ⟨by simp, .nil⟩ fun l ev hl hev => inv_step hl hev
  exact generations_of_inv hinv

def cluster : String := "ha-test-cluster-01"

/-- A witness that is off, with the fifth generation on its disk. -/
def stopped : Server :=
  ⟨.ofCluster cluster, none, some ⟨cluster, ⟨5, 1, 1, 7⟩, ⟨4, 3⟩, ttlMs, ttlMs_le_maxLeaseMs⟩⟩

/-- A member that holds the state of the fifth generation. -/
def member (node : ℕ) : Request := ⟨cluster, node, node, node + 2, 100, false, 5, 7, true⟩

/-- The quarantine of `stopped` ends after 270 ms. -/
def grantAt : ℕ := 270 * milli

/-- The witness grants, loses a write, and is asked again only after a restart. -/
theorem generations_run_silent_fence :
    Life.Generations ([.restart (.ofCluster cluster) 0, .session (member 1) grantAt (.failed false),
      .restart (.ofCluster cluster) grantAt, .session (member 2) (2 * grantAt) .stored].foldl Life.step ⟨stopped, []⟩) := by
  have hguard : Run.Every Life.step Settled ⟨stopped, []⟩ [.restart (.ofCluster cluster) 0,
      .session (member 1) grantAt (.failed false), .restart (.ofCluster cluster) grantAt,
      .session (member 2) (2 * grantAt) .stored] := by decide +kernel
  exact generations_run stopped _ hguard _ (List.prefix_refl _)

/-- The fenced witness answers with the sixth generation, which the restart then opens once more, for the other member. -/
theorem not_generations_answering_fence :
    ¬ ∀ (s : Server) (es : List Event), (es.foldl Life.step ⟨s, []⟩).Generations := by
  intro h
  have hrun := h stopped [.restart (.ofCluster cluster) 0, .session (member 1) grantAt (.failed false),
    .session (member 1) (grantAt + 1) .stored, .restart (.ofCluster cluster) grantAt,
    .session (member 2) (2 * grantAt) .stored]
  revert hrun
  decide +kernel

end Server
end Wren.Ha
