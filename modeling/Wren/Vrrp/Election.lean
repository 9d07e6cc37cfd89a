import Wren.Core.Prefix

/-! The state machine of a VRRP virtual router, and its masters that hear each other. Intervals are in centiseconds. -/

namespace Wren.Vrrp
open Wren.Core

inductive State where
  | init
  | backup
  | master
deriving DecidableEq

inductive Action where
  | sendAdvert
  | sendAdvertZero
  | assumeVip
  | releaseVip
  | armAdverTimer (cs : UInt16)
  | armMasterDownTimer (cs : UInt16)
  | cancelAdverTimer
  | cancelMasterDownTimer
deriving DecidableEq

structure VrrpConfig where
  vrid : UInt8
  /-- The owner of the addresses has 255. -/
  priority : UInt8
  advertIntCs : UInt16
  preempt : Bool
  localPrimary : IpAddr
  addresses : List IpAddr
deriving DecidableEq

structure Vrrp where
  cfg : VrrpConfig
  state : State
  /-- The interval of the active master. -/
  masterAdverIntCs : UInt16
  masterAddr : Option IpAddr
deriving DecidableEq

/-- The order of addresses of one family. -/
def addrGt : IpAddr → IpAddr → Bool
  | .v4 x, .v4 y => y < x
  | .v6 x, .v6 y => y < x
  | _, _ => false

namespace Vrrp

def new (cfg : VrrpConfig) : Vrrp where
  cfg
  state := .init
  masterAdverIntCs := cfg.advertIntCs
  masterAddr := none

variable (v : Vrrp)

def skewTimeCs : UInt16 := UInt16.ofNat ((256 - v.cfg.priority.toNat) * v.masterAdverIntCs.toNat / 256)

def masterDownIntCs : UInt16 := 3 * v.masterAdverIntCs + v.skewTimeCs

def becomeMaster : Vrrp × List Action :=
  ({ v with state := .master, masterAddr := some v.cfg.localPrimary },
    [.sendAdvert, .assumeVip, .armAdverTimer v.cfg.advertIntCs])

def onStartup : Vrrp × List Action :=
  if v.cfg.priority = 255 then v.becomeMaster
  else ({ v with state := .backup, masterAddr := none }, [.armMasterDownTimer v.masterDownIntCs])

def setPriority (priority : UInt8) : Vrrp × List Action :=
  if priority = v.cfg.priority then (v, [])
  else ({ v with cfg := { v.cfg with priority } }, if v.state = .master then [.sendAdvert] else [])

def setLocalPrimary (primary : IpAddr) : Vrrp :=
  { v with
    cfg := { v.cfg with localPrimary := primary }
    masterAddr := if v.state = .master then some primary else v.masterAddr }

def onShutdown : Vrrp × List Action :=
  ({ v with state := .init, masterAddr := none },
    match v.state with
    | .master => [.cancelAdverTimer, .sendAdvertZero, .releaseVip]
    | .backup => [.cancelMasterDownTimer]
    | .init => [])

def onMasterDownTimer : Vrrp × List Action := if v.state ≠ .backup then (v, []) else v.becomeMaster

def onAdverTimer : Vrrp × List Action :=
  (v, if v.state ≠ .master then [] else [.sendAdvert, .armAdverTimer v.cfg.advertIntCs])

def advertInBackup (priority : UInt8) (adverIntCs : UInt16) (src : IpAddr) : Vrrp × List Action :=
  if priority = 0 then (v, [.armMasterDownTimer v.skewTimeCs])
  else if !v.cfg.preempt ∨ v.cfg.priority ≤ priority then
    let v := { v with masterAdverIntCs := max adverIntCs 1, masterAddr := some src }
    (v, [.armMasterDownTimer v.masterDownIntCs])
  else (v, [])

/-- Whether a master gives way: to a higher priority, or to a higher address at the same one. -/
def yields (priority : UInt8) (src : IpAddr) : Bool :=
  v.cfg.priority < priority ∨ (priority = v.cfg.priority ∧ addrGt src v.cfg.localPrimary)

def advertInMaster (priority : UInt8) (adverIntCs : UInt16) (src : IpAddr) : Vrrp × List Action :=
  if priority = 0 then (v, [.sendAdvert, .armAdverTimer v.cfg.advertIntCs])
  else if v.yields priority src then
    let v := { v with masterAdverIntCs := max adverIntCs 1, state := .backup, masterAddr := some src }
    (v, [.cancelAdverTimer, .releaseVip, .armMasterDownTimer v.masterDownIntCs])
  else (v, [])

def onAdvertisement (priority : UInt8) (adverIntCs : UInt16) (src : IpAddr) : Vrrp × List Action :=
  match v.state with
  | .init => (v, [])
  | .backup => v.advertInBackup priority adverIntCs src
  | .master => v.advertInMaster priority adverIntCs src

/-- What an advertisement does to a router: a master may give way, and nothing else changes its state. -/
theorem onAdvertisement_spec (priority : UInt8) (adverIntCs : UInt16) (src : IpAddr) :
    (v.onAdvertisement priority adverIntCs src).1.cfg = v.cfg ∧
      (v.onAdvertisement priority adverIntCs src).1.state =
        if v.state = .master ∧ priority ≠ 0 ∧ v.yields priority src = true then .backup else v.state := by
  unfold onAdvertisement
  cases hstate : v.state with
  | init => exact ⟨rfl, by simp [hstate]⟩
  | backup =>
    simp only [advertInBackup]
    split_ifs <;> simp_all
  | master =>
    simp only [advertInMaster]
    split_ifs <;> simp_all

end Vrrp
end Wren.Vrrp

/-! The election -/

namespace Wren.Vrrp
open Wren.Core

set_option linter.dupNamespace false

/-- A machine's place in the election. -/
def Vrrp.rank (v : Vrrp) : ℕ ×ₗ ℕ := toLex (v.cfg.priority.toNat, v.cfg.localPrimary.key.2.toNat)

theorem addrGt_iff {a b : IpAddr} (h : a.isIpv4 = b.isIpv4) : addrGt a b = true ↔ b.key.2.toNat < a.key.2.toNat := by
  cases a with
  | v4 x =>
    cases b with
    | v4 y =>
      have hx := x.isLt
      have hy := y.isLt
      simp only [addrGt, IpAddr.key, BitVec.toNat_setWidth, decide_eq_true_eq, BitVec.lt_def]
      omega
    | v6 y => simp [IpAddr.isIpv4] at h
  | v6 x =>
    cases b with
    | v4 y => simp [IpAddr.isIpv4] at h
    | v6 y => simp [addrGt, IpAddr.key, BitVec.lt_def]

/-- Whether a master gives way when it hears what `w` advertises. -/
def Vrrp.yieldsTo (v w : Vrrp) : Bool := v.yields w.cfg.priority w.cfg.localPrimary

/-- A master gives way to those above it in the election and to no others. -/
theorem Vrrp.yieldsTo_iff {v w : Vrrp} (h : w.cfg.localPrimary.isIpv4 = v.cfg.localPrimary.isIpv4) :
    v.yieldsTo w = true ↔ v.rank < w.rank := by
  unfold Vrrp.yieldsTo Vrrp.yields Vrrp.rank
  rw [Prod.Lex.toLex_lt_toLex]
  simp only [decide_eq_true_eq, addrGt_iff h, UInt8.lt_iff_toNat_lt, ← UInt8.toNat_inj]
  constructor <;> intro hcase <;> omega

/-- Of two masters with different addresses one is above the other. -/
theorem rank_injective {ι : Type} {routers : ι → Vrrp}
    (hfamily : ∀ i j, (routers i).cfg.localPrimary.isIpv4 = (routers j).cfg.localPrimary.isIpv4)
    (hdistinct : Function.Injective fun i => (routers i).cfg.localPrimary) :
    Function.Injective fun i => (routers i).rank := by
  intro i j hij
  have haddr : (routers i).cfg.localPrimary.key.2.toNat = (routers j).cfg.localPrimary.key.2.toNat :=
    congrArg (fun r => (ofLex r).2) hij
  have hkey : (routers i).cfg.localPrimary.key = (routers j).cfg.localPrimary.key := by
    have hfam := hfamily i j
    ext1
    · cases hi : (routers i).cfg.localPrimary with
      | v4 x => cases hj : (routers j).cfg.localPrimary with
        | v4 y => rfl
        | v6 y => simp [hi, hj, IpAddr.isIpv4] at hfam
      | v6 x => cases hj : (routers j).cfg.localPrimary with
        | v4 y => simp [hi, hj, IpAddr.isIpv4] at hfam
        | v6 y => rfl
    · exact BitVec.eq_of_toNat_eq haddr
  exact hdistinct (IpAddr.key_injective hkey)

structure Advert (ι : Type) where
  sender : ι
  priority : UInt8
  adverIntCs : UInt16
  src : IpAddr

/-- Routers on one link, all advertisements that were ever sent, and who has heard whom. -/
structure Link (ι : Type) where
  routers : ι → Vrrp
  sent : List (Advert ι)
  heard : List (ι × ι)

inductive LinkEvent (ι : Type) where
  /-- The advertisement timer of a router fires. -/
  | adverTimer (i : ι)
  /-- A router receives an advertisement that was sent before. -/
  | deliver (i : ι) (n : ℕ)

namespace Link
variable {ι : Type}

def new (routers : ι → Vrrp) : Link ι := ⟨routers, [], []⟩

/-- What holds while masters settle who stays, `m` being the one above all others of `routers`. -/
structure Electing (routers : ι → Vrrp) (m : ι) (link : Link ι) : Prop where
  cfg : ∀ i, (link.routers i).cfg = (routers i).cfg
  up : ∀ i, (link.routers i).state = .master ∨ (link.routers i).state = .backup
  sent : ∀ a ∈ link.sent,
    a.priority = (routers a.sender).cfg.priority ∧ a.src = (routers a.sender).cfg.localPrimary
  elected : (link.routers m).state = .master
  heard : ∀ i, (m, i) ∈ link.heard → (link.routers i).state = .backup

variable {routers : ι → Vrrp} {m : ι} {link : Link ι}

variable (hfamily : ∀ i j, (routers i).cfg.localPrimary.isIpv4 = (routers j).cfg.localPrimary.isIpv4)
  (hpriority : ∀ i, 0 < (routers i).cfg.priority)

include hfamily hpriority in
/-- Hearing a router is to give way to it if it is above, and nothing else. -/
theorem Electing.state_onAdvertisement (h : Electing routers m link) (i : ι) {a : Advert ι} (ha : a ∈ link.sent) :
    ((link.routers i).onAdvertisement a.priority a.adverIntCs a.src).1.cfg = (link.routers i).cfg ∧
      ((link.routers i).onAdvertisement a.priority a.adverIntCs a.src).1.state =
        if (link.routers i).state = .master ∧ (routers i).rank < (routers a.sender).rank then .backup
        else (link.routers i).state := by
  obtain ⟨hcfg, hstate⟩ := (link.routers i).onAdvertisement_spec a.priority a.adverIntCs a.src
  obtain ⟨hprio, hsrc⟩ := h.sent a ha
  have hne : a.priority ≠ 0 := by
    have hpos := hpriority a.sender
    rw [hprio]
    intro hzero
    simp [hzero] at hpos
  have hyields : (link.routers i).yields a.priority a.src = true ↔ (routers i).rank < (routers a.sender).rank := by
    rw [hprio, hsrc, ← Vrrp.yieldsTo_iff (hfamily a.sender i)]
    simp only [Vrrp.yieldsTo, Vrrp.yields, h.cfg i]
  constructor
  · exact hcfg
  · rw [hstate]
    simp only [hne, hyields, ne_eq, not_false_eq_true, true_and]

variable [DecidableEq ι]

/-- Take over what a router became, and send the advertisement it asks for. -/
def perform (link : Link ι) (i : ι) (out : Vrrp × List Action) : Link ι :=
  { link with
    routers := Function.update link.routers i out.1
    sent := link.sent ++
      if .sendAdvert ∈ out.2 then [⟨i, out.1.cfg.priority, out.1.cfg.advertIntCs, out.1.cfg.localPrimary⟩] else [] }

def step (link : Link ι) : LinkEvent ι → Link ι
  | .adverTimer i => link.perform i (link.routers i).onAdverTimer
  | .deliver i n =>
    match link.sent[n]? with
    | none => link
    | some a =>
      if a.sender = i then link
      else
        { link.perform i ((link.routers i).onAdvertisement a.priority a.adverIntCs a.src) with
          heard := (a.sender, i) :: link.heard }

def run (link : Link ι) (es : List (LinkEvent ι)) : Link ι := es.foldl step link

/-- Whatever a router does, the election goes on if it only ever gives way to a higher one. -/
theorem Electing.perform (h : Electing routers m link) (i : ι) {out : Vrrp × List Action}
    (hcfg : out.1.cfg = (link.routers i).cfg)
    (hstate : out.1.state = (link.routers i).state ∨ i ≠ m ∧ out.1.state = .backup) :
    Electing routers m (link.perform i out) := by
  have hrouter : ∀ j, ((link.perform i out).routers j).state = (link.routers j).state ∨
      j ≠ m ∧ ((link.perform i out).routers j).state = .backup := by
    intro j
    by_cases hj : j = i
    · subst hj
      simpa [Link.perform] using hstate
    · exact .inl (by simp [Link.perform, hj])
  constructor
  · intro j
    by_cases hj : j = i
    · subst hj
      simp [Link.perform, hcfg, h.cfg]
    · simp [Link.perform, hj, h.cfg]
  · intro j
    obtain hsame | ⟨-, hbackup⟩ := hrouter j
    · rw [hsame]
      exact h.up j
    · exact .inr hbackup
  · intro a ha
    obtain hold | hnew := List.mem_append.mp ha
    · exact h.sent a hold
    · split_ifs at hnew
      · rw [List.mem_singleton.mp hnew]
        simp [hcfg, h.cfg]
      · simp at hnew
  · obtain hsame | ⟨hm, -⟩ := hrouter m
    · rw [hsame]
      exact h.elected
    · exact absurd rfl hm
  · intro j hj
    obtain hsame | ⟨-, hbackup⟩ := hrouter j
    · rw [hsame]
      exact h.heard j hj
    · exact hbackup

variable (hrank : Function.Injective fun i => (routers i).rank) (hmax : ∀ i, (routers i).rank ≤ (routers m).rank)

include hfamily hpriority hrank hmax in
theorem Electing.step (h : Electing routers m link) (e : LinkEvent ι) : Electing routers m (link.step e) := by
  cases e with
  | adverTimer i => exact h.perform i rfl (.inl rfl)
  | deliver i n =>
    cases hn : link.sent[n]? with
    | none => simpa only [Link.step, hn] using h
    | some a =>
      simp only [Link.step, hn]
      split_ifs with hself
      · exact h
      · obtain ⟨hcfg, hstate⟩ := h.state_onAdvertisement hfamily hpriority i (List.mem_of_getElem? hn)
        have hnext : Electing routers m
            (link.perform i ((link.routers i).onAdvertisement a.priority a.adverIntCs a.src)) := by
          refine h.perform i hcfg ?_
          split_ifs at hstate with hyields
          · right
            constructor
            · intro him
              subst him
              exact absurd (hmax a.sender) (not_le.mpr hyields.2)
            · exact hstate
          · exact .inl hstate
        constructor
        · exact hnext.cfg
        · exact hnext.up
        · exact hnext.sent
        · exact hnext.elected
        · intro j hj
          obtain hnew | hold := List.mem_cons.mp hj
          · -- The elected router was just heard: whoever is still master is below it.
            obtain ⟨hm, rfl⟩ := Prod.mk.inj hnew
            have hbelow : (routers j).rank < (routers a.sender).rank := by
              rw [← hm]
              refine lt_of_le_of_ne (hmax j) ?_
              intro heq
              exact hself (hm ▸ (hrank heq).symm)
            have hbackup : ((link.routers j).onAdvertisement a.priority a.adverIntCs a.src).1.state = .backup := by
              rw [hstate]
              obtain hup | hup := h.up j
              · rw [if_pos ⟨hup, hbelow⟩]
              · rw [if_neg (by simp [hup]), hup]
            simpa [Link.perform] using hbackup
          · exact hnext.heard j hold

include hfamily hpriority hrank hmax in
theorem Electing.run (h : Electing routers m link) (es : List (LinkEvent ι)) : Electing routers m (link.run es) :=
  List.foldlRecOn es Link.step (motive := Electing routers m) h fun _ hlink e _ =>
    hlink.step hfamily hpriority hrank hmax e

/-- Masters that hear each other elect the one with the highest priority and address: it stays
master all along, and those it was heard by are not masters any more. -/
theorem elects_one_master [Finite ι] [Nonempty ι] (routers : ι → Vrrp)
    (hmaster : ∀ i, (routers i).state = .master) (hpriority : ∀ i, 0 < (routers i).cfg.priority)
    (hfamily : ∀ i j, (routers i).cfg.localPrimary.isIpv4 = (routers j).cfg.localPrimary.isIpv4)
    (hdistinct : Function.Injective fun i => (routers i).cfg.localPrimary) :
    ∃ m, (∀ i, i ≠ m → (routers i).rank < (routers m).rank) ∧
      ∀ es : List (LinkEvent ι),
        (((new routers).run es).routers m).state = .master ∧
        ((∀ i, i ≠ m → (m, i) ∈ ((new routers).run es).heard) →
          ∀ i, (((new routers).run es).routers i).state = .master ↔ i = m) ∧
        ∀ i j, ¬ ((((new routers).run es).routers i).yieldsTo (((new routers).run es).routers j) = true ∧
          (((new routers).run es).routers j).yieldsTo (((new routers).run es).routers i) = true) := by
  have hrank := rank_injective hfamily hdistinct
  obtain ⟨m, hmax⟩ := Finite.exists_max fun i => (routers i).rank
  refine ⟨m, ?_, ?_⟩
  · intro i hi
    exact lt_of_le_of_ne (hmax i) fun heq => hi (hrank heq)
  · intro es
    have hstart : Electing routers m (new routers) := by
      constructor <;> simp [new, hmaster]
    have hend := hstart.run hfamily hpriority hrank hmax es
    constructor
    · exact hend.elected
    constructor
    · intro hheard i
      constructor
      · intro hup
        by_contra hi
        have hbackup := hend.heard i (hheard i hi)
        simp [hup] at hbackup
      · intro hi
        rw [hi]
        exact hend.elected
    · intro i j hboth
      have hsame : ∀ i j, (((new routers).run es).routers i).cfg.localPrimary.isIpv4 =
          (((new routers).run es).routers j).cfg.localPrimary.isIpv4 := by
        intro i j
        rw [hend.cfg i, hend.cfg j]
        exact hfamily i j
      have hij := (Vrrp.yieldsTo_iff (hsame j i)).mp hboth.1
      have hji := (Vrrp.yieldsTo_iff (hsame i j)).mp hboth.2
      exact absurd hij hji.asymm

/-- Two routers at priority 100 that took the addresses before they heard each other. -/
def pairOfMasters (high : Bool) : Vrrp where
  cfg :=
    { vrid := 1
      priority := 100
      advertIntCs := 100
      preempt := true
      localPrimary := .v4 (if high then 0xC0000214 else 0xC000020A)
      addresses := [.v4 0xC00002FE] }
  state := .master
  masterAdverIntCs := 100
  masterAddr := none

theorem elects_one_master_pair :
    (∀ i, (pairOfMasters i).state = .master) ∧
      ∃ m, (∀ i, i ≠ m → (pairOfMasters i).rank < (pairOfMasters m).rank) ∧
        ∀ es : List (LinkEvent Bool), (((new pairOfMasters).run es).routers m).state = .master := by
  have hmaster : ∀ i, (pairOfMasters i).state = .master := fun i => rfl
  obtain ⟨m, hm, hrun⟩ := elects_one_master pairOfMasters hmaster (by decide) (by decide) (by decide)
  exact ⟨hmaster, m, hm, fun es => (hrun es).1⟩

end Link
end Wren.Vrrp
