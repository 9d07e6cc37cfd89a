import Wren.Daemon.Vrrp.Instance

/-! The addresses and the timers of a virtual router belong to the state of its machine. -/

namespace Wren.Daemon.Vrrp
open Wren.Core Wren.Vrrp

/-- Only a master holds addresses, and it holds all of them. It has the advertisement timer and
nothing else, and a backup the master-down timer. -/
structure Instance.Owned (inst : Instance) : Prop where
  held : inst.held = if inst.fsm.state = .master then inst.addresses.toFinset else ∅
  adver : inst.adverDeadline.isSome = true ↔ inst.fsm.state = .master
  masterDown : inst.masterDownDeadline.isSome = true ↔ inst.fsm.state = .backup

namespace Instance
variable {host : Host} {inst : Instance}

theorem addVirtualAddresses_spec (host : Host) (l : List IpAddr) (held : Finset IpAddr) :
    (addVirtualAddresses host l held).2 ⊆ held ∪ l.toFinset ∧
      ((addVirtualAddresses host l held).1 = true → (addVirtualAddresses host l held).2 = held ∪ l.toFinset) ∧
      ((addVirtualAddresses host l held).1 = true ↔ ∀ vip ∈ l, host.adds vip = true) := by
  induction l generalizing held with
  | nil => simp [addVirtualAddresses]
  | cons vip rest ih =>
    simp only [addVirtualAddresses]
    split_ifs with hadds
    · obtain ⟨hsub, hall, hok⟩ := ih (insert vip held)
      have hunion : insert vip held ∪ rest.toFinset = held ∪ (vip :: rest).toFinset := by
        ext a
        simp only [Finset.mem_union, Finset.mem_insert, List.mem_toFinset, List.mem_cons]
        tauto
      rw [hunion] at hsub hall
      exact ⟨hsub, hall, by simp [hok, hadds]⟩
    · exact ⟨Finset.subset_union_left, by simp, by simp [hadds]⟩

theorem Owned.held_subset (h : inst.Owned) : inst.held ⊆ inst.addresses.toFinset := by
  rw [h.held]
  split_ifs
  · exact Finset.Subset.refl _
  · exact Finset.empty_subset _

theorem Owned.held_eq_empty (h : inst.Owned) (hstate : inst.fsm.state ≠ .master) : inst.held = ∅ := by
  rw [h.held, if_neg hstate]

/-- After a failure nothing is left, whatever the instance was about to do. -/
theorem owned_withdraw (h : inst.held ⊆ inst.addresses.toFinset) :
    inst.withdraw.Owned ∧ inst.withdraw.fsm.state = .init := by
  have hstate : inst.withdraw.fsm.state = .init := rfl
  have hheld : inst.withdraw.held = ∅ := Finset.sdiff_eq_empty_iff_subset.mpr h
  constructor
  · constructor
    · rw [hheld, hstate]
      simp
    · rw [hstate]
      simp [withdraw, releaseVip]
    · rw [hstate]
      simp [withdraw, releaseVip]
  · exact hstate

/-- An installation either has all addresses up, or gives up. -/
theorem applyActions_assumeVip (host : Host) (h : inst.held ⊆ inst.addresses.toFinset) (rest : List Action) :
    (∀ vip ∈ inst.addresses, host.adds vip = true) ∧
        applyActions host (.assumeVip :: rest) inst = applyActions host rest
          { inst with held := inst.addresses.toFinset, announcements := .arm host.now } ∨
      (∃ vip ∈ inst.addresses, host.adds vip = false) ∧
        (applyActions host (.assumeVip :: rest) inst).Owned ∧
        (applyActions host (.assumeVip :: rest) inst).fsm.state = .init := by
  obtain ⟨hsub, hall, hok⟩ := addVirtualAddresses_spec host inst.addresses inst.held
  rw [Finset.union_eq_right.mpr h] at hsub hall
  simp only [applyActions, assumeVip]
  cases hres : addVirtualAddresses host inst.addresses inst.held with
  | mk ok held =>
    rw [hres] at hsub hall hok
    cases ok with
    | true =>
      left
      simp only at hall
      rw [hall trivial]
      exact ⟨hok.mp rfl, rfl⟩
    | false =>
      right
      constructor
      · by_contra hnone
        have hadds : ∀ vip ∈ inst.addresses, host.adds vip = true := by simpa using hnone
        exact absurd (hok.mpr hadds) (by simp)
      · have hheld : { inst with held }.held ⊆ { inst with held }.addresses.toFinset := hsub
        exact owned_withdraw hheld

/-- A machine that becomes master gets the addresses and its timer, or is back at the start. -/
theorem owned_becomeMaster (h : inst.held ⊆ inst.addresses.toFinset) (v : Vrrp) :
    (inst.perform host v.becomeMaster).Owned := by
  simp only [perform, Vrrp.becomeMaster]
  rw [applyActions]
  generalize hnext : sendAdvert _ _ = next
  have hheld : next.held ⊆ next.addresses.toFinset := by
    rw [← hnext]
    exact h
  have hmaster : next.fsm.state = .master := by
    rw [← hnext]
    rfl
  obtain ⟨-, hup⟩ | ⟨-, howned, -⟩ := applyActions_assumeVip host hheld [.armAdverTimer v.cfg.advertIntCs]
  · rw [hup]
    constructor <;> simp [applyActions, hmaster]
  · exact howned

theorem owned_onStartup (h : inst.Owned) (hinit : inst.fsm.state = .init) (v : Vrrp) :
    (inst.perform host v.onStartup).Owned := by
  unfold Vrrp.onStartup
  split_ifs
  · exact owned_becomeMaster h.held_subset v
  · have hheld := h.held_eq_empty (by simp [hinit])
    constructor <;> simp [perform, applyActions, hheld]

/-- The machine stops, and nothing of the instance is left behind. -/
theorem owned_onShutdown (host : Host) (h : inst.Owned) :
    (inst.perform host inst.fsm.onShutdown).Owned ∧ (inst.perform host inst.fsm.onShutdown).fsm.state = .init := by
  have hempty : inst.held \ inst.addresses.toFinset = ∅ := Finset.sdiff_eq_empty_iff_subset.mpr h.held_subset
  have hadver := h.adver
  have hdown := h.masterDown
  have hheld := h.held
  unfold perform Vrrp.onShutdown
  cases hstate : inst.fsm.state with
  | init =>
    simp only [hstate] at hadver hdown hheld
    exact ⟨⟨by simpa [applyActions] using hheld, by simpa [applyActions] using hadver,
      by simpa [applyActions] using hdown⟩, rfl⟩
  | backup =>
    simp only [hstate] at hadver hdown hheld
    exact ⟨⟨by simpa [applyActions] using hheld, by simpa [applyActions] using hadver, by simp [applyActions]⟩, rfl⟩
  | master =>
    simp only [hstate] at hadver hdown hheld
    exact ⟨⟨by simp [applyActions, releaseVip, sendAdvert, hempty], by simp [applyActions, releaseVip, sendAdvert],
      by simpa [applyActions, releaseVip, sendAdvert] using hdown⟩, rfl⟩

theorem owned_setPriority (h : inst.Owned) (priority : UInt8) :
    (inst.perform host (inst.fsm.setPriority priority)).Owned := by
  have hheld := h.held
  have hadver := h.adver
  have hdown := h.masterDown
  unfold perform Vrrp.setPriority
  split_ifs with hsame hmaster
  · exact h
  · constructor <;> simpa [applyActions, sendAdvert] using by assumption
  · constructor <;> simpa [applyActions] using by assumption

theorem owned_onAdverTimer (h : inst.Owned) : (inst.onAdverTimer host).Owned := by
  unfold onAdverTimer
  split_ifs with hdue
  · have hmaster : inst.fsm.state = .master := by
      obtain ⟨d, hd, -⟩ := Option.any_eq_true _ _ |>.mp hdue
      exact h.adver.mp (by simp [hd])
    have hheld := h.held
    rw [if_pos hmaster] at hheld
    constructor <;> simp [perform, Vrrp.onAdverTimer, hmaster, applyActions, sendAdvert, hheld]
  · exact h

theorem owned_onMasterDownTimer (h : inst.Owned) : (inst.onMasterDownTimer host).Owned := by
  unfold onMasterDownTimer
  split_ifs with hdue
  · have hbackup : inst.fsm.state = .backup := by
      obtain ⟨d, hd, -⟩ := Option.any_eq_true _ _ |>.mp hdue
      exact h.masterDown.mp (by simp [hd])
    simp only [Vrrp.onMasterDownTimer, hbackup, ne_eq, not_true_eq_false, if_false]
    have hheld : { inst with masterDownDeadline := none }.held ⊆
        { inst with masterDownDeadline := none }.addresses.toFinset := h.held_subset
    exact owned_becomeMaster hheld inst.fsm
  · exact h

/-- A backup only ever arms its timer again, and a master that gives way hands everything back. -/
theorem owned_onAdvertisement (h : inst.Owned) (ifindex : UInt32) (priority : UInt8) (adverIntCs : UInt16)
    (src : IpAddr) : (inst.onAdvertisement host ifindex priority adverIntCs src).Owned := by
  have hheld := h.held
  have hempty : inst.held \ inst.addresses.toFinset = ∅ := Finset.sdiff_eq_empty_iff_subset.mpr h.held_subset
  unfold onAdvertisement
  split_ifs
  · exact h
  · unfold perform Vrrp.onAdvertisement
    cases hstate : inst.fsm.state with
    | init => exact h
    | backup =>
      rw [if_neg (by simp [hstate])] at hheld
      simp only [Vrrp.advertInBackup]
      split_ifs
      · constructor <;> simp [applyActions, hstate, hheld]
      · constructor <;> simp [applyActions, hstate, hheld]
      · exact h
    | master =>
      rw [if_pos hstate] at hheld
      simp only [Vrrp.advertInMaster]
      split_ifs
      · constructor <;> simp [applyActions, sendAdvert, hstate, hheld]
      · constructor <;> simp [applyActions, releaseVip, hempty]
      · exact h

theorem owned_repair (h : inst.Owned) : (inst.repair host).Owned := by
  unfold repair
  split_ifs with hmissing
  · obtain ⟨-, hup⟩ | ⟨-, howned, -⟩ := applyActions_assumeVip host h.held_subset []
    · rw [hup]
      constructor
      · simp [applyActions, hmissing.1]
      · simpa [applyActions] using h.adver
      · simpa [applyActions] using h.masterDown
    · exact howned
  · exact h

theorem owned_rejoin (h : inst.Owned) (hinit : inst.fsm.state = .init) (next : Option IpAddr) :
    (inst.rejoin host next).Owned := by
  have hheld := h.held
  have hadver := h.adver
  have hdown := h.masterDown
  unfold rejoin
  dsimp only
  generalize hmoved : Instance.mk _ _ _ _ _ _ _ _ _ _ _ _ _ _ _ _ _ _ = moved
  have hstate : moved.fsm.state = .init := by
    rw [← hmoved]
    exact hinit
  have howned : moved.Owned := by
    rw [← hmoved]
    exact ⟨hheld, hadver, hdown⟩
  split_ifs
  · exact owned_onStartup howned hstate _
  · exact howned

theorem owned_pollPrimary (h : inst.Owned) : (inst.pollPrimary host).Owned := by
  obtain ⟨hstopped, hinit⟩ := owned_onShutdown host h
  unfold pollPrimary
  dsimp only
  generalize inst.perform host inst.fsm.onShutdown = stopped at hstopped hinit ⊢
  split_ifs
  · exact h
  · exact owned_repair h
  · cases host.socket stopped.ifname stopped.ipv6 with
    | none => exact hstopped
    | some ifindex =>
      have hreopened : { stopped with ifindex }.Owned := ⟨hstopped.held, hstopped.adver, hstopped.masterDown⟩
      exact owned_rejoin hreopened hinit _
  · exact owned_rejoin hstopped hinit _

theorem owned_pollTracking (h : inst.Owned) : (inst.pollTracking host).Owned := by
  simp only [pollTracking]
  by_cases hnone : inst.trackInterfaces.isEmpty = true
  · rwa [if_pos hnone]
  · rw [if_neg hnone]
    have htracked : ∀ anyDown, { inst with trackedDown := anyDown }.Owned := fun _ => ⟨h.held, h.adver, h.masterDown⟩
    exact owned_setPriority (htracked _) _

theorem owned_step (h : inst.Owned) (e : Host × Event) : (inst.step e).Owned := by
  obtain ⟨host, e⟩ := e
  cases e with
  | shutdown => exact (owned_onShutdown host h).1
  | pollPrimary => exact owned_pollPrimary h
  | pollTracking => exact owned_pollTracking h
  | adv ifindex priority adverIntCs src => exact owned_onAdvertisement h ifindex priority adverIntCs src
  | adverTimer => exact owned_onAdverTimer h
  | masterDownTimer => exact owned_onMasterDownTimer h
  | announcementTimer => exact ⟨h.held, h.adver, h.masterDown⟩

theorem owned_run (h : inst.Owned) (es : List (Host × Event)) : (inst.run es).Owned :=
  List.foldlRecOn es step (motive := Owned) h fun _ h e _ => owned_step h e

theorem owned_start {cfg : InstanceConfig} (h : start host cfg = some inst) : inst.Owned := by
  simp only [start, Option.bind_eq_bind, Option.bind_eq_some_iff] at h
  obtain ⟨ifindex, -, h⟩ := h
  have howned : (new host cfg (cfg.addresses.head?.any (!·.isIpv4)) ifindex).Owned := by
    constructor <;> simp [new, Vrrp.new]
  split_ifs at h
  · obtain rfl := Option.some.inj h
    exact owned_onStartup howned rfl _
  · obtain rfl := Option.some.inj h
    exact howned

/-- Wherever the installation stands among the actions, its failure is the end of the list. -/
theorem owned_of_refused {actions : List Action} (hmem : .assumeVip ∈ actions)
    (h : inst.held ⊆ inst.addresses.toFinset) (hrefused : ∃ vip ∈ inst.addresses, host.adds vip = false) :
    (applyActions host actions inst).Owned ∧ (applyActions host actions inst).fsm.state = .init := by
  induction actions generalizing inst with
  | nil => simp at hmem
  | cons action rest ih =>
    by_cases hassume : action = .assumeVip
    · subst hassume
      obtain ⟨hadds, -⟩ | ⟨-, howned, hinit⟩ := applyActions_assumeVip host h rest
      · obtain ⟨vip, hvip, hno⟩ := hrefused
        simp [hadds vip hvip] at hno
      · exact ⟨howned, hinit⟩
    · have hrest : .assumeVip ∈ rest := by
        obtain heq | hrest := List.mem_cons.mp hmem
        · exact absurd heq.symm hassume
        · exact hrest
      cases action with
      | assumeVip => exact absurd rfl hassume
      | releaseVip => exact ih hrest (Finset.sdiff_subset.trans h) hrefused
      | sendAdvert => exact ih hrest h hrefused
      | sendAdvertZero => exact ih hrest h hrefused
      | armAdverTimer cs => exact ih hrest h hrefused
      | armMasterDownTimer cs => exact ih hrest h hrefused
      | cancelAdverTimer => exact ih hrest h hrefused
      | cancelMasterDownTimer => exact ih hrest h hrefused

@[simp] theorem addresses_applyActions (actions : List Action) (inst : Instance) :
    (applyActions host actions inst).addresses = inst.addresses := by
  induction actions generalizing inst with
  | nil => rfl
  | cons action rest ih =>
    cases action with
    | assumeVip =>
      simp only [applyActions, assumeVip]
      cases addVirtualAddresses host inst.addresses inst.held with
      | mk ok held =>
        cases ok with
        | true => exact ih _
        | false => rfl
    | _ => exact ih _

@[simp] theorem addresses_perform (inst : Instance) (out : Vrrp × List Action) :
    (inst.perform host out).addresses = inst.addresses := addresses_applyActions out.2 _

@[simp] theorem addresses_rejoin (inst : Instance) (next : Option IpAddr) :
    (inst.rejoin host next).addresses = inst.addresses := by
  unfold rejoin
  dsimp only
  split_ifs <;> simp

theorem addresses_step (inst : Instance) (e : Host × Event) : (inst.step e).addresses = inst.addresses := by
  obtain ⟨host, e⟩ := e
  cases e with
  | shutdown => simp [step]
  | pollPrimary =>
    simp only [step, pollPrimary, repair]
    split_ifs
    · rfl
    · simp
    · rfl
    · cases host.socket _ _ with
      | none => exact addresses_perform inst _
      | some ifindex => exact (addresses_rejoin _ _).trans (addresses_perform inst _)
    · simp
  | pollTracking =>
    simp only [step, pollTracking]
    by_cases hnone : inst.trackInterfaces.isEmpty = true
    · rw [if_pos hnone]
    · rw [if_neg hnone]
      exact addresses_perform _ _
  | adv ifindex priority adverIntCs src =>
    simp only [step, onAdvertisement]
    split_ifs <;> simp
  | adverTimer =>
    simp only [step, onAdverTimer]
    split_ifs <;> simp
  | masterDownTimer =>
    simp only [step, onMasterDownTimer]
    split_ifs <;> simp
  | announcementTimer => rfl

theorem addresses_run (inst : Instance) (es : List (Host × Event)) : (inst.run es).addresses = inst.addresses :=
  List.foldlRecOn es step (motive := fun next => next.addresses = inst.addresses) rfl fun next h e _ =>
    (addresses_step next e).trans h

theorem addresses_start {cfg : InstanceConfig} (h : start host cfg = some inst) : inst.addresses = cfg.addresses := by
  simp only [start, Option.bind_eq_bind, Option.bind_eq_some_iff] at h
  obtain ⟨ifindex, -, h⟩ := h
  split_ifs at h
  · obtain rfl := Option.some.inj h
    simp [new]
  · obtain rfl := Option.some.inj h
    rfl

/-- The virtual addresses are up exactly while the machine is master, a master has the
advertisement timer and a backup the master-down timer. A refused address ends in the initial
state. -/
theorem holds_iff_master {cfg : InstanceConfig} (hstart : start host cfg = some inst) (es : List (Host × Event)) :
    (∀ vip, vip ∈ (inst.run es).held ↔ (inst.run es).fsm.state = .master ∧ vip ∈ cfg.addresses) ∧
      ((inst.run es).adverDeadline.isSome = true ↔ (inst.run es).fsm.state = .master) ∧
      ((inst.run es).masterDownDeadline.isSome = true ↔ (inst.run es).fsm.state = .backup) ∧
      ∀ (host' : Host) (out : Vrrp × List Action), .assumeVip ∈ out.2 →
        (∃ vip ∈ cfg.addresses, host'.adds vip = false) →
        ((inst.run es).perform host' out).fsm.state = .init ∧ ((inst.run es).perform host' out).held = ∅ := by
  have howned := owned_run (owned_start hstart) es
  have haddresses : (inst.run es).addresses = cfg.addresses := (addresses_run inst es).trans (addresses_start hstart)
  refine ⟨?_, howned.adver, howned.masterDown, ?_⟩
  · intro vip
    rw [howned.held, haddresses]
    split_ifs with hmaster <;> simp [hmaster]
  · intro host' out hmem hrefused
    rw [← haddresses] at hrefused
    have hheld : { inst.run es with fsm := out.1 }.held ⊆ { inst.run es with fsm := out.1 }.addresses.toFinset :=
      howned.held_subset
    obtain ⟨hend, hinit⟩ := owned_of_refused hmem hheld hrefused
    exact ⟨hinit, hend.held_eq_empty (by simp [hinit])⟩

/-- A host with one link, which takes every address. -/
def oneLink (now : ℕ) : Host where
  now
  index _ := some 2
  mac _ := some 0x020000000001
  running _ := true
  addresses _ := some [.v4 0xC000020A]
  socket _ _ := some 2
  adds _ := true

def oneRouter : InstanceConfig where
  interface := "eth0"
  vrid := 1
  priority := 100
  advertIntCs := 100
  preempt := true
  addresses := [.v4 0xC00002FE]
  addressInterface := "eth0"
  trackInterfaces := []
  priorityDecrement := 0

theorem holds_iff_master_oneRouter :
    ∃ inst, start (oneLink 0) oneRouter = some inst ∧ (inst.run [(oneLink 4000, .masterDownTimer)]).fsm.state = .master ∧
      ∀ vip, vip ∈ (inst.run [(oneLink 4000, .masterDownTimer)]).held ↔
        (inst.run [(oneLink 4000, .masterDownTimer)]).fsm.state = .master ∧ vip ∈ oneRouter.addresses := by
  cases hstart : start (oneLink 0) oneRouter with
  | none => exact absurd hstart (by decide)
  | some inst =>
    have hmaster : (start (oneLink 0) oneRouter).map
        (fun inst => (inst.run [(oneLink 4000, .masterDownTimer)]).fsm.state) = some .master := by decide +kernel
    rw [hstart] at hmaster
    exact ⟨inst, rfl, Option.some.inj hmaster, (holds_iff_master hstart [(oneLink 4000, .masterDownTimer)]).1⟩

end Instance
end Wren.Daemon.Vrrp
