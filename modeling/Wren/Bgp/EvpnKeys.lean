import Wren.Bgp.EvpnRib

/-! Which EVPN advertisements replace each other. -/

namespace Wren.Bgp
open Wren.Core OrdMap Std

/-- The fields that tell two routes apart. Labels, the segment and the gateway are not among them. -/
inductive RouteKey where
  | macIp (rd : Rd) (ethTag : UInt32) (mac : MacAddr) (ip : Option IpAddr)
  | imet (rd : Rd) (ethTag : UInt32) (origIp : IpAddr)
  | ipPrefix (rd : Rd) (ethTag : UInt32) (pfx : Prefix)
  | unknown (routeType : UInt8) (body : List UInt8)
deriving DecidableEq

def EvpnNlri.routeKey : EvpnNlri → RouteKey
  | macIp rd _ ethTag mac ip _ _ => .macIp rd ethTag mac ip
  | imet rd ethTag origIp => .imet rd ethTag origIp
  | ipPrefix rd _ ethTag pfx _ _ => .ipPrefix rd ethTag pfx
  | unknown routeType body => .unknown routeType body

namespace EvpnRib
variable {κ : Type} [DecidableEq κ]

def run (ops : List Op) : EvpnRib := ops.foldl (fun rib op => (rib.apply op).1) new

/-- The route that an operation of a peer is about. -/
def Op.names : Op → Option (IpAddr × EvpnNlri)
  | .update peer nlri _ => some (peer, nlri)
  | .withdraw peer nlri => some (peer, nlri)
  | .withdrawPeer _ => none

/-- What a peer said last about the routes of one key. -/
def hear (key : EvpnNlri → κ) (peer : IpAddr) (k : κ) (last : Option (EvpnNlri × Path)) :
    Op → Option (EvpnNlri × Path)
  | .update p nlri path => if p = peer ∧ key nlri = k then some (nlri, path) else last
  | .withdraw p nlri => if p = peer ∧ key nlri = k then none else last
  | .withdrawPeer p => if p = peer then none else last

def lastAdvert (key : EvpnNlri → κ) (ops : List Op) (peer : IpAddr) (k : κ) : Option (EvpnNlri × Path) :=
  ops.foldl (hear key peer k) none

/-- A peer's path for a key is the one it advertised last, and there is no other. -/
def Replaces (key : EvpnNlri → κ) (ops : List Op) (peer : IpAddr) (k : κ) : Prop :=
  ∀ n id path, key n = k →
    (((run ops).offers n)[((peer, id) : IpAddr × UInt32)]? = some path ↔
      id = 0 ∧ lastAdvert key ops peer k = some (n, path))

/-- A peer names the routes of a key in one way only. -/
def Consistent (key : EvpnNlri → κ) (ops : List Op) (peer : IpAddr) (k : κ) : Prop :=
  ∀ n n', some (peer, n) ∈ ops.map Op.names → some (peer, n') ∈ ops.map Op.names → key n = k → key n' = k → n = n'

theorem selected_run (ops : List Op) : (run ops).Selected := by
  refine List.foldlRecOn ops _ (motive := Selected) selected_new ?_
  intro rib h op _
  cases op with
  | update peer nlri path => exact selected_update h peer nlri path
  | withdraw peer nlri => exact selected_withdraw h peer nlri
  | withdrawPeer peer => exact (withdrawPeer_spec h peer).1

theorem run_concat (ops : List Op) (op : Op) : run (ops ++ [op]) = ((run ops).apply op).1 :=
  List.foldl_concat _ _ _ _

theorem lastAdvert_concat (key : EvpnNlri → κ) (ops : List Op) (op : Op) (peer : IpAddr) (k : κ) :
    lastAdvert key (ops ++ [op]) peer k = hear key peer k (lastAdvert key ops peer k) op :=
  List.foldl_concat _ _ _ _

/-- What was said last was said. -/
theorem names_of_lastAdvert {key : EvpnNlri → κ} {ops : List Op} {peer : IpAddr} {k : κ} {n : EvpnNlri} {path : Path}
    (h : lastAdvert key ops peer k = some (n, path)) : some (peer, n) ∈ ops.map Op.names := by
  induction ops using List.reverseRecOn with
  | nil => simp [lastAdvert] at h
  | append_singleton ops op ih =>
    rw [lastAdvert_concat] at h
    rw [List.map_append, List.mem_append]
    cases op with
    | update p m path' =>
      simp only [hear] at h
      split_ifs at h with hsame
      · obtain ⟨rfl, -⟩ := Prod.mk.inj (Option.some.inj h)
        right
        simp [Op.names, hsame.1]
      · exact .inl (ih h)
    | withdraw p m =>
      simp only [hear] at h
      split_ifs at h with hsame
      exact .inl (ih h)
    | withdrawPeer p =>
      simp only [hear] at h
      split_ifs at h with hsame
      exact .inl (ih h)

omit [DecidableEq κ] in
theorem Consistent.of_concat {key : EvpnNlri → κ} {ops : List Op} {op : Op} {peer : IpAddr} {k : κ}
    (h : Consistent key (ops ++ [op]) peer k) : Consistent key ops peer k := by
  intro n n' hn hn'
  refine h n n' ?_ ?_
  · rw [List.map_append]
    exact List.mem_append_left _ hn
  · rw [List.map_append]
    exact List.mem_append_left _ hn'

/-- Where a peer names the routes of a key in one way only, its last word on the key stands. -/
theorem replaces_of_consistent {key : EvpnNlri → κ} {ops : List Op} {peer : IpAddr} {k : κ}
    (h : Consistent key ops peer k) : Replaces key ops peer k := by
  induction ops using List.reverseRecOn with
  | nil =>
    intro n id path hn
    simp [run, lastAdvert]
  | append_singleton ops op ih =>
    have hold := ih h.of_concat
    -- An advertisement for the same key that still stands is for the same NLRI.
    have hsame : ∀ m n path, op.names = some (peer, m) → key m = k → key n = k →
        lastAdvert key ops peer k = some (n, path) → n = m := by
      intro m n path hop hm hn hlast
      refine h n m ?_ ?_ hn hm
      · rw [List.map_append]
        exact List.mem_append_left _ (names_of_lastAdvert hlast)
      · rw [List.map_append]
        exact List.mem_append_right _ (by simp [hop])
    intro n id path hn
    rw [run_concat, lastAdvert_concat]
    cases op with
    | update p m path' =>
      simp only [apply, hear, offers_update]
      by_cases hnames : p = peer ∧ key m = k
      · obtain ⟨rfl, hm⟩ := hnames
        have hheard : p = p ∧ key m = k := ⟨rfl, hm⟩
        by_cases hnm : n = m
        · subst hnm
          rw [if_pos rfl, if_pos hheard, getElem?_insert]
          by_cases hid : id = 0
          · subst hid
            simp
          · rw [if_neg (by simpa using hid), hold n id path hn]
            simp [hid]
        · rw [if_neg hnm, if_pos hheard, hold n id path hn]
          constructor
          · intro hlast
            exact absurd (hsame m n path rfl hm hn hlast.2) hnm
          · intro hlast
            exact absurd (Prod.mk.inj (Option.some.inj hlast.2)).1.symm hnm
      · rw [if_neg hnames, ← hold n id path hn]
        split_ifs with hnm
        · have hne : ((peer, id) : IpAddr × UInt32) ≠ (p, 0) := by
            intro heq
            exact hnames ⟨(Prod.mk.inj heq).1.symm, hnm ▸ hn⟩
          rw [getElem?_insert, if_neg hne, hnm]
        · rfl
    | withdraw p m =>
      simp only [apply, hear, offers_withdraw]
      by_cases hnames : p = peer ∧ key m = k
      · obtain ⟨rfl, hm⟩ := hnames
        have hheard : p = p ∧ key m = k := ⟨rfl, hm⟩
        by_cases hnm : n = m
        · subst hnm
          rw [if_pos rfl, if_pos hheard, ExtTreeMap.getElem?_filter']
          simp
        · rw [if_neg hnm, if_pos hheard, hold n id path hn]
          constructor
          · intro hlast
            exact absurd (hsame m n path rfl hm hn hlast.2) hnm
          · intro hlast
            simp at hlast
      · rw [if_neg hnames, ← hold n id path hn]
        split_ifs with hnm
        · have hne : peer ≠ p := fun heq => hnames ⟨heq.symm, hnm ▸ hn⟩
          rw [ExtTreeMap.getElem?_filter', hnm]
          cases ((run ops).offers m)[((peer, id) : IpAddr × UInt32)]? <;> simp [hne]
        · rfl
    | withdrawPeer p =>
      simp only [apply, hear, (withdrawPeer_spec (selected_run ops) p).2, ExtTreeMap.getElem?_filter']
      by_cases hpeer : p = peer
      · subst hpeer
        simp
      · rw [if_neg hpeer, ← hold n id path hn]
        have hne : peer ≠ p := fun heq => hpeer heq.symm
        cases ((run ops).offers n)[((peer, id) : IpAddr × UInt32)]? <;> simp [hne]

/-- The table is keyed by the whole NLRI: a peer's last word on an NLRI stands, whatever else it
said. So it does for a route whose label, segment and gateway the peer never changes. -/
theorem readvertised_replaces (ops : List Op) :
    (∀ peer n, Replaces id ops peer n) ∧
      ∀ peer k, Consistent EvpnNlri.routeKey ops peer k → Replaces EvpnNlri.routeKey ops peer k := by
  constructor
  · intro peer n
    refine replaces_of_consistent ?_
    intro m m' _ _ hm hm'
    exact hm.trans hm'.symm
  · intro peer k h
    exact replaces_of_consistent h

/-- A MAC address advertised with a VNI. -/
def macWithVni (vni : UInt32) : EvpnNlri :=
  .macIp (Vector.replicate 8 0) (Vector.replicate 10 0) 0 (Vector.replicate 6 2) none vni none

theorem readvertised_replaces_sameVni :
    Replaces EvpnNlri.routeKey
      [.update (.v4 1) (macWithVni 10100) (Sample.path 65001 0 1), .update (.v4 1) (macWithVni 10100) (Sample.path 65001 5 1)]
      (.v4 1) (macWithVni 10100).routeKey := by
  refine (readvertised_replaces _).2 _ _ ?_
  intro n n' hn hn' _ _
  have heq : n = macWithVni 10100 := by simpa [Op.names] using hn
  have heq' : n' = macWithVni 10100 := by simpa [Op.names] using hn'
  rw [heq, heq']

/-- A peer that moves a MAC address to another VNI leaves the old route behind. -/
theorem readvertised_leaves_ghost :
    ¬ ∀ (ops : List Op) (peer : IpAddr) (k : RouteKey), Replaces EvpnNlri.routeKey ops peer k := by
  intro hall
  have hghost : ((run [.update (.v4 1) (macWithVni 10100) (Sample.path 65001 0 1),
      .update (.v4 1) (macWithVni 10200) (Sample.path 65001 0 1)]).offers (macWithVni 10100))[
        ((.v4 1, 0) : IpAddr × UInt32)]? = some (Sample.path 65001 0 1) := by
    decide +kernel
  have hlast := ((hall _ _ _ _ _ _ rfl).mp hghost).2
  simp [lastAdvert, hear, macWithVni, EvpnNlri.routeKey] at hlast

end EvpnRib
end Wren.Bgp
