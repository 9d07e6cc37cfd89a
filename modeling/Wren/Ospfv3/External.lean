import Wren.Ospf.External
import Wren.Ospfv3.Spf

/-! Routes of OSPFv3 to destinations outside the AS. Totals of both types meet in one table here. -/

namespace Wren.Ospfv3
open OrdMap RouteTree Offer
open Wren.Ospf (Ipv4Addr maxAge lsInfinity Advert Type1 Prefers Undisputed)
open Std (ExtTreeMap)

def advert (intra : SpfResult) (selfId : Ipv4Addr) (lsa : Lsa) : Option (Advert Core.Prefix SpfNextHop) :=
  match lsa.body with
  | .asExternal ext =>
    let asbr := lsa.header.advertisingRouter
    if asbr = selfId ∨ lsInfinity ≤ ext.metric ∨ maxAge ≤ lsa.header.lsAge then none
    else if ext.forwardingAddress.isSome then none
    else if ext.pfx.options &&& prefixNu ≠ 0 then none
    else do
      let costToAsbr ← intra.routers[asbr]?
      let pfx ← toCorePrefix ext.pfx
      some ⟨pfx, ext.externalType2, ext.metric, costToAsbr, (intra.routerNexthops[asbr]?).getD []⟩
  | _ => none

def externalRoutes (area : Lsdb) (intra : SpfResult) (selfId : Ipv4Addr) : List SpfRoute :=
  let adverts := (area.iterType .asExternal).filterMap (advert intra selfId)
  let byPrefix : BTreeMap Core.Prefix (Info SpfNextHop) :=
    adverts.foldl (fun m a => Topology.addRoute m (a.pfx, a.info)) ∅
  byPrefix.toList.map fun e => ⟨e.1, e.2.dist, e.2.gateways⟩

/-- The LSA counts: it is not our own, reachable, younger than MaxAge, below LSInfinity, forwards by its ASBR, and its
prefix takes part in unicast. -/
def Eligible (intra : SpfResult) (selfId : Ipv4Addr) (lsa : Lsa) (a : Advert Core.Prefix SpfNextHop) : Prop :=
  ∃ ext, lsa.body = .asExternal ext ∧ lsa.header.advertisingRouter ≠ selfId ∧ ext.metric < lsInfinity ∧
    lsa.header.lsAge < maxAge ∧ ext.forwardingAddress = none ∧ ext.pfx.options &&& prefixNu = 0 ∧
    intra.routers[lsa.header.advertisingRouter]? = some a.costToAsbr ∧ toCorePrefix ext.pfx = some a.pfx ∧
    a.externalType2 = ext.externalType2 ∧ a.metric = ext.metric ∧
    a.gateways = (intra.routerNexthops[lsa.header.advertisingRouter]?).getD []

theorem advert_eq_some_iff {intra : SpfResult} {selfId : Ipv4Addr} {lsa : Lsa} {a : Advert Core.Prefix SpfNextHop} :
    advert intra selfId lsa = some a ↔ Eligible intra selfId lsa a := by
  unfold advert Eligible
  cases hbody : lsa.body with
  | asExternal ext =>
    dsimp only
    constructor
    · intro h
      split_ifs at h with hskip hforward hnu
      push Not at hskip hnu
      obtain ⟨hself, hmetric, hage⟩ := hskip
      obtain ⟨cost, hcost, h⟩ := Option.bind_eq_some_iff.mp h
      obtain ⟨p, hp, h⟩ := Option.bind_eq_some_iff.mp h
      obtain rfl := Option.some.inj h
      exact ⟨ext, rfl, hself, UInt32.not_le.mp hmetric, by simpa using hage, by simpa using hforward, hnu, hcost, hp, rfl,
        rfl, rfl⟩
    · rintro ⟨ext', hext, hself, hmetric, hage, hforward, hnu, hcost, hp, htype, hm, hgs⟩
      obtain rfl := LsaBody.asExternal.inj hext
      have hskip : ¬ (lsa.header.advertisingRouter = selfId ∨ lsInfinity ≤ ext.metric ∨ maxAge ≤ lsa.header.lsAge) := by
        rintro (h | h | h)
        · exact hself h
        · exact UInt32.not_lt.mpr h hmetric
        · exact absurd hage (by simpa using h)
      obtain ⟨pfx, t, metric, cost, gs⟩ := a
      dsimp only at htype hm hgs hcost hp
      subst htype hm hgs
      rw [if_neg hskip, if_neg (by rw [hforward]; decide), if_neg (fun h => h hnu), hcost, hp]
      rfl
  | _ =>
    constructor
    · exact fun h => by cases h
    · rintro ⟨ext, hext, -⟩
      cases hext

section Routes
variable (area : Lsdb) (intra : SpfResult) (selfId : Ipv4Addr)

/-- The AS-external-LSAs that count. -/
def Adverts (a : Advert Core.Prefix SpfNextHop) : Prop := ∃ lsa ∈ area.iterType .asExternal, Eligible intra selfId lsa a

theorem mem_externalRoutes {k : Core.Prefix} {c : UInt32} {gs : List SpfNextHop} :
    ⟨k, c, gs⟩ ∈ externalRoutes area intra selfId ↔
      (Advert.table ((area.iterType .asExternal).filterMap (advert intra selfId)))[k]? = some ⟨c, gs⟩ := by
  rw [← ExtTreeMap.mem_toList_iff_getElem?_eq_some]
  simp only [externalRoutes, Advert.table, List.mem_map]
  constructor
  · rintro ⟨⟨k', i⟩, hmem, heq⟩
    obtain ⟨rfl, rfl, rfl⟩ := SpfRoute.mk.inj heq
    exact hmem
  · exact fun h => ⟨_, h, rfl⟩

/-- Every LSA that counts is a rival here, whatever its type. -/
theorem prefers_externalRoutes_iff :
    Prefers (Adverts area intra selfId) (fun k c gs => ⟨k, c, gs⟩ ∈ externalRoutes area intra selfId) ↔
      Undisputed (Adverts area intra selfId) (Adverts area intra selfId) := by
  have hmem : ∀ {k c gs}, ⟨k, c, gs⟩ ∈ externalRoutes area intra selfId ↔ _ := @mem_externalRoutes area intra selfId
  obtain ⟨adverts, hadverts⟩ : ∃ l, (area.iterType .asExternal).filterMap (advert intra selfId) = l := ⟨_, rfl⟩
  have hA : ∀ a, a ∈ adverts ↔ Adverts area intra selfId a := by
    intro a
    rw [← hadverts]
    simp only [List.mem_filterMap, advert_eq_some_iff, Adverts]
  rw [hadverts] at hmem
  rw [← Ospf.type1_iff_undisputed hA fun a ha _ => ha]
  constructor
  · intro h k hk
    obtain ⟨c, gs, hroute, hrest⟩ := h.type1 k hk
    exact ⟨c, gs, hmem.mp hroute, hrest⟩
  · intro h
    refine ⟨?_, ?_, ?_⟩
    · intro k c gs c' gs' h₁ h₂
      rw [hmem] at h₁ h₂
      exact Info.mk.inj (Option.some.inj (h₁.symm.trans h₂))
    · intro k hk
      obtain ⟨c, gs, hroute, hrest⟩ := h k hk
      exact ⟨c, gs, hmem.mpr hroute, hrest⟩
    · intro k hk n
      simp only [hmem]
      refine Ospf.type2_advertTable ?_ n
      intro r
      rw [hA]
      constructor
      · rintro ⟨hr, hrk⟩
        refine ⟨hr, hrk, ?_⟩
        by_contra htype
        exact hk ⟨_, r, hr, hrk, by simpa using htype, rfl⟩
      · rintro ⟨hr, hrk, -⟩
        exact ⟨hr, hrk⟩

end Routes

/-- Both versions prefer type 1 to type 2 exactly where nothing disputes it. In OSPFv2 that takes another LSA of type 1
whose total does not fit into 32 bits, in OSPFv3 any LSA of type 2 with a lower metric will do. -/
theorem external_preference_iff (lsdb : Ospf.Lsdb) (intra₂ : Ospf.SpfResult) (area : Lsdb) (intra₃ : SpfResult)
    (selfId : Ipv4Addr) :
    (Prefers (Ospf.Adverts lsdb intra₂ selfId .asExternal)
        (fun k c gs => ⟨k, c, gs⟩ ∈ Ospf.externalRoutes lsdb intra₂ selfId) ↔
      Undisputed (Ospf.Adverts lsdb intra₂ selfId .asExternal)
        fun r => Ospf.Adverts lsdb intra₂ selfId .asExternal r ∧ r.externalType2 = false) ∧
    (Prefers (Adverts area intra₃ selfId) (fun k c gs => ⟨k, c, gs⟩ ∈ externalRoutes area intra₃ selfId) ↔
      Undisputed (Adverts area intra₃ selfId) (Adverts area intra₃ selfId)) :=
  ⟨Ospf.prefers_externalRoutesOfType_iff lsdb intra₂ selfId .asExternal, prefers_externalRoutes_iff area intra₃ selfId⟩

/-! Two ASBRs at cost 10 advertise a prefix, one by type 1 with metric 20, the other by type 2 with metric 1. -/

def externalOf (asbr : Ipv4Addr) (externalType2 : Bool) (metric : UInt32) : Lsa :=
  ⟨⟨1, .asExternal, 1, asbr, 1, 0, 0⟩,
    .asExternal ⟨externalType2, metric, ⟨32, 0, [0x20, 1, 0xd, 0xb8]⟩, none, none, 0, none⟩⟩

def asbrs : SpfResult := ⟨[], (∅ : BTreeMap Ipv4Addr UInt32).insert 2 10 |>.insert 3 10,
  (∅ : BTreeMap Ipv4Addr (List SpfNextHop)).insert 2 [⟨0xfe80, 1⟩] |>.insert 3 [⟨0xfe81, 1⟩]⟩

def externals : Lsdb := (Lsdb.new.put (externalOf 2 false 20)).put (externalOf 3 true 1)

/-- The prefix costs 1, which no LSA of type 1 gives. -/
theorem external_preference_disputed :
    ¬ Prefers (Adverts externals asbrs 1) (fun k c gs => ⟨k, c, gs⟩ ∈ externalRoutes externals asbrs 1) := by
  intro h
  have hmem : ∀ a, a ∈ (externals.iterType .asExternal).filterMap (advert asbrs 1) ↔ Adverts externals asbrs 1 a := by
    intro a
    simp only [List.mem_filterMap, advert_eq_some_iff, Adverts]
  have hthirty : ∀ a ∈ (externals.iterType .asExternal).filterMap (advert asbrs 1), a.externalType2 = false →
      a.costToAsbr.toNat + a.metric.toNat = 30 := by decide +kernel
  have hone : ∀ r ∈ externalRoutes externals asbrs 1, r.cost = 1 := by decide +kernel
  obtain ⟨a, ha, htype⟩ : ∃ a ∈ (externals.iterType .asExternal).filterMap (advert asbrs 1), a.externalType2 = false := by
    decide +kernel
  obtain ⟨c, gs, hroute, ⟨⟨b, hb, -, hbtype, hbsum⟩, -⟩, -⟩ :=
    h.type1 a.pfx ⟨_, a, (hmem a).mp ha, rfl, htype, rfl⟩
  have hsum := hthirty b ((hmem b).mpr hb) hbtype
  have hcost : c = 1 := hone _ hroute
  rw [hbsum, hcost] at hsum
  exact absurd hsum (by decide)

end Wren.Ospfv3
