import Wren.Lib.OrdMap

/-! IP addresses and CIDR networks. A `Prefix` cannot be built with host bits set or with a
length beyond its address family. -/

namespace Wren.Core
open Std

inductive IpAddr where
  | v4 (a : BitVec 32)
  | v6 (a : BitVec 128)
deriving DecidableEq

namespace IpAddr

def isIpv4 : IpAddr → Bool
  | v4 _ => true
  | v6 _ => false

def maxLen : IpAddr → UInt8
  | v4 _ => 32
  | v6 _ => 128

/-- Clear the host bits below `len`. -/
def mask : IpAddr → UInt8 → IpAddr
  | v4 a, len => v4 (a &&& if len = 0 then 0 else BitVec.allOnes 32 <<< (32 - len.toNat))
  | v6 a, len => v6 (a &&& if len = 0 then 0 else BitVec.allOnes 128 <<< (128 - len.toNat))

@[simp] theorem maxLen_mask (a : IpAddr) (len : UInt8) : (a.mask len).maxLen = a.maxLen := by
  cases a <;> rfl

@[simp] theorem mask_mask (a : IpAddr) (len : UInt8) : (a.mask len).mask len = a.mask len := by
  cases a <;> simp only [mask, BitVec.and_assoc, BitVec.and_self]

@[simp] theorem mask_maxLen (a : IpAddr) : a.mask a.maxLen = a := by
  cases a with
  | v4 a => exact congrArg v4 BitVec.and_allOnes
  | v6 a => exact congrArg v6 BitVec.and_allOnes

/-- Family first, then the address as a number. -/
def key : IpAddr → UInt8 × BitVec 128
  | v4 a => (0, a.setWidth 128)
  | v6 a => (1, a)

theorem key_injective : Function.Injective key := by
  rintro (a | a) (b | b) h
  · have hab : a.setWidth 128 = b.setWidth 128 := congrArg Prod.snd h
    have := congrArg (BitVec.setWidth 32) hab
    simp at this
    rw [this]
  · exact absurd (congrArg Prod.fst h) (by simp [key])
  · exact absurd (congrArg Prod.fst h) (by simp [key])
  · rw [show a = b from congrArg Prod.snd h]

instance : Ord IpAddr := ⟨compareOn key⟩

instance : TransOrd IpAddr := inferInstanceAs (TransCmp (compareOn key))

instance : LawfulEqOrd IpAddr where
  eq_of_compare h := key_injective (LawfulEqOrd.eq_of_compare h)

end IpAddr

/-- A network `addr/len`, always normalised to its base address. -/
structure Prefix where
  addr : IpAddr
  len : UInt8
  len_le : len ≤ addr.maxLen
  masked : addr.mask len = addr
deriving DecidableEq

inductive PrefixError where
  | lenTooLong (len max : UInt8)
deriving DecidableEq

namespace Prefix

def new (addr : IpAddr) (len : UInt8) : Except PrefixError Prefix :=
  if h : len ≤ addr.maxLen then .ok ⟨addr.mask len, len, by simpa using h, by simp⟩
  else .error (.lenTooLong len addr.maxLen)

def host (addr : IpAddr) : Prefix := ⟨addr, addr.maxLen, UInt8.le_refl _, by simp⟩

def maxLen (p : Prefix) : UInt8 := p.addr.maxLen

def isIpv4 (p : Prefix) : Bool := p.addr.isIpv4

def contains (p : Prefix) : IpAddr → Bool
  | .v4 a => p.addr.isIpv4 && IpAddr.mask (.v4 a) p.len == p.addr
  | .v6 a => !p.addr.isIpv4 && IpAddr.mask (.v6 a) p.len == p.addr

/-- The order of dumps: family, address, length. -/
def key (p : Prefix) : (UInt8 × BitVec 128) × UInt8 := (p.addr.key, p.len)

theorem key_injective : Function.Injective key := by
  rintro ⟨a, l, _, _⟩ ⟨b, m, _, _⟩ h
  have ha : a = b := IpAddr.key_injective (congrArg Prod.fst h)
  have hl : l = m := congrArg Prod.snd h
  subst ha hl
  rfl

instance : Ord Prefix := ⟨compareOn key⟩

instance : TransOrd Prefix := inferInstanceAs (TransCmp (compareOn key))

instance : LawfulEqOrd Prefix where
  eq_of_compare h := key_injective (LawfulEqOrd.eq_of_compare h)

/-! ### Prefixes that are written down -/

theorem anyV4_len_le : 0 ≤ (IpAddr.v4 0).maxLen := by decide

theorem anyV4_masked : (IpAddr.v4 0).mask 0 = .v4 0 := by decide

theorem anyV6_len_le : 0 ≤ (IpAddr.v6 0).maxLen := by decide

theorem anyV6_masked : (IpAddr.v6 0).mask 0 = .v6 0 := by decide

theorem net10_len_le : 8 ≤ (IpAddr.v4 0x0a000000).maxLen := by decide

theorem net10_masked : (IpAddr.v4 0x0a000000).mask 8 = .v4 0x0a000000 := by decide

end Prefix
end Wren.Core
