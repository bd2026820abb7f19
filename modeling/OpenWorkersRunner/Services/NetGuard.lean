import Mathlib.Tactic.IntervalCases
import Mathlib.Tactic.Tauto

/-!
# The egress guard (`services/net_guard.rs`)

A guest must not reach the network of the runner: `ip_is_public` says which addresses it may.  The
blocks it should refuse are written here as prefixes, with the IPv4 addresses that some IPv6
addresses carry.  The code spells out tests of octets and segments instead, and
`guard_admits_special_iff` says exactly which special addresses pass them: all of `0.0.0.0/8` but
its first, and what carries a special IPv4 address in another way than the mapped one.
-/

namespace OpenWorkersRunner.NetGuard

structure Ipv4Addr where
  a : BitVec 8
  b : BitVec 8
  c : BitVec 8
  d : BitVec 8
deriving DecidableEq

structure Ipv6Addr where
  a : BitVec 16
  b : BitVec 16
  c : BitVec 16
  d : BitVec 16
  e : BitVec 16
  f : BitVec 16
  g : BitVec 16
  h : BitVec 16
deriving DecidableEq

inductive IpAddr
  | v4 (ip : Ipv4Addr)
  | v6 (ip : Ipv6Addr)
deriving DecidableEq

/-! ## The code -/

namespace Ipv4Addr

def isUnspecified (ip : Ipv4Addr) : Bool := ip == ⟨0, 0, 0, 0⟩

def isLoopback (ip : Ipv4Addr) : Bool := ip.a == 127

def isPrivate (ip : Ipv4Addr) : Bool :=
  ip.a == 10 || ip.a == 172 && 16 ≤ ip.b && ip.b ≤ 31 || ip.a == 192 && ip.b == 168

def isLinkLocal (ip : Ipv4Addr) : Bool := ip.a == 169 && ip.b == 254

def isBroadcast (ip : Ipv4Addr) : Bool := ip == ⟨255, 255, 255, 255⟩

def isDocumentation (ip : Ipv4Addr) : Bool :=
  ip.a == 192 && ip.b == 0 && ip.c == 2 || ip.a == 198 && ip.b == 51 && ip.c == 100 ||
    ip.a == 203 && ip.b == 0 && ip.c == 113

end Ipv4Addr

def ipv4IsPublic (ip : Ipv4Addr) : Bool :=
  if ip.isUnspecified || ip.isLoopback || ip.isPrivate || ip.isLinkLocal || ip.isBroadcast ||
      ip.isDocumentation then false
  else if ip.a == 100 && (64 ≤ ip.b && ip.b ≤ 127) then false
  else if ip.a == 192 && ip.b == 0 && ip.c == 0 then false
  else if ip.a == 198 && (ip.b == 18 || ip.b == 19) then false
  else if ip.a ≥ 240 then false
  else true

namespace Ipv6Addr

def isUnspecified (ip : Ipv6Addr) : Bool := ip == ⟨0, 0, 0, 0, 0, 0, 0, 0⟩

def isLoopback (ip : Ipv6Addr) : Bool := ip == ⟨0, 0, 0, 0, 0, 0, 0, 1⟩

def isMulticast (ip : Ipv6Addr) : Bool := ip.a &&& 0xff00#16 == 0xff00#16

def tail (high low : BitVec 16) : Ipv4Addr :=
  ⟨high.extractLsb' 8 8, high.extractLsb' 0 8, low.extractLsb' 8 8, low.extractLsb' 0 8⟩

def toIpv4Mapped (ip : Ipv6Addr) : Option Ipv4Addr :=
  if ip.a == 0 && ip.b == 0 && ip.c == 0 && ip.d == 0 && ip.e == 0 && ip.f == 0xffff then
    some (tail ip.g ip.h)
  else none

end Ipv6Addr

def ipv6IsPublic (ip : Ipv6Addr) : Bool :=
  if ip.isUnspecified || ip.isLoopback || ip.isMulticast then false
  else if ip.a &&& 0xfe00#16 == 0xfc00#16 then false
  else if ip.a &&& 0xffc0#16 == 0xfe80#16 then false
  else if ip.a == 0x2001 && ip.b == 0x0db8 then false
  else true

def ipIsPublic : IpAddr → Bool
  | .v4 ip => ipv4IsPublic ip
  | .v6 ip =>
    match ip.toIpv4Mapped with
    | some ip => ipv4IsPublic ip
    | none => ipv6IsPublic ip

/-! ## What it is for -/

/-- The addresses of `width` bits that begin with the first `len` bits of `base`. -/
structure Cidr (width : ℕ) where
  base : ℕ
  len : ℕ

def Cidr.contains {width : ℕ} (block : Cidr width) (bits : ℕ) : Bool :=
  bits / 2 ^ (width - block.len) == block.base / 2 ^ (width - block.len)

def Ipv4Addr.bits (ip : Ipv4Addr) : ℕ :=
  ip.a.toNat * 2 ^ 24 + ip.b.toNat * 2 ^ 16 + ip.c.toNat * 2 ^ 8 + ip.d.toNat

def Ipv6Addr.bits (ip : Ipv6Addr) : ℕ :=
  ip.a.toNat * 2 ^ 112 + ip.b.toNat * 2 ^ 96 + ip.c.toNat * 2 ^ 80 + ip.d.toNat * 2 ^ 64 +
    ip.e.toNat * 2 ^ 48 + ip.f.toNat * 2 ^ 32 + ip.g.toNat * 2 ^ 16 + ip.h.toNat

/-- `0.0.0.0/8`, `10/8`, `100.64/10`, `127/8`, `169.254/16`, `172.16/12`, `192.0.0/24`,
`192.0.2/24`, `192.168/16`, `198.18/15`, `198.51.100/24`, `203.0.113/24` and `240/4`. -/
def special4 : List (Cidr 32) :=
  [⟨0, 8⟩, ⟨0x0a000000, 8⟩, ⟨0x64400000, 10⟩, ⟨0x7f000000, 8⟩, ⟨0xa9fe0000, 16⟩, ⟨0xac100000, 12⟩,
    ⟨0xc0000000, 24⟩, ⟨0xc0000200, 24⟩, ⟨0xc0a80000, 16⟩, ⟨0xc6120000, 15⟩, ⟨0xc6336400, 24⟩,
    ⟨0xcb007100, 24⟩, ⟨0xf0000000, 4⟩]

def special6 : List (Cidr 128) :=
  [⟨0, 128⟩, ⟨1, 128⟩, ⟨0xff00 * 2 ^ 112, 8⟩, ⟨0xfc00 * 2 ^ 112, 7⟩, ⟨0xfe80 * 2 ^ 112, 10⟩,
    ⟨0x20010db8 * 2 ^ 96, 32⟩]

def Ipv4Addr.isSpecial (ip : Ipv4Addr) : Bool := special4.any (·.contains ip.bits)

/-- The IPv4 address in a mapped (`::ffff:0:0/96`), compatible (`::/96`), NAT64 (`64:ff9b::/96`) or
6to4 address (`2002::/16`). -/
def Ipv6Addr.carried (ip : Ipv6Addr) : Option Ipv4Addr :=
  if (⟨0xffff * 2 ^ 32, 96⟩ : Cidr 128).contains ip.bits ||
      (⟨0, 96⟩ : Cidr 128).contains ip.bits ||
      (⟨0x64ff9b * 2 ^ 96, 96⟩ : Cidr 128).contains ip.bits then some (tail ip.g ip.h)
  else if (⟨0x2002 * 2 ^ 112, 16⟩ : Cidr 128).contains ip.bits then some (tail ip.b ip.c)
  else none

def Ipv6Addr.isSpecial (ip : Ipv6Addr) : Bool := special6.any (·.contains ip.bits)

def IpAddr.isSpecial : IpAddr → Bool
  | .v4 ip => ip.isSpecial
  | .v6 ip => ip.isSpecial || ip.carried.any Ipv4Addr.isSpecial

def Ipv4Addr.isMissed (ip : Ipv4Addr) : Bool := ip.a == 0 && ip != ⟨0, 0, 0, 0⟩

def IpAddr.isMissed : IpAddr → Bool
  | .v4 ip => ip.isMissed
  | .v6 ip =>
    match ip.toIpv4Mapped with
    | some ip => ip.isMissed
    | none => !ip.isSpecial && ip.carried.any Ipv4Addr.isSpecial

/-! ## How they compare -/

theorem Ipv4Addr.isSpecial_iff (ip : Ipv4Addr) : ip.isSpecial = true ↔
    ip.a = 0 ∨ ip.a = 10 ∨ (ip.a = 100 ∧ 64 ≤ ip.b ∧ ip.b ≤ 127) ∨ ip.a = 127 ∨
    (ip.a = 169 ∧ ip.b = 254) ∨ (ip.a = 172 ∧ 16 ≤ ip.b ∧ ip.b ≤ 31) ∨
    (ip.a = 192 ∧ ip.b = 0 ∧ ip.c = 0) ∨ (ip.a = 192 ∧ ip.b = 0 ∧ ip.c = 2) ∨
    (ip.a = 192 ∧ ip.b = 168) ∨ (ip.a = 198 ∧ (ip.b = 18 ∨ ip.b = 19)) ∨
    (ip.a = 198 ∧ ip.b = 51 ∧ ip.c = 100) ∨ (ip.a = 203 ∧ ip.b = 0 ∧ ip.c = 113) ∨
    240 ≤ ip.a := by
  obtain ⟨a, b, c, d⟩ := ip
  simp only [isSpecial, special4, List.any_cons, List.any_nil, Bool.or_false, Bool.or_eq_true,
    Cidr.contains, beq_iff_eq, bits]
  -- each block is a test of its first octets
  refine or_congr ?_ (or_congr ?_ (or_congr ?_ (or_congr ?_ (or_congr ?_ (or_congr ?_
    (or_congr ?_ (or_congr ?_ (or_congr ?_ (or_congr ?_ (or_congr ?_ (or_congr ?_ ?_)))))))))))
  all_goals bv_omega

theorem ipv4IsPublic_iff (ip : Ipv4Addr) :
    ipv4IsPublic ip = true ↔ ip.isSpecial = false ∨ ip.isMissed = true := by
  rw [← Bool.not_eq_true, Ipv4Addr.isSpecial_iff]
  obtain ⟨a, b, c, d⟩ := ip
  have hbr : a = 255 ∧ b = 255 ∧ c = 255 ∧ d = 255 → 240 ≤ a := by
    rintro ⟨rfl, -⟩
    decide
  simp only [ipv4IsPublic, Ipv4Addr.isUnspecified, Ipv4Addr.isLoopback, Ipv4Addr.isPrivate,
    Ipv4Addr.isLinkLocal, Ipv4Addr.isBroadcast, Ipv4Addr.isDocumentation, Ipv4Addr.isMissed,
    Bool.or_eq_true, Bool.and_eq_true, beq_iff_eq, bne_iff_ne, ne_eq, decide_eq_true_eq,
    Ipv4Addr.mk.injEq, Bool.if_false_left, Bool.not_eq_true', decide_eq_false_iff_not, ge_iff_le,
    Bool.and_true]
  -- the first octet decides which of the tests matter
  by_cases hf : a ∈ [0, 10, 100, 127, 169, 172, 192, 198, 203]
  · simp only [List.mem_cons, List.not_mem_nil, or_false] at hf
    rcases hf with rfl | rfl | rfl | rfl | rfl | rfl | rfl | rfl | rfl
    all_goals simp
    all_goals tauto
  · simp only [List.mem_cons, List.not_mem_nil, or_false, not_or] at hf
    simp only [hf, false_and, or_false, false_or, not_false_eq_true, true_and]
    tauto

theorem and_eq_iff (x : BitVec 16) :
    (x &&& 0xff00#16 = 0xff00#16 ↔ x.toNat / 2 ^ 8 = 0xff) ∧
      (x &&& 0xfe00#16 = 0xfc00#16 ↔ x.toNat / 2 ^ 9 = 0x7e) ∧
      (x &&& 0xffc0#16 = 0xfe80#16 ↔ x.toNat / 2 ^ 6 = 0x3fa) := by
  have hm : x &&& 0xff00#16 = (x >>> 8) <<< 8 ∧ x &&& 0xfe00#16 = (x >>> 9) <<< 9 ∧
      x &&& 0xffc0#16 = (x >>> 6) <<< 6 := by
    refine ⟨?_, ?_, ?_⟩
    all_goals
      ext i hi
      interval_cases i <;> simp
  rw [hm.1, hm.2.1, hm.2.2]
  refine ⟨?_, ?_, ?_⟩ <;> bv_omega

theorem Ipv6Addr.isSpecial_iff (ip : Ipv6Addr) : ip.isSpecial = true ↔
    ip = ⟨0, 0, 0, 0, 0, 0, 0, 0⟩ ∨ ip = ⟨0, 0, 0, 0, 0, 0, 0, 1⟩ ∨ ip.a.toNat / 2 ^ 8 = 0xff ∨
    ip.a.toNat / 2 ^ 9 = 0x7e ∨ ip.a.toNat / 2 ^ 6 = 0x3fa ∨ (ip.a = 0x2001 ∧ ip.b = 0x0db8) := by
  obtain ⟨a, b, c, d, e, f, g, h⟩ := ip
  simp only [isSpecial, special6, List.any_cons, List.any_nil, Bool.or_false, Bool.or_eq_true,
    Cidr.contains, beq_iff_eq, bits, Ipv6Addr.mk.injEq]
  refine or_congr ?_ (or_congr ?_ (or_congr ?_ (or_congr ?_ (or_congr ?_ ?_))))
  all_goals bv_omega

theorem ipv6IsPublic_eq (ip : Ipv6Addr) : ipv6IsPublic ip = !ip.isSpecial := by
  obtain ⟨hm, hlo, hl⟩ := and_eq_iff ip.a
  rw [Bool.eq_iff_iff, Bool.not_eq_true', ← Bool.not_eq_true, Ipv6Addr.isSpecial_iff, ← hm,
    ← hlo, ← hl]
  simp only [ipv6IsPublic, Ipv6Addr.isUnspecified, Ipv6Addr.isLoopback, Ipv6Addr.isMulticast,
    Bool.or_eq_true, Bool.and_eq_true, beq_iff_eq, Bool.if_false_left, Bool.not_eq_true',
    decide_eq_false_iff_not, Bool.and_true, not_or, and_assoc]

theorem Ipv6Addr.of_mapped {ip : Ipv6Addr} {v4 : Ipv4Addr} (h : ip.toIpv4Mapped = some v4) :
    ip.isSpecial = false ∧ ip.carried = some v4 := by
  rw [toIpv4Mapped, Option.ite_none_right_eq_some] at h
  obtain ⟨hm, ⟨⟩⟩ := h
  simp only [Bool.and_eq_true, beq_iff_eq] at hm
  obtain ⟨⟨⟨⟨⟨ha, hb⟩, hc⟩, hd⟩, he⟩, hf⟩ := hm
  obtain ⟨a, b, c, d, e, f, g, h⟩ := ip
  subst ha hb hc hd he hf
  constructor
  · rw [← Bool.not_eq_true, isSpecial_iff]
    simp
  · have hbl : (⟨0xffff * 2 ^ 32, 96⟩ : Cidr 128).contains
        (bits ⟨0, 0, 0, 0, 0, 0xffff, g, h⟩) = true := by
      simp only [Cidr.contains, bits, beq_iff_eq]
      bv_omega
    rw [carried, hbl]
    rfl

/-- **Which special addresses the guard admits**: those it misses, and no others. -/
theorem guard_admits_special_iff (ip : IpAddr) :
    ipIsPublic ip = true ∧ ip.isSpecial = true ↔ ip.isMissed = true := by
  have hv4 (v4 : Ipv4Addr) : ipv4IsPublic v4 = true ∧ v4.isSpecial = true ↔ v4.isMissed = true := by
    have hspec : v4.isMissed = true → v4.isSpecial = true := by
      intro h
      rw [Ipv4Addr.isMissed, Bool.and_eq_true, beq_iff_eq] at h
      exact v4.isSpecial_iff.2 (.inl h.1)
    rw [ipv4IsPublic_iff]
    cases hs : v4.isSpecial <;> simp_all
  cases ip with
  | v4 ip => exact hv4 ip
  | v6 ip =>
    rw [ipIsPublic, IpAddr.isSpecial, IpAddr.isMissed]
    cases hmapped : ip.toIpv4Mapped with
    | some v4 =>
      obtain ⟨hblock, hcarries⟩ := Ipv6Addr.of_mapped hmapped
      rw [hblock, hcarries, Bool.false_or, Option.any_some]
      exact hv4 v4
    | none =>
      dsimp only
      rw [ipv6IsPublic_eq, Bool.and_eq_true, Bool.or_eq_true]
      cases ip.isSpecial <;> simp

theorem guard_admits_carried_loopback :
    [IpAddr.v4 ⟨0, 0, 0, 1⟩, .v6 ⟨0, 0, 0, 0, 0, 0, 0x7f00, 1⟩,
      .v6 ⟨0x64, 0xff9b, 0, 0, 0, 0, 0x7f00, 1⟩, .v6 ⟨0x2002, 0x7f00, 1, 0, 0, 0, 0, 0⟩].all
        (fun ip => ipIsPublic ip && ip.isSpecial) = true := by decide

end OpenWorkersRunner.NetGuard
