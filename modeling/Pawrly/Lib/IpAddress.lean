import Mathlib.Tactic.Common
import Mathlib.Algebra.GroupWithZero.Nat
import Mathlib.Data.Nat.Bits
import Mathlib.Data.Fin.Basic

/-!
# IP addresses

IPv4 and IPv6 addresses by their octets and segments, blocks of addresses in CIDR notation, the
special-purpose blocks as tests on octets and segments, and the IPv4 address that an IPv6 address
may carry.
-/

namespace IpAddress

instance octet_neZero : NeZero (256 : ℕ) := ⟨Nat.succ_ne_zero 255⟩

instance segment_neZero : NeZero (65536 : ℕ) := ⟨Nat.succ_ne_zero 65535⟩

/-- An IPv4 address, by its octets. -/
structure Ipv4 where
  a : Fin 256
  b : Fin 256
  c : Fin 256
  d : Fin 256
  deriving DecidableEq

/-- An IPv6 address, by its segments. -/
structure Ipv6 where
  s0 : Fin 65536
  s1 : Fin 65536
  s2 : Fin 65536
  s3 : Fin 65536
  s4 : Fin 65536
  s5 : Fin 65536
  s6 : Fin 65536
  s7 : Fin 65536
  deriving DecidableEq

inductive IpAddr
  | v4 (addr : Ipv4)
  | v6 (addr : Ipv6)
  deriving DecidableEq

/-- The high bits of a word under a mask of `m` bits at the position `k`. -/
lemma land_mask (n m k : ℕ) : n &&& ((2 ^ m - 1) * 2 ^ k) = n / 2 ^ k % 2 ^ m * 2 ^ k := by
  apply Nat.eq_of_testBit_eq
  intro i
  rw [Nat.testBit_and, ← Nat.shiftLeft_eq, ← Nat.shiftLeft_eq, Nat.testBit_shiftLeft,
    Nat.testBit_shiftLeft, Nat.testBit_two_pow_sub_one, Nat.testBit_mod_two_pow,
    Nat.testBit_div_two_pow]
  by_cases h : k ≤ i
  · rw [Nat.sub_add_cancel h]
    simp only [h, decide_true, Bool.true_and]
    exact Bool.and_comm _ _
  · simp only [h, decide_false, Bool.false_and, Bool.and_false]

/-! ## IPv4 -/

namespace Ipv4

/-- The address as a number of 32 bits. -/
def toNat (x : Ipv4) : ℕ := ((x.a * 256 + x.b) * 256 + x.c) * 256 + x.d

/-- The address has the leading bits of the block. -/
def InBlock (x net : Ipv4) (bits : ℕ) : Prop :=
  x.toNat / 2 ^ (32 - bits) = net.toNat / 2 ^ (32 - bits)

instance (x net : Ipv4) (bits : ℕ) : Decidable (x.InBlock net bits) :=
  inferInstanceAs (Decidable (_ = _))

def isLoopback (x : Ipv4) : Bool := x.a = 127

def isLinkLocal (x : Ipv4) : Bool := x.a = 169 && x.b = 254

def isUnspecified (x : Ipv4) : Bool := x.a = 0 && x.b = 0 && x.c = 0 && x.d = 0

def isBroadcast (x : Ipv4) : Bool := x.a = 255 && x.b = 255 && x.c = 255 && x.d = 255

def isPrivate (x : Ipv4) : Bool :=
  x.a = 10 || (x.a = 172 && (16 ≤ x.b && x.b ≤ 31)) || (x.a = 192 && x.b = 168)

/-- The dotted decimal form. -/
def display (x : Ipv4) : String :=
  let octets : List ℕ := [x.a, x.b, x.c, x.d]
  ".".intercalate (octets.map toString)

lemma isLinkLocal_iff (x : Ipv4) : x.isLinkLocal = true ↔ x.InBlock ⟨169, 254, 0, 0⟩ 16 := by
  obtain ⟨a, b, c, d⟩ := x
  have := a.isLt; have := b.isLt; have := c.isLt; have := d.isLt
  simp [isLinkLocal, InBlock, toNat, Fin.ext_iff]
  omega

lemma isUnspecified_iff (x : Ipv4) : x.isUnspecified = true ↔ x = ⟨0, 0, 0, 0⟩ := by
  obtain ⟨a, b, c, d⟩ := x
  simp [isUnspecified, and_assoc]

lemma isBroadcast_iff (x : Ipv4) : x.isBroadcast = true ↔ x = ⟨255, 255, 255, 255⟩ := by
  obtain ⟨a, b, c, d⟩ := x
  simp [isBroadcast, and_assoc]

lemma isPrivate_iff (x : Ipv4) : x.isPrivate = true ↔ x.InBlock ⟨10, 0, 0, 0⟩ 8 ∨
    x.InBlock ⟨172, 16, 0, 0⟩ 12 ∨ x.InBlock ⟨192, 168, 0, 0⟩ 16 := by
  obtain ⟨a, b, c, d⟩ := x
  have := a.isLt; have := b.isLt; have := c.isLt; have := d.isLt
  simp [isPrivate, InBlock, toNat, Fin.ext_iff, Fin.le_def]
  omega

/-- The shared address space of carriers, 100.64.0.0/10, on octets. -/
lemma shared_iff (x : Ipv4) :
    (x.a = 100 ∧ 64 ≤ (x.b : ℕ) ∧ (x.b : ℕ) < 128) ↔ x.InBlock ⟨100, 64, 0, 0⟩ 10 := by
  obtain ⟨a, b, c, d⟩ := x
  have := a.isLt; have := b.isLt; have := c.isLt; have := d.isLt
  simp [InBlock, toNat, Fin.ext_iff]
  omega

end Ipv4

/-! ## IPv6 -/

namespace Ipv6

/-- The address as a number of 128 bits. -/
def toNat (x : Ipv6) : ℕ :=
  ((((((x.s0 * 65536 + x.s1) * 65536 + x.s2) * 65536 + x.s3) * 65536 + x.s4) * 65536 + x.s5) *
    65536 + x.s6) * 65536 + x.s7

/-- The address has the leading bits of the block. -/
def InBlock (x net : Ipv6) (bits : ℕ) : Prop :=
  x.toNat / 2 ^ (128 - bits) = net.toNat / 2 ^ (128 - bits)

instance (x net : Ipv6) (bits : ℕ) : Decidable (x.InBlock net bits) :=
  inferInstanceAs (Decidable (_ = _))

/-- `::1`. -/
def isLoopback (x : Ipv6) : Bool := x = ⟨0, 0, 0, 0, 0, 0, 0, 1⟩

/-- `::`. -/
def isUnspecified (x : Ipv6) : Bool := x = ⟨0, 0, 0, 0, 0, 0, 0, 0⟩

lemma linkLocal_iff (x : Ipv6) :
    (x.s0 : ℕ) &&& 0xffc0 = 0xfe80 ↔ x.InBlock ⟨0xfe80, 0, 0, 0, 0, 0, 0, 0⟩ 10 := by
  obtain ⟨s0, s1, s2, s3, s4, s5, s6, s7⟩ := x
  have := s0.isLt; have := s1.isLt; have := s2.isLt; have := s3.isLt
  have := s4.isLt; have := s5.isLt; have := s6.isLt; have := s7.isLt
  show _ &&& ((2 ^ 10 - 1) * 2 ^ 6) = _ ↔ _
  rw [land_mask]
  simp [InBlock, toNat]
  omega

lemma uniqueLocal_iff (x : Ipv6) :
    (x.s0 : ℕ) &&& 0xfe00 = 0xfc00 ↔ x.InBlock ⟨0xfc00, 0, 0, 0, 0, 0, 0, 0⟩ 7 := by
  obtain ⟨s0, s1, s2, s3, s4, s5, s6, s7⟩ := x
  have := s0.isLt; have := s1.isLt; have := s2.isLt; have := s3.isLt
  have := s4.isLt; have := s5.isLt; have := s6.isLt; have := s7.isLt
  show _ &&& ((2 ^ 7 - 1) * 2 ^ 9) = _ ↔ _
  rw [land_mask]
  simp [InBlock, toNat]
  omega

/-! ### Carried IPv4 addresses -/

/-- The IPv4 address of two segments. -/
def pair (hi lo : Fin 65536) : Ipv4 where
  a := ⟨hi / 256, by omega⟩
  b := ⟨hi % 256, by omega⟩
  c := ⟨lo / 256, by omega⟩
  d := ⟨lo % 256, by omega⟩

/-- `to_ipv4_mapped`: the address of `::ffff:0:0/96`. -/
def mapped (x : Ipv6) : Option Ipv4 :=
  if x.s0 = 0 ∧ x.s1 = 0 ∧ x.s2 = 0 ∧ x.s3 = 0 ∧ x.s4 = 0 ∧ x.s5 = 0xffff then
    some (pair x.s6 x.s7)
  else none

/-- The IPv4-compatible address of `::/96`.  The two addresses of the block that have a meaning of
their own carry nothing. -/
def compatible (x : Ipv6) : Option Ipv4 :=
  if x.isUnspecified || x.isLoopback then none
  else if x.s0 = 0 ∧ x.s1 = 0 ∧ x.s2 = 0 ∧ x.s3 = 0 ∧ x.s4 = 0 ∧ x.s5 = 0 then
    some (pair x.s6 x.s7)
  else none

/-- The address that a NAT64 gateway translates to, of `64:ff9b::/96`. -/
def nat64 (x : Ipv6) : Option Ipv4 :=
  if x.s0 = 0x64 ∧ x.s1 = 0xff9b ∧ x.s2 = 0 ∧ x.s3 = 0 ∧ x.s4 = 0 ∧ x.s5 = 0 then
    some (pair x.s6 x.s7)
  else none

/-- The address of the 6to4 router, of `2002::/16`. -/
def sixToFour (x : Ipv6) : Option Ipv4 :=
  if x.s0 = 0x2002 then some (pair x.s1 x.s2) else none

/-- The address that is carried by another form than the mapped one. -/
def translated (x : Ipv6) : Option Ipv4 := (x.compatible.or x.nat64).or x.sixToFour

/-- The first segment of an address of the translated forms; it is not a mapped one. -/
lemma translated_spec {x : Ipv6} {v : Ipv4} (h : x.translated = some v) :
    (x.s0 = 0 ∨ x.s0 = 0x64 ∨ x.s0 = 0x2002) ∧ x ≠ ⟨0, 0, 0, 0, 0, 0, 0, 0⟩ ∧ x.mapped = none := by
  unfold translated at h
  rw [Option.or_eq_some_iff, Option.or_eq_some_iff] at h
  have hne : x.s0 ≠ 0 → x ≠ ⟨0, 0, 0, 0, 0, 0, 0, 0⟩ ∧ x.mapped = none := by
    intro hs
    exact ⟨fun hx => hs (by rw [hx]), if_neg fun hm => hs hm.1⟩
  rcases h with (h | ⟨-, h⟩) | ⟨-, h⟩
  · unfold compatible at h
    split_ifs at h with hown hs
    simp only [Bool.or_eq_true, not_or] at hown
    refine ⟨Or.inl hs.1, fun hx => hown.1 (decide_eq_true hx), if_neg fun hm => ?_⟩
    exact absurd (hs.2.2.2.2.2.symm.trans hm.2.2.2.2.2) (by decide)
  · unfold nat64 at h
    split_ifs at h with hs
    exact ⟨Or.inr (Or.inl hs.1), hne (by rw [hs.1]; decide)⟩
  · unfold sixToFour at h
    split_ifs at h with hs
    exact ⟨Or.inr (Or.inr hs), hne (by rw [hs]; decide)⟩

/-- A first segment that is in none of the special blocks of IPv6. -/
lemma not_inBlock_of_s0 {x : Ipv6} (h : x.s0 = 0 ∨ x.s0 = 0x64 ∨ x.s0 = 0x2002) :
    ¬ x.InBlock ⟨0xfe80, 0, 0, 0, 0, 0, 0, 0⟩ 10 ∧ ¬ x.InBlock ⟨0xfc00, 0, 0, 0, 0, 0, 0, 0⟩ 7 := by
  rw [← linkLocal_iff, ← uniqueLocal_iff]
  rcases h with hs | hs | hs <;> rw [hs] <;> decide

lemma mapped_spec {x : Ipv6} {v : Ipv4} (h : x.mapped = some v) :
    x.s0 = 0 ∧ x ≠ ⟨0, 0, 0, 0, 0, 0, 0, 0⟩ := by
  unfold mapped at h
  split_ifs at h with hs
  refine ⟨hs.1, ?_⟩
  rintro rfl
  exact absurd hs.2.2.2.2.2 (by decide)

/-! ### The text form -/

/-- The first longest run of zero segments, by its start and length. -/
def zeroRun : ℕ → ℕ × ℕ → ℕ × ℕ → List ℕ → ℕ × ℕ
  | _, longest, _, [] => longest
  | i, longest, current, seg :: segs =>
      if seg = 0 then
        let current := if current.2 = 0 then (i, 1) else (current.1, current.2 + 1)
        zeroRun (i + 1) (if longest.2 < current.2 then current else longest) current segs
      else zeroRun (i + 1) longest (0, 0) segs

/-- Segments in hexadecimal. -/
def displaySegments (segs : List ℕ) : String :=
  ":".intercalate (segs.map fun n => String.ofList (Nat.toDigits 16 n))

/-- The text form, with the longest run of zeros compressed. -/
def display (x : Ipv6) : String :=
  match x.mapped with
  | some v => "::ffff:" ++ v.display
  | none =>
      let segs : List ℕ := [x.s0, x.s1, x.s2, x.s3, x.s4, x.s5, x.s6, x.s7]
      let run := zeroRun 0 (0, 0) (0, 0) segs
      if 1 < run.2 then
        displaySegments (segs.take run.1) ++ "::" ++ displaySegments (segs.drop (run.1 + run.2))
      else displaySegments segs

end Ipv6

/-! ## Either family -/

namespace IpAddr

def display : IpAddr → String
  | v4 x => x.display
  | v6 x => x.display

/-- The IPv4 address that is carried by another form than the mapped one. -/
def translated : IpAddr → Option Ipv4
  | v4 _ => none
  | v6 x => x.translated

/-- The IPv4 address that is carried in any form. -/
def embedded : IpAddr → Option Ipv4
  | v4 _ => none
  | v6 x => x.mapped.or x.translated

end IpAddr

end IpAddress
