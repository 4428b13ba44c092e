import Ipam.Text.Numeral

/-!
# Addresses

An address is a number below the size of its family: 32 bits for version 4, 128 bits for version
6. Addresses are ordered by `rank`, which puts every version 4 address before every version 6
address and is otherwise the numeric order.
-/

namespace Ipam

/-- The two address families. -/
inductive Family where
  /-- Version 4, 32 bits. -/
  | v4
  /-- Version 6, 128 bits. -/
  | v6
  deriving DecidableEq, Repr

/-- The number of bits of an address of the family. -/
def Family.width : Family → Nat
  | .v4 => 32
  | .v6 => 128

/-- The family as messages name it. -/
def Family.name : Family → String
  | .v4 => "IPv4"
  | .v6 => "IPv6"

/-- An internet address. -/
structure Addr where
  /-- The address family. -/
  family : Family
  /-- The address as a number, its first octet most significant. -/
  value : Nat
  /-- The number fits the family. -/
  value_lt : value < 2 ^ family.width
  deriving DecidableEq

namespace Addr

/-- The address of a family with a given number, if the number fits. -/
def ofNat? (family : Family) (value : Nat) : Option Addr :=
  if h : value < 2 ^ family.width then some ⟨family, value, h⟩ else none

/-- The place of an address in the order of all addresses. -/
def rank (a : Addr) : Nat :=
  match a.family with
  | .v4 => a.value
  | .v6 => 2 ^ 32 + a.value

theorem ext {a b : Addr} (hf : a.family = b.family) (hv : a.value = b.value) : a = b := by
  obtain ⟨fa, va, ha⟩ := a
  obtain ⟨fb, vb, hb⟩ := b
  cases hf
  cases hv
  rfl

theorem rank_inj {a b : Addr} (h : a.rank = b.rank) : a = b := by
  obtain ⟨fa, va, ha⟩ := a
  obtain ⟨fb, vb, hb⟩ := b
  cases fa <;> cases fb <;> simp only [rank, Family.width] at h ha hb
  · cases h; rfl
  · omega
  · omega
  · have : va = vb := by omega
    cases this
    rfl

theorem rank_lt (a : Addr) : a.rank < 2 ^ 129 := by
  obtain ⟨fa, va, ha⟩ := a
  cases fa <;> simp only [rank, Family.width] at ha ⊢ <;> omega

end Addr

end Ipam
