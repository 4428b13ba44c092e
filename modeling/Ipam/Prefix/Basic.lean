import Ipam.Address.Basic
import Ipam.OrderedSet

/-!
# Prefixes

A prefix is an address together with a count of leading bits. The address keeps its host bits, so
`10.0.0.5/24` and `10.0.0.0/24` are different prefixes; both contain the addresses that agree with
them on the first 24 bits. The hosts of a prefix are the addresses that may be handed out from it:
all it contains, except the first and the last of a version 4 prefix of fewer than 31 bits.
-/

namespace Ipam

/-- An address with a count of leading bits. -/
structure Prefix where
  /-- The address, host bits included. -/
  addr : Addr
  /-- The count of leading bits that all contained addresses share. -/
  len : Nat
  /-- There are no more leading bits than bits. -/
  len_le : len ≤ addr.family.width
  deriving DecidableEq

namespace Prefix

/-- The address family of a prefix. -/
def family (p : Prefix) : Family := p.addr.family

/-- The prefix of an address and a length, if the length fits the family. -/
def ofAddr? (a : Addr) (len : Nat) : Option Prefix :=
  if h : len ≤ a.family.width then some ⟨a, len, h⟩ else none

/-- The number of addresses in a prefix. -/
def size (p : Prefix) : Nat := 2 ^ (p.family.width - p.len)

/-- The number of the first address in a prefix. -/
def first (p : Prefix) : Nat := p.addr.value - p.addr.value % p.size

/-- The number of the last address in a prefix. -/
def last (p : Prefix) : Nat := p.first + (p.size - 1)

/-- Whether a prefix contains an address. -/
def contains (p : Prefix) (a : Addr) : Bool :=
  decide (a.family = p.family) && decide (p.first ≤ a.value) && decide (a.value ≤ p.last)

theorem contains_iff {p : Prefix} {a : Addr} :
    p.contains a = true ↔ a.family = p.family ∧ p.first ≤ a.value ∧ a.value ≤ p.last := by
  simp [contains, and_assoc]

theorem size_pos (p : Prefix) : 0 < p.size := Nat.pow_pos (by decide)

theorem last_lt (p : Prefix) : p.last < 2 ^ p.family.width := by
  have hv : p.addr.value < 2 ^ p.family.width := p.addr.value_lt
  have hs := p.size_pos
  have hl : p.len ≤ p.family.width := p.len_le
  have hw : 2 ^ p.family.width = p.size * 2 ^ p.len := by
    rw [size, ← Nat.pow_add, Nat.sub_add_cancel hl]
  have hq : p.addr.value / p.size < 2 ^ p.len := by
    rw [hw, Nat.mul_comm] at hv
    exact Nat.div_lt_of_lt_mul (by rw [Nat.mul_comm]; exact hv)
  have hf : p.first = p.size * (p.addr.value / p.size) := by
    have := Nat.div_add_mod p.addr.value p.size
    unfold first
    omega
  have hm : p.size * (p.addr.value / p.size + 1) ≤ p.size * 2 ^ p.len :=
    Nat.mul_le_mul_left _ hq
  rw [Nat.mul_add, Nat.mul_one] at hm
  unfold last
  omega

/-- The place of a prefix in the order of all prefixes: by address, then by length. -/
def rank (p : Prefix) : Nat := p.addr.rank * 129 + p.len

theorem len_lt (p : Prefix) : p.len < 129 := by
  have h := p.len_le
  cases hf : p.addr.family <;> rw [hf] at h <;> simp only [Family.width] at h <;> omega

theorem rank_inj {p q : Prefix} (h : p.rank = q.rank) : p = q := by
  have hp := p.len_lt
  have hq := q.len_lt
  have ha : p.addr = q.addr := Addr.rank_inj (by unfold rank at h; omega)
  have hl : p.len = q.len := by unfold rank at h; omega
  obtain ⟨pa, pl, _⟩ := p
  obtain ⟨qa, ql, _⟩ := q
  cases ha
  cases hl
  rfl

/-! ## Hosts -/

/-- Whether the first and the last address of a prefix are not hosts. -/
def isBroadcast (p : Prefix) : Bool :=
  decide (p.family = .v4) && decide (p.len < 31)

/-- The number of the first host of a prefix. -/
def firstHost (p : Prefix) : Nat := if p.isBroadcast then p.first + 1 else p.first

/-- The number of the last host of a prefix. -/
def lastHost (p : Prefix) : Nat := if p.isBroadcast then p.last - 1 else p.last

/-- Whether an address may be handed out from a prefix. -/
def isHost (p : Prefix) (a : Addr) : Bool :=
  decide (a.family = p.family) && decide (p.firstHost ≤ a.value) && decide (a.value ≤ p.lastHost)

theorem lastHost_lt (p : Prefix) : p.lastHost < 2 ^ p.family.width := by
  have := p.last_lt
  unfold lastHost
  split <;> omega

/-- The first `limit` hosts from number `n` on that are not `taken`, in ascending order. -/
def freeFrom (p : Prefix) (taken : Addr → Bool) (limit n : Nat) : List Addr :=
  if h : n ≤ p.lastHost then
    match limit with
    | 0 => []
    | limit + 1 =>
      let a : Addr := ⟨p.family, n, Nat.lt_of_le_of_lt h p.lastHost_lt⟩
      if taken a then freeFrom p taken (limit + 1) (n + 1)
      else a :: freeFrom p taken limit (n + 1)
  else []
termination_by p.lastHost + 1 - n

/-- The first `limit` hosts of a prefix that are not `taken`, in ascending order. -/
def freeHosts (p : Prefix) (taken : Addr → Bool) (limit : Nat) : List Addr :=
  p.freeFrom taken limit p.firstHost

end Prefix

instance : Ranked Addr := ⟨Addr.rank, Addr.rank_inj⟩

instance : Ranked Prefix := ⟨Prefix.rank, Prefix.rank_inj⟩

end Ipam
