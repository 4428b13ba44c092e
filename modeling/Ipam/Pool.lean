import Std.Data.HashSet
import Ipam.Error

/-!
# The address pool

A pool is an allocator that keeps what it handed out in memory: the set of the pairs of a prefix
and an address that are held, and the set of the prefixes it has heard of. It is asked in texts and
answers in texts. Where it is free to choose an address it takes any of the first `scanLimit` hosts
of the prefix that are not held; `pick` is the choice.
-/

namespace Ipam

/-- A prefix and an address taken from it. -/
abbrev Slot := Prefix × Addr

instance : Ranked Slot where
  rank s := s.1.rank * 2 ^ 129 + s.2.rank
  rank_inj {s t} h := by
    have hs := s.2.rank_lt
    have ht := t.2.rank_lt
    have h1 : s.1 = t.1 := Prefix.rank_inj (by omega)
    have h2 : s.2 = t.2 := Addr.rank_inj (by omega)
    exact Prod.ext h1 h2

/-- Asks for an address of a prefix, a specific one or any. -/
structure AcquireRequest where
  /-- The text of the prefix. -/
  parent : String
  /-- The text of the specific address. -/
  ip : Option String
  deriving DecidableEq, Repr

/-- An address that was handed out. -/
structure AcquireAnswer where
  /-- The text of the address. -/
  ip : String
  /-- The text of the prefix. -/
  parent : String
  deriving DecidableEq, Repr

/-- Gives an address of a prefix back. -/
structure ReleaseRequest where
  /-- The text of the address. -/
  ip : String
  /-- The text of the prefix. -/
  parent : String
  deriving DecidableEq, Repr

/-- The addresses held of one prefix. -/
structure Allocation where
  /-- The prefix. -/
  parent : Prefix
  /-- The addresses. -/
  addresses : List Addr
  deriving DecidableEq

/-- The addresses that are handed out. -/
structure Pool where
  /-- The prefixes heard of. -/
  known : OrderedSet Prefix
  /-- The pairs of a prefix and an address that are handed out. -/
  held : OrderedSet Slot
  /-- Addresses are held only of prefixes heard of. -/
  held_known : ∀ s ∈ held, s.1 ∈ known

namespace Pool

/-- The pool of which nothing is held. -/
def empty : Pool := ⟨∅, ∅, fun _ h => absurd h (OrderedSet.not_mem_empty _)⟩

instance : EmptyCollection Pool := ⟨empty⟩

instance : Inhabited Pool := ⟨∅⟩

/-- Whether an address of a prefix is held. -/
def isHeld (pool : Pool) (p : Prefix) (a : Addr) : Bool := decide ((p, a) ∈ pool.held)

/-- The addresses held of a prefix, in ascending order. -/
def addressesOf (pool : Pool) (p : Prefix) : List Addr :=
  pool.held.toList.filterMap fun s => if s.1 = p then some s.2 else none

theorem isHeld_iff {pool : Pool} {p : Prefix} {a : Addr} :
    pool.isHeld p a = true ↔ (p, a) ∈ pool.held := by
  rw [isHeld, decide_eq_true_iff]

theorem mem_addressesOf {pool : Pool} {p : Prefix} {a : Addr} :
    a ∈ pool.addressesOf p ↔ (p, a) ∈ pool.held := by
  rw [addressesOf, List.mem_filterMap, OrderedSet.mem_def]
  constructor
  · rintro ⟨⟨q, b⟩, hs, h⟩
    split at h
    · next hq =>
      cases hq
      cases h
      exact hs
    · cases h
  · exact fun h => ⟨(p, a), h, if_pos rfl⟩

/-- The pool that has heard of a prefix. -/
def learn (pool : Pool) (p : Prefix) : Pool where
  known := pool.known.insert p
  held := pool.held
  held_known s h := OrderedSet.mem_insert.2 (.inr (pool.held_known s h))

/-- The pool with an address of a prefix held. -/
def hold (pool : Pool) (p : Prefix) (a : Addr) : Pool where
  known := pool.known.insert p
  held := pool.held.insert (p, a)
  held_known s h := by
    rcases OrderedSet.mem_insert.1 h with rfl | h
    · exact OrderedSet.mem_insert.2 (.inl rfl)
    · exact OrderedSet.mem_insert.2 (.inr (pool.held_known s h))

/-- The pool with an address of a prefix given back. -/
def drop (pool : Pool) (p : Prefix) (a : Addr) : Pool where
  known := pool.known
  held := pool.held.erase (p, a)
  held_known s h := pool.held_known s (OrderedSet.mem_erase.1 h).2

/-! ## Requests -/

/-- An error for an argument that is wrong. -/
def invalid (detail : String) : AllocatorError := ⟨.invalidArgument, detail⟩

/-- The prefix that a request names. -/
def readPrefix (raw : String) : Except AllocatorError Prefix :=
  match Prefix.parse? raw with
  | some p => .ok p
  | none => .error (invalid ("invalid prefix " ++ Text.quoted raw ++ ": " ++ Addr.syntaxMessage))

/-- The address that a request names. -/
def readAddr (raw : String) : Except AllocatorError Addr :=
  match Addr.parse? raw with
  | some a => .ok a
  | none => .error (invalid ("invalid ip " ++ Text.quoted raw ++ ": " ++ Addr.syntaxMessage))

/-- The largest number of free hosts between which the choice is made. -/
def scanLimit : Nat := 256

/-- The free hosts of a prefix between which the choice is made. The addresses that are held are
looked up in a hash table of their ranks (`candidates_eq`). -/
def candidates (pool : Pool) (p : Prefix) : List Addr :=
  let ranks := Std.HashSet.ofList ((pool.addressesOf p).map Addr.rank)
  p.freeHosts (fun a => ranks.contains a.rank) scanLimit

theorem candidates_eq (pool : Pool) (p : Prefix) :
    pool.candidates p = p.freeHosts (pool.isHeld p) scanLimit := by
  have h : (fun a : Addr =>
      (Std.HashSet.ofList ((pool.addressesOf p).map Addr.rank)).contains a.rank)
        = pool.isHeld p := by
    funext a
    rw [Std.HashSet.contains_ofList, Bool.eq_iff_iff, List.contains_iff_mem, List.mem_map,
      isHeld_iff]
    constructor
    · rintro ⟨b, hb, hr⟩
      cases Addr.rank_inj hr
      exact mem_addressesOf.1 hb
    · exact fun h => ⟨a, mem_addressesOf.2 h, rfl⟩
  simp only [candidates, h]

/-- The element of a list that a number picks; any number picks one, if there is one. -/
def choose {α : Type} (pick : Nat) (l : List α) : Option α := l[pick % l.length]?

/-- The address to hand out for a request: the specific one, which must lie in the prefix and be
free, or the one picked. -/
def select (pool : Pool) (pick : Nat) (p : Prefix) (ip : Option String) :
    Except AllocatorError Addr :=
  match ip with
  | some raw => do
    let a ← readAddr raw
    if !p.contains a then
      throw (invalid ("ip " ++ a.text ++ " is not part of prefix " ++ p.text))
    if pool.isHeld p a then
      throw ⟨.alreadyExists, "ip " ++ a.text ++ " already allocated"⟩
    return a
  | none =>
    match choose pick (pool.candidates p) with
    | some a => .ok a
    | none => .error ⟨.notFound, "no more ips in prefix " ++ p.text⟩

/-- Hands out an address. A prefix that can be read is heard of even if nothing is handed out. -/
def acquire (pool : Pool) (pick : Nat) (req : AcquireRequest) :
    Except AllocatorError AcquireAnswer × Pool :=
  match readPrefix req.parent with
  | .error e => (.error e, pool)
  | .ok p =>
    match pool.select pick p req.ip with
    | .error e => (.error e, pool.learn p)
    | .ok a => (.ok ⟨a.text, p.text⟩, pool.hold p a)

/-- Takes an address back. -/
def release (pool : Pool) (req : ReleaseRequest) : Except AllocatorError Unit × Pool :=
  match readPrefix req.parent with
  | .error e => (.error e, pool)
  | .ok p =>
    match readAddr req.ip with
    | .error e => (.error e, pool)
    | .ok a =>
      if pool.isHeld p a then (.ok (), pool.drop p a)
      else
        (.error ⟨.notFound, "ip " ++ a.text ++ " is not allocated in prefix " ++ p.text⟩, pool)

/-! ## Snapshots -/

/-- What is held, for each prefix heard of in ascending order. -/
def snapshot (pool : Pool) : List Allocation :=
  pool.known.toList.map fun p => ⟨p, pool.addressesOf p⟩

/-- The pairs of a prefix and an address that a snapshot lists. -/
def slotsOf (l : List Allocation) : List Slot :=
  l.flatMap fun e => e.addresses.map fun a => (e.parent, a)

/-- The pool of which exactly the pairs in a snapshot are held. -/
def restore (l : List Allocation) : Pool where
  known := .ofList (l.map (·.parent))
  held := .ofList (slotsOf l)
  held_known s h := by
    rw [OrderedSet.mem_ofList] at h ⊢
    obtain ⟨e, he, hs⟩ := List.mem_flatMap.1 h
    obtain ⟨a, _, rfl⟩ := List.mem_map.1 hs
    exact List.mem_map.2 ⟨e, he, rfl⟩

/-- The pool once nothing is held any more. -/
def clear (_ : Pool) : Pool := ∅

/-- The pool with all that an entry of a snapshot lists held besides. -/
def absorb (pool : Pool) (e : Allocation) : Pool :=
  e.addresses.foldl (fun pool a => pool.hold e.parent a) (pool.learn e.parent)

/-- The pool after a snapshot has taken the place of all that was held, one entry after the other. -/
def reset (pool : Pool) (l : List Allocation) : Pool := l.foldl absorb pool.clear

end Pool

end Ipam
