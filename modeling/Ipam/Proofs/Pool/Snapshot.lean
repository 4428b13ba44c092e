import Mathlib.Data.List.Nodup
import Ipam.Pool

/-!
# Snapshots of a pool

A snapshot lists just the pairs that are held, each of them once (`Pool.mem_slotsOf_snapshot`,
`Pool.nodup_slotsOf_snapshot`), and the pool that is made of a list of pairs holds just the pairs that
are listed (`Pool.mem_restore`). So a pool is the one that is made of its snapshot
(`Pool.restore_snapshot`).
-/

namespace Ipam

theorem OrderedSet.nodup_toList {α : Type} [Ranked α] (s : OrderedSet α) : s.toList.Nodup := by
  refine s.ascending.imp ?_
  rintro a b h rfl
  exact Nat.lt_irrefl _ h

namespace Pool

theorem mem_slotsOf {l : List Allocation} {x : Slot} :
    x ∈ slotsOf l ↔ ∃ e ∈ l, e.parent = x.1 ∧ x.2 ∈ e.addresses := by
  simp only [slotsOf, List.mem_flatMap, List.mem_map, Prod.ext_iff]
  constructor
  · rintro ⟨e, he, a, ha, hp, rfl⟩
    exact ⟨e, he, hp, ha⟩
  · rintro ⟨e, he, hp, ha⟩
    exact ⟨e, he, x.2, ha, hp, rfl⟩

theorem mem_slotsOf_snapshot {pool : Pool} {x : Slot} :
    x ∈ slotsOf pool.snapshot ↔ x ∈ pool.held := by
  rw [mem_slotsOf]
  constructor
  · rintro ⟨e, he, hp, ha⟩
    obtain ⟨p, -, rfl⟩ := List.mem_map.1 he
    have hx : (p, x.2) ∈ pool.held := mem_addressesOf.1 ha
    rwa [show p = x.1 from hp] at hx
  · intro hx
    exact ⟨⟨x.1, pool.addressesOf x.1⟩, List.mem_map_of_mem (pool.held_known x hx), rfl,
      mem_addressesOf.2 hx⟩

theorem nodup_addressesOf (pool : Pool) (p : Prefix) : (pool.addressesOf p).Nodup := by
  refine pool.held.nodup_toList.filterMap ?_
  intro x y a hx hy
  simp only [Option.mem_def, Option.ite_none_right_eq_some, Option.some.injEq] at hx hy
  exact Prod.ext (hx.1.trans hy.1.symm) (hx.2.trans hy.2.symm)

theorem nodup_slotsOf_snapshot (pool : Pool) : (slotsOf pool.snapshot).Nodup := by
  have hall : slotsOf pool.snapshot =
      pool.known.toList.flatMap fun p => (pool.addressesOf p).map fun a => (p, a) := by
    rw [slotsOf, snapshot, List.flatMap_map]
  rw [hall, List.nodup_flatMap]
  refine ⟨fun p _ => (pool.nodup_addressesOf p).map fun a b h => (Prod.ext_iff.1 h).2, ?_⟩
  refine pool.known.nodup_toList.imp fun {p q} hne => ?_
  -- the pairs of two prefixes differ in the prefix
  rintro x hx hx'
  obtain ⟨a, -, rfl⟩ := List.mem_map.1 hx
  obtain ⟨b, -, he⟩ := List.mem_map.1 hx'
  exact hne (Prod.ext_iff.1 he).1.symm

theorem mem_restore {l : List Allocation} {x : Slot} : x ∈ (restore l).held ↔ x ∈ slotsOf l :=
  OrderedSet.mem_ofList

theorem mem_known_restore {l : List Allocation} {p : Prefix} :
    p ∈ (restore l).known ↔ p ∈ l.map Allocation.parent :=
  OrderedSet.mem_ofList

theorem map_parent_snapshot (pool : Pool) :
    pool.snapshot.map Allocation.parent = pool.known.toList := by
  rw [snapshot, List.map_map]
  exact List.map_id _

/-- A pool is given by the prefixes it has heard of and the pairs that are held. -/
theorem ext {pool pool' : Pool} (hknown : ∀ p, p ∈ pool.known ↔ p ∈ pool'.known)
    (hheld : ∀ x, x ∈ pool.held ↔ x ∈ pool'.held) : pool = pool' := by
  obtain ⟨known, held, hk⟩ := pool
  obtain ⟨known', held', hk'⟩ := pool'
  obtain rfl : known = known' := OrderedSet.ext hknown
  obtain rfl : held = held' := OrderedSet.ext hheld
  rfl

/-- The pool that is made of a snapshot of a pool is that pool. -/
theorem restore_snapshot (pool : Pool) : restore pool.snapshot = pool := by
  refine ext (fun p => ?_) fun x => mem_restore.trans mem_slotsOf_snapshot
  rw [mem_known_restore, map_parent_snapshot, OrderedSet.mem_def]

/-- Just the lists that are snapshots are those of the pools that are made of them. -/
theorem snapshot_restore_iff {l : List Allocation} :
    (restore l).snapshot = l ↔ ∃ pool : Pool, l = pool.snapshot := by
  constructor
  · exact fun h => ⟨restore l, h.symm⟩
  · rintro ⟨pool, rfl⟩
    rw [restore_snapshot]

end Pool

end Ipam
