import Ipam.Proofs.Pool.Snapshot

/-!
# Snapshots as normal forms

A list of what is held may name a prefix in several entries, in any order, and an address more than
once. Resetting a pool to it makes the listed pairs held and no others, whatever was held before, and
the snapshot that follows is the normal form of the list: prefixes and addresses ascend, each there
once, and lists with the same prefixes and pairs have the same normal form. A pool that is reset to
the snapshot of another cannot be told from it by any message that leaves it no choice
(`Pool.snapshots_normal`).
-/

namespace Ipam

/-! ## The order of addresses and prefixes -/

/-- An address comes before another: version 4 before version 6, and in a family by number. -/
def Addr.Precedes (a b : Addr) : Prop :=
  (a.family = .v4 ∧ b.family = .v6) ∨ (a.family = b.family ∧ a.value < b.value)

theorem Addr.rank_lt_rank_iff_precedes {a b : Addr} : a.rank < b.rank ↔ a.Precedes b := by
  obtain ⟨fa, va, ha⟩ := a
  obtain ⟨fb, vb, hb⟩ := b
  cases fa <;> cases fb <;> simp only [rank, Precedes, Family.width] at ha hb ⊢
  · simp
  · simp
    omega
  · simp
    omega
  · simp

/-- A prefix comes before another: by address, and with one address by length. -/
def Prefix.Precedes (p q : Prefix) : Prop :=
  p.addr.Precedes q.addr ∨ (p.addr = q.addr ∧ p.len < q.len)

theorem Prefix.rank_lt_rank_iff_precedes {p q : Prefix} : p.rank < q.rank ↔ p.Precedes q := by
  have hp := p.len_lt
  have hq := q.len_lt
  have haddr : p.addr = q.addr ↔ p.addr.rank = q.addr.rank := ⟨congrArg Addr.rank, Addr.rank_inj⟩
  rw [Precedes, ← Addr.rank_lt_rank_iff_precedes, haddr, rank, rank]
  omega

namespace Pool

variable {pool : Pool} {p : Prefix} {l : List Allocation}

/-! ## Snapshots ascend -/

/-- Prefixes ascend, and so do the addresses of each; none is there twice. -/
structure Ascending (l : List Allocation) : Prop where
  /-- Each prefix comes before those after it. -/
  parents : (l.map Allocation.parent).Pairwise Prefix.Precedes
  /-- Each address of a prefix comes before those after it. -/
  addresses : ∀ e ∈ l, e.addresses.Pairwise Addr.Precedes

theorem addressesOf_ascending (pool : Pool) (p : Prefix) :
    (pool.addressesOf p).Pairwise Addr.Precedes := by
  refine pool.held.ascending.filterMap _ ?_
  rintro ⟨q, a⟩ ⟨r, b⟩ hlt c hc d hd
  obtain ⟨rfl, ha⟩ : q = p ∧ a = c := by simpa using hc
  obtain ⟨rfl, hb⟩ : r = q ∧ b = d := by simpa using hd
  -- with one prefix the order of the pairs is that of the addresses
  have hrank : a.rank < b.rank := by
    have h : r.rank * 2 ^ 129 + a.rank < r.rank * 2 ^ 129 + b.rank := hlt
    omega
  rw [← ha, ← hb]
  exact Addr.rank_lt_rank_iff_precedes.1 hrank

theorem ascending_snapshot (pool : Pool) : Ascending pool.snapshot where
  parents := by
    rw [map_parent_snapshot]
    exact pool.known.ascending.imp Prefix.rank_lt_rank_iff_precedes.1
  addresses := by
    intro e he
    obtain ⟨p, -, rfl⟩ := List.mem_map.1 he
    exact pool.addressesOf_ascending p

/-! ## Resetting a pool -/

/-- A list has an address of a prefix in some entry. -/
def Lists (l : List Allocation) (p : Prefix) (a : Addr) : Prop :=
  ∃ e ∈ l, e.parent = p ∧ a ∈ e.addresses

theorem lists_cons_iff {e : Allocation} {a : Addr} :
    Lists (e :: l) p a ↔ (e.parent = p ∧ a ∈ e.addresses) ∨ Lists l p a := by
  simp [Lists]

theorem mem_known_hold {q : Prefix} {a : Addr} :
    q ∈ (pool.hold p a).known ↔ q = p ∨ q ∈ pool.known := OrderedSet.mem_insert

theorem mem_held_hold {a : Addr} {x : Slot} :
    x ∈ (pool.hold p a).held ↔ (p = x.1 ∧ x.2 = a) ∨ x ∈ pool.held := by
  have hpair : x = (p, a) ↔ p = x.1 ∧ x.2 = a := by
    rw [Prod.ext_iff, eq_comm (a := x.1)]
  rw [← hpair]
  exact OrderedSet.mem_insert

theorem mem_known_foldl_hold {q : Prefix} {as : List Addr} (hp : p ∈ pool.known) :
    q ∈ (as.foldl (fun pool a => pool.hold p a) pool).known ↔ q ∈ pool.known := by
  induction as generalizing pool with
  | nil => exact Iff.rfl
  | cons a as ih =>
    have hhold : p ∈ (pool.hold p a).known := mem_known_hold.2 (.inl rfl)
    rw [List.foldl_cons, ih hhold, mem_known_hold]
    constructor
    · rintro (rfl | hq)
      · exact hp
      · exact hq
    · exact .inr

theorem mem_held_foldl_hold {as : List Addr} {x : Slot} :
    x ∈ (as.foldl (fun pool a => pool.hold p a) pool).held ↔
      (p = x.1 ∧ x.2 ∈ as) ∨ x ∈ pool.held := by
  induction as generalizing pool with
  | nil => simp
  | cons a as ih =>
    rw [List.foldl_cons, ih, mem_held_hold, List.mem_cons]
    tauto

/-- An entry adds its prefix, even if it has no addresses. -/
theorem mem_known_absorb {e : Allocation} :
    p ∈ (pool.absorb e).known ↔ p = e.parent ∨ p ∈ pool.known := by
  have hlearn : e.parent ∈ (pool.learn e.parent).known := OrderedSet.mem_insert.2 (.inl rfl)
  rw [absorb, mem_known_foldl_hold hlearn]
  exact OrderedSet.mem_insert

/-- An entry adds its pairs. -/
theorem mem_held_absorb {e : Allocation} {x : Slot} :
    x ∈ (pool.absorb e).held ↔ (e.parent = x.1 ∧ x.2 ∈ e.addresses) ∨ x ∈ pool.held :=
  mem_held_foldl_hold

theorem mem_held_foldl_absorb {x : Slot} :
    x ∈ (l.foldl absorb pool).held ↔ Lists l x.1 x.2 ∨ x ∈ pool.held := by
  induction l generalizing pool with
  | nil => simp [Lists]
  | cons e l ih =>
    rw [List.foldl_cons, ih, mem_held_absorb, lists_cons_iff]
    tauto

theorem mem_known_foldl_absorb :
    p ∈ (l.foldl absorb pool).known ↔ p ∈ l.map Allocation.parent ∨ p ∈ pool.known := by
  induction l generalizing pool with
  | nil => simp
  | cons e l ih =>
    rw [List.foldl_cons, ih, mem_known_absorb, List.map_cons, List.mem_cons]
    tauto

/-- A pool that is reset to a list is the one that is made of it, whatever was held. -/
theorem reset_eq_restore (pool : Pool) (l : List Allocation) : pool.reset l = restore l := by
  refine ext (fun p => ?_) fun x => ?_
  · rw [reset, mem_known_foldl_absorb, mem_known_restore]
    exact or_iff_left (OrderedSet.not_mem_empty p)
  · rw [reset, mem_held_foldl_absorb, mem_restore, mem_slotsOf]
    exact or_iff_left (OrderedSet.not_mem_empty x)

theorem isHeld_restore {a : Addr} : (restore l).isHeld p a = true ↔ Lists l p a := by
  rw [isHeld_iff, mem_restore, mem_slotsOf]
  exact Iff.rfl

/-- The snapshots of the pools that are made of lists are the same just if the lists have the same
prefixes and the same pairs. -/
theorem snapshot_restore_eq_iff {l' : List Allocation} :
    (restore l).snapshot = (restore l').snapshot ↔
      (∀ p, p ∈ l.map Allocation.parent ↔ p ∈ l'.map Allocation.parent) ∧
      ∀ p a, Lists l p a ↔ Lists l' p a := by
  constructor
  · intro h
    have hsame : restore l = restore l' := by
      rw [← restore_snapshot (restore l), h, restore_snapshot]
    refine ⟨fun p => ?_, fun p a => ?_⟩
    · rw [← mem_known_restore, hsame, mem_known_restore]
    · rw [← isHeld_restore, hsame, isHeld_restore]
  · rintro ⟨hparents, hlists⟩
    refine congrArg snapshot (ext (fun p => ?_) fun x => ?_)
    · rw [mem_known_restore, hparents, mem_known_restore]
    · rw [mem_restore, mem_restore, mem_slotsOf, mem_slotsOf]
      exact hlists x.1 x.2

/-- The entry of a prefix in a snapshot has just the addresses that are held of it. -/
theorem mem_addresses_of_mem_snapshot {e : Allocation} (he : e ∈ pool.snapshot) (a : Addr) :
    a ∈ e.addresses ↔ pool.isHeld e.parent a = true := by
  obtain ⟨p, -, rfl⟩ := List.mem_map.1 he
  rw [isHeld_iff, mem_addressesOf]

/-! ## Messages without a choice -/

/-- A message that leaves a pool no choice. -/
inductive Message where
  /-- Asks for the address that it names. -/
  | acquire (parent ip : String)
  /-- Gives an address back. -/
  | release (request : ReleaseRequest)

/-- The answer to a message. -/
inductive Reply where
  /-- To one that asks for an address. -/
  | acquired (r : Except AllocatorError AcquireAnswer)
  /-- To one that gives an address back. -/
  | released (r : Except AllocatorError Unit)

/-- What a pool answers to a message, and the pool after it; `pick` is the choice it would make. -/
def answer (pool : Pool) (pick : Nat) : Message → Reply × Pool
  | .acquire parent ip =>
    let r := pool.acquire pick ⟨parent, some ip⟩
    (.acquired r.1, r.2)
  | .release request =>
    let r := pool.release request
    (.released r.1, r.2)

/-- What a pool answers to messages one after the other. -/
def answers (pool : Pool) (picks : Nat → Nat) : List Message → List Reply
  | [] => []
  | m :: ms =>
    let r := pool.answer (picks 0) m
    r.1 :: r.2.answers (fun n => picks (n + 1)) ms

theorem answer_pick (pool : Pool) (pick pick' : Nat) (m : Message) :
    pool.answer pick m = pool.answer pick' m := by
  cases m <;> rfl

/-- The answers do not depend on the choices that a pool would make. -/
theorem answers_picks (pool : Pool) (picks picks' : Nat → Nat) (ms : List Message) :
    pool.answers picks ms = pool.answers picks' ms := by
  induction ms generalizing pool picks picks' with
  | nil => rfl
  | cons m ms ih =>
    rw [answers, answers, answer_pick pool (picks 0) (picks' 0)]
    exact congrArg _ (ih _ _ _)

/-! ## Normal forms -/

/-- A snapshot is the normal form of a list: it has the prefixes and the pairs of the list, in ascending
order. -/
structure NormalForm (l snapshot : List Allocation) : Prop where
  /-- It ascends. -/
  ascending : Ascending snapshot
  /-- Its prefixes are those of the list. -/
  mem_parents_iff : ∀ p, p ∈ snapshot.map Allocation.parent ↔ p ∈ l.map Allocation.parent
  /-- The addresses of a prefix are those that the list has in some entry of it. -/
  mem_addresses_iff : ∀ e ∈ snapshot, ∀ a, a ∈ e.addresses ↔ Lists l e.parent a

theorem normalForm_snapshot_restore (l : List Allocation) :
    NormalForm l (restore l).snapshot where
  ascending := ascending_snapshot _
  mem_parents_iff p := by
    rw [map_parent_snapshot, ← OrderedSet.mem_def]
    exact mem_known_restore
  mem_addresses_iff e he a := (mem_addresses_of_mem_snapshot he a).trans isHeld_restore

/-- Resetting a pool to a list makes just the listed pairs held, whatever was held before; the snapshot
is then the list in normal form, and lists have the same normal form just if they have the same
prefixes and pairs. A pool that is reset to the snapshot of another has this snapshot again and answers
all messages that leave it no choice as the other does. -/
theorem snapshots_normal :
    (∀ (pool : Pool) (l : List Allocation),
      (∀ p a, (pool.reset l).isHeld p a = true ↔ Lists l p a) ∧
      NormalForm l (pool.reset l).snapshot) ∧
    (∀ (pool pool' : Pool) (l l' : List Allocation),
      (pool.reset l).snapshot = (pool'.reset l').snapshot ↔
        (∀ p, p ∈ l.map Allocation.parent ↔ p ∈ l'.map Allocation.parent) ∧
        ∀ p a, Lists l p a ↔ Lists l' p a) ∧
    ∀ pool other : Pool, (other.reset pool.snapshot).snapshot = pool.snapshot ∧
      ∀ picks picks' ms,
        (other.reset pool.snapshot).answers picks ms = pool.answers picks' ms := by
  refine ⟨fun pool l => ?_, fun pool pool' l l' => ?_, fun pool other => ?_⟩
  · rw [reset_eq_restore]
    exact ⟨fun _ _ => isHeld_restore, normalForm_snapshot_restore l⟩
  · rw [reset_eq_restore, reset_eq_restore]
    exact snapshot_restore_eq_iff
  · rw [reset_eq_restore, restore_snapshot]
    exact ⟨rfl, fun picks picks' ms => answers_picks pool picks picks' ms⟩

end Pool

namespace Small

/-- An address. -/
def nearHost : Addr := ⟨.v4, 0xac100001, by decide⟩

/-- An address after it. -/
def farHost : Addr := ⟨.v4, 0xac100009, by decide⟩

/-- A prefix that contains both. -/
def block : Prefix := ⟨⟨.v4, 0xac100000, by decide⟩, 20, by decide⟩

/-- The same block written by another of its addresses. -/
def sameBlock : Prefix := ⟨⟨.v4, 0xac100005, by decide⟩, 20, by decide⟩

/-- A prefix of the other family. -/
def block6 : Prefix := ⟨⟨.v6, 0xfd000000000000000000000000000000, by decide⟩, 8, by decide⟩

/-- A list that names a prefix in two entries and an address more than once. -/
def scattered : List Allocation :=
  [⟨block6, []⟩, ⟨sameBlock, [farHost, nearHost, farHost]⟩, ⟨block, [nearHost]⟩,
    ⟨sameBlock, [nearHost]⟩]

/-- Its normal form. -/
def gathered : List Allocation :=
  [⟨block, [nearHost]⟩, ⟨sameBlock, [nearHost, farHost]⟩, ⟨block6, []⟩]

end Small

theorem Pool.snapshots_normal_scattered :
    (((∅ : Pool).hold Small.block6 Small.farHost).reset Small.scattered).snapshot = Small.gathered ∧
    (∀ p a, Lists Small.scattered p a ↔ Lists Small.gathered p a) ∧
    ∀ picks picks' ms,
      (((∅ : Pool).hold Small.block Small.farHost).reset Small.gathered).answers picks ms =
        ((∅ : Pool).reset Small.scattered).answers picks' ms := by
  obtain ⟨-, hsame, hagain⟩ := snapshots_normal
  have hscattered : ((∅ : Pool).reset Small.scattered).snapshot = Small.gathered := by
    decide +kernel
  have hgathered : ((∅ : Pool).reset Small.gathered).snapshot = Small.gathered := by
    decide +kernel
  refine ⟨?_, ((hsame ∅ ∅ _ _).1 (hscattered.trans hgathered.symm)).2, fun picks picks' ms => ?_⟩
  · rw [← hscattered]
    exact (hsame _ ∅ _ _).2 ⟨fun _ => Iff.rfl, fun _ _ => Iff.rfl⟩
  · rw [← hscattered]
    exact (hagain _ _).2 picks picks' ms

end Ipam
