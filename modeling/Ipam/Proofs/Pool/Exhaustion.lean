import Mathlib.Data.Set.Card
import Ipam.Proofs.Service.Outcome

/-!
# Taking addresses until none is left

Calls for any address of a family, one after the other and with nothing given back in between, take
the free hosts of the network one by one, prefix by prefix, and are refused from then on
(`Network.drain_exhausts`). Which host of a prefix is taken is up to the allocator; how many calls
succeed is not.
-/

namespace Ipam

open Request

/-- The hosts of a prefix: what it contains, but for the first and the last address of a version 4
prefix that is shorter than 31 bits. -/
def Prefix.Hosts (p : Prefix) (a : Addr) : Prop :=
  p.contains a = true ∧
    (p.family = .v4 → p.len < 31 → a.value ≠ p.first ∧ a.value ≠ p.last)

theorem Prefix.isHost_iff_hosts {p : Prefix} {a : Addr} : p.isHost a = true ↔ p.Hosts a := by
  rw [isHost_iff, Hosts, contains_iff, firstHost, lastHost]
  by_cases hb : p.family = .v4 ∧ p.len < 31
  · have hbroadcast : p.isBroadcast = true := by simp [isBroadcast, hb]
    rw [if_pos hbroadcast, if_pos hbroadcast]
    constructor
    · rintro ⟨hf, hl, hr⟩
      exact ⟨⟨hf, by omega, by omega⟩, fun _ _ => ⟨by omega, by omega⟩⟩
    · rintro ⟨⟨hf, hl, hr⟩, hne⟩
      obtain ⟨hfirst, hlast⟩ := hne hb.1 hb.2
      exact ⟨hf, by omega, by omega⟩
  · have hbroadcast : ¬ p.isBroadcast = true := by simpa [isBroadcast] using hb
    rw [if_neg hbroadcast, if_neg hbroadcast]
    constructor
    · exact fun h => ⟨h, fun hv4 hlen => absurd ⟨hv4, hlen⟩ hb⟩
    · exact fun h => h.1

namespace Network

variable {n : Network} {f : Family}

/-- The pairs of a prefix of a family and a host of it that are not held. -/
def free (n : Network) (f : Family) (held : OrderedSet Slot) : Set Slot :=
  {s | s.1 ∈ n.prefixes ∧ s.1.family = f ∧ s.1.Hosts s.2 ∧ s ∉ held}

theorem mem_prefixesOf {p : Prefix} : p ∈ n.prefixesOf f ↔ p ∈ n.prefixes ∧ p.family = f := by
  rw [prefixesOf, List.mem_filter, decide_eq_true_iff]

theorem mem_free {held : OrderedSet Slot} {s : Slot} :
    s ∈ n.free f held ↔ s.1 ∈ n.prefixesOf f ∧ s.1.Hosts s.2 ∧ s ∉ held := by
  rw [mem_prefixesOf, and_assoc]
  exact Iff.rfl

instance : Finite Addr :=
  Finite.of_injective (fun a => (⟨a.rank, a.rank_lt⟩ : Fin (2 ^ 129))) fun _ _ h =>
    Addr.rank_inj (Fin.mk.inj h)

theorem finite_free (n : Network) (f : Family) (held : OrderedSet Slot) :
    (n.free f held).Finite := by
  refine ((List.finite_toSet n.prefixes).prod (Set.finite_univ (α := Addr))).subset ?_
  rintro s ⟨hs, -⟩
  exact ⟨hs, trivial⟩

/-- A pair that is taken is free no more; the others are as before. -/
theorem free_insert {held held' : OrderedSet Slot} {s : Slot} (h : held' = held.insert s) :
    n.free f held' = n.free f held \ {s} := by
  ext t
  subst h
  simp only [free, OrderedSet.mem_insert, Set.mem_ofPred_eq, Set.mem_sdiff, Set.mem_singleton_iff]
  tauto

/-- A prefix of a family is the first one listed that has a free host. -/
def IsNext (n : Network) (f : Family) (held : OrderedSet Slot) (p : Prefix) : Prop :=
  ∃ before after, n.prefixesOf f = before ++ p :: after ∧ p ∉ before ∧
    ∀ q ∈ before, ∀ a, q.Hosts a → (q, a) ∈ held

/-- A call for any address of a family takes a free host of the first prefix that has one, and it is
refused just if there is none. -/
theorem serve_anyAddress (n : Network) (f : Family) (m : Memory) (picks : Picks) :
    ∃ pool picks', (∃ s ∈ n.free f m.pool.held, n.IsNext f m.pool.held s.1 ∧
        pool.held = m.pool.held.insert s ∧ (anyAddress n f).serve (m, picks) =
          (.ok ⟨s.2, s.1⟩, { m with pool := pool }, picks')) ∨
      (n.free f m.pool.held = ∅ ∧ pool.held = m.pool.held ∧ (anyAddress n f).serve (m, picks) =
        (.error (.exhausted f n.id), { m with pool := pool }, picks')) := by
  obtain ⟨pool, picks', h⟩ := serve_anyAddressOf n.id f (n.prefixesOf f) m picks
  refine ⟨pool, picks', ?_⟩
  rcases h with ⟨before, p, after, a, hps, hfull, ha, hn, hheld, hserve⟩ | ⟨hfull, hheld, hserve⟩
  · have hp : p ∈ n.prefixesOf f := by
      rw [hps]
      simp
    have hfresh : p ∉ before := fun hmem => hn (hfull p hmem a ha)
    have hfullHosts : ∀ q ∈ before, ∀ b, q.Hosts b → (q, b) ∈ m.pool.held := fun q hq b hb =>
      hfull q hq b (Prefix.isHost_iff_hosts.2 hb)
    refine .inl ⟨(p, a), mem_free.2 ⟨hp, Prefix.isHost_iff_hosts.1 ha, hn⟩, ?_, hheld, hserve⟩
    exact ⟨before, after, hps, hfresh, hfullHosts⟩
  · refine .inr ⟨Set.eq_empty_iff_forall_notMem.2 fun s hs => ?_, hheld, hserve⟩
    obtain ⟨hp, hhost, hn⟩ := mem_free.1 hs
    exact hn (hfull s.1 hp s.2 (Prefix.isHost_iff_hosts.2 hhost))

/-- What a number of calls for any address of a family answer, one after the other, and what they
leave. -/
def drain (n : Network) (f : Family) :
    Nat → Memory × Picks → List (Except RequestError Lease) × Memory × Picks
  | 0, s => ([], s)
  | k + 1, s =>
    let call := (anyAddress n f).serve s
    let rest := n.drain f k call.2
    (call.1 :: rest.1, rest.2)

/-- What calls for any address of a family take, in the order in which they take it. -/
structure Drains (n : Network) (f : Family) (m : Memory) (picks : Picks) (slots : List Slot) :
    Prop where
  /-- No pair is taken twice. -/
  nodup : slots.Nodup
  /-- The pairs that are taken are those that were free. -/
  mem_iff : ∀ s, s ∈ slots ↔ s ∈ n.free f m.pool.held
  /-- As many calls succeed as there are pairs, each with the next one, and all others are
  refused. -/
  answers : ∀ k, (n.drain f k (m, picks)).1 = (slots.take k).map (fun s => .ok ⟨s.2, s.1⟩) ++
    List.replicate (k - slots.length) (.error (.exhausted f n.id))
  /-- What is held after some calls is what was held and what they took. -/
  held : ∀ k s, s ∈ (n.drain f k (m, picks)).2.1.pool.held ↔ s ∈ m.pool.held ∨ s ∈ slots.take k
  /-- Nothing but the pool changes. -/
  kept : ∀ k, (n.drain f k (m, picks)).2.1.catalog = m.catalog ∧
    (n.drain f k (m, picks)).2.1.store = m.store
  /-- A pair is taken from the first prefix that has a free host at the time. -/
  isNext : ∀ k s, slots[k]? = some s → n.IsNext f (n.drain f k (m, picks)).2.1.pool.held s.1

variable {m m' : Memory} {picks picks' : Picks}

/-- Where nothing is free all calls are refused. -/
theorem Drains.nil (hfree : n.free f m.pool.held = ∅) : n.Drains f m picks [] := by
  have hcalls : ∀ k (m' : Memory) picks, m'.pool.held = m.pool.held →
      ∃ pool : Pool, ∃ picks', pool.held = m.pool.held ∧ n.drain f k (m', picks) =
        (List.replicate k (.error (.exhausted f n.id)), { m' with pool := pool }, picks') := by
    intro k
    induction k with
    | zero => exact fun m' picks hheld => ⟨m'.pool, picks, hheld, rfl⟩
    | succ k ih =>
      intro m' picks hheld
      obtain ⟨pool, picks', ⟨s, hs, -⟩ | ⟨-, hpool, hserve⟩⟩ := n.serve_anyAddress f m' picks
      · rw [hheld, hfree] at hs
        exact absurd hs (Set.notMem_empty s)
      · obtain ⟨pool', picks'', hpool', hrest⟩ :=
          ih { m' with pool := pool } picks' (hpool.trans hheld)
        refine ⟨pool', picks'', hpool', ?_⟩
        simp only [drain, hserve, hrest, List.replicate_succ]
  constructor
  · exact List.nodup_nil
  · intro s
    rw [hfree]
    exact ⟨fun h => (List.not_mem_nil h).elim, fun h => h.elim⟩
  · intro k
    obtain ⟨pool, picks', -, hdrain⟩ := hcalls k m picks rfl
    rw [hdrain]
    simp
  · intro k s
    obtain ⟨pool, picks', hpool, hdrain⟩ := hcalls k m picks rfl
    rw [hdrain]
    simp [hpool]
  · intro k
    obtain ⟨pool, picks', -, hdrain⟩ := hcalls k m picks rfl
    rw [hdrain]
    exact ⟨rfl, rfl⟩
  · intro k s hs
    cases hs

/-- A call that takes a pair leaves the others to those that follow. -/
theorem Drains.cons {s : Slot} {slots : List Slot} (h : n.Drains f m' picks' slots)
    (hs : s ∈ n.free f m.pool.held) (hnext : n.IsNext f m.pool.held s.1)
    (hheld : m'.pool.held = m.pool.held.insert s)
    (hkept : m'.catalog = m.catalog ∧ m'.store = m.store)
    (hserve : (anyAddress n f).serve (m, picks) = (.ok ⟨s.2, s.1⟩, m', picks')) :
    n.Drains f m picks (s :: slots) := by
  have hfree : ∀ t, t ∈ slots ↔ t ∈ n.free f m.pool.held \ {s} := fun t => by
    rw [h.mem_iff, free_insert hheld]
  have hdrain : ∀ k, n.drain f (k + 1) (m, picks) = (.ok ⟨s.2, s.1⟩ :: (n.drain f k (m', picks')).1,
      (n.drain f k (m', picks')).2) := fun k => by
    simp only [drain, hserve]
  constructor
  · refine List.nodup_cons.2 ⟨fun hmem => ?_, h.nodup⟩
    exact ((hfree s).1 hmem).2 rfl
  · intro t
    rw [List.mem_cons, hfree, Set.mem_sdiff, Set.mem_singleton_iff]
    constructor
    · rintro (rfl | ⟨ht, -⟩)
      · exact hs
      · exact ht
    · intro ht
      by_cases he : t = s
      · exact .inl he
      · exact .inr ⟨ht, he⟩
  · intro k
    cases k with
    | zero => simp [drain]
    | succ k =>
      rw [hdrain, h.answers k]
      simp
  · intro k t
    cases k with
    | zero => simp [drain]
    | succ k =>
      rw [hdrain, h.held k t, hheld, OrderedSet.mem_insert, List.take_succ_cons, List.mem_cons]
      tauto
  · intro k
    cases k with
    | zero => exact ⟨rfl, rfl⟩
    | succ k =>
      rw [hdrain]
      exact ⟨(h.kept k).1.trans hkept.1, (h.kept k).2.trans hkept.2⟩
  · intro k t ht
    cases k with
    | zero =>
      cases ht
      exact hnext
    | succ k =>
      rw [hdrain]
      exact h.isNext k t ht

/-- Of the calls for any address of a family just as many succeed as there are pairs of a prefix and
a host of it that are not held, whatever the allocator picks; they take these pairs, each once and
from the first prefix that still has a free host, and all calls after them are refused. -/
theorem drain_exhausts (n : Network) (f : Family) (m : Memory) (picks : Picks) :
    (n.free f m.pool.held).Finite ∧
      ∃ slots, n.Drains f m picks slots ∧ slots.length = (n.free f m.pool.held).ncard := by
  refine ⟨n.finite_free f m.pool.held, ?_⟩
  -- by induction on the number of free pairs, of which every call that succeeds takes one
  generalize hN : (n.free f m.pool.held).ncard = N
  induction N generalizing m picks with
  | zero =>
    have hfree : n.free f m.pool.held = ∅ := (Set.ncard_eq_zero (n.finite_free f _)).1 hN
    exact ⟨[], .nil hfree, rfl⟩
  | succ N ih =>
    obtain ⟨pool, picks', ⟨s, hs, hnext, hheld, hserve⟩ | ⟨hfree, -⟩⟩ :=
      n.serve_anyAddress f m picks
    · have hcard : (n.free f pool.held).ncard = N := by
        have hdiff := Set.ncard_sdiff_singleton_of_mem hs
        rw [free_insert hheld, hdiff, hN]
        rfl
      obtain ⟨slots, hdrains, hlength⟩ := ih { m with pool := pool } picks' hcard
      refine ⟨s :: slots, hdrains.cons hs hnext hheld ⟨rfl, rfl⟩ hserve, ?_⟩
      rw [List.length_cons, hlength]
    · rw [hfree, Set.ncard_empty] at hN
      cases hN

end Network

end Ipam
