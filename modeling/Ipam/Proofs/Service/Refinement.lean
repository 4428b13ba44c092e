import Ipam.Proofs.Course.Turn
import Ipam.Proofs.Service.Ledger
import Ipam.Proofs.Service.Outcome

/-!
# The service keeps a ledger

Where the store is well formed and the pool holds the pairs of the stored records and no others
(`Memory.Tied`), the address service, all calls of which are served, answers every request as the
ledger of the stored records allows, and it leaves a memory of which the same holds
(`Memory.Tied.handle`). So it is with any number of requests that are made one after the other
(`Memory.Tied.session`).
-/

namespace Ipam

open Request

variable {m : Memory} {picks : Picks}

/-! ## Memories in which the pool keeps step with the store -/

/-- The records are numbered from one up to the counter, no two with one id or one pair, and the
pairs that are held are those of the records. -/
structure Memory.Tied (m : Memory) : Prop where
  /-- The store is well formed. -/
  wellFormed : m.store.WellFormed
  /-- No record has the number zero. -/
  id_ne_zero : ∀ r ∈ m.store.records, r.id ≠ toString 0
  /-- The pairs of the records are held, and no others are. -/
  held_iff : ∀ x, x ∈ m.pool.held ↔ Ledger.Has m.store.records x

namespace Memory.Tied

theorem slot_mem (h : m.Tied) {r : Record} (hr : r ∈ m.store.records) : r.slot ∈ m.pool.held :=
  (h.held_iff r.slot).2 ⟨r, hr, rfl⟩

theorem empty (c : Catalog) : Tied ⟨c, ∅, ∅⟩ where
  wellFormed := Store.wellFormed_empty
  id_ne_zero := by
    intro r hr
    cases hr
  held_iff := by
    intro x
    constructor
    · intro hx
      exact absurd hx (OrderedSet.not_mem_empty x)
    · rintro ⟨r, hr, -⟩
      cases hr

/-- Only the pairs that are held matter of a pool. -/
theorem congr_held (h : m.Tied) {pool : Pool} (hheld : pool.held = m.pool.held) :
    Tied { m with pool := pool } where
  wellFormed := h.wellFormed
  id_ne_zero := h.id_ne_zero
  held_iff := by
    intro x
    rw [hheld]
    exact h.held_iff x

/-- A pair that is free is held and recorded. -/
theorem append (h : m.Tied) {pool : Pool} {r : Record} (hfree : ¬ Ledger.Has m.store.records r.slot)
    (hheld : pool.held = m.pool.held.insert r.slot) (hc : m.store.nextId ≤ m.store.nextId + 1) :
    Tied { m with pool := pool, store :=
      ⟨m.store.nextId + 1, m.store.records ++ [m.store.numberedNext r]⟩ } where
  wellFormed := h.wellFormed.append (fun o ho he => hfree ⟨o, ho, he⟩) hc
  id_ne_zero := by
    intro o ho hid
    rcases List.mem_append.1 ho with ho | ho
    · exact h.id_ne_zero o ho hid
    · rw [List.mem_singleton.1 ho] at hid
      have hzero := Store.toString_inj hid
      rw [Store.toNat_succ_of_le hc] at hzero
      exact Nat.succ_ne_zero _ hzero
  held_iff := by
    intro x
    rw [hheld, OrderedSet.mem_insert, h.held_iff]
    simp only [Ledger.Has, List.mem_append, List.mem_singleton, or_and_right, exists_or,
      exists_eq_left, Store.numberedNext_slot]
    rw [or_comm, eq_comm]

/-- A record is replaced by one with its id and its pair. -/
theorem replace (h : m.Tied) {old new : Record} {l₁ l₂ : List Record}
    (hl : m.store.records = l₁ ++ old :: l₂) (hid : new.id = old.id) (hslot : new.slot = old.slot) :
    Tied { m with store := ⟨m.store.nextId, l₁ ++ new :: l₂⟩ } where
  wellFormed := h.wellFormed.replace hl hid hslot
  id_ne_zero := by
    have := h.id_ne_zero
    rw [hl] at this
    simpa [or_imp, forall_and, hid] using this
  held_iff := by
    intro x
    rw [h.held_iff x]
    simp [Ledger.Has, hl, or_and_right, exists_or, hslot]

/-- A record goes together with its pair. -/
theorem remove (h : m.Tied) {r : Record} {l₁ l₂ : List Record}
    (hl : m.store.records = l₁ ++ r :: l₂) :
    Tied { m with pool := m.pool.drop r.parentPrefix r.address,
                  store := ⟨m.store.nextId, l₁ ++ l₂⟩ } where
  wellFormed := h.wellFormed.remove hl
  id_ne_zero := by
    intro o ho
    refine h.id_ne_zero o ?_
    rw [hl]
    rcases List.mem_append.1 ho with ho | ho
    · exact List.mem_append_left _ ho
    · exact List.mem_append_right _ (List.mem_cons_of_mem r ho)
  held_iff := by
    intro x
    have hnodup := h.wellFormed.slots_nodup
    rw [hl, (List.perm_middle.map Record.slot).nodup_iff, List.map_cons, List.nodup_cons] at hnodup
    have hsplit : Ledger.Has m.store.records x ↔ x = r.slot ∨ Ledger.Has (l₁ ++ l₂) x := by
      simp only [Ledger.Has, hl, List.mem_append, List.mem_cons, or_and_right, exists_or,
        exists_eq_left, eq_comm (a := x)]
      exact or_left_comm
    show x ∈ m.pool.held.erase r.slot ↔ _
    rw [OrderedSet.mem_erase, h.held_iff, hsplit]
    constructor
    · rintro ⟨hne, hx⟩
      exact hx.resolve_left hne
    · intro hx
      refine ⟨?_, .inr hx⟩
      rintro rfl
      obtain ⟨o, ho, he⟩ := hx
      exact hnodup.1 (List.mem_map.2 ⟨o, ho, he⟩)

end Memory.Tied

/-! ## One request -/

namespace Memory.Tied

/-- An address is taken for a create as the ledger says, and its pair was free. -/
theorem serve_take (h : m.Tied) {req : Wire.CreateRequest} {g : Grant}
    (hg : m.catalog.grant req = .ok g) (picks : Picks) :
    ∃ pool picks', (∃ e, Ledger.Allots m.store.records g.network g.family req.ip (.error e) ∧
      pool.held = m.pool.held ∧
      (g.take req.ip).serve (m, picks) = (.error e, { m with pool := pool }, picks')) ∨
    (∃ lease, Ledger.Allots m.store.records g.network g.family req.ip (.ok lease) ∧
      ¬ Ledger.Has m.store.records (lease.parent, lease.address) ∧
      pool.held = m.pool.held.insert (lease.parent, lease.address) ∧
      (g.take req.ip).serve (m, picks) = (.ok lease, { m with pool := pool }, picks')) := by
  have hfull : ∀ p, (∀ a, p.isHost a = true → (p, a) ∈ m.pool.held) →
      Ledger.IsFull m.store.records p :=
    fun p hall a ha => (h.held_iff (p, a)).1 (hall a ha)
  have hfree : ∀ x, x ∉ m.pool.held → ¬ Ledger.Has m.store.records x :=
    fun x hx hhas => hx ((h.held_iff x).2 hhas)
  cases hip : req.ip with
  | none =>
    obtain ⟨pool, picks', hserve⟩ :=
      serve_anyAddressOf g.network.id g.family (g.network.prefixesOf g.family) m picks
    refine ⟨pool, picks', ?_⟩
    rcases hserve with ⟨ps₁, p, ps₂, a, hps, hall, ha, hn, hheld, hserve⟩ | ⟨hall, hheld, hserve⟩
    · refine .inr ⟨⟨a, p⟩, ?_, hfree (p, a) hn, hheld, hserve⟩
      exact .any hps (fun q hq => hfull q (hall q hq)) ha (hfree (p, a) hn)
    · exact .inl ⟨_, .exhausted fun p hp => hfull p (hall p hp), hheld, hserve⟩
  | some literal =>
    obtain ⟨w, hw⟩ := Catalog.exists_readLiteral hg hip
    obtain ⟨pool, picks', hserve⟩ := serve_specificAddress (n := g.network) hw m picks
    refine ⟨pool, picks', ?_⟩
    simp only [prefixFor?_eq, ← Network.isFirstWith_iff] at hserve
    rcases hserve with ⟨hnone, hpool, hserve⟩ | ⟨p, hp, hheld, hpool, hserve⟩ |
      ⟨p, hp, hn, hpool, hserve⟩
    · have hout : ∀ p ∈ g.network.prefixes, p.contains w = false := by
        simpa using hnone
      exact .inl ⟨_, .outside hw hout, by rw [hpool], hserve⟩
    · exact .inl ⟨_, .taken hw hp ((h.held_iff (p, w)).1 hheld), hpool, hserve⟩
    · exact .inr ⟨⟨w, p⟩, .specific hw hp (hfree (p, w) hn), hfree (p, w) hn, hpool, hserve⟩

end Memory.Tied

/-- A request is answered as the ledger of the stored records says, and the memory that it leaves
is that of the ledger then. -/
structure Memory.Refines (m : Memory) (ask : Service.Ask)
    (response : Except RequestError Service.Answer) (m' : Memory) : Prop where
  /-- The ledger allows the answer. -/
  step : Ledger.Step m.catalog m.store.records ask response m'.store.records
  /-- The pool keeps step with the store. -/
  tied : m'.Tied
  /-- Projects and networks stay as they are. -/
  catalog_eq : m'.catalog = m.catalog

/-- What the service answers when its calls are served, and the memory that it leaves. -/
def Service.handle (s : Service) (m : Memory) (ask : Ask) (picks : Picks) :
    Except RequestError Answer × Memory :=
  let r := (s.request ask).serve (m, picks)
  (r.1, r.2.1)

namespace Memory.Tied

variable {s : Service}

/-- A request that is answered with a record does what its repository does, once its project is
named. -/
theorem refines_record (h : m.Tied) {ask : Service.Ask} (body : Repository → Request Record)
    (hask : s.request ask = (do
      let ip ← (do
        let repo ← s.repository ask.project
        return (← body repo).toWire : Request Wire.Ip)
      return Service.Answer.record ip))
    (hc : m.store.nextId ≤ (s.handle m ask picks).2.store.nextId)
    (hbody : ask.project ≠ "" → ∀ response m' picks',
      (body ⟨.project ask.project, s.releaseOnRefusal⟩).serve (m, picks) = (response, m', picks') →
      m.store.nextId ≤ m'.store.nextId → m.Refines ask (response.map fun r => .record r.toWire) m') :
    m.Refines ask (s.handle m ask picks).1 (s.handle m ask picks).2 := by
  unfold Service.handle at hc ⊢
  rw [hask, serve_record] at hc ⊢
  by_cases hp : ask.project = ""
  · rw [if_pos hp]
    exact ⟨.anonymous hp, h, rfl⟩
  · rw [if_neg hp] at hc ⊢
    exact hbody hp _ _ _ rfl hc

theorem refines_get (h : m.Tied) (req : Wire.RecordRequest)
    (hc : m.store.nextId ≤ (s.handle m (.get req) picks).2.store.nextId) :
    m.Refines (.get req) (s.handle m (.get req) picks).1 (s.handle m (.get req) picks).2 := by
  refine h.refines_record (fun repo => repo.get req.ip) rfl hc ?_
  intro hp response m' picks' hserve _
  rcases serve_get ⟨.project req.project, s.releaseOnRefusal⟩ req.ip h.wellFormed.ids_nodup picks
    with ⟨r, hr, hid, ha, hget⟩ | ⟨hnone, hget⟩
  · cases hget.symm.trans hserve
    exact ⟨.got hp hr hid (of_decide_eq_true ha).symm, h, rfl⟩
  · cases hget.symm.trans hserve
    exact ⟨.missing hp rfl fun r hr hid he => of_decide_eq_false (hnone r hr hid) he.symm, h, rfl⟩

theorem refines_list (h : m.Tied) (req : Wire.ListRequest) (picks : Picks) :
    m.Refines (.list req) (s.handle m (.list req) picks).1 (s.handle m (.list req) picks).2 := by
  unfold Service.handle
  rw [serve_records]
  by_cases hp : req.project.getD "" = ""
  · rw [if_pos hp]
    exact ⟨.anonymous hp, h, rfl⟩
  · rw [if_neg hp]
    cases hq : Query.ofRequest req with
    | error e => exact ⟨.unreadable hp hq, h, rfl⟩
    | ok q => exact ⟨.listed hp hq, h, rfl⟩

theorem refines_create (h : m.Tied) (stamp : Stamp) (req : Wire.CreateRequest)
    (hc : m.store.nextId ≤ (s.handle m (.create stamp req) picks).2.store.nextId) :
    m.Refines (.create stamp req) (s.handle m (.create stamp req) picks).1
      (s.handle m (.create stamp req) picks).2 := by
  refine h.refines_record (fun repo => repo.create stamp req) rfl hc ?_
  intro hp response m' picks' hserve hc
  obtain ⟨picks₁, hcreate⟩ :=
    serve_create ⟨.project req.project, s.releaseOnRefusal⟩ stamp req m picks
  rcases hcreate with ⟨e, hg, hcreate⟩ | ⟨g, hg, hcreate⟩
  · cases hcreate.symm.trans hserve
    exact ⟨.refused hp hg, h, rfl⟩
  obtain ⟨pool, picks₂, htake⟩ := h.serve_take hg picks₁
  rcases htake with ⟨e, hallot, hheld, htake⟩ | ⟨lease, hallot, hfree, hheld, htake⟩
  · rw [serve_bind_error htake] at hcreate
    cases hcreate.symm.trans hserve
    exact ⟨.denied hp hg hallot, h.congr_held hheld, rfl⟩
  · -- the pair was free, so that the store does not refuse the record
    have hpersist := serve_persist (m := { m with pool := pool })
      ⟨.project req.project, s.releaseOnRefusal⟩
      (r := Repository.newRecord stamp req g.project g.network g.retention lease)
      (fun o ho he => hfree ⟨o, ho, he⟩) picks₂
    rw [serve_bind_ok htake, hpersist] at hcreate
    cases hcreate.symm.trans hserve
    have hnew := fun o ho => (h.wellFormed.numbered o ho).ne_next hc
    exact ⟨.created hp hg hallot hnew rfl, h.append hfree hheld hc, rfl⟩

theorem refines_update (h : m.Tied) (now : Instant) (req : Wire.UpdateRequest)
    (hc : m.store.nextId ≤ (s.handle m (.update now req) picks).2.store.nextId) :
    m.Refines (.update now req) (s.handle m (.update now req) picks).1
      (s.handle m (.update now req) picks).2 := by
  refine h.refines_record (fun repo => repo.update now req) rfl hc ?_
  intro hp response m' picks' hserve _
  obtain ⟨picks₁, hupdate⟩ := serve_update ⟨.project req.project, s.releaseOnRefusal⟩ now req
    h.wellFormed.ids_nodup picks
  rcases hupdate with ⟨hnone, hupdate⟩ | ⟨old, hold, hid, ha, hupdate⟩
  · cases hupdate.symm.trans hserve
    exact ⟨.missing hp rfl fun r hr hid he => of_decide_eq_false (hnone r hr hid) he.symm, h, rfl⟩
  have hproject := (of_decide_eq_true ha).symm
  rcases hupdate with ⟨e, hrev, hupdate⟩ | ⟨new, l₁, l₂, hrev, hl, hupdate⟩
  · cases hupdate.symm.trans hserve
    exact ⟨.unrevised hp hold hid hproject hrev, h, rfl⟩
  · cases hupdate.symm.trans hserve
    obtain ⟨hnewid, hslot⟩ := Repository.revise_eq hrev
    exact ⟨.updated hp hl hid hproject hrev, h.replace hl hnewid hslot, rfl⟩

theorem refines_delete (h : m.Tied) (req : Wire.RecordRequest)
    (hc : m.store.nextId ≤ (s.handle m (.delete req) picks).2.store.nextId) :
    m.Refines (.delete req) (s.handle m (.delete req) picks).1
      (s.handle m (.delete req) picks).2 := by
  refine h.refines_record (fun repo => repo.delete req.ip) rfl hc ?_
  intro hp response m' picks' hserve _
  obtain ⟨picks₁, hdelete⟩ := serve_delete ⟨.project req.project, s.releaseOnRefusal⟩ req.ip
    h.wellFormed.ids_nodup (fun r hr => h.slot_mem hr) picks
  rcases hdelete with ⟨hnone, hdelete⟩ | ⟨r, l₁, l₂, hid, ha, hl, hdelete⟩
  · cases hdelete.symm.trans hserve
    exact ⟨.missing hp rfl fun r hr hid he => of_decide_eq_false (hnone r hr hid) he.symm, h, rfl⟩
  · cases hdelete.symm.trans hserve
    exact ⟨.deleted hp hl hid (of_decide_eq_true ha).symm, h.remove hl, rfl⟩

/-- One request. -/
theorem handle (h : m.Tied) (s : Service) (ask : Service.Ask) (picks : Picks)
    (hc : m.store.nextId ≤ (s.handle m ask picks).2.store.nextId) :
    m.Refines ask (s.handle m ask picks).1 (s.handle m ask picks).2 := by
  cases ask with
  | get req => exact h.refines_get req hc
  | list req => exact h.refines_list req picks
  | create stamp req => exact h.refines_create stamp req hc
  | update now req => exact h.refines_update now req hc
  | delete req => exact h.refines_delete req hc

end Memory.Tied

/-! ## Requests one after the other -/

namespace Service

/-- What the service answers to requests that are made one after the other, each with the choices
of the allocator on the way, and the memory at the end. -/
def session (s : Service) (m : Memory) :
    List (Ask × Picks) → List (Except RequestError Answer) × Memory
  | [] => ([], m)
  | (ask, picks) :: rest =>
    let r := s.handle m ask picks
    let t := s.session r.2 rest
    (r.1 :: t.1, t.2)

/-- The counter of the store does not start again on the way. -/
def KeepsCounting (s : Service) (m : Memory) : List (Ask × Picks) → Prop
  | [] => True
  | (ask, picks) :: rest =>
    let r := s.handle m ask picks
    m.store.nextId ≤ r.2.store.nextId ∧ s.KeepsCounting r.2 rest

instance KeepsCounting.decidable (s : Service) (m : Memory) :
    (asks : List (Ask × Picks)) → Decidable (s.KeepsCounting m asks)
  | [] => .isTrue trivial
  | (ask, picks) :: rest =>
    have := KeepsCounting.decidable s (s.handle m ask picks).2 rest
    inferInstanceAs (Decidable (_ ∧ _))

end Service

/-- Any number of requests. -/
theorem Memory.Tied.session (h : m.Tied) (s : Service) {asks : List (Service.Ask × Picks)}
    (hc : s.KeepsCounting m asks) :
    Ledger.Run m.catalog m.store.records (asks.map Prod.fst) (s.session m asks).1
      (s.session m asks).2.store.records ∧ (s.session m asks).2.Tied := by
  induction asks generalizing m with
  | nil => exact ⟨.nil _, h⟩
  | cons a asks ih =>
    obtain ⟨ask, picks⟩ := a
    obtain ⟨hle, hrest⟩ := hc
    obtain ⟨hstep, htied, hcatalog⟩ := h.handle s ask picks hle
    obtain ⟨hrun, hend⟩ := ih htied hrest
    rw [hcatalog] at hrun
    exact ⟨.cons hstep hrun, hend⟩

/-- All that the service answers to requests that are made one after the other is what the ledger of
the stored records allows, nothing of it blames a collaborator, and the pool keeps step with the
store to the end. -/
theorem Service.session_refines_ledger (s : Service) {m : Memory} (h : m.Tied)
    {asks : List (Ask × Picks)} (hc : s.KeepsCounting m asks) :
    Ledger.Run m.catalog m.store.records (asks.map Prod.fst) (s.session m asks).1
      (s.session m asks).2.store.records ∧
    (∀ e, .error e ∈ (s.session m asks).1 → e.kind ≠ .internal) ∧ (s.session m asks).2.Tied := by
  obtain ⟨hrun, hend⟩ := h.session s hc
  exact ⟨hrun, hrun.kind_ne_internal, hend⟩

namespace Small

theorem tied_memory : memory.Tied where
  wellFormed := wellFormed_memory
  id_ne_zero := by decide
  held_iff := by
    intro x
    constructor
    · intro hx
      rcases OrderedSet.mem_insert.1 hx with rfl | hx
      · exact ⟨record, List.mem_singleton_self record, rfl⟩
      · exact absurd hx (OrderedSet.not_mem_empty x)
    · rintro ⟨r, hr, rfl⟩
      exact held_memory r hr

/-- The address of a record is asked for, the record is deleted, and it is asked for again. -/
def asks : List (Service.Ask × Picks) :=
  [(.create stamp createRequest, fun _ => 0), (.delete ⟨"1", "prj"⟩, fun _ => 0),
    (.create stamp createRequest, fun _ => 0)]

end Small

/-- The address is taken, until the record is deleted. -/
theorem Service.session_refines_ledger_small :
    let t := Service.session ⟨false⟩ Small.memory Small.asks
    t.1.map (fun r => r.toBool) = [false, true, true] ∧
    t.2.store.records.map Record.slot = [Small.slot] ∧
    Ledger.Run Small.memory.catalog Small.memory.store.records (Small.asks.map Prod.fst) t.1
      t.2.store.records ∧
    (∀ e, .error e ∈ t.1 → e.kind ≠ .internal) ∧ t.2.Tied :=
  ⟨by decide +kernel, by decide +kernel,
    Service.session_refines_ledger ⟨false⟩ Small.tied_memory (by decide +kernel)⟩

end Ipam
