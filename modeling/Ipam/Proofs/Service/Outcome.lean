import Ipam.Proofs.Pool.Held
import Ipam.Proofs.Service.Ledger
import Ipam.Proofs.Service.Serve
import Ipam.Proofs.Store.WellFormed

/-!
# What requests answer when they are served

What each part of a request answers, and what it leaves, in terms of the records that are stored and
the pairs that are held: taking an address from the prefixes of a network, then reading, making,
changing and removing records, and at last what the service adds for the project that a request
names.
-/

namespace Ipam

open Request

variable {m : Memory} {picks : Picks}

/-! ## Taking an address -/

theorem serve_acquire (p : Prefix) (wanted : Option Addr) (m : Memory) (picks : Picks) :
    (liftM (acquire p wanted) : Request _).serve (m, picks) =
      (.ok (readAcquire p wanted (.ok (m.perform (picks 0) (acquireCall p wanted)).1)),
        (m.perform (picks 0) (acquireCall p wanted)).2, picks.tail) := rfl

theorem serve_acquire_any (p : Prefix) (m : Memory) (picks : Picks) :
    (∃ a, p.isHost a = true ∧ (p, a) ∉ m.pool.held ∧
      (liftM (acquire p none) : Request _).serve (m, picks) =
        (.ok (.ok a), { m with pool := m.pool.hold p a }, picks.tail)) ∨
    ((∀ a, p.isHost a = true → (p, a) ∈ m.pool.held) ∧
      (liftM (acquire p none) : Request _).serve (m, picks) =
        (.ok (.error .exhausted), { m with pool := m.pool.learn p }, picks.tail)) := by
  have hcall := serve_acquire p none m picks
  rcases m.pool.acquire_any (picks 0) p with ⟨a, ha, hn, he⟩ | ⟨hall, detail, he⟩
  · refine .inl ⟨a, ha, hn, ?_⟩
    simp only [hcall, acquireCall, Option.map_none, Memory.perform, he,
      readAcquire_ok (Prefix.contains_of_isHost ha) (.inl rfl)]
  · refine .inr ⟨hall, ?_⟩
    simp only [hcall, acquireCall, Option.map_none, Memory.perform, he]
    rfl

theorem serve_acquire_wanted {p : Prefix} {w : Addr} (hc : p.contains w = true) (m : Memory)
    (picks : Picks) :
    ((p, w) ∉ m.pool.held ∧ (liftM (acquire p (some w)) : Request _).serve (m, picks) =
      (.ok (.ok w), { m with pool := m.pool.hold p w }, picks.tail)) ∨
    ((p, w) ∈ m.pool.held ∧ (liftM (acquire p (some w)) : Request _).serve (m, picks) =
      (.ok (.error .taken), { m with pool := m.pool.learn p }, picks.tail)) := by
  have hcall := serve_acquire p (some w) m picks
  rcases m.pool.acquire_wanted (picks 0) hc with ⟨hn, he⟩ | ⟨hh, detail, he⟩
  · refine .inl ⟨hn, ?_⟩
    simp only [hcall, acquireCall, Option.map_some, Memory.perform, he,
      readAcquire_ok hc (.inr rfl)]
  · refine .inr ⟨hh, ?_⟩
    simp only [hcall, acquireCall, Option.map_some, Memory.perform, he]
    rfl

/-- Any address is taken from the first of the prefixes that has one; only where all hosts of all
prefixes are held there is none. -/
theorem serve_anyAddressOf (network : String) (f : Family) (ps : List Prefix) (m : Memory)
    (picks : Picks) :
    ∃ pool picks', (∃ ps₁ p ps₂ a, ps = ps₁ ++ p :: ps₂ ∧
      (∀ q ∈ ps₁, ∀ b, q.isHost b = true → (q, b) ∈ m.pool.held) ∧ p.isHost a = true ∧
      (p, a) ∉ m.pool.held ∧ pool.held = m.pool.held.insert (p, a) ∧
      (anyAddressOf network f ps).serve (m, picks) = (.ok ⟨a, p⟩, { m with pool := pool }, picks')) ∨
    ((∀ q ∈ ps, ∀ b, q.isHost b = true → (q, b) ∈ m.pool.held) ∧ pool.held = m.pool.held ∧
      (anyAddressOf network f ps).serve (m, picks) =
        (.error (.exhausted f network), { m with pool := pool }, picks')) := by
  induction ps generalizing m picks with
  | nil => exact ⟨m.pool, picks, .inr ⟨nofun, rfl, rfl⟩⟩
  | cons p ps ih =>
    rcases serve_acquire_any p m picks with ⟨a, ha, hn, hserve⟩ | ⟨hall, hserve⟩
    · refine ⟨m.pool.hold p a, picks.tail, .inl ⟨[], p, ps, a, rfl, nofun, ha, hn, rfl, ?_⟩⟩
      exact serve_bind_ok hserve
    · obtain ⟨pool, picks', h⟩ := ih { m with pool := m.pool.learn p } picks.tail
      refine ⟨pool, picks', ?_⟩
      rcases h with ⟨ps₁, q, ps₂, a, rfl, hfull, ha, hn, hheld, h⟩ | ⟨hfull, hheld, h⟩
      · refine .inl ⟨p :: ps₁, q, ps₂, a, rfl, ?_, ha, hn, hheld, ?_⟩
        · exact List.forall_mem_cons.2 ⟨hall, hfull⟩
        · exact (serve_bind_ok hserve).trans h
      · refine .inr ⟨List.forall_mem_cons.2 ⟨hall, hfull⟩, hheld, ?_⟩
        exact (serve_bind_ok hserve).trans h

/-- A specific address is taken from the first prefix that contains it, unless it is held there. -/
theorem serve_specificAddress {n : Network} {literal : String} {w : Addr}
    (hw : readLiteral literal = .ok w) (m : Memory) (picks : Picks) :
    ∃ pool picks', (prefixFor? n w = none ∧ pool = m.pool ∧
      (specificAddress n literal).serve (m, picks) =
        (.error (.invalid (.literalOutside w n.id)), { m with pool := pool }, picks')) ∨
    (∃ p, prefixFor? n w = some p ∧ (p, w) ∈ m.pool.held ∧ pool.held = m.pool.held ∧
      (specificAddress n literal).serve (m, picks) =
        (.error (.conflict (.taken w)), { m with pool := pool }, picks')) ∨
    (∃ p, prefixFor? n w = some p ∧ (p, w) ∉ m.pool.held ∧
      pool.held = m.pool.held.insert (p, w) ∧
      (specificAddress n literal).serve (m, picks) = (.ok ⟨w, p⟩, { m with pool := pool }, picks')) := by
  have hread : (Request.ofExcept (readLiteral literal)).serve (m, picks) = (.ok w, m, picks) := by
    rw [serve_ofExcept, hw]
  cases hp : prefixFor? n w with
  | none =>
    refine ⟨m.pool, picks, .inl ⟨rfl, rfl, ?_⟩⟩
    unfold specificAddress
    rw [serve_bind_ok hread, hp]
    rfl
  | some p =>
    have hc : p.contains w = true := by simpa using List.find?_some hp
    rcases serve_acquire_wanted hc m picks with ⟨hn, hserve⟩ | ⟨hh, hserve⟩
    · refine ⟨m.pool.hold p w, picks.tail, .inr (.inr ⟨p, rfl, hn, rfl, ?_⟩)⟩
      unfold specificAddress
      rw [serve_bind_ok hread, hp]
      exact serve_bind_ok hserve
    · refine ⟨m.pool.learn p, picks.tail, .inr (.inl ⟨p, rfl, hh, rfl, ?_⟩)⟩
      unfold specificAddress
      rw [serve_bind_ok hread, hp]
      exact serve_bind_ok hserve

/-! ## Records -/

/-- The first record with an id is read, if it is in view. -/
theorem serve_get_of_find? (repo : Repository) {id : String} {r : Record}
    (hf : m.store.find? id = some r) (picks : Picks) :
    (repo.get id).serve (m, picks) =
      (if repo.scope.admits r.projectId then .ok r else .error (.notFound (Store.subject id)), m,
        picks.tail) := by
  have hask : (Request.ask (.storeGet id)).serve (m, picks) = (.ok (.ok r), m, picks.tail) := by
    rw [serve_ask]
    simp only [Memory.perform, Store.get, hf]
  have hrest : (Request.accept (Except.ok r)).serve (m, picks.tail) = (.ok r, m, picks.tail) := rfl
  unfold Repository.get
  rw [serve_bind_ok hask, serve_bind_ok hrest]
  by_cases ha : repo.scope.admits r.projectId = true
  · rw [if_pos ha, if_pos ha, serve_pure]
  · rw [if_neg ha, if_neg ha, serve_throw]

/-- A record in view is read; all else is reported as not there. -/
theorem serve_get (repo : Repository) (id : String) (hids : (m.store.records.map Record.id).Nodup)
    (picks : Picks) :
    (∃ r ∈ m.store.records, r.id = id ∧ repo.scope.admits r.projectId = true ∧
      (repo.get id).serve (m, picks) = (.ok r, m, picks.tail)) ∨
    ((∀ r ∈ m.store.records, r.id = id → repo.scope.admits r.projectId = false) ∧
      (repo.get id).serve (m, picks) = (.error (.notFound (Store.subject id)), m, picks.tail)) := by
  cases hf : m.store.find? id with
  | none =>
    have hask : (Request.ask (.storeGet id)).serve (m, picks) =
        (.ok (.error (.notFound (Store.subject id))), m, picks.tail) := by
      rw [serve_ask]
      simp only [Memory.perform, Store.get, hf]
    refine .inr ⟨fun r hr hid => absurd hid (Store.find?_eq_none_iff.1 hf r hr), ?_⟩
    unfold Repository.get
    rw [serve_bind_ok hask]
    rfl
  | some r =>
    have hget := serve_get_of_find? repo hf picks
    obtain ⟨hr, hid⟩ := Store.mem_of_find? hf
    by_cases ha : repo.scope.admits r.projectId = true
    · rw [if_pos ha] at hget
      exact .inl ⟨r, hr, hid, ha, hget⟩
    · rw [if_neg ha] at hget
      refine .inr ⟨fun o ho hoid => ?_, hget⟩
      rw [Store.eq_of_id_eq hids ho hr (hoid.trans hid.symm)]
      exact Bool.eq_false_iff.2 ha

theorem serve_list (repo : Repository) (q : Query) (m : Memory) (picks : Picks) :
    (repo.list q).serve (m, picks) =
      (.ok (((m.store.list (q.within repo.scope)).filter fun r => !r.tags.isMachineBound)), m,
        picks.tail) := rfl

/-- A record with a pair of its own is stored. -/
theorem serve_persist (repo : Repository) {r : Record}
    (hr : ∀ o ∈ m.store.records, o.slot ≠ r.slot) (picks : Picks) :
    (repo.persist r).serve (m, picks) = (.ok (m.store.numberedNext r), { m with store :=
      ⟨m.store.nextId + 1, m.store.records ++ [m.store.numberedNext r]⟩ }, picks.tail) := by
  have hcreate : m.store.create r = (.ok (m.store.numberedNext r),
      ⟨m.store.nextId + 1, m.store.records ++ [m.store.numberedNext r]⟩) := by
    rcases m.store.create_eq r with ⟨⟨o, ho, he⟩, -⟩ | ⟨-, he⟩
    · exact absurd he (hr o ho)
    · exact he
  have hperform : m.perform (picks 0) (.storeCreate r) = (.ok (m.store.numberedNext r), { m with
      store := ⟨m.store.nextId + 1, m.store.records ++ [m.store.numberedNext r]⟩ }) := by
    simp only [Memory.perform, hcreate]
  unfold Repository.persist
  rw [serve_guarded, hperform]
  rfl

/-- A record in view is changed. -/
theorem serve_update (repo : Repository) (now : Instant) (req : Wire.UpdateRequest)
    (hids : (m.store.records.map Record.id).Nodup) (picks : Picks) :
    ∃ picks', ((∀ r ∈ m.store.records, r.id = req.ip → repo.scope.admits r.projectId = false) ∧
      (repo.update now req).serve (m, picks) =
        (.error (.notFound (Store.subject req.ip)), m, picks')) ∨
    (∃ old ∈ m.store.records, old.id = req.ip ∧ repo.scope.admits old.projectId = true ∧
      ((∃ e, Repository.revise now req old = .error e ∧
        (repo.update now req).serve (m, picks) = (.error e, m, picks')) ∨
      ∃ new l₁ l₂, Repository.revise now req old = .ok new ∧ m.store.records = l₁ ++ old :: l₂ ∧
        (repo.update now req).serve (m, picks) =
          (.ok new, { m with store := ⟨m.store.nextId, l₁ ++ new :: l₂⟩ }, picks'))) := by
  unfold Repository.update
  rcases serve_get repo req.ip hids picks with ⟨old, hold, hid, ha, hget⟩ | ⟨hnone, hget⟩
  · rw [serve_bind_ok hget]
    cases hrev : Repository.revise now req old with
    | error e =>
      exact ⟨picks.tail, .inr ⟨old, hold, hid, ha, .inl ⟨e, hrev,
        serve_bind_error (serve_ofExcept _ _)⟩⟩⟩
    | ok new =>
      obtain ⟨l₁, l₂, hl, hu⟩ := Store.update_of_mem hids hold new
      have hask : (Request.ask (.storeUpdate new old)).serve (m, picks.tail) = (.ok (.ok ()),
          { m with store := ⟨m.store.nextId, l₁ ++ new :: l₂⟩ }, picks.tail.tail) := by
        rw [serve_ask]
        simp only [Memory.perform, hu]
      refine ⟨picks.tail.tail, .inr ⟨old, hold, hid, ha, .inr ⟨new, l₁, l₂, hrev, hl, ?_⟩⟩⟩
      rw [serve_bind_ok (serve_ofExcept _ _), serve_bind_ok hask]
      rfl
  · exact ⟨picks.tail, .inl ⟨hnone, serve_bind_error hget⟩⟩

/-- A record in view, the pair of which is held, goes together with the pair. -/
theorem serve_delete (repo : Repository) (id : String)
    (hids : (m.store.records.map Record.id).Nodup)
    (hheld : ∀ r ∈ m.store.records, r.slot ∈ m.pool.held) (picks : Picks) :
    ∃ picks', ((∀ r ∈ m.store.records, r.id = id → repo.scope.admits r.projectId = false) ∧
      (repo.delete id).serve (m, picks) = (.error (.notFound (Store.subject id)), m, picks')) ∨
    (∃ r l₁ l₂, r.id = id ∧ repo.scope.admits r.projectId = true ∧
      m.store.records = l₁ ++ r :: l₂ ∧ (repo.delete id).serve (m, picks) =
        (.ok r, { m with pool := m.pool.drop r.parentPrefix r.address,
                         store := ⟨m.store.nextId, l₁ ++ l₂⟩ }, picks')) := by
  unfold Repository.delete
  rcases serve_get repo id hids picks with ⟨r, hr, hid, ha, hget⟩ | ⟨hnone, hget⟩
  · obtain ⟨l₁, l₂, hl, hd⟩ := Store.delete_of_mem hids hr
    have hrelease : (release r.address r.parentPrefix).serve (m, picks.tail) = (.ok .released,
        { m with pool := m.pool.drop r.parentPrefix r.address }, picks.tail.tail) := by
      rcases m.pool.release_eq r.address r.parentPrefix with ⟨-, he⟩ | ⟨hn, -⟩
      · unfold release
        rw [serve_bind_ok (serve_ask _ _ _)]
        simp only [releaseCall, Memory.perform, he]
        rfl
      · exact absurd (hheld r hr) hn
    have hask : (Request.ask (.storeDelete r)).serve
        ({ m with pool := m.pool.drop r.parentPrefix r.address }, picks.tail.tail) = (.ok (.ok ()),
        { m with pool := m.pool.drop r.parentPrefix r.address,
                 store := ⟨m.store.nextId, l₁ ++ l₂⟩ }, picks.tail.tail.tail) := by
      rw [serve_ask]
      simp only [Memory.perform, hd]
    refine ⟨picks.tail.tail.tail, .inr ⟨r, l₁, l₂, hid, ha, hl, ?_⟩⟩
    rw [serve_bind_ok hget, serve_bind_ok hrelease, serve_bind_ok hask]
    rfl
  · exact ⟨picks.tail, .inl ⟨hnone, serve_bind_error hget⟩⟩

/-! ## Creates -/

/-- The part of a create that takes an address. -/
def Grant.take (g : Grant) : Option String → Request Lease
  | some literal => specificAddress g.network literal
  | none => anyAddress g.network g.family

/-- A create that passes its checks takes an address and records it. -/
theorem serve_create (repo : Repository) (stamp : Stamp) (req : Wire.CreateRequest) (m : Memory)
    (picks : Picks) :
    ∃ picks', (∃ e, m.catalog.grant req = .error e ∧
      (repo.create stamp req).serve (m, picks) = (.error e, m, picks')) ∨
    (∃ g, m.catalog.grant req = .ok g ∧ (repo.create stamp req).serve (m, picks) =
      (g.take req.ip >>= fun lease => repo.persist
        (Repository.newRecord stamp req g.project g.network g.retention lease) :
          Request Record).serve (m, picks')) := by
  unfold Repository.create
  have hproject : (ask (.project req.project)).serve (m, picks) =
      (.ok (m.catalog.project req.project), m, picks.tail) := rfl
  rw [serve_bind_ok hproject]
  cases hp : m.catalog.project req.project with
  | error e => exact ⟨picks.tail, .inl ⟨_, Catalog.grant_of_project hp, rfl⟩⟩
  | ok p =>
    have hnetwork : (ask (.network p.id req.network)).serve (m, picks.tail) =
        (.ok (m.catalog.network req.network), m, picks.tail.tail) := rfl
    refine ⟨picks.tail.tail, ?_⟩
    rw [serve_bind_ok (serve_accept _ _), serve_bind_ok hnetwork]
    cases hn : m.catalog.network req.network with
    | error e => exact .inl ⟨_, Catalog.grant_of_network hp hn, rfl⟩
    | ok n =>
      rw [Catalog.grant_of_found hp hn, serve_bind_ok (serve_accept _ _)]
      cases chooseFamily req.family req.ip n with
      | error e => exact .inl ⟨e, rfl, rfl⟩
      | ok f =>
        rw [serve_bind_ok (serve_ofExcept _ _)]
        cases checkOpen p n with
        | error e => exact .inl ⟨e, rfl, rfl⟩
        | ok u =>
          rw [serve_bind_ok (serve_ofExcept _ _)]
          cases Repository.requestedRetention req with
          | error e => exact .inl ⟨e, rfl, rfl⟩
          | ok retention =>
            rw [serve_bind_ok (serve_ofExcept _ _)]
            refine .inr ⟨⟨p, n, f, retention⟩, rfl, ?_⟩
            cases req.ip with
            | none => rfl
            | some literal => rfl

/-! ## The service -/

/-- A request that names its project gets the repository of it. -/
theorem Service.repository_eq (s : Service) {project : String} (hp : project ≠ "") :
    s.repository project = (pure ⟨.project project, s.releaseOnRefusal⟩ : Request Repository) := by
  have hscope : Scope.ofProject project = .ok (.project project) := by
    simp [Scope.ofProject, hp]
  unfold Service.repository
  rw [hscope]
  rfl

/-- The project of a request is checked first. -/
theorem serve_scoped {α : Type} (s : Service) (project : String) (body : Repository → Request α)
    (x : Memory × Picks) :
    (s.repository project >>= body : Request α).serve x =
      if project = "" then (.error (.invalid .projectMissing), x)
      else (body ⟨.project project, s.releaseOnRefusal⟩).serve x := by
  by_cases hp : project = ""
  · subst hp
    rfl
  · rw [s.repository_eq hp, serve_bind_ok (serve_pure _ _), if_neg hp]

theorem serve_map {α β : Type} (x : Request α) (f : α → β) (t : Memory × Picks) :
    (do return f (← x) : Request β).serve t = ((x.serve t).1.map f, (x.serve t).2) := by
  rw [serve_bind]
  rcases x.serve t with ⟨e | a, t'⟩
  · rfl
  · rfl

/-- An answer with a record is the wire form of what the repository of the project answers. -/
theorem serve_record (s : Service) (project : String) (body : Repository → Request Record)
    (x : Memory × Picks) :
    (do
      let ip ← (do
        let repo ← s.repository project
        return (← body repo).toWire : Request Wire.Ip)
      return Service.Answer.record ip : Request Service.Answer).serve x =
    if project = "" then (.error (.invalid .projectMissing), x)
    else (((body ⟨.project project, s.releaseOnRefusal⟩).serve x).1.map fun r => .record r.toWire,
      ((body ⟨.project project, s.releaseOnRefusal⟩).serve x).2) := by
  rw [serve_map, serve_scoped]
  by_cases hp : project = ""
  · rw [if_pos hp, if_pos hp]
    rfl
  · rw [if_neg hp, if_neg hp, serve_map]
    rcases (body ⟨.project project, s.releaseOnRefusal⟩).serve x with ⟨e | r, t⟩
    · rfl
    · rfl

/-- A query is for the project that its request names. -/
theorem Query.within_project {req : Wire.ListRequest} {q : Query}
    (hq : Query.ofRequest req = .ok q) (hp : req.project.getD "" ≠ "") :
    q.within (.project (req.project.getD "")) = q := by
  obtain ⟨address, -, hq⟩ := bind_eq_ok.1 hq
  obtain ⟨allocationId, -, hq⟩ := bind_eq_ok.1 hq
  obtain ⟨parentPrefix, -, hq⟩ := bind_eq_ok.1 hq
  cases hq
  cases hproject : req.project with
  | none => simp [hproject] at hp
  | some project => rfl

/-- An answer with records holds those that the query of the request admits. -/
theorem serve_records (s : Service) (req : Wire.ListRequest) (m : Memory) (picks : Picks) :
    (s.request (.list req)).serve (m, picks) =
      if req.project.getD "" = "" then (.error (.invalid .projectMissing), m, picks)
      else
        match Query.ofRequest req with
        | .error e => (.error e, m, picks)
        | .ok q => (.ok (.records ((m.store.records.filter fun r =>
            q.admits r && !r.tags.isMachineBound).map Record.toWire)), m, picks.tail) := by
  show (do return Service.Answer.records (← s.list req) : Request Service.Answer).serve _ = _
  unfold Service.list
  rw [serve_map, serve_scoped]
  by_cases hp : req.project.getD "" = ""
  · rw [if_pos hp, if_pos hp]
    rfl
  · rw [if_neg hp, if_neg hp]
    cases hq : Query.ofRequest req with
    | error e =>
      rw [serve_bind_error (serve_ofExcept _ _)]
      rfl
    | ok q =>
      have hlist : (m.store.list (q.within (.project (req.project.getD "")))).filter
          (fun r => !r.tags.isMachineBound) =
          m.store.records.filter fun r => q.admits r && !r.tags.isMachineBound := by
        rw [Query.within_project hq hp, Store.list, List.filter_filter]
        simp only [Bool.and_comm]
      rw [serve_bind_ok (serve_ofExcept _ _), serve_map, serve_list, hlist]
      rfl

end Ipam
