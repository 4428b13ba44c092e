import Ipam.Service

/-!
# What a request checks by itself

A create looks its project and its network up and checks what it is asked for before it takes an
address (`Catalog.grant`). Its checks, those of an update and those of a list find nothing but that
the request is wrong, that it names nothing that there is, or that the network is not open to the
project.
-/

namespace Ipam

theorem bind_eq_ok {ε α β : Type} {x : Except ε α} {f : α → Except ε β} {b : β} :
    x >>= f = .ok b ↔ ∃ a, x = .ok a ∧ f a = .ok b := by
  cases x with
  | error e => simp [bind, Except.bind]
  | ok a => simp [bind, Except.bind]

theorem bind_eq_error {ε α β : Type} {x : Except ε α} {f : α → Except ε β} {e : ε} :
    x >>= f = .error e ↔ x = .error e ∨ ∃ a, x = .ok a ∧ f a = .error e := by
  cases x with
  | error e => simp [bind, Except.bind]
  | ok a => simp [bind, Except.bind]

theorem mapError_eq_ok {ε ε' α : Type} {f : ε → ε'} {x : Except ε α} {a : α} :
    x.mapError f = .ok a ↔ x = .ok a := by
  cases x with
  | error e => exact ⟨nofun, nofun⟩
  | ok b =>
    show Except.ok b = .ok a ↔ _
    simp

theorem mapError_eq_error {ε ε' α : Type} {f : ε → ε'} {x : Except ε α} {e : ε'} :
    x.mapError f = .error e ↔ ∃ e', x = .error e' ∧ f e' = e := by
  cases x with
  | error e' =>
    show Except.error (f e') = .error e ↔ _
    simp
  | ok a => exact ⟨nofun, nofun⟩

/-! ## The checks of a create -/

/-- What a create works with once it has passed its checks. -/
structure Grant where
  /-- The project that the address is for. -/
  project : Project
  /-- The network to take it from. -/
  network : Network
  /-- The family of the address. -/
  family : Family
  /-- How long the address is kept. -/
  retention : Retention

/-- The checks of a create, in their order. -/
def Catalog.grant (c : Catalog) (req : Wire.CreateRequest) : Except RequestError Grant := do
  let p ← (c.project req.project).mapError .ofStore
  let n ← (c.network req.network).mapError .ofStore
  let family ← chooseFamily req.family req.ip n
  checkOpen p n
  let retention ← Repository.requestedRetention req
  return ⟨p, n, family, retention⟩

theorem Catalog.grant_of_project {c : Catalog} {req : Wire.CreateRequest} {e : StoreError}
    (h : c.project req.project = .error e) : c.grant req = .error (.ofStore e) := by
  unfold grant
  rw [h]
  rfl

theorem Catalog.grant_of_network {c : Catalog} {req : Wire.CreateRequest} {p : Project}
    {e : StoreError} (hp : c.project req.project = .ok p)
    (hn : c.network req.network = .error e) : c.grant req = .error (.ofStore e) := by
  unfold grant
  rw [hp, hn]
  rfl

theorem Catalog.grant_of_found {c : Catalog} {req : Wire.CreateRequest} {p : Project} {n : Network}
    (hp : c.project req.project = .ok p) (hn : c.network req.network = .ok n) :
    c.grant req = (do
      let family ← chooseFamily req.family req.ip n
      checkOpen p n
      let retention ← Repository.requestedRetention req
      return ⟨p, n, family, retention⟩) := by
  unfold grant
  rw [hp, hn]
  rfl

theorem Catalog.grant_eq_ok {c : Catalog} {req : Wire.CreateRequest} {g : Grant}
    (h : c.grant req = .ok g) :
    c.project req.project = .ok g.project ∧ c.network req.network = .ok g.network ∧
      chooseFamily req.family req.ip g.network = .ok g.family ∧
      checkOpen g.project g.network = .ok () ∧
      Repository.requestedRetention req = .ok g.retention := by
  obtain ⟨p, hp, h⟩ := bind_eq_ok.1 h
  obtain ⟨n, hn, h⟩ := bind_eq_ok.1 h
  obtain ⟨f, hf, h⟩ := bind_eq_ok.1 h
  obtain ⟨u, ho, h⟩ := bind_eq_ok.1 h
  obtain ⟨retention, hr, h⟩ := bind_eq_ok.1 h
  cases h
  exact ⟨mapError_eq_ok.1 hp, mapError_eq_ok.1 hn, hf, ho, hr⟩

/-- The specific address that a create asks for is readable once the checks are passed. -/
theorem Catalog.exists_readLiteral {c : Catalog} {req : Wire.CreateRequest} {g : Grant}
    (hg : c.grant req = .ok g) {literal : String} (hip : req.ip = some literal) :
    ∃ w, readLiteral literal = .ok w := by
  obtain ⟨-, -, hf, -, -⟩ := Catalog.grant_eq_ok hg
  rw [hip] at hf
  cases hw : readLiteral literal with
  | ok w => exact ⟨w, rfl⟩
  | error e =>
    cases hname : req.family with
    | none =>
      simp [chooseFamily, hname, hw, Except.map] at hf
    | some name =>
      rw [hname] at hf
      cases hf

theorem Catalog.project_eq_error {c : Catalog} {id : String} {e : StoreError}
    (h : c.project id = .error e) : e = .notFound ("project " ++ id) := by
  unfold project at h
  split at h
  · cases h
  · cases h
    rfl

theorem Catalog.network_eq_error {c : Catalog} {id : String} {e : StoreError}
    (h : c.network id = .error e) : e = .notFound ("network " ++ id) := by
  unfold network at h
  split at h
  · cases h
  · cases h
    rfl

theorem chooseFamily_kind {requested : Option Wire.FamilyName} {literal : Option String}
    {n : Network} {e : RequestError} (h : chooseFamily requested literal n = .error e) :
    e.kind = .invalidArgument := by
  unfold chooseFamily at h
  split at h
  · cases h
    rfl
  · unfold readLiteral at h
    split at h
    · cases h
    · cases h
      rfl
  · rename_i name
    rcases bind_eq_error.1 h with h | ⟨f, hf, h⟩
    · cases name <;> cases h
      rfl
    · split at h
      · cases h
      · cases h
        rfl
  · split at h <;> cases h

theorem Wire.Kind.retention_kind {k : Wire.Kind} {e : RequestError} (h : k.retention = .error e) :
    e.kind = .invalidArgument := by
  cases k <;> cases h
  rfl

theorem Repository.requestedRetention_kind {req : Wire.CreateRequest} {e : RequestError}
    (h : requestedRetention req = .error e) : e.kind = .invalidArgument := by
  unfold requestedRetention at h
  split at h
  · exact Wire.Kind.retention_kind h
  · cases h

theorem Catalog.grant_kind {c : Catalog} {req : Wire.CreateRequest} {e : RequestError}
    (h : c.grant req = .error e) :
    e.kind = .invalidArgument ∨ e.kind = .notFound ∨ e.kind = .permissionDenied := by
  rcases bind_eq_error.1 h with h | ⟨p, -, h⟩
  · obtain ⟨e', he, rfl⟩ := mapError_eq_error.1 h
    rw [Catalog.project_eq_error he]
    exact .inr (.inl rfl)
  rcases bind_eq_error.1 h with h | ⟨n, -, h⟩
  · obtain ⟨e', he, rfl⟩ := mapError_eq_error.1 h
    rw [Catalog.network_eq_error he]
    exact .inr (.inl rfl)
  rcases bind_eq_error.1 h with h | ⟨f, -, h⟩
  · exact .inl (chooseFamily_kind h)
  rcases bind_eq_error.1 h with h | ⟨u, -, h⟩
  · unfold checkOpen at h
    split at h
    · cases h
    · cases h
      exact .inr (.inr rfl)
  rcases bind_eq_error.1 h with h | ⟨retention, -, h⟩
  · exact .inl (Repository.requestedRetention_kind h)
  · cases h

/-! ## Other checks -/

theorem Repository.revise_kind {now : Instant} {req : Wire.UpdateRequest} {old : Record}
    {e : RequestError} (h : revise now req old = .error e) : e.kind = .invalidArgument := by
  unfold revise at h
  split at h
  · rcases bind_eq_error.1 h with h | ⟨retention, -, h⟩
    · exact Wire.Kind.retention_kind h
    · cases h
  · cases h

theorem Query.readOptional_kind {α : Type} {read : String → Except RequestError α}
    (hread : ∀ s e, read s = .error e → e.kind = .invalidArgument) {raw : Option String}
    {e : RequestError} (h : readOptional read raw = .error e) : e.kind = .invalidArgument := by
  cases raw with
  | none => cases h
  | some s =>
    cases hs : read s with
    | ok a => simp [readOptional, hs, Except.map] at h
    | error e' =>
      simp only [readOptional, hs, Except.map, Except.error.injEq] at h
      exact h ▸ hread s e' hs

theorem Query.ofRequest_kind {req : Wire.ListRequest} {e : RequestError}
    (h : Query.ofRequest req = .error e) : e.kind = .invalidArgument := by
  rcases bind_eq_error.1 h with h | ⟨address, -, h⟩
  · refine readOptional_kind ?_ h
    intro s e he
    unfold readAddress at he
    split at he <;> cases he
    rfl
  rcases bind_eq_error.1 h with h | ⟨allocationId, -, h⟩
  · refine readOptional_kind ?_ h
    intro s e he
    unfold readUuid at he
    split at he <;> cases he
    rfl
  rcases bind_eq_error.1 h with h | ⟨parentPrefix, -, h⟩
  · refine readOptional_kind ?_ h
    intro s e he
    unfold readPrefix at he
    split at he <;> cases he
    rfl
  · cases h

end Ipam
