import Ipam.Proofs.Course.Placement
import Ipam.Proofs.Course.Transcript

/-!
# The course of a create

Whatever a create is answered, it looks its project and its network up, checks the request against
them, tries prefixes until one gives it an address, and only then hands a record to the store; after
a refusal of the store it may give the address back, and then it is over. `Repository.Creating` lists
all it can have exchanged, together with where it stands then, from one such list for each part:
`Hunting` for the address, `Repository.Preparing` for all up to the record, and
`Repository.Persisting` for the rest.

So a request that is wrong is refused before any address is spent (`Repository.create_calls`).
-/

namespace Ipam

/-! ## The part before the record is stored -/

namespace Repository

/-- The part of a create that comes up with the record to store. -/
def prepare (stamp : Stamp) (req : Wire.CreateRequest) : Request Record := do
  let p ← Request.accept (← Request.ask (.project req.project))
  let n ← Request.accept (← Request.ask (.network p.id req.network))
  let family ← Request.ofExcept (chooseFamily req.family req.ip n)
  Request.ofExcept (checkOpen p n)
  let retention ← Request.ofExcept (requestedRetention req)
  let lease ← match req.ip with
    | some literal => specificAddress n literal
    | none => anyAddress n family
  return newRecord stamp req p n retention lease

theorem create_eq (repo : Repository) (stamp : Stamp) (req : Wire.CreateRequest) :
    repo.create stamp req = prepare stamp req >>= repo.persist := by
  unfold create prepare
  cases req.ip <;> simp only [bind_assoc, pure_bind]

end Repository

/-! ## Lookups -/

/-- Whether a call is one of the lookups. -/
def Call.isLookup : Call → Bool
  | .project _ => true
  | .network .. => true
  | _ => false

/-- A lookup does not find anything, or it is given up. -/
def Exchange.Misses : Exchange → Prop
  | ⟨.project _, out⟩ => ∀ p, out ≠ .ok (.ok p)
  | ⟨.network .., out⟩ => ∀ n, out ≠ .ok (.ok n)
  | _ => False

theorem Exchange.not_misses {x : Exchange} (h : x.call.isLookup = false) : ¬ x.Misses := by
  obtain ⟨call, out⟩ := x
  cases call with
  | project id => cases h
  | network project id => cases h
  | _ => exact id

/-- What a create exchanges that finds its project and its network. -/
def Repository.found (req : Wire.CreateRequest) (p : Project) (n : Network) : List Exchange :=
  [⟨.project req.project, .ok (.ok p)⟩, ⟨.network p.id req.network, .ok (.ok n)⟩]

/-! ## The hunt for an address -/

/-- The allocator has no address in a prefix. -/
def Exchange.FindsNone (e : Exchange) : Prop :=
  ∃ p refusal, e = ⟨acquireCall p none, .ok (.error refusal)⟩ ∧ refusal.code = .notFound

/-- A kind of the errors that a request is refused with as it stands. -/
def ErrorKind.IsDenial (k : ErrorKind) : Prop := k = .invalidArgument ∨ k = .permissionDenied

theorem not_isDenial_interrupted (i : Interruption) :
    ¬ (RequestError.interrupted i).kind.IsDenial := by
  cases i <;> simp [ErrorKind.IsDenial, RequestError.kind]

theorem not_isDenial_internal (fault : BackendFault) :
    ¬ (RequestError.internal fault).kind.IsDenial := by
  simp [ErrorKind.IsDenial, RequestError.kind]

theorem not_isDenial_conflict (cause : Conflict) :
    ¬ (RequestError.conflict cause).kind.IsDenial := by
  simp [ErrorKind.IsDenial, RequestError.kind]

theorem not_isDenial_ofStore (e : StoreError) : ¬ (RequestError.ofStore e).kind.IsDenial := by
  cases e <;> simp [ErrorKind.IsDenial, RequestError.ofStore, RequestError.kind]

/-- The text of an answer names an address that is accepted, or the allocator is at fault. -/
theorem readAcquired_cases (p : Prefix) (wanted : Option Addr) (raw : String) :
    (∃ a, readAcquired p wanted raw = .ok a) ∨ ∃ fault, readAcquired p wanted raw = acquireFault fault := by
  unfold readAcquired
  split
  · exact .inr ⟨_, rfl⟩
  · next a hparse =>
    by_cases hc : p.contains a = true
    · rw [if_neg (by simp [hc])]
      cases wanted with
      | none => exact .inl ⟨a, rfl⟩
      | some w =>
        by_cases hw : w = a
        · exact .inl ⟨a, if_pos hw⟩
        · exact .inr ⟨_, if_neg hw⟩
    · rw [if_pos (by simp [hc])]
      exact .inr ⟨_, rfl⟩

/-- What an attempt to take an address comes to. -/
theorem readAcquire_cases (p : Prefix) (wanted : Option Addr)
    (out : Except Interruption (Except AllocatorError AcquireAnswer)) :
    (∃ i, out = .error i ∧ readAcquire p wanted out = .error (.failed (.interrupted i))) ∨
    (∃ refusal, out = .ok (.error refusal) ∧ refusal.code = .notFound ∧
      readAcquire p wanted out = .error .exhausted) ∨
    (∃ refusal, out = .ok (.error refusal) ∧ refusal.code = .alreadyExists ∧
      readAcquire p wanted out = .error .taken) ∨
    (∃ fault, readAcquire p wanted out = .error (.failed (.internal fault))) ∨
    ∃ a, readAcquire p wanted out = .ok a := by
  rcases out with i | refusal | answer
  · exact .inl ⟨i, rfl, rfl⟩
  · obtain ⟨code, detail⟩ := refusal
    cases code with
    | notFound => exact .inr (.inl ⟨_, rfl, rfl, rfl⟩)
    | alreadyExists => exact .inr (.inr (.inl ⟨_, rfl, rfl, rfl⟩))
    | _ => exact .inr (.inr (.inr (.inl ⟨_, rfl⟩)))
  · rcases readAcquired_cases p wanted answer.ip with ⟨a, ha⟩ | ⟨fault, hf⟩
    · exact .inr (.inr (.inr (.inr ⟨a, ha⟩)))
    · exact .inr (.inr (.inr (.inl ⟨fault, hf⟩)))

/-- What the hunt for an address can exchange, and where it stands then: some prefixes have no
address, and then one decides. -/
inductive Hunting : List Exchange → Standing (Except RequestError Lease) → Prop where
  /-- It tries the next prefix. -/
  | tries {tried : List Exchange} (h : ∀ e ∈ tried, e.FindsNone) (p : Prefix)
    (wanted : Option Addr) : Hunting tried (.calls (acquireCall p wanted))
  /-- No prefix is left. -/
  | exhausted {tried : List Exchange} (h : ∀ e ∈ tried, e.FindsNone) (f : Family)
    (network : String) : Hunting tried (.over (.error (.exhausted f network)))
  /-- A prefix fails. -/
  | fails (tried : List Exchange) (h : ∀ e ∈ tried, e.FindsNone) (p : Prefix)
    (wanted : Option Addr) (out) (e : RequestError) (he : ¬ e.kind.IsDenial) :
    Hunting (tried ++ [⟨acquireCall p wanted, out⟩]) (.over (.error e))
  /-- A prefix gives an address. -/
  | takes (tried : List Exchange) (h : ∀ e ∈ tried, e.FindsNone) (lease : Lease)
    (wanted : Option Addr) (out) (hout : readAcquire lease.parent wanted out = .ok lease.address) :
    Hunting (tried ++ [⟨acquireCall lease.parent wanted, out⟩]) (.over (.ok lease))

theorem Hunting.isLookup_eq_false {es : List Exchange} {v : Standing (Except RequestError Lease)}
    (h : Hunting es v) : ∀ x ∈ es, x.call.isLookup = false := by
  have htried : ∀ {tried : List Exchange}, (∀ e ∈ tried, e.FindsNone) →
      ∀ x ∈ tried, x.call.isLookup = false := by
    intro tried htried x hx
    obtain ⟨p, refusal, rfl, -⟩ := htried x hx
    rfl
  cases h with
  | tries h p wanted => exact htried h
  | exhausted h f network => exact htried h
  | fails tried h p wanted out e he =>
    exact List.forall_mem_append.2 ⟨htried h, by simp [acquireCall, Call.isLookup]⟩
  | takes tried h lease wanted out hout =>
    exact List.forall_mem_append.2 ⟨htried h, by simp [acquireCall, Call.isLookup]⟩

theorem Hunting.cons {e : Exchange} {es : List Exchange} {v : Standing (Except RequestError Lease)}
    (he : e.FindsNone) (h : Hunting es v) : Hunting (e :: es) v := by
  cases h with
  | tries h p wanted => exact .tries (List.forall_mem_cons.2 ⟨he, h⟩) p wanted
  | exhausted h f network => exact .exhausted (List.forall_mem_cons.2 ⟨he, h⟩) f network
  | fails tried h p wanted out err hkind =>
    exact .fails (e :: tried) (List.forall_mem_cons.2 ⟨he, h⟩) p wanted out err hkind
  | takes tried h lease wanted out hout =>
    exact .takes (e :: tried) (List.forall_mem_cons.2 ⟨he, h⟩) lease wanted out hout

open Program

/-- A prefix that is tried first and fails ends the hunt. -/
theorem Hunting.of_throw {e : RequestError} {es : List Exchange}
    {v : Standing (Except RequestError Lease)} (h : Reaches (throw e : Request Lease) es v)
    (he : ¬ e.kind.IsDenial) (p : Prefix) (wanted : Option Addr) (out) :
    Hunting (⟨acquireCall p wanted, out⟩ :: es) v := by
  obtain ⟨rfl, rfl⟩ := Reaches.done_cases h
  exact .fails [] (by simp) p wanted out e he

/-- A prefix that is tried first and gives an address ends the hunt. -/
theorem Hunting.of_pure {lease : Lease} {es : List Exchange}
    {v : Standing (Except RequestError Lease)} (h : Reaches (pure lease : Request Lease) es v)
    {wanted : Option Addr} {out : Except Interruption (Except AllocatorError AcquireAnswer)}
    (hout : readAcquire lease.parent wanted out = .ok lease.address) :
    Hunting (⟨acquireCall lease.parent wanted, out⟩ :: es) v := by
  obtain ⟨rfl, rfl⟩ := Reaches.done_cases h
  exact .takes [] (by simp) lease wanted out hout

/-- How a request goes on after it has tried a prefix: an address and a failure are the end. -/
structure Settles (p : Prefix) (next : Except AcquireError Addr → Request Lease) : Prop where
  takes : ∀ a, next (.ok a) = pure ⟨a, p⟩
  fails : ∀ e, next (.error (.failed e)) = throw e

/-- A request that tries a prefix and is told that it has no address, or that the address is taken,
fails or tries others. -/
theorem Hunting.of_acquire {p : Prefix} {wanted : Option Addr}
    {next : Except AcquireError Addr → Request Lease} (hsettles : Settles p next)
    (htaken : ∃ e, next (.error .taken) = throw e ∧ ¬ e.kind.IsDenial)
    (hexhausted : (∃ e, next (.error .exhausted) = throw e ∧ ¬ e.kind.IsDenial) ∨
      wanted = none ∧ ∀ {es v}, Reaches (next (.error .exhausted)) es v → Hunting es v)
    {es : List Exchange} {v : Standing (Except RequestError Lease)}
    (h : Reaches (liftM (acquire p wanted) >>= next : Request Lease) es v) : Hunting es v := by
  rcases Reaches.guarded_cases h with ⟨rfl, rfl⟩ | ⟨out, fs, rfl, hnext⟩
  · exact .tries (by simp) p wanted
  replace hnext : Reaches (next (readAcquire p wanted out)) fs v := hnext
  rcases readAcquire_cases p wanted out with ⟨i, rfl, hr⟩ | ⟨refusal, rfl, hcode, hr⟩ |
    ⟨refusal, rfl, -, hr⟩ | ⟨fault, hr⟩ | ⟨a, hr⟩
  · rw [hr, hsettles.fails] at hnext
    exact .of_throw hnext (not_isDenial_interrupted i) p wanted _
  · rw [hr] at hnext
    rcases hexhausted with ⟨e, he, hkind⟩ | ⟨rfl, hothers⟩
    · rw [he] at hnext
      exact .of_throw hnext hkind p wanted _
    · exact (hothers hnext).cons ⟨p, refusal, rfl, hcode⟩
  · obtain ⟨e, he, hkind⟩ := htaken
    rw [hr, he] at hnext
    exact .of_throw hnext hkind p wanted _
  · rw [hr, hsettles.fails] at hnext
    exact .of_throw hnext (not_isDenial_internal fault) p wanted out
  · rw [hr, hsettles.takes] at hnext
    exact .of_pure hnext hr

theorem anyAddressOf_reaches {network : String} {f : Family} {ps : List Prefix} {es : List Exchange}
    {v : Standing (Except RequestError Lease)} (h : Reaches (anyAddressOf network f ps) es v) :
    Hunting es v := by
  induction ps generalizing es v with
  | nil =>
    obtain ⟨rfl, rfl⟩ := Reaches.done_cases h
    exact .exhausted (by simp) f network
  | cons p ps ih =>
    exact .of_acquire ⟨fun _ => rfl, fun _ => rfl⟩ ⟨_, rfl, not_isDenial_internal _⟩
      (.inr ⟨rfl, ih⟩) h

theorem readLiteral_kind {literal : String} {e : RequestError} (h : readLiteral literal = .error e) :
    e.kind = .invalidArgument := by
  unfold readLiteral at h
  split at h
  · cases h
  · cases h
    rfl

/-- A specific address is refused as it stands, or the first prefix that contains it decides. -/
theorem specificAddress_reaches {n : Network} {literal : String} {es : List Exchange}
    {v : Standing (Except RequestError Lease)} (h : Reaches (specificAddress n literal) es v) :
    (es = [] ∧ ∃ e, e.kind = .invalidArgument ∧ v = .over (.error e)) ∨ Hunting es v := by
  rcases Reaches.ofExcept_cases h with ⟨e, he, rfl, rfl⟩ | ⟨a, -, h₁⟩
  · exact .inl ⟨rfl, e, readLiteral_kind he, rfl⟩
  cases hp : prefixFor? n a with
  | none =>
    rw [hp] at h₁
    obtain ⟨rfl, rfl⟩ := Reaches.done_cases h₁
    exact .inl ⟨rfl, _, rfl, rfl⟩
  | some p =>
    rw [hp] at h₁
    exact .inr (.of_acquire ⟨fun _ => rfl, fun _ => rfl⟩ ⟨_, rfl, not_isDenial_conflict _⟩
      (.inl ⟨_, rfl, not_isDenial_internal _⟩) h₁)

/-! ## The record -/

theorem checkOpen_kind {p : Project} {n : Network} {e : RequestError} (h : checkOpen p n = .error e) :
    e.kind = .permissionDenied := by
  unfold checkOpen at h
  split at h
  · cases h
  · cases h
    rfl

namespace Repository

variable {repo : Repository}

/-- What a create can exchange once it has a record to store, and where it stands then. -/
inductive Persisting (repo : Repository) (r : Record) :
    List Exchange → Standing (Except RequestError Record) → Prop where
  /-- It stores the record. -/
  | stores : Persisting repo r [] (.calls (.storeCreate r))
  /-- The record is stored. -/
  | stored (made : Record) : Persisting repo r [⟨.storeCreate r, .ok (.ok made)⟩] (.over (.ok made))
  /-- The store does not answer in time. -/
  | lost (i : Interruption) :
    Persisting repo r [⟨.storeCreate r, .error i⟩] (.over (.error (.interrupted i)))
  /-- The store refuses the record, and the address is kept. -/
  | keeps (e : StoreError) (h : repo.releaseOnRefusal = false) :
    Persisting repo r [⟨.storeCreate r, .ok (.error e)⟩] (.over (.error (.ofStore e)))
  /-- The store refuses the record, and the address is to be given back. -/
  | releases (e : StoreError) (h : repo.releaseOnRefusal = true) :
    Persisting repo r [⟨.storeCreate r, .ok (.error e)⟩] (.calls (releaseCall r.address r.parentPrefix))
  /-- The store has refused the record, and the address was given back. -/
  | released (e : StoreError) (h : repo.releaseOnRefusal = true) (answer : Except AllocatorError Unit) :
    Persisting repo r
      [⟨.storeCreate r, .ok (.error e)⟩, ⟨releaseCall r.address r.parentPrefix, .ok answer⟩]
      (.over (.error (.ofStore e)))

theorem Persisting.isLookup_eq_false {r : Record} {es : List Exchange}
    {v : Standing (Except RequestError Record)} (h : Persisting repo r es v) :
    ∀ x ∈ es, x.call.isLookup = false := by
  cases h <;> simp [releaseCall, Call.isLookup]

theorem persist_reaches {r : Record} {es : List Exchange}
    {v : Standing (Except RequestError Record)} (h : Reaches (repo.persist r) es v) :
    Persisting repo r es v := by
  rcases Reaches.guarded_cases h with ⟨rfl, rfl⟩ | ⟨out, fs, rfl, hnext⟩
  · exact .stores
  rcases out with i | e | made
  · obtain ⟨rfl, rfl⟩ := Reaches.done_cases hnext
    exact .lost i
  · replace hnext : Reaches (repo.compensate r >>= fun _ => done (.error (.ofStore e))) fs v := hnext
    unfold compensate at hnext
    cases ho : repo.releaseOnRefusal with
    | false =>
      rw [ho] at hnext
      obtain ⟨rfl, rfl⟩ := Reaches.done_cases hnext
      exact .keeps e ho
    | true =>
      rw [ho] at hnext
      rcases Reaches.detached_cases hnext with ⟨rfl, rfl⟩ | ⟨answer, gs, rfl, hlast⟩
      · exact .releases e ho
      · obtain ⟨rfl, rfl⟩ := Reaches.done_cases hlast
        exact .released e ho answer
  · obtain ⟨rfl, rfl⟩ := Reaches.done_cases hnext
    exact .stored made

/-! ## The whole course -/

/-- What a create that has a record to store has exchanged: it found its project and its network, some
prefixes had no address, and one gave it the address of the record. -/
inductive Secured (req : Wire.CreateRequest) (r : Record) : List Exchange → Prop where
  | mk (p : Project) (n : Network) (tried : List Exchange) (h : ∀ e ∈ tried, e.FindsNone)
    (wanted : Option Addr) (out) (hout : readAcquire r.parentPrefix wanted out = .ok r.address) :
    Secured req r (found req p n ++ (tried ++ [⟨acquireCall r.parentPrefix wanted, out⟩]))

theorem Secured.eq_found {req : Wire.CreateRequest} {r : Record} {es : List Exchange}
    (h : Secured req r es) :
    ∃ p n fs, es = found req p n ++ fs ∧ ∀ x ∈ fs, x.call.isLookup = false := by
  obtain ⟨p, n, tried, htried, wanted, out, hout⟩ := h
  have hunting := Hunting.takes tried htried ⟨r.address, r.parentPrefix⟩ wanted out hout
  exact ⟨p, n, _, rfl, hunting.isLookup_eq_false⟩

/-- What a create can exchange until it has a record to store, and where it stands then. -/
inductive Preparing (req : Wire.CreateRequest) :
    List Exchange → Standing (Except RequestError Record) → Prop where
  /-- It looks its project up. -/
  | project : Preparing req [] (.calls (.project req.project))
  /-- It does not find its project. -/
  | projectMissed (out) (e : RequestError) (h : ∀ p, out ≠ .ok (.ok p)) :
    Preparing req [⟨.project req.project, out⟩] (.over (.error e))
  /-- It looks its network up. -/
  | network (p : Project) : Preparing req [⟨.project req.project, .ok (.ok p)⟩]
    (.calls (.network p.id req.network))
  /-- It does not find its network. -/
  | networkMissed (p : Project) (out) (e : RequestError) (h : ∀ n, out ≠ .ok (.ok n)) :
    Preparing req [⟨.project req.project, .ok (.ok p)⟩, ⟨.network p.id req.network, out⟩]
      (.over (.error e))
  /-- The request is refused as it stands. -/
  | denied (p : Project) (n : Network) (e : RequestError) (he : e.kind.IsDenial) :
    Preparing req (found req p n) (.over (.error e))
  /-- It tries to take an address. -/
  | hunts (p : Project) (n : Network) {es : List Exchange} {c : Call} (h : Hunting es (.calls c)) :
    Preparing req (found req p n ++ es) (.calls c)
  /-- It has got no address. -/
  | failed (p : Project) (n : Network) {es : List Exchange} {e : RequestError}
    (h : Hunting es (.over (.error e))) : Preparing req (found req p n ++ es) (.over (.error e))
  /-- It has got an address. -/
  | secured {r : Record} {es : List Exchange} (h : Secured req r es) :
    Preparing req es (.over (.ok r))

/-- What a create can exchange, and where it stands then. -/
inductive Creating (repo : Repository) (req : Wire.CreateRequest) :
    List Exchange → Standing (Except RequestError Record) → Prop where
  /-- It has no record to store. -/
  | prepares {es : List Exchange} {v : Standing (Except RequestError Record)}
    (h : Preparing req es v) (hv : ∀ r, v ≠ .over (.ok r)) : Creating repo req es v
  /-- It has a record to store. -/
  | persists {r : Record} {es fs : List Exchange} {v : Standing (Except RequestError Record)}
    (h : Secured req r es) (hv : Persisting repo r fs v) : Creating repo req (es ++ fs) v

/-- What follows when a create has passed all checks that make no calls. -/
theorem prepare_reaches_of_hunt {stamp : Stamp} {req : Wire.CreateRequest} {p : Project}
    {n : Network} {retention : Retention} {x : Request Lease}
    (hx : ∀ {es v}, Reaches x es v →
      (es = [] ∧ ∃ e, e.kind = .invalidArgument ∧ v = .over (.error e)) ∨ Hunting es v)
    {es : List Exchange} {v : Standing (Except RequestError Record)}
    (h : Reaches (x >>= fun lease => pure (newRecord stamp req p n retention lease) :
      Request Record) es v) :
    Preparing req (found req p n ++ es) v := by
  cases Reaches.bind_cases h with
  | calls hc =>
    rcases hx hc with ⟨-, e, -, he⟩ | hunting
    · cases he
    · exact .hunts p n hunting
  | @fails _ err hfails =>
    rcases hx hfails with ⟨rfl, e, hkind, he⟩ | hunting
    · cases he
      rw [List.append_nil]
      exact .denied p n err (.inl hkind)
    · exact .failed p n hunting
  | succeeds htakes hv =>
    obtain ⟨rfl, rfl⟩ := Reaches.done_cases hv
    rw [List.append_nil]
    rcases hx htakes with ⟨-, e, -, he⟩ | hunting
    · cases he
    · cases hunting with
      | takes tried htried lease wanted out hout =>
        exact .secured (.mk p n tried htried wanted out hout)

theorem prepare_reaches {stamp : Stamp} {req : Wire.CreateRequest} {es : List Exchange}
    {v : Standing (Except RequestError Record)} (h : Reaches (prepare stamp req) es v) :
    Preparing req es v := by
  rcases Reaches.ask_cases h with ⟨rfl, rfl⟩ | ⟨i, rfl, rfl⟩ | ⟨answer, es, rfl, h₁⟩
  · exact .project
  · exact .projectMissed _ _ (by simp)
  rcases Reaches.accept_cases h₁ with ⟨e, rfl, rfl, rfl⟩ | ⟨p, rfl, h₂⟩
  · exact .projectMissed _ _ (by simp)
  rcases Reaches.ask_cases h₂ with ⟨rfl, rfl⟩ | ⟨i, rfl, rfl⟩ | ⟨answer, es, rfl, h₃⟩
  · exact .network p
  · exact .networkMissed p _ _ (by simp)
  rcases Reaches.accept_cases h₃ with ⟨e, rfl, rfl, rfl⟩ | ⟨n, rfl, h₄⟩
  · exact .networkMissed p _ _ (by simp)
  -- both lookups have found something, and what is left of the checks makes no calls
  rcases Reaches.ofExcept_cases h₄ with ⟨e, he, rfl, rfl⟩ | ⟨family, -, h₅⟩
  · exact .denied p n e (.inl (chooseFamily_kind he))
  rcases Reaches.ofExcept_cases h₅ with ⟨e, he, rfl, rfl⟩ | ⟨u, -, h₆⟩
  · exact .denied p n e (.inr (checkOpen_kind he))
  rcases Reaches.ofExcept_cases h₆ with ⟨e, he, rfl, rfl⟩ | ⟨retention, -, h₇⟩
  · exact .denied p n e (.inl (requestedRetention_kind he))
  cases hip : req.ip with
  | none =>
    rw [hip] at h₇
    exact prepare_reaches_of_hunt (fun hx => .inr (anyAddressOf_reaches hx)) h₇
  | some literal =>
    rw [hip] at h₇
    exact prepare_reaches_of_hunt specificAddress_reaches h₇

theorem create_reaches {stamp : Stamp} {req : Wire.CreateRequest} {es : List Exchange}
    {v : Standing (Except RequestError Record)} (h : Reaches (repo.create stamp req) es v) :
    Creating repo req es v := by
  rw [create_eq] at h
  cases Reaches.bind_cases h with
  | calls hc => exact .prepares (prepare_reaches hc) (by rintro r ⟨⟩)
  | fails hfails => exact .prepares (prepare_reaches hfails) (by rintro r ⟨⟩)
  | succeeds hprepare hv =>
    cases prepare_reaches hprepare with
    | secured hsecured => exact .persists hsecured (persist_reaches hv)

/-! ## What a create may have learnt before it makes a call -/

/-- A call that a create makes, with all that it has exchanged before. -/
inductive Makes (req : Wire.CreateRequest) : List Exchange → Call → Prop where
  /-- First it looks its project up. -/
  | project : Makes req [] (.project req.project)
  /-- Then it looks its network up, for the project it has found. -/
  | network (p : Project) :
    Makes req [⟨.project req.project, .ok (.ok p)⟩] (.network p.id req.network)
  /-- Then it tries prefixes, as long as they have no address. -/
  | acquire (p : Project) (n : Network) {tried : List Exchange} (h : ∀ e ∈ tried, e.FindsNone)
    (q : Prefix) (wanted : Option Addr) : Makes req (found req p n ++ tried) (acquireCall q wanted)
  /-- Once it has an address, it stores its record. -/
  | store {es : List Exchange} {r : Record} (h : Secured req r es) : Makes req es (.storeCreate r)
  /-- If the store refuses the record, it gives the address back. -/
  | release {es : List Exchange} {r : Record} (h : Secured req r es) (e : StoreError) :
    Makes req (es ++ [⟨.storeCreate r, .ok (.error e)⟩]) (releaseCall r.address r.parentPrefix)

namespace Creating

variable {req : Wire.CreateRequest} {es : List Exchange}

theorem makes {c : Call} (h : Creating repo req es (.calls c)) : Makes req es c := by
  cases h with
  | prepares h hv =>
    cases h with
    | project => exact .project
    | network p => exact .network p
    | hunts p n hunting =>
      cases hunting with
      | tries htried q wanted => exact .acquire p n htried q wanted
  | persists hsecured hv =>
    cases hv with
    | stores =>
      rw [List.append_nil]
      exact .store hsecured
    | releases e ho => exact .release hsecured e

theorem isLookup_of_denial {e : RequestError} (h : Creating repo req es (.over (.error e)))
    (he : e.kind.IsDenial) : ∀ x ∈ es, x.call.isLookup = true := by
  cases h with
  | prepares h hv =>
    cases h with
    | projectMissed out e hout => simp [Call.isLookup]
    | networkMissed p out e hout => simp [Call.isLookup]
    | denied p n e hdenial => simp [found, Call.isLookup]
    | failed p n hunting =>
      cases hunting with
      | exhausted htried f network =>
        exact absurd he (by simp [ErrorKind.IsDenial, RequestError.kind])
      | fails tried htried q wanted out e hkind => exact absurd he hkind
  | persists hsecured hv =>
    cases hv with
    | lost i => exact absurd he (not_isDenial_interrupted i)
    | keeps e ho => exact absurd he (not_isDenial_ofStore e)
    | released e ho answer => exact absurd he (not_isDenial_ofStore e)

theorem not_misses_found (p : Project) (n : Network) : ∀ x ∈ found req p n, ¬ x.Misses := by
  intro x hx hmiss
  rcases List.mem_cons.1 hx with rfl | hx
  · exact hmiss p rfl
  · rw [List.mem_singleton.1 hx] at hmiss
    exact hmiss n rfl

/-- A lookup that finds nothing is the last call. -/
theorem over_of_misses {v : Standing (Except RequestError Record)} (h : Creating repo req es v)
    (hmiss : ∃ x ∈ es, x.Misses) :
    (∀ x ∈ es, x.call.isLookup = true) ∧ ∃ e, v = .over (.error e) := by
  obtain ⟨x, hx, hmiss⟩ := hmiss
  have hrest : ∀ {p n fs}, (∀ y ∈ fs, y.call.isLookup = false) → x ∉ found req p n ++ fs := by
    intro p n fs hfs hmem
    rcases List.mem_append.1 hmem with hmem | hmem
    · exact not_misses_found p n x hmem hmiss
    · exact Exchange.not_misses (hfs x hmem) hmiss
  cases h with
  | prepares h hv =>
    cases h with
    | project => cases hx
    | projectMissed out e hout => exact ⟨by simp [Call.isLookup], e, rfl⟩
    | network p =>
      rw [List.mem_singleton.1 hx] at hmiss
      exact absurd rfl (hmiss p)
    | networkMissed p out e hout => exact ⟨by simp [Call.isLookup], e, rfl⟩
    | denied p n e he => exact absurd hmiss (not_misses_found p n x hx)
    | hunts p n hunting => exact absurd hx (hrest hunting.isLookup_eq_false)
    | failed p n hunting => exact absurd hx (hrest hunting.isLookup_eq_false)
    | @secured r _ h => exact absurd rfl (hv r)
  | persists hsecured hv =>
    obtain ⟨p, n, fs, rfl, hfs⟩ := hsecured.eq_found
    rw [List.append_assoc] at hx
    refine absurd hx (hrest ?_)
    exact List.forall_mem_append.2 ⟨hfs, hv.isLookup_eq_false⟩

end Creating

end Repository

/-! ## Before an address is spent -/

/-- A create looks its project up, then its network for the project that was found, then it tries
prefixes as long as they have no address, then it stores the record of the address that it has got,
and then, if the store refuses it, it gives the address back; it makes no other call. If it is refused
because the request is wrong or not permitted, or if a lookup fails, it has made lookups only, and it
makes none if its project is not named. -/
theorem Repository.create_calls (repo : Repository) (stamp : Stamp) (req : Wire.CreateRequest) :
    (∀ es c, ((repo.create stamp req).after? es).bind Program.call? = some c → Makes req es c) ∧
    (∀ es e, (repo.create stamp req).after? es = some (.done (.error e)) →
      e.kind = .invalidArgument ∨ e.kind = .permissionDenied →
      ∀ x ∈ es, x.call.isLookup = true) ∧
    (∀ es p, (repo.create stamp req).after? es = some p → (∃ x ∈ es, x.Misses) →
      (∀ x ∈ es, x.call.isLookup = true) ∧ p.call? = none) ∧
    ∀ svc : Service, req.project = "" →
      svc.create stamp req = Program.done (.error (.invalid .projectMissing)) := by
  refine ⟨?_, ?_, ?_, ?_⟩
  · intro es c hc
    exact (create_reaches (reaches_of_call hc)).makes
  · intro es e he hkind
    exact (create_reaches (reaches_of_after he)).isLookup_of_denial hkind
  · intro es p hp hmiss
    obtain ⟨hlookup, e, hover⟩ := (create_reaches (reaches_of_after hp)).over_of_misses hmiss
    exact ⟨hlookup, call?_of_standing hover⟩
  · intro svc hproject
    unfold Service.create Service.repository
    rw [hproject]
    rfl

theorem Repository.create_calls_second_try :
    Makes Small.wideRequest Small.secondTry (.storeCreate Small.secondRecord) ∧
    (∀ x ∈ Small.secondTry.take 2, x.call.isLookup = true) ∧
    ∀ x ∈ [(⟨.project "prj", .error .canceled⟩ : Exchange)], x.call.isLookup = true := by
  have hcall : ((Repository.create ⟨.unscoped, true⟩ Small.stamp Small.wideRequest).after?
      Small.secondTry).bind Program.call? = some (.storeCreate Small.secondRecord) := by
    decide +kernel
  have hdenied : (Repository.create ⟨.unscoped, true⟩ Small.stamp
      { Small.wideRequest with kind := some .unspecified }).after? (Small.secondTry.take 2) =
        some (.done (.error (.invalid .kindUnspecified))) := rfl
  have hlost : (Repository.create ⟨.unscoped, true⟩ Small.stamp Small.wideRequest).after?
      [⟨.project "prj", .error .canceled⟩] = some (.done (.error (.interrupted .canceled))) := rfl
  have hmiss : Exchange.Misses ⟨.project "prj", .error .canceled⟩ := by
    intro p hp
    cases hp
  exact ⟨(create_calls _ _ _).1 _ _ hcall, (create_calls _ _ _).2.1 _ _ hdenied (.inl rfl),
    ((create_calls _ _ _).2.2.1 _ _ hlost ⟨_, List.mem_singleton_self _, hmiss⟩).1⟩

end Ipam
