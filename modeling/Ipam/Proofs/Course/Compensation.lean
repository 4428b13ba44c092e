import Ipam.Proofs.Course.Creation
import Ipam.Proofs.Course.Host
import Ipam.Proofs.Pool.Held

/-!
# Addresses whose records are refused

A create that has an address hands its record to the store, and it gives the address back only if the
store answers that with an error. That is the end of it: the answer of the allocator does not matter,
and neither does the context, since the call is detached (`Repository.create_compensation`).

At a host that takes its addresses from a pool, a create that has a record has added one pair to those
that are held (`Host.AllocatesFrom.ensures_prepare`), and giving the address back removes it.
-/

namespace Ipam

namespace Attempt

variable {S : Type}

/-- An address is given back. -/
def IsRelease (a : Attempt S) : Prop := ∃ req, a.call = .release req

/-- The store refuses a record. -/
def Refuses (a : Attempt S) (r : Record) (e : StoreError) : Prop :=
  a.exchange? = some ⟨.storeCreate r, .ok (.error e)⟩

/-- The address of a record is taken from its prefix. -/
def Takes (a : Attempt S) (r : Record) : Prop :=
  ∃ wanted out, a.exchange? = some ⟨acquireCall r.parentPrefix wanted, out⟩ ∧
    readAcquire r.parentPrefix wanted out = .ok r.address

/-- The call is one that a create makes before it has a record. -/
def IsEarly (a : Attempt S) : Prop := a.call.isLookup = true ∨ ∃ req, a.call = .acquire req

variable {a : Attempt S}

theorem call_of_exchange? {c : Call} {out : Except Interruption c.Answer}
    (h : a.exchange? = some ⟨c, out⟩) : a.call = c := by
  obtain ⟨out', -, he⟩ := Option.map_eq_some_iff.1 h
  exact congrArg Exchange.call he

theorem Refuses.unique {r r' : Record} {e e' : StoreError} (h : a.Refuses r e)
    (h' : a.Refuses r' e') : r = r' ∧ e = e' := by
  cases h.symm.trans h'
  exact ⟨rfl, rfl⟩

theorem IsEarly.call_ne (h : a.IsEarly) {c : Call} (hlookup : c.isLookup = false)
    (hacquire : ∀ req, c ≠ .acquire req) : a.call ≠ c := by
  rintro rfl
  rcases h with h | ⟨req, h⟩
  · rw [hlookup] at h
    cases h
  · exact hacquire req h

theorem IsEarly.not_isRelease (h : a.IsEarly) : ¬ a.IsRelease :=
  fun ⟨_, hcall⟩ => h.call_ne rfl (by simp) hcall

theorem IsEarly.not_refuses (h : a.IsEarly) (r : Record) (e : StoreError) : ¬ a.Refuses r e :=
  fun hrefuses => h.call_ne rfl (by simp) (call_of_exchange? hrefuses)

end Attempt

namespace Host

variable {S : Type} {h : Host S} {s : S} {stamp : Stamp} {req : Wire.CreateRequest} {r : Record}

/-! ## Before there is a record -/

theorem isEarly_of_prepare {a : Attempt S}
    (ha : a ∈ (h.attend (Repository.prepare stamp req) s).log) : a.IsEarly := by
  obtain ⟨es, hes⟩ := exists_reaches_of_mem_log ha
  have hprepares := Repository.prepare_reaches hes
  unfold Attempt.IsEarly
  generalize a.call = c at hprepares
  cases hprepares with
  | project => exact .inl rfl
  | network p => exact .inl rfl
  | hunts p n hunting =>
    cases hunting with
    | tries htried q wanted => exact .inr ⟨_, rfl⟩

/-- A create that has a record has just taken its address. -/
theorem takes_of_prepare (hr : (h.attend (Repository.prepare stamp req) s).result = some (.ok r)) :
    ∃ before a, (h.attend (Repository.prepare stamp req) s).log = before ++ [a] ∧ a.Takes r := by
  obtain ⟨v, hv, hresult⟩ := h.reaches_attend (Repository.prepare stamp req) s
  rw [(hresult _).1 hr] at hv
  have hlearnt := outcome_of_result hr
  have hprepared := Repository.prepare_reaches hv
  generalize (h.attend (Repository.prepare stamp req) s).log = log at hlearnt hprepared ⊢
  generalize hes : log.filterMap Attempt.exchange? = es at hprepared
  cases hprepared with
  | secured hsecured =>
    obtain ⟨p, n, tried, -, wanted, out, hout⟩ := hsecured
    rw [← List.append_assoc] at hes
    rcases List.eq_nil_or_concat' log with rfl | ⟨before, a, rfl⟩
    · simp at hes
    · refine ⟨before, a, rfl, wanted, out, ?_, hout⟩
      -- the last attempt has an outcome, so its exchange is the last one
      obtain ⟨out', hout'⟩ := Option.ne_none_iff_exists'.1 (hlearnt a (by simp))
      have hlast : List.filterMap Attempt.exchange? [a] = [⟨a.call, out'⟩] :=
        List.filterMap_cons_some (exchange?_of_outcome hout')
      rw [List.filterMap_append, hlast] at hes
      obtain ⟨-, he⟩ := List.append_inj' hes rfl
      rw [exchange?_of_outcome hout', List.singleton_inj.1 he]

/-! ## The record is stored -/

/-- A record is handed to the store. -/
def storing (h : Host S) (r : Record) (s : S) : Attempt S :=
  ⟨s, true, .storeCreate r, h.meet s (.storeCreate r)⟩

/-- The address of a record is given back. -/
def returning (h : Host S) (r : Record) (s : S) : Attempt S :=
  ⟨s, false, releaseCall r.address r.parentPrefix, h.serve s (releaseCall r.address r.parentPrefix)⟩

/-- What comes of a record that the store refuses. -/
def refused (h : Host S) (repo : Repository) (r : Record) (e : StoreError) (s : S) :
    Passage S (Except RequestError Record) :=
  let b := h.storing r s
  if repo.releaseOnRefusal then
    let c := h.returning r b.meeting.after
    ⟨[b, c], c.meeting.after, c.meeting.outcome.map fun _ => .error (.ofStore e)⟩
  else ⟨[b], b.meeting.after, some (.error (.ofStore e))⟩

theorem storing_not_isRelease (h : Host S) (r : Record) (s : S) : ¬ (h.storing r s).IsRelease := by
  rintro ⟨req, hcall⟩
  cases hcall

theorem returning_not_refuses (h : Host S) (r r' : Record) (e : StoreError) (s : S) :
    ¬ (h.returning r s).Refuses r' e :=
  fun hrefuses => nomatch Attempt.call_of_exchange? hrefuses

theorem refused_of_kept {repo : Repository} (ho : repo.releaseOnRefusal = false) (r : Record)
    (e : StoreError) (s : S) : h.refused repo r e s =
      ⟨[h.storing r s], (h.storing r s).meeting.after, some (.error (.ofStore e))⟩ :=
  if_neg (by simp [ho])

theorem refused_of_released {repo : Repository} (ho : repo.releaseOnRefusal = true) (r : Record)
    (e : StoreError) (s : S) : h.refused repo r e s =
      ⟨[h.storing r s, h.returning r (h.storing r s).meeting.after],
        (h.returning r (h.storing r s).meeting.after).meeting.after,
        (h.returning r (h.storing r s).meeting.after).meeting.outcome.map
          fun _ => .error (.ofStore e)⟩ :=
  if_pos ho

theorem mem_refused_log {repo : Repository} {e : StoreError} {y : Attempt S} :
    y ∈ (h.refused repo r e s).log ↔ y = h.storing r s ∨
      repo.releaseOnRefusal = true ∧ y = h.returning r (h.storing r s).meeting.after := by
  cases ho : repo.releaseOnRefusal with
  | false => simp [refused_of_kept ho]
  | true => simp [refused_of_released ho]

/-- A detached call whose answer does not matter is the last one. -/
theorem attend_detached_done {α : Type} (h : Host S) (c : Call) (a : α) (s : S) :
    h.attend (.detached c fun _ => .done a) s =
      ⟨[⟨s, false, c, h.serve s c⟩], (h.serve s c).after, (h.serve s c).outcome.map fun _ => a⟩ := by
  rcases h.attend_detached_cases c (fun _ => .done a) s with ⟨answer, hanswer, he⟩ | ⟨hanswer, he⟩
  · rw [he, hanswer]
    rfl
  · rw [he, hanswer]
    rfl

theorem outcome_of_refuses {e : StoreError} (hrefuses : (h.storing r s).Refuses r e) :
    (h.meet s (.storeCreate r)).outcome = some (.ok (.error e)) := by
  obtain ⟨out, hout, he⟩ := Option.map_eq_some_iff.1 hrefuses
  cases he
  exact hout

theorem attend_persist_of_refuses {e : StoreError} (hrefuses : (h.storing r s).Refuses r e)
    (repo : Repository) : h.attend (repo.persist r) s = h.refused repo r e s := by
  simp only [Repository.persist, ExceptT.mk, attend, outcome_of_refuses hrefuses,
    Repository.compensate, refused]
  cases repo.releaseOnRefusal with
  | false => rfl
  | true => exact congrArg (Passage.after (h.storing r s)) (h.attend_detached_done _ _ _)

/-- If the store does not refuse a record, it does not matter what the repository does if it does. -/
theorem attend_persist_of_not_refuses (hno : ∀ e, ¬ (h.storing r s).Refuses r e) :
    ∃ result, ∀ repo : Repository, h.attend (repo.persist r) s =
      ⟨[h.storing r s], (h.storing r s).meeting.after, result⟩ := by
  cases hout : (h.meet s (.storeCreate r)).outcome with
  | none =>
    refine ⟨none, fun repo => ?_⟩
    simp only [Repository.persist, ExceptT.mk, attend, hout]
    rfl
  | some out =>
    rcases out with i | e | made
    · refine ⟨some (.error (.interrupted i)), fun repo => ?_⟩
      simp only [Repository.persist, ExceptT.mk, attend, hout]
      rfl
    · exact absurd (exchange?_of_outcome hout) (hno e)
    · refine ⟨some (.ok made), fun repo => ?_⟩
      simp only [Repository.persist, ExceptT.mk, attend, hout]
      rfl

/-! ## Creates whose records are refused -/

/-- What happens to a create before the store refuses its record. -/
structure Refusal (h : Host S) (stamp : Stamp) (req : Wire.CreateRequest) (s : S) where
  /-- The calls before it gets an address. -/
  before : List (Attempt S)
  /-- The call that gets it an address. -/
  taking : Attempt S
  /-- The record of the address. -/
  record : Record
  /-- The state then. -/
  state : S
  /-- The error of the store. -/
  error : StoreError
  isEarly : ∀ a ∈ before ++ [taking], a.IsEarly
  takes : taking.Takes record
  prepares : h.attend (Repository.prepare stamp req) s = ⟨before ++ [taking], state, some (.ok record)⟩
  refuses : (h.storing record state).Refuses record error

theorem attend_create (h : Host S) (repo : Repository) (stamp : Stamp) (req : Wire.CreateRequest)
    (s : S) : h.attend (repo.create stamp req) s =
      h.follow (h.attend (Repository.prepare stamp req) s) repo.persist := by
  rw [Repository.create_eq, attend_bind]

/-- The store refuses the record of a create; or it does not, and then the repository does not matter. -/
theorem attend_create_cases (h : Host S) (stamp : Stamp) (req : Wire.CreateRequest) (s : S) :
    Nonempty (h.Refusal stamp req s) ∨ ∃ x : Passage S (Except RequestError Record),
      (∀ a ∈ x.log, ¬ a.IsRelease ∧ ∀ r e, ¬ a.Refuses r e) ∧
      ∀ repo : Repository, h.attend (repo.create stamp req) s = x := by
  have hearly : ∀ a ∈ (h.attend (Repository.prepare stamp req) s).log, a.IsEarly :=
    fun a ha => isEarly_of_prepare ha
  have hplain : ∀ a ∈ (h.attend (Repository.prepare stamp req) s).log,
      ¬ a.IsRelease ∧ ∀ r e, ¬ a.Refuses r e :=
    fun a ha => ⟨(hearly a ha).not_isRelease, (hearly a ha).not_refuses⟩
  have hcreate := fun repo => h.attend_create repo stamp req s
  rcases hprepare : h.attend (Repository.prepare stamp req) s with ⟨log, t, - | (e | r)⟩
  · rw [hprepare] at hcreate hplain
    exact .inr ⟨⟨log, t, none⟩, hplain, hcreate⟩
  · rw [hprepare] at hcreate hplain
    exact .inr ⟨⟨log, t, some (.error e)⟩, hplain, hcreate⟩
  · obtain ⟨before, a, hlog, ha⟩ := takes_of_prepare (r := r) (by rw [hprepare])
    rw [hprepare] at hcreate hplain hlog hearly
    obtain rfl : log = before ++ [a] := hlog
    by_cases hrefuses : ∃ e, (h.storing r t).Refuses r e
    · obtain ⟨e, hrefuses⟩ := hrefuses
      exact .inl ⟨⟨before, a, r, t, e, hearly, ha, hprepare, hrefuses⟩⟩
    · obtain ⟨result, hpersist⟩ := attend_persist_of_not_refuses (not_exists.1 hrefuses)
      refine .inr ⟨⟨before ++ [a] ++ [h.storing r t], (h.storing r t).meeting.after, result⟩,
        List.forall_mem_append.2 ⟨hplain, List.forall_mem_singleton.2 ⟨?_, fun r' e hrefuses' => ?_⟩⟩,
        fun repo => ?_⟩
      · exact h.storing_not_isRelease r t
      · cases Attempt.call_of_exchange? hrefuses'
        exact hrefuses ⟨e, hrefuses'⟩
      · rw [hcreate, follow_ok, hpersist]
        rfl

namespace Refusal

theorem attend_create (z : h.Refusal stamp req s) (repo : Repository) :
    h.attend (repo.create stamp req) s =
      (h.refused repo z.record z.error z.state).behind (z.before ++ [z.taking]) := by
  rw [h.attend_create, z.prepares, follow_ok, attend_persist_of_refuses z.refuses]

theorem mem_log (z : h.Refusal stamp req s) {repo : Repository} {a : Attempt S} :
    a ∈ (h.attend (repo.create stamp req) s).log ↔ a ∈ z.before ++ [z.taking] ∨
      a = h.storing z.record z.state ∨ repo.releaseOnRefusal = true ∧
        a = h.returning z.record (h.storing z.record z.state).meeting.after := by
  rw [z.attend_create, ← mem_refused_log]
  exact List.mem_append

theorem exists_isRelease_iff (z : h.Refusal stamp req s) {repo : Repository} :
    (∃ c ∈ (h.attend (repo.create stamp req) s).log, c.IsRelease) ↔
      repo.releaseOnRefusal = true := by
  constructor
  · rintro ⟨c, hc, hrelease⟩
    rcases z.mem_log.1 hc with hc | rfl | ⟨ho, -⟩
    · exact absurd hrelease (z.isEarly c hc).not_isRelease
    · exact absurd hrelease (h.storing_not_isRelease z.record z.state)
    · exact ho
  · exact fun ho => ⟨_, z.mem_log.2 (.inr (.inr ⟨ho, rfl⟩)), _, rfl⟩

/-- It is the only refusal. -/
theorem eq_of_refuses (z : h.Refusal stamp req s) {repo : Repository} {b : Attempt S} {e : StoreError}
    (hb : b ∈ (h.attend (repo.create stamp req) s).log) (hrefuses : b.Refuses r e) :
    b = h.storing z.record z.state ∧ r = z.record ∧ e = z.error := by
  rcases z.mem_log.1 hb with hb | rfl | ⟨-, rfl⟩
  · exact absurd hrefuses ((z.isEarly b hb).not_refuses r e)
  · exact ⟨rfl, hrefuses.unique z.refuses⟩
  · exact absurd hrefuses (h.returning_not_refuses z.record r e _)

/-- If the address is given back and that is answered, the result is the same as if it is not. -/
theorem result_eq (z : h.Refusal stamp req s) {repo other : Repository}
    (hother : other.releaseOnRefusal = false)
    (hanswered : ∀ c ∈ (h.attend (repo.create stamp req) s).log, c.IsRelease →
      c.meeting.outcome ≠ none) :
    (h.attend (other.create stamp req) s).result = (h.attend (repo.create stamp req) s).result := by
  cases ho : repo.releaseOnRefusal with
  | false => rw [z.attend_create, z.attend_create, refused_of_kept hother, refused_of_kept ho]
  | true =>
    have hc := hanswered _ (z.mem_log.2 (.inr (.inr ⟨ho, rfl⟩))) ⟨_, rfl⟩
    obtain ⟨answer, hanswer⟩ := Option.ne_none_iff_exists'.1 hc
    rw [z.attend_create, z.attend_create, refused_of_kept hother, refused_of_released ho]
    simp [Passage.behind, hanswer]

end Refusal

/-! ## Pools -/

/-- A host takes its addresses from a pool that nobody else uses meanwhile: a guarded call for an
address is served by the pool, or refused without effect, and a detached one that gives an address
back is served by it. -/
structure AllocatesFrom (h : Host S) (pool : S → Pool) : Prop where
  acquire : ∀ s req answer, (h.guarded s (.acquire req)).answer = some answer →
    (∃ pick, (pool s).acquire pick req = (answer, pool (h.guarded s (.acquire req)).after)) ∨
      (∃ e, answer = .error e) ∧ (pool (h.guarded s (.acquire req)).after).held = (pool s).held
  release : ∀ s req, (h.detached s (.release req)).1 = some ((pool s).release req).1 ∧
    pool (h.detached s (.release req)).2 = ((pool s).release req).2
  other : ∀ s c, (∀ req, c ≠ .acquire req) → (∀ req, c ≠ .release req) →
    (pool (h.guarded s c).after).held = (pool s).held

/-- A pair is held besides some that were held before. -/
def Gains (pool : S → Pool) (held : OrderedSet Slot) (x : Slot) (s : S) : Prop :=
  x ∉ held ∧ (pool s).held = held.insert x

namespace AllocatesFrom

variable {pool : S → Pool} {held : OrderedSet Slot}

/-- A call for an address takes one that was not held, or no address is learnt; and if it is refused,
it takes none. -/
theorem meet_acquire (ha : h.AllocatesFrom pool) {p : Prefix} {wanted : Option Addr}
    {out : Except Interruption (Except AllocatorError AcquireAnswer)}
    (hout : (h.meet s (acquireCall p wanted)).outcome = some out) :
    (∃ a, readAcquire p wanted out = .ok a ∧
      Gains pool (pool s).held (p, a) (h.meet s (acquireCall p wanted)).after) ∨
    (∃ e, readAcquire p wanted out = .error (.failed e)) ∨
    (∃ e, readAcquire p wanted out = .error e) ∧
      (pool (h.meet s (acquireCall p wanted)).after).held = (pool s).held := by
  rcases out with i | answer
  · exact .inr (.inl ⟨_, rfl⟩)
  · obtain ⟨hanswer, hafter⟩ := meet_of_ok hout
    rw [hafter]
    rcases ha.acquire s _ answer hanswer with ⟨pick, hserved⟩ | ⟨⟨e, rfl⟩, hkept⟩
    · rcases (pool s).acquire_eq pick p wanted with ⟨a, htaken, hc, hn, hw⟩ | ⟨e, hrefused⟩
      · obtain ⟨rfl, hpool⟩ := Prod.ext_iff.1 (hserved.symm.trans htaken)
        exact .inl ⟨a, readAcquire_ok hc hw, hn, congrArg Pool.held hpool⟩
      · obtain ⟨rfl, hpool⟩ := Prod.ext_iff.1 (hserved.symm.trans hrefused)
        exact .inr (.inr ⟨readAcquire_error p wanted e, (congrArg Pool.held hpool).trans rfl⟩)
    · exact .inr (.inr ⟨readAcquire_error p wanted e, hkept⟩)

theorem kept_of_meet (ha : h.AllocatesFrom pool) {c : Call} (hacquire : ∀ req, c ≠ .acquire req)
    (hrelease : ∀ req, c ≠ .release req) {answer : c.Answer}
    (hout : (h.meet s c).outcome = some (.ok answer)) :
    (pool (h.meet s c).after).held = (pool s).held := by
  rw [(meet_of_ok hout).2]
  exact ha.other s c hacquire hrelease

theorem ensures_ask (ha : h.AllocatesFrom pool) {c : Call} (hacquire : ∀ req, c ≠ .acquire req)
    (hrelease : ∀ req, c ≠ .release req) :
    h.Ensures (fun s => (pool s).held = held) (Request.ask c) (fun _ s => (pool s).held = held) := by
  refine .guarded fun out => .done ?_
  rintro t ⟨s, hs, hout, rfl⟩ answer hok
  cases out with
  | error i => cases hok
  | ok answer' => exact (ha.kept_of_meet hacquire hrelease hout).trans hs

theorem ensures_acquire (ha : h.AllocatesFrom pool) {p : Prefix} {wanted : Option Addr}
    {next : Except AcquireError Addr → Request Lease} (hsettles : Settles p next)
    (hnext : ∀ e, h.Ensures (fun s => (pool s).held = held) (next (.error e))
      (fun lease => Gains pool held (lease.parent, lease.address))) :
    h.Ensures (fun s => (pool s).held = held) (liftM (Ipam.acquire p wanted) >>= next : Request Lease)
      (fun lease => Gains pool held (lease.parent, lease.address)) := by
  refine .guarded fun out => ?_
  rintro t ⟨s, rfl, hout, rfl⟩ lease hlease
  replace hlease : (h.attend (next (readAcquire p wanted out))
    (h.meet s (acquireCall p wanted)).after).result = some (.ok lease) := hlease
  show Gains pool (pool s).held (lease.parent, lease.address)
    (h.attend (next (readAcquire p wanted out)) (h.meet s (acquireCall p wanted)).after).final
  rcases ha.meet_acquire hout with ⟨a, hr, hgains⟩ | ⟨e, hr⟩ | ⟨⟨e, hr⟩, hkept⟩
  · rw [hr, hsettles.takes] at hlease ⊢
    cases hlease
    exact hgains
  · rw [hr, hsettles.fails] at hlease
    cases hlease
  · rw [hr] at hlease ⊢
    exact hnext e _ hkept lease hlease

theorem ensures_anyAddressOf (ha : h.AllocatesFrom pool) (network : String) (f : Family)
    (ps : List Prefix) :
    h.Ensures (fun s => (pool s).held = held) (anyAddressOf network f ps)
      (fun lease => Gains pool held (lease.parent, lease.address)) := by
  induction ps with
  | nil => exact .throw _
  | cons p ps ih =>
    refine ha.ensures_acquire ⟨fun _ => rfl, fun _ => rfl⟩ fun e => ?_
    cases e with
    | exhausted => exact ih
    | taken => exact .throw _
    | failed e => exact .throw e

theorem ensures_specificAddress (ha : h.AllocatesFrom pool) (n : Network) (literal : String) :
    h.Ensures (fun s => (pool s).held = held) (specificAddress n literal)
      (fun lease => Gains pool held (lease.parent, lease.address)) := by
  refine .bind (.done fun s hs a _ => hs) fun a => ?_
  cases prefixFor? n a with
  | none => exact .throw _
  | some p =>
    refine ha.ensures_acquire ⟨fun _ => rfl, fun _ => rfl⟩ fun e => ?_
    cases e <;> exact .throw _

/-- A create that has a record has taken the pair of the record, and no other. -/
theorem ensures_prepare (ha : h.AllocatesFrom pool) (stamp : Stamp) (req : Wire.CreateRequest) :
    h.Ensures (fun s => (pool s).held = held) (Repository.prepare stamp req)
      (fun r => Gains pool held r.slot) := by
  refine .bind (ha.ensures_ask (by simp) (by simp)) fun answer => ?_
  refine .bind (.done fun s hs p _ => hs) fun p => ?_
  refine .bind (ha.ensures_ask (by simp) (by simp)) fun answer => ?_
  refine .bind (.done fun s hs n _ => hs) fun n => ?_
  refine .bind (.done fun s hs family _ => hs) fun family => ?_
  refine .bind (.done fun s hs u _ => hs) fun _ => ?_
  refine .bind (.done fun s hs retention _ => hs) fun retention => ?_
  have hrecord : ∀ lease : Lease, h.Ensures (Gains pool held (lease.parent, lease.address))
      (pure (Repository.newRecord stamp req p n retention lease) : Request Record)
      (fun r => Gains pool held r.slot) := by
    intro lease
    refine .done fun s hs r hr => ?_
    cases hr
    exact hs
  cases req.ip with
  | none => exact .bind (ha.ensures_anyAddressOf _ _ _) hrecord
  | some literal => exact .bind (ha.ensures_specificAddress n literal) hrecord

/-- A pair that is given back leaves those that were held before. -/
theorem serve_returning (ha : h.AllocatesFrom pool) (hs : Gains pool held r.slot s) :
    (pool (h.returning r s).meeting.after).held = held := by
  obtain ⟨hnot, hheld⟩ := hs
  have hin : r.slot ∈ (pool s).held := by
    rw [hheld]
    exact OrderedSet.mem_insert.2 (.inl rfl)
  have hafter : pool (h.returning r s).meeting.after =
      ((pool s).release ⟨r.address.text, r.parentPrefix.text⟩).2 := (ha.release s _).2
  rw [hafter]
  rcases (pool s).release_eq r.address r.parentPrefix with ⟨-, hdrop⟩ | ⟨hout, -⟩
  · rw [hdrop, Pool.drop_held, hheld]
    refine OrderedSet.ext fun y => ?_
    rw [OrderedSet.mem_erase, OrderedSet.mem_insert]
    constructor
    · rintro ⟨hne, he | hy⟩
      · exact absurd he hne
      · exact hy
    · intro hy
      refine ⟨?_, .inr hy⟩
      rintro rfl
      exact hnot hy
  · exact absurd hin hout

theorem held_of_refusal (ha : h.AllocatesFrom pool) (z : h.Refusal stamp req s) {repo : Repository}
    (ho : repo.releaseOnRefusal = true) :
    (pool (h.attend (repo.create stamp req) s).final).held = (pool s).held := by
  have hgains := ha.ensures_prepare stamp req s rfl z.record (by rw [z.prepares])
  have hkept := ha.kept_of_meet (by simp) (by simp) (outcome_of_refuses z.refuses)
  rw [z.prepares] at hgains
  rw [z.attend_create, refused_of_released ho]
  exact ha.serve_returning ⟨hgains.1, hkept.trans hgains.2⟩

end AllocatesFrom

end Host

/-! ## Compensation -/

/-- At any host, a create gives an address back just when its repository does that and the store has
answered its record with an error. That is its last call, after the one to the store, which comes right
after the one that has taken the address of the record: it names that address and its prefix, it is
made under a context of its own, and whatever it is answered, the create ends with the error of the
store. So if it is answered at all, the result does not depend on the repository; and at a host that
takes its addresses from a pool, the pairs that are held are those that were held before. -/
theorem Repository.create_compensation {S : Type} (repo : Repository) (stamp : Stamp)
    (req : Wire.CreateRequest) (h : Host S) (s : S) :
    let x := h.attend (repo.create stamp req) s
    ((∃ c ∈ x.log, c.IsRelease) ↔
      repo.releaseOnRefusal = true ∧ ∃ b ∈ x.log, ∃ r e, b.Refuses r e) ∧
    (∀ b ∈ x.log, ∀ r e, b.Refuses r e → ∃ before a, a.Takes r ∧ (∀ y ∈ before, ¬ y.IsRelease) ∧
      if repo.releaseOnRefusal then
        ∃ c, c.call = releaseCall r.address r.parentPrefix ∧ c.guarded = false ∧
          x.log = before ++ [a, b, c] ∧ x.result = c.meeting.outcome.map fun _ => .error (.ofStore e)
      else x.log = before ++ [a, b] ∧ x.result = some (.error (.ofStore e))) ∧
    ((∀ c ∈ x.log, c.IsRelease → c.meeting.outcome ≠ none) →
      ∀ other : Repository, other.releaseOnRefusal = false →
        (h.attend (other.create stamp req) s).result = x.result) ∧
    ∀ pool, h.AllocatesFrom pool → (∃ c ∈ x.log, c.IsRelease) →
      (pool x.final).held = (pool s).held := by
  intro x
  rcases h.attend_create_cases stamp req s with ⟨⟨z⟩⟩ | ⟨y, hy, hcreate⟩
  · refine ⟨z.exists_isRelease_iff.trans ⟨fun ho => ⟨ho, _, z.mem_log.2 (.inr (.inl rfl)), _, _,
      z.refuses⟩, And.left⟩, ?_, fun hanswered other hother => z.result_eq hother hanswered,
      fun pool hpool hc => hpool.held_of_refusal z (z.exists_isRelease_iff.1 hc)⟩
    intro b hb r e hrefuses
    obtain ⟨rfl, rfl, rfl⟩ := z.eq_of_refuses hb hrefuses
    refine ⟨z.before, z.taking, z.takes,
      fun a ha => (z.isEarly a (List.mem_append_left _ ha)).not_isRelease, ?_⟩
    have hx : x = (h.refused repo z.record z.error z.state).behind (z.before ++ [z.taking]) :=
      z.attend_create repo
    split
    · next ho =>
      rw [hx, Host.refused_of_released ho]
      exact ⟨h.returning z.record (h.storing z.record z.state).meeting.after, rfl, rfl,
        List.append_assoc z.before [z.taking] _, rfl⟩
    · next ho =>
      rw [hx, Host.refused_of_kept (Bool.eq_false_iff.2 ho)]
      exact ⟨List.append_assoc z.before [z.taking] _, rfl⟩
  · have hx : x = y := hcreate repo
    have hno : ¬ ∃ c ∈ x.log, c.IsRelease := by
      rw [hx]
      rintro ⟨c, hc, hrelease⟩
      exact (hy c hc).1 hrelease
    refine ⟨⟨fun hrelease => absurd hrelease hno, ?_⟩, ?_, fun _ other _ => ?_, ?_⟩
    · rintro ⟨-, b, hb, r, e, hrefuses⟩
      exact absurd hrefuses ((hy b (hx ▸ hb)).2 r e)
    · intro b hb r e hrefuses
      exact absurd hrefuses ((hy b (hx ▸ hb)).2 r e)
    · rw [hcreate, hx]
    · exact fun pool _ hrelease => absurd hrelease hno

namespace Small

/-- A host of which the memory takes records in no case, and which cancels the request meanwhile. -/
def refusing : Host (Memory × Context) where
  context := Prod.snd
  guarded s c :=
    match c with
    | .storeCreate _ => ⟨[], some (.error (.backend "")), (s.1, ⟨true, none⟩)⟩
    | c => ⟨[], some (s.1.perform 0 c).1, ((s.1.perform 0 c).2, s.2)⟩
  detached s c := (some (s.1.perform 0 c).1, ((s.1.perform 0 c).2, s.2))

theorem refusing_allocatesFrom : refusing.AllocatesFrom fun s => s.1.pool where
  acquire := by
    intro s req answer hanswer
    cases hanswer
    exact .inl ⟨0, rfl⟩
  release := fun s req => ⟨rfl, rfl⟩
  other := by
    intro s c hacquire hrelease
    cases c with
    | acquire req => exact absurd rfl (hacquire req)
    | release req => exact absurd rfl (hrelease req)
    | _ => rfl

/-- Whether the store refuses a record. -/
def isRefusal : Exchange → Bool
  | ⟨.storeCreate _, .ok (.error _)⟩ => true
  | _ => false

theorem exists_refuses {S : Type} {log : List (Attempt S)}
    (h : (log.filterMap Attempt.exchange?).any isRefusal = true) :
    ∃ b ∈ log, ∃ r e, b.Refuses r e := by
  obtain ⟨y, hy, hrefusal⟩ := List.any_eq_true.1 h
  obtain ⟨b, hb, hexchange⟩ := List.mem_filterMap.1 hy
  unfold isRefusal at hrefusal
  split at hrefusal
  · next r e => exact ⟨b, hb, r, e, hexchange⟩
  · cases hrefusal

end Small

theorem Repository.create_compensation_canceled :
    let x := Small.refusing.attend
      (Repository.create ⟨.unscoped, true⟩ Small.stamp Small.otherRequest) (Small.memory, ⟨false, none⟩)
    x.final.2.canceled = true ∧ (∃ c ∈ x.log, c.IsRelease) ∧
      x.final.1.pool.held = Small.memory.pool.held := by
  obtain ⟨hrelease, -, -, hpool⟩ := Repository.create_compensation ⟨.unscoped, true⟩ Small.stamp
    Small.otherRequest Small.refusing (Small.memory, ⟨false, none⟩)
  have hgiven := hrelease.2 ⟨rfl, Small.exists_refuses (by decide +kernel)⟩
  exact ⟨by decide +kernel, hgiven, hpool (fun s => s.1.pool) Small.refusing_allocatesFrom hgiven⟩

end Ipam
