import Ipam.Proofs.Course.Stage
import Ipam.Proofs.Record.Revision
import Ipam.Proofs.Store.Project

/-!
# What requests do to a store

A request is run over a store that is kept in memory. Its calls of the store are served, or fail, or
are given up; all other calls may be answered in any way, except that a lookup finds the project that
was asked for (`Store.Meets`). `Program.Runs` says how far a request may come in that way, and which
store it leaves there.

`Program.Ensures` is what is proved of requests: a condition holds of the store at every point, and
one of the result and the store at a good end. What each operation can make of the store is said
once (`Store.Becomes`), for any operation of any repository (`Operation.ensures`).
-/

namespace Ipam

/-- Whether a call is one of the store. -/
def Call.isStored : Call → Bool
  | .storeGet _ => true
  | .storeList _ => true
  | .storeCreate _ => true
  | .storeUpdate .. => true
  | .storeDelete _ => true
  | _ => false

/-- Whether an answer to a call may be relied on: a project that was found is the one asked for. -/
def Call.Reliable : (c : Call) → Except Interruption c.Answer → Prop
  | .project id, out => ∀ p, out = .ok (.ok p) → p.id = id
  | _, _ => True

/-- What the caller may learn of a call, and the store then. -/
inductive Store.Meets (s : Store) : (c : Call) → Except Interruption c.Answer → Store → Prop where
  /-- A call of the store meets its fate. -/
  | stored {c : Call} (hc : c.isStored = true) (m : Memory) (hm : m.store = s) (fate : Fate) :
      Meets s c (m.meet c fate).1 (m.meet c fate).2.store
  /-- Another call leaves the store alone. -/
  | other {c : Call} (hc : c.isStored = false) (out : Except Interruption c.Answer)
      (h : c.Reliable out) : Meets s c out s

namespace Program

/-- How far a program may come, and the store then. -/
inductive Runs {α : Type} : Store → Program α → Store → Program α → Prop where
  /-- No further. -/
  | here (s : Store) (p : Program α) : Runs s p s p
  /-- A guarded call is made first. -/
  | guarded {s t u : Store} {c : Call} {next : Except Interruption c.Answer → Program α}
      {p : Program α} {out : Except Interruption c.Answer} (h : s.Meets c out t)
      (hrest : Runs t (next out) u p) : Runs s (.guarded c next) u p
  /-- A detached call is made first. -/
  | detached {s t u : Store} {c : Call} {next : c.Answer → Program α} {p : Program α} {a : c.Answer}
      (h : s.Meets c (.ok a) t) (hrest : Runs t (next a) u p) : Runs s (.detached c next) u p

/-- Wherever a request comes to, the store meets `I`, and it succeeds only with a result and a store
that meet `Q`. -/
def Ensures {α : Type} (I : Store → Prop) :
    Program (Except RequestError α) → Store → (α → Store → Prop) → Prop
  | .done (.ok a), s, Q => I s ∧ Q a s
  | .done (.error _), s, _ => I s
  | .guarded c next, s, Q => I s ∧ ∀ out t, s.Meets c out t → (next out).Ensures I t Q
  | .detached c next, s, Q => I s ∧ ∀ a t, s.Meets c (.ok a) t → (next a).Ensures I t Q

end Program

/-! ## Single calls -/

/-- A project that is found has the id that was looked up. -/
theorem Catalog.project_id {c : Catalog} {id : String} {p : Project} (h : c.project id = .ok p) :
    p.id = id := by
  unfold Catalog.project at h
  split at h
  · next q hq =>
    cases h
    simpa using List.find?_some hq
  · cases h

namespace Store.Meets

variable {s t : Store}

theorem eq_of_other {c : Call} {out : Except Interruption c.Answer} (h : s.Meets c out t)
    (hc : c.isStored = false) : t = s := by
  cases h with
  | stored hs => rw [hs] at hc; cases hc
  | other => rfl

theorem project_id {id : String} {p : Project} (h : s.Meets (.project id) (.ok (.ok p)) t) :
    p.id = id := by
  generalize hout : (Except.ok (Except.ok p) : Except Interruption (Call.project id).Answer) = out at h
  cases h with
  | stored hs => cases hs
  | other _ _ hr => exact hr p hout.symm

theorem get {id : String} {out : Except Interruption (Call.storeGet id).Answer}
    (h : s.Meets (.storeGet id) out t) :
    t = s ∧ ∀ r, out = .ok (.ok r) → s.find? id = some r := by
  cases h with
  | stored hs m hm fate =>
    rw [Memory.meet_storeGet, hm]
    refine ⟨rfl, fun r hr => ?_⟩
    rw [← hm]
    exact Memory.find?_of_meet_storeGet hr
  | other hs => cases hs

theorem list {q : Query} {out : Except Interruption (Call.storeList q).Answer}
    (h : s.Meets (.storeList q) out t) : t = s := by
  cases h with
  | stored hs m hm fate => rw [Memory.meet_storeList, hm]
  | other hs => cases hs

theorem create {r : Record} {out : Except Interruption (Call.storeCreate r).Answer}
    (h : s.Meets (.storeCreate r) out t) :
    ((∀ o ∈ s.records, o.slot ≠ r.slot) ∧ t = ⟨s.nextId + 1, s.records ++ [s.numberedNext r]⟩ ∧
      ∀ a, out = .ok (.ok a) → a = s.numberedNext r) ∨
    (t = s ∧ ∀ a, out ≠ .ok (.ok a)) := by
  cases h with
  | stored hs m hm fate =>
    subst hm
    rcases m.meet_storeCreate fate r with
      ⟨-, hfree, hm, hout | ⟨cause, hout⟩⟩ | ⟨-, hm, ⟨e, hout⟩ | ⟨cause, hout⟩⟩
    · refine .inl ⟨hfree, by rw [hm], fun a ha => ?_⟩
      cases hout.symm.trans ha
      rfl
    · refine .inl ⟨hfree, by rw [hm], fun a ha => ?_⟩
      cases hout.symm.trans ha
    · refine .inr ⟨by rw [hm], fun a ha => ?_⟩
      cases hout.symm.trans ha
    · refine .inr ⟨by rw [hm], fun a ha => ?_⟩
      cases hout.symm.trans ha
  | other hs => cases hs

theorem update {new old : Record} {out : Except Interruption (Call.storeUpdate new old).Answer}
    (h : s.Meets (.storeUpdate new old) out t) :
    (∃ l₁ l₂, s.records = l₁ ++ old :: l₂ ∧ t = ⟨s.nextId, l₁ ++ new :: l₂⟩) ∨
    (t = s ∧ out ≠ .ok (.ok ())) := by
  cases h with
  | stored hs m hm fate =>
    subst hm
    rcases m.meet_storeUpdate fate new old with
      ⟨-, l₁, l₂, hl, -, hm, -⟩ | ⟨hm, ⟨e, hout⟩ | ⟨cause, hout⟩⟩
    · exact .inl ⟨l₁, l₂, hl, by rw [hm]⟩
    · refine .inr ⟨by rw [hm], fun ha => ?_⟩
      cases hout.symm.trans ha
    · refine .inr ⟨by rw [hm], fun ha => ?_⟩
      cases hout.symm.trans ha
  | other hs => cases hs

theorem delete {r : Record} {out : Except Interruption (Call.storeDelete r).Answer}
    (h : s.Meets (.storeDelete r) out t) :
    (∃ l₁ o l₂, s.records = l₁ ++ o :: l₂ ∧ s.find? r.id = some o ∧ t = ⟨s.nextId, l₁ ++ l₂⟩) ∨
    (t = s ∧ (out = .ok (.ok ()) → False)) := by
  cases h with
  | stored hs m hm fate =>
    subst hm
    rcases m.meet_storeDelete fate r with
      ⟨-, l₁, o, l₂, hl, hid, hne, hm, -⟩ | ⟨-, hm, ⟨e, hout⟩ | ⟨cause, hout⟩⟩
    · refine .inl ⟨l₁, o, l₂, hl, ?_, by rw [hm]⟩
      rw [← hid] at hne ⊢
      exact find?_append_cons hl hne
    · refine .inr ⟨by rw [hm], fun ha => ?_⟩
      cases hout.symm.trans ha
    · refine .inr ⟨by rw [hm], fun ha => ?_⟩
      cases hout.symm.trans ha
  | other hs => cases hs

end Store.Meets

/-- What becomes of a call in memory is what may become of it. -/
theorem Memory.meets (m : Memory) (c : Call) (fate : Fate) :
    m.store.Meets c (m.meet c fate).1 (m.meet c fate).2.store := by
  cases hc : c.isStored with
  | true => exact .stored hc m rfl fate
  | false =>
    have hstore : (m.meet c fate).2.store = m.store := by
      cases c <;> cases fate <;> first | rfl | cases hc
    rw [hstore]
    refine .other hc _ ?_
    cases c with
    | project id =>
      intro p hp
      cases fate with
      | served pick =>
        simp only [meet, perform, Except.ok.injEq] at hp
        exact Catalog.project_id hp
      | failed fault => cases hp
      | dropped cause => cases hp
      | orphaned pick cause => cases hp
    | _ => trivial

/-! ## Requests -/

namespace Program

variable {α β : Type} {I : Store → Prop} {s t : Store}

theorem Ensures.inv {p : Program (Except RequestError α)} {Q : α → Store → Prop}
    (h : p.Ensures I s Q) : I s := by
  cases p with
  | done r =>
    cases r with
    | ok a => exact h.1
    | error e => exact h
  | guarded c next => exact h.1
  | detached c next => exact h.1

/-- What is ensured of a request is ensured of the rest of it, wherever it comes to. -/
theorem Ensures.runs {p q : Program (Except RequestError α)} {Q : α → Store → Prop}
    (h : p.Ensures I s Q) (hr : Runs s p t q) : q.Ensures I t Q := by
  induction hr with
  | here s p => exact h
  | guarded hm _ ih => exact ih (h.2 _ _ hm)
  | detached hm _ ih => exact ih (h.2 _ _ hm)

theorem Runs.trans {p q r : Program α} {u : Store} (h : Runs s p t q) (h' : Runs t q u r) :
    Runs s p u r := by
  induction h with
  | here s p => exact h'
  | guarded hm _ ih => exact .guarded hm (ih h')
  | detached hm _ ih => exact .detached hm (ih h')

/-- A program that is followed in memory runs over the store. -/
theorem runs_follow (c : Course α) (m : Memory) (fates : List Fate) :
    Runs m.store c.rest (c.follow m fates).2.store (c.follow m fates).1.rest := by
  induction fates generalizing c m with
  | nil => exact .here _ _
  | cons fate fates ih =>
    refine Runs.trans ?_ (ih (c.advance m fate).1 (c.advance m fate).2)
    obtain ⟨rest, trace⟩ := c
    cases rest with
    | done a => exact .here _ _
    | guarded call next => exact .guarded (m.meets call fate) (.here _ _)
    | detached call next =>
      unfold Course.advance
      dsimp only
      have hm := m.meets call fate
      split
      · next a m' he =>
        rw [he] at hm
        exact .detached hm (.here _ _)
      · -- a detached call is not given up, and the program stays where it is
        exact .here _ _

namespace Ensures

theorem mono {p : Program (Except RequestError α)} {J : Store → Prop} {Q R : α → Store → Prop}
    (h : p.Ensures I s Q) (hI : ∀ t, I t → J t) (hQ : ∀ a t, I t → Q a t → R a t) :
    p.Ensures J s R := by
  induction p generalizing s with
  | done r =>
    cases r with
    | ok a => exact ⟨hI s h.1, hQ a s h.1 h.2⟩
    | error e => exact hI s h
  | guarded c next ih => exact ⟨hI s h.1, fun out t hm => ih out (h.2 out t hm)⟩
  | detached c next ih => exact ⟨hI s h.1, fun a t hm => ih a (h.2 a t hm)⟩

theorem bind {x : Request α} {f : α → Request β} {Q : β → Store → Prop}
    (h : Ensures I x s fun a t => Ensures I (f a) t Q) : Ensures I (x >>= f : Request β) s Q := by
  show Ensures I (Program.bind x (ExceptT.bindCont f)) s Q
  revert h
  generalize (x : Program (Except RequestError α)) = p
  intro h
  induction p generalizing s with
  | done r =>
    cases r with
    | ok a => exact h.2
    | error e => exact h
  | guarded c next ih => exact ⟨h.1, fun out t hm => ih out (h.2 out t hm)⟩
  | detached c next ih => exact ⟨h.1, fun a t hm => ih a (h.2 a t hm)⟩

theorem pure {a : α} {Q : α → Store → Prop} (hI : I s) (h : Q a s) :
    Ensures I (Pure.pure a : Request α) s Q := ⟨hI, h⟩

theorem map {x : Request α} {f : α → β} {Q : β → Store → Prop}
    (h : Ensures I x s fun a t => Q (f a) t) : Ensures I (do return f (← x) : Request β) s Q :=
  .bind (h.mono (fun _ hI => hI) fun _ _ hI hQ => .pure hI hQ)

theorem throw {e : RequestError} {Q : α → Store → Prop} (hI : I s) :
    Ensures I (MonadExcept.throw e : Request α) s Q := hI

theorem ofExcept {r : Except RequestError α} {Q : α → Store → Prop} (hI : I s)
    (h : ∀ a, r = .ok a → Q a s) : Ensures I (Request.ofExcept r) s Q := by
  cases r with
  | ok a => exact ⟨hI, h a rfl⟩
  | error e => exact hI

theorem accept {r : Except StoreError α} {Q : α → Store → Prop} (hI : I s)
    (h : ∀ a, r = .ok a → Q a s) : Ensures I (Request.accept r) s Q := by
  cases r with
  | ok a => exact ⟨hI, h a rfl⟩
  | error e => exact hI

theorem ask {c : Call} {Q : c.Answer → Store → Prop} (hI : I s)
    (h : ∀ out t, s.Meets c out t → I t ∧ ∀ a, out = .ok a → Q a t) :
    Ensures I (Request.ask c) s Q := by
  refine ⟨hI, fun out t hm => ?_⟩
  obtain ⟨hI, hQ⟩ := h out t hm
  cases out with
  | ok a => exact ⟨hI, hQ a rfl⟩
  | error i => exact hI

end Ensures

end Program

/-! ## The operations -/

section

open Program

variable {I : Store → Prop} {s : Store} {repo : Repository}

theorem Repository.get_ensures {id : String} {Q : Record → Store → Prop} (hI : I s)
    (h : ∀ r, s.find? id = some r → repo.scope.admits r.projectId = true → Q r s) :
    Ensures I (repo.get id) s Q := by
  refine .bind (.ask hI fun out t hm => ?_)
  obtain ⟨rfl, hget⟩ := hm.get
  refine ⟨hI, ?_⟩
  rintro answer rfl
  refine .bind (.accept hI ?_)
  rintro r rfl
  by_cases ha : repo.scope.admits r.projectId = true
  · rw [if_pos ha]
    exact .pure hI (h r (hget r rfl) ha)
  · rw [if_neg ha]
    exact .throw hI

theorem Repository.list_ensures {q : Query} {Q : List Record → Store → Prop} (hI : I s)
    (h : ∀ rs, Q rs s) : Ensures I (repo.list q) s Q := by
  refine .bind (.ask hI fun out t hm => ?_)
  obtain rfl := hm.list
  refine ⟨hI, fun answer _ => .bind (.accept hI fun rs _ => .pure hI (h _))⟩

theorem acquire_ensures {p : Prefix} {wanted : Option Addr}
    {Q : Except AcquireError Addr → Store → Prop} (hI : I s) (h : ∀ r, Q r s) :
    Ensures I (liftM (acquire p wanted) : Request _) s Q := by
  refine ⟨hI, fun out t hm => ?_⟩
  rw [hm.eq_of_other rfl]
  exact ⟨hI, h _⟩

theorem anyAddressOf_ensures {network : String} {f : Family} {ps : List Prefix}
    {Q : Lease → Store → Prop} (hI : I s) (h : ∀ lease, Q lease s) :
    Ensures I (anyAddressOf network f ps) s Q := by
  induction ps with
  | nil => exact .throw hI
  | cons p ps ih =>
    refine .bind (acquire_ensures hI fun r => ?_)
    rcases r with (_ | _ | e) | a
    · exact ih
    · exact .throw hI
    · exact .throw hI
    · exact .pure hI (h _)

theorem specificAddress_ensures {n : Network} {literal : String} {Q : Lease → Store → Prop}
    (hI : I s) (h : ∀ lease, Q lease s) : Ensures I (specificAddress n literal) s Q := by
  refine .bind (.ofExcept hI fun w _ => ?_)
  cases prefixFor? n w with
  | none => exact .throw hI
  | some p =>
    refine .bind (acquire_ensures hI fun r => ?_)
    rcases r with (_ | _ | e) | a
    · exact .throw hI
    · exact .throw hI
    · exact .throw hI
    · exact .pure hI (h _)

theorem Repository.persist_ensures {r : Record} {Q : Record → Store → Prop} (hI : I s)
    (h : (∀ o ∈ s.records, o.slot ≠ r.slot) →
      I ⟨s.nextId + 1, s.records ++ [s.numberedNext r]⟩ ∧
        Q (s.numberedNext r) ⟨s.nextId + 1, s.records ++ [s.numberedNext r]⟩) :
    Ensures I (repo.persist r) s Q := by
  have hcompensate : ∀ {t e}, I t →
      Ensures I (repo.compensate r >>= fun _ => .done (.error e)) t Q := by
    intro t e ht
    unfold Repository.compensate
    split
    · refine ⟨ht, fun a u hm => ?_⟩
      rw [hm.eq_of_other rfl]
      exact ht
    · exact ht
  refine ⟨hI, fun out t hm => ?_⟩
  -- the record may be there although the request does not learn of it
  rcases hm.create with ⟨hfree, rfl, ha⟩ | ⟨rfl, hno⟩
  · obtain ⟨hI', hQ⟩ := h hfree
    rcases out with i | e | a
    · exact hI'
    · exact hcompensate hI'
    · rw [ha a rfl]
      exact ⟨hI', hQ⟩
  · rcases out with i | e | a
    · exact hI
    · exact hcompensate hI
    · exact absurd rfl (hno a)

theorem Repository.create_ensures {stamp : Stamp} {req : Wire.CreateRequest}
    {Q : Record → Store → Prop} (hI : I s)
    (h : ∀ r : Record, r.projectId = req.project → (∀ o ∈ s.records, o.slot ≠ r.slot) →
      I ⟨s.nextId + 1, s.records ++ [s.numberedNext r]⟩ ∧
        Q (s.numberedNext r) ⟨s.nextId + 1, s.records ++ [s.numberedNext r]⟩) :
    Ensures I (repo.create stamp req) s Q := by
  refine .bind (.ask hI fun out t hm => ?_)
  have ht := hm.eq_of_other rfl
  subst t
  refine ⟨hI, ?_⟩
  rintro answer rfl
  refine .bind (.accept hI ?_)
  rintro p rfl
  have hp : p.id = req.project := hm.project_id
  refine .bind (.ask hI fun out t hm => ?_)
  rw [hm.eq_of_other rfl]
  refine ⟨hI, fun answer _ => .bind (.accept hI fun n _ => ?_)⟩
  refine .bind (.ofExcept hI fun family _ => .bind (.ofExcept hI fun _ _ => ?_))
  refine .bind (.ofExcept hI fun retention _ => ?_)
  have hpersist : ∀ lease, Ensures I
      (repo.persist (newRecord stamp req p n retention lease)) s Q :=
    fun lease => persist_ensures hI (h _ hp)
  cases req.ip with
  | some literal => exact .bind (specificAddress_ensures hI hpersist)
  | none => exact .bind (anyAddressOf_ensures hI hpersist)

theorem Repository.update_ensures {now : Instant} {req : Wire.UpdateRequest}
    {Q : Record → Store → Prop} (hI : I s)
    (h : ∀ old new l₁ l₂, s.records = l₁ ++ old :: l₂ → old.id = req.ip →
      repo.scope.admits old.projectId = true → old.RevisedBy now req new →
      I ⟨s.nextId, l₁ ++ new :: l₂⟩ ∧ Q new ⟨s.nextId, l₁ ++ new :: l₂⟩) :
    Ensures I (repo.update now req) s Q := by
  refine .bind (Repository.get_ensures hI fun old hold ha => ?_)
  refine .bind (.ofExcept hI fun new hnew => .bind (.ask hI fun out t hm => ?_))
  rcases hm.update with ⟨l₁, l₂, hl, rfl⟩ | ⟨rfl, hno⟩
  · have hid := (Store.mem_of_find? hold).2
    obtain ⟨hI', hQ⟩ := h old new l₁ l₂ hl hid ha (revise_eq_ok hnew)
    refine ⟨hI', fun answer _ => .bind (.accept hI' fun _ _ => .pure hI' hQ)⟩
  · refine ⟨hI, ?_⟩
    rintro (e | u) rfl
    · exact .bind (.accept hI nofun)
    · exact absurd rfl hno

theorem Repository.delete_ensures {id : String} {Q : Record → Store → Prop} (hI : I s)
    (h : ∀ r l₁ l₂, s.records = l₁ ++ r :: l₂ → r.id = id →
      repo.scope.admits r.projectId = true →
      I ⟨s.nextId, l₁ ++ l₂⟩ ∧ Q r ⟨s.nextId, l₁ ++ l₂⟩) :
    Ensures I (repo.delete id) s Q := by
  refine .bind (Repository.get_ensures hI fun r hr ha => ?_)
  refine .bind (.bind (.ask hI fun out t hm => ?_))
  rw [hm.eq_of_other rfl]
  refine ⟨hI, fun answer _ => .ofExcept hI fun back _ => ?_⟩
  have hid := (Store.mem_of_find? hr).2
  refine .bind (.ask hI fun out t hm => ?_)
  rcases hm.delete with ⟨l₁, o, l₂, hl, ho, rfl⟩ | ⟨rfl, hno⟩
  · -- the record that goes is the one that was read
    rw [hid, hr] at ho
    cases ho
    obtain ⟨hI', hQ⟩ := h r l₁ l₂ hl hid ha
    refine ⟨hI', fun answer _ => .bind (.accept hI' fun _ _ => .pure hI' hQ)⟩
  · refine ⟨hI, ?_⟩
    rintro (e | u) rfl
    · exact .bind (.accept hI nofun)
    · exact absurd rfl hno

/-- The project that an operation is to make a record for. -/
def Operation.newProject? : Operation → Option String
  | .create _ req => some req.project
  | _ => none

/-- What may become of a store in an operation of a repository. -/
inductive Store.Becomes (repo : Repository) (s : Store) : Operation → Store → Prop where
  /-- The store stays as it is. -/
  | same (op : Operation) : Becomes repo s op s
  /-- A record of the project that the request names is put at the end, under a pair of its own. -/
  | added {stamp : Stamp} {req : Wire.CreateRequest} {r : Record}
      (hproject : r.projectId = req.project) (hfree : ∀ o ∈ s.records, o.slot ≠ r.slot) :
      Becomes repo s (.create stamp req) ⟨s.nextId + 1, s.records ++ [s.numberedNext r]⟩
  /-- A record in view is revised where it stands. -/
  | changed {now : Instant} {req : Wire.UpdateRequest} {old new : Record} {l₁ l₂ : List Record}
      (hl : s.records = l₁ ++ old :: l₂) (ha : repo.scope.admits old.projectId = true)
      (hrev : old.RevisedBy now req new) :
      Becomes repo s (.update now req) ⟨s.nextId, l₁ ++ new :: l₂⟩
  /-- A record in view goes. -/
  | removed {id : String} {r : Record} {l₁ l₂ : List Record} (hl : s.records = l₁ ++ r :: l₂)
      (ha : repo.scope.admits r.projectId = true) : Becomes repo s (.delete id) ⟨s.nextId, l₁ ++ l₂⟩

/-- Whether a response is the record that a create has put at the end of a store. -/
def Operation.Appends (s : Store) : Operation → Response → Store → Prop
  | .create _ req, response, t => ∃ r, response = .record r ∧ r.projectId = req.project ∧
      r.id = toString (s.nextId + 1).toNat ∧ t.records = s.records ++ [r]
  | _, _, _ => True

/-- Wherever an operation comes to, the store is what may become of it. -/
theorem Operation.ensures (repo : Repository) (op : Operation) (s : Store) :
    Ensures (s.Becomes repo op) (op.request repo) s (op.Appends s) := by
  cases op with
  | get id => exact .map (Repository.get_ensures (.same _) fun _ _ _ => trivial)
  | list q => exact .map (Repository.list_ensures (.same _) fun _ => trivial)
  | create stamp req =>
    refine .map (Repository.create_ensures (.same _) fun r hproject hfree => ?_)
    exact ⟨.added hproject hfree, s.numberedNext r, rfl, hproject, rfl, rfl⟩
  | update now req =>
    refine .map (Repository.update_ensures (.same _) fun old new l₁ l₂ hl _ ha hrev => ?_)
    exact ⟨.changed hl ha hrev, trivial⟩
  | delete id =>
    refine .map (Repository.delete_ensures (.same _) fun r l₁ l₂ hl _ ha => ?_)
    exact ⟨.removed hl ha, trivial⟩

end

/-! ## What a store keeps -/

namespace Store.Becomes

variable {repo : Repository} {s t : Store} {op : Operation}

theorem nextId_eq (h : s.Becomes repo op t) :
    t.nextId = s.nextId ∨ t.nextId = s.nextId + 1 ∧ ∃ stamp req, op = .create stamp req := by
  cases h with
  | same => exact .inl rfl
  | added => exact .inr ⟨rfl, _, _, rfl⟩
  | changed => exact .inl rfl
  | removed => exact .inl rfl

theorem indexed (h : s.Becomes repo op t) (hs : s.Indexed) (hc : s.nextId ≤ t.nextId) :
    t.Indexed := by
  cases h with
  | same => exact hs
  | added hproject hfree => exact hs.append _ hc
  | changed hl ha hrev => exact hs.replace hl hrev.id
  | removed hl ha => exact hs.sublist rfl (sublist_remove hl)

theorem wellFormed (h : s.Becomes repo op t) (hs : s.WellFormed) (hc : s.nextId ≤ t.nextId) :
    t.WellFormed := by
  cases h with
  | same => exact hs
  | added hproject hfree => exact hs.append hfree hc
  | changed hl ha hrev => exact hs.replace hl hrev.id hrev.slot_eq
  | removed hl ha => exact hs.remove hl

/-- A record is of the project of one that was there before, or of the one that a create is for. -/
theorem projectId_cases (h : s.Becomes repo op t) {r : Record} (hr : r ∈ t.records) :
    (∃ o ∈ s.records, r.projectId = o.projectId) ∨ op.newProject? = some r.projectId := by
  cases h with
  | same => exact .inl ⟨r, hr, rfl⟩
  | added hproject hfree =>
    rcases List.mem_append.1 hr with hr | hr
    · exact .inl ⟨r, hr, rfl⟩
    · rw [List.mem_singleton.1 hr]
      exact .inr (congrArg some hproject.symm)
  | changed hl ha hrev =>
    left
    rcases List.mem_append.1 hr with hr | hr
    · exact ⟨r, by simp [hl, hr], rfl⟩
    rcases List.mem_cons.1 hr with rfl | hr
    · exact ⟨_, by simp [hl], hrev.projectId⟩
    · exact ⟨r, by simp [hl, hr], rfl⟩
  | removed hl ha => exact .inl ⟨r, (sublist_remove hl).subset hr, rfl⟩

/-- A repository of a project adds to the records of the others just what a create makes for one of
them. -/
theorem foreign_eq {p : String} (hscope : repo.scope = .project p) (h : s.Becomes repo op t) :
    ∃ added, t.foreign p = s.foreign p ++ added ∧
      ∀ r ∈ added, r.projectId ≠ p ∧ op.newProject? = some r.projectId := by
  have hin : ∀ q, repo.scope.admits q = true → q = p := by
    intro q ha
    rw [hscope] at ha
    exact (of_decide_eq_true ha).symm
  have hnone : t.foreign p = s.foreign p → ∃ added, t.foreign p = s.foreign p ++ added ∧
      ∀ r ∈ added, r.projectId ≠ p ∧ op.newProject? = some r.projectId := by
    intro he
    exact ⟨[], by simp [he], by simp⟩
  cases h with
  | same => exact hnone rfl
  | added hproject hfree =>
    refine ⟨_, foreign_append _ rfl, fun o ho => ?_⟩
    split at ho
    · cases ho
    · next hp =>
      rw [List.mem_singleton.1 ho]
      exact ⟨hp, congrArg some hproject.symm⟩
  | changed hl ha hrev =>
    exact hnone (foreign_replace _ hl (hin _ ha) (hrev.projectId.trans (hin _ ha)))
  | removed hl ha => exact hnone (foreign_remove _ hl (hin _ ha))

end Store.Becomes

end Ipam
