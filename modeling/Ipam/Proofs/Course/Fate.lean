import Ipam.Proofs.Pool.Held
import Ipam.Proofs.Store.WellFormed
import Ipam.Repository

/-!
# What becomes of calls

A call may be served, fail without effect, or be given up, before it took effect or after it
(`Fate`). `Memory.meet` says what the caller learns and what the collaborators hold then. A program
under way is a `Course`: what is left of it and the calls it has made; it goes on by one call at a
time (`Course.advance`), so that several can share a memory.

The lemmas on `meet` say for each call that matters what it can do to the memory, together with
what its caller can learn in each case.
-/

namespace Ipam

/-- The errors that a failing call is answered with, by the kind of its collaborator. -/
structure Fault where
  /-- The error of a store or a lookup. -/
  store : StoreError
  /-- The error of an allocator. -/
  allocator : AllocatorError
  deriving DecidableEq

/-- What becomes of a call. -/
inductive Fate where
  /-- It takes effect and is answered truthfully; `pick` is the choice of the allocator. -/
  | served (pick : Nat)
  /-- It is answered with an error and takes no effect. -/
  | failed (fault : Fault)
  /-- It is given up before it takes effect. -/
  | dropped (cause : Interruption)
  /-- It is given up after it took effect. -/
  | orphaned (pick : Nat) (cause : Interruption)
  deriving DecidableEq

/-- Whether a call with this fate takes effect. -/
def Fate.takesEffect : Fate → Bool
  | .served _ => true
  | .failed _ => false
  | .dropped _ => false
  | .orphaned .. => true

/-- Whether a call with this fate is served. -/
def Fate.isServed : Fate → Bool
  | .served _ => true
  | _ => false

theorem Fate.takesEffect_of_isServed {fate : Fate} (h : fate.isServed = true) :
    fate.takesEffect = true := by
  cases fate with
  | served pick => rfl
  | failed fault => cases h
  | dropped cause => cases h
  | orphaned pick cause => cases h

/-- Whether a call takes a pair or a record away. -/
def Call.takesAway : Call → Bool
  | .release _ => true
  | .storeDelete _ => true
  | _ => false

/-- The answer to a call that fails. -/
def Call.refuse (fault : Fault) : (c : Call) → c.Answer
  | .project _ => .error fault.store
  | .network .. => .error fault.store
  | .acquire _ => .error fault.allocator
  | .release _ => .error fault.allocator
  | .storeGet _ => .error fault.store
  | .storeList _ => .error fault.store
  | .storeCreate _ => .error fault.store
  | .storeUpdate .. => .error fault.store
  | .storeDelete _ => .error fault.store

namespace Memory

/-- What the caller learns of a call, and the memory then. -/
def meet (m : Memory) (c : Call) : Fate → Except Interruption c.Answer × Memory
  | .served pick => (.ok (m.perform pick c).1, (m.perform pick c).2)
  | .failed fault => (.ok (c.refuse fault), m)
  | .dropped cause => (.error cause, m)
  | .orphaned pick cause => (.error cause, (m.perform pick c).2)

end Memory

/-! ## Courses -/

/-- The calls that a program has made, with their fates. -/
abbrev Trace := List (Call × Fate)

namespace Trace

/-- All calls were served. -/
def Served (trace : Trace) : Prop := ∀ e ∈ trace, e.2.isServed = true

/-- A call that gives an address back took effect. -/
def Releases (trace : Trace) : Prop :=
  ∃ req fate, (Call.release req, fate) ∈ trace ∧ fate.takesEffect = true

/-- A call that removes a record took effect. -/
def Removes (trace : Trace) : Prop :=
  ∃ r fate, (Call.storeDelete r, fate) ∈ trace ∧ fate.takesEffect = true

/-- The call that gives the address of a record back was answered falsely: that it is not held. -/
def ToldAbsent (trace : Trace) (r : Record) : Prop :=
  ∃ fault, (releaseCall r.address r.parentPrefix, Fate.failed fault) ∈ trace ∧
    fault.allocator.code = .notFound

variable {trace : Trace} {c : Call} {fate : Fate}

theorem served_append :
    Served (trace ++ [(c, fate)]) ↔ trace.Served ∧ fate.isServed = true := by
  simp [Served, or_imp, forall_and]

theorem not_served_append (hf : fate.isServed = false) : ¬ Served (trace ++ [(c, fate)]) := by
  rw [served_append, hf]
  exact fun h => Bool.false_ne_true h.2

theorem releases_append :
    Releases (trace ++ [(c, fate)]) ↔
      trace.Releases ∨ (∃ req, c = .release req) ∧ fate.takesEffect = true := by
  constructor
  · rintro ⟨req, f, h, ht⟩
    rcases List.mem_append.1 h with h | h
    · exact .inl ⟨req, f, h, ht⟩
    · cases List.mem_singleton.1 h
      exact .inr ⟨⟨req, rfl⟩, ht⟩
  · rintro (⟨req, f, h, ht⟩ | ⟨⟨req, rfl⟩, ht⟩)
    · exact ⟨req, f, List.mem_append_left _ h, ht⟩
    · exact ⟨req, fate, List.mem_append_right _ List.mem_cons_self, ht⟩

theorem removes_append :
    Removes (trace ++ [(c, fate)]) ↔
      trace.Removes ∨ (∃ r, c = .storeDelete r) ∧ fate.takesEffect = true := by
  constructor
  · rintro ⟨r, f, h, ht⟩
    rcases List.mem_append.1 h with h | h
    · exact .inl ⟨r, f, h, ht⟩
    · cases List.mem_singleton.1 h
      exact .inr ⟨⟨r, rfl⟩, ht⟩
  · rintro (⟨r, f, h, ht⟩ | ⟨⟨r, rfl⟩, ht⟩)
    · exact ⟨r, f, List.mem_append_left _ h, ht⟩
    · exact ⟨r, fate, List.mem_append_right _ List.mem_cons_self, ht⟩

theorem not_releases_append (fate : Fate) (h : ¬ trace.Releases) (hc : c.takesAway = false) :
    ¬ Releases (trace ++ [(c, fate)]) := by
  rw [releases_append]
  rintro (hr | ⟨⟨req, rfl⟩, -⟩)
  · exact h hr
  · cases hc

theorem not_removes_append (fate : Fate) (h : ¬ trace.Removes) (hc : c.takesAway = false) :
    ¬ Removes (trace ++ [(c, fate)]) := by
  rw [removes_append]
  rintro (hr | ⟨⟨r, rfl⟩, -⟩)
  · exact h hr
  · cases hc

theorem ToldAbsent.append {r : Record} (h : trace.ToldAbsent r) :
    ToldAbsent (trace ++ [(c, fate)]) r := by
  obtain ⟨fault, hm, hf⟩ := h
  exact ⟨fault, List.mem_append_left _ hm, hf⟩

end Trace

/-- The call that a program makes next. -/
def Program.call? {α : Type} : Program α → Option Call
  | .done _ => none
  | .guarded c _ => some c
  | .detached c _ => some c

/-- Whether a program has a property, and all that may be left of it have the property. -/
def Program.Throughout {α : Type} (P : Program α → Prop) : Program α → Prop
  | .done a => P (.done a)
  | .guarded c next => P (.guarded c next) ∧ ∀ out, (next out).Throughout P
  | .detached c next => P (.detached c next) ∧ ∀ answer, (next answer).Throughout P

namespace Program.Throughout

variable {α : Type} {P : Program α → Prop} {p : Program α}

theorem self (h : p.Throughout P) : P p := by
  cases p with
  | done a => exact h
  | guarded c next => exact h.1
  | detached c next => exact h.1

theorem mono {Q : Program α → Prop} (h : p.Throughout P) (hPQ : ∀ p, P p → Q p) :
    p.Throughout Q := by
  induction p with
  | done a => exact hPQ _ h
  | guarded c next ih => exact ⟨hPQ _ h.1, fun out => ih out (h.2 out)⟩
  | detached c next ih => exact ⟨hPQ _ h.1, fun answer => ih answer (h.2 answer)⟩

end Program.Throughout

/-- One request after the other has a property throughout if each has it, and what follows a call does
not take the property away. -/
theorem Request.throughout_bind {P : {α : Type} → Program (Except RequestError α) → Prop}
    (hfails : ∀ {α} e, P (α := α) (.done (.error e)))
    (hguarded : ∀ {α β c next} (f : α → Request β), P (.guarded c next) →
      P (.guarded c fun out => (next out).bind (ExceptT.bindCont f)))
    (hdetached : ∀ {α β c next} (f : α → Request β), P (.detached c next) →
      P (.detached c fun answer => (next answer).bind (ExceptT.bindCont f)))
    {α β : Type} {x : Request α} {f : α → Request β} (hx : Program.Throughout P x)
    (hf : ∀ a, Program.Throughout P (f a)) : Program.Throughout P (x >>= f : Request β) := by
  show Program.Throughout P (Program.bind x (ExceptT.bindCont f))
  revert hx
  generalize (x : Program (Except RequestError α)) = p
  intro hp
  induction p with
  | done r =>
    cases r with
    | ok a => exact hf a
    | error e => exact hfails e
  | guarded c next ih => exact ⟨hguarded f hp.1, fun out => ih out (hp.2 out)⟩
  | detached c next ih => exact ⟨hdetached f hp.1, fun answer => ih answer (hp.2 answer)⟩

/-- A program under way. -/
structure Course (α : Type) where
  /-- What is left of it. -/
  rest : Program α
  /-- The calls it has made, with their fates. -/
  trace : Trace

namespace Course

variable {α : Type}

/-- A program that has made no call. -/
def start (p : Program α) : Course α := ⟨p, []⟩

/-- The next call of a course meets its fate. A detached call is never given up, and a course that
is over makes no call. -/
def advance (c : Course α) (m : Memory) (fate : Fate) : Course α × Memory :=
  match c.rest with
  | .done _ => (c, m)
  | .guarded call next =>
    let r := m.meet call fate
    (⟨next r.1, c.trace ++ [(call, fate)]⟩, r.2)
  | .detached call next =>
    match m.meet call fate with
    | (.ok a, m) => (⟨next a, c.trace ++ [(call, fate)]⟩, m)
    | (.error _, _) => (c, m)

/-- What a program has throughout, all that is left of it has. -/
theorem throughout_advance {P : Program α → Prop} {c : Course α} (h : c.rest.Throughout P)
    (m : Memory) (fate : Fate) : (c.advance m fate).1.rest.Throughout P := by
  obtain ⟨rest, trace⟩ := c
  cases rest with
  | done a => exact h
  | guarded call next => exact h.2 _
  | detached call next =>
    unfold advance
    dsimp only
    split
    · exact h.2 _
    · exact h

/-- The next calls of a course meet their fates, one after the other. -/
def follow (c : Course α) (m : Memory) : List Fate → Course α × Memory
  | [] => (c, m)
  | fate :: fates =>
    let r := c.advance m fate
    r.1.follow r.2 fates

/-- Whether a course has come to its end. -/
def IsOver (c : Course α) : Prop := ∃ a, c.rest = .done a

instance (c : Course α) : Decidable c.IsOver :=
  match h : c.rest with
  | .done a => .isTrue ⟨a, h⟩
  | .guarded .. => .isFalse fun ⟨a, ha⟩ => by rw [h] at ha; cases ha
  | .detached .. => .isFalse fun ⟨a, ha⟩ => by rw [h] at ha; cases ha

end Course

/-! ## The effects of calls -/

namespace Memory

variable {m : Memory} {fate : Fate}

/-- A call that takes effect is performed; its caller learns the answer, or nothing. -/
theorem meet_of_takesEffect (h : fate.takesEffect = true) (c : Call) :
    ∃ pick, (m.meet c fate).2 = (m.perform pick c).2 ∧
      ((m.meet c fate).1 = .ok (m.perform pick c).1 ∨ ∃ cause, (m.meet c fate).1 = .error cause) := by
  cases fate with
  | served pick => exact ⟨pick, rfl, .inl rfl⟩
  | failed fault => cases h
  | dropped cause => cases h
  | orphaned pick cause => exact ⟨pick, rfl, .inr ⟨cause, rfl⟩⟩

/-- A call that takes no effect leaves the memory alone; its caller learns of a failure, or nothing. -/
theorem meet_of_not_takesEffect (h : fate.takesEffect = false) (c : Call) :
    (m.meet c fate).2 = m ∧
      ((∃ fault, fate = .failed fault ∧ (m.meet c fate).1 = .ok (c.refuse fault)) ∨
        ∃ cause, (m.meet c fate).1 = .error cause) := by
  cases fate with
  | served pick => cases h
  | failed fault => exact ⟨rfl, .inl ⟨fault, rfl, rfl⟩⟩
  | dropped cause => exact ⟨rfl, .inr ⟨cause, rfl⟩⟩
  | orphaned pick cause => cases h

theorem meet_project (id : String) : (m.meet (.project id) fate).2 = m := by
  cases fate <;> rfl

theorem meet_network (project id : String) : (m.meet (.network project id) fate).2 = m := by
  cases fate <;> rfl

theorem meet_storeList (q : Query) : (m.meet (.storeList q) fate).2 = m := by
  cases fate <;> rfl

theorem meet_storeGet (id : String) : (m.meet (.storeGet id) fate).2 = m := by
  cases fate <;> rfl

/-- A record that is read is the first one with the id that was asked for. -/
theorem find?_of_meet_storeGet {id : String} {r : Record}
    (h : (m.meet (.storeGet id) fate).1 = .ok (.ok r)) : m.store.find? id = some r := by
  cases fate with
  | served pick =>
    simp only [meet, perform, Except.ok.injEq] at h
    exact Store.find?_of_get h
  | failed fault => cases h
  | dropped cause => cases h
  | orphaned pick cause => cases h

/-- A record that is read is in the store, under the id that was asked for. -/
theorem mem_of_meet_storeGet {id : String} {r : Record}
    (h : (m.meet (.storeGet id) fate).1 = .ok (.ok r)) : r ∈ m.store.records ∧ r.id = id :=
  Store.mem_of_find? (find?_of_meet_storeGet h)

variable (m fate)

/-- A call for an address adds a pair that was not held, or it leaves the pairs alone and its caller
gets no address. -/
theorem meet_acquire (p : Prefix) (wanted : Option Addr) :
    (∃ a, (p, a) ∉ m.pool.held ∧ fate.takesEffect = true ∧
      (m.meet (acquireCall p wanted) fate).2 = { m with pool := m.pool.hold p a } ∧
      (readAcquire p wanted (m.meet (acquireCall p wanted) fate).1 = .ok a ∨
        ∃ cause, (m.meet (acquireCall p wanted) fate).1 = .error cause)) ∨
    (∃ pool : Pool, pool.held = m.pool.held ∧
      (m.meet (acquireCall p wanted) fate).2 = { m with pool := pool } ∧
      ∃ e, readAcquire p wanted (m.meet (acquireCall p wanted) fate).1 = .error e) := by
  cases ht : fate.takesEffect with
  | true =>
    obtain ⟨pick, hm, hout⟩ := meet_of_takesEffect (m := m) ht (acquireCall p wanted)
    rcases Pool.acquire_eq m.pool pick p wanted with ⟨a, he, hc, hn, hw⟩ | ⟨e, he⟩
    · refine .inl ⟨a, hn, rfl, ?_, hout.imp_left fun h => ?_⟩
      · rw [hm]
        simp only [acquireCall, perform, he]
      · rw [h]
        simp only [acquireCall, perform, he]
        exact readAcquire_ok hc hw
    · refine .inr ⟨m.pool.learn p, rfl, ?_, ?_⟩
      · rw [hm]
        simp only [acquireCall, perform, he]
      · rcases hout with h | ⟨cause, h⟩
        · rw [h]
          simp only [acquireCall, perform, he]
          exact readAcquire_error p wanted e
        · exact ⟨_, by rw [h]; rfl⟩
  | false =>
    obtain ⟨hm, hout⟩ := meet_of_not_takesEffect (m := m) ht (acquireCall p wanted)
    refine .inr ⟨m.pool, rfl, hm, ?_⟩
    rcases hout with ⟨fault, -, h⟩ | ⟨cause, h⟩
    · rw [h]
      exact readAcquire_error p wanted fault.allocator
    · exact ⟨_, by rw [h]; rfl⟩

/-- A call that gives back a pair takes no effect, or it removes the pair, or it finds that the pair
is not held. -/
theorem meet_release (a : Addr) (p : Prefix) :
    (fate.takesEffect = false ∧ (m.meet (releaseCall a p) fate).2 = m ∧
      ((∃ fault, fate = .failed fault ∧
        (m.meet (releaseCall a p) fate).1 = .ok (.error fault.allocator)) ∨
        ∃ cause, (m.meet (releaseCall a p) fate).1 = .error cause)) ∨
    (fate.takesEffect = true ∧ (p, a) ∈ m.pool.held ∧
      (m.meet (releaseCall a p) fate).2 = { m with pool := m.pool.drop p a } ∧
      ((m.meet (releaseCall a p) fate).1 = .ok (.ok ()) ∨
        ∃ cause, (m.meet (releaseCall a p) fate).1 = .error cause)) ∨
    (fate.takesEffect = true ∧ (p, a) ∉ m.pool.held ∧ (m.meet (releaseCall a p) fate).2 = m ∧
      ((∃ detail, (m.meet (releaseCall a p) fate).1 = .ok (.error ⟨.notFound, detail⟩)) ∨
        ∃ cause, (m.meet (releaseCall a p) fate).1 = .error cause)) := by
  cases ht : fate.takesEffect with
  | true =>
    obtain ⟨pick, hm, hout⟩ := meet_of_takesEffect (m := m) ht (releaseCall a p)
    rcases Pool.release_eq m.pool a p with ⟨hh, he⟩ | ⟨hh, detail, he⟩
    · refine .inr (.inl ⟨rfl, hh, ?_, hout.imp_left fun h => ?_⟩)
      · rw [hm]
        simp only [releaseCall, perform, he]
      · rw [h]
        simp only [releaseCall, perform, he]
    · refine .inr (.inr ⟨rfl, hh, ?_, hout.imp_left fun h => ⟨detail, ?_⟩⟩)
      · rw [hm]
        simp only [releaseCall, perform, he]
      · rw [h]
        simp only [releaseCall, perform, he]
  | false =>
    obtain ⟨hm, hout⟩ := meet_of_not_takesEffect (m := m) ht (releaseCall a p)
    exact .inl ⟨rfl, hm, hout⟩

/-- A call that adds a record puts it at the end under a pair of its own, or it leaves the store
alone and does not succeed. -/
theorem meet_storeCreate (r : Record) :
    (fate.takesEffect = true ∧ (∀ o ∈ m.store.records, o.slot ≠ r.slot) ∧
      (m.meet (.storeCreate r) fate).2 = { m with store :=
        ⟨m.store.nextId + 1, m.store.records ++ [m.store.numberedNext r]⟩ } ∧
      ((m.meet (.storeCreate r) fate).1 = .ok (.ok (m.store.numberedNext r)) ∨
        ∃ cause, (m.meet (.storeCreate r) fate).1 = .error cause)) ∨
    ((fate.takesEffect = true → ∃ o ∈ m.store.records, o.slot = r.slot) ∧
      (m.meet (.storeCreate r) fate).2 = m ∧
      ((∃ e, (m.meet (.storeCreate r) fate).1 = .ok (.error e)) ∨
        ∃ cause, (m.meet (.storeCreate r) fate).1 = .error cause)) := by
  cases ht : fate.takesEffect with
  | true =>
    obtain ⟨pick, hm, hout⟩ := meet_of_takesEffect (m := m) ht (.storeCreate r)
    rcases m.store.create_eq r with ⟨hs, he⟩ | ⟨hs, he⟩
    · refine .inr ⟨fun _ => hs, ?_, hout.imp_left fun h => ⟨.alreadyExists (Store.newSubject r), ?_⟩⟩
      · rw [hm]
        simp only [perform, he]
      · rw [h]
        simp only [perform, he]
    · refine .inl ⟨rfl, hs, ?_, hout.imp_left fun h => ?_⟩
      · rw [hm]
        simp only [perform, he]
      · rw [h]
        simp only [perform, he]
  | false =>
    obtain ⟨hm, hout⟩ := meet_of_not_takesEffect (m := m) ht (.storeCreate r)
    refine .inr ⟨fun h => absurd h Bool.false_ne_true, hm, hout.imp_left ?_⟩
    rintro ⟨fault, -, h⟩
    exact ⟨fault.store, h⟩

/-- A call that changes a record puts the new one in the place of the old one, or it leaves the
store alone and does not succeed. -/
theorem meet_storeUpdate (new old : Record) :
    (fate.takesEffect = true ∧ ∃ l₁ l₂, m.store.records = l₁ ++ old :: l₂ ∧
      (∀ o ∈ l₁, o.id ≠ old.id) ∧
      (m.meet (.storeUpdate new old) fate).2 = { m with store := ⟨m.store.nextId, l₁ ++ new :: l₂⟩ } ∧
      ((m.meet (.storeUpdate new old) fate).1 = .ok (.ok ()) ∨
        ∃ cause, (m.meet (.storeUpdate new old) fate).1 = .error cause)) ∨
    ((m.meet (.storeUpdate new old) fate).2 = m ∧
      ((∃ e, (m.meet (.storeUpdate new old) fate).1 = .ok (.error e)) ∨
        ∃ cause, (m.meet (.storeUpdate new old) fate).1 = .error cause)) := by
  cases ht : fate.takesEffect with
  | true =>
    obtain ⟨pick, hm, hout⟩ := meet_of_takesEffect (m := m) ht (.storeUpdate new old)
    cases hu : (m.store.update new old).1 with
    | ok u =>
      obtain ⟨l₁, l₂, hl, hne, he⟩ := Store.update_eq_ok hu
      refine .inl ⟨rfl, l₁, l₂, hl, hne, ?_, hout.imp_left fun h => ?_⟩
      · rw [hm]
        simp only [perform, he]
      · rw [h]
        simp only [perform, hu]
    | error e =>
      have he := Store.update_snd_of_error hu
      refine .inr ⟨?_, hout.imp_left fun h => ⟨e, ?_⟩⟩
      · rw [hm]
        simp only [perform, he]
      · rw [h]
        simp only [perform, hu]
  | false =>
    obtain ⟨hm, hout⟩ := meet_of_not_takesEffect (m := m) ht (.storeUpdate new old)
    refine .inr ⟨hm, hout.imp_left ?_⟩
    rintro ⟨fault, -, h⟩
    exact ⟨fault.store, h⟩

/-- A call that removes a record takes it out, or it leaves the store alone and does not succeed. -/
theorem meet_storeDelete (r : Record) :
    (fate.takesEffect = true ∧ ∃ l₁ o l₂, m.store.records = l₁ ++ o :: l₂ ∧ o.id = r.id ∧
      (∀ o ∈ l₁, o.id ≠ r.id) ∧
      (m.meet (.storeDelete r) fate).2 = { m with store := ⟨m.store.nextId, l₁ ++ l₂⟩ } ∧
      ((m.meet (.storeDelete r) fate).1 = .ok (.ok ()) ∨
        ∃ cause, (m.meet (.storeDelete r) fate).1 = .error cause)) ∨
    ((fate.takesEffect = true → ∀ o ∈ m.store.records, o.id ≠ r.id) ∧
      (m.meet (.storeDelete r) fate).2 = m ∧
      ((∃ e, (m.meet (.storeDelete r) fate).1 = .ok (.error e)) ∨
        ∃ cause, (m.meet (.storeDelete r) fate).1 = .error cause)) := by
  cases ht : fate.takesEffect with
  | true =>
    obtain ⟨pick, hm, hout⟩ := meet_of_takesEffect (m := m) ht (.storeDelete r)
    cases hd : (m.store.delete r).1 with
    | ok u =>
      obtain ⟨l₁, o, l₂, hl, hid, hne, he⟩ := Store.delete_eq_ok hd
      refine .inl ⟨rfl, l₁, o, l₂, hl, hid, hne, ?_, hout.imp_left fun h => ?_⟩
      · rw [hm]
        simp only [perform, he]
      · rw [h]
        simp only [perform, hd]
    | error e =>
      obtain ⟨he, hne⟩ := Store.delete_snd_of_error hd
      refine .inr ⟨fun _ => hne, ?_, hout.imp_left fun h => ⟨e, ?_⟩⟩
      · rw [hm]
        simp only [perform, he]
      · rw [h]
        simp only [perform, hd]
  | false =>
    obtain ⟨hm, hout⟩ := meet_of_not_takesEffect (m := m) ht (.storeDelete r)
    refine .inr ⟨fun h => absurd h Bool.false_ne_true, hm, hout.imp_left ?_⟩
    rintro ⟨fault, -, h⟩
    exact ⟨fault.store, h⟩

end Memory

/-! ## A small memory -/

namespace Small

/-- An address with its prefix. -/
def slot : Slot := (⟨⟨.v4, 0x0a000000, by decide⟩, 24, by decide⟩, ⟨.v4, 0x0a000001, by decide⟩)

/-- A stamp. -/
def stamp : Stamp :=
  ⟨⟨⟨2024, 1, 1, by decide⟩, 0, 0, 0, 0, by decide⟩, ⟨1, by decide⟩⟩

/-- A record of the address. -/
def record : Record where
  id := "1"
  allocationId := stamp.allocationId
  address := slot.2
  parentPrefix := slot.1
  networkId := "net"
  projectId := "prj"
  name := ""
  description := ""
  retention := .ephemeral
  tags := ∅
  createdAt := stamp.now
  updatedAt := stamp.now

/-- A record of another address. -/
def otherRecord : Record := { record with id := "2", address := ⟨.v4, 0x0a000009, by decide⟩ }

/-- A memory with one network, one project and one record, the pair of which is held. -/
def memory : Memory where
  catalog := ⟨[.ofPrefixes "net" "prj" [slot.1]], [⟨"prj"⟩]⟩
  pool := (∅ : Pool).hold slot.1 slot.2
  store := ⟨1, [record]⟩

/-- A request for the address of the record. -/
def createRequest : Wire.CreateRequest :=
  ⟨"prj", "net", none, none, some "10.0.0.1", none, none, none, []⟩

/-- A request for the address of the other record. -/
def otherRequest : Wire.CreateRequest := { createRequest with ip := some "10.0.0.9" }

theorem wellFormed_memory : memory.store.WellFormed where
  numbered := by
    intro r hr
    cases List.mem_singleton.1 hr
    exact ⟨1, by decide, rfl⟩
  ids_nodup := by decide
  slots_nodup := List.nodup_singleton _

theorem held_memory : ∀ r ∈ memory.store.records, r.slot ∈ memory.pool.held := by decide

end Small

end Ipam
