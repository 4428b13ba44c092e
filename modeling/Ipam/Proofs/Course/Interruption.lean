import Ipam.Proofs.Course.Creation
import Ipam.Proofs.Course.Host

/-!
# Requests that are given up

A request whose call is refused or abandoned ends at once, and its error is the reason
(`Program.Passes`): no part of an operation takes an interruption for something else, or goes on after
it. So at any host an interrupted call is the last one, and a request none of whose calls is
interrupted does not notice its context (`Operation.interruption_final`). A detached call is the last
one too (`Program.Concedes`).
-/

namespace Ipam

namespace Program

/-- If its next call is interrupted, a request ends with the reason. -/
def Passes {α : Type} : Program (Except RequestError α) → Prop
  | .guarded _ next => ∀ i, next (.error i) = .done (.error (.interrupted i))
  | _ => True

/-- If its next call is interrupted, a request ends with the reason, and if its next call is detached,
it fails once that is answered. -/
def Concedes {α : Type} : Program (Except RequestError α) → Prop
  | .guarded _ next => ∀ i, next (.error i) = .done (.error (.interrupted i))
  | .detached _ next => ∀ answer, ∃ e, next answer = .done (.error e)
  | .done _ => True

theorem Concedes.passes {α : Type} {p : Program (Except RequestError α)} (h : p.Concedes) :
    p.Passes := by
  cases p with
  | done r => trivial
  | guarded c next => exact h
  | detached c next => trivial

end Program

/-! ## The operations -/

section

open Program

variable {α β : Type}

theorem Request.concedes_bind {x : Request α} {f : α → Request β} (hx : Throughout Concedes x)
    (hf : ∀ a, Throughout Concedes (f a)) : Throughout Concedes (x >>= f : Request β) := by
  refine throughout_bind (fun _ => trivial) ?_ ?_ hx hf
  · intro _ _ c next f hp i
    show (next (.error i)).bind (ExceptT.bindCont f) = _
    rw [hp i]
    rfl
  · intro _ _ c next f hp answer
    obtain ⟨e, he⟩ := hp answer
    refine ⟨e, ?_⟩
    show (next answer).bind (ExceptT.bindCont f) = _
    rw [he]
    rfl

theorem Request.concedes_ask (c : Call) : Throughout Concedes (Request.ask c) :=
  ⟨fun _ => rfl, fun _ => trivial⟩

theorem Request.concedes_acquire {p : Prefix} {wanted : Option Addr}
    {next : Except AcquireError Addr → Request Lease} (hsettles : Settles p next)
    (hnext : ∀ e, Throughout Concedes (next (.error e))) :
    Throughout Concedes (liftM (acquire p wanted) >>= next : Request Lease) := by
  refine ⟨fun i => hsettles.fails _, fun out => ?_⟩
  show Throughout Concedes (next (readAcquire p wanted out))
  cases readAcquire p wanted out with
  | error e => exact hnext e
  | ok a =>
    rw [hsettles.takes]
    trivial

theorem anyAddressOf_concedes (network : String) (f : Family) (ps : List Prefix) :
    Throughout Concedes (anyAddressOf network f ps) := by
  induction ps with
  | nil => trivial
  | cons p ps ih =>
    refine Request.concedes_acquire ⟨fun _ => rfl, fun _ => rfl⟩ fun e => ?_
    cases e with
    | exhausted => exact ih
    | taken => trivial
    | failed e => trivial

theorem specificAddress_concedes (n : Network) (literal : String) :
    Throughout Concedes (specificAddress n literal) := by
  refine Request.concedes_bind trivial fun a => ?_
  cases prefixFor? n a with
  | none => trivial
  | some p =>
    refine Request.concedes_acquire ⟨fun _ => rfl, fun _ => rfl⟩ fun e => ?_
    cases e <;> trivial

namespace Repository

variable (repo : Repository)

theorem get_concedes (id : String) : Throughout Concedes (repo.get id) := by
  refine Request.concedes_bind (Request.concedes_ask _) fun answer => ?_
  refine Request.concedes_bind trivial fun r => ?_
  split <;> trivial

theorem list_concedes (q : Query) : Throughout Concedes (repo.list q) :=
  Request.concedes_bind (Request.concedes_ask _) fun _ =>
    Request.concedes_bind trivial fun _ => trivial

theorem persist_concedes (r : Record) : Throughout Concedes (repo.persist r) := by
  refine ⟨fun i => rfl, fun out => ?_⟩
  rcases out with i | e | made
  · trivial
  · show Throughout Concedes (repo.compensate r >>= fun _ => done (.error (.ofStore e)))
    unfold compensate
    by_cases ho : repo.releaseOnRefusal = true
    · rw [if_pos ho]
      exact ⟨fun _ => ⟨_, rfl⟩, fun _ => trivial⟩
    · rw [if_neg ho]
      trivial
  · trivial

theorem create_concedes (stamp : Stamp) (req : Wire.CreateRequest) :
    Throughout Concedes (repo.create stamp req) := by
  refine Request.concedes_bind (Request.concedes_ask _) fun answer => ?_
  refine Request.concedes_bind trivial fun p => ?_
  refine Request.concedes_bind (Request.concedes_ask _) fun answer => ?_
  refine Request.concedes_bind trivial fun n => ?_
  refine Request.concedes_bind trivial fun family => ?_
  refine Request.concedes_bind trivial fun _ => ?_
  refine Request.concedes_bind trivial fun retention => ?_
  cases req.ip with
  | none => exact Request.concedes_bind (anyAddressOf_concedes _ _ _) fun _ => repo.persist_concedes _
  | some literal =>
    exact Request.concedes_bind (specificAddress_concedes n literal) fun _ => repo.persist_concedes _

theorem update_concedes (now : Instant) (req : Wire.UpdateRequest) :
    Throughout Concedes (repo.update now req) := by
  refine Request.concedes_bind (repo.get_concedes req.ip) fun old => ?_
  refine Request.concedes_bind trivial fun new => ?_
  refine Request.concedes_bind (Request.concedes_ask _) fun answer => ?_
  exact Request.concedes_bind trivial fun _ => trivial

theorem delete_concedes (id : String) : Throughout Concedes (repo.delete id) := by
  refine Request.concedes_bind (repo.get_concedes id) fun r => ?_
  refine Request.concedes_bind ?_ fun _ => ?_
  · exact Request.concedes_bind (Request.concedes_ask _) fun _ => trivial
  refine Request.concedes_bind (Request.concedes_ask _) fun answer => ?_
  exact Request.concedes_bind trivial fun _ => trivial

end Repository

/-- Every operation gives up at once when a call of it is interrupted, and after a detached call. -/
theorem Operation.concedes (repo : Repository) (op : Operation) :
    Throughout Concedes (op.request repo) := by
  cases op with
  | get id => exact Request.concedes_bind (repo.get_concedes id) fun _ => trivial
  | list q => exact Request.concedes_bind (repo.list_concedes q) fun _ => trivial
  | create stamp req => exact Request.concedes_bind (repo.create_concedes stamp req) fun _ => trivial
  | update now req => exact Request.concedes_bind (repo.update_concedes now req) fun _ => trivial
  | delete id => exact Request.concedes_bind (repo.delete_concedes id) fun _ => trivial

/-- Every operation ends at once with the reason for which a call of it is interrupted. -/
theorem Operation.passes (repo : Repository) (op : Operation) :
    Throughout Passes (op.request repo) :=
  (Operation.concedes repo op).mono fun _ => Concedes.passes

end

/-! ## At a host -/

namespace Host

variable {S α : Type} {h : Host S} {s : S}

theorem interruption?_eq_some_iff {a : Attempt S} {i : Interruption} :
    a.interruption? = some i ↔ a.meeting.outcome = some (.error i) := by
  unfold Attempt.interruption?
  split
  · next j hj => simp [hj]
  · next hno =>
    constructor
    · nofun
    · exact fun hi => absurd hi (hno i)

/-- A call of a request that passes interruptions on is the last one if it is interrupted. -/
theorem last_of_interrupted {p : Program (Except RequestError α)} (hp : p.Throughout Program.Passes)
    {before after : List (Attempt S)} {a : Attempt S} {i : Interruption}
    (hlog : (h.attend p s).log = before ++ a :: after) (hi : a.interruption? = some i) :
    after = [] ∧ (h.attend p s).result = some (.error (.interrupted i)) ∧
      (h.context (h.attend p s).final).refusal? = some i := by
  induction p generalizing s before with
  | done r =>
    have hnil : [] = before ++ a :: after := hlog
    simp at hnil
  | guarded c next ih =>
    rcases h.attend_guarded_cases c next s with ⟨out, hout, he⟩ | ⟨hout, he⟩
    · rw [he] at hlog ⊢
      rcases List.cons_eq_append_iff.1 hlog with ⟨rfl, hcons⟩ | ⟨before', rfl, hrest⟩
      · -- the interrupted call is this one, and what follows is the end
        cases hcons
        have herror : (h.meet s c).outcome = some (.error i) := interruption?_eq_some_iff.1 hi
        rw [herror] at hout
        cases hout
        rw [hp.1 i]
        exact ⟨rfl, rfl, refusal?_of_meet herror⟩
      · exact ih out (hp.2 out) hrest
    · rw [he] at hlog
      rcases List.cons_eq_append_iff.1 hlog with ⟨rfl, hcons⟩ | ⟨before', rfl, hrest⟩
      · cases hcons
        simp [Attempt.interruption?, hout] at hi
      · simp at hrest
  | detached c next ih =>
    rcases h.attend_detached_cases c next s with ⟨answer, hout, he⟩ | ⟨hout, he⟩
    · rw [he] at hlog ⊢
      rcases List.cons_eq_append_iff.1 hlog with ⟨rfl, hcons⟩ | ⟨before', rfl, hrest⟩
      · cases hcons
        simp [Attempt.interruption?, hout] at hi
      · exact ih answer (hp.2 answer) hrest
    · rw [he] at hlog
      rcases List.cons_eq_append_iff.1 hlog with ⟨rfl, hcons⟩ | ⟨before', rfl, hrest⟩
      · cases hcons
        simp [Attempt.interruption?, hout] at hi
      · simp at hrest

/-- The first call is logged. -/
theorem mem_log_guarded {c : Call} {next : Except Interruption c.Answer → Program α} :
    ⟨s, true, c, h.meet s c⟩ ∈ (h.attend (.guarded c next) s).log := by
  rcases h.attend_guarded_cases c next s with ⟨out, -, he⟩ | ⟨-, he⟩
  · rw [he]
    exact List.mem_cons_self
  · rw [he]
    exact List.mem_singleton_self _

/-- A program none of whose calls is interrupted has the passage that it has under a context that
never ends. -/
theorem attend_free {p : Program α} (hi : ∀ a ∈ (h.attend p s).log, a.interruption? = none) :
    h.free.attend p s = h.attend p s := by
  induction p generalizing s with
  | done r => rfl
  | guarded c next ih =>
    have hmeet : h.free.meet s c = h.meet s c := by
      refine meet_eq_free fun i herror => ?_
      have hnone := hi _ mem_log_guarded
      simp [Attempt.interruption?, herror] at hnone
    rcases h.attend_guarded_cases c next s with ⟨out, hout, he⟩ | ⟨hout, he⟩
    · rw [he] at hi
      have hrest := ih out fun a ha => hi a (List.mem_cons_of_mem _ ha)
      rw [he, ← hrest]
      simp only [attend, hmeet, hout]
    · rw [he]
      simp only [attend, hmeet, hout]
  | detached c next ih =>
    have hdetached : h.free.detached s c = h.detached s c := rfl
    have hserve : h.free.serve s c = h.serve s c := rfl
    cases hout : (h.detached s c).1 with
    | some answer =>
      simp only [attend, hout] at hi
      have hrest := ih answer fun a ha => hi a (List.mem_cons_of_mem _ ha)
      simp only [attend, hdetached, hserve, hout, hrest]
    | none => simp only [attend, hdetached, hserve, hout]

end Host

/-! ## Interruptions are final -/

/-- At any host, once a call of a request is refused or abandoned it is the last one, and the request
ends with the reason: that it is canceled, or else that its deadline has passed. A guarded call is
started just when the context has not ended, and it is refused otherwise. A request none of whose
calls is refused or abandoned has the passage, with the same calls and the same result, that it has
under a context that never ends. -/
theorem Operation.interruption_final {S : Type} (repo : Repository) (op : Operation) (h : Host S)
    (s : S) :
    let x := h.attend (op.request repo) s
    (∀ before a after i, x.log = before ++ a :: after → a.interruption? = some i →
      after = [] ∧ x.result = some (.error (.interrupted i)) ∧
        (((h.context x.final).canceled = true ∧ i = .canceled) ∨
          (h.context x.final).canceled = false ∧ (h.context x.final).remaining = some 0 ∧
            i = .deadlineExceeded)) ∧
    (∀ a ∈ x.log, a.guarded = true →
      (a.meeting.started = true ↔
        (h.context a.state).canceled = false ∧ (h.context a.state).remaining ≠ some 0) ∧
      (a.meeting.started = false → ∃ i, a.interruption? = some i)) ∧
    ((∀ a ∈ x.log, a.interruption? = none) → h.free.attend (op.request repo) s = x) := by
  intro x
  refine ⟨?_, ?_, Host.attend_free⟩
  · intro before a after i hlog hi
    obtain ⟨hlast, hresult, hended⟩ := Host.last_of_interrupted (op.passes repo) hlog hi
    exact ⟨hlast, hresult, Context.refusal?_eq_some_iff.1 hended⟩
  · intro a ha hguarded
    obtain ⟨state, guarded, call, meeting⟩ := a
    have hmeeting : meeting = if guarded then h.meet state call else h.serve state call :=
      Host.mem_log ha
    replace hguarded : guarded = true := hguarded
    rw [hguarded, if_pos rfl] at hmeeting
    subst hmeeting
    refine ⟨Host.meet_started_iff.trans Context.refusal?_eq_none_iff, fun hstarted => ?_⟩
    obtain ⟨i, hi⟩ := Host.exists_interruption_of_not_started hstarted
    exact ⟨i, Host.interruption?_eq_some_iff.2 hi⟩

namespace Small

/-- A store that records an address, while the request is canceled, and never answers. -/
def hanging : World where
  memory := memory
  queue := [(.storeCreate, ⟨true, 0, true, true, .truthful⟩)]
  context := ⟨false, some 100⟩
  calls := []
  acquireCalls := 0
  releaseCalls := 0

end Small

/-- The record is there, and its address is not given back. -/
theorem Operation.interruption_final_hanging :
    let x := World.host.attend
      ((Operation.create Small.stamp Small.otherRequest).request ⟨.unscoped, true⟩) Small.hanging
    x.final.memory.store.records = [Small.record, Small.otherRecord] ∧
      x.result = some (.error (.interrupted .canceled)) := by
  obtain ⟨hlast, -, -⟩ := interruption_final ⟨.unscoped, true⟩
    (.create Small.stamp Small.otherRequest) World.host Small.hanging
  have hinterrupted : (World.host.attend ((Operation.create Small.stamp Small.otherRequest).request
      ⟨.unscoped, true⟩) Small.hanging).log.getLast?.bind Attempt.interruption? = some .canceled := by
    decide +kernel
  obtain ⟨a, ha, hi⟩ := Option.bind_eq_some_iff.1 hinterrupted
  obtain ⟨before, hlog⟩ := List.getLast?_eq_some_iff.1 ha
  exact ⟨by decide +kernel, (hlast before a [] .canceled hlog hi).2.1⟩

end Ipam
