import Ipam.Proofs.Course.Counting
import Ipam.Proofs.Service.Ledger
import Ipam.Proofs.Service.Outcome
import Ipam.Proofs.Service.Tenant
import Ipam.Proofs.Store.Request

/-!
# Requests of the services as operations

A request of a service fails at once, or it is an operation of a repository with its response in
another form (`Request.Performs`). What is known of operations is known of requests then: they fail
as soon as a call of theirs is given up (`Request.Performs.givesUp`), and what becomes of the store
is what may become of it in an operation (`Request.Performs.ensures`).
-/

namespace Ipam

open Program

/-! ## Requests that come down to an operation -/

namespace Request

variable {α β : Type}

/-- Whether a request fails at once or performs an operation, which is a create just if `creates`
says so. -/
def Performs (x : Request α) (creates : Bool) : Prop :=
  (∃ e, x = throw e) ∨
    ∃ (repo : Repository) (op : Operation) (f : Response → α),
      op.isCreate = creates ∧ x = f <$> op.request repo

theorem Performs.map {x : Request α} {creates : Bool} (h : x.Performs creates) (g : α → β) :
    Performs (g <$> x) creates := by
  rcases h with ⟨e, rfl⟩ | ⟨repo, op, f, hop, rfl⟩
  · exact .inl ⟨e, rfl⟩
  · exact .inr ⟨repo, op, g ∘ f, hop, (comp_map f g _).symm⟩

end Request

namespace Service

/-- A response of a repository in wire form. -/
def Answer.ofResponse : Response → Answer
  | .record r => .record r.toWire
  | .records rs => .records (rs.map Record.toWire)

/-- A request fails at once if it does not name its project, or it goes on in the repository of the
project. -/
theorem scoped_cases {α : Type} (svc : Service) (project : String) (body : Repository → Request α) :
    (svc.repository project >>= body) = throw (.invalid .projectMissing) ∨
    (svc.repository project >>= body) = body ⟨.project project, svc.releaseOnRefusal⟩ := by
  by_cases hp : project = ""
  · rw [hp]
    exact .inl rfl
  · rw [svc.repository_eq hp]
    exact .inr rfl

open Request

theorem performs_scoped {α : Type} (svc : Service) (project : String) {body : Repository → Request α}
    {creates : Bool} (h : ∀ repo, (body repo).Performs creates) :
    Performs (svc.repository project >>= body) creates := by
  rcases svc.scoped_cases project body with hbody | hbody
  · exact .inl ⟨_, hbody⟩
  · rw [hbody]
    exact h _

theorem performs_operation {repo : Repository} (op : Operation) :
    Performs (Answer.ofResponse <$> op.request repo) op.isCreate :=
  .inr ⟨repo, op, Answer.ofResponse, rfl, rfl⟩

theorem performs_listed {repo : Repository} (req : Wire.ListRequest) :
    Performs (Request.ofExcept (Query.ofRequest req) >>= fun q =>
      Answer.ofResponse <$> (Operation.list q).request repo) false := by
  cases Query.ofRequest req with
  | error e => exact .inl ⟨e, rfl⟩
  | ok q => exact performs_operation (.list q)

theorem request_performs (svc : Service) (ask : Ask) :
    (svc.request ask).Performs ask.isCreate := by
  cases ask with
  | get req =>
    have hbody : svc.request (.get req) = svc.repository req.project >>= fun repo =>
        Answer.ofResponse <$> (Operation.get req.ip).request repo := by
      simp [request, Service.get, Operation.request, Answer.ofResponse]
    exact hbody ▸ svc.performs_scoped _ fun _ => performs_operation (.get req.ip)
  | list req =>
    have hbody : svc.request (.list req) = svc.repository (req.project.getD "") >>= fun repo =>
        Request.ofExcept (Query.ofRequest req) >>= fun q =>
          Answer.ofResponse <$> (Operation.list q).request repo := by
      simp [request, Service.list, Operation.request, Answer.ofResponse]
    exact hbody ▸ svc.performs_scoped _ fun _ => performs_listed req
  | create stamp req =>
    have hbody : svc.request (.create stamp req) = svc.repository req.project >>= fun repo =>
        Answer.ofResponse <$> (Operation.create stamp req).request repo := by
      simp [request, Service.create, Operation.request, Answer.ofResponse]
    exact hbody ▸ svc.performs_scoped _ fun _ => performs_operation (.create stamp req)
  | update now req =>
    have hbody : svc.request (.update now req) = svc.repository req.project >>= fun repo =>
        Answer.ofResponse <$> (Operation.update now req).request repo := by
      simp [request, Service.update, Operation.request, Answer.ofResponse]
    exact hbody ▸ svc.performs_scoped _ fun _ => performs_operation (.update now req)
  | delete req =>
    have hbody : svc.request (.delete req) = svc.repository req.project >>= fun repo =>
        Answer.ofResponse <$> (Operation.delete req.ip).request repo := by
      simp [request, Service.delete, Operation.request, Answer.ofResponse]
    exact hbody ▸ svc.performs_scoped _ fun _ => performs_operation (.delete req.ip)

end Service

theorem AdminService.list_performs (req : Wire.ListRequest) :
    Request.Performs (Service.Answer.records <$> AdminService.list req) false := by
  have hbody : Service.Answer.records <$> AdminService.list req =
      Request.ofExcept (Query.ofRequest req) >>= fun q =>
        Service.Answer.ofResponse <$> (Operation.list q).request ⟨.unscoped, false⟩ := by
    simp [AdminService.list, Operation.request, Service.Answer.ofResponse]
  exact hbody ▸ Service.performs_listed req

/-! ## Calls that are given up -/

/-- Whether a request fails as soon as a call of it is given up. -/
def Program.GivesUp {α : Type} : Program (Except RequestError α) → Prop
  | .done _ => True
  | .guarded _ next =>
    (∀ i, ∃ e, next (.error i) = .done (.error e)) ∧ ∀ a, (next (.ok a)).GivesUp
  | .detached _ next => ∀ a, (next a).GivesUp

/-- A call that is given up ends the work of an operation. -/
theorem Stage.Goes.eq_ended {repo : Repository} {op : Operation} {st st' : Stage} {c : Call}
    {i : Interruption} (h : Goes repo op st c (.error i) st') : st' = .ended := by
  cases h <;> rfl

namespace Leads

variable {α : Type} {repo : Repository} {op : Operation} {p : Program (Except RequestError α)}
  {st : Stage} {Q : α → Stage → Prop}

/-- All that is left to do when the work has ended is to fail. -/
theorem eq_error (h : Leads repo op p .ended Q) (hQ : ∀ a, ¬ Q a .ended) :
    ∃ e, p = .done (.error e) := by
  cases p with
  | done r =>
    cases r with
    | ok a => exact absurd h (hQ a)
    | error e => exact ⟨e, rfl⟩
  | guarded c next =>
    obtain ⟨st', hg, -⟩ := h (.error .canceled)
    cases hg
  | detached c next =>
    obtain ⟨⟨x, hx⟩, -⟩ := h
    cases hx

theorem givesUp (h : Leads repo op p st Q) (hQ : ∀ a, ¬ Q a .ended) : p.GivesUp := by
  induction p generalizing st with
  | done r => trivial
  | guarded c next ih =>
    refine ⟨fun i => ?_, fun a => ?_⟩
    · obtain ⟨st', hg, hl⟩ := h (.error i)
      rw [hg.eq_ended] at hl
      exact hl.eq_error hQ
    · obtain ⟨st', -, hl⟩ := h (.ok a)
      exact ih (.ok a) hl
  | detached c next ih =>
    intro a
    obtain ⟨st', -, hl⟩ := h.2 a
    exact ih a hl

end Leads

namespace Request.Performs

variable {α : Type} {x : Request α} {creates : Bool}

theorem givesUp (h : x.Performs creates) : GivesUp x := by
  rcases h with ⟨e, rfl⟩ | ⟨repo, op, f, -, rfl⟩
  · trivial
  · have hleads : Leads repo op (f <$> op.request repo : Request α) (Stage.first op)
        fun _ st => st ≠ .ended := by
      rw [← bind_pure_comp]
      refine Leads.bind ((op.leads repo).mono ?_)
      rintro response st rfl
      exact Leads.pure fun he => nomatch he
    exact hleads.givesUp fun _ h => h rfl

/-- Wherever a request comes to, the store is as it was or what may become of it in the operation. -/
theorem ensures (h : x.Performs creates) (s : Store) :
    Ensures (fun t => t = s ∨ ∃ repo op, op.isCreate = creates ∧ s.Becomes repo op t) x s
      fun _ _ => True := by
  rcases h with ⟨e, rfl⟩ | ⟨repo, op, f, hop, rfl⟩
  · exact .throw (.inl rfl)
  · rw [← bind_pure_comp]
    refine .map ((op.ensures repo s).mono (fun t ht => ?_) fun _ _ _ _ => trivial)
    exact .inr ⟨repo, op, hop, ht⟩

end Request.Performs

/-! ## Requests whose calls are served -/

/-- A program whose calls are served runs over the store. -/
theorem Program.runs_serve {α : Type} (p : Program α) (m : Memory) (picks : Picks) :
    Runs m.store p ((p.run Memory.server).run (m, picks)).2.1.store
      (.done ((p.run Memory.server).run (m, picks)).1) := by
  induction p generalizing m picks with
  | done a => exact .here _ _
  | guarded c next ih =>
    exact .guarded (m.meets c (.served (picks 0))) (ih _ _ picks.tail)
  | detached c next ih =>
    exact .detached (m.meets c (.served (picks 0))) (ih _ _ picks.tail)

namespace Request

variable {α β : Type}

theorem Performs.serve {x : Request α} {creates : Bool} (h : x.Performs creates) (m : Memory)
    (picks : Picks) :
    (x.serve (m, picks)).2.1.store = m.store ∨ ∃ repo op, op.isCreate = creates ∧
      m.store.Becomes repo op (x.serve (m, picks)).2.1.store :=
  ((h.ensures m.store).runs (Program.runs_serve _ m picks)).inv

theorem serve_functor_map (f : α → β) (x : Request α) (t : Memory × Picks) :
    (f <$> x : Request β).serve t = ((x.serve t).1.map f, (x.serve t).2) := by
  rw [← bind_pure_comp]
  exact serve_map x f t

end Request

/-- A list across all projects leaves everything as it is. -/
theorem AdminService.serve_list (req : Wire.ListRequest) (m : Memory) (picks : Picks) :
    ((AdminService.list req).serve (m, picks)).2.1 = m := by
  unfold AdminService.list
  cases Query.ofRequest req with
  | error e => rfl
  | ok q => rfl

end Ipam
