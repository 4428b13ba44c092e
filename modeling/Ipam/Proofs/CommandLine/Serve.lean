import Ipam.CommandLine.Run
import Ipam.Proofs.CommandLine.State
import Ipam.Proofs.Service.Operation

/-!
# What a command makes of a state

A command that succeeds has had all its calls answered in time, as a request fails when a call of it
is given up (`Command.serve_eq_ok`). So it is a request that was served from a memory that held the
state before, and if that state was exact, so is the one after it (`Command.continues`).
-/

namespace Ipam

/-! ## Tags -/

namespace Repository

theorem legible_requestedTags (req : Wire.CreateRequest) : (requestedTags req).Legible := by
  have htags := TagSet.legible_ofStrings req.tags
  unfold requestedTags
  cases req.machineId with
  | none => exact htags
  | some machine => exact htags.bindMachine machine

end Repository

/-- The tags of the records that are live stay such that they are told by their texts. -/
theorem Ledger.Step.legible {c : Catalog} {L L' : Ledger} {ask : Service.Ask}
    {out : Except RequestError Service.Answer} (h : Step c L ask out L')
    (hL : ∀ r ∈ L, r.tags.Legible) : ∀ r ∈ L', r.tags.Legible := by
  cases h with
  | @created stamp req g lease r hp hg hallot hnew hr =>
    refine List.forall_mem_append.2 ⟨hL, ?_⟩
    rintro o ho
    rw [List.mem_singleton.1 ho, hr]
    exact Repository.legible_requestedTags req
  | updated hp hl hid hproject hrev =>
    rw [hl] at hL
    obtain ⟨hL₁, hL₂⟩ := List.forall_mem_append.1 hL
    obtain ⟨hold, hL₂⟩ := List.forall_mem_cons.1 hL₂
    have hnew := (Repository.revise_eq_ok hrev).legible hold
    exact List.forall_mem_append.2 ⟨hL₁, List.forall_mem_cons.2 ⟨hnew, hL₂⟩⟩
  | deleted hp hl hid hproject =>
    rw [hl] at hL
    obtain ⟨hL₁, hL₂⟩ := List.forall_mem_append.1 hL
    exact List.forall_mem_append.2 ⟨hL₁, (List.forall_mem_cons.1 hL₂).2⟩
  | _ => exact hL

/-- A request brings the counter of a store ahead by one at most, and not at all unless it is a
create. -/
theorem Store.precedes_of_becomes {s t : Store} {creates : Bool}
    (h : t = s ∨ ∃ repo op, op.isCreate = creates ∧ s.Becomes repo op t)
    (hcount : s.nextId.toNat + creates.toNat < 2 ^ 64) :
    s.Precedes t ∧ t.nextId.toNat ≤ s.nextId.toNat + creates.toNat := by
  rcases h with rfl | ⟨repo, op, hop, hbecomes⟩
  · exact ⟨.refl t, Nat.le_add_right _ _⟩
  · have hle : s.nextId.toNat ≤ t.nextId.toNat ∧
        t.nextId.toNat ≤ s.nextId.toNat + creates.toNat := by
      rcases hbecomes.nextId_eq with hn | ⟨hn, stamp, req, rfl⟩
      · rw [hn]
        exact ⟨Nat.le_refl _, Nat.le_add_right _ _⟩
      · subst hop
        rw [hn, toNat_succ hcount]
        exact ⟨Nat.le_succ _, Nat.le_refl _⟩
    exact ⟨hbecomes.precedes (UInt64.le_iff_toNat_le.2 hle.1), hle.2⟩

/-- The choices that begin with a number. -/
def Picks.cons (pick : Nat) (picks : Picks) : Picks
  | 0 => pick
  | n + 1 => picks n

namespace CommandLine

open Request

/-! ## The requests of commands -/

/-- Whether a command is a create. -/
def Command.isCreate (command : Command) : Bool :=
  match command with
  | .create _ => true
  | _ => false

/-- An answer of the address service as one to a command. -/
def Answer.ofService : Service.Answer → Answer
  | .record ip => .record ip
  | .records ips => .records ips

variable {service : Service} {stamp : Stamp} {project : Option String} {command : Command}
  {request : Request Answer}

/-- A command asks the address service, or it lists across all projects. -/
theorem Command.request_cases (h : command.request service stamp project = .ok request) :
    (∃ ask : Service.Ask, ask.isCreate = command.isCreate ∧
      request = Answer.ofService <$> service.request ask) ∨
    (command.isCreate = false ∧ ∃ req, request = .records <$> AdminService.list req) := by
  cases project with
  | none =>
    cases command with
    | list req =>
      cases h
      exact .inr ⟨rfl, req, rfl⟩
    | _ => cases h
  | some project =>
    left
    cases command with
    | create req =>
      cases h
      exact ⟨.create stamp { req with project := project }, rfl,
        by simp [Service.request, Answer.ofService]⟩
    | update req =>
      cases h
      exact ⟨.update stamp.now { req with project := project }, rfl,
        by simp [Service.request, Answer.ofService]⟩
    | delete id =>
      cases h
      exact ⟨.delete ⟨id, project⟩, rfl, by simp [Service.request, Answer.ofService]⟩
    | get id =>
      cases h
      exact ⟨.get ⟨id, project⟩, rfl, by simp [Service.request, Answer.ofService]⟩
    | list req =>
      cases h
      exact ⟨.list req, rfl, by simp [Service.request, Answer.ofService]⟩

theorem Command.request_performs (h : command.request service stamp project = .ok request) :
    request.Performs command.isCreate := by
  rcases request_cases h with ⟨ask, hask, rfl⟩ | ⟨hno, req, rfl⟩
  · exact hask ▸ (service.request_performs ask).map Answer.ofService
  · have hrecords : (Answer.records <$> AdminService.list req : Request Answer) =
        Answer.ofService <$> Service.Answer.records <$> AdminService.list req :=
      comp_map Service.Answer.records Answer.ofService _
    rw [hno, hrecords]
    exact (AdminService.list_performs req).map Answer.ofService

/-! ## What a command that is served leaves -/

/-- A state that runs may leave where they have found another: it is exact, its ids are those that
were there or new ones, and its counter is ahead by at most `creates`. -/
structure State.Continues (s : State) (creates : Nat) (t : State) : Prop where
  exact : t.Exact
  legible : t.Legible
  precedes : s.store.Precedes t.store
  nextId_le : t.store.nextId.toNat ≤ s.store.nextId.toNat + creates

/-- A memory that holds an exact state holds one after a command that is served, as long as a create
does not make the counter start again. -/
theorem Command.continues {state : State} (h : state.Exact) (hl : state.Legible)
    (hcount : state.store.nextId.toNat + command.isCreate.toNat < 2 ^ 64)
    (hrequest : command.request service stamp project = .ok request) (config : Config)
    (picks : Picks) :
    state.Continues command.isCreate.toNat
      (.ofMemory (request.serve (state.toMemory config, picks)).2.1) := by
  have hstore := (request_performs hrequest).serve (state.toMemory config) picks
  have htied := h.tied config
  generalize hm : (request.serve (state.toMemory config, picks)).2.1 = m at hstore ⊢
  replace hstore : m.store = state.store ∨ ∃ repo op, op.isCreate = command.isCreate ∧
    state.store.Becomes repo op m.store := hstore
  obtain ⟨hprecedes, hle⟩ := Store.precedes_of_becomes hstore hcount
  have hcounts := hprecedes.nextId_le
  have hkept : m.Tied ∧ ∀ r ∈ m.store.records, r.tags.Legible := by
    rcases request_cases hrequest with ⟨ask, -, rfl⟩ | ⟨-, req, rfl⟩
    · rw [serve_functor_map] at hm
      have hhandle : (service.handle (state.toMemory config) ask picks).2 = m := hm
      rw [← hhandle] at hcounts ⊢
      have hrefines := htied.handle service ask picks hcounts
      exact ⟨hrefines.tied, hrefines.step.legible hl⟩
    · rw [serve_functor_map] at hm
      have hsame := (AdminService.serve_list req (state.toMemory config) picks).symm.trans hm
      rw [← hsame]
      exact ⟨htied, hl⟩
  exact {
    exact := State.exact_ofMemory hkept.1
    legible := hkept.2
    precedes := hprecedes
    nextId_le := hle }

/-! ## Running a command -/

section Running

variable {τ : Type} {s : Surroundings (StateM τ)} {R : τ → Prop}

/-- Surroundings keep a condition on the world. -/
structure Surroundings.Keeps (s : Surroundings (StateM τ)) (R : τ → Prop) : Prop where
  startClock : ∀ span w, R w → R ((s.startClock span).run w).2
  isLate : ∀ w, R w → R (s.isLate.run w).2
  pick : ∀ w, R w → R (s.pick.run w).2
  stamp : ∀ w, R w → R (s.stamp.run w).2

theorem run_bind {α β : Type} (x : StateM τ α) (f : α → StateM τ β) (w : τ) :
    (x >>= f).run w = (f (x.run w).1).run (x.run w).2 := rfl

/-- A call is given up when it is too late for it; else it is answered from memory. -/
theorem run_guarded {α : Type} (c : Call) (next : Except Interruption c.Answer → Program α)
    (m : Memory) (w : τ) :
    (((Program.guarded c next).run (handler s)).run m).run w =
      if (s.isLate.run w).1 then
        (((next (.error .deadlineExceeded)).run (handler s)).run m).run (s.isLate.run w).2
      else
        let picked := s.pick.run (s.isLate.run w).2
        (((next (.ok (m.perform picked.1 c).1)).run (handler s)).run
          (m.perform picked.1 c).2).run picked.2 := by
  have hcall : (((handler s).guarded c).run m).run w = (((if (s.isLate.run w).1 then
      pure (.error .deadlineExceeded) else do return .ok (← performCall s c) :
        StateT Memory (StateM τ) (Except Interruption c.Answer)).run m).run (s.isLate.run w).2) := rfl
  show (fun r => (((next r.1.1).run (handler s)).run r.1.2).run r.2)
    ((((handler s).guarded c).run m).run w) = _
  rw [hcall]
  by_cases hl : (s.isLate.run w).1 = true
  · rw [if_pos hl, if_pos hl]
    rfl
  · rw [if_neg hl, if_neg hl]
    rfl

theorem run_detached {α : Type} (c : Call) (next : c.Answer → Program α) (m : Memory) (w : τ) :
    (((Program.detached c next).run (handler s)).run m).run w =
      (((next (m.perform (s.pick.run w).1 c).1).run (handler s)).run
        (m.perform (s.pick.run w).1 c).2).run (s.pick.run w).2 := rfl

/-- A request that succeeds is one that was served, as it would have failed if a call of it had been
too late. -/
theorem run_handler {α : Type} (hs : s.Keeps R) {p : Program (Except RequestError α)}
    (hp : p.GivesUp) (m : Memory) {w : τ} (hw : R w) :
    R (((p.run (handler s)).run m).run w).2 ∧
    ∀ a, (((p.run (handler s)).run m).run w).1.1 = .ok a → ∃ picks,
      (serve p (m, picks)).1 = .ok a ∧
        (serve p (m, picks)).2.1 = (((p.run (handler s)).run m).run w).1.2 := by
  induction p generalizing m w with
  | done r => exact ⟨hw, fun a ha => ⟨fun _ => 0, ha, rfl⟩⟩
  | guarded c next ih =>
    rw [run_guarded]
    have hlate := hs.isLate w hw
    by_cases hl : (s.isLate.run w).1 = true
    · -- the request ends here, and with an error, whatever it has done before
      obtain ⟨e, he⟩ := hp.1 .deadlineExceeded
      rw [if_pos hl, he]
      refine ⟨hlate, fun a ha => ?_⟩
      cases ha
    · rw [if_neg hl]
      have hpick := hs.pick _ hlate
      obtain ⟨hR, hserve⟩ := ih _ (hp.2 _)
        (m.perform (s.pick.run (s.isLate.run w).2).1 c).2 hpick
      refine ⟨hR, fun a ha => ?_⟩
      obtain ⟨picks, hpicks⟩ := hserve a ha
      exact ⟨.cons (s.pick.run (s.isLate.run w).2).1 picks, hpicks⟩
  | detached c next ih =>
    rw [run_detached]
    have hpick := hs.pick w hw
    obtain ⟨hR, hserve⟩ := ih _ (hp _) (m.perform (s.pick.run w).1 c).2 hpick
    refine ⟨hR, fun a ha => ?_⟩
    obtain ⟨picks, hpicks⟩ := hserve a ha
    exact ⟨.cons (s.pick.run w).1 picks, hpicks⟩

/-- A command that succeeds is a request that was served from a memory that held the state before,
and what that left is the state after it. -/
theorem Command.serve_eq_ok (hs : s.Keeps R) (config : Config) (state : State)
    (project : Option String) (command : Command) {w : τ} (hw : R w) :
    R ((command.serve s config state project).run w).2 ∧
    ∀ answer t, ((command.serve s config state project).run w).1 = .ok (answer, t) →
      ∃ stamp request picks,
        command.request ⟨config.general.releaseOnRefusal⟩ stamp project = .ok request ∧
        t = .ofMemory (request.serve (state.toMemory config, picks)).2.1 := by
  have hstamp := hs.stamp w hw
  unfold Command.serve
  simp only [run_bind]
  cases hrequest : command.request ⟨config.general.releaseOnRefusal⟩ (s.stamp.run w).1 project with
  | error e =>
    refine ⟨hstamp, fun answer t ht => ?_⟩
    cases ht
  | ok request =>
    have hstart := hs.startClock config.general.requestTimeout _ hstamp
    obtain ⟨hend, hserve⟩ := run_handler hs (request_performs hrequest).givesUp
      (state.toMemory config) hstart
    simp only [run_bind, ExceptT.run]
    generalize StateT.run ((Program.run (handler s) request).run (state.toMemory config))
      ((s.startClock config.general.requestTimeout).run (s.stamp.run w).2).2 = ran at hend hserve ⊢
    obtain ⟨⟨e | answer, memory⟩, w'⟩ := ran
    · refine ⟨hend, fun answer t ht => ?_⟩
      cases ht
    · refine ⟨hend, fun answer' t ht => ?_⟩
      cases ht
      obtain ⟨picks, -, hmemory⟩ := hserve answer rfl
      exact ⟨_, request, picks, hrequest, congrArg State.ofMemory hmemory.symm⟩

end Running

end CommandLine

end Ipam
