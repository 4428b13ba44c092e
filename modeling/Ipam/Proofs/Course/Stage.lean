import Ipam.Proofs.Course.Fate
import Ipam.Repository

/-!
# The stages of a request

What a repository is asked for is an `Operation`. Its program goes through stages: which call it may
make next, and how far that call brings it, depends on the stage alone (`Stage.Goes`). The stages
say what the request answers for at the time: the pair of an address that was taken and is not
recorded yet, or the record that it has read and is about to change or remove.

`Operation.leads` shows that every operation keeps to the stages whatever it is answered, and that
it succeeds only at the stage `complete`. All that is proved of requests under way, alone or among
others, rests on the stages and not on the programs.
-/

namespace Ipam

/-- What is asked of a repository. -/
inductive Operation where
  /-- Reads a record. -/
  | get (id : String)
  /-- Reads all records that a query admits. -/
  | list (query : Query)
  /-- Takes an address and records it. -/
  | create (stamp : Stamp) (request : Wire.CreateRequest)
  /-- Changes a record. -/
  | update (now : Instant) (request : Wire.UpdateRequest)
  /-- Gives an address back and removes its record. -/
  | delete (id : String)

/-- What a repository answers. -/
inductive Response where
  /-- A record. -/
  | record (r : Record)
  /-- Some records. -/
  | records (rs : List Record)
  deriving DecidableEq

/-- The request that a repository makes of an operation. -/
def Operation.request (repo : Repository) : Operation → Request Response
  | .get id => return .record (← repo.get id)
  | .list q => return .records (← repo.list q)
  | .create stamp req => return .record (← repo.create stamp req)
  | .update now req => return .record (← repo.update now req)
  | .delete id => return .record (← repo.delete id)

/-- How far a request has come. -/
inductive Stage where
  /-- A get or a list has not read yet. -/
  | reading
  /-- A create has not taken an address yet. -/
  | choosing
  /-- A create has taken a pair and has not recorded it yet. -/
  | holding (slot : Slot)
  /-- A create has taken a pair, the store has refused its record, and the pair is to be given
  back. -/
  | refused (slot : Slot)
  /-- An update has not read its record yet. -/
  | comparing
  /-- An update has read its record and has not changed it yet. -/
  | revising (old : Record)
  /-- A delete has not read its record yet. -/
  | seeking
  /-- A delete has read its record and has not given the address back yet. -/
  | found (r : Record)
  /-- A delete has given the address back and has not removed its record yet. -/
  | returned (r : Record)
  /-- The request has done what was asked. -/
  | complete (response : Response)
  /-- The request has failed, or it was given up. -/
  | ended

namespace Stage

/-- The stage that a good answer leads to; all else ends the request. -/
def onAnswer {ε α : Type} (out : Except Interruption (Except ε α)) (next : α → Stage) : Stage :=
  match out with
  | .ok (.ok a) => next a
  | _ => .ended

/-- The stage that a record in view leads to. -/
def onRecord (repo : Repository) (out : Except Interruption (Except StoreError Record))
    (next : Record → Stage) : Stage :=
  onAnswer out fun r => if repo.scope.admits r.projectId then next r else .ended

/-- The stage after an attempt to take an address from a prefix. -/
def onAcquire (p : Prefix) : Except AcquireError Addr → Stage
  | .ok a => .holding (p, a)
  | .error .exhausted => .choosing
  | .error _ => .ended

/-- The stage after an attempt to record a pair. -/
def onCreate (repo : Repository) (x : Slot) : Except Interruption (Except StoreError Record) → Stage
  | .ok (.ok stored) => .complete (.record stored)
  | .ok (.error _) => if repo.releaseOnRefusal then .refused x else .ended
  | .error _ => .ended

/-- The stage after an attempt to give the address of a record back. -/
def onRelease (r : Record) : Except Interruption (Except AllocatorError Unit) → Stage
  | .ok answer =>
    match readRelease answer with
    | .ok _ => .returned r
    | .error _ => .ended
  | .error _ => .ended

/-- A call that a request makes at a stage, what it learns, and the stage it comes to. -/
inductive Goes (repo : Repository) :
    Operation → Stage → (c : Call) → Except Interruption c.Answer → Stage → Prop where
  /-- A get reads the record it was asked for. -/
  | get (id : String) (out) : Goes repo (.get id) .reading (.storeGet id) out
      (onRecord repo out fun r => .complete (.record r))
  /-- A list reads the records in view, and shows those that are not bound to a machine. -/
  | list (q : Query) (out) : Goes repo (.list q) .reading (.storeList (q.within repo.scope)) out
      (onAnswer out fun rs => .complete (.records (rs.filter fun r => !r.tags.isMachineBound)))
  /-- A create looks its project up. -/
  | project (stamp) (req : Wire.CreateRequest) (out) :
      Goes repo (.create stamp req) .choosing (.project req.project) out
        (onAnswer out fun _ => .choosing)
  /-- A create looks its network up. -/
  | network (stamp) (req : Wire.CreateRequest) (p : Project) (out) :
      Goes repo (.create stamp req) .choosing (.network p.id req.network) out
        (onAnswer out fun _ => .choosing)
  /-- A create tries to take an address from a prefix. -/
  | acquire (stamp) (req) (p : Prefix) (wanted : Option Addr) (out) :
      Goes repo (.create stamp req) .choosing (acquireCall p wanted) out
        (onAcquire p (readAcquire p wanted out))
  /-- A create records the pair it has taken. -/
  | create (stamp) (req) (x : Slot) (r : Record) (h : r.slot = x) (out) :
      Goes repo (.create stamp req) (.holding x) (.storeCreate r) out (onCreate repo x out)
  /-- A create gives the pair it has taken back; this call is not given up. -/
  | compensate (stamp) (req) (x : Slot) (answer) :
      Goes repo (.create stamp req) (.refused x) (releaseCall x.2 x.1) (.ok answer) .ended
  /-- An update reads its record. -/
  | load (now) (req : Wire.UpdateRequest) (out) :
      Goes repo (.update now req) .comparing (.storeGet req.ip) out (onRecord repo out .revising)
  /-- An update puts the revised record in the place of the one it has read. -/
  | revise (now) (req) (new old : Record) (h : Repository.revise now req old = .ok new) (out) :
      Goes repo (.update now req) (.revising old) (.storeUpdate new old) out
        (onAnswer out fun _ => .complete (.record new))
  /-- A delete reads its record. -/
  | seek (id : String) (out) :
      Goes repo (.delete id) .seeking (.storeGet id) out (onRecord repo out .found)
  /-- A delete gives the address of its record back. -/
  | release (id) (r : Record) (out) :
      Goes repo (.delete id) (.found r) (releaseCall r.address r.parentPrefix) out (onRelease r out)
  /-- A delete removes its record. -/
  | remove (id) (r : Record) (out) : Goes repo (.delete id) (.returned r) (.storeDelete r) out
      (onAnswer out fun _ => .complete (.record r))

/-- A record is stored only at the stage that answers for its pair. -/
theorem Goes.eq_holding {repo : Repository} {op : Operation} {st st' : Stage} {r : Record}
    {out : Except Interruption (Call.storeCreate r).Answer}
    (h : Goes repo op st (.storeCreate r) out st') : st = .holding r.slot := by
  cases h with
  | create stamp req x r hx => rw [hx]

/-- All that is left for a refused create is to give its pair back. -/
theorem Goes.eq_releaseCall {repo : Repository} {op : Operation} {x : Slot} {st' : Stage} {c : Call}
    {out : Except Interruption c.Answer} (h : Goes repo op (.refused x) c out st') :
    c = releaseCall x.2 x.1 := by
  cases h with
  | compensate stamp req x answer => rfl

/-- A delete gives back only the address of the record that it has read. -/
theorem Goes.eq_found {repo : Repository} {op : Operation} {id : String} {st st' : Stage} {c : Call}
    {out : Except Interruption c.Answer} (h : Goes repo op st c out st') (hop : op = .delete id)
    (hc : ∃ req, c = .release req) :
    ∃ r, st = .found r ∧ c = releaseCall r.address r.parentPrefix := by
  obtain ⟨req, rfl⟩ := hc
  cases h with
  | release id r => exact ⟨r, rfl, rfl⟩
  | _ => cases hop

/-- A delete that has read its record gives the address back next. -/
theorem Goes.eq_releaseCall_of_found {repo : Repository} {op : Operation} {r : Record} {st' : Stage}
    {c : Call} {out : Except Interruption c.Answer} (h : Goes repo op (.found r) c out st') :
    c = releaseCall r.address r.parentPrefix := by
  cases h with
  | release id r => rfl

/-- Whether a request may fail at a stage without a further call: nothing is half done then. -/
def MayFail : Stage → Prop
  | .choosing => True
  | .revising _ => True
  | .ended => True
  | _ => False

/-- The stage at which an operation starts. -/
def first : Operation → Stage
  | .get _ => .reading
  | .list _ => .reading
  | .create .. => .choosing
  | .update .. => .comparing
  | .delete _ => .seeking

end Stage

/-! ## Programs that keep to the stages -/

open Stage

/-- A program keeps to the stages from `st` on, whatever it is answered. It succeeds only with a
result and at a stage that meet `Q`, and fails only where it may. -/
def Leads {α : Type} (repo : Repository) (op : Operation) :
    Program (Except RequestError α) → Stage → (α → Stage → Prop) → Prop
  | .done (.ok a), st, Q => Q a st
  | .done (.error _), st, _ => st.MayFail
  | .guarded c next, st, Q =>
    ∀ out, ∃ st', Goes repo op st c out st' ∧ Leads repo op (next out) st' Q
  | .detached c next, st, Q =>
    (∃ x, st = .refused x) ∧ ∀ a, ∃ st', Goes repo op st c (.ok a) st' ∧ Leads repo op (next a) st' Q

namespace Leads

variable {α β : Type} {repo : Repository} {op : Operation}

theorem mono {p : Program (Except RequestError α)} {st : Stage} {Q R : α → Stage → Prop}
    (h : Leads repo op p st Q) (hQ : ∀ a st', Q a st' → R a st') : Leads repo op p st R := by
  induction p generalizing st with
  | done r =>
    cases r with
    | ok a => exact hQ a st h
    | error e => exact h
  | guarded c next ih =>
    intro out
    obtain ⟨st', hg, hl⟩ := h out
    exact ⟨st', hg, ih out hl⟩
  | detached c next ih =>
    refine ⟨h.1, fun a => ?_⟩
    obtain ⟨st', hg, hl⟩ := h.2 a
    exact ⟨st', hg, ih a hl⟩

/-- One request after the other keeps to the stages if each does. -/
theorem bind {x : Request α} {f : α → Request β} {st : Stage} {Q : β → Stage → Prop}
    (h : Leads repo op x st fun a st' => Leads repo op (f a) st' Q) :
    Leads repo op (x >>= f : Request β) st Q := by
  show Leads repo op (Program.bind x (ExceptT.bindCont f)) st Q
  revert h
  generalize (x : Program (Except RequestError α)) = p
  intro h
  induction p generalizing st with
  | done r =>
    cases r with
    | ok a => exact h
    | error e => exact h
  | guarded c next ih =>
    intro out
    obtain ⟨st', hg, hl⟩ := h out
    exact ⟨st', hg, ih out hl⟩
  | detached c next ih =>
    refine ⟨h.1, fun a => ?_⟩
    obtain ⟨st', hg, hl⟩ := h.2 a
    exact ⟨st', hg, ih a hl⟩

theorem pure {a : α} {st : Stage} {Q : α → Stage → Prop} (h : Q a st) :
    Leads repo op (Pure.pure a : Request α) st Q := h

theorem throw {e : RequestError} {st : Stage} {Q : α → Stage → Prop} (h : st.MayFail) :
    Leads repo op (MonadExcept.throw e : Request α) st Q := h

/-- A guarded call leads on with its answer, or it is given up. -/
theorem ask {c : Call} {st : Stage} {next : Except Interruption c.Answer → Stage}
    {Q : c.Answer → Stage → Prop} (hg : ∀ out, Goes repo op st c out (next out))
    (ha : ∀ a, Q a (next (.ok a))) (hi : ∀ i, (next (.error i)).MayFail) :
    Leads repo op (Request.ask c) st Q := by
  intro out
  refine ⟨next out, hg out, ?_⟩
  cases out with
  | ok a => exact ha a
  | error i => exact hi i

theorem accept {r : Except StoreError α} {st : Stage} {Q : α → Stage → Prop}
    (ha : ∀ a, r = .ok a → Q a st) (he : ∀ e, r = .error e → st.MayFail) :
    Leads repo op (Request.accept r) st Q := by
  cases r with
  | ok a => exact ha a rfl
  | error e => exact he e rfl

theorem ofExcept {r : Except RequestError α} {st : Stage} {Q : α → Stage → Prop}
    (ha : ∀ a, r = .ok a → Q a st) (he : ∀ e, r = .error e → st.MayFail) :
    Leads repo op (Request.ofExcept r) st Q := by
  cases r with
  | ok a => exact ha a rfl
  | error e => exact he e rfl

end Leads

/-! ## The operations -/

section

variable {repo : Repository}

/-- The record in view that a request reads brings it to the stage of that record. -/
theorem Repository.get_leads {op : Operation} {st : Stage} {id : String} {next : Record → Stage}
    (hg : ∀ out, Goes repo op st (.storeGet id) out (onRecord repo out next)) :
    Leads repo op (repo.get id) st fun r st' => st' = next r := by
  refine Leads.bind (Leads.ask hg (fun a => ?_) fun _ => trivial)
  refine Leads.bind (Leads.accept ?_ ?_)
  · rintro r rfl
    have hst : onRecord repo (.ok (.ok r)) next =
        if repo.scope.admits r.projectId then next r else .ended := rfl
    by_cases hr : repo.scope.admits r.projectId = true
    · rw [if_pos hr] at hst
      simp only [hr, if_true]
      exact Leads.pure hst
    · rw [if_neg hr] at hst
      simp only [hr]
      refine Leads.throw ?_
      show MayFail (onRecord repo (.ok (.ok r)) next)
      rw [hst]
      trivial
  · rintro e rfl
    trivial

/-- An attempt to take an address leads on with what it comes to. -/
theorem acquire_leads {stamp : Stamp} {req : Wire.CreateRequest} {p : Prefix}
    {wanted : Option Addr} {Q : Except AcquireError Addr → Stage → Prop}
    (h : ∀ r, Q r (onAcquire p r)) :
    Leads repo (.create stamp req) (liftM (acquire p wanted) : Request _) .choosing Q :=
  fun out => ⟨_, .acquire stamp req p wanted out, h _⟩

theorem anyAddressOf_leads (stamp : Stamp) (req : Wire.CreateRequest) (network : String)
    (f : Family) (ps : List Prefix) :
    Leads repo (.create stamp req) (anyAddressOf network f ps) .choosing
      fun lease st => st = .holding (lease.parent, lease.address) := by
  induction ps with
  | nil => exact Leads.throw trivial
  | cons p ps ih =>
    refine Leads.bind (acquire_leads fun r => ?_)
    rcases r with (_ | _ | e) | a
    · exact ih
    · exact Leads.throw trivial
    · exact Leads.throw trivial
    · exact Leads.pure rfl

theorem specificAddress_leads (stamp : Stamp) (req : Wire.CreateRequest) (n : Network)
    (literal : String) :
    Leads repo (.create stamp req) (specificAddress n literal) .choosing
      fun lease st => st = .holding (lease.parent, lease.address) := by
  refine Leads.bind (Leads.ofExcept (fun w _ => ?_) fun _ _ => trivial)
  cases prefixFor? n w with
  | none => exact Leads.throw trivial
  | some p =>
    refine Leads.bind (acquire_leads fun r => ?_)
    rcases r with (_ | _ | e) | a
    · exact Leads.throw trivial
    · exact Leads.throw trivial
    · exact Leads.throw trivial
    · exact Leads.pure rfl

/-- A record whose pair was taken is stored, or its pair is given back, or neither. -/
theorem Repository.persist_leads (stamp : Stamp) (req : Wire.CreateRequest) (r : Record) :
    Leads repo (.create stamp req) (repo.persist r) (.holding r.slot)
      fun stored st => st = .complete (.record stored) := by
  intro out
  refine ⟨_, .create stamp req r.slot r rfl out, ?_⟩
  rcases out with i | e | stored
  · trivial
  · show Leads repo _ (repo.compensate r >>= fun _ => Program.done (.error (.ofStore e)))
      (if repo.releaseOnRefusal then .refused r.slot else .ended) _
    unfold Repository.compensate
    by_cases hc : repo.releaseOnRefusal = true
    · simp only [hc, if_true]
      exact ⟨⟨_, rfl⟩, fun a => ⟨_, .compensate stamp req r.slot a, trivial⟩⟩
    · simp only [hc]
      trivial
  · rfl

theorem Repository.create_leads (stamp : Stamp) (req : Wire.CreateRequest) :
    Leads repo (.create stamp req) (repo.create stamp req) .choosing
      fun stored st => st = .complete (.record stored) := by
  refine Leads.bind (Leads.ask (.project stamp req) (fun a => ?_) fun _ => trivial)
  refine Leads.bind (Leads.accept ?_ (by rintro e rfl; trivial))
  rintro p rfl
  refine Leads.bind (Leads.ask (.network stamp req p) (fun a => ?_) fun _ => trivial)
  refine Leads.bind (Leads.accept ?_ (by rintro e rfl; trivial))
  rintro n rfl
  refine Leads.bind (Leads.ofExcept (fun family _ => ?_) fun _ _ => trivial)
  refine Leads.bind (Leads.ofExcept (fun _ _ => ?_) fun _ _ => trivial)
  refine Leads.bind (Leads.ofExcept (fun retention _ => ?_) fun _ _ => trivial)
  have hpersist : ∀ lease st, st = Stage.holding (lease.parent, lease.address) →
      Leads repo (.create stamp req) (repo.persist (Repository.newRecord stamp req p n retention lease))
        st fun stored st' => st' = .complete (.record stored) := by
    rintro lease st rfl
    exact Repository.persist_leads stamp req _
  cases req.ip with
  | some literal => exact Leads.bind ((specificAddress_leads stamp req n literal).mono hpersist)
  | none => exact Leads.bind ((anyAddressOf_leads stamp req n.id family _).mono hpersist)

theorem Repository.update_leads (now : Instant) (req : Wire.UpdateRequest) :
    Leads repo (.update now req) (repo.update now req) .comparing
      fun new st => st = .complete (.record new) := by
  refine Leads.bind ((Repository.get_leads fun out => .load now req out).mono ?_)
  rintro old st rfl
  refine Leads.bind (Leads.ofExcept (fun new hnew => ?_) fun _ _ => trivial)
  refine Leads.bind (Leads.ask (.revise now req new old hnew) (fun a => ?_) fun _ => trivial)
  refine Leads.bind (Leads.accept ?_ (by rintro e rfl; trivial))
  rintro u rfl
  exact Leads.pure rfl

theorem release_leads (id : String) (r : Record) :
    Leads repo (.delete id) (release r.address r.parentPrefix) (.found r)
      fun _ st => st = .returned r := by
  refine Leads.bind (Leads.ask (.release id r) (fun answer => ?_) fun _ => trivial)
  refine Leads.ofExcept (fun back hback => ?_) fun e he => ?_
  · show onRelease r (.ok answer) = .returned r
    simp only [onRelease, hback]
  · show MayFail (onRelease r (.ok answer))
    simp only [onRelease, he]
    trivial

theorem Repository.delete_leads (id : String) :
    Leads repo (.delete id) (repo.delete id) .seeking
      fun r st => st = .complete (.record r) := by
  refine Leads.bind ((Repository.get_leads fun out => .seek id out).mono ?_)
  rintro r st rfl
  refine Leads.bind ((release_leads id r).mono ?_)
  rintro back st rfl
  refine Leads.bind (Leads.ask (.remove id r) (fun a => ?_) fun _ => trivial)
  refine Leads.bind (Leads.accept ?_ (by rintro e rfl; trivial))
  rintro u rfl
  exact Leads.pure rfl

/-- Every operation keeps to the stages whatever its calls are answered, and succeeds only when it
has done what was asked. -/
theorem Operation.leads (repo : Repository) (op : Operation) :
    Leads repo op (op.request repo) (first op) fun response st => st = .complete response := by
  cases op with
  | get id =>
    refine Leads.bind ((Repository.get_leads fun out => .get id out).mono ?_)
    rintro r st rfl
    exact Leads.pure rfl
  | list q =>
    refine Leads.bind (Leads.bind (Leads.ask (.list q) (fun a => ?_) fun _ => trivial))
    refine Leads.bind (Leads.accept ?_ (by rintro e rfl; trivial))
    rintro rs rfl
    exact Leads.pure rfl
  | create stamp req =>
    refine Leads.bind ((Repository.create_leads stamp req).mono ?_)
    rintro r st rfl
    exact Leads.pure rfl
  | update now req =>
    refine Leads.bind ((Repository.update_leads now req).mono ?_)
    rintro r st rfl
    exact Leads.pure rfl
  | delete id =>
    refine Leads.bind ((Repository.delete_leads id).mono ?_)
    rintro r st rfl
    exact Leads.pure rfl

end

end Ipam
