import Ipam.Proofs.Course.Exchange

/-!
# Where a program stands

After some exchanges a program is about to make a call, or it is over (`Program.Reaches`). What a
program can reach is told by its first call: either nothing has been exchanged and the call is the
next one, or the first exchange was about that call and the rest is what the program that goes on
with the outcome can reach. One request after another reaches what the first one does, until that
succeeds.
-/

namespace Ipam

/-- Where a program stands. -/
inductive Standing (α : Type) where
  /-- It is about to make a call. -/
  | calls (c : Call)
  /-- It is over. -/
  | over (a : α)

namespace Program

variable {α β : Type}

/-- Where a program stands at its start. -/
def standing : Program α → Standing α
  | .done a => .over a
  | .guarded c _ => .calls c
  | .detached c _ => .calls c

/-- A program can have some exchanges, and stands somewhere then. -/
def Reaches (p : Program α) (es : List Exchange) (v : Standing α) : Prop :=
  (p.after? es).map standing = some v

variable {p : Program α} {es : List Exchange} {v : Standing α}

theorem reaches_of_call {c : Call} (h : (p.after? es).bind call? = some c) :
    p.Reaches es (.calls c) := by
  obtain ⟨q, hq, hc⟩ := Option.bind_eq_some_iff.1 h
  rw [Reaches, hq]
  cases q with
  | done a => cases hc
  | guarded c next =>
    cases hc
    rfl
  | detached c next =>
    cases hc
    rfl

theorem reaches_of_after {q : Program α} (h : p.after? es = some q) :
    p.Reaches es q.standing := by
  rw [Reaches, h]
  rfl

theorem call?_of_standing {a : α} (h : p.standing = .over a) : p.call? = none := by
  cases p with
  | done b => rfl
  | guarded c next => cases h
  | detached c next => cases h

namespace Reaches

theorem done_cases {a : α} (h : (done a).Reaches es v) : es = [] ∧ v = .over a := by
  cases es with
  | nil =>
    cases h
    exact ⟨rfl, rfl⟩
  | cons e es => cases h

theorem cons_cases {e : Exchange} (h : p.Reaches (e :: es) v) :
    ∃ q, p.take? e = some q ∧ q.Reaches es v := by
  obtain ⟨r, hr, hv⟩ := Option.map_eq_some_iff.1 h
  obtain ⟨q, hq, hr⟩ := Option.bind_eq_some_iff.1 hr
  refine ⟨q, hq, ?_⟩
  rw [Reaches, hr, Option.map_some, hv]

theorem guarded_cases {c : Call} {next : Except Interruption c.Answer → Program α}
    (h : (guarded c next).Reaches es v) :
    (es = [] ∧ v = .calls c) ∨ ∃ out fs, es = ⟨c, out⟩ :: fs ∧ (next out).Reaches fs v := by
  cases es with
  | nil =>
    cases h
    exact .inl ⟨rfl, rfl⟩
  | cons e es =>
    obtain ⟨q, hq, hv⟩ := h.cons_cases
    obtain ⟨call, out⟩ := e
    rcases take?_cases hq with ⟨next', he, rfl⟩ | ⟨next', answer, he, -, -⟩
    · cases he
      exact .inr ⟨out, es, rfl, hv⟩
    · cases he

theorem detached_cases {c : Call} {next : c.Answer → Program α}
    (h : (detached c next).Reaches es v) :
    (es = [] ∧ v = .calls c) ∨ ∃ answer fs, es = ⟨c, .ok answer⟩ :: fs ∧ (next answer).Reaches fs v := by
  cases es with
  | nil =>
    cases h
    exact .inl ⟨rfl, rfl⟩
  | cons e es =>
    obtain ⟨q, hq, hv⟩ := h.cons_cases
    obtain ⟨call, out⟩ := e
    rcases take?_cases hq with ⟨next', he, -⟩ | ⟨next', answer, he, hout, rfl⟩
    · cases he
    · cases he
      replace hout : out = .ok answer := hout
      exact .inr ⟨answer, es, by rw [hout], hv⟩

/-- What a program can reach after an exchange, it can reach with that exchange in front. -/
theorem cons {q : Program α} {e : Exchange} (he : p.take? e = some q) (h : q.Reaches es v) :
    p.Reaches (e :: es) v := by
  rw [Reaches, after?, he]
  exact h

end Reaches

/-- What one request after the other can reach: what the first one can, as long as it has not
succeeded, and then what the other one can. -/
inductive Composed (p : Program (Except RequestError α)) (f : α → Request β) :
    List Exchange → Standing (Except RequestError β) → Prop where
  /-- The first one is about to make a call. -/
  | calls {es : List Exchange} {c : Call} (h : p.Reaches es (.calls c)) : Composed p f es (.calls c)
  /-- The first one has failed. -/
  | fails {es : List Exchange} {e : RequestError} (h : p.Reaches es (.over (.error e))) :
    Composed p f es (.over (.error e))
  /-- The first one has succeeded. -/
  | succeeds {es fs : List Exchange} {a : α} {v : Standing (Except RequestError β)}
    (h : p.Reaches es (.over (.ok a))) (hf : Reaches (f a) fs v) : Composed p f (es ++ fs) v

theorem Composed.cons {p q : Program (Except RequestError α)} {f : α → Request β} {e : Exchange}
    {v : Standing (Except RequestError β)} (he : p.take? e = some q) (h : Composed q f es v) :
    Composed p f (e :: es) v := by
  cases h with
  | calls h => exact .calls (h.cons he)
  | fails h => exact .fails (h.cons he)
  | succeeds h hf => exact .succeeds (h.cons he) hf

theorem Reaches.bind_cases {x : Request α} {f : α → Request β}
    {v : Standing (Except RequestError β)} (h : Reaches (x >>= f : Request β) es v) :
    Composed x f es v := by
  replace h : Reaches (Program.bind x (ExceptT.bindCont f)) es v := h
  revert h
  generalize (x : Program (Except RequestError α)) = p
  intro h
  induction p generalizing es with
  | done r =>
    cases r with
    | ok a =>
      have hdone : Reaches (done (.ok a) : Program (Except RequestError α)) [] (.over (.ok a)) := rfl
      exact .succeeds hdone h
    | error e =>
      obtain ⟨rfl, rfl⟩ := done_cases h
      exact .fails rfl
  | guarded c next ih =>
    rcases guarded_cases h with ⟨rfl, rfl⟩ | ⟨out, fs, rfl, hnext⟩
    · exact .calls rfl
    · exact (ih out hnext).cons (dif_pos rfl)
  | detached c next ih =>
    rcases detached_cases h with ⟨rfl, rfl⟩ | ⟨answer, fs, rfl, hnext⟩
    · exact .calls rfl
    · exact (ih answer hnext).cons (dif_pos rfl)

/-- A request that begins with a call goes on with its answer, or the call is given up. -/
theorem Reaches.ask_cases {c : Call} {f : c.Answer → Request β}
    {v : Standing (Except RequestError β)} (h : Reaches (Request.ask c >>= f : Request β) es v) :
    (es = [] ∧ v = .calls c) ∨
    (∃ i, es = [⟨c, .error i⟩] ∧ v = .over (.error (.interrupted i))) ∨
    ∃ answer fs, es = ⟨c, .ok answer⟩ :: fs ∧ Reaches (f answer) fs v := by
  rcases guarded_cases h with ⟨rfl, rfl⟩ | ⟨out, fs, rfl, hnext⟩
  · exact .inl ⟨rfl, rfl⟩
  · right
    cases out with
    | error i =>
      obtain ⟨rfl, rfl⟩ := done_cases hnext
      exact .inl ⟨i, rfl, rfl⟩
    | ok answer => exact .inr ⟨answer, fs, rfl, hnext⟩

/-- A request that begins with an answer of a store or a lookup goes on with it, or fails with it. -/
theorem Reaches.accept_cases {r : Except StoreError α} {f : α → Request β}
    {v : Standing (Except RequestError β)}
    (h : Reaches (Request.accept r >>= f : Request β) es v) :
    (∃ e, r = .error e ∧ es = [] ∧ v = .over (.error (.ofStore e))) ∨
    ∃ a, r = .ok a ∧ Reaches (f a) es v := by
  cases r with
  | error e =>
    obtain ⟨rfl, rfl⟩ := done_cases h
    exact .inl ⟨e, rfl, rfl, rfl⟩
  | ok a => exact .inr ⟨a, rfl, h⟩

/-- A request that begins with a result goes on with it, or fails with it. -/
theorem Reaches.ofExcept_cases {r : Except RequestError α} {f : α → Request β}
    {v : Standing (Except RequestError β)}
    (h : Reaches (Request.ofExcept r >>= f : Request β) es v) :
    (∃ e, r = .error e ∧ es = [] ∧ v = .over (.error e)) ∨ ∃ a, r = .ok a ∧ Reaches (f a) es v := by
  cases r with
  | error e =>
    obtain ⟨rfl, rfl⟩ := done_cases h
    exact .inl ⟨e, rfl, rfl, rfl⟩
  | ok a => exact .inr ⟨a, rfl, h⟩

end Program

end Ipam
