import Ipam.Proofs.Course.Transcript
import Ipam.Simulation

/-!
# Requests under a context

A host is all that a request meets with: its context, which may end at any time, and collaborators
that may do anything. A guarded call is not started under a context that has ended. Once it is
started, the caller looks now and then whether it is done, and each time looks at the context first:
a call whose context has ended by then is abandoned. A call may also wait for ever. A detached call
has nothing to do with the context.

`Host.attend` is the passage of a program at a host, with a log of all the calls it has attempted; of
one request after the other it is one passage after the other (`Host.attend_bind`), which gives the rules
for what a request that succeeds ensures (`Host.Ensures`). The simulated world is a host
(`World.attend_host`).
-/

namespace Ipam

/-! ## Contexts -/

namespace Context

variable {ctx : Context} {i : Interruption}

/-- Canceling comes first. -/
theorem refusal?_eq_some_iff : ctx.refusal? = some i ↔
    (ctx.canceled = true ∧ i = .canceled) ∨
      ctx.canceled = false ∧ ctx.remaining = some 0 ∧ i = .deadlineExceeded := by
  obtain ⟨canceled, remaining⟩ := ctx
  unfold refusal?
  cases canceled with
  | true => simp [eq_comm]
  | false => by_cases hr : remaining = some 0 <;> simp [hr, eq_comm]

/-- A wait ends under a context that has ended, and for that reason, or it is over. A wait that takes
time is not over under a context that has ended. -/
theorem wait_cases (ctx : Context) (delay : Nat) :
    ((ctx.wait delay).1 = .ok () ∧ (delay = 0 ∨ (ctx.wait delay).2.refusal? = none)) ∨
      delay ≠ 0 ∧ ∃ i, (ctx.wait delay).1 = .error i ∧ (ctx.wait delay).2.refusal? = some i := by
  by_cases hd : delay = 0
  · rw [wait, if_pos hd]
    exact .inl ⟨rfl, .inl hd⟩
  obtain ⟨canceled, remaining⟩ := ctx
  unfold wait
  rw [if_neg hd]
  cases canceled with
  | true => exact .inr ⟨hd, .canceled, rfl, rfl⟩
  | false =>
    cases remaining with
    | none => exact .inl ⟨rfl, .inr rfl⟩
    | some r =>
      by_cases hr : r ≤ delay
      · exact .inr ⟨hd, .deadlineExceeded, by simp [hr], by simp [hr, refusal?]⟩
      · have hleft : r - delay ≠ 0 := by omega
        exact .inl ⟨by simp [hr], .inr (by simp [hr, refusal?, hleft])⟩

theorem refusal?_waitForever (ctx : Context) :
    ctx.waitForever.2.refusal? = some ctx.waitForever.1 := by
  obtain ⟨canceled, remaining⟩ := ctx
  cases canceled <;> rfl

theorem refusal?_eq_none_iff :
    ctx.refusal? = none ↔ ctx.canceled = false ∧ ctx.remaining ≠ some 0 := by
  obtain ⟨canceled, remaining⟩ := ctx
  unfold refusal?
  cases canceled with
  | true => simp
  | false => by_cases hr : remaining = some 0 <;> simp [hr]

end Context

/-! ## Hosts -/

/-- What becomes of a guarded call that is started. -/
structure Reception (S : Type) (c : Call) where
  /-- The states at which the caller looks and the call is not done. -/
  looks : List S
  /-- The answer. A call without one waits for ever. -/
  answer : Option c.Answer
  /-- The state when the call is done. -/
  after : S

/-- What a request meets with. -/
structure Host (S : Type) where
  /-- The context of the request at a state. -/
  context : S → Context
  /-- What becomes of a guarded call that is started at a state. -/
  guarded : S → (c : Call) → Reception S c
  /-- The answer to a detached call, unless it waits for ever, and the state then. -/
  detached : S → (c : Call) → Option c.Answer × S

/-- What the caller of a call sees of it. -/
structure Meeting (S : Type) (c : Call) where
  /-- Whether the call is started. -/
  started : Bool
  /-- What the caller learns, unless it waits for ever. -/
  outcome : Option (Except Interruption c.Answer)
  /-- The state then. -/
  after : S

/-- A call that a request has attempted. -/
structure Attempt (S : Type) where
  /-- The state before. -/
  state : S
  /-- Whether the call is guarded. -/
  guarded : Bool
  /-- The call. -/
  call : Call
  /-- What its caller has seen of it. -/
  meeting : Meeting S call

/-- Why the call of an attempt was refused or abandoned, if it was. -/
def Attempt.interruption? {S : Type} (a : Attempt S) : Option Interruption :=
  match a.meeting.outcome with
  | some (.error i) => some i
  | _ => none

/-- The attempt as an exchange, unless the call waits for ever. -/
def Attempt.exchange? {S : Type} (a : Attempt S) : Option Exchange :=
  a.meeting.outcome.map fun out => ⟨a.call, out⟩

/-- What comes of a program at a host. -/
structure Passage (S α : Type) where
  /-- The calls it has attempted. -/
  log : List (Attempt S)
  /-- The state at the end. -/
  final : S
  /-- Its result, unless its last call waits for ever. -/
  result : Option α

/-- A passage with an attempt in front. -/
def Passage.after {S α : Type} (a : Attempt S) (x : Passage S α) : Passage S α :=
  { x with log := a :: x.log }

/-- A passage that ends with an attempt whose call waits for ever. -/
def Passage.stuck {S α : Type} (a : Attempt S) : Passage S α := ⟨[a], a.meeting.after, none⟩

/-- A passage with attempts before it. -/
def Passage.behind {S α : Type} (log : List (Attempt S)) (x : Passage S α) : Passage S α :=
  { x with log := log ++ x.log }

namespace Host

variable {S α β : Type}

/-- The first of some states at which the context has ended, and why. -/
def ended? (h : Host S) (looks : List S) : Option (Interruption × S) :=
  looks.findSome? fun s => (h.context s).refusal?.map fun i => (i, s)

/-- What the caller of a guarded call sees of it. -/
def meet (h : Host S) (s : S) (c : Call) : Meeting S c :=
  match (h.context s).refusal? with
  | some i => ⟨false, some (.error i), s⟩
  | none =>
    match h.ended? (h.guarded s c).looks with
    | some (i, t) => ⟨true, some (.error i), t⟩
    | none => ⟨true, (h.guarded s c).answer.map .ok, (h.guarded s c).after⟩

/-- What the caller of a detached call sees of it. -/
def serve (h : Host S) (s : S) (c : Call) : Meeting S c :=
  ⟨true, (h.detached s c).1.map .ok, (h.detached s c).2⟩

/-- The passage of a program from a state on. -/
def attend (h : Host S) : Program α → S → Passage S α
  | .done a, s => ⟨[], s, some a⟩
  | .guarded c next, s =>
    match (h.meet s c).outcome with
    | some out => (h.attend (next out) (h.meet s c).after).after ⟨s, true, c, h.meet s c⟩
    | none => .stuck ⟨s, true, c, h.meet s c⟩
  | .detached c next, s =>
    match (h.detached s c).1 with
    | some answer => (h.attend (next answer) (h.detached s c).2).after ⟨s, false, c, h.serve s c⟩
    | none => .stuck ⟨s, false, c, h.serve s c⟩

/-- The same collaborators, for a request that is never canceled and has no deadline. -/
def free (h : Host S) : Host S := { h with context := fun _ => ⟨false, none⟩ }

variable {h : Host S} {s : S} {c : Call}

/-! ## Guarded calls -/

theorem ended?_nil (h : Host S) : h.ended? [] = none := rfl

theorem ended?_cons_of_some {t : S} {i : Interruption} (ht : (h.context t).refusal? = some i)
    (looks : List S) : h.ended? (t :: looks) = some (i, t) := by
  simp [ended?, ht]

theorem ended?_cons_of_none {t : S} (ht : (h.context t).refusal? = none) (looks : List S) :
    h.ended? (t :: looks) = h.ended? looks := by
  simp [ended?, ht]

theorem refusal?_of_ended? {looks : List S} {i : Interruption} {t : S}
    (ht : h.ended? looks = some (i, t)) : (h.context t).refusal? = some i := by
  obtain ⟨u, -, hu⟩ := List.exists_of_findSome?_eq_some ht
  obtain ⟨j, hj, he⟩ := Option.map_eq_some_iff.1 hu
  cases he
  exact hj

/-- A guarded call is refused, or it is started and abandoned, or it is started and done. -/
theorem meet_cases (h : Host S) (s : S) (c : Call) :
    (∃ i, (h.context s).refusal? = some i ∧ h.meet s c = ⟨false, some (.error i), s⟩) ∨
    (h.context s).refusal? = none ∧
      ((∃ i t, (h.context t).refusal? = some i ∧ h.meet s c = ⟨true, some (.error i), t⟩) ∨
        h.meet s c = ⟨true, (h.guarded s c).answer.map .ok, (h.guarded s c).after⟩) := by
  unfold meet
  cases hs : (h.context s).refusal? with
  | some i => exact .inl ⟨i, rfl, rfl⟩
  | none =>
    refine .inr ⟨rfl, ?_⟩
    cases ht : h.ended? (h.guarded s c).looks with
    | some r => exact .inl ⟨r.1, r.2, refusal?_of_ended? ht, rfl⟩
    | none => exact .inr rfl

/-- A call that is interrupted leaves its caller with a context that has ended for that reason. -/
theorem refusal?_of_meet {i : Interruption} (hi : (h.meet s c).outcome = some (.error i)) :
    (h.context (h.meet s c).after).refusal? = some i := by
  rcases h.meet_cases s c with ⟨j, hj, hm⟩ | ⟨-, ⟨j, t, ht, hm⟩ | hm⟩
  · rw [hm] at hi ⊢
    cases hi
    exact hj
  · rw [hm] at hi ⊢
    cases hi
    exact ht
  · rw [hm] at hi
    obtain ⟨answer, -, he⟩ := Option.map_eq_some_iff.1 hi
    cases he

/-- A guarded call that is answered is done. -/
theorem meet_of_ok {answer : c.Answer} (hok : (h.meet s c).outcome = some (.ok answer)) :
    (h.guarded s c).answer = some answer ∧ (h.meet s c).after = (h.guarded s c).after := by
  rcases h.meet_cases s c with ⟨i, -, hm⟩ | ⟨-, ⟨i, t, -, hm⟩ | hm⟩
  · rw [hm] at hok
    cases hok
  · rw [hm] at hok
    cases hok
  · rw [hm] at hok ⊢
    obtain ⟨answer', hanswer, he⟩ := Option.map_eq_some_iff.1 hok
    cases he
    exact ⟨hanswer, rfl⟩

/-- A guarded call is started just when the context has not ended. -/
theorem meet_started_iff : (h.meet s c).started = true ↔ (h.context s).refusal? = none := by
  rcases h.meet_cases s c with ⟨j, hj, hm⟩ | ⟨hs, ⟨j, t, -, hm⟩ | hm⟩
  · simp [hm, hj]
  · simp [hm, hs]
  · simp [hm, hs]

/-- A guarded call that is not started is refused. -/
theorem exists_interruption_of_not_started (hs : (h.meet s c).started = false) :
    ∃ i, (h.meet s c).outcome = some (.error i) := by
  rcases h.meet_cases s c with ⟨j, -, hm⟩ | ⟨-, ⟨j, t, -, hm⟩ | hm⟩
  · exact ⟨j, by rw [hm]⟩
  · rw [hm] at hs
    cases hs
  · rw [hm] at hs
    cases hs

theorem ended?_free (h : Host S) (looks : List S) : h.free.ended? looks = none := by
  unfold ended?
  rw [List.findSome?_eq_none_iff]
  intro t ht
  rfl

theorem meet_free (h : Host S) (s : S) (c : Call) :
    h.free.meet s c = ⟨true, (h.guarded s c).answer.map .ok, (h.guarded s c).after⟩ := by
  have hs : (h.free.context s).refusal? = none := rfl
  unfold meet
  simp only [hs, ended?_free]
  rfl

/-- A guarded call that is not interrupted does as it would under a context that never ends. -/
theorem meet_eq_free (hi : ∀ i, (h.meet s c).outcome ≠ some (.error i)) :
    h.free.meet s c = h.meet s c := by
  rcases h.meet_cases s c with ⟨j, -, hm⟩ | ⟨-, ⟨j, t, -, hm⟩ | hm⟩
  · exact absurd (by rw [hm]) (hi j)
  · exact absurd (by rw [hm]) (hi j)
  · rw [hm, meet_free]

/-! ## Passages -/

theorem attend_guarded_cases (h : Host S) (c : Call)
    (next : Except Interruption c.Answer → Program α) (s : S) :
    (∃ out, (h.meet s c).outcome = some out ∧ h.attend (.guarded c next) s =
      (h.attend (next out) (h.meet s c).after).after ⟨s, true, c, h.meet s c⟩) ∨
    (h.meet s c).outcome = none ∧ h.attend (.guarded c next) s = .stuck ⟨s, true, c, h.meet s c⟩ := by
  cases hout : (h.meet s c).outcome with
  | some out => exact .inl ⟨out, rfl, by simp only [attend, hout]⟩
  | none => exact .inr ⟨rfl, by simp only [attend, hout]⟩

theorem attend_detached_cases (h : Host S) (c : Call) (next : c.Answer → Program α) (s : S) :
    (∃ answer, (h.serve s c).outcome = some (.ok answer) ∧ h.attend (.detached c next) s =
      (h.attend (next answer) (h.serve s c).after).after ⟨s, false, c, h.serve s c⟩) ∨
    (h.serve s c).outcome = none ∧ h.attend (.detached c next) s = .stuck ⟨s, false, c, h.serve s c⟩ := by
  cases ha : (h.detached s c).1 with
  | some answer => exact .inl ⟨answer, by rw [serve, ha, Option.map_some], by simp only [attend, ha, serve]⟩
  | none => exact .inr ⟨by rw [serve, ha, Option.map_none], by simp only [attend, ha]⟩

/-- What is logged was seen at the host. -/
theorem mem_log {p : Program α} {a : Attempt S} (ha : a ∈ (h.attend p s).log) :
    a.meeting = if a.guarded then h.meet a.state a.call else h.serve a.state a.call := by
  induction p generalizing s with
  | done r => cases ha
  | guarded c next ih =>
    rcases h.attend_guarded_cases c next s with ⟨out, -, he⟩ | ⟨-, he⟩
    · rw [he] at ha
      rcases List.mem_cons.1 ha with rfl | ha
      · rfl
      · exact ih out ha
    · rw [he] at ha
      rw [List.mem_singleton.1 ha]
      rfl
  | detached c next ih =>
    rcases h.attend_detached_cases c next s with ⟨answer, -, he⟩ | ⟨-, he⟩
    · rw [he] at ha
      rcases List.mem_cons.1 ha with rfl | ha
      · rfl
      · exact ih answer ha
    · rw [he] at ha
      rw [List.mem_singleton.1 ha]
      rfl

/-- A guarded call that is logged is started unless the context has ended, and then it is refused for
that reason. -/
theorem started_of_mem_log {p : Program α} {a : Attempt S} (ha : a ∈ (h.attend p s).log)
    (hguarded : a.guarded = true) :
    (a.meeting.started = true ↔ (h.context a.state).refusal? = none) ∧
      ∀ i, (h.context a.state).refusal? = some i → a.meeting.outcome = some (.error i) := by
  have hmeeting := mem_log ha
  obtain ⟨state, guarded, call, meeting⟩ := a
  replace hguarded : guarded = true := hguarded
  dsimp only at hmeeting ⊢
  rw [hguarded, if_pos rfl] at hmeeting
  subst hmeeting
  refine ⟨meet_started_iff, fun i hi => ?_⟩
  unfold meet
  simp only [hi]

theorem exchange?_of_outcome {a : Attempt S} {out : Except Interruption a.call.Answer}
    (ha : a.meeting.outcome = some out) : a.exchange? = some ⟨a.call, out⟩ := by
  rw [Attempt.exchange?, ha, Option.map_some]

theorem exchange?_of_stuck {a : Attempt S} (ha : a.meeting.outcome = none) : a.exchange? = none := by
  rw [Attempt.exchange?, ha, Option.map_none]

/-- What a program has exchanged at a host, it can exchange, and it stands where its passage has left
it: it is over with its result, or its last call waits for ever. -/
theorem reaches_attend (h : Host S) (p : Program α) (s : S) :
    ∃ v, p.Reaches ((h.attend p s).log.filterMap Attempt.exchange?) v ∧
      ∀ a, (h.attend p s).result = some a ↔ v = .over a := by
  induction p generalizing s with
  | done r => exact ⟨.over r, rfl, by simp [attend]⟩
  | guarded c next ih =>
    rcases h.attend_guarded_cases c next s with ⟨out, hout, he⟩ | ⟨hout, he⟩
    · obtain ⟨v, hv, hresult⟩ := ih out (h.meet s c).after
      refine ⟨v, ?_, by rw [he]; exact hresult⟩
      rw [he, Passage.after, List.filterMap_cons_some (exchange?_of_outcome hout)]
      exact hv.cons (dif_pos rfl)
    · refine ⟨.calls c, ?_, by simp [he, Passage.stuck]⟩
      rw [he, Passage.stuck, List.filterMap_cons_none (exchange?_of_stuck hout)]
      rfl
  | detached c next ih =>
    rcases h.attend_detached_cases c next s with ⟨answer, hout, he⟩ | ⟨hout, he⟩
    · obtain ⟨v, hv, hresult⟩ := ih answer (h.serve s c).after
      refine ⟨v, ?_, by rw [he]; exact hresult⟩
      rw [he, Passage.after, List.filterMap_cons_some (exchange?_of_outcome hout)]
      exact hv.cons (dif_pos rfl)
    · refine ⟨.calls c, ?_, by simp [he, Passage.stuck]⟩
      rw [he, Passage.stuck, List.filterMap_cons_none (exchange?_of_stuck hout)]
      rfl

/-- Every call that is attempted is one that the program can come to. -/
theorem exists_reaches_of_mem_log {p : Program α} {a : Attempt S} (ha : a ∈ (h.attend p s).log) :
    ∃ es, p.Reaches es (.calls a.call) := by
  induction p generalizing s with
  | done r => cases ha
  | guarded c next ih =>
    rcases h.attend_guarded_cases c next s with ⟨out, -, he⟩ | ⟨-, he⟩
    · rw [he] at ha
      rcases List.mem_cons.1 ha with rfl | ha
      · exact ⟨[], rfl⟩
      · obtain ⟨es, hes⟩ := ih out ha
        exact ⟨⟨c, out⟩ :: es, hes.cons (dif_pos rfl)⟩
    · rw [he] at ha
      rw [List.mem_singleton.1 ha]
      exact ⟨[], rfl⟩
  | detached c next ih =>
    rcases h.attend_detached_cases c next s with ⟨answer, -, he⟩ | ⟨-, he⟩
    · rw [he] at ha
      rcases List.mem_cons.1 ha with rfl | ha
      · exact ⟨[], rfl⟩
      · obtain ⟨es, hes⟩ := ih answer ha
        exact ⟨⟨c, .ok answer⟩ :: es, hes.cons (dif_pos rfl)⟩
    · rw [he] at ha
      rw [List.mem_singleton.1 ha]
      exact ⟨[], rfl⟩

/-- A program that comes to its end has learnt something of each call. -/
theorem outcome_of_result {p : Program α} {r : α} (hr : (h.attend p s).result = some r) :
    ∀ a ∈ (h.attend p s).log, a.meeting.outcome ≠ none := by
  induction p generalizing s with
  | done r =>
    intro a ha
    cases ha
  | guarded c next ih =>
    rcases h.attend_guarded_cases c next s with ⟨out, hout, he⟩ | ⟨-, he⟩
    · rw [he] at hr ⊢
      refine List.forall_mem_cons.2 ⟨?_, ih out hr⟩
      simp [hout]
    · rw [he] at hr
      cases hr
  | detached c next ih =>
    rcases h.attend_detached_cases c next s with ⟨answer, hout, he⟩ | ⟨-, he⟩
    · rw [he] at hr ⊢
      refine List.forall_mem_cons.2 ⟨?_, ih answer hr⟩
      simp [hout]
    · rw [he] at hr
      cases hr

/-- What comes of one request after the other, given what has come of the first one: if that has
succeeded, the other one follows. -/
def follow (h : Host S) (x : Passage S (Except RequestError α)) (f : α → Request β) :
    Passage S (Except RequestError β) :=
  match x.result with
  | some (.ok a) => (h.attend (f a) x.final).behind x.log
  | some (.error e) => ⟨x.log, x.final, some (.error e)⟩
  | none => ⟨x.log, x.final, none⟩

theorem follow_ok (h : Host S) (log : List (Attempt S)) (s : S) (a : α) (f : α → Request β) :
    h.follow ⟨log, s, some (.ok a)⟩ f = (h.attend (f a) s).behind log := rfl

theorem follow_after (h : Host S) (a : Attempt S) (x : Passage S (Except RequestError α))
    (f : α → Request β) : h.follow (x.after a) f = (h.follow x f).after a := by
  obtain ⟨log, final, result⟩ := x
  rcases result with - | (e | r) <;> rfl

theorem attend_bind (h : Host S) (x : Request α) (f : α → Request β) (s : S) :
    h.attend (x >>= f : Request β) s = h.follow (h.attend x s) f := by
  have hbind : (x >>= f : Request β) = Program.bind x (ExceptT.bindCont f) := rfl
  rw [hbind]
  generalize (x : Program (Except RequestError α)) = p
  induction p generalizing s with
  | done r => cases r <;> rfl
  | guarded c next ih =>
    cases hout : (h.meet s c).outcome with
    | some out =>
      simp only [Program.bind, attend, hout, follow_after]
      rw [ih]
    | none =>
      simp only [Program.bind, attend, hout]
      rfl
  | detached c next ih =>
    cases hout : (h.detached s c).1 with
    | some answer =>
      simp only [Program.bind, attend, hout, follow_after]
      rw [ih]
    | none =>
      simp only [Program.bind, attend, hout]
      rfl

/-! ## What a request ensures -/

/-- If the request starts where `P` holds and succeeds, then `Q` holds of its result where it ends. -/
def Ensures (h : Host S) (P : S → Prop) (x : Request α) (Q : α → S → Prop) : Prop :=
  ∀ s, P s → ∀ a, (h.attend x s).result = some (.ok a) → Q a (h.attend x s).final

namespace Ensures

variable {P : S → Prop} {Q : α → S → Prop} {R : β → S → Prop}

theorem done {r : Except RequestError α} (hr : ∀ s, P s → ∀ a, r = .ok a → Q a s) :
    h.Ensures P (Program.done r : Program (Except RequestError α)) Q := by
  intro s hs a ha
  cases ha
  exact hr s hs a rfl

theorem throw (e : RequestError) : h.Ensures P (throw e : Request α) Q :=
  done fun _ _ _ ha => nomatch ha

theorem guarded {next : Except Interruption c.Answer → Program (Except RequestError α)}
    (hnext : ∀ out, h.Ensures
      (fun t => ∃ s, P s ∧ (h.meet s c).outcome = some out ∧ (h.meet s c).after = t) (next out) Q) :
    h.Ensures P (Program.guarded c next : Program (Except RequestError α)) Q := by
  intro s hs a ha
  rcases h.attend_guarded_cases c next s with ⟨out, hout, he⟩ | ⟨-, he⟩
  · rw [he] at ha ⊢
    exact hnext out (h.meet s c).after ⟨s, hs, hout, rfl⟩ a ha
  · rw [he] at ha
    cases ha

theorem bind {x : Request α} {f : α → Request β} (hx : h.Ensures P x Q)
    (hf : ∀ a, h.Ensures (Q a) (f a) R) : h.Ensures P (x >>= f : Request β) R := by
  intro s hs b hb
  rw [attend_bind] at hb ⊢
  unfold follow at hb ⊢
  split at hb
  · next a ha => exact hf a _ (hx s hs a ha) b hb
  · cases hb
  · cases hb

end Ensures

end Host

/-! ## The simulated world -/

namespace World

/-- What becomes of a guarded call in the world. The caller looks when a wait is over; where a call
hangs, the caller looks when the context has ended, which is where the simulation goes on. -/
def reception (w : World) (c : Call) : Reception World c :=
  let (d, w) := w.start c
  let w := { w with context := (w.context.wait d.delay).2 }
  let looks := if d.delay = 0 then [] else [w]
  if d.hang then
    let w := if d.commit then (w.perform c).2 else w
    ⟨looks ++ [{ w with context := w.context.waitForever.2 }], none, w⟩
  else ⟨looks, some (w.reply d c).1, (w.reply d c).2⟩

/-- The world as a host. -/
def host : Host World where
  context := context
  guarded := reception
  detached w c := (some (w.detached c).1, (w.detached c).2)

theorem ended?_waitForever (w : World) :
    host.ended? [{ w with context := w.context.waitForever.2 }] =
      some (w.context.waitForever.1, { w with context := w.context.waitForever.2 }) :=
  Host.ended?_cons_of_some (Context.refusal?_waitForever w.context) []

/-- The caller does not give up when a wait is over. -/
theorem ended?_of_wait_over {w : World} {delay : Nat} (hlive : delay = 0 ∨ w.context.refusal? = none)
    (looks : List World) :
    host.ended? ((if delay = 0 then [] else [w]) ++ looks) = host.ended? looks := by
  by_cases hd : delay = 0
  · rw [if_pos hd, List.nil_append]
  · rw [if_neg hd]
    exact Host.ended?_cons_of_none (hlive.resolve_left hd) looks

/-- The caller gives up when the context ends a wait. -/
theorem ended?_of_wait_ended {w : World} {delay : Nat} {i : Interruption} (hd : delay ≠ 0)
    (hi : w.context.refusal? = some i) (looks : List World) :
    host.ended? ((if delay = 0 then [] else [w]) ++ looks) = some (i, w) := by
  rw [if_neg hd]
  exact Host.ended?_cons_of_some hi looks

/-- A guarded call of the world is one of the host. -/
theorem meet_host (w : World) (c : Call) :
    (host.meet w c).outcome = some (w.guarded c).1 ∧ (host.meet w c).after = (w.guarded c).2 := by
  have hcontext : host.context w = w.context := rfl
  have hguarded : host.guarded w c = w.reception c := rfl
  unfold Host.meet guarded
  rw [hcontext, hguarded]
  cases hr : w.context.refusal? with
  | some i => exact ⟨rfl, rfl⟩
  | none =>
    unfold reception
    generalize w.start c = r
    obtain ⟨d, v⟩ := r
    dsimp only
    have hcase := v.context.wait_cases d.delay
    generalize v.context.wait d.delay = r at hcase ⊢
    obtain ⟨out, ctx⟩ := r
    dsimp only at hcase ⊢
    rcases hcase with ⟨rfl, hlive⟩ | ⟨hd, i, rfl, hi⟩
    · have hlooks := ended?_of_wait_over (w := { v with context := ctx }) hlive
      cases d.hang with
      | true => simp only [if_true, hlooks, ended?_waitForever, and_self]
      | false =>
        have hnone := hlooks []
        rw [List.append_nil] at hnone
        simp only [Bool.false_eq_true, if_false, hnone, Host.ended?_nil, Option.map_some, and_self]
    · have hlooks := ended?_of_wait_ended (w := { v with context := ctx }) hd hi
      cases d.hang with
      | true => simp only [if_true, hlooks, and_self]
      | false =>
        have hsome := hlooks []
        rw [List.append_nil] at hsome
        simp only [Bool.false_eq_true, if_false, hsome, and_self]

/-- A request in the world has the passage that it has at the host. -/
theorem attend_host {α : Type} (p : Program α) (w : World) :
    (host.attend p w).result = some (p.run handler w).1 ∧
      (host.attend p w).final = (p.run handler w).2 := by
  induction p generalizing w with
  | done a => exact ⟨rfl, rfl⟩
  | guarded c next ih =>
    obtain ⟨hout, hafter⟩ := w.meet_host c
    have hrun : (Program.guarded c next).run handler w =
        (next (w.guarded c).1).run handler (w.guarded c).2 := rfl
    have hattend : host.attend (.guarded c next) w =
        (host.attend (next (w.guarded c).1) (w.guarded c).2).after ⟨w, true, c, host.meet w c⟩ := by
      rw [Host.attend, hafter]
      simp only [hout]
    rw [hrun, hattend]
    exact ih _ _
  | detached c next ih =>
    have hrun : (Program.detached c next).run handler w =
        (next (w.detached c).1).run handler (w.detached c).2 := rfl
    rw [hrun]
    exact ih _ _

end World

end Ipam
