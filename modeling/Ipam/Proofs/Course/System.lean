import Mathlib.Logic.Function.Basic
import Ipam.Proofs.Course.Turn

/-!
# Requests that share a memory

A `System` is a memory with the requests that work on it. It goes on by one `Move` at a time: a
request arrives, or one of the requests makes its next call and the call meets its fate. So a list
of moves is an order in which the calls of any number of requests may take place, and every state
of a system is that after some moves.

`Next` says what a move does to a system and to the stages of its requests. What holds of all
states is proved of the moves and follows for runs (`System.run_keeps`).
-/

namespace Ipam

/-- The id of the record that an operation deletes. -/
def Operation.target? : Operation → Option String
  | .delete id => some id
  | _ => none

theorem Operation.target?_eq_some {op : Operation} {id : String} :
    op.target? = some id ↔ op = .delete id := by
  cases op <;> simp [target?]

/-- A request that a repository serves. -/
structure Task where
  /-- The repository. -/
  repository : Repository
  /-- What is asked of it. -/
  operation : Operation
  /-- How far the request has come. -/
  course : Course (Except RequestError Response)

namespace Task

/-- A request that has made no call. -/
def start (repo : Repository) (op : Operation) : Task := ⟨repo, op, .start (op.request repo)⟩

/-- Whether a request has taken a pair that it is about to record or to give back. -/
def Holds (t : Task) (x : Slot) : Prop :=
  (∃ r next, t.course.rest = .guarded (.storeCreate r) next ∧ r.slot = x) ∨
    ∃ next, t.course.rest = .detached (releaseCall x.2 x.1) next

/-- Whether a request is a delete of the record with an id that is about to give a pair back. -/
def GivesBack (t : Task) (id : String) (x : Slot) : Prop :=
  t.operation = .delete id ∧ ∃ next, t.course.rest = .guarded (releaseCall x.2 x.1) next

instance (t : Task) (id : String) (x : Slot) : Decidable (t.GivesBack id x) :=
  have : Decidable (t.operation = .delete id) := decidable_of_iff _ Operation.target?_eq_some
  match h : t.course.rest with
  | .done _ => .isFalse fun ⟨_, _, hn⟩ => by rw [h] at hn; cases hn
  | .detached .. => .isFalse fun ⟨_, _, hn⟩ => by rw [h] at hn; cases hn
  | .guarded c next =>
    if hop : t.operation = .delete id then
      if hc : c = releaseCall x.2 x.1 then .isTrue ⟨hop, by subst hc; exact ⟨next, h⟩⟩
      else .isFalse fun ⟨_, _, hn⟩ => by rw [h] at hn; cases hn; exact hc rfl
    else .isFalse fun hn => hop hn.1

end Task

/-- Requests with the memory that they share. -/
structure System where
  /-- The memory. -/
  memory : Memory
  /-- The requests, in the order in which they arrived. -/
  tasks : List Task

/-- What happens next in a system. -/
inductive Move where
  /-- A request arrives. -/
  | start (repository : Repository) (operation : Operation)
  /-- The request with a number makes its next call, and the call meets its fate. -/
  | call (i : Nat) (fate : Fate)

namespace Move

/-- Whether a call that is made, if one is, is served. -/
def isServed : Move → Bool
  | .start .. => true
  | .call _ fate => fate.isServed

/-- The id of the record that an arriving request is to delete. -/
def target? : Move → Option String
  | .start _ op => op.target?
  | .call .. => none

end Move

namespace System

/-- A memory that no request works on. -/
def start (m : Memory) : System := ⟨m, []⟩

/-- The system after a move. A call of a request that is over, or that is not there, changes
nothing. -/
def apply (s : System) : Move → System
  | .start repo op => ⟨s.memory, s.tasks ++ [.start repo op]⟩
  | .call i fate =>
    match s.tasks[i]? with
    | none => s
    | some t =>
      let r := t.course.advance s.memory fate
      ⟨r.2, s.tasks.set i { t with course := r.1 }⟩

/-- The system after some moves. -/
def run (s : System) (moves : List Move) : System := moves.foldl apply s

/-- Every move on the way meets a condition in the system before it. -/
def Along (C : System → Move → Prop) (s : System) : List Move → Prop
  | [] => True
  | mv :: moves => C s mv ∧ (s.apply mv).Along C moves

instance Along.decidable (C : System → Move → Prop) [∀ s mv, Decidable (C s mv)] (s : System) :
    (moves : List Move) → Decidable (s.Along C moves)
  | [] => .isTrue trivial
  | mv :: moves =>
    have := Along.decidable C (s.apply mv) moves
    inferInstanceAs (Decidable (C s mv ∧ _))

theorem Along.and {C D : System → Move → Prop} {s : System} {moves : List Move}
    (hC : s.Along C moves) (hD : s.Along D moves) :
    s.Along (fun s mv => C s mv ∧ D s mv) moves := by
  induction moves generalizing s with
  | nil => trivial
  | cons mv moves ih => exact ⟨⟨hC.1, hD.1⟩, ih hC.2 hD.2⟩

theorem Along.of_forall {C : Move → Prop} {s : System} {moves : List Move}
    (h : ∀ mv ∈ moves, C mv) : s.Along (fun _ => C) moves := by
  induction moves generalizing s with
  | nil => trivial
  | cons mv moves ih =>
    exact ⟨h mv List.mem_cons_self, ih fun mv' hmem => h mv' (List.mem_cons_of_mem mv hmem)⟩

theorem along_append {C : System → Move → Prop} {s : System} {moves moves' : List Move} :
    s.Along C (moves ++ moves') ↔ s.Along C moves ∧ (s.run moves).Along C moves' := by
  induction moves generalizing s with
  | nil => simp [Along, run]
  | cons mv moves ih =>
    show C s mv ∧ (s.apply mv).Along C (moves ++ moves') ↔
      (C s mv ∧ (s.apply mv).Along C moves) ∧ ((s.apply mv).run moves).Along C moves'
    rw [ih, and_assoc]

theorem run_append (s : System) (moves moves' : List Move) :
    s.run (moves ++ moves') = (s.run moves).run moves' := List.foldl_append ..

/-- The counter of the store does not start again with a move. -/
def KeepsCounting (s : System) (mv : Move) : Prop :=
  s.memory.store.nextId ≤ (s.apply mv).memory.store.nextId

instance (s : System) (mv : Move) : Decidable (s.KeepsCounting mv) :=
  inferInstanceAs (Decidable (_ ≤ _))

/-- A delete that arrives finds all earlier deletes of its record over. -/
def DeletesApart (s : System) (mv : Move) : Prop :=
  ∀ id, mv.target? = some id → ∀ t ∈ s.tasks, t.operation = .delete id → t.course.IsOver

/-- A delete of the record with an id has given its address back. -/
def Released (s : System) (id : String) : Prop :=
  ∃ t ∈ s.tasks, t.operation = .delete id ∧ t.course.trace.Releases

/-- A delete of the record with an id has removed it. -/
def Removed (s : System) (id : String) : Prop :=
  ∃ t ∈ s.tasks, t.operation = .delete id ∧ t.course.trace.Removes

/-- No request is under way. -/
def IsQuiet (s : System) : Prop := ∀ t ∈ s.tasks, t.course.IsOver

instance (s : System) : Decidable s.IsQuiet :=
  inferInstanceAs (Decidable (∀ t ∈ s.tasks, t.course.IsOver))

/-! ## The stages of the requests -/

/-- The requests are at the stages that `σ` says; the numbers of no requests are at the end. -/
structure Staged (s : System) (σ : Nat → Stage) : Prop where
  /-- Every request goes on from its stage. -/
  leads : ∀ i t, s.tasks[i]? = some t →
    Leads t.repository t.operation t.course.rest (σ i) fun response st => st = .complete response
  /-- There are no other stages. -/
  beyond : ∀ i, s.tasks[i]? = none → σ i = .ended

/-- What a move does to a system and to the stages of its requests. -/
inductive Next (s : System) (σ : Nat → Stage) : Move → System → (Nat → Stage) → Prop where
  /-- A request arrives. -/
  | start (repo : Repository) (op : Operation) :
      Next s σ (.start repo op) ⟨s.memory, s.tasks ++ [.start repo op]⟩
        (Function.update σ s.tasks.length (.first op))
  /-- No call is made. -/
  | idle (mv : Move) : Next s σ mv s σ
  /-- A request makes a call. -/
  | call {i : Nat} {fate : Fate} {t : Task} {c : Call} {m : Memory} {st : Stage}
      (rest : Program (Except RequestError Response)) (hi : s.tasks[i]? = some t)
      (hover : ¬ t.course.IsOver)
      (ht : Turn t.repository s.memory t.operation (σ i) c fate m st) :
      Next s σ (.call i fate)
        ⟨m, s.tasks.set i ⟨t.repository, t.operation, ⟨rest, t.course.trace ++ [(c, fate)]⟩⟩⟩
        (Function.update σ i st)

/-- A request in a system that one has joined is that one or was there before. -/
theorem getElem?_concat_cases {α : Type} {tasks : List α} {t u : α} {j : Nat}
    (h : (tasks ++ [t])[j]? = some u) :
    j = tasks.length ∧ u = t ∨ j ≠ tasks.length ∧ tasks[j]? = some u := by
  rcases Nat.lt_trichotomy j tasks.length with hj | rfl | hj
  · rw [List.getElem?_append_left hj] at h
    exact .inr ⟨Nat.ne_of_lt hj, h⟩
  · rw [List.getElem?_concat_length] at h
    exact .inl ⟨rfl, by cases h; rfl⟩
  · rw [List.getElem?_eq_none (by simp; omega)] at h
    cases h

/-- A request in a system where one has made a call is that one or as it was before. -/
theorem getElem?_set_cases {α : Type} {tasks : List α} {i j : Nat} {t u v : α}
    (hi : tasks[i]? = some v) (h : (tasks.set i t)[j]? = some u) :
    j = i ∧ u = t ∨ j ≠ i ∧ tasks[j]? = some u := by
  by_cases hij : j = i
  · subst hij
    rw [List.getElem?_set_self (List.getElem?_eq_some_iff.1 hi).1] at h
    exact .inl ⟨rfl, by cases h; rfl⟩
  · rw [List.getElem?_set_ne (Ne.symm hij)] at h
    exact .inr ⟨hij, h⟩

/-- There is a request at every stage but the end. -/
theorem Staged.exists_task {s : System} {σ : Nat → Stage} (h : s.Staged σ) {i : Nat}
    (hi : σ i ≠ .ended) : ∃ t, s.tasks[i]? = some t :=
  Option.ne_none_iff_exists'.1 fun hn => hi (h.beyond i hn)

theorem staged_start (m : Memory) : (start m).Staged fun _ => .ended where
  leads := by
    intro i t ht
    cases ht
  beyond := fun _ _ => rfl

/-- The request with a number makes a call at its stage, which leads to another stage and leaves the
system as it is then. -/
structure Calls (s : System) (σ : Nat → Stage) (i : Nat) (fate : Fate) (t : Task) (c : Call)
    (st : Stage) (s' : System) : Prop where
  /-- The request. -/
  task : s.tasks[i]? = some t
  /-- Its call. -/
  call : t.course.rest.call? = some c
  /-- It is not over. -/
  running : ¬ t.course.IsOver
  /-- The call is one of its stage. -/
  goes : Stage.Goes t.repository t.operation (σ i) c (s.memory.meet c fate).1 st
  /-- The call has met its fate, and the other requests are as before. -/
  after : ∃ rest, s' = ⟨(s.memory.meet c fate).2,
    s.tasks.set i ⟨t.repository, t.operation, ⟨rest, t.course.trace ++ [(c, fate)]⟩⟩⟩

/-- A request goes on by a call that it makes at its stage, or nothing happens; that is so if there is
no call, or only one to give a pair back. -/
theorem Staged.call_cases {s : System} {σ : Nat → Stage} (h : s.Staged σ) (i : Nat) (fate : Fate) :
    (s.apply (.call i fate) = s ∧ ∀ t c, s.tasks[i]? = some t → t.course.rest.call? = some c →
      ∃ req, c = .release req) ∨
    ∃ t c st, s.Calls σ i fate t c st (s.apply (.call i fate)) ∧
      (s.apply (.call i fate)).Staged (Function.update σ i st) := by
  cases ht : s.tasks[i]? with
  | none =>
    refine .inl ⟨by simp only [apply, ht], ?_⟩
    intro t c ht
    cases ht
  | some t =>
    obtain ⟨hlt, hget⟩ := List.getElem?_eq_some_iff.1 ht
    rcases Course.advance_goes (h.leads i t ht) s.memory fate with
      ⟨ha, hno⟩ | ⟨c, rest, st, hc, ha, hg, hl, hover⟩
    · have hset : s.tasks.set i t = s.tasks := by
        rw [← hget]
        exact List.set_getElem_self hlt
      refine .inl ⟨?_, ?_⟩
      · simp only [apply, ht, ha]
        show (⟨s.memory, s.tasks.set i t⟩ : System) = s
        rw [hset]
      · rintro u c ⟨⟩ hc
        exact hno c hc
    · have hafter : s.apply (.call i fate) = ⟨(s.memory.meet c fate).2,
          s.tasks.set i ⟨t.repository, t.operation, ⟨rest, t.course.trace ++ [(c, fate)]⟩⟩⟩ := by
        simp only [apply, ht, ha]
      refine .inr ⟨t, c, st, ⟨ht, hc, hover, hg, rest, hafter⟩, ?_, ?_⟩
      · intro j u hu
        rw [hafter] at hu
        rcases getElem?_set_cases ht hu with ⟨rfl, rfl⟩ | ⟨hj, hu⟩
        · rw [Function.update_self]
          exact hl
        · rw [Function.update_of_ne hj]
          exact h.leads j u hu
      · intro j hj
        rw [hafter] at hj
        have hj : s.tasks.length ≤ j := by simpa using hj
        rw [Function.update_of_ne (by omega)]
        exact h.beyond j (List.getElem?_eq_none hj)

/-- A request that makes a call is asked the same, and the other requests are as before. -/
theorem Calls.task_cases {s s' : System} {σ : Nat → Stage} {i : Nat} {fate : Fate} {t : Task}
    {c : Call} {st : Stage} (h : s.Calls σ i fate t c st s') {j : Nat} {u : Task}
    (hu : s'.tasks[j]? = some u) :
    j = i ∧ u.operation = t.operation ∨ j ≠ i ∧ s.tasks[j]? = some u := by
  obtain ⟨rest, rfl⟩ := h.after
  rcases getElem?_set_cases h.task hu with ⟨rfl, rfl⟩ | h
  · exact .inl ⟨rfl, rfl⟩
  · exact .inr h

/-- No request is lost by a call, and all are asked the same. -/
theorem Calls.exists_task {s s' : System} {σ : Nat → Stage} {i : Nat} {fate : Fate} {t : Task}
    {c : Call} {st : Stage} (h : s.Calls σ i fate t c st s') {j : Nat} {u : Task}
    (hu : s.tasks[j]? = some u) : ∃ v, s'.tasks[j]? = some v ∧ v.operation = u.operation := by
  obtain ⟨rest, rfl⟩ := h.after
  by_cases hj : j = i
  · subst hj
    rw [h.task] at hu
    cases hu
    exact ⟨_, List.getElem?_set_self (List.getElem?_eq_some_iff.1 h.task).1, rfl⟩
  · refine ⟨u, ?_, rfl⟩
    rw [List.getElem?_set_ne (Ne.symm hj)]
    exact hu

/-- A request that arrives is at its first stage. -/
theorem Staged.start {s : System} {σ : Nat → Stage} (h : s.Staged σ) (repo : Repository)
    (op : Operation) : Staged ⟨s.memory, s.tasks ++ [.start repo op]⟩
      (Function.update σ s.tasks.length (.first op)) where
  leads := by
    intro i t ht
    rcases getElem?_concat_cases ht with ⟨rfl, rfl⟩ | ⟨hi, ht⟩
    · rw [Function.update_self]
      exact Operation.leads repo op
    · rw [Function.update_of_ne hi]
      exact h.leads i t ht
  beyond := by
    intro i hi
    have hi : s.tasks.length + 1 ≤ i := by simpa using hi
    rw [Function.update_of_ne (by omega)]
    exact h.beyond i (List.getElem?_eq_none (by omega))

/-- Every move takes the stages along. -/
theorem Staged.next {s : System} {σ : Nat → Stage} (h : s.Staged σ) (mv : Move) :
    ∃ σ', s.Next σ mv (s.apply mv) σ' ∧ (s.apply mv).Staged σ' := by
  cases mv with
  | start repo op => exact ⟨_, .start repo op, h.start repo op⟩
  | call i fate =>
    rcases h.call_cases i fate with ⟨he, -⟩ | ⟨t, c, st, hc, hs⟩
    · rw [he]
      exact ⟨σ, .idle _, h⟩
    · obtain ⟨rest, hafter⟩ := hc.after
      refine ⟨_, ?_, hs⟩
      rw [hafter]
      exact .call rest hc.task hc.running (hc.goes.turn rfl)

/-- A request has just arrived, or it was there before and is asked the same. -/
theorem Next.task_cases {s s' : System} {σ σ' : Nat → Stage} {mv : Move} (hn : s.Next σ mv s' σ')
    {j : Nat} {u : Task} (hu : s'.tasks[j]? = some u) :
    (∃ repo op, mv = .start repo op ∧ j = s.tasks.length ∧ u = .start repo op) ∨
      ∃ v, s.tasks[j]? = some v ∧ v.operation = u.operation := by
  cases hn with
  | start repo op =>
    rcases getElem?_concat_cases hu with ⟨rfl, rfl⟩ | ⟨-, hu⟩
    · exact .inl ⟨repo, op, rfl, rfl, rfl⟩
    · exact .inr ⟨u, hu, rfl⟩
  | idle mv => exact .inr ⟨u, hu, rfl⟩
  | call rest hi hover hturn =>
    rcases getElem?_set_cases hi hu with ⟨rfl, rfl⟩ | ⟨-, hu⟩
    · exact .inr ⟨_, hi, rfl⟩
    · exact .inr ⟨u, hu, rfl⟩

/-- A request that is over stays as it is. -/
theorem Next.getElem?_of_isOver {s s' : System} {σ σ' : Nat → Stage} {mv : Move}
    (hn : s.Next σ mv s' σ') {i : Nat} {t : Task} (ht : s.tasks[i]? = some t)
    (ho : t.course.IsOver) : s'.tasks[i]? = some t := by
  cases hn with
  | start repo op =>
    show (s.tasks ++ [Task.start repo op])[i]? = some t
    rw [List.getElem?_append_left (List.getElem?_eq_some_iff.1 ht).1]
    exact ht
  | idle mv => exact ht
  | call rest hi hover hturn =>
    rename_i j fate u c m st
    have hij : j ≠ i := by
      rintro rfl
      rw [hi] at ht
      cases ht
      exact hover ho
    show (s.tasks.set j _)[i]? = some t
    rw [List.getElem?_set_ne hij]
    exact ht

/-- What every move that meets a condition keeps holds after any such moves. -/
theorem run_keeps {C : System → Move → Prop} {P : System → (Nat → Stage) → Prop}
    (hstep : ∀ s σ mv s' σ', C s mv → s.Staged σ → P s σ → s' = s.apply mv → s.Next σ mv s' σ' →
      s'.Staged σ' → P s' σ')
    {s : System} {σ : Nat → Stage} {moves : List Move} (hs : s.Staged σ) (hP : P s σ)
    (hC : s.Along C moves) : ∃ σ', (s.run moves).Staged σ' ∧ P (s.run moves) σ' := by
  induction moves generalizing s σ with
  | nil => exact ⟨σ, hs, hP⟩
  | cons mv moves ih =>
    obtain ⟨σ', hn, hs'⟩ := hs.next mv
    exact ih hs' (hstep s σ mv _ σ' hC.1 hs hP rfl hn hs') hC.2

/-- Moves that meet a condition meet another one if that follows from what they keep. -/
theorem along_of_keeps {C D : System → Move → Prop} {P : System → (Nat → Stage) → Prop}
    (hstep : ∀ s σ mv s' σ', C s mv → s.Staged σ → P s σ → s' = s.apply mv → s.Next σ mv s' σ' →
      s'.Staged σ' → P s' σ')
    (hD : ∀ s σ mv, C s mv → s.Staged σ → P s σ → D s mv)
    {s : System} {σ : Nat → Stage} {moves : List Move} (hs : s.Staged σ) (hP : P s σ)
    (hC : s.Along C moves) : s.Along D moves := by
  induction moves generalizing s σ with
  | nil => trivial
  | cons mv moves ih =>
    obtain ⟨σ', hn, hs'⟩ := hs.next mv
    exact ⟨hD s σ mv hC.1 hs hP, ih hs' (hstep s σ mv _ σ' hC.1 hs hP rfl hn hs') hC.2⟩

end System

end Ipam
