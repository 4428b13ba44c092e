import Ipam.Simulation

/-!
# Requests whose calls are served

Where every call of a request is served from memory, what the request answers is a function of the
memory and of the choices of the allocator (`Request.serve`). One part of a request is served after
the other, and the rest of a request is not reached when a part fails.

A world in which nothing is in store for the calls serves them all (`World.run_eq_serve`).
-/

namespace Ipam

/-- A program of two parts is run one part after the other. -/
theorem Program.run_bind {m : Type → Type} [Monad m] [LawfulMonad m] {α β : Type} (h : Handler m)
    (p : Program α) (f : α → Program β) :
    (p >>= f).run h = p.run h >>= fun a => (f a).run h := by
  induction p with
  | done a => simp [Program.run]
  | guarded c next ih => simp [Program.run, ih]
  | detached c next ih => simp [Program.run, ih]

/-- The choices that the allocator makes, one for each call. -/
abbrev Picks := Nat → Nat

/-- The choices after the first. -/
def Picks.tail (picks : Picks) : Picks := fun n => picks (n + 1)

/-- Serves every call from memory. -/
def Memory.server : Handler (StateM (Memory × Picks)) where
  guarded c := fun s => (.ok (s.1.perform (s.2 0) c).1, (s.1.perform (s.2 0) c).2, s.2.tail)
  detached c := fun s => ((s.1.perform (s.2 0) c).1, (s.1.perform (s.2 0) c).2, s.2.tail)

namespace Request

variable {α β : Type}

/-- What a request answers, and what it leaves, when its calls are served. -/
def serve (x : Request α) (s : Memory × Picks) : Except RequestError α × Memory × Picks :=
  (Program.run Memory.server x).run s

theorem serve_bind (x : Request α) (f : α → Request β) (s : Memory × Picks) :
    (x >>= f : Request β).serve s =
      match x.serve s with
      | (.ok a, t) => (f a).serve t
      | (.error e, t) => (.error e, t) := by
  have hrun := Program.run_bind Memory.server (x : Program (Except RequestError α)) (ExceptT.bindCont f)
  show (Program.run Memory.server ((x : Program _) >>= ExceptT.bindCont f)).run s = _
  rw [hrun]
  show ((Program.run Memory.server (ExceptT.bindCont f (x.serve s).1)).run (x.serve s).2) = _
  rcases x.serve s with ⟨e | a, t⟩
  · rfl
  · rfl

/-- A request whose first part succeeds goes on with the rest. -/
theorem serve_bind_ok {x : Request α} {f : α → Request β} {s t : Memory × Picks} {a : α}
    (h : x.serve s = (.ok a, t)) : (x >>= f : Request β).serve s = (f a).serve t := by
  rw [serve_bind, h]

/-- A request whose first part fails does so. -/
theorem serve_bind_error {x : Request α} {f : α → Request β} {s t : Memory × Picks}
    {e : RequestError} (h : x.serve s = (.error e, t)) :
    (x >>= f : Request β).serve s = (.error e, t) := by
  rw [serve_bind, h]

@[simp] theorem serve_pure (a : α) (s : Memory × Picks) :
    (pure a : Request α).serve s = (.ok a, s) := rfl

@[simp] theorem serve_throw (e : RequestError) (s : Memory × Picks) :
    (throw e : Request α).serve s = (.error e, s) := rfl

@[simp] theorem serve_ofExcept (r : Except RequestError α) (s : Memory × Picks) :
    (ofExcept r).serve s = (r, s) := rfl

@[simp] theorem serve_accept (r : Except StoreError α) (s : Memory × Picks) :
    (accept r).serve s = (r.mapError .ofStore, s) := rfl

theorem serve_ask (c : Call) (m : Memory) (picks : Picks) :
    (ask c).serve (m, picks) =
      (.ok (m.perform (picks 0) c).1, (m.perform (picks 0) c).2, picks.tail) := rfl

theorem serve_guarded (c : Call)
    (next : Except Interruption c.Answer → Program (Except RequestError α)) (m : Memory)
    (picks : Picks) :
    serve (ExceptT.mk (.guarded c next)) (m, picks) =
      serve (ExceptT.mk (next (.ok (m.perform (picks 0) c).1)))
        ((m.perform (picks 0) c).2, picks.tail) := rfl

end Request

/-! ## The undisturbed world -/

namespace World

variable {w : World}

/-- Whether nothing is in store for a world and nothing can end its request. -/
def IsCalm (w : World) : Prop := w.queue = [] ∧ w.context = ⟨false, none⟩

/-- The world after a call that is answered from memory. -/
def answered (w : World) (c : Call) : World := ((w.start c).2.perform c).2

theorem perform_eq (w : World) (c : Call) :
    (w.perform c).1 = (w.memory.perform 0 c).1 ∧
      (w.perform c).2.memory = (w.memory.perform 0 c).2 ∧ (w.IsCalm → (w.perform c).2.IsCalm) := by
  unfold perform
  cases c <;> exact ⟨rfl, rfl, id⟩

theorem reply_none (w : World) (c : Call) : w.reply .none c = w.perform c := by
  cases c <;> rfl

theorem IsCalm.start (h : w.IsCalm) (c : Call) :
    (w.start c).1 = .none ∧ (w.start c).2.memory = w.memory ∧ (w.start c).2.IsCalm := by
  obtain ⟨hq, hctx⟩ := h
  unfold World.start
  rw [hq, hctx]
  exact ⟨rfl, rfl, rfl, rfl⟩

/-- A calm world answers from memory, and it stays calm. -/
theorem IsCalm.answered (h : w.IsCalm) (c : Call) :
    (w.answered c).memory = (w.memory.perform 0 c).2 ∧ (w.answered c).IsCalm := by
  obtain ⟨-, hm, hcalm⟩ := h.start c
  obtain ⟨-, hperform, hc⟩ := (w.start c).2.perform_eq c
  rw [hm] at hperform
  exact ⟨hperform, hc hcalm⟩

theorem IsCalm.detached (h : w.IsCalm) (c : Call) :
    w.detached c = ((w.memory.perform 0 c).1, w.answered c) := by
  obtain ⟨hnone, hm, -⟩ := h.start c
  obtain ⟨ha, -, -⟩ := (w.start c).2.perform_eq c
  rw [hm] at ha
  show (w.start c).2.reply (w.start c).1 c = _
  rw [hnone, reply_none]
  exact Prod.ext ha rfl

theorem IsCalm.guarded (h : w.IsCalm) (c : Call) :
    w.guarded c = (.ok (w.memory.perform 0 c).1, w.answered c) := by
  obtain ⟨hnone, hm, hq, hctx⟩ := h.start c
  obtain ⟨ha, -, -⟩ := (w.start c).2.perform_eq c
  rw [hm] at ha
  have hrefusal : w.context.refusal? = none := by rw [h.2]; rfl
  have hstart : w.start c = (.none, (w.start c).2) := Prod.ext hnone rfl
  unfold World.guarded
  rw [hrefusal, hstart]
  show (Except.ok ((w.start c).2.reply .none c).1, ((w.start c).2.reply .none c).2) = _
  rw [reply_none]
  exact Prod.ext (congrArg Except.ok ha) rfl

end World

/-- A program that runs in a calm world is served. -/
theorem Program.run_handler {α : Type} (p : Program α) {w : World} (h : w.IsCalm) :
    let r := (p.run World.handler).run w
    let t := (p.run Memory.server).run (w.memory, fun _ => 0)
    r.1 = t.1 ∧ r.2.memory = t.2.1 ∧ r.2.IsCalm := by
  induction p generalizing w with
  | done a => exact ⟨rfl, rfl, h⟩
  | guarded c next ih =>
    obtain ⟨hm, hcalm⟩ := h.answered c
    have hrun : (Program.run World.handler (.guarded c next)).run w =
        ((next (.ok (w.memory.perform 0 c).1)).run World.handler).run (w.answered c) := by
      show ((next (w.guarded c).1).run World.handler).run (w.guarded c).2 = _
      rw [h.guarded c]
    have := ih (.ok (w.memory.perform 0 c).1) hcalm
    rw [hm] at this
    rw [hrun]
    exact this
  | detached c next ih =>
    obtain ⟨hm, hcalm⟩ := h.answered c
    have hrun : (Program.run World.handler (.detached c next)).run w =
        ((next (w.memory.perform 0 c).1).run World.handler).run (w.answered c) := by
      show ((next (w.detached c).1).run World.handler).run (w.detached c).2 = _
      rw [h.detached c]
    have := ih (w.memory.perform 0 c).1 hcalm
    rw [hm] at this
    rw [hrun]
    exact this

/-- What a request answers in a calm world is what it answers when it is served. -/
theorem World.run_eq_serve {α : Type} (w : World) (hq : w.queue = []) (x : Request α) :
    (w.run ⟨false, none⟩ x).1 = (x.serve (w.memory, fun _ => 0)).1 ∧
      (w.run ⟨false, none⟩ x).2.memory = (x.serve (w.memory, fun _ => 0)).2.1 :=
  have h := Program.run_handler x (w := w.begin ⟨false, none⟩) ⟨hq, rfl⟩
  ⟨h.1, h.2.1⟩

end Ipam
