import Ipam.Call

/-!
# Programs

A program is what a request does: it ends with a result, or it makes a call and goes on with the
answer. A guarded call is made under the request's context, which may refuse it or abandon it; the
program then learns of the interruption in place of an answer. A detached call is made under a
context of its own and is always answered.

What becomes of the calls is the business of a `Handler`; `Program.run` runs a program under one.
-/

namespace Ipam

/-- A course of calls that ends with a result. -/
inductive Program (α : Type) : Type where
  /-- The end. -/
  | done (a : α)
  /-- A call under the context of the request. -/
  | guarded (c : Call) (next : Except Interruption c.Answer → Program α)
  /-- A call under a context of its own. -/
  | detached (c : Call) (next : c.Answer → Program α)

namespace Program

variable {α β : Type}

/-- One program after the other. -/
def bind (p : Program α) (f : α → Program β) : Program β :=
  match p with
  | .done a => f a
  | .guarded c next => .guarded c fun r => (next r).bind f
  | .detached c next => .detached c fun r => (next r).bind f

instance : Monad Program where
  pure := .done
  bind := bind

@[simp] theorem done_bind (a : α) (f : α → Program β) : Program.done a >>= f = f a := rfl

@[simp] theorem guarded_bind (c : Call) (next : Except Interruption c.Answer → Program α)
    (f : α → Program β) : Program.guarded c next >>= f = .guarded c fun r => next r >>= f := rfl

@[simp] theorem detached_bind (c : Call) (next : c.Answer → Program α) (f : α → Program β) :
    Program.detached c next >>= f = .detached c fun r => next r >>= f := rfl

theorem bind_done (p : Program α) : p >>= Program.done = p := by
  induction p with
  | done a => rfl
  | guarded c next ih => rw [guarded_bind]; congr 1; exact funext ih
  | detached c next ih => rw [detached_bind]; congr 1; exact funext ih

theorem bind_assoc {γ : Type} (p : Program α) (f : α → Program β) (g : β → Program γ) :
    p >>= f >>= g = p >>= fun a => f a >>= g := by
  induction p with
  | done a => rfl
  | guarded c next ih => simp only [guarded_bind]; congr 1; exact funext ih
  | detached c next ih => simp only [detached_bind]; congr 1; exact funext ih

instance : LawfulMonad Program :=
  LawfulMonad.mk' Program bind_done (fun _ _ => rfl) bind_assoc

end Program

/-- What becomes of the calls of a program. -/
structure Handler (m : Type → Type) where
  /-- Answers a guarded call, or refuses or abandons it. -/
  guarded : (c : Call) → m (Except Interruption c.Answer)
  /-- Answers a detached call. -/
  detached : (c : Call) → m c.Answer

/-- Runs a program, giving its calls to a handler one after the other. -/
def Program.run {m : Type → Type} [Monad m] {α : Type} (h : Handler m) : Program α → m α
  | .done a => pure a
  | .guarded c next => h.guarded c >>= fun r => (next r).run h
  | .detached c next => h.detached c >>= fun r => (next r).run h

/-- A program that may fail. -/
abbrev Request (α : Type) := ExceptT RequestError Program α

namespace Request

/-- Makes a guarded call; an interruption ends the request. -/
def ask (c : Call) : Request c.Answer :=
  ExceptT.mk (.guarded c fun r => .done (r.mapError .interrupted))

/-- The answer of a store or a lookup; its error ends the request. -/
def accept {α : Type} (r : Except StoreError α) : Request α :=
  ExceptT.mk (.done (r.mapError .ofStore))

/-- A result that was computed without calls. -/
def ofExcept {α : Type} (r : Except RequestError α) : Request α := ExceptT.mk (.done r)

end Request

end Ipam
