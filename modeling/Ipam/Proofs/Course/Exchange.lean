import Ipam.Proofs.Course.Fate

/-!
# What a program does when its calls are answered in any way

An exchange is a call together with what its caller learns of it. Nothing is assumed of the answers:
they need not agree with each other, nor with any state of the collaborators. `Program.after?` is
what is left of a program when it has had some exchanges, and it is defined just for those that the
program can have.

`Program.Upholds` is what is proved of programs: wherever they come to, a condition holds of the next
call and of all exchanges before it.
-/

namespace Ipam

/-- A call and what its caller learns of it. -/
structure Exchange where
  /-- The call. -/
  call : Call
  /-- The answer, or why there is none. -/
  outcome : Except Interruption call.Answer

namespace Program

variable {α β : Type}

/-- What is left of a program after an exchange, if its next call is that of the exchange. A detached
call is always answered. -/
def take? (p : Program α) (e : Exchange) : Option (Program α) :=
  match p with
  | .done _ => none
  | .guarded c next => if h : e.call = c then some (next (h ▸ e.outcome)) else none
  | .detached c next =>
    if h : e.call = c then
      match e.outcome with
      | .ok answer => some (next (h ▸ answer))
      | .error _ => none
    else none

/-- What is left of a program after some exchanges, if it can have them. -/
def after? (p : Program α) : List Exchange → Option (Program α)
  | [] => some p
  | e :: es => (p.take? e).bind fun q => q.after? es

theorem take?_cases {p q : Program α} {e : Exchange} (h : p.take? e = some q) :
    (∃ next, p = .guarded e.call next ∧ q = next e.outcome) ∨
    ∃ next answer, p = .detached e.call next ∧ e.outcome = .ok answer ∧ q = next answer := by
  obtain ⟨call, outcome⟩ := e
  cases p with
  | done a => cases h
  | guarded c next =>
    simp only [take?] at h
    split at h
    · next hc =>
      cases hc
      cases h
      exact .inl ⟨next, rfl, rfl⟩
    · cases h
  | detached c next =>
    simp only [take?] at h
    split at h
    · next hc =>
      cases hc
      cases outcome with
      | error i => cases h
      | ok answer =>
        cases h
        exact .inr ⟨next, answer, rfl, rfl, rfl⟩
    · cases h

theorem call?_of_take? {p q : Program α} {e : Exchange} (h : p.take? e = some q) :
    p.call? = some e.call := by
  rcases take?_cases h with ⟨next, rfl, -⟩ | ⟨next, answer, rfl, -, -⟩
  · rfl
  · rfl

/-! ## Conditions on calls -/

/-- Wherever a program comes to, its next call meets a condition on the exchanges before it and the
call; a result that it ends with meets one on the result and the exchanges. -/
def Upholds (P : List Exchange → Call → Prop) :
    Program (Except RequestError α) → List Exchange → (α → List Exchange → Prop) → Prop
  | .done (.ok a), es, Q => Q a es
  | .done (.error _), _, _ => True
  | .guarded c next, es, Q => P es c ∧ ∀ out, (next out).Upholds P (es ++ [⟨c, out⟩]) Q
  | .detached c next, es, Q => P es c ∧ ∀ answer, (next answer).Upholds P (es ++ [⟨c, .ok answer⟩]) Q

namespace Upholds

variable {P : List Exchange → Call → Prop} {es : List Exchange}

/-- What a program upholds, what is left of it upholds. -/
theorem take {p q : Program (Except RequestError α)} {Q : α → List Exchange → Prop} {e : Exchange}
    (h : p.Upholds P es Q) (he : p.take? e = some q) : q.Upholds P (es ++ [e]) Q := by
  obtain ⟨call, outcome⟩ := e
  rcases take?_cases he with ⟨next, rfl, rfl⟩ | ⟨next, answer, rfl, hout, rfl⟩
  · exact h.2 outcome
  · replace hout : outcome = .ok answer := hout
    rw [hout]
    exact h.2 answer

theorem after {p q : Program (Except RequestError α)} {Q : α → List Exchange → Prop}
    {fs : List Exchange} (h : p.Upholds P es Q) (hq : p.after? fs = some q) :
    q.Upholds P (es ++ fs) Q := by
  induction fs generalizing p es with
  | nil =>
    cases hq
    rwa [List.append_nil]
  | cons f fs ih =>
    obtain ⟨p', hp', hq⟩ := Option.bind_eq_some_iff.1 hq
    have hrest := ih (h.take hp') hq
    rwa [List.append_assoc] at hrest

/-- The next call meets the condition. -/
theorem call {p : Program (Except RequestError α)} {Q : α → List Exchange → Prop} {c : Call}
    (h : p.Upholds P es Q) (hc : p.call? = some c) : P es c := by
  cases p with
  | done r => cases hc
  | guarded c next =>
    cases hc
    exact h.1
  | detached c next =>
    cases hc
    exact h.1

/-- A call that a program makes after some exchanges meets the condition. -/
theorem call_after {p : Program (Except RequestError α)} {Q : α → List Exchange → Prop} {c : Call}
    (h : p.Upholds P [] Q) (hc : (p.after? es).bind call? = some c) : P es c := by
  obtain ⟨q, hq, hc⟩ := Option.bind_eq_some_iff.1 hc
  exact (h.after hq).call hc

theorem mono {p : Program (Except RequestError α)} {Q R : α → List Exchange → Prop}
    (h : p.Upholds P es Q) (hQ : ∀ a fs, Q a fs → R a fs) : p.Upholds P es R := by
  induction p generalizing es with
  | done r =>
    cases r with
    | ok a => exact hQ a es h
    | error e => trivial
  | guarded c next ih => exact ⟨h.1, fun out => ih out (h.2 out)⟩
  | detached c next ih => exact ⟨h.1, fun answer => ih answer (h.2 answer)⟩

theorem bind {x : Request α} {f : α → Request β} {Q : β → List Exchange → Prop}
    (h : Upholds P x es fun a fs => Upholds P (f a) fs Q) :
    Upholds P (x >>= f : Request β) es Q := by
  show Upholds P (Program.bind x (ExceptT.bindCont f)) es Q
  revert h
  generalize (x : Program (Except RequestError α)) = p
  intro h
  induction p generalizing es with
  | done r =>
    cases r with
    | ok a => exact h
    | error e => trivial
  | guarded c next ih => exact ⟨h.1, fun out => ih out (h.2 out)⟩
  | detached c next ih => exact ⟨h.1, fun answer => ih answer (h.2 answer)⟩

theorem map {x : Request α} {f : α → β} {Q : β → List Exchange → Prop}
    (h : Upholds P x es fun a fs => Q (f a) fs) : Upholds P (do return f (← x) : Request β) es Q :=
  .bind h

theorem ofExcept {r : Except RequestError α} {Q : α → List Exchange → Prop}
    (h : ∀ a, r = .ok a → Q a es) : Upholds P (Request.ofExcept r) es Q := by
  cases r with
  | ok a => exact h a rfl
  | error e => trivial

theorem accept {r : Except StoreError α} {Q : α → List Exchange → Prop}
    (h : ∀ a, r = .ok a → Q a es) : Upholds P (Request.accept r) es Q := by
  cases r with
  | ok a => exact h a rfl
  | error e => trivial

theorem ask {c : Call} {Q : c.Answer → List Exchange → Prop} (hc : P es c)
    (h : ∀ answer, Q answer (es ++ [⟨c, .ok answer⟩])) : Upholds P (Request.ask c) es Q := by
  refine ⟨hc, fun out => ?_⟩
  cases out with
  | ok answer => exact h answer
  | error i => trivial

end Upholds

end Program

end Ipam
