import Ipam.Proofs.Course.Fate

/-!
# Calls that may be answered falsely only by failing

A call is served, or there is trouble with it: it takes effect or not, whatever its caller is told,
and its caller is told that it failed, or learns that it was given up (`Treatment`). So no caller is
told of a success that there was not, but a failure may have taken effect. `Program.under` says what
a program ends with when its calls are treated in some way, one after the other, and what it leaves.

`Program.Assures` is what is proved of requests: a condition holds of the memory wherever they come
to, and one of the result and the memory at a good end, however their calls are treated.
-/

namespace Ipam

/-- How a call is treated. -/
inductive Treatment where
  /-- It takes effect and is answered truthfully; `pick` is the choice of the allocator. -/
  | served (pick : Nat)
  /-- It takes effect, with a choice of the allocator, or it does not. It is reported to have
  failed, or it is given up. -/
  | troubled (effect : Option Nat) (report : Except Interruption Fault)
  deriving DecidableEq

/-- What the caller of a call learns of it, and the memory then. -/
def Memory.treat (m : Memory) (c : Call) : Treatment → Except Interruption c.Answer × Memory
  | .served pick => (.ok (m.perform pick c).1, (m.perform pick c).2)
  | .troubled effect report =>
    (report.map c.refuse, (effect.map fun pick => (m.perform pick c).2).getD m)

/-- What a program ends with when its calls are treated in some way, and the memory then. It comes
to no end where its calls are more, or where one of them would be given up that cannot be. -/
def Program.under {α : Type} : Program α → Memory → List Treatment → Option α × Memory
  | .done a, m, _ => (some a, m)
  | .guarded _ _, m, [] => (none, m)
  | .guarded c next, m, t :: ts => (next (m.treat c t).1).under (m.treat c t).2 ts
  | .detached _ _, m, [] => (none, m)
  | .detached c next, m, t :: ts =>
    match (m.treat c t).1 with
    | .ok answer => (next answer).under (m.treat c t).2 ts
    | .error _ => (none, m)

namespace Memory

variable {m : Memory} {c : Call}

/-- A call takes effect, and what its caller is told is the answer or a failure; or nothing happens,
and its caller is told of a failure. -/
theorem treat_cases (m : Memory) (c : Call) (t : Treatment) :
    (∃ pick, (m.treat c t).2 = (m.perform pick c).2 ∧ ∀ answer, (m.treat c t).1 = .ok answer →
      answer = (m.perform pick c).1 ∨ ∃ fault, answer = c.refuse fault) ∨
    ((m.treat c t).2 = m ∧ ∀ answer, (m.treat c t).1 = .ok answer →
      ∃ fault, answer = c.refuse fault) := by
  rcases t with pick | ⟨effect, report⟩
  · refine .inl ⟨pick, rfl, fun answer h => .inl ?_⟩
    cases h
    rfl
  · have hfails : ∀ answer, (m.treat c (.troubled effect report)).1 = .ok answer →
        ∃ fault, answer = c.refuse fault := by
      intro answer h
      cases report with
      | error cause => cases h
      | ok fault =>
        cases h
        exact ⟨fault, rfl⟩
    cases effect with
    | none => exact .inr ⟨rfl, hfails⟩
    | some pick => exact .inl ⟨pick, rfl, fun answer h => .inr (hfails answer h)⟩

/-- A call that changes nothing when it is performed changes nothing. -/
theorem treat_snd_of_unchanged (h : ∀ pick, (m.perform pick c).2 = m) (t : Treatment) :
    (m.treat c t).2 = m := by
  rcases m.treat_cases c t with ⟨pick, hm, -⟩ | ⟨hm, -⟩
  · exact hm.trans (h pick)
  · exact hm

variable (m) (t : Treatment)

/-- A call for an address changes the pool only. -/
theorem treat_acquireCall (p : Prefix) (wanted : Option Addr) :
    ∃ pool, (m.treat (acquireCall p wanted) t).2 = { m with pool := pool } := by
  rcases m.treat_cases (acquireCall p wanted) t with ⟨pick, hm, -⟩ | ⟨hm, -⟩
  · exact ⟨_, hm⟩
  · exact ⟨m.pool, hm⟩

/-- A call that gives an address back changes the pool only. -/
theorem treat_releaseCall (a : Addr) (p : Prefix) :
    ∃ pool, (m.treat (releaseCall a p) t).2 = { m with pool := pool } := by
  rcases m.treat_cases (releaseCall a p) t with ⟨pick, hm, -⟩ | ⟨hm, -⟩
  · exact ⟨_, hm⟩
  · exact ⟨m.pool, hm⟩

/-- A call that adds a record puts it at the end under a pair of its own, or it leaves the memory
alone and does not succeed. -/
theorem treat_storeCreate (r : Record) :
    ((∀ o ∈ m.store.records, o.slot ≠ r.slot) ∧
      (m.treat (.storeCreate r) t).2 = { m with store :=
        ⟨m.store.nextId + 1, m.store.records ++ [m.store.numberedNext r]⟩ } ∧
      ∀ stored, (m.treat (.storeCreate r) t).1 = .ok (.ok stored) →
        stored = m.store.numberedNext r) ∨
    ((m.treat (.storeCreate r) t).2 = m ∧
      ∀ stored, (m.treat (.storeCreate r) t).1 ≠ .ok (.ok stored)) := by
  rcases m.treat_cases (.storeCreate r) t with ⟨pick, hm, hout⟩ | ⟨hm, hout⟩
  · rcases m.store.create_eq r with ⟨-, he⟩ | ⟨hfree, he⟩
    · have hperform : m.perform pick (.storeCreate r) =
          (.error (.alreadyExists (Store.newSubject r)), m) := by simp only [perform, he]
      rw [hperform] at hm hout
      refine .inr ⟨hm, fun stored h => ?_⟩
      rcases hout _ h with ha | ⟨fault, ha⟩ <;> cases ha
    · have hperform : m.perform pick (.storeCreate r) = (.ok (m.store.numberedNext r), { m with
          store := ⟨m.store.nextId + 1, m.store.records ++ [m.store.numberedNext r]⟩ }) := by
        simp only [perform, he]
      rw [hperform] at hm hout
      refine .inl ⟨hfree, hm, fun stored h => ?_⟩
      rcases hout _ h with ha | ⟨fault, ha⟩ <;> cases ha
      rfl
  · refine .inr ⟨hm, fun stored h => ?_⟩
    obtain ⟨fault, ha⟩ := hout _ h
    cases ha

/-- A call that changes a record puts the new one in the place of the old one, or it leaves the
memory alone and does not succeed. -/
theorem treat_storeUpdate (new old : Record) :
    (∃ l₁ l₂, m.store.records = l₁ ++ old :: l₂ ∧ (m.treat (.storeUpdate new old) t).2 =
      { m with store := ⟨m.store.nextId, l₁ ++ new :: l₂⟩ }) ∨
    ((m.treat (.storeUpdate new old) t).2 = m ∧
      (m.treat (.storeUpdate new old) t).1 ≠ .ok (.ok ())) := by
  rcases m.treat_cases (.storeUpdate new old) t with ⟨pick, hm, hout⟩ | ⟨hm, hout⟩
  · cases hu : (m.store.update new old).1 with
    | ok u =>
      obtain ⟨l₁, l₂, hl, -, he⟩ := Store.update_eq_ok hu
      exact .inl ⟨l₁, l₂, hl, by simp only [hm, perform, he]⟩
    | error e =>
      have hperform : m.perform pick (.storeUpdate new old) = (.error e, m) := by
        simp only [perform, hu, Store.update_snd_of_error hu]
      rw [hperform] at hm hout
      refine .inr ⟨hm, fun h => ?_⟩
      rcases hout _ h with ha | ⟨fault, ha⟩ <;> cases ha
  · refine .inr ⟨hm, fun h => ?_⟩
    obtain ⟨fault, ha⟩ := hout _ h
    cases ha

/-- A call that removes a record takes it out, or it leaves the memory alone and does not
succeed. -/
theorem treat_storeDelete (r : Record) :
    (∃ l₁ o l₂, m.store.records = l₁ ++ o :: l₂ ∧ o.id = r.id ∧
      (m.treat (.storeDelete r) t).2 = { m with store := ⟨m.store.nextId, l₁ ++ l₂⟩ }) ∨
    ((m.treat (.storeDelete r) t).2 = m ∧ (m.treat (.storeDelete r) t).1 ≠ .ok (.ok ())) := by
  rcases m.treat_cases (.storeDelete r) t with ⟨pick, hm, hout⟩ | ⟨hm, hout⟩
  · cases hd : (m.store.delete r).1 with
    | ok u =>
      obtain ⟨l₁, o, l₂, hl, hid, -, he⟩ := Store.delete_eq_ok hd
      exact .inl ⟨l₁, o, l₂, hl, hid, by simp only [hm, perform, he]⟩
    | error e =>
      have hperform : m.perform pick (.storeDelete r) = (.error e, m) := by
        simp only [perform, hd, (Store.delete_snd_of_error hd).1]
      rw [hperform] at hm hout
      refine .inr ⟨hm, fun h => ?_⟩
      rcases hout _ h with ha | ⟨fault, ha⟩ <;> cases ha
  · refine .inr ⟨hm, fun h => ?_⟩
    obtain ⟨fault, ha⟩ := hout _ h
    cases ha

end Memory

namespace Program

variable {α β : Type} {I : Memory → Prop} {m : Memory}

/-- Wherever a request comes to, the memory meets `I`, and it succeeds only with a result and a
memory that meet `Q`. -/
def Assures (I : Memory → Prop) :
    Program (Except RequestError α) → Memory → (α → Memory → Prop) → Prop
  | .done (.ok a), m, Q => I m ∧ Q a m
  | .done (.error _), m, _ => I m
  | .guarded c next, m, Q => I m ∧ ∀ t, (next (m.treat c t).1).Assures I (m.treat c t).2 Q
  | .detached c next, m, Q =>
    I m ∧ ∀ t answer, (m.treat c t).1 = .ok answer → (next answer).Assures I (m.treat c t).2 Q

namespace Assures

theorem inv {p : Program (Except RequestError α)} {Q : α → Memory → Prop} (h : p.Assures I m Q) :
    I m := by
  cases p with
  | done r =>
    cases r with
    | ok a => exact h.1
    | error e => exact h
  | guarded c next => exact h.1
  | detached c next => exact h.1

/-- However the calls of a request are treated, it leaves a memory that meets the condition, and the
result of a good end meets the other one. -/
theorem under {p : Program (Except RequestError α)} {Q : α → Memory → Prop} (h : p.Assures I m Q)
    (ts : List Treatment) :
    I (p.under m ts).2 ∧ ∀ a, (p.under m ts).1 = some (.ok a) → Q a (p.under m ts).2 := by
  induction p generalizing m ts with
  | done r =>
    refine ⟨h.inv, fun a ha => ?_⟩
    cases ha
    exact h.2
  | guarded c next ih =>
    cases ts with
    | nil => exact ⟨h.1, nofun⟩
    | cons t ts => exact ih _ (h.2 t) ts
  | detached c next ih =>
    cases ts with
    | nil => exact ⟨h.1, nofun⟩
    | cons t ts =>
      rw [Program.under]
      cases hanswer : (m.treat c t).1 with
      | ok answer => exact ih answer (h.2 t answer hanswer) ts
      | error i => exact ⟨h.1, nofun⟩

theorem mono {p : Program (Except RequestError α)} {Q R : α → Memory → Prop} (h : p.Assures I m Q)
    (hQ : ∀ a m', I m' → Q a m' → R a m') : p.Assures I m R := by
  induction p generalizing m with
  | done r =>
    cases r with
    | ok a => exact ⟨h.1, hQ a m h.1 h.2⟩
    | error e => exact h
  | guarded c next ih => exact ⟨h.1, fun t => ih _ (h.2 t)⟩
  | detached c next ih => exact ⟨h.1, fun t answer ha => ih answer (h.2 t answer ha)⟩

/-- One request after the other assures what each does. -/
theorem bind {x : Request α} {f : α → Request β} {Q : β → Memory → Prop}
    (h : Assures I x m fun a m' => Assures I (f a) m' Q) :
    Assures I (x >>= f : Request β) m Q := by
  show Assures I (Program.bind x (ExceptT.bindCont f)) m Q
  revert h
  -- the induction is on the tree of calls of the first request
  generalize (x : Program (Except RequestError α)) = p
  intro h
  induction p generalizing m with
  | done r =>
    cases r with
    | ok a => exact h.2
    | error e => exact h
  | guarded c next ih => exact ⟨h.1, fun t => ih _ (h.2 t)⟩
  | detached c next ih => exact ⟨h.1, fun t answer ha => ih answer (h.2 t answer ha)⟩

theorem pure {a : α} {Q : α → Memory → Prop} (hI : I m) (h : Q a m) :
    Assures I (Pure.pure a : Request α) m Q := ⟨hI, h⟩

theorem map {x : Request α} {f : α → β} {Q : β → Memory → Prop}
    (h : Assures I x m fun a m' => Q (f a) m') : Assures I (do return f (← x) : Request β) m Q :=
  .bind (h.mono fun _ _ hI hQ => .pure hI hQ)

theorem ofExcept {r : Except RequestError α} {Q : α → Memory → Prop} (hI : I m)
    (h : ∀ a, r = .ok a → Q a m) : Assures I (Request.ofExcept r) m Q := by
  cases r with
  | ok a => exact ⟨hI, h a rfl⟩
  | error e => exact hI

theorem accept {r : Except StoreError α} {Q : α → Memory → Prop} (hI : I m)
    (h : ∀ a, r = .ok a → Q a m) : Assures I (Request.accept r) m Q := by
  cases r with
  | ok a => exact ⟨hI, h a rfl⟩
  | error e => exact hI

theorem ask {c : Call} {Q : c.Answer → Memory → Prop} (hI : I m) (hkept : ∀ t, I (m.treat c t).2)
    (h : ∀ t answer, (m.treat c t).1 = .ok answer → Q answer (m.treat c t).2) :
    Assures I (Request.ask c) m Q := by
  refine ⟨hI, fun t => ?_⟩
  cases hanswer : (m.treat c t).1 with
  | ok answer => exact ⟨hkept t, h t answer hanswer⟩
  | error i => exact hkept t

/-- A call that only reads is answered truthfully or refused, and the memory stays as it is. -/
theorem read {c : Call} {Q : c.Answer → Memory → Prop} (hI : I m)
    (hc : ∀ pick, (m.perform pick c).2 = m) (htrue : ∀ pick, Q (m.perform pick c).1 m)
    (hrefused : ∀ fault, Q (c.refuse fault) m) : Assures I (Request.ask c) m Q := by
  have hsame := Memory.treat_snd_of_unchanged hc
  refine .ask hI (fun t => (hsame t).symm ▸ hI) fun t answer ha => ?_
  rw [hsame t]
  rcases m.treat_cases c t with ⟨pick, -, hout⟩ | ⟨-, hout⟩
  · rcases hout answer ha with rfl | ⟨fault, rfl⟩
    · exact htrue pick
    · exact hrefused fault
  · obtain ⟨fault, rfl⟩ := hout answer ha
    exact hrefused fault

end Assures

end Program

end Ipam
