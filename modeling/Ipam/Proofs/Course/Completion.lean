import Ipam.Proofs.Course.Fate

/-!
# Programs whose calls are served

A program whose calls are all served comes to its end. `Program.Completes` says with which result,
after which calls, and what it leaves; what is known of the parts of a request gives what is known
of the whole (`Program.Completes.bind_ok`, `Program.Completes.bind_error`). So a delete is followed
call by call, whether or not the pair of its record is held.
-/

namespace Ipam

open Program

/-- A pair that is given back is not held any more, whether or not it was, and this counts as a
success either way. -/
theorem Memory.perform_release (m : Memory) (pick : Nat) (a : Addr) (p : Prefix) :
    ∃ answer back pool, m.perform pick (releaseCall a p) = (answer, { m with pool := pool }) ∧
      readRelease answer = .ok back ∧ ∀ x, x ∈ pool.held ↔ x ≠ (p, a) ∧ x ∈ m.pool.held := by
  rcases m.pool.release_eq a p with ⟨-, he⟩ | ⟨hn, detail, he⟩
  · refine ⟨.ok (), .released, m.pool.drop p a, ?_, rfl, fun x => ?_⟩
    · simp only [releaseCall, perform, he]
    · rw [Pool.drop_held, OrderedSet.mem_erase]
  · refine ⟨.error ⟨.notFound, detail⟩, .alreadyAbsent, m.pool, ?_, rfl, fun x => ?_⟩
    · simp only [releaseCall, perform, he]
    · exact ⟨fun hx => ⟨fun hxa => hn (hxa ▸ hx), hx⟩, fun hx => hx.2⟩

theorem Course.follow_done {α : Type} (a : α) (trace : Trace) (m : Memory) (fates : List Fate) :
    (⟨.done a, trace⟩ : Course α).follow m fates = (⟨.done a, trace⟩, m) := by
  induction fates with
  | nil => rfl
  | cons fate fates ih => exact ih

/-- A program whose calls are served comes to its end: it has a result then, has made some calls and
has left a memory, and what comes next goes on from there. -/
structure Program.Completes {α : Type} (p : Program α) (m : Memory) (picks : List Nat) (a : α)
    (trace : Trace) (m' : Memory) : Prop where
  goes_on : ∀ {β : Type} (f : α → Program β) (before : Trace) (fates : List Fate),
    (⟨p >>= f, before⟩ : Course β).follow m (picks.map .served ++ fates) =
      (⟨f a, before ++ trace⟩ : Course β).follow m' fates

namespace Program.Completes

variable {α β : Type} {m m₁ m₂ : Memory} {picks picks' : List Nat} {trace trace' : Trace}

theorem follow {p : Program α} {a : α} (h : p.Completes m picks a trace m₁) (fates : List Fate) :
    (Course.start p).follow m (picks.map .served ++ fates) = (⟨.done a, trace⟩, m₁) := by
  have hdone := h.goes_on .done [] fates
  rw [Program.bind_done, Course.follow_done] at hdone
  exact hdone

theorem done (a : α) (m : Memory) : (Program.done a).Completes m [] a [] m where
  goes_on f before fates := by
    rw [List.append_nil]
    rfl

theorem bind {p : Program α} {f : α → Program β} {a : α} {b : β}
    (hp : p.Completes m picks a trace m₁) (hf : (f a).Completes m₁ picks' b trace' m₂) :
    (p >>= f).Completes m (picks ++ picks') b (trace ++ trace') m₂ where
  goes_on g before fates := by
    rw [Program.bind_assoc, List.map_append, List.append_assoc, hp.goes_on, hf.goes_on,
      List.append_assoc]

theorem ask {c : Call} {pick : Nat} {answer : c.Answer} (hc : m.perform pick c = (answer, m₁)) :
    Completes (Request.ask c) m [pick] (.ok answer) [(c, .served pick)] m₁ where
  goes_on f before fates := by
    have ha : answer = (m.perform pick c).1 := by rw [hc]
    have hm : m₁ = (m.perform pick c).2 := by rw [hc]
    rw [ha, hm]
    rfl

theorem bind_ok {x : Request α} {f : α → Request β} {a : α} {b : Except RequestError β}
    (hx : Completes x m picks (.ok a) trace m₁) (hf : Completes (f a) m₁ picks' b trace' m₂) :
    Completes (x >>= f : Request β) m (picks ++ picks') b (trace ++ trace') m₂ :=
  bind (f := ExceptT.bindCont f) hx hf

theorem bind_error {x : Request α} {f : α → Request β} {e : RequestError}
    (hx : Completes x m picks (.error e) trace m₁) :
    Completes (x >>= f : Request β) m picks (.error e) trace m₁ := by
  have h := bind (f := ExceptT.bindCont f) hx (done (Except.error e) m₁)
  rw [List.append_nil, List.append_nil] at h
  exact h

theorem map {x : Request α} {f : α → β} {out : Except RequestError α}
    (hx : Completes x m picks out trace m₁) :
    Completes (do return f (← x) : Request β) m picks (out.map f) trace m₁ := by
  cases out with
  | error e => exact bind_error hx
  | ok a =>
    have h := bind_ok (f := fun a => (pure (f a) : Request β)) hx (done (Except.ok (f a)) m₁)
    rw [List.append_nil, List.append_nil] at h
    exact h

end Program.Completes

namespace Repository

variable {m : Memory} {r : Record}

open Program.Completes in
/-- A delete of a record in view reads it, gives its pair back and removes it. -/
theorem delete_completes (repo : Repository) (hids : (m.store.records.map Record.id).Nodup)
    (hr : r ∈ m.store.records) (ha : repo.scope.admits r.projectId = true) (k₁ k₂ k₃ : Nat) :
    ∃ pool l₁ l₂, m.store.records = l₁ ++ r :: l₂ ∧
      (∀ x, x ∈ pool.held ↔ x ≠ r.slot ∧ x ∈ m.pool.held) ∧
      Completes (repo.delete r.id) m [k₁, k₂, k₃] (.ok r) [(.storeGet r.id, .served k₁),
          (releaseCall r.address r.parentPrefix, .served k₂), (.storeDelete r, .served k₃)]
        { m with pool := pool, store := ⟨m.store.nextId, l₁ ++ l₂⟩ } := by
  obtain ⟨l₁, l₂, hl, hd⟩ := Store.delete_of_mem hids hr
  obtain ⟨answer, back, pool, hrelease, hback, hheld⟩ :=
    m.perform_release k₂ r.address r.parentPrefix
  have hget : m.perform k₁ (.storeGet r.id) = (.ok r, m) := by
    simp only [Memory.perform, Store.get, (Store.find?_eq_some_iff hids).2 ⟨hr, rfl⟩]
  have hdelete : Memory.perform { m with pool := pool } k₃ (.storeDelete r) =
      (.ok (), { m with pool := pool, store := ⟨m.store.nextId, l₁ ++ l₂⟩ }) := by
    simp only [Memory.perform, hd]
  have hview : Completes (if repo.scope.admits r.projectId then pure r
      else throw (.notFound (Store.subject r.id)) : Request Record) m [] (.ok r) [] m := by
    rw [if_pos ha]
    exact done _ m
  have hread : Completes (repo.get r.id) m [k₁] (.ok r) [(.storeGet r.id, .served k₁)] m :=
    bind_ok (ask hget) (bind_ok (done _ m) hview)
  have hgive : Completes (release r.address r.parentPrefix) m [k₂] (.ok back)
      [(releaseCall r.address r.parentPrefix, .served k₂)] { m with pool := pool } := by
    refine bind_ok (ask hrelease) ?_
    rw [hback]
    exact done _ _
  refine ⟨pool, l₁, l₂, hl, hheld, ?_⟩
  exact bind_ok hread (bind_ok hgive (bind_ok (ask hdelete) (bind_ok (done _ _) (done _ _))))

theorem delete_completes_of_absent (repo : Repository) {id : String}
    (hnone : ∀ o ∈ m.store.records, o.id ≠ id) (k : Nat) :
    Completes (repo.delete id) m [k] (.error (.notFound (Store.subject id)))
      [(.storeGet id, .served k)] m := by
  have hget : m.perform k (.storeGet id) = (.error (.notFound (Store.subject id)), m) := by
    simp only [Memory.perform, Store.get, Store.find?_eq_none_iff.2 hnone]
  have hread : Completes (repo.get id) m [k] (.error (.notFound (Store.subject id)))
      [(.storeGet id, .served k)] m :=
    .bind_ok (.ask hget) (.bind_error (.done _ m))
  exact hread.bind_error

end Repository

end Ipam
