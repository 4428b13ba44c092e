import Ipam.Proofs.Course.Counting
import Ipam.Proofs.Course.Overlap
import Ipam.Proofs.Course.Version

/-!
# Updates among other requests

An update reads a record and puts a revised one in its place, in two calls, and others may come in
between. None is lost: an update that succeeds has revised the last version of its record, and one
that comes too late is refused and told so (`System.no_lost_update`).
-/

namespace Ipam

/-! ## Updates that come too late -/

/-- A request that the store refuses to replace a record for ends with that refusal. -/
def Program.Yields {α : Type} : Program (Except RequestError α) → Prop
  | .guarded (.storeUpdate _ _) next => ∀ e, next (.ok (.error e)) = .done (.error (.ofStore e))
  | _ => True

open Program in
/-- One request after the other yields if each does. -/
theorem Request.yields_bind {α β : Type} {x : Request α} {f : α → Request β}
    (hx : Program.Throughout Yields x) (hf : ∀ a, Program.Throughout Yields (f a)) :
    Program.Throughout Yields (x >>= f : Request β) := by
  refine throughout_bind (fun _ => trivial) ?_ (fun _ _ => trivial) hx hf
  intro _ _ c next f hp
  cases c with
  | storeUpdate new old =>
    intro e
    show (next (.ok (.error e))).bind (ExceptT.bindCont f) = _
    rw [hp e]
    rfl
  | _ => trivial

open Program in
theorem Operation.yields_of_update (repo : Repository) (now : Instant) (req : Wire.UpdateRequest) :
    Program.Throughout Yields ((update now req).request repo) := by
  have hget : Program.Throughout Yields (repo.get req.ip) := by
    refine Request.yields_bind ⟨trivial, fun _ => trivial⟩ fun answer => ?_
    refine Request.yields_bind trivial fun r => ?_
    split <;> trivial
  refine Request.yields_bind (Request.yields_bind hget fun old => ?_) fun r => trivial
  refine Request.yields_bind trivial fun new => ⟨fun e => rfl, ?_⟩
  rintro (i | e | u) <;> trivial

namespace System

theorem throughout_run {P : Program (Except RequestError Response) → Prop} {C : Operation → Prop}
    (hP : ∀ repo op, C op → Program.Throughout P (op.request repo)) {s : System}
    (h : ∀ t ∈ s.tasks, C t.operation → t.course.rest.Throughout P) (moves : List Move) :
    ∀ t ∈ (s.run moves).tasks, C t.operation → t.course.rest.Throughout P := by
  induction moves generalizing s with
  | nil => exact h
  | cons mv moves ih =>
    refine ih fun t ht hC => ?_
    cases mv with
    | start repo op =>
      rcases List.mem_append.1 ht with ht | ht
      · exact h t ht hC
      · rw [List.mem_singleton.1 ht] at hC ⊢
        exact hP repo op hC
    | call i fate =>
      cases hi : s.tasks[i]? with
      | none =>
        simp only [apply, hi] at ht
        exact h t ht hC
      | some u =>
        simp only [apply, hi] at ht
        rcases List.mem_or_eq_of_mem_set ht with ht | rfl
        · exact h t ht hC
        · exact Course.throughout_advance (h u (List.mem_of_getElem? hi) hC) s.memory fate

theorem yields_run (m : Memory) (moves : List Move) {i : Nat} {t : Task} {now : Instant}
    {req : Wire.UpdateRequest} (ht : ((start m).run moves).tasks[i]? = some t)
    (hop : t.operation = .update now req) : t.course.rest.Throughout Program.Yields := by
  have hnone : ∀ t ∈ (start m).tasks, (∃ now req, t.operation = .update now req) →
      t.course.rest.Throughout Program.Yields := by
    intro t ht
    cases ht
  refine throughout_run (C := fun op => ∃ now req, op = .update now req) ?_ hnone moves t
    (List.mem_of_getElem? ht) ⟨now, req, hop⟩
  rintro repo op ⟨now, req, rfl⟩
  exact Operation.yields_of_update repo now req

/-- An update that is about to store a record has read one with the id of its request. -/
theorem Chronicle.id_of_storeUpdate {m : Memory} {s : System} {σ : Nat → Stage} {log : Log}
    (h : Chronicle m s σ log) (hs : s.Staged σ) {i : Nat} {t : Task} {now : Instant}
    {req : Wire.UpdateRequest} {new old : Record}
    {next : Except Interruption (Call.storeUpdate new old).Answer →
      Program (Except RequestError Response)} (ht : s.tasks[i]? = some t)
    (hop : t.operation = .update now req) (hrest : t.course.rest = .guarded (.storeUpdate new old) next) :
    old.id = req.ip := by
  have hl := hs.leads i t ht
  rw [hrest] at hl
  obtain ⟨st', hg, -⟩ := hl (.error .canceled)
  obtain ⟨hst, -⟩ := hg.revising_of_storeUpdate
  have hlogged := h.logged i t ht
  rw [hst, hop] at hlogged
  obtain ⟨-, _, _, ⟨⟩, hid⟩ := hlogged
  exact hid

/-- An update whose record the store does not hold any more as it was read ends with the refusal of
the store, and it leaves the memory as it is. -/
theorem refused_update {s : System} {i : Nat} {t : Task} {new old : Record}
    {next : Except Interruption (Call.storeUpdate new old).Answer →
      Program (Except RequestError Response)} {e : StoreError} (ht : s.tasks[i]? = some t)
    (hrest : t.course.rest = .guarded (.storeUpdate new old) next)
    (hyields : t.course.rest.Throughout Program.Yields)
    (he : s.memory.store.update new old = (.error e, s.memory.store)) (pick : Nat) :
    let s' := s.apply (.call i (.served pick))
    s'.memory = s.memory ∧
      ∃ u, s'.tasks[i]? = some u ∧ u.course.rest = .done (.error (.ofStore e)) := by
  have hmeet : s.memory.meet (.storeUpdate new old) (.served pick) = (.ok (.error e), s.memory) := by
    simp only [Memory.meet, Memory.perform, he]
  rw [hrest] at hyields
  have hadvance : t.course.advance s.memory (.served pick) =
      (⟨.done (.error (.ofStore e)), t.course.trace ++ [(.storeUpdate new old, .served pick)]⟩,
        s.memory) := by
    unfold Course.advance
    rw [hrest]
    dsimp only
    rw [hmeet, hyields.self e]
  have happly : s.apply (.call i (.served pick)) = ⟨s.memory, s.tasks.set i
      ⟨t.repository, t.operation, ⟨.done (.error (.ofStore e)),
        t.course.trace ++ [(.storeUpdate new old, .served pick)]⟩⟩⟩ := by
    simp only [apply, ht, hadvance]
  rw [happly]
  exact ⟨rfl, _, List.getElem?_set_self (List.getElem?_eq_some_iff.1 ht).1, rfl⟩

/-! ## Records that are gone -/

theorem gone_run {s : System} {σ : Nat → Stage} (hs : s.Staged σ) {id : String}
    (hid : s.memory.store.Numbers id) (hgone : ∀ r ∈ s.memory.store.records, r.id ≠ id)
    {moves : List Move} (hc : s.Along KeepsCounting moves) :
    ∀ r ∈ (s.run moves).memory.store.records, r.id ≠ id := by
  have hnone : ∀ x, (id, x) ∉ s.memory.store.entries := by
    intro x hx
    obtain ⟨r, hr, he, -⟩ := Store.mem_entries.1 hx
    exact hgone r hr he
  obtain ⟨σ', -, -, hnone⟩ := run_keeps
    (P := fun s _ => s.memory.store.Numbers id ∧ ∀ x, (id, x) ∉ s.memory.store.entries)
    (fun s σ mv s' σ' hC _ ⟨hid, hnone⟩ he hn _ => by
      subst he
      exact ⟨hid.mono hC, hn.not_mem_entries hC hid hnone⟩) hs ⟨hid, hnone⟩ hc
  rintro r hr rfl
  exact hnone _ (Store.mem_entries_of_mem hr)

/-! ## No update is lost -/

/-- Requests work on one store in any order, and any call may fail or be given up. The record in the
store is the last of its versions. Each version but the first is made by one update, from the one
before it. An update that succeeds has made one version, and the one before that is the one that it
has read. An update that finds another version when it stores its own, or none, is refused, and
changes nothing. A record that is gone does not come back. -/
theorem no_lost_update {m : Memory} (hm : m.store.Indexed) {moves : List Move}
    (hroom : m.store.nextId.toNat + moves.countP Move.isCreate < 2 ^ 64) :
    let s := (start m).run moves
    let log := (start m).log moves
    ((∀ id, (m.versions log id).IsChain (s.Revises log)) ∧
      ∀ r ∈ s.memory.store.records, ((m.versions log r.id).map Version.record).getLast? = some r) ∧
    (∀ i t now req response, s.tasks[i]? = some t → t.operation = .update now req →
      t.course.rest = .done (.ok response) → ∃ v new, response = .record new ∧
        s.Revises log v ⟨some i, new⟩ ∧ [v, ⟨some i, new⟩] <:+: m.versions log req.ip) ∧
    (∀ i t now req new old next pick, s.tasks[i]? = some t → t.operation = .update now req →
      t.course.rest = .guarded (.storeUpdate new old) next →
      let s' := s.apply (.call i (.served pick))
      let endsWith (e : RequestError) : Prop := s'.memory = s.memory ∧
        ∃ u, s'.tasks[i]? = some u ∧ u.course.rest = .done (.error e)
      (∀ r ∈ s.memory.store.records, r.id = req.ip → r ≠ old →
        endsWith (.conflict (.modified (Store.subject req.ip)))) ∧
      ((∀ r ∈ s.memory.store.records, r.id ≠ req.ip) →
        endsWith (.notFound (Store.subject req.ip)))) ∧
    ∀ before between after id, moves = before ++ between ++ after →
      (∃ r ∈ ((start m).run before).memory.store.records, r.id = id) →
      (∀ r ∈ ((start m).run (before ++ between)).memory.store.records, r.id ≠ id) →
      ∀ r ∈ s.memory.store.records, r.id ≠ id := by
  intro s log
  have hcount : (start m).Along KeepsCounting moves := along_keepsCounting hroom
  obtain ⟨σ, hs, h⟩ := (chronicle_start hm).run (staged_start m) hcount
  rw [List.nil_append] at h
  refine ⟨⟨h.chain, ?_⟩, ?_, ?_, ?_⟩
  · intro r hr
    obtain ⟨vs, v, hv, rfl⟩ := h.last r hr
    rw [hv]
    simp
  · intro i t now req response ht hop hrest
    have hl := hs.leads i t ht
    rw [hrest] at hl
    have hst : σ i = .complete response := hl
    obtain ⟨v, new, hresponse, -, hlink⟩ := h.updated i t now req response ht hop hst
    refine ⟨v, new, hresponse, ?_, hlink⟩
    have hchain := List.IsChain.infix (h.chain req.ip) hlink
    simpa using hchain
  · intro i t now req new old next pick ht hop hrest s' endsWith
    have hyields := yields_run m moves ht hop
    have hid := h.id_of_storeUpdate hs ht hop hrest
    rw [← hid]
    constructor
    · intro r hr hrid hne
      have hf := (Store.find?_eq_some_iff h.indexed.ids_nodup).2 ⟨hr, hrid⟩
      exact refused_update ht hrest hyields (Store.update_of_changed hf hne) pick
    · intro hgone
      have hf := Store.find?_eq_none_iff.2 hgone
      exact refused_update ht hrest hyields (Store.update_of_absent hf) pick
  · rintro before between after id rfl ⟨r, hr, rfl⟩ hgone
    obtain ⟨hbefore, hafter⟩ := along_append.1 hcount
    obtain ⟨hbefore, hbetween⟩ := along_append.1 hbefore
    obtain ⟨σ₁, hs₁, h₁⟩ := (chronicle_start hm).run (staged_start m) hbefore
    obtain ⟨σ₂, hs₂, hid⟩ := run_keeps (P := fun s _ => s.memory.store.Numbers r.id)
      (fun s σ mv s' σ' hC _ hid he hn _ => by
        subst he
        exact hid.mono hC) hs₁ (h₁.indexed.numbered r hr) hbetween
    rw [← run_append] at hs₂ hid
    show ∀ o ∈ ((start m).run (before ++ between ++ after)).memory.store.records, o.id ≠ r.id
    rw [run_append]
    exact gone_run hs₂ hid hgone hafter

/-- Two updates read the same record, and the second one stores its own first. Then a third one
does, the answer to which is lost. -/
def race : List Move :=
  let repo : Repository := ⟨.unscoped, false⟩
  let update (name : String) : Move :=
    .start repo (.update Small.stamp.now ⟨"1", "prj", some name, none, none, none⟩)
  [update "a", update "b", update "c", .call 0 (.served 0), .call 1 (.served 0), .call 1 (.served 0),
    .call 0 (.served 0), .call 2 (.served 0), .call 2 (.orphaned 0 .canceled)]

theorem race_versions :
    Small.memory.store.Indexed ∧
    Small.memory.store.nextId.toNat + race.countP Move.isCreate < 2 ^ 64 ∧
    (let log := (start Small.memory).log race;
      (Small.memory.versions log "1").map (fun v => (v.writer, v.record.name)) =
        [(none, ""), (some 1, "b"), (some 2, "c")] ∧
      (Small.memory.versions log "1").IsChain (((start Small.memory).run race).Revises log)) := by
  have hm := Small.wellFormed_memory.indexed
  have hroom : Small.memory.store.nextId.toNat + race.countP Move.isCreate < 2 ^ 64 := by decide
  exact ⟨hm, hroom, by decide +kernel, (no_lost_update hm hroom).1.1 "1"⟩

end System

end Ipam
