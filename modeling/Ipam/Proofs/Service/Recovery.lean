import Ipam.Proofs.Course.Completion
import Ipam.Proofs.Service.Outcome
import Ipam.Proofs.Store.Request

/-!
# Deletion after faults

Requests that fail or are given up on the way leave pairs that are held without a record and records
whose pair is not held. Whatever the address service has left behind (`Service.aftermath`), the store
is well formed and every record is of a project that can name itself (`Store.Kept`). So each record
can be removed by its project: its pair is given back if it is held, and nothing else changes
(`Service.delete_recovers`).
-/

namespace Ipam

open Program Request

/-! ## What requests of the service do to the store -/

/-- A store that is well formed and has no record of a project without a name. -/
structure Store.Kept (s : Store) : Prop where
  wellFormed : s.WellFormed
  project_ne : ∀ r ∈ s.records, r.projectId ≠ ""

/-- What may become of a store in a request of the address service. -/
def Store.Changes (s t : Store) : Prop :=
  ∃ repo op, s.Becomes repo op t ∧ op.newProject? ≠ some ""

namespace Store

theorem Changes.refl (s : Store) : s.Changes s :=
  ⟨⟨.unscoped, false⟩, .get "", .same _, nofun⟩

theorem kept_empty : Kept ∅ where
  wellFormed := wellFormed_empty
  project_ne := by
    intro r hr
    cases hr

theorem Kept.changes {s t : Store} (h : s.Kept) (ht : s.Changes t) (hc : s.nextId ≤ t.nextId) :
    t.Kept := by
  obtain ⟨repo, op, hbecomes, hnamed⟩ := ht
  refine ⟨hbecomes.wellFormed h.wellFormed hc, fun r hr => ?_⟩
  rcases hbecomes.projectId_cases hr with ⟨o, ho, he⟩ | he
  · rw [he]
    exact h.project_ne o ho
  · intro hempty
    rw [he, hempty] at hnamed
    exact hnamed rfl

end Store

namespace Service

variable {I : Store → Prop} {s : Store}

theorem scoped_ensures {α : Type} {svc : Service} {project : String} {body : Repository → Request α}
    {Q : α → Store → Prop} (hI : I s)
    (h : ∀ repo : Repository, project ≠ "" → Ensures I (body repo) s Q) :
    Ensures I (svc.repository project >>= body : Request α) s Q := by
  refine .bind (.bind (.ofExcept hI fun scope hscope => .pure hI (h _ ?_)))
  rintro rfl
  cases hscope

/-- Wherever a request of the address service comes to, the store is what may become of it. -/
theorem request_ensures (svc : Service) (ask : Ask) (s : Store) :
    Ensures s.Changes (svc.request ask) s fun _ _ => True := by
  have hrefl := Store.Changes.refl s
  cases ask with
  | get req =>
    refine .map (scoped_ensures hrefl fun repo _ => .map ?_)
    exact Repository.get_ensures hrefl fun _ _ _ => trivial
  | list req =>
    refine .map (scoped_ensures hrefl fun repo _ => .bind (.ofExcept hrefl fun q _ => .map ?_))
    exact Repository.list_ensures hrefl fun _ => trivial
  | create stamp req =>
    refine .map (scoped_ensures hrefl fun repo hproject => .map ?_)
    refine Repository.create_ensures hrefl fun r hr hfree => ⟨?_, trivial⟩
    exact ⟨repo, .create stamp req, .added hr hfree, fun h => hproject (Option.some.inj h)⟩
  | update now req =>
    refine .map (scoped_ensures hrefl fun repo _ => .map ?_)
    refine Repository.update_ensures hrefl fun old new l₁ l₂ hl _ ha hrev => ⟨?_, trivial⟩
    exact ⟨repo, .update now req, .changed hl ha hrev, nofun⟩
  | delete req =>
    refine .map (scoped_ensures hrefl fun repo _ => .map ?_)
    refine Repository.delete_ensures hrefl fun r l₁ l₂ hl _ ha => ⟨?_, trivial⟩
    exact ⟨repo, .delete req.ip, .removed hl ha, nofun⟩

/-! ## What requests leave behind -/

/-- A request is made, and its calls meet their fates in memory. -/
def attempt (svc : Service) (m : Memory) (ask : Ask) (fates : List Fate) :
    Course (Except RequestError Answer) × Memory :=
  (Course.start (svc.request ask)).follow m fates

/-- The memory after requests that are made one after the other. -/
def aftermath (svc : Service) (m : Memory) : List (Ask × List Fate) → Memory
  | [] => m
  | (ask, fates) :: history => svc.aftermath (svc.attempt m ask fates).2 history

/-- The counter of the store does not start again on the way. -/
def CountsUp (svc : Service) (m : Memory) : List (Ask × List Fate) → Prop
  | [] => True
  | (ask, fates) :: history =>
    m.store.nextId ≤ (svc.attempt m ask fates).2.store.nextId ∧
      svc.CountsUp (svc.attempt m ask fates).2 history

instance CountsUp.decidable (svc : Service) (m : Memory) :
    (history : List (Ask × List Fate)) → Decidable (svc.CountsUp m history)
  | [] => .isTrue trivial
  | (ask, fates) :: history =>
    have := CountsUp.decidable svc (svc.attempt m ask fates).2 history
    inferInstanceAs (Decidable (_ ∧ _))

theorem attempt_changes (svc : Service) (m : Memory) (ask : Ask) (fates : List Fate) :
    m.store.Changes (svc.attempt m ask fates).2.store :=
  ((svc.request_ensures ask m.store).runs
    (runs_follow (Course.start (svc.request ask)) m fates)).inv

theorem kept_aftermath {svc : Service} {m : Memory} (h : m.store.Kept)
    {history : List (Ask × List Fate)} (hcount : svc.CountsUp m history) :
    (svc.aftermath m history).store.Kept := by
  induction history generalizing m with
  | nil => exact h
  | cons e history ih =>
    obtain ⟨ask, fates⟩ := e
    exact ih (h.changes (svc.attempt_changes m ask fates) hcount.1) hcount.2

end Service

/-! ## Deletes whose calls are served -/

namespace Service

variable {m m₁ : Memory} {svc : Service} {picks : List Nat} {trace : Trace}

theorem delete_completes {req : Wire.RecordRequest} (hp : req.project ≠ "")
    {out : Except RequestError Record}
    (h : Completes (Repository.delete ⟨.project req.project, svc.releaseOnRefusal⟩ req.ip) m picks
      out trace m₁) :
    Completes (svc.request (.delete req)) m picks ((out.map Record.toWire).map .record) trace m₁ := by
  have hrepo : Completes (svc.repository req.project) m []
      (.ok ⟨.project req.project, svc.releaseOnRefusal⟩) [] m := by
    rw [svc.repository_eq hp]
    exact .done _ m
  exact .map (.bind_ok hrepo h.map)

theorem attempt_of_completes {ask : Ask} {out : Except RequestError Answer}
    (h : Completes (svc.request ask) m picks out trace m₁) (more : List Nat) :
    svc.attempt m ask ((picks ++ more).map .served) = (⟨.done out, trace⟩, m₁) := by
  rw [List.map_append]
  exact h.follow _

/-- Whatever requests have left behind, a record can be removed by its project if the calls of the
delete are served, be its pair held or not. The record is gone then and so is its pair, and no other
record has either; the other records and the other pairs are as before. A second delete finds no
such record, and it gives nothing back. -/
theorem delete_recovers (svc : Service) (c : Catalog) {history : List (Ask × List Fate)}
    (hcount : svc.CountsUp ⟨c, ∅, ∅⟩ history) {r : Record}
    (hr : r ∈ (svc.aftermath ⟨c, ∅, ∅⟩ history).store.records) {picks again : List Nat}
    (hpicks : 3 ≤ picks.length) (hagain : 1 ≤ again.length) :
    let m := svc.aftermath ⟨c, ∅, ∅⟩ history
    let first := svc.attempt m (.delete ⟨r.id, r.projectId⟩) (picks.map .served)
    let second := svc.attempt first.2 (.delete ⟨r.id, r.projectId⟩) (again.map .served)
    first.1.rest = .done (.ok (.record r.toWire)) ∧
    (∃ l₁ l₂, m.store.records = l₁ ++ r :: l₂ ∧ first.2.store = ⟨m.store.nextId, l₁ ++ l₂⟩) ∧
    (∀ o ∈ first.2.store.records, o.id ≠ r.id ∧ o.slot ≠ r.slot) ∧
    (∀ x, x ∈ first.2.pool.held ↔ x ≠ r.slot ∧ x ∈ m.pool.held) ∧
    first.2.catalog = m.catalog ∧
    second.1.rest = .done (.error (.notFound (Store.subject r.id))) ∧ second.2 = first.2 ∧
    ∀ req fate, (Call.release req, fate) ∉ second.1.trace := by
  intro m first second
  have hkept : m.store.Kept := kept_aftermath Store.kept_empty hcount
  have hproject : r.projectId ≠ "" := hkept.project_ne r hr
  obtain ⟨k₁, k₂, k₃, more, rfl⟩ : ∃ k₁ k₂ k₃ more, picks = [k₁, k₂, k₃] ++ more := by
    match picks, hpicks with
    | k₁ :: k₂ :: k₃ :: more, _ => exact ⟨k₁, k₂, k₃, more, rfl⟩
  obtain ⟨k, rest, rfl⟩ : ∃ k rest, again = [k] ++ rest := by
    match again, hagain with
    | k :: rest, _ => exact ⟨k, rest, rfl⟩
  let repo : Repository := ⟨.project r.projectId, svc.releaseOnRefusal⟩
  obtain ⟨pool, l₁, l₂, hl, hheld, hdelete⟩ :=
    repo.delete_completes hkept.wellFormed.ids_nodup hr (decide_eq_true rfl) k₁ k₂ k₃
  have hfirst : first = _ := attempt_of_completes (delete_completes hproject hdelete) more
  have hids : ∀ o ∈ l₁ ++ l₂, o.id ≠ r.id := fun o ho =>
    Store.key_ne_of_mem hkept.wellFormed.ids_nodup hl ho
  have hslots : ∀ o ∈ l₁ ++ l₂, o.slot ≠ r.slot := fun o ho =>
    Store.key_ne_of_mem hkept.wellFormed.slots_nodup hl ho
  have habsent : ∀ o ∈ first.2.store.records, o.id ≠ r.id := by
    rw [hfirst]
    exact hids
  have hsecond : second = _ := attempt_of_completes
    (delete_completes hproject (repo.delete_completes_of_absent habsent k)) rest
  refine ⟨?_, ⟨l₁, l₂, hl, ?_⟩, ?_, ?_, ?_, ?_, ?_, ?_⟩
  · rw [hfirst]
    rfl
  · rw [hfirst]
  · intro o ho
    rw [hfirst] at ho
    exact ⟨hids o ho, hslots o ho⟩
  · rw [hfirst]
    exact hheld
  · rw [hfirst]
  · rw [hsecond]
    rfl
  · rw [hsecond]
  · intro req fate hmem
    rw [hsecond, List.mem_singleton] at hmem
    cases hmem

/-- The store refuses the second record, the answer to the third create is lost, and so is the answer
of the allocator when the first address is given back. -/
def faults : List (Ask × List Fate) :=
  let create (ip : String) : Ask := .create Small.stamp { Small.createRequest with ip := some ip }
  let fault : Fault := ⟨.backend "down", ⟨.unavailable, "down"⟩⟩
  let found : List Fate := List.replicate 3 (.served 0)
  [(create "10.0.0.1", found ++ [.served 0]), (create "10.0.0.2", found ++ [.failed fault]),
    (create "10.0.0.3", found ++ [.orphaned 0 .canceled]),
    (.delete ⟨"1", "prj"⟩, [.served 0, .orphaned 0 .canceled])]

theorem delete_recovers_faults :
    let svc : Service := ⟨false⟩
    let r := Small.record
    let m := svc.aftermath ⟨Small.memory.catalog, ∅, ∅⟩ faults
    let first := svc.attempt m (.delete ⟨r.id, r.projectId⟩) ([0, 0, 0].map .served)
    svc.CountsUp ⟨Small.memory.catalog, ∅, ∅⟩ faults ∧ r ∈ m.store.records ∧
      3 ≤ [0, 0, 0].length ∧ 1 ≤ [0].length ∧
      (m.store.records.map Record.id = ["1", "2"] ∧ r.slot ∉ m.pool.held) ∧
      first.1.rest = .done (.ok (.record r.toWire)) ∧
      (∀ o ∈ first.2.store.records, o.id ≠ r.id ∧ o.slot ≠ r.slot) ∧
      ∀ x, x ∈ first.2.pool.held ↔ x ≠ r.slot ∧ x ∈ m.pool.held := by
  have hcount : CountsUp ⟨false⟩ ⟨Small.memory.catalog, ∅, ∅⟩ faults := by decide +kernel
  have hr : Small.record ∈ (aftermath ⟨false⟩ ⟨Small.memory.catalog, ∅, ∅⟩ faults).store.records := by
    decide +kernel
  have hpicks : 3 ≤ [0, 0, 0].length := by decide
  have hagain : 1 ≤ [0].length := by decide
  obtain ⟨hrest, -, hgone, hheld, -⟩ :=
    delete_recovers ⟨false⟩ Small.memory.catalog hcount hr hpicks hagain
  exact ⟨hcount, hr, hpicks, hagain, by decide +kernel, hrest, hgone, hheld⟩

end Service

end Ipam
