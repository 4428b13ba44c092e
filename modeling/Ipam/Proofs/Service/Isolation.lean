import Ipam.Proofs.Course.Counting
import Ipam.Proofs.Service.Outcome
import Ipam.Proofs.Store.Request

/-!
# What a repository of a project does to others

A repository of a project changes and removes records of that project only, whatever it is asked
for. It does add records of others: a create is checked against the project that its request names
and against the network, not against the scope of the repository. Such a record is out of view of
the repository that made it (`Repository.session_isolated`).

A session is any number of operations that a repository makes one after the other over a store,
each of which may be given up on the way.
-/

namespace Ipam

open Program Request

namespace Repository

/-- The operations of a session, each with what was left of it in the end. -/
abbrev Work := List (Operation × Program (Except RequestError Response))

/-- The number of creates in a session. -/
def Work.creates (work : Work) : Nat := work.countP fun e => e.1.isCreate

/-- Whether a session has a create for a project. -/
def Work.CreatesFor (work : Work) (project : String) : Prop :=
  ∃ e ∈ work, e.1.newProject? = some project

/-- What a session of a repository makes of a store. -/
inductive Session (repo : Repository) : Store → Work → Store → Prop where
  /-- Nothing is asked for. -/
  | nil (s : Store) : Session repo s [] s
  /-- An operation is made, and then others. -/
  | cons {s t u : Store} {op : Operation} {rest : Program (Except RequestError Response)}
      {work : Work} (hrun : Runs s (op.request repo) t rest) (hwork : Session repo t work u) :
      Session repo s ((op, rest) :: work) u

variable {repo : Repository} {s t u : Store} {work : Work} {p : String}

theorem becomes_of_runs {op : Operation} {rest : Program (Except RequestError Response)}
    (h : Runs s (op.request repo) t rest) : s.Becomes repo op t :=
  ((op.ensures repo s).runs h).inv

/-- A repository of a project adds to the records of the others those that creates make for them,
and nothing else happens to those records. -/
theorem Session.foreign_eq (hscope : repo.scope = .project p) (h : repo.Session s work t) :
    ∃ added, t.foreign p = s.foreign p ++ added ∧
      ∀ r ∈ added, r.projectId ≠ p ∧ work.CreatesFor r.projectId := by
  induction h with
  | nil s => exact ⟨[], by simp⟩
  | cons hrun hwork ih =>
    rename_i op rest work
    obtain ⟨made, hmade, hnow⟩ := (becomes_of_runs hrun).foreign_eq hscope
    obtain ⟨added, hadded, hlater⟩ := ih
    -- what the first operation adds stays in front of what the others add
    refine ⟨made ++ added, by rw [hadded, hmade, List.append_assoc], fun r hr => ?_⟩
    rcases List.mem_append.1 hr with hr | hr
    · obtain ⟨hp, hfor⟩ := hnow r hr
      exact ⟨hp, (op, rest), List.mem_cons_self, hfor⟩
    · obtain ⟨hp, e, he, hfor⟩ := hlater r hr
      exact ⟨hp, e, List.mem_cons_of_mem _ he, hfor⟩

theorem Session.indexed (h : repo.Session s work t) (hs : s.Indexed)
    (hroom : s.nextId.toNat + work.creates < 2 ^ 64) :
    t.Indexed ∧ t.nextId.toNat ≤ s.nextId.toNat + work.creates := by
  induction h with
  | nil s => exact ⟨hs, Nat.le_add_right _ _⟩
  | cons hrun hwork ih =>
    rename_i s t u op rest work
    have hbecomes := becomes_of_runs hrun
    have hcreates : Work.creates ((op, rest) :: work) =
        work.creates + if op.isCreate then 1 else 0 := List.countP_cons
    rw [hcreates] at hroom ⊢
    have hnext : s.nextId.toNat ≤ t.nextId.toNat ∧
        t.nextId.toNat ≤ s.nextId.toNat + if op.isCreate then 1 else 0 := by
      rcases hbecomes.nextId_eq with he | ⟨he, stamp, req, rfl⟩
      · rw [he]
        omega
      · have hone : (if (Operation.create stamp req).isCreate then 1 else 0) = 1 := rfl
        rw [he, Store.toNat_succ (by omega)]
        omega
    obtain ⟨hindexed, hle⟩ :=
      ih (hbecomes.indexed hs (UInt64.le_iff_toNat_le.2 hnext.1)) (by omega)
    exact ⟨hindexed, by omega⟩

theorem append_of_create {stamp : Stamp} {req : Wire.CreateRequest} {r : Record}
    (h : Runs s ((Operation.create stamp req).request repo) t (.done (.ok (.record r)))) :
    r.projectId = req.project ∧ r.id = toString (s.nextId + 1).toNat ∧
      t.records = s.records ++ [r] := by
  obtain ⟨-, r', he, hproject, hid, ht⟩ := ((Operation.create stamp req).ensures repo s).runs h
  cases he
  exact ⟨hproject, hid, ht⟩

/-- Of the records of other projects, a repository of a project changes and removes none, and it adds
those that its creates make for the projects that their requests name. A record that a create
returns is of that project. If its id is new, the repository reads it back when the project is its
own, and has it not in view when it is another one. The id is new if ids were numbers up to the
counter at first and there is room for all creates. -/
theorem session_isolated (hscope : repo.scope = .project p) (h : repo.Session s work t) :
    (∃ added, t.foreign p = s.foreign p ++ added ∧
      ∀ r ∈ added, r.projectId ≠ p ∧ work.CreatesFor r.projectId) ∧
    ((∀ project, work.CreatesFor project → project = p) → t.foreign p = s.foreign p) ∧
    ∀ stamp req u r,
      Runs t ((Operation.create stamp req).request repo) u (.done (.ok (.record r))) →
        r.projectId = req.project ∧
        ((∀ o ∈ t.records, o.id ≠ r.id) → ∀ m picks, m.store = u →
          (repo.get r.id).serve (m, picks) =
            (if req.project = p then .ok r else .error (.notFound (Store.subject r.id)), m,
              picks.tail)) ∧
        (s.Indexed → s.nextId.toNat + work.creates + 1 < 2 ^ 64 → ∀ o ∈ t.records, o.id ≠ r.id) := by
  obtain ⟨added, hadded, hmade⟩ := h.foreign_eq hscope
  refine ⟨⟨added, hadded, hmade⟩, fun hown => ?_, fun stamp req u r hrun => ?_⟩
  · have hempty : added = [] := by
      refine List.eq_nil_iff_forall_not_mem.2 fun r hr => ?_
      obtain ⟨hp, hfor⟩ := hmade r hr
      exact hp (hown _ hfor)
    rw [hadded, hempty, List.append_nil]
  · obtain ⟨hproject, hid, hu⟩ := append_of_create hrun
    refine ⟨hproject, ?_, fun hs hroom => ?_⟩
    · rintro hnew m picks rfl
      have hfind := Store.find?_append_cons hu hnew
      have hadmits : repo.scope.admits r.projectId = decide (req.project = p) := by
        rw [hscope, hproject]
        exact decide_eq_decide.2 eq_comm
      rw [serve_get_of_find? repo hfind picks, hadmits]
      simp only [decide_eq_true_eq]
    · obtain ⟨hindexed, hle⟩ := h.indexed hs (by omega)
      have hcounts : t.nextId ≤ t.nextId + 1 := by
        rw [UInt64.le_iff_toNat_le, Store.toNat_succ (by omega)]
        omega
      intro o ho
      rw [hid]
      exact (hindexed.numbered o ho).ne_next hcounts

/-! ## Sessions in memory -/

/-- Operations are made one after the other, and their calls meet their fates in memory. -/
def attempts (repo : Repository) (m : Memory) : List (Operation × List Fate) → Work × Memory
  | [] => ([], m)
  | (op, fates) :: ops =>
    let r := (Course.start (op.request repo)).follow m fates
    let rest := repo.attempts r.2 ops
    ((op, r.1.rest) :: rest.1, rest.2)

theorem session_attempts (repo : Repository) (m : Memory) (ops : List (Operation × List Fate)) :
    repo.Session m.store (repo.attempts m ops).1 (repo.attempts m ops).2.store := by
  induction ops generalizing m with
  | nil => exact .nil m.store
  | cons e ops ih =>
    obtain ⟨op, fates⟩ := e
    exact .cons (runs_follow (Course.start (op.request repo)) m fates) (ih _)

/-- The record that a program has ended with. -/
def record? : Program (Except RequestError Response) → Option Record
  | .done (.ok (.record r)) => some r
  | _ => none

theorem eq_done_of_record? {rest : Program (Except RequestError Response)} {r : Record}
    (h : record? rest = some r) : rest = .done (.ok (.record r)) := by
  unfold record? at h
  split at h
  · cases h
    rfl
  · cases h

theorem runs_of_record? (repo : Repository) (m : Memory) (op : Operation) (fates : List Fate)
    {r : Record} (h : record? ((Course.start (op.request repo)).follow m fates).1.rest = some r) :
    Runs m.store (op.request repo) ((Course.start (op.request repo)).follow m fates).2.store
      (.done (.ok (.record r))) := by
  have hrun := runs_follow (Course.start (op.request repo)) m fates
  rw [eq_done_of_record? h] at hrun
  exact hrun

/-- A create of the project `prj` for an address that is free. -/
def freeCreate : Operation := .create Small.stamp { Small.createRequest with ip := some "10.0.0.2" }

/-- The record that it makes. -/
def freeRecord (id : String) : Record :=
  { Small.record with id := id, address := ⟨.v4, 0x0a000002, by decide⟩ }

/-- Operations of a repository that is not the one of `prj`. -/
def visits : List (Operation × List Fate) :=
  [freeCreate, .get "2", .update Small.stamp.now ⟨"1", "prj", some "a", none, none, none⟩,
    .delete "1"].map fun op => (op, List.replicate 4 (.served 0))

theorem session_isolated_visits :
    let other : Repository := ⟨.project "other", false⟩
    let own : Repository := ⟨.project "prj", false⟩
    let s := Small.memory.store
    let work := (other.attempts Small.memory visits).1
    let t := (other.attempts Small.memory visits).2.store
    (other.scope = .project "other" ∧ other.Session s work t ∧
      (∃ added, t.foreign "other" = s.foreign "other" ++ added ∧
        ∀ r ∈ added, r.projectId ≠ "other" ∧ work.CreatesFor r.projectId) ∧
      t.foreign "other" = [Small.record, freeRecord "2"]) ∧
    (own.scope = .project "prj" ∧ own.Session s [] s ∧ ∃ m : Memory,
      Runs s (freeCreate.request own) m.store (.done (.ok (.record (freeRecord "2")))) ∧
      (∀ o ∈ s.records, o.id ≠ (freeRecord "2").id) ∧
      (own.get (freeRecord "2").id).serve (m, fun _ => 0) = (.ok (freeRecord "2"), m, fun _ => 0)) := by
  intro other own s work t
  have hwork : other.Session s work t := session_attempts other Small.memory visits
  have hnil : own.Session s [] s := .nil s
  have hrun := runs_of_record? own Small.memory freeCreate (List.replicate 4 (.served 0))
    (r := freeRecord "2") (by decide +kernel)
  have hnew : ∀ o ∈ s.records, o.id ≠ (freeRecord "2").id := by decide
  refine ⟨⟨rfl, hwork, (session_isolated rfl hwork).1, by decide +kernel⟩, rfl, hnil, _, hrun, hnew, ?_⟩
  obtain ⟨-, hread, -⟩ := (session_isolated rfl hnil).2.2 _ _ _ _ hrun
  exact hread hnew _ (fun _ => 0) rfl

/-- A repository of another project makes a record for `prj`. That adds to the records that are not
its own, and it then reports that there is no such record. Where the counter is behind an id, the
repository of `prj` reads the older record of that id in place of the one it has made. -/
theorem create_out_of_view :
    (let repo : Repository := ⟨.project "other", false⟩
    let m := Small.memory
    (m.store.records.map Record.id).Nodup ∧ ∃ r m',
      repo.Session m.store [(freeCreate, .done (.ok (.record r)))] m'.store ∧
        ¬ (m'.store.foreign "other").Perm (m.store.foreign "other") ∧
        ((repo.get r.id).serve (m', fun _ => 0)).1 = .error (.notFound (Store.subject r.id))) ∧
    (let repo : Repository := ⟨.project "prj", false⟩
    let m := { Small.memory with store := ⟨0, [Small.record]⟩ }
    (m.store.records.map Record.id).Nodup ∧ ∃ r m',
      repo.Session m.store [(freeCreate, .done (.ok (.record r)))] m'.store ∧
        ((repo.get r.id).serve (m', fun _ => 0)).1 = .ok Small.record ∧ Small.record ≠ r) := by
  have hother := runs_of_record? ⟨.project "other", false⟩ Small.memory freeCreate
    (List.replicate 4 (.served 0)) (r := freeRecord "2") (by decide +kernel)
  have hown := runs_of_record? ⟨.project "prj", false⟩
    { Small.memory with store := ⟨0, [Small.record]⟩ } freeCreate
    (List.replicate 4 (.served 0)) (r := freeRecord "1") (by decide +kernel)
  refine ⟨⟨by decide, _, _, .cons hother (.nil _), ?_, ?_⟩,
    ⟨by decide, _, _, .cons hown (.nil _), ?_, ?_⟩⟩
  · decide +kernel
  · decide +kernel
  · decide +kernel
  · decide +kernel

end Repository

end Ipam
