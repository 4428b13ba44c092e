import Ipam.Proofs.Store.WellFormed

/-!
# The records of one project

A store keeps the records of all projects in one list. What is done to a record of one project is
done in the same way where the store has no other records (`Store.ofProject`), and it leaves the
records of the other projects alone (`Store.foreign`).
-/

namespace Ipam

/-- Whether a record is one of a project. -/
def Record.isOf (r : Record) (p : String) : Bool := decide (r.projectId = p)

@[simp] theorem Record.isOf_iff {r : Record} {p : String} : r.isOf p = true ↔ r.projectId = p :=
  decide_eq_true_iff

namespace Store

/-- The records of a project, in the order in which they were made. -/
def own (s : Store) (p : String) : List Record := s.records.filter fun r => r.isOf p

/-- The records of all other projects, in the order in which they were made. -/
def foreign (s : Store) (p : String) : List Record := s.records.filter fun r => !r.isOf p

/-- A store with the records of one project only. -/
def ofProject (s : Store) (p : String) : Store := ⟨0, s.own p⟩

variable {s : Store} {p : String} {r old new : Record} {l₁ l₂ : List Record}

theorem mem_own : r ∈ s.own p ↔ r ∈ s.records ∧ r.projectId = p := by
  simp [own]

theorem ids_nodup_own (h : (s.records.map Record.id).Nodup) : ((s.own p).map Record.id).Nodup :=
  h.sublist (List.filter_sublist.map _)

/-- A query for records of a project does not see others. -/
theorem list_ofProject (s : Store) (q : Query) (p : String) :
    (s.ofProject p).list (q.within (.project p)) = s.list (q.within (.project p)) := by
  show (s.records.filter _).filter _ = s.records.filter _
  rw [List.filter_filter]
  refine List.filter_congr fun r _ => ?_
  cases ha : (q.within (.project p)).admits r with
  | false => rfl
  | true =>
    have hp : r.projectId = p := by
      simp only [Query.admits, Query.within, Scope.projectId?, Query.meets, Bool.and_eq_true,
        decide_eq_true_eq] at ha
      obtain ⟨⟨⟨⟨⟨⟨⟨⟨⟨-, -⟩, hp⟩, -⟩, -⟩, -⟩, -⟩, -⟩, -⟩, -⟩ := ha
      exact hp.symm
    simp [Record.isOf, hp]

theorem foreign_append (n : UInt64) (hl : s.records = l₁) :
    foreign ⟨n, l₁ ++ [r]⟩ p = s.foreign p ++ if r.projectId = p then [] else [r] := by
  subst hl
  by_cases hp : r.projectId = p <;> simp [foreign, Record.isOf, hp]

theorem foreign_replace (n : UInt64) (hl : s.records = l₁ ++ old :: l₂) (hold : old.projectId = p)
    (hnew : new.projectId = p) : foreign ⟨n, l₁ ++ new :: l₂⟩ p = s.foreign p := by
  simp [foreign, Record.isOf, hl, hold, hnew]

theorem foreign_remove (n : UInt64) (hl : s.records = l₁ ++ r :: l₂) (hr : r.projectId = p) :
    foreign ⟨n, l₁ ++ l₂⟩ p = s.foreign p := by
  simp [foreign, Record.isOf, hl, hr]

/-- An update of a record of a project does the same where the store has no other records. -/
theorem update_ofProject (h : (s.records.map Record.id).Nodup) (hold : old ∈ s.own p)
    (hnew : new.projectId = p) (hid : new.id = old.id) :
    ∃ t, s.update new old = (.ok (), t) ∧
      (s.ofProject p).update new old = (.ok (), t.ofProject p) ∧ t.foreign p = s.foreign p ∧
      (t.records.map Record.id).Nodup := by
  obtain ⟨hmem, hp⟩ := mem_own.1 hold
  obtain ⟨l₁, l₂, hl, -, hne⟩ := exists_append_of_find? ((find?_eq_some_iff h).2 ⟨hmem, rfl⟩)
  have hown : (s.ofProject p).records = l₁.filter (fun r => r.isOf p) ++
      old :: l₂.filter (fun r => r.isOf p) := by
    simp [ofProject, own, Record.isOf, hl, hp]
  have hsmall := update_append_cons hown (fun o ho => hne o (List.mem_filter.1 ho).1) new
  refine ⟨_, update_append_cons hl hne new, ?_, foreign_replace _ hl hp hnew, ?_⟩
  · rw [hsmall]
    simp [ofProject, own, Record.isOf, hnew]
  · rw [hl] at h
    simpa [hid] using h

theorem delete_ofProject (h : (s.records.map Record.id).Nodup) (hr : r ∈ s.own p) :
    ∃ t, s.delete r = (.ok (), t) ∧ (s.ofProject p).delete r = (.ok (), t.ofProject p) ∧
      t.foreign p = s.foreign p ∧ (t.records.map Record.id).Nodup := by
  obtain ⟨hmem, hp⟩ := mem_own.1 hr
  obtain ⟨l₁, l₂, hl, -, hne⟩ := exists_append_of_find? ((find?_eq_some_iff h).2 ⟨hmem, rfl⟩)
  have hown : (s.ofProject p).records = l₁.filter (fun r => r.isOf p) ++
      r :: l₂.filter (fun r => r.isOf p) := by
    simp [ofProject, own, Record.isOf, hl, hp]
  have hsmall := delete_append_cons hown fun o ho => hne o (List.mem_filter.1 ho).1
  refine ⟨_, delete_append_cons hl hne, ?_, foreign_remove _ hl hp, ?_⟩
  · rw [hsmall]
    simp [ofProject, own]
  · exact h.sublist ((sublist_remove hl).map _)

end Store

end Ipam
