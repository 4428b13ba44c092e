import Ipam.Proofs.Course.System

/-!
# Deletes among other requests

A delete reads its record first and acts on it later, when others may have changed the store. What
it has read stays true in part: the id is never given to another record, so a record with that id
still has the pair that was read, and if there is none, some delete of that id has removed it
(`System.Reads`). `System.Sound` collects this with the store being well formed and with what the
deletes have done so far; every move keeps it, whatever becomes of the calls.
-/

namespace Ipam

/-- The record that a delete at a stage has read. -/
def Stage.loaded? : Stage → Option Record
  | .found r => some r
  | .returned r => some r
  | _ => none

@[simp] theorem Stage.first_loaded? (op : Operation) : (first op).loaded? = none := by
  cases op <;> rfl

/-- Only a delete that has read its record makes a call that gives its address back. -/
theorem Turn.found_of_release {repo : Repository} {m m' : Memory} {op : Operation} {id : String}
    {st st' : Stage} {c : Call} {fate : Fate} (h : Turn repo m op st c fate m' st')
    (hop : op = .delete id) (hc : ∃ req, c = .release req) : ∃ r, st = .found r := by
  obtain ⟨req, rfl⟩ := hc
  cases h with
  | read hread => rcases hread with ⟨_, rfl⟩ | ⟨_, rfl⟩ <;> cases hop
  | look htakes => cases htakes
  | fail _ htakes => cases htakes
  | seek _ htakes => cases htakes
  | release r => exact ⟨r, rfl⟩
  | absent r => exact ⟨r, rfl⟩
  | stay r => exact ⟨r, rfl⟩
  | _ => cases hop

/-- A delete reads a record only from the store. -/
theorem Turn.loaded_cases {repo : Repository} {m m' : Memory} {op : Operation} {st st' : Stage}
    {c : Call} {fate : Fate} {r : Record} (h : Turn repo m op st c fate m' st')
    (hr : st'.loaded? = some r) :
    st.loaded? = some r ∨
      st = .seeking ∧ m' = m ∧ r ∈ m.store.records ∧ op = .delete r.id ∧ c.takesAway = false := by
  cases h with
  | seek o hc hmem hid =>
    cases hr
    exact .inr ⟨rfl, rfl, hmem, by rw [hid], hc⟩
  | release o ho ht hst =>
    rcases hst with rfl | ⟨rfl, -⟩
    · exact .inl hr
    · cases hr
  | absent o => exact .inl hr
  | take x hc hx hs hh hst => rcases hst with rfl | ⟨rfl, -⟩ <;> cases hr
  | record o hfree hst => rcases hst with rfl | ⟨rfl, -⟩ <;> cases hr
  | revise new old l₁ l₂ hnew hl hst => rcases hst with rfl | ⟨rfl, -⟩ <;> cases hr
  | remove o p l₁ l₂ hl hid ht hst => rcases hst with rfl | ⟨rfl, -⟩ <;> cases hr
  | _ => cases hr

/-- A delete that has just read its record has made no other call. -/
theorem Turn.seeking_of_found {repo : Repository} {m m' : Memory} {op : Operation}
    {st st' : Stage} {c : Call} {fate : Fate} (h : Turn repo m op st c fate m' st')
    (hst : st' = .seeking ∨ ∃ r, st' = .found r) : st = .seeking ∧ c.takesAway = false := by
  cases h with
  | seek r hc => exact ⟨rfl, hc⟩
  | take x hc hx hs hh h => rcases h with rfl | ⟨rfl, -⟩ <;> simp at hst
  | record r hfree h => rcases h with rfl | ⟨rfl, -⟩ <;> simp at hst
  | revise new old l₁ l₂ hnew hl h => rcases h with rfl | ⟨rfl, -⟩ <;> simp at hst
  | release r hr ht h => rcases h with rfl | ⟨rfl, -⟩ <;> simp at hst
  | remove r o l₁ l₂ hl hid ht h => rcases h with rfl | ⟨rfl, -⟩ <;> simp at hst
  | _ => simp at hst

namespace System

open Stage

variable {s s' : System} {σ σ' : Nat → Stage} {mv : Move}

/-- What a request has done stays done. -/
theorem Next.exists_task {P : Operation → Trace → Prop}
    (hP : ∀ op trace e, P op trace → P op (trace ++ [e])) (hn : s.Next σ mv s' σ')
    (h : ∃ t ∈ s.tasks, P t.operation t.course.trace) :
    ∃ t ∈ s'.tasks, P t.operation t.course.trace := by
  obtain ⟨t, ht, hp⟩ := h
  cases hn with
  | start repo op => exact ⟨t, List.mem_append_left _ ht, hp⟩
  | idle mv => exact ⟨t, ht, hp⟩
  | call rest hi hover hturn =>
    rename_i i fate u c m st
    obtain ⟨j, hj⟩ := List.mem_iff_getElem?.1 ht
    have hlt := (List.getElem?_eq_some_iff.1 hi).1
    by_cases hij : i = j
    · subst hij
      rw [hi] at hj
      cases hj
      exact ⟨_, List.mem_set hlt _, hP _ _ _ hp⟩
    · refine ⟨t, List.mem_iff_getElem?.2 ⟨j, ?_⟩, hp⟩
      rw [List.getElem?_set_ne hij]
      exact hj

theorem Next.released (hn : s.Next σ mv s' σ') {id : String} (h : s.Released id) :
    s'.Released id :=
  hn.exists_task (P := fun op trace => op = .delete id ∧ trace.Releases)
    (fun _ _ _ h => ⟨h.1, Trace.releases_append.2 (.inl h.2)⟩) h

theorem Next.removed (hn : s.Next σ mv s' σ') {id : String} (h : s.Removed id) : s'.Removed id :=
  hn.exists_task (P := fun op trace => op = .delete id ∧ trace.Removes)
    (fun _ _ _ h => ⟨h.1, Trace.removes_append.2 (.inl h.2)⟩) h

/-- A delete whose call to give its address back takes effect has given it back. -/
theorem released_set {i : Nat} {t : Task} {m : Memory} {rest : Program (Except RequestError Response)}
    {c : Call} {fate : Fate} {id : String} (hi : s.tasks[i]? = some t)
    (hop : t.operation = .delete id) (hc : ∃ req, c = .release req) (ht : fate.takesEffect = true) :
    Released ⟨m, s.tasks.set i ⟨t.repository, t.operation, ⟨rest, t.course.trace ++ [(c, fate)]⟩⟩⟩
      id :=
  ⟨_, List.mem_set (List.getElem?_eq_some_iff.1 hi).1 _, hop, Trace.releases_append.2 (.inr ⟨hc, ht⟩)⟩

/-- A delete whose call to remove its record takes effect has removed it. -/
theorem removed_set {i : Nat} {t : Task} {m : Memory} {rest : Program (Except RequestError Response)}
    {c : Call} {fate : Fate} {id : String} (hi : s.tasks[i]? = some t)
    (hop : t.operation = .delete id) (hc : ∃ r, c = .storeDelete r) (ht : fate.takesEffect = true) :
    Removed ⟨m, s.tasks.set i ⟨t.repository, t.operation, ⟨rest, t.course.trace ++ [(c, fate)]⟩⟩⟩
      id :=
  ⟨_, List.mem_set (List.getElem?_eq_some_iff.1 hi).1 _, hop, Trace.removes_append.2 (.inr ⟨hc, ht⟩)⟩

/-- An address is given back only by a delete that has read its record. -/
theorem Next.released_cases (hn : s.Next σ mv s' σ') {id : String} (h : s'.Released id) :
    s.Released id ∨ ∃ i t r fate, mv = .call i fate ∧ s.tasks[i]? = some t ∧
      t.operation = .delete id ∧ σ i = .found r := by
  obtain ⟨t, ht, hop, hr⟩ := h
  obtain ⟨j, hj⟩ := List.mem_iff_getElem?.1 ht
  cases hn with
  | start repo op =>
    rcases getElem?_concat_cases hj with ⟨-, rfl⟩ | ⟨-, hj⟩
    · obtain ⟨req, fate, hmem, -⟩ := hr
      cases hmem
    · exact .inl ⟨t, List.mem_of_getElem? hj, hop, hr⟩
  | idle mv => exact .inl ⟨t, ht, hop, hr⟩
  | call rest hi hover hturn =>
    rename_i i fate u c m st
    rcases getElem?_set_cases hi hj with ⟨rfl, rfl⟩ | ⟨-, hj⟩
    · rcases Trace.releases_append.1 hr with hr | ⟨hc, -⟩
      · exact .inl ⟨u, List.mem_of_getElem? hi, hop, hr⟩
      · obtain ⟨r, hst⟩ := hturn.found_of_release hop hc
        exact .inr ⟨_, u, r, _, rfl, hi, hop, hst⟩
    · exact .inl ⟨t, List.mem_of_getElem? hj, hop, hr⟩

/-! ## What a delete has read -/

/-- What stays true of a record that was read. -/
structure Reads (s : System) (r : Record) : Prop where
  /-- Its id is not given again. -/
  numbered : s.memory.store.Numbers r.id
  /-- A record with its id has its pair. -/
  pair : ∀ x, (r.id, x) ∈ s.memory.store.entries → x = r.slot
  /-- It is there, or a delete has removed it. -/
  kept : (∃ x, (r.id, x) ∈ s.memory.store.entries) ∨ s.Removed r.id

/-- What holds of a system whatever becomes of the calls. -/
structure Sound (s : System) (σ : Nat → Stage) : Prop where
  /-- The store is well formed. -/
  wellFormed : s.memory.store.WellFormed
  /-- A delete has read the record that it is to delete. -/
  target : ∀ i t r, s.tasks[i]? = some t → (σ i).loaded? = some r → t.operation = .delete r.id
  /-- What a delete has read stays true in part. -/
  reads : ∀ i r, (σ i).loaded? = some r → s.Reads r
  /-- A delete gives nothing back and removes nothing before it has read its record. -/
  early : ∀ i t, s.tasks[i]? = some t → (σ i = .seeking ∨ ∃ r, σ i = .found r) →
    ¬ t.course.trace.Releases ∧ ¬ t.course.trace.Removes
  /-- The id of a record whose address was given back is not given again. -/
  released : ∀ id, s.Released id → s.memory.store.Numbers id

theorem reads_of_mem (h : s.memory.store.WellFormed) {r : Record} (hr : r ∈ s.memory.store.records) :
    s.Reads r where
  numbered := h.numbered r hr
  pair := fun _ hx => h.slot_eq hx (Store.mem_entries_of_mem hr)
  kept := .inl ⟨_, Store.mem_entries_of_mem hr⟩

theorem sound_start {m : Memory} (h : m.store.WellFormed) : (start m).Sound fun _ => .ended where
  wellFormed := h
  target := by
    intro i t r ht
    cases ht
  reads := by
    intro i r hr
    cases hr
  early := by
    intro i t ht
    cases ht
  released := by
    rintro id ⟨t, ht, -⟩
    cases ht

theorem Next.wellFormed (hn : s.Next σ mv s' σ') (h : s.memory.store.WellFormed)
    (hc : s.memory.store.nextId ≤ s'.memory.store.nextId) : s'.memory.store.WellFormed := by
  cases hn with
  | start repo op => exact h
  | idle mv => exact h
  | call rest hi hover hturn =>
    rcases hturn.store_cases with ⟨hnext, he⟩ | ⟨r, -, hfree, he⟩ | ⟨r, o, l₁, l₂, -, -, -, -, hl, he⟩
    · exact h.congr hnext he
    · rw [he] at hc ⊢
      exact h.append hfree hc
    · rw [he]
      exact h.remove hl

/-- What was read stays true in part. -/
theorem Reads.next {r : Record} (h : s.Reads r) (hs : s.Sound σ) (hn : s.Next σ mv s' σ')
    (hc : s.memory.store.nextId ≤ s'.memory.store.nextId) : s'.Reads r where
  numbered := h.numbered.mono hc
  pair := by
    intro x hx
    cases hn with
    | start repo op => exact h.pair x hx
    | idle mv => exact h.pair x hx
    | call rest hi hover hturn =>
      rcases hturn.store_cases with ⟨-, he⟩ | ⟨o, -, -, he⟩ | ⟨o, p, l₁, l₂, -, -, -, -, hl, he⟩
      · exact h.pair x (he ▸ hx)
      · rw [he] at hx hc
        rw [Store.entries_append] at hx
        rcases List.mem_append.1 hx with hx | hx
        · exact h.pair x hx
        · have hid := congrArg Prod.fst (List.mem_singleton.1 hx)
          exact absurd hid (h.numbered.ne_next hc)
      · rw [he] at hx
        exact h.pair x ((Store.mem_entries_remove hl).2 (.inr hx))
  kept := by
    rcases h.kept with ⟨x, hx⟩ | hr
    · cases hn with
      | start repo op => exact .inl ⟨x, hx⟩
      | idle mv => exact .inl ⟨x, hx⟩
      | call rest hi hover hturn =>
        rename_i i fate t c m st
        rcases hturn.store_cases with
          ⟨-, he⟩ | ⟨o, -, -, he⟩ | ⟨o, p, l₁, l₂, hst, hcall, ht, hid, hl, he⟩
        · exact .inl ⟨x, he.symm ▸ hx⟩
        · refine .inl ⟨x, ?_⟩
          rw [he, Store.entries_append]
          exact List.mem_append_left _ hx
        · rw [Store.mem_entries_remove (n := s.memory.store.nextId) hl] at hx
          rcases hx with hx | hx
          · have hop := hs.target i t o hi (by rw [hst]; rfl)
            have hro : r.id = o.id := (congrArg Prod.fst hx).trans hid
            rw [hro]
            exact .inr (removed_set hi hop ⟨o, hcall⟩ ht)
          · exact .inl ⟨x, he.symm ▸ hx⟩
    · exact .inr (hn.removed hr)

/-- Every move keeps a system sound. -/
theorem Sound.next (h : s.Sound σ) (hn : s.Next σ mv s' σ')
    (hc : s.memory.store.nextId ≤ s'.memory.store.nextId) : s'.Sound σ' where
  wellFormed := hn.wellFormed h.wellFormed hc
  target := by
    intro j u r hu hr
    cases hn with
    | start repo op =>
      rcases getElem?_concat_cases hu with ⟨rfl, rfl⟩ | ⟨hj, hu⟩
      · rw [Function.update_self, first_loaded?] at hr
        cases hr
      · rw [Function.update_of_ne hj] at hr
        exact h.target j u r hu hr
    | idle mv => exact h.target j u r hu hr
    | call rest hi hover hturn =>
      rcases getElem?_set_cases hi hu with ⟨rfl, rfl⟩ | ⟨hj, hu⟩
      · rw [Function.update_self] at hr
        rcases hturn.loaded_cases hr with hr | ⟨-, -, -, hop, -⟩
        · have hop := h.target j _ r hi hr
          exact hop
        · exact hop
      · rw [Function.update_of_ne hj] at hr
        exact h.target j u r hu hr
  reads := by
    intro j r hr
    by_cases hj : (σ j).loaded? = some r
    · exact (h.reads j r hj).next h hn hc
    · cases hn with
      | start repo op =>
        by_cases hlen : j = s.tasks.length
        · rw [hlen, Function.update_self, first_loaded?] at hr
          cases hr
        · rw [Function.update_of_ne hlen] at hr
          exact absurd hr hj
      | idle mv => exact absurd hr hj
      | call rest hi hover hturn =>
        rename_i i fate t c m st
        by_cases hij : j = i
        · subst hij
          rw [Function.update_self] at hr
          rcases hturn.loaded_cases hr with hr | ⟨-, rfl, hmem, -, -⟩
          · exact absurd hr hj
          · apply reads_of_mem
            · exact h.wellFormed
            · exact hmem
        · rw [Function.update_of_ne hij] at hr
          exact absurd hr hj
  early := by
    intro j u hu hst
    cases hn with
    | start repo op =>
      rcases getElem?_concat_cases hu with ⟨-, rfl⟩ | ⟨hj, hu⟩
      · constructor
        · rintro ⟨req, fate, hmem, -⟩
          cases hmem
        · rintro ⟨r, fate, hmem, -⟩
          cases hmem
      · rw [Function.update_of_ne hj] at hst
        exact h.early j u hu hst
    | idle mv => exact h.early j u hu hst
    | call rest hi hover hturn =>
      rcases getElem?_set_cases hi hu with ⟨rfl, rfl⟩ | ⟨hj, hu⟩
      · rw [Function.update_self] at hst
        obtain ⟨hseek, hc⟩ := hturn.seeking_of_found hst
        obtain ⟨hr, hd⟩ := h.early j _ hi (.inl hseek)
        exact ⟨Trace.not_releases_append _ hr hc, Trace.not_removes_append _ hd hc⟩
      · rw [Function.update_of_ne hj] at hst
        exact h.early j u hu hst
  released := by
    intro id hid
    rcases hn.released_cases hid with hid | ⟨i, t, r, fate, -, ht, hop, hst⟩
    · exact (h.released id hid).mono hc
    · have hr : (σ i).loaded? = some r := by
        rw [hst]
        rfl
      have := h.target i t r ht hr
      rw [hop] at this
      cases this
      exact (h.reads i r hr).numbered.mono hc

end System

end Ipam
