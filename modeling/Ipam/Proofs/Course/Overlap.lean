import Ipam.Proofs.Course.Ownership

/-!
# Deletes of one record

A delete reads its record, gives the address back and removes the record, in three calls. Where two
deletes of a record overlap, the second may act on what it has read after the first is done, and by
then the address may belong to a new record.

That takes an overlap: a delete gives back the pair of another record only after another delete of
its own record has removed that (`System.removed_of_gives_other`). Where all calls are served and
no pair is given back that another delete of the record has given back before, as where the deletes
of each record come one after the other, all records are backed when no request is under way.
-/

namespace Ipam

/-- A delete whose call to give its address back is served goes on to remove the record. -/
theorem Turn.returned_of_found {repo : Repository} {m m' : Memory} {op : Operation} {r : Record}
    {st st' : Stage} {c : Call} {fate : Fate} (h : Turn repo m op st c fate m' st')
    (hst : st = .found r) (hf : fate.isServed = true) : st' = .returned r := by
  subst hst
  cases h with
  | release _ hr ht hafter =>
    rcases hafter with rfl | ⟨-, hn⟩
    · rfl
    · rw [hf] at hn
      cases hn
  | absent => rfl
  | stay _ hn =>
    rw [hf] at hn
    cases hn
  | fail hidle => exact hidle.elim

/-- A delete comes to remove its record by a call that gives the address back. -/
theorem Turn.release_of_returned {repo : Repository} {m m' : Memory} {op : Operation} {r : Record}
    {st st' : Stage} {c : Call} {fate : Fate} (h : Turn repo m op st c fate m' st')
    (hst : st' = .returned r) (hf : fate.isServed = true) :
    (∃ req, c = .release req) ∧ fate.takesEffect = true := by
  have ht := Fate.takesEffect_of_isServed hf
  cases h with
  | release => exact ⟨⟨_, rfl⟩, ht⟩
  | absent => exact ⟨⟨_, rfl⟩, ht⟩
  | take x hc hx hs hh h => rcases h with rfl | ⟨rfl, -⟩ <;> cases hst
  | record r hfree h => rcases h with rfl | ⟨rfl, -⟩ <;> cases hst
  | revise new old l₁ l₂ hnew hl h => rcases h with rfl | ⟨rfl, -⟩ <;> cases hst
  | remove r o l₁ l₂ hl hid ht h => rcases h with rfl | ⟨rfl, -⟩ <;> cases hst
  | _ => cases hst

/-- Only a delete that has given its address back makes a call that removes its record. -/
theorem Turn.returned_of_storeDelete {repo : Repository} {m m' : Memory} {op : Operation}
    {id : String} {st st' : Stage} {c : Call} {fate : Fate} (h : Turn repo m op st c fate m' st')
    (hop : op = .delete id) (hc : ∃ r, c = .storeDelete r) : ∃ r, st = .returned r := by
  obtain ⟨r, rfl⟩ := hc
  cases h with
  | read hread => rcases hread with ⟨_, rfl⟩ | ⟨_, rfl⟩ <;> cases hop
  | look htakes => cases htakes
  | fail _ htakes => cases htakes
  | seek _ htakes => cases htakes
  | remove r => exact ⟨_, rfl⟩
  | gone r => exact ⟨_, rfl⟩
  | _ => cases hop

/-- No record is left with the id of one whose removal was served. -/
theorem Turn.removes_of_returned {repo : Repository} {m m' : Memory} {op : Operation} {r : Record}
    {st st' : Stage} {c : Call} {fate : Fate} (h : Turn repo m op st c fate m' st')
    (hm : m.store.WellFormed) (hst : st = .returned r) (hf : fate.isServed = true) :
    ∀ x, (r.id, x) ∉ m'.store.entries := by
  subst hst
  cases h with
  | remove _ o l₁ l₂ hl hid =>
    rw [← hid]
    exact hm.not_mem_remove hl
  | gone _ hr =>
    intro x hx
    obtain ⟨o, ho, hid, -⟩ := Store.mem_entries.1 hx
    exact hr (Fate.takesEffect_of_isServed hf) o ho hid
  | fail hidle => exact hidle.elim

/-- A request that is over has left the stages of a delete. -/
theorem Leads.not_isDeleting {t : Task} {st : Stage}
    (h : Leads t.repository t.operation t.course.rest st fun response st => st = .complete response)
    (ho : t.course.IsOver) : ¬ st.IsDeleting := by
  obtain ⟨r, hr⟩ := ho
  rw [hr] at h
  cases r with
  | ok response =>
    have hst : st = .complete response := h
    rw [hst]
    exact id
  | error e =>
    have hst : st.MayFail := h
    intro hd
    cases st with
    | seeking => exact hst
    | found r => exact hst
    | returned r => exact hst
    | _ => exact hd

/-- A delete that has read its record is about to give the pair back. -/
theorem Leads.givesBack_of_found {t : Task} {r : Record}
    (h : Leads t.repository t.operation t.course.rest (.found r)
      fun response st => st = .complete response)
    (hop : t.operation = .delete r.id) : t.GivesBack r.id r.slot := by
  refine ⟨hop, ?_⟩
  cases hrest : t.course.rest with
  | done a =>
    rw [hrest] at h
    cases a with
    | ok response => cases h
    | error e => exact h.elim
  | guarded c next =>
    rw [hrest] at h
    obtain ⟨st', hg, -⟩ := h (.error .canceled)
    cases hg.eq_releaseCall_of_found
    exact ⟨next, rfl⟩
  | detached c next =>
    rw [hrest] at h
    obtain ⟨⟨x, hx⟩, -⟩ := h
    cases hx

namespace System

open Stage

variable {s s' : System} {σ σ' : Nat → Stage} {mv : Move}

/-- Of the deletes of a record all but the last are over. -/
def InTurn (s : System) : Prop :=
  ∀ (i j : Nat) (t u : Task) id, i < j → s.tasks[i]? = some t → s.tasks[j]? = some u →
    t.operation = .delete id → u.operation = .delete id → t.course.IsOver

theorem InTurn.next (h : s.InTurn) (hn : s.Next σ mv s' σ') (hd : s.DeletesApart mv) :
    s'.InTurn := by
  intro i j t u id hij ht hu hopt hopu
  -- The earlier of the two deletes was there before the move.
  obtain ⟨v, hv, hopv⟩ : ∃ v, s.tasks[i]? = some v ∧ v.operation = t.operation := by
    rcases hn.task_cases ht with ⟨-, -, -, rfl, -⟩ | hv
    · rcases hn.task_cases hu with ⟨-, -, -, rfl, -⟩ | ⟨w, hw, -⟩
      · omega
      · have := (List.getElem?_eq_some_iff.1 hw).1
        omega
    · exact hv
  have hover : v.course.IsOver := by
    rcases hn.task_cases hu with ⟨repo, op, rfl, -, rfl⟩ | ⟨w, hw, hopw⟩
    · exact hd id (Operation.target?_eq_some.2 hopu) v (List.mem_of_getElem? hv) (hopv.trans hopt)
    · exact h i j v w id hij hv hw (hopv.trans hopt) (hopw.trans hopu)
  have := hn.getElem?_of_isOver hv hover
  rw [ht] at this
  cases this
  exact hover

theorem InTurn.noRivals (h : s.InTurn) (hst : s.Staged σ) : s.NoRivals σ := by
  intro i j t u id ht hu hopt hopu hi hj
  rcases Nat.lt_trichotomy i j with hij | hij | hij
  · exact absurd hi ((hst.leads i t ht).not_isDeleting (h i j t u id hij ht hu hopt hopu))
  · exact hij
  · exact absurd hj ((hst.leads j u hu).not_isDeleting (h j i u t id hij hu ht hopu hopt))

/-- A delete that has given an address back is about to remove the record, or the record is gone. -/
def Finishes (s : System) (σ : Nat → Stage) : Prop :=
  ∀ (i : Nat) (t : Task) id, s.tasks[i]? = some t → t.operation = .delete id →
    t.course.trace.Releases →
    (∃ r, σ i = .returned r) ∨ ∀ x, (id, x) ∉ s.memory.store.entries

/-- A record that is gone does not come back. -/
theorem Next.not_mem_entries (hn : s.Next σ mv s' σ')
    (hc : s.memory.store.nextId ≤ s'.memory.store.nextId) {id : String}
    (hid : s.memory.store.Numbers id) (h : ∀ x, (id, x) ∉ s.memory.store.entries) :
    ∀ x, (id, x) ∉ s'.memory.store.entries := by
  intro x hx
  cases hn with
  | start repo op => exact h x hx
  | idle mv => exact h x hx
  | call rest hi hover hturn =>
    rcases hturn.store_cases with ⟨-, he⟩ | ⟨r, -, -, he⟩ | ⟨r, o, l₁, l₂, -, -, -, -, hl, he⟩
    · rw [he] at hx
      exact h x hx
    · rw [he] at hx hc
      rw [Store.entries_append] at hx
      rcases List.mem_append.1 hx with hx | hx
      · exact h x hx
      · exact hid.ne_next hc (congrArg Prod.fst (List.mem_singleton.1 hx))
    · rw [he] at hx
      exact h x ((Store.mem_entries_remove hl).2 (.inr hx))

theorem Finishes.next (h : s.Finishes σ) (hs : s.Sound σ) (hn : s.Next σ mv s' σ')
    (hc : s.memory.store.nextId ≤ s'.memory.store.nextId) (hserved : mv.isServed = true) :
    s'.Finishes σ' := by
  intro j u id hu hop hr
  by_cases hold : ∃ v, s.tasks[j]? = some v ∧ v.operation = .delete id ∧ v.course.trace.Releases
  · obtain ⟨v, hv, hopv, hrv⟩ := hold
    rcases h j v id hv hopv hrv with ⟨r, hst⟩ | hnone
    · cases hn with
      | start repo op =>
        refine .inl ⟨r, ?_⟩
        rw [Function.update_of_ne (Nat.ne_of_lt (List.getElem?_eq_some_iff.1 hv).1)]
        exact hst
      | idle mv => exact .inl ⟨r, hst⟩
      | call rest hi hover hturn =>
        rename_i i fate t c m st
        by_cases hji : j = i
        · subst hji
          rw [hi] at hv
          cases hv
          have hid := hs.target j _ r hi (by rw [hst]; rfl)
          rw [hopv] at hid
          cases hid
          exact .inr (hturn.removes_of_returned hs.wellFormed hst hserved)
        · refine .inl ⟨r, ?_⟩
          rw [Function.update_of_ne hji]
          exact hst
    · exact .inr (hn.not_mem_entries hc (hs.released id ⟨v, List.mem_of_getElem? hv, hopv, hrv⟩) hnone)
  · cases hn with
    | start repo op =>
      rcases getElem?_concat_cases hu with ⟨-, rfl⟩ | ⟨-, hu⟩
      · obtain ⟨req, fate, hmem, -⟩ := hr
        cases hmem
      · exact absurd ⟨u, hu, hop, hr⟩ hold
    | idle mv => exact absurd ⟨u, hu, hop, hr⟩ hold
    | call rest hi hover hturn =>
      rename_i i fate t c m st
      rcases getElem?_set_cases hi hu with ⟨rfl, rfl⟩ | ⟨-, hu⟩
      · rcases Trace.releases_append.1 hr with hr | ⟨hcall, -⟩
        · exact absurd ⟨_, hi, hop, hr⟩ hold
        · obtain ⟨r, hst⟩ := hturn.found_of_release hop hcall
          rw [Function.update_self]
          exact .inl ⟨r, hturn.returned_of_found hst hserved⟩
      · exact absurd ⟨u, hu, hop, hr⟩ hold

/-- A delete removes its record only after it has given the address back. -/
def Orderly (s : System) (σ : Nat → Stage) : Prop :=
  ∀ (i : Nat) (t : Task) id, s.tasks[i]? = some t → t.operation = .delete id →
    ((∃ r, σ i = .returned r) ∨ t.course.trace.Removes) → t.course.trace.Releases

theorem Orderly.next (h : s.Orderly σ) (hn : s.Next σ mv s' σ') (hserved : mv.isServed = true) :
    s'.Orderly σ' := by
  intro j u id hu hop hst
  cases hn with
  | start repo op =>
    rcases getElem?_concat_cases hu with ⟨rfl, rfl⟩ | ⟨hj, hu⟩
    · rcases hst with ⟨r, hr⟩ | ⟨r, fate, hmem, -⟩
      · rw [Function.update_self] at hr
        have := first_loaded? op
        rw [hr] at this
        cases this
      · cases hmem
    · rw [Function.update_of_ne hj] at hst
      exact h j u id hu hop hst
  | idle mv => exact h j u id hu hop hst
  | call rest hi hover hturn =>
    rcases getElem?_set_cases hi hu with ⟨rfl, rfl⟩ | ⟨hj, hu⟩
    · rw [Function.update_self] at hst
      rcases hst with ⟨r, hr⟩ | hrem
      · exact Trace.releases_append.2 (.inr (hturn.release_of_returned hr hserved))
      · refine Trace.releases_append.2 (.inl (h j _ id hi hop ?_))
        rcases Trace.removes_append.1 hrem with hrem | ⟨hc, -⟩
        · exact .inr hrem
        · exact .inl (hturn.returned_of_storeDelete hop hc)
    · rw [Function.update_of_ne hj] at hst
      exact h j u id hu hop hst

/-- A delete gives back the pair of another record only after another delete of its own record has
removed that. -/
theorem removed_of_gives_other (hst : s.Staged σ) (hs : s.Sound σ) {i : Nat} {t : Task}
    {id : String} {x : Slot} (ht : s.tasks[i]? = some t) (hx : t.GivesBack id x) {r : Record}
    (hr : r ∈ s.memory.store.records) (hslot : r.slot = x) (hne : r.id ≠ id) :
    (∃ j u, j ≠ i ∧ s.tasks[j]? = some u ∧ u.operation = .delete id ∧ u.course.trace.Removes) ∧
      ∀ o ∈ s.memory.store.records, o.id ≠ id := by
  obtain ⟨o, ho, rfl, rfl, hreads⟩ := hs.givesBack hst ht hx
  have hnone : ∀ y, (o.id, y) ∉ s.memory.store.entries := by
    intro y hy
    cases hreads.pair y hy
    have hmem := Store.mem_entries_of_mem hr
    rw [hslot] at hmem
    exact hne (hs.wellFormed.id_eq hmem hy)
  constructor
  · rcases hreads.kept with ⟨y, hy⟩ | ⟨u, hu, hopu, hrem⟩
    · exact absurd hy (hnone y)
    · obtain ⟨j, hj⟩ := List.mem_iff_getElem?.1 hu
      refine ⟨j, u, ?_, hj, hopu, hrem⟩
      rintro rfl
      rw [ht] at hj
      cases hj
      exact (hs.early j _ ht (.inr ⟨o, ho⟩)).2 hrem
  · intro p hp hid
    have hmem := Store.mem_entries_of_mem hp
    rw [hid] at hmem
    exact hnone _ hmem

/-- If a delete is about to give back a pair that is held, no delete of its record has given that
back before. -/
def GivesOnce (s : System) (mv : Move) : Prop :=
  ∀ (i : Nat) (fate : Fate) (t : Task) id x, mv = .call i fate → s.tasks[i]? = some t →
    t.GivesBack id x → x ∈ s.memory.pool.held → ¬ s.Released id

/-- Where removals follow on releases, a record that was read and not given back is there still. -/
theorem Orderly.kept (h : s.Orderly σ) (hs : s.Sound σ) {i : Nat} {r : Record} (hr : σ i = .found r)
    (hnot : ¬ s.Released r.id) : ∃ x, (r.id, x) ∈ s.memory.store.entries := by
  rcases (hs.reads i r (by rw [hr]; rfl)).kept with hx | ⟨u, hu, hopu, hrem⟩
  · exact hx
  · obtain ⟨j, hj⟩ := List.mem_iff_getElem?.1 hu
    exact absurd ⟨u, hu, hopu, h j u r.id hj hopu (.inr hrem)⟩ hnot

/-- A pair that is given back once is given back on behalf of the record that has it. -/
theorem GivesOnce.isFresh (h : s.GivesOnce mv) (hst : s.Staged σ) (hs : s.Sound σ)
    (ho : s.Orderly σ) {i : Nat} {fate : Fate} {r : Record} (hmv : mv = .call i fate)
    (hr : σ i = .found r) (hx : r.slot ∈ s.memory.pool.held) : s.IsFresh r := by
  obtain ⟨t, ht⟩ := hst.exists_task (i := i) (by rw [hr]; nofun)
  have hop := hs.target i t r ht (by rw [hr]; rfl)
  have hl := hst.leads i t ht
  rw [hr] at hl
  have hnot := h i fate t r.id r.slot hmv ht (hl.givesBack_of_found hop) hx
  exact ⟨ho.kept hs hr hnot, hnot⟩

/-- When no request is under way, no record is left whose address was given back. -/
theorem Finishes.not_released (h : s.Finishes σ) (hst : s.Staged σ) (hq : s.IsQuiet) {r : Record}
    (hr : r ∈ s.memory.store.records) : ¬ s.Released r.id := by
  rintro ⟨u, hu, hop, hrel⟩
  obtain ⟨j, hj⟩ := List.mem_iff_getElem?.1 hu
  rcases h j u r.id hj hop hrel with ⟨o, ho⟩ | hnone
  · refine (hst.leads j u hj).not_isDeleting (hq u hu) ?_
    rw [ho]
    trivial
  · exact hnone _ (Store.mem_entries_of_mem hr)

theorem InTurn.noneLeft (h : s.InTurn) (hst : s.Staged σ) (hs : s.Sound σ) (hf : s.Finishes σ) :
    s.NoneLeft σ := by
  rintro i t id ht hop hseek ⟨u, hu, hopu, hrel⟩
  obtain ⟨j, hj⟩ := List.mem_iff_getElem?.1 hu
  have hover : u.course.IsOver := by
    rcases Nat.lt_trichotomy i j with hij | rfl | hij
    · refine ((hst.leads i t ht).not_isDeleting (h i j t u id hij ht hj hop hopu) ?_).elim
      rw [hseek]
      trivial
    · rw [ht] at hj
      cases hj
      exact absurd hrel (hs.early i t ht (.inl hseek)).1
    · exact h j i u t id hij hj ht hopu hop
  rcases hf j u id hj hopu hrel with ⟨o, ho⟩ | hnone
  · refine ((hst.leads j u hj).not_isDeleting hover ?_).elim
    rw [ho]
    trivial
  · exact hnone

/-- Requests are served in any order. A delete gives back the pair of another record only after
another delete of its own record has removed that. If no delete gives back a pair that is held again
after another delete of its record gave it back, then records and requests under way are backed, and
all records are when no request is under way. That is so if the deletes of each record come one
after the other. -/
theorem deletes_of_one_record (m : Memory) (hm : m.store.WellFormed)
    (hheld : ∀ r ∈ m.store.records, r.slot ∈ m.pool.held) (moves : List Move)
    (hserved : ∀ mv ∈ moves, mv.isServed = true) (hcount : (start m).Along KeepsCounting moves) :
    let s := (start m).run moves
    (∀ (i : Nat) (t : Task) id x, s.tasks[i]? = some t → t.GivesBack id x →
      ∀ r ∈ s.memory.store.records, r.slot = x → r.id ≠ id →
        (∃ j u, j ≠ i ∧ s.tasks[j]? = some u ∧ u.operation = .delete id ∧ u.course.trace.Removes) ∧
          ∀ o ∈ s.memory.store.records, o.id ≠ id) ∧
    ((start m).Along GivesOnce moves →
      s.Backed ∧ (s.IsQuiet → ∀ r ∈ s.memory.store.records, r.slot ∈ s.memory.pool.held)) ∧
    ((start m).Along DeletesApart moves → (start m).Along GivesOnce moves) := by
  intro s
  have hmoves := hcount.and (Along.of_forall (s := start m) hserved)
  have horderly : (start m).Orderly fun _ => .ended := by
    intro i t id ht
    cases ht
  have hfinishes : (start m).Finishes fun _ => .ended := by
    intro i t id ht
    cases ht
  have hturn : (start m).InTurn := by
    intro i j t u id _ ht
    cases ht
  have hfresh : (start m).Fresh fun _ => .ended := by
    intro i r hr
    cases hr
  refine ⟨?_, ?_, ?_⟩
  · intro i t id x ht hx r hr hslot hne
    obtain ⟨σ, hst, hs⟩ := run_keeps (P := Sound)
      (fun s σ mv s' σ' hC _ hs he hn _ => hs.next hn (he ▸ hC)) (staged_start m) (sound_start hm)
      hcount
    exact removed_of_gives_other hst hs ht hx hr hslot hne
  · intro honce
    obtain ⟨σ, hst, hs, ha, ho, hf⟩ := run_keeps
      (P := fun s σ => s.Sound σ ∧ s.Accounted σ ∧ s.Orderly σ ∧ s.Finishes σ)
      (fun s σ mv s' σ' hC hst ⟨hs, ha, ho, hf⟩ he hn _ => by
        subst he
        obtain ⟨⟨hcount, hserved⟩, honce⟩ := hC
        exact ⟨hs.next hn hcount,
          ha.next hs (fun i fate r hmv hr hx => honce.isFresh hst hs ho hmv hr hx) hn hcount,
          ho.next hn hserved, hf.next hs hn hcount hserved⟩)
      (staged_start m) ⟨sound_start hm, accounted_start hheld, horderly, hfinishes⟩
      (hmoves.and honce)
    refine ⟨ha.backed hst hs fun i r hr hnot => ho.kept hs hr hnot, ?_⟩
    intro hq r hr
    exact ha.stored r.id r.slot (Store.mem_entries_of_mem hr) (hf.not_released hst hq hr)
  · intro hapart
    refine along_of_keeps (P := fun s σ => s.Sound σ ∧ s.InTurn ∧ s.Finishes σ ∧ s.Fresh σ)
      (fun s σ mv s' σ' hC hst ⟨hs, ht, hf, hfresh⟩ he hn _ => ?_) ?_
      (staged_start m) ⟨sound_start hm, hturn, hfinishes, hfresh⟩ (hmoves.and hapart)
    · subst he
      obtain ⟨⟨hcount, hserved⟩, hapart⟩ := hC
      exact ⟨hs.next hn hcount, ht.next hn hapart, hf.next hs hn hcount hserved,
        hfresh.next hst hs (ht.noRivals hst) (ht.noneLeft hst hs hf) hn⟩
    · intro s σ mv _ hst ⟨hs, _, _, hfresh⟩ i fate t id x _ ht hx _
      obtain ⟨r, hr, rfl, -⟩ := hs.givesBack hst ht hx
      exact (hfresh i r hr).2

/-! ## An overlap -/

/-- Two deletes read the same record. When the first is done, a create takes the address and records
it. Then the second delete goes on. -/
def contest : List Move :=
  let repo : Repository := ⟨.unscoped, false⟩
  let call (i : Nat) : Move := .call i (.served 0)
  [.start repo (.delete "1"), .start repo (.delete "1"),
    .start repo (.create Small.stamp Small.createRequest), call 0, call 1, call 0, call 0,
    call 2, call 2, call 2, call 2, call 1, call 1]

/-- The second delete gives back the pair of the new record, which is left without it when all
requests are over. -/
theorem contest_frees_new_record :
    Small.memory.store.WellFormed ∧
    (∀ r ∈ Small.memory.store.records, r.slot ∈ Small.memory.pool.held) ∧
    (∀ mv ∈ contest, mv.isServed = true) ∧ (start Small.memory).Along KeepsCounting contest ∧
    (let s := (start Small.memory).run (contest.take 11);
      (∃ t ∈ s.tasks, t.GivesBack "1" Small.slot) ∧ Small.slot ∈ s.memory.pool.held ∧
        s.memory.store.entries = [("2", Small.slot)]) ∧
    (let s := (start Small.memory).run contest;
      s.IsQuiet ∧ s.memory.store.entries = [("2", Small.slot)] ∧
        Small.slot ∉ s.memory.pool.held) := by
  refine ⟨Small.wellFormed_memory, Small.held_memory, ?_⟩
  decide +kernel

/-- When the second delete is about to do so, the first has removed the record. -/
theorem contest_removed :
    ∃ j u, j ≠ 1 ∧ ((start Small.memory).run (contest.take 11)).tasks[j]? = some u ∧
      u.operation = .delete "1" ∧ u.course.trace.Removes := by
  have hserved : ∀ mv ∈ contest.take 11, mv.isServed = true := by decide
  have hcount : (start Small.memory).Along KeepsCounting (contest.take 11) := by decide +kernel
  have htask : ∃ t ∈ ((start Small.memory).run (contest.take 11)).tasks[1]?,
      t.GivesBack "1" Small.slot := by
    decide +kernel
  have hrecord : ∃ r ∈ ((start Small.memory).run (contest.take 11)).memory.store.records,
      r.slot = Small.slot ∧ r.id ≠ "1" := by
    decide +kernel
  obtain ⟨t, ht, hx⟩ := htask
  obtain ⟨r, hr, hslot, hne⟩ := hrecord
  exact ((deletes_of_one_record Small.memory Small.wellFormed_memory Small.held_memory
    (contest.take 11) hserved hcount).1 1 t "1" Small.slot ht hx r hr hslot hne).1

end System

end Ipam
