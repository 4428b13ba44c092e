import Mathlib.Data.List.Chain
import Ipam.Proofs.Course.Log

/-!
# The versions of a record

The store puts a new record in the place of the very record that an update has read, and of no other.
So each version of a record is made by an update from the version before it (`System.Versioned`).
The invariant `System.Chronicle` ties that to the stages of the requests: an update that is about to
store a record has read one and has stored none, and one that is complete has made a version.
-/

namespace Ipam

namespace System

/-- An update has made one version of a record from another: it has read that one, it has stored the
other, which is that one with the fields of its request that are present, and it has done no more. -/
def Revises (s : System) (log : Log) (v w : Version) : Prop :=
  ∃ i t now req, w.writer = some i ∧ s.tasks[i]? = some t ∧ t.operation = .update now req ∧
    v.record.id = req.ip ∧ v.record.RevisedBy now req w.record ∧
    log.of i = [.read i v.record, .stored i w.record]

/-! ## The versions follow each other -/

/-- The log tells the versions of the records: the record in the store is the last one, and each but
the first is made by an update from the one before it. -/
structure Versioned (m : Memory) (s : System) (log : Log) : Prop where
  indexed : s.memory.store.Indexed
  numbered : ∀ id, m.versions log id ≠ [] → s.memory.store.Numbers id
  chain : ∀ id, (m.versions log id).IsChain (s.Revises log)
  last : ∀ r ∈ s.memory.store.records, ∃ vs v, m.versions log r.id = vs ++ [v] ∧ v.record = r

namespace Versioned

variable {m : Memory} {s s' : System} {log log' : Log} {i : Nat}

theorem start (hm : m.store.Indexed) : Versioned m (start m) [] where
  indexed := hm
  numbered := by
    intro id hne
    cases hf : m.store.find? id with
    | none => simp [Memory.versions, hf] at hne
    | some r =>
      obtain ⟨hr, hid⟩ := Store.mem_of_find? hf
      rw [← hid]
      exact hm.numbered r hr
  chain := by
    intro id
    cases hf : m.store.find? id <;> simp [Memory.versions, hf]
  last := by
    intro r hr
    have hf := (Store.find?_eq_some_iff hm.ids_nodup).2 ⟨hr, rfl⟩
    exact ⟨[], ⟨none, r⟩, by simp [Memory.versions, hf], rfl⟩

/-- Records may go where no version is written down. -/
theorem quiet (h : Versioned m s log) (hrev : ∀ v w, s.Revises log v w → s'.Revises log' v w)
    (hversions : ∀ id, m.versions log' id = m.versions log id)
    (hn : s'.memory.store.nextId = s.memory.store.nextId)
    (hsub : s'.memory.store.records.Sublist s.memory.store.records) : Versioned m s' log' where
  indexed := h.indexed.sublist hn hsub
  numbered := by
    intro id hne
    rw [hversions] at hne
    exact (h.numbered id hne).mono (UInt64.le_of_eq hn.symm)
  chain := by
    intro id
    rw [hversions]
    exact (h.chain id).imp fun v w => hrev v w
  last := by
    intro r hr
    rw [hversions]
    exact h.last r (hsub.subset hr)

/-- A record that is made is the first version under its id. -/
theorem made (h : Versioned m s log)
    (hrev : ∀ v w, s.Revises log v w → s'.Revises log' v w) {r : Record}
    (hlog : log' = log ++ [.stored i (s.memory.store.numberedNext r)])
    (hstore : s'.memory.store =
      ⟨s.memory.store.nextId + 1, s.memory.store.records ++ [s.memory.store.numberedNext r]⟩)
    (hc : s.memory.store.nextId ≤ s'.memory.store.nextId) : Versioned m s' log' := by
  subst hlog
  rw [hstore] at hc
  have hindexed : s'.memory.store.Indexed := by
    rw [hstore]
    exact h.indexed.append r hc
  have hfirst : m.versions log (s.memory.store.numberedNext r).id = [] := by
    by_contra hne
    exact (h.numbered _ hne).ne_next hc rfl
  have hmade : s.memory.store.numberedNext r ∈ s'.memory.store.records := by
    rw [hstore]
    exact List.mem_append_right _ List.mem_cons_self
  refine ⟨hindexed, ?_, ?_, ?_⟩
  · intro id hne
    by_cases hid : (s.memory.store.numberedNext r).id = id
    · subst hid
      exact hindexed.numbered _ hmade
    · rw [Memory.versions_stored_of_ne m log i hid] at hne
      rw [hstore]
      exact (h.numbered id hne).mono hc
  · intro id
    by_cases hid : (s.memory.store.numberedNext r).id = id
    · subst hid
      rw [Memory.versions_stored_self, hfirst]
      exact List.isChain_singleton _
    · rw [Memory.versions_stored_of_ne m log i hid]
      exact (h.chain id).imp fun v w => hrev v w
  · intro o ho
    rw [hstore] at ho
    rcases List.mem_append.1 ho with ho | ho
    · have hne : o.id ≠ (s.memory.store.numberedNext r).id := (h.indexed.numbered o ho).ne_next hc
      rw [Memory.versions_stored_of_ne m log i (Ne.symm hne)]
      exact h.last o ho
    · rw [List.mem_singleton.1 ho, Memory.versions_stored_self]
      exact ⟨_, _, rfl, rfl⟩

/-- A record that is put in the place of one follows that one. -/
theorem revised (h : Versioned m s log)
    (hrev : ∀ v w, s.Revises log v w → s'.Revises log' v w) {new old : Record}
    {l₁ l₂ : List Record} (hlog : log' = log ++ [.stored i new])
    (hl : s.memory.store.records = l₁ ++ old :: l₂)
    (hstore : s'.memory.store = ⟨s.memory.store.nextId, l₁ ++ new :: l₂⟩)
    (hid : new.id = old.id) (hlink : ∀ v, v.record = old → s'.Revises log' v ⟨some i, new⟩) :
    Versioned m s' log' := by
  subst hlog
  have hold : old ∈ s.memory.store.records := by
    rw [hl]
    exact List.mem_append_right _ List.mem_cons_self
  obtain ⟨vs, v, hv, hvr⟩ := h.last old hold
  have hself : m.versions (log ++ [.stored i new]) new.id = vs ++ [v] ++ [⟨some i, new⟩] := by
    rw [Memory.versions_stored_self, hid, hv]
  refine ⟨?_, ?_, ?_, ?_⟩
  · rw [hstore]
    exact h.indexed.replace hl hid
  · intro id hne
    rw [hstore]
    by_cases hnew : new.id = id
    · rw [← hnew, hid]
      exact h.indexed.numbered old hold
    · rw [Memory.versions_stored_of_ne m log i hnew] at hne
      exact h.numbered id hne
  · intro id
    by_cases hnew : new.id = id
    · subst hnew
      have hbefore : (vs ++ [v]).IsChain (s'.Revises (log ++ [.stored i new])) := by
        rw [← hv]
        exact (h.chain old.id).imp fun v w => hrev v w
      rw [hself]
      refine List.isChain_append.2 ⟨hbefore, List.isChain_singleton _, ?_⟩
      intro x hx y hy
      simp only [List.getLast?_append, List.getLast?_singleton, Option.some_or,
        Option.mem_some_iff] at hx
      simp only [List.head?_cons, Option.mem_some_iff] at hy
      subst hx hy
      exact hlink v hvr
    · rw [Memory.versions_stored_of_ne m log i hnew]
      exact (h.chain id).imp fun v w => hrev v w
  · intro r hr
    rw [hstore] at hr
    -- the other records have other ids, and their versions are as before
    have hother : r ∈ l₁ ++ l₂ →
        ∃ vs v, m.versions (log ++ [.stored i new]) r.id = vs ++ [v] ∧ v.record = r := by
      intro hr
      have hne : r.id ≠ old.id := Store.key_ne_of_mem h.indexed.ids_nodup hl hr
      rw [← hid] at hne
      rw [Memory.versions_stored_of_ne m log i (Ne.symm hne)]
      exact h.last r ((Store.sublist_remove hl).subset hr)
    rcases List.mem_append.1 hr with hr | hr
    · exact hother (List.mem_append_left _ hr)
    · rcases List.mem_cons.1 hr with rfl | hr
      · exact ⟨_, _, hself, rfl⟩
      · exact hother (List.mem_append_right _ hr)

end Versioned

/-! ## The chronicle -/

/-- The log tells the versions of the records, the stages of the requests say what it tells of them,
and an update that is complete has made a version from the one before it. -/
structure Chronicle (m : Memory) (s : System) (σ : Nat → Stage) (log : Log) : Prop
    extends Versioned m s log where
  logged : ∀ i t, s.tasks[i]? = some t → (σ i).Logged i t.operation (log.of i)
  beyond : ∀ i, s.tasks[i]? = none → log.of i = []
  updated : ∀ i t now req response, s.tasks[i]? = some t → t.operation = .update now req →
    σ i = .complete response → ∃ v new, response = .record new ∧
      log.of i = [.read i v.record, .stored i new] ∧ [v, ⟨some i, new⟩] <:+: m.versions log req.ip

theorem chronicle_start {m : Memory} (hm : m.store.Indexed) :
    Chronicle m (start m) (fun _ => .ended) [] where
  toVersioned := .start hm
  logged := by
    intro i t ht
    cases ht
  beyond := fun _ _ => rfl
  updated := by
    intro i t now req response ht
    cases ht

section

variable {m : Memory} {s s' : System} {σ : Nat → Stage} {log : Log} {i : Nat} {fate : Fate}
  {t : Task} {c : Call} {st : Stage}

theorem of_call {j : Nat} (hj : j ≠ i) :
    Log.of (log ++ (s.memory.event? i c fate).toList) j = log.of j := by
  rw [Log.of_append]
  cases he : s.memory.event? i c fate with
  | none => exact List.append_nil _
  | some e =>
    have hi := Memory.request_of_event? he
    simp [Log.of, hi, Ne.symm hj]

theorem of_call_self : Log.of (log ++ (s.memory.event? i c fate).toList) i =
    log.of i ++ (s.memory.event? i c fate).toList := by
  rw [Log.of_append]
  cases he : s.memory.event? i c fate with
  | none => rfl
  | some e =>
    have hi := Memory.request_of_event? he
    simp [Log.of, hi]

/-- An update that has made a version makes no further calls that are written down. -/
theorem Revises.call {v w : Version} (h : s.Revises log v w) (hc : s.Calls σ i fate t c st s')
    (hlogged : (σ i).Logged i t.operation (log.of i)) :
    s'.Revises (log ++ (s.memory.event? i c fate).toList) v w := by
  obtain ⟨j, u, now, req, hw, hu, hop, hid, hrev, hof⟩ := h
  obtain ⟨u', hu', hop'⟩ := hc.exists_task hu
  refine ⟨j, u', now, req, hw, hu', hop'.trans hop, hid, hrev, ?_⟩
  by_cases hj : j = i
  · subst hj
    cases he : s.memory.event? j c fate with
    | none =>
      rw [Option.toList_none, List.append_nil]
      exact hof
    | some e =>
      have hsome : s.memory.event? j c fate ≠ none := by
        rw [he]
        exact Option.some_ne_none e
      have hlen := hc.goes.length_own_le hlogged hsome
      rw [hof] at hlen
      simp at hlen
  · rw [of_call hj]
    exact hof

/-- What is written down of an update that stores a record: the record that it has read, and then
the one that it has made of that. -/
theorem Chronicle.own_of_stored (h : Chronicle m s σ log) (hc : s.Calls σ i fate t c st s')
    {new old : Record} (hcall : c = .storeUpdate new old)
    (he : s.memory.event? i c fate = some (.stored i new)) :
    ∃ now req, t.operation = .update now req ∧ old.id = req.ip ∧ old.RevisedBy now req new ∧
      Log.of (log ++ (s.memory.event? i c fate).toList) i = [.read i old, .stored i new] := by
  have hgoes := hc.goes
  have hlogged := h.logged i t hc.task
  rw [of_call_self, he]
  subst hcall
  obtain ⟨hst, now, req, hop, hnew⟩ := hgoes.revising_of_storeUpdate
  rw [hst, hop] at hlogged
  obtain ⟨hown, _, _, ⟨⟩, hid⟩ := hlogged
  exact ⟨now, req, hop, hid, Repository.revise_eq_ok hnew, by rw [hown]; rfl⟩

theorem Chronicle.versioned_call (h : Chronicle m s σ log) (hc : s.Calls σ i fate t c st s')
    (hcount : s.memory.store.nextId ≤ s'.memory.store.nextId) :
    Versioned m s' (log ++ (s.memory.event? i c fate).toList) := by
  have hrev : ∀ v w, s.Revises log v w →
      s'.Revises (log ++ (s.memory.event? i c fate).toList) v w :=
    fun v w hr => hr.call hc (h.logged i t hc.task)
  have hmem : s'.memory = (s.memory.meet c fate).2 := by
    obtain ⟨rest, rfl⟩ := hc.after
    rfl
  rcases s.memory.meet_store i c fate with
    ⟨hnone, hn, hsub⟩ | ⟨r, -, he, hstore⟩ | ⟨new, old, l₁, l₂, hcall, he, hl, hstore⟩
  · refine h.quiet hrev (fun id => ?_) (by rw [hmem]; exact hn) (by rw [hmem]; exact hsub)
    rw [Memory.versions_append]
    have hid := hnone id
    cases he : s.memory.event? i c fate with
    | none => exact List.append_nil _
    | some e =>
      rw [he] at hid
      simp only [Option.bind_some] at hid
      simp [hid]
  · exact h.made (i := i) hrev (by rw [he]; rfl) (by rw [hmem]; exact hstore) hcount
  · obtain ⟨now, req, hop, hid, hrevised, hown⟩ := h.own_of_stored hc hcall he
    refine h.revised (i := i) hrev (by rw [he]; rfl) hl (by rw [hmem]; exact hstore) hrevised.id ?_
    rintro v rfl
    obtain ⟨u, hu, hopu⟩ := hc.exists_task hc.task
    exact ⟨i, u, now, req, rfl, hu, hopu.trans hop, hid, hrevised, hown⟩

/-- An update that is complete has made its version, and the versions before it are as they were. -/
theorem Chronicle.updated_call (h : Chronicle m s σ log) (hc : s.Calls σ i fate t c st s') {j : Nat}
    {u : Task} {now : Instant} {req : Wire.UpdateRequest} {response : Response}
    (hu : s'.tasks[j]? = some u) (hop : u.operation = .update now req)
    (hst : Function.update σ i st j = .complete response) :
    ∃ v new, response = .record new ∧
      Log.of (log ++ (s.memory.event? i c fate).toList) j = [.read j v.record, .stored j new] ∧
      [v, ⟨some j, new⟩] <:+: m.versions (log ++ (s.memory.event? i c fate).toList) req.ip := by
  rcases hc.task_cases hu with ⟨rfl, hopu⟩ | ⟨hj, hu⟩
  · rw [Function.update_self] at hst
    have hgoes := hc.goes
    obtain ⟨new, old, hcall, rfl, he⟩ := hgoes.stored_of_complete (i := j) rfl (hopu.symm.trans hop) hst
    obtain ⟨now', req', hop', hid, hrevised, hown⟩ := h.own_of_stored hc hcall he
    cases (hopu.symm.trans hop).symm.trans hop'
    subst hcall
    obtain ⟨vs, v, hv, rfl⟩ := h.last old (Memory.mem_of_event?_stored he)
    have hnew : new.id = req.ip := hrevised.id.trans hid
    refine ⟨v, new, rfl, hown, vs, [], ?_⟩
    rw [he, Option.toList_some, ← hnew, Memory.versions_stored_self, hrevised.id, hv]
    simp
  · rw [Function.update_of_ne hj] at hst
    obtain ⟨v, new, hresp, hown, hlink⟩ := h.updated j u now req response hu hop hst
    refine ⟨v, new, hresp, by rw [of_call hj]; exact hown, ?_⟩
    rw [Memory.versions_append]
    exact hlink.trans (List.prefix_append _ _).isInfix

theorem Chronicle.call (h : Chronicle m s σ log) (hc : s.Calls σ i fate t c st s')
    (hcount : s.memory.store.nextId ≤ s'.memory.store.nextId) :
    Chronicle m s' (Function.update σ i st) (log ++ (s.memory.event? i c fate).toList) where
  toVersioned := h.versioned_call hc hcount
  logged := by
    intro j u hu
    rcases hc.task_cases hu with ⟨rfl, hop⟩ | ⟨hj, hu⟩
    · rw [Function.update_self, of_call_self, hop]
      exact hc.goes.logged rfl (h.logged j t hc.task)
    · rw [Function.update_of_ne hj, of_call hj]
      exact h.logged j u hu
  beyond := by
    intro j hj
    have hold : s.tasks[j]? = none := by
      obtain ⟨rest, rfl⟩ := hc.after
      simpa using hj
    have hne : j ≠ i := by
      rintro rfl
      rw [hc.task] at hold
      cases hold
    rw [of_call hne]
    exact h.beyond j hold
  updated := fun j u now req response hu hop hst => h.updated_call hc hu hop hst

theorem Chronicle.arrive (h : Chronicle m s σ log) (repo : Repository) (op : Operation) :
    Chronicle m ⟨s.memory, s.tasks ++ [.start repo op]⟩
      (Function.update σ s.tasks.length (.first op)) log where
  indexed := h.indexed
  numbered := h.numbered
  chain := by
    intro id
    refine (h.chain id).imp ?_
    rintro v w ⟨j, u, now, req, hw, hu, hr⟩
    refine ⟨j, u, now, req, hw, ?_, hr⟩
    show (s.tasks ++ [Task.start repo op])[j]? = some u
    rw [List.getElem?_append_left (List.getElem?_eq_some_iff.1 hu).1]
    exact hu
  last := h.last
  logged := by
    intro j u hu
    rcases getElem?_concat_cases hu with ⟨rfl, rfl⟩ | ⟨hj, hu⟩
    · rw [Function.update_self, h.beyond _ (List.getElem?_eq_none (Nat.le_refl _))]
      exact Stage.logged_first _ op
    · rw [Function.update_of_ne hj]
      exact h.logged j u hu
  beyond := by
    intro j hj
    have hj : s.tasks.length + 1 ≤ j := by simpa using hj
    exact h.beyond j (List.getElem?_eq_none (by omega))
  updated := by
    intro j u now req response hu hop hst
    rcases getElem?_concat_cases hu with ⟨rfl, rfl⟩ | ⟨hj, hu⟩
    · rw [Function.update_self] at hst
      cases op <;> cases hst
    · rw [Function.update_of_ne hj] at hst
      exact h.updated j u now req response hu hop hst

end

theorem Chronicle.next {m : Memory} {s : System} {σ : Nat → Stage} {log : Log}
    (h : Chronicle m s σ log) (hs : s.Staged σ) (mv : Move) (hc : s.KeepsCounting mv) :
    ∃ σ', (s.apply mv).Staged σ' ∧
      Chronicle m (s.apply mv) σ' (log ++ (s.event? mv).toList) := by
  cases mv with
  | start repo op =>
    refine ⟨_, hs.start repo op, ?_⟩
    show Chronicle m _ _ (log ++ [])
    rw [List.append_nil]
    exact h.arrive repo op
  | call i fate =>
    rcases hs.call_cases i fate with ⟨he, hno⟩ | ⟨t, c, st, hcalls, hs'⟩
    · have hnone : s.event? (.call i fate) = none := by
        cases ht : s.tasks[i]? with
        | none => simp [event?, ht]
        | some t =>
          cases hcall : t.course.rest.call? with
          | none => simp [event?, ht, hcall]
          | some c =>
            obtain ⟨req, rfl⟩ := hno t c ht hcall
            simp [event?, ht, hcall, Memory.event?]
      rw [he, hnone]
      refine ⟨σ, hs, ?_⟩
      rw [Option.toList_none, List.append_nil]
      exact h
    · have hevent : s.event? (.call i fate) = s.memory.event? i c fate := by
        simp [event?, hcalls.task, hcalls.call]
      rw [hevent]
      exact ⟨_, hs', h.call hcalls hc⟩

theorem Chronicle.run {m : Memory} {s : System} {σ : Nat → Stage} {log : Log}
    (h : Chronicle m s σ log) (hs : s.Staged σ) {moves : List Move}
    (hc : s.Along KeepsCounting moves) :
    ∃ σ', (s.run moves).Staged σ' ∧ Chronicle m (s.run moves) σ' (log ++ s.log moves) := by
  induction moves generalizing s σ log with
  | nil =>
    refine ⟨σ, hs, ?_⟩
    show Chronicle m s σ (log ++ [])
    rw [List.append_nil]
    exact h
  | cons mv moves ih =>
    obtain ⟨σ', hs', h'⟩ := h.next hs mv hc.1
    have := ih h' hs' hc.2
    rwa [List.append_assoc] at this

end System

end Ipam
