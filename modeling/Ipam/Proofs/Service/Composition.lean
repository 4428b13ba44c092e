import Ipam.Proofs.Course.Host
import Ipam.Proofs.Record.Revision
import Ipam.Proofs.Service.Outcome

/-!
# One update after another

Two updates of a record come to the same as one that asks for what the second one asks for and,
where that leaves a field out, for what the first one does (`Wire.UpdateRequest.fillFrom`). So an
update that is repeated changes no more than the time of the last change
(`Repository.updates_compose`). An update that asks for no retention in particular is refused before
anything is changed.
-/

namespace Ipam

/-- An update request with the fields of another one where it leaves them out. -/
def Wire.UpdateRequest.fillFrom (later earlier : Wire.UpdateRequest) : Wire.UpdateRequest where
  ip := later.ip
  project := later.project
  name := later.name.or earlier.name
  description := later.description.or earlier.description
  kind := later.kind.or earlier.kind
  tags := later.tags.or earlier.tags

theorem Wire.UpdateRequest.fillFrom_self (req : Wire.UpdateRequest) : req.fillFrom req = req := by
  simp only [fillFrom, Option.or_self]

namespace Repository

variable {now : Instant} {req r₁ r₂ : Wire.UpdateRequest} {old new : Record}

/-! ## Revised records -/

/-- The record that a request makes of another one, unless it asks for no retention in particular. -/
def revised (now : Instant) (req : Wire.UpdateRequest) (old : Record) : Record :=
  { old with
    name := req.name.getD old.name
    description := req.description.getD old.description
    retention := (req.kind.bind Wire.Kind.retention?).getD old.retention
    tags := (req.tags.map TagSet.ofStrings).getD old.tags
    updatedAt := now }

theorem revise_unspecified (h : req.kind = some .unspecified) :
    revise now req old = .error (.invalid .kindUnspecified) := by
  unfold revise
  rw [h]
  rfl

theorem revise_of_ne (h : req.kind ≠ some .unspecified) :
    revise now req old = .ok (revised now req old) := by
  unfold revise revised
  cases hkind : req.kind with
  | none => rfl
  | some kind =>
    cases kind with
    | unspecified => exact absurd hkind h
    | ephemeral => rfl
    | static => rfl

theorem revise_eq_ok_iff :
    revise now req old = .ok new ↔ req.kind ≠ some .unspecified ∧ new = revised now req old := by
  by_cases h : req.kind = some .unspecified
  · simp [revise_unspecified h, h]
  · rw [revise_of_ne h, Except.ok.injEq, eq_comm]
    exact ⟨fun he => ⟨h, he⟩, And.right⟩

theorem kind_fillFrom_ne (h₁ : r₁.kind ≠ some .unspecified) (h₂ : r₂.kind ≠ some .unspecified) :
    (r₂.fillFrom r₁).kind ≠ some .unspecified := by
  show r₂.kind.or r₁.kind ≠ _
  cases hkind : r₂.kind with
  | none => exact h₁
  | some kind =>
    rw [hkind] at h₂
    exact h₂

/-- A record that is revised twice is revised once by what the two requests ask for. -/
theorem revised_revised {t₁ t₂ : Instant} (h₂ : r₂.kind ≠ some .unspecified) :
    revised t₂ r₂ (revised t₁ r₁ old) = revised t₂ (r₂.fillFrom r₁) old := by
  have hname : r₂.name.getD (r₁.name.getD old.name) = (r₂.name.or r₁.name).getD old.name := by
    cases r₂.name <;> rfl
  have hdescription : r₂.description.getD (r₁.description.getD old.description) =
      (r₂.description.or r₁.description).getD old.description := by
    cases r₂.description <;> rfl
  have hretention : (r₂.kind.bind Wire.Kind.retention?).getD
        ((r₁.kind.bind Wire.Kind.retention?).getD old.retention) =
      ((r₂.kind.or r₁.kind).bind Wire.Kind.retention?).getD old.retention := by
    cases hkind : r₂.kind with
    | none => rfl
    | some kind =>
      cases kind with
      | unspecified => exact absurd hkind h₂
      | ephemeral => rfl
      | static => rfl
  have htags : (r₂.tags.map TagSet.ofStrings).getD ((r₁.tags.map TagSet.ofStrings).getD old.tags) =
      ((r₂.tags.or r₁.tags).map TagSet.ofStrings).getD old.tags := by
    cases r₂.tags <;> rfl
  simp only [revised, Wire.UpdateRequest.fillFrom, hname, hdescription, hretention, htags]

end Repository

/-! ## What is left -/

/-- One record of a memory is another one now, and nothing else has changed. -/
structure Memory.Replaces (m m' : Memory) (new : Record) : Prop where
  /-- The record is the one that is read by its id. -/
  stored : m'.store.find? new.id = some new
  /-- All other records are as before, and each record stands where it stood. -/
  records : m'.store.records = m.store.records.map fun r => if r.id = new.id then new else r
  /-- The counter is as before. -/
  nextId : m'.store.nextId = m.store.nextId
  /-- What is held is as before. -/
  pool : m'.pool = m.pool
  /-- What can be looked up is as before. -/
  catalog : m'.catalog = m.catalog

/-- A request whose calls are served answers with a record that is then stored, and changes nothing
else. -/
structure Request.Puts (x : Request Record) (s : Memory × Picks) (new : Record) : Prop where
  /-- The record is the answer. -/
  answer : (x.serve s).1 = .ok new
  /-- It stands in the place of the one with its id. -/
  replaces : s.1.Replaces (x.serve s).2.1 new

namespace Memory

variable {m m' m'' : Memory} {old new newer : Record}

/-- With distinct ids, a record that is replaced where it stands is the one that changes. -/
theorem map_replace {l₁ l₂ : List Record} (hids : ((l₁ ++ old :: l₂).map Record.id).Nodup)
    (hid : new.id = old.id) :
    (l₁ ++ old :: l₂).map (fun r => if r.id = new.id then new else r) = l₁ ++ new :: l₂ := by
  have hother : ∀ l : List Record, (∀ r ∈ l, r.id ≠ old.id) →
      l.map (fun r => if r.id = new.id then new else r) = l := by
    intro l hl
    refine (List.map_congr_left fun r hr => ?_).trans (List.map_id l)
    rw [if_neg (hid ▸ hl r hr)]
    rfl
  rw [List.map_append, List.map_cons] at hids
  obtain ⟨-, hold, hdisjoint⟩ := List.nodup_append.1 hids
  have h₁ : ∀ r ∈ l₁, r.id ≠ old.id := fun r hr =>
    hdisjoint r.id (List.mem_map_of_mem hr) old.id List.mem_cons_self
  have h₂ : ∀ r ∈ l₂, r.id ≠ old.id := fun r hr he =>
    (List.nodup_cons.1 hold).1 (he ▸ List.mem_map_of_mem hr)
  rw [List.map_append, List.map_cons, hother l₁ h₁, hother l₂ h₂, if_pos hid.symm]

theorem replaces_of_eq {l₁ l₂ : List Record} (hids : (m.store.records.map Record.id).Nodup)
    (hl : m.store.records = l₁ ++ old :: l₂) (hid : new.id = old.id) :
    m.Replaces { m with store := ⟨m.store.nextId, l₁ ++ new :: l₂⟩ } new := by
  rw [hl] at hids
  have hids' : ((l₁ ++ new :: l₂).map Record.id).Nodup := by simpa [hid] using hids
  exact {
    stored := (Store.find?_eq_some_iff hids').2 ⟨by simp, rfl⟩
    records := by rw [hl, map_replace hids hid]
    nextId := rfl
    pool := rfl
    catalog := rfl }

theorem Replaces.ids_eq (h : m.Replaces m' new) :
    m'.store.records.map Record.id = m.store.records.map Record.id := by
  rw [h.records, List.map_map]
  refine List.map_congr_left fun r _ => ?_
  by_cases hid : r.id = new.id
  · simp [hid]
  · simp [hid]

/-- Of two changes to a record the second one is left. -/
theorem Replaces.trans (h : m.Replaces m' new) (h' : m'.Replaces m'' newer)
    (hid : newer.id = new.id) : m.Replaces m'' newer where
  stored := h'.stored
  records := by
    rw [h'.records, h.records, List.map_map]
    refine List.map_congr_left fun r _ => ?_
    by_cases hr : r.id = new.id
    · simp [hr, hid]
    · simp [hr, hid]
  nextId := h'.nextId.trans h.nextId
  pool := h'.pool.trans h.pool
  catalog := h'.catalog.trans h.catalog

end Memory

namespace Repository

variable {m : Memory} {repo : Repository} {now : Instant} {req : Wire.UpdateRequest}
  {old new : Record} {picks : Picks}

/-- An update that succeeds has put a revised record in the place of one in view. -/
theorem puts_of_update (hids : (m.store.records.map Record.id).Nodup)
    (hold : old ∈ m.store.records) (hip : req.ip = old.id)
    (h : ((repo.update now req).serve (m, picks)).1 = .ok new) :
    repo.scope.admits old.projectId = true ∧ req.kind ≠ some .unspecified ∧
      new = revised now req old ∧ (repo.update now req).Puts (m, picks) new := by
  have hanswer := h
  obtain ⟨picks', ⟨-, hserve⟩ | ⟨found, hfound, hid, ha, hcases⟩⟩ :=
    serve_update repo now req hids picks
  · rw [hserve] at h
    cases h
  obtain rfl := Store.eq_of_id_eq hids hfound hold (hid.trans hip)
  rcases hcases with ⟨e, -, hserve⟩ | ⟨revision, l₁, l₂, hrev, hl, hserve⟩
  · rw [hserve] at h
    cases h
  · rw [hserve] at h
    cases h
    obtain ⟨hkind, hnew⟩ := revise_eq_ok_iff.1 hrev
    refine ⟨ha, hkind, hnew, hanswer, ?_⟩
    rw [hserve]
    exact Memory.replaces_of_eq hids hl (revise_eq hrev).1

/-- An update of a record in view succeeds, unless it asks for no retention in particular. -/
theorem update_puts (hids : (m.store.records.map Record.id).Nodup)
    (hold : old ∈ m.store.records) (hip : req.ip = old.id)
    (ha : repo.scope.admits old.projectId = true) (hkind : req.kind ≠ some .unspecified)
    (picks : Picks) : (repo.update now req).Puts (m, picks) (revised now req old) := by
  have hok : ((repo.update now req).serve (m, picks)).1 = .ok (revised now req old) := by
    obtain ⟨picks', ⟨hnone, -⟩ | ⟨found, hfound, hid, -, hcases⟩⟩ :=
      serve_update repo now req hids picks
    · rw [hnone old hold hip.symm] at ha
      cases ha
    obtain rfl := Store.eq_of_id_eq hids hfound hold (hid.trans hip)
    rw [revise_of_ne hkind] at hcases
    rcases hcases with ⟨e, he, -⟩ | ⟨revision, l₁, l₂, hrev, -, hserve⟩
    · cases he
    · rw [hserve, Except.ok.inj hrev]
  exact (puts_of_update hids hold hip hok).2.2.2

/-- An update that asks for no retention in particular changes nothing, and of a record in view it is
refused for that. -/
theorem update_unspecified (hids : (m.store.records.map Record.id).Nodup)
    (hkind : req.kind = some .unspecified) (picks : Picks) :
    ((repo.update now req).serve (m, picks)).2.1 = m ∧
      ∀ old ∈ m.store.records, req.ip = old.id → repo.scope.admits old.projectId = true →
        ((repo.update now req).serve (m, picks)).1 = .error (.invalid .kindUnspecified) := by
  obtain ⟨picks', ⟨hnone, hserve⟩ | ⟨found, -, -, -, hcases⟩⟩ :=
    serve_update repo now req hids picks
  · rw [hserve]
    refine ⟨rfl, fun old hold hip ha => ?_⟩
    rw [hnone old hold hip.symm] at ha
    cases ha
  rw [revise_unspecified hkind] at hcases
  rcases hcases with ⟨e, he, hserve⟩ | ⟨revision, l₁, l₂, hrev, -⟩
  · rw [hserve, ← Except.error.inj he]
    exact ⟨rfl, fun _ _ _ _ => rfl⟩
  · cases hrev

/-! ## Refusals -/

/-- Reading a record takes one call, and what it fails with is not that the request is wrong. -/
theorem get_reaches {id : String} {es : List Exchange} {v : Standing (Except RequestError Record)}
    (h : Program.Reaches (repo.get id) es v) :
    v = .calls (.storeGet id) ∨ (∃ r, v = .over (.ok r)) ∨
      ∃ e, v = .over (.error e) ∧ ∀ cause, e ≠ .invalid cause := by
  unfold get at h
  rcases Program.Reaches.ask_cases h with ⟨-, rfl⟩ | ⟨i, -, rfl⟩ | ⟨answer, fs, -, h⟩
  · exact .inl rfl
  · exact .inr (.inr ⟨_, rfl, nofun⟩)
  rcases Program.Reaches.accept_cases h with ⟨e, -, -, rfl⟩ | ⟨r, -, h⟩
  · exact .inr (.inr ⟨_, rfl, fun cause he => by cases e <;> cases he⟩)
  by_cases ha : repo.scope.admits r.projectId = true
  · rw [if_pos ha] at h
    exact .inr (.inl ⟨r, (Program.Reaches.done_cases h).2⟩)
  · rw [if_neg ha] at h
    exact .inr (.inr ⟨_, (Program.Reaches.done_cases h).2, nofun⟩)

/-- An update calls for the record it is to change, and it is refused as wrong only if it asks for no
retention in particular; then it calls for nothing else. -/
theorem update_reaches {es : List Exchange} {v : Standing (Except RequestError Record)}
    (h : Program.Reaches (repo.update now req) es v) :
    (req.kind = some .unspecified → ∀ c, v = .calls c → c = .storeGet req.ip) ∧
      ∀ cause, v = .over (.error (.invalid cause)) → req.kind = some .unspecified := by
  unfold update at h
  cases Program.Reaches.bind_cases h with
  | calls hget =>
    rcases get_reaches hget with hc | ⟨r, hr⟩ | ⟨e, he, -⟩
    · cases hc
      exact ⟨fun _ c hc => (Standing.calls.inj hc).symm, nofun⟩
    · cases hr
    · cases he
  | fails hget =>
    rcases get_reaches hget with hc | ⟨r, hr⟩ | ⟨e, he, hcause⟩
    · cases hc
    · cases hr
    · cases he
      refine ⟨fun _ c hc => (nomatch hc), fun cause hv => ?_⟩
      exact absurd (Except.error.inj (Standing.over.inj hv)) (hcause cause)
  | succeeds hget hrest =>
    next es fs old =>
    rcases Program.Reaches.ofExcept_cases hrest with ⟨e, he, -, rfl⟩ | ⟨new, hnew, hrest⟩
    · refine ⟨fun _ c hc => (nomatch hc), fun cause hv => ?_⟩
      by_contra hkind
      rw [revise_of_ne hkind] at he
      cases he
    · obtain ⟨hkind, -⟩ := revise_eq_ok_iff.1 hnew
      refine ⟨fun hno => absurd hno hkind, fun cause hv => ?_⟩
      subst hv
      rcases Program.Reaches.ask_cases hrest with ⟨-, hv⟩ | ⟨i, -, hv⟩ | ⟨answer, fs, -, hrest⟩
      · cases hv
      · cases hv
      rcases Program.Reaches.accept_cases hrest with ⟨e, -, -, hv⟩ | ⟨-, -, hrest⟩
      · cases e <;> cases hv
      · cases (Program.Reaches.done_cases hrest).2

/-- Of two updates of a stored record that succeed one after the other, each answers with the record
that is then stored and changes nothing else; and what they leave is, but for the time of the last
change, what one update leaves that asks for what the second one asks for and otherwise for what the
first one does. An update that has succeeded changes no more than that time when it is repeated. One
that asks for no retention in particular is the only one that is refused for that; it leaves all as it
was, and nothing but the record is called for, whatever comes of the call. -/
theorem updates_compose (repo : Repository) (m : Memory)
    (hids : (m.store.records.map Record.id).Nodup) (old : Record) (hold : old ∈ m.store.records) :
    (∀ r₁ r₂ : Wire.UpdateRequest, r₁.ip = old.id → r₂.ip = old.id → ∀ t₁ t₂ picks new₁ new₂,
      let x₁ := (repo.update t₁ r₁).serve (m, picks)
      let x₂ := (repo.update t₂ r₂).serve x₁.2
      x₁.1 = .ok new₁ → x₂.1 = .ok new₂ →
        (repo.update t₁ r₁).Puts (m, picks) new₁ ∧ (repo.update t₂ r₂).Puts x₁.2 new₂ ∧
        m.Replaces x₂.2.1 new₂ ∧ old.RevisedBy t₂ (r₂.fillFrom r₁) new₂ ∧
        ∀ t picks', (repo.update t (r₂.fillFrom r₁)).Puts (m, picks') { new₂ with updatedAt := t } ∧
          (repo.update t r₁).Puts (x₁.2.1, picks') { new₁ with updatedAt := t }) ∧
    ∀ (req : Wire.UpdateRequest) (now : Instant),
      (∀ (S : Type) (h : Host S) (s : S), let x := h.attend (repo.update now req) s
        (x.result = some (.error (.invalid .kindUnspecified)) → req.kind = some .unspecified) ∧
        (req.kind = some .unspecified → ∀ a ∈ x.log, a.call = .storeGet req.ip)) ∧
      (req.kind = some .unspecified → ∀ picks,
        let x := (repo.update now req).serve (m, picks)
        x.2.1 = m ∧ (req.ip = old.id → repo.scope.admits old.projectId = true →
          x.1 = .error (.invalid .kindUnspecified))) := by
  refine ⟨?_, fun req now => ⟨fun S h s => ⟨fun hresult => ?_, fun hkind a ha => ?_⟩, ?_⟩⟩
  · intro r₁ r₂ hip₁ hip₂ t₁ t₂ picks new₁ new₂ x₁ x₂ h₁ h₂
    obtain ⟨ha, hkind₁, hnew₁, hputs₁⟩ := puts_of_update hids hold hip₁ h₁
    -- the second update meets the record that the first one has left
    have hids₁ : (x₁.2.1.store.records.map Record.id).Nodup := by
      rw [hputs₁.replaces.ids_eq]
      exact hids
    have hmem₁ : new₁ ∈ x₁.2.1.store.records := (Store.mem_of_find? hputs₁.replaces.stored).1
    have hid₁ : new₁.id = old.id := by rw [hnew₁, revised]
    have ha₁ : repo.scope.admits new₁.projectId = true := by rw [hnew₁]; exact ha
    obtain ⟨-, hkind₂, hnew₂, hputs₂⟩ := puts_of_update hids₁ hmem₁ (hip₂.trans hid₁.symm) h₂
    have hid₂ : new₂.id = new₁.id := by rw [hnew₂, revised]
    have hip : (r₂.fillFrom r₁).ip = old.id := hip₂
    have hkind := kind_fillFrom_ne hkind₁ hkind₂
    have hboth : ∀ t, revised t (r₂.fillFrom r₁) old = { new₂ with updatedAt := t } := fun t => by
      rw [hnew₂, hnew₁, revised_revised hkind₂]
      rfl
    have hagain : ∀ t, revised t r₁ new₁ = { new₁ with updatedAt := t } := fun t => by
      rw [hnew₁, revised_revised hkind₁, r₁.fillFrom_self]
      rfl
    have hreplaces := hputs₁.replaces.trans hputs₂.replaces hid₂
    refine ⟨hputs₁, hputs₂, hreplaces, ?_, fun t picks' => ⟨?_, ?_⟩⟩
    · refine revise_eq_ok (revise_eq_ok_iff.2 ⟨hkind, ?_⟩)
      rw [hnew₂, hnew₁, revised_revised hkind₂]
    · rw [← hboth t]
      exact update_puts hids hold hip ha hkind picks'
    · rw [← hagain t]
      exact update_puts hids₁ hmem₁ (hip₁.trans hid₁.symm) ha₁ hkind₁ picks'
  · obtain ⟨v, hreaches, hover⟩ := h.reaches_attend (repo.update now req) s
    exact (update_reaches hreaches).2 _ ((hover _).1 hresult)
  · obtain ⟨es, hreaches⟩ := Host.exists_reaches_of_mem_log ha
    exact (update_reaches hreaches).1 hkind _ rfl
  · intro hkind picks
    obtain ⟨hkept, hrefused⟩ := update_unspecified hids hkind picks
    exact ⟨hkept, hrefused old hold⟩

end Repository

namespace Small

/-- A memory with both records. -/
def twoRecords : Memory := { memory with store := ⟨2, [otherRecord, record]⟩ }

/-- A request for a new name and new tags. -/
def rename : Wire.UpdateRequest := ⟨"1", "prj", some "a", none, none, some ["env=a", "flag"]⟩

/-- A request for another name and a retention. -/
def retain : Wire.UpdateRequest := ⟨"1", "prj", some "b", none, some .static, none⟩

end Small

theorem Repository.updates_compose_small :
    let repo : Repository := ⟨.project "prj", false⟩
    let now := Small.stamp.now
    let x₁ := (repo.update now Small.rename).serve (Small.twoRecords, fun _ => 0)
    let x₂ := (repo.update now Small.retain).serve x₁.2
    let new : Record := { Small.record with
      name := "b", retention := .static, tags := .ofStrings ["env=a", "flag"] }
    let refused := (repo.update now { Small.rename with kind := some .unspecified }).serve
      (Small.twoRecords, fun _ => 0)
    (x₂.1 = .ok new ∧ Small.twoRecords.Replaces x₂.2.1 new ∧
      (repo.update now (Small.retain.fillFrom Small.rename)).Puts (Small.twoRecords, fun _ => 1) new) ∧
    refused.2.1 = Small.twoRecords ∧ refused.1 = .error (.invalid .kindUnspecified) := by
  intro repo now x₁ x₂ new refused
  have hids : (Small.twoRecords.store.records.map Record.id).Nodup := by decide
  obtain ⟨hcompose, hrefuse⟩ := repo.updates_compose Small.twoRecords hids Small.record (by decide)
  have h₁ : x₁.1 = .ok (revised now Small.rename Small.record) := rfl
  have h₂ : x₂.1 = .ok new := rfl
  obtain ⟨-, -, hreplaces, -, honce⟩ := hcompose Small.rename Small.retain rfl rfl now now
    (fun _ => 0) _ new h₁ h₂
  obtain ⟨hkept, hrefused⟩ :=
    (hrefuse { Small.rename with kind := some .unspecified } now).2 rfl fun _ => 0
  exact ⟨⟨h₂, hreplaces, (honce now fun _ => 1).1⟩, hkept, hrefused rfl (by decide)⟩

end Ipam
