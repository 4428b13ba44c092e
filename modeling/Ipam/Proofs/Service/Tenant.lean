import Ipam.Proofs.Service.Refinement
import Ipam.Proofs.Store.Project

/-!
# What a project can learn of others

A request of the address service that is no create does the same, for all that concerns its project,
where the store has the records of that project only (`Service.handle_ofProject`). So the project
learns nothing of the records of others, not even whether there are any, and it leaves them alone
(`Service.noninterference`).

`Request.Confined` says this of any part of a request. The parts that a request is made of are
confined, and confined parts make a confined whole.
-/

namespace Ipam

open Request

/-- The memory in which the store has the records of one project only. -/
def Memory.ofProject (m : Memory) (p : String) : Memory := { m with store := m.store.ofProject p }

/-- The records of other projects are as before, and no two records share an id. -/
structure Memory.Spares (p : String) (m m' : Memory) : Prop where
  foreign : m'.store.foreign p = m.store.foreign p
  ids_nodup : (m'.store.records.map Record.id).Nodup

/-- What is answered, and what becomes of the records of a project, is the same where the store has
no other records, and those are left alone. An answer that is no error meets a condition. -/
def Request.Confined {α : Type} (p : String) (x : Request α) (m : Memory) (picks : Picks)
    (Q : α → Memory → Prop) : Prop :=
  (m.store.records.map Record.id).Nodup → ∃ r m' picks', x.serve (m, picks) = (r, m', picks') ∧
    x.serve (m.ofProject p, picks) = (r, m'.ofProject p, picks') ∧ m.Spares p m' ∧
    ∀ a, r = .ok a → Q a m'

namespace Request.Confined

variable {α β : Type} {p : String} {m : Memory} {picks : Picks}

theorem bind {x : Request α} {f : α → Request β} {Q : β → Memory → Prop}
    (h : x.Confined p m picks fun a m' => ∀ picks', (f a).Confined p m' picks' Q) :
    (x >>= f : Request β).Confined p m picks Q := by
  intro hids
  obtain ⟨r, m₁, picks₁, hserve, hsmall, hspares, hnext⟩ := h hids
  cases r with
  | error e =>
    refine ⟨.error e, m₁, picks₁, serve_bind_error hserve, serve_bind_error hsmall, hspares, ?_⟩
    intro a ha
    cases ha
  | ok a =>
    obtain ⟨r, m₂, picks₂, hserve₂, hsmall₂, hspares₂, hQ⟩ := hnext a rfl picks₁ hspares.ids_nodup
    exact ⟨r, m₂, picks₂, (serve_bind_ok hserve).trans hserve₂, (serve_bind_ok hsmall).trans hsmall₂,
      ⟨hspares₂.foreign.trans hspares.foreign, hspares₂.ids_nodup⟩, hQ⟩

theorem mono {x : Request α} {Q R : α → Memory → Prop} (h : x.Confined p m picks Q)
    (hQ : ∀ a m', Q a m' → R a m') : x.Confined p m picks R := by
  intro hids
  obtain ⟨r, m', picks', hserve, hsmall, hspares, hr⟩ := h hids
  exact ⟨r, m', picks', hserve, hsmall, hspares, fun a ha => hQ a m' (hr a ha)⟩

theorem map {x : Request α} {f : α → β} {Q : α → Memory → Prop} (h : x.Confined p m picks Q) :
    (do return f (← x) : Request β).Confined p m picks fun _ _ => True := by
  intro hids
  obtain ⟨r, m', picks', hserve, hsmall, hspares, -⟩ := h hids
  refine ⟨r.map f, m', picks', ?_, ?_, hspares, fun _ _ => trivial⟩
  · rw [serve_map, hserve]
  · rw [serve_map, hsmall]

theorem ofExcept {r : Except RequestError α} {Q : α → Memory → Prop} (h : ∀ a, r = .ok a → Q a m) :
    (Request.ofExcept r).Confined p m picks Q :=
  fun hids => ⟨r, m, picks, rfl, rfl, ⟨rfl, hids⟩, h⟩

theorem pure {a : α} {Q : α → Memory → Prop} (h : Q a m) :
    (Pure.pure a : Request α).Confined p m picks Q := by
  refine fun hids => ⟨.ok a, m, picks, rfl, rfl, ⟨rfl, hids⟩, ?_⟩
  rintro b ⟨⟩
  exact h

theorem accept {r : Except StoreError α} {Q : α → Memory → Prop} (h : ∀ a, r = .ok a → Q a m) :
    (Request.accept r).Confined p m picks Q := by
  refine fun hids => ⟨r.mapError .ofStore, m, picks, rfl, rfl, ⟨rfl, hids⟩, fun a ha => ?_⟩
  cases r with
  | error e => cases ha
  | ok b =>
    cases ha
    exact h _ rfl

/-- A call is confined if it is performed in the same way where the store has no other records. -/
theorem ask {c : Call} {Q : c.Answer → Memory → Prop}
    (h : (m.store.records.map Record.id).Nodup → ∀ pick, ∃ m', (m.perform pick c).2 = m' ∧
      (m.ofProject p).perform pick c = ((m.perform pick c).1, m'.ofProject p) ∧ m.Spares p m' ∧
      Q (m.perform pick c).1 m') :
    (Request.ask c).Confined p m picks Q := by
  intro hids
  obtain ⟨m', hm, hsmall, hspares, hQ⟩ := h hids (picks 0)
  refine ⟨.ok (m.perform (picks 0) c).1, m', picks.tail, ?_, ?_, hspares, ?_⟩
  · rw [serve_ask, hm]
  · rw [serve_ask, hsmall]
  · rintro a ⟨⟩
    exact hQ

end Request.Confined

/-! ## The operations -/

section

variable {p : String} {m : Memory} {picks : Picks} {repo : Repository}

/-- A record of another project is answered for like one that is not there. -/
theorem Repository.get_confined (hrepo : repo.scope = .project p) (id : String) :
    (repo.get id).Confined p m picks fun r m' => m' = m ∧ r ∈ m.store.own p := by
  intro hids
  have hadmits : ∀ q, repo.scope.admits q = true ↔ q = p := by
    intro q
    rw [hrepo]
    exact decide_eq_true_iff.trans eq_comm
  have hsmall := serve_get (m := m.ofProject p) repo id (Store.ids_nodup_own hids) picks
  rcases serve_get repo id hids picks with ⟨r, hr, hid, ha, hget⟩ | ⟨hnone, hget⟩
  · have hown : r ∈ m.store.own p := Store.mem_own.2 ⟨hr, (hadmits r.projectId).1 ha⟩
    rcases hsmall with ⟨o, ho, hoid, -, hsmall⟩ | ⟨hnone, -⟩
    · have he := Store.eq_of_id_eq hids (Store.mem_own.1 ho).1 hr (hoid.trans hid.symm)
      subst he
      refine ⟨.ok o, m, picks.tail, hget, hsmall, ⟨rfl, hids⟩, ?_⟩
      rintro a ⟨⟩
      exact ⟨rfl, hown⟩
    · rw [hnone r hown hid] at ha
      cases ha
  · rcases hsmall with ⟨o, ho, hoid, ha, -⟩ | ⟨-, hsmall⟩
    · rw [hnone o (Store.mem_own.1 ho).1 hoid] at ha
      cases ha
    · refine ⟨_, m, picks.tail, hget, hsmall, ⟨rfl, hids⟩, ?_⟩
      rintro a ⟨⟩

theorem Repository.list_confined (hrepo : repo.scope = .project p) (q : Query) :
    (repo.list q).Confined p m picks fun _ _ => True := by
  intro hids
  refine ⟨_, m, picks.tail, serve_list repo q m picks, ?_, ⟨rfl, hids⟩, fun _ _ => trivial⟩
  rw [serve_list, hrepo]
  have hlist : (m.ofProject p).store.list (q.within (.project p)) =
      m.store.list (q.within (.project p)) := m.store.list_ofProject q p
  rw [hlist]

theorem Repository.update_confined (hrepo : repo.scope = .project p) (now : Instant)
    (req : Wire.UpdateRequest) : (repo.update now req).Confined p m picks fun _ _ => True := by
  refine .bind ((repo.get_confined hrepo req.ip).mono ?_)
  rintro old m₁ ⟨rfl, hown⟩ picks
  refine .bind (.ofExcept fun new hnew picks => .bind (.ask fun hids pick => ?_))
  have hrev := revise_eq_ok hnew
  have hproject : new.projectId = p := hrev.projectId.trans (Store.mem_own.1 hown).2
  obtain ⟨t, hu, hsmall, hforeign, hids'⟩ := Store.update_ofProject hids hown hproject hrev.id
  refine ⟨{ m₁ with store := t }, ?_, ?_, ⟨hforeign, hids'⟩, ?_⟩
  · simp only [Memory.perform, hu]
  · simp only [Memory.perform, Memory.ofProject, hu, hsmall]
  · intro picks
    exact .bind (.accept fun _ _ _ => .pure trivial)

theorem release_confined (a : Addr) (q : Prefix) :
    (release a q).Confined p m picks fun _ m' => m'.store = m.store := by
  refine .bind (.ask fun hids pick => ⟨_, rfl, rfl, ⟨rfl, hids⟩, fun picks => ?_⟩)
  exact .ofExcept fun _ _ => rfl

theorem Repository.delete_confined (hrepo : repo.scope = .project p) (id : String) :
    (repo.delete id).Confined p m picks fun _ _ => True := by
  refine .bind ((repo.get_confined hrepo id).mono ?_)
  rintro r _ ⟨rfl, hown⟩ picks
  refine .bind ((release_confined r.address r.parentPrefix).mono ?_)
  intro back m₁ hstore picks
  rw [← hstore] at hown
  refine .bind (.ask fun hids pick => ?_)
  obtain ⟨t, hd, hsmall, hforeign, hids'⟩ := Store.delete_ofProject hids hown
  refine ⟨{ m₁ with store := t }, ?_, ?_, ⟨hforeign, hids'⟩, ?_⟩
  · simp only [Memory.perform, hd]
  · simp only [Memory.perform, Memory.ofProject, hd, hsmall]
  · intro picks
    exact .bind (.accept fun _ _ _ => .pure trivial)

end

/-! ## The service -/

namespace Service

/-- Whether a request takes an address. -/
def Ask.isCreate : Ask → Bool
  | .create .. => true
  | _ => false

variable {s : Service} {p : String} {m : Memory} {picks : Picks}

theorem confined_scoped {α : Type} {body : Repository → Request α}
    (h : ∀ repo : Repository, repo.scope = .project p →
      ∀ picks, (body repo).Confined p m picks fun _ _ => True) :
    (s.repository p >>= body : Request α).Confined p m picks fun _ _ => True := by
  refine .bind (.bind (.ofExcept fun scope hscope picks => .pure fun picks => h _ ?_ picks))
  unfold Scope.ofProject at hscope
  split at hscope
  · cases hscope
  · cases hscope
    rfl

/-- A request that is no create is confined to the project that it names. -/
theorem request_confined (s : Service) {ask : Ask} (hask : ask.isCreate = false) :
    (s.request ask).Confined ask.project m picks fun _ _ => True := by
  cases ask with
  | get req =>
    exact .map (confined_scoped fun repo hrepo picks => (repo.get_confined hrepo req.ip).map)
  | list req =>
    refine .map (confined_scoped fun repo hrepo picks => .bind (.ofExcept fun q hq picks => ?_))
    exact (repo.list_confined hrepo q).map
  | create stamp req => cases hask
  | update now req =>
    exact .map (confined_scoped fun repo hrepo picks => (repo.update_confined hrepo now req).map)
  | delete req =>
    exact .map (confined_scoped fun repo hrepo picks => (repo.delete_confined hrepo req.ip).map)

/-- A request that is no create is answered as if the store had the records of its project only. -/
theorem handle_ofProject (s : Service) {ask : Ask} (hask : ask.isCreate = false)
    (hids : (m.store.records.map Record.id).Nodup) (picks : Picks) :
    s.handle (m.ofProject ask.project) ask picks =
        ((s.handle m ask picks).1, (s.handle m ask picks).2.ofProject ask.project) ∧
      m.Spares ask.project (s.handle m ask picks).2 := by
  have hconfined : (s.request ask).Confined ask.project m picks fun _ _ => True :=
    s.request_confined hask
  obtain ⟨r, m', picks', hserve, hsmall, hspares, -⟩ := hconfined hids
  unfold handle
  rw [hserve, hsmall]
  exact ⟨rfl, hspares⟩

theorem session_ofProject (s : Service) {asks : List (Ask × Picks)}
    (hasks : ∀ a ∈ asks, a.1.project = p ∧ a.1.isCreate = false)
    (hids : (m.store.records.map Record.id).Nodup) :
    s.session (m.ofProject p) asks = ((s.session m asks).1, (s.session m asks).2.ofProject p) ∧
      m.Spares p (s.session m asks).2 := by
  induction asks generalizing m with
  | nil => exact ⟨rfl, rfl, hids⟩
  | cons a asks ih =>
    obtain ⟨ask, picks⟩ := a
    obtain ⟨hp, hask⟩ := hasks _ List.mem_cons_self
    obtain ⟨hhandle, hspares⟩ := s.handle_ofProject hask hids picks
    rw [hp] at hhandle hspares
    obtain ⟨hsession, hspares'⟩ :=
      ih (fun a ha => hasks a (List.mem_cons_of_mem _ ha)) hspares.ids_nodup
    refine ⟨?_, hspares'.foreign.trans hspares.foreign, hspares'.ids_nodup⟩
    simp only [session, hhandle, hsession]

/-- Where two worlds agree on networks, projects and addresses and on the records of a project, that
project cannot tell them apart by reading, listing, changing and deleting records: it gets the same
answers, errors and their wording included, and the worlds go on to agree. In neither world is the
record of another project added, changed or removed. -/
theorem noninterference (s : Service) {p : String} {m₁ m₂ : Memory}
    (hcatalog : m₁.catalog = m₂.catalog) (hpool : m₁.pool = m₂.pool)
    (hown : m₁.store.own p = m₂.store.own p)
    (hids₁ : (m₁.store.records.map Record.id).Nodup)
    (hids₂ : (m₂.store.records.map Record.id).Nodup) {asks : List (Ask × Picks)}
    (hasks : ∀ a ∈ asks, a.1.project = p ∧ a.1.isCreate = false) :
    let t₁ := s.session m₁ asks
    let t₂ := s.session m₂ asks
    t₁.1 = t₂.1 ∧ t₁.2.store.own p = t₂.2.store.own p ∧ t₁.2.pool = t₂.2.pool ∧
      t₁.2.store.foreign p = m₁.store.foreign p ∧ t₂.2.store.foreign p = m₂.store.foreign p := by
  intro t₁ t₂
  have hsame : m₁.ofProject p = m₂.ofProject p := by
    simp only [Memory.ofProject, Store.ofProject, hcatalog, hpool, hown]
  obtain ⟨hsession₁, hspares₁⟩ := s.session_ofProject hasks hids₁
  obtain ⟨hsession₂, hspares₂⟩ := s.session_ofProject hasks hids₂
  rw [hsame, hsession₂] at hsession₁
  have hanswers : t₁.1 = t₂.1 := (congrArg Prod.fst hsession₁).symm
  have hmemory : t₁.2.ofProject p = t₂.2.ofProject p := (congrArg Prod.snd hsession₁).symm
  have hrecords := congrArg (fun m => m.store.records) hmemory
  have hpools := congrArg Memory.pool hmemory
  exact ⟨hanswers, hrecords, hpools, hspares₁.foreign, hspares₂.foreign⟩

/-- A memory that has records of another project around the one of the project. -/
def crowded : Memory :=
  { Small.memory with store := ⟨9, [{ Small.record with id := "7", projectId := "other" },
    Small.record, { Small.record with id := "3", projectId := "other" }]⟩ }

/-- A project asks for the records of another one, and for its own. -/
def probes : List (Ask × Picks) :=
  [.get ⟨"7", "prj"⟩, .update Small.stamp.now ⟨"3", "prj", some "a", none, none, none⟩,
    .delete ⟨"7", "prj"⟩, .update Small.stamp.now ⟨"1", "prj", some "b", none, none, none⟩,
    .list ⟨none, none, some "prj", none, none, none, none, [], none, none⟩,
    .delete ⟨"1", "prj"⟩].map fun ask => (ask, fun _ => 0)

theorem noninterference_crowded :
    Small.memory.catalog = crowded.catalog ∧ Small.memory.pool = crowded.pool ∧
    Small.memory.store.own "prj" = crowded.store.own "prj" ∧
    (Small.memory.store.records.map Record.id).Nodup ∧ (crowded.store.records.map Record.id).Nodup ∧
    (∀ a ∈ probes, a.1.project = "prj" ∧ a.1.isCreate = false) ∧
    (let t₁ := session ⟨false⟩ Small.memory probes
    let t₂ := session ⟨false⟩ crowded probes
    t₁.1.map (fun r => r.toBool) = [false, false, false, true, true, true] ∧ t₁.1 = t₂.1 ∧
      t₂.2.store.records.map Record.id = ["7", "3"]) := by
  have hcatalog : Small.memory.catalog = crowded.catalog := rfl
  have hpool : Small.memory.pool = crowded.pool := rfl
  have hown : Small.memory.store.own "prj" = crowded.store.own "prj" := by decide
  have hids₁ : (Small.memory.store.records.map Record.id).Nodup := by decide
  have hids₂ : (crowded.store.records.map Record.id).Nodup := by decide
  have hasks : ∀ a ∈ probes, a.1.project = "prj" ∧ a.1.isCreate = false := by decide
  have hsame := noninterference ⟨false⟩ hcatalog hpool hown hids₁ hids₂ hasks
  exact ⟨hcatalog, hpool, hown, hids₁, hids₂, hasks, by decide +kernel, hsame.1, by decide +kernel⟩

end Service

end Ipam
