import Ipam.Proofs.Course.Fate
import Ipam.Proofs.Service.Grant
import Ipam.Proofs.Service.Outcome
import Ipam.Proofs.Tag.Merge

/-!
# What lists answer

A list request says which records it is for (`Wire.ListRequest.Selects`). A list answers just those
of the store, in the order of the store, without the ones that are bound to a machine; the list of a
project and the list across all projects are told apart by the project alone
(`Service.list_exact`).
-/

namespace Ipam

namespace Wire.ListRequest

variable {req : Wire.ListRequest} {r : Record}

/-- The texts of a list request that name an address, an identifier or a prefix do so. -/
structure Readable (req : Wire.ListRequest) : Prop where
  ip : ∀ raw ∈ req.ip, ∃ a, Addr.parse? raw = some a
  uuid : ∀ raw ∈ req.uuid, ∃ u, Uuid.parse raw = .ok u
  parentPrefix : ∀ raw ∈ req.parentPrefix, ∃ p, Prefix.parse? raw = some p

/-- A record is one of those that a list request is for. -/
structure Selects (req : Wire.ListRequest) (r : Record) : Prop where
  address : ∀ raw ∈ req.ip, Addr.parse? raw = some r.address
  network : ∀ id ∈ req.network, r.networkId = id
  project : ∀ id ∈ req.project, r.projectId = id
  name : ∀ name ∈ req.name, r.name = name
  uuid : ∀ raw ∈ req.uuid, Uuid.parse raw = .ok r.allocationId
  machine : ∀ id ∈ req.machineId, r.tags.machineId? = some id
  parentPrefix : ∀ raw ∈ req.parentPrefix, Prefix.parse? raw = some r.parentPrefix
  tags : ∀ t ∈ (TagSet.ofStrings req.tags).toList, t ∈ r.tags.toList
  kind : ∀ kind ∈ req.kind, kind ≠ .unspecified → kind = .ofRetention r.retention
  family : ∀ name ∈ req.family, name ≠ .unspecified → name.family = .ok r.family

theorem selects_iff :
    req.Selects r ↔ (∀ raw ∈ req.ip, Addr.parse? raw = some r.address) ∧
      (∀ id ∈ req.network, r.networkId = id) ∧ (∀ id ∈ req.project, r.projectId = id) ∧
      (∀ name ∈ req.name, r.name = name) ∧
      (∀ raw ∈ req.uuid, Uuid.parse raw = .ok r.allocationId) ∧
      (∀ id ∈ req.machineId, r.tags.machineId? = some id) ∧
      (∀ raw ∈ req.parentPrefix, Prefix.parse? raw = some r.parentPrefix) ∧
      (∀ t ∈ (TagSet.ofStrings req.tags).toList, t ∈ r.tags.toList) ∧
      (∀ kind ∈ req.kind, kind ≠ .unspecified → kind = .ofRetention r.retention) ∧
      ∀ name ∈ req.family, name ≠ .unspecified → name.family = .ok r.family :=
  ⟨fun ⟨h₁, h₂, h₃, h₄, h₅, h₆, h₇, h₈, h₉, h₁₀⟩ => ⟨h₁, h₂, h₃, h₄, h₅, h₆, h₇, h₈, h₉, h₁₀⟩,
    fun ⟨h₁, h₂, h₃, h₄, h₅, h₆, h₇, h₈, h₉, h₁₀⟩ => ⟨h₁, h₂, h₃, h₄, h₅, h₆, h₇, h₈, h₉, h₁₀⟩⟩

instance (req : Wire.ListRequest) (r : Record) : Decidable (req.Selects r) :=
  decidable_of_iff _ selects_iff.symm

/-- A request for the records of one project selects those that it would select of all projects
and that are the project's. -/
theorem selects_project {p : String} :
    Selects { req with project := some p } r ↔
      Selects { req with project := none } r ∧ r.projectId = p := by
  constructor
  · intro h
    exact ⟨{ h with project := nofun }, h.project p rfl⟩
  · rintro ⟨h, hp⟩
    refine { h with project := ?_ }
    rintro id ⟨⟩
    exact hp

/-- A request that names a machine selects no record but ones that are bound to it. -/
theorem Selects.not_visible (h : req.Selects r) (hmachine : req.machineId ≠ none) :
    r.tags.isMachineBound = true := by
  obtain ⟨machine, hm⟩ := Option.ne_none_iff_exists'.1 hmachine
  exact TagSet.isMachineBound_of_machineId? (h.machine machine hm)

end Wire.ListRequest

/-- No tag of a record has the key that binds it to a machine, with a value or without one. -/
def Record.Visible (r : Record) : Prop := ∀ t ∈ r.tags.toList, t.key ≠ Tag.machineKey

theorem Record.visible_iff {r : Record} : r.Visible ↔ r.tags.isMachineBound = false :=
  TagSet.isMachineBound_eq_false_iff.symm

instance (r : Record) : Decidable r.Visible := decidable_of_iff _ Record.visible_iff.symm

/-! ## The query of a request -/

namespace Query

variable {α : Type}

theorem meets_iff [DecidableEq α] {wanted : Option α} {value : α} :
    meets wanted value = true ↔ ∀ w ∈ wanted, value = w := by
  cases wanted with
  | none => simp [meets]
  | some w =>
    simp only [meets, decide_eq_true_iff, Option.mem_some_iff, forall_eq']
    exact eq_comm

theorem readOptional_isOk {read : String → Except RequestError α} {raw : Option String} :
    (∃ a, readOptional read raw = .ok a) ↔ ∀ s ∈ raw, ∃ a, read s = .ok a := by
  cases raw with
  | none => simp [readOptional]
  | some s =>
    simp only [Option.mem_some_iff, forall_eq']
    constructor
    · rintro ⟨a, ha⟩
      cases hs : read s with
      | ok b => exact ⟨b, rfl⟩
      | error e =>
        rw [readOptional, hs] at ha
        cases ha
    · rintro ⟨a, ha⟩
      exact ⟨some a, by rw [readOptional, ha]; rfl⟩

/-- A text that is read is a criterion for the value that it names. -/
theorem meets_readOptional [DecidableEq α] {read : String → Except RequestError α}
    {raw : Option String} {wanted : Option α} (h : readOptional read raw = .ok wanted) {value : α} :
    meets wanted value = true ↔ ∀ s ∈ raw, read s = .ok value := by
  cases raw with
  | none =>
    cases h
    simp [meets]
  | some s =>
    cases hs : read s with
    | error e =>
      rw [readOptional, hs] at h
      cases h
    | ok w =>
      rw [readOptional, hs] at h
      cases h
      simp [meets, hs]

theorem readAddress_eq_ok {raw : String} {a : Addr} :
    readAddress raw = .ok a ↔ Addr.parse? raw = some a := by
  unfold readAddress
  cases Addr.parse? raw <;> simp

theorem readUuid_eq_ok {raw : String} {u : Uuid} :
    readUuid raw = .ok u ↔ Uuid.parse raw = .ok u := by
  unfold readUuid
  cases Uuid.parse raw <;> simp

theorem readPrefix_eq_ok {raw : String} {p : Prefix} :
    readPrefix raw = .ok p ↔ Prefix.parse? raw = some p := by
  unfold readPrefix
  cases Prefix.parse? raw <;> simp

theorem meets_retention {wanted : Option Wire.Kind} {retention : Retention} :
    meets (wanted.bind Wire.Kind.retention?) retention = true ↔
      ∀ kind ∈ wanted, kind ≠ .unspecified → kind = .ofRetention retention := by
  cases wanted with
  | none => simp [meets]
  | some kind =>
    cases kind <;> cases retention <;>
      simp [meets, Wire.Kind.retention?, Wire.Kind.ofRetention]

theorem meets_family {wanted : Option Wire.FamilyName} {family : Family} :
    meets (wanted.bind Wire.FamilyName.family?) family = true ↔
      ∀ name ∈ wanted, name ≠ .unspecified → name.family = .ok family := by
  cases wanted with
  | none => simp [meets]
  | some name =>
    cases name <;> cases family <;>
      simp [meets, Wire.FamilyName.family?, Wire.FamilyName.family]

/-- A request has a query if its texts can be read. -/
theorem exists_ofRequest {req : Wire.ListRequest} (h : req.Readable) :
    ∃ q, ofRequest req = .ok q := by
  obtain ⟨address, haddress⟩ := readOptional_isOk.2 fun raw hraw =>
    (h.ip raw hraw).imp fun _ ha => readAddress_eq_ok.2 ha
  obtain ⟨allocationId, huuid⟩ := readOptional_isOk.2 fun raw hraw =>
    (h.uuid raw hraw).imp fun _ hu => readUuid_eq_ok.2 hu
  obtain ⟨parentPrefix, hprefix⟩ := readOptional_isOk.2 fun raw hraw =>
    (h.parentPrefix raw hraw).imp fun _ hp => readPrefix_eq_ok.2 hp
  exact ⟨_, bind_eq_ok.2 ⟨address, haddress, bind_eq_ok.2 ⟨allocationId, huuid,
    bind_eq_ok.2 ⟨parentPrefix, hprefix, rfl⟩⟩⟩⟩

theorem readable_of_ofRequest {req : Wire.ListRequest} {q : Query} (h : ofRequest req = .ok q) :
    req.Readable := by
  obtain ⟨address, haddress, h⟩ := bind_eq_ok.1 h
  obtain ⟨allocationId, huuid, h⟩ := bind_eq_ok.1 h
  obtain ⟨parentPrefix, hprefix, -⟩ := bind_eq_ok.1 h
  constructor
  · intro raw hraw
    exact (readOptional_isOk.1 ⟨_, haddress⟩ raw hraw).imp fun _ => readAddress_eq_ok.1
  · intro raw hraw
    exact (readOptional_isOk.1 ⟨_, huuid⟩ raw hraw).imp fun _ => readUuid_eq_ok.1
  · intro raw hraw
    exact (readOptional_isOk.1 ⟨_, hprefix⟩ raw hraw).imp fun _ => readPrefix_eq_ok.1

/-- A request that cannot be read is refused as wrong. -/
theorem ofRequest_of_not_readable {req : Wire.ListRequest} (h : ¬ req.Readable) :
    ∃ e, e.kind = .invalidArgument ∧ ofRequest req = .error e := by
  cases hq : ofRequest req with
  | ok q => exact absurd (readable_of_ofRequest hq) h
  | error e => exact ⟨e, ofRequest_kind hq, rfl⟩

/-- The project of a request is read as it is. -/
theorem ofRequest_project (req : Wire.ListRequest) (project : Option String) :
    ofRequest { req with project := project } =
      (ofRequest req).map fun q => { q with projectId := project } := by
  unfold ofRequest
  dsimp only
  cases readOptional readAddress req.ip with
  | error e => rfl
  | ok address =>
    cases readOptional readUuid req.uuid with
    | error e => rfl
    | ok allocationId => cases readOptional readPrefix req.parentPrefix <;> rfl

theorem admits_iff {q : Query} {r : Record} :
    q.admits r = true ↔ meets q.address r.address = true ∧ meets q.networkId r.networkId = true ∧
      meets q.projectId r.projectId = true ∧ meets q.name r.name = true ∧
      meets q.allocationId r.allocationId = true ∧ meets q.parentPrefix r.parentPrefix = true ∧
      meets q.retention r.retention = true ∧ meets q.family r.family = true ∧
      (∀ machine ∈ q.machineId, r.tags.machineId? = some machine) ∧
      ∀ t ∈ q.tags.toList, t ∈ r.tags.toList := by
  unfold admits
  cases q.machineId <;> simp [TagSet.containsAll_iff, and_assoc]

/-- The query of a request admits the records that the request is for. -/
theorem admits_iff_selects {req : Wire.ListRequest} {q : Query} (h : ofRequest req = .ok q)
    {r : Record} : q.admits r = true ↔ req.Selects r := by
  obtain ⟨address, haddress, h⟩ := bind_eq_ok.1 h
  obtain ⟨allocationId, huuid, h⟩ := bind_eq_ok.1 h
  obtain ⟨parentPrefix, hprefix, h⟩ := bind_eq_ok.1 h
  cases h
  rw [admits_iff, meets_readOptional haddress, meets_readOptional huuid,
    meets_readOptional hprefix, meets_retention, meets_family]
  simp only [meets_iff, readAddress_eq_ok, readUuid_eq_ok, readPrefix_eq_ok]
  constructor
  · rintro ⟨haddress, hnetwork, hproject, hname, huuid, hprefix, hkind, hfamily, hmachine, htags⟩
    exact ⟨haddress, hnetwork, hproject, hname, huuid, hmachine, hprefix, htags, hkind, hfamily⟩
  · rintro ⟨haddress, hnetwork, hproject, hname, huuid, hmachine, hprefix, htags, hkind, hfamily⟩
    exact ⟨haddress, hnetwork, hproject, hname, huuid, hprefix, hkind, hfamily, hmachine, htags⟩

end Query

/-! ## Lists that are served -/

section

open Request

/-- The records that a list request is for and that are not bound to a machine. -/
def Store.listed (s : Store) (req : Wire.ListRequest) : List Record :=
  s.records.filter fun r => req.Selects r ∧ r.Visible

theorem Store.filter_list {s : Store} {req : Wire.ListRequest} {q : Query}
    (hq : Query.ofRequest req = .ok q) :
    (s.list q).filter (fun r => !r.tags.isMachineBound) = s.listed req := by
  rw [Store.list, List.filter_filter, Store.listed]
  refine List.filter_congr fun r _ => ?_
  rw [Bool.eq_iff_iff, Bool.and_eq_true, decide_eq_true_iff, Bool.not_eq_true',
    Query.admits_iff_selects hq, Record.visible_iff]
  exact and_comm

theorem Store.listed_project (s : Store) (req : Wire.ListRequest) (p : String) :
    s.listed { req with project := some p } =
      (s.listed { req with project := none }).filter fun r => r.projectId = p := by
  rw [Store.listed, Store.listed, List.filter_filter]
  refine List.filter_congr fun r _ => ?_
  rw [← Bool.decide_and, decide_eq_decide, Wire.ListRequest.selects_project]
  tauto

theorem Store.listed_machine (s : Store) {req : Wire.ListRequest} (h : req.machineId ≠ none) :
    s.listed req = [] := by
  refine List.filter_eq_nil_iff.2 fun r _ hr => ?_
  obtain ⟨hselects, hvisible⟩ := of_decide_eq_true hr
  have hbound : r.tags.isMachineBound = true := hselects.not_visible h
  rw [Record.visible_iff.1 hvisible] at hbound
  cases hbound

/-- A list whose texts can be read makes one call, and answers what it is for. -/
theorem serve_listed (repo : Repository) {req : Wire.ListRequest} {q : Query}
    (hq : Query.ofRequest req = .ok q) (hscope : q.within repo.scope = q) (m : Memory)
    (picks : Picks) :
    (do
      let q ← Request.ofExcept (Query.ofRequest req)
      return (← repo.list q).map Record.toWire : Request (List Wire.Ip)).serve (m, picks) =
    (.ok ((m.store.listed req).map Record.toWire), m, picks.tail) := by
  rw [hq, serve_bind_ok (serve_ofExcept _ _), serve_map, serve_list, hscope,
    Store.filter_list hq]
  rfl

theorem AdminService.serve_list_of_readable {req : Wire.ListRequest} (h : req.Readable) (m : Memory)
    (picks : Picks) :
    (AdminService.list req).serve (m, picks) =
      (.ok ((m.store.listed req).map Record.toWire), m, picks.tail) := by
  obtain ⟨q, hq⟩ := Query.exists_ofRequest h
  exact serve_listed ⟨.unscoped, false⟩ hq rfl m picks

theorem AdminService.list_of_ofRequest {req : Wire.ListRequest} {e : RequestError}
    (h : Query.ofRequest req = .error e) : AdminService.list req = throw e := by
  unfold list
  rw [h]
  rfl

namespace Service

variable (svc : Service) {req : Wire.ListRequest} {p : String}

theorem serve_list_of_readable (hproject : req.project = some p) (hp : p ≠ "") (h : req.Readable)
    (m : Memory) (picks : Picks) :
    (svc.list req).serve (m, picks) =
      (.ok ((m.store.listed req).map Record.toWire), m, picks.tail) := by
  obtain ⟨q, hq⟩ := Query.exists_ofRequest h
  have hname : req.project.getD "" ≠ "" := by rwa [hproject]
  unfold list
  rw [serve_scoped, if_neg hname]
  exact serve_listed _ hq (Query.within_project hq hname) m picks

theorem list_of_ofRequest (hproject : req.project = some p) (hp : p ≠ "") {e : RequestError}
    (h : Query.ofRequest req = .error e) : svc.list req = throw e := by
  have hname : req.project.getD "" ≠ "" := by rwa [hproject]
  unfold list
  rw [svc.repository_eq hname, h]
  rfl

/-- A list of a project answers the records of the project that it is for, and a list across all
projects those of every project, each without the ones that are bound to a machine and in the order
of the store. The two agree on the project, and a list that names a machine answers nothing. Where a
text cannot be read the request is refused, before any call. -/
theorem list_exact (req : Wire.ListRequest) (hp : p ≠ "") (m : Memory) (picks : Picks) :
    let own : Wire.ListRequest := { req with project := some p }
    let all : Wire.ListRequest := { req with project := none }
    (req.Readable →
      (svc.list own).serve (m, picks) =
        (.ok (((m.store.listed all).filter fun r => r.projectId = p).map Record.toWire), m,
          picks.tail) ∧
      (AdminService.list req).serve (m, picks) =
        (.ok ((m.store.listed req).map Record.toWire), m, picks.tail) ∧
      (AdminService.list own).serve (m, picks) = (svc.list own).serve (m, picks) ∧
      ((AdminService.list all).serve (m, picks)).1.map
        (fun ws => ws.filter fun w => w.project = p) = ((svc.list own).serve (m, picks)).1 ∧
      (req.machineId ≠ none → ((svc.list own).serve (m, picks)).1 = .ok [] ∧
        ((AdminService.list req).serve (m, picks)).1 = .ok [])) ∧
    (¬ req.Readable → ∃ e, e.kind = .invalidArgument ∧ svc.list own = throw e ∧
      AdminService.list req = throw e) := by
  intro own all
  constructor
  · intro h
    have hreadOwn : own.Readable := ⟨h.ip, h.uuid, h.parentPrefix⟩
    have hreadAll : all.Readable := ⟨h.ip, h.uuid, h.parentPrefix⟩
    have hown := svc.serve_list_of_readable rfl hp hreadOwn m picks
    have hadmin := AdminService.serve_list_of_readable h m picks
    have hadminOwn := AdminService.serve_list_of_readable hreadOwn m picks
    have hall := AdminService.serve_list_of_readable hreadAll m picks
    have hproject : m.store.listed own = (m.store.listed all).filter fun r => r.projectId = p :=
      m.store.listed_project req p
    refine ⟨by rw [hown, hproject], hadmin, hadminOwn.trans hown.symm, ?_, fun hmachine => ?_⟩
    · rw [hall, hown, hproject]
      exact congrArg Except.ok List.filter_map
    · have hmachine' : own.machineId ≠ none := hmachine
      rw [hown, hadmin, m.store.listed_machine hmachine, m.store.listed_machine hmachine']
      exact ⟨rfl, rfl⟩
  · intro h
    obtain ⟨e, he, hq⟩ := Query.ofRequest_of_not_readable h
    have hqOwn : Query.ofRequest own = .error e := by
      rw [Query.ofRequest_project, hq]
      rfl
    exact ⟨e, he, svc.list_of_ofRequest rfl hp hqOwn, AdminService.list_of_ofRequest hq⟩

/-- A memory with a record of each of two projects and one that is bound to a machine. -/
def mixed : Memory :=
  { Small.memory with store := ⟨3, [
    { Small.record with tags := TagSet.ofStrings ["env=prod", "team=a"] },
    { Small.record with id := "2", projectId := "other", tags := TagSet.ofStrings ["env=prod"] },
    { Small.record with
      id := "3", tags := TagSet.ofStrings ["ipledger.io/machine-id=m", "env=prod"] }]⟩ }

/-- Asks for the records of a prefix that have some tags. -/
def tagged (tags : List String) : Wire.ListRequest :=
  ⟨none, none, none, none, none, none, some "10.0.0.0/24", tags, none, none⟩

theorem tagged_readable (tags : List String) : (tagged tags).Readable where
  ip := nofun
  uuid := nofun
  parentPrefix := by
    rintro raw ⟨⟩
    exact ⟨Small.slot.1, by decide +kernel⟩

theorem list_exact_mixed : "prj" ≠ "" ∧ (tagged ["env=prod"]).Readable ∧
    ((list ⟨false⟩ { tagged ["env=prod"] with project := some "prj" }).serve
      (mixed, fun _ => 0)).1.map (List.map Wire.Ip.id) = .ok ["1"] ∧
    ((AdminService.list (tagged ["env=prod"])).serve
      (mixed, fun _ => 0)).1.map (List.map Wire.Ip.id) = .ok ["1", "2"] := by
  have hp : "prj" ≠ "" := by decide
  obtain ⟨hanswers, -⟩ := list_exact ⟨false⟩ (tagged ["env=prod"]) hp mixed fun _ => 0
  obtain ⟨hown, hadmin, -⟩ := hanswers (tagged_readable _)
  refine ⟨hp, tagged_readable _, ?_, ?_⟩
  · rw [hown]
    decide +kernel
  · rw [hadmin]
    decide +kernel

end Service

end

end Ipam
