import Mathlib.Data.List.Perm.Basic
import Ipam.Call
import Ipam.Config.Basic
import Ipam.Proofs.Network.Families

/-!
# Valid configurations

A configuration passes its check just if it is valid (`Config.validate_eq_ok_iff`); in what order it
declares projects and networks does not matter for that (`Config.Valid.of_perm`). Lookups over a
valid configuration find every network as it was declared, and its project (`Config.validate_exact`).
-/

namespace Ipam

/-- A declared network is all right by itself, given the declared projects. -/
structure NetworkEntry.Valid (projects : List String) (e : NetworkEntry) : Prop where
  /-- It has an id. -/
  named : e.id ≠ ""
  /-- Its project is declared. -/
  owned : e.project ∈ projects
  /-- It has prefixes. -/
  prefixes_ne_nil : e.prefixes ≠ []
  /-- They can be read. -/
  readable : ∀ raw ∈ e.prefixes, ∃ p, Prefix.parse? raw = some p

/-- A declared network has a parent only if that is declared, anywhere; an empty id names none. -/
def NetworkEntry.HasParentIn (declared : List String) (e : NetworkEntry) : Prop :=
  ∀ parent, e.parent = some parent → parent ≠ "" → parent ∈ declared

/-- A configuration is all right. -/
structure Config.Valid (c : Config) : Prop where
  /-- Requests may take some time. -/
  timeout_pos : 0 < c.general.requestTimeout.nanos
  /-- Projects have ids. -/
  projects_named : ∀ id ∈ c.projects, id ≠ ""
  /-- No two projects share one. -/
  projects_nodup : c.projects.Nodup
  /-- Each network is all right by itself. -/
  networks_valid : ∀ e ∈ c.networks, e.Valid c.projects
  /-- No two networks share an id. -/
  networks_nodup : (c.networks.map NetworkEntry.id).Nodup
  /-- Parents are declared. -/
  parents_declared : ∀ e ∈ c.networks, e.HasParentIn (c.networks.map NetworkEntry.id)

/-- The network is what a declared network says, and nothing of that is lost. -/
structure NetworkEntry.Describes (e : NetworkEntry) (n : Network) : Prop where
  /-- It has the id. -/
  id_eq : n.id = e.id
  /-- Its project owns it. -/
  projectId_eq : n.projectId = e.project
  /-- It is shared as declared. -/
  shared_eq : n.shared = e.shared
  /-- It has the parent. -/
  parentId_eq : n.parentId = e.parent
  /-- Every text of a prefix is read, in order. -/
  prefixes_eq : n.prefixes.map some = e.prefixes.map Prefix.parse?
  /-- It offers the families of its prefixes, each once. -/
  consistent : n.Consistent

namespace Config

variable {c d : Config}

/-! ## What the checks accept -/

/-- No two ids are the same, and none is among those seen. -/
structure Fresh (seen ids : List String) : Prop where
  /-- No two are the same. -/
  nodup : ids.Nodup
  /-- None was seen. -/
  notMem : ∀ id ∈ ids, id ∉ seen

/-- Ids are checked one after the other, each against all those before it. -/
theorem fresh_cons_iff {seen ids : List String} {id : String} :
    Fresh seen (id :: ids) ↔ id ∉ seen ∧ Fresh (id :: seen) ids := by
  constructor
  · intro h
    obtain ⟨hfirst, hnodup⟩ := List.nodup_cons.1 h.nodup
    refine ⟨h.notMem id List.mem_cons_self, hnodup, fun o ho hs => ?_⟩
    rcases List.mem_cons.1 hs with rfl | hs
    · exact hfirst ho
    · exact h.notMem o (List.mem_cons_of_mem id ho) hs
  · rintro ⟨hid, h⟩
    refine ⟨List.nodup_cons.2 ⟨fun hmem => h.notMem id hmem List.mem_cons_self, h.nodup⟩, ?_⟩
    exact List.forall_mem_cons.2
      ⟨hid, fun o ho hs => h.notMem o ho (List.mem_cons_of_mem id hs)⟩

theorem fresh_nil_iff {ids : List String} : Fresh [] ids ↔ ids.Nodup :=
  ⟨Fresh.nodup, fun h => ⟨h, fun _ _ => List.not_mem_nil⟩⟩

/-- Ids of projects pass if there are no empty ones and no two are the same. -/
theorem checkProjects_eq_ok_iff {seen ids : List String} :
    checkProjects seen ids = .ok () ↔ (∀ id ∈ ids, id ≠ "") ∧ Fresh seen ids := by
  induction ids generalizing seen with
  | nil => simp [checkProjects, Fresh.mk]
  | cons id ids ih =>
    rw [checkProjects, List.forall_mem_cons, fresh_cons_iff]
    by_cases hempty : id = ""
    · simp [hempty]
    have hnamed : ¬ id.isEmpty = true := by simpa using hempty
    rw [if_neg hnamed]
    by_cases hseen : id ∈ seen
    · simp [hseen]
    rw [if_neg hseen, ih]
    tauto

theorem checkPrefixes_eq_ok_iff {network : String} {raws : List String} :
    checkPrefixes network raws = .ok () ↔ ∀ raw ∈ raws, ∃ p, Prefix.parse? raw = some p := by
  induction raws with
  | nil => simp [checkPrefixes]
  | cons raw raws ih =>
    rw [checkPrefixes, List.forall_mem_cons]
    cases hraw : Prefix.parse? raw with
    | none => simp
    | some p => simp [ih]

/-- Networks pass if each is all right by itself and no two share an id. -/
theorem checkNetworks_eq_ok_iff {projects seen : List String} {es : List NetworkEntry} :
    checkNetworks projects seen es = .ok () ↔
      (∀ e ∈ es, e.Valid projects) ∧ Fresh seen (es.map NetworkEntry.id) := by
  induction es generalizing seen with
  | nil => simp [checkNetworks, Fresh.mk]
  | cons e es ih =>
    rw [checkNetworks, List.forall_mem_cons, List.map_cons, fresh_cons_iff]
    by_cases hempty : e.id = ""
    · have hno : ¬ e.Valid projects := fun h => h.named hempty
      simp [hempty, hno]
    have hnamed : ¬ e.id.isEmpty = true := by simpa using hempty
    rw [if_neg hnamed]
    by_cases hseen : e.id ∈ seen
    · simp [hseen]
    rw [if_neg hseen]
    by_cases howned : e.project ∈ projects
    swap
    · have hno : ¬ e.Valid projects := fun h => howned h.owned
      simp [howned, hno]
    rw [if_neg (not_not.2 howned)]
    by_cases hprefixes : e.prefixes = []
    · have hno : ¬ e.Valid projects := fun h => h.prefixes_ne_nil hprefixes
      simp [hprefixes, hno]
    rw [if_neg hprefixes]
    cases hcheck : checkPrefixes e.id e.prefixes with
    | error f =>
      have hno : ¬ e.Valid projects := fun h => by
        rw [checkPrefixes_eq_ok_iff.2 h.readable] at hcheck
        cases hcheck
      simp [hno]
    | ok u =>
      have hvalid : e.Valid projects :=
        ⟨hempty, howned, hprefixes, checkPrefixes_eq_ok_iff.1 hcheck⟩
      refine ih.trans ?_
      tauto

theorem checkParents_eq_ok_iff {declared : List String} {es : List NetworkEntry} :
    checkParents declared es = .ok () ↔ ∀ e ∈ es, e.HasParentIn declared := by
  induction es with
  | nil => simp [checkParents]
  | cons e es ih =>
    rw [checkParents, List.forall_mem_cons]
    cases hparent : e.parent with
    | none =>
      have hhas : e.HasParentIn declared := fun parent hp => by
        rw [hparent] at hp
        cases hp
      simp [ih, hhas]
    | some parent =>
      have hhas : e.HasParentIn declared ↔ (parent ≠ "" → parent ∈ declared) := by
        simp [NetworkEntry.HasParentIn, hparent]
      by_cases hbad : (!parent.isEmpty) = true ∧ parent ∉ declared
      · have hno : ¬ e.HasParentIn declared := fun h => hbad.2 (hhas.1 h (by simpa using hbad.1))
        simp [hbad, hno]
      · have hyes : e.HasParentIn declared := hhas.2 fun hne => by
          by_contra hno
          exact hbad ⟨by simpa using hne, hno⟩
        simp only [hbad, if_false, hyes, true_and]
        exact ih

theorem bind_eq_ok_iff {ε : Type} {x y : Except ε Unit} :
    (x >>= fun _ => y) = .ok () ↔ x = .ok () ∧ y = .ok () := by
  cases x with
  | error e => simp [bind, Except.bind]
  | ok u => simp [bind, Except.bind]

/-- A configuration passes its check just if it is valid. -/
theorem validate_eq_ok_iff : c.validate = .ok () ↔ c.Valid := by
  unfold validate
  by_cases htimeout : c.general.requestTimeout.nanos = 0
  · rw [if_pos htimeout]
    have hno : ¬ c.Valid := fun h => Nat.ne_of_gt h.timeout_pos htimeout
    simp [hno]
  rw [if_neg htimeout, bind_eq_ok_iff, bind_eq_ok_iff, checkProjects_eq_ok_iff,
    checkNetworks_eq_ok_iff, checkParents_eq_ok_iff, fresh_nil_iff, fresh_nil_iff]
  constructor
  · rintro ⟨⟨hnamed, hprojects⟩, ⟨hvalid, hnetworks⟩, hparents⟩
    exact ⟨Nat.pos_of_ne_zero htimeout, hnamed, hprojects, hvalid, hnetworks, hparents⟩
  · intro h
    exact ⟨⟨h.projects_named, h.projects_nodup⟩, ⟨h.networks_valid, h.networks_nodup⟩,
      h.parents_declared⟩

/-- The order of projects and networks does not matter. -/
theorem Valid.of_perm (h : c.Valid) (hgeneral : d.general = c.general)
    (hprojects : c.projects.Perm d.projects) (hnetworks : c.networks.Perm d.networks) : d.Valid where
  timeout_pos := hgeneral ▸ h.timeout_pos
  projects_named id hid := h.projects_named id (hprojects.mem_iff.2 hid)
  projects_nodup := hprojects.nodup_iff.1 h.projects_nodup
  networks_valid e he := by
    have hvalid := h.networks_valid e (hnetworks.mem_iff.2 he)
    exact { hvalid with owned := hprojects.mem_iff.1 hvalid.owned }
  networks_nodup := (hnetworks.map _).nodup_iff.1 h.networks_nodup
  parents_declared e he parent hp hne :=
    (hnetworks.map _).mem_iff.1 (h.parents_declared e (hnetworks.mem_iff.2 he) parent hp hne)

/-! ## What is looked up -/

/-- Where all texts can be read, none is dropped. -/
theorem map_some_filterMap {raws : List String}
    (h : ∀ raw ∈ raws, ∃ p, Prefix.parse? raw = some p) :
    (raws.filterMap Prefix.parse?).map some = raws.map Prefix.parse? := by
  induction raws with
  | nil => rfl
  | cons raw raws ih =>
    obtain ⟨⟨p, hp⟩, hrest⟩ := List.forall_mem_cons.1 h
    rw [List.filterMap_cons_some hp, List.map_cons, List.map_cons, ih hrest, hp]

theorem describes_toNetwork {projects : List String} {e : NetworkEntry} (h : e.Valid projects) :
    e.Describes (NetworkEntry.toNetwork e) where
  id_eq := rfl
  projectId_eq := rfl
  shared_eq := rfl
  parentId_eq := rfl
  prefixes_eq := map_some_filterMap h.readable
  consistent := Network.consistent_of_families rfl

end Config

/-- Of things with distinct keys, the last one with a key is the only one. -/
theorem find?_reverse_of_nodup {α : Type} {key : α → String} {as : List α}
    (h : (as.map key).Nodup) {a : α} (ha : a ∈ as) :
    as.reverse.find? (fun b => decide (key b = key a)) = some a := by
  cases hfind : as.reverse.find? (fun b => decide (key b = key a)) with
  | none =>
    have hno := List.find?_eq_none.1 hfind a (List.mem_reverse.2 ha)
    simp at hno
  | some b =>
    have hb : b ∈ as := List.mem_reverse.1 (List.mem_of_find?_eq_some hfind)
    have hkey : key b = key a := by simpa using List.find?_some hfind
    rw [List.inj_on_of_nodup_map h hb ha hkey]

namespace Catalog

variable {c : Catalog}

theorem network_of_mem (h : (c.networks.map Network.id).Nodup) {n : Network} (hn : n ∈ c.networks) :
    c.network n.id = .ok n := by
  rw [network, find?_reverse_of_nodup h hn]

theorem project_of_mem (h : (c.projects.map Project.id).Nodup) {p : Project} (hp : p ∈ c.projects) :
    c.project p.id = .ok p := by
  rw [project, find?_reverse_of_nodup h hp]

end Catalog

namespace Config

variable {c : Config}

/-- The lookups over what a configuration declares. -/
def catalog (c : Config) : Catalog := ⟨c.toNetworks, c.toProjects⟩

theorem Valid.catalog_network (h : c.Valid) {e : NetworkEntry} (he : e ∈ c.networks) :
    c.catalog.network e.id = .ok (NetworkEntry.toNetwork e) := by
  have hids : c.catalog.networks.map Network.id = c.networks.map NetworkEntry.id := by
    simp only [catalog, toNetworks, List.map_map]
    rfl
  have hmem : NetworkEntry.toNetwork e ∈ c.catalog.networks := List.mem_map_of_mem he
  exact Catalog.network_of_mem (hids ▸ h.networks_nodup) hmem

theorem Valid.catalog_project (h : c.Valid) {id : String} (hid : id ∈ c.projects) :
    c.catalog.project id = .ok ⟨id⟩ := by
  have hids : c.catalog.projects.map Project.id = c.projects := by
    simp only [catalog, toProjects, List.map_map]
    exact List.map_id c.projects
  have hmem : Project.mk id ∈ c.catalog.projects := List.mem_map_of_mem hid
  exact Catalog.project_of_mem (hids ▸ h.projects_nodup) hmem

/-- A configuration passes its check just if it is valid, in whatever order it declares projects and
networks. If it does, looking a declared network up on behalf of any project finds what was declared:
it has the prefixes that the texts denote, all of them and in order, and offers just the families of
these, each once, so a family is supported just if there are prefixes to serve it from; and its project
is found. -/
theorem validate_exact (c : Config) :
    (c.validate = .ok () ↔ c.Valid) ∧
    (∀ d : Config, d.general = c.general → c.projects.Perm d.projects →
      c.networks.Perm d.networks → (d.validate = .ok () ↔ c.validate = .ok ())) ∧
    (c.validate = .ok () → ∀ e ∈ c.networks, ∀ (scope : String) (pool : Pool) (store : Store)
      (pick : Nat), let m : Memory := ⟨c.catalog, pool, store⟩
      ∃ n, (m.perform pick (.network scope e.id)).1 = .ok n ∧ e.Describes n ∧
        (∀ f, n.supports f = true ↔ n.prefixesOf f ≠ []) ∧
        (m.perform pick (.project n.projectId)).1 = .ok ⟨e.project⟩) := by
  refine ⟨validate_eq_ok_iff, fun d hgeneral hprojects hnetworks => ?_, fun hvalidate => ?_⟩
  · rw [validate_eq_ok_iff, validate_eq_ok_iff]
    exact ⟨fun h => h.of_perm hgeneral.symm hprojects.symm hnetworks.symm,
      fun h => h.of_perm hgeneral hprojects hnetworks⟩
  · have hvalid : c.Valid := validate_eq_ok_iff.1 hvalidate
    intro e he scope pool store pick m
    have hentry := hvalid.networks_valid e he
    have hdescribes := describes_toNetwork hentry
    exact ⟨NetworkEntry.toNetwork e, hvalid.catalog_network he, hdescribes,
      fun f => hdescribes.consistent.supports_iff, hvalid.catalog_project hentry.owned⟩

end Config

namespace Small

/-- A declared network with a parent that is declared after it. -/
def child : NetworkEntry :=
  ⟨"child", "prj", some "root", false, ["2001:db8::/64", "10.0.0.5/24", "fd00::/8"]⟩

/-- Its parent, which names no parent itself. -/
def root : NetworkEntry := ⟨"root", "own", some "", true, ["192.0.2.0/25"]⟩

/-- A configuration with both. -/
def declared : Config := ⟨.default, ["prj", "own"], [child, root]⟩

/-- The same in another order. -/
def redeclared : Config := ⟨.default, ["own", "prj"], [root, child]⟩

end Small

theorem Config.validate_exact_declared :
    Small.declared.validate = .ok () ∧ Small.redeclared.validate = .ok () ∧
    ∃ n, ((⟨Small.declared.catalog, ∅, ∅⟩ : Memory).perform 0 (.network "own" "child")).1 = .ok n ∧
      Small.child.Describes n ∧ n.families = [.v6, .v4] ∧ n.prefixesOf .v4 ≠ [] := by
  have hvalidate : Small.declared.validate = .ok () := by decide +kernel
  obtain ⟨-, horder, hlookup⟩ := Config.validate_exact Small.declared
  obtain ⟨n, hn, hdescribes, hsupports, -⟩ :=
    hlookup hvalidate Small.child (by decide) "own" ∅ ∅ 0
  have hfamilies : n.families = [.v6, .v4] := by
    cases hn
    decide +kernel
  refine ⟨hvalidate, (horder Small.redeclared rfl (.swap _ _ _) (.swap _ _ _)).2 hvalidate, n, hn,
    hdescribes, hfamilies, (hsupports .v4).1 ?_⟩
  simp [Network.supports, hfamilies]

end Ipam
