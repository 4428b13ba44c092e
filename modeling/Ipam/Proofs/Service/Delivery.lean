import Ipam.Proofs.Course.Placement
import Ipam.Proofs.Course.Treatment
import Ipam.Proofs.Record.Exchange
import Ipam.Proofs.Service.Listing
import Ipam.Proofs.Service.Tenant
import Ipam.Proofs.Store.Request

/-!
# What the service hands out

However the calls of requests are treated, a store that started empty keeps only records that can be
exchanged (`Store.Faithful`): a create makes no other ones, and an update makes no other ones of
those. So every wire record that the address service answers with is read back as the record that is
stored, or that was stored before it was removed, and what a create or an update has answered is
what is read and listed next (`Service.delivers`).
-/

namespace Ipam

open Program

/-! ## Faithful stores -/

/-- The store is well formed, all its records can be exchanged, and the counter has not gone beyond
a number. -/
structure Store.Faithful (s : Store) (k : Nat) : Prop where
  wellFormed : s.WellFormed
  exchangeable : ∀ r ∈ s.records, r.Exchangeable
  nextId_le : s.nextId.toNat ≤ k

/-- Whether a record can be exchanged once it has an id. -/
def Record.Storable (r : Record) : Prop := ∀ id, id ≠ "" → Record.Exchangeable { r with id := id }

theorem toString_ne_empty (n : Nat) : toString n ≠ "" := by
  intro h
  have hlist : Nat.toDigits 10 n = [] := by
    rw [← Nat.toList_repr]
    exact congrArg String.toList h
  exact Nat.toDigits_ne_nil hlist

namespace Store.Faithful

variable {s : Store} {k l : Nat}

theorem mono (h : s.Faithful k) (hle : k ≤ l) : s.Faithful l :=
  { h with nextId_le := h.nextId_le.trans hle }

theorem append (h : s.Faithful k) (hroom : k + 1 < 2 ^ 64) {r : Record}
    (hfree : ∀ o ∈ s.records, o.slot ≠ r.slot) (hr : r.Storable) :
    Faithful ⟨s.nextId + 1, s.records ++ [s.numberedNext r]⟩ (k + 1) := by
  have hle := h.nextId_le
  have hnext : (s.nextId + 1).toNat = s.nextId.toNat + 1 := toNat_succ (by omega)
  constructor
  · refine h.wellFormed.append hfree ?_
    rw [UInt64.le_iff_toNat_le, hnext]
    exact Nat.le_succ _
  · intro o ho
    rcases List.mem_append.1 ho with ho | ho
    · exact h.exchangeable o ho
    · rw [List.mem_singleton.1 ho]
      exact hr _ (toString_ne_empty _)
  · show (s.nextId + 1).toNat ≤ k + 1
    omega

theorem replace (h : s.Faithful k) {new old : Record} {l₁ l₂ : List Record}
    (hl : s.records = l₁ ++ old :: l₂) {now : Instant} {req : Wire.UpdateRequest}
    (hrev : old.RevisedBy now req new) : Faithful ⟨s.nextId, l₁ ++ new :: l₂⟩ k where
  wellFormed := h.wellFormed.replace hl hrev.id hrev.slot_eq
  exchangeable := by
    have hold := h.exchangeable
    rw [hl] at hold
    obtain ⟨hold₁, hold₂⟩ := List.forall_mem_append.1 hold
    obtain ⟨hex, hold₂⟩ := List.forall_mem_cons.1 hold₂
    have hnew : new.Exchangeable := {
      id_ne := hrev.id ▸ hex.id_ne
      networkId_ne := hrev.networkId ▸ hex.networkId_ne
      projectId_ne := hrev.projectId ▸ hex.projectId_ne
      contains := by rw [hrev.parentPrefix, hrev.address]; exact hex.contains
      tags := hrev.legible hex.tags }
    exact List.forall_mem_append.2 ⟨hold₁, List.forall_mem_cons.2 ⟨hnew, hold₂⟩⟩
  nextId_le := h.nextId_le

theorem remove (h : s.Faithful k) {r : Record} {l₁ l₂ : List Record}
    (hl : s.records = l₁ ++ r :: l₂) : Faithful ⟨s.nextId, l₁ ++ l₂⟩ k where
  wellFormed := h.wellFormed.remove hl
  exchangeable := fun o ho => h.exchangeable o ((sublist_remove hl).subset ho)
  nextId_le := h.nextId_le

theorem find?_eq (h : s.Faithful k) {r : Record} (hr : r ∈ s.records) : s.find? r.id = some r :=
  (Store.find?_eq_some_iff h.wellFormed.ids_nodup).2 ⟨hr, rfl⟩

end Store.Faithful

/-- The lookups are those of a catalog, and the store is faithful. -/
structure Memory.Keeps (c : Catalog) (k : Nat) (m : Memory) : Prop where
  catalog : m.catalog = c
  store : m.store.Faithful k

theorem Memory.Keeps.mono {c : Catalog} {k l : Nat} {m : Memory} (h : m.Keeps c k) (hle : k ≤ l) :
    m.Keeps c l := ⟨h.catalog, h.store.mono hle⟩

theorem Memory.Keeps.withPool {c : Catalog} {k : Nat} {m : Memory} (h : m.Keeps c k) (pool : Pool) :
    Memory.Keeps c k { m with pool := pool } := ⟨h.catalog, h.store⟩

theorem Memory.keeps_empty (c : Catalog) : Memory.Keeps c 0 ⟨c, ∅, ∅⟩ where
  catalog := rfl
  store :=
    { wellFormed := Store.wellFormed_empty
      exchangeable := by
        intro r hr
        cases hr
      nextId_le := Nat.le_of_eq rfl }

/-! ## The operations -/

section

variable {c : Catalog} {k : Nat} {m : Memory}

theorem acquire_assures {p : Prefix} {wanted : Option Addr}
    {Q : Except AcquireError Addr → Memory → Prop} (h : m.Keeps c k)
    (hQ : ∀ out pool, Q (readAcquire p wanted out) { m with pool := pool }) :
    Assures (Memory.Keeps c k) (liftM (acquire p wanted) : Request _) m Q := by
  refine ⟨h, fun t => ?_⟩
  obtain ⟨pool, hm⟩ := m.treat_acquireCall t p wanted
  show Memory.Keeps c k (m.treat (acquireCall p wanted) t).2 ∧
    Q _ (m.treat (acquireCall p wanted) t).2
  rw [hm]
  exact ⟨h.withPool pool, hQ _ pool⟩

/-- What is taken from some prefixes lies in one of them. -/
theorem anyAddressOf_assures (h : m.Keeps c k) (network : String) (f : Family) (ps : List Prefix) :
    Assures (Memory.Keeps c k) (anyAddressOf network f ps) m fun lease m' =>
      (∃ pool, m' = { m with pool := pool }) ∧ lease.parent.contains lease.address = true := by
  induction ps generalizing m with
  | nil => exact h
  | cons p ps ih =>
    refine .bind (acquire_assures h fun out pool => ?_)
    have hpool := h.withPool pool
    cases hr : readAcquire p none out with
    | ok a => exact ⟨hpool, ⟨pool, rfl⟩, (readAcquire_eq_ok hr).1⟩
    | error e =>
      cases e with
      | exhausted =>
        refine (ih hpool).mono ?_
        rintro lease m' - ⟨⟨pool', rfl⟩, hc⟩
        exact ⟨⟨pool', rfl⟩, hc⟩
      | taken => exact hpool
      | failed e => exact hpool

theorem specificAddress_assures (h : m.Keeps c k) (n : Network) (literal : String) :
    Assures (Memory.Keeps c k) (specificAddress n literal) m fun lease m' =>
      (∃ pool, m' = { m with pool := pool }) ∧ lease.parent.contains lease.address = true := by
  refine .bind (.ofExcept h fun w _ => ?_)
  cases prefixFor? n w with
  | none => exact h
  | some p =>
    refine .bind (acquire_assures h fun out pool => ?_)
    have hpool := h.withPool pool
    cases hr : readAcquire p (some w) out with
    | ok a => exact ⟨hpool, ⟨pool, rfl⟩, (readAcquire_eq_ok hr).1⟩
    | error e => cases e <;> exact hpool

theorem release_assures (h : m.Keeps c k) (a : Addr) (p : Prefix) :
    Assures (Memory.Keeps c k) (release a p) m fun _ m' =>
      ∃ pool, m' = { m with pool := pool } := by
  have hkept : ∀ t, Memory.Keeps c k (m.treat (releaseCall a p) t).2 := by
    intro t
    obtain ⟨pool, hm⟩ := m.treat_releaseCall t a p
    rw [hm]
    exact h.withPool pool
  exact .bind (.ask h hkept fun t answer _ =>
    .ofExcept (hkept t) fun _ _ => m.treat_releaseCall t a p)

theorem Catalog.mem_of_network {id : String} {n : Network} (h : c.network id = .ok n) :
    n ∈ c.networks := by
  unfold network at h
  split at h
  · next o ho =>
    cases h
    exact List.mem_reverse.1 (List.mem_of_find?_eq_some ho)
  · cases h

namespace Repository

variable (repo : Repository) {p : String}

/-- A record that is read is the stored one, and of the project. -/
theorem get_assures (hrepo : repo.scope = .project p) (h : m.Keeps c k) (id : String) :
    Assures (Memory.Keeps c k) (repo.get id) m fun r m' => m' = m ∧ r ∈ m.store.own p := by
  refine .bind (.read h (fun _ => rfl) (fun pick => ?_) fun fault => h)
  refine .bind (.accept h fun r hr => ?_)
  have hmem := (Store.mem_of_find? (Store.find?_of_get hr)).1
  by_cases ha : repo.scope.admits r.projectId = true
  · rw [if_pos ha]
    rw [hrepo] at ha
    exact ⟨h, rfl, Store.mem_own.2 ⟨hmem, (of_decide_eq_true ha).symm⟩⟩
  · rw [if_neg ha]
    exact h

theorem list_assures (hrepo : repo.scope = .project p) (h : m.Keeps c k) (q : Query) :
    Assures (Memory.Keeps c k) (repo.list q) m fun rs m' =>
      m' = m ∧ ∀ r ∈ rs, r ∈ m.store.own p := by
  refine .bind (.read h (fun _ => rfl) (fun pick => ?_) fun fault => h)
  refine ⟨h, rfl, fun r hr => ?_⟩
  have hlisted : r ∈ m.store.list (q.within repo.scope) := List.filter_sublist.subset hr
  obtain ⟨hmem, hadmits⟩ := List.mem_filter.1 hlisted
  obtain ⟨-, -, hproject, -⟩ := Query.admits_iff.1 hadmits
  rw [hrepo] at hproject
  exact Store.mem_own.2 ⟨hmem, Query.meets_iff.1 hproject p rfl⟩

/-- The record of a create can be exchanged once it is stored. -/
theorem storable_newRecord {stamp : Stamp} {req : Wire.CreateRequest} {p : Project} {n : Network}
    {retention : Retention} {lease : Lease} (hp : p.id ≠ "") (hn : n.id ≠ "")
    (hlease : lease.parent.contains lease.address = true) :
    (newRecord stamp req p n retention lease).Storable := fun _ hid =>
  { id_ne := hid
    networkId_ne := hn
    projectId_ne := hp
    contains := hlease
    tags := by
      show (requestedTags req).Legible
      rw [requestedTags_eq]
      exact TagSet.legible_ofStrings _ }

/-- A request that fails after its pair was given back leaves the store as it is. -/
theorem compensate_assures {α : Type} {Q : α → Memory → Prop} (h : m.Keeps c k) (r : Record)
    (e : RequestError) :
    Assures (Memory.Keeps c k)
      (repo.compensate r >>= fun _ => .done (.error e) : Program (Except RequestError α)) m Q := by
  unfold compensate
  by_cases ho : repo.releaseOnRefusal = true
  · rw [if_pos ho]
    refine ⟨h, fun t answer _ => ?_⟩
    obtain ⟨pool, hm⟩ := m.treat_releaseCall t r.address r.parentPrefix
    show Memory.Keeps c k (m.treat (releaseCall r.address r.parentPrefix) t).2
    rw [hm]
    exact h.withPool pool
  · rw [if_neg ho]
    exact h

theorem persist_assures (h : m.Keeps c k) (hroom : k + 1 < 2 ^ 64) {r : Record} (hr : r.Storable) :
    Assures (Memory.Keeps c (k + 1)) (repo.persist r) m fun stored m' =>
      stored ∈ m'.store.records ∧ stored.projectId = r.projectId := by
  have hkept : m.Keeps c (k + 1) := h.mono (Nat.le_succ k)
  refine ⟨hkept, fun t => ?_⟩
  have hafter : Memory.Keeps c (k + 1) (m.treat (.storeCreate r) t).2 := by
    rcases m.treat_storeCreate t r with ⟨hfree, hm, -⟩ | ⟨hm, -⟩
    · rw [hm]
      exact ⟨h.catalog, h.store.append hroom hfree hr⟩
    · rwa [hm]
  rcases hout : (m.treat (.storeCreate r) t).1 with i | e | stored
  · exact hafter
  · exact repo.compensate_assures hafter r _
  · rcases m.treat_storeCreate t r with ⟨-, hm, hstored⟩ | ⟨-, hno⟩
    · refine ⟨hafter, ?_, ?_⟩
      · rw [hm, hstored stored hout]
        simp
      · rw [hstored stored hout]
        rfl
    · exact absurd hout (hno stored)

theorem create_assures (h : m.Keeps c k) (hids : ∀ n ∈ c.networks, n.id ≠ "")
    (hroom : k + 1 < 2 ^ 64) (stamp : Stamp) {req : Wire.CreateRequest} (hp : req.project ≠ "") :
    Assures (Memory.Keeps c (k + 1)) (repo.create stamp req) m fun r m' =>
      r ∈ m'.store.own req.project := by
  have hkept : m.Keeps c (k + 1) := h.mono (Nat.le_succ k)
  refine .bind (.read hkept (fun _ => rfl) (fun pick => ?_) fun fault => hkept)
  refine .bind (.accept hkept fun p hproject => ?_)
  refine .bind (.read hkept (fun _ => rfl) (fun pick => ?_) fun fault => hkept)
  refine .bind (.accept hkept fun n hnetwork => ?_)
  refine .bind (.ofExcept hkept fun family _ => .bind (.ofExcept hkept fun _ _ => ?_))
  refine .bind (.ofExcept hkept fun retention _ => ?_)
  have hpid : p.id = req.project := Catalog.project_id hproject
  have hnid : n.id ≠ "" := hids n (h.catalog ▸ Catalog.mem_of_network hnetwork)
  -- only the pool changes before the record is stored, so the counter still has room for it
  have hpersist : ∀ lease m', (∃ pool, m' = { m with pool := pool }) ∧
        lease.parent.contains lease.address = true →
      Assures (Memory.Keeps c (k + 1)) (repo.persist (newRecord stamp req p n retention lease)) m'
        fun r m' => r ∈ m'.store.own req.project := by
    rintro lease _ ⟨⟨pool, rfl⟩, hlease⟩
    have hstorable : (newRecord stamp req p n retention lease).Storable :=
      storable_newRecord (hpid ▸ hp) hnid hlease
    refine (repo.persist_assures (h.withPool pool) hroom hstorable).mono ?_
    rintro r m' - ⟨hmem, hproject⟩
    exact Store.mem_own.2 ⟨hmem, hproject.trans hpid⟩
  cases req.ip with
  | none =>
    have hany := anyAddressOf_assures hkept n.id family (n.prefixesOf family)
    exact .bind (hany.mono fun lease m' _ => hpersist lease m')
  | some literal =>
    have hspecific := specificAddress_assures hkept n literal
    exact .bind (hspecific.mono fun lease m' _ => hpersist lease m')

theorem update_assures (hrepo : repo.scope = .project p) (h : m.Keeps c k) (now : Instant)
    (req : Wire.UpdateRequest) :
    Assures (Memory.Keeps c k) (repo.update now req) m fun r m' => r ∈ m'.store.own p := by
  refine .bind ((repo.get_assures hrepo h req.ip).mono ?_)
  rintro old m - ⟨rfl, hold⟩
  refine .bind (.ofExcept h fun new hnew => ?_)
  have hrev := revise_eq_ok hnew
  obtain ⟨-, hproject⟩ := Store.mem_own.1 hold
  have hkept : ∀ t, Memory.Keeps c k (m.treat (.storeUpdate new old) t).2 := by
    intro t
    rcases m.treat_storeUpdate t new old with ⟨l₁, l₂, hl, hm⟩ | ⟨hm, -⟩
    · rw [hm]
      exact ⟨h.catalog, h.store.replace hl hrev⟩
    · rwa [hm]
  refine .bind (.ask h hkept fun t answer hanswer => ?_)
  refine .bind (.accept (hkept t) fun u hok => .pure (hkept t) ?_)
  subst hok
  rcases m.treat_storeUpdate t new old with ⟨l₁, l₂, -, hm⟩ | ⟨-, hno⟩
  · rw [hm]
    exact Store.mem_own.2 ⟨by simp, hrev.projectId.trans hproject⟩
  · exact absurd hanswer hno

theorem delete_assures (hrepo : repo.scope = .project p) (h : m.Keeps c k) (id : String) :
    Assures (Memory.Keeps c k) (repo.delete id) m fun r m' =>
      r ∈ m.store.own p ∧ ∀ o ∈ m'.store.records, o.id ≠ r.id := by
  refine .bind ((repo.get_assures hrepo h id).mono ?_)
  rintro r m - ⟨rfl, hr⟩
  refine .bind (.mono (release_assures h r.address r.parentPrefix) ?_)
  rintro _ _ - ⟨pool, rfl⟩
  have hfree := h.withPool pool
  have hkept : ∀ t,
      Memory.Keeps c k (Memory.treat { m with pool := pool } (.storeDelete r) t).2 := by
    intro t
    rcases Memory.treat_storeDelete _ t r with ⟨l₁, o, l₂, hl, -, hm⟩ | ⟨hm, -⟩
    · rw [hm]
      exact ⟨h.catalog, h.store.remove hl⟩
    · rwa [hm]
  refine .bind (.ask hfree hkept fun t answer hanswer => ?_)
  refine .bind (.accept (hkept t) fun u hok => .pure (hkept t) ⟨hr, ?_⟩)
  subst hok
  rcases Memory.treat_storeDelete _ t r with ⟨l₁, o, l₂, hl, hid, hm⟩ | ⟨-, hno⟩
  · rw [hm, ← hid]
    intro o' ho'
    exact Store.key_ne_of_mem h.store.wellFormed.ids_nodup hl ho'
  · exact absurd hanswer hno

end Repository

end

/-! ## Wire records -/

namespace Wire.ListRequest

/-- A request for all records of a project. -/
def ofProject (p : String) : Wire.ListRequest where
  ip := none
  network := none
  project := some p
  name := none
  uuid := none
  machineId := none
  parentPrefix := none
  tags := []
  kind := none
  family := none

theorem readable_ofProject (p : String) : (ofProject p).Readable where
  ip := nofun
  uuid := nofun
  parentPrefix := nofun

theorem selects_ofProject {p : String} {r : Record} :
    (ofProject p).Selects r ↔ r.projectId = p := by
  constructor
  · exact fun h => h.project p rfl
  · rintro rfl
    exact {
      address := nofun
      network := nofun
      project := fun _ hid => Option.some.inj hid
      name := nofun
      uuid := nofun
      machine := nofun
      parentPrefix := nofun
      tags := nofun
      kind := nofun
      family := nofun }

end Wire.ListRequest

theorem Store.mem_listed_ofProject {s : Store} {p : String} {r : Record} :
    r ∈ s.listed (.ofProject p) ↔ r ∈ s.own p ∧ r.Visible := by
  rw [Store.listed, List.mem_filter, decide_eq_true_iff, Wire.ListRequest.selects_ofProject,
    Store.mem_own, and_assoc]

namespace Record.Exchangeable

variable {r o : Record}

theorem eq_of_toWire (hr : r.Exchangeable) (ho : o.Exchangeable) (h : r.toWire = o.toWire) :
    r = o := by
  have hread := ofWire_toWire hr
  rw [h, ofWire_toWire ho] at hread
  exact (Except.ok.inj hread).symm

/-- The texts of the tags tell whether a record is bound to a machine. -/
theorem visible_iff_toWire (h : r.Exchangeable) :
    r.Visible ↔ ∀ raw ∈ r.toWire.tags, (Tag.parse raw).key ≠ Tag.machineKey := by
  have hread : ∀ t ∈ r.tags.toList, Tag.parse t.text = t := fun t ht =>
    Tag.parse_text (h.tags.eq_not_mem t ht)
  constructor
  · intro hvisible raw hraw
    obtain ⟨t, ht, rfl⟩ := List.mem_map.1 hraw
    rw [hread t ht]
    exact hvisible t ht
  · intro hraw t ht
    have hkey := hraw t.text (List.mem_map_of_mem ht)
    rwa [hread t ht] at hkey

end Record.Exchangeable

/-! ## The service -/

namespace Service

open Request

/-- The records that are answered. -/
def Answer.ips : Answer → List Wire.Ip
  | .record ip => [ip]
  | .records ips => ips

/-- Whether a request gives up the address of a record. -/
def Ask.isDelete : Ask → Bool
  | .delete _ => true
  | _ => false

/-- Whether a request changes a record. -/
def Ask.isUpdate : Ask → Bool
  | .update .. => true
  | _ => false

/-- A record is what a request has answered with: the store has it then, among the records of the
project, or, after a delete, it had it before and has none with its id any more. -/
def Ask.Hands (ask : Ask) (before after : Store) (r : Record) : Prop :=
  if ask.isDelete then r ∈ before.own ask.project ∧ ∀ o ∈ after.records, o.id ≠ r.id
  else r ∈ after.own ask.project

/-- A record that was answered with can be exchanged, and it is found under its id. -/
theorem Ask.Hands.found {ask : Ask} {before after : Store} {r : Record} {k l : Nat}
    (h : ask.Hands before after r) (hbefore : before.Faithful k) (hafter : after.Faithful l) :
    r.Exchangeable ∧ if ask.isDelete then before.find? r.id = some r ∧ after.find? r.id = none
      else after.find? r.id = some r := by
  unfold Ask.Hands at h
  by_cases hdelete : ask.isDelete = true
  · rw [if_pos hdelete] at h ⊢
    obtain ⟨hown, hgone⟩ := h
    have hmem := (Store.mem_own.1 hown).1
    exact ⟨hbefore.exchangeable r hmem, hbefore.find?_eq hmem, Store.find?_eq_none_iff.2 hgone⟩
  · rw [if_neg hdelete] at h ⊢
    have hmem := (Store.mem_own.1 h).1
    exact ⟨hafter.exchangeable r hmem, hafter.find?_eq hmem⟩

/-- What requests leave of a memory, one after the other, each with the treatment of its calls. -/
def leave (svc : Service) (m : Memory) (history : List (Ask × List Treatment)) : Memory :=
  history.foldl (fun m e => (Program.under (svc.request e.1) m e.2).2) m

variable (svc : Service) {c : Catalog} {k : Nat} {m : Memory}

theorem scoped_assures {α : Type} {I : Memory → Prop} {Q : α → Memory → Prop} {project : String}
    {body : Repository → Request α} (hI : I m) (h : project ≠ "" →
      Assures I (body ⟨.project project, svc.releaseOnRefusal⟩) m Q) :
    Assures I (svc.repository project >>= body : Request α) m Q := by
  by_cases hp : project = ""
  · rw [hp]
    exact hI
  · rw [svc.repository_eq hp]
    exact h hp

/-- A request keeps the store faithful, and what it answers with is from the store. -/
theorem request_assures (h : m.Keeps c k) (hids : ∀ n ∈ c.networks, n.id ≠ "") (ask : Ask)
    (hroom : k + (if ask.isCreate then 1 else 0) < 2 ^ 64) :
    Assures (Memory.Keeps c (k + if ask.isCreate then 1 else 0)) (svc.request ask) m
      fun answer m' => ∀ w ∈ answer.ips, ∃ r, r.toWire = w ∧ ask.Hands m.store m'.store r := by
  have hone : ∀ {r : Record} {m' : Memory}, ask.Hands m.store m'.store r →
      ∀ w ∈ (Answer.record r.toWire).ips, ∃ r, r.toWire = w ∧ ask.Hands m.store m'.store r := by
    intro r m' hr w hw
    exact ⟨r, (List.mem_singleton.1 hw).symm, hr⟩
  cases ask with
  | get req =>
    refine .map (svc.scoped_assures h fun _ => .map ?_)
    refine (Repository.get_assures _ rfl h req.ip).mono ?_
    rintro r m - ⟨rfl, hr⟩
    exact hone hr
  | list req =>
    refine .map (svc.scoped_assures h fun _ => .bind (.ofExcept h fun q _ => .map ?_))
    refine (Repository.list_assures _ rfl h q).mono ?_
    rintro rs m - ⟨rfl, hrs⟩ w hw
    obtain ⟨r, hr, rfl⟩ := List.mem_map.1 hw
    exact ⟨r, rfl, hrs r hr⟩
  | create stamp req =>
    refine .map (svc.scoped_assures (h.mono (Nat.le_succ k)) fun hp => .map ?_)
    refine (Repository.create_assures _ h hids hroom stamp hp).mono ?_
    exact fun r m' _ hr => hone hr
  | update now req =>
    refine .map (svc.scoped_assures h fun _ => .map ?_)
    refine (Repository.update_assures _ rfl h now req).mono ?_
    exact fun r m' _ hr => hone hr
  | delete req =>
    refine .map (svc.scoped_assures h fun _ => .map ?_)
    refine (Repository.delete_assures _ rfl h req.ip).mono ?_
    exact fun r m' _ hr => hone hr

/-- The store stays faithful from request to request. -/
theorem keeps_leave (hids : ∀ n ∈ c.networks, n.id ≠ "") (history : List (Ask × List Treatment))
    (h : m.Keeps c k) (hroom : k + history.countP (fun e => e.1.isCreate) < 2 ^ 64) :
    (svc.leave m history).Keeps c (k + history.countP fun e => e.1.isCreate) := by
  induction history generalizing m k with
  | nil => exact h
  | cons e history ih =>
    rw [List.countP_cons] at hroom ⊢
    have hnext := ((svc.request_assures h hids e.1 (by omega)).under e.2).1
    have hrest := ih hnext (by omega)
    rwa [Nat.add_assoc, Nat.add_comm (if e.1.isCreate then 1 else 0)] at hrest

theorem leave_concat (m : Memory) (history : List (Ask × List Treatment)) (ask : Ask)
    (treatments : List Treatment) : svc.leave m (history ++ [(ask, treatments)]) =
      (Program.under (svc.request ask) (svc.leave m history) treatments).2 :=
  List.foldl_concat ..

/-- A record of a project is read next. -/
theorem serve_get_of_mem {p : String} {r : Record} (h : m.Keeps c k) (hp : p ≠ "")
    (hr : r ∈ m.store.own p) (picks : Picks) :
    ((svc.get ⟨r.id, p⟩).serve (m, picks)).1 = .ok r.toWire := by
  obtain ⟨hmem, hproject⟩ := Store.mem_own.1 hr
  unfold get
  rw [serve_scoped, if_neg hp, serve_map, serve_get_of_find? _ (h.store.find?_eq hmem),
    if_pos (show (Scope.project p).admits r.projectId = true from decide_eq_true hproject.symm)]
  rfl

/-- A record of a project is listed next if it is not bound to a machine. -/
theorem serve_list_of_mem {p : String} {r : Record} (h : m.Keeps c k) (hp : p ≠ "")
    (hr : r ∈ m.store.own p) (picks : Picks) :
    ∃ ws, ((svc.list (.ofProject p)).serve (m, picks)).1 = .ok ws ∧
      (r.toWire ∈ ws ↔ ∀ raw ∈ r.toWire.tags, (Tag.parse raw).key ≠ Tag.machineKey) := by
  have hlist := svc.serve_list_of_readable rfl hp (Wire.ListRequest.readable_ofProject p) m picks
  refine ⟨(m.store.listed (.ofProject p)).map Record.toWire, congrArg Prod.fst hlist, ?_⟩
  have hex : ∀ o ∈ m.store.own p, o.Exchangeable := fun o ho =>
    h.store.exchangeable o (Store.mem_own.1 ho).1
  rw [← (hex r hr).visible_iff_toWire]
  constructor
  · intro hw
    obtain ⟨o, ho, he⟩ := List.mem_map.1 hw
    obtain ⟨hown, hvisible⟩ := Store.mem_listed_ofProject.1 ho
    rwa [← (hex o hown).eq_of_toWire (hex r hr) he]
  · intro hvisible
    exact List.mem_map_of_mem (Store.mem_listed_ofProject.2 ⟨hr, hvisible⟩)

/-- Requests are made of the service one after the other, over a store and a pool that were empty,
and their calls are treated in any way. A wire record that is answered is read back as the record
that the store has then under its id; after a delete, it is the one that the store had, and it has
none under that id any more. What a create or an update has answered is what is read next, and it is
among all records of the project that are listed next, unless it has a tag that binds it to a
machine. -/
theorem delivers {c : Catalog} (hids : ∀ n ∈ c.networks, n.id ≠ "")
    {history : List (Ask × List Treatment)} {ask : Ask} {treatments : List Treatment}
    (hroom : (history ++ [(ask, treatments)]).countP (fun e => e.1.isCreate) < 2 ^ 64 - 1)
    {answer : Answer} (hanswer : (Program.under (svc.request ask)
      (svc.leave ⟨c, ∅, ∅⟩ history) treatments).1 = some (.ok answer)) :
    let before := svc.leave ⟨c, ∅, ∅⟩ history
    let after := svc.leave ⟨c, ∅, ∅⟩ (history ++ [(ask, treatments)])
    (∀ w ∈ answer.ips, ∃ r, Record.ofWire w = .ok r ∧
      if ask.isDelete then before.store.find? w.id = some r ∧ after.store.find? w.id = none
      else after.store.find? w.id = some r) ∧
    (ask.isCreate ∨ ask.isUpdate → ∀ w ∈ answer.ips, ∀ picks,
      ((svc.get ⟨w.id, ask.project⟩).serve (after, picks)).1 = .ok w ∧
      ∃ ws, ((svc.list (.ofProject ask.project)).serve (after, picks)).1 = .ok ws ∧
        (w ∈ ws ↔ ∀ raw ∈ w.tags, (Tag.parse raw).key ≠ Tag.machineKey)) := by
  intro before after
  rw [List.countP_append, List.countP_singleton] at hroom
  dsimp only at hroom
  have hbefore := svc.keeps_leave hids history (Memory.keeps_empty c) (by omega)
  have hassures := svc.request_assures hbefore hids ask (by omega)
  obtain ⟨hafter, hhands⟩ := hassures.under treatments
  rw [← svc.leave_concat] at hafter hhands
  have hhands := hhands answer hanswer
  constructor
  · intro w hw
    obtain ⟨r, rfl, hr⟩ := hhands w hw
    obtain ⟨hex, hfound⟩ := hr.found hbefore.store hafter.store
    exact ⟨r, Record.ofWire_toWire hex, hfound⟩
  · intro hwrites w hw picks
    obtain ⟨r, rfl, hr⟩ := hhands w hw
    have hdelete : ¬ ask.isDelete = true := by
      cases ask <;> simp_all [Ask.isCreate, Ask.isUpdate, Ask.isDelete]
    rw [Ask.Hands, if_neg hdelete] at hr
    obtain ⟨hmem, hproject⟩ := Store.mem_own.1 hr
    have hp : ask.project ≠ "" := hproject ▸ (hafter.store.exchangeable r hmem).projectId_ne
    exact ⟨svc.serve_get_of_mem hafter hp hr picks, svc.serve_list_of_mem hafter hp hr picks⟩

/-- The record of a create is stored, but the create learns that the store failed. -/
def unnoticed : Ask × List Treatment :=
  (.create Small.stamp Small.createRequest, [.served 0, .served 0, .served 0,
    .troubled (some 0) (.ok ⟨.backend "down", ⟨.unavailable, "down"⟩⟩), .served 0])

/-- The record is changed later. -/
def belated : Ask :=
  .update Small.stamp.now ⟨"1", "prj", some "db", none, none, some ["env=a", "env=b=c"]⟩

/-- The record then. -/
def changed : Record := { Small.record with name := "db", tags := ⟨[⟨"env", some "b=c"⟩]⟩ }

theorem delivers_belated :
    (∀ n ∈ Small.memory.catalog.networks, n.id ≠ "") ∧
    ([unnoticed, (belated, [.served 0, .served 0])].countP fun e => e.1.isCreate) < 2 ^ 64 - 1 ∧
    (Program.under (request ⟨true⟩ belated) (leave ⟨true⟩ ⟨Small.memory.catalog, ∅, ∅⟩ [unnoticed])
      [.served 0, .served 0]).1 = some (.ok (.record changed.toWire)) ∧
    (∃ r, Record.ofWire changed.toWire = .ok r ∧ (leave ⟨true⟩ ⟨Small.memory.catalog, ∅, ∅⟩
      [unnoticed, (belated, [.served 0, .served 0])]).store.find? "1" = some r) ∧
    ((get ⟨true⟩ ⟨"1", "prj"⟩).serve (leave ⟨true⟩ ⟨Small.memory.catalog, ∅, ∅⟩
      [unnoticed, (belated, [.served 0, .served 0])], fun _ => 0)).1 = .ok changed.toWire := by
  have hids : ∀ n ∈ Small.memory.catalog.networks, n.id ≠ "" := by decide
  have hroom : ([unnoticed, (belated, [.served 0, .served 0])].countP
      fun e => e.1.isCreate) < 2 ^ 64 - 1 := by decide
  have hanswer : (Program.under (request ⟨true⟩ belated) (leave ⟨true⟩
      ⟨Small.memory.catalog, ∅, ∅⟩ [unnoticed]) [.served 0, .served 0]).1 =
        some (.ok (.record changed.toWire)) := by decide +kernel
  obtain ⟨hstored, hread⟩ := delivers ⟨true⟩ hids hroom hanswer
  have hw : changed.toWire ∈ (Answer.record changed.toWire).ips := List.mem_singleton_self _
  exact ⟨hids, hroom, hanswer, hstored _ hw, (hread (.inr rfl) _ hw fun _ => 0).1⟩

end Service

end Ipam
