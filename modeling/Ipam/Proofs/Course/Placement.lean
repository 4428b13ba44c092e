import Ipam.Proofs.Course.Exchange
import Ipam.Proofs.Course.Stage
import Ipam.Proofs.Record.Revision
import Ipam.Proofs.Service.Ledger
import Ipam.Proofs.Tag.Text

/-!
# What is handed to the store

A repository trusts nobody for the address of a new record: the prefix is one of the network that was
looked up, the address is read from the allocator's text and checked to lie in the prefix, and a
specific address must be the one that was asked for. So whatever the allocator answers, the record
that a create hands to the store fulfils its request (`Record.Fulfils`), and a record that an update
hands to it is the one that was read, with the fields of the request.

`Operation.Licenses` says this of every operation and every point that it may come to, and
`Operation.upholds` proves it from one lemma for each part of the programs.
-/

namespace Ipam

/-- A record that has not been stored yet is the one that a create request asks for in a network, on
behalf of a project. -/
structure Record.Fulfils (r : Record) (req : Wire.CreateRequest) (p : Project) (n : Network) :
    Prop where
  prefix_mem : r.parentPrefix ∈ n.prefixes
  contains : r.parentPrefix.contains r.address = true
  family : chooseFamily req.family req.ip n = .ok r.address.family
  literal : ∀ literal, req.ip = some literal →
    Addr.parse? literal = some r.address ∧ n.IsFirstWith r.address r.parentPrefix
  projectId : r.projectId = p.id
  networkId : r.networkId = n.id
  isOpen : n.shared = true ∨ (∀ parent, n.parentId = some parent → parent = "") ∨ p.id = n.projectId
  retention : (req.kind = none ∧ r.retention = .ephemeral) ∨
    req.kind = some (.ofRetention r.retention)
  name : r.name = req.name.getD ""
  description : r.description = req.description.getD ""
  id : r.id = ""
  tags : r.tags = .ofStrings
    (req.tags ++ (req.machineId.map fun machine => "ipledger.io/machine-id=" ++ machine).toList)

/-- A lease is one that a create request may be given in a network, when the address is to be of a
family. -/
structure Lease.Suits (lease : Lease) (req : Wire.CreateRequest) (n : Network) (family : Family) :
    Prop where
  prefix_mem : lease.parent ∈ n.prefixes
  contains : lease.parent.contains lease.address = true
  family : lease.address.family = family
  literal : ∀ literal, req.ip = some literal →
    Addr.parse? literal = some lease.address ∧ n.IsFirstWith lease.address lease.parent

/-! ## The checks of a create -/

/-- An answer that is accepted names an address of the prefix, and the wanted one. -/
theorem readAcquired_eq_ok {p : Prefix} {wanted : Option Addr} {a : Addr} {raw : String}
    (h : readAcquired p wanted raw = .ok a) :
    p.contains a = true ∧ ∀ w, wanted = some w → w = a := by
  unfold readAcquired at h
  cases hparse : Addr.parse? raw with
  | none =>
    rw [hparse] at h
    cases h
  | some b =>
    simp only [hparse] at h
    by_cases hc : p.contains b = true
    · rw [if_neg (by simp [hc])] at h
      cases wanted with
      | none =>
        cases h
        exact ⟨hc, by simp⟩
      | some w =>
        by_cases hw : w = b
        · simp only [hw, if_true] at h
          cases h
          exact ⟨hc, fun w' hw' => (Option.some.inj hw').symm.trans hw⟩
        · simp only [hw, if_false] at h
          cases h
    · rw [if_pos (by simp [hc])] at h
      cases h

/-- An address that was taken is one of the prefix, and the wanted one. -/
theorem readAcquire_eq_ok {p : Prefix} {wanted : Option Addr} {a : Addr}
    {out : Except Interruption (Except AllocatorError AcquireAnswer)}
    (h : readAcquire p wanted out = .ok a) :
    p.contains a = true ∧ ∀ w, wanted = some w → w = a := by
  rcases out with i | e | answer
  · cases h
  · simp only [readAcquire] at h
    split at h <;> cases h
  · exact readAcquired_eq_ok h

theorem readLiteral_eq_ok {literal : String} {a : Addr} (h : readLiteral literal = .ok a) :
    Addr.parse? literal = some a := by
  unfold readLiteral at h
  split at h
  · next hparse =>
    cases h
    exact hparse
  · cases h

/-- A specific address says which family is wanted. -/
theorem chooseFamily_literal {requested : Option Wire.FamilyName} {literal : String} {n : Network}
    {family : Family} {a : Addr} (h : chooseFamily requested (some literal) n = .ok family)
    (ha : readLiteral literal = .ok a) : a.family = family := by
  cases requested with
  | some name => cases h
  | none =>
    simp only [chooseFamily, ha] at h
    cases h
    rfl

theorem checkOpen_eq_ok {p : Project} {n : Network} (h : checkOpen p n = .ok ()) :
    n.shared = true ∨ (∀ parent, n.parentId = some parent → parent = "") ∨ p.id = n.projectId := by
  have hopen : n.isOpenTo p = true := by
    by_contra hno
    rw [checkOpen, if_neg hno] at h
    cases h
  simp only [Network.isOpenTo, Bool.or_eq_true, decide_eq_true_eq] at hopen
  rcases hopen with (hshared | hparent) | howner
  · exact .inl hshared
  · refine .inr (.inl fun parent hp => ?_)
    simpa [Network.hasParent, hp] using hparent
  · exact .inr (.inr howner)

namespace Repository

theorem requestedRetention_eq_ok {req : Wire.CreateRequest} {retention : Retention}
    (h : requestedRetention req = .ok retention) :
    (req.kind = none ∧ retention = .ephemeral) ∨ req.kind = some (.ofRetention retention) := by
  unfold requestedRetention at h
  cases hk : req.kind with
  | none =>
    rw [hk] at h
    cases h
    exact .inl ⟨rfl, rfl⟩
  | some kind =>
    rw [hk] at h
    right
    cases kind <;> cases h <;> rfl

/-- The machine's tag comes last, as if its text had been among those of the request. -/
theorem requestedTags_eq (req : Wire.CreateRequest) :
    requestedTags req = .ofStrings
      (req.tags ++ (req.machineId.map fun machine => "ipledger.io/machine-id=" ++ machine).toList) := by
  unfold requestedTags
  cases req.machineId with
  | none => simp
  | some machine =>
    rw [Option.map_some, Option.toList_some, TagSet.ofStrings_append, Tag.parse_machine]
    rfl

theorem fulfils_newRecord {stamp : Stamp} {req : Wire.CreateRequest} {p : Project} {n : Network}
    {family : Family} {retention : Retention} {lease : Lease}
    (hfamily : chooseFamily req.family req.ip n = .ok family) (hopen : checkOpen p n = .ok ())
    (hretention : requestedRetention req = .ok retention) (hlease : lease.Suits req n family) :
    (newRecord stamp req p n retention lease).Fulfils req p n where
  prefix_mem := hlease.prefix_mem
  contains := hlease.contains
  family := by rw [hfamily, ← hlease.family]; rfl
  literal := hlease.literal
  projectId := rfl
  networkId := rfl
  isOpen := checkOpen_eq_ok hopen
  retention := requestedRetention_eq_ok hretention
  name := rfl
  description := rfl
  id := rfl
  tags := requestedTags_eq req

end Repository

/-! ## What operations may hand to the store -/

/-- Whether what an operation has learnt so far lets it make a call: a record is added as its request
asks for it in the project and the network that were found first, and is changed as its request
says. -/
def Operation.Licenses (op : Operation) (es : List Exchange) : Call → Prop
  | .storeCreate r => ∃ stamp req p n, op = .create stamp req ∧
      [⟨.project req.project, .ok (.ok p)⟩, ⟨.network p.id req.network, .ok (.ok n)⟩] <+: es ∧
      r.Fulfils req p n
  | .storeUpdate new old => ∃ now req, op = .update now req ∧ old.RevisedBy now req new
  | _ => True

section

open Program

variable {op : Operation} {repo : Repository} {es : List Exchange}

theorem acquire_upholds {p : Prefix} {wanted : Option Addr}
    {Q : Except AcquireError Addr → List Exchange → Prop}
    (h : ∀ out, Q (readAcquire p wanted out) (es ++ [⟨acquireCall p wanted, out⟩])) :
    Upholds op.Licenses (liftM (acquire p wanted) : Request _) es Q :=
  ⟨trivial, fun out => h out⟩

/-- An address that is taken from some prefixes lies in one of them. -/
theorem anyAddressOf_upholds (network : String) (f : Family) (ps : List Prefix) :
    Upholds op.Licenses (anyAddressOf network f ps) es fun lease fs =>
      es <+: fs ∧ lease.parent ∈ ps ∧ lease.parent.contains lease.address = true := by
  induction ps generalizing es with
  | nil => trivial
  | cons p ps ih =>
    refine .bind (acquire_upholds fun out => ?_)
    have hes := List.prefix_append es [⟨acquireCall p none, out⟩]
    cases hr : readAcquire p none out with
    | ok a => exact ⟨hes, List.mem_cons_self, (readAcquire_eq_ok hr).1⟩
    | error e =>
      cases e with
      | exhausted =>
        -- only now the next prefix is tried
        refine ih.mono ?_
        rintro lease fs ⟨hfs, hmem, hc⟩
        exact ⟨hes.trans hfs, List.mem_cons_of_mem p hmem, hc⟩
      | taken => trivial
      | failed e => trivial

/-- An address that was not asked for by name is of the family that was chosen. -/
theorem anyAddress_upholds {req : Wire.CreateRequest} {n : Network} (hip : req.ip = none)
    (family : Family) :
    Upholds op.Licenses (anyAddress n family) es fun lease fs =>
      es <+: fs ∧ lease.Suits req n family := by
  refine (anyAddressOf_upholds n.id family _).mono ?_
  rintro lease fs ⟨hfs, hmem, hcontains⟩
  obtain ⟨hmem, hfamily⟩ := List.mem_filter.1 hmem
  refine ⟨hfs, hmem, hcontains, ?_, by simp [hip]⟩
  exact (Prefix.contains_iff.1 hcontains).1.trans (of_decide_eq_true hfamily)

/-- An address that was asked for by name is taken from the first prefix that contains it. -/
theorem specificAddress_upholds {req : Wire.CreateRequest} {n : Network} {literal : String}
    {family : Family} (hip : req.ip = some literal)
    (hfamily : chooseFamily req.family req.ip n = .ok family) :
    Upholds op.Licenses (specificAddress n literal) es fun lease fs =>
      es <+: fs ∧ lease.Suits req n family := by
  refine .bind (.ofExcept fun w hw => ?_)
  cases hp : prefixFor? n w with
  | none => trivial
  | some p =>
    refine .bind (acquire_upholds fun out => ?_)
    cases hr : readAcquire p (some w) out with
    | ok a =>
      obtain ⟨hcontains, hwanted⟩ := readAcquire_eq_ok hr
      have ha : w = a := hwanted w rfl
      subst ha
      rw [prefixFor?_eq, ← Network.isFirstWith_iff] at hp
      have hmem : p ∈ n.prefixes := by
        obtain ⟨ps₁, ps₂, hps, -⟩ := hp
        simp [hps]
      rw [hip] at hfamily
      exact ⟨List.prefix_append _ _, {
        prefix_mem := hmem
        contains := hcontains
        family := chooseFamily_literal hfamily hw
        literal := by
          rintro literal' hl
          cases hip.symm.trans hl
          exact ⟨readLiteral_eq_ok hw, hp⟩ }⟩
    | error e => cases e <;> trivial

namespace Repository

theorem get_upholds (id : String) : Upholds op.Licenses (repo.get id) es fun _ _ => True := by
  refine .bind (.ask trivial fun answer => .bind (.accept fun r _ => ?_))
  by_cases ha : repo.scope.admits r.projectId = true
  · rw [if_pos ha]
    trivial
  · rw [if_neg ha]
    trivial

theorem list_upholds (q : Query) : Upholds op.Licenses (repo.list q) es fun _ _ => True :=
  .bind (.ask trivial fun _ => .bind (.accept fun _ _ => trivial))

theorem persist_upholds {r : Record} (h : op.Licenses es (.storeCreate r)) :
    Upholds op.Licenses (repo.persist r) es fun _ _ => True := by
  refine ⟨h, fun out => ?_⟩
  rcases out with i | e | stored
  · trivial
  · unfold compensate
    by_cases hc : repo.releaseOnRefusal = true
    · rw [if_pos hc]
      exact ⟨trivial, fun _ => trivial⟩
    · rw [if_neg hc]
      trivial
  · trivial

theorem create_upholds (stamp : Stamp) (req : Wire.CreateRequest) :
    Upholds (Operation.create stamp req).Licenses (repo.create stamp req) [] fun _ _ => True := by
  refine .bind (.ask trivial fun answer => .bind (.accept ?_))
  rintro p rfl
  refine .bind (.ask trivial fun answer => .bind (.accept ?_))
  rintro n rfl
  refine .bind (.ofExcept fun family hfamily => ?_)
  refine .bind (.ofExcept fun _ hopen => ?_)
  refine .bind (.ofExcept fun retention hretention => ?_)
  have hpersist : ∀ lease fs,
      [⟨.project req.project, .ok (.ok p)⟩, ⟨.network p.id req.network, .ok (.ok n)⟩] <+: fs ∧
        lease.Suits req n family →
      Upholds (Operation.create stamp req).Licenses
        (repo.persist (newRecord stamp req p n retention lease)) fs fun _ _ => True :=
    fun lease fs ⟨hfs, hlease⟩ => persist_upholds
      ⟨stamp, req, p, n, rfl, hfs, fulfils_newRecord hfamily hopen hretention hlease⟩
  cases hip : req.ip with
  | none => exact .bind ((anyAddress_upholds hip family).mono hpersist)
  | some literal => exact .bind ((specificAddress_upholds hip hfamily).mono hpersist)

theorem update_upholds (now : Instant) (req : Wire.UpdateRequest) :
    Upholds (Operation.update now req).Licenses (repo.update now req) es fun _ _ => True := by
  refine .bind ((get_upholds req.ip).mono fun old fs _ => ?_)
  refine .bind (.ofExcept fun new hnew => ?_)
  refine .bind (.ask ⟨now, req, rfl, revise_eq_ok hnew⟩ fun _ => ?_)
  exact .bind (.accept fun _ _ => trivial)

theorem delete_upholds (id : String) :
    Upholds op.Licenses (repo.delete id) es fun _ _ => True := by
  refine .bind ((get_upholds id).mono fun r fs _ => ?_)
  refine .bind (.bind (.ask trivial fun answer => .ofExcept fun _ _ => ?_))
  refine .bind (.ask trivial fun _ => ?_)
  exact .bind (.accept fun _ _ => trivial)

end Repository

/-- No operation hands anything to the store but what it is licensed to. -/
theorem Operation.upholds (repo : Repository) (op : Operation) :
    Upholds op.Licenses (op.request repo) [] fun _ _ => True := by
  cases op with
  | get id => exact .map (Repository.get_upholds id)
  | list q => exact .map (Repository.list_upholds q)
  | create stamp req => exact .map (Repository.create_upholds stamp req)
  | update now req => exact .map (Repository.update_upholds now req)
  | delete id => exact .map (Repository.delete_upholds id)

end

/-- The record that a create hands to the store fulfils the request in the project and the network
that the lookups answered, whatever else was answered before. -/
theorem Repository.create_fulfils {repo : Repository} {stamp : Stamp} {req : Wire.CreateRequest}
    {es : List Exchange} {r : Record}
    (h : ((repo.create stamp req).after? es).bind Program.call? = some (.storeCreate r)) :
    ∃ p n, [⟨.project req.project, .ok (.ok p)⟩, ⟨.network p.id req.network, .ok (.ok n)⟩] <+: es ∧
      r.Fulfils req p n := by
  have hlicense : (Operation.create stamp req).Licenses es (.storeCreate r) :=
    (create_upholds stamp req).call_after h
  obtain ⟨stamp', req', p, n, hop, hes, hr⟩ := hlicense
  cases hop
  exact ⟨p, n, hes, hr⟩

namespace Small

/-- A network with a second prefix. -/
def wideNetwork : Network :=
  .ofPrefixes "net" "prj" [slot.1, ⟨⟨.v4, 0x0a000100, by decide⟩, 24, by decide⟩]

/-- A request for any address of it. -/
def wideRequest : Wire.CreateRequest :=
  { createRequest with ip := none, machineId := some "m", tags := ["rack=7"] }

/-- What a create learns if the first prefix has no address left, and the allocator names a prefix
that nobody asked for. -/
def secondTry : List Exchange :=
  [⟨.project "prj", .ok (.ok ⟨"prj"⟩)⟩,
   ⟨.network "prj" "net", .ok (.ok wideNetwork)⟩,
   ⟨.acquire ⟨"10.0.0.0/24", none⟩, .ok (.error ⟨.notFound, ""⟩)⟩,
   ⟨.acquire ⟨"10.0.1.0/24", none⟩, .ok (.ok ⟨"10.0.1.7", "::/0"⟩)⟩]

/-- The record of the address. -/
def secondRecord : Record :=
  { record with
    id := ""
    address := ⟨.v4, 0x0a000107, by decide⟩
    parentPrefix := ⟨⟨.v4, 0x0a000100, by decide⟩, 24, by decide⟩
    tags := ⟨[⟨"rack", some "7"⟩, ⟨"ipledger.io/machine-id", some "m"⟩]⟩ }

end Small

theorem Repository.create_fulfils_second_try :
    ∃ p n, [⟨.project "prj", .ok (.ok p)⟩, ⟨.network p.id "net", .ok (.ok n)⟩] <+: Small.secondTry ∧
      Small.secondRecord.Fulfils Small.wideRequest p n := by
  have hcall : ((Repository.create ⟨.unscoped, true⟩ Small.stamp Small.wideRequest).after?
      Small.secondTry).bind Program.call? = some (.storeCreate Small.secondRecord) := by
    decide +kernel
  exact create_fulfils hcall

end Ipam
