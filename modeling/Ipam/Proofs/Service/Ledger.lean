import Ipam.Proofs.Service.Grant

/-!
# The ledger

What callers of the address service may rely on, said of nothing but the list of the records that
are live. `Ledger.Allots` says which address a create gets, or why it gets none: a specific address
is refused just when a live record has it in the first prefix that contains it, and any address is
refused just when live records have all hosts of all prefixes of the family. `Ledger.Step` says what
each request is answered and which records are live then; a request that fails changes nothing.

The cases exclude each other. What is left open is the id of a new record and, where any address
will do, the host.
-/

namespace Ipam

namespace Service

/-- What is asked of the address service. A create comes with the stamp, and an update with the
time, that the service reads when it serves them. -/
inductive Ask where
  /-- Reads a record. -/
  | get (request : Wire.RecordRequest)
  /-- Reads all records that a request admits. -/
  | list (request : Wire.ListRequest)
  /-- Takes an address. -/
  | create (stamp : Stamp) (request : Wire.CreateRequest)
  /-- Changes a record. -/
  | update (now : Instant) (request : Wire.UpdateRequest)
  /-- Gives an address back. -/
  | delete (request : Wire.RecordRequest)

/-- What the address service answers. -/
inductive Answer where
  /-- A record. -/
  | record (ip : Wire.Ip)
  /-- Some records. -/
  | records (ips : List Wire.Ip)
  deriving DecidableEq

/-- The project that a request is made for. -/
def Ask.project : Ask → String
  | .get req => req.project
  | .list req => req.project.getD ""
  | .create _ req => req.project
  | .update _ req => req.project
  | .delete req => req.project

/-- The id of the record that a request is about. -/
def Ask.id? : Ask → Option String
  | .get req => some req.ip
  | .list _ => none
  | .create .. => none
  | .update _ req => some req.ip
  | .delete req => some req.ip

/-- The request that the address service makes of what it is asked. -/
def request (s : Service) : Ask → Request Answer
  | .get req => return .record (← s.get req)
  | .list req => return .records (← s.list req)
  | .create stamp req => return .record (← s.create stamp req)
  | .update now req => return .record (← s.update now req)
  | .delete req => return .record (← s.delete req)

end Service

/-! ## What is answered -/

/-- Whether a prefix is the first of a network that contains an address. -/
def Network.IsFirstWith (n : Network) (a : Addr) (p : Prefix) : Prop :=
  ∃ ps₁ ps₂, n.prefixes = ps₁ ++ p :: ps₂ ∧ (∀ q ∈ ps₁, q.contains a = false) ∧
    p.contains a = true

/-- The records that are live, in the order in which they were made. -/
abbrev Ledger := List Record

namespace Ledger

/-- Whether a live record has an address of a prefix. -/
def Has (L : Ledger) (x : Slot) : Prop := ∃ r ∈ L, r.slot = x

/-- Whether live records have all hosts of a prefix. -/
def IsFull (L : Ledger) (p : Prefix) : Prop := ∀ a, p.isHost a = true → L.Has (p, a)

/-- What comes of taking an address for a create: the specific one, if it asks for one. -/
inductive Allots (L : Ledger) (n : Network) (f : Family) :
    Option String → Except RequestError Lease → Prop where
  /-- No prefix contains the specific address. -/
  | outside {literal : String} {w : Addr} (hw : readLiteral literal = .ok w)
      (hout : ∀ p ∈ n.prefixes, p.contains w = false) :
      Allots L n f (some literal) (.error (.invalid (.literalOutside w n.id)))
  /-- A live record has the specific address. -/
  | taken {literal : String} {w : Addr} {p : Prefix} (hw : readLiteral literal = .ok w)
      (hfirst : n.IsFirstWith w p) (htaken : L.Has (p, w)) :
      Allots L n f (some literal) (.error (.conflict (.taken w)))
  /-- The specific address is taken from the first prefix that contains it. -/
  | specific {literal : String} {w : Addr} {p : Prefix} (hw : readLiteral literal = .ok w)
      (hfirst : n.IsFirstWith w p) (hfree : ¬ L.Has (p, w)) :
      Allots L n f (some literal) (.ok ⟨w, p⟩)
  /-- Live records have all hosts. -/
  | exhausted (hfull : ∀ p ∈ n.prefixesOf f, L.IsFull p) :
      Allots L n f none (.error (.exhausted f n.id))
  /-- Some host is taken from the first prefix that has a free one. -/
  | any {ps₁ ps₂ : List Prefix} {p : Prefix} {a : Addr} (hps : n.prefixesOf f = ps₁ ++ p :: ps₂)
      (hfull : ∀ q ∈ ps₁, L.IsFull q) (ha : p.isHost a = true) (hfree : ¬ L.Has (p, a)) :
      Allots L n f none (.ok ⟨a, p⟩)

/-- What a request is answered where some records are live, and which are live then. -/
inductive Step (c : Catalog) (L : Ledger) :
    Service.Ask → Except RequestError Service.Answer → Ledger → Prop where
  /-- The request does not name its project. -/
  | anonymous {ask : Service.Ask} (hp : ask.project = "") :
      Step c L ask (.error (.invalid .projectMissing)) L
  /-- No record of the project has the id. -/
  | missing {ask : Service.Ask} {id : String} (hp : ask.project ≠ "") (hid : ask.id? = some id)
      (hnone : ∀ r ∈ L, r.id = id → r.projectId ≠ ask.project) :
      Step c L ask (.error (.notFound (Store.subject id))) L
  /-- A record is read. -/
  | got {req : Wire.RecordRequest} {r : Record} (hp : req.project ≠ "") (hr : r ∈ L)
      (hid : r.id = req.ip) (hproject : r.projectId = req.project) :
      Step c L (.get req) (.ok (.record r.toWire)) L
  /-- A criterion is not readable. -/
  | unreadable {req : Wire.ListRequest} {e : RequestError} (hp : req.project.getD "" ≠ "")
      (hq : Query.ofRequest req = .error e) : Step c L (.list req) (.error e) L
  /-- The records that meet the criteria, the project among them, are read, save those that are
  bound to a machine. -/
  | listed {req : Wire.ListRequest} {q : Query} (hp : req.project.getD "" ≠ "")
      (hq : Query.ofRequest req = .ok q) :
      Step c L (.list req) (.ok (.records
        ((L.filter fun r => q.admits r && !r.tags.isMachineBound).map Record.toWire))) L
  /-- The checks of a create fail. -/
  | refused {stamp : Stamp} {req : Wire.CreateRequest} {e : RequestError} (hp : req.project ≠ "")
      (hg : c.grant req = .error e) : Step c L (.create stamp req) (.error e) L
  /-- There is no address for a create. -/
  | denied {stamp : Stamp} {req : Wire.CreateRequest} {g : Grant} {e : RequestError}
      (hp : req.project ≠ "") (hg : c.grant req = .ok g)
      (hallot : L.Allots g.network g.family req.ip (.error e)) :
      Step c L (.create stamp req) (.error e) L
  /-- A record with a new id is made of the address for a create. -/
  | created {stamp : Stamp} {req : Wire.CreateRequest} {g : Grant} {lease : Lease} {r : Record}
      (hp : req.project ≠ "") (hg : c.grant req = .ok g)
      (hallot : L.Allots g.network g.family req.ip (.ok lease)) (hnew : ∀ o ∈ L, o.id ≠ r.id)
      (hr : r = { Repository.newRecord stamp req g.project g.network g.retention lease with
        id := r.id }) :
      Step c L (.create stamp req) (.ok (.record r.toWire)) (L ++ [r])
  /-- The changes to a record are wrong. -/
  | unrevised {now : Instant} {req : Wire.UpdateRequest} {old : Record} {e : RequestError}
      (hp : req.project ≠ "") (hold : old ∈ L) (hid : old.id = req.ip)
      (hproject : old.projectId = req.project) (hrev : Repository.revise now req old = .error e) :
      Step c L (.update now req) (.error e) L
  /-- A record is changed where it stands. -/
  | updated {now : Instant} {req : Wire.UpdateRequest} {old new : Record} {L₁ L₂ : List Record}
      (hp : req.project ≠ "") (hL : L = L₁ ++ old :: L₂) (hid : old.id = req.ip)
      (hproject : old.projectId = req.project) (hrev : Repository.revise now req old = .ok new) :
      Step c L (.update now req) (.ok (.record new.toWire)) (L₁ ++ new :: L₂)
  /-- A record goes. -/
  | deleted {req : Wire.RecordRequest} {r : Record} {L₁ L₂ : List Record} (hp : req.project ≠ "")
      (hL : L = L₁ ++ r :: L₂) (hid : r.id = req.ip) (hproject : r.projectId = req.project) :
      Step c L (.delete req) (.ok (.record r.toWire)) (L₁ ++ L₂)

/-- What requests that are made one after the other are answered, and which records are live at the
end. -/
inductive Run (c : Catalog) :
    Ledger → List Service.Ask → List (Except RequestError Service.Answer) → Ledger → Prop where
  /-- No request is made. -/
  | nil (L : Ledger) : Run c L [] [] L
  /-- A request is made, and then others. -/
  | cons {L L' L'' : Ledger} {ask : Service.Ask} {asks : List Service.Ask}
      {response : Except RequestError Service.Answer}
      {responses : List (Except RequestError Service.Answer)} (hstep : Step c L ask response L')
      (hrun : Run c L' asks responses L'') : Run c L (ask :: asks) (response :: responses) L''

end Ledger

/-! ## The first prefix with an address -/

theorem Network.isFirstWith_iff {n : Network} {a : Addr} {p : Prefix} :
    n.IsFirstWith a p ↔ n.prefixes.find? (fun q => q.contains a) = some p := by
  rw [List.find?_eq_some_iff_append]
  constructor
  · rintro ⟨ps₁, ps₂, hps, hno, hp⟩
    exact ⟨hp, ps₁, ps₂, hps, fun q hq => by simp [hno q hq]⟩
  · rintro ⟨hp, ps₁, ps₂, hps, hno⟩
    exact ⟨ps₁, ps₂, hps, fun q hq => by simpa using hno q hq, hp⟩

theorem Network.IsFirstWith.unique {n : Network} {a : Addr} {p q : Prefix}
    (hp : n.IsFirstWith a p) (hq : n.IsFirstWith a q) : p = q := by
  have hp := Network.isFirstWith_iff.1 hp
  have hq := Network.isFirstWith_iff.1 hq
  exact Option.some.inj (hp.symm.trans hq)

theorem Network.IsFirstWith.exists_contains {n : Network} {a : Addr} {p : Prefix}
    (h : n.IsFirstWith a p) : ∃ q ∈ n.prefixes, q.contains a = true := by
  obtain ⟨ps₁, ps₂, hps, -, hp⟩ := h
  exact ⟨p, by simp [hps], hp⟩

/-- An address is looked for in all prefixes of a network, as only those of its family contain
it. -/
theorem prefixFor?_eq (n : Network) (a : Addr) :
    prefixFor? n a = n.prefixes.find? fun p => p.contains a := by
  unfold prefixFor? Network.prefixesOf
  rw [List.find?_filter]
  congr 1
  funext p
  cases hc : p.contains a with
  | false => simp
  | true => simp [(Prefix.contains_iff.1 hc).1]

/-! ## What the ledger says of creates -/

namespace Ledger

variable {c : Catalog} {L L' : Ledger} {n : Network} {f : Family}

/-- A specific address is refused as taken just when a live record has it. -/
theorem Allots.conflict_iff {literal : String} {out : Except RequestError Lease}
    (h : L.Allots n f (some literal) out) {w : Addr} (hw : readLiteral literal = .ok w) {p : Prefix}
    (hp : n.IsFirstWith w p) : (∃ cause, out = .error (.conflict cause)) ↔ L.Has (p, w) := by
  cases h with
  | outside hw' hout =>
    cases hw.symm.trans hw'
    obtain ⟨q, hq, hc⟩ := hp.exists_contains
    rw [hout q hq] at hc
    cases hc
  | taken hw' hfirst htaken =>
    cases hw.symm.trans hw'
    rw [hp.unique hfirst]
    exact ⟨fun _ => htaken, fun _ => ⟨_, rfl⟩⟩
  | specific hw' hfirst hfree =>
    cases hw.symm.trans hw'
    rw [hp.unique hfirst]
    refine ⟨?_, fun h => absurd h hfree⟩
    rintro ⟨cause, h⟩
    cases h

/-- Where no specific address is asked for, there is none just when live records have all hosts. -/
theorem Allots.exhausted_iff {out : Except RequestError Lease} (h : L.Allots n f none out) :
    (∃ f' id, out = .error (.exhausted f' id)) ↔ ∀ p ∈ n.prefixesOf f, L.IsFull p := by
  cases h with
  | exhausted hfull => exact ⟨fun _ => hfull, fun _ => ⟨_, _, rfl⟩⟩
  | any hps hfull ha hfree =>
    constructor
    · rintro ⟨f', id, h⟩
      cases h
    · intro hall
      exact absurd (hall _ (by simp [hps]) _ ha) hfree

theorem Allots.kind_ne_internal {ip : Option String} {e : RequestError}
    (h : L.Allots n f ip (.error e)) : e.kind ≠ .internal := by
  cases h <;> simp [RequestError.kind]

/-- A create that asks for a specific address and passes its checks is told of a conflict just when
a live record has the address in the first prefix of the network that contains it. -/
theorem Step.create_conflict_iff {stamp : Stamp} {req : Wire.CreateRequest}
    {response : Except RequestError Service.Answer} (h : Step c L (.create stamp req) response L')
    (hproject : req.project ≠ "") {g : Grant} (hg : c.grant req = .ok g) {literal : String}
    (hip : req.ip = some literal) {w : Addr} (hw : readLiteral literal = .ok w) {p : Prefix}
    (hp : g.network.IsFirstWith w p) :
    (∃ cause, response = .error (.conflict cause)) ↔ L.Has (p, w) := by
  cases h with
  | anonymous hempty => exact absurd hempty hproject
  | missing _ hid => cases hid
  | refused _ hg' => cases hg.symm.trans hg'
  | denied _ hg' hallot =>
    cases hg.symm.trans hg'
    rw [hip] at hallot
    simpa using hallot.conflict_iff hw hp
  | created _ hg' hallot =>
    cases hg.symm.trans hg'
    rw [hip] at hallot
    simpa using hallot.conflict_iff hw hp

/-- A create that asks for any address and passes its checks is told that there is none just when
live records have all hosts of all prefixes of the family. -/
theorem Step.create_exhausted_iff {stamp : Stamp} {req : Wire.CreateRequest}
    {response : Except RequestError Service.Answer} (h : Step c L (.create stamp req) response L')
    (hproject : req.project ≠ "") {g : Grant} (hg : c.grant req = .ok g) (hip : req.ip = none) :
    (∃ f id, response = .error (.exhausted f id)) ↔
      ∀ p ∈ g.network.prefixesOf g.family, L.IsFull p := by
  cases h with
  | anonymous hempty => exact absurd hempty hproject
  | missing _ hid => cases hid
  | refused _ hg' => cases hg.symm.trans hg'
  | denied _ hg' hallot =>
    cases hg.symm.trans hg'
    rw [hip] at hallot
    simpa using hallot.exhausted_iff
  | created _ hg' hallot =>
    cases hg.symm.trans hg'
    rw [hip] at hallot
    simpa using hallot.exhausted_iff

/-- A ledger never answers that a collaborator is at fault. -/
theorem Step.kind_ne_internal {ask : Service.Ask} {e : RequestError}
    (h : Step c L ask (.error e) L') : e.kind ≠ .internal := by
  cases h with
  | anonymous hp => simp [RequestError.kind]
  | missing hp hid hnone => simp [RequestError.kind]
  | unreadable hp hq => simp [Query.ofRequest_kind hq]
  | refused hp hg => rcases Catalog.grant_kind hg with h | h | h <;> simp [h]
  | denied hp hg hallot => exact hallot.kind_ne_internal
  | unrevised hp hold hid hproject hrev => simp [Repository.revise_kind hrev]

theorem Run.kind_ne_internal {asks : List Service.Ask}
    {responses : List (Except RequestError Service.Answer)} (h : Run c L asks responses L') :
    ∀ e, .error e ∈ responses → e.kind ≠ .internal := by
  induction h with
  | nil L => simp
  | cons hstep hrun ih =>
    intro e he
    rcases List.mem_cons.1 he with rfl | he
    · exact hstep.kind_ne_internal
    · exact ih e he

end Ledger

end Ipam
