import Ipam.Proofs.Course.System

/-!
# What is written down

While requests work on a memory, a log is kept of what they learn of single records and of what they
store, call by call (`System.log`). The log tells the versions of a record that the store has held
(`Memory.versions`), in their order and whoever stored them. A call that changes the store adds a
record at the end or puts one in the place of another, and then that record is written down, or it
takes a record away (`Memory.meet_store`).

What is written down of a request depends on its stage, as long as there is more to come
(`Stage.Logged`).
-/

namespace Ipam

/-- What is written down of a call. -/
inductive Event where
  /-- The request with a number has read a record. -/
  | read (i : Nat) (r : Record)
  /-- The request with a number has stored a record. -/
  | stored (i : Nat) (r : Record)
  deriving DecidableEq

/-- What is written down of some calls, in their order. -/
abbrev Log := List Event

/-- A record that the store has held, and the request that stored it; the store may have held it
from the start. -/
structure Version where
  writer : Option Nat
  record : Record
  deriving DecidableEq

namespace Event

/-- The request that an event is due to. -/
def request : Event → Nat
  | .read i _ => i
  | .stored i _ => i

/-- The version of the record with an id that an event makes. -/
def version? (id : String) : Event → Option Version
  | .read .. => none
  | .stored i r => if r.id = id then some ⟨some i, r⟩ else none

end Event

/-- The events that are due to a request. -/
def Log.of (log : Log) (i : Nat) : Log := log.filter fun e => decide (e.request = i)

namespace Memory

/-- What is written down of a call that the request with a number makes: the record that it learns
of, or the record that the store accepts from it. -/
def event? (m : Memory) (i : Nat) (c : Call) (fate : Fate) : Option Event :=
  match c with
  | .storeGet id => if fate.isServed then (m.store.find? id).map (.read i) else none
  | .storeCreate r =>
    if fate.takesEffect then (m.store.create r).1.toOption.map (.stored i) else none
  | .storeUpdate new old =>
    if fate.takesEffect then (m.store.update new old).1.toOption.map fun _ => .stored i new else none
  | _ => none

/-- The versions of the record with an id, where a log is kept from a memory on: the record in that
memory, if there is one, and those that were stored since. -/
def versions (m : Memory) (log : Log) (id : String) : List Version :=
  ((m.store.find? id).map fun r => ⟨none, r⟩).toList ++ log.filterMap (Event.version? id)

end Memory

namespace System

/-- What is written down of a move. -/
def event? (s : System) : Move → Option Event
  | .start .. => none
  | .call i fate => do
    let t ← s.tasks[i]?
    let c ← t.course.rest.call?
    s.memory.event? i c fate

/-- What is written down of some moves. -/
def log (s : System) : List Move → Log
  | [] => []
  | mv :: moves => (s.event? mv).toList ++ (s.apply mv).log moves

end System

/-! ## Logs and versions -/

theorem Log.of_append (log log' : Log) (i : Nat) : Log.of (log ++ log') i = log.of i ++ log'.of i :=
  List.filter_append ..

namespace Memory

variable {m : Memory} {log : Log} {id : String}

theorem versions_append (m : Memory) (log log' : Log) (id : String) :
    m.versions (log ++ log') id = m.versions log id ++ log'.filterMap (Event.version? id) := by
  unfold versions
  rw [List.filterMap_append, List.append_assoc]

theorem request_of_event? {i : Nat} {c : Call} {fate : Fate} {e : Event}
    (h : m.event? i c fate = some e) : e.request = i := by
  unfold event? at h
  split at h
  · split at h
    · obtain ⟨r, -, rfl⟩ := Option.map_eq_some_iff.1 h
      rfl
    · cases h
  · split at h
    · obtain ⟨r, -, rfl⟩ := Option.map_eq_some_iff.1 h
      rfl
    · cases h
  · split at h
    · obtain ⟨r, -, rfl⟩ := Option.map_eq_some_iff.1 h
      rfl
    · cases h
  · cases h

theorem event?_of_read {i : Nat} {fate : Fate} {r : Record}
    (h : (m.meet (.storeGet id) fate).1 = .ok (.ok r)) :
    m.event? i (.storeGet id) fate = some (.read i r) := by
  have hf := find?_of_meet_storeGet h
  cases fate with
  | served pick => simp [event?, Fate.isServed, hf]
  | failed fault => cases h
  | dropped cause => cases h
  | orphaned pick cause => cases h

theorem version?_storeGet (m : Memory) (i : Nat) (id : String) (fate : Fate) (id' : String) :
    (m.event? i (.storeGet id) fate).bind (Event.version? id') = none := by
  simp only [event?]
  split
  · cases m.store.find? id <;> rfl
  · rfl

/-- A call that reads, or that changes nothing, writes no version down, and only a removal takes
records away. A call that adds or replaces a record writes that record down. -/
theorem meet_store (m : Memory) (i : Nat) (c : Call) (fate : Fate) :
    ((∀ id, (m.event? i c fate).bind (Event.version? id) = none) ∧
      (m.meet c fate).2.store.nextId = m.store.nextId ∧
      (m.meet c fate).2.store.records.Sublist m.store.records) ∨
    (∃ r, c = .storeCreate r ∧ m.event? i c fate = some (.stored i (m.store.numberedNext r)) ∧
      (m.meet c fate).2.store =
        ⟨m.store.nextId + 1, m.store.records ++ [m.store.numberedNext r]⟩) ∨
    (∃ new old l₁ l₂, c = .storeUpdate new old ∧ m.event? i c fate = some (.stored i new) ∧
      m.store.records = l₁ ++ old :: l₂ ∧
      (m.meet c fate).2.store = ⟨m.store.nextId, l₁ ++ new :: l₂⟩) := by
  cases ht : fate.takesEffect with
  | false =>
    have hm := (meet_of_not_takesEffect (m := m) ht c).1
    rw [hm]
    refine .inl ⟨fun id => ?_, rfl, List.Sublist.refl _⟩
    cases c with
    | storeGet id' => exact m.version?_storeGet i id' fate id
    | _ => simp [event?, ht]
  | true =>
    obtain ⟨pick, hm, -⟩ := meet_of_takesEffect (m := m) ht c
    rw [hm]
    cases c with
    | storeGet id => exact .inl ⟨m.version?_storeGet i id fate, rfl, List.Sublist.refl _⟩
    | storeCreate r =>
      rcases m.store.create_eq r with ⟨-, he⟩ | ⟨-, he⟩
      · refine .inl ⟨fun id => ?_, ?_⟩
        · simp [event?, he, Except.toOption]
        · rw [perform, he]
          exact ⟨rfl, List.Sublist.refl _⟩
      · refine .inr (.inl ⟨r, rfl, ?_, ?_⟩)
        · simp [event?, ht, he, Except.toOption]
        · simp only [perform, he]
    | storeUpdate new old =>
      cases hu : (m.store.update new old).1 with
      | ok u =>
        obtain ⟨l₁, l₂, hl, -, he⟩ := Store.update_eq_ok hu
        refine .inr (.inr ⟨new, old, l₁, l₂, rfl, ?_, hl, ?_⟩)
        · simp [event?, ht, hu, Except.toOption]
        · simp only [perform, he]
      | error e =>
        refine .inl ⟨fun id => ?_, ?_⟩
        · simp [event?, hu, Except.toOption]
        · rw [perform, Store.update_snd_of_error hu]
          exact ⟨rfl, List.Sublist.refl _⟩
    | storeDelete r =>
      refine .inl ⟨fun id => rfl, ?_⟩
      cases hd : (m.store.delete r).1 with
      | ok u =>
        obtain ⟨l₁, o, l₂, hl, -, -, he⟩ := Store.delete_eq_ok hd
        rw [perform, he]
        exact ⟨rfl, Store.sublist_remove hl⟩
      | error e =>
        rw [perform, (Store.delete_snd_of_error hd).1]
        exact ⟨rfl, List.Sublist.refl _⟩
    | _ => exact .inl ⟨fun id => rfl, rfl, List.Sublist.refl _⟩

theorem event?_of_updated {i : Nat} {fate : Fate} {new old : Record}
    (h : (m.meet (.storeUpdate new old) fate).1 = .ok (.ok ())) :
    m.event? i (.storeUpdate new old) fate = some (.stored i new) := by
  cases fate with
  | served pick =>
    simp only [meet, perform, Except.ok.injEq] at h
    simp [event?, Fate.takesEffect, h, Except.toOption]
  | failed fault => cases h
  | dropped cause => cases h
  | orphaned pick cause => cases h

theorem versions_stored_self (m : Memory) (log : Log) (i : Nat) (r : Record) :
    m.versions (log ++ [.stored i r]) r.id = m.versions log r.id ++ [⟨some i, r⟩] := by
  rw [versions_append]
  simp [Event.version?]

theorem versions_stored_of_ne (m : Memory) (log : Log) (i : Nat) {r : Record} (h : r.id ≠ id) :
    m.versions (log ++ [.stored i r]) id = m.versions log id := by
  rw [versions_append]
  simp [Event.version?, h]

theorem mem_of_event?_stored {i : Nat} {fate : Fate} {new old : Record}
    (h : m.event? i (.storeUpdate new old) fate = some (.stored i new)) :
    old ∈ m.store.records := by
  rcases m.meet_store i (.storeUpdate new old) fate with
    ⟨hnone, -⟩ | ⟨r, hr, -⟩ | ⟨new', old', l₁, l₂, hc, -, hl, -⟩
  · have hid := hnone new.id
    rw [h] at hid
    simp [Event.version?] at hid
  · cases hr
  · cases hc
    rw [hl]
    exact List.mem_append_right _ List.mem_cons_self

end Memory

/-! ## What the stages say of the log -/

namespace Stage

/-- What is written down of a request at a stage from which it may go on to read or to store. -/
def Logged (i : Nat) (op : Operation) (own : Log) : Stage → Prop
  | .reading => own = []
  | .choosing => own = []
  | .holding _ => own = []
  | .comparing => own = []
  | .revising old => own = [.read i old] ∧ ∃ now req, op = .update now req ∧ old.id = req.ip
  | .seeking => own = []
  | _ => True

theorem logged_first (i : Nat) (op : Operation) : (first op).Logged i op [] := by
  cases op <;> rfl

variable {repo : Repository} {op : Operation} {st st' : Stage} {c : Call}
  {out : Except Interruption c.Answer} {m : Memory} {i : Nat} {fate : Fate} {own : Log}

/-- Of a request that may still read or store, no more than one event is written down. -/
theorem Goes.length_own_le (h : Goes repo op st c out st') (hl : st.Logged i op own)
    (he : m.event? i c fate ≠ none) : own.length ≤ 1 := by
  cases h with
  | get id => simp [show own = [] from hl]
  | create stamp req x r => simp [show own = [] from hl]
  | load now req => simp [show own = [] from hl]
  | revise now req new old => simp [hl.1]
  | seek id => simp [show own = [] from hl]
  | _ => exact absurd rfl he

theorem Goes.logged (h : Goes repo op st c out st') (hout : out = (m.meet c fate).1)
    (hl : st.Logged i op own) : st'.Logged i op (own ++ (m.event? i c fate).toList) := by
  cases h with
  | get id out =>
    rcases onRecord_eq repo out fun r => .complete (.record r) with ⟨r, -, h⟩ | h <;>
      rw [h] <;> trivial
  | list q out =>
    rcases onAnswer_eq out fun rs : List Record =>
      .complete (.records (rs.filter fun r => !r.tags.isMachineBound)) with ⟨rs, -, h⟩ | h <;>
      rw [h] <;> trivial
  | project stamp req out =>
    rcases onAnswer_eq out fun _ => .choosing with ⟨p, -, h⟩ | h <;> rw [h]
    · exact (List.append_nil own).trans hl
    · trivial
  | network stamp req p out =>
    rcases onAnswer_eq out fun _ => .choosing with ⟨n, -, h⟩ | h <;> rw [h]
    · exact (List.append_nil own).trans hl
    · trivial
  | acquire stamp req p wanted out =>
    rcases readAcquire p wanted out with (_ | _ | e) | a
    · exact (List.append_nil own).trans hl
    · trivial
    · trivial
    · exact (List.append_nil own).trans hl
  | create stamp req x r hx out =>
    rcases out with _ | _ | stored
    · trivial
    · show Logged i _ _ (if repo.releaseOnRefusal then .refused x else .ended)
      split <;> trivial
    · trivial
  | compensate stamp req x answer => trivial
  | load now req out =>
    rcases onRecord_eq repo out .revising with ⟨r, hr, h⟩ | h <;> rw [h]
    · have hread := hout.symm.trans hr
      refine ⟨?_, now, req, rfl, (Memory.mem_of_meet_storeGet hread).2⟩
      rw [show own = [] from hl, Memory.event?_of_read hread]
      rfl
    · trivial
  | revise now req new old hnew out =>
    rcases onAnswer_eq out fun _ => .complete (.record new) with ⟨u, -, h⟩ | h <;> rw [h] <;> trivial
  | seek id out =>
    rcases onRecord_eq repo out .found with ⟨r, -, h⟩ | h <;> rw [h] <;> trivial
  | release id r out =>
    rcases onRelease_eq r out with h | h <;> rw [h] <;> trivial
  | remove id r out =>
    rcases onAnswer_eq out fun _ => .complete (.record r) with ⟨u, -, h⟩ | h <;> rw [h] <;> trivial

/-- A record is replaced only by an update that has read it. -/
theorem Goes.revising_of_storeUpdate {new old : Record}
    {out : Except Interruption (Call.storeUpdate new old).Answer}
    (h : Goes repo op st (.storeUpdate new old) out st') :
    st = .revising old ∧ ∃ now req, op = .update now req ∧
      Repository.revise now req old = .ok new := by
  cases h with
  | revise now req new old hnew => exact ⟨rfl, now, req, rfl, hnew⟩

/-- An update is complete when the store has replaced the record that it has read. -/
theorem Goes.stored_of_complete {now : Instant} {req : Wire.UpdateRequest} {response : Response}
    (h : Goes repo op st c out st') (hout : out = (m.meet c fate).1) (hop : op = .update now req)
    (hst : st' = .complete response) :
    ∃ new old, c = .storeUpdate new old ∧ response = .record new ∧
      m.event? i c fate = some (.stored i new) := by
  cases h with
  | load now req out =>
    rcases onRecord_eq repo out .revising with ⟨r, -, h⟩ | h <;> rw [h] at hst <;> cases hst
  | revise now req new old hnew out =>
    rcases onAnswer_eq out fun _ => .complete (.record new) with ⟨u, hu, h⟩ | h
    · rw [h] at hst
      cases hst
      exact ⟨new, old, rfl, rfl, Memory.event?_of_updated (hout.symm.trans hu)⟩
    · rw [h] at hst
      cases hst
  | _ => cases hop

end Stage

end Ipam
