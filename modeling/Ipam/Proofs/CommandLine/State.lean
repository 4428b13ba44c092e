import Ipam.CommandLine.State
import Ipam.Proofs.Json.Codec
import Ipam.Proofs.Pool.Snapshot
import Ipam.Proofs.Service.Refinement
import Ipam.Proofs.Store.Request

/-!
# Exact states

A state is exact if the pairs it lists as held are those of its records, each listed once, and its
store is well formed (`State.Exact`). That is so of the state that is read off collaborators in
memory just when the pool keeps step with the store, and it is what a run that starts from the state
may rely on. A state whose tags are told by their texts is read back from its file
(`State.parse?_text`).

One store comes after another (`Store.Precedes`) if each id that is new in it is one that the counter
of the other had not reached. So an id that is gone does not come back
(`Store.Precedes.not_mem_ids`).
-/

namespace Ipam

/-! ## One store after another -/

namespace Store

variable {s t u : Store}

/-- The ids of the records. -/
def ids (s : Store) : List String := s.records.map Record.id

/-- The counter has not gone back, and an id that is new is one that it had not reached. -/
structure Precedes (s t : Store) : Prop where
  /-- The counter has not gone back. -/
  nextId_le : s.nextId ≤ t.nextId
  /-- An id was there before, or the counter had not reached it. -/
  mem_ids : ∀ id ∈ t.ids, id ∈ s.ids ∨ ¬ s.Numbers id

theorem Precedes.refl (s : Store) : s.Precedes s := ⟨UInt64.le_refl _, fun _ => .inl⟩

theorem Precedes.trans (h : s.Precedes t) (h' : t.Precedes u) : s.Precedes u where
  nextId_le := UInt64.le_trans h.nextId_le h'.nextId_le
  mem_ids := by
    intro id hid
    rcases h'.mem_ids id hid with ht | hn
    · exact h.mem_ids id ht
    · exact .inr fun hs => hn (hs.mono h.nextId_le)

/-- An id that is gone does not come back. -/
theorem Precedes.not_mem_ids (hst : s.Precedes t) (htu : t.Precedes u) (h : s.WellFormed)
    {id : String} (hs : id ∈ s.ids) (ht : id ∉ t.ids) : id ∉ u.ids := by
  intro hu
  obtain ⟨r, hr, rfl⟩ := List.mem_map.1 hs
  rcases htu.mem_ids _ hu with hmem | hn
  · exact ht hmem
  · exact hn ((h.numbered r hr).mono hst.nextId_le)

/-- The ids that an operation adds to a store are those that its counter had not reached. -/
theorem Becomes.precedes {repo : Repository} {op : Operation} (h : s.Becomes repo op t)
    (hc : s.nextId ≤ t.nextId) : s.Precedes t := by
  refine ⟨hc, fun id hid => ?_⟩
  cases h with
  | same => exact .inl hid
  | added hproject hfree =>
    rw [ids, List.map_append, List.map_singleton] at hid
    rcases List.mem_append.1 hid with hid | hid
    · exact .inl hid
    · right
      intro hn
      exact hn.ne_next hc (List.mem_singleton.1 hid)
  | changed hl ha hrev =>
    left
    rw [ids, hl]
    simpa [ids, hrev.id] using hid
  | removed hl ha => exact .inl (((sublist_remove hl).map Record.id).subset hid)

end Store

namespace CommandLine.State

variable {s : State}

/-! ## Exact states -/

/-- The pairs that are held are those of the records, and all is listed once. -/
structure Exact (s : State) : Prop where
  /-- The ids are decimals of numbers up to the counter, and no two records share an id or a pair. -/
  wellFormed : s.store.WellFormed
  /-- No record has the number zero. -/
  id_ne_zero : ∀ r ∈ s.store.records, r.id ≠ toString 0
  /-- The pairs that are held are those of the records. -/
  held_iff : ∀ x, x ∈ Pool.slotsOf s.held ↔ ∃ r ∈ s.store.records, r.slot = x
  /-- No pair is listed twice. -/
  held_nodup : (Pool.slotsOf s.held).Nodup

/-- Whether the tags of all records are told by their texts. -/
def Legible (s : State) : Prop := ∀ r ∈ s.store.records, r.tags.Legible

/-! ## Files -/

theorem isPlain_toJson (s : State) : Json.IsPlain s.toJson := by
  refine .object fun m hm => ?_
  simp only [List.mem_cons, List.not_mem_nil, or_false] at hm
  rcases hm with rfl | rfl
  · exact s.store.isPlain_toJson
  · exact Pool.isPlain_snapshotToJson s.held

theorem ofJson?_toJson (h : s.Legible) : ofJson? s.toJson = some s := by
  refine Json.record_bind rfl (by decide) ?_
  refine Fields.required_bind rfl (Store.ofJson?_toJson h) ?_
  exact Fields.required_bind rfl (Pool.snapshotOfJson?_toJson s.held) rfl

/-- A state is the one that the text of its file describes. -/
theorem parse?_text (h : s.Legible) : parse? s.text = some s := by
  rw [parse?, text, Json.parse?_pretty s.isPlain_toJson, Option.bind_some, ofJson?_toJson h]

/-! ## Collaborators in memory -/

theorem exact_empty : Exact ∅ where
  wellFormed := Store.wellFormed_empty
  id_ne_zero := fun _ hr => nomatch hr
  held_iff := by
    intro x
    constructor
    · intro hx
      cases hx
    · rintro ⟨r, hr, -⟩
      cases hr
  held_nodup := List.nodup_nil

theorem legible_empty : Legible ∅ := fun _ hr => nomatch hr

/-- The collaborators that hold an exact state keep the pool in step with the store. -/
theorem Exact.tied (h : s.Exact) (c : Config) : (s.toMemory c).Tied where
  wellFormed := h.wellFormed
  id_ne_zero := h.id_ne_zero
  held_iff := by
    intro x
    show x ∈ (Pool.restore s.held).held ↔ _
    rw [Pool.mem_restore]
    exact h.held_iff x

/-- The state of collaborators that keep the pool in step with the store is exact. -/
theorem exact_ofMemory {m : Memory} (h : m.Tied) : (ofMemory m).Exact where
  wellFormed := h.wellFormed
  id_ne_zero := h.id_ne_zero
  held_iff := fun x => Pool.mem_slotsOf_snapshot.trans (h.held_iff x)
  held_nodup := m.pool.nodup_slotsOf_snapshot

/-- A state survives its file if its tags come of texts and of binding to machines: it is read back
with its counter, its records in order and what it lists as held. The collaborators that hold it keep
its store, and they list the same as held just if that is what some pool lists. -/
theorem survives (s : State) (h : ∀ r ∈ s.store.records, r.tags.Assembled) :
    ofJson? s.toJson = some s ∧ parse? s.text = some s ∧
    ∀ c : Config, (ofMemory (s.toMemory c)).store = s.store ∧
      ((ofMemory (s.toMemory c)).held = s.held ↔ ∃ pool : Pool, s.held = pool.snapshot) := by
  have hlegible : s.Legible := fun r hr => (h r hr).legible
  exact ⟨ofJson?_toJson hlegible, parse?_text hlegible, fun c => ⟨rfl, Pool.snapshot_restore_iff⟩⟩

end CommandLine.State

namespace Small

/-- A record that is bound to a machine, with a prefix that is not written by its first address. -/
def boundRecord : Record := { record with
  address := ⟨.v6, 0x20010db800010000000000000000000a, by decide⟩
  parentPrefix := ⟨⟨.v6, 0x20010db8000100000000000000000005, by decide⟩, 48, by decide⟩
  tags := (TagSet.ofStrings ["env=a", "flag", "env=b=c"]).bindMachine "m=1"
  updatedAt := ⟨stamp.now.date, 23, 59, 59, 123456789, by decide⟩ }

/-- A state with it and the largest counter. -/
def kept : CommandLine.State :=
  ⟨⟨18446744073709551615, [otherRecord, boundRecord]⟩, memory.pool.snapshot⟩

end Small

theorem CommandLine.State.survives_kept :
    (∀ r ∈ Small.kept.store.records, r.tags.Assembled) ∧
    parse? Small.kept.text = some Small.kept ∧
    (ofMemory (Small.kept.toMemory .default)).held = Small.kept.held := by
  have htags : ∀ r ∈ Small.kept.store.records, r.tags.Assembled := by
    refine List.forall_mem_cons.2 ⟨.ofStrings [], List.forall_mem_singleton.2 ?_⟩
    exact .bindMachine (.ofStrings ["env=a", "flag", "env=b=c"]) "m=1"
  obtain ⟨-, hparse, hkeeps⟩ := survives Small.kept htags
  exact ⟨htags, hparse, (hkeeps .default).2.2 ⟨Small.memory.pool, rfl⟩⟩

end Ipam
