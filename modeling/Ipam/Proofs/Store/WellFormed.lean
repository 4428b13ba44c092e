import Mathlib.Data.List.Nodup
import Ipam.Call

/-!
# Well-formed stores

A store is indexed if its records are numbered up to its counter, no two with the same number
(`Store.Indexed`). It is well formed if no two records share a pair of prefix and address either
(`Store.WellFormed`). Only the id and the pair of each record matter for that (`Store.entries`).

Each operation is described by where it acts on the list of records: a record is put at the end, or
one record is replaced or removed and the others stay (`create_eq`, `update_eq_ok`,
`delete_eq_ok`); a refused operation leaves the store alone.
-/

namespace Ipam.Store

/-- The id and the pair of each record, in the order of the records. -/
def entries (s : Store) : List (String × Slot) := s.records.map fun r => (r.id, r.slot)

theorem toString_inj {m n : Nat} (h : toString m = toString n) : m = n := by
  have hd : Nat.toDigits 10 m = Nat.toDigits 10 n := by
    rw [← Nat.toList_repr, ← Nat.toList_repr]
    exact congrArg String.toList h
  rw [← Nat.ofDigitChars_ten_toDigits (n := m), hd, Nat.ofDigitChars_ten_toDigits]

theorem mem_entries {s : Store} {id : String} {x : Slot} :
    (id, x) ∈ s.entries ↔ ∃ r ∈ s.records, r.id = id ∧ r.slot = x := by
  simp [entries]

theorem mem_entries_of_mem {s : Store} {r : Record} (h : r ∈ s.records) :
    (r.id, r.slot) ∈ s.entries := mem_entries.2 ⟨r, h, rfl, rfl⟩

/-- Whether an id is the decimal of a number that the counter has reached. -/
def Numbers (s : Store) (id : String) : Prop := ∃ n, n ≤ s.nextId.toNat ∧ id = toString n

theorem Numbers.mono {s t : Store} {id : String} (h : s.Numbers id) (hle : s.nextId ≤ t.nextId) :
    t.Numbers id := by
  obtain ⟨n, hn, he⟩ := h
  exact ⟨n, Nat.le_trans hn (UInt64.le_iff_toNat_le.1 hle), he⟩

/-- The ids are decimals of numbers up to the counter, and no two records share one. -/
structure Indexed (s : Store) : Prop where
  /-- Ids are decimals of numbers up to the counter. -/
  numbered : ∀ r ∈ s.records, s.Numbers r.id
  /-- No two records share an id. -/
  ids_nodup : (s.records.map Record.id).Nodup

/-- The ids are decimals of numbers up to the counter, no two records share one, and no two records
share a pair. -/
structure WellFormed (s : Store) : Prop where
  /-- Ids are decimals of numbers up to the counter. -/
  numbered : ∀ r ∈ s.records, s.Numbers r.id
  /-- No two records share an id. -/
  ids_nodup : (s.records.map Record.id).Nodup
  /-- No two records share a pair. -/
  slots_nodup : (s.records.map Record.slot).Nodup

theorem WellFormed.indexed {s : Store} (h : s.WellFormed) : s.Indexed := ⟨h.numbered, h.ids_nodup⟩

theorem wellFormed_empty : WellFormed ∅ where
  numbered := by
    intro r hr
    cases hr
  ids_nodup := List.nodup_nil
  slots_nodup := List.nodup_nil

/-- Only the counter and the ids and pairs of the records matter. -/
theorem WellFormed.congr {s t : Store} (h : s.WellFormed) (hn : t.nextId = s.nextId)
    (he : t.entries = s.entries) : t.WellFormed where
  numbered := by
    intro r hr
    have hmem := mem_entries_of_mem hr
    rw [he] at hmem
    obtain ⟨o, ho, hid, -⟩ := mem_entries.1 hmem
    rw [← hid]
    exact (h.numbered o ho).mono (UInt64.le_of_eq hn.symm)
  ids_nodup := by
    have := congrArg (List.map Prod.fst) he
    simp only [entries, List.map_map] at this
    exact this ▸ h.ids_nodup
  slots_nodup := by
    have := congrArg (List.map Prod.snd) he
    simp only [entries, List.map_map] at this
    exact this ▸ h.slots_nodup

/-- Records with distinct ids are told apart by their ids. -/
theorem eq_of_id_eq {s : Store} (h : (s.records.map Record.id).Nodup) {r o : Record}
    (hr : r ∈ s.records) (ho : o ∈ s.records) (he : r.id = o.id) : r = o :=
  List.inj_on_of_nodup_map h hr ho he

/-- Records with distinct pairs are told apart by their pairs. -/
theorem eq_of_slot_eq {s : Store} (h : (s.records.map Record.slot).Nodup) {r o : Record}
    (hr : r ∈ s.records) (ho : o ∈ s.records) (he : r.slot = o.slot) : r = o :=
  List.inj_on_of_nodup_map h hr ho he

/-- An id has one pair. -/
theorem WellFormed.slot_eq {s : Store} (h : s.WellFormed) {id : String} {x y : Slot}
    (hx : (id, x) ∈ s.entries) (hy : (id, y) ∈ s.entries) : x = y := by
  obtain ⟨r, hr, rfl, rfl⟩ := mem_entries.1 hx
  obtain ⟨o, ho, hid, rfl⟩ := mem_entries.1 hy
  rw [eq_of_id_eq h.ids_nodup hr ho hid.symm]

/-- A pair has one id. -/
theorem WellFormed.id_eq {s : Store} (h : s.WellFormed) {id id' : String} {x : Slot}
    (hx : (id, x) ∈ s.entries) (hy : (id', x) ∈ s.entries) : id = id' := by
  obtain ⟨r, hr, rfl, rfl⟩ := mem_entries.1 hx
  obtain ⟨o, ho, rfl, hs⟩ := mem_entries.1 hy
  rw [eq_of_slot_eq h.slots_nodup hr ho hs.symm]

/-! ## Reading -/

theorem mem_of_find? {s : Store} {id : String} {r : Record} (h : s.find? id = some r) :
    r ∈ s.records ∧ r.id = id :=
  ⟨List.mem_of_find?_eq_some h, by simpa using List.find?_some h⟩

theorem find?_eq_some_iff {s : Store} (h : (s.records.map Record.id).Nodup) {id : String}
    {r : Record} : s.find? id = some r ↔ r ∈ s.records ∧ r.id = id := by
  constructor
  · exact mem_of_find?
  · rintro ⟨hr, rfl⟩
    cases hf : s.find? r.id with
    | none => exact absurd (List.find?_eq_none.1 hf r hr) (by simp)
    | some o =>
      obtain ⟨ho, hid⟩ := mem_of_find? hf
      rw [eq_of_id_eq h ho hr hid]

theorem find?_eq_none_iff {s : Store} {id : String} :
    s.find? id = none ↔ ∀ r ∈ s.records, r.id ≠ id := by
  simp [find?]

theorem find?_of_get {s : Store} {id : String} {r : Record} (h : s.get id = .ok r) :
    s.find? id = some r := by
  rw [get] at h
  split at h
  · next o ho =>
    cases h
    exact ho
  · cases h

/-! ## Adding a record -/

/-- The record that a store makes of one that it is given. -/
def numberedNext (s : Store) (r : Record) : Record := { r with id := toString (s.nextId + 1).toNat }

@[simp] theorem numberedNext_slot (s : Store) (r : Record) : (s.numberedNext r).slot = r.slot := rfl

theorem entries_append (s : Store) (n : UInt64) (r : Record) :
    entries ⟨n, s.records ++ [r]⟩ = s.entries ++ [(r.id, r.slot)] := by
  simp [entries]

/-- A record is put at the end, under the next number, unless its pair is taken. -/
theorem create_eq (s : Store) (r : Record) :
    ((∃ o ∈ s.records, o.slot = r.slot) ∧ s.create r = (.error (.alreadyExists (newSubject r)), s)) ∨
    ((∀ o ∈ s.records, o.slot ≠ r.slot) ∧
      s.create r = (.ok (s.numberedNext r), ⟨s.nextId + 1, s.records ++ [s.numberedNext r]⟩)) := by
  rw [create]
  split
  · next h =>
    obtain ⟨o, ho, he⟩ := List.any_eq_true.1 h
    exact .inl ⟨⟨o, ho, by simpa using he⟩, rfl⟩
  · next h =>
    refine .inr ⟨fun o ho he => h ?_, rfl⟩
    exact List.any_eq_true.2 ⟨o, ho, by simpa using he⟩

theorem create_snd_of_error {s : Store} {r : Record} {e : StoreError}
    (h : (s.create r).1 = .error e) : (s.create r).2 = s := by
  rcases s.create_eq r with ⟨-, he⟩ | ⟨-, he⟩
  · rw [he]
  · rw [he] at h
    cases h

theorem toNat_succ {n : UInt64} (h : n.toNat + 1 < 2 ^ 64) : (n + 1).toNat = n.toNat + 1 := by
  rw [UInt64.toNat_add]
  exact Nat.mod_eq_of_lt h

/-- The counter is below its end if the next number is not smaller. -/
theorem toNat_succ_of_le {n : UInt64} (h : n ≤ n + 1) : (n + 1).toNat = n.toNat + 1 := by
  have hn := n.toNat_lt
  rw [UInt64.le_iff_toNat_le, UInt64.toNat_add] at h
  rw [UInt64.toNat_add]
  have h1 : (1 : UInt64).toNat = 1 := rfl
  rw [h1] at h ⊢
  omega

/-- The next number is new. -/
theorem Numbers.ne_next {s : Store} {id : String} (h : s.Numbers id) (hc : s.nextId ≤ s.nextId + 1) :
    id ≠ toString (s.nextId + 1).toNat := by
  obtain ⟨n, hn, he⟩ := h
  rw [he, toNat_succ_of_le hc]
  intro e
  have := toString_inj e
  omega

/-- A store stays indexed when it takes a record, as long as its counter does not start again. -/
theorem Indexed.append {s : Store} (h : s.Indexed) (r : Record) (hc : s.nextId ≤ s.nextId + 1) :
    Indexed ⟨s.nextId + 1, s.records ++ [s.numberedNext r]⟩ where
  numbered := by
    intro o ho
    rcases List.mem_append.1 ho with ho | ho
    · exact (h.numbered o ho).mono hc
    · rw [List.mem_singleton.1 ho]
      exact ⟨_, Nat.le_refl _, rfl⟩
  ids_nodup := by
    rw [List.map_append, List.map_singleton]
    refine List.nodup_append.2 ⟨h.ids_nodup, List.nodup_singleton _, ?_⟩
    intro a ha b hb hab
    obtain ⟨o, ho, rfl⟩ := List.mem_map.1 ha
    rw [List.mem_singleton.1 hb] at hab
    exact (h.numbered o ho).ne_next hc hab

/-- A store stays well formed when it takes a record, as long as its counter does not start again. -/
theorem WellFormed.append {s : Store} (h : s.WellFormed) {r : Record}
    (hr : ∀ o ∈ s.records, o.slot ≠ r.slot) (hc : s.nextId ≤ s.nextId + 1) :
    WellFormed ⟨s.nextId + 1, s.records ++ [s.numberedNext r]⟩ where
  numbered := (h.indexed.append r hc).numbered
  ids_nodup := (h.indexed.append r hc).ids_nodup
  slots_nodup := by
    rw [List.map_append, List.map_singleton]
    refine List.nodup_append.2 ⟨h.slots_nodup, List.nodup_singleton _, ?_⟩
    intro a ha b hb hab
    obtain ⟨o, ho, rfl⟩ := List.mem_map.1 ha
    rw [List.mem_singleton.1 hb] at hab
    exact hr o ho hab

/-! ## Replacing a record -/

theorem replace_append_cons {id : String} {new old : Record} {l₁ l₂ : List Record}
    (h : ∀ r ∈ l₁, r.id ≠ id) (ho : old.id = id) :
    replace id new (l₁ ++ old :: l₂) = l₁ ++ new :: l₂ := by
  induction l₁ with
  | nil => simp [replace, ho]
  | cons r l₁ ih =>
    have hr := h r List.mem_cons_self
    have := ih fun o ho => h o (List.mem_cons_of_mem r ho)
    simp [replace, hr, this]

/-- A record that is found stands behind records with other ids. -/
theorem exists_append_of_find? {s : Store} {id : String} {r : Record} (h : s.find? id = some r) :
    ∃ l₁ l₂, s.records = l₁ ++ r :: l₂ ∧ r.id = id ∧ ∀ o ∈ l₁, o.id ≠ id := by
  obtain ⟨hr, l₁, l₂, he, hl⟩ := List.find?_eq_some_iff_append.1 h
  exact ⟨l₁, l₂, he, by simpa using hr, by simpa using hl⟩

/-- A store stays indexed when one of its records is replaced by one with the same id. -/
theorem Indexed.replace {s : Store} (h : s.Indexed) {new old : Record} {l₁ l₂ : List Record}
    (hl : s.records = l₁ ++ old :: l₂) (hid : new.id = old.id) :
    Indexed ⟨s.nextId, l₁ ++ new :: l₂⟩ where
  numbered := by
    have hnum := h.numbered
    rw [hl] at hnum
    intro r hr
    rcases List.mem_append.1 hr with hr | hr
    · exact hnum r (List.mem_append_left _ hr)
    rcases List.mem_cons.1 hr with rfl | hr
    · rw [hid]
      exact hnum old (List.mem_append_right _ List.mem_cons_self)
    · exact hnum r (List.mem_append_right _ (List.mem_cons_of_mem old hr))
  ids_nodup := by
    have hids := h.ids_nodup
    rw [hl] at hids
    simpa [hid] using hids

/-- A store stays well formed when one of its records is replaced by one with the same id and the
same pair. -/
theorem WellFormed.replace {s : Store} (h : s.WellFormed) {new old : Record} {l₁ l₂ : List Record}
    (hl : s.records = l₁ ++ old :: l₂) (hid : new.id = old.id) (hslot : new.slot = old.slot) :
    WellFormed ⟨s.nextId, l₁ ++ new :: l₂⟩ :=
  h.congr rfl (by simp [entries, hl, hid, hslot])

/-- An update that is accepted replaces the old record where it stands, and nothing else. -/
theorem update_eq_ok {s : Store} {new old : Record} (h : (s.update new old).1 = .ok ()) :
    ∃ l₁ l₂, s.records = l₁ ++ old :: l₂ ∧ (∀ o ∈ l₁, o.id ≠ old.id) ∧
      (s.update new old).2 = ⟨s.nextId, l₁ ++ new :: l₂⟩ := by
  rw [update] at h ⊢
  split at h
  · cases h
  · next stored hf =>
    split at h
    · next he =>
      cases he
      obtain ⟨l₁, l₂, hl, hid, hne⟩ := exists_append_of_find? hf
      refine ⟨l₁, l₂, hl, hne, ?_⟩
      rw [if_pos rfl, hl, replace_append_cons hne rfl]
    · cases h

theorem update_snd_of_error {s : Store} {new old : Record} {e : StoreError}
    (h : (s.update new old).1 = .error e) : (s.update new old).2 = s := by
  rw [update] at h ⊢
  split at h
  · rfl
  · split at h
    · cases h
    · next hne => rw [if_neg hne]

theorem find?_append_cons {s : Store} {r : Record} {l₁ l₂ : List Record}
    (hl : s.records = l₁ ++ r :: l₂) (hne : ∀ o ∈ l₁, o.id ≠ r.id) : s.find? r.id = some r :=
  List.find?_eq_some_iff_append.2 ⟨decide_eq_true rfl, l₁, l₂, hl, by simpa using hne⟩

theorem update_append_cons {s : Store} {old : Record} {l₁ l₂ : List Record}
    (hl : s.records = l₁ ++ old :: l₂) (hne : ∀ o ∈ l₁, o.id ≠ old.id) (new : Record) :
    s.update new old = (.ok (), ⟨s.nextId, l₁ ++ new :: l₂⟩) := by
  rw [update, find?_append_cons hl hne]
  dsimp only
  rw [if_pos rfl, hl, replace_append_cons hne rfl]

/-- An update is refused if the store holds another version. -/
theorem update_of_changed {s : Store} {new old r : Record} (hf : s.find? old.id = some r)
    (hne : r ≠ old) : s.update new old = (.error (.conflict (subject old.id)), s) := by
  rw [update, hf]
  exact if_neg hne

/-- An update is refused if the record is gone. -/
theorem update_of_absent {s : Store} {new old : Record} (hf : s.find? old.id = none) :
    s.update new old = (.error (.notFound (subject old.id)), s) := by
  rw [update, hf]

/-- A record that is there as it was read is replaced. -/
theorem update_of_mem {s : Store} (h : (s.records.map Record.id).Nodup) {old : Record}
    (hold : old ∈ s.records) (new : Record) :
    ∃ l₁ l₂, s.records = l₁ ++ old :: l₂ ∧
      s.update new old = (.ok (), ⟨s.nextId, l₁ ++ new :: l₂⟩) := by
  have hf : s.find? old.id = some old := (find?_eq_some_iff h).2 ⟨hold, rfl⟩
  obtain ⟨l₁, l₂, hl, -, hne⟩ := exists_append_of_find? hf
  exact ⟨l₁, l₂, hl, update_append_cons hl hne new⟩

/-! ## Removing a record -/

theorem eraseP_append_cons {id : String} {old : Record} {l₁ l₂ : List Record}
    (h : ∀ r ∈ l₁, r.id ≠ id) (ho : old.id = id) :
    (l₁ ++ old :: l₂).eraseP (fun r => decide (r.id = id)) = l₁ ++ l₂ := by
  rw [List.eraseP_append_right _ (by simpa using h), List.eraseP_cons_of_pos (by simpa using ho)]

/-- A removal that is accepted takes out the first record with the id, and nothing else. -/
theorem delete_eq_ok {s : Store} {r : Record} (h : (s.delete r).1 = .ok ()) :
    ∃ l₁ o l₂, s.records = l₁ ++ o :: l₂ ∧ o.id = r.id ∧ (∀ o ∈ l₁, o.id ≠ r.id) ∧
      (s.delete r).2 = ⟨s.nextId, l₁ ++ l₂⟩ := by
  rw [delete] at h ⊢
  split at h
  · cases h
  · next o hf =>
    obtain ⟨l₁, l₂, hl, hid, hne⟩ := exists_append_of_find? hf
    refine ⟨l₁, o, l₂, hl, hid, hne, ?_⟩
    rw [hl, eraseP_append_cons hne hid]

theorem delete_snd_of_error {s : Store} {r : Record} {e : StoreError}
    (h : (s.delete r).1 = .error e) : (s.delete r).2 = s ∧ ∀ o ∈ s.records, o.id ≠ r.id := by
  rw [delete] at h ⊢
  split at h
  · next hf => exact ⟨rfl, find?_eq_none_iff.1 hf⟩
  · cases h

theorem delete_append_cons {s : Store} {r : Record} {l₁ l₂ : List Record}
    (hl : s.records = l₁ ++ r :: l₂) (hne : ∀ o ∈ l₁, o.id ≠ r.id) :
    s.delete r = (.ok (), ⟨s.nextId, l₁ ++ l₂⟩) := by
  rw [delete, find?_append_cons hl hne]
  dsimp only
  rw [hl, eraseP_append_cons hne rfl]

/-- A record that is there is removed. -/
theorem delete_of_mem {s : Store} (h : (s.records.map Record.id).Nodup) {r : Record}
    (hr : r ∈ s.records) :
    ∃ l₁ l₂, s.records = l₁ ++ r :: l₂ ∧ s.delete r = (.ok (), ⟨s.nextId, l₁ ++ l₂⟩) := by
  have hf : s.find? r.id = some r := (find?_eq_some_iff h).2 ⟨hr, rfl⟩
  obtain ⟨l₁, l₂, hl, -, hne⟩ := exists_append_of_find? hf
  exact ⟨l₁, l₂, hl, delete_append_cons hl hne⟩

/-- The records that are left when one goes stand in their order. -/
theorem sublist_remove {s : Store} {l₁ l₂ : List Record} {r : Record}
    (hl : s.records = l₁ ++ r :: l₂) : (l₁ ++ l₂).Sublist s.records := by
  rw [hl]
  exact List.Sublist.append_left (List.sublist_cons_self r l₂) l₁

/-- A store stays indexed when records go. -/
theorem Indexed.sublist {s t : Store} (h : s.Indexed) (hn : t.nextId = s.nextId)
    (hsub : t.records.Sublist s.records) : t.Indexed where
  numbered := fun r hr => (h.numbered r (hsub.subset hr)).mono (UInt64.le_of_eq hn.symm)
  ids_nodup := h.ids_nodup.sublist (hsub.map _)

/-- A store stays well formed when one of its records goes. -/
theorem WellFormed.remove {s : Store} (h : s.WellFormed) {l₁ l₂ : List Record} {r : Record}
    (hl : s.records = l₁ ++ r :: l₂) : WellFormed ⟨s.nextId, l₁ ++ l₂⟩ := by
  have hindexed : Indexed ⟨s.nextId, l₁ ++ l₂⟩ := h.indexed.sublist rfl (sublist_remove hl)
  exact ⟨hindexed.numbered, hindexed.ids_nodup, h.slots_nodup.sublist ((sublist_remove hl).map _)⟩

theorem mem_entries_remove {s : Store} {n : UInt64} {l₁ l₂ : List Record} {r : Record}
    (hl : s.records = l₁ ++ r :: l₂) {e : String × Slot} :
    e ∈ s.entries ↔ e = (r.id, r.slot) ∨ e ∈ entries ⟨n, l₁ ++ l₂⟩ := by
  simp only [entries, hl, List.map_append, List.map_cons, List.mem_append, List.mem_cons]
  exact or_left_comm

/-- Where records are told apart by their ids, or by their pairs, no other record has that of one. -/
theorem key_ne_of_mem {α : Type} {key : Record → α} {s : Store} (h : (s.records.map key).Nodup)
    {l₁ l₂ : List Record} {r : Record} (hl : s.records = l₁ ++ r :: l₂) {o : Record}
    (ho : o ∈ l₁ ++ l₂) : key o ≠ key r := by
  intro he
  rw [hl, (List.perm_middle.map key).nodup_iff, List.map_cons, List.nodup_cons] at h
  exact h.1 (List.mem_map.2 ⟨o, ho, he⟩)

/-- The id of a record that goes is not left. -/
theorem WellFormed.not_mem_remove {s : Store} (h : s.WellFormed) {n : UInt64}
    {l₁ l₂ : List Record} {r : Record} (hl : s.records = l₁ ++ r :: l₂) (x : Slot) :
    (r.id, x) ∉ entries ⟨n, l₁ ++ l₂⟩ := by
  intro hx
  obtain ⟨o, ho, hid, -⟩ := mem_entries.1 hx
  exact key_ne_of_mem h.ids_nodup hl ho hid

end Ipam.Store
