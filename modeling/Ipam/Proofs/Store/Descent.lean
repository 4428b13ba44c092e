import Ipam.Proofs.Record.Revision
import Ipam.Proofs.Store.WellFormed

/-!
# What a store keeps of its records

Part of a record says which allocation it is about, and that never changes (`Record.identity`). The
records of a store stand in the order of their numbers (`Store.Orderly`), so where a record stands
among others is told by their ids.

`Store.Change` lists what a call of the store can do: a record is put at the end, or one is replaced
or removed where it stands, or nothing happens. Whatever of this happens, the records that are left
are those that were there, in their order and with their identity, and new ones are numbered from the
counter on (`Store.Descent`).
-/

namespace Ipam

/-! ## Identity -/

/-- What a record is about. -/
structure Identity where
  /-- The id the store gave. -/
  id : String
  /-- The identifier of the allocation. -/
  allocationId : Uuid
  /-- The address. -/
  address : Addr
  /-- The prefix it was taken from. -/
  parentPrefix : Prefix
  /-- The id of the network. -/
  networkId : String
  /-- The id of the project. -/
  projectId : String
  /-- When the record was made. -/
  createdAt : Instant
  deriving DecidableEq

namespace Record

/-- What a record is about. -/
def identity (r : Record) : Identity :=
  ⟨r.id, r.allocationId, r.address, r.parentPrefix, r.networkId, r.projectId, r.createdAt⟩

theorem id_eq_of_identity_eq {r o : Record} (h : r.identity = o.identity) : r.id = o.id :=
  congrArg Identity.id h

theorem RevisedBy.identity_eq {now : Instant} {req : Wire.UpdateRequest} {old new : Record}
    (h : old.RevisedBy now req new) : new.identity = old.identity := by
  simp only [identity, h.id, h.allocationId, h.address, h.parentPrefix, h.networkId, h.projectId,
    h.createdAt]

end Record

namespace Store

variable {s t u : Store}

/-! ## Order -/

/-- The records stand in the order of their numbers, which the counter has reached. No two share a
pair, and no two tags of one record share a key. -/
structure Orderly (s : Store) : Prop where
  /-- The ids are the decimals of numbers that grow up to the counter. -/
  numbered : ∃ ns : List Nat, s.records.map Record.id = ns.map toString ∧ ns.Pairwise (· < ·) ∧
    ∀ n ∈ ns, n ≤ s.nextId.toNat
  /-- No two records share a pair. -/
  slots_nodup : (s.records.map Record.slot).Nodup
  /-- The keys of the tags of a record are distinct. -/
  keys_nodup : ∀ r ∈ s.records, (r.tags.toList.map Tag.key).Nodup

theorem orderly_empty : Orderly ∅ where
  numbered := ⟨[], rfl, List.Pairwise.nil, by simp⟩
  slots_nodup := List.nodup_nil
  keys_nodup := by
    intro r hr
    cases hr

/-- Whether two ids are the decimals of numbers the first of which is smaller. -/
def Earlier (a b : String) : Prop := ∃ m n : Nat, m < n ∧ a = toString m ∧ b = toString n

theorem Earlier.not_symm {a b : String} (h : Earlier a b) : ¬ Earlier b a := by
  obtain ⟨m, n, hlt, rfl, rfl⟩ := h
  rintro ⟨n', m', hlt', hn, hm⟩
  have hn := toString_inj hn
  have hm := toString_inj hm
  omega

namespace Orderly

theorem earlier (h : s.Orderly) : s.records.Pairwise fun r o => Earlier r.id o.id := by
  obtain ⟨ns, hns, hlt, -⟩ := h.numbered
  rw [← List.pairwise_map (R := Earlier), hns, List.pairwise_map]
  exact hlt.imp fun hmn => ⟨_, _, hmn, rfl, rfl⟩

theorem ids_nodup (h : s.Orderly) : (s.records.map Record.id).Nodup := by
  obtain ⟨ns, hns, hlt, -⟩ := h.numbered
  rw [hns]
  refine List.Nodup.map (fun m n => toString_inj) ?_
  exact hlt.imp Nat.ne_of_lt

theorem numbers (h : s.Orderly) {r : Record} (hr : r ∈ s.records) : s.Numbers r.id := by
  obtain ⟨ns, hns, -, hle⟩ := h.numbered
  have hmem : r.id ∈ ns.map toString := hns ▸ List.mem_map_of_mem hr
  obtain ⟨n, hn, hid⟩ := List.mem_map.1 hmem
  exact ⟨n, hle n hn, hid.symm⟩

/-- One record stands before another just when its number is smaller. -/
theorem sublist_iff (h : s.Orderly) {r o : Record} (hr : r ∈ s.records) (ho : o ∈ s.records) :
    [r, o].Sublist s.records ↔ Earlier r.id o.id := by
  constructor
  · intro hsub
    have hpair := h.earlier.sublist hsub
    exact (List.pairwise_cons.1 hpair).1 o (List.mem_singleton_self o)
  · intro hlt
    have hirrefl : r.id ≠ o.id := by
      intro he
      rw [he] at hlt
      exact hlt.not_symm hlt
    obtain ⟨l₁, l₂, hl⟩ := List.append_of_mem hr
    have horder := h.earlier
    rw [hl] at horder ho ⊢
    rcases List.mem_append.1 ho with ho | ho
    · exact absurd hlt ((List.pairwise_append.1 horder).2.2 o ho r List.mem_cons_self).not_symm
    · rcases List.mem_cons.1 ho with rfl | ho
      · exact absurd rfl hirrefl
      · have hsub : [r, o].Sublist (r :: l₂) := (List.singleton_sublist.2 ho).cons_cons r
        exact hsub.trans (List.sublist_append_right l₁ _)

/-- Two records stand as those with their ids stand in another store. -/
theorem sublist_of_sublist (hs : s.Orderly) (ht : t.Orderly) {r o r' o' : Record}
    (hro : [r, o].Sublist s.records) (hr' : r' ∈ t.records) (ho' : o' ∈ t.records)
    (hr : r'.id = r.id) (ho : o'.id = o.id) : [r', o'].Sublist t.records := by
  have hlt := (hs.sublist_iff (hro.subset (by simp)) (hro.subset (by simp))).1 hro
  rw [ht.sublist_iff hr' ho', hr, ho]
  exact hlt

end Orderly

/-! ## Descent -/

/-- One store has come from another. Of its records, some were there before; they have kept their
order and their identity. The others are numbered from the counter on. -/
structure Descent (s t : Store) : Prop where
  /-- The counter has not gone back. -/
  nextId_le : s.nextId ≤ t.nextId
  /-- The records are such that were there before, and then new ones. -/
  lineage : ∃ kept made, t.records.map Record.identity = kept ++ made ∧
    kept.Sublist (s.records.map Record.identity) ∧
    ∀ e ∈ made, ∃ n : Nat, s.nextId.toNat < n ∧ e.id = toString n

namespace Descent

theorem of_sublist {n : UInt64} {l : List Record} (hn : n = s.nextId)
    (h : (l.map Record.identity).Sublist (s.records.map Record.identity)) : s.Descent ⟨n, l⟩ where
  nextId_le := UInt64.le_of_eq hn.symm
  lineage := ⟨_, [], (List.append_nil _).symm, h, by simp⟩

theorem refl (s : Store) : s.Descent s := of_sublist rfl (List.Sublist.refl _)

theorem trans (h : s.Descent t) (h' : t.Descent u) : s.Descent u := by
  obtain ⟨kept, made, ht, hkept, hmade⟩ := h.lineage
  obtain ⟨kept', made', hu, hkept', hmade'⟩ := h'.lineage
  rw [ht] at hkept'
  -- what was there at both times was there first, or it was new in between
  obtain ⟨k, m, rfl, hk, hm⟩ := List.sublist_append_iff.1 hkept'
  refine ⟨UInt64.le_trans h.nextId_le h'.nextId_le, k, m ++ made', ?_, hk.trans hkept, ?_⟩
  · rw [hu, List.append_assoc]
  · intro e he
    rcases List.mem_append.1 he with he | he
    · exact hmade e (hm.subset he)
    · obtain ⟨n, hn, hid⟩ := hmade' e he
      have hle := UInt64.le_iff_toNat_le.1 h.nextId_le
      exact ⟨n, by omega, hid⟩

/-- A record and one that was there before under its id are about the same. -/
theorem identity_eq (h : s.Descent t) (hs : s.Orderly) {r r' : Record} (hr : r ∈ s.records)
    (hr' : r' ∈ t.records) (hid : r'.id = r.id) : r'.identity = r.identity := by
  obtain ⟨kept, made, ht, hkept, hmade⟩ := h.lineage
  have hmem : r'.identity ∈ kept ++ made := ht ▸ List.mem_map_of_mem hr'
  rcases List.mem_append.1 hmem with hmem | hmem
  · obtain ⟨o, ho, heq⟩ := List.mem_map.1 (hkept.subset hmem)
    have hro : o.id = r.id := (Record.id_eq_of_identity_eq heq).trans hid
    rw [← heq, eq_of_id_eq hs.ids_nodup ho hr hro]
  · obtain ⟨n, hlt, hn⟩ := hmade _ hmem
    obtain ⟨m, hle, hm⟩ := hs.numbers hr
    have hmn : m = n := toString_inj (hm.symm.trans (hid.symm.trans hn))
    omega

end Descent

/-! ## Changes -/

/-- What a call of the store can do to it. -/
inductive Change (s : Store) : Call → Store → Prop where
  /-- Nothing. -/
  | none (c : Call) : Change s c s
  /-- A record is put at the end, under the next number. -/
  | add (r : Record) (hfree : ∀ o ∈ s.records, o.slot ≠ r.slot) :
    Change s (.storeCreate r) ⟨s.nextId + 1, s.records ++ [s.numberedNext r]⟩
  /-- A record is replaced where it stands. -/
  | replace (new old : Record) (l₁ l₂ : List Record) (hl : s.records = l₁ ++ old :: l₂) :
    Change s (.storeUpdate new old) ⟨s.nextId, l₁ ++ new :: l₂⟩
  /-- A record is taken out. -/
  | remove (r o : Record) (l₁ l₂ : List Record) (hl : s.records = l₁ ++ o :: l₂) :
    Change s (.storeDelete r) ⟨s.nextId, l₁ ++ l₂⟩

/-- A call that is performed changes the store in one of these ways. -/
theorem change_perform (m : Memory) (pick : Nat) (c : Call) :
    m.store.Change c (m.perform pick c).2.store := by
  cases c with
  | storeCreate r =>
    show m.store.Change _ (m.store.create r).2
    rcases m.store.create_eq r with ⟨-, he⟩ | ⟨hfree, he⟩
    · rw [he]
      exact .none _
    · rw [he]
      exact .add r hfree
  | storeUpdate new old =>
    show m.store.Change _ (m.store.update new old).2
    cases hu : (m.store.update new old).1 with
    | ok u =>
      obtain ⟨l₁, l₂, hl, -, he⟩ := update_eq_ok hu
      rw [he]
      exact .replace new old l₁ l₂ hl
    | error e =>
      rw [update_snd_of_error hu]
      exact .none _
  | storeDelete r =>
    show m.store.Change _ (m.store.delete r).2
    cases hd : (m.store.delete r).1 with
    | ok u =>
      obtain ⟨l₁, o, l₂, hl, -, -, he⟩ := delete_eq_ok hd
      rw [he]
      exact .remove r o l₁ l₂ hl
    | error e =>
      rw [(delete_snd_of_error hd).1]
      exact .none _
  | project id => exact .none _
  | network project id => exact .none _
  | acquire req => exact .none _
  | release req => exact .none _
  | storeGet id => exact .none _
  | storeList q => exact .none _

/-- How many records a call may make. -/
def made : Call → Nat
  | .storeCreate _ => 1
  | _ => 0

/-- Whether a call is one that a request may make: the tags of a new record have distinct keys, and
so have those of a changed one, which is about what the old one is about. -/
def Accepts : Call → Prop
  | .storeCreate r => (r.tags.toList.map Tag.key).Nodup
  | .storeUpdate new old => new.identity = old.identity ∧
    ((old.tags.toList.map Tag.key).Nodup → (new.tags.toList.map Tag.key).Nodup)
  | _ => True

namespace Change

variable {c : Call}

theorem nextId_le (h : s.Change c t) (hroom : s.nextId.toNat + made c < 2 ^ 64) :
    s.nextId ≤ t.nextId ∧ t.nextId.toNat ≤ s.nextId.toNat + made c := by
  cases h with
  | none => exact ⟨UInt64.le_refl _, Nat.le_add_right _ _⟩
  | add r hfree =>
    have hnext : (s.nextId + 1).toNat = s.nextId.toNat + 1 := toNat_succ hroom
    refine ⟨?_, Nat.le_of_eq hnext⟩
    rw [UInt64.le_iff_toNat_le, hnext]
    exact Nat.le_succ _
  | replace new old l₁ l₂ hl => exact ⟨UInt64.le_refl _, Nat.le_refl _⟩
  | remove r o l₁ l₂ hl => exact ⟨UInt64.le_refl _, Nat.le_refl _⟩

theorem descent (h : s.Change c t) (hc : Accepts c) (hroom : s.nextId.toNat + made c < 2 ^ 64) :
    s.Descent t := by
  have hle := (h.nextId_le hroom).1
  cases h with
  | none => exact .refl s
  | add r hfree =>
    refine ⟨hle, s.records.map Record.identity, [(s.numberedNext r).identity], by simp,
      List.Sublist.refl _, ?_⟩
    intro e he
    rw [List.mem_singleton.1 he]
    refine ⟨(s.nextId + 1).toNat, ?_, rfl⟩
    have hnext : (s.nextId + 1).toNat = s.nextId.toNat + 1 := toNat_succ hroom
    omega
  | replace new old l₁ l₂ hl =>
    refine .of_sublist rfl ?_
    rw [hl, List.map_append, List.map_append, List.map_cons, List.map_cons, hc.1]
  | remove r o l₁ l₂ hl => exact .of_sublist rfl ((sublist_remove hl).map _)

theorem orderly (h : s.Change c t) (hs : s.Orderly) (hc : Accepts c)
    (hroom : s.nextId.toNat + made c < 2 ^ 64) : t.Orderly := by
  obtain ⟨ns, hns, hlt, hle⟩ := hs.numbered
  have hslots := hs.slots_nodup
  have hkeys := hs.keys_nodup
  cases h with
  | none => exact hs
  | add r hfree =>
    have hnext : (s.nextId + 1).toNat = s.nextId.toNat + 1 := toNat_succ hroom
    refine ⟨⟨ns ++ [(s.nextId + 1).toNat], ?_, ?_, ?_⟩, ?_, ?_⟩
    · rw [List.map_append, List.map_append, hns]
      rfl
    · refine List.pairwise_append.2 ⟨hlt, List.pairwise_singleton _ _, fun n hn m hm => ?_⟩
      have := hle n hn
      rw [List.mem_singleton.1 hm]
      omega
    · intro n hn
      rcases List.mem_append.1 hn with hn | hn
      · exact Nat.le_trans (hle n hn) (by simp only [hnext]; omega)
      · exact Nat.le_of_eq (List.mem_singleton.1 hn)
    · rw [List.map_append, List.map_singleton, numberedNext_slot]
      refine hslots.append (List.nodup_singleton _) ?_
      simpa [eq_comm] using hfree
    · intro o ho
      rcases List.mem_append.1 ho with ho | ho
      · exact hkeys o ho
      · rw [List.mem_singleton.1 ho]
        exact hc
  | replace new old l₁ l₂ hl =>
    obtain ⟨hidentity, htags⟩ := hc
    have hid : new.id = old.id := congrArg Identity.id hidentity
    have hslot : new.slot = old.slot :=
      congrArg (fun e => (e.parentPrefix, e.address)) hidentity
    rw [hl] at hns hslots hkeys
    refine ⟨⟨ns, ?_, hlt, hle⟩, ?_, ?_⟩
    · rw [← hns, List.map_append, List.map_append, List.map_cons, List.map_cons, hid]
    · rw [List.map_append, List.map_cons] at hslots ⊢
      rwa [hslot]
    · intro o ho
      obtain ⟨hkeys₁, hkeys₂⟩ := List.forall_mem_append.1 hkeys
      obtain ⟨hold, hkeys₂⟩ := List.forall_mem_cons.1 hkeys₂
      exact List.forall_mem_append.2 ⟨hkeys₁, List.forall_mem_cons.2 ⟨htags hold, hkeys₂⟩⟩ o ho
  | remove r o l₁ l₂ hl =>
    have hsub : (l₁ ++ l₂).Sublist s.records := sublist_remove hl
    have hids := hsub.map Record.id
    rw [hns] at hids
    obtain ⟨ms, hms, hmap⟩ := List.sublist_map_iff.1 hids
    refine ⟨⟨ms, hmap, hlt.sublist hms, fun n hn => hle n (hms.subset hn)⟩, ?_, ?_⟩
    · exact hslots.sublist (hsub.map _)
    · exact fun o ho => hkeys o (hsub.subset ho)

end Change

end Store

end Ipam
