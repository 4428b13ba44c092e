import Ipam.Proofs.Course.Fate
import Ipam.Proofs.Prefix.Text
import Ipam.Proofs.Service.Grant
import Ipam.Proofs.Tag.Text
import Ipam.Proofs.Uuid.Text
import Ipam.Record.Exchange

/-!
# Records and their wire form

A record can be exchanged if its wire form says all of it (`Record.Exchangeable`). Reading a wire
form gives a record just when it is the form of one that can be exchanged, and then that record
(`ofWire_eq_ok_iff`): of the many texts of an address, a prefix or an identifier only the one that
is written is read, and the tags come back one by one.
-/

namespace Ipam.Record

/-- The mandatory fields are there, the address lies in its prefix, and the tags are told by their
texts. -/
structure Exchangeable (r : Record) : Prop where
  id_ne : r.id ≠ ""
  networkId_ne : r.networkId ≠ ""
  projectId_ne : r.projectId ≠ ""
  contains : r.parentPrefix.contains r.address = true
  tags : r.tags.Legible

/-! ## The checks of single fields -/

theorem required_eq_ok {field value s : String} :
    required field value = .ok s ↔ value ≠ "" ∧ value = s := by
  unfold required
  by_cases hv : value = ""
  · simp [hv]
  · simp [hv]

theorem required_of_ne {field value : String} (h : value ≠ "") : required field value = .ok value :=
  required_eq_ok.2 ⟨h, rfl⟩

theorem canonical_eq_ok {field raw expected : String} {u : Unit} :
    canonical field raw expected = .ok u ↔ expected = raw := by
  unfold canonical
  by_cases he : expected = raw
  · simp [he]
  · simp [he]

theorem readTags_eq_ok {raw : List String} {tags : TagSet} :
    readTags raw = .ok tags ↔ tags.Legible ∧ tags.toStrings = raw := by
  rw [← TagSet.ofStringsStrict_eq_ok_iff]
  unfold readTags
  cases TagSet.ofStringsStrict raw with
  | ok s => simp
  | error key => simp

theorem present_eq_ok {α : Type} {field : String} {x : Option α} {a : α} :
    present field x = .ok a ↔ x = some a := by
  cases x with
  | none => simp [present]
  | some b => simp [present]

theorem retention_eq_ok {kind : Wire.Kind} {retention : Retention} :
    kind.retention = .ok retention ↔ kind = .ofRetention retention := by
  cases kind <;> cases retention <;> decide

/-- A text that must be there is read where it can be read, as no reading admits the empty text. -/
theorem required_bind {α : Type} {field text : String} {read : String → Except RequestError α}
    {e : RequestError} {a : α} (hempty : read "" = .error e) (h : read text = .ok a) :
    required field text >>= read = .ok a := by
  have hne : text ≠ "" := by
    rintro rfl
    cases hempty.symm.trans h
  exact bind_eq_ok.2 ⟨text, required_of_ne hne, h⟩

theorem readUuid_text (u : Uuid) : required "uuid" u.text >>= Query.readUuid = .ok u := by
  refine required_bind rfl ?_
  unfold Query.readUuid
  rw [u.parse_text]

theorem readAddress_text (a : Addr) : required "ip" a.text >>= Query.readAddress = .ok a := by
  refine required_bind rfl ?_
  unfold Query.readAddress
  rw [a.parse?_text]

theorem readParent_text (p : Prefix) : required "parent_prefix" p.text >>= readParent = .ok p := by
  refine required_bind rfl ?_
  unfold readParent
  rw [p.parse?_text]

/-! ## Whole records -/

/-- The wire form of a record that can be exchanged is read back as the record. -/
theorem ofWire_toWire {r : Record} (h : r.Exchangeable) : ofWire r.toWire = .ok r := by
  refine bind_eq_ok.2 ⟨_, required_of_ne h.id_ne, ?_⟩
  refine bind_eq_ok.2 ⟨_, readUuid_text r.allocationId, ?_⟩
  refine bind_eq_ok.2 ⟨_, readAddress_text r.address, ?_⟩
  refine bind_eq_ok.2 ⟨_, readParent_text r.parentPrefix, ?_⟩
  refine bind_eq_ok.2 ⟨(), canonical_eq_ok.2 rfl, ?_⟩
  refine bind_eq_ok.2 ⟨(), canonical_eq_ok.2 rfl, ?_⟩
  refine bind_eq_ok.2 ⟨(), canonical_eq_ok.2 rfl, ?_⟩
  dsimp only
  rw [if_neg (by simp [h.contains])]
  refine bind_eq_ok.2 ⟨_, required_of_ne h.networkId_ne, ?_⟩
  refine bind_eq_ok.2 ⟨_, required_of_ne h.projectId_ne, ?_⟩
  refine bind_eq_ok.2 ⟨_, retention_eq_ok.2 rfl, ?_⟩
  refine bind_eq_ok.2 ⟨_, readTags_eq_ok.2 ⟨h.tags, rfl⟩, ?_⟩
  refine bind_eq_ok.2 ⟨_, present_eq_ok.2 rfl, ?_⟩
  exact bind_eq_ok.2 ⟨_, present_eq_ok.2 rfl, rfl⟩

/-- A wire form that is read is the form of the record that it is read as. -/
theorem of_ofWire_eq_ok {w : Wire.Ip} {r : Record} (h : ofWire w = .ok r) :
    r.Exchangeable ∧ r.toWire = w := by
  obtain ⟨id, hid, h⟩ := bind_eq_ok.1 h
  obtain ⟨allocationId, -, h⟩ := bind_eq_ok.1 h
  obtain ⟨address, -, h⟩ := bind_eq_ok.1 h
  obtain ⟨parent, -, h⟩ := bind_eq_ok.1 h
  obtain ⟨u, huuid, h⟩ := bind_eq_ok.1 h
  obtain ⟨u, hip, h⟩ := bind_eq_ok.1 h
  obtain ⟨u, hparent, h⟩ := bind_eq_ok.1 h
  dsimp only at h
  by_cases hcontains : parent.contains address = true
  · rw [if_neg (by simp [hcontains])] at h
    obtain ⟨networkId, hnetwork, h⟩ := bind_eq_ok.1 h
    obtain ⟨projectId, hproject, h⟩ := bind_eq_ok.1 h
    obtain ⟨retention, hretention, h⟩ := bind_eq_ok.1 h
    obtain ⟨tags, htags, h⟩ := bind_eq_ok.1 h
    obtain ⟨createdAt, hcreated, h⟩ := bind_eq_ok.1 h
    obtain ⟨updatedAt, hupdated, h⟩ := bind_eq_ok.1 h
    obtain ⟨hid_ne, hid⟩ := required_eq_ok.1 hid
    obtain ⟨hnetwork_ne, hnetwork⟩ := required_eq_ok.1 hnetwork
    obtain ⟨hproject_ne, hproject⟩ := required_eq_ok.1 hproject
    obtain ⟨hlegible, htags⟩ := readTags_eq_ok.1 htags
    cases h
    refine ⟨⟨hid ▸ hid_ne, hnetwork ▸ hnetwork_ne, hproject ▸ hproject_ne, hcontains, hlegible⟩, ?_⟩
    obtain ⟨wid, wuuid, wip, wparent, wname, wdescription, wnetwork, wproject, wkind, wtags,
      wcreated, wupdated⟩ := w
    simp only [toWire, Wire.Ip.mk.injEq]
    exact ⟨hid.symm, canonical_eq_ok.1 huuid, canonical_eq_ok.1 hip, canonical_eq_ok.1 hparent, trivial,
      trivial, hnetwork.symm, hproject.symm, (retention_eq_ok.1 hretention).symm, htags,
      (present_eq_ok.1 hcreated).symm, (present_eq_ok.1 hupdated).symm⟩
  · rw [if_pos (by simp [hcontains])] at h
    cases h

/-- A wire form is read as a record just if the record can be exchanged and this is its form. -/
theorem ofWire_eq_ok_iff {w : Wire.Ip} {r : Record} :
    ofWire w = .ok r ↔ r.Exchangeable ∧ r.toWire = w := by
  constructor
  · exact of_ofWire_eq_ok
  · rintro ⟨hr, rfl⟩
    exact ofWire_toWire hr

/-! ## What is refused -/

/-- Whether a computation can only find fault with its input. -/
def RefusesInput {α : Type} (x : Except RequestError α) : Prop :=
  ∀ e, x = .error e → e.kind = .invalidArgument

theorem RefusesInput.bind {α β : Type} {x : Except RequestError α} {f : α → Except RequestError β}
    (hx : RefusesInput x) (hf : ∀ a, RefusesInput (f a)) : RefusesInput (x >>= f) := by
  intro e he
  rcases bind_eq_error.1 he with he | ⟨a, -, he⟩
  · exact hx e he
  · exact hf a e he

theorem RefusesInput.ok {α : Type} (a : α) : RefusesInput (.ok a) := nofun

theorem RefusesInput.invalid {α : Type} (e : InvalidArgument) :
    RefusesInput (.error (.invalid e) : Except RequestError α) := by
  rintro _ ⟨⟩
  rfl

theorem required_refuses (field value : String) : RefusesInput (required field value) := by
  unfold required
  split
  · exact .invalid _
  · exact .ok _

theorem canonical_refuses (field raw expected : String) :
    RefusesInput (canonical field raw expected) := by
  unfold canonical
  split
  · exact .ok _
  · exact .invalid _

theorem present_refuses {α : Type} (field : String) (x : Option α) :
    RefusesInput (present field x) := by
  cases x with
  | some a => exact .ok a
  | none => exact .invalid _

theorem readUuid_refuses (raw : String) : RefusesInput (Query.readUuid raw) := by
  unfold Query.readUuid
  split
  · exact .ok _
  · exact .invalid _

theorem readAddress_refuses (raw : String) : RefusesInput (Query.readAddress raw) := by
  unfold Query.readAddress
  split
  · exact .ok _
  · exact .invalid _

theorem readParent_refuses (raw : String) : RefusesInput (readParent raw) := by
  unfold readParent
  split
  · exact .ok _
  · exact .invalid _

theorem readTags_refuses (raw : List String) : RefusesInput (readTags raw) := by
  unfold readTags
  split
  · exact .ok _
  · exact .invalid _

/-- Whatever is wrong with a wire form, it is the fault of the form. -/
theorem ofWire_refuses (w : Wire.Ip) : RefusesInput (ofWire w) := by
  refine .bind (required_refuses _ _) fun id => ?_
  refine .bind (.bind (required_refuses _ _) readUuid_refuses) fun allocationId => ?_
  refine .bind (.bind (required_refuses _ _) readAddress_refuses) fun address => ?_
  refine .bind (.bind (required_refuses _ _) readParent_refuses) fun parent => ?_
  refine .bind (canonical_refuses _ _ _) fun _ => ?_
  refine .bind (canonical_refuses _ _ _) fun _ => ?_
  refine .bind (canonical_refuses _ _ _) fun _ => ?_
  dsimp only
  by_cases hcontains : parent.contains address = true
  · rw [if_neg (by simp [hcontains])]
    refine .bind (required_refuses _ _) fun networkId => ?_
    refine .bind (required_refuses _ _) fun projectId => ?_
    refine .bind (fun e => Wire.Kind.retention_kind) fun retention => ?_
    refine .bind (readTags_refuses _) fun tags => ?_
    refine .bind (present_refuses _ _) fun createdAt => ?_
    exact .bind (present_refuses _ _) fun updatedAt => .ok _
  · rw [if_pos (by simp [hcontains])]
    exact .invalid _

/-- Wire forms and the records that can be exchanged correspond one to one: what is read is written
as it was, what is written is read as it was, and all else is refused as wrong. -/
theorem wire_correspondence :
    (∀ w r, ofWire w = .ok r → r.toWire = w ∧ r.parentPrefix.contains r.address = true) ∧
    (∀ r, Exchangeable r → ofWire r.toWire = .ok r) ∧
    (∀ w, (∃ r, ofWire w = .ok r) ↔ ∃ r, Exchangeable r ∧ r.toWire = w) ∧
    (∀ r s, Exchangeable r → Exchangeable s → r.toWire = s.toWire → r = s) ∧
    (∀ w e, ofWire w = .error e → e.kind = .invalidArgument) := by
  refine ⟨?_, ?_, ?_, ?_, ?_⟩
  · intro w r h
    obtain ⟨hr, hw⟩ := of_ofWire_eq_ok h
    exact ⟨hw, hr.contains⟩
  · intro r hr
    exact ofWire_toWire hr
  · intro w
    exact exists_congr fun r => ofWire_eq_ok_iff
  · intro r s hr hs he
    have hread := ofWire_toWire hr
    rw [he, ofWire_toWire hs] at hread
    exact (Except.ok.inj hread).symm
  · intro w e he
    exact ofWire_refuses w e he

/-- A record with a value that has an equals sign in it, and with a bare key. -/
def tagged : Record := { Small.record with tags := ⟨[⟨"env", some "a=b"⟩, ⟨"pinned", none⟩]⟩ }

theorem wire_correspondence_tagged : ofWire tagged.toWire = .ok tagged := by
  have hexchangeable : Exchangeable tagged :=
    { id_ne := by decide
      networkId_ne := by decide
      projectId_ne := by decide
      contains := by decide
      tags := ⟨by decide, by decide⟩ }
  exact wire_correspondence.2.1 tagged hexchangeable

end Ipam.Record
