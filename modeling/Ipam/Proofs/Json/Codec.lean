import Ipam.Json.Codec
import Ipam.Proofs.Instant.Text
import Ipam.Proofs.Json.Text
import Ipam.Proofs.Prefix.Text
import Ipam.Proofs.Tag.Text
import Ipam.Proofs.Uuid.Text

/-!
# Records in JSON and back

What is written of a record, of a store and of the contents of an allocator is a plain value, and is
read as what it was written of (`Record.ofJson?_toJson`, `Store.ofJson?_toJson`,
`Pool.snapshotOfJson?_toJson`). Of a record that needs that its tags are told by their texts.
-/

namespace Ipam

theorem hasRepeat_eq_false {α : Type} [DecidableEq α] {as : List α} (h : as.Nodup) :
    hasRepeat as = false := by
  induction as with
  | nil => rfl
  | cons a as ih =>
    obtain ⟨ha, has⟩ := List.nodup_cons.1 h
    simp [hasRepeat, ha, ih has]

/-! ## Fields -/

namespace Fields

variable {V α β : Type} {fs : Fields V} {name : String} {read : V → Option α} {v : V} {a : α}
  {rest : α → Option β} {b : β}

/-- A field that is given and can be read is read, and the reading goes on. -/
theorem required_bind (hv : fs.get? name = some v) (ha : read v = some a) (hb : rest a = some b) :
    fs.required name read >>= rest = some b := by
  rw [required, hv]
  exact Option.bind_eq_some_iff.2 ⟨a, ha, hb⟩

theorem defaulted_bind {default : α} (hv : fs.get? name = some v) (ha : read v = some a)
    (hb : rest a = some b) : fs.defaulted name default read >>= rest = some b := by
  rw [defaulted, hv]
  exact Option.bind_eq_some_iff.2 ⟨a, ha, hb⟩

end Fields

namespace Json

/-- An object of just the fields is read by its fields. -/
theorem record_bind {β : Type} {members : List (String × Json)} {names : List String}
    {rest : Fields Json → Option β} {b : β} (hmembers : members.map Prod.fst = names)
    (hnames : names.Nodup) (hb : rest ⟨false, members⟩ = some b) :
    format.record names (.object members) >>= rest = some b := by
  have hown : (members.filter fun m => names.contains m.1) = members := by
    refine List.filter_eq_self.2 fun m hm => ?_
    rw [List.contains_iff_mem, ← hmembers]
    exact List.mem_map_of_mem hm
  have hall : format.members? (.object members) = some members := rfl
  unfold Format.record
  rw [hall]
  simp only [hown, hmembers, hasRepeat_eq_false hnames]
  exact hb

/-! ## Parts of records -/

theorem list_array {α : Type} {read : Json → Option α} {write : α → Json} {as : List α}
    (h : ∀ a ∈ as, read (write a) = some a) :
    format.list read (.array (as.map write)) = some as := by
  show (as.map write).mapM read = some as
  induction as with
  | nil => rfl
  | cons a as ih =>
    rw [List.map_cons, List.mapM_cons, h a List.mem_cons_self,
      ih fun b hb => h b (List.mem_cons_of_mem a hb)]
    rfl

theorem isPlain_array_map {α : Type} {write : α → Json} (h : ∀ a, IsPlain (write a))
    (as : List α) : IsPlain (.array (as.map write)) := by
  refine .array fun v hv => ?_
  obtain ⟨a, -, rfl⟩ := List.mem_map.1 hv
  exact h a

theorem isPlain_strings (ss : List String) : IsPlain (strings ss) :=
  isPlain_array_map .string ss

theorem toWord?_nat (w : UInt64) : toWord? (.nat w.toNat) = some w := by
  rw [toWord?, if_pos w.toNat_lt, UInt64.ofNat_toNat]

theorem toTags?_ofTags {s : TagSet} (h : s.Legible) : toTags? (ofTags s) = some s := by
  have hread : toTexts? (strings s.toStrings) = some s.toStrings := list_array fun _ _ => rfl
  rw [toTags?, ofTags, hread, Option.map_some, h.ofStrings_toStrings]

theorem toParsed?_string {α : Type} {parse : String → Option α} {s : String} {a : α}
    (h : parse s = some a) : toParsed? parse (.string s) = some a := h

theorem toAddr?_text (a : Addr) : toAddr? (.string a.text) = some a :=
  toParsed?_string a.parse?_text

theorem toPrefix?_text (p : Prefix) : toPrefix? (.string p.text) = some p :=
  toParsed?_string p.parse?_text

theorem toUuid?_text (u : Uuid) : toUuid? (.string u.text) = some u := by
  refine toParsed?_string ?_
  rw [u.parse_text]
  rfl

theorem toInstant?_text (t : Instant) : toInstant? (.string t.text) = some t :=
  toParsed?_string t.parse?_text

end Json

open Json Fields

theorem Retention.ofJson?_name (r : Retention) : ofJson? (.string r.name) = some r := by
  cases r with
  | ephemeral => rfl
  | static => rfl

/-! ## Records, stores and the contents of allocators -/

theorem Record.isPlain_toJson (r : Record) : IsPlain r.toJson := by
  refine .object fun m hm => ?_
  simp only [List.mem_cons, List.not_mem_nil, or_false] at hm
  rcases hm with rfl | rfl | rfl | rfl | rfl | rfl | rfl | rfl | rfl | rfl | rfl | rfl
  all_goals first
    | exact .string _
    | exact isPlain_strings _

/-- A record is what the value that is written of it describes. -/
theorem Record.ofJson?_toJson {r : Record} (h : r.tags.Legible) : ofJson? r.toJson = some r := by
  refine record_bind rfl (by decide) ?_
  refine required_bind rfl rfl ?_
  refine required_bind rfl (toUuid?_text _) ?_
  refine required_bind rfl (toAddr?_text _) ?_
  refine required_bind rfl (toPrefix?_text _) ?_
  refine required_bind rfl rfl (required_bind rfl rfl ?_)
  refine defaulted_bind rfl rfl (defaulted_bind rfl rfl ?_)
  refine required_bind rfl (Retention.ofJson?_name _) ?_
  refine defaulted_bind rfl (toTags?_ofTags h) ?_
  refine required_bind rfl (toInstant?_text _) ?_
  exact required_bind rfl (toInstant?_text _) rfl

theorem Store.isPlain_toJson (s : Store) : IsPlain s.toJson := by
  refine .object fun m hm => ?_
  simp only [List.mem_cons, List.not_mem_nil, or_false] at hm
  rcases hm with rfl | rfl
  · exact .nat _
  · exact isPlain_array_map Record.isPlain_toJson _

theorem Store.ofJson?_toJson {s : Store} (h : ∀ r ∈ s.records, r.tags.Legible) :
    ofJson? s.toJson = some s := by
  refine record_bind rfl (by decide) ?_
  refine required_bind rfl (toWord?_nat _) ?_
  exact required_bind rfl (list_array fun r hr => Record.ofJson?_toJson (h r hr)) rfl

theorem Allocation.isPlain_toJson (e : Allocation) : IsPlain e.toJson := by
  refine .object fun m hm => ?_
  simp only [List.mem_cons, List.not_mem_nil, or_false] at hm
  rcases hm with rfl | rfl
  · exact .string _
  · exact isPlain_strings _

theorem Allocation.ofJson?_toJson (e : Allocation) : ofJson? e.toJson = some e := by
  have haddresses : format.list toAddr? (strings (e.addresses.map Addr.text)) =
      some e.addresses := by
    rw [strings, List.map_map]
    exact list_array fun a _ => toAddr?_text a
  refine record_bind rfl (by decide) ?_
  refine required_bind rfl (toPrefix?_text _) ?_
  exact required_bind rfl haddresses rfl

theorem Pool.isPlain_snapshotToJson (l : List Allocation) : IsPlain (snapshotToJson l) :=
  isPlain_array_map Allocation.isPlain_toJson l

theorem Pool.snapshotOfJson?_toJson (l : List Allocation) :
    snapshotOfJson? (snapshotToJson l) = some l :=
  list_array fun e _ => e.ofJson?_toJson

end Ipam
