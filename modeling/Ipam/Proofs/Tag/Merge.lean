import Mathlib.Data.List.Induction
import Ipam.Proofs.Tag.Text

/-!
# The tags that lists of texts denote

Of the texts with a key the last one prevails (`Tag.Prevails`). The set that texts denote has the
tags of those that prevail and no others (`TagSet.mem_ofStrings`).
-/

namespace Ipam

/-- A text of a list after which there is none with its key. -/
def Tag.Prevails (raw : String) (texts : List String) : Prop :=
  ∃ before after, texts = before ++ raw :: after ∧
    ∀ x ∈ after, (Tag.parse x).key ≠ (Tag.parse raw).key

namespace Tag

variable {raw x : String} {texts more : List String}

theorem Prevails.mem (h : Prevails raw texts) : raw ∈ texts := by
  obtain ⟨before, after, rfl, -⟩ := h
  simp

theorem not_prevails_nil : ¬ Prevails raw [] := by
  intro h
  have hmem : raw ∈ [] := h.mem
  cases hmem

/-- The last text prevails, and so do those before it that have another key. -/
theorem prevails_concat :
    Prevails raw (texts ++ [x]) ↔
      raw = x ∨ Prevails raw texts ∧ (Tag.parse x).key ≠ (Tag.parse raw).key := by
  constructor
  · rintro ⟨before, after, he, hafter⟩
    rcases List.eq_nil_or_concat after with rfl | ⟨after, y, rfl⟩
    · obtain ⟨-, hx⟩ := List.append_inj' he rfl
      exact .inl (List.cons.inj hx).1.symm
    · rw [List.concat_eq_append] at he hafter
      rw [← List.cons_append, ← List.append_assoc] at he
      obtain ⟨rfl, hx⟩ := List.append_inj' he rfl
      obtain ⟨rfl, -⟩ := List.cons.inj hx
      obtain ⟨hafter, hlast⟩ := List.forall_mem_append.1 hafter
      exact .inr ⟨⟨before, after, rfl, hafter⟩, hlast x List.mem_cons_self⟩
  · rintro (rfl | ⟨⟨before, after, rfl, hafter⟩, hx⟩)
    · exact ⟨texts, [], rfl, nofun⟩
    · refine ⟨before, after ++ [x], by simp, List.forall_mem_append.2 ⟨hafter, ?_⟩⟩
      exact List.forall_mem_singleton.2 hx

/-- For every text of a list one with its key prevails. -/
theorem exists_prevails (h : raw ∈ texts) :
    ∃ last, Prevails last texts ∧ (Tag.parse last).key = (Tag.parse raw).key := by
  induction texts using List.reverseRecOn with
  | nil => cases h
  | append_singleton texts x ih =>
    by_cases hx : (Tag.parse x).key = (Tag.parse raw).key
    · exact ⟨x, prevails_concat.2 (.inl rfl), hx⟩
    · have hraw : raw ∈ texts := by
        rcases List.mem_append.1 h with h | h
        · exact h
        · exact absurd (congrArg (fun s => (Tag.parse s).key) (List.mem_singleton.1 h).symm) hx
      obtain ⟨last, hlast, hkey⟩ := ih hraw
      exact ⟨last, prevails_concat.2 (.inr ⟨hlast, hkey ▸ hx⟩), hkey⟩

end Tag

namespace TagSet

/-- A tag that is put in replaces those with its key and no others. -/
theorem mem_put_iff {t u : Tag} {us : List Tag} (hus : (us.map Tag.key).Nodup) :
    u ∈ put t us ↔ u = t ∨ u ∈ us ∧ u.key ≠ t.key := by
  induction us with
  | nil => simp [put]
  | cons v us ih =>
    obtain ⟨hv, hus⟩ := List.nodup_cons.1 hus
    by_cases hkey : v.key = t.key
    · have hother : ∀ w ∈ us, w.key ≠ t.key := fun w hw he =>
        hv (List.mem_map.2 ⟨w, hw, he.trans hkey.symm⟩)
      rw [put, if_pos hkey, List.mem_cons, List.mem_cons]
      constructor
      · rintro (rfl | hu)
        · exact .inl rfl
        · exact .inr ⟨.inr hu, hother u hu⟩
      · rintro (rfl | ⟨rfl | hu, hne⟩)
        · exact .inl rfl
        · exact absurd hkey hne
        · exact .inr hu
    · rw [put, if_neg hkey, List.mem_cons, ih hus, List.mem_cons]
      constructor
      · rintro (rfl | rfl | ⟨hu, hne⟩)
        · exact .inr ⟨.inl rfl, hkey⟩
        · exact .inl rfl
        · exact .inr ⟨.inr hu, hne⟩
      · rintro (rfl | ⟨rfl | hu, hne⟩)
        · exact .inr (.inl rfl)
        · exact .inl rfl
        · exact .inr (.inr ⟨hu, hne⟩)

/-- The set that texts denote has the tags of the texts that prevail. -/
theorem mem_ofStrings {t : Tag} {texts : List String} :
    t ∈ (ofStrings texts).toList ↔ ∃ raw, Tag.Prevails raw texts ∧ Tag.parse raw = t := by
  induction texts using List.reverseRecOn with
  | nil =>
    constructor
    · intro h
      cases h
    · rintro ⟨raw, h, -⟩
      exact absurd h Tag.not_prevails_nil
  | append_singleton texts x ih =>
    rw [ofStrings_append]
    have hput := mem_put_iff (t := Tag.parse x) (u := t) (legible_ofStrings texts).keys_nodup
    refine hput.trans ?_
    rw [ih]
    constructor
    · rintro (rfl | ⟨⟨raw, hraw, rfl⟩, hne⟩)
      · exact ⟨x, Tag.prevails_concat.2 (.inl rfl), rfl⟩
      · exact ⟨raw, Tag.prevails_concat.2 (.inr ⟨hraw, hne.symm⟩), rfl⟩
    · rintro ⟨raw, hraw, rfl⟩
      rcases Tag.prevails_concat.1 hraw with rfl | ⟨hraw, hne⟩
      · exact .inl rfl
      · exact .inr ⟨⟨raw, hraw, rfl⟩, hne.symm⟩

/-- Every tag of the other set is in the one that contains them all. -/
theorem containsAll_iff {s other : TagSet} :
    s.containsAll other = true ↔ ∀ t ∈ other.toList, t ∈ s.toList := by
  simp [containsAll, contains]

theorem isMachineBound_eq_false_iff {s : TagSet} :
    s.isMachineBound = false ↔ ∀ t ∈ s.toList, t.key ≠ Tag.machineKey := by
  rw [isMachineBound, Bool.eq_false_iff, ne_eq, containsKey_iff, List.mem_map]
  constructor
  · exact fun h t ht he => h ⟨t, ht, he⟩
  · rintro h ⟨t, ht, he⟩
    exact h t ht he

/-- A set that names a machine is bound to it. -/
theorem isMachineBound_of_machineId? {s : TagSet} {machine : String}
    (h : s.machineId? = some machine) : s.isMachineBound = true := by
  obtain ⟨t, ht, -⟩ := Option.bind_eq_some_iff.1 h
  rw [isMachineBound, containsKey, ht]
  rfl

end TagSet

end Ipam
