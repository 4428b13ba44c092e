import Mathlib.Data.List.Nodup
import Ipam.Tag

/-!
# Tags and their texts

Every text is the text of the tag it denotes (`Tag.text_parse`). A tag is the one its text denotes
as long as there is no `=` in its key (`Tag.parse_text`), and the tags that texts denote are of that
kind. A set of them is read back from its texts in order, and nothing else is read
(`TagSet.ofStringsStrict_eq_ok_iff`).
-/

namespace Ipam

namespace Tag

theorem split_of_not_mem {cs : List Char} (h : '=' ∉ cs) : split cs = (cs, none) := by
  induction cs with
  | nil => rfl
  | cons c cs ih =>
    obtain ⟨hc, hcs⟩ := not_or.1 (mt List.mem_cons.2 h)
    rw [split, if_neg (Ne.symm hc), ih hcs]

theorem split_append {key : List Char} (h : '=' ∉ key) (value : List Char) :
    split (key ++ '=' :: value) = (key, some value) := by
  induction key with
  | nil => rfl
  | cons c key ih =>
    obtain ⟨hc, hkey⟩ := not_or.1 (mt List.mem_cons.2 h)
    rw [List.cons_append, split, if_neg (Ne.symm hc), ih hkey]

/-- A text either has no `=`, or its first one stands between the two parts. -/
theorem split_cases (cs : List Char) :
    (split cs = (cs, none) ∧ '=' ∉ cs) ∨
    ∃ key value, split cs = (key, some value) ∧ '=' ∉ key ∧ cs = key ++ '=' :: value := by
  by_cases h : '=' ∈ cs
  · obtain ⟨key, value, hcs, hkey⟩ := List.eq_append_cons_of_mem h
    exact .inr ⟨key, value, hcs ▸ split_append hkey value, hkey, hcs⟩
  · exact .inl ⟨split_of_not_mem h, h⟩

/-- The text of the tag that a text denotes is that text. -/
theorem text_parse (raw : String) : (parse raw).text = raw := by
  rcases split_cases raw.toList with ⟨hs, -⟩ | ⟨key, value, hs, -, hraw⟩
  · simp [parse, text, hs]
  · apply String.toList_inj.1
    simp only [parse, text, hs, Option.map_some, String.toList_append, String.toList_ofList]
    rw [hraw, List.append_assoc]
    rfl

theorem eq_not_mem_key_parse (raw : String) : '=' ∉ (parse raw).key.toList := by
  rcases split_cases raw.toList with ⟨hs, hmem⟩ | ⟨key, value, hs, hkey, -⟩
  · simpa [parse, hs] using hmem
  · simpa [parse, hs] using hkey

/-- A tag without `=` in its key is the one that its text denotes. -/
theorem parse_text {t : Tag} (h : '=' ∉ t.key.toList) : parse t.text = t := by
  obtain ⟨key, _ | value⟩ := t
  · simp [parse, text, split_of_not_mem h]
  · have hs : split (key ++ "=" ++ value).toList = (key.toList, some value.toList) := by
      rw [String.toList_append, String.toList_append, List.append_assoc]
      exact split_append h value.toList
    simp only [parse, text, hs, Option.map_some, String.ofList_toList]

theorem parse_machine (machine : String) :
    parse ("ipledger.io/machine-id=" ++ machine) = ⟨machineKey, some machine⟩ := by
  have htext : "ipledger.io/machine-id=" ++ machine = text ⟨machineKey, some machine⟩ := rfl
  rw [htext]
  have hkey : '=' ∉ machineKey.toList := by decide
  exact parse_text hkey

end Tag

namespace TagSet

/-- A set whose keys are distinct and without `=`, so that it is told by its texts. -/
structure Legible (s : TagSet) : Prop where
  keys_nodup : (s.toList.map Tag.key).Nodup
  eq_not_mem : ∀ t ∈ s.toList, '=' ∉ t.key.toList

theorem containsKey_iff {s : TagSet} {key : String} :
    s.containsKey key = true ↔ key ∈ s.toList.map Tag.key := by
  simp [containsKey, get?, List.find?_isSome]

/-- Texts are put into a set in order, unless a key comes a second time. -/
theorem extendStrict_eq_ok_iff {s t : TagSet} {raw : List String}
    (hs : (s.toList.map Tag.key).Nodup) :
    extendStrict s raw = .ok t ↔
      (t.toList.map Tag.key).Nodup ∧ t.toList = s.toList ++ raw.map Tag.parse := by
  induction raw generalizing s with
  | nil =>
    constructor
    · rintro ⟨⟩
      exact ⟨hs, (List.append_nil _).symm⟩
    · rintro ⟨-, ht⟩
      rw [List.map_nil, List.append_nil] at ht
      obtain ⟨l⟩ := t
      cases ht
      rfl
  | cons x raw ih =>
    by_cases hx : (Tag.parse x).key ∈ s.toList.map Tag.key
    · rw [extendStrict, if_pos (containsKey_iff.2 hx)]
      constructor
      · rintro ⟨⟩
      · rintro ⟨hnodup, ht⟩
        rw [ht, List.map_append] at hnodup
        exact absurd rfl ((List.nodup_append.1 hnodup).2.2 _ hx _ List.mem_cons_self)
    · rw [extendStrict, if_neg (mt containsKey_iff.1 hx), ih]
      · simp
      · rw [List.map_append]
        exact hs.append (List.nodup_singleton _) (by simpa using hx)

/-- The sets that texts denote are those whose texts they are. -/
theorem ofStringsStrict_eq_ok_iff {raw : List String} {s : TagSet} :
    ofStringsStrict raw = .ok s ↔ s.Legible ∧ s.toStrings = raw := by
  have hempty : ((∅ : TagSet).toList.map Tag.key).Nodup := List.nodup_nil
  rw [ofStringsStrict, extendStrict_eq_ok_iff hempty]
  constructor
  · rintro ⟨hnodup, hs⟩
    replace hs : s.toList = raw.map Tag.parse := hs
    refine ⟨⟨hnodup, ?_⟩, ?_⟩
    · rw [hs]
      intro t ht
      obtain ⟨x, -, rfl⟩ := List.mem_map.1 ht
      exact Tag.eq_not_mem_key_parse x
    · rw [toStrings, hs, List.map_map]
      exact List.map_id'' Tag.text_parse raw
  · rintro ⟨hs, rfl⟩
    refine ⟨hs.keys_nodup, ?_⟩
    have hparse : ∀ t ∈ s.toList, Tag.parse t.text = t := fun t ht =>
      Tag.parse_text (hs.eq_not_mem t ht)
    rw [toStrings, List.map_map]
    exact ((List.map_congr_left hparse).trans (List.map_id _)).symm

theorem ofStrings_append (raw : List String) (x : String) :
    ofStrings (raw ++ [x]) = (ofStrings raw).insert (Tag.parse x) := by
  simp [ofStrings, insertAll]

/-! ## Tags that replace each other -/

theorem mem_put {t u : Tag} {us : List Tag} (h : u ∈ put t us) : u = t ∨ u ∈ us := by
  induction us with
  | nil => exact .inl (List.mem_singleton.1 h)
  | cons v us ih =>
    rw [put] at h
    split at h
    · exact (List.mem_cons.1 h).imp_right (List.mem_cons_of_mem v)
    · rcases List.mem_cons.1 h with rfl | h
      · exact .inr List.mem_cons_self
      · exact (ih h).imp_right (List.mem_cons_of_mem v)

theorem put_of_not_mem {t : Tag} {us : List Tag} (h : t.key ∉ us.map Tag.key) :
    put t us = us ++ [t] := by
  induction us with
  | nil => rfl
  | cons u us ih =>
    obtain ⟨hu, hus⟩ := not_or.1 (mt List.mem_cons.2 h)
    rw [put, if_neg (Ne.symm hu), ih hus]
    rfl

/-- A tag takes the place of the one with its key. -/
theorem map_key_put_of_mem {t : Tag} {us : List Tag} (h : t.key ∈ us.map Tag.key) :
    (put t us).map Tag.key = us.map Tag.key := by
  induction us with
  | nil => cases h
  | cons u us ih =>
    rw [put]
    split
    · next hu => rw [List.map_cons, List.map_cons, hu]
    · next hu =>
      have hus := (List.mem_cons.1 h).resolve_left (Ne.symm hu)
      rw [List.map_cons, List.map_cons, ih hus]

/-- A tag that is put in leaves the keys distinct. -/
theorem nodup_keys_put {t : Tag} {us : List Tag} (h : (us.map Tag.key).Nodup) :
    ((put t us).map Tag.key).Nodup := by
  by_cases hmem : t.key ∈ us.map Tag.key
  · rwa [map_key_put_of_mem hmem]
  · rw [put_of_not_mem hmem, List.map_append]
    exact h.append (List.nodup_singleton _) (by simpa using hmem)

theorem legible_empty : Legible ∅ where
  keys_nodup := List.nodup_nil
  eq_not_mem := fun _ h => nomatch h

theorem Legible.insert {s : TagSet} (h : s.Legible) {t : Tag} (ht : '=' ∉ t.key.toList) :
    (s.insert t).Legible where
  keys_nodup := nodup_keys_put h.keys_nodup
  eq_not_mem := by
    intro u hu
    rcases mem_put hu with rfl | hu
    · exact ht
    · exact h.eq_not_mem u hu

theorem Legible.insertAll {s : TagSet} (h : s.Legible) {ts : List Tag}
    (hts : ∀ t ∈ ts, '=' ∉ t.key.toList) : (s.insertAll ts).Legible := by
  induction ts generalizing s with
  | nil => exact h
  | cons t ts ih =>
    obtain ⟨ht, hts⟩ := List.forall_mem_cons.1 hts
    exact ih (h.insert ht) hts

/-- Every set that texts denote is told by its texts. -/
theorem legible_ofStrings (raw : List String) : (ofStrings raw).Legible := by
  refine legible_empty.insertAll fun t ht => ?_
  obtain ⟨x, -, rfl⟩ := List.mem_map.1 ht
  exact Tag.eq_not_mem_key_parse x

theorem Legible.bindMachine {s : TagSet} (h : s.Legible) (machine : String) :
    (s.bindMachine machine).Legible :=
  h.insert (by decide : '=' ∉ Tag.machineKey.toList)

/-- The sets that come of texts and of binding to machines. -/
inductive Assembled : TagSet → Prop where
  /-- The set that texts denote. -/
  | ofStrings (raw : List String) : Assembled (ofStrings raw)
  /-- Such a set bound to a machine. -/
  | bindMachine {s : TagSet} (h : Assembled s) (machine : String) : Assembled (s.bindMachine machine)

theorem Assembled.legible {s : TagSet} (h : s.Assembled) : s.Legible := by
  induction h with
  | ofStrings raw => exact legible_ofStrings raw
  | bindMachine _ machine ih => exact ih.bindMachine machine

theorem insertAll_of_nodup (us ts : List Tag) (h : ((us ++ ts).map Tag.key).Nodup) :
    insertAll ⟨us⟩ ts = ⟨us ++ ts⟩ := by
  induction ts generalizing us with
  | nil => rw [List.append_nil]; rfl
  | cons t ts ih =>
    have hnew : t.key ∉ us.map Tag.key := by
      rw [List.map_append, List.map_cons] at h
      exact fun hmem => (List.nodup_append.1 h).2.2 _ hmem _ List.mem_cons_self rfl
    have happend : us ++ t :: ts = us ++ [t] ++ ts := by simp
    rw [happend] at h ⊢
    rw [← ih _ h, ← put_of_not_mem hnew]
    rfl

/-- A set is the one that its texts denote. -/
theorem Legible.ofStrings_toStrings {s : TagSet} (h : s.Legible) : ofStrings s.toStrings = s := by
  have hparse : s.toStrings.map Tag.parse = s.toList := by
    rw [toStrings, List.map_map]
    exact (List.map_congr_left fun t ht => Tag.parse_text (h.eq_not_mem t ht)).trans (List.map_id _)
  rw [ofStrings, hparse]
  exact insertAll_of_nodup [] s.toList h.keys_nodup

end TagSet

end Ipam
