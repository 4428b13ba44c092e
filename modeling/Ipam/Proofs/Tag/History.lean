import Mathlib.Logic.Function.Basic
import Ipam.Proofs.Tag.Merge

/-!
# Tag sets as ordered maps

A tag set is a map from keys to values that remembers the order in which its keys came in. What a
change makes of the tags and their order, and what it gives back, is said by a relation between lists
(`TagSet.Edit.Makes`); what a history of changes comes to for a key is said by a map that knows no
order (`TagSet.History.assigned`). After any history of changes to a set that texts denote both are
met (`TagSet.insertion_ordered`).
-/

namespace Ipam

/-- The keys of the tags that texts denote, text by text. -/
abbrev Tag.keysOf (texts : List String) : List String := texts.map fun raw => (Tag.parse raw).key

theorem Tag.keysOf_append (texts more : List String) :
    Tag.keysOf (texts ++ more) = Tag.keysOf texts ++ Tag.keysOf more := List.map_append

namespace TagSet

/-- The keys of a set in order. -/
abbrev keys (s : TagSet) : List String := s.toList.map Tag.key

/-! ## A change and the list of tags -/

/-- What a change makes of a list of tags in order, and the tag that it gives back. -/
inductive Edit.Makes : Edit → List Tag → Option Tag → List Tag → Prop where
  /-- A tag takes the place of the one with its key, which is given back. -/
  | replaced {t old : Tag} (hkey : old.key = t.key) (before after : List Tag) :
      Makes (.insert t) (before ++ old :: after) (some old) (before ++ t :: after)
  /-- A tag with a key that is not there is put at the end. -/
  | appended {t : Tag} {us : List Tag} (hnew : t.key ∉ us.map Tag.key) :
      Makes (.insert t) us none (us ++ [t])
  /-- The tag of a key is given back, and the others stay in order. -/
  | removed (old : Tag) (before after : List Tag) :
      Makes (.remove old.key) (before ++ old :: after) (some old) (before ++ after)
  /-- A key that is not there is not removed. -/
  | absent {key : String} {us : List Tag} (hnew : key ∉ us.map Tag.key) :
      Makes (.remove key) us none us

section

variable {t old : Tag} {key : String} {us before after : List Tag}

theorem exchange_of_not_mem (h : t.key ∉ us.map Tag.key) : exchange t us = (none, us ++ [t]) := by
  induction us with
  | nil => rfl
  | cons u us ih =>
    obtain ⟨hu, hus⟩ := not_or.1 (mt List.mem_cons.2 h)
    rw [exchange, if_neg (Ne.symm hu), ih hus]
    rfl

theorem exchange_append_cons (hbefore : t.key ∉ before.map Tag.key) (hkey : old.key = t.key) :
    exchange t (before ++ old :: after) = (some old, before ++ t :: after) := by
  induction before with
  | nil =>
    rw [List.nil_append, exchange, if_pos hkey]
    rfl
  | cons u before ih =>
    obtain ⟨hu, hbefore⟩ := not_or.1 (mt List.mem_cons.2 hbefore)
    rw [List.cons_append, exchange, if_neg (Ne.symm hu), ih hbefore]
    rfl

theorem withdraw_of_not_mem (h : key ∉ us.map Tag.key) : withdraw key us = (none, us) := by
  induction us with
  | nil => rfl
  | cons u us ih =>
    obtain ⟨hu, hus⟩ := not_or.1 (mt List.mem_cons.2 h)
    rw [withdraw, if_neg (Ne.symm hu), ih hus]

theorem withdraw_append_cons (hbefore : old.key ∉ before.map Tag.key) :
    withdraw old.key (before ++ old :: after) = (some old, before ++ after) := by
  induction before with
  | nil =>
    rw [List.nil_append, withdraw, if_pos rfl]
    rfl
  | cons u before ih =>
    obtain ⟨hu, hbefore⟩ := not_or.1 (mt List.mem_cons.2 hbefore)
    rw [List.cons_append, withdraw, if_neg (Ne.symm hu), ih hbefore]
    rfl

/-- Of the tags with a key that is there, one is the first. -/
theorem exists_first (h : key ∈ us.map Tag.key) :
    ∃ before old after, us = before ++ old :: after ∧ old.key = key ∧ key ∉ before.map Tag.key := by
  obtain ⟨old, hold⟩ := Option.isSome_iff_exists.1 (containsKey_iff (s := ⟨us⟩).2 h)
  obtain ⟨hkey, before, after, hus, hbefore⟩ := List.find?_eq_some_iff_append.1 hold
  refine ⟨before, old, after, hus, of_decide_eq_true hkey, ?_⟩
  intro hmem
  obtain ⟨u, hu, rfl⟩ := List.mem_map.1 hmem
  simpa using hbefore u hu

/-- Where keys are distinct there is none before a tag that has its key. -/
theorem not_mem_before (h : ((before ++ old :: after).map Tag.key).Nodup) :
    old.key ∉ before.map Tag.key := by
  rw [List.map_append, List.map_cons] at h
  exact fun hmem => (List.nodup_append.1 h).2.2 _ hmem _ List.mem_cons_self rfl

end

section

variable {s a b : TagSet} {t : Tag} {e : Edit} {key : String} {texts : List String}

/-- A change makes of a set with distinct keys just what it is said to make. -/
theorem makes_iff (hs : s.keys.Nodup) {r : Option Tag} {us : List Tag} :
    e.Makes s.toList r us ↔ s.edit e = (r, ⟨us⟩) := by
  constructor
  · intro h
    generalize hl : s.toList = l at h
    cases h with
    | replaced hkey before after =>
      rw [keys, hl] at hs
      have hbefore := not_mem_before hs
      rw [hkey] at hbefore
      rw [edit, hl, exchange_append_cons hbefore hkey]
    | appended hnew => rw [edit, hl, exchange_of_not_mem hnew]
    | removed old before after =>
      rw [keys, hl] at hs
      rw [edit, hl, withdraw_append_cons (not_mem_before hs)]
    | absent hnew => rw [edit, hl, withdraw_of_not_mem hnew]
  · intro h
    cases e with
    | insert t =>
      by_cases hmem : t.key ∈ s.keys
      · obtain ⟨before, old, after, hl, hkey, hbefore⟩ := exists_first hmem
        rw [edit, hl, exchange_append_cons hbefore hkey] at h
        cases h
        exact hl ▸ .replaced hkey before after
      · rw [edit, exchange_of_not_mem hmem] at h
        cases h
        exact .appended hmem
    | remove key =>
      by_cases hmem : key ∈ s.keys
      · obtain ⟨before, old, after, hl, rfl, hbefore⟩ := exists_first hmem
        rw [edit, hl, withdraw_append_cons hbefore] at h
        cases h
        exact hl ▸ .removed old before after
      · rw [edit, withdraw_of_not_mem hmem] at h
        cases h
        exact .absent hmem

/-! ## A change and the map from keys to values -/

theorem exchange_eq (t : Tag) (us : List Tag) :
    exchange t us = (us.find? fun u => decide (u.key = t.key), put t us) := by
  induction us with
  | nil => rfl
  | cons u us ih =>
    by_cases hkey : u.key = t.key
    · simp [exchange, put, hkey]
    · simp [exchange, put, hkey, ih]

theorem withdraw_eq (key : String) (us : List Tag) :
    withdraw key us =
      (us.find? fun u => decide (u.key = key), us.eraseP fun u => decide (u.key = key)) := by
  induction us with
  | nil => rfl
  | cons u us ih =>
    by_cases hkey : u.key = key
    · simp [withdraw, hkey]
    · simp [withdraw, hkey, ih]

theorem edit_insert (s : TagSet) (t : Tag) : s.edit (.insert t) = (s.get? t.key, s.insert t) := by
  rw [edit, exchange_eq]
  rfl

theorem edit_remove (s : TagSet) (key : String) :
    s.edit (.remove key) = (s.get? key, s.erase key) := by
  rw [edit, withdraw_eq]
  rfl

theorem nodup_keys_edit (hs : s.keys.Nodup) (e : Edit) : (s.edit e).2.keys.Nodup := by
  cases e with
  | insert t =>
    rw [edit_insert]
    exact nodup_keys_put hs
  | remove key =>
    rw [edit_remove]
    exact hs.sublist (List.eraseP_sublist.map Tag.key)

theorem get?_insert (s : TagSet) (t : Tag) (key : String) :
    (s.insert t).get? key = if key = t.key then some t else s.get? key := by
  obtain ⟨us⟩ := s
  simp only [insert, get?]
  induction us with
  | nil =>
    by_cases hkey : key = t.key
    · simp [put, hkey]
    · simp [put, hkey, Ne.symm hkey]
  | cons u us ih =>
    by_cases hu : u.key = t.key
    · by_cases hkey : key = t.key
      · simp [put, hu, hkey]
      · simp [put, hu, hkey, Ne.symm hkey]
    · by_cases hkey : u.key = key
      · have hne : key ≠ t.key := hkey ▸ hu
        simp [put, hkey, hne]
      · simp [put, hu, hkey, ih]

theorem get?_eq_none_iff : s.get? key = none ↔ key ∉ s.keys := by
  rw [← containsKey_iff, containsKey, Bool.not_eq_true, Option.isSome_eq_false_iff,
    Option.isNone_iff_eq_none]

theorem get?_erase (hs : s.keys.Nodup) (removed key : String) :
    (s.erase removed).get? key = if key = removed then none else s.get? key := by
  obtain ⟨us⟩ := s
  simp only [erase, get?]
  induction us with
  | nil => simp
  | cons u us ih =>
    obtain ⟨hnot, hs⟩ := List.nodup_cons.1 hs
    by_cases hu : u.key = removed
    · subst hu
      rw [List.eraseP_cons_of_pos (by simp)]
      by_cases hkey : key = u.key
      · rw [if_pos hkey, hkey]
        exact get?_eq_none_iff (s := ⟨us⟩).2 hnot
      · rw [if_neg hkey, List.find?_cons_of_neg (by simpa using Ne.symm hkey)]
    · rw [List.eraseP_cons_of_neg (by simpa using hu)]
      by_cases hkey : u.key = key
      · have hne : key ≠ removed := hkey ▸ hu
        simp [hkey, hne]
      · simp [hkey, ih hs]

/-- What a change makes of a map from keys to values; a key that is there may have no value. -/
def Edit.update (m : String → Option (Option String)) : Edit → String → Option (Option String)
  | .insert t => Function.update m t.key (some t.value)
  | .remove key => Function.update m key none

/-- A set has for each key just what a map assigns to it. -/
def Follows (s : TagSet) (m : String → Option (Option String)) : Prop :=
  ∀ key, s.get? key = (m key).map (Tag.mk key)

theorem Follows.edit {m : String → Option (Option String)} (h : s.Follows m) (hs : s.keys.Nodup)
    (e : Edit) : (s.edit e).2.Follows (Edit.update m e) := by
  intro key
  cases e with
  | insert t =>
    rw [edit_insert, get?_insert, Edit.update, Function.update_apply]
    split
    · next hkey =>
      rw [hkey]
      rfl
    · exact h key
  | remove removed =>
    rw [edit_remove, get?_erase hs, Edit.update, Function.update_apply]
    split
    · rfl
    · exact h key

/-! ## Histories -/

/-- The set after changes one after the other. -/
def after (s : TagSet) (edits : List Edit) : TagSet := edits.foldl (fun s e => (s.edit e).2) s

theorem after_append (s : TagSet) (edits more : List Edit) :
    s.after (edits ++ more) = (s.after edits).after more := List.foldl_append

theorem nodup_keys_after (hs : s.keys.Nodup) (edits : List Edit) : (s.after edits).keys.Nodup := by
  induction edits generalizing s with
  | nil => exact hs
  | cons e edits ih => exact ih (nodup_keys_edit hs e)

/-- A set stays in step with a map along changes. -/
theorem Follows.after {m : String → Option (Option String)} (h : s.Follows m) (hs : s.keys.Nodup)
    (edits : List Edit) : (s.after edits).Follows (edits.foldl Edit.update m) := by
  induction edits generalizing s m with
  | nil => exact h
  | cons e edits ih => exact ih (h.edit hs e) (nodup_keys_edit hs e)

/-- The change that puts in the tag which a text denotes. -/
def Edit.ofText (raw : String) : Edit := .insert (.parse raw)

/-- Making a set of texts is putting in the tags that they denote. -/
theorem ofStrings_eq_after (texts : List String) :
    ofStrings texts = after ∅ (texts.map .ofText) := by
  induction texts using List.reverseRecOn with
  | nil => rfl
  | append_singleton texts x ih =>
    rw [ofStrings_append, ih, List.map_append, after_append]
    exact (congrArg Prod.snd (edit_insert _ _)).symm

/-- How a set has come about: the texts that it was made of, and the changes since. -/
structure History where
  /-- The texts. -/
  texts : List String
  /-- The changes. -/
  edits : List Edit

namespace History

/-- The set that has come about. -/
def result (h : History) : TagSet := (ofStrings h.texts).after h.edits

/-- The value that a key has in the end, if the key is there. -/
def assigned (h : History) : String → Option (Option String) :=
  (h.texts.map Edit.ofText ++ h.edits).foldl Edit.update fun _ => none

theorem nodup_keys_result (h : History) : h.result.keys.Nodup :=
  nodup_keys_after (legible_ofStrings h.texts).keys_nodup h.edits

theorem follows_result (h : History) : h.result.Follows h.assigned := by
  have hempty : Follows ∅ fun _ => none := fun _ => rfl
  have hresult : h.result = after ∅ (h.texts.map .ofText ++ h.edits) := by
    rw [after_append, ← ofStrings_eq_after]
    rfl
  rw [hresult]
  exact hempty.after List.nodup_nil _

end History

/-! ## The order of the keys -/

theorem keys_insert (s : TagSet) (t : Tag) :
    (s.insert t).keys = if t.key ∈ s.keys then s.keys else s.keys ++ [t.key] := by
  split
  · next hmem => exact map_key_put_of_mem hmem
  · next hnew =>
    have hput : (s.insert t).toList = s.toList ++ [t] := put_of_not_mem hnew
    rw [keys, hput, List.map_append]
    rfl

theorem mem_keys_ofStrings : key ∈ (ofStrings texts).keys ↔ key ∈ Tag.keysOf texts := by
  induction texts using List.reverseRecOn with
  | nil => exact Iff.rfl
  | append_singleton texts x ih =>
    rw [ofStrings_append, keys_insert, Tag.keysOf_append, List.mem_append, ← ih]
    split
    · next hmem =>
      constructor
      · exact .inl
      · rintro (hkey | hkey)
        · exact hkey
        · exact List.mem_singleton.1 hkey ▸ hmem
    · exact List.mem_append

/-- The keys of the set that texts denote stand in the order of their first occurrence. -/
theorem keys_ofStrings_ordered (texts : List String) :
    (ofStrings texts).keys.Pairwise fun k l =>
      (Tag.keysOf texts).idxOf k < (Tag.keysOf texts).idxOf l := by
  induction texts using List.reverseRecOn with
  | nil => exact .nil
  | append_singleton texts x ih =>
    -- a text that comes after all others moves no first occurrence
    have hidx : ∀ k ∈ (ofStrings texts).keys,
        (Tag.keysOf (texts ++ [x])).idxOf k = (Tag.keysOf texts).idxOf k := by
      intro k hk
      rw [Tag.keysOf_append, List.idxOf_append_of_mem (mem_keys_ofStrings.1 hk)]
    have hkeep := ih.imp_of_mem fun {k l} hk hl h => by
      rw [← hidx k hk, ← hidx l hl] at h
      exact h
    rw [ofStrings_append, keys_insert]
    split
    · exact hkeep
    · next hnew =>
      refine List.pairwise_append.2 ⟨hkeep, List.pairwise_singleton _ _, fun k hk l hl => ?_⟩
      have hlt := List.idxOf_lt_length_iff.2 (mem_keys_ofStrings.1 hk)
      rw [List.mem_singleton.1 hl, hidx k hk, Tag.keysOf_append,
        List.idxOf_append_of_notMem (mt mem_keys_ofStrings.2 hnew)]
      omega

/-! ## Inclusion -/

/-- Where keys are distinct, a tag is there just if it is the one with its key. -/
theorem mem_iff_get? (hs : s.keys.Nodup) : t ∈ s.toList ↔ s.get? t.key = some t := by
  constructor
  · intro ht
    obtain ⟨before, after, hl⟩ := List.append_of_mem ht
    rw [keys, hl] at hs
    have hbefore := not_mem_before hs
    rw [get?, List.find?_eq_some_iff_append]
    refine ⟨decide_eq_true rfl, before, after, hl, fun u hu => ?_⟩
    have hne : u.key ≠ t.key := fun he => hbefore (he ▸ List.mem_map_of_mem hu)
    simpa using hne
  · exact List.mem_of_find?_eq_some

theorem containsAll_iff_get? (ha : a.keys.Nodup) (hb : b.keys.Nodup) :
    a.containsAll b = true ↔ ∀ key ∈ b.keys, a.get? key = b.get? key := by
  rw [containsAll_iff]
  constructor
  · intro h key hkey
    obtain ⟨t, ht, rfl⟩ := List.mem_map.1 hkey
    rw [(mem_iff_get? ha).1 (h t ht), (mem_iff_get? hb).1 ht]
  · intro h t ht
    rw [mem_iff_get? ha, h t.key (List.mem_map_of_mem ht)]
    exact (mem_iff_get? hb).1 ht

theorem containsAll_refl (a : TagSet) : a.containsAll a = true := containsAll_iff.2 fun _ ht => ht

theorem containsAll_trans {c : TagSet} (hab : a.containsAll b = true)
    (hbc : b.containsAll c = true) : a.containsAll c = true :=
  containsAll_iff.2 fun t ht => containsAll_iff.1 hab t (containsAll_iff.1 hbc t ht)

/-- Sets that contain each other have the same tags. -/
theorem perm_of_containsAll (ha : a.keys.Nodup) (hb : b.keys.Nodup)
    (hab : a.containsAll b = true) (hba : b.containsAll a = true) : a.toList.Perm b.toList := by
  refine (List.perm_ext_iff_of_nodup (ha.of_map Tag.key) (hb.of_map Tag.key)).2 fun t => ?_
  exact ⟨containsAll_iff.1 hba t, containsAll_iff.1 hab t⟩

end

/-! ## Insertion-ordered maps -/

/-- A set is an ordered map with what a history assigns to keys. -/
structure Keeps (s : TagSet) (h : History) : Prop where
  /-- No key is there twice. -/
  keys_nodup : s.keys.Nodup
  /-- A change makes of the tags what it is said to make, and gives back the tag that it replaces or
  removes. -/
  edit_iff : ∀ e r us, s.edit e = (r, ⟨us⟩) ↔ e.Makes s.toList r us
  /-- A key has the value that it was given last, unless it has been removed since. -/
  get?_eq : ∀ key, s.get? key = (h.assigned key).map (Tag.mk key)
  /-- A key is there unless it was never put in or has been removed since. -/
  containsKey_eq : ∀ key, s.containsKey key = (h.assigned key).isSome

/-- A set has the tags that texts denote. -/
structure Merges (s : TagSet) (texts : List String) : Prop where
  /-- Its keys are those of the texts. -/
  mem_keys_iff : ∀ key, key ∈ s.keys ↔ key ∈ Tag.keysOf texts
  /-- They stand in the order of their first occurrence. -/
  keys_ordered : s.keys.Pairwise fun k l => (Tag.keysOf texts).idxOf k < (Tag.keysOf texts).idxOf l
  /-- Each has the value, or the lack of one, of its last occurrence. -/
  mem_iff : ∀ t, t ∈ s.toList ↔ ∃ raw, Tag.Prevails raw texts ∧ Tag.parse raw = t

theorem History.keeps_result (h : History) : h.result.Keeps h where
  keys_nodup := h.nodup_keys_result
  edit_iff _ _ _ := (makes_iff h.nodup_keys_result).symm
  get?_eq := h.follows_result
  containsKey_eq key := by rw [containsKey, h.follows_result key, Option.isSome_map]

/-- A set that texts denote, changed in whatever way, is an insertion-ordered map. The set that texts
denote lists its keys in the order of their first occurrence, each as it occurs last, and further texts
are put in one after the other. One set contains another just if it has the same value for every key
of the other; containment is reflexive and transitive, and sets that contain each other have the same
tags in some order. -/
theorem insertion_ordered :
    (∀ h : History, h.result.Keeps h) ∧
    (∀ texts, (ofStrings texts).Merges texts ∧
      ∀ more, ofStrings (texts ++ more) = (ofStrings texts).after (more.map .ofText)) ∧
    (∀ g h : History,
      (g.result.containsAll h.result = true ↔
        ∀ key ∈ h.result.keys, g.result.get? key = h.result.get? key) ∧
      (g.result.containsAll h.result = true → h.result.containsAll g.result = true →
        g.result.toList.Perm h.result.toList)) ∧
    (∀ a : TagSet, a.containsAll a = true) ∧
    ∀ a b c : TagSet, a.containsAll b = true → b.containsAll c = true → a.containsAll c = true := by
  refine ⟨History.keeps_result, fun texts => ⟨?_, fun more => ?_⟩, fun g h => ⟨?_, ?_⟩,
    containsAll_refl, fun a b c => containsAll_trans⟩
  · exact ⟨fun _ => mem_keys_ofStrings, keys_ofStrings_ordered texts, fun _ => mem_ofStrings⟩
  · rw [ofStrings_eq_after, List.map_append, after_append, ← ofStrings_eq_after]
  · exact containsAll_iff_get? g.nodup_keys_result h.nodup_keys_result
  · exact perm_of_containsAll g.nodup_keys_result h.nodup_keys_result

end TagSet

namespace Small

/-- A history in which a key is removed and comes back. -/
def regained : TagSet.History :=
  ⟨["a=1", "b", "a=2"], [.insert ⟨"c", none⟩, .remove "a", .insert ⟨"a", some "3"⟩]⟩

/-- Texts for tags of which one is in the set of that history. -/
def part : TagSet.History := ⟨["b"], []⟩

end Small

theorem TagSet.insertion_ordered_regained :
    (TagSet.ofStrings Small.regained.texts).keys = ["a", "b"] ∧
    Small.regained.result.toList = [⟨"b", none⟩, ⟨"c", none⟩, ⟨"a", some "3"⟩] ∧
    Small.regained.result.get? "a" = some ⟨"a", some "3"⟩ ∧
    (Edit.insert ⟨"c", some "x"⟩).Makes Small.regained.result.toList (some ⟨"c", none⟩)
      [⟨"b", none⟩, ⟨"c", some "x"⟩, ⟨"a", some "3"⟩] ∧
    Small.regained.result.containsAll Small.part.result = true := by
  obtain ⟨hkeeps, -, hcontains, -⟩ := insertion_ordered
  have hresult := hkeeps Small.regained
  refine ⟨by decide +kernel, by decide +kernel, ?_, ?_, ?_⟩
  · rw [hresult.get?_eq]
    decide +kernel
  · rw [← hresult.edit_iff]
    decide +kernel
  · rw [(hcontains Small.regained Small.part).1]
    decide +kernel

end Ipam
