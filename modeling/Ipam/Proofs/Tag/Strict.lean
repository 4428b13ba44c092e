import Ipam.Proofs.Tag.History

/-!
# Reading tags strictly

A set is read from texts in two ways: leniently, where the last text with a key prevails, or strictly,
where no key may come twice. Both read a set back from its own texts, whatever its texts were and
however it has been changed since by texts, by binding to machines and by removal. On texts with
distinct keys they agree and keep the texts; of other texts strict reading names the first key that
comes a second time (`TagSet.texts_round_trip`).
-/

namespace Ipam

/-- The first text with a key that comes before it has this key. -/
def Tag.RepeatsFirst (texts : List String) (key : String) : Prop :=
  ∃ before raw after, texts = before ++ raw :: after ∧ (keysOf before).Nodup ∧
    (parse raw).key ∈ keysOf before ∧ (parse raw).key = key

theorem Tag.map_key_map_parse (texts : List String) :
    (texts.map parse).map key = keysOf texts := List.map_map

/-- Where keys are not distinct one of them repeats first. -/
theorem Tag.exists_repeatsFirst {texts : List String} (h : ¬ (keysOf texts).Nodup) :
    ∃ key, RepeatsFirst texts key := by
  induction texts using List.reverseRecOn with
  | nil => exact absurd List.nodup_nil h
  | append_singleton texts x ih =>
    by_cases hnodup : (keysOf texts).Nodup
    · -- the keys before the last text are distinct, so it is the one that repeats
      refine ⟨_, texts, x, [], rfl, hnodup, ?_, rfl⟩
      by_contra hnew
      rw [keysOf_append] at h
      exact h (hnodup.append (List.nodup_singleton _) (by simpa using hnew))
    · obtain ⟨key, before, raw, after, rfl, hrepeats⟩ := ih hnodup
      exact ⟨key, before, raw, after ++ [x], by simp, hrepeats⟩

namespace TagSet

/-! ## Sets that are changed by texts, machines and removal -/

/-- The changes that keep a set told by its texts. -/
inductive Edit.Plain : Edit → Prop where
  /-- Puts in the tag that a text denotes. -/
  | ofText (raw : String) : Plain (.ofText raw)
  /-- Binds to a machine. -/
  | bindMachine (machine : String) : Plain (.insert ⟨Tag.machineKey, some machine⟩)
  /-- Takes the tag of a key out. -/
  | remove (key : String) : Plain (.remove key)

theorem Legible.edit {s : TagSet} {e : Edit} (h : s.Legible) (he : e.Plain) :
    (s.edit e).2.Legible := by
  cases he with
  | ofText raw =>
    rw [Edit.ofText, edit_insert]
    exact h.insert (Tag.eq_not_mem_key_parse raw)
  | bindMachine machine =>
    rw [edit_insert]
    exact h.bindMachine machine
  | remove key =>
    refine ⟨nodup_keys_edit h.keys_nodup _, fun t ht => ?_⟩
    rw [edit_remove] at ht
    exact h.eq_not_mem t (List.mem_of_mem_eraseP ht)

theorem Legible.after {s : TagSet} {edits : List Edit} (h : s.Legible)
    (hedits : ∀ e ∈ edits, e.Plain) : (s.after edits).Legible := by
  induction edits generalizing s with
  | nil => exact h
  | cons e edits ih =>
    obtain ⟨he, hedits⟩ := List.forall_mem_cons.1 hedits
    exact ih (h.edit he) hedits

/-! ## Reading strictly -/

variable {texts : List String}

/-- Texts are read one after the other. -/
theorem extendStrict_append {s t : TagSet} {raw : List String} (h : extendStrict s raw = .ok t)
    (more : List String) : extendStrict s (raw ++ more) = extendStrict t more := by
  induction raw generalizing s with
  | nil =>
    cases h
    rfl
  | cons x raw ih =>
    rw [extendStrict] at h
    rw [List.cons_append, extendStrict]
    split at h
    · cases h
    · next hnew => rw [if_neg hnew, ih h]

/-- Texts are read strictly just if their keys are distinct, as their tags in order. -/
theorem ofStringsStrict_eq_ok_iff_nodup {s : TagSet} :
    ofStringsStrict texts = .ok s ↔
      (Tag.keysOf texts).Nodup ∧ s.toList = texts.map Tag.parse := by
  have hempty : ((∅ : TagSet).toList.map Tag.key).Nodup := List.nodup_nil
  rw [ofStringsStrict, extendStrict_eq_ok_iff hempty]
  constructor
  · rintro ⟨hnodup, hs⟩
    replace hs : s.toList = texts.map Tag.parse := hs
    rw [hs, Tag.map_key_map_parse] at hnodup
    exact ⟨hnodup, hs⟩
  · rintro ⟨hnodup, hs⟩
    rw [hs, Tag.map_key_map_parse]
    exact ⟨hnodup, rfl⟩

/-- A key that repeats is refused where it comes the second time. -/
theorem ofStringsStrict_of_repeatsFirst {key : String} (h : Tag.RepeatsFirst texts key) :
    ofStringsStrict texts = .error key := by
  obtain ⟨before, raw, after, rfl, hnodup, hmem, rfl⟩ := h
  have hbefore : ofStringsStrict before = .ok ⟨before.map Tag.parse⟩ :=
    ofStringsStrict_eq_ok_iff_nodup.2 ⟨hnodup, rfl⟩
  have hcontains : containsKey ⟨before.map Tag.parse⟩ (Tag.parse raw).key = true := by
    rw [containsKey_iff, Tag.map_key_map_parse]
    exact hmem
  rw [ofStringsStrict, extendStrict_append hbefore, extendStrict, if_pos hcontains]

theorem ofStringsStrict_eq_error_iff {key : String} :
    ofStringsStrict texts = .error key ↔ Tag.RepeatsFirst texts key := by
  constructor
  · intro h
    by_cases hnodup : (Tag.keysOf texts).Nodup
    · have hok : ofStringsStrict texts = .ok ⟨texts.map Tag.parse⟩ :=
        ofStringsStrict_eq_ok_iff_nodup.2 ⟨hnodup, rfl⟩
      cases h.symm.trans hok
    · obtain ⟨first, hfirst⟩ := Tag.exists_repeatsFirst hnodup
      cases h.symm.trans (ofStringsStrict_of_repeatsFirst hfirst)
      exact hfirst
  · exact ofStringsStrict_of_repeatsFirst

/-- Every text is the text of the tag that it denotes, whose key has no `=`, and a tag without `=` in
its key is the one that its text denotes. A set that texts denote, changed by texts, by binding to
machines and by removal, is read back from its texts leniently and strictly. Strict reading takes just
the texts with distinct keys, as lenient reading does and keeping the texts; of others it names the key
that repeats first. -/
theorem texts_round_trip :
    (∀ raw, (Tag.parse raw).text = raw ∧ '=' ∉ (Tag.parse raw).key.toList) ∧
    (∀ t : Tag, '=' ∉ t.key.toList → Tag.parse t.text = t) ∧
    (∀ h : History, (∀ e ∈ h.edits, e.Plain) →
      ofStrings h.result.toStrings = h.result ∧
      ofStringsStrict h.result.toStrings = .ok h.result) ∧
    ∀ texts, ((∃ s, ofStringsStrict texts = .ok s) ↔ (Tag.keysOf texts).Nodup) ∧
      (∀ s, ofStringsStrict texts = .ok s → s = ofStrings texts ∧ s.toStrings = texts) ∧
      ∀ key, ofStringsStrict texts = .error key ↔ Tag.RepeatsFirst texts key := by
  refine ⟨fun raw => ⟨Tag.text_parse raw, Tag.eq_not_mem_key_parse raw⟩, fun _ => Tag.parse_text,
    fun h hedits => ?_, fun texts => ⟨?_, fun s hs => ?_, fun _ => ofStringsStrict_eq_error_iff⟩⟩
  · have hlegible : h.result.Legible := (legible_ofStrings h.texts).after hedits
    exact ⟨hlegible.ofStrings_toStrings, ofStringsStrict_eq_ok_iff.2 ⟨hlegible, rfl⟩⟩
  · constructor
    · rintro ⟨s, hs⟩
      exact (ofStringsStrict_eq_ok_iff_nodup.1 hs).1
    · exact fun hnodup => ⟨⟨texts.map Tag.parse⟩, ofStringsStrict_eq_ok_iff_nodup.2 ⟨hnodup, rfl⟩⟩
  · obtain ⟨hlegible, rfl⟩ := ofStringsStrict_eq_ok_iff.1 hs
    exact ⟨hlegible.ofStrings_toStrings.symm, rfl⟩

end TagSet

namespace Small

/-- A history with texts that repeat keys, an empty key and a value with `=`, of which one key is
removed and two are bound anew. -/
def rebound : TagSet.History :=
  ⟨["a==1", "=", "a", "b="],
    [.insert ⟨Tag.machineKey, some "m=1"⟩, .remove "b", .ofText "a=x=y",
      .insert ⟨Tag.machineKey, some "m-2"⟩]⟩

end Small

theorem TagSet.texts_round_trip_rebound :
    (∀ e ∈ Small.rebound.edits, e.Plain) ∧
    Small.rebound.result.toStrings = ["a=x=y", "=", "ipledger.io/machine-id=m-2"] ∧
    ofStringsStrict ["a=x=y", "=", "ipledger.io/machine-id=m-2"] = .ok Small.rebound.result ∧
    ofStringsStrict ["b", "a=1", "=", "a=2", "b=3"] = .error "a" := by
  obtain ⟨-, -, hresult, hstrict⟩ := texts_round_trip
  have hedits : ∀ e ∈ Small.rebound.edits, e.Plain := by
    simp only [Small.rebound, List.forall_mem_cons]
    exact ⟨.bindMachine _, .remove _, .ofText _, .bindMachine _, nofun⟩
  have htexts : Small.rebound.result.toStrings = ["a=x=y", "=", "ipledger.io/machine-id=m-2"] := by
    decide +kernel
  refine ⟨hedits, htexts, ?_, ((hstrict _).2.2 "a").2 ?_⟩
  · rw [← htexts]
    exact (hresult Small.rebound hedits).2
  · exact ⟨["b", "a=1", "="], "a=2", ["b=3"], rfl, by decide +kernel⟩

end Ipam
