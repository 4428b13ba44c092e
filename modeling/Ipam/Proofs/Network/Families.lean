import Mathlib.Data.List.Dedup
import Ipam.Scope

/-!
# The families of networks

A network offers the families of its prefixes, each once (`Network.Consistent`). So the family that
is chosen for a request without an address has a prefix (`chooseFamily_eq_ok_iff`), and it is the same
for all networks with prefixes of the same families (`chooseFamily_congr`).
-/

namespace Ipam

theorem Family.eq_v4_of_ne {f : Family} (h : f ≠ .v6) : f = .v4 := by
  cases f with
  | v4 => rfl
  | v6 => exact absurd rfl h

theorem Family.eq_v6_of_ne {f : Family} (h : f ≠ .v4) : f = .v6 := by
  cases f with
  | v4 => exact absurd rfl h
  | v6 => rfl

namespace Network

variable {n n' : Network} {f : Family}

/-- A family is listed just if it is not among those seen and a prefix is of it. -/
theorem mem_familiesOf {seen : List Family} {ps : List Prefix} :
    f ∈ familiesOf seen ps ↔ f ∉ seen ∧ ∃ p ∈ ps, p.family = f := by
  induction ps generalizing seen with
  | nil => simp [familiesOf]
  | cons p ps ih =>
    by_cases hp : p.family ∈ seen
    · rw [familiesOf, if_pos hp, ih, List.exists_mem_cons_iff]
      refine and_congr_right fun hf => ?_
      have hne : p.family ≠ f := fun he => hf (he ▸ hp)
      exact ⟨.inr, fun h => h.resolve_left hne⟩
    · rw [familiesOf, if_neg hp, List.mem_cons, ih, List.exists_mem_cons_iff, List.mem_cons]
      by_cases hf : f = p.family
      · subst hf
        simp [hp]
      · simp [hf, Ne.symm hf]

theorem nodup_familiesOf (seen : List Family) (ps : List Prefix) : (familiesOf seen ps).Nodup := by
  induction ps generalizing seen with
  | nil => exact List.nodup_nil
  | cons p ps ih =>
    by_cases hp : p.family ∈ seen
    · rw [familiesOf, if_pos hp]
      exact ih seen
    · rw [familiesOf, if_neg hp]
      refine List.nodup_cons.2 ⟨fun hmem => ?_, ih _⟩
      exact (mem_familiesOf.1 hmem).1 List.mem_cons_self

/-- What a network offers agrees with what its prefixes are of. -/
structure Consistent (n : Network) : Prop where
  /-- The families offered are those of the prefixes. -/
  mem_iff : ∀ f, f ∈ n.families ↔ ∃ p ∈ n.prefixes, p.family = f
  /-- None is offered twice. -/
  nodup : n.families.Nodup

theorem consistent_of_families (h : n.families = familiesOf [] n.prefixes) : n.Consistent where
  mem_iff f := by
    rw [h, mem_familiesOf]
    simp
  nodup := by
    rw [h]
    exact nodup_familiesOf [] n.prefixes

theorem prefixesOf_ne_nil_iff : n.prefixesOf f ≠ [] ↔ ∃ p ∈ n.prefixes, p.family = f := by
  simp [prefixesOf, List.filter_eq_nil_iff]

/-- A family is supported just if there are prefixes to serve it from. -/
theorem Consistent.supports_iff (h : n.Consistent) : n.supports f = true ↔ n.prefixesOf f ≠ [] := by
  rw [supports, decide_eq_true_iff, h.mem_iff, prefixesOf_ne_nil_iff]

/-- Networks with prefixes of the same families offer the same families. -/
theorem Consistent.perm (h : n.Consistent) (h' : n'.Consistent)
    (hsame : ∀ f, (∃ p ∈ n.prefixes, p.family = f) ↔ ∃ p ∈ n'.prefixes, p.family = f) :
    n.families.Perm n'.families := by
  refine (List.perm_ext_iff_of_nodup h.nodup h'.nodup).2 fun f => ?_
  rw [h.mem_iff, h'.mem_iff, hsame]

/-- One family is all that is offered just if all prefixes are of it. -/
theorem Consistent.families_eq_singleton_iff (h : n.Consistent) (hne : n.prefixes ≠ []) :
    n.families = [f] ↔ ∀ p ∈ n.prefixes, p.family = f := by
  constructor
  · intro hf p hp
    have hmem : p.family ∈ n.families := (h.mem_iff _).2 ⟨p, hp, rfl⟩
    rw [hf] at hmem
    exact List.mem_singleton.1 hmem
  · intro hall
    obtain ⟨p, hp⟩ := List.exists_mem_of_ne_nil _ hne
    refine List.perm_singleton.1 ?_
    refine (List.perm_ext_iff_of_nodup h.nodup (List.nodup_singleton f)).2 fun g => ?_
    rw [h.mem_iff, List.mem_singleton]
    constructor
    · rintro ⟨q, hq, rfl⟩
      exact hall q hq
    · rintro rfl
      exact ⟨p, hp, hall p hp⟩

/-- The family of a request without an address: the one asked for, else the only one of the prefixes,
else version 4 if both occur. -/
def Chooses (n : Network) (f : Family) : Option Wire.FamilyName → Prop
  | some name => name.family = .ok f
  | none => (∀ p ∈ n.prefixes, p.family = f) ∨
      f = .v4 ∧ (∃ p ∈ n.prefixes, p.family = .v4) ∧ ∃ p ∈ n.prefixes, p.family = .v6

end Network

section Choice

variable {n n' : Network} {f : Family} {requested : Option Wire.FamilyName}

theorem chooseFamily_named {name : Wire.FamilyName} :
    chooseFamily (some name) none n = .ok f ↔ name.family = .ok f ∧ n.supports f = true := by
  have hbind : chooseFamily (some name) none n = name.family.bind fun f =>
      if n.supports f then .ok f else .error (.invalid (.familyAbsent f n.id)) := rfl
  rw [hbind]
  cases name.family with
  | error e => simp [Except.bind]
  | ok g =>
    by_cases hg : n.supports g = true
    · simp only [Except.bind, hg, if_true, Except.ok.injEq]
      exact ⟨fun h => ⟨h, h ▸ hg⟩, And.left⟩
    · simp only [Except.bind, hg, if_false, reduceCtorEq, false_iff, Except.ok.injEq]
      rintro ⟨rfl, h⟩
      exact hg h

/-- Without a family asked for, the only one that is offered is chosen. -/
theorem chooseFamily_only {only : Family} (h : n.families = [only]) :
    chooseFamily none none n = .ok only := by
  simp only [chooseFamily, h]

/-- Unless just one is offered, it is version 4. -/
theorem chooseFamily_of_not_only (h : ∀ only, n.families ≠ [only]) :
    chooseFamily none none n = .ok .v4 := by
  cases hf : n.families with
  | nil => simp only [chooseFamily, hf]
  | cons f fs =>
    cases fs with
    | nil => exact absurd hf (h f)
    | cons g fs => simp only [chooseFamily, hf]

theorem Network.Consistent.chooseFamily_none_iff (h : n.Consistent) (hne : n.prefixes ≠ []) :
    chooseFamily none none n = .ok f ↔ n.Chooses f none := by
  obtain ⟨p, hp⟩ := List.exists_mem_of_ne_nil _ hne
  by_cases hall : ∃ only, ∀ q ∈ n.prefixes, q.family = only
  · obtain ⟨only, hall⟩ := hall
    rw [chooseFamily_only ((h.families_eq_singleton_iff hne).2 hall), Except.ok.injEq]
    constructor
    · rintro rfl
      exact .inl hall
    · rintro (hf | ⟨-, ⟨q, hq, hv4⟩, r, hr, hv6⟩)
      · exact (hall p hp).symm.trans (hf p hp)
      · have hboth : Family.v4 = .v6 := by rw [← hv4, ← hv6, hall q hq, hall r hr]
        cases hboth
  · have hother : ∀ only, ∃ q ∈ n.prefixes, q.family ≠ only := by simpa using hall
    have hmany : ∀ only, n.families ≠ [only] := fun only ho =>
      hall ⟨only, (h.families_eq_singleton_iff hne).1 ho⟩
    obtain ⟨q, hq, hv4⟩ := hother .v6
    obtain ⟨r, hr, hv6⟩ := hother .v4
    rw [chooseFamily_of_not_only hmany, Except.ok.injEq]
    constructor
    · rintro rfl
      exact .inr ⟨rfl, ⟨q, hq, Family.eq_v4_of_ne hv4⟩, r, hr, Family.eq_v6_of_ne hv6⟩
    · rintro (hf | ⟨rfl, -⟩)
      · exact absurd ⟨f, hf⟩ hall
      · rfl

/-- A family is chosen for a request without an address just if it is the one to choose and it has a
prefix. -/
theorem Network.Consistent.chooseFamily_eq_ok_iff (h : n.Consistent) (hne : n.prefixes ≠ []) :
    chooseFamily requested none n = .ok f ↔ n.prefixesOf f ≠ [] ∧ n.Chooses f requested := by
  cases requested with
  | some name => rw [chooseFamily_named, h.supports_iff, and_comm, Network.Chooses]
  | none =>
    rw [h.chooseFamily_none_iff hne, iff_and_self]
    rintro (hall | ⟨rfl, hv4, -⟩)
    · obtain ⟨p, hp⟩ := List.exists_mem_of_ne_nil _ hne
      exact Network.prefixesOf_ne_nil_iff.2 ⟨p, hp, hall p hp⟩
    · exact Network.prefixesOf_ne_nil_iff.2 hv4

/-- Of the prefixes of a network, only their families matter for the choice. -/
theorem Network.Consistent.chooseFamily_congr (h : n.Consistent) (h' : n'.Consistent)
    (hid : n.id = n'.id)
    (hsame : ∀ f, (∃ p ∈ n.prefixes, p.family = f) ↔ ∃ p ∈ n'.prefixes, p.family = f)
    (literal : Option String) :
    chooseFamily requested literal n = chooseFamily requested literal n' := by
  have hperm := h.perm h' hsame
  have hsupports : ∀ f, n.supports f = n'.supports f := fun f => by
    rw [Network.supports, Network.supports, decide_eq_decide]
    exact hperm.mem_iff
  cases literal with
  | some literal => cases requested <;> rfl
  | none =>
    cases requested with
    | some name => simp only [chooseFamily, hsupports, hid]
    | none =>
      by_cases honly : ∃ only, n.families = [only]
      · obtain ⟨only, ho⟩ := honly
        have ho' : n'.families = [only] := List.perm_singleton.1 (ho ▸ hperm.symm)
        rw [chooseFamily_only ho, chooseFamily_only ho']
      · have hmany : ∀ only, n'.families ≠ [only] := fun only ho =>
          honly ⟨only, List.perm_singleton.1 (ho ▸ hperm)⟩
        rw [chooseFamily_of_not_only (not_exists.1 honly), chooseFamily_of_not_only hmany]

end Choice

end Ipam
