/-!
# Ordered sets

A finite set kept as the strictly ascending list of its members. The order comes from a rank, a
number that tells any two members apart, so that the list is a normal form: two sets with the same
members are equal (`OrderedSet.ext`). Every operation is described by its effect on membership.
-/

namespace Ipam

/-- Types whose values are ordered by a number of their own. -/
class Ranked (α : Type) where
  /-- The place of a value in the order. -/
  rank : α → Nat
  /-- No two values share a place. -/
  rank_inj : ∀ {a b : α}, rank a = rank b → a = b

/-- A finite set as the ascending list of its members. -/
structure OrderedSet (α : Type) [Ranked α] where
  /-- The members in ascending order. -/
  toList : List α
  /-- Each member is smaller than all members after it. -/
  ascending : toList.Pairwise fun a b => Ranked.rank a < Ranked.rank b

namespace OrderedSet

variable {α : Type} [Ranked α]

instance : Membership α (OrderedSet α) := ⟨fun s a => a ∈ s.toList⟩

theorem mem_def {s : OrderedSet α} {a : α} : a ∈ s ↔ a ∈ s.toList := Iff.rfl

instance [DecidableEq α] (a : α) (s : OrderedSet α) : Decidable (a ∈ s) :=
  inferInstanceAs (Decidable (a ∈ s.toList))

instance [DecidableEq α] : DecidableEq (OrderedSet α) := fun s t =>
  if h : s.toList = t.toList then
    .isTrue (by cases s; cases t; cases h; rfl)
  else .isFalse fun e => h (by rw [e])

/-- The set without members. -/
def empty : OrderedSet α := ⟨[], .nil⟩

instance : EmptyCollection (OrderedSet α) := ⟨empty⟩

instance : Inhabited (OrderedSet α) := ⟨∅⟩

/-- The number of members. -/
def size (s : OrderedSet α) : Nat := s.toList.length

/-! ## Insertion and removal -/

/-- Puts a value at its place in an ascending list, unless it is there already. -/
def insertList (a : α) : List α → List α
  | [] => [a]
  | b :: bs =>
    if Ranked.rank a < Ranked.rank b then a :: b :: bs
    else if Ranked.rank a = Ranked.rank b then b :: bs
    else b :: insertList a bs

theorem mem_insertList {a x : α} {l : List α} : x ∈ insertList a l ↔ x = a ∨ x ∈ l := by
  induction l with
  | nil => simp [insertList]
  | cons b bs ih =>
    simp only [insertList]
    split
    · simp
    split
    · next h =>
      cases Ranked.rank_inj h
      simp
    · simp only [List.mem_cons, ih]
      constructor
      · rintro (h | h | h) <;> simp [h]
      · rintro (h | h | h) <;> simp [h]

theorem pairwise_insertList {a : α} {l : List α}
    (h : l.Pairwise fun a b => Ranked.rank a < Ranked.rank b) :
    (insertList a l).Pairwise fun a b => Ranked.rank a < Ranked.rank b := by
  induction l with
  | nil => simp [insertList]
  | cons b bs ih =>
    obtain ⟨hb, hbs⟩ := List.pairwise_cons.1 h
    simp only [insertList]
    split
    · next hab =>
      refine List.pairwise_cons.2 ⟨fun x hx => ?_, h⟩
      rcases List.mem_cons.1 hx with rfl | hx
      · exact hab
      · exact Nat.lt_trans hab (hb x hx)
    split
    · exact h
    · next hlt hne =>
      refine List.pairwise_cons.2 ⟨fun x hx => ?_, ih hbs⟩
      rcases mem_insertList.1 hx with rfl | hx
      · omega
      · exact hb x hx

/-- The set with one more member. -/
def insert (s : OrderedSet α) (a : α) : OrderedSet α :=
  ⟨insertList a s.toList, pairwise_insertList s.ascending⟩

/-- The set without a member. -/
def erase [DecidableEq α] (s : OrderedSet α) (a : α) : OrderedSet α :=
  ⟨s.toList.filter fun b => decide (b ≠ a), s.ascending.filter _⟩

/-- The set of the values in a list. -/
def ofList (l : List α) : OrderedSet α :=
  l.foldl insert ∅

@[simp] theorem not_mem_empty (a : α) : a ∉ (∅ : OrderedSet α) :=
  List.not_mem_nil

@[simp] theorem mem_insert {s : OrderedSet α} {a x : α} : x ∈ s.insert a ↔ x = a ∨ x ∈ s :=
  mem_insertList

@[simp] theorem mem_erase [DecidableEq α] {s : OrderedSet α} {a x : α} :
    x ∈ s.erase a ↔ x ≠ a ∧ x ∈ s := by
  simp [mem_def, erase, and_comm]

theorem mem_foldl_insert {l : List α} {s : OrderedSet α} {x : α} :
    x ∈ l.foldl insert s ↔ x ∈ l ∨ x ∈ s := by
  induction l generalizing s with
  | nil => simp
  | cons a l ih =>
    simp only [List.foldl_cons, ih, mem_insert, List.mem_cons]
    constructor
    · rintro (h | h | h) <;> simp [h]
    · rintro ((h | h) | h) <;> simp [h]

@[simp] theorem mem_ofList {l : List α} {x : α} : x ∈ ofList l ↔ x ∈ l := by
  simp [ofList, mem_foldl_insert]

/-! ## Normal form -/

theorem eq_of_ascending {l m : List α}
    (hl : l.Pairwise fun a b => Ranked.rank a < Ranked.rank b)
    (hm : m.Pairwise fun a b => Ranked.rank a < Ranked.rank b)
    (h : ∀ x, x ∈ l ↔ x ∈ m) : l = m := by
  induction l generalizing m with
  | nil =>
    cases m with
    | nil => rfl
    | cons b m => exact absurd ((h b).2 List.mem_cons_self) List.not_mem_nil
  | cons a l ih =>
    cases m with
    | nil => exact absurd ((h a).1 List.mem_cons_self) List.not_mem_nil
    | cons b m =>
      obtain ⟨ha, hl'⟩ := List.pairwise_cons.1 hl
      obtain ⟨hb, hm'⟩ := List.pairwise_cons.1 hm
      have hab : a = b := by
        rcases List.mem_cons.1 ((h a).1 List.mem_cons_self) with e | hxa
        · exact e
        rcases List.mem_cons.1 ((h b).2 List.mem_cons_self) with e | hxb
        · exact e.symm
        have h1 := hb a hxa
        have h2 := ha b hxb
        omega
      cases hab
      congr 1
      refine ih hl' hm' fun x => ⟨fun hx => ?_, fun hx => ?_⟩
      · rcases List.mem_cons.1 ((h x).1 (List.mem_cons_of_mem _ hx)) with rfl | h'
        · exact absurd (ha x hx) (Nat.lt_irrefl _)
        · exact h'
      · rcases List.mem_cons.1 ((h x).2 (List.mem_cons_of_mem _ hx)) with rfl | h'
        · exact absurd (hb x hx) (Nat.lt_irrefl _)
        · exact h'

/-- Sets with the same members are equal. -/
theorem ext {s t : OrderedSet α} (h : ∀ x, x ∈ s ↔ x ∈ t) : s = t := by
  obtain ⟨l, hl⟩ := s
  obtain ⟨m, hm⟩ := t
  have : l = m := eq_of_ascending hl hm h
  cases this
  rfl

end OrderedSet

end Ipam
