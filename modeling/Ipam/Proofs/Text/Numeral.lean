import Mathlib.Data.List.Basic
import Mathlib.Tactic.IntervalCases
import Ipam.Text.Numeral

/-!
# Reading numerals back

`Nat.toDigits` writes a number in the shortest way. Every grammar that admits the base, the count
of digits and the size of the number reads it back and leaves what follows the digits
(`read_toDigits`).
-/

namespace Ipam.Numeral

/-- A text that does not go on with a digit of the base. -/
def EndsDigits (base : Nat) (cs : List Char) : Prop := ∀ c ∈ cs.head?, digit? base c = none

theorem endsDigits_nil (base : Nat) : EndsDigits base [] := by
  intro c hc
  cases hc

theorem endsDigits_cons {base : Nat} {c : Char} {cs : List Char} (h : digit? base c = none) :
    EndsDigits base (c :: cs) := by
  intro d hd
  cases hd
  exact h

theorem digit?_digitChar {base d : Nat} (hb : base ≤ 16) (hd : d < base) :
    digit? base (Nat.digitChar d) = some d := by
  have h16 : d < 16 := by omega
  interval_cases d <;> simp [digit?, Nat.digitChar, hd]

/-- Digits at the front of a text are read as far as they go. -/
theorem span_map_digitChar {base : Nat} (hb : base ≤ 16) {ds : List Nat} (hd : ∀ d ∈ ds, d < base)
    {rest : List Char} (hr : EndsDigits base rest) :
    span base (ds.map Nat.digitChar ++ rest) = (ds, rest) := by
  induction ds with
  | nil =>
    cases rest with
    | nil => rfl
    | cons c cs => simp [span, hr c rfl]
  | cons d ds ih =>
    have h1 := digit?_digitChar hb (hd d List.mem_cons_self)
    have h2 := ih fun e he => hd e (List.mem_cons_of_mem d he)
    simp only [List.map_cons, List.cons_append, span, h1, h2]

/-! ## The shortest digits of a number -/

/-- The digits of a number in a base, without zeros in front. -/
structure IsShortest (base n : Nat) (ds : List Nat) : Prop where
  /-- Each digit is one of the base. -/
  lt : ∀ d ∈ ds, d < base
  /-- The digits denote the number. -/
  value : ofDigits base ds = n
  /-- There is a digit. -/
  ne_nil : ds ≠ []
  /-- The first digit is zero only if it is the only one. -/
  head : ds.length = 1 ∨ ds.head? ≠ some 0

theorem ofDigits_append (base : Nat) (ds : List Nat) (d : Nat) :
    ofDigits base (ds ++ [d]) = ofDigits base ds * base + d := by
  simp [ofDigits]

/-- Writing a number is writing its shortest digits. -/
theorem exists_isShortest {base : Nat} (hb : 1 < base) (n : Nat) :
    ∃ ds, Nat.toDigits base n = ds.map Nat.digitChar ∧ IsShortest base n ds ∧
      (0 < n → ds.head? ≠ some 0) := by
  induction n using Nat.strong_induction_on with
  | _ n ih =>
    by_cases h : n < base
    · refine ⟨[n], Nat.toDigits_of_lt_base h, ⟨by simpa using h, ?_, by simp, .inl rfl⟩, ?_⟩
      · simp [ofDigits]
      · intro hn
        simpa using Nat.ne_of_gt hn
    · have hq : n / base < n := Nat.div_lt_self (by omega) hb
      have hpos : 0 < n / base := Nat.div_pos (by omega) (by omega)
      obtain ⟨ds, he, hs, hz⟩ := ih (n / base) hq
      have hhead : (ds ++ [n % base]).head? = ds.head? := by
        cases ds with
        | nil => exact absurd rfl hs.ne_nil
        | cons d ds => rfl
      refine ⟨ds ++ [n % base], ?_, ⟨?_, ?_, by simp, .inr ?_⟩, fun _ => ?_⟩
      · rw [Nat.toDigits_of_base_le hb (by omega), he, List.map_append, List.map_singleton]
      · intro d hd
        rcases List.mem_append.1 hd with hd | hd
        · exact hs.lt d hd
        · rw [List.mem_singleton.1 hd]
          exact Nat.mod_lt n (by omega)
      · rw [ofDigits_append, hs.value, Nat.mul_comm]
        exact Nat.div_add_mod n base
      · rw [hhead]
        exact hz hpos
      · rw [hhead]
        exact hz hpos

/-- A number that a grammar admits is read back. -/
theorem read_toDigits {s : Spelling} (hb : 1 < s.base) (hb' : s.base ≤ 16) {n : Nat}
    (hn : n < s.bound) (hl : n < s.base ^ s.maxDigits) (hm : 0 < s.maxDigits) {rest : List Char}
    (hr : EndsDigits s.base rest) : read s (Nat.toDigits s.base n ++ rest) = some (n, rest) := by
  obtain ⟨ds, he, hs, -⟩ := exists_isShortest hb n
  have hlen : ds.length ≤ s.maxDigits := by
    have := (Nat.length_toDigits_le_iff hb hm).2 hl
    rwa [he, List.length_map] at this
  have hspan : span s.base (Nat.toDigits s.base n ++ rest) = (ds, rest) := by
    rw [he]
    exact span_map_digitChar hb' hs.lt hr
  have hzero : (s.leadingZeros || ds.length == 1 || ds.head? != some 0) = true := by
    rcases hs.head with h | h
    · simp [h]
    · simp [h]
  have hadm : s.admits ds = true := by
    simp [Spelling.admits, hs.ne_nil, hlen, hs.value, hn]
    simpa using hzero
  simp only [read, hspan, hadm, if_true, hs.value]

/-! ## Numbers of a fixed width -/

/-- Writing a number with a fixed width is writing that many digits, which denote the number up to
those that were lost. -/
theorem exists_padded {base : Nat} (hb : 0 < base) (width n : Nat) :
    ∃ ds, padded base width n = ds.map Nat.digitChar ∧ ds.length = width ∧ (∀ d ∈ ds, d < base) ∧
      ofDigits base ds = n % base ^ width := by
  induction width generalizing n with
  | zero => exact ⟨[], rfl, rfl, by simp, by simp [ofDigits, Nat.mod_one]⟩
  | succ width ih =>
    obtain ⟨ds, he, hlen, hlt, hval⟩ := ih (n / base)
    refine ⟨ds ++ [n % base], ?_, ?_, ?_, ?_⟩
    · rw [padded, he, List.map_append, List.map_singleton]
    · simp [hlen]
    · intro d hd
      rcases List.mem_append.1 hd with hd | hd
      · exact hlt d hd
      · rw [List.mem_singleton.1 hd]
        exact Nat.mod_lt n hb
    · rw [ofDigits_append, hval, Nat.pow_succ', Nat.mod_mul, Nat.mul_comm, Nat.add_comm]

theorem exists_digit_of_mem_padded {base : Nat} (hb : 0 < base) {width n : Nat} {c : Char}
    (h : c ∈ padded base width n) : ∃ d < base, c = Nat.digitChar d := by
  obtain ⟨ds, he, -, hlt, -⟩ := exists_padded hb width n
  rw [he] at h
  obtain ⟨d, hd, rfl⟩ := List.mem_map.1 h
  exact ⟨d, hlt d hd, rfl⟩

/-- A number that is written with a fixed width is read back, up to the digits that were lost. -/
theorem ofDigits_padded {base : Nat} (hb : 0 < base) (hb' : base ≤ 16) (width n : Nat) :
    ofDigits base ((padded base width n).filterMap (digit? base)) = n % base ^ width := by
  obtain ⟨ds, he, -, hlt, hval⟩ := exists_padded hb width n
  have hread : (ds.map Nat.digitChar).filterMap (digit? base) = ds := by
    rw [List.filterMap_map]
    exact (List.filterMap_congr fun d hd => digit?_digitChar hb' (hlt d hd)).trans
      List.filterMap_some
  rw [he, hread, hval]

theorem read_eq_none_of_endsDigits {s : Spelling} {cs : List Char} (h : EndsDigits s.base cs) :
    read s cs = none := by
  have hspan : span s.base cs = ([], cs) := by
    cases cs with
    | nil => rfl
    | cons c cs => simp [span, h c rfl]
  simp [read, hspan, Spelling.admits]

end Ipam.Numeral
