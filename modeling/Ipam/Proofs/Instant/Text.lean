import Ipam.Instant
import Ipam.Proofs.Text.Numeral

/-!
# Reading instants back

The text of an instant is read back as the instant, to the nanosecond, in any year and at a leap
second (`parse?_text`).
-/

namespace Ipam

open Numeral Text

namespace Numeral

theorem EndsDigits.take {base : Nat} {cs : List Char} (h : EndsDigits base cs) (n : Nat) :
    EndsDigits base (cs.take n) := by
  cases n with
  | zero => exact endsDigits_nil base
  | succ n =>
    cases cs with
    | nil => exact h
    | cons c cs => exact h

theorem digitChar_not_special : ∀ d < 10, isBlank (Nat.digitChar d) = false ∧
    Nat.digitChar d ≠ '-' ∧ Nat.digitChar d ≠ '+' := by decide

theorem skipBlanks_digits {ds : List Nat} (hne : ds ≠ []) (hlt : ∀ d ∈ ds, d < 10)
    (rest : List Char) :
    skipBlanks (ds.map Nat.digitChar ++ rest) = ds.map Nat.digitChar ++ rest := by
  cases ds with
  | nil => exact absurd rfl hne
  | cons d ds =>
    have hd := (digitChar_not_special d (hlt d List.mem_cons_self)).1
    simp [skipBlanks, hd]

end Numeral

namespace Instant

/-- Digits are read as far as they go, or up to the limit. -/
theorem readDigits_digits {limit : Nat} {ds : List Nat} (hne : ds ≠ []) (hlt : ∀ d ∈ ds, d < 10)
    (hlen : ds.length ≤ limit) (rest : List Char)
    (hrest : EndsDigits 10 (rest.take (limit - ds.length))) :
    readDigits limit (ds.map Nat.digitChar ++ rest) = some (ofDigits 10 ds, rest) := by
  have htake : (ds.map Nat.digitChar ++ rest).take limit =
      ds.map Nat.digitChar ++ rest.take (limit - ds.length) := by
    rw [List.take_append, List.length_map, List.take_of_length_le (by simpa using hlen)]
  have hspan := span_map_digitChar (by decide) hlt hrest
  have hdrop : (ds.map Nat.digitChar ++ rest).drop ds.length = rest := by
    rw [List.drop_left' (by simp)]
  simp only [readDigits, htake, hspan, if_neg hne, hdrop]

/-- A two-digit field is read back. -/
theorem readField_padded {n : Nat} (hn : n < 100) (rest : List Char) :
    readField (padded 10 2 n ++ rest) = some (n, rest) := by
  obtain ⟨ds, he, hlen, hlt, hval⟩ := exists_padded (by decide : 0 < 10) 2 n
  have hne : ds ≠ [] := by
    rintro rfl
    cases hlen
  have hread := readDigits_digits hne hlt (Nat.le_of_eq hlen) rest
    (by rw [hlen]; exact endsDigits_nil 10)
  rw [readField, he, skipBlanks_digits hne hlt, hread, hval, Nat.mod_eq_of_lt hn]

theorem readSeparator_cons {c : Char} (hc : isBlank c = false) (cs : List Char) :
    readSeparator c (c :: cs) = some cs := by
  simp [readSeparator, skipBlanks, expect, hc]

/-- A year of four digits is read without a sign. -/
theorem readYear_digits {ds : List Nat} (hlen : ds.length = 4) (hlt : ∀ d ∈ ds, d < 10)
    (rest : List Char) :
    readYear (ds.map Nat.digitChar ++ rest) = some ((ofDigits 10 ds : Int), rest) := by
  have hne : ds ≠ [] := by
    rintro rfl
    cases hlen
  have hread := readDigits_digits hne hlt (Nat.le_of_eq hlen) rest
    (by rw [hlen]; exact endsDigits_nil 10)
  rw [readYear, skipBlanks_digits hne hlt]
  cases ds with
  | nil => exact absurd rfl hne
  | cons d ds =>
    obtain ⟨-, hminus, hplus⟩ := digitChar_not_special d (hlt d List.mem_cons_self)
    rw [List.map_cons, List.cons_append] at hread ⊢
    split
    · next heq => exact absurd (List.cons.inj heq).1 hminus
    · next heq => exact absurd (List.cons.inj heq).1 hplus
    · rw [hread]
      rfl

theorem ofDigits_zeros (count : Nat) (ds : List Nat) :
    ofDigits 10 (List.replicate count 0 ++ ds) = ofDigits 10 ds := by
  induction count with
  | zero => rfl
  | succ count ih =>
    rw [List.replicate_succ, List.cons_append]
    exact ih

theorem readYear_minus (cs : List Char) :
    readYear ('-' :: cs) = (readDigits cs.length cs).map fun r => (-(r.1 : Int), r.2) := rfl

theorem readYear_plus (cs : List Char) :
    readYear ('+' :: cs) = (readDigits cs.length cs).map fun r => ((r.1 : Int), r.2) := rfl

/-- The year of a date is read back. -/
theorem readYear_yearChars (year : Int) (rest : List Char) :
    readYear (yearChars year ++ '-' :: rest) = some (year, '-' :: rest) := by
  unfold yearChars
  by_cases hyear : 0 ≤ year ∧ year ≤ 9999
  · rw [if_pos hyear]
    obtain ⟨ds, he, hlen, hlt, hval⟩ := exists_padded (by decide : 0 < 10) 4 year.toNat
    rw [he, readYear_digits hlen hlt, hval]
    have hsmall : year.toNat % 10 ^ 4 = year.toNat := Nat.mod_eq_of_lt (by omega)
    rw [hsmall, Int.toNat_of_nonneg hyear.1]
  · rw [if_neg hyear]
    -- zeros fill the digits up to four, and the hyphen behind them is no digit
    obtain ⟨ds, he, hshort, -⟩ := exists_isShortest (by decide : 1 < 10) year.natAbs
    have hzeros : ∀ k, List.replicate k '0' = (List.replicate k 0).map Nat.digitChar := by
      intro k
      rw [List.map_replicate]
      rfl
    have hdigits : ∀ k, readDigits (List.replicate k '0' ++ Nat.toDigits 10 year.natAbs ++ '-' :: rest).length
        (List.replicate k '0' ++ Nat.toDigits 10 year.natAbs ++ '-' :: rest) =
          some (year.natAbs, '-' :: rest) := by
      intro k
      have hlt : ∀ d ∈ List.replicate k 0 ++ ds, d < 10 := by
        intro d hd
        rcases List.mem_append.1 hd with hd | hd
        · rw [List.eq_of_mem_replicate hd]
          decide
        · exact hshort.lt d hd
      have hends : EndsDigits 10 ('-' :: rest) := endsDigits_cons (by decide)
      rw [he, hzeros, ← List.map_append, readDigits_digits (by simp [hshort.ne_nil]) hlt (by simp)
        _ (hends.take _), ofDigits_zeros, hshort.value]
    dsimp only
    by_cases hneg : year < 0
    · have habs : -(year.natAbs : Int) = year := by omega
      rw [if_pos hneg, List.cons_append, readYear_minus, hdigits, Option.map_some, habs]
    · have habs : (year.natAbs : Int) = year := by omega
      rw [if_neg hneg, List.cons_append, readYear_plus, hdigits, Option.map_some, habs]

/-- The fraction of a second is read back. -/
theorem readFraction_fractionChars {nano : Nat} (hn : nano < 1000000000) :
    readFraction (fractionChars nano ++ ['Z']) = some (nano, ['Z']) := by
  have hpoint : ∀ width, width ≤ 9 → 0 < width → ∀ n < 10 ^ width,
      readFraction ('.' :: padded 10 width n ++ ['Z']) = some (n * 10 ^ (9 - width), ['Z']) := by
    intro width hw hpos n hlt
    obtain ⟨ds, he, hlen, hds, hval⟩ := exists_padded (by decide : 0 < 10) width n
    have hspan : span 10 (ds.map Nat.digitChar ++ ['Z']) = (ds, ['Z']) :=
      span_map_digitChar (by decide) hds (endsDigits_cons (by decide))
    have hne : ds ≠ [] := by
      rintro rfl
      simp at hlen
      omega
    have hkept : ds.take 9 = ds := List.take_of_length_le (by omega)
    rw [he]
    simp only [List.cons_append, readFraction, hspan, if_neg hne, hkept, hval, hlen,
      Nat.mod_eq_of_lt hlt]
  unfold fractionChars
  by_cases h0 : nano = 0
  · rw [if_pos h0, h0]
    rfl
  rw [if_neg h0]
  by_cases h6 : nano % 1000000 = 0
  · rw [if_pos h6, hpoint 3 (by omega) (by omega) _ (by omega)]
    have : nano / 1000000 * 10 ^ (9 - 3) = nano := by omega
    rw [this]
  rw [if_neg h6]
  by_cases h3 : nano % 1000 = 0
  · rw [if_pos h3, hpoint 6 (by omega) (by omega) _ (by omega)]
    have : nano / 1000 * 10 ^ (9 - 6) = nano := by omega
    rw [this]
  · rw [if_neg h3, hpoint 9 (by omega) (by omega) _ hn]
    simp

/-- Nothing is to be shifted at no offset. -/
theorem shift?_zero (t : Instant) : t.shift? 0 = some t := by
  obtain ⟨hhour, hminute, hsecond, hnano⟩ := t.isTime
  have hday : ((t.hour * 60 + t.minute - 0 : Int) % 1440).toNat = t.hour * 60 + t.minute := by omega
  have hdiv : (t.hour * 60 + t.minute) / 60 = t.hour := by omega
  have hmod : (t.hour * 60 + t.minute) % 60 = t.minute := by omega
  simp only [shift?]
  rw [if_neg (by omega), if_neg (by omega)]
  simp only [hday, hdiv, hmod, Option.bind_some]
  exact dif_pos t.isTime

/-- The text of an instant denotes the instant. -/
theorem parse?_text (t : Instant) : parse? t.text = some t := by
  obtain ⟨hhour, hminute, hsecond, hnano⟩ := t.isTime
  obtain ⟨-, -, -, hmonth, -, hday⟩ := t.date.isDate
  have hmonthDays : daysInMonth t.date.year t.date.month ≤ 31 := by
    unfold daysInMonth
    split_ifs <;> decide
  have hchars : t.text.toList = yearChars t.date.year ++ '-' :: (padded 10 2 t.date.month ++
      '-' :: (padded 10 2 t.date.day ++ 'T' :: (padded 10 2 t.hour ++ ':' :: (padded 10 2 t.minute ++
      ':' :: (padded 10 2 t.second ++ (fractionChars t.nano ++ ['Z'])))))) := by
    simp [text, chars]
  have hoffset : readOffset (skipBlanks ['Z']) = some (0, []) := by decide
  have hhyphen : ∀ cs, readSeparator '-' ('-' :: cs) = some cs := readSeparator_cons (by decide)
  have hcolon : ∀ cs, readSeparator ':' (':' :: cs) = some cs := readSeparator_cons (by decide)
  have hmark : ∀ cs, readMark ('T' :: cs) = some cs := fun _ => rfl
  have hdate : Date.of? t.date.year t.date.month t.date.day = some t.date := dif_pos t.date.isDate
  have htime : of? t.date t.hour t.minute t.second t.nano = some t := dif_pos t.isTime
  rw [parse?, hchars]
  refine Option.bind_eq_some_iff.2 ⟨_, readYear_yearChars _ _, ?_⟩
  refine Option.bind_eq_some_iff.2 ⟨_, hhyphen _, ?_⟩
  refine Option.bind_eq_some_iff.2 ⟨_, readField_padded (by omega) _, ?_⟩
  refine Option.bind_eq_some_iff.2 ⟨_, hhyphen _, ?_⟩
  refine Option.bind_eq_some_iff.2 ⟨_, readField_padded (by omega) _, ?_⟩
  refine Option.bind_eq_some_iff.2 ⟨_, hmark _, ?_⟩
  refine Option.bind_eq_some_iff.2 ⟨_, readField_padded (by omega) _, ?_⟩
  refine Option.bind_eq_some_iff.2 ⟨_, hcolon _, ?_⟩
  refine Option.bind_eq_some_iff.2 ⟨_, readField_padded (by omega) _, ?_⟩
  refine Option.bind_eq_some_iff.2 ⟨_, hcolon _, ?_⟩
  refine Option.bind_eq_some_iff.2 ⟨_, readField_padded (by omega) _, ?_⟩
  refine Option.bind_eq_some_iff.2 ⟨_, readFraction_fractionChars hnano, ?_⟩
  refine Option.bind_eq_some_iff.2 ⟨_, hoffset, ?_⟩
  dsimp only
  rw [if_pos (by rfl)]
  refine Option.bind_eq_some_iff.2 ⟨_, hdate, ?_⟩
  exact Option.bind_eq_some_iff.2 ⟨_, htime, t.shift?_zero⟩

end Instant

end Ipam
