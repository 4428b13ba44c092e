import Ipam.Address.Text
import Ipam.Proofs.Text.Numeral

/-!
# Reading addresses back

The text of an address is read back as the address, by readers that admit leading zeros and by
readers that do not (`parse?_text`). Reading goes on over a text, so the lemmas say what is read
from the front of one, whatever closes it (`Closes`).

Of the two forms of a version 6 address, the dotted one only has to be kept apart from the groups:
no digit of a group is followed by a dot (`readDotted_eq_none`).
-/

namespace Ipam.Addr

open Numeral

/-! ## Parts of a number -/

theorem length_parts (bits count n : Nat) : (parts bits count n).length = count := by
  induction count generalizing n with
  | zero => rfl
  | succ count ih => simp [parts, ih]

theorem lt_of_mem_parts {bits count n p : Nat} (h : p ∈ parts bits count n) : p < 2 ^ bits := by
  induction count generalizing n with
  | zero => simp [parts] at h
  | succ count ih =>
    rcases List.mem_append.1 h with h | h
    · exact ih h
    · rw [List.mem_singleton.1 h]
      exact Nat.mod_lt n (Nat.pow_pos (by decide))

theorem ofParts_append (bits : Nat) (ps : List Nat) (p : Nat) :
    ofParts bits (ps ++ [p]) = ofParts bits ps * 2 ^ bits + p := by
  simp [ofParts]

/-- A number is put together again from its parts. -/
theorem ofParts_parts {bits count n : Nat} (h : n < 2 ^ (bits * count)) :
    ofParts bits (parts bits count n) = n := by
  induction count generalizing n with
  | zero =>
    have : n = 0 := by simpa using h
    rw [this]
    rfl
  | succ count ih =>
    have hq : n / 2 ^ bits < 2 ^ (bits * count) := by
      rw [Nat.div_lt_iff_lt_mul (Nat.pow_pos (by decide)), ← Nat.pow_add]
      rwa [Nat.mul_succ] at h
    rw [parts, ofParts_append, ih hq, Nat.mul_comm]
    exact Nat.div_add_mod n (2 ^ bits)

/-! ## Separated texts -/

theorem separated_cons (sep : Char) (t : List Char) (ts : List (List Char)) :
    separated sep (t :: ts) = t ++ ts.flatMap (sep :: ·) := by
  induction ts generalizing t with
  | nil => simp [separated]
  | cons u us ih => simp [separated, ih]

/-- What may follow an address or a run of groups: nothing, the slash of a prefix, or the two
colons that stand for zeros. -/
inductive Closes : List Char → Prop where
  /-- The end of the text. -/
  | nil : Closes []
  /-- The length of a prefix follows. -/
  | slash (cs : List Char) : Closes ('/' :: cs)
  /-- Zeros that were left out follow. -/
  | zeros (cs : List Char) : Closes (':' :: ':' :: cs)

theorem Closes.endsDigits {cs : List Char} (h : Closes cs) (base : Nat) : EndsDigits base cs := by
  cases h with
  | nil => exact endsDigits_nil base
  | slash cs => exact endsDigits_cons (by simp [digit?])
  | zeros cs => exact endsDigits_cons (by simp [digit?])

theorem Closes.head?_ne_dot {cs : List Char} (h : Closes cs) : cs.head? ≠ some '.' := by
  cases h <;> simp

/-! ## Version 4 -/

theorem read_octet (zeros : Bool) {o : Nat} (ho : o < 256) {rest : List Char}
    (hr : EndsDigits 10 rest) : read (octet zeros) (Nat.toDigits 10 o ++ rest) = some (o, rest) :=
  read_toDigits (s := octet zeros) (show 1 < 10 by decide) (show 10 ≤ 16 by decide) ho
    (show o < 10 ^ 3 by omega) (show 0 < 3 by decide) hr

theorem readOctets_flatMap (zeros : Bool) {os : List Nat} (ho : ∀ o ∈ os, o < 256)
    {rest : List Char} (hr : EndsDigits 10 rest) :
    readOctets zeros os.length false (os.flatMap (fun o => '.' :: Nat.toDigits 10 o) ++ rest)
      = some (os, rest) := by
  induction os with
  | nil => rfl
  | cons o os ih =>
    have hrest : EndsDigits 10 (os.flatMap (fun o => '.' :: Nat.toDigits 10 o) ++ rest) := by
      cases os with
      | nil => exact hr
      | cons p ps => exact endsDigits_cons (by simp [digit?])
    have h1 := read_octet zeros (ho o List.mem_cons_self) hrest
    have h2 := ih fun p hp => ho p (List.mem_cons_of_mem o hp)
    simp only [List.flatMap_cons, List.cons_append, List.append_assoc, List.length_cons, readOctets,
      afterSeparator, Bool.false_eq_true, if_false, expect, if_true]
    simp [h1, h2]

/-- Four octets are read back. -/
theorem readDotted_dotted (zeros : Bool) {value : Nat} (hv : value < 2 ^ 32) {rest : List Char}
    (hr : EndsDigits 10 rest) : readDotted zeros (dotted value ++ rest) = some (value, rest) := by
  have hlen := length_parts 8 4 value
  have hlt : ∀ o ∈ parts 8 4 value, o < 256 := fun o h => lt_of_mem_parts h
  have hval : ofParts 8 (parts 8 4 value) = value := ofParts_parts hv
  rw [readDotted, dotted]
  generalize parts 8 4 value = os at hlen hlt hval
  cases os with
  | nil => cases hlen
  | cons o os =>
    have hrest : EndsDigits 10 (os.flatMap (fun o => '.' :: Nat.toDigits 10 o) ++ rest) := by
      cases os with
      | nil => exact hr
      | cons p ps => exact endsDigits_cons (by simp [digit?])
    have h1 := read_octet zeros (hlt o List.mem_cons_self) hrest
    have h2 := readOctets_flatMap zeros (fun p hp => hlt p (List.mem_cons_of_mem o hp))
      hr
    have h3 : os.length = 3 := by simpa using hlen
    rw [h3] at h2
    rw [List.map_cons, separated_cons, List.flatMap_map, List.append_assoc, readOctets,
      afterSeparator, if_pos rfl]
    simp [h1, h2, hval]

theorem readDotted_of_endsDigits (zeros : Bool) {cs : List Char} (h : EndsDigits 10 cs) :
    readDotted zeros cs = none := by
  have hread : Numeral.read (octet zeros) cs = none := read_eq_none_of_endsDigits h
  simp [readDotted, readOctets, afterSeparator, hread]

/-! ## Version 6 -/

/-- The text after the digits at the front of a text starts with no dot, if there is no dot up to
what closes it. -/
theorem span_snd_head?_ne_dot (base : Nat) {l rest : List Char} (hl : '.' ∉ l)
    (hr : Closes rest) : (span base (l ++ rest)).2.head? ≠ some '.' := by
  induction l with
  | nil =>
    have h := hr.endsDigits base
    cases rest with
    | nil => simp [span]
    | cons c cs =>
      rw [List.nil_append, span, h c rfl]
      exact hr.head?_ne_dot
  | cons c l ih =>
    rw [List.cons_append, span]
    cases h : digit? base c with
    | none =>
      intro hc
      cases hc
      exact hl List.mem_cons_self
    | some d => exact ih fun hm => hl (List.mem_cons_of_mem c hm)

/-- A text with no dot in it is no dotted quad. -/
theorem readDotted_eq_none (zeros : Bool) {l rest : List Char} (hl : '.' ∉ l) (hr : Closes rest) :
    readDotted zeros (l ++ rest) = none := by
  have h := span_snd_head?_ne_dot 10 hl hr
  rw [readDotted, readOctets, afterSeparator, if_pos rfl]
  have hread : read (octet zeros) (l ++ rest) = none ∨
      ∃ o cs, read (octet zeros) (l ++ rest) = some (o, cs) ∧ cs.head? ≠ some '.' := by
    rw [Numeral.read]
    split
    · exact .inr ⟨_, _, rfl, h⟩
    · exact .inl rfl
  rcases hread with he | ⟨o, cs, he, hcs⟩
  · simp [he]
  · have hexp : expect '.' cs = none := by
      cases cs with
      | nil => rfl
      | cons c cs =>
        have hc : '.' ≠ c := fun e => hcs (by rw [e]; rfl)
        simp [expect, hc]
    simp [he, readOctets, afterSeparator, hexp]

/-- No digit is a dot. -/
theorem dot_not_mem_toDigits {base : Nat} (hb : 1 < base) (hb' : base ≤ 16) (n : Nat) :
    '.' ∉ Nat.toDigits base n := by
  obtain ⟨ds, he, hs, -⟩ := exists_isShortest hb n
  rw [he]
  intro hm
  obtain ⟨d, hd, hc⟩ := List.mem_map.1 hm
  have h := digit?_digitChar hb' (hs.lt d hd)
  rw [hc] at h
  simp [digit?] at h

theorem read_group {g : Nat} (hg : g < 2 ^ 16) {rest : List Char} (hr : EndsDigits 16 rest) :
    read group (Nat.toDigits 16 g ++ rest) = some (g, rest) :=
  read_toDigits (s := group) (by decide) (by decide) hg hg (by decide) hr

/-- Groups, each with a colon before it. -/
def followingGroups (gs : List Nat) : List Char := gs.flatMap fun g => ':' :: Nat.toDigits 16 g

theorem dot_not_mem_followingGroups (gs : List Nat) : '.' ∉ followingGroups gs := by
  intro h
  obtain ⟨g, -, hm⟩ := List.mem_flatMap.1 h
  rcases List.mem_cons.1 hm with hm | hm
  · cases hm
  · exact dot_not_mem_toDigits (by decide) (by decide) g hm

theorem groups_cons (g : Nat) (gs : List Nat) :
    groups (g :: gs) = Nat.toDigits 16 g ++ followingGroups gs := by
  rw [groups, List.map_cons, separated_cons, List.flatMap_map]
  rfl

theorem endsDigits_followingGroups (gs : List Nat) {rest : List Char} (hr : Closes rest) :
    EndsDigits 16 (followingGroups gs ++ rest) := by
  cases gs with
  | nil => exact hr.endsDigits 16
  | cons g gs => exact endsDigits_cons (by simp [digit?])

/-- Nothing is read where the groups are over. -/
theorem readGroups_of_closes (zeros : Bool) (limit : Nat) (first : Bool) {rest : List Char}
    (hr : Closes rest) : readGroups zeros limit first rest = ⟨[], false, rest⟩ := by
  cases limit with
  | zero => rfl
  | succ limit =>
    have hdot := readDotted_eq_none zeros (l := []) (by simp) hr
    have hread : read group rest = none := read_eq_none_of_endsDigits (hr.endsDigits 16)
    cases first with
    | true =>
      rw [List.nil_append] at hdot
      simp [readGroups, afterSeparator, hdot, hread]
    | false =>
      cases hr with
      | nil => simp [readGroups, afterSeparator, expect]
      | slash cs => simp [readGroups, afterSeparator, expect]
      | zeros cs =>
        have h1 : read group (':' :: cs) = none :=
          read_eq_none_of_endsDigits (endsDigits_cons (by simp [digit?]))
        have h2 : readDotted zeros (':' :: cs) = none :=
          readDotted_of_endsDigits zeros (endsDigits_cons (by simp [digit?]))
        simp [readGroups, afterSeparator, expect, h1, h2]

theorem readGroups_followingGroups (zeros : Bool) (limit : Nat) {gs : List Nat}
    (hl : gs.length ≤ limit) (hg : ∀ g ∈ gs, g < 2 ^ 16) {rest : List Char} (hr : Closes rest) :
    readGroups zeros limit false (followingGroups gs ++ rest) = ⟨gs, false, rest⟩ := by
  induction gs generalizing limit with
  | nil => exact readGroups_of_closes zeros limit false hr
  | cons g gs ih =>
    cases limit with
    | zero => simp at hl
    | succ limit =>
      have h1 := read_group (hg g List.mem_cons_self) (endsDigits_followingGroups gs hr)
      have h2 := ih limit (by simpa using hl) fun x hx =>
        hg x (List.mem_cons_of_mem g hx)
      have h3 : readDotted zeros (Nat.toDigits 16 g ++ (followingGroups gs ++ rest)) = none := by
        rw [← List.append_assoc]
        refine readDotted_eq_none zeros ?_ hr
        rw [List.mem_append, not_or]
        exact ⟨dot_not_mem_toDigits (by decide) (by decide) g, dot_not_mem_followingGroups gs⟩
      have hcs : followingGroups (g :: gs) ++ rest
          = ':' :: (Nat.toDigits 16 g ++ (followingGroups gs ++ rest)) := by
        simp [followingGroups]
      rw [hcs]
      simp [readGroups, afterSeparator, expect, h1, h2, h3]

/-- Groups are read back, if there is room for them. -/
theorem readGroups_groups (zeros : Bool) (limit : Nat) {gs : List Nat} (hl : gs.length ≤ limit)
    (hg : ∀ g ∈ gs, g < 2 ^ 16) {rest : List Char} (hr : Closes rest) :
    readGroups zeros limit true (groups gs ++ rest) = ⟨gs, false, rest⟩ := by
  cases gs with
  | nil => exact readGroups_of_closes zeros limit true hr
  | cons g gs =>
    cases limit with
    | zero => simp at hl
    | succ limit =>
      have h1 := read_group (hg g List.mem_cons_self) (endsDigits_followingGroups gs hr)
      have h2 := readGroups_followingGroups zeros limit (by simpa using hl)
        (fun x hx => hg x (List.mem_cons_of_mem g hx)) hr
      have h3 : readDotted zeros (Nat.toDigits 16 g ++ (followingGroups gs ++ rest)) = none := by
        rw [← List.append_assoc]
        refine readDotted_eq_none zeros ?_ hr
        rw [List.mem_append, not_or]
        exact ⟨dot_not_mem_toDigits (by decide) (by decide) g, dot_not_mem_followingGroups gs⟩
      rw [groups_cons, List.append_assoc]
      simp [readGroups, afterSeparator, h1, h2, h3]

/-! ### Zeros that are left out -/

theorem take_zeroRun (gs : List Nat) : gs.take (zeroRun gs) = List.replicate (zeroRun gs) 0 := by
  induction gs with
  | nil => rfl
  | cons g gs ih =>
    by_cases hg : g = 0
    · rw [hg, zeroRun, List.takeWhile_cons_of_pos rfl, List.length_cons, List.take_succ_cons,
        List.replicate_succ]
      exact congrArg _ ih
    · rw [zeroRun, List.takeWhile_cons_of_neg (by simpa using hg)]
      rfl

theorem zeroRun_le (gs : List Nat) : zeroRun gs ≤ gs.length :=
  (List.takeWhile_prefix _).length_le

/-- The longest run of zeros is a run of zeros. -/
theorem longestZeroRun_spec (gs : List Nat) :
    (longestZeroRun gs).1 + (longestZeroRun gs).2 ≤ gs.length ∧
      (gs.drop (longestZeroRun gs).1).take (longestZeroRun gs).2
        = List.replicate (longestZeroRun gs).2 0 := by
  induction gs with
  | nil => exact ⟨Nat.le_refl 0, rfl⟩
  | cons g gs ih =>
    rw [longestZeroRun]
    split
    · refine ⟨?_, take_zeroRun (g :: gs)⟩
      rw [Nat.zero_add]
      exact zeroRun_le (g :: gs)
    · refine ⟨?_, ih.2⟩
      have := ih.1
      simp only [List.length_cons]
      omega

/-- The groups are those before the longest run of zeros, the zeros, and those after it. -/
theorem eq_take_append_zeros_append_drop (gs : List Nat) :
    gs = gs.take (longestZeroRun gs).1 ++ List.replicate (longestZeroRun gs).2 0
      ++ gs.drop ((longestZeroRun gs).1 + (longestZeroRun gs).2) := by
  have h := (longestZeroRun_spec gs).2
  rw [← h, List.append_assoc, ← List.drop_drop, List.take_append_drop, List.take_append_drop]

/-- Eight groups are read back, whether a run of zeros is left out or not. -/
theorem readSixteen_compressed (zeros : Bool) {gs : List Nat} (hl : gs.length = 8)
    (hg : ∀ g ∈ gs, g < 2 ^ 16) {rest : List Char} (hr : Closes rest) :
    readSixteen zeros (compressed gs ++ rest) = some (gs, rest) := by
  rw [compressed]
  split
  · next h2 =>
    obtain ⟨hle, -⟩ := longestZeroRun_spec gs
    have heq := eq_take_append_zeros_append_drop gs
    generalize hrun : longestZeroRun gs = run at *
    obtain ⟨start, count⟩ := run
    simp only at h2 hle heq ⊢
    have hhead : (gs.take start).length = start := by rw [List.length_take]; omega
    have htail : (gs.drop (start + count)).length = 8 - (start + count) := by
      rw [List.length_drop, hl]
    have h1 := readGroups_groups zeros 8 (show (gs.take start).length ≤ 8 by omega)
      (fun g h => hg g (List.mem_of_mem_take h)) (.zeros (groups (gs.drop (start + count)) ++ rest))
    have h3 := readGroups_groups zeros (7 - start)
      (show (gs.drop (start + count)).length ≤ 7 - start by omega)
      (fun g h => hg g (List.mem_of_mem_drop h)) hr
    have hgap : 8 - start - (8 - (start + count)) = count := by omega
    have hne : start ≠ 8 := by omega
    simp only [readSixteen, List.append_assoc, List.cons_append, List.nil_append, h1, hhead, hne,
      if_false, Bool.false_eq_true, expect, if_true]
    simp [h3, htail, hgap, ← List.append_assoc, ← heq]
  · have h1 := readGroups_groups zeros 8 (by omega) hg hr
    simp [readSixteen, h1, hl]

/-! ### Mapped addresses -/

/-- A mapped address is read back from its dotted form. -/
theorem readSixteen_mapped (zeros : Bool) {value : Nat} (hv : value < 2 ^ 32) {rest : List Char}
    (hr : EndsDigits 10 rest) :
    readSixteen zeros ("::ffff:".toList ++ dotted value ++ rest)
      = some ([0, 0, 0, 0, 0, 0xffff] ++ parts 16 2 value, rest) := by
  have hquad := readDotted_dotted zeros hv hr
  have hlen := length_parts 16 2 value
  have hfull : readDotted zeros ('f' :: 'f' :: 'f' :: 'f' :: ':' :: (dotted value ++ rest)) = none :=
    readDotted_of_endsDigits zeros (endsDigits_cons (by decide))
  have hffff : Numeral.read group ('f' :: 'f' :: 'f' :: 'f' :: ':' :: (dotted value ++ rest))
      = some (0xffff, ':' :: (dotted value ++ rest)) := by
    have hends : EndsDigits 16 (':' :: (dotted value ++ rest)) :=
      endsDigits_cons (by simp [digit?])
    exact read_group (g := 0xffff) (by decide) hends
  have hhead := readGroups_of_closes zeros 8 true
    (.zeros ('f' :: 'f' :: 'f' :: 'f' :: ':' :: (dotted value ++ rest)))
  have htail : readGroups zeros 7 true ('f' :: 'f' :: 'f' :: 'f' :: ':' :: (dotted value ++ rest))
      = ⟨0xffff :: parts 16 2 value, true, rest⟩ := by
    simp [readGroups, afterSeparator, hfull, hffff, expect, hquad]
  have hstr : "::ffff:".toList ++ dotted value ++ rest
      = ':' :: ':' :: 'f' :: 'f' :: 'f' :: 'f' :: ':' :: (dotted value ++ rest) := by simp
  rw [hstr]
  simp [readSixteen, hhead, expect, htail, hlen]

/-! ## Both versions -/

theorem dot_not_mem_compressed (gs : List Nat) : '.' ∉ compressed gs := by
  have hgroups : ∀ hs : List Nat, '.' ∉ groups hs := by
    intro hs
    cases hs with
    | nil => simp [groups, separated]
    | cons h hs =>
      rw [groups_cons, List.mem_append, not_or]
      exact ⟨dot_not_mem_toDigits (by decide) (by decide) h, dot_not_mem_followingGroups hs⟩
  rw [compressed]
  split
  · simp [hgroups]
  · exact hgroups gs

theorem ofParts_mapped {value : Nat} (h : value / 2 ^ 32 = 0xffff) :
    ofParts 16 ([0, 0, 0, 0, 0, 0xffff] ++ parts 16 2 (value % 2 ^ 32)) = value := by
  simp only [ofParts, parts, List.cons_append, List.nil_append, List.foldl_cons, List.foldl_nil]
  omega

theorem readAddr_chars (zeros : Bool) (a : Addr) {rest : List Char} (hr : Closes rest) :
    readAddr zeros (a.chars ++ rest) = some (a, rest) := by
  obtain ⟨f, v, hv⟩ := a
  cases f with
  | v4 =>
    have h1 : readDotted zeros (dotted v ++ rest) = some (v, rest) :=
      readDotted_dotted zeros hv (hr.endsDigits 10)
    simp [readAddr, chars, h1, ofNat?, hv]
  | v6 =>
    have hv' : v < 2 ^ 128 := hv
    by_cases hm : isMapped v = true
    · have hcolon : "::ffff:".toList = ':' :: [':', 'f', 'f', 'f', 'f', ':'] := by simp
      have h1 : readDotted zeros ("::ffff:".toList ++ dotted (v % 2 ^ 32) ++ rest) = none := by
        rw [hcolon]
        exact readDotted_of_endsDigits zeros (endsDigits_cons (by simp [digit?]))
      have hlt : v % 2 ^ 32 < 2 ^ 32 := Nat.mod_lt v (by decide)
      have h2 := readSixteen_mapped zeros hlt (hr.endsDigits 10)
      have h3 : ofParts 16 ([0, 0, 0, 0, 0, 0xffff] ++ parts 16 2 (v % 2 ^ 32)) = v :=
        ofParts_mapped (by simpa [isMapped] using hm)
      simp only [readAddr, chars, hm, if_true, h1, h2, h3, ofNat?, hv, dite_true, Option.map_some]
    · have h1 : readDotted zeros (compressed (parts 16 8 v) ++ rest) = none :=
        readDotted_eq_none zeros (dot_not_mem_compressed _) hr
      have h2 := readSixteen_compressed zeros (length_parts 16 8 v)
        (fun g hg => lt_of_mem_parts hg) hr
      have h3 : ofParts 16 (parts 16 8 v) = v := ofParts_parts hv'
      simp only [readAddr, chars, hm, Bool.false_eq_true, if_false, h1, h2, h3, ofNat?, hv,
        dite_true, Option.map_some]

/-- The text of an address denotes the address. -/
theorem parse?_text (a : Addr) : parse? a.text = some a := by
  have h := readAddr_chars false a Closes.nil
  rw [List.append_nil] at h
  simp [parse?, text, ofChars?, h]

/-- No two addresses share a text. -/
theorem text_inj {x y : Addr} (h : x.text = y.text) : x = y :=
  Option.some.inj (by rw [← parse?_text x, h, parse?_text y])

end Ipam.Addr
