import Ipam.Json.Parser
import Ipam.Json.Printer
import Ipam.Proofs.Text.Numeral

/-!
# Reading JSON back

A value all strings and keys of which are texts is read back from what is written of it, in any layout
that puts nothing but blanks between the parts (`parse?_write`).
-/

namespace Ipam.Json

open Numeral

/-! ## Strings -/

/-- A character as it stands in a string literal. -/
def escaped (c : Char) : List Char := (escapeChar c).toList

theorem toList_literal (s : String) :
    (literal s).toList = '\x22' :: (s.toList.flatMap escaped ++ ['\x22']) := by
  have hfold : ∀ (cs : List Char) (out : String),
      (cs.foldl (fun out c => out ++ escapeChar c) out).toList = out.toList ++ cs.flatMap escaped := by
    intro cs
    induction cs with
    | nil => intro out; simp
    | cons c cs ih =>
      intro out
      rw [List.foldl_cons, ih, String.toList_append, List.flatMap_cons, List.append_assoc]
      rfl
  have hquote : "\"".toList = ['\x22'] := by decide
  rw [literal, String.toList_append, hfold, hquote]
  rfl

theorem toList_write_string (l : Layout) (depth : Nat) (s : String) :
    (write l depth (.string s)).toList = '\x22' :: (s.toList.flatMap escaped ++ ['\x22']) := by
  rw [write, toList_literal]

/-- A control character is escaped by its number. -/
theorem unitOf?_control {n : Nat} (hn : n < 0x20) :
    unitOf? '0' '0' (Nat.digitChar (n / 16)) (Nat.digitChar (n % 16)) = some n := by
  have hzero : digit? 16 '0' = some 0 := by decide
  have hhigh := digit?_digitChar (by decide : 16 ≤ 16) (by omega : n / 16 < 16)
  have hlow := digit?_digitChar (by decide : 16 ≤ 16) (by omega : n % 16 < 16)
  have hvalue : ofDigits 16 [0, 0, n / 16, n % 16] = n := by
    simp only [ofDigits, List.foldl_cons, List.foldl_nil]
    omega
  simp only [unitOf?, List.mapM_cons, List.mapM_nil, hzero, hhigh, hlow]
  exact congrArg some hvalue

theorem readPieces_short {e c : Char} (he : escaped? e = some c) {cs rest : List Char}
    {ps : List Piece} (h : readPieces cs = some (ps, rest)) :
    readPieces ('\\' :: e :: cs) = some (.char c :: ps, rest) := by
  have hu : e ≠ 'u' := by
    rintro rfl
    cases he
  rw [readPieces]
  · simp [he, h]
  · intro a b c d cs heq
    exact absurd heq hu

theorem readPieces_unit {a b c d : Char} {n : Nat} (hn : unitOf? a b c d = some n)
    {cs rest : List Char} {ps : List Piece} (h : readPieces cs = some (ps, rest)) :
    readPieces ('\\' :: 'u' :: a :: b :: c :: d :: cs) = some (.unit n :: ps, rest) := by
  rw [readPieces]
  simp [hn, h]

theorem readPieces_char {c : Char} (hquote : c ≠ '\x22') (hback : c ≠ '\\') (hc : ¬ c.toNat < 0x20)
    {cs rest : List Char} {ps : List Piece} (h : readPieces cs = some (ps, rest)) :
    readPieces (c :: cs) = some (.char c :: ps, rest) := by
  rw [readPieces]
  · simp [hback, hc, h]
  · exact hquote
  · rintro a b d e cs' rfl
    exact absurd rfl hback
  · rintro e cs' rfl
    exact absurd rfl hback

theorem assemble_unit {n : Nat} (hn : n < 0x20) (ps : List Piece) :
    assemble (.unit n :: ps) = (assemble ps).map (Char.ofNat n :: ·) := by
  have hhigh : isHigh n = false := by simp [isHigh]; omega
  have hlow : isLow n = false := by simp [isLow]; omega
  rw [assemble.eq_def]
  simp [hhigh, hlow]

/-- A character is escaped with a letter, or it is a control character and escaped with its number, or
it stands for itself. -/
theorem escaped_cases (c : Char) :
    (∃ e, escaped? e = some c ∧ escaped c = ['\\', e]) ∨
    (c.toNat < 0x20 ∧ escaped c =
      ['\\', 'u', '0', '0', Nat.digitChar (c.toNat / 16), Nat.digitChar (c.toNat % 16)]) ∨
    (c ≠ '\x22' ∧ c ≠ '\\' ∧ ¬ c.toNat < 0x20 ∧ escaped c = [c]) := by
  by_cases hquote : c = '\x22'
  · subst hquote
    exact .inl ⟨'\x22', rfl, rfl⟩
  by_cases hback : c = '\\'
  · subst hback
    exact .inl ⟨'\\', rfl, rfl⟩
  by_cases hb : c = '\x08'
  · subst hb
    exact .inl ⟨'b', rfl, rfl⟩
  by_cases hf : c = '\x0c'
  · subst hf
    exact .inl ⟨'f', rfl, rfl⟩
  by_cases hn : c = '\n'
  · subst hn
    exact .inl ⟨'n', rfl, rfl⟩
  by_cases hr : c = '\r'
  · subst hr
    exact .inl ⟨'r', rfl, rfl⟩
  by_cases ht : c = '\t'
  · subst ht
    exact .inl ⟨'t', rfl, rfl⟩
  right
  have hescape : escaped c = (if c.toNat < 0x20 then
      "\\u00" ++ String.ofList [Nat.digitChar (c.toNat / 16), Nat.digitChar (c.toNat % 16)]
    else String.singleton c).toList := by
    rw [escaped, escapeChar, if_neg hquote, if_neg hback, if_neg hb, if_neg hf, if_neg hn,
      if_neg hr, if_neg ht]
  by_cases hcontrol : c.toNat < 0x20
  · rw [hescape, if_pos hcontrol, String.toList_append]
    exact .inl ⟨hcontrol, by simp⟩
  · rw [hescape, if_neg hcontrol]
    exact .inr ⟨hquote, hback, hcontrol, by simp⟩

/-- One character of a literal is read as one piece, which stands for it. -/
theorem readPieces_escaped (c : Char) {cs rest : List Char} {ps : List Piece}
    (h : readPieces cs = some (ps, rest)) :
    ∃ p, readPieces (escaped c ++ cs) = some (p :: ps, rest) ∧
      assemble (p :: ps) = (assemble ps).map (c :: ·) := by
  rcases escaped_cases c with ⟨e, he, hc⟩ | ⟨hcontrol, hc⟩ | ⟨hquote, hback, hcontrol, hc⟩
  · rw [hc]
    exact ⟨.char c, readPieces_short he h, rfl⟩
  · rw [hc]
    refine ⟨.unit c.toNat, readPieces_unit (unitOf?_control hcontrol) h, ?_⟩
    rw [assemble_unit hcontrol, Char.ofNat_toNat]
  · rw [hc]
    exact ⟨.char c, readPieces_char hquote hback hcontrol h, rfl⟩

/-- What stands in a literal is read up to the closing quote, and makes up the text again. -/
theorem readPieces_literal (cs rest : List Char) :
    ∃ ps, readPieces (cs.flatMap escaped ++ '\x22' :: rest) = some (ps, rest) ∧
      assemble ps = some cs := by
  induction cs with
  | nil => exact ⟨[], rfl, rfl⟩
  | cons c cs ih =>
    obtain ⟨ps, hread, hassemble⟩ := ih
    obtain ⟨p, hread', hassemble'⟩ := readPieces_escaped c hread
    refine ⟨p :: ps, ?_, ?_⟩
    · rw [List.flatMap_cons, List.append_assoc]
      exact hread'
    · rw [hassemble', hassemble]
      rfl

theorem readString_literal (s : String) (rest : List Char) :
    readString (s.toList.flatMap escaped ++ '\x22' :: rest) = some (some s, rest) := by
  obtain ⟨ps, hread, hassemble⟩ := readPieces_literal s.toList rest
  simp [readString, hread, hassemble]

/-! ## Numbers -/

/-- A text that does not go on with a part of a number. -/
def EndsNumber (cs : List Char) : Prop :=
  ∀ c ∈ cs.head?, c.isDigit = false ∧ c ≠ '.' ∧ c ≠ 'e' ∧ c ≠ 'E'

theorem digitChar_isDigit : ∀ d < 10, (Nat.digitChar d).isDigit = true := by decide

theorem digitChar_eq_zero : ∀ d < 10, Nat.digitChar d = '0' → d = 0 := by decide

theorem spanDigits_append {ds rest : List Char} (hds : ∀ c ∈ ds, c.isDigit = true)
    (hrest : EndsNumber rest) : spanDigits (ds ++ rest) = (ds, rest) := by
  have hnone : rest.takeWhile Char.isDigit = [] ∧ rest.dropWhile Char.isDigit = rest := by
    cases rest with
    | nil => exact ⟨rfl, rfl⟩
    | cons c rest =>
      have hc := (hrest c rfl).1
      simp [hc]
  rw [spanDigits, List.takeWhile_append_of_pos hds, List.dropWhile_append_of_pos hds, hnone.1,
    hnone.2, List.append_nil]

theorem readFraction_of_endsNumber {rest : List Char} (hrest : EndsNumber rest) :
    readFraction rest = some ([], rest) := by
  unfold readFraction
  split
  · exact absurd rfl (hrest '.' rfl).2.1
  · rfl

theorem readExponent_of_endsNumber {rest : List Char} (hrest : EndsNumber rest) :
    readExponent rest = some ([], rest) := by
  unfold readExponent
  split
  · exact absurd rfl (hrest 'e' rfl).2.2.1
  · exact absurd rfl (hrest 'E' rfl).2.2.2
  · rfl

theorem isDigit_of_mem_toDigits {n : Nat} {c : Char} (hc : c ∈ Nat.toDigits 10 n) :
    c.isDigit = true := by
  obtain ⟨ds, he, hshort, -⟩ := exists_isShortest (by decide : 1 < 10) n
  rw [he] at hc
  obtain ⟨d, hd, rfl⟩ := List.mem_map.1 hc
  exact digitChar_isDigit d (hshort.lt d hd)

/-- A number is written with a zero in front only if it is zero. -/
theorem eq_nil_of_toDigits_zero {n : Nat} {cs : List Char} (h : Nat.toDigits 10 n = '0' :: cs) :
    cs = [] := by
  obtain ⟨ds, he, hshort, -⟩ := exists_isShortest (by decide : 1 < 10) n
  rw [h] at he
  cases ds with
  | nil => cases he
  | cons d ds =>
    obtain ⟨hd, hcs⟩ := List.cons.inj he
    have hd0 : d = 0 := digitChar_eq_zero d (hshort.lt d List.mem_cons_self) hd.symm
    rcases hshort.head with hlen | hne
    · have hnil : ds = [] := by simpa using hlen
      rw [hcs, hnil]
      rfl
    · rw [hd0] at hne
      exact absurd rfl hne

/-- A natural number is read back. -/
theorem readNumber_toDigits (n : Nat) {rest : List Char} (hrest : EndsNumber rest) :
    readNumber (Nat.toDigits 10 n ++ rest) = some (.nat n, rest) := by
  have hspan := spanDigits_append (fun c => isDigit_of_mem_toDigits (n := n)) hrest
  have hvalue : Nat.ofDigitChars 10 (Nat.toDigits 10 n) 0 = n := Nat.ofDigitChars_ten_toDigits
  have hfraction := readFraction_of_endsNumber hrest
  have hexponent := readExponent_of_endsNumber hrest
  cases hds : Nat.toDigits 10 n with
  | nil => exact absurd hds (Nat.toDigits_ne_nil)
  | cons c cs =>
    rw [hds] at hspan hvalue
    have hminus : c ≠ '-' := by
      rintro rfl
      exact absurd (isDigit_of_mem_toDigits (hds ▸ List.mem_cons_self)) (by decide)
    have hwhole : readWhole (c :: (cs ++ rest)) = some (c :: cs, rest) := by
      rw [List.cons_append] at hspan
      rw [readWhole, hspan]
      split
      · next heq => cases heq
      · next heq =>
        have hzero : c = '0' := (List.cons.inj (Prod.mk.inj heq).1).1
        have hnil : cs = [] := eq_nil_of_toDigits_zero (hzero ▸ hds)
        simp [hnil] at heq
      · rfl
    rw [List.cons_append]
    simp [readNumber, hminus, hwhole, hfraction, hexponent, hvalue]

/-! ## Blanks -/

/-- Whether there is nothing but blanks in a text. -/
def IsSpace (cs : List Char) : Prop := ∀ c ∈ cs, (c == ' ' || c == '\t' || c == '\n' || c == '\r') = true

/-- A text that does not start with a blank. -/
def StartsDark (cs : List Char) : Prop :=
  ∀ c ∈ cs.head?, (c == ' ' || c == '\t' || c == '\n' || c == '\r') = false

theorem skipSpace_append {ws : List Char} (hws : IsSpace ws) (cs : List Char) :
    skipSpace (ws ++ cs) = skipSpace cs := by
  rw [skipSpace, List.dropWhile_append_of_pos hws, skipSpace]

theorem skipSpace_of_startsDark {cs : List Char} (hcs : StartsDark cs) : skipSpace cs = cs := by
  cases cs with
  | nil => rfl
  | cons c cs =>
    have hc := hcs c rfl
    rw [skipSpace, List.dropWhile_cons, hc]
    rfl

theorem toList_pushn (s : String) (c : Char) (n : Nat) :
    (s.pushn c n).toList = s.toList ++ List.replicate n c := by
  rw [String.pushn_eq_repeat_push]
  induction n with
  | zero => simp [Nat.repeat]
  | succ n ih => rw [Nat.repeat, String.toList_push, ih, List.append_assoc, List.replicate_succ']

/-- A layout that puts nothing but blanks between the parts of a value. -/
structure Layout.IsBlank (l : Layout) : Prop where
  gap : ∀ depth, IsSpace (l.gap depth).toList
  afterColon : IsSpace l.afterColon.toList

theorem Layout.isBlank_indented : Layout.indented.IsBlank where
  gap := by
    intro depth c hc
    have htext : (Layout.indented.gap depth).toList = '\n' :: List.replicate (2 * depth) ' ' := by
      simp [Layout.indented, toList_pushn]
    rw [htext] at hc
    rcases List.mem_cons.1 hc with rfl | hc
    · rfl
    · rw [List.eq_of_mem_replicate hc]
      rfl
  afterColon := by
    intro c hc
    have htext : Layout.indented.afterColon.toList = [' '] := by decide
    rw [htext, List.mem_singleton] at hc
    rw [hc]
    rfl

/-! ## Values -/

/-- A value in which every number is a natural one and every string is a text. -/
inductive IsPlain : Json → Prop where
  | null : IsPlain .null
  | bool (b : Bool) : IsPlain (.bool b)
  | nat (n : Nat) : IsPlain (.nat n)
  | string (s : String) : IsPlain (.string s)
  | array {vs : List Json} (h : ∀ v ∈ vs, IsPlain v) : IsPlain (.array vs)
  | object {ms : List (String × Json)} (h : ∀ m ∈ ms, IsPlain m.2) : IsPlain (.object ms)

variable {l : Layout}

/-- Whether a value is read back wherever it stands, as long as there is a step left for every half
character. -/
def ReadsBack (l : Layout) (v : Json) : Prop :=
  ∀ depth fuel ws rest, IsSpace ws → EndsNumber rest →
    2 * (write l depth v).toList.length ≤ fuel →
    readValue fuel (ws ++ ((write l depth v).toList ++ rest)) = some (v, rest)

theorem readValue_space {ws : List Char} (hws : IsSpace ws) (fuel : Nat) (cs : List Char) :
    readValue fuel (ws ++ cs) = readValue fuel cs := by
  cases fuel with
  | zero => simp [readValue]
  | succ fuel => simp only [readValue, skipSpace_append hws]

/-- It is enough that a value is read back where nothing stands before it. -/
theorem ReadsBack.of_read {v : Json} (h : ∀ depth fuel rest, EndsNumber rest →
    2 * (write l depth v).toList.length ≤ fuel + 1 →
    readValue (fuel + 1) ((write l depth v).toList ++ rest) = some (v, rest))
    (hne : ∀ depth, 0 < (write l depth v).toList.length) : ReadsBack l v := by
  intro depth fuel ws rest hws hrest hfuel
  have hpos := hne depth
  obtain ⟨fuel, rfl⟩ : ∃ f, fuel = f + 1 := ⟨fuel - 1, by omega⟩
  rw [readValue_space hws]
  exact h depth fuel rest hrest hfuel

theorem readsBack_null : ReadsBack l .null := by
  have htext : ∀ depth, (write l depth .null).toList = ['n', 'u', 'l', 'l'] := by simp [write]
  refine .of_read (fun depth fuel rest hrest hfuel => ?_) fun depth => by simp [htext]
  rw [htext]
  rfl

theorem readsBack_bool (b : Bool) : ReadsBack l (.bool b) := by
  cases b with
  | true =>
    have htext : ∀ depth, (write l depth (.bool true)).toList = ['t', 'r', 'u', 'e'] := by
      simp [write]
    refine .of_read (fun depth fuel rest hrest hfuel => ?_) fun depth => by simp [htext]
    rw [htext]
    rfl
  | false =>
    have htext : ∀ depth, (write l depth (.bool false)).toList = ['f', 'a', 'l', 's', 'e'] := by
      simp [write]
    refine .of_read (fun depth fuel rest hrest hfuel => ?_) fun depth => by simp [htext]
    rw [htext]
    rfl

theorem readsBack_string (s : String) : ReadsBack l (.string s) := by
  refine .of_read (fun depth fuel rest hrest hfuel => ?_) fun depth => by
    simp [toList_write_string]
  rw [toList_write_string, List.cons_append, List.append_assoc, readValue]
  show (readString (s.toList.flatMap escaped ++ '\x22' :: rest)).map _ = _
  rw [readString_literal]
  rfl

theorem digitChar_dark : ∀ d < 10, (Nat.digitChar d == ' ' || Nat.digitChar d == '\t' ||
    Nat.digitChar d == '\n' || Nat.digitChar d == '\r') = false ∧
    Nat.digitChar d ∉ ['n', 't', 'f', '\x22', '[', '\x7b', ']', '\x7d'] := by decide

/-- The first digit of a number. -/
theorem exists_toDigits_cons (n : Nat) :
    ∃ d cs, d < 10 ∧ Nat.toDigits 10 n = Nat.digitChar d :: cs := by
  obtain ⟨ds, he, hshort, -⟩ := exists_isShortest (by decide : 1 < 10) n
  cases ds with
  | nil => exact absurd rfl hshort.ne_nil
  | cons d ds => exact ⟨d, ds.map Nat.digitChar, hshort.lt d List.mem_cons_self, he⟩

/-- What starts with a digit is read as a number. -/
theorem readValue_digit {d : Nat} (hd : d < 10) (fuel : Nat) (cs : List Char) :
    readValue (fuel + 1) (Nat.digitChar d :: cs) = readNumber (Nat.digitChar d :: cs) := by
  obtain ⟨hdark, hno⟩ := digitChar_dark d hd
  have hskip : skipSpace (Nat.digitChar d :: cs) = Nat.digitChar d :: cs :=
    skipSpace_of_startsDark fun c hc => Option.some.inj hc ▸ hdark
  rw [readValue, hskip]
  split
  all_goals first
    | rfl
    | (next heq =>
        rw [(List.cons.inj heq).1] at hno
        exact absurd (by decide) hno)

theorem readsBack_nat (n : Nat) : ReadsBack l (.nat n) := by
  have htext : ∀ depth, (write l depth (.nat n)).toList = Nat.toDigits 10 n := by
    intro depth
    rw [write]
    exact Nat.toList_repr
  obtain ⟨d, cs, hd, hdigits⟩ := exists_toDigits_cons n
  refine .of_read (fun depth fuel rest hrest hfuel => ?_) fun depth => by simp [htext, hdigits]
  rw [htext]
  have hread := readNumber_toDigits n hrest
  rw [hdigits, List.cons_append] at hread ⊢
  rw [readValue_digit hd, hread]

/-! ## Arrays and objects -/

theorem isSpace_nil : IsSpace [] := fun _ h => nomatch h

theorem endsNumber_append {ws cs : List Char} (hws : IsSpace ws) (hcs : EndsNumber cs) :
    EndsNumber (ws ++ cs) := by
  cases ws with
  | nil => exact hcs
  | cons w ws =>
    intro c hc
    obtain rfl : w = c := by simpa using hc
    have hw := hws w List.mem_cons_self
    simp only [Bool.or_eq_true, beq_iff_eq] at hw
    rcases hw with ((rfl | rfl) | rfl) | rfl <;> decide

/-- Nothing that ends an item, a member or a value goes on with a number. -/
theorem endsNumber_cons {c : Char} (hc : c ∈ [',', ']', '\x7d']) (cs : List Char) :
    EndsNumber (c :: cs) := by
  intro d hd
  obtain rfl : c = d := by simpa using hd
  simp only [List.mem_cons, List.not_mem_nil, or_false] at hc
  rcases hc with rfl | rfl | rfl <;> decide

theorem toList_write_array (depth : Nat) (v : Json) (vs : List Json) :
    (write l depth (.array (v :: vs))).toList =
      '[' :: ((l.gap (depth + 1)).toList ++ ((write l (depth + 1) v).toList ++
        ((writeItems l depth vs).toList ++ [']']))) := by
  simp [write]

theorem toList_writeItems_cons (depth : Nat) (v : Json) (vs : List Json) :
    (writeItems l depth (v :: vs)).toList =
      ',' :: ((l.gap (depth + 1)).toList ++ ((write l (depth + 1) v).toList ++
        (writeItems l depth vs).toList)) := by
  simp [writeItems]

theorem toList_write_object (depth : Nat) (k : String) (v : Json) (ms : List (String × Json)) :
    (write l depth (.object ((k, v) :: ms))).toList =
      '\x7b' :: ((l.gap (depth + 1)).toList ++ ((literal k).toList ++ ':' ::
        (l.afterColon.toList ++ ((write l (depth + 1) v).toList ++
          ((writeMembers l depth ms).toList ++ ['\x7d']))))) := by
  simp [write]

theorem toList_writeMembers_cons (depth : Nat) (k : String) (v : Json)
    (ms : List (String × Json)) :
    (writeMembers l depth ((k, v) :: ms)).toList =
      ',' :: ((l.gap (depth + 1)).toList ++ ((literal k).toList ++ ':' ::
        (l.afterColon.toList ++ ((write l (depth + 1) v).toList ++
          (writeMembers l depth ms).toList)))) := by
  simp [writeMembers]

/-- The text of a value starts with a character that is no blank and closes no array. -/
theorem IsPlain.exists_head {v : Json} (hv : IsPlain v) (depth : Nat) :
    ∃ c cs, (write l depth v).toList = c :: cs ∧
      (c == ' ' || c == '\t' || c == '\n' || c == '\r') = false ∧ c ≠ ']' := by
  cases hv with
  | null => exact ⟨'n', ['u', 'l', 'l'], by simp [write], by decide⟩
  | bool b =>
    cases b with
    | true => exact ⟨'t', ['r', 'u', 'e'], by simp [write], by decide⟩
    | false => exact ⟨'f', ['a', 'l', 's', 'e'], by simp [write], by decide⟩
  | nat n =>
    obtain ⟨d, cs, hd, hdigits⟩ := exists_toDigits_cons n
    obtain ⟨hdark, hno⟩ := digitChar_dark d hd
    refine ⟨Nat.digitChar d, cs, ?_, hdark, fun h => absurd (h ▸ hno) (by decide)⟩
    rw [write, ← hdigits]
    exact Nat.toList_repr
  | string s => exact ⟨'\x22', _, toList_write_string l depth s, by decide⟩
  | @array vs h =>
    cases vs with
    | nil => exact ⟨'[', [']'], by simp [write], by decide⟩
    | cons v vs => exact ⟨'[', _, toList_write_array depth v vs, by decide⟩
  | @object ms h =>
    cases ms with
    | nil => exact ⟨'\x7b', ['\x7d'], by simp [write], by decide⟩
    | cons m ms => exact ⟨'\x7b', _, toList_write_object depth m.1 m.2 ms, by decide⟩

/-! Reading what is between two items, and after the last. -/

theorem readItems_more {fuel : Nat} {cs rest rest' : List Char} {v : Json}
    (hread : readValue fuel cs = some (v, rest)) (hskip : skipSpace rest = ',' :: rest') :
    readItems (fuel + 1) cs = (readItems fuel rest').map fun r => (v :: r.1, r.2) := by
  simp only [readItems, hread, hskip]

theorem readItems_last {fuel : Nat} {cs rest rest' : List Char} {v : Json}
    (hread : readValue fuel cs = some (v, rest)) (hskip : skipSpace rest = ']' :: rest') :
    readItems (fuel + 1) cs = some ([v], rest') := by
  simp only [readItems, hread, hskip]

theorem skipSpace_literal {ws : List Char} (hws : IsSpace ws) (k : String) (cs : List Char) :
    skipSpace (ws ++ ((literal k).toList ++ cs)) =
      '\x22' :: (k.toList.flatMap escaped ++ '\x22' :: cs) := by
  rw [skipSpace_append hws, toList_literal, List.cons_append, List.append_assoc,
    List.singleton_append]
  rfl

theorem skipSpace_colon (cs : List Char) : skipSpace (':' :: cs) = ':' :: cs := rfl

theorem readMembers_more {fuel : Nat} {ws : List Char} (hws : IsSpace ws) (k : String)
    {cs rest rest' : List Char} {v : Json} (hread : readValue fuel cs = some (v, rest))
    (hskip : skipSpace rest = ',' :: rest') :
    readMembers (fuel + 1) (ws ++ ((literal k).toList ++ ':' :: cs)) =
      (readMembers fuel rest').map fun r => ((some k, v) :: r.1, r.2) := by
  simp only [readMembers, skipSpace_literal hws, readString_literal, skipSpace_colon, hread, hskip]

theorem readMembers_last {fuel : Nat} {ws : List Char} (hws : IsSpace ws) (k : String)
    {cs rest rest' : List Char} {v : Json} (hread : readValue fuel cs = some (v, rest))
    (hskip : skipSpace rest = '\x7d' :: rest') :
    readMembers (fuel + 1) (ws ++ ((literal k).toList ++ ':' :: cs)) =
      some ([(some k, v)], rest') := by
  simp only [readMembers, skipSpace_literal hws, readString_literal, skipSpace_colon, hread, hskip]

/-- The items of an array are read one after the other. -/
theorem readItems_write (hl : l.IsBlank) (depth : Nat) {v : Json} {vs : List Json}
    (hback : ∀ u ∈ v :: vs, ReadsBack l u) (fuel : Nat) {ws : List Char} (hws : IsSpace ws)
    (hfuel : 2 * ((write l (depth + 1) v).toList.length +
      (writeItems l depth vs).toList.length) + 1 ≤ fuel) (rest : List Char) :
    readItems fuel (ws ++ ((write l (depth + 1) v).toList ++
      ((writeItems l depth vs).toList ++ ']' :: rest))) = some (v :: vs, rest) := by
  obtain ⟨fuel, rfl⟩ : ∃ f, fuel = f + 1 := ⟨fuel - 1, by omega⟩
  have hread : ∀ rest, EndsNumber rest →
      readValue fuel (ws ++ ((write l (depth + 1) v).toList ++ rest)) = some (v, rest) :=
    fun rest hrest => hback v List.mem_cons_self (depth + 1) fuel ws rest hws hrest (by omega)
  induction vs generalizing v fuel ws with
  | nil =>
    rw [writeItems]
    refine readItems_last (hread _ ?_) ?_
    · exact endsNumber_append (hl.gap depth) (endsNumber_cons (by decide) rest)
    · rw [skipSpace_append (hl.gap depth)]
      rfl
  | cons u us ih =>
    rw [toList_writeItems_cons] at hfuel ⊢
    simp only [List.cons_append, List.append_assoc]
    simp only [List.length_cons, List.length_append] at hfuel
    -- the comma ends the item, and the rest is an array with one item less
    rw [readItems_more (hread _ (endsNumber_cons (by decide) _)) rfl]
    obtain ⟨fuel, rfl⟩ : ∃ f, fuel = f + 1 := ⟨fuel - 1, by omega⟩
    rw [ih (fun w hw => hback w (List.mem_cons_of_mem _ hw)) (hl.gap (depth + 1)) fuel (by omega)]
    · rfl
    · intro rest hrest
      exact hback u (by simp) (depth + 1) fuel _ rest (hl.gap _) hrest (by omega)

/-- The members of an object are read one after the other. -/
theorem readMembers_write (hl : l.IsBlank) (depth : Nat) {k : String} {v : Json}
    {ms : List (String × Json)} (hback : ∀ m ∈ (k, v) :: ms, ReadsBack l m.2) (fuel : Nat)
    {ws : List Char} (hws : IsSpace ws)
    (hfuel : 2 * ((write l (depth + 1) v).toList.length +
      (writeMembers l depth ms).toList.length) + 1 ≤ fuel) (rest : List Char) :
    readMembers fuel (ws ++ ((literal k).toList ++ ':' :: (l.afterColon.toList ++
      ((write l (depth + 1) v).toList ++ ((writeMembers l depth ms).toList ++
        '\x7d' :: rest))))) =
      some (((k, v) :: ms).map fun m => (some m.1, m.2), rest) := by
  obtain ⟨fuel, rfl⟩ : ∃ f, fuel = f + 1 := ⟨fuel - 1, by omega⟩
  have hread : ∀ rest, EndsNumber rest →
      readValue fuel (l.afterColon.toList ++ ((write l (depth + 1) v).toList ++ rest)) =
        some (v, rest) := by
    intro rest hrest
    refine hback (k, v) List.mem_cons_self (depth + 1) fuel _ rest hl.afterColon hrest ?_
    show 2 * (write l (depth + 1) v).toList.length ≤ fuel
    omega
  induction ms generalizing k v fuel ws with
  | nil =>
    rw [writeMembers]
    refine readMembers_last hws k (hread _ ?_) ?_
    · exact endsNumber_append (hl.gap depth) (endsNumber_cons (by decide) rest)
    · rw [skipSpace_append (hl.gap depth)]
      rfl
  | cons m ms ih =>
    obtain ⟨k', v'⟩ := m
    rw [toList_writeMembers_cons] at hfuel ⊢
    simp only [List.cons_append, List.append_assoc]
    simp only [List.length_cons, List.length_append] at hfuel
    rw [readMembers_more hws k (hread _ (endsNumber_cons (by decide) _)) rfl]
    obtain ⟨fuel, rfl⟩ : ∃ f, fuel = f + 1 := ⟨fuel - 1, by omega⟩
    rw [ih (fun w hw => hback w (List.mem_cons_of_mem _ hw)) (hl.gap (depth + 1)) fuel (by omega)]
    · rfl
    · intro rest hrest
      refine hback (k', v') (by simp) (depth + 1) fuel _ rest hl.afterColon hrest ?_
      show 2 * (write l (depth + 1) v').toList.length ≤ fuel
      omega

/-- An array that does not end at once is read as its items. -/
theorem readValue_array {cs ws : List Char} (hws : IsSpace ws) (hdark : StartsDark cs)
    (hclose : cs.head? ≠ some ']') (fuel : Nat) :
    readValue (fuel + 1) ('[' :: (ws ++ cs)) =
      (readItems fuel cs).map fun r => (.array r.1, r.2) := by
  have hopen : skipSpace ('[' :: (ws ++ cs)) = '[' :: (ws ++ cs) := rfl
  have hskip : skipSpace (ws ++ cs) = cs := by
    rw [skipSpace_append hws, skipSpace_of_startsDark hdark]
  simp only [readValue, hopen, hskip]
  split
  · next cs => exact absurd rfl hclose
  · rfl

/-- An object with a member is read as its members. -/
theorem readValue_object {ws : List Char} (hws : IsSpace ws) (k : String) (cs : List Char)
    (fuel : Nat) :
    readValue (fuel + 1) ('\x7b' :: (ws ++ ((literal k).toList ++ cs))) =
      (readMembers fuel ((literal k).toList ++ cs)).map fun r => (ofMembers r.1, r.2) := by
  have hopen : skipSpace ('\x7b' :: (ws ++ ((literal k).toList ++ cs))) =
      '\x7b' :: (ws ++ ((literal k).toList ++ cs)) := rfl
  have hskip : skipSpace (ws ++ ((literal k).toList ++ cs)) = (literal k).toList ++ cs := by
    rw [skipSpace_append hws, toList_literal]
    rfl
  simp only [readValue, hopen, hskip]
  split
  · next heq =>
    rw [toList_literal] at heq
    cases heq
  · rfl

theorem ofMembers_map_some (ms : List (String × Json)) :
    ofMembers (ms.map fun m => (some m.1, m.2)) = .object ms := by
  have hall : (ms.map fun m => (some m.1, m.2)).mapM
      (fun m : Option String × Json => m.1.map (·, m.2)) = some ms := by
    induction ms with
    | nil => rfl
    | cons m ms ih => simp [List.mapM_cons, ih]
  rw [ofMembers, hall]

theorem readsBack_array (hl : l.IsBlank) {vs : List Json} (hplain : ∀ v ∈ vs, IsPlain v)
    (hback : ∀ v ∈ vs, ReadsBack l v) : ReadsBack l (.array vs) := by
  cases vs with
  | nil =>
    have htext : ∀ depth, (write l depth (.array [])).toList = ['[', ']'] := by simp [write]
    refine .of_read (fun depth fuel rest hrest hfuel => ?_) fun depth => by simp [htext]
    rw [htext]
    rfl
  | cons v vs =>
    refine .of_read (fun depth fuel rest hrest hfuel => ?_) fun depth => by
      simp [toList_write_array]
    rw [toList_write_array] at hfuel ⊢
    simp only [List.cons_append, List.append_assoc, List.nil_append]
    simp only [List.length_cons, List.length_append, List.length_nil] at hfuel
    obtain ⟨c, cs, hhead, hdark, hclose⟩ :=
      (hplain v List.mem_cons_self).exists_head (l := l) (depth + 1)
    have hitems := readItems_write hl depth hback fuel isSpace_nil (by omega) rest
    rw [List.nil_append] at hitems
    rw [readValue_array (hl.gap _), hitems]
    · rfl
    · rw [hhead]
      exact fun d hd => Option.some.inj hd ▸ hdark
    · rw [hhead]
      exact fun heq => hclose (Option.some.inj heq)

theorem readsBack_object (hl : l.IsBlank) {ms : List (String × Json)}
    (hback : ∀ m ∈ ms, ReadsBack l m.2) : ReadsBack l (.object ms) := by
  cases ms with
  | nil =>
    have htext : ∀ depth, (write l depth (.object [])).toList = ['\x7b', '\x7d'] := by
      simp [write]
    refine .of_read (fun depth fuel rest hrest hfuel => ?_) fun depth => by simp [htext]
    rw [htext]
    rfl
  | cons m ms =>
    obtain ⟨k, v⟩ := m
    refine .of_read (fun depth fuel rest hrest hfuel => ?_) fun depth => by
      simp [toList_write_object]
    rw [toList_write_object] at hfuel ⊢
    simp only [List.cons_append, List.append_assoc, List.nil_append]
    simp only [List.length_cons, List.length_append, List.length_nil] at hfuel
    have hmembers := readMembers_write hl depth hback fuel isSpace_nil (by omega) rest
    rw [List.nil_append] at hmembers
    rw [readValue_object (hl.gap _), hmembers]
    show some (ofMembers _, rest) = _
    rw [ofMembers_map_some]

/-- Every plain value is read back wherever it stands. -/
theorem IsPlain.readsBack (hl : l.IsBlank) {v : Json} (hv : IsPlain v) : ReadsBack l v := by
  induction hv with
  | null => exact readsBack_null
  | bool b => exact readsBack_bool b
  | nat n => exact readsBack_nat n
  | string s => exact readsBack_string s
  | array hplain ih => exact readsBack_array hl hplain ih
  | object hplain ih => exact readsBack_object hl ih

/-- A plain value is what its text denotes. -/
theorem parse?_write (hl : l.IsBlank) {v : Json} (hv : IsPlain v) :
    parse? (write l 0 v) = some v := by
  have hread := hv.readsBack hl 0 (2 * (write l 0 v).toList.length + 2) [] [] isSpace_nil
    (fun _ h => nomatch h) (by omega)
  rw [List.nil_append, List.append_nil] at hread
  rw [parse?, ofChars?, hread]
  rfl

/-- The pretty text of a plain value denotes it. -/
theorem parse?_pretty {v : Json} (hv : IsPlain v) : parse? v.pretty = some v :=
  parse?_write Layout.isBlank_indented hv

end Ipam.Json
