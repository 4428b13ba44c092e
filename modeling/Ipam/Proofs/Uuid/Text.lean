import Ipam.Proofs.Text.Numeral
import Ipam.Uuid

/-!
# Reading identifiers back

The text of an identifier is read back as the identifier (`parse_text`): it consists of five groups
of hexadecimal digits with hyphens between them, and its digits are those of the number.
-/

namespace Ipam.Uuid

open Numeral

/-- Whether all characters of a text are hexadecimal digits as they are written. -/
def IsHex (cs : List Char) : Prop := ∀ c ∈ cs, ∃ d < 16, c = Nat.digitChar d

section

variable {cs : List Char}

theorem digitChar_facts : ∀ d < 16, Nat.digitChar d ≠ '-' ∧ Nat.digitChar d ≠ '\x7b' ∧
    (Nat.digitChar d).toLower ≠ 'u' ∧ (Nat.digitChar d).utf8Size = 1 := by decide

theorem IsHex.hyphen_not_mem (h : IsHex cs) : '-' ∉ cs := by
  intro hmem
  obtain ⟨d, hd, he⟩ := h '-' hmem
  exact (digitChar_facts d hd).1 he.symm

theorem hyphens_eq_nil (h : '-' ∉ cs) (offset : Nat) : hyphens cs offset = [] := by
  induction cs generalizing offset with
  | nil => rfl
  | cons c cs ih =>
    obtain ⟨hc, hcs⟩ := not_or.1 (mt List.mem_cons.2 h)
    rw [hyphens, if_neg (Ne.symm hc), ih hcs]

/-- The hyphens of a text that starts with a group are the one behind it and those that follow. -/
theorem hyphens_append (h : '-' ∉ cs) (rest : List Char) (offset : Nat) :
    hyphens (cs ++ '-' :: rest) offset =
      (offset + cs.length) :: hyphens rest (offset + cs.length + 1) := by
  induction cs generalizing offset with
  | nil => simp [hyphens]
  | cons c cs ih =>
    obtain ⟨hc, hcs⟩ := not_or.1 (mt List.mem_cons.2 h)
    have hoff : offset + 1 + cs.length = offset + (c :: cs).length := by simp; omega
    rw [List.cons_append, hyphens, if_neg (Ne.symm hc), ih hcs, hoff]

/-- The bytes of a text of small characters are its characters. -/
theorem byteCount_eq_length (h : ∀ c ∈ cs, c.utf8Size = 1) : byteCount cs = cs.length := by
  have hfold : ∀ n, cs.foldl (fun n c => n + c.utf8Size) n = n + cs.length := by
    induction cs with
    | nil => intro n; rfl
    | cons c cs ih =>
      intro n
      have hc := h c List.mem_cons_self
      have hcs := ih fun d hd => h d (List.mem_cons_of_mem c hd)
      rw [List.foldl_cons, hcs, hc, List.length_cons]
      omega
  rw [byteCount, hfold, Nat.zero_add]

theorem firstForeign_eq_none (h : ∀ c ∈ cs, c = '-' ∨ (digit? 16 c).isSome = true) (index : Nat) :
    firstForeign cs index = none := by
  induction cs generalizing index with
  | nil => rfl
  | cons c cs ih =>
    have hc := h c List.mem_cons_self
    rw [firstForeign, if_pos hc]
    exact ih (fun d hd => h d (List.mem_cons_of_mem c hd)) _

end

/-- The text of an identifier is five groups of its digits with hyphens between them. -/
theorem exists_groups (u : Uuid) : ∃ g₀ g₁ g₂ g₃ g₄ : List Char,
    u.chars = g₀ ++ '-' :: (g₁ ++ '-' :: (g₂ ++ '-' :: (g₃ ++ '-' :: g₄))) ∧
    g₀ ++ (g₁ ++ (g₂ ++ (g₃ ++ g₄))) = padded 16 32 u.value ∧
    g₀.length = 8 ∧ g₁.length = 4 ∧ g₂.length = 4 ∧ g₃.length = 4 ∧ g₄.length = 12 := by
  have hlen := length_padded 16 32 u.value
  refine ⟨(padded 16 32 u.value).take 8, ((padded 16 32 u.value).drop 8).take 4,
    ((padded 16 32 u.value).drop 12).take 4, ((padded 16 32 u.value).drop 16).take 4,
    (padded 16 32 u.value).drop 20, ?_, ?_, ?_, ?_, ?_, ?_, ?_⟩
  · simp [chars]
  · have hsplit : ∀ n m, ((padded 16 32 u.value).drop n).take m ++ (padded 16 32 u.value).drop (n + m) =
        (padded 16 32 u.value).drop n := by
      intro n m
      rw [← List.drop_drop]
      exact List.take_append_drop m _
    rw [hsplit 16 4, hsplit 12 4, hsplit 8 4, List.take_append_drop]
  all_goals simp [hlen]

/-- A character of the text of an identifier is a hyphen or a digit. -/
theorem mem_chars {u : Uuid} {c : Char} (h : c ∈ u.chars) :
    c = '-' ∨ ∃ d < 16, c = Nat.digitChar d := by
  obtain ⟨g₀, g₁, g₂, g₃, g₄, hchars, hdigits, -⟩ := u.exists_groups
  have hmem : c = '-' ∨ c ∈ padded 16 32 u.value := by
    rw [hchars] at h
    rw [← hdigits]
    simp only [List.mem_append, List.mem_cons] at h ⊢
    rcases h with h | h | h | h | h | h | h | h | h <;> simp [h]
  rcases hmem with rfl | hdigit
  · exact .inl rfl
  · exact .inr (exists_digit_of_mem_padded (by decide) hdigit)

/-- The text of an identifier stands in no braces and has nothing before it. -/
theorem strip?_chars (u : Uuid) : strip? u.chars = none := by
  obtain ⟨g₀, g₁, g₂, g₃, g₄, hchars, hdigits, hlen, -⟩ := u.exists_groups
  cases hg : g₀ with
  | nil => simp [hg] at hlen
  | cons c cs =>
    have hc : c ∈ padded 16 32 u.value := by simp [← hdigits, hg]
    obtain ⟨d, hd, rfl⟩ := exists_digit_of_mem_padded (by decide) hc
    obtain ⟨-, hbrace, hurn, -⟩ := digitChar_facts d hd
    obtain ⟨rest, hrest⟩ : ∃ rest, u.chars = Nat.digitChar d :: rest :=
      ⟨_, by rw [hchars, hg, List.cons_append]⟩
    have hfront : ((Nat.digitChar d :: rest).take 9).map Char.toLower ≠ "urn:uuid:".toList := by
      have hlit : "urn:uuid:".toList = 'u' :: "rn:uuid:".toList := by decide
      rw [hlit, List.take_succ_cons, List.map_cons]
      exact fun h => hurn (List.cons.inj h).1
    have hopen : (Nat.digitChar d :: rest).head? ≠ some '\x7b' := fun h => hbrace (Option.some.inj h)
    rw [hrest, strip?, if_neg (fun h => hopen h.1), if_neg hfront]

/-- Nothing is wrong with the text of an identifier. -/
theorem fault?_chars (u : Uuid) : fault? u.chars = none := by
  have hsmall : ∀ c ∈ u.chars, c.utf8Size = 1 := by
    intro c hc
    rcases mem_chars hc with rfl | ⟨d, hd, rfl⟩
    · decide
    · exact (digitChar_facts d hd).2.2.2
  have hknown : ∀ c ∈ u.chars, c = '-' ∨ (digit? 16 c).isSome = true := by
    intro c hc
    refine (mem_chars hc).imp_right ?_
    rintro ⟨d, hd, rfl⟩
    rw [digit?_digitChar (by decide) hd]
    rfl
  have hstrip := u.strip?_chars
  obtain ⟨g₀, g₁, g₂, g₃, g₄, hchars, hdigits, h₀, h₁, h₂, h₃, h₄⟩ := u.exists_groups
  have hlength : u.chars.length = 36 := by simp [hchars, h₀, h₁, h₂, h₃, h₄]
  have hmarks : hyphens u.chars 0 = [8, 13, 18, 23] := by
    have hhyphen : ∀ g, (∀ c ∈ g, c ∈ padded 16 32 u.value) → '-' ∉ g := fun g hg =>
      IsHex.hyphen_not_mem fun c hc => exists_digit_of_mem_padded (by decide) (hg c hc)
    have n₀ := hhyphen g₀ fun c hc => by simp [← hdigits, hc]
    have n₁ := hhyphen g₁ fun c hc => by simp [← hdigits, hc]
    have n₂ := hhyphen g₂ fun c hc => by simp [← hdigits, hc]
    have n₃ := hhyphen g₃ fun c hc => by simp [← hdigits, hc]
    have n₄ := hhyphen g₄ fun c hc => by simp [← hdigits, hc]
    rw [hchars, hyphens_append n₀, hyphens_append n₁, hyphens_append n₂, hyphens_append n₃,
      hyphens_eq_nil n₄, h₀, h₁, h₂, h₃]
  have hbytes : byteCount u.chars = 36 := (byteCount_eq_length hsmall).trans hlength
  have hforeign := firstForeign_eq_none hknown 0
  unfold fault?
  simp only [hbytes, hstrip, Option.getD_none, hforeign, hmarks, hlength]
  decide

/-- The digits of the text of an identifier are those of its number. -/
theorem digitsValue_chars (u : Uuid) : digitsValue u.chars = u.value := by
  obtain ⟨g₀, g₁, g₂, g₃, g₄, hchars, hdigits, -⟩ := u.exists_groups
  have hhyphen : digit? 16 '-' = none := by decide
  have hsame : u.chars.filterMap (digit? 16) = (padded 16 32 u.value).filterMap (digit? 16) := by
    rw [hchars, ← hdigits]
    simp only [List.filterMap_append, List.filterMap_cons, hhyphen]
  rw [digitsValue, hsame, ofDigits_padded (by decide) (by decide)]
  exact Nat.mod_eq_of_lt u.value_lt

/-- The text of an identifier denotes the identifier. -/
theorem parse_text (u : Uuid) : parse u.text = .ok u := by
  rw [parse, text, String.toList_ofList, ofChars, u.fault?_chars]
  simp only [u.strip?_chars, Option.getD_none, u.digitsValue_chars, u.value_lt, dif_pos]

/-- No two identifiers share a text. -/
theorem text_inj {x y : Uuid} (h : x.text = y.text) : x = y :=
  Except.ok.inj (by rw [← parse_text x, h, parse_text y])

end Ipam.Uuid
