import Ipam.Prefix.Text
import Ipam.Proofs.Address.Text

/-!
# Reading prefixes back

The text of a prefix is read back as the prefix, with its host bits (`parse?_text`).
-/

namespace Ipam.Prefix

open Numeral

theorem len_lt_bound (p : Prefix) : p.len < (length p.addr.family).bound := by
  have h := p.len_le
  cases hf : p.addr.family <;> rw [hf] at h <;> simp only [Family.width] at h <;>
    simp only [length] <;> omega

/-- The length of a prefix is read back. -/
theorem read_length (p : Prefix) :
    Numeral.read (length p.addr.family) (Nat.toDigits 10 p.len) = some (p.len, []) := by
  have hb := p.len_lt_bound
  have hbase : (length p.addr.family).base = 10 := by cases p.addr.family <;> rfl
  have hlen : p.len < (length p.addr.family).base ^ (length p.addr.family).maxDigits := by
    cases hf : p.addr.family <;> rw [hf] at hb <;> simp only [length] at hb ⊢ <;> omega
  have hpos : 0 < (length p.addr.family).maxDigits := by
    cases p.addr.family <;> simp [length]
  have h := read_toDigits (by omega) (by omega) hb hlen hpos
    (endsDigits_nil (length p.addr.family).base)
  rwa [hbase, List.append_nil] at h

/-- The text of a prefix denotes the prefix. -/
theorem parse?_text (p : Prefix) : parse? p.text = some p := by
  have h1 := Addr.readAddr_chars true p.addr (.slash (Nat.toDigits 10 p.len))
  have h2 := p.read_length
  simp [parse?, text, chars, ofChars?, h1, expect, h2, ofAddr?, p.len_le]

/-- No two prefixes share a text. -/
theorem text_inj {x y : Prefix} (h : x.text = y.text) : x = y :=
  Option.some.inj (by rw [← parse?_text x, h, parse?_text y])

end Ipam.Prefix
