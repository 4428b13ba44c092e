import Ipam.Address.Text
import Ipam.Prefix.Basic

/-!
# The text of prefixes

A prefix is written as its address, a slash and its length. Reading admits leading zeros in the
length, of at most two digits for version 4 and three for version 6, and in the octets of the
address.
-/

namespace Ipam.Prefix

open Numeral

/-- The text of a prefix. -/
def chars (p : Prefix) : List Char :=
  p.addr.chars ++ '/' :: Nat.toDigits 10 p.len

/-- The text of a prefix. -/
def text (p : Prefix) : String := String.ofList p.chars

/-- The spellings of the length of a prefix. -/
def length : Family → Spelling
  | .v4 => ⟨10, 2, 33, true⟩
  | .v6 => ⟨10, 3, 129, true⟩

/-- The prefix that a text denotes. -/
def ofChars? (cs : List Char) : Option Prefix := do
  let (a, cs) ← Addr.readAddr true cs
  let cs ← expect '/' cs
  let (len, cs) ← read (length a.family) cs
  if cs = [] then ofAddr? a len else none

/-- The prefix that a text denotes. -/
def parse? (s : String) : Option Prefix := ofChars? s.toList

end Ipam.Prefix
