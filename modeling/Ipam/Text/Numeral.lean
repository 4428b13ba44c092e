/-!
# Numerals

Natural numbers written in a base of at most sixteen. A grammar says which spellings of a number
it admits (`Spelling`); `read` takes the longest run of digits at the front of a text and refuses
it unless it is such a spelling. `padded` writes a number with a fixed count of digits.
-/

-- Powers of natural numbers are those of the core library, also where more algebra is imported.
attribute [instance (20000)] instPowNat
attribute [default_instance (20000)] instPowNat

namespace Ipam.Numeral

/-- The value of a digit in a base of at most sixteen. Letters count in either case. -/
def digit? (base : Nat) (c : Char) : Option Nat :=
  let n := c.toNat
  let value :=
    if 48 ≤ n ∧ n ≤ 57 then n - 48
    else if 97 ≤ n ∧ n ≤ 102 then n - 87
    else if 65 ≤ n ∧ n ≤ 70 then n - 55
    else base
  if value < base then some value else none

/-- The digits at the front of a text, and the rest of it. -/
def span (base : Nat) : List Char → List Nat × List Char
  | [] => ([], [])
  | c :: cs =>
    match digit? base c with
    | some d => (d :: (span base cs).1, (span base cs).2)
    | none => ([], c :: cs)

/-- The number that digits denote, the most significant digit first. -/
def ofDigits (base : Nat) (ds : List Nat) : Nat :=
  ds.foldl (fun n d => n * base + d) 0

/-- The spellings of a number that a grammar admits. -/
structure Spelling where
  /-- The base of the digits. -/
  base : Nat
  /-- The largest count of digits. -/
  maxDigits : Nat
  /-- The least number that is too large. -/
  bound : Nat
  /-- Whether a number of several digits may start with a zero. -/
  leadingZeros : Bool

/-- Whether a run of digits is an admitted spelling. -/
def Spelling.admits (s : Spelling) (ds : List Nat) : Bool :=
  !ds.isEmpty && decide (ds.length ≤ s.maxDigits)
    && (s.leadingZeros || ds.length == 1 || ds.head? != some 0)
    && decide (ofDigits s.base ds < s.bound)

/-- Reads a number at the front of a text; all digits that stand there belong to it. -/
def read (s : Spelling) (cs : List Char) : Option (Nat × List Char) :=
  let ds := (span s.base cs).1
  if s.admits ds then some (ofDigits s.base ds, (span s.base cs).2) else none

/-- A number written with exactly `width` digits, of which the highest are lost if it is larger. -/
def padded (base : Nat) : (width : Nat) → (n : Nat) → List Char
  | 0, _ => []
  | width + 1, n => padded base width (n / base) ++ [Nat.digitChar (n % base)]

theorem length_padded (base width n : Nat) : (padded base width n).length = width := by
  induction width generalizing n with
  | zero => rfl
  | succ width ih => simp [padded, ih]

/-- The rest of a text after its first character, if that is `c`. -/
def expect (c : Char) : List Char → Option (List Char)
  | [] => none
  | d :: cs => if c = d then some cs else none

end Ipam.Numeral
