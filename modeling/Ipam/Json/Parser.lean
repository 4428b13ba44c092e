import Ipam.Json.Basic
import Ipam.Text.Numeral

/-!
# Reading JSON

The strict notation: one value with nothing but blanks around it, no leading zeros, no trailing
commas, no raw control characters in strings, and only the known escapes. Keys that occur twice are
kept twice; what that means is for the reader of the value to say.
-/

namespace Ipam.Json

/-- A text without the blanks of the notation at its front. -/
def skipSpace (cs : List Char) : List Char :=
  cs.dropWhile fun c => c == ' ' || c == '\t' || c == '\n' || c == '\r'

/-! ## Strings -/

/-- A piece of a string literal: a character, or the code unit of a numeric escape. -/
inductive Piece where
  | char (c : Char)
  | unit (n : Nat)

/-- The character that a letter after a backslash stands for. -/
def escaped? : Char → Option Char
  | '\x22' => some '\x22'
  | '\\' => some '\\'
  | '/' => some '/'
  | 'b' => some '\x08'
  | 'f' => some '\x0c'
  | 'n' => some '\n'
  | 'r' => some '\r'
  | 't' => some '\t'
  | _ => none

/-- The number that four hexadecimal digits denote. -/
def unitOf? (a b c d : Char) : Option Nat :=
  ([a, b, c, d].mapM (Numeral.digit? 16)).map (Numeral.ofDigits 16)

/-- Reads the pieces of a string literal after its opening quote. -/
def readPieces : List Char → Option (List Piece × List Char)
  | [] => none
  | '\x22' :: cs => some ([], cs)
  | '\\' :: 'u' :: a :: b :: c :: d :: cs => do
    let n ← unitOf? a b c d
    let (ps, rest) ← readPieces cs
    return (.unit n :: ps, rest)
  | '\\' :: e :: cs => do
    let c ← escaped? e
    let (ps, rest) ← readPieces cs
    return (.char c :: ps, rest)
  | c :: cs =>
    if c.toNat < 0x20 ∨ c = '\\' then none
    else do
      let (ps, rest) ← readPieces cs
      return (.char c :: ps, rest)

/-- Whether a code unit is the first half of a surrogate pair. -/
def isHigh (n : Nat) : Bool := 0xd800 ≤ n && n < 0xdc00

/-- Whether a code unit is the second half of a surrogate pair. -/
def isLow (n : Nat) : Bool := 0xdc00 ≤ n && n < 0xe000

/-- The text that pieces make up, unless half of a surrogate pair is left over. -/
def assemble : List Piece → Option (List Char)
  | [] => some []
  | .char c :: ps => (assemble ps).map (c :: ·)
  | .unit n :: ps =>
    if isHigh n then
      match ps with
      | .unit m :: ps =>
        if isLow m then
          (assemble ps).map (Char.ofNat (0x10000 + (n - 0xd800) * 0x400 + (m - 0xdc00)) :: ·)
        else none
      | _ => none
    else if isLow n then none
    else (assemble ps).map (Char.ofNat n :: ·)

/-- Reads a string literal after its opening quote; the text is missing if it is none. -/
def readString (cs : List Char) : Option (Option String × List Char) :=
  (readPieces cs).map fun r => ((assemble r.1).map String.ofList, r.2)

/-! ## Numbers -/

/-- The decimal digits at the front of a text, and the rest. -/
def spanDigits (cs : List Char) : List Char × List Char :=
  (cs.takeWhile Char.isDigit, cs.dropWhile Char.isDigit)

/-- Reads the whole part of a number: digits without a leading zero. -/
def readWhole (cs : List Char) : Option (List Char × List Char) :=
  match spanDigits cs with
  | ([], _) => none
  | ('0' :: _ :: _, _) => none
  | r => some r

/-- Reads the fraction of a number, if a point starts one. -/
def readFraction : List Char → Option (List Char × List Char)
  | '.' :: cs =>
    match spanDigits cs with
    | ([], _) => none
    | (ds, rest) => some ('.' :: ds, rest)
  | cs => some ([], cs)

/-- Reads the exponent of a number after its letter. -/
def readPower (cs : List Char) : Option (List Char × List Char) :=
  let (sign, cs) := match cs with
    | '+' :: cs => (['+'], cs)
    | '-' :: cs => (['-'], cs)
    | cs => ([], cs)
  match spanDigits cs with
  | ([], _) => none
  | (ds, rest) => some (sign ++ ds, rest)

/-- Reads the exponent of a number, if a letter starts one. -/
def readExponent : List Char → Option (List Char × List Char)
  | 'e' :: cs => (readPower cs).map fun r => ('e' :: r.1, r.2)
  | 'E' :: cs => (readPower cs).map fun r => ('e' :: r.1, r.2)
  | cs => some ([], cs)

/-- Reads a number. -/
def readNumber (cs : List Char) : Option (Json × List Char) := do
  let (sign, cs) := match cs with
    | '-' :: cs => (['-'], cs)
    | cs => ([], cs)
  let (whole, cs) ← readWhole cs
  let (fraction, cs) ← readFraction cs
  let (power, cs) ← readExponent cs
  if sign = [] ∧ fraction = [] ∧ power = [] then
    return (.nat (Nat.ofDigitChars 10 whole 0), cs)
  else return (.decimal (String.ofList (sign ++ whole ++ fraction ++ power)), cs)

/-! ## Values -/

/-- An object with its members, unless a key is no text. -/
def ofMembers (ms : List (Option String × Json)) : Json :=
  match ms.mapM fun m => m.1.map (·, m.2) with
  | some ms => .object ms
  | none => .unpaired

mutual

/-- Reads a value at the front of a text; `fuel` bounds the steps. -/
def readValue : (fuel : Nat) → List Char → Option (Json × List Char)
  | 0, _ => none
  | fuel + 1, cs =>
    match skipSpace cs with
    | 'n' :: 'u' :: 'l' :: 'l' :: cs => some (.null, cs)
    | 't' :: 'r' :: 'u' :: 'e' :: cs => some (.bool true, cs)
    | 'f' :: 'a' :: 'l' :: 's' :: 'e' :: cs => some (.bool false, cs)
    | '\x22' :: cs =>
      (readString cs).map fun r => ((r.1.map Json.string).getD .unpaired, r.2)
    | '[' :: cs =>
      match skipSpace cs with
      | ']' :: cs => some (.array [], cs)
      | cs => (readItems fuel cs).map fun r => (.array r.1, r.2)
    | '\x7b' :: cs =>
      match skipSpace cs with
      | '\x7d' :: cs => some (.object [], cs)
      | cs => (readMembers fuel cs).map fun r => (ofMembers r.1, r.2)
    | cs => readNumber cs

/-- Reads the items of an array up to its end. -/
def readItems : (fuel : Nat) → List Char → Option (List Json × List Char)
  | 0, _ => none
  | fuel + 1, cs =>
    match readValue fuel cs with
    | none => none
    | some (v, cs) =>
      match skipSpace cs with
      | ',' :: cs => (readItems fuel cs).map fun r => (v :: r.1, r.2)
      | ']' :: cs => some ([v], cs)
      | _ => none

/-- Reads the members of an object up to its end. -/
def readMembers : (fuel : Nat) → List Char → Option (List (Option String × Json) × List Char)
  | 0, _ => none
  | fuel + 1, cs =>
    match skipSpace cs with
    | '\x22' :: cs =>
      match readString cs with
      | none => none
      | some (key, cs) =>
        match skipSpace cs with
        | ':' :: cs =>
          match readValue fuel cs with
          | none => none
          | some (v, cs) =>
            match skipSpace cs with
            | ',' :: cs => (readMembers fuel cs).map fun r => ((key, v) :: r.1, r.2)
            | '\x7d' :: cs => some ([(key, v)], cs)
            | _ => none
        | _ => none
    | _ => none

end

/-- The value that a text denotes. -/
def ofChars? (cs : List Char) : Option Json :=
  match readValue (2 * cs.length + 2) cs with
  | some (v, cs) => if skipSpace cs = [] then some v else none
  | none => none

/-- The value that a text denotes. -/
def parse? (s : String) : Option Json := ofChars? s.toList

end Ipam.Json
