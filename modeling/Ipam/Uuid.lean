import Ipam.Text.Numeral
import Ipam.Text.Quoted

/-!
# Universally unique identifiers

An identifier is a number of 128 bits, written as 32 lower-case hexadecimal digits in groups of 8,
4, 4, 4 and 12 with hyphens between them. Reading admits digits in either case, the 32 digits
without hyphens, and the hyphenated form in braces or after `urn:uuid:`. What is wrong with any
other text is told by `Uuid.ParseError`; lengths and places count bytes.
-/

namespace Ipam

/-- A 128-bit identifier. -/
structure Uuid where
  /-- The identifier as a number, its first digit most significant. -/
  value : Nat
  /-- The number has at most 128 bits. -/
  value_lt : value < 2 ^ 128
  deriving DecidableEq

namespace Uuid

/-- What is wrong with the text of an identifier. -/
inductive ParseError where
  /-- The text has `found` bytes and none of the forms has that many. -/
  | length (found : Nat)
  /-- The character at a place is neither a hexadecimal digit nor a hyphen. -/
  | character (c : Char) (index : Nat)
  /-- There are `found` groups. -/
  | groupCount (found : Nat)
  /-- A group has the wrong count of digits. -/
  | groupLength (group expected found : Nat)
  deriving DecidableEq

/-- The wording of a parse error. -/
def ParseError.message : ParseError → String
  | .length found => s!"invalid length: found {found}"
  | .character c index =>
    "invalid character: found \x60" ++ String.singleton c ++ s!"\x60 at {index}"
  | .groupCount found => s!"invalid group count: expected 5, found {found}"
  | .groupLength group expected found =>
    s!"invalid group length in group {group}: expected {expected}, found {found}"

/-! ## Writing -/

/-- The text of an identifier. -/
def chars (u : Uuid) : List Char :=
  let ds := Numeral.padded 16 32 u.value
  ds.take 8 ++ '-' :: (ds.drop 8).take 4 ++ '-' :: (ds.drop 12).take 4
    ++ '-' :: (ds.drop 16).take 4 ++ '-' :: ds.drop 20

/-- The text of an identifier. -/
def text (u : Uuid) : String := String.ofList u.chars

/-- The version, its thirteenth digit. -/
def version (u : Uuid) : Nat := u.value / 2 ^ 76 % 16

/-! ## Making -/

/-- The identifier of version 7 for a time, in milliseconds after the start of 1970, and 74 random
bits. Identifiers of later times are greater. -/
def timeOrdered (millis random : Nat) : Uuid where
  value := millis % 2 ^ 48 * 2 ^ 80 + 7 * 2 ^ 76 + random / 2 ^ 62 % 2 ^ 12 * 2 ^ 64 + 2 ^ 63
    + random % 2 ^ 62
  value_lt := by omega

theorem version_timeOrdered (millis random : Nat) : (timeOrdered millis random).version = 7 := by
  simp only [version, timeOrdered]
  omega

/-! ## Reading -/

/-- The count of bytes of a text. -/
def byteCount (cs : List Char) : Nat := cs.foldl (fun n c => n + c.utf8Size) 0

/-- A text without braces around it, or without `urn:uuid:` in any case before it, and the count of
characters taken from its front; `none` if it has neither. -/
def strip? (cs : List Char) : Option (List Char × Nat) :=
  if cs.head? = some '\x7b' ∧ cs.getLast? = some '\x7d' ∧ 2 ≤ cs.length then
    some ((cs.drop 1).dropLast, 1)
  else if (cs.take 9).map Char.toLower = "urn:uuid:".toList then some (cs.drop 9, 9)
  else none

/-- The first character that is neither a hexadecimal digit nor a hyphen, and its place. -/
def firstForeign : List Char → (index : Nat) → Option (Char × Nat)
  | [], _ => none
  | c :: cs, index =>
    if c = '-' ∨ (Numeral.digit? 16 c).isSome then firstForeign cs (index + c.utf8Size)
    else some (c, index)

/-- The offsets of the hyphens of a text. -/
def hyphens : List Char → (offset : Nat) → List Nat
  | [], _ => []
  | c :: cs, offset =>
    if c = '-' then offset :: hyphens cs (offset + 1) else hyphens cs (offset + 1)

/-- The first four groups: where each starts, and how many digits it has. -/
def groupShapes : List (Nat × Nat) := [(0, 8), (9, 4), (14, 4), (19, 4)]

/-- The first group that a hyphen does not end where it should, with its length. -/
def firstMisplaced : (group : Nat) → List (Nat × Nat) → List Nat → Option ParseError
  | group, (start, expected) :: shapes, at_ :: rest =>
    if at_ = start + expected then firstMisplaced (group + 1) shapes rest
    else some (.groupLength group expected (at_ - start))
  | _, _, _ => none

/-- What is wrong with a text, if anything is. -/
def fault? (cs : List Char) : Option ParseError :=
  let size := byteCount cs
  let body := (strip? cs).getD (cs, 0)
  if size = 0 ∨ 45 < size then some (.length size)
  else
    match firstForeign body.1 body.2 with
    | some (c, index) => some (.character c index)
    | none =>
      let marks := hyphens body.1 0
      if (strip? cs).isNone ∧ marks = [] then
        if size = 32 then none else some (.length size)
      else if marks.length ≠ 4 then some (.groupCount (marks.length + 1))
      else
        match firstMisplaced 0 groupShapes marks with
        | some e => some e
        | none =>
          if body.1.length = 36 then none else some (.groupLength 4 12 (size - 24))

/-- The number that the hexadecimal digits of a text denote, hyphens left out. -/
def digitsValue (cs : List Char) : Nat :=
  Numeral.ofDigits 16 (cs.filterMap (Numeral.digit? 16))

/-- The identifier that a text denotes, or what is wrong with the text. -/
def ofChars (cs : List Char) : Except ParseError Uuid :=
  match fault? cs with
  | some e => .error e
  | none =>
    let value := digitsValue ((strip? cs).getD (cs, 0)).1
    if h : value < 2 ^ 128 then .ok ⟨value, h⟩ else .error (.length (byteCount cs))

/-- The identifier that a text denotes, or what is wrong with the text. -/
def parse (s : String) : Except ParseError Uuid := ofChars s.toList

end Uuid

end Ipam
