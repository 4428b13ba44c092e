import Ipam.Address.Basic
import Ipam.Text.Numeral

/-!
# The text of addresses

A version 4 address is four decimal octets with dots between them. A version 6 address is eight
hexadecimal groups with colons between them, of which one run of zero groups may be left out as
`::`, and of which the last two may be written as a dotted quad.

Writing is canonical: lower case, no leading zeros, `::` for the longest run of at least two zero
groups and the first of the longest ones, and a dotted quad for the addresses that map version 4
into version 6, `::ffff:1.2.3.4`, only. Reading admits every spelling. The one choice left to the
reader's caller is whether the octets of a dotted quad may have leading zeros (`zeros`): they may
not in an address, but they may in a prefix.
-/

namespace Ipam.Addr

open Numeral

/-- What readers of addresses and prefixes say about a text that is neither. -/
def syntaxMessage : String := "invalid IP address syntax"

/-! ## Writing -/

/-- The number `n` cut into `count` parts of `bits` bits each, the most significant first. -/
def parts (bits : Nat) : (count : Nat) → (n : Nat) → List Nat
  | 0, _ => []
  | count + 1, n => parts bits count (n / 2 ^ bits) ++ [n % 2 ^ bits]

/-- The number whose parts of `bits` bits are given, the most significant first. -/
def ofParts (bits : Nat) (ps : List Nat) : Nat :=
  ps.foldl (fun n p => n * 2 ^ bits + p) 0

/-- Texts with a separator between them. -/
def separated (sep : Char) : List (List Char) → List Char
  | [] => []
  | [t] => t
  | t :: ts => t ++ sep :: separated sep ts

/-- Four decimal octets. -/
def dotted (value : Nat) : List Char :=
  separated '.' ((parts 8 4 value).map (Nat.toDigits 10))

/-- Hexadecimal groups without leading zeros. -/
def groups (gs : List Nat) : List Char :=
  separated ':' (gs.map (Nat.toDigits 16))

/-- The length of the run of zeros at the front of a list. -/
def zeroRun (gs : List Nat) : Nat :=
  (gs.takeWhile (· == 0)).length

/-- The start and the length of the longest run of zeros, the first of several; a list without a
zero has the empty run at its end. -/
def longestZeroRun : List Nat → Nat × Nat
  | [] => (0, 0)
  | g :: gs =>
    let here := zeroRun (g :: gs)
    let later := longestZeroRun gs
    if later.2 ≤ here then (0, here) else (later.1 + 1, later.2)

/-- Eight groups, with `::` for the longest run of at least two zeros. -/
def compressed (gs : List Nat) : List Char :=
  let run := longestZeroRun gs
  if 2 ≤ run.2 then
    groups (gs.take run.1) ++ [':', ':'] ++ groups (gs.drop (run.1 + run.2))
  else groups gs

/-- Whether a version 6 number is a version 4 address mapped into version 6. -/
def isMapped (value : Nat) : Bool :=
  value / 2 ^ 32 == 0xffff

/-- The text of an address. -/
def chars (a : Addr) : List Char :=
  match a.family with
  | .v4 => dotted a.value
  | .v6 =>
    if isMapped a.value then "::ffff:".toList ++ dotted (a.value % 2 ^ 32)
    else compressed (parts 16 8 a.value)

/-- The text of an address. -/
def text (a : Addr) : String := String.ofList a.chars

/-! ## Reading -/

/-- One octet of a dotted quad. -/
def octet (zeros : Bool) : Spelling := ⟨10, 3, 256, zeros⟩

/-- One group of a version 6 address. -/
def group : Spelling := ⟨16, 4, 65536, true⟩

/-- The text after a separator; the first part of a list has none before it. -/
def afterSeparator (sep : Char) (first : Bool) (cs : List Char) : Option (List Char) :=
  if first then some cs else expect sep cs

/-- Reads `count` octets with dots between them. -/
def readOctets (zeros : Bool) : (count : Nat) → (first : Bool) → List Char →
    Option (List Nat × List Char)
  | 0, _, cs => some ([], cs)
  | count + 1, first, cs => do
    let cs ← afterSeparator '.' first cs
    let (o, cs) ← read (octet zeros) cs
    let (os, cs) ← readOctets zeros count false cs
    return (o :: os, cs)

/-- Reads a dotted quad as a number. -/
def readDotted (zeros : Bool) (cs : List Char) : Option (Nat × List Char) :=
  (readOctets zeros 4 true cs).map fun r => (ofParts 8 r.1, r.2)

/-- What the reader of groups found at the front of a text. -/
structure GroupRun where
  /-- The groups, a dotted quad counting as two. -/
  groups : List Nat
  /-- Whether the groups end in a dotted quad. -/
  quad : Bool
  /-- The text after them. -/
  rest : List Char

/-- Reads at most `limit` groups. A dotted quad is preferred where two more groups are admitted,
and it ends the groups. -/
def readGroups (zeros : Bool) : (limit : Nat) → (first : Bool) → List Char → GroupRun
  | 0, _, cs => ⟨[], false, cs⟩
  | limit + 1, first, cs =>
    let quad := if limit = 0 then none else (afterSeparator ':' first cs).bind (readDotted zeros)
    match quad with
    | some (q, rest) => ⟨parts 16 2 q, true, rest⟩
    | none =>
      match (afterSeparator ':' first cs).bind (read group) with
      | some (g, rest) =>
        let run := readGroups zeros limit false rest
        ⟨g :: run.groups, run.quad, run.rest⟩
      | none => ⟨[], false, cs⟩

/-- Reads the eight groups of a version 6 address: all of them, or some before and some after a
`::`, which stands for at least one zero group and cannot follow a dotted quad. -/
def readSixteen (zeros : Bool) (cs : List Char) : Option (List Nat × List Char) :=
  let head := readGroups zeros 8 true cs
  if head.groups.length = 8 then some (head.groups, head.rest)
  else if head.quad then none
  else do
    let cs ← expect ':' head.rest
    let cs ← expect ':' cs
    let tail := readGroups zeros (7 - head.groups.length) true cs
    let gap := 8 - head.groups.length - tail.groups.length
    return (head.groups ++ List.replicate gap 0 ++ tail.groups, tail.rest)

/-- Reads an address at the front of a text. -/
def readAddr (zeros : Bool) (cs : List Char) : Option (Addr × List Char) :=
  match readDotted zeros cs with
  | some (value, rest) => (ofNat? .v4 value).map (·, rest)
  | none =>
    match readSixteen zeros cs with
    | some (gs, rest) => (ofNat? .v6 (ofParts 16 gs)).map (·, rest)
    | none => none

/-- The address that a text denotes. -/
def ofChars? (cs : List Char) : Option Addr :=
  match readAddr false cs with
  | some (a, []) => some a
  | _ => none

/-- The address that a text denotes. -/
def parse? (s : String) : Option Addr := ofChars? s.toList

end Ipam.Addr
