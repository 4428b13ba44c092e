import Ipam.Json.Basic

/-!
# Writing JSON

Two forms: on one line without blanks (`Json.line`), and with one member or item a line, indented
by two blanks a level (`Json.pretty`). Strings escape the quote, the backslash and the control
characters below the blank, and nothing else.
-/

namespace Ipam.Json

/-- A character as it stands in a string literal. -/
def escapeChar (c : Char) : String :=
  if c = '\x22' then "\\\""
  else if c = '\\' then "\\\\"
  else if c = '\x08' then "\\b"
  else if c = '\x0c' then "\\f"
  else if c = '\n' then "\\n"
  else if c = '\r' then "\\r"
  else if c = '\t' then "\\t"
  else if c.toNat < 0x20 then
    "\\u00" ++ String.ofList [Nat.digitChar (c.toNat / 16), Nat.digitChar (c.toNat % 16)]
  else String.singleton c

/-- A string literal. -/
def literal (s : String) : String :=
  s.toList.foldl (fun out c => out ++ escapeChar c) "\"" ++ "\""

/-- The space between two parts of a value, given the depth: nothing, or a new line with its
indentation. -/
structure Layout where
  /-- What stands before an item at a depth. -/
  gap : Nat → String
  /-- What stands after the colon of a member. -/
  afterColon : String

/-- A value on one line. -/
def Layout.compact : Layout := ⟨fun _ => "", ""⟩

/-- One item or member a line. -/
def Layout.indented : Layout := ⟨fun depth => "\n" ++ "".pushn ' ' (2 * depth), " "⟩

mutual

/-- The text of a value that starts at a depth. -/
def write (l : Layout) (depth : Nat) : Json → String
  | .null => "null"
  | .bool true => "true"
  | .bool false => "false"
  | .nat n => toString n
  | .decimal literal => literal
  | .string s => literal s
  | .unpaired => "null"
  | .array [] => "[]"
  | .array (v :: vs) =>
    "[" ++ l.gap (depth + 1) ++ write l (depth + 1) v ++ writeItems l depth vs ++ "]"
  | .object [] => "\x7b\x7d"
  | .object ((k, v) :: ms) =>
    "\x7b" ++ l.gap (depth + 1) ++ literal k ++ ":" ++ l.afterColon ++ write l (depth + 1) v
      ++ writeMembers l depth ms ++ "\x7d"

/-- The items of an array after the first, and the space before its end. -/
def writeItems (l : Layout) (depth : Nat) : List Json → String
  | [] => l.gap depth
  | v :: vs => "," ++ l.gap (depth + 1) ++ write l (depth + 1) v ++ writeItems l depth vs

/-- The members of an object after the first, and the space before its end. -/
def writeMembers (l : Layout) (depth : Nat) : List (String × Json) → String
  | [] => l.gap depth
  | (k, v) :: ms =>
    "," ++ l.gap (depth + 1) ++ literal k ++ ":" ++ l.afterColon ++ write l (depth + 1) v
      ++ writeMembers l depth ms

end

/-- A value on one line. -/
def line (v : Json) : String := write .compact 0 v

/-- A value with one item or member a line. -/
def pretty (v : Json) : String := write .indented 0 v

end Ipam.Json
