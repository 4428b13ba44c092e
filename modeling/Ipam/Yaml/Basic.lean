import Ipam.Format

/-!
# YAML values

Values of the notation in which configurations are written. A scalar keeps its text and whether it
was written plainly: only a plain scalar can stand for a truth value or for nothing. An empty plain
scalar, which is also the value of an empty document, may stand for an empty collection.
-/

namespace Ipam

/-- A YAML value. -/
inductive Yaml where
  /-- A text, and whether it was written without quotes and tags. -/
  | scalar (text : String) (plain : Bool)
  /-- A sequence. -/
  | sequence (items : List Yaml)
  /-- A mapping, in the order in which it is written. -/
  | mapping (entries : List (Yaml × Yaml))
  deriving Inhabited

namespace Yaml

/-- The value that is not written. -/
def blank : Yaml := .scalar "" true

/-- The text that a value is; any scalar is one. -/
def toText? : Yaml → Option String
  | .scalar text _ => some text
  | _ => none

/-- The plain scalars that stand for nothing. -/
def nullTexts : List String := ["", "~", "null", "Null", "NULL"]

/-- What the notation offers to readers. -/
def format : Format Yaml where
  text? := toText?
  flag?
    | .scalar text true =>
      if ["true", "True", "TRUE"].contains text then some true
      else if ["false", "False", "FALSE"].contains text then some false
      else none
    | _ => none
  isNull
    | .scalar text plain => plain && nullTexts.contains text
    | _ => false
  items?
    | .scalar "" true => some []
    | .sequence items => some items
    | _ => none
  members?
    | .scalar "" true => some []
    | .mapping entries => entries.mapM fun e => (toText? e.1).map (·, e.2)
    | _ => none
  positional := false

end Yaml

end Ipam
