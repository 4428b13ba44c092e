/-!
# JSON values

Values of the data notation in which requests, answers and the state file are written. A number is
a natural number or, in any other spelling, the literal that stands for it: nothing here computes
with fractions. A string literal may escape half of a surrogate pair; it is legal notation, but no
text, and `unpaired` stands for it.
-/

namespace Ipam

/-- A JSON value. -/
inductive Json where
  | null
  | bool (b : Bool)
  /-- A natural number in plain decimal notation. -/
  | nat (n : Nat)
  /-- Any other number, as it is spelled. -/
  | decimal (literal : String)
  | string (s : String)
  /-- A string, or an object with a key, that is legal notation but no text. -/
  | unpaired
  | array (items : List Json)
  /-- The members in the order in which they are written. -/
  | object (members : List (String × Json))
  deriving Inhabited, Repr

namespace Json

/-- A string, or null for none. -/
def ofOption {α : Type} (f : α → Json) : Option α → Json
  | some a => f a
  | none => null

/-- An array of strings. -/
def strings (ss : List String) : Json := array (ss.map string)

end Json

end Ipam
