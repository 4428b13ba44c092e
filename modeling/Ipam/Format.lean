/-!
# Reading structured data

Requests, records and configurations are read from a data notation into types of their own. What a
reader needs of the notation is a `Format`: which values are texts, truth values, lists and lists
of members. The rest is the same for all notations and is done here.

A value with named fields (`Format.record`) is read from members, in any order and with members of
other names disregarded, but with none of its own twice. Some notations also admit a list of all its
fields in their order; at the end of such a list only fields that have a default may be missing.
-/

namespace Ipam

/-- What a data notation offers to a reader of its values `V`. -/
structure Format (V : Type) where
  /-- The text that a value is. -/
  text? : V → Option String
  /-- The truth value that a value is. -/
  flag? : V → Option Bool
  /-- Whether a value stands for nothing. -/
  isNull : V → Bool
  /-- The items of a list. -/
  items? : V → Option (List V)
  /-- The members of a value with named members. -/
  members? : V → Option (List (String × V))
  /-- Whether fields may be given by their order. -/
  positional : Bool

/-- The fields of a value, as far as they are given. -/
structure Fields (V : Type) where
  /-- Whether the fields were given by their order. -/
  positional : Bool
  /-- The fields by name. -/
  values : List (String × V)

/-- Whether some element of a list occurs in it again. -/
def hasRepeat {α : Type} [DecidableEq α] : List α → Bool
  | [] => false
  | a :: as => as.contains a || hasRepeat as

namespace Format

variable {V α : Type} (f : Format V)

/-- The fields of a value with the given names. -/
def record (names : List String) (v : V) : Option (Fields V) :=
  match f.members? v with
  | some members =>
    let own := members.filter fun m => names.contains m.1
    if hasRepeat (own.map Prod.fst) then none else some ⟨false, own⟩
  | none =>
    match f.items? v with
    | some items =>
      if f.positional ∧ items.length ≤ names.length then some ⟨true, names.zip items⟩ else none
    | none => none

/-- The value of a list, item by item. -/
def list (read : V → Option α) (v : V) : Option (List α) :=
  (f.items? v).bind fun items => items.mapM read

/-- The value that may be absent. -/
def nullable (read : V → Option α) (v : V) : Option (Option α) :=
  if f.isNull v then some none else (read v).map some

/-- One of several named choices: its name, or the name with nothing as its content. -/
def choice (choices : List (String × α)) (v : V) : Option α :=
  match f.text? v with
  | some name => choices.lookup name
  | none =>
    match f.members? v with
    | some [(name, content)] => if f.isNull content then choices.lookup name else none
    | _ => none

end Format

namespace Fields

variable {V α : Type}

/-- The value of a field. -/
def get? (fields : Fields V) (name : String) : Option V := fields.values.lookup name

/-- A field that must be given. -/
def required (fields : Fields V) (name : String) (read : V → Option α) : Option α :=
  (fields.get? name).bind read

/-- A field that has a default. -/
def defaulted (fields : Fields V) (name : String) (default : α) (read : V → Option α) : Option α :=
  match fields.get? name with
  | some v => read v
  | none => some default

/-- A field that may be absent, unless the fields are given by their order. -/
def optional (fields : Fields V) (f : Format V) (name : String) (read : V → Option α) :
    Option (Option α) :=
  match fields.get? name with
  | some v => f.nullable read v
  | none => if fields.positional then none else some none

end Fields

end Ipam
