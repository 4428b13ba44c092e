/-!
# Tags

A tag is a key with or without a value. In text the first `=` ends the key, so every text denotes
a tag, and a bare key is a tag without a value. A tag set holds at most one tag for a key and keeps
the order in which its keys came in; a tag that replaces another takes its place. A change of a set
(`TagSet.edit`) gives back the tag that it replaces or removes.

One key is reserved: it binds an address to a machine (`Tag.machineKey`).
-/

namespace Ipam

/-- A key with or without a value. -/
structure Tag where
  /-- The key. -/
  key : String
  /-- The value; a bare key has none. -/
  value : Option String
  deriving DecidableEq

namespace Tag

/-- The reserved key that binds an address to a machine. -/
def machineKey : String := "ipledger.io/machine-id"

/-- The text before the first `=` and, if there is one, the text after it. -/
def split : List Char → List Char × Option (List Char)
  | [] => ([], none)
  | c :: cs => if c = '=' then ([], some cs) else (c :: (split cs).1, (split cs).2)

/-- The tag that a text denotes. -/
def parse (raw : String) : Tag :=
  let parts := split raw.toList
  ⟨String.ofList parts.1, parts.2.map String.ofList⟩

/-- The text of a tag. -/
def text (t : Tag) : String :=
  match t.value with
  | some value => t.key ++ "=" ++ value
  | none => t.key

end Tag

/-- Tags in the order of their keys' first appearance. -/
structure TagSet where
  /-- The tags in order. -/
  toList : List Tag
  deriving DecidableEq

namespace TagSet

/-- The set without tags. -/
def empty : TagSet := ⟨[]⟩

instance : EmptyCollection TagSet := ⟨empty⟩

instance : Inhabited TagSet := ⟨∅⟩

/-- Puts a tag into a list in the place of the tag with its key, or at the end. -/
def put (t : Tag) : List Tag → List Tag
  | [] => [t]
  | u :: us => if u.key = t.key then t :: us else u :: put t us

/-- The tag with a key. -/
def get? (s : TagSet) (key : String) : Option Tag :=
  s.toList.find? fun t => decide (t.key = key)

/-- Whether there is a tag with a key. -/
def containsKey (s : TagSet) (key : String) : Bool := (s.get? key).isSome

/-- The set with a tag in it, in the place of the tag with its key if there is one. -/
def insert (s : TagSet) (t : Tag) : TagSet := ⟨put t s.toList⟩

/-- The set without the tag of a key. -/
def erase (s : TagSet) (key : String) : TagSet :=
  ⟨s.toList.eraseP fun t => decide (t.key = key)⟩

/-- Puts a tag into a list as `put` does, and gives back the tag whose place it takes. -/
def exchange (t : Tag) : List Tag → Option Tag × List Tag
  | [] => (none, [t])
  | u :: us =>
    if u.key = t.key then (some u, t :: us)
    else
      let r := exchange t us
      (r.1, u :: r.2)

/-- Takes the tag of a key out of a list, and gives it back. -/
def withdraw (key : String) : List Tag → Option Tag × List Tag
  | [] => (none, [])
  | u :: us =>
    if u.key = key then (some u, us)
    else
      let r := withdraw key us
      (r.1, u :: r.2)

/-- A change of a set. -/
inductive Edit where
  /-- Puts a tag in. -/
  | insert (t : Tag)
  /-- Takes the tag of a key out. -/
  | remove (key : String)
  deriving DecidableEq

/-- The tag that a change replaces or removes, and the set after the change. -/
def edit (s : TagSet) : Edit → Option Tag × TagSet
  | .insert t =>
    let r := exchange t s.toList
    (r.1, ⟨r.2⟩)
  | .remove key =>
    let r := withdraw key s.toList
    (r.1, ⟨r.2⟩)

/-- Whether a tag is in the set with the same value or the same lack of one. -/
def contains (s : TagSet) (t : Tag) : Bool := s.toList.contains t

/-- Whether all tags of another set are in this one. -/
def containsAll (s other : TagSet) : Bool := other.toList.all s.contains

/-- The number of tags. -/
def size (s : TagSet) : Nat := s.toList.length

/-- The set with tags put in one after the other. -/
def insertAll (s : TagSet) (ts : List Tag) : TagSet := ts.foldl insert s

/-- The set of the tags that texts denote; of several tags with a key the last one wins, in the
place of the first. -/
def ofStrings (raw : List String) : TagSet := insertAll ∅ (raw.map Tag.parse)

/-- Puts texts into a set one after the other, up to the first whose key the set already has. -/
def extendStrict : TagSet → List String → Except String TagSet
  | s, [] => .ok s
  | s, raw :: rest =>
    let t := Tag.parse raw
    if s.containsKey t.key then .error t.key else extendStrict ⟨s.toList ++ [t]⟩ rest

/-- The set of the tags that texts denote, or the first key that occurs a second time. -/
def ofStringsStrict (raw : List String) : Except String TagSet := extendStrict ∅ raw

/-- The texts of the tags in order. -/
def toStrings (s : TagSet) : List String := s.toList.map Tag.text

/-- The machine that the reserved tag names. -/
def machineId? (s : TagSet) : Option String := (s.get? Tag.machineKey).bind Tag.value

/-- Whether the reserved tag is in the set, with or without a value. -/
def isMachineBound (s : TagSet) : Bool := s.containsKey Tag.machineKey

/-- The set bound to a machine. -/
def bindMachine (s : TagSet) (machine : String) : TagSet :=
  s.insert ⟨Tag.machineKey, some machine⟩

end TagSet

end Ipam
