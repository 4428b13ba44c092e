import Ipam.Query

/-!
# The record store

A store keeps records in the order in which they were made and gives each an id, the decimal text
of a counter of 64 bits that only grows. No two records share a prefix and an address. A change
names the record as it was read, and is refused if the store holds another version.
-/

namespace Ipam

/-- Records with the counter that numbers them. -/
structure Store where
  /-- The number of the last record made. -/
  nextId : UInt64
  /-- The records in the order in which they were made. -/
  records : List Record
  deriving DecidableEq

namespace Store

/-- The store without records. -/
def empty : Store := ⟨0, []⟩

instance : EmptyCollection Store := ⟨empty⟩

instance : Inhabited Store := ⟨∅⟩

/-- What errors call the record with an id. -/
def subject (id : String) : String := "ip with id:" ++ id

/-- What errors call a record that is to be made. -/
def newSubject (r : Record) : String :=
  "ip " ++ r.address.text ++ " in prefix " ++ r.parentPrefix.text

/-- The first record with an id. -/
def find? (s : Store) (id : String) : Option Record :=
  s.records.find? fun r => decide (r.id = id)

/-- The record with an id. -/
def get (s : Store) (id : String) : Except StoreError Record :=
  match s.find? id with
  | some r => .ok r
  | none => .error (.notFound (subject id))

/-- The records that a query admits. -/
def list (s : Store) (q : Query) : List Record := s.records.filter q.admits

/-- Adds a record under a new id, unless its prefix and address are taken. -/
def create (s : Store) (r : Record) : Except StoreError Record × Store :=
  if s.records.any fun o => decide (o.slot = r.slot) then
    (.error (.alreadyExists (newSubject r)), s)
  else
    let nextId := s.nextId + 1
    let made := { r with id := toString nextId.toNat }
    (.ok made, ⟨nextId, s.records ++ [made]⟩)

/-- Puts a record in the place of the first one with an id. -/
def replace (id : String) (new : Record) : List Record → List Record
  | [] => []
  | r :: rs => if r.id = id then new :: rs else r :: replace id new rs

/-- Puts `new` in the place of `old`, if `old` is what the store holds. -/
def update (s : Store) (new old : Record) : Except StoreError Unit × Store :=
  match s.find? old.id with
  | none => (.error (.notFound (subject old.id)), s)
  | some stored =>
    if stored = old then (.ok (), { s with records := replace old.id new s.records })
    else (.error (.conflict (subject old.id)), s)

/-- Removes the record with the id of `r`. -/
def delete (s : Store) (r : Record) : Except StoreError Unit × Store :=
  match s.find? r.id with
  | none => (.error (.notFound (subject r.id)), s)
  | some _ => (.ok (), { s with records := s.records.eraseP fun o => decide (o.id = r.id) })

end Store

/-- The networks and projects that can be looked up. -/
structure Catalog where
  /-- The networks; of several with an id the last one counts. -/
  networks : List Network
  /-- The projects; of several with an id the last one counts. -/
  projects : List Project

namespace Catalog

/-- The network with an id. -/
def network (c : Catalog) (id : String) : Except StoreError Network :=
  match c.networks.reverse.find? fun n => decide (n.id = id) with
  | some n => .ok n
  | none => .error (.notFound ("network " ++ id))

/-- The project with an id. -/
def project (c : Catalog) (id : String) : Except StoreError Project :=
  match c.projects.reverse.find? fun p => decide (p.id = id) with
  | some p => .ok p
  | none => .error (.notFound ("project " ++ id))

end Catalog

end Ipam
