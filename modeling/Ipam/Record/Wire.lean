import Ipam.Record.Basic

/-!
# Records and requests as callers exchange them

Callers name addresses, prefixes and identifiers by their texts, and their enumerations have a
value for "not said". This module holds those shapes; reading them is the work of the modules that
need their meaning.
-/

namespace Ipam.Wire

/-- A retention as callers name it. -/
inductive Kind where
  | unspecified
  | ephemeral
  | static
  deriving DecidableEq, Repr

/-- An address family as callers name it. -/
inductive FamilyName where
  | unspecified
  | v4
  | v6
  deriving DecidableEq, Repr

/-- A record as callers see it. -/
structure Ip where
  /-- The id of the record. -/
  id : String
  /-- The text of the allocation identifier. -/
  uuid : String
  /-- The text of the address. -/
  ip : String
  /-- The text of the prefix. -/
  parentPrefix : String
  /-- The name. -/
  name : String
  /-- The description. -/
  description : String
  /-- The id of the network. -/
  network : String
  /-- The id of the project. -/
  project : String
  /-- How long the address is kept. -/
  kind : Kind
  /-- The texts of the tags. -/
  tags : List String
  /-- When the record was made. -/
  createdAt : Option Instant
  /-- When the record was last changed. -/
  updatedAt : Option Instant
  deriving DecidableEq

/-- Asks for a new address. -/
structure CreateRequest where
  /-- The project that the address is for. -/
  project : String
  /-- The network to take it from. -/
  network : String
  /-- The name. -/
  name : Option String
  /-- The description. -/
  description : Option String
  /-- The address wanted; excludes a family. -/
  ip : Option String
  /-- The machine to bind the address to. -/
  machineId : Option String
  /-- How long to keep the address. -/
  kind : Option Kind
  /-- The family wanted. -/
  family : Option FamilyName
  /-- The texts of the tags. -/
  tags : List String
  deriving DecidableEq

/-- Asks to change the fields that are present. -/
structure UpdateRequest where
  /-- The id of the record. -/
  ip : String
  /-- The project of the record. -/
  project : String
  /-- The new name. -/
  name : Option String
  /-- The new description. -/
  description : Option String
  /-- The new retention. -/
  kind : Option Kind
  /-- The texts of all new tags. -/
  tags : Option (List String)
  deriving DecidableEq

/-- Asks for a record, or to give up its address. -/
structure RecordRequest where
  /-- The id of the record. -/
  ip : String
  /-- The project of the record. -/
  project : String
  deriving DecidableEq

/-- Asks for the records that meet every criterion that is present. -/
structure ListRequest where
  /-- The text of the address. -/
  ip : Option String
  /-- The network. -/
  network : Option String
  /-- The project. -/
  project : Option String
  /-- The name. -/
  name : Option String
  /-- The text of the allocation identifier. -/
  uuid : Option String
  /-- The machine. -/
  machineId : Option String
  /-- The text of the prefix. -/
  parentPrefix : Option String
  /-- The texts of tags that must be there. -/
  tags : List String
  /-- The retention. -/
  kind : Option Kind
  /-- The family. -/
  family : Option FamilyName
  deriving DecidableEq

end Ipam.Wire
