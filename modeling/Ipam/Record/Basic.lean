import Ipam.Instant
import Ipam.Prefix.Basic
import Ipam.Tag
import Ipam.Uuid

/-!
# Address records

An address record says that an address was taken from a prefix of a network for a project. Its id
is given by the store that holds it.
-/

namespace Ipam

/-- Whether an address outlives the machine that uses it. -/
inductive Retention where
  /-- The address is given up with its user. -/
  | ephemeral
  /-- The address is kept. -/
  | static
  deriving DecidableEq, Repr

/-- What is kept about an address that was handed out. -/
structure Record where
  /-- The id the store gave. -/
  id : String
  /-- The identifier of this allocation. -/
  allocationId : Uuid
  /-- The address. -/
  address : Addr
  /-- The prefix it was taken from. -/
  parentPrefix : Prefix
  /-- The id of the network. -/
  networkId : String
  /-- The id of the project. -/
  projectId : String
  /-- The name. -/
  name : String
  /-- The description. -/
  description : String
  /-- How long the address is kept. -/
  retention : Retention
  /-- The tags. -/
  tags : TagSet
  /-- When the record was made. -/
  createdAt : Instant
  /-- When the record was last changed. -/
  updatedAt : Instant
  deriving DecidableEq

namespace Record

/-- The family of the address. -/
def family (r : Record) : Family := r.address.family

/-- The prefix and the address, under which the record is unique. -/
def slot (r : Record) : Prefix × Addr := (r.parentPrefix, r.address)

end Record

end Ipam
