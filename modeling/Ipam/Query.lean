import Ipam.Scope

/-!
# Queries

A query is a set of criteria for records; every criterion that is present narrows the result. A
list request becomes a query by reading the texts in it; a retention or family that is not said is
no criterion.
-/

namespace Ipam

/-- Criteria for records. -/
structure Query where
  /-- The address. -/
  address : Option Addr
  /-- The network. -/
  networkId : Option String
  /-- The project. -/
  projectId : Option String
  /-- The name. -/
  name : Option String
  /-- The allocation identifier. -/
  allocationId : Option Uuid
  /-- The machine the address is bound to. -/
  machineId : Option String
  /-- The prefix the address was taken from. -/
  parentPrefix : Option Prefix
  /-- Tags that must be there with the same values. -/
  tags : TagSet
  /-- The retention. -/
  retention : Option Retention
  /-- The family. -/
  family : Option Family
  deriving DecidableEq

namespace Query

/-- Whether a value meets a criterion. -/
def meets {α : Type} [DecidableEq α] (wanted : Option α) (value : α) : Bool :=
  match wanted with
  | some w => decide (w = value)
  | none => true

/-- Whether a record meets all criteria. -/
def admits (q : Query) (r : Record) : Bool :=
  meets q.address r.address && meets q.networkId r.networkId && meets q.projectId r.projectId
    && meets q.name r.name && meets q.allocationId r.allocationId
    && meets q.parentPrefix r.parentPrefix && meets q.retention r.retention
    && meets q.family r.family
    && (match q.machineId with
      | some machine => decide (r.tags.machineId? = some machine)
      | none => true)
    && r.tags.containsAll q.tags

/-- The query limited to the projects in view. -/
def within (q : Query) (s : Scope) : Query :=
  match s.projectId? with
  | some id => { q with projectId := some id }
  | none => q

/-- Reads a text where there is one. -/
def readOptional {α : Type} (read : String → Except RequestError α) :
    Option String → Except RequestError (Option α)
  | some raw => (read raw).map some
  | none => .ok none

/-- The address that a criterion names. -/
def readAddress (raw : String) : Except RequestError Addr :=
  match Addr.parse? raw with
  | some a => .ok a
  | none => .error (.invalid (.addressUnparsable raw))

/-- The identifier that a criterion names. -/
def readUuid (raw : String) : Except RequestError Uuid :=
  match Uuid.parse raw with
  | .ok u => .ok u
  | .error e => .error (.invalid (.uuidUnparsable raw e))

/-- The prefix that a criterion names. -/
def readPrefix (raw : String) : Except RequestError Prefix :=
  match Prefix.parse? raw with
  | some p => .ok p
  | none => .error (.invalid (.prefixUnparsable raw))

/-- The query that a list request means. -/
def ofRequest (req : Wire.ListRequest) : Except RequestError Query := do
  let address ← readOptional readAddress req.ip
  let allocationId ← readOptional readUuid req.uuid
  let parentPrefix ← readOptional readPrefix req.parentPrefix
  return {
    address := address
    networkId := req.network
    projectId := req.project
    name := req.name
    allocationId := allocationId
    machineId := req.machineId
    parentPrefix := parentPrefix
    tags := TagSet.ofStrings req.tags
    retention := req.kind.bind Wire.Kind.retention?
    family := req.family.bind Wire.FamilyName.family?
  }

end Query

end Ipam
