import Ipam.Query

/-!
# Records to and from their wire form

Every record has a wire form (`Record.toWire`). Reading one back (`Record.ofWire`) refuses what no
record is written as: a mandatory field that is empty, a text that is not the canonical one for its
value, an address outside its prefix, a retention that is not said, and two tags with the same key.
The checks come in a fixed order, and the first that fails names the error.
-/

namespace Ipam.Record

/-- The record as callers see it. -/
def toWire (r : Record) : Wire.Ip where
  id := r.id
  uuid := r.allocationId.text
  ip := r.address.text
  parentPrefix := r.parentPrefix.text
  name := r.name
  description := r.description
  network := r.networkId
  project := r.projectId
  kind := .ofRetention r.retention
  tags := r.tags.toStrings
  createdAt := some r.createdAt
  updatedAt := some r.updatedAt

/-- A text that must not be empty. -/
def required (field value : String) : Except RequestError String :=
  if value.isEmpty then .error (.invalid (.fieldMissing field)) else .ok value

/-- Refuses a text that is not the canonical one. -/
def canonical (field raw expected : String) : Except RequestError Unit :=
  if expected = raw then .ok () else .error (.invalid (.notCanonical field raw expected))

/-- The prefix that a wire record names. -/
def readParent (raw : String) : Except RequestError Prefix :=
  match Prefix.parse? raw with
  | some p => .ok p
  | none => .error (.invalid (.parentUnparsable raw))

/-- The tags of a wire record, no two with the same key. -/
def readTags (raw : List String) : Except RequestError TagSet :=
  match TagSet.ofStringsStrict raw with
  | .ok tags => .ok tags
  | .error key => .error (.invalid (.duplicateTag key))

/-- A value that must be there. -/
def present {α : Type} (field : String) : Option α → Except RequestError α
  | some a => .ok a
  | none => .error (.invalid (.fieldMissing field))

/-- The record that a wire record describes. -/
def ofWire (w : Wire.Ip) : Except RequestError Record := do
  let id ← required "id" w.id
  let allocationId ← required "uuid" w.uuid >>= Query.readUuid
  let address ← required "ip" w.ip >>= Query.readAddress
  let parent ← required "parent_prefix" w.parentPrefix >>= readParent
  canonical "uuid" w.uuid allocationId.text
  canonical "ip" w.ip address.text
  canonical "parent prefix" w.parentPrefix parent.text
  if !parent.contains address then throw (.invalid (.outsideParent address parent))
  let networkId ← required "network" w.network
  let projectId ← required "project" w.project
  let retention ← w.kind.retention
  let tags ← readTags w.tags
  let createdAt ← present "created_at" w.createdAt
  let updatedAt ← present "updated_at" w.updatedAt
  return {
    id := id
    allocationId := allocationId
    address := address
    parentPrefix := parent
    networkId := networkId
    projectId := projectId
    name := w.name
    description := w.description
    retention := retention
    tags := tags
    createdAt := createdAt
    updatedAt := updatedAt
  }

end Ipam.Record
