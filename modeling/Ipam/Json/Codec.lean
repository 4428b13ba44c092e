import Ipam.Format
import Ipam.Json.Basic
import Ipam.Pool
import Ipam.Store

/-!
# Records and requests in JSON

How each type is written as a JSON value and read back. Members are written in the order of the
fields. An address, a prefix, an identifier and an instant are their texts; a tag set is the list
of the texts of its tags, and reading one merges tags with the same key.
-/

namespace Ipam

namespace Json

/-- What the notation offers to readers. -/
def format : Format Json where
  text?
    | string s => some s
    | _ => none
  flag?
    | bool b => some b
    | _ => none
  isNull
    | null => true
    | _ => false
  items?
    | array items => some items
    | _ => none
  members?
    | object members => some members
    | _ => none
  positional := true

/-- The text that a value is. -/
def toText? (v : Json) : Option String := format.text? v

/-- The truth value that a value is. -/
def toFlag? (v : Json) : Option Bool := format.flag? v

/-- The texts that a list holds. -/
def toTexts? (v : Json) : Option (List String) := format.list toText? v

/-- The number of 64 bits that a value is. -/
def toWord? : Json → Option UInt64
  | nat n => if n < 2 ^ 64 then some (UInt64.ofNat n) else none
  | _ => none

/-- The value that a text denotes. -/
def toParsed? {α : Type} (parse : String → Option α) (v : Json) : Option α :=
  (toText? v).bind parse

/-- The address that a value is. -/
def toAddr? : Json → Option Addr := toParsed? Addr.parse?

/-- The prefix that a value is. -/
def toPrefix? : Json → Option Prefix := toParsed? Prefix.parse?

/-- The identifier that a value is. -/
def toUuid? : Json → Option Uuid := toParsed? fun s => (Uuid.parse s).toOption

/-- The instant that a value is. -/
def toInstant? : Json → Option Instant := toParsed? Instant.parse?

/-- The tag set that a value is. -/
def toTags? (v : Json) : Option TagSet := (toTexts? v).map TagSet.ofStrings

/-- A tag set as a value. -/
def ofTags (s : TagSet) : Json := strings s.toStrings

end Json

open Json

/-! ## Networks and scopes -/

/-- The name of a family in JSON. -/
def Family.toJson : Family → Json
  | .v4 => .string "V4"
  | .v6 => .string "V6"

/-- The family of a name in JSON. -/
def Family.ofJson? : Json → Option Family := format.choice [("V4", .v4), ("V6", .v6)]

/-- A network as a value; a network without a parent does not mention one. -/
def Network.toJson (n : Network) : Json :=
  let parent := match n.parentId with
    | some id => [("parent_network_id", Json.string id)]
    | none => []
  .object ([("id", .string n.id), ("project_id", .string n.projectId)] ++ parent
    ++ [("shared", .bool n.shared), ("prefixes", strings (n.prefixes.map Prefix.text)),
      ("address_families", .array (n.families.map Family.toJson))])

/-- The network that a value describes. -/
def Network.ofJson? (v : Json) : Option Network := do
  let fs ← format.record
    ["id", "project_id", "parent_network_id", "shared", "prefixes", "address_families"] v
  return {
    id := ← fs.required "id" toText?
    projectId := ← fs.defaulted "project_id" "" toText?
    parentId := ← fs.defaulted "parent_network_id" none (format.nullable toText?)
    shared := ← fs.defaulted "shared" false toFlag?
    prefixes := ← fs.required "prefixes" (format.list toPrefix?)
    families := ← fs.required "address_families" (format.list Family.ofJson?)
  }

/-- A scope as a value. -/
def Scope.toJson : Scope → Json
  | .project id => .object [("Project", .string id)]
  | .unscoped => .string "Unscoped"

/-- The scope that a value describes. -/
def Scope.ofJson? : Json → Option Scope
  | .object [("Project", .string id)] => some (.project id)
  | v => format.choice [("Unscoped", .unscoped)] v

/-! ## Records -/

/-- The name of a retention. -/
def Retention.name : Retention → String
  | .ephemeral => "ephemeral"
  | .static => "static"

/-- The retention of a name in JSON. -/
def Retention.ofJson? : Json → Option Retention :=
  format.choice [("ephemeral", .ephemeral), ("static", .static)]

/-- A record as a value. -/
def Record.toJson (r : Record) : Json :=
  .object [
    ("id", .string r.id),
    ("allocation_id", .string r.allocationId.text),
    ("address", .string r.address.text),
    ("parent_prefix", .string r.parentPrefix.text),
    ("network_id", .string r.networkId),
    ("project_id", .string r.projectId),
    ("name", .string r.name),
    ("description", .string r.description),
    ("ip_type", .string r.retention.name),
    ("tags", ofTags r.tags),
    ("created_at", .string r.createdAt.text),
    ("updated_at", .string r.updatedAt.text)]

/-- The record that a value describes. -/
def Record.ofJson? (v : Json) : Option Record := do
  let fs ← format.record
    ["id", "allocation_id", "address", "parent_prefix", "network_id", "project_id", "name",
      "description", "ip_type", "tags", "created_at", "updated_at"] v
  return {
    id := ← fs.required "id" toText?
    allocationId := ← fs.required "allocation_id" toUuid?
    address := ← fs.required "address" toAddr?
    parentPrefix := ← fs.required "parent_prefix" toPrefix?
    networkId := ← fs.required "network_id" toText?
    projectId := ← fs.required "project_id" toText?
    name := ← fs.defaulted "name" "" toText?
    description := ← fs.defaulted "description" "" toText?
    retention := ← fs.required "ip_type" Retention.ofJson?
    tags := ← fs.defaulted "tags" ∅ toTags?
    createdAt := ← fs.required "created_at" toInstant?
    updatedAt := ← fs.required "updated_at" toInstant?
  }

/-- A store as a value. -/
def Store.toJson (s : Store) : Json :=
  .object [("next_id", .nat s.nextId.toNat), ("records", .array (s.records.map Record.toJson))]

/-- The store that a value describes. -/
def Store.ofJson? (v : Json) : Option Store := do
  let fs ← format.record ["next_id", "records"] v
  return {
    nextId := ← fs.required "next_id" toWord?
    records := ← fs.required "records" (format.list Record.ofJson?)
  }

/-- The addresses held of a prefix as a value. -/
def Allocation.toJson (e : Allocation) : Json :=
  .object [("prefix", .string e.parent.text), ("addresses", strings (e.addresses.map Addr.text))]

/-- The addresses held of a prefix that a value describes. -/
def Allocation.ofJson? (v : Json) : Option Allocation := do
  let fs ← format.record ["prefix", "addresses"] v
  return {
    parent := ← fs.required "prefix" toPrefix?
    addresses := ← fs.required "addresses" (format.list toAddr?)
  }

/-- The contents of an allocator as a value. -/
def Pool.snapshotToJson (l : List Allocation) : Json := .array (l.map Allocation.toJson)

/-- The contents of an allocator that a value describes. -/
def Pool.snapshotOfJson? : Json → Option (List Allocation) := format.list Allocation.ofJson?

/-! ## Wire records and requests -/

namespace Wire

/-- A retention as callers name it. -/
def Kind.toJson : Kind → Json
  | .unspecified => .string "unspecified"
  | .ephemeral => .string "ephemeral"
  | .static => .string "static"

/-- The retention that callers name. -/
def Kind.ofJson? : Json → Option Kind :=
  format.choice [("unspecified", .unspecified), ("ephemeral", .ephemeral), ("static", .static)]

/-- A family as callers name it. -/
def FamilyName.toJson : FamilyName → Json
  | .unspecified => .string "unspecified"
  | .v4 => .string "v4"
  | .v6 => .string "v6"

/-- The family that callers name. -/
def FamilyName.ofJson? : Json → Option FamilyName :=
  format.choice [("unspecified", .unspecified), ("v4", .v4), ("v6", .v6)]

/-- A text that may be absent. -/
def ofText? : Option String → Json := Json.ofOption Json.string

/-- An instant as a member, left out when it is absent. -/
def instantMember (name : String) : Option Instant → List (String × Json)
  | some t => [(name, .string t.text)]
  | none => []

/-- A wire record as a value. -/
def Ip.toJson (w : Ip) : Json :=
  .object ([
    ("id", .string w.id),
    ("uuid", .string w.uuid),
    ("ip", .string w.ip),
    ("parent_prefix", .string w.parentPrefix),
    ("name", .string w.name),
    ("description", .string w.description),
    ("network", .string w.network),
    ("project", .string w.project),
    ("type", w.kind.toJson),
    ("tags", strings w.tags)]
    ++ instantMember "created_at" w.createdAt ++ instantMember "updated_at" w.updatedAt)

/-- The wire record that a value describes. -/
def Ip.ofJson? (v : Json) : Option Ip := do
  let fs ← format.record
    ["id", "uuid", "ip", "parent_prefix", "name", "description", "network", "project", "type",
      "tags", "created_at", "updated_at"] v
  return {
    id := ← fs.required "id" toText?
    uuid := ← fs.required "uuid" toText?
    ip := ← fs.required "ip" toText?
    parentPrefix := ← fs.required "parent_prefix" toText?
    name := ← fs.required "name" toText?
    description := ← fs.required "description" toText?
    network := ← fs.required "network" toText?
    project := ← fs.required "project" toText?
    kind := ← fs.required "type" Kind.ofJson?
    tags := ← fs.defaulted "tags" [] toTexts?
    createdAt := ← fs.defaulted "created_at" none (format.nullable toInstant?)
    updatedAt := ← fs.defaulted "updated_at" none (format.nullable toInstant?)
  }

/-- A create request as a value. -/
def CreateRequest.toJson (r : CreateRequest) : Json :=
  .object [
    ("project", .string r.project),
    ("network", .string r.network),
    ("name", ofText? r.name),
    ("description", ofText? r.description),
    ("ip", ofText? r.ip),
    ("machine_id", ofText? r.machineId),
    ("type", Json.ofOption Kind.toJson r.kind),
    ("address_family", Json.ofOption FamilyName.toJson r.family),
    ("tags", strings r.tags)]

/-- The create request that a value describes. -/
def CreateRequest.ofJson? (v : Json) : Option CreateRequest := do
  let fs ← format.record
    ["project", "network", "name", "description", "ip", "machine_id", "type", "address_family",
      "tags"] v
  return {
    project := ← fs.required "project" toText?
    network := ← fs.required "network" toText?
    name := ← fs.optional format "name" toText?
    description := ← fs.optional format "description" toText?
    ip := ← fs.optional format "ip" toText?
    machineId := ← fs.optional format "machine_id" toText?
    kind := ← fs.optional format "type" Kind.ofJson?
    family := ← fs.optional format "address_family" FamilyName.ofJson?
    tags := ← fs.defaulted "tags" [] toTexts?
  }

/-- An update request as a value. -/
def UpdateRequest.toJson (r : UpdateRequest) : Json :=
  .object [
    ("ip", .string r.ip),
    ("project", .string r.project),
    ("name", ofText? r.name),
    ("description", ofText? r.description),
    ("type", Json.ofOption Kind.toJson r.kind),
    ("tags", Json.ofOption strings r.tags)]

/-- The update request that a value describes. -/
def UpdateRequest.ofJson? (v : Json) : Option UpdateRequest := do
  let fs ← format.record ["ip", "project", "name", "description", "type", "tags"] v
  return {
    ip := ← fs.required "ip" toText?
    project := ← fs.required "project" toText?
    name := ← fs.optional format "name" toText?
    description := ← fs.optional format "description" toText?
    kind := ← fs.optional format "type" Kind.ofJson?
    tags := ← fs.optional format "tags" toTexts?
  }

/-- A request for a record as a value. -/
def RecordRequest.toJson (r : RecordRequest) : Json :=
  .object [("ip", .string r.ip), ("project", .string r.project)]

/-- The request for a record that a value describes. -/
def RecordRequest.ofJson? (v : Json) : Option RecordRequest := do
  let fs ← format.record ["ip", "project"] v
  return {
    ip := ← fs.required "ip" toText?
    project := ← fs.required "project" toText?
  }

/-- A list request as a value. -/
def ListRequest.toJson (r : ListRequest) : Json :=
  .object [
    ("ip", ofText? r.ip),
    ("network", ofText? r.network),
    ("project", ofText? r.project),
    ("name", ofText? r.name),
    ("uuid", ofText? r.uuid),
    ("machine_id", ofText? r.machineId),
    ("parent_prefix", ofText? r.parentPrefix),
    ("tags", strings r.tags),
    ("type", Json.ofOption Kind.toJson r.kind),
    ("address_family", Json.ofOption FamilyName.toJson r.family)]

/-- The list request that a value describes. -/
def ListRequest.ofJson? (v : Json) : Option ListRequest := do
  let fs ← format.record
    ["ip", "network", "project", "name", "uuid", "machine_id", "parent_prefix", "tags", "type",
      "address_family"] v
  return {
    ip := ← fs.optional format "ip" toText?
    network := ← fs.optional format "network" toText?
    project := ← fs.optional format "project" toText?
    name := ← fs.optional format "name" toText?
    uuid := ← fs.optional format "uuid" toText?
    machineId := ← fs.optional format "machine_id" toText?
    parentPrefix := ← fs.optional format "parent_prefix" toText?
    tags := ← fs.defaulted "tags" [] toTexts?
    kind := ← fs.optional format "type" Kind.ofJson?
    family := ← fs.optional format "address_family" FamilyName.ofJson?
  }

end Wire

end Ipam
