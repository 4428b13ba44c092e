import Ipam.Allocate

/-!
# The repository

The operations on the addresses of a scope, each a program over the collaborators. A new address
is taken from the allocator before its record is stored, and a record goes after its address was
given back; where a later step fails, the earlier one stays done, except that a repository may be
told to give back an address whose record the store refused.

An operation that needs the time, or an identifier that nobody else has, is given them: a request
reads its clock once.
-/

namespace Ipam

/-- What a new record is stamped with. -/
structure Stamp where
  /-- The time of the request. -/
  now : Instant
  /-- An identifier that no other allocation has. -/
  allocationId : Uuid

/-- The addresses of a scope. -/
structure Repository where
  /-- The projects whose records are in view. -/
  scope : Scope
  /-- Whether an address is given back when the store refuses its record. -/
  releaseOnRefusal : Bool
  deriving DecidableEq

namespace Repository

/-! ## Reading -/

/-- The record with an id. One of a project out of view is reported as one that is not there. -/
def get (repo : Repository) (id : String) : Request Record := do
  let r ← Request.accept (← Request.ask (.storeGet id))
  if repo.scope.admits r.projectId then return r
  else throw (.notFound (Store.subject id))

/-- The records in view that a query admits, without those that are bound to a machine. -/
def list (repo : Repository) (q : Query) : Request (List Record) := do
  let rs ← Request.accept (← Request.ask (.storeList (q.within repo.scope)))
  return rs.filter fun r => !r.tags.isMachineBound

/-! ## Creating -/

/-- The tags that a create request asks for, the machine's among them. -/
def requestedTags (req : Wire.CreateRequest) : TagSet :=
  let tags := TagSet.ofStrings req.tags
  match req.machineId with
  | some machine => tags.bindMachine machine
  | none => tags

/-- The retention that a create request asks for; addresses are ephemeral unless it says so. -/
def requestedRetention (req : Wire.CreateRequest) : Except RequestError Retention :=
  match req.kind with
  | some kind => kind.retention
  | none => .ok .ephemeral

/-- The record of a new address. The store will number it. -/
def newRecord (stamp : Stamp) (req : Wire.CreateRequest) (p : Project) (n : Network)
    (retention : Retention) (lease : Lease) : Record where
  id := ""
  allocationId := stamp.allocationId
  address := lease.address
  parentPrefix := lease.parent
  networkId := n.id
  projectId := p.id
  name := req.name.getD ""
  description := req.description.getD ""
  retention := retention
  tags := requestedTags req
  createdAt := stamp.now
  updatedAt := stamp.now

/-- Gives back the address of a record that the store refused, if the repository does that. What
comes of it does not matter. -/
def compensate (repo : Repository) (r : Record) : Program Unit :=
  if repo.releaseOnRefusal then
    .detached (releaseCall r.address r.parentPrefix) fun _ => .done ()
  else .done ()

/-- Stores a new record. -/
def persist (repo : Repository) (r : Record) : Request Record :=
  ExceptT.mk (.guarded (.storeCreate r) fun
    | .error i => .done (.error (.interrupted i))
    | .ok (.ok stored) => .done (.ok stored)
    | .ok (.error e) => repo.compensate r >>= fun _ => .done (.error (.ofStore e)))

/-- Takes an address from the network of a request for its project and records it. -/
def create (repo : Repository) (stamp : Stamp) (req : Wire.CreateRequest) : Request Record := do
  let p ← Request.accept (← Request.ask (.project req.project))
  let n ← Request.accept (← Request.ask (.network p.id req.network))
  let family ← Request.ofExcept (chooseFamily req.family req.ip n)
  Request.ofExcept (checkOpen p n)
  let retention ← Request.ofExcept (requestedRetention req)
  let lease ← match req.ip with
    | some literal => specificAddress n literal
    | none => anyAddress n family
  repo.persist (newRecord stamp req p n retention lease)

/-! ## Changing -/

/-- A record with the fields of an update request that are present. -/
def revise (now : Instant) (req : Wire.UpdateRequest) (old : Record) :
    Except RequestError Record := do
  let retention ← match req.kind with
    | some kind => kind.retention
    | none => .ok old.retention
  return { old with
    name := req.name.getD old.name
    description := req.description.getD old.description
    retention := retention
    tags := (req.tags.map TagSet.ofStrings).getD old.tags
    updatedAt := now }

/-- Changes the fields of a record that are present in a request. -/
def update (repo : Repository) (now : Instant) (req : Wire.UpdateRequest) : Request Record := do
  let old ← repo.get req.ip
  let new ← Request.ofExcept (revise now req old)
  Request.accept (← Request.ask (.storeUpdate new old))
  return new

/-- Gives the address of a record back and removes the record. An address that is given back
already does not stand in the way. -/
def delete (repo : Repository) (id : String) : Request Record := do
  let r ← repo.get id
  let _ ← release r.address r.parentPrefix
  Request.accept (← Request.ask (.storeDelete r))
  return r

end Repository

end Ipam
