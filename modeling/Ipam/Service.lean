import Ipam.Record.Exchange
import Ipam.Repository

/-!
# The services

What callers see. The address service acts for the project that each request names, and must name;
the administrator's service lists across all projects. Both answer with wire records.
-/

namespace Ipam

/-- The address service. -/
structure Service where
  /-- Whether an address is given back when the store refuses its record. -/
  releaseOnRefusal : Bool
  deriving DecidableEq

namespace Service

/-- The repository of a project. -/
def repository (s : Service) (project : String) : Request Repository := do
  let scope ← Request.ofExcept (Scope.ofProject project)
  return ⟨scope, s.releaseOnRefusal⟩

/-- A record of a project. -/
def get (s : Service) (req : Wire.RecordRequest) : Request Wire.Ip := do
  let repo ← s.repository req.project
  return (← repo.get req.ip).toWire

/-- Takes an address for a project. -/
def create (s : Service) (stamp : Stamp) (req : Wire.CreateRequest) : Request Wire.Ip := do
  let repo ← s.repository req.project
  return (← repo.create stamp req).toWire

/-- Changes a record of a project. -/
def update (s : Service) (now : Instant) (req : Wire.UpdateRequest) : Request Wire.Ip := do
  let repo ← s.repository req.project
  return (← repo.update now req).toWire

/-- Gives an address of a project back. -/
def delete (s : Service) (req : Wire.RecordRequest) : Request Wire.Ip := do
  let repo ← s.repository req.project
  return (← repo.delete req.ip).toWire

/-- The records of a project that a request admits. -/
def list (s : Service) (req : Wire.ListRequest) : Request (List Wire.Ip) := do
  let repo ← s.repository (req.project.getD "")
  let q ← Request.ofExcept (Query.ofRequest req)
  return (← repo.list q).map Record.toWire

end Service

namespace AdminService

/-- The records of all projects that a request admits. -/
def list (req : Wire.ListRequest) : Request (List Wire.Ip) := do
  let q ← Request.ofExcept (Query.ofRequest req)
  let repo : Repository := ⟨.unscoped, false⟩
  return (← repo.list q).map Record.toWire

end AdminService

end Ipam
