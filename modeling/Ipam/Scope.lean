import Ipam.Error
import Ipam.Network
import Ipam.Record.Wire

/-!
# What a request may touch, and what it asks for

A scope limits a repository to the records of one project, or not at all. Taking an address from a
network is checked against the network alone (`checkOpen`). The family of a new address follows
from the request and, where that leaves it open, from the network (`chooseFamily`).
-/

namespace Ipam

/-- The projects whose records are in view. -/
inductive Scope where
  /-- One project. -/
  | project (id : String)
  /-- All projects. -/
  | unscoped
  deriving DecidableEq

namespace Scope

/-- Whether the records of a project are in view. -/
def admits : Scope → (projectId : String) → Bool
  | .project id, projectId => decide (id = projectId)
  | .unscoped, _ => true

/-- The one project in view. -/
def projectId? : Scope → Option String
  | .project id => some id
  | .unscoped => none

/-- The scope of a request that names its project; an empty id names none. -/
def ofProject (id : String) : Except RequestError Scope :=
  if id.isEmpty then .error (.invalid .projectMissing) else .ok (.project id)

end Scope

/-- Refuses a project that may not take addresses from a network. -/
def checkOpen (p : Project) (n : Network) : Except RequestError Unit :=
  if n.isOpenTo p then .ok () else .error (.notShared p.id n.projectId)

namespace Wire

/-- The retention that callers name, which they must. -/
def Kind.retention : Kind → Except RequestError Retention
  | .ephemeral => .ok .ephemeral
  | .static => .ok .static
  | .unspecified => .error (.invalid .kindUnspecified)

/-- The retention that callers name, if they do. -/
def Kind.retention? : Kind → Option Retention
  | .ephemeral => some .ephemeral
  | .static => some .static
  | .unspecified => none

/-- How callers name a retention. -/
def Kind.ofRetention : Retention → Kind
  | .ephemeral => .ephemeral
  | .static => .static

/-- The family that callers name, which they must. -/
def FamilyName.family : FamilyName → Except RequestError Family
  | .v4 => .ok .v4
  | .v6 => .ok .v6
  | .unspecified => .error (.invalid .familyUnspecified)

/-- The family that callers name, if they do. -/
def FamilyName.family? : FamilyName → Option Family
  | .v4 => some .v4
  | .v6 => some .v6
  | .unspecified => none

end Wire

/-- The address that a request asks for by its text. -/
def readLiteral (literal : String) : Except RequestError Addr :=
  match Addr.parse? literal with
  | some a => .ok a
  | none => .error (.invalid (.literalUnparsable literal))

/-- The family of a new address: that of the specific address, else the one asked for, which the
network must offer, else the only one the network offers, else version 4. -/
def chooseFamily (requested : Option Wire.FamilyName) (literal : Option String) (n : Network) :
    Except RequestError Family :=
  match literal, requested with
  | some _, some _ => .error (.invalid .literalWithFamily)
  | some literal, none => (readLiteral literal).map Addr.family
  | none, some name => do
    let f ← name.family
    if n.supports f then .ok f else .error (.invalid (.familyAbsent f n.id))
  | none, none =>
    match n.families with
    | [only] => .ok only
    | _ => .ok .v4

end Ipam
