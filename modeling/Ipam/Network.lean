import Ipam.Prefix.Basic

/-!
# Projects and networks

A project is a tenant. A network belongs to a project and lists the prefixes that addresses are
handed out from, in the order in which they are tried. A network may have a parent network, and it
may be shared with all projects.
-/

namespace Ipam

/-- A tenant. -/
structure Project where
  /-- The id of the project. -/
  id : String
  deriving DecidableEq

/-- A network. -/
structure Network where
  /-- The id of the network. -/
  id : String
  /-- The id of the project that owns it. -/
  projectId : String
  /-- The id of its parent network. -/
  parentId : Option String
  /-- Whether all projects may take addresses from it. -/
  shared : Bool
  /-- Its prefixes, in the order in which they are tried. -/
  prefixes : List Prefix
  /-- The address families it offers. -/
  families : List Family
  deriving DecidableEq

namespace Network

/-- The families of prefixes, each once, in the order of first appearance; `seen` are listed
already. -/
def familiesOf (seen : List Family) : List Prefix → List Family
  | [] => []
  | p :: ps =>
    if p.family ∈ seen then familiesOf seen ps
    else p.family :: familiesOf (p.family :: seen) ps

/-- A network without a parent that is not shared and offers the families of its prefixes. -/
def ofPrefixes (id projectId : String) (prefixes : List Prefix) : Network where
  id := id
  projectId := projectId
  parentId := none
  shared := false
  prefixes := prefixes
  families := familiesOf [] prefixes

/-- The prefixes of a family. -/
def prefixesOf (n : Network) (f : Family) : List Prefix :=
  n.prefixes.filter fun p => decide (p.family = f)

/-- Whether the network offers a family. -/
def supports (n : Network) (f : Family) : Bool := decide (f ∈ n.families)

/-- Whether the network has a parent; an empty id names none. -/
def hasParent (n : Network) : Bool :=
  match n.parentId with
  | some parent => !parent.isEmpty
  | none => false

/-- Whether a project may take addresses from the network: it is shared, it has no parent, or the
project owns it. -/
def isOpenTo (n : Network) (p : Project) : Bool :=
  n.shared || !n.hasParent || decide (p.id = n.projectId)

end Network

end Ipam
