import Ipam.Call
import Ipam.Config.Basic
import Ipam.Json.Codec
import Ipam.Json.Parser
import Ipam.Json.Printer

/-!
# The state between runs

What the command line keeps from one run to the next: the records with their counter, and the
addresses that are held. A run starts with collaborators in memory that hold a state
(`State.toMemory`), and the state after it is read off them (`State.ofMemory`).
-/

namespace Ipam.CommandLine

/-- The contents of the collaborators between runs. -/
structure State where
  /-- The records. -/
  store : Store
  /-- The addresses held. -/
  held : List Allocation
  deriving DecidableEq

namespace State

/-- The state before the first run. -/
def empty : State := ⟨∅, []⟩

instance : EmptyCollection State := ⟨empty⟩

/-- The collaborators that serve a configuration and hold a state. -/
def toMemory (c : Config) (s : State) : Memory where
  catalog := ⟨c.toNetworks, c.toProjects⟩
  pool := .restore s.held
  store := s.store

/-- The state that collaborators hold. -/
def ofMemory (m : Memory) : State := ⟨m.store, m.pool.snapshot⟩

/-- A state as a value. -/
def toJson (s : State) : Json :=
  .object [("store", s.store.toJson), ("allocations", Pool.snapshotToJson s.held)]

/-- The state that a value describes. -/
def ofJson? (v : Json) : Option State := do
  let fs ← Json.format.record ["store", "allocations"] v
  return {
    store := ← fs.required "store" Store.ofJson?
    held := ← fs.required "allocations" Pool.snapshotOfJson?
  }

/-- The text of the state file that keeps a state. -/
def text (s : State) : String := s.toJson.pretty

/-- The state that the text of a state file describes. -/
def parse? (s : String) : Option State := (Json.parse? s).bind ofJson?

end State

end Ipam.CommandLine
