import Ipam.Pool
import Ipam.Store

/-!
# Calls to collaborators

A request does its work by calls to four collaborators: the lookups of projects and networks, the
allocator and the store. A call is a value, so that the calls a request makes can be listed,
answered in any way and interleaved with those of others. `Call.Answer` says what a collaborator
may answer to each.
-/

namespace Ipam

/-- A call to a collaborator. -/
inductive Call where
  /-- Looks a project up. -/
  | project (id : String)
  /-- Looks a network up on behalf of a project. -/
  | network (project id : String)
  /-- Takes an address. -/
  | acquire (request : AcquireRequest)
  /-- Gives an address back. -/
  | release (request : ReleaseRequest)
  /-- Reads a record. -/
  | storeGet (id : String)
  /-- Reads all records that a query admits. -/
  | storeList (query : Query)
  /-- Adds a record. -/
  | storeCreate (record : Record)
  /-- Puts a record in the place of the one that was read. -/
  | storeUpdate (new old : Record)
  /-- Removes a record. -/
  | storeDelete (record : Record)
  deriving DecidableEq

namespace Call

/-- The answers of a collaborator to a call. -/
@[reducible]
def Answer : Call → Type
  | .project _ => Except StoreError Project
  | .network .. => Except StoreError Network
  | .acquire _ => Except AllocatorError AcquireAnswer
  | .release _ => Except AllocatorError Unit
  | .storeGet _ => Except StoreError Record
  | .storeList _ => Except StoreError (List Record)
  | .storeCreate _ => Except StoreError Record
  | .storeUpdate .. => Except StoreError Unit
  | .storeDelete _ => Except StoreError Unit

end Call

/-! ## The collaborators in memory -/

/-- The collaborators, all kept in memory. -/
structure Memory where
  /-- The lookups. -/
  catalog : Catalog
  /-- The allocator. -/
  pool : Pool
  /-- The store. -/
  store : Store

namespace Memory

/-- Answers a call. `pick` is the choice of the allocator where it has one. -/
def perform (m : Memory) (pick : Nat) : (c : Call) → c.Answer × Memory
  | .project id => (m.catalog.project id, m)
  | .network _ id => (m.catalog.network id, m)
  | .acquire req =>
    let r := m.pool.acquire pick req
    (r.1, { m with pool := r.2 })
  | .release req =>
    let r := m.pool.release req
    (r.1, { m with pool := r.2 })
  | .storeGet id => (m.store.get id, m)
  | .storeList q => (.ok (m.store.list q), m)
  | .storeCreate record =>
    let r := m.store.create record
    (r.1, { m with store := r.2 })
  | .storeUpdate new old =>
    let r := m.store.update new old
    (r.1, { m with store := r.2 })
  | .storeDelete record =>
    let r := m.store.delete record
    (r.1, { m with store := r.2 })

end Memory

end Ipam
