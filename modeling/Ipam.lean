import Ipam.Address.Basic
import Ipam.Address.Text
import Ipam.Allocate
import Ipam.Call
import Ipam.CommandLine.Arguments
import Ipam.CommandLine.Options
import Ipam.CommandLine.Run
import Ipam.CommandLine.Session
import Ipam.CommandLine.State
import Ipam.Config.Basic
import Ipam.Config.Codec
import Ipam.Error
import Ipam.Format
import Ipam.Instant
import Ipam.Json.Basic
import Ipam.Json.Codec
import Ipam.Json.Parser
import Ipam.Json.Printer
import Ipam.Main
import Ipam.Network
import Ipam.OrderedSet
import Ipam.Pool
import Ipam.Prefix.Basic
import Ipam.Prefix.Text
import Ipam.Program
import Ipam.Proofs.Address.Text
import Ipam.Proofs.CommandLine.Serve
import Ipam.Proofs.CommandLine.Session
import Ipam.Proofs.CommandLine.State
import Ipam.Proofs.Config.Validity
import Ipam.Proofs.Course.Acquisition
import Ipam.Proofs.Course.Compensation
import Ipam.Proofs.Course.Completion
import Ipam.Proofs.Course.Counting
import Ipam.Proofs.Course.Creation
import Ipam.Proofs.Course.Deadline
import Ipam.Proofs.Course.Deletion
import Ipam.Proofs.Course.Effect
import Ipam.Proofs.Course.Exchange
import Ipam.Proofs.Course.Fate
import Ipam.Proofs.Course.Host
import Ipam.Proofs.Course.Interruption
import Ipam.Proofs.Course.Lineage
import Ipam.Proofs.Course.Log
import Ipam.Proofs.Course.Overlap
import Ipam.Proofs.Course.Ownership
import Ipam.Proofs.Course.Placement
import Ipam.Proofs.Course.Resolution
import Ipam.Proofs.Course.Stage
import Ipam.Proofs.Course.System
import Ipam.Proofs.Course.Traffic
import Ipam.Proofs.Course.Transcript
import Ipam.Proofs.Course.Treatment
import Ipam.Proofs.Course.Turn
import Ipam.Proofs.Course.Update
import Ipam.Proofs.Course.Version
import Ipam.Proofs.Instant.Text
import Ipam.Proofs.Json.Codec
import Ipam.Proofs.Json.Text
import Ipam.Proofs.Network.Families
import Ipam.Proofs.Pool.Exhaustion
import Ipam.Proofs.Pool.Held
import Ipam.Proofs.Pool.Message
import Ipam.Proofs.Pool.Normal
import Ipam.Proofs.Pool.Snapshot
import Ipam.Proofs.Prefix.Text
import Ipam.Proofs.Record.Exchange
import Ipam.Proofs.Record.Revision
import Ipam.Proofs.Service.Composition
import Ipam.Proofs.Service.Delivery
import Ipam.Proofs.Service.Grant
import Ipam.Proofs.Service.Isolation
import Ipam.Proofs.Service.Ledger
import Ipam.Proofs.Service.Listing
import Ipam.Proofs.Service.Narrowing
import Ipam.Proofs.Service.Operation
import Ipam.Proofs.Service.Outcome
import Ipam.Proofs.Service.Recovery
import Ipam.Proofs.Service.Refinement
import Ipam.Proofs.Service.Serve
import Ipam.Proofs.Service.Tenant
import Ipam.Proofs.Store.Descent
import Ipam.Proofs.Store.Project
import Ipam.Proofs.Store.Request
import Ipam.Proofs.Store.WellFormed
import Ipam.Proofs.Tag.History
import Ipam.Proofs.Tag.Merge
import Ipam.Proofs.Tag.Strict
import Ipam.Proofs.Tag.Text
import Ipam.Proofs.Text.Numeral
import Ipam.Proofs.Uuid.Text
import Ipam.Query
import Ipam.Record.Basic
import Ipam.Record.Exchange
import Ipam.Record.Wire
import Ipam.Repository
import Ipam.Scope
import Ipam.Service
import Ipam.Simulation
import Ipam.Span
import Ipam.Store
import Ipam.Tag
import Ipam.Text.Blank
import Ipam.Text.Numeral
import Ipam.Text.Printable
import Ipam.Text.Quoted
import Ipam.Uuid
import Ipam.Yaml.Basic
import Ipam.Yaml.Parser
import Ipam.Yaml.Scalar
