import Ipam.CommandLine.Arguments
import Ipam.CommandLine.State
import Ipam.Service

/-!
# Running a command

A run serves one command from collaborators in memory that hold the state of the run before
(`Command.serve`). A command that fails leaves no state behind: what it did in memory is forgotten,
and the next run starts from the same state. The deadline of the request counts from its start, and
the time is looked at before every call.
-/

namespace Ipam.CommandLine

/-- What a command answers. -/
inductive Answer where
  /-- One record. -/
  | record (w : Wire.Ip)
  /-- A list of records. -/
  | records (ws : List Wire.Ip)
  deriving DecidableEq

/-- An answer as a value. -/
def Answer.toJson : Answer → Json
  | .record w => w.toJson
  | .records ws => .array (ws.map Wire.Ip.toJson)

/-- Why a run fails. -/
inductive RunError where
  /-- The configuration cannot be opened. -/
  | configClosed (path : String)
  /-- The configuration cannot be read. -/
  | configUnreadable (path : String)
  /-- The configuration is not valid. -/
  | configInvalid (error : ConfigError)
  /-- No state file is named. -/
  | stateUnnamed
  /-- The state file is there, but holds no text. -/
  | stateUnreadable (path : String)
  /-- The state file does not describe a state. -/
  | stateUnparsable (path : String)
  /-- The state file cannot be written. -/
  | stateUnwritable (path : String)
  /-- The command needs a project. -/
  | projectUnnamed
  /-- The request fails. -/
  | requestFailed (error : RequestError)
  deriving DecidableEq

/-- The wording of the reason why a run fails. -/
def RunError.message : RunError → String
  | .configClosed path => "Failed to open configuration '" ++ path ++ "'"
  | .configUnreadable path => "Failed to parse configuration '" ++ path ++ "'"
  | .configInvalid error => error.message
  | .stateUnnamed => "no state file given on the command line or in the configuration"
  | .stateUnreadable path => "Failed to read state file '" ++ path ++ "'"
  | .stateUnparsable path => "Failed to parse state file '" ++ path ++ "'"
  | .stateUnwritable path => "Failed to write state file '" ++ path ++ "'"
  | .projectUnnamed => "--project is required for this command"
  | .requestFailed error => error.message

/-- What a run needs of the world besides files. -/
structure Surroundings (m : Type → Type) where
  /-- Starts the clock of the request, which runs for a span. -/
  startClock : Span → m Unit
  /-- Whether the span has passed. -/
  isLate : m Bool
  /-- The choice of the allocator where it has one. -/
  pick : m Nat
  /-- The time, and an identifier that nobody else has. -/
  stamp : m Stamp

/-! ## Requests -/

/-- The request that a command makes for a project. A list without a project is an
administrator's. -/
def Command.request (service : Service) (stamp : Stamp) (project : Option String) :
    Command → Except RunError (Request Answer)
  | .create req => do
    let project ← named
    return .record <$> service.create stamp { req with project := project }
  | .update req => do
    let project ← named
    return .record <$> service.update stamp.now { req with project := project }
  | .delete id => do
    let project ← named
    return .record <$> service.delete ⟨id, project⟩
  | .get id => do
    let project ← named
    return .record <$> service.get ⟨id, project⟩
  | .list req =>
    .ok (.records <$> if project.isSome then service.list req else AdminService.list req)
where
  /-- The project, which must be named. -/
  named : Except RunError String :=
    match project with
    | some project => .ok project
    | none => .error .projectUnnamed

section Serving

variable {m : Type → Type} [Monad m] (s : Surroundings m)

/-- Answers a call from memory. -/
def performCall (c : Call) : StateT Memory m c.Answer := fun memory => do
  return memory.perform (← s.pick) c

/-- What becomes of the calls of a run: they are answered from memory, as long as it is not too
late. -/
def handler : Handler (StateT Memory m) where
  guarded c := do
    if ← s.isLate then return .error .deadlineExceeded
    else return .ok (← performCall s c)
  detached c := performCall s c

/-- Serves a command from a state: its answer and the state after it, or why it fails. -/
def Command.serve (config : Config) (state : State) (project : Option String) (command : Command) :
    m (Except RunError (Answer × State)) := do
  let service : Service := ⟨config.general.releaseOnRefusal⟩
  match command.request service (← s.stamp) project with
  | .error e => return .error e
  | .ok request =>
    s.startClock config.general.requestTimeout
    let (result, memory) ← (request.run.run (handler s)).run (state.toMemory config)
    match result with
    | .ok answer => return .ok (answer, .ofMemory memory)
    | .error e => return .error (.requestFailed e)

end Serving

end Ipam.CommandLine
