import Ipam.CommandLine.Run
import Ipam.Config.Codec

/-!
# A run from words to files

A run reads its command line, its configuration and its state file, serves the command, shows the
answer and writes the state file. The state file is written only after the answer was shown, and
only if there is one.
-/

namespace Ipam.CommandLine

/-- What there is to be read of a file. -/
inductive Contents where
  /-- There is no such file. -/
  | missing
  /-- The file may not be opened. -/
  | closed
  /-- The file can be opened, but holds no text. -/
  | garbled
  /-- The file holds a text. -/
  | text (s : String)
  deriving DecidableEq

/-- What a run needs of files. -/
structure Files (m : Type → Type) where
  /-- Reads the file at a path. -/
  read : String → m Contents
  /-- Writes a text to the file at a path; whether that is possible. -/
  write : String → String → m Bool

/-- How a run ends. -/
inductive Outcome where
  /-- It shows a text. -/
  | shown (out : String)
  /-- It fails, after it may have shown a text. -/
  | failed (out : String) (error : RunError)
  /-- The command line is misused. -/
  | misused
  deriving DecidableEq

/-- The exit status of a run. -/
def Outcome.status : Outcome → Nat
  | .shown _ => 0
  | .failed .. => 1
  | .misused => 2

/-- The version of the program. -/
def version : String := "ipledger 0.1.0\n"

/-- How the program is used. -/
def usage : String :=
  "Usage: ipledger --config <CONFIG> [--state <STATE>] [--project <PROJECT>] <COMMAND>\n\n" ++
  "Commands:\n" ++
  "  create --network <NETWORK> [--name <NAME>] [--description <DESCRIPTION>]\n" ++
  "         [--ip <IP> | --family <v4|v6>] [--machine-id <MACHINE_ID>]\n" ++
  "         [--type <ephemeral|static>] [--tag <TAG>]...\n" ++
  "  update <ID> [--name <NAME>] [--description <DESCRIPTION>]\n" ++
  "         [--type <ephemeral|static>] [--tag <TAG>... | --clear-tags]\n" ++
  "  delete <ID>\n" ++
  "  get <ID>\n" ++
  "  list   [--network <NETWORK>] [--name <NAME>] [--ip <IP>] [--machine-id <MACHINE_ID>]\n" ++
  "         [--type <ephemeral|static>] [--family <v4|v6>] [--tag <TAG>]...\n"

section

variable {m : Type → Type} [Monad m] (files : Files m) (s : Surroundings m)

/-- Reads a valid configuration. -/
def loadConfig (path : String) : ExceptT RunError m Config := do
  match ← files.read path with
  | .missing | .closed => throw (.configClosed path)
  | .garbled => throw (.configUnreadable path)
  | .text text =>
    match Config.parse? text with
    | none => throw (.configUnreadable path)
    | some config =>
      match config.validate with
      | .error e => throw (.configInvalid e)
      | .ok _ => return config

/-- Reads the state that a file keeps; a file that is not there keeps the empty one. -/
def loadState (path : String) : ExceptT RunError m State := do
  match ← files.read path with
  | .missing => return ∅
  | .closed | .garbled => throw (.stateUnreadable path)
  | .text text =>
    match State.parse? text with
    | none => throw (.stateUnparsable path)
    | some state => return state

/-- Serves the command of a command line: the text to show, and the state and where to keep it. -/
def Arguments.serve (args : Arguments) : ExceptT RunError m (String × State × String) := do
  let config ← loadConfig files args.config
  let path ← match args.state.or config.general.stateFile with
    | some path => pure path
    | none => throw .stateUnnamed
  let state ← loadState files path
  let (answer, state) ← ExceptT.mk (args.command.serve s config state args.project)
  return (answer.toJson.pretty ++ "\n", state, path)

/-- Runs a command line. -/
def run (words : List String) : m Outcome := do
  match Arguments.read words with
  | .error .help => return .shown usage
  | .error .version => return .shown version
  | .error .misuse => return .misused
  | .ok args =>
    match ← (args.serve files s).run with
    | .error e => return .failed "" e
    | .ok (out, state, path) =>
      if ← files.write path state.text then return .shown out
      else return .failed out (.stateUnwritable path)

end

end Ipam.CommandLine
