import Ipam.Format
import Ipam.Network
import Ipam.Span
import Ipam.Text.Quoted
import Ipam.Prefix.Text

/-!
# Configurations

A configuration declares projects and networks, with prefixes as texts, and some settings. It is
valid if its ids are there and distinct, if every network names a declared project and, where it
has a parent, a declared network, and if every network has prefixes and all of them can be read.
The first thing that is wrong, in the order of the configuration, is reported.
-/

namespace Ipam

/-- The general settings. -/
structure Settings where
  /-- What is logged. -/
  logLevel : String
  /-- How long a request may take. -/
  requestTimeout : Span
  /-- Whether an address is given back when the store refuses its record. -/
  releaseOnRefusal : Bool
  /-- The state file, where the command line names none. -/
  stateFile : Option String
  deriving DecidableEq

/-- The settings of a configuration that makes none. -/
def Settings.default : Settings := ⟨"info", ⟨10000000000⟩, false, none⟩

/-- A declared network. -/
structure NetworkEntry where
  /-- The id. -/
  id : String
  /-- The id of the project that owns it. -/
  project : String
  /-- The id of its parent network. -/
  parent : Option String
  /-- Whether all projects may take addresses from it. -/
  shared : Bool
  /-- The texts of its prefixes, in the order in which they are tried. -/
  prefixes : List String
  deriving DecidableEq

/-- A configuration. -/
structure Config where
  /-- The general settings. -/
  general : Settings
  /-- The ids of the declared projects. -/
  projects : List String
  /-- The declared networks. -/
  networks : List NetworkEntry
  deriving DecidableEq

/-- What is wrong with a configuration. -/
inductive ConfigError where
  /-- Requests may take no time. -/
  | timeoutZero
  /-- A project has no id. -/
  | projectUnnamed
  /-- Two projects have the same id. -/
  | projectRepeated (id : String)
  /-- A network has no id. -/
  | networkUnnamed
  /-- Two networks have the same id. -/
  | networkRepeated (id : String)
  /-- A network belongs to a project that is not declared. -/
  | projectUnknown (network project : String)
  /-- A network has no prefixes. -/
  | noPrefixes (network : String)
  /-- A prefix of a network cannot be read. -/
  | prefixUnparsable (network raw : String)
  /-- The parent of a network is not declared. -/
  | parentUnknown (network parent : String)
  deriving DecidableEq, Repr

namespace ConfigError

/-- The sections of a configuration. -/
inductive Section where
  | general
  | project
  | network
  deriving DecidableEq, Repr

/-- The section that is wrong. -/
def place : ConfigError → Section
  | .timeoutZero => .general
  | .projectUnnamed => .project
  | .projectRepeated _ => .project
  | _ => .network

/-- What is wrong, in words. -/
def detail : ConfigError → String
  | .timeoutZero => "request_timeout must be greater than zero"
  | .projectUnnamed => "project id cannot be empty"
  | .projectRepeated id => "duplicate project id " ++ Text.quoted id
  | .networkUnnamed => "network id cannot be empty"
  | .networkRepeated id => "duplicate network id " ++ Text.quoted id
  | .projectUnknown network project =>
    "network " ++ Text.quoted network ++ " references unknown project " ++ Text.quoted project
  | .noPrefixes network => "network " ++ Text.quoted network ++ " has no prefixes"
  | .prefixUnparsable network raw =>
    "network " ++ Text.quoted network ++ " has invalid prefix " ++ Text.quoted raw ++ ": "
      ++ Addr.syntaxMessage
  | .parentUnknown network parent =>
    "network " ++ Text.quoted network ++ " references unknown parent network "
      ++ Text.quoted parent

/-- The wording of what is wrong. -/
def message (e : ConfigError) : String :=
  match e.place with
  | .general => "Invalid general configuration: " ++ e.detail
  | .project => "Invalid project configuration: " ++ e.detail
  | .network => "Invalid network configuration: " ++ e.detail

end ConfigError

namespace Config

/-- The configuration that declares nothing. -/
def default : Config := ⟨.default, [], []⟩

/-! ## Validity -/

/-- Checks the ids of projects; `seen` stand before them. -/
def checkProjects (seen : List String) : List String → Except ConfigError Unit
  | [] => .ok ()
  | id :: ids =>
    if id.isEmpty then .error .projectUnnamed
    else if id ∈ seen then .error (.projectRepeated id)
    else checkProjects (id :: seen) ids

/-- Checks the prefixes of a network. -/
def checkPrefixes (network : String) : List String → Except ConfigError Unit
  | [] => .ok ()
  | raw :: raws =>
    if (Prefix.parse? raw).isNone then .error (.prefixUnparsable network raw)
    else checkPrefixes network raws

/-- Checks networks one by one against the declared projects; `seen` stand before them. -/
def checkNetworks (projects seen : List String) : List NetworkEntry → Except ConfigError Unit
  | [] => .ok ()
  | n :: ns =>
    if n.id.isEmpty then .error .networkUnnamed
    else if n.id ∈ seen then .error (.networkRepeated n.id)
    else if n.project ∉ projects then .error (.projectUnknown n.id n.project)
    else if n.prefixes = [] then .error (.noPrefixes n.id)
    else
      match checkPrefixes n.id n.prefixes with
      | .error e => .error e
      | .ok _ => checkNetworks projects (n.id :: seen) ns

/-- Checks the parents of networks against the declared networks, in whatever order these are
declared. An empty id names no parent. -/
def checkParents (declared : List String) : List NetworkEntry → Except ConfigError Unit
  | [] => .ok ()
  | n :: ns =>
    match n.parent with
    | some parent =>
      if !parent.isEmpty ∧ parent ∉ declared then .error (.parentUnknown n.id parent)
      else checkParents declared ns
    | none => checkParents declared ns

/-- Finds the first thing that is wrong with a configuration. -/
def validate (c : Config) : Except ConfigError Unit :=
  if c.general.requestTimeout.nanos = 0 then .error .timeoutZero
  else do
    checkProjects [] c.projects
    checkNetworks c.projects [] c.networks
    checkParents (c.networks.map (·.id)) c.networks

/-! ## What it declares -/

/-- The declared network, without the prefixes that cannot be read. -/
def NetworkEntry.toNetwork (n : NetworkEntry) : Network :=
  { Network.ofPrefixes n.id n.project (n.prefixes.filterMap Prefix.parse?) with
    parentId := n.parent
    shared := n.shared }

/-- The declared networks in order. -/
def toNetworks (c : Config) : List Network := c.networks.map NetworkEntry.toNetwork

/-- The declared projects in order. -/
def toProjects (c : Config) : List Project := c.projects.map Project.mk

/-! ## Reading -/

section Reading

variable {V : Type} (f : Format V)

/-- The span that a value is. -/
def readSpan (v : V) : Option Span := (f.text? v).bind Span.parse?

/-- The settings that a value describes. -/
def readSettings (v : V) : Option Settings := do
  let fs ← f.record ["log_level", "request_timeout", "release_on_persist_failure", "state_file"] v
  return {
    logLevel := ← fs.defaulted "log_level" Settings.default.logLevel f.text?
    requestTimeout := ← fs.defaulted "request_timeout" Settings.default.requestTimeout (readSpan f)
    releaseOnRefusal := ← fs.defaulted "release_on_persist_failure" false f.flag?
    stateFile := ← fs.defaulted "state_file" none (f.nullable f.text?)
  }

/-- The id of the project that a value declares. -/
def readProject (v : V) : Option String := do
  let fs ← f.record ["id"] v
  fs.required "id" f.text?

/-- The network that a value declares. -/
def readNetwork (v : V) : Option NetworkEntry := do
  let fs ← f.record ["id", "project", "parent_network", "shared", "prefixes"] v
  return {
    id := ← fs.required "id" f.text?
    project := ← fs.required "project" f.text?
    parent := ← fs.defaulted "parent_network" none (f.nullable f.text?)
    shared := ← fs.defaulted "shared" false f.flag?
    prefixes := ← fs.required "prefixes" (f.list f.text?)
  }

/-- The configuration that a value describes. -/
def read (v : V) : Option Config := do
  let fs ← f.record ["general", "projects", "networks"] v
  return {
    general := ← fs.defaulted "general" .default (readSettings f)
    projects := ← fs.defaulted "projects" [] (f.list (readProject f))
    networks := ← fs.defaulted "networks" [] (f.list (readNetwork f))
  }

end Reading

end Config

end Ipam
