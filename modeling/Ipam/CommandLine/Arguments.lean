import Ipam.CommandLine.Options
import Ipam.Record.Wire

/-!
# What a command line asks for

A command line names a configuration, perhaps a state file and a project, and a command with its
own options. The commands are the requests that the services serve.
-/

namespace Ipam.CommandLine

/-- A command. Its request leaves the project open, except that of a list. -/
inductive Command where
  /-- Takes an address. -/
  | create (request : Wire.CreateRequest)
  /-- Changes a record. -/
  | update (request : Wire.UpdateRequest)
  /-- Gives an address back. -/
  | delete (id : String)
  /-- Shows a record. -/
  | get (id : String)
  /-- Shows all records that meet some criteria. -/
  | list (request : Wire.ListRequest)
  deriving DecidableEq

/-- What a command line asks for. -/
structure Arguments where
  /-- The path of the configuration. -/
  config : String
  /-- The path of the state file. -/
  state : Option String
  /-- The project to act for. -/
  project : Option String
  /-- The command. -/
  command : Command
  deriving DecidableEq

/-! ## Options -/

/-- An option with a text as its value. -/
def textOption (name : String) (letter : Option Char) : Opt := ⟨name, letter, .text, false⟩

/-- The option that asks for the usage; every command has it. -/
def helpOption : Opt := ⟨"help", some 'h', .help, false⟩

/-- The option that names tags. -/
def tagOption : Opt := ⟨"tag", none, .text, true⟩

/-- The option that names a retention. -/
def typeOption : Opt := ⟨"type", none, .choice ["ephemeral", "static"], false⟩

/-- The option that names a family. -/
def familyOption : Opt := ⟨"family", none, .choice ["v4", "v6"], false⟩

/-- The options before the command. -/
def generalOptions : List Opt :=
  [⟨"config", some 'c', .path, false⟩, ⟨"state", some 's', .path, false⟩,
    textOption "project" (some 'p'), helpOption, ⟨"version", some 'V', .version, false⟩]

/-- The options of `create`. -/
def createOptions : List Opt :=
  [textOption "network" (some 'n'), textOption "name" none, textOption "description" none,
    textOption "ip" none, textOption "machine-id" none, typeOption, familyOption, tagOption,
    helpOption]

/-- The options of `update`. -/
def updateOptions : List Opt :=
  [textOption "name" none, textOption "description" none, typeOption, tagOption,
    ⟨"clear-tags", none, .nothing, false⟩, helpOption]

/-- The options of `list`. -/
def listOptions : List Opt :=
  [textOption "network" (some 'n'), textOption "name" none, textOption "ip" none,
    textOption "machine-id" none, typeOption, familyOption, tagOption, helpOption]

/-! ## Commands -/

namespace Given

/-- The retention that was asked for. -/
def kind? (g : Given) : Option Wire.Kind :=
  (g.get? "type").map fun name => if name = "static" then .static else .ephemeral

/-- The family that was asked for. -/
def family? (g : Given) : Option Wire.FamilyName :=
  (g.get? "family").map fun name => if name = "v6" then .v6 else .v4

/-- The only operand, which must be given. -/
def operand (g : Given) : Except Halt String :=
  match g.operands with
  | [w] => .ok w
  | _ => .error .misuse

/-- Refuses two options together. -/
def exclude (g : Given) (a b : String) : Except Halt Unit :=
  if g.has a && g.has b then .error .misuse else .ok ()

end Given

/-- The `create` command that options describe. -/
def Command.ofCreate (g : Given) : Except Halt Command := do
  g.exclude "ip" "family"
  let network ← g.require "network"
  return .create {
    project := ""
    network := network
    name := g.get? "name"
    description := g.get? "description"
    ip := g.get? "ip"
    machineId := g.get? "machine-id"
    kind := g.kind?
    family := g.family?
    tags := g.values "tag"
  }

/-- The `update` command that options describe. Without a word on tags they stay. -/
def Command.ofUpdate (g : Given) : Except Halt Command := do
  g.exclude "tag" "clear-tags"
  let id ← g.operand
  return .update {
    ip := id
    project := ""
    name := g.get? "name"
    description := g.get? "description"
    kind := g.kind?
    tags := if g.has "tag" || g.has "clear-tags" then some (g.values "tag") else none
  }

/-- The `list` command that options describe. -/
def Command.ofList (project : Option String) (g : Given) : Command :=
  .list {
    ip := g.get? "ip"
    network := g.get? "network"
    project := project
    name := g.get? "name"
    uuid := none
    machineId := g.get? "machine-id"
    parentPrefix := none
    tags := g.values "tag"
    kind := g.kind?
    family := g.family?
  }

/-- The names of the commands. -/
def Command.names : List String := ["create", "update", "delete", "get", "list"]

/-- Reads the name of a command and its words. -/
def Command.read (project : Option String) (name : String) (words : List String) :
    Except Halt Command :=
  match name with
  | "create" => readWords createOptions 0 ∅ words >>= Command.ofCreate
  | "update" => readWords updateOptions 1 ∅ words >>= Command.ofUpdate
  | "delete" => do return .delete (← (← readWords [helpOption] 1 ∅ words).operand)
  | "get" => do return .get (← (← readWords [helpOption] 1 ∅ words).operand)
  | "list" => do return .ofList project (← readWords listOptions 0 ∅ words)
  | "help" => .error (if words.all Command.names.contains then .help else .misuse)
  | _ => .error .misuse

/-- Reads a command line. -/
def Arguments.read (words : List String) : Except Halt Arguments := do
  let (given, name, words) ← readUpTo generalOptions ∅ words
  let project := given.get? "project"
  let command ← Command.read project name words
  let config ← given.require "config"
  return ⟨config, given.get? "state", project, command⟩

end Ipam.CommandLine
