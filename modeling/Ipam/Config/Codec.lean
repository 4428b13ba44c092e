import Ipam.Config.Basic
import Ipam.Json.Codec
import Ipam.Yaml.Parser

/-!
# Configurations in YAML and JSON

People write configurations in YAML (`Config.parse?`); programs exchange them in JSON. Both are
read by the same rules. A document without a value is the configuration that declares nothing.
-/

namespace Ipam

/-- The general settings as a value. -/
def Settings.toJson (s : Settings) : Json :=
  .object [
    ("log_level", .string s.logLevel),
    ("request_timeout", .string s.requestTimeout.text),
    ("release_on_persist_failure", .bool s.releaseOnRefusal),
    ("state_file", Json.ofOption Json.string s.stateFile)]

/-- A declared network as a value. -/
def NetworkEntry.toJson (n : NetworkEntry) : Json :=
  .object [
    ("id", .string n.id),
    ("project", .string n.project),
    ("parent_network", Json.ofOption Json.string n.parent),
    ("shared", .bool n.shared),
    ("prefixes", Json.strings n.prefixes)]

namespace Config

/-- A configuration as a value. -/
def toJson (c : Config) : Json :=
  .object [
    ("general", c.general.toJson),
    ("projects", .array (c.projects.map fun id => .object [("id", .string id)])),
    ("networks", .array (c.networks.map NetworkEntry.toJson))]

/-- The configuration that a JSON value describes. -/
def ofJson? : Json → Option Config := read Json.format

/-- The configuration that a YAML document describes. -/
def parse? (s : String) : Option Config := (Yaml.parse? s).bind (read Yaml.format)

end Config

end Ipam
