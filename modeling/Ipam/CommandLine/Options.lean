/-!
# Options on a command line

A command is given as words: options, with or without a value, and operands. An option is written
with its long name (`--tag x`, `--tag=x`) or, if it has one, with its letter (`-n x`, `-nx`,
`-n=x`); letters without values may be put together. `--` ends the options. A word that starts with
a hyphen is never the value of the option before it, except the hyphen alone.

The words are read from left to right, and the first that is out of place, or asks for help or for
the version, ends the reading.
-/

namespace Ipam.CommandLine

/-- What an option does with a value. -/
inductive Taking where
  /-- It has none. -/
  | nothing
  /-- It has any text as its value. -/
  | text
  /-- It has a text that is not empty as its value. -/
  | path
  /-- It has one of some texts as its value. -/
  | choice (texts : List String)
  /-- It ends the reading with the usage. -/
  | help
  /-- It ends the reading with the version. -/
  | version
  deriving DecidableEq

/-- An option that a command knows. -/
structure Opt where
  /-- The long name. -/
  name : String
  /-- The letter. -/
  letter : Option Char
  /-- What it does with a value. -/
  taking : Taking
  /-- Whether it may be given more than once. -/
  repeats : Bool
  deriving DecidableEq

/-- Why the reading of a command line ends without a command. -/
inductive Halt where
  /-- The usage was asked for. -/
  | help
  /-- The version was asked for. -/
  | version
  /-- Something is missing or out of place. -/
  | misuse
  deriving DecidableEq, Repr

/-- What the words of a command say. -/
structure Given where
  /-- The options with their values, in order; an option without a value has an empty one. -/
  options : List (String × String)
  /-- The operands in order. -/
  operands : List String
  deriving DecidableEq

namespace Given

/-- Nothing is said. -/
def empty : Given := ⟨[], []⟩

instance : EmptyCollection Given := ⟨empty⟩

/-- Whether an option was given. -/
def has (g : Given) (name : String) : Bool := g.options.any fun o => o.1 == name

/-- The value of an option. -/
def get? (g : Given) (name : String) : Option String := g.options.lookup name

/-- The values of an option that may be repeated. -/
def values (g : Given) (name : String) : List String :=
  g.options.filterMap fun o => if o.1 = name then some o.2 else none

/-- The value of an option that must be given. -/
def require (g : Given) (name : String) : Except Halt String :=
  match g.get? name with
  | some value => .ok value
  | none => .error .misuse

/-- Adds an option, unless it was given already and may not be repeated or its value is not one
that it may have. -/
def add (g : Given) (o : Opt) (value : String) : Except Halt Given :=
  let admitted := match o.taking with
    | .path => !value.isEmpty
    | .choice texts => texts.contains value
    | _ => true
  if admitted && (o.repeats || !g.has o.name) then
    .ok { g with options := g.options ++ [(o.name, value)] }
  else .error .misuse

end Given

/-- A word without its hyphen or hyphens, if it is an option or several. -/
inductive Word where
  /-- A long name, and the value after an equals sign. -/
  | long (name : String) (value : Option String)
  /-- Letters, perhaps with a value at the end. -/
  | letters (cs : List Char)
  /-- The end of the options. -/
  | stop
  /-- Any other word. -/
  | operand

/-- What a word is. -/
def Word.of (w : String) : Word :=
  match w.toList with
  | ['-', '-'] => .stop
  | '-' :: '-' :: cs =>
    match cs.dropWhile (· != '=') with
    | '=' :: value => .long (String.ofList (cs.takeWhile (· != '='))) (some (String.ofList value))
    | _ => .long (String.ofList cs) none
  | '-' :: c :: cs => .letters (c :: cs)
  | _ => .operand

/-- Whether a word can be the value of the option before it. -/
def Word.isValue (w : String) : Bool :=
  match Word.of w with
  | .operand => true
  | _ => false

/-- What a word, or the rest of one, leaves to be read. -/
inductive Step where
  /-- Nothing: all it says is in what is given. -/
  | complete (given : Given)
  /-- The value of an option, which is the next word. -/
  | awaiting (o : Opt)

/-- Reads an option; `value` is what stands in the same word. -/
def readOption (given : Given) (o : Opt) (value : Option String) : Except Halt Step :=
  match o.taking, value with
  | .help, none => .error .help
  | .version, none => .error .version
  | .nothing, none => (given.add o "").map .complete
  | .help, some _ | .version, some _ | .nothing, some _ => .error .misuse
  | _, some value => (given.add o value).map .complete
  | _, none => .ok (.awaiting o)

/-- The value that the rest of a word of letters holds: all of it, without an equals sign at its
front. -/
def attached : List Char → Option String
  | [] => none
  | '=' :: cs => some (String.ofList cs)
  | cs => some (String.ofList cs)

/-- Reads a word of letters. -/
def readLetters (opts : List Opt) (given : Given) : List Char → Except Halt Step
  | [] => .ok (.complete given)
  | c :: cs =>
    match opts.find? fun o => o.letter == some c with
    | none => .error .misuse
    | some o =>
      match o.taking with
      | .help | .version | .nothing =>
        match readOption given o none with
        | .ok (.complete given) => readLetters opts given cs
        | r => r
      | _ => readOption given o (attached cs)

/-- Reads a word that is an option. -/
def readWord (opts : List Opt) (given : Given) : Word → Except Halt Step
  | .long name value =>
    match opts.find? fun o => o.name == name with
    | some o => readOption given o value
    | none => .error .misuse
  | .letters cs => readLetters opts given cs
  | _ => .ok (.complete given)

/-- Reads the words of a command that takes at most `room` operands. -/
def readWords (opts : List Opt) (room : Nat) (given : Given) : List String → Except Halt Given
  | [] => .ok given
  | w :: ws =>
    match Word.of w with
    | .stop =>
      if given.operands.length + ws.length ≤ room then
        .ok { given with operands := given.operands ++ ws }
      else .error .misuse
    | .operand =>
      if given.operands.length < room then
        readWords opts room { given with operands := given.operands ++ [w] } ws
      else .error .misuse
    | word => do
      match ← readWord opts given word with
      | .complete given => readWords opts room given ws
      | .awaiting o =>
        match ws with
        | v :: ws =>
          if Word.isValue v then readWords opts room (← given.add o v) ws else .error .misuse
        | [] => .error .misuse

/-- Reads words up to the first operand: what they say, the operand and the words after it. -/
def readUpTo (opts : List Opt) (given : Given) :
    List String → Except Halt (Given × String × List String)
  | [] => .error .misuse
  | w :: ws =>
    match Word.of w with
    | .stop => .error .misuse
    | .operand => .ok (given, w, ws)
    | word => do
      match ← readWord opts given word with
      | .complete given => readUpTo opts given ws
      | .awaiting o =>
        match ws with
        | v :: ws => if Word.isValue v then readUpTo opts (← given.add o v) ws else .error .misuse
        | [] => .error .misuse

end Ipam.CommandLine
