import Ipam.Yaml.Scalar

/-!
# Reading YAML

One document with collections in block style, told by indentation, or in flow style, told by
brackets. The text of a value may be preceded by an anchor, which names it, and by a tag; an alias
stands for the value of a name. Keys are written in line, or after a question mark. Tabs in the
indentation are refused, and so is a second document.

The readers of nodes take the column of the block collection around them, −1 at the top: what goes
on over several lines must be indented by more.
-/

namespace Ipam.Yaml

/-- Skips white space and comments up to the next token; whether a line end was among them. Tabs
count as white space within flow collections, and on the line where `tabs` says so. -/
def skipFrom (flow tabs comment crossed : Bool) : List Char → (col : Nat) → List Char × Nat × Bool
  | [], col => ([], col, crossed)
  | c :: cs, col =>
    if c = '\n' then skipFrom flow flow false true cs 0
    else if comment then skipFrom flow tabs true crossed cs (col + 1)
    else if c = ' ' ∨ (c = '\t' ∧ tabs) then skipFrom flow tabs false crossed cs (col + 1)
    else if c = '#' then skipFrom flow tabs true crossed cs (col + 1)
    else (c :: cs, col, crossed)

/-- The next token, and whether it stands on a later line. -/
def Cursor.advance (cur : Cursor) (flow tabs : Bool) : Cursor × Bool :=
  let (rest, col, crossed) := skipFrom flow tabs false false cur.rest cur.col
  ({ cur with rest := rest, col := col }, crossed)

/-- Whether the text, or the document, ends here. -/
def Cursor.atEnd (cur : Cursor) : Bool := cur.rest.isEmpty || isMarker cur.rest cur.col

/-- Whether an item of a block sequence starts here. -/
def startsItem : List Char → Bool
  | '-' :: cs => atGap cs
  | _ => false

/-- Whether the value of a key starts here; within a flow collection any colon starts one. -/
def startsValue (flow : Bool) : List Char → Bool
  | ':' :: cs => flow || atGap cs
  | _ => false

/-- Whether a key of a block mapping that may be any node starts here. -/
def startsKey : List Char → Bool
  | '?' :: cs => atGap cs
  | _ => false

/-- Whether a character may stand in the name of an anchor. -/
def isNameChar (c : Char) : Bool := c.isAlphanum || c == '_' || c == '-'

/-- Reads the name of an anchor or an alias after its mark. -/
def readName (cur : Cursor) : Option (String × Cursor) :=
  let name := cur.rest.takeWhile isNameChar
  let rest := cur.rest.drop name.length
  let closed := atGap rest || (match rest with | c :: _ => isFlowMark c || c == ':' | [] => true)
  if name.isEmpty || !closed then none else some (String.ofList name, cur.skip name.length)

/-- What stands before the text of a value. -/
structure Properties where
  /-- The name given to it. -/
  anchor : Option String
  /-- Whether it has a tag. -/
  tagged : Bool

/-- Reads an anchor and a tag in any order, and advances to the token after them; whether that
stands on a later line. -/
def readProperties (flow : Bool) :
    (fuel : Nat) → Properties → Cursor → Bool → Option (Properties × Cursor × Bool)
  | 0, _, _, _ => none
  | fuel + 1, props, cur, crossed =>
    match cur.rest with
    | '&' :: _ => do
      let (name, cur) ← readName (cur.skip 1)
      let (cur, later) := cur.advance flow true
      readProperties flow fuel { props with anchor := some name } cur (crossed || later)
    | '!' :: _ =>
      let tag := cur.rest.takeWhile fun c => !(isSpace c || c == '\n' || isFlowMark c)
      let (cur, later) := (cur.skip tag.length).advance flow true
      readProperties flow fuel { props with tagged := true } cur (crossed || later)
    | _ => some (props, cur, crossed)

/-- A value with its properties: a scalar with a tag is not a plain one. -/
def Properties.apply (props : Properties) (v : Yaml) (cur : Cursor) : Yaml × Cursor :=
  let v := match v with
    | .scalar text plain => .scalar text (plain && !props.tagged)
    | v => v
  match props.anchor with
  | some name => (v, { cur with anchors := (name, v) :: cur.anchors })
  | none => (v, cur)

/-- A value read in line: the value, whether it stands on one line, and the place after it. -/
abbrev Inline := Yaml × Bool × Cursor

/-- A scalar read in line. -/
def inlineScalar (plain : Bool) (r : List Char × Bool × Cursor) : Inline :=
  (.scalar (String.ofList r.1) plain, r.2)

mutual

/-- Reads a scalar, an alias or a flow collection. -/
def readInline (flow : Bool) (indent : Int) : (fuel : Nat) → Cursor → Option Inline
  | 0, _ => none
  | fuel + 1, cur =>
    match cur.rest with
    | '\x22' :: _ => (readDouble (cur.rest.length + 1) (cur.skip 1)).map (inlineScalar false)
    | '\x27' :: _ => (readSingle (cur.rest.length + 1) (cur.skip 1)).map (inlineScalar false)
    | '[' :: _ => do
      let (items, cur') ← readFlowItems fuel (cur.skip 1)
      return (.sequence items, cur'.col > cur.col, cur')
    | '\x7b' :: _ => do
      let (entries, cur') ← readFlowEntries fuel (cur.skip 1)
      return (.mapping entries, cur'.col > cur.col, cur')
    | '*' :: _ => do
      let (name, cur) ← readName (cur.skip 1)
      let v ← cur.anchors.lookup name
      return (v, true, cur)
    | cs =>
      if startsPlain flow cs then
        (readPlain flow indent (cs.length + 1) cur).map (inlineScalar true)
      else none

/-- Reads a node of a flow collection; one that is not written is blank. -/
def readFlowNode : (fuel : Nat) → Cursor → Option (Yaml × Cursor)
  | 0, _ => none
  | fuel + 1, cur => do
    let (props, cur, _) ← readProperties true (cur.rest.length + 1) ⟨none, false⟩ cur false
    match cur.rest with
    | ',' :: _ | ']' :: _ | '\x7d' :: _ | ':' :: _ =>
      if props.anchor.isSome || props.tagged then return props.apply blank cur else none
    | _ => do
      let (v, _, cur) ← readInline true (-1) fuel cur
      return props.apply v cur

/-- Reads the value of a key in a flow collection, from the colon on if there is one. -/
def readFlowValue : (fuel : Nat) → Cursor → Option (Option Yaml × Cursor)
  | 0, _ => none
  | fuel + 1, cur =>
    let (cur, _) := cur.advance true true
    if startsValue true cur.rest then
      let (cur, _) := (cur.skip 1).advance true true
      match cur.rest with
      | ',' :: _ | ']' :: _ | '\x7d' :: _ => some (some blank, cur)
      | _ => (readFlowNode fuel cur).map fun r => (some r.1, r.2)
    else some (none, cur)

/-- Reads the items of a flow sequence up to its end. A key with a value is a mapping of one. -/
def readFlowItems : (fuel : Nat) → Cursor → Option (List Yaml × Cursor)
  | 0, _ => none
  | fuel + 1, cur => do
    let (cur, _) := cur.advance true true
    match cur.rest with
    | ']' :: _ => some ([], cur.skip 1)
    | _ =>
      let (key, cur) ← readFlowNode fuel cur
      let (value, cur) ← readFlowValue fuel cur
      let item := match value with
        | some value => .mapping [(key, value)]
        | none => key
      let (cur, _) := cur.advance true true
      match cur.rest with
      | ',' :: _ =>
        let (items, cur) ← readFlowItems fuel (cur.skip 1)
        return (item :: items, cur)
      | ']' :: _ => return ([item], cur.skip 1)
      | _ => none

/-- Reads the entries of a flow mapping up to its end. A key without a value has a blank one. -/
def readFlowEntries : (fuel : Nat) → Cursor → Option (List (Yaml × Yaml) × Cursor)
  | 0, _ => none
  | fuel + 1, cur => do
    let (cur, _) := cur.advance true true
    match cur.rest with
    | '\x7d' :: _ => some ([], cur.skip 1)
    | _ =>
      let (key, cur) ←
        if startsValue true cur.rest then some (blank, cur) else readFlowNode fuel cur
      let (value, cur) ← readFlowValue fuel cur
      let entry := (key, value.getD blank)
      let (cur, _) := cur.advance true true
      match cur.rest with
      | ',' :: _ =>
        let (entries, cur) ← readFlowEntries fuel (cur.skip 1)
        return (entry :: entries, cur)
      | '\x7d' :: _ => return ([entry], cur.skip 1)
      | _ => none

end

mutual

/-- Reads a node at its first token. Block collections are admitted where `block` says so. What
stands before a key on its line belongs to the key. -/
def readNode (indent : Int) (block : Bool) : (fuel : Nat) → Cursor → Option (Yaml × Cursor)
  | 0, _ => none
  | fuel + 1, start => do
    let (props, cur, later) ←
      readProperties false (start.rest.length + 1) ⟨none, false⟩ start false
    let block := block || later
    if cur.atEnd || (later && (cur.col : Int) ≤ indent) then return props.apply blank cur
    else if startsItem cur.rest then
      if block then
        let (items, cur) ← readItems cur.col false fuel cur
        return props.apply (.sequence items) cur
      else none
    else if startsKey cur.rest then
      if block then
        let (entries, cur) ← readEntries cur.col fuel cur
        return props.apply (.mapping entries) cur
      else none
    else
      match cur.rest with
      | '|' :: _ =>
        let (text, cur) ← readBlock true indent (cur.skip 1)
        return props.apply (.scalar (String.ofList text) false) cur
      | '>' :: _ =>
        let (text, cur) ← readBlock false indent (cur.skip 1)
        return props.apply (.scalar (String.ofList text) false) cur
      | _ =>
        let (v, single, after) ← readInline false indent fuel cur
        let (next, crossed) := after.advance false true
        if !crossed && startsValue false next.rest then
          if block && single then
            if later then
              let (entries, cur) ← readEntries cur.col fuel cur
              return props.apply (.mapping entries) cur
            else
              let (entries, cur) ← readEntries start.col fuel start
              return (.mapping entries, cur)
          else none
        else return props.apply v after
termination_by structural fuel => fuel

/-- Reads the items of a block sequence at a column, from an item on. A sequence that is not
indented more than the mapping it belongs to (`indentless`) ends at the mapping's next key. -/
def readItems (col : Nat) (indentless : Bool) :
    (fuel : Nat) → Cursor → Option (List Yaml × Cursor)
  | 0, _ => none
  | fuel + 1, cur => do
    let (next, crossed) := (cur.skip 1).advance false false
    let (item, cur) ←
      if next.atEnd || (crossed && next.col ≤ col) then some (blank, next)
      else readNode col true fuel next
    let (next, crossed) := cur.advance false (cur.col != 0)
    if next.atEnd || next.col < col then return ([item], next)
    else if next.col = col && (crossed || cur.col = 0 || next.rest.length = cur.rest.length) then
      if startsItem next.rest then
        let (items, cur) ← readItems col indentless fuel next
        return (item :: items, cur)
      else if indentless then return ([item], next)
      else none
    else none
termination_by structural fuel => fuel

/-- Reads what follows the mark of a key or a value in a block mapping at a column. -/
def readContent (col : Nat) (block : Bool) : (fuel : Nat) → Cursor → Option (Yaml × Cursor)
  | 0, _ => none
  | fuel + 1, cur =>
    let (next, crossed) := cur.advance false true
    if next.atEnd then some (blank, next)
    else if crossed then
      if next.col = col && startsItem next.rest then
        (readItems col true fuel next).map fun r => (.sequence r.1, r.2)
      else if next.col ≤ col then some (blank, next)
      else readNode col true fuel next
    else readNode col block fuel next
termination_by structural fuel => fuel

/-- Reads the entries of a block mapping at a column, from a key on. -/
def readEntries (col : Nat) : (fuel : Nat) → Cursor → Option (List (Yaml × Yaml) × Cursor)
  | 0, _ => none
  | fuel + 1, cur => do
    let (entry, cur) ← readEntry col fuel cur
    let (next, _) := cur.advance false (cur.col != 0)
    if next.atEnd || next.col < col then return ([entry], next)
    else if next.col = col then
      let (entries, cur) ← readEntries col fuel next
      return (entry :: entries, cur)
    else none
termination_by structural fuel => fuel

/-- Reads an entry of a block mapping at a column. -/
def readEntry (col : Nat) : (fuel : Nat) → Cursor → Option ((Yaml × Yaml) × Cursor)
  | 0, _ => none
  | fuel + 1, cur => do
    if startsItem cur.rest then none
    else if startsKey cur.rest then
      let (key, cur) ← readContent col true fuel (cur.skip 1)
      let (next, _) := cur.advance false (cur.col != 0)
      if next.col = col && startsValue false next.rest then
        let (value, cur) ← readContent col true fuel (next.skip 1)
        return ((key, value), cur)
      else return ((key, blank), cur)
    else
      let (props, cur, later) ←
        readProperties false (cur.rest.length + 1) ⟨none, false⟩ cur false
      if later then none
      let (key, single, cur) ← readInline false col fuel cur
      let (key, cur) := props.apply key cur
      let (next, crossed) := cur.advance false true
      if crossed || !single || !startsValue false next.rest then none
      let (value, cur) ← readContent col false fuel (next.skip 1)
      return ((key, value), cur)
termination_by structural fuel => fuel

end

/-- Whether a character may stand in a document. -/
def isAdmitted (c : Char) : Bool :=
  let n := c.toNat
  n == 9 || n == 10 || n == 13 || (0x20 ≤ n && n ≤ 0x7e) || n == 0x85
    || (0xa0 ≤ n && n ≤ 0xfffd) || 0x10000 ≤ n

/-- A text with every line end as a line feed. -/
def unifyBreaks : List Char → List Char
  | [] => []
  | '\r' :: '\n' :: cs => '\n' :: unifyBreaks cs
  | '\r' :: cs => '\n' :: unifyBreaks cs
  | c :: cs => c :: unifyBreaks cs

/-- Whether a line is a directive: the version of the notation, or the meaning of a tag. -/
def isDirective (line : List Char) : Bool :=
  match ((String.ofList line).splitOn " ").filter (· != "") with
  | "%YAML" :: version :: _ => version == "1.1" || version == "1.2"
  | "%TAG" :: _ :: _ :: _ => true
  | _ => false

/-- Skips the directives before a document, and whether there are any. -/
def skipDirectives : (fuel : Nat) → Cursor → Option (Cursor × Bool)
  | 0, _ => none
  | fuel + 1, cur =>
    match cur.rest with
    | '%' :: _ =>
      if isDirective (cur.rest.takeWhile (· != '\n')) then
        let next := ({ cur with rest := dropLine cur.rest, col := 0 }).advance false false
        (skipDirectives fuel next.1).map fun r => (r.1, true)
      else none
    | _ => some (cur, false)

/-- Whether nothing but perhaps an end marker follows a document. -/
def endsStream (cur : Cursor) : Bool :=
  let cur := (cur.advance false (cur.col != 0)).1
  if cur.col = 0 && startsMarker '.' cur.rest then
    (((cur.skip 3).advance false true).1).rest.isEmpty
  else cur.rest.isEmpty

/-- The value of the one document in a text. -/
def ofChars? (cs : List Char) : Option Yaml := do
  let cs := if cs.head? = some '\ufeff' then cs.drop 1 else cs
  if !cs.all isAdmitted then none
  let cs := unifyBreaks cs
  let fuel := 4 * cs.length + 4
  let (cur, _) := (⟨cs, 0, []⟩ : Cursor).advance false false
  let (cur, directed) ← skipDirectives fuel cur
  let marked := cur.col = 0 && startsMarker '-' cur.rest
  if directed && !marked then none
  let (cur, crossed) := if marked then (cur.skip 3).advance false true else (cur, true)
  let (v, cur) ← if cur.atEnd then some (blank, cur) else readNode (-1) crossed fuel cur
  if endsStream cur then return v else none

/-- The value of the one document in a text. -/
def parse? (s : String) : Option Yaml := ofChars? s.toList

end Ipam.Yaml
