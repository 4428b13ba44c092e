import Ipam.Text.Numeral
import Ipam.Yaml.Basic

/-!
# Scalars of YAML

How the text of a scalar is read, in its four styles: plain, in single quotes, in double quotes,
and as a block of lines. In the first three a line end within the text is folded: one line end is a
blank, and of several all but one are kept. A text may not run into a document marker, three
hyphens or points at the start of a line.
-/

namespace Ipam.Yaml

/-- A place in a text. -/
structure Cursor where
  /-- The text from here on; every line end is a line feed. -/
  rest : List Char
  /-- The count of characters before this place in its line. -/
  col : Nat
  /-- The values that were given names so far. -/
  anchors : List (String × Yaml)

/-- Whether a character is a blank within a line. -/
def isSpace (c : Char) : Bool := c == ' ' || c == '\t'

/-- Whether a text ends here or goes on with white space. -/
def atGap : List Char → Bool
  | [] => true
  | c :: _ => isSpace c || c == '\n'

/-- Whether a line starts with three of a character and white space. -/
def startsMarker (c : Char) (cs : List Char) : Bool :=
  cs.take 3 == [c, c, c] && atGap (cs.drop 3)

/-- Whether a document marker stands at the start of a line. -/
def isMarker (cs : List Char) (col : Nat) : Bool :=
  col == 0 && (startsMarker '-' cs || startsMarker '.' cs)

/-- The place after some characters of the same line. -/
def Cursor.skip (cur : Cursor) (n : Nat) : Cursor :=
  { cur with rest := cur.rest.drop n, col := cur.col + n }

/-- What a gap of `breaks` line ends within a text is folded to; `spaces` are the blanks of a gap
without a line end. -/
def folded (breaks : Nat) (spaces : List Char) : List Char :=
  match breaks with
  | 0 => spaces
  | 1 => [' ']
  | n + 1 => List.replicate n '\n'

/-- White space within a text: the blanks before its first line end, its line ends, and where it
leads. -/
structure Gap where
  /-- The blanks before the first line end. -/
  spaces : List Char
  /-- The count of line ends. -/
  breaks : Nat
  /-- The text after the gap. -/
  rest : List Char
  /-- The column after the gap. -/
  col : Nat

/-- Reads the white space at a place. -/
def readGap : List Char → (col : Nat) → Gap
  | [], col => ⟨[], 0, [], col⟩
  | c :: cs, col =>
    if c = '\n' then
      let g := readGap cs 0
      ⟨[], g.breaks + 1, g.rest, g.col⟩
    else if isSpace c then
      let g := readGap cs (col + 1)
      ⟨c :: g.spaces, g.breaks, g.rest, g.col⟩
    else ⟨[], 0, c :: cs, col⟩

/-! ## Plain scalars -/

/-- The characters that have a meaning within flow collections. -/
def isFlowMark (c : Char) : Bool :=
  c == ',' || c == '[' || c == ']' || c == '\x7b' || c == '\x7d'

/-- The characters that cannot start a plain scalar. -/
def isIndicator (c : Char) : Bool :=
  isFlowMark c || c == '#' || c == '&' || c == '*' || c == '!' || c == '|' || c == '>'
    || c == '\x27' || c == '\x22' || c == '%' || c == '@' || c == '\x60'

/-- Whether a plain scalar starts here. A hyphen, a question mark or a colon starts one if no white
space follows, the latter two only outside of flow collections. -/
def startsPlain (flow : Bool) : List Char → Bool
  | [] => false
  | '-' :: cs => !atGap cs
  | '?' :: cs => !flow && !atGap cs
  | ':' :: cs => !flow && !atGap cs
  | c :: cs => !isIndicator c && !atGap (c :: cs)

/-- Reads the characters of a plain scalar up to white space or its end. Within a flow collection a
colon may not run into a character with a meaning there. -/
def plainChunk (flow : Bool) : List Char → Option (List Char × List Char)
  | [] => some ([], [])
  | c :: cs =>
    if isSpace c || c == '\n' then some ([], c :: cs)
    else if c == ':' && atGap cs then some ([], c :: cs)
    else if flow && c == ':' && (match cs with | d :: _ => isFlowMark d || d == '?' | [] => false)
    then none
    else if flow && isFlowMark c then some ([], c :: cs)
    else (plainChunk flow cs).map fun r => (c :: r.1, r.2)

/-- Reads a plain scalar, which goes on over lines that are indented by more than `indent`; the
text and whether it stands on one line. `fuel` bounds the number of words. -/
def readPlain (flow : Bool) (indent : Int) :
    (fuel : Nat) → Cursor → Option (List Char × Bool × Cursor)
  | 0, _ => none
  | fuel + 1, cur => do
    let (chunk, rest) ← plainChunk flow cur.rest
    let here := { cur with rest := rest, col := cur.col + chunk.length }
    let gap := readGap rest here.col
    let ends := gap.rest.isEmpty || chunk.isEmpty || isMarker gap.rest gap.col
      || gap.rest.head? == some '#'
      || (gap.breaks == 0 && gap.spaces.isEmpty)
      || (!flow && gap.breaks > 0 && decide ((gap.col : Int) ≤ indent))
    if ends then return (chunk, true, here)
    else
      let (more, single, last) ←
        readPlain flow indent fuel { cur with rest := gap.rest, col := gap.col }
      if more.isEmpty then return (chunk, true, here)
      else return (chunk ++ folded gap.breaks gap.spaces ++ more, single && gap.breaks == 0, last)

/-! ## Quoted scalars -/

/-- Reads a scalar in single quotes after the first; a quote within it is written twice. -/
def readSingle : (fuel : Nat) → Cursor → Option (List Char × Bool × Cursor)
  | 0, _ => none
  | fuel + 1, cur =>
    match cur.rest with
    | [] => none
    | '\x27' :: '\x27' :: _ =>
      (readSingle fuel (cur.skip 2)).map fun r => ('\x27' :: r.1, r.2)
    | '\x27' :: _ => some ([], true, cur.skip 1)
    | c :: _ =>
      if isSpace c || c == '\n' then
        let gap := readGap cur.rest cur.col
        if isMarker gap.rest gap.col then none
        else
          (readSingle fuel { cur with rest := gap.rest, col := gap.col }).map fun r =>
            (folded gap.breaks gap.spaces ++ r.1, r.2.1 && gap.breaks == 0, r.2.2)
      else (readSingle fuel (cur.skip 1)).map fun r => (c :: r.1, r.2)

/-- The characters that letters after a backslash stand for. -/
def escapes : List (Char × Nat) :=
  [('0', 0), ('a', 7), ('b', 8), ('t', 9), ('\t', 9), ('n', 10), ('v', 11), ('f', 12), ('r', 13),
    ('e', 27), (' ', 32), ('\x22', 34), ('/', 47), ('\\', 92), ('N', 0x85), ('_', 0xa0),
    ('L', 0x2028), ('P', 0x2029)]

/-- The count of hexadecimal digits after a letter that announces a code point. -/
def codeWidth? : Char → Option Nat
  | 'x' => some 2
  | 'u' => some 4
  | 'U' => some 8
  | _ => none

/-- The character that an escape stands for, and the count of characters it takes. -/
def readEscape (c : Char) (cs : List Char) : Option (Char × Nat) :=
  match escapes.lookup c with
  | some n => some (Char.ofNat n, 2)
  | none => do
    let width ← codeWidth? c
    let ds ← (cs.take width).mapM (Numeral.digit? 16)
    let n := Numeral.ofDigits 16 ds
    if ds.length = width ∧ n.isValidChar then some (Char.ofNat n, width + 2) else none

/-- Reads a scalar in double quotes after the first. -/
def readDouble : (fuel : Nat) → Cursor → Option (List Char × Bool × Cursor)
  | 0, _ => none
  | fuel + 1, cur =>
    match cur.rest with
    | [] => none
    | '\x22' :: _ => some ([], true, cur.skip 1)
    | '\\' :: '\n' :: cs =>
      let gap := readGap cs 0
      if isMarker gap.rest gap.col then none
      else
        (readDouble fuel { cur with rest := gap.rest, col := gap.col }).map fun r =>
          (List.replicate gap.breaks '\n' ++ r.1, false, r.2.2)
    | '\\' :: c :: cs => do
      let (e, width) ← readEscape c cs
      let (text, single, last) ← readDouble fuel (cur.skip width)
      return (e :: text, single, last)
    | c :: _ =>
      if isSpace c || c == '\n' then
        let gap := readGap cur.rest cur.col
        if isMarker gap.rest gap.col then none
        else
          (readDouble fuel { cur with rest := gap.rest, col := gap.col }).map fun r =>
            (folded gap.breaks gap.spaces ++ r.1, r.2.1 && gap.breaks == 0, r.2.2)
      else (readDouble fuel (cur.skip 1)).map fun r => (c :: r.1, r.2)

/-! ## Block scalars -/

/-- What becomes of the line ends at the end of a block. -/
inductive Chomping where
  /-- None is kept. -/
  | strip
  /-- One is kept. -/
  | clip
  /-- All are kept. -/
  | keep
  deriving DecidableEq

/-- What the first line of a block says. -/
structure BlockHeader where
  /-- What becomes of the line ends at the end. -/
  chomping : Chomping
  /-- The indentation of the block beyond what surrounds it, if it is said. -/
  increment : Option Nat

/-- Reads the signs after the mark of a block: a digit and a sign in any order. -/
def readHeader : List Char → BlockHeader × List Char
  | c :: d :: cs =>
    match sign? c, digit? d with
    | some s, some n => (⟨s, some n⟩, cs)
    | _, _ =>
      match digit? c, sign? d with
      | some n, some s => (⟨s, some n⟩, cs)
      | some n, none => (⟨.clip, some n⟩, d :: cs)
      | none, _ =>
        match sign? c with
        | some s => (⟨s, none⟩, d :: cs)
        | none => (⟨.clip, none⟩, c :: d :: cs)
  | [c] =>
    match digit? c, sign? c with
    | some n, _ => (⟨.clip, some n⟩, [])
    | _, some s => (⟨s, none⟩, [])
    | _, _ => (⟨.clip, none⟩, [c])
  | [] => (⟨.clip, none⟩, [])
where
  /-- What a sign says about the line ends. -/
  sign? : Char → Option Chomping
    | '+' => some .keep
    | '-' => some .strip
    | _ => none
  /-- The indentation that a digit says. -/
  digit? (c : Char) : Option Nat := (Numeral.digit? 10 c).filter (· != 0)

/-- A text without its first line. -/
def dropLine (cs : List Char) : List Char := (cs.dropWhile (· != '\n')).drop 1

/-- The count of blanks at the front of a line. -/
def indentation (cs : List Char) : Nat := (cs.takeWhile (· == ' ')).length

/-- Counts the empty lines of a block with at most `limit` blanks, once that is known, and where
they lead; a line with more blanks is not empty. `fuel` bounds the number of lines. -/
def emptyLines (limit : Option Nat) : (fuel : Nat) → List Char → Nat × List Char
  | 0, cs => (0, cs)
  | fuel + 1, cs =>
    let n := indentation cs
    let within := limit.all (n ≤ ·)
    match cs.drop n with
    | '\n' :: rest =>
      if within then
        let r := emptyLines limit fuel rest
        (r.1 + 1, r.2)
      else (0, cs)
    | _ => (0, cs)

/-- The parts of a block read so far. -/
structure BlockText where
  /-- The text. -/
  text : List Char
  /-- The line end of the last line, not yet in the text. -/
  pending : Bool
  /-- The count of empty lines after it. -/
  empty : Nat
  /-- Whether the last line started with a blank. -/
  spaced : Bool

/-- Reads the lines of a block that is indented by `indent`. -/
def blockLines (literal : Bool) (indent : Nat) :
    (fuel : Nat) → BlockText → List Char → BlockText × List Char
  | 0, b, cs => (b, cs)
  | fuel + 1, b, cs =>
    if indentation cs < indent || (cs.drop indent).isEmpty then (b, cs)
    else
      let body := cs.drop indent
      let spaced := match body with
        | c :: _ => isSpace c
        | [] => false
      let joint :=
        if !literal && b.pending && !b.spaced && !spaced then
          (if b.empty = 0 then [' '] else [])
        else if b.pending then ['\n'] else []
      let text := b.text ++ joint ++ List.replicate b.empty '\n' ++ body.takeWhile (· != '\n')
      let after := body.dropWhile (· != '\n')
      let (empty, rest) := emptyLines (some indent) (after.length + 1) (after.drop 1)
      blockLines literal indent fuel ⟨text, !after.isEmpty, empty, spaced⟩ rest

/-- Reads a block scalar after its mark; `indent` is the column of the collection around it. -/
def readBlock (literal : Bool) (indent : Int) (cur : Cursor) : Option (List Char × Cursor) :=
  let (header, after) := readHeader cur.rest
  let line := after.dropWhile isSpace
  let comment := line.head? == some '#' && !(after.takeWhile isSpace).isEmpty
  if !(line.isEmpty || line.head? == some '\n' || comment) then none
  else
    let cs := dropLine line
    let least := (indent + 1).toNat
    let known := header.increment.map (least - (if indent < 0 then 0 else 1) + ·)
    let (empty, rest) := emptyLines known (cs.length + 1) cs
    let width := known.getD (max (max (indentation rest) least) 1)
    let (b, rest) := blockLines literal width (rest.length + 1) ⟨[], false, empty, false⟩ rest
    let tail := match header.chomping with
      | .strip => []
      | .clip => if b.pending then ['\n'] else []
      | .keep => (if b.pending then ['\n'] else []) ++ List.replicate b.empty '\n'
    some (b.text ++ tail, { cur with rest := rest, col := 0 })

end Ipam.Yaml
