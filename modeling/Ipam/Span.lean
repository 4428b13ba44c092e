import Ipam.Text.Blank
import Ipam.Text.Numeral

/-!
# Spans of time

A length of time to the nanosecond. It is written as a sum of counts with units, the largest unit
first: `1day 1h`, `1s 250ms`, `0s`. A month is 30.44 days and a year 365.25 days.

Reading takes any sum of counts with units, in any order and with a fraction after a point, such
as `1h30m` or `1.5s`, and the bare `0`. Counts, and the parts of a second and the whole seconds
that they come to, must stay below 2^64 (`word`).
-/

namespace Ipam

open Text

/-- A length of time. -/
structure Span where
  /-- The length in nanoseconds. -/
  nanos : Nat
  deriving DecidableEq

namespace Span

/-- The units of time. -/
inductive TimeUnit where
  | nanosecond
  | microsecond
  | millisecond
  | second
  | minute
  | hour
  | day
  | week
  | month
  | year
  deriving DecidableEq

/-- The names of a unit. -/
def TimeUnit.names : TimeUnit → List String
  | .nanosecond => ["nanos", "nsec", "ns"]
  | .microsecond => ["usec", "us", "µs"]
  | .millisecond => ["millis", "msec", "ms"]
  | .second => ["seconds", "second", "secs", "sec", "s"]
  | .minute => ["minutes", "minute", "min", "mins", "m"]
  | .hour => ["hours", "hour", "hr", "hrs", "h"]
  | .day => ["days", "day", "d"]
  | .week => ["weeks", "week", "wk", "wks", "w"]
  | .month => ["months", "month", "M"]
  | .year => ["years", "year", "yr", "yrs", "y"]

/-- All units. -/
def TimeUnit.all : List TimeUnit :=
  [.nanosecond, .microsecond, .millisecond, .second, .minute, .hour, .day, .week, .month, .year]

/-- The unit with a name. -/
def TimeUnit.ofName? (name : List Char) : Option TimeUnit :=
  all.find? fun u => u.names.contains (String.ofList name)

/-- The length of a unit: whole seconds for the long units, nanoseconds for those below a second. -/
def TimeUnit.length : TimeUnit → Nat ⊕ Nat
  | .nanosecond => .inr 1
  | .microsecond => .inr 1000
  | .millisecond => .inr 1000000
  | .second => .inl 1
  | .minute => .inl 60
  | .hour => .inl 3600
  | .day => .inl 86400
  | .week => .inl 604800
  | .month => .inl 2630016
  | .year => .inl 31557600

/-! ## Writing -/

/-- A count with a unit, left out when the count is zero. -/
def item (unit : String) (count : Nat) : List String :=
  if count = 0 then [] else [toString count ++ unit]

/-- A count with a unit that has a plural. -/
def pluralItem (unit : String) (count : Nat) : List String :=
  item (if count = 1 then unit else unit ++ "s") count

/-- The text of a span. -/
def text (s : Span) : String :=
  let secs := s.nanos / 1000000000
  let nanos := s.nanos % 1000000000
  let ofYear := secs % 31557600
  let ofMonth := ofYear % 2630016
  let ofDay := ofMonth % 86400
  let items := pluralItem "year" (secs / 31557600) ++ pluralItem "month" (ofYear / 2630016)
    ++ pluralItem "day" (ofMonth / 86400) ++ item "h" (ofDay / 3600) ++ item "m" (ofDay / 60 % 60)
    ++ item "s" (ofDay % 60) ++ item "ms" (nanos / 1000000) ++ item "us" (nanos / 1000 % 1000)
    ++ item "ns" (nanos % 1000)
  if s.nanos = 0 then "0s" else " ".intercalate items

/-! ## Reading -/

/-- The number below which counts must stay. -/
def word : Nat := 2 ^ 64

/-- A number that is below `word`. -/
def bounded (n : Nat) : Option Nat := if n < word then some n else none

/-- A character that belongs to the name of a unit. -/
def isUnitChar (c : Char) : Bool :=
  ('a' ≤ c && c ≤ 'z') || ('A' ≤ c && c ≤ 'Z') || c == 'µ'

/-- A fraction: its digits as a number, and the power of ten they are parts of. -/
structure Fraction where
  /-- The digits after the point as a number. -/
  numerator : Nat
  /-- The power of ten with as many zeros as there are digits. -/
  denominator : Nat

/-- The span with some seconds and nanoseconds more. -/
def add (s : Span) (secs nanos : Nat) : Option Span := do
  let below ← bounded (s.nanos % 1000000000 + nanos)
  let above ← bounded (s.nanos / 1000000000 + secs)
  let _ ← bounded (above + below / 1000000000)
  return ⟨above * 1000000000 + below⟩

/-- The span with a count of units, and a fraction of one unit, more. A fraction of a unit below
the minute is cut to nanoseconds, of a longer one to seconds; a nanosecond has none. -/
def addUnits (s : Span) (count : Nat) (fraction : Option Fraction) (u : TimeUnit) :
    Option Span := do
  let s ← match u.length with
    | .inl secs => do s.add (← bounded (count * secs)) 0
    | .inr nanos => do s.add 0 (← bounded (count * nanos))
  match fraction with
  | none => return s
  | some f =>
    match u, u.length with
    | .nanosecond, _ => none
    | _, .inr nanos => do s.add 0 ((← bounded (f.numerator * nanos)) / f.denominator)
    | .second, .inl secs | .minute, .inl secs => do
      s.add 0 ((← bounded (f.numerator * (secs * 1000000000))) / f.denominator)
    | _, .inl secs => do s.add ((← bounded (f.numerator * secs)) / f.denominator) 0

/-- What stands in a count after its first digit: further digits, with blanks among them, and
perhaps a point and a fraction. -/
structure Count where
  /-- The count. -/
  whole : Nat
  /-- The digits after the point. -/
  fraction : Option Fraction
  /-- The text from the unit on. -/
  rest : List Char

/-- Reads the digits after the point of a count, blanks among them. -/
def readFraction (f : Fraction) : List Char → Option (Fraction × List Char)
  | [] => some (f, [])
  | c :: cs =>
    match Numeral.digit? 10 c with
    | some d => do
      let denominator ← bounded (f.denominator * 10)
      let numerator ← bounded (f.numerator * 10 + d)
      readFraction ⟨numerator, denominator⟩ cs
    | none =>
      if isBlank c then readFraction f cs
      else if isUnitChar c then some (f, c :: cs)
      else none

/-- Reads the rest of a count up to its unit. -/
def readCount (n : Nat) : List Char → Option Count
  | [] => some ⟨n, none, []⟩
  | c :: cs =>
    match Numeral.digit? 10 c with
    | some d => do readCount (← bounded (n * 10 + d)) cs
    | none =>
      if isBlank c then readCount n cs
      else if isUnitChar c then some ⟨n, none, c :: cs⟩
      else if c = '.' then do
        let (f, rest) ← readFraction ⟨0, 1⟩ cs
        if f.denominator = 1 then none else return ⟨n, some f, rest⟩
      else none

/-- Reads the sum of counts with units that remains; `fuel` bounds the number of them. -/
def readSum : (fuel : Nat) → Span → List Char → Option Span
  | 0, _, _ => none
  | fuel + 1, s, cs =>
    match skipBlanks cs with
    | [] => some s
    | c :: cs => do
      let d ← Numeral.digit? 10 c
      let count ← readCount d cs
      let u ← TimeUnit.ofName? (count.rest.takeWhile isUnitChar)
      let rest := count.rest.dropWhile isUnitChar
      let s ← s.addUnits count.whole count.fraction u
      match rest with
      | [] => return s
      | e :: _ => if isBlank e ∨ (Numeral.digit? 10 e).isSome then readSum fuel s rest else none

/-- The span that a text denotes. -/
def ofChars? (cs : List Char) : Option Span :=
  if cs = ['0'] then some ⟨0⟩
  else if skipBlanks cs = [] then none
  else readSum (cs.length + 1) ⟨0⟩ cs

/-- The span that a text denotes. -/
def parse? (s : String) : Option Span := ofChars? s.toList

end Span

end Ipam
