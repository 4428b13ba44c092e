import Ipam.Text.Blank
import Ipam.Text.Numeral

/-!
# Instants

A point in time to the nanosecond, as a calendar date and a time of day in coordinated universal
time. The second 60 of any minute is a leap second.

Instants are written `2024-01-02T03:04:05Z`, with the fraction of a second in three, six or nine
digits, whichever is the least that is exact, and with a signed year outside 0 to 9999. Reading
also admits offsets from universal time, blanks between the parts, a blank or a lower-case letter
for the `T`, short months and days, and any number of fraction digits, of which nine count.
-/

namespace Ipam

open Numeral Text

/-! ## Dates -/

/-- Whether a year has a 29th of February. -/
def isLeapYear (year : Int) : Bool :=
  year % 4 == 0 && (year % 100 != 0 || year % 400 == 0)

/-- The number of days of a month. -/
def daysInMonth (year : Int) (month : Nat) : Nat :=
  if month = 2 then (if isLeapYear year then 29 else 28)
  else if month = 4 ∨ month = 6 ∨ month = 9 ∨ month = 11 then 30
  else 31

/-- Whether a year, a month and a day are a date of the calendar, whose years are bounded. -/
def IsDate (year : Int) (month day : Nat) : Prop :=
  -262143 ≤ year ∧ year ≤ 262142 ∧ 1 ≤ month ∧ month ≤ 12 ∧ 1 ≤ day ∧ day ≤ daysInMonth year month

instance (year : Int) (month day : Nat) : Decidable (IsDate year month day) :=
  inferInstanceAs (Decidable (_ ∧ _))

/-- A date of the calendar. -/
structure Date where
  /-- The year; the year before 1 is 0. -/
  year : Int
  /-- The month, 1 to 12. -/
  month : Nat
  /-- The day of the month, from 1. -/
  day : Nat
  /-- The calendar has this date. -/
  isDate : IsDate year month day
  deriving DecidableEq

namespace Date

/-- The date of a year, a month and a day, if the calendar has it. -/
def of? (year : Int) (month day : Nat) : Option Date :=
  if h : IsDate year month day then some ⟨year, month, day, h⟩ else none

/-- The day after a date. -/
def next? (d : Date) : Option Date :=
  if d.day < daysInMonth d.year d.month then of? d.year d.month (d.day + 1)
  else if d.month < 12 then of? d.year (d.month + 1) 1
  else of? (d.year + 1) 1 1

/-- The day before a date. -/
def previous? (d : Date) : Option Date :=
  if 1 < d.day then of? d.year d.month (d.day - 1)
  else if 1 < d.month then of? d.year (d.month - 1) (daysInMonth d.year (d.month - 1))
  else of? (d.year - 1) 12 31

end Date

/-! ## Instants -/

/-- Whether numbers are a time of day. -/
def IsTime (hour minute second nano : Nat) : Prop :=
  hour < 24 ∧ minute < 60 ∧ second ≤ 60 ∧ nano < 1000000000

instance (hour minute second nano : Nat) : Decidable (IsTime hour minute second nano) :=
  inferInstanceAs (Decidable (_ ∧ _))

/-- A point in time, in coordinated universal time. -/
structure Instant where
  /-- The date. -/
  date : Date
  /-- The hour, 0 to 23. -/
  hour : Nat
  /-- The minute, 0 to 59. -/
  minute : Nat
  /-- The second, 0 to 60. -/
  second : Nat
  /-- The nanosecond. -/
  nano : Nat
  /-- The day has this time. -/
  isTime : IsTime hour minute second nano
  deriving DecidableEq

namespace Instant

/-- The instant of a date and a time of day, if the day has that time. -/
def of? (date : Date) (hour minute second nano : Nat) : Option Instant :=
  if h : IsTime hour minute second nano then some ⟨date, hour, minute, second, nano, h⟩ else none

/-- The universal time of a local time that is `offset` minutes, less than a day, ahead of it. -/
def shift? (t : Instant) (offset : Int) : Option Instant :=
  let minutes : Int := t.hour * 60 + t.minute - offset
  let date? :=
    if minutes < 0 then t.date.previous?
    else if 1440 ≤ minutes then t.date.next?
    else some t.date
  let ofDay := (minutes % 1440).toNat
  date?.bind fun date => of? date (ofDay / 60) (ofDay % 60) t.second t.nano

/-! ## Writing -/

/-- A year: four digits from 0 to 9999, otherwise a sign and at least four digits. -/
def yearChars (year : Int) : List Char :=
  if 0 ≤ year ∧ year ≤ 9999 then padded 10 4 year.toNat
  else
    let sign := if year < 0 then '-' else '+'
    let digits := Nat.toDigits 10 year.natAbs
    sign :: (List.replicate (4 - digits.length) '0' ++ digits)

/-- The fraction of a second in three, six or nine digits, or nothing for no fraction. -/
def fractionChars (nano : Nat) : List Char :=
  if nano = 0 then []
  else if nano % 1000000 = 0 then '.' :: padded 10 3 (nano / 1000000)
  else if nano % 1000 = 0 then '.' :: padded 10 6 (nano / 1000)
  else '.' :: padded 10 9 nano

/-- The text of an instant. -/
def chars (t : Instant) : List Char :=
  yearChars t.date.year ++ '-' :: padded 10 2 t.date.month ++ '-' :: padded 10 2 t.date.day
    ++ 'T' :: padded 10 2 t.hour ++ ':' :: padded 10 2 t.minute ++ ':' :: padded 10 2 t.second
    ++ fractionChars t.nano ++ ['Z']

/-- The text of an instant. -/
def text (t : Instant) : String := String.ofList t.chars

/-! ## Reading -/

/-- Reads at most `limit` decimal digits, at least one, as a number. -/
def readDigits (limit : Nat) (cs : List Char) : Option (Nat × List Char) :=
  let ds := (span 10 (cs.take limit)).1
  if ds = [] then none else some (ofDigits 10 ds, cs.drop ds.length)

/-- Reads a two-digit field after blanks. -/
def readField (cs : List Char) : Option (Nat × List Char) :=
  readDigits 2 (skipBlanks cs)

/-- Reads a separator after blanks. -/
def readSeparator (c : Char) (cs : List Char) : Option (List Char) :=
  expect c (skipBlanks cs)

/-- Reads a year after blanks: at most four digits, or any number of them after a sign. -/
def readYear (cs : List Char) : Option (Int × List Char) :=
  match skipBlanks cs with
  | '-' :: cs => (readDigits cs.length cs).map fun r => (-(r.1 : Int), r.2)
  | '+' :: cs => (readDigits cs.length cs).map fun r => ((r.1 : Int), r.2)
  | cs => (readDigits 4 cs).map fun r => ((r.1 : Int), r.2)

/-- Reads the fraction of a second, if a point starts one, in nanoseconds. Digits after the ninth
do not count. -/
def readFraction : List Char → Option (Nat × List Char)
  | '.' :: cs =>
    let ds := (span 10 cs).1
    if ds = [] then none
    else
      let kept := ds.take 9
      some (ofDigits 10 kept * 10 ^ (9 - kept.length), (span 10 cs).2)
  | cs => some (0, cs)

/-- Reads two digits that stand side by side. -/
def readPair (cs : List Char) : Option (Nat × List Char) :=
  match cs with
  | a :: b :: cs => do
    let x ← digit? 10 a
    let y ← digit? 10 b
    return (x * 10 + y, cs)
  | _ => none

/-- Reads the hours and minutes of an offset after its sign. -/
def readClock (cs : List Char) : Option (Nat × List Char) := do
  let (hours, cs) ← readPair cs
  let (minutes, cs) ← readPair (cs.dropWhile fun c => c == ':' || isBlank c)
  if hours < 24 ∧ minutes < 60 then some (hours * 60 + minutes, cs) else none

/-- Reads an offset from universal time, in minutes. -/
def readOffset (cs : List Char) : Option (Int × List Char) :=
  if (cs.take 3).map Char.toLower = ['u', 't', 'c'] then some (0, cs.drop 3)
  else
    match cs with
    | 'Z' :: cs => some (0, cs)
    | 'z' :: cs => some (0, cs)
    | '+' :: cs => (readClock cs).map fun r => ((r.1 : Int), r.2)
    | '-' :: cs => (readClock cs).map fun r => (-(r.1 : Int), r.2)
    | '\u2212' :: cs => (readClock cs).map fun r => (-(r.1 : Int), r.2)
    | _ => none

/-- Reads the mark between the date and the time. -/
def readMark : List Char → Option (List Char)
  | 'T' :: cs => some cs
  | 't' :: cs => some cs
  | ' ' :: cs => some cs
  | _ => none

/-- The instant that a text denotes. -/
def ofChars? (cs : List Char) : Option Instant := do
  let (year, cs) ← readYear cs
  let cs ← readSeparator '-' cs
  let (month, cs) ← readField cs
  let cs ← readSeparator '-' cs
  let (day, cs) ← readField cs
  let cs ← readMark cs
  let (hour, cs) ← readField cs
  let cs ← readSeparator ':' cs
  let (minute, cs) ← readField cs
  let cs ← readSeparator ':' cs
  let (second, cs) ← readField cs
  let (nano, cs) ← readFraction cs
  let (offset, cs) ← readOffset (skipBlanks cs)
  if skipBlanks cs = [] then
    let date ← Date.of? year month day
    let t ← of? date hour minute second nano
    t.shift? offset
  else none

/-- The instant that a text denotes. -/
def parse? (s : String) : Option Instant := ofChars? s.toList

/-! ## The clock -/

/-- The date `days` days after a date, as long as the calendar has it. -/
def addDays : (days : Nat) → Date → Date
  | 0, d => d
  | days + 1, d =>
    match d.next? with
    | some d => addDays days d
    | none => d

/-- The instant a count of nanoseconds after the start of 1970. -/
def ofEpoch (nanos : Nat) : Instant :=
  let seconds := nanos / 1000000000
  let ofDay := seconds % 86400
  { date := addDays (seconds / 86400) ⟨1970, 1, 1, by decide⟩
    hour := ofDay / 3600
    minute := ofDay / 60 % 60
    second := ofDay % 60
    nano := nanos % 1000000000
    isTime := by unfold IsTime; omega }

end Instant

end Ipam
