import Std.Time.DateTime.Timestamp
import Ipam.CommandLine.Session

/-!
# The program

Connects the command line to files, the clock and a source of random numbers.
-/

namespace Ipam.CommandLine

/-- What there is to be read of a file of the machine. -/
def readContents (path : String) : IO Contents := do
  match ← (IO.FS.readBinFile path).toBaseIO with
  | .ok bytes => return (String.fromUTF8? bytes).elim .garbled .text
  | .error (.noFileOrDirectory ..) => return .missing
  | .error (.permissionDenied ..) => return .closed
  | .error _ => return .garbled

/-- The files of the machine. -/
def systemFiles : Files IO where
  read := readContents
  write path s := return (← (IO.FS.writeFile path s).toBaseIO).isOk

/-- A random number below a power of 256. -/
def randomNumber (bytes : USize) : IO Nat :=
  return (← IO.getRandomBytes bytes).toList.foldl (fun n b => n * 256 + b.toNat) 0

/-- The time of the machine, and an identifier made from it. -/
def systemStamp : IO Stamp := do
  let nanos := (← Std.Time.Timestamp.now).toNanosecondsSinceUnixEpoch.val.toNat
  return ⟨.ofEpoch nanos, .timeOrdered (nanos / 1000000) (← randomNumber 10)⟩

/-- The clock and the random numbers of the machine; `deadline` holds the end of the span that the
clock was started for. -/
def systemSurroundings (deadline : IO.Ref Nat) : Surroundings IO where
  startClock span := do deadline.set ((← IO.monoNanosNow) + span.nanos)
  isLate := return (← deadline.get) ≤ (← IO.monoNanosNow)
  pick := randomNumber 8
  stamp := systemStamp

/-- Runs a command line on the machine; the result is its exit status. -/
def runOnSystem (words : List String) : IO UInt32 := do
  let outcome ← run systemFiles (systemSurroundings (← IO.mkRef 0)) words
  match outcome with
  | .shown out => IO.print out
  | .failed out error =>
    IO.print out
    IO.eprintln ("Error:\n   0: " ++ error.message)
  | .misused => IO.eprint usage
  return UInt32.ofNat outcome.status

end Ipam.CommandLine

/-- The program. -/
def main (words : List String) : IO UInt32 := Ipam.CommandLine.runOnSystem words
