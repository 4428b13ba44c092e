import Ipam.Program

/-!
# Taking addresses and giving them back

The allocator speaks in texts and is not trusted: what it answers is read back and checked against
what was asked for (`readAcquired`). On top of that, an address is taken from a network either at
random, trying the prefixes of a family in order until one has a free address (`anyAddress`), or
by its text, from the first prefix that contains it (`specificAddress`).
-/

namespace Ipam

/-- Why no address was taken from a prefix. -/
inductive AcquireError where
  /-- The prefix has no free address, or the allocator does not know it. -/
  | exhausted
  /-- The specific address is handed out already. -/
  | taken
  /-- The request fails. -/
  | failed (error : RequestError)
  deriving DecidableEq

/-- What became of an address that was given back. -/
inductive Release where
  /-- It was handed out and is so no more. -/
  | released
  /-- It was not handed out. -/
  | alreadyAbsent
  deriving DecidableEq, Repr

/-- An address together with the prefix it was taken from. -/
structure Lease where
  /-- The address. -/
  address : Addr
  /-- The prefix. -/
  parent : Prefix
  deriving DecidableEq

/-! ## One prefix -/

/-- The call that takes an address from a prefix. -/
def acquireCall (p : Prefix) (wanted : Option Addr) : Call :=
  .acquire ⟨p.text, wanted.map Addr.text⟩

/-- The call that gives an address of a prefix back. -/
def releaseCall (a : Addr) (p : Prefix) : Call := .release ⟨a.text, p.text⟩

/-- The failure for a fault of the allocator. -/
def acquireFault (f : BackendFault) : Except AcquireError Addr := .error (.failed (.internal f))

/-- The address that the allocator's answer names, if it is one of the prefix and the wanted one. -/
def readAcquired (p : Prefix) (wanted : Option Addr) (raw : String) : Except AcquireError Addr :=
  match Addr.parse? raw with
  | none => acquireFault (.answerUnparsable raw)
  | some a =>
    if !p.contains a then acquireFault (.answerOutside a p)
    else
      match wanted with
      | none => .ok a
      | some w => if w = a then .ok a else acquireFault (.answerDiffers a w)

/-- What the outcome of a call to take an address means. -/
def readAcquire (p : Prefix) (wanted : Option Addr) :
    Except Interruption (Except AllocatorError AcquireAnswer) → Except AcquireError Addr
  | .error i => .error (.failed (.interrupted i))
  | .ok (.ok answer) => readAcquired p wanted answer.ip
  | .ok (.error e) =>
    match e.code with
    | .notFound => .error .exhausted
    | .alreadyExists => .error .taken
    | _ => acquireFault (.allocatorFailed e)

/-- Takes an address from a prefix, the wanted one or any. -/
def acquire (p : Prefix) (wanted : Option Addr) : Program (Except AcquireError Addr) :=
  .guarded (acquireCall p wanted) fun r => .done (readAcquire p wanted r)

/-- What the allocator's answer to a call to give an address back means. -/
def readRelease : Except AllocatorError Unit → Except RequestError Release
  | .ok _ => .ok .released
  | .error e =>
    if e.code = .notFound then .ok .alreadyAbsent else .error (.internal (.allocatorFailed e))

/-- Gives an address of a prefix back. -/
def release (a : Addr) (p : Prefix) : Request Release := do
  Request.ofExcept (readRelease (← Request.ask (releaseCall a p)))

/-! ## One network -/

/-- Takes any address from the first of the prefixes that has one; `network` is their network. -/
def anyAddressOf (network : String) (f : Family) : List Prefix → Request Lease
  | [] => throw (.exhausted f network)
  | p :: ps => do
    match ← (acquire p none : Program _) with
    | .ok a => return ⟨a, p⟩
    | .error .exhausted => anyAddressOf network f ps
    | .error .taken => throw (.internal (.takenAtRandom p))
    | .error (.failed e) => throw e

/-- Takes any address of a family from a network. -/
def anyAddress (n : Network) (f : Family) : Request Lease :=
  anyAddressOf n.id f (n.prefixesOf f)

/-- The first prefix of a network that contains an address. -/
def prefixFor? (n : Network) (a : Addr) : Option Prefix :=
  (n.prefixesOf a.family).find? fun p => p.contains a

/-- Takes the address of a text from a network. -/
def specificAddress (n : Network) (literal : String) : Request Lease := do
  let a ← Request.ofExcept (readLiteral literal)
  match prefixFor? n a with
  | none => throw (.invalid (.literalOutside a n.id))
  | some p =>
    match ← (acquire p (some a) : Program _) with
    | .ok a => return ⟨a, p⟩
    | .error .taken => throw (.conflict (.taken a))
    | .error .exhausted => throw (.internal (.unknownPrefix p a))
    | .error (.failed e) => throw e

end Ipam
