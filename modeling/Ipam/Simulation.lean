import Ipam.Program

/-!
# Disturbed collaborators under a virtual clock

The collaborators in memory, with their calls recorded and with disturbances queued for them: each
call takes the first disturbance queued for its kind and is late, is never answered, is answered
falsely, or cancels the request it belongs to, as that says.

The clock is virtual. It moves only while a call waits, so a request that runs out of time does so
in the middle of a call, and a call that is answered without waiting is answered even if it
canceled its request. Of several reasons to give up, cancellation comes first and the deadline
second; a wait that ends when the deadline passes is too long.
-/

namespace Ipam

/-- The kinds of calls that disturbances are queued for. -/
inductive Target where
  | acquire
  | release
  | storeGet
  | storeList
  | storeCreate
  | storeUpdate
  | storeDelete
  | network
  | project
  deriving DecidableEq, Repr

/-- The kind of a call. -/
def Call.target : Call → Target
  | .project _ => .project
  | .network .. => .network
  | .acquire _ => .acquire
  | .release _ => .release
  | .storeGet _ => .storeGet
  | .storeList _ => .storeList
  | .storeCreate _ => .storeCreate
  | .storeUpdate .. => .storeUpdate
  | .storeDelete _ => .storeDelete

/-- How a collaborator answers. A reply that does not fit the call is a truthful one. -/
inductive Reply where
  /-- As it is. -/
  | truthful
  /-- An allocator refuses with an error. -/
  | allocatorError (error : AllocatorError)
  /-- An allocator names an address without taking it. -/
  | address (raw : String)
  /-- An allocator takes a specific address, whatever it was asked for. -/
  | pick (raw : String)
  /-- A store or a lookup fails with an error. -/
  | storeError (error : StoreError)
  deriving DecidableEq

/-- What happens to a call, in the order of the fields. -/
structure Disturbance where
  /-- The request is canceled. -/
  cancel : Bool
  /-- The call waits for so many milliseconds. -/
  delay : Nat
  /-- The call is never answered. -/
  hang : Bool
  /-- A call that is not answered, or not truthfully, takes effect all the same. -/
  commit : Bool
  /-- The answer. -/
  reply : Reply
  deriving DecidableEq

/-- Nothing happens to a call. -/
def Disturbance.none : Disturbance := ⟨false, 0, false, false, .truthful⟩

/-- What may end a request before it is done. -/
structure Context where
  /-- Whether the request is canceled. -/
  canceled : Bool
  /-- The milliseconds until its deadline, if it has one. -/
  remaining : Option Nat
  deriving DecidableEq

/-- Why no further call is started, if none is. -/
def Context.refusal? (ctx : Context) : Option Interruption :=
  if ctx.canceled then some .canceled
  else if ctx.remaining = some 0 then some .deadlineExceeded
  else none

/-- The context after a wait, or why the wait is given up and the context then. -/
def Context.wait (ctx : Context) (delay : Nat) : Except Interruption Unit × Context :=
  if delay = 0 then (.ok (), ctx)
  else if ctx.canceled then (.error .canceled, ctx)
  else
    match ctx.remaining with
    | none => (.ok (), ctx)
    | some r =>
      if r ≤ delay then (.error .deadlineExceeded, { ctx with remaining := some 0 })
      else (.ok (), { ctx with remaining := some (r - delay) })

/-- Why a wait without end is given up, and the context then. A context without a deadline that is
not canceled would wait for ever; the simulation ends it as a deadline would. -/
def Context.waitForever (ctx : Context) : Interruption × Context :=
  if ctx.canceled then (.canceled, ctx)
  else (.deadlineExceeded, { ctx with remaining := some 0 })

/-- The collaborators with what is in store for them. -/
structure World where
  /-- The collaborators. -/
  memory : Memory
  /-- The disturbances to come, with the kinds of calls they are for. -/
  queue : List (Target × Disturbance)
  /-- The context of the request that runs. -/
  context : Context
  /-- The calls that the request has started. -/
  calls : List Call
  /-- How often the allocator in memory was asked for an address. -/
  acquireCalls : Nat
  /-- How often the allocator in memory was given an address back. -/
  releaseCalls : Nat

namespace World

/-- The world at the start of a request. -/
def begin (w : World) (ctx : Context) : World := { w with context := ctx, calls := [] }

/-- Answers a call from memory. -/
def perform (w : World) (c : Call) : c.Answer × World :=
  let r := w.memory.perform 0 c
  let w := { w with memory := r.2 }
  match c.target with
  | .acquire => (r.1, { w with acquireCalls := w.acquireCalls + 1 })
  | .release => (r.1, { w with releaseCalls := w.releaseCalls + 1 })
  | _ => (r.1, w)

/-- Fails a call to a store or a lookup, after its effect if it takes effect all the same. -/
def failStore (w : World) (d : Disturbance) (c : Call) (error : StoreError) {α : Type} :
    Except StoreError α × World :=
  (.error error, if d.commit then (w.perform c).2 else w)

/-- Answers a call as a disturbance says. -/
def reply (w : World) (d : Disturbance) (c : Call) : c.Answer × World :=
  match c, d.reply with
  | .acquire _, .allocatorError e => (.error e, w)
  | .acquire req, .address raw => (.ok ⟨raw, req.parent⟩, w)
  | .acquire req, .pick raw => w.perform (.acquire { req with ip := some raw })
  | .release _, .allocatorError e => (.error e, w)
  | .project id, .storeError e => w.failStore d (.project id) e
  | .network project id, .storeError e => w.failStore d (.network project id) e
  | .storeGet id, .storeError e => w.failStore d (.storeGet id) e
  | .storeList q, .storeError e => w.failStore d (.storeList q) e
  | .storeCreate r, .storeError e => w.failStore d (.storeCreate r) e
  | .storeUpdate new old, .storeError e => w.failStore d (.storeUpdate new old) e
  | .storeDelete r, .storeError e => w.failStore d (.storeDelete r) e
  | c, _ => w.perform c

/-- The first disturbance for a kind of call, and the queue without it. -/
def next (t : Target) : List (Target × Disturbance) → Disturbance × List (Target × Disturbance)
  | [] => (.none, [])
  | (u, d) :: rest =>
    if u = t then (d, rest) else ((next t rest).1, (u, d) :: (next t rest).2)

/-- Starts a call: it is recorded, its disturbance is taken from the queue, and the request is
canceled if that says so. -/
def start (w : World) (c : Call) : Disturbance × World :=
  let (d, queue) := next c.target w.queue
  let ctx := { w.context with canceled := w.context.canceled || d.cancel }
  (d, { w with queue := queue, calls := w.calls ++ [c], context := ctx })

/-- Makes a call under the context of the request. -/
def guarded (w : World) (c : Call) : Except Interruption c.Answer × World :=
  match w.context.refusal? with
  | some i => (.error i, w)
  | none =>
    let (d, w) := w.start c
    match w.context.wait d.delay with
    | (.error i, ctx) => (.error i, { w with context := ctx })
    | (.ok _, ctx) =>
      let w := { w with context := ctx }
      if d.hang then
        let w := if d.commit then (w.perform c).2 else w
        let (i, ctx) := w.context.waitForever
        (.error i, { w with context := ctx })
      else
        let (answer, w) := w.reply d c
        (.ok answer, w)

/-- Makes a call under a context of its own, which waits as long as it takes. -/
def detached (w : World) (c : Call) : c.Answer × World :=
  let (d, w) := w.start c
  w.reply d c

/-- What becomes of the calls of a program in the world. -/
def handler : Handler (StateM World) where
  guarded c := fun w => w.guarded c
  detached c := fun w => w.detached c

/-- Runs a program under a context. -/
def run {α : Type} (w : World) (ctx : Context) (p : Program α) : α × World :=
  (p.run handler).run (w.begin ctx)

end World

end Ipam
