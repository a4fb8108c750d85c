import Mathlib.Data.List.Basic

/-!
# Queues without a limit

Model of `dynamic_queue` (`core/dynamic-queue.hh`), the buffer between the senders of messages and
the connection that writes them. A consumer that finds the queue empty waits for its promise. What
runs when the promise is resolved runs at some later time.
-/

namespace Hiactor

variable {α ε : Type}

/-- What a promise is resolved with. -/
inductive Signal (ε : Type) where
  | value
  | exception (ex : ε)
  deriving DecidableEq, Repr

/-- `dynamic_queue`; `notEmpty` tells whether there is a promise. -/
structure DynamicQueue (α ε : Type) where
  q : List α := []
  notEmpty : Bool := false
  ex : Option ε := none
  deriving DecidableEq, Repr

namespace DynamicQueue

variable (qu : DynamicQueue α ε)

def empty : Bool := qu.q.isEmpty

/-- `notify_not_empty`, with what the promise is resolved with if there is one. -/
def notifyNotEmpty : DynamicQueue α ε × Option (Signal ε) :=
  if qu.notEmpty then ({ qu with notEmpty := false }, some .value) else (qu, none)

/-- `pop`. The front of an empty queue has no value. -/
def pop : Option (α × DynamicQueue α ε) :=
  match qu.q with
  | [] => none
  | data :: rest => some (data, { qu with q := rest })

/-- `not_empty` of an empty queue. -/
def makePromise : DynamicQueue α ε := { qu with notEmpty := true }

def pushEventually (data : α) : Except ε (DynamicQueue α ε × Option (Signal ε)) :=
  match qu.ex with
  | some ex => .error ex
  | none => .ok ({ qu with q := qu.q ++ [data] } : DynamicQueue α ε).notifyNotEmpty

/-- The loop of `consume`: also the item for which `func` returns false leaves the queue. -/
def consumeLoop (func : α → Bool) : List α → Bool × List α
  | [] => (true, [])
  | data :: rest => if func data then consumeLoop func rest else (false, rest)

def consume (func : α → Bool) : Except ε (Bool × DynamicQueue α ε) :=
  match qu.ex with
  | some ex => .error ex
  | none => .ok ((consumeLoop func qu.q).1, { qu with q := (consumeLoop func qu.q).2 })

def abort (ex : ε) : DynamicQueue α ε × Option (Signal ε) :=
  ({ q := [], notEmpty := false, ex := some ex },
    if qu.notEmpty then some (.exception ex) else none)

end DynamicQueue

/-- The call of `pop_eventually` that is outstanding. -/
inductive Waiter (ε : Type) where
  | idle
  | waiting
  | resolved (signal : Signal ε)
  deriving DecidableEq, Repr

/-- A resolved promise makes what waits for it ready. -/
def Waiter.resolve (waiter : Waiter ε) : Option (Signal ε) → Waiter ε
  | none => waiter
  | some signal => .resolved signal

inductive QueueEvent (α ε : Type) where
  | pushed (data : α)
  | pushFailed (ex : ε)
  | delivered (data : α)
  | popFailed (ex : ε)
  | poppedEmpty
  | aborted (ex : ε)
  | consumeFailed (ex : ε)
  deriving DecidableEq, Repr

/-- A queue in use. -/
structure BufferUse (α ε : Type) where
  queue : DynamicQueue α ε := {}
  waiter : Waiter ε := .idle
  log : List (QueueEvent α ε) := []
  deriving DecidableEq, Repr

inductive BufferOp (α ε : Type) where
  | push (data : α)
  | pop
  | resume
  | abort (func : α → Bool) (ex : ε)

namespace BufferUse

variable (u : BufferUse α ε)

def push (data : α) : BufferUse α ε :=
  match u.queue.pushEventually data with
  | .error ex => { u with log := u.log ++ [.pushFailed ex] }
  | .ok (queue, signal) =>
    { queue := queue, waiter := u.waiter.resolve signal, log := u.log ++ [.pushed data] }

/-- The call of `pop` in `pop_eventually`, after which nothing is outstanding. -/
def take : BufferUse α ε :=
  match u.queue.pop with
  | none => { u with waiter := .idle, log := u.log ++ [.poppedEmpty] }
  | some (data, queue) =>
    { queue := queue, waiter := .idle, log := u.log ++ [.delivered data] }

/-- The future of `pop_eventually` resolves to an exception. -/
def fail (ex : ε) : BufferUse α ε := { u with waiter := .idle, log := u.log ++ [.popFailed ex] }

/-- The call of `pop_eventually`. -/
def popEventually : BufferUse α ε :=
  match u.queue.ex with
  | some ex => u.fail ex
  | none =>
    if u.queue.empty then { u with queue := u.queue.makePromise, waiter := .waiting } else u.take

/-- What `pop_eventually` leaves to run when the promise is resolved. -/
def resume : Option (BufferUse α ε) :=
  match u.waiter with
  | .idle | .waiting => none
  | .resolved (.exception ex) => some (u.fail ex)
  | .resolved .value =>
    match u.queue.ex with
    | some ex => some (u.fail ex)
    | none => some u.take

/-- `buffers_helper::abort`, for one queue: `abort` follows `consume` unless that throws. -/
def consumeAbort (func : α → Bool) (ex : ε) : BufferUse α ε :=
  match u.queue.consume func with
  | .error old => { u with log := u.log ++ [.consumeFailed old] }
  | .ok (_, queue) =>
    { queue := (queue.abort ex).1
      waiter := u.waiter.resolve (queue.abort ex).2
      log := u.log ++ [.aborted ex] }

/-- At most one call of `pop_eventually` is outstanding at a time. -/
def step : BufferUse α ε → BufferOp α ε → Option (BufferUse α ε)
  | u, .push data => some (u.push data)
  | u, .pop =>
    match u.waiter with
    | .idle => some u.popEventually
    | _ => none
  | u, .resume => u.resume
  | u, .abort func ex => some (u.consumeAbort func ex)

end BufferUse

namespace QueueEvent

/-- The values that were pushed. -/
def pushedValues : List (QueueEvent α ε) → List α :=
  List.filterMap fun
    | .pushed data => some data
    | _ => none

/-- The values that were delivered. -/
def deliveredValues : List (QueueEvent α ε) → List α :=
  List.filterMap fun
    | .delivered data => some data
    | _ => none

/-- A call failed with this exception. -/
def FailsWith (ex : ε) : QueueEvent α ε → Prop
  | .pushFailed old | .popFailed old | .consumeFailed old => old = ex
  | .pushed _ | .delivered _ | .poppedEmpty | .aborted _ => False

end QueueEvent

end Hiactor
