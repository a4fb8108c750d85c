import Hiactor.Lib.Heap
import Hiactor.Lib.Run

/-!
# The queue of child actors

Model of `schedulable_actor_task_queue` (`core/actor_scheduling.hh`), the queue of the children
that a group has to run. The children are elements of any type. The comparator of a
`schedulable_actor_group` is its virtual method `compare`, which reads the two actors: it is kept
as the comparison in their present state, and what changes the actors changes the comparison.

`cancel_all` changes the queued actors and not the queue.
-/

namespace Hiactor

open Lib

variable {α : Type}

/-- `schedulable_actor_task_queue`. -/
structure TaskQueue (α : Type) where
  urgentQ : List α := []
  q : List α := []
  comparator : Option (α → α → Bool) := none
  needScheduling : Bool := false

namespace TaskQueue

variable (t : TaskQueue α)

/-- `push_urgent_task`. -/
def pushUrgentTask (actorTask : α) : TaskQueue α :=
  { t with urgentQ := t.urgentQ ++ [actorTask] }

/-- `push_task`. -/
def pushTask (actorTask : α) : TaskQueue α :=
  { t with q := t.q ++ [actorTask], needScheduling := true }

/-- The range that `pop_heap` is applied to. -/
def scheduled (std : HeapFunctions α) (compare : α → α → Bool) : List α :=
  if t.needScheduling then std.makeHeap compare t.q else t.q

/-- `pop_task`. An empty queue has no front. -/
def popTask (std : HeapFunctions α) : Option (α × TaskQueue α) :=
  match t.urgentQ with
  | frontTask :: urgentQ => some (frontTask, { t with urgentQ := urgentQ })
  | [] =>
    match t.comparator with
    | none =>
      match t.q with
      | [] => none
      | frontTask :: q => some (frontTask, { t with q := q })
    | some compare =>
      let q := std.popHeap compare (t.scheduled std compare)
      match q.getLast? with
      | none => none
      | some frontTask => some (frontTask, { t with q := q.dropLast, needScheduling := false })

/-- `empty`. -/
def empty : Bool := t.urgentQ.isEmpty && t.q.isEmpty

end TaskQueue

/-! ## Using the queue -/

/-- The calls of a group, and a change of the actors after which `compare` is the comparison. -/
inductive TaskQueueOp (α : Type) where
  | pushTask (actorTask : α)
  | pushUrgentTask (actorTask : α)
  | popTask
  | actorsChange (compare : α → α → Bool)

/-- A queue with the arguments and results of the calls, in order. -/
structure TaskQueueUse (α : Type) where
  queue : TaskQueue α
  pushed : List α := []
  pushedUrgent : List α := []
  popped : List α := []
  poppedUrgent : List α := []

namespace TaskQueueUse

def init (comparator : Option (α → α → Bool)) : TaskQueueUse α :=
  { queue := { comparator := comparator } }

/-- A result of `pop_task` is an urgent one when an urgent task is queued. -/
def step (std : HeapFunctions α) (u : TaskQueueUse α) : TaskQueueOp α → Option (TaskQueueUse α)
  | .pushTask a => some { u with queue := u.queue.pushTask a, pushed := u.pushed ++ [a] }
  | .pushUrgentTask a =>
    some { u with queue := u.queue.pushUrgentTask a, pushedUrgent := u.pushedUrgent ++ [a] }
  | .popTask =>
    match u.queue.popTask std with
    | none => none
    | some (a, queue) =>
      if u.queue.urgentQ.isEmpty then some { u with queue := queue, popped := u.popped ++ [a] }
      else some { u with queue := queue, poppedUrgent := u.poppedUrgent ++ [a] }
  | .actorsChange compare =>
    some { u with queue := { u.queue with comparator := u.queue.comparator.map fun _ => compare } }

/-- The actors change such that the comparison is a strict weak order again and has the same value
on the queued actors. -/
def Steady (u : TaskQueueUse α) : TaskQueueOp α → Prop
  | .actorsChange compare => StrictWeak compare ∧ ∀ current, u.queue.comparator = some current →
      ∀ a ∈ u.queue.q, ∀ b ∈ u.queue.q, compare a b = current a b
  | _ => True

end TaskQueueUse

/-- What `pop_task` does in the order of scheduling: the first urgent task, else the first task
where there is no comparator, else a task that has none above it. -/
structure TaskQueue.PopsInOrder (t : TaskQueue α) (a : α) (t' : TaskQueue α) : Prop where
  urgent : t.urgentQ ≠ [] → t.urgentQ = a :: t'.urgentQ ∧ t'.q = t.q
  other : t.urgentQ = [] → t'.urgentQ = [] ∧ (a :: t'.q).Perm t.q
  fifo : t.urgentQ = [] → t.comparator = none → t.q = a :: t'.q

end Hiactor
