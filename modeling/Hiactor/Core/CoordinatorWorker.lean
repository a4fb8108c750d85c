import Hiactor.Core.Coordinator

/-!
# Coordinator worker

Model of `coord_work_queue` and `coordinator_worker` (`core/coordinator_worker`). The main thread
submits and completes the items, which have the number of their submission, and a worker thread
processes them. Every push into a queue, every read or advance of the indices of a queue and every
use of the eventfd or of the flag is a step of its own, and the label of a step says who takes it.

The wakeup of an idle main thread and the results of the items are left out.
-/

namespace Hiactor

open Lib

namespace CoordWorkQueue

/-- `queue_length`. -/
def queueLength : Nat := 128

/-- `spsc_queue::push`, which has no result when the queue is full. -/
def push (queue : List Nat) (wi : Nat) : Option (List Nat) :=
  if queue.length < queueLength then some (queue ++ [wi]) else none

/-- What the main thread does in the queue. -/
inductive MainAt where
  | running
  /-- In the continuation of `submit_item`. -/
  | pushing (wi : Nat)
  | signalling
  /-- In `consume_all` of `_completed`, with so many items. -/
  | collecting (avail : Nat)
  /-- In the loop of `complete`, with the items from `p` to `end`. -/
  | completing (todo : List Nat) (nr : Nat)
  /-- In the destructor, after the store to `_stopped`. -/
  | stopping
  | joining
  deriving DecidableEq, Repr

/-- Where the worker thread is in the loop of `work`. -/
inductive WorkerAt where
  /-- At the read of `_start_eventfd`. -/
  | reading
  /-- At the load of `_stopped`. -/
  | loading
  /-- In `consume_all` of `_pending`, before and after the items are counted. -/
  | counting
  | collecting (avail : Nat)
  /-- At `process` of the first item from `p` to `end`. -/
  | processing (todo : List Nat)
  /-- At the push into `_completed`. -/
  | pushing (wi : Nat) (todo : List Nat)
  | exited
  deriving DecidableEq, Repr

end CoordWorkQueue

/-- `coordinator_worker` with its `coord_work_queue`. `scheduled` are the items that have got room,
and whose continuations have still to run. The other fields record the run: how many items were
`submitted`, the items that were `pushed`, that a full queue `lost`, and that were `processed` and
`finished`. -/
structure CoordinatorWorker where
  pending : List Nat := []
  completed : List Nat := []
  startEventfd : Nat := 0
  queueHasRoom : Semaphore := { count := CoordWorkQueue.queueLength }
  scheduled : List Nat := []
  stopped : Bool := false
  main : CoordWorkQueue.MainAt := .running
  worker : CoordWorkQueue.WorkerAt := .reading
  submitted : Nat := 0
  pushed : List Nat := []
  lost : List Nat := []
  processed : List Nat := []
  finished : List Nat := []
  deriving DecidableEq, Repr

namespace CoordinatorWorker

open CoordWorkQueue

inductive Label where
  /-- `submit_item`. A continuation that need not wait runs `inline`, or is scheduled when the main
  thread is to be preempted. -/
  | submit (inline : Bool)
  /-- A scheduled continuation runs. -/
  | run (idx : Nat)
  | complete
  /-- The destructor. -/
  | stop
  /-- The main thread goes on. -/
  | main
  | worker
  deriving DecidableEq, Repr

variable (s : CoordinatorWorker)

def submitItem (inline : Bool) : CoordinatorWorker :=
  let (room, ready) := s.queueHasRoom.wait s.submitted 1
  let s := { s with queueHasRoom := room, submitted := s.submitted + 1 }
  match inline, ready with
  | true, [wi] => { s with main := .pushing wi }
  | _, ready => { s with scheduled := s.scheduled ++ ready }

def pushPending (wi : Nat) : CoordinatorWorker :=
  match push s.pending wi with
  | some pending => { s with pending := pending, pushed := s.pushed ++ [wi] }
  | none => { s with lost := s.lost ++ [wi], pushed := s.pushed ++ [wi] }

def pushCompleted (wi : Nat) : CoordinatorWorker :=
  match push s.completed wi with
  | some completed => { s with completed := completed }
  | none => { s with lost := s.lost ++ [wi] }

/-- `_queue_has_room.signal(nr)`. -/
def signalRoom (nr : Nat) : CoordinatorWorker :=
  let (room, ready) := Semaphore.serve (s.queueHasRoom.count + nr) s.queueHasRoom.waiters
  { s with queueHasRoom := room, scheduled := s.scheduled ++ ready }

def stepMain : Option CoordinatorWorker :=
  match s.main with
  | .running => none
  | .pushing wi => some { s.pushPending wi with main := .signalling }
  | .signalling => some { s with startEventfd := s.startEventfd + 1, main := .running }
  | .collecting avail =>
    some { s with
      completed := s.completed.drop avail
      main := .completing (s.completed.take avail) avail }
  | .completing (wi :: todo) nr =>
    some { s with finished := s.finished ++ [wi], main := .completing todo nr }
  | .completing [] nr => some { s.signalRoom nr with main := .running }
  | .stopping => some { s with startEventfd := s.startEventfd + 1, main := .joining }
  | .joining => none

/-- A step of `coordinator_worker::work`. -/
def stepWorker : Option CoordinatorWorker :=
  match s.worker with
  | .reading =>
    if 0 < s.startEventfd then some { s with startEventfd := 0, worker := .loading } else none
  | .loading => some { s with worker := if s.stopped then .exited else .counting }
  | .counting => some { s with worker := .collecting s.pending.length }
  | .collecting avail =>
    some { s with
      pending := s.pending.drop avail
      worker := .processing (s.pending.take avail) }
  | .processing (wi :: todo) =>
    some { s with processed := s.processed ++ [wi], worker := .pushing wi todo }
  | .processing [] => some { s with worker := .reading }
  | .pushing wi todo => some { s.pushCompleted wi with worker := .processing todo }
  | .exited => none

/-- The first four labels are for a main thread that does nothing in the queue. -/
def step : Label → Option CoordinatorWorker
  | .submit inline => if s.main = .running then some (s.submitItem inline) else none
  | .run idx =>
    if s.main = .running then
      s.scheduled[idx]?.map fun wi =>
        { s with scheduled := s.scheduled.eraseIdx idx, main := .pushing wi }
    else none
  | .complete =>
    if s.main = .running then some { s with main := .collecting s.completed.length } else none
  | .stop => if s.main = .running then some { s with stopped := true, main := .stopping } else none
  | .main => s.stepMain
  | .worker => s.stepWorker

end CoordinatorWorker

end Hiactor
