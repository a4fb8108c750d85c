import Mathlib.Data.List.Basic

/-!
# Streams of a GPU

Model of `gpu_resource_pool` (`core/gpu_resource_pool.hh`) for one device: the counters of its
streams, the queue of the candidates, and the tasks of all shards, each of which is somewhere in
`get_stream` or `submit_work`. Each operation on the queue and each operation on a counter is one
step.

The lambdas of `get_stream` refer to its local variable `stream_id`. While its frame is alive they
read what was written; when it has ended, the slot of the variable belongs to other calls, and what
is read from it comes with the step.
-/

namespace Hiactor

/-- Where a task is. `alive` tells whether the frame of its `get_stream` is alive. -/
inductive GpuTask where
  /-- Before the pop, the first one or the one after a sleep. -/
  | popping (alive : Bool)
  /-- After the pop of this id, before `stream_id` is read. -/
  | popped (id : Nat) (alive : Bool)
  /-- Before the increment. -/
  | using (id : Nat)
  /-- Before the push that follows the increment. -/
  | offering (id : Nat)
  /-- Submitted, before the decrement. -/
  | running (id : Nat)
  /-- Before the push that follows the decrement. -/
  | reoffering (id : Nat)
  | finished
  deriving DecidableEq, Repr

structure GpuPool where
  /-- The `count` of each stream. -/
  counts : List UInt32
  candidates : List Nat
  tasks : List GpuTask := []
  deriving DecidableEq, Repr

inductive GpuAction where
  /-- A continuation is not run at once, so that the call of `get_stream` returns. -/
  | defer
  | pop
  | read (slot : Nat)
  /-- The submitted function throws, or a call of CUDA before the increment does. -/
  | fail
  | increment
  | push
  | complete
  deriving DecidableEq, Repr

inductive GpuLabel where
  | submit
  | task (i : Nat) (action : GpuAction)
  deriving DecidableEq, Repr

namespace GpuPool

/-- The state after the configuration. -/
def configure (streamNum : Nat) : GpuPool :=
  { counts := List.replicate streamNum 0, candidates := List.range streamNum }

variable (limit : UInt32) (s : GpuPool)

def setTask (i : Nat) (task : GpuTask) : GpuPool := { s with tasks := s.tasks.set i task }

def setCount (id : Nat) (count : UInt32) : GpuPool := { s with counts := s.counts.set id count }

/-- `_candidates->pop`: without a candidate the task sleeps and pops again. -/
def pop (i : Nat) (alive : Bool) : GpuPool :=
  match s.candidates with
  | [] => s.setTask i (.popping false)
  | id :: rest => { s.setTask i (.popped id alive) with candidates := rest }

def push (id : Nat) : GpuPool := { s with candidates := s.candidates ++ [id] }

/-- The increment of the counter and its test. A stream that is not there has no counter. -/
def increment (i id : Nat) : Option GpuPool :=
  s.counts[id]?.map fun count =>
    (s.setTask i (if count + 1 < limit then .offering id else .running id)).setCount id (count + 1)

/-- The decrement of the counter, whose old value is tested. -/
def decrement (i id : Nat) : Option GpuPool :=
  s.counts[id]?.map fun count =>
    (s.setTask i (if count = limit then .reoffering id else .finished)).setCount id (count - 1)

/-- What a task does next. -/
def act (i : Nat) : GpuTask → GpuAction → Option GpuPool
  | .popping _, .defer => some (s.setTask i (.popping false))
  | .popping alive, .pop => some (s.pop i alive)
  | .popped id _, .defer => some (s.setTask i (.popped id false))
  | .popped id alive, .read slot => some (s.setTask i (.using (if alive then id else slot)))
  -- the future of `submit_work` fails, and nobody has the id any more
  | .using _, .fail => some (s.setTask i .finished)
  | .using id, .increment => s.increment limit i id
  | .offering id, .push => some ((s.setTask i (.running id)).push id)
  | .running id, .complete => s.decrement limit i id
  | .reoffering id, .push => some ((s.setTask i .finished).push id)
  | _, _ => none

def step : GpuPool → GpuLabel → Option GpuPool
  | s, .submit => some { s with tasks := s.tasks ++ [.popping true] }
  | s, .task i action => s.tasks[i]?.bind fun task => s.act limit i task action

end GpuPool

namespace GpuTask

/-- The id is in the hands of the task, which is about to use it or to push it. -/
def holds (id : Nat) : GpuTask → Bool
  | .popped other _ | .using other | .offering other | .reoffering other => other == id
  | _ => false

/-- The id that was written to the slot of a frame that has ended. -/
def ended? : GpuTask → Option Nat
  | .popped id false => some id
  | _ => none

/-- The task is submitted to the stream and not completed. -/
def submitted (id : Nat) : GpuTask → Bool
  | .offering other | .running other => other == id
  | _ => false

end GpuTask

namespace GpuPool

/-- The slot of an ended frame still holds the id that was popped when it is read, and nothing
throws between the pop and the increment. -/
def KeepsId (s : GpuPool) : GpuLabel → Prop
  | .task i (.read slot) => ∀ id ∈ s.tasks[i]?.bind GpuTask.ended?, slot = id
  | .task _ .fail => False
  | _ => True

instance (s : GpuPool) : ∀ label, Decidable (s.KeepsId label)
  | .task i (.read slot) =>
    inferInstanceAs (Decidable (∀ id ∈ s.tasks[i]?.bind GpuTask.ended?, slot = id))
  | .task _ .fail => isFalse id
  | .submit | .task _ .defer | .task _ .pop | .task _ .increment | .task _ .push
  | .task _ .complete => isTrue trivial

variable (s : GpuPool) (id : Nat)

/-- How often an id is in the queue or in the hands of a task. -/
def present : Nat := s.candidates.count id + s.tasks.countP (GpuTask.holds id)

/-- The tasks that are submitted to the stream and not completed. -/
def submitted : Nat := s.tasks.countP (GpuTask.submitted id)

end GpuPool

end Hiactor
