import Mathlib.Logic.Function.Basic
import Hiactor.Lib.Run

/-!
# Thread resource pool

Model of `work_thread`, `thread_resource_pool` and `thread_resource_pollfn`
(`core/thread_resource_pool`, `core/actor_pollfn.hh`). Shards and work threads run concurrently.
Every pop or push of a queue, every load or store of a flag, every access to a field that two
threads share and every use of the eventfd is a step of its own, and the label of a step says who
takes it.

`stop` is left out: it deletes the threads when the pollers are deregistered.
-/

namespace Hiactor

open Lib

/-- `work_thread::work_item`. -/
structure WorkItem where
  fromShard : Nat
  deriving DecidableEq, Repr

/-- Where a thread is in the loop of `work_thread::work`. -/
inductive WorkerPc where
  /-- At the read of `_start_eventfd`. -/
  | waiting
  /-- At the release of `_work_item`. -/
  | started
  /-- At `complete_work_item(wi)`, after `wi->process()`. -/
  | processing (wi : WorkItem)
  /-- At `return_worker(this)`. -/
  | completed
  /-- At the read of `_employer_shard`. -/
  | returned
  /-- At the load of the idle flag of the shard that it has read. -/
  | loaded (shard : Nat)
  /-- At the read of `_employer`, when the flag was set. -/
  | waking
  /-- At the call of `wakeup`. -/
  | calling (employer : Option Nat)
  deriving DecidableEq, Repr

/-- `work_thread`. A reactor is named by its shard. -/
structure WorkThread where
  pc : WorkerPc := .waiting
  workItem : Option WorkItem := none
  startEventfd : Nat := 0
  employer : Option Nat := none
  employerShard : Nat := 0
  deriving DecidableEq, Repr

/-- Where a shard is in `work_thread::submit`. -/
inductive SubmitPc where
  | writeEmployer
  | writeEmployerShard
  /-- At the read of `_employer_shard` for the new item. -/
  | create
  /-- At `_work_item.reset(wi)`. -/
  | reset (wi : WorkItem)
  | signal
  deriving DecidableEq, Repr

/-- What a shard executes. -/
inductive ShardPc where
  | running
  | submitting (w : Nat) (next : SubmitPc)
  /-- In `poll_queues`, called by `poll` or by `try_enter_interrupt_mode`; `consumed` says whether
  `consume_all` has popped an item. -/
  | polling (entering consumed : Bool)
  /-- At `exit_interrupt_mode`, when `try_enter_interrupt_mode` has raced with a completion. -/
  | raced
  /-- `try_enter_interrupt_mode` has returned true. -/
  | asleep
  deriving DecidableEq, Repr

/-- The pool and the shards that use it. `taken` are the threads that a shard has popped and has
not started yet. `woken` records whether `wakeup` was called since the shard fell asleep. -/
structure ThreadPool where
  localShardCount : Nat
  threads : List Nat
  completed : Nat → List WorkItem := fun _ => []
  reactorsIdle : Nat → Bool := fun _ => false
  thread : Nat → WorkThread := fun _ => {}
  shard : Nat → ShardPc := fun _ => .running
  taken : Nat → List Nat := fun _ => []
  woken : Nat → Bool := fun _ => false

namespace ThreadPool

/-- `configure`. -/
def init (localShardCount workerNum : Nat) : ThreadPool where
  localShardCount
  threads := List.range workerNum

/-- What a running shard does next; `next` is for the steps that leave no choice. -/
inductive Action where
  /-- `_threads->pop(wt)` in `submit_work`. -/
  | pop
  /-- The continuation of `submit_work` with a thread that was popped. -/
  | submit (w : Nat)
  | poll
  | tryEnterInterruptMode
  | next
  deriving DecidableEq, Repr

inductive Label where
  | shard (s : Nat) (action : Action)
  | worker (w : Nat)
  deriving DecidableEq, Repr

variable (p : ThreadPool)

def setShard (s : Nat) (pc : ShardPc) : ThreadPool :=
  { p with shard := Function.update p.shard s pc }

def setThread (w : Nat) (wt : WorkThread) : ThreadPool :=
  { p with thread := Function.update p.thread w wt }

def setIdle (s : Nat) (idle : Bool) : ThreadPool :=
  { p with reactorsIdle := Function.update p.reactorsIdle s idle }

/-- A step of `work_thread::submit`. -/
def submit (s w : Nat) : SubmitPc → ThreadPool
  | .writeEmployer =>
    (p.setThread w { p.thread w with employer := some s }).setShard s
      (.submitting w .writeEmployerShard)
  | .writeEmployerShard =>
    (p.setThread w { p.thread w with employerShard := s }).setShard s (.submitting w .create)
  | .create => p.setShard s (.submitting w (.reset ⟨(p.thread w).employerShard⟩))
  | .reset wi =>
    (p.setThread w { p.thread w with workItem := some wi }).setShard s (.submitting w .signal)
  | .signal =>
    { (p.setThread w { p.thread w with startEventfd := (p.thread w).startEventfd + 1 }).setShard s
        .running with
      taken := Function.update p.taken s ((p.taken s).erase w) }

/-- A step of `consume_all` in `poll_queues`, and what the caller does when the queue is empty. -/
def pollQueues (s : Nat) (entering consumed : Bool) : ThreadPool :=
  match p.completed s with
  | _ :: rest =>
    { p.setShard s (.polling entering true) with
      completed := Function.update p.completed s rest }
  | [] =>
    if entering then
      if consumed then p.setShard s .raced
      else { p.setShard s .asleep with woken := Function.update p.woken s false }
    else p.setShard s .running

def stepShard (s : Nat) : Action → Option ThreadPool
  | .pop =>
    if p.shard s = .running then
      match p.threads with
      | w :: rest =>
        some { p with
          threads := rest
          taken := Function.update p.taken s (w :: p.taken s) }
      | [] => some p
    else none
  | .submit w =>
    if p.shard s = .running ∧ w ∈ p.taken s then some (p.setShard s (.submitting w .writeEmployer))
    else none
  | .poll => if p.shard s = .running then some (p.setShard s (.polling false false)) else none
  | .tryEnterInterruptMode =>
    if p.shard s = .running then some ((p.setIdle s true).setShard s (.polling true false))
    else none
  | .next =>
    match p.shard s with
    | .running => none
    | .submitting w next => some (p.submit s w next)
    | .polling entering consumed => some (p.pollQueues s entering consumed)
    | .raced => some ((p.setIdle s false).setShard s .running)
    | .asleep => some ((p.setIdle s false).setShard s .running)

/-- A step of `work_thread::work`. -/
def stepWorker (w : Nat) : Option ThreadPool :=
  let wt := p.thread w
  match wt.pc with
  | .waiting =>
    if 0 < wt.startEventfd then
      some (p.setThread w { wt with pc := .started, startEventfd := 0 })
    else none
  | .started =>
    match wt.workItem with
    | some wi => some (p.setThread w { wt with pc := .processing wi, workItem := none })
    | none => none
  | .processing wi =>
    some { p.setThread w { wt with pc := .completed } with
      completed := Function.update p.completed wi.fromShard (p.completed wi.fromShard ++ [wi]) }
  | .completed =>
    some { p.setThread w { wt with pc := .returned } with threads := p.threads ++ [w] }
  | .returned => some (p.setThread w { wt with pc := .loaded wt.employerShard })
  | .loaded shard =>
    if p.reactorsIdle shard then some (p.setThread w { wt with pc := .waking })
    else some (p.setThread w { wt with pc := .waiting })
  | .waking => some (p.setThread w { wt with pc := .calling wt.employer })
  | .calling employer =>
    match employer with
    | some e =>
      some { p.setThread w { wt with pc := .waiting } with
        woken := Function.update p.woken e true }
    | none => none

def step : Label → Option ThreadPool
  | .shard s action => if s < p.localShardCount then p.stepShard s action else none
  | .worker w => p.stepWorker w

end ThreadPool

/-- The thread is still going to check the idle flag of the shard, or has found it set and is going
to wake the shard up. -/
def WorkThread.Checks (wt : WorkThread) (s : Nat) : Prop :=
  0 < wt.startEventfd ∧ wt.employerShard = s ∨
    match wt.pc with
    | .waiting => False
    | .started | .processing _ | .completed | .returned => wt.employerShard = s
    | .loaded shard => shard = s
    | .waking => wt.employer = some s
    | .calling employer => employer = some s

/-- The shard sleeps on a completed item and nobody is going to wake it up. -/
def ThreadPool.LostWakeup (p : ThreadPool) (s : Nat) : Prop :=
  p.shard s = .asleep ∧ p.completed s ≠ [] ∧ (∀ w, ¬(p.thread w).Checks s) ∧ p.woken s = false

end Hiactor
