import Mathlib.Logic.Function.Basic
import Hiactor.Lib.Run

/-!
# Barriers

Model of `coordinator` (`core/coordinator`): the calls of `local_barrier` and `global_barrier` on
the shards of one machine, and the semaphores that shard 0 keeps for them. The other shards submit
a signal to shard 0. A call on shard 0 waits for as many signals as there are other shards, and
its continuation erases the semaphore; in `global_barrier` the worker synchronizes with the other
machines first, which takes any time. Calls with `with_local = false` are those on shard 0.
-/

namespace Hiactor

open Lib

/-- `seastar::semaphore`. A waiter has the number of its call and the units that it asks for. -/
structure Semaphore where
  count : Nat := 0
  waiters : List (Nat × Nat) := []
  deriving DecidableEq, Repr

namespace Semaphore

/-- The loop of `signal`: the waiters in front are served as long as there are units for them. -/
def serve (count : Nat) : List (Nat × Nat) → Semaphore × List Nat
  | [] => (⟨count, []⟩, [])
  | (call, units) :: waiters =>
    if units ≤ count then
      let (sem, served) := serve (count - units) waiters
      (sem, call :: served)
    else (⟨count, (call, units) :: waiters⟩, [])

/-- `signal`, with the calls whose wait it completes. -/
def signal (sem : Semaphore) : Semaphore × List Nat := serve (sem.count + 1) sem.waiters

/-- `wait`. -/
def wait (sem : Semaphore) (call units : Nat) : Semaphore × List Nat :=
  if sem.waiters = [] ∧ units ≤ sem.count then ({ sem with count := sem.count - units }, [call])
  else ({ sem with waiters := sem.waiters ++ [(call, units)] }, [])

end Semaphore

/-- The arguments of `get_sem`: `global` chooses between `global_sems_` and `local_sems_`. -/
structure SemKey where
  barrierId : String
  global : Bool
  deriving DecidableEq, Repr

/-- The coordinator and the calls under way. `signals` are the messages to shard 0 with the shards
that sent them, and `ends` are the calls on shard 0 that have still to erase the semaphore, with
their `with_local`. The other fields record the run: the calls `made` on each other shard, those
that have `arrived` on shard 0, the calls on shard 0 that wait (`called`), the numbers of those
that have `completed` their wait, and how many of them have `erased` the semaphore. -/
structure Coordinator where
  localShardCount : Nat
  sems : SemKey → Option Semaphore := fun _ => none
  signals : List (Nat × SemKey) := []
  ends : List (SemKey × Bool) := []
  made : SemKey → Nat → Nat := fun _ _ => 0
  arrived : SemKey → Nat → Nat := fun _ _ => 0
  called : SemKey → Nat := fun _ => 0
  completed : SemKey → List Nat := fun _ => []
  erased : SemKey → Nat := fun _ => 0

namespace Coordinator

/-- A machine with `others` shards besides shard 0. -/
def init (others : Nat) : Coordinator where
  localShardCount := others + 1

inductive Label where
  /-- Another shard calls `local_barrier(id)` or `global_barrier(id, true)`. -/
  | arrive (shard : Nat) (key : SemKey)
  /-- Shard 0 executes one of the signals. -/
  | signal (i : Nat)
  /-- Shard 0 calls `local_barrier(id)` or `global_barrier(id, true)`. -/
  | call (key : SemKey)
  /-- Shard 0 calls `global_barrier(id, false)`. -/
  | callAlone (barrierId : String)
  /-- The last continuation of a call on shard 0. -/
  | finish (i : Nat)
  deriving DecidableEq, Repr

variable (c : Coordinator)

/-- `get_sem`. -/
def getSem (key : SemKey) : Semaphore := (c.sems key).getD {}

/-- The semaphore of a key after an operation that completed some waits. -/
def setSem (key : SemKey) (result : Semaphore × List Nat) : Coordinator :=
  { c with
    sems := Function.update c.sems key (some result.1)
    ends := c.ends ++ result.2.map fun _ => (key, true)
    completed := Function.update c.completed key (c.completed key ++ result.2) }

def step : Label → Option Coordinator
  | .arrive shard key =>
    if 0 < shard ∧ shard < c.localShardCount then
      some { c with
        signals := c.signals ++ [(shard, key)]
        made := Function.update c.made key
          (Function.update (c.made key) shard (c.made key shard + 1)) }
    else none
  | .signal i =>
    match c.signals[i]? with
    | some (shard, key) =>
      some ({ c with
        signals := c.signals.eraseIdx i
        arrived := Function.update c.arrived key
          (Function.update (c.arrived key) shard (c.arrived key shard + 1)) }.setSem key
            (c.getSem key).signal)
    | none => none
  | .call key =>
    some ({ c with called := Function.update c.called key (c.called key + 1) }.setSem key
      ((c.getSem key).wait (c.called key + 1) (c.localShardCount - 1)))
  | .callAlone barrierId => some { c with ends := c.ends ++ [(⟨barrierId, true⟩, false)] }
  | .finish i =>
    match c.ends[i]? with
    | some (key, withLocal) =>
      some { c with
        sems := Function.update c.sems key none
        ends := c.ends.eraseIdx i
        erased := if withLocal then Function.update c.erased key (c.erased key + 1) else c.erased }
    | none => none

end Coordinator

end Hiactor
