import Hiactor.Core.Shard

/-!
# Groups that are deleted while they have children

A group that is stopping is deleted when its 32-bit counter of children reads 0, which it also does
with `2 ^ 32` of them. The children keep a pointer to the group. They stay as they are until a
method or a continuation of theirs schedules one of them in the deleted group, which is undefined;
the rest of the shard goes on.
-/

namespace Hiactor

open Lib

namespace Shard

/-! ## Deletions -/

/-- The state in which the run of the group at `k :: p` reaches `FINAL`. -/
def finalState (s : Shard) (p : Path) (k : ActorKey) (pc : Pc) (needYield : Bool) : Option Shard :=
  match pc, needYield with
  | .groupMail, true =>
    match s.objs (k :: p) with
    | some ⟨_, _, m :: mailbox, .group _⟩ =>
      if m.isStop then
        let s := s.update (k :: p) (·.setMailbox mailbox)
        let s := s.stopChildActor p k (m.type == .forceStop)
        let s := s.update (k :: p) (·.mapGroup fun g => { g with
          cancelRequestSid := m.srcShardId, cancelRequestPrId := m.prId,
          cancelRequestMid := m.mid })
        some (s.reclaim m)
      else none
    | _ => none
  | .groupTasks, _ => some s
  | .groupChild, true => some s
  | _, _ => none

/-- `notify_child_stopped`, and the answer to the cancel request of a group. -/
def acknowledge (s : Shard) (p : Path) (k : ActorKey) (g : GroupBody) : Shard :=
  if g.cancelRequestPrId ≠ 0 then
    (s.notifyChildStopped p).emit (.sent (k :: p)
      ⟨g.cancelRequestMid, g.cancelRequestSid, g.cancelRequestPrId, false⟩)
  else s.notifyChildStopped p

/-- `FINAL` of a group that is deleted, for the objects that it does not leave behind. -/
def deleteGroup (s : Shard) (p : Path) (k : ActorKey) (g : GroupBody) : Shard :=
  let s := s.leave.acknowledge p k g
  { s.destroy (k :: p) with objs := fun q => if k :: p <:+ q then none else s.objs q }

/-- The path of a group that is deleted while it has children, the state at its `FINAL` and the one
after it. -/
def deletion (s : Shard) (label : Label) : Option (Path × Shard × Shard) :=
  match s.stops, s.runs, label with
  | [], ⟨k :: p, pc⟩ :: _, .advance needYield _ =>
    match s.finalState p k pc needYield with
    | none => none
    | some t =>
      match t.objs (k :: p) with
      | some ⟨_, stop, [], .group g⟩ =>
        if stop ≠ .running ∧ g.numActorsManaged = 0 ∧ g.taskQueue = [] ∧ g.children ≠ 0 then
          some (k :: p, t, t.deleteGroup p k g)
        else none
      | _ => none
  | _, _, _ => none

end Shard

/-- A shard, and the groups that were deleted while they had children: where each was and the state
at its `FINAL`, from which on the objects below it stay as they are. -/
structure Remains where
  shard : Shard
  deleted : List (Path × Shard) := []

namespace Remains

def init (limitOf : ActorKey → Nat) : Remains where
  shard := .init limitOf

/-- One step of the shard, up to the first one that is undefined. -/
def step (r : Remains) (label : Shard.Label) : Option Remains :=
  match r.shard.step label with
  | some s => some { r with shard := s }
  | none => (r.shard.deletion label).map fun (path, final, s) => ⟨s, (path, final) :: r.deleted⟩

/-- The actor object `o` exists and its address is `p`. -/
def Has (r : Remains) (p : Path) (o : ActorObject) : Prop :=
  r.shard.objs p = some o ∨
    ∃ path final, (path, final) ∈ r.deleted ∧ path <:+ p ∧ path ≠ p ∧ final.objs p = some o

/-- No call is under way and no actor object waits for a run. -/
structure AtRest (r : Remains) : Prop where
  runs : r.shard.runs = []
  stops : r.shard.stops = []
  idle : ∀ {p o}, p ≠ [] → r.Has p o → o.schedStatus ≠ .scheduled

/-- An actor has a method in flight. -/
def Flying (r : Remains) : Prop := ∃ p o, r.Has p o ∧ o.isGroup = false ∧ 0 < o.curConcurrency

end Remains

end Hiactor
