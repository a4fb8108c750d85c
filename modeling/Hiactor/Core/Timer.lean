import Hiactor.Core.Shard

/-!
# Time quotas

Model of `core/actor_timer` and of `set_timer` and `need_yield` of `actor_base`
(`core/actor_core`), over the model of a shard: what `need_yield` returns is no longer open but
follows from the clock. The clock and the quota are variables of the thread of the shard, which
every run of an actor object overwrites; the other two values are fields of the objects, and are
kept for those that run.

Times are in nanoseconds, the unit of `steady_clock`, and quotas in microseconds. A label has the
reading of `steady_clock` and the result of `need_preempt`, for the case that the step asks for
them. Readings need not grow here.
-/

namespace Hiactor

/-- `default_actor_quota`. -/
def defaultActorQuota : Int := 500

/-- Nanoseconds in a `clock_unit`. -/
def clockUnit : Int := 1000

/-- `_unused_quota` and `_stop_time`. -/
structure Timer where
  unusedQuota : Int
  stopTime : Int
  deriving DecidableEq, Repr

/-- A shard with its clock. The timers are those of the frames in `runs`, and `startTime` is the
reading with which the outermost of them began. -/
structure TimedShard where
  shard : Shard
  actorClock : Int
  actorQuota : Int := defaultActorQuota
  actorExecutionCount : UInt32 := 0
  timers : List Timer := []
  startTime : Int := 0

structure TimedLabel where
  label : Shard.Label
  now : Int
  needPreempt : Bool
  deriving DecidableEq, Repr

/-- The object has messages. -/
def Shard.hasMail (s : Shard) (path : Path) : Bool := (s.objs path).any (·.mailbox ≠ [])

/-- `need_yield` is asked in this step; `true` when `advance_actor_clock` comes before. -/
def Shard.asksYield (s : Shard) : Label → Option Bool
  | .advance _ _ =>
    match s.stops, s.runs with
    | [], frame :: _ =>
      match frame.pc with
      | .groupMail => if s.hasMail frame.path then some true else none
      | .groupChild => some false
      | .inTask => some true
      | .worked => some true
      | _ => none
    | _, _ => none
  | _ => none

namespace TimedShard

variable (s : TimedShard)

/-- `advance_actor_clock`. -/
def advanceActorClock (defaultExecutionInterval : UInt32) (now : Int) : TimedShard :=
  if s.actorExecutionCount + 1 < defaultExecutionInterval then
    { s with actorExecutionCount := s.actorExecutionCount + 1 }
  else { s with actorExecutionCount := 0, actorClock := now }

/-- `need_yield` of the object of the first frame. The cast of the remaining time truncates. -/
def needYield (needPreempt : Bool) : Bool × TimedShard :=
  match s.timers with
  | [] => (needPreempt, s)
  | timer :: rest =>
    if needPreempt then (true, s)
    else
      let unusedQuota := (timer.stopTime - s.actorClock).tdiv clockUnit
      (decide (unusedQuota ≤ 0), { s with timers := ⟨unusedQuota, timer.stopTime⟩ :: rest })

/-- `set_timer` of the object at a path, at the start of its run. -/
def setTimer (path : Path) (now : Int) : TimedShard :=
  let s := if path.tail = [] then
      { s with actorClock := now, actorQuota := defaultActorQuota, startTime := now }
    else s
  { s with timers := ⟨s.actorQuota, s.actorClock + s.actorQuota * clockUnit⟩ :: s.timers }

/-- `set_actor_quota(_unused_quota)` of the group of the first frame, before it runs a child. -/
def passQuota : TimedShard :=
  match s.timers with
  | [] => s
  | timer :: _ => { s with actorQuota := timer.unusedQuota }

/-- The shard has made a step: the run of an object may have begun or ended. -/
def follow (now : Int) (shard : Shard) : TimedShard :=
  match shard.runs with
  | frame :: _ =>
    if s.shard.runs.length < shard.runs.length then
      { s.passQuota.setTimer frame.path now with shard := shard }
    else { s with
      shard := shard, timers := s.timers.drop (s.shard.runs.length - shard.runs.length) }
  | [] => { s with shard := shard, timers := [] }

/-- One step. Where `need_yield` is asked its result takes the place of the one in the label. -/
def step (defaultExecutionInterval : UInt32) (s : TimedShard) (l : TimedLabel) :
    Option TimedShard :=
  match s.shard.asksYield l.label with
  | some advances =>
    let s := if advances then s.advanceActorClock defaultExecutionInterval l.now else s
    let (yields, s) := s.needYield l.needPreempt
    (s.shard.step (.advance yields 0)).map (s.follow l.now)
  | none => (s.shard.step l.label).map (s.follow l.now)

/-- A shard at its start, at any reading of the clock. -/
def init (limitOf : ActorKey → Nat) (now : Int) : TimedShard :=
  { shard := .init limitOf, actorClock := now }

end TimedShard

end Hiactor
