import Mathlib.Logic.Function.Basic
import Hiactor.Lib.Run
import Hiactor.Core.Address

/-!
# The actor objects of one shard

Model of `actor_base` (`core/actor_core`), of `actor_group` and `actor` (`core/actor-template`)
and of `root_actor_group` (`core/root_actor_group`): the tree of the actor objects of a shard
with their mailboxes, task queues and states, and the calls that are under way.

A shard is one thread. A run of the reactor enters the `run_and_dispose` of an actor object,
which enters those of its children, and user code runs at the bottom of such a nest. The model
keeps the nest as a list of frames and makes one step from one point where user code can run,
or where `need_yield` is asked, to the next. At such a point user code may send messages,
schedule continuations and complete methods, in any number and order.

Addresses are written from the actor up to the root: `k :: p` is the child with key `k` of the
object at `p`, and `[]` is the root. The root is kept as a group among the others. The counters of
methods and of shard and promise ids are natural numbers, which follow the code as long as an actor
has fewer than `2 ^ 32` methods in flight. The semaphores that count active children start at
`SSIZE_MAX` and a group has at most one child for each of the `2 ^ 48` keys, so that they never
make a child wait. The counter of children is the one of the code and wraps around: a group with
`2 ^ 32` children is deleted as if it had none.
-/

namespace Hiactor

open Lib

abbrev Path := List ActorKey

/-- Type ids from 61440 on are those of actor groups. -/
def ActorKey.isGroup (k : ActorKey) : Bool := decide (0xF000 ≤ k.type)

/-! ## Messages -/

/-- `message_type`. -/
inductive MessageType where
  | user
  | response
  | exceptionResponse
  | forceStop
  | peaceStop
  deriving DecidableEq, Repr

/-- The part of a message that the shard reads. `mid` tells message objects apart. -/
structure ActorMessage where
  mid : Nat
  type : MessageType
  srcShardId : Nat
  prId : Nat
  deriving DecidableEq, Repr

/-- `make_system_message`, as a group sends it to its children. -/
def stopMessage (force : Bool) : ActorMessage :=
  ⟨0, if force then .forceStop else .peaceStop, 0, 0⟩

def ActorMessage.isStop (m : ActorMessage) : Bool :=
  m.type == .forceStop || m.type == .peaceStop

/-- A `RESPONSE` or an `EXCEPTION_RESPONSE`; `mid` is the message that it answers. -/
structure Reply where
  mid : Nat
  shardId : Nat
  prId : Nat
  exception : Bool
  deriving DecidableEq, Repr

/-- `make_response_message` for a message. -/
def ActorMessage.reply (m : ActorMessage) (exception : Bool) : Reply :=
  ⟨m.mid, m.srcShardId, m.prId, exception⟩

/-! ## Actor objects -/

/-- `schedule_status`. -/
inductive SchedStatus where
  | initialized
  | schedulable
  | scheduled
  deriving DecidableEq, Repr

/-- `actor_status`. -/
inductive ActorStatus where
  | running
  | peaceStopping
  | forceStopping
  deriving DecidableEq, Repr

/-- The result of the future of `do_work`: failed, or a `stop_reaction`. -/
inductive WorkState where
  | failed
  | no
  | yes
  deriving DecidableEq, Repr

/-- The continuations in the task queue of an actor. `reply` is the continuation of the
generated `do_work` that sends the response, `post` is the `post_work_func` of
`run_and_dispose`, and `user` is any other one. -/
inductive Task where
  | user
  | reply (msg : ActorMessage) (failed : Bool)
  | post (msg : ActorMessage) (state : WorkState)
  deriving DecidableEq, Repr

/-- `cancel`. The `post_work_func` finds a failed future; the continuations of seastar, as that of
the generated `do_work` is one, keep the `cancel` of a task, which does nothing. -/
def Task.cancel : Task → Task
  | .user => .user
  | .reply msg failed => .reply msg failed
  | .post msg _ => .post msg .failed

/-- The fields of `actor_group` and of `root_actor_group`. An entry of the map is `true` for a
pointer and `false` for `nullptr`. The identity of the message that set the cancel request is
kept beside it, and so is the number of the children that were created and have not ended, of which
the counter has the last 32 bits. -/
structure GroupBody where
  numActorsManaged : UInt32 := 0
  actorInstMap : List (ActorKey × Bool) := []
  cancelRequestSid : Nat := 2 ^ 32 - 1
  cancelRequestPrId : Nat := 0
  cancelRequestMid : Nat := 0
  taskQueue : List ActorKey := []
  children : Int := 0
  counted : numActorsManaged = .ofInt children := by rfl
  deriving DecidableEq, Repr

/-- `++_num_actors_managed`. -/
def GroupBody.adopt (g : GroupBody) : GroupBody :=
  { g with
    numActorsManaged := g.numActorsManaged + 1
    children := g.children + 1
    counted := by rw [g.counted, UInt32.ofInt_add, UInt32.ofInt_one] }

/-- `--_num_actors_managed`. -/
def GroupBody.drop (g : GroupBody) : GroupBody :=
  { g with
    numActorsManaged := g.numActorsManaged - 1
    children := g.children - 1
    counted := by
      rw [g.counted, Int.sub_eq_add_neg, UInt32.ofInt_add, UInt32.ofInt_neg_one,
        UInt32.sub_eq_add_neg] }

/-- The fields of `actor`, and the messages of the methods in flight. -/
structure ActorBody where
  taskQueue : List Task := []
  maxConcurrency : Nat
  curConcurrency : Nat := 0
  inFlight : List ActorMessage := []
  deriving DecidableEq, Repr

inductive Body where
  | group (g : GroupBody)
  | actor (a : ActorBody)
  deriving DecidableEq, Repr

/-- The fields of `actor_base`. -/
structure ActorObject where
  schedStatus : SchedStatus := .initialized
  stopStatus : ActorStatus := .running
  mailbox : List ActorMessage := []
  body : Body
  deriving DecidableEq, Repr

namespace ActorObject

variable (o : ActorObject)

/-- `stopping`. -/
def stopping : Bool := o.stopStatus != .running

/-- `force_stopping`. -/
def forceStopping : Bool := o.stopStatus == .forceStopping

def isGroup : Bool := match o.body with
  | .group _ => true
  | .actor _ => false

/-- The entry of a child, in an actor group. -/
def entry (k : ActorKey) : Option Bool := match o.body with
  | .group g => g.actorInstMap.lookup k
  | .actor _ => none

def numActorsManaged : UInt32 := match o.body with
  | .group g => g.numActorsManaged
  | .actor _ => 0

def children : Int := match o.body with
  | .group g => g.children
  | .actor _ => 0

def curConcurrency : Nat := match o.body with
  | .group _ => 0
  | .actor a => a.curConcurrency

def mapGroup (f : GroupBody → GroupBody) : ActorObject :=
  { o with body := match o.body with
      | .group g => .group (f g)
      | .actor a => .actor a }

def mapActor (f : ActorBody → ActorBody) : ActorObject :=
  { o with body := match o.body with
      | .group g => .group g
      | .actor a => .actor (f a) }

def setSched (status : SchedStatus) : ActorObject := { o with schedStatus := status }

def setStop (force : Bool) : ActorObject :=
  { o with stopStatus := if force then .forceStopping else .peaceStopping }

def setMailbox (mailbox : List ActorMessage) : ActorObject := { o with mailbox := mailbox }

/-- `_actor_inst_map[k] = reached`. -/
def setEntry (k : ActorKey) (reached : Bool) : ActorObject :=
  o.mapGroup fun g => { g with actorInstMap := (k, reached) :: g.actorInstMap.filter (·.1 != k) }

/-- The queue of child actors that wait to be run. -/
def setActors (f : List ActorKey → List ActorKey) : ActorObject :=
  o.mapGroup fun g => { g with taskQueue := f g.taskQueue }

/-- The queue of continuations. -/
def setTasks (f : List Task → List Task) : ActorObject :=
  o.mapActor fun a => { a with taskQueue := f a.taskQueue }

end ActorObject

/-- `set_max_concurrency`. -/
def maxConcurrencyOf (concurrency : Nat) : Nat := if concurrency > 0 then concurrency else 1

/-- The constructors. That of an actor leaves it the limit of `actor(exec_ctx, addr, reentrant)`,
which is 1 or `UINT32_MAX`, or one that it sets itself. -/
def ActorObject.create (limitOf : ActorKey → Nat) (k : ActorKey) : ActorObject where
  body := if k.isGroup then .group {} else .actor { maxConcurrency := maxConcurrencyOf (limitOf k) }

/-! ## The shard -/

/-- Where the `run_and_dispose` of an actor object stands. -/
inductive Pc where
  /-- A group is about to look at its mailbox. -/
  | groupMail
  /-- A group is about to look at its task queue. -/
  | groupTasks
  /-- A group runs a child. -/
  | groupChild
  /-- An actor is about to look at its task queue. -/
  | tasks
  /-- An actor runs a continuation. -/
  | inTask
  /-- An actor is about to look at its mailbox. -/
  | mail
  /-- An actor is in `do_work`. -/
  | inWork (msg : ActorMessage)
  /-- An actor has handled a message. -/
  | worked
  deriving DecidableEq, Repr

structure RunFrame where
  path : Path
  pc : Pc
  deriving DecidableEq, Repr

/-- A stop that runs user code: the loop of `clean_task_queue` of an actor, of which a task is
`running`, or the loop of `stop_actor_system` over the children of the root. -/
inductive StopFrame where
  | clean (path : Path) (running : Bool)
  | stopSystem (force : Bool) (msg : ActorMessage)
  deriving DecidableEq, Repr

/-- What is recorded of a run. `sent` has the object that sent the response, `disabled` is the
writing of a null entry, and `exited` a call of `wait_others_and_exit`. -/
inductive Event where
  | created (path : Path)
  | disabled (path : Path)
  | destroyed (path : Path)
  | enqueued (msg : ActorMessage) (path : Path)
  | rejected (msg : ActorMessage) (addr : List ActorKey)
  | started (msg : ActorMessage) (path : Path)
  | sent (sender : Path) (reply : Reply)
  | reclaimed (msg : ActorMessage)
  | exited
  deriving DecidableEq, Repr

/-- The state of a shard. The frames of `stops` lie above those of `runs`, and `limitOf` has the
limits that the constructors of the actors set. -/
structure Shard where
  limitOf : ActorKey → Nat
  objs : Path → Option ActorObject
  runs : List RunFrame := []
  stops : List StopFrame := []
  log : List Event := []
  nextMid : Nat := 1

namespace Shard

/-- A shard after `allocate_actor_engine`. -/
def init (limitOf : ActorKey → Nat) : Shard where
  limitOf := limitOf
  objs := fun p => if p = [] then some { body := .group {} } else none

variable (s : Shard)

def update (p : Path) (f : ActorObject → ActorObject) : Shard :=
  { s with objs := Function.update s.objs p ((s.objs p).map f) }

def emit (e : Event) : Shard := { s with log := s.log ++ [e] }

/-- The entry of a child in the object at `p`. -/
def entry (p : Path) (k : ActorKey) : Option Bool := (s.objs p).bind (·.entry k)

/-- The root is stopping. -/
def rootStopping : Bool := (s.objs []).any ActorObject.stopping

/-! ### Scheduling -/

/-- `activate`: an actor object that is schedulable goes to the queue of its parent, which
is activated in turn. The root is never scheduled: its queue is that of the reactor. -/
def activate (s : Shard) : Path → Shard
  | [] => s
  | k :: p =>
    match s.objs (k :: p) with
    | some o =>
      if o.schedStatus = .schedulable then
        ((s.update (k :: p) (·.setSched .scheduled)).update p
          (·.setActors (· ++ [k]))).activate p
      else s
    | none => s

/-- `schedule`. -/
def schedule (p : Path) : Shard := (s.update p (·.setSched .schedulable)).activate p

/-- `enque_message`. -/
def enqueMessage (p : Path) (m : ActorMessage) : Shard :=
  (s.update p fun o => o.setMailbox (o.mailbox ++ [m])).activate p

/-- `enque_urgent_message`. -/
def enqueUrgentMessage (p : Path) (m : ActorMessage) : Shard :=
  (s.update p fun o => o.setMailbox (m :: o.mailbox)).activate p

/-- `add_task` and `add_urgent_task` of an actor. -/
def addTask (p : Path) (task : Task) (urgent : Bool) : Shard :=
  (s.update p (·.setTasks fun q => if urgent then task :: q else q ++ [task])).activate p

/-! ### Routing -/

/-- The creation of a child in `get_actor_local` and `receive`. -/
def createChild (p : Path) (k : ActorKey) : Shard :=
  ((({ s with objs := Function.update s.objs (k :: p) (some (.create s.limitOf k)) }.update p
    (·.setEntry k true)).update p (·.mapGroup .adopt)).emit (.created (k :: p))).schedule (k :: p)

/-- `get_actor_local` of the object at `p`, for the layers of the address below it. -/
def getActorLocal (s : Shard) (p : Path) : List ActorKey → Shard × Option Path
  | [] => (s, some p)
  | k :: ks =>
    match s.objs p with
    | none => (s, none)
    | some o =>
      if o.isGroup then
        match o.entry k with
        | some false => (s, none)
        | some true => s.getActorLocal (k :: p) ks
        | none => (s.createChild p k).getActorLocal (k :: p) ks
      else (s, some p)

/-- `reclaim_actor_message`. -/
def reclaim (m : ActorMessage) : Shard := s.emit (.reclaimed m)

/-- `stopped_actor_enqueue`. -/
def stoppedActorEnqueue (addr : List ActorKey) (m : ActorMessage) : Shard :=
  let s := s.emit (.rejected m addr)
  (if m.prId ≠ 0 then s.emit (.sent [] (m.reply true)) else s).reclaim m

/-- The end of `receive` for a message to an actor object. -/
def enque (p : Path) (m : ActorMessage) : Shard :=
  let s := s.emit (.enqueued m p)
  if m.type = .user then s.enqueMessage p m else s.enqueUrgentMessage p m

/-- The start of `stop_actor_system` on behalf of `m`. Its loop over the children is a frame of its
own, which ends by reclaiming the message, and the promises of the shard are not part of this
model. -/
def stopActorSystem (force : Bool) (m : ActorMessage) : Shard :=
  if s.rootStopping then s.reclaim m
  else { s.update [] (·.setStop force) with stops := .stopSystem force m :: s.stops }

/-- `receive` of a message to the root itself. A response goes to the promises of the shard. -/
def receiveRoot (m : ActorMessage) : Option Shard :=
  match m.type with
  | .response => some s
  | .exceptionResponse => some s
  | .peaceStop => some (s.stopActorSystem false m)
  | .forceStop => some (s.stopActorSystem true m)
  | .user => none

/-- `receive`. -/
def receive (addr : List ActorKey) (m : ActorMessage) : Option Shard :=
  match addr with
  | [] => s.receiveRoot m
  | k :: ks =>
    match s.entry [] k with
    | some false => some (s.stoppedActorEnqueue addr m)
    | some true =>
      match s.getActorLocal [k] ks with
      | (s', some p) => some (s'.enque p m)
      | (s', none) => some (s'.stoppedActorEnqueue addr m)
    | none =>
      if s.rootStopping then some (s.stoppedActorEnqueue addr m)
      else
        match (s.createChild [] k).getActorLocal [k] ks with
        | (s', some p) => some (s'.enque p m)
        | (_, none) => none

/-! ### Stopping -/

/-- `clean_mailbox`. -/
def cleanMailbox (p : Path) : Shard :=
  match s.objs p with
  | some o =>
    { s.update p (·.setMailbox []) with log := s.log ++ o.mailbox.map .reclaimed }
  | none => s

/-- `stop_all_children`. -/
def stopAllChildren (p : Path) (force : Bool) : Shard :=
  match s.objs p with
  | some ⟨_, _, _, .group g⟩ =>
    (g.actorInstMap.filter (·.2)).foldl
      (fun s child => s.enqueUrgentMessage (child.1 :: p) (stopMessage force)) s
  | _ => s

/-- `actor_group::stop`. -/
def stopGroup (p : Path) (force : Bool) : Shard :=
  match s.objs p with
  | some o =>
    if o.stopping then s
    else
      let s := (s.update p (·.setStop force)).stopAllChildren p force
      let s := if force then s.cleanMailbox p else s
      if o.numActorsManaged = 0 then s.activate p else s
  | none => s

/-- The entry of a child becomes null. -/
def disable (p : Path) (k : ActorKey) : Shard :=
  (s.update p (·.setEntry k false)).emit (.disabled (k :: p))

/-- The end of `actor::stop`. -/
def activateIdle (p : Path) : Shard :=
  match s.objs p with
  | some o => if o.curConcurrency = 0 then s.activate p else s
  | none => s

/-- `stop_child_actor` of the object at `p`, with `stop` of the child in it. The forced stop of
an actor goes on in a frame, which ends by disabling the child. -/
def stopChildActor (p : Path) (k : ActorKey) (force : Bool) : Shard :=
  match s.entry p k, s.objs (k :: p) with
  | some true, some o =>
    if o.isGroup then (s.stopGroup (k :: p) force).disable p k
    else if o.stopping then s.disable p k
    else if force then
      let s := ((s.update (k :: p) (·.setStop true)).cleanMailbox (k :: p)).update (k :: p)
        (·.setTasks (List.map Task.cancel))
      { s with stops := .clean (k :: p) false :: s.stops }
    else ((s.update (k :: p) (·.setStop false)).activateIdle (k :: p)).disable p k
  | _, _ => s

/-- `stop_child_actor(_address, force)` of the parent of an actor object. -/
def stopSelf (p : Path) (force : Bool) : Shard :=
  match p with
  | [] => s
  | k :: p => s.stopChildActor p k force

/-! ### Running -/

/-- `run_and_dispose` of a continuation. -/
def runTask (p : Path) : Task → Shard
  | .user => s
  | .reply msg failed =>
    (s.emit (.sent p (msg.reply failed))).addTask p (.post msg .no) false
  | .post msg state =>
    let s := (s.update p
      (·.mapActor fun a => { a with curConcurrency := a.curConcurrency - 1 })).reclaim msg
    if state = .yes then s.stopSelf p true else s

/-- `notify_child_stopped` of the object at `p`. -/
def notifyChildStopped (p : Path) : Shard :=
  let s := s.update p (·.mapGroup .drop)
  if p = [] ∧ (s.objs p).any (fun o => o.numActorsManaged == 0 && o.stopping) then s.emit .exited
  else s

/-- `delete this`. -/
def destroy (p : Path) : Shard :=
  { s with objs := Function.update s.objs p none, log := s.log ++ [.destroyed p] }

/-- The first frame moves on. -/
def setPc (pc : Pc) : Shard :=
  { s with runs := match s.runs with
      | [] => []
      | frame :: rest => { frame with pc := pc } :: rest }

/-- The first frame returns. -/
def leave : Shard := { s with runs := s.runs.tail }

/-- `FINAL` in `actor_group::run_and_dispose`. A group that is deleted while it has children, as one
with `2 ^ 32` of them is, leaves them a pointer to itself, through which the next of them that is
scheduled schedules it, which is undefined. `step` has no step there; `Remains.step` goes on without
the children. -/
def finishGroup (p : Path) (k : ActorKey) : Option Shard :=
  match s.objs (k :: p) with
  | some ⟨sched, stop, mailbox, .group g⟩ =>
    let o : ActorObject := ⟨sched, stop, mailbox, .group g⟩
    let s := s.leave
    if o.stopping ∧ g.numActorsManaged = 0 ∧ g.taskQueue = [] ∧ mailbox = [] then
      let s := s.notifyChildStopped p
      let s := if g.cancelRequestPrId ≠ 0 then
          s.emit (.sent (k :: p)
            ⟨g.cancelRequestMid, g.cancelRequestSid, g.cancelRequestPrId, false⟩)
        else s
      if g.children = 0 then some (s.destroy (k :: p)) else none
    else
      let s := s.update (k :: p) (·.setSched .schedulable)
      some (if mailbox ≠ [] ∨ g.taskQueue ≠ [] then s.activate (k :: p) else s)
  | _ => none

/-- `FINAL` in `actor::run_and_dispose`. -/
def finishActor (p : Path) (k : ActorKey) : Option Shard :=
  match s.objs (k :: p) with
  | some ⟨sched, stop, mailbox, .actor a⟩ =>
    let o : ActorObject := ⟨sched, stop, mailbox, .actor a⟩
    let s := s.leave
    if o.stopping ∧ a.curConcurrency = 0 ∧ mailbox = [] then
      some ((s.notifyChildStopped p).destroy (k :: p))
    else
      let s := s.update (k :: p) (·.setSched .schedulable)
      some (if a.taskQueue ≠ [] ∨ (mailbox ≠ [] ∧ a.curConcurrency < a.maxConcurrency) then
        s.activate (k :: p) else s)
  | _ => none

/-- The start of the `run_and_dispose` of the `i`-th child in the queue of `p`. The reactor and
a comparator of a schedulable group may choose any. -/
def enterChild (p : Path) (i : Nat) : Option Shard :=
  match s.objs p with
  | some ⟨_, _, _, .group g⟩ =>
    match g.taskQueue[i]? with
    | some k =>
      match s.objs (k :: p) with
      | some o =>
        let s := s.update p (·.setActors (·.eraseIdx i))
        let s := if o.forceStopping then
            s.update (k :: p) (·.setTasks (List.map Task.cancel)) else s
        let pc := if o.isGroup then Pc.groupMail else Pc.tasks
        some { s with runs := ⟨k :: p, pc⟩ :: s.runs }
      | none => none
    | none => none
  | _ => none

/-- One round of the mailbox loop of a group, with `process_message`. -/
def groupMail (p : Path) (k : ActorKey) (needYield : Bool) : Option Shard :=
  match s.objs (k :: p) with
  | some ⟨_, _, mailbox, .group _⟩ =>
    match mailbox with
    | [] => some (s.setPc .groupTasks)
    | m :: mailbox =>
      if m.isStop then
        let s := s.update (k :: p) (·.setMailbox mailbox)
        let s := s.stopChildActor p k (m.type == .forceStop)
        let s := s.update (k :: p) (·.mapGroup fun g => { g with
          cancelRequestSid := m.srcShardId, cancelRequestPrId := m.prId,
          cancelRequestMid := m.mid })
        let s := s.reclaim m
        if needYield then s.finishGroup p k else some s
      else none
  | _ => none

/-- One round of the task loop of a group, up to the entry of the child. -/
def groupTasks (p : Path) (k : ActorKey) (i : Nat) : Option Shard :=
  match s.objs (k :: p) with
  | some ⟨_, _, _, .group g⟩ =>
    if g.taskQueue = [] then s.finishGroup p k
    else (s.setPc .groupChild).enterChild (k :: p) i
  | _ => none

/-- One round of the task loop of an actor, up to the start of the continuation, and the check
of the concurrency limit. -/
def actorTasks (p : Path) (k : ActorKey) : Option Shard :=
  match s.objs (k :: p) with
  | some ⟨_, _, _, .actor a⟩ =>
    match a.taskQueue with
    | task :: rest =>
      some (((s.update (k :: p) (·.setTasks fun _ => rest)).setPc .inTask).runTask (k :: p) task)
    | [] =>
      if a.curConcurrency = a.maxConcurrency then
        some (s.update (k :: p) (·.setSched .schedulable)).leave
      else some (s.setPc .mail)
  | _ => none

/-- One round of the mailbox loop of an actor, up to `do_work`. -/
def actorMail (p : Path) (k : ActorKey) : Option Shard :=
  match s.objs (k :: p) with
  | some ⟨_, _, mailbox, .actor _⟩ =>
    match mailbox with
    | [] => s.finishActor p k
    | m :: mailbox =>
      let s := s.update (k :: p) (·.setMailbox mailbox)
      match m.type with
      | .user => some ((s.setPc (.inWork m)).emit (.started m (k :: p)))
      | .peaceStop => some (((s.setPc .worked).stopChildActor p k false).reclaim m)
      | .forceStop => some (((s.setPc .worked).stopChildActor p k true).reclaim m)
      | _ => none
  | _ => none

/-- `do_work` returns a future that is available. -/
def workDone (p : Path) (k : ActorKey) (m : ActorMessage) (reply : Option Bool)
    (state : WorkState) : Option Shard :=
  match s.objs (k :: p) with
  | some ⟨_, _, _, .actor _⟩ =>
    let s := match reply with
      | some failed => s.emit (.sent (k :: p) (m.reply failed))
      | none => s
    let s := (s.setPc .worked).reclaim m
    some (if state = .yes then s.stopChildActor p k true else s)
  | _ => none

/-- `do_work` returns a future that is not available. -/
def workPending (p : Path) (k : ActorKey) (m : ActorMessage) : Option Shard :=
  match s.objs (k :: p) with
  | some ⟨_, _, _, .actor a⟩ =>
    let s := s.update (k :: p) (·.mapActor fun a => { a with
      curConcurrency := a.curConcurrency + 1, inFlight := a.inFlight ++ [m] })
    if a.curConcurrency + 1 = a.maxConcurrency then s.finishActor p k
    else some (s.setPc .worked)
  | _ => none

/-- The loop of `clean_task_queue` goes on with its next task, or the stop of the actor ends. -/
def cleanNext (p : Path) (k : ActorKey) (rest : List StopFrame) : Option Shard :=
  match s.objs (k :: p) with
  | some ⟨_, _, _, .actor a⟩ =>
    match a.taskQueue with
    | task :: tasks =>
      some ({ s.update (k :: p) (·.setTasks fun _ => tasks) with
        stops := .clean (k :: p) true :: rest }.runTask (k :: p) task)
    | [] => some (({ s with stops := rest }.activateIdle (k :: p)).disable p k)
  | _ => none

/-- The loop of `stop_actor_system` ends. -/
def stopSystemEnd (m : ActorMessage) (rest : List StopFrame) : Option Shard :=
  match s.objs [] with
  | some ⟨_, _, _, .group g⟩ =>
    if g.actorInstMap.any (·.2) then none
    else
      let s := { s with stops := rest }
      some ((if g.numActorsManaged = 0 then s.emit .exited else s).reclaim m)
  | _ => none

/-! ### Steps -/

/-- The choices that the model leaves open: what user code and other shards do, which task is
run, what `need_yield` returns and what `do_work` does. -/
inductive Label where
  | receive (addr : List ActorKey) (type : MessageType) (srcShardId prId : Nat)
  | addTask (path : Path) (urgent : Bool)
  | complete (path : Path) (i : Nat) (reply : Option Bool) (state : WorkState)
  | setMaxConcurrency (path : Path) (concurrency : Nat)
  | dispatch (i : Nat)
  | advance (needYield : Bool) (i : Nat)
  | workDone (reply : Option Bool) (state : WorkState)
  | workPending
  | stopNext (k : ActorKey)
  deriving DecidableEq, Repr

/-- User code can run: the reactor is between two tasks, or a continuation or `do_work` runs. -/
def userPoint : Bool :=
  match s.stops with
  | .clean _ running :: _ => running
  | .stopSystem .. :: _ => false
  | [] =>
    match s.runs with
    | [] => true
    | frame :: _ =>
      match frame.pc with
      | .inTask => true
      | .inWork _ => true
      | _ => false

/-- A method in flight completes: the continuation that sends its response is scheduled, or the
`post_work_func` when there is none. -/
def complete (p : Path) (i : Nat) (reply : Option Bool) (state : WorkState) : Option Shard :=
  match s.objs p with
  | some ⟨_, _, _, .actor a⟩ =>
    match a.inFlight[i]? with
    | some m =>
      let s := s.update p (·.mapActor fun a => { a with inFlight := a.inFlight.eraseIdx i })
      some (match reply with
        | some failed => s.addTask p (.reply m failed) false
        | none => s.addTask p (.post m state) false)
    | none => none
  | _ => none

/-- What user code does. -/
def userStep : Label → Option Shard
  | .receive addr type srcShardId prId =>
    (s.receive addr ⟨s.nextMid, type, srcShardId, prId⟩).map fun s' =>
      { s' with nextMid := s.nextMid + 1 }
  | .addTask p urgent =>
    match s.objs p with
    | some ⟨_, _, _, .actor _⟩ => some (s.addTask p .user urgent)
    | _ => none
  | .complete p i reply state => s.complete p i reply state
  | .setMaxConcurrency p concurrency =>
    some (s.update p (·.mapActor fun a => { a with
      maxConcurrency := maxConcurrencyOf concurrency }))
  | _ => none

/-- What the first frame does next. -/
def runStep (frame : RunFrame) (label : Label) : Option Shard :=
  match frame.path with
  | [] => none
  | k :: p =>
    match frame.pc, label with
    | .groupMail, .advance needYield _ => s.groupMail p k needYield
    | .groupTasks, .advance _ i => s.groupTasks p k i
    | .groupChild, .advance needYield _ =>
      if needYield then s.finishGroup p k else some (s.setPc .groupTasks)
    | .tasks, .advance _ _ => s.actorTasks p k
    | .inTask, .advance needYield _ =>
      if needYield then s.finishActor p k else some (s.setPc .tasks)
    | .mail, .advance _ _ => s.actorMail p k
    | .inWork m, .workDone reply state => s.workDone p k m reply state
    | .inWork m, .workPending => s.workPending p k m
    | .worked, .advance needYield _ =>
      if needYield then s.finishActor p k else some (s.setPc .mail)
    | _, _ => none

/-- What a stop does next. The loop of `stop_actor_system` takes the entries in any order: those
that it has not come to are the ones that are not null. -/
def stopStep (frame : StopFrame) (rest : List StopFrame) (label : Label) : Option Shard :=
  match frame, label with
  | .clean (k :: p) _, .advance _ _ => s.cleanNext p k rest
  | .stopSystem force _, .stopNext k =>
    if s.entry [] k = some true then some (s.stopChildActor [] k force) else none
  | .stopSystem _ m, .advance _ _ => s.stopSystemEnd m rest
  | _, _ => none

/-- The labels of user code. -/
def Label.isUser : Label → Bool
  | .receive .. | .addTask .. | .complete .. | .setMaxConcurrency .. => true
  | _ => false

/-- One step of the shard: user code acts, or the innermost call goes on, or the reactor takes a
task. -/
def step (s : Shard) (label : Label) : Option Shard :=
  if label.isUser then
    if s.userPoint then s.userStep label else none
  else
    match s.stops, s.runs with
    | frame :: rest, _ => s.stopStep frame rest label
    | [], frame :: _ => s.runStep frame label
    | [], [] =>
      match label with
      | .dispatch i => s.enterChild [] i
      | _ => none

end Shard

end Hiactor
