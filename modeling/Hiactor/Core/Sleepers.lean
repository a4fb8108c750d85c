import Mathlib.Logic.Function.Basic
import Hiactor.Lib.Run
import Hiactor.Core.Pollfn

/-!
# Shards that sleep and shards that wake them

Model of `lf_queue::maybe_wakeup` and the push before it in `move_pending` (`core/local_channel`,
`net/network_channel`), and of `actor_smp_pollfn` (`core/actor_pollfn.hh`) with the flag `_sleeping`
of a shard.

Every shard is a thread. A store waits in the buffer of its thread and goes to memory later, after
the stores before it; a load sees the stores of its own thread and what is in memory. In
`try_systemwide_memory_barrier` every thread passes a point where nothing waits in its buffer, the
caller first, or the call is refused. `wakeup_reactor` is a system call: it happens when no store
of its thread waits any more. The event that it raises stays until the reactor that was woken has
left its interrupt mode. A reactor may leave its interrupt mode at any time.

The deque of a queue is not part of this model: the messages of a push are any that fit in the
ring. `process_incoming` takes any number of the messages that it finds.
-/

namespace Hiactor

/-- A store to a ring or to `_sleeping`. -/
inductive Store (α : Type) where
  | push (kind : ChannelKind) (target : Nat) (messages : List α)
  | sleeping (shard : Nat) (value : Bool)
  deriving DecidableEq, Repr

/-- Where a shard is in `move_pending`. -/
inductive Sending where
  | idle
  /-- At the load of `_sleeping`. -/
  | checking (target : Nat)
  /-- At the store to `_sleeping`. -/
  | clearing (target : Nat)
  /-- At `wakeup_reactor`. -/
  | waking (target : Nat)
  deriving DecidableEq, Repr

/-- Where a shard is in `try_enter_interrupt_mode`. -/
inductive SleepMode where
  | awake
  /-- In the barrier, which the shards in `todo` have not passed yet. -/
  | barrier (todo : List Nat)
  /-- In `poll`, with the queues that are left. -/
  | polling (todo : List (ChannelKind × Nat)) (found : Bool)
  /-- It has returned true. -/
  | asleep
  deriving DecidableEq, Repr

/-- The shards of a machine. `ring kind i j` is what shard `i` finds in its queue from shard `j`,
and `notified` the event that `wakeup_reactor` raises. -/
structure Sleepers (α : Type) where
  count : Nat
  ring : ChannelKind → Nat → Nat → List α := fun _ _ _ => []
  sleeping : Nat → Bool := fun _ => false
  buffer : Nat → List (Store α) := fun _ => []
  notified : Nat → Bool := fun _ => false
  mode : Nat → SleepMode := fun _ => .awake
  sending : Nat → Sending := fun _ => .idle

/-- What a shard does next. `drain` and `pass` are done by the memory and by the barrier. -/
inductive SleepAction (α : Type) where
  /-- The push in `move_pending`. -/
  | push (kind : ChannelKind) (target : Nat) (messages : List α)
  /-- The next access of `maybe_wakeup`. -/
  | wakeupNext
  | drain
  /-- `try_enter_interrupt_mode`, up to the barrier. -/
  | tryEnter
  /-- The same, when the barrier is refused. -/
  | tryEnterRefused
  | pass (shard : Nat)
  | startPoll (networkFirst : Bool)
  /-- The pops from the next queue in `poll`. -/
  | pollNext (nr : Nat)
  | endPoll
  | exitInterruptMode
  /-- The reactor takes note of the event. -/
  | takeEvent
  deriving DecidableEq, Repr

namespace Sleepers

variable {α : Type}

def init (count : Nat) : Sleepers α where
  count := count

variable (m : Sleepers α)

def setMode (s : Nat) (mode : SleepMode) : Sleepers α :=
  { m with mode := Function.update m.mode s mode }

def setSending (s : Nat) (sending : Sending) : Sleepers α :=
  { m with sending := Function.update m.sending s sending }

/-- A store is put in the buffer of shard `s`. -/
def store (s : Nat) (st : Store α) : Sleepers α :=
  { m with buffer := Function.update m.buffer s (m.buffer s ++ [st]) }

/-- The messages that shard `j` has pushed for shard `i` and that are still in its buffer. -/
def waiting (kind : ChannelKind) (i j : Nat) : List α :=
  (m.buffer j).flatMap fun
    | .push kind' target messages => if kind' = kind ∧ target = i then messages else []
    | .sleeping _ _ => []

/-- `_sleeping` of shard `i` as shard `s` loads it. -/
def load (s i : Nat) : Bool :=
  (m.buffer s).foldl (fun value st =>
    match st with
    | .push _ _ _ => value
    | .sleeping shard value' => if shard = i then value' else value) (m.sleeping i)

/-- A store of shard `s` goes to memory. -/
def apply (s : Nat) : Store α → Sleepers α
  | .push kind target messages =>
    { m with ring := Function.update m.ring kind (Function.update (m.ring kind) target
        (Function.update (m.ring kind target) s (m.ring kind target s ++ messages))) }
  | .sleeping shard value => { m with sleeping := Function.update m.sleeping shard value }

/-- The queues in the order in which `poll` looks at them. -/
def queues (s : Nat) (networkFirst : Bool) : List (ChannelKind × Nat) :=
  let loop kind := ((List.range m.count).filter (· ≠ s)).map fun i => (kind, i)
  if networkFirst then loop .network ++ loop .local else loop .local ++ loop .network

/-- Code that pushes messages can run. -/
def canPush (s : Nat) : Bool :=
  m.sending s == .idle && match m.mode s with
    | .awake | .polling _ _ => true
    | .barrier _ | .asleep => false

/-- The next access of `maybe_wakeup`. -/
def wakeupNext (s : Nat) : Option (Sleepers α) :=
  match m.sending s with
  | .idle => none
  | .checking target => some (m.setSending s (if m.load s target then .clearing target else .idle))
  | .clearing target => some ((m.store s (.sleeping target false)).setSending s (.waking target))
  | .waking target =>
    if m.buffer s = [] then
      some { m.setSending s .idle with notified := Function.update m.notified target true }
    else none

/-- A shard passes the barrier that shard `s` is in. -/
def pass (s shard : Nat) : Option (Sleepers α) :=
  match m.mode s with
  | .barrier todo =>
    if shard ∈ todo ∧ (s ∈ todo → shard = s) ∧ m.buffer shard = [] then
      some (m.setMode s (.barrier (todo.filter (· ≠ shard))))
    else none
  | _ => none

/-- The pops from the next queue. -/
def pollNext (s nr : Nat) : Option (Sleepers α) :=
  match m.mode s with
  | .polling ((kind, i) :: todo) found =>
    if m.ring kind s i = [] then some (m.setMode s (.polling todo found))
    else if 0 < nr then
      some ({ m with ring := Function.update m.ring kind (Function.update (m.ring kind) s
        (Function.update (m.ring kind s) i ((m.ring kind s i).drop nr))) }.setMode s
          (.polling todo true))
    else none
  | _ => none

/-- The end of `try_enter_interrupt_mode`. -/
def endPoll (s : Nat) : Option (Sleepers α) :=
  match m.mode s with
  | .polling [] found =>
    if found then some ((m.store s (.sleeping s false)).setMode s .awake)
    else some (m.setMode s .asleep)
  | _ => none

/-- A shard that is at rest between its calls, with nothing of `move_pending` under way. -/
def isAwake (s : Nat) : Bool := m.mode s == .awake && m.sending s == .idle

/-- A step of shard `s`. -/
def act (s : Nat) : SleepAction α → Option (Sleepers α)
  | .push kind target messages =>
    if m.canPush s ∧ target < m.count ∧ target ≠ s ∧ messages ≠ [] ∧
        (m.ring kind target s).length + (m.waiting kind target s).length + messages.length ≤
          queueLength then
      some ((m.store s (.push kind target messages)).setSending s (.checking target))
    else none
  | .wakeupNext => m.wakeupNext s
  | .drain =>
    match m.buffer s with
    | st :: rest => some ({ m with buffer := Function.update m.buffer s rest }.apply s st)
    | [] => none
  | .tryEnter =>
    if m.isAwake s then
      some ((m.store s (.sleeping s true)).setMode s (.barrier (List.range m.count)))
    else none
  | .tryEnterRefused =>
    if m.isAwake s then some ((m.store s (.sleeping s true)).store s (.sleeping s false)) else none
  | .pass shard => m.pass s shard
  | .startPoll networkFirst =>
    if m.mode s = .barrier [] then some (m.setMode s (.polling (m.queues s networkFirst) false))
    else none
  | .pollNext nr => if m.sending s = .idle then m.pollNext s nr else none
  | .endPoll => if m.sending s = .idle then m.endPoll s else none
  | .exitInterruptMode =>
    if m.mode s = .asleep then some ((m.store s (.sleeping s false)).setMode s .awake) else none
  | .takeEvent =>
    if m.isAwake s then some { m with notified := Function.update m.notified s false } else none

def step (label : Nat × SleepAction α) : Option (Sleepers α) :=
  if label.1 < m.count then m.act label.1 label.2 else none

/-- There are messages for shard `i` in a ring or on the way to it. -/
def HasMail (i : Nat) : Prop := ∃ kind j, m.ring kind i j ≠ [] ∨ m.waiting kind i j ≠ []

/-- Shard `j` is going to wake shard `i`. -/
def Wakes (j i : Nat) : Prop :=
  match m.sending j with
  | .idle => False
  | .checking target => target = i ∧ m.load j i = true
  | .clearing target | .waking target => target = i

/-- A shard sleeps on messages, and nobody has woken it or is going to. -/
def LostWakeup (i : Nat) : Prop :=
  m.mode i = .asleep ∧ m.HasMail i ∧ m.notified i = false ∧ ∀ j, ¬ m.Wakes j i

end Sleepers

end Hiactor
