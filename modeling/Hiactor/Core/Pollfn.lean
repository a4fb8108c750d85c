import Hiactor.Core.Channel

/-!
# The poll function of a shard

Model of `actor_smp_pollfn` (`core/actor_pollfn.hh`), of `poll_queues` and `pure_poll_queues` of
the two channels, and of `actor_smp::start_all_queues` and the destructors of the queues: the
shards of a machine that work on their queues in any interleaving.

A step of a shard is one access to a queue: a push, a flush, a pop, or the handling of a message
that has been popped. Between two messages that it handles a shard may send others, since
`receive` runs on it; it sends nothing in the rest of its poll function. A shard is polled only
after its `start_all_queues`, and the queues are destroyed only after that of all shards, when no
shard is in its poll function. A step that would use a deque that `start_all_queues` has not
constructed is an error.

The flag `_sleeping` and the waking of a shard by its producers are not part of this model: a
sleeping shard may wake at any time.
-/

namespace Hiactor

/-- `local_channel` or `network_channel`. -/
inductive ChannelKind where
  | «local»
  | network
  deriving DecidableEq, Repr

/-- Where a round of the loop of `poll_queues` stands: before the first pop of `process_incoming`,
in its loop, or before `flush_request_batch`. -/
inductive PollStage where
  | process
  | handle
  | flush
  deriving DecidableEq, Repr

/-- What a shard is doing. `todo` are the rounds left of the loops of both channels, and `got` is
the number of messages handled. -/
inductive PollPhase where
  | idle
  | poll (entering : Bool) (got : Nat) (todo : List (ChannelKind × Nat)) (stage : PollStage)
  | purePoll (found : Bool) (todo : List (ChannelKind × Nat))
  | interruptMode
  deriving DecidableEq, Repr

/-- Why a step is not taken: it is not enabled, or it uses a deque that is not constructed. -/
inductive Fault where
  | disabled
  | uninitialised
  deriving DecidableEq, Repr

/-- The shards of a machine and their queues. -/
structure Smp (α : Type) where
  count : Nat
  channel : ChannelKind → Channel α
  started : Nat → Bool
  phase : Nat → PollPhase
  destroyed : Bool

/-- A step of shard `s`. The operands of `|` in `poll` and `pure_poll` are evaluated in any
order. -/
inductive SmpLabel (α : Type) where
  | startAllQueues (s : Nat)
  | send (s : Nat) (kind : ChannelKind) (target : Nat) (msg : α) (urgent : Bool)
  | poll (s : Nat) (networkFirst : Bool)
  | purePoll (s : Nat) (networkFirst : Bool)
  | tryEnterInterruptMode (s : Nat) (barrierDone networkFirst : Bool)
  | exitInterruptMode (s : Nat)
  | next (s : Nat)
  | destroy

/-- The shard may run code that sends messages. -/
def PollPhase.sends : PollPhase → Bool
  | .idle | .poll _ _ _ .handle => true
  | _ => false

namespace Smp

variable {α : Type} (m : Smp α)

/-- After `create_qs`. -/
def create (count : Nat) : Smp α where
  count := count
  channel := fun _ => .create count
  started := fun _ => false
  phase := fun _ => .idle
  destroyed := false

def setPhase (s : Nat) (phase : PollPhase) : Smp α :=
  { m with phase := Function.update m.phase s phase }

def setQueue (kind : ChannelKind) (i j : Nat) (q : MessageQueue α) : Smp α :=
  { m with channel := Function.update m.channel kind ((m.channel kind).set i j q) }

/-- The queue from shard `j` to shard `i`. -/
def queue (kind : ChannelKind) (i j : Nat) : MessageQueue α := (m.channel kind).qs i j

/-- An operation on the deque of a queue. -/
def useTx (kind : ChannelKind) (i j : Nat) (f : MessageQueue α → Option (MessageQueue α)) :
    Except Fault (Smp α) :=
  match f (m.queue kind i j) with
  | some q => .ok (m.setQueue kind i j q)
  | none => .error .uninitialised

/-- The rounds of the loops of both channels. -/
def rounds (networkFirst : Bool) : List (ChannelKind × Nat) :=
  let loop kind := (List.range m.count).map fun i => (kind, i)
  if networkFirst then loop .network ++ loop .local else loop .local ++ loop .network

/-- The next access of `poll` in the round of shard `s` for shard `i`. -/
def pollRound (s : Nat) (entering : Bool) (got : Nat) (kind : ChannelKind) (i : Nat)
    (todo : List (ChannelKind × Nat)) : PollStage → Except Fault (Smp α)
  | .process =>
    if s ≠ i then
      match (m.queue kind s i).popFirst with
      | some q =>
        .ok ((m.setQueue kind s i q).setPhase s (.poll entering got ((kind, i) :: todo) .handle))
      | none => .ok (m.setPhase s (.poll entering got ((kind, i) :: todo) .flush))
    else .ok (m.setPhase s (.poll entering got todo .process))
  | .handle =>
    match (m.queue kind s i).popRest, (m.queue kind s i).handleNext with
    | some q, _ => .ok (m.setQueue kind s i q)
    | none, some (_, q) =>
      .ok ((m.setQueue kind s i q).setPhase s (.poll entering (got + 1) ((kind, i) :: todo)
        (if q.incoming.isIdle then .flush else .handle)))
    | none, none => .error .disabled
  | .flush => do
    let m ← m.useTx kind i s (·.flushRequestBatch)
    return m.setPhase s (.poll entering got todo .process)

/-- What `pure_poll_queues` does in a round after its test of the index. -/
def purePollRound (s : Nat) (found : Bool) (kind : ChannelKind) (i : Nat)
    (todo : List (ChannelKind × Nat)) : Except Fault (Smp α) := do
  let m ← m.useTx kind i s (·.flushRequestBatch)
  if (m.queue kind s i).purePollRx then
    return m.setPhase s (.purePoll true (todo.dropWhile (·.1 = kind)))
  else return m.setPhase s (.purePoll found todo)

/-- The next access of the poll function that shard `s` is in. Only the loop of `local_channel`
leaves out the shard itself in `pure_poll_queues`. -/
def next (s : Nat) : Except Fault (Smp α) :=
  match m.phase s with
  | .poll entering got ((kind, i) :: todo) stage => m.pollRound s entering got kind i todo stage
  | .poll entering got [] _ =>
    .ok (m.setPhase s (if entering ∧ got = 0 then .interruptMode else .idle))
  | .purePoll found ((.local, i) :: todo) =>
    if s ≠ i then m.purePollRound s found .local i todo
    else .ok (m.setPhase s (.purePoll found todo))
  | .purePoll found ((.network, i) :: todo) => m.purePollRound s found .network i todo
  | .purePoll _ [] => .ok (m.setPhase s .idle)
  | .idle | .interruptMode => .error .disabled

/-- `start_all_queues` on shard `s`. -/
def startAllQueues (s : Nat) : Smp α :=
  { m with
    channel := fun kind => (m.channel kind).startAllQueues s
    started := Function.update m.started s true }

/-- The destructors of the queues. -/
def destroy : Except Fault (Smp α) :=
  match (m.channel .local).destroyAll, (m.channel .network).destroyAll with
  | some localQs, some networkQs =>
    .ok { m with channel := fun | .local => localQs | .network => networkQs, destroyed := true }
  | _, _ => .error .uninitialised

/-- The shard that takes a step, and that it can take it. -/
def enabled : SmpLabel α → Bool
  | .startAllQueues s => s < m.count && !m.started s
  | .send s _ target _ _ =>
    s < m.count && m.started s && (m.phase s).sends && target < m.count && target != s
  | .poll s _ | .purePoll s _ | .tryEnterInterruptMode s _ _ =>
    s < m.count && m.started s && m.phase s == .idle
  | .exitInterruptMode s => s < m.count && m.phase s == .interruptMode
  | .next s => s < m.count
  | .destroy => (List.range m.count).all fun s => m.started s && m.phase s == .idle

/-- A step that is enabled. -/
def perform : SmpLabel α → Except Fault (Smp α)
  | .startAllQueues s => .ok (m.startAllQueues s)
  | .send s kind target msg urgent =>
    m.useTx kind target s fun q => if urgent then q.sendUrgent msg else q.send msg
  | .poll s networkFirst => .ok (m.setPhase s (.poll false 0 (m.rounds networkFirst) .process))
  | .purePoll s networkFirst => .ok (m.setPhase s (.purePoll false (m.rounds networkFirst)))
  | .tryEnterInterruptMode s barrierDone networkFirst =>
    .ok (if barrierDone then m.setPhase s (.poll true 0 (m.rounds networkFirst) .process) else m)
  | .exitInterruptMode s => .ok (m.setPhase s .idle)
  | .next s => m.next s
  | .destroy => m.destroy

def exec (label : SmpLabel α) : Except Fault (Smp α) :=
  if m.enabled label && !m.destroyed then m.perform label else .error .disabled

def step (label : SmpLabel α) : Option (Smp α) := (m.exec label).toOption

end Smp

end Hiactor
