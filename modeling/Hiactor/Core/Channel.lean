import Mathlib.Data.List.Basic
import Mathlib.Logic.Function.Basic
import Mathlib.Tactic.Common

/-!
# Message queues between the shards of a machine

Model of `actor_message_queue` and `local_channel` (`core/local_channel`), and of
`network_message_queue` and the queues of `network_channel` (`net/network_channel`): the two are
the same up to what a queue carries and what is done with a message that comes out of it.

A queue has a deque `pending_fifo` on the side of the producer, and a ring of `queue_length` slots
from which the consumer pops. The deque is a member of a union that only `start` constructs, so
that it is missing before: an operation that would read it then has no result. `_completed`, the
statistics and the waking of the consumer are not part of this model.
-/

namespace Hiactor

def queueLength : Nat := 128
def batchSize : Nat := 16
def prefetchCnt : Nat := 2

/-- Where a call of `process_incoming` stands: it has popped `tm`, or it is in its loop over the
`nr` other messages that it has popped. -/
inductive Incoming (α : Type) where
  | idle
  | first (tm : α)
  | loop (messages : List α) (nr i : Nat) (tm : α)
  deriving DecidableEq, Repr

def Incoming.isIdle {α : Type} : Incoming α → Bool
  | .idle => true
  | _ => false

/-- `actor_message_queue` and `network_message_queue`. -/
structure MessageQueue (α : Type) where
  tx : Option (List α) := none
  pending : List α := []
  incoming : Incoming α := .idle
  deriving DecidableEq, Repr

namespace MessageQueue

variable {α : Type} (q : MessageQueue α)

/-- `pending_fifo`. -/
def fifo : List α := q.tx.getD []

/-- `start`. -/
def start : MessageQueue α := { q with tx := some [] }

/-- `move_pending`: the ring takes what it has room for. -/
def movePending : Option (MessageQueue α) :=
  q.tx.map fun fifo =>
    let nr := min fifo.length (queueLength - q.pending.length)
    { q with tx := some (fifo.drop nr), pending := q.pending ++ fifo.take nr }

/-- `send`, from the state of the deque after the push on. -/
def pushed (fifo : List α) : Option (MessageQueue α) :=
  if batchSize ≤ fifo.length then { q with tx := some fifo }.movePending
  else some { q with tx := some fifo }

/-- `send`. -/
def send (msg : α) : Option (MessageQueue α) := q.tx.bind fun fifo => q.pushed (fifo ++ [msg])

/-- `send_urgent`. -/
def sendUrgent (msg : α) : Option (MessageQueue α) := q.tx.bind fun fifo => q.pushed (msg :: fifo)

/-- `flush_request_batch`. -/
def flushRequestBatch : Option (MessageQueue α) :=
  q.tx.bind fun fifo => if fifo ≠ [] then q.movePending else some q

/-- `pure_poll_rx`. -/
def purePollRx : Bool := decide (q.pending.length ≠ 0)

/-! `process_incoming` pops one message, then all others into an array, and handles them one
after the other. The array is filled up with `prefetch_cnt` copies of its last message. -/

/-- The first pop. -/
def popFirst : Option (MessageQueue α) :=
  match q.incoming, q.pending with
  | .idle, tm :: pending => some { q with pending := pending, incoming := .first tm }
  | _, _ => none

/-- The second pop. -/
def popRest : Option (MessageQueue α) :=
  match q.incoming with
  | .first tm => some { q with
      pending := []
      incoming := .loop (q.pending ++ List.replicate prefetchCnt (q.pending.getLastD tm))
        q.pending.length 0 tm }
  | _ => none

/-- One round of the loop, with the message that it handles. -/
def handleNext : Option (α × MessageQueue α) :=
  match q.incoming with
  | .loop messages nr i tm =>
    (messages[i]?).map fun next =>
      (tm, { q with incoming := if i + 1 ≤ nr then .loop messages nr (i + 1) next else .idle })
  | _ => none

/-- The destructor: the deque is destroyed unless the two ends of the queue are the same. -/
def destroy (sameRemote : Bool) : Option (MessageQueue α) :=
  if sameRemote then some q else q.tx.map fun _ => { q with tx := none }

end MessageQueue

/-- `local_channel` and `network_channel`: `qs i j` is the queue from shard `j` to shard `i`. -/
structure Channel (α : Type) where
  count : Nat
  qs : Nat → Nat → MessageQueue α

namespace Channel

variable {α : Type} (c : Channel α)

/-- `create_qs`. -/
def create (count : Nat) : Channel α where
  count := count
  qs := fun _ _ => {}

/-- The channel with `q` as the queue from shard `j` to shard `i`. -/
def set (i j : Nat) (q : MessageQueue α) : Channel α :=
  { c with qs := Function.update c.qs i (Function.update (c.qs i) j q) }

/-- An operation on one queue. -/
def modify (i j : Nat) (f : MessageQueue α → Option (MessageQueue α)) : Option (Channel α) :=
  (f (c.qs i j)).map (c.set i j)

/-- `start_all_queues` on shard `s`, for one channel. -/
def startAllQueues (s : Nat) : Channel α where
  count := c.count
  qs := fun i j => if j = s ∧ i < c.count ∧ i ≠ s then (c.qs i j).start else c.qs i j

/-- The queues, in the order of `qs_deleter`. -/
def pairs : List (Nat × Nat) :=
  (List.range c.count).flatMap fun i => (List.range c.count).map fun j => (i, j)

/-- The destructor of one queue: its two ends are the same when it leads from a shard to
itself. -/
def destroyQueue (pair : Nat × Nat) : Option (Channel α) :=
  c.modify pair.1 pair.2 (·.destroy (pair.1 == pair.2))

/-- `qs_deleter`. -/
def destroyAll : Option (Channel α) := c.pairs.foldlM destroyQueue c

end Channel

end Hiactor
