import Hiactor.Core.Channel
import Hiactor.Core.Request
import Hiactor.Core.Shard

/-!
# The shards of a machine

Model of a machine as a whole: the actor objects of its shards (`Core.Shard`), their promise tables
(`Core.Request`) and the queues between them (`Core.Channel`), put together by
`root_actor_group::send`, `receive` and `stop_actor_system`, by `request` of a client, and by
`cancel_scope`, `cancel_scope_request` and `exit` (`src/core/root_actor_group.cc`).

The steps of the shards, their pollers and the continuations of their clients alternate in any
order. An envelope also names the shard that it comes from and the request that it is about. No code
reads these, nor what the machine records in `received`, `sent`, `calls` and `outcomes`.
-/

namespace Hiactor

open Lib

/-- The fields of an `actor_message` between shards, without the shard id in its address. -/
structure Envelope where
  addr : List ActorKey
  type : MessageType
  srcShardId : Nat
  prId : Nat
  origin : Nat
  request : Option Nat := none
  deriving DecidableEq, Repr

/-- A response to the promises of a shard. -/
def Envelope.isResponse (msg : Envelope) : Bool :=
  msg.addr.isEmpty && (msg.type == .response || msg.type == .exceptionResponse)

/-- What a client may send: a message to an actor or a stop message. -/
def Envelope.isCall (msg : Envelope) : Bool :=
  (msg.type == .user && !msg.addr.isEmpty) || msg.type == .forceStop || msg.type == .peaceStop

/-- `received i mid` is the envelope that shard `i` made its message `mid` of, `sent dst i` are
those that its clients have sent to shard `dst`, `calls` the destination and the envelope of each
request, and `outcomes` who waited for each response that has found an active slot. -/
structure Machine where
  channel : Channel Envelope
  shards : Nat → Shard
  tables : Cluster := {}
  received : Nat → Nat → Option Envelope := fun _ _ => none
  sent : Nat → Nat → List Envelope := fun _ _ => []
  calls : List (Nat × Envelope) := []
  outcomes : List (Option Nat × Envelope) := []

namespace Machine

/-- A machine after its queues are started. -/
def init (count : Nat) (limitOf : ActorKey → Nat) : Machine where
  channel := (List.range count).foldl Channel.startAllQueues (.create count)
  shards := fun _ => .init limitOf

variable (m : Machine)

def count : Nat := m.channel.count

/-! ## Messages -/

/-- `receive` of a response: the promise of an active slot is resolved. A response to a message
that was no request counts as one to a request that was not issued. -/
def respond (i : Nat) (msg : Envelope) : Machine :=
  let manager := m.tables.managers i
  if manager.isActive msg.prId then
    { m with
      tables := m.tables.resolveSlot i msg.prId
        (.response (msg.request.getD m.tables.requests.length))
      outcomes := m.outcomes ++ [((manager.promise msg.prId).waiter, msg)] }
  else m

/-- `local_channel::send`. -/
def post (i dst : Nat) (msg : Envelope) : Option Machine :=
  (m.channel.modify dst i (·.send msg)).map fun channel => { m with channel := channel }

/-- `make_response_message`, for what shard `i` has recorded. -/
def responseEnvelope (i : Nat) (r : Reply) : Envelope where
  addr := []
  type := if r.exception then .exceptionResponse else .response
  srcShardId := 0
  prId := r.prId
  origin := i
  request := (m.received i r.mid).bind (·.request)

/-- `send` of a response. -/
def reply (i : Nat) (r : Reply) : Option Machine :=
  if r.shardId = i then some (m.respond i (m.responseEnvelope i r))
  else m.post i r.shardId (m.responseEnvelope i r)

/-- The responses among the events of shard `i` are sent. -/
def follow (i : Nat) (m : Machine) : Event → Option Machine
  | .sent _ r => m.reply i r
  | _ => some m

/-- The objects of shard `i` have become `s`. A shard that stops resolves its promises. -/
def settle (i : Nat) (s : Shard) : Option Machine :=
  (s.log.drop (m.shards i).log.length).foldlM (follow i) { m with
    shards := Function.update m.shards i s
    tables := if s.rootStopping then m.tables.stopActorSystem i else m.tables }

/-- The next message of shard `i` is `msg`. -/
def record (i : Nat) (msg : Envelope) : Machine :=
  { m with
    received := Function.update m.received i
      (Function.update (m.received i) (m.shards i).nextMid (some msg)) }

/-- `receive` of shard `i`. -/
def receive (i : Nat) (msg : Envelope) : Option Machine :=
  if msg.isResponse then some (m.respond i msg)
  else
    ((m.shards i).step (.receive msg.addr msg.type msg.srcShardId msg.prId)).bind
      ((m.record i msg).settle i)

/-- A client of shard `i` has sent `msg` to shard `dst`. -/
def note (i dst : Nat) (msg : Envelope) : Machine :=
  { m with
    sent := Function.update m.sent dst
      (Function.update (m.sent dst) i (m.sent dst i ++ [msg])) }

/-- `send` of a message that is no response. -/
def send (i dst : Nat) (msg : Envelope) : Option Machine :=
  if dst = i then (m.note i dst msg).receive i msg else (m.note i dst msg).post i dst msg

/-! ## Steps -/

/-- What happens next on a machine. -/
inductive Label where
  /-- `request` of a client, or `cancel_scope_request` for one shard. -/
  | request (i dst : Nat) (addr : List ActorKey) (type : MessageType)
  /-- A message that wants no response, `cancel_scope` or `exit` for one shard. -/
  | tell (i dst : Nat) (addr : List ActorKey) (type : MessageType)
  /-- A step of the objects of a shard. -/
  | act (i : Nat) (label : Shard.Label)
  | flush (dst src : Nat)
  | popFirst (dst src : Nat)
  | popRest (dst src : Nat)
  /-- A round of the loop of `process_incoming`. -/
  | handle (dst src : Nat)
  /-- The continuation of `send_and_wait`. -/
  | continuation (request : Nat)
  deriving DecidableEq, Repr

/-- The envelope of a request. -/
def requestEnvelope (i : Nat) (addr : List ActorKey) (type : MessageType) : Envelope where
  addr := addr
  type := type
  srcShardId := i
  prId := (m.tables.managers i).acquirePr.2
  origin := i
  request := some m.tables.requests.length

/-- `make_one_way_request_message` and `make_system_message`. -/
def oneWayEnvelope (i : Nat) (addr : List ActorKey) (type : MessageType) : Envelope where
  addr := addr
  type := type
  srcShardId := if type = .user then i else 0
  prId := 0
  origin := i

/-- User code of shard `i` can send `msg` to shard `dst`. Only the last layer of an address is that
of an actor. -/
def CanSend (i dst : Nat) (msg : Envelope) : Prop :=
  i < m.count ∧ dst < m.count ∧ (m.shards i).userPoint = true ∧ msg.isCall = true ∧
    ∀ k ∈ msg.addr.dropLast, k.isGroup = true

instance (i dst : Nat) (msg : Envelope) : Decidable (m.CanSend i dst msg) :=
  inferInstanceAs (Decidable (_ ∧ _ ∧ _ ∧ _ ∧ _))

/-- `request` of a client. -/
def request (i dst : Nat) (addr : List ActorKey) (type : MessageType) : Option Machine :=
  let msg := m.requestEnvelope i addr type
  if m.CanSend i dst msg then
    { m with tables := m.tables.request i, calls := m.calls ++ [(dst, msg)] }.send i dst msg
  else none

/-- A message that wants no response. -/
def tell (i dst : Nat) (addr : List ActorKey) (type : MessageType) : Option Machine :=
  let msg := oneWayEnvelope i addr type
  if m.CanSend i dst msg then m.send i dst msg else none

/-- A step of the objects of shard `i`. -/
def act (i : Nat) (label : Shard.Label) : Option Machine :=
  match label with
  | .receive .. => none
  | _ => if i < m.count then ((m.shards i).step label).bind (m.settle i) else none

/-- An operation on the queue from shard `src` to shard `dst`. -/
def onQueue (dst src : Nat) (f : MessageQueue Envelope → Option (MessageQueue Envelope)) :
    Option Machine :=
  if dst < m.count ∧ src < m.count ∧ dst ≠ src then
    (m.channel.modify dst src f).map fun channel => { m with channel := channel }
  else none

/-- The poller of shard `dst` runs between two tasks of the reactor. -/
def handle (dst src : Nat) : Option Machine :=
  if dst < m.count ∧ src < m.count ∧ dst ≠ src ∧ (m.shards dst).runs = [] ∧
      (m.shards dst).stops = [] then
    match (m.channel.qs dst src).handleNext with
    | some (msg, q) => { m with channel := m.channel.set dst src q }.receive dst msg
    | none => none
  else none

def step (m : Machine) : Label → Option Machine
  | .request i dst addr type => m.request i dst addr type
  | .tell i dst addr type => m.tell i dst addr type
  | .act i label => m.act i label
  | .flush dst src => m.onQueue dst src (·.flushRequestBatch)
  | .popFirst dst src => m.onQueue dst src (·.popFirst)
  | .popRest dst src => m.onQueue dst src (·.popRest)
  | .handle dst src => m.handle dst src
  | .continuation w => (m.tables.continuation w).map fun tables => { m with tables := tables }

end Machine

end Hiactor
