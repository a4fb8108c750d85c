import Hiactor.Core.Channel
import Hiactor.Net.Cluster
import Hiactor.Net.Wire

/-!
# From `send` to `receive`

Model of the way of a message between two shards of a cluster: `root_actor_group::send`
(`core/root_actor_group`), `local_channel::send`, `network_channel::send` and `push_to_buffer`
(`net/network_channel.hh`), the queues of both channels, `net_buffer` (`core/dynamic-queue.hh`),
and the loops of `run_senders` and `run_receivers` (`net/connection.cc`). The system is running: all
queues are started and the connections are made.

The sender loop of a shard for a machine looks its connection up once, so that a connection is
given by the two. It is a reliable stream of bytes, which takes from its writer and gives to its
reader any number of bytes at a time. Messages are sent with `normal_message_tag`.
-/

namespace Hiactor

open Lib

/-- `actor_message`: one that a shard has made, or one that came over a connection. -/
inductive CarriedMessage where
  | own (msg : OutMessage)
  | network (msg : NetworkMessage)

namespace CarriedMessage

def hdr : CarriedMessage → MessageHeader
  | own msg => msg.hdr
  | network msg => msg.hdr

/-- `serialize`: a message that came over a connection writes nothing. -/
def serialize : CarriedMessage → List UInt8
  | own msg => msg.serialize
  | network _ => []

end CarriedMessage

/-- A shard: its machine and its id there. -/
abbrev ShardOf := UInt32 × UInt32

/-- A message on its way. The code does not know the shard that has sent it: nothing that happens to
the message depends on `source`. -/
structure Packet where
  source : ShardOf
  msg : CarriedMessage

/-- `message_item`. -/
structure MessageItem where
  machId : UInt32
  msg : Packet

/-- A shard, and a machine that it has a `net_buffer` for. -/
structure Link where
  machine : UInt32
  shard : UInt32
  machId : UInt32
  deriving DecidableEq, Repr

/-- A byte of a message, marked like the message. -/
abbrev MarkedByte := UInt8 × ShardOf

/-- The bytes of a message. -/
def Packet.frame (pkt : Packet) : List MarkedByte :=
  pkt.msg.serialize.map fun byte => (byte, pkt.source)

/-- A connection and the loops at its ends: the sender loop has still to write `out` of a message
that it has popped, the bytes of `stream` are written and not read, and the receiver loop has read
the number of the bytes of a message. -/
structure Connection where
  out : List MarkedByte := []
  stream : List MarkedByte := []
  nrBytes : Option (Nat × ShardOf) := none

/-- What does not change any more: `machine_info` and `get_destination` of the machines, and the
shard at the other end of each connection. -/
structure Wiring where
  localShardCount : UInt32 → UInt32
  info : UInt32 → MachineInfo
  getDestination : UInt32 → UInt32 → Option DestInfo
  peer : Link → UInt32

/-- All messages on their way. `received` are the messages passed to `receive` of a shard, and
`sent` those passed to `send` by its user. -/
structure Traffic where
  localQs : UInt32 → Channel Packet
  networkQs : UInt32 → Channel MessageItem
  netBuffers : Link → List Packet := fun _ => []
  conns : Link → Connection := fun _ => {}
  received : ShardOf → List Packet := fun _ => []
  sent : List Packet := []

namespace Traffic

variable (w : Wiring) (t : Traffic)

/-- The queues of a channel after `start_all_queues` on all shards. -/
def startedQs {α : Type} (count : Nat) : Channel α :=
  (List.range count).foldl Channel.startAllQueues (Channel.create count)

def start : Traffic where
  localQs := fun m => startedQs (w.localShardCount m).toNat
  networkQs := fun m => startedQs (w.localShardCount m).toNat

/-- `receive`. -/
def receive (shard : ShardOf) (pkt : Packet) : Traffic :=
  { t with received := Function.update t.received shard (t.received shard ++ [pkt]) }

/-- `push_to_buffer`: a `net_buffer` is always open and has no bound. -/
def pushToBuffer (link : Link) (pkt : Packet) : Traffic :=
  { t with netBuffers := Function.update t.netBuffers link (t.netBuffers link ++ [pkt]) }

def setLocalQ (m i j : UInt32) (q : MessageQueue Packet) : Traffic :=
  { t with localQs := Function.update t.localQs m ((t.localQs m).set i.toNat j.toNat q) }

def setNetworkQ (m i j : UInt32) (q : MessageQueue MessageItem) : Traffic :=
  { t with networkQs := Function.update t.networkQs m ((t.networkQs m).set i.toNat j.toNat q) }

def setConn (link : Link) (conn : Connection) : Traffic :=
  { t with conns := Function.update t.conns link conn }

/-- The queue of `local_channel` from shard `j` to shard `i`. -/
def localQ (m i j : UInt32) : MessageQueue Packet := (t.localQs m).qs i.toNat j.toNat

/-- The queue of `network_channel` from shard `j` to shard `i`. -/
def networkQ (m i j : UInt32) : MessageQueue MessageItem := (t.networkQs m).qs i.toNat j.toNat

/-- `network_channel::send` on shard `s` of machine `m`. -/
def networkSend (m s : UInt32) (pkt : Packet) : Option Traffic := do
  let dst ← w.getDestination m pkt.msg.hdr.addr.getShardId
  if dst.targetSid = s then return t.pushToBuffer ⟨m, s, dst.machineId⟩ pkt
  else
    let q ← (t.networkQ m dst.targetSid s).send ⟨dst.machineId, pkt⟩
    return t.setNetworkQ m dst.targetSid s q

/-- `root_actor_group::send` on shard `s` of machine `m`. -/
def send (m s : UInt32) (pkt : Packet) : Option Traffic :=
  match (w.info m).sendChoice s pkt.msg.hdr.addr.getShardId with
  | .receive => some (t.receive (m, s) pkt)
  | .local targetCpu => do
    let q ← (t.localQ m targetCpu s).send pkt
    return t.setLocalQ m targetCpu s q
  | .network => t.networkSend w m s pkt

/-- The steps of a queue that hand no message on. -/
inductive QueueStep where
  | flush
  | popFirst
  | popRest
  deriving DecidableEq, Repr

def QueueStep.take {α : Type} (q : MessageQueue α) : QueueStep → Option (MessageQueue α)
  | flush => q.flushRequestBatch
  | popFirst => q.popFirst
  | popRest => q.popRest

/-- One step of one shard. -/
inductive Label where
  | send (shard : ShardOf) (msg : OutMessage)
  | localStep (m i j : UInt32) (queueStep : QueueStep)
  | localNext (m i j : UInt32)
  | networkStep (m i j : UInt32) (queueStep : QueueStep)
  | networkNext (m i j : UInt32)
  | popBuffer (link : Link)
  | write (link : Link) (count : Nat)
  | readLength (link : Link)
  | readMessage (link : Link)

def step (t : Traffic) : Label → Option Traffic
  | .send (m, s) msg =>
    if s < w.localShardCount m then
      (t.send w m s ⟨(m, s), .own msg⟩).map fun t' =>
        { t' with sent := t.sent ++ [⟨(m, s), .own msg⟩] }
    else none
  | .localStep m i j queueStep => (queueStep.take (t.localQ m i j)).map (t.setLocalQ m i j)
  | .localNext m i j => do
    let (tm, q) ← (t.localQ m i j).handleNext
    return (t.setLocalQ m i j q).receive (m, i) tm
  | .networkStep m i j queueStep => (queueStep.take (t.networkQ m i j)).map (t.setNetworkQ m i j)
  | .networkNext m i j => do
    let (tm, q) ← (t.networkQ m i j).handleNext
    return (t.setNetworkQ m i j q).pushToBuffer ⟨m, i, tm.machId⟩ tm.msg
  | .popBuffer link =>
    -- the loop pops again when it has written all of the last message
    match t.netBuffers link, (t.conns link).out with
    | msg :: buf, [] =>
      some ({ t with netBuffers := Function.update t.netBuffers link buf }.setConn link
        { t.conns link with out := msg.frame })
    | _, _ => none
  | .write link count =>
    let conn := t.conns link
    some (t.setConn link { conn with
      out := conn.out.drop count, stream := conn.stream ++ conn.out.take count })
  | .readLength link =>
    let conn := t.conns link
    match conn.nrBytes, conn.stream.take 4 with
    | none, [b0, b1, b2, b3] =>
      some (t.setConn link { conn with
        nrBytes := some (leNat [b0.1, b1.1, b2.1, b3.1], b0.2), stream := conn.stream.drop 4 })
    | _, _ => none
  | .readMessage link => do
    let conn := t.conns link
    let (nrBytes, source) ← conn.nrBytes
    if nrBytes ≤ conn.stream.length then
      let msg ← deserialize ((conn.stream.take nrBytes).map (·.1))
      (t.setConn link { conn with nrBytes := none, stream := conn.stream.drop nrBytes }).send w
        link.machId (w.peer link) ⟨source, .network msg⟩
    else none

end Traffic

end Hiactor
