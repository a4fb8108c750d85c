import Mathlib.Algebra.GroupWithZero.Nat
import Mathlib.Data.List.Basic
import Mathlib.Tactic.Common

/-!
# The machines of a cluster

Model of `load_worker_node_list`, `set_network_config` and `start_network` (`core/actor-app`), of
`machine_info` (`util/machine_info.hh`) and of the choice that `root_actor_group::send` makes. Every
machine computes all of it for itself from its own copy of the worker node list.

The list is what the formatted reads of the file yield. Opening connections, the listening
sockets and the global barrier of `start_network` are not part of this model.
-/

namespace Hiactor

/-- `socket_address`. -/
structure SocketAddress where
  ip : UInt32
  port : UInt16
  deriving DecidableEq, Repr

/-- `worker_node_info`. -/
structure WorkerNodeInfo where
  machineId : UInt32
  nrCores : UInt32
  addr : SocketAddress
  deriving DecidableEq, Repr

/-- The checks of `load_worker_node_list`. -/
def loadWorkerNodeList (configs : List WorkerNodeInfo) (thisMid localShardCount : UInt32) :
    Except String (List WorkerNodeInfo) :=
  match configs[thisMid.toNat]? with
  | none => .error "wrong machine_id (machine_id >= #machines) in `worker-node-list`."
  | some conf =>
    if localShardCount ≠ conf.nrCores then
      .error "incorrect number of cores for this machine in `worker-node-list`."
    else if ∀ i < configs.length, (configs[i]?).map (·.machineId.toNat) = some i then
      .ok configs
    else .error "machine ids must be range(0, #machines) in `worker-node-list`."

/-- `network_config`. -/
structure NetworkConfig where
  p2pConnCount : UInt32 := 1
  waitConnCount : UInt32 := 0
  machineId : UInt32 := 0
  numMachines : UInt32 := 1
  listenPort : UInt16 := 0
  addrLsidMap : List (UInt32 × UInt32) := []
  serverLists : List (List (SocketAddress × UInt32)) := []
  nodeList : List WorkerNodeInfo := []
  timeoutSeconds : UInt32 := 60
  deriving DecidableEq, Repr

/-- `machine_info`. -/
structure MachineInfo where
  numShards : UInt32 := 0
  sidAnchor : UInt32 := 0
  minSid : UInt32 := 0
  maxSid : UInt32 := 0
  deriving DecidableEq, Repr

/-- `is_local`. -/
def MachineInfo.isLocal (info : MachineInfo) (shardId : UInt32) : Bool :=
  info.minSid ≤ shardId && shardId ≤ info.maxSid

/-- `global_shard_id`. -/
def MachineInfo.globalShardId (info : MachineInfo) (localShardId : UInt32) : UInt32 :=
  info.sidAnchor + localShardId

/-! ## Configuration -/

/-- The variables of the loop of `set_network_config`. -/
structure ConfigLoop where
  config : NetworkConfig
  numGlobalShards : UInt32 := 0
  sidAnchor : UInt32 := 0
  dstShard : UInt32 := 0
  deriving DecidableEq, Repr

/-- The connections of this machine to a server: one after the other, on successive shards. -/
def ConfigLoop.connect (loop : ConfigLoop) (thisMachCores : UInt32) (conf : WorkerNodeInfo) :
    Nat → ConfigLoop
  | 0 => loop
  | n + 1 =>
    let loop := loop.connect thisMachCores conf n
    { loop with
      config := { loop.config with
        serverLists := loop.config.serverLists.modify loop.dstShard.toNat
          (· ++ [(conf.addr, conf.machineId)]) }
      dstShard := (loop.dstShard + 1) % thisMachCores }

/-- One round of the loop. -/
def ConfigLoop.next (thisMid p2pConnCount thisMachCores : UInt32) (loop : ConfigLoop)
    (conf : WorkerNodeInfo) : ConfigLoop :=
  let loop :=
    if thisMid ≠ conf.machineId then
      if thisMid < conf.machineId then
        -- as server
        { loop with
          config := { loop.config with
            waitConnCount := loop.config.waitConnCount + p2pConnCount
            addrLsidMap := if (loop.config.addrLsidMap.lookup conf.addr.ip).isSome then
                loop.config.addrLsidMap
              else (conf.addr.ip, loop.dstShard) :: loop.config.addrLsidMap }
          dstShard := (loop.dstShard + p2pConnCount) % thisMachCores }
      else
        -- as client
        { loop with sidAnchor := loop.sidAnchor + conf.nrCores }.connect thisMachCores conf
          p2pConnCount.toNat
    else loop
  { loop with numGlobalShards := loop.numGlobalShards + conf.nrCores }

/-- `set_network_config`. -/
def setNetworkConfig (configs : List WorkerNodeInfo)
    (thisMid p2pConnCount localShardCount : UInt32) :
    ConfigLoop :=
  let config : NetworkConfig := {
    machineId := thisMid
    waitConnCount := 0
    p2pConnCount := p2pConnCount
    listenPort := ((configs[thisMid.toNat]?).map (·.addr.port)).getD 0
    numMachines := UInt32.ofNat configs.length
    serverLists := List.replicate localShardCount.toNat []
    nodeList := configs }
  configs.foldl (ConfigLoop.next thisMid p2pConnCount localShardCount) { config := config }

/-- The command line. -/
structure NetworkOptions where
  workerNodeList : Option (List WorkerNodeInfo)
  machineId : Option UInt32
  p2pConnectionCount : UInt32 := 1
  networkTimeoutSec : UInt32 := 60

/-- The ids of the shards of this machine are set last. -/
def MachineInfo.ofAnchor (numShards sidAnchor localShardCount : UInt32) : MachineInfo where
  numShards := numShards
  sidAnchor := sidAnchor
  minSid := sidAnchor
  maxSid := sidAnchor + localShardCount - 1

/-- `start_network`, up to the connections. -/
def startNetwork (options : NetworkOptions) (localShardCount : UInt32) :
    Except String (MachineInfo × NetworkConfig) :=
  match options.workerNodeList with
  | none => .ok (.ofAnchor localShardCount 0 localShardCount, {})
  | some list =>
    match options.machineId with
    | none =>
      .error "command line argument `--machine-id` must be specified in distributed mode."
    | some machineId => do
      let configs ← loadWorkerNodeList list machineId localShardCount
      let loop := setNetworkConfig configs machineId options.p2pConnectionCount localShardCount
      if options.networkTimeoutSec = 0 then
        .error "Network connection timeout seconds cannot be set to 0."
      else
        let config := { loop.config with timeoutSeconds := min options.networkTimeoutSec 600 }
        .ok (.ofAnchor loop.numGlobalShards loop.sidAnchor localShardCount, config)

/-! ## Routing -/

/-- `dest_info`. -/
structure DestInfo where
  machineId : UInt32
  targetSid : UInt32
  deriving DecidableEq, Repr

/-- Where `root_actor_group::send` passes a message: to `receive`, to the queue of a local shard,
or to `network_channel`. -/
inductive SendChoice where
  | receive
  | local (targetCpu : UInt32)
  | network
  deriving DecidableEq, Repr

/-- `root_actor_group::send` and the target of `local_channel::send`. -/
def MachineInfo.sendChoice (info : MachineInfo) (localShardId destShardId : UInt32) : SendChoice :=
  if destShardId ≠ info.globalShardId localShardId then
    if info.isLocal destShardId then .local (destShardId - info.sidAnchor)
    else .network
  else .receive

end Hiactor
