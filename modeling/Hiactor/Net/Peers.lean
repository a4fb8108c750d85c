import Hiactor.Net.Cluster

/-!
# Connections between machines

Model of how the connections between two machines get to their shards. A machine opens its
connections to the machines before it from the lists of `set_network_config`. It accepts those of
the machines behind it wherever `get_client_target_shard` (`net/network_config.hh`) sends them,
until `optional_listen` (`net/connection.cc`) has counted all of them.
-/

namespace Hiactor

/-- `get_client_target_shard`: the shard for a connection from an address, and the next one. -/
def NetworkConfig.getClientTargetShard (config : NetworkConfig) (localShardCount ia : UInt32) :
    UInt32 × NetworkConfig :=
  match config.addrLsidMap.lookup ia with
  | none => (0, config)
  | some sid =>
    (sid, { config with addrLsidMap := (ia, (sid + 1) % localShardCount) :: config.addrLsidMap })

/-- The accept loops of all shards, which end when `num_total_conns` is zero. The result has the
shards on which the connections are accepted, in the order in which they arrive. -/
def acceptConnections (localShardCount : UInt32) (config : NetworkConfig) (numTotalConns : UInt32) :
    List UInt32 → List UInt32
  | [] => []
  | ia :: arrivals =>
    let (sid, config) := config.getClientTargetShard localShardCount ia
    let curTotalRemains := numTotalConns - 1
    sid ::
      if curTotalRemains = 0 then []
      else acceptConnections localShardCount config curTotalRemains arrivals

/-- `optional_listen`. -/
def optionalListen (localShardCount : UInt32) (config : NetworkConfig) (arrivals : List UInt32) :
    List UInt32 :=
  if config.waitConnCount = 0 then []
  else acceptConnections localShardCount config config.waitConnCount arrivals

/-- The number of connections of a shard, opened and accepted. -/
def connectionCount (localShardCount : UInt32) (config : NetworkConfig) (arrivals : List UInt32)
    (shard : Nat) : Nat :=
  ((config.serverLists[shard]?).getD []).length +
    (optionalListen localShardCount config arrivals).countP (·.toNat = shard)

/-- The machines agree on their connections, and machine `thisMid` spreads its own evenly over its
shards, in whatever order the peers' connections arrive. -/
structure Agreed (nodes : List WorkerNodeInfo) (thisMid p2pConnCount localShardCount : UInt32)
    (config : NetworkConfig) : Prop where
  opens : config.serverLists.flatten.Perm
    ((nodes.filter (·.machineId < thisMid)).flatMap fun node =>
      List.replicate p2pConnCount.toNat (node.addr, node.machineId))
  waits : config.waitConnCount.toNat =
    p2pConnCount.toNat * (nodes.filter (thisMid < ·.machineId)).length
  shards : config.serverLists.length = localShardCount.toNat
  accepts : ∀ arrivals : List UInt32,
    arrivals.Perm ((nodes.filter (thisMid < ·.machineId)).flatMap fun node =>
      List.replicate p2pConnCount.toNat node.addr.ip) →
    (optionalListen localShardCount config arrivals).length = arrivals.length ∧
      (∀ sid ∈ optionalListen localShardCount config arrivals, sid < localShardCount) ∧
      ∀ x < localShardCount.toNat, ∀ y < localShardCount.toNat,
        connectionCount localShardCount config arrivals x ≤
          connectionCount localShardCount config arrivals y + 1

end Hiactor
