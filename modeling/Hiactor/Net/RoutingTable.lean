import Mathlib.Logic.Function.Basic
import Hiactor.Net.Cluster

/-!
# The array of the routing table

Model of `routing_table` (`net/network_channel.hh`) as it lies in memory: one array with the
machine of every shard, followed by a cell for every machine with a size, a cursor and the local
shards that have a connection to it. The lists of machine ids come from `connection_table`
(`net/connection.hh`). All offsets are computed on 32-bit integers; a read or a write outside the
array has no result.
-/

namespace Hiactor

/-! ## Connections -/

/-- `connection_table`: the machine ids of the connections and those that were new. -/
structure ConnectionTable where
  mcMap : List UInt32 := []
  managedMachIds : List UInt32 := []
  deriving DecidableEq, Repr

/-- `add`. -/
def ConnectionTable.add (table : ConnectionTable) (machId : UInt32) : ConnectionTable where
  managedMachIds :=
    if machId ∈ table.mcMap then table.managedMachIds else table.managedMachIds ++ [machId]
  mcMap := table.mcMap ++ [machId]

/-- The table of a shard with connections to these machines. -/
def ConnectionTable.ofConnections (machIds : List UInt32) : ConnectionTable :=
  machIds.foldl ConnectionTable.add {}

/-! ## The array -/

/-- `routing_table`. `words` is what `_sid2mid` points to, before `build` whatever the memory holds,
and `cellsHead` is the offset of `_cells_head`. `writes` records the writes of a build: where they
go, and for which machine's cell they are made (none for the shard ids). -/
structure RoutingArray where
  words : Nat → UInt32
  size : Nat
  cellsHead : Nat
  cellSize : UInt32
  writes : List (Option UInt32 × Nat) := []

namespace RoutingArray

variable (t : RoutingArray)

def read (i : Nat) : Option UInt32 := if i < t.size then some (t.words i) else none

def write (owner : Option UInt32) (i : Nat) (word : UInt32) : Option RoutingArray :=
  if i < t.size then
    some { t with
      words := Function.update t.words i word
      writes := t.writes ++ [(owner, i)] }
  else none

/-- `_cells_head + _cell_size * mach_id`. -/
def cellPtr (machId : UInt32) : Nat := t.cellsHead + (t.cellSize * machId).toNat

/-- `insert`. -/
def insert (machId localSid : UInt32) : Option RoutingArray := do
  let size ← t.read (t.cellPtr machId)
  let t ← t.write (some machId) (t.cellPtr machId + (size + 2).toNat) localSid
  let size ← t.read (t.cellPtr machId)
  t.write (some machId) (t.cellPtr machId) (size + 1)

/-- The inner loop that populates the indices, with `pos`. -/
def populateNode (j : UInt32) (k : Nat) (t : RoutingArray) (pos : Nat) :
    Option (RoutingArray × Nat) :=
  match k with
  | 0 => some (t, pos)
  | k + 1 => do
    let t ← t.write none pos j
    populateNode j k t (pos + 1)

/-- The loop that populates the indices. -/
def populate (nodes : List (WorkerNodeInfo × Nat)) (t : RoutingArray) (pos : Nat) :
    Option RoutingArray :=
  match nodes with
  | [] => some t
  | (node, j) :: nodes => do
    let (t, pos) ← populateNode (UInt32.ofNat j) node.nrCores.toNat t pos
    populate nodes t pos

/-- A round of the loop that initializes the cells. -/
def initCell (i : Nat) : Option RoutingArray := do
  let t ← t.write (some (UInt32.ofNat i)) (t.cellPtr (UInt32.ofNat i)) 0
  t.write (some (UInt32.ofNat i)) (t.cellPtr (UInt32.ofNat i) + 1) 2

/-- The connections in the order in which `build` inserts them. -/
def insertions (shardedMids : List (List UInt32)) : List (UInt32 × UInt32) :=
  shardedMids.zipIdx.flatMap fun (mids, i) => mids.map (·, UInt32.ofNat i)

/-- The array that `build` allocates. It holds whatever is in the memory. -/
def alloc (fresh : Nat → UInt32) (globalShardCount localShardCount numMachines : UInt32) :
    RoutingArray where
  words := fresh
  size := (globalShardCount + (2 + localShardCount) * numMachines).toNat
  cellsHead := globalShardCount.toNat
  cellSize := 2 + localShardCount

/-- `build`. -/
def build (fresh : Nat → UInt32) (config : NetworkConfig)
    (globalShardCount localShardCount : UInt32) (shardedMids : List (List UInt32)) :
    Option RoutingArray :=
  if shardedMids.length = localShardCount.toNat then do
    let t := alloc fresh globalShardCount localShardCount config.numMachines
    let t ← t.populate config.nodeList.zipIdx 0
    let t ← (List.range config.numMachines.toNat).foldlM initCell t
    (insertions shardedMids).foldlM (fun t (mid, i) => t.insert mid i) t
  else none

/-- `get_destination` with a fixed proxy shard. -/
def getDestination (gShardId : UInt32) : Option DestInfo := do
  let machineId ← t.read gShardId.toNat
  let size ← t.read (t.cellPtr machineId)
  if size = 0 then none
  else
    let targetSid ← t.read (t.cellPtr machineId + (gShardId % size + 2).toNat)
    return ⟨machineId, targetSid⟩

/-- `get_destination` with `HIACTOR_ROUND_ROUBIN_NETWORK_PROXY`. -/
def getDestinationRoundRobin (gShardId : UInt32) : Option (DestInfo × RoutingArray) := do
  let machineId ← t.read gShardId.toNat
  let curPos ← t.read (t.cellPtr machineId + 1)
  let targetSid ← t.read (t.cellPtr machineId + curPos.toNat)
  let size ← t.read (t.cellPtr machineId)
  if size = 0 then none
  else
    let t ← t.write (some machineId) (t.cellPtr machineId + 1) ((curPos + 1) % size + 2)
    return (⟨machineId, targetSid⟩, t)

/-- The destinations of successive messages. -/
def destinations : RoutingArray → List UInt32 → Option (List DestInfo × RoutingArray)
  | t, [] => some ([], t)
  | t, gShardId :: rest => do
    let (dest, t) ← t.getDestinationRoundRobin gShardId
    let (dests, t) ← destinations t rest
    return (dest :: dests, t)

end RoutingArray

end Hiactor
