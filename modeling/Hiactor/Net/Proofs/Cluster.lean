import Mathlib.Data.Set.Function
import Hiactor.Lib.Segments
import Hiactor.Net.Cluster

/-!
# Global shard ids

The machines of a cluster lay their shards end to end in the order of the worker node list, and
all of them agree on it: on the ids, and on which ids are local.
-/

namespace Hiactor

open Lib

/-! ## The loop of the configuration -/

section loop

variable (loop : ConfigLoop) (conf : WorkerNodeInfo) (thisMid p2pConnCount thisMachCores : UInt32)

theorem connect_keeps (n : Nat) :
    (loop.connect thisMachCores conf n).sidAnchor = loop.sidAnchor ∧
      (loop.connect thisMachCores conf n).numGlobalShards = loop.numGlobalShards ∧
      (loop.connect thisMachCores conf n).config.nodeList = loop.config.nodeList ∧
      (loop.connect thisMachCores conf n).config.numMachines = loop.config.numMachines := by
  induction n with
  | zero => exact ⟨rfl, rfl, rfl, rfl⟩
  | succ n ih => exact ih

theorem numGlobalShards_next :
    (loop.next thisMid p2pConnCount thisMachCores conf).numGlobalShards =
      loop.numGlobalShards + conf.nrCores := by
  unfold ConfigLoop.next
  simp only
  congr 1
  split
  · split
    · rfl
    · exact (connect_keeps _ conf thisMachCores _).2.1
  · rfl

theorem sidAnchor_next :
    (loop.next thisMid p2pConnCount thisMachCores conf).sidAnchor =
      if conf.machineId < thisMid then loop.sidAnchor + conf.nrCores else loop.sidAnchor := by
  unfold ConfigLoop.next
  simp only
  by_cases same : thisMid = conf.machineId
  · rw [if_neg (by simp [same]), if_neg (by simp [same])]
  · rw [if_pos same]
    by_cases server : thisMid < conf.machineId
    · have notBefore : ¬ conf.machineId < thisMid := by
        rw [UInt32.lt_iff_toNat_lt] at server ⊢
        omega
      rw [if_pos server, if_neg notBefore]
    · rw [if_neg server, (connect_keeps _ conf thisMachCores _).1, if_pos]
      rw [UInt32.lt_iff_toNat_lt] at server ⊢
      have different : thisMid.toNat ≠ conf.machineId.toNat :=
        fun equal => same (UInt32.toNat_inj.mp equal)
      omega

theorem nodeList_next :
    (loop.next thisMid p2pConnCount thisMachCores conf).config.nodeList =
      loop.config.nodeList := by
  unfold ConfigLoop.next
  simp only
  split
  · split
    · rfl
    · exact (connect_keeps _ conf thisMachCores _).2.2.1
  · rfl

theorem numMachines_next :
    (loop.next thisMid p2pConnCount thisMachCores conf).config.numMachines =
      loop.config.numMachines := by
  unfold ConfigLoop.next
  simp only
  split
  · split
    · rfl
    · exact (connect_keeps _ conf thisMachCores _).2.2.2
  · rfl

end loop

/-- The sizes of the machines. -/
def coreCounts (nodes : List WorkerNodeInfo) : List Nat := nodes.map (·.nrCores.toNat)

/-- The machine ids are successive numbers. -/
def Ordered (first : Nat) (nodes : List WorkerNodeInfo) : Prop :=
  ∀ i node, nodes[i]? = some node → node.machineId.toNat = first + i

theorem Ordered.tail {first : Nat} {node : WorkerNodeInfo} {nodes : List WorkerNodeInfo}
    (ordered : Ordered first (node :: nodes)) : Ordered (first + 1) nodes := by
  intro i node' here
  have := ordered (i + 1) node' (by simpa using here)
  omega

/-- What the loop has counted at its end. -/
theorem foldl_next {nodes : List WorkerNodeInfo} {first : Nat} (ordered : Ordered first nodes)
    (thisMid p2pConnCount thisMachCores : UInt32) (loop : ConfigLoop)
    (order : loop.sidAnchor ≤ loop.numGlobalShards)
    (room : loop.numGlobalShards.toNat + (coreCounts nodes).sum < 2 ^ 32) :
    (nodes.foldl (ConfigLoop.next thisMid p2pConnCount thisMachCores) loop).numGlobalShards.toNat =
        loop.numGlobalShards.toNat + (coreCounts nodes).sum ∧
      (nodes.foldl (ConfigLoop.next thisMid p2pConnCount thisMachCores) loop).sidAnchor.toNat =
        loop.sidAnchor.toNat + segmentStart (coreCounts nodes) (thisMid.toNat - first) ∧
      (nodes.foldl (ConfigLoop.next thisMid p2pConnCount thisMachCores) loop).config.nodeList =
        loop.config.nodeList := by
  induction nodes generalizing first loop with
  | nil => simp [coreCounts, segmentStart]
  | cons node nodes ih =>
    have mid : node.machineId.toNat = first := ordered 0 node rfl
    simp only [coreCounts, List.map_cons, List.sum_cons] at room
    have total : (loop.numGlobalShards + node.nrCores).toNat =
        loop.numGlobalShards.toNat + node.nrCores.toNat := by
      rw [UInt32.toNat_add]
      exact Nat.mod_eq_of_lt (by omega)
    have ordered' : loop.sidAnchor.toNat ≤ loop.numGlobalShards.toNat :=
      UInt32.le_iff_toNat_le.mp order
    have anchor : (loop.sidAnchor + node.nrCores).toNat =
        loop.sidAnchor.toNat + node.nrCores.toNat := by
      rw [UInt32.toNat_add]
      exact Nat.mod_eq_of_lt (by omega)
    obtain ⟨shards, anchors, list⟩ := ih ordered.tail
      (loop.next thisMid p2pConnCount thisMachCores node)
      (by
        rw [numGlobalShards_next, sidAnchor_next, UInt32.le_iff_toNat_le, total]
        split
        · omega
        · omega)
      (by
        rw [numGlobalShards_next, total]
        simp only [coreCounts]
        omega)
    rw [numGlobalShards_next, total] at shards
    rw [sidAnchor_next] at anchors
    refine ⟨?_, ?_, ?_⟩
    · rw [List.foldl_cons, shards]
      simp only [coreCounts, List.map_cons, List.sum_cons]
      omega
    · rw [List.foldl_cons, anchors]
      -- the machines before this one count, and only they
      by_cases before : node.machineId < thisMid
      · have less := UInt32.lt_iff_toNat_lt.mp before
        obtain ⟨k, here⟩ : ∃ k, thisMid.toNat - first = k + 1 :=
          ⟨thisMid.toNat - first - 1, by omega⟩
        have rest : thisMid.toNat - (first + 1) = k := by omega
        rw [if_pos before, anchor, here, rest]
        simp only [coreCounts, List.map_cons, segmentStart_cons]
        omega
      · have notLess : ¬ node.machineId.toNat < thisMid.toNat :=
          fun less => before (UInt32.lt_iff_toNat_lt.mpr less)
        have here : thisMid.toNat - first = 0 := by omega
        have rest : thisMid.toNat - (first + 1) = 0 := by omega
        rw [if_neg before, here, rest, segmentStart_zero, segmentStart_zero]
    · rw [List.foldl_cons, list, nodeList_next]

/-- What `set_network_config` computes from a list in order. -/
theorem setNetworkConfig_spec {nodes : List WorkerNodeInfo} (ordered : Ordered 0 nodes)
    (few : (coreCounts nodes).sum < 2 ^ 32) (thisMid p2pConnCount localShardCount : UInt32) :
    (setNetworkConfig nodes thisMid p2pConnCount localShardCount).numGlobalShards.toNat =
        (coreCounts nodes).sum ∧
      (setNetworkConfig nodes thisMid p2pConnCount localShardCount).sidAnchor.toNat =
        segmentStart (coreCounts nodes) thisMid.toNat ∧
      (setNetworkConfig nodes thisMid p2pConnCount localShardCount).config.nodeList = nodes := by
  unfold setNetworkConfig
  obtain ⟨shards, anchor, list⟩ := foldl_next ordered thisMid p2pConnCount localShardCount
    { config := {
        machineId := thisMid
        waitConnCount := 0
        p2pConnCount := p2pConnCount
        listenPort := ((nodes[thisMid.toNat]?).map (·.addr.port)).getD 0
        numMachines := UInt32.ofNat nodes.length
        serverLists := List.replicate localShardCount.toNat []
        nodeList := nodes } }
    (UInt32.le_refl _) (by simpa using few)
  exact ⟨shards.trans (Nat.zero_add _), anchor.trans (Nat.zero_add _), list⟩

theorem numMachines_setNetworkConfig (nodes : List WorkerNodeInfo)
    (thisMid p2pConnCount localShardCount : UInt32) :
    (setNetworkConfig nodes thisMid p2pConnCount localShardCount).config.numMachines =
      UInt32.ofNat nodes.length := by
  have all (confs : List WorkerNodeInfo) (loop : ConfigLoop) :
      (confs.foldl (ConfigLoop.next thisMid p2pConnCount localShardCount) loop).config.numMachines =
        loop.config.numMachines := by
    induction confs generalizing loop with
    | nil => rfl
    | cons conf confs ih => exact (ih _).trans (numMachines_next ..)
  exact all ..

/-! ## Clusters -/

/-- Machines that all run with the worker node list `nodes`, each with its own number of
connections and its own timeout. A machine that runs has a shard. -/
structure WorkerCluster where
  nodes : List WorkerNodeInfo
  p2pConnectionCount : UInt32 → UInt32 := fun _ => 1
  networkTimeoutSec : UInt32 → UInt32 := fun _ => 60
  timeout_ne : ∀ m, networkTimeoutSec m ≠ 0
  accepted : ∀ m node, nodes[m]? = some node →
    loadWorkerNodeList nodes (UInt32.ofNat m) node.nrCores = .ok nodes
  running : ∀ node ∈ nodes, 0 < node.nrCores.toNat
  few : (coreCounts nodes).sum < 2 ^ 32

namespace WorkerCluster

variable (c : WorkerCluster)

/-- The shards of the cluster: machines and local shard ids. -/
def shards : Set (UInt32 × UInt32) :=
  {shard | ∃ node, c.nodes[shard.1.toNat]? = some node ∧ shard.2.toNat < node.nrCores.toNat}

theorem mem_shards {m s : UInt32} : (m, s) ∈ c.shards ↔
    ∃ node, c.nodes[m.toNat]? = some node ∧ s.toNat < node.nrCores.toNat := Iff.rfl

/-- What machine `m` computes when it starts. -/
def start (m : UInt32) : Except String (MachineInfo × NetworkConfig) :=
  startNetwork
    { workerNodeList := some c.nodes
      machineId := some m
      p2pConnectionCount := c.p2pConnectionCount m
      networkTimeoutSec := c.networkTimeoutSec m }
    (((c.nodes[m.toNat]?).map (·.nrCores)).getD 0)

def info (m : UInt32) : MachineInfo := (c.start m).toOption.elim {} Prod.fst

def config (m : UInt32) : NetworkConfig := (c.start m).toOption.elim {} Prod.snd

theorem length_lt : c.nodes.length < 2 ^ 32 := by
  have each : ∀ k ∈ coreCounts c.nodes, 1 ≤ k := by
    intro k member
    obtain ⟨node, inNodes, rfl⟩ := List.mem_map.mp member
    exact c.running node inNodes
  have bound := List.length_le_sum_of_one_le (coreCounts c.nodes) each
  have few := c.few
  rw [coreCounts, List.length_map] at bound
  exact lt_of_le_of_lt bound few

/-- The ids of an accepted list are in order. -/
theorem ordered : Ordered 0 c.nodes := by
  intro i node here
  have ok := c.accepted i node here
  have inside := (List.getElem?_eq_some_iff.mp here).1
  have short := c.length_lt
  have index : (UInt32.ofNat i).toNat = i := by
    rw [UInt32.toNat_ofNat', Nat.mod_eq_of_lt (by omega)]
  unfold loadWorkerNodeList at ok
  rw [index, here] at ok
  simp only [ne_eq, not_true_eq_false, if_false] at ok
  split at ok
  · rename_i inOrder
    have mine := inOrder i inside
    rw [here] at mine
    simpa using mine
  · cases ok

variable {c} {m s : UInt32} {node : WorkerNodeInfo}

theorem start_ok (here : c.nodes[m.toNat]? = some node) : c.start m = .ok
    (.ofAnchor (setNetworkConfig c.nodes m (c.p2pConnectionCount m) node.nrCores).numGlobalShards
        (setNetworkConfig c.nodes m (c.p2pConnectionCount m) node.nrCores).sidAnchor node.nrCores,
      { (setNetworkConfig c.nodes m (c.p2pConnectionCount m) node.nrCores).config with
        timeoutSeconds := min (c.networkTimeoutSec m) 600 }) := by
  have accepted : loadWorkerNodeList c.nodes m node.nrCores = .ok c.nodes := by
    have ok := c.accepted m.toNat node here
    rwa [UInt32.ofNat_toNat] at ok
  simp only [start, startNetwork, here, Option.map_some, Option.getD_some, accepted, bind,
    Except.bind, if_neg (c.timeout_ne m)]

theorem config_eq (here : c.nodes[m.toNat]? = some node) : c.config m =
    { (setNetworkConfig c.nodes m (c.p2pConnectionCount m) node.nrCores).config with
      timeoutSeconds := min (c.networkTimeoutSec m) 600 } := by
  rw [config, start_ok here]
  rfl

/-- A machine of the cluster starts, and its shards begin where those of the machines before it
end. -/
theorem start_eq (here : c.nodes[m.toNat]? = some node) :
    c.start m = .ok (c.info m, c.config m) ∧ (c.config m).nodeList = c.nodes ∧
      (c.info m).numShards.toNat = (coreCounts c.nodes).sum ∧
      (c.info m).sidAnchor.toNat = segmentStart (coreCounts c.nodes) m.toNat ∧
      (c.info m).minSid = (c.info m).sidAnchor ∧
      (c.info m).maxSid = (c.info m).sidAnchor + node.nrCores - 1 := by
  obtain ⟨shards, anchor, list⟩ :=
    setNetworkConfig_spec c.ordered c.few m (c.p2pConnectionCount m) node.nrCores
  have known : c.info m = .ofAnchor
      (setNetworkConfig c.nodes m (c.p2pConnectionCount m) node.nrCores).numGlobalShards
      (setNetworkConfig c.nodes m (c.p2pConnectionCount m) node.nrCores).sidAnchor
      node.nrCores := by
    rw [info, start_ok here]
    rfl
  refine ⟨by rw [start_ok here, known, config_eq here], ?_, ?_, ?_, by rw [known]; rfl,
    by rw [known]; rfl⟩
  · rw [config_eq here]
    exact list
  · rw [known]
    exact shards
  · rw [known]
    exact anchor

/-- The id of a shard lies in the segment of its machine. -/
theorem globalShardId_toNat (shard : (m, s) ∈ c.shards) :
    ((c.info m).globalShardId s).toNat = segmentStart (coreCounts c.nodes) m.toNat + s.toNat ∧
      InSegment (coreCounts c.nodes) m.toNat ((c.info m).globalShardId s).toNat := by
  obtain ⟨node, here, inside⟩ := c.mem_shards.mp shard
  obtain ⟨-, -, -, anchor, -, -⟩ := start_eq here
  have size : (coreCounts c.nodes)[m.toNat]? = some node.nrCores.toNat := by
    simp [coreCounts, here]
  have last := segmentStart_le_sum (coreCounts c.nodes) (m.toNat + 1)
  rw [segmentStart_succ size] at last
  have few := c.few
  have sum : ((c.info m).globalShardId s).toNat =
      segmentStart (coreCounts c.nodes) m.toNat + s.toNat := by
    rw [MachineInfo.globalShardId, UInt32.toNat_add, anchor]
    exact Nat.mod_eq_of_lt (by omega)
  refine ⟨sum, _, size, by omega, by omega⟩

/-- The ids number the shards without gaps. -/
theorem bijOn_globalShardId :
    Set.BijOn (fun shard : UInt32 × UInt32 => (c.info shard.1).globalShardId shard.2) c.shards
      {g | g.toNat < (coreCounts c.nodes).sum} := by
  refine ⟨?_, ?_, ?_⟩
  · rintro ⟨m, s⟩ shard
    exact (globalShardId_toNat shard).2.lt_sum
  · rintro ⟨m, s⟩ first ⟨m', s'⟩ second same
    obtain ⟨id, inside⟩ := globalShardId_toNat first
    obtain ⟨id', inside'⟩ := globalShardId_toNat second
    have same : (c.info m).globalShardId s = (c.info m').globalShardId s' := same
    rw [← same] at id' inside'
    have machine : m = m' := UInt32.toNat_inj.mp (inside.unique inside')
    subst machine
    have place : s = s' := UInt32.toNat_inj.mp (by omega)
    rw [place]
  · intro g below
    obtain ⟨i, size, here, lower, upper⟩ := exists_inSegment below
    have few := c.few
    obtain ⟨node, stored, rfl⟩ : ∃ node, c.nodes[i]? = some node ∧ node.nrCores.toNat = size := by
      simpa [coreCounts] using here
    have short := (List.getElem?_eq_some_iff.mp stored).1
    have count := c.length_lt
    have index : (UInt32.ofNat i).toNat = i := by
      rw [UInt32.toNat_ofNat', Nat.mod_eq_of_lt (by omega)]
    have place : (UInt32.ofNat (g.toNat - segmentStart (coreCounts c.nodes) i)).toNat =
        g.toNat - segmentStart (coreCounts c.nodes) i := by
      have small := g.toNat_lt
      rw [UInt32.toNat_ofNat', Nat.mod_eq_of_lt (by omega)]
    have shard : (UInt32.ofNat i, UInt32.ofNat (g.toNat - segmentStart (coreCounts c.nodes) i)) ∈
        c.shards := by
      refine c.mem_shards.mpr ⟨node, by rw [index]; exact stored, ?_⟩
      rw [place]
      omega
    refine ⟨_, shard, UInt32.toNat_inj.mp ?_⟩
    rw [(globalShardId_toNat shard).1, index, place]
    omega

/-- On a machine the local ids are those of its shards. -/
theorem isLocal_iff (machine : (m, s) ∈ c.shards) (g : UInt32) :
    (c.info m).isLocal g = true ↔
      ∃ s', (m, s') ∈ c.shards ∧ g = (c.info m).globalShardId s' := by
  obtain ⟨node, here, inside⟩ := c.mem_shards.mp machine
  obtain ⟨-, -, -, anchor, lowest, highest⟩ := start_eq here
  have size : (coreCounts c.nodes)[m.toNat]? = some node.nrCores.toNat := by
    simp [coreCounts, here]
  have last := segmentStart_le_sum (coreCounts c.nodes) (m.toNat + 1)
  rw [segmentStart_succ size] at last
  have few := c.few
  have top : ((c.info m).sidAnchor + node.nrCores - 1).toNat =
      segmentStart (coreCounts c.nodes) m.toNat + node.nrCores.toNat - 1 := by
    have sum : ((c.info m).sidAnchor + node.nrCores).toNat =
        segmentStart (coreCounts c.nodes) m.toNat + node.nrCores.toNat := by
      rw [UInt32.toNat_add, anchor]
      exact Nat.mod_eq_of_lt (by omega)
    rw [UInt32.toNat_sub_of_le, sum]
    · rfl
    · rw [UInt32.le_iff_toNat_le, sum]
      show 1 ≤ _
      omega
  simp only [MachineInfo.isLocal, lowest, highest, Bool.and_eq_true, decide_eq_true_eq,
    UInt32.le_iff_toNat_le, anchor, top]
  constructor
  · rintro ⟨lower, upper⟩
    have place : (UInt32.ofNat (g.toNat - segmentStart (coreCounts c.nodes) m.toNat)).toNat =
        g.toNat - segmentStart (coreCounts c.nodes) m.toNat := by
      have small := g.toNat_lt
      rw [UInt32.toNat_ofNat', Nat.mod_eq_of_lt (by omega)]
    have shard : (m, UInt32.ofNat (g.toNat - segmentStart (coreCounts c.nodes) m.toNat)) ∈
        c.shards := by
      refine c.mem_shards.mpr ⟨node, here, ?_⟩
      rw [place]
      omega
    refine ⟨_, shard, UInt32.toNat_inj.mp ?_⟩
    rw [(globalShardId_toNat shard).1, place]
    omega
  · rintro ⟨s', shard, rfl⟩
    rw [(globalShardId_toNat shard).1]
    obtain ⟨node', here', inside'⟩ := c.mem_shards.mp shard
    obtain rfl := Option.some.inj (here.symm.trans here')
    omega

/-- The choice of `send` for the id of a shard. -/
theorem sendChoice_eq {m' s' : UInt32} (source : (m, s) ∈ c.shards)
    (target : (m', s') ∈ c.shards) :
    (c.info m).sendChoice s ((c.info m').globalShardId s') =
      if m = m' then if s = s' then .receive else .local s' else .network := by
  have injective := c.bijOn_globalShardId.injOn
  by_cases machine : m = m'
  · subst machine
    rw [if_pos rfl]
    by_cases place : s = s'
    · subst place
      simp [MachineInfo.sendChoice]
    · have different : (c.info m).globalShardId s' ≠ (c.info m).globalShardId s := by
        intro same
        exact place (congrArg Prod.snd (injective source target same.symm))
      have isLocal := (isLocal_iff source ((c.info m).globalShardId s')).mpr ⟨s', target, rfl⟩
      rw [MachineInfo.sendChoice, if_pos different, if_pos isLocal, if_neg place,
        MachineInfo.globalShardId]
      rw [UInt32.add_comm, UInt32.add_sub_cancel]
  · have different : (c.info m').globalShardId s' ≠ (c.info m).globalShardId s := by
      intro same
      exact machine (congrArg Prod.fst (injective source target same.symm))
    have notLocal : (c.info m).isLocal ((c.info m').globalShardId s') ≠ true := by
      intro isLocal
      obtain ⟨t, shard, same⟩ := (isLocal_iff source _).mp isLocal
      exact machine (congrArg Prod.fst (injective shard target same.symm))
    rw [MachineInfo.sendChoice, if_pos different, if_neg notLocal, if_neg machine]

/-- The default of `network_timeout_sec`. -/
theorem defaultTimeout_ne : (60 : UInt32) ≠ 0 := by decide

/-- A machine with two shards and one with three. -/
def twoMachines : WorkerCluster where
  nodes := [⟨0, 2, ⟨0x0A000001, 3000⟩⟩, ⟨1, 3, ⟨0x0A000002, 3000⟩⟩]
  timeout_ne := fun _ => defaultTimeout_ne
  accepted := by
    intro m node here
    match m with
    | 0 =>
      obtain rfl := Option.some.inj here
      decide
    | 1 =>
      obtain rfl := Option.some.inj here
      decide
    | m + 2 => simp at here
  running := by decide
  few := by decide

end WorkerCluster

end Hiactor
