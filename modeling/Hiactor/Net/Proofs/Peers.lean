import Hiactor.Lib.Reservation
import Hiactor.Net.Peers
import Hiactor.Net.Proofs.Cluster

/-!
# Connections are agreed and spread evenly

The configuration reserves a range of shards for the connections of every machine behind this one,
but a connection is placed by its address alone, from the first range of that address on. Where
machines with the same address stand together in the list these are their ranges; otherwise two of
the ranges overlap.
-/

namespace Hiactor

open Lib

/-! ## Opened connections -/

section loop

variable {loop : ConfigLoop} {thisMid p2pConnCount cores : UInt32}
  {conns : List (SocketAddress × UInt32)}

/-- The loop has placed the connections `conns` one after the other and has not met the machines
behind this one yet. -/
structure Opened (cores : UInt32) (conns : List (SocketAddress × UInt32)) (loop : ConfigLoop) :
    Prop where
  dst : loop.dstShard.toNat = conns.length % cores.toNat
  lists : loop.config.serverLists.length = cores.toNat
  opened : loop.config.serverLists.flatten.Perm conns
  load : ∀ x < cores.toNat,
    ((loop.config.serverLists[x]?).getD []).length = hits cores.toNat 0 conns.length x
  waits : loop.config.waitConnCount = 0
  addresses : loop.config.addrLsidMap = []

/-- The elements of the lists when one list gets another element. -/
theorem flatten_modify_perm {α : Type} {lists : List (List α)} {i : Nat} (inside : i < lists.length)
    (one : α) : (lists.modify i (· ++ [one])).flatten.Perm (lists.flatten ++ [one]) := by
  induction lists generalizing i with
  | nil => cases inside
  | cons list lists ih =>
    cases i with
    | zero =>
      rw [List.modify_zero_cons, List.flatten_cons, List.flatten_cons, List.append_assoc,
        List.append_assoc]
      exact List.perm_append_comm.append_left list
    | succ i =>
      rw [List.modify_succ_cons, List.flatten_cons, List.flatten_cons, List.append_assoc]
      exact (ih (by simpa using inside)).append_left list

theorem Opened.connectOne (opened : Opened cores conns loop) (some_core : 0 < cores.toNat)
    (one : SocketAddress × UInt32) :
    Opened cores (conns ++ [one]) { loop with
      config := { loop.config with
        serverLists := loop.config.serverLists.modify loop.dstShard.toNat (· ++ [one]) }
      dstShard := (loop.dstShard + 1) % cores } where
  dst := by
    have small := UInt32.toNat_lt cores
    have dst := opened.dst
    have inside := Nat.mod_lt conns.length some_core
    show ((loop.dstShard + 1) % cores).toNat = _
    rw [UInt32.toNat_mod, UInt32.toNat_add, UInt32.toNat_one,
      Nat.mod_eq_of_lt (show loop.dstShard.toNat + 1 < 2 ^ 32 by omega), dst, Nat.mod_add_mod,
      List.length_append, List.length_singleton]
  lists := (List.length_modify ..).trans opened.lists
  opened := by
    have inside : loop.dstShard.toNat < loop.config.serverLists.length := by
      rw [opened.lists, opened.dst]
      exact Nat.mod_lt _ some_core
    exact (flatten_modify_perm inside one).trans (opened.opened.append_right [one])
  load x inside := by
    have old := opened.load x inside
    have here := List.getElem?_eq_getElem (opened.lists.symm ▸ inside)
    rw [here, Option.getD_some] at old
    simp only [List.getElem?_modify, here, Option.map_eq_map, Option.map_some, Option.getD_some]
    rw [List.length_append, List.length_singleton, hits_add, hits_one, Nat.zero_add, opened.dst,
      ← old]
    split
    case isTrue => rw [List.length_append, List.length_singleton]
    case isFalse => rw [Nat.add_zero]
  waits := opened.waits
  addresses := opened.addresses

theorem Opened.connect (opened : Opened cores conns loop) (some_core : 0 < cores.toNat)
    (conf : WorkerNodeInfo) (n : Nat) :
    Opened cores (conns ++ List.replicate n (conf.addr, conf.machineId))
      (loop.connect cores conf n) := by
  induction n with
  | zero =>
    rw [List.replicate_zero, List.append_nil]
    exact opened
  | succ n ih =>
    rw [List.replicate_succ', ← List.append_assoc]
    exact ih.connectOne some_core _

/-- The machines before this one. -/
theorem Opened.clients (opened : Opened cores conns loop) (some_core : 0 < cores.toNat)
    (p2pConnCount : UInt32) {nodes : List WorkerNodeInfo}
    (before : ∀ node ∈ nodes, node.machineId < thisMid) :
    Opened cores (conns ++ nodes.flatMap fun node =>
        List.replicate p2pConnCount.toNat (node.addr, node.machineId))
      (nodes.foldl (ConfigLoop.next thisMid p2pConnCount cores) loop) := by
  induction nodes generalizing loop conns with
  | nil => simpa using opened
  | cons node nodes ih =>
    have client := before node List.mem_cons_self
    have different : thisMid ≠ node.machineId := (UInt32.ne_of_lt client).symm
    have notServer : ¬thisMid < node.machineId := UInt32.lt_asymm client
    rw [List.flatMap_cons, ← List.append_assoc, List.foldl_cons]
    refine ih ?_ fun other member => before other (List.mem_cons_of_mem node member)
    have counted : Opened cores conns { loop with sidAnchor := loop.sidAnchor + node.nrCores } :=
      ⟨opened.dst, opened.lists, opened.opened, opened.load, opened.waits, opened.addresses⟩
    have connected := counted.connect some_core node p2pConnCount.toNat
    rw [ConfigLoop.next]
    simp only [different, ne_eq, not_false_eq_true, if_true, notServer, if_false]
    exact ⟨connected.dst, connected.lists, connected.opened, connected.load, connected.waits,
      connected.addresses⟩

/-! ## Reserved shards -/

/-- The loop has reserved `each` shards for every machine behind this one that it has met. -/
structure Reserved (cores : UInt32) (lists : List (List (SocketAddress × UInt32)))
    (start each : Nat) (addresses : List UInt32) (loop : ConfigLoop) : Prop where
  dst : loop.dstShard.toNat = (start + each * addresses.length) % cores.toNat
  lists : loop.config.serverLists = lists
  waits : loop.config.waitConnCount.toNat = each * addresses.length
  first : ∀ ia, loop.config.addrLsidMap.lookup ia =
    if ia ∈ addresses then
      some (UInt32.ofNat ((start + each * addresses.idxOf ia) % cores.toNat))
    else none

/-- What is known of the addresses when one more is met. -/
theorem first_snoc (addresses : List UInt32) (ip ia : UInt32) (place : Nat → UInt32) :
    (if ia ∈ addresses ++ [ip] then some (place ((addresses ++ [ip]).idxOf ia)) else none) =
      if ia ∈ addresses then some (place (addresses.idxOf ia))
      else if ia = ip then some (place addresses.length) else none := by
  by_cases old : ia ∈ addresses
  · rw [if_pos old, if_pos (List.mem_append_left _ old), List.idxOf_append_of_mem old]
  · rw [if_neg old]
    by_cases new : ia = ip
    · subst new
      rw [if_pos rfl, if_pos (by simp), List.idxOf_append_of_notMem old]
      simp
    · rw [if_neg new, if_neg (by simp [old, new])]

/-- The machines behind this one. -/
theorem Reserved.servers {lists : List (List (SocketAddress × UInt32))} {start : Nat}
    {addresses : List UInt32} {nodes : List WorkerNodeInfo}
    (reserved : Reserved cores lists start p2pConnCount.toNat addresses loop)
    (some_core : 0 < cores.toNat) (small : p2pConnCount.toNat + cores.toNat ≤ 2 ^ 32)
    (few : p2pConnCount.toNat * (addresses.length + nodes.length) < 2 ^ 32)
    (behind : ∀ node ∈ nodes, thisMid < node.machineId) :
    Reserved cores lists start p2pConnCount.toNat (addresses ++ nodes.map (·.addr.ip))
      (nodes.foldl (ConfigLoop.next thisMid p2pConnCount cores) loop) := by
  induction nodes generalizing loop addresses with
  | nil => simpa using reserved
  | cons node nodes ih =>
    have server := behind node List.mem_cons_self
    have different : thisMid ≠ node.machineId := UInt32.ne_of_lt server
    have inside := Nat.mod_lt (start + p2pConnCount.toNat * addresses.length) some_core
    have dst := reserved.dst
    rw [List.map_cons, List.append_cons, List.foldl_cons]
    refine ih ?_ (by simpa [Nat.add_assoc, Nat.add_comm 1] using few)
      fun other member => behind other (List.mem_cons_of_mem node member)
    rw [ConfigLoop.next]
    simp only [different, ne_eq, not_false_eq_true, if_true, server]
    have length : (addresses ++ [node.addr.ip]).length = addresses.length + 1 := by simp
    refine ⟨?_, reserved.lists, ?_, fun ia => ?_⟩
    · show ((loop.dstShard + p2pConnCount) % cores).toNat = _
      rw [UInt32.toNat_mod, UInt32.toNat_add,
        Nat.mod_eq_of_lt (show loop.dstShard.toNat + p2pConnCount.toNat < 2 ^ 32 by omega), dst,
        Nat.mod_add_mod, length, Nat.mul_succ, Nat.add_assoc]
    · have bound : p2pConnCount.toNat * (addresses.length + 1) < 2 ^ 32 :=
        lt_of_le_of_lt (Nat.mul_le_mul_left _ (by simp)) few
      show (loop.config.waitConnCount + p2pConnCount).toNat = _
      rw [UInt32.toNat_add, reserved.waits, length, ← Nat.mul_succ, Nat.mod_eq_of_lt bound]
    · have known := reserved.first node.addr.ip
      rw [first_snoc addresses node.addr.ip ia fun i =>
        UInt32.ofNat ((start + p2pConnCount.toNat * i) % cores.toNat), ← dst, UInt32.ofNat_toNat]
      by_cases listed : node.addr.ip ∈ addresses
      · rw [if_pos listed] at known
        rw [known, Option.isSome_some, if_pos rfl, reserved.first ia]
        split
        case isTrue => rfl
        case isFalse new =>
          have other : ia ≠ node.addr.ip := fun same => new (same ▸ listed)
          rw [if_neg other]
      · rw [if_neg listed] at known
        rw [known, Option.isSome_none, if_neg Bool.false_ne_true, List.lookup_cons,
          reserved.first ia]
        by_cases same : ia = node.addr.ip
        · subst same
          simp [listed]
        · have distinct : (ia == node.addr.ip) = false := beq_eq_false_iff_ne.mpr same
          simp [distinct, same]

/-! ## Accepted connections -/

/-- The next connection from an address of `known` is placed at `next`. -/
def Places (cores : UInt32) (known : Finset UInt32) (next : UInt32 → Nat) (config : NetworkConfig) :
    Prop :=
  ∀ ia ∈ known, config.addrLsidMap.lookup ia = some (UInt32.ofNat (next ia % cores.toNat))

theorem mod_toNat {n : Nat} (some_core : 0 < cores.toNat) :
    (UInt32.ofNat (n % cores.toNat)).toNat = n % cores.toNat := by
  have inside := Nat.mod_lt n some_core
  have small := UInt32.toNat_lt cores
  rw [UInt32.toNat_ofNat', Nat.mod_eq_of_lt (by omega)]

theorem Places.getClientTargetShard {known : Finset UInt32} {next : UInt32 → Nat}
    {config : NetworkConfig} (places : Places cores known next config) (some_core : 0 < cores.toNat)
    {ia : UInt32} (member : ia ∈ known) :
    (config.getClientTargetShard cores ia).1 = UInt32.ofNat (next ia % cores.toNat) ∧
      Places cores known (Function.update next ia (next ia + 1))
        (config.getClientTargetShard cores ia).2 := by
  have here := places ia member
  have small := UInt32.toNat_lt cores
  have inside := Nat.mod_lt (next ia) some_core
  rw [NetworkConfig.getClientTargetShard, here]
  refine ⟨rfl, fun other listed => ?_⟩
  show List.lookup other ((ia, _) :: config.addrLsidMap) = _
  rw [List.lookup_cons, Function.update_apply]
  by_cases same : other = ia
  · subst same
    rw [if_pos rfl]
    simp only [beq_self_eq_true]
    congr 1
    rw [← UInt32.toNat_inj, UInt32.toNat_mod, UInt32.toNat_add, UInt32.toNat_one,
      mod_toNat some_core, mod_toNat some_core,
      Nat.mod_eq_of_lt (show next other % cores.toNat + 1 < 2 ^ 32 by omega), Nat.mod_add_mod]
  · have distinct : (other == ia) = false := beq_eq_false_iff_ne.mpr same
    rw [distinct, if_neg same]
    exact places other listed

/-- A connection takes one number of the range of its address. -/
theorem sum_hits_cons {size : Nat} {known : Finset UInt32} {next : UInt32 → Nat} {ia : UInt32}
    (member : ia ∈ known) (arrivals : List UInt32) (x : Nat) :
    ∑ other ∈ known, hits size (next other) ((ia :: arrivals).count other) x =
      (if next ia % size = x then 1 else 0) +
        ∑ other ∈ known,
          hits size (Function.update next ia (next ia + 1) other) (arrivals.count other) x := by
  rw [← Finset.add_sum_erase _ _ member, ← Finset.add_sum_erase known _ member, ← Nat.add_assoc]
  congr 1
  · rw [List.count_cons_self, Nat.add_comm, hits_add, hits_one, Function.update_self]
  · refine Finset.sum_congr rfl fun other listed => ?_
    have different := Finset.ne_of_mem_erase listed
    rw [List.count_cons_of_ne (Ne.symm different), Function.update_of_ne different]

/-- When as many connections arrive as the loops wait for, all of them are accepted, each at the
next place of its address. -/
theorem Places.acceptConnections {known : Finset UInt32} {arrivals : List UInt32}
    {next : UInt32 → Nat} {config : NetworkConfig} {remaining : UInt32}
    (places : Places cores known next config) (some_core : 0 < cores.toNat)
    (from_known : ∀ ia ∈ arrivals, ia ∈ known) (count : remaining.toNat = arrivals.length) :
    (acceptConnections cores config remaining arrivals).length = arrivals.length ∧
      (∀ sid ∈ acceptConnections cores config remaining arrivals, sid < cores) ∧
      ∀ x, (acceptConnections cores config remaining arrivals).countP (·.toNat = x) =
        ∑ ia ∈ known, hits cores.toNat (next ia) (arrivals.count ia) x := by
  induction arrivals generalizing next config remaining with
  | nil =>
    refine ⟨rfl, (fun sid none => nomatch none), fun x => ?_⟩
    simp only [List.count_nil, hits_zero, Finset.sum_const_zero]
    rfl
  | cons ia arrivals ih =>
    have member := from_known ia List.mem_cons_self
    obtain ⟨shard, places'⟩ := places.getClientTargetShard some_core member
    have fewer : (remaining - 1).toNat = arrivals.length := by
      rw [List.length_cons] at count
      have one : 1 ≤ remaining := by
        rw [UInt32.le_iff_toNat_le, UInt32.toNat_one]
        omega
      rw [UInt32.toNat_sub_of_le _ _ one, UInt32.toNat_one, count, Nat.add_sub_cancel]
    obtain ⟨length, below, places''⟩ := ih places'
      (fun other listed => from_known other (List.mem_cons_of_mem ia listed)) fewer
    -- the loops end with the last connection
    have unfold : Hiactor.acceptConnections cores config remaining (ia :: arrivals) =
        (config.getClientTargetShard cores ia).1 ::
          Hiactor.acceptConnections cores (config.getClientTargetShard cores ia).2 (remaining - 1)
            arrivals := by
      show (config.getClientTargetShard cores ia).1 ::
        (if remaining - 1 = 0 then []
          else Hiactor.acceptConnections cores (config.getClientTargetShard cores ia).2
            (remaining - 1) arrivals) = _
      congr 1
      split
      case isTrue last =>
        rw [last] at fewer
        rw [List.eq_nil_of_length_eq_zero fewer.symm]
        rfl
      case isFalse => rfl
    have inside := Nat.mod_lt (next ia) some_core
    rw [unfold, shard]
    refine ⟨congrArg (· + 1) length, ?_, fun x => ?_⟩
    · intro sid listed
      rcases List.mem_cons.mp listed with rfl | later
      · rw [UInt32.lt_iff_toNat_lt, mod_toNat some_core]
        exact inside
      · exact below sid later
    · rw [List.countP_cons, places'', sum_hits_cons member, Nat.add_comm]
      simp only [mod_toNat some_core, decide_eq_true_eq]

/-! ## The whole configuration -/

variable {nodes : List WorkerNodeInfo} {node : WorkerNodeInfo}

theorem Ordered.lt_of_mem_take (ordered : Ordered 0 nodes) {n : Nat}
    (member : node ∈ nodes.take n) :
    node.machineId.toNat < n := by
  obtain ⟨i, here⟩ := List.getElem?_of_mem member
  have inside := (List.getElem?_eq_some_iff.mp here).1
  rw [List.length_take] at inside
  rw [List.getElem?_take_of_lt (by omega)] at here
  have id := ordered _ _ here
  omega

theorem Ordered.le_of_mem_drop (ordered : Ordered 0 nodes) {n : Nat}
    (member : node ∈ nodes.drop n) :
    n ≤ node.machineId.toNat := by
  obtain ⟨i, here⟩ := List.getElem?_of_mem member
  rw [List.getElem?_drop] at here
  have id := ordered _ _ here
  omega

/-- An ordered list has the machines before this one in front and the others behind it. -/
theorem Ordered.filter_before (ordered : Ordered 0 nodes) (m : UInt32) :
    nodes.filter (·.machineId < m) = nodes.take m.toNat := by
  conv_lhs => rw [← List.take_append_drop m.toNat nodes]
  rw [List.filter_append, List.filter_eq_self.mpr, List.filter_eq_nil_iff.mpr, List.append_nil]
  · intro node member
    have behind := ordered.le_of_mem_drop member
    rw [decide_eq_true_eq, UInt32.lt_iff_toNat_lt]
    omega
  · intro node member
    rw [decide_eq_true_eq, UInt32.lt_iff_toNat_lt]
    exact ordered.lt_of_mem_take member

theorem Ordered.filter_behind (ordered : Ordered 0 nodes) (m : UInt32) :
    nodes.filter (m < ·.machineId) = nodes.drop (m.toNat + 1) := by
  conv_lhs => rw [← List.take_append_drop (m.toNat + 1) nodes]
  rw [List.filter_append, List.filter_eq_self (l := nodes.drop _) |>.mpr,
    List.filter_eq_nil_iff.mpr,
    List.nil_append]
  · intro node member
    have before := ordered.lt_of_mem_take member
    rw [decide_eq_true_eq, UInt32.lt_iff_toNat_lt]
    omega
  · intro node member
    rw [decide_eq_true_eq, UInt32.lt_iff_toNat_lt]
    exact ordered.le_of_mem_drop member

/-- The addresses of the machines behind machine `m`. -/
def laterAddresses (nodes : List WorkerNodeInfo) (m : UInt32) : List UInt32 :=
  (nodes.drop (m.toNat + 1)).map (·.addr.ip)

theorem length_flatMap_replicate {α β : Type} (list : List α) (n : Nat) (f : α → β) :
    (list.flatMap fun one => List.replicate n (f one)).length = n * list.length := by
  induction list with
  | nil => rfl
  | cons one list ih => rw [List.flatMap_cons, List.length_append, ih, List.length_replicate,
      List.length_cons, Nat.mul_succ, Nat.add_comm]

/-- What the loop leaves: the opened connections, and the first place of every address behind. -/
theorem setNetworkConfig_peers (ordered : Ordered 0 nodes)
    (here : nodes[thisMid.toNat]? = some node)
    (some_core : 0 < cores.toNat) (small : p2pConnCount.toNat + cores.toNat ≤ 2 ^ 32)
    (few : p2pConnCount.toNat * (laterAddresses nodes thisMid).length < 2 ^ 32) :
    ∃ lists, Reserved cores lists (p2pConnCount.toNat * thisMid.toNat) p2pConnCount.toNat
        (laterAddresses nodes thisMid) (setNetworkConfig nodes thisMid p2pConnCount cores) ∧
      lists.length = cores.toNat ∧
      lists.flatten.Perm ((nodes.take thisMid.toNat).flatMap fun node =>
        List.replicate p2pConnCount.toNat (node.addr, node.machineId)) ∧
      ∀ x < cores.toNat, ((lists[x]?).getD []).length =
        hits cores.toNat 0 (p2pConnCount.toNat * thisMid.toNat) x := by
  obtain ⟨inside, value⟩ := List.getElem?_eq_some_iff.mp here
  have split : nodes.take thisMid.toNat ++ node :: nodes.drop (thisMid.toNat + 1) = nodes := by
    rw [← value, List.cons_getElem_drop_succ, List.take_append_drop]
  have folded (loop : ConfigLoop) : nodes.foldl (ConfigLoop.next thisMid p2pConnCount cores) loop =
      (nodes.drop (thisMid.toNat + 1)).foldl (ConfigLoop.next thisMid p2pConnCount cores)
        (((nodes.take thisMid.toNat).foldl (ConfigLoop.next thisMid p2pConnCount cores) loop).next
          thisMid p2pConnCount cores node) := by
    rw [← List.foldl_cons, ← List.foldl_append, split]
  have before : ∀ other ∈ nodes.take thisMid.toNat, other.machineId < thisMid := by
    intro other member
    rw [← ordered.filter_before] at member
    simpa using (List.mem_filter.mp member).2
  have behind : ∀ other ∈ nodes.drop (thisMid.toNat + 1), thisMid < other.machineId := by
    intro other member
    rw [← ordered.filter_behind] at member
    simpa using (List.mem_filter.mp member).2
  have this : thisMid = node.machineId := by
    have id := ordered _ _ here
    rw [Nat.zero_add] at id
    exact UInt32.toNat_inj.mp id.symm
  unfold setNetworkConfig
  rw [folded]
  generalize start : ConfigLoop.mk _ _ _ _ = loop
  have empty : Opened cores [] loop := by
    subst start
    refine ⟨rfl, List.length_replicate, by simp, fun x lower => ?_, rfl, rfl⟩
    rw [List.length_nil, hits_zero]
    simp [lower]
  have opened := empty.clients some_core p2pConnCount before
  rw [List.nil_append] at opened
  have count := length_flatMap_replicate (nodes.take thisMid.toNat) p2pConnCount.toNat fun node =>
    (node.addr, node.machineId)
  rw [List.length_take, Nat.min_eq_left inside.le] at count
  generalize (nodes.take thisMid.toNat).foldl _ loop = loop at opened
  refine ⟨loop.config.serverLists, ?_, opened.lists, opened.opened, count ▸ opened.load⟩
  -- this machine only counts its own shards
  have own : Reserved cores loop.config.serverLists (p2pConnCount.toNat * thisMid.toNat)
      p2pConnCount.toNat [] (loop.next thisMid p2pConnCount cores node) := by
    rw [ConfigLoop.next]
    simp only [← this, ne_eq, not_true_eq_false, if_false]
    refine ⟨?_, rfl, ?_, fun ia => ?_⟩
    · rw [List.length_nil, Nat.mul_zero, Nat.add_zero, ← count]
      exact opened.dst
    · rw [List.length_nil, Nat.mul_zero]
      exact congrArg UInt32.toNat opened.waits
    · rw [if_neg List.not_mem_nil]
      exact congrArg (List.lookup ia) opened.addresses
  rw [laterAddresses, List.length_map] at few
  exact own.servers some_core small (by simpa using few) behind

theorem count_flatMap_replicate (addresses : List UInt32) (each : Nat) (ia : UInt32) :
    (addresses.flatMap fun other => List.replicate each other).count ia =
      each * addresses.count ia := by
  induction addresses with
  | nil => rfl
  | cons other addresses ih =>
    rw [List.flatMap_cons, List.count_append, ih, List.count_replicate, List.count_cons]
    split
    case isTrue => rw [Nat.mul_succ, Nat.add_comm]
    case isFalse => rw [Nat.zero_add, Nat.add_zero]

/-- The places of the connections, when every peer opens as many as it was told. -/
theorem connectionCount_eq {config : NetworkConfig} {start each : Nat}
    {addresses arrivals : List UInt32}
    (some_core : 0 < cores.toNat)
    (waits : config.waitConnCount.toNat = each * addresses.length)
    (first : ∀ ia, config.addrLsidMap.lookup ia = if ia ∈ addresses then
        some (UInt32.ofNat ((start + each * addresses.idxOf ia) % cores.toNat)) else none)
    (arrive : arrivals.Perm (addresses.flatMap fun ia => List.replicate each ia)) :
    (optionalListen cores config arrivals).length = arrivals.length ∧
      (∀ sid ∈ optionalListen cores config arrivals, sid < cores) ∧
      ∀ x, (optionalListen cores config arrivals).countP (·.toNat = x) =
        covered cores.toNat each start addresses x := by
  have length : arrivals.length = each * addresses.length := by
    rw [arrive.length_eq]
    exact length_flatMap_replicate addresses each id
  have listen : optionalListen cores config arrivals =
      acceptConnections cores config config.waitConnCount arrivals := by
    unfold optionalListen
    split
    case isTrue none =>
      rw [none] at waits
      rw [List.eq_nil_of_length_eq_zero (length.trans waits.symm)]
      rfl
    case isFalse => rfl
  have places : Places cores addresses.toFinset (fun ia => start + each * addresses.idxOf ia)
      config := by
    intro ia member
    rw [first, if_pos (List.mem_toFinset.mp member)]
  have from_known : ∀ ia ∈ arrivals, ia ∈ addresses.toFinset := by
    intro ia member
    obtain ⟨other, listed, same⟩ := List.mem_flatMap.mp (arrive.mem_iff.mp member)
    rw [List.eq_of_mem_replicate same]
    exact List.mem_toFinset.mpr listed
  obtain ⟨all, below, count⟩ :=
    places.acceptConnections some_core from_known (waits.trans length.symm)
  rw [listen]
  refine ⟨all, below, fun x => (count x).trans (Finset.sum_congr rfl fun ia _ => ?_)⟩
  rw [arrive.count_eq, count_flatMap_replicate]

theorem laterAddresses_flatMap (ordered : Ordered 0 nodes) (m : UInt32) (each : Nat) :
    ((nodes.filter (m < ·.machineId)).flatMap fun node => List.replicate each node.addr.ip) =
      (laterAddresses nodes m).flatMap fun ia => List.replicate each ia := by
  rw [ordered.filter_behind, laterAddresses, List.flatMap_map]

/-- What every shard gets. -/
theorem connectionCount_setNetworkConfig (ordered : Ordered 0 nodes)
    (here : nodes[thisMid.toNat]? = some node) (some_core : 0 < cores.toNat)
    (small : p2pConnCount.toNat + cores.toNat ≤ 2 ^ 32)
    (few : p2pConnCount.toNat * (laterAddresses nodes thisMid).length < 2 ^ 32)
    {arrivals : List UInt32}
    (arrive : arrivals.Perm ((nodes.filter (thisMid < ·.machineId)).flatMap fun node =>
      List.replicate p2pConnCount.toNat node.addr.ip)) {x : Nat} (inside : x < cores.toNat) :
    connectionCount cores (setNetworkConfig nodes thisMid p2pConnCount cores).config arrivals x =
      hits cores.toNat 0 (p2pConnCount.toNat * thisMid.toNat) x +
        covered cores.toNat p2pConnCount.toNat (p2pConnCount.toNat * thisMid.toNat)
          (laterAddresses nodes thisMid) x := by
  obtain ⟨lists, reserved, -, -, load⟩ := setNetworkConfig_peers ordered here some_core small few
  rw [laterAddresses_flatMap ordered] at arrive
  obtain ⟨-, -, accepted⟩ := connectionCount_eq some_core reserved.waits reserved.first arrive
  rw [connectionCount, reserved.lists, load x inside, accepted]

/-- Machines with the same address that stand together share one range. -/
theorem agreed_of_consecutive (ordered : Ordered 0 nodes) (here : nodes[thisMid.toNat]? = some node)
    (some_core : 0 < cores.toNat) (small : p2pConnCount.toNat + cores.toNat ≤ 2 ^ 32)
    (few : p2pConnCount.toNat * (laterAddresses nodes thisMid).length < 2 ^ 32)
    (consecutive : Consecutive (laterAddresses nodes thisMid)) :
    Agreed nodes thisMid p2pConnCount cores
      (setNetworkConfig nodes thisMid p2pConnCount cores).config := by
  obtain ⟨lists, reserved, shards, opened, load⟩ :=
    setNetworkConfig_peers ordered here some_core small few
  refine ⟨?_, ?_, ?_, fun arrivals arrive => ?_⟩
  · rw [reserved.lists, ordered.filter_before]
    exact opened
  · rw [reserved.waits, ordered.filter_behind, laterAddresses, List.length_map]
  · rw [reserved.lists]
    exact shards
  · have counts := fun x (inside : x < cores.toNat) =>
      connectionCount_setNetworkConfig ordered here some_core small few arrive inside
    have arrive' := arrive
    rw [laterAddresses_flatMap ordered] at arrive'
    obtain ⟨all, below, -⟩ := connectionCount_eq some_core reserved.waits reserved.first arrive'
    refine ⟨all, below, fun x left y right => ?_⟩
    rw [counts x left, counts y right, covered_of_consecutive consecutive,
      covered_of_consecutive consecutive]
    have joined (place : Nat) := hits_add cores.toNat 0 (p2pConnCount.toNat * thisMid.toNat)
      (p2pConnCount.toNat * (laterAddresses nodes thisMid).length) place
    simp only [Nat.zero_add] at joined
    rw [← joined, ← joined]
    exact hits_le_succ _ left right

/-- As many shards as machines and one connection for each pair: two ranges that overlap give a
shard two connections, and the last shard has none. -/
theorem not_agreed_of_not_consecutive (ordered : Ordered 0 nodes)
    (here : nodes[thisMid.toNat]? = some node) (few : nodes.length < 2 ^ 32)
    (apart : ¬Consecutive (laterAddresses nodes thisMid)) :
    ¬Agreed nodes thisMid 1 (UInt32.ofNat nodes.length)
      (setNetworkConfig nodes thisMid 1 (UInt32.ofNat nodes.length)).config := by
  intro agreed
  have inside := (List.getElem?_eq_some_iff.mp here).1
  have cores : (UInt32.ofNat nodes.length).toNat = nodes.length := by
    rw [UInt32.toNat_ofNat', Nat.mod_eq_of_lt few]
  have length : thisMid.toNat + (laterAddresses nodes thisMid).length + 1 = nodes.length := by
    rw [laterAddresses, List.length_map, List.length_drop]
    omega
  obtain ⟨j, lower, twice⟩ := exists_two_le_covered apart
    (show thisMid.toNat + (laterAddresses nodes thisMid).length ≤ nodes.length by omega)
  have some_core : 0 < (UInt32.ofNat nodes.length).toNat := by omega
  have small : (1 : UInt32).toNat + (UInt32.ofNat nodes.length).toNat ≤ 2 ^ 32 := by
    rw [cores, UInt32.toNat_one]
    omega
  have counts := fun x (inside : x < (UInt32.ofNat nodes.length).toNat) =>
    connectionCount_setNetworkConfig ordered here some_core small
      (by rw [UInt32.toNat_one]; omega) (List.Perm.refl _) inside
  have even := (agreed.accepts _ (List.Perm.refl _)).2.2 (thisMid.toNat + j) (by omega)
    (nodes.length - 1) (by omega)
  have unused : covered nodes.length 1 thisMid.toNat (laterAddresses nodes thisMid)
      (nodes.length - 1) = 0 := covered_eq_zero (by omega) (by omega)
  rw [counts _ (by omega), counts _ (by omega), cores, UInt32.toNat_one, Nat.one_mul,
    hits_of_le (by omega), hits_of_le (by omega), if_neg (by omega), if_neg (by omega),
    unused] at even
  omega

/-! ## Worker node lists -/

/-- A list that the machine accepts is ordered and has it at its place. -/
theorem ordered_of_accepted
    (accepted : loadWorkerNodeList nodes thisMid cores = .ok nodes) :
    Ordered 0 nodes ∧ ∃ node, nodes[thisMid.toNat]? = some node := by
  unfold loadWorkerNodeList at accepted
  split at accepted
  case h_1 => cases accepted
  case h_2 node here =>
    split at accepted
    case isTrue => cases accepted
    case isFalse =>
      split at accepted
      case isFalse => cases accepted
      case isTrue inOrder =>
        refine ⟨fun i other at' => ?_, node, here⟩
        have mine := inOrder i (List.getElem?_eq_some_iff.mp at').1
        rw [at'] at mine
        simpa using mine

/-- The machines at some addresses, with as many shards each as there are machines. -/
def nodesAt (addrs : List SocketAddress) : List WorkerNodeInfo :=
  addrs.zipIdx.map fun (addr, i) => ⟨UInt32.ofNat i, UInt32.ofNat addrs.length, addr⟩

theorem nodesAt_addr (addrs : List SocketAddress) : (nodesAt addrs).map (·.addr) = addrs := by
  rw [nodesAt, List.map_map]
  exact List.zipIdx_map_fst 0 addrs

theorem getElem?_nodesAt {addrs : List SocketAddress} {i : Nat} (inside : i < addrs.length) :
    ∃ addr, (nodesAt addrs)[i]? = some ⟨UInt32.ofNat i, UInt32.ofNat addrs.length, addr⟩ := by
  refine ⟨addrs[i], ?_⟩
  rw [nodesAt, List.getElem?_map, List.getElem?_zipIdx, List.getElem?_eq_getElem inside]
  simp

theorem accepted_nodesAt {addrs : List SocketAddress} {m : UInt32} (few : addrs.length < 2 ^ 32)
    (inside : m.toNat < addrs.length) :
    loadWorkerNodeList (nodesAt addrs) m (UInt32.ofNat addrs.length) = .ok (nodesAt addrs) := by
  have length : (nodesAt addrs).length = addrs.length := by simp [nodesAt]
  have inOrder : ∀ i < (nodesAt addrs).length,
      ((nodesAt addrs)[i]?).map (·.machineId.toNat) = some i := by
    intro i lower
    rw [length] at lower
    obtain ⟨addr, here⟩ := getElem?_nodesAt lower
    rw [here, Option.map_some, UInt32.toNat_ofNat', Nat.mod_eq_of_lt (lower.trans few)]
  obtain ⟨addr, here⟩ := getElem?_nodesAt inside
  rw [loadWorkerNodeList, here]
  simp only [ne_eq, not_true_eq_false, if_false]
  rw [if_pos inOrder]

/-- The machine at place `m` of a list of addresses agrees with its peers and spreads its
connections evenly, for all numbers of shards and connections, if and only if the machines behind it
that share an IP address stand together in the list. -/
theorem agreed_iff_consecutive {addrs : List SocketAddress} {m : UInt32}
    (few : addrs.length < 2 ^ 32) (inside : m.toNat < addrs.length) :
    Consecutive ((addrs.drop (m.toNat + 1)).map (·.ip)) ↔
      ∀ (nodes : List WorkerNodeInfo) (p2pConnCount cores : UInt32), nodes.map (·.addr) = addrs →
        loadWorkerNodeList nodes m cores = .ok nodes → 0 < cores.toNat →
        p2pConnCount.toNat + cores.toNat ≤ 2 ^ 32 →
        p2pConnCount.toNat * (addrs.length - (m.toNat + 1)) < 2 ^ 32 →
        Agreed nodes m p2pConnCount cores (setNetworkConfig nodes m p2pConnCount cores).config := by
  have later (nodes : List WorkerNodeInfo) (same : nodes.map (·.addr) = addrs) :
      laterAddresses nodes m = (addrs.drop (m.toNat + 1)).map (·.ip) := by
    rw [laterAddresses, ← same, ← List.map_drop, List.map_map]
    rfl
  constructor
  · intro consecutive nodes p2pConnCount cores same accepted some_core small total
    have length : nodes.length = addrs.length := by rw [← same, List.length_map]
    obtain ⟨ordered, node, here⟩ := ordered_of_accepted accepted
    refine agreed_of_consecutive ordered here some_core small ?_ (later nodes same ▸ consecutive)
    rw [later nodes same, List.length_map, List.length_drop]
    exact total
  · intro agreed
    by_contra apart
    have length : (nodesAt addrs).length = addrs.length := by simp [nodesAt]
    have cores : (UInt32.ofNat addrs.length).toNat = addrs.length := by
      rw [UInt32.toNat_ofNat', Nat.mod_eq_of_lt few]
    have accepted := accepted_nodesAt few inside
    obtain ⟨ordered, node, here⟩ := ordered_of_accepted accepted
    refine not_agreed_of_not_consecutive ordered here (length ▸ few)
      (later _ (nodesAt_addr addrs) ▸ apart) ?_
    rw [length]
    refine agreed (nodesAt addrs) 1 _ (nodesAt_addr addrs) accepted (by omega) ?_ ?_
    · rw [cores, UInt32.toNat_one]
      omega
    · rw [UInt32.toNat_one]
      omega

/-- Two machines behind the first share an address and stand together. -/
theorem agreed_pairedNodes :
    Agreed (nodesAt [⟨1, 3000⟩, ⟨2, 3000⟩, ⟨2, 3001⟩, ⟨3, 3000⟩]) 0 2 4
      (setNetworkConfig (nodesAt [⟨1, 3000⟩, ⟨2, 3000⟩, ⟨2, 3001⟩, ⟨3, 3000⟩]) 0 2 4).config := by
  refine (agreed_iff_consecutive (m := 0) (by decide) (by decide)).mp ?_ _ 2 4 (nodesAt_addr _)
    (by decide) (by decide) (by decide) (by decide)
  intro i j k before after inside same
  have last : k < 3 := inside
  obtain ⟨rfl, rfl, rfl⟩ : i = 0 ∧ j = 1 ∧ k = 2 := by omega
  simp at same

/-- The second and the fourth machine share an address, and the third one stands between them. -/
def scatteredNodes : List WorkerNodeInfo :=
  [⟨0, 4, ⟨1, 3000⟩⟩, ⟨1, 1, ⟨2, 3000⟩⟩, ⟨2, 1, ⟨3, 3000⟩⟩, ⟨3, 1, ⟨2, 3001⟩⟩]

/-- Their connections to the first machine overtake that of the third one: its shards get one, two
and no connections. -/
theorem not_agreed_scatteredNodes :
    loadWorkerNodeList scatteredNodes 0 4 = .ok scatteredNodes ∧
      ¬Agreed scatteredNodes 0 1 4 (setNetworkConfig scatteredNodes 0 1 4).config := by
  refine ⟨by decide, fun agreed => ?_⟩
  have even := (agreed.accepts [2, 3, 2] (by decide)).2.2 1 (by decide) 2 (by decide)
  revert even
  decide

end loop

end Hiactor
