import Mathlib.Data.List.Infix
import Hiactor.Lib.Pipeline
import Hiactor.Net.Proofs.Connection
import Hiactor.Net.Proofs.RoutingTable

/-!
# Routes

All messages from one shard to another pass the same places: the choices of `send` and of the
routing table depend on nothing else. In a cluster the route of a message ends in `receive` of the
shard that it is for.
-/

namespace Hiactor

open Lib

/-! ## Places -/

/-- Where messages wait. The messages of a queue of `network_channel` are told apart by the machine
they are for. -/
inductive Hop where
  | localQueue (m i j : UInt32)
  | networkQueue (m i j machId : UInt32)
  | netBuffer (link : Link)
  | conn (link : Link)
  | received (shard : ShardOf)
  deriving DecidableEq

/-- The places of messages that are to leave their machine. -/
def Hop.isOutbound : Hop → Bool
  | localQueue .. | received .. => false
  | networkQueue .. | netBuffer .. | conn .. => true

namespace Wiring

variable (w : Wiring)

/-- The places of a message for `g` after `send` on shard `s` of a machine that has the shard `g`,
the first one first. -/
def landing (m s g : UInt32) : List Hop :=
  match (w.info m).sendChoice s g with
  | .receive => [.received (m, s)]
  | .local targetCpu => [.localQueue m targetCpu s, .received (m, targetCpu)]
  | .network => []

/-- The places of a message after `network_channel::send` on shard `s` of machine `m`, up to the
machine of its destination. -/
def outbound (m s : UInt32) (dst : DestInfo) : List Hop :=
  (if dst.targetSid = s then [] else [.networkQueue m dst.targetSid s dst.machineId]) ++
    [.netBuffer ⟨m, dst.targetSid, dst.machineId⟩, .conn ⟨m, dst.targetSid, dst.machineId⟩]

/-- The places of a message for `g` after `send` on a shard. -/
def route (source : ShardOf) (g : UInt32) : List Hop :=
  match (w.info source.1).sendChoice source.2 g with
  | .network =>
    match w.getDestination source.1 g with
    | none => []
    | some dst => outbound source.1 source.2 dst ++
        w.landing dst.machineId (w.peer ⟨source.1, dst.targetSid, dst.machineId⟩) g
  | _ => w.landing source.1 source.2 g

/-- The place that `send` on shard `s` of machine `m` puts a message for `g` in. -/
def entry (m s g : UInt32) : Option Hop :=
  match (w.info m).sendChoice s g with
  | .receive => some (.received (m, s))
  | .local targetCpu => some (.localQueue m targetCpu s)
  | .network =>
    (w.getDestination m g).map fun dst =>
      if dst.targetSid = s then .netBuffer ⟨m, s, dst.machineId⟩
      else .networkQueue m dst.targetSid s dst.machineId

/-- The messages go by the network only to a machine that has their shard. -/
def Lands : Prop :=
  ∀ m g dst, w.getDestination m g = some dst →
    (w.info dst.machineId).sendChoice (w.peer ⟨m, dst.targetSid, dst.machineId⟩) g ≠ .network

variable {w} {source : ShardOf} {m s g : UInt32} {place : Hop}

/-- A route stays on its machine or leaves it. -/
theorem route_cases (source : ShardOf) (g : UInt32) :
    w.route source g = w.landing source.1 source.2 g ∨
      ∃ dst, (w.info source.1).sendChoice source.2 g = .network ∧
        w.getDestination source.1 g = some dst ∧
        w.route source g = outbound source.1 source.2 dst ++
          w.landing dst.machineId (w.peer ⟨source.1, dst.targetSid, dst.machineId⟩) g := by
  unfold route
  split
  · next away =>
    cases found : w.getDestination source.1 g with
    | none => exact .inl (by simp [landing, away])
    | some dst => exact .inr ⟨dst, away, rfl, rfl⟩
  · exact .inl rfl

theorem landing_cases (m s g : UInt32) :
    w.landing m s g = [] ∨ w.landing m s g = [.received (m, s)] ∨
      ∃ targetCpu, w.landing m s g = [.localQueue m targetCpu s, .received (m, targetCpu)] := by
  unfold landing
  split
  · exact .inr (.inl rfl)
  · exact .inr (.inr ⟨_, rfl⟩)
  · exact .inl rfl

theorem mem_landing (there : place ∈ w.landing m s g) :
    (∃ shard, place = .received shard) ∨
      ∃ i, place = .localQueue m i s ∧
        w.landing m s g = [.localQueue m i s, .received (m, i)] := by
  rcases landing_cases (w := w) m s g with away | here | ⟨i, passes⟩
  · simp [away] at there
  · rw [here] at there
    exact .inl ⟨_, List.mem_singleton.mp there⟩
  · rw [passes] at there
    rcases List.mem_cons.mp there with queue | last
    · exact .inr ⟨i, queue, passes⟩
    · exact .inl ⟨_, List.mem_singleton.mp last⟩

theorem mem_outbound {dst : DestInfo} (there : place ∈ outbound m s dst) :
    place = .networkQueue m dst.targetSid s dst.machineId ∧ dst.targetSid ≠ s ∨
      place = .netBuffer ⟨m, dst.targetSid, dst.machineId⟩ ∨
      place = .conn ⟨m, dst.targetSid, dst.machineId⟩ := by
  unfold outbound at there
  split at there
  · exact .inr (by simpa using there)
  · next proxy =>
    rcases List.mem_cons.mp there with queue | last
    · exact .inl ⟨queue, proxy⟩
    · exact .inr (by simpa using last)

theorem isOutbound_of_landing (there : place ∈ w.landing m s g) : place.isOutbound = false := by
  rcases mem_landing there with ⟨shard, rfl⟩ | ⟨i, rfl, -⟩
  · rfl
  · rfl

theorem isOutbound_of_outbound {dst : DestInfo} (there : place ∈ outbound m s dst) :
    place.isOutbound = true := by
  rcases mem_outbound there with ⟨rfl, -⟩ | rfl | rfl
  · rfl
  · rfl
  · rfl

theorem route_nodup (source : ShardOf) (g : UInt32) : (w.route source g).Nodup := by
  have landing_nodup (m s : UInt32) : (w.landing m s g).Nodup := by
    rcases landing_cases (w := w) m s g with away | here | ⟨i, passes⟩
    · simp [away]
    · simp [here]
    · simp [passes]
  have outbound_nodup (dst : DestInfo) : (outbound source.1 source.2 dst).Nodup := by
    unfold outbound
    split
    · simp
    · simp
  rcases route_cases (w := w) source g with stays | ⟨dst, -, -, leaves⟩
  · rw [stays]
    exact landing_nodup _ _
  · rw [leaves]
    refine List.nodup_append.mpr ⟨outbound_nodup dst, landing_nodup _ _, ?_⟩
    rintro one before _ after rfl
    have outside := isOutbound_of_outbound before
    rw [isOutbound_of_landing after] at outside
    cases outside

/-- After a queue between two shards of a machine a message is received. -/
theorem follows_localQueue {i j : UInt32} (there : .localQueue m i j ∈ w.route source g) :
    [.localQueue m i j, .received (m, i)] <:+: w.route source g := by
  have lands {m' s : UInt32} (there : .localQueue m i j ∈ w.landing m' s g) :
      w.landing m' s g = [.localQueue m i j, .received (m, i)] := by
    rcases mem_landing there with ⟨shard, other⟩ | ⟨i', queue, passes⟩
    · cases other
    · cases queue
      exact passes
  rcases route_cases (w := w) source g with stays | ⟨dst, -, -, leaves⟩
  · rw [stays] at there ⊢
    rw [lands there]
  · rw [leaves] at there ⊢
    rcases List.mem_append.mp there with before | after
    · have outside := isOutbound_of_outbound before
      cases outside
    · rw [lands after]
      exact (List.suffix_append _ _).isInfix

/-- The part of a route up to another machine. -/
theorem route_of_isOutbound (leaving : place.isOutbound = true)
    (there : place ∈ w.route source g) :
    ∃ dst, w.getDestination source.1 g = some dst ∧
      place ∈ outbound source.1 source.2 dst ∧
      w.route source g = outbound source.1 source.2 dst ++
        w.landing dst.machineId (w.peer ⟨source.1, dst.targetSid, dst.machineId⟩) g := by
  have notLanding (m s : UInt32) : place ∉ w.landing m s g := by
    intro there
    rw [isOutbound_of_landing there] at leaving
    cases leaving
  rcases route_cases (w := w) source g with stays | ⟨dst, -, found, leaves⟩
  · rw [stays] at there
    exact absurd there (notLanding _ _)
  · refine ⟨dst, found, ?_, leaves⟩
    rw [leaves] at there
    exact (List.mem_append.mp there).resolve_right (notLanding _ _)

/-- After a queue to a proxy a message is in the buffer of the proxy. -/
theorem follows_networkQueue {i j machId : UInt32}
    (there : .networkQueue m i j machId ∈ w.route source g) :
    [.networkQueue m i j machId, .netBuffer ⟨m, i, machId⟩] <:+: w.route source g := by
  obtain ⟨dst, -, before, leaves⟩ := route_of_isOutbound rfl there
  rcases mem_outbound before with ⟨same, proxy⟩ | other | other
  · cases same
    rw [leaves, outbound, if_neg proxy]
    exact ⟨[], _, rfl⟩
  · cases other
  · cases other

/-- After a buffer a message is on the connection. -/
theorem follows_netBuffer {link : Link} (there : .netBuffer link ∈ w.route source g) :
    [.netBuffer link, .conn link] <:+: w.route source g := by
  obtain ⟨dst, -, before, leaves⟩ := route_of_isOutbound rfl there
  rcases mem_outbound before with ⟨other, -⟩ | same | other
  · cases other
  · cases same
    rw [leaves, outbound]
    exact ⟨_, _, rfl⟩
  · cases other

/-- On the machine of its shard a message goes on where it lands. -/
theorem landing_eq_entry (here : (w.info m).sendChoice s g ≠ .network) :
    ∃ next later, w.entry m s g = some next ∧ w.landing m s g = next :: later := by
  unfold entry landing
  split
  · exact ⟨_, _, rfl, rfl⟩
  · exact ⟨_, _, rfl, rfl⟩
  · contradiction

/-- After a connection a message goes where `send` puts it. -/
theorem follows_conn {link : Link} (lands : w.Lands) (there : .conn link ∈ w.route source g) :
    (w.info link.machId).sendChoice (w.peer link) g ≠ .network ∧
      ∃ next, w.entry link.machId (w.peer link) g = some next ∧
        [.conn link, next] <:+: w.route source g := by
  obtain ⟨dst, found, before, leaves⟩ := route_of_isOutbound rfl there
  rcases mem_outbound before with ⟨other, -⟩ | other | same
  · cases other
  · cases other
  · cases same
    have arrived := lands source.1 g dst found
    obtain ⟨next, later, goes, rest⟩ := landing_eq_entry arrived
    refine ⟨arrived, next, goes, ?_⟩
    rw [leaves, rest, outbound]
    generalize (if dst.targetSid = source.2 then []
      else [Hop.networkQueue source.1 dst.targetSid source.2 dst.machineId]) = first
    exact ⟨first ++ [.netBuffer ⟨source.1, dst.targetSid, dst.machineId⟩], later, by simp⟩

/-- The first place of a route is where `send` puts a message. -/
theorem head?_route (source : ShardOf) (g : UInt32) :
    (w.route source g).head? = w.entry source.1 source.2 g := by
  by_cases away : (w.info source.1).sendChoice source.2 g = .network
  · simp only [route, entry, away]
    cases w.getDestination source.1 g with
    | none => rfl
    | some dst =>
      simp only [outbound, Option.map_some]
      split
      · next here => simp [here]
      · rfl
  · obtain ⟨next, later, goes, rest⟩ := landing_eq_entry away
    rcases route_cases (w := w) source g with stays | ⟨dst, leaves, -⟩
    · rw [stays, rest, goes]
      rfl
    · contradiction

variable (w) in
/-- Messages flow from a shard to an id. -/
def pipes : Pipeline Hop (ShardOf × UInt32) Letter where
  flow letter := (letter.source, letter.addr.getShardId)
  route flow := w.route flow.1 flow.2
  nodup flow := route_nodup flow.1 flow.2

end Wiring

/-! ## Clusters -/

namespace WorkerCluster

variable {c : WorkerCluster}

/-- A message for a shard of the machine that it is on. -/
theorem sendChoice_here {m s s' : UInt32} (shard : (m, s) ∈ c.shards)
    (target : (m, s') ∈ c.shards) :
    (c.info m).sendChoice s ((c.info m).globalShardId s') =
      if s = s' then .receive else .local s' := by
  rw [sendChoice_eq shard target, if_pos rfl]

/-- The connections between the shards of a cluster: `machIds` are the machines at the other ends of
those of each shard of a machine, and `peer` is the shard there. `fresh` is what the memory of a
routing table holds before it is built, and its size is a 32-bit number. -/
structure Connections (c : WorkerCluster) where
  machIds : UInt32 → List (List UInt32)
  perShard : ∀ (m : UInt32) (node : WorkerNodeInfo), c.nodes[m.toNat]? = some node →
    (machIds m).length = node.nrCores.toNat
  peers : ∀ m, ∀ ids ∈ machIds m, ∀ mid ∈ ids, mid.toNat < c.nodes.length
  fresh : Nat → UInt32
  fits : ∀ (m : UInt32) (node : WorkerNodeInfo), c.nodes[m.toNat]? = some node →
    (coreCounts c.nodes).sum + (2 + node.nrCores.toNat) * c.nodes.length < 2 ^ 32
  peer : Link → UInt32
  peer_mem : ∀ link s, (link.machId, s) ∈ c.shards → (link.machId, peer link) ∈ c.shards

namespace Connections

variable (net : c.Connections) {m g : UInt32} {node : WorkerNodeInfo} {dst : DestInfo}

/-- The connections of one machine. -/
def ofMachine (here : c.nodes[m.toNat]? = some node) : LocalConnections c where
  machine := m
  node := node
  here := here
  machIds := net.machIds m
  perShard := net.perShard m node here
  peers := net.peers m

/-- The routing table of a machine. -/
def routingTbl (m : UInt32) : Option RoutingArray :=
  match c.nodes[m.toNat]? with
  | some node => RoutingArray.build net.fresh (c.config m) (c.info m).numShards node.nrCores
      ((net.machIds m).map fun ids => (ConnectionTable.ofConnections ids).managedMachIds)
  | none => none

/-- The tables of all machines. What the code reads for a number that is no shard id is no machine
id, and the model has no step there. -/
def wiring : Wiring where
  localShardCount m := ((c.nodes[m.toNat]?).map (·.nrCores)).getD 0
  info := c.info
  getDestination m g :=
    if g < (c.info m).numShards then (net.routingTbl m).bind (·.getDestination g) else none
  peer := net.peer

/-- The table of every machine is built. -/
theorem layout_routingTbl (here : c.nodes[m.toNat]? = some node) :
    ∃ t, net.routingTbl m = some t ∧
      t.Layout (RouteLists.build (c.config m) (net.ofMachine here).shardedMids) fun _ => 2 := by
  obtain ⟨t, built, -, layout⟩ :=
    (net.ofMachine here).build_of_fits (net.fits m node here) net.fresh
  refine ⟨t, ?_, layout⟩
  unfold routingTbl
  rw [here]
  exact built

/-- `get_destination` finds the machine of a shard. -/
theorem exists_shard_of_getDestination (found : net.wiring.getDestination m g = some dst) :
    ∃ s, (dst.machineId, s) ∈ c.shards ∧ (c.info dst.machineId).globalShardId s = g := by
  simp only [wiring] at found
  split at found
  case isFalse => cases found
  case isTrue below =>
    obtain ⟨t, table, found⟩ := Option.bind_eq_some_iff.mp found
    cases machine : c.nodes[m.toNat]? with
    | none => simp [routingTbl, machine] at table
    | some node =>
      obtain ⟨t', table', layout⟩ := net.layout_routingTbl machine
      obtain rfl := Option.some.inj (table.symm.trans table')
      have count := (start_eq machine).2.2.1
      have inside : g.toNat < (coreCounts c.nodes).sum := by
        rw [← count]
        exact UInt32.lt_iff_toNat_lt.mp below
      obtain ⟨⟨m', s⟩, shard, same⟩ := c.bijOn_globalShardId.surjOn inside
      have same : (c.info m').globalShardId s = g := same
      have known := layout.read_eq (sid2mid_globalShardId machine _ shard)
      rw [same] at known
      obtain rfl := Option.some.inj (known.symm.trans (RoutingArray.read_of_getDestination found))
      exact ⟨s, shard, same⟩

end Connections

variable {source target : ShardOf}

theorem Connections.lands (net : c.Connections) : net.wiring.Lands := by
  intro m g dst found
  obtain ⟨s, shard, rfl⟩ := net.exists_shard_of_getDestination found
  have landed := net.peer_mem ⟨m, dst.targetSid, dst.machineId⟩ s shard
  have choice := sendChoice_here landed shard
  simp only [Connections.wiring]
  rw [choice]
  split
  · exact SendChoice.noConfusion
  · exact SendChoice.noConfusion

/-- The id of a shard. -/
def idOf (c : WorkerCluster) (shard : ShardOf) : UInt32 := (c.info shard.1).globalShardId shard.2

/-- On the machine of its shard a message ends in `receive`. -/
theorem landing_eq (net : c.Connections) {m s s' : UInt32} (shard : (m, s) ∈ c.shards)
    (target : (m, s') ∈ c.shards) :
    ∃ before, net.wiring.landing m s (c.idOf (m, s')) = before ++ [.received (m, s')] := by
  have choice : (net.wiring.info m).sendChoice s (c.idOf (m, s')) =
      if s = s' then .receive else .local s' := sendChoice_here shard target
  unfold Wiring.landing
  rw [choice]
  by_cases same : s = s'
  · subst same
    exact ⟨[], by simp⟩
  · exact ⟨[.localQueue m s' s], by simp [same]⟩

/-- A route ends in `receive` of the shard that it is for, unless there is no connection. -/
theorem route_eq (net : c.Connections) (from_mem : source ∈ c.shards) (to_mem : target ∈ c.shards) :
    net.wiring.route source (c.idOf target) = [] ∨
      ∃ before, net.wiring.route source (c.idOf target) = before ++ [.received target] := by
  rcases Wiring.route_cases (w := net.wiring) source (c.idOf target) with
    stays | ⟨dst, -, found, leaves⟩
  · rw [stays]
    by_cases machine : source.1 = target.1
    · obtain ⟨m, s⟩ := source
      obtain ⟨m', s'⟩ := target
      obtain rfl : m = m' := machine
      exact .inr (landing_eq net from_mem to_mem)
    · refine .inl ?_
      have choice : (net.wiring.info source.1).sendChoice source.2 (c.idOf target) = .network :=
        (sendChoice_eq from_mem to_mem).trans (if_neg machine)
      simp [Wiring.landing, choice]
  · obtain ⟨s, shard, same⟩ := net.exists_shard_of_getDestination found
    have machine : dst.machineId = target.1 :=
      congrArg Prod.fst (c.bijOn_globalShardId.injOn shard to_mem same)
    have landed := net.peer_mem ⟨source.1, dst.targetSid, dst.machineId⟩ target.2
      (machine ▸ to_mem)
    rw [machine] at landed leaves
    obtain ⟨before, lands⟩ := landing_eq net landed to_mem
    refine .inr ⟨Wiring.outbound source.1 source.2 dst ++ before, ?_⟩
    rw [leaves, List.append_assoc]
    exact congrArg _ lands

end WorkerCluster

end Hiactor
