import Hiactor.Core.Proofs.ShardTree

/-!
# Shards with many children

The root of a shard takes as many children as there are addresses. The runs of this module give it
any number of them up to `2 ^ 32`, and then stop the system while all of them live.
-/

namespace Hiactor

open Lib

namespace Shard

variable {s s' : Shard} {k : ActorKey} {p : Path} {o : ActorObject} {n low : Nat}

/-! ## The entries of the root -/

/-- `_actor_inst_map` of the root. -/
def rootMap (s : Shard) : List (ActorKey × Bool) := (s.objs []).elim [] fun o => match o.body with
  | .group g => g.actorInstMap
  | .actor _ => []

theorem rootMap_congr
    (same : (s'.objs []).map ActorObject.body = (s.objs []).map ActorObject.body) :
    s'.rootMap = s.rootMap := by
  have read (t : Shard) : t.rootMap = ((t.objs []).map ActorObject.body).elim [] fun body =>
      match body with
      | .group g => g.actorInstMap
      | .actor _ => [] := by
    unfold rootMap
    cases t.objs [] <;> rfl
  rw [read, read, same]

theorem rootMap_update_ne {f : ActorObject → ActorObject} (below : p ≠ []) :
    (s.update p f).rootMap = s.rootMap :=
  rootMap_congr (by rw [objs_update_ne _ _ _ below.symm])

theorem rootMap_setActors (f : List ActorKey → List ActorKey) :
    (s.update p (·.setActors f)).rootMap = s.rootMap := by
  unfold rootMap
  rw [objs_update]
  split
  · cases s.objs [] with
    | none => rfl
    | some o =>
      obtain ⟨sched, stop, mailbox, body⟩ := o
      cases body <;> rfl
  · rfl

@[simp] theorem rootMap_activate : (s.activate p).rootMap = s.rootMap := by
  refine activate_induction (motive := fun t => t.rootMap = s.rootMap) s p rfl ?_
  intro t k q same
  rw [rootMap_setActors, rootMap_update_ne (List.cons_ne_nil k q), same]

theorem rootMap_setEntry (found : s.objs [] = some o) (group : o.isGroup = true) (reached : Bool) :
    (s.update [] (·.setEntry k reached)).rootMap =
      (k, reached) :: s.rootMap.filter (·.1 != k) := by
  unfold rootMap
  rw [objs_update_self, found]
  obtain ⟨sched, stop, mailbox, body⟩ := o
  cases body with
  | group g => rfl
  | actor a => cases group

theorem rootMap_createChild (found : s.objs [] = some o) (group : o.isGroup = true) :
    (s.createChild [] k).rootMap = (k, true) :: s.rootMap.filter (·.1 != k) := by
  let made : Shard := { s with objs := Function.update s.objs [k] (some (.create s.limitOf k)) }
  have apart : ([] : Path) ≠ [k] := (List.cons_ne_nil k []).symm
  have found' : made.objs [] = some o := by
    show Function.update s.objs [k] (some (.create s.limitOf k)) [] = some o
    rw [Function.update_of_ne apart, found]
  have entered := rootMap_setEntry (k := k) found' group true
  have adopted : ((made.update [] (·.setEntry k true)).update [] (·.mapGroup .adopt)).rootMap =
      (made.update [] (·.setEntry k true)).rootMap := by
    unfold rootMap
    rw [objs_update_self]
    cases (made.update [] (·.setEntry k true)).objs [] with
    | none => rfl
    | some o =>
      obtain ⟨sched, stop, mailbox, body⟩ := o
      cases body <;> rfl
  unfold createChild schedule
  rw [rootMap_activate, rootMap_update_ne (List.cons_ne_nil k [])]
  refine adopted.trans (entered.trans ?_)
  have same : made.rootMap = s.rootMap := rootMap_congr (by rw [found', found])
  rw [same]

/-! ## Steps -/

/-- The system stops peacefully, and its loop comes to an actor. -/
structure StopsFirst (k : ActorKey) (s s' : Shard) : Prop where
  runs : s'.runs = s.runs
  stops : s'.stops = s.stops
  rootMap : s'.rootMap = (k, false) :: s.rootMap.filter (·.1 != k)
  root : s'.tree.node [] = (s.tree.node []).map (·.setEntry k false)

theorem stopsFirst_disable (group : ∃ n, s.tree.node [] = some n ∧ n.inner = true) :
    StopsFirst k s (s.disable [] k) := by
  obtain ⟨n, node, inner⟩ := group
  obtain ⟨o, found, rfl⟩ := exists_of_node node
  refine ⟨rfl, rfl, rootMap_setEntry found inner false, ?_⟩
  rw [tree_disable found inner, node]
  show Function.update s.tree.node [] (some (o.node.setEntry k false)) [] = _
  rw [Function.update_self]
  rfl

theorem stopsFirst_stopChildActor (valid : s.tree.Valid) (reached : s.entry [] k = some true)
    (actor : k.isGroup = false) : StopsFirst k s (s.stopChildActor [] k false) := by
  obtain ⟨o, found, group, entry⟩ := exists_of_entry reached
  obtain ⟨n, child⟩ := valid.reached (node_tree found) entry
  obtain ⟨c, stored, rfl⟩ := exists_of_node child
  have kind : c.isGroup = false := (valid.kind child).trans actor
  have apart : [k] ≠ [] := List.cons_ne_nil k []
  unfold stopChildActor
  simp only [reached, stored, kind, Bool.false_eq_true, if_false]
  split
  · exact stopsFirst_disable valid.root
  · let t : Shard := s.update [k] (·.setStop false)
    have root : t.tree.node [] = s.tree.node [] := by
      rw [tree_setStop stored]
      show Function.update s.tree.node [k] (some c.node.setStopped) [] = _
      rw [Function.update_of_ne apart.symm]
    have disabled : StopsFirst k (t.activateIdle [k]) ((t.activateIdle [k]).disable [] k) := by
      refine stopsFirst_disable ?_
      rw [tree_activateIdle, root]
      exact valid.root
    have idle : (t.activateIdle [k]).runs = s.runs ∧ (t.activateIdle [k]).stops = s.stops ∧
        (t.activateIdle [k]).rootMap = s.rootMap := by
      have map : t.rootMap = s.rootMap := rootMap_update_ne apart
      unfold activateIdle
      split
      · split
        · exact ⟨runs_activate .., stops_activate .., rootMap_activate.trans map⟩
        · exact ⟨rfl, rfl, map⟩
      · exact ⟨rfl, rfl, map⟩
    obtain ⟨runs, stops, map⟩ := idle
    refine ⟨disabled.runs.trans runs, disabled.stops.trans stops, ?_, ?_⟩
    · rw [disabled.rootMap, map]
    · rw [disabled.root, tree_activateIdle, root]

/-! ## Crowds -/

/-- One of `2 ^ 32` actors of a type. -/
def workerAt (i : Nat) : ActorKey := ⟨1, .ofNat i⟩

theorem workerAt_inj {i j : Nat} (small : i < 2 ^ 32) (small' : j < 2 ^ 32) :
    workerAt i = workerAt j ↔ i = j := by
  refine ⟨fun same => ?_, congrArg workerAt⟩
  have ids : (UInt32.ofNat i).toNat = (UInt32.ofNat j).toNat :=
    congrArg (fun k : ActorKey => k.id.toNat) same
  rwa [UInt32.toNat_ofNat_of_lt' small, UInt32.toNat_ofNat_of_lt' small'] at ids

/-- The root has `high` actors, and the first `low` of them cannot be reached. Nothing runs. -/
structure Crowd (closed : Bool) (low high : Nat) (s : Shard) : Prop where
  runs : s.runs = []
  root : ∃ n, s.tree.node [] = some n ∧ n.stopped = closed ∧ n.live = high ∧
    ∀ i < 2 ^ 32, n.entry (workerAt i) = if high ≤ i then none else some (decide (low ≤ i))
  /-- No other entry is reached. -/
  rest : ∀ e ∈ s.rootMap, e.2 = true → ∃ i, low ≤ i ∧ i < high ∧ e.1 = workerAt i

theorem rootStopping_of_node {n : TreeNode ActorKey} (root : s.tree.node [] = some n) :
    s.rootStopping = n.stopped := by
  obtain ⟨o, found, rfl⟩ := exists_of_node root
  simp only [rootStopping, found, Option.any_some]
  rfl

theorem entry_of_node {n : TreeNode ActorKey} (node : s.tree.node p = some n) :
    s.entry p k = n.entry k := by
  obtain ⟨o, found, rfl⟩ := exists_of_node node
  rw [entry, found]
  rfl

namespace Crowd

variable {closed : Bool} {high : Nat}

theorem init (limitOf : ActorKey → Nat) : Crowd false 0 0 (init limitOf) where
  runs := rfl
  root := ⟨.fresh true, rfl, rfl, rfl, fun i _ => rfl⟩
  rest := fun e member => by cases member

/-- The entries of the root when another one has come. -/
theorem rest_cons {map : List (ActorKey × Bool)} {low' high' : Nat} {k : ActorKey} {reached : Bool}
    (rest : ∀ e ∈ map, e.2 = true → ∃ i, low ≤ i ∧ i < high ∧ e.1 = workerAt i)
    (old : ∀ i, low ≤ i → i < high → workerAt i ≠ k → low' ≤ i ∧ i < high')
    (new : reached = true → ∃ i, low' ≤ i ∧ i < high' ∧ k = workerAt i) :
    ∀ e ∈ (k, reached) :: map.filter (·.1 != k), e.2 = true →
      ∃ i, low' ≤ i ∧ i < high' ∧ e.1 = workerAt i := by
  intro e member isTrue
  rcases List.mem_cons.mp member with rfl | listed
  · exact new isTrue
  · obtain ⟨before, other⟩ := List.mem_filter.mp listed
    obtain ⟨i, above, below, same⟩ := rest e before isTrue
    have apart : workerAt i ≠ k := fun here => by simp [same, here] at other
    obtain ⟨above', below'⟩ := old i above below apart
    exact ⟨i, above', below', same⟩

/-- A message to a new address makes the crowd larger. -/
theorem receive (crowd : Crowd false 0 n s) (valid : s.tree.Valid) (small : n < 2 ^ 32)
    (idle : s.stops = []) :
    ∃ s', s.step (.receive [workerAt n] .user 0 0) = some s' ∧ Crowd false 0 (n + 1) s' ∧
      s'.stops = [] := by
  obtain ⟨r, node, running, live, entries⟩ := crowd.root
  obtain ⟨o, found, rfl⟩ := exists_of_node node
  have group : o.isGroup = true := by
    obtain ⟨r, root, inner⟩ := valid.root
    obtain rfl := Option.some.inj (node.symm.trans root)
    exact inner
  have unknown : s.entry [] (workerAt n) = none := by
    rw [entry_of_node node, entries n small, if_pos le_rfl]
  let m : ActorMessage := ⟨s.nextMid, .user, 0, 0⟩
  let t : Shard := (s.createChild [] (workerAt n)).enque [workerAt n] m
  have point : s.userPoint = true := by simp [userPoint, idle, crowd.runs]
  have taken : s.step (.receive [workerAt n] .user 0 0) =
      some { t with nextMid := s.nextMid + 1 } := by
    simp [step, Label.isUser, point, userStep, Shard.receive, unknown,
      rootStopping_of_node node, running, getActorLocal, t, m]
  have frames : t.runs = [] ∧ t.stops = [] := by
    simp [t, enque, createChild, schedule, m, enqueMessage, crowd.runs, idle, emit]
  have tree := tree_createChild (k := workerAt n) found group
  have entered : t.tree.node [] = some ((o.node.setEntry (workerAt n) true).setLive (n + 1)) := by
    have apart : ([] : Path) ≠ [workerAt n] := (List.cons_ne_nil _ []).symm
    rw [tree_enque, tree]
    show Function.update (Function.update s.tree.node []
      (some ((o.node.setEntry (workerAt n) true).setLive (o.node.live + 1)))) [workerAt n]
      (some (.fresh (workerAt n).isGroup)) [] = _
    rw [Function.update_of_ne apart, Function.update_self, live]
  have map : t.rootMap = (workerAt n, true) :: s.rootMap.filter (·.1 != workerAt n) := by
    have put : t.rootMap = (s.createChild [] (workerAt n)).rootMap := by
      show (((s.createChild [] (workerAt n)).emit _).update _ _ |>.activate _).rootMap = _
      rw [rootMap_activate, rootMap_update_ne (List.cons_ne_nil _ [])]
      rfl
    rw [put, rootMap_createChild found group]
  refine ⟨_, taken, ⟨frames.1, ⟨_, entered, running, rfl, fun i below => ?_⟩, ?_⟩, frames.2⟩
  · simp only [TreeNode.entry_setLive, TreeNode.entry_setEntry, workerAt_inj below small,
      entries i below]
    by_cases here : i = n
    · simp [here]
    · rw [if_neg here]
      by_cases beyond : n ≤ i
      · rw [if_pos beyond, if_pos (by omega)]
      · rw [if_neg beyond, if_neg (by omega)]
  · show ∀ e ∈ t.rootMap, _
    rw [map]
    exact rest_cons crowd.rest (fun i _ below _ => ⟨Nat.zero_le i, by omega⟩)
      fun _ => ⟨n, Nat.zero_le n, Nat.lt_succ_self n, rfl⟩

/-- The system begins to stop. -/
theorem stopSystem (crowd : Crowd false 0 n s) (idle : s.stops = []) :
    ∃ s' m, s.step (.receive [] .peaceStop 0 0) = some s' ∧ Crowd true 0 n s' ∧
      s'.stops = [.stopSystem false m] := by
  obtain ⟨r, node, running, live, entries⟩ := crowd.root
  obtain ⟨o, found, rfl⟩ := exists_of_node node
  have point : s.userPoint = true := by simp [userPoint, idle, crowd.runs]
  let m : ActorMessage := ⟨s.nextMid, .peaceStop, 0, 0⟩
  let t : Shard := { s.update [] (·.setStop false) with stops := .stopSystem false m :: s.stops }
  have taken : s.step (.receive [] .peaceStop 0 0) = some { t with nextMid := s.nextMid + 1 } := by
    simp [step, Label.isUser, point, userStep, Shard.receive, receiveRoot, stopActorSystem,
      rootStopping_of_node node, running, t, m]
  have stopped : t.tree.node [] = some o.node.setStopped := by
    rw [tree_setStops, tree_setStop found]
    show Function.update s.tree.node [] (some o.node.setStopped) [] = _
    rw [Function.update_self]
  have map : t.rootMap = s.rootMap := by
    refine rootMap_congr ?_
    show ((s.update [] (·.setStop false)).objs []).map ActorObject.body = _
    rw [objs_update_self, found]
    rfl
  refine ⟨_, m, taken, ⟨crowd.runs, ⟨_, stopped, rfl, live, entries⟩, ?_⟩, ?_⟩
  · show ∀ e ∈ t.rootMap, _
    rw [map]
    exact crowd.rest
  · show StopFrame.stopSystem false m :: s.stops = _
    rw [idle]

/-- The loop of `stop_actor_system` stops the next actor. -/
theorem stopNext {m : ActorMessage} (crowd : Crowd true low n s) (valid : s.tree.Valid)
    (left : low < n) (small : n ≤ 2 ^ 32) (top : s.stops = [.stopSystem false m]) :
    ∃ s', s.step (.stopNext (workerAt low)) = some s' ∧ Crowd true (low + 1) n s' ∧
      s'.stops = [.stopSystem false m] := by
  obtain ⟨r, node, closed, live, entries⟩ := crowd.root
  have reached : s.entry [] (workerAt low) = some true := by
    rw [entry_of_node node, entries low (by omega), if_neg (by omega), decide_eq_true le_rfl]
  have stops := stopsFirst_stopChildActor valid reached rfl
  have taken : s.step (.stopNext (workerAt low)) =
      some (s.stopChildActor [] (workerAt low) false) := by
    simp [step, Label.isUser, top, stopStep, reached]
  refine ⟨_, taken,
    ⟨stops.runs.trans crowd.runs, ⟨r.setEntry (workerAt low) false, ?_, closed, live,
    fun i below => ?_⟩, ?_⟩, stops.stops.trans top⟩
  · rw [stops.root, node]
    rfl
  · simp only [TreeNode.entry_setEntry, workerAt_inj below (by omega : low < 2 ^ 32),
      entries i below]
    by_cases here : i = low
    · rw [if_pos here, if_neg (by omega), decide_eq_false (by omega)]
    · rw [if_neg here]
      by_cases beyond : n ≤ i
      · rw [if_pos beyond, if_pos beyond]
      · rw [if_neg beyond, if_neg beyond]
        simp only [Option.some.injEq, decide_eq_decide]
        omega
  · rw [stops.rootMap]
    refine rest_cons crowd.rest (fun i above below apart => ⟨?_, below⟩) nofun
    exact Nat.lt_of_le_of_ne above fun here => apart (here ▸ rfl)

/-- The counter of the root has wrapped around. -/
theorem counter_eq_zero (crowd : Crowd closed low (2 ^ 32) s) (found : s.objs [] = some o) :
    o.numActorsManaged = 0 := by
  obtain ⟨r, node, -, live, -⟩ := crowd.root
  obtain rfl := Option.some.inj ((node_tree found).symm.trans node)
  have count : o.children = ((2 ^ 32 : Nat) : Int) := live
  rw [o.counted, count]
  rfl

/-- The loop of `stop_actor_system` is through, and finds the counter of the root at 0. -/
theorem advance {m : ActorMessage} (crowd : Crowd true (2 ^ 32) (2 ^ 32) s)
    (valid : s.tree.Valid) (top : s.stops = [.stopSystem false m]) :
    ∃ s', s.step (.advance false 0) = some s' ∧ .exited ∈ s'.log ∧ s'.objs = s.objs := by
  obtain ⟨sched, stop, mailbox, g, root⟩ := root_group valid
  have through : g.actorInstMap.any (·.2) = false := by
    refine List.any_eq_false.mpr fun e member => ?_
    have here : e ∈ s.rootMap := by rwa [rootMap, root]
    intro isTrue
    obtain ⟨i, above, below, -⟩ := crowd.rest e here isTrue
    omega
  have zero : g.numActorsManaged = 0 := crowd.counter_eq_zero root
  refine ⟨({ s with stops := [] }.emit .exited).reclaim m, ?_, ?_, rfl⟩
  · simp [step, Label.isUser, top, stopStep, stopSystemEnd, root, through, zero]
  · simp [reclaim, emit]

/-- The children that are counted live. -/
theorem exists_child (crowd : Crowd closed low n s) (valid : s.tree.Valid) (some : 0 < n) :
    ∃ k c, s.objs [k] = .some c := by
  obtain ⟨r, node, -, live, -⟩ := crowd.root
  obtain ⟨o, found, rfl⟩ := exists_of_node node
  have count : o.children = (n : Int) := live
  exact Shard.exists_child valid found (by omega)

end Crowd

/-- Messages to new addresses give the root any number of children. -/
theorem exists_crowd (limitOf : ActorKey → Nat) (small : n ≤ 2 ^ 32) :
    ∃ s, Reachable step (init limitOf) s ∧ Crowd false 0 n s ∧ s.stops = [] := by
  induction n with
  | zero => exact ⟨_, ⟨[], rfl⟩, .init limitOf, rfl⟩
  | succ n ih =>
    obtain ⟨s, reachable, crowd, idle⟩ := ih (by omega)
    obtain ⟨s', taken, larger, idle'⟩ :=
      crowd.receive (valid_of_reachable reachable) (by omega) idle
    exact ⟨s', reachable.step taken, larger, idle'⟩

/-- `stop_actor_system` stops any number of actors, none of which has ended at the end of its
loop. -/
theorem exists_stopped_crowd (limitOf : ActorKey → Nat) (some : low ≤ n) (small : n ≤ 2 ^ 32) :
    ∃ s m, Reachable step (init limitOf) s ∧ Crowd true low n s ∧
      s.stops = [.stopSystem false m] := by
  induction low with
  | zero =>
    obtain ⟨s, reachable, crowd, idle⟩ := exists_crowd limitOf small
    obtain ⟨s', m, taken, stopped, top⟩ := crowd.stopSystem idle
    exact ⟨s', m, reachable.step taken, stopped, top⟩
  | succ low ih =>
    obtain ⟨s, m, reachable, crowd, top⟩ := ih (by omega)
    obtain ⟨s', taken, stopped, top'⟩ :=
      crowd.stopNext (valid_of_reachable reachable) (by omega) small top
    exact ⟨s', m, reachable.step taken, stopped, top'⟩

end Shard

end Hiactor
