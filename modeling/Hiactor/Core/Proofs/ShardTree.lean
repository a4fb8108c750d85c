import Hiactor.Lib.LifeTree
import Hiactor.Core.Proofs.ShardSteps

/-!
# The actor tree of a shard

What the operations of a shard do to its tree: which objects exist, which of them are stopping,
their entries and counters. Scheduling, mailboxes and task queues do not touch the tree. Every
step of a shard is a sequence of transitions of `LifeTree`.
-/

namespace Hiactor

open Lib

namespace ActorObject

/-- The object as a node of the tree. -/
def node (o : ActorObject) : TreeNode ActorKey where
  stopped := o.stopping
  inner := o.isGroup
  entry := o.entry
  live := o.children

variable (o : ActorObject)

@[simp] theorem node_setSched (status : SchedStatus) : (o.setSched status).node = o.node := rfl

@[simp] theorem node_setMailbox (mailbox : List ActorMessage) :
    (o.setMailbox mailbox).node = o.node := rfl

@[simp] theorem node_mapActor (f : ActorBody → ActorBody) : (o.mapActor f).node = o.node := by
  cases o with
  | mk sched stop mailbox body => cases body <;> rfl

@[simp] theorem node_setTasks (f : List Task → List Task) : (o.setTasks f).node = o.node :=
  node_mapActor ..

@[simp] theorem node_setActors (f : List ActorKey → List ActorKey) :
    (o.setActors f).node = o.node := by
  cases o with
  | mk sched stop mailbox body => cases body <;> rfl

@[simp] theorem node_setStop (force : Bool) : (o.setStop force).node = o.node.setStopped := by
  cases force <;> rfl

theorem lookup_filter_ne (entries : List (ActorKey × Bool)) (k j : ActorKey) :
    (entries.filter (·.1 != k)).lookup j = if j = k then none else entries.lookup j := by
  induction entries with
  | nil => simp
  | cons e entries ih =>
    obtain ⟨i, reached⟩ := e
    by_cases same : i = k
    · rw [List.filter_cons_of_neg (by simp [same]), ih]
      by_cases asked : j = k
      · simp [asked]
      · have other : (j == i) = false := by simpa [same] using asked
        simp [asked, List.lookup_cons, other]
    · rw [List.filter_cons_of_pos (by simpa using same), List.lookup_cons, List.lookup_cons]
      by_cases asked : j = i
      · simp [asked, same]
      · have other : (j == i) = false := by simpa using asked
        simp [other, ih]

theorem node_setEntry (k : ActorKey) (reached : Bool) (group : o.isGroup = true) :
    (o.setEntry k reached).node = o.node.setEntry k reached := by
  cases o with
  | mk sched stop mailbox body =>
    cases body with
    | actor a => cases group
    | group g =>
      refine TreeNode.ext rfl rfl (funext fun j => ?_) rfl
      simp only [node, entry, setEntry, mapGroup, TreeNode.entry_setEntry, List.lookup_cons]
      by_cases same : j = k
      · simp [same]
      · have other : (j == k) = false := by simpa using same
        simp [other, same, lookup_filter_ne]

theorem node_adopt (group : o.isGroup = true) :
    (o.mapGroup .adopt).node = o.node.setLive (o.children + 1) := by
  cases o with
  | mk sched stop mailbox body =>
    cases body with
    | actor a => cases group
    | group g => rfl

theorem node_drop (group : o.isGroup = true) : (o.mapGroup .drop).node = o.node.drop := by
  cases o with
  | mk sched stop mailbox body =>
    cases body with
    | actor a => cases group
    | group g => rfl

theorem node_create (limitOf : ActorKey → Nat) (k : ActorKey) :
    (create limitOf k).node = .fresh k.isGroup := by
  unfold create
  cases k.isGroup <;> rfl

/-- The counter of an object has the last 32 bits of the number of its children. -/
theorem counted : o.numActorsManaged = .ofInt o.children := by
  cases o with
  | mk sched stop mailbox body =>
    cases body with
    | actor a => rfl
    | group g => exact g.counted

theorem children_ne_zero (counts : o.numActorsManaged ≠ 0) : o.children ≠ 0 := by
  intro none
  refine counts ?_
  rw [o.counted, none]
  rfl

end ActorObject

/-- Creations, null entries and destructions are what the tree records. -/
def Event.inTree : Event → Bool
  | .created _ | .disabled _ | .destroyed _ => true
  | _ => false

namespace Shard

/-- The actors whose forced stop is in progress. -/
def cleanPaths (stops : List StopFrame) : List Path :=
  stops.filterMap fun
    | .clean p _ => some p
    | .stopSystem .. => none

/-- The tree of a shard. The stops in progress are the frames of `clean_task_queue`. -/
def tree (s : Shard) : LifeTree ActorKey where
  isInner := ActorKey.isGroup
  node := fun p => (s.objs p).map ActorObject.node
  created := s.log.filterMap fun
    | .created p => some p
    | _ => none
  disabled := s.log.filterMap fun
    | .disabled p => some p
    | _ => none
  removed := s.log.filterMap fun
    | .destroyed p => some p
    | _ => none
  ending := cleanPaths s.stops

/-! ## Operations that leave the tree alone -/

variable (s : Shard) (p : Path)

@[simp] theorem log_update (f : ActorObject → ActorObject) : (s.update p f).log = s.log := rfl
@[simp] theorem stops_update (f : ActorObject → ActorObject) : (s.update p f).stops = s.stops := rfl
@[simp] theorem runs_update (f : ActorObject → ActorObject) : (s.update p f).runs = s.runs := rfl

theorem objs_update (f : ActorObject → ActorObject) (q : Path) :
    (s.update p f).objs q = if q = p then (s.objs q).map f else s.objs q := by
  show Function.update s.objs p ((s.objs p).map f) q = _
  rw [Function.update_apply]
  split
  · rename_i same
    rw [same]
  · rfl

@[simp] theorem objs_update_self (f : ActorObject → ActorObject) :
    (s.update p f).objs p = (s.objs p).map f := by
  simp [objs_update]

theorem objs_update_ne (f : ActorObject → ActorObject) {q : Path} (different : q ≠ p) :
    (s.update p f).objs q = s.objs q := by
  simp [objs_update, different]

theorem tree_congr {s s' : Shard}
    (nodes : ∀ p, (s'.objs p).map ActorObject.node = (s.objs p).map ActorObject.node)
    (log : s'.log = s.log) (stops : s'.stops = s.stops) : s'.tree = s.tree := by
  simp only [tree, log, stops]
  congr 1
  exact funext nodes

/-- A change of one object that keeps its node. -/
theorem tree_update {f : ActorObject → ActorObject}
    (same : ∀ o, s.objs p = some o → (f o).node = o.node) : (s.update p f).tree = s.tree := by
  refine tree_congr (fun q => ?_) rfl rfl
  rw [objs_update]
  split
  · rename_i here
    subst here
    cases found : s.objs q with
    | none => rfl
    | some o => simp [same o found]
  · rfl

/-- The tree after a change of one object. -/
theorem node_tree_update (f : ActorObject → ActorObject) :
    (s.update p f).tree.node =
      Function.update s.tree.node p ((s.objs p).map fun o => (f o).node) := by
  funext q
  show ((s.update p f).objs q).map _ = _
  rw [objs_update, Function.update_apply]
  split
  · rename_i here
    subst here
    cases s.objs q <;> rfl
  · rfl

theorem tree_emit {e : Event} (other : e.inTree = false) : (s.emit e).tree = s.tree := by
  cases e with
  | created | disabled | destroyed => cases other
  | _ => simp [tree, emit]

/-- `activate` marks some objects and puts them in the queues of their parents. -/
theorem activate_induction {motive : Shard → Prop} (start : motive s)
    (mark : ∀ (t : Shard) (k : ActorKey) (q : Path), motive t →
      motive ((t.update (k :: q) (·.setSched .scheduled)).update q (·.setActors (· ++ [k])))) :
    motive (s.activate p) := by
  induction p generalizing s with
  | nil => exact start
  | cons k p ih =>
    unfold activate
    split
    · split
      · exact ih _ (mark s k p start)
      · exact start
    · exact start

/-- `activate` changes only objects. -/
theorem activate_eq : s.activate p = { s with objs := (s.activate p).objs } := by
  refine activate_induction (motive := fun t => t = { s with objs := t.objs }) s p rfl ?_
  intro t k q same
  rw [same]
  rfl

@[simp] theorem log_activate : (s.activate p).log = s.log := by rw [activate_eq]
@[simp] theorem stops_activate : (s.activate p).stops = s.stops := by rw [activate_eq]
@[simp] theorem runs_activate : (s.activate p).runs = s.runs := by rw [activate_eq]

@[simp] theorem tree_activate : (s.activate p).tree = s.tree := by
  refine activate_induction (motive := fun t => t.tree = s.tree) s p rfl ?_
  intro t k q same
  rw [tree_update _ _ (fun _ _ => ActorObject.node_setActors ..),
    tree_update _ _ (fun _ _ => ActorObject.node_setSched ..), same]

@[simp] theorem tree_enqueMessage (m : ActorMessage) : (s.enqueMessage p m).tree = s.tree := by
  rw [enqueMessage, tree_activate, tree_update]
  exact fun _ _ => ActorObject.node_setMailbox ..

@[simp] theorem tree_enqueUrgentMessage (m : ActorMessage) :
    (s.enqueUrgentMessage p m).tree = s.tree := by
  rw [enqueUrgentMessage, tree_activate, tree_update]
  exact fun _ _ => ActorObject.node_setMailbox ..

@[simp] theorem tree_enque (m : ActorMessage) : (s.enque p m).tree = s.tree := by
  unfold enque
  split
  · rw [tree_enqueMessage, tree_emit _ rfl]
  · rw [tree_enqueUrgentMessage, tree_emit _ rfl]

@[simp] theorem tree_addTask (task : Task) (urgent : Bool) :
    (s.addTask p task urgent).tree = s.tree := by
  rw [addTask, tree_activate, tree_update]
  exact fun _ _ => ActorObject.node_setTasks ..

@[simp] theorem tree_reclaim (m : ActorMessage) : (s.reclaim m).tree = s.tree := tree_emit _ rfl

@[simp] theorem tree_stoppedActorEnqueue (addr : List ActorKey) (m : ActorMessage) :
    (s.stoppedActorEnqueue addr m).tree = s.tree := by
  unfold stoppedActorEnqueue
  rw [tree_reclaim]
  split
  · rw [tree_emit _ rfl, tree_emit _ rfl]
  · rw [tree_emit _ rfl]

@[simp] theorem tree_cleanMailbox : (s.cleanMailbox p).tree = s.tree := by
  unfold cleanMailbox
  split
  · rename_i o found
    have same : (s.update p (·.setMailbox [])).tree = s.tree :=
      tree_update _ _ (fun _ _ => ActorObject.node_setMailbox ..)
    rw [← same]
    simp [tree]
  · rfl

/-- A group tells its children to stop one after the other. -/
theorem stopAllChildren_induction {motive : Shard → Prop} {force : Bool} (start : motive s)
    (tell : ∀ (t : Shard) (k : ActorKey), motive t →
      motive (t.enqueUrgentMessage (k :: p) (stopMessage force))) :
    motive (s.stopAllChildren p force) := by
  unfold stopAllChildren
  split
  · rename_i g found
    generalize g.actorInstMap.filter (·.2) = children
    clear found
    induction children generalizing s with
    | nil => exact start
    | cons child children ih => exact ih _ (tell s child.1 start)
  · exact start

@[simp] theorem tree_stopAllChildren (force : Bool) : (s.stopAllChildren p force).tree = s.tree :=
  stopAllChildren_induction (motive := fun t => t.tree = s.tree) s p rfl
    (fun t _ same => (tree_enqueUrgentMessage t ..).trans same)

@[simp] theorem tree_activateIdle : (s.activateIdle p).tree = s.tree := by
  unfold activateIdle
  split
  · split
    · rw [tree_activate]
    · rfl
  · rfl

theorem tree_setStops (stops : List StopFrame) :
    { s with stops := stops }.tree =
      { s.tree with ending := cleanPaths stops } := rfl

@[simp] theorem tree_setPc (pc : Pc) : (s.setPc pc).tree = s.tree := rfl

@[simp] theorem tree_leave : s.leave.tree = s.tree := rfl

/-! ## Operations on the tree -/

variable {s p} {k : ActorKey} {o : ActorObject}

theorem node_tree (found : s.objs p = some o) : s.tree.node p = some o.node := by
  show (s.objs p).map _ = _
  rw [found]
  rfl

theorem isSome_node : (s.tree.node p).isSome = (s.objs p).isSome := Option.isSome_map

theorem tree_setStop (found : s.objs p = some o) (force : Bool) :
    (s.update p (·.setStop force)).tree =
      { s.tree with node := Function.update s.tree.node p (some o.node.setStopped) } := by
  have nodes := node_tree_update s p (·.setStop force)
  rw [found] at nodes
  simp only [Option.map_some, ActorObject.node_setStop] at nodes
  rw [← nodes]
  rfl

theorem tree_stopGroup (found : s.objs p = some o) (force : Bool) :
    (s.stopGroup p force).tree =
      { s.tree with node := Function.update s.tree.node p (some o.node.setStopped) } := by
  unfold stopGroup
  simp only [found]
  by_cases stopping : o.stopping = true
  · have same : o.node.setStopped = o.node := by
      refine TreeNode.ext ?_ rfl rfl rfl
      exact stopping.symm
    rw [if_pos stopping, same, ← node_tree found, Function.update_eq_self]
  · rw [if_neg stopping]
    cases force with
    | true =>
      split
      · simp [tree_setStop found]
      · simp [tree_setStop found]
    | false =>
      split
      · simp [tree_setStop found]
      · simp [tree_setStop found]

theorem tree_disable (found : s.objs p = some o) (group : o.isGroup = true) :
    (s.disable p k).tree =
      { s.tree with
        node := Function.update s.tree.node p (some (o.node.setEntry k false))
        disabled := s.tree.disabled ++ [k :: p] } := by
  have nodes := node_tree_update s p (·.setEntry k false)
  rw [found] at nodes
  simp only [Option.map_some, ActorObject.node_setEntry _ _ _ group] at nodes
  rw [← nodes]
  simp [tree, disable, emit]

theorem exists_of_node {n : TreeNode ActorKey} (stored : s.tree.node p = some n) :
    ∃ o, s.objs p = some o ∧ o.node = n := Option.map_eq_some_iff.mp stored

theorem exists_of_entry {reached : Bool} (stored : s.entry p k = some reached) :
    ∃ o, s.objs p = some o ∧ o.isGroup = true ∧ o.entry k = some reached := by
  obtain ⟨o, found, entry⟩ := Option.bind_eq_some_iff.mp stored
  refine ⟨o, found, ?_, entry⟩
  cases o with
  | mk sched stop mailbox body =>
    cases body with
    | group g => rfl
    | actor a => cases entry

theorem tree_createChild (found : s.objs p = some o) (group : o.isGroup = true) :
    (s.createChild p k).tree =
      { s.tree with
        node := Function.update
          (Function.update s.tree.node p
            (some ((o.node.setEntry k true).setLive (o.node.live + 1))))
          (k :: p) (some (.fresh k.isGroup))
        created := s.tree.created ++ [k :: p] } := by
  have different : p ≠ k :: p := (List.cons_ne_self k p).symm
  let s₁ : Shard := { s with objs := Function.update s.objs (k :: p) (some (.create s.limitOf k)) }
  have nodes₁ : s₁.tree.node = Function.update s.tree.node (k :: p) (some (.fresh k.isGroup)) := by
    funext q
    show (Function.update s.objs (k :: p) (some (.create s.limitOf k)) q).map _ = _
    rw [Function.update_apply, Function.update_apply]
    split
    · rw [Option.map_some, ActorObject.node_create]
    · rfl
  have found₁ : s₁.objs p = some o := by
    show Function.update _ _ _ p = _
    rw [Function.update_of_ne different, found]
  have found₂ : (s₁.update p (·.setEntry k true)).objs p = some (o.setEntry k true) := by
    rw [objs_update_self, found₁, Option.map_some]
  have group₂ : (o.setEntry k true).isGroup = true := by
    have := congrArg TreeNode.inner (o.node_setEntry k true group)
    exact this.trans group
  have live₂ : (o.setEntry k true).children = o.node.live :=
    congrArg TreeNode.live (o.node_setEntry k true group)
  have nodes₂ := node_tree_update s₁ p (·.setEntry k true)
  have nodes₃ := node_tree_update (s₁.update p (·.setEntry k true)) p
    (·.mapGroup .adopt)
  rw [found₁, Option.map_some, ActorObject.node_setEntry _ _ _ group, nodes₁] at nodes₂
  rw [found₂, Option.map_some, ActorObject.node_adopt _ group₂, live₂,
    ActorObject.node_setEntry _ _ _ group, nodes₂, Function.update_idem,
    Function.update_comm different.symm] at nodes₃
  rw [createChild, schedule, tree_activate, tree_update _ _
    (fun _ _ => ActorObject.node_setSched ..)]
  rw [← nodes₃]
  simp [tree, emit, s₁]

/-! ## Refinement -/

/-- The tree of `s'` is reached from that of `s` by transitions that keep every node. -/
def Grows (s s' : Shard) : Prop := Relation.ReflTransGen LifeTree.Grow s.tree s'.tree

/-- The tree of `s'` is reached from that of `s` by transitions. -/
def Refines (s s' : Shard) : Prop := LifeTree.Steps s.tree s'.tree

theorem Grows.of_eq {s s' : Shard} (same : s'.tree = s.tree) : Grows s s' := by
  unfold Grows
  rw [same]

theorem Grows.trans {s s' s'' : Shard} (first : Grows s s') (second : Grows s' s'') :
    Grows s s'' := Relation.ReflTransGen.trans first second

theorem Grows.single {s s' : Shard} {t : LifeTree ActorKey} (step : LifeTree.Grow s.tree t)
    (same : s'.tree = t) : Grows s s' := by
  unfold Grows
  rw [same]
  exact Relation.ReflTransGen.single step

theorem Grows.valid {s s' : Shard} (grows : Grows s s') (valid : s.tree.Valid) : s'.tree.Valid :=
  valid.grows grows

theorem Grows.refines {s s' : Shard} (grows : Grows s s') : Refines s s' := .grow grows

theorem Grows.trans_refines {s s' s'' : Shard} (first : Grows s s') (second : Refines s' s'') :
    Refines s s'' := by
  cases second with
  | grow grows => exact .grow (Relation.ReflTransGen.trans first grows)
  | remove k p grows removes => exact .remove k p (Relation.ReflTransGen.trans first grows) removes

theorem grows_createChild (found : s.objs p = some o) (group : o.isGroup = true)
    (unknown : o.entry k = none) (running : p = [] → o.stopping = false) :
    Grows s (s.createChild p k) :=
  .single (.create (node_tree found) group unknown running) (tree_createChild found group)

/-- `stop_child_actor` stops the child and disables it, or begins the forced stop of an actor. -/
theorem tree_stopChildActor {parent : ActorObject} (found : s.objs p = some parent)
    (group : parent.isGroup = true) (entry : parent.entry k = some true)
    (child : s.objs (k :: p) = some o) (force : Bool) :
    (s.stopChildActor p k force).tree =
        { s.tree with
          node := Function.update (Function.update s.tree.node (k :: p) (some o.node.setStopped)) p
            (some (parent.node.setEntry k false))
          disabled := s.tree.disabled ++ [k :: p] } ∨
      (s.stopChildActor p k force).tree =
        { s.tree with
          node := Function.update s.tree.node (k :: p) (some o.node.setStopped)
          ending := (k :: p) :: s.tree.ending } := by
  have reached : s.entry p k = some true := by simp [Shard.entry, found, entry]
  have different : p ≠ k :: p := (List.cons_ne_self k p).symm
  unfold stopChildActor
  simp only [reached, child]
  split
  · have stopped := tree_stopGroup child force
    have kept : (s.stopGroup (k :: p) force).tree.node p = some parent.node := by
      rw [stopped]
      exact (Function.update_of_ne different ..).trans (node_tree found)
    obtain ⟨parent', found', same⟩ := exists_of_node kept
    left
    rw [tree_disable found' ((congrArg TreeNode.inner same).trans group), stopped, same]
  · split
    · rename_i stopping
      have already : o.node.setStopped = o.node := by
        refine TreeNode.ext ?_ rfl rfl rfl
        exact stopping.symm
      left
      rw [tree_disable found group, already, ← node_tree child, Function.update_eq_self]
    · split
      · have cleaned : (((s.update (k :: p) (·.setStop true)).cleanMailbox (k :: p)).update
            (k :: p) (·.setTasks (List.map Task.cancel))).tree =
            { s.tree with
              node := Function.update s.tree.node (k :: p) (some o.node.setStopped) } := by
          rw [tree_update _ _ (fun _ _ => ActorObject.node_setTasks ..), tree_cleanMailbox,
            tree_setStop child]
        have ending : cleanPaths _ = s.tree.ending := congrArg LifeTree.ending cleaned
        right
        rw [tree_setStops, cleaned, ← ending]
        rfl
      · have stopped := tree_setStop child false
        have idle := tree_activateIdle (s.update (k :: p) (·.setStop false)) (k :: p)
        rw [stopped] at idle
        have kept : ((s.update (k :: p) (·.setStop false)).activateIdle (k :: p)).tree.node p =
            some parent.node := by
          rw [idle]
          exact (Function.update_of_ne different ..).trans (node_tree found)
        obtain ⟨parent', found', same⟩ := exists_of_node kept
        left
        rw [tree_disable found' ((congrArg TreeNode.inner same).trans group), idle, same]

/-- `stop_child_actor` does nothing for a child that is not reached. -/
theorem stopChildActor_unreached (unreached : s.entry p k ≠ some true) (force : Bool) :
    s.stopChildActor p k force = s := by
  unfold stopChildActor
  split
  · rename_i reached _
    exact absurd reached unreached
  · rfl

theorem grows_stopChildActor (force : Bool) : Grows s (s.stopChildActor p k force) := by
  by_cases reached : s.entry p k = some true
  · obtain ⟨parent, found, group, entry⟩ := exists_of_entry reached
    cases child : s.objs (k :: p) with
    | none =>
      refine .of_eq ?_
      simp [stopChildActor, child]
    | some o =>
      rcases tree_stopChildActor found group entry child force with stopped | begun
      · exact .single (.stop (node_tree found) entry (node_tree child)) stopped
      · exact .single (.beginStop (node_tree child)) begun
  · exact .of_eq (by rw [stopChildActor_unreached reached])

/-- A child that was told to stop by its parent is stopping. -/
theorem stopping_stopChildActor (valid : s.tree.Valid) {force : Bool}
    (found : (s.stopChildActor p k force).objs (k :: p) = some o) : o.stopping = true := by
  have stored := node_tree found
  by_cases reached : s.entry p k = some true
  · obtain ⟨parent, above, group, entry⟩ := exists_of_entry reached
    obtain ⟨n, child⟩ := valid.reached (node_tree above) entry
    obtain ⟨c, child, -⟩ := exists_of_node child
    rcases tree_stopChildActor above group entry child force with stopped | begun
    · rw [stopped] at stored
      simp only [Function.update_of_ne (List.cons_ne_self k p), Function.update_self] at stored
      exact (congrArg TreeNode.stopped (Option.some.inj stored)).symm
    · rw [begun] at stored
      simp only [Function.update_self] at stored
      exact (congrArg TreeNode.stopped (Option.some.inj stored)).symm
  · rw [stopChildActor_unreached reached] at found stored
    obtain ⟨n, parent, -⟩ := valid.parent stored
    obtain ⟨q, above, rfl⟩ := exists_of_node parent
    have entry : s.entry p k = q.entry k := by simp [Shard.entry, above]
    cases known : q.entry k with
    | none => exact absurd known (valid.known stored parent)
    | some reached' =>
      cases reached' with
      | true => exact absurd (entry.trans known) reached
      | false => exact valid.disabled_stopped parent known stored

theorem grows_stopSelf (force : Bool) : Grows s (s.stopSelf p force) := by
  cases p with
  | nil => exact .of_eq rfl
  | cons k p => exact grows_stopChildActor force

theorem grows_runTask (task : Task) : Grows s (s.runTask p task) := by
  cases task with
  | user => exact .of_eq rfl
  | reply msg failed => exact .of_eq (by rw [runTask, tree_addTask, tree_emit _ rfl])
  | post msg state =>
    have finished : Grows s ((s.update p (·.mapActor fun a => { a with
        curConcurrency := a.curConcurrency - 1 })).reclaim msg) := by
      refine .of_eq ?_
      rw [tree_reclaim, tree_update]
      exact fun _ _ => ActorObject.node_mapActor ..
    unfold runTask
    simp only
    split
    · exact finished.trans (grows_stopSelf true)
    · exact finished

/-- A lookup creates what is missing below a group. -/
theorem grows_getActorLocal (p : Path) (below : p ≠ []) (keys : List ActorKey) :
    Grows s (s.getActorLocal p keys).1 := by
  induction keys generalizing s p with
  | nil => exact .of_eq rfl
  | cons k keys ih =>
    unfold getActorLocal
    split
    · exact .of_eq rfl
    · rename_i o found
      split
      · rename_i group
        split
        · exact .of_eq rfl
        · exact ih (k :: p) (List.cons_ne_nil k p)
        · rename_i unknown
          exact (grows_createChild found group unknown (fun root => absurd root below)).trans
            (ih (k :: p) (List.cons_ne_nil k p))
      · exact .of_eq rfl

theorem grows_stopActorSystem (valid : s.tree.Valid) (force : Bool) (m : ActorMessage) :
    Grows s (s.stopActorSystem force m) := by
  unfold stopActorSystem
  split
  · exact .of_eq (tree_reclaim ..)
  · obtain ⟨n, root, -⟩ := valid.root
    obtain ⟨o, found, -⟩ := exists_of_node root
    refine .single (.stopRoot (node_tree found)) ?_
    rw [tree_setStops, tree_setStop found]
    rfl

theorem children_nonneg (valid : s.tree.Valid) (found : s.objs p = some o) : 0 ≤ o.children := by
  obtain ⟨keys, -, -, length⟩ := valid.count (node_tree found)
  exact (Int.natCast_nonneg keys.length).trans_eq length

/-- A group that counts children has one. -/
theorem exists_child (valid : s.tree.Valid) (found : s.objs p = some o)
    (some : o.children ≠ 0) : ∃ j c, s.objs (j :: p) = .some c := by
  obtain ⟨keys, -, members, length⟩ := valid.count (node_tree found)
  have count : (keys.length : Int) = o.children := length
  obtain ⟨j, member⟩ := List.exists_mem_of_length_pos (l := keys) (by omega)
  obtain ⟨c, child⟩ := Option.isSome_iff_exists.mp ((members j).mp member)
  obtain ⟨c, child, -⟩ := exists_of_node child
  exact ⟨j, c, child⟩

theorem root_group (valid : s.tree.Valid) :
    ∃ sched stop mailbox g, s.objs [] = some ⟨sched, stop, mailbox, .group g⟩ := by
  obtain ⟨n, root, inner⟩ := valid.root
  obtain ⟨o, found, rfl⟩ := exists_of_node root
  obtain ⟨sched, stop, mailbox, body⟩ := o
  cases body with
  | actor a => cases inner
  | group g => exact ⟨sched, stop, mailbox, g, found⟩

/-- The root, where a message has found no entry and the system runs. -/
theorem root_of_unknown (valid : s.tree.Valid) (unknown : s.entry [] k = none)
    (running : s.rootStopping = false) :
    ∃ o, s.objs [] = some o ∧ o.isGroup = true ∧ o.entry k = none ∧ o.stopping = false := by
  obtain ⟨n, root, group⟩ := valid.root
  obtain ⟨o, found, rfl⟩ := exists_of_node root
  refine ⟨o, found, group, ?_, ?_⟩
  · simpa [entry, found] using unknown
  · simpa [rootStopping, found] using running

theorem grows_receive {addr : List ActorKey} {m : ActorMessage} {s' : Shard}
    (valid : s.tree.Valid) (received : s.receive addr m = some s') : Grows s s' := by
  have looked {t t' : Shard} {k : ActorKey} {keys : List ActorKey} {found : Option Path}
      (lookup : t.getActorLocal [k] keys = (t', found)) : Grows t t' := by
    have grows := @grows_getActorLocal t [k] (List.cons_ne_nil k []) keys
    rwa [lookup] at grows
  cases receives received with
  | reply type => exact .of_eq rfl
  | stopSystem force asked => exact grows_stopActorSystem valid force m
  | stopped k keys entry => exact .of_eq (tree_stoppedActorEnqueue ..)
  | found k keys t q entry lookup => exact (looked lookup).trans (.of_eq (tree_enque ..))
  | lost k keys t entry lookup =>
    exact (looked lookup).trans (.of_eq (tree_stoppedActorEnqueue ..))
  | closed k keys unknown stopping => exact .of_eq (tree_stoppedActorEnqueue ..)
  | created k keys t q unknown running lookup =>
    obtain ⟨o, found, group, unknown', running'⟩ := root_of_unknown valid unknown running
    exact (grows_createChild found group unknown' (fun _ => running')).trans
      ((looked lookup).trans (.of_eq (tree_enque ..)))

/-! ## Runs -/

theorem tree_notifyChildStopped (found : s.objs p = some o) (group : o.isGroup = true) :
    (s.notifyChildStopped p).tree =
      { s.tree with
        node := Function.update s.tree.node p (some o.node.drop) } := by
  have nodes := node_tree_update s p (·.mapGroup .drop)
  rw [found, Option.map_some, ActorObject.node_drop _ group] at nodes
  have counted : (s.update p (·.mapGroup .drop)).tree =
      { s.tree with
        node := Function.update s.tree.node p (some o.node.drop) } := by
    refine Eq.trans ?_ (congrArg (fun node => { s.tree with node := node }) nodes)
    rfl
  unfold notifyChildStopped
  simp only
  split
  · rw [tree_emit _ rfl, counted]
  · exact counted

theorem tree_acknowledge (g : GroupBody) :
    (s.acknowledge p k g).tree = (s.notifyChildStopped p).tree := by
  unfold acknowledge
  split
  · rw [tree_emit _ rfl]
  · rfl

theorem tree_destroy :
    (s.destroy p).tree =
      { s.tree with
        node := Function.update s.tree.node p none
        removed := s.tree.removed ++ [p] } := by
  have nodes : (s.destroy p).tree.node = Function.update s.tree.node p none := by
    funext q
    show (Function.update s.objs p none q).map _ = _
    rw [Function.update_apply, Function.update_apply]
    split <;> rfl
  rw [← nodes]
  simp [tree, destroy]

/-- An object is destroyed after it has stopped, and a group when it has no children. -/
theorem refines_destroy {s' : Shard} (valid : s.tree.Valid) (found : s.objs (k :: p) = some o)
    (stopping : o.stopping = true) (empty : o.isGroup = true → o.children = 0)
    (idle : s.stops = []) (notified : s'.tree = (s.notifyChildStopped p).tree) :
    Refines s (s'.destroy (k :: p)) := by
  obtain ⟨n, parent, group⟩ := valid.parent (node_tree found)
  obtain ⟨q, stored, rfl⟩ := exists_of_node parent
  have ended : s.tree.ending = [] := by
    show cleanPaths s.stops = []
    rw [idle]
    rfl
  have result : (s'.destroy (k :: p)).tree =
      { s.tree with
        node := Function.update
          (Function.update s.tree.node p (some q.node.drop)) (k :: p) none
        removed := s.tree.removed ++ [k :: p] } := by
    rw [tree_destroy, notified, tree_notifyChildStopped stored group]
  unfold Refines
  rw [result]
  exact .remove k p .refl (.remove (node_tree stored) (node_tree found) stopping empty ended)

theorem refines_finishGroup {s' : Shard} (valid : s.tree.Valid) (idle : s.stops = [])
    (finished : s.finishGroup p k = some s') : Refines s s' := by
  cases finishesGroup finished with
  | ends sched stop mailbox g found ends childless =>
    exact refines_destroy (s := s.leave) valid found ends.1 (fun _ => childless) idle
      (tree_acknowledge g)
  | stays sched stop mailbox g found lives =>
    refine (Grows.of_eq ?_).refines
    have scheduled : (s.leave.update (k :: p) (·.setSched .schedulable)).tree = s.tree :=
      tree_update _ _ (fun _ _ => ActorObject.node_setSched ..)
    split
    · rw [tree_activate, scheduled]
    · exact scheduled

theorem refines_finishActor {s' : Shard} (valid : s.tree.Valid) (idle : s.stops = [])
    (finished : s.finishActor p k = some s') : Refines s s' := by
  cases finishesActor finished with
  | ends sched stop mailbox a found ends =>
    exact refines_destroy (s := s.leave) valid found ends.1 (fun group => by cases group) idle rfl
  | stays sched stop mailbox a found lives =>
    refine (Grows.of_eq ?_).refines
    have scheduled : (s.leave.update (k :: p) (·.setSched .schedulable)).tree = s.tree :=
      tree_update _ _ (fun _ _ => ActorObject.node_setSched ..)
    split
    · rw [tree_activate, scheduled]
    · exact scheduled

theorem grows_enterChild {s' : Shard} {i : Nat} (entered : s.enterChild p i = some s') :
    Grows s s' := by
  cases entersChild entered with
  | enters sched stop mailbox g k o found listed child =>
    refine .of_eq ?_
    have taken : (s.update p (·.setActors (·.eraseIdx i))).tree = s.tree :=
      tree_update _ _ (fun _ _ => ActorObject.node_setActors ..)
    split
    · exact (tree_update _ _ (fun _ _ => ActorObject.node_setTasks ..)).trans taken
    · exact taken

theorem stops_stopGroup (force : Bool) : (s.stopGroup p force).stops = s.stops := by
  have told (s : Shard) : (s.stopAllChildren p force).stops = s.stops := by
    refine stopAllChildren_induction (motive := fun t => t.stops = s.stops) s p rfl ?_
    intro t k same
    simp [enqueUrgentMessage, same]
  have cleaned (s : Shard) : (s.cleanMailbox p).stops = s.stops := by
    unfold cleanMailbox
    split <;> rfl
  unfold stopGroup
  split
  · split
    · rfl
    · cases force <;> simp only [Bool.false_eq_true, if_false, if_true] <;> split <;>
        simp [told, cleaned]
  · rfl

theorem stops_stopChildActor (group : o.isGroup = true) (child : s.objs (k :: p) = some o)
    (force : Bool) : (s.stopChildActor p k force).stops = s.stops := by
  unfold stopChildActor
  split
  · rename_i o' reached child'
    obtain rfl := Option.some.inj (child.symm.trans child')
    rw [if_pos group]
    exact stops_stopGroup force
  · rfl

theorem grows_obeyStop (m : ActorMessage) (mailbox : List ActorMessage) :
    Grows s (s.obeyStop p k m mailbox) := by
  let s₁ := s.update (k :: p) (·.setMailbox mailbox)
  let s₂ := s₁.stopChildActor p k (m.type == .forceStop)
  have taken : s₁.tree = s.tree := tree_update _ _ (fun _ _ => ActorObject.node_setMailbox ..)
  have remembered : (s.obeyStop p k m mailbox).tree = s₂.tree := by
    refine (tree_reclaim ..).trans (tree_update _ _ (fun o _ => ?_))
    cases o with
    | mk sched stop mailbox body => cases body <;> rfl
  exact (Grows.of_eq taken).trans ((grows_stopChildActor _).trans (.of_eq remembered))

theorem stops_obeyStop {sched : SchedStatus} {stop : ActorStatus} {m : ActorMessage}
    {mailbox : List ActorMessage} {g : GroupBody}
    (found : s.objs (k :: p) = some ⟨sched, stop, m :: mailbox, .group g⟩) :
    (s.obeyStop p k m mailbox).stops = s.stops := by
  have taken : (s.update (k :: p) (·.setMailbox mailbox)).objs (k :: p) =
      some ⟨sched, stop, mailbox, .group g⟩ := by
    simp [found, ActorObject.setMailbox]
  exact stops_stopChildActor rfl taken _

theorem refines_groupMail {s' : Shard} {needYield : Bool} (valid : s.tree.Valid)
    (idle : s.stops = []) (handled : s.groupMail p k needYield = some s') : Refines s s' := by
  cases handlesGroupMail handled with
  | none sched stop g found => exact (Grows.of_eq rfl).refines
  | yields sched stop m mailbox g found isStop finished =>
    have obeyed : Grows s (s.obeyStop p k m mailbox) := grows_obeyStop m mailbox
    have idle' : (s.obeyStop p k m mailbox).stops = [] := (stops_obeyStop found).trans idle
    exact obeyed.trans_refines (refines_finishGroup (obeyed.valid valid) idle' finished)
  | goesOn sched stop m mailbox g found isStop => exact (grows_obeyStop m mailbox).refines

theorem refines_groupTasks {s' : Shard} {i : Nat} (valid : s.tree.Valid) (idle : s.stops = [])
    (ran : s.groupTasks p k i = some s') : Refines s s' := by
  cases runsGroupTasks ran with
  | none sched stop mailbox g found none finished => exact refines_finishGroup valid idle finished
  | enters sched stop mailbox g found waiting entered =>
    exact ((Grows.of_eq (tree_setPc ..)).trans (grows_enterChild entered)).refines

theorem grows_actorTasks {s' : Shard} (ran : s.actorTasks p k = some s') : Grows s s' := by
  cases runsActorTasks ran with
  | next sched stop mailbox a found task tasks front =>
    refine .trans (.of_eq ?_) (grows_runTask task)
    rw [tree_setPc, tree_update]
    exact fun _ _ => ActorObject.node_setTasks ..
  | full sched stop mailbox a found none full =>
    refine .of_eq ?_
    rw [tree_leave, tree_update]
    exact fun _ _ => ActorObject.node_setSched ..
  | opens sched stop mailbox a found none free => exact .of_eq rfl

theorem refines_actorMail {s' : Shard} (valid : s.tree.Valid) (idle : s.stops = [])
    (handled : s.actorMail p k = some s') : Refines s s' := by
  have taken (mailbox : List ActorMessage) :
      (s.update (k :: p) (·.setMailbox mailbox)).tree = s.tree :=
    tree_update _ _ (fun _ _ => ActorObject.node_setMailbox ..)
  cases handlesActorMail handled with
  | none sched stop a found finished => exact refines_finishActor valid idle finished
  | starts sched stop m mailbox a found user =>
    refine (Grows.of_eq ?_).refines
    rw [tree_emit _ rfl, tree_setPc, taken]
  | stops sched stop m mailbox a found force asked =>
    have obeyed : Grows s ((((s.update (k :: p) (·.setMailbox mailbox)).setPc
        .worked).stopChildActor p k force).reclaim m) :=
      (Grows.of_eq ((tree_setPc ..).trans (taken mailbox))).trans
        ((grows_stopChildActor force).trans (.of_eq (tree_reclaim ..)))
    exact obeyed.refines

/-- A method is done: its response is sent, if there is one, and its message reclaimed. -/
def worked (s : Shard) (p : Path) (m : ActorMessage) : Option Bool → Shard
  | some failed => ((s.emit (.sent p (m.reply failed))).setPc .worked).reclaim m
  | none => (s.setPc .worked).reclaim m

theorem workDone_eq {s' : Shard} {m : ActorMessage} {reply : Option Bool} {state : WorkState}
    (done : s.workDone p k m reply state = some s') :
    s' = if state = .yes then (s.worked (k :: p) m reply).stopChildActor p k true
      else s.worked (k :: p) m reply := by
  unfold workDone at done
  split at done
  · obtain rfl := Option.some.inj done
    cases reply with
    | none => rfl
    | some failed => rfl
  · cases done

theorem tree_worked (p : Path) (m : ActorMessage) (reply : Option Bool) :
    (s.worked p m reply).tree = s.tree := by
  cases reply with
  | none => exact (tree_reclaim ..).trans (tree_setPc ..)
  | some failed => exact (tree_reclaim ..).trans ((tree_setPc ..).trans (tree_emit _ rfl))

theorem grows_workDone {s' : Shard} {m : ActorMessage} {reply : Option Bool} {state : WorkState}
    (done : s.workDone p k m reply state = some s') : Grows s s' := by
  have ended : Grows s (s.worked (k :: p) m reply) := .of_eq (tree_worked ..)
  rw [workDone_eq done]
  split
  · exact ended.trans (grows_stopChildActor true)
  · exact ended

theorem refines_workPending {s' : Shard} {m : ActorMessage} (valid : s.tree.Valid)
    (idle : s.stops = []) (pending : s.workPending p k m = some s') : Refines s s' := by
  have flying : (s.update (k :: p) (·.mapActor fun a => { a with
      curConcurrency := a.curConcurrency + 1, inFlight := a.inFlight ++ [m] })).tree = s.tree :=
    tree_update _ _ (fun _ _ => ActorObject.node_mapActor ..)
  obtain ⟨sched, stop, mailbox, a, found, ⟨full, pending⟩ | ⟨free, rfl⟩⟩ :=
    workPending_cases pending
  · refine (Grows.of_eq flying).trans_refines (refines_finishActor (flying ▸ valid) ?_ pending)
    exact idle
  · exact (Grows.of_eq flying).refines

theorem grows_cleanNext {s' : Shard} {running : Bool} {rest : List StopFrame}
    (valid : s.tree.Valid) (top : s.stops = .clean (k :: p) running :: rest)
    (cleaned : s.cleanNext p k rest = some s') : Grows s s' := by
  cases cleansNext cleaned with
  | next sched stop mailbox a found task tasks _ =>
    refine .trans (.of_eq ?_) (grows_runTask task)
    rw [tree_setStops, tree_update _ _ (fun _ _ => ActorObject.node_setTasks ..)]
    simp [tree, top, cleanPaths]
  | ends sched stop mailbox a found none =>
    obtain ⟨n, parent, group⟩ := valid.parent (node_tree found)
    obtain ⟨q, stored, rfl⟩ := exists_of_node parent
    have ended : ({ s with stops := rest }.activateIdle (k :: p)).tree =
        { s.tree with ending := cleanPaths rest } := by
      rw [tree_activateIdle, tree_setStops]
    obtain ⟨q', stored', same⟩ := exists_of_node
      ((congrFun (congrArg LifeTree.node ended) p).trans (node_tree stored))
    have last : s.tree.ending = (k :: p) :: cleanPaths rest := by
      simp [tree, top, cleanPaths]
    refine .single (.endStop (node_tree stored) last) ?_
    rw [tree_disable stored' ((congrArg TreeNode.inner same).trans group), ended, same]

theorem grows_stopSystemEnd {s' : Shard} {force : Bool} {m : ActorMessage}
    {rest : List StopFrame} (top : s.stops = .stopSystem force m :: rest)
    (ended : s.stopSystemEnd m rest = some s') : Grows s s' := by
  have same : { s with stops := rest }.tree = s.tree := by
    simp [tree, top, cleanPaths]
  cases endsSystem ended with
  | ends sched stop mailbox g root closed =>
    refine .of_eq ((tree_reclaim ..).trans ?_)
    split
    · rw [tree_emit _ rfl, same]
    · exact same

theorem grows_complete {s' : Shard} {i : Nat} {reply : Option Bool} {state : WorkState}
    (completed : s.complete p i reply state = some s') : Grows s s' := by
  cases completes completed with
  | lands sched stop mailbox a found m flying =>
    have landed : (s.update p (·.mapActor fun a => { a with
        inFlight := a.inFlight.eraseIdx i })).tree = s.tree :=
      tree_update _ _ (fun _ _ => ActorObject.node_mapActor ..)
    exact .of_eq ((tree_addTask ..).trans landed)

theorem grows_userStep {s' : Shard} {label : Label} (valid : s.tree.Valid)
    (taken : s.userStep label = some s') : Grows s s' := by
  cases label with
  | receive addr type srcShardId prId =>
    obtain ⟨s₁, received, rfl⟩ := Option.map_eq_some_iff.mp taken
    exact (grows_receive valid received).trans (.of_eq rfl)
  | addTask p urgent =>
    obtain ⟨-, rfl⟩ := addTask_cases taken
    exact .of_eq (tree_addTask ..)
  | complete p i reply state => exact grows_complete taken
  | setMaxConcurrency p concurrency =>
    obtain rfl := Option.some.inj taken
    exact .of_eq (tree_update _ _ (fun _ _ => ActorObject.node_mapActor ..))
  | dispatch | advance | workDone | workPending | stopNext => cases taken

theorem refines_runStep {s' : Shard} {frame : RunFrame} {label : Label} (valid : s.tree.Valid)
    (idle : s.stops = []) (taken : s.runStep frame label = some s') : Refines s s' := by
  cases takesRunStep taken with
  | groupMail p k needYield i handled => exact refines_groupMail valid idle handled
  | groupTasks p k needYield i ran => exact refines_groupTasks valid idle ran
  | groupYields p k i finished => exact refines_finishGroup valid idle finished
  | actorTasks p k needYield i ran => exact (grows_actorTasks ran).refines
  | taskYields p k i finished => exact refines_finishActor valid idle finished
  | actorMail p k needYield i handled => exact refines_actorMail valid idle handled
  | workDone p k m reply state done => exact (grows_workDone done).refines
  | workPending p k m pending => exact refines_workPending valid idle pending
  | workYields p k i finished => exact refines_finishActor valid idle finished
  | groupGoesOn | taskGoesOn | workGoesOn => exact (Grows.of_eq rfl).refines

theorem grows_stopStep {s' : Shard} {frame : StopFrame} {rest : List StopFrame} {label : Label}
    (valid : s.tree.Valid) (top : s.stops = frame :: rest)
    (taken : s.stopStep frame rest label = some s') : Grows s s' := by
  cases takesStopStep taken with
  | cleanNext p k running needYield i cleaned => exact grows_cleanNext valid top cleaned
  | stopNext force m k entry => exact grows_stopChildActor _
  | stopSystemEnd force needYield m i ended => exact grows_stopSystemEnd top ended

/-- Every step of a shard is a sequence of transitions of its tree. -/
theorem refines_step {s' : Shard} {label : Label} (valid : s.tree.Valid)
    (taken : s.step label = some s') : Refines s s' := by
  cases takesStep taken with
  | user isUser point acted => exact (grows_userStep valid acted).refines
  | stop frame rest isUser top went => exact (grows_stopStep valid top went).refines
  | run frame rest isUser idle runs went => exact refines_runStep valid idle went
  | dispatch i idle runs entered => exact (grows_enterChild entered).refines

theorem tree_init (limitOf : ActorKey → Nat) :
    (init limitOf).tree = .rootOnly ActorKey.isGroup := by
  have nodes : (init limitOf).tree.node =
      (LifeTree.rootOnly ActorKey.isGroup : LifeTree ActorKey).node := by
    funext p
    show Option.map _ (if p = [] then _ else _) = if p = [] then _ else _
    split <;> rfl
  simp only [LifeTree.rootOnly] at nodes ⊢
  rw [← nodes]
  rfl

/-- The tree of every reachable state is valid. -/
theorem valid_of_reachable {limitOf : ActorKey → Nat} {s : Shard}
    (reachable : Reachable step (init limitOf) s) : s.tree.Valid := by
  obtain ⟨labels, ran⟩ := reachable
  refine run_invariant (fun s => s.tree.Valid) ?_ labels (init limitOf) s ?_ ran
  · exact fun s label s' valid taken => valid.steps (refines_step valid taken)
  · rw [tree_init]
    exact LifeTree.valid_rootOnly _

/-! ## Few children -/

/-- No object has `2 ^ 32` children at once. -/
def FewChildren (s : Shard) : Prop :=
  ∀ (p : Path) (keys : List ActorKey), keys.Nodup →
    (∀ k ∈ keys, (s.objs (k :: p)).isSome = true) → keys.length < 2 ^ 32

/-- The step leads to a state with few children. -/
def KeepsFew (s : Shard) (label : Label) : Prop := ∀ s', s.step label = some s' → s'.FewChildren

theorem FewChildren.children_lt (few : s.FewChildren) (valid : s.tree.Valid)
    (found : s.objs p = some o) : o.children < 2 ^ 32 := by
  obtain ⟨keys, nodup, members, length⟩ := valid.count (node_tree found)
  have less := few p keys nodup fun k member => isSome_node.symm.trans ((members k).mp member)
  have count : (keys.length : Int) = o.children := length
  omega

/-- The counter of an object is the number of its children, when they are few. -/
theorem FewChildren.toNat_counter (few : s.FewChildren) (valid : s.tree.Valid)
    (found : s.objs p = some o) : (o.numActorsManaged.toNat : Int) = o.children := by
  have nonneg := children_nonneg valid found
  have less := few.children_lt valid found
  rw [o.counted, UInt32.ofInt, UInt32.toNat_ofNat']
  omega

theorem FewChildren.counter_eq_zero (few : s.FewChildren) (valid : s.tree.Valid)
    (found : s.objs p = some o) : o.numActorsManaged = 0 ↔ o.children = 0 := by
  have same := few.toNat_counter valid found
  rw [← UInt32.toNat_inj]
  simp only [UInt32.toNat_zero]
  omega

theorem fewChildren_init (limitOf : ActorKey → Nat) : (init limitOf).FewChildren := by
  intro p keys nodup live
  cases keys with
  | nil => exact Nat.two_pow_pos 32
  | cons k keys => cases live k List.mem_cons_self

theorem fewChildren_of_created (valid : s.tree.Valid)
    (short : s.tree.created.length < 2 ^ 32) : s.FewChildren := by
  intro p keys nodup live
  exact (valid.length_le_created nodup fun k member =>
    isSome_node.trans (live k member)).trans_lt short

/-- The groups have few children all along a run that has created few objects at its end. -/
theorem keepsFew_of_created {limitOf : ActorKey → Nat} {labels : List Label}
    (ran : run step (init limitOf) labels = some s) (short : s.tree.created.length < 2 ^ 32) :
    StepsMeet step KeepsFew (init limitOf) labels := by
  have valid : (init limitOf).tree.Valid := tree_init limitOf ▸ LifeTree.valid_rootOnly _
  have along (labels : List Label) (t : Shard) (valid : t.tree.Valid)
      (ran : run step t labels = some s) :
      t.tree.created.length ≤ s.tree.created.length ∧ StepsMeet step KeepsFew t labels := by
    induction labels generalizing t with
    | nil =>
      obtain rfl := Option.some.inj ran
      exact ⟨le_rfl, trivial⟩
    | cons label labels ih =>
      obtain ⟨t', taken, rest⟩ := run_cons_eq_some.mp ran
      have steps := refines_step valid taken
      obtain ⟨more, meets⟩ := ih t' (valid.steps steps) rest
      refine ⟨(LifeTree.extends_of_steps steps).created.length_le.trans more, ?_⟩
      refine (stepsMeet_cons taken).mpr ⟨fun u taken' => ?_, meets⟩
      obtain rfl := Option.some.inj (taken.symm.trans taken')
      exact fewChildren_of_created (valid.steps steps) (more.trans_lt short)
  exact (along labels _ valid ran).2

theorem reachedBy_of_created {limitOf : ActorKey → Nat} {labels : List Label}
    (ran : run step (init limitOf) labels = some s) (short : s.tree.created.length < 2 ^ 32) :
    ReachedBy step KeepsFew (init limitOf) s := ⟨labels, keepsFew_of_created ran short, ran⟩

theorem fewChildren_of_reached {limitOf : ActorKey → Nat}
    (reached : ReachedBy step KeepsFew (init limitOf) s) : s.FewChildren :=
  reached.invariant FewChildren (fun _ _ _ _ keeps taken => keeps _ taken)
    (fewChildren_init limitOf)

end Shard

end Hiactor
