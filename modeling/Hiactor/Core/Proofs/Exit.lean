import Hiactor.Core.Proofs.Crowd
import Hiactor.Core.Proofs.ShardMoves
import Hiactor.Core.Proofs.ShardRouting

/-!
# The exit barrier

`wait_others_and_exit` is called at the end of `stop_actor_system`, or by the last child of the root
that stops. As long as the root has fewer than `2 ^ 32` children it is called once, when nothing is
left on the shard.
-/

namespace Hiactor

open Lib

namespace Shard

/-- `_num_actors_managed` of the root. -/
def managed (s : Shard) : UInt32 := (s.objs []).elim 0 ActorObject.numActorsManaged

/-- The number of the children of the root. -/
def rootChildren (s : Shard) : Int := (s.objs []).elim 0 ActorObject.children

/-- The number of calls of `wait_others_and_exit`. -/
def exits (s : Shard) : Nat := s.log.count .exited

variable {s s' : Shard} {label : Label} {k : ActorKey} {p : Path}

theorem closed_iff (valid : s.tree.Valid) (live : Int) :
    s.tree.Closed live ↔ s.rootStopping = true ∧ s.rootChildren = live := by
  obtain ⟨n, root, -⟩ := valid.root
  obtain ⟨o, found, rfl⟩ := exists_of_node root
  have stopping : s.rootStopping = o.stopping := by simp [rootStopping, found]
  have count : s.rootChildren = o.children := by simp [rootChildren, found]
  rw [stopping, count]
  constructor
  · rintro ⟨m, root', stopped, same⟩
    obtain rfl := Option.some.inj (root.symm.trans root')
    exact ⟨stopped, same⟩
  · rintro ⟨stopped, same⟩
    exact ⟨o.node, root, stopped, same⟩

theorem rootStopping_of_cores (same : s'.cores [] = s.cores []) :
    s'.rootStopping = s.rootStopping := by
  have read (t : Shard) : t.rootStopping = (t.cores []).any (·.status != .running) := by
    unfold rootStopping cores
    cases t.objs [] <;> rfl
  rw [read, read, same]

/-- The tests of the counter of the root find out whether it has children. -/
theorem managed_eq_zero (valid : s.tree.Valid) (few : s.FewChildren) :
    s.managed = 0 ↔ s.rootChildren = 0 := by
  obtain ⟨n, root, -⟩ := valid.root
  obtain ⟨o, found, -⟩ := exists_of_node root
  simp only [managed, rootChildren, found, Option.elim_some]
  exact few.counter_eq_zero valid found

/-- An object below the root makes the root count a child. -/
theorem rootChildren_ne_zero {o : ActorObject} (valid : s.tree.Valid)
    (found : s.objs (k :: p) = some o) (stopping : s.rootStopping = true) :
    s.rootChildren ≠ 0 := by
  intro zero
  have absent := valid.alone ((closed_iff valid 0).mpr ⟨stopping, zero⟩) (List.cons_ne_nil k p)
  rw [node_tree found] at absent
  cases absent

/-! ## The log -/

/-- A step without destructions only lets the tree grow. -/
theorem grows_of_quiet (refines : Refines s s') (quiet : Quiet s s') : Grows s s' := by
  cases refines with
  | grow grows => exact grows
  | remove k p grows removes =>
    obtain ⟨new, log, silent⟩ := quiet
    have same : s'.tree.removed = s.tree.removed := by
      simp only [tree, log, List.filterMap_append, List.append_right_eq_self]
      refine List.filterMap_eq_nil_iff.mpr fun e member => ?_
      cases e with
      | destroyed p => cases silent _ member
      | _ => rfl
    have more := LifeTree.removed_of_remove removes
    rw [LifeTree.removed_of_grows grows, same] at more
    simp at more

/-- What the tree did not create is not in the log. -/
theorem not_created {new : List Event} (log : s'.log = s.log ++ new)
    (same : s'.tree.created = s.tree.created) (p : Path) : .created p ∉ new := by
  intro member
  simp only [tree, log, List.filterMap_append, List.append_right_eq_self] at same
  cases List.filterMap_eq_nil_iff.mp same _ member

/-- Nothing is created after the exit. -/
def NoneCreated (s : Shard) : Prop :=
  ∀ before after, s.log = before ++ .exited :: after → ∀ p, .created p ∉ after

theorem NoneCreated.append {new : List Event} (none : s.NoneCreated) (log : s'.log = s.log ++ new)
    (late : .exited ∈ s.log → ∀ p, .created p ∉ new)
    (now : ∀ before after, new = before ++ .exited :: after → ∀ p, .created p ∉ after) :
    s'.NoneCreated := by
  intro before after split p
  rw [log] at split
  rcases List.append_eq_append_iff.mp split with ⟨front, rfl, rest⟩ | ⟨tail, old, rest⟩
  · exact now front after rest p
  · cases tail with
    | nil => exact now [] after rest.symm p
    | cons e tail =>
      obtain ⟨rfl, rfl⟩ := List.cons.inj rest
      intro member
      rcases List.mem_append.mp member with early | recent
      · exact none before tail old p early
      · exact late (by rw [old]; simp) p recent

/-! ## Steps -/

/-- The barrier is entered once, after the loop of `stop_actor_system` and when the root has no
children. -/
structure ExitOnce (s : Shard) : Prop where
  valid : s.tree.Valid
  ending : [] ∉ s.tree.ending
  running : s.rootStopping = false → s.exits = 0 ∧ s.systemStops = 0
  busy : s.rootStopping = true → s.rootChildren ≠ 0 → s.exits = 0 ∧ s.systemStops ≤ 1
  alone : s.rootStopping = true → s.rootChildren = 0 → s.exits + s.systemStops = 1
  late : s.NoneCreated

theorem ExitOnce.of_exited (once : ExitOnce s) (exited : .exited ∈ s.log) :
    s.rootStopping = true ∧ s.rootChildren = 0 := by
  have some : s.exits ≠ 0 := Nat.pos_iff_ne_zero.mp (List.count_pos_iff.mpr exited)
  have stopping : s.rootStopping = true := by
    by_contra running
    exact some (once.running (by simpa using running)).1
  refine ⟨stopping, ?_⟩
  by_contra live
  exact some (once.busy stopping live).1

theorem ExitOnce.empty (once : ExitOnce s) (closed : s.rootStopping = true)
    (zero : s.rootChildren = 0) {q : Path} (child : q ≠ []) : s.objs q = none := by
  have absent := once.valid.alone ((closed_iff once.valid 0).mpr ⟨closed, zero⟩) child
  exact Option.map_eq_none_iff.mp absent

/-- The tree grows, and the barrier is not entered. -/
theorem ExitOnce.grow {new : List Event} (once : ExitOnce s) (grows : Grows s s')
    (root : s'.cores [] = s.cores []) (stops : s'.systemStops = s.systemStops)
    (log : s'.log = s.log ++ new) (silent : .exited ∉ new) : ExitOnce s' := by
  have valid' := grows.valid once.valid
  have stopping := rootStopping_of_cores root
  have exits : s'.exits = s.exits := by
    rw [Shard.exits, log, List.count_append, List.count_eq_zero.mpr silent, Nat.add_zero]
    rfl
  have count (closed : s.rootStopping = true) : s'.rootChildren = s.rootChildren := by
    have before : s.tree.Closed s.rootChildren := (closed_iff once.valid _).mpr ⟨closed, rfl⟩
    exact ((closed_iff valid' _).mp (before.grows grows)).2
  refine ⟨valid', LifeTree.ending_of_grows grows once.ending, ?_, ?_, ?_, ?_⟩
  · rw [stopping, exits, stops]
    exact once.running
  · rw [stopping, exits, stops]
    exact fun closed live => once.busy closed (count closed ▸ live)
  · rw [stopping, exits, stops]
    exact fun closed zero => once.alone closed (count closed ▸ zero)
  · refine once.late.append log (fun exited => ?_) (fun before after split => ?_)
    · obtain ⟨closed, zero⟩ := once.of_exited exited
      exact not_created log (once.valid.created_of_grows
        ((closed_iff once.valid 0).mpr ⟨closed, zero⟩) grows)
    · exact absurd (by rw [split]; simp) silent

theorem ExitOnce.quiet {isOpen : Path → Prop} (once : ExitOnce s) (grows : Grows s s')
    (evolves : Evolves isOpen s s') : ExitOnce s' := by
  obtain ⟨new, log, silent⟩ := evolves.quiet
  exact once.grow grows evolves.root evolves.stops log fun member => nomatch silent _ member

/-- A child of the object at `p` is destroyed. -/
structure ChildEnds (s s' : Shard) (p : Path) : Prop where
  stopping : s'.rootStopping = s.rootStopping
  children : s'.rootChildren = if p = [] then s.rootChildren - 1 else s.rootChildren
  stops : s'.systemStops = s.systemStops
  log : ∃ tail, s'.log = s.log ++
      (if p = [] ∧ s'.managed = 0 ∧ s'.rootStopping = true then [.exited] else []) ++ tail ∧
    ∀ e ∈ tail, e ≠ .exited ∧ ∀ q, e ≠ .created q

theorem ends_notifyChildStopped (valid : s.tree.Valid) :
    ChildEnds s (s.notifyChildStopped p) p := by
  obtain ⟨n, root, group⟩ := valid.root
  obtain ⟨o, found, rfl⟩ := exists_of_node root
  let s₁ := s.update p (·.mapGroup .drop)
  have objs : (s.notifyChildStopped p).objs = s₁.objs := by
    unfold notifyChildStopped
    simp only
    split
    · rfl
    · rfl
  have live : s₁.rootChildren = if p = [] then s.rootChildren - 1 else s.rootChildren := by
    by_cases here : p = []
    · subst here
      rw [if_pos rfl, rootChildren, objs_update_self, found, Option.map_some]
      simp only [rootChildren, found, Option.elim_some]
      exact congrArg TreeNode.live (o.node_drop group)
    · rw [if_neg here, rootChildren, objs_update_ne _ _ _ (Ne.symm here)]
      rfl
  have children' : (s.notifyChildStopped p).rootChildren = s₁.rootChildren := by
    unfold rootChildren
    rw [objs]
  have managed' : (s.notifyChildStopped p).managed = s₁.managed := by
    unfold managed
    rw [objs]
  have stopping' : (s.notifyChildStopped p).rootStopping = s₁.rootStopping := by
    unfold rootStopping
    rw [objs]
  refine ⟨rootStopping_of_cores (congrFun cores_notifyChildStopped []), children'.trans live, ?_,
    [], ?_, fun _ member => nomatch member⟩
  · unfold notifyChildStopped
    simp only
    split
    · rfl
    · rfl
  · rw [managed', stopping', List.append_nil]
    unfold notifyChildStopped
    simp only
    by_cases here : p = []
    · subst here
      have test : (s₁.objs []).any (fun o => o.numActorsManaged == 0 && o.stopping) = true ↔
          s₁.managed = 0 ∧ s₁.rootStopping = true := by
        unfold managed rootStopping
        rw [objs_update_self, found]
        simp
      by_cases last : s₁.managed = 0 ∧ s₁.rootStopping = true
      · rw [if_pos ⟨rfl, test.mpr last⟩, if_pos ⟨rfl, last⟩]
        rfl
      · rw [if_neg (fun both => last (test.mp both.2)), if_neg (fun both => last both.2),
          List.append_nil]
        rfl
    · rw [if_neg (fun both => here both.1), if_neg (fun both => here both.1), List.append_nil]
      rfl

/-- What happens to the child afterwards. -/
theorem ChildEnds.more {t : Shard} {e : Event} (ends : ChildEnds s t p)
    (root : s'.objs [] = t.objs [])
    (stops : s'.stops = t.stops) (log : s'.log = t.log ++ [e]) (other : e ≠ .exited)
    (none : ∀ q, e ≠ .created q) : ChildEnds s s' p := by
  have managed' : s'.managed = t.managed := by rw [Shard.managed, root, Shard.managed]
  have children' : s'.rootChildren = t.rootChildren := by
    rw [rootChildren, root, rootChildren]
  have stopping' : s'.rootStopping = t.rootStopping := by rw [rootStopping, root, rootStopping]
  obtain ⟨tail, log', quiet⟩ := ends.log
  refine ⟨stopping'.trans ends.stopping, children'.trans ends.children, ?_, tail ++ [e],
    ?_, ?_⟩
  · rw [systemStops, stops]
    exact ends.stops
  · rw [managed', stopping', log, log', List.append_assoc]
  · intro e' member
    rcases List.mem_append.mp member with early | last
    · exact quiet e' early
    · rw [List.mem_singleton.mp last]
      exact ⟨other, none⟩

theorem ChildEnds.destroy {t : Shard} {q : Path} (ends : ChildEnds s t p) :
    ChildEnds s (t.destroy (k :: q)) p := by
  refine ends.more ?_ rfl rfl (by simp) (by simp)
  exact Function.update_of_ne (List.cons_ne_nil k q).symm none t.objs

theorem ExitOnce.ends {o : ActorObject} (once : ExitOnce s) (idle : s.stops = [])
    (found : s.objs (k :: p) = some o) (valid : s'.tree.Valid) (ending : [] ∉ s'.tree.ending)
    (few : s'.FewChildren) (ends : ChildEnds s s' p) : ExitOnce s' := by
  have zero : s.systemStops = 0 := by rw [systemStops, idle, List.countP_nil]
  have before : s.exits = 0 := by
    cases closed : s.rootStopping with
    | false => exact (once.running closed).1
    | true => exact (once.busy closed (rootChildren_ne_zero once.valid found closed)).1
  have fresh : .exited ∉ s.log := List.count_eq_zero.mp before
  obtain ⟨tail, log, quiet⟩ := ends.log
  have later : tail.count .exited = 0 :=
    List.count_eq_zero.mpr fun member => (quiet _ member).1 rfl
  have exits : s'.exits =
      if p = [] ∧ s'.rootChildren = 0 ∧ s'.rootStopping = true then 1 else 0 := by
    unfold Shard.exits at before ⊢
    simp only [managed_eq_zero valid few] at log
    rw [log, List.count_append, List.count_append, before, later]
    split
    · rfl
    · rfl
  refine ⟨valid, ending, fun running => ?_, fun closed live => ?_, fun closed none => ?_, ?_⟩
  · rw [exits, if_neg (by simp [running]), ends.stops, zero]
    exact ⟨rfl, rfl⟩
  · rw [exits, if_neg (fun last => live last.2.1), ends.stops, zero]
    exact ⟨rfl, Nat.zero_le 1⟩
  · -- the root counted a child, so that the child that is gone was its last one
    have top : p = [] := by
      by_contra below
      have same := ends.children
      rw [if_neg below, none] at same
      exact rootChildren_ne_zero once.valid found (ends.stopping ▸ closed) same.symm
    rw [exits, if_pos ⟨top, none, closed⟩, ends.stops, zero]
  · rw [List.append_assoc] at log
    refine once.late.append log (fun exited => absurd exited fresh) (fun front after split => ?_)
    intro q member
    have inTail : ∀ e ∈ after, e ∈ tail := by
      intro e there
      split at split
      · cases front with
        | nil =>
          obtain rfl : tail = after := (List.cons.inj split).2
          exact there
        | cons e' front =>
          obtain rfl : tail = front ++ .exited :: after := (List.cons.inj split).2
          exact List.mem_append_right _ (List.mem_cons_of_mem _ there)
      · obtain rfl : tail = front ++ .exited :: after := split
        exact List.mem_append_right _ (List.mem_cons_of_mem _ there)
    exact (quiet _ (inTail _ member)).2 q rfl

theorem ExitOnce.stopSystem {force : Bool} {m : ActorMessage} (once : ExitOnce s)
    (running : s.rootStopping = false) :
    ExitOnce { s.update [] (·.setStop force) with stops := .stopSystem force m :: s.stops } := by
  obtain ⟨none, idle⟩ := once.running running
  obtain ⟨n, root, -⟩ := once.valid.root
  obtain ⟨o, found, -⟩ := exists_of_node root
  let s' : Shard := { s.update [] (·.setStop force) with stops := .stopSystem force m :: s.stops }
  have grows : Grows s s' := by
    refine .single (.stopRoot (node_tree found)) ?_
    rw [tree_setStops, tree_setStop found]
    rfl
  have stops : s'.systemStops = 1 := by
    have : s'.systemStops = s.systemStops + 1 := List.countP_cons_of_pos rfl
    rw [this, idle]
  have exits : s'.exits = 0 := none
  refine ⟨grows.valid once.valid, LifeTree.ending_of_grows grows once.ending, ?_, ?_, ?_, ?_⟩
  · intro open'
    have closed : s'.rootStopping = true := by
      have stored : s'.objs [] = some (o.setStop force) :=
        (objs_update_self ..).trans (congrArg (Option.map _) found)
      rw [rootStopping, stored]
      cases force <;> rfl
    rw [closed] at open'
    cases open'
  · exact fun _ _ => ⟨exits, stops.le⟩
  · exact fun _ _ => by rw [exits, stops]
  · intro before after split
    exact absurd (by rw [show s.log = _ from split]; simp) (List.count_eq_zero.mp none)

/-- `stop_actor_system` calls `wait_others_and_exit` when the root counts no children. -/
theorem stopSystemEnd_cases {m : ActorMessage} {rest : List StopFrame}
    (ended : s.stopSystemEnd m rest = some s') :
    s' = (if s.managed = 0 then { s with stops := rest }.emit .exited
      else { s with stops := rest }).reclaim m := by
  cases endsSystem ended with
  | ends sched stop mailbox g root closed =>
    have count : s.managed = g.numActorsManaged := by
      rw [managed, root]
      rfl
    rw [count]

theorem ExitOnce.endSystem {force : Bool} {m : ActorMessage} {rest : List StopFrame}
    (once : ExitOnce s) (top : s.stops = .stopSystem force m :: rest)
    (ended : s.stopSystemEnd m rest = some s') (few : s'.FewChildren) : ExitOnce s' := by
  have grows := grows_stopSystemEnd top ended
  have stops : s.systemStops = rest.countP StopFrame.isSystem + 1 := by
    rw [systemStops, top, List.countP_cons_of_pos rfl]
  have closed : s.rootStopping = true := by
    by_contra running
    have idle := (once.running (by simpa using running)).2
    omega
  obtain ⟨none, last⟩ : s.exits = 0 ∧ rest.countP StopFrame.isSystem = 0 := by
    by_cases zero : s.rootChildren = 0
    · have one := once.alone closed zero
      omega
    · have busy := once.busy closed zero
      omega
  have fresh : .exited ∉ s.log := List.count_eq_zero.mp none
  have result := stopSystemEnd_cases ended
  have objs : s'.objs = s.objs := by
    rw [result]
    split
    · rfl
    · rfl
  have tested : s.managed = 0 ↔ s.rootChildren = 0 :=
    managed_eq_zero once.valid fun p keys nodup live => few p keys nodup (objs ▸ live)
  have children : s'.rootChildren = s.rootChildren := by rw [rootChildren, objs, rootChildren]
  have closed' : s'.rootStopping = true := by rw [rootStopping, objs, ← rootStopping, closed]
  have ending' := LifeTree.ending_of_grows grows once.ending
  have running : s'.rootStopping = false → s'.exits = 0 ∧ s'.systemStops = 0 := by
    intro running
    rw [closed'] at running
    cases running
  by_cases zero : s.managed = 0
  · rw [if_pos zero] at result
    have log : s'.log = s.log ++ [.exited, .reclaimed m] := by
      rw [result, log_reclaim, log_emit, List.append_assoc]
      rfl
    have exits : s'.exits = 1 := by
      rw [Shard.exits, log, List.count_append, show s.log.count .exited = 0 from none]
      rfl
    refine ⟨grows.valid once.valid, ending', running, fun _ live => ?_, fun _ _ => ?_, ?_⟩
    · exact absurd (children.trans (tested.mp zero)) live
    · rw [exits, show s'.systemStops = 0 by rw [result]; exact last]
    · refine once.late.append log (fun exited => absurd exited fresh) (fun front after split => ?_)
      intro p member
      cases front with
      | nil =>
        obtain rfl : [.reclaimed m] = after := (List.cons.inj split).2
        simp at member
      | cons e front =>
        obtain ⟨-, split⟩ := List.cons.inj split
        cases front <;> simp at split
  · rw [if_neg zero] at result
    have log : s'.log = s.log ++ [.reclaimed m] := by
      rw [result]
      rfl
    have exits : s'.exits = 0 := by
      rw [Shard.exits, log, List.count_append, show s.log.count .exited = 0 from none]
      rfl
    refine ⟨grows.valid once.valid, ending', running, fun _ _ => ⟨exits, ?_⟩, fun _ none => ?_, ?_⟩
    · rw [show s'.systemStops = 0 by rw [result]; exact last]
      exact Nat.zero_le 1
    · exact absurd (tested.mpr (children.symm.trans none)) zero
    · refine once.late.append log (fun exited => absurd exited fresh) (fun front after split => ?_)
      cases front with
      | nil => cases split
      | cons e front => simp at split

theorem ExitOnce.step (once : ExitOnce s) (few : s.KeepsFew label)
    (taken : s.step label = some s') : ExitOnce s' := by
  have refines := refines_step once.valid taken
  have valid' := once.valid.steps refines
  have ending' := LifeTree.ending_of_steps refines once.ending
  cases passes_step once.valid taken with
  | quiet evolves => exact once.quiet (grows_of_quiet refines evolves.quiet) evolves
  | start idle runs found user result =>
    rename_i k p rest sched stop m mailbox a
    subst result
    have same : ((s.update (k :: p) (·.setMailbox mailbox)).setPc (.inWork m)).tree = s.tree :=
      tree_update _ _ fun _ _ => ActorObject.node_setMailbox ..
    refine once.grow (.of_eq ?_) ?_ rfl (log_emit _) (by simp)
    · rw [tree_emit _ rfl, same]
    · exact cores_update_ne (·.setMailbox mailbox) (List.cons_ne_nil k p).symm
  | endActor idle runs ends found stopping none result =>
    subst result
    have left : ExitOnce s.leave := once.grow (.of_eq rfl) rfl rfl (List.append_nil _).symm
      (by simp)
    exact left.ends idle found valid' ending' (few _ taken)
      (ends_notifyChildStopped left.valid).destroy
  | endGroup evolves grows idle found stopping none result =>
    rename_i t k p sched stop g
    subst result
    have left : ExitOnce t.leave :=
      (once.quiet grows evolves).grow (.of_eq rfl) rfl rfl (List.append_nil _).symm (by simp)
    have notified : ChildEnds t.leave (t.leave.notifyChildStopped p) p :=
      ends_notifyChildStopped left.valid
    refine left.ends idle found valid' ending' (few _ taken) (ChildEnds.destroy ?_)
    unfold acknowledge
    split
    · exact notified.more rfl rfl rfl (by simp) (by simp)
    · exact notified
  | stopSystem evolves grows running result =>
    subst result
    exact (once.quiet grows evolves).stopSystem running
  | endSystem top ended => exact once.endSystem top ended (few _ taken)

theorem exitOnce_init (limitOf : ActorKey → Nat) : ExitOnce (init limitOf) where
  valid := valid_of_reachable ⟨[], rfl⟩
  ending := by simp [tree, init, cleanPaths]
  running := fun _ => ⟨rfl, rfl⟩
  busy := fun _ live => absurd rfl live
  alone := fun closed => nomatch closed
  late := fun before after split => by simp [init] at split

theorem exitOnce_of_reached {limitOf : ActorKey → Nat}
    (reached : ReachedBy step KeepsFew (init limitOf) s) : ExitOnce s :=
  reached.invariant ExitOnce (fun _ _ _ once few taken => once.step few taken)
    (exitOnce_init limitOf)

/-! ## The barrier -/

/-- The last test of `stop_actor_system` is next, and it calls `wait_others_and_exit`. -/
def AtExitTest (s : Shard) : Prop :=
  (∃ force m rest, s.stops = .stopSystem force m :: rest) ∧
    ∀ label s', s.step label = some s' → .exited ∈ s'.log

theorem ExitOnce.atExitTest (once : ExitOnce s) (few : s.FewChildren)
    (closed : s.rootStopping = true) (managed : s.managed = 0) (fresh : .exited ∉ s.log) :
    s.AtExitTest := by
  have zero := (managed_eq_zero once.valid few).mp managed
  have one := once.alone closed zero
  rw [show s.exits = 0 from List.count_eq_zero.mpr fresh, Nat.zero_add] at one
  cases top : s.stops with
  | nil =>
    rw [systemStops, top] at one
    cases one
  | cons frame rest =>
    cases frame with
    | clean q running =>
      -- an actor that is in its forced stop exists
      have cleaning : q ∈ s.tree.ending := by simp [tree, top, cleanPaths]
      obtain ⟨c, node, -⟩ := once.valid.ending_stopped cleaning
      have child : q ≠ [] := fun root => once.ending (root ▸ cleaning)
      obtain ⟨o, found, -⟩ := exists_of_node node
      rw [once.empty closed zero child] at found
      cases found
    | stopSystem force m =>
      refine ⟨⟨force, m, rest, top⟩, fun label s' taken => ?_⟩
      cases takesStep taken with
      | user isUser point acted => simp [userPoint, top] at point
      | run frame others isUser idle runs went => cases top.symm.trans idle
      | dispatch i idle runs entered => cases top.symm.trans idle
      | stop frame others isUser top' went =>
        obtain ⟨rfl, rfl⟩ := List.cons.inj (top.symm.trans top')
        cases takesStopStep went with
        | stopSystemEnd force needYield m i ended =>
          rw [stopSystemEnd_cases ended, if_pos managed, log_reclaim, log_emit]
          simp
        | stopNext force m k entry =>
          -- no entry of the root is left
          obtain ⟨o, root, -, reached⟩ := exists_of_entry entry
          obtain ⟨c, child⟩ := once.valid.reached (node_tree root) reached
          obtain ⟨o', found, -⟩ := exists_of_node child
          rw [once.empty closed zero (List.cons_ne_nil k [])] at found
          cases found

/-- A shard whose groups have few children enters the exit barrier once, when nothing is left on
it. -/
theorem exits_of_reached {limitOf : ActorKey → Nat}
    (reached : ReachedBy step KeepsFew (init limitOf) s) :
    s.log.count .exited ≤ 1 ∧
    (.exited ∈ s.log → s.rootStopping = true ∧ ∀ p, p ≠ [] → s.objs p = none) ∧
    (∀ before after, s.log = before ++ .exited :: after → ∀ p, .created p ∉ after) ∧
    (s.rootStopping = true → s.managed = 0 → .exited ∈ s.log ∨ s.AtExitTest) := by
  have once := exitOnce_of_reached reached
  refine ⟨?_, fun exited => ?_, once.late, fun closed zero => ?_⟩
  · show s.exits ≤ 1
    cases closed : s.rootStopping with
    | false => simp [(once.running closed).1]
    | true =>
      by_cases zero : s.rootChildren = 0
      · have one := once.alone closed zero
        omega
      · simp [(once.busy closed zero).1]
  · obtain ⟨closed, zero⟩ := once.of_exited exited
    exact ⟨closed, fun p child => once.empty closed zero child⟩
  · by_cases exited : .exited ∈ s.log
    · exact .inl exited
    · exact .inr (once.atExitTest (fewChildren_of_reached reached) closed zero exited)

/-- A shard with `2 ^ 32` actors enters the exit barrier while they live. -/
theorem crowded_shard_exits_early :
    ¬ ∀ (limitOf : ActorKey → Nat) (s : Shard), Reachable step (init limitOf) s →
      .exited ∈ s.log → s.rootStopping = true ∧ ∀ p, p ≠ [] → s.objs p = none := by
  intro claim
  obtain ⟨s, m, reachable, crowd, top⟩ :=
    exists_stopped_crowd (fun _ => 1) (le_refl (2 ^ 32)) (le_refl (2 ^ 32))
  have valid := valid_of_reachable reachable
  obtain ⟨s', taken, exited, same⟩ := crowd.advance valid top
  obtain ⟨k, c, child⟩ := crowd.exists_child valid (Nat.two_pow_pos 32)
  have gone := (claim _ s' (reachable.step taken) exited).2 [k] (List.cons_ne_nil k [])
  rw [same, child] at gone
  cases gone

/-- The shard is stopped while an actor has a message, and is told to stop once more. -/
def stopSystemRun : List Label :=
  [.receive [workerKey] .user 0 0, .receive [] .peaceStop 0 0, .stopNext workerKey,
    .advance false 0, .receive [] .forceStop 0 0, .dispatch 0, .advance false 0, .advance false 0,
    .workDone none .no, .advance false 0, .advance false 0]

/-- The state after it. -/
def stopSystemEndState : Shard := (run step (init fun _ => 1) stopSystemRun).get (by decide)

/-- The last actor has called `wait_others_and_exit`. -/
theorem stopped_shard_exits :
    .exited ∈ stopSystemEndState.log ∧ stopSystemEndState.log.count .exited ≤ 1 ∧
      ∀ p, p ≠ [] → stopSystemEndState.objs p = none := by
  have exited : .exited ∈ stopSystemEndState.log := by decide
  have ran : run step (init fun _ => 1) stopSystemRun = some stopSystemEndState :=
    (Option.some_get (by decide)).symm
  obtain ⟨once, empty, -⟩ := exits_of_reached (reachedBy_of_created ran (by decide))
  exact ⟨exited, once, (empty exited).2⟩

end Shard

end Hiactor
