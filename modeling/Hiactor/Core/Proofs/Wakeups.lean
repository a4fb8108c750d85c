import Hiactor.Lib.ReadyTree
import Hiactor.Core.Proofs.Shutdown
import Hiactor.Core.Proofs.ShardTouches

/-!
# Wakeups

The actor objects of a shard are a tree of ready queues. Whatever gives an actor object something
to do activates it, so that one that is schedulable has nothing to do, and one that is scheduled
waits in the queue of its parent or runs.
-/

namespace Hiactor

open Lib

/-! ## Objects as nodes -/

def SchedStatus.readiness : SchedStatus → Readiness
  | .initialized => .fresh
  | .schedulable => .idle
  | .scheduled => .ready

namespace ActorObject

/-- A run would find something to do: a continuation, or a message that the object may take. -/
def hasWork (o : ActorObject) : Bool := match o.body with
  | .group _ => decide (o.mailbox ≠ [])
  | .actor a =>
    decide (a.taskQueue ≠ [] ∨ (o.mailbox ≠ [] ∧ a.curConcurrency < a.maxConcurrency))

/-- The object as a node of the tree of ready queues. -/
def readyNode (o : ActorObject) : ReadyNode ActorKey where
  state := o.schedStatus.readiness
  work := o.hasWork
  queue := match o.body with
    | .group g => some g.taskQueue
    | .actor _ => none

variable (o : ActorObject)

theorem readyNode_setSched (status : SchedStatus) :
    (o.setSched status).readyNode = o.readyNode.setState status.readiness := rfl

theorem readyNode_mapGroup {f : GroupBody → GroupBody}
    (queue : ∀ g, (f g).taskQueue = g.taskQueue) :
    (o.mapGroup f).readyNode = o.readyNode := by
  cases o with
  | mk sched stop mailbox body =>
    cases body with
    | actor a => rfl
    | group g =>
      show ReadyNode.mk _ _ (some (f g).taskQueue) = ReadyNode.mk _ _ (some g.taskQueue)
      rw [queue g]
      rfl

theorem readyNode_setEntry (k : ActorKey) (reached : Bool) :
    (o.setEntry k reached).readyNode = o.readyNode := o.readyNode_mapGroup fun _ => rfl

theorem readyNode_setActors (f : List ActorKey → List ActorKey) :
    (o.setActors f).readyNode = o.readyNode.mapQueue f := by
  cases o with
  | mk sched stop mailbox body => cases body <;> rfl

theorem alike_setMailbox (mailbox : List ActorMessage) :
    o.readyNode.Alike (o.setMailbox mailbox).readyNode := ⟨rfl, rfl⟩

theorem alike_mapActor (f : ActorBody → ActorBody) :
    o.readyNode.Alike (o.mapActor f).readyNode := by
  cases o with
  | mk sched stop mailbox body => cases body <;> exact ⟨rfl, rfl⟩

/-- An object without messages has no more to do than it had. -/
theorem hasWork_setMailbox_nil (works : (o.setMailbox []).hasWork = true) : o.hasWork = true := by
  cases o with
  | mk sched stop mailbox body =>
    cases body with
    | group g => cases works
    | actor a =>
      have tasks : a.taskQueue ≠ [] := by simpa [hasWork, setMailbox] using works
      simp [hasWork, tasks]

theorem hasWork_cancel : (o.setTasks (List.map Task.cancel)).hasWork = o.hasWork := by
  cases o with
  | mk sched stop mailbox body =>
    cases body with
    | group g => rfl
    | actor a => simp [hasWork, setTasks, mapActor]

theorem idle_iff : o.readyNode.state = .idle ↔ o.schedStatus = .schedulable := by
  show o.schedStatus.readiness = .idle ↔ _
  cases o.schedStatus <;> simp [SchedStatus.readiness]

theorem ready_iff : o.readyNode.state = .ready ↔ o.schedStatus = .scheduled := by
  show o.schedStatus.readiness = .ready ↔ _
  cases o.schedStatus <;> simp [SchedStatus.readiness]

end ActorObject

namespace Shard

variable {s s' : Shard} {p : Path} {k : ActorKey} {o : ActorObject}

/-- The ready queues of a shard. -/
def ready (s : Shard) : ReadyTree ActorKey := fun p => (s.objs p).map ActorObject.readyNode

theorem ready_of_objs (found : s.objs p = some o) : s.ready p = some o.readyNode := by
  rw [ready, found, Option.map_some]

theorem exists_of_ready {n : ReadyNode ActorKey} (stored : s.ready p = some n) :
    ∃ o, s.objs p = some o ∧ o.readyNode = n := Option.map_eq_some_iff.mp stored

/-- A change of one object, as a change of its node. -/
theorem ready_update {f : ActorObject → ActorObject} (g : ReadyNode ActorKey → ReadyNode ActorKey)
    (acts : ∀ o, s.objs p = some o → (f o).readyNode = g o.readyNode) :
    (s.update p f).ready = s.ready.modify p g := by
  funext q
  rw [ReadyTree.modify_apply]
  unfold ready
  rw [objs_update]
  split
  · rename_i here
    subst here
    cases found : s.objs q with
    | none => rfl
    | some o => exact congrArg some (acts o found)
  · rfl

theorem ready_update_same {f : ActorObject → ActorObject}
    (same : ∀ o, s.objs p = some o → (f o).readyNode = o.readyNode) :
    (s.update p f).ready = s.ready := by
  rw [ready_update id same, ReadyTree.modify_id]

theorem ready_activate (s : Shard) (p : Path) : (s.activate p).ready = s.ready.wake p := by
  induction p generalizing s with
  | nil => rfl
  | cons k p ih =>
    unfold activate ReadyTree.wake
    cases found : s.objs (k :: p) with
    | none => simp only [ready, found, Option.map_none]
    | some o =>
      have marked : ((s.update (k :: p) (·.setSched .scheduled)).update p
          (·.setActors (· ++ [k]))).ready = s.ready.mark k p := by
        rw [ready_update (·.mapQueue (· ++ [k])) (fun o _ => o.readyNode_setActors _),
          ready_update (·.setState .ready) (fun o _ => o.readyNode_setSched _)]
        rfl
      simp only [ready_of_objs found, ActorObject.idle_iff]
      split
      · rw [ih, marked]
      · rfl

/-! ## Operations -/

/-- Objects get and lose work, and those that get some are activated. No continuation of a forced
stop is started. -/
structure Wakes (s s' : Shard) : Prop where
  ready : Relation.ReflTransGen ReadyTree.Step s.ready s'.ready
  cleaning : ∀ {p}, .clean p true ∈ s'.stops → .clean p true ∈ s.stops

namespace Wakes

theorem side (same : s'.ready = s.ready)
    (cleaning : ∀ {p}, .clean p true ∈ s'.stops → .clean p true ∈ s.stops) : Wakes s s' :=
  ⟨same ▸ .refl, cleaning⟩

theorem refl : Wakes s s := .side rfl id

theorem trans {s'' : Shard} (first : Wakes s s') (second : Wakes s' s'') : Wakes s s'' :=
  ⟨first.ready.trans second.ready, fun member => first.cleaning (second.cleaning member)⟩

theorem update_same {f : ActorObject → ActorObject}
    (same : ∀ o, s.objs p = some o → (f o).readyNode = o.readyNode) : Wakes s (s.update p f) :=
  .side (ready_update_same same) id

/-- What a change of objects does to the nodes at `p`. -/
def nodeAct (s : Shard) (p : Path) (f : ActorObject → ActorObject) (n : ReadyNode ActorKey) :
    ReadyNode ActorKey :=
  ((s.objs p).map fun o => (f o).readyNode).getD n

theorem ready_nodeAct (f : ActorObject → ActorObject) :
    (s.update p f).ready = s.ready.modify p (nodeAct s p f) := by
  refine ready_update _ (fun o found => ?_)
  rw [nodeAct, found]
  rfl

theorem alike_nodeAct {f : ActorObject → ActorObject}
    (alike : ∀ o : ActorObject, o.readyNode.Alike (f o).readyNode) :
    ∀ n, s.ready p = some n → n.Alike (nodeAct s p f n) := by
  intro n stored
  obtain ⟨o, found, rfl⟩ := exists_of_ready stored
  rw [nodeAct, found]
  exact alike o

/-- The work of an object changes; one that is schedulable does not get any. -/
theorem touch {f : ActorObject → ActorObject}
    (alike : ∀ o : ActorObject, o.readyNode.Alike (f o).readyNode)
    (lazy : ∀ o, s.objs p = some o → o.schedStatus = .schedulable → (f o).hasWork = true →
      o.hasWork = true) : Wakes s (s.update p f) := by
  refine ⟨.single ?_, id⟩
  rw [ready_nodeAct]
  refine .touch (alike_nodeAct alike) (fun n stored idle works => ?_)
  obtain ⟨o, found, rfl⟩ := exists_of_ready stored
  rw [nodeAct, found] at works
  exact lazy o found (o.idle_iff.mp idle) works

/-- An object may get work and is activated. -/
theorem rouse {f : ActorObject → ActorObject}
    (alike : ∀ o : ActorObject, o.readyNode.Alike (f o).readyNode) :
    Wakes s ((s.update p f).activate p) := by
  refine ⟨.single ?_, by simp⟩
  rw [ready_activate, ready_nodeAct]
  exact .wake (alike_nodeAct alike)

theorem activate : Wakes s (s.activate p) := by
  refine ⟨.single ?_, by simp⟩
  have woken : ReadyTree.Step s.ready ((s.ready.modify p id).wake p) := .wake fun _ _ => ⟨rfl, rfl⟩
  rwa [ReadyTree.modify_id, ← ready_activate] at woken

theorem readyNode_create (limitOf : ActorKey → Nat) (k : ActorKey) :
    (ActorObject.create limitOf k).readyNode.children = [] := by
  unfold ActorObject.create
  split
  · rfl
  · rfl

theorem createChild (absent : s.objs (k :: p) = none) (found : s.objs p = some o)
    (group : o.isGroup = true) : Wakes s (s.createChild p k) := by
  let s₁ : Shard := { s with objs := Function.update s.objs (k :: p) (some (.create s.limitOf k)) }
  let s₂ := ((s₁.update p (·.setEntry k true)).update p (·.mapGroup .adopt)).emit
    (.created (k :: p))
  let n := (ActorObject.create s.limitOf k).readyNode.setState .idle
  have created : s₁.ready = Function.update s.ready (k :: p)
      (some (ActorObject.create s.limitOf k).readyNode) := by
    funext q
    show (Function.update s.objs (k :: p) (some (.create s.limitOf k)) q).map _ = _
    rw [Function.update_apply, Function.update_apply]
    split
    · rfl
    · rfl
  have counted : s₂.ready = s₁.ready := by
    show ((s₁.update p _).update p _).ready = _
    rw [ready_update_same (fun o _ => o.readyNode_mapGroup (f := .adopt) fun _ => rfl),
      ready_update_same (fun o _ => o.readyNode_setEntry k true)]
  have result : (s.createChild p k).ready =
      ReadyTree.wake (Function.update s.ready (k :: p) (some n)) (k :: p) := by
    show ((s₂.update (k :: p) (·.setSched .schedulable)).activate (k :: p)).ready = _
    rw [ready_activate, ready_update (·.setState .idle) (fun o _ => o.readyNode_setSched _),
      counted,
      created, ReadyTree.modify, Function.update_self, Function.update_idem]
    rfl
  refine ⟨.single ?_, fun member => by rwa [stops_createChild] at member⟩
  rw [result]
  refine .create ?_ (ready_of_objs found) ?_ rfl (readyNode_create s.limitOf k)
  · rw [Shard.ready, absent, Option.map_none]
  · cases o with
    | mk sched stop mailbox body =>
      cases body with
      | group g => rfl
      | actor a => cases group

theorem cleanMailbox : Wakes s (s.cleanMailbox p) := by
  unfold Shard.cleanMailbox
  split
  · have emptied : Wakes s (s.update p (·.setMailbox [])) :=
      .touch (fun o => o.alike_setMailbox []) fun o _ _ works => o.hasWork_setMailbox_nil works
    exact emptied.trans (.side rfl id)
  · exact .refl

/-- An actor that is scheduled may get work without being activated. -/
theorem mapActor (busy : ∀ o, s.objs p = some o → o.schedStatus ≠ .schedulable)
    (f : ActorBody → ActorBody) : Wakes s (s.update p (·.mapActor f)) :=
  .touch (fun o => o.alike_mapActor f) fun o found idle => absurd idle (busy o found)

end Wakes

theorem Touch.wakes (touch : Touch s s') : Wakes s s' := by
  cases touch with
  | emit e => exact .side rfl id
  | activate p => exact .activate
  | enqueMessage p user => exact .rouse fun o => o.alike_setMailbox _
  | enqueUrgentMessage p other => exact .rouse fun o => o.alike_setMailbox _
  | addTask p task urgent => exact .rouse fun o => o.alike_mapActor _
  | createChild absent found group => exact .createChild absent found group
  | setStop force running => exact .update_same fun _ _ => rfl
  | cleanMailbox forced => exact .cleanMailbox
  | cancel p =>
    refine .touch (fun o => o.alike_mapActor _) (fun o _ _ works => ?_)
    rwa [o.hasWork_cancel] at works
  | setEntry p k reached => exact .update_same fun o _ => o.readyNode_setEntry k reached
  | land p i =>
    refine .touch (fun o => o.alike_mapActor _) (fun o _ _ works => ?_)
    cases o with
    | mk sched stop mailbox body => cases body <;> exact works
  | setStops cleaning => exact .side rfl fun member => (cleaning member).resolve_right (by simp)
  | setNextMid mid => exact .side rfl id

theorem Touches.wakes (touches : Touches s s') : Wakes s s' := by
  induction touches with
  | refl => exact .refl
  | tail _ touch ih => exact ih.trans touch.wakes

/-! ## Steps -/

/-- The actors that run a continuation in their forced stop. -/
def cleaning (s : Shard) : Set Path := {p | .clean p true ∈ s.stops}

/-- The ready queues of the shard are in order. -/
def InLine (s : Shard) : Prop :=
  ReadyTree.InLine s.ready (runPaths s.runs) (runPaths s.runs ∪ s.cleaning) ∅

/-- The actor whose continuation or method runs. -/
def runningActor (s : Shard) : Option Path :=
  match s.stops with
  | .clean p true :: _ => some p
  | _ :: _ => none
  | [] =>
    match s.runs with
    | ⟨p, .inTask⟩ :: _ => some p
    | ⟨p, .inWork _⟩ :: _ => some p
    | _ => none

/-- `set_max_concurrency` is called by the actor itself. -/
def LimitsItself (s : Shard) : Label → Prop
  | .setMaxConcurrency p _ => s.runningActor = some p
  | _ => True

instance (s : Shard) : (label : Label) → Decidable (s.LimitsItself label)
  | .setMaxConcurrency p _ => inferInstanceAs (Decidable (s.runningActor = some p))
  | .receive .. | .addTask .. | .complete .. | .dispatch _ | .advance .. | .workDone ..
  | .workPending | .stopNext _ => isTrue trivial

theorem mem_of_runningActor (runs : s.runningActor = some p) :
    p ∈ runPaths s.runs ∪ s.cleaning := by
  unfold runningActor at runs
  split at runs
  · rename_i top
    obtain rfl := Option.some.inj runs
    exact .inr (by simp [cleaning, top])
  · cases runs
  · split at runs
    · rename_i top
      obtain rfl := Option.some.inj runs
      exact .inl ⟨_, top ▸ List.mem_cons_self, rfl⟩
    · rename_i top
      obtain rfl := Option.some.inj runs
      exact .inl ⟨_, top ▸ List.mem_cons_self, rfl⟩
    · cases runs

namespace InLine

variable {rest : List RunFrame}

theorem busy (line : s.InLine) (held : p ∈ runPaths s.runs ∪ s.cleaning)
    (found : s.objs p = some o) : o.schedStatus = .scheduled := by
  obtain ⟨n, stored, ready⟩ := line.held held
  rw [ready_of_objs found] at stored
  obtain rfl := Option.some.inj stored
  exact o.ready_iff.mp ready

theorem wakes (line : s.InLine) (wakes : Wakes s s') (runs : s'.runs = s.runs) : s'.InLine := by
  have after := line.steps wakes.ready
  unfold InLine
  rw [runs]
  refine { after with runs := Set.subset_union_left, held := fun member => after.held ?_ }
  exact member.imp_right wakes.cleaning

theorem touches (line : s.InLine) (touches : Touches s s') : s'.InLine :=
  line.wakes touches.wakes touches.runs

/-- A continuation runs in an actor that is scheduled. -/
theorem runTask (line : s.InLine) (held : p ∈ runPaths s.runs ∪ s.cleaning) (task : Task) :
    (s.runTask p task).InLine := by
  refine InLine.touches ?_ (touches_runTask task)
  cases task with
  | user | reply => exact line
  | post msg state =>
    exact line.wakes (.mapActor (fun o found => by simp [line.busy held found]) _) rfl

theorem setPc (line : s.InLine) (pc : Pc) : (s.setPc pc).InLine := by
  have same : runPaths (s.setPc pc).runs = runPaths s.runs := by
    cases runs : s.runs with
    | nil => simp [Shard.setPc, runs]
    | cons frame rest =>
      have moved : (s.setPc pc).runs = ⟨frame.path, pc⟩ :: rest := by simp [Shard.setPc, runs]
      rw [moved, runPaths_cons, runPaths_cons]
  unfold InLine
  rw [same]
  exact line

/-- The innermost run. -/
theorem top {pc : Pc} (line : s.InLine) (runs : s.runs = ⟨k :: p, pc⟩ :: rest) :
    ReadyTree.InLine s.ready (insert (k :: p) (runPaths rest)) (insert (k :: p) (runPaths rest))
      ∅ := by
  have before := line
  unfold InLine at before
  rw [runs, runPaths_cons] at before
  exact { before with
    runs := subset_rfl
    held := fun member => before.held (.inl member) }

/-- The innermost run has ended. -/
theorem returned (idle : s'.stops = []) (runs : s'.runs = rest)
    (line : ReadyTree.InLine s'.ready (runPaths rest) (runPaths rest) ∅) : s'.InLine := by
  unfold InLine
  rw [runs]
  refine { line with runs := Set.subset_union_left, held := ?_ }
  rintro q (member | cleaning)
  · exact line.held member
  · simp [Shard.cleaning, idle] at cleaning

end InLine

/-! ### Ends of runs -/

/-- An object runs once at a time. -/
theorem notMem_of_runs {rest : List RunFrame} {pc : Pc} (nested : Nested s.runs)
    (runs : s.runs = ⟨q, pc⟩ :: rest) : q ∉ runPaths rest := by
  intro member
  rw [runs] at nested
  obtain ⟨⟨k, path⟩, nested⟩ := nested
  have long : q = k :: topPath rest := path
  have short := nested.length_le member
  rw [long] at short
  exact absurd short (Nat.not_succ_le_self _)

theorem ready_notifyChildStopped : (s.notifyChildStopped p).ready = s.ready := by
  have same : (s.update p (·.mapGroup .drop)).ready = s.ready :=
    ready_update_same fun o _ => o.readyNode_mapGroup fun _ => rfl
  unfold notifyChildStopped
  simp only
  split
  · exact same
  · exact same

theorem ready_destroy : (s.destroy p).ready = Function.update s.ready p none := by
  funext q
  show (Function.update s.objs p none q).map _ = _
  rw [Function.update_apply, Function.update_apply]
  split
  · rfl
  · rfl

theorem childless_of_none (valid : s.tree.Valid) (found : s.objs p = some o)
    (none : o.children = 0) (j : ActorKey) : s.ready (j :: p) = .none := by
  obtain ⟨keys, -, members, length⟩ := valid.count (node_tree found)
  obtain rfl := List.length_eq_zero_iff.mp (Int.natCast_eq_zero.mp (length.trans none))
  have gone : s.objs (j :: p) = .none := by
    have unlisted := mt (members j).mpr List.not_mem_nil
    rwa [isSome_node, Bool.not_eq_true, Option.isSome_eq_false_iff, Option.isNone_iff_eq_none]
      at unlisted
  rw [ready, gone, Option.map_none]

namespace InLine

variable {rest : List RunFrame} {pc : Pc}

/-- An object that runs returns, and is activated again when it has something to do. -/
theorem sleep (line : s.InLine) (idle : s.stops = []) (runs : s.runs = ⟨k :: p, pc⟩ :: rest)
    (nested : Nested s.runs) (found : s.objs (k :: p) = some o) (awake : Prop) [Decidable awake]
    (quiet : ¬ awake → o.readyNode.Quiet) :
    (if awake then (s.leave.update (k :: p) (·.setSched .schedulable)).activate (k :: p)
      else s.leave.update (k :: p) (·.setSched .schedulable)).InLine := by
  have fresh : k :: p ∉ runPaths rest := notMem_of_runs nested runs
  have left : s.leave.runs = rest := by rw [leave, runs, List.tail_cons]
  have asleep : (s.leave.update (k :: p) (·.setSched .schedulable)).ready =
      s.ready.modify (k :: p) (·.setState .idle) :=
    ready_update (s := s.leave) _ fun o _ => o.readyNode_setSched _
  have slept := (line.top runs).sleep (List.cons_ne_nil k p) fresh fresh
  rw [← asleep] at slept
  split
  · refine returned ((stops_activate ..).trans idle) ((runs_activate ..).trans left) ?_
    rw [ready_activate]
    exact slept.wake
  · rename_i asleep'
    refine returned idle left (slept.settle fun n stored _ => ?_)
    rw [asleep, ReadyTree.modify_of_some (ready_of_objs found), if_pos rfl] at stored
    obtain rfl := Option.some.inj stored
    exact quiet asleep'

/-- An object that runs returns and is destroyed. -/
theorem destroyed {t : Shard} (line : s.InLine) (idle : s.stops = [])
    (runs : s.runs = ⟨k :: p, pc⟩ :: rest) (nested : Nested s.runs) (valid : s.tree.Valid)
    (found : s.objs (k :: p) = some o) (none : o.children = 0) (same : t.ready = s.ready)
    (stops : t.stops = s.stops) (left : t.runs = rest) : (t.destroy (k :: p)).InLine := by
  have fresh : k :: p ∉ runPaths rest := notMem_of_runs nested runs
  have removed := (line.top runs).remove (List.cons_ne_nil k p) fresh fresh
    (childless_of_none valid found none)
  refine returned (stops.trans idle) left ?_
  rw [ready_destroy, same]
  exact removed

theorem finishGroup (line : s.InLine) (idle : s.stops = []) (runs : s.runs = ⟨k :: p, pc⟩ :: rest)
    (nested : Nested s.runs) (valid : s.tree.Valid) (finished : s.finishGroup p k = some s') :
    s'.InLine := by
  have left : s.leave.runs = rest := by rw [leave, runs, List.tail_cons]
  have left' : (s.leave.notifyChildStopped p).runs = rest :=
    (congrArg Prod.fst control_notifyChildStopped).trans left
  cases finishesGroup finished with
  | ends sched stop mailbox g found ends childless =>
    split
    · exact line.destroyed idle runs nested valid found childless ready_notifyChildStopped
        (Sched.stops_notifyChildStopped ..) left'
    · exact line.destroyed idle runs nested valid found childless ready_notifyChildStopped
        (Sched.stops_notifyChildStopped ..) left'
  | stays sched stop mailbox g found lives =>
    refine line.sleep idle runs nested found _ (fun asleep => ?_)
    obtain ⟨noMail, noTasks⟩ := not_or.mp asleep
    rw [not_not] at noMail noTasks
    exact ⟨by simp [ActorObject.readyNode, ActorObject.hasWork, noMail], noTasks⟩

theorem finishActor (line : s.InLine) (idle : s.stops = []) (runs : s.runs = ⟨k :: p, pc⟩ :: rest)
    (nested : Nested s.runs) (valid : s.tree.Valid) (finished : s.finishActor p k = some s') :
    s'.InLine := by
  have left : s.leave.runs = rest := by rw [leave, runs, List.tail_cons]
  cases finishesActor finished with
  | ends sched stop mailbox a found ends =>
    exact line.destroyed idle runs nested valid found rfl ready_notifyChildStopped
      (Sched.stops_notifyChildStopped ..)
      ((congrArg Prod.fst control_notifyChildStopped).trans left)
  | stays sched stop mailbox a found lives =>
    refine line.sleep idle runs nested found _ (fun asleep => ?_)
    exact ⟨by simp [ActorObject.readyNode, ActorObject.hasWork, asleep], rfl⟩

/-- A child in the queue of an object begins its run. -/
theorem enterChild {i : Nat} (line : s.InLine) (entered : s.enterChild p i = some s') :
    s'.InLine := by
  cases entersChild entered with
  | enters sched stop mailbox g k o found listed child =>
    let s₁ := s.update p (·.setActors (·.eraseIdx i))
    let s₂ := if o.forceStopping then
        s₁.update (k :: p) (·.setTasks (List.map Task.cancel)) else s₁
    have taken : s₁.ready = s.ready.modify p (·.mapQueue (·.eraseIdx i)) :=
      ready_update _ fun o _ => o.readyNode_setActors _
    have cancelled : Wakes s₁ s₂ := by
      unfold s₂
      split
      · exact (Touch.cancel (k :: p)).wakes
      · exact .refl
    have kept : s₂.stops = s.stops := by
      unfold s₂
      split
      · rfl
      · rfl
    have running := line.enter (ready_of_objs found) rfl listed
    rw [← taken] at running
    have after := running.steps cancelled.ready
    unfold InLine cleaning
    show ReadyTree.InLine s₂.ready (runPaths (_ :: s.runs))
      (runPaths (_ :: s.runs) ∪ {p | .clean p true ∈ s₂.stops}) ∅
    rw [runPaths_cons, kept, Set.insert_union]
    exact after

/-! ### Rounds of the loops -/

theorem running (runs : s.runs = ⟨k :: p, pc⟩ :: rest) :
    k :: p ∈ runPaths s.runs ∪ s.cleaning :=
  .inl ⟨_, runs ▸ List.mem_cons_self, rfl⟩

/-- An object that runs takes a message. -/
theorem takeMail (line : s.InLine) (runs : s.runs = ⟨k :: p, pc⟩ :: rest)
    (mailbox : List ActorMessage) : Wakes s (s.update (k :: p) (·.setMailbox mailbox)) := by
  refine .touch (fun o => o.alike_setMailbox _) (fun o found idle => ?_)
  rw [line.busy (running runs) found] at idle
  cases idle

theorem obeyStop (line : s.InLine) (runs : s.runs = ⟨k :: p, pc⟩ :: rest) (m : ActorMessage)
    (mailbox : List ActorMessage) : (s.obeyStop p k m mailbox).InLine := by
  let s₁ := s.update (k :: p) (·.setMailbox mailbox)
  let s₂ := s₁.stopChildActor p k (m.type == .forceStop)
  have stopped : Touches s₁ s₂ := .stopChildActor _
  have requested : Wakes s₂ (s.obeyStop p k m mailbox) := by
    refine .trans (.update_same fun o _ => ?_) (Touches.reclaim m).wakes
    exact o.readyNode_mapGroup fun _ => rfl
  exact ((line.wakes (line.takeMail runs mailbox) rfl).touches stopped).wakes requested rfl

theorem groupMail {needYield : Bool} (line : s.InLine) (idle : s.stops = [])
    (runs : s.runs = ⟨k :: p, pc⟩ :: rest) (nested : Nested s.runs) (valid : s.tree.Valid)
    (handled : s.groupMail p k needYield = some s') : s'.InLine := by
  cases handlesGroupMail handled with
  | none sched stop g found => exact line.setPc _
  | yields sched stop m mailbox g found isStop finished =>
    have same : (s.obeyStop p k m mailbox).runs = s.runs :=
      congrArg Prod.fst (control_obeyStop k m mailbox)
    have idle' : (s.obeyStop p k m mailbox).stops = [] := (stops_obeyStop found).trans idle
    exact (line.obeyStop runs m mailbox).finishGroup idle' (same.trans runs) (same ▸ nested)
      ((grows_obeyStop m mailbox).valid valid) finished
  | goesOn sched stop m mailbox g found isStop => exact line.obeyStop runs m mailbox

theorem groupTasks {i : Nat} (line : s.InLine) (idle : s.stops = [])
    (runs : s.runs = ⟨k :: p, pc⟩ :: rest) (nested : Nested s.runs) (valid : s.tree.Valid)
    (ran : s.groupTasks p k i = some s') : s'.InLine := by
  cases runsGroupTasks ran with
  | none sched stop mailbox g found none finished =>
    exact line.finishGroup idle runs nested valid finished
  | enters sched stop mailbox g found waiting entered =>
    exact (line.setPc .groupChild).enterChild entered

theorem actorTasks (line : s.InLine) (idle : s.stops = []) (runs : s.runs = ⟨k :: p, pc⟩ :: rest)
    (nested : Nested s.runs) (ran : s.actorTasks p k = some s') : s'.InLine := by
  cases runsActorTasks ran with
  | next sched stop mailbox a found task tasks front =>
    have taken : Wakes s (s.update (k :: p) (·.setTasks fun _ => tasks)) :=
      .mapActor (fun o stored => by simp [line.busy (running runs) stored]) _
    have moved := (line.wakes taken rfl).setPc .inTask
    have runs' : ((s.update (k :: p) (·.setTasks fun _ => tasks)).setPc .inTask).runs =
        ⟨k :: p, .inTask⟩ :: rest := by simp [Shard.setPc, runs]
    exact moved.runTask (running runs') task
  | full sched stop mailbox a found none full =>
    have asleep := line.sleep idle runs nested found False (fun _ => ?_)
    · rw [if_neg id] at asleep
      exact asleep
    · exact ⟨by simp [ActorObject.readyNode, ActorObject.hasWork, none, full], rfl⟩
  | opens sched stop mailbox a found none free => exact line.setPc .mail

theorem actorMail (line : s.InLine) (idle : s.stops = []) (runs : s.runs = ⟨k :: p, pc⟩ :: rest)
    (nested : Nested s.runs) (valid : s.tree.Valid) (handled : s.actorMail p k = some s') :
    s'.InLine := by
  have taken (mailbox : List ActorMessage) (pc' : Pc) :
      ((s.update (k :: p) (·.setMailbox mailbox)).setPc pc').InLine :=
    (line.wakes (line.takeMail runs mailbox) rfl).setPc pc'
  cases handlesActorMail handled with
  | none sched stop a found finished => exact line.finishActor idle runs nested valid finished
  | starts sched stop m mailbox a found user => exact (taken mailbox (.inWork m)).touches (.emit _)
  | stops sched stop m mailbox a found force asked =>
    exact (taken mailbox .worked).touches (.trans (.stopChildActor force) (.reclaim m))

theorem workDone {m : ActorMessage} {reply : Option Bool} {state : WorkState} (line : s.InLine)
    (done : s.workDone p k m reply state = some s') : s'.InLine := by
  have ended : (s.worked (k :: p) m reply).InLine := by
    cases reply with
    | none => exact (line.setPc .worked).touches (.reclaim m)
    | some failed => exact ((line.touches (.emit _)).setPc .worked).touches (.reclaim m)
  rw [workDone_eq done]
  split
  · exact ended.touches (.stopChildActor true)
  · exact ended

theorem workPending {m : ActorMessage} (line : s.InLine) (idle : s.stops = [])
    (runs : s.runs = ⟨k :: p, pc⟩ :: rest) (nested : Nested s.runs) (valid : s.tree.Valid)
    (pending : s.workPending p k m = some s') : s'.InLine := by
  let s₁ := s.update (k :: p) (·.mapActor fun a => { a with
    curConcurrency := a.curConcurrency + 1, inFlight := a.inFlight ++ [m] })
  have flying : Wakes s s₁ :=
    .mapActor (fun o stored => by simp [line.busy (running runs) stored]) _
  have after : s₁.InLine := line.wakes flying rfl
  have valid₁ : s₁.tree.Valid := by
    rw [tree_update _ _ (fun _ _ => ActorObject.node_mapActor ..)]
    exact valid
  obtain ⟨sched, stop, mailbox, a, found, ⟨full, pending⟩ | ⟨free, rfl⟩⟩ :=
    workPending_cases pending
  · exact after.finishActor idle runs nested valid₁ pending
  · exact after.setPc .worked

theorem runStep {frame : RunFrame} {label : Label} (line : s.InLine) (idle : s.stops = [])
    (runs : s.runs = frame :: rest) (nested : Nested s.runs) (valid : s.tree.Valid)
    (taken : s.runStep frame label = some s') : s'.InLine := by
  cases takesRunStep taken with
  | groupMail p k needYield i handled => exact line.groupMail idle runs nested valid handled
  | groupTasks p k needYield i ran => exact line.groupTasks idle runs nested valid ran
  | groupYields p k i finished => exact line.finishGroup idle runs nested valid finished
  | actorTasks p k needYield i ran => exact line.actorTasks idle runs nested ran
  | taskYields p k i finished => exact line.finishActor idle runs nested valid finished
  | actorMail p k needYield i handled => exact line.actorMail idle runs nested valid handled
  | workDone p k m reply state done => exact line.workDone done
  | workPending p k m pending => exact line.workPending idle runs nested valid pending
  | workYields p k i finished => exact line.finishActor idle runs nested valid finished
  | groupGoesOn | taskGoesOn | workGoesOn => exact line.setPc _

/-- A forced stop goes on. An actor that has continuations is not schedulable. -/
theorem cleanNext {isRunning : Bool} {others : List StopFrame} (line : s.InLine)
    (started : ∀ o, s.objs (k :: p) = some o → o.schedStatus ≠ .initialized)
    (top : s.stops = .clean (k :: p) isRunning :: others)
    (cleaned : s.cleanNext p k others = some s') : s'.InLine := by
  cases cleansNext cleaned with
  | next sched stop mailbox a found task tasks front =>
    have scheduled : sched = .scheduled := by
      cases sched with
      | scheduled => rfl
      | initialized => exact absurd rfl (started _ found)
      | schedulable =>
        have quiet := line.idle (Set.notMem_empty _) (ready_of_objs found) rfl
        simp [ReadyNode.Quiet, ActorObject.readyNode, ActorObject.hasWork, front] at quiet
    subst scheduled
    have busy {o : ActorObject} (stored : s.objs (k :: p) = some o) :
        o.schedStatus = .scheduled := by
      obtain rfl := Option.some.inj (found.symm.trans stored)
      rfl
    let s₁ := s.update (k :: p) (·.setTasks fun _ => tasks)
    let s₂ : Shard := { s₁ with stops := .clean (k :: p) true :: others }
    have taken : s₁.InLine :=
      line.wakes (.mapActor (fun o stored => by simp [busy stored]) _) rfl
    have ready : s₂.ready (k :: p) = some
        (⟨.scheduled, stop, mailbox, .actor { a with taskQueue := tasks }⟩ :
          ActorObject).readyNode := by
      refine ready_of_objs ?_
      show s₁.objs (k :: p) = _
      rw [objs_update_self, found]
      rfl
    have begun : s₂.InLine := by
      refine { taken with runs := Set.subset_union_left, held := ?_ }
      rintro q (member | cleaning)
      · exact taken.held (.inl member)
      · rcases List.mem_cons.mp cleaning with same | later
        · obtain ⟨rfl, -⟩ := StopFrame.clean.inj same
          exact ⟨_, ready, rfl⟩
        · refine taken.held (.inr ?_)
          show StopFrame.clean q true ∈ s.stops
          rw [top]
          exact List.mem_cons_of_mem _ later
    exact begun.runTask (.inr List.mem_cons_self) task
  | ends sched stop mailbox a found none =>
    have popped : Touches s { s with stops := others } := by
      refine .single (.setStops fun member => .inl ?_)
      rw [top]
      exact List.mem_cons_of_mem _ member
    exact line.touches (.trans popped (.trans .activateIdle .disable))

theorem userStep {label : Label} (line : s.InLine) (valid : s.tree.Valid)
    (own : s.LimitsItself label) (taken : s.userStep label = some s') : s'.InLine := by
  cases label with
  | setMaxConcurrency p concurrency =>
    obtain rfl := Option.some.inj taken
    have held := mem_of_runningActor own
    exact line.wakes (.mapActor (fun o found => by simp [line.busy held found]) _) rfl
  | _ => exact line.touches (touches_userStep valid (by simp) taken)

theorem stopStep {frame : StopFrame} {others : List StopFrame} {label : Label} (line : s.InLine)
    (settled : IdleSettled s) (top : s.stops = frame :: others)
    (taken : s.stopStep frame others label = some s') : s'.InLine := by
  cases takesStopStep taken with
  | cleanNext p k running needYield i cleaned =>
    exact line.cleanNext (fun o => settled.sched.ready (List.cons_ne_nil _ _)) top cleaned
  | stopNext force m k entry => exact line.touches (.stopChildActor _)
  | stopSystemEnd force needYield m i ended => exact line.touches (touches_stopSystemEnd top ended)

theorem step {label : Label} (line : s.InLine) (settled : IdleSettled s) (valid : s.tree.Valid)
    (own : s.LimitsItself label) (taken : s.step label = some s') : s'.InLine := by
  cases takesStep taken with
  | user isUser point acted => exact line.userStep valid own acted
  | stop frame rest isUser top went => exact line.stopStep settled top went
  | run frame rest isUser idle runs went => exact line.runStep idle runs settled.nested valid went
  | dispatch i idle runs entered => exact line.enterChild entered

theorem init (limitOf : ActorKey → Nat) : (init limitOf).InLine := by
  have only {p : Path} {n : ReadyNode ActorKey} (stored : (Shard.init limitOf).ready p = some n) :
      p = [] ∧ n = ⟨.fresh, false, some []⟩ := by
    obtain ⟨o, found, rfl⟩ := exists_of_ready stored
    unfold Shard.init at found
    simp only at found
    split at found
    · exact ⟨by assumption, by rw [← Option.some.inj found]; rfl⟩
    · cases found
  constructor
  case root =>
    intro n stored idle
    rw [(only stored).2] at idle
    cases idle
  case parent => exact fun stored => absurd (only stored).1 (List.cons_ne_nil _ _)
  case idle =>
    intro p n _ stored idle
    rw [(only stored).2] at idle
    cases idle
  case queued => exact fun stored => absurd (only stored).1 (List.cons_ne_nil _ _)
  case unqueued =>
    intro k p g stored _
    rw [(only stored).2]
    exact List.not_mem_nil
  case runs => exact Set.subset_union_left
  case held =>
    rintro p (⟨frame, member, -⟩ | cleaning)
    · cases member
    · cases cleaning

end InLine

theorem inLine_of_run {limitOf : ActorKey → Nat} {labels : List Label}
    (own : StepsMeet Shard.step LimitsItself (init limitOf) labels)
    (ran : run Shard.step (init limitOf) labels = some s) : s.InLine := by
  have invariant : s.tree.Valid ∧ IdleSettled s ∧ s.InLine := by
    refine run_invariant_of_meets (fun s => s.tree.Valid ∧ IdleSettled s ∧ s.InLine) ?_ labels _ s
      ?_ own
      ran
    · rintro t label t' ⟨valid, settled, line⟩ own taken
      exact ⟨valid.steps (refines_step valid taken), settled.step valid taken,
        line.step settled valid own taken⟩
    · exact ⟨tree_init limitOf ▸ LifeTree.valid_rootOnly _, IdleSettled.init limitOf,
        InLine.init limitOf⟩
  exact invariant.2.2

/-- No wakeup is lost and nothing is scheduled twice. In every state that a run reaches, an actor
that is schedulable has no continuation, and no message or as many methods in flight as it may
have; a group that is schedulable has neither; one that is scheduled and does not run is once in
the queue of its parent; and in a queue there is nothing else. -/
theorem no_lost_wakeup (limitOf : ActorKey → Nat) (labels : List Label) (s : Shard)
    (own : StepsMeet Shard.step LimitsItself (init limitOf) labels)
    (ran : run Shard.step (init limitOf) labels = some s) :
    (∀ p stop mailbox a, s.objs p = some ⟨.schedulable, stop, mailbox, .actor a⟩ →
      a.taskQueue = [] ∧ (mailbox = [] ∨ a.maxConcurrency ≤ a.curConcurrency)) ∧
    (∀ p stop mailbox g, s.objs p = some ⟨.schedulable, stop, mailbox, .group g⟩ →
      g.taskQueue = [] ∧ mailbox = []) ∧
    (∀ k p o, s.objs (k :: p) = some o → o.schedStatus = .scheduled →
      (∀ frame ∈ s.runs, frame.path ≠ k :: p) →
      ∃ sched stop mailbox g, s.objs p = some ⟨sched, stop, mailbox, .group g⟩ ∧
        g.taskQueue.count k = 1) ∧
    (∀ k p sched stop mailbox g, s.objs p = some ⟨sched, stop, mailbox, .group g⟩ →
      (∀ o, s.objs (k :: p) = some o → o.schedStatus = .scheduled →
        ∃ frame ∈ s.runs, frame.path = k :: p) → k ∉ g.taskQueue) := by
  have line := inLine_of_run own ran
  refine ⟨?_, ?_, ?_, ?_⟩
  · intro p stop mailbox a found
    obtain ⟨noWork, -⟩ := line.idle (Set.notMem_empty _) (ready_of_objs found) rfl
    simp only [ActorObject.readyNode, ActorObject.hasWork, decide_eq_false_iff_not, not_or,
      not_and, not_lt, ne_eq, not_not] at noWork
    exact ⟨noWork.1, or_iff_not_imp_left.mpr noWork.2⟩
  · intro p stop mailbox g found
    obtain ⟨noWork, noChildren⟩ := line.idle (Set.notMem_empty _) (ready_of_objs found) rfl
    exact ⟨noChildren, by simpa [ActorObject.readyNode, ActorObject.hasWork] using noWork⟩
  · intro k p o found scheduled notRunning
    obtain ⟨n, stored, inner⟩ := line.parent (ready_of_objs found)
    obtain ⟨parent, above, rfl⟩ := exists_of_ready stored
    have once := line.queued (ready_of_objs found) stored (o.ready_iff.mpr scheduled)
      (fun ⟨frame, member, path⟩ => notRunning frame member path)
    cases parent with
    | mk sched stop mailbox body =>
      cases body with
      | actor a => cases inner
      | group g => exact ⟨sched, stop, mailbox, g, above, once⟩
  · intro k p sched stop mailbox g found none
    refine line.unqueued (ready_of_objs found) (fun n stored ready => ?_)
    obtain ⟨o, child, rfl⟩ := exists_of_ready stored
    exact none o child (o.ready_iff.mp ready)

/-- An actor sets its limit to one method and is left with a method in flight and one more
message. -/
def limitedRun : List Label :=
  [.receive [⟨1, 7⟩] .user 3 5, .dispatch 0, .advance false 0, .advance false 0,
    .setMaxConcurrency [⟨1, 7⟩] 1, .workPending, .receive [⟨1, 7⟩] .user 3 6, .dispatch 0,
    .advance false 0]

theorem no_lost_wakeup_limited :
    StepsMeet Shard.step LimitsItself (init fun _ => 2 ^ 32 - 1) limitedRun ∧
    ∃ s, run Shard.step (init fun _ => 2 ^ 32 - 1) limitedRun = some s ∧
      ∃ a, s.objs [⟨1, 7⟩] = some ⟨.schedulable, .running, [⟨2, .user, 3, 6⟩], .actor a⟩ ∧
        a.taskQueue = [] ∧ a.maxConcurrency ≤ a.curConcurrency := by
  have own : StepsMeet Shard.step LimitsItself (init fun _ => 2 ^ 32 - 1) limitedRun := by decide
  refine ⟨own, _, rfl, ⟨[], 1, 1, [⟨1, .user, 3, 5⟩]⟩, by decide, ?_⟩
  have idle := (no_lost_wakeup (fun _ => 2 ^ 32 - 1) limitedRun _ own rfl).1 [⟨1, 7⟩] .running
    [⟨2, .user, 3, 6⟩] ⟨[], 1, 1, [⟨1, .user, 3, 5⟩]⟩ (by decide)
  exact ⟨idle.1, idle.2.resolve_left (List.cons_ne_nil _ _)⟩

end Shard

end Hiactor
