import Hiactor.Core.Proofs.ShardFrames
import Hiactor.Core.Proofs.ShardTouches

/-!
# Forced stops and the limit

A `FORCE_STOP` at the front of the mailbox of an actor is seen by its next `run_and_dispose` only
when the run comes to its mailbox loop, and it is obeyed only by an actor that is not stopping yet.
What one step inside the run does to the actor is said once, and the outcome of the whole run is
derived from it.
-/

namespace Hiactor

open Lib

/-- The continuations of an actor. -/
def ActorObject.tasks (o : ActorObject) : List Task := match o.body with
  | .group _ => []
  | .actor a => a.taskQueue

/-- At the test of the limit: the actor is not at its limit, and it is not stopping and has a
`FORCE_STOP` for its next message, or has nothing in flight. -/
def ActorObject.heedsForce (o : ActorObject) : Bool :=
  o.curConcurrency != o.maxConcurrency && (o.curConcurrency == 0 ||
    (o.stopStatus == .running && o.mailbox.head?.any (·.type == .forceStop)))

namespace Shard

variable {s s' t : Shard} {p q : Path} {k : ActorKey} {o o' : ActorObject} {pc : Pc}
  {rest : List RunFrame} {label : Label}

/-- In this step `need_yield` is asked and returns true. -/
def yields (s : Shard) (label : Label) : Bool := (s.asksYield label).isSome && match label with
  | .advance needYield _ => needYield
  | _ => false

/-! ## Inside the run of an actor -/

/-- The loop of `clean_task_queue` of an actor runs only when the actor was stopped by force. -/
def CleansForced (s : Shard) (q : Path) (o : ActorObject) : Prop :=
  ∀ running, .clean q running ∈ s.stops → o.stopStatus = .forceStopping

theorem CleansForced.of_idle (idle : s.stops = []) : s.CleansForced q o := by
  intro running member
  rw [idle] at member
  cases member

theorem CleansForced.touch (cleans : s.CleansForced q o) (touch : Touch s s')
    (found : s.objs q = some o) (found' : s'.objs q = some o') : s'.CleansForced q o' := by
  have kept (running : Bool) (member : .clean q running ∈ s.stops) :
      o'.stopStatus = .forceStopping :=
    (Touches.single touch).forced found (cleans running member) found'
  intro running member
  cases touch with
  | emit | setStop | cancel | setEntry | land | setNextMid => exact kept running member
  | activate p => exact kept running ((stops_activate s p) ▸ member)
  | enqueMessage p user =>
    rw [Shard.enqueMessage, stops_activate] at member
    exact kept running member
  | enqueUrgentMessage p other =>
    rw [Shard.enqueUrgentMessage, stops_activate] at member
    exact kept running member
  | addTask p task urgent =>
    rw [Shard.addTask, stops_activate] at member
    exact kept running member
  | createChild absent above group => exact kept running (stops_createChild ▸ member)
  | cleanMailbox forced =>
    refine kept running ?_
    unfold Shard.cleanMailbox at member
    split at member
    · exact member
    · exact member
  | setStops cleaning =>
    rcases cleaning member with before | ⟨-, forced⟩
    · exact kept running before
    · exact forced o' found'

theorem CleansForced.touches (cleans : s.CleansForced q o) (touches : Touches s s')
    (found : s.objs q = some o) (found' : s'.objs q = some o') : s'.CleansForced q o' := by
  induction touches generalizing o' with
  | refl =>
    obtain rfl := Option.some.inj (found.symm.trans found')
    exact cleans
  | tail before touch ih =>
    obtain ⟨o₁, found₁, -⟩ := Touches.object before found
    exact (ih found₁).touch touch found₁ found'

/-- The innermost run is that of the actor at `q`. -/
structure Inside (q : Path) (rest : List RunFrame) (s : Shard) (pc : Pc) (o : ActorObject) :
    Prop where
  runs : s.runs = ⟨q, pc⟩ :: rest
  kind : pc.isGroup = false
  found : s.objs q = some o
  cleans : s.CleansForced q o

/-- What a step inside the run keeps of the actor. -/
structure Minds (o o' : ActorObject) : Prop where
  stopped : o.stopStatus ≠ .running → o'.stopStatus = o.stopStatus
  due : o.ForceDue → o'.ForceDue ∨ o'.stopStatus = .forceStopping

theorem Keeps.minds (keeps : Keeps o o') : Minds o o' := ⟨keeps.stopped, keeps.due⟩

theorem Minds.refl (o : ActorObject) : Minds o o := (Keeps.refl o).minds

theorem Minds.trans {o'' : ActorObject} (first : Minds o o') (second : Minds o' o'') :
    Minds o o'' where
  stopped := fun stops => by
    have same := first.stopped stops
    exact (second.stopped (same ▸ stops)).trans same
  due := fun due => by
    rcases first.due due with later | forced
    · exact second.due later
    · exact .inr ((second.stopped (by simp [forced])).trans forced)

namespace Inside

theorem touches (inside : Inside q rest s pc o) (touches : Touches s s') :
    ∃ o', Keeps o o' ∧ Inside q rest s' pc o' := by
  obtain ⟨o', found, keeps⟩ := touches.object inside.found
  exact ⟨o', keeps, touches.runs.trans inside.runs, inside.kind, found,
    inside.cleans.touches touches inside.found found⟩

theorem update (inside : Inside q rest s pc o) (p : Path) {f : ActorObject → ActorObject}
    (same : ∀ o, (f o).stopStatus = o.stopStatus) :
    Inside q rest (s.update p f) pc (if q = p then f o else o) := by
  refine ⟨inside.runs, inside.kind, ?_, fun running member => ?_⟩
  · rw [objs_update]
    split
    · rw [inside.found, Option.map_some]
    · exact inside.found
  · have forced := inside.cleans running member
    split
    · exact (same o).trans forced
    · exact forced

theorem update_self (inside : Inside q rest s pc o) {f : ActorObject → ActorObject}
    (same : ∀ o, (f o).stopStatus = o.stopStatus) : Inside q rest (s.update q f) pc (f o) := by
  have updated := inside.update q same
  rwa [if_pos rfl] at updated

theorem setPc (inside : Inside q rest s pc o) (pc' : Pc) (kind : pc'.isGroup = false) :
    Inside q rest (s.setPc pc') pc' o :=
  ⟨runs_setPc inside.runs pc', kind, inside.found, inside.cleans⟩

theorem emit (inside : Inside q rest s pc o) (e : Event) : Inside q rest (s.emit e) pc o :=
  ⟨inside.runs, inside.kind, inside.found, inside.cleans⟩

/-- A continuation of the actor at `p` runs. -/
theorem runTask (inside : Inside q rest s pc o) (p : Path) (task : Task) :
    ∃ o', Minds o o' ∧ (q ≠ p → o'.curConcurrency = o.curConcurrency) ∧
      Inside q rest (s.runTask p task) pc o' := by
  obtain ⟨o₁, minds, other, finished⟩ : ∃ o₁, Minds o o₁ ∧ (q ≠ p → o₁ = o) ∧
      Inside q rest (s.finishMethod p task) pc o₁ := by
    cases task with
    | user | reply => exact ⟨o, .refl o, fun _ => rfl, inside⟩
    | post msg state =>
      refine ⟨_, ?_, fun different => if_neg different, inside.update p fun o => rfl⟩
      split
      · exact ⟨fun _ => rfl, .inl⟩
      · exact .refl o
  obtain ⟨o', keeps, after⟩ := finished.touches (touches_runTask task)
  exact ⟨o', minds.trans keeps.minds, fun different => keeps.flying.trans (by rw [other different]),
    after⟩

end Inside

/-- What one step does, when `need_yield` is not true: user code or a stop goes on, or the actor
makes its next round and comes to another point or returns. -/
inductive Proceeds (q : Path) (rest : List RunFrame) (s : Shard) (pc : Pc) (o : ActorObject)
    (label : Label) (s' : Shard) : Prop
  | outside {o' : ActorObject} (busy : pc ≠ .tasks ∨ s.stops ≠ [])
    (awake : pc ≠ .mail ∨ s.stops ≠ [])
      (minds : Minds o o')
      (flying : o.stopStatus ≠ .forceStopping → o'.curConcurrency = o.curConcurrency)
      (other : label ≠ .workPending) (inside : Inside q rest s' pc o')
  | task {o' : ActorObject} (here : pc = .tasks) (works : o.tasks ≠ []) (minds : Minds o o')
      (inside : Inside q rest s' .inTask o')
  | nextTask (here : pc = .inTask) (inside : Inside q rest s' .tasks o)
  | full {o' : ActorObject} (here : pc = .tasks) (idle : s.stops = []) (none : o.tasks = [])
      (limit : o.curConcurrency = o.maxConcurrency) (left : s'.runs = rest)
      (found : s'.objs q = some o') (same : o'.stopStatus = o.stopStatus)
  | opens (here : pc = .tasks) (idle : s.stops = []) (none : o.tasks = [])
      (room : o.curConcurrency ≠ o.maxConcurrency) (quiet : s'.stops = [])
      (inside : Inside q rest s' .mail o)
  | destroyed (here : pc = .mail) (empty : o.mailbox = []) (idle : o.curConcurrency = 0)
      (left : s'.runs = rest) (gone : s'.objs q = none)
  | sleeps {o' : ActorObject} (here : pc = .mail) (empty : o.mailbox = [])
      (alive : ¬ (o.stopping = true ∧ o.curConcurrency = 0)) (left : s'.runs = rest)
      (found : s'.objs q = some o') (same : o'.stopStatus = o.stopStatus)
  | starts {m : ActorMessage} {mailbox : List ActorMessage} (here : pc = .mail)
      (front : o.mailbox = m :: mailbox) (user : m.type = .user)
      (inside : Inside q rest s' (.inWork m) (o.setMailbox mailbox))
  | obeys {m : ActorMessage} {mailbox : List ActorMessage} {o' : ActorObject} (force : Bool)
      (here : pc = .mail) (front : o.mailbox = m :: mailbox)
      (asked : m.type = if force then .forceStop else .peaceStop)
      (stops : o.stopStatus = .running →
        o'.stopStatus = if force then .forceStopping else .peaceStopping)
      (stopped : o.stopStatus ≠ .running → o'.stopStatus = o.stopStatus)
      (flying : o'.curConcurrency = o.curConcurrency) (inside : Inside q rest s' .worked o')
  | done {m : ActorMessage} {o' : ActorObject} (here : pc = .inWork m) (minds : Minds o o')
      (flying : o'.curConcurrency = o.curConcurrency) (other : label ≠ .workPending)
      (inside : Inside q rest s' .worked o')
  | pending {m : ActorMessage} {o' : ActorObject} (here : pc = .inWork m)
      (same : o'.stopStatus = o.stopStatus) (flies : label = .workPending)
      (more : 0 < o'.curConcurrency)
      (next : Inside q rest s' .worked o' ∨ (s'.runs = rest ∧ s'.objs q = some o'))
  | nextMail (here : pc = .worked) (quiet : s'.stops = []) (inside : Inside q rest s' .mail o)

/-- `stop_child_actor` for an actor that is running sets its status. -/
theorem status_stopChildActor {force : Bool} (valid : s.tree.Valid)
    (found : s.objs (k :: p) = some o) (actor : o.isGroup = false)
    (running : o.stopStatus = .running)
    (found' : (s.stopChildActor p k force).objs (k :: p) = some o') :
    o'.stopStatus = if force then .forceStopping else .peaceStopping := by
  have alive : o.stopping = false := by simp [ActorObject.stopping, running]
  have reached : s.entry p k = some true := by
    obtain ⟨n, parent, -⟩ := valid.parent (node_tree found)
    obtain ⟨r, above, rfl⟩ := exists_of_node parent
    have entry : s.entry p k = r.entry k := by rw [Shard.entry, above, Option.bind_some]
    cases known : r.entry k with
    | none => exact absurd known (valid.known (node_tree found) parent)
    | some reached =>
      cases reached with
      | true => exact entry.trans known
      | false =>
        have stopped : o.stopping = true := valid.disabled_stopped parent known (node_tree found)
        rw [alive] at stopped
        cases stopped
  have stopped (force : Bool) : (s.update (k :: p) (·.setStop force)).objs (k :: p) =
      some (o.setStop force) := by
    rw [objs_update_self, found, Option.map_some]
  simp only [Shard.stopChildActor, reached, found, actor, alive, Bool.false_eq_true, if_false]
    at found'
  split at found'
  · rename_i forced
    rw [if_pos forced]
    exact (Touches.beginClean (stopped true) rfl).forced (stopped true) rfl found'
  · rename_i peaceful
    rw [if_neg peaceful]
    obtain ⟨o₁, found₁, keeps⟩ := (Touches.trans (s := s.update (k :: p) (·.setStop false))
      .activateIdle .disable).object (stopped false)
    obtain rfl := Option.some.inj (found₁.symm.trans found')
    exact keeps.stopped (by simp [ActorObject.setStop])

/-- The end of a run. -/
theorem finishActor_outcome {sched : SchedStatus} {stop : ActorStatus}
    {mailbox : List ActorMessage} {a : ActorBody} (runs : s.runs = ⟨k :: p, pc⟩ :: rest)
    (found : s.objs (k :: p) = some ⟨sched, stop, mailbox, .actor a⟩)
    (finished : s.finishActor p k = some s') :
    s'.runs = rest ∧
      ((a.curConcurrency = 0 ∧ s'.objs (k :: p) = none) ∨
      (¬ (stop ≠ .running ∧ a.curConcurrency = 0 ∧ mailbox = []) ∧
        ∃ o', s'.objs (k :: p) = some o' ∧ o'.stopStatus = stop ∧
          o'.curConcurrency = a.curConcurrency)) := by
  refine ⟨by rw [runs_finishActor finished, runs, List.tail_cons], ?_⟩
  simp only [Shard.finishActor, found] at finished
  split at finished
  · rename_i ends
    obtain rfl := Option.some.inj finished
    exact .inl ⟨ends.2.1, Function.update_self ..⟩
  · rename_i alive
    refine .inr ⟨by simpa [ActorObject.stopping] using alive, ?_⟩
    have asleep : (s.leave.update (k :: p) (·.setSched .schedulable)).objs (k :: p) =
        some (⟨.schedulable, stop, mailbox, .actor a⟩ : ActorObject) := by
      rw [objs_update_self]
      show (s.objs (k :: p)).map _ = _
      rw [found]
      rfl
    obtain rfl := Option.some.inj finished
    split
    · obtain ⟨o', found', keeps⟩ := (Touches.activate (p := k :: p)).object asleep
      have cores := cores_of_objs found'
      rw [cores_activate, cores_of_objs asleep] at cores
      exact ⟨o', found', (congrArg Core.status (Option.some.inj cores)).symm, keeps.flying⟩
    · exact ⟨_, asleep, rfl, rfl⟩

/-! ## Steps -/

variable {q : Path}

/-- User code runs neither before a test of the task queue nor before one of the mailbox. -/
theorem busy_of_userPoint (runs : s.runs = ⟨q, pc⟩ :: rest) (point : s.userPoint = true) :
    (pc ≠ .tasks ∨ s.stops ≠ []) ∧ (pc ≠ .mail ∨ s.stops ≠ []) := by
  by_cases idle : s.stops = []
  · simp only [userPoint, idle, runs] at point
    constructor
    · left
      rintro rfl
      cases point
    · left
      rintro rfl
      cases point
  · exact ⟨.inr idle, .inr idle⟩

theorem proceeds_userStep (inside : Inside q rest s pc o) (valid : s.tree.Valid)
    (point : s.userPoint = true) (taken : s.userStep label = some s') :
    Proceeds q rest s pc o label s' := by
  obtain ⟨busy, awake⟩ := busy_of_userPoint inside.runs point
  cases label with
  | setMaxConcurrency p concurrency =>
    obtain rfl := Option.some.inj taken
    refine .outside busy awake ?_ ?_ nofun (inside.update p fun o => rfl)
    · split
      · exact ⟨fun _ => rfl, .inl⟩
      · exact .refl o
    · intro _
      split
      · cases o with
        | mk sched stop mailbox body => cases body <;> rfl
      · rfl
  | workPending => cases taken
  | _ =>
    obtain ⟨o', keeps, after⟩ := inside.touches (touches_userStep valid (by simp) taken)
    exact .outside busy awake keeps.minds (fun _ => keeps.flying) (by simp) after

theorem proceeds_cleanNext {running : Bool} {others : List StopFrame}
    (inside : Inside q rest s pc o) (top : s.stops = .clean (k :: p) running :: others)
    (other : label ≠ .workPending) (cleaned : s.cleanNext p k others = some s') :
    Proceeds q rest s pc o label s' := by
  have busy : s.stops ≠ [] := by
    rw [top]
    exact List.cons_ne_nil _ _
  have forced (here : q = k :: p) : o.stopStatus = .forceStopping := by
    refine inside.cleans running ?_
    rw [top, here]
    exact List.mem_cons_self
  cases cleansNext cleaned with
  | next sched stop mailbox a found task tasks _ =>
    have taken := inside.update (k :: p) (f := (·.setTasks fun _ => tasks)) fun o => rfl
    have begun : Inside q rest { s.update (k :: p) (·.setTasks fun _ => tasks) with
        stops := .clean (k :: p) true :: others } pc
        (if q = k :: p then o.setTasks fun _ => tasks else o) := by
      refine ⟨taken.runs, taken.kind, taken.found, fun isRunning member => ?_⟩
      rcases List.mem_cons.mp member with same | later
      · have here := (StopFrame.clean.inj same).1
        rw [if_pos here]
        exact forced here
      · refine taken.cleans isRunning ?_
        show _ ∈ s.stops
        rw [top]
        exact List.mem_cons_of_mem _ later
    obtain ⟨o', minds, flying, after⟩ := begun.runTask (k :: p) task
    refine .outside (.inr busy) (.inr busy) (.trans ?_ minds) (fun free => ?_) other after
    · split
      · exact (Keeps.setTasks o _).minds
      · exact .refl o
    · have different : q ≠ k :: p := fun here => free (forced here)
      rw [flying different, if_neg different]
  | ends sched stop mailbox a found none =>
    have popped : Touches s { s with stops := others } := by
      refine .single (.setStops fun member => .inl ?_)
      rw [top]
      exact List.mem_cons_of_mem _ member
    obtain ⟨o', keeps, after⟩ := inside.touches (popped.trans (.trans .activateIdle .disable))
    exact .outside (.inr busy) (.inr busy) keeps.minds (fun _ => keeps.flying) other after

theorem proceeds_stopStep {frame : StopFrame} {others : List StopFrame}
    (inside : Inside q rest s pc o) (top : s.stops = frame :: others)
    (taken : s.stopStep frame others label = some s') : Proceeds q rest s pc o label s' := by
  have busy : s.stops ≠ [] := by
    rw [top]
    exact List.cons_ne_nil _ _
  have touched (touches : Touches s s') (other : label ≠ .workPending) :
      Proceeds q rest s pc o label s' := by
    obtain ⟨o', keeps, after⟩ := inside.touches touches
    exact .outside (.inr busy) (.inr busy) keeps.minds (fun _ => keeps.flying) other after
  cases takesStopStep taken with
  | cleanNext p k running needYield i cleaned => exact proceeds_cleanNext inside top nofun cleaned
  | stopNext force m k entry => exact touched (.stopChildActor _) nofun
  | stopSystemEnd force needYield m i ended => exact touched (touches_stopSystemEnd top ended) nofun

theorem proceeds_actorTasks (inside : Inside (k :: p) rest s .tasks o) (idle : s.stops = [])
    (ran : s.actorTasks p k = some s') : Proceeds (k :: p) rest s .tasks o label s' := by
  cases runsActorTasks ran with
  | next sched stop mailbox a found task tasks front =>
    obtain rfl := Option.some.inj (inside.found.symm.trans found)
    have taken := inside.update_self (f := (·.setTasks fun _ => tasks)) fun o => rfl
    obtain ⟨o', minds, -, after⟩ := (taken.setPc .inTask rfl).runTask (k :: p) task
    refine .task rfl ?_ (.trans (Keeps.setTasks _ _).minds minds) after
    show a.taskQueue ≠ []
    rw [front]
    exact List.cons_ne_nil _ _
  | full sched stop mailbox a found none full =>
    obtain rfl := Option.some.inj (inside.found.symm.trans found)
    have left : s.leave.runs = rest := by rw [leave, inside.runs, List.tail_cons]
    have asleep := inside.update_self (f := (·.setSched .schedulable)) fun o => rfl
    exact .full rfl idle none full left asleep.found rfl
  | opens sched stop mailbox a found none free =>
    obtain rfl := Option.some.inj (inside.found.symm.trans found)
    exact .opens rfl idle none free idle (inside.setPc .mail rfl)

theorem proceeds_actorMail (inside : Inside (k :: p) rest s .mail o) (valid : s.tree.Valid)
    (handled : s.actorMail p k = some s') : Proceeds (k :: p) rest s .mail o label s' := by
  cases handlesActorMail handled with
  | none sched stop a found finished =>
    obtain rfl := Option.some.inj (inside.found.symm.trans found)
    obtain ⟨left, ⟨none, gone⟩ | ⟨alive, o', found', same, -⟩⟩ :=
      finishActor_outcome inside.runs found finished
    · exact .destroyed rfl rfl none left gone
    · refine .sleeps rfl rfl (fun ends => alive ?_) left found' same
      exact ⟨by simpa [ActorObject.stopping] using ends.1, ends.2, rfl⟩
  | starts sched stop m mailbox a found user =>
    obtain rfl := Option.some.inj (inside.found.symm.trans found)
    have taken := inside.update_self (f := (·.setMailbox mailbox)) fun o => rfl
    exact .starts rfl rfl user ((taken.setPc (.inWork m) rfl).emit _)
  | stops sched stop m mailbox a found force asked =>
    obtain rfl := Option.some.inj (inside.found.symm.trans found)
    have taken := inside.update_self (f := (·.setMailbox mailbox)) fun o => rfl
    have worked := taken.setPc .worked rfl
    have valid' : ((s.update (k :: p) (·.setMailbox mailbox)).setPc .worked).tree.Valid := by
      rw [tree_setPc, tree_update _ _ (fun _ _ => ActorObject.node_setMailbox ..)]
      exact valid
    obtain ⟨o₁, keeps, after⟩ := worked.touches (.stopChildActor (p := p) (k := k) force)
    exact .obeys force rfl rfl asked
      (fun running => status_stopChildActor valid' worked.found rfl running after.found)
      keeps.stopped keeps.flying (after.emit _)

theorem proceeds_workDone {m : ActorMessage} {reply : Option Bool} {state : WorkState}
    (inside : Inside (k :: p) rest s (.inWork m) o) (other : label ≠ .workPending)
    (done : s.workDone p k m reply state = some s') :
    Proceeds (k :: p) rest s (.inWork m) o label s' := by
  have ended : Inside (k :: p) rest (s.worked (k :: p) m reply) .worked o := by
    cases reply with
    | none => exact (inside.setPc .worked rfl).emit _
    | some failed => exact ((inside.emit _).setPc .worked rfl).emit _
  rw [workDone_eq done]
  split
  · obtain ⟨o', keeps, after⟩ := ended.touches (.stopChildActor (p := p) (k := k) true)
    exact .done rfl keeps.minds keeps.flying other after
  · exact .done rfl (.refl o) rfl other ended

theorem proceeds_workPending {m : ActorMessage} (inside : Inside (k :: p) rest s (.inWork m) o)
    (pending : s.workPending p k m = some s') :
    Proceeds (k :: p) rest s (.inWork m) o .workPending s' := by
  have flying := inside.update_self (f := (·.mapActor fun a => { a with
    curConcurrency := a.curConcurrency + 1, inFlight := a.inFlight ++ [m] })) fun o => rfl
  obtain ⟨sched, stop, mailbox, a, found, ⟨full, pending⟩ | ⟨free, rfl⟩⟩ :=
    workPending_cases pending
  · obtain rfl := Option.some.inj (inside.found.symm.trans found)
    obtain ⟨left, ⟨none, -⟩ | ⟨-, o', found', same, more⟩⟩ :=
      finishActor_outcome flying.runs flying.found pending
    · exact absurd none (Nat.succ_ne_zero _)
    · exact .pending rfl same rfl (more ▸ Nat.succ_pos _) (.inr ⟨left, found'⟩)
  · obtain rfl := Option.some.inj (inside.found.symm.trans found)
    have after := flying.setPc .worked rfl
    refine .pending rfl ?_ rfl ?_ (.inl after)
    · rfl
    · exact Nat.succ_pos a.curConcurrency

theorem proceeds_runStep (inside : Inside q rest s pc o) (valid : s.tree.Valid)
    (idle : s.stops = []) (noYield : s.yields label = false)
    (taken : s.runStep ⟨q, pc⟩ label = some s') : Proceeds q rest s pc o label s' := by
  have kind := inside.kind
  cases takesRunStep taken with
  | groupMail | groupTasks | groupYields | groupGoesOn => cases kind
  | actorTasks p k needYield i ran => exact proceeds_actorTasks inside idle ran
  | taskYields p k i finished =>
    simp [Shard.yields, asksYield, idle, inside.runs] at noYield
  | taskGoesOn p k i => exact .nextTask rfl (inside.setPc .tasks rfl)
  | actorMail p k needYield i handled => exact proceeds_actorMail inside valid handled
  | workDone p k m reply state done => exact proceeds_workDone inside (by simp) done
  | workPending p k m pending => exact proceeds_workPending inside pending
  | workYields p k i finished =>
    simp [Shard.yields, asksYield, idle, inside.runs] at noYield
  | workGoesOn p k i => exact .nextMail rfl idle (inside.setPc .mail rfl)

theorem proceeds_step (inside : Inside q rest s pc o) (valid : s.tree.Valid)
    (noYield : s.yields label = false) (taken : s.step label = some s') :
    Proceeds q rest s pc o label s' := by
  cases takesStep taken with
  | user isUser point acted => exact proceeds_userStep inside valid point acted
  | stop frame others isUser top went => exact proceeds_stopStep inside top went
  | run frame others isUser idle here went =>
    obtain ⟨rfl, -⟩ := List.cons.inj (inside.runs.symm.trans here)
    exact proceeds_runStep inside valid idle noYield went
  | dispatch i idle none entered => cases inside.runs.symm.trans none

/-- Only a method that runs goes in flight. -/
theorem inWork_of_workPending (inside : Inside q rest s pc o)
    (taken : s.step .workPending = some s') : ∃ m, pc = .inWork m := by
  cases takesStep taken with
  | user isUser point acted => cases isUser
  | stop frame others isUser top went => cases takesStopStep went
  | run frame others isUser idle here went =>
    obtain ⟨rfl, -⟩ := List.cons.inj (inside.runs.symm.trans here)
    cases takesRunStep went with
    | workPending p k m pending => exact ⟨m, rfl⟩

/-! ## Whole runs -/

/-- The next round of the actor at `q` tests the limit. -/
def testsLimit (s : Shard) (q : Path) : Bool :=
  s.stops.isEmpty && s.runs.head? == some ⟨q, .tasks⟩ && (s.objs q).all (·.tasks.isEmpty)

/-- The actor was stopped by force, or it passes the test of the limit when that is next; and no
method goes in flight otherwise. -/
def heeds (s : Shard) (q : Path) (label : Label) : Bool :=
  (s.objs q).all fun o => o.forceStopping ||
    (label != .workPending && (!s.testsLimit q || o.heedsForce))

/-- The actor at `q` is `FORCE_STOPPING` or destroyed. -/
def StoppedByForce (s : Shard) (q : Path) : Prop :=
  ∀ o, s.objs q = some o → o.stopStatus = .forceStopping

theorem heeds_iff (found : s.objs q = some o) :
    s.heeds q label = true ↔ o.stopStatus = .forceStopping ∨
      (label ≠ .workPending ∧ (s.testsLimit q = true → o.heedsForce = true)) := by
  rw [heeds, found]
  cases s.testsLimit q <;> simp [ActorObject.forceStopping]

theorem heedsForce_iff : o.heedsForce = true ↔ o.curConcurrency ≠ o.maxConcurrency ∧
    (o.curConcurrency = 0 ∨ (o.stopStatus = .running ∧
      ∃ m mailbox, o.mailbox = m :: mailbox ∧ m.type = .forceStop)) := by
  cases mail : o.mailbox <;> simp [ActorObject.heedsForce, mail]

theorem testsLimit_iff (inside : Inside q rest s pc o) :
    s.testsLimit q = true ↔ s.stops = [] ∧ pc = .tasks ∧ o.tasks = [] := by
  simp [testsLimit, inside.runs, inside.found, and_assoc]

/-- The first message of a mailbox in which a `FORCE_STOP` is due. -/
theorem first_of_forceDue {m : ActorMessage} {mailbox : List ActorMessage} (due : o.ForceDue)
    (front : o.mailbox = m :: mailbox) : m.type = .forceStop ∨ m.type ≠ .user := by
  obtain ⟨early, f, late, split, forced, others⟩ := due
  rw [front] at split
  cases early with
  | nil =>
    obtain ⟨rfl, -⟩ := List.cons.inj split
    exact .inl forced
  | cons m' early =>
    obtain ⟨rfl, -⟩ := List.cons.inj split
    exact .inr (others m List.mem_cons_self)

theorem ne_nil_of_forceDue (due : o.ForceDue) : o.mailbox ≠ [] := by
  obtain ⟨early, f, late, split, -⟩ := due
  rw [split]
  simp

/-- The `FORCE_STOP` is or will be obeyed: the actor was stopped by force, has not come to the
test of the limit, or came past it with nothing in flight or with the `FORCE_STOP` next. -/
inductive OnTrack (s : Shard) : Pc → ActorObject → Prop
  | forced {pc : Pc} {o : ActorObject} (forced : o.stopStatus = .forceStopping) : OnTrack s pc o
  | early {pc : Pc} {o : ActorObject} (phase : pc = .tasks ∨ pc = .inTask)
      (due : o.stopStatus = .running → o.ForceDue) : OnTrack s pc o
  | quiet {pc : Pc} {o : ActorObject} (phase : pc ≠ .tasks ∧ pc ≠ .inTask)
      (peace : o.stopStatus = .peaceStopping) (idle : o.curConcurrency = 0) : OnTrack s pc o
  | next {o : ActorObject} (quiet : s.stops = []) (running : o.stopStatus = .running)
      (due : o.ForceDue) (hope : o.curConcurrency = 0 ∨
        ∃ m mailbox, o.mailbox = m :: mailbox ∧ m.type = .forceStop) : OnTrack s .mail o

/-- The `FORCE_STOP` will not be obeyed: methods are in flight, and the actor is stopping in peace
or about to. -/
inductive OffTrack (s : Shard) : Pc → ActorObject → Prop
  | peaceful {pc : Pc} {o : ActorObject} (phase : pc ≠ .tasks ∧ pc ≠ .inTask)
      (peace : o.stopStatus = .peaceStopping) (flying : 0 < o.curConcurrency) : OffTrack s pc o
  | next {o : ActorObject} (quiet : s.stops = []) (running : o.stopStatus = .running)
      (due : o.ForceDue) (late : ∀ m mailbox, o.mailbox = m :: mailbox → m.type ≠ .forceStop)
      (flying : 0 < o.curConcurrency) : OffTrack s .mail o

theorem stoppedByForce (found : s.objs q = some o) (forced : o.stopStatus = .forceStopping) :
    s.StoppedByForce q := by
  intro o' stored
  obtain rfl := Option.some.inj (found.symm.trans stored)
  exact forced

theorem not_stoppedByForce (found : s.objs q = some o) (other : o.stopStatus ≠ .forceStopping) :
    ¬ s.StoppedByForce q := fun stopped => other (stopped o found)

/-- Before the test of the limit a `FORCE_STOP` that is due stays due. -/
theorem Minds.early {pc' : Pc} (minds : Minds o o') (due : o.stopStatus = .running → o.ForceDue)
    (phase : pc' = .tasks ∨ pc' = .inTask) : OnTrack s' pc' o' := by
  by_cases running : o.stopStatus = .running
  · rcases minds.due (due running) with due' | forced
    · exact .early phase fun _ => due'
    · exact .forced forced
  · exact .early phase fun running' => absurd ((minds.stopped running).symm.trans running') running

/-- An actor that was stopped by force stays so. -/
theorem Proceeds.forced (proceeds : Proceeds q rest s pc o label s')
    (forced : o.stopStatus = .forceStopping) :
    (∃ pc' o', Inside q rest s' pc' o' ∧ OnTrack s' pc' o') ∨
      (s'.runs = rest ∧ s'.StoppedByForce q) := by
  have stopped : o.stopStatus ≠ .running := by simp [forced]
  cases proceeds with
  | outside busy awake minds flying other inside =>
    exact .inl ⟨_, _, inside, .forced ((minds.stopped stopped).trans forced)⟩
  | task here works minds inside =>
    exact .inl ⟨_, _, inside, .forced ((minds.stopped stopped).trans forced)⟩
  | nextTask here inside => exact .inl ⟨_, _, inside, .forced forced⟩
  | full here idle none limit left found same =>
    exact .inr ⟨left, stoppedByForce found (same.trans forced)⟩
  | opens here idle none room quiet inside => exact .inl ⟨_, _, inside, .forced forced⟩
  | destroyed here empty idle left gone =>
    exact .inr ⟨left, fun o stored => by rw [gone] at stored; cases stored⟩
  | sleeps here empty alive left found same =>
    exact .inr ⟨left, stoppedByForce found (same.trans forced)⟩
  | starts here front user inside => exact .inl ⟨_, _, inside, .forced forced⟩
  | obeys force here front asked stops stays flying inside =>
    exact .inl ⟨_, _, inside, .forced ((stays stopped).trans forced)⟩
  | done here minds flying other inside =>
    exact .inl ⟨_, _, inside, .forced ((minds.stopped stopped).trans forced)⟩
  | pending here same flies more next =>
    rcases next with inside | ⟨left, found⟩
    · exact .inl ⟨_, _, inside, .forced (same.trans forced)⟩
    · exact .inr ⟨left, stoppedByForce found (same.trans forced)⟩
  | nextMail here quiet inside => exact .inl ⟨_, _, inside, .forced forced⟩

/-- A step that heeds the `FORCE_STOP`. -/
theorem OnTrack.step (on : OnTrack s pc o) (inside : Inside q rest s pc o)
    (heeds : s.heeds q label = true) (proceeds : Proceeds q rest s pc o label s') :
    (∃ pc' o', Inside q rest s' pc' o' ∧ OnTrack s' pc' o') ∨
      (s'.runs = rest ∧ s'.StoppedByForce q) := by
  by_cases forced : o.stopStatus = .forceStopping
  · exact proceeds.forced forced
  rw [heeds_iff inside.found, testsLimit_iff inside] at heeds
  obtain ⟨notPending, passes⟩ := heeds.resolve_left forced
  cases on with
  | forced already => exact absurd already forced
  | early phase due =>
    cases proceeds with
    | outside busy awake minds flying other inside =>
      exact .inl ⟨_, _, inside, minds.early due phase⟩
    | task here works minds inside => exact .inl ⟨_, _, inside, minds.early due (.inr rfl)⟩
    | nextTask here inside => exact .inl ⟨_, _, inside, .early (.inl rfl) due⟩
    | full here idle none limit left found same =>
      exact absurd limit (heedsForce_iff.mp (passes ⟨idle, here, none⟩)).1
    | opens here idle none room quiet inside =>
      obtain ⟨-, hope⟩ := heedsForce_iff.mp (passes ⟨idle, here, none⟩)
      refine .inl ⟨_, _, inside, ?_⟩
      cases status : o.stopStatus with
      | running => exact .next quiet status (due status) (hope.imp_right And.right)
      | peaceStopping =>
        exact .quiet (by simp) status (hope.resolve_right (by simp [status]))
      | forceStopping => exact absurd status forced
    | destroyed here | sleeps here | starts here | obeys _ here | done here | pending here
    | nextMail here => simp [here] at phase
  | quiet phase peace idle =>
    cases proceeds with
    | outside busy awake minds flying other inside =>
      exact .inl ⟨_, _, inside, .quiet phase ((minds.stopped (by simp [peace])).trans peace)
        ((flying forced).trans idle)⟩
    | task here | nextTask here | full here | opens here => simp [here] at phase
    | destroyed here empty none left gone =>
      exact .inr ⟨left, fun o stored => by rw [gone] at stored; cases stored⟩
    | sleeps here empty alive left found same =>
      exact absurd ⟨by simp [ActorObject.stopping, peace], idle⟩ alive
    | starts here front user inside => exact .inl ⟨_, _, inside, .quiet (by simp) peace idle⟩
    | obeys force here front asked stops stays flying inside =>
      exact .inl ⟨_, _, inside, .quiet (by simp) ((stays (by simp [peace])).trans peace)
        (flying.trans idle)⟩
    | done here minds flying other inside =>
      exact .inl ⟨_, _, inside, .quiet (by simp) ((minds.stopped (by simp [peace])).trans peace)
        (flying.trans idle)⟩
    | pending here same flies more next => exact absurd flies notPending
    | nextMail here quiet inside => exact .inl ⟨_, _, inside, .quiet (by simp) peace idle⟩
  | next quiet running due hope =>
    cases proceeds with
    | outside busy awake => simp [quiet] at awake
    | task here | nextTask here | full here | opens here | done here | pending here
    | nextMail here => cases here
    | destroyed here empty | sleeps here empty => exact absurd empty (ne_nil_of_forceDue due)
    | starts here front user =>
      rcases first_of_forceDue due front with forced' | other
      · rw [user] at forced'
        cases forced'
      · exact absurd user other
    | obeys force here front asked stops stays flying inside =>
      cases force with
      | true => exact .inl ⟨_, _, inside, .forced (stops running)⟩
      | false =>
        have idle : o.curConcurrency = 0 := by
          refine hope.resolve_right ?_
          rintro ⟨m', mailbox', front', forced'⟩
          obtain ⟨rfl, -⟩ := List.cons.inj (front.symm.trans front')
          rw [asked] at forced'
          cases forced'
        exact .inl ⟨_, _, inside, .quiet (by simp) (stops running) (flying.trans idle)⟩

/-- A step that does not heed it. -/
theorem OnTrack.derails (on : OnTrack s pc o) (inside : Inside q rest s pc o)
    (heedless : s.heeds q label ≠ true) (proceeds : Proceeds q rest s pc o label s')
    (taken : s.step label = some s') :
    (∃ pc' o', Inside q rest s' pc' o' ∧ OffTrack s' pc' o') ∨
      (s'.runs = rest ∧ ¬ s'.StoppedByForce q) := by
  rw [Ne, heeds_iff inside.found, testsLimit_iff inside, not_or] at heedless
  obtain ⟨notForced, heedless⟩ := heedless
  by_cases flies : label = .workPending
  · subst flies
    obtain ⟨m, rfl⟩ := inWork_of_workPending inside taken
    cases on with
    | forced already => exact absurd already notForced
    | early phase => simp at phase
    | quiet phase peace idle =>
      cases proceeds with
      | outside busy awake minds flying other => exact absurd rfl other
      | done here minds flying other => exact absurd rfl other
      | pending here same flies more next =>
        rcases next with inside' | ⟨left, found⟩
        · exact .inl ⟨_, _, inside', .peaceful (by simp) (same.trans peace) more⟩
        · exact .inr ⟨left, not_stoppedByForce found (by simp [same, peace])⟩
      | task here | nextTask here | full here | opens here | destroyed here | sleeps here
      | starts here | obeys _ here | nextMail here => cases here
  · have blind : (s.stops = [] ∧ pc = .tasks ∧ o.tasks = []) ∧ o.heedsForce ≠ true := by
      by_contra fine
      exact heedless ⟨flies, fun tests => by_contra fun fails => fine ⟨tests, fails⟩⟩
    obtain ⟨⟨idle, rfl, none⟩, fails⟩ := blind
    cases on with
    | forced already => exact absurd already notForced
    | quiet phase => simp at phase
    | early phase due =>
      cases proceeds with
      | outside busy => simp [idle] at busy
      | task here works => exact absurd none works
      | full here _ _ limit left found same =>
        exact .inr ⟨left, not_stoppedByForce found (same ▸ notForced)⟩
      | opens here _ _ room quiet inside' =>
        rw [Ne, heedsForce_iff, not_and, not_or] at fails
        obtain ⟨flying, late⟩ := fails room
        refine .inl ⟨_, _, inside', ?_⟩
        cases status : o.stopStatus with
        | running =>
          refine .next quiet status (due status) (fun m mailbox front forced => ?_)
            (Nat.pos_of_ne_zero flying)
          exact late ⟨status, m, mailbox, front, forced⟩
        | peaceStopping => exact .peaceful (by simp) status (Nat.pos_of_ne_zero flying)
        | forceStopping => exact absurd status notForced
      | nextTask here | destroyed here | sleeps here | starts here | obeys _ here | done here
      | pending here | nextMail here => cases here

theorem OffTrack.step (off : OffTrack s pc o) (proceeds : Proceeds q rest s pc o label s') :
    (∃ pc' o', Inside q rest s' pc' o' ∧ OffTrack s' pc' o') ∨
      (s'.runs = rest ∧ ¬ s'.StoppedByForce q) := by
  cases off with
  | peaceful phase peace flying =>
    have stopped : o.stopStatus ≠ .running := by simp [peace]
    cases proceeds with
    | outside busy awake minds same other inside =>
      exact .inl ⟨_, _, inside, .peaceful phase ((minds.stopped stopped).trans peace)
        ((same (by simp [peace])) ▸ flying)⟩
    | task here | nextTask here | full here | opens here => simp [here] at phase
    | destroyed here empty idle => exact absurd idle flying.ne'
    | sleeps here empty alive left found same =>
      exact .inr ⟨left, not_stoppedByForce found (by simp [same, peace])⟩
    | starts here front user inside => exact .inl ⟨_, _, inside, .peaceful (by simp) peace flying⟩
    | obeys force here front asked stops stays same inside =>
      exact .inl ⟨_, _, inside, .peaceful (by simp) ((stays stopped).trans peace) (same ▸ flying)⟩
    | done here minds same other inside =>
      exact .inl ⟨_, _, inside, .peaceful (by simp) ((minds.stopped stopped).trans peace)
        (same ▸ flying)⟩
    | pending here same flies more next =>
      rcases next with inside | ⟨left, found⟩
      · exact .inl ⟨_, _, inside, .peaceful (by simp) (same.trans peace) more⟩
      · exact .inr ⟨left, not_stoppedByForce found (by simp [same, peace])⟩
    | nextMail here quiet inside => exact .inl ⟨_, _, inside, .peaceful (by simp) peace flying⟩
  | next quiet running due late flying =>
    cases proceeds with
    | outside busy awake => simp [quiet] at awake
    | task here | nextTask here | full here | opens here | done here | pending here
    | nextMail here => cases here
    | destroyed here empty | sleeps here empty => exact absurd empty (ne_nil_of_forceDue due)
    | starts here front user =>
      exact absurd user ((first_of_forceDue due front).resolve_left (late _ _ front))
    | obeys force here front asked stops stays same inside =>
      cases force with
      | true => exact absurd asked (late _ _ front)
      | false => exact .inl ⟨_, _, inside, .peaceful (by simp) (stops running) (same ▸ flying)⟩

/-! ## The outcome -/

theorem eq_of_returned {labels : List Label} (left : s.runs = rest)
    (stays : StepsMeet Shard.step (fun t _ => t.runs ≠ rest) s labels)
    (ran : run Shard.step s labels = some s') : labels = [] ∧ s' = s := by
  cases labels with
  | nil => exact ⟨rfl, (Option.some.inj ran).symm⟩
  | cons label labels => exact absurd left stays.1

/-- What is left of a run that does not come back to the `FORCE_STOP`. -/
theorem OffTrack.run {labels : List Label} (off : OffTrack s pc o) (inside : Inside q rest s pc o)
    (valid : s.tree.Valid) (stays : StepsMeet Shard.step (fun t _ => t.runs ≠ rest) s labels)
    (noYield : StepsMeet Shard.step (fun t label => t.yields label = false) s labels)
    (ran : Lib.run Shard.step s labels = some s') (ends : s'.runs = rest) :
    ¬ s'.StoppedByForce q := by
  induction labels generalizing s pc o with
  | nil =>
    obtain rfl := Option.some.inj ran
    exact absurd (inside.runs.symm.trans ends) (List.cons_ne_self _ _)
  | cons label labels ih =>
    obtain ⟨s₁, taken, later⟩ := run_cons_eq_some.mp ran
    rcases off.step (proceeds_step inside valid noYield.1 taken) with
      ⟨pc₁, o₁, inside₁, off₁⟩ | ⟨left, other⟩
    · exact ih off₁ inside₁ (valid.steps (refines_step valid taken)) (stays.2 s₁ taken)
        (noYield.2 s₁ taken) later
    · obtain ⟨-, rfl⟩ := eq_of_returned left (stays.2 s₁ taken) later
      exact other

/-- What is left of a run that may still obey the `FORCE_STOP`. -/
theorem OnTrack.run {labels : List Label} (on : OnTrack s pc o) (inside : Inside q rest s pc o)
    (valid : s.tree.Valid) (stays : StepsMeet Shard.step (fun t _ => t.runs ≠ rest) s labels)
    (noYield : StepsMeet Shard.step (fun t label => t.yields label = false) s labels)
    (ran : Lib.run Shard.step s labels = some s') (ends : s'.runs = rest) :
    s'.StoppedByForce q ↔
      StepsMeet Shard.step (fun t label => t.heeds q label = true) s labels := by
  induction labels generalizing s pc o with
  | nil =>
    obtain rfl := Option.some.inj ran
    exact absurd (inside.runs.symm.trans ends) (List.cons_ne_self _ _)
  | cons label labels ih =>
    obtain ⟨s₁, taken, later⟩ := run_cons_eq_some.mp ran
    have proceeds := proceeds_step inside valid noYield.1 taken
    have valid₁ := valid.steps (refines_step valid taken)
    rw [stepsMeet_cons taken]
    by_cases heeds : s.heeds q label = true
    · rcases on.step inside heeds proceeds with ⟨pc₁, o₁, inside₁, on₁⟩ | ⟨left, stopped⟩
      · rw [ih on₁ inside₁ valid₁ (stays.2 s₁ taken) (noYield.2 s₁ taken) later]
        exact (and_iff_right heeds).symm
      · obtain ⟨rfl, rfl⟩ := eq_of_returned left (stays.2 s₁ taken) later
        exact iff_of_true stopped ⟨heeds, trivial⟩
    · refine iff_of_false ?_ fun meets => heeds meets.1
      rcases on.derails inside heeds proceeds taken with ⟨pc₁, o₁, inside₁, off₁⟩ | ⟨left, other⟩
      · exact off₁.run inside₁ valid₁ (stays.2 s₁ taken) (noYield.2 s₁ taken) later ends
      · obtain ⟨-, rfl⟩ := eq_of_returned left (stays.2 s₁ taken) later
        exact other

/-- A `run_and_dispose` of the actor at `q` in which `need_yield` never returns true: it begins
in `s`, before a round of the task loop, and has returned in `s'`. -/
structure ActorRun (q : Path) (s : Shard) (labels : List Label) (s' : Shard) : Prop where
  idle : s.stops = []
  begins : s.runs = ⟨q, .tasks⟩ :: s'.runs
  stays : StepsMeet Shard.step (fun t _ => t.runs ≠ s'.runs) s labels
  noYield : StepsMeet Shard.step (fun t label => t.yields label = false) s labels
  ran : run Shard.step s labels = some s'

/-- A run that finds a `FORCE_STOP` at the front of the mailbox leaves the actor
`FORCE_STOPPING` or destroyed if and only if each of its steps heeds it. -/
theorem stoppedByForce_iff {q : Path} {s s' : Shard} {sched : SchedStatus} {stop : ActorStatus}
    {m : ActorMessage} {mailbox : List ActorMessage} {a : ActorBody} {labels : List Label}
    (valid : s.tree.Valid)
    (found : s.objs q = some ⟨sched, stop, m :: mailbox, .actor a⟩) (front : m.type = .forceStop)
    (actorRun : ActorRun q s labels s') :
    s'.StoppedByForce q ↔
      StepsMeet Shard.step (fun t label => t.heeds q label = true) s labels := by
  have inside : Inside q s'.runs s .tasks ⟨sched, stop, m :: mailbox, .actor a⟩ :=
    ⟨actorRun.begins, rfl, found, .of_idle actorRun.idle⟩
  have on : OnTrack s .tasks ⟨sched, stop, m :: mailbox, .actor a⟩ :=
    .early (.inl rfl) fun _ => ⟨[], m, mailbox, rfl, front, by simp⟩
  exact on.run inside valid actorRun.stays actorRun.noYield actorRun.ran rfl

/-- An actor gets a `FORCE_STOP` while one of its methods is in flight, and a run begins. -/
def forcedLabels (reentrant : Bool) : List Label :=
  [.receive [⟨1, 7⟩] .user 3 5, .dispatch 0, .advance false 0, .advance false 0, .workPending] ++
    (if reentrant then [.advance false 0, .advance false 0] else []) ++
    [.receive [⟨1, 7⟩] .forceStop 3 0, .dispatch 0]

def reentrantStart : Shard :=
  (run Shard.step (init fun _ => 2 ^ 32 - 1) (forcedLabels true)).get (by decide +kernel)

/-- The run comes to its mailbox loop, obeys, and returns when the mailbox is empty. -/
def obeyingRun : List Label :=
  [.advance false 0, .advance false 0, .advance false 0, .advance false 0, .advance false 0]

def reentrantEnd : Shard := (run Shard.step reentrantStart obeyingRun).get (by decide +kernel)

/-- The actor is not at its limit, and stops while its method is in flight. -/
theorem stoppedByForce_reentrant :
    StepsMeet Shard.step (fun t label => t.heeds [⟨1, 7⟩] label = true) reentrantStart obeyingRun ∧
      (reentrantEnd.objs [⟨1, 7⟩]).map (·.curConcurrency) = some 1 ∧
      reentrantEnd.StoppedByForce [⟨1, 7⟩] := by
  have valid : reentrantStart.tree.Valid :=
    valid_of_reachable ⟨forcedLabels true, (Option.some_get _).symm⟩
  have found : reentrantStart.objs [⟨1, 7⟩] = some ⟨.scheduled, .running,
      [⟨2, .forceStop, 3, 0⟩], .actor ⟨[], 2 ^ 32 - 1, 1, [⟨1, .user, 3, 5⟩]⟩⟩ := by
    decide +kernel
  have heeds : StepsMeet Shard.step (fun t label => t.heeds [⟨1, 7⟩] label = true) reentrantStart
      obeyingRun := by decide +kernel
  have actorRun : ActorRun [⟨1, 7⟩] reentrantStart obeyingRun reentrantEnd :=
    ⟨by decide +kernel, by decide +kernel, by decide +kernel, by decide +kernel,
      (Option.some_get _).symm⟩
  exact ⟨heeds, by decide +kernel, (stoppedByForce_iff valid found rfl actorRun).mpr heeds⟩

def fullStart : Shard :=
  (run Shard.step (init fun _ => 1) (forcedLabels false)).get (by decide +kernel)

def fullEnd : Shard := (fullStart.step (.advance false 0)).get (by decide +kernel)

/-- An actor at its limit leaves the `FORCE_STOP` in its mailbox and goes on. -/
theorem not_stoppedByForce_full :
    ¬ ∀ (q : Path) (s s' : Shard) (sched : SchedStatus) (stop : ActorStatus) (m : ActorMessage)
      (mailbox : List ActorMessage) (a : ActorBody) (labels : List Label), s.tree.Valid →
      s.objs q = some ⟨sched, stop, m :: mailbox, .actor a⟩ → m.type = .forceStop →
      ActorRun q s labels s' → s'.StoppedByForce q := by
  intro always
  have valid : fullStart.tree.Valid :=
    valid_of_reachable ⟨forcedLabels false, (Option.some_get _).symm⟩
  have found : fullStart.objs [⟨1, 7⟩] = some ⟨.scheduled, .running,
      [⟨2, .forceStop, 3, 0⟩], .actor ⟨[], 1, 1, [⟨1, .user, 3, 5⟩]⟩⟩ := by
    decide +kernel
  have actorRun : ActorRun [⟨1, 7⟩] fullStart [.advance false 0] fullEnd :=
    ⟨by decide +kernel, by decide +kernel, by decide +kernel, by decide +kernel, by
      rw [run_cons_eq_some]
      exact ⟨fullEnd, (Option.some_get _).symm, rfl⟩⟩
  have left : fullEnd.objs [⟨1, 7⟩] = some ⟨.schedulable, .running,
      [⟨2, .forceStop, 3, 0⟩], .actor ⟨[], 1, 1, [⟨1, .user, 3, 5⟩]⟩⟩ := by
    decide +kernel
  have stopped := always _ _ _ _ _ _ _ _ _ valid found rfl actorRun _ left
  exact absurd stopped (by decide)

end Shard

end Hiactor
