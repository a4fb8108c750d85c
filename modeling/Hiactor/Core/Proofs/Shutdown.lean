import Mathlib.Algebra.Order.BigOperators.Group.List
import Hiactor.Core.Proofs.Scheduling

/-!
# Shutdown

Every actor object that does not run is settled, in every reachable state. In a shard that is
stopping and at rest, and below a group that is stopping, some actor thus has a method in flight.
-/

namespace Hiactor

open Lib

namespace Shard

/-! ## Whole steps -/

def runPaths (runs : List RunFrame) : Set Path := {p | ∃ frame ∈ runs, frame.path = p}

theorem runPaths_cons (frame : RunFrame) (rest : List RunFrame) :
    runPaths (frame :: rest) = insert frame.path (runPaths rest) := by
  ext p
  constructor
  · rintro ⟨other, member, rfl⟩
    rcases List.mem_cons.mp member with rfl | later
    · exact .inl rfl
    · exact .inr ⟨other, later, rfl⟩
  · rintro (rfl | ⟨other, later, rfl⟩)
    · exact ⟨frame, List.mem_cons_self, rfl⟩
    · exact ⟨other, List.mem_cons_of_mem frame later, rfl⟩

/-- The object that runs, or the root. -/
def topPath : List RunFrame → Path
  | [] => []
  | frame :: _ => frame.path

/-- An object runs inside the run of its parent. -/
def Nested : List RunFrame → Prop
  | [] => True
  | frame :: rest => (∃ k, frame.path = k :: topPath rest) ∧ Nested rest

theorem Nested.parent {runs : List RunFrame} (nested : Nested runs) {i : Nat}
    {child group : RunFrame} (isChild : runs[i]? = some child)
    (isGroup : runs[i + 1]? = some group) :
    ∃ k, child.path = k :: group.path := by
  induction runs generalizing i with
  | nil => cases isChild
  | cons frame rest ih =>
    obtain ⟨⟨k, below⟩, nested⟩ := nested
    cases i with
    | succ i => exact ih nested isChild isGroup
    | zero =>
      obtain rfl := Option.some.inj isChild
      cases rest with
      | nil => cases isGroup
      | cons next rest =>
        obtain rfl := Option.some.inj isGroup
        exact ⟨k, below⟩

theorem Nested.length_le {runs : List RunFrame} (nested : Nested runs) {q : Path}
    (member : q ∈ runPaths runs) : q.length ≤ (topPath runs).length := by
  induction runs with
  | nil =>
    obtain ⟨frame, listed, -⟩ := member
    cases listed
  | cons frame rest ih =>
    obtain ⟨⟨k, path⟩, nested⟩ := nested
    rw [runPaths_cons] at member
    rcases member with rfl | later
    · exact le_rfl
    · calc q.length ≤ (topPath rest).length := ih nested later
        _ ≤ frame.path.length := by rw [path]; exact Nat.le_succ _

/-- Every object that does not run is settled, and those that run are one below the other. -/
structure IdleSettled (s : Shard) : Prop where
  sched : Sched s (runPaths s.runs) ∅
  nested : Nested s.runs

/-- The object at `k :: p` runs. -/
structure Top (s : Shard) (k : ActorKey) (p : Path) (rest : List RunFrame) : Prop where
  runs : ∃ pc, s.runs = ⟨k :: p, pc⟩ :: rest
  sched : Sched s (insert (k :: p) (runPaths rest)) ∅
  top : p = topPath rest
  nested : Nested rest

variable {s s' : Shard} {k : ActorKey} {p : Path} {rest : List RunFrame}

theorem IdleSettled.top (settled : IdleSettled s) {frame : RunFrame} (runs : s.runs = frame :: rest)
    (path : frame.path = k :: p) : Top s k p rest := by
  obtain ⟨sched, nested⟩ := settled
  rw [runs] at sched nested
  rw [runPaths_cons, path] at sched
  obtain ⟨⟨j, below⟩, nested⟩ := nested
  refine ⟨⟨frame.pc, ?_⟩, sched, ?_, nested⟩
  · rw [runs, ← path]
  · exact (List.cons.inj (path.symm.trans below)).2

theorem IdleSettled.enterChild {i : Nat} (settled : IdleSettled s) (above : p = topPath s.runs)
    (entered : s.enterChild p i = some s') : IdleSettled s' := by
  have sched := settled.sched.enterChild entered
  obtain ⟨k, pc, runs⟩ := runs_enterChild entered
  constructor
  · rw [runs, runPaths_cons]
    exact sched.mono (Set.subset_insert ..) subset_rfl
  · rw [runs]
    exact ⟨⟨k, congrArg (k :: ·) above⟩, settled.nested⟩

namespace Top

theorem settled (top : Top s k p rest) : IdleSettled s := by
  obtain ⟨⟨pc, runs⟩, sched, above, nested⟩ := top
  constructor
  · rw [runs, runPaths_cons]
    exact sched
  · rw [runs]
    exact ⟨⟨k, congrArg (k :: ·) above⟩, nested⟩

theorem parent (top : Top s k p rest) : p = [] ∨ p ∈ runPaths rest := by
  rw [top.top]
  cases rest with
  | nil => exact .inl rfl
  | cons frame rest => exact .inr ⟨frame, List.mem_cons_self, rfl⟩

/-- The object goes on. -/
theorem stays (top : Top s k p rest) (same : s'.control = s.control)
    (sched : Sched s' (insert (k :: p) (runPaths rest)) ∅) : Top s' k p rest := by
  obtain ⟨⟨pc, runs⟩, -, above, nested⟩ := top
  exact ⟨⟨pc, (congrArg Prod.fst same).trans runs⟩, sched, above, nested⟩

theorem setPc (top : Top s k p rest) (pc : Pc) : Top (s.setPc pc) k p rest := by
  obtain ⟨⟨pc', runs⟩, sched, above, nested⟩ := top
  refine ⟨⟨pc, ?_⟩, sched.congr rfl rfl, above, nested⟩
  simp [Shard.setPc, runs]

/-- The object returns. -/
theorem returns (top : Top s k p rest) (left : s'.control = s.leave.control)
    (sched : Sched s' (runPaths rest) ∅) : IdleSettled s' := by
  obtain ⟨⟨pc, runs⟩, -, above, nested⟩ := top
  have now : s'.runs = rest := by
    have same : s'.runs = s.runs.tail := congrArg Prod.fst left
    rw [same, runs, List.tail_cons]
  exact ⟨now ▸ sched, now ▸ nested⟩

theorem finishGroup (top : Top s k p rest) (idle : s.stops = [])
    (finished : s.finishGroup p k = some s') : IdleSettled s' :=
  top.returns (control_finishGroup finished) (top.sched.finishGroup idle top.parent finished)

theorem finishActor (top : Top s k p rest) (idle : s.stops = [])
    (finished : s.finishActor p k = some s') : IdleSettled s' :=
  top.returns (control_finishActor finished) (top.sched.finishActor idle top.parent finished)

/-- A group obeys a stop message, and its run goes on. -/
theorem obeyStop (top : Top s k p rest) (valid : s.tree.Valid) (m : ActorMessage)
    (mailbox : List ActorMessage) : Top (s.obeyStop p k m mailbox) k p rest := by
  have stopped := top.sched.takeStop valid (Set.mem_insert ..) mailbox (m.type == .forceStop)
  refine top.stays (control_obeyStop k m mailbox) (Sched.congr (stopped.update ?_) rfl rfl)
  exact fun o _ => o.tame_mapGroup (fun _ _ => id) (fun _ => rfl)

theorem groupMail {needYield : Bool} (top : Top s k p rest) (valid : s.tree.Valid)
    (idle : s.stops = []) (handled : s.groupMail p k needYield = some s') : IdleSettled s' := by
  cases handlesGroupMail handled with
  | none status stop g found => exact (top.setPc _).settled
  | yields status stop m mailbox g found isStop finished =>
    have idle' : (s.obeyStop p k m mailbox).stops = [] := (stops_obeyStop found).trans idle
    exact (top.obeyStop valid m mailbox).finishGroup idle' finished
  | goesOn status stop m mailbox g found isStop => exact (top.obeyStop valid m mailbox).settled

theorem groupTasks {i : Nat} (top : Top s k p rest) (idle : s.stops = [])
    (ran : s.groupTasks p k i = some s') : IdleSettled s' := by
  cases runsGroupTasks ran with
  | none status stop mailbox g found none finished => exact top.finishGroup idle finished
  | enters status stop mailbox g found waiting entered =>
    have moved := top.setPc .groupChild
    obtain ⟨pc, runs⟩ := moved.runs
    exact moved.settled.enterChild (by rw [runs]; rfl) entered

theorem actorTasks (top : Top s k p rest) (valid : s.tree.Valid) (idle : s.stops = [])
    (ran : s.actorTasks p k = some s') : IdleSettled s' := by
  cases runsActorTasks ran with
  | next status stop mailbox a found task tasks front =>
    have taken : Sched (s.update (k :: p) (·.setTasks fun _ => tasks))
        (insert (k :: p) (runPaths rest)) ∅ := top.sched.update (fun o _ => o.tame_setTasks _)
    have moved := (top.stays (control_update _) taken).setPc .inTask
    refine (moved.stays (control_runTask task) (moved.sched.runTask ?_ (.inl (Set.mem_insert ..))
      task)).settled
    rw [tree_setPc, tree_update _ _ (fun _ _ => ActorObject.node_setTasks ..)]
    exact valid
  | full status stop mailbox a found none full =>
    have limit : 0 < a.maxConcurrency := top.sched.limit found
    have asleep := top.sched.sleep found (fun _ => ?_)
    · exact top.returns rfl (asleep.congr rfl rfl)
    refine ⟨fun group => (by cases group), fun _ cleaning => ?_, fun _ _ _ => ?_⟩
    · rw [idle] at cleaning
      cases cleaning
    · exact limit.trans_eq full.symm
  | opens status stop mailbox a found none free => exact (top.setPc .mail).settled

theorem actorMail (top : Top s k p rest) (valid : s.tree.Valid) (idle : s.stops = [])
    (handled : s.actorMail p k = some s') : IdleSettled s' := by
  cases handlesActorMail handled with
  | none status stop a found finished => exact top.finishActor idle finished
  | starts status stop m mailbox a found user =>
    have taken : Sched (s.update (k :: p) (·.setMailbox mailbox))
        (insert (k :: p) (runPaths rest)) ∅ := by
      have loyal := top.sched.update_busy (p := k :: p) (f := (·.setMailbox mailbox))
        (fun o found' => by
          obtain rfl := Option.some.inj (found.symm.trans found')
          refine ⟨ActorObject.kept_setMailbox .., rfl, Or.imp_right ?_⟩
          rintro ⟨m', member, isStop⟩
          rcases List.mem_cons.mp member with rfl | later
          · simp [ActorMessage.isStop, user] at isStop
          · exact ⟨m', later, isStop⟩)
      rwa [Set.insert_idem] at loyal
    have moved := (top.stays (control_update _) taken).setPc (.inWork m)
    have started : Top (((s.update (k :: p) (·.setMailbox mailbox)).setPc (.inWork m)).emit
        (.started m (k :: p))) k p rest := moved.stays rfl (moved.sched.congr rfl rfl)
    exact started.settled
  | stops status stop m mailbox a found force asked =>
    have worked := top.setPc .worked
    refine (worked.stays (by simp; rfl) ?_).settled
    exact Sched.congr (worked.sched.takeStop valid (Set.mem_insert ..) mailbox force) rfl rfl

theorem workDone {m : ActorMessage} {reply : Option Bool} {state : WorkState}
    (top : Top s k p rest) (valid : s.tree.Valid)
    (done : s.workDone p k m reply state = some s') : IdleSettled s' := by
  have ended : Top (s.worked (k :: p) m reply) k p rest := by
    have moved := top.setPc .worked
    cases reply with
    | none => exact moved.stays rfl (moved.sched.congr rfl rfl)
    | some failed => exact moved.stays rfl (moved.sched.congr rfl rfl)
  rw [workDone_eq done]
  split
  · refine (ended.stays (control_stopChildActor k true) ?_).settled
    refine (ended.sched.mono subset_rfl (Set.empty_subset _)).stopChildActor ?_ true
    rw [tree_worked]
    exact valid
  · exact ended.settled

theorem workPending {m : ActorMessage} (top : Top s k p rest) (idle : s.stops = [])
    (pending : s.workPending p k m = some s') : IdleSettled s' := by
  have flying : Sched (s.update (k :: p) (·.mapActor fun a => { a with
      curConcurrency := a.curConcurrency + 1, inFlight := a.inFlight ++ [m] }))
      (insert (k :: p) (runPaths rest)) ∅ :=
    top.sched.update (fun o _ => o.tame_mapActor (fun _ => id) (fun _ => Nat.le_succ _))
  have after := top.stays (control_update _) flying
  obtain ⟨sched, stop, mailbox, a, found, ⟨full, pending⟩ | ⟨free, rfl⟩⟩ :=
    workPending_cases pending
  · exact after.finishActor idle pending
  · exact (after.setPc .worked).settled

theorem runStep {frame : RunFrame} {label : Label} (settled : IdleSettled s) (valid : s.tree.Valid)
    (idle : s.stops = []) (runs : s.runs = frame :: rest)
    (taken : s.runStep frame label = some s') : IdleSettled s' := by
  cases takesRunStep taken with
  | groupMail p k needYield i handled => exact (settled.top runs rfl).groupMail valid idle handled
  | groupTasks p k needYield i ran => exact (settled.top runs rfl).groupTasks idle ran
  | groupYields p k i finished => exact (settled.top runs rfl).finishGroup idle finished
  | actorTasks p k needYield i ran => exact (settled.top runs rfl).actorTasks valid idle ran
  | taskYields p k i finished => exact (settled.top runs rfl).finishActor idle finished
  | actorMail p k needYield i handled => exact (settled.top runs rfl).actorMail valid idle handled
  | workDone p k m reply state done => exact (settled.top runs rfl).workDone valid done
  | workPending p k m pending => exact (settled.top runs rfl).workPending idle pending
  | workYields p k i finished => exact (settled.top runs rfl).finishActor idle finished
  | groupGoesOn p k i | taskGoesOn p k i | workGoesOn p k i =>
    exact ((settled.top runs rfl).setPc _).settled

end Top

namespace IdleSettled

/-- Operations that leave the frames of the runs alone. -/
theorem stays (settled : IdleSettled s) (same : s'.runs = s.runs)
    (sched : Sched s' (runPaths s.runs) ∅) : IdleSettled s' :=
  ⟨same ▸ sched, same ▸ settled.nested⟩

theorem cleanNext {running : Bool} {rest : List StopFrame} (settled : IdleSettled s)
    (valid : s.tree.Valid)
    (top : s.stops = .clean (k :: p) running :: rest)
    (cleaned : s.cleanNext p k rest = some s') : IdleSettled s' := by
  cases cleansNext cleaned with
  | next status stop mailbox a found task tasks _ =>
    have taken : Sched (s.update (k :: p) (·.setTasks fun _ => tasks)) (runPaths s.runs) ∅ :=
      settled.sched.update (fun o _ => o.tame_setTasks _)
    have runs : Sched { s.update (k :: p) (·.setTasks fun _ => tasks) with
        stops := .clean (k :: p) true :: rest } (runPaths s.runs) ∅ :=
      taken.restop (by simp [top, cleanPaths]) (by simp [top])
    refine settled.stays (congrArg Prod.fst (control_runTask task))
      (runs.runTask ?_ (.inr List.mem_cons_self) task)
    have tree : { s.update (k :: p) (·.setTasks fun _ => tasks) with
        stops := .clean (k :: p) true :: rest }.tree = s.tree := by
      rw [tree_setStops, tree_update _ _ (fun _ _ => ActorObject.node_setTasks ..)]
      simp [tree, top, cleanPaths]
    exact tree ▸ valid
  | ends status stop mailbox a found none =>
    refine settled.stays (congrArg Prod.fst (control_activateIdle (s := { s with stops := rest })))
      (Sched.disable (Sched.activateIdle (settled.sched.popClean top) ?_))
    intro o idle found' flying
    obtain rfl := Option.some.inj (found.symm.trans found')
    have below : k :: p ≠ [] := List.cons_ne_nil k p
    have cleaning : k :: p ∈ cleanPaths s.stops := by simp [top, cleanPaths]
    refine (settled.sched.settled below idle found).imp_right (fun quiet => ⟨?_, ?_, ?_⟩)
    · exact fun group => (by cases group)
    · exact fun actor _ => quiet.cleaned actor cleaning
    · exact fun _ _ _ => flying

/-- The loop of `stop_actor_system` ends when no entry of the root is left. -/
theorem stopSystemEnd {force : Bool} {m : ActorMessage} {rest : List StopFrame}
    (settled : IdleSettled s)
    (top : s.stops = .stopSystem force m :: rest) (ended : s.stopSystemEnd m rest = some s') :
    IdleSettled s' := by
  cases endsSystem ended with
  | ends status stop mailbox g found closed =>
    have sched : Sched { s with stops := rest } (runPaths s.runs) ∅ := by
      obtain ⟨ready, still, limit, cleaned, told, root⟩ := settled.sched
      have same : cleanPaths s.stops = cleanPaths rest := by simp [top, cleanPaths]
      rw [same] at still cleaned
      refine ⟨ready, still, limit, cleaned, told, fun found' _ => .inr fun k reached => ?_⟩
      obtain rfl := Option.some.inj (found.symm.trans found')
      obtain ⟨before, after, map, -⟩ := List.lookup_eq_some_iff.mp reached
      exact closed (by simp [map])
    split
    · exact settled.stays rfl (sched.congr rfl rfl)
    · exact settled.stays rfl (sched.congr rfl rfl)

theorem userStep {label : Label} (settled : IdleSettled s) (valid : s.tree.Valid)
    (taken : s.userStep label = some s') : IdleSettled s' := by
  cases label with
  | receive addr type srcShardId prId =>
    obtain ⟨s₁, received, rfl⟩ := Option.map_eq_some_iff.mp taken
    have after := settled.stays (control_receive received).1 (settled.sched.receive valid received)
    exact ⟨after.sched.congr rfl rfl, after.nested⟩
  | addTask p urgent =>
    obtain ⟨-, rfl⟩ := addTask_cases taken
    exact settled.stays (congrArg Prod.fst (control_addTask ..)) (settled.sched.addTask _ _)
  | complete p i reply state =>
    cases completes taken with
    | lands status stop mailbox a found m flying =>
      have landed : Sched (s.update p (·.mapActor fun a => { a with
          inFlight := a.inFlight.eraseIdx i })) (runPaths s.runs) ∅ :=
        settled.sched.update (fun o _ => o.tame_mapActor (fun _ => id) (fun _ => le_rfl))
      exact settled.stays (congrArg Prod.fst (control_addTask ..)) (landed.addTask _ _)
  | setMaxConcurrency p concurrency =>
    obtain rfl := Option.some.inj taken
    exact settled.stays rfl (settled.sched.update (fun o _ =>
      o.tame_mapActor (fun _ _ => maxConcurrencyOf_pos concurrency) (fun _ => le_rfl)))
  | dispatch | advance | workDone | workPending | stopNext => cases taken

theorem stopStep {frame : StopFrame} {rest : List StopFrame} {label : Label}
    (settled : IdleSettled s)
    (valid : s.tree.Valid) (top : s.stops = frame :: rest)
    (taken : s.stopStep frame rest label = some s') : IdleSettled s' := by
  cases takesStopStep taken with
  | cleanNext p k running needYield i cleaned => exact settled.cleanNext valid top cleaned
  | stopNext force m k entry =>
    refine settled.stays (congrArg Prod.fst (control_stopChildActor ..)) ?_
    exact (settled.sched.mono subset_rfl (Set.empty_subset _)).stopChildActor valid _
  | stopSystemEnd force needYield m i ended => exact settled.stopSystemEnd top ended

theorem step {label : Label} (settled : IdleSettled s) (valid : s.tree.Valid)
    (taken : s.step label = some s') : IdleSettled s' := by
  cases takesStep taken with
  | user isUser point acted => exact settled.userStep valid acted
  | stop frame rest isUser top went => exact settled.stopStep valid top went
  | run frame rest isUser idle runs went => exact Top.runStep settled valid idle runs went
  | dispatch i idle runs entered => exact settled.enterChild (by rw [runs]; rfl) entered

theorem init (limitOf : ActorKey → Nat) : IdleSettled (init limitOf) := by
  have only {p : Path} {o : ActorObject} (found : (Shard.init limitOf).objs p = some o) :
      p = [] ∧ o = { body := .group {} } := by
    unfold Shard.init at found
    simp only at found
    split at found
    · exact ⟨by assumption, (Option.some.inj found).symm⟩
    · cases found
  refine ⟨⟨?_, ?_, ?_, ?_, ?_, ?_⟩, trivial⟩
  · exact fun below found => absurd (only found).1 below
  · exact fun below _ found => absurd (only found).1 below
  · intro p o found
    rw [(only found).2]
    exact Nat.one_pos
  · exact fun member => (by cases member)
  · exact fun below _ found => absurd (only found).1 below
  · intro o found stopping
    rw [(only found).2] at stopping
    cases stopping

end IdleSettled

/-- Every reachable state is settled. -/
theorem idleSettled_of_reachable {limitOf : ActorKey → Nat}
    (reachable : Reachable Shard.step (init limitOf) s) : IdleSettled s := by
  have invariant : s.tree.Valid ∧ IdleSettled s := by
    obtain ⟨labels, ran⟩ := reachable
    refine run_invariant (fun s => s.tree.Valid ∧ IdleSettled s) ?_ labels (init limitOf) s ?_ ran
    · rintro t label t' ⟨valid, settled⟩ taken
      exact ⟨valid.steps (refines_step valid taken), settled.step valid taken⟩
    · exact ⟨tree_init limitOf ▸ LifeTree.valid_rootOnly _, IdleSettled.init limitOf⟩
  exact invariant.2

/-! ## Shards at rest -/

/-- No call is under way and no actor object waits for a run. -/
structure AtRest (s : Shard) : Prop where
  runs : s.runs = []
  stops : s.stops = []
  idle : ∀ {p o}, p ≠ [] → s.objs p = some o → o.schedStatus ≠ .scheduled

/-- An actor has a method in flight. -/
def Flying (s : Shard) : Prop :=
  ∃ p o, s.objs p = some o ∧ o.isGroup = false ∧ 0 < o.curConcurrency

/-- An actor at or below `p` has a method in flight. -/
def FlyingBelow (s : Shard) (p : Path) : Prop :=
  ∃ q o, p <:+ q ∧ s.objs q = some o ∧ o.isGroup = false ∧ 0 < o.curConcurrency

variable {o : ActorObject}

/-- An object that neither runs nor is in its forced stop, and is not scheduled, is quiet. -/
theorem IdleSettled.quiet (settled : IdleSettled s) (below : p ≠ []) (found : s.objs p = some o)
    (notRunning : ∀ frame ∈ s.runs, frame.path ≠ p) (notStopped : p ∉ cleanPaths s.stops)
    (notScheduled : o.schedStatus ≠ .scheduled) : o.Quiet False := by
  have idle : p ∉ runPaths s.runs := fun ⟨frame, member, path⟩ => notRunning frame member path
  have quiet := (settled.sched.settled below idle found).resolve_left notScheduled
  exact eq_false notStopped ▸ quiet

theorem AtRest.quiet (rest : AtRest s) (settled : IdleSettled s) (below : p ≠ [])
    (found : s.objs p = some o) : o.Quiet False :=
  settled.quiet below found (by simp [rest.runs]) (by simp [rest.stops, cleanPaths])
    (rest.idle below found)

/-- Below an object that is stopping, or told to, some actor has a method in flight. The tree is
finite: `n` bounds the number of layers below. -/
theorem flying_below_of_bound {depth : Nat} (settled : IdleSettled s) (valid : s.tree.Valid)
    (bound : ∀ p ∈ s.tree.created, p.length ≤ depth) (n : Nat) (below : p ≠ [])
    (quiet : ∀ q c, p <:+ q → s.objs q = some c → c.Quiet False) (found : s.objs p = some o)
    (told : o.Told) (deep : depth < p.length + n) : s.FlyingBelow p := by
  induction n generalizing p o with
  | zero =>
    have created := (valid.live_created (node_tree found)).resolve_left below
    exact absurd (bound p created) (by omega)
  | succ n ih =>
    have quietHere := quiet p o List.suffix_rfl found
    cases group : o.isGroup with
    | false =>
      refine ⟨p, o, List.suffix_rfl, found, group, quietHere.flying group id ?_⟩
      exact told.symm.imp_left fun ⟨m, member, _⟩ => List.ne_nil_of_mem member
    | true =>
      obtain ⟨noMail, children⟩ := quietHere.group group
      have stopping : o.stopping = true := by
        refine told.resolve_right ?_
        rintro ⟨m, member, -⟩
        rw [noMail] at member
        cases member
      obtain ⟨j, c, child⟩ := exists_child valid found (children stopping)
      have toldChild := settled.sched.told below (Set.notMem_empty _) found group stopping child
      have inside : p <:+ j :: p := List.suffix_cons j p
      obtain ⟨q, a, under, flies⟩ := ih (List.cons_ne_nil j p)
        (fun q c under => quiet q c (inside.trans under)) child toldChild
        (by rw [List.length_cons]; omega)
      exact ⟨q, a, inside.trans under, flies⟩

theorem flying_below (settled : IdleSettled s) (valid : s.tree.Valid) (below : p ≠ [])
    (quiet : ∀ q c, p <:+ q → s.objs q = some c → c.Quiet False) (found : s.objs p = some o)
    (told : o.Told) : s.FlyingBelow p := by
  obtain ⟨depth, bound⟩ : ∃ depth, ∀ q ∈ s.tree.created, q.length ≤ depth :=
    ⟨(s.tree.created.map List.length).sum,
      fun q member => List.single_le_sum (by simp) _ (List.mem_map_of_mem member)⟩
  exact flying_below_of_bound settled valid bound (depth + 1) below quiet found told (by omega)

/-- The children of a root that has been stopped are stopping. -/
theorem AtRest.stopping_first (rest : AtRest s) (settled : IdleSettled s) (valid : s.tree.Valid)
    (closed : s.rootStopping = true) (child : s.objs [k] = some o) : o.stopping = true := by
  obtain ⟨n, root, -⟩ := valid.root
  obtain ⟨r, found, rfl⟩ := exists_of_node root
  have stopping : r.stopping = true := by simpa [rootStopping, found] using closed
  have entries : ∀ k, r.entry k ≠ some true := by
    refine (settled.sched.root found stopping).resolve_left ?_
    rintro ⟨force, m, member⟩
    rw [rest.stops] at member
    cases member
  cases known : r.entry k with
  | none => exact absurd known (valid.known (node_tree child) root)
  | some reached =>
    cases reached with
    | true => exact absurd known (entries k)
    | false => exact valid.disabled_stopped root known (node_tree child)

/-- Below the root of a shard that is stopping and at rest some method is in flight. -/
theorem AtRest.flying (rest : AtRest s) (settled : IdleSettled s) (valid : s.tree.Valid)
    (closed : s.rootStopping = true) (below : p ≠ []) (found : s.objs p = some o) : s.Flying := by
  obtain ⟨k, first⟩ : ∃ k, [k] <:+ p :=
    ⟨p.getLast below, p.dropLast, List.dropLast_append_getLast below⟩
  have live := valid.live_above (isSome_node.trans (by rw [found]; rfl)) first
  obtain ⟨c, child⟩ := Option.isSome_iff_exists.mp (isSome_node.symm.trans live)
  have quiet (q : Path) (d : ActorObject) (under : [k] <:+ q) (stored : s.objs q = some d) :
      d.Quiet False := by
    refine rest.quiet settled ?_ stored
    rintro rfl
    exact List.cons_ne_nil k [] (List.suffix_nil.mp under)
  obtain ⟨q, a, -, flies⟩ := flying_below settled valid (List.cons_ne_nil k []) quiet child
    (.inl (rest.stopping_first settled valid closed child))
  exact ⟨q, a, flies⟩

end Shard

end Hiactor
