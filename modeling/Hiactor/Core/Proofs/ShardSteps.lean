import Hiactor.Core.Orphans

/-!
# What the functions of a shard find and do

The functions that go on with a frame are taken apart here once: for each way in which one of them
has a result there is a case, with what the function has found and with the result.
-/

namespace Hiactor.Shard

variable {s s' : Shard} {p : Path} {k : ActorKey}

/-- How a message arrives: the root takes it, what the lookup finds takes it, or nobody does. -/
inductive Receives (s : Shard) (m : ActorMessage) : List ActorKey → Shard → Prop
  | reply (type : m.type = .response ∨ m.type = .exceptionResponse) : Receives s m [] s
  | stopSystem (force : Bool) (asked : m.type = if force then .forceStop else .peaceStop) :
      Receives s m [] (s.stopActorSystem force m)
  | stopped (k : ActorKey) (keys : List ActorKey) (entry : s.entry [] k = some false) :
      Receives s m (k :: keys) (s.stoppedActorEnqueue (k :: keys) m)
  | found (k : ActorKey) (keys : List ActorKey) (t : Shard) (q : Path)
      (entry : s.entry [] k = some true) (lookup : s.getActorLocal [k] keys = (t, some q)) :
      Receives s m (k :: keys) (t.enque q m)
  | lost (k : ActorKey) (keys : List ActorKey) (t : Shard) (entry : s.entry [] k = some true)
      (lookup : s.getActorLocal [k] keys = (t, none)) :
      Receives s m (k :: keys) (t.stoppedActorEnqueue (k :: keys) m)
  | closed (k : ActorKey) (keys : List ActorKey) (unknown : s.entry [] k = none)
      (stopping : s.rootStopping = true) :
      Receives s m (k :: keys) (s.stoppedActorEnqueue (k :: keys) m)
  | created (k : ActorKey) (keys : List ActorKey) (t : Shard) (q : Path)
      (unknown : s.entry [] k = none) (running : s.rootStopping = false)
      (lookup : (s.createChild [] k).getActorLocal [k] keys = (t, some q)) :
      Receives s m (k :: keys) (t.enque q m)

theorem receives {addr : List ActorKey} {m : ActorMessage} (received : s.receive addr m = some s') :
    Receives s m addr s' := by
  unfold receive at received
  split at received
  · unfold receiveRoot at received
    split at received
    · next type => exact Option.some.inj received ▸ .reply (.inl type)
    · next type => exact Option.some.inj received ▸ .reply (.inr type)
    · next peace => exact Option.some.inj received ▸ .stopSystem false peace
    · next forced => exact Option.some.inj received ▸ .stopSystem true forced
    · cases received
  · next k keys =>
    split at received
    · next entry => exact Option.some.inj received ▸ .stopped k keys entry
    · next entry =>
      split at received
      · next t q lookup => exact Option.some.inj received ▸ .found k keys t q entry lookup
      · next t lookup => exact Option.some.inj received ▸ .lost k keys t entry lookup
    · next unknown =>
      split at received
      · next stopping => exact Option.some.inj received ▸ .closed k keys unknown stopping
      · next open' =>
        have running : s.rootStopping = false := Bool.eq_false_of_not_eq_true open'
        split at received
        · next t q lookup =>
          exact Option.some.inj received ▸ .created k keys t q unknown running lookup
        · cases received

/-- The group is destroyed, or it sleeps and is queued again when something waits for it. -/
inductive FinishesGroup (s : Shard) (p : Path) (k : ActorKey) : Shard → Prop
  | ends (sched : SchedStatus) (stop : ActorStatus) (mailbox : List ActorMessage) (g : GroupBody)
      (found : s.objs (k :: p) = some ⟨sched, stop, mailbox, .group g⟩)
      (ends : ActorObject.stopping ⟨sched, stop, mailbox, .group g⟩ ∧ g.numActorsManaged = 0 ∧
        g.taskQueue = [] ∧ mailbox = []) (childless : g.children = 0) :
      FinishesGroup s p k ((if g.cancelRequestPrId ≠ 0 then
          (s.leave.notifyChildStopped p).emit (.sent (k :: p)
            ⟨g.cancelRequestMid, g.cancelRequestSid, g.cancelRequestPrId, false⟩)
        else s.leave.notifyChildStopped p).destroy (k :: p))
  | stays (sched : SchedStatus) (stop : ActorStatus) (mailbox : List ActorMessage) (g : GroupBody)
      (found : s.objs (k :: p) = some ⟨sched, stop, mailbox, .group g⟩)
      (lives : ¬(ActorObject.stopping ⟨sched, stop, mailbox, .group g⟩ ∧ g.numActorsManaged = 0 ∧
        g.taskQueue = [] ∧ mailbox = [])) :
      FinishesGroup s p k (if mailbox ≠ [] ∨ g.taskQueue ≠ [] then
          (s.leave.update (k :: p) (·.setSched .schedulable)).activate (k :: p)
        else s.leave.update (k :: p) (·.setSched .schedulable))

theorem finishesGroup (finished : s.finishGroup p k = some s') : FinishesGroup s p k s' := by
  unfold finishGroup at finished
  split at finished
  · next sched stop mailbox g found =>
    simp only at finished
    split at finished
    · next ends =>
      split at finished
      · next childless =>
        exact Option.some.inj finished ▸ .ends sched stop mailbox g found ends childless
      · cases finished
    · next lives => exact Option.some.inj finished ▸ .stays sched stop mailbox g found lives
  · cases finished

/-- The actor is destroyed, or it sleeps and is queued again when it has something to do. -/
inductive FinishesActor (s : Shard) (p : Path) (k : ActorKey) : Shard → Prop
  | ends (sched : SchedStatus) (stop : ActorStatus) (mailbox : List ActorMessage) (a : ActorBody)
      (found : s.objs (k :: p) = some ⟨sched, stop, mailbox, .actor a⟩)
      (ends : ActorObject.stopping ⟨sched, stop, mailbox, .actor a⟩ ∧ a.curConcurrency = 0 ∧
        mailbox = []) :
      FinishesActor s p k ((s.leave.notifyChildStopped p).destroy (k :: p))
  | stays (sched : SchedStatus) (stop : ActorStatus) (mailbox : List ActorMessage) (a : ActorBody)
      (found : s.objs (k :: p) = some ⟨sched, stop, mailbox, .actor a⟩)
      (lives : ¬(ActorObject.stopping ⟨sched, stop, mailbox, .actor a⟩ ∧ a.curConcurrency = 0 ∧
        mailbox = [])) :
      FinishesActor s p k (if a.taskQueue ≠ [] ∨
          (mailbox ≠ [] ∧ a.curConcurrency < a.maxConcurrency) then
          (s.leave.update (k :: p) (·.setSched .schedulable)).activate (k :: p)
        else s.leave.update (k :: p) (·.setSched .schedulable))

theorem finishesActor (finished : s.finishActor p k = some s') : FinishesActor s p k s' := by
  unfold finishActor at finished
  split at finished
  · next sched stop mailbox a found =>
    simp only at finished
    split at finished
    · next ends => exact Option.some.inj finished ▸ .ends sched stop mailbox a found ends
    · next lives => exact Option.some.inj finished ▸ .stays sched stop mailbox a found lives
  · cases finished

/-- The child leaves the queue, and its run begins. -/
inductive EntersChild (s : Shard) (p : Path) (i : Nat) : Shard → Prop
  | enters (sched : SchedStatus) (stop : ActorStatus) (mailbox : List ActorMessage) (g : GroupBody)
      (k : ActorKey) (o : ActorObject)
      (found : s.objs p = some ⟨sched, stop, mailbox, .group g⟩)
      (listed : g.taskQueue[i]? = some k) (child : s.objs (k :: p) = some o) :
      EntersChild s p i { (if o.forceStopping then
          (s.update p (·.setActors (·.eraseIdx i))).update (k :: p)
            (·.setTasks (List.map Task.cancel))
        else s.update p (·.setActors (·.eraseIdx i))) with
        runs := ⟨k :: p, if o.isGroup then Pc.groupMail else Pc.tasks⟩ :: s.runs }

theorem entersChild {i : Nat} (entered : s.enterChild p i = some s') : EntersChild s p i s' := by
  unfold enterChild at entered
  split at entered
  · next sched stop mailbox g found =>
    split at entered
    · next k listed =>
      split at entered
      · next o child =>
        have runs : (if o.forceStopping then
              (s.update p (·.setActors (·.eraseIdx i))).update (k :: p)
                (·.setTasks (List.map Task.cancel))
            else s.update p (·.setActors (·.eraseIdx i))).runs = s.runs := by
          split
          · rfl
          · rfl
        obtain rfl := Option.some.inj entered
        rw [runs]
        exact .enters sched stop mailbox g k o found listed child
      · cases entered
    · cases entered
  · cases entered

theorem runs_enterChild {i : Nat} (entered : s.enterChild p i = some s') :
    ∃ k pc, s'.runs = ⟨k :: p, pc⟩ :: s.runs := by
  cases entersChild entered with
  | enters sched stop mailbox g k o found listed child =>
    exact ⟨k, _, rfl⟩

/-- A group takes a stop message out of its mailbox, obeys it and remembers whom to tell. -/
def obeyStop (s : Shard) (p : Path) (k : ActorKey) (m : ActorMessage)
    (mailbox : List ActorMessage) : Shard :=
  (((s.update (k :: p) (·.setMailbox mailbox)).stopChildActor p k
    (m.type == .forceStop)).update (k :: p) (·.mapGroup fun g => { g with
    cancelRequestSid := m.srcShardId, cancelRequestPrId := m.prId,
    cancelRequestMid := m.mid })).reclaim m

/-- A group has no message, or its next one stops it. -/
inductive HandlesGroupMail (s : Shard) (p : Path) (k : ActorKey) : Bool → Shard → Prop
  | none {needYield : Bool} (sched : SchedStatus) (stop : ActorStatus) (g : GroupBody)
      (found : s.objs (k :: p) = some ⟨sched, stop, [], .group g⟩) :
      HandlesGroupMail s p k needYield (s.setPc .groupTasks)
  | yields {s' : Shard} (sched : SchedStatus) (stop : ActorStatus) (m : ActorMessage)
      (mailbox : List ActorMessage) (g : GroupBody)
      (found : s.objs (k :: p) = some ⟨sched, stop, m :: mailbox, .group g⟩)
      (isStop : m.isStop = true) (finished : (s.obeyStop p k m mailbox).finishGroup p k = some s') :
      HandlesGroupMail s p k true s'
  | goesOn (sched : SchedStatus) (stop : ActorStatus) (m : ActorMessage)
      (mailbox : List ActorMessage) (g : GroupBody)
      (found : s.objs (k :: p) = some ⟨sched, stop, m :: mailbox, .group g⟩)
      (isStop : m.isStop = true) : HandlesGroupMail s p k false (s.obeyStop p k m mailbox)

theorem handlesGroupMail {needYield : Bool} (handled : s.groupMail p k needYield = some s') :
    HandlesGroupMail s p k needYield s' := by
  unfold groupMail at handled
  split at handled
  · next sched stop mailbox g found =>
    split at handled
    · exact Option.some.inj handled ▸ .none sched stop g found
    · next m mailbox =>
      split at handled
      · next isStop =>
        cases needYield with
        | true => exact .yields sched stop m mailbox g found isStop handled
        | false => exact Option.some.inj handled ▸ .goesOn sched stop m mailbox g found isStop
      · cases handled
  · cases handled

/-- A group has no child in its queue, or one of them begins its run. -/
inductive RunsGroupTasks (s : Shard) (p : Path) (k : ActorKey) (i : Nat) (s' : Shard) : Prop
  | none (sched : SchedStatus) (stop : ActorStatus) (mailbox : List ActorMessage) (g : GroupBody)
      (found : s.objs (k :: p) = some ⟨sched, stop, mailbox, .group g⟩)
      (none : g.taskQueue = []) (finished : s.finishGroup p k = some s')
  | enters (sched : SchedStatus) (stop : ActorStatus) (mailbox : List ActorMessage) (g : GroupBody)
      (found : s.objs (k :: p) = some ⟨sched, stop, mailbox, .group g⟩)
      (waiting : g.taskQueue ≠ [])
      (entered : (s.setPc .groupChild).enterChild (k :: p) i = some s')

theorem runsGroupTasks {i : Nat} (ran : s.groupTasks p k i = some s') :
    RunsGroupTasks s p k i s' := by
  unfold groupTasks at ran
  split at ran
  · next sched stop mailbox g found =>
    split at ran
    · next none => exact .none sched stop mailbox g found none ran
    · next waiting => exact .enters sched stop mailbox g found waiting ran
  · cases ran

/-- An actor takes its next continuation. After the last it leaves or opens its mailbox. -/
inductive RunsActorTasks (s : Shard) (p : Path) (k : ActorKey) : Shard → Prop
  | next (sched : SchedStatus) (stop : ActorStatus) (mailbox : List ActorMessage) (a : ActorBody)
      (found : s.objs (k :: p) = some ⟨sched, stop, mailbox, .actor a⟩)
      (task : Task) (tasks : List Task) (front : a.taskQueue = task :: tasks) :
      RunsActorTasks s p k
        (((s.update (k :: p) (·.setTasks fun _ => tasks)).setPc .inTask).runTask (k :: p) task)
  | full (sched : SchedStatus) (stop : ActorStatus) (mailbox : List ActorMessage) (a : ActorBody)
      (found : s.objs (k :: p) = some ⟨sched, stop, mailbox, .actor a⟩)
      (none : a.taskQueue = []) (full : a.curConcurrency = a.maxConcurrency) :
      RunsActorTasks s p k (s.update (k :: p) (·.setSched .schedulable)).leave
  | opens (sched : SchedStatus) (stop : ActorStatus) (mailbox : List ActorMessage) (a : ActorBody)
      (found : s.objs (k :: p) = some ⟨sched, stop, mailbox, .actor a⟩)
      (none : a.taskQueue = []) (free : a.curConcurrency ≠ a.maxConcurrency) :
      RunsActorTasks s p k (s.setPc .mail)

theorem runsActorTasks (ran : s.actorTasks p k = some s') : RunsActorTasks s p k s' := by
  unfold actorTasks at ran
  split at ran
  · next sched stop mailbox a found =>
    split at ran
    · next task tasks front =>
      exact Option.some.inj ran ▸ .next sched stop mailbox a found task tasks front
    · next none =>
      split at ran
      · next full => exact Option.some.inj ran ▸ .full sched stop mailbox a found none full
      · next free => exact Option.some.inj ran ▸ .opens sched stop mailbox a found none free
  · cases ran

/-- An actor has no message, or the next one starts a method or stops the actor. -/
inductive HandlesActorMail (s : Shard) (p : Path) (k : ActorKey) : Shard → Prop
  | none {s' : Shard} (sched : SchedStatus) (stop : ActorStatus) (a : ActorBody)
      (found : s.objs (k :: p) = some ⟨sched, stop, [], .actor a⟩)
      (finished : s.finishActor p k = some s') : HandlesActorMail s p k s'
  | starts (sched : SchedStatus) (stop : ActorStatus) (m : ActorMessage)
      (mailbox : List ActorMessage) (a : ActorBody)
      (found : s.objs (k :: p) = some ⟨sched, stop, m :: mailbox, .actor a⟩)
      (user : m.type = .user) :
      HandlesActorMail s p k (((s.update (k :: p) (·.setMailbox mailbox)).setPc (.inWork m)).emit
        (.started m (k :: p)))
  | stops (sched : SchedStatus) (stop : ActorStatus) (m : ActorMessage)
      (mailbox : List ActorMessage) (a : ActorBody)
      (found : s.objs (k :: p) = some ⟨sched, stop, m :: mailbox, .actor a⟩)
      (force : Bool) (asked : m.type = if force then .forceStop else .peaceStop) :
      HandlesActorMail s p k ((((s.update (k :: p) (·.setMailbox mailbox)).setPc
        .worked).stopChildActor p k force).reclaim m)

theorem handlesActorMail (handled : s.actorMail p k = some s') : HandlesActorMail s p k s' := by
  unfold actorMail at handled
  split at handled
  · next sched stop mailbox a found =>
    split at handled
    · exact .none sched stop a found handled
    · next m mailbox =>
      simp only at handled
      split at handled
      · next user => exact Option.some.inj handled ▸ .starts sched stop m mailbox a found user
      · next peace =>
        exact Option.some.inj handled ▸ .stops sched stop m mailbox a found false peace
      · next forced =>
        exact Option.some.inj handled ▸ .stops sched stop m mailbox a found true forced
      · cases handled
  · cases handled

theorem workPending_cases {m : ActorMessage} (pending : s.workPending p k m = some s') :
    ∃ sched stop mailbox a, s.objs (k :: p) = some ⟨sched, stop, mailbox, .actor a⟩ ∧
      (a.curConcurrency + 1 = a.maxConcurrency ∧
        (s.update (k :: p) (·.mapActor fun a => { a with
          curConcurrency := a.curConcurrency + 1
          inFlight := a.inFlight ++ [m] })).finishActor p k = some s' ∨
      a.curConcurrency + 1 ≠ a.maxConcurrency ∧
        s' = (s.update (k :: p) (·.mapActor fun a => { a with
          curConcurrency := a.curConcurrency + 1
          inFlight := a.inFlight ++ [m] })).setPc .worked) := by
  unfold workPending at pending
  split at pending
  · next sched stop mailbox a found =>
    refine ⟨sched, stop, mailbox, a, found, ?_⟩
    simp only at pending
    split at pending
    · next full => exact .inl ⟨full, pending⟩
    · next free => exact .inr ⟨free, (Option.some.inj pending).symm⟩
  · cases pending

/-- The next continuation runs, or the stop of the actor ends. -/
inductive CleansNext (s : Shard) (p : Path) (k : ActorKey) (rest : List StopFrame) : Shard → Prop
  | next (sched : SchedStatus) (stop : ActorStatus) (mailbox : List ActorMessage) (a : ActorBody)
      (found : s.objs (k :: p) = some ⟨sched, stop, mailbox, .actor a⟩)
      (task : Task) (tasks : List Task) (front : a.taskQueue = task :: tasks) :
      CleansNext s p k rest ({ s.update (k :: p) (·.setTasks fun _ => tasks) with
        stops := .clean (k :: p) true :: rest }.runTask (k :: p) task)
  | ends (sched : SchedStatus) (stop : ActorStatus) (mailbox : List ActorMessage) (a : ActorBody)
      (found : s.objs (k :: p) = some ⟨sched, stop, mailbox, .actor a⟩)
      (none : a.taskQueue = []) :
      CleansNext s p k rest (({ s with stops := rest }.activateIdle (k :: p)).disable p k)

theorem cleansNext {rest : List StopFrame} (cleaned : s.cleanNext p k rest = some s') :
    CleansNext s p k rest s' := by
  unfold cleanNext at cleaned
  split at cleaned
  · next sched stop mailbox a found =>
    split at cleaned
    · next task tasks front =>
      exact Option.some.inj cleaned ▸ .next sched stop mailbox a found task tasks front
    · next none => exact Option.some.inj cleaned ▸ .ends sched stop mailbox a found none
  · cases cleaned

/-- Every entry of the root is null. The shard exits when no child is left. -/
inductive EndsSystem (s : Shard) (m : ActorMessage) (rest : List StopFrame) : Shard → Prop
  | ends (sched : SchedStatus) (stop : ActorStatus) (mailbox : List ActorMessage) (g : GroupBody)
      (root : s.objs [] = some ⟨sched, stop, mailbox, .group g⟩)
      (closed : ¬g.actorInstMap.any (·.2) = true) :
      EndsSystem s m rest ((if g.numActorsManaged = 0 then { s with stops := rest }.emit .exited
        else { s with stops := rest }).reclaim m)

theorem endsSystem {m : ActorMessage} {rest : List StopFrame}
    (ended : s.stopSystemEnd m rest = some s') : EndsSystem s m rest s' := by
  unfold stopSystemEnd at ended
  split at ended
  · next sched stop mailbox g root =>
    split at ended
    · cases ended
    · next closed => exact Option.some.inj ended ▸ .ends sched stop mailbox g root closed
  · cases ended

/-- A method that is in flight lands in the queue of its actor. -/
inductive Completes (s : Shard) (p : Path) (i : Nat) (reply : Option Bool) (state : WorkState) :
    Shard → Prop
  | lands (sched : SchedStatus) (stop : ActorStatus) (mailbox : List ActorMessage) (a : ActorBody)
      (found : s.objs p = some ⟨sched, stop, mailbox, .actor a⟩)
      (m : ActorMessage) (flying : a.inFlight[i]? = some m) :
      Completes s p i reply state ((s.update p (·.mapActor fun a => { a with
        inFlight := a.inFlight.eraseIdx i })).addTask p (reply.elim (.post m state) (.reply m))
        false)

theorem completes {i : Nat} {reply : Option Bool} {state : WorkState}
    (completed : s.complete p i reply state = some s') : Completes s p i reply state s' := by
  unfold complete at completed
  split at completed
  · next sched stop mailbox a found =>
    split at completed
    · next m flying =>
      obtain rfl := Option.some.inj completed
      cases reply with
      | some failed => exact .lands sched stop mailbox a found m flying
      | none => exact .lands sched stop mailbox a found m flying
    · cases completed
  · cases completed

theorem addTask_cases {urgent : Bool} (taken : s.userStep (.addTask p urgent) = some s') :
    (∃ sched stop mailbox a, s.objs p = some ⟨sched, stop, mailbox, .actor a⟩) ∧
      s' = s.addTask p .user urgent := by
  simp only [userStep] at taken
  split at taken
  · next sched stop mailbox a found =>
    exact ⟨⟨sched, stop, mailbox, a, found⟩, (Option.some.inj taken).symm⟩
  · cases taken

/-! ## Steps -/

/-- The places where the first frame can be, and what it does there. -/
inductive TakesRunStep (s : Shard) : RunFrame → Label → Shard → Prop
  | groupMail {s' : Shard} (p : Path) (k : ActorKey) (needYield : Bool) (i : Nat)
      (handled : s.groupMail p k needYield = some s') :
      TakesRunStep s ⟨k :: p, .groupMail⟩ (.advance needYield i) s'
  | groupTasks {s' : Shard} (p : Path) (k : ActorKey) (needYield : Bool) (i : Nat)
      (ran : s.groupTasks p k i = some s') :
      TakesRunStep s ⟨k :: p, .groupTasks⟩ (.advance needYield i) s'
  | groupYields {s' : Shard} (p : Path) (k : ActorKey) (i : Nat)
      (finished : s.finishGroup p k = some s') :
      TakesRunStep s ⟨k :: p, .groupChild⟩ (.advance true i) s'
  | groupGoesOn (p : Path) (k : ActorKey) (i : Nat) :
      TakesRunStep s ⟨k :: p, .groupChild⟩ (.advance false i) (s.setPc .groupTasks)
  | actorTasks {s' : Shard} (p : Path) (k : ActorKey) (needYield : Bool) (i : Nat)
      (ran : s.actorTasks p k = some s') :
      TakesRunStep s ⟨k :: p, .tasks⟩ (.advance needYield i) s'
  | taskYields {s' : Shard} (p : Path) (k : ActorKey) (i : Nat)
      (finished : s.finishActor p k = some s') :
      TakesRunStep s ⟨k :: p, .inTask⟩ (.advance true i) s'
  | taskGoesOn (p : Path) (k : ActorKey) (i : Nat) :
      TakesRunStep s ⟨k :: p, .inTask⟩ (.advance false i) (s.setPc .tasks)
  | actorMail {s' : Shard} (p : Path) (k : ActorKey) (needYield : Bool) (i : Nat)
      (handled : s.actorMail p k = some s') :
      TakesRunStep s ⟨k :: p, .mail⟩ (.advance needYield i) s'
  | workDone {s' : Shard} (p : Path) (k : ActorKey) (m : ActorMessage) (reply : Option Bool)
      (state : WorkState) (done : s.workDone p k m reply state = some s') :
      TakesRunStep s ⟨k :: p, .inWork m⟩ (.workDone reply state) s'
  | workPending {s' : Shard} (p : Path) (k : ActorKey) (m : ActorMessage)
      (pending : s.workPending p k m = some s') :
      TakesRunStep s ⟨k :: p, .inWork m⟩ .workPending s'
  | workYields {s' : Shard} (p : Path) (k : ActorKey) (i : Nat)
      (finished : s.finishActor p k = some s') :
      TakesRunStep s ⟨k :: p, .worked⟩ (.advance true i) s'
  | workGoesOn (p : Path) (k : ActorKey) (i : Nat) :
      TakesRunStep s ⟨k :: p, .worked⟩ (.advance false i) (s.setPc .mail)

theorem takesRunStep {frame : RunFrame} {label : Label}
    (taken : s.runStep frame label = some s') : TakesRunStep s frame label s' := by
  obtain ⟨path, pc⟩ := frame
  cases path with
  | nil => cases taken
  | cons k p =>
    unfold runStep at taken
    simp only at taken
    split at taken
    · exact .groupMail p k _ _ taken
    · exact .groupTasks p k _ _ taken
    · next needYield i =>
      cases needYield with
      | true => exact .groupYields p k i taken
      | false => exact Option.some.inj taken ▸ .groupGoesOn p k i
    · exact .actorTasks p k _ _ taken
    · next needYield i =>
      cases needYield with
      | true => exact .taskYields p k i taken
      | false => exact Option.some.inj taken ▸ .taskGoesOn p k i
    · exact .actorMail p k _ _ taken
    · exact .workDone p k _ _ _ taken
    · exact .workPending p k _ taken
    · next needYield i =>
      cases needYield with
      | true => exact .workYields p k i taken
      | false => exact Option.some.inj taken ▸ .workGoesOn p k i
    · cases taken

/-- What a stop in progress does. -/
inductive TakesStopStep (s : Shard) (rest : List StopFrame) : StopFrame → Label → Shard → Prop
  | cleanNext {s' : Shard} (p : Path) (k : ActorKey) (running needYield : Bool) (i : Nat)
      (cleaned : s.cleanNext p k rest = some s') :
      TakesStopStep s rest (.clean (k :: p) running) (.advance needYield i) s'
  | stopNext (force : Bool) (m : ActorMessage) (k : ActorKey)
      (entry : s.entry [] k = some true) :
      TakesStopStep s rest (.stopSystem force m) (.stopNext k) (s.stopChildActor [] k force)
  | stopSystemEnd {s' : Shard} (force needYield : Bool) (m : ActorMessage) (i : Nat)
      (ended : s.stopSystemEnd m rest = some s') :
      TakesStopStep s rest (.stopSystem force m) (.advance needYield i) s'

theorem takesStopStep {frame : StopFrame} {rest : List StopFrame} {label : Label}
    (taken : s.stopStep frame rest label = some s') : TakesStopStep s rest frame label s' := by
  unfold stopStep at taken
  split at taken
  · exact .cleanNext _ _ _ _ _ taken
  · split at taken
    · next entry => exact Option.some.inj taken ▸ .stopNext _ _ _ entry
    · cases taken
  · exact .stopSystemEnd _ _ _ _ taken
  · cases taken

/-- Who takes the step: user code, a stop, the first frame or the reactor. -/
inductive TakesStep (s : Shard) : Label → Shard → Prop
  | user {label : Label} {s' : Shard} (isUser : label.isUser = true) (point : s.userPoint = true)
      (acted : s.userStep label = some s') : TakesStep s label s'
  | stop {label : Label} {s' : Shard} (frame : StopFrame) (rest : List StopFrame)
      (isUser : label.isUser = false) (top : s.stops = frame :: rest)
      (went : s.stopStep frame rest label = some s') : TakesStep s label s'
  | run {label : Label} {s' : Shard} (frame : RunFrame) (rest : List RunFrame)
      (isUser : label.isUser = false) (idle : s.stops = []) (runs : s.runs = frame :: rest)
      (went : s.runStep frame label = some s') : TakesStep s label s'
  | dispatch {s' : Shard} (i : Nat) (idle : s.stops = []) (runs : s.runs = [])
      (entered : s.enterChild [] i = some s') : TakesStep s (.dispatch i) s'

theorem takesStep {label : Label} (taken : s.step label = some s') : TakesStep s label s' := by
  unfold step at taken
  split at taken
  · next isUser =>
    split at taken
    · next point => exact .user isUser point taken
    · cases taken
  · next notUser =>
    have isUser : label.isUser = false := Bool.eq_false_of_not_eq_true notUser
    split at taken
    · next _ frame rest top => exact .stop frame rest isUser top taken
    · next frame rest idle runs => exact .run frame rest isUser idle runs taken
    · next idle runs =>
      split at taken
      · next i => exact .dispatch i idle runs taken
      · cases taken

end Hiactor.Shard
