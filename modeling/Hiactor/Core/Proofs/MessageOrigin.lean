import Hiactor.Core.Proofs.ShardRouting
import Hiactor.Core.Proofs.StepFlow

/-!
# Where messages come from

An object holds only messages that were sent to it, and stop messages of its parent, and the
responses that it sends are responses to these. The shard makes no message up.
-/

namespace Hiactor

open Lib

/-- What a response repeats of the message that it answers. -/
structure Ticket where
  mid : Nat
  shardId : Nat
  prId : Nat
  deriving DecidableEq, Repr

def ActorMessage.ticket (m : ActorMessage) : Ticket := ⟨m.mid, m.srcShardId, m.prId⟩

def Reply.ticket (r : Reply) : Ticket := ⟨r.mid, r.shardId, r.prId⟩

/-- The ticket of the messages that a group sends to its children. -/
def Ticket.internal : Ticket := ⟨0, 0, 0⟩

@[simp] theorem ticket_stopMessage (force : Bool) : (stopMessage force).ticket = .internal := rfl

@[simp] theorem ticket_reply (m : ActorMessage) (exception : Bool) :
    (m.reply exception).ticket = m.ticket := rfl

namespace Shard

/-- All that is held at a path and all that is answered in its name has a ticket of `known`. The
root refuses messages that were sent to any path. -/
structure Knows (known : Path → Ticket → Prop) (s : Shard) : Prop where
  held : ∀ p, ∀ i ∈ s.heldAt p, known p i.msg.ticket
  sent : ∀ q r, .sent q r ∈ s.log →
    known q r.ticket ∨ q = [] ∧ r.exception = true ∧ ∃ p, known p r.ticket

variable {known : Path → Ticket → Prop} {s s' : Shard} {p : Path} {k : ActorKey}

namespace Knows

theorem mono {known' : Path → Ticket → Prop} (knows : Knows known s)
    (more : ∀ p t, known p t → known' p t) : Knows known' s where
  held := fun p i isHeld => more p _ (knows.held p i isHeld)
  sent := fun q r isSent => (knows.sent q r isSent).imp (more q _) fun ⟨root, failed, p, ofPath⟩ =>
    ⟨root, failed, p, more p _ ofPath⟩

/-- The messages stay where they are, and no response is sent. -/
theorem of_held (knows : Knows known s) (held : ∀ p, ∀ i ∈ s'.heldAt p, i ∈ s.heldAt p)
    (sent : ∀ q r, .sent q r ∈ s'.log → .sent q r ∈ s.log) : Knows known s' where
  held := fun p i isHeld => knows.held p i (held p i isHeld)
  sent := fun q r isSent => knows.sent q r (sent q r isSent)

theorem of_heldAt (knows : Knows known s) (held : s'.heldAt = s.heldAt) (log : s'.log = s.log) :
    Knows known s' :=
  knows.of_held (fun _ _ isHeld => held ▸ isHeld) fun _ _ isSent => log ▸ isSent

theorem emit (knows : Knows known s) {e : Event} (quiet : ∀ q r, e ≠ .sent q r) :
    Knows known (s.emit e) := by
  refine knows.of_held (fun _ _ isHeld => isHeld) fun q r isSent => ?_
  rcases List.mem_append.mp isSent with old | new
  · exact old
  · exact absurd (List.mem_singleton.mp new).symm (quiet q r)

theorem reclaim (knows : Knows known s) (m : ActorMessage) : Knows known (s.reclaim m) :=
  knows.emit fun _ _ => by simp

/-- A response is sent. -/
theorem emit_sent (knows : Knows known s) {r : Reply} (ofPath : known p r.ticket) :
    Knows known (s.emit (.sent p r)) where
  held := knows.held
  sent := by
    intro q r' isSent
    rcases List.mem_append.mp isSent with old | new
    · exact knows.sent q r' old
    · obtain ⟨rfl, rfl⟩ := Event.sent.inj (List.mem_singleton.mp new)
      exact .inl ofPath

/-- An object changes. What it holds it held before, or it is known. -/
theorem update (knows : Knows known s) {f : ActorObject → ActorObject}
    (held : ∀ o, s.objs p = some o → ∀ i ∈ (f o).held, i ∈ o.held ∨ known p i.msg.ticket) :
    Knows known (s.update p f) where
  held := by
    intro q i isHeld
    by_cases here : q = p
    · subst here
      cases found : s.objs q with
      | none =>
        refine knows.held q i ?_
        simpa [heldAt, found] using isHeld
      | some o =>
        rw [heldAt_update_self found] at isHeld
        rcases List.mem_append.mp isHeld with stored | working
        · rcases held o found i stored with old | new
          · refine knows.held q i (List.mem_append_left _ ?_)
            rw [found]
            exact old
          · exact new
        · exact knows.held q i (List.mem_append_right _ working)
    · rw [heldAt_update_ne here] at isHeld
      exact knows.held q i isHeld
  sent := knows.sent

theorem update_same (knows : Knows known s) {f : ActorObject → ActorObject}
    (same : ∀ o, (f o).held = o.held) : Knows known (s.update p f) :=
  knows.update fun o _ _ isHeld => .inl (same o ▸ isHeld)

theorem setSched (knows : Knows known s) (status : SchedStatus) :
    Knows known (s.update p (·.setSched status)) :=
  knows.update_same fun o => o.held_setSched status

theorem setStop (knows : Knows known s) (force : Bool) :
    Knows known (s.update p (·.setStop force)) :=
  knows.update_same fun o => o.held_setStop force

theorem activate (knows : Knows known s) : Knows known (s.activate p) :=
  knows.of_heldAt (heldAt_activate ..) (log_activate ..)

/-- Messages leave a mailbox. -/
theorem setMailbox (knows : Knows known s) {mailbox : List ActorMessage}
    (fewer : ∀ o, s.objs p = some o → ∀ m ∈ mailbox, m ∈ o.mailbox) :
    Knows known (s.update p (·.setMailbox mailbox)) := by
  refine knows.update fun o found i isHeld => .inl ?_
  rw [ActorObject.held_setMailbox] at isHeld
  rcases List.mem_append.mp isHeld with mail | body
  · obtain ⟨m, inBox, rfl⟩ := List.mem_map.mp mail
    exact List.mem_append_left _ (List.mem_map_of_mem (fewer o found m inBox))
  · exact List.mem_append_right _ body

/-- A message is put in a mailbox. -/
theorem putMessage (knows : Knows known s) {m : ActorMessage} (mine : known p m.ticket)
    {f : List ActorMessage → List ActorMessage}
    (adds : ∀ mailbox, ∀ n ∈ f mailbox, n = m ∨ n ∈ mailbox) :
    Knows known ((s.update p fun o => o.setMailbox (f o.mailbox)).activate p) := by
  refine (knows.update fun o _ i isHeld => ?_).activate
  rw [ActorObject.held_setMailbox] at isHeld
  rcases List.mem_append.mp isHeld with mail | body
  · obtain ⟨n, inBox, rfl⟩ := List.mem_map.mp mail
    rcases adds o.mailbox n inBox with rfl | old
    · exact .inr mine
    · exact .inl (List.mem_append_left _ (List.mem_map_of_mem old))
  · exact .inl (List.mem_append_right _ body)

theorem enqueUrgentMessage (knows : Knows known s) {m : ActorMessage} (mine : known p m.ticket) :
    Knows known (s.enqueUrgentMessage p m) :=
  knows.putMessage mine fun _ _ => List.mem_cons.mp

theorem enque (knows : Knows known s) {m : ActorMessage} (mine : known p m.ticket) :
    Knows known (s.enque p m) := by
  have recorded : Knows known (s.emit (.enqueued m p)) := knows.emit fun _ _ => by simp
  unfold Shard.enque
  split
  · refine recorded.putMessage (f := (· ++ [m])) mine fun mailbox n inBox => ?_
    exact (List.mem_append.mp inBox).symm.imp_left List.mem_singleton.mp
  · exact recorded.enqueUrgentMessage mine

/-- An actor takes up a continuation. -/
theorem addTask (knows : Knows known s) {task : Task} {urgent : Bool}
    (mine : ∀ i ∈ task.held, known p i.msg.ticket) : Knows known (s.addTask p task urgent) := by
  refine (knows.update fun o _ i isHeld => ?_).activate
  obtain ⟨sched, stop, mailbox, body⟩ := o
  cases body with
  | group g => exact .inl isHeld
  | actor a =>
    change i ∈ mailbox.map _ ++ (a.inFlight.map _ ++
      (if urgent then task :: a.taskQueue else a.taskQueue ++ [task]).flatMap Task.held) at isHeld
    change i ∈ mailbox.map _ ++ (a.inFlight.map _ ++ a.taskQueue.flatMap Task.held) ∨ _
    have queued : i ∈ (if urgent then task :: a.taskQueue else a.taskQueue ++ [task]).flatMap
        Task.held → i ∈ task.held ∨ i ∈ a.taskQueue.flatMap Task.held := by
      intro member
      split at member
      · exact List.mem_append.mp member
      · rw [List.flatMap_append, List.flatMap_singleton] at member
        exact (List.mem_append.mp member).symm
    rcases List.mem_append.mp isHeld with mail | rest
    · exact .inl (List.mem_append_left _ mail)
    · rcases List.mem_append.mp rest with flying | task
      · exact .inl (List.mem_append_right _ (List.mem_append_left _ flying))
      · rcases queued task with new | old
        · exact .inr (mine i new)
        · exact .inl (List.mem_append_right _ (List.mem_append_right _ old))

/-- Messages of an actor leave its queue or its methods. -/
theorem dropWork (knows : Knows known s) {f : ActorBody → ActorBody}
    (flights : ∀ a, ∀ m ∈ (f a).inFlight, m ∈ a.inFlight)
    (tasks : ∀ o a, s.objs p = some o → o.body = .actor a → ∀ task ∈ (f a).taskQueue,
      task ∈ a.taskQueue) : Knows known (s.update p (·.mapActor f)) := by
  refine knows.update fun o found i isHeld => .inl ?_
  obtain ⟨sched, stop, mailbox, body⟩ := o
  cases body with
  | group g => exact isHeld
  | actor a =>
    change i ∈ mailbox.map _ ++
      ((f a).inFlight.map _ ++ (f a).taskQueue.flatMap Task.held) at isHeld
    change i ∈ mailbox.map _ ++ (a.inFlight.map _ ++ a.taskQueue.flatMap Task.held)
    rcases List.mem_append.mp isHeld with mail | rest
    · exact List.mem_append_left _ mail
    · refine List.mem_append_right _ ?_
      rcases List.mem_append.mp rest with flying | task
      · obtain ⟨m, member, rfl⟩ := List.mem_map.mp flying
        exact List.mem_append_left _ (List.mem_map_of_mem (flights a m member))
      · obtain ⟨task, member, isHeld⟩ := List.mem_flatMap.mp task
        exact List.mem_append_right _
          (List.mem_flatMap.mpr ⟨task, tasks _ a found rfl task member, isHeld⟩)

/-- The first frame has nothing in its hand, or it lets go of it. -/
theorem setRuns (knows : Knows known s) {runs : List RunFrame}
    (fewer : ∀ frame ∈ runs, frame ∈ s.runs ∨ frame.held = []) :
    Knows known { s with runs := runs } := by
  refine knows.of_held (fun q i isHeld => ?_) fun _ _ isSent => isSent
  rcases List.mem_append.mp isHeld with stored | working
  · exact List.mem_append_left _ stored
  · obtain ⟨frame, listed, isHeld⟩ := List.mem_flatMap.mp working
    obtain ⟨running, here⟩ := List.mem_filter.mp listed
    rcases fewer frame running with old | nothing
    · exact List.mem_append_right _
        (List.mem_flatMap.mpr ⟨frame, List.mem_filter.mpr ⟨old, here⟩, isHeld⟩)
    · rw [nothing] at isHeld
      cases isHeld

theorem leave (knows : Knows known s) : Knows known s.leave :=
  knows.setRuns fun _ running => .inl (List.mem_of_mem_tail running)

theorem setPc (knows : Knows known s) {pc : Pc} (nothing : ∀ path, RunFrame.held ⟨path, pc⟩ = []) :
    Knows known (s.setPc pc) := by
  refine knows.setRuns fun frame running => ?_
  cases runs : s.runs with
  | nil =>
    rw [runs] at running
    cases running
  | cons first rest =>
    rw [runs] at running
    rcases List.mem_cons.mp running with rfl | old
    · exact .inr (nothing first.path)
    · exact .inl (List.mem_cons_of_mem _ old)

theorem setStops (knows : Knows known s) (stops : List StopFrame) :
    Knows known { s with stops := stops } := knows.of_heldAt rfl rfl

/-! ## Stopping -/

theorem stopAllChildren (knows : Knows known s) (internal : ∀ p, known p .internal)
    (force : Bool) : Knows known (s.stopAllChildren p force) :=
  stopAllChildren_induction (motive := Knows known) s p knows
    fun _ _ told => told.enqueUrgentMessage (internal _)

theorem cleanMailbox (knows : Knows known s) : Knows known (s.cleanMailbox p) := by
  have emptied : Knows known (s.update p (·.setMailbox [])) :=
    knows.setMailbox fun _ _ _ member => nomatch member
  unfold Shard.cleanMailbox
  split
  · refine emptied.of_held (fun _ _ isHeld => isHeld) fun q r isSent => ?_
    rcases List.mem_append.mp isSent with old | new
    · exact old
    · obtain ⟨m, -, same⟩ := List.mem_map.mp new
      cases same
  · exact knows

theorem activateIdle (knows : Knows known s) : Knows known (s.activateIdle p) := by
  unfold Shard.activateIdle
  split
  · split
    · exact knows.activate
    · exact knows
  · exact knows

theorem disable (knows : Knows known s) : Knows known (s.disable p k) :=
  (knows.update_same fun o => o.held_setEntry k false).emit fun _ _ => by simp

theorem stopGroup (knows : Knows known s) (internal : ∀ p, known p .internal) (force : Bool) :
    Knows known (s.stopGroup p force) := by
  unfold Shard.stopGroup
  split
  · split
    · exact knows
    · have told := (knows.setStop (p := p) force).stopAllChildren (p := p) internal force
      have cleaned : Knows known
          (if force then ((s.update p (·.setStop force)).stopAllChildren p force).cleanMailbox p
            else (s.update p (·.setStop force)).stopAllChildren p force) := by
        cases force with
        | true => exact told.cleanMailbox
        | false => exact told
      simp only
      split
      · exact cleaned.activate
      · exact cleaned
  · exact knows

theorem stopChildActor (knows : Knows known s) (internal : ∀ p, known p .internal) (force : Bool) :
    Knows known (s.stopChildActor p k force) := by
  unfold Shard.stopChildActor
  split
  · split
    · exact (knows.stopGroup internal force).disable
    · split
      · exact knows.disable
      · split
        · exact ((knows.setStop true).cleanMailbox.update_same fun o => o.held_cancel).setStops _
        · exact ((knows.setStop false).activateIdle).disable
  · exact knows

theorem stopSelf (knows : Knows known s) (internal : ∀ p, known p .internal) (force : Bool) :
    Knows known (s.stopSelf p force) := by
  cases p with
  | nil => exact knows
  | cons k p => exact knows.stopChildActor internal force

/-! ## Running -/

theorem runTask (knows : Knows known s) (internal : ∀ p, known p .internal) {task : Task}
    (mine : ∀ i ∈ task.held, known p i.msg.ticket) : Knows known (s.runTask p task) := by
  cases task with
  | user => exact knows
  | reply msg failed =>
    have ofPath : known p msg.ticket := mine ⟨.reply, msg⟩ List.mem_cons_self
    refine (knows.emit_sent (r := msg.reply failed) ofPath).addTask fun i isHeld => ?_
    rw [List.mem_singleton.mp isHeld]
    exact ofPath
  | post msg state =>
    have ended : Knows known ((s.update p
        (·.mapActor fun a => { a with curConcurrency := a.curConcurrency - 1 })).reclaim msg) := by
      refine (knows.update_same fun o => ?_).reclaim msg
      exact o.held_mapActor fun _ => ⟨rfl, rfl⟩
    unfold Shard.runTask
    simp only
    split
    · exact ended.stopSelf internal true
    · exact ended

theorem notifyChildStopped (knows : Knows known s) : Knows known (s.notifyChildStopped p) := by
  have counted : Knows known (s.update p (·.mapGroup .drop)) :=
    knows.update_same fun o => o.held_mapGroup fun _ => ⟨rfl, rfl, rfl⟩
  unfold Shard.notifyChildStopped
  simp only
  split
  · exact counted.emit fun _ _ => by simp
  · exact counted

theorem destroy (knows : Knows known s) : Knows known (s.destroy p) := by
  refine knows.of_held (fun q i isHeld => ?_) fun q r isSent => ?_
  · change i ∈ ((Function.update s.objs p none) q).elim [] ActorObject.held ++ works s.runs q
      at isHeld
    rw [Function.update_apply] at isHeld
    split at isHeld
    · exact List.mem_append_right _ isHeld
    · exact isHeld
  · rcases List.mem_append.mp isSent with old | new
    · exact old
    · cases List.mem_singleton.mp new

theorem sleep (knows : Knows known s) (awake : Prop) [Decidable awake] :
    Knows known (if awake then (s.leave.update p (·.setSched .schedulable)).activate p
      else s.leave.update p (·.setSched .schedulable)) := by
  have returned : Knows known (s.leave.update p (·.setSched .schedulable)) :=
    knows.leave.setSched _
  split
  · exact returned.activate
  · exact returned

theorem finishActor (knows : Knows known s) (finished : s.finishActor p k = some s') :
    Knows known s' := by
  cases finishesActor finished with
  | ends sched stop mailbox a found ends => exact knows.leave.notifyChildStopped.destroy
  | stays sched stop mailbox a found lives => exact knows.sleep _

/-- A group answers the cancel request that it holds. -/
theorem finishGroup (knows : Knows known s) (finished : s.finishGroup p k = some s') :
    Knows known s' := by
  cases finishesGroup finished with
  | ends sched stop mailbox g found ends =>
    refine Knows.destroy ?_
    split
    · next pending =>
      refine knows.leave.notifyChildStopped.emit_sent ?_
      refine knows.held (k :: p) ⟨.cancel,
        ⟨g.cancelRequestMid, .peaceStop, g.cancelRequestSid, g.cancelRequestPrId⟩⟩ ?_
      refine List.mem_append_left _ ?_
      rw [found]
      refine List.mem_append_right _ (List.mem_map_of_mem ?_)
      rw [GroupBody.cancelRequest, if_neg pending]
      exact List.mem_cons_self
    · exact knows.leave.notifyChildStopped
  | stays sched stop mailbox g found lives => exact knows.sleep _

theorem enterChild (knows : Knows known s) {i : Nat} (entered : s.enterChild p i = some s') :
    Knows known s' := by
  cases entersChild entered with
  | enters sched stop mailbox g k o found listed child =>
    have taken : Knows known (s.update p (·.setActors (·.eraseIdx i))) :=
      knows.update_same fun o => o.held_setActors _
    have begins {t : Shard} (runs : t.runs = s.runs) (before : Knows known t) :
        Knows known { t with
          runs := ⟨k :: p, if o.isGroup then Pc.groupMail else Pc.tasks⟩ :: s.runs } := by
      refine before.setRuns fun frame running => ?_
      rcases List.mem_cons.mp running with rfl | old
      · right
        split
        · rfl
        · rfl
      · exact .inl (runs ▸ old)
    split
    · exact begins (t := (s.update p (·.setActors (·.eraseIdx i))).update (k :: p)
        (·.setTasks (List.map Task.cancel))) rfl (taken.update_same fun o => o.held_cancel)
    · exact begins (t := s.update p (·.setActors (·.eraseIdx i))) rfl taken

/-- A group keeps the ticket of the message that it obeys. -/
theorem obeyStop (knows : Knows known s) (internal : ∀ p, known p .internal)
    {sched : SchedStatus} {stop : ActorStatus} {m : ActorMessage} {mailbox : List ActorMessage}
    {g : GroupBody} (found : s.objs (k :: p) = some ⟨sched, stop, m :: mailbox, .group g⟩) :
    Knows known (s.obeyStop p k m mailbox) := by
  have mine : known (k :: p) m.ticket := by
    refine knows.held (k :: p) ⟨.mail, m⟩ (List.mem_append_left _ ?_)
    rw [found]
    exact List.mem_append_left _ List.mem_cons_self
  have taken : Knows known (s.update (k :: p) (·.setMailbox mailbox)) := by
    refine knows.setMailbox fun o stored n inBox => ?_
    obtain rfl := Option.some.inj (found.symm.trans stored)
    exact List.mem_cons_of_mem m inBox
  refine ((taken.stopChildActor internal _).update fun o _ i isHeld => ?_).reclaim m
  obtain ⟨sched, stop, mailbox, body⟩ := o
  cases body with
  | actor a => exact .inl isHeld
  | group g =>
    rcases List.mem_append.mp isHeld with mail | cancel
    · exact .inl (List.mem_append_left _ mail)
    · right
      obtain ⟨n, remembered, rfl⟩ := List.mem_map.mp cancel
      unfold GroupBody.cancelRequest at remembered
      split at remembered
      · cases remembered
      · rw [List.mem_singleton.mp remembered]
        exact mine

theorem groupMail (knows : Knows known s) (internal : ∀ p, known p .internal) {needYield : Bool}
    (handled : s.groupMail p k needYield = some s') : Knows known s' := by
  cases handlesGroupMail handled with
  | none sched stop g found => exact knows.setPc fun _ => rfl
  | yields sched stop m mailbox g found isStop finished =>
    exact (knows.obeyStop internal found).finishGroup finished
  | goesOn sched stop m mailbox g found isStop => exact knows.obeyStop internal found

theorem groupTasks (knows : Knows known s) {i : Nat} (ran : s.groupTasks p k i = some s') :
    Knows known s' := by
  cases runsGroupTasks ran with
  | none sched stop mailbox g found none finished => exact knows.finishGroup finished
  | enters sched stop mailbox g found waiting entered =>
    exact (knows.setPc fun _ => rfl).enterChild entered

/-- The messages of the continuations of an actor are known. -/
theorem ofTask (knows : Knows known s) {sched : SchedStatus} {stop : ActorStatus}
    {mailbox : List ActorMessage} {a : ActorBody} {task : Task}
    (found : s.objs p = some ⟨sched, stop, mailbox, .actor a⟩) (listed : task ∈ a.taskQueue) :
    ∀ i ∈ task.held, known p i.msg.ticket := by
  intro i isHeld
  refine knows.held p i (List.mem_append_left _ ?_)
  rw [found]
  refine List.mem_append_right _ (List.mem_append_right _ ?_)
  exact List.mem_flatMap.mpr ⟨task, listed, isHeld⟩

/-- An actor takes the first of its continuations. -/
theorem takeTask (knows : Knows known s) {sched : SchedStatus} {stop : ActorStatus}
    {mailbox : List ActorMessage} {a : ActorBody} {task : Task} {tasks : List Task}
    (found : s.objs p = some ⟨sched, stop, mailbox, .actor a⟩)
    (front : a.taskQueue = task :: tasks) :
    Knows known (s.update p (·.setTasks fun _ => tasks)) := by
  refine knows.dropWork (fun _ _ member => member) fun o b stored isActor t member => ?_
  obtain rfl := Option.some.inj (found.symm.trans stored)
  obtain rfl := Body.actor.inj isActor
  rw [front]
  exact List.mem_cons_of_mem task member

theorem actorTasks (knows : Knows known s) (internal : ∀ p, known p .internal)
    (ran : s.actorTasks p k = some s') : Knows known s' := by
  cases runsActorTasks ran with
  | next sched stop mailbox a found task tasks front =>
    refine ((knows.takeTask found front).setPc fun _ => rfl).runTask internal ?_
    exact knows.ofTask found (front ▸ List.mem_cons_self)
  | full sched stop mailbox a found none full => exact (knows.setSched _).leave
  | opens sched stop mailbox a found none free => exact knows.setPc fun _ => rfl

theorem actorMail (knows : Knows known s) (internal : ∀ p, known p .internal)
    {rest : List RunFrame} (runs : s.runs = ⟨k :: p, .mail⟩ :: rest)
    (handled : s.actorMail p k = some s') : Knows known s' := by
  have taken {sched : SchedStatus} {stop : ActorStatus} {m : ActorMessage}
      {mailbox : List ActorMessage} {body : Body}
      (found : s.objs (k :: p) = some ⟨sched, stop, m :: mailbox, body⟩) :
      Knows known (s.update (k :: p) (·.setMailbox mailbox)) := by
    refine knows.setMailbox fun o stored n inBox => ?_
    obtain rfl := Option.some.inj (found.symm.trans stored)
    exact List.mem_cons_of_mem m inBox
  cases handlesActorMail handled with
  | none sched stop a found finished => exact knows.finishActor finished
  | starts sched stop m mailbox a found user =>
    have mine : known (k :: p) m.ticket := by
      refine knows.held (k :: p) ⟨.mail, m⟩ (List.mem_append_left _ ?_)
      rw [found]
      exact List.mem_append_left _ List.mem_cons_self
    refine Knows.emit (s := (s.update (k :: p) (·.setMailbox mailbox)).setPc (.inWork m))
      ⟨fun q i isHeld => ?_, (taken found).sent⟩ (e := .started m (k :: p)) fun _ _ => by simp
    rcases List.mem_append.mp isHeld with stored | working
    · exact (taken found).held q i (List.mem_append_left _ stored)
    · -- the first frame takes the message
      have frames : ((s.update (k :: p) (·.setMailbox mailbox)).setPc (.inWork m)).runs =
          ⟨k :: p, .inWork m⟩ :: rest := by
        simp [Shard.setPc, runs]
      rw [frames, works_cons] at working
      rcases List.mem_append.mp working with here | others
      · split at here
        · next same =>
          rw [List.mem_singleton.mp here]
          exact same ▸ mine
        · cases here
      · refine (taken found).held q i (List.mem_append_right _ ?_)
        show i ∈ works s.runs q
        rw [runs, works_cons]
        exact List.mem_append_right _ others
  | stops sched stop m mailbox a found force asked =>
    exact (((taken found).setPc fun _ => rfl).stopChildActor internal force).reclaim m

/-- The message of a `do_work` is known. -/
theorem ofWork (knows : Knows known s) {path : Path} {m : ActorMessage} {rest : List RunFrame}
    (runs : s.runs = ⟨path, .inWork m⟩ :: rest) : known path m.ticket := by
  refine knows.held path ⟨.work, m⟩ (List.mem_append_right _ ?_)
  rw [runs, works_cons, if_pos rfl]
  exact List.mem_cons_self

theorem workDone (knows : Knows known s) (internal : ∀ p, known p .internal) {m : ActorMessage}
    {reply : Option Bool} {state : WorkState} {rest : List RunFrame}
    (runs : s.runs = ⟨k :: p, .inWork m⟩ :: rest)
    (done : s.workDone p k m reply state = some s') : Knows known s' := by
  have ended : Knows known (s.worked (k :: p) m reply) := by
    cases reply with
    | none => exact (knows.setPc fun _ => rfl).reclaim m
    | some failed =>
      exact ((knows.emit_sent (r := m.reply failed) (knows.ofWork runs)).setPc
        fun _ => rfl).reclaim m
  rw [workDone_eq done]
  split
  · exact ended.stopChildActor internal true
  · exact ended

/-- A method goes into flight. -/
theorem workPending (knows : Knows known s) {m : ActorMessage} {rest : List RunFrame}
    (runs : s.runs = ⟨k :: p, .inWork m⟩ :: rest) (pending : s.workPending p k m = some s') :
    Knows known s' := by
  have mine := knows.ofWork runs
  have flies : Knows known (s.update (k :: p) (·.mapActor fun a => { a with
      curConcurrency := a.curConcurrency + 1
      inFlight := a.inFlight ++ [m] })) := by
    refine knows.update fun o _ i isHeld => ?_
    obtain ⟨sched, stop, mailbox, body⟩ := o
    cases body with
    | group g => exact .inl isHeld
    | actor a =>
      rcases List.mem_append.mp isHeld with mail | rest
      · exact .inl (List.mem_append_left _ mail)
      · rcases List.mem_append.mp rest with flying | task
        · obtain ⟨n, member, rfl⟩ := List.mem_map.mp flying
          rcases List.mem_append.mp member with old | new
          · exact .inl (List.mem_append_right _ (List.mem_append_left _ (List.mem_map_of_mem old)))
          · rw [List.mem_singleton.mp new]
            exact .inr mine
        · exact .inl (List.mem_append_right _ (List.mem_append_right _ task))
  obtain ⟨sched, stop, mailbox, a, found, ⟨full, finished⟩ | ⟨free, rfl⟩⟩ :=
    workPending_cases pending
  · exact flies.finishActor finished
  · exact flies.setPc fun _ => rfl

theorem cleanNext (knows : Knows known s) (internal : ∀ p, known p .internal)
    {rest : List StopFrame} (cleaned : s.cleanNext p k rest = some s') : Knows known s' := by
  cases cleansNext cleaned with
  | next sched stop mailbox a found task tasks front =>
    have taken := (knows.takeTask found front).setStops (.clean (k :: p) true :: rest)
    exact taken.runTask internal (knows.ofTask found (front ▸ List.mem_cons_self))
  | ends sched stop mailbox a found none => exact (knows.setStops rest).activateIdle.disable

theorem stopSystemEnd (knows : Knows known s) {m : ActorMessage} {rest : List StopFrame}
    (ended : s.stopSystemEnd m rest = some s') : Knows known s' := by
  cases endsSystem ended with
  | ends sched stop mailbox g root closed =>
    refine Knows.reclaim ?_ m
    split
    · exact (knows.setStops rest).emit fun _ _ => by simp
    · exact knows.setStops rest

/-- A method lands with its message. -/
theorem complete (knows : Knows known s) {i : Nat} {reply : Option Bool} {state : WorkState}
    (completed : s.complete p i reply state = some s') : Knows known s' := by
  cases completes completed with
  | lands sched stop mailbox a found m flying =>
    have mine : known p m.ticket := by
      refine knows.held p ⟨.flight, m⟩ (List.mem_append_left _ ?_)
      rw [found]
      exact List.mem_append_right _
        (List.mem_append_left _ (List.mem_map_of_mem (List.mem_of_getElem? flying)))
    refine Knows.addTask (s := s.update p _) (knows.dropWork (fun _ _ member => ?_)
      fun o b stored isActor t member => ?_) fun j isHeld => ?_
    · exact List.mem_of_mem_eraseIdx member
    · obtain rfl := Option.some.inj (found.symm.trans stored)
      obtain rfl := Body.actor.inj isActor
      exact member
    · cases reply with
      | none =>
        rw [List.mem_singleton.mp isHeld]
        exact mine
      | some failed =>
        rw [List.mem_singleton.mp isHeld]
        exact mine

/-! ## Receiving -/

theorem createChild (knows : Knows known s) : Knows known (s.createChild p k) := by
  let s₁ : Shard := { s with objs := Function.update s.objs (k :: p) (some (.create s.limitOf k)) }
  have fresh : Knows known s₁ := by
    refine knows.of_held (fun q i isHeld => ?_) fun _ _ isSent => isSent
    change i ∈ (Function.update s.objs (k :: p) _ q).elim [] ActorObject.held ++ works s.runs q
      at isHeld
    rw [Function.update_apply] at isHeld
    split at isHeld
    · rw [Option.elim_some, ActorObject.held_create] at isHeld
      exact List.mem_append_right _ isHeld
    · exact isHeld
  have counted : Knows known ((s₁.update p (·.setEntry k true)).update p
      (·.mapGroup .adopt)) :=
    (fresh.update_same fun o => o.held_setEntry k true).update_same
      fun o => o.held_mapGroup fun _ => ⟨rfl, rfl, rfl⟩
  exact ((counted.emit (e := .created (k :: p)) fun _ _ => by simp).setSched _).activate

theorem getActorLocal (knows : Knows known s) (keys : List ActorKey) :
    Knows known (s.getActorLocal p keys).1 := by
  induction keys generalizing s p with
  | nil => exact knows
  | cons k keys ih =>
    unfold Shard.getActorLocal
    split
    · exact knows
    · split
      · split
        · exact knows
        · exact ih knows
        · exact ih knows.createChild
      · exact knows

/-- The refusal of a message is answered when the message is a request. -/
theorem stoppedActorEnqueue (knows : Knows known s) {addr : List ActorKey} {m : ActorMessage}
    {q : Path} (mine : known q m.ticket) : Knows known (s.stoppedActorEnqueue addr m) := by
  have rejected : Knows known (s.emit (.rejected m addr)) := knows.emit fun _ _ => by simp
  unfold Shard.stoppedActorEnqueue
  simp only
  split
  · refine Knows.reclaim (s := (s.emit (.rejected m addr)).emit (.sent [] (m.reply true)))
      ⟨rejected.held, fun path r isSent => ?_⟩ m
    rcases List.mem_append.mp isSent with old | new
    · exact rejected.sent path r old
    · obtain ⟨rfl, rfl⟩ := Event.sent.inj (List.mem_singleton.mp new)
      exact .inr ⟨rfl, rfl, q, mine⟩
  · exact rejected.reclaim m

theorem stopActorSystem (knows : Knows known s) (force : Bool) (m : ActorMessage) :
    Knows known (s.stopActorSystem force m) := by
  unfold Shard.stopActorSystem
  split
  · exact knows.reclaim m
  · exact (knows.setStop force).setStops _

end Knows

/-- Only the last layer of an address is that of an actor. -/
def WellFormed (addr : List ActorKey) : Prop := ∀ j ∈ addr.dropLast, j.isGroup = true

instance (addr : List ActorKey) : Decidable (WellFormed addr) :=
  inferInstanceAs (Decidable (∀ j ∈ addr.dropLast, j.isGroup = true))

theorem wellFormed_cons {keys : List ActorKey} (wellFormed : WellFormed (k :: keys)) :
    (keys ≠ [] → k.isGroup = true) ∧ WellFormed keys := by
  cases keys with
  | nil => exact ⟨fun some => absurd rfl some, fun j member => nomatch member⟩
  | cons k' keys =>
    exact ⟨fun _ => wellFormed k List.mem_cons_self,
      fun j member => wellFormed j (List.mem_cons_of_mem k member)⟩

/-- A lookup ends at its address. -/
theorem path_getActorLocal {keys : List ActorKey} {q : Path} (valid : s.tree.Valid)
    (wellFormed : WellFormed (k :: keys))
    (lookup : s.getActorLocal (k :: p) keys = (s', some q)) : q = keys.reverse ++ k :: p := by
  induction keys generalizing s k p with
  | nil => exact (Option.some.inj (Prod.mk.inj lookup).2).symm
  | cons k' keys ih =>
    obtain ⟨isGroup, below⟩ := wellFormed_cons wellFormed
    have path : (k' :: keys).reverse ++ k :: p = keys.reverse ++ k' :: k :: p := by simp
    rw [path]
    unfold Shard.getActorLocal at lookup
    split at lookup
    · cases (Prod.mk.inj lookup).2
    · next o found =>
      have group : o.isGroup = true :=
        (isGroup_of_key valid found).trans (isGroup (List.cons_ne_nil k' keys))
      rw [if_pos group] at lookup
      split at lookup
      · cases (Prod.mk.inj lookup).2
      · exact ih valid below lookup
      · next unknown =>
        have grows := grows_createChild found group unknown
          (fun root => absurd root (List.cons_ne_nil k p))
        exact ih (grows.valid valid) below lookup

theorem Knows.receive (knows : Knows known s) (valid : s.tree.Valid) {addr : List ActorKey}
    {m : ActorMessage} (wellFormed : WellFormed addr) (mine : known addr.reverse m.ticket)
    (received : s.receive addr m = some s') : Knows known s' := by
  have arrives {t t' : Shard} {k : ActorKey} {keys : List ActorKey} {q : Path}
      (valid : t.tree.Valid) (before : Knows known t) (wellFormed : WellFormed (k :: keys))
      (mine : known (k :: keys).reverse m.ticket)
      (lookup : t.getActorLocal [k] keys = (t', some q)) : Knows known (t'.enque q m) := by
    have walked := before.getActorLocal (p := [k]) keys
    rw [lookup] at walked
    refine walked.enque ?_
    rw [path_getActorLocal valid wellFormed lookup, ← List.reverse_cons]
    exact mine
  cases receives received with
  | reply type => exact knows
  | stopSystem force asked => exact knows.stopActorSystem force m
  | stopped k keys entry => exact knows.stoppedActorEnqueue mine
  | found k keys t q entry lookup => exact arrives valid knows wellFormed mine lookup
  | lost k keys t entry lookup =>
    have walked := knows.getActorLocal (p := [k]) keys
    rw [lookup] at walked
    exact walked.stoppedActorEnqueue mine
  | closed k keys unknown stopping => exact knows.stoppedActorEnqueue mine
  | created k keys t q unknown running lookup =>
    obtain ⟨o, found, group, unknown', running'⟩ := root_of_unknown valid unknown running
    have grows := grows_createChild found group unknown' (fun _ => running')
    exact arrives (grows.valid valid) knows.createChild wellFormed mine lookup

/-! ## Steps -/

/-- A message that a label brings is known, and its address is well formed. -/
def Brings (known : Path → Ticket → Prop) (s : Shard) : Label → Prop
  | .receive addr _ srcShardId prId =>
    WellFormed addr ∧ known addr.reverse ⟨s.nextMid, srcShardId, prId⟩
  | _ => True

theorem Knows.step {label : Label} (knows : Knows known s) (internal : ∀ p, known p .internal)
    (valid : s.tree.Valid) (brings : s.Brings known label) (taken : s.step label = some s') :
    Knows known s' := by
  cases takesStep taken with
  | user isUser point acted =>
    cases label with
    | receive addr type srcShardId prId =>
      obtain ⟨t, received, rfl⟩ := Option.map_eq_some_iff.mp acted
      have mine : known addr.reverse
          (ActorMessage.ticket ⟨s.nextMid, type, srcShardId, prId⟩) := brings.2
      exact (knows.receive valid brings.1 mine received).of_heldAt rfl rfl
    | addTask p urgent =>
      obtain ⟨-, rfl⟩ := addTask_cases acted
      exact knows.addTask fun _ member => nomatch member
    | complete p i reply state => exact knows.complete acted
    | setMaxConcurrency p concurrency =>
      obtain rfl := Option.some.inj acted
      exact knows.update_same fun o => o.held_mapActor fun _ => ⟨rfl, rfl⟩
    | dispatch | advance | workDone | workPending | stopNext => cases isUser
  | stop frame rest isUser top went =>
    cases takesStopStep went with
    | cleanNext p k running needYield i cleaned => exact knows.cleanNext internal cleaned
    | stopNext force m k entry => exact knows.stopChildActor internal force
    | stopSystemEnd force needYield m i ended => exact knows.stopSystemEnd ended
  | run frame rest isUser idle runs went =>
    cases takesRunStep went with
    | groupMail p k needYield i handled => exact knows.groupMail internal handled
    | groupTasks p k needYield i ran => exact knows.groupTasks ran
    | groupYields p k i finished => exact knows.finishGroup finished
    | actorTasks p k needYield i ran => exact knows.actorTasks internal ran
    | taskYields p k i finished => exact knows.finishActor finished
    | actorMail p k needYield i handled => exact knows.actorMail internal runs handled
    | workDone p k m reply state done => exact knows.workDone internal runs done
    | workPending p k m pending => exact knows.workPending runs pending
    | workYields p k i finished => exact knows.finishActor finished
    | groupGoesOn | taskGoesOn | workGoesOn => exact knows.setPc fun _ => rfl
  | dispatch i idle runs entered => exact knows.enterChild entered

theorem knows_init (limitOf : ActorKey → Nat) : Knows known (init limitOf) where
  held := by
    intro p i isHeld
    have none : (init limitOf).heldAt p = [] := by
      show (if p = [] then _ else none : Option ActorObject).elim [] ActorObject.held ++ [] = []
      split
      · rfl
      · rfl
    rw [none] at isHeld
    cases isHeld
  sent := fun _ _ isSent => nomatch isSent

end Shard

end Hiactor
