import Hiactor.Core.Proofs.Stopping

/-!
# The order of the messages of an actor

The messages for `do_work` in a mailbox are a queue: `receive` puts a message behind the others
and the mailbox loop takes the first one. Stop messages pass them, and only a forced stop throws
them away: an actor that is stopped in peace ends when it has handled all of them.
-/

namespace Hiactor

open Lib

/-- The messages for `do_work` that were put in the mailbox of the object at `p`. -/
def enqueuedAt (p : Path) (log : List Event) : List ActorMessage :=
  log.filterMap fun
    | .enqueued m q => if m.type = .user ∧ q = p then some m else none
    | _ => none

/-- The messages that the object at `p` handed to `do_work`. -/
def startedAt (p : Path) (log : List Event) : List ActorMessage :=
  log.filterMap fun
    | .started m q => if q = p then some m else none
    | _ => none

/-- A message goes into a mailbox or to `do_work`. -/
def Event.isMail : Event → Bool
  | .enqueued _ _ | .started _ _ => true
  | _ => false

section events

variable {p : Path} {log more : List Event}

@[simp] theorem enqueuedAt_append :
    enqueuedAt p (log ++ more) = enqueuedAt p log ++ enqueuedAt p more := List.filterMap_append

@[simp] theorem startedAt_append :
    startedAt p (log ++ more) = startedAt p log ++ startedAt p more := List.filterMap_append

theorem enqueuedAt_hushed (hushed : ∀ e ∈ more, e.isMail = false) : enqueuedAt p more = [] := by
  refine List.filterMap_eq_nil_iff.mpr fun e member => ?_
  have quiet := hushed e member
  cases e with
  | enqueued => cases quiet
  | _ => rfl

theorem startedAt_hushed (hushed : ∀ e ∈ more, e.isMail = false) : startedAt p more = [] := by
  refine List.filterMap_eq_nil_iff.mpr fun e member => ?_
  have quiet := hushed e member
  cases e with
  | started => cases quiet
  | _ => rfl

end events

namespace Shard

/-- The messages for `do_work` in the mailbox at `p`. -/
def queued (s : Shard) (p : Path) : List ActorMessage := (s.cores p).elim [] Core.users

/-- The object at `p` was stopped by force. -/
def Forced (s : Shard) (p : Path) : Prop := ∃ c, s.cores p = some c ∧ c.status = .forceStopping

instance (s : Shard) (p : Path) : Decidable (s.Forced p) :=
  decidable_of_iff (∃ c ∈ s.cores p, c.status = .forceStopping) Iff.rfl

/-- The object at `p` was stopped by force or is gone. -/
def Closed (s : Shard) (p : Path) : Prop := .destroyed p ∈ s.log ∨ s.Forced p

instance (s : Shard) (p : Path) : Decidable (s.Closed p) :=
  inferInstanceAs (Decidable (_ ∨ _))

/-- The log grows by events that are not about mail. -/
def Hushed (s s' : Shard) : Prop := ∃ new, s'.log = s.log ++ new ∧ ∀ e ∈ new, e.isMail = false

/-- No message is put in a mailbox or taken from it, but a closed object may lose them all. -/
structure Thins (s s' : Shard) : Prop where
  queued : ∀ p, s'.queued p = s.queued p ∨ s'.queued p = [] ∧ s'.Closed p
  closed : ∀ p, s.Closed p → s'.Closed p
  hushed : Hushed s s'
  nextMid : s'.nextMid = s.nextMid

variable {s s' : Shard} {p : Path} {k : ActorKey}

theorem Hushed.of_eq (log : s'.log = s.log) : Hushed s s' :=
  ⟨[], log.trans (List.append_nil _).symm, fun _ member => nomatch member⟩

theorem Hushed.trans {s'' : Shard} (first : Hushed s s') (second : Hushed s' s'') :
    Hushed s s'' := by
  obtain ⟨new, log, hushed⟩ := first
  obtain ⟨more, log', hushed'⟩ := second
  refine ⟨new ++ more, by rw [log', log, List.append_assoc], fun e member => ?_⟩
  rcases List.mem_append.mp member with early | late
  · exact hushed e early
  · exact hushed' e late

theorem Hushed.destroyed (hushed : Hushed s s') (gone : .destroyed p ∈ s.log) :
    .destroyed p ∈ s'.log := by
  obtain ⟨new, log, -⟩ := hushed
  rw [log]
  exact List.mem_append_left new gone

/-- A closed object stays closed when its status does. -/
theorem Closed.keeps (closed : s.Closed p)
    (gone : .destroyed p ∈ s.log → .destroyed p ∈ s'.log)
    (status : ∀ c, s.cores p = some c → c.status = .forceStopping →
      ∃ c, s'.cores p = some c ∧ c.status = .forceStopping) : s'.Closed p := by
  rcases closed with destroyed | ⟨c, stored, forced⟩
  · exact .inl (gone destroyed)
  · exact .inr (status c stored forced)

theorem Thins.trans {s'' : Shard} (first : Thins s s') (second : Thins s' s'') : Thins s s'' where
  queued := by
    intro p
    rcases second.queued p with same | lost
    · rcases first.queued p with same' | ⟨none, closed⟩
      · exact .inl (same.trans same')
      · exact .inr ⟨same.trans none, second.closed p closed⟩
    · exact .inr lost
  closed := fun p closed => second.closed p (first.closed p closed)
  hushed := first.hushed.trans second.hushed
  nextMid := second.nextMid.trans first.nextMid

theorem Thins.of_cores (cores : s'.cores = s.cores) (hushed : Hushed s s')
    (nextMid : s'.nextMid = s.nextMid) : Thins s s' := by
  refine ⟨fun p => .inl ?_, fun p closed => ?_, hushed, nextMid⟩
  · rw [Shard.queued, cores, Shard.queued]
  · rw [Closed, Forced, cores]
    exact closed.imp_left hushed.destroyed

theorem Thins.silent (cores : s'.cores = s.cores) (log : s'.log = s.log)
    (nextMid : s'.nextMid = s.nextMid) : Thins s s' := .of_cores cores (.of_eq log) nextMid

theorem Thins.refl : Thins s s := .silent rfl rfl rfl

/-! ## Operations -/

/-- An object changes and keeps its messages for `do_work`. Its status changes when it was
running. -/
theorem Thins.update {f : ActorObject → ActorObject}
    (users : ∀ o, s.objs p = some o → (f o).core.users = o.core.users)
    (status : ∀ o, s.objs p = some o → o.core.status = .forceStopping →
      (f o).core.status = .forceStopping) : Thins s (s.update p f) := by
  have updated (q : Path) := cores_update s p f q
  refine ⟨fun q => .inl ?_, fun q closed => ?_, .of_eq rfl, rfl⟩
  · rw [Shard.queued, updated, Shard.queued]
    split
    · next here =>
      cases found : s.objs q with
      | none => simp [cores, found]
      | some o => simpa [cores, found] using users o (here ▸ found)
    · rfl
  · refine closed.keeps id fun c stored forced => ?_
    rw [updated]
    split
    · next here =>
      obtain ⟨o, found, rfl⟩ := exists_of_cores stored
      exact ⟨_, by rw [found, Option.map_some], status o (here ▸ found) forced⟩
    · exact ⟨c, stored, forced⟩

/-- An object changes and keeps its core but for its tasks and methods. -/
theorem Thins.update_same {f : ActorObject → ActorObject}
    (users : ∀ o, s.objs p = some o → (f o).core.users = o.core.users)
    (status : ∀ o, (f o).stopStatus = o.stopStatus) : Thins s (s.update p f) :=
  .update users fun o _ forced => (status o).trans forced

theorem Thins.work (f : ActorBody → ActorBody) : Thins s (s.update p (·.mapActor f)) :=
  .update_same (fun o _ => by rw [ActorObject.core_mapActor]) fun _ => rfl

theorem Thins.group (f : GroupBody → GroupBody) : Thins s (s.update p (·.mapGroup f)) :=
  .update_same (fun o _ => by rw [ActorObject.core_mapGroup]) fun _ => rfl

theorem Thins.setSched (status : SchedStatus) : Thins s (s.update p (·.setSched status)) :=
  .update_same (fun _ _ => rfl) fun _ => rfl

theorem Thins.activate : Thins s (s.activate p) :=
  .silent (cores_activate ..) (log_activate ..) (congrArg (·.2.2) control_activate)

theorem Thins.emit {e : Event} (hushed : e.isMail = false) : Thins s (s.emit e) :=
  .of_cores rfl ⟨[e], rfl, fun _ member => List.mem_singleton.mp member ▸ hushed⟩ rfl

theorem Thins.setPc (pc : Pc) : Thins s (s.setPc pc) := .silent rfl rfl rfl

theorem Thins.leave : Thins s s.leave := .silent rfl rfl rfl

theorem Thins.setStops (stops : List StopFrame) : Thins s { s with stops := stops } :=
  .silent rfl rfl rfl

theorem Thins.addTask (task : Task) (urgent : Bool) : Thins s (s.addTask p task urgent) :=
  .trans (.work _) .activate

/-- A stop message passes the others. -/
theorem Thins.enqueUrgentMessage {m : ActorMessage} (other : m.type ≠ .user) :
    Thins s (s.enqueUrgentMessage p m) := by
  refine .trans (.update_same (fun o _ => ?_) fun _ => ?_) .activate
  · rw [ActorObject.core_setMailbox, List.filter_cons_of_neg (by simpa using other)]
    rfl
  · rfl

/-- The first message of a mailbox is taken. It is not one for `do_work`. -/
theorem Thins.takeStop {sched : SchedStatus} {stop : ActorStatus} {m : ActorMessage}
    {mailbox : List ActorMessage} {body : Body} (other : m.type ≠ .user)
    (found : s.objs p = some ⟨sched, stop, m :: mailbox, body⟩) :
    Thins s (s.update p (·.setMailbox mailbox)) := by
  refine .update_same (fun o stored => ?_) fun _ => rfl
  obtain rfl := Option.some.inj (found.symm.trans stored)
  rw [ActorObject.core_setMailbox, ActorObject.core, ActorObject.users,
    List.filter_cons_of_neg (by simpa using other)]

theorem Thins.stopAllChildren (force : Bool) : Thins s (s.stopAllChildren p force) := by
  refine stopAllChildren_induction (motive := Thins s) s p .refl ?_
  intro t k told
  refine told.trans (.enqueUrgentMessage ?_)
  cases force with
  | true => simp [stopMessage]
  | false => simp [stopMessage]

theorem Thins.activateIdle : Thins s (s.activateIdle p) := by
  unfold Shard.activateIdle
  split
  · split
    · exact .activate
    · exact .refl
  · exact .refl

theorem Thins.disable : Thins s (s.disable p k) := .trans (.group _) (.emit rfl)

/-- The mailbox of a closed object is emptied. -/
theorem Thins.cleanMailbox (closed : s.Closed p) : Thins s (s.cleanMailbox p) := by
  have hushed : Hushed s (s.cleanMailbox p) := by
    refine ⟨_, log_cleanMailbox, fun e member => ?_⟩
    obtain ⟨m, -, rfl⟩ := List.mem_map.mp member
    rfl
  have keeps (q : Path) (before : s.Closed q) : (s.cleanMailbox p).Closed q := by
    refine before.keeps hushed.destroyed fun c stored forced => ?_
    rw [cores_cleanMailbox]
    split
    · exact ⟨{ c with users := [] }, by rw [stored, Option.map_some], forced⟩
    · exact ⟨c, stored, forced⟩
  refine ⟨fun q => ?_, keeps, hushed, congrArg (·.2.2) control_cleanMailbox⟩
  rw [Shard.queued, cores_cleanMailbox, Shard.queued]
  split
  · next here =>
    refine .inr ⟨?_, here ▸ keeps p closed⟩
    cases s.cores q <;> rfl
  · exact .inl rfl

/-- An object that runs is stopped. -/
theorem Thins.setStop {o : ActorObject} (force : Bool) (found : s.objs p = some o)
    (running : o.stopping = false) : Thins s (s.update p (·.setStop force)) := by
  refine .update (fun o _ => rfl) fun o' stored forced => ?_
  obtain rfl := Option.some.inj (found.symm.trans stored)
  rw [o.running_of_stopping running] at forced
  cases forced

theorem closed_setStop {o : ActorObject} (found : s.objs p = some o) :
    (s.update p (·.setStop true)).Closed p :=
  .inr ⟨_, cores_update_self found _, rfl⟩

theorem Thins.stopGroup (force : Bool) : Thins s (s.stopGroup p force) := by
  unfold Shard.stopGroup
  split
  · next o found =>
    split
    · exact .refl
    · next running =>
      have stopped : Thins s ((s.update p (·.setStop force)).stopAllChildren p force) :=
        .trans (.setStop force found (by simpa using running)) (.stopAllChildren force)
      have cleaned : Thins s
          (if force then ((s.update p (·.setStop force)).stopAllChildren p force).cleanMailbox p
            else (s.update p (·.setStop force)).stopAllChildren p force) := by
        cases force with
        | true =>
          exact stopped.trans (.cleanMailbox ((Thins.stopAllChildren true).closed p
            (closed_setStop found)))
        | false => exact stopped
      simp only
      split
      · exact cleaned.trans .activate
      · exact cleaned
  · exact .refl

theorem Thins.stopChildActor (force : Bool) : Thins s (s.stopChildActor p k force) := by
  unfold Shard.stopChildActor
  split
  · next o reached found =>
    split
    · exact .trans (.stopGroup force) .disable
    · split
      · exact .disable
      · next running =>
        have running' : o.stopping = false := by simpa using running
        split
        · exact .trans (.trans (.trans (.setStop true found running')
            (.cleanMailbox (closed_setStop found))) (.work _)) (.silent rfl rfl rfl)
        · exact .trans (.trans (.setStop false found running') .activateIdle) .disable
  · exact .refl

theorem Thins.stopSelf (force : Bool) : Thins s (s.stopSelf p force) := by
  cases p with
  | nil => exact .refl
  | cons k p => exact .stopChildActor force

theorem Thins.runTask (task : Task) : Thins s (s.runTask p task) := by
  cases task with
  | user => exact .refl
  | reply msg failed => exact .trans (.emit rfl) (.addTask _ _)
  | post msg state =>
    have ended : Thins s ((s.update p
        (·.mapActor fun a => { a with curConcurrency := a.curConcurrency - 1 })).reclaim msg) :=
      .trans (.work _) (.emit rfl)
    unfold Shard.runTask
    simp only
    split
    · exact ended.trans (.stopSelf true)
    · exact ended

theorem Thins.notifyChildStopped : Thins s (s.notifyChildStopped p) := by
  refine .of_cores cores_notifyChildStopped ?_ (congrArg (·.2.2) control_notifyChildStopped)
  obtain ⟨exits, which, log⟩ := log_notifyChildStopped (s := s) (p := p)
  refine ⟨exits, log, fun e member => ?_⟩
  rcases which with rfl | rfl
  · cases member
  · rw [List.mem_singleton.mp member]
    rfl

theorem Thins.destroy : Thins s (s.destroy p) := by
  have hushed : Hushed s (s.destroy p) :=
    ⟨[.destroyed p], rfl, fun _ member => List.mem_singleton.mp member ▸ rfl⟩
  have gone : (s.destroy p).Closed p := .inl (List.mem_append_right s.log List.mem_cons_self)
  refine ⟨fun q => ?_, fun q closed => ?_, hushed, rfl⟩
  · rw [Shard.queued, cores_destroy, Shard.queued]
    split
    · next here => exact .inr ⟨rfl, here ▸ gone⟩
    · exact .inl rfl
  · by_cases here : q = p
    · exact here ▸ gone
    · refine closed.keeps hushed.destroyed fun c stored forced => ⟨c, ?_, forced⟩
      rw [cores_destroy, if_neg here, stored]

theorem Thins.sleep (awake : Prop) [Decidable awake] :
    Thins s (if awake then (s.leave.update p (·.setSched .schedulable)).activate p
      else s.leave.update p (·.setSched .schedulable)) := by
  have returned : Thins s (s.leave.update p (·.setSched .schedulable)) :=
    .trans .leave (.setSched _)
  split
  · exact returned.trans .activate
  · exact returned

theorem Thins.finishActor (finished : s.finishActor p k = some s') : Thins s s' := by
  cases finishesActor finished with
  | ends sched stop mailbox a found ends =>
    exact .trans (.trans .leave .notifyChildStopped) .destroy
  | stays sched stop mailbox a found lives => exact .sleep _

theorem Thins.finishGroup (finished : s.finishGroup p k = some s') : Thins s s' := by
  cases finishesGroup finished with
  | ends sched stop mailbox g found ends =>
    have notified : Thins s (s.leave.notifyChildStopped p) := .trans .leave .notifyChildStopped
    split
    · exact .trans (notified.trans (.emit rfl)) .destroy
    · exact notified.trans .destroy
  | stays sched stop mailbox g found lives => exact .sleep _

theorem Thins.enterChild {i : Nat} (entered : s.enterChild p i = some s') : Thins s s' := by
  cases entersChild entered with
  | enters sched stop mailbox g k o found listed child =>
    have taken : Thins s (s.update p (·.setActors (·.eraseIdx i))) := .group _
    split
    · exact .trans (taken.trans (.work _)) (.silent rfl rfl rfl)
    · exact taken.trans (.silent rfl rfl rfl)

theorem Thins.obeyStop {sched : SchedStatus} {stop : ActorStatus} {m : ActorMessage}
    {mailbox : List ActorMessage} {g : GroupBody} (isStop : m.isStop = true)
    (found : s.objs (k :: p) = some ⟨sched, stop, m :: mailbox, .group g⟩) :
    Thins s (s.obeyStop p k m mailbox) := by
  have other : m.type ≠ .user := fun user => by simp [ActorMessage.isStop, user] at isStop
  exact .trans (.trans (.takeStop other found) (.stopChildActor _)) (.trans (.group _) (.emit rfl))

theorem Thins.groupMail {needYield : Bool} (handled : s.groupMail p k needYield = some s') :
    Thins s s' := by
  cases handlesGroupMail handled with
  | none sched stop g found => exact .setPc _
  | yields sched stop m mailbox g found isStop finished =>
    exact .trans (.obeyStop isStop found) (.finishGroup finished)
  | goesOn sched stop m mailbox g found isStop => exact .obeyStop isStop found

theorem Thins.groupTasks {i : Nat} (ran : s.groupTasks p k i = some s') : Thins s s' := by
  cases runsGroupTasks ran with
  | none sched stop mailbox g found none finished => exact .finishGroup finished
  | enters sched stop mailbox g found waiting entered =>
    exact .trans (.setPc _) (.enterChild entered)

theorem Thins.actorTasks (ran : s.actorTasks p k = some s') : Thins s s' := by
  cases runsActorTasks ran with
  | next sched stop mailbox a found task tasks front =>
    exact .trans (.trans (.work _) (.setPc _)) (.runTask task)
  | full sched stop mailbox a found none full => exact .trans (.setSched _) .leave
  | opens sched stop mailbox a found none free => exact .setPc _

theorem Thins.workDone {m : ActorMessage} {reply : Option Bool} {state : WorkState}
    (done : s.workDone p k m reply state = some s') : Thins s s' := by
  have ended : Thins s (s.worked (k :: p) m reply) := by
    cases reply with
    | none => exact .trans (.setPc .worked) (.emit rfl)
    | some failed => exact .trans (.trans (.emit rfl) (.setPc .worked)) (.emit rfl)
  rw [workDone_eq done]
  split
  · exact ended.trans (.stopChildActor true)
  · exact ended

theorem Thins.workPending {m : ActorMessage} (pending : s.workPending p k m = some s') :
    Thins s s' := by
  obtain ⟨sched, stop, mailbox, a, found, ⟨full, pending⟩ | ⟨free, rfl⟩⟩ :=
    workPending_cases pending
  · exact .trans (.work _) (.finishActor pending)
  · exact .trans (.work _) (.setPc _)

theorem Thins.cleanNext {rest : List StopFrame} (cleaned : s.cleanNext p k rest = some s') :
    Thins s s' := by
  cases cleansNext cleaned with
  | next sched stop mailbox a found task tasks front =>
    have taken : Thins s (s.update (k :: p) (·.setTasks fun _ => tasks)) := .work _
    exact (taken.trans (.setStops (.clean (k :: p) true :: rest))).trans (.runTask task)
  | ends sched stop mailbox a found none =>
    exact .trans (.trans (.setStops rest) .activateIdle) .disable

theorem Thins.stopSystemEnd {m : ActorMessage} {rest : List StopFrame}
    (ended : s.stopSystemEnd m rest = some s') : Thins s s' := by
  cases endsSystem ended with
  | ends sched stop mailbox g root closed =>
    refine .trans ?_ (.emit rfl)
    split
    · exact .trans (.setStops rest) (.emit rfl)
    · exact .setStops rest

theorem Thins.complete {i : Nat} {reply : Option Bool} {state : WorkState}
    (completed : s.complete p i reply state = some s') : Thins s s' := by
  cases completes completed with
  | lands sched stop mailbox a found m flying => exact .trans (.work _) (.addTask _ _)

/-! ## Receiving -/

/-- A message arrives: it is put behind the others of one mailbox, or in none. -/
structure Arrives (m : ActorMessage) (s s' : Shard) : Prop where
  arrival : ∃ arrived : Path → List ActorMessage,
    (∀ p, arrived p = [] ∨ arrived p = [m] ∧ m.type = .user) ∧
    ∀ p, s'.queued p = s.queued p ++ arrived p ∧
      enqueuedAt p s'.log = enqueuedAt p s.log ++ arrived p ∧
      startedAt p s'.log = startedAt p s.log
  closed : ∀ p, s.Closed p → s'.Closed p
  grows : s.log <+: s'.log

/-- Objects are created and what is done is not about mail. -/
structure Prepares (s s' : Shard) : Prop where
  queued : ∀ p, s'.queued p = s.queued p
  closed : ∀ p, s.Closed p → s'.Closed p
  hushed : Hushed s s'

theorem Prepares.trans {s'' : Shard} (first : Prepares s s') (second : Prepares s' s'') :
    Prepares s s'' where
  queued := fun p => (second.queued p).trans (first.queued p)
  closed := fun p closed => second.closed p (first.closed p closed)
  hushed := first.hushed.trans second.hushed

theorem Prepares.of_cores (cores : s'.cores = s.cores) (hushed : Hushed s s') : Prepares s s' := by
  refine ⟨fun p => by rw [Shard.queued, cores, Shard.queued], fun p closed => ?_, hushed⟩
  rw [Closed, Forced, cores]
  exact closed.imp_left hushed.destroyed

theorem Prepares.refl : Prepares s s := .of_cores rfl (.of_eq rfl)

theorem Prepares.emit {e : Event} (hushed : e.isMail = false) : Prepares s (s.emit e) :=
  .of_cores rfl (Thins.emit hushed).hushed

theorem cores_createChild (q : Path) :
    (s.createChild p k).cores q =
      if q = k :: p then some (ActorObject.create s.limitOf k).core else s.cores q := by
  let s₁ : Shard := { s with objs := Function.update s.objs (k :: p) (some (.create s.limitOf k)) }
  have same : (s.createChild p k).cores = s₁.cores := by
    unfold createChild schedule
    rw [cores_activate, cores_update_same (fun o _ => o.core_setSched _), cores_emit,
      cores_update_same (fun o _ => o.core_mapGroup _),
      cores_update_same (fun o _ => o.core_setEntry k true)]
  rw [same]
  show (Function.update s.objs (k :: p) _ q).map _ = _
  rw [Function.update_apply]
  split
  · rfl
  · rfl

theorem Prepares.createChild (absent : s.objs (k :: p) = none) :
    Prepares s (s.createChild p k) := by
  have hushed : Hushed s (s.createChild p k) :=
    ⟨_, log_createChild .., fun e member => by rw [List.mem_singleton.mp member]; rfl⟩
  refine ⟨fun q => ?_, fun q closed => ?_, hushed⟩
  · rw [Shard.queued, cores_createChild, Shard.queued]
    split
    · next here =>
      rw [here, cores, absent]
      rfl
    · rfl
  · refine closed.keeps hushed.destroyed fun c stored forced => ⟨c, ?_, forced⟩
    have other : q ≠ k :: p := by
      rintro rfl
      rw [cores, absent] at stored
      cases stored
    rw [cores_createChild, if_neg other, stored]

theorem Prepares.getActorLocal (valid : s.tree.Valid) (below : p ≠ []) (keys : List ActorKey) :
    Prepares s (s.getActorLocal p keys).1 := by
  induction keys generalizing s p with
  | nil => exact .refl
  | cons k keys ih =>
    unfold Shard.getActorLocal
    split
    · exact .refl
    · next o found =>
      split
      · next group =>
        split
        · exact .refl
        · exact ih valid (List.cons_ne_nil k p)
        · next unknown =>
          have grows := grows_createChild found group unknown (fun root => absurd root below)
          exact .trans (.createChild (absent_of_unknown valid found unknown))
            (ih (grows.valid valid) (List.cons_ne_nil k p))
      · exact .refl

theorem Prepares.stoppedActorEnqueue (addr : List ActorKey) (m : ActorMessage) :
    Prepares s (s.stoppedActorEnqueue addr m) := by
  have rejected : Prepares s (s.emit (.rejected m addr)) := .emit rfl
  unfold Shard.stoppedActorEnqueue
  simp only
  split
  · exact .trans (.trans rejected (.emit rfl)) (.emit rfl)
  · exact .trans rejected (.emit rfl)

theorem Prepares.arrives {m : ActorMessage} (prepares : Prepares s s') : Arrives m s s' := by
  obtain ⟨new, log, hushed⟩ := prepares.hushed
  refine ⟨⟨fun _ => [], fun _ => .inl rfl, fun p => ⟨?_, ?_, ?_⟩⟩, prepares.closed,
    ⟨new, log.symm⟩⟩
  · rw [prepares.queued, List.append_nil]
  · rw [log, enqueuedAt_append, enqueuedAt_hushed hushed]
  · rw [log, startedAt_append, startedAt_hushed hushed, List.append_nil]

theorem Prepares.then_arrives {s'' : Shard} {m : ActorMessage} (first : Prepares s s')
    (second : Arrives m s' s'') : Arrives m s s'' := by
  obtain ⟨new, log, hushed⟩ := first.hushed
  obtain ⟨⟨arrived, which, where'⟩, closed, grows⟩ := second
  refine ⟨⟨arrived, which, fun p => ?_⟩, fun p before => closed p (first.closed p before),
    .trans ⟨new, log.symm⟩ grows⟩
  obtain ⟨queue, enqueued, started⟩ := where' p
  rw [first.queued] at queue
  rw [log, enqueuedAt_append, enqueuedAt_hushed hushed, List.append_nil] at enqueued
  rw [log, startedAt_append, startedAt_hushed hushed, List.append_nil] at started
  exact ⟨queue, enqueued, started⟩

/-- The object that a message is for exists. -/
theorem arrives_enque {o : ActorObject} {m : ActorMessage} (found : s.objs p = some o) :
    Arrives m s (s.enque p m) := by
  have grows : s.log <+: (s.enque p m).log := ⟨_, (log_enque m).symm⟩
  unfold Shard.enque at grows ⊢
  split
  · next user =>
    have cores (q : Path) : ((s.emit (.enqueued m p)).enqueMessage p m).cores q =
        if q = p then some { o.core with users := o.core.users ++ [m] } else s.cores q := by
      rw [Shard.enqueMessage, cores_activate]
      split
      · next here =>
        rw [here, cores_update_self (s := s.emit (.enqueued m p)) found]
        simp [ActorObject.core, ActorObject.users, user, ActorObject.setMailbox]
        rfl
      · next other => rw [cores_update_ne _ other, cores_emit]
    rw [if_pos user] at grows
    refine ⟨⟨fun q => if q = p then [m] else [], fun q => ?_, fun q => ⟨?_, ?_, ?_⟩⟩, ?_, grows⟩
    · by_cases here : q = p
      · exact .inr ⟨if_pos here, user⟩
      · exact .inl (if_neg here)
    · show _ = s.queued q ++ if q = p then [m] else []
      rw [Shard.queued, cores, Shard.queued]
      by_cases here : q = p
      · rw [if_pos here, if_pos here, here, cores_of_objs found]
        rfl
      · rw [if_neg here, if_neg here, List.append_nil]
    · rw [log_enqueMessage, log_emit, enqueuedAt_append]
      congr 1
      by_cases here : q = p
      · simp [enqueuedAt, user, here]
      · simp [enqueuedAt, here, Ne.symm here]
    · rw [log_enqueMessage, log_emit, startedAt_append]
      exact List.append_nil _
    · intro q closed
      refine closed.keeps (fun gone => ?_) fun c stored forced => ?_
      · rw [log_enqueMessage, log_emit]
        exact List.mem_append_left _ gone
      · rw [cores]
        split
        · next here =>
          rw [here, cores_of_objs found] at stored
          obtain rfl := Option.some.inj stored
          exact ⟨_, rfl, forced⟩
        · exact ⟨c, stored, forced⟩
  · next other =>
    have cores : ((s.emit (.enqueued m p)).enqueUrgentMessage p m).cores = s.cores := by
      rw [Shard.enqueUrgentMessage, cores_activate]
      refine cores_update_same fun o _ => ?_
      rw [ActorObject.core_setMailbox, List.filter_cons_of_neg (by simpa using other)]
      rfl
    rw [if_neg other] at grows
    refine ⟨⟨fun _ => [], fun _ => .inl rfl, fun q => ⟨?_, ?_, ?_⟩⟩, fun q closed => ?_, grows⟩
    · rw [Shard.queued, cores, List.append_nil, Shard.queued]
    · rw [log_enqueUrgentMessage, log_emit, enqueuedAt_append]
      simp [enqueuedAt, other]
    · rw [log_enqueUrgentMessage, log_emit, startedAt_append]
      exact List.append_nil _
    · rw [Closed, Forced, cores, log_enqueUrgentMessage, log_emit]
      exact closed.imp_left (List.mem_append_left _)

/-- The root has no messages for `do_work`. -/
theorem Prepares.stopActorSystem (valid : s.tree.Valid) (force : Bool) (m : ActorMessage) :
    Prepares s (s.stopActorSystem force m) := by
  unfold Shard.stopActorSystem
  split
  · exact .emit rfl
  · next running =>
    obtain ⟨n, root, -⟩ := valid.root
    obtain ⟨o, found, -⟩ := exists_of_node root
    have running' : o.stopping = false := by simpa [rootStopping, found] using running
    have thins : Thins s (s.update [] (·.setStop force)) := .setStop force found running'
    refine ⟨fun q => ?_, fun q closed => thins.closed q closed, .of_eq rfl⟩
    show (s.update [] (·.setStop force)).queued q = _
    rw [Shard.queued, cores_update, Shard.queued]
    split
    · next here =>
      rw [here, cores, found]
      rfl
    · rfl

theorem exists_of_reached (valid : s.tree.Valid) (reached : s.IsReached p) :
    ∃ o, s.objs p = some o := by
  cases p with
  | nil => exact reached.elim
  | cons k p =>
    obtain ⟨parent, above, -, entry⟩ := exists_of_entry reached
    obtain ⟨n, child⟩ := valid.reached (node_tree above) entry
    obtain ⟨o, found, -⟩ := exists_of_node child
    exact ⟨o, found⟩

theorem arrives_receive {addr : List ActorKey} {m : ActorMessage} (valid : s.tree.Valid)
    (received : s.receive addr m = some s') : Arrives m s s' := by
  -- the lookup starts at a child of the root
  have walks (t : Shard) (k : ActorKey) (keys : List ActorKey) (valid : t.tree.Valid) :
      Prepares t (t.getActorLocal [k] keys).1 := .getActorLocal valid (List.cons_ne_nil k []) keys
  -- what it finds exists
  have finds {t t' : Shard} {k : ActorKey} {keys : List ActorKey} {q : Path}
      (valid : t.tree.Valid) (reached : t.IsReached [k])
      (lookup : t.getActorLocal [k] keys = (t', some q)) : Arrives m t (t'.enque q m) := by
    have walked := walks t k keys valid
    rw [lookup] at walked
    obtain ⟨valid', -, ends, -⟩ := getActorLocal_reached valid reached lookup
    obtain ⟨o, found⟩ := exists_of_reached valid' ends
    exact walked.then_arrives (arrives_enque found)
  cases receives received with
  | reply type => exact Prepares.refl.arrives
  | stopSystem force asked => exact (Prepares.stopActorSystem valid force m).arrives
  | stopped k keys entry => exact (Prepares.stoppedActorEnqueue _ m).arrives
  | found k keys t q entry lookup => exact finds valid entry lookup
  | lost k keys t entry lookup =>
    have walked := walks s k keys valid
    rw [lookup] at walked
    exact (walked.trans (.stoppedActorEnqueue _ m)).arrives
  | closed k keys unknown stopping => exact (Prepares.stoppedActorEnqueue _ m).arrives
  | created k keys t q unknown running lookup =>
    obtain ⟨o, found, group, unknown', running'⟩ := root_of_unknown valid unknown running
    have grows := grows_createChild found group unknown' (fun _ => running')
    exact (Prepares.createChild (absent_of_unknown valid found unknown')).then_arrives
      (finds (grows.valid valid) (isReached_createChild found group) lookup)

/-! ## Steps -/

/-- What a step does to the mail. -/
inductive MailStep (label : Label) (s s' : Shard) : Prop
  | thins (thins : Thins s s')
  | arrives {addr : List ActorKey} {m : ActorMessage} {t : Shard}
      (asked : label = .receive addr m.type m.srcShardId m.prId) (new : m.mid = s.nextMid)
      (received : s.receive addr m = some t) (result : s' = { t with nextMid := s.nextMid + 1 })
      (arrives : Arrives m s s') (nextMid : s'.nextMid = s.nextMid + 1)
  | starts {m : ActorMessage} {p : Path} (front : s.queued p = m :: s'.queued p)
      (others : ∀ q, q ≠ p → s'.queued q = s.queued q) (closed : ∀ q, s.Closed q → s'.Closed q)
      (log : s'.log = s.log ++ [.started m p]) (nextMid : s'.nextMid = s.nextMid)

theorem mailStep_actorMail {label : Label} (handled : s.actorMail p k = some s') :
    MailStep label s s' := by
  cases handlesActorMail handled with
  | none sched stop a found finished => exact .thins (.finishActor finished)
  | starts sched stop m mailbox a found user =>
    have self := cores_update_self found (·.setMailbox mailbox)
    refine .starts (m := m) (p := k :: p) ?_ (fun q other => ?_) (fun q closed => ?_) rfl rfl
    · show s.queued (k :: p) = m :: (s.update (k :: p) (·.setMailbox mailbox)).queued (k :: p)
      rw [Shard.queued, Shard.queued, self, cores_of_objs found]
      simp [ActorObject.core, ActorObject.users, user, ActorObject.setMailbox]
    · show (s.update (k :: p) (·.setMailbox mailbox)).queued q = _
      rw [Shard.queued, cores_update_ne _ other, Shard.queued]
    · refine closed.keeps (List.mem_append_left _) fun c stored forced => ?_
      show ∃ c, (s.update (k :: p) (·.setMailbox mailbox)).cores q = some c ∧ _
      by_cases here : q = k :: p
      · rw [here, cores_of_objs found] at stored
        obtain rfl := Option.some.inj stored
        rw [here, self]
        exact ⟨_, rfl, forced⟩
      · rw [cores_update_ne _ here]
        exact ⟨c, stored, forced⟩
  | stops sched stop m mailbox a found force asked =>
    have other : m.type ≠ .user := by
      rw [asked]
      cases force with
      | true => simp
      | false => simp
    exact .thins (.trans (.trans (.trans (.takeStop other found) (.setPc _)) (.stopChildActor _))
      (.emit rfl))

theorem mailStep {label : Label} (valid : s.tree.Valid) (taken : s.step label = some s') :
    MailStep label s s' := by
  cases takesStep taken with
  | user isUser point acted =>
    cases label with
    | receive addr type srcShardId prId =>
      obtain ⟨t, received, rfl⟩ := Option.map_eq_some_iff.mp acted
      have arrives := arrives_receive valid received
      exact .arrives rfl rfl received rfl ⟨arrives.arrival, arrives.closed, arrives.grows⟩ rfl
    | addTask p urgent =>
      obtain ⟨-, rfl⟩ := addTask_cases acted
      exact .thins (.addTask _ _)
    | complete p i reply state => exact .thins (.complete acted)
    | setMaxConcurrency p concurrency =>
      obtain rfl := Option.some.inj acted
      exact .thins (.work _)
    | dispatch | advance | workDone | workPending | stopNext => cases isUser
  | stop frame rest isUser top went =>
    cases takesStopStep went with
    | cleanNext p k running needYield i cleaned => exact .thins (.cleanNext cleaned)
    | stopNext force m k entry => exact .thins (.stopChildActor _)
    | stopSystemEnd force needYield m i ended => exact .thins (.stopSystemEnd ended)
  | run frame rest isUser idle runs went =>
    cases takesRunStep went with
    | groupMail p k needYield i handled => exact .thins (.groupMail handled)
    | groupTasks p k needYield i ran => exact .thins (.groupTasks ran)
    | groupYields p k i finished => exact .thins (.finishGroup finished)
    | actorTasks p k needYield i ran => exact .thins (.actorTasks ran)
    | taskYields p k i finished => exact .thins (.finishActor finished)
    | actorMail p k needYield i handled => exact mailStep_actorMail handled
    | workDone p k m reply state done => exact .thins (.workDone done)
    | workPending p k m pending => exact .thins (.workPending pending)
    | workYields p k i finished => exact .thins (.finishActor finished)
    | groupGoesOn | taskGoesOn | workGoesOn => exact .thins (.setPc _)
  | dispatch i idle runs entered => exact .thins (.enterChild entered)

theorem MailStep.closed {label : Label} (mail : MailStep label s s') (closed : s.Closed p) :
    s'.Closed p := by
  cases mail with
  | thins thins => exact thins.closed p closed
  | arrives asked new received result arrives nextMid => exact arrives.closed p closed
  | starts front others keeps log nextMid => exact keeps p closed

/-- What was in front of a mailbox is behind the messages that were started before. -/
theorem started_starts {m : ActorMessage} {q : Path} (front : s.queued q = m :: s'.queued q)
    (others : ∀ r, r ≠ q → s'.queued r = s.queued r) (log : s'.log = s.log ++ [.started m q]) :
    startedAt p s'.log ++ s'.queued p = startedAt p s.log ++ s.queued p := by
  rw [log, startedAt_append]
  by_cases here : p = q
  · subst here
    rw [front]
    simp [startedAt]
  · rw [others p here]
    simp [startedAt, Ne.symm here]

/-- The log of a shard only grows. -/
theorem log_step {label : Label} (valid : s.tree.Valid) (taken : s.step label = some s') :
    s.log <+: s'.log := by
  cases mailStep valid taken with
  | thins thins =>
    obtain ⟨new, log, -⟩ := thins.hushed
    exact ⟨new, log.symm⟩
  | arrives asked new received result arrives nextMid => exact arrives.grows
  | starts front others closed log nextMid => exact ⟨_, log.symm⟩

/-! ## Runs -/

/-- All messages that were put in the mailbox at `p` were handed to `do_work` or wait. -/
def Complete (s : Shard) (p : Path) : Prop :=
  startedAt p s.log ++ s.queued p = enqueuedAt p s.log

/-- A step that does not empty the mailbox leaves out no message. -/
theorem Complete.mailStep {label : Label} (complete : s.Complete p) (mail : MailStep label s s')
    (kept : s'.queued p = [] → s'.Closed p → s.queued p = []) : s'.Complete p := by
  cases mail with
  | thins thins =>
    obtain ⟨new, log, hushed⟩ := thins.hushed
    have queued : s'.queued p = s.queued p := by
      rcases thins.queued p with same | ⟨none, closed⟩
      · exact same
      · rw [none, kept none closed]
    rw [Complete, queued, log, startedAt_append, startedAt_hushed hushed, List.append_nil,
      enqueuedAt_append, enqueuedAt_hushed hushed, List.append_nil]
    exact complete
  | arrives asked new received result arrives nextMid =>
    obtain ⟨⟨arrived, -, where'⟩, -, -⟩ := arrives
    obtain ⟨queue, enqueued, started⟩ := where' p
    rw [Complete, queue, enqueued, started, ← List.append_assoc, complete]
  | starts front others closed log nextMid =>
    rw [Complete, started_starts front others log, log, enqueuedAt_append]
    exact complete.trans (List.append_nil _).symm

/-- The mail of the object at `p` is in order. -/
structure InOrder (s : Shard) (p : Path) : Prop where
  /-- Messages are handed to `do_work` in the order in which they came, and those that wait came
  after them. -/
  order : (startedAt p s.log ++ s.queued p).Sublist (enqueuedAt p s.log)
  /-- None is left out but by an object that was stopped by force or is gone. -/
  complete : ¬ s.Closed p → s.Complete p
  /-- They are told apart by when they came. -/
  increasing : (enqueuedAt p s.log).Pairwise fun m n => m.mid < n.mid
  bounded : ∀ m ∈ enqueuedAt p s.log, m.mid < s.nextMid

theorem InOrder.step {label : Label} (inOrder : InOrder s p) (mail : MailStep label s s') :
    InOrder s' p := by
  have complete (opened : ¬ s'.Closed p) : s'.Complete p :=
    (inOrder.complete fun closed => opened (mail.closed closed)).mailStep mail
      fun _ closed => absurd closed opened
  cases mail with
  | thins thins =>
    obtain ⟨new, log, hushed⟩ := thins.hushed
    have enqueued : enqueuedAt p s'.log = enqueuedAt p s.log := by
      rw [log, enqueuedAt_append, enqueuedAt_hushed hushed, List.append_nil]
    have started : startedAt p s'.log = startedAt p s.log := by
      rw [log, startedAt_append, startedAt_hushed hushed, List.append_nil]
    refine ⟨?_, complete, ?_, ?_⟩
    · rw [enqueued, started]
      rcases thins.queued p with same | ⟨none, -⟩
      · rw [same]
        exact inOrder.order
      · rw [none, List.append_nil]
        exact (List.sublist_append_left _ _).trans inOrder.order
    · rw [enqueued]
      exact inOrder.increasing
    · rw [enqueued, thins.nextMid]
      exact inOrder.bounded
  | @arrives addr m t asked new received result arrives nextMid =>
    obtain ⟨⟨arrived, which, where'⟩, -, -⟩ := arrives
    obtain ⟨queue, enqueued, started⟩ := where' p
    have ofNew {n : ActorMessage} (member : n ∈ arrived p) : n = m := by
      rcases which p with none | ⟨one, -⟩
      · rw [none] at member
        cases member
      · rw [one] at member
        exact List.mem_singleton.mp member
    refine ⟨?_, complete, ?_, ?_⟩
    · rw [queue, enqueued, started, ← List.append_assoc]
      exact inOrder.order.append (List.Sublist.refl _)
    · rw [enqueued]
      refine List.pairwise_append.mpr ⟨inOrder.increasing, ?_, ?_⟩
      · rcases which p with none | ⟨one, -⟩
        · rw [none]
          exact List.Pairwise.nil
        · rw [one]
          exact List.pairwise_singleton _ _
      · intro early isEarly late isLate
        rw [ofNew isLate, new]
        exact inOrder.bounded early isEarly
    · intro n member
      rw [nextMid]
      rw [enqueued] at member
      rcases List.mem_append.mp member with old | late
      · exact Nat.lt_succ_of_lt (inOrder.bounded n old)
      · rw [ofNew late, new]
        exact Nat.lt_succ_self _
  | @starts m q front others closed log nextMid =>
    have enqueued : enqueuedAt p s'.log = enqueuedAt p s.log := by
      rw [log, enqueuedAt_append]
      exact List.append_nil _
    refine ⟨?_, complete, ?_, ?_⟩
    · rw [started_starts front others log, enqueued]
      exact inOrder.order
    · rw [enqueued]
      exact inOrder.increasing
    · rw [enqueued, nextMid]
      exact inOrder.bounded

theorem queued_init (limitOf : ActorKey → Nat) (p : Path) : (init limitOf).queued p = [] := by
  show ((if p = [] then _ else none : Option ActorObject).map _).elim [] Core.users = []
  split
  · rfl
  · rfl

theorem complete_init (limitOf : ActorKey → Nat) (p : Path) : (init limitOf).Complete p := by
  rw [Complete, queued_init]
  rfl

theorem inOrder_init (limitOf : ActorKey → Nat) (p : Path) : InOrder (init limitOf) p := by
  refine ⟨?_, fun _ => complete_init limitOf p, List.Pairwise.nil, fun _ member => nomatch member⟩
  rw [queued_init]
  exact List.Sublist.refl _

theorem inOrder_of_reachable {limitOf : ActorKey → Nat}
    (reachable : Reachable step (init limitOf) s) (p : Path) : InOrder s p := by
  obtain ⟨labels, ran⟩ := reachable
  refine (run_invariant (fun s => s.tree.Valid ∧ InOrder s p) ?_ labels _ s ?_ ran).2
  · rintro t label t' ⟨valid, inOrder⟩ taken
    exact ⟨valid.steps (refines_step valid taken), inOrder.step (mailStep valid taken)⟩
  · exact ⟨tree_init limitOf ▸ LifeTree.valid_rootOnly _, inOrder_init limitOf p⟩

/-- A step that ends an actor that was not stopped by force finds no message for `do_work` in its
mailbox. -/
theorem queued_of_destroyed {label : Label} (valid : s.tree.Valid) (actor : k.isGroup = false)
    (taken : s.step label = some s') (gone : .destroyed (k :: p) ∈ s'.log) :
    s.queued (k :: p) = [] := by
  have absent : s'.objs (k :: p) = none := Option.map_eq_none_iff.mp
    ((valid.steps (refines_step valid taken)).removed_gone (mem_removed.mpr gone)).2
  cases found : s.objs (k :: p) with
  | none => rw [queued, cores_eq_none.mpr found, Option.elim_none]
  | some o =>
    obtain ⟨sched, stop, mailbox, body⟩ := o
    cases body with
    | group g =>
      have group : k.isGroup = true := (isGroup_of_key valid found).symm
      rw [actor] at group
      cases group
    | actor a =>
      obtain ⟨_, _, _, _, _, _, _, _, rfl, _⟩ :=
        (passes_step valid taken).destroys valid found absent
      rw [queued, cores_of_objs found]
      rfl

/-- The step leads to a state in which the object at `p` is not stopped by force. -/
def Spares (p : Path) (s : Shard) (label : Label) : Prop :=
  ∀ s', s.step label = some s' → ¬ s'.Forced p

instance (p : Path) (s : Shard) (label : Label) : Decidable (Spares p s label) :=
  decidable_of_iff (∀ s' ∈ s.step label, ¬ s'.Forced p) Iff.rfl

/-- An actor that is never stopped by force leaves out no message, also when it has ended. -/
theorem complete_of_spared {limitOf : ActorKey → Nat} (actor : k.isGroup = false)
    (spared : ReachedBy step (Spares (k :: p)) (init limitOf) s) : s.Complete (k :: p) := by
  refine (spared.invariant (fun s => s.tree.Valid ∧ s.Complete (k :: p)) ?_ ?_).2
  · rintro t label t' ⟨valid, complete⟩ spares taken
    refine ⟨valid.steps (refines_step valid taken), ?_⟩
    refine complete.mailStep (mailStep valid taken) fun _ closed => ?_
    exact queued_of_destroyed valid actor taken (closed.resolve_right (spares t' taken))
  · exact ⟨tree_init limitOf ▸ LifeTree.valid_rootOnly _, complete_init limitOf _⟩

/-- Every actor hands its messages to `do_work` in the order in which `receive` put them in its
mailbox and none of them twice. It leaves none out as long as it lives and was not stopped by force,
and an actor that has ended without being stopped by force has handled all of them. -/
theorem mail_in_order {limitOf : ActorKey → Nat} (reachable : Reachable step (init limitOf) s)
    (p : Path) :
    (startedAt p s.log ++ s.queued p).Sublist (enqueuedAt p s.log) ∧
      (startedAt p s.log).Pairwise (fun m n => m.mid < n.mid) ∧
      (¬ s.Closed p → startedAt p s.log ++ s.queued p = enqueuedAt p s.log) ∧
      ∀ k q, p = k :: q → k.isGroup = false → ReachedBy step (Spares p) (init limitOf) s →
        startedAt p s.log ++ s.queued p = enqueuedAt p s.log := by
  have inOrder := inOrder_of_reachable reachable p
  refine ⟨inOrder.order, ?_, inOrder.complete, ?_⟩
  · exact inOrder.increasing.sublist ((List.sublist_append_left _ _).trans inOrder.order)
  · rintro k q rfl actor spared
    exact complete_of_spared actor spared

/-- Two requests for an actor, of which it handles the first. -/
def twoRequestsRun : List Label :=
  [.receive [workerKey] .user 3 5, .receive [workerKey] .user 4 6, .dispatch 0, .advance false 0,
    .advance false 0]

/-- An actor handles a request after it was stopped in peace, and ends. -/
def lastRequestRun : List Label :=
  [.receive [workerKey] .user 3 5, .receive [workerKey] .peaceStop 4 0, .dispatch 0] ++
    List.replicate 4 (.advance false 0) ++ [.workDone (some false) .no] ++
    List.replicate 2 (.advance false 0)

theorem two_requests_in_order :
    (∃ s, run step (init fun _ => 1) twoRequestsRun = some s ∧
      startedAt [workerKey] s.log ++ s.queued [workerKey] =
        [⟨1, .user, 3, 5⟩, ⟨2, .user, 4, 6⟩]) ∧
    ∃ s, run step (init fun _ => 1) lastRequestRun = some s ∧
      .destroyed [workerKey] ∈ s.log ∧ startedAt [workerKey] s.log = [⟨1, .user, 3, 5⟩] := by
  obtain ⟨s, ran, opened, both⟩ : ∃ s, run step (init fun _ => 1) twoRequestsRun = some s ∧
      ¬ s.Closed [workerKey] ∧
      enqueuedAt [workerKey] s.log = [⟨1, .user, 3, 5⟩, ⟨2, .user, 4, 6⟩] :=
    ⟨_, rfl, by decide⟩
  obtain ⟨t, ran', gone, none, one⟩ : ∃ t, run step (init fun _ => 1) lastRequestRun = some t ∧
      .destroyed [workerKey] ∈ t.log ∧ t.queued [workerKey] = [] ∧
      enqueuedAt [workerKey] t.log = [⟨1, .user, 3, 5⟩] :=
    ⟨_, rfl, by decide⟩
  have spared : ReachedBy step (Spares [workerKey]) (init fun _ => 1) t :=
    ⟨lastRequestRun, by decide, ran'⟩
  have handled := (mail_in_order spared.reachable [workerKey]).2.2.2 workerKey [] rfl rfl spared
  rw [none, List.append_nil, one] at handled
  refine ⟨⟨s, ran, ?_⟩, t, ran', gone, handled⟩
  exact ((mail_in_order ⟨_, ran⟩ [workerKey]).2.2.1 opened).trans both

end Shard

end Hiactor
