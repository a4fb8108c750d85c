import Hiactor.Core.Proofs.Flow
import Hiactor.Core.Proofs.Stopping

/-!
# The flow of a shard

Where the messages of a shard are. Every step of a shard is a sequence of moves of its flow, in
which the policy allows what the step drops, finishes without a response and overwrites.
-/

namespace Hiactor

open Lib

def Task.held : Task → List Item
  | .user => []
  | .reply msg _ => [⟨.reply, msg⟩]
  | .post msg _ => [⟨.post, msg⟩]

/-- An actor without methods in flight has no continuation of one. -/
theorem ActorBody.Balanced.tasks_held {a : ActorBody} (balanced : a.Balanced)
    (idle : a.curConcurrency = 0) : a.inFlight = [] ∧ a.taskQueue.flatMap Task.held = [] := by
  unfold ActorBody.Balanced at balanced
  have none : a.taskQueue.countP Task.waits = 0 := by omega
  refine ⟨List.length_eq_zero_iff.mp (by omega), List.flatMap_eq_nil_iff.mpr fun task member => ?_⟩
  have detached := List.countP_eq_zero.mp none task member
  cases task with
  | user => rfl
  | reply | post => exact absurd rfl detached

/-- The cancel request that a group remembers, if there is one. -/
def GroupBody.cancelRequest (g : GroupBody) : List ActorMessage :=
  if g.cancelRequestPrId = 0 then []
  else [⟨g.cancelRequestMid, .peaceStop, g.cancelRequestSid, g.cancelRequestPrId⟩]

namespace ActorObject

/-- The messages that an object holds besides those in its mailbox. -/
def bodyHeld (o : ActorObject) : List Item := match o.body with
  | .group g => g.cancelRequest.map (⟨.cancel, ·⟩)
  | .actor a => a.inFlight.map (⟨.flight, ·⟩) ++ a.taskQueue.flatMap Task.held

def held (o : ActorObject) : List Item := o.mailbox.map (⟨.mail, ·⟩) ++ o.bodyHeld

variable (o : ActorObject)

@[simp] theorem held_setSched (status : SchedStatus) : (o.setSched status).held = o.held := rfl

@[simp] theorem held_setStop (force : Bool) : (o.setStop force).held = o.held := rfl

@[simp] theorem held_setMailbox (mailbox : List ActorMessage) :
    (o.setMailbox mailbox).held = mailbox.map (⟨.mail, ·⟩) ++ o.bodyHeld := rfl

/-- Changes of a group that keep its cancel request. -/
theorem held_mapGroup {f : GroupBody → GroupBody}
    (same : ∀ g, (f g).cancelRequestPrId = g.cancelRequestPrId ∧
      (f g).cancelRequestSid = g.cancelRequestSid ∧ (f g).cancelRequestMid = g.cancelRequestMid) :
    (o.mapGroup f).held = o.held := by
  cases o with
  | mk sched stop mailbox body =>
    cases body with
    | actor a => rfl
    | group g =>
      obtain ⟨prId, sid, mid⟩ := same g
      simp [held, bodyHeld, mapGroup, GroupBody.cancelRequest, prId, sid, mid]

@[simp] theorem held_setActors (f : List ActorKey → List ActorKey) :
    (o.setActors f).held = o.held := held_mapGroup _ (fun _ => ⟨rfl, rfl, rfl⟩)

@[simp] theorem held_setEntry (k : ActorKey) (reached : Bool) :
    (o.setEntry k reached).held = o.held := held_mapGroup _ (fun _ => ⟨rfl, rfl, rfl⟩)

/-- Changes of an actor that keep its messages. -/
theorem held_mapActor {f : ActorBody → ActorBody}
    (same : ∀ a, (f a).inFlight = a.inFlight ∧ (f a).taskQueue = a.taskQueue) :
    (o.mapActor f).held = o.held := by
  cases o with
  | mk sched stop mailbox body =>
    cases body with
    | group g => rfl
    | actor a =>
      obtain ⟨flights, tasks⟩ := same a
      simp [held, bodyHeld, mapActor, flights, tasks]

/-- A cancelled continuation still holds its message. -/
@[simp] theorem held_cancel : (o.setTasks (List.map Task.cancel)).held = o.held := by
  have same (task : Task) : task.cancel.held = task.held := by cases task <;> rfl
  cases o with
  | mk sched stop mailbox body =>
    cases body with
    | group g => rfl
    | actor a => simp [held, bodyHeld, setTasks, mapActor, List.flatMap_map, same]

theorem held_create (limitOf : ActorKey → Nat) (k : ActorKey) :
    (create limitOf k).held = [] := by
  unfold create
  cases k.isGroup <;> rfl

end ActorObject

def RunFrame.held (frame : RunFrame) : List Item := match frame.pc with
  | .inWork msg => [⟨.work, msg⟩]
  | _ => []

namespace Shard

/-- The messages in the frames of an object. -/
def works (runs : List RunFrame) (q : Path) : List Item :=
  (runs.filter (·.path = q)).flatMap RunFrame.held

/-- The messages that an object holds. -/
def heldAt (s : Shard) (q : Path) : List Item :=
  (s.objs q).elim [] ActorObject.held ++ works s.runs q

/-- The flow of a shard. An operation in progress may hold `extra` messages. -/
def flow (extra : Path → List Item) (s : Shard) : Flow where
  held := fun q => extra q ++ s.heldAt q
  atRoot := s.atRoot
  stage := stageOf s.log
  arrived := s.log.filterMap Event.arrival
  nextMid := s.nextMid

/-- One more message in the hand of the object at `p`. -/
def hold (p : Path) (items : List Item) (extra : Path → List Item) : Path → List Item :=
  fun q => if q = p then items ++ extra q else extra q

variable {extra : Path → List Item} {policy : Policy} {s s' : Shard} {p : Path}

/-- Nothing happens to the messages. -/
theorem flow_congr (held : s'.heldAt = s.heldAt) (log : s'.log = s.log)
    (kept : s'.control.2 = s.control.2) : flow extra s' = flow extra s := by
  obtain ⟨atRoot, nextMid⟩ := Prod.mk.inj kept
  simp only [flow, held, log, atRoot, nextMid]

theorem heldAt_congr
    (objs : ∀ q, (s'.objs q).map ActorObject.held = (s.objs q).map ActorObject.held)
    (runs : s'.runs = s.runs) : s'.heldAt = s.heldAt := by
  funext q
  have same := objs q
  unfold heldAt
  rw [runs]
  congr 1
  cases new : s'.objs q <;> cases old : s.objs q <;> simp_all

/-- A change of an object that keeps its messages. -/
theorem heldAt_update {f : ActorObject → ActorObject}
    (same : ∀ o, s.objs p = some o → (f o).held = o.held) : (s.update p f).heldAt = s.heldAt := by
  refine heldAt_congr (fun q => ?_) rfl
  rw [objs_update]
  split
  · rename_i here
    subst here
    cases found : s.objs q with
    | none => rfl
    | some o => simp [same o found]
  · rfl

theorem heldAt_update_self {f : ActorObject → ActorObject} {o : ActorObject}
    (found : s.objs p = some o) : (s.update p f).heldAt p = (f o).held ++ works s.runs p := by
  simp [heldAt, found]

theorem heldAt_update_ne {f : ActorObject → ActorObject} {q : Path} (other : q ≠ p) :
    (s.update p f).heldAt q = s.heldAt q := by
  simp [heldAt, objs_update, other]

@[simp] theorem heldAt_activate (s : Shard) (p : Path) : (s.activate p).heldAt = s.heldAt := by
  refine activate_induction (motive := fun t => t.heldAt = s.heldAt) s p rfl ?_
  intro t k q same
  rw [heldAt_update (fun o _ => o.held_setActors _), heldAt_update (fun o _ => o.held_setSched _),
    same]

@[simp] theorem heldAt_emit (e : Event) : (s.emit e).heldAt = s.heldAt := rfl

/-- Other stops of actors are in progress. -/
theorem flow_setStops {stops : List StopFrame} (same : stops.filterMap StopFrame.obeys = s.atRoot) :
    flow extra { s with stops := stops } = flow extra s :=
  flow_congr rfl rfl (congrArg (·, s.nextMid) same)

@[simp] theorem flow_activate : flow extra (s.activate p) = flow extra s :=
  flow_congr (heldAt_activate s p) (log_activate s p) (congrArg Prod.snd control_activate)

theorem flow_update {f : ActorObject → ActorObject}
    (same : ∀ o, s.objs p = some o → (f o).held = o.held) :
    flow extra (s.update p f) = flow extra s := flow_congr (heldAt_update same) rfl rfl

/-! ## Events -/

/-- Events that are about no message. -/
theorem stageOf_silent {events : List Event} (log : s'.log = s.log ++ events)
    (silent : ∀ e ∈ events, e.about = none) : stageOf s'.log = stageOf s.log := by
  funext mid
  rw [log, stageOf, List.foldl_append]
  show events.foldl (Stage.track mid) (stageOf s.log mid) = _
  generalize stageOf s.log mid = stage
  clear log
  induction events with
  | nil => rfl
  | cons e events ih =>
    have none := silent e List.mem_cons_self
    rw [List.foldl_cons, Stage.track, if_neg (by simp [none])]
    exact ih (fun e' member => silent e' (List.mem_cons_of_mem e member))

/-- Events that are about one message. -/
theorem stageOf_record {events : List Event} {mid : Nat} (log : s'.log = s.log ++ events)
    (about : ∀ e ∈ events, e.about = some mid) :
    stageOf s'.log = record (stageOf s.log) mid events := by
  funext j
  rw [log, stageOf, List.foldl_append]
  show events.foldl (Stage.track j) (stageOf s.log j) = _
  unfold record
  generalize stageOf s.log j = stage
  clear log
  induction events generalizing stage with
  | nil => simp
  | cons e events ih =>
    have here := about e List.mem_cons_self
    have rest := ih (fun e' member => about e' (List.mem_cons_of_mem e member))
    by_cases same : j = mid ∧ mid ≠ 0
    · simp only [if_pos same] at rest ⊢
      rw [List.foldl_cons, List.foldl_cons, ← rest, Stage.track, if_pos]
      exact ⟨same.1 ▸ same.2, here.trans (congrArg some same.1.symm)⟩
    · simp only [if_neg same] at rest ⊢
      rw [List.foldl_cons, Stage.track, if_neg, rest]
      rintro ⟨followed, mine⟩
      obtain rfl := Option.some.inj (mine.symm.trans here)
      exact same ⟨rfl, followed⟩

theorem arrived_quiet {events : List Event} (log : s'.log = s.log ++ events)
    (quiet : ∀ e ∈ events, e.arrival = none) :
    s'.log.filterMap Event.arrival = s.log.filterMap Event.arrival := by
  rw [log, List.filterMap_append, List.filterMap_eq_nil_iff.mpr quiet, List.append_nil]

theorem flow_silent {events : List Event} (held : s'.heldAt = s.heldAt)
    (log : s'.log = s.log ++ events) (silent : ∀ e ∈ events, e.about = none)
    (kept : s'.control.2 = s.control.2) : flow extra s' = flow extra s := by
  have quiet : ∀ e ∈ events, e.arrival = none := by
    intro e member
    have none := silent e member
    cases e <;> first | rfl | cases none
  obtain ⟨atRoot, nextMid⟩ := Prod.mk.inj kept
  simp only [flow, held, atRoot, stageOf_silent log silent, arrived_quiet log quiet, nextMid]

/-! ## Moves -/

/-- The flow of `s'` is reached from that of `s` by moves. -/
def Flows (policy : Policy) (extra : Path → List Item) (s s' : Shard) : Prop :=
  Moves policy (flow extra s) (flow extra s')

theorem Flows.of_eq (same : flow extra s' = flow extra s) : Flows policy extra s s' := by
  unfold Flows
  rw [same]
  exact Relation.ReflTransGen.refl

theorem Flows.trans {s'' : Shard} (first : Flows policy extra s s')
    (second : Flows policy extra s' s'') : Flows policy extra s s'' :=
  Relation.ReflTransGen.trans first second

/-- The object at `p` changes what it holds by a rule. -/
theorem flows_rule (p : Path) (rest : List Item) {old new : List Item} {mid : Nat}
    {events : List Event}
    (rule : Rule policy p old new mid events) (before : (s.heldAt p).Perm (old ++ rest))
    (after : (s'.heldAt p).Perm (new ++ rest)) (others : ∀ q, q ≠ p → s'.heldAt q = s.heldAt q)
    (log : s'.log = s.log ++ events) (about : ∀ e ∈ events, e.about = some mid)
    (kept : s'.control.2 = s.control.2) : Flows policy extra s s' := by
  obtain ⟨atRoot, nextMid⟩ := Prod.mk.inj kept
  refine Relation.ReflTransGen.single
    (.rule rule ⟨⟨extra p ++ rest, ?_, ?_⟩, ?_, atRoot, ?_, arrived_quiet log rule.quiet, nextMid⟩)
  · exact (before.append_left (extra p)).trans (List.perm_append_comm_assoc ..)
  · exact (after.append_left (extra p)).trans (List.perm_append_comm_assoc ..)
  · exact fun q other => congrArg (extra q ++ ·) (others q other)
  · exact stageOf_record log about

/-- The object at `p` does something with the message in its hand. -/
theorem moves_hand (p : Path) (rest : List Item) {i : Item} {new : List Item} {mid : Nat}
    {events : List Event}
    (rule : Rule policy p [i] new mid events) (before : (s.heldAt p).Perm rest)
    (after : (s'.heldAt p).Perm (new ++ rest)) (others : ∀ q, q ≠ p → s'.heldAt q = s.heldAt q)
    (log : s'.log = s.log ++ events) (about : ∀ e ∈ events, e.about = some mid)
    (kept : s'.control.2 = s.control.2) :
    Moves policy (flow (hold p [i] extra) s) (flow extra s') := by
  obtain ⟨atRoot, nextMid⟩ := Prod.mk.inj kept
  refine Relation.ReflTransGen.single
    (.rule rule ⟨⟨extra p ++ rest, ?_, ?_⟩, ?_, atRoot, ?_, arrived_quiet log rule.quiet, nextMid⟩)
  · simp only [flow, hold, if_pos]
    exact (before.append_left (extra p)).cons i
  · exact (after.append_left (extra p)).trans (List.perm_append_comm_assoc ..)
  · intro q other
    simp only [flow, hold, if_neg other]
    exact congrArg (extra q ++ ·) (others q other)
  · exact stageOf_record log about

/-! ## Stops -/

/-- A message of the shard to itself. -/
theorem flows_internal {m : ActorMessage} (zero : m.mid = 0) :
    Flows policy extra s (s.enqueUrgentMessage p m) := by
  unfold enqueUrgentMessage
  cases found : s.objs p with
  | none =>
    refine .of_eq ?_
    rw [flow_activate]
    exact flow_update (fun o stored => by rw [found] at stored; cases stored)
  | some o =>
    refine flows_rule p (s.heldAt p) (.internal m zero) (List.Perm.refl _) ?_ ?_ (by simp)
      (by simp) (congrArg Prod.snd (control_activate (s := s.update p _)))
    · rw [heldAt_activate, heldAt_update_self found, ActorObject.held_setMailbox]
      simp [heldAt, found, ActorObject.held]
    · intro q other
      rw [heldAt_activate, heldAt_update_ne other]

theorem flows_stopAllChildren (force : Bool) :
    Flows policy extra s (s.stopAllChildren p force) :=
  stopAllChildren_induction (motive := Flows policy extra s) s p (.of_eq rfl)
    (fun _ _ told => told.trans (flows_internal rfl))

/-- The messages of a mailbox are dropped one after the other. -/
theorem flows_cleanMailbox (drop : ∀ m ∈ (s.mailbox p).getD [], policy.drop p m) :
    Flows policy extra s (s.cleanMailbox p) := by
  unfold cleanMailbox
  cases found : s.objs p with
  | none => exact .of_eq rfl
  | some o =>
    simp only
    have waiting : (s.mailbox p).getD [] = o.mailbox := by simp [mailbox, found]
    rw [waiting] at drop
    clear waiting
    generalize mail : o.mailbox = messages at drop ⊢
    induction messages generalizing s o with
    | nil =>
      refine .of_eq (flow_congr (heldAt_update fun o' found' => ?_) (by simp) rfl)
      obtain rfl := Option.some.inj (found.symm.trans found')
      rw [ActorObject.held_setMailbox, ActorObject.held, mail]
    | cons m messages ih =>
      let s₁ : Shard :=
        { s.update p (·.setMailbox messages) with log := s.log ++ [.reclaimed m] }
      have found₁ : s₁.objs p = some (o.setMailbox messages) := by simp [s₁, found]
      have first : Flows policy extra s s₁ := by
        refine flows_rule p (messages.map (⟨.mail, ·⟩) ++ o.bodyHeld ++ works s.runs p)
          (.drop m (drop m List.mem_cons_self)) ?_ ?_ ?_ rfl ?_ rfl
        · simp [heldAt, found, ActorObject.held, mail]
        · exact List.Perm.of_eq (heldAt_update_self found)
        · exact fun q other => heldAt_update_ne other
        · simp [Event.about]
      have rest := ih _ found₁ rfl (fun m' member => drop m' (List.mem_cons_of_mem m member))
      refine first.trans ?_
      have same : { s₁.update p (·.setMailbox []) with
          log := s₁.log ++ messages.map Event.reclaimed } =
          { s.update p (·.setMailbox []) with
            log := s.log ++ (m :: messages).map Event.reclaimed } := by
        simp [s₁, update, found, ActorObject.setMailbox]
      rw [← same]
      exact rest

theorem flow_setStop (force : Bool) : flow extra (s.update p (·.setStop force)) = flow extra s :=
  flow_update (fun o _ => o.held_setStop force)

theorem flow_activateIdle : flow extra (s.activateIdle p) = flow extra s := by
  unfold activateIdle
  split
  · split
    · exact flow_activate
    · rfl
  · rfl

theorem flow_disable (k : ActorKey) : flow extra (s.disable p k) = flow extra s :=
  flow_silent (heldAt_update (fun o _ => o.held_setEntry k false)) rfl (by simp [Event.about]) rfl

theorem flows_stopGroup (force : Bool)
    (drop : force = true → (s.objs p).any (fun o => !o.stopping) = true →
      ∀ m ∈ (s.mailbox p).getD [], policy.drop p m) :
    Flows policy extra s (s.stopGroup p force) := by
  unfold stopGroup
  split
  · rename_i o found
    split
    · exact .of_eq rfl
    · rename_i running
      have told : Flows policy extra s
          ((s.update p (·.setStop force)).stopAllChildren p force) :=
        .trans (.of_eq (flow_setStop force)) (flows_stopAllChildren force)
      have cleaned : Flows policy extra s
          (if force then ((s.update p (·.setStop force)).stopAllChildren p force).cleanMailbox p
            else (s.update p (·.setStop force)).stopAllChildren p force) := by
        split
        · rename_i isForced
          refine told.trans (flows_cleanMailbox ?_)
          have same : ((s.update p (·.setStop force)).stopAllChildren p force).mailbox p =
              s.mailbox p := by
            rw [mailbox_stopAllChildren, mailbox_update_same]
            exact fun _ => rfl
          rw [same]
          exact drop isForced (by simpa [found] using running)
        · exact told
      simp only
      split
      · exact cleaned.trans (.of_eq flow_activate)
      · exact cleaned
  · exact .of_eq rfl

/-- The stop of a child drops what is in its mailbox when it is forced. -/
theorem flows_stopChildActor (k : ActorKey) (force : Bool)
    (drop : ∀ m ∈ s.cleanedBy p k force, policy.drop (k :: p) m) :
    Flows policy extra s (s.stopChildActor p k force) := by
  unfold cleanedBy at drop
  unfold stopChildActor
  split
  · rename_i o reached child
    split
    · refine .trans (flows_stopGroup force ?_) (.of_eq (flow_disable k))
      intro isForced running
      rwa [if_pos ⟨isForced, reached, running⟩] at drop
    · split
      · exact .of_eq (flow_disable k)
      · rename_i running
        split
        · rename_i isForced
          rw [if_pos ⟨isForced, reached, by simpa [child] using running⟩] at drop
          have stopped : (s.update (k :: p) (·.setStop true)).mailbox = s.mailbox :=
            mailbox_update_same _ _ (fun _ => rfl)
          have cleaned : Flows policy extra s
              ((s.update (k :: p) (·.setStop true)).cleanMailbox (k :: p)) :=
            .trans (.of_eq (flow_setStop true)) (flows_cleanMailbox (by rwa [stopped]))
          refine cleaned.trans (.of_eq ?_)
          exact (flow_congr rfl rfl rfl).trans (flow_update (fun o _ => o.held_cancel))
        · exact .of_eq ((flow_disable k).trans (flow_activateIdle.trans (flow_setStop false)))
  · exact .of_eq rfl

/-- What a stop drops depends only on the tree and on the mailboxes. -/
theorem cleanedBy_congr (tree : s'.tree = s.tree) (mailbox : s'.mailbox = s.mailbox) :
    s'.cleanedBy = s.cleanedBy := by
  have entry (s : Shard) (q : Path) (k : ActorKey) :
      s.entry q k = (s.tree.node q).bind (·.entry k) := by
    simp only [Shard.entry, Shard.tree, Option.bind_map]
    rfl
  have stopping (s : Shard) (q : Path) :
      (s.objs q).any (fun o => !o.stopping) = (s.tree.node q).any (fun n => !n.stopped) := by
    simp only [Shard.tree, Option.any_map]
    rfl
  funext q k force
  simp only [cleanedBy, entry, stopping, tree, mailbox]

/-! ## Continuations -/

/-- An object takes messages in its hand. -/
theorem moves_hold (p : Path) (items : List Item)
    (before : (s.heldAt p).Perm (items ++ s'.heldAt p))
    (others : ∀ q, q ≠ p → s'.heldAt q = s.heldAt q) (log : s'.log = s.log)
    (kept : s'.control.2 = s.control.2) :
    Moves policy (flow extra s) (flow (hold p items extra) s') := by
  obtain ⟨atRoot, nextMid⟩ := Prod.mk.inj kept
  have nothing : Rule policy p [] [] 0 [] := .rest
  refine Relation.ReflTransGen.single (.rule nothing
    ⟨⟨items ++ (extra p ++ s'.heldAt p), ?_, ?_⟩, ?_, atRoot, ?_, ?_, nextMid⟩)
  · exact (before.append_left (extra p)).trans (List.perm_append_comm_assoc ..)
  · simp [flow, hold]
  · intro q other
    simp only [flow, hold, if_neg other]
    exact congrArg (extra q ++ ·) (others q other)
  · exact stageOf_record (log.trans (List.append_nil _).symm) (by simp)
  · exact congrArg (List.filterMap Event.arrival) log

theorem heldAt_addTask {sched : SchedStatus} {stop : ActorStatus} {mail : List ActorMessage}
    {a : ActorBody} (found : s.objs p = some ⟨sched, stop, mail, .actor a⟩) (task : Task)
    (urgent : Bool) : ((s.addTask p task urgent).heldAt p).Perm (task.held ++ s.heldAt p) := by
  unfold addTask
  rw [heldAt_activate, heldAt_update_self found]
  have queued : ((if urgent then task :: a.taskQueue else a.taskQueue ++ [task]).flatMap
      Task.held).Perm (task.held ++ a.taskQueue.flatMap Task.held) := by
    split
    · exact List.Perm.of_eq List.flatMap_cons
    · rw [List.flatMap_append, List.flatMap_singleton]
      exact List.perm_append_comm
  show ((mail.map _ ++ (a.inFlight.map _ ++ _)) ++ works s.runs p).Perm _
  simp only [heldAt, found, Option.elim_some, ActorObject.held, ActorObject.bodyHeld,
    ← List.append_assoc]
  refine List.Perm.append_right _ ?_
  rw [List.append_assoc task.held, List.append_assoc task.held]
  exact (queued.append_left _).trans (List.perm_append_comm_assoc ..)

theorem heldAt_addTask_ne (task : Task) (urgent : Bool) {q : Path} (other : q ≠ p) :
    (s.addTask p task urgent).heldAt q = s.heldAt q := by
  unfold addTask
  rw [heldAt_activate, heldAt_update_ne other]

/-- A continuation runs. -/
theorem moves_runTask {k : ActorKey} {sched : SchedStatus} {stop : ActorStatus}
    {mail : List ActorMessage} {a : ActorBody}
    (found : s.objs (k :: p) = some ⟨sched, stop, mail, .actor a⟩) (task : Task)
    (drop : ∀ msg, task = .post msg .yes → ∀ m ∈ s.cleanedBy p k true, policy.drop (k :: p) m) :
    Moves policy (flow (hold (k :: p) task.held extra) s)
      (flow extra (s.runTask (k :: p) task)) := by
  cases task with
  | user =>
    have same : hold (k :: p) (Task.held .user) extra = extra := by
      funext q
      simp [hold, Task.held]
    rw [same]
    exact Relation.ReflTransGen.refl
  | reply msg failed =>
    refine moves_hand (k :: p) (s.heldAt (k :: p)) (.reply msg failed) (List.Perm.refl _)
      (heldAt_addTask (s := s.emit _) found (.post msg .no) false) (fun q other => ?_)
      (by simp [runTask]) (by simp [Event.about, ActorMessage.reply])
      (congrArg Prod.snd (control_runTask (s := s) (p := k :: p) (.reply msg failed)))
    exact heldAt_addTask_ne (s := s.emit _) _ _ other
  | post msg state =>
    let landed := (s.update (k :: p) (·.mapActor fun a => { a with
      curConcurrency := a.curConcurrency - 1 })).reclaim msg
    have held : landed.heldAt = s.heldAt :=
      heldAt_update (fun o _ => o.held_mapActor (fun _ => ⟨rfl, rfl⟩))
    have reclaimed : Moves policy (flow (hold (k :: p) [⟨.post, msg⟩] extra) s)
        (flow extra landed) := by
      refine moves_hand (k :: p) (s.heldAt (k :: p)) (.post msg) (List.Perm.refl _)
        (List.Perm.of_eq (congrFun held _)) (fun q _ => congrFun held q) rfl
        (by simp [Event.about]) rfl
    unfold runTask
    simp only
    split
    · rename_i yes
      subst yes
      refine reclaimed.trans (flows_stopChildActor k true ?_)
      have same : landed.cleanedBy = s.cleanedBy := by
        refine cleanedBy_congr ((tree_reclaim ..).trans (tree_update _ _ ?_)) ?_
        · exact fun _ _ => ActorObject.node_mapActor ..
        · exact mailbox_update_same _ _ (fun _ => rfl)
      rw [same]
      exact drop msg rfl
    · exact reclaimed

/-! ## Routing -/

/-- A new child holds nothing. -/
theorem flow_createChild {k : ActorKey} (absent : s.objs (k :: p) = none) :
    flow extra (s.createChild p k) = flow extra s := by
  let s₁ : Shard := { s with objs := Function.update s.objs (k :: p) (some (.create s.limitOf k)) }
  have fresh : s₁.heldAt = s.heldAt := by
    funext q
    by_cases here : q = k :: p
    · subst here
      simp [s₁, heldAt, absent, ActorObject.held_create]
    · simp [s₁, heldAt, here]
  refine flow_silent ?_ (log_createChild s p k) (by simp [Event.about])
    (congrArg Prod.snd (control_createChild k))
  unfold createChild schedule
  rw [heldAt_activate, heldAt_update (fun o _ => o.held_setSched _), heldAt_emit,
    heldAt_update (fun o _ => o.held_mapGroup (f := .adopt) fun _ => ⟨rfl, rfl, rfl⟩),
    heldAt_update (fun o _ => o.held_setEntry _ _)]
  exact fresh

/-- A lookup moves no message, and what it finds is there. -/
theorem getActorLocal_flow (valid : s.tree.Valid) (below : p ≠ []) (live : (s.objs p).isSome = true)
    {keys : List ActorKey} {found : Option Path} (lookup : s.getActorLocal p keys = (s', found)) :
    flow extra s' = flow extra s ∧ ∀ q, found = some q → (s'.objs q).isSome = true := by
  induction keys generalizing s p with
  | nil =>
    obtain ⟨rfl, rfl⟩ := Prod.mk.inj lookup
    refine ⟨rfl, fun q here => ?_⟩
    obtain rfl := Option.some.inj here
    exact live
  | cons k keys ih =>
    unfold getActorLocal at lookup
    split at lookup
    · obtain ⟨rfl, rfl⟩ := Prod.mk.inj lookup
      exact ⟨rfl, fun q none => by cases none⟩
    · rename_i o stored
      split at lookup
      · rename_i group
        split at lookup
        · obtain ⟨rfl, rfl⟩ := Prod.mk.inj lookup
          exact ⟨rfl, fun q none => by cases none⟩
        · rename_i reached
          obtain ⟨n, child⟩ := valid.reached (node_tree stored) reached
          obtain ⟨c, child, -⟩ := exists_of_node child
          exact ih valid (List.cons_ne_nil k p) (by rw [child]; rfl) lookup
        · rename_i unknown
          have absent : s.objs (k :: p) = none := by
            refine Option.eq_none_iff_forall_ne_some.mpr (fun c child => ?_)
            exact valid.known (node_tree child) (node_tree stored) unknown
          have grown := grows_createChild stored group unknown (fun root => absurd root below)
          have child : ((s.createChild p k).objs (k :: p)).isSome = true := by
            rw [← isSome_mailbox, mailbox_createChild, if_pos rfl]
            rfl
          obtain ⟨same, isThere⟩ := ih (grown.valid valid) (List.cons_ne_nil k p) child lookup
          exact ⟨same.trans (flow_createChild absent), isThere⟩
      · obtain ⟨rfl, rfl⟩ := Prod.mk.inj lookup
        refine ⟨rfl, fun q here => ?_⟩
        obtain rfl := Option.some.inj here
        exact live

/-- The message with the next number is put in a mailbox. -/
theorem move_enque {m : ActorMessage} (new : m.mid = s.nextMid)
    (same : flow extra s' = flow extra s)
    (live : (s'.objs p).isSome = true) :
    Move policy (flow extra s) (flow extra { s'.enque p m with nextMid := s.nextMid + 1 }) := by
  obtain ⟨o, found⟩ := Option.isSome_iff_exists.mp live
  rw [← same]
  have before : (flow extra s).nextMid = s'.nextMid := congrArg Flow.nextMid same.symm
  have next : s'.nextMid = s.nextMid := before.symm
  have held : ((s'.enque p m).heldAt p).Perm (⟨.mail, m⟩ :: s'.heldAt p) := by
    unfold enque enqueMessage enqueUrgentMessage
    split
    · rw [heldAt_activate, heldAt_update_self (s := s'.emit _) found, ActorObject.held_setMailbox]
      simp only [heldAt, found, Option.elim_some, ActorObject.held, List.map_append, List.map_cons,
        List.map_nil, List.append_assoc]
      exact List.perm_middle
    · rw [heldAt_activate, heldAt_update_self (s := s'.emit _) found, ActorObject.held_setMailbox]
      simp only [heldAt, found, Option.elim_some, ActorObject.held, List.map_cons]
      exact List.Perm.refl _
  refine @Move.accept policy _ _ p m (new.trans next.symm) ?_ ?_ ?_ ?_ ?_ ?_
  · exact (held.append_left (extra p)).trans List.perm_middle
  · intro q other
    show extra q ++ (s'.enque p m).heldAt q = extra q ++ s'.heldAt q
    congr 1
    unfold enque enqueMessage enqueUrgentMessage
    split
    · rw [heldAt_activate, heldAt_update_ne other, heldAt_emit]
    · rw [heldAt_activate, heldAt_update_ne other, heldAt_emit]
  · exact congrArg (·.2.1) (control_enque (s := s') (p := p) m)
  · exact stageOf_record (log_enque m) (by simp [Event.about])
  · show (s'.enque p m).log.filterMap _ = _
    rw [log_enque, List.filterMap_append]
    rfl
  · exact congrArg (· + 1) next.symm

theorem move_stoppedActorEnqueue {m : ActorMessage} (new : m.mid = s.nextMid)
    (same : flow extra s' = flow extra s) (addr : List ActorKey) :
    Move policy (flow extra s)
      (flow extra { s'.stoppedActorEnqueue addr m with nextMid := s.nextMid + 1 }) := by
  rw [← same]
  have next : s'.nextMid = s.nextMid := congrArg Flow.nextMid same
  refine @Move.refuse policy _ _ m addr (new.trans next.symm) ?_ ?_ ?_ ?_
    (congrArg (· + 1) next.symm)
  · funext q
    unfold stoppedActorEnqueue
    split <;> rfl
  · exact congrArg (·.2.1) (control_stoppedActorEnqueue (s := s') addr m)
  · refine stageOf_record (s := s') ?_ ?_
    · unfold stoppedActorEnqueue
      split <;> simp
    · intro e member
      split at member
      · simp at member
        rcases member with rfl | rfl | rfl <;> rfl
      · simp at member
        rcases member with rfl | rfl <;> rfl
  · show (s'.stoppedActorEnqueue addr m).log.filterMap _ = _
    unfold stoppedActorEnqueue
    split <;> simp [flow, Event.arrival]

/-- A stop message to the root is reclaimed when the root is stopping already. Else the root begins
to obey it. -/
theorem move_stopActorSystem {m : ActorMessage} (new : m.mid = s.nextMid) (force : Bool) :
    Move policy (flow extra s)
      (flow extra { s.stopActorSystem force m with nextMid := s.nextMid + 1 }) := by
  unfold stopActorSystem
  split
  · refine @Move.root policy _ _ m [.reclaimed m] new rfl (.inl ⟨.inr rfl, rfl⟩) ?_ ?_ rfl
    · have log : (s.reclaim m).log = s.log ++ [.reclaimed m] := rfl
      exact stageOf_record log (by simp [Event.about])
    · exact arrived_quiet (s := s) rfl (by simp [Event.arrival])
  · refine @Move.root policy _ _ m [] new ?_ (.inr ⟨rfl, rfl⟩) ?_ rfl rfl
    · funext q
      exact congrArg (extra q ++ ·)
        (congrFun (heldAt_update (s := s) (fun o _ => o.held_setStop force)) q)
    · exact stageOf_record (s := s) (List.append_nil _).symm (by simp)

/-- A message that is received. -/
theorem move_receive {addr : List ActorKey} {m : ActorMessage} (valid : s.tree.Valid)
    (new : m.mid = s.nextMid) (received : s.receive addr m = some s') :
    Move policy (flow extra s) (flow extra { s' with nextMid := s.nextMid + 1 }) := by
  have isThere {k : ActorKey} (entry : s.entry [] k = some true) : (s.objs [k]).isSome = true := by
    obtain ⟨o, root, -, reached⟩ := exists_of_entry entry
    obtain ⟨n, child⟩ := valid.reached (node_tree root) reached
    obtain ⟨c, child, -⟩ := exists_of_node child
    rw [child]
    rfl
  cases receives received with
  | reply type =>
    refine @Move.root policy _ _ m [] new rfl (.inl ⟨.inl rfl, rfl⟩) ?_ rfl rfl
    exact stageOf_record (s := s) (List.append_nil _).symm (by simp)
  | stopSystem force asked => exact move_stopActorSystem new force
  | stopped k keys entry => exact move_stoppedActorEnqueue new rfl _
  | found k keys t q entry lookup =>
    obtain ⟨same, found⟩ :=
      getActorLocal_flow valid (List.cons_ne_nil k []) (isThere entry) lookup
    exact move_enque new same (found _ rfl)
  | lost k keys t entry lookup =>
    obtain ⟨same, -⟩ := getActorLocal_flow valid (List.cons_ne_nil k []) (isThere entry) lookup
    exact move_stoppedActorEnqueue new same _
  | closed k keys unknown stopping => exact move_stoppedActorEnqueue new rfl _
  | created k keys t q unknown running lookup =>
    obtain ⟨o, found, group, unknown', running'⟩ := root_of_unknown valid unknown running
    have grown := grows_createChild found group unknown' (fun _ => running')
    have absent : s.objs [k] = none := by
      refine Option.eq_none_iff_forall_ne_some.mpr (fun c child => ?_)
      exact valid.known (node_tree child) (node_tree found) unknown'
    have live : ((s.createChild [] k).objs [k]).isSome = true := by
      rw [← isSome_mailbox, mailbox_createChild, if_pos rfl]
      rfl
    obtain ⟨same, there⟩ :=
      getActorLocal_flow (grown.valid valid) (List.cons_ne_nil k []) live lookup
    exact move_enque new (same.trans (flow_createChild absent)) (there _ rfl)

/-! ## Runs -/

theorem works_cons (frame : RunFrame) (rest : List RunFrame) (q : Path) :
    works (frame :: rest) q = (if frame.path = q then frame.held else []) ++ works rest q := by
  unfold works
  by_cases here : frame.path = q
  · simp [here]
  · simp [here]

theorem heldAt_runs {runs : List RunFrame} (same : ∀ q, works runs q = works s.runs q) :
    { s with runs := runs }.heldAt = s.heldAt := by
  funext q
  simp only [heldAt, same]

/-- A frame that holds no message moves on or returns. -/
theorem heldAt_setPc {frame : RunFrame} {rest : List RunFrame} (runs : s.runs = frame :: rest)
    (nothing : frame.held = []) {pc : Pc} (still : RunFrame.held ⟨frame.path, pc⟩ = []) :
    (s.setPc pc).heldAt = s.heldAt := by
  refine heldAt_runs (fun q => ?_)
  simp [runs, works_cons, nothing, still]

theorem heldAt_leave {frame : RunFrame} {rest : List RunFrame} (runs : s.runs = frame :: rest)
    (nothing : frame.held = []) : s.leave.heldAt = s.heldAt := by
  refine heldAt_runs (fun q => ?_)
  simp [runs, works_cons, nothing]

theorem flow_setPc {frame : RunFrame} {rest : List RunFrame} (runs : s.runs = frame :: rest)
    (nothing : frame.held = []) {pc : Pc} (still : RunFrame.held ⟨frame.path, pc⟩ = []) :
    flow extra (s.setPc pc) = flow extra s := flow_congr (heldAt_setPc runs nothing still) rfl rfl

theorem flow_leave {frame : RunFrame} {rest : List RunFrame} (runs : s.runs = frame :: rest)
    (nothing : frame.held = []) : flow extra s.leave = flow extra s :=
  flow_congr (heldAt_leave runs nothing) rfl rfl

theorem flow_notifyChildStopped : flow extra (s.notifyChildStopped p) = flow extra s := by
  have held := heldAt_update (s := s) (p := p)
    (fun o _ => o.held_mapGroup (f := .drop) fun _ => ⟨rfl, rfl, rfl⟩)
  unfold notifyChildStopped
  simp only
  split
  · exact flow_silent held rfl (by simp [Event.about]) rfl
  · exact flow_congr held rfl rfl

/-- An object that holds no message is destroyed. -/
theorem flow_destroy {o : ActorObject} (found : s.objs p = some o) (nothing : o.held = []) :
    flow extra (s.destroy p) = flow extra s := by
  refine flow_silent (funext fun q => ?_) rfl (by simp [Event.about]) rfl
  by_cases here : q = p
  · simp [destroy, heldAt, here, found, nothing]
  · simp [destroy, heldAt, here]

theorem objs_notifyChildStopped {q : Path} (other : q ≠ p) :
    (s.notifyChildStopped p).objs q = s.objs q := by
  unfold notifyChildStopped
  simp only
  split
  · exact objs_update_ne _ _ _ other
  · exact objs_update_ne _ _ _ other

/-- A group that is destroyed answers its cancellation. -/
theorem flows_acknowledge {sched : SchedStatus} {stop : ActorStatus} {g : GroupBody}
    (found : s.objs p = some ⟨sched, stop, [], .group g⟩) (pending : g.cancelRequestPrId ≠ 0) :
    Flows policy extra s ((s.emit (.sent p
      ⟨g.cancelRequestMid, g.cancelRequestSid, g.cancelRequestPrId, false⟩)).destroy p) := by
  let m : ActorMessage :=
    ⟨g.cancelRequestMid, .peaceStop, g.cancelRequestSid, g.cancelRequestPrId⟩
  let s₁ : Shard := { s.emit (.sent p (m.reply false)) with objs := Function.update s.objs p none }
  have answered : Flows policy extra s s₁ := by
    refine flows_rule p (works s.runs p) (.acknowledge m) ?_ ?_ ?_ rfl
      (by simp [Event.about, ActorMessage.reply]) rfl
    · refine List.Perm.of_eq ?_
      simp [heldAt, found, ActorObject.held, ActorObject.bodyHeld, GroupBody.cancelRequest, pending,
        m]
    · exact List.Perm.of_eq (by simp [s₁, heldAt, emit])
    · exact fun q other => by simp [s₁, heldAt, emit, other]
  exact answered.trans (.of_eq (flow_silent rfl rfl (by simp [Event.about]) rfl))

/-- What `FINAL` does to an object that goes on. -/
theorem flow_sleep (awake : Prop) [Decidable awake] :
    flow extra (if awake then (s.update p (·.setSched .schedulable)).activate p
      else s.update p (·.setSched .schedulable)) = flow extra s := by
  have same : flow extra (s.update p (·.setSched .schedulable)) = flow extra s :=
    flow_update (fun o _ => o.held_setSched _)
  split
  · exact flow_activate.trans same
  · exact same

variable {k : ActorKey}

/-- A group answers its cancellation and ends, or goes on. The frame has returned in `s.leave`. -/
theorem flows_finishGroup (finished : s.finishGroup p k = some s') :
    Flows policy extra s.leave s' := by
  cases finishesGroup finished with
  | ends sched stop mailbox g found ends childless =>
    obtain ⟨-, -, -, rfl⟩ := ends
    have notified : Flows policy extra s.leave (s.leave.notifyChildStopped p) :=
      .of_eq flow_notifyChildStopped
    have found₁ : (s.leave.notifyChildStopped p).objs (k :: p) =
        some ⟨sched, stop, [], .group g⟩ :=
      (objs_notifyChildStopped (List.cons_ne_self k p)).trans found
    refine notified.trans ?_
    split
    · rename_i pending
      exact flows_acknowledge found₁ pending
    · rename_i none
      refine .of_eq (flow_destroy found₁ ?_)
      simp [ActorObject.held, ActorObject.bodyHeld, GroupBody.cancelRequest, not_not.mp none]
  | stays sched stop mailbox g found lives =>
    exact .of_eq (flow_sleep _)

/-- An actor ends, when it has neither messages nor methods, or goes on. -/
theorem flow_finishActor
    (balanced : ∀ {sched stop mailbox a}, s.objs (k :: p) = some ⟨sched, stop, mailbox, .actor a⟩ →
      a.curConcurrency = 0 → a.Balanced) (finished : s.finishActor p k = some s') :
    flow extra s' = flow extra s.leave := by
  cases finishesActor finished with
  | ends sched stop mailbox a found ends =>
    obtain ⟨-, idle, rfl⟩ := ends
    have body : a.Balanced := balanced found idle
    obtain ⟨noMethods, noTasks⟩ := body.tasks_held idle
    have found₁ : (s.leave.notifyChildStopped p).objs (k :: p) =
        some ⟨sched, stop, [], .actor a⟩ :=
      (objs_notifyChildStopped (List.cons_ne_self k p)).trans found
    refine (flow_destroy found₁ ?_).trans flow_notifyChildStopped
    simp [ActorObject.held, ActorObject.bodyHeld, noMethods, noTasks]
  | stays sched stop mailbox a found lives => exact flow_sleep _

theorem flow_enterChild {i : Nat} (entered : s.enterChild p i = some s') :
    flow extra s' = flow extra s := by
  cases entersChild entered with
  | enters sched stop mailbox g k o found listed child =>
    have pushed (t : Shard) (same : t.runs = s.runs) (pc : Pc)
        (nothing : RunFrame.held ⟨k :: p, pc⟩ = []) :
        flow extra { t with runs := ⟨k :: p, pc⟩ :: s.runs } = flow extra t := by
      refine flow_congr (heldAt_runs fun q => ?_) rfl rfl
      simp [works_cons, nothing, same]
    rw [pushed]
    · have taken : flow extra (s.update p (·.setActors (·.eraseIdx i))) = flow extra s :=
        flow_update (fun o _ => o.held_setActors _)
      split
      · exact (flow_update (fun o _ => o.held_cancel)).trans taken
      · exact taken
    · split <;> rfl
    · split <;> rfl

/-! ## The mailbox of a group -/

/-- What objects are, and what they hold outside of their mailboxes. -/
def bodies (s : Shard) (q : Path) : Option (Bool × List Item) :=
  (s.objs q).map fun o => (o.isGroup, o.bodyHeld)

theorem bodies_update {f : ActorObject → ActorObject}
    (same : ∀ o, (f o).isGroup = o.isGroup ∧ (f o).bodyHeld = o.bodyHeld) :
    (s.update p f).bodies = s.bodies := by
  funext q
  unfold bodies
  rw [objs_update]
  split
  · rw [Option.map_map]
    refine congrArg (Option.map · _) (funext fun o => ?_)
    obtain ⟨group, held⟩ := same o
    simp only [Function.comp, group, held]
  · rfl

theorem bodies_activate : (s.activate p).bodies = s.bodies := by
  refine activate_induction (motive := fun t => t.bodies = s.bodies) s p rfl ?_
  intro t k q same
  rw [bodies_update, bodies_update, same]
  · exact fun _ => ⟨rfl, rfl⟩
  · intro o
    cases o with
    | mk sched stop mailbox body => cases body <;> exact ⟨rfl, rfl⟩

theorem bodies_stopAllChildren (force : Bool) : (s.stopAllChildren p force).bodies = s.bodies := by
  refine stopAllChildren_induction (motive := fun t => t.bodies = s.bodies) s p rfl ?_
  intro t k same
  rw [enqueUrgentMessage, bodies_activate, ← same]
  exact bodies_update (fun _ => ⟨rfl, rfl⟩)

theorem bodies_cleanMailbox : (s.cleanMailbox p).bodies = s.bodies := by
  unfold cleanMailbox
  split
  · exact bodies_update (fun _ => ⟨rfl, rfl⟩)
  · rfl

theorem bodies_stopGroup (force : Bool) : (s.stopGroup p force).bodies = s.bodies := by
  have told : ((s.update p (·.setStop force)).stopAllChildren p force).bodies = s.bodies := by
    rw [bodies_stopAllChildren]
    exact bodies_update (fun _ => ⟨rfl, rfl⟩)
  have cleaned : (if force then
      ((s.update p (·.setStop force)).stopAllChildren p force).cleanMailbox p
      else (s.update p (·.setStop force)).stopAllChildren p force).bodies = s.bodies := by
    split
    · rw [bodies_cleanMailbox, told]
    · exact told
  unfold stopGroup
  split
  · split
    · rfl
    · simp only
      split
      · rw [bodies_activate, cleaned]
      · exact cleaned
  · rfl

/-- A group that stops itself goes on remembering its cancel request. -/
theorem bodies_stopChildActor {k : ActorKey} {o : ActorObject} (found : s.objs (k :: p) = some o)
    (group : o.isGroup = true) (force : Bool) :
    (s.stopChildActor p k force).bodies = s.bodies := by
  unfold stopChildActor
  split
  · rename_i o' reached child
    obtain rfl := Option.some.inj (found.symm.trans child)
    rw [if_pos group, disable]
    refine Eq.trans (bodies_update fun o => ?_) (bodies_stopGroup force)
    cases o with
    | mk sched stop mailbox body => cases body <;> exact ⟨rfl, rfl⟩
  · rfl

end Shard

end Hiactor
