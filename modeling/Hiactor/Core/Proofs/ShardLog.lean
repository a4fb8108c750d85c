import Hiactor.Core.Proofs.ShardTree

/-!
# Mailboxes and the log

What the operations of a shard do to the mailboxes and what they record.
-/

namespace Hiactor

open Lib

/-- The message that a call of `stop_actor_system` obeys. -/
def StopFrame.obeys : StopFrame → Option ActorMessage
  | .clean .. => none
  | .stopSystem _ m => some m

namespace Shard

/-! ## Mailboxes -/

/-- The mailbox of an object, if it exists. -/
def mailbox (s : Shard) (p : Path) : Option (List ActorMessage) :=
  (s.objs p).map ActorObject.mailbox

variable (s : Shard) (p : Path)

theorem mailbox_update {f : ActorObject → ActorObject} (q : Path) :
    (s.update p f).mailbox q =
      if q = p then (s.objs q).map (fun o => (f o).mailbox) else s.mailbox q := by
  unfold mailbox
  rw [objs_update]
  split
  · rw [Option.map_map]
    rfl
  · rfl

/-- A change of one object that keeps its mailbox. -/
theorem mailbox_update_same {f : ActorObject → ActorObject}
    (same : ∀ o, (f o).mailbox = o.mailbox) : (s.update p f).mailbox = s.mailbox := by
  funext q
  rw [mailbox_update]
  simp only [same]
  split <;> rfl

theorem mailbox_activate : (s.activate p).mailbox = s.mailbox := by
  refine activate_induction (motive := fun t => t.mailbox = s.mailbox) s p rfl ?_
  intro t k q same
  rw [mailbox_update_same, mailbox_update_same, same]
  · exact fun _ => rfl
  · exact fun _ => rfl

theorem mailbox_createChild (k : ActorKey) (q : Path) :
    (s.createChild p k).mailbox q = if q = k :: p then some [] else s.mailbox q := by
  let s₁ : Shard := { s with objs := Function.update s.objs (k :: p) (some (.create s.limitOf k)) }
  have same : (s.createChild p k).mailbox = s₁.mailbox := by
    unfold createChild schedule
    rw [mailbox_activate, mailbox_update_same]
    · show ((s₁.update p _).update p _).mailbox = _
      rw [mailbox_update_same, mailbox_update_same]
      · exact fun _ => rfl
      · exact fun _ => rfl
    · exact fun _ => rfl
  rw [same]
  show (Function.update s.objs (k :: p) _ q).map _ = _
  rw [Function.update_apply]
  split
  · rw [Option.map_some]
    rfl
  · rfl

theorem log_createChild (k : ActorKey) :
    (s.createChild p k).log = s.log ++ [.created (k :: p)] := by
  simp [createChild, schedule, emit]

variable {s p}

theorem isSome_mailbox : (s.mailbox p).isSome = (s.objs p).isSome := Option.isSome_map

@[simp] theorem mailbox_emit (e : Event) : (s.emit e).mailbox = s.mailbox := rfl

@[simp] theorem mailbox_enqueUrgentMessage (m : ActorMessage) {q : Path} (other : q ≠ p) :
    (s.enqueUrgentMessage p m).mailbox q = s.mailbox q := by
  rw [enqueUrgentMessage, mailbox_activate, mailbox_update, if_neg other]

/-- A group that tells its children to stop keeps its own mailbox. -/
theorem mailbox_stopAllChildren (force : Bool) :
    (s.stopAllChildren p force).mailbox p = s.mailbox p := by
  refine stopAllChildren_induction (motive := fun t => t.mailbox p = s.mailbox p) s p rfl ?_
  intro t k same
  rw [mailbox_enqueUrgentMessage _ (List.cons_ne_self k p).symm, same]

/-! ## The log -/

@[simp] theorem log_emit (e : Event) : (s.emit e).log = s.log ++ [e] := rfl

@[simp] theorem log_reclaim (m : ActorMessage) : (s.reclaim m).log = s.log ++ [.reclaimed m] := rfl

@[simp] theorem log_setPc (pc : Pc) : (s.setPc pc).log = s.log := rfl

@[simp] theorem log_leave : s.leave.log = s.log := rfl

@[simp] theorem log_enqueMessage (m : ActorMessage) : (s.enqueMessage p m).log = s.log := by
  simp [enqueMessage]

@[simp] theorem log_enqueUrgentMessage (m : ActorMessage) :
    (s.enqueUrgentMessage p m).log = s.log := by
  simp [enqueUrgentMessage]

@[simp] theorem log_enque (m : ActorMessage) : (s.enque p m).log = s.log ++ [.enqueued m p] := by
  unfold enque
  split
  · simp
  · simp

@[simp] theorem log_addTask (task : Task) (urgent : Bool) :
    (s.addTask p task urgent).log = s.log := by
  simp [addTask]

@[simp] theorem log_stopAllChildren (force : Bool) : (s.stopAllChildren p force).log = s.log :=
  stopAllChildren_induction (motive := fun t => t.log = s.log) s p rfl
    (fun _ _ same => (log_enqueUrgentMessage _).trans same)

theorem log_cleanMailbox :
    (s.cleanMailbox p).log = s.log ++ ((s.mailbox p).getD []).map Event.reclaimed := by
  unfold cleanMailbox mailbox
  split
  · rename_i o found
    simp [found]
  · rename_i none
    simp [none]

@[simp] theorem log_activateIdle : (s.activateIdle p).log = s.log := by
  unfold activateIdle
  split
  · split
    · simp
    · rfl
  · rfl

@[simp] theorem log_disable (k : ActorKey) :
    (s.disable p k).log = s.log ++ [.disabled (k :: p)] := rfl

/-- A forced stop that is not the first one, and a stop that is not forced, keep the mailbox. -/
theorem log_stopGroup (force : Bool) :
    (s.stopGroup p force).log = s.log ++
      (if force = true ∧ (s.objs p).any (fun o => !o.stopping) = true
        then ((s.mailbox p).getD []).map Event.reclaimed else []) := by
  unfold stopGroup
  cases found : s.objs p with
  | none => simp
  | some o =>
    by_cases stopping : o.stopping = true
    · simp [stopping]
    · have told : ((s.update p (·.setStop force)).stopAllChildren p force).mailbox p =
          s.mailbox p := by
        rw [mailbox_stopAllChildren, mailbox_update_same]
        exact fun _ => rfl
      cases force with
      | false =>
        simp only [if_neg stopping, Bool.false_eq_true, if_false]
        split
        · simp
        · simp
      | true =>
        simp only [if_neg stopping, if_true]
        split
        · simp [log_cleanMailbox, told, stopping]
        · simp [log_cleanMailbox, told, stopping]

/-- The messages that a stop of a child takes out of its mailbox. -/
def cleanedBy (s : Shard) (p : Path) (k : ActorKey) (force : Bool) : List ActorMessage :=
  if force = true ∧ s.entry p k = some true ∧
      (s.objs (k :: p)).any (fun o => !o.stopping) = true then
    (s.mailbox (k :: p)).getD []
  else []

theorem log_stopChildActor (k : ActorKey) (force : Bool) :
    ∃ disabled : List Event, (disabled = [] ∨ disabled = [.disabled (k :: p)]) ∧
      (s.stopChildActor p k force).log =
        s.log ++ (s.cleanedBy p k force).map Event.reclaimed ++ disabled := by
  unfold stopChildActor
  split
  · rename_i o reached child
    by_cases group : o.isGroup = true
    · refine ⟨_, .inr rfl, ?_⟩
      rw [if_pos group, log_disable, log_stopGroup, cleanedBy]
      by_cases running : o.stopping = true
      · simp [child, running]
      · cases force <;> simp [reached, child, running]
    · rw [if_neg group]
      by_cases stopping : o.stopping = true
      · refine ⟨_, .inr rfl, ?_⟩
        simp [stopping, cleanedBy, child]
      · rw [if_neg stopping]
        cases force with
        | true =>
          refine ⟨[], .inl rfl, ?_⟩
          have same : (s.update (k :: p) (·.setStop true)).mailbox = s.mailbox :=
            mailbox_update_same _ _ (fun _ => rfl)
          simp [log_cleanMailbox, same, cleanedBy, reached, child, stopping]
        | false =>
          refine ⟨_, .inr rfl, ?_⟩
          simp [cleanedBy]
  · rename_i unreached
    refine ⟨[], .inl rfl, ?_⟩
    rw [cleanedBy, if_neg]
    · simp
    · rintro ⟨-, reached, live⟩
      cases child : s.objs (k :: p) with
      | none =>
        rw [child] at live
        cases live
      | some o => exact unreached o reached child

/-! ## Frames -/

/-- The messages that the root obeys. -/
def atRoot (s : Shard) : List ActorMessage := s.stops.filterMap StopFrame.obeys

/-- The frames of the objects that run, the messages that the root obeys, and the next message.
Only a step moves them. -/
def control (s : Shard) : List RunFrame × List ActorMessage × Nat := (s.runs, s.atRoot, s.nextMid)

@[simp] theorem control_update (f : ActorObject → ActorObject) :
    (s.update p f).control = s.control := rfl

@[simp] theorem control_emit (e : Event) : (s.emit e).control = s.control := rfl

@[simp] theorem control_reclaim (m : ActorMessage) : (s.reclaim m).control = s.control := rfl

@[simp] theorem control_activate : (s.activate p).control = s.control := by rw [activate_eq]; rfl

@[simp] theorem control_enqueMessage (m : ActorMessage) :
    (s.enqueMessage p m).control = s.control := by
  simp [enqueMessage]

@[simp] theorem control_enqueUrgentMessage (m : ActorMessage) :
    (s.enqueUrgentMessage p m).control = s.control := by
  simp [enqueUrgentMessage]

@[simp] theorem control_enque (m : ActorMessage) : (s.enque p m).control = s.control := by
  unfold enque
  split
  · simp
  · simp

@[simp] theorem control_addTask (task : Task) (urgent : Bool) :
    (s.addTask p task urgent).control = s.control := by
  simp [addTask]

@[simp] theorem control_createChild (k : ActorKey) : (s.createChild p k).control = s.control := by
  simp [createChild, schedule]
  rfl

@[simp] theorem control_getActorLocal (keys : List ActorKey) :
    (s.getActorLocal p keys).1.control = s.control := by
  induction keys generalizing s p with
  | nil => rfl
  | cons k keys ih =>
    unfold getActorLocal
    split
    · rfl
    · split
      · split
        · rfl
        · exact ih
        · exact ih.trans (control_createChild k)
      · rfl

@[simp] theorem control_stoppedActorEnqueue (addr : List ActorKey) (m : ActorMessage) :
    (s.stoppedActorEnqueue addr m).control = s.control := by
  unfold stoppedActorEnqueue
  simp only
  split
  · rfl
  · rfl

/-- A message to the root stays there while `stop_actor_system` runs. -/
theorem control_stopActorSystem (force : Bool) (m : ActorMessage) :
    (s.stopActorSystem force m).control = s.control ∨
      (s.stopActorSystem force m).control = (s.runs, m :: s.atRoot, s.nextMid) := by
  unfold stopActorSystem
  split
  · exact .inl rfl
  · exact .inr rfl

theorem control_receive {addr : List ActorKey} {m : ActorMessage} {s' : Shard}
    (received : s.receive addr m = some s') : s'.runs = s.runs ∧ s'.nextMid = s.nextMid := by
  have same {t : Shard} (kept : t.control = s.control) :
      t.runs = s.runs ∧ t.nextMid = s.nextMid :=
    ⟨congrArg Prod.fst kept, congrArg (·.2.2) kept⟩
  have looked {s : Shard} {p : Path} {keys : List ActorKey} {t : Shard} {found : Option Path}
      (lookup : s.getActorLocal p keys = (t, found)) : t.control = s.control := by
    rw [← control_getActorLocal (s := s) (p := p) keys, lookup]
  cases receives received with
  | reply type => exact ⟨rfl, rfl⟩
  | stopSystem force asked =>
    rcases control_stopActorSystem (s := s) force m with kept | begun
    · exact same kept
    · exact ⟨congrArg Prod.fst begun, congrArg (·.2.2) begun⟩
  | stopped k keys entry => exact same (control_stoppedActorEnqueue ..)
  | found k keys t q entry lookup => exact same (by rw [control_enque, looked lookup])
  | lost k keys t entry lookup =>
    exact same (by rw [control_stoppedActorEnqueue, looked lookup])
  | closed k keys unknown stopping => exact same (control_stoppedActorEnqueue ..)
  | created k keys t q unknown running lookup =>
    exact same (by rw [control_enque, looked lookup, control_createChild])

@[simp] theorem control_stopAllChildren (force : Bool) :
    (s.stopAllChildren p force).control = s.control :=
  stopAllChildren_induction (motive := fun t => t.control = s.control) s p rfl
    (fun _ _ same => (control_enqueUrgentMessage _).trans same)

@[simp] theorem control_cleanMailbox : (s.cleanMailbox p).control = s.control := by
  unfold cleanMailbox
  split
  · rfl
  · rfl

@[simp] theorem control_stopGroup (force : Bool) : (s.stopGroup p force).control = s.control := by
  unfold stopGroup
  split
  · split
    · rfl
    · have cleaned (s : Shard) : (if force then s.cleanMailbox p else s).control = s.control := by
        split
        · exact control_cleanMailbox
        · rfl
      simp only
      split
      · simp [cleaned]
      · simp [cleaned]
  · rfl

@[simp] theorem control_activateIdle : (s.activateIdle p).control = s.control := by
  unfold activateIdle
  split
  · split
    · simp
    · rfl
  · rfl

@[simp] theorem control_disable (k : ActorKey) : (s.disable p k).control = s.control := rfl

@[simp] theorem control_stopChildActor (k : ActorKey) (force : Bool) :
    (s.stopChildActor p k force).control = s.control := by
  unfold stopChildActor
  split
  · split
    · simp
    · split
      · simp
      · split
        · exact (control_cleanMailbox (s := s.update (k :: p) _)).trans rfl
        · simp
  · rfl

@[simp] theorem control_obeyStop (k : ActorKey) (m : ActorMessage) (mailbox : List ActorMessage) :
    (s.obeyStop p k m mailbox).control = s.control := by
  simp [obeyStop]

@[simp] theorem control_stopSelf (force : Bool) : (s.stopSelf p force).control = s.control := by
  cases p with
  | nil => rfl
  | cons k p => exact control_stopChildActor k force

@[simp] theorem control_runTask (task : Task) : (s.runTask p task).control = s.control := by
  cases task with
  | user => rfl
  | reply msg failed => simp [runTask]
  | post msg state =>
    unfold runTask
    simp only
    split
    · simp
    · simp

@[simp] theorem control_notifyChildStopped : (s.notifyChildStopped p).control = s.control := by
  unfold notifyChildStopped
  simp only
  split
  · rfl
  · rfl

theorem control_acknowledge {k : ActorKey} (g : GroupBody) :
    (s.acknowledge p k g).control = s.control := by
  unfold acknowledge
  split
  · exact control_notifyChildStopped
  · exact control_notifyChildStopped

@[simp] theorem control_destroy : (s.destroy p).control = s.control := rfl

theorem control_finishGroup {k : ActorKey} {s' : Shard}
    (finished : s.finishGroup p k = some s') :
    s'.control = s.leave.control := by
  cases finishesGroup finished with
  | ends sched stop mailbox g found ends childless => exact control_acknowledge g
  | stays sched stop mailbox g found lives =>
    split
    · simp
    · simp

theorem control_finishActor {k : ActorKey} {s' : Shard}
    (finished : s.finishActor p k = some s') :
    s'.control = s.leave.control := by
  cases finishesActor finished with
  | ends sched stop mailbox a found ends =>
    simp
  | stays sched stop mailbox a found lives =>
    split
    · simp
    · simp

/-! ## Responses -/

/-- The responses that were sent, with the object that sent each. -/
def sents (s : Shard) : List (Path × Reply) :=
  s.log.filterMap fun
    | .sent p r => some (p, r)
    | _ => none

theorem sents_of_log {s s' : Shard} {new : List Event} (log : s'.log = s.log ++ new)
    (quiet : ∀ e ∈ new, ∀ p r, e ≠ .sent p r) : s'.sents = s.sents := by
  have none : new.filterMap (fun
      | .sent p r => some (p, r)
      | _ => none) = ([] : List (Path × Reply)) := by
    refine List.filterMap_eq_nil_iff.mpr (fun e member => ?_)
    cases e with
    | sent p r => exact absurd rfl (quiet _ member p r)
    | _ => rfl
  rw [sents, log, List.filterMap_append, none, List.append_nil]
  rfl

theorem sents_eq {s s' : Shard} (log : s'.log = s.log) : s'.sents = s.sents := by
  rw [sents, log]
  rfl

theorem sents_stopChildActor (k : ActorKey) (force : Bool) :
    (s.stopChildActor p k force).sents = s.sents := by
  obtain ⟨disabled, which, log⟩ := log_stopChildActor (s := s) (p := p) k force
  rw [List.append_assoc] at log
  refine sents_of_log log ?_
  intro e member q r
  rcases List.mem_append.mp member with cleaned | last
  · obtain ⟨m, -, rfl⟩ := List.mem_map.mp cleaned
    simp
  · rcases which with rfl | rfl
    · cases last
    · rw [List.mem_singleton.mp last]
      simp

end Shard

end Hiactor
