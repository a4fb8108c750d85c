import Hiactor.Core.Proofs.ShardFlow
import Hiactor.Core.Proofs.ShardScopes

/-!
# The flow of a step

What one step of a shard drops from a mailbox, finishes without a response and overwrites, and
the moves of its flow under a policy that allows it.
-/

namespace Hiactor

open Lib

namespace Shard

variable {extra : Path → List Item} {policy : Policy} {s s' : Shard} {k : ActorKey} {p : Path}
  {sched : SchedStatus} {stop : ActorStatus} {mail : List ActorMessage}

/-! ## What a step loses -/

/-- The messages that are dropped when an object handles the first message of its mailbox. -/
def droppedByMail (s : Shard) (p : Path) (k : ActorKey) : List ActorMessage :=
  match s.mailbox (k :: p) with
  | some (m :: _) => (s.cleanedBy p k (m.type == .forceStop)).tail
  | _ => []

/-- The messages that are dropped when an actor runs its first continuation. -/
def droppedByTask (s : Shard) (p : Path) (k : ActorKey) : List ActorMessage :=
  match s.objs (k :: p) with
  | some ⟨_, _, _, .actor a⟩ =>
    match a.taskQueue with
    | .post _ .yes :: _ => s.cleanedBy p k true
    | _ => []
  | _ => []

/-- The messages that a step drops from a mailbox, with the object, which the step stops by
force. -/
def dropped (s : Shard) (label : Label) : List (Path × ActorMessage) :=
  match s.stops, s.runs, label with
  | .stopSystem force _ :: _, _, .stopNext k => (s.cleanedBy [] k force).map (Prod.mk [k])
  | [], ⟨k :: p, .groupMail⟩ :: _, .advance _ _ => (s.droppedByMail p k).map (Prod.mk (k :: p))
  | [], ⟨k :: p, .mail⟩ :: _, .advance _ _ => (s.droppedByMail p k).map (Prod.mk (k :: p))
  | [], ⟨k :: p, .tasks⟩ :: _, .advance _ _ => (s.droppedByTask p k).map (Prod.mk (k :: p))
  | [], ⟨k :: p, .inWork _⟩ :: _, .workDone _ .yes => (s.cleanedBy p k true).map (Prod.mk (k :: p))
  | _, _, _ => []

/-- The message whose method ends without a response. -/
def unanswered (s : Shard) (label : Label) : Option ActorMessage :=
  match label with
  | .workDone none _ =>
    match s.runs with
    | ⟨_, .inWork m⟩ :: _ => some m
    | _ => none
  | .complete p i none _ =>
    match s.objs p with
    | some ⟨_, _, _, .actor a⟩ => a.inFlight[i]?
    | _ => none
  | _ => none

/-- The cancel request of a group that takes the next message. -/
def overwritten (s : Shard) (label : Label) : List ActorMessage :=
  match s.stops, s.runs, label with
  | [], ⟨q, .groupMail⟩ :: _, .advance _ _ =>
    match s.objs q with
    | some ⟨_, _, _ :: _, .group g⟩ => g.cancelRequest
    | _ => []
  | _, _, _ => []

/-- The policy allows what a step loses. -/
structure Allows (policy : Policy) (s : Shard) (label : Label) : Prop where
  drop : ∀ q m, (q, m) ∈ s.dropped label → policy.drop q m
  silent : ∀ m ∈ s.unanswered label, policy.silent m
  overwrite : ∀ m ∈ s.overwritten label, policy.overwrite m

/-! ## Groups -/

/-- A group forgets its cancel request. -/
theorem flows_forgetCancel {g : GroupBody} (found : s.objs p = some ⟨sched, stop, mail, .group g⟩)
    (overwrite : ∀ m ∈ g.cancelRequest, policy.overwrite m) :
    Flows policy extra s
      (s.update p (·.mapGroup fun g => { g with cancelRequestPrId := 0 })) := by
  by_cases none : g.cancelRequestPrId = 0
  · refine .of_eq (flow_update fun o stored => ?_)
    obtain rfl := Option.some.inj (found.symm.trans stored)
    simp [ActorObject.held, ActorObject.bodyHeld, ActorObject.mapGroup, GroupBody.cancelRequest,
      none]
  · let m : ActorMessage :=
      ⟨g.cancelRequestMid, .peaceStop, g.cancelRequestSid, g.cancelRequestPrId⟩
    have remembered : g.cancelRequest = [m] := if_neg none
    have allowed : policy.overwrite m := overwrite m (by simp [remembered])
    refine flows_rule p (mail.map (⟨.mail, ·⟩) ++ works s.runs p) (.overwrite m allowed) ?_ ?_ ?_
      (List.append_nil _).symm (by simp) rfl
    · simp only [heldAt, found, Option.elim_some, ActorObject.held, ActorObject.bodyHeld,
        remembered, List.map_cons, List.map_nil, List.append_assoc]
      exact List.perm_middle
    · rw [heldAt_update_self found]
      simp [ActorObject.held, ActorObject.bodyHeld, ActorObject.mapGroup, GroupBody.cancelRequest]
    · exact fun q other => heldAt_update_ne other

/-- A group that remembers nothing handles the stop message in its hand. -/
theorem moves_remember {g : GroupBody} {m : ActorMessage}
    (found : s.objs p = some ⟨sched, stop, mail, .group g⟩) (none : g.cancelRequestPrId = 0)
    (isStop : m.isStop = true) :
    Moves policy (flow (hold p [⟨.mail, m⟩] extra) s)
      (flow extra ((s.update p (·.mapGroup fun g => { g with
        cancelRequestSid := m.srcShardId, cancelRequestPrId := m.prId,
        cancelRequestMid := m.mid })).reclaim m)) := by
  let f : GroupBody → GroupBody := fun g => { g with
    cancelRequestSid := m.srcShardId, cancelRequestPrId := m.prId, cancelRequestMid := m.mid }
  have before : s.heldAt p = mail.map (⟨.mail, ·⟩) ++ works s.runs p := by
    simp [heldAt, found, ActorObject.held, ActorObject.bodyHeld, GroupBody.cancelRequest, none]
  have after : ((s.update p (·.mapGroup f)).reclaim m).heldAt p =
      mail.map (⟨.mail, ·⟩) ++ (f g).cancelRequest.map (⟨.cancel, ·⟩) ++ works s.runs p :=
    heldAt_update_self found
  have others : ∀ q, q ≠ p →
      ((s.update p (·.mapGroup f)).reclaim m).heldAt q = s.heldAt q :=
    fun q other => heldAt_update_ne other
  by_cases oneWay : m.prId = 0
  · refine moves_hand p _ (.take m isStop fun _ => oneWay) (List.Perm.of_eq before) ?_ others rfl
      (by simp [Event.about]) rfl
    rw [after]
    simp [f, GroupBody.cancelRequest, oneWay]
  · refine moves_hand p _ (.remember m isStop) (List.Perm.of_eq before) ?_ others rfl
      (by simp [Event.about]) rfl
    rw [after]
    simp only [f, GroupBody.cancelRequest, if_neg oneWay, List.map_cons, List.map_nil,
      List.append_assoc, ActorMessage.asCancel]
    exact List.perm_middle

/-- What a stop drops after the first message was taken from the mailbox. -/
theorem cleanedBy_pop {body : Body} {m : ActorMessage} {rest : List ActorMessage}
    (found : s.objs (k :: p) = some ⟨sched, stop, m :: rest, body⟩) :
    ∀ m' ∈ (s.update (k :: p) (·.setMailbox rest)).cleanedBy p k (m.type == .forceStop),
      m' ∈ s.droppedByMail p k := by
  have entry : (s.update (k :: p) (·.setMailbox rest)).entry p k = s.entry p k := by
    unfold Shard.entry
    rw [objs_update_ne _ _ _ (List.cons_ne_self k p).symm]
  intro m' member
  simp only [cleanedBy, entry, mailbox, objs_update_self, found, Option.map_some] at member
  simp only [droppedByMail, cleanedBy, mailbox, found, Option.map_some]
  split at member
  · rename_i forced
    split
    · exact member
    · rename_i notForced
      exact absurd forced notForced
  · cases member

/-- A group obeys a stop message. What the stop drops and the cancel request that is overwritten
are lost. -/
theorem flows_obeyStop {m : ActorMessage} {g : GroupBody}
    (found : s.objs (k :: p) = some ⟨sched, stop, m :: mail, .group g⟩) (isStop : m.isStop = true)
    (drop : ∀ m ∈ s.droppedByMail p k, policy.drop (k :: p) m)
    (overwrite : ∀ m ∈ g.cancelRequest, policy.overwrite m) :
    Flows policy extra s (s.obeyStop p k m mail) := by
  let s₁ := s.update (k :: p) (·.setMailbox mail)
  have found₁ : s₁.objs (k :: p) = some ⟨sched, stop, mail, .group g⟩ := by
    simp [s₁, found, ActorObject.setMailbox]
  have taken : Moves policy (flow extra s) (flow (hold (k :: p) [⟨.mail, m⟩] extra) s₁) := by
    refine moves_hold (k :: p) [⟨.mail, m⟩] ?_ (fun q other => heldAt_update_ne other) rfl rfl
    simp [heldAt, found, ActorObject.held, s₁]
    rfl
  let s₂ := s₁.stopChildActor p k (m.type == .forceStop)
  have stopped : Flows policy (hold (k :: p) [⟨.mail, m⟩] extra) s₁ s₂ :=
    flows_stopChildActor k _ (fun m' member => drop m' (cleanedBy_pop found m' member))
  -- the group is still there, with the request that it remembers
  have kept : s₂.bodies (k :: p) = some (true, g.cancelRequest.map (⟨.cancel, ·⟩)) := by
    rw [bodies_stopChildActor found₁ rfl, bodies, found₁]
    rfl
  obtain ⟨⟨sched₂, stop₂, mail₂, body₂⟩, found₂, kept⟩ := Option.map_eq_some_iff.mp kept
  obtain ⟨group, same⟩ := Prod.mk.inj kept
  cases body₂ with
  | actor a => cases group
  | group g₂ =>
    have same : g₂.cancelRequest = g.cancelRequest :=
      (List.map_injective_iff.mpr fun _ _ => congrArg Item.msg) same
    have forgotten : Flows policy (hold (k :: p) [⟨.mail, m⟩] extra) s₂
        (s₂.update (k :: p) (·.mapGroup fun g => { g with cancelRequestPrId := 0 })) :=
      flows_forgetCancel found₂ (same ▸ overwrite)
    have found₃ : (s₂.update (k :: p) (·.mapGroup fun g => { g with
        cancelRequestPrId := 0 })).objs (k :: p) =
        some ⟨sched₂, stop₂, mail₂, .group { g₂ with cancelRequestPrId := 0 }⟩ := by
      rw [objs_update_self, found₂]
      rfl
    refine ((taken.trans stopped).trans forgotten).trans ?_
    have last : Moves policy _ (flow extra _) := moves_remember found₃ rfl isStop
    have collapse (f g : GroupBody → GroupBody) (same : ∀ b, g (f b) = g b) :
        (s₂.update (k :: p) (·.mapGroup f)).update (k :: p) (·.mapGroup g) =
          s₂.update (k :: p) (·.mapGroup g) := by
      simp [update, found₂, ActorObject.mapGroup, same]
    rw [collapse] at last
    · exact last
    · exact fun _ => rfl

/-- One round of the mailbox loop of a group. -/
theorem flows_groupMail {rest : List RunFrame} {needYield : Bool}
    (runs : s.runs = ⟨k :: p, .groupMail⟩ :: rest)
    (drop : ∀ m ∈ s.droppedByMail p k, policy.drop (k :: p) m)
    (overwrite : ∀ sched stop m mail g, s.objs (k :: p) = some ⟨sched, stop, m :: mail, .group g⟩ →
      ∀ m ∈ g.cancelRequest, policy.overwrite m)
    (handled : s.groupMail p k needYield = some s') : Flows policy extra s s' := by
  cases handlesGroupMail handled with
  | none sched stop g found => exact .of_eq (flow_setPc runs rfl rfl)
  | yields sched stop m mailbox g found isStop finished =>
    refine (flows_obeyStop found isStop drop (overwrite _ _ _ _ _ found)).trans ?_
    have same : (s.obeyStop p k m mailbox).runs = s.runs :=
      congrArg Prod.fst (control_obeyStop k m mailbox)
    exact .trans (.of_eq (flow_leave (same.trans runs) rfl)) (flows_finishGroup finished)
  | goesOn sched stop m mailbox g found isStop =>
    exact flows_obeyStop found isStop drop (overwrite _ _ _ _ _ found)

theorem flows_groupTasks {rest : List RunFrame} {i : Nat}
    (runs : s.runs = ⟨k :: p, .groupTasks⟩ :: rest) (ran : s.groupTasks p k i = some s') :
    Flows policy extra s s' := by
  cases runsGroupTasks ran with
  | none sched stop mailbox g found none finished =>
    exact .trans (.of_eq (flow_leave runs rfl)) (flows_finishGroup finished)
  | enters sched stop mailbox g found waiting entered =>
    exact .of_eq ((flow_enterChild entered).trans (flow_setPc runs rfl rfl))

/-! ## Actors -/

/-- What objects hold when the first frame has moved on. -/
theorem heldAt_frame {frame : RunFrame} {rest : List RunFrame} (runs : s.runs = frame :: rest)
    (pc : Pc) (q : Path) : (s.setPc pc).heldAt q = (s.objs q).elim [] ActorObject.held ++
      ((if frame.path = q then RunFrame.held ⟨frame.path, pc⟩ else []) ++ works rest q) := by
  simp [heldAt, setPc, runs, works_cons]

/-- An actor takes its first continuation. -/
theorem moves_takeTask {a : ActorBody} {task : Task} {tasks : List Task}
    (found : s.objs p = some ⟨sched, stop, mail, .actor a⟩) (queue : a.taskQueue = task :: tasks) :
    Moves policy (flow extra s)
      (flow (hold p task.held extra) (s.update p (·.setTasks fun _ => tasks))) := by
  refine moves_hold p task.held ?_ (fun q other => heldAt_update_ne other) rfl rfl
  rw [heldAt_update_self found]
  simp only [heldAt, found, Option.elim_some, ActorObject.held, ActorObject.bodyHeld,
    ActorObject.setTasks, ActorObject.mapActor, queue, List.flatMap_cons, ← List.append_assoc]
  refine (List.Perm.append_right _ ?_).append_right _
  rw [List.append_assoc task.held]
  exact List.perm_append_comm

theorem flows_actorTasks {rest : List RunFrame} (runs : s.runs = ⟨k :: p, .tasks⟩ :: rest)
    (drop : ∀ m ∈ s.droppedByTask p k, policy.drop (k :: p) m) (ran : s.actorTasks p k = some s') :
    Flows policy extra s s' := by
  cases runsActorTasks ran with
  | next sched stop mail a found task tasks queue =>
    let s₁ := (s.update (k :: p) (·.setTasks fun _ => tasks)).setPc .inTask
    have taken : Moves policy (flow extra s) (flow (hold (k :: p) task.held extra) s₁) := by
      have same : flow (hold (k :: p) task.held extra) s₁ =
          flow (hold (k :: p) task.held extra) (s.update (k :: p) (·.setTasks fun _ => tasks)) :=
        flow_setPc (s := s.update (k :: p) _) runs rfl rfl
      rw [same]
      exact moves_takeTask found queue
    have found₁ : s₁.objs (k :: p) =
        some ⟨sched, stop, mail, .actor { a with taskQueue := tasks }⟩ := by
      simp only [s₁, setPc, objs_update_self, found]
      rfl
    refine taken.trans (moves_runTask found₁ task ?_)
    intro msg last m member
    have same : s₁.cleanedBy = s.cleanedBy := by
      refine cleanedBy_congr (tree_update _ _ ?_) (mailbox_update_same _ _ fun _ => rfl)
      exact fun _ _ => ActorObject.node_setTasks ..
    refine drop m ?_
    simp only [droppedByTask, found, queue, last]
    rwa [same] at member
  | full sched stop mail a found none full =>
    refine .of_eq (Eq.trans (flow_leave (s := s.update (k :: p) _) runs rfl) ?_)
    exact flow_update (fun o _ => o.held_setSched _)
  | opens sched stop mail a found none free => exact .of_eq (flow_setPc runs rfl rfl)

/-- One round of the mailbox loop of an actor. -/
theorem flows_actorMail {rest : List RunFrame} (counted : AllCounted s)
    (runs : s.runs = ⟨k :: p, .mail⟩ :: rest)
    (drop : ∀ m ∈ s.droppedByMail p k, policy.drop (k :: p) m)
    (handled : s.actorMail p k = some s') : Flows policy extra s s' := by
  cases handlesActorMail handled with
  | none sched stop a found finished =>
    have ended : flow extra s' = flow extra s.leave :=
      flow_finishActor (fun found _ => counted.balanced found) finished
    exact .of_eq (ended.trans (flow_leave runs rfl))
  | starts sched stop m mailbox a found user =>
    let s₁ := s.update (k :: p) (·.setMailbox mailbox)
    refine flows_rule (k :: p) (mailbox.map (⟨.mail, ·⟩) ++
      ActorObject.bodyHeld ⟨sched, stop, mailbox, .actor a⟩ ++ works rest (k :: p))
      (.start m user) ?_ ?_ ?_ rfl (by simp [Event.about]) rfl
    · simp [heldAt, found, ActorObject.held, ActorObject.bodyHeld, runs, works_cons,
        RunFrame.held]
    · rw [heldAt_emit, heldAt_frame (s := s₁) runs]
      simp only [s₁, objs_update_self, found, Option.map_some, Option.elim_some, if_true]
      exact List.perm_append_comm_assoc ..
    · intro q other
      rw [heldAt_emit, heldAt_frame (s := s₁) runs]
      simp [s₁, objs_update, heldAt, runs, works_cons, other, other.symm]
  | stops sched stop m mailbox a found force asked =>
    let s₁ := s.update (k :: p) (·.setMailbox mailbox)
    have isStop : m.isStop = true := by
      rw [ActorMessage.isStop, asked]
      cases force <;> rfl
    have forced : (m.type == .forceStop) = force := by
      rw [asked]
      cases force <;> rfl
    have taken : Moves policy (flow extra s)
        (flow (hold (k :: p) [⟨.mail, m⟩] extra) (s₁.setPc .worked)) := by
      have same : (s₁.setPc .worked).heldAt = s₁.heldAt := heldAt_setPc (s := s₁) runs rfl rfl
      refine moves_hold (k :: p) [⟨.mail, m⟩] ?_ (fun q other => ?_) rfl rfl
      · rw [same]
        simp [heldAt, found, ActorObject.held, s₁]
        rfl
      · rw [same]
        exact heldAt_update_ne other
    refine taken.trans (.trans (flows_stopChildActor (p := p) k force ?_) ?_)
    · have same : (s₁.setPc .worked).cleanedBy = s₁.cleanedBy := cleanedBy_congr rfl rfl
      rw [same, ← forced]
      exact fun m' member => drop m' (cleanedBy_pop found m' member)
    · refine moves_hand (k :: p) _ (.take m isStop fun group => ?_) (List.Perm.refl _)
        (List.Perm.refl _) (fun _ _ => rfl) rfl (by simp [Event.about]) rfl
      have actor := isGroup_of_actor counted.1 found
      exact absurd group (by simp [groupPath, actor])

theorem flows_workDone {rest : List RunFrame} {m : ActorMessage} {reply : Option Bool}
    {state : WorkState} (runs : s.runs = ⟨k :: p, .inWork m⟩ :: rest)
    (drop : state = .yes → ∀ m' ∈ s.cleanedBy p k true, policy.drop (k :: p) m')
    (silent : reply = none → policy.silent m) (done : s.workDone p k m reply state = some s') :
    Flows policy extra s s' := by
  -- the frame gives up the message, with the response before
  have ends (events : List Event) (log : List Event) (about : ∀ e ∈ events, e.about = some m.mid)
      (rule : Rule policy (k :: p) [⟨.work, m⟩] [] m.mid events) (same : log = s.log ++ events) :
      Flows policy extra s { s.setPc .worked with log := log } := by
    have held (q : Path) : ({ s.setPc .worked with log := log } : Shard).heldAt q =
        (s.objs q).elim [] ActorObject.held ++ works rest q := by
      refine (heldAt_frame runs .worked q).trans ?_
      simp [RunFrame.held]
    refine flows_rule (k :: p) ((s.objs (k :: p)).elim [] ActorObject.held ++ works rest (k :: p))
      rule ?_ (List.Perm.of_eq (held _)) (fun q other => ?_) same about rfl
    · rw [heldAt, runs, works_cons, if_pos rfl]
      exact List.perm_append_comm_assoc ..
    · rw [held, heldAt, runs, works_cons, if_neg other.symm, List.nil_append]
  have ended : Flows policy extra s (s.worked (k :: p) m reply) := by
    cases reply with
    | some failed =>
      exact ends _ _ (by simp [Event.about, ActorMessage.reply]) (.finish m failed)
        (List.append_assoc ..)
    | none => exact ends _ _ (by simp [Event.about]) (.finishSilent m (silent rfl)) rfl
  rw [workDone_eq done]
  split
  · rename_i yes
    refine ended.trans (flows_stopChildActor k true ?_)
    have same : (s.worked (k :: p) m reply).cleanedBy = s.cleanedBy := by
      refine cleanedBy_congr (tree_worked ..) ?_
      cases reply with
      | some failed => rfl
      | none => rfl
    rw [same]
    exact drop yes
  · exact ended

theorem flows_workPending {rest : List RunFrame} {m : ActorMessage}
    (runs : s.runs = ⟨k :: p, .inWork m⟩ :: rest) (pending : s.workPending p k m = some s') :
    Flows policy extra s s' := by
  let s₁ := s.update (k :: p) (·.mapActor fun a => { a with
    curConcurrency := a.curConcurrency + 1, inFlight := a.inFlight ++ [m] })
  obtain ⟨sched, stop, mail, a, found, ends⟩ := workPending_cases pending
  -- the message goes from the frame to the object
  have suspended {runs' : List RunFrame} (same : ∀ q, works runs' q = works rest q) :
      Flows policy extra s { s₁ with runs := runs' } := by
    refine flows_rule (k :: p) ((s.objs (k :: p)).elim [] ActorObject.held ++ works rest (k :: p))
      (.suspend m) ?_ ?_ (fun q other => ?_) (List.append_nil _).symm (by simp) rfl
    · rw [heldAt, runs, works_cons, if_pos rfl]
      exact List.perm_append_comm_assoc ..
    · simp only [heldAt, s₁, objs_update_self, found, Option.map_some, Option.elim_some, same,
        ActorObject.held, ActorObject.bodyHeld, ActorObject.mapActor, List.map_append,
        List.map_cons, List.map_nil, ← List.append_assoc]
      refine (List.Perm.append_right _ ?_).append_right _
      exact List.perm_append_singleton _ _
    · simp [heldAt, s₁, objs_update_ne _ _ _ other, same, runs, works_cons, other.symm]
  rcases ends with ⟨full, pending⟩ | ⟨free, rfl⟩
  · refine Flows.trans (@suspended rest fun _ => rfl) ?_
    have left : s₁.leave = { s₁ with runs := rest } := by
      simp [leave, s₁, runs]
    rw [← left]
    -- a method is in flight
    refine .of_eq (flow_finishActor (fun found₁ idle => ?_) pending)
    rw [objs_update_self, found] at found₁
    obtain ⟨-, -, -, same⟩ := ActorObject.mk.inj (Option.some.inj found₁)
    obtain rfl := Body.actor.inj same
    cases idle
  · have moved : s₁.setPc .worked = { s₁ with runs := ⟨k :: p, .worked⟩ :: rest } := by
      simp [setPc, s₁, runs]
    show Flows policy extra s (s₁.setPc .worked)
    rw [moved]
    refine suspended fun q => ?_
    simp [works_cons, RunFrame.held]

/-- A stop in progress drops nothing more. -/
theorem flows_cleanNext {running : Bool} {rest : List StopFrame} (valid : s.tree.Valid)
    (top : s.stops = .clean (k :: p) running :: rest) (cleaned : s.cleanNext p k rest = some s') :
    Flows policy extra s s' := by
  cases cleansNext cleaned with
  | next sched stop mail a found task tasks queue =>
    let s₁ : Shard := { s.update (k :: p) (·.setTasks fun _ => tasks) with
      stops := .clean (k :: p) true :: rest }
    have found₁ : s₁.objs (k :: p) =
        some ⟨sched, stop, mail, .actor { a with taskQueue := tasks }⟩ := by
      simp only [s₁, objs_update_self, found]
      rfl
    have taken : Moves policy (flow extra s) (flow (hold (k :: p) task.held extra) s₁) := by
      have same : (s.update (k :: p) (·.setTasks fun _ => tasks)).atRoot =
          (StopFrame.clean (k :: p) true :: rest).filterMap StopFrame.obeys := by
        rw [atRoot, stops_update, top]
        rfl
      have kept : Moves policy (flow extra s) (flow (hold (k :: p) task.held extra)
          (s.update (k :: p) (·.setTasks fun _ => tasks))) := moves_takeTask found queue
      rwa [← flow_setStops same.symm] at kept
    refine taken.trans (moves_runTask found₁ task ?_)
    intro msg last m member
    obtain ⟨n, node, stopped⟩ := valid.ending_stopped (p := k :: p)
      (by simp [tree, top, cleanPaths])
    obtain rfl := Option.some.inj ((node_tree found).symm.trans node)
    have stopping : (⟨sched, stop, mail, .actor { a with taskQueue := tasks }⟩ :
        ActorObject).stopping = true := stopped
    rw [cleanedBy, if_neg (by simp [found₁, stopping])] at member
    cases member
  | ends sched stop mail a found none =>
    exact .of_eq ((flow_disable k).trans (flow_activateIdle.trans
      (flow_setStops (by rw [atRoot, top]; rfl))))

/-- The root reclaims the message that it has obeyed. -/
theorem flows_stopSystemEnd {force : Bool} {m : ActorMessage} {rest : List StopFrame}
    (top : s.stops = .stopSystem force m :: rest) (ended : s.stopSystemEnd m rest = some s') :
    Flows policy extra s s' := by
  have reclaimed (t : Shard) (objs : t.objs = s.objs) (runs : t.runs = s.runs)
      (stops : t.stops = rest) (nextMid : t.nextMid = s.nextMid) {events : List Event}
      (log : t.log = s.log ++ events) (silent : ∀ e ∈ events, e.about = none) :
      Flows policy extra s (t.reclaim m) := by
    refine Relation.ReflTransGen.single (@Move.obeyed policy _ _ m ?_ ?_ ?_ ?_ nextMid)
    · show s.stops.filterMap _ = m :: t.stops.filterMap _
      rw [top, stops]
      rfl
    · funext q
      have held : (t.reclaim m).heldAt = s.heldAt :=
        heldAt_congr (fun q => by rw [← objs]; rfl) runs
      exact congrArg (extra q ++ ·) (congrFun held q)
    · show stageOf (t.reclaim m).log = record (stageOf s.log) m.mid _
      rw [← stageOf_silent log silent]
      have log' : (t.reclaim m).log = t.log ++ [.reclaimed m] := rfl
      exact stageOf_record log' (by simp [Event.about])
    · refine Eq.trans ?_ (arrived_quiet log fun e member => ?_)
      · exact arrived_quiet (s := t) rfl (by simp [Event.arrival])
      · have none := silent e member
        cases e <;> first | rfl | cases none
  cases endsSystem ended with
  | ends sched stop mailbox g root closed =>
    split
    · exact reclaimed _ rfl rfl rfl rfl rfl (by simp [Event.about])
    · exact reclaimed { s with stops := rest } rfl rfl rfl rfl (List.append_nil _).symm (by simp)

theorem flows_complete {i : Nat} {reply : Option Bool} {state : WorkState}
    (silent : reply = none → ∀ m ∈ s.unanswered (.complete p i none state), policy.silent m)
    (completed : s.complete p i reply state = some s') : Flows policy extra s s' := by
  cases completes completed with
  | lands sched stop mail a found m flying =>
    let s₁ := s.update p (·.mapActor fun a => { a with inFlight := a.inFlight.eraseIdx i })
    have found₁ : s₁.objs p =
        some ⟨sched, stop, mail, .actor { a with inFlight := a.inFlight.eraseIdx i }⟩ := by
      simp only [s₁, objs_update_self, found]
      rfl
    have landed : (s.heldAt p).Perm (⟨.flight, m⟩ :: s₁.heldAt p) := by
      obtain ⟨bound, rfl⟩ := List.getElem?_eq_some_iff.mp flying
      have taken := (List.getElem_cons_eraseIdx_perm bound).symm.map (Item.mk .flight)
      simp only [heldAt, s₁, objs_update_self, found, Option.map_some, Option.elim_some,
        ActorObject.held, ActorObject.bodyHeld, ActorObject.mapActor, ← List.cons_append]
      refine List.Perm.append_right _ ?_
      refine ((taken.append_right _).append_left _).trans ?_
      exact List.perm_middle
    have ends (task : Task) (new : Item) (only : task.held = [new])
        (rule : Rule policy p [⟨.flight, m⟩] [new] m.mid []) :
        Flows policy extra s (s₁.addTask p task false) := by
      refine flows_rule p (s₁.heldAt p) rule landed ?_ (fun q other => ?_) ?_ (by simp) ?_
      · rw [← only]
        exact heldAt_addTask found₁ task false
      · rw [heldAt_addTask_ne task false other]
        exact heldAt_update_ne other
      · simp [s₁]
      · exact congrArg Prod.snd (control_addTask (s := s₁) (p := p) task false)
    cases reply with
    | some failed => exact ends (.reply m failed) _ rfl (.complete m)
    | none =>
      refine ends (.post m state) _ rfl (.completeSilent m (silent rfl m ?_))
      simp [unanswered, found, flying]

/-! ## Steps -/

theorem flows_userStep {label : Label} (valid : s.tree.Valid) (allows : Allows policy s label)
    (taken : s.userStep label = some s') : Flows policy extra s s' := by
  cases label with
  | receive addr type srcShardId prId =>
    obtain ⟨s₁, received, rfl⟩ := Option.map_eq_some_iff.mp taken
    exact Relation.ReflTransGen.single (move_receive valid rfl received)
  | addTask q urgent =>
    obtain ⟨-, rfl⟩ := addTask_cases taken
    refine .of_eq (flow_activate.trans (flow_update fun o _ => ?_))
    cases o with
    | mk sched stop mailbox body =>
      cases body with
      | group g => rfl
      | actor a =>
        cases urgent <;>
          simp [ActorObject.held, ActorObject.bodyHeld, ActorObject.setTasks,
            ActorObject.mapActor, Task.held]
  | complete q i reply state =>
    refine flows_complete (fun none m member => ?_) taken
    subst none
    exact allows.silent m member
  | setMaxConcurrency q concurrency =>
    obtain rfl := Option.some.inj taken
    exact .of_eq (flow_update fun o _ => o.held_mapActor fun _ => ⟨rfl, rfl⟩)
  | dispatch | advance | workDone | workPending | stopNext => cases taken

theorem Allows.dropped {label : Label} (allows : Allows policy s label) {q : Path}
    {messages : List ActorMessage} (same : s.dropped label = messages.map (Prod.mk q)) :
    ∀ m ∈ messages, policy.drop q m :=
  fun m member => allows.drop q m (same ▸ List.mem_map_of_mem member)

theorem flows_runStep {frame : RunFrame} {rest : List RunFrame} {label : Label}
    (counted : AllCounted s) (idle : s.stops = []) (runs : s.runs = frame :: rest)
    (allows : Allows policy s label) (taken : s.runStep frame label = some s') :
    Flows policy extra s s' := by
  have overwritten := allows.overwrite
  cases takesRunStep taken with
  | groupMail p k needYield i handled =>
    have dropped := allows.dropped (by simp only [Shard.dropped, idle, runs]; rfl)
    refine flows_groupMail runs dropped (fun sched stop m mail g found => ?_) handled
    simpa only [Shard.overwritten, idle, runs, found] using overwritten
  | groupTasks p k needYield i ran => exact flows_groupTasks runs ran
  | groupYields p k i finished =>
    exact .trans (.of_eq (flow_leave runs rfl)) (flows_finishGroup finished)
  | actorTasks p k needYield i ran =>
    exact flows_actorTasks runs (allows.dropped (by simp only [Shard.dropped, idle, runs])) ran
  | actorMail p k needYield i handled =>
    have dropped := allows.dropped (by simp only [Shard.dropped, idle, runs]; rfl)
    exact flows_actorMail counted runs dropped handled
  | workDone p k m reply state done =>
    refine flows_workDone runs (fun yes => ?_) (fun none => ?_) done
    · subst yes
      exact allows.dropped (by simp only [Shard.dropped, idle, runs])
    · subst none
      exact allows.silent m (by simp [unanswered, runs])
  | workPending p k m pending => exact flows_workPending runs pending
  | taskYields p k i finished | workYields p k i finished =>
    have ended : flow extra s' = flow extra s.leave :=
      flow_finishActor (fun found _ => counted.balanced found) finished
    exact .of_eq (ended.trans (flow_leave runs rfl))
  | groupGoesOn | taskGoesOn | workGoesOn => exact .of_eq (flow_setPc runs rfl rfl)

theorem flows_stopStep {frame : StopFrame} {rest : List StopFrame} {label : Label}
    (valid : s.tree.Valid) (top : s.stops = frame :: rest) (allows : Allows policy s label)
    (taken : s.stopStep frame rest label = some s') : Flows policy extra s s' := by
  cases takesStopStep taken with
  | cleanNext p k running needYield i cleaned => exact flows_cleanNext valid top cleaned
  | stopNext force m k entry =>
    exact flows_stopChildActor _ _ (allows.dropped (by simp only [Shard.dropped, top]))
  | stopSystemEnd force needYield m i ended => exact flows_stopSystemEnd top ended

/-- Every step of a shard is a sequence of moves of its flow. -/
theorem flows_step {label : Label} (counted : AllCounted s) (allows : Allows policy s label)
    (taken : s.step label = some s') : Flows policy extra s s' := by
  have valid := counted.1
  cases takesStep taken with
  | user isUser point acted => exact flows_userStep valid allows acted
  | stop frame rest isUser top went => exact flows_stopStep valid top allows went
  | run frame rest isUser idle runs went => exact flows_runStep counted idle runs allows went
  | dispatch i idle runs entered => exact .of_eq (flow_enterChild entered)

end Shard

end Hiactor
