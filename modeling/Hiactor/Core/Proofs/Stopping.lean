import Hiactor.Core.Proofs.ShardMoves
import Hiactor.Core.Proofs.ShardRouting

/-!
# The end of an actor

An actor that was stopped by force gets no message any more, unless one is received for it while
the stop still runs its continuations. An actor is destroyed when its mailbox is empty and no
method is in flight; the continuations in its task queue are then those that no method waits for.
-/

namespace Hiactor

open Lib

/-- A forced stop leaves no message for `do_work`. -/
def Core.Silenced (c : Core) : Prop := c.status = .forceStopping → c.users = []

theorem Core.Silenced.turn {isOpen : Prop} {c c' : Core} (silenced : c.Silenced)
    (closed : ¬ isOpen) (turn : Turn isOpen c c') : c'.Silenced := by
  cases turn with
  | deliver m late => exact fun forced => absurd (late forced) closed
  | peaceStop running => exact fun forced => nomatch forced
  | forceStop running => exact fun _ => rfl
  | work stored works => exact silenced

/-- A continuation that a method in flight waits for. -/
def Task.waits : Task → Bool
  | .user => false
  | .reply _ _ | .post _ _ => true

/-- Every method in flight is one that do_work waits for, or its continuation is in the queue. -/
def ActorBody.Balanced (a : ActorBody) : Prop :=
  a.curConcurrency = a.inFlight.length + a.taskQueue.countP Task.waits

theorem ActorBody.Balanced.work {a a' : ActorBody} (balanced : a.Balanced) (works : Work a a') :
    a'.Balanced := by
  have waits_cancel (task : Task) : task.cancel.waits = task.waits := by cases task <;> rfl
  unfold ActorBody.Balanced at *
  cases works with
  | schedule urgent => cases urgent <;> simpa [Task.waits] using balanced
  | cancel =>
    have same : Task.waits ∘ Task.cancel = Task.waits := funext waits_cancel
    simpa [List.countP_map, same] using balanced
  | user rest front => simpa [front, Task.waits] using balanced
  | reply msg failed rest front =>
    rw [front, List.countP_cons_of_pos rfl] at balanced
    rw [List.countP_append, List.countP_cons_of_pos rfl, List.countP_nil]
    exact balanced
  | post msg state rest front =>
    rw [front, List.countP_cons_of_pos rfl] at balanced
    show a.curConcurrency - 1 = a.inFlight.length + rest.countP Task.waits
    omega
  | suspend msg =>
    simp only [List.length_append, List.length_singleton]
    omega
  | complete i msg task flying waits =>
    have short : i < a.inFlight.length := (List.getElem?_eq_some_iff.mp flying).1
    have one : task.waits = true := by
      cases task with
      | user => exact absurd rfl waits
      | _ => rfl
    simp only [List.length_eraseIdx_of_lt short, List.countP_append, List.countP_singleton, one,
      if_true]
    omega
  | limit concurrency => exact balanced

/-- The methods in flight of an actor are counted. -/
def Core.Counted (c : Core) : Prop := ∀ a, c.work = some a → a.Balanced

theorem Core.Counted.turn {isOpen : Prop} {c c' : Core} (counted : c.Counted)
    (turn : Turn isOpen c c') : c'.Counted := by
  cases turn with
  | deliver m late => exact counted
  | peaceStop running => exact counted
  | forceStop running => exact counted
  | work stored works =>
    intro a' same
    obtain rfl := Option.some.inj same
    exact (counted _ stored).work works

theorem Core.counted_create (limitOf : ActorKey → Nat) (k : ActorKey) :
    (ActorObject.create limitOf k).core.Counted := by
  intro a stored
  unfold ActorObject.create at stored
  cases group : k.isGroup with
  | true => simp [group, ActorObject.core, ActorObject.actor?] at stored
  | false =>
    simp only [group, ActorObject.core, ActorObject.actor?, Bool.false_eq_true, if_false] at stored
    obtain rfl := Option.some.inj stored
    rfl

namespace Shard

variable {s s' : Shard} {label : Label}

/-! ## Forced stops -/

/-- A message for `do_work` is received for an actor whose forced stop is in progress, or for an
address below it. -/
def reentersStop (s : Shard) : Label → Bool
  | .receive addr .user _ _ => (cleanPaths s.stops).any fun p => p.reverse.isPrefixOf addr
  | _ => false

/-- No step hands a message to an actor that was stopped by force. -/
def ForcedStopFinal (s : Shard) (label : Label) : Prop :=
  ∀ s', s.step label = some s' → ∀ p o m, s.objs p = some o → o.forceStopping = true →
    s'.log.count (.started m p) = s.log.count (.started m p)

theorem not_opened (outside : s.reentersStop label = false) (p : Path) : ¬ s.opened label p := by
  cases label with
  | receive addr type srcShardId prId =>
    rintro ⟨rfl, below, cleaning⟩
    have inside : s.reentersStop (.receive addr .user srcShardId prId) = true :=
      List.any_eq_true.mpr ⟨p, cleaning, List.isPrefixOf_iff_prefix.mpr below⟩
    rw [outside] at inside
    cases inside
  | _ => exact fun never => never

/-- The tree is valid, and the objects below the root are silenced. -/
def AllSilenced (s : Shard) : Prop :=
  s.tree.Valid ∧ ∀ p, p ≠ [] → ∀ c ∈ s.cores p, c.Silenced

theorem AllSilenced.step (all : AllSilenced s) (outside : s.reentersStop label = false)
    (taken : s.step label = some s') : AllSilenced s' := by
  obtain ⟨valid, silenced⟩ := all
  refine ⟨valid.steps (refines_step valid taken), fun p child => ?_⟩
  refine (passes_step valid taken).keeps ?_ ?_ ?_ silenced p child
  · exact fun limitOf k forced => nomatch forced
  · exact fun q c c' before turn => before.turn (not_opened outside q) turn
  · intro c m users before first forced
    rw [before forced] at first
    cases first

theorem AllSilenced.final (all : AllSilenced s) : s.ForcedStopFinal label := by
  intro s' taken p o m found forced
  rcases (passes_step all.1 taken).started m p with same |
    ⟨sched, stop, mailbox, a, -, actor, user, -⟩
  · exact same
  · obtain rfl := Option.some.inj (found.symm.trans actor)
    have status : stop = .forceStopping := by simpa [ActorObject.forceStopping] using forced
    have empty := all.2 p (ne_nil_of_actor all.1 found) _ (cores_of_objs found) status
    simp [ActorObject.core, ActorObject.users, user] at empty

theorem allSilenced_init (limitOf : ActorKey → Nat) : AllSilenced (init limitOf) := by
  refine ⟨valid_of_reachable ⟨[], rfl⟩, fun p child c member => ?_⟩
  simp [cores, init, child] at member

/-- A forced stop is final as long as no message enters it while it runs continuations. -/
theorem forcedStopFinal_of_run {limitOf : ActorKey → Nat} {labels : List Label}
    (outside : StepsMeet step (fun s label => s.reentersStop label = false) (init limitOf) labels) :
    StepsMeet step ForcedStopFinal (init limitOf) labels :=
  outside.of_invariant AllSilenced (fun _ _ _ all met taken => all.step met taken)
    (fun _ _ all _ => all.final) (allSilenced_init limitOf)

/-- The `do_work` of an actor schedules a continuation and stops the actor. The continuation sends
a message to the actor. -/
def reenteredStopRun : List Label :=
  [.receive [workerKey] .user 0 0, .dispatch 0, .advance false 0, .advance false 0,
    .addTask [workerKey] false, .workDone none .yes, .advance false 0,
    .receive [workerKey] .user 0 0, .advance false 0, .advance false 0]

/-- The state after it. -/
def reenteredStopEnd : Shard := (run step (init fun _ => 1) reenteredStopRun).get (by decide)

/-- The message is handed to the actor after its forced stop. -/
theorem message_after_forced_stop :
    ¬ ∀ (limitOf : ActorKey → Nat) (labels : List Label) (s : Shard) (label : Label),
      run step (init limitOf) labels = some s → s.ForcedStopFinal label := by
  intro claim
  have final : reenteredStopEnd.ForcedStopFinal (.advance false 0) :=
    claim (fun _ => 1) reenteredStopRun reenteredStopEnd _ (Option.some_get (by decide)).symm
  have forced : (reenteredStopEnd.objs [workerKey]).any ActorObject.forceStopping = true := by
    decide
  obtain ⟨o, found, stopped⟩ := (Option.any_eq_true ..).mp forced
  have same := final _ (Option.some_get (by decide)).symm [workerKey] o ⟨2, .user, 0, 0⟩ found
    stopped
  exact absurd same (by decide)

/-- The continuation sends nothing, and a message after the stop is refused. -/
def forcedStopRun : List Label :=
  reenteredStopRun.take 7 ++ List.replicate 3 (.advance false 0) ++
    [.receive [workerKey] .user 0 0]

theorem forced_stop_undisturbed :
    (run step (init fun _ => 1) forcedStopRun).isSome = true ∧
      StepsMeet step ForcedStopFinal (init fun _ => 1) forcedStopRun :=
  ⟨by decide, forcedStopFinal_of_run (by decide)⟩

/-! ## Destruction -/

/-- The run of an actor that is stopping ends, with nothing in its mailbox and no method in
flight, and its task queue holds a continuation that no method waits for. -/
def leavesTask (s : Shard) (label : Label) : Bool :=
  match s.stops, s.runs with
  | [], ⟨k :: p, pc⟩ :: _ =>
    match s.objs (k :: p) with
    | some ⟨_, stop, [], .actor a⟩ =>
      endsRun pc label && stop != .running && a.curConcurrency == 0 && a.taskQueue.contains .user
    | _ => false
  | _, _ => false

/-- A step destroys an actor only when it has nothing to do, and an actor that is stopped in peace
keeps its messages until they are handed to `do_work`. -/
structure EndsIdle (s : Shard) (label : Label) : Prop where
  destroyed : ∀ {s' p sched stop mailbox a}, s.step label = some s' →
    s.objs p = some ⟨sched, stop, mailbox, .actor a⟩ → s'.objs p = none →
    mailbox = [] ∧ a.curConcurrency = 0 ∧ a.taskQueue = []
  handed : ∀ {s' p sched mailbox a m}, s.step label = some s' →
    s.objs p = some ⟨sched, .peaceStopping, mailbox, .actor a⟩ → m ∈ mailbox → m.type = .user →
    (∃ o, s'.objs p = some o ∧ m ∈ o.mailbox) ∨ s'.log = s.log ++ [.started m p]

/-- The tree is valid, and the methods of all actors are counted. -/
def AllCounted (s : Shard) : Prop :=
  s.tree.Valid ∧ ∀ p, p ≠ [] → ∀ c ∈ s.cores p, c.Counted

theorem AllCounted.step (all : AllCounted s) (taken : s.step label = some s') : AllCounted s' := by
  obtain ⟨valid, counted⟩ := all
  refine ⟨valid.steps (refines_step valid taken), fun p child => ?_⟩
  refine (passes_step valid taken).keeps Core.counted_create ?_ ?_ counted p child
  · exact fun q c c' before turn => before.turn turn
  · exact fun c m users before first => before

theorem allCounted_init (limitOf : ActorKey → Nat) : AllCounted (init limitOf) := by
  refine ⟨valid_of_reachable ⟨[], rfl⟩, fun p child c member => ?_⟩
  simp [cores, init, child] at member

theorem AllCounted.balanced {p : Path} {sched : SchedStatus} {stop : ActorStatus}
    {mailbox : List ActorMessage} {a : ActorBody} (counted : AllCounted s)
    (found : s.objs p = some ⟨sched, stop, mailbox, .actor a⟩) : a.Balanced :=
  counted.2 p (ne_nil_of_actor counted.1 found) _ (cores_of_objs found) a rfl

/-- An object that goes through turns stays. -/
theorem turns_of_shifts {isOpen : Prop} {c : Core} {after : Option Core}
    (shifts : Relation.ReflTransGen (Shift isOpen) (some c) after) :
    ∃ c', after = some c' ∧ Relation.ReflTransGen (Turn isOpen) c c' := by
  induction shifts with
  | refl => exact ⟨c, rfl, .refl⟩
  | tail _ shift ih =>
    obtain ⟨c', rfl, turns⟩ := ih
    cases shift with
    | turn turn => exact ⟨_, rfl, turns.tail turn⟩

theorem cores_eq_none {p : Path} : s.cores p = none ↔ s.objs p = none := Option.map_eq_none_iff

/-- An actor is destroyed at the end of its run. -/
theorem Passes.destroys {p : Path} {sched : SchedStatus} {stop : ActorStatus}
    {mailbox : List ActorMessage} {a : ActorBody} (passes : Passes s label s')
    (valid : s.tree.Valid) (found : s.objs p = some ⟨sched, stop, mailbox, .actor a⟩)
    (gone : s'.objs p = none) :
    ∃ k q pc rest, p = k :: q ∧ s.stops = [] ∧ s.runs = ⟨k :: q, pc⟩ :: rest ∧
      endsRun pc label = true ∧ mailbox = [] ∧ stop ≠ .running ∧ a.curConcurrency = 0 := by
  have child := ne_nil_of_actor valid found
  have stored := cores_of_objs found
  -- the other steps keep the object
  have stays {t : Shard} (evolves : Evolves (s.opened label) s t) : t.cores p ≠ none := by
    have shifts := evolves.below p child
    rw [stored] at shifts
    obtain ⟨c', same, -⟩ := turns_of_shifts shifts
    rw [same]
    exact Option.some_ne_none c'
  have gone' := cores_eq_none.mpr gone
  cases passes with
  | quiet evolves => exact absurd gone' (stays evolves)
  | start idle runs found' user result =>
    rename_i j q rest sched' stop' m mailbox' a'
    exfalso
    by_cases here : p = j :: q
    · rw [result, here] at gone'
      exact nomatch (cores_update_self found' _).symm.trans gone'
    · rw [result] at gone'
      have same := (cores_update_ne (s := s) (·.setMailbox mailbox') here).symm.trans gone'
      rw [stored] at same
      cases same
  | endActor idle runs ends found' stopping none result =>
    rename_i j q pc rest sched' stop' a'
    by_cases here : p = j :: q
    · subst here
      obtain ⟨rfl, rfl, rfl, same⟩ := ActorObject.mk.inj (Option.some.inj (found.symm.trans found'))
      obtain rfl := Body.actor.inj same
      exact ⟨j, q, pc, rest, rfl, idle, runs, ends, rfl, stopping, none⟩
    · rw [result, cores_destroy, if_neg here, cores_notifyChildStopped, cores_leave,
        stored] at gone'
      cases gone'
  | endGroup evolves grows idle found' stopping none result =>
    rename_i t j q sched' stop' g
    exfalso
    by_cases here : p = j :: q
    · subst here
      have actor : j.isGroup = false := (isGroup_of_key valid found).symm
      have group : j.isGroup = true := (isGroup_of_key (grows.valid valid) found').symm
      rw [actor] at group
      cases group
    · rw [result, cores_destroy, if_neg here, cores_acknowledge, cores_leave] at gone'
      exact stays evolves gone'
  | stopSystem evolves grows running result =>
    rename_i t force m
    rw [result] at gone'
    have absent : t.cores p = none := (cores_update_ne (·.setStop force) child).symm.trans gone'
    exact absurd absent (stays evolves)
  | endSystem top ended =>
    rw [cores_stopSystemEnd ended, stored] at gone'
    cases gone'

/-- The messages of an actor that is stopped in peace stay. -/
theorem kept_of_turns {isOpen : Prop} {c c' : Core} {m : ActorMessage}
    (turns : Relation.ReflTransGen (Turn isOpen) c c') (peace : c.status = .peaceStopping)
    (waits : m ∈ c.users) : c'.status = .peaceStopping ∧ m ∈ c'.users := by
  induction turns with
  | refl => exact ⟨peace, waits⟩
  | tail _ turn ih =>
    obtain ⟨status, member⟩ := ih
    cases turn with
    | deliver m' late => exact ⟨status, List.mem_append_left _ member⟩
    | peaceStop running => exact ⟨rfl, member⟩
    | forceStop running =>
      rw [status] at running
      cases running
    | work stored works => exact ⟨status, member⟩

theorem mem_mailbox_of_users {o : ActorObject} {m : ActorMessage} (member : m ∈ o.core.users) :
    m ∈ o.mailbox := (List.mem_filter.mp member).1

theorem AllCounted.endsIdle (all : AllCounted s) (none : s.leavesTask label = false) :
    s.EndsIdle label := by
  obtain ⟨valid, counted⟩ := all
  constructor
  · intro s' p sched stop mailbox a taken found gone
    obtain ⟨k, q, pc, rest, rfl, idle, runs, ends, rfl, stopping, zero⟩ :=
      (passes_step valid taken).destroys valid found gone
    refine ⟨rfl, zero, ?_⟩
    have balanced := counted (k :: q) (List.cons_ne_nil k q) _ (cores_of_objs found) a rfl
    unfold ActorBody.Balanced at balanced
    have detached : Task.user ∉ a.taskQueue := by
      simpa [leavesTask, idle, runs, found, ends, stopping, zero] using none
    refine List.eq_nil_iff_forall_not_mem.mpr fun task member => ?_
    cases waits : task.waits with
    | true =>
      have one := List.countP_pos_iff.mpr ⟨task, member, waits⟩
      omega
    | false =>
      cases task with
      | user => exact detached member
      | _ => cases waits
  · intro s' p sched mailbox a m taken found member user
    have child := ne_nil_of_actor valid found
    have passes := passes_step valid taken
    have waits : m ∈ (ActorObject.core ⟨sched, .peaceStopping, mailbox, .actor a⟩).users :=
      List.mem_filter.mpr ⟨member, by simpa using user⟩
    rcases passes.below child with shifts | ⟨c, m', users, stored, first, after, log⟩ | gone
    · rw [cores_of_objs found] at shifts
      obtain ⟨c', after, turns⟩ := turns_of_shifts shifts
      obtain ⟨o, found', rfl⟩ := exists_of_cores after
      exact .inl ⟨o, found', mem_mailbox_of_users (kept_of_turns turns rfl waits).2⟩
    · obtain rfl := Option.some.inj ((cores_of_objs found).symm.trans stored)
      rw [first] at waits
      rcases List.mem_cons.mp waits with rfl | later
      · exact .inr log
      · obtain ⟨o, found', same⟩ := exists_of_cores after
        refine .inl ⟨o, found', mem_mailbox_of_users ?_⟩
        rw [same]
        exact later
    · obtain ⟨_, _, _, _, _, _, _, _, rfl, _⟩ :=
        passes.destroys valid found (cores_eq_none.mp gone)
      cases member

/-- The actor whose run ends is destroyed. -/
theorem finishActor_destroys {p : Path} {k : ActorKey} {sched : SchedStatus} {stop : ActorStatus}
    {a : ActorBody} (found : s.objs (k :: p) = some ⟨sched, stop, [], .actor a⟩)
    (stopping : stop ≠ .running) (zero : a.curConcurrency = 0) :
    ∃ s', s.finishActor p k = some s' ∧ s'.objs (k :: p) = none := by
  refine ⟨(s.leave.notifyChildStopped p).destroy (k :: p), ?_, Function.update_self ..⟩
  simp [finishActor, found, ActorObject.stopping, stopping, zero]

theorem step_of_endsRun {p : Path} {k : ActorKey} {pc : Pc} {rest : List RunFrame}
    {sched : SchedStatus} {stop : ActorStatus} {a : ActorBody} (idle : s.stops = [])
    (runs : s.runs = ⟨k :: p, pc⟩ :: rest) (ends : endsRun pc label = true)
    (found : s.objs (k :: p) = some ⟨sched, stop, [], .actor a⟩) :
    s.step label = s.finishActor p k := by
  unfold endsRun at ends
  split at ends
  · simp [step, Label.isUser, idle, runs, runStep, ends]
  · simp [step, Label.isUser, idle, runs, runStep, ends]
  · simp [step, Label.isUser, idle, runs, runStep, actorMail, found]
  · cases ends

theorem EndsIdle.leavesNone (clean : s.EndsIdle label) : s.leavesTask label = false := by
  rw [Bool.eq_false_iff]
  intro leaves
  unfold leavesTask at leaves
  split at leaves
  · rename_i k p pc rest idle runs
    split at leaves
    · rename_i sched stop a found
      simp only [Bool.and_eq_true, bne_iff_ne, beq_iff_eq, List.contains_iff_mem] at leaves
      obtain ⟨⟨⟨ends, stopping⟩, zero⟩, detached⟩ := leaves
      obtain ⟨s', finished, gone⟩ := finishActor_destroys found stopping zero
      have taken := (step_of_endsRun idle runs ends found).trans finished
      obtain ⟨-, -, empty⟩ := clean.destroyed taken found gone
      rw [empty] at detached
      cases detached
    · cases leaves
  · cases leaves

/-- The actors of a run are destroyed when they have nothing to do if and only if none of them
ends its run with a continuation that no method waits for in its queue. -/
theorem endsIdle_iff_of_run {limitOf : ActorKey → Nat} {labels : List Label} :
    StepsMeet step EndsIdle (init limitOf) labels ↔
      StepsMeet step (fun s label => s.leavesTask label = false) (init limitOf) labels := by
  constructor
  · exact fun clean => clean.mono fun _ _ met => met.leavesNone
  · exact fun none => none.of_invariant AllCounted (fun _ _ _ all _ taken => all.step taken)
      (fun _ _ all met => all.endsIdle met) (allCounted_init limitOf)

/-- An actor is stopped in peace after its `do_work` has scheduled a continuation. -/
def detachedTaskRun : List Label :=
  [.receive [workerKey] .user 0 0, .dispatch 0, .advance false 0, .advance false 0,
    .addTask [workerKey] false, .receive [workerKey] .peaceStop 0 0, .workDone none .no,
    .advance false 0, .advance false 0, .advance false 0]

/-- The state after it. -/
def detachedTaskEnd : Shard := (run step (init fun _ => 1) detachedTaskRun).get (by decide)

/-- The actor is destroyed with the continuation in its task queue. -/
theorem detached_task_lost :
    ¬ ∀ (limitOf : ActorKey → Nat) (labels : List Label) (s : Shard) (label : Label),
      run step (init limitOf) labels = some s → s.EndsIdle label := by
  intro claim
  have clean : detachedTaskEnd.EndsIdle (.advance false 0) :=
    claim (fun _ => 1) detachedTaskRun detachedTaskEnd _ (Option.some_get (by decide)).symm
  exact absurd clean.leavesNone (by decide)

end Shard

end Hiactor
