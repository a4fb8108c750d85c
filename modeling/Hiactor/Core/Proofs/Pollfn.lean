import Hiactor.Lib.Run
import Hiactor.Core.Pollfn
import Hiactor.Core.Proofs.Channel

/-!
# Started queues and unsent messages

Two results about the shards of a machine and their queues. A deque is used before it is
constructed exactly by the round of `network_channel::pure_poll_queues` of a shard for itself. And
a shard that enters interrupt mode leaves no message in the deques of its queues exactly when the
ring had room at each of its flushes.
-/

namespace Hiactor

open Lib

/-- The rounds that are left are for shards of the machine, and a round that has begun is not for
the shard itself. -/
def PollPhase.Valid (count s : Nat) : PollPhase → Prop
  | .poll _ _ todo stage =>
    (∀ round ∈ todo, round.2 < count) ∧ (stage ≠ .process → ∀ round ∈ todo.head?, round.2 ≠ s)
  | .purePoll _ todo => ∀ round ∈ todo, round.2 < count
  | .idle | .interruptMode => True

namespace Smp

variable {α : Type} {m m' : Smp α}

/-! ## The parts of a state -/

@[simp] theorem queue_setPhase (s : Nat) (phase : PollPhase) (kind : ChannelKind) (i j : Nat) :
    (m.setPhase s phase).queue kind i j = m.queue kind i j := rfl

@[simp] theorem phase_setPhase_self (s : Nat) (phase : PollPhase) :
    (m.setPhase s phase).phase s = phase := by simp [setPhase]

theorem phase_setPhase_of_ne {s t : Nat} (phase : PollPhase) (other : t ≠ s) :
    (m.setPhase s phase).phase t = m.phase t := by simp [setPhase, other]

@[simp] theorem phase_setQueue (kind : ChannelKind) (i j : Nat) (q : MessageQueue α) :
    (m.setQueue kind i j q).phase = m.phase := rfl

@[simp] theorem count_setQueue (kind : ChannelKind) (i j : Nat) (q : MessageQueue α) :
    (m.setQueue kind i j q).count = m.count := rfl

@[simp] theorem queue_setQueue_self (kind : ChannelKind) (i j : Nat) (q : MessageQueue α) :
    (m.setQueue kind i j q).queue kind i j = q := by simp [setQueue, queue]

theorem queue_setQueue_of_ne {kind kind' : ChannelKind} {i j k l : Nat} (q : MessageQueue α)
    (other : ¬ (kind' = kind ∧ k = i ∧ l = j)) :
    (m.setQueue kind i j q).queue kind' k l = m.queue kind' k l := by
  unfold setQueue queue
  by_cases same : kind' = kind
  · subst same
    simp only [Function.update_self]
    exact Channel.qs_set_of_ne _ q fun place => other ⟨rfl, place⟩
  · simp only [Function.update_of_ne same]

theorem useTx_eq_ok {kind : ChannelKind} {i j : Nat} {f : MessageQueue α → Option (MessageQueue α)}
    (used : m.useTx kind i j f = .ok m') :
    ∃ q, f (m.queue kind i j) = some q ∧ m' = m.setQueue kind i j q := by
  unfold useTx at used
  split at used
  · next q done =>
    cases used
    exact ⟨q, done, rfl⟩
  · cases used

theorem useTx_eq_uninitialised {kind : ChannelKind} {i j : Nat}
    {f : MessageQueue α → Option (MessageQueue α)} :
    m.useTx kind i j f = .error .uninitialised ↔ f (m.queue kind i j) = none := by
  unfold useTx
  split
  · next q done => simp [done]
  · next missing => simp [missing]

/-- The next access of a shard in its poll function. -/
inductive Next (m : Smp α) (s : Nat) : Smp α → Prop
  | skip {entering got kind todo}
      (phase : m.phase s = .poll entering got ((kind, s) :: todo) .process) :
      Next m s (m.setPhase s (.poll entering got todo .process))
  | popFirst {entering got kind i todo q}
      (phase : m.phase s = .poll entering got ((kind, i) :: todo) .process) (differ : s ≠ i)
      (popped : (m.queue kind s i).popFirst = some q) :
      Next m s ((m.setQueue kind s i q).setPhase s (.poll entering got ((kind, i) :: todo) .handle))
  | empty {entering got kind i todo}
      (phase : m.phase s = .poll entering got ((kind, i) :: todo) .process) (differ : s ≠ i) :
      Next m s (m.setPhase s (.poll entering got ((kind, i) :: todo) .flush))
  | popRest {entering got kind i todo q}
      (phase : m.phase s = .poll entering got ((kind, i) :: todo) .handle)
      (popped : (m.queue kind s i).popRest = some q) : Next m s (m.setQueue kind s i q)
  | handle {entering got kind i todo msg q} (stage : PollStage)
      (phase : m.phase s = .poll entering got ((kind, i) :: todo) .handle)
      (handled : (m.queue kind s i).handleNext = some (msg, q)) :
      Next m s ((m.setQueue kind s i q).setPhase s
        (.poll entering (got + 1) ((kind, i) :: todo) stage))
  | flush {entering got kind i todo q}
      (phase : m.phase s = .poll entering got ((kind, i) :: todo) .flush)
      (flushed : (m.queue kind i s).flushRequestBatch = some q) :
      Next m s ((m.setQueue kind i s q).setPhase s (.poll entering got todo .process))
  | finish {entering got stage} (phase : m.phase s = .poll entering got [] stage) :
      Next m s (m.setPhase s (if entering ∧ got = 0 then .interruptMode else .idle))
  | pureSkip {found todo} (phase : m.phase s = .purePoll found ((.local, s) :: todo)) :
      Next m s (m.setPhase s (.purePoll found todo))
  | pureFlush {found kind i todo q} (found' : Bool) (todo' : List (ChannelKind × Nat))
      (phase : m.phase s = .purePoll found ((kind, i) :: todo))
      (flushed : (m.queue kind i s).flushRequestBatch = some q) (left : todo' ⊆ todo) :
      Next m s ((m.setQueue kind i s q).setPhase s (.purePoll found' todo'))
  | pureFinish {found} (phase : m.phase s = .purePoll found []) : Next m s (m.setPhase s .idle)

theorem Next.keeps {s : Nat} (taken : Next m s m') :
    m'.count = m.count ∧ m'.started = m.started := by
  cases taken <;> exact ⟨rfl, rfl⟩

theorem pollRound_eq_ok {s : Nat} {entering : Bool} {got : Nat} {kind : ChannelKind} {i : Nat}
    {todo : List (ChannelKind × Nat)} {stage : PollStage}
    (phase : m.phase s = .poll entering got ((kind, i) :: todo) stage)
    (done : m.pollRound s entering got kind i todo stage = .ok m') : Next m s m' := by
  cases stage with
  | process =>
    simp only [pollRound] at done
    split at done
    · next differ =>
      split at done
      · next q popped =>
        cases done
        exact .popFirst phase differ popped
      · cases done
        exact .empty phase differ
    · next same =>
      cases done
      obtain rfl : s = i := by simpa using same
      exact .skip phase
  | handle =>
    simp only [pollRound] at done
    split at done
    · next q popped =>
      cases done
      exact .popRest phase popped
    · next msg q handled =>
      cases done
      exact .handle _ phase handled
    · cases done
  | flush =>
    simp only [pollRound] at done
    cases used : m.useTx kind i s (·.flushRequestBatch) with
    | error fault => simp [used, bind, Except.bind] at done
    | ok m₁ =>
      obtain ⟨q, flushed, rfl⟩ := useTx_eq_ok used
      simp only [used, bind, Except.bind, pure, Except.pure, Except.ok.injEq] at done
      subst done
      exact .flush phase flushed

theorem purePollRound_eq_ok {s : Nat} {found : Bool} {kind : ChannelKind} {i : Nat}
    {todo : List (ChannelKind × Nat)}
    (phase : m.phase s = .purePoll found ((kind, i) :: todo))
    (done : m.purePollRound s found kind i todo = .ok m') : Next m s m' := by
  unfold purePollRound at done
  cases used : m.useTx kind i s (·.flushRequestBatch) with
  | error fault => simp [used, bind, Except.bind] at done
  | ok m₁ =>
    obtain ⟨q, flushed, rfl⟩ := useTx_eq_ok used
    simp only [used, bind, Except.bind, pure, Except.pure] at done
    split at done
    · cases done
      exact .pureFlush true _ phase flushed (List.dropWhile_sublist _).subset
    · cases done
      exact .pureFlush found todo phase flushed (List.Subset.refl _)

theorem next_eq_ok {s : Nat} (done : m.next s = .ok m') : Next m s m' := by
  unfold next at done
  split at done
  · next phase => exact pollRound_eq_ok phase done
  · next phase =>
    cases done
    exact .finish phase
  · next i _ phase =>
    split at done
    · exact purePollRound_eq_ok phase done
    · next same =>
      cases done
      obtain rfl : s = i := by simpa using same
      exact .pureSkip phase
  · next phase => exact purePollRound_eq_ok phase done
  · next phase =>
    cases done
    exact .pureFinish phase
  · cases done
  · cases done

/-! ## Started queues -/

/-- The deques that exist are those to other shards of the producers that have started. -/
structure Constructed (m : Smp α) : Prop where
  counts : ∀ kind, (m.channel kind).count = m.count
  deques : ∀ kind i j,
    (m.queue kind i j).tx.isSome = true ↔ i < m.count ∧ m.started j = true ∧ i ≠ j
  phases : ∀ s, (m.phase s).Valid m.count s
  polled : ∀ s, m.phase s ≠ .idle → m.started s = true

theorem constructed_create (count : Nat) : (create count : Smp α).Constructed where
  counts _ := rfl
  deques _ _ _ := by simp [create, queue, Channel.create]
  phases _ := trivial
  polled _ running := absurd rfl running

theorem Constructed.setPhase (valid : m.Constructed) {s : Nat} {phase : PollPhase}
    (ok : phase.Valid m.count s) (started : m.started s = true) :
    (m.setPhase s phase).Constructed where
  counts := valid.counts
  deques := valid.deques
  phases t := by
    by_cases same : t = s
    · subst same
      rw [phase_setPhase_self]
      exact ok
    · rw [phase_setPhase_of_ne phase same]
      exact valid.phases t
  polled t running := by
    by_cases same : t = s
    · exact same ▸ started
    · rw [phase_setPhase_of_ne phase same] at running
      exact valid.polled t running

theorem Constructed.setQueue (valid : m.Constructed) {kind : ChannelKind} {i j : Nat}
    {q : MessageQueue α} (kept : q.tx.isSome = (m.queue kind i j).tx.isSome) :
    (m.setQueue kind i j q).Constructed := by
  have same_tx : ∀ kind' k l, ((m.setQueue kind i j q).queue kind' k l).tx.isSome =
      (m.queue kind' k l).tx.isSome := by
    intro kind' k l
    by_cases place : kind' = kind ∧ k = i ∧ l = j
    · obtain ⟨rfl, rfl, rfl⟩ := place
      rw [queue_setQueue_self, kept]
    · rw [queue_setQueue_of_ne q place]
  refine ⟨fun kind' => ?_, fun kind' k l => ?_, valid.phases, valid.polled⟩
  · by_cases same : kind' = kind
    · subst same
      simp [Smp.setQueue, valid.counts]
    · simp [Smp.setQueue, same, valid.counts]
  · rw [same_tx]
    exact valid.deques kind' k l

theorem rounds_valid (networkFirst : Bool) :
    ∀ round ∈ m.rounds networkFirst, round.2 < m.count := by
  intro round listed
  cases networkFirst <;> simp [rounds] at listed <;> grind

theorem flush_keeps_tx (q q' : MessageQueue α) (flushed : q.flushRequestBatch = some q') :
    q'.tx.isSome = q.tx.isSome := by
  have produces := (MessageQueue.flushRequestBatch_eq_some flushed).1
  rw [produces.tx', produces.tx]

theorem Constructed.next (valid : m.Constructed) {s : Nat} (taken : Next m s m') :
    m'.Constructed := by
  have started : m.phase s ≠ .idle → m.started s = true := valid.polled s
  have ok := valid.phases s
  cases taken with
  | skip phase =>
    rw [phase] at started ok
    exact valid.setPhase ⟨fun r member => ok.1 r (List.mem_cons_of_mem _ member), by simp⟩
      (started (by simp))
  | popFirst phase differ popped =>
    rw [phase] at started ok
    obtain ⟨tm, _, _, _, tx⟩ := MessageQueue.popFirst_eq_some popped
    exact (valid.setQueue (by rw [tx])).setPhase ⟨ok.1, by simpa using Ne.symm differ⟩
      (started (by simp))
  | empty phase differ =>
    rw [phase] at started ok
    exact valid.setPhase ⟨ok.1, by simpa using Ne.symm differ⟩ (started (by simp))
  | popRest phase popped =>
    obtain ⟨tm, _, _, tx, _⟩ := MessageQueue.popRest_eq_some popped
    exact valid.setQueue (by rw [tx])
  | handle stage phase handled =>
    rw [phase] at started ok
    obtain ⟨_, _, _, _, _, _, _, tx, _⟩ := MessageQueue.handleNext_eq_some handled
    exact (valid.setQueue (by rw [tx])).setPhase ⟨ok.1, fun _ => ok.2 (by simp)⟩
      (started (by simp))
  | flush phase flushed =>
    rw [phase] at started ok
    exact (valid.setQueue (flush_keeps_tx _ _ flushed)).setPhase
      ⟨fun r member => ok.1 r (List.mem_cons_of_mem _ member), by simp⟩ (started (by simp))
  | finish phase =>
    rw [phase] at started
    refine valid.setPhase ?_ (started (by simp))
    split <;> trivial
  | pureSkip phase =>
    rw [phase] at started ok
    exact valid.setPhase (fun r member => ok r (List.mem_cons_of_mem _ member)) (started (by simp))
  | pureFlush found' todo' phase flushed left =>
    rw [phase] at started ok
    exact (valid.setQueue (flush_keeps_tx _ _ flushed)).setPhase
      (fun r member => ok r (List.mem_cons_of_mem _ (left member))) (started (by simp))
  | pureFinish phase =>
    rw [phase] at started
    exact valid.setPhase trivial (started (by simp))

theorem Constructed.startAllQueues (valid : m.Constructed) (s : Nat) :
    (m.startAllQueues s).Constructed where
  counts := valid.counts
  deques kind i j := by
    have before := valid.deques kind i j
    simp only [Smp.startAllQueues, queue, Channel.startAllQueues, valid.counts] at before ⊢
    by_cases producer : j = s
    · subst producer
      simp only [Function.update_self]
      by_cases other : i < m.count ∧ i ≠ j
      · simp [other, MessageQueue.start]
      · rw [if_neg fun place => other place.2, before]
        constructor
        · exact fun place => absurd ⟨place.1, place.2.2⟩ other
        · exact fun place => absurd ⟨place.1, place.2.2⟩ other
    · rw [if_neg fun place => producer place.1, before, Function.update_of_ne producer]
  phases := valid.phases
  polled t running := by
    by_cases same : t = s
    · simp [Smp.startAllQueues, same]
    · simpa [Smp.startAllQueues, same] using valid.polled t running

theorem Constructed.perform (valid : m.Constructed) {label : SmpLabel α}
    (enabled : m.enabled label = true) (done : m.perform label = .ok m') :
    m'.destroyed = true ∨ m'.Constructed := by
  cases label with
  | startAllQueues s =>
    cases done
    exact .inr (valid.startAllQueues s)
  | send s kind target msg urgent =>
    simp only [Smp.perform] at done
    obtain ⟨q, sent, rfl⟩ := useTx_eq_ok done
    refine .inr (valid.setQueue ?_)
    cases urgent with
    | false =>
      replace sent : (m.queue kind target s).send msg = some q := sent
      rw [MessageQueue.tx_send sent, ← MessageQueue.send_isSome msg, sent]
      rfl
    | true =>
      replace sent : (m.queue kind target s).sendUrgent msg = some q := sent
      rw [MessageQueue.tx_sendUrgent sent, ← MessageQueue.sendUrgent_isSome msg, sent]
      rfl
  | poll s networkFirst =>
    cases done
    simp only [Smp.enabled, Bool.and_eq_true] at enabled
    exact .inr (valid.setPhase ⟨rounds_valid networkFirst, by simp⟩ enabled.1.2)
  | purePoll s networkFirst =>
    cases done
    simp only [Smp.enabled, Bool.and_eq_true] at enabled
    exact .inr (valid.setPhase (rounds_valid networkFirst) enabled.1.2)
  | tryEnterInterruptMode s barrierDone networkFirst =>
    cases done
    simp only [Smp.enabled, Bool.and_eq_true] at enabled
    cases barrierDone with
    | false => exact .inr valid
    | true => exact .inr (valid.setPhase ⟨rounds_valid networkFirst, by simp⟩ enabled.1.2)
  | exitInterruptMode s =>
    cases done
    simp only [Smp.enabled, Bool.and_eq_true, beq_iff_eq] at enabled
    exact .inr (valid.setPhase trivial (valid.polled s (by simp [enabled.2])))
  | next s => exact .inr (valid.next (next_eq_ok done))
  | destroy =>
    simp only [Smp.perform, destroy] at done
    split at done
    · cases done
      exact .inl rfl
    · cases done

theorem step_eq_some {label : SmpLabel α} (taken : m.step label = some m') :
    m.enabled label = true ∧ m.destroyed = false ∧ m.perform label = .ok m' := by
  unfold step exec at taken
  split at taken
  · next can =>
    simp only [Bool.and_eq_true, Bool.not_eq_true'] at can
    refine ⟨can.1, can.2, ?_⟩
    cases done : m.perform label with
    | error fault => simp [done, Except.toOption] at taken
    | ok m₁ =>
      simp only [done, Except.toOption, Option.some.injEq] at taken
      rw [taken]
  · cases taken

theorem constructed_of_run {count : Nat} {labels : List (SmpLabel α)}
    (ran : run step (create count) labels = some m) : m.destroyed = true ∨ m.Constructed := by
  refine run_invariant (fun m => m.destroyed = true ∨ m.Constructed) ?_ labels _ _
    (.inr (constructed_create count)) ran
  intro m label m' valid taken
  obtain ⟨enabled, alive, done⟩ := step_eq_some taken
  rcases valid with destroyed | valid
  · simp [destroyed] at alive
  · exact valid.perform enabled done

/-- The next step of shard `s` is the round of `network_channel::pure_poll_queues` for the shard
itself. -/
def ownRound (m : Smp α) : SmpLabel α → Prop
  | .next s => ∃ found todo, m.phase s = .purePoll found ((.network, s) :: todo)
  | _ => False

theorem Constructed.flush_uninitialised (valid : m.Constructed) (kind : ChannelKind) {i s : Nat}
    (row : i < m.count) (started : m.started s = true) :
    m.useTx kind i s (·.flushRequestBatch) = .error .uninitialised ↔ i = s := by
  rw [useTx_eq_uninitialised, ← Option.not_isSome_iff_eq_none,
    MessageQueue.flushRequestBatch_isSome, valid.deques]
  simp [row, started]

theorem Constructed.pollRound_ne (valid : m.Constructed) {s : Nat} {entering : Bool} {got : Nat}
    {kind : ChannelKind} {i : Nat} {todo : List (ChannelKind × Nat)} {stage : PollStage}
    (phase : m.phase s = .poll entering got ((kind, i) :: todo) stage) :
    m.pollRound s entering got kind i todo stage ≠ .error .uninitialised := by
  have started := valid.polled s (by simp [phase])
  have ok := valid.phases s
  rw [phase] at ok
  cases stage with
  | process =>
    simp only [pollRound]
    split
    · split <;> simp
    · simp
  | handle =>
    simp only [pollRound]
    split <;> simp
  | flush =>
    have differ : i ≠ s := ok.2 (by simp) (kind, i) (by simp)
    have flushes := mt (valid.flush_uninitialised kind (ok.1 (kind, i) (by simp)) started).mp differ
    simp only [pollRound]
    cases used : m.useTx kind i s (·.flushRequestBatch) with
    | ok m₁ => simp [bind, Except.bind, pure, Except.pure]
    | error fault =>
      intro failed
      simp only [bind, Except.bind, Except.error.injEq] at failed
      exact flushes (failed ▸ used)

theorem Constructed.purePollRound_iff (valid : m.Constructed) {s : Nat} {found : Bool}
    {kind : ChannelKind} {i : Nat} {todo : List (ChannelKind × Nat)}
    (phase : m.phase s = .purePoll found ((kind, i) :: todo)) :
    m.purePollRound s found kind i todo = .error .uninitialised ↔ i = s := by
  have ok := valid.phases s
  rw [phase] at ok
  rw [← valid.flush_uninitialised kind (ok (kind, i) (by simp))
    (valid.polled s (by simp [phase]))]
  unfold purePollRound
  cases used : m.useTx kind i s (·.flushRequestBatch) with
  | ok m₁ =>
    simp only [bind, Except.bind, pure, Except.pure]
    split <;> simp
  | error fault => simp [bind, Except.bind]

theorem Constructed.next_iff (valid : m.Constructed) (s : Nat) :
    m.next s = .error .uninitialised ↔ m.ownRound (.next s) := by
  unfold Smp.next ownRound
  split
  · next phase => simpa [phase] using valid.pollRound_ne phase
  · next phase => simp [phase]
  · next phase =>
    split
    · next differ => simpa [phase] using mt (valid.purePollRound_iff phase).mp (Ne.symm differ)
    · simp [phase]
  · next phase =>
    rw [valid.purePollRound_iff phase]
    simp [phase]
  · next phase => simp [phase]
  · next phase => simp [phase]
  · next phase => simp [phase]

/-- In every run of any number of shards, a step that is enabled uses only deques that
`start_all_queues` has constructed exactly when it is not the round of
`network_channel::pure_poll_queues` of a shard for itself. -/
theorem started_queues_touched {count : Nat} {labels : List (SmpLabel α)}
    (ran : run step (create count) labels = some m) (label : SmpLabel α)
    (enabled : m.enabled label = true) (alive : m.destroyed = false) :
    m.exec label ≠ .error .uninitialised ↔ ¬ m.ownRound label := by
  have valid : m.Constructed := by
    rcases constructed_of_run ran with destroyed | valid
    · simp [destroyed] at alive
    · exact valid
  rw [ne_eq, not_iff_not]
  have performed : m.exec label = m.perform label := by simp [exec, enabled, alive]
  rw [performed]
  cases label with
  | next s => exact valid.next_iff s
  | send s kind target msg urgent =>
    simp only [Smp.enabled, Bool.and_eq_true, decide_eq_true_eq, bne_iff_ne] at enabled
    obtain ⟨⟨⟨⟨_, started⟩, _⟩, row⟩, differ⟩ := enabled
    have deque := (valid.deques kind target s).mpr ⟨row, started, differ⟩
    simp only [Smp.perform, useTx_eq_uninitialised, ownRound, iff_false,
      ← Option.not_isSome_iff_eq_none, not_not]
    cases urgent with
    | false => exact (MessageQueue.send_isSome msg).trans deque
    | true => exact (MessageQueue.sendUrgent_isSome msg).trans deque
  | destroy =>
    simp only [Smp.enabled, List.all_eq_true, List.mem_range, Bool.and_eq_true] at enabled
    have all_there : ∀ kind, (m.channel kind).destroyAll.isSome = true := by
      intro kind
      apply Channel.destroyAll_isSome
      intro i j row column differ
      rw [valid.counts] at row column
      exact (valid.deques kind i j).mpr ⟨row, (enabled j column).1, differ⟩
    obtain ⟨localQs, localDone⟩ := Option.isSome_iff_exists.mp (all_there .local)
    obtain ⟨networkQs, networkDone⟩ := Option.isSome_iff_exists.mp (all_there .network)
    simp [Smp.perform, destroy, localDone, networkDone, ownRound]
  | startAllQueues s => simp [Smp.perform, ownRound]
  | poll s networkFirst => simp [Smp.perform, ownRound]
  | purePoll s networkFirst => simp [Smp.perform, ownRound]
  | tryEnterInterruptMode s barrierDone networkFirst => simp [Smp.perform, ownRound]
  | exitInterruptMode s => simp [Smp.perform, ownRound]

/-- Two started shards. -/
theorem started_queues_touched_two :
    ∃ m : Smp Nat, run step (create 2) [.startAllQueues 0, .startAllQueues 1] = some m ∧
      (m.exec (.send 1 .network 0 7 false) ≠ .error .uninitialised ↔
        ¬ m.ownRound (.send 1 .network 0 7 false)) :=
  ⟨_, rfl, @started_queues_touched Nat _ 2 [.startAllQueues 0, .startAllQueues 1] rfl _ rfl rfl⟩

/-- The only shard of a machine uses the deque of the queue to itself in `pure_poll`. -/
theorem own_deque_touched :
    ¬ ∀ (count : Nat) (labels : List (SmpLabel Nat)) (m : Smp Nat) (label : SmpLabel Nat),
      run step (create count) labels = some m → m.exec label ≠ .error .uninitialised := by
  intro all
  exact all 1 [.startAllQueues 0, .purePoll 0 false, .next 0] _ (.next 0) rfl rfl

/-! ## Unsent messages -/

/-- The shard that takes a step. -/
def shardOf : SmpLabel α → Option Nat
  | .startAllQueues s | .send s _ _ _ _ | .poll s _ | .purePoll s _ | .exitInterruptMode s
  | .tryEnterInterruptMode s _ _ | .next s => some s
  | .destroy => none

/-- The deques of all queues that lead from shard `s` to another one are empty. -/
def AllSent (m : Smp α) (s : Nat) : Prop :=
  ∀ kind i, i < m.count → i ≠ s → (m.queue kind i s).fifo = []

/-- If the step is a flush of shard `s` in `poll`, the ring has room for all that waits. -/
def RoomForAll (s : Nat) (m : Smp α) (label : SmpLabel α) : Prop :=
  ∀ entering got kind i todo, label = .next s →
    m.phase s = .poll entering got ((kind, i) :: todo) .flush →
    (m.queue kind i s).fifo = [] ∨
      (m.queue kind i s).fifo.length + (m.queue kind i s).pending.length ≤ queueLength

/-- `try_enter_interrupt_mode` of shard `s` has returned true, or it has not got a message yet and
has the rounds `todo` left. -/
inductive Quiet (m : Smp α) (s : Nat) : List (ChannelKind × Nat) → Prop
  | polling {todo stage} (phase : m.phase s = .poll true 0 todo stage) (stage_ne : stage ≠ .handle)
      (valid : (PollPhase.poll true 0 todo stage).Valid m.count s) (nodup : todo.Nodup) :
      Quiet m s todo
  | sleeping (phase : m.phase s = .interruptMode) : Quiet m s []

/-- `try_enter_interrupt_mode` will not return true. -/
def Busy (m : Smp α) (s : Nat) : Prop :=
  match m.phase s with
  | .poll entering got todo stage =>
    entering = false ∨ 0 < got ∨ (stage = .handle ∧ todo ≠ [])
  | .interruptMode => False
  | .idle | .purePoll _ _ => True

/-- The deques that shard `s` has flushed are empty. -/
def SentBut (m : Smp α) (s : Nat) (todo : List (ChannelKind × Nat)) : Prop :=
  ∀ kind i, i < m.count → i ≠ s → (kind, i) ∉ todo → (m.queue kind i s).fifo = []

/-- A step of another shard leaves the deques of shard `s` as they are. -/
structure Unaffected (s : Nat) (m m' : Smp α) : Prop where
  phase : m'.phase s = m.phase s
  started : m'.started s = m.started s
  count : m'.count = m.count
  fifo : ∀ kind i, (m'.queue kind i s).fifo = (m.queue kind i s).fifo

theorem unaffected_setPhase {s t : Nat} (other : s ≠ t) (phase : PollPhase) :
    Unaffected s m (m.setPhase t phase) where
  phase := phase_setPhase_of_ne phase other
  started := rfl
  count := rfl
  fifo _ _ := rfl

theorem unaffected_setQueue {s i j : Nat} {kind : ChannelKind} {q : MessageQueue α}
    (kept : j = s → q.fifo = (m.queue kind i j).fifo) :
    Unaffected s m (m.setQueue kind i j q) where
  phase := rfl
  started := rfl
  count := rfl
  fifo kind' k := by
    by_cases place : kind' = kind ∧ k = i ∧ s = j
    · obtain ⟨rfl, rfl, rfl⟩ := place
      rw [queue_setQueue_self, kept rfl]
    · rw [queue_setQueue_of_ne q place]

theorem Unaffected.trans {s : Nat} {m'' : Smp α} (first : Unaffected s m m')
    (second : Unaffected s m' m'') : Unaffected s m m'' where
  phase := second.phase.trans first.phase
  started := second.started.trans first.started
  count := second.count.trans first.count
  fifo kind i := (second.fifo kind i).trans (first.fifo kind i)

theorem fifo_of_tx_eq {q q' : MessageQueue α} (tx : q'.tx = q.tx) : q'.fifo = q.fifo := by
  simp [MessageQueue.fifo, tx]

theorem unaffected_next {s t : Nat} (other : s ≠ t) (taken : Next m t m') : Unaffected s m m' := by
  have others_deque : ∀ {kind i q}, Unaffected s m (m.setQueue kind i t q) :=
    unaffected_setQueue fun same => absurd same.symm other
  have own_ring : ∀ {kind i q}, q.tx = (m.queue kind t i).tx →
      Unaffected s m (m.setQueue kind t i q) :=
    fun tx => unaffected_setQueue fun _ => fifo_of_tx_eq tx
  cases taken with
  | skip phase => exact unaffected_setPhase other _
  | popFirst phase differ popped =>
    obtain ⟨_, _, _, _, tx⟩ := MessageQueue.popFirst_eq_some popped
    exact (own_ring tx).trans (unaffected_setPhase other _)
  | empty phase differ => exact unaffected_setPhase other _
  | popRest phase popped =>
    obtain ⟨_, _, _, tx, _⟩ := MessageQueue.popRest_eq_some popped
    exact own_ring tx
  | handle stage phase handled =>
    obtain ⟨_, _, _, _, _, _, _, tx, _⟩ := MessageQueue.handleNext_eq_some handled
    exact (own_ring tx).trans (unaffected_setPhase other _)
  | flush phase flushed => exact others_deque.trans (unaffected_setPhase other _)
  | finish phase => exact unaffected_setPhase other _
  | pureSkip phase => exact unaffected_setPhase other _
  | pureFlush found' todo' phase flushed left =>
    exact others_deque.trans (unaffected_setPhase other _)
  | pureFinish phase => exact unaffected_setPhase other _

theorem unaffected_perform {s : Nat} {label : SmpLabel α} (other : shardOf label ≠ some s)
    (kept : label ≠ .destroy) (done : m.perform label = .ok m') : Unaffected s m m' := by
  cases label with
  | startAllQueues t =>
    have differ : s ≠ t := fun same => other (by rw [same]; rfl)
    cases done
    refine ⟨rfl, Function.update_of_ne differ _ _, rfl, fun kind i => ?_⟩
    simp [Smp.startAllQueues, queue, Channel.startAllQueues, differ]
  | send t kind target msg urgent =>
    have differ : s ≠ t := fun same => other (by rw [same]; rfl)
    simp only [Smp.perform] at done
    obtain ⟨q, _, rfl⟩ := useTx_eq_ok done
    exact unaffected_setQueue fun same => absurd same.symm differ
  | poll t networkFirst =>
    have differ : s ≠ t := fun same => other (by rw [same]; rfl)
    cases done
    exact unaffected_setPhase differ _
  | purePoll t networkFirst =>
    have differ : s ≠ t := fun same => other (by rw [same]; rfl)
    cases done
    exact unaffected_setPhase differ _
  | tryEnterInterruptMode t barrierDone networkFirst =>
    have differ : s ≠ t := fun same => other (by rw [same]; rfl)
    cases done
    cases barrierDone with
    | false => exact ⟨rfl, rfl, rfl, fun _ _ => rfl⟩
    | true => exact unaffected_setPhase differ _
  | exitInterruptMode t =>
    have differ : s ≠ t := fun same => other (by rw [same]; rfl)
    cases done
    exact unaffected_setPhase differ _
  | next t =>
    have differ : s ≠ t := fun same => other (by rw [same]; rfl)
    exact unaffected_next differ (next_eq_ok done)
  | destroy => exact absurd rfl kept

theorem SentBut.congr {s : Nat} (same : Unaffected s m m') (todo : List (ChannelKind × Nat)) :
    m'.SentBut s todo ↔ m.SentBut s todo := by
  unfold SentBut
  simp only [same.count, same.fifo]

/-- A flush of the shard empties its deque exactly when the ring has room for all. -/
theorem sentBut_flush {s : Nat} {kind : ChannelKind} {i : Nat} {rest : List (ChannelKind × Nat)}
    {q : MessageQueue α} (before : m.phase s = .poll true 0 ((kind, i) :: rest) .flush)
    (flushed : (m.queue kind i s).flushRequestBatch = some q) (unlisted : (kind, i) ∉ rest)
    (inside : i < m.count) (outgoing : i ≠ s) :
    ((m.setQueue kind i s q).setPhase s (.poll true 0 rest .process)).SentBut s rest ↔
      m.SentBut s ((kind, i) :: rest) ∧ RoomForAll s m (.next s) := by
  have emptied : RoomForAll s m (.next s) ↔ q.fifo = [] := by
    rw [(MessageQueue.flushRequestBatch_eq_some flushed).2]
    constructor
    · exact fun room => room _ _ _ _ _ rfl before
    · intro room _ _ kind' i' _ _ flushing
      obtain ⟨-, -, same, -⟩ := PollPhase.poll.inj (before.symm.trans flushing)
      obtain ⟨rfl, rfl⟩ := Prod.mk.inj (List.cons.inj same).1
      exact room
  rw [emptied]
  have others : ∀ kind' k, (kind', k) ≠ (kind, i) →
      ((m.setQueue kind i s q).setPhase s (.poll true 0 rest .process)).queue kind' k s =
        m.queue kind' k s := by
    intro kind' k differ
    refine queue_setQueue_of_ne q ?_
    rintro ⟨rfl, rfl, -⟩
    exact differ rfl
  constructor
  · intro sent
    constructor
    · intro kind' k row differ unlisted'
      have apart : (kind', k) ≠ (kind, i) := fun same => unlisted' (same ▸ List.mem_cons_self)
      rw [← others kind' k apart]
      exact sent kind' k row differ fun listed => unlisted' (List.mem_cons_of_mem _ listed)
    · have left := sent kind i inside outgoing unlisted
      rw [queue_setPhase, queue_setQueue_self] at left
      exact left
  · rintro ⟨sent, left⟩ kind' k row differ unlisted'
    by_cases same : (kind', k) = (kind, i)
    · obtain ⟨rfl, rfl⟩ := Prod.mk.inj same
      rw [queue_setPhase, queue_setQueue_self]
      exact left
    · rw [others kind' k same]
      refine sent kind' k row differ fun listed => ?_
      rcases List.mem_cons.mp listed with here | listed
      · exact same here
      · exact unlisted' listed

/-- What a step of the shard itself does while its call has not got a message. -/
theorem quiet_next {s : Nat} {todo : List (ChannelKind × Nat)} (quiet : m.Quiet s todo)
    (taken : Next m s m') :
    m'.Busy s ∨ ∃ todo', m'.Quiet s todo' ∧
      (m'.SentBut s todo' ↔ m.SentBut s todo ∧ RoomForAll s m (.next s)) := by
  cases quiet with
  | sleeping phase => cases taken <;> simp_all
  | @polling _ stage phase stage_ne valid nodup =>
    cases taken with
    | @skip _ _ kind rest before =>
      obtain ⟨rfl, rfl, rfl, rfl⟩ := PollPhase.poll.inj (phase.symm.trans before)
      refine .inr ⟨rest, .polling (phase_setPhase_self s _) (by simp)
        ⟨fun round listed => valid.1 round (List.mem_cons_of_mem _ listed), by simp⟩
        (List.nodup_cons.mp nodup).2, ?_⟩
      have vacuous : RoomForAll s m (.next s) := by
        intro _ _ _ _ _ _ flushing
        simp [before] at flushing
      simp only [vacuous, and_true]
      constructor
      · intro sent kind' i row differ unlisted
        exact sent kind' i row differ fun listed => unlisted (List.mem_cons_of_mem _ listed)
      · intro sent kind' i row differ unlisted
        refine sent kind' i row differ fun listed => ?_
        rcases List.mem_cons.mp listed with same | listed
        · exact differ (Prod.mk.inj same).2
        · exact unlisted listed
    | popFirst before differ popped =>
      left
      simp [Busy]
    | @empty _ _ kind i rest before differ =>
      obtain ⟨rfl, rfl, rfl, rfl⟩ := PollPhase.poll.inj (phase.symm.trans before)
      refine .inr ⟨_, .polling (phase_setPhase_self s _) (by simp)
        ⟨valid.1, by simpa using Ne.symm differ⟩ nodup, ?_⟩
      have vacuous : RoomForAll s m (.next s) := by
        intro _ _ _ _ _ _ flushing
        simp [before] at flushing
      simp only [vacuous, and_true]
      exact Iff.rfl
    | popRest before popped =>
      obtain ⟨-, -, -, rfl⟩ := PollPhase.poll.inj (phase.symm.trans before)
      exact absurd rfl stage_ne
    | handle stage before handled =>
      obtain ⟨-, -, -, rfl⟩ := PollPhase.poll.inj (phase.symm.trans before)
      exact absurd rfl stage_ne
    | @flush _ _ kind i rest q before flushed =>
      obtain ⟨rfl, rfl, rfl, rfl⟩ := PollPhase.poll.inj (phase.symm.trans before)
      obtain ⟨unlisted, nodup⟩ := List.nodup_cons.mp nodup
      refine .inr ⟨rest, .polling (phase_setPhase_self s _) (by simp)
        ⟨fun round listed => valid.1 round (List.mem_cons_of_mem _ listed), by simp⟩ nodup, ?_⟩
      exact sentBut_flush before flushed unlisted (valid.1 (kind, i) (by simp))
        (valid.2 (by simp) (kind, i) (by simp))
    | @finish _ _ stage before =>
      obtain ⟨rfl, rfl, rfl, rfl⟩ := PollPhase.poll.inj (phase.symm.trans before)
      refine .inr ⟨[], .sleeping (by simp), ?_⟩
      have vacuous : RoomForAll s m (.next s) := by
        intro _ _ _ _ _ _ flushing
        simp [before] at flushing
      simp only [vacuous, and_true]
      exact Iff.rfl
    | pureSkip before => simp [before] at phase
    | pureFlush found' todo' before flushed left => simp [before] at phase
    | pureFinish before => simp [before] at phase

theorem busy_next {s : Nat} (busy : m.Busy s) (taken : Next m s m') : m'.Busy s := by
  unfold Busy at busy
  cases taken with
  | skip phase => simpa [phase, Busy] using busy
  | popFirst phase differ popped => simp [Busy]
  | empty phase differ => simpa [phase, Busy] using busy
  | popRest phase popped => simp [Busy, phase]
  | handle stage phase handled => simp [Busy]
  | flush phase flushed => simpa [phase, Busy] using busy
  | @finish entering got _ phase =>
    have stays : ¬ (entering = true ∧ got = 0) := by
      simp only [phase, ne_eq, not_true_eq_false, and_false, or_false] at busy
      rintro ⟨rfl, rfl⟩
      simp at busy
    simp [Busy, stays]
  | pureSkip phase => simp [Busy]
  | pureFlush found' todo' phase flushed left => simp [Busy]
  | pureFinish phase => simp [Busy]

/-- Without a new call of `try_enter_interrupt_mode` a shard that does not enter interrupt mode now
does not do so later. -/
theorem busy_step {s : Nat} {label : SmpLabel α}
    (same_call : ∀ done first, label ≠ .tryEnterInterruptMode s done first) (busy : m.Busy s)
    (taken : m.step label = some m') : m'.Busy s := by
  obtain ⟨enabled, _, done⟩ := step_eq_some taken
  have of_phase : m'.phase s = m.phase s → m'.Busy s := by
    intro phase
    simpa [Busy, phase] using busy
  by_cases destroys : label = .destroy
  · subst destroys
    simp only [Smp.perform, destroy] at done
    split at done
    · cases done
      exact of_phase rfl
    · cases done
  by_cases own : shardOf label = some s
  · cases label with
    | startAllQueues t =>
      cases done
      exact of_phase rfl
    | send t kind target msg urgent =>
      simp only [Smp.perform] at done
      obtain ⟨q, _, rfl⟩ := useTx_eq_ok done
      exact of_phase rfl
    | poll t networkFirst =>
      obtain rfl := Option.some.inj own
      cases done
      simp [Busy]
    | purePoll t networkFirst =>
      obtain rfl := Option.some.inj own
      cases done
      simp [Busy]
    | tryEnterInterruptMode t barrierDone networkFirst =>
      obtain rfl := Option.some.inj own
      exact absurd rfl (same_call _ _)
    | exitInterruptMode t =>
      obtain rfl := Option.some.inj own
      cases done
      simp [Busy]
    | next t =>
      obtain rfl := Option.some.inj own
      exact busy_next busy (next_eq_ok done)
    | destroy => cases own
  · exact of_phase (unaffected_perform own destroys done).phase

theorem Quiet.congr {s : Nat} (same : Unaffected s m m') {todo : List (ChannelKind × Nat)}
    (quiet : m.Quiet s todo) : m'.Quiet s todo := by
  cases quiet with
  | polling phase stage_ne valid nodup =>
    exact .polling (same.phase.trans phase) stage_ne (same.count ▸ valid) nodup
  | sleeping phase => exact .sleeping (same.phase.trans phase)

theorem Quiet.running {s : Nat} {todo : List (ChannelKind × Nat)} (quiet : m.Quiet s todo) :
    m.phase s ≠ .idle ∧ (m.phase s).sends = false := by
  cases quiet with
  | @polling _ stage phase stage_ne valid nodup =>
    rw [phase]
    cases stage <;> simp_all [PollPhase.sends]
  | sleeping phase =>
    rw [phase]
    simp [PollPhase.sends]

/-- One step during a call of `try_enter_interrupt_mode` that has not got a message: the call gets
one, or what it has flushed so far is empty exactly when it was before and the step leaves nothing
behind. -/
theorem quiet_step {s : Nat} {todo : List (ChannelKind × Nat)} {label : SmpLabel α}
    (row : s < m.count) (started : m.started s = true) (quiet : m.Quiet s todo)
    (taken : m.step label = some m') :
    m'.Busy s ∨ ∃ todo', m'.Quiet s todo' ∧ s < m'.count ∧ m'.started s = true ∧
      (m'.SentBut s todo' ↔ m.SentBut s todo ∧ RoomForAll s m label) := by
  obtain ⟨enabled, _, done⟩ := step_eq_some taken
  obtain ⟨running, silent⟩ := quiet.running
  by_cases own : shardOf label = some s
  · cases label with
    | next t =>
      obtain rfl := Option.some.inj own
      have taken := next_eq_ok done
      obtain ⟨count, start⟩ := taken.keeps
      rcases quiet_next quiet taken with busy | ⟨todo', quiet', sent⟩
      · exact .inl busy
      · exact .inr ⟨todo', quiet', count ▸ row, start ▸ started, sent⟩
    | exitInterruptMode t =>
      obtain rfl := Option.some.inj own
      cases done
      simp [Busy]
    | startAllQueues t =>
      obtain rfl := Option.some.inj own
      simp [Smp.enabled, started] at enabled
    | send t kind target msg urgent =>
      obtain rfl := Option.some.inj own
      simp [Smp.enabled, silent] at enabled
    | poll t networkFirst =>
      obtain rfl := Option.some.inj own
      simp [Smp.enabled, running] at enabled
    | purePoll t networkFirst =>
      obtain rfl := Option.some.inj own
      simp [Smp.enabled, running] at enabled
    | tryEnterInterruptMode t barrierDone networkFirst =>
      obtain rfl := Option.some.inj own
      simp [Smp.enabled, running] at enabled
    | destroy => cases own
  · have kept : label ≠ .destroy := by
      rintro rfl
      simp only [Smp.enabled, List.all_eq_true, List.mem_range, Bool.and_eq_true,
        beq_iff_eq] at enabled
      exact running (enabled s row).2
    have same := unaffected_perform own kept done
    have vacuous : RoomForAll s m label := by
      rintro _ _ _ _ _ rfl
      exact absurd rfl own
    refine .inr ⟨todo, quiet.congr same, same.count ▸ row, same.started.trans started, ?_⟩
    rw [SentBut.congr same]
    simp [vacuous]

theorem not_asleep_of_busy {s : Nat} (labels : List (SmpLabel α))
    (same_call : ∀ done first, .tryEnterInterruptMode s done first ∉ labels) (busy : m.Busy s)
    (ran : run step m labels = some m') : m'.phase s ≠ .interruptMode := by
  induction labels generalizing m with
  | nil =>
    obtain rfl := Option.some.inj ran
    intro asleep
    simp [Busy, asleep] at busy
  | cons label labels ih =>
    obtain ⟨m₁, taken, rest⟩ := run_cons_eq_some.mp ran
    have later : ∀ done first, .tryEnterInterruptMode s done first ∉ labels :=
      fun done first listed => same_call done first (List.mem_cons_of_mem _ listed)
    refine ih later (busy_step (fun done first same => ?_) busy taken) rest
    exact same_call done first (same ▸ List.mem_cons_self)

theorem asleep_of_quiet {s : Nat} (labels : List (SmpLabel α))
    (same_call : ∀ done first, .tryEnterInterruptMode s done first ∉ labels)
    {todo : List (ChannelKind × Nat)} (row : s < m.count) (started : m.started s = true)
    (quiet : m.Quiet s todo) (ran : run step m labels = some m')
    (asleep : m'.phase s = .interruptMode) :
    m'.AllSent s ↔ m.SentBut s todo ∧ StepsMeet step (RoomForAll s) m labels := by
  induction labels generalizing m todo with
  | nil =>
    obtain rfl := Option.some.inj ran
    obtain rfl : todo = [] := by
      cases quiet with
      | polling phase => simp [phase] at asleep
      | sleeping phase => rfl
    simp [AllSent, SentBut, StepsMeet]
  | cons label labels ih =>
    obtain ⟨m₁, taken, rest⟩ := run_cons_eq_some.mp ran
    have later : ∀ done first, .tryEnterInterruptMode s done first ∉ labels :=
      fun done first listed => same_call done first (List.mem_cons_of_mem _ listed)
    rcases quiet_step row started quiet taken with busy | ⟨todo', quiet', row', started', sent⟩
    · exact absurd asleep (not_asleep_of_busy labels later busy rest)
    · rw [ih later row' started' quiet' rest, sent, stepsMeet_cons taken, and_assoc]

theorem rounds_nodup (networkFirst : Bool) : (m.rounds networkFirst).Nodup := by
  have loop : ∀ kind : ChannelKind, ((List.range m.count).map fun i => (kind, i)).Nodup :=
    fun kind => List.nodup_range.map fun i j same => (Prod.mk.inj same).2
  have apart : ∀ kind kind' : ChannelKind, kind ≠ kind' →
      List.Disjoint ((List.range m.count).map fun i => (kind, i))
        ((List.range m.count).map fun i => (kind', i)) := by
    intro kind kind' differ round first second
    obtain ⟨i, _, rfl⟩ := List.mem_map.mp first
    obtain ⟨j, _, same⟩ := List.mem_map.mp second
    exact differ (Prod.mk.inj same).1.symm
  cases networkFirst with
  | false => exact (loop _).append (loop _) (apart _ _ (by simp))
  | true => exact (loop _).append (loop _) (apart _ _ (by simp))

theorem mem_rounds (networkFirst : Bool) (kind : ChannelKind) {i : Nat} (row : i < m.count) :
    (kind, i) ∈ m.rounds networkFirst := by
  cases networkFirst <;> cases kind <;> simp [rounds, row]

/-- In every state of the queues and every interleaving with the other shards, a call of
`try_enter_interrupt_mode` that returns true leaves no message in the deques of the shard exactly
when the ring had room for all at each of its flushes. -/
theorem asleep_all_sent {s : Nat} {networkFirst : Bool} {labels : List (SmpLabel α)}
    (ran : run step m (.tryEnterInterruptMode s true networkFirst :: labels) = some m')
    (same_call : ∀ done first, .tryEnterInterruptMode s done first ∉ labels)
    (asleep : m'.phase s = .interruptMode) :
    m'.AllSent s ↔
      StepsMeet step (RoomForAll s) m (.tryEnterInterruptMode s true networkFirst :: labels) := by
  obtain ⟨m₁, taken, rest⟩ := run_cons_eq_some.mp ran
  obtain ⟨enabled, _, done⟩ := step_eq_some taken
  simp only [Smp.enabled, Bool.and_eq_true, decide_eq_true_eq] at enabled
  cases done
  have quiet : (m.setPhase s (.poll true 0 (m.rounds networkFirst) .process)).Quiet s
      (m.rounds networkFirst) :=
    .polling (phase_setPhase_self s _) (by simp) ⟨rounds_valid networkFirst, by simp⟩
      (rounds_nodup networkFirst)
  have nothing_sent : (m.setPhase s (.poll true 0 (m.rounds networkFirst) .process)).SentBut s
      (m.rounds networkFirst) :=
    fun kind i row _ unlisted => absurd (mem_rounds networkFirst kind row) unlisted
  have vacuous : RoomForAll s m (.tryEnterInterruptMode s true networkFirst) := by
    rintro _ _ _ _ _ ⟨⟩
  simp only [if_true] at taken rest
  rw [asleep_of_quiet (m := m.setPhase s _) labels same_call enabled.1.1 enabled.1.2 quiet rest
    asleep]
  simp only [nothing_sent, true_and, StepsMeet, vacuous, taken, Option.some.injEq, forall_eq']

/-- Shard 0 sends `sends` messages to shard 1, which handles none. -/
def sending (sends : Nat) : List (SmpLabel Nat) :=
  [.startAllQueues 0, .startAllQueues 1] ++ List.replicate sends (.send 0 .local 1 7 false)

/-- Shard 0 of two calls `try_enter_interrupt_mode` and is not disturbed. -/
def entering : List (SmpLabel Nat) :=
  .tryEnterInterruptMode 0 true false :: List.replicate 7 (.next 0)

theorem same_call_entering (done first : Bool) :
    SmpLabel.tryEnterInterruptMode 0 done first ∉ List.replicate 7 (.next 0 : SmpLabel Nat) := by
  simp

theorem sleep_after_sending :
    ∀ sends ∈ [3, 129],
      ((run step (create 2) (sending sends)).bind fun m => run step m entering).any
      (fun m => m.phase 0 == .interruptMode) = true := by
  decide +kernel

/-- Three messages are all in the ring when the shard enters interrupt mode. -/
theorem asleep_all_sent_three :
    ∃ m m' : Smp Nat, run step (create 2) (sending 3) = some m ∧ run step m entering = some m' ∧
      m'.phase 0 = .interruptMode ∧
      (m'.AllSent 0 ↔ StepsMeet step (RoomForAll 0) m entering) := by
  have asleep := sleep_after_sending 3 (by simp)
  simp only [Option.any_eq_true, Option.bind_eq_some_iff, beq_iff_eq] at asleep
  obtain ⟨m', ⟨m, sent, slept⟩, asleep⟩ := asleep
  exact ⟨m, m', sent, slept, asleep, asleep_all_sent slept same_call_entering asleep⟩

/-- The last of 129 messages is left when the shard enters interrupt mode. -/
theorem asleep_with_unsent :
    ¬ ∀ (count : Nat) (first second : List (SmpLabel Nat)) (m m' : Smp Nat) (s : Nat)
      (networkFirst : Bool), run step (create count) first = some m →
      run step m (.tryEnterInterruptMode s true networkFirst :: second) = some m' →
      m'.phase s = .interruptMode → m'.AllSent s := by
  intro all
  have asleep := sleep_after_sending 129 (by simp)
  have left : ((run step (create 2) (sending 129)).bind fun m => run step m entering).any
      (fun m => (m.queue .local 1 0).fifo ≠ []) = true := by
    decide +kernel
  simp only [Option.any_eq_true, Option.bind_eq_some_iff, beq_iff_eq] at asleep
  obtain ⟨m', ⟨m, sent, slept⟩, asleep⟩ := asleep
  simp only [sent, Option.bind_some, slept, Option.any_some, ne_eq, decide_not,
    Bool.not_eq_true', decide_eq_false_iff_not] at left
  have count : m'.count = 2 := by
    have same : ((run step (create 2) (sending 129)).bind fun m => run step m entering).any
        (fun m => m.count == 2) = true := by
      decide +kernel
    simpa [sent, slept] using same
  exact left (all 2 _ _ m m' 0 false sent slept asleep .local 1 (by omega) (by simp))

end Smp

end Hiactor
