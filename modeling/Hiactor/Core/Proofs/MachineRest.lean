import Hiactor.Core.Proofs.MachineShards
import Hiactor.Core.Proofs.Quiescence

/-!
# Machines come to rest

What a machine has to do by itself is measured: the messages of clients that no shard has received,
the work of the shards, their turns, and the way of the messages through the queues. A message that
is received makes work, and work makes responses, which make no work again. The machine cannot go on
for ever without its clients.
-/

namespace Hiactor

open Lib

/-! ## Queues -/

/-- The steps of `process_incoming` that are left. -/
def Incoming.effort {α : Type} : Incoming α → Nat
  | .idle => 0
  | .first _ => 3
  | .loop _ nr i _ => 2 * (nr - i) + 1

namespace MessageQueue

variable {α : Type} {q q' : MessageQueue α}

/-- The way that the messages of a queue have before them. -/
def effort (q : MessageQueue α) : Nat :=
  5 * q.fifo.length + 4 * q.pending.length + q.incoming.effort

theorem effort_flushRequestBatch (waits : q.fifo ≠ []) (room : q.pending.length < queueLength)
    (flushed : q.flushRequestBatch = some q') : q'.effort < q.effort := by
  unfold flushRequestBatch at flushed
  obtain ⟨fifo, tx, moved⟩ := Option.bind_eq_some_iff.mp flushed
  rw [fifo_of_tx tx] at waits
  rw [if_pos waits] at moved
  obtain ⟨nr, -, produces, left, ring, count⟩ := movePending_eq_some moved
  have some_waiting : 0 < q.fifo.length := by
    rw [fifo_of_tx tx]
    exact List.length_pos_iff.mpr waits
  unfold effort
  rw [left, ring, produces.incoming, List.length_drop, List.length_append, List.length_take]
  omega

theorem effort_popFirst (popped : q.popFirst = some q') : q'.effort < q.effort := by
  obtain ⟨tm, idle, ring, first, tx⟩ := popFirst_eq_some popped
  have same : q'.fifo = q.fifo := by rw [fifo, tx, fifo]
  unfold effort
  rw [same, ring, first, idle, List.length_cons]
  show _ + 3 < _ + 0
  omega

theorem effort_popRest (popped : q.popRest = some q') : q'.effort < q.effort := by
  obtain ⟨tm, first, ring, tx, loop⟩ := popRest_eq_some popped
  have same : q'.fifo = q.fifo := by rw [fifo, tx, fifo]
  unfold effort
  rw [same, ring, first, loop, List.length_nil]
  show _ + (2 * (q.pending.length - 0) + 1) < _ + 3
  omega

theorem effort_handleNext {msg : α} (handled : q.handleNext = some (msg, q')) :
    q'.effort < q.effort := by
  obtain ⟨messages, nr, i, next, loop, read, ring, tx, incoming⟩ := handleNext_eq_some handled
  have same : q'.fifo = q.fifo := by rw [fifo, tx, fifo]
  unfold effort
  rw [same, ring, loop, incoming]
  refine Nat.add_lt_add_left ?_ _
  split
  · show 2 * (nr - (i + 1)) + 1 < 2 * (nr - i) + 1
    omega
  · exact Nat.succ_pos _

end MessageQueue

/-! ## Shards -/

namespace Shard

variable {s s' : Shard} {points points' : Finset Path}

theorem work_of_within (within : Within points s.objs) (within' : Within points' s.objs) :
    s.work points = s.work points' := by
  unfold work
  rw [total_eq_of_within within within']

theorem turns_of_within (within : Within points s.objs) (within' : Within points' s.objs) :
    s.turns points = s.turns points' := by
  unfold turns queueTurns
  rw [total_eq_of_within (within_ready within) (within_ready within')]

/-- A step that a shard takes by itself, measured where the shard then is. -/
theorem WorkQueued.lessens {label : Label} (inv : WorkQueued s.points s)
    (own : label.bringsWork = false) (taken : s.step label = some s')
    (inv' : WorkQueued s'.points s') :
    s'.work s'.points < s.work s.points ∨
      s'.work s'.points = s.work s.points ∧ s'.turns s'.points < s.turns s.points := by
  obtain ⟨same, less⟩ := inv.decreases own taken
  rw [work_of_within inv'.within same.within, turns_of_within inv'.within same.within]
  exact Prod.Lex.toLex_lt_toLex.mp less

end Shard

namespace Machine

variable {m m' : Machine} {i dst src : Nat} {msg : Envelope} {limitOf : ActorKey → Nat}

/-- The steps that a machine takes by itself. A flush is one of them when it moves messages. -/
def Own (m : Machine) : Label → Prop
  | .act _ act => act.bringsWork = false
  | .flush dst src => (m.channel.qs dst src).fifo ≠ [] ∧
      (m.channel.qs dst src).pending.length < queueLength
  | .popFirst .. | .popRest .. | .handle .. => True
  | .request .. | .tell .. | .continuation _ => False

/-- The limits of actors are changed by the actors alone. -/
def LimitsItself (m : Machine) : Label → Prop
  | .act i act => (m.shards i).LimitsItself act
  | _ => True

/-! ## Measures -/

def queues (m : Machine) : Finset (Nat × Nat) := Finset.range m.count ×ˢ Finset.range m.count

theorem mem_queues : (dst, src) ∈ m.queues ↔ dst < m.count ∧ src < m.count := by
  simp [queues]

/-- The messages of clients that are in queues. -/
def unreceived (m : Machine) : Nat := ∑ q ∈ m.queues, (m.pending q.1 q.2).length

def work (m : Machine) : Nat :=
  ∑ i ∈ Finset.range m.count, (m.shards i).work (m.shards i).points

def turns (m : Machine) : Nat :=
  ∑ i ∈ Finset.range m.count, (m.shards i).turns (m.shards i).points

def effort (m : Machine) : Nat := ∑ q ∈ m.queues, (m.channel.qs q.1 q.2).effort

def toDo (m : Machine) : Nat ×ₗ Nat ×ₗ Nat ×ₗ Nat :=
  toLex (m.unreceived, toLex (m.work, toLex (m.turns, m.effort)))

theorem unreceived_congr (count : m'.count = m.count) (pending : m'.pending = m.pending) :
    m'.unreceived = m.unreceived := by
  unfold unreceived queues
  rw [count, pending]

theorem unreceived_lt (count : m'.count = m.count) (inside : dst < m.count ∧ src < m.count)
    (others : ∀ k l, ¬ (k = dst ∧ l = src) → m'.pending k l = m.pending k l)
    (less : (m'.pending dst src).length < (m.pending dst src).length) :
    m'.unreceived < m.unreceived := by
  unfold unreceived
  rw [show m'.queues = m.queues from by unfold queues; rw [count]]
  refine sum_lt_of_one (mem_queues.mpr inside) (fun ⟨k, l⟩ other => ?_) less
  rw [others k l fun ⟨row, column⟩ => other (Prod.ext row column)]

theorem effort_lt {q : MessageQueue Envelope} (inside : dst < m.count ∧ src < m.count)
    (less : q.effort < (m.channel.qs dst src).effort) :
    effort { m with channel := m.channel.set dst src q } < m.effort := by
  refine sum_lt_of_one (mem_queues.mpr inside) (fun ⟨k, l⟩ other => ?_) ?_
  · show ((m.channel.set dst src q).qs k l).effort = _
    rw [qs_set, if_neg fun ⟨row, column⟩ => other (Prod.ext row column)]
  · show ((m.channel.set dst src q).qs dst src).effort < _
    rw [qs_set, if_pos ⟨rfl, rfl⟩]
    exact less

theorem toDo_of_unreceived (less : m'.unreceived < m.unreceived) : m'.toDo < m.toDo :=
  Prod.Lex.toLex_lt_toLex.mpr (.inl less)

theorem toDo_of_work (unreceived : m'.unreceived = m.unreceived) (less : m'.work < m.work) :
    m'.toDo < m.toDo :=
  Prod.Lex.toLex_lt_toLex.mpr (.inr ⟨unreceived, Prod.Lex.toLex_lt_toLex.mpr (.inl less)⟩)

theorem toDo_of_turns (unreceived : m'.unreceived = m.unreceived) (work : m'.work = m.work)
    (less : m'.turns < m.turns) : m'.toDo < m.toDo :=
  Prod.Lex.toLex_lt_toLex.mpr (.inr ⟨unreceived, Prod.Lex.toLex_lt_toLex.mpr
    (.inr ⟨work, Prod.Lex.toLex_lt_toLex.mpr (.inl less)⟩)⟩)

theorem toDo_of_effort (unreceived : m'.unreceived = m.unreceived) (count : m'.count = m.count)
    (shards : m'.shards = m.shards) (less : m'.effort < m.effort) : m'.toDo < m.toDo := by
  have work : m'.work = m.work := by
    unfold Machine.work
    rw [count, shards]
  have turns : m'.turns = m.turns := by
    unfold Machine.turns
    rw [count, shards]
  exact Prod.Lex.toLex_lt_toLex.mpr (.inr ⟨unreceived, Prod.Lex.toLex_lt_toLex.mpr
    (.inr ⟨work, Prod.Lex.toLex_lt_toLex.mpr (.inr ⟨turns, less⟩)⟩)⟩)

/-! ## Steps -/

/-- The work of all shards is queued, and the messages between them are in order. -/
structure ShardsQueued (limitOf : ActorKey → Nat) (m : Machine) : Prop where
  mailed : Mailed limitOf m
  ordered : Ordered (fun _ _ => []) m
  queued : ∀ i, Shard.WorkQueued (m.shards i).points (m.shards i)

theorem ShardsQueued.step {label : Label} (all : ShardsQueued limitOf m)
    (limits : m.LimitsItself label)
    (taken : m.step label = some m') : ShardsQueued limitOf m' where
  mailed := (all.mailed.step taken).1
  ordered := all.ordered.step all.mailed taken
  queued := by
    refine (proceeds_step all.mailed all.ordered taken).keeps
      (fun s => Shard.WorkQueued s.points s) all.queued ?_
    rintro j act s causes moved inv
    rcases causes with own | ⟨src, msg, -, received⟩
    · subst own
      exact inv.next limits moved
    · have limits : (m.shards j).LimitsItself (Envelope.received msg) := trivial
      exact inv.next limits (received ▸ moved)

theorem Own.limitsItself {label : Label} (own : m.Own label) : m.LimitsItself label := by
  cases label with
  | act i act =>
    cases act with
    | setMaxConcurrency => cases own
    | _ => trivial
  | _ => trivial

/-- A shard takes a step of its own. -/
theorem toDo_settles {act : Shard.Label} (inside : i < m.count) (settles : Settles m m' i act)
    (all : ShardsQueued limitOf m) (all' : ShardsQueued limitOf m') (own : act.bringsWork = false) :
    m'.toDo < m.toDo := by
  have unreceived := unreceived_congr settles.count settles.pending
  have listed : i ∈ Finset.range m.count := Finset.mem_range.mpr inside
  rcases (all.queued i).lessens own settles.taken (all'.queued i) with
    worked | ⟨same, turned⟩
  · refine toDo_of_work unreceived ?_
    unfold work
    rw [settles.count]
    exact sum_lt_of_one listed (fun j other => by rw [settles.others j other]) worked
  · refine toDo_of_turns unreceived ?_ ?_
    · unfold work
      rw [settles.count]
      refine Finset.sum_congr rfl fun j _ => ?_
      by_cases here : j = i
      · exact here ▸ same
      · rw [settles.others j here]
    · unfold turns
      rw [settles.count]
      exact sum_lt_of_one listed (fun j other => by rw [settles.others j other]) turned

/-- Messages move towards the consumer of a queue. -/
theorem toDo_onQueue {f : MessageQueue Envelope → Option (MessageQueue Envelope)}
    (moved : m.onQueue dst src f = some m')
    (contents : ∀ q, f (m.channel.qs dst src) = some q →
      q.contents = (m.channel.qs dst src).contents)
    (less : ∀ q, f (m.channel.qs dst src) = some q →
      q.effort < (m.channel.qs dst src).effort) : m'.toDo < m.toDo := by
  obtain ⟨inside, q, result, rfl⟩ := onQueue_eq_some moved
  refine toDo_of_effort (unreceived_congr rfl ?_) rfl rfl
    (effort_lt ⟨inside.1, inside.2.1⟩ (less q result))
  funext k l
  rw [pending_set]
  split
  · next here =>
    obtain ⟨rfl, rfl⟩ := here
    rw [contents q result]
    rfl
  · rfl

theorem toDo_handle (all : ShardsQueued limitOf m) (handled : m.handle dst src = some m') :
    m'.toDo < m.toDo := by
  obtain ⟨inside, msg, q, next, received⟩ := handle_eq_some handled
  let t : Machine := { m with channel := m.channel.set dst src q }
  have contents : m.onWay dst src = msg :: q.contents :=
    (MessageQueue.contents_handleNext next (all.mailed.inBounds dst src)).1
  have here : m.pending dst src =
      [msg].filter (fun msg => !msg.isResponse) ++ t.pending dst src := by
    rw [pending_set, if_pos ⟨rfl, rfl⟩, Machine.pending, contents, ← List.filter_append]
    rfl
  have others (k l : Nat) (other : ¬ (k = dst ∧ l = src)) : t.pending k l = m.pending k l := by
    rw [pending_set, if_neg other]
  rcases keeps_receive received with ⟨response, rfl⟩ | ⟨call, settles⟩
  · have keeps : Keeps t (t.respond dst msg) := keeps_respond
    have sends : Sends t (t.respond dst msg) := sends_respond
    have channel : (t.respond dst msg).channel = t.channel := by
      unfold Machine.respond
      simp only
      split
      · rfl
      · rfl
    refine toDo_of_effort (unreceived_congr sends.count ?_) sends.count keeps.shards ?_
    · rw [keeps.pending]
      funext k l
      by_cases same : k = dst ∧ l = src
      · obtain ⟨rfl, rfl⟩ := same
        rw [here, List.filter_cons_of_neg (by simp [response])]
        rfl
      · exact others k l same
    · unfold effort queues
      rw [sends.count, channel]
      exact effort_lt ⟨inside.1, inside.2.1⟩ (MessageQueue.effort_handleNext next)
  · refine toDo_of_unreceived (unreceived_lt settles.count ⟨inside.1, inside.2.1⟩ ?_ ?_)
    · intro k l other
      rw [settles.pending]
      exact others k l other
    · rw [settles.pending, here, List.filter_cons_of_pos (by simp [call])]
      exact Nat.lt_succ_self _

theorem ShardsQueued.decreases {label : Label} (all : ShardsQueued limitOf m) (own : m.Own label)
    (taken : m.step label = some m') : ShardsQueued limitOf m' ∧ m'.toDo < m.toDo := by
  have all' := all.step own.limitsItself taken
  refine ⟨all', ?_⟩
  cases label with
  | request | tell | continuation => cases own
  | act i act =>
    obtain ⟨inside, settles⟩ := settles_act taken
    exact toDo_settles inside settles all all' own
  | flush dst src =>
    exact toDo_onQueue taken
      (fun _ done => (MessageQueue.contents_flushRequestBatch done).1)
      fun _ done => MessageQueue.effort_flushRequestBatch own.1 own.2 done
  | popFirst dst src =>
    exact toDo_onQueue taken (fun _ done => (MessageQueue.contents_popFirst done).1)
      fun _ done => MessageQueue.effort_popFirst done
  | popRest dst src =>
    exact toDo_onQueue taken (fun _ done => (MessageQueue.contents_popRest done).1)
      fun _ done => MessageQueue.effort_popRest done
  | handle dst src => exact toDo_handle all taken

theorem shardsQueued_of_run {count : Nat} {labels : List Label}
    (limits : StepsMeet step LimitsItself (init count limitOf) labels)
    (ran : run step (init count limitOf) labels = some m) : ShardsQueued limitOf m :=
  run_invariant_of_meets (ShardsQueued limitOf) (fun _ _ _ all met taken => all.step met taken)
    labels _ m ⟨mailed_init count, ordered_init count, fun _ => Shard.workQueued_init limitOf⟩
      limits
    ran

instance (m : Machine) (label : Label) : Decidable (m.LimitsItself label) :=
  match label with
  | .act i act => inferInstanceAs (Decidable ((m.shards i).LimitsItself act))
  | .request .. | .tell .. | .flush .. | .popFirst .. | .popRest .. | .handle ..
  | .continuation _ => isTrue trivial

theorem ShardsQueued.not_endless (all : ShardsQueued limitOf m) : ¬ Endless Machine.step Own m :=
  Lib.not_endless (fun _ _ _ all own taken => ShardsQueued.decreases all own taken) all

/-- A machine that its clients give nothing more settles down: from a state that a run reaches, in
which limits were changed by their actors alone, no endless sequence of steps of its shards, their
flushes that move messages and their pollers starts. -/
theorem settles_down {count : Nat} {labels : List Label}
    (limits : StepsMeet step LimitsItself (init count limitOf) labels)
    (ran : run step (init count limitOf) labels = some m) : ¬ Endless step Own m :=
  (shardsQueued_of_run limits ran).not_endless

/-- Clients of two shards have sent to an actor and to a scope of the other shard, and one of the
two messages has been taken out of its ring. -/
def crossedRun : List Label :=
  [.request 0 1 [Shard.workerKey] .user, .tell 1 0 [Shard.scopeKey] .peaceStop, .flush 1 0,
    .popFirst 1 0]

def crossedEnd : Machine := (run step (init 2 fun _ => 1) crossedRun).get (by decide)

theorem crossed_settles_down :
    crossedEnd.pending 1 0 ≠ [] ∧ crossedEnd.pending 0 1 ≠ [] ∧ ¬ Endless step Own crossedEnd := by
  have limits : StepsMeet step LimitsItself (init 2 fun _ => 1) crossedRun := by decide
  exact ⟨by decide, by decide, settles_down limits (Option.some_get (by decide)).symm⟩

end Machine

end Hiactor
