import Hiactor.Core.Proofs.MachineAccounts

/-!
# Runs of a machine

Every step of a machine keeps the messages genuine and the books right, so that the promise tables
are those of a run of `Cluster`. What the layers say each of its own then holds from end to end: a
client is given the response to its own request, by the object that it asked.
-/

namespace Hiactor

open Lib

namespace Machine

variable {m m' : Machine} {i dst src : Nat} {msg : Envelope} {limitOf : ActorKey → Nat} {b : Books}

/-- What the shards have done. -/
def logs (m : Machine) (i : Nat) : List Event := (m.shards i).log

theorem Sends.logs (sends : Sends m m') : m'.logs = m.logs :=
  funext fun i => congrArg (fun shards => (shards i).log) sends.shards

theorem logs_settle {m₁ : Machine} {s : Shard} {events : List Event} (records : Records m m₁ i s)
    (ran : events.foldlM (follow i) (m₁.installed i s) = some m') :
    m'.logs = Function.update m.logs i ((m₁.installed i s).shards i).log := by
  have mine : (m₁.installed i s).shards i = s := Function.update_self ..
  rw [(sends_foldlM ran).logs, mine]
  funext j
  show (Function.update m₁.shards i s j).log = _
  rw [records.shards, Function.update_apply, Function.update_apply]
  split
  · rfl
  · rfl

/-- The objects of a shard take a step and the responses are sent. -/
theorem Accounted.settle {m₁ : Machine} {s : Shard} {label : Shard.Label}
    (accounted : Accounted m.logs b m₁) (mailed : Mailed limitOf m) (records : Records m m₁ i s)
    (taken : (m.shards i).step label = some s) (brings : (m.shards i).Brings (m₁.known i) label)
    (settled : m₁.settle i s = some m') : ∃ b', Accounted m'.logs b' m' := by
  have valid := Shard.valid_of_reachable (mailed.shards i)
  have done := settle_eq_some settled
  have mine : (m₁.installed i s).shards i = s := Function.update_self ..
  obtain ⟨b', final⟩ := (accounted.install s).foldlM (mailed.install records taken brings) (by
    rw [mine, records.shards]
    exact (List.prefix_iff_eq_append.mp (Shard.log_step valid taken))) done
  refine ⟨b', ?_⟩
  rw [logs_settle records done]
  exact final

theorem Accounted.receive (accounted : Accounted m.logs b m) (mailed : Mailed limitOf m)
    (fine : m.Issued i msg ∨ ∃ src dst, m.Genuine src dst msg) (ready : m.Ready b i msg)
    (received : m.receive i msg = some m') : ∃ b', Accounted m'.logs b' m' := by
  unfold Machine.receive at received
  split at received
  · next response =>
    obtain rfl := Option.some.inj received
    rw [(sends_respond (m := m)).logs]
    obtain ⟨src, dst, genuine⟩ := fine.resolve_left fun issued => by
      rw [issued.1] at response
      cases response
    cases name : msg.request with
    | none =>
      rw [accounted.respond_none (mailed.prId_eq_zero genuine name)]
      exact ⟨b, accounted⟩
    | some w =>
      obtain ⟨gone, -, known⟩ := ready w name
      rw [if_pos response] at known
      obtain ⟨exception, answer⟩ := known
      exact accounted.respond name gone answer
  · next call =>
    have issued : m.Issued i msg := fine.resolve_right fun ⟨src, dst, genuine⟩ =>
      call genuine.isResponse
    obtain ⟨s, taken, settled⟩ := Option.bind_eq_some_iff.mp received
    obtain ⟨b', recorded⟩ := accounted.record ready issued.1
    exact recorded.settle mailed (records_record mailed issued (nextMid_receive taken)) taken
      (brings_record issued) settled

theorem Accounted.send (accounted : Accounted m.logs b m) (mailed : Mailed limitOf m)
    (issued : m.Issued dst msg) (ready : m.Ready b dst msg) (sent : m.send i dst msg = some m') :
    ∃ b', Accounted m'.logs b' m' := by
  have noted : Accounted (m.note i dst msg).logs b (m.note i dst msg) :=
    accounted.of_same accounted.follows rfl rfl rfl rfl rfl
  unfold Machine.send at sent
  split at sent
  · next here =>
    subst here
    exact noted.receive mailed.note (.inl issued) ready sent
  · rw [(sends_post sent).logs]
    exact noted.post ready sent

/-- A client acquires a slot for a message that it is about to send. -/
theorem Accounted.issue {logs : Nat → List Event} (accounted : Accounted logs b m) (dst : Nat)
    (msg : Envelope) (uncancelled : Cluster.RequestsUncancelled m.tables (.request i))
    (asker : msg.srcShardId = i) (slot : msg.prId = (m.tables.managers i).acquirePr.2)
    (name : msg.request = some m.tables.requests.length) (call : msg.isResponse = false) :
    ∃ b', Accounted logs b'
        { m with tables := m.tables.request i, calls := m.calls ++ [(dst, msg)] } ∧
      Machine.Ready { m with tables := m.tables.request i, calls := m.calls ++ [(dst, msg)] } b' dst
        msg := by
  let w := m.tables.requests.length
  let m₁ : Machine := { m with tables := m.tables.request i, calls := m.calls ++ [(dst, msg)] }
  let b' : Books := { b with asked := b.asked ++ [w] }
  have requested : (m.view b).step (.request i) = some (m₁.view b') := rfl
  have follows : Cluster.RequestsUncancelled (m.view b) (.request i) := uncancelled
  have length : m₁.tables.requests.length = w + 1 := by
    rw [← Cluster.length_addresses, Cluster.addresses_request, List.length_append,
      Cluster.length_addresses]
    rfl
  have free : b.place w = .nowhere := accounted.fresh w le_rfl
  refine ⟨b', ⟨accounted.follows.step follows requested, ?_, accounted.once, accounted.onWay,
    accounted.mail, fun v beyond => accounted.fresh v ?_,
    fun v isOpen => List.mem_append_left _ (accounted.asked v isOpen), accounted.back, ?_⟩,
    fun v mine => ?_⟩
  · show (m.tables.request i).addresses = (m.calls ++ [(dst, msg)]).map _
    rw [Cluster.addresses_request, accounted.calls, List.map_append, List.map_singleton, asker,
      slot]
  · rw [length] at beyond
    exact (Nat.le_succ w).trans beyond
  · refine accounted.settled.mono rfl (length ▸ Nat.le_succ w) fun v below open' => ?_
    rcases List.mem_append.mp open' with asked | answered
    · rcases List.mem_append.mp asked with old | new
      · exact List.mem_append_left _ old
      · exact absurd (List.mem_singleton.mp new) below.ne
    · exact List.mem_append_right _ answered
  · obtain rfl := Option.some.inj (name.symm.trans mine)
    refine ⟨free, by rw [length]; exact Nat.lt_succ_self w, ?_⟩
    rw [call]
    exact List.mem_append_right _ (List.mem_singleton.mpr rfl)

/-! ## Steps -/

/-- Messages are moved towards the consumer of a queue. -/
theorem Accounted.onQueue (accounted : Accounted m.logs b m) (mailed : Mailed limitOf m)
    {f : MessageQueue Envelope → Option (MessageQueue Envelope)}
    (same : ∀ q q', q.InBounds → f q = some q' → q'.contents = q.contents)
    (moved : m.onQueue dst src f = some m') : ∃ b', Accounted m'.logs b' m' := by
  refine ⟨b, ?_⟩
  unfold Machine.onQueue at moved
  split at moved
  · obtain ⟨c, modified, rfl⟩ := Option.map_eq_some_iff.mp moved
    obtain ⟨q, result, rfl⟩ := modify_eq_some modified
    refine accounted.of_same accounted.follows ?_ rfl rfl rfl rfl
    funext k l
    rw [onWay_set]
    split
    · next here =>
      obtain ⟨rfl, rfl⟩ := here
      exact same _ q (mailed.inBounds k l) result
    · rfl
  · cases moved

theorem Accounted.handle (accounted : Accounted m.logs b m) (mailed : Mailed limitOf m)
    (handled : m.handle dst src = some m') : ∃ b', Accounted m'.logs b' m' := by
  unfold Machine.handle at handled
  split at handled
  · split at handled
    · next msg q next =>
      obtain ⟨first, left, fine⟩ := mailed.handleNext next
      obtain ⟨b', taken, ready⟩ := accounted.take first
      exact taken.receive left (fine.imp_right fun genuine => ⟨src, dst, genuine⟩) ready handled
    · cases handled
  · cases handled

theorem Accounted.request (accounted : Accounted m.logs b m) (mailed : Mailed limitOf m)
    {addr : List ActorKey} {type : MessageType}
    (uncancelled : Cluster.RequestsUncancelled m.tables (.request i))
    (requested : m.request i dst addr type = some m') : ∃ b', Accounted m'.logs b' m' := by
  unfold Machine.request at requested
  simp only at requested
  split at requested
  · next can =>
    obtain ⟨-, -, -, isCall, wellFormed⟩ := can
    have call := isResponse_of_isCall isCall
    obtain ⟨b', issued, ready⟩ := accounted.issue dst (m.requestEnvelope i addr type)
      uncancelled rfl rfl rfl call
    obtain ⟨issues, fine, -⟩ := mailed.issue (i := i) dst (m.requestEnvelope i addr type)
      call wellFormed rfl
    exact issued.send issues fine ready requested
  · cases requested

theorem Accounted.tell (accounted : Accounted m.logs b m) (mailed : Mailed limitOf m)
    {addr : List ActorKey} {type : MessageType} (told : m.tell i dst addr type = some m') :
    ∃ b', Accounted m'.logs b' m' := by
  unfold Machine.tell at told
  simp only at told
  split at told
  · next can =>
    obtain ⟨-, -, -, isCall, wellFormed⟩ := can
    have fine : m.Issued dst (oneWayEnvelope i addr type) :=
      ⟨isResponse_of_isCall isCall, wellFormed, .inl ⟨rfl, rfl⟩⟩
    refine accounted.send mailed fine (fun w name => ?_) told
    cases name
  · cases told

theorem Accounted.act (accounted : Accounted m.logs b m) (mailed : Mailed limitOf m)
    {label : Shard.Label} (acted : m.act i label = some m') : ∃ b', Accounted m'.logs b' m' := by
  have steps (brings : (m.shards i).Brings (m.known i) label)
      (went : (if i < m.count then ((m.shards i).step label).bind (m.settle i) else none) =
        some m') : ∃ b', Accounted m'.logs b' m' := by
    split at went
    · obtain ⟨s, taken, settled⟩ := Option.bind_eq_some_iff.mp went
      exact accounted.settle mailed .refl taken brings settled
    · cases went
  cases label with
  | receive => cases acted
  | _ => exact steps trivial acted

theorem Accounted.continuation (accounted : Accounted m.logs b m) {w : Nat}
    (continued : m.step (.continuation w) = some m') : ∃ b', Accounted m'.logs b' m' := by
  obtain ⟨tables, taken, rfl⟩ := Option.map_eq_some_iff.mp continued
  refine ⟨b, ?_⟩
  have viewed : (m.view b).step (.continuation w) =
      some (view { m with tables := tables } b) := by
    obtain ⟨r, found, ready, unfinished, rfl⟩ := Cluster.continuation_eq_some taken
    show Cluster.continuation _ w = _
    unfold Cluster.continuation
    have known : (m.view b).requests[w]? = some r := found
    simp only [known, ready, unfinished]
    rfl
  exact accounted.of_same (accounted.cluster viewed fun _ => trivial) rfl rfl rfl rfl
    (Cluster.addresses_continuation taken)

/-- A client asks on a shard only if no request of that shard has been cancelled by
`stop_actor_system`. -/
def RequestsUncancelled (m : Machine) : Label → Prop
  | .request i _ _ _ => Cluster.RequestsUncancelled m.tables (.request i)
  | _ => True

theorem Accounted.step (accounted : Accounted m.logs b m) (mailed : Mailed limitOf m)
    {label : Label} (uncancelled : m.RequestsUncancelled label) (taken : m.step label = some m') :
    ∃ b', Accounted m'.logs b' m' := by
  cases label with
  | request i dst addr type => exact accounted.request mailed uncancelled taken
  | tell i dst addr type => exact accounted.tell mailed taken
  | act i label => exact accounted.act mailed taken
  | flush dst src =>
    exact accounted.onQueue mailed
      (fun _ _ _ done => (MessageQueue.contents_flushRequestBatch done).1) taken
  | popFirst dst src =>
    exact accounted.onQueue mailed (fun _ _ _ done => (MessageQueue.contents_popFirst done).1) taken
  | popRest dst src =>
    exact accounted.onQueue mailed (fun _ _ _ done => (MessageQueue.contents_popRest done).1) taken
  | handle dst src => exact accounted.handle mailed taken
  | continuation w => exact accounted.continuation taken

theorem accounted_init (count : Nat) : Accounted (init count limitOf).logs
    ⟨fun _ => .nowhere, [], []⟩ (init count limitOf) := by
  refine ⟨reachedBy_refl .., rfl, fun dst src => ?_, ?_, ?_, fun _ _ => rfl, ?_, ?_, ?_, ?_⟩
  · rw [onWay_init]
    exact List.nodup_nil
  · intro dst src msg member
    rw [onWay_init] at member
    cases member
  · intro i mid msg w received
    cases received
  · intro w isOpen
    cases isOpen
  · intro dst src msg member
    rw [onWay_init] at member
    cases member
  · intro o member
    cases member
  · exact List.nodup_nil

theorem accounted_of_run {count : Nat} {labels : List Label}
    (uncancelled : StepsMeet step RequestsUncancelled (init count limitOf) labels)
    (ran : run step (init count limitOf) labels = some m) : ∃ b, Accounted m.logs b m := by
  refine (run_invariant_of_meets (fun m => Mailed limitOf m ∧ ∃ b, Accounted m.logs b m) ?_ labels
    _ m ⟨mailed_init count, _, accounted_init count⟩ uncancelled ran).2
  rintro m label m' ⟨mailed, b, accounted⟩ meets taken
  exact ⟨(mailed.step taken).1, accounted.step mailed meets taken⟩

instance (m : Machine) (label : Label) : Decidable (m.RequestsUncancelled label) :=
  match label with
  | .request i _ _ _ =>
    inferInstanceAs (Decidable (∀ r ∈ m.tables.resolutions, r.cause = .stop → r.shard ≠ i))
  | .tell .. | .act .. | .flush .. | .popFirst .. | .popRest .. | .handle .. | .continuation _ =>
    isTrue trivial

/-! ## Responses -/

/-- Shard `dst` has received `call` and sent the response `msg` to it: the object at the address
has, or the root has refused the message. -/
def Answered (m : Machine) (dst : Nat) (call msg : Envelope) : Prop :=
  ∃ mid q exception, m.received dst mid = some call ∧
    .sent q ⟨mid, call.srcShardId, call.prId, exception⟩ ∈ (m.shards dst).log ∧
    (q = call.addr.reverse ∨ q = [] ∧ exception = true) ∧
    msg.type = if exception then .exceptionResponse else .response

theorem answered_of_genuine {w : Nat} (mailed : Mailed limitOf m)
    (genuine : m.Genuine src dst msg) (name : msg.request = some w) :
    ∃ call, m.calls[w]? = some (src, call) ∧ m.Answered src call msg := by
  obtain ⟨q, r, sent, slot, -, type, -,
      ⟨-, nobody⟩ | ⟨orig, received, same, asker, prId, sender⟩⟩ :=
    genuine
  · rw [nobody] at name
    cases name
  · obtain ⟨-, -, -, -, ⟨nobody, -⟩ | ⟨v, mine, call⟩⟩ := mailed.received src r.mid orig received
    · rw [same, nobody] at name
      cases name
    · obtain rfl := Option.some.inj (mine.symm.trans (same.symm.trans name))
      refine ⟨orig, call, r.mid, q, r.exception, received, ?_, sender, type⟩
      rw [asker, prId, ← slot]
      exact sent

/-- The response that a client is given. -/
theorem answered_of_outcome (mailed : Mailed limitOf m) (accounted : Accounted m.logs b m)
    {o : Option Nat × Envelope} (given : o ∈ m.outcomes) :
    ∃ w dst call, o.1 = some w ∧ o.2.request = some w ∧ m.calls[w]? = some (dst, call) ∧
      m.Answered dst call o.2 := by
  obtain ⟨src, asker, genuine⟩ := mailed.outcomes o given
  obtain ⟨w, waiter, name, -⟩ := accounted.settled.matched o given
  obtain ⟨call, here, answered⟩ := answered_of_genuine mailed genuine name
  exact ⟨w, src, call, waiter, name, here, answered⟩

/-- In every run of a machine that issues no request on a shard whose promises were cancelled, the
promise tables go through a run of `Cluster`, no client is given a second response, and the response
that a client is given is the one that the object at the address of its own request has sent, or
the refusal of the shard. -/
theorem responses_of_run {count : Nat} {labels : List Label}
    (uncancelled : StepsMeet step RequestsUncancelled (init count limitOf) labels)
    (ran : run step (init count limitOf) labels = some m) :
    (∃ asked answers, ReachedBy Cluster.step Cluster.RequestsUncancelled {}
      (m.tables.withBags asked answers)) ∧
    (m.outcomes.map (·.1)).Nodup ∧
    ∀ o ∈ m.outcomes, ∃ w dst call, o.1 = some w ∧ o.2.request = some w ∧
      m.calls[w]? = some (dst, call) ∧ m.Answered dst call o.2 := by
  have mailed := mailed_of_reachable ⟨labels, ran⟩
  obtain ⟨b, accounted⟩ := accounted_of_run uncancelled ran
  exact ⟨⟨b.asked, b.answers, accounted.follows⟩, accounted.settled.once,
    fun o given => answered_of_outcome mailed accounted given⟩

/-- The queue from shard `src` to shard `dst` is emptied of one message. -/
def carry (dst src : Nat) : List Label :=
  [.flush dst src, .popFirst dst src, .popRest dst src, .handle dst src]

/-- A client of shard 0 asks an actor on shard 1. -/
def askRun : List Label :=
  [.request 0 1 [Shard.workerKey] .user] ++ carry 1 0 ++
    [.act 1 (.dispatch 0), .act 1 (.advance false 0), .act 1 (.advance false 0),
      .act 1 (.workDone (some false) .no)] ++ carry 0 1 ++ [.continuation 0]

def askEnd : Machine := (run step (init 2 fun _ => 1) askRun).get (by decide)

theorem ask_answered : ∃ w dst call, some 0 = some w ∧ some 0 = some w ∧
    askEnd.calls[w]? = some (dst, call) ∧
    askEnd.Answered dst call ⟨[], .response, 0, 1, 1, some 0⟩ := by
  have ran : run step (init 2 fun _ => 1) askRun = some askEnd :=
    (Option.some_get (by decide : (run step (init 2 fun _ => 1) askRun).isSome = true)).symm
  exact (responses_of_run (by decide) ran).2.2 (some 0, ⟨[], .response, 0, 1, 1, some 0⟩)
    (by decide)

/-! ## Scopes -/

/-- A client has had a response from the scope on every shard, so that its `cancel_scope_request`
is done. -/
def ScopeCancelled (m : Machine) (addr : List ActorKey) : Prop :=
  ∀ dst < m.count, ∃ w call msg, (some w, msg) ∈ m.outcomes ∧ m.calls[w]? = some (dst, call) ∧
    call.addr = addr ∧ msg.type = .response

/-- A scope that has sent a response has been destroyed. -/
theorem removed_of_response {addr : List ActorKey} {call : Envelope} (mailed : Mailed limitOf m)
    (scope : addr ≠ []) (groups : ∀ k ∈ addr, k.isGroup = true) (place : call.addr = addr)
    (answered : m.Answered dst call msg) (response : msg.type = .response) :
    addr.reverse ∈ (m.shards dst).tree.removed := by
  obtain ⟨mid, q, exception, -, sent, sender, type⟩ := answered
  rw [response] at type
  cases exception with
  | true => cases type
  | false =>
    obtain rfl : q = addr.reverse := place ▸ sender.resolve_right fun refused => nomatch refused.2
    cases path : addr.reverse with
    | nil => exact absurd (List.reverse_eq_nil_iff.mp path) scope
    | cons k p =>
      rw [path] at sent
      have group := groups k (List.mem_reverse.mp (path ▸ List.mem_cons_self))
      exact Shard.removed_of_sent (mailed.shards dst) k p _ group (Shard.mem_sents.mpr sent)

/-- When `cancel_scope_request` succeeds and no request was issued on a shard whose promises were
cancelled, the scope has been destroyed on every shard, and nothing lives in it any more on any
shard, whatever clients send to it later. -/
theorem scope_gone_of_cancelled {count : Nat} {labels more : List Label} {addr : List ActorKey}
    (uncancelled : StepsMeet step RequestsUncancelled (init count limitOf) labels)
    (ran : run step (init count limitOf) labels = some m) (scope : addr ≠ [])
    (groups : ∀ k ∈ addr, k.isGroup = true) (cancelled : m.ScopeCancelled addr)
    (later : run step m more = some m') (i : Nat) (inside : i < m.count) :
    .destroyed addr.reverse ∈ (m.shards i).log ∧
      ∀ q, addr.reverse <:+ q → (m'.shards i).objs q = none := by
  have mailed := mailed_of_reachable ⟨labels, ran⟩
  have mailed' : Mailed limitOf m' :=
    mailed_of_reachable ⟨labels ++ more, run_append ran later⟩
  obtain ⟨b, accounted⟩ := accounted_of_run uncancelled ran
  obtain ⟨w, call, msg, given, here, place, response⟩ := cancelled i inside
  obtain ⟨w', dst, call', waiter, -, here', answered⟩ := answered_of_outcome mailed accounted given
  obtain rfl := Option.some.inj waiter
  obtain ⟨rfl, rfl⟩ := Prod.mk.inj (Option.some.inj (here.symm.trans here'))
  have grows := grows_of_run mailed later
  have removed := removed_of_response mailed scope groups place answered response
  refine ⟨Shard.mem_removed.mp removed, fun q below => ?_⟩
  have removed' : addr.reverse ∈ (m'.shards i).tree.removed :=
    Shard.mem_removed.mpr ((grows.logs i).subset (Shard.mem_removed.mp removed))
  exact Shard.objs_eq_none.mp
    ((Shard.valid_of_reachable (mailed'.shards i)).below_removed removed' below)

/-- A client of shard 0 cancels a scope on both shards of a machine. -/
def cancelRun : List Label :=
  [.request 0 0 [Shard.scopeKey] .peaceStop, .request 0 1 [Shard.scopeKey] .peaceStop] ++
    carry 1 0 ++
    [.act 0 (.dispatch 0), .act 0 (.advance false 0), .act 0 (.advance false 0),
      .act 0 (.advance false 0), .act 1 (.dispatch 0), .act 1 (.advance false 0),
      .act 1 (.advance false 0), .act 1 (.advance false 0)] ++ carry 0 1

def cancelEnd : Machine := (run step (init 2 fun _ => 1) cancelRun).get (by decide)

/-- Another message to the scope is refused. -/
def cancelLater : Machine :=
  (run step cancelEnd [.tell 0 0 [Shard.scopeKey, Shard.workerKey] .user]).get (by decide)

theorem both_scopes_gone : .destroyed [Shard.scopeKey] ∈ (cancelEnd.shards 1).log ∧
    ∀ q, [Shard.scopeKey] <:+ q → (cancelLater.shards 1).objs q = none := by
  have ran : run step (init 2 fun _ => 1) cancelRun = some cancelEnd := (Option.some_get _).symm
  have cancelled : cancelEnd.ScopeCancelled [Shard.scopeKey] := by
    intro dst inside
    have small : dst < 2 := inside
    rcases (by omega : dst = 0 ∨ dst = 1) with rfl | rfl
    · exact ⟨0, ⟨[Shard.scopeKey], .peaceStop, 0, 1, 0, some 0⟩, ⟨[], .response, 0, 1, 0, some 0⟩,
        by decide, by decide, rfl, rfl⟩
    · exact ⟨1, ⟨[Shard.scopeKey], .peaceStop, 0, 2, 0, some 1⟩, ⟨[], .response, 0, 2, 1, some 1⟩,
        by decide, by decide, rfl, rfl⟩
  exact scope_gone_of_cancelled (by decide) ran (by decide) (by decide) cancelled
    (Option.some_get _).symm 1 (by decide)

end Machine

end Hiactor
