import Hiactor.Core.Proofs.MachineRest
import Hiactor.Core.Proofs.MachineReturns

/-!
# Every request ends

The queues between the shards stay open, what clients have sent can be received, and a shard keeps
what it has received in its log. So nothing is left on its way when a machine has come to rest, and
the promise of every request for a method has been resolved.
-/

namespace Hiactor

open Lib

namespace Shard

variable {s s' : Shard} {addr : List ActorKey} {type : MessageType} {srcShardId prId : Nat}

/-- `receive` puts a message in a mailbox or refuses it. -/
theorem arrival_of_receive (valid : s.tree.Valid) (below : addr ≠ []) (wellFormed : WellFormed addr)
    (taken : s.step (.receive addr type srcShardId prId) = some s') :
    (∃ p, .enqueued ⟨s.nextMid, type, srcShardId, prId⟩ p ∈ s'.log) ∨
      ∃ addr, .rejected ⟨s.nextMid, type, srcShardId, prId⟩ addr ∈ s'.log := by
  cases takesStep taken with
  | user isUser point acted =>
    obtain ⟨t, received, rfl⟩ := Option.map_eq_some_iff.mp acted
    obtain ⟨t', received', delivered, rejected⟩ := receive_routes valid below wellFormed
      ⟨s.nextMid, type, srcShardId, prId⟩
    obtain rfl := Option.some.inj (received'.symm.trans received)
    by_cases refuses : s.Refuses addr
    · refine .inr ⟨addr, ?_⟩
      show _ ∈ t'.log
      rw [(rejected refuses).log]
      simp
    · obtain ⟨paths, log⟩ := (delivered refuses).log
      refine .inl ⟨addr.reverse, ?_⟩
      show _ ∈ t'.log
      rw [log]
      exact List.mem_append_right _ List.mem_cons_self
  | stop frame rest isUser top went => cases isUser
  | run frame rest isUser idle runs went => cases isUser

/-- Between two tasks of the reactor a shard receives whatever clients may send. -/
theorem receive_enabled (valid : s.tree.Valid) (idle : s.stops = []) (none : s.runs = [])
    (wellFormed : WellFormed addr)
    (call : type = .user ∧ addr ≠ [] ∨ type = .forceStop ∨ type = .peaceStop) :
    ∃ s', s.step (.receive addr type srcShardId prId) = some s' := by
  have point : s.userPoint = true := by simp [userPoint, idle, none]
  have received : ∃ t, s.receive addr ⟨s.nextMid, type, srcShardId, prId⟩ = some t := by
    by_cases below : addr = []
    · subst below
      rcases call with ⟨-, below⟩ | rfl | rfl
      · exact absurd rfl below
      · exact ⟨_, rfl⟩
      · exact ⟨_, rfl⟩
    · obtain ⟨t, received, -⟩ := receive_routes valid below wellFormed
        ⟨s.nextMid, type, srcShardId, prId⟩
      exact ⟨t, received⟩
  obtain ⟨t, received⟩ := received
  refine ⟨{ t with nextMid := s.nextMid + 1 }, ?_⟩
  show (if s.userPoint then s.userStep _ else _) = _
  rw [if_pos point, userStep, received]
  rfl

/-- `receive` stops no object by force that has a request. -/
theorem allows_receive :
    Allows requestPolicy s (.receive addr type srcShardId prId) where
  drop := by
    have nothing : s.dropped (.receive addr type srcShardId prId) = [] := by
      unfold dropped
      split
      all_goals first | rfl | contradiction
    intro q m member
    rw [nothing] at member
    cases member
  silent := by
    intro _ member
    cases member
  overwrite := fun _ _ => trivial

/-- A shard at rest has answered every request that arrived. -/
theorem answered_of_stuck {limitOf : ActorKey → Nat} {m : ActorMessage} (serves : Serviceable s)
    (traced : Traced requestPolicy (flow noExtra s)) (reachable : Reachable step (init limitOf) s)
    (stuck : Stuck step Own s) (request : m.isRequest = true)
    (arrived : (∃ p, .enqueued m p ∈ s.log) ∨ ∃ addr, .rejected m addr ∈ s.log) :
    answersTo m.mid s.log ≠ [] := by
  obtain ⟨answers, settled, -⟩ := settled_of_stuck serves reachable stuck arrived
  obtain ⟨failed, -, answered⟩ := reply_of_settled traced arrived request settled
  rw [answered]
  exact List.cons_ne_nil _ _

end Shard

namespace Machine

variable {m m' : Machine} {i j dst src w : Nat} {msg orig : Envelope} {limitOf : ActorKey → Nat}
  {b : Books}

/-! ## Queues -/

/-- The queues between the shards have been started. -/
def Opened (m : Machine) : Prop :=
  ∀ dst src, dst < m.count → src < m.count → dst ≠ src →
    (m.channel.qs dst src).tx.isSome = true

/-- No queue is closed. -/
structure Opens (m m' : Machine) : Prop where
  count : m'.count = m.count
  tx : ∀ dst src, (m.channel.qs dst src).tx.isSome = true →
    (m'.channel.qs dst src).tx.isSome = true

theorem Opens.of_eq (channel : m'.channel = m.channel) : Opens m m' := by
  refine ⟨congrArg Channel.count channel, fun dst src before => ?_⟩
  rw [channel]
  exact before

theorem Opens.refl : Opens m m := .of_eq rfl

theorem Opens.trans {m'' : Machine} (first : Opens m m') (second : Opens m' m'') : Opens m m'' :=
  ⟨second.count.trans first.count,
    fun dst src before => second.tx dst src (first.tx dst src before)⟩

theorem Opened.opens (opened : m.Opened) (opens : Opens m m') : m'.Opened := by
  intro dst src below below' apart
  rw [opens.count] at below below'
  exact opens.tx dst src (opened dst src below below' apart)

theorem opens_set {q : MessageQueue Envelope}
    (tx : (m.channel.qs dst src).tx.isSome = true → q.tx.isSome = true) :
    Opens m { m with channel := m.channel.set dst src q } := by
  refine ⟨rfl, fun k l before => ?_⟩
  show ((m.channel.set dst src q).qs k l).tx.isSome = true
  rw [qs_set]
  split
  · next here =>
    obtain ⟨rfl, rfl⟩ := here
    exact tx before
  · exact before

theorem opens_respond : Opens m (m.respond i msg) := by
  unfold Machine.respond
  simp only
  split
  · exact .of_eq rfl
  · exact .refl

theorem opens_post (posted : m.post i dst msg = some m') : Opens m m' := by
  obtain ⟨c, modified, rfl⟩ := Option.map_eq_some_iff.mp posted
  obtain ⟨q, sent, rfl⟩ := modify_eq_some modified
  exact opens_set fun _ => MessageQueue.tx_send sent

theorem opens_follow {e : Event} (followed : m.follow i e = some m') : Opens m m' := by
  cases e with
  | sent q r =>
    change m.reply i r = some m' at followed
    unfold Machine.reply at followed
    split at followed
    · exact Option.some.inj followed ▸ opens_respond
    · exact opens_post followed
  | _ => exact Option.some.inj followed ▸ .refl

theorem opens_settle {s : Shard} (settled : m.settle i s = some m') : Opens m m' := by
  have installed : Opens m (m.installed i s) := .of_eq rfl
  refine foldlM_keeps ?_ installed (settle_eq_some settled)
  intro t e t' before followed
  exact before.trans (opens_follow followed)

theorem opens_receive (received : m.receive i msg = some m') : Opens m m' := by
  unfold Machine.receive at received
  split at received
  · exact Option.some.inj received ▸ opens_respond
  · obtain ⟨s, -, settled⟩ := Option.bind_eq_some_iff.mp received
    have recorded : Opens m (m.record i msg) := .of_eq rfl
    exact recorded.trans (opens_settle settled)

theorem opens_send (sent : m.send i dst msg = some m') : Opens m m' := by
  have noted : Opens m (m.note i dst msg) := .of_eq rfl
  unfold Machine.send at sent
  split at sent
  · exact noted.trans (opens_receive sent)
  · exact noted.trans (opens_post sent)

theorem opens_step {label : Label} (taken : m.step label = some m') : Opens m m' := by
  have queues {dst src : Nat} {f : MessageQueue Envelope → Option (MessageQueue Envelope)}
      (keeps : ∀ q q', f q = some q' → q.tx.isSome = true → q'.tx.isSome = true)
      (moved : m.onQueue dst src f = some m') : Opens m m' := by
    obtain ⟨-, q, result, rfl⟩ := onQueue_eq_some moved
    exact opens_set (keeps _ q result)
  cases label with
  | request i dst addr type =>
    change m.request i dst addr type = some m' at taken
    unfold Machine.request at taken
    simp only at taken
    split at taken
    · have issued : Opens m { m with
          tables := m.tables.request i
          calls := m.calls ++ [(dst, m.requestEnvelope i addr type)] } := .of_eq rfl
      exact issued.trans (opens_send taken)
    · cases taken
  | tell i dst addr type =>
    change m.tell i dst addr type = some m' at taken
    unfold Machine.tell at taken
    simp only at taken
    split at taken
    · exact opens_send taken
    · cases taken
  | act i act =>
    have acts (went : (if i < m.count then ((m.shards i).step act).bind (m.settle i) else none) =
        some m') : Opens m m' := by
      split at went
      · obtain ⟨s, -, settled⟩ := Option.bind_eq_some_iff.mp went
        exact opens_settle settled
      · cases went
    cases act with
    | receive => cases taken
    | _ => exact acts taken
  | flush dst src =>
    exact queues (fun _ _ done _ => (MessageQueue.flushRequestBatch_eq_some done).1.tx') taken
  | popFirst dst src =>
    refine queues (fun q q' done before => ?_) taken
    obtain ⟨tm, -, -, -, tx⟩ := MessageQueue.popFirst_eq_some done
    exact tx ▸ before
  | popRest dst src =>
    refine queues (fun q q' done before => ?_) taken
    obtain ⟨tm, -, -, tx, -⟩ := MessageQueue.popRest_eq_some done
    exact tx ▸ before
  | handle dst src =>
    obtain ⟨-, msg, q, next, received⟩ := handle_eq_some taken
    obtain ⟨messages, nr, i, following, -, -, -, tx, -⟩ := MessageQueue.handleNext_eq_some next
    have left : Opens m { m with channel := m.channel.set dst src q } :=
      opens_set fun before => tx ▸ before
    exact left.trans (opens_receive received)
  | continuation w =>
    obtain ⟨tables, -, rfl⟩ := Option.map_eq_some_iff.mp taken
    exact .of_eq rfl

theorem opened_init (count : Nat) : (init count limitOf).Opened := by
  have started (shards : List Nat) (c : Channel Envelope) (dst src : Nat) (below : dst < c.count)
      (apart : dst ≠ src) (before : src ∈ shards ∨ (c.qs dst src).tx.isSome = true) :
      ((shards.foldl Channel.startAllQueues c).qs dst src).tx.isSome = true := by
    induction shards generalizing c with
    | nil => exact before.resolve_left nofun
    | cons s shards ih =>
      refine ih (c.startAllQueues s) below ?_
      show _ ∨ (if src = s ∧ dst < c.count ∧ dst ≠ s then (c.qs dst src).start
        else c.qs dst src).tx.isSome = true
      by_cases here : src = s
      · subst here
        rw [if_pos ⟨rfl, below, apart⟩]
        exact .inr rfl
      · rw [if_neg fun now => here now.1]
        exact before.imp_left fun listed => (List.mem_cons.mp listed).resolve_left here
  intro dst src below below' apart
  rw [count_init] at below below'
  exact started (List.range count) (.create count) dst src below apart
    (.inl (List.mem_range.mpr below'))

/-! ## Clients -/

/-- A message of a user is one for a method of an actor. -/
def Label.Delivers : Label → Prop
  | .request _ _ addr type | .tell _ _ addr type =>
    type = .user → ∀ k ∈ addr.getLast?, k.isGroup = false
  | _ => True

/-- User code responds to requests, and no request waits for an object that is stopped by force. -/
def KeepsRequests (m : Machine) : Label → Prop
  | .act i act => (m.shards i).Responds act ∧ (m.shards i).SparesRequests act
  | _ => True

/-- What a shard can receive from a client of shard `src`. -/
structure Deliverable (m : Machine) (dst src : Nat) (msg : Envelope) : Prop where
  dst : dst < m.count
  src : src < m.count
  kind : msg.type = .user ∧ msg.addr ≠ [] ∨ msg.type = .forceStop ∨ msg.type = .peaceStop
  wellFormed : Shard.WellFormed msg.addr
  delivers : (Envelope.received msg).Delivers
  asker : msg.srcShardId < m.count

theorem deliverable_of_sends {label : Label} (delivers : label.Delivers)
    (sends : m.ClientSends label dst src msg) : m.Deliverable dst src msg := by
  obtain ⟨⟨below', below, -, isCall, wellFormed⟩, addr, type, labelled⟩ := sends
  have kind : msg.type = .user ∧ msg.addr ≠ [] ∨ msg.type = .forceStop ∨ msg.type = .peaceStop := by
    simpa [Envelope.isCall, or_assoc] using isCall
  have fine : (msg.type = .user → ∀ k ∈ msg.addr.getLast?, k.isGroup = false) ∧
      msg.srcShardId < m.count := by
    rcases labelled with ⟨rfl, rfl⟩ | ⟨rfl, rfl⟩
    · exact ⟨delivers, below'⟩
    · refine ⟨delivers, ?_⟩
      show (if type = .user then src else 0) < m.count
      split
      · exact below'
      · exact Nat.zero_lt_of_lt below'
  refine ⟨below, below', kind, wellFormed, ?_, fine.2⟩
  rcases kind with ⟨user, -⟩ | force | peace
  · exact .inr (.inr (.inr ⟨user, fine.1 user⟩))
  · exact .inr (.inl force)
  · exact .inr (.inr (.inl peace))

/-- Shards can receive what clients have sent, and the requests are among it. -/
structure Sought (m : Machine) : Prop where
  sent : ∀ {dst src msg}, msg ∈ m.sent dst src → m.Deliverable dst src msg
  calls : ∀ {w dst call}, m.calls[w]? = some (dst, call) →
    call.request = some w ∧ call.prId ≠ 0 ∧ ∃ src, call ∈ m.sent dst src

/-- A request is given a slot. -/
theorem Accounted.acquired {logs : Nat → List Event} (accounted : Accounted logs b m)
    (uncancelled : Cluster.RequestsUncancelled m.tables (.request i)) :
    (m.tables.managers i).acquirePr.2 ≠ 0 := by
  have sound : (m.view b).ShardOk i := by
    rcases accounted.correlating.shards i with sound | ⟨⟨r, member, cause, owner⟩, -⟩
    · exact sound
    · exact absurd owner (uncancelled r member cause)
  obtain ⟨free, list⟩ := sound.free
  obtain ⟨manager, id, free', acquired, spec⟩ := list.acquirePr
  have same : (m.tables.managers i).acquirePr = (manager, id) := acquired
  rw [same]
  exact spec.nonzero

theorem Sought.step {label : Label} {logs : Nat → List Event} (sought : Sought m)
    (accounted : Accounted logs b m) (proceeds : Proceeds m m' label)
    (uncancelled : m.RequestsUncancelled label) (delivers : label.Delivers) : Sought m' where
  sent := by
    intro dst src msg member
    have before : m.Deliverable dst src msg := by
      rcases proceeds.sent member with old | new
      · exact sought.sent old
      · exact deliverable_of_sends delivers new
    refine ⟨?_, ?_, before.kind, before.wellFormed, before.delivers, ?_⟩
    · exact proceeds.count ▸ before.dst
    · exact proceeds.count ▸ before.src
    · exact proceeds.count ▸ before.asker
  calls := by
    intro w dst call found
    rcases proceeds.calls found with old | ⟨name, i, addr, type, rfl, rfl, now⟩
    · obtain ⟨name, slot, src, member⟩ := sought.calls old
      exact ⟨name, slot, src, proceeds.keepsSent dst src member⟩
    · exact ⟨name, accounted.acquired uncancelled, i, now⟩

/-- A message for an object that a shard has received was put in a mailbox or refused. -/
def Arrived (m : Machine) : Prop :=
  ∀ i mid msg, m.received i mid = some msg → msg.type = .user →
    (∃ p, .enqueued ⟨mid, msg.type, msg.srcShardId, msg.prId⟩ p ∈ (m.shards i).log) ∨
      ∃ addr, .rejected ⟨mid, msg.type, msg.srcShardId, msg.prId⟩ addr ∈ (m.shards i).log

/-! ## Runs -/

/-- Every request is accounted for: it is on its way to its shard, it has arrived there, where it is
answered before it is reclaimed, or its response is on the way back or was given to the client. The
shards have reached their states with few children and can work off what they hold. -/
structure RequestsTracked (limitOf : ActorKey → Nat) (m : Machine) : Prop where
  mailed : Mailed limitOf m
  accounted : ∃ b, Accounted m.logs b m
  ordered : Ordered (fun _ _ => []) m
  returned : Returned m.logs m
  opened : m.Opened
  sought : Sought m
  arrived : Arrived m
  shards : ∀ i, Shard.Serviceable (m.shards i) ∧
    Traced Shard.requestPolicy (Shard.flow Shard.noExtra (m.shards i))
  reached : ∀ i, ReachedBy Shard.step Shard.KeepsFew (.init limitOf) (m.shards i)

/-- What a shard has received was sent to it. -/
theorem sent_of_received (mailed : Mailed limitOf m) (ordered : Ordered (fun _ _ => []) m)
    {mid : Nat} (found : m.received i mid = some msg) : msg ∈ m.sent i msg.origin := by
  have listed : (mid, msg) ∈ m.arrivals i := by
    have below := (mailed.received i mid msg found).2.1
    refine List.mem_filterMap.mpr ⟨mid, List.mem_range.mpr below, ?_⟩
    rw [found]
    rfl
  rw [← ordered.between]
  refine List.mem_append_left _ (List.mem_append_left _ ?_)
  exact List.mem_filter.mpr ⟨List.mem_map.mpr ⟨_, listed, rfl⟩, by simp⟩

/-- What clients and user code have to keep for requests to end. -/
def Behaves (m : Machine) (label : Label) : Prop :=
  m.RequestsUncancelled label ∧ m.LimitsItself label ∧ label.Delivers ∧ m.KeepsRequests label

theorem RequestsTracked.step {label : Label} (tracks : RequestsTracked limitOf m)
    (behaves : m.Behaves label) (few : m.KeepsFew label) (taken : m.step label = some m') :
    RequestsTracked limitOf m' := by
  obtain ⟨uncancelled, limits, delivers, keeps⟩ := behaves
  obtain ⟨mailed, ⟨b, accounted⟩, ordered, returned, opened, sought, arrived, shards, reached⟩ :=
    tracks
  have mailed' := (mailed.step taken).1
  have ordered' := ordered.step mailed taken
  have proceeds := proceeds_step mailed ordered taken
  have sought' := sought.step accounted proceeds uncancelled delivers
  have valid (j : Nat) : (m.shards j).tree.Valid := (shards j).1.queued.valid
  have keepsFew (j : Nat) (act : Shard.Label)
      (moved : (m.shards j).step act = some (m'.shards j)) : (m.shards j).KeepsFew act := by
    intro s other
    obtain rfl := Option.some.inj (moved.symm.trans other)
    exact few m' taken j
  refine ⟨mailed', accounted.step mailed uncancelled taken, ordered',
    returned.step accounted mailed uncancelled taken, opened.opens (opens_step taken), sought', ?_,
    ?_, fun i => proceeds.reachedBy (keepsFew i) (reached i)⟩
  · intro j mid msg found user
    rcases proceeds.received found with old | ⟨rfl, moved⟩
    · have log : (m.shards j).log <+: (m'.shards j).log := (mailed.step taken).2.logs j
      refine (arrived j mid msg old user).imp ?_ ?_
      · exact Exists.imp fun p member => log.subset member
      · exact Exists.imp fun addr member => log.subset member
    · have deliverable := sought'.sent (sent_of_received mailed' ordered' found)
      have below : msg.addr ≠ [] := by
        rcases deliverable.kind with ⟨-, below⟩ | force | peace
        · exact below
        · rw [user] at force
          cases force
        · rw [user] at peace
          cases peace
      exact Shard.arrival_of_receive (valid j) below deliverable.wellFormed moved
  · intro j
    rcases proceeds.shards j with same | ⟨-, act, moved, causes⟩
    · exact same ▸ shards j
    obtain ⟨serves, traced⟩ := shards j
    rcases causes with own | ⟨src, msg, member, received⟩
    · subst own
      have fine : act.Delivers := by
        cases act with
        | receive => cases taken
        | _ => trivial
      have allows : Shard.Allows Shard.requestPolicy (m.shards j) act :=
        ⟨fun q m member => keeps.2 (q, m) member, keeps.1, fun _ _ => trivial⟩
      exact ⟨serves.step limits (keepsFew j _ moved) fine moved,
        traced.moves (Shard.flows_step serves.counted allows moved)⟩
    · subst received
      have limits : (m.shards j).LimitsItself (Envelope.received msg) := trivial
      exact ⟨serves.step limits (keepsFew j _ moved) (sought'.sent member).delivers moved,
        traced.moves (Shard.flows_step serves.counted Shard.allows_receive moved)⟩

theorem requestsTracked_init (count : Nat) : RequestsTracked limitOf (init count limitOf) where
  mailed := mailed_init count
  accounted := ⟨_, accounted_init count⟩
  ordered := ordered_init count
  returned := by
    intro i mid orig w found
    cases found
  opened := opened_init count
  sought := by
    constructor
    · intro dst src msg member
      cases member
    · intro w dst call found
      cases found
  arrived := by
    intro i mid msg found
    cases found
  shards := fun _ => ⟨Shard.serviceable_init limitOf, Shard.traced_init limitOf⟩
  reached := fun _ => reachedBy_refl ..

/-! ## Machines at rest -/

/-- A response finds an open queue. -/
theorem reply_enabled {r : Reply} (opened : m.Opened) (inside : i < m.count)
    (addressed : r.shardId < m.count) : ∃ m', m.reply i r = some m' := by
  unfold Machine.reply
  split
  · exact ⟨_, rfl⟩
  · next apart =>
    have tx := opened r.shardId i addressed inside apart
    obtain ⟨q, sent⟩ := Option.isSome_iff_exists.mp
      ((MessageQueue.send_isSome (m.responseEnvelope i r)).trans tx)
    show ∃ m', Option.map _ (Option.map _
      ((m.channel.qs r.shardId i).send (m.responseEnvelope i r))) = some m'
    rw [sent]
    exact ⟨_, rfl⟩

theorem foldlM_enabled {events : List Event} (opened : m.Opened) (inside : i < m.count)
    (addressed : ∀ q r, .sent q r ∈ events → r.shardId < m.count) :
    ∃ m', events.foldlM (Machine.follow i) m = some m' := by
  induction events generalizing m with
  | nil => exact ⟨m, rfl⟩
  | cons e events ih =>
    have enabled : ∃ t, m.follow i e = some t := by
      cases e with
      | sent q r => exact reply_enabled opened inside (addressed q r List.mem_cons_self)
      | _ => exact ⟨m, rfl⟩
    obtain ⟨t, followed⟩ := enabled
    have opens := opens_follow followed
    rw [List.foldlM_cons, followed]
    refine ih (opened.opens opens) (by rw [opens.count]; exact inside) ?_
    intro q r member
    rw [opens.count]
    exact addressed q r (List.mem_cons_of_mem e member)

/-- The responses of a shard can be sent. -/
theorem settle_enabled {s : Shard} (opened : m.Opened) (inside : i < m.count)
    (addressed : ∀ q r, .sent q r ∈ s.log → r.shardId < m.count) :
    ∃ m', m.settle i s = some m' := by
  have installed : Opens m (m.installed i s) := .of_eq rfl
  have enabled : (m.installed i s).Opened := opened.opens installed
  refine foldlM_enabled enabled inside ?_
  intro q r member
  exact addressed q r (List.mem_of_mem_drop member)

/-- A shard answers shards. -/
theorem Mailed.addressed {s : Shard} (mailed : Mailed limitOf (m.installed i s))
    (inside : i < m.count)
    (askers : ∀ mid msg, m.received i mid = some msg → msg.srcShardId < m.count) {q : Path}
    {r : Reply} (sent : .sent q r ∈ s.log) : r.shardId < m.count := by
  have mine : (m.installed i s).shards i = s := Function.update_self ..
  rcases mailed.origin (mine ▸ sent) with ⟨internal, -⟩ | ⟨orig, received, -, asker, -⟩
  · have zero : r.shardId = 0 := congrArg Ticket.shardId internal
    rw [zero]
    exact Nat.zero_lt_of_lt inside
  · exact asker ▸ askers r.mid orig received

theorem act_eq {act : Shard.Label} (own : act.bringsWork = false) :
    m.act i act = if i < m.count then ((m.shards i).step act).bind (m.settle i) else none := by
  cases act with
  | receive => cases own
  | _ => rfl

theorem RequestsTracked.askers (tracks : RequestsTracked limitOf m) {mid : Nat}
    (found : m.received i mid = some msg) : msg.srcShardId < m.count :=
  (tracks.sought.sent (sent_of_received tracks.mailed tracks.ordered found)).asker

/-- A shard of a machine that takes no step takes none. -/
theorem RequestsTracked.stuck_shard (tracks : RequestsTracked limitOf m)
    (stuck : Stuck Machine.step Own m)
    (inside : i < m.count) : Stuck Shard.step Shard.Own (m.shards i) := by
  intro act own
  by_contra enabled
  obtain ⟨s, taken⟩ := Option.ne_none_iff_exists'.mp enabled
  have brings : (m.shards i).Brings (m.known i) act := by
    cases act with
    | receive => cases own
    | _ => trivial
  have installed := tracks.mailed.install .refl taken brings
  obtain ⟨m', settled⟩ := settle_enabled tracks.opened inside
    fun q r => installed.addressed inside fun mid msg => tracks.askers
  have blocked : m.act i act = none := stuck (.act i act) own
  rw [act_eq own, if_pos inside, taken] at blocked
  exact absurd (blocked.symm.trans settled) nofun

/-- A shard at rest receives a message that is on its way. -/
theorem RequestsTracked.receives (tracks : RequestsTracked limitOf m)
    (idle : (m.shards dst).stops = [])
    (noRuns : (m.shards dst).runs = []) (below : dst < m.count) {q : MessageQueue Envelope}
    (next : (m.channel.qs dst src).handleNext = some (msg, q)) :
    ∃ m', Machine.receive { m with channel := m.channel.set dst src q } dst msg = some m' := by
  let t : Machine := { m with channel := m.channel.set dst src q }
  cases response : msg.isResponse with
  | true =>
    unfold Machine.receive
    rw [if_pos response]
    exact ⟨_, rfl⟩
  | false =>
    obtain ⟨-, left, fine⟩ := tracks.mailed.handleNext next
    have issued : t.Issued dst msg := issued_of_call fine response
    have deliverable := tracks.sought.sent
      (mem_sent_of_handleNext tracks.mailed tracks.ordered next response)
    have valid : (m.shards dst).tree.Valid := (tracks.shards dst).1.queued.valid
    obtain ⟨s, taken⟩ : ∃ s, (t.shards dst).step (Envelope.received msg) = some s :=
      Shard.receive_enabled valid idle noRuns deliverable.wellFormed deliverable.kind
    have records := records_record left issued (nextMid_receive taken)
    have installed := left.install records taken (brings_record issued)
    have opens : Opens m (t.record dst msg) := by
      obtain ⟨messages, nr, n, following, -, -, -, tx, -⟩ := MessageQueue.handleNext_eq_some next
      have kept : Opens m t := opens_set fun before => tx ▸ before
      exact kept.trans (.of_eq rfl)
    have askers (mid : Nat) (other : Envelope)
        (found : (t.record dst msg).received dst mid = some other) :
        other.srcShardId < m.count := by
      change Function.update m.received dst _ dst mid = some other at found
      rw [Function.update_self, Function.update_apply] at found
      split at found
      · exact Option.some.inj found ▸ deliverable.asker
      · exact tracks.askers found
    obtain ⟨m', settled⟩ := settle_enabled (tracks.opened.opens opens) below
      fun q' r => installed.addressed below askers
    refine ⟨m', ?_⟩
    unfold Machine.receive
    rw [if_neg (by simp [response])]
    exact Option.bind_eq_some_iff.mpr ⟨s, taken, settled⟩

/-- Nothing is left in the queues. -/
theorem RequestsTracked.empty_of_stuck (tracks : RequestsTracked limitOf m)
    (stuck : Stuck Machine.step Own m) (below : dst < m.count) (below' : src < m.count)
    (apart : dst ≠ src) :
    m.onWay dst src = [] := by
  have inside : dst < m.count ∧ src < m.count ∧ dst ≠ src := ⟨below, below', apart⟩
  have blocked {f : MessageQueue Envelope → Option (MessageQueue Envelope)}
      (refused : m.onQueue dst src f = none) : f (m.channel.qs dst src) = none := by
    unfold Machine.onQueue at refused
    rw [if_pos inside, Option.map_eq_none_iff] at refused
    exact Option.map_eq_none_iff.mp refused
  have serves := (tracks.shards dst).1
  have rest := tracks.stuck_shard stuck below
  have idle := Shard.stops_of_stuck serves rest
  have noRuns := Shard.runs_of_stuck serves rest
  have popFirst : (m.channel.qs dst src).popFirst = none :=
    blocked (stuck (.popFirst dst src) trivial)
  have popRest : (m.channel.qs dst src).popRest = none := blocked (stuck (.popRest dst src) trivial)
  have waits : (m.channel.qs dst src).incoming = .idle := by
    cases incoming : (m.channel.qs dst src).incoming with
    | idle => rfl
    | first tm => simp [MessageQueue.popRest, incoming] at popRest
    | loop messages nr n tm =>
      exfalso
      have bounds : Incoming.InBounds (m.channel.qs dst src).incoming :=
        tracks.mailed.inBounds dst src
      rw [incoming] at bounds
      obtain ⟨following, read⟩ : ∃ following, messages[n]? = some following :=
        ⟨_, List.getElem?_eq_getElem (bounds.1.trans_lt bounds.2)⟩
      obtain ⟨q, next⟩ : ∃ q, (m.channel.qs dst src).handleNext = some (tm, q) := by
        unfold MessageQueue.handleNext
        rw [incoming]
        simp only [read]
        exact ⟨_, rfl⟩
      obtain ⟨m', received⟩ := tracks.receives idle noRuns below next
      have handled : m.handle dst src = none := stuck (.handle dst src) trivial
      unfold Machine.handle at handled
      rw [if_pos ⟨below, below', apart, noRuns, idle⟩, next] at handled
      exact absurd (handled.symm.trans received) nofun
  have ring : (m.channel.qs dst src).pending = [] := by
    cases pending : (m.channel.qs dst src).pending with
    | nil => rfl
    | cons msg pending => simp [MessageQueue.popFirst, waits, pending] at popFirst
  have fifo : (m.channel.qs dst src).fifo = [] := by
    by_contra some
    have room : (m.channel.qs dst src).pending.length < queueLength := by
      rw [ring]
      decide
    have flush := blocked (stuck (.flush dst src) ⟨some, room⟩)
    have tx := (MessageQueue.flushRequestBatch_isSome).trans
      (tracks.opened dst src below below' apart)
    rw [flush] at tx
    cases tx
  show (m.channel.qs dst src).contents = []
  unfold MessageQueue.contents
  rw [waits, ring, fifo]
  rfl

/-- A machine with nothing left to do: the shards have worked off what they were given, nothing is
on its way between them, and the promise of every request for a method has been resolved. -/
structure Idle (m : Machine) : Prop where
  shards : ∀ i, i < m.count → (m.shards i).Drained
  onWay : ∀ dst src, dst < m.count → src < m.count → dst ≠ src → m.onWay dst src = []
  resolved : ∀ w dst call, m.calls[w]? = some (dst, call) → call.type = .user →
    m.tables.Resolved w

/-- What a client has sent was received. -/
theorem RequestsTracked.received_of_stuck (tracks : RequestsTracked limitOf m)
    (stuck : Stuck Machine.step Own m) (sent : msg ∈ m.sent dst src) :
    ∃ mid, m.received dst mid = some msg := by
  have deliverable := tracks.sought.sent sent
  have nothing : m.pending dst src = [] := by
    by_cases loop : dst = src
    · exact loop ▸ tracks.ordered.loopless dst
    · unfold Machine.pending
      rw [tracks.empty_of_stuck stuck deliverable.dst deliverable.src loop]
      rfl
  rw [← tracks.ordered.between, nothing, List.append_nil, List.append_nil] at sent
  obtain ⟨⟨mid, other⟩, listed, rfl⟩ := List.mem_map.mp (List.mem_of_mem_filter sent)
  exact ⟨mid, mem_arrivals listed⟩

theorem RequestsTracked.resolved_of_stuck (tracks : RequestsTracked limitOf m)
    (stuck : Stuck Machine.step Own m) (called : m.calls[w]? = some (dst, msg))
    (user : msg.type = .user) : m.tables.Resolved w := by
  obtain ⟨name, slot, src, sent⟩ := tracks.sought.calls called
  obtain ⟨mid, received⟩ := tracks.received_of_stuck stuck sent
  have below := (tracks.sought.sent sent).dst
  obtain ⟨serves, traced⟩ := tracks.shards dst
  have request : ActorMessage.isRequest ⟨mid, msg.type, msg.srcShardId, msg.prId⟩ = true := by
    simp [ActorMessage.isRequest, user, slot]
  have answered : answersTo mid (m.shards dst).log ≠ [] :=
    Shard.answered_of_stuck serves traced (tracks.mailed.shards dst)
      (tracks.stuck_shard stuck below) request (tracks.arrived dst mid msg received user)
  rcases tracks.returned dst mid msg w received name answered with
    resolved | ⟨apart, response, member, -⟩
  · exact resolved
  · have nothing := tracks.empty_of_stuck stuck (tracks.askers received) below apart
    rw [nothing] at member
    cases member

theorem RequestsTracked.idle_of_stuck (tracks : RequestsTracked limitOf m)
    (stuck : Stuck Machine.step Own m) : m.Idle where
  shards i below :=
    Shard.drained_of_serviceable (tracks.shards i).1 (tracks.reached i)
      (tracks.stuck_shard stuck below)
  onWay _ _ below below' apart := tracks.empty_of_stuck stuck below below' apart
  resolved _ _ _ called user := tracks.resolved_of_stuck stuck called user

instance (label : Label) : Decidable label.Delivers :=
  match label with
  | .request _ _ addr type | .tell _ _ addr type =>
    inferInstanceAs (Decidable (type = .user → ∀ k ∈ addr.getLast?, k.isGroup = false))
  | .act .. | .flush .. | .popFirst .. | .popRest .. | .handle ..
  | .continuation _ => isTrue trivial

instance (m : Machine) (label : Label) : Decidable (m.KeepsRequests label) :=
  match label with
  | .act i act =>
    inferInstanceAs (Decidable ((m.shards i).Responds act ∧ (m.shards i).SparesRequests act))
  | .request .. | .tell .. | .flush .. | .popFirst .. | .popRest .. | .handle ..
  | .continuation _ => isTrue trivial

instance (m : Machine) (label : Label) : Decidable (m.Behaves label) :=
  inferInstanceAs (Decidable (m.RequestsUncancelled label ∧ m.LimitsItself label ∧
    label.Delivers ∧ m.KeepsRequests label))

/-- From a state of a run in which clients and user code behave and objects have few children, the
shards come to rest once clients give them nothing more. Where they rest, every request for a method
has ended, as long as user code went on to respond to requests and stopped no object by force that
one waited for. -/
theorem requests_end {count : Nat} {labels : List Label}
    (behaves : StepsMeet step Behaves (init count limitOf) labels)
    (few : StepsMeet step KeepsFew (init count limitOf) labels)
    (ran : run step (init count limitOf) labels = some m) :
    ¬ Endless step Own m ∧
      ∀ more t,
        StepsMeet step (fun m label => m.Own label ∧ m.KeepsRequests label ∧ m.KeepsFew label) m
          more →
        run step m more = some t → Stuck step Own t → t.Idle := by
  have limits : StepsMeet step LimitsItself (init count limitOf) labels :=
    behaves.mono fun _ _ met => met.2.1
  have tracks : RequestsTracked limitOf m :=
    run_invariant_of_meets (RequestsTracked limitOf)
      (fun _ _ _ tracks met taken => tracks.step met.1 met.2 taken) labels _ m
      (requestsTracked_init count) (behaves.and few) ran
  refine ⟨(shardsQueued_of_run limits ran).not_endless, ?_⟩
  intro more t meets went stuck
  have rest : RequestsTracked limitOf t := by
    refine run_invariant_of_meets (RequestsTracked limitOf) ?_ more m t tracks meets went
    rintro u label u' tracks ⟨own, keeps, few⟩ taken
    refine tracks.step ⟨?_, own.limitsItself, ?_, keeps⟩ few taken
    · cases label with
      | request => cases own
      | _ => trivial
    · cases label with
      | request | tell => cases own
      | _ => trivial
  exact rest.idle_of_stuck stuck

/-- The other shard has the request. -/
def askedEnd : Machine := (run step (init 2 fun _ => 1) askedRun).get (by decide)

theorem asked_request_ends : ¬ Endless step Own askedEnd ∧
    ∀ more t,
      StepsMeet step (fun m label => m.Own label ∧ m.KeepsRequests label ∧ m.KeepsFew label)
        askedEnd more →
      run step askedEnd more = some t → Stuck step Own t → t.Idle := by
  have behaves : StepsMeet step Behaves (init 2 fun _ => 1) askedRun := by decide
  have ran : run step (init 2 fun _ => 1) askedRun = some askedEnd :=
    (Option.some_get (by decide)).symm
  exact requests_end behaves (keepsFew_of_created ran (by decide)) ran

end Machine

end Hiactor
