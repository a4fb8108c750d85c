import Hiactor.Core.Proofs.MachineOrder

/-!
# The shards of a running machine

A step of a machine is a step of at most one of its shards. A shard receives only what clients have
sent to it, so that an invariant of the shards holds on a machine when what the clients send and
what the shards do by themselves keep it. An actor takes the messages from its mailbox in turn, so
that it handles what one shard sends to it in the order in which it was sent, and a message is
missing only where an actor was stopped or is not reached any more.
-/

namespace Hiactor

open Lib

namespace Machine

variable {m m' : Machine} {i j dst src : Nat} {msg : Envelope} {limitOf : ActorKey → Nat}

/-- A shard receives `msg`. -/
def Envelope.received (msg : Envelope) : Shard.Label :=
  .receive msg.addr msg.type msg.srcShardId msg.prId

/-- What a client of shard `src` sends to shard `dst`. -/
def ClientSends (m : Machine) (label : Label) (dst src : Nat) (msg : Envelope) : Prop :=
  m.CanSend src dst msg ∧ ∃ addr type,
    label = .request src dst addr type ∧ msg = m.requestEnvelope src addr type ∨
      label = .tell src dst addr type ∧ msg = oneWayEnvelope src addr type

/-- The shard `i` takes a step, and what is on its way between clients and shards stays. -/
structure Settles (m m' : Machine) (i : Nat) (act : Shard.Label) : Prop where
  taken : (m.shards i).step act = some (m'.shards i)
  others : ∀ j, j ≠ i → m'.shards j = m.shards j
  sent : m'.sent = m.sent
  pending : m'.pending = m.pending
  count : m'.count = m.count
  calls : m'.calls = m.calls
  received : ∀ {j mid msg}, m'.received j mid = some msg → m.received j mid = some msg ∨
    j = i ∧ mid = (m.shards i).nextMid ∧ act = Envelope.received msg

theorem settles_of_settle {t : Machine} {s : Shard} {act : Shard.Label}
    (shards : t.shards = m.shards) (sent : t.sent = m.sent) (channel : t.channel = m.channel)
    (calls : t.calls = m.calls)
    (received : ∀ {j mid msg}, t.received j mid = some msg → m.received j mid = some msg ∨
      j = i ∧ mid = (m.shards i).nextMid ∧ act = Envelope.received msg)
    (taken : (m.shards i).step act = some s) (settled : t.settle i s = some m') :
    Settles m m' i act := by
  have keeps := keeps_foldlM (settle_eq_some settled)
  have sends := sends_foldlM (settle_eq_some settled)
  have same : m'.shards = Function.update m.shards i s := by
    rw [keeps.shards, ← shards]
    rfl
  refine ⟨?_, fun j other => ?_, keeps.sent.trans sent, ?_, ?_, sends.calls.trans calls,
    fun found => received (sends.received ▸ found)⟩
  · rw [same, Function.update_self]
    exact taken
  · rw [same, Function.update_of_ne other]
  · rw [keeps.pending]
    show (fun dst src => (t.onWay dst src).filter _) = _
    unfold onWay
    rw [channel]
    rfl
  · rw [sends.count]
    show t.channel.count = _
    rw [channel]
    rfl

theorem keeps_receive (received : m.receive i msg = some m') :
    msg.isResponse = true ∧ m' = m.respond i msg ∨
      msg.isResponse = false ∧ Settles m m' i (Envelope.received msg) := by
  unfold Machine.receive at received
  split at received
  · next response => exact .inl ⟨response, (Option.some.inj received).symm⟩
  · next call =>
    obtain ⟨s, taken, settled⟩ := Option.bind_eq_some_iff.mp received
    refine .inr ⟨Bool.eq_false_of_not_eq_true call,
      settles_of_settle (t := m.record i msg) rfl rfl rfl rfl (fun {j mid other} found => ?_) taken
        settled⟩
    change Function.update m.received i _ j mid = some other at found
    rw [Function.update_apply] at found
    split at found
    · next here =>
      subst here
      rw [Function.update_apply] at found
      split at found
      · next new => exact .inr ⟨rfl, new, congrArg Envelope.received (Option.some.inj found)⟩
      · exact .inl found
    · exact .inl found

/-! ## Steps -/

/-- A client sends a message: its shard receives it, or it is put in a queue. -/
structure Dispatches (m m' : Machine) (i dst : Nat) (msg : Envelope) : Prop where
  sent : ∀ k l, m'.sent k l = m.sent k l ++ if k = dst ∧ l = i then [msg] else []
  shards : ∀ j, m'.shards j = m.shards j ∨
    j = dst ∧ (m.shards j).step (Envelope.received msg) = some (m'.shards j)
  count : m'.count = m.count
  received : ∀ {j mid msg}, m'.received j mid = some msg → m.received j mid = some msg ∨
    mid = (m.shards j).nextMid ∧
      (m.shards j).step (Envelope.received msg) = some (m'.shards j)

/-- What a shard has received now it has received by its step. -/
theorem Settles.arrives {act : Shard.Label} (settles : Settles m m' i act) {mid : Nat}
    (found : m'.received j mid = some msg) : m.received j mid = some msg ∨
      mid = (m.shards j).nextMid ∧
        (m.shards j).step (Envelope.received msg) = some (m'.shards j) := by
  rcases settles.received found with old | ⟨rfl, rfl, rfl⟩
  · exact .inl old
  · exact .inr ⟨rfl, settles.taken⟩

theorem calls_send (sent : m.send i dst msg = some m') : m'.calls = m.calls := by
  unfold Machine.send at sent
  split at sent
  · rcases keeps_receive sent with ⟨-, rfl⟩ | ⟨-, settles⟩
    · exact sends_respond.calls
    · exact settles.calls
  · exact (sends_post sent).calls

theorem dispatches_send (call : msg.isResponse = false) (sent : m.send i dst msg = some m') :
    Dispatches m m' i dst msg := by
  unfold Machine.send at sent
  split at sent
  · next here =>
    subst here
    obtain ⟨-, settles⟩ := (keeps_receive sent).resolve_left fun ⟨response, _⟩ => by
      rw [call] at response
      cases response
    refine ⟨fun k l => ?_, fun j => ?_, settles.count, settles.arrives⟩
    · rw [settles.sent]
      exact sent_note k l
    · by_cases here : j = dst
      · exact .inr ⟨here, here ▸ settles.taken⟩
      · exact .inl (settles.others j here)
  · have same := sends_post sent
    obtain ⟨c, -, rfl⟩ := Option.map_eq_some_iff.mp sent
    exact ⟨sent_note, fun j => .inl rfl, same.count, fun found => .inl found⟩

theorem onQueue_eq_some {f : MessageQueue Envelope → Option (MessageQueue Envelope)}
    (moved : m.onQueue dst src f = some m') : (dst < m.count ∧ src < m.count ∧ dst ≠ src) ∧
      ∃ q, f (m.channel.qs dst src) = some q ∧
        m' = { m with channel := m.channel.set dst src q } := by
  unfold Machine.onQueue at moved
  split at moved
  · next inside =>
    obtain ⟨c, modified, rfl⟩ := Option.map_eq_some_iff.mp moved
    obtain ⟨q, result, rfl⟩ := modify_eq_some modified
    exact ⟨inside, q, result, rfl⟩
  · cases moved

theorem handle_eq_some (handled : m.handle dst src = some m') :
    (dst < m.count ∧ src < m.count ∧ dst ≠ src) ∧ ∃ msg q,
      (m.channel.qs dst src).handleNext = some (msg, q) ∧
        { m with channel := m.channel.set dst src q }.receive dst msg = some m' := by
  unfold Machine.handle at handled
  split at handled
  · next inside =>
    split at handled
    · next msg q next => exact ⟨⟨inside.1, inside.2.1, inside.2.2.1⟩, msg, q, next, handled⟩
    · cases handled
  · cases handled

theorem settles_act {act : Shard.Label} (acted : m.act i act = some m') :
    i < m.count ∧ Settles m m' i act := by
  have settles (went : (if i < m.count then ((m.shards i).step act).bind (m.settle i) else none) =
      some m') : i < m.count ∧ Settles m m' i act := by
    split at went
    · next inside =>
      obtain ⟨s, taken, settled⟩ := Option.bind_eq_some_iff.mp went
      exact ⟨inside, settles_of_settle rfl rfl rfl rfl (fun found => .inl found) taken settled⟩
    · cases went
  cases act with
  | receive => cases acted
  | _ => exact settles acted

/-- What a step of a machine, which is then `m'`, does to its shards: one of them takes a step of
its own, or receives what a client has sent. -/
def Causes (m' : Machine) (label : Label) (j : Nat) (act : Shard.Label) : Prop :=
  label = .act j act ∨ ∃ src msg, msg ∈ m'.sent j src ∧ act = Envelope.received msg

structure Proceeds (m m' : Machine) (label : Label) : Prop where
  /-- Nothing is forgotten. -/
  keepsSent : ∀ dst src, m.sent dst src ⊆ m'.sent dst src
  sent : ∀ {dst src msg}, msg ∈ m'.sent dst src →
    msg ∈ m.sent dst src ∨ m.ClientSends label dst src msg
  shards : ∀ j, m'.shards j = m.shards j ∨
    j < m.count ∧ ∃ act, (m.shards j).step act = some (m'.shards j) ∧ m'.Causes label j act
  count : m'.count = m.count
  received : ∀ {j mid msg}, m'.received j mid = some msg → m.received j mid = some msg ∨
    mid = (m.shards j).nextMid ∧
      (m.shards j).step (Envelope.received msg) = some (m'.shards j)
  calls : ∀ {w dst call}, m'.calls[w]? = some (dst, call) → m.calls[w]? = some (dst, call) ∨
    call.request = some w ∧ ∃ i addr type, label = .request i dst addr type ∧
      call = m.requestEnvelope i addr type ∧ call ∈ m'.sent dst i

theorem Dispatches.proceeds {label : Label} (dispatches : Dispatches m m' i dst msg)
    (sends : m.ClientSends label dst i msg)
    (calls : msg ∈ m'.sent dst i → ∀ {w dst call}, m'.calls[w]? = some (dst, call) →
      m.calls[w]? = some (dst, call) ∨
        call.request = some w ∧ ∃ i addr type, label = .request i dst addr type ∧
          call = m.requestEnvelope i addr type ∧ call ∈ m'.sent dst i) : Proceeds m m' label := by
  have now : msg ∈ m'.sent dst i := by
    rw [dispatches.sent, if_pos ⟨rfl, rfl⟩]
    exact List.mem_append_right _ List.mem_cons_self
  refine ⟨fun k l msg' member => ?_, fun {k l msg'} member => ?_, fun j => ?_, dispatches.count,
    dispatches.received, calls now⟩
  · rw [dispatches.sent]
    exact List.mem_append_left _ member
  · rw [dispatches.sent] at member
    rcases List.mem_append.mp member with old | new
    · exact .inl old
    · split at new
      · next here =>
        obtain ⟨rfl, rfl⟩ := here
        exact .inr (List.mem_singleton.mp new ▸ sends)
      · cases new
  · rcases dispatches.shards j with same | ⟨rfl, taken⟩
    · exact .inl same
    · exact .inr ⟨sends.1.2.1, _, taken, .inr ⟨i, msg, now, rfl⟩⟩

theorem Settles.proceeds {label : Label} {act : Shard.Label} (settles : Settles m m' i act)
    (inside : i < m.count) (causes : m'.Causes label i act) : Proceeds m m' label := by
  refine ⟨fun _ _ _ member => settles.sent ▸ member, fun member => .inl (settles.sent ▸ member),
    fun j => ?_, settles.count, settles.arrives, fun found => .inl (settles.calls ▸ found)⟩
  by_cases here : j = i
  · subst here
    exact .inr ⟨inside, act, settles.taken, causes⟩
  · exact .inl (settles.others j here)

/-- Only the promise tables and the queues change. -/
theorem Proceeds.of_eq {label : Label} (sent : m'.sent = m.sent) (shards : m'.shards = m.shards)
    (count : m'.count = m.count) (received : m'.received = m.received)
    (calls : m'.calls = m.calls) : Proceeds m m' label :=
  ⟨fun _ _ _ member => sent ▸ member, fun member => .inl (sent ▸ member),
    fun j => .inl (congrFun shards j), count, fun found => .inl (received ▸ found),
    fun found => .inl (calls ▸ found)⟩

/-- What the poller of a shard handles was sent to it. -/
theorem mem_sent_of_handleNext {q : MessageQueue Envelope} (mailed : Mailed limitOf m)
    (ordered : Ordered (fun _ _ => []) m)
    (next : (m.channel.qs dst src).handleNext = some (msg, q)) (call : msg.isResponse = false) :
    msg ∈ m.sent dst src := by
  have contents := (MessageQueue.contents_handleNext next (mailed.inBounds dst src)).1
  have waits : msg ∈ m.pending dst src := by
    refine List.mem_filter.mpr ⟨?_, by simp [call]⟩
    show msg ∈ (m.channel.qs dst src).contents
    rw [contents]
    exact List.mem_cons_self
  rw [← ordered.between dst src]
  exact List.mem_append_right _ waits

theorem proceeds_step {label : Label} (mailed : Mailed limitOf m)
    (ordered : Ordered (fun _ _ => []) m) (taken : m.step label = some m') :
    Proceeds m m' label := by
  have queues {dst src : Nat} {f : MessageQueue Envelope → Option (MessageQueue Envelope)}
      (moved : m.onQueue dst src f = some m') : Proceeds m m' label := by
    obtain ⟨-, q, -, rfl⟩ := onQueue_eq_some moved
    exact .of_eq rfl rfl rfl rfl rfl
  cases label with
  | request i dst addr type =>
    change m.request i dst addr type = some m' at taken
    unfold Machine.request at taken
    simp only at taken
    split at taken
    · next can =>
      have dispatches := dispatches_send (isResponse_of_isCall can.2.2.2.1) taken
      have moved : Dispatches m m' i dst (m.requestEnvelope i addr type) :=
        ⟨dispatches.sent, dispatches.shards, dispatches.count, dispatches.received⟩
      have calls := calls_send taken
      refine moved.proceeds ⟨can, addr, type, .inl ⟨rfl, rfl⟩⟩ fun now {w k call} found => ?_
      rw [calls, List.getElem?_append] at found
      split at found
      · exact .inl found
      · next beyond =>
        right
        have last : w = m.calls.length := by
          by_contra other
          rw [List.getElem?_eq_none (by simp only [List.length_singleton]; omega)] at found
          cases found
        rw [last, Nat.sub_self] at found
        obtain ⟨rfl, rfl⟩ := Prod.mk.inj (Option.some.inj found)
        refine ⟨?_, i, addr, type, rfl, rfl, now⟩
        rw [last, mailed.lengths]
        rfl
    · cases taken
  | tell i dst addr type =>
    change m.tell i dst addr type = some m' at taken
    unfold Machine.tell at taken
    simp only at taken
    split at taken
    · next can =>
      have calls := calls_send taken
      exact (dispatches_send (isResponse_of_isCall can.2.2.2.1) taken).proceeds
        ⟨can, addr, type, .inr ⟨rfl, rfl⟩⟩ fun _ {w k call} found => .inl (calls ▸ found)
    · cases taken
  | act i act =>
    obtain ⟨inside, settles⟩ := settles_act taken
    exact settles.proceeds inside (.inl rfl)
  | flush | popFirst | popRest => exact queues taken
  | handle dst src =>
    obtain ⟨⟨inside, -⟩, msg, q, next, received⟩ := handle_eq_some taken
    rcases keeps_receive received with ⟨-, rfl⟩ | ⟨call, settles⟩
    · let t : Machine := { m with channel := m.channel.set dst src q }
      have keeps : Keeps t (t.respond dst msg) := keeps_respond
      exact .of_eq keeps.sent keeps.shards sends_respond.count keeps.received sends_respond.calls
    · have proceeds : Proceeds _ m' (.handle dst src) := settles.proceeds inside
        (.inr ⟨src, msg, ?_, rfl⟩)
      · exact ⟨proceeds.keepsSent, proceeds.sent, proceeds.shards, proceeds.count,
          proceeds.received, fun found => .inl (settles.calls ▸ found)⟩
      · rw [settles.sent]
        show msg ∈ m.sent dst src
        exact mem_sent_of_handleNext mailed ordered next call
  | continuation w =>
    obtain ⟨tables, -, rfl⟩ := Option.map_eq_some_iff.mp taken
    exact .of_eq rfl rfl rfl rfl rfl

/-- An invariant of a shard is one of the shards of a machine. -/
theorem Proceeds.keeps {label : Label} (proceeds : Proceeds m m' label) (inv : Shard → Prop)
    (valid : ∀ j, inv (m.shards j))
    (preserved : ∀ {j act s}, m'.Causes label j act → (m.shards j).step act = some s →
      inv (m.shards j) → inv s) (j : Nat) : inv (m'.shards j) := by
  rcases proceeds.shards j with same | ⟨-, act, taken, causes⟩
  · rw [same]
    exact valid j
  · exact preserved causes taken (valid j)

/-! ## Few children -/

/-- The step leads to a machine on which no object has `2 ^ 32` children at once. -/
def KeepsFew (m : Machine) (label : Label) : Prop :=
  ∀ m', m.step label = some m' → ∀ i, (m'.shards i).FewChildren

/-- A shard of a machine goes through a run of its own. -/
theorem Proceeds.reachedBy {label : Label} {ok : Shard → Shard.Label → Prop}
    (proceeds : Proceeds m m' label)
    (meets : ∀ act, (m.shards i).step act = some (m'.shards i) → ok (m.shards i) act)
    (reached : ReachedBy Shard.step ok (.init limitOf) (m.shards i)) :
    ReachedBy Shard.step ok (.init limitOf) (m'.shards i) := by
  rcases proceeds.shards i with same | ⟨-, act, taken, -⟩
  · exact same ▸ reached
  · exact reached.step (meets act taken) taken

theorem count_startAllQueues (shards : List Nat) (c : Channel Envelope) :
    (shards.foldl Channel.startAllQueues c).count = c.count := by
  induction shards generalizing c with
  | nil => rfl
  | cons s shards ih => exact ih _

theorem count_init (count : Nat) : (init count limitOf).count = count :=
  count_startAllQueues _ (.create count)

/-- The shards have few children all along a run that has created few objects at its end. -/
theorem keepsFew_of_created {count : Nat} {labels : List Label}
    (ran : run step (init count limitOf) labels = some m)
    (short : ∀ i < count, (m.shards i).tree.created.length < 2 ^ 32) :
    StepsMeet step KeepsFew (init count limitOf) labels := by
  -- shards that the machine does not have stay as they are
  have along (labels : List Label) (t : Machine) (mailed : Mailed limitOf t)
      (ordered : Ordered (fun _ _ => []) t) (size : t.count = count)
      (unused : ∀ i, count ≤ i → t.shards i = .init limitOf)
      (ran : run step t labels = some m) :
      Grows t m ∧ StepsMeet step KeepsFew t labels := by
    induction labels generalizing t with
    | nil =>
      obtain rfl := Option.some.inj ran
      exact ⟨.refl, trivial⟩
    | cons label labels ih =>
      obtain ⟨u, taken, rest⟩ := run_cons_eq_some.mp ran
      have proceeds := proceeds_step mailed ordered taken
      obtain ⟨mailed', more⟩ := mailed.step taken
      have unused' (i : Nat) (beyond : count ≤ i) : u.shards i = .init limitOf := by
        rcases proceeds.shards i with same | ⟨inside, -⟩
        · exact same.trans (unused i beyond)
        · omega
      obtain ⟨grown, meets⟩ := ih u mailed' (ordered.step mailed taken)
        (proceeds.count.trans size) unused' rest
      refine ⟨more.trans grown, (stepsMeet_cons taken).mpr ⟨fun v taken' i => ?_, meets⟩⟩
      obtain rfl := Option.some.inj (taken.symm.trans taken')
      by_cases inside : i < count
      · have prefixed : (u.shards i).tree.created <+: (m.shards i).tree.created :=
          (grown.logs i).filterMap _
        exact Shard.fewChildren_of_created (Shard.valid_of_reachable (mailed'.shards i))
          (prefixed.length_le.trans_lt (short i inside))
      · rw [unused' i (not_lt.mp inside)]
        exact Shard.fewChildren_init limitOf
  exact (along labels _ (mailed_init count) (ordered_init count) (count_init count)
    (fun _ _ => rfl) ran).2

/-! ## From end to end -/

variable {p : Path}

/-- A message of a user for the object at `p`. -/
def isFor (p : Path) (msg : Envelope) : Bool := msg.type = .user ∧ msg.addr.reverse = p

/-- What clients of shard `src` have sent to an object of shard `dst`. -/
def sentTo (m : Machine) (dst src : Nat) (p : Path) : List Envelope :=
  (m.sent dst src).filter (isFor p)

/-- The envelopes of messages of shard `dst`, as far as they have come from shard `src`. -/
def envelopes (m : Machine) (dst src : Nat) (messages : List ActorMessage) : List Envelope :=
  (messages.map (·.mid)).filterMap fun mid =>
    (m.received dst mid).filter fun msg => msg.origin = src

/-- Those that the object has handed to `do_work`. -/
def handled (m : Machine) (dst src : Nat) (p : Path) : List Envelope :=
  m.envelopes dst src (startedAt p (m.shards dst).log)

/-- Those that wait in its mailbox. -/
def waiting (m : Machine) (dst src : Nat) (p : Path) : List Envelope :=
  m.envelopes dst src ((m.shards dst).queued p)

/-- Those that are on their way to the shard. -/
def coming (m : Machine) (dst src : Nat) (p : Path) : List Envelope :=
  (m.pending dst src).filter (isFor p)

theorem envelopes_append (first second : List ActorMessage) :
    m.envelopes dst src (first ++ second) =
      m.envelopes dst src first ++ m.envelopes dst src second := by
  unfold envelopes
  rw [List.map_append, List.filterMap_append]

theorem filterMap_origin (arrivals : List (Nat × Envelope)) :
    (arrivals.filterMap fun arrival =>
      if arrival.2.origin = src then some arrival.2 else none) =
        (arrivals.map (·.2)).filter fun msg => msg.origin = src := by
  induction arrivals with
  | nil => rfl
  | cons arrival arrivals ih =>
    by_cases mine : arrival.2.origin = src
    · simp [mine, ih]
    · simp [mine, ih]

/-- The envelopes of the messages for an object are told by their numbers. -/
theorem envelopes_mailFor : ((m.mailFor dst p).map (·.1)).filterMap (fun mid =>
    (m.received dst mid).filter fun msg => msg.origin = src) =
      (m.arrived dst src).filter (isFor p) := by
  have named (arrival : Nat × Envelope) (member : arrival ∈ m.mailFor dst p) :
      (m.received dst arrival.1).filter (fun msg => msg.origin = src) =
        if arrival.2.origin = src then some arrival.2 else none := by
    rw [mem_arrivals (List.mem_filter.mp member).1]
    simp [Option.filter]
  rw [List.filterMap_map]
  calc (m.mailFor dst p).filterMap _
      = (m.mailFor dst p).filterMap fun arrival =>
          if arrival.2.origin = src then some arrival.2 else none :=
        List.filterMap_congr fun arrival member => named arrival member
    _ = ((m.mailFor dst p).map (·.2)).filter fun msg => msg.origin = src := filterMap_origin _
    _ = (m.arrived dst src).filter (isFor p) := by
        unfold mailFor arrived isFor
        rw [List.filter_filter, List.filter_map, List.filter_filter, List.filter_map]
        simp only [Function.comp_def, Bool.and_comm]

/-- What was put in a mailbox of what one shard has sent. -/
theorem Ordered.envelopes (ordered : Ordered (fun _ _ => []) m) :
    m.envelopes dst src (enqueuedAt p (m.shards dst).log) <+: (m.arrived dst src).filter (isFor p) ∧
      (¬ (m.shards dst).Refuses p.reverse → m.envelopes dst src
        (enqueuedAt p (m.shards dst).log) = (m.arrived dst src).filter (isFor p)) := by
  constructor
  · rw [← envelopes_mailFor]
    exact (ordered.mail dst p).filterMap _
  · intro reached
    rw [← envelopes_mailFor, ← ordered.mailAll dst p reached]
    rfl

/-- The step leads to a machine on which the object at `p` of shard `dst` is not stopped by
force. -/
def Spares (dst : Nat) (p : Path) (m : Machine) (label : Label) : Prop :=
  ∀ m', m.step label = some m' → ¬ (m'.shards dst).Forced p

instance (dst : Nat) (p : Path) (m : Machine) (label : Label) : Decidable (Spares dst p m label) :=
  decidable_of_iff (∀ m' ∈ m.step label, ¬ (m'.shards dst).Forced p) Iff.rfl

/-- An actor that is never stopped by force handles all that is put in its mailbox. -/
theorem complete_of_spared {count : Nat} {k : ActorKey} (actor : k.isGroup = false)
    (spared : ReachedBy step (Spares dst (k :: p)) (init count limitOf) m) :
    (m.shards dst).Complete (k :: p) := by
  suffices reached : ReachedBy Shard.step (Shard.Spares (k :: p)) (.init limitOf) (m.shards dst)
    from Shard.complete_of_spared actor reached
  refine (spared.invariant (fun m => Mailed limitOf m ∧ Ordered (fun _ _ => []) m ∧
    ReachedBy Shard.step (Shard.Spares (k :: p)) (.init limitOf) (m.shards dst)) ?_ ?_).2.2
  · rintro t label t' ⟨mailed, ordered, reached⟩ spares taken
    refine ⟨(mailed.step taken).1, ordered.step mailed taken, ?_⟩
    refine (proceeds_step mailed ordered taken).reachedBy (fun act moved s other => ?_) reached
    obtain rfl := Option.some.inj (moved.symm.trans other)
    exact spares t' taken
  · exact ⟨mailed_init count, ordered_init count, reachedBy_refl ..⟩

/-- An actor hands the messages of one shard to `do_work` in the order in which clients of the shard
have sent them, and each at most once. As long as it lives and was not stopped by force, and also
when it has ended without being stopped by force, it leaves none out of those that were sent before
the last one that it got; and while its address is reached, all others wait for it or are on their
way. -/
theorem sent_in_order {count : Nat} (reachable : Reachable step (init count limitOf) m)
    (dst src : Nat) (p : Path) :
    (m.handled dst src p ++ m.waiting dst src p).Sublist (m.sentTo dst src p) ∧
    (¬ (m.shards dst).Closed p ∨ (∃ k q, p = k :: q ∧ k.isGroup = false) ∧
        ReachedBy step (Spares dst p) (init count limitOf) m →
      m.handled dst src p ++ m.waiting dst src p <+: m.sentTo dst src p ∧
      (¬ (m.shards dst).Refuses p.reverse →
        m.handled dst src p ++ m.waiting dst src p ++ m.coming dst src p =
          m.sentTo dst src p)) := by
  have ordered := ordered_of_reachable reachable
  have inOrder := Shard.inOrder_of_reachable ((mailed_of_reachable reachable).shards dst) p
  obtain ⟨arrived, all⟩ := @Ordered.envelopes m dst src p ordered
  have between :
      m.sentTo dst src p = (m.arrived dst src).filter (isFor p) ++ m.coming dst src p := by
    rw [sentTo, ← ordered.between, List.append_nil, List.filter_append, coming]
  have both : m.handled dst src p ++ m.waiting dst src p =
      m.envelopes dst src (startedAt p (m.shards dst).log ++ (m.shards dst).queued p) :=
    (envelopes_append ..).symm
  rw [both, between]
  refine ⟨?_, fun unforced => ?_⟩
  · have sub : (m.envelopes dst src
        (startedAt p (m.shards dst).log ++ (m.shards dst).queued p)).Sublist
          (m.envelopes dst src (enqueuedAt p (m.shards dst).log)) :=
      (inOrder.order.map _).filterMap _
    exact sub.trans (arrived.sublist.trans (List.sublist_append_left ..))
  · have complete : (m.shards dst).Complete p := by
      rcases unforced with opened | ⟨⟨k, q, rfl, actor⟩, spared⟩
      · exact inOrder.complete opened
      · exact complete_of_spared actor spared
    rw [complete]
    refine ⟨arrived.trans (List.prefix_append ..), fun reached => ?_⟩
    rw [all reached]

/-- Of three messages for an actor on shard 1, it handles the first, and the third has not come. -/
def threeSentRun : List Label :=
  [.tell 0 1 [Shard.workerKey] .user, .request 0 1 [Shard.workerKey] .user, .flush 1 0,
    .popFirst 1 0, .popRest 1 0, .handle 1 0, .handle 1 0, .tell 0 1 [Shard.workerKey] .user,
    .act 1 (.dispatch 0), .act 1 (.advance false 0), .act 1 (.advance false 0)]

/-- An actor on shard 1 handles a message after it was stopped in peace, and ends. -/
def lastSentRun : List Label :=
  [.tell 0 1 [Shard.workerKey] .user, .tell 0 1 [Shard.workerKey] .peaceStop, .flush 1 0,
    .popFirst 1 0, .popRest 1 0, .handle 1 0, .handle 1 0, .act 1 (.dispatch 0)] ++
    List.replicate 4 (.act 1 (.advance false 0)) ++ [.act 1 (.workDone none .no)] ++
    List.replicate 2 (.act 1 (.advance false 0))

theorem three_sent_in_order :
    (∃ m, run step (init 2 fun _ => 1) threeSentRun = some m ∧
      m.handled 1 0 [Shard.workerKey] ++ m.waiting 1 0 [Shard.workerKey] ++
        m.coming 1 0 [Shard.workerKey] = m.sentTo 1 0 [Shard.workerKey]) ∧
    ∃ m, run step (init 2 fun _ => 1) lastSentRun = some m ∧
      .destroyed [Shard.workerKey] ∈ (m.shards 1).log ∧
      m.handled 1 0 [Shard.workerKey] ++ m.waiting 1 0 [Shard.workerKey] <+:
        m.sentTo 1 0 [Shard.workerKey] := by
  obtain ⟨m, ran, opened, none, running⟩ : ∃ m, run step (init 2 fun _ => 1) threeSentRun = some m ∧
      ¬ (m.shards 1).Closed [Shard.workerKey] ∧ (m.shards 1).tree.disabled = [] ∧
      (m.shards 1).rootStopping = false := ⟨_, rfl, by decide⟩
  obtain ⟨t, ran', gone⟩ : ∃ m, run step (init 2 fun _ => 1) lastSentRun = some m ∧
      .destroyed [Shard.workerKey] ∈ (m.shards 1).log := ⟨_, rfl, by decide⟩
  have spared : ReachedBy step (Spares 1 [Shard.workerKey]) (init 2 fun _ => 1) t :=
    ⟨lastSentRun, by decide, ran'⟩
  refine ⟨⟨m, ran, ((sent_in_order ⟨_, ran⟩ 1 0 [Shard.workerKey]).2 (.inl opened)).2 ?_⟩, t, ran',
    gone, ((sent_in_order ⟨_, ran'⟩ 1 0 [Shard.workerKey]).2 (.inr ⟨⟨_, _, rfl, rfl⟩, spared⟩)).1⟩
  rintro (⟨q, inner, start, disabled⟩ | ⟨stopping, absent⟩)
  · rw [← Shard.mem_disabled, none] at disabled
    cases disabled
  · rw [running] at stopping
    cases stopping

end Machine

end Hiactor
