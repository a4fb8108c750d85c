import Hiactor.Core.Proofs.MachineMail
import Hiactor.Core.Proofs.Request

/-!
# The requests of a machine

The promise tables of a machine go through the steps of `Cluster`, which knows a request only by
its number and lets a responder answer it once. The books say where the only message about each
request is, and with them every step of the machine is a run of the cluster.
-/

namespace Hiactor

open Lib

namespace Cluster

variable (c : Cluster)

/-! The bags of messages under way are read by `answer` and `deliver` only. -/

/-- The same tables with other messages under way. -/
def withBags (asked : List Nat) (answers : List Answer) : Cluster :=
  { c with asked := asked, answers := answers }

theorem withBags_stopSlot (asked : List Nat) (answers : List Answer) (shard id : Nat) :
    (c.withBags asked answers).stopSlot shard id =
      (c.stopSlot shard id).withBags asked answers := by
  show (if (c.managers shard).isActive id then _ else _) = _
  unfold stopSlot
  split
  · rfl
  · rfl

theorem withBags_stopActorSystem (asked : List Nat) (answers : List Answer) (shard : Nat) :
    (c.withBags asked answers).stopActorSystem shard =
      (c.stopActorSystem shard).withBags asked answers := by
  have loop (ids : List Nat) (c : Cluster) :
      ids.foldl (stopSlot shard) (c.withBags asked answers) =
        (ids.foldl (stopSlot shard) c).withBags asked answers := by
    induction ids generalizing c with
    | nil => rfl
    | cons id ids ih =>
      rw [List.foldl_cons, List.foldl_cons, c.withBags_stopSlot]
      exact ih _
  show (if c.stopping shard then _ else _) = _
  unfold stopActorSystem
  split
  · rfl
  · exact loop (List.range (c.managers shard).size)
      { c with stopping := Function.update c.stopping shard true }

end Cluster

namespace Machine

variable {m m' : Machine} {i j dst src w : Nat} {msg : Envelope} {limitOf : ActorKey → Nat}

/-- Where the message about a request is: on its way there, at its shard before it is answered, or
on its way back. -/
inductive Place where
  | nowhere
  | wire (dst src : Nat)
  | mail (i mid : Nat)
  | back (dst src : Nat)

/-- The place of every request, and what the cluster has under way. -/
structure Books where
  place : Nat → Place
  asked : List Nat
  answers : List Answer

/-- The request that a message names is at another place. -/
def Books.move (b : Books) (name : Option Nat) (place : Place) : Books :=
  { b with place := fun w => if name = some w then place else b.place w }

/-- The responder has the request, or it will get it. -/
def Place.isOpen : Place → Bool
  | .wire _ _ | .mail _ _ => true
  | .nowhere | .back _ _ => false

/-- The promise tables, with what is under way in the books. -/
def view (m : Machine) (b : Books) : Cluster := m.tables.withBags b.asked b.answers

/-- Who has had a response: each at most one, and the one to its own request. -/
structure Settled (b : Books) (m : Machine) : Prop where
  matched : ∀ o ∈ m.outcomes, ∃ w, o.1 = some w ∧ o.2.request = some w ∧
    w < m.tables.requests.length ∧ w ∉ (m.view b).unanswered
  once : (m.outcomes.map (·.1)).Nodup

theorem Settled.mono {b b' : Books} (settled : Settled b m) (outcomes : m'.outcomes = m.outcomes)
    (more : m.tables.requests.length ≤ m'.tables.requests.length)
    (fewer : ∀ w, w < m.tables.requests.length → w ∈ (m'.view b').unanswered →
      w ∈ (m.view b).unanswered) : Settled b' m' where
  matched := by
    intro o member
    rw [outcomes] at member
    obtain ⟨w, waiter, name, below, answered⟩ := settled.matched o member
    exact ⟨w, waiter, name, below.trans_le more, fun open' => answered (fewer w below open')⟩
  once := outcomes ▸ settled.once

/-- The books are right, as far as the responses in `logs` have been sent. -/
structure Accounted (logs : Nat → List Event) (b : Books) (m : Machine) : Prop where
  follows : ReachedBy Cluster.step Cluster.RequestsUncancelled {} (m.view b)
  calls : m.tables.addresses = m.calls.map fun call => (call.2.srcShardId, call.2.prId)
  once : ∀ dst src, ((m.onWay dst src).filterMap (·.request)).Nodup
  onWay : ∀ dst src, ∀ msg ∈ m.onWay dst src, ∀ w, msg.request = some w →
    b.place w = if msg.isResponse then .back dst src else .wire dst src
  mail : ∀ i mid msg w, m.received i mid = some msg → msg.request = some w →
    answersTo mid (logs i) = [] → b.place w = .mail i mid
  fresh : ∀ w, m.tables.requests.length ≤ w → b.place w = .nowhere
  asked : ∀ w, (b.place w).isOpen = true → w ∈ b.asked
  back : ∀ dst src, ∀ msg ∈ m.onWay dst src, msg.isResponse = true → ∀ w, msg.request = some w →
    ∃ exception, ⟨w, dst, msg.prId, exception⟩ ∈ b.answers
  settled : Settled b m

variable {logs : Nat → List Event} {b : Books}

/-- The invariant of the cluster. -/
theorem correlating_of_reachedBy {c : Cluster}
    (follows : ReachedBy Cluster.step Cluster.RequestsUncancelled {} c) : c.Correlating := by
  refine follows.invariant Cluster.Correlating ?_ ?_
  · exact fun s label s' valid uncancelled taken => valid.step uncancelled taken
  · exact ⟨Cluster.tagged_init, fun shard => .inl (Cluster.shardOk_init shard), by
      simp [Cluster.Correlated]⟩

theorem Accounted.correlating (accounted : Accounted logs b m) : (m.view b).Correlating :=
  correlating_of_reachedBy accounted.follows

/-- A step of the cluster that issues no request. -/
theorem Accounted.cluster (accounted : Accounted logs b m) {label : Cluster.Label} {c : Cluster}
    (taken : (m.view b).step label = some c) (free : ∀ c, Cluster.RequestsUncancelled c label) :
    ReachedBy Cluster.step Cluster.RequestsUncancelled {} c :=
  accounted.follows.step (free _) taken

/-- No message finds slot 0 active. -/
theorem Accounted.sentinel (accounted : Accounted logs b m) (i : Nat) :
    (m.tables.managers i).isActive 0 = false := by
  rcases accounted.correlating.shards i with sound | cancelled
  · obtain ⟨free, list⟩ := sound.free
    exact list.sentinel
  · exact cancelled.inactive 0

/-- A request holds the slot that its message names. -/
theorem Accounted.slot (accounted : Accounted logs b m) (call : m.calls[w]? = some (dst, msg)) :
    ∃ r, m.tables.requests[w]? = some r ∧ r.shard = msg.srcShardId ∧ r.prId = msg.prId := by
  have address : m.tables.addresses[w]? = some (msg.srcShardId, msg.prId) := by
    rw [accounted.calls, List.getElem?_map, call]
    rfl
  rw [Cluster.addresses, List.getElem?_map] at address
  obtain ⟨r, found, same⟩ := Option.map_eq_some_iff.mp address
  exact ⟨r, found, (Prod.mk.inj same).1, (Prod.mk.inj same).2⟩

theorem mem_eraseIdx_of_ne {α : Type} {l : List α} {a a' : α} {k : Nat} (here : l[k]? = some a)
    (member : a' ∈ l) (differ : a' ≠ a) : a' ∈ l.eraseIdx k := by
  obtain ⟨n, at'⟩ := List.mem_iff_getElem?.mp member
  refine List.mem_eraseIdx_iff_getElem?.mpr ⟨n, ?_, at'⟩
  rintro rfl
  exact differ (Option.some.inj (at'.symm.trans here))

/-- A request that is nowhere is in no message and in no mailbox. -/
theorem Accounted.absent (accounted : Accounted logs b m) (gone : b.place w = .nowhere)
    (member : msg ∈ m.onWay dst src) : msg.request ≠ some w := by
  intro name
  have place := accounted.onWay dst src msg member w name
  rw [gone] at place
  split at place
  · cases place
  · cases place

/-! ## Responses -/

/-- The waiter of the slot has had no response before, and this one is to its request. -/
theorem Accounted.settled_respond (accounted : Accounted logs b m) (name : msg.request = some w)
    {k : Nat} {exception : Bool} (here : b.answers[k]? = some ⟨w, i, msg.prId, exception⟩)
    (follows : ReachedBy Cluster.step Cluster.RequestsUncancelled {}
      ((m.respond i msg).view { b with answers := b.answers.eraseIdx k })) :
    Settled { b with answers := b.answers.eraseIdx k } (m.respond i msg) := by
  have correlating := correlating_of_reachedBy follows
  have tagged := accounted.correlating.tagged
  obtain ⟨fewer, answered⟩ := Cluster.unanswered_eraseIdx tagged here
  have under : w ∈ (m.view b).unanswered :=
    List.mem_append_right _ (List.mem_map.mpr ⟨_, List.mem_of_getElem? here, rfl⟩)
  unfold Machine.respond at correlating ⊢
  simp only at correlating ⊢
  split at correlating
  · next active =>
    rw [if_pos active]
    have mine : ((m.tables.managers i).promise msg.prId).waiter = some w := by
      refine correlating.correlated ⟨i, msg.prId, _, .response w⟩ ?_ w rfl
      rw [name]
      exact List.mem_append_right _ (List.mem_singleton.mpr rfl)
    have lengths : (m.tables.resolveSlot i msg.prId (.response (msg.request.getD
        m.tables.requests.length))).requests.length = m.tables.requests.length := by
      rw [← Cluster.length_addresses, Cluster.addresses_resolveSlot, Cluster.length_addresses]
    constructor
    · intro o member
      show ∃ v, o.1 = some v ∧ o.2.request = some v ∧
        v < (m.tables.resolveSlot i msg.prId _).requests.length ∧ _
      rw [lengths]
      rcases List.mem_append.mp member with old | new
      · obtain ⟨v, waiter, named, below, closed⟩ := accounted.settled.matched o old
        exact ⟨v, waiter, named, below, fun open' => closed (fewer v open')⟩
      · rw [List.mem_singleton.mp new]
        exact ⟨w, mine, name, tagged.issued w under, answered⟩
    · show ((m.outcomes ++ [_]).map _).Nodup
      rw [List.map_append, List.map_singleton, mine]
      refine List.nodup_append.mpr ⟨accounted.settled.once, List.nodup_singleton _, ?_⟩
      intro waiter old waiter' new same
      obtain ⟨o, member, rfl⟩ := List.mem_map.mp old
      obtain ⟨v, waits, -, -, closed⟩ := accounted.settled.matched o member
      rw [List.mem_singleton.mp new, waits] at same
      exact closed (Option.some.inj same ▸ under)
  · next inactive =>
    rw [if_neg inactive]
    exact accounted.settled.mono rfl le_rfl fun v _ => fewer v

/-- The response to request `w` is taken by its shard. -/
theorem Accounted.respond (accounted : Accounted logs b m) (name : msg.request = some w)
    (gone : b.place w = .nowhere) {exception : Bool}
    (answer : ⟨w, i, msg.prId, exception⟩ ∈ b.answers) :
    ∃ b', Accounted logs b' (m.respond i msg) := by
  obtain ⟨k, here⟩ := List.mem_iff_getElem?.mp answer
  let b' : Books := { b with answers := b.answers.eraseIdx k }
  have delivered : Cluster.step (m.view b) (.deliver k) = some ((m.respond i msg).view b') := by
    have flying : (m.view b).answers[k]? = some ⟨w, i, msg.prId, exception⟩ := here
    show Cluster.deliver _ k = _
    unfold Cluster.deliver
    rw [flying]
    unfold Machine.respond
    simp only
    show (if (m.tables.managers i).isActive msg.prId then _ else _) = _
    rw [name]
    split
    · rfl
    · rfl
  have same : (m.respond i msg).onWay = m.onWay ∧ (m.respond i msg).received = m.received ∧
      (m.respond i msg).calls = m.calls ∧
      (m.respond i msg).tables.addresses = m.tables.addresses := by
    unfold Machine.respond
    simp only
    split
    · exact ⟨rfl, rfl, rfl, m.tables.addresses_resolveSlot ..⟩
    · exact ⟨rfl, rfl, rfl, rfl⟩
  obtain ⟨onWay, received, calls, addresses⟩ := same
  have follows := accounted.cluster delivered fun _ => trivial
  refine ⟨b', follows, ?_, ?_, ?_, ?_, ?_, accounted.asked, ?_, ?_⟩
  · rw [addresses, calls]
    exact accounted.calls
  · rw [onWay]
    exact accounted.once
  · rw [onWay]
    exact accounted.onWay
  · rw [received]
    exact accounted.mail
  · intro v beyond
    rw [← Cluster.length_addresses, addresses, Cluster.length_addresses] at beyond
    exact accounted.fresh v beyond
  · rw [onWay]
    intro k' l msg' member response v name'
    obtain ⟨exception', listed⟩ := accounted.back k' l msg' member response v name'
    refine ⟨exception', mem_eraseIdx_of_ne here listed fun same => ?_⟩
    obtain rfl : v = w := congrArg Answer.request same
    exact accounted.absent gone member name'
  · exact accounted.settled_respond name here follows

/-- A response to a message that was no request finds no slot. -/
theorem Accounted.respond_none (accounted : Accounted logs b m) (prId : msg.prId = 0) :
    m.respond i msg = m := by
  unfold Machine.respond
  simp only
  rw [prId, accounted.sentinel i]
  exact if_neg (by simp)

/-! ## Messages -/

/-- The books are ready for a message that is going to shard `dst`. -/
def Ready (m : Machine) (b : Books) (dst : Nat) (msg : Envelope) : Prop :=
  ∀ w, msg.request = some w → b.place w = .nowhere ∧ w < m.tables.requests.length ∧
    if msg.isResponse then ∃ exception, ⟨w, dst, msg.prId, exception⟩ ∈ b.answers else w ∈ b.asked

theorem place_move {name : Option Nat} {place : Place} {v : Nat} :
    (b.move name place).place v = if name = some v then place else b.place v := rfl

theorem Accounted.post (accounted : Accounted logs b m) (ready : m.Ready b dst msg)
    (posted : m.post i dst msg = some m') : ∃ b', Accounted logs b' m' := by
  obtain ⟨c, modified, rfl⟩ := Option.map_eq_some_iff.mp posted
  obtain ⟨q, sent, rfl⟩ := modify_eq_some modified
  have contents : q.contents = m.onWay dst i ++ [msg] := (MessageQueue.contents_send sent).1
  let place : Place := if msg.isResponse then .back dst i else .wire dst i
  have member_iff {k l : Nat} {msg' : Envelope}
      (member : msg' ∈ Machine.onWay { m with channel := m.channel.set dst i q } k l) :
      msg' ∈ m.onWay k l ∨ k = dst ∧ l = i ∧ msg' = msg := by
    rw [onWay_set] at member
    split at member
    · next here =>
      obtain ⟨rfl, rfl⟩ := here
      rw [contents] at member
      exact (List.mem_append.mp member).imp_right fun new => ⟨rfl, rfl, List.mem_singleton.mp new⟩
    · exact .inl member
  -- what is under way or waits for its response is another request
  have other {v : Nat} (somewhere : b.place v ≠ .nowhere) : msg.request ≠ some v :=
    fun name => somewhere (ready v name).1
  refine ⟨b.move msg.request place, accounted.follows, accounted.calls, fun k l => ?_,
    fun k l msg' member v name => ?_, fun j mid msg' v received name unanswered => ?_,
    fun v beyond => ?_, fun v isOpen => ?_, fun k l msg' member response v name => ?_,
    accounted.settled.mono rfl le_rfl fun _ _ open' => open'⟩
  · rw [onWay_set]
    split
    · rw [contents, List.filterMap_append]
      refine List.nodup_append.mpr ⟨accounted.once dst i, ?_, ?_⟩
      · cases name : msg.request with
        | none => simp [name]
        | some w => simp [name]
      · intro v old v' new same
        obtain ⟨msg', member, name⟩ := List.mem_filterMap.mp old
        obtain ⟨msg'', here, name'⟩ := List.mem_filterMap.mp new
        rw [List.mem_singleton.mp here, ← same] at name'
        exact accounted.absent (ready v name').1 member name
    · exact accounted.once k l
  · rw [place_move]
    rcases member_iff member with old | ⟨rfl, rfl, rfl⟩
    · rw [if_neg fun mine => accounted.absent (ready v mine).1 old name]
      exact accounted.onWay k l msg' old v name
    · rw [if_pos name]
  · have before := accounted.mail j mid msg' v received name unanswered
    rw [place_move, if_neg (other (by rw [before]; simp))]
    exact before
  · have less (mine : msg.request = some v) := (ready v mine).2.1
    rw [place_move, if_neg fun mine => absurd (less mine) (Nat.not_lt.mpr beyond)]
    exact accounted.fresh v beyond
  · rw [place_move] at isOpen
    split at isOpen
    · next mine =>
      have known := (ready v mine).2.2
      cases response : msg.isResponse with
      | true =>
        simp only [place, response] at isOpen
        cases isOpen
      | false =>
        rw [response] at known
        exact known
    · exact accounted.asked v isOpen
  · rcases member_iff member with old | ⟨rfl, rfl, rfl⟩
    · exact accounted.back k l msg' old response v name
    · have known := (ready v name).2.2
      rw [if_pos response] at known
      exact known

/-- A shard makes a message of what it receives. -/
theorem Accounted.record (accounted : Accounted logs b m) (ready : m.Ready b i msg)
    (call : msg.isResponse = false) : ∃ b', Accounted logs b' (m.record i msg) := by
  have other {v : Nat} (somewhere : b.place v ≠ .nowhere) : msg.request ≠ some v :=
    fun name => somewhere (ready v name).1
  refine ⟨b.move msg.request (.mail i (m.shards i).nextMid), accounted.follows, accounted.calls,
    accounted.once, fun k l msg' member v name => ?_,
    fun j mid msg' v received name unanswered => ?_, fun v beyond => ?_, fun v isOpen => ?_,
    accounted.back, accounted.settled.mono rfl le_rfl fun _ _ open' => open'⟩
  · rw [place_move, if_neg fun mine => accounted.absent (ready v mine).1 member name]
    exact accounted.onWay k l msg' member v name
  · have old (before : m.received j mid = some msg') :
        (b.move msg.request (.mail i (m.shards i).nextMid)).place v = .mail j mid := by
      have place := accounted.mail j mid msg' v before name unanswered
      rw [place_move, if_neg (other (by rw [place]; simp))]
      exact place
    change Function.update m.received i _ j mid = some msg' at received
    rw [Function.update_apply] at received
    split at received
    · next here =>
      subst here
      rw [Function.update_apply] at received
      split at received
      · next new =>
        obtain rfl := Option.some.inj received
        rw [place_move, if_pos name, new]
      · exact old received
    · exact old received
  · have less (mine : msg.request = some v) := (ready v mine).2.1
    rw [place_move, if_neg fun mine => absurd (less mine) (Nat.not_lt.mpr beyond)]
    exact accounted.fresh v beyond
  · rw [place_move] at isOpen
    split at isOpen
    · next mine =>
      have known := (ready v mine).2.2
      rw [call] at known
      exact known
    · exact accounted.asked v isOpen

/-- The first message of a queue is taken. -/
theorem Accounted.take (accounted : Accounted logs b m) {q : MessageQueue Envelope}
    (contents : m.onWay dst src = msg :: q.contents) :
    ∃ b', Accounted logs b' { m with channel := m.channel.set dst src q } ∧
      Machine.Ready { m with channel := m.channel.set dst src q } b' dst msg := by
  have first : msg ∈ m.onWay dst src := contents ▸ List.mem_cons_self
  have place (w : Nat) (name : msg.request = some w) :
      b.place w = if msg.isResponse then .back dst src else .wire dst src :=
    accounted.onWay dst src msg first w name
  have somewhere {w : Nat} (name : msg.request = some w) : b.place w ≠ .nowhere := by
    rw [place w name]
    split
    · simp
    · simp
  have left {k l : Nat} {msg' : Envelope}
      (member : msg' ∈ Machine.onWay { m with channel := m.channel.set dst src q } k l) :
      msg' ∈ m.onWay k l ∧ ∀ w, msg'.request = some w → msg.request ≠ some w := by
    rw [onWay_set] at member
    split at member
    · next here =>
      obtain ⟨rfl, rfl⟩ := here
      refine ⟨contents ▸ List.mem_cons_of_mem msg member, fun w name mine => ?_⟩
      have once := accounted.once k l
      rw [contents, List.filterMap_cons, mine] at once
      exact (List.nodup_cons.mp once).1 (List.mem_filterMap.mpr ⟨msg', member, name⟩)
    · next elsewhere =>
      refine ⟨member, fun w name mine => elsewhere ?_⟩
      have here := accounted.onWay k l msg' member w name
      rw [place w mine] at here
      cases response : msg.isResponse <;> cases response' : msg'.isResponse <;>
        simp [response, response'] at here
      · exact ⟨here.1.symm, here.2.symm⟩
      · exact ⟨here.1.symm, here.2.symm⟩
  refine ⟨b.move msg.request .nowhere, ⟨accounted.follows, accounted.calls, fun k l => ?_,
    fun k l msg' member v name => ?_, fun j mid msg' v received name unanswered => ?_,
    fun v beyond => ?_, fun v isOpen => ?_, fun k l msg' member response v name =>
      accounted.back k l msg' (left member).1 response v name,
    accounted.settled.mono rfl le_rfl fun _ _ open' => open'⟩, fun w name => ⟨?_, ?_, ?_⟩⟩
  · rw [onWay_set]
    split
    · have once := accounted.once dst src
      rw [contents] at once
      exact once.sublist ((List.sublist_cons_self msg q.contents).filterMap _)
    · exact accounted.once k l
  · rw [place_move, if_neg ((left member).2 v name)]
    exact accounted.onWay k l msg' (left member).1 v name
  · have before := accounted.mail j mid msg' v received name unanswered
    rw [place_move, if_neg fun mine => ?_]
    · exact before
    · rw [place v mine] at before
      split at before
      · cases before
      · cases before
  · rw [place_move]
    split
    · rfl
    · exact accounted.fresh v beyond
  · rw [place_move] at isOpen
    split at isOpen
    · cases isOpen
    · exact accounted.asked v isOpen
  · rw [place_move, if_pos name]
  · by_contra beyond
    exact somewhere name (accounted.fresh w (Nat.not_lt.mp beyond))
  · cases response : msg.isResponse with
    | true => exact accounted.back dst src msg first response w name
    | false =>
      refine accounted.asked w ?_
      rw [place w name, response]
      rfl

/-- What changes is none of the messages. -/
theorem Accounted.of_same (accounted : Accounted logs b m)
    (follows : ReachedBy Cluster.step Cluster.RequestsUncancelled {} (m'.view b))
    (onWay : m'.onWay = m.onWay) (received : m'.received = m.received)
    (calls : m'.calls = m.calls) (outcomes : m'.outcomes = m.outcomes)
    (addresses : m'.tables.addresses = m.tables.addresses) : Accounted logs b m' where
  follows := follows
  calls := by
    rw [addresses, calls]
    exact accounted.calls
  once := onWay ▸ accounted.once
  onWay := onWay ▸ accounted.onWay
  mail := received ▸ accounted.mail
  fresh := by
    rw [← Cluster.length_addresses, addresses, Cluster.length_addresses]
    exact accounted.fresh
  asked := accounted.asked
  back := onWay ▸ accounted.back
  settled := by
    refine accounted.settled.mono outcomes ?_ fun _ _ open' => open'
    rw [← Cluster.length_addresses, ← Cluster.length_addresses, addresses]

theorem Accounted.install (accounted : Accounted logs b m) (s : Shard) :
    Accounted logs b (m.installed i s) := by
  cases stopping : s.rootStopping with
  | false =>
    refine accounted.of_same ?_ rfl rfl rfl rfl ?_
    · unfold Machine.view installed
      rw [stopping]
      exact accounted.follows
    · unfold installed
      rw [stopping]
      rfl
  | true =>
    refine accounted.of_same ?_ rfl rfl rfl rfl ?_
    · have stopped : (m.view b).step (.stop i) = some ((m.installed i s).view b) := by
        unfold Machine.view installed
        rw [stopping]
        exact congrArg some (m.tables.withBags_stopActorSystem ..)
      exact accounted.cluster stopped fun _ => trivial
    · unfold installed
      rw [stopping]
      exact m.tables.addresses_stopActorSystem i

/-- The objects of some shards have done more. -/
theorem Accounted.longer {logs' : Nat → List Event} (accounted : Accounted logs b m)
    (longer : ∀ i, logs i <+: logs' i) : Accounted logs' b m :=
  { accounted with
    mail := by
      intro i mid msg w received name unanswered
      obtain ⟨rest, split⟩ := longer i
      refine accounted.mail i mid msg w received name ?_
      rw [← split] at unanswered
      exact (List.append_eq_nil_iff.mp (List.filterMap_append.symm.trans unanswered)).1 }

/-! ## Answers -/

theorem answersTo_sent (q : Path) (r : Reply) : answersTo r.mid [.sent q r] = [r] := by
  simp [answersTo]

/-- A shard sends at most one response to a message. -/
theorem length_answersTo {s : Shard} {mid : Nat}
    (reachable : Reachable Shard.step (.init limitOf) s) (followed : mid ≠ 0) :
    (answersTo mid s.log).length ≤ 1 := by
  obtain ⟨traced, lived⟩ := Shard.lived_of_reachable reachable
  have right : stageOf s.log mid ≠ .wrong := by
    intro wrong
    have sound : Sound _ _ mid (stageOf s.log mid) := traced.sound followed
    rw [wrong] at sound
    exact sound
  have once : (stageOf s.log mid).Once := lived.once followed
  rw [← answers_stageOf followed right]
  cases mine : (stageOf s.log mid).msg? with
  | none =>
    cases stage : stageOf s.log mid <;> simp_all [Stage.msg?, Stage.answers]
  | some m =>
    rcases once.answers mine with nothing | ⟨failed, one⟩
    · rw [nothing]
      exact Nat.zero_le 1
    · rw [one]
      exact le_rfl

/-- Shard `i` answers the request of a message that it has received. -/
theorem Accounted.answer (accounted : Accounted logs b m) {q : Path} {r : Reply} {orig : Envelope}
    (received : m.received i r.mid = some orig) (name : orig.request = some w)
    (call : m.calls[w]? = some (dst, orig)) (asker : orig.srcShardId = r.shardId)
    (slot : orig.prId = r.prId) (first : answersTo r.mid (logs i) = []) :
    ∃ b', Accounted (Function.update logs i (logs i ++ [.sent q r])) b' m ∧
      b'.place w = .nowhere ∧ w < m.tables.requests.length ∧
      ⟨w, r.shardId, r.prId, r.exception⟩ ∈ b'.answers := by
  have here : b.place w = .mail i r.mid := accounted.mail i r.mid orig w received name first
  have listed : w ∈ b.asked := by
    refine accounted.asked w ?_
    rw [here]
    rfl
  obtain ⟨k, found⟩ := List.mem_iff_getElem?.mp listed
  obtain ⟨request, issued, shard, prId⟩ := accounted.slot call
  let b' : Books :=
    { place := fun v => if v = w then .nowhere else b.place v
      asked := b.asked.eraseIdx k
      answers := b.answers ++ [⟨w, r.shardId, r.prId, r.exception⟩] }
  have answered : (m.view b).step (.answer k r.exception) = some (m.view b') := by
    show Cluster.answer _ k r.exception = _
    unfold Cluster.answer
    have asked : (m.view b).asked[k]? = some w := found
    have known : (m.view b).requests[w]? = some request := issued
    simp only [asked, known, shard, prId, asker, slot]
    rfl
  have elsewhere {v : Nat} (place : b.place v ≠ .mail i r.mid) : b'.place v = b.place v := by
    refine if_neg fun same => place ?_
    rw [same]
    exact here
  have below : w < m.tables.requests.length := (List.getElem?_eq_some_iff.mp issued).1
  refine ⟨b', ⟨accounted.cluster answered fun _ => trivial, accounted.calls, accounted.once,
    fun k l msg member v name' => ?_, fun j mid msg v received' name' unanswered => ?_,
    fun v beyond => ?_, fun v isOpen => ?_, fun k l msg member response v name' => ?_,
    accounted.settled.mono rfl le_rfl fun v _ =>
      (Cluster.unanswered_answer (s := m.view b) (r := ⟨r.shardId, r.prId, false, false⟩)
        found).mem_iff.mp⟩, if_pos rfl, below,
    List.mem_append_right _ (List.mem_singleton.mpr rfl)⟩
  · have place := accounted.onWay k l msg member v name'
    rw [elsewhere, place]
    rw [place]
    split
    · simp
    · simp
  · have shorter : answersTo mid (logs j) = [] := by
      rw [Function.update_apply] at unanswered
      split at unanswered
      · next same =>
        rw [same]
        exact (List.append_eq_nil_iff.mp (List.filterMap_append.symm.trans unanswered)).1
      · exact unanswered
    have place := accounted.mail j mid msg v received' name' shorter
    rw [elsewhere, place]
    rintro mine
    rw [place] at mine
    obtain ⟨rfl, rfl⟩ := Place.mail.inj mine
    -- the response that is sent now is one to this message
    rw [Function.update_self] at unanswered
    have both := List.filterMap_append.symm.trans unanswered
    have one := (List.append_eq_nil_iff.mp both).2
    rw [show List.filterMap _ [Event.sent q r] = [r] from answersTo_sent q r] at one
    cases one
  · have old := accounted.fresh v beyond
    rw [elsewhere, old]
    rw [old]
    simp
  · by_cases same : v = w
    · rw [show b'.place v = .nowhere from if_pos same] at isOpen
      cases isOpen
    · rw [show b'.place v = b.place v from if_neg same] at isOpen
      exact mem_eraseIdx_of_ne found (accounted.asked v isOpen) same
  · obtain ⟨exception, old⟩ := accounted.back k l msg member response v name'
    exact ⟨exception, List.mem_append_left _ old⟩

/-- A response that is about no request names no slot. -/
theorem Mailed.prId_eq_zero (mailed : Mailed limitOf m) (genuine : m.Genuine src dst msg)
    (nobody : msg.request = none) : msg.prId = 0 := by
  obtain ⟨q, r, -, -, -, -, prId, internal | ⟨orig, received, same, -, slot, -⟩⟩ := genuine
  · rw [prId]
    exact congrArg Ticket.prId internal.1
  · rw [prId, ← slot]
    obtain ⟨-, -, -, -, ⟨-, none⟩ | ⟨w, name, -⟩⟩ := mailed.received src r.mid orig received
    · exact none
    · rw [same, name] at nobody
      cases nobody

/-- Shard `i` sends a response. -/
theorem Accounted.reply (accounted : Accounted logs b m) (mailed : Mailed limitOf m) {q : Path}
    {r : Reply} (sent : .sent q r ∈ (m.shards i).log)
    (first : r.mid ≠ 0 → answersTo r.mid (logs i) = []) (replied : m.reply i r = some m') :
    ∃ b', Accounted (Function.update logs i (logs i ++ [.sent q r])) b' m' := by
  have longer : ∀ j, logs j <+: Function.update logs i (logs i ++ [.sent q r]) j := by
    intro j
    rw [Function.update_apply]
    split
    · next same =>
      rw [same]
      exact List.prefix_append ..
    · exact List.prefix_rfl
  unfold Machine.reply at replied
  cases name : (m.responseEnvelope i r).request with
  | none =>
    split at replied
    · have prId := mailed.prId_eq_zero (mailed.genuine sent) name
      rw [accounted.respond_none prId] at replied
      exact Option.some.inj replied ▸ ⟨b, accounted.longer longer⟩
    · refine (accounted.longer longer).post (fun w mine => ?_) replied
      rw [name] at mine
      cases mine
  | some w =>
    rcases mailed.origin sent with ⟨-, nobody⟩ | ⟨orig, received, same, asker, slot, -⟩
    · rw [nobody] at name
      cases name
    · have named : orig.request = some w := same.symm.trans name
      obtain ⟨followed, -, -, -, ⟨nobody, -⟩ | ⟨v, mine, call⟩⟩ :=
        mailed.received i r.mid orig received
      · rw [nobody] at named
        cases named
      · obtain rfl := Option.some.inj (mine.symm.trans named)
        obtain ⟨b', answered, gone, below, answer⟩ :=
          accounted.answer (q := q) received named call asker slot (first followed)
        split at replied
        · next here =>
          rw [here] at answer
          exact Option.some.inj replied ▸ answered.respond name gone answer
        · refine answered.post (fun u mine' => ?_) replied
          obtain rfl := Option.some.inj (name.symm.trans mine')
          refine ⟨gone, below, ?_⟩
          rw [if_pos (mailed.genuine sent).isResponse]
          exact ⟨r.exception, answer⟩

theorem Mailed.event {e : Event} (mailed : Mailed limitOf m) (listed : e ∈ (m.shards i).log)
    (followed : m.follow i e = some m') : Mailed limitOf m' := by
  cases e with
  | sent q r => exact mailed.reply listed followed
  | _ => exact Option.some.inj followed ▸ mailed

/-- One of the events of a step is followed. -/
theorem Accounted.event {e : Event} {events : List Event} (accounted : Accounted logs b m)
    (mailed : Mailed limitOf m) (split : logs i ++ e :: events = (m.shards i).log)
    (followed : m.follow i e = some m') :
    ∃ b', Accounted (Function.update logs i (logs i ++ [e])) b' m' := by
  have listed : e ∈ (m.shards i).log := by simp [← split]
  cases e with
  | sent q r =>
    refine accounted.reply mailed listed (fun positive => ?_) followed
    have atMost := length_answersTo (mailed.shards i) positive
    rw [← split, show logs i ++ .sent q r :: events = logs i ++ [.sent q r] ++ events by simp]
      at atMost
    unfold answersTo at atMost ⊢
    rw [List.filterMap_append, List.filterMap_append, List.length_append, List.length_append,
      show List.filterMap _ [Event.sent q r] = [r] from answersTo_sent q r,
      List.length_singleton] at atMost
    exact List.eq_nil_of_length_eq_zero (by omega)
  | _ =>
    refine Option.some.inj followed ▸ ⟨b, accounted.longer fun j => ?_⟩
    rw [Function.update_apply]
    split
    · next same =>
      rw [same]
      exact List.prefix_append ..
    · exact List.prefix_rfl

/-- All responses of a step are sent. -/
theorem Accounted.foldlM {events : List Event} (accounted : Accounted logs b m)
    (mailed : Mailed limitOf m) (split : logs i ++ events = (m.shards i).log)
    (ran : events.foldlM (follow i) m = some m') :
    ∃ b', Accounted (Function.update logs i (m.shards i).log) b' m' := by
  induction events generalizing logs b m with
  | nil =>
    rw [List.append_nil] at split
    rw [← split, Function.update_eq_self]
    exact Option.some.inj ran ▸ ⟨b, accounted⟩
  | cons e events ih =>
    obtain ⟨t, followed, rest⟩ := foldlM_cons_eq_some ran
    obtain ⟨b', after⟩ := accounted.event mailed split followed
    have same : t.shards = m.shards := (sends_follow followed).shards
    obtain ⟨b'', final⟩ := ih after (mailed.event (by simp [← split]) followed) (by
      rw [Function.update_self, same, ← split]
      simp) rest
    rw [same, Function.update_idem] at final
    exact ⟨b'', final⟩

end Machine

end Hiactor
