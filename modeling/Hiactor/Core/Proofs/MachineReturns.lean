import Hiactor.Core.Proofs.MachineRuns
import Hiactor.Core.Proofs.RequestEnds

/-!
# Responses come back

A response that a shard has sent to a request is on its way to the client until the promise of the
request is resolved. No response is lost between the shards, and none meets a promise that nobody
resolves.
-/

namespace Hiactor

open Lib

namespace Machine

variable {m m' : Machine} {i dst src w : Nat} {msg orig : Envelope} {limitOf : ActorKey → Nat}
  {logs : Nat → List Event} {b : Books}

/-- Shard `i` has answered the request `w`, which came as `orig`: the response is on its way, or the
promise of the request has been resolved. -/
def Returns (m : Machine) (i : Nat) (orig : Envelope) (w : Nat) : Prop :=
  m.tables.Resolved w ∨ orig.srcShardId ≠ i ∧
    ∃ msg ∈ m.onWay orig.srcShardId i, msg.isResponse = true ∧ msg.request = some w

/-- Every request that was answered has its response, as far as those in `logs` have been sent. -/
def Returned (logs : Nat → List Event) (m : Machine) : Prop :=
  ∀ i mid orig w, m.received i mid = some orig → orig.request = some w →
    answersTo mid (logs i) ≠ [] → m.Returns i orig w

/-- Promises stay resolved, and the queues only grow. -/
structure Carries (m m' : Machine) : Prop where
  resolutions : m.tables.resolutions <+: m'.tables.resolutions
  onWay : ∀ dst src, ∀ msg ∈ m.onWay dst src, msg ∈ m'.onWay dst src

theorem Carries.of_eq (tables : m'.tables = m.tables) (onWay : m'.onWay = m.onWay) :
    Carries m m' := by
  refine ⟨tables ▸ List.prefix_rfl, fun dst src msg member => ?_⟩
  rw [onWay]
  exact member

theorem Returns.carry (returns : m.Returns i orig w) (carries : Carries m m') :
    m'.Returns i orig w := by
  rcases returns with resolved | ⟨apart, msg, member, response⟩
  · exact .inl (resolved.mono carries.resolutions.subset)
  · exact .inr ⟨apart, msg, carries.onWay _ _ msg member, response⟩

theorem Returned.carry (returned : Returned logs m) (received : m'.received = m.received)
    (carries : Carries m m') : Returned logs m' := by
  intro j mid orig w found name answered
  rw [received] at found
  exact (returned j mid orig w found name answered).carry carries

/-! ## Responses -/

theorem carries_respond : Carries m (m.respond i msg) := by
  unfold Machine.respond
  simp only
  split
  · exact ⟨List.prefix_append .., fun _ _ _ member => member⟩
  · exact ⟨List.prefix_rfl, fun _ _ _ member => member⟩

theorem carries_post (posted : m.post i dst msg = some m') :
    Carries m m' ∧ msg ∈ m'.onWay dst i := by
  obtain ⟨c, modified, rfl⟩ := Option.map_eq_some_iff.mp posted
  obtain ⟨q, sent, rfl⟩ := modify_eq_some modified
  have contents : q.contents = m.onWay dst i ++ [msg] := (MessageQueue.contents_send sent).1
  refine ⟨⟨List.prefix_rfl, fun k l other member => ?_⟩, ?_⟩
  · rw [onWay_set]
    split
    · next here =>
      obtain ⟨rfl, rfl⟩ := here
      rw [contents]
      exact List.mem_append_left _ member
    · exact member
  · rw [onWay_set, if_pos ⟨rfl, rfl⟩, contents]
    exact List.mem_append_right _ List.mem_cons_self

/-- A response resolves the promise of its request, unless a stop has done so. -/
theorem Accounted.resolved_respond (accounted : Accounted logs b m) {exception : Bool}
    (answer : ⟨w, i, msg.prId, exception⟩ ∈ b.answers) :
    (m.respond i msg).tables.Resolved w := by
  have tagged := accounted.correlating.tagged
  obtain ⟨k, flying⟩ := List.mem_iff_getElem?.mp answer
  rcases Cluster.ends_of_reachedBy accounted.follows i with sound | ⟨-, given⟩
  · obtain ⟨r, held, -⟩ := Cluster.ShardOk.heldBy_answer tagged flying sound
    have active : (m.tables.managers i).isActive msg.prId = true := held.active
    unfold Machine.respond
    simp only
    rw [if_pos active]
    refine ⟨_, List.mem_append_right _ (List.mem_singleton.mpr rfl), ?_⟩
    exact congrArg Promise.waiter held.promise
  · obtain ⟨r, found, owner, -⟩ := tagged.header _ answer
    have resolved : m.tables.Resolved w := given w r found owner
    exact resolved.mono carries_respond.resolutions.subset

theorem answersTo_append_of_ne {e : Event} {mid : Nat} (log : List Event)
    (other : ∀ q r, e = .sent q r → r.mid ≠ mid) :
    answersTo mid (log ++ [e]) = answersTo mid log := by
  unfold answersTo
  rw [List.filterMap_append]
  cases e with
  | sent q r => simp [other q r rfl]
  | _ => exact List.append_nil _

/-- One of the events of a step is followed. -/
theorem Returned.event {e : Event} {events : List Event} (returned : Returned logs m)
    (accounted : Accounted logs b m) (mailed : Mailed limitOf m)
    (split : logs i ++ e :: events = (m.shards i).log) (followed : m.follow i e = some m') :
    Returned (Function.update logs i (logs i ++ [e])) m' := by
  have listed : e ∈ (m.shards i).log := by simp [← split]
  have sends := sends_follow followed
  have carries : Carries m m' := by
    cases e with
    | sent q r =>
      change m.reply i r = some m' at followed
      unfold Machine.reply at followed
      split at followed
      · exact Option.some.inj followed ▸ carries_respond
      · exact (carries_post followed).1
    | _ => exact Option.some.inj followed ▸ .of_eq rfl rfl
  intro j mid orig w found name answered
  rw [sends.received] at found
  by_cases before : answersTo mid (logs j) = []
  · -- the event is the response
    have here : j = i := by
      by_contra elsewhere
      rw [Function.update_of_ne elsewhere] at answered
      exact answered before
    subst here
    rw [Function.update_self] at answered
    obtain ⟨q, r, rfl, rfl⟩ : ∃ q r, e = .sent q r ∧ r.mid = mid := by
      by_contra none
      push Not at none
      exact answered ((answersTo_append_of_ne _ none).trans before)
    obtain ⟨positive, -, -, -, ⟨nobody, -⟩ | ⟨v, mine, call⟩⟩ := mailed.received j r.mid orig found
    · rw [nobody] at name
      cases name
    obtain rfl := Option.some.inj (mine.symm.trans name)
    rcases mailed.origin listed with ⟨internal, -⟩ | ⟨orig', received, same, asker, slot, -⟩
    · exact absurd (congrArg Ticket.mid internal) positive
    obtain rfl := Option.some.inj (received.symm.trans found)
    change m.reply j r = some m' at followed
    unfold Machine.reply at followed
    split at followed
    · next own =>
      obtain rfl := Option.some.inj followed
      obtain ⟨b', answered', -, -, answer⟩ :=
        accounted.answer (q := q) found name call asker slot before
      rw [own] at answer
      exact .inl (answered'.resolved_respond answer)
    · next apart =>
      have response := (mailed.genuine listed).isResponse
      refine .inr ⟨asker ▸ apart, _, ?_, response, same.trans name⟩
      rw [asker]
      exact (carries_post followed).2
  · exact (returned j mid orig w found name before).carry carries

/-- All responses of a step are sent. -/
theorem Returned.foldlM {events : List Event} (returned : Returned logs m)
    (accounted : Accounted logs b m) (mailed : Mailed limitOf m)
    (split : logs i ++ events = (m.shards i).log)
    (ran : events.foldlM (follow i) m = some m') :
    Returned (Function.update logs i (m.shards i).log) m' := by
  induction events generalizing logs b m with
  | nil =>
    rw [List.append_nil] at split
    rw [← split, Function.update_eq_self]
    exact Option.some.inj ran ▸ returned
  | cons e events ih =>
    obtain ⟨t, followed, rest⟩ := foldlM_cons_eq_some ran
    obtain ⟨b', after⟩ := accounted.event mailed split followed
    have same : t.shards = m.shards := (sends_follow followed).shards
    have final := ih (returned.event accounted mailed split followed) after
      (mailed.event (by simp [← split]) followed) (by
        rw [Function.update_self, same, ← split]
        simp) rest
    rw [same, Function.update_idem] at final
    exact final

theorem carries_installed (s : Shard) : Carries m (m.installed i s) := by
  refine ⟨?_, fun _ _ _ member => member⟩
  show m.tables.resolutions <+:
    (if s.rootStopping then m.tables.stopActorSystem i else m.tables).resolutions
  split
  · exact Cluster.resolutions_stopActorSystem m.tables i
  · exact List.prefix_rfl

/-- The objects of a shard take a step and the responses are sent. -/
theorem Returned.settle {m₁ : Machine} {s : Shard} {label : Shard.Label}
    (returned : Returned m.logs m₁) (accounted : Accounted m.logs b m₁)
    (mailed : Mailed limitOf m) (records : Records m m₁ i s)
    (taken : (m.shards i).step label = some s) (brings : (m.shards i).Brings (m₁.known i) label)
    (settled : m₁.settle i s = some m') : Returned m'.logs m' := by
  have valid := Shard.valid_of_reachable (mailed.shards i)
  have done := settle_eq_some settled
  have mine : (m₁.installed i s).shards i = s := Function.update_self ..
  have kept : Returned m.logs (m₁.installed i s) := returned.carry rfl (carries_installed s)
  have final := kept.foldlM (accounted.install s) (mailed.install records taken brings) (by
      rw [mine, records.shards]
      exact (List.prefix_iff_eq_append.mp (Shard.log_step valid taken))) done
  rw [logs_settle records done]
  exact final

/-! ## Messages -/

/-- A shard has not answered what it has not received. -/
theorem answersTo_fresh {s : Shard} {mid : Nat}
    (reachable : Reachable Shard.step (.init limitOf) s) (fresh : s.nextMid ≤ mid) :
    answersTo mid s.log = [] := by
  obtain ⟨traced, -⟩ := Shard.lived_of_reachable reachable
  have followed : mid ≠ 0 := (traced.pos.trans_le fresh).ne'
  have stage : stageOf s.log mid = .fresh := traced.fresh mid fresh
  have right : stageOf s.log mid ≠ .wrong := by
    rw [stage]
    simp
  rw [← answers_stageOf followed right, stage]
  rfl

theorem Returned.record {s : Shard} (returned : Returned m.logs m) (mailed : Mailed limitOf m)
    (records : Records m (m.record i msg) i s) : Returned m.logs (m.record i msg) := by
  intro j mid orig w found name answered
  rcases records.adds j mid orig found with old | ⟨rfl, rfl, -⟩
  · exact (returned j mid orig w old name answered).carry (.of_eq rfl rfl)
  · exact absurd (answersTo_fresh (mailed.shards j) le_rfl) answered

/-- A shard receives a message of a client. -/
theorem Returned.receive (returned : Returned m.logs m) (accounted : Accounted m.logs b m)
    (mailed : Mailed limitOf m) (issued : m.Issued i msg) (ready : m.Ready b i msg)
    (received : m.receive i msg = some m') : Returned m'.logs m' := by
  unfold Machine.receive at received
  rw [if_neg (by simp [issued.1])] at received
  obtain ⟨s, taken, settled⟩ := Option.bind_eq_some_iff.mp received
  obtain ⟨b', recorded⟩ := accounted.record ready issued.1
  have records := records_record mailed issued (nextMid_receive taken)
  exact (returned.record mailed records).settle recorded mailed records taken
    (brings_record issued) settled

theorem Returned.send (returned : Returned m.logs m) (accounted : Accounted m.logs b m)
    (mailed : Mailed limitOf m) (issued : m.Issued dst msg) (ready : m.Ready b dst msg)
    (sent : m.send i dst msg = some m') : Returned m'.logs m' := by
  have noted : Accounted (m.note i dst msg).logs b (m.note i dst msg) :=
    accounted.of_same accounted.follows rfl rfl rfl rfl rfl
  have kept : Returned (m.note i dst msg).logs (m.note i dst msg) :=
    returned.carry rfl (.of_eq rfl rfl)
  unfold Machine.send at sent
  split at sent
  · next here =>
    subst here
    exact kept.receive noted mailed.note issued ready sent
  · have sends := sends_post sent
    rw [sends.logs]
    exact kept.carry sends.received (carries_post sent).1

/-! ## Steps -/

theorem Returned.onQueue (returned : Returned m.logs m) (mailed : Mailed limitOf m)
    {f : MessageQueue Envelope → Option (MessageQueue Envelope)}
    (same : ∀ q q', q.InBounds → f q = some q' → q'.contents = q.contents)
    (moved : m.onQueue dst src f = some m') : Returned m'.logs m' := by
  unfold Machine.onQueue at moved
  split at moved
  · obtain ⟨c, modified, rfl⟩ := Option.map_eq_some_iff.mp moved
    obtain ⟨q, result, rfl⟩ := modify_eq_some modified
    refine returned.carry rfl (.of_eq rfl ?_)
    funext k l
    rw [onWay_set]
    split
    · next here =>
      obtain ⟨rfl, rfl⟩ := here
      exact same _ q (mailed.inBounds k l) result
    · rfl
  · cases moved

/-- The poller of a shard takes the first message of a queue. -/
theorem Returned.handle (returned : Returned m.logs m) (accounted : Accounted m.logs b m)
    (mailed : Mailed limitOf m) (handled : m.handle dst src = some m') :
    Returned m'.logs m' := by
  unfold Machine.handle at handled
  split at handled
  · split at handled
    · next msg q next =>
      obtain ⟨first, left, fine⟩ := mailed.handleNext next
      obtain ⟨b', taken, ready⟩ := accounted.take first
      let t : Machine := { m with channel := m.channel.set dst src q }
      -- what is left in the queues
      have stays {k l : Nat} {other : Envelope} (member : other ∈ m.onWay k l) :
          other ∈ t.onWay k l ∨ (k = dst ∧ l = src) ∧ other = msg := by
        rw [onWay_set]
        split
        · next here =>
          rw [here.1, here.2, first] at member
          exact (List.mem_cons.mp member).symm.imp id fun same => ⟨here, same⟩
        · exact .inl member
      cases response : msg.isResponse with
      | true =>
        unfold Machine.receive at handled
        rw [if_pos response] at handled
        obtain rfl := Option.some.inj handled
        have sends : Sends t (t.respond dst msg) := sends_respond
        have carries : Carries t (t.respond dst msg) := carries_respond
        rw [sends.logs]
        intro j mid orig w found name answered
        rw [sends.received] at found
        rcases returned j mid orig w found name answered with resolved | ⟨apart, msg', member, is⟩
        · have before : t.tables.Resolved w := resolved
          exact .inl (before.mono carries.resolutions.subset)
        · rcases stays member with on | ⟨-, rfl⟩
          · exact .inr ⟨apart, msg', carries.onWay _ _ _ on, is⟩
          · obtain ⟨-, -, known⟩ := ready w is.2
            rw [if_pos response] at known
            obtain ⟨exception, answer⟩ := known
            exact .inl (taken.resolved_respond answer)
      | false =>
        have kept : Returned t.logs t := by
          intro j mid orig w found name answered
          rcases returned j mid orig w found name answered with resolved | ⟨apart, msg', member, is⟩
          · exact .inl resolved
          · refine .inr ⟨apart, msg', (stays member).resolve_right ?_, is⟩
            rintro ⟨-, rfl⟩
            rw [response] at is
            cases is.1
        exact kept.receive taken left (issued_of_call fine response) ready handled
    · cases handled
  · cases handled

theorem Returned.step {label : Label} (returned : Returned m.logs m)
    (accounted : Accounted m.logs b m) (mailed : Mailed limitOf m)
    (uncancelled : m.RequestsUncancelled label) (taken : m.step label = some m') :
    Returned m'.logs m' := by
  cases label with
  | request i dst addr type =>
    change m.request i dst addr type = some m' at taken
    unfold Machine.request at taken
    simp only at taken
    split at taken
    · next can =>
      obtain ⟨-, -, -, isCall, wellFormed⟩ := can
      have call := isResponse_of_isCall isCall
      obtain ⟨b', issued, ready⟩ := accounted.issue dst (m.requestEnvelope i addr type)
        uncancelled rfl rfl rfl call
      obtain ⟨issues, fine, -⟩ := mailed.issue (i := i) dst (m.requestEnvelope i addr type)
        call wellFormed rfl
      have kept : Returned m.logs { m with
          tables := m.tables.request i
          calls := m.calls ++ [(dst, m.requestEnvelope i addr type)] } :=
        returned.carry rfl ⟨List.prefix_rfl, fun _ _ _ member => member⟩
      exact kept.send issued issues fine ready taken
    · cases taken
  | tell i dst addr type =>
    change m.tell i dst addr type = some m' at taken
    unfold Machine.tell at taken
    simp only at taken
    split at taken
    · next can =>
      obtain ⟨-, -, -, isCall, wellFormed⟩ := can
      have fine : m.Issued dst (oneWayEnvelope i addr type) :=
        ⟨isResponse_of_isCall isCall, wellFormed, .inl ⟨rfl, rfl⟩⟩
      exact returned.send accounted mailed fine (fun w name => nomatch name) taken
    · cases taken
  | act i act =>
    have steps (brings : (m.shards i).Brings (m.known i) act)
        (went : (if i < m.count then ((m.shards i).step act).bind (m.settle i) else none) =
          some m') : Returned m'.logs m' := by
      split at went
      · obtain ⟨s, moved, settled⟩ := Option.bind_eq_some_iff.mp went
        exact returned.settle accounted mailed .refl moved brings settled
      · cases went
    cases act with
    | receive => cases taken
    | _ => exact steps trivial taken
  | flush dst src =>
    exact returned.onQueue mailed
      (fun _ _ _ done => (MessageQueue.contents_flushRequestBatch done).1) taken
  | popFirst dst src =>
    exact returned.onQueue mailed (fun _ _ _ done => (MessageQueue.contents_popFirst done).1) taken
  | popRest dst src =>
    exact returned.onQueue mailed (fun _ _ _ done => (MessageQueue.contents_popRest done).1) taken
  | handle dst src => exact returned.handle accounted mailed taken
  | continuation w =>
    obtain ⟨tables, continued, rfl⟩ := Option.map_eq_some_iff.mp taken
    have moved : Cluster.step m.tables (.continuation w) = some tables := continued
    exact returned.carry rfl ⟨Cluster.resolutions_step moved, fun _ _ _ member => member⟩

/-- In every run of a machine that issues no request on a shard whose promises were cancelled, the
response of a shard to a request is on its way to the client, or the promise of the request has been
resolved: no response is lost. -/
theorem responses_return {count : Nat} {labels : List Label}
    (uncancelled : StepsMeet step RequestsUncancelled (init count limitOf) labels)
    (ran : run step (init count limitOf) labels = some m) {mid : Nat}
    (received : m.received i mid = some orig) (name : orig.request = some w)
    (answered : answersTo mid (m.shards i).log ≠ []) : m.Returns i orig w := by
  have all : Mailed limitOf m ∧ (∃ b, Accounted m.logs b m) ∧ Returned m.logs m := by
    refine run_invariant_of_meets
      (fun m => Mailed limitOf m ∧ (∃ b, Accounted m.logs b m) ∧ Returned m.logs m) ?_ labels
      _ m ⟨mailed_init count, ⟨_, accounted_init count⟩, ?_⟩ uncancelled ran
    · rintro m label m' ⟨mailed, ⟨b, accounted⟩, returned⟩ meets taken
      exact ⟨(mailed.step taken).1, accounted.step mailed meets taken,
        returned.step accounted mailed meets taken⟩
    · intro j mid orig w found
      cases found
  exact all.2.2 i mid orig w received name answered

/-- A client of shard 0 has asked an actor on shard 1, which has received the request. -/
def askedRun : List Label := [.request 0 1 [Shard.workerKey] .user] ++ carry 1 0

/-- The actor has answered. -/
def repliedRun : List Label :=
  askedRun ++
    [.act 1 (.dispatch 0), .act 1 (.advance false 0), .act 1 (.advance false 0),
      .act 1 (.workDone (some false) .no)]

def repliedEnd : Machine := (run step (init 2 fun _ => 1) repliedRun).get (by decide)

theorem reply_returns : repliedEnd.Returns 1 ⟨[Shard.workerKey], .user, 0, 1, 0, some 0⟩ 0 := by
  have uncancelled : StepsMeet step RequestsUncancelled (init 2 fun _ => 1) repliedRun := by
    decide
  have ran : run step (init 2 fun _ => 1) repliedRun = some repliedEnd :=
    (Option.some_get (by decide)).symm
  have received : repliedEnd.received 1 1 =
      some ⟨[Shard.workerKey], .user, 0, 1, 0, some 0⟩ := by
    decide
  exact responses_return uncancelled ran received rfl (by decide)

end Machine

end Hiactor
