import Hiactor.Core.Machine
import Hiactor.Core.Proofs.Channel
import Hiactor.Core.Proofs.MessageLife
import Hiactor.Core.Proofs.MailOrder
import Hiactor.Core.Proofs.MessageOrigin
import Hiactor.Core.Proofs.Request

/-!
# The messages of a machine

Every message between shards was sent by a client, or it is a response that the shard that it comes
from has sent for a message that it had received.
-/

namespace Hiactor

open Lib

namespace Cluster

/-- The slots that the requests were given. -/
def addresses (c : Cluster) : List (Nat × Nat) := c.requests.map fun r => (r.shard, r.prId)

variable (c : Cluster)

theorem map_modify_same {r : Request → Request} (requests : List Request) (w : Nat)
    (same : ∀ q, ((r q).shard, (r q).prId) = (q.shard, q.prId)) :
    (requests.modify w r).map (fun q => (q.shard, q.prId)) =
      requests.map fun q => (q.shard, q.prId) := by
  refine List.ext_getElem? fun k => ?_
  rw [List.getElem?_map, List.getElem?_map, List.getElem?_modify]
  cases requests[k]? with
  | none => simp
  | some q =>
    split
    · exact congrArg some (same q)
    · rfl

theorem map_markReady (requests : List Request) (waiter : Option Nat) :
    (markReady requests waiter).map (fun q => (q.shard, q.prId)) =
      requests.map fun q => (q.shard, q.prId) := by
  cases waiter with
  | none => rfl
  | some w => exact map_modify_same requests w fun _ => rfl

theorem addresses_resolveSlot (shard id : Nat) (cause : Cause) :
    (c.resolveSlot shard id cause).addresses = c.addresses := by
  unfold addresses resolveSlot
  simp only
  split
  · rfl
  · exact map_markReady c.requests _

theorem addresses_stopSlot (shard id : Nat) : (c.stopSlot shard id).addresses = c.addresses := by
  unfold stopSlot
  split
  · exact c.addresses_resolveSlot shard id .stop
  · rfl

theorem addresses_stopActorSystem (shard : Nat) :
    (c.stopActorSystem shard).addresses = c.addresses := by
  have loop (ids : List Nat) (c : Cluster) :
      (ids.foldl (stopSlot shard) c).addresses = c.addresses := by
    induction ids generalizing c with
    | nil => rfl
    | cons id ids ih => exact (ih _).trans (c.addresses_stopSlot shard id)
  unfold stopActorSystem
  split
  · rfl
  · exact loop _ _

theorem addresses_continuation {c c' : Cluster} {w : Nat} (taken : c.continuation w = some c') :
    c'.addresses = c.addresses := by
  obtain ⟨r, -, -, -, rfl⟩ := continuation_eq_some taken
  exact map_modify_same _ w fun _ => rfl

theorem addresses_request (shard : Nat) : (c.request shard).addresses =
    c.addresses ++ [(shard, (c.managers shard).acquirePr.2)] := by
  unfold addresses request
  simp only [List.map_append, map_markReady]
  rfl

theorem length_addresses : c.addresses.length = c.requests.length := List.length_map _

end Cluster

namespace Machine

variable {m m' : Machine} {i j dst src : Nat} {msg : Envelope} {limitOf : ActorKey → Nat}

/-- The messages on the way from shard `src` to shard `dst`, those first that come out first. -/
def onWay (m : Machine) (dst src : Nat) : List Envelope := (m.channel.qs dst src).contents

/-- A client has sent `msg` to shard `dst`. -/
def Issued (m : Machine) (dst : Nat) (msg : Envelope) : Prop :=
  msg.isResponse = false ∧ Shard.WellFormed msg.addr ∧
    (msg.request = none ∧ msg.prId = 0 ∨
      ∃ w, msg.request = some w ∧ m.calls[w]? = some (dst, msg))

/-- What shard `i` knows of the messages at a path: they are its own, or they were sent there. -/
def known (m : Machine) (i : Nat) (p : Path) (t : Ticket) : Prop :=
  t = .internal ∨ ∃ msg, m.received i t.mid = some msg ∧ msg.addr.reverse = p ∧
    msg.srcShardId = t.shardId ∧ msg.prId = t.prId

/-- `msg` is a response of shard `src` to what it has received from shard `dst`. The object at
the address has sent it, or the root has refused what came. -/
def Genuine (m : Machine) (src dst : Nat) (msg : Envelope) : Prop :=
  ∃ q r, .sent q r ∈ (m.shards src).log ∧ r.shardId = dst ∧ msg.addr = [] ∧
    msg.type = (if r.exception then .exceptionResponse else .response) ∧ msg.prId = r.prId ∧
    (r.ticket = .internal ∧ msg.request = none ∨
      ∃ orig, m.received src r.mid = some orig ∧ msg.request = orig.request ∧
        orig.srcShardId = dst ∧ orig.prId = r.prId ∧
        (q = orig.addr.reverse ∨ q = [] ∧ r.exception = true))

/-- What holds of the messages in every reachable state. -/
structure Mailed (limitOf : ActorKey → Nat) (m : Machine) : Prop where
  shards : ∀ i, Reachable Shard.step (.init limitOf) (m.shards i)
  received : ∀ i mid msg, m.received i mid = some msg →
    mid ≠ 0 ∧ mid < (m.shards i).nextMid ∧ m.Issued i msg
  known : ∀ i, (m.shards i).Knows (m.known i)
  inBounds : ∀ dst src, (m.channel.qs dst src).InBounds
  onWay : ∀ dst src, ∀ msg ∈ m.onWay dst src, m.Issued dst msg ∨ m.Genuine src dst msg
  outcomes : ∀ o ∈ m.outcomes, ∃ src dst, m.Genuine src dst o.2
  lengths : m.calls.length = m.tables.requests.length

/-- Nothing that was recorded is lost. -/
structure Grows (m m' : Machine) : Prop where
  received : ∀ i mid msg, m.received i mid = some msg → m'.received i mid = some msg
  logs : ∀ i, (m.shards i).log <+: (m'.shards i).log
  calls : m.calls <+: m'.calls

theorem Grows.trans {m'' : Machine} (first : Grows m m') (second : Grows m' m'') : Grows m m'' where
  received := fun i mid msg known => second.received i mid msg (first.received i mid msg known)
  logs := fun i => (first.logs i).trans (second.logs i)
  calls := first.calls.trans second.calls

theorem Grows.of_eq (received : m'.received = m.received) (shards : m'.shards = m.shards)
    (calls : m'.calls = m.calls) : Grows m m' where
  received := fun _ _ _ known => received ▸ known
  logs := fun _ => shards ▸ List.prefix_rfl
  calls := calls ▸ List.prefix_rfl

theorem Grows.refl : Grows m m := .of_eq rfl rfl rfl

theorem Issued.mono (issued : m.Issued dst msg) (grows : Grows m m') : m'.Issued dst msg := by
  refine issued.imp id (And.imp id (Or.imp id fun ⟨w, name, call⟩ => ⟨w, name, ?_⟩))
  obtain ⟨inside, here⟩ := List.getElem?_eq_some_iff.mp call
  exact List.getElem?_eq_some_iff.mpr
    ⟨inside.trans_le grows.calls.length_le, (grows.calls.getElem inside).symm.trans here⟩

theorem known_mono (grows : Grows m m') {p : Path} {t : Ticket} (before : m.known i p t) :
    m'.known i p t :=
  before.imp id fun ⟨msg, received, rest⟩ => ⟨msg, grows.received i t.mid msg received, rest⟩

theorem Genuine.mono (genuine : m.Genuine src dst msg) (grows : Grows m m') :
    m'.Genuine src dst msg := by
  obtain ⟨q, r, sent, slot, root, type, prId, origin⟩ := genuine
  refine ⟨q, r, (grows.logs src).subset sent, slot, root, type, prId, origin.imp id ?_⟩
  exact fun ⟨orig, received, rest⟩ => ⟨orig, grows.received src r.mid orig received, rest⟩

theorem Genuine.isResponse (genuine : m.Genuine src dst msg) : msg.isResponse = true := by
  obtain ⟨q, r, -, -, root, type, -⟩ := genuine
  unfold Envelope.isResponse
  rw [root, type]
  cases r.exception with
  | true => rfl
  | false => rfl

/-! ## Queues -/

theorem qs_set (c : Channel Envelope) (q : MessageQueue Envelope) (k l : Nat) :
    (c.set dst src q).qs k l = if k = dst ∧ l = src then q else c.qs k l := by
  split
  · next here =>
    obtain ⟨rfl, rfl⟩ := here
    exact c.qs_set_self k l q
  · next other => exact c.qs_set_of_ne q other

theorem onWay_set (q : MessageQueue Envelope) (k l : Nat) :
    onWay { m with channel := m.channel.set dst src q } k l =
      if k = dst ∧ l = src then q.contents else m.onWay k l := by
  show ((m.channel.set dst src q).qs k l).contents = _
  rw [qs_set]
  split
  · rfl
  · rfl

theorem modify_eq_some {c c' : Channel Envelope}
    {f : MessageQueue Envelope → Option (MessageQueue Envelope)}
    (modified : c.modify dst src f = some c') : ∃ q, f (c.qs dst src) = some q ∧
      c' = c.set dst src q := by
  obtain ⟨q, result, rfl⟩ := Option.map_eq_some_iff.mp modified
  exact ⟨q, result, rfl⟩

theorem Mailed.of_queue (mailed : Mailed limitOf m) {q : MessageQueue Envelope}
    (inBounds : q.InBounds)
    (contents : ∀ msg ∈ q.contents, msg ∈ m.onWay dst src ∨ m.Issued dst msg ∨
      m.Genuine src dst msg) :
    Mailed limitOf { m with channel := m.channel.set dst src q } where
  shards := mailed.shards
  received := mailed.received
  known := mailed.known
  inBounds := by
    intro k l
    show ((m.channel.set dst src q).qs k l).InBounds
    rw [qs_set]
    split
    · exact inBounds
    · exact mailed.inBounds k l
  onWay := by
    intro k l msg member
    rw [onWay_set] at member
    split at member
    · next here =>
      obtain ⟨rfl, rfl⟩ := here
      exact (contents msg member).elim (mailed.onWay k l msg) id
    · exact mailed.onWay k l msg member
  outcomes := mailed.outcomes
  lengths := mailed.lengths

/-- A message that may be sent is put in a queue. -/
theorem Mailed.post (mailed : Mailed limitOf m)
    (fine : m.Issued dst msg ∨ m.Genuine i dst msg) (posted : m.post i dst msg = some m') :
    Mailed limitOf m' := by
  obtain ⟨c, modified, rfl⟩ := Option.map_eq_some_iff.mp posted
  obtain ⟨q, sent, rfl⟩ := modify_eq_some modified
  obtain ⟨contents, inBounds⟩ := MessageQueue.contents_send sent
  refine mailed.of_queue (inBounds (mailed.inBounds dst i)) fun msg' member => ?_
  rw [contents] at member
  rcases List.mem_append.mp member with old | new
  · exact .inl old
  · rw [List.mem_singleton.mp new]
    exact .inr fine

/-! ## Promises -/

theorem Mailed.setTables (mailed : Mailed limitOf m) {tables : Cluster}
    (addresses : tables.addresses = m.tables.addresses) :
    Mailed limitOf { m with tables := tables } := by
  refine ⟨mailed.shards, mailed.received, mailed.known, mailed.inBounds, mailed.onWay,
    mailed.outcomes, ?_⟩
  show m.calls.length = tables.requests.length
  rw [← Cluster.length_addresses, addresses, Cluster.length_addresses]
  exact mailed.lengths

theorem Mailed.respond (mailed : Mailed limitOf m) (genuine : m.Genuine src dst msg) :
    Mailed limitOf (m.respond i msg) := by
  unfold Machine.respond
  simp only
  split
  · have resolved := mailed.setTables (m.tables.addresses_resolveSlot i msg.prId
      (.response (msg.request.getD m.tables.requests.length)))
    refine ⟨mailed.shards, mailed.received, mailed.known, mailed.inBounds, mailed.onWay, ?_,
      resolved.lengths⟩
    intro o member
    rcases List.mem_append.mp member with old | new
    · exact mailed.outcomes o old
    · rw [List.mem_singleton.mp new]
      exact ⟨src, dst, genuine⟩
  · exact mailed

/-- The parts of a machine that the sending of responses leaves alone. -/
structure Sends (m m' : Machine) : Prop where
  shards : m'.shards = m.shards
  received : m'.received = m.received
  calls : m'.calls = m.calls
  count : m'.count = m.count

theorem Sends.refl : Sends m m := ⟨rfl, rfl, rfl, rfl⟩

theorem Sends.trans {m'' : Machine} (first : Sends m m') (second : Sends m' m'') : Sends m m'' :=
  ⟨second.shards.trans first.shards, second.received.trans first.received,
    second.calls.trans first.calls, second.count.trans first.count⟩

theorem Sends.grows (sends : Sends m m') : Grows m m' :=
  .of_eq sends.received sends.shards sends.calls

theorem sends_respond : Sends m (m.respond i msg) := by
  unfold Machine.respond
  simp only
  split
  · exact ⟨rfl, rfl, rfl, rfl⟩
  · exact .refl

theorem sends_post (posted : m.post i dst msg = some m') : Sends m m' := by
  obtain ⟨c, modified, rfl⟩ := Option.map_eq_some_iff.mp posted
  obtain ⟨q, -, rfl⟩ := modify_eq_some modified
  exact ⟨rfl, rfl, rfl, rfl⟩

theorem sends_reply {r : Reply} (replied : m.reply i r = some m') : Sends m m' := by
  unfold Machine.reply at replied
  split at replied
  · exact Option.some.inj replied ▸ sends_respond
  · exact sends_post replied

/-- What a response is about: a message of the shard's own, or one that it has received. -/
theorem Mailed.origin (mailed : Mailed limitOf m) {q : Path} {r : Reply}
    (sent : .sent q r ∈ (m.shards i).log) :
    r.ticket = .internal ∧ (m.responseEnvelope i r).request = none ∨
      ∃ orig, m.received i r.mid = some orig ∧
        (m.responseEnvelope i r).request = orig.request ∧ orig.srcShardId = r.shardId ∧
        orig.prId = r.prId ∧ (q = orig.addr.reverse ∨ q = [] ∧ r.exception = true) := by
  have ofTicket {p : Path} (ofPath : m.known i p r.ticket)
      (sender : p = q ∨ q = [] ∧ r.exception = true) :
      r.ticket = .internal ∧ (m.responseEnvelope i r).request = none ∨
        ∃ orig, m.received i r.mid = some orig ∧
          (m.responseEnvelope i r).request = orig.request ∧ orig.srcShardId = r.shardId ∧
          orig.prId = r.prId ∧ (q = orig.addr.reverse ∨ q = [] ∧ r.exception = true) := by
    rcases ofPath with internal | ⟨orig, received, path, slot, prId⟩
    · left
      refine ⟨internal, ?_⟩
      have zero : r.mid = 0 := congrArg Ticket.mid internal
      show (m.received i r.mid).bind (·.request) = none
      rw [zero]
      cases found : m.received i 0 with
      | none => rfl
      | some orig => exact absurd rfl (mailed.received i 0 orig found).1
    · right
      have here : m.received i r.mid = some orig := received
      refine ⟨orig, here, ?_, slot, prId, sender.imp_left fun same => ?_⟩
      · show (m.received i r.mid).bind (·.request) = orig.request
        rw [here]
        rfl
      · exact same.symm.trans path.symm
  rcases (mailed.known i).sent q r sent with ofPath | ⟨root, failed, p, ofPath⟩
  · exact ofTicket ofPath (.inl rfl)
  · exact ofTicket ofPath (.inr ⟨root, failed⟩)

/-- A response that a shard has sent is genuine. -/
theorem Mailed.genuine (mailed : Mailed limitOf m) {q : Path} {r : Reply}
    (sent : .sent q r ∈ (m.shards i).log) :
    m.Genuine i r.shardId (m.responseEnvelope i r) :=
  ⟨q, r, sent, rfl, rfl, rfl, rfl, mailed.origin sent⟩

theorem Mailed.reply (mailed : Mailed limitOf m) {q : Path} {r : Reply}
    (sent : .sent q r ∈ (m.shards i).log) (replied : m.reply i r = some m') :
    Mailed limitOf m' := by
  have genuine := mailed.genuine sent
  unfold Machine.reply at replied
  split at replied
  · exact Option.some.inj replied ▸ mailed.respond genuine
  · exact mailed.post (.inr genuine) replied

theorem foldlM_cons_eq_some {e : Event} {events : List Event}
    (ran : (e :: events).foldlM (follow i) m = some m') :
    ∃ t, m.follow i e = some t ∧ events.foldlM (follow i) t = some m' := by
  rw [List.foldlM_cons] at ran
  exact Option.bind_eq_some_iff.mp ran

theorem sends_follow {e : Event} (followed : m.follow i e = some m') : Sends m m' := by
  cases e with
  | sent q r => exact sends_reply followed
  | _ => exact Option.some.inj followed ▸ .refl

/-- What every response keeps is kept by all of them. -/
theorem foldlM_keeps {events : List Event} {inv : Machine → Prop}
    (keeps : ∀ t e t', inv t → follow i t e = some t' → inv t') (holds : inv m)
    (ran : events.foldlM (follow i) m = some m') : inv m' := by
  induction events generalizing m with
  | nil => exact Option.some.inj ran ▸ holds
  | cons e events ih =>
    obtain ⟨t, followed, rest⟩ := foldlM_cons_eq_some ran
    exact ih (keeps m e t holds followed) rest

theorem sends_foldlM {events : List Event} (ran : events.foldlM (follow i) m = some m') :
    Sends m m' := by
  refine foldlM_keeps ?_ Sends.refl ran
  intro t e t' before followed
  exact before.trans (sends_follow followed)

theorem Mailed.foldlM {events : List Event} (mailed : Mailed limitOf m)
    (listed : ∀ e ∈ events, e ∈ (m.shards i).log)
    (ran : events.foldlM (follow i) m = some m') : Mailed limitOf m' := by
  induction events generalizing m with
  | nil => exact Option.some.inj ran ▸ mailed
  | cons e events ih =>
    obtain ⟨t, followed, rest⟩ := foldlM_cons_eq_some ran
    refine ih ?_ (fun e' member => ?_) rest
    · cases e with
      | sent q r => exact mailed.reply (listed _ List.mem_cons_self) followed
      | _ => exact Option.some.inj followed ▸ mailed
    · rw [(sends_follow followed).shards]
      exact listed e' (List.mem_cons_of_mem e member)

/-! ## Shards -/

/-- The machine after a step of shard `i`, before the responses of the step are sent. -/
def installed (m : Machine) (i : Nat) (s : Shard) : Machine :=
  { m with
    shards := Function.update m.shards i s
    tables := if s.rootStopping then m.tables.stopActorSystem i else m.tables }

theorem addresses_installed (s : Shard) :
    (m.installed i s).tables.addresses = m.tables.addresses := by
  show (if s.rootStopping then m.tables.stopActorSystem i else m.tables).addresses = _
  split
  · exact m.tables.addresses_stopActorSystem i
  · rfl

theorem settle_eq_some {s : Shard} (settled : m.settle i s = some m') :
    (s.log.drop (m.shards i).log.length).foldlM (follow i) (m.installed i s) = some m' := settled

theorem nextMid_le {s s' : Shard} {label : Shard.Label} (valid : s.tree.Valid)
    (taken : s.step label = some s') : s.nextMid ≤ s'.nextMid := by
  cases Shard.mailStep valid taken with
  | thins thins => exact thins.nextMid.ge
  | arrives asked new received result arrives nextMid => exact nextMid ▸ Nat.le_succ _
  | starts front others closed log nextMid => exact nextMid.ge

theorem reachable_step {s s' : Shard} {label : Shard.Label}
    (reachable : Reachable Shard.step (.init limitOf) s) (taken : s.step label = some s') :
    Reachable Shard.step (.init limitOf) s' := by
  obtain ⟨labels, ran⟩ := reachable
  exact ⟨labels ++ [label], run_append ran (run_cons_eq_some.mpr ⟨s', taken, rfl⟩)⟩

/-- The machine before a step of shard `i`, in which the step may have received a message. -/
structure Records (m m₁ : Machine) (i : Nat) (s : Shard) : Prop where
  channel : m₁.channel = m.channel
  shards : m₁.shards = m.shards
  tables : m₁.tables = m.tables
  calls : m₁.calls = m.calls
  outcomes : m₁.outcomes = m.outcomes
  keeps : ∀ j mid msg, m.received j mid = some msg → m₁.received j mid = some msg
  adds : ∀ j mid msg, m₁.received j mid = some msg → m.received j mid = some msg ∨
    j = i ∧ mid = (m.shards i).nextMid ∧ mid < s.nextMid ∧ m.Issued i msg

theorem Records.refl {s : Shard} : Records m m i s :=
  ⟨rfl, rfl, rfl, rfl, rfl, fun _ _ _ known => known, fun _ _ _ known => .inl known⟩

theorem Records.grows {m₁ : Machine} {s : Shard} (records : Records m m₁ i s)
    (logs : (m.shards i).log <+: s.log) : Grows m (m₁.installed i s) where
  received := records.keeps
  logs := by
    intro j
    show _ <+: (Function.update m₁.shards i s j).log
    rw [records.shards, Function.update_apply]
    split
    · next here => exact here ▸ logs
    · exact List.prefix_rfl
  calls := records.calls ▸ List.prefix_rfl

theorem Mailed.install {m₁ : Machine} {s : Shard} {label : Shard.Label}
    (mailed : Mailed limitOf m) (records : Records m m₁ i s)
    (taken : (m.shards i).step label = some s)
    (brings : (m.shards i).Brings (m₁.known i) label) : Mailed limitOf (m₁.installed i s) := by
  have valid := Shard.valid_of_reachable (mailed.shards i)
  have grows := records.grows (Shard.log_step valid taken)
  have shard (j : Nat) : (m₁.installed i s).shards j = if j = i then s else m.shards j := by
    show Function.update m₁.shards i s j = _
    rw [records.shards, Function.update_apply]
  have known (j : Nat) (p : Path) (t : Ticket) :
      m.known j p t → (m₁.installed i s).known j p t := known_mono grows
  refine ⟨fun j => ?_, fun j mid msg received => ?_, fun j => ?_, ?_, ?_, ?_, ?_⟩
  · rw [shard]
    split
    · exact reachable_step (mailed.shards i) taken
    · exact mailed.shards j
  · rw [shard]
    rcases records.adds j mid msg received with old | ⟨rfl, rfl, less, issued⟩
    · obtain ⟨positive, below, issued⟩ := mailed.received j mid msg old
      refine ⟨positive, ?_, issued.mono grows⟩
      split
      · next here =>
        rw [here] at below
        exact below.trans_le (nextMid_le valid taken)
      · exact below
    · rw [if_pos rfl]
      have traced := (Shard.lived_of_reachable (mailed.shards j)).1
      exact ⟨traced.pos.ne', less, issued.mono grows⟩
  · rw [shard]
    split
    · next here =>
      subst here
      exact ((mailed.known j).mono (known j)).step (fun _ => .inl rfl) valid brings taken
    · exact (mailed.known j).mono (known j)
  · intro k l
    show (m₁.channel.qs k l).InBounds
    rw [records.channel]
    exact mailed.inBounds k l
  · intro k l msg member
    change msg ∈ (m₁.channel.qs k l).contents at member
    rw [records.channel] at member
    exact (mailed.onWay k l msg member).imp (·.mono grows) (·.mono grows)
  · intro o member
    change o ∈ m₁.outcomes at member
    rw [records.outcomes] at member
    obtain ⟨src, dst, genuine⟩ := mailed.outcomes o member
    exact ⟨src, dst, genuine.mono grows⟩
  · show m₁.calls.length = (m₁.installed i s).tables.requests.length
    rw [records.calls, ← Cluster.length_addresses, addresses_installed, records.tables,
      Cluster.length_addresses]
    exact mailed.lengths

/-- The objects of a shard take a step and the responses are sent. -/
theorem Mailed.settle {m₁ : Machine} {s : Shard} {label : Shard.Label}
    (mailed : Mailed limitOf m) (records : Records m m₁ i s)
    (taken : (m.shards i).step label = some s) (brings : (m.shards i).Brings (m₁.known i) label)
    (settled : m₁.settle i s = some m') : Mailed limitOf m' := by
  refine (mailed.install records taken brings).foldlM (fun e member => ?_) (settle_eq_some settled)
  show e ∈ (Function.update m₁.shards i s i).log
  rw [Function.update_self]
  exact List.mem_of_mem_drop member

theorem grows_settle {m₁ : Machine} {s : Shard} {label : Shard.Label}
    (mailed : Mailed limitOf m) (records : Records m m₁ i s)
    (taken : (m.shards i).step label = some s) (settled : m₁.settle i s = some m') :
    Grows m m' := by
  have valid := Shard.valid_of_reachable (mailed.shards i)
  exact (records.grows (Shard.log_step valid taken)).trans
    (sends_foldlM (settle_eq_some settled)).grows

theorem nextMid_receive {s s' : Shard} {addr : List ActorKey} {type : MessageType}
    {srcShardId prId : Nat} (taken : s.step (.receive addr type srcShardId prId) = some s') :
    s'.nextMid = s.nextMid + 1 := by
  cases Shard.takesStep taken with
  | user isUser point acted =>
    obtain ⟨t, received, rfl⟩ := Option.map_eq_some_iff.mp acted
    rfl
  | stop frame rest isUser top went => cases isUser
  | run frame rest isUser idle runs went => cases isUser

/-- A shard receives a message that was sent to it. -/
theorem records_record {s : Shard} (mailed : Mailed limitOf m) (issued : m.Issued i msg)
    (nextMid : s.nextMid = (m.shards i).nextMid + 1) : Records m (m.record i msg) i s := by
  refine ⟨rfl, rfl, rfl, rfl, rfl, fun j mid known received => ?_, fun j mid known received => ?_⟩
  · show Function.update m.received i _ j mid = some known
    rw [Function.update_apply]
    split
    · next here =>
      subst here
      have old : mid ≠ (m.shards j).nextMid := (mailed.received j mid known received).2.1.ne
      rw [Function.update_of_ne old]
      exact received
    · exact received
  · change Function.update m.received i _ j mid = some known at received
    rw [Function.update_apply] at received
    split at received
    · next here =>
      subst here
      rw [Function.update_apply] at received
      split at received
      · next new =>
        refine .inr ⟨rfl, new, ?_, Option.some.inj received ▸ issued⟩
        rw [nextMid, new]
        exact Nat.lt_succ_self _
      · exact .inl received
    · exact .inl received

theorem brings_record (issued : m.Issued i msg) : (m.shards i).Brings ((m.record i msg).known i)
    (.receive msg.addr msg.type msg.srcShardId msg.prId) := by
  refine ⟨issued.2.1, .inr ⟨msg, ?_, rfl, rfl, rfl⟩⟩
  show Function.update m.received i _ i (m.shards i).nextMid = some msg
  rw [Function.update_self, Function.update_self]

theorem Mailed.receive (mailed : Mailed limitOf m)
    (fine : m.Issued i msg ∨ ∃ src dst, m.Genuine src dst msg)
    (received : m.receive i msg = some m') : Mailed limitOf m' ∧ Grows m m' := by
  unfold Machine.receive at received
  split at received
  · next response =>
    obtain rfl := Option.some.inj received
    obtain ⟨src, dst, genuine⟩ := fine.resolve_left fun issued => by
      rw [issued.1] at response
      cases response
    exact ⟨mailed.respond genuine, sends_respond.grows⟩
  · next call =>
    have issued : m.Issued i msg := fine.resolve_right fun ⟨src, dst, genuine⟩ =>
      call genuine.isResponse
    obtain ⟨s, taken, settled⟩ := Option.bind_eq_some_iff.mp received
    have records := records_record mailed issued (nextMid_receive taken)
    exact ⟨mailed.settle records taken (brings_record issued) settled,
      grows_settle mailed records taken settled⟩

theorem Mailed.note (mailed : Mailed limitOf m) : Mailed limitOf (m.note i dst msg) :=
  ⟨mailed.shards, mailed.received, mailed.known, mailed.inBounds, mailed.onWay, mailed.outcomes,
    mailed.lengths⟩

theorem Mailed.send (mailed : Mailed limitOf m) (issued : m.Issued dst msg)
    (sent : m.send i dst msg = some m') : Mailed limitOf m' ∧ Grows m m' := by
  have grows : Grows m (m.note i dst msg) := .of_eq rfl rfl rfl
  unfold Machine.send at sent
  split at sent
  · next here =>
    subst here
    obtain ⟨after, more⟩ := mailed.note.receive (.inl (issued.mono grows)) sent
    exact ⟨after, grows.trans more⟩
  · exact ⟨mailed.note.post (.inl (issued.mono grows)) sent, grows.trans (sends_post sent).grows⟩

/-! ## Steps -/

theorem isResponse_of_isCall (isCall : msg.isCall = true) : msg.isResponse = false := by
  unfold Envelope.isCall at isCall
  unfold Envelope.isResponse
  cases type : msg.type with
  | user | forceStop | peaceStop => simp
  | response | exceptionResponse => simp [type] at isCall

/-- Messages are moved towards the consumer of a queue. -/
theorem Mailed.onQueue (mailed : Mailed limitOf m)
    {f : MessageQueue Envelope → Option (MessageQueue Envelope)}
    (same : ∀ q q', q.InBounds → f q = some q' → q'.contents = q.contents ∧ q'.InBounds)
    (moved : m.onQueue dst src f = some m') : Mailed limitOf m' ∧ Grows m m' := by
  unfold Machine.onQueue at moved
  split at moved
  · obtain ⟨c, modified, rfl⟩ := Option.map_eq_some_iff.mp moved
    obtain ⟨q, result, rfl⟩ := modify_eq_some modified
    obtain ⟨contents, inBounds⟩ := same _ q (mailed.inBounds dst src) result
    refine ⟨mailed.of_queue inBounds fun msg member => .inl ?_, .of_eq rfl rfl rfl⟩
    rw [contents] at member
    exact member
  · cases moved

/-- The poller of shard `dst` takes the next message out of a queue. -/
theorem Mailed.handleNext (mailed : Mailed limitOf m) {q : MessageQueue Envelope}
    (next : (m.channel.qs dst src).handleNext = some (msg, q)) :
    m.onWay dst src = msg :: q.contents ∧
      Mailed limitOf { m with channel := m.channel.set dst src q } ∧
      (Issued { m with channel := m.channel.set dst src q } dst msg ∨
        Genuine { m with channel := m.channel.set dst src q } src dst msg) := by
  obtain ⟨contents, inBounds⟩ := MessageQueue.contents_handleNext next (mailed.inBounds dst src)
  have first : m.onWay dst src = msg :: q.contents := contents
  have fine := mailed.onWay dst src msg (first ▸ List.mem_cons_self)
  have grows : Grows m { m with channel := m.channel.set dst src q } := .of_eq rfl rfl rfl
  refine ⟨first, mailed.of_queue inBounds ?_, fine.imp (·.mono grows) (·.mono grows)⟩
  intro other member
  rw [first]
  exact .inl (List.mem_cons_of_mem msg member)

theorem issued_of_call (fine : m.Issued dst msg ∨ m.Genuine src dst msg)
    (call : msg.isResponse = false) : m.Issued dst msg := by
  refine fine.resolve_right ?_
  intro genuine
  rw [genuine.isResponse] at call
  cases call

theorem Mailed.handle (mailed : Mailed limitOf m) (handled : m.handle dst src = some m') :
    Mailed limitOf m' ∧ Grows m m' := by
  unfold Machine.handle at handled
  split at handled
  · split at handled
    · next msg q next =>
      obtain ⟨-, left, fine⟩ := mailed.handleNext next
      have grows : Grows m { m with channel := m.channel.set dst src q } := .of_eq rfl rfl rfl
      obtain ⟨after, more⟩ := left.receive
        (fine.imp_right fun genuine => ⟨src, dst, genuine⟩) handled
      exact ⟨after, grows.trans more⟩
    · cases handled
  · cases handled

/-- A client acquires a slot for a message that it is about to send. -/
theorem Mailed.issue (mailed : Mailed limitOf m) (dst : Nat) (msg : Envelope)
    (isCall : msg.isResponse = false) (wellFormed : Shard.WellFormed msg.addr)
    (name : msg.request = some m.tables.requests.length) :
    Mailed limitOf
      { m with tables := m.tables.request i, calls := m.calls ++ [(dst, msg)] } ∧
    Issued { m with tables := m.tables.request i, calls := m.calls ++ [(dst, msg)] } dst msg ∧
    Grows m { m with tables := m.tables.request i, calls := m.calls ++ [(dst, msg)] } := by
  let m₁ : Machine := { m with tables := m.tables.request i, calls := m.calls ++ [(dst, msg)] }
  have grows : Grows m m₁ :=
    ⟨fun _ _ _ known => known, fun _ => List.prefix_rfl, List.prefix_append ..⟩
  refine ⟨⟨mailed.shards, fun j mid msg received => ?_, fun j => ?_, mailed.inBounds,
    fun k l msg member => ?_, fun o member => ?_, ?_⟩,
    ⟨isCall, wellFormed, .inr ⟨_, name, ?_⟩⟩, grows⟩
  · obtain ⟨positive, below, issued⟩ := mailed.received j mid msg received
    exact ⟨positive, below, issued.mono grows⟩
  · exact (mailed.known j).mono fun p t => known_mono grows
  · exact (mailed.onWay k l msg member).imp (·.mono grows) (·.mono grows)
  · obtain ⟨src, asker, genuine⟩ := mailed.outcomes o member
    exact ⟨src, asker, genuine.mono grows⟩
  · show (m.calls ++ [(dst, msg)]).length = (m.tables.request i).requests.length
    rw [← Cluster.length_addresses, Cluster.addresses_request, List.length_append,
      List.length_append, Cluster.length_addresses, mailed.lengths]
    rfl
  · rw [← mailed.lengths]
    exact List.getElem?_concat_length

theorem Mailed.request (mailed : Mailed limitOf m) {addr : List ActorKey} {type : MessageType}
    (requested : m.request i dst addr type = some m') : Mailed limitOf m' ∧ Grows m m' := by
  unfold Machine.request at requested
  simp only at requested
  split at requested
  · next can =>
    obtain ⟨-, -, -, isCall, wellFormed⟩ := can
    obtain ⟨issues, issued, grows⟩ := mailed.issue (i := i) dst
      (m.requestEnvelope i addr type) (isResponse_of_isCall isCall) wellFormed rfl
    obtain ⟨after, more⟩ := issues.send issued requested
    exact ⟨after, grows.trans more⟩
  · cases requested

theorem Mailed.tell (mailed : Mailed limitOf m) {addr : List ActorKey} {type : MessageType}
    (told : m.tell i dst addr type = some m') : Mailed limitOf m' ∧ Grows m m' := by
  unfold Machine.tell at told
  simp only at told
  split at told
  · next can =>
    obtain ⟨-, -, -, isCall, wellFormed⟩ := can
    exact mailed.send ⟨isResponse_of_isCall isCall, wellFormed, .inl ⟨rfl, rfl⟩⟩ told
  · cases told

theorem Mailed.act (mailed : Mailed limitOf m) {label : Shard.Label}
    (acted : m.act i label = some m') : Mailed limitOf m' ∧ Grows m m' := by
  have steps (brings : (m.shards i).Brings (m.known i) label)
      (went : (if i < m.count then ((m.shards i).step label).bind (m.settle i) else none) =
        some m') : Mailed limitOf m' ∧ Grows m m' := by
    split at went
    · obtain ⟨s, taken, settled⟩ := Option.bind_eq_some_iff.mp went
      exact ⟨mailed.settle .refl taken brings settled, grows_settle mailed .refl taken settled⟩
    · cases went
  cases label with
  | receive => cases acted
  | _ => exact steps trivial acted

theorem Mailed.step (mailed : Mailed limitOf m) {label : Label} (taken : m.step label = some m') :
    Mailed limitOf m' ∧ Grows m m' := by
  cases label with
  | request i dst addr type => exact mailed.request taken
  | tell i dst addr type => exact mailed.tell taken
  | act i label => exact mailed.act taken
  | flush dst src =>
    exact mailed.onQueue (fun _ _ inBounds done =>
      (MessageQueue.contents_flushRequestBatch done).imp id fun keeps => keeps inBounds) taken
  | popFirst dst src =>
    exact mailed.onQueue (fun _ _ _ done => MessageQueue.contents_popFirst done) taken
  | popRest dst src =>
    exact mailed.onQueue (fun _ _ _ done => MessageQueue.contents_popRest done) taken
  | handle dst src => exact mailed.handle taken
  | continuation w =>
    obtain ⟨tables, continued, rfl⟩ := Option.map_eq_some_iff.mp taken
    exact ⟨mailed.setTables (Cluster.addresses_continuation continued), .of_eq rfl rfl rfl⟩

theorem onWay_init (count dst src : Nat) : (init count limitOf).onWay dst src = [] :=
  (Channel.contents_started count (List.range count) dst src).1

theorem mailed_init (count : Nat) : Mailed limitOf (init count limitOf) := by
  refine ⟨fun i => ⟨[], rfl⟩, ?_, fun i => Shard.knows_init .., fun dst src =>
    (Channel.contents_started count (List.range count) dst src).2, ?_, ?_, rfl⟩
  · intro i mid msg received
    cases received
  · intro dst src msg member
    rw [onWay_init] at member
    cases member
  · intro o member
    cases member

theorem mailed_of_reachable {count : Nat}
    (reachable : Reachable step (init count limitOf) m) : Mailed limitOf m := by
  obtain ⟨labels, ran⟩ := reachable
  exact run_invariant (Mailed limitOf) (fun _ _ _ mailed taken => (mailed.step taken).1) labels _ m
    (mailed_init count) ran

/-- What is recorded is not lost in any run. -/
theorem grows_of_run {m' : Machine} {labels : List Label} (mailed : Mailed limitOf m)
    (ran : run step m labels = some m') : Grows m m' := by
  refine (run_invariant (fun n => Mailed limitOf n ∧ Grows m n) ?_ labels m m' ⟨mailed, .refl⟩
    ran).2
  rintro n label n' ⟨mailed, grown⟩ taken
  obtain ⟨after, more⟩ := mailed.step taken
  exact ⟨after, grown.trans more⟩

end Machine

end Hiactor
