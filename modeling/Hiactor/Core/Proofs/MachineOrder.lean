import Hiactor.Core.Proofs.Exit
import Hiactor.Core.Proofs.MachineMail

/-!
# The order of the messages of a machine

The queue from one shard to another keeps the order of the messages, a shard numbers them as they
come, and puts those for one object in its mailbox in turn. So what one shard sends to an actor
comes to its mailbox in the order in which it was sent, as long as the actor is reached.
-/

namespace Hiactor

open Lib

namespace Shard

variable {s s' : Shard} {label : Label} {addr : List ActorKey} {p : Path}

/-- `receive` refuses what is sent to the address. -/
def Refuses (s : Shard) (addr : List ActorKey) : Prop := s.PrefixStopped addr ∨ s.RootClosed addr

/-- A shard that has refused a message to an address refuses all later ones. -/
theorem Refuses.step (refuses : s.Refuses addr) (valid : s.tree.Valid)
    (taken : s.step label = some s') : s'.Refuses addr := by
  rcases refuses with ⟨q, inner, start, disabled⟩ | ⟨stopping, absent⟩
  · exact .inl ⟨q, inner, start, (log_step valid taken).subset disabled⟩
  · cases addr with
    | nil =>
      obtain ⟨n, root, -⟩ := valid.root
      rw [List.take_nil] at absent
      rw [objs_eq_none.mpr absent] at root
      cases root
    | cons k keys =>
      have steps : LifeTree.Steps s.tree s'.tree := refines_step valid taken
      have closed := (closed_iff valid s.rootChildren).mpr ⟨stopping, rfl⟩
      obtain ⟨live, closed'⟩ := closed.of_steps steps
      refine .inr ⟨((closed_iff (valid.steps steps) live).mp closed').1, ?_⟩
      exact objs_eq_none.mp (closed.absent_of_steps steps (objs_eq_none.mpr absent))

/-- A user message is put in the mailbox at its address, or its address is refused. -/
theorem enqueuedAt_receive (valid : s.tree.Valid) {type : MessageType} {srcShardId prId : Nat}
    (wellFormed : WellFormed addr)
    (taken : s.step (.receive addr type srcShardId prId) = some s') (p : Path) :
    ((type = .user ∧ addr.reverse = p) ∧ ¬ s.Refuses addr ∧
      enqueuedAt p s'.log = enqueuedAt p s.log ++ [⟨s.nextMid, type, srcShardId, prId⟩]) ∨
    ((type = .user → addr.reverse = p → s.Refuses addr) ∧
      enqueuedAt p s'.log = enqueuedAt p s.log) := by
  cases takesStep taken with
  | user isUser point acted =>
    obtain ⟨t, received, rfl⟩ := Option.map_eq_some_iff.mp acted
    show _ ∧ _ ∧ enqueuedAt p t.log = _ ∨ _ ∧ enqueuedAt p t.log = _
    by_cases user : type = .user
    · have nonempty : addr ≠ [] := by
        rintro rfl
        subst user
        cases received
      obtain ⟨t', received', delivered, rejected⟩ := receive_routes valid nonempty wellFormed
        ⟨s.nextMid, type, srcShardId, prId⟩
      obtain rfl := Option.some.inj (received'.symm.trans received)
      by_cases refuses : s.Refuses addr
      · right
        refine ⟨fun _ _ => refuses, ?_⟩
        have answer (m : ActorMessage) :
            enqueuedAt p (if m.prId ≠ 0 then [.sent [] (m.reply true)] else []) = [] := by
          split
          · rfl
          · rfl
        rw [(rejected refuses).log, enqueuedAt_append, enqueuedAt_append, enqueuedAt_append, answer]
        show _ ++ [] ++ [] ++ [] = _
        rw [List.append_nil, List.append_nil, List.append_nil]
      · obtain ⟨paths, log⟩ := (delivered refuses).log
        have created : enqueuedAt p (paths.map Event.created) = [] := by
          refine enqueuedAt_hushed fun e member => ?_
          obtain ⟨q, -, rfl⟩ := List.mem_map.mp member
          rfl
        rw [log, enqueuedAt_append, enqueuedAt_append, created, List.append_nil]
        by_cases here : addr.reverse = p
        · left
          exact ⟨⟨user, here⟩, refuses, by simp [enqueuedAt, user, here]⟩
        · right
          exact ⟨fun _ there => absurd there here, by simp [enqueuedAt, here]⟩
    · right
      refine ⟨fun isUser => absurd isUser user, ?_⟩
      obtain ⟨arrived, which, result⟩ := (arrives_receive valid received).arrival
      rw [(result p).2.1]
      rcases which p with nothing | ⟨-, isUser⟩
      · rw [nothing, List.append_nil]
      · exact absurd isUser user
  | stop frame rest isUser top went => cases isUser
  | run frame rest isUser idle runs went => cases isUser

/-- Only `receive` puts messages of users in mailboxes. -/
theorem enqueuedAt_act (valid : s.tree.Valid) (taken : s.step label = some s')
    (other : ∀ addr type srcShardId prId, label ≠ .receive addr type srcShardId prId) (p : Path) :
    enqueuedAt p s'.log = enqueuedAt p s.log ∧ s'.nextMid = s.nextMid := by
  cases mailStep valid taken with
  | thins thins =>
    obtain ⟨new, log, hushed⟩ := thins.hushed
    rw [log, enqueuedAt_append, enqueuedAt_hushed hushed, List.append_nil]
    exact ⟨rfl, thins.nextMid⟩
  | arrives asked new received result arrives nextMid => exact absurd asked (other _ _ _ _)
  | starts front others closed log nextMid =>
    rw [log, enqueuedAt_append]
    exact ⟨by simp [enqueuedAt], nextMid⟩

end Shard

namespace Machine

variable {m m' : Machine} {i dst src : Nat} {msg : Envelope} {limitOf : ActorKey → Nat} {p : Path}

/-- The messages that shard `i` has received, with their numbers there, those first that came
first. -/
def arrivals (m : Machine) (i : Nat) : List (Nat × Envelope) :=
  (List.range (m.shards i).nextMid).filterMap fun mid =>
    (m.received i mid).map fun msg => (mid, msg)

/-- What shard `dst` has received from shard `src`. -/
def arrived (m : Machine) (dst src : Nat) : List Envelope :=
  ((m.arrivals dst).map (·.2)).filter fun msg => msg.origin = src

/-- What clients of shard `src` have sent and shard `dst` has not received yet. -/
def pending (m : Machine) (dst src : Nat) : List Envelope :=
  (m.onWay dst src).filter fun msg => !msg.isResponse

/-- What shard `i` has received for the object at `p`. -/
def mailFor (m : Machine) (i : Nat) (p : Path) : List (Nat × Envelope) :=
  (m.arrivals i).filter fun arrival => arrival.2.type = .user ∧ arrival.2.addr.reverse = p

theorem mem_arrivals {mid : Nat} (member : (mid, msg) ∈ m.arrivals i) :
    m.received i mid = some msg := by
  obtain ⟨n, -, mapped⟩ := List.mem_filterMap.mp member
  obtain ⟨msg', received, same⟩ := Option.map_eq_some_iff.mp mapped
  obtain ⟨rfl, rfl⟩ := Prod.mk.inj same
  exact received

/-- A message that was taken from the queue from shard `src` to shard `dst`. -/
def inHand (dst src : Nat) (msg : Envelope) (k l : Nat) : List Envelope :=
  if k = dst ∧ l = src then [msg].filter fun msg => !msg.isResponse else []

/-- The messages of a machine are in order, when those in `hand` are on their way into a shard. -/
structure Ordered (hand : Nat → Nat → List Envelope) (m : Machine) : Prop where
  origin : ∀ dst src, ∀ msg ∈ m.sent dst src, msg.origin = src
  /-- A shard sends nothing to itself by a queue. -/
  loopless : ∀ i, m.pending i i = []
  between : ∀ dst src, m.arrived dst src ++ hand dst src ++ m.pending dst src = m.sent dst src
  /-- What was put in a mailbox came before what was refused. -/
  mail : ∀ i p, (enqueuedAt p (m.shards i).log).map (·.mid) <+: (m.mailFor i p).map (·.1)
  mailAll : ∀ i p, ¬ (m.shards i).Refuses p.reverse →
    (enqueuedAt p (m.shards i).log).map (·.mid) = (m.mailFor i p).map (·.1)

variable {hand : Nat → Nat → List Envelope}

/-! ## Responses -/

/-- Nothing changes but responses. -/
structure Keeps (m m' : Machine) : Prop where
  shards : m'.shards = m.shards
  received : m'.received = m.received
  sent : m'.sent = m.sent
  pending : m'.pending = m.pending

theorem Keeps.refl : Keeps m m := ⟨rfl, rfl, rfl, rfl⟩

theorem Keeps.trans {m'' : Machine} (first : Keeps m m') (second : Keeps m' m'') : Keeps m m'' :=
  ⟨second.shards.trans first.shards, second.received.trans first.received,
    second.sent.trans first.sent, second.pending.trans first.pending⟩

theorem Keeps.arrivals (keeps : Keeps m m') : m'.arrivals = m.arrivals := by
  funext i
  rw [Machine.arrivals, keeps.shards, keeps.received, Machine.arrivals]

theorem Ordered.of_keeps (ordered : Ordered hand m) (keeps : Keeps m m') : Ordered hand m' := by
  have arrived : m'.arrived = m.arrived := by
    funext dst src
    rw [Machine.arrived, keeps.arrivals, Machine.arrived]
  have mailFor : m'.mailFor = m.mailFor := by
    funext i p
    rw [Machine.mailFor, keeps.arrivals, Machine.mailFor]
  refine ⟨keeps.sent ▸ ordered.origin, keeps.pending ▸ ordered.loopless, ?_, ?_, ?_⟩
  · rw [arrived, keeps.pending, keeps.sent]
    exact ordered.between
  · rw [mailFor, keeps.shards]
    exact ordered.mail
  · rw [mailFor, keeps.shards]
    exact ordered.mailAll

theorem keeps_respond : Keeps m (m.respond i msg) := by
  unfold Machine.respond
  simp only
  split
  · exact ⟨rfl, rfl, rfl, rfl⟩
  · exact .refl

theorem pending_set (q : MessageQueue Envelope) (k l : Nat) :
    pending { m with channel := m.channel.set dst src q } k l =
      if k = dst ∧ l = src then q.contents.filter fun msg => !msg.isResponse
      else m.pending k l := by
  unfold pending
  rw [onWay_set]
  split
  · rfl
  · rfl

theorem pending_post (posted : m.post i dst msg = some m') (k l : Nat) :
    m'.pending k l = m.pending k l ++ inHand dst i msg k l := by
  obtain ⟨c, modified, rfl⟩ := Option.map_eq_some_iff.mp posted
  obtain ⟨q, sent, rfl⟩ := modify_eq_some modified
  have contents : q.contents = m.onWay dst i ++ [msg] := (MessageQueue.contents_send sent).1
  rw [pending_set, inHand]
  split
  · next here =>
    obtain ⟨rfl, rfl⟩ := here
    rw [contents, List.filter_append, pending]
  · rw [List.append_nil]

theorem inHand_response (response : msg.isResponse = true) (k l : Nat) :
    inHand dst src msg k l = [] := by
  unfold inHand
  split
  · simp [response]
  · rfl

theorem keeps_post (response : msg.isResponse = true) (posted : m.post i dst msg = some m') :
    Keeps m m' := by
  have pending : m'.pending = m.pending := by
    funext k l
    rw [pending_post posted, inHand_response response, List.append_nil]
  obtain ⟨c, modified, rfl⟩ := Option.map_eq_some_iff.mp posted
  exact ⟨rfl, rfl, rfl, pending⟩

theorem isResponse_responseEnvelope (r : Reply) : (m.responseEnvelope i r).isResponse = true := by
  unfold responseEnvelope Envelope.isResponse
  cases r.exception with
  | true => rfl
  | false => rfl

theorem keeps_follow {e : Event} (followed : m.follow i e = some m') : Keeps m m' := by
  cases e with
  | sent q r =>
    change m.reply i r = some m' at followed
    unfold Machine.reply at followed
    split at followed
    · exact Option.some.inj followed ▸ keeps_respond
    · exact keeps_post (isResponse_responseEnvelope r) followed
  | _ => exact Option.some.inj followed ▸ .refl

theorem keeps_foldlM {events : List Event} (ran : events.foldlM (follow i) m = some m') :
    Keeps m m' := by
  refine foldlM_keeps ?_ Keeps.refl ran
  intro t e t' before followed
  exact before.trans (keeps_follow followed)

/-! ## Shards -/

theorem arrivals_installed {s : Shard} (nextMid : s.nextMid = (m.shards i).nextMid) :
    (m.installed i s).arrivals = m.arrivals := by
  funext j
  show (List.range (Function.update m.shards i s j).nextMid).filterMap _ = _
  rw [Function.update_apply]
  split
  · next here =>
    subst here
    rw [nextMid]
    rfl
  · rfl

theorem arrivals_record {s : Shard} (nextMid : s.nextMid = (m.shards i).nextMid + 1) (j : Nat) :
    ((m.record i msg).installed i s).arrivals j =
      m.arrivals j ++ if j = i then [((m.shards i).nextMid, msg)] else [] := by
  show (List.range (Function.update m.shards i s j).nextMid).filterMap (fun mid =>
    (Function.update m.received i _ j mid).map _) = _
  by_cases here : j = i
  · subst here
    rw [Function.update_self, Function.update_self, if_pos rfl, nextMid, List.range_succ,
      List.filterMap_append]
    congr 1
    · refine List.filterMap_congr fun mid listed => ?_
      rw [Function.update_of_ne (List.mem_range.mp listed).ne]
    · simp
  · rw [Function.update_of_ne here, Function.update_of_ne here, if_neg here, List.append_nil]
    rfl

/-- The objects of shard `i` take a step that receives nothing. -/
theorem Ordered.act {s : Shard} {label : Shard.Label} (ordered : Ordered hand m)
    (mailed : Mailed limitOf m) (taken : (m.shards i).step label = some s)
    (other : ∀ addr type srcShardId prId, label ≠ .receive addr type srcShardId prId)
    (settled : m.settle i s = some m') : Ordered hand m' := by
  have valid := Shard.valid_of_reachable (mailed.shards i)
  have enqueued (p : Path) : enqueuedAt p s.log = enqueuedAt p (m.shards i).log :=
    (Shard.enqueuedAt_act valid taken other p).1
  have arrivals := arrivals_installed (Shard.enqueuedAt_act valid taken other []).2
  have shard (j : Nat) : (m.installed i s).shards j = if j = i then s else m.shards j :=
    Function.update_apply ..
  have mailFor (j : Nat) (p : Path) : (m.installed i s).mailFor j p = m.mailFor j p := by
    rw [Machine.mailFor, arrivals, Machine.mailFor]
  refine Ordered.of_keeps ?_ (keeps_foldlM (settle_eq_some settled))
  refine ⟨ordered.origin, ordered.loopless, fun dst src => ?_, fun j p => ?_,
    fun j p refuses => ?_⟩
  · rw [arrived, arrivals]
    exact ordered.between dst src
  · rw [mailFor, shard]
    split
    · next here =>
      rw [enqueued, here]
      exact ordered.mail i p
    · exact ordered.mail j p
  · rw [mailFor]
    rw [shard] at refuses ⊢
    split
    · next here =>
      rw [if_pos here] at refuses
      rw [enqueued, here]
      exact ordered.mailAll i p fun before => refuses (before.step valid taken)
    · next elsewhere =>
      rw [if_neg elsewhere] at refuses
      exact ordered.mailAll j p refuses

theorem mailFor_append {m m' : Machine} {mid : Nat}
    (arrivals : m'.arrivals i = m.arrivals i ++ [(mid, msg)]) :
    m'.mailFor i p = m.mailFor i p ++
      if msg.type = .user ∧ msg.addr.reverse = p then [(mid, msg)] else [] := by
  unfold mailFor
  rw [arrivals, List.filter_append, List.filter_singleton]
  simp

/-- Shard `dst` receives the message that was taken from its queue. -/
theorem Ordered.receive (ordered : Ordered (inHand dst src msg) m) (mailed : Mailed limitOf m)
    (wellFormed : msg.isResponse = false → Shard.WellFormed msg.addr)
    (sender : msg.isResponse = false → msg.origin = src) (received : m.receive dst msg = some m') :
    Ordered (fun _ _ => []) m' := by
  unfold Machine.receive at received
  split at received
  · next response =>
    obtain rfl := Option.some.inj received
    have nothing : inHand dst src msg = fun _ _ => [] :=
      funext fun k => funext fun l => inHand_response response k l
    exact (nothing ▸ ordered).of_keeps keeps_respond
  · next call =>
    have call : msg.isResponse = false := by simpa using call
    obtain ⟨s, taken, settled⟩ := Option.bind_eq_some_iff.mp received
    have valid := Shard.valid_of_reachable (mailed.shards dst)
    have nextMid := nextMid_receive taken
    let m₁ : Machine := (m.record dst msg).installed dst s
    have arrivals (j : Nat) : m₁.arrivals j = _ := arrivals_record nextMid j
    have shard (j : Nat) : m₁.shards j = if j = dst then s else m.shards j :=
      Function.update_apply ..
    have arrived (k l : Nat) : m₁.arrived k l = m.arrived k l ++ inHand dst src msg k l := by
      unfold Machine.arrived
      rw [show m₁.arrivals k = _ from arrivals k, List.map_append, List.filter_append]
      congr 1
      unfold inHand
      by_cases here : k = dst
      · by_cases there : l = src
        · simp [here, there, sender call, call]
        · simp [here, there, sender call, Ne.symm there]
      · simp [here]
    have enqueued := Shard.enqueuedAt_receive valid (wellFormed call) taken
    have others {j : Nat} (elsewhere : j ≠ dst) (p : Path) : m₁.mailFor j p = m.mailFor j p := by
      unfold mailFor
      rw [show m₁.arrivals j = _ from arrivals j, if_neg elsewhere, List.append_nil]
    have mine (p : Path) : m₁.mailFor dst p = m.mailFor dst p ++
        if msg.type = .user ∧ msg.addr.reverse = p then [((m.shards dst).nextMid, msg)]
        else [] := by
      refine mailFor_append ?_
      rw [show m₁.arrivals dst = _ from arrivals dst, if_pos rfl]
    refine Ordered.of_keeps ?_ (keeps_foldlM (settle_eq_some settled))
    refine ⟨ordered.origin, ordered.loopless, fun k l => ?_, fun j p => ?_, fun j p refuses => ?_⟩
    · show m₁.arrived k l ++ [] ++ m.pending k l = _
      rw [arrived, List.append_nil]
      exact ordered.between k l
    · rw [show (m.record dst msg).installed dst s = m₁ from rfl, shard]
      split
      · next here =>
        subst here
        rw [mine]
        rcases enqueued p with ⟨here, open', log⟩ | ⟨-, log⟩
        · have all := ordered.mailAll j p (here.2 ▸ by simpa using open')
          rw [log, if_pos here, List.map_append, List.map_append, all]
          exact List.prefix_rfl
        · rw [log, List.map_append]
          exact (ordered.mail j p).trans (List.prefix_append ..)
      · next elsewhere =>
        rw [others elsewhere]
        exact ordered.mail j p
    · rw [show (m.record dst msg).installed dst s = m₁ from rfl, shard] at refuses ⊢
      split
      · next here =>
        subst here
        rw [if_pos rfl] at refuses
        rw [mine]
        have before : ¬ (m.shards j).Refuses p.reverse := fun before =>
          refuses (before.step valid taken)
        rcases enqueued p with ⟨here, -, log⟩ | ⟨closed, log⟩
        · rw [log, if_pos here, List.map_append, List.map_append, ordered.mailAll j p before]
          rfl
        · rw [log, if_neg, List.append_nil]
          · exact ordered.mailAll j p before
          · rintro ⟨user, here⟩
            refine before ?_
            rw [← here, List.reverse_reverse]
            exact closed user here
      · next elsewhere =>
        rw [if_neg elsewhere] at refuses
        rw [others elsewhere]
        exact ordered.mailAll j p refuses

theorem sent_note (k l : Nat) : (m.note i dst msg).sent k l =
    m.sent k l ++ if k = dst ∧ l = i then [msg] else [] := by
  show Function.update m.sent dst _ k l = _
  rw [Function.update_apply]
  split
  · next here =>
    subst here
    rw [Function.update_apply]
    split
    · next there => simp [there]
    · next elsewhere => simp [elsewhere]
  · next elsewhere => simp [elsewhere]

theorem origin_note (ordered : Ordered hand m) (origin : msg.origin = i) (k l : Nat) :
    ∀ msg' ∈ (m.note i dst msg).sent k l, msg'.origin = l := by
  intro msg' member
  rw [sent_note] at member
  rcases List.mem_append.mp member with old | new
  · exact ordered.origin k l msg' old
  · split at new
    · next here =>
      rw [List.mem_singleton.mp new, origin, here.2]
    · cases new

theorem Ordered.send (ordered : Ordered (fun _ _ => []) m) (mailed : Mailed limitOf m)
    (issued : m.Issued dst msg) (origin : msg.origin = i) (sent : m.send i dst msg = some m') :
    Ordered (fun _ _ => []) m' := by
  have call (k l : Nat) : inHand dst i msg k l = if k = dst ∧ l = i then [msg] else [] := by
    simp [inHand, issued.1]
  unfold Machine.send at sent
  split at sent
  · next here =>
    subst here
    refine Ordered.receive (?_ : Ordered (inHand dst dst msg) _) mailed.note (fun _ => issued.2.1)
      (fun _ => origin) sent
    refine ⟨origin_note ordered origin, ordered.loopless, fun k l => ?_, ordered.mail,
      ordered.mailAll⟩
    have before := ordered.between k l
    rw [List.append_nil] at before
    show m.arrived k l ++ _ ++ m.pending k l = _
    rw [sent_note, call, ← before]
    split
    · next here =>
      obtain ⟨rfl, rfl⟩ := here
      rw [ordered.loopless, List.append_nil, List.append_nil]
    · rw [List.append_nil, List.append_nil]
  · next apart =>
    have pending (k l : Nat) : m'.pending k l = m.pending k l ++ inHand dst i msg k l :=
      pending_post sent k l
    obtain ⟨c, -, rfl⟩ := Option.map_eq_some_iff.mp sent
    refine ⟨origin_note ordered origin, fun k => ?_, fun k l => ?_, ordered.mail, ordered.mailAll⟩
    · rw [pending, ordered.loopless, call]
      refine if_neg ?_
      rintro ⟨rfl, same⟩
      exact apart same
    · have before := ordered.between k l
      rw [List.append_nil] at before
      show m.arrived k l ++ [] ++ _ = (m.note i dst msg).sent k l
      rw [pending, sent_note, call, ← before, List.append_nil, List.append_assoc]

/-! ## Steps -/

theorem Ordered.onQueue (ordered : Ordered hand m) (mailed : Mailed limitOf m)
    {f : MessageQueue Envelope → Option (MessageQueue Envelope)}
    (same : ∀ q q', q.InBounds → f q = some q' → q'.contents = q.contents)
    (moved : m.onQueue dst src f = some m') : Ordered hand m' := by
  unfold Machine.onQueue at moved
  split at moved
  · obtain ⟨c, modified, rfl⟩ := Option.map_eq_some_iff.mp moved
    obtain ⟨q, result, rfl⟩ := modify_eq_some modified
    refine ordered.of_keeps ⟨rfl, rfl, rfl, ?_⟩
    funext k l
    rw [pending_set]
    split
    · next here =>
      obtain ⟨rfl, rfl⟩ := here
      rw [same _ q (mailed.inBounds k l) result]
      rfl
    · rfl
  · cases moved

theorem Ordered.handle (ordered : Ordered (fun _ _ => []) m) (mailed : Mailed limitOf m)
    (handled : m.handle dst src = some m') : Ordered (fun _ _ => []) m' := by
  unfold Machine.handle at handled
  split at handled
  · next guard =>
    split at handled
    · next msg q next =>
      obtain ⟨first, left, fine⟩ := mailed.handleNext next
      have pending : m.pending dst src = ([msg].filter fun msg => !msg.isResponse) ++
          q.contents.filter fun msg => !msg.isResponse := by
        rw [Machine.pending, first, ← List.singleton_append, List.filter_append]
      refine Ordered.receive (?_ : Ordered (inHand dst src msg) _) left (fun call => ?_)
        (fun call => ?_) handled
      · refine ⟨ordered.origin, fun k => ?_, fun k l => ?_, ordered.mail, ordered.mailAll⟩
        · rw [pending_set, if_neg]
          · exact ordered.loopless k
          · rintro ⟨rfl, same⟩
            exact guard.2.2.1 same
        · have before := ordered.between k l
          rw [List.append_nil] at before
          show m.arrived k l ++ inHand dst src msg k l ++ _ = m.sent k l
          rw [pending_set, ← before, List.append_assoc]
          unfold inHand
          split
          · next here =>
            obtain ⟨rfl, rfl⟩ := here
            rw [pending]
          · rfl
      · exact (issued_of_call fine call).2.1
      · refine ordered.origin dst src msg ?_
        rw [← ordered.between]
        refine List.mem_append_right _ ?_
        rw [pending]
        exact List.mem_append_left _ (by simp [call])
    · cases handled
  · cases handled

theorem Ordered.step (ordered : Ordered (fun _ _ => []) m) (mailed : Mailed limitOf m)
    {label : Label} (taken : m.step label = some m') : Ordered (fun _ _ => []) m' := by
  cases label with
  | request i dst addr type =>
    change m.request i dst addr type = some m' at taken
    unfold Machine.request at taken
    simp only at taken
    split at taken
    · next can =>
      obtain ⟨-, -, -, isCall, wellFormed⟩ := can
      obtain ⟨issues, issued, -⟩ := mailed.issue (i := i) dst (m.requestEnvelope i addr type)
        (isResponse_of_isCall isCall) wellFormed rfl
      have keeps : Keeps m { m with
          tables := m.tables.request i
          calls := m.calls ++ [(dst, m.requestEnvelope i addr type)] } := ⟨rfl, rfl, rfl, rfl⟩
      exact (ordered.of_keeps keeps).send issues issued rfl taken
    · cases taken
  | tell i dst addr type =>
    change m.tell i dst addr type = some m' at taken
    unfold Machine.tell at taken
    simp only at taken
    split at taken
    · next can =>
      obtain ⟨-, -, -, isCall, wellFormed⟩ := can
      exact ordered.send mailed ⟨isResponse_of_isCall isCall, wellFormed, .inl ⟨rfl, rfl⟩⟩ rfl taken
    · cases taken
  | act i label =>
    have acts (other : ∀ addr type srcShardId prId,
          label ≠ .receive addr type srcShardId prId)
        (went : (if i < m.count then ((m.shards i).step label).bind (m.settle i) else none) =
          some m') : Ordered (fun _ _ => []) m' := by
      split at went
      · obtain ⟨s, acted, settled⟩ := Option.bind_eq_some_iff.mp went
        exact ordered.act mailed acted other settled
      · cases went
    cases label with
    | receive => cases taken
    | _ => exact acts (fun _ _ _ _ => nofun) taken
  | flush dst src =>
    exact ordered.onQueue mailed
      (fun _ _ _ done => (MessageQueue.contents_flushRequestBatch done).1) taken
  | popFirst dst src =>
    exact ordered.onQueue mailed (fun _ _ _ done => (MessageQueue.contents_popFirst done).1) taken
  | popRest dst src =>
    exact ordered.onQueue mailed (fun _ _ _ done => (MessageQueue.contents_popRest done).1) taken
  | handle dst src => exact ordered.handle mailed taken
  | continuation w =>
    obtain ⟨tables, continued, rfl⟩ := Option.map_eq_some_iff.mp taken
    exact ordered.of_keeps ⟨rfl, rfl, rfl, rfl⟩

theorem ordered_init (count : Nat) : Ordered (fun _ _ => []) (init count limitOf) := by
  have arrivals (i : Nat) : (init count limitOf).arrivals i = [] := by
    refine List.filterMap_eq_nil_iff.mpr fun mid _ => ?_
    rfl
  have pending (dst src : Nat) : (init count limitOf).pending dst src = [] := by
    rw [Machine.pending, onWay_init]
    rfl
  refine ⟨fun dst src msg member => ?_, fun i => pending i i, fun dst src => ?_, fun i p => ?_,
    fun i p _ => ?_⟩
  · cases member
  · rw [arrived, arrivals, pending]
    rfl
  · exact List.nil_prefix
  · rw [mailFor, arrivals]
    rfl

theorem ordered_of_reachable {count : Nat} (reachable : Reachable step (init count limitOf) m) :
    Ordered (fun _ _ => []) m := by
  obtain ⟨labels, ran⟩ := reachable
  refine (run_invariant (fun m => Mailed limitOf m ∧ Ordered (fun _ _ => []) m) ?_ labels _ m
    ⟨mailed_init count, ordered_init count⟩ ran).2
  rintro m label m' ⟨mailed, ordered⟩ taken
  exact ⟨(mailed.step taken).1, ordered.step mailed taken⟩

end Machine

end Hiactor
