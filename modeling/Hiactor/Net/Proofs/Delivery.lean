import Hiactor.Lib.Run
import Hiactor.Core.Proofs.Channel
import Hiactor.Net.Proofs.Routes

/-!
# Order of delivery

Each step of a shard moves at most one message, from the front of a place to the back of the next
one on its route, so that the messages from one shard to another arrive in the order in which they
were sent.
-/

namespace Hiactor

open Lib

namespace Traffic

variable {w : Wiring} {t t' : Traffic}

/-! ## What the places hold -/

/-- The messages in a place, the first one first. -/
def holds (t : Traffic) : Hop → List Letter
  | .localQueue m i j => (t.localQ m i j).contents.map Packet.letter
  | .networkQueue m i j machId =>
    ((t.networkQ m i j).contents.filter (·.machId == machId)).map (·.msg.letter)
  | .netBuffer link => (t.netBuffers link).map Packet.letter
  | .conn link => (t.conns link).packets.map Packet.letter
  | .received shard => (t.received shard).map Packet.letter

/-- The queues of all machines after one of them has changed. -/
theorem qs_update_of_ne {α : Type} (qs : UInt32 → Channel α) {m i j m' i' j' : UInt32}
    (q : MessageQueue α) (other : ¬ (m' = m ∧ i' = i ∧ j' = j)) :
    (Function.update qs m ((qs m).set i.toNat j.toNat q) m').qs i'.toNat j'.toNat =
      (qs m').qs i'.toNat j'.toNat := by
  by_cases machine : m' = m
  · subst machine
    rw [Function.update_self]
    refine Channel.qs_set_of_ne _ q fun ⟨row, column⟩ => other ⟨rfl, ?_, ?_⟩
    · exact UInt32.toNat_inj.mp row
    · exact UInt32.toNat_inj.mp column
  · rw [Function.update_of_ne machine]

@[simp] theorem localQ_setLocalQ_self (m i j : UInt32) (q : MessageQueue Packet) :
    (t.setLocalQ m i j q).localQ m i j = q := by
  simp [localQ, setLocalQ]

theorem localQ_setLocalQ_of_ne {m i j m' i' j' : UInt32} (q : MessageQueue Packet)
    (other : ¬ (m' = m ∧ i' = i ∧ j' = j)) :
    (t.setLocalQ m i j q).localQ m' i' j' = t.localQ m' i' j' :=
  qs_update_of_ne t.localQs q other

@[simp] theorem networkQ_setNetworkQ_self (m i j : UInt32) (q : MessageQueue MessageItem) :
    (t.setNetworkQ m i j q).networkQ m i j = q := by
  simp [networkQ, setNetworkQ]

theorem networkQ_setNetworkQ_of_ne {m i j m' i' j' : UInt32} (q : MessageQueue MessageItem)
    (other : ¬ (m' = m ∧ i' = i ∧ j' = j)) :
    (t.setNetworkQ m i j q).networkQ m' i' j' = t.networkQ m' i' j' :=
  qs_update_of_ne t.networkQs q other

theorem holds_receive (shard : ShardOf) (pkt : Packet) :
    (t.receive shard pkt).holds =
      Function.update t.holds (.received shard) (t.holds (.received shard) ++ [pkt.letter]) := by
  refine Function.eq_update_iff.mpr ⟨by simp [holds, receive], fun place elsewhere => ?_⟩
  cases place with
  | received other =>
    have differ : other ≠ shard := fun same => elsewhere (same ▸ rfl)
    simp [holds, receive, differ]
  | _ => rfl

theorem holds_setBuffer (link : Link) (buf : List Packet) :
    holds { t with netBuffers := Function.update t.netBuffers link buf } =
      Function.update t.holds (.netBuffer link) (buf.map Packet.letter) := by
  refine Function.eq_update_iff.mpr ⟨by simp [holds], fun place elsewhere => ?_⟩
  cases place with
  | netBuffer other =>
    have differ : other ≠ link := fun same => elsewhere (same ▸ rfl)
    simp [holds, differ]
  | _ => rfl

theorem holds_pushToBuffer (link : Link) (pkt : Packet) :
    (t.pushToBuffer link pkt).holds =
      Function.update t.holds (.netBuffer link) (t.holds (.netBuffer link) ++ [pkt.letter]) := by
  rw [pushToBuffer, holds_setBuffer, List.map_append]
  rfl

theorem holds_setConn (link : Link) (conn : Connection) :
    (t.setConn link conn).holds =
      Function.update t.holds (.conn link) (conn.packets.map Packet.letter) := by
  refine Function.eq_update_iff.mpr ⟨by simp [holds, setConn], fun place elsewhere => ?_⟩
  cases place with
  | conn other =>
    have differ : other ≠ link := fun same => elsewhere (same ▸ rfl)
    simp [holds, setConn, differ]
  | _ => rfl

theorem holds_setLocalQ (m i j : UInt32) (q : MessageQueue Packet) :
    (t.setLocalQ m i j q).holds =
      Function.update t.holds (.localQueue m i j) (q.contents.map Packet.letter) := by
  refine Function.eq_update_iff.mpr ⟨by simp [holds], fun place elsewhere => ?_⟩
  cases place with
  | localQueue m' i' j' =>
    have differ : ¬ (m' = m ∧ i' = i ∧ j' = j) := by
      rintro ⟨rfl, rfl, rfl⟩
      exact elsewhere rfl
    rw [holds, holds, localQ_setLocalQ_of_ne q differ]
  | _ => rfl

/-- A queue of `network_channel` whose messages for other machines do not change. -/
theorem holds_setNetworkQ {m i j : UInt32} {q : MessageQueue MessageItem} (machId : UInt32)
    (others : ∀ machId', machId' ≠ machId → q.contents.filter (·.machId == machId') =
      (t.networkQ m i j).contents.filter (·.machId == machId')) :
    (t.setNetworkQ m i j q).holds =
      Function.update t.holds (.networkQueue m i j machId)
        ((q.contents.filter (·.machId == machId)).map (·.msg.letter)) := by
  refine Function.eq_update_iff.mpr ⟨by simp [holds], fun place elsewhere => ?_⟩
  cases place with
  | networkQueue m' i' j' machId' =>
    by_cases queue : m' = m ∧ i' = i ∧ j' = j
    · obtain ⟨rfl, rfl, rfl⟩ := queue
      have machine : machId' ≠ machId := fun same => elsewhere (same ▸ rfl)
      rw [holds, holds, networkQ_setNetworkQ_self, others machId' machine]
    · rw [holds, holds, networkQ_setNetworkQ_of_ne q queue]
  | _ => rfl

/-! ## Steps -/

/-- The loops over the queues are inside their arrays, the messages on the way to a connection fit
in a frame, and the bytes of a connection are frames. -/
structure Valid (t : Traffic) : Prop where
  localQ : ∀ m i j, (t.localQ m i j).InBounds
  networkQ : ∀ m i j, (t.networkQ m i j).InBounds ∧
    ∀ item ∈ (t.networkQ m i j).contents, item.msg.Fits
  netBuffers : ∀ link, ∀ pkt ∈ t.netBuffers link, pkt.Fits
  conns : ∀ link, ∃ parcels, (t.conns link).Carries parcels

theorem Valid.setLocalQ (valid : t.Valid) {m i j : UInt32} {q : MessageQueue Packet}
    (inBounds : q.InBounds) : (t.setLocalQ m i j q).Valid where
  localQ := by
    intro m' i' j'
    by_cases here : m' = m ∧ i' = i ∧ j' = j
    · obtain ⟨rfl, rfl, rfl⟩ := here
      rw [localQ_setLocalQ_self]
      exact inBounds
    · rw [localQ_setLocalQ_of_ne q here]
      exact valid.localQ m' i' j'
  networkQ := valid.networkQ
  netBuffers := valid.netBuffers
  conns := valid.conns

theorem Valid.setNetworkQ (valid : t.Valid) {m i j : UInt32} {q : MessageQueue MessageItem}
    (inBounds : q.InBounds) (fits : ∀ item ∈ q.contents, item.msg.Fits) :
    (t.setNetworkQ m i j q).Valid where
  localQ := valid.localQ
  networkQ := by
    intro m' i' j'
    by_cases here : m' = m ∧ i' = i ∧ j' = j
    · obtain ⟨rfl, rfl, rfl⟩ := here
      rw [networkQ_setNetworkQ_self]
      exact ⟨inBounds, fits⟩
    · rw [networkQ_setNetworkQ_of_ne q here]
      exact valid.networkQ m' i' j'
  netBuffers := valid.netBuffers
  conns := valid.conns

theorem Valid.setBuffer (valid : t.Valid) {link : Link} {buf : List Packet}
    (fits : ∀ pkt ∈ buf, pkt.Fits) :
    Valid { t with netBuffers := Function.update t.netBuffers link buf } where
  localQ := valid.localQ
  networkQ := valid.networkQ
  netBuffers := by
    intro other
    by_cases here : other = link
    · subst here
      simpa using fits
    · simpa [here] using valid.netBuffers other
  conns := valid.conns

theorem Valid.pushToBuffer (valid : t.Valid) {link : Link} {pkt : Packet} (fits : pkt.Fits) :
    (t.pushToBuffer link pkt).Valid := by
  refine valid.setBuffer fun other listed => ?_
  rcases List.mem_append.mp listed with before | last
  · exact valid.netBuffers link other before
  · obtain rfl := List.mem_singleton.mp last
    exact fits

theorem Valid.setConn (valid : t.Valid) {link : Link} {conn : Connection} {parcels : List Parcel}
    (carries : conn.Carries parcels) : (t.setConn link conn).Valid where
  localQ := valid.localQ
  networkQ := valid.networkQ
  netBuffers := valid.netBuffers
  conns := by
    intro other
    by_cases here : other = link
    · subst here
      exact ⟨parcels, by simpa [Traffic.setConn] using carries⟩
    · simpa [Traffic.setConn, here] using valid.conns other

theorem Valid.receive (valid : t.Valid) (shard : ShardOf) (pkt : Packet) :
    (t.receive shard pkt).Valid :=
  ⟨valid.localQ, valid.networkQ, valid.netBuffers, valid.conns⟩

/-- `send` puts a message at the end of the first place on its way. -/
theorem send_spec {m s : UInt32} {pkt : Packet} (valid : t.Valid)
    (fits : (w.info m).sendChoice s pkt.msg.hdr.addr.getShardId = .network → pkt.Fits)
    (sent : t.send w m s pkt = some t') :
    t'.Valid ∧ t'.sent = t.sent ∧ ∃ place, w.entry m s pkt.msg.hdr.addr.getShardId = some place ∧
      t'.holds = Function.update t.holds place (t.holds place ++ [pkt.letter]) := by
  cases choice : (w.info m).sendChoice s pkt.msg.hdr.addr.getShardId with
  | receive =>
    simp only [send, choice, Option.some.injEq] at sent
    subst sent
    refine ⟨valid.receive _ _, rfl, .received (m, s), by simp [Wiring.entry, choice], ?_⟩
    exact holds_receive _ _
  | «local» targetCpu =>
    simp only [send, choice] at sent
    obtain ⟨q, pushed, result⟩ := Option.bind_eq_some_iff.mp sent
    obtain rfl := Option.some.inj result
    obtain ⟨contents, inBounds⟩ := MessageQueue.contents_send pushed
    refine ⟨valid.setLocalQ (inBounds (valid.localQ _ _ _)), rfl, .localQueue m targetCpu s,
      by simp [Wiring.entry, choice], ?_⟩
    rw [holds_setLocalQ, contents, List.map_append]
    rfl
  | network =>
    simp only [send, choice] at sent
    obtain ⟨dst, found, put⟩ := Option.bind_eq_some_iff.mp sent
    split at put
    · next here =>
      obtain rfl := Option.some.inj put
      refine ⟨valid.pushToBuffer (fits choice), rfl, .netBuffer ⟨m, s, dst.machineId⟩,
        by simp [Wiring.entry, choice, found, here], ?_⟩
      exact holds_pushToBuffer _ _
    · next proxy =>
      obtain ⟨q, pushed, result⟩ := Option.bind_eq_some_iff.mp put
      obtain rfl := Option.some.inj result
      obtain ⟨contents, inBounds⟩ := MessageQueue.contents_send pushed
      obtain ⟨inBounds', items⟩ := valid.networkQ m dst.targetSid s
      refine ⟨valid.setNetworkQ (inBounds inBounds') ?_, rfl,
        .networkQueue m dst.targetSid s dst.machineId,
        by simp [Wiring.entry, choice, found, proxy], ?_⟩
      · intro item listed
        rw [contents] at listed
        rcases List.mem_append.mp listed with before | last
        · exact items item before
        · obtain rfl := List.mem_singleton.mp last
          exact fits choice
      · rw [holds_setNetworkQ dst.machineId, contents]
        · simp [holds]
        · intro machId' other
          simp [contents, Ne.symm other]

/-- A message that goes to another machine fits in a frame. -/
def Label.Fits (w : Wiring) : Label → Prop
  | .send (m, _) msg =>
    (w.info m).isLocal msg.hdr.addr.getShardId = true ∨ msg.encodedLength < 2 ^ 32
  | _ => True

theorem not_isLocal_of_network {info : MachineInfo} {s g : UInt32}
    (away : info.sendChoice s g = .network) : info.isLocal g ≠ true := by
  intro near
  unfold MachineInfo.sendChoice at away
  rw [if_pos near] at away
  split at away
  · cases away
  · cases away

theorem QueueStep.take_spec {α : Type} {q q' : MessageQueue α} {queueStep : QueueStep}
    (taken : queueStep.take q = some q') :
    q'.contents = q.contents ∧ (q.InBounds → q'.InBounds) := by
  cases queueStep with
  | flush => exact MessageQueue.contents_flushRequestBatch taken
  | popFirst =>
    obtain ⟨same, inBounds⟩ := MessageQueue.contents_popFirst taken
    exact ⟨same, fun _ => inBounds⟩
  | popRest =>
    obtain ⟨same, inBounds⟩ := MessageQueue.contents_popRest taken
    exact ⟨same, fun _ => inBounds⟩

/-- One message at most goes on. -/
def Moves (w : Wiring) (t t' : Traffic) : Prop :=
  w.pipes.Move t.holds (t.sent.map Packet.letter) t'.holds (t'.sent.map Packet.letter)

/-- Every message is on the route of its flow. -/
def Located (w : Wiring) (t : Traffic) : Prop :=
  ∀ place letter, letter ∈ t.holds place →
    place ∈ w.route letter.source letter.addr.getShardId

theorem moves_of_stay (same : t'.holds = t.holds) (sent : t'.sent = t.sent) : Moves w t t' := by
  unfold Moves
  rw [same, sent]
  exact .stay

/-- The first message of a place goes on to the next place. -/
theorem moves_of_pass {letter : Letter} {rest : List Letter} {place next : Hop}
    (follows : [place, next] <:+: w.route letter.source letter.addr.getShardId)
    (front : t.holds place = letter :: rest)
    (after : t'.holds =
      Function.update (Function.update t.holds place rest) next (t.holds next ++ [letter]))
    (sent : t'.sent = t.sent) : Moves w t t' := by
  unfold Moves
  rw [after, sent]
  exact .pass letter rest place next follows front

section step

variable {m i j : UInt32}

theorem step_send {s : UInt32} {msg : OutMessage} (valid : t.Valid)
    (fits : Label.Fits w (.send (m, s) msg))
    (taken : step w t (.send (m, s) msg) = some t') : t'.Valid ∧ Moves w t t' := by
  simp only [step] at taken
  split at taken
  · obtain ⟨u, sent, rfl⟩ := Option.map_eq_some_iff.mp taken
    have parcel : (w.info m).sendChoice s msg.hdr.addr.getShardId = .network →
        Packet.Fits ⟨(m, s), .own msg⟩ := by
      intro away
      exact ⟨⟨(m, s), msg, fits.resolve_left (not_isLocal_of_network away)⟩, rfl⟩
    obtain ⟨valid', -, place, entry, after⟩ := send_spec valid parcel sent
    refine ⟨⟨valid'.localQ, valid'.networkQ, valid'.netBuffers, valid'.conns⟩, ?_⟩
    have first : (w.pipes.route (w.pipes.flow (Packet.letter ⟨(m, s), .own msg⟩))).head? =
        some place := (Wiring.head?_route (m, s) _).trans entry
    have entered : w.pipes.Move t.holds (t.sent.map Packet.letter) _ _ := .enter _ place first
    unfold Moves
    rw [List.map_append]
    exact after ▸ entered
  · cases taken

theorem step_localStep {queueStep : QueueStep} (valid : t.Valid)
    (taken : step w t (.localStep m i j queueStep) = some t') : t'.Valid ∧ Moves w t t' := by
  obtain ⟨q, done, rfl⟩ := Option.map_eq_some_iff.mp taken
  obtain ⟨same, inBounds⟩ := QueueStep.take_spec done
  refine ⟨valid.setLocalQ (inBounds (valid.localQ m i j)), moves_of_stay ?_ rfl⟩
  rw [holds_setLocalQ, same]
  exact Function.update_eq_self _ _

theorem step_networkStep {queueStep : QueueStep} (valid : t.Valid)
    (taken : step w t (.networkStep m i j queueStep) = some t') : t'.Valid ∧ Moves w t t' := by
  obtain ⟨q, done, rfl⟩ := Option.map_eq_some_iff.mp taken
  obtain ⟨same, inBounds⟩ := QueueStep.take_spec done
  obtain ⟨inBounds', fits⟩ := valid.networkQ m i j
  refine ⟨valid.setNetworkQ (inBounds inBounds') (same ▸ fits), moves_of_stay ?_ rfl⟩
  rw [holds_setNetworkQ 0 (fun _ _ => by rw [same]), same]
  exact Function.update_eq_self _ _

theorem step_localNext (valid : t.Valid) (located : Located w t)
    (taken : step w t (.localNext m i j) = some t') : t'.Valid ∧ Moves w t t' := by
  obtain ⟨⟨tm, q⟩, handled, result⟩ := Option.bind_eq_some_iff.mp taken
  obtain rfl := Option.some.inj result
  obtain ⟨contents, inBounds⟩ := MessageQueue.contents_handleNext handled (valid.localQ m i j)
  have front : t.holds (.localQueue m i j) = tm.letter :: q.contents.map Packet.letter := by
    rw [holds, contents, List.map_cons]
  refine ⟨(valid.setLocalQ inBounds).receive _ _, moves_of_pass (Wiring.follows_localQueue
    (located _ tm.letter (front ▸ List.mem_cons_self))) front ?_ rfl⟩
  rw [holds_receive, holds_setLocalQ, Function.update_of_ne (by simp)]

theorem step_networkNext (valid : t.Valid) (located : Located w t)
    (taken : step w t (.networkNext m i j) = some t') : t'.Valid ∧ Moves w t t' := by
  obtain ⟨⟨item, q⟩, handled, result⟩ := Option.bind_eq_some_iff.mp taken
  obtain rfl := Option.some.inj result
  obtain ⟨inBounds', fits⟩ := valid.networkQ m i j
  obtain ⟨contents, inBounds⟩ := MessageQueue.contents_handleNext handled inBounds'
  rw [contents] at fits
  have front : t.holds (.networkQueue m i j item.machId) = item.msg.letter ::
      (q.contents.filter (·.machId == item.machId)).map (·.msg.letter) := by
    simp [holds, contents]
  refine ⟨(valid.setNetworkQ inBounds fun other listed =>
      fits other (List.mem_cons_of_mem _ listed)).pushToBuffer (fits item List.mem_cons_self),
    moves_of_pass (Wiring.follows_networkQueue
      (located _ item.msg.letter (front ▸ List.mem_cons_self))) front ?_ rfl⟩
  rw [holds_pushToBuffer, holds_setNetworkQ item.machId, Function.update_of_ne (by simp)]
  intro machId' other
  simp [contents, Ne.symm other]

variable {link : Link}

theorem step_popBuffer (valid : t.Valid) (located : Located w t)
    (taken : step w t (.popBuffer link) = some t') : t'.Valid ∧ Moves w t t' := by
  simp only [step] at taken
  split at taken
  · next pkt buf buffer written =>
    obtain rfl := Option.some.inj taken
    have fits := valid.netBuffers link
    rw [buffer] at fits
    obtain ⟨parcel, rfl⟩ := fits pkt List.mem_cons_self
    obtain ⟨parcels, carries⟩ := valid.conns link
    have carries' := carries.pop written parcel
    have front : t.holds (.netBuffer link) = parcel.packet.letter :: buf.map Packet.letter := by
      rw [holds, buffer, List.map_cons]
    refine ⟨(valid.setBuffer fun other listed =>
        fits other (List.mem_cons_of_mem _ listed)).setConn carries',
      moves_of_pass (Wiring.follows_netBuffer
        (located _ parcel.packet.letter (front ▸ List.mem_cons_self))) front ?_ rfl⟩
    rw [holds_setConn, holds_setBuffer, carries'.packets_eq, List.map_append, ← carries.packets_eq]
    rfl
  · cases taken

/-- A step of a loop that leaves the messages of the connection where they are. -/
theorem moves_of_carries {conn : Connection} {parcels : List Parcel} (valid : t.Valid)
    (carries : (t.conns link).Carries parcels) (carries' : conn.Carries parcels) :
    (t.setConn link conn).Valid ∧ Moves w t (t.setConn link conn) := by
  refine ⟨valid.setConn carries', moves_of_stay ?_ rfl⟩
  rw [holds_setConn, carries'.packets_eq, ← carries.packets_eq]
  exact Function.update_eq_self _ _

theorem step_write {count : Nat} (valid : t.Valid)
    (taken : step w t (.write link count) = some t') : t'.Valid ∧ Moves w t t' := by
  obtain rfl := Option.some.inj taken
  obtain ⟨parcels, carries⟩ := valid.conns link
  exact moves_of_carries valid carries (carries.write count)

theorem step_readLength (valid : t.Valid)
    (taken : step w t (.readLength link) = some t') : t'.Valid ∧ Moves w t t' := by
  simp only [step] at taken
  split at taken
  · next b0 b1 b2 b3 unread first =>
    obtain rfl := Option.some.inj taken
    obtain ⟨parcels, carries⟩ := valid.conns link
    exact moves_of_carries valid carries (carries.readLength unread first)
  · cases taken

theorem step_readMessage (lands : w.Lands) (valid : t.Valid) (located : Located w t)
    (taken : step w t (.readMessage link) = some t') : t'.Valid ∧ Moves w t t' := by
  obtain ⟨⟨nrBytes, source⟩, read, rest⟩ := Option.bind_eq_some_iff.mp taken
  simp only at rest
  split at rest
  · next there =>
    obtain ⟨msg, decoded, sent⟩ := Option.bind_eq_some_iff.mp rest
    obtain ⟨parcels, carries⟩ := valid.conns link
    obtain ⟨parcel, more, msg', rfl, decoded', letter, carries'⟩ := carries.readMessage read there
    obtain rfl := Option.some.inj (decoded.symm.trans decoded')
    have front : t.holds (.conn link) = Packet.letter ⟨source, .network msg⟩ ::
        more.map (fun parcel => parcel.packet.letter) := by
      rw [holds, carries.packets_eq, List.map_cons, letter]
    obtain ⟨arrived, next, entry, follows⟩ := Wiring.follows_conn lands
      (located _ (Packet.letter ⟨source, .network msg⟩) (front ▸ List.mem_cons_self))
    have differ : next ≠ .conn link := by
      have nodup := (Wiring.route_nodup _ _).sublist follows.sublist
      simpa [eq_comm] using nodup
    obtain ⟨valid', same, place, entry', after⟩ := send_spec (valid.setConn carries')
      (fun away => absurd away arrived) sent
    obtain rfl := Option.some.inj (entry'.symm.trans entry)
    refine ⟨valid', moves_of_pass follows front ?_ same⟩
    rw [after, holds_setConn, Function.update_of_ne differ, carries'.packets_eq]
  · cases rest

/-- Every step keeps the state valid and moves at most one message, one place on. -/
theorem step_spec (lands : w.Lands) (valid : t.Valid) (located : Located w t) {label : Label}
    (fits : label.Fits w) (taken : step w t label = some t') : t'.Valid ∧ Moves w t t' := by
  cases label with
  | send shard msg => exact step_send valid fits taken
  | localStep m i j queueStep => exact step_localStep valid taken
  | localNext m i j => exact step_localNext valid located taken
  | networkStep m i j queueStep => exact step_networkStep valid taken
  | networkNext m i j => exact step_networkNext valid located taken
  | popBuffer link => exact step_popBuffer valid located taken
  | write link count => exact step_write valid taken
  | readLength link => exact step_readLength valid taken
  | readMessage link => exact step_readMessage lands valid located taken

end step

/-! ## Runs -/

/-- The messages of every flow are in order on its route. -/
structure Sound (w : Wiring) (t : Traffic) : Prop where
  valid : t.Valid
  inOrder : w.pipes.InOrder t.holds (t.sent.map Packet.letter)

theorem sound_step (lands : w.Lands) (sound : Sound w t) {label : Label} (fits : label.Fits w)
    (taken : step w t label = some t') : Sound w t' := by
  obtain ⟨valid, moves⟩ := step_spec lands sound.valid sound.inOrder.located fits taken
  exact ⟨valid, sound.inOrder.move moves⟩

theorem contents_startedQs {α : Type} (count i j : Nat) :
    ((startedQs count : Channel α).qs i j).contents = [] ∧
      ((startedQs count : Channel α).qs i j).InBounds :=
  Channel.contents_started count (List.range count) i j

theorem sound_start : Sound w (start w) := by
  have localQ (m i j : UInt32) := contents_startedQs (α := Packet) (w.localShardCount m).toNat
    i.toNat j.toNat
  have networkQ (m i j : UInt32) := contents_startedQs (α := MessageItem)
    (w.localShardCount m).toNat i.toNat j.toNat
  refine ⟨⟨?_, ?_, ?_, ?_⟩, Pipeline.inOrder_of_empty fun place => ?_⟩
  · exact fun m i j => (localQ m i j).2
  · intro m i j
    refine ⟨(networkQ m i j).2, fun item listed => ?_⟩
    rw [Traffic.networkQ, start, (networkQ m i j).1] at listed
    cases listed
  · intro link pkt listed
    cases listed
  · exact fun link => ⟨[], rfl⟩
  · cases place with
    | localQueue m i j => simp [holds, Traffic.localQ, start, (localQ m i j).1]
    | networkQueue m i j machId => simp [holds, Traffic.networkQ, start, (networkQ m i j).1]
    | netBuffer link => rfl
    | conn link => rfl
    | received shard => rfl

theorem sound_of_run (lands : w.Lands) {labels : List Label}
    (fits : ∀ label ∈ labels, label.Fits w) (ran : run (step w) (start w) labels = some t) :
    Sound w t := by
  have meets : StepsMeet (step w) (fun _ label => label.Fits w) (start w) labels :=
    stepsMeet_of_forall fits _
  refine run_invariant_of_meets (Sound w) ?_ labels _ t sound_start meets ran
  exact fun t label t' sound fits taken => sound_step lands sound fits taken

end Traffic

/-! ## Delivery -/

/-- The messages from a shard to the shard with id `g` among others. -/
def between (source : ShardOf) (g : UInt32) (letters : List Letter) : List Letter :=
  letters.filter fun letter => letter.source == source && letter.addr.getShardId == g

/-- The messages from a shard to the shard with id `g` that are not received yet: those on the last
part of their route first. -/
def Traffic.underway (w : Wiring) (t : Traffic) (source : ShardOf) (g : UInt32) : List Letter :=
  (w.route source g).dropLast.reverse.flatMap fun place => between source g (t.holds place)

theorem ofFlow_eq_between (w : Wiring) (source : ShardOf) (g : UInt32) :
    w.pipes.ofFlow (source, g) = between source g := by
  funext letters
  refine List.filter_congr fun letter _ => ?_
  simp [Wiring.pipes, Bool.decide_and, beq_eq_decide]

/-- In every run of a cluster whose routing tables fit in their arrays, between any two shards the
messages that are received, followed by those that are underway, are the messages that were sent, in
this order, and no message is beside its route: if all messages to other machines fit in a frame,
nothing is lost, duplicated or reordered. -/
theorem delivered_in_order (c : WorkerCluster) (net : c.Connections) (labels : List Traffic.Label)
    (fits : ∀ label ∈ labels, label.Fits net.wiring) (t : Traffic)
    (ran : run (Traffic.step net.wiring) (Traffic.start net.wiring) labels = some t)
    (source target : ShardOf) (from_mem : source ∈ c.shards) (to_mem : target ∈ c.shards) :
    between source (c.idOf target) ((t.received target).map Packet.letter) ++
        t.underway net.wiring source (c.idOf target) =
      between source (c.idOf target) (t.sent.map Packet.letter) ∧
    ∀ place, between source (c.idOf target) (t.holds place) ≠ [] →
      place ∈ net.wiring.route source (c.idOf target) := by
  have inOrder := (Traffic.sound_of_run net.lands fits ran).inOrder
  have order : (net.wiring.route source (c.idOf target)).reverse.flatMap
      (fun place => between source (c.idOf target) (t.holds place)) =
        between source (c.idOf target) (t.sent.map Packet.letter) := by
    rw [← ofFlow_eq_between net.wiring]
    exact inOrder.order (source, c.idOf target)
  have located : ∀ place, between source (c.idOf target) (t.holds place) ≠ [] →
      place ∈ net.wiring.route source (c.idOf target) := by
    intro place some_there
    obtain ⟨letter, listed⟩ := List.exists_mem_of_ne_nil _ some_there
    obtain ⟨held, mine⟩ := List.mem_filter.mp listed
    simp only [Bool.and_eq_true, beq_iff_eq] at mine
    have there := inOrder.located place letter held
    simp only [Wiring.pipes, mine.1, mine.2] at there
    exact there
  refine ⟨?_, located⟩
  rcases WorkerCluster.route_eq net from_mem to_mem with apart | ⟨before, route⟩
  · have nothing : between source (c.idOf target) (t.holds (.received target)) = [] := by
      by_contra some_there
      have there := located _ some_there
      rw [apart] at there
      cases there
    rw [apart] at order
    rw [Traffic.underway, apart, ← order]
    exact congrArg (· ++ []) nothing
  · rw [route, List.reverse_append] at order
    rw [Traffic.underway, route, List.dropLast_concat, ← order]
    rfl

/-- A message to the root of the shard with id `g`. -/
def messageTo (g : UInt32) (bufs : List Buffer) : OutMessage where
  hdr := {
    addr := {
      length := GShardIdInBytes
      data := leBytes 4 g.toNat ++ List.replicate 48 0
      size_eq := by simp [GMaxAddrLength, GShardIdInBytes, GMaxAddrLayer, GLocalActorAddrLength,
        GActorTypeInBytes, GActorIdInBytes] }
    addr_length_lt := show 4 < 256 by decide
    behaviorTid := 0
    srcShardId := 0
    prId := 0
    mType := 2
    fromNetwork := false }
  padding := ⟨(0, 0), (0, 0)⟩
  payload := some bufs

theorem twoMachines_cases {m : UInt32} {node : WorkerNodeInfo}
    (here : WorkerCluster.twoMachines.nodes[m.toNat]? = some node) :
    m = 0 ∧ node.nrCores = 2 ∨ m = 1 ∧ node.nrCores = 3 := by
  have inside : m.toNat < 2 := (List.getElem?_eq_some_iff.mp here).1
  rcases (by omega : m.toNat = 0 ∨ m.toNat = 1) with first | second
  · rw [first] at here
    obtain rfl := Option.some.inj here
    exact .inl ⟨UInt32.toNat_inj.mp first, rfl⟩
  · rw [second] at here
    obtain rfl := Option.some.inj here
    exact .inr ⟨UInt32.toNat_inj.mp second, rfl⟩

/-- The two machines are connected by their first shards. -/
def oneConnection : WorkerCluster.twoMachines.Connections where
  machIds m := if m = 0 then [[1], []] else if m = 1 then [[0], [], []] else []
  perShard := by
    intro m node here
    rcases twoMachines_cases here with ⟨rfl, cores⟩ | ⟨rfl, cores⟩
    · rw [cores]
      rfl
    · rw [cores]
      rfl
  peers := by
    intro m ids listed mid member
    show mid.toNat < 2
    split at listed
    · simp only [List.mem_cons, List.not_mem_nil, or_false] at listed
      rcases listed with rfl | rfl
      · rw [List.mem_singleton.mp member]
        decide
      · cases member
    · split at listed
      · simp only [List.mem_cons, List.not_mem_nil, or_false] at listed
        rcases listed with rfl | rfl | rfl
        · rw [List.mem_singleton.mp member]
          decide
        · cases member
        · cases member
      · cases listed
  fresh _ := 0
  fits := by
    intro m node here
    rcases twoMachines_cases here with ⟨-, cores⟩ | ⟨-, cores⟩
    · rw [cores]
      decide
    · rw [cores]
      decide
  peer _ := 0
  peer_mem := by
    rintro link s ⟨node, here, inside⟩
    refine ⟨node, here, ?_⟩
    show 0 < node.nrCores.toNat
    omega

/-- The second shard of the first machine sends two messages to the last shard of the second one,
and the first of them arrives: it crosses a queue to the proxy, the connection in two parts, and a
queue from its other end. -/
def twoMessages : List Traffic.Label :=
  [.send (0, 1) (messageTo 4 [[1, 2]]), .networkStep 0 0 1 .flush, .networkStep 0 0 1 .popFirst,
    .networkStep 0 0 1 .popRest, .networkNext 0 0 1, .send (0, 1) (messageTo 4 [[3]]),
    .popBuffer ⟨0, 0, 1⟩, .write ⟨0, 0, 1⟩ 50, .write ⟨0, 0, 1⟩ 50, .readLength ⟨0, 0, 1⟩,
    .readMessage ⟨0, 0, 1⟩, .localStep 1 2 0 .flush, .localStep 1 2 0 .popFirst,
    .localStep 1 2 0 .popRest, .localNext 1 2 0]

theorem first_of_two_delivered :
    ∃ t, run (Traffic.step oneConnection.wiring) (Traffic.start oneConnection.wiring) twoMessages =
        some t ∧ (t.received (1, 2)).length = 1 ∧ t.sent.length = 2 ∧
      between (0, 1) (WorkerCluster.twoMachines.idOf (1, 2))
          ((t.received (1, 2)).map Packet.letter) ++
        t.underway oneConnection.wiring (0, 1) (WorkerCluster.twoMachines.idOf (1, 2)) =
      between (0, 1) (WorkerCluster.twoMachines.idOf (1, 2)) (t.sent.map Packet.letter) := by
  have fits : ∀ label ∈ twoMessages, label.Fits oneConnection.wiring := by
    simp only [twoMessages, List.forall_mem_cons, Traffic.Label.Fits, List.not_mem_nil,
      false_implies, implies_true, and_true, true_and]
    decide +kernel
  have counts : (run (Traffic.step oneConnection.wiring) (Traffic.start oneConnection.wiring)
      twoMessages).map (fun t => ((t.received (1, 2)).length, t.sent.length)) = some (1, 2) := by
    decide +kernel
  obtain ⟨t, ran, lengths⟩ := Option.map_eq_some_iff.mp counts
  obtain ⟨received, sent⟩ := Prod.mk.inj lengths
  refine ⟨t, ran, received, sent, ?_⟩
  exact (delivered_in_order WorkerCluster.twoMachines oneConnection twoMessages fits t ran (0, 1)
    (1, 2) ⟨_, rfl, by decide⟩ ⟨_, rfl, by decide⟩).1

/-! A message with a buffer of `2 ^ 32` bytes has the frame of one with an empty buffer, and the
bytes of the buffer after it. -/

section oversized

variable {buf : Buffer} (long : buf.length = 2 ^ 32)

include long

theorem serialize_oversized (g : UInt32) :
    (messageTo g [buf]).serialize = (messageTo g [[]]).serialize ++ buf := by
  have one (bufs : List Buffer) (single : bufs.length = 1) :
      (messageTo g bufs).buffers.length < 2 ^ 32 := by
    show bufs.length < 2 ^ 32
    omega
  rw [OutMessage.serialize_of_few (one [buf] rfl), OutMessage.serialize_of_few (one [[]] rfl)]
  have length : leBytes 4 (messageTo g [buf]).encodedLength =
      leBytes 4 (messageTo g [[]]).encodedLength := by
    have sum : (messageTo g [buf]).encodedLength =
        (messageTo g [[]]).encodedLength + 256 ^ 4 := by
      simp [OutMessage.encodedLength, OutMessage.buffers, messageTo, long]
    rw [← leBytes_mod, sum, Nat.add_mod_right, leBytes_mod]
  have count : leBytes 4 buf.length = leBytes 4 0 := by
    rw [long]
    rfl
  have body : (messageTo g [buf]).body = (messageTo g [[]]).body ++ buf := by
    simp [OutMessage.body, OutMessage.buffers, messageTo, payloadBytes, count]
  rw [length, body, List.append_assoc]

omit long in
/-- The loops of an idle connection take a message over whose bytes begin with the frame of
`parcel`: the receiver gets the message of this frame. -/
theorem step_frame {w : Wiring} {t : Traffic} {link : Link} {pkt : Packet} {parcel : Parcel}
    {rest : List MarkedByte} (buffer : t.netBuffers link = [pkt]) (idle : t.conns link = {})
    (frame : pkt.frame = parcel.packet.frame ++ rest) :
    ∃ t' msg, run (Traffic.step w) t [.popBuffer link, .write link parcel.packet.frame.length,
        .readLength link] = some t' ∧
      Packet.letter ⟨parcel.source, .network msg⟩ = parcel.packet.letter ∧
      t'.received = t.received ∧ t'.sent = t.sent ∧
      Traffic.step w t' (.readMessage link) =
        (t'.setConn link { out := rest }).send w link.machId (w.peer link)
          ⟨parcel.source, .network msg⟩ := by
  obtain ⟨msg, decoded, letter⟩ := parcel.deserialize_body
  obtain ⟨b0, b1, b2, b3, four⟩ :=
    List.length_eq_four.mp (length_leBytes 4 parcel.msg.encodedLength)
  have length := parcel.leNat_length
  rw [four] at length
  have bytes : parcel.packet.frame = [(b0, parcel.source), (b1, parcel.source), (b2, parcel.source),
      (b3, parcel.source)] ++ mark parcel.source parcel.msg.body := by
    rw [parcel.frame_eq, four]
    rfl
  have body : parcel.msg.body.length = parcel.msg.encodedLength := OutMessage.length_body _
  have whole : parcel.msg.body.take parcel.msg.encodedLength = parcel.msg.body :=
    List.take_of_length_le (Nat.le_of_eq body)
  have all : (mark parcel.source parcel.msg.body).drop parcel.msg.encodedLength = [] :=
    List.drop_of_length_le (by rw [length_mark, body])
  let popped : Traffic :=
    ({ t with netBuffers := Function.update t.netBuffers link [] }.setConn link
      { out := pkt.frame })
  have first : Traffic.step w t (.popBuffer link) = some popped := by
    simp [Traffic.step, buffer, idle, popped]
  let written : Traffic := popped.setConn link { out := rest, stream := parcel.packet.frame }
  have second : Traffic.step w popped (.write link parcel.packet.frame.length) = some written := by
    simp [Traffic.step, popped, written, Traffic.setConn, frame]
  let begun : Traffic := written.setConn link
    { out := rest, stream := mark parcel.source parcel.msg.body,
      nrBytes := some (parcel.msg.encodedLength, parcel.source) }
  have third : Traffic.step w written (.readLength link) = some begun := by
    simp [Traffic.step, written, begun, Traffic.setConn, bytes, length]
  refine ⟨begun, msg, ?_, letter, rfl, rfl, ?_⟩
  · simp only [run, first, second, third]
  · simp [Traffic.step, begun, Traffic.setConn, body, whole, all, decoded]

/-- The message arrives with an empty buffer. -/
theorem oversized_received :
    ∃ t, run (Traffic.step oneConnection.wiring) (Traffic.start oneConnection.wiring)
        [.send (0, 0) (messageTo 2 [buf]), .popBuffer ⟨0, 0, 1⟩, .write ⟨0, 0, 1⟩ 80,
          .readLength ⟨0, 0, 1⟩, .readMessage ⟨0, 0, 1⟩] = some t ∧
      (t.received (1, 0)).map Packet.letter =
        [Packet.letter ⟨(0, 0), .own (messageTo 2 [[]])⟩] ∧
      t.sent = [⟨(0, 0), .own (messageTo 2 [buf])⟩] := by
  have away : (oneConnection.wiring.info 0).sendChoice 0
      (messageTo 2 [buf]).hdr.addr.getShardId = .network := by
    show (oneConnection.wiring.info 0).sendChoice 0 (messageTo 2 []).hdr.addr.getShardId = .network
    decide +kernel
  have found : oneConnection.wiring.getDestination 0
      (messageTo 2 [buf]).hdr.addr.getShardId = some ⟨1, 0⟩ := by
    show oneConnection.wiring.getDestination 0
      (messageTo 2 []).hdr.addr.getShardId = some ⟨1, 0⟩
    decide +kernel
  have shard : (0 : UInt32) < oneConnection.wiring.localShardCount 0 := by decide +kernel
  let sent : Traffic :=
    { (Traffic.start oneConnection.wiring).pushToBuffer ⟨0, 0, 1⟩
        ⟨(0, 0), .own (messageTo 2 [buf])⟩ with sent := [⟨(0, 0), .own (messageTo 2 [buf])⟩] }
  have first : Traffic.step oneConnection.wiring (Traffic.start oneConnection.wiring)
      (.send (0, 0) (messageTo 2 [buf])) = some sent := by
    simp only [Traffic.step, if_pos shard, Traffic.send, CarriedMessage.hdr, away,
      Traffic.networkSend, found]
    rfl
  let parcel : Parcel := ⟨(0, 0), messageTo 2 [[]], by decide⟩
  have frame : Packet.frame ⟨(0, 0), .own (messageTo 2 [buf])⟩ =
      parcel.packet.frame ++ mark (0, 0) buf := by
    simp [Packet.frame, CarriedMessage.serialize, serialize_oversized long, mark, parcel,
      Parcel.packet]
  have eighty : parcel.packet.frame.length = 80 := by decide +kernel
  have buffer : sent.netBuffers ⟨0, 0, 1⟩ = [⟨(0, 0), .own (messageTo 2 [buf])⟩] := by
    simp [sent, Traffic.pushToBuffer, Traffic.start]
  obtain ⟨t, msg, ran, letter, received, kept, last⟩ :=
    step_frame (w := oneConnection.wiring) buffer rfl frame
  have arrives : (oneConnection.wiring.info 1).sendChoice 0 msg.hdr.addr.getShardId = .receive := by
    have addr : msg.hdr.addr = (messageTo 2 [[]]).hdr.addr := congrArg Letter.addr letter
    rw [addr]
    decide +kernel
  have handed : Traffic.step oneConnection.wiring t (.readMessage ⟨0, 0, 1⟩) =
      some ((t.setConn ⟨0, 0, 1⟩ { out := mark (0, 0) buf }).receive (1, 0)
        ⟨(0, 0), .network msg⟩) := by
    rw [last]
    show Traffic.send _ _ 1 0 _ = _
    simp only [Traffic.send, CarriedMessage.hdr, arrives]
    rfl
  rw [eighty] at ran
  refine ⟨(t.setConn ⟨0, 0, 1⟩ { out := mark (0, 0) buf }).receive (1, 0) ⟨(0, 0), .network msg⟩,
    run_cons_eq_some.mpr ⟨sent, first, run_append ran ?_⟩, ?_, kept⟩
  · exact run_cons_eq_some.mpr ⟨_, handed, rfl⟩
  · have before : t.received (1, 0) = [] := by rw [received]; rfl
    show (Function.update t.received (1, 0) (t.received (1, 0) ++ [_]) (1, 0)).map _ = _
    rw [Function.update_self, before, List.nil_append, List.map_singleton]
    exact congrArg (fun other => [other]) letter

end oversized

/-- A message of more than `2 ^ 32` bytes to another machine is not delivered: in its place a
message with an empty buffer is. -/
theorem oversized_message_mangled :
    ¬ ∀ (c : WorkerCluster) (net : c.Connections) (labels : List Traffic.Label) (t : Traffic),
      run (Traffic.step net.wiring) (Traffic.start net.wiring) labels = some t →
      ∀ source target : ShardOf, source ∈ c.shards → target ∈ c.shards →
        between source (c.idOf target) ((t.received target).map Packet.letter) ++
            t.underway net.wiring source (c.idOf target) =
          between source (c.idOf target) (t.sent.map Packet.letter) := by
  intro all
  have long : (List.replicate (2 ^ 32) 0 : Buffer).length = 2 ^ 32 := List.length_replicate
  generalize (List.replicate (2 ^ 32) 0 : Buffer) = buf at long
  obtain ⟨t, ran, received, sent⟩ := oversized_received long
  have same := all WorkerCluster.twoMachines oneConnection _ t ran (0, 0) (1, 0) ⟨_, rfl, by decide⟩
    ⟨_, rfl, by decide⟩
  have mine (bufs : List Buffer) : between (0, 0) (WorkerCluster.twoMachines.idOf (1, 0))
      [Packet.letter ⟨(0, 0), .own (messageTo 2 bufs)⟩] =
        [Packet.letter ⟨(0, 0), .own (messageTo 2 bufs)⟩] := by
    have id : (messageTo 2 bufs).hdr.addr.getShardId =
        WorkerCluster.twoMachines.idOf (1, 0) := by
      show (messageTo 2 []).hdr.addr.getShardId = _
      decide +kernel
    simp [between, Packet.letter, CarriedMessage.hdr, id]
  rw [received, sent, List.map_singleton, mine, mine, List.singleton_append] at same
  have payload : [[]] = [buf] := congrArg Letter.payload (List.cons.inj same).1
  rw [← (List.cons.inj payload).1] at long
  exact absurd long (by decide)

end Hiactor
