import Hiactor.Core.Scope
import Hiactor.Core.Proofs.Address
import Hiactor.Core.Proofs.ShardRouting
import Hiactor.Net.Cluster

/-!
# Which scopes lead back to the actor

`get_scope` rebuilds the groups above an actor, in order and at every depth. It starts from the
local shard id, while messages are routed by the global one: the two are the same exactly on a
machine whose ids start at zero.
-/

namespace Hiactor

open Lib

/-! ## The objects of a path -/

theorem address_actorBase (k : ActorKey) (p : Path) : (actorBase (k :: p)).address = k.bytes := by
  rw [actorBase, ActorBase.new]
  exact List.take_of_length_le (by simp)

theorem totalAddrLength_actorBase {p : Path} (few : p.length ≤ GMaxAddrLayer) :
    (actorBase p).totalAddrLength.toNat = GShardIdInBytes + p.length * GLocalActorAddrLength := by
  induction p with
  | nil => rfl
  | cons k p ih =>
    have parent := ih (Nat.le_of_succ_le few)
    simp only [GMaxAddrLayer, List.length_cons, GShardIdInBytes_eq, GLocalActorAddrLength_eq]
      at few parent ⊢
    rw [actorBase, ActorBase.new, UInt8.toNat_add, parent, GLocalActorAddrLength_eq,
      show (UInt8.ofNat 6).toNat = 6 from rfl]
    omega

/-- The actor reads its own type and id. -/
theorem key_actorBase (k : ActorKey) (p : Path) : (actorBase (k :: p)).key = k := by
  have typeBound := k.type.toNat_lt
  have idBound := k.id.toNat_lt
  have type : slice k.bytes 0 GActorTypeInBytes = leBytes GActorTypeInBytes k.type.toNat := by
    have start := slice_append [] (leBytes GActorTypeInBytes k.type.toNat)
      (leBytes GActorIdInBytes k.id.toNat)
    simpa [ActorKey.bytes] using start
  have id : slice k.bytes GActorTypeInBytes GActorIdInBytes =
      leBytes GActorIdInBytes k.id.toNat := by
    have rest := slice_append (leBytes GActorTypeInBytes k.type.toNat)
      (leBytes GActorIdInBytes k.id.toNat) []
    simpa [ActorKey.bytes] using rest
  rw [ActorBase.key, address_actorBase, type, id, leNat_leBytes, leNat_leBytes,
    Nat.mod_eq_of_lt (by simpa [GActorTypeInBytes] using typeBound),
    Nat.mod_eq_of_lt (by simpa [GActorIdInBytes] using idBound)]
  simp

/-! ## The bytes of an address -/

theorem bytes_keyAt {a : Address} {offset : Nat}
    (inside : offset + GLocalActorAddrLength ≤ GMaxAddrLength) :
    (a.keyAt offset).bytes = slice a.data offset GLocalActorAddrLength := by
  have typeLength : (slice a.data offset GActorTypeInBytes).length = GActorTypeInBytes := by
    refine length_slice ?_
    rw [a.size_eq]
    simp only [GLocalActorAddrLength, GActorTypeInBytes] at inside ⊢
    omega
  have idLength : (slice a.data (offset + GActorTypeInBytes) GActorIdInBytes).length =
      GActorIdInBytes := by
    refine length_slice ?_
    rw [a.size_eq]
    simp only [GLocalActorAddrLength] at inside
    omega
  have typeBound := leNat_lt (slice a.data offset GActorTypeInBytes)
  have idBound := leNat_lt (slice a.data (offset + GActorTypeInBytes) GActorIdInBytes)
  have type := leBytes_leNat (slice a.data offset GActorTypeInBytes)
  have id := leBytes_leNat (slice a.data (offset + GActorTypeInBytes) GActorIdInBytes)
  rw [typeLength] at typeBound type
  rw [idLength] at idBound id
  rw [ActorKey.bytes, Address.keyAt, UInt16.toNat_ofNat_of_lt' typeBound,
    UInt32.toNat_ofNat_of_lt' idBound, type, id, ← slice_add]
  rfl

/-- The used bytes of an address are the encoding of what it decodes to. -/
theorem bytes_of_decode {a : Address} {depth : Nat}
    (length : a.length = GShardIdInBytes + depth * GLocalActorAddrLength)
    (few : depth ≤ GMaxAddrLayer) :
    a.data.take a.length = ScopePath.bytes ⟨a.getShardId, a.layers⟩ := by
  have layers : a.layers = (List.range depth).map
      (fun i => a.keyAt (GShardIdInBytes + i * GLocalActorAddrLength)) := by
    rw [Address.layers, length, Nat.add_sub_cancel_left, Nat.mul_div_cancel _ (by decide)]
  rw [layers, length]
  clear layers length
  induction depth with
  | zero =>
    have shardLength : (a.data.take GShardIdInBytes).length = GShardIdInBytes := by
      rw [List.length_take, a.size_eq]
      decide
    have bound := leNat_lt (a.data.take GShardIdInBytes)
    have shard := leBytes_leNat (a.data.take GShardIdInBytes)
    rw [shardLength] at bound shard
    simp only [ScopePath.bytes, Address.getShardId, slice, List.drop_zero, Nat.zero_mul,
      Nat.add_zero, List.range_zero, List.map_nil]
    rw [UInt32.toNat_ofNat_of_lt' bound, shard]
    simp [layerBytes]
  | succ depth ih =>
    have inside : GShardIdInBytes + depth * GLocalActorAddrLength + GLocalActorAddrLength ≤
        GMaxAddrLength := by
      simp only [GMaxAddrLayer, GShardIdInBytes_eq, GLocalActorAddrLength_eq, GMaxAddrLength_eq]
        at few ⊢
      omega
    have layer := @bytes_keyAt a _ inside
    rw [Nat.succ_mul, ← Nat.add_assoc, List.take_add, ih (Nat.le_of_succ_le few),
      List.range_succ, List.map_append, ScopePath.bytes, ScopePath.bytes, layerBytes_append]
    rw [List.append_assoc]
    congr 2
    simp only [List.map_cons, List.map_nil, layerBytes, List.flatMap_cons, List.flatMap_nil,
      List.append_nil]
    rw [layer, slice]

theorem layers_cut {a : Address} {depth n : Nat}
    (length : a.length = GShardIdInBytes + depth * GLocalActorAddrLength) (below : n ≤ depth) :
    (a.cut (GShardIdInBytes + n * GLocalActorAddrLength)).layers = a.layers.take n := by
  have here : (GShardIdInBytes + n * GLocalActorAddrLength - GShardIdInBytes) /
      GLocalActorAddrLength = n := by
    rw [Nat.add_sub_cancel_left, Nat.mul_div_cancel _ (by decide)]
  have whole : (a.length - GShardIdInBytes) / GLocalActorAddrLength = depth := by
    rw [length, Nat.add_sub_cancel_left, Nat.mul_div_cancel _ (by decide)]
  rw [Address.layers, Address.layers, whole, Address.cut, here, ← List.map_take, List.take_range,
    Nat.min_eq_left below]
  rfl

/-! ## The copies of `get_scope` -/

theorem copyGroups_eq {p : Path} (few : p.length ≤ GMaxAddrLayer) (addr : Address) :
    ∃ addr', copyGroups addr p.length p = some addr' ∧
      addr'.data = addr.data.take GShardIdInBytes ++ layerBytes p.reverse ++
        addr.data.drop (GShardIdInBytes + p.length * GLocalActorAddrLength) := by
  induction p generalizing addr with
  | nil => exact ⟨addr, rfl, by simp [layerBytes]⟩
  | cons k p ih =>
    have inside : GShardIdInBytes + p.length * GLocalActorAddrLength +
        (actorBase (k :: p)).address.length ≤ GMaxAddrLength := by
      rw [address_actorBase, ActorKey.length_bytes]
      simp only [GMaxAddrLayer, GShardIdInBytes_eq, GLocalActorAddrLength_eq, GMaxAddrLength_eq,
        List.length_cons] at few ⊢
      omega
    have inside' := inside
    rw [← addr.size_eq] at inside'
    obtain ⟨addr', copied, data⟩ := ih (Nat.le_of_succ_le few) (addr.write _ _ inside)
    refine ⟨addr', ?_, ?_⟩
    · rw [List.length_cons, copyGroups]
      simp only [inside, dite_true]
      exact copied
    · rw [data, Address.write, take_overwrite_before inside' (Nat.le_add_right _ _),
        drop_overwrite inside', address_actorBase, ActorKey.length_bytes, List.length_cons,
        Nat.succ_mul, Nat.add_assoc, List.reverse_cons, layerBytes_append]
      simp [layerBytes]

/-- `get_scope` returns the groups above the actor, under the local shard id. -/
theorem getScope_represents (junk : Junk) (localShardId : UInt32) {k : ActorKey} {p : Path}
    (few : (k :: p).length ≤ GMaxAddrLayer) :
    ∃ scope, getScope junk localShardId (k :: p) = some scope ∧
      scope.Represents ⟨localShardId, p.reverse⟩ := by
  have total := totalAddrLength_actorBase few
  have start : (ScopeBuilder.new junk localShardId).addr.data.take GShardIdInBytes = _ :=
    (represents_new junk localShardId).used
  have layerNum : (GShardIdInBytes + (k :: p).length * GLocalActorAddrLength - GShardIdInBytes -
      GLocalActorAddrLength) / GLocalActorAddrLength = p.length := by
    rw [Nat.add_sub_cancel_left, List.length_cons, Nat.succ_mul, Nat.add_sub_cancel,
      Nat.mul_div_cancel _ (by decide)]
  have room : GShardIdInBytes + (k :: p).length * GLocalActorAddrLength ≤ GMaxAddrLength := by
    simp only [GMaxAddrLayer, GShardIdInBytes_eq, GLocalActorAddrLength_eq, GMaxAddrLength_eq]
      at few ⊢
    omega
  have shorter : GShardIdInBytes + (k :: p).length * GLocalActorAddrLength -
      GLocalActorAddrLength = GShardIdInBytes + p.length * GLocalActorAddrLength := by
    rw [List.length_cons, Nat.succ_mul, ← Nat.add_assoc, Nat.add_sub_cancel]
  obtain ⟨addr, copied, data⟩ := copyGroups_eq (Nat.le_of_succ_le few)
    (ScopeBuilder.new junk localShardId).addr
  have fits : GShardIdInBytes + (k :: p).length * GLocalActorAddrLength =
      GShardIdInBytes + (p.length + 1) * GLocalActorAddrLength ∧
      GShardIdInBytes + (k :: p).length * GLocalActorAddrLength ≤ GMaxAddrLength := ⟨rfl, room⟩
  unfold getScope
  simp only [total, layerNum, copied]
  rw [dif_pos fits]
  refine ⟨_, rfl, ?_, ?_⟩
  · rw [length_scopePath_bytes, List.length_reverse]
    exact shorter
  · show addr.data.take (GShardIdInBytes + (k :: p).length * GLocalActorAddrLength -
      GLocalActorAddrLength) = _
    have shardBytes : (ScopeBuilder.new junk localShardId).addr.data.take GShardIdInBytes =
        leBytes GShardIdInBytes localShardId.toNat := by
      simpa [ScopePath.bytes, layerBytes] using start
    rw [shorter, data, shardBytes]
    exact List.take_left' (by simp)

/-- A scope of the actor with key `k` leads back to its address exactly when the shard is the
same. -/
theorem inverts_iff {scope : ScopeBuilder} {a : Address} {shard : UInt32} {k : ActorKey} {p : Path}
    (encoded : scope.Represents ⟨shard, p.reverse⟩) (few : (k :: p).length ≤ GMaxAddrLayer)
    (length : a.length = GShardIdInBytes + (k :: p).length * GLocalActorAddrLength)
    (layers : a.layers = (k :: p).reverse) :
    scope.Inverts a k ↔ shard = a.getShardId := by
  obtain ⟨scopeShard, scopeLayers⟩ := decode_of_bytes encoded.length encoded.used
  have shorter : scope.addr.length = GShardIdInBytes + p.length * GLocalActorAddrLength := by
    rw [encoded.length, length_scopePath_bytes, List.length_reverse]
  constructor
  · intro inverted
    rw [← inverted.shard, scopeShard]
  · intro same
    subst same
    have total : scope.addr.length + GLocalActorAddrLength = a.length := by
      rw [shorter, length, List.length_cons, Nat.succ_mul, Nat.add_assoc]
    have used : a.data.take a.length = ScopePath.bytes ⟨a.getShardId, p.reverse⟩ ++ k.bytes := by
      rw [bytes_of_decode length few, layers, List.reverse_cons, ScopePath.bytes, ScopePath.bytes,
        layerBytes_append, List.append_assoc]
      simp [layerBytes]
    have rebuilt (junk : Junk) : (scope.buildRef junk k).getShardId = a.getShardId ∧
        (scope.buildRef junk k).layers = a.layers := by
      have decoded := @decode_of_bytes (scope.buildRef junk k) ⟨a.getShardId, a.layers⟩ ?_ ?_
      · exact decoded
      · show scope.addr.length + GLocalActorAddrLength = _
        rw [total, length, length_scopePath_bytes, layers, List.length_reverse]
      · rw [used_buildRef encoded, ← used, bytes_of_decode length few]
    refine ⟨total, ?_, scopeShard, ?_, fun junk => (rebuilt junk).1, fun junk => (rebuilt junk).2⟩
    · have front : a.data.take scope.addr.length = (a.data.take a.length).take
          scope.addr.length := by
        rw [List.take_take, Nat.min_eq_left (by omega)]
      rw [front, used, encoded.used]
      exact (List.take_left' encoded.length.symm).symm
    · rw [scopeLayers, layers]
      simp

/-! ## The objects that a message creates -/

namespace Shard

variable {s s' : Shard} {p q : Path}

theorem made_getActorLocal {keys : List ActorKey}
    (exists' : ((s.getActorLocal p keys).1.objs q).isSome = true) :
    (s.objs q).isSome = true ∨ (q ≠ [] ∧ q <:+ keys.reverse ++ p) := by
  induction keys generalizing s p with
  | nil => exact .inl exists'
  | cons k keys ih =>
    have onWay : (k :: keys).reverse ++ p = keys.reverse ++ (k :: p) := by simp
    rw [onWay]
    unfold getActorLocal at exists'
    split at exists'
    · exact .inl exists'
    · split at exists'
      · split at exists'
        · exact .inl exists'
        · exact ih exists'
        · rcases ih exists' with before | made
          · rw [← isSome_mailbox, mailbox_createChild] at before
            split at before
            · rename_i isChild
              exact .inr ⟨by simp [isChild], isChild ▸ List.suffix_append ..⟩
            · exact .inl (isSome_mailbox ▸ before)
          · exact .inr made
      · exact .inl exists'

theorem isSome_objs_of_tree (same : s'.tree = s.tree) :
    (s'.objs q).isSome = (s.objs q).isSome := by
  rw [← isSome_node, same, isSome_node]

theorem isSome_objs_stopActorSystem (force : Bool) (m : ActorMessage) :
    ((s.stopActorSystem force m).objs q).isSome = (s.objs q).isSome := by
  unfold stopActorSystem
  split
  · rfl
  · show ((s.update [] _).objs q).isSome = _
    rw [objs_update]
    split
    · rename_i root
      rw [root, Option.isSome_map]
    · rfl

/-- A message creates objects on the way to its address only. -/
theorem made_receive {addr : List ActorKey} {m : ActorMessage}
    (received : s.receive addr m = some s') (absent : s.objs q = none)
    (exists' : (s'.objs q).isSome = true) : q ≠ [] ∧ q <:+ addr.reverse := by
  have notBefore : ¬ (s.objs q).isSome = true := by simp [absent]
  have found {k : ActorKey} {keys : List ActorKey} {t : Shard} {looked : Option Path}
      (lookup : s.getActorLocal [k] keys = (t, looked)) (here : (t.objs q).isSome = true) :
      q ≠ [] ∧ q <:+ (k :: keys).reverse := by
    have walked : ((s.getActorLocal [k] keys).1.objs q).isSome = true := by
      rw [lookup]
      exact here
    simpa using (made_getActorLocal walked).resolve_left notBefore
  cases receives received with
  | reply type => exact absurd exists' notBefore
  | stopSystem force asked =>
    rw [isSome_objs_stopActorSystem] at exists'
    exact absurd exists' notBefore
  | stopped k keys entry =>
    rw [isSome_objs_of_tree (tree_stoppedActorEnqueue s _ m)] at exists'
    exact absurd exists' notBefore
  | found k keys t p entry lookup =>
    rw [isSome_objs_of_tree (tree_enque t p m)] at exists'
    exact found lookup exists'
  | lost k keys t entry lookup =>
    rw [isSome_objs_of_tree (tree_stoppedActorEnqueue t _ m)] at exists'
    exact found lookup exists'
  | closed k keys unknown stopping =>
    rw [isSome_objs_of_tree (tree_stoppedActorEnqueue s _ m)] at exists'
    exact absurd exists' notBefore
  | created k keys t p unknown running lookup =>
    rw [isSome_objs_of_tree (tree_enque t p m)] at exists'
    have here : (((s.createChild [] k).getActorLocal [k] keys).1.objs q).isSome = true := by
      rw [lookup]
      exact exists'
    rcases made_getActorLocal here with before | made
    · rw [← isSome_mailbox, mailbox_createChild] at before
      split at before
      · rename_i isChild
        subst isChild
        exact ⟨by simp, by simp⟩
      · exact absurd (isSome_mailbox ▸ before) notBefore
    · simpa using made

end Shard

/-- The scope of an actor that a message created leads back to it exactly on a machine whose
shard ids start at zero. The actor that the message is for has the whole address; a group that was
created on the way has the part of it up to its own layer. -/
theorem getScope_inverts_iff (options : NetworkOptions) (localShardCount localShardId : UInt32)
    (info : MachineInfo) (config : NetworkConfig)
    (_started : startNetwork options localShardCount = .ok (info, config))
    (s s' : Shard) (a : Address) (depth : Nat)
    (length : a.length = GShardIdInBytes + depth * GLocalActorAddrLength)
    (few : depth ≤ GMaxAddrLayer) (routed : a.getShardId = info.globalShardId localShardId)
    (m : ActorMessage) (received : s.receive a.layers m = some s') (p : Path)
    (absent : s.objs p = none) (created : (s'.objs p).isSome = true) (junk : Junk) :
    (∃ scope, getScope junk localShardId p = some scope ∧
      scope.Inverts (a.cut (actorBase p).totalAddrLength.toNat) (actorBase p).key) ↔
      info.sidAnchor = 0 := by
  obtain ⟨nonroot, onWay⟩ := Shard.made_receive received absent created
  have decoded : a.layers.length = depth := by
    rw [Address.layers, length, Nat.add_sub_cancel_left, Nat.mul_div_cancel _ (by decide)]
    simp
  have below : p.length ≤ depth := by
    rw [← decoded, ← @List.length_reverse _ a.layers]
    exact onWay.length_le
  have prefix' : a.layers.take p.length = p.reverse := by
    have start : p.reverse <+: a.layers := by
      rw [← List.reverse_suffix, List.reverse_reverse]
      exact onWay
    have taken := List.prefix_iff_eq_take.mp start
    rw [List.length_reverse] at taken
    exact taken.symm
  cases p with
  | nil => exact absurd rfl nonroot
  | cons k p =>
    have shallow : (k :: p).length ≤ GMaxAddrLayer := below.trans few
    rw [totalAddrLength_actorBase shallow, key_actorBase]
    have layers := (layers_cut length below).trans prefix'
    have same : info.sidAnchor = 0 ↔ localShardId = a.getShardId := by
      rw [routed, MachineInfo.globalShardId]
      exact UInt32.right_eq_add.symm
    rw [same]
    obtain ⟨scope, got, encoded⟩ := getScope_represents junk localShardId shallow
    have iff := inverts_iff encoded shallow rfl layers
    constructor
    · rintro ⟨other, got', inverted⟩
      rw [got] at got'
      obtain rfl := Option.some.inj got'
      exact iff.mp inverted
    · intro equal
      exact ⟨scope, got, iff.mpr equal⟩

/-- The second shard of the first of two machines, and an actor in a group. -/
theorem getScope_inverts_firstMachine : ∃ scope,
    getScope Junk.zero 1 [⟨5, 9⟩, ⟨0xF000, 7⟩] = some scope ∧
      scope.Inverts ((ScopeBuilder.foreachInitScope [⟨0xF000, 7⟩] (.new Junk.zero 1)
        (by decide)).buildRef Junk.zero ⟨5, 9⟩) ⟨5, 9⟩ :=
  (getScope_inverts_iff
    ⟨some [⟨0, 2, ⟨0x0A000001, 3000⟩⟩, ⟨1, 3, ⟨0x0A000002, 3000⟩⟩], some 0, 1, 60⟩ 2 1 _ _ rfl
    (.init fun _ => 1) _
    ((ScopeBuilder.foreachInitScope [⟨0xF000, 7⟩] (.new Junk.zero 1) (by decide)).buildRef
      Junk.zero ⟨5, 9⟩)
    2 rfl (by decide) (by decide) ⟨1, .user, 0, 0⟩ rfl [⟨5, 9⟩, ⟨0xF000, 7⟩] rfl rfl
    Junk.zero).mpr rfl

/-- On the second machine the scope of the actor of shard 2 is one of shard 0. -/
theorem not_inverts_secondMachine :
    ¬ ∀ (options : NetworkOptions) (localShardCount localShardId : UInt32) (info : MachineInfo)
      (config : NetworkConfig), startNetwork options localShardCount = .ok (info, config) →
      ∀ (s s' : Shard) (a : Address) (depth : Nat),
      a.length = GShardIdInBytes + depth * GLocalActorAddrLength → depth ≤ GMaxAddrLayer →
      a.getShardId = info.globalShardId localShardId →
      ∀ (m : ActorMessage), s.receive a.layers m = some s' →
      ∀ (p : Path), s.objs p = none → (s'.objs p).isSome = true → ∀ (junk : Junk),
      ∃ scope, getScope junk localShardId p = some scope ∧
        scope.Inverts (a.cut (actorBase p).totalAddrLength.toNat) (actorBase p).key := by
  intro always
  obtain ⟨scope, got, inverted⟩ := always
    ⟨some [⟨0, 2, ⟨0x0A000001, 3000⟩⟩, ⟨1, 3, ⟨0x0A000002, 3000⟩⟩], some 1, 1, 60⟩ 3 0 _ _ rfl
    (.init fun _ => 1) _ ((ScopeBuilder.new Junk.zero 2).buildRef Junk.zero ⟨5, 9⟩) 1 rfl
    (by decide) (by decide) ⟨1, .user, 0, 0⟩ rfl [⟨5, 9⟩] rfl rfl Junk.zero
  have shard := inverted.shard
  have zero : scope.addr.getShardId = 0 := by
    obtain rfl := Option.some.inj got
    decide
  rw [zero] at shard
  revert shard
  decide

end Hiactor
