import Hiactor.Core.Address

/-!
# Which addresses are faithful

The used part of the array of a `scope_builder` is always the encoding of the path that was
asked for. `set_method_actor_tid` writes the last two bytes of the array, and these belong to
the actor id exactly when seven scopes precede the actor: the assertions admit seven, one more
than the format comment of `address` has groups.
-/

namespace Hiactor

open Lib

/-- The numeric constants, for arithmetic. -/
theorem GLocalActorAddrLength_eq : GLocalActorAddrLength = 6 := rfl
theorem GShardIdInBytes_eq : GShardIdInBytes = 4 := rfl
theorem GMaxAddrLength_eq : GMaxAddrLength = 52 := rfl

/-! ## Encoding a path -/

/-- The bytes of a sequence of layers. -/
def layerBytes (keys : List ActorKey) : List UInt8 := keys.flatMap ActorKey.bytes

/-- The used bytes of the address of a path. -/
def ScopePath.bytes (path : ScopePath) : List UInt8 :=
  leBytes GShardIdInBytes path.shard.toNat ++ layerBytes path.scopes

@[simp] theorem length_layerBytes (keys : List ActorKey) :
    (layerBytes keys).length = keys.length * GLocalActorAddrLength := by
  induction keys with
  | nil => simp [layerBytes]
  | cons key keys ih =>
    simp only [layerBytes, List.flatMap_cons, List.length_append, ActorKey.length_bytes,
      List.length_cons] at ih ⊢
    rw [ih, Nat.succ_mul, Nat.add_comm]

theorem layerBytes_append (keys more : List ActorKey) :
    layerBytes (keys ++ more) = layerBytes keys ++ layerBytes more := by
  simp [layerBytes]

@[simp] theorem length_scopePath_bytes (path : ScopePath) :
    path.bytes.length = GShardIdInBytes + path.scopes.length * GLocalActorAddrLength := by
  simp [ScopePath.bytes]

theorem slice_layerBytes {start keys : List ActorKey} {key : ActorKey} (shard : List UInt8) :
    slice (shard ++ layerBytes (start ++ key :: keys))
      (shard.length + start.length * GLocalActorAddrLength) GLocalActorAddrLength =
        key.bytes := by
  have split : shard ++ layerBytes (start ++ key :: keys) =
      (shard ++ layerBytes start) ++ key.bytes ++ layerBytes keys := by
    simp [layerBytes]
  have middle := slice_append (shard ++ layerBytes start) key.bytes (layerBytes keys)
  rw [split]
  simpa using middle

/-- The two loads of a layer give back its type and its id. -/
theorem keyAt_of_slice {a : Address} {offset : Nat} {key : ActorKey}
    (stored : slice a.data offset GLocalActorAddrLength = key.bytes) :
    a.keyAt offset = key := by
  have parts : slice a.data offset GActorTypeInBytes ++
      slice a.data (offset + GActorTypeInBytes) GActorIdInBytes =
        leBytes GActorTypeInBytes key.type.toNat ++ leBytes GActorIdInBytes key.id.toNat := by
    rw [← slice_add]
    exact stored
  have lengths : (slice a.data offset GActorTypeInBytes).length = GActorTypeInBytes := by
    have total := congrArg List.length stored
    simp only [slice, List.length_take, List.length_drop, ActorKey.length_bytes] at total ⊢
    simp only [GLocalActorAddrLength, GActorTypeInBytes, GActorIdInBytes] at total ⊢
    omega
  obtain ⟨type, id⟩ := List.append_inj parts (by simp [lengths])
  simp only [Address.keyAt, type, id, leNat_leBytes]
  have typeBound := key.type.toNat_lt
  have idBound := key.id.toNat_lt
  rw [Nat.mod_eq_of_lt (by simpa [GActorTypeInBytes] using typeBound),
    Nat.mod_eq_of_lt (by simpa [GActorIdInBytes] using idBound)]
  simp

/-- An address whose used bytes encode a shard and layers is decoded to them. -/
theorem decode_of_bytes {a : Address} {path : ScopePath}
    (length : a.length = path.bytes.length) (used : a.data.take a.length = path.bytes) :
    a.getShardId = path.shard ∧ a.layers = path.scopes := by
  constructor
  · have stored : slice a.data 0 GShardIdInBytes = leBytes GShardIdInBytes path.shard.toNat := by
      have inside : 0 + GShardIdInBytes ≤ a.length := by
        rw [length, length_scopePath_bytes]
        omega
      rw [← slice_take inside, used]
      have start := slice_append [] (leBytes GShardIdInBytes path.shard.toNat)
        (layerBytes path.scopes)
      simpa [ScopePath.bytes] using start
    have bound := path.shard.toNat_lt
    rw [Address.getShardId, stored, leNat_leBytes,
      Nat.mod_eq_of_lt (by simpa [GShardIdInBytes] using bound)]
    simp
  · have count : (a.length - GShardIdInBytes) / GLocalActorAddrLength = path.scopes.length := by
      rw [length, length_scopePath_bytes, Nat.add_sub_cancel_left]
      exact Nat.mul_div_cancel _ (by decide)
    rw [Address.layers, count]
    apply List.ext_getElem
    · simp
    · intro i below below'
      simp only [List.getElem_map, List.getElem_range]
      apply keyAt_of_slice
      have inside : GShardIdInBytes + i * GLocalActorAddrLength + GLocalActorAddrLength ≤
          a.length := by
        rw [length, length_scopePath_bytes]
        have := Nat.mul_le_mul_right GLocalActorAddrLength (Nat.succ_le_of_lt below')
        rw [Nat.succ_mul] at this
        omega
      have split : path.scopes = path.scopes.take i ++ path.scopes[i] ::
          path.scopes.drop (i + 1) := by
        rw [List.getElem_cons_drop, List.take_append_drop]
      have layer := @slice_layerBytes (path.scopes.take i) (path.scopes.drop (i + 1))
        path.scopes[i] (leBytes GShardIdInBytes path.shard.toNat)
      rw [← slice_take inside, used, ScopePath.bytes]
      rw [← split, length_leBytes, List.length_take, Nat.min_eq_left (by omega)] at layer
      exact layer

/-! ## The builder -/

/-- The used part of the builder's array is the encoding of `path`. -/
structure ScopeBuilder.Represents (b : ScopeBuilder) (path : ScopePath) : Prop where
  length : b.addr.length = path.bytes.length
  used : b.addr.data.take b.addr.length = path.bytes

theorem ScopeBuilder.Represents.few {b : ScopeBuilder} {path : ScopePath}
    (encoded : b.Represents path) : path.scopes.length ≤ 7 := by
  have room := b.room
  rw [encoded.length, length_scopePath_bytes, GLocalActorAddrLength_eq, GShardIdInBytes_eq,
    GMaxAddrLength_eq] at room
  omega

theorem represents_setShard {b : ScopeBuilder} {path : ScopePath} (encoded : b.Represents path)
    (shard : UInt32) : (b.setShard shard).Represents { path with shard := shard } where
  length := by
    show b.addr.length = _
    rw [encoded.length, length_scopePath_bytes, length_scopePath_bytes]
  used := by
    show (overwrite b.addr.data 0 (leBytes GShardIdInBytes shard.toNat)).take b.addr.length = _
    have enough : GShardIdInBytes ≤ b.addr.length := by
      rw [encoded.length, length_scopePath_bytes]
      omega
    have layers : (b.addr.data.drop GShardIdInBytes).take (b.addr.length - GShardIdInBytes) =
        layerBytes path.scopes := by
      rw [← List.drop_take, encoded.used, ScopePath.bytes, List.drop_left' (by simp)]
    rw [overwrite, List.take_zero, List.nil_append, List.take_append, length_leBytes,
      List.take_of_length_le (by simpa using enough), Nat.zero_add, layers]
    rfl

theorem represents_pushScope {b : ScopeBuilder} {path : ScopePath}
    (encoded : b.Represents path) (scope : ActorKey)
    (room : b.addr.length + GLocalActorAddrLength + GLocalActorAddrLength ≤ GMaxAddrLength) :
    (b.pushScope scope room).Represents { path with scopes := path.scopes ++ [scope] } where
  length := by
    show b.addr.length + GLocalActorAddrLength = _
    rw [encoded.length, length_scopePath_bytes, length_scopePath_bytes, List.length_append,
      List.length_singleton, Nat.add_mul, Nat.one_mul, Nat.add_assoc]
  used := by
    show (overwrite b.addr.data b.addr.length scope.bytes).take
      (b.addr.length + GLocalActorAddrLength) = _
    have inside : b.addr.length + scope.bytes.length ≤ b.addr.data.length := by
      rw [b.addr.size_eq, ActorKey.length_bytes]
      exact b.room
    have written := take_overwrite_end inside
    rw [ActorKey.length_bytes] at written
    rw [written, encoded.used, ScopePath.bytes, ScopePath.bytes, layerBytes_append,
      List.append_assoc]
    simp [layerBytes]

theorem represents_new (junk : Junk) (shard : UInt32) :
    (ScopeBuilder.new junk shard).Represents ⟨shard, []⟩ where
  length := by simp [ScopeBuilder.new, ScopeBuilder.setShard, Address.write]
  used := by
    show (overwrite junk.data 0 (leBytes GShardIdInBytes shard.toNat)).take GShardIdInBytes = _
    have inside : 0 + (leBytes GShardIdInBytes shard.toNat).length ≤ junk.data.length := by
      rw [junk.size_eq, length_leBytes]
      decide
    have written := take_overwrite_end inside
    rw [length_leBytes, Nat.zero_add] at written
    rw [written]
    simp [ScopePath.bytes, layerBytes]

theorem represents_foreachInitScope (scopes : List ActorKey) :
    ∀ (b : ScopeBuilder) (path : ScopePath) (fits : _), b.Represents path →
      (ScopeBuilder.foreachInitScope scopes b fits).Represents
        { path with scopes := path.scopes ++ scopes } := by
  induction scopes with
  | nil =>
    intro b path fits encoded
    simpa [ScopeBuilder.foreachInitScope] using encoded
  | cons scope scopes ih =>
    intro b path fits encoded
    rw [List.length_cons, Nat.succ_mul] at fits
    have room : b.addr.length + GLocalActorAddrLength + GLocalActorAddrLength ≤
        GMaxAddrLength := by omega
    have rest : (b.pushScope scope room).addr.length + scopes.length * GLocalActorAddrLength +
        GLocalActorAddrLength ≤ GMaxAddrLength := by
      show b.addr.length + GLocalActorAddrLength + _ + _ ≤ _
      omega
    have pushed := ih _ _ rest (represents_pushScope encoded scope room)
    simpa [ScopeBuilder.foreachInitScope] using pushed

theorem represents_ofScopes {junk : Junk} {shard : UInt32} {scopes : List ActorKey}
    {b : ScopeBuilder} (built : ScopeBuilder.ofScopes junk shard scopes = some b) :
    b.Represents ⟨shard, scopes⟩ := by
  unfold ScopeBuilder.ofScopes at built
  split at built
  · rw [← Option.some.inj built]
    simpa using represents_foreachInitScope scopes _ _ _ (represents_new junk shard)
  · cases built

theorem represents_backToParentScope {b b' : ScopeBuilder} {path : ScopePath}
    (encoded : b.Represents path) (taken : b.backToParentScope = some b') :
    b'.Represents { path with scopes := path.scopes.dropLast } := by
  unfold ScopeBuilder.backToParentScope at taken
  split at taken
  · rename_i admitted
    rw [← Option.some.inj taken]
    have nonempty : path.scopes ≠ [] := by
      rintro empty
      rw [encoded.length, length_scopePath_bytes, empty] at admitted
      revert admitted
      decide
    have split : path.bytes =
        ScopePath.bytes { path with scopes := path.scopes.dropLast } ++
          (path.scopes.getLast nonempty).bytes := by
      have last : layerBytes path.scopes = layerBytes path.scopes.dropLast ++
          (path.scopes.getLast nonempty).bytes := by
        conv_lhs => rw [← List.dropLast_append_getLast nonempty]
        rw [layerBytes_append]
        simp [layerBytes]
      rw [ScopePath.bytes, ScopePath.bytes, last, List.append_assoc]
    have length : b.addr.length - GLocalActorAddrLength =
        (ScopePath.bytes { path with scopes := path.scopes.dropLast }).length := by
      rw [encoded.length, split, List.length_append, ActorKey.length_bytes, Nat.add_sub_cancel]
    refine ⟨length, ?_⟩
    show b.addr.data.take (b.addr.length - GLocalActorAddrLength) = _
    have shorter : b.addr.length - GLocalActorAddrLength ≤ b.addr.length := Nat.sub_le _ _
    rw [← Nat.min_eq_left shorter, ← List.take_take, encoded.used, length, split, List.take_left]
  · cases taken

theorem represents_apply {b b' : ScopeBuilder} {path : ScopePath} {op : ScopeOp}
    (encoded : b.Represents path) (taken : b.apply op = some b') :
    b'.Represents (path.apply op) := by
  cases op with
  | enterSubScope scope =>
    simp only [ScopeBuilder.apply, ScopeBuilder.enterSubScope] at taken
    split at taken
    · rw [← Option.some.inj taken]
      exact represents_pushScope encoded scope _
    · cases taken
  | backToParentScope => exact represents_backToParentScope encoded taken
  | setShard shard =>
    rw [← Option.some.inj taken]
    exact represents_setShard encoded shard

/-- Whatever the assertions admit, the builder holds the path that was asked for. -/
theorem represents_run (ops : List ScopeOp) :
    ∀ (b b' : ScopeBuilder) (path : ScopePath), b.Represents path →
      run ScopeBuilder.apply b ops = some b' →
      b'.Represents (ops.foldl ScopePath.apply path) := by
  induction ops with
  | nil =>
    intro b b' path encoded ran
    exact Option.some.inj ran ▸ encoded
  | cons op ops ih =>
    intro b b' path encoded ran
    obtain ⟨next, taken, rest⟩ := run_cons_eq_some.mp ran
    exact ih next b' _ (represents_apply encoded taken) rest

/-! ## References -/

/-- The used part of the address of a reference. -/
theorem used_buildRef {b : ScopeBuilder} {path : ScopePath} (encoded : b.Represents path)
    (junk : Junk) (actor : ActorKey) :
    (b.buildRef junk actor).data.take (b.buildRef junk actor).length =
      path.bytes ++ actor.bytes := by
  have room := b.room
  have copied : (overwrite junk.data 0 (b.addr.data.take b.addr.length)).take b.addr.length =
      path.bytes := by
    have length : (b.addr.data.take b.addr.length).length = b.addr.length := by
      rw [List.length_take, b.addr.size_eq]
      omega
    have inside : 0 + (b.addr.data.take b.addr.length).length ≤ junk.data.length := by
      rw [length, junk.size_eq]
      omega
    have written := take_overwrite_end inside
    rw [length, Nat.zero_add] at written
    rw [written, encoded.used]
    simp
  show (overwrite (overwrite junk.data 0 (b.addr.data.take b.addr.length)) b.addr.length
    actor.bytes).take (b.addr.length + GLocalActorAddrLength) = _
  have inside : b.addr.length + actor.bytes.length ≤
      (overwrite junk.data 0 (b.addr.data.take b.addr.length)).length := by
    rw [length_overwrite, ActorKey.length_bytes, junk.size_eq]
    · exact room
    · rw [List.length_take, b.addr.size_eq, junk.size_eq]
      omega
  have written := take_overwrite_end inside
  rw [ActorKey.length_bytes] at written
  rw [written, copied]

/-- The actor that seven scopes and a method type id `tid` address: the upper half of its id
is `tid`. -/
def clobbered (actor : ActorKey) (tid : UInt16) : ActorKey :=
  { actor with id := UInt32.ofNat (actor.id.toNat % 65536 + 65536 * tid.toNat) }

theorem clobbered_bytes (actor : ActorKey) (tid : UInt16) :
    (clobbered actor tid).bytes =
      leBytes 2 actor.type.toNat ++ leBytes 2 actor.id.toNat ++ leBytes 2 tid.toNat := by
  have tidBound := tid.toNat_lt
  have id : (clobbered actor tid).id.toNat = actor.id.toNat % 65536 + 65536 * tid.toNat := by
    simp only [clobbered, UInt32.toNat_ofNat']
    omega
  have low : leBytes 2 (actor.id.toNat % 65536 + 65536 * tid.toNat) =
      leBytes 2 actor.id.toNat := by
    rw [← leBytes_mod 2, ← leBytes_mod 2 actor.id.toNat]
    congr 1
    omega
  have high : (actor.id.toNat % 65536 + 65536 * tid.toNat) / 256 ^ 2 = tid.toNat := by omega
  rw [ActorKey.bytes, id, GActorIdInBytes, GActorTypeInBytes, leBytes_add 2 2, low, high,
    List.append_assoc]
  rfl

theorem clobbered_eq_iff (actor : ActorKey) (tid : UInt16) :
    clobbered actor tid = actor ↔ tid.toNat = actor.id.toNat / 65536 := by
  have tidBound := tid.toNat_lt
  have idBound := actor.id.toNat_lt
  constructor
  · intro same
    have id := congrArg (fun key => key.id.toNat) same
    simp only [clobbered, UInt32.toNat_ofNat'] at id
    omega
  · intro upper
    have id : actor.id.toNat % 65536 + 65536 * tid.toNat = actor.id.toNat := by omega
    simp [clobbered, id]

/-- The method type id is always read back. -/
theorem getMethodActorTid_setMethodActorTid (a : Address) (tid : UInt16) :
    (a.setMethodActorTid tid).getMethodActorTid = tid := by
  have inside : GMaxAddrLength - GActorTypeInBytes + (leBytes GActorTypeInBytes tid.toNat).length
      ≤ a.data.length := by
    rw [a.size_eq, length_leBytes]
    decide
  have stored := slice_overwrite_self inside
  have bound := tid.toNat_lt
  rw [length_leBytes] at stored
  simp only [Address.getMethodActorTid, Address.setMethodActorTid, Address.write, stored,
    leNat_leBytes]
  rw [Nat.mod_eq_of_lt (by simpa [GActorTypeInBytes] using bound)]
  simp

/-- Up to six scopes, the method type id is outside the used bytes. -/
theorem layers_of_six {b : ScopeBuilder} {path : ScopePath} (encoded : b.Represents path)
    (junk : Junk) (actor : ActorKey) (tid : UInt16) (few : path.scopes.length ≤ 6) :
    ((b.buildRef junk actor).setMethodActorTid tid).getShardId = path.shard ∧
    ((b.buildRef junk actor).setMethodActorTid tid).layers = path.scopes ++ [actor] := by
  have used := used_buildRef encoded junk actor
  have length : (b.buildRef junk actor).length = path.bytes.length + GLocalActorAddrLength := by
    show b.addr.length + _ = _
    rw [encoded.length]
  have joined : path.bytes ++ actor.bytes =
      ScopePath.bytes ⟨path.shard, path.scopes ++ [actor]⟩ := by
    rw [ScopePath.bytes, ScopePath.bytes, layerBytes_append, List.append_assoc]
    simp [layerBytes]
  apply @decode_of_bytes _ ⟨path.shard, path.scopes ++ [actor]⟩
  · show (b.buildRef junk actor).length = _
    rw [length, ← joined, List.length_append, ActorKey.length_bytes]
  · show (overwrite (b.buildRef junk actor).data _ _).take (b.buildRef junk actor).length = _
    rw [take_overwrite_before, used, joined]
    · rw [(b.buildRef junk actor).size_eq, length_leBytes]
      decide
    · rw [length, length_scopePath_bytes, GShardIdInBytes_eq, GLocalActorAddrLength_eq,
        GMaxAddrLength_eq, GActorTypeInBytes]
      omega

/-- With seven scopes it replaces the upper half of the actor id. -/
theorem layers_of_seven {b : ScopeBuilder} {path : ScopePath} (encoded : b.Represents path)
    (junk : Junk) (actor : ActorKey) (tid : UInt16) (seven : path.scopes.length = 7) :
    ((b.buildRef junk actor).setMethodActorTid tid).layers =
      path.scopes ++ [clobbered actor tid] := by
  have used := used_buildRef encoded junk actor
  have length : (b.buildRef junk actor).length = GMaxAddrLength := by
    show b.addr.length + _ = _
    rw [encoded.length, length_scopePath_bytes, seven]
    rfl
  have whole : (b.buildRef junk actor).data = path.bytes ++ actor.bytes := by
    rw [← used, length, ← (b.buildRef junk actor).size_eq, List.take_length]
  have front : (path.bytes ++ actor.bytes).take (GMaxAddrLength - GActorTypeInBytes) =
      path.bytes ++ (leBytes 2 actor.type.toNat ++ leBytes 2 actor.id.toNat) := by
    have split : path.bytes ++ actor.bytes =
        (path.bytes ++ (leBytes 2 actor.type.toNat ++ leBytes 2 actor.id.toNat)) ++
          leBytes 2 (actor.id.toNat / 256 ^ 2) := by
      rw [ActorKey.bytes, GActorIdInBytes, GActorTypeInBytes, leBytes_add 2 2]
      simp only [List.append_assoc]
    rw [split]
    apply List.take_left'
    rw [List.length_append, length_scopePath_bytes, seven]
    simp [GMaxAddrLength, GActorTypeInBytes, GShardIdInBytes, GMaxAddrLayer,
      GLocalActorAddrLength, GActorIdInBytes]
  have decoded := @decode_of_bytes ((b.buildRef junk actor).setMethodActorTid tid)
    ⟨path.shard, path.scopes ++ [clobbered actor tid]⟩ ?_ ?_
  · exact decoded.2
  · show (b.buildRef junk actor).length = _
    rw [length, length_scopePath_bytes, List.length_append, seven]
    rfl
  · show (overwrite (b.buildRef junk actor).data _ _).take (b.buildRef junk actor).length = _
    have inside : GMaxAddrLength - GActorTypeInBytes +
        (leBytes GActorTypeInBytes tid.toNat).length ≤ (b.buildRef junk actor).data.length := by
      rw [(b.buildRef junk actor).size_eq, length_leBytes]
      decide
    have written := take_overwrite_end inside
    rw [length_leBytes, show GMaxAddrLength - GActorTypeInBytes + GActorTypeInBytes =
      GMaxAddrLength from rfl] at written
    rw [length, written, whole, front, ScopePath.bytes, ScopePath.bytes, layerBytes_append]
    simp [layerBytes, clobbered_bytes, GActorTypeInBytes]

/-- An address is faithful exactly when at most six scopes precede the actor, or when the
method type id happens to be the upper half of the actor id. -/
theorem faithful_iff (junk refJunk : Junk) (shard : UInt32) (scopes : List ActorKey)
    (ops : List ScopeOp) (start b : ScopeBuilder)
    (built : ScopeBuilder.ofScopes junk shard scopes = some start)
    (ran : run ScopeBuilder.apply start ops = some b) (actor : ActorKey) (tid : UInt16) :
    ((b.buildRef refJunk actor).setMethodActorTid tid).Faithful
        (ops.foldl ScopePath.apply ⟨shard, scopes⟩) actor tid ↔
      (ops.foldl ScopePath.apply ⟨shard, scopes⟩).scopes.length ≤ 6 ∨
        tid.toNat = actor.id.toNat / 65536 := by
  have encoded := represents_run ops start b _ (represents_ofScopes built) ran
  generalize ops.foldl ScopePath.apply ⟨shard, scopes⟩ = path at encoded ⊢
  have method := getMethodActorTid_setMethodActorTid (b.buildRef refJunk actor) tid
  rcases Nat.lt_or_ge 6 path.scopes.length with deep | few
  · have seven : path.scopes.length = 7 := by
      have := encoded.few
      omega
    have layers := layers_of_seven encoded refJunk actor tid seven
    rw [or_iff_right (by omega), ← clobbered_eq_iff]
    constructor
    · intro faithful
      have same := layers.symm.trans faithful.layers
      exact List.singleton_inj.mp (List.append_cancel_left same)
    · intro same
      refine ⟨?_, by rw [layers, same], method⟩
      have untouched : ((b.buildRef refJunk actor).setMethodActorTid tid).getShardId =
          (b.buildRef refJunk actor).getShardId := by
        simp only [Address.getShardId, Address.setMethodActorTid, Address.write]
        rw [slice_overwrite_before]
        · rw [(b.buildRef refJunk actor).size_eq, length_leBytes]
          decide
        · decide
      rw [untouched]
      have used := used_buildRef encoded refJunk actor
      refine (@decode_of_bytes (b.buildRef refJunk actor)
        ⟨path.shard, path.scopes ++ [actor]⟩ ?_ ?_).1
      · show b.addr.length + _ = _
        rw [encoded.length, length_scopePath_bytes, length_scopePath_bytes, List.length_append,
          List.length_singleton, Nat.add_mul, Nat.one_mul, Nat.add_assoc]
      · rw [used, ScopePath.bytes, ScopePath.bytes, layerBytes_append, List.append_assoc]
        simp [layerBytes]
  · obtain ⟨shardId, layers⟩ := layers_of_six encoded refJunk actor tid few
    exact ⟨fun _ => .inl few, fun _ => ⟨shardId, layers, method⟩⟩

/-- Two scopes, one of them entered after the construction, and another shard. -/
theorem faithful_two_scopes : ∃ start b,
    ScopeBuilder.ofScopes Junk.zero 0 [⟨0xF000, 7⟩] = some start ∧
    run ScopeBuilder.apply start [.setShard 3, .enterSubScope ⟨0xF001, 70000⟩] = some b ∧
    ((b.buildRef Junk.zero ⟨5, 0xFFFFFFFF⟩).setMethodActorTid 2).Faithful
      ⟨3, [⟨0xF000, 7⟩, ⟨0xF001, 70000⟩]⟩ ⟨5, 0xFFFFFFFF⟩ 2 :=
  ⟨_, _, rfl, rfl, (faithful_iff Junk.zero Junk.zero 0 [⟨0xF000, 7⟩]
    [.setShard 3, .enterSubScope ⟨0xF001, 70000⟩] _ _ rfl rfl ⟨5, 0xFFFFFFFF⟩ 2).mpr
      (.inl (by decide))⟩

/-- Seven scopes are admitted, and the method type id `1` turns the actor id `5` into
`65541`. -/
theorem not_faithful_seven_scopes :
    ¬ ∀ (junk refJunk : Junk) (shard : UInt32) (scopes : List ActorKey) (ops : List ScopeOp)
      (start b : ScopeBuilder), ScopeBuilder.ofScopes junk shard scopes = some start →
      run ScopeBuilder.apply start ops = some b → ∀ (actor : ActorKey) (tid : UInt16),
      ((b.buildRef refJunk actor).setMethodActorTid tid).Faithful
        (ops.foldl ScopePath.apply ⟨shard, scopes⟩) actor tid := by
  intro always
  have layers := (always Junk.zero Junk.zero 0 (List.replicate 7 ⟨0xF000, 1⟩) [] _ _ rfl rfl
    ⟨2, 5⟩ 1).layers
  revert layers
  decide

end Hiactor
