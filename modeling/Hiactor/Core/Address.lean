import Hiactor.Lib.Run
import Hiactor.Lib.Bytes

/-!
# Actor addresses

Model of `address` (`include/hiactor/core/actor_message.hh`) and of `scope_builder` and
`reference_base` (`include/hiactor/core/reference_base.hh`). An address is one array of
`GMaxAddrLength` bytes: the shard id, then one key of type and id for each layer up to
`length`; the last two bytes of the array hold the type id of the class that a method
belongs to, whatever the length is.

The array of a fresh address is not initialised, so its contents are a parameter. An
`assert` that fails stops the program: the operation has no result.
-/

namespace Hiactor

open Lib

def GActorTypeInBytes : Nat := 2
def GShardIdInBytes : Nat := 4
def GActorIdInBytes : Nat := 4
def GMaxAddrLayer : Nat := 8
def GLocalActorAddrLength : Nat := GActorTypeInBytes + GActorIdInBytes
def GMaxAddrLength : Nat := GShardIdInBytes + GMaxAddrLayer * GLocalActorAddrLength

/-- One layer of an address: a type id and an id, for a scope as for an actor. -/
structure ActorKey where
  type : UInt16
  id : UInt32
  deriving DecidableEq, Repr

/-- The six bytes of a layer. -/
def ActorKey.bytes (key : ActorKey) : List UInt8 :=
  leBytes GActorTypeInBytes key.type.toNat ++ leBytes GActorIdInBytes key.id.toNat

@[simp] theorem ActorKey.length_bytes (key : ActorKey) :
    key.bytes.length = GLocalActorAddrLength := by
  simp [ActorKey.bytes, GLocalActorAddrLength]

/-- `address`. -/
structure Address where
  length : Nat
  data : List UInt8
  size_eq : data.length = GMaxAddrLength

namespace Address

/-- `memcpy` into the array, within its bounds. -/
def write (a : Address) (offset : Nat) (src : List UInt8)
    (inside : offset + src.length ≤ GMaxAddrLength) : Address where
  length := a.length
  data := overwrite a.data offset src
  size_eq := by rw [length_overwrite (by rw [a.size_eq]; exact inside), a.size_eq]

/-- `get_shard_id`. -/
def getShardId (a : Address) : UInt32 := UInt32.ofNat (leNat (slice a.data 0 GShardIdInBytes))

/-- The type and the id of the layer at `offset`, as `receive`, `get_actor_local` and the
actor itself read them. -/
def keyAt (a : Address) (offset : Nat) : ActorKey where
  type := UInt16.ofNat (leNat (slice a.data offset GActorTypeInBytes))
  id := UInt32.ofNat (leNat (slice a.data (offset + GActorTypeInBytes) GActorIdInBytes))

/-- The layers that are visited from the root to the addressed actor: one for each step of
`GLocalActorAddrLength` until `length` is reached. -/
def layers (a : Address) : List ActorKey :=
  (List.range ((a.length - GShardIdInBytes) / GLocalActorAddrLength)).map
    (fun i => a.keyAt (GShardIdInBytes + i * GLocalActorAddrLength))

/-- `set_method_actor_tid`. -/
def setMethodActorTid (a : Address) (tid : UInt16) : Address :=
  a.write (GMaxAddrLength - GActorTypeInBytes) (leBytes GActorTypeInBytes tid.toNat)
    (by simp [GMaxAddrLength, GActorTypeInBytes, GShardIdInBytes, GMaxAddrLayer,
      GLocalActorAddrLength, GActorIdInBytes])

/-- `get_method_actor_tid`. -/
def getMethodActorTid (a : Address) : UInt16 :=
  UInt16.ofNat (leNat (slice a.data (GMaxAddrLength - GActorTypeInBytes) GActorTypeInBytes))

end Address

/-- An uninitialised array. -/
structure Junk where
  data : List UInt8
  size_eq : data.length = GMaxAddrLength

def Junk.zero : Junk := ⟨List.replicate GMaxAddrLength 0, by simp⟩

/-- `scope_builder`: its address ends between two layers and leaves room for an actor. -/
structure ScopeBuilder where
  addr : Address
  aligned : ∃ depth, addr.length = GShardIdInBytes + depth * GLocalActorAddrLength
  room : addr.length + GLocalActorAddrLength ≤ GMaxAddrLength

namespace ScopeBuilder

/-- `set_shard`. -/
def setShard (b : ScopeBuilder) (shard : UInt32) : ScopeBuilder where
  addr := b.addr.write 0 (leBytes GShardIdInBytes shard.toNat)
    (by simp [GMaxAddrLength, GShardIdInBytes])
  aligned := b.aligned
  room := b.room

/-- `scope_builder(shard_id)`. -/
def new (junk : Junk) (shard : UInt32) : ScopeBuilder :=
  setShard
    { addr := ⟨GShardIdInBytes, junk.data, junk.size_eq⟩
      aligned := ⟨0, by simp⟩
      room := by
        show GShardIdInBytes + GLocalActorAddrLength ≤ GMaxAddrLength
        decide }
    shard

/-- The two `memcpy`s and the new length that `enter_sub_scope` and `foreach_init_scope`
share. -/
def pushScope (b : ScopeBuilder) (scope : ActorKey)
    (room : b.addr.length + GLocalActorAddrLength + GLocalActorAddrLength ≤ GMaxAddrLength) :
    ScopeBuilder where
  addr := { b.addr.write b.addr.length scope.bytes (by simpa using b.room) with
    length := b.addr.length + GLocalActorAddrLength }
  aligned := by
    obtain ⟨depth, length⟩ := b.aligned
    exact ⟨depth + 1, by simp only [length]; ring⟩
  room := room

/-- `foreach_init_scope`. -/
def foreachInitScope : (scopes : List ActorKey) → (b : ScopeBuilder) →
    b.addr.length + scopes.length * GLocalActorAddrLength + GLocalActorAddrLength ≤
      GMaxAddrLength → ScopeBuilder
  | [], b, _ => b
  | scope :: scopes, b, fits =>
      foreachInitScope scopes
        (b.pushScope scope (by
          rw [List.length_cons, Nat.succ_mul] at fits
          omega))
        (by
          rw [List.length_cons, Nat.succ_mul] at fits
          show b.addr.length + GLocalActorAddrLength + _ + _ ≤ _
          omega)

/-- `scope_builder(shard_id, scopes...)`. -/
def ofScopes (junk : Junk) (shard : UInt32) (scopes : List ActorKey) : Option ScopeBuilder :=
  if few : scopes.length < GMaxAddrLayer then
    some (foreachInitScope scopes (new junk shard) (by
      show GShardIdInBytes + _ + _ ≤ _
      simp only [GMaxAddrLayer, GMaxAddrLength, GShardIdInBytes, GLocalActorAddrLength,
        GActorTypeInBytes, GActorIdInBytes] at few ⊢
      omega))
  else
    none

/-- `enter_sub_scope`. -/
def enterSubScope (b : ScopeBuilder) (scope : ActorKey) : Option ScopeBuilder :=
  if admitted : b.addr.length + GLocalActorAddrLength < GMaxAddrLength then
    some (b.pushScope scope (by
      obtain ⟨depth, length⟩ := b.aligned
      simp only [GMaxAddrLayer, GMaxAddrLength, GShardIdInBytes, GLocalActorAddrLength,
        GActorTypeInBytes, GActorIdInBytes] at length admitted ⊢
      omega))
  else
    none

/-- `back_to_parent_scope`. -/
def backToParentScope (b : ScopeBuilder) : Option ScopeBuilder :=
  if admitted : GShardIdInBytes + GLocalActorAddrLength ≤ b.addr.length then
    some
      { addr := { b.addr with length := b.addr.length - GLocalActorAddrLength }
        aligned := by
          obtain ⟨depth, length⟩ := b.aligned
          refine ⟨depth - 1, ?_⟩
          simp only [GShardIdInBytes, GLocalActorAddrLength, GActorTypeInBytes,
            GActorIdInBytes] at length admitted ⊢
          omega
        room := by
          have room := b.room
          show b.addr.length - GLocalActorAddrLength + _ ≤ _
          omega }
  else
    none

/-- `build_ref`, with `make_address`: the path of the builder and the layer of the actor, in
the uninitialised array of the new reference. -/
def buildRef (b : ScopeBuilder) (junk : Junk) (actor : ActorKey) : Address :=
  { (Address.write ⟨b.addr.length, junk.data, junk.size_eq⟩ 0 (b.addr.data.take b.addr.length)
        (by
          have room := b.room
          rw [List.length_take, b.addr.size_eq]
          omega)).write b.addr.length actor.bytes (by simpa using b.room) with
    length := b.addr.length + GLocalActorAddrLength }

end ScopeBuilder

/-- The operations on a `scope_builder` after its construction. -/
inductive ScopeOp where
  | enterSubScope (scope : ActorKey)
  | backToParentScope
  | setShard (shard : UInt32)
  deriving DecidableEq, Repr

def ScopeBuilder.apply (b : ScopeBuilder) : ScopeOp → Option ScopeBuilder
  | .enterSubScope scope => b.enterSubScope scope
  | .backToParentScope => b.backToParentScope
  | .setShard shard => some (b.setShard shard)

/-! ## The path that was asked for -/

/-- A shard and the stack of scopes entered there, outermost first. -/
structure ScopePath where
  shard : UInt32
  scopes : List ActorKey
  deriving DecidableEq, Repr

def ScopePath.apply (path : ScopePath) : ScopeOp → ScopePath
  | .enterSubScope scope => { path with scopes := path.scopes ++ [scope] }
  | .backToParentScope => { path with scopes := path.scopes.dropLast }
  | .setShard shard => { path with shard := shard }

/-- The address decodes to the shard, the scopes and the actor that were asked for, and the
type id written for the method is read back. -/
structure Address.Faithful (a : Address) (path : ScopePath) (actor : ActorKey)
    (tid : UInt16) : Prop where
  shard : a.getShardId = path.shard
  layers : a.layers = path.scopes ++ [actor]
  methodActorTid : a.getMethodActorTid = tid

end Hiactor
