import Hiactor.Core.Shard

/-!
# The scope of an actor

Model of the constructors of `actor_base` and of `actor_base::get_scope` (`core/actor_core`). An
actor object keeps the length of its address and the six bytes of its own layer; the layers above
are found through the execution context, which is the parent. Both are set by the constructor and
never change, so that they are functions of the place of the object in the tree.

The length is a `uint8_t`. `get_scope` copies into the array of a new `scope_builder`: a copy that
leaves the array has no result.
-/

namespace Hiactor

open Lib

/-- The fields of `actor_base` that the constructors set. The array of the root is not written. -/
structure ActorBase where
  totalAddrLength : UInt8
  address : List UInt8
  deriving DecidableEq, Repr

/-- The constructor of the root of a shard. -/
def ActorBase.root : ActorBase := ⟨UInt8.ofNat GShardIdInBytes, []⟩

/-- `actor_base(exec_ctx, addr)`. -/
def ActorBase.new (execCtx : ActorBase) (addr : List UInt8) : ActorBase where
  totalAddrLength := execCtx.totalAddrLength + UInt8.ofNat GLocalActorAddrLength
  address := addr.take GLocalActorAddrLength

/-- The object at a path: its parent passes it the bytes of the layer that it was created for. -/
def actorBase : Path → ActorBase
  | [] => .root
  | k :: p => .new (actorBase p) k.bytes

/-- `actor_type_id` and `actor_id`. -/
def ActorBase.key (b : ActorBase) : ActorKey where
  type := UInt16.ofNat (leNat (slice b.address 0 GActorTypeInBytes))
  id := UInt32.ofNat (leNat (slice b.address GActorTypeInBytes GActorIdInBytes))

/-- The loop of `get_scope`: the layers of the groups from the innermost one outwards. -/
def copyGroups (addr : Address) : Nat → Path → Option Address
  | 0, _ => some addr
  | _ + 1, [] => none
  | i + 1, k :: p =>
    let src := (actorBase (k :: p)).address
    if inside : GShardIdInBytes + i * GLocalActorAddrLength + src.length ≤ GMaxAddrLength then
      copyGroups (addr.write (GShardIdInBytes + i * GLocalActorAddrLength) src inside) i p
    else none

/-- `get_scope` of the object at a path. The root has none. -/
def getScope (junk : Junk) (localShardId : UInt32) : Path → Option ScopeBuilder
  | [] => none
  | k :: p =>
    let total := (actorBase (k :: p)).totalAddrLength.toNat
    let layerNum := (total - GShardIdInBytes - GLocalActorAddrLength) / GLocalActorAddrLength
    match copyGroups (ScopeBuilder.new junk localShardId).addr layerNum p with
    | none => none
    | some addr =>
      if fits : total = GShardIdInBytes + (layerNum + 1) * GLocalActorAddrLength ∧
          total ≤ GMaxAddrLength then
        some
          { addr := { addr with length := total - GLocalActorAddrLength }
            aligned := ⟨layerNum, by
              show total - GLocalActorAddrLength = _
              rw [fits.1, Nat.succ_mul]
              omega⟩
            room := by
              show total - GLocalActorAddrLength + GLocalActorAddrLength ≤ GMaxAddrLength
              rw [Nat.sub_add_cancel]
              · exact fits.2
              · rw [fits.1, Nat.succ_mul]
                omega }
      else none

/-! ## The address of an object -/

/-- The address without the layers after the first `length` bytes. -/
def Address.cut (a : Address) (length : Nat) : Address := { a with length := length }

/-- The scope is the address without its last layer, and leads back to the address. -/
structure ScopeBuilder.Inverts (scope : ScopeBuilder) (a : Address) (own : ActorKey) : Prop where
  length : scope.addr.length + GLocalActorAddrLength = a.length
  bytes : scope.addr.data.take scope.addr.length = a.data.take scope.addr.length
  shard : scope.addr.getShardId = a.getShardId
  groups : scope.addr.layers = a.layers.dropLast
  refShard : ∀ junk, (scope.buildRef junk own).getShardId = a.getShardId
  refLayers : ∀ junk, (scope.buildRef junk own).layers = a.layers

end Hiactor
