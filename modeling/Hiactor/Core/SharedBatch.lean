import Hiactor.Lib.Sharing
import Hiactor.Core.ColumnBatch

/-!
# Shared column batches

Model of `share`, and of `push_back` and `dump_to` on a batch and a handle that `share` made from
it. Both of them refer to the buffers of one store and keep their sizes to themselves. What is
dumped refers to the same buffers.
-/

namespace Hiactor

open Lib

variable {α : Type}

/-! ## Elements of varying length -/

/-- One of the handles: which `data_buf` it refers to, and its own sizes. After `dump_to` it is
moved from, and `dumped` has the lengths of the two buffers it was dumped to. -/
structure DynamicHandle where
  dataBuf : Nat
  occupied : UInt32
  reserved : UInt32
  size : UInt32
  capacity : UInt32
  dumped : Option (UInt32 × UInt32)
  deriving DecidableEq, Repr

/-- The store of the two handles. No operation of a handle makes a further `meta_buf`. -/
structure SharedDynamic (α : Type) where
  metaBuf : MetaBuf
  dataBufs : List (Cells α)
  handles : Side → DynamicHandle

/-- `dynamic_column_batch::share`. -/
def DynamicColumnBatch.share (b : DynamicColumnBatch α) : SharedDynamic α where
  metaBuf := b.bw.metaBuf
  dataBufs := [b.bw.dataBuf]
  handles _ := {
    dataBuf := 0
    occupied := b.bw.occupied
    reserved := b.bw.reserved
    size := b.size
    capacity := b.capacity
    dumped := none }

namespace SharedDynamic

variable (s : SharedDynamic α)

/-- The batch that one of the handles shows. -/
def view (side : Side) : Option (DynamicColumnBatch α) :=
  s.dataBufs[(s.handles side).dataBuf]?.map fun dataBuf => {
    bw := {
      metaBuf := s.metaBuf
      dataBuf := dataBuf
      occupied := (s.handles side).occupied
      reserved := (s.handles side).reserved }
    size := (s.handles side).size
    capacity := (s.handles side).capacity }

/-- A push writes in place, except that the units are in a new `data_buf` if `ensure_space` makes
one. -/
def pushBack (rounds : Nat) (side : Side) (p : DynamicPush α) : Option (SharedDynamic α) :=
  if (s.handles side).dumped = none then do
    let b ← s.view side
    let b' ← b.pushBack rounds p
    let regrown := b.bw.occupied + UInt32.ofNat p.element.length > b.bw.reserved
    return {
      metaBuf := b'.bw.metaBuf
      dataBufs := if regrown then s.dataBufs ++ [b'.bw.dataBuf]
        else s.dataBufs.set (s.handles side).dataBuf b'.bw.dataBuf
      handles := Function.update s.handles side {
        dataBuf := if regrown then s.dataBufs.length else (s.handles side).dataBuf
        occupied := b'.bw.occupied
        reserved := b'.bw.reserved
        size := b'.size
        capacity := b'.capacity
        dumped := none } }
  else none

def dumpTo (type : DynamicType) (side : Side) : SharedDynamic α :=
  if (s.handles side).dumped = none then
    { s with
      metaBuf.size := some (s.handles side).size
      handles := Function.update s.handles side {
        dataBuf := (s.handles side).dataBuf
        occupied := 0
        reserved := 0
        size := 0
        capacity := 0
        dumped := some (BufWrapper.getMetaLength (s.handles side).size,
          (s.handles side).occupied * type.dataSize) } }
  else s

/-- The batch that is made from what a handle was dumped to. -/
def load (type : DynamicType) (side : Side) : Option (DynamicColumnBatch α) := do
  let (metaLength, dataLength) ← (s.handles side).dumped
  let dataBuf ← s.dataBufs[(s.handles side).dataBuf]?
  DynamicColumnBatch.load (s.metaBuf.share metaLength) (type.share dataBuf dataLength)

/-- One use of a handle. -/
def step (type : DynamicType) (rounds : Nat) :
    SharedDynamic α → Use (DynamicPush α) → Option (SharedDynamic α) :=
  useStep (fun s side p => s.pushBack rounds side p) fun s side => s.dumpTo type side

end SharedDynamic

/-! ## Elements of one size -/

/-- One of the handles: its own sizes. After `dump_to` it is moved from, and `dumped` has the length
of the buffer it was dumped to. -/
structure FixedHandle where
  size : UInt32
  capacity : UInt32
  dumped : Option UInt32
  deriving DecidableEq, Repr

structure SharedFixed (α : Type) where
  buf : FixedBuf α
  handles : Side → FixedHandle

/-- `fixed_column_batch::share`. -/
def FixedColumnBatch.share (b : FixedColumnBatch α) : SharedFixed α where
  buf := b.buf
  handles _ := { size := b.size, capacity := b.capacity, dumped := none }

namespace SharedFixed

variable (s : SharedFixed α)

/-- The batch that one of the handles shows. -/
def view (side : Side) : FixedColumnBatch α where
  buf := s.buf
  size := (s.handles side).size
  capacity := (s.handles side).capacity

def pushBack (side : Side) (data : α) : Option (SharedFixed α) :=
  if (s.handles side).dumped = none then
    ((s.view side).pushBack data).map fun b => {
      buf := b.buf
      handles := Function.update s.handles side
        { size := b.size, capacity := b.capacity, dumped := none } }
  else none

def dumpTo (type : FixedType) (side : Side) : SharedFixed α :=
  if (s.handles side).dumped = none then
    { buf := { s.buf with size := some (s.handles side).size }
      handles := Function.update s.handles side
        { size := 0, capacity := 0, dumped := some (type.getLength (s.handles side).size) } }
  else s

/-- The batch that is made from what a handle was dumped to. -/
def load (type : FixedType) (side : Side) : Option (FixedColumnBatch α) :=
  (s.handles side).dumped.bind fun length => FixedColumnBatch.load (s.buf.share type length)

/-- One use of a handle. -/
def step (type : FixedType) : SharedFixed α → Use α → Option (SharedFixed α) :=
  useStep (fun s side data => s.pushBack side data) fun s side => s.dumpTo type side

end SharedFixed

end Hiactor
