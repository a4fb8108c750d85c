import Hiactor.Lib.Cells

/-!
# Column batches

Model of `core/column_batch.hh`. A batch of elements of varying length keeps the units of all
elements in one buffer, and the count of the elements with a record of each in another. A batch of
elements of one size keeps them in one buffer behind their count. A cell that was not written to has
no value, and an access outside of a buffer has no result.
-/

namespace Hiactor

open Lib

variable {α : Type}

/-! ## Elements of varying length -/

/-- The types of such elements, with the `sizeof` of their `data_type`. -/
inductive DynamicType where
  | string
  | path
  deriving DecidableEq, Repr

def DynamicType.dataSize : DynamicType → UInt32
  | .string => 1
  | .path => 8

/-- `metadata`. -/
structure Metadata where
  offset : UInt32
  len : UInt32
  deriving DecidableEq, Repr

/-- The `layout` of `meta_buf`: the count of the elements and their records. -/
structure MetaBuf where
  size : Option UInt32
  metas : Cells Metadata
  deriving DecidableEq, Repr

/-- `share(0, len)` of the two buffers, with lengths in bytes. -/
def MetaBuf.share (buf : MetaBuf) (len : UInt32) : MetaBuf :=
  { buf with metas := buf.metas.take ((len.toNat - 4) / 8) }

def DynamicType.share (type : DynamicType) (buf : Cells α) (len : UInt32) : Cells α :=
  buf.take (len.toNat / type.dataSize.toNat)

/-- `dynamic_column_batch::buf_wrapper`. -/
structure BufWrapper (α : Type) where
  metaBuf : MetaBuf
  dataBuf : Cells α
  occupied : UInt32
  reserved : UInt32
  deriving DecidableEq, Repr

/-- The loop of `ensure_space`, with a bound for its rounds. -/
def doubleReserved : Nat → UInt32 → UInt32 → Option UInt32
  | 0, _, _ => none
  | rounds + 1, reserved, required =>
    if reserved * 2 < required then doubleReserved rounds (reserved * 2) required
    else some (reserved * 2)

namespace BufWrapper

def new (cap reserved : UInt32) : BufWrapper α where
  metaBuf := { size := none, metas := Cells.alloc cap.toNat }
  dataBuf := Cells.alloc reserved.toNat
  occupied := 0
  reserved := reserved

variable (bw : BufWrapper α)

/-- A new `data_buf`, to which the units of the old one are copied. -/
def reallocate (reserved : UInt32) : Option (BufWrapper α) :=
  if bw.occupied.toNat ≤ bw.dataBuf.length ∧ bw.occupied ≤ reserved then
    some { bw with
      dataBuf := bw.dataBuf.take bw.occupied.toNat ++
        Cells.alloc (reserved.toNat - bw.occupied.toNat)
      reserved := reserved }
  else none

def ensureSpace (rounds : Nat) (len : UInt32) : Option (BufWrapper α) :=
  if bw.occupied + len > bw.reserved then
    (doubleReserved rounds bw.reserved (bw.occupied + len)).bind bw.reallocate
  else some bw

/-- `used() * sizeof(metadata) + offset_of_meta()`. -/
def getMetaLength (used : UInt32) : UInt32 := used * 8 + 4

def getDataLength (type : DynamicType) : UInt32 := bw.occupied * type.dataSize

/-- The record before the place of the next one, with an index of 32 bits. -/
def getOccupied (metaBuf : MetaBuf) (used : UInt32) : Option UInt32 :=
  metaBuf.metas[(used - 1).toNat]?.join.map fun mt => mt.len + mt.offset

end BufWrapper

/-- `dynamic_column_batch`. -/
structure DynamicColumnBatch (α : Type) where
  bw : BufWrapper α
  size : UInt32
  capacity : UInt32
  deriving DecidableEq, Repr

/-- The arguments of `push_back`: the units of a string or a path, and a further one if given. -/
structure DynamicPush (α : Type) where
  src : List α
  val : Option α := none
  deriving DecidableEq, Repr

/-- The element that is pushed. -/
def DynamicPush.element (p : DynamicPush α) : List α := p.src ++ p.val.toList

namespace DynamicColumnBatch

def new (capacity initReserved : UInt32) : DynamicColumnBatch α where
  bw := .new capacity initReserved
  size := 0
  capacity := capacity

variable (b : DynamicColumnBatch α)

/-- `operator[]`: the units of an element. -/
def get (idx : Nat) : Option (Cells α) :=
  b.bw.metaBuf.metas[idx]?.join.bind fun mt => b.bw.dataBuf.read mt.offset.toNat mt.len.toNat

/-- `meta[_size++] = ...` -/
def pushMeta (record : Metadata) : Option (DynamicColumnBatch α) :=
  (b.bw.metaBuf.metas.write b.size.toNat [record]).map fun metas =>
    { b with bw.metaBuf.metas := metas, size := b.size + 1 }

def writeData (offset : UInt32) (src : List α) : Option (DynamicColumnBatch α) :=
  (b.bw.dataBuf.write offset.toNat src).map fun dataBuf => { b with bw.dataBuf := dataBuf }

def pushBackHelper (rounds : Nat) (src : List α) : Option (DynamicColumnBatch α) := do
  let len := UInt32.ofNat src.length
  let bw ← b.bw.ensureSpace rounds len
  let b ← { b with bw := bw }.pushMeta ⟨bw.occupied, len⟩
  let b ← b.writeData b.bw.occupied src
  return { b with bw.occupied := b.bw.occupied + len }

def pushBackHelperVal (rounds : Nat) (src : List α) (val : α) : Option (DynamicColumnBatch α) := do
  let totalLen := UInt32.ofNat src.length + 1
  let bw ← b.bw.ensureSpace rounds totalLen
  let b ← { b with bw := bw }.pushMeta ⟨bw.occupied, totalLen⟩
  let b ← b.writeData b.bw.occupied src
  let b := { b with bw.occupied := b.bw.occupied + totalLen }
  b.writeData (b.bw.occupied - 1) [val]

def pushBack (rounds : Nat) (p : DynamicPush α) : Option (DynamicColumnBatch α) :=
  match p.val with
  | none => b.pushBackHelper rounds p.src
  | some val => b.pushBackHelperVal rounds p.src val

/-- The pushes one after the other. -/
def pushAll (rounds : Nat) : DynamicColumnBatch α → List (DynamicPush α) →
    Option (DynamicColumnBatch α)
  | b, [] => some b
  | b, p :: ps => (b.pushBack rounds p).bind fun b => pushAll rounds b ps

/-- The two buffers that `dump_to` makes. -/
def dumpTo (type : DynamicType) : MetaBuf × Cells α :=
  ({ b.bw.metaBuf with size := some b.size }.share (BufWrapper.getMetaLength b.size),
    type.share b.bw.dataBuf (b.bw.getDataLength type))

/-- The constructor from two buffers. -/
def load (tb1 : MetaBuf) (tb2 : Cells α) : Option (DynamicColumnBatch α) := do
  let used ← tb1.size
  let occupied ← BufWrapper.getOccupied tb1 used
  return {
    bw := { metaBuf := tb1, dataBuf := tb2, occupied := occupied, reserved := occupied }
    size := used
    capacity := used }

end DynamicColumnBatch

/-! ## Elements of one size -/

/-- A type of such elements: its `sizeof` and `offset_of_data`. -/
structure FixedType where
  size : UInt32
  offset : UInt32
  size_pos : 0 < size.toNat
  deriving DecidableEq, Repr

/-- The `layout` of `buf`: the count of the elements and the elements. -/
structure FixedBuf (α : Type) where
  size : Option UInt32
  data : Cells α
  deriving DecidableEq, Repr

def FixedBuf.share (type : FixedType) (buf : FixedBuf α) (len : UInt32) : FixedBuf α :=
  { buf with data := buf.data.take ((len.toNat - type.offset.toNat) / type.size.toNat) }

/-- `used() * sizeof(T) + offset_of_data()`. -/
def FixedType.getLength (type : FixedType) (used : UInt32) : UInt32 :=
  used * type.size + type.offset

/-- `fixed_column_batch`. -/
structure FixedColumnBatch (α : Type) where
  buf : FixedBuf α
  size : UInt32
  capacity : UInt32
  deriving DecidableEq, Repr

namespace FixedColumnBatch

def new (capacity : UInt32) : FixedColumnBatch α where
  buf := { size := none, data := Cells.alloc capacity.toNat }
  size := 0
  capacity := capacity

variable (b : FixedColumnBatch α)

/-- `operator[]`. -/
def get (idx : Nat) : Option α := b.buf.data[idx]?.join

def pushBack (data : α) : Option (FixedColumnBatch α) :=
  (b.buf.data.write b.size.toNat [data]).map fun cells =>
    { b with buf.data := cells, size := b.size + 1 }

/-- The constructor from a buffer. -/
def load (tb : FixedBuf α) : Option (FixedColumnBatch α) :=
  tb.size.map fun used => { buf := tb, size := used, capacity := used }

end FixedColumnBatch

end Hiactor
