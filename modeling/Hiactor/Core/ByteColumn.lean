import Hiactor.Lib.Bytes
import Hiactor.Lib.Cells

/-!
# Fixed column batches in memory

Model of `fixed_column_batch` in `core/column_batch.hh` with the bytes of its buffer: the count of
the elements is in the first four of them, and the elements follow at the offset that their
alignment asks for. A byte that was not written to has no value, and an access outside of the buffer
has no result. The pointer `data` is left out: it is always `offset_of_data` bytes behind the
buffer.
-/

namespace Hiactor

open Lib

variable {α : Type}

/-- A type of elements: its `sizeof` and `alignof`, the bytes that a value is stored as, and the
value that bytes stand for. -/
structure ElementType (α : Type) where
  size : Nat
  align : Nat
  bytes : α → List UInt8
  read : List UInt8 → Option α
  align_pos : 0 < align
  size_eq (val : α) : (bytes val).length = size
  read_bytes (val : α) : read (bytes val) = some val

namespace ElementType

variable (type : ElementType α)

/-- `offset_of(&layout::fake_data)`: the first multiple of the alignment behind the `uint32_t`. -/
def offsetOfData : Nat := (4 + type.align - 1) / type.align * type.align

def bufSize (capacity : UInt32) : Nat := type.offsetOfData + type.size * capacity.toNat

/-- Where `data[idx]` is in the buffer. -/
def place (idx : Nat) : Nat := type.offsetOfData + idx * type.size

end ElementType

theorem int64_read_bytes (val : Int64) :
    (UInt64.ofNat (leNat (leBytes 8 val.toUInt64.toNat))).toInt64 = val := by
  have small : val.toUInt64.toNat % 256 ^ 8 = val.toUInt64.toNat :=
    Nat.mod_eq_of_lt val.toUInt64.toNat_lt
  rw [leNat_leBytes, small, UInt64.ofNat_toNat]
  rfl

/-- `int64_t`. -/
def int64 : ElementType Int64 where
  size := 8
  align := 8
  bytes val := leBytes 8 val.toUInt64.toNat
  read bs := some (UInt64.ofNat (leNat bs)).toInt64
  align_pos := by decide
  size_eq _ := length_leBytes 8 _
  read_bytes val := congrArg some (int64_read_bytes val)

/-- `fixed_column_batch`. A batch that was moved from has no buffer. -/
structure ByteColumnBatch where
  buf : Cells UInt8
  size : UInt32
  capacity : UInt32
  deriving DecidableEq, Repr

namespace ByteColumnBatch

def new (type : ElementType α) (capacity : UInt32) : ByteColumnBatch where
  buf := Cells.alloc (type.bufSize capacity)
  size := 0
  capacity := capacity

variable (b : ByteColumnBatch) (type : ElementType α)

def used : Option UInt32 := (b.buf.load 0 4).map fun bs => UInt32.ofNat (leNat bs)

/-- `used() = used` -/
def setUsed (used : UInt32) : Option ByteColumnBatch :=
  (b.buf.write 0 (leBytes 4 used.toNat)).map fun buf => { b with buf := buf }

/-- `used() * sizeof(T) + offset_of_data()`, as 32 bits. -/
def getLength : Option UInt32 :=
  b.used.map fun used => UInt32.ofNat (used.toNat * type.size + type.offsetOfData)

/-- `operator[]`. -/
def get (idx : Nat) : Option α := (b.buf.load (type.place idx) type.size).bind type.read

def pushBack (data : α) : Option ByteColumnBatch :=
  (b.buf.write (type.place b.size.toNat) (type.bytes data)).map fun buf =>
    { b with buf := buf, size := b.size + 1 }

/-- The pushes one after the other. -/
def pushAll : ByteColumnBatch → List α → Option ByteColumnBatch
  | b, [] => some b
  | b, data :: es => (b.pushBack type data).bind fun b => pushAll b es

/-- `buf.share(0, len)`. -/
def shareBuf (len : UInt32) : Option (Cells UInt8) :=
  if len.toNat ≤ b.buf.length then some (b.buf.take len.toNat) else none

/-- The batch and `tmp_buf` after `dump_to(tmp_buf)`. -/
def dumpTo (tmpBuf : Cells UInt8) : Option (ByteColumnBatch × Cells UInt8) :=
  if b.buf = [] then some (b, tmpBuf)
  else do
    let bw ← b.setUsed b.size
    let len ← bw.getLength type
    let dumped ← bw.shareBuf len
    return ({ buf := [], size := 0, capacity := 0 }, dumped)

/-- The constructor from a buffer. -/
def load (tb : Cells UInt8) : Option ByteColumnBatch :=
  (used { buf := tb, size := 0, capacity := 0 }).map fun used =>
    { buf := tb, size := used, capacity := used }

end ByteColumnBatch

end Hiactor
