import Mathlib.Order.Bounds.Basic
import Hiactor.Core.ByteColumn
import Hiactor.Core.Proofs.SharedBatch

/-!
# The bytes of fixed column batches

The constructor, the length of a dump and the loader find the elements at the same place, so that a
batch that is dumped and loaded has the elements that were pushed. The batch shows what the batch of
`Core.ColumnBatch` with the same elements shows, whose buffer is a block of elements.
-/

namespace Hiactor

open Lib

variable {α : Type}

namespace ElementType

variable (type : ElementType α)

theorem offsetOfData_isLeast : IsLeast {n | 4 ≤ n ∧ type.align ∣ n} type.offsetOfData := by
  have positive := type.align_pos
  have split := Nat.div_add_mod (4 + type.align - 1) type.align
  have remainder := Nat.mod_lt (4 + type.align - 1) positive
  refine ⟨⟨?_, Nat.dvd_mul_left _ _⟩, ?_⟩
  · rw [offsetOfData, Nat.mul_comm]
    omega
  · rintro n ⟨large, k, rfl⟩
    rw [offsetOfData, Nat.mul_comm]
    refine Nat.mul_le_mul_left _ (Nat.lt_succ_iff.mp ?_)
    rw [Nat.div_lt_iff_lt_mul positive, Nat.succ_mul, Nat.mul_comm]
    omega

theorem four_le_offsetOfData : 4 ≤ type.offsetOfData := type.offsetOfData_isLeast.1.1

theorem length_flatMap_bytes (es : List α) :
    (es.flatMap type.bytes).length = es.length * type.size := by
  induction es with
  | nil => rw [List.flatMap_nil, List.length_nil, List.length_nil, Nat.zero_mul]
  | cons e es ih =>
    rw [List.flatMap_cons, List.length_append, ih, type.size_eq, List.length_cons, Nat.succ_mul,
      Nat.add_comm]

/-- A dump of the elements is of less than 2 ^ 32 bytes. -/
def Small (es : List α) : Prop := es.length * type.size + type.offsetOfData < 2 ^ 32

/-- The size of a buffer that an element is pushed to fits 64 bits. -/
theorem bufSize_lt {es : List α} (small : type.Small es) (some_pushed : es ≠ [])
    (capacity : UInt32) : type.bufSize capacity < 2 ^ 64 := by
  have one : 1 ≤ es.length := List.length_pos_iff.mpr some_pushed
  have size : 1 * type.size ≤ es.length * type.size := Nat.mul_le_mul_right _ one
  have bound := capacity.toNat_lt
  unfold Small at small
  have product : type.size * capacity.toNat ≤ (2 ^ 32 - 1) * (2 ^ 32 - 1) :=
    Nat.mul_le_mul (by omega) (by omega)
  rw [bufSize]
  omega

end ElementType

namespace ByteColumnBatch

variable {type : ElementType α} {b b' : ByteColumnBatch} {es more : List α} {data : α}

/-- The elements of the batch are `es`. -/
structure Filled (type : ElementType α) (b : ByteColumnBatch) (es : List α) : Prop where
  data : b.buf.Holds type.offsetOfData (es.flatMap type.bytes)
  size : b.size.toNat = es.length
  capacity : b.buf.length = type.bufSize b.capacity

theorem filled_new (type : ElementType α) (capacity : UInt32) :
    (new type capacity).Filled type [] where
  data := by
    refine Cells.holds_nil ?_
    rw [new, Cells.alloc, List.length_replicate, ElementType.bufSize]
    exact Nat.le_add_right _ _
  size := rfl
  capacity := List.length_replicate

theorem Filled.get (filled : b.Filled type es) {i : Nat} (inside : i < es.length) :
    b.get type i = some es[i] := by
  have held := filled.data
  rw [← List.take_append_drop i es, List.drop_eq_getElem_cons inside, List.flatMap_append,
    List.flatMap_cons, Cells.holds_append, Cells.holds_append, type.length_flatMap_bytes,
    List.length_take_of_le (Nat.le_of_lt inside)] at held
  rw [ByteColumnBatch.get, ElementType.place, held.2.1.load (type.size_eq _), Option.bind_some,
    type.read_bytes]

theorem Filled.pushBack (filled : b.Filled type es) (data : α)
    (room : es.length < b.capacity.toNat) :
    ∃ b', b.pushBack type data = some b' ∧ b'.Filled type (es ++ [data]) ∧
      b'.capacity = b.capacity := by
  have place : type.place b.size.toNat = type.offsetOfData + es.length * type.size := by
    rw [ElementType.place, filled.size]
  have last : (es.length + 1) * type.size ≤ b.capacity.toNat * type.size :=
    Nat.mul_le_mul_right _ room
  rw [Nat.succ_mul] at last
  have capacity := filled.capacity
  rw [ElementType.bufSize, Nat.mul_comm] at capacity
  have inside : type.offsetOfData + es.length * type.size + (type.bytes data).length ≤
      b.buf.length := by
    rw [type.size_eq]
    omega
  obtain ⟨buf, wrote⟩ := Cells.write_isSome inside
  have length := Cells.length_write wrote
  have written := Cells.holds_write wrote
  refine ⟨{ b with buf := buf, size := b.size + 1 }, ?_, ?_, rfl⟩
  · rw [ByteColumnBatch.pushBack, place, wrote, Option.map_some]
  constructor
  case data =>
    rw [List.flatMap_append, Cells.holds_append, type.length_flatMap_bytes, List.flatMap_singleton]
    refine ⟨filled.data.write wrote (.inl ?_), written⟩
    rw [type.length_flatMap_bytes]
  case size =>
    have bound := b.capacity.toNat_lt
    have one : (1 : UInt32).toNat = 1 := rfl
    rw [List.length_append, List.length_singleton, UInt32.toNat_add, filled.size, one]
    exact Nat.mod_eq_of_lt (by omega)
  case capacity => exact length.trans filled.capacity

theorem Filled.pushAll (filled : b.Filled type es) (more : List α)
    (within : es.length + more.length ≤ b.capacity.toNat) :
    ∃ b', b.pushAll type more = some b' ∧ b'.Filled type (es ++ more) := by
  induction more generalizing b es with
  | nil => exact ⟨b, rfl, by rwa [List.append_nil]⟩
  | cons data more ih =>
    rw [List.length_cons] at within
    obtain ⟨b₁, pushed, filled₁, capacity⟩ := filled.pushBack data (by omega)
    have within₁ : (es ++ [data]).length + more.length ≤ b₁.capacity.toNat := by
      rw [capacity, List.length_append, List.length_singleton]
      omega
    obtain ⟨b₂, rest, filled₂⟩ := ih filled₁ within₁
    rw [List.append_assoc, List.singleton_append] at filled₂
    exact ⟨b₂, by rw [ByteColumnBatch.pushAll, pushed, Option.bind_some, rest], filled₂⟩

/-! ### Blocks of elements -/

/-- The two batches have the same elements and the same capacity. -/
def Represents (type : ElementType α) (b : ByteColumnBatch) (c : FixedColumnBatch α) : Prop :=
  (∃ es, b.Filled type es ∧ c.Filled es) ∧ b.capacity = c.capacity

theorem represents_new (type : ElementType α) (capacity : UInt32) :
    (new type capacity).Represents type (.new capacity) :=
  ⟨⟨[], filled_new type capacity, FixedColumnBatch.filled_new capacity⟩, rfl⟩

theorem Represents.pushBack {c c' : FixedColumnBatch α} (same : b.Represents type c)
    (pushed : c.pushBack data = some c') :
    ∃ b', b.pushBack type data = some b' ∧ b'.Represents type c' := by
  obtain ⟨⟨es, filled, filled_c⟩, capacity⟩ := same
  obtain ⟨filled_c', -, wrote⟩ := filled_c.pushBack pushed
  have room := (Cells.write_eq_some wrote).1
  rw [filled_c.capacity, List.length_singleton, ← capacity] at room
  obtain ⟨b', pushed_b, filled', capacity'⟩ := filled.pushBack data room
  obtain ⟨cells, -, rfl⟩ := Option.map_eq_some_iff.mp pushed
  exact ⟨b', pushed_b, ⟨es ++ [data], filled', filled_c'⟩, capacity'.trans capacity⟩

theorem Represents.get {c : FixedColumnBatch α} (same : b.Represents type c) {i : Nat}
    (inside : i < c.size.toNat) : b.get type i = c.get i := by
  obtain ⟨⟨es, filled, filled_c⟩, -⟩ := same
  rw [filled_c.size] at inside
  rw [filled.get inside, filled_c.shows.2 i inside]

/-! ### Dumping and loading -/

/-- The count is in its bytes. -/
def Counts (b : ByteColumnBatch) : Prop := b.buf.Holds 0 (leBytes 4 b.size.toNat)

theorem Counts.used (counts : b.Counts) : b.used = some b.size := by
  have number : leNat (leBytes 4 b.size.toNat) = b.size.toNat := by
    rw [leNat_leBytes]
    exact Nat.mod_eq_of_lt b.size.toNat_lt
  rw [ByteColumnBatch.used, counts.load (length_leBytes 4 _), Option.map_some, number,
    UInt32.ofNat_toNat]

/-- The count is before the elements. -/
theorem Filled.setUsed (filled : b.Filled type es) :
    ∃ b', b.setUsed b.size = some b' ∧ b'.Filled type es ∧ b'.Counts := by
  have header : (leBytes 4 b.size.toNat).length = 4 := length_leBytes 4 _
  have before := type.four_le_offsetOfData
  have front := filled.data.inside
  obtain ⟨buf, wrote⟩ : ∃ buf, b.buf.write 0 (leBytes 4 b.size.toNat) = some buf :=
    Cells.write_isSome (by omega)
  refine ⟨{ b with buf := buf }, ?_, ⟨?_, filled.size, ?_⟩, Cells.holds_write wrote⟩
  · rw [ByteColumnBatch.setUsed, wrote, Option.map_some]
  · exact filled.data.write wrote (.inr (by omega))
  · exact (Cells.length_write wrote).trans filled.capacity

/-- The buffer is cut behind the last element. -/
theorem Filled.shareBuf (filled : b.Filled type es) (counts : b.Counts)
    (small : type.Small es) :
    ∃ len, b.getLength type = some len ∧
      b.shareBuf len = some (b.buf.take (type.offsetOfData + es.length * type.size)) := by
  have inside := filled.data.inside
  rw [type.length_flatMap_bytes] at inside
  have len : (UInt32.ofNat (es.length * type.size + type.offsetOfData)).toNat =
      type.offsetOfData + es.length * type.size := by
    rw [UInt32.toNat_ofNat_of_lt' small, Nat.add_comm]
  refine ⟨_, by rw [getLength, counts.used, Option.map_some, filled.size], ?_⟩
  rw [ByteColumnBatch.shareBuf, len, if_pos inside]

/-- What was dumped is loaded. -/
theorem Filled.load (filled : b.Filled type es) (counts : b.Counts) :
    ∃ b', load (b.buf.take (type.offsetOfData + es.length * type.size)) = some b' ∧
      b'.Filled type es ∧ b'.capacity = b'.size := by
  have before := type.four_le_offsetOfData
  have length := type.length_flatMap_bytes es
  have header : (leBytes 4 b.size.toNat).length = 4 := length_leBytes 4 _
  have inside := filled.data.inside
  have counted : Counts
      ⟨b.buf.take (type.offsetOfData + es.length * type.size), b.size, b.size⟩ := by
    have taken := Cells.Holds.take counts
      (n := type.offsetOfData + es.length * type.size) (by omega) []
    rwa [List.append_nil] at taken
  refine ⟨_, congrArg _ counted.used, ⟨?_, filled.size, ?_⟩, rfl⟩
  · have taken := Cells.Holds.take filled.data
      (n := type.offsetOfData + es.length * type.size) (by omega) []
    rwa [List.append_nil] at taken
  · rw [ElementType.bufSize, filled.size, Nat.mul_comm type.size]
    exact List.length_take_of_le (by omega)

/-- A batch that elements were pushed to, dumped and loaded. -/
theorem dump_load (type : ElementType α) (capacity : UInt32) (es : List α) (tmpBuf : Cells UInt8)
    (within : es.length ≤ capacity.toNat)
    (small : es.length * type.size + type.offsetOfData < 2 ^ 32) :
    ∃ b b' loaded tb, (new type capacity).pushAll type es = some b ∧
      b.dumpTo type tmpBuf = some (b', tb) ∧ b' = { buf := [], size := 0, capacity := 0 } ∧
      load tb = some loaded ∧ loaded.size.toNat = es.length ∧
      loaded.capacity.toNat = es.length ∧
      ∀ i, (inside : i < es.length) → loaded.get type i = some es[i] := by
  obtain ⟨b, pushed, filled⟩ := (filled_new type capacity).pushAll es
    (by rwa [List.length_nil, Nat.zero_add])
  obtain ⟨bw, counted, filled', counts⟩ := filled.setUsed
  obtain ⟨len, length, shared⟩ := filled'.shareBuf counts small
  obtain ⟨loaded, load_eq, filled'', capacity_eq⟩ := filled'.load counts
  have some_buf : b.buf ≠ [] := by
    intro nothing
    have inside := filled.data.inside
    have before := type.four_le_offsetOfData
    rw [nothing, List.length_nil] at inside
    omega
  refine ⟨b, _, loaded, _, pushed, ?_, rfl, load_eq, filled''.size, ?_,
    fun i inside => filled''.get inside⟩
  · rw [dumpTo, if_neg some_buf, counted, Option.bind_eq_bind, Option.bind_some, length,
      Option.bind_eq_bind, Option.bind_some, shared]
    rfl
  · rw [capacity_eq]
    exact filled''.size

theorem dump_load_int64 :
    ∃ b b' loaded tb,
      (new int64 10).pushAll int64 [5102, 5103, 5104, 5105, 5106, 5107] = some b ∧
      b.dumpTo int64 [] = some (b', tb) ∧ b' = { buf := [], size := 0, capacity := 0 } ∧
      load tb = some loaded ∧ loaded.size.toNat = 6 ∧ loaded.capacity.toNat = 6 ∧
      ∀ i, (inside : i < 6) →
        loaded.get int64 i = some [5102, 5103, 5104, 5105, 5106, 5107][i] :=
  dump_load int64 10 [5102, 5103, 5104, 5105, 5106, 5107] [] (by decide) (by decide)

end ByteColumnBatch

end Hiactor
