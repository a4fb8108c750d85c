import Mathlib.Algebra.GroupWithZero.Nat
import Hiactor.Core.ColumnBatch

/-!
# Pushed, dumped and loaded columns

A batch of elements of varying length keeps its elements through all regrowths of its buffer. The
growth ends exactly when some doubling of the reservation, in 32 bits, has room for all units. A
dumped batch is loaded again exactly when it has an element.
-/

namespace Hiactor

open Lib

variable {α : Type}

namespace BufWrapper

variable {bw bw' : BufWrapper α} {rounds : Nat} {len : UInt32} {vals : List α}

theorem doubleReserved_le {reserved required found : UInt32}
    (doubled : doubleReserved rounds reserved required = some found) : required ≤ found := by
  induction rounds generalizing reserved with
  | zero => cases doubled
  | succ rounds ih =>
    rw [doubleReserved] at doubled
    split at doubled
    · exact ih doubled
    · next enough =>
      obtain rfl := Option.some.inj doubled
      exact UInt32.not_lt.mp enough

/-- A buffer whose first `occupied` units are `vals`. -/
structure Keeps (bw : BufWrapper α) (vals : List α) : Prop where
  data : bw.dataBuf.Holds 0 vals
  occupied : bw.occupied.toNat = vals.length
  reserved : bw.dataBuf.length = bw.reserved.toNat

theorem Keeps.occupied_le (keeps : bw.Keeps vals) : bw.occupied ≤ bw.reserved := by
  have inside := keeps.data.inside
  rw [UInt32.le_iff_toNat_le, keeps.occupied, ← keeps.reserved]
  omega

theorem Keeps.reallocate {reserved : UInt32} (keeps : bw.Keeps vals)
    (room : bw.occupied ≤ reserved) :
    ∃ bw', bw.reallocate reserved = some bw' ∧ bw'.Keeps vals ∧ bw'.metaBuf = bw.metaBuf ∧
      bw'.occupied = bw.occupied ∧ bw'.reserved = reserved := by
  have inside := keeps.data.inside
  have occupied := keeps.occupied
  have enough : bw.occupied.toNat ≤ bw.dataBuf.length ∧ bw.occupied ≤ reserved :=
    ⟨by omega, room⟩
  refine ⟨_, if_pos enough, ⟨?_, occupied, ?_⟩, rfl, rfl, rfl⟩
  · exact keeps.data.take (by omega) _
  · have bound := UInt32.le_iff_toNat_le.mp room
    simp only [List.length_append, List.length_take, Cells.alloc, List.length_replicate]
    omega

theorem reallocate_room {reserved : UInt32} (reallocated : bw.reallocate reserved = some bw') :
    bw.occupied ≤ reserved := by
  unfold BufWrapper.reallocate at reallocated
  split at reallocated
  · next enough => exact enough.2
  · cases reallocated

/-- What `ensure_space` leaves when it returns. -/
theorem Keeps.ensureSpace (keeps : bw.Keeps vals) (ensured : bw.ensureSpace rounds len = some bw') :
    bw'.Keeps vals ∧ bw'.metaBuf = bw.metaBuf := by
  unfold BufWrapper.ensureSpace at ensured
  split at ensured
  · obtain ⟨reserved, -, reallocated⟩ := Option.bind_eq_some_iff.mp ensured
    obtain ⟨found, same, kept, metas, -, -⟩ := keeps.reallocate (reallocate_room reallocated)
    obtain rfl := Option.some.inj (same.symm.trans reallocated)
    exact ⟨kept, metas⟩
  · obtain rfl := Option.some.inj ensured
    exact ⟨keeps, rfl⟩

/-- Units are written only where they can be counted. -/
theorem Keeps.write_fits {src : List α} {dataBuf : Cells α} (keeps : bw.Keeps vals)
    (wrote : bw.dataBuf.write bw.occupied.toNat src = some dataBuf) :
    bw.occupied.toNat + src.length < 2 ^ 32 := by
  obtain ⟨room, -⟩ := Cells.write_eq_some wrote
  rw [keeps.reserved] at room
  exact Nat.lt_of_le_of_lt room bw.reserved.toNat_lt

theorem Keeps.ensureSpace_room (keeps : bw.Keeps vals) (fits : vals.length + len.toNat < 2 ^ 32)
    (ensured : bw.ensureSpace rounds len = some bw') :
    vals.length + len.toNat ≤ bw'.reserved.toNat := by
  have required : (bw.occupied + len).toNat = vals.length + len.toNat := by
    rw [UInt32.toNat_add, keeps.occupied]
    exact Nat.mod_eq_of_lt fits
  unfold BufWrapper.ensureSpace at ensured
  split at ensured
  · obtain ⟨reserved, doubled, reallocated⟩ := Option.bind_eq_some_iff.mp ensured
    obtain ⟨found, same, -, -, -, reserves⟩ := keeps.reallocate (reallocate_room reallocated)
    obtain rfl := Option.some.inj (same.symm.trans reallocated)
    rw [reserves, ← required]
    exact UInt32.le_iff_toNat_le.mp (doubleReserved_le doubled)
  · next enough =>
    obtain rfl := Option.some.inj ensured
    rw [← required]
    exact UInt32.le_iff_toNat_le.mp (UInt32.not_lt.mp enough)

end BufWrapper

/-- The records of elements whose units are one after the other. -/
def metadataOf : Nat → List (List α) → List Metadata
  | _, [] => []
  | offset, e :: es =>
    ⟨UInt32.ofNat offset, UInt32.ofNat e.length⟩ :: metadataOf (offset + e.length) es

@[simp] theorem length_metadataOf (offset : Nat) (es : List (List α)) :
    (metadataOf offset es).length = es.length := by
  induction es generalizing offset with
  | nil => rfl
  | cons e es ih => rw [metadataOf, List.length_cons, ih, List.length_cons]

theorem metadataOf_append (offset : Nat) (es more : List (List α)) :
    metadataOf offset (es ++ more) =
      metadataOf offset es ++ metadataOf (offset + es.flatten.length) more := by
  induction es generalizing offset with
  | nil => simp [metadataOf]
  | cons first es ih =>
    rw [List.cons_append, metadataOf, ih, metadataOf]
    simp [Nat.add_assoc]

theorem metadataOf_singleton (offset : Nat) (e : List α) :
    metadataOf offset [e] = [⟨UInt32.ofNat offset, UInt32.ofNat e.length⟩] := rfl

theorem getElem_metadataOf (offset : Nat) (es : List (List α)) (i : Nat) (inside : i < es.length) :
    (metadataOf offset es)[i]? =
      some ⟨UInt32.ofNat (offset + (es.take i).flatten.length), UInt32.ofNat es[i].length⟩ := by
  induction es generalizing offset i with
  | nil => cases inside
  | cons e es ih =>
    cases i with
    | zero => simp [metadataOf]
    | succ i =>
      rw [metadataOf, List.getElem?_cons_succ, ih _ i (by simpa using inside)]
      simp [Nat.add_assoc]

namespace DynamicColumnBatch

variable {b b' : DynamicColumnBatch α} {es : List (List α)} {rounds : Nat} {e : List α}

/-- The elements of the batch are `es`. -/
structure Filled (b : DynamicColumnBatch α) (es : List (List α)) : Prop where
  units : b.bw.Keeps es.flatten
  metas : b.bw.metaBuf.metas.Holds 0 (metadataOf 0 es)
  size : b.size.toNat = es.length
  capacity : b.bw.metaBuf.metas.length = b.capacity.toNat

theorem filled_new (capacity reserved : UInt32) :
    (new capacity reserved : DynamicColumnBatch α).Filled [] where
  units := ⟨Cells.holds_nil (Nat.zero_le _), rfl, List.length_replicate⟩
  metas := Cells.holds_nil (Nat.zero_le _)
  size := rfl
  capacity := List.length_replicate

/-- What a push does. -/
theorem pushBackHelper_iff :
    b.pushBackHelper rounds e = some b' ↔
      ∃ bw metas dataBuf, b.bw.ensureSpace rounds (UInt32.ofNat e.length) = some bw ∧
        bw.metaBuf.metas.write b.size.toNat [⟨bw.occupied, UInt32.ofNat e.length⟩] = some metas ∧
        bw.dataBuf.write bw.occupied.toNat e = some dataBuf ∧
        b' = {
          bw := {
            metaBuf := { size := bw.metaBuf.size, metas := metas }
            dataBuf := dataBuf
            occupied := bw.occupied + UInt32.ofNat e.length
            reserved := bw.reserved }
          size := b.size + 1
          capacity := b.capacity } := by
  simp only [DynamicColumnBatch.pushBackHelper, Option.bind_eq_bind, Option.bind_eq_some_iff,
    pushMeta, writeData, Option.map_eq_some_iff, Option.pure_def, Option.some.injEq]
  constructor
  · rintro ⟨bw, ensured, _, ⟨metas, wrote_meta, rfl⟩, _, ⟨dataBuf, wrote_data, rfl⟩, rfl⟩
    exact ⟨bw, metas, dataBuf, ensured, wrote_meta, wrote_data, rfl⟩
  · rintro ⟨bw, metas, dataBuf, ensured, wrote_meta, wrote_data, rfl⟩
    exact ⟨bw, ensured, _, ⟨metas, wrote_meta, rfl⟩, _, ⟨dataBuf, wrote_data, rfl⟩, rfl⟩

theorem toNat_length (small : e.length < 2 ^ 32) : (UInt32.ofNat e.length).toNat = e.length :=
  UInt32.toNat_ofNat_of_lt' small

/-- What is pushed is within the units that can be counted. -/
theorem Filled.push_fits (filled : b.Filled es) (pushed : b.pushBackHelper rounds e = some b') :
    es.flatten.length + e.length < 2 ^ 32 := by
  obtain ⟨bw, -, dataBuf, ensured, -, wrote_data, -⟩ := pushBackHelper_iff.mp pushed
  obtain ⟨keeps, -⟩ := filled.units.ensureSpace ensured
  have room := keeps.write_fits wrote_data
  rwa [keeps.occupied] at room

/-- What `push_back_helper` leaves when it returns. -/
theorem Filled.pushBackHelper (filled : b.Filled es)
    (pushed : b.pushBackHelper rounds e = some b') :
    b'.Filled (es ++ [e]) ∧ b'.capacity = b.capacity := by
  obtain ⟨bw, metas, dataBuf, ensured, wrote_meta, wrote_data, rfl⟩ := pushBackHelper_iff.mp pushed
  obtain ⟨keeps, same_meta⟩ := filled.units.ensureSpace ensured
  have occupied := keeps.occupied
  have size := filled.size
  have capacity := filled.capacity
  have start : bw.occupied = UInt32.ofNat es.flatten.length := by
    rw [← occupied, UInt32.ofNat_toNat]
  rw [same_meta] at wrote_meta
  have room := (Cells.write_eq_some wrote_meta).1
  have fits := filled.push_fits pushed
  have length_metas := Cells.length_write wrote_meta
  have length_data := Cells.length_write wrote_data
  have len : (UInt32.ofNat e.length).toNat = e.length := toNat_length (by omega)
  refine ⟨⟨⟨?_, ?_, ?_⟩, ?_, ?_, ?_⟩, rfl⟩
  · rw [List.flatten_append, List.flatten_singleton, Cells.holds_append]
    refine ⟨keeps.data.write wrote_data (.inl (by omega)), ?_⟩
    have written := Cells.holds_write wrote_data
    rwa [occupied, ← Nat.zero_add es.flatten.length] at written
  · simp only [List.flatten_append, List.flatten_singleton, List.length_append]
    rw [UInt32.toNat_add, len, occupied]
    exact Nat.mod_eq_of_lt fits
  · rw [length_data]
    exact keeps.reserved
  · rw [metadataOf_append, metadataOf_singleton, Cells.holds_append, length_metadataOf]
    refine ⟨filled.metas.write wrote_meta (.inl (by simp [size])), ?_⟩
    have written := Cells.holds_write wrote_meta
    rwa [size, start, ← Nat.zero_add es.length, ← Nat.zero_add es.flatten.length] at written
  · have bound := b.capacity.toNat_lt
    have one : (1 : UInt32).toNat = 1 := rfl
    rw [List.length_append, List.length_singleton, UInt32.toNat_add, size, one]
    simp only [List.length_singleton] at room
    exact Nat.mod_eq_of_lt (by omega)
  · rw [length_metas]
    exact capacity

/-- The place of the further unit is behind the others. -/
theorem toNat_behind {occupied : UInt32} {n : Nat} (small : occupied.toNat + n < 2 ^ 32) :
    (occupied + (UInt32.ofNat n + 1) - 1).toNat = occupied.toNat + n := by
  have len : (UInt32.ofNat n).toNat = n := UInt32.toNat_ofNat_of_lt' (by change n < 2 ^ 32; omega)
  rw [← UInt32.add_assoc, UInt32.add_sub_cancel, UInt32.toNat_add, len]
  exact Nat.mod_eq_of_lt small

/-- With its further unit the element is pushed like any other. -/
theorem Filled.pushBackHelperVal_eq {src : List α} {val : α} (filled : b.Filled es) :
    b.pushBackHelperVal rounds src val = b.pushBackHelper rounds (src ++ [val]) := by
  have total : UInt32.ofNat (src ++ [val]).length = UInt32.ofNat src.length + 1 := by
    rw [List.length_append, UInt32.ofNat_add]
    rfl
  apply Option.ext
  intro b'
  rw [pushBackHelper_iff, total]
  simp only [DynamicColumnBatch.pushBackHelperVal, Option.bind_eq_bind, Option.bind_eq_some_iff,
    pushMeta, writeData, Option.map_eq_some_iff]
  constructor
  · rintro ⟨bw, ensured, _, ⟨metas, wrote_meta, rfl⟩, _, ⟨first, wrote_first, rfl⟩, dataBuf,
      wrote_last, rfl⟩
    refine ⟨bw, metas, dataBuf, ensured, wrote_meta, ?_, rfl⟩
    obtain ⟨keeps, -⟩ := filled.units.ensureSpace ensured
    have room := keeps.write_fits wrote_first
    rw [toNat_behind room] at wrote_last
    rw [Cells.write_append, wrote_first]
    exact wrote_last
  · rintro ⟨bw, metas, dataBuf, ensured, wrote_meta, wrote_data, rfl⟩
    rw [Cells.write_append] at wrote_data
    obtain ⟨first, wrote_first, wrote_last⟩ := Option.bind_eq_some_iff.mp wrote_data
    obtain ⟨keeps, -⟩ := filled.units.ensureSpace ensured
    have room := keeps.write_fits wrote_first
    rw [← toNat_behind room] at wrote_last
    exact ⟨bw, ensured, _, ⟨metas, wrote_meta, rfl⟩, _, ⟨first, wrote_first, rfl⟩, dataBuf,
      wrote_last, rfl⟩

/-- Both kinds of pushes push an element. -/
theorem Filled.pushBack_eq {p : DynamicPush α} (filled : b.Filled es) :
    b.pushBack rounds p = b.pushBackHelper rounds p.element := by
  obtain ⟨src, val⟩ := p
  cases val with
  | none =>
    rw [DynamicPush.element, Option.toList_none, List.append_nil]
    rfl
  | some val => exact filled.pushBackHelperVal_eq

theorem Filled.pushBack {p : DynamicPush α} (filled : b.Filled es)
    (pushed : b.pushBack rounds p = some b') :
    b'.Filled (es ++ [p.element]) ∧ b'.capacity = b.capacity := by
  rw [filled.pushBack_eq] at pushed
  exact filled.pushBackHelper pushed

/-- The elements of the pushes. -/
def elements (ps : List (DynamicPush α)) : List (List α) := ps.map DynamicPush.element

theorem length_elements (ps : List (DynamicPush α)) : (elements ps).length = ps.length :=
  List.length_map _

theorem units_elements (ps : List (DynamicPush α)) :
    (elements ps).flatten.length = (ps.map (·.element.length)).sum := by
  rw [List.length_flatten, elements, List.map_map]
  rfl

theorem Filled.pushAll {ps : List (DynamicPush α)} (filled : b.Filled es)
    (pushed : b.pushAll rounds ps = some b') :
    b'.Filled (es ++ elements ps) ∧ b'.capacity = b.capacity := by
  induction ps generalizing b es with
  | nil =>
    obtain rfl := Option.some.inj pushed
    rw [elements, List.map_nil, List.append_nil]
    exact ⟨filled, rfl⟩
  | cons p ps ih =>
    obtain ⟨next, one, rest⟩ := Option.bind_eq_some_iff.mp pushed
    obtain ⟨filled', capacity⟩ := filled.pushBack one
    obtain ⟨ended, capacity'⟩ := ih filled' rest
    rw [List.append_assoc, List.singleton_append] at ended
    exact ⟨ended, capacity'.trans capacity⟩

theorem Filled.fits (filled : b.Filled es) : es.flatten.length < 2 ^ 32 := by
  rw [← filled.units.occupied]
  exact b.bw.occupied.toNat_lt

theorem Filled.meta (filled : b.Filled es) {i : Nat} (inside : i < es.length) :
    b.bw.metaBuf.metas[i]? =
      some (some ⟨UInt32.ofNat (es.take i).flatten.length, UInt32.ofNat es[i].length⟩) := by
  have listed : i < (metadataOf 0 es).length := by rw [length_metadataOf]; exact inside
  have held := (Cells.holds_iff.mp filled.metas).2 i listed
  have record := getElem_metadataOf 0 es i inside
  rw [List.getElem?_eq_getElem listed] at record
  rw [Nat.zero_add] at held record
  rw [held, Option.some.inj record]

theorem flatten_at (es : List (List α)) {i : Nat} (inside : i < es.length) :
    es.flatten = (es.take i).flatten ++ (es[i] ++ (es.drop (i + 1)).flatten) := by
  rw [← List.flatten_cons, ← List.drop_eq_getElem_cons inside, ← List.flatten_append,
    List.take_append_drop]

/-- `operator[]` yields the elements. -/
theorem Filled.get (filled : b.Filled es) {i : Nat} (inside : i < es.length) :
    b.get i = some (es[i].map some) := by
  have fits := filled.fits
  have split := flatten_at es inside
  have length := congrArg List.length split
  simp only [List.length_append] at length
  have offset : (UInt32.ofNat (es.take i).flatten.length).toNat = (es.take i).flatten.length :=
    UInt32.toNat_ofNat_of_lt' (by change _ < 2 ^ 32; omega)
  have data := filled.units.data
  rw [split, Cells.holds_append, Cells.holds_append, Nat.zero_add] at data
  rw [DynamicColumnBatch.get, filled.meta inside]
  simp only [Option.join_some, Option.bind_some]
  rw [offset, toNat_length (by omega)]
  exact data.2.1

/-- What a new batch holds after pushes that return. -/
theorem filled_pushAll {capacity initReserved : UInt32} {ps : List (DynamicPush α)}
    (pushed : (new capacity initReserved).pushAll rounds ps = some b) :
    b.Filled (elements ps) :=
  ((filled_new capacity initReserved).pushAll pushed).1

/-- A batch keeps what was pushed: the offsets are those of elements one after the other, and the
elements are the pushed ones. -/
theorem keeps_pushed {capacity initReserved : UInt32} {ps : List (DynamicPush α)}
    (pushed : (new capacity initReserved).pushAll rounds ps = some b) :
    b.size.toNat = ps.length ∧ b.bw.occupied.toNat = (ps.map (·.element.length)).sum ∧
      b.bw.occupied ≤ b.bw.reserved ∧
      ∀ i, (inside : i < ps.length) →
        b.bw.metaBuf.metas[i]? = some (some
          ⟨UInt32.ofNat ((ps.take i).map (·.element.length)).sum,
            UInt32.ofNat ps[i].element.length⟩) ∧
        b.get i = some (ps[i].element.map some) := by
  have filled := filled_pushAll pushed
  refine ⟨?_, ?_, filled.units.occupied_le, fun i inside => ?_⟩
  · rw [filled.size, length_elements]
  · rw [filled.units.occupied, units_elements]
  · have listed : i < (elements ps).length := by rw [length_elements]; exact inside
    have at_i : (elements ps)[i] = ps[i].element := List.getElem_map _
    rw [filled.meta listed, filled.get listed, at_i, ← units_elements, elements, elements,
      List.map_take]
    exact ⟨rfl, rfl⟩

def threePushes : List (DynamicPush Nat) :=
  [⟨[1, 2, 3], none⟩, ⟨[], none⟩, ⟨[4, 5], some 6⟩]

theorem keeps_pushed_three :
    ∃ b : DynamicColumnBatch Nat, (new 4 2).pushAll 2 threePushes = some b ∧
      b.size.toNat = threePushes.length ∧
      b.bw.occupied.toNat = (threePushes.map (·.element.length)).sum ∧
      b.bw.occupied ≤ b.bw.reserved ∧
      ∀ i, (inside : i < threePushes.length) →
        b.bw.metaBuf.metas[i]? = some (some
          ⟨UInt32.ofNat ((threePushes.take i).map (·.element.length)).sum,
            UInt32.ofNat threePushes[i].element.length⟩) ∧
        b.get i = some (threePushes[i].element.map some) := by
  obtain ⟨b, pushed⟩ : ∃ b : DynamicColumnBatch Nat,
      (new 4 2).pushAll 2 threePushes = some b := ⟨_, rfl⟩
  exact ⟨b, pushed, keeps_pushed pushed⟩

/-! ## Dumps -/

/-- The last record gives the number of units. -/
theorem getOccupied_eq {tb1 : MetaBuf} {used : UInt32} (some_left : es ≠ [])
    (count : used.toNat = es.length) (metas : tb1.metas.Holds 0 (metadataOf 0 es)) :
    BufWrapper.getOccupied tb1 used = some (UInt32.ofNat es.flatten.length) := by
  obtain ⟨others, last, rfl⟩ := (List.eq_nil_or_concat es).resolve_left some_left
  rw [List.concat_eq_append] at metas count ⊢
  have one : (1 : UInt32) ≤ used := by
    rw [UInt32.le_iff_toNat_le, count, List.length_append]
    exact Nat.le_add_left _ _
  have index : (used - 1).toNat = others.length := by
    rw [UInt32.toNat_sub_of_le _ _ one, count, List.length_append]
    rfl
  have records := metas
  rw [metadataOf_append, metadataOf_singleton, Cells.holds_append, length_metadataOf] at records
  have record := (Cells.holds_iff.mp records.2).2 0 (by simp)
  rw [Nat.zero_add, Nat.add_zero] at record
  rw [BufWrapper.getOccupied, index, record]
  simp [UInt32.add_comm, UInt32.ofNat_add]

/-- Two buffers that end behind the last element are loaded. -/
theorem load_filled {tb1 : MetaBuf} {tb2 : Cells α} {used : UInt32} (some_left : es ≠ [])
    (size : tb1.size = some used) (count : used.toNat = es.length)
    (metas : tb1.metas.Holds 0 (metadataOf 0 es)) (length_metas : tb1.metas.length = used.toNat)
    (data : tb2.Holds 0 es.flatten) (length_data : tb2.length = es.flatten.length)
    (fits : es.flatten.length < 2 ^ 32) :
    ∃ b, load tb1 tb2 = some b ∧ b.Filled es ∧ b.size = used := by
  have units : (UInt32.ofNat es.flatten.length).toNat = es.flatten.length :=
    UInt32.toNat_ofNat_of_lt' fits
  have loaded : load tb1 tb2 = some {
      bw := {
        metaBuf := tb1
        dataBuf := tb2
        occupied := UInt32.ofNat es.flatten.length
        reserved := UInt32.ofNat es.flatten.length }
      size := used
      capacity := used } := by
    simp only [load, size, getOccupied_eq some_left count metas, Option.bind_eq_bind,
      Option.bind_some, Option.pure_def]
  exact ⟨_, loaded, ⟨⟨data, units, length_data.trans units.symm⟩, metas, count, length_metas⟩, rfl⟩

/-- The count of a batch without elements leads to a record before the first one. -/
theorem load_none {tb1 : MetaBuf} {tb2 : Cells α} (size : tb1.size = some 0)
    (metas : tb1.metas = []) : load tb1 tb2 = none := by
  simp [load, size, BufWrapper.getOccupied, metas]

/-- What is dumped ends behind the last element. -/
theorem Filled.share_eq {type : DynamicType} (filled : b.Filled es)
    (small : 4 + 8 * es.length + type.dataSize.toNat * es.flatten.length < 2 ^ 32)
    (metaBuf : MetaBuf) (dataBuf : Cells α) :
    metaBuf.share (BufWrapper.getMetaLength b.size) =
        { metaBuf with metas := metaBuf.metas.take es.length } ∧
      type.share dataBuf (b.bw.getDataLength type) = dataBuf.take es.flatten.length := by
  have metas : (BufWrapper.getMetaLength b.size).toNat = es.length * 8 + 4 := by
    rw [BufWrapper.getMetaLength, UInt32.toNat_add, UInt32.toNat_mul, filled.size]
    have eight : (8 : UInt32).toNat = 8 := rfl
    have four : (4 : UInt32).toNat = 4 := rfl
    rw [eight, four]
    omega
  have positive : 0 < type.dataSize.toNat := by cases type <;> decide
  have data : (b.bw.getDataLength type).toNat = es.flatten.length * type.dataSize.toNat := by
    rw [Nat.mul_comm type.dataSize.toNat] at small
    rw [BufWrapper.getDataLength, UInt32.toNat_mul, filled.units.occupied]
    exact Nat.mod_eq_of_lt (by omega)
  have records : (es.length * 8 + 4 - 4) / 8 = es.length := by omega
  rw [MetaBuf.share, DynamicType.share, metas, data, records, Nat.mul_div_cancel _ positive]
  exact ⟨rfl, rfl⟩

/-- What was dumped is loaded when there is an element. -/
theorem Filled.load_share {type : DynamicType} {metaBuf : MetaBuf} (filled : b.Filled es)
    (small : 4 + 8 * es.length + type.dataSize.toNat * es.flatten.length < 2 ^ 32)
    (some_left : es ≠ []) (size : metaBuf.size = some b.size)
    (metas : metaBuf.metas = b.bw.metaBuf.metas) :
    ∃ b', load (metaBuf.share (BufWrapper.getMetaLength b.size))
        (type.share b.bw.dataBuf (b.bw.getDataLength type)) = some b' ∧
      b'.Filled es ∧ b'.size = b.size := by
  obtain ⟨cut_metas, cut_data⟩ := filled.share_eq small metaBuf b.bw.dataBuf
  have room := filled.metas.inside
  have inside := filled.units.data.inside
  rw [length_metadataOf] at room
  rw [cut_metas, cut_data, metas]
  have size' : ({ metaBuf with metas := b.bw.metaBuf.metas.take es.length } : MetaBuf).size =
      some b.size := size
  apply load_filled some_left size' filled.size
  · rw [← List.append_nil (b.bw.metaBuf.metas.take es.length)]
    exact filled.metas.take (by rw [length_metadataOf]; omega) []
  · rw [filled.size]
    exact List.length_take_of_le (by omega)
  · rw [← List.append_nil (b.bw.dataBuf.take es.flatten.length)]
    exact filled.units.data.take (by omega) []
  · exact List.length_take_of_le (by omega)
  · exact filled.fits

/-- A dumped batch without an element is not. -/
theorem Filled.load_dump_nil {type : DynamicType} (filled : b.Filled []) :
    load (b.dumpTo type).1 (b.dumpTo type).2 = none := by
  have zero : b.size = 0 := UInt32.toNat_inj.mp filled.size
  have metas : ((BufWrapper.getMetaLength 0).toNat - 4) / 8 = 0 := by decide
  apply load_none
  · rw [dumpTo, zero]
    rfl
  · rw [dumpTo, zero, MetaBuf.share, metas, List.take_zero]

/-- The buffers of a batch that strings or paths were pushed to are loaded, with the same elements,
exactly when there was a push. -/
theorem load_dump_iff {type : DynamicType} {capacity initReserved : UInt32}
    {ps : List (DynamicPush α)}
    (small : 4 + 8 * ps.length + type.dataSize.toNat * (ps.map (·.element.length)).sum < 2 ^ 32)
    (pushed : (new capacity initReserved).pushAll rounds ps = some b) :
    (∃ b', load (b.dumpTo type).1 (b.dumpTo type).2 = some b' ∧ b'.size = b.size ∧
        b'.bw.occupied.toNat = (ps.map (·.element.length)).sum ∧
        ∀ i, (inside : i < ps.length) →
          b'.get i = b.get i ∧ b'.get i = some (ps[i].element.map some)) ↔
      ps ≠ [] := by
  have filled := filled_pushAll pushed
  rw [← length_elements, ← units_elements] at small
  constructor
  · rintro ⟨b', loaded, -⟩ rfl
    rw [filled.load_dump_nil] at loaded
    cases loaded
  · intro some_push
    have some_left : elements ps ≠ [] := by
      rwa [elements, Ne, List.map_eq_nil_iff]
    have written : ({ b.bw.metaBuf with size := some b.size } : MetaBuf).size = some b.size := rfl
    obtain ⟨b', loaded, filled', size⟩ := filled.load_share small some_left written rfl
    refine ⟨b', loaded, size, ?_, fun i inside => ?_⟩
    · rw [filled'.units.occupied, units_elements]
    · have listed : i < (elements ps).length := by rw [length_elements]; exact inside
      have at_i : (elements ps)[i] = ps[i].element := List.getElem_map _
      rw [filled'.get listed, filled.get listed, at_i]
      exact ⟨rfl, rfl⟩

theorem load_dump_three :
    ∃ b : DynamicColumnBatch Nat, (new 4 2).pushAll 2 threePushes = some b ∧
      ((∃ b', load (b.dumpTo .path).1 (b.dumpTo .path).2 = some b' ∧ b'.size = b.size ∧
          b'.bw.occupied.toNat = (threePushes.map (·.element.length)).sum ∧
          ∀ i, (inside : i < threePushes.length) →
            b'.get i = b.get i ∧ b'.get i = some (threePushes[i].element.map some)) ↔
        threePushes ≠ []) := by
  obtain ⟨b, pushed⟩ : ∃ b : DynamicColumnBatch Nat,
      (new 4 2).pushAll 2 threePushes = some b := ⟨_, rfl⟩
  exact ⟨b, pushed, load_dump_iff (by decide) pushed⟩

/-- Without a push the record of index 2 ^ 32 - 1 is read. -/
theorem empty_dump_not_loaded :
    ∃ b : DynamicColumnBatch Nat, (new 4 2).pushAll 2 [] = some b ∧
      load (b.dumpTo .string).1 (b.dumpTo .string).2 = none :=
  ⟨_, rfl, by decide⟩

end DynamicColumnBatch

end Hiactor
