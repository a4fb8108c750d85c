import Hiactor.Net.DataType
import Hiactor.Net.Proofs.QueueMoves
import Mathlib.Data.List.Forall2

/-!
# Dumped and loaded values

Integers, booleans and the empty type survive a queue. A string does exactly when the memory from
its member `str` on happens to hold its own bytes. A queue gives the buffers back in order until the
number of its nodes wraps; from then on the buffers of its list are others than those dumped.
-/

namespace Hiactor

open Lib SerializableQueue TmpbufLinkedList

/-- The memory from the member `str` on holds the bytes of the string. -/
def SimpleString.Intact (s : SimpleString) : Prop :=
  ∀ i, (h : i < s.text.length) → s.memory i = s.text[i]

theorem SimpleString.intact_iff (s : SimpleString) :
    (List.range s.text.length).map s.memory = s.text ↔ s.Intact := by
  constructor
  · intro same i inside
    have found : ((List.range s.text.length).map s.memory)[i]? = s.text[i]? := by rw [same]
    simpa [inside] using found
  · intro intact
    apply List.ext_getElem
    · simp
    · intro i _ inside
      simpa using intact i inside

theorem Primitive.ofBuffer_bytes {α : Type} (type : Primitive α) (val : α) :
    type.ofBuffer (type.bytes val) = some val := by
  have size := type.size_eq val
  rw [Primitive.ofBuffer, if_pos (Nat.le_of_eq size.symm),
    List.take_of_length_le (Nat.le_of_eq size), type.read_bytes]

theorem Primitive.ofBuffer_nil {α : Type} (type : Primitive α) (some_size : 0 < type.size) :
    type.ofBuffer [] = none :=
  if_neg (Nat.not_le_of_lt some_size)

namespace DataObject

/-- The empty type has no buffer. -/
def stored (o : DataObject) : Bool := o.kind != .void

/-- The buffer that is dumped. -/
def buffer : DataObject → Buffer
  | .integer val => Integer.bytes val
  | .boolean val => Boolean.bytes val
  | .void => []
  | .string s => (List.range s.text.length).map s.memory

theorem dumpTo_eq (o : DataObject) (qu : SerializableQueue) :
    o.dumpTo qu = if o.stored then qu.push o.buffer else qu := by
  cases o <;> rfl

end DataObject

/-- The value that is made of a buffer. -/
def DataKind.ofBuffer (buf : Buffer) : DataKind → Option DataValue
  | .integer => (Integer.ofBuffer buf).map .integer
  | .boolean => (Boolean.ofBuffer buf).map .boolean
  | .void => some .void
  | .string => some (.string buf)

theorem DataKind.loadFrom_eq (kind : DataKind) (qu : SerializableQueue) :
    kind.loadFrom qu =
      if kind = .void then some (.void, qu)
      else (kind.ofBuffer qu.pop.1).map fun val => (val, qu.pop.2) := by
  cases kind with
  | integer => simp [loadFrom, ofBuffer, Primitive.loadFrom, Function.comp_def]
  | boolean => simp [loadFrom, ofBuffer, Primitive.loadFrom, Function.comp_def]
  | void => rfl
  | string => rfl

namespace DataObject

/-- The value can be made of the buffer. -/
def Reads (o : DataObject) (buf : Buffer) : Prop := o.kind.ofBuffer buf = some o.value

theorem reads_buffer_iff (o : DataObject) :
    o.Reads o.buffer ↔ ∀ s, o = .string s → s.Intact := by
  cases o with
  | integer val => simp [Reads, kind, value, buffer, DataKind.ofBuffer, Primitive.ofBuffer_bytes]
  | boolean val => simp [Reads, kind, value, buffer, DataKind.ofBuffer, Primitive.ofBuffer_bytes]
  | void => simp [Reads, kind, value, DataKind.ofBuffer]
  | string s => simp [Reads, kind, value, buffer, DataKind.ofBuffer, SimpleString.intact_iff]

/-- Only the empty string can be made of a buffer that is not there. -/
theorem reads_nil_iff (o : DataObject) (stored : o.stored = true) :
    o.Reads [] ↔ o.value = .string [] := by
  cases o with
  | integer val =>
    simp [Reads, kind, value, DataKind.ofBuffer, Primitive.ofBuffer_nil Integer (by decide)]
  | boolean val =>
    simp [Reads, kind, value, DataKind.ofBuffer, Primitive.ofBuffer_nil Boolean (by decide)]
  | void => cases stored
  | string s => simp [Reads, kind, value, DataKind.ofBuffer, eq_comm]

theorem buffer_of_empty {o : DataObject} (empty : o.value = .string []) : o.buffer = [] := by
  cases o with
  | string s =>
    have none_left : s.text = [] := by simpa [value] using empty
    simp [buffer, none_left]
  | integer val => cases empty
  | boolean val => cases empty
  | void => cases empty

end DataObject

/-- The values that have a buffer. -/
def storedObjects (objects : List DataObject) : List DataObject := objects.filter DataObject.stored

theorem dumpAll_eq (objects : List DataObject) (qu : SerializableQueue) :
    dumpAll objects qu =
      ((storedObjects objects).map DataObject.buffer).foldl SerializableQueue.push qu := by
  induction objects generalizing qu with
  | nil => rfl
  | cons o objects ih =>
    rw [dumpAll, List.foldl_cons, DataObject.dumpTo_eq, ← dumpAll, ih]
    cases stored : o.stored with
    | true => simp [storedObjects, stored]
    | false => simp [storedObjects, stored]

/-- The loaded values are made of the buffers that the queue returns. -/
theorem loadAll_iff (objects : List DataObject) {qu : SerializableQueue} {bufs : List Buffer}
    (returns : Returns bufs qu) (count : bufs.length = (storedObjects objects).length) :
    (∃ qu', loadAll (objects.map DataObject.kind) qu =
        some (objects.map DataObject.value, qu')) ↔
      List.Forall₂ DataObject.Reads (storedObjects objects) bufs := by
  induction objects generalizing qu bufs with
  | nil =>
    obtain rfl := List.length_eq_zero_iff.mp count
    exact iff_of_true ⟨qu, rfl⟩ .nil
  | cons o objects ih =>
    cases stored : o.stored with
    | false =>
      have void : o = .void := by cases o <;> first | rfl | cases stored
      subst void
      rw [storedObjects, List.filter_cons_of_neg (by simp [stored]), ← storedObjects] at count ⊢
      rw [← ih returns count]
      simp [loadAll, DataObject.kind, DataObject.value, DataKind.loadFrom]
    | true =>
      have kind : o.kind ≠ .void := by simpa [DataObject.stored] using stored
      rw [storedObjects, List.filter_cons_of_pos stored, ← storedObjects] at count ⊢
      cases bufs with
      | nil => cases count
      | cons buf bufs =>
        have later := ih returns.2 (Nat.succ.inj count)
        rw [List.forall₂_cons, ← later, List.map_cons, List.map_cons, loadAll,
          DataKind.loadFrom_eq, if_neg kind, returns.1, DataObject.Reads]
        cases made : o.kind.ofBuffer buf with
        | none => simp
        | some val => simp [eq_comm, and_comm]

theorem loadAll_size (objects : List DataObject) {qu qu' : SerializableQueue}
    {vals : List DataValue} (loaded : loadAll (objects.map DataObject.kind) qu = some (vals, qu')) :
    qu'.size + UInt32.ofNat (storedObjects objects).length = qu.size := by
  induction objects generalizing qu vals with
  | nil =>
    obtain ⟨rfl, rfl⟩ := Prod.mk.inj (Option.some.inj loaded)
    exact UInt32.add_zero _
  | cons o objects ih =>
    rw [List.map_cons, loadAll, DataKind.loadFrom_eq] at loaded
    cases stored : o.stored with
    | false =>
      have void : o.kind = .void := by simpa [DataObject.stored] using stored
      rw [storedObjects, List.filter_cons_of_neg (by simp [stored]), ← storedObjects]
      simp only [void, if_true, Option.bind_some, Option.map_eq_some_iff] at loaded
      obtain ⟨⟨vals', last⟩, rest, same⟩ := loaded
      obtain ⟨-, rfl⟩ := Prod.mk.inj same
      exact ih rest
    | true =>
      have kind : o.kind ≠ .void := by simpa [DataObject.stored] using stored
      rw [storedObjects, List.filter_cons_of_pos stored, ← storedObjects]
      simp only [kind, if_false, Option.bind_eq_some_iff, Option.map_eq_some_iff] at loaded
      obtain ⟨_, ⟨_, -, rfl⟩, ⟨vals', last⟩, rest, same⟩ := loaded
      obtain ⟨-, rfl⟩ := Prod.mk.inj same
      rw [List.length_cons, UInt32.ofNat_add, ← UInt32.add_assoc, ih rest, size_pop]
      exact UInt32.sub_add_cancel _ _

/-! ## What a fresh queue gives back -/

/-- A fresh queue after pushes of `bufs`: the first buffers of its list are lost when the number of
its nodes wraps. -/
structure Stored (bufs : List Buffer) (lost : Nat) (qu : SerializableQueue)
    (dead live : List TmpbufListNode) : Prop where
  shape : qu.Shape dead live
  array : qu.array = { buffers := bufs.take ARRAY_BUFFER_SIZE }
  list : contents live = (bufs.drop ARRAY_BUFFER_SIZE).drop lost
  inside : lost ≤ (bufs.drop ARRAY_BUFFER_SIZE).length
  slots : slots live = (contents live).length
  room : SerializableQueue.slots live ≤ lastSlot
  none_lost : lost = 0 ↔ (bufs.drop ARRAY_BUFFER_SIZE).length ≤ lastSlot
  size : qu.size = UInt32.ofNat bufs.length

theorem stored_new : Stored [] 0 {} [] [] where
  shape := shape_new
  array := rfl
  list := rfl
  inside := Nat.le_refl 0
  slots := rfl
  room := Nat.zero_le _
  none_lost := iff_of_true rfl (Nat.zero_le _)
  size := rfl

theorem Stored.push {bufs : List Buffer} {lost : Nat} {qu : SerializableQueue}
    {dead live : List TmpbufListNode} (stored : Stored bufs lost qu dead live) (buf : Buffer) :
    ∃ lost' dead' live', Stored (bufs ++ [buf]) lost' (qu.push buf) dead' live' := by
  have inside := stored.inside
  have none_lost := stored.none_lost
  have held := stored.slots
  have list := stored.list
  have size : (qu.push buf).size = UInt32.ofNat (bufs ++ [buf]).length := by
    rw [size_push, stored.size, List.length_append, UInt32.ofNat_add]
    rfl
  have whole : qu.array.isFull = true ↔ ARRAY_BUFFER_SIZE ≤ bufs.length := by
    rw [stored.array, TmpbufArray.isFull, beq_iff_eq, List.length_take]
    omega
  by_cases full : qu.array.isFull = true
  · have more := whole.mp full
    have taken : (bufs ++ [buf]).take ARRAY_BUFFER_SIZE = bufs.take ARRAY_BUFFER_SIZE :=
      List.take_append_of_le_length more
    have dropped : (bufs ++ [buf]).drop ARRAY_BUFFER_SIZE =
        bufs.drop ARRAY_BUFFER_SIZE ++ [buf] := List.drop_append_of_le_length more
    by_cases last : SerializableQueue.slots live < lastSlot
    · obtain ⟨live', kept, pushed⟩ := stored.shape.list.push (stored.shape.room_of_slots last) buf
      obtain ⟨shape, array⟩ := Shape.push_list stored.shape.array full kept
      have one := Pushed.slots pushed
      have contents' := pushed.contents stored.shape.list.links
      refine ⟨lost, dead, live', shape, ?_, ?_, ?_, ?_, by omega, ?_, size⟩
      · rw [array, stored.array, taken]
      · rw [contents', dropped, List.drop_append_of_le_length inside, list]
      · rw [dropped, List.length_append]
        omega
      · rw [one, held, contents', List.length_append, List.length_singleton]
      · rw [list, List.length_drop] at held
        rw [none_lost, dropped, List.length_append, List.length_singleton]
        omega
    · have end_reached : SerializableQueue.slots live = lastSlot :=
        Nat.le_antisymm stored.room (Nat.le_of_not_lt last)
      have zero := stored.shape.zero_of_lastSlot end_reached
      obtain ⟨shape, array⟩ :=
        Shape.push_list stored.shape.array full (Kept.push_zero zero buf)
      rw [list, List.length_drop] at held
      have positive : 0 < lastSlot := by decide
      refine ⟨(bufs.drop ARRAY_BUFFER_SIZE).length, _, _, shape, ?_, ?_, ?_, ?_, ?_, ?_, size⟩
      · rw [array, stored.array, taken]
      · rw [dropped, List.drop_left]
        simp [contents, rest_first]
      · rw [dropped, List.length_append]
        omega
      · simp [contents, rest_first, SerializableQueue.slots]
        rfl
      · exact positive
      · rw [dropped, List.length_append, List.length_singleton]
        omega
  · have open' : qu.array.isFull = false := by simpa using full
    have few : bufs.length < ARRAY_BUFFER_SIZE := by
      rw [whole] at full
      omega
    obtain ⟨shape, array⟩ := stored.shape.push_array open' buf
    obtain ⟨rfl, rfl⟩ := stored.shape.unused open'
    have room : (bufs ++ [buf]).length ≤ ARRAY_BUFFER_SIZE := by
      rw [List.length_append, List.length_singleton]
      exact few
    have none_more : (bufs ++ [buf]).drop ARRAY_BUFFER_SIZE = [] := List.drop_eq_nil_of_le room
    refine ⟨0, [], [], shape, ?_, ?_, Nat.zero_le _, rfl, Nat.zero_le _, ?_, size⟩
    · rw [array, stored.array, TmpbufArray.push, List.take_of_length_le (Nat.le_of_lt few),
        List.take_of_length_le room]
    · rw [none_more]
      rfl
    · rw [none_more]
      exact iff_of_true rfl (Nat.zero_le _)

theorem stored_foldl (bufs : List Buffer) {done : List Buffer} {lost : Nat}
    {qu : SerializableQueue} {dead live : List TmpbufListNode}
    (stored : Stored done lost qu dead live) :
    ∃ lost' dead' live',
      Stored (done ++ bufs) lost' (bufs.foldl SerializableQueue.push qu) dead' live' := by
  induction bufs generalizing done lost qu dead live with
  | nil =>
    rw [List.append_nil]
    exact ⟨lost, dead, live, stored⟩
  | cons buf bufs ih =>
    obtain ⟨_, _, _, next⟩ := stored.push buf
    have later := ih next
    rwa [List.append_assoc, List.singleton_append] at later

/-- The first buffers, then those that are not lost, then empty ones. -/
def givenBack (bufs : List Buffer) (lost : Nat) : List Buffer :=
  bufs.take ARRAY_BUFFER_SIZE ++
    ((bufs.drop ARRAY_BUFFER_SIZE).drop lost ++ List.replicate lost [])

theorem length_givenBack {bufs : List Buffer} {lost : Nat}
    (inside : lost ≤ (bufs.drop ARRAY_BUFFER_SIZE).length) :
    (givenBack bufs lost).length = bufs.length := by
  rw [List.length_drop] at inside
  simp only [givenBack, List.length_append, List.length_take, List.length_drop,
    List.length_replicate]
  omega

theorem Stored.returns {bufs : List Buffer} {lost : Nat} {qu : SerializableQueue}
    {dead live : List TmpbufListNode} (stored : Stored bufs lost qu dead live) :
    Returns (givenBack bufs lost) qu := by
  rw [givenBack, ← List.append_assoc]
  apply stored.shape.returns
  rw [remaining, stored.array, stored.list]
  rfl

/-! ## Round trips -/

theorem reads_own_iff (objects : List DataObject) :
    List.Forall₂ DataObject.Reads objects (objects.map DataObject.buffer) ↔
      ∀ o ∈ objects, o.Reads o.buffer := by
  rw [List.forall₂_map_right_iff, List.forall₂_same]

theorem reads_replicate {objects : List DataObject} (stored : ∀ o ∈ objects, o.stored = true)
    (empty : ∀ o ∈ objects, o.value = .string []) :
    List.Forall₂ DataObject.Reads objects (List.replicate objects.length []) := by
  induction objects with
  | nil => exact .nil
  | cons o objects ih =>
    have first := (o.reads_nil_iff (stored o List.mem_cons_self)).mpr (empty o List.mem_cons_self)
    exact .cons first (ih (fun other listed => stored other (List.mem_cons_of_mem _ listed))
      (fun other listed => empty other (List.mem_cons_of_mem _ listed)))

/-- When buffers are lost, each value is made of a later buffer and the last ones of none. -/
theorem empty_of_shifted {objects : List DataObject} {lost : Nat} (some_lost : 0 < lost)
    (stored : ∀ o ∈ objects, o.stored = true)
    (reads : List.Forall₂ DataObject.Reads objects
      ((objects.map DataObject.buffer).drop lost ++ List.replicate lost [])) :
    ∀ o ∈ objects, o.value = .string [] := by
  rw [List.forall₂_iff_get] at reads
  -- from the last value to the first
  have empty (left : Nat) : ∀ i, (inside : i < objects.length) → objects.length ≤ i + left →
      objects[i].value = .string [] := by
    induction left with
    | zero => omega
    | succ left ih =>
      intro i inside near
      have read := reads.2 i inside (by rw [← reads.1]; exact inside)
      rw [← DataObject.reads_nil_iff _ (stored _ (List.getElem_mem inside))]
      by_cases more : lost + i < objects.length
      · have later := DataObject.buffer_of_empty (ih (lost + i) more (by omega))
        have inner : i < ((objects.map DataObject.buffer).drop lost).length := by
          simp only [List.length_drop, List.length_map]
          omega
        rw [List.get_eq_getElem, List.get_eq_getElem, List.getElem_append_left inner,
          List.getElem_drop, List.getElem_map, later] at read
        exact read
      · have outer : ((objects.map DataObject.buffer).drop lost).length ≤ i := by
          simp only [List.length_drop, List.length_map]
          omega
        rw [List.get_eq_getElem, List.get_eq_getElem, List.getElem_append_right outer,
          List.getElem_replicate] at read
        exact read
  intro o listed
  obtain ⟨i, inside, rfl⟩ := List.getElem_of_mem listed
  exact empty objects.length i inside (Nat.le_add_left _ _)

theorem shifted_iff {objects : List DataObject} {lost : Nat} (some_lost : 0 < lost)
    (few : lost ≤ objects.length) (stored : ∀ o ∈ objects, o.stored = true) :
    List.Forall₂ DataObject.Reads objects
        ((objects.map DataObject.buffer).drop lost ++ List.replicate lost []) ↔
      ∀ o ∈ objects, o.value = .string [] := by
  refine ⟨empty_of_shifted some_lost stored, fun empty => ?_⟩
  have none_stored : objects.map DataObject.buffer = List.replicate objects.length [] := by
    rw [List.eq_replicate_iff]
    refine ⟨List.length_map _, fun buf listed => ?_⟩
    obtain ⟨o, member, rfl⟩ := List.mem_map.mp listed
    exact DataObject.buffer_of_empty (empty o member)
  rw [none_stored, List.drop_replicate, List.replicate_append_replicate, Nat.sub_add_cancel few]
  exact reads_replicate stored empty

theorem intact_of_empty {o : DataObject} (empty : o.value = .string []) : o.Reads o.buffer := by
  rw [DataObject.reads_buffer_iff]
  rintro s rfl i inside
  have none_left : s.text = [] := by simpa [DataObject.value] using empty
  simp [none_left] at inside

theorem stored_intact_iff (objects : List DataObject) :
    (∀ o ∈ storedObjects objects, o.Reads o.buffer) ↔
      ∀ s, DataObject.string s ∈ objects → s.Intact := by
  simp only [DataObject.reads_buffer_iff, storedObjects, List.mem_filter]
  constructor
  · intro intact s listed
    exact intact _ ⟨listed, rfl⟩ s rfl
  · rintro intact o ⟨listed, -⟩ s rfl
    exact intact s listed

/-- What the buffers of a fresh queue are good for. -/
theorem reads_iff {objects : List DataObject} {lost : Nat}
    (stored : ∀ o ∈ objects, o.stored = true)
    (few : lost ≤ ((objects.map DataObject.buffer).drop ARRAY_BUFFER_SIZE).length)
    (none_lost : lost = 0 ↔
      ((objects.map DataObject.buffer).drop ARRAY_BUFFER_SIZE).length ≤ lastSlot) :
    List.Forall₂ DataObject.Reads objects (givenBack (objects.map DataObject.buffer) lost) ↔
      (∀ o ∈ objects, o.Reads o.buffer) ∧
        (objects.length ≤ 2 ^ 34 + 1 ∨
          ∀ o ∈ objects.drop ARRAY_BUFFER_SIZE, o.value = .string []) := by
  rw [← List.map_drop, List.length_map] at few none_lost
  rw [List.length_drop, lastSlot_eq] at none_lost
  rw [givenBack]
  rcases Nat.eq_zero_or_pos lost with rfl | some_lost
  · have small : objects.length ≤ 2 ^ 34 + 1 := by
      have all := none_lost.mp rfl
      simp only [ARRAY_BUFFER_SIZE] at all
      omega
    rw [List.drop_zero, List.replicate_zero, List.append_nil, List.take_append_drop, reads_own_iff]
    simp only [small, true_or, and_true]
  · have large : ¬ objects.length ≤ 2 ^ 34 + 1 := by
      intro small
      have none_left := none_lost.mpr (by simp only [ARRAY_BUFFER_SIZE]; omega)
      omega
    have later_stored : ∀ o ∈ objects.drop ARRAY_BUFFER_SIZE, o.stored = true :=
      fun o listed => stored o (List.mem_of_mem_drop listed)
    rw [← List.map_take, ← List.map_drop]
    simp only [large, false_or]
    constructor
    · intro reads
      have firsts := List.forall₂_take_append _ _ _ reads
      have later := List.forall₂_drop_append _ _ _ reads
      have whole : (objects.take ARRAY_BUFFER_SIZE).length = ARRAY_BUFFER_SIZE := by
        rw [List.length_take, ARRAY_BUFFER_SIZE]
        omega
      rw [List.length_map, whole] at firsts later
      have empty := (shifted_iff some_lost few later_stored).mp later
      refine ⟨fun o listed => ?_, empty⟩
      rw [← List.take_append_drop ARRAY_BUFFER_SIZE objects, List.mem_append] at listed
      rcases listed with first | last
      · exact (reads_own_iff _).mp firsts o first
      · exact intact_of_empty (empty o last)
    · rintro ⟨intact, empty⟩
      have firsts := (reads_own_iff (objects.take ARRAY_BUFFER_SIZE)).mpr
        fun o listed => intact o (List.mem_of_mem_take listed)
      have later := (shifted_iff some_lost few later_stored).mpr empty
      have joined := List.rel_append firsts later
      simp only [List.take_append_drop] at joined
      exact joined

/-- Values that are dumped into a fresh queue are loaded from it, and leave it empty, exactly when
the memory from the member `str` of each string on holds the string, and either the number of the
nodes of the queue does not wrap or all that the wrap loses are empty strings. -/
theorem dump_load_iff (objects : List DataObject) :
    (∃ qu, loadAll (objects.map DataObject.kind) (dumpAll objects {}) =
        some (objects.map DataObject.value, qu) ∧ qu.empty = true) ↔
      (∀ s, DataObject.string s ∈ objects → s.Intact) ∧
        ((storedObjects objects).length ≤ 2 ^ 34 + 1 ∨
          ∀ o ∈ (storedObjects objects).drop ARRAY_BUFFER_SIZE, o.value = .string []) := by
  obtain ⟨lost, dead, live, kept⟩ :=
    stored_foldl ((storedObjects objects).map DataObject.buffer) stored_new
  rw [List.nil_append] at kept
  have dumped : dumpAll objects {} =
      ((storedObjects objects).map DataObject.buffer).foldl SerializableQueue.push {} :=
    dumpAll_eq objects {}
  have stored : ∀ o ∈ storedObjects objects, o.stored = true :=
    fun o listed => (List.mem_filter.mp listed).2
  have count := length_givenBack kept.inside
  rw [List.length_map] at count
  rw [← stored_intact_iff, ← reads_iff stored kept.inside kept.none_lost, dumped,
    ← loadAll_iff objects kept.returns count]
  constructor
  · rintro ⟨qu, loaded, -⟩
    exact ⟨qu, loaded⟩
  · rintro ⟨qu, loaded⟩
    refine ⟨qu, loaded, ?_⟩
    have size := loadAll_size objects loaded
    rw [kept.size, List.length_map] at size
    rw [SerializableQueue.empty, beq_iff_eq]
    exact UInt32.add_eq_right.mp size

/-- A string of one byte whose object begins with the byte 0x10, the lowest of its pointer. -/
def pointerString : List DataObject := [.string ⟨[0x61], fun _ => 0x10⟩]

/-- The string comes back as the first byte of its own pointer. -/
theorem string_dumps_pointer :
    (∃ qu, loadAll (pointerString.map DataObject.kind) (dumpAll pointerString {}) =
        some ([.string [0x10]], qu)) ∧
      pointerString.map DataObject.value = [.string [0x61]] :=
  ⟨⟨_, rfl⟩, rfl⟩

end Hiactor
