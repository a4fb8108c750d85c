import Hiactor.Net.Proofs.QueueRuns

/-!
# Moved queues

A moved queue does what the original would have done exactly when the cursor of the array and the
number of nodes, which the move does not take over, are 0. With a cursor it returns slots again that
were popped. With nodes its next push begins a new list: at the latest the push with which the
original begins one as well, since its number of nodes wraps, tells the two apart.
-/

namespace Hiactor

open Lib

namespace SerializableQueue

open TmpbufLinkedList

variable {q r : SerializableQueue} {dead live : List TmpbufListNode} {buf : Buffer}

/-- The queues cannot be told apart. -/
def Agree (q r : SerializableQueue) : Prop := ∀ ops, q.outputs ops = r.outputs ops

theorem map_cons_inj {first second : QueueOutput} {one two : Option (List QueueOutput)}
    (same : one.map (first :: ·) = two.map (second :: ·)) (some_one : one.isSome = true) :
    first = second ∧ one = two := by
  obtain ⟨outs, rfl⟩ := Option.isSome_iff_exists.mp some_one
  cases two with
  | none => cases same
  | some outs' =>
    obtain ⟨rfl, rfl⟩ := List.cons.inj (Option.some.inj same)
    exact ⟨rfl, rfl⟩

theorem map_cons_cancel {first : QueueOutput} {one two : Option (List QueueOutput)}
    (same : one.map (first :: ·) = two.map (first :: ·)) : one = two :=
  Option.map_injective (List.cons_injective) same

namespace Agree

theorem push (agree : q.Agree r) (buf : Buffer) :
    (q.push buf).Agree (r.push buf) ∧ (q.push buf).output none = (r.push buf).output none := by
  have output : (q.push buf).output none = (r.push buf).output none :=
    (map_cons_inj (agree [.push buf]) rfl).1
  refine ⟨fun ops => ?_, output⟩
  have later := agree (.push buf :: ops)
  rw [outputs, outputs, output] at later
  exact map_cons_cancel later

theorem pop (agree : q.Agree r) (some_q : q.empty = false) (some_r : r.empty = false) :
    q.pop.1 = r.pop.1 ∧ q.pop.2.Agree r.pop.2 := by
  have output : q.pop.2.output (some q.pop.1) = r.pop.2.output (some r.pop.1) := by
    have one := agree [.pop]
    simp only [outputs, some_q, some_r, Bool.false_eq_true, if_false] at one
    exact (map_cons_inj one rfl).1
  refine ⟨Option.some.inj (congrArg QueueOutput.popped output), fun ops => ?_⟩
  have later := agree (.pop :: ops)
  simp only [outputs, some_q, some_r, Bool.false_eq_true, if_false, output] at later
  exact map_cons_cancel later

theorem bufferSize (agree : q.Agree r) (buf : Buffer) :
    (q.push buf).getBufferSize = (r.push buf).getBufferSize :=
  congrArg QueueOutput.bufferSize (agree.push buf).2

end Agree

/-! ## Popped slots -/

/-- The next pops return these buffers. -/
def Returns : List Buffer → SerializableQueue → Prop
  | [], _ => True
  | buf :: bufs, q => q.pop.1 = buf ∧ Returns bufs q.pop.2

/-- A queue with nothing left returns empty buffers. -/
theorem Shape.returns_none (shape : q.Shape dead live) (remains : q.remaining live = [])
    (count : Nat) : Returns (List.replicate count []) q := by
  induction count generalizing q dead live with
  | zero => trivial
  | succ count ih =>
    obtain ⟨none_left, none_listed⟩ := List.append_eq_nil_iff.mp remains
    have drained := (TmpbufArray.empty_iff shape.array).mpr none_left
    obtain ⟨popped, kept⟩ := shape.list.pop_drained none_listed
    obtain ⟨result, shape', array⟩ := shape.pop_list drained kept
    refine ⟨result.trans popped, ih shape' ?_⟩
    rw [remaining, array, none_left]
    rfl

theorem Shape.returns {bufs : List Buffer} (shape : q.Shape dead live)
    (remains : q.remaining live = bufs) (count : Nat) :
    Returns (bufs ++ List.replicate count []) q := by
  induction bufs generalizing q dead live with
  | nil => exact shape.returns_none remains count
  | cons first bufs ih =>
    by_cases drained : q.array.empty = true
    · have none_left := (TmpbufArray.empty_iff shape.array).mp drained
      rw [remaining, none_left, List.nil_append] at remains
      obtain ⟨popped, gone, node, nodes, -, -, kept, others⟩ := shape.list.pop remains
      obtain ⟨result, shape', array⟩ := shape.pop_list drained kept
      refine ⟨result.trans popped, ih shape' ?_⟩
      rw [remaining, array, none_left, others, List.nil_append]
    · have some_array : q.array.empty = false := by simpa using drained
      obtain ⟨result, shape', array⟩ := shape.pop_array some_array
      obtain ⟨buf, others, rest⟩ : ∃ buf others, q.array.rest = buf :: others := by
        apply List.exists_cons_of_ne_nil
        rwa [ne_eq, ← TmpbufArray.empty_iff shape.array]
      obtain ⟨popped, rest', -⟩ := TmpbufArray.pop_spec shape.array rest
      rw [remaining, rest, List.cons_append] at remains
      obtain ⟨rfl, remains'⟩ := List.cons.inj remains
      refine ⟨result.trans popped, ih shape' ?_⟩
      rw [remaining, array, rest', remains']

theorem empty_of_counted (some_left : 0 < q.size.toNat) : q.empty = false := by
  rw [SerializableQueue.empty, beq_eq_false_iff_ne]
  intro zero
  rw [zero] at some_left
  exact absurd some_left (Nat.lt_irrefl 0)

theorem size_pop_toNat (some_left : 0 < q.size.toNat) :
    q.pop.2.size.toNat = q.size.toNat - 1 := by
  have one : (1 : UInt32) ≤ q.size := UInt32.le_iff_toNat_le.mpr some_left
  rw [size_pop, UInt32.toNat_sub_of_le _ _ one]
  rfl

/-- Queues that cannot be told apart return the same buffers as long as `size` allows. -/
theorem Agree.returns {firsts seconds : List Buffer} {first second : Buffer} {i : Nat}
    (agree : q.Agree r) (same : q.size = r.size) (few : i < q.size.toNat)
    (returns_q : Returns firsts q) (returns_r : Returns seconds r)
    (at_q : firsts[i]? = some first) (at_r : seconds[i]? = some second) : first = second := by
  induction firsts generalizing q r seconds i with
  | nil => cases at_q
  | cons one firsts ih =>
    cases seconds with
    | nil => cases at_r
    | cons two seconds =>
      have some_left : 0 < q.size.toNat := Nat.lt_of_le_of_lt (Nat.zero_le i) few
      obtain ⟨popped, later⟩ :=
        agree.pop (empty_of_counted some_left) (empty_of_counted (same ▸ some_left))
      cases i with
      | zero =>
        obtain rfl := Option.some.inj at_q
        obtain rfl := Option.some.inj at_r
        rw [← returns_q.1, ← returns_r.1, popped]
      | succ i =>
        have fewer : i < q.pop.2.size.toNat := by
          rw [size_pop_toNat some_left]
          omega
        exact ih later (by rw [size_pop, size_pop, same]) fewer returns_q.2 returns_r.2 at_q at_r

/-- Pushes of one buffer over and over. -/
def pushes (buf : Buffer) : Nat → SerializableQueue → SerializableQueue
  | 0, q => q
  | count + 1, q => pushes buf count (q.push buf)

theorem Agree.pushes (agree : q.Agree r) (buf : Buffer) (count : Nat) :
    (SerializableQueue.pushes buf count q).Agree (SerializableQueue.pushes buf count r) := by
  induction count generalizing q r with
  | zero => exact agree
  | succ count ih => exact ih (agree.push buf).1

theorem size_pushes (buf : Buffer) (count : Nat) :
    (pushes buf count q).size = q.size + UInt32.ofNat count := by
  induction count generalizing q with
  | zero => exact (UInt32.add_zero _).symm
  | succ count ih =>
    rw [pushes, ih, size_push, UInt32.add_assoc, UInt32.add_comm 1, ← UInt32.ofNat_one,
      ← UInt32.ofNat_add]

namespace Shape

theorem push_room (shape : q.Shape dead live) (room : live.length < 2 ^ 32) (buf : Buffer) :
    ∃ live', (q.push buf).Shape dead live' ∧
      (q.push buf).remaining live' = q.remaining live ++ [buf] ∧
      live'.length ≤ live.length + 1 := by
  by_cases full : q.array.isFull = true
  · obtain ⟨live', kept, pushed⟩ := shape.list.push room buf
    obtain ⟨shape', array⟩ := push_list shape.array full kept
    have length := pushed.length
    refine ⟨live', shape', ?_, by omega⟩
    rw [remaining, array, pushed.contents shape.list.links, ← List.append_assoc]
    rfl
  · have open' : q.array.isFull = false := by simpa using full
    obtain ⟨shape', array⟩ := shape.push_array open' buf
    obtain ⟨rfl, rfl⟩ := shape.unused open'
    refine ⟨[], shape', ?_, by simp⟩
    simp [remaining, array, TmpbufArray.rest_push shape.array, contents]

theorem pushes_room (count : Nat) (shape : q.Shape dead live)
    (room : live.length + count ≤ 2 ^ 32) (buf : Buffer) :
    ∃ live', (pushes buf count q).Shape dead live' ∧
      (pushes buf count q).remaining live' = q.remaining live ++ List.replicate count buf := by
  induction count generalizing q live with
  | zero => exact ⟨live, shape, (List.append_nil _).symm⟩
  | succ count ih =>
    obtain ⟨live', shape', remains, more⟩ := shape.push_room (by omega) buf
    obtain ⟨live'', shape'', remains'⟩ := ih shape' (by omega)
    refine ⟨live'', shape'', ?_⟩
    rw [pushes, remains', remains, List.append_assoc, List.singleton_append, List.replicate_succ]

/-- A push to a queue whose list counts no nodes loses the nodes that the list has. -/
theorem push_zero (shape : q.Shape dead live) (zero : q.list.nodeCount = 0) (buf : Buffer) :
    ∃ dead' live', (q.push buf).Shape dead' live' ∧
      (q.push buf).remaining live' = q.array.rest ++ [buf] ∧ live'.length ≤ 1 := by
  by_cases full : q.array.isFull = true
  · obtain ⟨shape', array⟩ := push_list shape.array full (Kept.push_zero zero buf)
    refine ⟨_, _, shape', ?_, Nat.le_refl 1⟩
    rw [remaining, array]
    simp [contents, rest_first]
  · have open' : q.array.isFull = false := by simpa using full
    obtain ⟨shape', array⟩ := shape.push_array open' buf
    obtain ⟨rfl, rfl⟩ := shape.unused open'
    refine ⟨[], [], shape', ?_, by simp⟩
    simp [remaining, array, TmpbufArray.rest_push shape.array, contents]

theorem pushes_zero {count : Nat} (shape : q.Shape dead live) (zero : q.list.nodeCount = 0)
    (room : count + 1 ≤ 2 ^ 32) (buf : Buffer) :
    Returns (q.array.rest ++ List.replicate (count + 1) buf) (pushes buf (count + 1) q) := by
  obtain ⟨dead', live', shape', remains, few⟩ := shape.push_zero zero buf
  obtain ⟨live'', shape'', remains'⟩ := shape'.pushes_room count (by omega) buf
  rw [remains, List.append_assoc, List.singleton_append, ← List.replicate_succ] at remains'
  have returned := shape''.returns remains' 0
  rw [List.replicate_zero, List.append_nil] at returned
  exact returned

/-- A move takes over everything but the cursor when no nodes are counted. -/
theorem move_zero (shape : q.Shape dead live) (zero : q.list.nodeCount = 0) :
    q.move.Shape dead live ∧ q.move.list = q.list := by
  have list : q.move.list = q.list := by
    rw [move, TmpbufLinkedList.move, ← zero]
  refine ⟨⟨⟨Nat.zero_le _, shape.array.room⟩, ?_, fun open' => ?_⟩, list⟩
  · rw [list]
    exact shape.list
  · rw [list]
    exact shape.overflow open'

end Shape

/-- A buffer that is longer than all others. -/
theorem exists_longer (bufs : List Buffer) : ∃ buf : Buffer, buf ∉ bufs := by
  refine ⟨List.replicate (bufs.flatten.length + 1) 0, fun listed => ?_⟩
  have short := (List.sublist_flatten_of_mem listed).length_le
  rw [List.length_replicate] at short
  omega

/-- Four or eight pushes leave enough buffers for the pops of a whole array. -/
theorem exists_count (size : UInt32) :
    ∃ count, count + 1 ≤ 2 ^ 32 ∧
      ARRAY_BUFFER_SIZE ≤ (size + UInt32.ofNat (count + 1)).toNat := by
  have bound := size.toNat_lt
  by_cases room : size.toNat + 4 < 2 ^ 32
  · refine ⟨3, by decide, ?_⟩
    have sum : (size + UInt32.ofNat (3 + 1)).toNat = size.toNat + 4 := by
      rw [UInt32.toNat_add]
      exact Nat.mod_eq_of_lt room
    rw [sum]
    exact Nat.le_add_left 4 _
  · refine ⟨7, by decide, ?_⟩
    have sum : (size + UInt32.ofNat (7 + 1)).toNat = size.toNat + 8 - 2 ^ 32 := by
      rw [UInt32.toNat_add]
      exact (by omega : (size.toNat + 8) % 2 ^ 32 = size.toNat + 8 - 2 ^ 32)
    rw [sum, ARRAY_BUFFER_SIZE]
    omega

/-- A moved queue returns slots again that were popped. -/
theorem Shape.not_agree_of_cursor (shape : q.Shape dead live) (zero : q.list.nodeCount = 0)
    (begun : q.array.curIdx ≠ 0) : ¬ q.move.Agree q := by
  intro agree
  obtain ⟨buf, new⟩ := exists_longer q.array.buffers
  obtain ⟨moved, list⟩ := shape.move_zero zero
  obtain ⟨count, few, counted⟩ := exists_count q.size
  have rest : q.array.rest.length = q.array.buffers.length - q.array.curIdx := List.length_drop
  have inside := shape.array.cur
  have slot : q.array.rest.length < q.array.buffers.length := by omega
  have fewer : q.array.rest.length < (pushes buf (count + 1) q.move).size.toNat := by
    rw [size_pushes]
    exact Nat.lt_of_lt_of_le slot (Nat.le_trans shape.array.room counted)
  have old : (q.move.array.rest ++ List.replicate (count + 1) buf)[q.array.rest.length]? =
      some q.array.buffers[q.array.rest.length] := by
    have all : q.move.array.rest = q.array.buffers := rfl
    rw [all, List.getElem?_append_left slot]
    exact List.getElem?_eq_getElem slot
  have pushed : (q.array.rest ++ List.replicate (count + 1) buf)[q.array.rest.length]? =
      some buf := by
    rw [List.getElem?_append_right (Nat.le_refl _), Nat.sub_self]
    rfl
  have same := (agree.pushes buf (count + 1)).returns (by rw [size_pushes, size_pushes]; rfl) fewer
    (moved.pushes_zero (by rw [list, zero]) few buf) (shape.pushes_zero zero few buf) old pushed
  exact new (same ▸ List.getElem_mem slot)

/-! ## Lost nodes -/

/-- The buffers that were pushed to the nodes. -/
def slots (live : List TmpbufListNode) : Nat := (live.map (·.bufferArray.buffers.length)).sum

/-- The number of pushes with which the number of nodes reaches 2^32. -/
def lastSlot : Nat := ARRAY_BUFFER_SIZE * (2 ^ 32 - 1) + 1

theorem lastSlot_eq : lastSlot = 17179869181 := rfl

theorem Pushed.slots {start : Nat} {live' : List TmpbufListNode}
    (pushed : Pushed start buf live live') :
    SerializableQueue.slots live' = SerializableQueue.slots live + 1 := by
  cases pushed with
  | first => simp [SerializableQueue.slots, TmpbufArray.push]
  | room open' => simp [SerializableQueue.slots, TmpbufArray.push]; omega
  | next full => simp [SerializableQueue.slots, TmpbufArray.push]; omega

/-- The slots of the nodes give the number of the nodes. -/
theorem slots_bounds {i : Nat} (packed : Packed live) (links : Links i live) :
    slots live ≤ ARRAY_BUFFER_SIZE * live.length ∧
      ARRAY_BUFFER_SIZE * live.length < slots live + ARRAY_BUFFER_SIZE := by
  induction live generalizing i with
  | nil => simp [slots, ARRAY_BUFFER_SIZE]
  | cons node nodes ih =>
    obtain ⟨filled, full, fresh, rest⟩ := packed
    obtain ⟨-, valid, links⟩ := links
    have some_buffer : 0 < node.bufferArray.buffers.length := List.length_pos_iff.mpr filled
    have room := valid.room
    have later := ih rest links
    have split : slots (node :: nodes) = node.bufferArray.buffers.length + slots nodes := by
      simp [slots]
    rw [split]
    cases nodes with
    | nil =>
      simp only [slots, ARRAY_BUFFER_SIZE, List.length_cons, List.length_nil, List.map_nil,
        List.sum_nil] at room ⊢
      omega
    | cons second nodes =>
      have whole : node.bufferArray.buffers.length = ARRAY_BUFFER_SIZE := by
        simpa [TmpbufArray.isFull] using full (by simp)
      simp only [ARRAY_BUFFER_SIZE, List.length_cons] at later whole ⊢
      omega

namespace Shape

theorem room_of_slots (shape : q.Shape dead live) (more : slots live < lastSlot) :
    live.length < 2 ^ 32 := by
  have bounds := slots_bounds shape.list.packed shape.list.links
  simp only [ARRAY_BUFFER_SIZE] at bounds
  rw [lastSlot_eq] at more
  omega

theorem slots_lt (shape : q.Shape dead live) (some_nodes : q.list.nodeCount ≠ 0) :
    0 < slots live ∧ slots live < lastSlot := by
  have bounds := slots_bounds shape.list.packed shape.list.links
  have few := shape.list.few
  have count := shape.list.count
  have not_none : live.length ≠ 0 := by
    intro none_left
    rw [count, none_left] at some_nodes
    exact some_nodes rfl
  have not_all : live.length ≠ 2 ^ 32 := by
    intro all
    rw [count, all] at some_nodes
    exact some_nodes rfl
  simp only [ARRAY_BUFFER_SIZE] at bounds
  rw [lastSlot_eq]
  omega

theorem zero_of_lastSlot (shape : q.Shape dead live) (last : slots live = lastSlot) :
    q.list.nodeCount = 0 := by
  have bounds := slots_bounds shape.list.packed shape.list.links
  have few := shape.list.few
  have whole : live.length = 2 ^ 32 := by
    simp only [last, lastSlot_eq, ARRAY_BUFFER_SIZE] at bounds
    omega
  rw [shape.list.count, whole]
  rfl

/-- Pushes to the list, up to the one with which its number of nodes wraps. -/
theorem pushes_list (count : Nat) (shape : q.Shape dead live) (full : q.array.isFull = true)
    (more : slots live + count ≤ lastSlot) (buf : Buffer) :
    ∃ live', (pushes buf count q).Shape dead live' ∧ (pushes buf count q).array = q.array ∧
      slots live' = slots live + count ∧
      contents live' = contents live ++ List.replicate count buf := by
  induction count generalizing q live with
  | zero => exact ⟨live, shape, rfl, rfl, (List.append_nil _).symm⟩
  | succ count ih =>
    obtain ⟨live', kept, pushed⟩ := shape.list.push (shape.room_of_slots (by omega)) buf
    obtain ⟨shape', array⟩ := push_list shape.array full kept
    have one := Pushed.slots pushed
    obtain ⟨live'', shape'', array', slots'', contents''⟩ :=
      ih shape' (by rw [array]; exact full) (by omega)
    refine ⟨live'', shape'', array'.trans array, by omega, ?_⟩
    rw [contents'', pushed.contents shape.list.links, List.append_assoc, List.singleton_append,
      List.replicate_succ]

end Shape

theorem Shape.getBufferSize (shape : q.Shape dead live) :
    q.getBufferSize = q.array.getBufferSize + UInt32.ofNat (contents live).flatten.length := by
  rw [SerializableQueue.getBufferSize, shape.list.getBufferSize]

/-- When the original begins a new list, the moved queue still has the first buffer that was
pushed to it. -/
theorem Shape.bufferSize_of_agree (shape : q.Shape dead live) (full : q.array.isFull = true)
    (some_nodes : q.list.nodeCount ≠ 0) (agree : q.move.Agree q) (buf : Buffer) :
    q.array.move.getBufferSize + UInt32.ofNat buf.length = q.array.getBufferSize := by
  obtain ⟨some_slot, last⟩ := shape.slots_lt some_nodes
  -- the first push appends to the list of the original and begins one in the moved queue
  obtain ⟨live', kept, pushed⟩ := shape.list.push (shape.room_of_slots last) buf
  obtain ⟨shape', array⟩ := push_list shape.array full kept
  have slots' := Pushed.slots pushed
  have valid : q.move.array.Valid := ⟨Nat.zero_le _, shape.array.room⟩
  have begins : (q.move.list.push buf).Kept q.move.list.heap
      [{ bufferArray := ({} : TmpbufArray).push buf }] := Kept.push_zero rfl buf
  obtain ⟨moved, moved_array⟩ := push_list valid full begins
  have one : slots [{ bufferArray := ({} : TmpbufArray).push buf }] = 1 := rfl
  -- empty buffers fill up the list of the original
  obtain ⟨count, filled⟩ : ∃ count, slots live' + count = lastSlot :=
    ⟨lastSlot - slots live', by omega⟩
  have full' : (q.push buf).array.isFull = true := by rw [array]; exact full
  have moved_full : (q.move.push buf).array.isFull = true := by rw [moved_array]; exact full
  obtain ⟨live'', shape'', array'', slots'', -⟩ :=
    shape'.pushes_list count full' (Nat.le_of_eq filled) []
  have zero := shape''.zero_of_lastSlot (slots''.trans filled)
  have full'' : (pushes [] count (q.push buf)).array.isFull = true := by rw [array'']; exact full'
  obtain ⟨ended, ended_array⟩ := push_list shape''.array full'' (Kept.push_zero zero [])
  obtain ⟨moved_live, moved'', moved_array'', moved_slots, moved_contents⟩ :=
    moved.pushes_list count moved_full (by omega) []
  obtain ⟨last_live, last_kept, last_pushed⟩ :=
    moved''.list.push (moved''.room_of_slots (by omega)) []
  have moved_full'' : (pushes [] count (q.move.push buf)).array.isFull = true := by
    rw [moved_array'']
    exact moved_full
  obtain ⟨moved_ended, moved_ended_array⟩ := push_list moved''.array moved_full'' last_kept
  -- the sizes of what they hold now differ
  have sizes := (((agree.push buf).1.pushes [] count)).bufferSize []
  rw [moved_ended.getBufferSize, ended.getBufferSize, moved_ended_array, moved_array'', moved_array,
    ended_array, array'', array, last_pushed.contents moved''.list.links, moved_contents] at sizes
  simpa [contents, rest_first, SerializableQueue.move] using sizes

/-- A moved queue begins a new list with the next push. -/
theorem Shape.not_agree_of_nodes (shape : q.Shape dead live) (some_nodes : q.list.nodeCount ≠ 0) :
    ¬ q.move.Agree q := by
  intro agree
  have full : q.array.isFull = true := by
    by_contra open'
    rw [shape.overflow (by simpa using open')] at some_nodes
    exact some_nodes rfl
  have none_more := shape.bufferSize_of_agree full some_nodes agree []
  have one_more := shape.bufferSize_of_agree full some_nodes agree [0]
  have same := none_more.trans one_more.symm
  rw [UInt32.add_right_inj] at same
  exact absurd same (by decide)

/-- A moved queue does what the original would have done exactly when there is nothing that the move
does not take over. -/
theorem Shape.move_agree_iff (shape : q.Shape dead live) :
    q.move.Agree q ↔ q.array.curIdx = 0 ∧ q.list.nodeCount = 0 := by
  constructor
  · intro agree
    have zero : q.list.nodeCount = 0 := by
      by_contra some_nodes
      exact shape.not_agree_of_nodes some_nodes agree
    refine ⟨?_, zero⟩
    by_contra begun
    exact shape.not_agree_of_cursor zero begun agree
  · rintro ⟨start, zero⟩
    have same : q.move = q := by
      rw [SerializableQueue.move, TmpbufArray.move, TmpbufLinkedList.move, ← start, ← zero]
    rw [same]
    exact fun _ => rfl

end SerializableQueue

namespace QueueUse

open TmpbufLinkedList SerializableQueue

variable {u : QueueUse} {ops : List QueueOp} {dead live : List TmpbufListNode}

/-- The move takes everything over as long as all buffers ever pushed are in the array. -/
theorem Fifo.untouched_iff (fifo : u.Fifo dead live) :
    u.queue.array.curIdx = 0 ∧ u.queue.list.nodeCount = 0 ↔
      u.popped = [] ∧ u.pushed.length ≤ ARRAY_BUFFER_SIZE := by
  have total := fifo.total
  have left := fifo.left
  have counted := fifo.shape.list.counted fifo.room
  have held := congrArg List.length fifo.order
  have inside := fifo.shape.array.cur
  have room := fifo.shape.array.room
  have rest : u.queue.array.rest.length =
      u.queue.array.buffers.length - u.queue.array.curIdx := List.length_drop
  simp only [List.length_append, remaining] at held
  constructor
  · rintro ⟨start, zero⟩
    obtain rfl := counted.mp zero
    have none_dead : dead = [] := by
      by_contra some_dead
      exact absurd (left some_dead) (Nat.lt_irrefl 0)
    rw [none_dead] at total
    simp only [begun, contents, List.length_nil, List.flatMap_nil] at total held
    refine ⟨List.length_eq_zero_iff.mp (by omega), by omega⟩
  · rintro ⟨none_popped, few⟩
    rw [none_popped, List.length_nil] at total held
    have unbegun : begun live = 0 := by omega
    refine ⟨by omega, counted.mpr ?_⟩
    by_contra some_live
    have full : u.queue.array.isFull = true := by
      by_contra open'
      exact some_live (fifo.shape.unused (by simpa using open')).2
    have packed := fifo.shape.list.packed.length_le fifo.shape.list.links
    have some_length := List.length_pos_iff.mpr some_live
    rw [TmpbufArray.isFull, beq_iff_eq] at full
    simp only [ARRAY_BUFFER_SIZE] at full few packed
    omega

/-- A moved queue behaves as the original would have exactly when the cursor of the array and the
number of nodes are 0. Unless 2^32 buffers are in the queue at some time, these are the states in
which nothing was popped and all buffers are in the array. -/
theorem move_agrees_iff (ran : run step {} ops = some u) :
    ((∀ later, u.queue.move.outputs later = u.queue.outputs later) ↔
        u.queue.array.curIdx = 0 ∧ u.queue.list.nodeCount = 0) ∧
      (StepsMeet step Counts {} ops →
        ((∀ later, u.queue.move.outputs later = u.queue.outputs later) ↔
          u.popped = [] ∧ u.pushed.length ≤ ARRAY_BUFFER_SIZE)) := by
  obtain ⟨dead, live, shape⟩ := shape_run ran
  refine ⟨shape.move_agree_iff, fun counts => ?_⟩
  obtain ⟨_, _, fifo⟩ := fifo_run ran counts
  exact shape.move_agree_iff.trans fifo.untouched_iff

theorem move_agrees_after_two :
    (∃ u, run step {} [.push [1], .push [2]] = some u ∧
      ∀ later, u.queue.move.outputs later = u.queue.outputs later) ∧
    ∃ u, run step {} [.push [1], .push [2], .pop] = some u ∧
      ¬∀ later, u.queue.move.outputs later = u.queue.outputs later := by
  obtain ⟨u, ran, none_popped, few⟩ :
      ∃ u, run step {} [.push [1], .push [2]] = some u ∧ u.popped = [] ∧ u.pushed.length = 2 :=
    ⟨_, rfl, rfl, rfl⟩
  obtain ⟨u', ran', popped⟩ :
      ∃ u, run step {} [.push [1], .push [2], .pop] = some u ∧ u.popped = [[1]] := ⟨_, rfl, rfl⟩
  refine ⟨⟨u, ran, ((move_agrees_iff ran).2 (by decide)).mpr ?_⟩, u', ran', ?_⟩
  · rw [none_popped, few]
    decide
  · rw [(move_agrees_iff ran').2 (by decide), popped]
    simp

/-- After one of two buffers is popped, the moved queue returns the slot of the popped one. -/
theorem move_pops_again :
    ∃ u, run step {} [.push [1], .push [2], .pop] = some u ∧ u.queue.empty = false ∧
      u.queue.pop.1 = [2] ∧ u.queue.move.pop.1 = [] ∧
      u.queue.move.outputs [.pop] ≠ u.queue.outputs [.pop] :=
  ⟨_, rfl, by decide⟩

end QueueUse

end Hiactor
