import Hiactor.Lib.Run
import Hiactor.Net.Proofs.SerializableQueue

/-!
# Runs of a queue of buffers

In every run of pushes and pops the nodes that the head of the list leads to are packed: only the
last one may have room, and only the first one is begun. As long as the number of buffers fits in
32 bits, the queue returns them in order. Before a pop `peek` looks at the node that the pop may
have to leave, and a moved queue has lost the cursor of its array and the number of its nodes.
-/

namespace Hiactor

open Lib

namespace TmpbufLinkedList

variable {l : TmpbufLinkedList} {dead live live' : List TmpbufListNode}

/-- Only the last node may have room, and only the first one is begun. -/
def Packed : List TmpbufListNode → Prop
  | [] => True
  | node :: nodes =>
    node.bufferArray.buffers ≠ [] ∧ (nodes ≠ [] → node.bufferArray.isFull = true) ∧
      (∀ later ∈ nodes, later.bufferArray.curIdx = 0) ∧ Packed nodes

/-- How many buffers were popped from the first node. -/
def begun : List TmpbufListNode → Nat
  | [] => 0
  | node :: _ => node.bufferArray.curIdx

theorem Packed.last_filled {nodes : List TmpbufListNode} {last : TmpbufListNode}
    (packed : Packed (nodes ++ [last])) : last.bufferArray.buffers ≠ [] := by
  induction nodes with
  | nil => exact packed.1
  | cons node nodes ih => exact ih packed.2.2.2

theorem packed_first (buf : Buffer) :
    Packed [{ bufferArray := ({} : TmpbufArray).push buf }] :=
  ⟨by simp [TmpbufArray.push], fun more => absurd rfl more, fun _ => nofun, trivial⟩

/-- The last node of a packed list is replaced by nodes that are packed after it. -/
theorem Packed.append {nodes ends ends' : List TmpbufListNode} (packed : Packed (nodes ++ ends))
    (some_end : ends ≠ []) (packed' : Packed ends')
    (unread : ∀ node ∈ ends', node.bufferArray.curIdx = 0 ∨
      ∃ old ∈ ends, node.bufferArray.curIdx = old.bufferArray.curIdx) :
    Packed (nodes ++ ends') := by
  induction nodes with
  | nil => exact packed'
  | cons node nodes ih =>
    obtain ⟨filled, full, fresh, rest⟩ := packed
    refine ⟨filled, fun _ => full (by simp [some_end]), ?_, ih rest⟩
    intro later member
    rcases List.mem_append.mp member with kept | ended
    · exact fresh later (List.mem_append_left _ kept)
    · rcases unread later ended with zero | ⟨old, listed, same⟩
      · exact zero
      · rw [same]
        exact fresh old (List.mem_append_right _ listed)

theorem Pushed.packed {start : Nat} {buf : Buffer} (pushed : Pushed start buf live live')
    (packed : Packed live) : Packed live' := by
  cases pushed with
  | first => exact packed_first buf
  | room open' =>
    apply packed.append (by simp)
    · exact ⟨by simp [TmpbufArray.push], fun more => absurd rfl more, fun _ => nofun, trivial⟩
    · rintro node (_ | ⟨_, ⟨⟩⟩)
      exact .inr ⟨_, List.mem_singleton_self _, rfl⟩
  | next full =>
    apply packed.append (by simp)
    · refine ⟨packed.last_filled, fun _ => full, ?_, packed_first buf⟩
      rintro node (_ | ⟨_, ⟨⟩⟩)
      rfl
    · rintro node (_ | ⟨_, (_ | ⟨_, ⟨⟩⟩)⟩)
      · exact .inr ⟨_, List.mem_singleton_self _, rfl⟩
      · exact .inl rfl

theorem Pushed.begun {start : Nat} {buf : Buffer} (pushed : Pushed start buf live live') :
    begun live' = begun live := by
  cases pushed with
  | first => rfl
  | @room nodes last open' => cases nodes <;> rfl
  | @next nodes last full => cases nodes <;> rfl

theorem Packed.suffix {gone nodes : List TmpbufListNode} (packed : Packed (gone ++ nodes)) :
    Packed nodes := by
  induction gone with
  | nil => exact packed
  | cons node gone ih => exact ih packed.2.2.2

theorem Packed.pop {node : TmpbufListNode} {nodes : List TmpbufListNode}
    (packed : Packed (node :: nodes)) :
    Packed ({ node with bufferArray := node.bufferArray.pop.2 } :: nodes) := by
  obtain ⟨filled, full, fresh, rest⟩ := packed
  refine ⟨?_, ?_, fresh, rest⟩
  · intro emptied
    exact filled (by simpa [TmpbufArray.pop] using emptied)
  · intro more
    simpa [TmpbufArray.pop, TmpbufArray.isFull] using full more

/-- A pop leaves at most one node, whose buffers are all popped. -/
theorem Packed.gone {gone nodes : List TmpbufListNode} {node : TmpbufListNode}
    (packed : Packed (gone ++ node :: nodes))
    (drained : ∀ other ∈ gone, other.bufferArray.empty = true) :
    gone = [] ∨
      ∃ first, gone = [first] ∧ first.bufferArray.curIdx = ARRAY_BUFFER_SIZE ∧
        node.bufferArray.curIdx = 0 := by
  cases gone with
  | nil => exact .inl rfl
  | cons first others =>
    obtain ⟨-, full, fresh, rest⟩ := packed
    cases others with
    | nil =>
      refine .inr ⟨first, rfl, ?_, fresh node (by simp)⟩
      have exhausted := drained first List.mem_cons_self
      rw [TmpbufArray.empty, beq_iff_eq] at exhausted
      rw [exhausted]
      simpa [TmpbufArray.isFull] using full (by simp)
    | cons second others =>
      -- the second node is not begun and not empty
      have unread := fresh second List.mem_cons_self
      have exhausted := drained second (by simp)
      rw [TmpbufArray.empty, beq_iff_eq, unread] at exhausted
      exact absurd (List.length_eq_zero_iff.mp exhausted.symm) rest.1

/-- All nodes but the last hold `ARRAY_BUFFER_SIZE` buffers. -/
theorem Packed.length_le {i : Nat} (packed : Packed live) (links : Links i live) :
    ARRAY_BUFFER_SIZE * live.length + 1 ≤
      (contents live).length + begun live + ARRAY_BUFFER_SIZE := by
  induction live generalizing i with
  | nil => simp [ARRAY_BUFFER_SIZE]
  | cons node nodes ih =>
    obtain ⟨filled, full, fresh, rest⟩ := packed
    obtain ⟨-, valid, links⟩ := links
    have some_buffer : 0 < node.bufferArray.buffers.length := List.length_pos_iff.mpr filled
    have inside := valid.cur
    have held : node.bufferArray.rest.length =
        node.bufferArray.buffers.length - node.bufferArray.curIdx := List.length_drop
    have later := ih rest links
    have split_length : (contents (node :: nodes)).length =
        node.bufferArray.rest.length + (contents nodes).length := by simp [contents]
    cases nodes with
    | nil =>
      simp only [ARRAY_BUFFER_SIZE, List.length_cons, List.length_nil, begun, split_length, held]
      omega
    | cons second nodes =>
      have whole : node.bufferArray.buffers.length = ARRAY_BUFFER_SIZE := by
        simpa [TmpbufArray.isFull] using full (by simp)
      have unread : begun (second :: nodes) = 0 := fresh second List.mem_cons_self
      rw [unread] at later
      simp only [ARRAY_BUFFER_SIZE, List.length_cons, begun, split_length, held] at later whole ⊢
      omega

/-- The nodes `live` are those that the head leads to, and `node_count` is their number modulo
2^32. A push to a list with `node_count` 0 begins a new list. -/
structure Kept (l : TmpbufLinkedList) (dead live : List TmpbufListNode) : Prop
    extends Tailed l dead live where
  packed : Packed live
  count : l.nodeCount = UInt32.ofNat live.length
  few : live.length ≤ 2 ^ 32

theorem kept_new : ({} : TmpbufLinkedList).Kept [] [] :=
  ⟨⟨⟨rfl, rfl, trivial⟩, fun some_live => absurd rfl some_live⟩, trivial, rfl, Nat.zero_le _⟩

namespace Kept

theorem counted (kept : l.Kept dead live) (room : live.length < 2 ^ 32) :
    l.nodeCount = 0 ↔ live = [] := by
  rw [kept.count, ← UInt32.toNat_inj, UInt32.toNat_ofNat_of_lt' room, ← List.length_eq_zero_iff]
  rfl

theorem push (kept : l.Kept dead live) (room : live.length < 2 ^ 32) (buf : Buffer) :
    ∃ live', (l.push buf).Kept dead live' ∧ Pushed dead.length buf live live' := by
  obtain ⟨live', tailed, pushed, count⟩ := Tailed.push kept.toTailed (kept.counted room) buf
  have length := pushed.length
  refine ⟨live', ⟨tailed, pushed.packed kept.packed, ?_, by omega⟩, pushed⟩
  rw [count, kept.count, ← UInt32.ofNat_add]
  congr 1
  omega

theorem push_zero (zero : l.nodeCount = 0) (buf : Buffer) :
    (l.push buf).Kept l.heap [{ bufferArray := ({} : TmpbufArray).push buf }] := by
  refine ⟨⟨⟨?_, ?_, rfl, valid_first buf, trivial⟩, ?_⟩, packed_first buf, ?_, by simp⟩
  · simp [TmpbufLinkedList.push, zero]
  · simp [TmpbufLinkedList.push, zero]
  · simp [TmpbufLinkedList.push, zero]
  · simp [TmpbufLinkedList.push, zero]

theorem enough (kept : l.Kept dead live) : live.length ≤ l.heap.length + 1 := by
  rw [kept.heap, List.length_append]
  omega

/-- A pop from a list with buffers leaves the nodes that are popped and takes from the next. -/
theorem pop {first : Buffer} {others : List Buffer} (kept : l.Kept dead live)
    (left : contents live = first :: others) :
    l.pop.1 = first ∧ ∃ gone node nodes, live = gone ++ node :: nodes ∧
      (∀ drained ∈ gone, drained.bufferArray.empty = true) ∧
      l.pop.2.Kept (dead ++ gone)
        ({ node with bufferArray := node.bufferArray.pop.2 } :: nodes) ∧
      contents ({ node with bufferArray := node.bufferArray.pop.2 } :: nodes) = others := by
  obtain ⟨popped, gone, node, nodes, rfl, drained, -, linked, others', count, tail⟩ :=
    popLoop_spec (l.heap.length + 1) kept.toLinked kept.enough left
  refine ⟨popped, gone, node, nodes, rfl, drained, ⟨⟨linked, ?_⟩, ?_, ?_, ?_⟩, others'⟩
  · intro _
    rw [TmpbufLinkedList.pop, tail, kept.tail (by simp)]
    simp only [List.length_append, List.length_cons, Option.some.injEq]
    omega
  · exact kept.packed.suffix.pop
  · rw [kept.count, List.length_append, Nat.add_comm gone.length, UInt32.ofNat_add] at count
    exact (UInt32.add_left_inj _).mp count
  · have few := kept.few
    simp only [List.length_append, List.length_cons] at few ⊢
    omega

theorem pop_drained (kept : l.Kept dead live) (none_left : contents live = []) :
    l.pop.1 = [] ∧ l.pop.2.Kept (dead ++ live) [] := by
  obtain ⟨popped, linked, count⟩ :=
    popLoop_drained (l.heap.length + 1) kept.toLinked kept.enough none_left
  refine ⟨popped, ⟨linked, fun some_live => absurd rfl some_live⟩, trivial, ?_, Nat.zero_le _⟩
  rw [kept.count] at count
  exact UInt32.add_eq_right.mp count

end Kept

end TmpbufLinkedList

namespace SerializableQueue

open TmpbufLinkedList

variable {q : SerializableQueue} {dead live : List TmpbufListNode}

theorem size_push (buf : Buffer) : (q.push buf).size = q.size + 1 := by
  unfold SerializableQueue.push
  split <;> rfl

theorem size_pop : q.pop.2.size = q.size - 1 := by
  unfold SerializableQueue.pop
  split <;> rfl

/-- The nodes of the list are `dead` and `live`. The list is used only when the array is full. -/
structure Shape (q : SerializableQueue) (dead live : List TmpbufListNode) : Prop where
  array : q.array.Valid
  list : q.list.Kept dead live
  overflow : q.array.isFull = false → q.list = {}

/-- The buffers that are not yet popped. -/
def remaining (q : SerializableQueue) (live : List TmpbufListNode) : List Buffer :=
  q.array.rest ++ contents live

theorem shape_new : ({} : SerializableQueue).Shape [] [] :=
  ⟨TmpbufArray.valid_new, kept_new, fun _ => rfl⟩

namespace Shape

/-- A list that is not used has no nodes. -/
theorem unused (shape : q.Shape dead live) (open' : q.array.isFull = false) :
    dead = [] ∧ live = [] := by
  have heap := shape.list.heap
  rw [shape.overflow open'] at heap
  exact List.append_eq_nil_iff.mp heap.symm

theorem push_array (shape : q.Shape dead live) (open' : q.array.isFull = false) (buf : Buffer) :
    (q.push buf).Shape dead live ∧ (q.push buf).array = q.array.push buf := by
  have pushed : q.push buf = { q with array := q.array.push buf, size := q.size + 1 } := by
    simp [SerializableQueue.push, open']
  rw [pushed]
  refine ⟨⟨TmpbufArray.push_valid shape.array open' buf, shape.list, fun _ => ?_⟩, rfl⟩
  exact shape.overflow open'

theorem push_list {buf : Buffer} (valid : q.array.Valid) (full : q.array.isFull = true)
    (kept : (q.list.push buf).Kept dead live) :
    (q.push buf).Shape dead live ∧ (q.push buf).array = q.array := by
  have pushed : q.push buf = { q with list := q.list.push buf, size := q.size + 1 } := by
    simp [SerializableQueue.push, full]
  rw [pushed]
  refine ⟨⟨valid, kept, fun open' => ?_⟩, rfl⟩
  simp [full] at open'

theorem pop_array (shape : q.Shape dead live) (some_left : q.array.empty = false) :
    q.pop.1 = q.array.pop.1 ∧ q.pop.2.Shape dead live ∧ q.pop.2.array = q.array.pop.2 := by
  have popped : q.pop = (q.array.pop.1, { q with array := q.array.pop.2, size := q.size - 1 }) := by
    simp [SerializableQueue.pop, some_left]
  obtain ⟨buf, others, array⟩ : ∃ buf others, q.array.rest = buf :: others := by
    apply List.exists_cons_of_ne_nil
    rw [ne_eq, ← TmpbufArray.empty_iff shape.array, some_left]
    exact Bool.false_ne_true
  rw [popped]
  refine ⟨rfl, ⟨(TmpbufArray.pop_spec shape.array array).2.2, shape.list, fun open' => ?_⟩, rfl⟩
  exact shape.overflow (by simpa [TmpbufArray.isFull, TmpbufArray.pop] using open')

theorem pop_list {dead' live' : List TmpbufListNode} (shape : q.Shape dead live)
    (drained : q.array.empty = true) (kept : q.list.pop.2.Kept dead' live') :
    q.pop.1 = q.list.pop.1 ∧ q.pop.2.Shape dead' live' ∧ q.pop.2.array = q.array := by
  have popped : q.pop = (q.list.pop.1, { q with list := q.list.pop.2, size := q.size - 1 }) := by
    simp [SerializableQueue.pop, drained]
  rw [popped]
  refine ⟨rfl, ⟨shape.array, kept, fun open' => ?_⟩, rfl⟩
  simp only
  rw [shape.overflow open']
  rfl

theorem push (shape : q.Shape dead live) (buf : Buffer) :
    ∃ dead' live', (q.push buf).Shape dead' live' := by
  by_cases full : q.array.isFull = true
  · by_cases room : live.length < 2 ^ 32
    · obtain ⟨live', kept, -⟩ := shape.list.push room buf
      exact ⟨dead, live', (push_list shape.array full kept).1⟩
    · have whole : live.length = 2 ^ 32 := Nat.le_antisymm shape.list.few (Nat.le_of_not_lt room)
      have zero : q.list.nodeCount = 0 := by
        rw [shape.list.count, whole]
        rfl
      exact ⟨_, _, (push_list shape.array full (Kept.push_zero zero buf)).1⟩
  · exact ⟨dead, live, (shape.push_array (by simpa using full) buf).1⟩

theorem pop (shape : q.Shape dead live) : ∃ dead' live', q.pop.2.Shape dead' live' := by
  by_cases drained : q.array.empty = true
  · by_cases none_left : contents live = []
    · exact ⟨_, _, (shape.pop_list drained (shape.list.pop_drained none_left).2).2.1⟩
    · obtain ⟨first, others, left⟩ := List.exists_cons_of_ne_nil none_left
      obtain ⟨-, gone, node, nodes, -, -, kept, -⟩ := shape.list.pop left
      exact ⟨_, _, (shape.pop_list drained kept).2.1⟩
  · exact ⟨dead, live, (shape.pop_array (by simpa using drained)).2.1⟩

end Shape

end SerializableQueue

namespace QueueUse

open TmpbufLinkedList SerializableQueue

variable {u u' : QueueUse} {op : QueueOp} {ops : List QueueOp}

theorem shape_step (taken : step u op = some u') (shaped : ∃ dead live, u.queue.Shape dead live) :
    ∃ dead live, u'.queue.Shape dead live := by
  obtain ⟨dead, live, shape⟩ := shaped
  cases op with
  | push buf =>
    obtain rfl := Option.some.inj taken
    exact shape.push buf
  | pop =>
    simp only [step] at taken
    split at taken
    · cases taken
    · obtain rfl := Option.some.inj taken
      exact shape.pop

/-- The nodes of the list are packed in every run, of any number of buffers. -/
theorem shape_run (ran : run step {} ops = some u) : ∃ dead live, u.queue.Shape dead live :=
  run_invariant _ (fun _ _ _ shaped taken => shape_step taken shaped) ops {} u
    ⟨[], [], shape_new⟩ ran

/-- The buffers of the queue are those that were pushed and not popped. -/
structure Fifo (u : QueueUse) (dead live : List TmpbufListNode) : Prop where
  shape : u.queue.Shape dead live
  order : u.pushed = u.popped ++ u.queue.remaining live
  size : u.queue.size = UInt32.ofNat (u.queue.remaining live).length
  fits : (u.queue.remaining live).length < 2 ^ 32
  /-- Every slot that is left was popped from. -/
  total : u.popped.length =
    u.queue.array.curIdx + ARRAY_BUFFER_SIZE * dead.length + begun live
  left : dead ≠ [] → 0 < begun live
  exhausted : 0 < begun live → u.queue.array.curIdx = ARRAY_BUFFER_SIZE

theorem fifo_new : Fifo {} [] [] where
  shape := shape_new
  order := rfl
  size := rfl
  fits := by decide
  total := rfl
  left := fun some_dead => absurd rfl some_dead
  exhausted := fun some_begun => absurd some_begun (Nat.lt_irrefl 0)

namespace Fifo

variable {dead live : List TmpbufListNode}

theorem empty_iff (fifo : u.Fifo dead live) :
    u.queue.empty = true ↔ u.queue.remaining live = [] := by
  rw [SerializableQueue.empty, beq_iff_eq, fifo.size, ← UInt32.toNat_inj,
    UInt32.toNat_ofNat_of_lt' fifo.fits, ← List.length_eq_zero_iff]
  rfl

/-- There are not more nodes than the buffers need. -/
theorem room (fifo : u.Fifo dead live) : live.length < 2 ^ 32 := by
  have packed := fifo.shape.list.packed.length_le fifo.shape.list.links
  have few := fifo.fits
  have held : begun live ≤ ARRAY_BUFFER_SIZE := by
    have links := fifo.shape.list.links
    cases live with
    | nil => exact Nat.zero_le _
    | cons node nodes => exact Nat.le_trans links.2.1.cur links.2.1.room
  simp only [SerializableQueue.remaining, List.length_append] at few
  simp only [ARRAY_BUFFER_SIZE] at packed held
  omega

theorem push {buf : Buffer} (fifo : u.Fifo dead live) (counts : u.Counts (.push buf))
    (taken : step u (.push buf) = some u') : ∃ dead' live', u'.Fifo dead' live' := by
  obtain rfl := Option.some.inj taken
  have more : (u.queue.remaining live).length + 1 < 2 ^ 32 := by
    have order := congrArg List.length fifo.order
    rw [List.length_append] at order
    simp only [Counts] at counts
    omega
  -- in both cases the buffer is the last of those that remain
  have ended {dead' live' : List TmpbufListNode} (shape : (u.queue.push buf).Shape dead' live')
      (remains : (u.queue.push buf).remaining live' = u.queue.remaining live ++ [buf])
      (total : u.popped.length = (u.queue.push buf).array.curIdx +
        ARRAY_BUFFER_SIZE * dead'.length + begun live')
      (left : dead' ≠ [] → 0 < begun live')
      (exhausted : 0 < begun live' →
        (u.queue.push buf).array.curIdx = ARRAY_BUFFER_SIZE) :
      Fifo ⟨u.queue.push buf, u.pushed ++ [buf], u.popped⟩ dead' live' := by
    refine ⟨shape, ?_, ?_, ?_, total, left, exhausted⟩
    · rw [remains, fifo.order, List.append_assoc]
    · rw [remains, size_push, fifo.size, List.length_append, UInt32.ofNat_add]
      rfl
    · rw [remains, List.length_append]
      exact more
  by_cases full : u.queue.array.isFull = true
  · obtain ⟨live', kept, pushed⟩ := fifo.shape.list.push fifo.room buf
    obtain ⟨shape, array⟩ := Shape.push_list fifo.shape.array full kept
    refine ⟨dead, live', ended shape ?_ ?_ ?_ ?_⟩
    · rw [SerializableQueue.remaining, array, pushed.contents fifo.shape.list.links,
        ← List.append_assoc]
      rfl
    · rw [array, pushed.begun, fifo.total]
    · rw [pushed.begun]
      exact fifo.left
    · rw [array, pushed.begun]
      exact fifo.exhausted
  · have open' : u.queue.array.isFull = false := by simpa using full
    obtain ⟨shape, array⟩ := fifo.shape.push_array open' buf
    obtain ⟨rfl, rfl⟩ := fifo.shape.unused open'
    refine ⟨[], [], ended shape ?_ ?_ fifo.left ?_⟩
    · simp [SerializableQueue.remaining, array, TmpbufArray.rest_push fifo.shape.array, contents]
    · rw [array, fifo.total]
      rfl
    · exact fun some_begun => absurd some_begun (Nat.lt_irrefl 0)

/-- An array that has nothing left while the list has is popped from to its end. -/
theorem array_read (fifo : u.Fifo dead live) (remains : u.queue.remaining live ≠ [])
    (drained : u.queue.array.empty = true) : u.queue.array.curIdx = ARRAY_BUFFER_SIZE := by
  have none_left := (TmpbufArray.empty_iff fifo.shape.array).mp drained
  have full : u.queue.array.isFull = true := by
    by_contra open'
    obtain ⟨-, rfl⟩ := fifo.shape.unused (by simpa using open')
    exact remains (by rw [SerializableQueue.remaining, none_left]; rfl)
  rw [TmpbufArray.empty, beq_iff_eq] at drained
  rw [drained]
  simpa [TmpbufArray.isFull] using full

/-- The list is not popped from before the array. -/
theorem unread (fifo : u.Fifo dead live) (some_left : u.queue.array.empty = false) :
    begun live = 0 := by
  by_contra some_begun
  have cursor := fifo.exhausted (Nat.pos_of_ne_zero some_begun)
  have inside := fifo.shape.array.cur
  have room := fifo.shape.array.room
  have different : u.queue.array.curIdx ≠ u.queue.array.buffers.length := by
    simpa [TmpbufArray.empty] using some_left
  omega

/-- A pop returns the first of the buffers that remain. -/
theorem pop (fifo : u.Fifo dead live) (some_left : u.queue.empty = false) :
    ∃ dead' live', Fifo ⟨u.queue.pop.2, u.pushed, u.popped ++ [u.queue.pop.1]⟩ dead' live' := by
  have remains : u.queue.remaining live ≠ [] := by
    rw [ne_eq, ← fifo.empty_iff, some_left]
    exact Bool.false_ne_true
  have ended {dead' live' : List TmpbufListNode} (shape : u.queue.pop.2.Shape dead' live')
      (taken : u.queue.remaining live = u.queue.pop.1 :: u.queue.pop.2.remaining live')
      (total : u.popped.length + 1 = u.queue.pop.2.array.curIdx +
        ARRAY_BUFFER_SIZE * dead'.length + begun live')
      (left : dead' ≠ [] → 0 < begun live')
      (exhausted : 0 < begun live' → u.queue.pop.2.array.curIdx = ARRAY_BUFFER_SIZE) :
      Fifo ⟨u.queue.pop.2, u.pushed, u.popped ++ [u.queue.pop.1]⟩ dead' live' := by
    refine ⟨shape, ?_, ?_, ?_, ?_, left, exhausted⟩
    · rw [fifo.order, taken, List.append_assoc, List.singleton_append]
    · rw [size_pop, fifo.size, taken, List.length_cons, UInt32.ofNat_add]
      exact UInt32.add_sub_cancel _ _
    · have fits := fifo.fits
      rw [taken, List.length_cons] at fits
      exact Nat.lt_of_succ_lt fits
    · rw [List.length_append, List.length_singleton]
      exact total
  by_cases drained : u.queue.array.empty = true
  · have none_left := (TmpbufArray.empty_iff fifo.shape.array).mp drained
    have cursor := fifo.array_read remains drained
    rw [SerializableQueue.remaining, none_left, List.nil_append] at remains
    obtain ⟨first, others, left⟩ := List.exists_cons_of_ne_nil remains
    obtain ⟨popped, gone, node, nodes, rfl, all, kept, others'⟩ := fifo.shape.list.pop left
    obtain ⟨result, shape, array⟩ := fifo.shape.pop_list drained kept
    refine ⟨_, _, ended shape ?_ ?_ ?_ ?_⟩
    · rw [SerializableQueue.remaining, SerializableQueue.remaining, array, none_left, result,
        popped, others', left]
      rfl
    · rcases fifo.shape.list.packed.gone all with rfl | ⟨before, rfl, read, unread⟩
      · simp [array, fifo.total, begun, TmpbufArray.pop]
        omega
      · simp [array, fifo.total, begun, TmpbufArray.pop, unread, Nat.mul_add]
        omega
    · intro _
      simp [begun, TmpbufArray.pop]
    · intro _
      rw [array, cursor]
  · have some_array : u.queue.array.empty = false := by simpa using drained
    obtain ⟨result, shape, array⟩ := fifo.shape.pop_array some_array
    obtain ⟨buf, others, rest⟩ : ∃ buf others, u.queue.array.rest = buf :: others := by
      apply List.exists_cons_of_ne_nil
      rwa [ne_eq, ← TmpbufArray.empty_iff fifo.shape.array]
    obtain ⟨popped, rest', -⟩ := TmpbufArray.pop_spec fifo.shape.array rest
    have unread := fifo.unread some_array
    refine ⟨dead, live, ended shape ?_ ?_ fifo.left ?_⟩
    · rw [SerializableQueue.remaining, SerializableQueue.remaining, array, result, popped, rest',
        rest]
      rfl
    · rw [array, fifo.total]
      simp only [TmpbufArray.pop]
      omega
    · intro some_begun
      omega

theorem step (fifo : u.Fifo dead live) (counts : u.Counts op) (taken : step u op = some u') :
    ∃ dead' live', u'.Fifo dead' live' := by
  cases op with
  | push buf => exact fifo.push counts taken
  | pop =>
    simp only [QueueUse.step] at taken
    split at taken
    · cases taken
    · next some_left =>
      obtain rfl := Option.some.inj taken
      exact fifo.pop (by simpa using some_left)

end Fifo

theorem fifo_run (ran : run step {} ops = some u) (counts : StepsMeet step Counts {} ops) :
    ∃ dead live, u.Fifo dead live := by
  apply run_invariant_of_meets (fun u => ∃ dead live, Fifo u dead live) _ ops {} u
    ⟨[], [], fifo_new⟩ counts ran
  rintro before op after ⟨dead, live, fifo⟩ counted taken
  exact fifo.step counted taken

/-- As long as fewer than 2^32 buffers are in the queue, the pops return the pushed buffers in
order, and `size`, `empty` and `get_buffer_size` are about those that are left. -/
theorem queue_is_fifo (ran : run step {} ops = some u) (counts : StepsMeet step Counts {} ops) :
    ∃ rest, u.pushed = u.popped ++ rest ∧ u.queue.size.toNat = rest.length ∧
      (u.queue.empty = true ↔ rest = []) ∧
      u.queue.getBufferSize = UInt32.ofNat (rest.map List.length).sum := by
  obtain ⟨dead, live, fifo⟩ := fifo_run ran counts
  refine ⟨u.queue.remaining live, fifo.order, ?_, fifo.empty_iff, ?_⟩
  · rw [fifo.size, UInt32.toNat_ofNat_of_lt' fifo.fits]
  · rw [SerializableQueue.getBufferSize, TmpbufArray.getBufferSize_eq,
      fifo.shape.list.getBufferSize, ← UInt32.ofNat_add, ← List.length_append,
      ← List.flatten_append, ← List.length_flatten]
    rfl

def tenPushesNinePops : List QueueOp :=
  List.replicate 10 (.push [1, 2]) ++ List.replicate 9 .pop

theorem queue_is_fifo_ten :
    ∃ u, run step {} tenPushesNinePops = some u ∧
      ∃ rest, u.pushed = u.popped ++ rest ∧ u.queue.size.toNat = rest.length ∧
        (u.queue.empty = true ↔ rest = []) ∧
        u.queue.getBufferSize = UInt32.ofNat (rest.map List.length).sum := by
  obtain ⟨u, ran⟩ := Option.isSome_iff_exists.mp
    (by decide +kernel : (run step {} tenPushesNinePops).isSome = true)
  exact ⟨u, ran, queue_is_fifo ran (by decide +kernel)⟩

/-- The pushes of a run are counted modulo 2^32. -/
theorem run_pushes (u : QueueUse) (buf : Buffer) (count : Nat) :
    ∃ u', run step u (List.replicate count (.push buf)) = some u' ∧
      u'.pushed.length = u.pushed.length + count ∧ u'.popped = u.popped ∧
      u'.queue.size = u.queue.size + UInt32.ofNat count := by
  induction count generalizing u with
  | zero => exact ⟨u, rfl, rfl, rfl, (UInt32.add_zero _).symm⟩
  | succ count ih =>
    obtain ⟨u', ran, pushed, popped, size⟩ :=
      ih { u with queue := u.queue.push buf, pushed := u.pushed ++ [buf] }
    refine ⟨u', ?_, ?_, popped, ?_⟩
    · rw [List.replicate_succ]
      exact run_cons_eq_some.mpr ⟨_, rfl, ran⟩
    · rw [pushed, List.length_append, List.length_singleton]
      omega
    · rw [size, size_push, UInt32.add_assoc, UInt32.add_comm 1, ← UInt32.ofNat_one,
        ← UInt32.ofNat_add]

/-- After 2^32 pushes the queue says that it is empty. -/
theorem queue_size_wraps :
    ∃ u, run step {} (List.replicate (2 ^ 32) (.push [])) = some u ∧
      u.pushed.length - u.popped.length = 2 ^ 32 ∧ u.queue.size = 0 ∧ u.queue.empty = true := by
  obtain ⟨u, ran, pushed, popped, size⟩ := run_pushes {} [] (2 ^ 32)
  have none_counted : u.queue.size = 0 := size.trans (by decide)
  refine ⟨u, ran, ?_, none_counted, ?_⟩
  · rw [pushed, popped]
    rfl
  · rw [SerializableQueue.empty, none_counted]
    rfl

end QueueUse

/-! ## `peek` -/

namespace SerializableQueue

open TmpbufLinkedList

variable {q : SerializableQueue} {dead live : List TmpbufListNode}

/-- The next buffer to pop is in a slot of the array or of the head. -/
def AtSlot (q : SerializableQueue) : Prop :=
  q.array.empty = false ∨
    ∃ node, q.list.node? q.list.head = some node ∧ node.bufferArray.curIdx < ARRAY_BUFFER_SIZE

instance (q : SerializableQueue) : Decidable q.AtSlot :=
  decidable_of_iff (q.array.empty = false ∨
      (q.list.node? q.list.head).any (·.bufferArray.curIdx < ARRAY_BUFFER_SIZE) = true) <| by
    simp [AtSlot, Option.any_eq_true]

/-- A pop of a list whose last node has room below its cursor finds nothing. -/
theorem pop_exhausted {l : TmpbufLinkedList} {node : TmpbufListNode}
    {nodes : List TmpbufListNode} (kept : l.Kept dead (node :: nodes))
    (inside : node.bufferArray.curIdx < ARRAY_BUFFER_SIZE) :
    l.pop.1 = node.bufferArray.buffers.getD node.bufferArray.curIdx [] := by
  by_cases drained : node.bufferArray.empty = true
  · have cursor : node.bufferArray.curIdx = node.bufferArray.buffers.length := by
      simpa [TmpbufArray.empty] using drained
    -- a node with a successor is full
    have last : nodes = [] := by
      by_contra more
      have full := kept.packed.2.1 more
      rw [TmpbufArray.isFull, beq_iff_eq] at full
      omega
    subst last
    have none_left : contents [node] = [] := by
      simp [contents, (TmpbufArray.empty_iff kept.links.2.1).mp drained]
    rw [(kept.pop_drained none_left).1, cursor]
    simp
  · rw [TmpbufLinkedList.pop, popLoop, kept.node?_head]
    simp [drained, TmpbufArray.pop]

theorem Shape.peek_iff (shape : q.Shape dead live) : q.peek = some q.pop.1 ↔ q.AtSlot := by
  by_cases drained : q.array.empty = true
  · have popped : q.pop.1 = q.list.pop.1 := by simp [SerializableQueue.pop, drained]
    cases live with
    | nil =>
      have nowhere : q.list.node? q.list.head = none := by simp [node?, shape.list.head]
      simp [SerializableQueue.peek, AtSlot, drained, TmpbufLinkedList.peek, nowhere]
    | cons node nodes =>
      have found : q.list.node? q.list.head = some node := shape.list.node?_head
      have peeked : q.peek = node.bufferArray.peek := by
        simp [SerializableQueue.peek, drained, TmpbufLinkedList.peek, found]
      have slot : q.AtSlot ↔ node.bufferArray.curIdx < ARRAY_BUFFER_SIZE := by
        simp [AtSlot, drained, found]
      rw [peeked, popped, slot, TmpbufArray.peek]
      split
      · next inside =>
        exact iff_of_true (congrArg some (pop_exhausted shape.list inside).symm) inside
      · next outside => simp [outside]
  · have some_left : q.array.empty = false := by simpa using drained
    have cur : q.array.curIdx < ARRAY_BUFFER_SIZE := by
      have valid := shape.array
      have inside := valid.cur
      have room := valid.room
      have different : q.array.curIdx ≠ q.array.buffers.length := by
        simpa [TmpbufArray.empty] using some_left
      omega
    refine iff_of_true ?_ (.inl some_left)
    simp [SerializableQueue.peek, SerializableQueue.pop, some_left, TmpbufArray.peek, cur,
      TmpbufArray.pop]

end SerializableQueue

namespace QueueUse

open TmpbufLinkedList SerializableQueue

variable {u : QueueUse} {ops : List QueueOp} {dead live : List TmpbufListNode}

/-- Where the next buffer is follows from the number of buffers that were popped. -/
theorem Fifo.atSlot_iff (fifo : u.Fifo dead live) (some_left : u.queue.empty = false) :
    u.queue.AtSlot ↔
      u.popped.length < 2 * ARRAY_BUFFER_SIZE ∨ ¬ ARRAY_BUFFER_SIZE ∣ u.popped.length := by
  have total := fifo.total
  have left := fifo.left
  rw [← List.length_pos_iff] at left
  by_cases drained : u.queue.array.empty = true
  · have remains : u.queue.remaining live ≠ [] := by
      rw [ne_eq, ← fifo.empty_iff, some_left]
      exact Bool.false_ne_true
    have cursor := fifo.array_read remains drained
    cases live with
    | nil =>
      refine absurd ?_ remains
      rw [SerializableQueue.remaining, (TmpbufArray.empty_iff fifo.shape.array).mp drained]
      rfl
    | cons node nodes =>
      have found : u.queue.list.node? u.queue.list.head = some node := fifo.shape.list.node?_head
      have slot : u.queue.AtSlot ↔ node.bufferArray.curIdx < ARRAY_BUFFER_SIZE := by
        simp [AtSlot, drained, found]
      have valid := fifo.shape.list.links.2.1
      have inside := valid.cur
      have room := valid.room
      simp only [begun, ARRAY_BUFFER_SIZE] at slot total left cursor room ⊢
      rw [slot]
      omega
  · have some_array : u.queue.array.empty = false := by simpa using drained
    have unread := fifo.unread some_array
    have inside := fifo.shape.array.cur
    have room := fifo.shape.array.room
    have different : u.queue.array.curIdx ≠ u.queue.array.buffers.length := by
      simpa [TmpbufArray.empty] using some_array
    simp only [ARRAY_BUFFER_SIZE] at total room ⊢
    refine iff_of_true (.inl some_array) (.inl ?_)
    omega

/-- `peek` returns what the next pop returns exactly when the next buffer is in a slot of the array
or of the head. Unless 2^32 buffers are in the queue at some time, these are the states in which
fewer than eight buffers, or no multiple of four, were popped. -/
theorem peek_agrees_iff (ran : run step {} ops = some u) (some_left : u.queue.empty = false) :
    (u.queue.peek = some u.queue.pop.1 ↔ u.queue.AtSlot) ∧
      (StepsMeet step Counts {} ops → (u.queue.peek = some u.queue.pop.1 ↔
        u.popped.length < 2 * ARRAY_BUFFER_SIZE ∨ ¬ ARRAY_BUFFER_SIZE ∣ u.popped.length)) := by
  obtain ⟨dead, live, shape⟩ := shape_run ran
  refine ⟨shape.peek_iff, fun counts => ?_⟩
  obtain ⟨_, _, fifo⟩ := fifo_run ran counts
  rw [shape.peek_iff, fifo.atSlot_iff some_left]

def ninePushesEightPops : List QueueOp :=
  List.replicate 9 (.push [7]) ++ List.replicate 8 .pop

theorem peek_agrees_after_nine :
    (∃ u, run step {} (List.replicate 9 (.push [7])) = some u ∧
      u.queue.peek = some u.queue.pop.1) ∧
    ∃ u, run step {} ninePushesEightPops = some u ∧ u.queue.peek ≠ some u.queue.pop.1 := by
  obtain ⟨u, ran, some_left, none_popped⟩ :
      ∃ u, run step {} (List.replicate 9 (.push [7])) = some u ∧
        u.queue.empty = false ∧ u.popped.length = 0 := ⟨_, rfl, rfl, rfl⟩
  obtain ⟨u', ran', some_left', popped⟩ :
      ∃ u, run step {} ninePushesEightPops = some u ∧
        u.queue.empty = false ∧ u.popped.length = 8 := ⟨_, rfl, rfl, rfl⟩
  refine ⟨⟨u, ran, ((peek_agrees_iff ran some_left).2 (by decide)).mpr ?_⟩, u', ran', ?_⟩
  · rw [none_popped]
    decide
  · rw [ne_eq, (peek_agrees_iff ran' some_left').2 (by decide), popped]
    decide

/-- The head is drained when the ninth buffer is the next. -/
theorem peek_past_head :
    ∃ u, run step {} ninePushesEightPops = some u ∧ u.queue.empty = false ∧
      u.queue.pop.1 = [7] ∧ u.queue.peek = none :=
  ⟨_, rfl, by decide⟩

end QueueUse

end Hiactor
