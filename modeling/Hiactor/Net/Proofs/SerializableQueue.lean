import Hiactor.Net.SerializableQueue

/-!
# What a queue of buffers holds

A queue holds a list of buffers: what is left of its array, then what is left of the nodes of its
list. Pushes add to the end of it as long as the queue has not been moved, pops take from its
front, and a queue from which nothing was popped holds the same after it is moved.
-/

namespace Hiactor

/-! ## Arrays -/

namespace TmpbufArray

variable {a : TmpbufArray}

/-- The buffers that are not yet popped. -/
def rest (a : TmpbufArray) : List Buffer := a.buffers.drop a.curIdx

structure Valid (a : TmpbufArray) : Prop where
  cur : a.curIdx ≤ a.buffers.length
  room : a.buffers.length ≤ ARRAY_BUFFER_SIZE

theorem valid_new : ({} : TmpbufArray).Valid := ⟨Nat.le_refl 0, Nat.zero_le _⟩

theorem empty_iff (valid : a.Valid) : a.empty = true ↔ a.rest = [] := by
  have inside := valid.cur
  rw [empty, beq_iff_eq, rest, List.drop_eq_nil_iff]
  omega

theorem push_valid (valid : a.Valid) (open' : a.isFull = false) (buf : Buffer) :
    (a.push buf).Valid := by
  have cur := valid.cur
  have room := valid.room
  have notFull : a.buffers.length ≠ ARRAY_BUFFER_SIZE := by simpa [isFull] using open'
  constructor
  · simp [push]
    omega
  · simp [push]
    omega

theorem rest_push (valid : a.Valid) (buf : Buffer) : (a.push buf).rest = a.rest ++ [buf] := by
  simp [rest, push, List.drop_append_of_le_length valid.cur]

theorem pop_spec {first : Buffer} {others : List Buffer} (valid : a.Valid)
    (left : a.rest = first :: others) :
    a.pop.1 = first ∧ a.pop.2.rest = others ∧ a.pop.2.Valid := by
  have inside : a.curIdx < a.buffers.length := by
    by_contra past
    rw [rest, List.drop_eq_nil_of_le (by omega)] at left
    cases left
  rw [rest, List.drop_eq_getElem_cons inside] at left
  obtain ⟨head, tail⟩ := List.cons.inj left
  refine ⟨?_, ?_, ?_, ?_⟩
  · simp [pop, inside, head]
  · simp only [pop, rest]
    rw [List.drop_set_of_lt (by omega), tail]
  · simp only [pop, List.length_set]
    omega
  · simpa [pop] using valid.room

theorem foldl_size (bufs : List Buffer) (total : UInt32) :
    bufs.foldl (fun total buf => total + UInt32.ofNat buf.length) total =
      total + UInt32.ofNat bufs.flatten.length := by
  induction bufs generalizing total with
  | nil => simp
  | cons buf bufs ih =>
    rw [List.foldl_cons, ih, List.flatten_cons, List.length_append, UInt32.ofNat_add,
      UInt32.add_assoc]

theorem getBufferSize_eq : a.getBufferSize = UInt32.ofNat a.rest.flatten.length := by
  rw [getBufferSize, foldl_size, UInt32.zero_add, rest]

end TmpbufArray

/-! ## Linked lists -/

namespace TmpbufLinkedList

variable {l : TmpbufLinkedList} {dead live : List TmpbufListNode}

/-- The nodes from index `i` on are linked one to the next. -/
def Links : Nat → List TmpbufListNode → Prop
  | _, [] => True
  | i, node :: nodes =>
    node.next = (if nodes = [] then none else some (i + 1)) ∧ node.bufferArray.Valid ∧
      Links (i + 1) nodes

/-- The nodes `live` are those that the head leads to. -/
structure Linked (l : TmpbufLinkedList) (dead live : List TmpbufListNode) : Prop where
  heap : l.heap = dead ++ live
  head : l.head = if live = [] then none else some dead.length
  links : Links dead.length live

/-- The buffers that are not yet popped. -/
def contents (live : List TmpbufListNode) : List Buffer := live.flatMap (·.bufferArray.rest)

theorem modify_middle (node : TmpbufListNode) (f : TmpbufListNode → TmpbufListNode) :
    (dead ++ node :: live).modify dead.length f = dead ++ f node :: live := by
  induction dead with
  | nil => rfl
  | cons first dead ih => simp [ih]

theorem Linked.node?_head {node : TmpbufListNode} (linked : l.Linked dead (node :: live)) :
    l.node? l.head = some node := by
  simp [node?, linked.head, linked.heap]

/-- A pop takes the first buffer of the first node that has one. -/
theorem popLoop_spec {first : Buffer} {others : List Buffer} (rounds : Nat)
    (linked : l.Linked dead live) (enough : live.length ≤ rounds)
    (left : contents live = first :: others) :
    (popLoop rounds l).1 = first ∧ ∃ gone node nodes, live = gone ++ node :: nodes ∧
      (∀ drained ∈ gone, drained.bufferArray.empty = true) ∧ node.bufferArray.empty = false ∧
      (popLoop rounds l).2.Linked (dead ++ gone)
        ({ node with bufferArray := node.bufferArray.pop.2 } :: nodes) ∧
      contents ({ node with bufferArray := node.bufferArray.pop.2 } :: nodes) = others ∧
      (popLoop rounds l).2.nodeCount + UInt32.ofNat gone.length = l.nodeCount ∧
      (popLoop rounds l).2.tail = l.tail := by
  induction rounds generalizing l dead live with
  | zero =>
    obtain rfl := List.length_eq_zero_iff.mp (Nat.le_zero.mp enough)
    cases left
  | succ rounds ih =>
    cases live with
    | nil => cases left
    | cons node nodes =>
      obtain ⟨next, valid, links⟩ := linked.links
      rw [popLoop, linked.node?_head]
      simp only
      split
      · next drained =>
        have none_left := (TmpbufArray.empty_iff valid).mp drained
        have advanced : Linked { l with nodeCount := l.nodeCount - 1, head := node.next }
            (dead ++ [node]) nodes := by
          refine ⟨?_, ?_, ?_⟩
          · simp [linked.heap]
          · simp [next]
          · simpa using links
        obtain ⟨popped, gone, taken, later, shape, all, some_left, linked', others', count, tail⟩ :=
          ih advanced (by simpa using enough) (by simpa [contents, none_left] using left)
        refine ⟨popped, node :: gone, taken, later, by rw [shape, List.cons_append], ?_, some_left,
          by simpa using linked', others', ?_, tail⟩
        · rintro other (_ | ⟨_, member⟩)
          · exact drained
          · exact all other member
        · rw [List.length_cons, UInt32.ofNat_add, ← UInt32.add_assoc, count]
          exact UInt32.sub_add_cancel _ _
      · next some_left =>
        obtain ⟨buf, bufs, array⟩ : ∃ buf bufs, node.bufferArray.rest = buf :: bufs := by
          apply List.exists_cons_of_ne_nil
          rwa [ne_eq, ← TmpbufArray.empty_iff valid]
        obtain ⟨popped, rest, valid'⟩ := TmpbufArray.pop_spec valid array
        have split_left : buf = first ∧ bufs ++ contents nodes = others := by
          simpa [contents, array] using left
        refine ⟨popped.trans split_left.1, [], node, nodes, rfl, nofun, by simpa using some_left,
          ⟨?_, ?_, ?_⟩, ?_, ?_, ?_⟩
        · simp [modifyNode, linked.head, linked.heap, modify_middle]
        · simp [modifyNode, linked.head]
        · rw [List.append_nil]
          exact ⟨next, valid', links⟩
        · simpa [contents, rest] using split_left.2
        · simp [modifyNode, linked.head]
        · simp [modifyNode, linked.head]

/-- A pop from a list that has no buffers left leads past its last node. -/
theorem popLoop_drained (rounds : Nat) (linked : l.Linked dead live)
    (enough : live.length ≤ rounds) (none_left : contents live = []) :
    (popLoop rounds l).1 = [] ∧ (popLoop rounds l).2.Linked (dead ++ live) [] ∧
      (popLoop rounds l).2.nodeCount + UInt32.ofNat live.length = l.nodeCount := by
  induction rounds generalizing l dead live with
  | zero =>
    obtain rfl := List.length_eq_zero_iff.mp (Nat.le_zero.mp enough)
    rw [List.append_nil]
    exact ⟨rfl, linked, UInt32.add_zero _⟩
  | succ rounds ih =>
    cases live with
    | nil =>
      have ended : l.node? l.head = none := by simp [node?, linked.head]
      rw [popLoop, ended, List.append_nil]
      exact ⟨rfl, linked, UInt32.add_zero _⟩
    | cons node nodes =>
      obtain ⟨next, valid, links⟩ := linked.links
      have split_left : node.bufferArray.rest = [] ∧ contents nodes = [] := by
        simpa [contents] using none_left
      have drained := (TmpbufArray.empty_iff valid).mpr split_left.1
      rw [popLoop, linked.node?_head]
      simp only [drained, if_true]
      have advanced : Linked { l with nodeCount := l.nodeCount - 1, head := node.next }
          (dead ++ [node]) nodes := by
        refine ⟨?_, ?_, ?_⟩
        · simp [linked.heap]
        · simp [next]
        · simpa using links
      obtain ⟨popped, linked', count⟩ := ih advanced (by simpa using enough) split_left.2
      rw [List.append_assoc, List.singleton_append] at linked'
      refine ⟨popped, linked', ?_⟩
      rw [List.length_cons, UInt32.ofNat_add, ← UInt32.add_assoc, count]
      exact UInt32.sub_add_cancel _ _

theorem bufferSizeLoop_eq (rounds : Nat) (ptr : Option Nat) (total : UInt32)
    (heap : l.heap = dead ++ live) (head : ptr = if live = [] then none else some dead.length)
    (links : Links dead.length live) (enough : live.length ≤ rounds) :
    l.bufferSizeLoop rounds ptr total =
      total + UInt32.ofNat (contents live).flatten.length := by
  induction rounds generalizing ptr total dead live with
  | zero =>
    obtain rfl := List.length_eq_zero_iff.mp (Nat.le_zero.mp enough)
    simp [bufferSizeLoop, contents]
  | succ rounds ih =>
    cases live with
    | nil => simp [bufferSizeLoop, node?, head, contents]
    | cons node nodes =>
      obtain ⟨next, valid, links⟩ := links
      have found : l.node? ptr = some node := by simp [node?, head, heap]
      rw [bufferSizeLoop, found]
      simp only
      have heap' : l.heap = (dead ++ [node]) ++ nodes := by simp [heap]
      rw [ih _ _ heap' (by simp [next]) (by simpa using links) (by simpa using enough),
        TmpbufArray.getBufferSize_eq,
        UInt32.add_assoc, ← UInt32.ofNat_add, ← List.length_append]
      simp [contents]

theorem Linked.getBufferSize (linked : l.Linked dead live) :
    l.getBufferSize = UInt32.ofNat (contents live).flatten.length := by
  have enough : live.length ≤ l.heap.length + 1 := by
    rw [linked.heap, List.length_append]
    omega
  rw [TmpbufLinkedList.getBufferSize,
    bufferSizeLoop_eq _ _ _ linked.heap linked.head linked.links enough, UInt32.zero_add]

/-- The tail is the last node. -/
structure Tailed (l : TmpbufLinkedList) (dead live : List TmpbufListNode) : Prop
    extends Linked l dead live where
  tail : live ≠ [] → l.tail = some (dead.length + live.length - 1)

/-- A list that was not moved knows its nodes and its tail. -/
structure Tracked (l : TmpbufLinkedList) (dead live : List TmpbufListNode) : Prop
    extends Linked l dead live where
  count : l.nodeCount.toNat = live.length
  tail : live ≠ [] → l.tail = some (dead.length + live.length - 1)

/-- The last node may be changed as long as it has no successor. -/
theorem links_last {i : Nat} {nodes : List TmpbufListNode} {last : TmpbufListNode}
    (links : Links i (nodes ++ [last])) {array : TmpbufArray} (valid : array.Valid) :
    Links i (nodes ++ [{ last with bufferArray := array }]) := by
  induction nodes generalizing i with
  | nil => exact ⟨links.1, valid, trivial⟩
  | cons node nodes ih => exact ⟨by simpa using links.1, links.2.1, ih links.2.2⟩

/-- A node is linked after the last one. -/
theorem links_snoc {i : Nat} {nodes : List TmpbufListNode} {last new : TmpbufListNode}
    (links : Links i (nodes ++ [last])) (ends : new.next = none) (valid : new.bufferArray.Valid) :
    Links i (nodes ++ [{ last with next := some (i + nodes.length + 1) }, new]) := by
  induction nodes generalizing i with
  | nil => exact ⟨by simp, links.2.1, ends, valid, trivial⟩
  | cons node nodes ih =>
    refine ⟨by simpa using links.1, links.2.1, ?_⟩
    have later := ih links.2.2
    rwa [Nat.add_right_comm i 1] at later

theorem links_array_valid {i : Nat} {nodes : List TmpbufListNode} {last : TmpbufListNode}
    (links : Links i (nodes ++ [last])) : last.bufferArray.Valid := by
  induction nodes generalizing i with
  | nil => exact links.2.1
  | cons node nodes ih => exact ih links.2.2

/-- What a push makes of the nodes, the first of which is the one at index `start`. -/
inductive Pushed (start : Nat) (buf : Buffer) : List TmpbufListNode → List TmpbufListNode → Prop
  | first : Pushed start buf [] [{ bufferArray := ({} : TmpbufArray).push buf }]
  | room {nodes : List TmpbufListNode} {last : TmpbufListNode}
      (open' : last.bufferArray.isFull = false) :
      Pushed start buf (nodes ++ [last])
        (nodes ++ [{ last with bufferArray := last.bufferArray.push buf }])
  | next {nodes : List TmpbufListNode} {last : TmpbufListNode}
      (full : last.bufferArray.isFull = true) :
      Pushed start buf (nodes ++ [last])
        (nodes ++ [{ last with next := some (start + nodes.length + 1) },
          { bufferArray := ({} : TmpbufArray).push buf }])

theorem valid_first (buf : Buffer) : (({} : TmpbufArray).push buf).Valid :=
  TmpbufArray.push_valid TmpbufArray.valid_new rfl buf

theorem rest_first (buf : Buffer) : (({} : TmpbufArray).push buf).rest = [buf] :=
  TmpbufArray.rest_push TmpbufArray.valid_new buf

namespace Pushed

variable {start : Nat} {buf : Buffer} {live' : List TmpbufListNode}

theorem contents (pushed : Pushed start buf live live') (links : Links start live) :
    TmpbufLinkedList.contents live' = TmpbufLinkedList.contents live ++ [buf] := by
  cases pushed with
  | first => simp [TmpbufLinkedList.contents, rest_first]
  | room open' =>
    simp [TmpbufLinkedList.contents, TmpbufArray.rest_push (links_array_valid links)]
  | next full => simp [TmpbufLinkedList.contents, rest_first]

theorem length (pushed : Pushed start buf live live') :
    live'.length = live.length ∨ live'.length = live.length + 1 := by
  cases pushed with
  | first => exact .inr rfl
  | room open' => simp
  | next full => simp

end Pushed

/-- A push adds a buffer after all others. -/
theorem Tailed.push (tailed : l.Tailed dead live) (counted : l.nodeCount = 0 ↔ live = [])
    (buf : Buffer) :
    ∃ live', (l.push buf).Tailed dead live' ∧ Pushed dead.length buf live live' ∧
      (l.push buf).nodeCount = l.nodeCount + UInt32.ofNat (live'.length - live.length) := by
  rcases List.eq_nil_or_concat live with rfl | ⟨nodes, last, rfl⟩
  · have none_counted : l.nodeCount = 0 := counted.mpr rfl
    refine ⟨_, ⟨⟨?_, ?_, ?_⟩, ?_⟩, .first, ?_⟩
    · simp [TmpbufLinkedList.push, none_counted, tailed.heap]
    · simp [TmpbufLinkedList.push, none_counted, tailed.heap]
    · exact ⟨rfl, valid_first buf, trivial⟩
    · simp [TmpbufLinkedList.push, none_counted, tailed.heap]
    · simp [TmpbufLinkedList.push, none_counted]
  · have some_counted : (l.nodeCount == 0) = false := by
      simpa using fun none_counted => counted.mp none_counted
    have tail : l.tail = some (dead ++ nodes).length := by
      rw [tailed.tail (by simp)]
      simp
    have heap : l.heap = (dead ++ nodes) ++ [last] := by simp [tailed.heap]
    have at_tail : l.node? l.tail = some last := by simp [node?, tail, heap]
    have links : Links dead.length (nodes ++ [last]) := by simpa using tailed.links
    have head : l.head = some dead.length := by simp [tailed.head]
    by_cases full : last.bufferArray.isFull = true
    · have pushed : l.push buf =
          { heap := dead ++ nodes ++ [{ last with next := some l.heap.length }] ++
              [{ bufferArray := ({} : TmpbufArray).push buf }]
            nodeCount := l.nodeCount + 1
            head := l.head
            tail := some l.heap.length } := by
        rw [TmpbufLinkedList.push, at_tail, some_counted]
        simp only [Option.any_some, full, Bool.or_true, if_true, Bool.false_eq_true, if_false]
        rw [tail, modifyNode, heap, modify_middle]
      have length : l.heap.length = dead.length + nodes.length + 1 := by simp [heap]; omega
      refine ⟨_, ⟨⟨?_, ?_, ?_⟩, ?_⟩, by simpa using Pushed.next full, ?_⟩
      · simp [pushed, length]
      · simp [pushed, head]
      · exact links_snoc links rfl (valid_first buf)
      · intro _
        simp [pushed, length]
        omega
      · simp [pushed]
    · have open' : last.bufferArray.isFull = false := by simpa using full
      have pushed : l.push buf =
          { l with
            heap := dead ++ nodes ++
              [{ last with bufferArray := last.bufferArray.push buf }] } := by
        rw [TmpbufLinkedList.push, at_tail, some_counted]
        simp only [Option.any_some, open', Bool.or_false, Bool.false_eq_true, if_false]
        rw [tail, modifyNode, heap, modify_middle, tail]
      refine ⟨_, ⟨⟨?_, ?_, ?_⟩, ?_⟩, by simpa using Pushed.room open', ?_⟩
      · simp [pushed]
      · simp [pushed, head]
      · exact links_last links (TmpbufArray.push_valid (links_array_valid links) open' buf)
      · intro _
        simp [pushed, tail]
      · simp [pushed]

theorem Tracked.counted (tracked : l.Tracked dead live) : l.nodeCount = 0 ↔ live = [] := by
  rw [← UInt32.toNat_inj, tracked.count, ← List.length_eq_zero_iff]
  rfl

theorem Tracked.push (tracked : l.Tracked dead live) (buf : Buffer)
    (fits : live.length + 1 < 2 ^ 32) :
    ∃ live', (l.push buf).Tracked dead live' ∧ Pushed dead.length buf live live' := by
  obtain ⟨live', tailed, pushed, count⟩ :=
    Tailed.push ⟨tracked.toLinked, tracked.tail⟩ tracked.counted buf
  refine ⟨live', ⟨tailed.toLinked, ?_, tailed.tail⟩, pushed⟩
  have more : live'.length - live.length ≤ 1 := by
    have length := pushed.length
    omega
  have small : live'.length - live.length < UInt32.size := Nat.lt_of_le_of_lt more (by decide)
  have length := pushed.length
  rw [count, UInt32.toNat_add, tracked.count, UInt32.toNat_ofNat_of_lt' small,
    Nat.mod_eq_of_lt (by omega)]
  omega

end TmpbufLinkedList

/-! ## Queues -/

namespace SerializableQueue

variable {q : SerializableQueue} {bufs : List Buffer}

/-- The buffers `bufs` are those that the next pops return. -/
structure Holds (q : SerializableQueue) (bufs : List Buffer) : Prop where
  array : q.array.Valid
  list : ∃ dead live, q.list.Linked dead live ∧
    bufs = q.array.rest ++ TmpbufLinkedList.contents live
  size : q.size = UInt32.ofNat bufs.length

/-- The queue is fresh but for pushes of `bufs`. -/
structure Filled (q : SerializableQueue) (bufs : List Buffer) : Prop where
  array : q.array.Valid
  start : q.array.curIdx = 0
  list : ∃ dead live, q.list.Tracked dead live ∧ live.length ≤ bufs.length ∧
    bufs = q.array.rest ++ TmpbufLinkedList.contents live ∧ (q.array.isFull = false → live = [])
  size : q.size = UInt32.ofNat bufs.length

theorem filled_new : ({} : SerializableQueue).Filled [] where
  array := TmpbufArray.valid_new
  start := rfl
  list := ⟨[], [], ⟨⟨rfl, rfl, trivial⟩, rfl, fun some_live => absurd rfl some_live⟩,
    Nat.le_refl _, rfl, fun _ => rfl⟩
  size := rfl

theorem Filled.push (filled : q.Filled bufs) (buf : Buffer) (fits : bufs.length + 1 < 2 ^ 32) :
    (q.push buf).Filled (bufs ++ [buf]) := by
  obtain ⟨dead, live, tracked, few, held, overflow⟩ := filled.list
  have size : q.size + 1 = UInt32.ofNat (bufs ++ [buf]).length := by
    rw [filled.size, List.length_append, UInt32.ofNat_add]
    rfl
  unfold SerializableQueue.push
  split
  · next full =>
    obtain ⟨live', tracked', pushed⟩ := tracked.push buf (by omega)
    have more := pushed.length
    refine ⟨filled.array, filled.start, ⟨dead, live', tracked', ?_, ?_, ?_⟩, size⟩
    · simp only [List.length_append, List.length_singleton]
      omega
    · rw [pushed.contents tracked.links, held, List.append_assoc]
    · intro open'
      simp [full] at open'
  · next open' =>
    have room : q.array.isFull = false := by simpa using open'
    obtain rfl := overflow room
    refine ⟨TmpbufArray.push_valid filled.array room buf, filled.start,
      ⟨dead, [], tracked, by simp, ?_, fun _ => rfl⟩, size⟩
    rw [TmpbufArray.rest_push filled.array, held]
    simp [TmpbufLinkedList.contents]

theorem filled_foldl (more : List Buffer) (filled : q.Filled bufs)
    (fits : bufs.length + more.length < 2 ^ 32) :
    (more.foldl SerializableQueue.push q).Filled (bufs ++ more) := by
  induction more generalizing q bufs with
  | nil => simpa using filled
  | cons buf more ih =>
    simp only [List.length_cons] at fits
    have next := ih (filled.push buf (by omega)) (by simp; omega)
    simpa using next

theorem Filled.holds (filled : q.Filled bufs) : q.Holds bufs := by
  obtain ⟨dead, live, tracked, _, held, _⟩ := filled.list
  exact ⟨filled.array, ⟨dead, live, tracked.toLinked, held⟩, filled.size⟩

/-- A queue from which nothing was popped can be moved. -/
theorem Filled.move (filled : q.Filled bufs) : q.move.Holds bufs := by
  obtain ⟨dead, live, tracked, _, held, _⟩ := filled.list
  have unchanged : q.array.move = q.array := by
    rw [TmpbufArray.move, ← filled.start]
  refine ⟨?_, ⟨dead, live, ⟨tracked.heap, tracked.head, tracked.links⟩, ?_⟩,
    filled.size⟩
  · rw [SerializableQueue.move, unchanged]
    exact filled.array
  · rw [held, SerializableQueue.move, unchanged]

theorem Holds.getBufferSize (holds : q.Holds bufs) :
    q.getBufferSize = UInt32.ofNat bufs.flatten.length := by
  obtain ⟨dead, live, linked, held⟩ := holds.list
  rw [SerializableQueue.getBufferSize, TmpbufArray.getBufferSize_eq, linked.getBufferSize, held,
    List.flatten_append, List.length_append, UInt32.ofNat_add]

theorem Holds.empty_iff (holds : q.Holds bufs) (fits : bufs.length < 2 ^ 32) :
    q.empty = true ↔ bufs = [] := by
  rw [empty, beq_iff_eq, holds.size, ← UInt32.toNat_inj, UInt32.toNat_ofNat_of_lt' fits,
    ← List.length_eq_zero_iff]
  rfl

/-- A pop returns the first buffer. -/
theorem Holds.pop {first : Buffer} (holds : q.Holds (first :: bufs)) :
    q.pop.1 = first ∧ q.pop.2.Holds bufs := by
  obtain ⟨dead, live, linked, held⟩ := holds.list
  have size : q.size - 1 = UInt32.ofNat bufs.length := by
    rw [holds.size, List.length_cons, UInt32.ofNat_add]
    exact UInt32.add_sub_cancel _ _
  unfold SerializableQueue.pop
  by_cases drained : q.array.empty = true
  · have none_left := (TmpbufArray.empty_iff holds.array).mp drained
    rw [if_pos drained]
    have enough : live.length ≤ q.list.heap.length + 1 := by
      rw [linked.heap, List.length_append]
      omega
    rw [none_left, List.nil_append] at held
    obtain ⟨popped, gone, node, nodes, -, -, -, linked', left, -⟩ :=
      TmpbufLinkedList.popLoop_spec (q.list.heap.length + 1) linked enough held.symm
    refine ⟨popped, holds.array, ⟨_, _, linked', ?_⟩, size⟩
    rw [none_left, left]
    rfl
  · rw [if_neg drained]
    obtain ⟨buf, others, array⟩ : ∃ buf others, q.array.rest = buf :: others := by
      apply List.exists_cons_of_ne_nil
      rwa [ne_eq, ← TmpbufArray.empty_iff holds.array]
    obtain ⟨popped, rest, valid⟩ := TmpbufArray.pop_spec holds.array array
    rw [array, List.cons_append] at held
    obtain ⟨rfl, rest_held⟩ := List.cons.inj held
    refine ⟨popped, valid, ⟨dead, live, linked, ?_⟩, size⟩
    rw [rest, rest_held]

/-- A queue returns all buffers that it holds and is empty then. -/
theorem Holds.drain (holds : q.Holds bufs) (fits : bufs.length < 2 ^ 32) :
    SerializableQueue.drain bufs.length q = bufs := by
  induction bufs generalizing q with
  | nil => rfl
  | cons first bufs ih =>
    have some_left : q.empty = false := by
      rw [← Bool.not_eq_true, holds.empty_iff fits]
      simp
    obtain ⟨popped, rest⟩ := holds.pop
    simp only [List.length_cons] at fits ⊢
    rw [SerializableQueue.drain, some_left, popped, ih rest (by omega)]
    rfl

theorem Holds.popAll (holds : q.Holds bufs) (fits : bufs.length < 2 ^ 32) : q.popAll = bufs := by
  rw [SerializableQueue.popAll, holds.size, UInt32.toNat_ofNat_of_lt' fits, holds.drain fits]

end SerializableQueue

end Hiactor
