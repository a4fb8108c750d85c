import Mathlib.Algebra.GroupWithZero.Nat
import Mathlib.Data.List.Basic
import Mathlib.Tactic.Common

/-!
# The queue of the buffers of a payload

Model of `serializable_queue` (`net/serializable_queue.hh`). The first `ARRAY_BUFFER_SIZE` buffers
are in an array of the queue itself, the others in a linked list of such arrays. The nodes of the
list are never freed before the list is, so that `heap` keeps them all and a pointer is an index.
A buffer that is moved out of its slot leaves an empty one there.
-/

namespace Hiactor

def ARRAY_BUFFER_SIZE : Nat := 4

abbrev Buffer := List UInt8

/-- `tmpbuf_array`: `buffers` are the slots below `size`. -/
structure TmpbufArray where
  buffers : List Buffer := []
  curIdx : Nat := 0
  deriving DecidableEq, Repr

namespace TmpbufArray

variable (a : TmpbufArray)

def isFull : Bool := a.buffers.length == ARRAY_BUFFER_SIZE

def empty : Bool := a.curIdx == a.buffers.length

def push (buf : Buffer) : TmpbufArray := { a with buffers := a.buffers ++ [buf] }

def pop : Buffer × TmpbufArray :=
  (a.buffers.getD a.curIdx [],
    { a with buffers := a.buffers.set a.curIdx [], curIdx := a.curIdx + 1 })

def getBufferSize : UInt32 :=
  (a.buffers.drop a.curIdx).foldl (fun total buf => total + UInt32.ofNat buf.length) 0

/-- `peek`. A read outside the array has no result. -/
def peek : Option Buffer :=
  if a.curIdx < ARRAY_BUFFER_SIZE then some (a.buffers.getD a.curIdx []) else none

/-- The move constructor does not take `cur_idx` over. -/
def move : TmpbufArray := { a with curIdx := 0 }

end TmpbufArray

/-- `tmpbuf_list_node`. -/
structure TmpbufListNode where
  bufferArray : TmpbufArray := {}
  next : Option Nat := none
  deriving DecidableEq, Repr

/-- `tmpbuf_linked_list`. -/
structure TmpbufLinkedList where
  heap : List TmpbufListNode := []
  nodeCount : UInt32 := 0
  head : Option Nat := none
  tail : Option Nat := none
  deriving DecidableEq, Repr

namespace TmpbufLinkedList

variable (l : TmpbufLinkedList)

/-- The node that a pointer leads to. -/
def node? (ptr : Option Nat) : Option TmpbufListNode := ptr.bind fun i => l.heap[i]?

/-- A write to the node that a pointer leads to. -/
def modifyNode (ptr : Option Nat) (f : TmpbufListNode → TmpbufListNode) : TmpbufLinkedList :=
  match ptr with
  | some i => { l with heap := l.heap.modify i f }
  | none => l

/-- `push`. A list with a `node_count` other than 0 has a tail. -/
def push (buf : Buffer) : TmpbufLinkedList :=
  if l.nodeCount == 0 || (l.node? l.tail).any (·.bufferArray.isFull) then
    let new := l.heap.length
    let linked := if l.nodeCount == 0 then l else l.modifyNode l.tail ({ · with next := some new })
    { heap := linked.heap ++ [{ bufferArray := ({} : TmpbufArray).push buf }]
      nodeCount := l.nodeCount + 1
      head := if l.nodeCount == 0 then some new else l.head
      tail := some new }
  else l.modifyNode l.tail fun node => { node with bufferArray := node.bufferArray.push buf }

/-- The loop of `pop`, with a bound for its rounds. -/
def popLoop : Nat → TmpbufLinkedList → Buffer × TmpbufLinkedList
  | 0, l => ([], l)
  | rounds + 1, l =>
    match l.node? l.head with
    | none => ([], l)
    | some node =>
      if node.bufferArray.empty then
        popLoop rounds { l with nodeCount := l.nodeCount - 1, head := node.next }
      else
        (node.bufferArray.pop.1,
          l.modifyNode l.head fun node => { node with bufferArray := node.bufferArray.pop.2 })

/-- `pop`: every round but the last leaves a node. -/
def pop : Buffer × TmpbufLinkedList := popLoop (l.heap.length + 1) l

/-- `peek` looks at the head. -/
def peek : Option Buffer := (l.node? l.head).bind (·.bufferArray.peek)

/-- The loop of `get_buffer_size`, with a bound for its rounds. -/
def bufferSizeLoop : Nat → Option Nat → UInt32 → UInt32
  | 0, _, total => total
  | rounds + 1, ptr, total =>
    match l.node? ptr with
    | none => total
    | some node => bufferSizeLoop rounds node.next (total + node.bufferArray.getBufferSize)

def getBufferSize : UInt32 := l.bufferSizeLoop (l.heap.length + 1) l.head 0

/-- The move constructor does not take `node_count` over. -/
def move : TmpbufLinkedList := { l with nodeCount := 0 }

end TmpbufLinkedList

/-- `serializable_queue`. -/
structure SerializableQueue where
  array : TmpbufArray := {}
  list : TmpbufLinkedList := {}
  size : UInt32 := 0
  deriving DecidableEq, Repr

namespace SerializableQueue

variable (q : SerializableQueue)

def push (buf : Buffer) : SerializableQueue :=
  if q.array.isFull then { q with list := q.list.push buf, size := q.size + 1 }
  else { q with array := q.array.push buf, size := q.size + 1 }

def pop : Buffer × SerializableQueue :=
  if q.array.empty then (q.list.pop.1, { q with list := q.list.pop.2, size := q.size - 1 })
  else (q.array.pop.1, { q with array := q.array.pop.2, size := q.size - 1 })

def peek : Option Buffer := if q.array.empty then q.list.peek else q.array.peek

def empty : Bool := q.size == 0

def getBufferSize : UInt32 := q.array.getBufferSize + q.list.getBufferSize

/-- The move constructor moves the members one by one. -/
def move : SerializableQueue := { array := q.array.move, list := q.list.move, size := q.size }

/-- Pops until the queue is empty, at most `rounds` times. -/
def drain : Nat → SerializableQueue → List Buffer
  | 0, _ => []
  | rounds + 1, q => if q.empty then [] else q.pop.1 :: drain rounds q.pop.2

/-- All buffers of the queue: each pop lowers `size` by one. -/
def popAll : List Buffer := drain q.size.toNat q

end SerializableQueue

inductive QueueOp where
  | push (buf : Buffer)
  | pop
  deriving DecidableEq, Repr

/-- What a user of a queue sees of an operation and after it. -/
structure QueueOutput where
  popped : Option Buffer
  size : UInt32
  empty : Bool
  bufferSize : UInt32
  deriving DecidableEq, Repr

namespace SerializableQueue

def output (q : SerializableQueue) (popped : Option Buffer) : QueueOutput :=
  ⟨popped, q.size, q.empty, q.getBufferSize⟩

/-- What is seen of a sequence of operations. `pop` is called only when the queue is not empty. -/
def outputs (q : SerializableQueue) : List QueueOp → Option (List QueueOutput)
  | [] => some []
  | .push buf :: ops => ((q.push buf).outputs ops).map ((q.push buf).output none :: ·)
  | .pop :: ops =>
    if q.empty then none
    else (q.pop.2.outputs ops).map (q.pop.2.output (some q.pop.1) :: ·)

end SerializableQueue

/-- A queue with the buffers that were pushed and those that were popped. -/
structure QueueUse where
  queue : SerializableQueue := {}
  pushed : List Buffer := []
  popped : List Buffer := []
  deriving DecidableEq, Repr

namespace QueueUse

/-- `pop` is called only when the queue is not empty. -/
def step (u : QueueUse) : QueueOp → Option QueueUse
  | .push buf => some { u with queue := u.queue.push buf, pushed := u.pushed ++ [buf] }
  | .pop =>
    if u.queue.empty then none
    else some { u with queue := u.queue.pop.2, popped := u.popped ++ [u.queue.pop.1] }

/-- The number of buffers in the queue fits in 32 bits. -/
def Counts (u : QueueUse) : QueueOp → Prop
  | .push _ => u.pushed.length + 1 < u.popped.length + 2 ^ 32
  | .pop => True

instance (u : QueueUse) : ∀ op, Decidable (u.Counts op)
  | .push _ => inferInstanceAs (Decidable (_ < _))
  | .pop => isTrue trivial

end QueueUse

end Hiactor
