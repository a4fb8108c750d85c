import Mathlib.Data.List.ProdSigma
import Mathlib.Data.List.Nodup
import Hiactor.Core.Channel

/-!
# What a queue holds

The messages in a queue, in the order in which they come out of it: those that `process_incoming`
has popped and not yet handled, the ring, and the deque of the producer. Every operation but the
ones of `send` moves messages along this line and keeps their order. No operation but `start` and
the destructor changes whether the deque exists.
-/

namespace Hiactor

/-- What is popped and not yet handled. -/
def Incoming.inHand {α : Type} : Incoming α → List α
  | .idle => []
  | .first tm => [tm]
  | .loop messages nr i tm => tm :: (messages.drop i).take (nr - i)

/-- The loop of `process_incoming` reads inside its array. -/
def Incoming.InBounds {α : Type} : Incoming α → Prop
  | .loop messages nr i _ => i ≤ nr ∧ nr < messages.length
  | _ => True

namespace MessageQueue

variable {α : Type} {q q' : MessageQueue α}

@[simp] theorem fifo_of_tx {fifo : List α} (tx : q.tx = some fifo) : q.fifo = fifo := by
  simp [MessageQueue.fifo, tx]

/-! ## The deque -/

/-- The operation leaves the queue in `q'`: it has a deque, and the messages popped are not
touched. -/
structure Produces (q q' : MessageQueue α) : Prop where
  tx : q.tx.isSome = true
  tx' : q'.tx.isSome = true
  incoming : q'.incoming = q.incoming

theorem movePending_eq_some (moved : q.movePending = some q') :
    ∃ nr, nr ≤ q.fifo.length ∧ Produces q q' ∧ q'.fifo = q.fifo.drop nr ∧
      q'.pending = q.pending ++ q.fifo.take nr ∧
      nr = min q.fifo.length (queueLength - q.pending.length) := by
  unfold movePending at moved
  cases tx : q.tx with
  | none => simp [tx] at moved
  | some fifo =>
    simp only [tx, Option.map_some, Option.some.injEq] at moved
    subst moved
    refine ⟨_, ?_, ⟨by simp [tx], rfl, rfl⟩, ?_, ?_, rfl⟩
    · exact Nat.min_le_left _ _
    · simp [MessageQueue.fifo, tx]
    · simp [MessageQueue.fifo, tx]

theorem movePending_isSome : q.movePending.isSome = q.tx.isSome := by
  simp [movePending]

theorem pushed_isSome (fifo : List α) : (q.pushed fifo).isSome = true := by
  unfold pushed
  split
  · simp [movePending]
  · simp

theorem send_isSome (msg : α) : (q.send msg).isSome = q.tx.isSome := by
  unfold send
  cases q.tx with
  | none => rfl
  | some fifo => exact pushed_isSome _

theorem sendUrgent_isSome (msg : α) : (q.sendUrgent msg).isSome = q.tx.isSome := by
  unfold sendUrgent
  cases q.tx with
  | none => rfl
  | some fifo => exact pushed_isSome _

theorem flushRequestBatch_isSome : q.flushRequestBatch.isSome = q.tx.isSome := by
  unfold flushRequestBatch
  cases tx : q.tx with
  | none => rfl
  | some fifo =>
    rw [Option.bind_some]
    split
    · rw [movePending_isSome, tx]
    · rfl

theorem destroy_isSome (sameRemote : Bool) :
    (q.destroy sameRemote).isSome = (sameRemote || q.tx.isSome) := by
  cases sameRemote <;> simp [destroy]

theorem tx_pushed {fifo : List α} (done : q.pushed fifo = some q') : q'.tx.isSome = true := by
  unfold pushed at done
  split at done
  · obtain ⟨_, _, produces, _⟩ := movePending_eq_some done
    exact produces.tx'
  · obtain rfl := Option.some.inj done
    rfl

theorem tx_send {msg : α} (done : q.send msg = some q') : q'.tx.isSome = true := by
  obtain ⟨fifo, _, pushed⟩ := Option.bind_eq_some_iff.mp done
  exact tx_pushed pushed

theorem tx_sendUrgent {msg : α} (done : q.sendUrgent msg = some q') : q'.tx.isSome = true := by
  obtain ⟨fifo, _, pushed⟩ := Option.bind_eq_some_iff.mp done
  exact tx_pushed pushed

/-- A flush leaves nothing behind exactly when the ring has room for all. -/
theorem flushRequestBatch_eq_some (flushed : q.flushRequestBatch = some q') :
    Produces q q' ∧
      (q'.fifo = [] ↔ q.fifo = [] ∨ q.fifo.length + q.pending.length ≤ queueLength) := by
  unfold flushRequestBatch at flushed
  obtain ⟨fifo, tx, moved⟩ := Option.bind_eq_some_iff.mp flushed
  split at moved
  · obtain ⟨nr, _, produces, left, _, count⟩ := movePending_eq_some moved
    refine ⟨produces, ?_⟩
    rw [left, List.drop_eq_nil_iff, count]
    have some_waiting : 0 < q.fifo.length := by
      rw [fifo_of_tx tx]
      exact List.length_pos_iff.mpr ‹_›
    rw [← List.length_eq_zero_iff]
    omega
  · obtain rfl := Option.some.inj moved
    have nothing : fifo = [] := by simpa using ‹¬ fifo ≠ []›
    refine ⟨⟨by simp [tx], by simp [tx], rfl⟩, ?_⟩
    simp [fifo_of_tx tx, nothing]

/-! ## Popping and handling -/

theorem popFirst_eq_some (popped : q.popFirst = some q') :
    ∃ tm, q.incoming = .idle ∧ q.pending = tm :: q'.pending ∧ q'.incoming = .first tm ∧
      q'.tx = q.tx := by
  unfold popFirst at popped
  split at popped
  · next tm pending idle ring =>
    obtain rfl := Option.some.inj popped
    exact ⟨tm, idle, ring, rfl, rfl⟩
  · cases popped

theorem popRest_eq_some (popped : q.popRest = some q') :
    ∃ tm, q.incoming = .first tm ∧ q'.pending = [] ∧ q'.tx = q.tx ∧
      q'.incoming = .loop (q.pending ++ List.replicate prefetchCnt (q.pending.getLastD tm))
        q.pending.length 0 tm := by
  unfold popRest at popped
  split at popped
  · next tm first =>
    obtain rfl := Option.some.inj popped
    exact ⟨tm, first, rfl, rfl, rfl⟩
  · cases popped

theorem handleNext_eq_some {msg : α} (handled : q.handleNext = some (msg, q')) :
    ∃ messages nr i next, q.incoming = .loop messages nr i msg ∧ messages[i]? = some next ∧
      q'.pending = q.pending ∧ q'.tx = q.tx ∧
      q'.incoming = if i + 1 ≤ nr then .loop messages nr (i + 1) next else .idle := by
  unfold handleNext at handled
  split at handled
  · next messages nr i tm loop =>
    obtain ⟨next, read, result⟩ := Option.map_eq_some_iff.mp handled
    cases result
    exact ⟨messages, nr, i, next, loop, read, rfl, rfl, rfl⟩
  · cases handled

/-! ## Order -/

/-- The messages in a queue, those first that come out first. -/
def contents (q : MessageQueue α) : List α := q.incoming.inHand ++ q.pending ++ q.fifo

/-- The loop of `process_incoming` is inside its array. -/
def InBounds (q : MessageQueue α) : Prop := q.incoming.InBounds

theorem contents_movePending (moved : q.movePending = some q') :
    q'.contents = q.contents ∧ (q.InBounds → q'.InBounds) := by
  obtain ⟨nr, _, produces, left, ring, _⟩ := movePending_eq_some moved
  constructor
  · simp [contents, produces.incoming, left, ring]
  · simp [InBounds, produces.incoming]

theorem contents_pushed {fifo : List α} (done : q.pushed fifo = some q') :
    q'.contents = q.incoming.inHand ++ q.pending ++ fifo ∧ (q.InBounds → q'.InBounds) := by
  unfold pushed at done
  split at done
  · exact contents_movePending done
  · obtain rfl := Option.some.inj done
    exact ⟨rfl, id⟩

theorem contents_send {msg : α} (done : q.send msg = some q') :
    q'.contents = q.contents ++ [msg] ∧ (q.InBounds → q'.InBounds) := by
  obtain ⟨fifo, tx, pushed⟩ := Option.bind_eq_some_iff.mp done
  obtain ⟨held, inBounds⟩ := contents_pushed pushed
  refine ⟨?_, inBounds⟩
  rw [held, contents, fifo_of_tx tx]
  simp

theorem contents_flushRequestBatch (flushed : q.flushRequestBatch = some q') :
    q'.contents = q.contents ∧ (q.InBounds → q'.InBounds) := by
  obtain ⟨fifo, tx, moved⟩ := Option.bind_eq_some_iff.mp flushed
  split at moved
  · exact contents_movePending moved
  · obtain rfl := Option.some.inj moved
    exact ⟨rfl, id⟩

theorem contents_popFirst (popped : q.popFirst = some q') :
    q'.contents = q.contents ∧ q'.InBounds := by
  obtain ⟨tm, idle, ring, first, tx⟩ := popFirst_eq_some popped
  constructor
  · simp [contents, idle, ring, first, Incoming.inHand, fifo, tx]
  · simp [InBounds, first, Incoming.InBounds]

theorem contents_popRest (popped : q.popRest = some q') :
    q'.contents = q.contents ∧ q'.InBounds := by
  obtain ⟨tm, first, ring, tx, loop⟩ := popRest_eq_some popped
  constructor
  · simp [contents, first, ring, loop, Incoming.inHand, fifo, tx]
  · simp [InBounds, loop, Incoming.InBounds, prefetchCnt]

/-- A round of the loop handles the first of the messages. -/
theorem contents_handleNext {msg : α} (handled : q.handleNext = some (msg, q'))
    (inBounds : q.InBounds) : q.contents = msg :: q'.contents ∧ q'.InBounds := by
  obtain ⟨messages, nr, i, next, loop, read, ring, tx, incoming⟩ := handleNext_eq_some handled
  simp only [InBounds, loop, Incoming.InBounds] at inBounds
  have here : messages.drop i = next :: messages.drop (i + 1) := by
    rw [List.drop_eq_getElem?_toList_append, read]
    rfl
  by_cases more : i + 1 ≤ nr
  · rw [if_pos more] at incoming
    have count : nr - i = nr - (i + 1) + 1 := by omega
    constructor
    · simp [contents, loop, ring, tx, incoming, Incoming.inHand, here, count, fifo]
    · simp only [InBounds, incoming, Incoming.InBounds]
      omega
  · rw [if_neg more] at incoming
    have last : nr - i = 0 := by omega
    constructor
    · simp [contents, loop, ring, tx, incoming, Incoming.inHand, last, fifo]
    · simp [InBounds, incoming, Incoming.InBounds]

end MessageQueue

namespace Channel

variable {α : Type} (c : Channel α)

@[simp] theorem count_set (i j : Nat) (q : MessageQueue α) : (c.set i j q).count = c.count := rfl

@[simp] theorem qs_set_self (i j : Nat) (q : MessageQueue α) : (c.set i j q).qs i j = q := by
  simp [set]

theorem qs_set_of_ne {i j k l : Nat} (q : MessageQueue α) (other : ¬ (k = i ∧ l = j)) :
    (c.set i j q).qs k l = c.qs k l := by
  unfold set
  by_cases row : k = i
  · subst row
    have column : l ≠ j := fun same => other ⟨rfl, same⟩
    simp [column]
  · simp [row]

/-- The queues are empty when shards have started theirs. -/
theorem contents_started (count : Nat) (shards : List Nat) (i j : Nat) :
    ((shards.foldl startAllQueues (create count : Channel α)).qs i j).contents = [] ∧
      ((shards.foldl startAllQueues (create count : Channel α)).qs i j).InBounds := by
  have all (c : Channel α)
      (empty : ∀ i j, (c.qs i j).pending = [] ∧ (c.qs i j).incoming = .idle ∧
        (c.qs i j).fifo = []) :
      ∀ i j, ((shards.foldl startAllQueues c).qs i j).contents = [] ∧
        ((shards.foldl startAllQueues c).qs i j).InBounds := by
    induction shards generalizing c with
    | nil =>
      intro i j
      obtain ⟨ring, idle, fifo⟩ := empty i j
      simp [MessageQueue.contents, MessageQueue.InBounds, ring, idle, fifo, Incoming.inHand,
        Incoming.InBounds]
    | cons s shards ih =>
      refine ih _ fun i j => ?_
      obtain ⟨ring, idle, fifo⟩ := empty i j
      simp only [startAllQueues]
      split
      · exact ⟨ring, idle, rfl⟩
      · exact ⟨ring, idle, fifo⟩
  exact all _ (fun _ _ => ⟨rfl, rfl, rfl⟩) i j

theorem pairs_nodup : c.pairs.Nodup := by
  have product : (List.range c.count ×ˢ List.range c.count).Nodup :=
    List.Nodup.product List.nodup_range List.nodup_range
  exact product

theorem mem_pairs {i j : Nat} : (i, j) ∈ c.pairs ↔ i < c.count ∧ j < c.count := by
  simp [pairs]

/-- The destructors succeed when all queues between different shards have their deque. -/
theorem destroyAll_isSome
    (constructed : ∀ i j, i < c.count → j < c.count → i ≠ j → (c.qs i j).tx.isSome = true) :
    c.destroyAll.isSome = true := by
  suffices destroyed : ∀ (queues : List (Nat × Nat)) (c : Channel α), queues.Nodup →
      (∀ i j, (i, j) ∈ queues → i ≠ j → (c.qs i j).tx.isSome = true) →
      (queues.foldlM destroyQueue c).isSome = true by
    refine destroyed c.pairs c c.pairs_nodup fun i j listed => ?_
    obtain ⟨row, column⟩ := c.mem_pairs.mp listed
    exact constructed i j row column
  intro queues
  induction queues with
  | nil => intro c _ _; rfl
  | cons first queues ih =>
    intro c nodup constructed
    obtain ⟨i, j⟩ := first
    obtain ⟨unlisted, nodup⟩ := List.nodup_cons.mp nodup
    have done : ((c.qs i j).destroy (i == j)).isSome = true := by
      rw [MessageQueue.destroy_isSome]
      by_cases same : i = j
      · simp [same]
      · simp [constructed i j (by simp) same]
    obtain ⟨q, destroyed⟩ := Option.isSome_iff_exists.mp done
    simp only [List.foldlM_cons, destroyQueue, modify, destroyed, Option.map_some,
      Option.bind_eq_bind, Option.bind_some]
    refine ih _ nodup fun k l listed differ => ?_
    have other : ¬ (k = i ∧ l = j) := by
      rintro ⟨rfl, rfl⟩
      exact unlisted listed
    rw [c.qs_set_of_ne q other]
    exact constructed k l (List.mem_cons_of_mem _ listed) differ

end Channel

end Hiactor
