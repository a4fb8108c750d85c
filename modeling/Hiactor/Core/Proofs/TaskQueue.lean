import Hiactor.Core.TaskQueue

/-!
# The order in which a group runs its children

No child is lost or duplicated in the queue, urgent ones come first in their order, and the others
in their order or by the comparator. The heap is made again only after a push: between two pushes
what is left by `pop_heap` is still a heap, as long as the comparison of the queued actors stays
what it is.
-/

namespace Hiactor

open Lib

variable {α : Type} {std : HeapFunctions α}

namespace TaskQueue

variable {t t' : TaskQueue α} {a : α}

/-! ## One pop -/

theorem scheduled_perm (t : TaskQueue α) (compare : α → α → Bool) :
    (t.scheduled std compare).Perm t.q := by
  unfold scheduled
  split
  · exact std.makeHeap_perm compare t.q
  · exact .refl t.q

/-- What `pop_heap` leaves, and its last element. -/
theorem popTask_heap {compare : α → α → Bool} (noUrgent : t.urgentQ = [])
    (comparator : t.comparator = some compare) (popped : t.popTask std = some (a, t')) :
    (std.popHeap compare (t.scheduled std compare)).getLast? = some a ∧
      t' = { t with
        q := (std.popHeap compare (t.scheduled std compare)).dropLast
        needScheduling := false } := by
  simp only [popTask, noUrgent, comparator] at popped
  split at popped
  · cases popped
  · rename_i front last
    obtain ⟨rfl, rfl⟩ := Prod.mk.inj (Option.some.inj popped)
    exact ⟨last, by rw [noUrgent, comparator]⟩

theorem popTask_popsInOrder (popped : t.popTask std = some (a, t')) : t.PopsInOrder a t' := by
  cases urgent : t.urgentQ with
  | cons front rest =>
    simp only [popTask, urgent] at popped
    obtain ⟨rfl, rfl⟩ := Prod.mk.inj (Option.some.inj popped)
    refine ⟨fun _ => ⟨urgent, rfl⟩, fun none => ?_, fun none => ?_⟩
    · rw [urgent] at none
      cases none
    · rw [urgent] at none
      cases none
  | nil =>
    refine ⟨fun some => absurd urgent some, fun _ => ?_, fun _ noComparator => ?_⟩
    · cases comparator : t.comparator with
      | none =>
        simp only [popTask, urgent, comparator] at popped
        split at popped
        · cases popped
        · rename_i front rest queued
          obtain ⟨rfl, rfl⟩ := Prod.mk.inj (Option.some.inj popped)
          exact ⟨rfl, by rw [queued]⟩
      | some compare =>
        obtain ⟨last, rfl⟩ := popTask_heap urgent comparator popped
        refine ⟨urgent, ?_⟩
        obtain ⟨rest, split⟩ := List.getLast?_eq_some_iff.mp last
        have same := (std.popHeap_perm compare (t.scheduled std compare)).trans
          (t.scheduled_perm compare)
        rw [split] at same ⊢
        rw [List.dropLast_concat]
        exact (List.perm_append_singleton a rest).symm.trans same
    · simp only [popTask, urgent, noComparator] at popped
      split at popped
      · cases popped
      · rename_i front rest queued
        obtain ⟨rfl, rfl⟩ := Prod.mk.inj (Option.some.inj popped)
        exact queued

/-- A queue that is not empty has a front. -/
theorem exists_popTask (std : HeapFunctions α) (nonempty : t.empty = false) :
    ∃ a t', t.popTask std = some (a, t') := by
  unfold popTask
  cases urgent : t.urgentQ with
  | cons front rest => exact ⟨front, _, rfl⟩
  | nil =>
    have queued : t.q ≠ [] := by
      intro none
      simp [empty, urgent, none] at nonempty
    cases comparator : t.comparator with
    | none =>
      obtain ⟨front, rest, queued⟩ := List.exists_cons_of_ne_nil queued
      rw [queued]
      exact ⟨front, _, rfl⟩
    | some compare =>
      have same := (std.popHeap_perm compare (t.scheduled std compare)).trans
        (t.scheduled_perm compare)
      have left : std.popHeap compare (t.scheduled std compare) ≠ [] := by
        intro none
        rw [none] at same
        exact queued same.symm.eq_nil
      have last := List.getLast?_eq_some_getLast left
      simp only [last]
      exact ⟨_, _, rfl⟩

theorem comparator_popTask (popped : t.popTask std = some (a, t')) :
    t'.comparator = t.comparator := by
  cases urgent : t.urgentQ with
  | cons front rest =>
    simp only [popTask, urgent] at popped
    obtain ⟨-, rfl⟩ := Prod.mk.inj (Option.some.inj popped)
    rfl
  | nil =>
    cases comparator : t.comparator with
    | none =>
      simp only [popTask, urgent, comparator] at popped
      split at popped
      · cases popped
      · obtain ⟨-, rfl⟩ := Prod.mk.inj (Option.some.inj popped)
        rfl
    | some compare =>
      obtain ⟨-, rfl⟩ := popTask_heap urgent comparator popped
      exact comparator

/-! ## The heap -/

/-- The comparator is an order, and the queue is a heap unless a push has asked for a new one. -/
def Heaped (t : TaskQueue α) : Prop :=
  ∀ compare, t.comparator = some compare →
    StrictWeak compare ∧ (t.needScheduling = false → IsHeap compare t.q)

theorem Heaped.isHeap_scheduled {compare : α → α → Bool} (heaped : t.Heaped)
    (comparator : t.comparator = some compare) : IsHeap compare (t.scheduled std compare) := by
  obtain ⟨order, kept⟩ := heaped compare comparator
  unfold scheduled
  split
  · exact std.isHeap_makeHeap compare t.q order
  · rename_i notNeeded
    exact kept (Bool.eq_false_iff.mpr notNeeded)

/-- A pop by the comparator takes the front of a heap and leaves a heap. -/
theorem Heaped.popTask {compare : α → α → Bool} (heaped : t.Heaped) (noUrgent : t.urgentQ = [])
    (comparator : t.comparator = some compare) (popped : t.popTask std = some (a, t')) :
    (∀ b ∈ t'.q, compare a b = false) ∧ IsHeap compare t'.q := by
  obtain ⟨order, -⟩ := heaped compare comparator
  obtain ⟨last, rfl⟩ := popTask_heap noUrgent comparator popped
  have heap : IsHeap compare (t.scheduled std compare) := heaped.isHeap_scheduled comparator
  have same := std.popHeap_perm compare (t.scheduled std compare)
  cases range : t.scheduled std compare with
  | nil =>
    rw [range] at last same
    rw [same.eq_nil] at last
    cases last
  | cons front rest =>
    rw [range] at last heap same
    have isFront := std.getLast_popHeap compare front rest order heap
    obtain rfl := Option.some.inj (last.symm.trans isFront)
    refine ⟨fun b left => ?_, std.isHeap_popHeap compare a rest order heap⟩
    exact heap.front_le order b (same.subset (List.dropLast_subset _ left))

end TaskQueue

/-! ## Runs -/

namespace TaskQueueUse

variable {u u' : TaskQueueUse α}

/-- What was pushed is popped or still queued. -/
structure Accounts (u : TaskQueueUse α) : Prop where
  urgent : u.pushedUrgent = u.poppedUrgent ++ u.queue.urgentQ
  other : u.pushed.Perm (u.popped ++ u.queue.q)
  fifo : u.queue.comparator = none → u.pushed = u.popped ++ u.queue.q

theorem Accounts.step {op : TaskQueueOp α} (accounts : u.Accounts)
    (taken : u.step std op = some u') : u'.Accounts := by
  cases op with
  | pushTask a =>
    obtain rfl := Option.some.inj taken
    refine ⟨accounts.urgent, ?_, fun noComparator => ?_⟩
    · have more := accounts.other.append_right [a]
      rw [List.append_assoc] at more
      exact more
    · show u.pushed ++ [a] = u.popped ++ (u.queue.q ++ [a])
      rw [accounts.fifo noComparator, List.append_assoc]
  | pushUrgentTask a =>
    obtain rfl := Option.some.inj taken
    refine ⟨?_, accounts.other, accounts.fifo⟩
    show u.pushedUrgent ++ [a] = u.poppedUrgent ++ (u.queue.urgentQ ++ [a])
    rw [accounts.urgent, List.append_assoc]
  | actorsChange compare =>
    obtain rfl := Option.some.inj taken
    exact ⟨accounts.urgent, accounts.other, fun none =>
      accounts.fifo (Option.map_eq_none_iff.mp none)⟩
  | popTask =>
    simp only [TaskQueueUse.step] at taken
    split at taken
    · cases taken
    · rename_i a queue popped
      have ordered := TaskQueue.popTask_popsInOrder popped
      have comparator := TaskQueue.comparator_popTask popped
      split at taken
      · rename_i noUrgent
        obtain rfl := Option.some.inj taken
        have noUrgent := List.isEmpty_iff.mp noUrgent
        obtain ⟨stillNone, same⟩ := ordered.other noUrgent
        refine ⟨?_, ?_, fun noComparator => ?_⟩
        · show u.pushedUrgent = u.poppedUrgent ++ queue.urgentQ
          rw [accounts.urgent, noUrgent, stillNone]
        · show u.pushed.Perm (u.popped ++ [a] ++ queue.q)
          rw [List.append_assoc]
          exact accounts.other.trans (same.symm.append_left u.popped)
        · have queued := ordered.fifo noUrgent (comparator ▸ noComparator)
          show u.pushed = u.popped ++ [a] ++ queue.q
          rw [accounts.fifo (comparator ▸ noComparator), queued, List.append_assoc]
          rfl
      · rename_i someUrgent
        obtain rfl := Option.some.inj taken
        obtain ⟨urgent, same⟩ := ordered.urgent (fun none => someUrgent (by simp [none]))
        refine ⟨?_, ?_, fun noComparator => ?_⟩
        · show u.pushedUrgent = u.poppedUrgent ++ [a] ++ queue.urgentQ
          rw [accounts.urgent, urgent, List.append_assoc]
          rfl
        · show u.pushed.Perm (u.popped ++ queue.q)
          rw [same]
          exact accounts.other
        · show u.pushed = u.popped ++ queue.q
          rw [same]
          exact accounts.fifo (comparator ▸ noComparator)

theorem comparator_step {op : TaskQueueOp α} (taken : u.step std op = some u') :
    u'.queue.comparator.isNone = u.queue.comparator.isNone := by
  cases op with
  | pushTask a =>
    obtain rfl := Option.some.inj taken
    rfl
  | pushUrgentTask a =>
    obtain rfl := Option.some.inj taken
    rfl
  | actorsChange compare =>
    obtain rfl := Option.some.inj taken
    exact Option.isNone_map
  | popTask =>
    simp only [TaskQueueUse.step] at taken
    split at taken
    · cases taken
    · rename_i a queue popped
      have comparator := TaskQueue.comparator_popTask popped
      split at taken
      · obtain rfl := Option.some.inj taken
        rw [← comparator]
      · obtain rfl := Option.some.inj taken
        rw [← comparator]

/-- The heap is kept by every call while the comparison of the queued actors does not change. -/
theorem heaped_step {op : TaskQueueOp α} (heaped : u.queue.Heaped) (steady : u.Steady op)
    (taken : u.step std op = some u') : u'.queue.Heaped := by
  cases op with
  | pushTask a =>
    obtain rfl := Option.some.inj taken
    exact fun compare comparator => ⟨(heaped compare comparator).1, fun kept => nomatch kept⟩
  | pushUrgentTask a =>
    obtain rfl := Option.some.inj taken
    exact heaped
  | actorsChange compare =>
    obtain rfl := Option.some.inj taken
    intro compare' changed
    obtain ⟨current, comparator, rfl⟩ := Option.map_eq_some_iff.mp changed
    obtain ⟨order, same⟩ := steady
    exact ⟨order, fun kept => ((heaped current comparator).2 kept).congr (same current comparator)⟩
  | popTask =>
    simp only [TaskQueueUse.step] at taken
    split at taken
    · cases taken
    · rename_i a queue popped
      have after : u'.queue = queue := by
        split at taken
        · obtain rfl := Option.some.inj taken
          rfl
        · obtain rfl := Option.some.inj taken
          rfl
      rw [after]
      intro compare comparator
      rw [TaskQueue.comparator_popTask popped] at comparator
      refine ⟨(heaped compare comparator).1, fun kept => ?_⟩
      cases urgent : u.queue.urgentQ with
      | nil => exact (heaped.popTask urgent comparator popped).2
      | cons front rest =>
        simp only [TaskQueue.popTask, urgent] at popped
        obtain ⟨-, rfl⟩ := Prod.mk.inj (Option.some.inj popped)
        exact (heaped compare comparator).2 kept

/-- The order of scheduling, over any use of a queue. -/
theorem scheduling_order (std : HeapFunctions α) (comparator : Option (α → α → Bool))
    (ops : List (TaskQueueOp α)) (u : TaskQueueUse α)
    (ran : run (step std) (init comparator) ops = some u) :
    (u.pushed ++ u.pushedUrgent).Perm
        (u.popped ++ u.poppedUrgent ++ (u.queue.urgentQ ++ u.queue.q)) ∧
      u.pushedUrgent = u.poppedUrgent ++ u.queue.urgentQ ∧
      (comparator = none → u.pushed = u.popped ++ u.queue.q) ∧
      (u.queue.empty = false → ∃ a t, u.queue.popTask std = some (a, t)) ∧
      ∀ a t, u.queue.popTask std = some (a, t) → u.queue.PopsInOrder a t ∧
        ((∀ compare, comparator = some compare → StrictWeak compare) →
          StepsMeet (step std) Steady (init comparator) ops → u.queue.urgentQ = [] →
          ∀ compare, u.queue.comparator = some compare → ∀ b ∈ t.q, compare a b = false) := by
  have accounts : u.Accounts := run_invariant Accounts
    (fun _ _ _ accounts taken => accounts.step taken) ops _ u
    ⟨rfl, .refl _, fun _ => rfl⟩ ran
  have sameKind : u.queue.comparator.isNone = comparator.isNone :=
    run_invariant (fun v => v.queue.comparator.isNone = comparator.isNone)
      (fun _ _ _ same taken => (comparator_step taken).trans same) ops _ u rfl ran
  refine ⟨?_, accounts.urgent, fun none => ?_, TaskQueue.exists_popTask std, fun a t popped => ?_⟩
  · have all := accounts.other.append (.of_eq accounts.urgent)
    have swap : (u.queue.q ++ (u.poppedUrgent ++ u.queue.urgentQ)).Perm
        (u.poppedUrgent ++ (u.queue.urgentQ ++ u.queue.q)) := by
      rw [← List.append_assoc u.poppedUrgent]
      exact List.perm_append_comm
    rw [List.append_assoc] at all ⊢
    exact all.trans (swap.append_left u.popped)
  · exact accounts.fifo (by simpa [none] using sameKind)
  · refine ⟨TaskQueue.popTask_popsInOrder popped, fun order steady noUrgent compare current => ?_⟩
    have start : (init comparator).queue.Heaped :=
      fun compare same => ⟨order compare same, fun _ => isHeap_nil compare⟩
    have heaped : u.queue.Heaped := run_invariant_of_meets (fun v => v.queue.Heaped)
      (fun _ _ _ heaped steady taken => heaped_step heaped steady taken) ops _ u start steady ran
    exact (heaped.popTask noUrgent current popped).1

/-- Three tasks by the comparator of the numbers, an urgent one, and a fourth that is queued after
the first pop of the heap. -/
theorem scheduling_order_numbers : ∃ u,
    run (step (.sorting Nat)) (init (some fun a b => decide (a < b)))
      [.pushTask 1, .pushTask 2, .pushTask 3, .pushUrgentTask 0, .popTask, .popTask] = some u ∧
    u.queue.popTask (.sorting Nat) = some (2, { u.queue with q := [1] }) ∧
    ∀ b ∈ [1], decide (2 < b) = false := by
  have order : StrictWeak (fun a b : Nat => decide (a < b)) :=
    { irrefl := by simp
      trans := fun a b c first second => by
        simp only [decide_eq_true_eq] at first second ⊢
        omega
      incomp_trans := fun a b c first second => by
        simp only [decide_eq_true_eq] at first second ⊢
        omega }
  refine ⟨_, rfl, rfl, ?_⟩
  exact ((scheduling_order (.sorting Nat) (some fun a b => decide (a < b))
    [.pushTask 1, .pushTask 2, .pushTask 3, .pushUrgentTask 0, .popTask, .popTask] _ rfl).2.2.2.2
      2 _ rfl).2 (fun compare same => Option.some.inj same ▸ order)
    (by simp [StepsMeet, Steady]) rfl _ rfl

end TaskQueueUse

end Hiactor
