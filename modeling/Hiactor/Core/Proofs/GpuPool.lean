import Hiactor.Lib.Run
import Hiactor.Core.GpuPool

/-!
# Offered streams

As long as every task uses the id that it popped and gets to its increment, the counter of a stream
is the number of its tasks, and its id is offered once while the counter is below the limit and
nowhere when it has reached it. A task that had to wait reads its id from the slot of an ended
frame, and one whose function throws takes its id with it.
-/

namespace Hiactor

open Lib

namespace GpuPool

variable {limit : UInt32} {n i id : Nat} {s s' : GpuPool} {task : GpuTask}
  {label : GpuLabel} {labels : List GpuLabel}

theorem countP_set_add {α : Type} (f : α → Bool) {l : List α} {old : α} (new : α)
    (found : l[i]? = some old) :
    (l.set i new).countP f + (if f old then 1 else 0) =
      l.countP f + (if f new then 1 else 0) := by
  obtain ⟨inside, rfl⟩ := List.getElem?_eq_some_iff.mp found
  have counted : (if f l[i] then 1 else 0) ≤ l.countP f := by
    split
    · next holds => exact List.countP_pos_iff.mpr ⟨l[i], List.getElem_mem inside, holds⟩
    · exact Nat.zero_le _
  rw [List.countP_set inside]
  omega

theorem present_setTask (new : GpuTask) (found : s.tasks[i]? = some task) (id : Nat) :
    (s.setTask i new).present id + (if task.holds id then 1 else 0) =
      s.present id + (if new.holds id then 1 else 0) := by
  have tasks := countP_set_add (GpuTask.holds id) new found
  simp only [present, setTask]
  omega

theorem submitted_setTask (new : GpuTask) (found : s.tasks[i]? = some task) (id : Nat) :
    (s.setTask i new).submitted id + (if task.submitted id then 1 else 0) =
      s.submitted id + (if new.submitted id then 1 else 0) :=
  countP_set_add (GpuTask.submitted id) new found

@[simp] theorem present_setCount (count : UInt32) (other : Nat) :
    (s.setCount id count).present other = s.present other := rfl

@[simp] theorem submitted_setCount (count : UInt32) (other : Nat) :
    (s.setCount id count).submitted other = s.submitted other := rfl

/-- What holds of the streams. -/
structure Kept (limit : UInt32) (n : Nat) (s : GpuPool) : Prop where
  counts : s.counts.length = n
  bound : ∀ (id : Nat) (count : UInt32), s.counts[id]? = some count → count ≤ limit
  submitted : ∀ (id : Nat) (count : UInt32), s.counts[id]? = some count →
    count.toNat = s.submitted id
  present : ∀ (id : Nat) (count : UInt32), s.counts[id]? = some count →
    s.present id = if count < limit then 1 else 0
  outside : ∀ id, n ≤ id → s.present id = 0

theorem kept_configure (positive : 0 < limit) (n : Nat) : Kept limit n (configure n) where
  counts := List.length_replicate
  bound id count found := by
    obtain ⟨inside, rfl⟩ := List.getElem?_eq_some_iff.mp found
    simp [configure]
  submitted id count found := by
    obtain ⟨inside, rfl⟩ := List.getElem?_eq_some_iff.mp found
    simp [configure, GpuPool.submitted]
  present id count found := by
    obtain ⟨inside, rfl⟩ := List.getElem?_eq_some_iff.mp found
    have listed : id < n := by simpa [configure] using inside
    simp [configure, GpuPool.present, positive, List.count_range, listed]
  outside id past := by
    simp [configure, GpuPool.present, List.count_range, past]

namespace Kept

/-- A step that moves ids between the queue and the hands of the tasks. -/
theorem of_same (kept : s.Kept limit n) (counts : s'.counts = s.counts)
    (present : ∀ id, s'.present id = s.present id)
    (submitted : ∀ id, s'.submitted id = s.submitted id) : s'.Kept limit n := by
  refine ⟨counts ▸ kept.counts, ?_, ?_, ?_, ?_⟩
  · rw [counts]
    exact kept.bound
  · intro id count found
    rw [submitted, kept.submitted id count (counts ▸ found)]
  · intro id count found
    rw [present, kept.present id count (counts ▸ found)]
  · intro id past
    rw [present, kept.outside id past]

/-- A step of a task that changes the counter of its stream. -/
theorem of_setCount {count : UInt32} {new : GpuTask} (kept : s.Kept limit n) (inside : id < n)
    (found : s.tasks[i]? = some task) (bound : count ≤ limit)
    (submitted : count.toNat + (if task.submitted id then 1 else 0) =
      s.submitted id + (if new.submitted id then 1 else 0))
    (present : (if count < limit then 1 else 0) + (if task.holds id then 1 else 0) =
      s.present id + (if new.holds id then 1 else 0))
    (others : ∀ other, other ≠ id → task.submitted other = new.submitted other ∧
      task.holds other = new.holds other) :
    ((s.setTask i new).setCount id count).Kept limit n := by
  have tasks (other : Nat) := submitted_setTask new found other
  have ids (other : Nat) := present_setTask new found other
  have kept_other (other : Nat) (different : other ≠ id) :
      (s.setTask i new).submitted other = s.submitted other ∧
        (s.setTask i new).present other = s.present other := by
    have one := tasks other
    have two := ids other
    rw [(others other different).1] at one
    rw [(others other different).2] at two
    omega
  have found_count (other : Nat) (value : UInt32)
      (at_other : (s.counts.set id count)[other]? = some value) :
      (other = id ∧ value = count) ∨ (other ≠ id ∧ s.counts[other]? = some value) := by
    rw [List.getElem?_set] at at_other
    split at at_other
    · next same =>
      rw [if_pos (kept.counts ▸ same ▸ inside)] at at_other
      exact .inl ⟨same.symm, (Option.some.inj at_other).symm⟩
    · next different => exact .inr ⟨fun same => different same.symm, at_other⟩
  refine ⟨List.length_set.trans kept.counts, ?_, ?_, ?_, ?_⟩
  · intro other value at_other
    rcases found_count other value at_other with ⟨rfl, rfl⟩ | ⟨-, earlier⟩
    · exact bound
    · exact kept.bound other value earlier
  · intro other value at_other
    rw [submitted_setCount]
    rcases found_count other value at_other with ⟨rfl, rfl⟩ | ⟨different, earlier⟩
    · have own := tasks other
      omega
    · rw [(kept_other other different).1, kept.submitted other value earlier]
  · intro other value at_other
    rw [present_setCount]
    rcases found_count other value at_other with ⟨rfl, rfl⟩ | ⟨different, earlier⟩
    · have own := ids other
      omega
    · rw [(kept_other other different).2, kept.present other value earlier]
  · intro other past
    have different : other ≠ id := by omega
    rw [present_setCount, (kept_other other different).2, kept.outside other past]

theorem pop (kept : s.Kept limit n) {alive : Bool}
    (found : s.tasks[i]? = some (.popping alive)) : (s.pop i alive).Kept limit n := by
  unfold GpuPool.pop
  split
  · refine kept.of_same rfl (fun id => ?_) (fun id => ?_)
    · simpa [GpuTask.holds] using present_setTask (.popping false) found id
    · simpa [GpuTask.submitted] using submitted_setTask (.popping false) found id
  · next first rest candidates =>
    refine kept.of_same rfl (fun id => ?_) (fun id => ?_)
    · have moved := present_setTask (.popped first alive) found id
      by_cases same : first = id
      · simp [GpuPool.present, setTask, candidates, GpuTask.holds, same] at moved ⊢
        omega
      · simp [GpuPool.present, setTask, candidates, GpuTask.holds, same] at moved ⊢
        omega
    · have kept_tasks := submitted_setTask (.popped first alive) found id
      simpa [GpuTask.submitted, GpuPool.submitted, setTask] using kept_tasks

/-- The id that a task uses is not offered elsewhere. -/
theorem room (kept : s.Kept limit n) (found : s.tasks[i]? = some task) (id : Nat)
    (holds : task.holds id = true) :
    id < n ∧ ∀ count, s.counts[id]? = some count → count < limit := by
  have counted : 0 < s.present id := by
    have member := List.mem_of_getElem? found
    have some_task := List.countP_pos_iff.mpr ⟨task, member, holds⟩
    simp only [GpuPool.present]
    omega
  constructor
  · by_contra past
    rw [kept.outside id (Nat.le_of_not_lt past)] at counted
    exact absurd counted (Nat.lt_irrefl 0)
  · intro count at_id
    by_contra full
    rw [kept.present id count at_id, if_neg full] at counted
    exact absurd counted (Nat.lt_irrefl 0)

theorem push_offering (kept : s.Kept limit n) (found : s.tasks[i]? = some (.offering id)) :
    ((s.setTask i (.running id)).push id).Kept limit n := by
  refine kept.of_same rfl (fun other => ?_) (fun other => ?_)
  · have moved := present_setTask (.running id) found other
    by_cases same : id = other
    · simp [GpuPool.present, GpuPool.push, setTask, GpuTask.holds, same] at moved ⊢
      omega
    · simp [GpuPool.present, GpuPool.push, setTask, GpuTask.holds, same] at moved ⊢
      omega
  · have moved := submitted_setTask (.running id) found other
    simpa [GpuTask.submitted, GpuPool.submitted, setTask, GpuPool.push] using moved

theorem push_reoffering (kept : s.Kept limit n) (found : s.tasks[i]? = some (.reoffering id)) :
    ((s.setTask i .finished).push id).Kept limit n := by
  refine kept.of_same rfl (fun other => ?_) (fun other => ?_)
  · have moved := present_setTask .finished found other
    by_cases same : id = other
    · simp [GpuPool.present, GpuPool.push, setTask, GpuTask.holds, same] at moved ⊢
      omega
    · simp [GpuPool.present, GpuPool.push, setTask, GpuTask.holds, same] at moved ⊢
      omega
  · have moved := submitted_setTask .finished found other
    simpa [GpuTask.submitted, GpuPool.submitted, setTask, GpuPool.push] using moved

/-- The count stays within the limit, and with the last task the stream is offered no more. -/
theorem increment (kept : s.Kept limit n) (found : s.tasks[i]? = some (.using id))
    (taken : s.increment limit i id = some s') : s'.Kept limit n := by
  obtain ⟨inside, below⟩ := kept.room found id (by simp [GpuTask.holds])
  obtain ⟨count, at_id, rfl⟩ := Option.map_eq_some_iff.mp taken
  have small := UInt32.lt_iff_toNat_lt.mp (below count at_id)
  have next : (count + 1).toNat = count.toNat + 1 := by
    have bound := limit.toNat_lt
    rw [UInt32.toNat_add]
    exact Nat.mod_eq_of_lt (Nat.lt_of_le_of_lt small bound)
  have bound : count + 1 ≤ limit := by
    rw [UInt32.le_iff_toNat_le, next]
    exact small
  have submitted := kept.submitted id count at_id
  have present := kept.present id count at_id
  rw [if_pos (below count at_id)] at present
  by_cases more : count + 1 < limit
  · rw [if_pos more]
    apply kept.of_setCount inside found bound
    · simp [GpuTask.submitted, next, submitted]
    · simp [GpuTask.holds, more, present]
    · intro other different
      simp [GpuTask.submitted, GpuTask.holds, different.symm]
  · rw [if_neg more]
    apply kept.of_setCount inside found bound
    · simp [GpuTask.submitted, next, submitted]
    · simp [GpuTask.holds, more, present]
    · intro other different
      simp [GpuTask.submitted, GpuTask.holds, different.symm]

/-- A stream that was not offered is offered again when its first task completes. -/
theorem decrement (kept : s.Kept limit n) (found : s.tasks[i]? = some (.running id))
    (taken : s.decrement limit i id = some s') : s'.Kept limit n := by
  obtain ⟨count, at_id, rfl⟩ := Option.map_eq_some_iff.mp taken
  have inside : id < n := by
    rw [← kept.counts]
    exact (List.getElem?_eq_some_iff.mp at_id).1
  have submitted := kept.submitted id count at_id
  have present := kept.present id count at_id
  have bound := UInt32.le_iff_toNat_le.mp (kept.bound id count at_id)
  have some_task : 0 < count.toNat := by
    have member := List.mem_of_getElem? found
    rw [submitted]
    exact List.countP_pos_iff.mpr ⟨_, member, by simp [GpuTask.submitted]⟩
  have one : (1 : UInt32) ≤ count := UInt32.le_iff_toNat_le.mpr some_task
  have next : (count - 1).toNat = count.toNat - 1 := UInt32.toNat_sub_of_le _ _ one
  have restored : (count - 1).toNat + 1 = s.submitted id := by omega
  have fewer : count - 1 < limit := by
    rw [UInt32.lt_iff_toNat_lt, next]
    omega
  by_cases full : count = limit
  · have absent : s.present id = 0 := by
      rw [present, full, if_neg (UInt32.lt_irrefl limit)]
    rw [if_pos full]
    apply kept.of_setCount inside found (UInt32.le_of_lt fewer)
    · simp [GpuTask.submitted, restored]
    · simp [GpuTask.holds, fewer, absent]
    · intro other different
      simp [GpuTask.submitted, GpuTask.holds, different.symm]
  · have small : count < limit := UInt32.lt_of_le_of_ne (kept.bound id count at_id) full
    rw [if_pos small] at present
    rw [if_neg full]
    apply kept.of_setCount inside found (UInt32.le_of_lt fewer)
    · simp [GpuTask.submitted, restored]
    · simp [GpuTask.holds, fewer, present]
    · intro other different
      simp [GpuTask.submitted, GpuTask.holds, different.symm]

/-- A step of a task that neither counts nor hands over an id. -/
theorem of_setTask (kept : s.Kept limit n) (found : s.tasks[i]? = some task) {new : GpuTask}
    (held : ∀ id, new.holds id = task.holds id)
    (submitted : ∀ id, new.submitted id = task.submitted id) :
    (s.setTask i new).Kept limit n := by
  refine kept.of_same rfl (fun id => ?_) (fun id => ?_)
  · have ids := present_setTask new found id
    rw [held] at ids
    exact Nat.add_right_cancel ids
  · have tasks := submitted_setTask new found id
    rw [submitted] at tasks
    exact Nat.add_right_cancel tasks

theorem submit (kept : s.Kept limit n) :
    ({ s with tasks := s.tasks ++ [.popping true] } : GpuPool).Kept limit n := by
  refine kept.of_same rfl (fun id => ?_) (fun id => ?_)
  · simp [GpuPool.present, GpuTask.holds]
  · simp [GpuPool.submitted, GpuTask.submitted]

theorem act {action : GpuAction} (kept : s.Kept limit n) (found : s.tasks[i]? = some task)
    (reads : s.KeepsId (.task i action)) (taken : s.act limit i task action = some s') :
    s'.Kept limit n := by
  unfold GpuPool.act at taken
  split at taken
  · obtain rfl := Option.some.inj taken
    exact kept.of_setTask found (fun _ => rfl) (fun _ => rfl)
  · obtain rfl := Option.some.inj taken
    exact kept.pop found
  · obtain rfl := Option.some.inj taken
    exact kept.of_setTask found (fun _ => rfl) (fun _ => rfl)
  · next id alive slot =>
    obtain rfl := Option.some.inj taken
    cases alive with
    | true => exact kept.of_setTask found (fun _ => rfl) (fun _ => rfl)
    | false =>
      obtain rfl : slot = id := reads id (Option.bind_eq_some_iff.mpr ⟨_, found, rfl⟩)
      exact kept.of_setTask found (fun _ => rfl) (fun _ => rfl)
  · exact reads.elim
  · exact kept.increment found taken
  · obtain rfl := Option.some.inj taken
    exact kept.push_offering found
  · exact kept.decrement found taken
  · obtain rfl := Option.some.inj taken
    exact kept.push_reoffering found
  · cases taken

theorem step (kept : s.Kept limit n) (reads : s.KeepsId label)
    (taken : GpuPool.step limit s label = some s') : s'.Kept limit n := by
  cases label with
  | submit =>
    obtain rfl := Option.some.inj taken
    exact kept.submit
  | task i action =>
    obtain ⟨task, found, acted⟩ := Option.bind_eq_some_iff.mp taken
    exact kept.act found reads acted

end Kept

theorem kept_run (positive : 0 < limit)
    (ran : run (step limit) (configure n) labels = some s)
    (reads : StepsMeet (step limit) KeepsId (configure n) labels) : s.Kept limit n :=
  run_invariant_of_meets (Kept limit n) (fun _ _ _ kept met taken => kept.step met taken) labels
    (configure n) s (kept_configure positive n) reads ran

/-- When every task reads the id that it popped and no submitted function throws, each counter stays
within the limit and is the number of the tasks of its stream, and each id is offered exactly once
below the limit and nowhere at it. No other ids are offered or used. -/
theorem streams_kept (positive : 0 < limit)
    (ran : run (step limit) (configure n) labels = some s)
    (reads : StepsMeet (step limit) KeepsId (configure n) labels) :
    (∀ id < n, ∃ count, s.counts[id]? = some count ∧ count ≤ limit ∧
      count.toNat = s.submitted id ∧ s.present id = if count < limit then 1 else 0) ∧
    ∀ id, n ≤ id → s.present id = 0 := by
  have kept := kept_run positive ran reads
  refine ⟨fun id inside => ?_, kept.outside⟩
  rw [← kept.counts] at inside
  have found : s.counts[id]? = some s.counts[id] := List.getElem?_eq_getElem inside
  exact ⟨_, found, kept.bound id _ found, kept.submitted id _ found, kept.present id _ found⟩

/-- Three tasks for two streams, one task for each: the third waits for the second one. -/
def waitingLabels (slot : Nat) : List GpuLabel :=
  [.submit, .task 0 .pop, .task 0 (.read 0), .task 0 .increment,
    .submit, .task 1 .pop, .task 1 (.read 0), .task 1 .increment,
    .submit, .task 2 .pop, .task 1 .complete, .task 1 .push,
    .task 2 .pop, .task 2 (.read slot), .task 2 .increment]

theorem streams_kept_waiting :
    ∃ s, run (step 1) (configure 2) (waitingLabels 1) = some s ∧
      (∀ id < 2, ∃ count, s.counts[id]? = some count ∧ count ≤ 1 ∧
        count.toNat = s.submitted id ∧ s.present id = if count < 1 then 1 else 0) ∧
      ∀ id, 2 ≤ id → s.present id = 0 := by
  obtain ⟨s, ran⟩ : ∃ s, run (step 1) (configure 2) (waitingLabels 1) = some s := ⟨_, rfl⟩
  exact ⟨s, ran, streams_kept (by decide) ran (by decide)⟩

/-- The only task of a stream throws. -/
def throwingLabels : List GpuLabel := [.submit, .task 0 .pop, .task 0 (.read 0), .task 0 .fail]

/-- The slot holds 0 when the third task reads it: it goes to the stream that is full, and the
stream that it popped is not offered any more. Nor is the stream of a function that throws. -/
theorem stream_lost :
    (∃ s, run (step 1) (configure 2) (waitingLabels 0) = some s ∧
      s.counts = [2, 0] ∧ s.present 1 = 0) ∧
    ∃ s, run (step 1) (configure 1) throwingLabels = some s ∧ s.counts = [0] ∧ s.present 0 = 0 :=
  ⟨⟨_, rfl, by decide⟩, ⟨_, rfl, by decide⟩⟩

end GpuPool

end Hiactor
