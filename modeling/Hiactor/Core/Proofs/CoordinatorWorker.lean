import Mathlib.Data.List.Perm.Basic
import Hiactor.Core.CoordinatorWorker

/-!
# Items of the coordinator worker

Every item that is not finished holds a unit of the semaphore or waits for one. As there is a unit
for each slot, no push finds its queue full, and the places that an item passes after its
continuation has run, read from the last one, always hold the items in the order of the pushes.
-/

namespace Hiactor

open Lib

namespace Semaphore

/-- The waiters in front are served. -/
theorem serve_order (count : Nat) (waiters : List (Nat × Nat)) :
    (serve count waiters).2 ++ (serve count waiters).1.waiters.map Prod.fst =
      waiters.map Prod.fst := by
  induction waiters generalizing count with
  | nil => rfl
  | cons waiter waiters ih =>
    rw [serve]
    split
    · rw [List.map_cons, ← ih (count - waiter.2)]
      rfl
    · rfl

/-- Waiters that ask for one unit each get all the units that there are. -/
theorem serve_ones (count : Nat) {waiters : List (Nat × Nat)}
    (ones : ∀ w ∈ waiters, w.2 = 1) :
    (serve count waiters).2.length + (serve count waiters).1.count = count ∧
      ((serve count waiters).1.waiters ≠ [] → (serve count waiters).1.count = 0) ∧
      ∀ w ∈ (serve count waiters).1.waiters, w.2 = 1 := by
  induction waiters generalizing count with
  | nil => exact ⟨Nat.zero_add count, fun some_waits => absurd rfl some_waits, ones⟩
  | cons waiter waiters ih =>
    have one : waiter.2 = 1 := ones waiter List.mem_cons_self
    have rest := ih (count - waiter.2) fun w listed => ones w (List.mem_cons_of_mem _ listed)
    rw [serve]
    split
    · next enough =>
      obtain ⟨units, full, ones'⟩ := rest
      refine ⟨?_, full, ones'⟩
      change (serve (count - waiter.2) waiters).2.length + 1 +
        (serve (count - waiter.2) waiters).1.count = count
      omega
    · next short =>
      refine ⟨Nat.zero_add count, fun _ => ?_, ones⟩
      change count = 0
      omega

end Semaphore

namespace CoordWorkQueue

/-- The item whose continuation runs. -/
def MainAt.entering : MainAt → List Nat
  | .pushing wi => [wi]
  | _ => []

/-- The items that are taken and not completed. -/
def MainAt.todo : MainAt → List Nat
  | .completing todo _ => todo
  | _ => []

/-- The units that the main thread has for items that it has taken or has still to push. -/
def MainAt.units : MainAt → Nat
  | .pushing _ => 1
  | .completing _ nr => nr
  | _ => 0

/-- How many items `consume_all` puts into `tmp_buf`. -/
def MainAt.avail : MainAt → Nat
  | .collecting avail => avail
  | _ => 0

/-- The items that are taken and not processed. -/
def WorkerAt.todo : WorkerAt → List Nat
  | .processing todo => todo
  | .pushing _ todo => todo
  | _ => []

/-- The item that is processed and not pushed. -/
def WorkerAt.inHand : WorkerAt → List Nat
  | .pushing wi _ => [wi]
  | _ => []

def WorkerAt.units (at' : WorkerAt) : Nat := at'.todo.length + at'.inHand.length

def WorkerAt.avail : WorkerAt → Nat
  | .collecting avail => avail
  | _ => 0

/-- Of `n` pending items, the worker will not find all before it reads the eventfd again. -/
def WorkerAt.Leaves (n : Nat) : WorkerAt → Prop
  | .reading | .processing _ | .pushing _ _ => 0 < n
  | .collecting avail => avail < n
  | .loading | .counting | .exited => False

end CoordWorkQueue

namespace CoordinatorWorker

open CoordWorkQueue

variable {s u : CoordinatorWorker} {label : Label} {labels : List Label} {wi : Nat}

/-! ## Units -/

structure Bounded (s : CoordinatorWorker) : Prop where
  units : s.queueHasRoom.count + (s.scheduled.length + (s.main.units +
    (s.pending.length + (s.worker.units + s.completed.length)))) = CoordWorkQueue.queueLength
  full : s.queueHasRoom.waiters ≠ [] → s.queueHasRoom.count = 0
  ones : ∀ w ∈ s.queueHasRoom.waiters, w.2 = 1
  pending : s.worker.avail ≤ s.pending.length
  completed : s.main.avail ≤ s.completed.length

theorem Bounded.pushPending (bounded : s.Bounded) (at' : s.main = .pushing wi) :
    s.pushPending wi = { s with pending := s.pending ++ [wi], pushed := s.pushed ++ [wi] } := by
  have units := bounded.units
  rw [at', MainAt.units] at units
  have room : s.pending.length < CoordWorkQueue.queueLength := by omega
  rw [CoordinatorWorker.pushPending, push, if_pos room]

theorem Bounded.pushCompleted {todo : List Nat} (bounded : s.Bounded)
    (at' : s.worker = .pushing wi todo) :
    s.pushCompleted wi = { s with completed := s.completed ++ [wi] } := by
  have units := bounded.units
  rw [at', WorkerAt.units, WorkerAt.inHand, List.length_singleton] at units
  have room : s.completed.length < CoordWorkQueue.queueLength := by omega
  rw [CoordinatorWorker.pushCompleted, push, if_pos room]

/-- What a step does while there is room for every push. -/
inductive Next (s : CoordinatorWorker) : Label → CoordinatorWorker → Prop
  | enter (running : s.main = .running) (room : 0 < s.queueHasRoom.count)
      (first : s.queueHasRoom.waiters = []) :
      Next s (.submit true) { s with
        queueHasRoom := { s.queueHasRoom with count := s.queueHasRoom.count - 1 }
        submitted := s.submitted + 1
        main := .pushing s.submitted }
  | schedule (running : s.main = .running) (room : 0 < s.queueHasRoom.count)
      (first : s.queueHasRoom.waiters = []) :
      Next s (.submit false) { s with
        queueHasRoom := { s.queueHasRoom with count := s.queueHasRoom.count - 1 }
        submitted := s.submitted + 1
        scheduled := s.scheduled ++ [s.submitted] }
  | wait (inline : Bool) (running : s.main = .running)
      (none_left : ¬(s.queueHasRoom.waiters = [] ∧ 0 < s.queueHasRoom.count)) :
      Next s (.submit inline) { s with
        queueHasRoom := { s.queueHasRoom with
          waiters := s.queueHasRoom.waiters ++ [(s.submitted, 1)] }
        submitted := s.submitted + 1 }
  | run (idx : Nat) (inside : idx < s.scheduled.length) (running : s.main = .running) :
      Next s (.run idx) { s with
        scheduled := s.scheduled.eraseIdx idx
        main := .pushing s.scheduled[idx] }
  | complete (running : s.main = .running) :
      Next s .complete { s with main := .collecting s.completed.length }
  | stop (running : s.main = .running) :
      Next s .stop { s with stopped := true, main := .stopping }
  | push (wi : Nat) (at' : s.main = .pushing wi) :
      Next s .main { s with
        pending := s.pending ++ [wi]
        pushed := s.pushed ++ [wi]
        main := .signalling }
  | signal (at' : s.main = .signalling) :
      Next s .main { s with startEventfd := s.startEventfd + 1, main := .running }
  | collect (avail : Nat) (at' : s.main = .collecting avail) :
      Next s .main { s with
        completed := s.completed.drop avail
        main := .completing (s.completed.take avail) avail }
  | finish (wi : Nat) (todo : List Nat) (nr : Nat) (at' : s.main = .completing (wi :: todo) nr) :
      Next s .main { s with finished := s.finished ++ [wi], main := .completing todo nr }
  | signalRoom (nr : Nat) (at' : s.main = .completing [] nr) :
      Next s .main { s.signalRoom nr with main := .running }
  | signalStop (at' : s.main = .stopping) :
      Next s .main { s with startEventfd := s.startEventfd + 1, main := .joining }
  | read (at' : s.worker = .reading) (signalled : 0 < s.startEventfd) :
      Next s .worker { s with startEventfd := 0, worker := .loading }
  | goOn (at' : s.worker = .loading) (on : s.stopped = false) :
      Next s .worker { s with worker := .counting }
  | exit (at' : s.worker = .loading) (stopped : s.stopped = true) :
      Next s .worker { s with worker := .exited }
  | count (at' : s.worker = .counting) :
      Next s .worker { s with worker := .collecting s.pending.length }
  | take (avail : Nat) (at' : s.worker = .collecting avail) :
      Next s .worker { s with
        pending := s.pending.drop avail
        worker := .processing (s.pending.take avail) }
  | process (wi : Nat) (todo : List Nat) (at' : s.worker = .processing (wi :: todo)) :
      Next s .worker { s with processed := s.processed ++ [wi], worker := .pushing wi todo }
  | endRound (at' : s.worker = .processing []) :
      Next s .worker { s with worker := .reading }
  | pushCompleted (wi : Nat) (todo : List Nat) (at' : s.worker = .pushing wi todo) :
      Next s .worker { s with
        completed := s.completed ++ [wi]
        worker := .processing todo }

theorem next_submit (running : s.main = .running) (inline : Bool) :
    s.Next (.submit inline) (s.submitItem inline) := by
  rw [submitItem, Semaphore.wait]
  by_cases ready : s.queueHasRoom.waiters = [] ∧ 1 ≤ s.queueHasRoom.count
  · rw [if_pos ready]
    cases inline with
    | true => exact .enter running ready.2 ready.1
    | false => exact .schedule running ready.2 ready.1
  · rw [if_neg ready]
    cases inline with
    | true =>
      have waits := Next.wait true running ready
      rwa [← List.append_nil s.scheduled] at waits
    | false =>
      have waits := Next.wait false running ready
      rwa [← List.append_nil s.scheduled] at waits

theorem Bounded.next_main (bounded : s.Bounded) (stepped : s.stepMain = some u) :
    s.Next .main u := by
  unfold stepMain at stepped
  split at stepped
  · cases stepped
  · next wi at' =>
    rw [bounded.pushPending at'] at stepped
    obtain rfl := Option.some.inj stepped
    exact .push wi at'
  · next at' => exact Option.some.inj stepped ▸ .signal at'
  · next avail at' => exact Option.some.inj stepped ▸ .collect avail at'
  · next wi todo nr at' => exact Option.some.inj stepped ▸ .finish wi todo nr at'
  · next nr at' => exact Option.some.inj stepped ▸ .signalRoom nr at'
  · next at' => exact Option.some.inj stepped ▸ .signalStop at'
  · cases stepped

theorem Bounded.next_worker (bounded : s.Bounded) (stepped : s.stepWorker = some u) :
    s.Next .worker u := by
  unfold stepWorker at stepped
  split at stepped
  · next at' =>
    split at stepped
    · next signalled => exact Option.some.inj stepped ▸ .read at' signalled
    · cases stepped
  · next at' =>
    obtain rfl := Option.some.inj stepped
    by_cases stopped : s.stopped = true
    · rw [if_pos stopped]
      exact .exit at' stopped
    · rw [if_neg stopped]
      exact .goOn at' (Bool.eq_false_iff.mpr stopped)
  · next at' => exact Option.some.inj stepped ▸ .count at'
  · next avail at' => exact Option.some.inj stepped ▸ .take avail at'
  · next wi todo at' => exact Option.some.inj stepped ▸ .process wi todo at'
  · next at' => exact Option.some.inj stepped ▸ .endRound at'
  · next wi todo at' =>
    rw [bounded.pushCompleted at'] at stepped
    obtain rfl := Option.some.inj stepped
    exact .pushCompleted wi todo at'
  · cases stepped

theorem Bounded.next (bounded : s.Bounded) (stepped : step s label = some u) : s.Next label u := by
  cases label with
  | main => exact bounded.next_main stepped
  | worker => exact bounded.next_worker stepped
  | submit inline =>
    simp only [step, Option.ite_none_right_eq_some, Option.some.injEq] at stepped
    exact stepped.2 ▸ next_submit stepped.1 inline
  | run idx =>
    simp only [step, Option.ite_none_right_eq_some, Option.map_eq_some_iff] at stepped
    obtain ⟨running, wi, found, rfl⟩ := stepped
    obtain ⟨inside, rfl⟩ := List.getElem?_eq_some_iff.mp found
    exact .run idx inside running
  | complete =>
    simp only [step, Option.ite_none_right_eq_some, Option.some.injEq] at stepped
    exact stepped.2 ▸ .complete stepped.1
  | stop =>
    simp only [step, Option.ite_none_right_eq_some, Option.some.injEq] at stepped
    exact stepped.2 ▸ .stop stepped.1

theorem bounded_init : Bounded {} where
  units := rfl
  full some_waits := absurd rfl some_waits
  ones _ listed := absurd listed List.not_mem_nil
  pending := Nat.le_refl 0
  completed := Nat.le_refl 0

theorem Bounded.signalRoom {nr : Nat} (bounded : s.Bounded) (at' : s.main = .completing [] nr) :
    Bounded { s.signalRoom nr with main := .running } := by
  obtain ⟨served, full, ones⟩ :=
    Semaphore.serve_ones (s.queueHasRoom.count + nr) bounded.ones
  have units := bounded.units
  constructor
  case units =>
    simp only [at', MainAt.units] at units
    simp only [CoordinatorWorker.signalRoom, List.length_append, MainAt.units]
    omega
  case full => exact full
  case ones => exact ones
  case pending => exact bounded.pending
  case completed => exact Nat.zero_le _

theorem Bounded.preserved (bounded : s.Bounded) (next : s.Next label u) : u.Bounded := by
  have units := bounded.units
  have pending := bounded.pending
  have completed := bounded.completed
  cases next with
  | signalRoom nr at' => exact bounded.signalRoom at'
  | wait inline running none_left =>
    refine ⟨units, fun _ => ?_, fun w listed => ?_, pending, completed⟩
    · by_cases first : s.queueHasRoom.waiters = []
      · exact Nat.eq_zero_of_not_pos fun room => none_left ⟨first, room⟩
      · exact bounded.full first
    · rcases List.mem_append.mp listed with before | last
      · exact bounded.ones w before
      · obtain rfl := List.mem_singleton.mp last
        rfl
  | enter running room first =>
    refine ⟨?_, fun some_waits => absurd first some_waits, bounded.ones, pending, Nat.zero_le _⟩
    simp only [running, MainAt.units] at units
    simp only [MainAt.units]
    omega
  | schedule running room first =>
    refine ⟨?_, fun some_waits => absurd first some_waits, bounded.ones, pending, completed⟩
    simp only [List.length_append, List.length_singleton]
    omega
  | run idx inside running =>
    refine ⟨?_, bounded.full, bounded.ones, pending, Nat.zero_le _⟩
    simp only [running, MainAt.units] at units
    simp only [MainAt.units, List.length_eraseIdx_of_lt inside]
    omega
  | complete running =>
    refine ⟨?_, bounded.full, bounded.ones, pending, Nat.le_refl _⟩
    rwa [running] at units
  | stop running =>
    refine ⟨?_, bounded.full, bounded.ones, pending, Nat.zero_le _⟩
    rwa [running] at units
  | push wi at' =>
    refine ⟨?_, bounded.full, bounded.ones, ?_, Nat.zero_le _⟩
    · simp only [at', MainAt.units] at units
      simp only [MainAt.units, List.length_append, List.length_singleton]
      omega
    · rw [List.length_append]
      exact Nat.le_add_right_of_le pending
  | signal at' =>
    refine ⟨?_, bounded.full, bounded.ones, pending, Nat.zero_le _⟩
    rwa [at'] at units
  | collect avail at' =>
    refine ⟨?_, bounded.full, bounded.ones, pending, Nat.zero_le _⟩
    rw [at', MainAt.avail] at completed
    simp only [at', MainAt.units] at units
    simp only [MainAt.units, List.length_drop]
    omega
  | finish wi todo nr at' =>
    refine ⟨?_, bounded.full, bounded.ones, pending, Nat.zero_le _⟩
    rwa [at'] at units
  | signalStop at' =>
    refine ⟨?_, bounded.full, bounded.ones, pending, Nat.zero_le _⟩
    rwa [at'] at units
  | read at' signalled =>
    refine ⟨?_, bounded.full, bounded.ones, Nat.zero_le _, completed⟩
    rwa [at'] at units
  | goOn at' on =>
    refine ⟨?_, bounded.full, bounded.ones, Nat.zero_le _, completed⟩
    rwa [at'] at units
  | exit at' stopped =>
    refine ⟨?_, bounded.full, bounded.ones, Nat.zero_le _, completed⟩
    rwa [at'] at units
  | count at' =>
    refine ⟨?_, bounded.full, bounded.ones, Nat.le_refl _, completed⟩
    rwa [at'] at units
  | take avail at' =>
    refine ⟨?_, bounded.full, bounded.ones, Nat.zero_le _, completed⟩
    rw [at', WorkerAt.avail] at pending
    have taken := List.length_take_of_le pending
    simp only [at', WorkerAt.units, WorkerAt.todo, WorkerAt.inHand, List.length_nil] at units
    simp only [WorkerAt.units, WorkerAt.todo, WorkerAt.inHand, taken, List.length_drop,
      List.length_nil]
    omega
  | process wi todo at' =>
    refine ⟨?_, bounded.full, bounded.ones, Nat.zero_le _, completed⟩
    rwa [at'] at units
  | endRound at' =>
    refine ⟨?_, bounded.full, bounded.ones, Nat.zero_le _, completed⟩
    rwa [at'] at units
  | pushCompleted wi todo at' =>
    refine ⟨?_, bounded.full, bounded.ones, Nat.zero_le _, ?_⟩
    · simp only [at', WorkerAt.units, WorkerAt.todo, WorkerAt.inHand,
        List.length_singleton] at units
      simp only [WorkerAt.units, WorkerAt.todo, WorkerAt.inHand, List.length_append,
        List.length_singleton, List.length_nil]
      omega
    · rw [List.length_append]
      exact Nat.le_add_right_of_le completed

end CoordinatorWorker

end Hiactor
