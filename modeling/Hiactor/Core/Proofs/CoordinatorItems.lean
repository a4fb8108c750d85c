import Hiactor.Lib.WorkLine
import Hiactor.Core.Proofs.CoordinatorWorker

/-!
# Order and progress of the coordinator worker

The queue is a line of work: the items are in order from the push to the end. No item is lost, as
each of them is somewhere on its way, and what is on its way goes on until the main thread has
finished it.
-/

namespace Hiactor

open Lib

namespace CoordinatorWorker

open CoordWorkQueue

variable {s u : CoordinatorWorker} {label : Label} {labels : List Label} {wi : Nat}

/-! ## Order -/

/-- The items are in the order of the pushes. -/
structure Ordered (s : CoordinatorWorker) : Prop where
  finished : s.finished ++ (s.main.todo ++ (s.completed ++ s.worker.inHand)) = s.processed
  processed : s.processed ++ (s.worker.todo ++ s.pending) = s.pushed

theorem ordered_init : Ordered {} := ⟨rfl, rfl⟩

theorem Ordered.preserved (ordered : s.Ordered) (next : s.Next label u) : u.Ordered := by
  obtain ⟨finished, processed⟩ := ordered
  cases next with
  | enter running room first => exact ⟨by rwa [running] at finished, processed⟩
  | schedule running room first => exact ⟨finished, processed⟩
  | wait inline running none_left => exact ⟨finished, processed⟩
  | run idx inside running => exact ⟨by rwa [running] at finished, processed⟩
  | complete running => exact ⟨by rwa [running] at finished, processed⟩
  | stop running => exact ⟨by rwa [running] at finished, processed⟩
  | push wi at' =>
    refine ⟨by rwa [at'] at finished, ?_⟩
    rw [← processed, List.append_assoc, List.append_assoc]
  | signal at' => exact ⟨by rwa [at'] at finished, processed⟩
  | collect avail at' =>
    refine ⟨?_, processed⟩
    rw [at'] at finished
    change s.finished ++ (s.completed.take avail ++ (s.completed.drop avail ++ _)) = _
    rwa [← List.append_assoc (s.completed.take avail), List.take_append_drop]
  | finish wi todo nr at' =>
    refine ⟨?_, processed⟩
    rw [at'] at finished
    change s.finished ++ [wi] ++ (todo ++ _) = _
    rwa [List.append_assoc, List.singleton_append]
  | signalRoom nr at' => exact ⟨by rwa [at'] at finished, processed⟩
  | signalStop at' => exact ⟨by rwa [at'] at finished, processed⟩
  | read at' signalled => exact ⟨by rwa [at'] at finished, by rwa [at'] at processed⟩
  | goOn at' on => exact ⟨by rwa [at'] at finished, by rwa [at'] at processed⟩
  | exit at' stopped => exact ⟨by rwa [at'] at finished, by rwa [at'] at processed⟩
  | count at' => exact ⟨by rwa [at'] at finished, by rwa [at'] at processed⟩
  | take avail at' =>
    refine ⟨by rwa [at'] at finished, ?_⟩
    rw [at'] at processed
    change s.processed ++ (s.pending.take avail ++ s.pending.drop avail) = _
    rwa [List.take_append_drop]
  | process wi todo at' =>
    rw [at'] at finished processed
    constructor
    · change s.finished ++ (s.main.todo ++ (s.completed ++ [wi])) = s.processed ++ [wi]
      change s.finished ++ (s.main.todo ++ (s.completed ++ [])) = s.processed at finished
      rw [← finished, List.append_nil, List.append_assoc, List.append_assoc]
    · change s.processed ++ [wi] ++ (todo ++ _) = _
      rwa [List.append_assoc, List.singleton_append]
  | endRound at' => exact ⟨by rwa [at'] at finished, by rwa [at'] at processed⟩
  | pushCompleted wi todo at' =>
    rw [at'] at finished processed
    refine ⟨?_, processed⟩
    change _ ++ (_ ++ (s.completed ++ [wi] ++ [])) = _
    rwa [List.append_nil]

/-- The items that no push was made for are at the end, those that wait last. -/
def line (s : CoordinatorWorker) : List Nat :=
  s.pushed ++ (s.main.entering ++ (s.scheduled ++ s.queueHasRoom.waiters.map Prod.fst))

/-- Every item is in the line once. -/
def Entered (s : CoordinatorWorker) : Prop := s.line.Perm (List.range s.submitted)

/-- No continuation runs before one that got room earlier. -/
def InTurn (s : CoordinatorWorker) : Label → Prop
  | .submit inline => inline = true → s.scheduled = []
  | .run idx => idx = 0
  | _ => True

/-- The items come to the end of the line, or somewhere else if their step is not in turn. -/
structure Joins (s u : CoordinatorWorker) (label : Label) (items : List Nat) : Prop where
  range : List.range u.submitted = List.range s.submitted ++ items
  perm : u.line.Perm (s.line ++ items)
  inTurn : s.InTurn label → u.line = s.line ++ items

theorem joins_of_eq {items : List Nat}
    (range : List.range u.submitted = List.range s.submitted ++ items)
    (same : u.line = s.line ++ items) : Joins s u label items :=
  ⟨range, .of_eq same, fun _ => same⟩

/-- A step that leaves the line as it is. -/
theorem joins_nil (submitted : u.submitted = s.submitted) (same : u.line = s.line) :
    ∃ items, Joins s u label items := by
  refine ⟨[], joins_of_eq ?_ ?_⟩
  · rw [submitted, List.append_nil]
  · rw [same, List.append_nil]

theorem Next.joins (next : s.Next label u) : ∃ items, Joins s u label items := by
  cases next with
  | enter running room first =>
    have before : s.line = s.pushed ++ s.scheduled := by
      simp only [line, running, MainAt.entering, first, List.map_nil, List.nil_append,
        List.append_nil]
    refine ⟨[s.submitted], List.range_succ, ?_, fun inTurn => ?_⟩
    · rw [before, List.append_assoc, line, first, List.map_nil, List.append_nil]
      exact List.perm_append_comm.append_left s.pushed
    · rw [before]
      simp only [line, MainAt.entering, inTurn rfl, first, List.map_nil, List.append_nil]
  | schedule running room first =>
    refine ⟨[s.submitted], joins_of_eq List.range_succ ?_⟩
    simp only [line, first, List.map_nil, List.append_nil, List.append_assoc]
  | wait inline running none_left =>
    refine ⟨[s.submitted], joins_of_eq List.range_succ ?_⟩
    simp only [line, List.map_append, List.map_cons, List.map_nil, List.append_assoc]
  | run idx inside running =>
    have before : s.line = s.pushed ++ (s.scheduled ++ s.queueHasRoom.waiters.map Prod.fst) := by
      rw [line, running]
      rfl
    refine ⟨[], (List.append_nil _).symm, ?_, fun inTurn => ?_⟩
    · rw [before, List.append_nil, line, ← List.append_assoc (MainAt.entering _)]
      exact ((List.getElem_cons_eraseIdx_perm inside).append_right _).append_left s.pushed
    · obtain rfl : idx = 0 := inTurn
      have front : s.scheduled[0] :: s.scheduled.eraseIdx 0 = s.scheduled := by
        rw [List.eraseIdx_zero, ← List.drop_one]
        exact List.getElem_cons_drop inside
      rw [before, List.append_nil, line, ← List.append_assoc (MainAt.entering _)]
      exact congrArg (fun front => s.pushed ++ (front ++ _)) front
  | complete running => exact joins_nil rfl (by rw [line, line, running]; rfl)
  | stop running => exact joins_nil rfl (by rw [line, line, running]; rfl)
  | push wi at' =>
    refine joins_nil rfl ?_
    rw [line, line, at', List.append_assoc]
    rfl
  | signal at' => exact joins_nil rfl (by rw [line, line, at']; rfl)
  | collect avail at' => exact joins_nil rfl (by rw [line, line, at']; rfl)
  | finish wi todo nr at' => exact joins_nil rfl (by rw [line, line, at']; rfl)
  | signalRoom nr at' =>
    refine joins_nil rfl ?_
    have served := Semaphore.serve_order (s.queueHasRoom.count + nr) s.queueHasRoom.waiters
    rw [line, line, at', ← served, ← List.append_assoc s.scheduled]
    rfl
  | signalStop at' => exact joins_nil rfl (by rw [line, line, at']; rfl)
  | read at' signalled => exact joins_nil rfl rfl
  | goOn at' on => exact joins_nil rfl rfl
  | exit at' stopped => exact joins_nil rfl rfl
  | count at' => exact joins_nil rfl rfl
  | take avail at' => exact joins_nil rfl rfl
  | process wi todo at' => exact joins_nil rfl rfl
  | endRound at' => exact joins_nil rfl rfl
  | pushCompleted wi todo at' => exact joins_nil rfl rfl

theorem Entered.preserved (entered : s.Entered) (next : s.Next label u) : u.Entered := by
  obtain ⟨items, joins⟩ := next.joins
  rw [Entered, joins.range]
  exact joins.perm.trans (entered.append_right items)

/-! ## Signals -/

/-- An item that the worker will not find before it reads the eventfd again is signalled. -/
def Signalled (s : CoordinatorWorker) : Prop :=
  s.worker.Leaves s.pending.length → 0 < s.startEventfd ∨ s.main = .signalling

/-- A step of the main thread that leaves the pending items as they are. -/
theorem Signalled.moves (signalled : s.Signalled) (other : s.main ≠ .signalling)
    (worker : u.worker = s.worker) (pending : u.pending = s.pending)
    (eventfd : s.startEventfd ≤ u.startEventfd) : u.Signalled := by
  intro leaves
  rw [worker, pending] at leaves
  rcases signalled leaves with counted | signalling
  · exact .inl (Nat.lt_of_lt_of_le counted eventfd)
  · exact absurd signalling other

theorem Signalled.preserved (signalled : s.Signalled) (next : s.Next label u) : u.Signalled := by
  cases next with
  | enter running room first => exact signalled.moves (by simp [running]) rfl rfl (Nat.le_refl _)
  | schedule running room first => exact signalled
  | wait inline running none_left => exact signalled
  | run idx inside running => exact signalled.moves (by simp [running]) rfl rfl (Nat.le_refl _)
  | complete running => exact signalled.moves (by simp [running]) rfl rfl (Nat.le_refl _)
  | stop running => exact signalled.moves (by simp [running]) rfl rfl (Nat.le_refl _)
  | push wi at' => exact fun _ => .inr rfl
  | signal at' => exact fun _ => .inl (Nat.succ_pos _)
  | collect avail at' => exact signalled.moves (by simp [at']) rfl rfl (Nat.le_refl _)
  | finish wi todo nr at' => exact signalled.moves (by simp [at']) rfl rfl (Nat.le_refl _)
  | signalRoom nr at' => exact signalled.moves (by simp [at']) rfl rfl (Nat.le_refl _)
  | signalStop at' => exact fun _ => .inl (Nat.succ_pos _)
  | read at' read => exact fun leaves => leaves.elim
  | goOn at' on => exact fun leaves => leaves.elim
  | exit at' stopped => exact fun leaves => leaves.elim
  | count at' => exact fun leaves => absurd leaves (Nat.lt_irrefl _)
  | take avail at' =>
    intro leaves
    refine signalled ?_
    rw [at']
    change 0 < (s.pending.drop avail).length at leaves
    rw [List.length_drop] at leaves
    exact Nat.lt_of_sub_pos leaves
  | process wi todo at' => exact fun leaves => signalled (by rwa [at'])
  | endRound at' => exact fun leaves => signalled (by rwa [at'])
  | pushCompleted wi todo at' => exact fun leaves => signalled (by rwa [at'])

/-! ## Runs -/

/-- A thread that stops has been told to. -/
def Going (s : CoordinatorWorker) : Prop :=
  s.stopped = false → s.main ≠ .stopping ∧ s.main ≠ .joining ∧ s.worker ≠ .exited

theorem Going.preserved (going : s.Going) (next : s.Next label u) : u.Going := by
  intro on
  cases next with
  | stop running => cases on
  | exit at' stopped => exact absurd stopped (by simp [show s.stopped = false from on])
  | signalStop at' => exact absurd at' (going on).1
  | schedule running room first => exact going on
  | wait inline running none_left => exact going on
  | enter running room first => exact ⟨nofun, nofun, (going on).2.2⟩
  | run idx inside running => exact ⟨nofun, nofun, (going on).2.2⟩
  | complete running => exact ⟨nofun, nofun, (going on).2.2⟩
  | push wi at' => exact ⟨nofun, nofun, (going on).2.2⟩
  | signal at' => exact ⟨nofun, nofun, (going on).2.2⟩
  | collect avail at' => exact ⟨nofun, nofun, (going on).2.2⟩
  | finish wi todo nr at' => exact ⟨nofun, nofun, (going on).2.2⟩
  | signalRoom nr at' => exact ⟨nofun, nofun, (going on).2.2⟩
  | read at' signalled => exact ⟨(going on).1, (going on).2.1, nofun⟩
  | goOn at' on' => exact ⟨(going on).1, (going on).2.1, nofun⟩
  | count at' => exact ⟨(going on).1, (going on).2.1, nofun⟩
  | take avail at' => exact ⟨(going on).1, (going on).2.1, nofun⟩
  | process wi todo at' => exact ⟨(going on).1, (going on).2.1, nofun⟩
  | endRound at' => exact ⟨(going on).1, (going on).2.1, nofun⟩
  | pushCompleted wi todo at' => exact ⟨(going on).1, (going on).2.1, nofun⟩

theorem Next.lost (next : s.Next label u) : u.lost = s.lost := by
  cases next with
  | _ => rfl

structure Sound (s : CoordinatorWorker) : Prop where
  bounded : s.Bounded
  ordered : s.Ordered
  entered : s.Entered
  signalled : s.Signalled
  going : s.Going
  lost : s.lost = []

theorem sound_init : Sound {} where
  bounded := bounded_init
  ordered := ordered_init
  entered := List.Perm.refl []
  signalled leaves := absurd leaves (Nat.lt_irrefl 0)
  going _ := ⟨nofun, nofun, nofun⟩
  lost := rfl

theorem Sound.step (sound : s.Sound) (stepped : step s label = some u) : u.Sound := by
  have next := sound.bounded.next stepped
  exact {
    bounded := sound.bounded.preserved next
    ordered := sound.ordered.preserved next
    entered := sound.entered.preserved next
    signalled := sound.signalled.preserved next
    going := sound.going.preserved next
    lost := next.lost.trans sound.lost }

theorem sound_run (ran : run step s labels = some u) (sound : s.Sound) : u.Sound :=
  run_invariant Sound (fun _ _ _ sound stepped => sound.step stepped) labels s u sound ran

theorem line_run (sound : s.Sound) (line : s.line = List.range s.submitted)
    (inTurn : StepsMeet step InTurn s labels) (ran : run step s labels = some u) :
    u.line = List.range u.submitted := by
  refine (run_invariant_of_meets (fun s => s.Sound ∧ s.line = List.range s.submitted) ?_ labels s u
    ⟨sound, line⟩ inTurn ran).2
  rintro s label s' ⟨sound, line⟩ met stepped
  obtain ⟨items, joins⟩ := (sound.bounded.next stepped).joins
  refine ⟨sound.step stepped, ?_⟩
  rw [joins.inTurn met, line, joins.range]

/-! ## The line of work -/

def workLine (s : CoordinatorWorker) : WorkLine Nat where
  entered := s.pushed
  processed := s.processed
  completed := s.finished

/-- An item that is pushed has a unit, so that the others leave room for it. -/
theorem room_of_pushing (bounded : s.Bounded) (ordered : s.Ordered) (at' : s.main = .pushing wi) :
    s.pushed.length < s.finished.length + CoordWorkQueue.queueLength := by
  have units := bounded.units
  have finished := congrArg List.length ordered.finished
  have processed := congrArg List.length ordered.processed
  simp only [at', MainAt.units, WorkerAt.units] at units
  simp only [at', MainAt.todo, List.length_append, List.length_nil] at finished
  rw [List.length_append, List.length_append] at processed
  omega

theorem Next.workLine (next : s.Next label u) (bounded : s.Bounded) (ordered : s.Ordered) :
    Relation.ReflGen (WorkLine.Step CoordWorkQueue.queueLength) s.workLine u.workLine := by
  cases next with
  | push wi at' => exact .single (.enter wi (room_of_pushing bounded ordered at'))
  | process wi todo at' =>
    have processed := ordered.processed
    rw [at', WorkerAt.todo, List.cons_append, List.append_cons] at processed
    exact .single (.process wi ⟨_, processed⟩)
  | finish wi todo nr at' =>
    have finished := ordered.finished
    rw [at', MainAt.todo, List.cons_append, List.append_cons] at finished
    exact .single (.complete wi ⟨_, finished⟩)
  | _ => exact .refl

theorem workLine_run (ran : run step {} labels = some u) :
    u.workLine.Reachable CoordWorkQueue.queueLength := by
  refine (run_invariant
    (fun s => s.Sound ∧ s.workLine.Reachable CoordWorkQueue.queueLength) ?_ labels {} u
    ⟨sound_init, Relation.ReflTransGen.refl⟩ ran).2
  rintro s label s' ⟨sound, reachable⟩ stepped
  have next := sound.bounded.next stepped
  exact ⟨sound.step stepped, reachable.step (next.workLine sound.bounded sound.ordered)⟩

/-! ## Progress -/

/-- Neither thread has anything left to do. -/
structure Quiet (s : CoordinatorWorker) : Prop where
  main : s.main = .running
  scheduled : s.scheduled = []
  completed : s.completed = []
  worker : s.worker = .reading
  startEventfd : s.startEventfd = 0

theorem Sound.line_of_quiet (sound : s.Sound) (quiet : s.Quiet) : s.line = s.finished := by
  have pending : s.pending.length = 0 := by
    refine Nat.eq_zero_of_not_pos fun some_pending => ?_
    have leaves : s.worker.Leaves s.pending.length := by rwa [quiet.worker]
    rcases sound.signalled leaves with counted | signalling
    · rw [quiet.startEventfd] at counted
      exact Nat.lt_irrefl 0 counted
    · rw [quiet.main] at signalling
      cases signalling
  have waiters : s.queueHasRoom.waiters = [] := by
    by_contra some_waits
    have units := sound.bounded.units
    rw [sound.bounded.full some_waits, quiet.scheduled, quiet.main, pending, quiet.worker,
      quiet.completed] at units
    cases units
  have finished := sound.ordered.finished
  have processed := sound.ordered.processed
  rw [quiet.main, quiet.completed, quiet.worker] at finished
  rw [quiet.worker, List.eq_nil_of_length_eq_zero pending] at processed
  rw [line, quiet.main, quiet.scheduled, waiters, ← processed, ← finished]
  simp only [MainAt.entering, MainAt.todo, WorkerAt.todo, WorkerAt.inHand, List.map_nil,
    List.append_nil]

theorem Sound.finished_of_quiet (sound : s.Sound) (quiet : s.Quiet) :
    s.finished.Perm (List.range s.submitted) :=
  sound.line_of_quiet quiet ▸ sound.entered

end CoordinatorWorker

namespace CoordWorkQueue

/-- Bounds of the steps that are left for what the threads are doing. -/
def MainAt.cost : MainAt → Nat
  | .running | .joining => 0
  | .pushing _ => 14
  | .signalling | .stopping => 6
  | .collecting _ => 2
  | .completing todo _ => todo.length + 1

def WorkerAt.cost : WorkerAt → Nat
  | .reading | .exited => 0
  | .loading => 4
  | .counting => 3
  | .collecting _ => 2
  | .processing todo => 6 * todo.length + 1
  | .pushing _ todo => 6 * todo.length + 6

end CoordWorkQueue

namespace CoordinatorWorker

open CoordWorkQueue

variable {s u : CoordinatorWorker} {label : Label} {labels : List Label}

/-- A bound of the steps that are left: an item counts for more the more places are before it. -/
def cost (s : CoordinatorWorker) : Nat :=
  16 * s.queueHasRoom.waiters.length + 15 * s.scheduled.length + s.main.cost +
    7 * s.pending.length + 5 * s.startEventfd + s.worker.cost + 4 * s.completed.length

/-- The steps after which less is left. -/
def Label.Works : Label → Prop
  | .run _ | .main | .worker => True
  | .submit _ | .complete | .stop => False

theorem Next.cost (next : s.Next label u) (works : label.Works) (bounded : s.Bounded) :
    u.cost < s.cost := by
  have pending := bounded.pending
  have completed := bounded.completed
  unfold CoordinatorWorker.cost
  cases next with
  | enter running room first => exact works.elim
  | schedule running room first => exact works.elim
  | wait inline running none_left => exact works.elim
  | complete running => exact works.elim
  | stop running => exact works.elim
  | run idx inside running =>
    simp only [running, MainAt.cost, List.length_eraseIdx_of_lt inside]
    omega
  | push wi at' =>
    simp only [at', MainAt.cost, List.length_append, List.length_singleton]
    omega
  | signal at' =>
    simp only [at', MainAt.cost]
    omega
  | collect avail at' =>
    simp only [at', MainAt.avail] at completed
    simp only [at', MainAt.cost, List.length_drop, List.length_take_of_le completed]
    omega
  | finish wi todo nr at' =>
    simp only [at', MainAt.cost, List.length_cons]
    omega
  | signalRoom nr at' =>
    have served := congrArg List.length
      (Semaphore.serve_order (s.queueHasRoom.count + nr) s.queueHasRoom.waiters)
    rw [List.length_append, List.length_map, List.length_map] at served
    simp only [at', MainAt.cost, CoordinatorWorker.signalRoom, List.length_append, List.length_nil]
    omega
  | signalStop at' =>
    simp only [at', MainAt.cost]
    omega
  | read at' signalled =>
    simp only [at', WorkerAt.cost]
    omega
  | goOn at' on =>
    simp only [at', WorkerAt.cost]
    omega
  | exit at' stopped =>
    simp only [at', WorkerAt.cost]
    omega
  | count at' =>
    simp only [at', WorkerAt.cost]
    omega
  | take avail at' =>
    simp only [at', WorkerAt.avail] at pending
    simp only [at', WorkerAt.cost, List.length_drop, List.length_take_of_le pending]
    omega
  | process wi todo at' =>
    simp only [at', WorkerAt.cost, List.length_cons]
    omega
  | endRound at' =>
    simp only [at', WorkerAt.cost]
    omega
  | pushCompleted wi todo at' =>
    simp only [at', WorkerAt.cost, List.length_append, List.length_singleton]
    omega

theorem exists_stepMain (busy : s.main ≠ .running) (going : s.main ≠ .joining) :
    ∃ u, s.stepMain = some u := by
  unfold stepMain
  split
  · next running => exact absurd running busy
  · exact ⟨_, rfl⟩
  · exact ⟨_, rfl⟩
  · exact ⟨_, rfl⟩
  · exact ⟨_, rfl⟩
  · exact ⟨_, rfl⟩
  · exact ⟨_, rfl⟩
  · next joining => exact absurd joining going

theorem exists_stepWorker (woken : s.worker = .reading → 0 < s.startEventfd)
    (going : s.worker ≠ .exited) : ∃ u, s.stepWorker = some u := by
  unfold stepWorker
  split
  · next reading => exact ⟨_, if_pos (woken reading)⟩
  · exact ⟨_, rfl⟩
  · exact ⟨_, rfl⟩
  · exact ⟨_, rfl⟩
  · exact ⟨_, rfl⟩
  · exact ⟨_, rfl⟩
  · exact ⟨_, rfl⟩
  · next exited => exact absurd exited going

/-- The steps that finish what was submitted. -/
def Label.GoesOn : Label → Prop
  | .submit _ | .stop => False
  | .run idx => idx = 0
  | .complete | .main | .worker => True

theorem progress_of_step (bounded : s.Bounded) (stepped : step s label = some u)
    (goesOn : label.GoesOn) (works : label.Works) :
    ∃ labels u, (∀ label ∈ labels, Label.GoesOn label) ∧ run step s labels = some u ∧
      u.cost < s.cost :=
  ⟨[label], u, fun _ listed => List.mem_singleton.mp listed ▸ goesOn,
    run_cons_eq_some.mpr ⟨u, stepped, rfl⟩, (bounded.next stepped).cost works bounded⟩

/-- `complete` empties its queue. -/
theorem progress_of_completed (running : s.main = .running) (completed : s.completed ≠ []) :
    ∃ labels u, (∀ label ∈ labels, Label.GoesOn label) ∧ run step s labels = some u ∧
      u.cost < s.cost := by
  have some_completed := List.length_pos_iff.mpr completed
  refine ⟨[.complete, .main], { s with
    completed := s.completed.drop s.completed.length
    main := .completing (s.completed.take s.completed.length) s.completed.length }, ?_, ?_, ?_⟩
  · intro label listed
    simp only [List.mem_cons, List.not_mem_nil, or_false] at listed
    rcases listed with rfl | rfl
    · trivial
    · trivial
  · exact run_cons_eq_some.mpr ⟨{ s with main := .collecting s.completed.length },
      if_pos running, rfl⟩
  · simp only [cost, running, MainAt.cost, List.length_drop, List.length_take_of_le (Nat.le_refl _)]
    omega

/-- A state that is not quiet goes on to one that has less left. -/
theorem exists_progress (sound : s.Sound) (on : s.stopped = false) (busy : ¬s.Quiet) :
    ∃ labels u, (∀ label ∈ labels, Label.GoesOn label) ∧ run step s labels = some u ∧
      u.cost < s.cost := by
  obtain ⟨-, joining, exited⟩ := sound.going on
  by_cases running : s.main = .running
  · by_cases scheduled : s.scheduled = []
    · by_cases asleep : s.worker = .reading ∧ s.startEventfd = 0
      · refine progress_of_completed running fun nothing => ?_
        exact busy ⟨running, scheduled, nothing, asleep.1, asleep.2⟩
      · have woken : s.worker = .reading → 0 < s.startEventfd := fun reading =>
          Nat.pos_of_ne_zero fun none => asleep ⟨reading, none⟩
        obtain ⟨u, stepped⟩ := exists_stepWorker woken exited
        have stepped : step s .worker = some u := stepped
        exact progress_of_step sound.bounded stepped trivial trivial
    · have inside := List.length_pos_iff.mpr scheduled
      have stepped : step s (.run 0) = some { s with
          scheduled := s.scheduled.eraseIdx 0
          main := .pushing s.scheduled[0] } := by
        rw [step, if_pos running, List.getElem?_eq_getElem inside, Option.map_some]
      exact progress_of_step sound.bounded stepped rfl trivial
  · obtain ⟨u, stepped⟩ := exists_stepMain running joining
    have stepped : step s .main = some u := stepped
    exact progress_of_step sound.bounded stepped trivial trivial

theorem Next.goesOn (next : s.Next label u) (goesOn : label.GoesOn) :
    u.submitted = s.submitted ∧ u.stopped = s.stopped := by
  cases next with
  | enter running room first => exact goesOn.elim
  | schedule running room first => exact goesOn.elim
  | wait inline running none_left => exact goesOn.elim
  | stop running => exact goesOn.elim
  | _ => exact ⟨rfl, rfl⟩

theorem goesOn_run (sound : s.Sound) (goesOn : ∀ label ∈ labels, label.GoesOn)
    (ran : run step s labels = some u) :
    u.submitted = s.submitted ∧ u.stopped = s.stopped := by
  refine (run_invariant_of_meets
    (fun t => t.Sound ∧ t.submitted = s.submitted ∧ t.stopped = s.stopped) ?_ labels s u
    ⟨sound, rfl, rfl⟩ (stepsMeet_of_forall goesOn s) ran).2
  rintro t label t' ⟨sound, submitted, stopped⟩ met stepped
  obtain ⟨submitted', stopped'⟩ := (sound.bounded.next stepped).goesOn met
  exact ⟨sound.step stepped, submitted'.trans submitted, stopped'.trans stopped⟩

theorem Label.GoesOn.inTurn (goesOn : label.GoesOn) (s : CoordinatorWorker) : s.InTurn label := by
  cases label with
  | submit inline => exact goesOn.elim
  | run idx => exact goesOn
  | _ => trivial

/-- What was submitted is finished. -/
theorem exists_quiet (sound : s.Sound) (on : s.stopped = false) :
    ∃ labels u, (∀ label ∈ labels, Label.GoesOn label) ∧ run step s labels = some u ∧ u.Quiet := by
  obtain ⟨labels, u, goesOn, ran, -, quiet⟩ :=
    exists_run_of_progress (fun s => s.Sound ∧ s.stopped = false) Quiet cost
      (fun s valid busy => by
        obtain ⟨labels, u, goesOn, ran, less⟩ := exists_progress valid.1 valid.2 busy
        have stopped := (goesOn_run valid.1 goesOn ran).2
        exact ⟨labels, u, goesOn, ran, ⟨sound_run ran valid.1, stopped.trans valid.2⟩, less⟩)
      s ⟨sound, on⟩
  exact ⟨labels, u, goesOn, ran, quiet⟩

/-! ## The queue -/

/-- No item is lost, and each is processed once and then completed once, in the order of the pushes.
That is the order of the submissions when the continuations run in turn. -/
structure Kept (labels : List Label) (u : CoordinatorWorker) : Prop where
  lost : u.lost = []
  pending_tmp : u.worker.avail ≤ CoordWorkQueue.queueLength
  completed_tmp : u.main.avail ≤ CoordWorkQueue.queueLength
  finished : u.finished <+: u.processed
  processed : u.processed <+: u.pushed
  in_flight : u.pushed.length ≤ u.finished.length + CoordWorkQueue.queueLength
  pushed : u.pushed.Nodup ∧ ∀ wi ∈ u.pushed, wi < u.submitted
  in_turn : StepsMeet step InTurn {} labels → u.pushed <+: List.range u.submitted
  quiet : u.Quiet → u.finished.Perm (List.range u.submitted)
  goes_on : u.stopped = false → ∃ more v, (∀ label ∈ more, Label.GoesOn label) ∧
    run step u more = some v ∧ v.Quiet ∧ v.submitted = u.submitted ∧
    v.finished.Perm (List.range u.submitted) ∧
    (StepsMeet step InTurn {} labels → v.finished = List.range u.submitted)

theorem items_are_kept (ran : run step {} labels = some u) : Kept labels u := by
  have sound := sound_run ran sound_init
  have line := (workLine_run ran).valid
  have units := sound.bounded.units
  have front : u.pushed <+: u.line := List.prefix_append ..
  have in_order (inTurn : StepsMeet step InTurn {} labels) : u.line = List.range u.submitted :=
    line_run sound_init rfl inTurn ran
  constructor
  case lost => exact sound.lost
  case pending_tmp =>
    have pending := sound.bounded.pending
    omega
  case completed_tmp =>
    have completed := sound.bounded.completed
    omega
  case finished => exact line.completed
  case processed => exact line.processed
  case in_flight => exact line.bounded
  case pushed =>
    have nodup : u.line.Nodup := sound.entered.nodup_iff.mpr List.nodup_range
    refine ⟨nodup.sublist front.sublist, fun wi listed => ?_⟩
    exact List.mem_range.mp (sound.entered.mem_iff.mp (front.subset listed))
  case in_turn => exact fun inTurn => in_order inTurn ▸ front
  case quiet => exact sound.finished_of_quiet
  case goes_on =>
    intro on
    obtain ⟨more, v, goesOn, ran', quiet⟩ := exists_quiet sound on
    have sound' := sound_run ran' sound
    have submitted := (goesOn_run sound goesOn ran').1
    refine ⟨more, v, goesOn, ran', quiet, submitted, ?_, fun inTurn => ?_⟩
    · rw [← submitted]
      exact sound'.finished_of_quiet quiet
    · have met : StepsMeet step InTurn u more :=
        (stepsMeet_of_forall goesOn u).mono fun s label goesOn => goesOn.inTurn s
      rw [← sound'.line_of_quiet quiet, line_run sound (in_order inTurn) met ran', submitted]

/-- A first item is processed while a second one is pushed behind it. -/
def twoItems : List Label :=
  [.submit true, .main, .main, .worker, .worker, .worker, .worker, .worker, .submit false, .worker,
    .run 0, .main, .worker, .main, .complete, .main]

theorem items_are_kept_twoItems :
    ∃ u, run step {} twoItems = some u ∧ u.processed = [0] ∧ u.pending = [1] ∧
      Kept twoItems u := by
  obtain ⟨u, ran, processed, pending⟩ : ∃ u, run step {} twoItems = some u ∧
      u.processed = [0] ∧ u.pending = [1] := ⟨_, rfl, rfl, rfl⟩
  exact ⟨u, ran, processed, pending, items_are_kept ran⟩

/-- The first continuation is scheduled, and the second one runs at once. -/
def overtaking : List Label :=
  [.submit false, .submit true, .main, .main, .run 0, .main, .main] ++
    List.replicate 9 .worker ++ [.complete, .main, .main, .main, .main]

theorem overtakes : ∃ u, run step {} overtaking = some u ∧ u.Quiet ∧
    u.processed = [1, 0] ∧ u.finished = [1, 0] ∧ ¬u.finished <+: List.range u.submitted :=
  ⟨_, rfl, ⟨rfl, rfl, rfl, rfl, rfl⟩, rfl, rfl, by decide⟩

end CoordinatorWorker

end Hiactor
