import Hiactor.Core.Proofs.ShardFrames
import Hiactor.Core.Proofs.Shutdown

/-!
# Nested time quotas

The deadline of a child is never later than that of the group that runs it. A group that is about
to run a child has just compared its own deadline with the clock, and the truncated rest of its
quota, counted from the same clock, ends no later than that deadline. The clock moves only where
`need_yield` is asked right after, and a group that is told to yield runs no further child.
-/

namespace Hiactor

open Lib

namespace TimedShard

variable {s s' : TimedShard} {shard : Shard} {path : Path} {pc pc' : Pc} {rest : List RunFrame}
  {now : Int}

/-- The deadlines of the objects that run, innermost first. -/
def stopTimes (s : TimedShard) : List Int := s.timers.map Timer.stopTime

/-- Every deadline is at most the next one, and at most the quota after the start. -/
structure Deadlines (s : TimedShard) : Prop where
  length : s.stopTimes.length = s.shard.runs.length
  nested : s.stopTimes.Pairwise (· ≤ ·)
  start : ∀ time ∈ s.stopTimes, time ≤ s.startTime + defaultActorQuota * clockUnit
  waiting : ∀ frame ∈ s.shard.runs.tail, frame.pc = .groupChild

/-- A group that is about to run a child has counted its rest from the present clock. -/
def Fresh (s : TimedShard) : Prop :=
  ∀ frame ∈ s.shard.runs.head?, frame.pc = .groupMail ∨ frame.pc = .groupTasks →
    ∀ timer ∈ s.timers.head?, s.actorClock + timer.unusedQuota * clockUnit ≤ timer.stopTime

structure Bounded (s : TimedShard) : Prop extends Deadlines s where
  fresh : s.Fresh

/-! ## Timers -/

theorem Deadlines.congr (deadlines : s.Deadlines) (runs : s'.shard.runs = s.shard.runs)
    (times : s'.stopTimes = s.stopTimes) (start : s'.startTime = s.startTime) : s'.Deadlines := by
  obtain ⟨length, nested, started, waiting⟩ := deadlines
  constructor
  case length =>
    rw [times, runs, length]
  case nested =>
    rw [times]
    exact nested
  case start =>
    rw [times, start]
    exact started
  case waiting =>
    rw [runs]
    exact waiting

theorem Deadlines.advanceActorClock (deadlines : s.Deadlines) (interval : UInt32) (now : Int) :
    (s.advanceActorClock interval now).Deadlines := by
  unfold TimedShard.advanceActorClock
  split
  · exact deadlines.congr rfl rfl rfl
  · exact deadlines.congr rfl rfl rfl

@[simp] theorem shard_advanceActorClock (s : TimedShard) (interval : UInt32) (now : Int) :
    (s.advanceActorClock interval now).shard = s.shard := by
  unfold TimedShard.advanceActorClock
  split
  · rfl
  · rfl

@[simp] theorem shard_needYield (s : TimedShard) (needPreempt : Bool) :
    (s.needYield needPreempt).2.shard = s.shard := by
  unfold TimedShard.needYield
  split
  · rfl
  · split
    · rfl
    · rfl

theorem Deadlines.needYield (deadlines : s.Deadlines) (needPreempt : Bool) :
    (s.needYield needPreempt).2.Deadlines := by
  unfold TimedShard.needYield
  split
  · exact deadlines
  · rename_i timer timers stored
    split
    · exact deadlines
    · exact deadlines.congr rfl (by simp [stopTimes, stored]) rfl

/-- The truncated rest of the quota ends no later than the deadline. -/
theorem rest_le {stopTime clock : Int} (left : 0 < (stopTime - clock).tdiv clockUnit) :
    clock + (stopTime - clock).tdiv clockUnit * clockUnit ≤ stopTime := by
  rw [clockUnit] at left ⊢
  have positive : 0 ≤ stopTime - clock := by
    by_contra negative
    rw [Int.tdiv_eq_ediv] at left
    split at left
    · omega
    · rw [show Int.sign 1000 = 1 from rfl] at left
      omega
  have truncated := @Int.mul_tdiv_self_le (stopTime - clock) 1000 positive
  omega

/-- What `need_yield` leaves when it returns `false`. -/
theorem fresh_needYield {needPreempt : Bool} (goesOn : (s.needYield needPreempt).1 = false) :
    ∀ timer ∈ (s.needYield needPreempt).2.timers.head?,
      (s.needYield needPreempt).2.actorClock + timer.unusedQuota * clockUnit ≤
        timer.stopTime := by
  unfold needYield at goesOn ⊢
  split
  · rename_i none
    intro timer first
    rw [none] at first
    cases first
  · rename_i timer timers stored
    simp only [stored] at goesOn
    split
    · rename_i preempts
      simp [preempts] at goesOn
    · rename_i notPreempted
      simp only [notPreempted, Bool.false_eq_true, if_false, decide_eq_false_iff_not] at goesOn
      intro first isFirst
      obtain rfl := Option.mem_some.mp isFirst
      show s.actorClock + (timer.stopTime - s.actorClock).tdiv clockUnit * clockUnit ≤
        timer.stopTime
      exact rest_le (by omega)

/-! ## Frames -/

theorem Deadlines.timers_nil (deadlines : s.Deadlines) (none : s.shard.runs = []) :
    s.timers = [] := by
  have length := deadlines.length
  rw [none] at length
  exact List.map_eq_nil_iff.mp (List.length_eq_zero_iff.mp length)

/-- The runs that are under way stay. -/
theorem follow_of_length (deadlines : s.Deadlines)
    (same : shard.runs.length = s.shard.runs.length) :
    s.follow now shard = { s with shard := shard } := by
  unfold follow
  split
  · rw [if_neg (by omega), same, Nat.sub_self, List.drop_zero]
  · rename_i none
    have empty : s.shard.runs = [] := List.length_eq_zero_iff.mp (by rw [← same, none]; rfl)
    rw [deadlines.timers_nil empty]

/-- The innermost run ends. -/
theorem follow_of_tail {frame : RunFrame} (deadlines : s.Deadlines)
    (before : s.shard.runs = frame :: rest) (after : shard.runs = rest) :
    s.follow now shard = { s with shard := shard, timers := s.timers.tail } := by
  have length := deadlines.length
  rw [before, stopTimes, List.length_map, List.length_cons] at length
  unfold follow
  split
  · rename_i more
    rw [before, after, List.length_cons, if_neg (by omega), Nat.add_sub_cancel_left,
      List.drop_one]
  · rename_i none
    rw [after] at none
    rw [none, List.length_nil] at length
    obtain ⟨timer, stored⟩ := List.length_eq_one_iff.mp length
    rw [stored]
    rfl

theorem Bounded.same (bounded : s.Bounded) (runs : shard.runs = s.shard.runs) :
    (s.follow now shard).Bounded := by
  rw [follow_of_length bounded.toDeadlines (by rw [runs])]
  refine ⟨bounded.toDeadlines.congr runs rfl rfl, fun frame first => ?_⟩
  have first' : frame ∈ shard.runs.head? := first
  rw [runs] at first'
  exact bounded.fresh frame first'

/-- The innermost run goes on at another point. -/
theorem Deadlines.goesOn (deadlines : s.Deadlines) (before : s.shard.runs = ⟨path, pc⟩ :: rest)
    (after : shard.runs = ⟨path, pc'⟩ :: rest)
    (fresh : pc' = .groupMail ∨ pc' = .groupTasks →
      ∀ timer ∈ s.timers.head?, s.actorClock + timer.unusedQuota * clockUnit ≤ timer.stopTime) :
    (s.follow now shard).Bounded := by
  rw [follow_of_length deadlines (by rw [before, after, List.length_cons, List.length_cons])]
  obtain ⟨length, nested, start, waiting⟩ := deadlines
  rw [before] at length waiting
  refine ⟨⟨?_, nested, start, ?_⟩, fun frame first => ?_⟩
  · show s.stopTimes.length = shard.runs.length
    rw [length, after, List.length_cons, List.length_cons]
  · show ∀ frame ∈ shard.runs.tail, _
    rw [after]
    exact waiting
  · have first' : frame ∈ shard.runs.head? := first
    rw [after] at first'
    obtain rfl := Option.mem_some.mp first'
    exact fresh

/-- The innermost run ends: the group below it has not asked `need_yield` yet. -/
theorem Deadlines.returns {frame : RunFrame} (deadlines : s.Deadlines)
    (before : s.shard.runs = frame :: rest) (after : shard.runs = rest) :
    (s.follow now shard).Bounded := by
  rw [follow_of_tail deadlines before after]
  obtain ⟨length, nested, start, waiting⟩ := deadlines
  rw [before] at length waiting
  have times : ({ s with shard := shard, timers := s.timers.tail } : TimedShard).stopTimes =
      s.stopTimes.tail := List.map_tail
  refine ⟨⟨?_, ?_, ?_, ?_⟩, fun first isFirst kind => ?_⟩
  · rw [times, List.length_tail, length, after, List.length_cons, Nat.add_sub_cancel]
  · rw [times]
    exact nested.tail
  · rw [times]
    exact fun time member => start time (List.mem_of_mem_tail member)
  · show ∀ frame ∈ shard.runs.tail, _
    rw [after]
    exact fun frame member => waiting frame (List.mem_of_mem_tail member)
  · have isFirst' : first ∈ shard.runs.head? := isFirst
    rw [after] at isFirst'
    have child := waiting first (List.mem_of_mem_head? isFirst')
    rcases kind with mail | tasks
    · rw [child] at mail
      cases mail
    · rw [child] at tasks
      cases tasks

/-- An actor runs no child. -/
theorem Deadlines.actor {next : Option Pc} (deadlines : s.Deadlines)
    (before : s.shard.runs = ⟨path, pc⟩ :: rest) (stays : ∀ pc' ∈ next, pc'.isGroup = false)
    (after : shard.runs = next.toList.map (RunFrame.mk path) ++ rest) :
    (s.follow now shard).Bounded := by
  cases next with
  | none => exact deadlines.returns before after
  | some pc' =>
    refine deadlines.goesOn before after (fun group => ?_)
    have actor := stays pc' rfl
    rcases group with rfl | rfl
    · cases actor
    · cases actor

/-- The reactor runs an object: the clock and the quota are set anew. -/
theorem Bounded.dispatched {k : ActorKey} (bounded : s.Bounded) (before : s.shard.runs = [])
    (after : shard.runs = [⟨[k], pc⟩]) : (s.follow now shard).Bounded := by
  have none := bounded.toDeadlines.timers_nil before
  have followed : s.follow now shard = { s with
      shard := shard, actorClock := now, actorQuota := defaultActorQuota, startTime := now,
      timers := [⟨defaultActorQuota, now + defaultActorQuota * clockUnit⟩] } := by
    unfold follow
    rw [after, before]
    simp [passQuota, setTimer, none]
  rw [followed]
  refine ⟨⟨?_, ?_, ?_, ?_⟩, ?_⟩
  · simp [stopTimes, after]
  · simp [stopTimes]
  · simp [stopTimes]
  · simp [after]
  · intro frame first kind timer isTimer
    obtain rfl := Option.mem_some.mp isTimer
    exact le_rfl

/-- A group runs a child with the rest of its own quota. -/
theorem Bounded.entered {k : ActorKey} (bounded : s.Bounded) (paths : Shard.Nested s.shard.runs)
    (before : s.shard.runs = ⟨path, .groupTasks⟩ :: rest)
    (after : shard.runs = ⟨k :: path, pc⟩ :: ⟨path, .groupChild⟩ :: rest) :
    (s.follow now shard).Bounded := by
  obtain ⟨⟨length, nested, start, waiting⟩, fresh⟩ := bounded
  rw [before] at length paths waiting
  obtain ⟨timer, timers, stored⟩ : ∃ timer timers, s.timers = timer :: timers := by
    cases stored : s.timers with
    | nil => simp [stopTimes, stored] at length
    | cons timer timers => exact ⟨timer, timers, rfl⟩
  have left := fresh ⟨path, .groupTasks⟩ (by rw [before]; rfl) (.inr rfl) timer
    (by rw [stored]; rfl)
  have nonroot : path ≠ [] := by
    obtain ⟨⟨j, child⟩, -⟩ := paths
    exact fun root => List.cons_ne_nil _ _ (child.symm.trans root)
  have followed : s.follow now shard = { s with
      shard := shard, actorQuota := timer.unusedQuota,
      timers :=
        ⟨timer.unusedQuota, s.actorClock + timer.unusedQuota * clockUnit⟩ :: s.timers } := by
    unfold follow
    rw [after, before]
    simp [passQuota, setTimer, stored, nonroot]
  rw [followed]
  have times : s.stopTimes = timer.stopTime :: timers.map Timer.stopTime := by
    rw [stopTimes, stored, List.map_cons]
  refine ⟨⟨?_, ?_, ?_, ?_⟩, ?_⟩
  · show s.stopTimes.length + 1 = shard.runs.length
    rw [length, after]
    rfl
  · show ((s.actorClock + timer.unusedQuota * clockUnit) :: s.stopTimes).Pairwise (· ≤ ·)
    refine List.pairwise_cons.mpr ⟨fun time member => left.trans ?_, nested⟩
    rw [times] at member nested
    rcases List.mem_cons.mp member with rfl | later
    · exact le_rfl
    · exact (List.pairwise_cons.mp nested).1 time later
  · show ∀ time ∈ (s.actorClock + timer.unusedQuota * clockUnit) :: s.stopTimes, _
    intro time member
    rcases List.mem_cons.mp member with rfl | later
    · exact left.trans (start _ (by rw [times]; exact List.mem_cons_self))
    · exact start time later
  · show ∀ frame ∈ shard.runs.tail, _
    rw [after]
    intro frame member
    rcases List.mem_cons.mp member with rfl | later
    · rfl
    · exact waiting frame later
  · intro frame first kind child isChild
    obtain rfl := Option.mem_some.mp isChild
    exact le_rfl

/-! ## Steps -/

/-- Where `need_yield` is asked. -/
theorem asksYield_eq_some {s : Shard} {label : Shard.Label} {advances : Bool}
    (asked : s.asksYield label = some advances) :
    (∃ needYield i, label = .advance needYield i) ∧ s.stops = [] ∧
      ∃ frame rest, s.runs = frame :: rest ∧ frame.pc ≠ .groupTasks ∧
        (frame.pc = .groupMail → s.hasMail frame.path = true) := by
  unfold Shard.asksYield at asked
  split at asked
  · rename_i needYield i
    refine ⟨⟨needYield, i, rfl⟩, ?_⟩
    split at asked
    · rename_i frame rest idle runs
      refine ⟨idle, frame, rest, runs, ?_⟩
      split at asked
      · rename_i pc
        split at asked
        · rename_i mail
          exact ⟨by rw [pc]; exact nofun, fun _ => mail⟩
        · cases asked
      · rename_i pc
        exact ⟨by rw [pc]; exact nofun, fun mail => by rw [pc] at mail; cases mail⟩
      · rename_i pc
        exact ⟨by rw [pc]; exact nofun, fun mail => by rw [pc] at mail; cases mail⟩
      · rename_i pc
        exact ⟨by rw [pc]; exact nofun, fun mail => by rw [pc] at mail; cases mail⟩
      · cases asked
    · cases asked
  · cases asked

theorem asksYield_advance (s : Shard) (needYield needYield' : Bool) (i i' : Nat) :
    s.asksYield (.advance needYield i) = s.asksYield (.advance needYield' i') := rfl

/-- The object of the first frame asks `need_yield`, and goes on or returns. -/
theorem Deadlines.answered {yields : Bool} (deadlines : s.Deadlines)
    (asked : ∃ advances, s.shard.asksYield (.advance yields 0) = some advances)
    (fresh : yields = false →
      ∀ timer ∈ s.timers.head?, s.actorClock + timer.unusedQuota * clockUnit ≤ timer.stopTime)
    (taken : s.shard.step (.advance yields 0) = some shard) : (s.follow now shard).Bounded := by
  obtain ⟨advances, asked⟩ := asked
  obtain ⟨-, -, frame, others, runs, notTasks, hasMail⟩ := asksYield_eq_some asked
  cases Shard.framesMove_step taken with
  | same _ silent =>
    rw [silent] at asked
    cases asked
  | dispatched before =>
    rw [before] at runs
    cases runs
  | entered _ before =>
    obtain ⟨rfl, -⟩ := List.cons.inj (before.symm.trans runs)
    exact absurd rfl notTasks
  | moved _ before move after =>
    obtain ⟨rfl, -⟩ := List.cons.inj (before.symm.trans runs)
    cases move with
    | nextMail => exact deadlines.goesOn before after (fun _ => fresh rfl)
    | yieldMail => exact deadlines.returns before after
    | noMail mail =>
      rw [hasMail rfl] at mail
      cases mail
    | noTasks => exact absurd rfl notTasks
    | nextChild => exact deadlines.goesOn before after (fun _ => fresh rfl)
    | yieldChild => exact deadlines.returns before after
    | actor _ _ stays => exact deadlines.actor before stays after

/-- A step in which `need_yield` is not asked, and the clock stands still. -/
theorem Bounded.unasked {label : Shard.Label} (bounded : s.Bounded)
    (paths : Shard.Nested s.shard.runs) (silent : s.shard.asksYield label = none)
    (taken : s.shard.step label = some shard) : (s.follow now shard).Bounded := by
  cases Shard.framesMove_step taken with
  | same runs => exact bounded.same runs
  | dispatched before after => exact bounded.dispatched before after
  | entered _ before after => exact bounded.entered paths before after
  | moved idle before move after =>
    have asks := silent
    cases move with
    | nextMail mail =>
      simp only [Shard.asksYield, idle, before] at asks
      rw [if_pos mail] at asks
      cases asks
    | yieldMail mail =>
      simp only [Shard.asksYield, idle, before] at asks
      rw [if_pos mail] at asks
      cases asks
    | noMail =>
      refine bounded.toDeadlines.goesOn before after (fun _ => ?_)
      exact bounded.fresh _ (by rw [before]; rfl) (.inl rfl)
    | noTasks => exact bounded.toDeadlines.returns before after
    | nextChild => simp [Shard.asksYield, idle, before] at asks
    | yieldChild => simp [Shard.asksYield, idle, before] at asks
    | actor _ _ stays => exact bounded.toDeadlines.actor before stays after

/-- A step that asks `need_yield`, on the clock that was advanced before. -/
theorem Deadlines.asked {label : Shard.Label} {advances needPreempt : Bool}
    (deadlines : s.Deadlines) (asked : s.shard.asksYield label = some advances)
    (taken : ((s.needYield needPreempt).2.shard.step
      (.advance (s.needYield needPreempt).1 0)).map ((s.needYield needPreempt).2.follow now) =
        some s') : s'.Bounded := by
  obtain ⟨shard, moved, rfl⟩ := Option.map_eq_some_iff.mp taken
  obtain ⟨⟨needYield, i, rfl⟩, -⟩ := asksYield_eq_some asked
  refine (deadlines.needYield needPreempt).answered ⟨advances, ?_⟩
    (fun goesOn => fresh_needYield goesOn) moved
  rw [shard_needYield, ← asked]
  exact asksYield_advance ..

theorem Bounded.step {interval : UInt32} {l : TimedLabel} (bounded : s.Bounded)
    (paths : Shard.Nested s.shard.runs) (taken : s.step interval l = some s') : s'.Bounded := by
  unfold TimedShard.step at taken
  split at taken
  · rename_i advances asked
    cases advances with
    | true =>
      rw [← shard_advanceActorClock s interval l.now] at asked
      exact (bounded.toDeadlines.advanceActorClock interval l.now).asked asked taken
    | false => exact bounded.toDeadlines.asked asked taken
  · rename_i silent
    obtain ⟨shard, moved, rfl⟩ := Option.map_eq_some_iff.mp taken
    exact bounded.unasked paths silent moved

/-- A step of a timed shard is one of the shard in which `need_yield` returns what the clock
says. -/
theorem shard_step {interval : UInt32} {l : TimedLabel} (taken : s.step interval l = some s') :
    ∃ label, s.shard.step label = some s'.shard := by
  have followed (s : TimedShard) (shard : Shard) : (s.follow l.now shard).shard = shard := by
    unfold follow
    split
    · split
      · rfl
      · rfl
    · rfl
  have answered (t : TimedShard) (same : t.shard = s.shard)
      (taken : ((t.needYield l.needPreempt).2.shard.step
        (.advance (t.needYield l.needPreempt).1 0)).map
          ((t.needYield l.needPreempt).2.follow l.now) = some s') :
      ∃ label, s.shard.step label = some s'.shard := by
    obtain ⟨shard, moved, rfl⟩ := Option.map_eq_some_iff.mp taken
    rw [shard_needYield, same] at moved
    exact ⟨_, by rw [followed, moved]⟩
  unfold TimedShard.step at taken
  split at taken
  · rename_i advances asked
    cases advances with
    | true => exact answered _ (shard_advanceActorClock ..) taken
    | false => exact answered s rfl taken
  · obtain ⟨shard, moved, rfl⟩ := Option.map_eq_some_iff.mp taken
    exact ⟨l.label, by rw [followed, moved]⟩

theorem bounded_init (limitOf : ActorKey → Nat) (now : Int) : (init limitOf now).Bounded where
  length := rfl
  nested := List.Pairwise.nil
  start := nofun
  waiting := nofun
  fresh := nofun

/-- The shard of a timed run is in a state that it can reach, and its deadlines are bounded. -/
theorem bounded_of_run {interval : UInt32} {limitOf : ActorKey → Nat} {now : Int}
    {labels : List TimedLabel} (ran : run (step interval) (init limitOf now) labels = some s) :
    Reachable Shard.step (.init limitOf) s.shard ∧ s.Bounded := by
  refine run_invariant
    (fun s => Reachable Shard.step (.init limitOf) s.shard ∧ s.Bounded) ?_ labels _ s ?_ ran
  · rintro t l t' ⟨reachable, bounded⟩ taken
    obtain ⟨label, moved⟩ := shard_step taken
    have paths := (Shard.idleSettled_of_reachable reachable).nested
    exact ⟨reachable.step moved, bounded.step paths taken⟩
  · exact ⟨⟨[], rfl⟩, bounded_init limitOf now⟩

/-- In every run, a child runs inside the run of its group with a deadline that is at most that of
the group, and no deadline is later than the quota after the start of the outermost run. -/
theorem nested_deadlines (interval : UInt32) (limitOf : ActorKey → Nat) (now : Int)
    (labels : List TimedLabel) (s : TimedShard)
    (ran : run (step interval) (init limitOf now) labels = some s) :
    s.timers.length = s.shard.runs.length ∧
      (∀ i child group, s.shard.runs[i]? = some child → s.shard.runs[i + 1]? = some group →
        (∃ k, child.path = k :: group.path) ∧
        ∀ childTimer groupTimer, s.timers[i]? = some childTimer →
          s.timers[i + 1]? = some groupTimer → childTimer.stopTime ≤ groupTimer.stopTime) ∧
      ∀ timer ∈ s.timers, timer.stopTime ≤ s.startTime + defaultActorQuota * clockUnit := by
  obtain ⟨reachable, bounded⟩ := bounded_of_run ran
  refine ⟨?_, fun i child group isChild isGroup => ⟨?_, ?_⟩, fun timer member => ?_⟩
  · rw [← bounded.length, stopTimes, List.length_map]
  · exact (Shard.idleSettled_of_reachable reachable).nested.parent isChild isGroup
  · intro childTimer groupTimer isChildTimer isGroupTimer
    have child : s.stopTimes[i]? = some childTimer.stopTime := by
      rw [stopTimes, List.getElem?_map, isChildTimer]
      rfl
    have group : s.stopTimes[i + 1]? = some groupTimer.stopTime := by
      rw [stopTimes, List.getElem?_map, isGroupTimer]
      rfl
    obtain ⟨inside, childTime⟩ := List.getElem?_eq_some_iff.mp child
    obtain ⟨inside', groupTime⟩ := List.getElem?_eq_some_iff.mp group
    have ordered := List.pairwise_iff_getElem.mp bounded.nested i (i + 1) inside inside'
      (Nat.lt_succ_self i)
    rw [childTime, groupTime] at ordered
    exact ordered
  · exact bounded.start timer.stopTime (List.mem_map_of_mem member)

/-- A group runs two actors one after the other. The method of the first one takes 100.7
microseconds, and the second one gets the 399 whole microseconds that are left. -/
def twoChildren : List TimedLabel :=
  [⟨.receive [⟨0xF000, 1⟩, ⟨1, 1⟩] .user 0 0, 0, false⟩,
    ⟨.receive [⟨0xF000, 1⟩, ⟨1, 2⟩] .user 0 0, 0, false⟩, ⟨.dispatch 0, 0, false⟩,
    ⟨.advance false 0, 0, false⟩, ⟨.advance false 0, 0, false⟩, ⟨.advance false 0, 0, false⟩,
    ⟨.advance false 0, 0, false⟩, ⟨.workDone none .no, 0, false⟩,
    ⟨.advance false 0, 100700, false⟩, ⟨.advance false 0, 0, false⟩,
    ⟨.advance false 0, 0, false⟩, ⟨.advance false 0, 0, false⟩]

theorem nested_deadlines_twoChildren : ∃ s,
    run (step 1) (init (fun _ => 1) 0) twoChildren = some s ∧
      s.timers = [⟨399, 499700⟩, ⟨399, 500000⟩] ∧ (499700 : Int) ≤ 500000 := by
  refine ⟨_, rfl, rfl, ?_⟩
  exact ((nested_deadlines 1 (fun _ => 1) 0 twoChildren _ rfl).2.1 0 _ _ rfl rfl).2 _ _ rfl rfl

end TimedShard

end Hiactor
