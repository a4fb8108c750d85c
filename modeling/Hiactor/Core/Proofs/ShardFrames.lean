import Hiactor.Core.Proofs.ShardLog
import Hiactor.Core.Timer

/-!
# What a step does to the frames

A step leaves the runs that are under way alone, begins one, or moves the innermost one on or ends
it. Where `need_yield` is asked, its result decides between the last two.
-/

namespace Hiactor

open Lib

/-- The points in the run of a group. -/
def Pc.isGroup : Pc → Bool
  | .groupMail | .groupTasks | .groupChild => true
  | _ => false

namespace Shard

/-- The innermost run goes on at another point, or ends. -/
inductive PcMove (s : Shard) (path : Path) : Pc → Label → Option Pc → Prop
  | nextMail {i : Nat} (mail : s.hasMail path = true) :
      PcMove s path .groupMail (.advance false i) (some .groupMail)
  | yieldMail {i : Nat} (mail : s.hasMail path = true) :
      PcMove s path .groupMail (.advance true i) none
  | noMail {needYield : Bool} {i : Nat} (mail : s.hasMail path = false) :
      PcMove s path .groupMail (.advance needYield i) (some .groupTasks)
  | noTasks {needYield : Bool} {i : Nat} : PcMove s path .groupTasks (.advance needYield i) none
  | nextChild {i : Nat} : PcMove s path .groupChild (.advance false i) (some .groupTasks)
  | yieldChild {i : Nat} : PcMove s path .groupChild (.advance true i) none
  | actor {pc : Pc} {label : Label} (next : Option Pc) (kind : pc.isGroup = false)
      (stays : ∀ pc' ∈ next, pc'.isGroup = false) : PcMove s path pc label next

/-- What a step does to the frames. -/
inductive FramesMove (s : Shard) (label : Label) (s' : Shard) : Prop
  | same (runs : s'.runs = s.runs) (silent : s.asksYield label = none)
  | dispatched {k : ActorKey} {pc : Pc} (before : s.runs = []) (after : s'.runs = [⟨[k], pc⟩])
  | entered {k : ActorKey} {pc : Pc} {path : Path} {rest : List RunFrame} (idle : s.stops = [])
      (before : s.runs = ⟨path, .groupTasks⟩ :: rest)
      (after : s'.runs = ⟨k :: path, pc⟩ :: ⟨path, .groupChild⟩ :: rest)
  | moved {path : Path} {pc : Pc} {next : Option Pc} {rest : List RunFrame} (idle : s.stops = [])
      (before : s.runs = ⟨path, pc⟩ :: rest) (move : PcMove s path pc label next)
      (after : s'.runs = next.toList.map (RunFrame.mk path) ++ rest)

variable {s s' t : Shard} {p : Path} {k : ActorKey}

/-! ## Ends of runs -/

theorem runs_finishGroup (finished : t.finishGroup p k = some s') : s'.runs = t.runs.tail :=
  congrArg Prod.fst (control_finishGroup finished)

theorem runs_finishActor (finished : t.finishActor p k = some s') : s'.runs = t.runs.tail :=
  congrArg Prod.fst (control_finishActor finished)

theorem runs_of_control (same : s'.control = s.control) : s'.runs = s.runs :=
  congrArg Prod.fst same

theorem runs_setPc {frame : RunFrame} {rest : List RunFrame} (runs : s.runs = frame :: rest)
    (pc : Pc) : (s.setPc pc).runs = ⟨frame.path, pc⟩ :: rest := by
  simp [setPc, runs]

/-! ## Rounds of the loops -/

variable {pc : Pc} {rest : List RunFrame}

theorem moved_groupMail {needYield : Bool} {i : Nat} (idle : s.stops = [])
    (runs : s.runs = ⟨k :: p, .groupMail⟩ :: rest)
    (handled : s.groupMail p k needYield = some s') :
    FramesMove s (.advance needYield i) s' := by
  cases handlesGroupMail handled with
  | none sched stop g found =>
    refine .moved idle runs (.noMail ?_) (runs_setPc runs _)
    simp [hasMail, found]
  | yields sched stop m mailbox g found isStop finished =>
    have mail : s.hasMail (k :: p) = true := by simp [hasMail, found]
    refine .moved idle runs (.yieldMail mail) ?_
    rw [runs_finishGroup finished, runs_of_control (control_obeyStop k m mailbox)]
    exact congrArg List.tail runs
  | goesOn sched stop m mailbox g found isStop =>
    have mail : s.hasMail (k :: p) = true := by simp [hasMail, found]
    refine .moved idle runs (.nextMail mail) ?_
    exact (runs_of_control (control_obeyStop k m mailbox)).trans runs

theorem moved_groupTasks {needYield : Bool} {i : Nat} (idle : s.stops = [])
    (runs : s.runs = ⟨k :: p, .groupTasks⟩ :: rest) (ran : s.groupTasks p k i = some s') :
    FramesMove s (.advance needYield i) s' := by
  cases runsGroupTasks ran with
  | none sched stop mailbox g found none finished =>
    refine .moved idle runs .noTasks ?_
    rw [runs_finishGroup finished, runs, List.tail_cons]
    rfl
  | enters sched stop mailbox g found waiting entered =>
    obtain ⟨child, pc, entered⟩ := runs_enterChild entered
    rw [runs_setPc runs] at entered
    exact .entered idle runs entered

/-- The run of an actor goes on. -/
theorem moved_actor {label : Label} (pc' : Pc) (idle : s.stops = [])
    (runs : s.runs = ⟨k :: p, pc⟩ :: rest) (kind : pc.isGroup = false) (kind' : pc'.isGroup = false)
    (after : s'.runs = ⟨k :: p, pc'⟩ :: rest) : FramesMove s label s' :=
  .moved idle runs (.actor (some pc') kind (by simpa using kind')) after

/-- The run of an actor ends. -/
theorem left_actor {label : Label} (idle : s.stops = []) (runs : s.runs = ⟨k :: p, pc⟩ :: rest)
    (kind : pc.isGroup = false) (after : s'.runs = s.runs.tail) : FramesMove s label s' := by
  refine .moved idle runs (.actor none kind (by simp)) ?_
  rw [after, runs, List.tail_cons]
  rfl

theorem moved_actorTasks {label : Label} (idle : s.stops = [])
    (runs : s.runs = ⟨k :: p, .tasks⟩ :: rest) (ran : s.actorTasks p k = some s') :
    FramesMove s label s' := by
  cases runsActorTasks ran with
  | next sched stop mailbox a found task tasks front =>
    refine moved_actor .inTask idle runs rfl rfl ?_
    rw [runs_of_control (control_runTask task)]
    exact runs_setPc (s := s.update (k :: p) _) runs .inTask
  | full sched stop mailbox a found none full => exact left_actor idle runs rfl rfl
  | opens sched stop mailbox a found none free =>
    exact moved_actor .mail idle runs rfl rfl (runs_setPc runs .mail)

theorem moved_actorMail {label : Label} (idle : s.stops = [])
    (runs : s.runs = ⟨k :: p, .mail⟩ :: rest) (handled : s.actorMail p k = some s') :
    FramesMove s label s' := by
  have taken (mailbox : List ActorMessage) (pc : Pc) :
      ((s.update (k :: p) (·.setMailbox mailbox)).setPc pc).runs = ⟨k :: p, pc⟩ :: rest :=
    runs_setPc (s := s.update (k :: p) _) runs pc
  cases handlesActorMail handled with
  | none sched stop a found finished => exact left_actor idle runs rfl (runs_finishActor finished)
  | starts sched stop m mailbox a found user =>
    exact moved_actor (.inWork m) idle runs rfl rfl (taken mailbox (.inWork m))
  | stops sched stop m mailbox a found force asked =>
    refine moved_actor .worked idle runs rfl rfl ?_
    exact (runs_of_control (by simp)).trans (taken mailbox .worked)

theorem moved_workDone {label : Label} {m : ActorMessage} {reply : Option Bool} {state : WorkState}
    (idle : s.stops = []) (runs : s.runs = ⟨k :: p, .inWork m⟩ :: rest)
    (done : s.workDone p k m reply state = some s') : FramesMove s label s' := by
  have ended : (s.worked (k :: p) m reply).runs = ⟨k :: p, .worked⟩ :: rest := by
    cases reply with
    | none => exact runs_setPc runs .worked
    | some failed => exact runs_setPc runs .worked
  refine moved_actor .worked idle runs rfl rfl ?_
  rw [workDone_eq done]
  split
  · exact (runs_of_control (control_stopChildActor k true)).trans ended
  · exact ended

theorem moved_workPending {label : Label} {m : ActorMessage} (idle : s.stops = [])
    (runs : s.runs = ⟨k :: p, .inWork m⟩ :: rest) (pending : s.workPending p k m = some s') :
    FramesMove s label s' := by
  obtain ⟨sched, stop, mailbox, a, found, ⟨full, pending⟩ | ⟨free, rfl⟩⟩ :=
    workPending_cases pending
  · have left := runs_finishActor pending
    exact left_actor idle runs rfl left
  · exact moved_actor .worked idle runs rfl rfl (runs_setPc (s := s.update (k :: p) _) runs .worked)

/-! ## Steps -/

theorem moved_runStep {frame : RunFrame} {label : Label} (idle : s.stops = [])
    (runs : s.runs = frame :: rest) (taken : s.runStep frame label = some s') :
    FramesMove s label s' := by
  cases takesRunStep taken with
  | groupMail p k needYield i handled => exact moved_groupMail idle runs handled
  | groupTasks p k needYield i ran => exact moved_groupTasks idle runs ran
  | groupYields p k i finished =>
    refine .moved idle runs .yieldChild ?_
    rw [runs_finishGroup finished, runs, List.tail_cons]
    rfl
  | groupGoesOn p k i => exact .moved idle runs .nextChild (runs_setPc runs _)
  | actorTasks p k needYield i ran => exact moved_actorTasks idle runs ran
  | taskGoesOn p k i => exact moved_actor .tasks idle runs rfl rfl (runs_setPc runs .tasks)
  | actorMail p k needYield i handled => exact moved_actorMail idle runs handled
  | workDone p k m reply state done => exact moved_workDone idle runs done
  | workPending p k m pending => exact moved_workPending idle runs pending
  | workGoesOn p k i => exact moved_actor .mail idle runs rfl rfl (runs_setPc runs .mail)
  | taskYields p k i finished | workYields p k i finished =>
    exact left_actor idle runs rfl (runs_finishActor finished)

theorem runs_userStep {label : Label} (taken : s.userStep label = some s') :
    s'.runs = s.runs := by
  cases label with
  | receive addr type srcShardId prId =>
    obtain ⟨s₁, received, rfl⟩ := Option.map_eq_some_iff.mp taken
    show s₁.runs = s.runs
    exact (control_receive received).1
  | addTask p urgent =>
    obtain ⟨-, rfl⟩ := addTask_cases taken
    exact runs_of_control (control_addTask ..)
  | complete p i reply state =>
    cases completes taken with
    | lands sched stop mailbox a found m flying => exact runs_of_control (control_addTask ..)
  | setMaxConcurrency p concurrency =>
    obtain rfl := Option.some.inj taken
    rfl
  | dispatch | advance | workDone | workPending | stopNext => cases taken

theorem runs_stopStep {frame : StopFrame} {rest : List StopFrame} {label : Label}
    (taken : s.stopStep frame rest label = some s') : s'.runs = s.runs := by
  cases takesStopStep taken with
  | cleanNext p k running needYield i cleaned =>
    cases cleansNext cleaned with
    | next sched stop mailbox a found task tasks front =>
      exact congrArg Prod.fst (control_runTask task)
    | ends sched stop mailbox a found none =>
      exact congrArg Prod.fst (control_activateIdle (s := { s with stops := rest }))
  | stopNext force m k entry => exact runs_of_control (control_stopChildActor ..)
  | stopSystemEnd force needYield m i ended =>
    cases endsSystem ended with
    | ends sched stop mailbox g root closed =>
      split
      · rfl
      · rfl

/-- Every step moves the frames in one of the four ways. -/
theorem framesMove_step {label : Label} (taken : s.step label = some s') :
    FramesMove s label s' := by
  cases takesStep taken with
  | user isUser point acted =>
    refine .same (runs_userStep acted) ?_
    cases label with
    | advance needYield i => cases isUser
    | _ => rfl
  | stop frame rest isUser busy went =>
    refine .same (runs_stopStep went) ?_
    cases label with
    | advance needYield i => simp [asksYield, busy]
    | _ => rfl
  | run frame rest isUser idle runs went => exact moved_runStep idle runs went
  | dispatch i idle runs entered =>
    obtain ⟨k, pc, entered⟩ := runs_enterChild entered
    rw [runs] at entered
    exact .dispatched runs entered

end Shard

end Hiactor
