import Hiactor.Core.Proofs.ShardFrames
import Hiactor.Core.Proofs.Stopping
import Hiactor.Core.Proofs.Wakeups

/-!
# Reentrancy

`run_and_dispose` compares the number of methods in flight with the limit by `==`, before the
mailbox loop and after a method that goes in flight. This keeps the number below the limit as long
as the limit is not set to less than what is in flight already.
-/

namespace Hiactor

open Lib

/-- The points in the mailbox loop of an actor, where the limit is not tested again before the
next message. -/
def Pc.inMailLoop : Pc → Bool
  | .mail | .inWork _ | .worked => true
  | _ => false

/-- A continuation that the future of `do_work` waits for. -/
def Task.isReply : Task → Bool
  | .reply _ _ => true
  | _ => false

/-- The messages of an actor whose future of `do_work` is pending: the method has not completed,
or the continuation that answers has not run. -/
def ActorBody.pendingMethods (a : ActorBody) : Nat :=
  a.inFlight.length + a.taskQueue.countP Task.isReply

theorem ActorBody.Balanced.pendingMethods_le {a : ActorBody} (balanced : a.Balanced) :
    a.pendingMethods ≤ a.curConcurrency := by
  have fewer : a.taskQueue.countP Task.isReply ≤ a.taskQueue.countP Task.waits := by
    refine List.countP_mono_left fun task _ isReply => ?_
    cases task with
    | reply msg failed => rfl
    | _ => cases isReply
  rw [balanced, pendingMethods]
  exact Nat.add_le_add_left fewer _

namespace Shard

/-- The actor at `q` is in its mailbox loop. -/
def inMailLoop (s : Shard) (q : Path) : Bool :=
  s.runs.any fun frame => frame.path == q && frame.pc.inMailLoop

/-- An actor sets its limit to at least the number of its methods that have not completed; when it
goes on in its mailbox loop, to more than the number that is compared with the limit there. -/
def KeepsRoom (s : Shard) : Label → Prop
  | .setMaxConcurrency p concurrency =>
    match s.objs p with
    | some ⟨_, _, _, .actor a⟩ =>
      let limit := if concurrency > 0 then concurrency else 1
      if s.inMailLoop p then a.curConcurrency < limit else a.inFlight.length ≤ limit
    | _ => True
  | _ => True

theorem keepsRoom_iff {s : Shard} {p : Path} {concurrency : Nat} {sched : SchedStatus}
    {stop : ActorStatus}
    {mailbox : List ActorMessage} {a : ActorBody}
    (found : s.objs p = some ⟨sched, stop, mailbox, .actor a⟩) :
    s.KeepsRoom (.setMaxConcurrency p concurrency) ↔
      if s.inMailLoop p then a.curConcurrency < (if concurrency > 0 then concurrency else 1)
      else a.inFlight.length ≤ if concurrency > 0 then concurrency else 1 := by
  simp only [KeepsRoom, found]

theorem keepsRoom_of_not_actor {s : Shard} {p : Path} {concurrency : Nat}
    (other : ∀ o, s.objs p = some o → o.isGroup = true) :
    s.KeepsRoom (.setMaxConcurrency p concurrency) := by
  simp only [KeepsRoom]
  split
  · rename_i found
    cases other _ found
  · trivial

instance (s : Shard) : (label : Label) → Decidable (s.KeepsRoom label)
  | .setMaxConcurrency p concurrency =>
    match found : s.objs p with
    | some ⟨_, _, _, .actor _⟩ => decidable_of_iff' _ (keepsRoom_iff found)
    | some ⟨_, _, _, .group _⟩ => isTrue (keepsRoom_of_not_actor fun o stored => by
      rw [← Option.some.inj (found.symm.trans stored)]
      rfl)
    | none => isTrue (keepsRoom_of_not_actor fun o stored => by cases found.symm.trans stored)
  | .receive .. | .addTask .. | .complete .. | .dispatch _ | .advance .. | .workDone ..
  | .workPending | .stopNext _ => isTrue trivial

/-- No actor has more methods in flight than its limit allows, and one in its mailbox loop may
take another message. -/
structure Fits (s : Shard) : Prop where
  limit : ∀ {q o}, s.objs q = some o → o.numInFlight ≤ o.maxConcurrency
  room : ∀ {q o}, s.objs q = some o → s.inMailLoop q = true → o.curConcurrency < o.maxConcurrency

variable {s s' t : Shard} {p q : Path} {k : ActorKey} {o : ActorObject} {pc : Pc}
  {rest : List RunFrame}

/-! ## Changes that leave room -/

/-- No actor gets more methods in flight or another limit. -/
def Eases (s s' : Shard) : Prop :=
  ∀ q o', s'.objs q = some o' →
    (∃ o, s.objs q = some o ∧ o'.curConcurrency ≤ o.curConcurrency ∧
      o'.numInFlight ≤ o.numInFlight ∧ o'.maxConcurrency = o.maxConcurrency) ∨
    (o'.curConcurrency = 0 ∧ o'.numInFlight = 0 ∧ 0 < o'.maxConcurrency)

namespace Eases

theorem of_objs (same : s'.objs = s.objs) : Eases s s' := by
  intro q o' found
  exact .inl ⟨o', same ▸ found, le_rfl, le_rfl, rfl⟩

theorem trans {s'' : Shard} (first : Eases s s') (second : Eases s' s'') : Eases s s'' := by
  intro q o'' found
  rcases second q o'' found with ⟨o', found', lower, fewer, same⟩ | fresh
  · rcases first q o' found' with ⟨o, before, lower', fewer', same'⟩ | ⟨idle, none, limit⟩
    · exact .inl ⟨o, before, lower.trans lower', fewer.trans fewer', same.trans same'⟩
    · exact .inr ⟨Nat.le_zero.mp (idle ▸ lower), Nat.le_zero.mp (none ▸ fewer), same ▸ limit⟩
  · exact .inr fresh

theorem update {f : ActorObject → ActorObject}
    (flying : ∀ o, (f o).curConcurrency ≤ o.curConcurrency)
    (fewer : ∀ o, (f o).numInFlight ≤ o.numInFlight)
    (limit : ∀ o, (f o).maxConcurrency = o.maxConcurrency) : Eases s (s.update p f) := by
  intro q o' found
  rw [objs_update] at found
  split at found
  · obtain ⟨o, before, rfl⟩ := Option.map_eq_some_iff.mp found
    exact .inl ⟨o, before, flying o, fewer o, limit o⟩
  · exact .inl ⟨o', found, le_rfl, le_rfl, rfl⟩

theorem keeps {f : ActorObject → ActorObject} (keeps : ∀ o, Keeps o (f o)) :
    Eases s (s.update p f) :=
  .update (fun o => (keeps o).flying.le) (fun o => (keeps o).fewer) (fun o => (keeps o).limit)

theorem touches (touches : Touches s s') : Eases s s' := by
  intro q o' found
  have grown := touches.grown q
  rw [found] at grown
  generalize before : s.objs q = old at grown
  cases grown with
  | created idle none limit => exact .inr ⟨idle, none, limit⟩
  | kept keeps => exact .inl ⟨_, rfl, keeps.flying.le, keeps.fewer, keeps.limit⟩

theorem runTask (task : Task) : Eases s (s.runTask p task) := by
  refine .trans ?_ (.touches (touches_runTask task))
  cases task with
  | user | reply => exact .of_objs rfl
  | post msg state =>
    refine .update (fun o => ?_) (fun o => ?_) (fun o => ?_)
    · cases o with
      | mk sched stop mailbox body =>
        cases body with
        | group g => exact le_rfl
        | actor a => exact Nat.sub_le ..
    · cases o with
      | mk sched stop mailbox body => cases body <;> exact le_rfl
    · cases o with
      | mk sched stop mailbox body => cases body <;> rfl

theorem destroy : Eases s (s.destroy p) := by
  intro q o' found
  have found' : Function.update s.objs p none q = some o' := found
  rw [Function.update_apply] at found'
  split at found'
  · cases found'
  · exact .inl ⟨o', found', le_rfl, le_rfl, rfl⟩

theorem notifyChildStopped : Eases s (s.notifyChildStopped p) := by
  have counted : Eases s (s.update p (·.mapGroup .drop)) :=
    .keeps fun o => .mapGroup o _
  unfold Shard.notifyChildStopped
  simp only
  split
  · exact counted.trans (.of_objs rfl)
  · exact counted

theorem sleep (awake : Prop) [Decidable awake] :
    Eases s (if awake then (s.leave.update p (·.setSched .schedulable)).activate p
      else s.leave.update p (·.setSched .schedulable)) := by
  have left : Eases s s.leave := .of_objs rfl
  have asleep : Eases s (s.leave.update p (·.setSched .schedulable)) :=
    left.trans (.keeps fun o => .setSched o _)
  split
  · exact asleep.trans (.touches .activate)
  · exact asleep

theorem finishGroup (finished : s.finishGroup p k = some s') : Eases s s' := by
  have left : Eases s s.leave := .of_objs rfl
  have notified := left.trans (notifyChildStopped (p := p))
  cases finishesGroup finished with
  | ends sched stop mailbox g found ends =>
    split
    · exact (notified.trans (.touches (.emit _))).trans .destroy
    · exact notified.trans .destroy
  | stays sched stop mailbox g found lives =>
    exact .sleep _

theorem finishActor (finished : s.finishActor p k = some s') : Eases s s' := by
  have left : Eases s s.leave := .of_objs rfl
  cases finishesActor finished with
  | ends sched stop mailbox a found ends =>
    exact (left.trans (notifyChildStopped (p := p))).trans .destroy
  | stays sched stop mailbox a found lives =>
    exact .sleep _

theorem cleanNext {others : List StopFrame} (cleaned : s.cleanNext p k others = some s') :
    Eases s s' := by
  cases cleansNext cleaned with
  | next sched stop mailbox a found task tasks _ =>
    have read : Eases s (s.update (k :: p) (·.setTasks fun _ => tasks)) :=
      .keeps fun o => .setTasks o _
    exact (read.trans (.of_objs rfl)).trans (.runTask task)
  | ends sched stop mailbox a found none =>
    have popped : Eases s { s with stops := others } := .of_objs rfl
    exact popped.trans (.touches (.trans .activateIdle .disable))

end Eases

/-! ## Frames -/

theorem inMailLoop_cons (runs : s.runs = ⟨p, pc⟩ :: rest) :
    s.inMailLoop q = (p == q && pc.inMailLoop ||
      rest.any fun frame => frame.path == q && frame.pc.inMailLoop) := by
  rw [inMailLoop, runs, List.any_cons]

theorem inMailLoop_of_runs (same : s'.runs = s.runs) : s'.inMailLoop q = s.inMailLoop q := by
  rw [inMailLoop, same, inMailLoop]

/-- The innermost run returns. -/
theorem inMailLoop_of_tail (left : s'.runs = s.runs.tail) (loops : s'.inMailLoop q = true) :
    s.inMailLoop q = true := by
  unfold inMailLoop at *
  rw [left] at loops
  obtain ⟨frame, member, here⟩ := List.any_eq_true.mp loops
  exact List.any_eq_true.mpr ⟨frame, List.mem_of_mem_tail member, here⟩

/-- The innermost run goes on, and does not enter the mailbox loop. -/
theorem inMailLoop_of_setPc {pc' : Pc} (runs : s.runs = ⟨p, pc⟩ :: rest)
    (stays : pc'.inMailLoop = true → pc.inMailLoop = true)
    (loops : (s.setPc pc').inMailLoop q = true) : s.inMailLoop q = true := by
  rw [inMailLoop_cons (runs_setPc runs pc')] at loops
  rw [inMailLoop_cons runs]
  cases entered : pc'.inMailLoop with
  | true =>
    rw [entered] at loops
    rw [stays entered]
    exact loops
  | false =>
    rw [entered, Bool.and_false, Bool.false_or] at loops
    rw [loops, Bool.or_true]

theorem inMailLoop_of_enterChild {i : Nat} (entered : s.enterChild p i = some s')
    (loops : s'.inMailLoop q = true) : s.inMailLoop q = true := by
  obtain ⟨k, pc, runs, outside⟩ : ∃ k pc, s'.runs = ⟨k :: p, pc⟩ :: s.runs ∧
      pc.inMailLoop = false := by
    cases entersChild entered with
    | enters sched stop mailbox g k o found listed child =>
      refine ⟨k, if o.isGroup then .groupMail else .tasks, rfl, ?_⟩
      split
      · rfl
      · rfl
  rw [inMailLoop_cons runs, outside, Bool.and_false, Bool.false_or] at loops
  exact loops

theorem Eases.enterChild {i : Nat} (entered : s.enterChild p i = some s') : Eases s s' := by
  cases entersChild entered with
  | enters sched stop mailbox g k o found listed child =>
    have taken : Eases s (s.update p (·.setActors (·.eraseIdx i))) :=
      .keeps fun o => .mapGroup o _
    split
    · exact (taken.trans (.touches (.single (.cancel _)))).trans (.of_objs rfl)
    · exact taken.trans (.of_objs rfl)

/-! ## Steps -/

namespace Fits

theorem after (limit : ∀ q o, t.objs q = some o → o.numInFlight ≤ o.maxConcurrency)
    (room : ∀ q o, t.objs q = some o → s'.inMailLoop q = true →
      o.curConcurrency < o.maxConcurrency) (eases : Eases t s') : s'.Fits := by
  constructor
  · intro q o' found
    rcases eases q o' found with ⟨o, before, -, fewer, same⟩ | ⟨-, none, -⟩
    · exact same ▸ fewer.trans (limit q o before)
    · exact none ▸ Nat.zero_le _
  · intro q o' found loops
    rcases eases q o' found with ⟨o, before, lower, -, same⟩ | ⟨idle, -, positive⟩
    · exact same ▸ lower.trans_lt (room q o before loops)
    · exact idle ▸ positive

theorem eases (fits : s.Fits) (eases : Eases s s')
    (loops : ∀ q, s'.inMailLoop q = true → s.inMailLoop q = true) : s'.Fits :=
  .after (fun _ _ => fits.limit) (fun q _ found inLoop => fits.room found (loops q inLoop)) eases

/-- The frames stay as they are. -/
theorem stays (fits : s.Fits) (eases : Eases s s') (same : s'.runs = s.runs) : s'.Fits :=
  fits.eases eases fun _ loops => (inMailLoop_of_runs same).symm.trans loops

theorem touches (fits : s.Fits) (touches : Touches s s') : s'.Fits :=
  fits.stays (.touches touches) touches.runs

theorem setPc (fits : s.Fits) (pc' : Pc) (runs : s.runs = ⟨p, pc⟩ :: rest)
    (stays : pc'.inMailLoop = true → pc.inMailLoop = true) : (s.setPc pc').Fits :=
  fits.eases (.of_objs rfl) fun _ => inMailLoop_of_setPc runs stays

theorem finishGroup (fits : s.Fits) (finished : s.finishGroup p k = some s') : s'.Fits :=
  fits.eases (.finishGroup finished) fun _ => inMailLoop_of_tail (runs_finishGroup finished)

theorem finishActor (fits : s.Fits) (finished : s.finishActor p k = some s') : s'.Fits :=
  fits.eases (.finishActor finished) fun _ => inMailLoop_of_tail (runs_finishActor finished)

theorem obeyStop (fits : s.Fits) (m : ActorMessage) (mailbox : List ActorMessage) :
    (s.obeyStop p k m mailbox).Fits := by
  let s₁ := s.update (k :: p) (·.setMailbox mailbox)
  let s₂ := s₁.stopChildActor p k (m.type == .forceStop)
  have taken : Eases s s₁ := .update (fun _ => le_rfl) (fun _ => le_rfl) (fun _ => rfl)
  have stopped : Touches s₁ s₂ := .stopChildActor _
  have requested : Eases s₂ (s.obeyStop p k m mailbox) :=
    .trans (.keeps fun o => .mapGroup o _) (.of_objs rfl)
  exact fits.stays (taken.trans (.trans (.touches stopped) requested)) stopped.runs

theorem groupMail {needYield : Bool} (fits : s.Fits) (runs : s.runs = ⟨k :: p, .groupMail⟩ :: rest)
    (handled : s.groupMail p k needYield = some s') : s'.Fits := by
  cases handlesGroupMail handled with
  | none sched stop g found => exact fits.setPc _ runs nofun
  | yields sched stop m mailbox g found isStop finished =>
    exact (fits.obeyStop m mailbox).finishGroup finished
  | goesOn sched stop m mailbox g found isStop => exact fits.obeyStop m mailbox

theorem enterChild {i : Nat} (fits : s.Fits) (entered : s.enterChild p i = some s') : s'.Fits :=
  fits.eases (.enterChild entered) fun _ => inMailLoop_of_enterChild entered

theorem groupTasks {i : Nat} (fits : s.Fits) (runs : s.runs = ⟨k :: p, .groupTasks⟩ :: rest)
    (ran : s.groupTasks p k i = some s') : s'.Fits := by
  cases runsGroupTasks ran with
  | none sched stop mailbox g found none finished => exact fits.finishGroup finished
  | enters sched stop mailbox g found waiting entered =>
    exact (fits.setPc .groupChild runs (by simp [Pc.inMailLoop])).enterChild entered

/-- Before the mailbox loop the limit is tested, when all continuations have run. -/
theorem actorTasks (fits : s.Fits) (counted : AllCounted s)
    (runs : s.runs = ⟨k :: p, .tasks⟩ :: rest) (ran : s.actorTasks p k = some s') : s'.Fits := by
  cases runsActorTasks ran with
  | next sched stop mailbox a found task tasks front =>
    have taken : (s.update (k :: p) (·.setTasks fun _ => tasks)).Fits :=
      fits.stays (.keeps fun o => .setTasks o _) rfl
    have moved := taken.setPc .inTask runs (by simp [Pc.inMailLoop])
    exact moved.stays (.runTask task) (runs_of_control (control_runTask task))
  | full sched stop mailbox a found none full =>
    have asleep : Eases s (s.update (k :: p) (·.setSched .schedulable)) :=
      .keeps fun o => .setSched o _
    exact fits.eases (asleep.trans (.of_objs rfl)) fun _ => inMailLoop_of_tail rfl
  | opens sched stop mailbox a found none free =>
    refine .after (t := s) (fun _ _ => fits.limit) (fun q o stored loops => ?_) (.of_objs rfl)
    rw [inMailLoop_cons (runs_setPc runs .mail)] at loops
    by_cases here : k :: p = q
    · subst here
      obtain rfl := Option.some.inj (found.symm.trans stored)
      have flying : a.curConcurrency = a.inFlight.length := by
        rw [counted.balanced found, none, List.countP_nil, Nat.add_zero]
      have limit : a.inFlight.length ≤ a.maxConcurrency := fits.limit found
      exact lt_of_le_of_ne (flying.trans_le limit) free
    · refine fits.room stored ?_
      rw [inMailLoop_cons runs]
      simpa [here] using loops

theorem actorMail (fits : s.Fits) (runs : s.runs = ⟨k :: p, .mail⟩ :: rest)
    (handled : s.actorMail p k = some s') : s'.Fits := by
  have taken (mailbox : List ActorMessage) (pc' : Pc) :
      ((s.update (k :: p) (·.setMailbox mailbox)).setPc pc').Fits := by
    have read : (s.update (k :: p) (·.setMailbox mailbox)).Fits :=
      fits.stays (.update (fun _ => le_rfl) (fun _ => le_rfl) (fun _ => rfl)) rfl
    exact read.setPc _ runs fun _ => rfl
  cases handlesActorMail handled with
  | none sched stop a found finished => exact fits.finishActor finished
  | starts sched stop m mailbox a found user =>
    exact (taken mailbox (.inWork m)).stays (.of_objs rfl) rfl
  | stops sched stop m mailbox a found force asked =>
    exact (taken mailbox .worked).touches (.trans (.stopChildActor force) (.reclaim m))

theorem workDone {m : ActorMessage} {reply : Option Bool} {state : WorkState} (fits : s.Fits)
    (runs : s.runs = ⟨k :: p, .inWork m⟩ :: rest)
    (done : s.workDone p k m reply state = some s') : s'.Fits := by
  have ended : (s.worked (k :: p) m reply).Fits := by
    cases reply with
    | none => exact (fits.setPc .worked runs fun _ => rfl).stays (.of_objs rfl) rfl
    | some failed =>
      have sent : (s.emit (.sent (k :: p) (m.reply failed))).Fits := fits.stays (.of_objs rfl) rfl
      exact (sent.setPc .worked runs fun _ => rfl).stays (.of_objs rfl) rfl
  rw [workDone_eq done]
  split
  · exact ended.touches (.stopChildActor true)
  · exact ended

/-- An actor in its mailbox loop has room for one more method. When none is left it leaves. -/
theorem workPending {m : ActorMessage} (fits : s.Fits) (counted : AllCounted s)
    (nested : Nested s.runs) (runs : s.runs = ⟨k :: p, .inWork m⟩ :: rest)
    (pending : s.workPending p k m = some s') : s'.Fits := by
  let s₁ := s.update (k :: p) (·.mapActor fun a => { a with
    curConcurrency := a.curConcurrency + 1, inFlight := a.inFlight ++ [m] })
  obtain ⟨sched, stop, mailbox, a, found, ends⟩ := workPending_cases pending
  have room : a.curConcurrency < a.maxConcurrency := by
    refine fits.room found ?_
    rw [inMailLoop_cons runs]
    simp [Pc.inMailLoop]
  have here : s₁.objs (k :: p) = some ⟨sched, stop, mailbox, .actor { a with
      curConcurrency := a.curConcurrency + 1, inFlight := a.inFlight ++ [m] }⟩ := by
    rw [objs_update_self, found]
    rfl
  have limit (q : Path) (o : ActorObject) (stored : s₁.objs q = some o) :
      o.numInFlight ≤ o.maxConcurrency := by
    by_cases same : q = k :: p
    · subst same
      obtain rfl := Option.some.inj (here.symm.trans stored)
      have fewer : a.inFlight.length ≤ a.curConcurrency := by
        rw [counted.balanced found]
        exact Nat.le_add_right ..
      show (a.inFlight ++ [m]).length ≤ a.maxConcurrency
      rw [List.length_append, List.length_singleton]
      exact (Nat.succ_le_succ fewer).trans room
    · rw [objs_update_ne _ _ _ same] at stored
      exact fits.limit stored
  rcases ends with ⟨full, pending⟩ | ⟨notFull, rfl⟩
  · refine .after limit (fun q o stored loops => ?_) (.finishActor pending)
    have left : s'.runs = rest := by
      rw [runs_finishActor pending]
      exact congrArg List.tail runs
    have other : q ≠ k :: p := by
      rintro rfl
      rw [inMailLoop, left] at loops
      obtain ⟨frame, member, same⟩ := List.any_eq_true.mp loops
      rw [Bool.and_eq_true, beq_iff_eq] at same
      have fresh := notMem_of_runs nested runs
      exact fresh ⟨frame, member, same.1⟩
    rw [objs_update_ne _ _ _ other] at stored
    exact fits.room stored (inMailLoop_of_tail (s := s₁) (runs_finishActor pending) loops)
  · refine .after limit (fun q o stored loops => ?_) (.of_objs rfl)
    have before : s.inMailLoop q = true :=
      inMailLoop_of_setPc (s := s₁) runs (fun _ => rfl) loops
    by_cases same : q = k :: p
    · subst same
      obtain rfl := Option.some.inj (here.symm.trans stored)
      exact lt_of_le_of_ne room notFull
    · rw [objs_update_ne _ _ _ same] at stored
      exact fits.room stored before

theorem runStep {frame : RunFrame} {label : Label} (fits : s.Fits) (counted : AllCounted s)
    (nested : Nested s.runs) (runs : s.runs = frame :: rest)
    (taken : s.runStep frame label = some s') : s'.Fits := by
  cases takesRunStep taken with
  | groupMail p k needYield i handled => exact fits.groupMail runs handled
  | groupTasks p k needYield i ran => exact fits.groupTasks runs ran
  | groupYields p k i finished => exact fits.finishGroup finished
  | groupGoesOn p k i => exact fits.setPc _ runs nofun
  | actorTasks p k needYield i ran => exact fits.actorTasks counted runs ran
  | taskYields p k i finished => exact fits.finishActor finished
  | taskGoesOn p k i => exact fits.setPc _ runs nofun
  | actorMail p k needYield i handled => exact fits.actorMail runs handled
  | workDone p k m reply state done => exact fits.workDone runs done
  | workPending p k m pending => exact fits.workPending counted nested runs pending
  | workYields p k i finished => exact fits.finishActor finished
  | workGoesOn p k i => exact fits.setPc _ runs fun _ => rfl

theorem stopStep {frame : StopFrame} {others : List StopFrame} {label : Label} (fits : s.Fits)
    (top : s.stops = frame :: others) (taken : s.stopStep frame others label = some s') :
    s'.Fits := by
  have same := runs_stopStep taken
  cases takesStopStep taken with
  | cleanNext p k running needYield i cleaned => exact fits.stays (.cleanNext cleaned) same
  | stopNext force m k entry => exact fits.touches (.stopChildActor _)
  | stopSystemEnd force needYield m i ended => exact fits.touches (touches_stopSystemEnd top ended)

theorem userStep {label : Label} (fits : s.Fits) (counted : AllCounted s)
    (room : s.KeepsRoom label) (taken : s.userStep label = some s') : s'.Fits := by
  cases label with
  | setMaxConcurrency p concurrency =>
    obtain rfl := Option.some.inj taken
    have kept {q : Path} {o : ActorObject} (stored : (s.update p (·.mapActor fun a => { a with
        maxConcurrency := if concurrency > 0 then concurrency else 1 })).objs q = some o) :
        (s.objs q = some o) ∨ ∃ sched stop mailbox a, q = p ∧
          s.objs p = some ⟨sched, stop, mailbox, .actor a⟩ ∧
          o.curConcurrency = a.curConcurrency ∧ o.numInFlight = a.inFlight.length ∧
          o.maxConcurrency = if concurrency > 0 then concurrency else 1 := by
      rw [objs_update] at stored
      split at stored
      · rename_i here
        subst here
        obtain ⟨old, found, rfl⟩ := Option.map_eq_some_iff.mp stored
        cases old with
        | mk sched stop mailbox body =>
          cases body with
          | group g => exact .inl found
          | actor a => exact .inr ⟨sched, stop, mailbox, a, rfl, found, rfl, rfl, rfl⟩
      · exact .inl stored
    constructor
    · intro q o stored
      rcases kept stored with before | ⟨sched, stop, mailbox, a, rfl, found, -, inFlight, limit⟩
      · exact fits.limit before
      · have fewer : a.inFlight.length ≤ a.curConcurrency := by
          rw [counted.balanced found]
          exact Nat.le_add_right ..
        simp only [KeepsRoom, found] at room
        rw [inFlight, limit]
        split at room
        · exact fewer.trans room.le
        · exact room
    · intro q o stored loops
      have loops' : s.inMailLoop q = true := loops
      rcases kept stored with before | ⟨sched, stop, mailbox, a, rfl, found, flying, -, limit⟩
      · exact fits.room before loops'
      · simp only [KeepsRoom, found, loops', if_true] at room
        rw [flying, limit]
        exact room
  | _ => exact fits.touches (touches_userStep counted.1 (by simp) taken)

theorem step {label : Label} (fits : s.Fits) (counted : AllCounted s) (nested : Nested s.runs)
    (room : s.KeepsRoom label) (taken : s.step label = some s') : s'.Fits := by
  cases takesStep taken with
  | user isUser point acted => exact fits.userStep counted room acted
  | stop frame rest isUser top went => exact fits.stopStep top went
  | run frame rest isUser idle runs went => exact fits.runStep counted nested runs went
  | dispatch i idle runs entered => exact fits.enterChild entered

theorem init (limitOf : ActorKey → Nat) : (init limitOf).Fits := by
  refine ⟨fun {q o} found => ?_, fun _ loops => ?_⟩
  · simp only [Shard.init] at found
    split at found
    · obtain rfl := Option.some.inj found
      exact Nat.zero_le _
    · cases found
  · cases loops

end Fits

/-! ## Runs -/

theorem fits_of_run {limitOf : ActorKey → Nat} {labels : List Label}
    (room : StepsMeet Shard.step KeepsRoom (init limitOf) labels)
    (ran : run Shard.step (init limitOf) labels = some s) : s.Fits := by
  have invariant : AllCounted s ∧ IdleSettled s ∧ s.Fits := by
    refine run_invariant_of_meets (fun s => AllCounted s ∧ IdleSettled s ∧ s.Fits) ?_ labels _ s ?_
      room
      ran
    · rintro t label t' ⟨counted, settled, fits⟩ room taken
      exact ⟨counted.step taken, settled.step counted.1 taken,
        fits.step counted settled.nested room taken⟩
    · exact ⟨allCounted_init limitOf, IdleSettled.init limitOf, Fits.init limitOf⟩
  exact invariant.2.2

/-- The methods of the actor whose future is pending are fewer than its limit. -/
def BelowLimit (s : Shard) (p : Path) : Prop :=
  ∃ sched stop mailbox a, s.objs p = some ⟨sched, stop, mailbox, .actor a⟩ ∧
    a.pendingMethods < a.maxConcurrency ∧ (a.maxConcurrency = 1 → a.pendingMethods = 0)

/-- The reentrancy limit is respected in every run in which no actor sets its limit to less than
what it has in flight. -/
theorem belowLimit_of_run (limitOf : ActorKey → Nat) (labels : List Label) (s s' : Shard)
    (label : Label) (m : ActorMessage) (p : Path)
    (room : StepsMeet Shard.step KeepsRoom (init limitOf) labels)
    (ran : run Shard.step (init limitOf) labels = some s) (taken : s.step label = some s')
    (started : s'.log = s.log ++ [.started m p]) : s.BelowLimit p := by
  have fits := fits_of_run room ran
  have counted : AllCounted s :=
    run_invariant AllCounted (fun _ _ _ all taken => all.step taken) labels _ s
      (allCounted_init limitOf) ran
  rcases (passes_step counted.1 taken).started m p with same | ⟨sched, stop, mailbox, a, rest,
    found, -, runs⟩
  · rw [started, List.count_append, List.count_singleton_self] at same
    omega
  · have loops : s.inMailLoop p = true := by
      rw [inMailLoop_cons runs]
      simp [Pc.inMailLoop]
    have space : a.curConcurrency < a.maxConcurrency := fits.room found loops
    have below := (counted.balanced found).pendingMethods_le.trans_lt space
    exact ⟨sched, stop, m :: mailbox, a, found, below, fun one => by omega⟩

/-- Three messages reach an actor. The first one is in flight when the second one sets the limit,
and the third one is next. -/
def limitRun (concurrency : Nat) : List Label :=
  [.receive [⟨1, 7⟩] .user 3 5, .receive [⟨1, 7⟩] .user 3 6, .receive [⟨1, 7⟩] .user 3 7,
    .dispatch 0, .advance false 0, .advance false 0, .workPending, .advance false 0,
    .advance false 0, .setMaxConcurrency [⟨1, 7⟩] concurrency, .workDone none .no,
    .advance false 0]

/-- The states before and after the third one is started, when the limit is two. -/
def raisedEnd : Shard := (run Shard.step (init fun _ => 2 ^ 32 - 1) (limitRun 2)).get
    (by decide +kernel)

def raisedNext : Shard := (raisedEnd.step (.advance false 0)).get (by decide +kernel)

theorem belowLimit_raised :
    StepsMeet Shard.step KeepsRoom (init fun _ => 2 ^ 32 - 1) (limitRun 2) ∧
    run Shard.step (init fun _ => 2 ^ 32 - 1) (limitRun 2) = some raisedEnd ∧
    raisedEnd.step (.advance false 0) = some raisedNext ∧
    raisedNext.log = raisedEnd.log ++ [.started ⟨3, .user, 3, 7⟩ [⟨1, 7⟩]] ∧
    raisedEnd.BelowLimit [⟨1, 7⟩] := by
  have room : StepsMeet Shard.step KeepsRoom (init fun _ => 2 ^ 32 - 1) (limitRun 2) := by
    decide +kernel
  have ran : run Shard.step (init fun _ => 2 ^ 32 - 1) (limitRun 2) = some raisedEnd :=
    (Option.some_get _).symm
  have taken : raisedEnd.step (.advance false 0) = some raisedNext := (Option.some_get _).symm
  have started : raisedNext.log = raisedEnd.log ++ [.started ⟨3, .user, 3, 7⟩ [⟨1, 7⟩]] := by
    decide +kernel
  exact ⟨room, ran, taken, started,
    belowLimit_of_run _ _ _ _ _ ⟨3, .user, 3, 7⟩ [⟨1, 7⟩] room ran taken started⟩

/-- The same states when the limit is one. -/
def loweredEnd : Shard := (run Shard.step (init fun _ => 2 ^ 32 - 1) (limitRun 1)).get
    (by decide +kernel)

def loweredNext : Shard := (loweredEnd.step (.advance false 0)).get (by decide +kernel)

/-- The limit is not respected when an actor lowers it itself: the third method starts. -/
theorem not_belowLimit_lowered :
    ¬ ∀ (limitOf : ActorKey → Nat) (labels : List Label) (s s' : Shard) (label : Label)
      (m : ActorMessage) (p : Path), StepsMeet Shard.step LimitsItself (init limitOf) labels →
      run Shard.step (init limitOf) labels = some s → s.step label = some s' →
      s'.log = s.log ++ [.started m p] → s.BelowLimit p := by
  intro always
  have own : StepsMeet Shard.step LimitsItself (init fun _ => 2 ^ 32 - 1) (limitRun 1) := by
    decide +kernel
  have started : loweredNext.log = loweredEnd.log ++ [.started ⟨3, .user, 3, 7⟩ [⟨1, 7⟩]] := by
    decide +kernel
  have here : loweredEnd.objs [⟨1, 7⟩] = some ⟨.scheduled, .running, [⟨3, .user, 3, 7⟩],
      .actor ⟨[], 1, 1, [⟨1, .user, 3, 5⟩]⟩⟩ := by
    decide +kernel
  obtain ⟨sched, stop, mailbox, a, found, below, -⟩ := always (fun _ => 2 ^ 32 - 1) (limitRun 1)
    loweredEnd loweredNext (.advance false 0) ⟨3, .user, 3, 7⟩ [⟨1, 7⟩] own
    (Option.some_get _).symm (Option.some_get _).symm started
  cases here.symm.trans found
  exact absurd below (by decide)

end Shard

end Hiactor
