import Hiactor.Core.Proofs.ShardMoves
import Hiactor.Core.Proofs.Scheduling

/-!
# What happens to an object from outside of its run

User code and stops reach the objects of a shard through a few small changes: messages and
continuations are added and the object is activated, it is stopped, or it is created. None of
them changes how many methods of an actor are in flight, or its limit.
-/

namespace Hiactor

open Lib

/-- The mailbox has a `FORCE_STOP`, and no message for `do_work` before it. -/
def ActorObject.ForceDue (o : ActorObject) : Prop :=
  ∃ early f late, o.mailbox = early ++ f :: late ∧ f.type = .forceStop ∧
    ∀ m ∈ early, m.type ≠ .user

/-- The methods of an actor that have not completed. -/
def ActorObject.numInFlight (o : ActorObject) : Nat := match o.body with
  | .group _ => 0
  | .actor a => a.inFlight.length

namespace Shard

/-- The small changes. Only an object that is stopped by force loses its messages. -/
inductive Touch (s : Shard) : Shard → Prop
  | emit (e : Event) : Touch s (s.emit e)
  | activate (p : Path) : Touch s (s.activate p)
  | enqueMessage (p : Path) {m : ActorMessage} (user : m.type = .user) :
      Touch s (s.enqueMessage p m)
  | enqueUrgentMessage (p : Path) {m : ActorMessage} (other : m.type ≠ .user) :
      Touch s (s.enqueUrgentMessage p m)
  | addTask (p : Path) (task : Task) (urgent : Bool) : Touch s (s.addTask p task urgent)
  | createChild {k : ActorKey} {p : Path} {o : ActorObject} (absent : s.objs (k :: p) = none)
      (found : s.objs p = some o) (group : o.isGroup = true) : Touch s (s.createChild p k)
  | setStop {p : Path} (force : Bool)
      (running : ∀ o, s.objs p = some o → o.stopStatus = .running) :
      Touch s (s.update p (·.setStop force))
  | cleanMailbox {p : Path} (forced : ∀ o, s.objs p = some o → o.stopStatus = .forceStopping) :
      Touch s (s.cleanMailbox p)
  | cancel (p : Path) : Touch s (s.update p (·.setTasks (List.map Task.cancel)))
  | setEntry (p : Path) (k : ActorKey) (reached : Bool) : Touch s
    (s.update p (·.setEntry k reached))
  | land (p : Path) (i : Nat) :
      Touch s (s.update p (·.mapActor fun a => { a with inFlight := a.inFlight.eraseIdx i }))
  | setStops {stops : List StopFrame}
      (cleaning : ∀ {p running}, .clean p running ∈ stops → .clean p running ∈ s.stops ∨
        (running = false ∧ ∀ o, s.objs p = some o → o.stopStatus = .forceStopping)) :
      Touch s { s with stops := stops }
  | setNextMid (mid : Nat) : Touch s { s with nextMid := mid }

def Touches : Shard → Shard → Prop := Relation.ReflTransGen Touch

variable {s s' : Shard} {p : Path} {k : ActorKey} {o : ActorObject}

/-! ## Objects -/

/-- What the small changes keep of an object. -/
structure Keeps (o o' : ActorObject) : Prop where
  isGroup : o'.isGroup = o.isGroup
  flying : o'.curConcurrency = o.curConcurrency
  fewer : o'.numInFlight ≤ o.numInFlight
  limit : o'.maxConcurrency = o.maxConcurrency
  stopped : o.stopStatus ≠ .running → o'.stopStatus = o.stopStatus
  due : o.ForceDue → o'.ForceDue ∨ o'.stopStatus = .forceStopping

/-- What the small changes do at a path. -/
inductive Grown : Option ActorObject → Option ActorObject → Prop
  | absent : Grown none none
  | created {o : ActorObject} (idle : o.curConcurrency = 0) (empty : o.numInFlight = 0)
      (limit : 0 < o.maxConcurrency) : Grown none (some o)
  | kept {o o' : ActorObject} (keeps : Keeps o o') : Grown (some o) (some o')

namespace Keeps

theorem refl (o : ActorObject) : Keeps o o := ⟨rfl, rfl, le_rfl, rfl, fun _ => rfl, .inl⟩

theorem trans {o o' o'' : ActorObject} (first : Keeps o o') (second : Keeps o' o'') :
    Keeps o o'' where
  isGroup := second.isGroup.trans first.isGroup
  flying := second.flying.trans first.flying
  fewer := second.fewer.trans first.fewer
  limit := second.limit.trans first.limit
  stopped := fun stops => by
    have same := first.stopped stops
    exact (second.stopped (same ▸ stops)).trans same
  due := fun due => by
    rcases first.due due with later | forced
    · exact second.due later
    · exact .inr ((second.stopped (by simp [forced])).trans forced)

variable (o : ActorObject)

theorem setSched (status : SchedStatus) : Keeps o (o.setSched status) :=
  ⟨rfl, rfl, le_rfl, rfl, fun _ => rfl, .inl⟩

theorem mapGroup (f : GroupBody → GroupBody) : Keeps o (o.mapGroup f) := by
  cases o with
  | mk sched stop mailbox body => cases body <;> exact ⟨rfl, rfl, le_rfl, rfl, fun _ => rfl, .inl⟩

theorem mapActor {f : ActorBody → ActorBody}
    (flying : ∀ a, (f a).curConcurrency = a.curConcurrency)
    (fewer : ∀ a, (f a).inFlight.length ≤ a.inFlight.length)
    (limit : ∀ a, (f a).maxConcurrency = a.maxConcurrency) : Keeps o (o.mapActor f) := by
  cases o with
  | mk sched stop mailbox body =>
    cases body with
    | group g => exact ⟨rfl, rfl, le_rfl, rfl, fun _ => rfl, .inl⟩
    | actor a => exact ⟨rfl, flying a, fewer a, limit a, fun _ => rfl, .inl⟩

theorem setTasks (f : List Task → List Task) : Keeps o (o.setTasks f) :=
  .mapActor o (fun _ => rfl) (fun _ => le_rfl) (fun _ => rfl)

theorem setStop (force : Bool) (running : o.stopStatus = .running) : Keeps o (o.setStop force) :=
  ⟨rfl, rfl, le_rfl, rfl, fun stops => absurd running stops, .inl⟩

theorem enque (m : ActorMessage) : Keeps o (o.setMailbox (o.mailbox ++ [m])) := by
  refine ⟨rfl, rfl, le_rfl, rfl, fun _ => rfl, fun due => .inl ?_⟩
  obtain ⟨early, f, late, mailbox, forced, others⟩ := due
  exact ⟨early, f, late ++ [m], by simp [ActorObject.setMailbox, mailbox], forced, others⟩

theorem enqueUrgent {m : ActorMessage} (other : m.type ≠ .user) :
    Keeps o (o.setMailbox (m :: o.mailbox)) := by
  refine ⟨rfl, rfl, le_rfl, rfl, fun _ => rfl, fun due => .inl ?_⟩
  obtain ⟨early, f, late, mailbox, forced, others⟩ := due
  refine ⟨m :: early, f, late, by simp [ActorObject.setMailbox, mailbox], forced, ?_⟩
  intro m' member
  rcases List.mem_cons.mp member with rfl | earlier
  · exact other
  · exact others m' earlier

theorem clean (forced : o.stopStatus = .forceStopping) : Keeps o (o.setMailbox []) :=
  ⟨rfl, rfl, le_rfl, rfl, fun _ => rfl, fun _ => .inr forced⟩

end Keeps

namespace Grown

theorem refl : ∀ o, Grown o o
  | none => .absent
  | some o => .kept (.refl o)

theorem trans {o o' o'' : Option ActorObject} (first : Grown o o') (second : Grown o' o'') :
    Grown o o'' := by
  cases first with
  | absent => exact second
  | created idle empty limit =>
    cases second with
    | kept keeps =>
      exact .created (keeps.flying.trans idle) (Nat.le_zero.mp (empty ▸ keeps.fewer))
        (keeps.limit ▸ limit)
  | kept keeps =>
    cases second with
    | kept keeps' => exact .kept (keeps.trans keeps')

theorem update {f : ActorObject → ActorObject} (keeps : ∀ o, s.objs p = some o → Keeps o (f o))
    (q : Path) : Grown (s.objs q) ((s.update p f).objs q) := by
  rw [objs_update]
  split
  · rename_i here
    subst here
    cases found : s.objs q with
    | none => exact .absent
    | some o => exact .kept (keeps o found)
  · exact .refl _

theorem activate (s : Shard) (p q : Path) : Grown (s.objs q) ((s.activate p).objs q) := by
  refine activate_induction (motive := fun t => Grown (s.objs q) (t.objs q)) s p (.refl _) ?_
  intro t k r grown
  have scheduled : Grown (t.objs q) ((t.update (k :: r) (·.setSched .scheduled)).objs q) :=
    .update (fun o _ => .setSched o _) q
  exact grown.trans (scheduled.trans (.update (fun o _ => .mapGroup o _) q))

theorem createChild (absent : s.objs (k :: p) = none) (q : Path) :
    Grown (s.objs q) ((s.createChild p k).objs q) := by
  let s₁ : Shard := { s with objs := Function.update s.objs (k :: p) (some (.create s.limitOf k)) }
  let s₂ := ((s₁.update p (·.setEntry k true)).update p (·.mapGroup .adopt)).emit
    (.created (k :: p))
  have created : Grown (s.objs q) (s₁.objs q) := by
    show Grown _ (Function.update s.objs (k :: p) _ q)
    rw [Function.update_apply]
    split
    · rename_i here
      rw [here, absent]
      unfold ActorObject.create
      cases group : k.isGroup with
      | true => exact .created rfl rfl Nat.one_pos
      | false => exact .created rfl rfl (maxConcurrencyOf_pos _)
    · exact .refl _
  have counted : Grown (s₁.objs q) (s₂.objs q) :=
    .trans (.update (fun o _ => .mapGroup o _) q)
      (.update (s := s₁.update p (·.setEntry k true)) (fun o _ => .mapGroup o _) q)
  have scheduled : Grown (s₂.objs q) ((s.createChild p k).objs q) :=
    .trans (.update (fun o _ => .setSched o .schedulable) q) (.activate _ (k :: p) q)
  exact created.trans (counted.trans scheduled)

end Grown

theorem Touch.grown (touch : Touch s s') (q : Path) : Grown (s.objs q) (s'.objs q) := by
  cases touch with
  | emit | setStops | setNextMid => exact .refl _
  | activate p => exact .activate s p q
  | enqueMessage p user =>
    exact .trans (.update (fun o _ => .enque o _) q) (.activate _ p q)
  | enqueUrgentMessage p other =>
    exact .trans (.update (fun o _ => .enqueUrgent o other) q) (.activate _ p q)
  | addTask p task urgent =>
    exact .trans (.update (fun o _ => .setTasks o _) q) (.activate _ p q)
  | createChild absent found group => exact .createChild absent q
  | setStop force running => exact .update (fun o found => .setStop o force (running o found)) q
  | @cleanMailbox p forced =>
    unfold Shard.cleanMailbox
    split
    · exact .update (fun o found => .clean o (forced o found)) q
    · exact .refl _
  | cancel p => exact .update (fun o _ => .setTasks o _) q
  | setEntry p k reached => exact .update (fun o _ => .mapGroup o _) q
  | land p i =>
    refine .update (fun o _ => ?_) q
    exact .mapActor o (fun _ => rfl) (fun a => List.length_eraseIdx_le a.inFlight i) (fun _ => rfl)

theorem Touch.runs (touch : Touch s s') : s'.runs = s.runs := by
  cases touch with
  | emit | setStop | cancel | setEntry | land | setStops | setNextMid => rfl
  | activate => exact runs_activate ..
  | enqueMessage => exact runs_activate ..
  | enqueUrgentMessage => exact runs_activate ..
  | addTask => exact runs_activate ..
  | createChild => exact congrArg Prod.fst (control_createChild _)
  | cleanMailbox => exact congrArg Prod.fst control_cleanMailbox

namespace Touches

theorem refl : Touches s s := Relation.ReflTransGen.refl

theorem trans {s'' : Shard} (first : Touches s s') (second : Touches s' s'') : Touches s s'' :=
  Relation.ReflTransGen.trans first second

theorem single (touch : Touch s s') : Touches s s' := Relation.ReflTransGen.single touch

theorem runs (touches : Touches s s') : s'.runs = s.runs := by
  induction touches with
  | refl => rfl
  | tail _ touch ih => exact touch.runs.trans ih

theorem grown (touches : Touches s s') (q : Path) : Grown (s.objs q) (s'.objs q) := by
  induction touches with
  | refl => exact .refl _
  | tail _ touch ih => exact ih.trans (touch.grown q)

/-- An object that is there stays, and keeps what the small changes keep. -/
theorem object (touches : Touches s s') (found : s.objs p = some o) :
    ∃ o', s'.objs p = some o' ∧ Keeps o o' := by
  have grown := touches.grown p
  rw [found] at grown
  generalize s'.objs p = after at grown
  cases grown with
  | kept keeps => exact ⟨_, rfl, keeps⟩

theorem forced (touches : Touches s s') (found : s.objs p = some o)
    (forced : o.stopStatus = .forceStopping) {o' : ActorObject} (stored : s'.objs p = some o') :
    o'.stopStatus = .forceStopping := by
  obtain ⟨o₁, found', keeps⟩ := touches.object found
  obtain rfl := Option.some.inj (found'.symm.trans stored)
  exact (keeps.stopped (by simp [forced])).trans forced

theorem emit (e : Event) : Touches s (s.emit e) := .single (.emit e)

theorem reclaim (m : ActorMessage) : Touches s (s.reclaim m) := .emit _

theorem activate : Touches s (s.activate p) := .single (.activate p)

/-! ## Routing -/

theorem enque (m : ActorMessage) : Touches s (s.enque p m) := by
  unfold Shard.enque
  refine .trans (.emit (.enqueued m p)) ?_
  split
  · rename_i user
    exact .single (.enqueMessage p user)
  · rename_i other
    exact .single (.enqueUrgentMessage p other)

theorem stoppedActorEnqueue (addr : List ActorKey) (m : ActorMessage) :
    Touches s (s.stoppedActorEnqueue addr m) := by
  unfold Shard.stoppedActorEnqueue
  simp only
  split
  · exact .trans (.trans (.emit _) (.emit _)) (.reclaim m)
  · exact .trans (.emit _) (.reclaim m)

theorem getActorLocal (valid : s.tree.Valid) (below : p ≠ []) (keys : List ActorKey) :
    Touches s (s.getActorLocal p keys).1 := by
  induction keys generalizing s p with
  | nil => exact .refl
  | cons k keys ih =>
    unfold Shard.getActorLocal
    split
    · exact .refl
    · rename_i o found
      split
      · rename_i group
        split
        · exact .refl
        · exact ih valid (List.cons_ne_nil k p)
        · rename_i unknown
          have grows := grows_createChild found group unknown (fun root => absurd root below)
          exact .trans (.single (.createChild (absent_of_unknown valid found unknown) found group))
            (ih (grows.valid valid) (List.cons_ne_nil k p))
      · exact .refl

theorem stopActorSystem (force : Bool) (m : ActorMessage) :
    Touches s (s.stopActorSystem force m) := by
  unfold Shard.stopActorSystem
  split
  · exact .reclaim m
  · rename_i running
    have stopped : Touch s (s.update [] (·.setStop force)) := by
      refine .setStop force (fun o found => ?_)
      simpa [rootStopping, found, ActorObject.stopping] using running
    exact .trans (.single stopped) (.single (.setStops fun member => .inl (by simpa using member)))

theorem receive {addr : List ActorKey} {m : ActorMessage} (valid : s.tree.Valid)
    (received : s.receive addr m = some s') : Touches s s' := by
  -- whatever the lookup finds, it creates objects on the way at most
  have walked {t t' : Shard} {found : Option Path} {k : ActorKey} {keys : List ActorKey}
      (valid : t.tree.Valid) (lookup : t.getActorLocal [k] keys = (t', found)) : Touches t t' := by
    have walk : Touches t (t.getActorLocal [k] keys).1 :=
      .getActorLocal valid (List.cons_ne_nil k []) keys
    rwa [lookup] at walk
  cases receives received with
  | reply type => exact .refl
  | stopSystem force asked => exact .stopActorSystem force m
  | stopped k keys entry => exact .stoppedActorEnqueue ..
  | found k keys t q entry lookup => exact .trans (walked valid lookup) (.enque m)
  | lost k keys t entry lookup => exact .trans (walked valid lookup) (.stoppedActorEnqueue ..)
  | closed k keys unknown stopping => exact .stoppedActorEnqueue ..
  | created k keys t q unknown running lookup =>
    obtain ⟨o, found, group, unknown', running'⟩ := root_of_unknown valid unknown running
    have grows := grows_createChild found group unknown' (fun _ => running')
    have created : Touches s (s.createChild [] k) :=
      .single (.createChild (absent_of_unknown valid found unknown') found group)
    exact .trans (created.trans (walked (grows.valid valid) lookup)) (.enque m)

/-! ## Stops -/

theorem stopAllChildren (force : Bool) : Touches s (s.stopAllChildren p force) := by
  refine stopAllChildren_induction (motive := Touches s) s p .refl (fun t k told => ?_)
  refine told.trans (.single (.enqueUrgentMessage _ ?_))
  cases force <;> simp [stopMessage]

theorem activateIdle : Touches s (s.activateIdle p) := by
  unfold Shard.activateIdle
  split
  · split
    · exact .activate
    · exact .refl
  · exact .refl

theorem disable : Touches s (s.disable p k) :=
  .trans (.single (.setEntry p k false)) (.emit _)

/-- A stop of an object that is not stopping yet. -/
theorem setStop {force : Bool} (found : s.objs p = some o) (running : ¬ o.stopping = true) :
    Touches s (s.update p (·.setStop force)) := by
  refine .single (.setStop force (fun o' stored => ?_))
  obtain rfl := Option.some.inj (found.symm.trans stored)
  exact o.running_of_stopping (by simpa using running)

theorem cleanMailbox (forced : ∀ c, s.cores p = some c → c.status = .forceStopping) :
    Touches s (s.cleanMailbox p) :=
  .single (.cleanMailbox fun _ found => forced _ (cores_of_objs found))

theorem stopGroup (force : Bool) : Touches s (s.stopGroup p force) := by
  unfold Shard.stopGroup
  split
  · rename_i o found
    split
    · exact .refl
    · rename_i running
      have told : Touches s ((s.update p (·.setStop force)).stopAllChildren p force) :=
        .trans (.setStop found running) (.stopAllChildren force)
      have stopped : Touches s (if force then
          ((s.update p (·.setStop force)).stopAllChildren p force).cleanMailbox p
          else (s.update p (·.setStop force)).stopAllChildren p force) := by
        split
        · rename_i forced
          refine told.trans (.cleanMailbox fun c stored => ?_)
          rw [cores_stopAllChildren, cores_update_self found] at stored
          rw [← Option.some.inj stored, ActorObject.core_setStop, if_pos forced]
        · exact told
      simp only
      split
      · exact stopped.trans .activate
      · exact stopped
  · exact .refl

/-- The forced stop of an actor, after its status is set. -/
theorem beginClean (found : s.objs p = some o) (forced : o.stopStatus = .forceStopping) :
    let t := (s.cleanMailbox p).update p (·.setTasks (List.map Task.cancel))
    Touches s { t with stops := .clean p false :: t.stops } := by
  have cleaned : Touches s (s.cleanMailbox p) := by
    refine .cleanMailbox fun c stored => ?_
    rw [cores_of_objs found] at stored
    rw [← Option.some.inj stored]
    exact forced
  have cancelled := cleaned.trans (.single (.cancel p))
  refine cancelled.trans (.single (.setStops ?_))
  intro r running member
  rcases List.mem_cons.mp member with same | earlier
  · obtain ⟨rfl, rfl⟩ := StopFrame.clean.inj same
    exact .inr ⟨rfl, fun _ => cancelled.forced found forced⟩
  · exact .inl earlier

theorem stopChildActor (force : Bool) : Touches s (s.stopChildActor p k force) := by
  unfold Shard.stopChildActor
  split
  · rename_i o reached found
    split
    · exact .trans (.stopGroup force) .disable
    · split
      · exact .disable
      · rename_i running
        split
        · refine .trans (.setStop found running) (.beginClean (o := o.setStop true) ?_ rfl)
          rw [objs_update_self, found, Option.map_some]
        · exact .trans (.trans (.setStop found running) .activateIdle) .disable
  · exact .refl

theorem stopSelf (force : Bool) : Touches s (s.stopSelf p force) := by
  cases p with
  | nil => exact .refl
  | cons k p => exact .stopChildActor force

/-! ## Continuations -/

theorem complete {i : Nat} {reply : Option Bool} {state : WorkState}
    (completed : s.complete p i reply state = some s') : Touches s s' := by
  cases completes completed with
  | lands sched stop mailbox a found m flying =>
    exact .trans (.single (.land p i)) (.single (.addTask ..))

end Touches

/-- The method of a `post_work_func` is no longer in flight. -/
def finishMethod (s : Shard) (p : Path) : Task → Shard
  | .post _ _ => s.update p (·.mapActor fun a => { a with curConcurrency := a.curConcurrency - 1 })
  | _ => s

theorem touches_runTask (task : Task) : Touches (s.finishMethod p task) (s.runTask p task) := by
  cases task with
  | user => exact .refl
  | reply msg failed => exact .trans (.emit _) (.single (.addTask ..))
  | post msg state =>
    unfold Shard.runTask
    simp only
    split
    · exact .trans (.reclaim msg) (.stopSelf true)
    · exact .reclaim msg

/-- Whatever user code does but to set a limit. -/
theorem touches_userStep {label : Label} (valid : s.tree.Valid)
    (other : ∀ q concurrency, label ≠ .setMaxConcurrency q concurrency)
    (taken : s.userStep label = some s') : Touches s s' := by
  cases label with
  | receive addr type srcShardId prId =>
    obtain ⟨s₁, received, rfl⟩ := Option.map_eq_some_iff.mp taken
    exact .trans (.receive valid received) (.single (.setNextMid _))
  | addTask p urgent =>
    obtain ⟨-, rfl⟩ := addTask_cases taken
    exact .single (.addTask ..)
  | complete p i reply state => exact .complete taken
  | setMaxConcurrency p concurrency => exact absurd rfl (other p concurrency)
  | dispatch | advance | workDone | workPending | stopNext => cases taken

theorem touches_stopSystemEnd {force : Bool} {m : ActorMessage} {rest : List StopFrame}
    (top : s.stops = .stopSystem force m :: rest) (ended : s.stopSystemEnd m rest = some s') :
    Touches s s' := by
  have popped : Touches s { s with stops := rest } := by
    refine .single (.setStops fun member => .inl ?_)
    rw [top]
    exact List.mem_cons_of_mem _ member
  cases endsSystem ended with
  | ends sched stop mailbox g root closed =>
    refine .trans ?_ (.reclaim m)
    split
    · exact popped.trans (.emit _)
    · exact popped

end Shard

end Hiactor
