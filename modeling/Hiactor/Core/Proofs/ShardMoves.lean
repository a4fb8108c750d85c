import Mathlib.Logic.Relation
import Hiactor.Core.Proofs.ShardLog

/-!
# What a step does to the objects

A step that hands no message to `do_work` and destroys no object takes every object of the shard
through a sequence of small turns. The other steps are listed with what they do.
-/

namespace Hiactor

open Lib

/-! ## Turns -/

/-- The part of an object that the turns change: its status, the messages in its mailbox for
`do_work`, and the fields of an actor. -/
structure Core where
  status : ActorStatus
  users : List ActorMessage
  work : Option ActorBody

namespace ActorObject

/-- The messages in the mailbox that are for `do_work`. -/
def users (o : ActorObject) : List ActorMessage := o.mailbox.filter (·.type == .user)

def actor? (o : ActorObject) : Option ActorBody := match o.body with
  | .group _ => none
  | .actor a => some a

def core (o : ActorObject) : Core := ⟨o.stopStatus, o.users, o.actor?⟩

variable (o : ActorObject)

@[simp] theorem core_setSched (status : SchedStatus) : (o.setSched status).core = o.core := rfl

@[simp] theorem core_setStop (force : Bool) :
    (o.setStop force).core =
      { o.core with status := if force then .forceStopping else .peaceStopping } := rfl

@[simp] theorem core_setMailbox (mailbox : List ActorMessage) :
    (o.setMailbox mailbox).core =
      { o.core with users := mailbox.filter (·.type == .user) } := rfl

@[simp] theorem core_mapGroup (f : GroupBody → GroupBody) : (o.mapGroup f).core = o.core := by
  cases o with
  | mk sched stop mailbox body => cases body <;> rfl

@[simp] theorem core_mapActor (f : ActorBody → ActorBody) :
    (o.mapActor f).core = { o.core with work := o.core.work.map f } := by
  cases o with
  | mk sched stop mailbox body => cases body <;> rfl

@[simp] theorem core_setActors (f : List ActorKey → List ActorKey) :
    (o.setActors f).core = o.core := core_mapGroup ..

@[simp] theorem core_setEntry (k : ActorKey) (reached : Bool) :
    (o.setEntry k reached).core = o.core := core_mapGroup ..

theorem running_of_stopping (running : o.stopping = false) : o.core.status = .running := by
  show o.stopStatus = .running
  simpa [stopping] using running

end ActorObject

/-- What happens to the tasks and methods of an actor. -/
inductive Work : ActorBody → ActorBody → Prop
  | schedule (a : ActorBody) (urgent : Bool) :
      Work a { a with
        taskQueue := if urgent then .user :: a.taskQueue else a.taskQueue ++ [.user] }
  | cancel (a : ActorBody) : Work a { a with taskQueue := a.taskQueue.map Task.cancel }
  | user (a : ActorBody) (rest : List Task) (front : a.taskQueue = .user :: rest) :
      Work a { a with taskQueue := rest }
  | reply (a : ActorBody) (msg : ActorMessage) (failed : Bool) (rest : List Task)
      (front : a.taskQueue = .reply msg failed :: rest) :
      Work a { a with taskQueue := rest ++ [.post msg .no] }
  | post (a : ActorBody) (msg : ActorMessage) (state : WorkState) (rest : List Task)
      (front : a.taskQueue = .post msg state :: rest) :
      Work a { a with taskQueue := rest, curConcurrency := a.curConcurrency - 1 }
  | suspend (a : ActorBody) (msg : ActorMessage) :
      Work a { a with
        curConcurrency := a.curConcurrency + 1, inFlight := a.inFlight ++ [msg] }
  | complete (a : ActorBody) (i : Nat) (msg : ActorMessage) (task : Task)
      (flying : a.inFlight[i]? = some msg) (waits : task ≠ .user) :
      Work a { a with inFlight := a.inFlight.eraseIdx i, taskQueue := a.taskQueue ++ [task] }
  | limit (a : ActorBody) (concurrency : Nat) : Work a { a with maxConcurrency := concurrency }

/-- What happens to an object. A message reaches an object that was stopped by force only when
the stop is `open`. -/
inductive Turn (isOpen : Prop) : Core → Core → Prop
  | deliver (c : Core) (m : ActorMessage) (late : c.status = .forceStopping → isOpen) :
      Turn isOpen c { c with users := c.users ++ [m] }
  | peaceStop (c : Core) (running : c.status = .running) :
      Turn isOpen c { c with status := .peaceStopping }
  | forceStop (c : Core) (running : c.status = .running) :
      Turn isOpen c { c with status := .forceStopping, users := [] }
  | work (c : Core) {a a' : ActorBody} (stored : c.work = some a) (works : Work a a') :
      Turn isOpen c { c with work := some a' }

/-- What happens at a path. -/
inductive Shift (isOpen : Prop) : Option Core → Option Core → Prop
  | create (limitOf : ActorKey → Nat) (k : ActorKey) :
      Shift isOpen none (some (ActorObject.create limitOf k).core)
  | turn {c c' : Core} (turn : Turn isOpen c c') : Shift isOpen (some c) (some c')

/-- Destructions, and the calls of `do_work` and of `wait_others_and_exit`. -/
def Event.isLoud : Event → Bool
  | .started _ _ | .destroyed _ | .exited => true
  | _ => false

/-- A loop of `stop_actor_system`. -/
def StopFrame.isSystem : StopFrame → Bool
  | .clean _ _ => false
  | .stopSystem _ _ => true

namespace Shard

/-- The loops of `stop_actor_system` that are in progress. -/
def systemStops (s : Shard) : Nat := s.stops.countP StopFrame.isSystem

def cores (s : Shard) (p : Path) : Option Core := (s.objs p).map ActorObject.core

/-- The log grows by events that are not loud. -/
def Quiet (s s' : Shard) : Prop := ∃ new, s'.log = s.log ++ new ∧ ∀ e ∈ new, e.isLoud = false

/-- Every object goes through turns. The root keeps its status. -/
structure Evolves (isOpen : Path → Prop) (s s' : Shard) : Prop where
  root : s'.cores [] = s.cores []
  below : ∀ p, p ≠ [] → Relation.ReflTransGen (Shift (isOpen p)) (s.cores p) (s'.cores p)
  stops : s'.systemStops = s.systemStops
  quiet : Quiet s s'

variable {isOpen : Path → Prop} {s s' : Shard} {p : Path} {k : ActorKey}

theorem Quiet.of_eq (log : s'.log = s.log) : Quiet s s' :=
  ⟨[], log.trans (List.append_nil _).symm, fun _ member => nomatch member⟩

theorem Quiet.trans {s'' : Shard} (first : Quiet s s') (second : Quiet s' s'') : Quiet s s'' := by
  obtain ⟨new, log, quiet⟩ := first
  obtain ⟨more, log', quiet'⟩ := second
  refine ⟨new ++ more, ?_, ?_⟩
  · rw [log', log, List.append_assoc]
  · intro e member
    rcases List.mem_append.mp member with early | late
    · exact quiet e early
    · exact quiet' e late

theorem Evolves.of_cores (cores : s'.cores = s.cores) (stops : s'.systemStops = s.systemStops)
    (quiet : Quiet s s') : Evolves isOpen s s' := by
  refine ⟨congrFun cores [], fun p _ => ?_, stops, quiet⟩
  rw [cores]

theorem Evolves.silent (cores : s'.cores = s.cores) (stops : s'.systemStops = s.systemStops)
    (log : s'.log = s.log) : Evolves isOpen s s' := .of_cores cores stops (.of_eq log)

theorem Evolves.refl : Evolves isOpen s s := .silent rfl rfl rfl

theorem Evolves.trans {s'' : Shard} (first : Evolves isOpen s s')
    (second : Evolves isOpen s' s'') : Evolves isOpen s s'' where
  root := second.root.trans first.root
  below := fun p child => (first.below p child).trans (second.below p child)
  stops := second.stops.trans first.stops
  quiet := first.quiet.trans second.quiet

/-- One object goes through turns. -/
theorem Evolves.at (child : p ≠ [])
    (turns : Relation.ReflTransGen (Shift (isOpen p)) (s.cores p) (s'.cores p))
    (others : ∀ q, q ≠ p → s'.cores q = s.cores q) (stops : s'.systemStops = s.systemStops)
    (quiet : Quiet s s') : Evolves isOpen s s' := by
  refine ⟨others [] child.symm, fun q _ => ?_, stops, quiet⟩
  by_cases here : q = p
  · rw [here]
    exact turns
  · rw [others q here]

/-! ## Cores -/

theorem cores_update (s : Shard) (p : Path) (f : ActorObject → ActorObject) (q : Path) :
    (s.update p f).cores q =
      if q = p then (s.objs q).map (fun o => (f o).core) else s.cores q := by
  unfold cores
  rw [objs_update]
  split
  · rw [Option.map_map]
    rfl
  · rfl

theorem cores_update_self {o : ActorObject} (found : s.objs p = some o)
    (f : ActorObject → ActorObject) : (s.update p f).cores p = some (f o).core := by
  rw [cores_update, if_pos rfl, found, Option.map_some]

theorem cores_update_ne (f : ActorObject → ActorObject) {q : Path} (other : q ≠ p) :
    (s.update p f).cores q = s.cores q := by
  rw [cores_update, if_neg other]

/-- A change of an object that keeps its core. -/
theorem cores_update_same {f : ActorObject → ActorObject}
    (same : ∀ o, s.objs p = some o → (f o).core = o.core) : (s.update p f).cores = s.cores := by
  funext q
  rw [cores_update]
  split
  · rename_i here
    subst here
    unfold cores
    cases found : s.objs q with
    | none => rfl
    | some o => rw [Option.map_some, Option.map_some, same o found]
  · rfl

@[simp] theorem cores_emit (e : Event) : (s.emit e).cores = s.cores := rfl

@[simp] theorem cores_reclaim (m : ActorMessage) : (s.reclaim m).cores = s.cores := rfl

@[simp] theorem cores_setPc (pc : Pc) : (s.setPc pc).cores = s.cores := rfl

@[simp] theorem cores_leave : s.leave.cores = s.cores := rfl

@[simp] theorem cores_activate (s : Shard) (p : Path) : (s.activate p).cores = s.cores := by
  refine activate_induction (motive := fun t => t.cores = s.cores) s p rfl ?_
  intro t k q same
  rw [cores_update_same (fun o _ => o.core_setActors _),
    cores_update_same (fun o _ => o.core_setSched _), same]

@[simp] theorem systemStops_update (f : ActorObject → ActorObject) :
    (s.update p f).systemStops = s.systemStops := rfl

@[simp] theorem systemStops_emit (e : Event) : (s.emit e).systemStops = s.systemStops := rfl

@[simp] theorem systemStops_reclaim (m : ActorMessage) :
    (s.reclaim m).systemStops = s.systemStops := rfl

@[simp] theorem systemStops_setPc (pc : Pc) : (s.setPc pc).systemStops = s.systemStops := rfl

@[simp] theorem systemStops_leave : s.leave.systemStops = s.systemStops := rfl

@[simp] theorem systemStops_activate : (s.activate p).systemStops = s.systemStops := by
  unfold systemStops
  rw [stops_activate]

theorem cores_of_objs {o : ActorObject} (found : s.objs p = some o) :
    s.cores p = some o.core := by
  rw [cores, found, Option.map_some]

theorem exists_of_cores {c : Core} (stored : s.cores p = some c) :
    ∃ o, s.objs p = some o ∧ o.core = c := Option.map_eq_some_iff.mp stored

/-! ## Operations -/

theorem Evolves.update_same {f : ActorObject → ActorObject}
    (same : ∀ o, s.objs p = some o → (f o).core = o.core) : Evolves isOpen s (s.update p f) :=
  .silent (cores_update_same same) rfl rfl

theorem Evolves.activate : Evolves isOpen s (s.activate p) :=
  .silent (cores_activate ..) systemStops_activate (log_activate ..)

theorem Quiet.emit {e : Event} (quiet : e.isLoud = false) : Quiet s (s.emit e) := by
  refine ⟨[e], rfl, fun e' member => ?_⟩
  rw [List.mem_singleton.mp member, quiet]

theorem Evolves.emit {e : Event} (quiet : e.isLoud = false) : Evolves isOpen s (s.emit e) :=
  .of_cores rfl rfl (.emit quiet)

theorem Evolves.reclaim (m : ActorMessage) : Evolves isOpen s (s.reclaim m) := .emit rfl

theorem Evolves.setPc (pc : Pc) : Evolves isOpen s (s.setPc pc) := .silent rfl rfl rfl

theorem Evolves.leave : Evolves isOpen s s.leave := .silent rfl rfl rfl

/-- One object goes through one turn. -/
theorem Evolves.turn {f : ActorObject → ActorObject} (child : p ≠ [])
    (turn : ∀ o, s.objs p = some o → Turn (isOpen p) o.core (f o).core) :
    Evolves isOpen s (s.update p f) := by
  refine .at child ?_ (fun q other => cores_update_ne f other) rfl (.of_eq rfl)
  cases found : s.objs p with
  | none => rw [cores_update, if_pos rfl, cores, found, Option.map_none, Option.map_none]
  | some o =>
    rw [cores_update_self found, cores_of_objs found]
    exact .single (.turn (turn o found))

/-- A message that is not for `do_work` is put in a mailbox. -/
theorem Evolves.enqueUrgentMessage {m : ActorMessage} (other : m.type ≠ .user) :
    Evolves isOpen s (s.enqueUrgentMessage p m) := by
  refine .trans (.update_same fun o _ => ?_) .activate
  rw [ActorObject.core_setMailbox, List.filter_cons_of_neg (by simpa using other)]
  rfl

theorem Evolves.enqueMessage {m : ActorMessage} (child : p ≠ [])
    (late : ∀ o, s.objs p = some o → o.stopStatus = .forceStopping → isOpen p)
    (user : m.type = .user) : Evolves isOpen s (s.enqueMessage p m) := by
  refine .trans (.turn child fun o found => ?_) .activate
  have users : (o.mailbox ++ [m]).filter (·.type == .user) = o.core.users ++ [m] := by
    simp [ActorObject.core, ActorObject.users, user]
  rw [ActorObject.core_setMailbox, users]
  exact .deliver o.core m (late o found)

theorem Evolves.enque {m : ActorMessage} (child : p ≠ [])
    (late : ∀ o, s.objs p = some o → o.stopStatus = .forceStopping → m.type = .user → isOpen p) :
    Evolves isOpen s (s.enque p m) := by
  unfold Shard.enque
  refine .trans (.emit (e := .enqueued m p) rfl) ?_
  split
  · rename_i user
    exact .enqueMessage child (fun o found forced => late o found forced user) user
  · rename_i other
    exact .enqueUrgentMessage other

/-- Continuations are scheduled, cancelled and run. -/
theorem Evolves.work {f : ActorBody → ActorBody} (child : p ≠ [])
    (works : ∀ a, Work a (f a)) : Evolves isOpen s (s.update p (·.mapActor f)) := by
  cases found : s.objs p with
  | none =>
    exact .update_same fun o stored => by rw [found] at stored; cases stored
  | some o =>
    cases body : o.core.work with
    | none =>
      refine .update_same fun o' stored => ?_
      obtain rfl := Option.some.inj (found.symm.trans stored)
      rw [ActorObject.core_mapActor, body, Option.map_none, ← body]
    | some a =>
      refine .turn child fun o' stored => ?_
      obtain rfl := Option.some.inj (found.symm.trans stored)
      rw [ActorObject.core_mapActor, body, Option.map_some]
      exact .work o.core body (works a)

theorem Evolves.addTask (child : p ≠ []) (urgent : Bool) :
    Evolves isOpen s (s.addTask p .user urgent) :=
  .trans (.work child fun a => .schedule a urgent) .activate

theorem Evolves.createChild (absent : s.objs (k :: p) = none) :
    Evolves isOpen s (s.createChild p k) := by
  let s₁ : Shard := { s with objs := Function.update s.objs (k :: p) (some (.create s.limitOf k)) }
  have cores₁ (q : Path) : s₁.cores q =
      if q = k :: p then some (ActorObject.create s.limitOf k).core else s.cores q := by
    unfold cores
    show (Function.update s.objs (k :: p) _ q).map _ = _
    rw [Function.update_apply]
    split
    · rfl
    · rfl
  have created : Evolves isOpen s s₁ := by
    refine .at (List.cons_ne_nil k p) ?_ (fun q other => ?_) rfl (.of_eq rfl)
    · rw [cores₁, if_pos rfl, cores, absent]
      exact .single (.create s.limitOf k)
    · rw [cores₁, if_neg other]
  unfold Shard.createChild schedule
  refine .trans (.trans created ?_) .activate
  refine .trans (.trans (.trans (.update_same fun o _ => o.core_setEntry k true)
    (.update_same fun o _ => o.core_mapGroup _)) (.emit rfl))
    (.update_same fun o _ => o.core_setSched _)

/-! ## Routing -/

theorem Evolves.stoppedActorEnqueue (addr : List ActorKey) (m : ActorMessage) :
    Evolves isOpen s (s.stoppedActorEnqueue addr m) := by
  have rejected : Evolves isOpen s (s.emit (.rejected m addr)) := .emit rfl
  unfold Shard.stoppedActorEnqueue
  simp only
  split
  · exact .trans (.trans rejected (.emit rfl)) (.reclaim m)
  · exact .trans rejected (.reclaim m)

/-- A path without an entry in its parent is free. -/
theorem absent_of_unknown {o : ActorObject} (valid : s.tree.Valid) (found : s.objs p = some o)
    (unknown : o.entry k = none) : s.objs (k :: p) = none := by
  cases child : s.objs (k :: p) with
  | none => rfl
  | some c => exact absurd unknown (valid.known (node_tree child) (node_tree found))

theorem Evolves.getActorLocal (valid : s.tree.Valid) (below : p ≠ []) (keys : List ActorKey) :
    Evolves isOpen s (s.getActorLocal p keys).1 := by
  induction keys generalizing s p with
  | nil => exact .refl
  | cons k keys ih =>
    unfold Shard.getActorLocal
    split
    · exact .refl
    · rename_i o found
      split
      · rename_i group
        split
        · exact .refl
        · exact ih valid (List.cons_ne_nil k p)
        · rename_i unknown
          have grows := grows_createChild found group unknown (fun root => absurd root below)
          exact .trans (.createChild (absent_of_unknown valid found unknown))
            (ih (grows.valid valid) (List.cons_ne_nil k p))
      · exact .refl

/-- The entry of the object in its parent is not null. -/
def IsReached (s : Shard) : Path → Prop
  | [] => False
  | k :: p => s.entry p k = some true

/-- A reached object that was stopped is still in its stop. -/
theorem mem_cleanPaths {o : ActorObject} (valid : s.tree.Valid) (reached : s.IsReached p)
    (found : s.objs p = some o) (stopping : o.stopping = true) : p ∈ cleanPaths s.stops := by
  cases p with
  | nil => exact reached.elim
  | cons k p =>
    obtain ⟨parent, above, -, entry⟩ := exists_of_entry reached
    exact valid.stopped_disabled (node_tree above) (node_tree found) stopping entry

theorem isReached_createChild {o : ActorObject} (found : s.objs p = some o)
    (group : o.isGroup = true) : (s.createChild p k).IsReached (k :: p) := by
  have stored : (s.createChild p k).tree.node p =
      some ((o.node.setEntry k true).setLive (o.node.live + 1)) := by
    rw [tree_createChild found group]
    exact (Function.update_of_ne (List.cons_ne_self k p).symm ..).trans (Function.update_self ..)
  obtain ⟨o', found', same⟩ := exists_of_node stored
  have entry : o'.entry k = some true := by
    have := congrFun (congrArg TreeNode.entry same) k
    exact this.trans (by simp)
  show Shard.entry _ p k = some true
  rw [Shard.entry, found', Option.bind_some, entry]

theorem stops_createChild : (s.createChild p k).stops = s.stops := by
  simp [createChild, schedule, emit]

/-- What a lookup finds is reached, and lies on the way to the address. -/
theorem getActorLocal_reached {keys : List ActorKey} {q : Path} (valid : s.tree.Valid)
    (reached : s.IsReached p) (lookup : s.getActorLocal p keys = (s', some q)) :
    s'.tree.Valid ∧ s'.stops = s.stops ∧ s'.IsReached q ∧ ∃ front, front <+: keys ∧
      q = front.reverse ++ p := by
  induction keys generalizing s p with
  | nil =>
    obtain ⟨rfl, found⟩ := Prod.mk.inj lookup
    obtain rfl := Option.some.inj found
    exact ⟨valid, rfl, reached, [], List.nil_prefix, rfl⟩
  | cons k keys ih =>
    have below : p ≠ [] := by
      rintro rfl
      exact reached
    have deeper {front : List ActorKey} (short : front <+: keys) :
        (k :: front) <+: k :: keys ∧ front.reverse ++ k :: p = (k :: front).reverse ++ p :=
      ⟨List.cons_prefix_cons.mpr ⟨rfl, short⟩, by simp⟩
    unfold Shard.getActorLocal at lookup
    split at lookup
    · cases (Prod.mk.inj lookup).2
    · rename_i o found
      split at lookup
      · rename_i group
        split at lookup
        · cases (Prod.mk.inj lookup).2
        · rename_i entry
          have reached' : s.IsReached (k :: p) := by
            show s.entry p k = some true
            rw [Shard.entry, found, Option.bind_some, entry]
          obtain ⟨valid', stops, ends, front, short, path⟩ := ih valid reached' lookup
          exact ⟨valid', stops, ends, k :: front, (deeper short).1, path.trans (deeper short).2⟩
        · rename_i unknown
          have grows := grows_createChild found group unknown (fun root => absurd root below)
          obtain ⟨valid', stops, ends, front, short, path⟩ :=
            ih (grows.valid valid) (isReached_createChild found group) lookup
          exact ⟨valid', stops.trans stops_createChild, ends, k :: front, (deeper short).1,
            path.trans (deeper short).2⟩
      · obtain ⟨rfl, here⟩ := Prod.mk.inj lookup
        obtain rfl := Option.some.inj here
        exact ⟨valid, rfl, reached, [], List.nil_prefix, rfl⟩

/-- A message is received for an actor whose forced stop runs its continuations. -/
def entersStop (s : Shard) (addr : List ActorKey) (type : MessageType) (p : Path) : Prop :=
  type = .user ∧ p.reverse <+: addr ∧ p ∈ cleanPaths s.stops

/-- `receive` of a message that is not one to the root. -/
theorem Evolves.receive {keys : List ActorKey} {m : ActorMessage} (valid : s.tree.Valid)
    (received : s.receive (k :: keys) m = some s') :
    Evolves (s.entersStop (k :: keys) m.type) s s' := by
  -- the message is put in the mailbox of what the lookup found
  have delivers {t t' : Shard} {q : Path} (valid : t.tree.Valid) (stops : t.stops = s.stops)
      (reached : t.IsReached [k]) (lookup : t.getActorLocal [k] keys = (t', some q)) :
      Evolves (s.entersStop (k :: keys) m.type) t (t'.enque q m) := by
    have walked : Evolves (s.entersStop (k :: keys) m.type) t (t.getActorLocal [k] keys).1 :=
      .getActorLocal valid (List.cons_ne_nil k []) keys
    rw [lookup] at walked
    obtain ⟨valid', stops', ends, front, short, rfl⟩ := getActorLocal_reached valid reached lookup
    refine .trans walked (.enque (by simp) fun o found forced user => ?_)
    refine ⟨user, ?_, ?_⟩
    · simpa using short
    · rw [← stops, ← stops']
      exact mem_cleanPaths valid' ends found (by simp [ActorObject.stopping, forced])
  cases receives received with
  | stopped _ _ entry => exact .stoppedActorEnqueue ..
  | found _ _ t q entry lookup => exact delivers valid rfl entry lookup
  | lost _ _ t entry lookup =>
    have walked : Evolves (s.entersStop (k :: keys) m.type) s (s.getActorLocal [k] keys).1 :=
      .getActorLocal valid (List.cons_ne_nil k []) keys
    rw [lookup] at walked
    exact walked.trans (.stoppedActorEnqueue ..)
  | closed _ _ unknown stopping => exact .stoppedActorEnqueue ..
  | created _ _ t q unknown running lookup =>
    obtain ⟨o, found, group, unknown', running'⟩ := root_of_unknown valid unknown running
    have grows := grows_createChild found group unknown' (fun _ => running')
    exact .trans (.createChild (absent_of_unknown valid found unknown'))
      (delivers (grows.valid valid) stops_createChild (isReached_createChild found group) lookup)

/-! ## Stops -/

theorem Evolves.stopAllChildren (force : Bool) : Evolves isOpen s (s.stopAllChildren p force) := by
  refine stopAllChildren_induction (motive := Evolves isOpen s) s p .refl ?_
  intro t k told
  refine told.trans (.enqueUrgentMessage ?_)
  cases force <;> simp [stopMessage]

theorem Evolves.activateIdle : Evolves isOpen s (s.activateIdle p) := by
  unfold Shard.activateIdle
  split
  · split
    · exact .activate
    · exact .refl
  · exact .refl

theorem Evolves.disable : Evolves isOpen s (s.disable p k) :=
  .trans (.update_same fun o _ => o.core_setEntry k false) (.emit rfl)

theorem Quiet.cleanMailbox : Quiet s (s.cleanMailbox p) := by
  refine ⟨_, log_cleanMailbox, fun e member => ?_⟩
  obtain ⟨m, -, rfl⟩ := List.mem_map.mp member
  rfl

theorem cores_cleanMailbox (q : Path) :
    (s.cleanMailbox p).cores q =
      if q = p then (s.cores q).map (fun c => { c with users := [] }) else s.cores q := by
  unfold Shard.cleanMailbox
  split
  · show (s.update p _).cores q = _
    rw [cores_update]
    split
    · rw [cores, Option.map_map]
      rfl
    · rfl
  · rename_i absent
    split
    · rename_i here
      rw [here, cores, absent]
      rfl
    · rfl

theorem systemStops_cleanMailbox : (s.cleanMailbox p).systemStops = s.systemStops := by
  unfold Shard.cleanMailbox
  split
  · rfl
  · rfl

/-- The forced stop of an object sets its status and then cleans its mailbox. Between the two it
may tell other objects to stop. -/
theorem Evolves.forceStop {t : Shard} {o : ActorObject} (child : p ≠ [])
    (found : s.objs p = some o) (running : o.stopping = false)
    (told : Evolves isOpen (s.update p (·.setStop true)) t)
    (same : t.cores p = (s.update p (·.setStop true)).cores p) :
    Evolves isOpen s (t.cleanMailbox p) := by
  refine ⟨?_, fun q below => ?_, ?_, ?_⟩
  · rw [cores_cleanMailbox, if_neg child.symm, told.root, cores_update_ne _ child.symm]
  · by_cases here : q = p
    · rw [here, cores_cleanMailbox, if_pos rfl, same, cores_update_self found, cores_of_objs found]
      exact .single (.turn (.forceStop o.core (o.running_of_stopping running)))
    · rw [cores_cleanMailbox, if_neg here, ← cores_update_ne _ here]
      exact told.below q below
  · rw [systemStops_cleanMailbox, told.stops, systemStops_update]
  · exact .trans (.of_eq rfl) (told.quiet.trans .cleanMailbox)

theorem Evolves.peaceStop {o : ActorObject} (child : p ≠ []) (found : s.objs p = some o)
    (running : o.stopping = false) : Evolves isOpen s (s.update p (·.setStop false)) := by
  refine .turn child fun o' stored => ?_
  obtain rfl := Option.some.inj (found.symm.trans stored)
  exact .peaceStop o.core (o.running_of_stopping running)

theorem cores_stopAllChildren (force : Bool) : (s.stopAllChildren p force).cores = s.cores := by
  refine stopAllChildren_induction (motive := fun t => t.cores = s.cores) s p rfl ?_
  intro t k same
  rw [Shard.enqueUrgentMessage, cores_activate, cores_update_same, same]
  intro o _
  have other : (stopMessage force).type ≠ .user := by cases force <;> simp [stopMessage]
  rw [ActorObject.core_setMailbox, List.filter_cons_of_neg (by simpa using other)]
  rfl

theorem Evolves.stopGroup (child : p ≠ []) (force : Bool) :
    Evolves isOpen s (s.stopGroup p force) := by
  unfold Shard.stopGroup
  split
  · rename_i o found
    split
    · exact .refl
    · rename_i running
      have running' : o.stopping = false := by simpa using running
      have stopped : Evolves isOpen s
          (if force then ((s.update p (·.setStop force)).stopAllChildren p force).cleanMailbox p
            else (s.update p (·.setStop force)).stopAllChildren p force) := by
        cases force with
        | true =>
          exact .forceStop child found running' (.stopAllChildren true)
            (congrFun (cores_stopAllChildren true) p)
        | false => exact .trans (.peaceStop child found running') (.stopAllChildren false)
      simp only
      split
      · exact stopped.trans .activate
      · exact stopped
  · exact .refl

/-- A frame of `clean_task_queue` is not one of `stop_actor_system`. -/
theorem Evolves.setStops {stops : List StopFrame}
    (same : stops.countP StopFrame.isSystem = s.stops.countP StopFrame.isSystem) :
    Evolves isOpen s { s with stops := stops } := .silent rfl same rfl

theorem Evolves.stopChildActor (force : Bool) :
    Evolves isOpen s (s.stopChildActor p k force) := by
  have child : k :: p ≠ [] := List.cons_ne_nil k p
  unfold Shard.stopChildActor
  split
  · rename_i o reached found
    split
    · exact .trans (.stopGroup child force) .disable
    · split
      · exact .disable
      · rename_i running
        have running' : o.stopping = false := by simpa using running
        split
        · refine .trans (.trans (.forceStop child found running' .refl rfl)
            (.work child .cancel)) (.setStops ?_)
          exact List.countP_cons_of_neg (by simp [StopFrame.isSystem])
        · exact .trans (.trans (.peaceStop child found running') .activateIdle) .disable
  · exact .refl

theorem Evolves.stopSelf (force : Bool) : Evolves isOpen s (s.stopSelf p force) := by
  cases p with
  | nil => exact .refl
  | cons k p => exact .stopChildActor force

/-! ## Runs -/

/-- The tasks of one actor change. -/
theorem Evolves.works {o : ActorObject} {a a' : ActorBody} (child : p ≠ [])
    (found : s.objs p = some o) (stored : o.core.work = some a) (works : Work a a')
    (after : s'.cores p = some { o.core with work := some a' })
    (others : ∀ q, q ≠ p → s'.cores q = s.cores q) (stops : s'.systemStops = s.systemStops)
    (quiet : Quiet s s') : Evolves isOpen s s' := by
  refine .at child ?_ others stops quiet
  rw [after, cores_of_objs found]
  exact .single (.turn (.work o.core stored works))

/-- The actor has taken its first task and runs it. -/
theorem Evolves.runTask {t : Shard} {o : ActorObject} {a : ActorBody} {task : Task}
    {rest : List Task} (child : p ≠ []) (found : s.objs p = some o)
    (stored : o.core.work = some a) (front : a.taskQueue = task :: rest)
    (taken : t.objs = (s.update p (·.setTasks fun _ => rest)).objs) (log : t.log = s.log)
    (stops : t.systemStops = s.systemStops) : Evolves isOpen s (t.runTask p task) := by
  have found' : t.objs p = some (o.setTasks fun _ => rest) := by
    rw [taken, objs_update_self, found, Option.map_some]
  have core' : (o.setTasks fun _ => rest).core =
      { o.core with work := some { a with taskQueue := rest } } := by
    rw [ActorObject.setTasks, ActorObject.core_mapActor, stored, Option.map_some]
  have others (q : Path) (other : q ≠ p) : t.cores q = s.cores q := by
    rw [cores, taken]
    exact cores_update_ne _ other
  cases task with
  | user =>
    refine .works child found stored (.user a rest front) ?_ others stops (.of_eq log)
    exact (cores_of_objs found').trans (congrArg some core')
  | reply msg failed =>
    refine .works child found stored (.reply a msg failed rest front) ?_ (fun q other => ?_) ?_ ?_
    · rw [Shard.runTask, Shard.addTask, cores_activate,
        cores_update_self (s := t.emit (.sent p (msg.reply failed))) found',
        ActorObject.setTasks, ActorObject.core_mapActor, core']
      rfl
    · rw [Shard.runTask, Shard.addTask, cores_activate, cores_update_ne _ other]
      exact others q other
    · rw [Shard.runTask, Shard.addTask, systemStops_activate]
      exact stops
    · refine .trans (.of_eq log) (.trans (.emit (e := .sent p (msg.reply failed)) rfl)
        (.of_eq ?_))
      rw [Shard.runTask, log_addTask]
  | post msg state =>
    have finished : Evolves isOpen s ((t.update p
        (·.mapActor fun a => { a with curConcurrency := a.curConcurrency - 1 })).reclaim msg) := by
      refine .works child found stored (.post a msg state rest front) ?_ (fun q other => ?_) ?_ ?_
      · rw [cores_reclaim, cores_update_self found', ActorObject.core_mapActor, core']
        rfl
      · rw [cores_reclaim, cores_update_ne _ other]
        exact others q other
      · exact stops
      · exact .trans (.of_eq log) (.emit (e := .reclaimed msg) rfl)
    unfold Shard.runTask
    simp only
    split
    · exact finished.trans (.stopSelf true)
    · exact finished

theorem Evolves.sleep (awake : Prop) [Decidable awake] :
    Evolves isOpen s (if awake then
      (s.leave.update p (·.setSched .schedulable)).activate p
      else s.leave.update p (·.setSched .schedulable)) := by
  have returned : Evolves isOpen s (s.leave.update p (·.setSched .schedulable)) :=
    .trans .leave (.update_same fun o _ => o.core_setSched _)
  split
  · exact returned.trans .activate
  · exact returned

/-- An actor that has returned is destroyed, or its object stays. -/
theorem finishActor_cases (finished : s.finishActor p k = some s') :
    (∃ sched stop a, s.objs (k :: p) = some ⟨sched, stop, [], .actor a⟩ ∧ stop ≠ .running ∧
      a.curConcurrency = 0 ∧ s' = (s.leave.notifyChildStopped p).destroy (k :: p)) ∨
    Evolves isOpen s s' := by
  cases finishesActor finished with
  | ends sched stop mailbox a found ends =>
    obtain ⟨stopping, none, rfl⟩ := ends
    exact .inl ⟨sched, stop, a, found, by simpa [ActorObject.stopping] using stopping, none, rfl⟩
  | stays sched stop mailbox a found lives =>
    exact .inr (.sleep _)

theorem finishGroup_cases (finished : s.finishGroup p k = some s') :
    (∃ sched stop g, s.objs (k :: p) = some ⟨sched, stop, [], .group g⟩ ∧ stop ≠ .running ∧
      g.children = 0 ∧ s' = (s.leave.acknowledge p k g).destroy (k :: p)) ∨
    Evolves isOpen s s' := by
  cases finishesGroup finished with
  | ends sched stop mailbox g found ends none =>
    obtain ⟨stopping, -, -, rfl⟩ := ends
    exact .inl ⟨sched, stop, g, found, by simpa [ActorObject.stopping] using stopping, none, rfl⟩
  | stays sched stop mailbox g found lives =>
    exact .inr (.sleep _)

theorem Evolves.enterChild {i : Nat} (entered : s.enterChild p i = some s') :
    Evolves isOpen s s' := by
  cases entersChild entered with
  | enters sched stop mailbox g k o found listed child =>
    have taken : Evolves isOpen s (s.update p (·.setActors (·.eraseIdx i))) :=
      .update_same fun o _ => o.core_setActors _
    split
    · exact .trans (taken.trans (.work (List.cons_ne_nil k p) .cancel)) (.silent rfl rfl rfl)
    · exact taken.trans (.silent rfl rfl rfl)

/-! ## Steps -/

/-- The actors whose stop a label enters with a message. -/
def opened (s : Shard) : Label → Path → Prop
  | .receive addr type _ _ => s.entersStop addr type
  | _ => fun _ => False

/-- The run of an actor ends with the label, whatever its mailbox holds. -/
def endsRun : Pc → Label → Bool
  | .inTask, .advance needYield _ => needYield
  | .worked, .advance needYield _ => needYield
  | .mail, .advance _ _ => true
  | _, _ => false

/-- What a step does. -/
inductive Passes (s : Shard) (label : Label) (s' : Shard) : Prop
  | quiet (evolves : Evolves (s.opened label) s s')
  | start {k : ActorKey} {p : Path} {rest : List RunFrame} {sched : SchedStatus}
      {stop : ActorStatus} {m : ActorMessage} {mailbox : List ActorMessage} {a : ActorBody}
      (idle : s.stops = []) (runs : s.runs = ⟨k :: p, .mail⟩ :: rest)
      (found : s.objs (k :: p) = some ⟨sched, stop, m :: mailbox, .actor a⟩)
      (user : m.type = .user)
      (result : s' = (((s.update (k :: p) (·.setMailbox mailbox)).setPc (.inWork m)).emit
        (.started m (k :: p))))
  | endActor {k : ActorKey} {p : Path} {pc : Pc} {rest : List RunFrame} {sched : SchedStatus}
      {stop : ActorStatus} {a : ActorBody} (idle : s.stops = [])
      (runs : s.runs = ⟨k :: p, pc⟩ :: rest) (ends : endsRun pc label = true)
      (found : s.objs (k :: p) = some ⟨sched, stop, [], .actor a⟩) (stopping : stop ≠ .running)
      (none : a.curConcurrency = 0)
      (result : s' = (s.leave.notifyChildStopped p).destroy (k :: p))
  | endGroup {t : Shard} {k : ActorKey} {p : Path} {sched : SchedStatus} {stop : ActorStatus}
      {g : GroupBody} (evolves : Evolves (s.opened label) s t) (grows : Grows s t)
      (idle : t.stops = []) (found : t.objs (k :: p) = some ⟨sched, stop, [], .group g⟩)
      (stopping : stop ≠ .running) (none : g.children = 0)
      (result : s' = (t.leave.acknowledge p k g).destroy (k :: p))
  | stopSystem {t : Shard} {force : Bool} {m : ActorMessage}
      (evolves : Evolves (s.opened label) s t) (grows : Grows s t)
      (running : t.rootStopping = false)
      (result : s' = { t.update [] (·.setStop force) with
        stops := .stopSystem force m :: t.stops })
  | endSystem {force : Bool} {m : ActorMessage} {rest : List StopFrame}
      (top : s.stops = .stopSystem force m :: rest) (ended : s.stopSystemEnd m rest = some s')

variable {label : Label}

theorem passes_finishGroup {t : Shard} (evolves : Evolves (s.opened label) s t)
    (grows : Grows s t) (idle : t.stops = []) (finished : t.finishGroup p k = some s') :
    Passes s label s' := by
  rcases finishGroup_cases finished with ⟨sched, stop, g, found, stopping, none, rfl⟩ | stays
  · exact .endGroup evolves grows idle found stopping none rfl
  · exact .quiet (evolves.trans stays)

theorem passes_finishActor {pc : Pc} {rest : List RunFrame} (idle : s.stops = [])
    (runs : s.runs = ⟨k :: p, pc⟩ :: rest) (ends : endsRun pc label = true)
    (finished : s.finishActor p k = some s') : Passes s label s' := by
  rcases finishActor_cases finished with ⟨sched, stop, a, found, stopping, none, rfl⟩ | stays
  · exact .endActor idle runs ends found stopping none rfl
  · exact .quiet stays

theorem Evolves.obeyStop {sched : SchedStatus} {stop : ActorStatus} {m : ActorMessage}
    {mailbox : List ActorMessage} {g : GroupBody} (isStop : m.isStop = true)
    (found : s.objs (k :: p) = some ⟨sched, stop, m :: mailbox, .group g⟩) :
    Evolves isOpen s (s.obeyStop p k m mailbox) := by
  have other : m.type ≠ .user := by
    intro user
    simp [ActorMessage.isStop, user] at isStop
  have taken : Evolves isOpen s (s.update (k :: p) (·.setMailbox mailbox)) := by
    refine .update_same fun o stored => ?_
    obtain rfl := Option.some.inj (found.symm.trans stored)
    rw [ActorObject.core_setMailbox, ActorObject.core, ActorObject.users,
      List.filter_cons_of_neg (by simpa using other)]
  exact .trans (taken.trans (.stopChildActor _))
    (.trans (.update_same fun o _ => o.core_mapGroup _) (.reclaim m))

theorem passes_groupMail {needYield : Bool} (idle : s.stops = [])
    (handled : s.groupMail p k needYield = some s') : Passes s label s' := by
  cases handlesGroupMail handled with
  | none sched stop g found => exact .quiet (.setPc _)
  | yields sched stop m mailbox g found isStop finished =>
    have idle' : (s.obeyStop p k m mailbox).stops = [] := (stops_obeyStop found).trans idle
    exact passes_finishGroup (.obeyStop isStop found) (grows_obeyStop m mailbox) idle' finished
  | goesOn sched stop m mailbox g found isStop => exact .quiet (.obeyStop isStop found)

theorem passes_groupTasks {i : Nat} (idle : s.stops = [])
    (ran : s.groupTasks p k i = some s') : Passes s label s' := by
  cases runsGroupTasks ran with
  | none sched stop mailbox g found none finished =>
    exact passes_finishGroup .refl (.of_eq rfl) idle finished
  | enters sched stop mailbox g found waiting entered =>
    exact .quiet (.trans (.setPc _) (.enterChild entered))

theorem Evolves.actorTasks (ran : s.actorTasks p k = some s') : Evolves isOpen s s' := by
  cases runsActorTasks ran with
  | next sched stop mailbox a found task tasks front =>
    exact .runTask (List.cons_ne_nil k p) found rfl front rfl rfl rfl
  | full sched stop mailbox a found none full =>
    exact .trans (.update_same fun o _ => o.core_setSched _) .leave
  | opens sched stop mailbox a found none free => exact .setPc _

theorem passes_actorMail {rest : List RunFrame} {needYield : Bool} {i : Nat}
    (idle : s.stops = []) (runs : s.runs = ⟨k :: p, .mail⟩ :: rest)
    (handled : s.actorMail p k = some s') : Passes s (.advance needYield i) s' := by
  cases handlesActorMail handled with
  | none sched stop a found finished => exact passes_finishActor idle runs rfl finished
  | starts sched stop m mailbox a found user => exact .start idle runs found user rfl
  | stops sched stop m mailbox a found force asked =>
    have other : m.type ≠ .user := by
      rw [asked]
      cases force <;> simp
    have taken : Evolves (s.opened (.advance needYield i)) s
        ((s.update (k :: p) (·.setMailbox mailbox)).setPc .worked) := by
      refine .trans (.update_same fun o stored => ?_) (.setPc _)
      obtain rfl := Option.some.inj (found.symm.trans stored)
      rw [ActorObject.core_setMailbox, ActorObject.core, ActorObject.users,
        List.filter_cons_of_neg (by simpa using other)]
    exact .quiet (.trans (taken.trans (.stopChildActor _)) (.reclaim m))

theorem Evolves.workDone {m : ActorMessage} {reply : Option Bool} {state : WorkState}
    (done : s.workDone p k m reply state = some s') : Evolves isOpen s s' := by
  have ended : Evolves isOpen s (s.worked (k :: p) m reply) := by
    cases reply with
    | none => exact (Evolves.setPc .worked).trans (.reclaim m)
    | some failed => exact (Evolves.trans (.emit rfl) (.setPc .worked)).trans (.reclaim m)
  rw [workDone_eq done]
  split
  · exact ended.trans (.stopChildActor true)
  · exact ended

/-- An actor with a method in flight is not destroyed. -/
theorem Evolves.workPending {m : ActorMessage} (pending : s.workPending p k m = some s') :
    Evolves isOpen s s' := by
  obtain ⟨sched, stop, mailbox, a, found, ends⟩ := workPending_cases pending
  have flying : Evolves isOpen s (s.update (k :: p) (·.mapActor fun a => { a with
      curConcurrency := a.curConcurrency + 1, inFlight := a.inFlight ++ [m] })) :=
    .work (List.cons_ne_nil k p) fun a => .suspend a m
  rcases ends with ⟨full, pending⟩ | ⟨free, rfl⟩
  · rcases finishActor_cases pending with ⟨sched', stop', a', found', -, none, -⟩ | stays
    · rw [objs_update_self, found, Option.map_some] at found'
      have more : a.curConcurrency + 1 = a'.curConcurrency :=
        congrArg ActorObject.curConcurrency (Option.some.inj found')
      rw [none] at more
      cases more
    · exact flying.trans stays
  · exact flying.trans (.setPc _)

theorem Evolves.cleanNext {running : Bool} {rest : List StopFrame}
    (top : s.stops = .clean (k :: p) running :: rest)
    (cleaned : s.cleanNext p k rest = some s') : Evolves isOpen s s' := by
  have same : rest.countP StopFrame.isSystem = s.stops.countP StopFrame.isSystem := by
    rw [top, List.countP_cons_of_neg (by simp [StopFrame.isSystem])]
  cases cleansNext cleaned with
  | next sched stop mailbox a found task tasks front =>
    refine .runTask (List.cons_ne_nil k p) found rfl front rfl rfl ?_
    exact (List.countP_cons_of_neg (by simp [StopFrame.isSystem])).trans same
  | ends sched stop mailbox a found none =>
    exact .trans (.trans (.setStops same) .activateIdle) .disable

/-- Only actors, and not the root, have tasks. -/
theorem ne_nil_of_actor {sched : SchedStatus} {stop : ActorStatus} {mailbox : List ActorMessage}
    {a : ActorBody} (valid : s.tree.Valid)
    (found : s.objs p = some ⟨sched, stop, mailbox, .actor a⟩) : p ≠ [] := by
  rintro rfl
  obtain ⟨n, root, group⟩ := valid.root
  rw [node_tree found] at root
  obtain rfl := Option.some.inj root
  cases group

theorem Evolves.complete {i : Nat} {reply : Option Bool} {state : WorkState}
    (valid : s.tree.Valid) (completed : s.complete p i reply state = some s') :
    Evolves isOpen s s' := by
  cases completes completed with
  | lands sched stop mailbox a found m flying =>
    have child := ne_nil_of_actor valid found
    have waits : reply.elim (.post m state) (.reply m) ≠ Task.user := by
      cases reply <;> simp
    refine .works child found rfl (.complete a i m _ flying waits) ?_ (fun q other => ?_) ?_
      (.of_eq ?_)
    · have landed : (s.update p (·.mapActor fun a => { a with
          inFlight := a.inFlight.eraseIdx i })).objs p =
          some ⟨sched, stop, mailbox, .actor { a with inFlight := a.inFlight.eraseIdx i }⟩ := by
        rw [objs_update_self, found, Option.map_some]
        rfl
      rw [Shard.addTask, cores_activate, cores_update_self landed]
      rfl
    · rw [Shard.addTask, cores_activate, cores_update_ne _ other, cores_update_ne _ other]
    · rw [Shard.addTask, systemStops_activate]
      rfl
    · rw [log_addTask, log_update]

theorem Evolves.setMaxConcurrency (valid : s.tree.Valid) (concurrency : Nat) :
    Evolves isOpen s
      (s.update p (·.mapActor fun a => { a with maxConcurrency := concurrency })) := by
  by_cases root : p = []
  · refine .update_same fun o found => ?_
    cases o with
    | mk sched stop mailbox body =>
      cases body with
      | group g => rfl
      | actor a => exact absurd root (ne_nil_of_actor valid found)
  · exact .work root fun a => .limit a concurrency

theorem passes_receive {addr : List ActorKey} {type : MessageType} {srcShardId prId : Nat}
    (valid : s.tree.Valid)
    (taken : s.userStep (.receive addr type srcShardId prId) = some s') :
    Passes s (.receive addr type srcShardId prId) s' := by
  obtain ⟨s₁, received, rfl⟩ := Option.map_eq_some_iff.mp taken
  cases addr with
  | cons k keys => exact .quiet (.trans (.receive valid received) (.silent rfl rfl rfl))
  | nil =>
    have stops (force : Bool) (m : ActorMessage) :
        Passes s (.receive [] type srcShardId prId)
          { s.stopActorSystem force m with nextMid := s.nextMid + 1 } := by
      unfold stopActorSystem
      split
      · exact .quiet (.trans (.reclaim m) (.silent rfl rfl rfl))
      · rename_i running
        have running' : s.rootStopping = false := by simpa using running
        exact .stopSystem (t := { s with nextMid := s.nextMid + 1 }) (.silent rfl rfl rfl)
          (.of_eq rfl) running' rfl
    cases receives received with
    | reply type => exact .quiet (.silent rfl rfl rfl)
    | stopSystem force asked => exact stops force _

theorem passes_userStep (valid : s.tree.Valid) (taken : s.userStep label = some s') :
    Passes s label s' := by
  cases label with
  | receive addr type srcShardId prId => exact passes_receive valid taken
  | addTask p urgent =>
    obtain ⟨⟨sched, stop, mailbox, a, found⟩, rfl⟩ := addTask_cases taken
    exact .quiet (.addTask (ne_nil_of_actor valid found) urgent)
  | complete p i reply state => exact .quiet (.complete valid taken)
  | setMaxConcurrency p concurrency =>
    obtain rfl := Option.some.inj taken
    exact .quiet (.setMaxConcurrency valid _)
  | dispatch | advance | workDone | workPending | stopNext => cases taken

theorem passes_runStep {frame : RunFrame} {rest : List RunFrame} (idle : s.stops = [])
    (runs : s.runs = frame :: rest)
    (taken : s.runStep frame label = some s') : Passes s label s' := by
  cases takesRunStep taken with
  | groupMail p k needYield i handled => exact passes_groupMail idle handled
  | groupTasks p k needYield i ran => exact passes_groupTasks idle ran
  | groupYields p k i finished => exact passes_finishGroup .refl (.of_eq rfl) idle finished
  | actorTasks p k needYield i ran => exact .quiet (.actorTasks ran)
  | taskYields p k i finished => exact passes_finishActor idle runs rfl finished
  | actorMail p k needYield i handled => exact passes_actorMail idle runs handled
  | workDone p k m reply state done => exact .quiet (.workDone done)
  | workPending p k m pending => exact .quiet (.workPending pending)
  | workYields p k i finished => exact passes_finishActor idle runs rfl finished
  | groupGoesOn | taskGoesOn | workGoesOn => exact .quiet (.setPc _)

theorem passes_stopStep {frame : StopFrame} {rest : List StopFrame}
    (top : s.stops = frame :: rest) (taken : s.stopStep frame rest label = some s') :
    Passes s label s' := by
  cases takesStopStep taken with
  | cleanNext p k running needYield i cleaned => exact .quiet (.cleanNext top cleaned)
  | stopNext force m k entry => exact .quiet (.stopChildActor _)
  | stopSystemEnd force needYield m i ended => exact .endSystem top ended

/-- What every step does. -/
theorem passes_step (valid : s.tree.Valid) (taken : s.step label = some s') :
    Passes s label s' := by
  cases takesStep taken with
  | user isUser point acted => exact passes_userStep valid acted
  | stop frame rest isUser top went => exact passes_stopStep top went
  | run frame rest isUser idle runs went => exact passes_runStep idle runs went
  | dispatch i idle runs entered => exact .quiet (.enterChild entered)

/-! ## What a step leaves -/

theorem log_notifyChildStopped :
    ∃ exits, (exits = [] ∨ exits = [.exited]) ∧
      (s.notifyChildStopped p).log = s.log ++ exits := by
  unfold notifyChildStopped
  simp only
  split
  · exact ⟨_, .inr rfl, rfl⟩
  · exact ⟨[], .inl rfl, (List.append_nil _).symm⟩

@[simp] theorem cores_notifyChildStopped : (s.notifyChildStopped p).cores = s.cores := by
  have same : (s.update p (·.mapGroup .drop)).cores = s.cores :=
    cores_update_same fun o _ => o.core_mapGroup _
  unfold notifyChildStopped
  simp only
  split
  · exact same
  · exact same

@[simp] theorem cores_acknowledge (g : GroupBody) : (s.acknowledge p k g).cores = s.cores := by
  unfold acknowledge
  split
  · exact cores_notifyChildStopped
  · exact cores_notifyChildStopped

theorem cores_destroy (q : Path) :
    (s.destroy p).cores q = if q = p then none else s.cores q := by
  unfold cores
  show (Function.update s.objs p none q).map _ = _
  rw [Function.update_apply]
  split
  · rfl
  · rfl

theorem cores_stopSystemEnd {m : ActorMessage} {rest : List StopFrame}
    (ended : s.stopSystemEnd m rest = some s') : s'.cores = s.cores := by
  cases endsSystem ended with
  | ends sched stop mailbox g root closed =>
    split
    · rfl
    · rfl

/-- A path below the root after a step. -/
theorem Passes.below (passes : Passes s label s') (child : p ≠ []) :
    Relation.ReflTransGen (Shift (s.opened label p)) (s.cores p) (s'.cores p) ∨
    (∃ c m users, s.cores p = some c ∧ c.users = m :: users ∧
      s'.cores p = some { c with users := users } ∧ s'.log = s.log ++ [.started m p]) ∨
    s'.cores p = none := by
  cases passes with
  | quiet evolves => exact .inl (evolves.below p child)
  | start idle runs found user result =>
    rename_i j q rest sched stop m mailbox a
    by_cases here : p = j :: q
    · right; left
      rw [here, result]
      refine ⟨_, m, mailbox.filter (·.type == .user), cores_of_objs found, ?_, ?_, rfl⟩
      · simp [ActorObject.core, ActorObject.users, user]
      · exact cores_update_self found _
    · left
      have same : s'.cores p = s.cores p := by
        rw [result]
        exact cores_update_ne _ here
      rw [same]
  | endActor idle runs ends found stopping none result =>
    rename_i j q pc rest sched stop a
    by_cases here : p = j :: q
    · right; right
      rw [result, cores_destroy, if_pos here]
    · left
      rw [result, cores_destroy, if_neg here, cores_notifyChildStopped, cores_leave]
  | endGroup evolves grows idle found stopping none result =>
    rename_i t j q sched stop g
    by_cases here : p = j :: q
    · right; right
      rw [result, cores_destroy, if_pos here]
    · left
      rw [result, cores_destroy, if_neg here, cores_acknowledge, cores_leave]
      exact evolves.below p child
  | stopSystem evolves grows running result =>
    rename_i t force m
    left
    have other : s'.cores p = t.cores p := by
      rw [result]
      exact cores_update_ne _ child
    rw [other]
    exact evolves.below p child
  | endSystem top ended =>
    left
    rw [cores_stopSystemEnd ended]

/-- A property of cores that turns keep. -/
theorem keeps_of_shifts {P : Core → Prop} {isOpen : Prop} {c c' : Option Core}
    (fresh : ∀ limitOf k, P (ActorObject.create limitOf k).core)
    (turns : ∀ d d', P d → Turn isOpen d d' → P d')
    (shifts : Relation.ReflTransGen (Shift isOpen) c c') (before : ∀ d ∈ c, P d) :
    ∀ d ∈ c', P d := by
  induction shifts with
  | refl => exact before
  | tail _ shift ih =>
    cases shift with
    | create limitOf k =>
      intro d member
      obtain rfl := Option.some.inj member
      exact fresh limitOf k
    | turn turn =>
      intro d member
      obtain rfl := Option.some.inj member
      exact turns _ _ (ih _ rfl) turn

/-- A property of cores that turns keep, and that does not read the first message, holds below
the root in every reachable state. -/
theorem Passes.keeps {P : Core → Prop} (passes : Passes s label s')
    (fresh : ∀ limitOf k, P (ActorObject.create limitOf k).core)
    (turns : ∀ q d d', P d → Turn (s.opened label q) d d' → P d')
    (takes : ∀ (c : Core) m users, P c → c.users = m :: users → P { c with users := users })
    (before : ∀ q, q ≠ [] → ∀ c ∈ s.cores q, P c) (q : Path) (child : q ≠ []) :
    ∀ c ∈ s'.cores q, P c := by
  rcases passes.below child with shifts | ⟨c, m, users, stored, first, after, -⟩ | gone
  · exact keeps_of_shifts fresh (turns q) shifts (before q child)
  · intro d member
    rw [after] at member
    obtain rfl := Option.some.inj member
    exact takes c m users (before q child c stored) first
  · intro d member
    rw [gone] at member
    cases member

theorem Quiet.count {e : Event} (quiet : Quiet s s') (loud : e.isLoud = true) :
    s'.log.count e = s.log.count e := by
  obtain ⟨new, log, silent⟩ := quiet
  have none : new.count e = 0 := by
    refine List.count_eq_zero.mpr fun member => ?_
    rw [silent e member] at loud
    cases loud
  rw [log, List.count_append, none, Nat.add_zero]

theorem log_stopSystemEnd {m : ActorMessage} {rest : List StopFrame}
    (ended : s.stopSystemEnd m rest = some s') :
    ∃ exits, (exits = [] ∨ exits = [.exited]) ∧
      s'.log = s.log ++ (exits ++ [.reclaimed m]) := by
  cases endsSystem ended with
  | ends sched stop mailbox g root closed =>
    split
    · exact ⟨_, .inr rfl, List.append_assoc ..⟩
    · exact ⟨[], .inl rfl, rfl⟩

/-- Only the mailbox loop of an actor hands a message to `do_work`. -/
theorem Passes.started (passes : Passes s label s') (m : ActorMessage) (p : Path) :
    s'.log.count (.started m p) = s.log.count (.started m p) ∨
    ∃ sched stop mailbox a rest, s.objs p = some ⟨sched, stop, m :: mailbox, .actor a⟩ ∧
      m.type = .user ∧ s.runs = ⟨p, .mail⟩ :: rest := by
  have exits (log : List Event) {more : List Event} (which : more = [] ∨ more = [.exited]) :
      (log ++ more).count (.started m p) = log.count (.started m p) := by
    rw [List.count_append]
    rcases which with rfl | rfl
    · rfl
    · rfl
  have destroys (t : Shard) (q : Path) :
      (t.destroy q).log.count (.started m p) = t.log.count (.started m p) := by
    exact List.count_append.trans rfl
  cases passes with
  | quiet evolves => exact .inl (evolves.quiet.count rfl)
  | start idle runs found user result =>
    rename_i j q rest sched stop m' mailbox a
    by_cases same : Event.started m' (j :: q) = .started m p
    · obtain ⟨rfl, rfl⟩ := Event.started.inj same
      exact .inr ⟨sched, stop, mailbox, a, rest, found, user, runs⟩
    · left
      rw [result, log_emit, List.count_append, List.count_singleton, if_neg (by simpa using same)]
      rfl
  | endActor idle runs ends found stopping none result =>
    left
    obtain ⟨more, which, log⟩ := log_notifyChildStopped (s := s.leave)
    rw [result, destroys, log, exits _ which, log_leave]
  | endGroup evolves grows idle found stopping none result =>
    rename_i t j q sched stop g
    left
    obtain ⟨more, which, log⟩ := log_notifyChildStopped (s := t.leave) (p := q)
    rw [result, destroys, ← evolves.quiet.count rfl]
    unfold acknowledge
    split
    · rw [(Quiet.emit rfl).count rfl, log, exits _ which, log_leave]
    · rw [log, exits _ which, log_leave]
  | stopSystem evolves grows running result =>
    left
    rw [← evolves.quiet.count rfl, result]
    rfl
  | endSystem top ended =>
    left
    obtain ⟨more, which, log⟩ := log_stopSystemEnd ended
    rw [log, ← List.append_assoc, List.count_append, exits s.log which]
    rfl

end Shard

end Hiactor
