import Hiactor.Lib.Totals
import Hiactor.Core.Proofs.Wakeups

/-!
# The work of a shard

What a shard has to do by itself is weighed: the messages in the mailboxes, the continuations, the
methods in flight, the children that can still be stopped and the stops in progress. No operation
of the framework adds to it. A group that stops pays for the messages to its children with the
weight of their entries, and an actor that stops pays for its frame with its own.
-/

namespace Hiactor

open Lib

/-! ## Weights -/

/-- A continuation that sends a response leaves one more behind. -/
def Task.weight : Task → Nat
  | .user => 1
  | .reply _ _ => 2
  | .post _ _ => 1

def Body.weight (stopping : Bool) : Body → Nat
  | .group g => g.actorInstMap.countP (·.2) * if stopping then 1 else 6
  | .actor a => (a.taskQueue.map Task.weight).sum + 3 * a.inFlight.length +
      if stopping then 0 else 2

namespace ActorObject

def weight (o : ActorObject) : Nat := 5 * o.mailbox.length + o.body.weight o.stopping

variable (o : ActorObject)

theorem weight_actor (sched : SchedStatus) (stop : ActorStatus) (mailbox : List ActorMessage)
    (a : ActorBody) : weight ⟨sched, stop, mailbox, .actor a⟩ = 5 * mailbox.length +
      ((a.taskQueue.map Task.weight).sum + 3 * a.inFlight.length +
        if stop != .running then 0 else 2) := rfl

@[simp] theorem weight_setSched (status : SchedStatus) : (o.setSched status).weight = o.weight :=
  rfl

theorem weight_setMailbox (mailbox : List ActorMessage) :
    (o.setMailbox mailbox).weight + 5 * o.mailbox.length = o.weight + 5 * mailbox.length := by
  unfold weight
  show 5 * mailbox.length + _ + 5 * o.mailbox.length = _
  rw [show (o.setMailbox mailbox).stopping = o.stopping from rfl,
    show (o.setMailbox mailbox).body = o.body from rfl]
  omega

theorem weight_mapGroup {f : GroupBody → GroupBody}
    (same : ∀ g, (f g).actorInstMap = g.actorInstMap) : (o.mapGroup f).weight = o.weight := by
  cases o with
  | mk sched stop mailbox body =>
    cases body with
    | actor a => rfl
    | group g =>
      show _ + (f g).actorInstMap.countP _ * _ = _ + g.actorInstMap.countP _ * _
      rw [same g]
      rfl

@[simp] theorem weight_setActors (f : List ActorKey → List ActorKey) :
    (o.setActors f).weight = o.weight := o.weight_mapGroup fun _ => rfl

theorem weight_cancel (task : Task) : task.cancel.weight = task.weight := by
  cases task <;> rfl

@[simp] theorem weight_setTasks_cancel :
    (o.setTasks (List.map Task.cancel)).weight = o.weight := by
  cases o with
  | mk sched stop mailbox body =>
    cases body with
    | group g => rfl
    | actor a =>
      have same : Task.weight ∘ Task.cancel = Task.weight := funext weight_cancel
      show _ + (((a.taskQueue.map Task.cancel).map Task.weight).sum + _ + _) = _
      rw [List.map_map, same]
      rfl

/-- An entry that becomes null. -/
theorem countP_disable {k : ActorKey} {map : List (ActorKey × Bool)} :
    ((k, false) :: map.filter (·.1 != k)).countP (·.2) ≤ map.countP (·.2) := by
  rw [List.countP_cons_of_neg (by simp)]
  exact (List.filter_sublist ..).countP_le

theorem countP_disable_lt {k : ActorKey} {map : List (ActorKey × Bool)}
    (reached : map.lookup k = some true) :
    ((k, false) :: map.filter (·.1 != k)).countP (·.2) < map.countP (·.2) := by
  obtain ⟨before, after, rfl, -⟩ := List.lookup_eq_some_iff.mp reached
  rw [List.countP_cons_of_neg (by simp), List.filter_append, List.filter_cons_of_neg (by simp),
    List.countP_append, List.countP_append, List.countP_cons_of_pos rfl]
  have early := (List.filter_sublist (l := before) (p := (·.1 != k))).countP_le (p := (·.2))
  have late := (List.filter_sublist (l := after) (p := (·.1 != k))).countP_le (p := (·.2))
  omega

theorem weight_disable (k : ActorKey) : (o.setEntry k false).weight ≤ o.weight := by
  cases o with
  | mk sched stop mailbox body =>
    cases body with
    | actor a => exact le_rfl
    | group g =>
      exact Nat.add_le_add_left (Nat.mul_le_mul_right _ countP_disable) _

theorem weight_disable_lt {k : ActorKey} (reached : o.entry k = some true) :
    (o.setEntry k false).weight < o.weight := by
  cases o with
  | mk sched stop mailbox body =>
    cases body with
    | actor a => cases reached
    | group g =>
      refine Nat.add_lt_add_left (Nat.mul_lt_mul_of_pos_right (countP_disable_lt reached) ?_) _
      split
      · exact Nat.one_pos
      · exact Nat.succ_pos 5

/-- The children of a group that begins to stop weigh less. -/
theorem weight_stop_group {sched : SchedStatus} {stop : ActorStatus} {mailbox : List ActorMessage}
    {g : GroupBody} (running : ActorObject.stopping ⟨sched, stop, mailbox, .group g⟩ = false)
    (force : Bool) : (ActorObject.setStop ⟨sched, stop, mailbox, .group g⟩ force).weight +
      5 * g.actorInstMap.countP (·.2) = ActorObject.weight ⟨sched, stop, mailbox, .group g⟩ := by
  have before : ActorObject.weight ⟨sched, stop, mailbox, .group g⟩ =
      5 * mailbox.length + g.actorInstMap.countP (·.2) * 6 := by
    unfold weight
    rw [running]
    rfl
  have after : (ActorObject.setStop ⟨sched, stop, mailbox, .group g⟩ force).weight =
      5 * mailbox.length + g.actorInstMap.countP (·.2) * 1 := by
    unfold weight
    rw [stopping_setStop]
    rfl
  omega

theorem weight_stop_actor (actor : o.isGroup = false) (running : o.stopping = false)
    (force : Bool) : (o.setStop force).weight + 2 = o.weight := by
  unfold weight
  rw [stopping_setStop, running]
  obtain ⟨sched, stop, mailbox, body⟩ := o
  cases body with
  | group g => cases actor
  | actor a => rfl

theorem weight_mapActor {f : ActorBody → ActorBody} (tasks : ∀ a, (f a).taskQueue = a.taskQueue)
    (flying : ∀ a, (f a).inFlight = a.inFlight) : (o.mapActor f).weight = o.weight := by
  obtain ⟨sched, stop, mailbox, body⟩ := o
  cases body with
  | group g => rfl
  | actor a =>
    show _ + (((f a).taskQueue.map Task.weight).sum + 3 * (f a).inFlight.length + _) = _
    rw [tasks, flying]
    rfl

theorem weight_addTask (task : Task) (urgent : Bool) :
    (o.setTasks fun q => if urgent then task :: q else q ++ [task]).weight ≤
      o.weight + task.weight := by
  obtain ⟨sched, stop, mailbox, body⟩ := o
  cases body with
  | group g => exact Nat.le_add_right ..
  | actor a =>
    have sum : ((if urgent then task :: a.taskQueue else a.taskQueue ++ [task]).map
        Task.weight).sum = (a.taskQueue.map Task.weight).sum + task.weight := by
      cases urgent with
      | true => exact (List.sum_cons ..).trans (Nat.add_comm ..)
      | false => simp
    have after := weight_actor sched stop mailbox { a with
      taskQueue := if urgent then task :: a.taskQueue else a.taskQueue ++ [task] }
    have before := weight_actor sched stop mailbox a
    simp only [sum] at after
    show weight ⟨sched, stop, mailbox, .actor { a with
      taskQueue := if urgent then task :: a.taskQueue else a.taskQueue ++ [task] }⟩ ≤ _
    omega

/-- The keys of the children that a group has had. -/
def keys (o : ActorObject) : List ActorKey := match o.body with
  | .group g => g.actorInstMap.map Prod.fst
  | .actor _ => []

end ActorObject

def Pc.weight : Pc → Nat
  | .inWork _ => 4
  | _ => 0

/-- The work of a shard whose objects are at `points`. -/
def Shard.work (points : Finset Path) (s : Shard) : Nat :=
  total points (fun _ => ActorObject.weight) s.objs + (s.runs.map (·.pc.weight)).sum +
    s.stops.length

/-- What the framework makes of the object at `p`: the only messages that it adds are stop messages,
and the root gets none. -/
structure Lessens (p : Path) (o o' : ActorObject) : Prop where
  isGroup : o'.isGroup = o.isGroup
  mail : ∀ m ∈ o'.mailbox, m ∈ o.mailbox ∨ p ≠ [] ∧ m.isStop = true
  keys : o.keys.Nodup → o'.keys.Nodup

namespace Lessens

variable {p : Path} (o : ActorObject)

theorem refl : Lessens p o o := ⟨rfl, fun _ member => .inl member, id⟩

theorem trans {o o' o'' : ActorObject} (first : Lessens p o o') (second : Lessens p o' o'') :
    Lessens p o o'' where
  isGroup := second.isGroup.trans first.isGroup
  mail := fun m member => (second.mail m member).elim (first.mail m) .inr
  keys := second.keys ∘ first.keys

theorem setSched (status : SchedStatus) : Lessens p o (o.setSched status) :=
  ⟨rfl, fun _ member => .inl member, id⟩

theorem setStop (force : Bool) : Lessens p o (o.setStop force) :=
  ⟨rfl, fun _ member => .inl member, id⟩

theorem setMailbox {mailbox : List ActorMessage} (fewer : mailbox ⊆ o.mailbox) :
    Lessens p o (o.setMailbox mailbox) := ⟨rfl, fun _ member => .inl (fewer member), id⟩

theorem urge (below : p ≠ []) {m : ActorMessage} (stop : m.isStop = true) :
    Lessens p o (o.setMailbox (m :: o.mailbox)) := by
  refine ⟨rfl, fun m' member => ?_, id⟩
  rcases List.mem_cons.mp member with rfl | old
  · exact .inr ⟨below, stop⟩
  · exact .inl old

theorem mapGroup {f : GroupBody → GroupBody}
    (keys : ∀ g, (g.actorInstMap.map Prod.fst).Nodup → ((f g).actorInstMap.map Prod.fst).Nodup) :
    Lessens p o (o.mapGroup f) := by
  cases o with
  | mk sched stop mailbox body =>
    cases body with
    | group g => exact ⟨rfl, fun _ member => .inl member, keys g⟩
    | actor a => exact ⟨rfl, fun _ member => .inl member, id⟩

theorem mapActor (f : ActorBody → ActorBody) : Lessens p o (o.mapActor f) := by
  cases o with
  | mk sched stop mailbox body => cases body <;> exact ⟨rfl, fun _ member => .inl member, id⟩

theorem setEntry (k : ActorKey) (reached : Bool) : Lessens p o (o.setEntry k reached) := by
  refine .mapGroup o fun g nodup => List.nodup_cons.mpr ⟨?_, ?_⟩
  · simp
  · exact nodup.sublist (List.filter_sublist.map _)

end Lessens

namespace Shard

/-- A change by the framework that adds `d` to the work at most. -/
structure Wanes (points : Finset Path) (d : ℤ) (s s' : Shard) : Prop where
  lessens : ∀ {p o'}, s'.objs p = some o' → ∃ o, s.objs p = some o ∧ Lessens p o o'
  work : Within points s.objs → (s'.work points : ℤ) ≤ s.work points + d

variable {points : Finset Path} {d e : ℤ} {s s' : Shard} {p : Path} {k : ActorKey}
  {o : ActorObject} {rest : List RunFrame} {pc : Pc}

namespace Wanes

theorem within (wanes : Wanes points d s s') (within : Within points s.objs) :
    Within points s'.objs := by
  refine within.mono fun p live => ?_
  obtain ⟨o', found⟩ := Option.isSome_iff_exists.mp live
  obtain ⟨o, stored, -⟩ := wanes.lessens found
  rw [stored]
  rfl

theorem trans {s'' : Shard} (first : Wanes points d s s') (second : Wanes points e s' s'') :
    Wanes points (d + e) s s'' where
  lessens := by
    intro p o'' found
    obtain ⟨o', stored, later⟩ := second.lessens found
    obtain ⟨o, stored', earlier⟩ := first.lessens stored
    exact ⟨o, stored', earlier.trans later⟩
  work := fun within => by
    have one := first.work within
    have two := second.work (first.within within)
    omega

theorem mono (wanes : Wanes points d s s') (more : d ≤ e) : Wanes points e s s' :=
  ⟨wanes.lessens, fun within => (wanes.work within).trans (Int.add_le_add_left more _)⟩

/-- The objects stay. -/
theorem of_objs (same : s'.objs = s.objs)
    (work : ((s'.runs.map (·.pc.weight)).sum + s'.stops.length : ℤ) ≤
      (s.runs.map (·.pc.weight)).sum + s.stops.length + d) : Wanes points d s s' where
  lessens := fun {p o'} found => ⟨o', same ▸ found, .refl o'⟩
  work := fun _ => by
    unfold Shard.work
    rw [same]
    omega

theorem silent (objs : s'.objs = s.objs) (runs : s'.runs = s.runs) (stops : s'.stops = s.stops) :
    Wanes points 0 s s' :=
  .of_objs objs (by rw [runs, stops, Int.add_zero])

theorem refl : Wanes points 0 s s := .silent rfl rfl rfl

theorem emit (e : Event) : Wanes points 0 s (s.emit e) := .silent rfl rfl rfl

theorem reclaim (m : ActorMessage) : Wanes points 0 s (s.reclaim m) := .emit _

theorem leave (runs : s.runs = ⟨p, pc⟩ :: rest) : Wanes points (-pc.weight) s s.leave := by
  refine .of_objs rfl ?_
  have left : s.leave.runs = rest := by rw [Shard.leave, runs, List.tail_cons]
  rw [left, runs, List.map_cons, List.sum_cons]
  show _ + (s.stops.length : ℤ) ≤ _
  simp only [Nat.cast_add]
  omega

theorem setPc (runs : s.runs = ⟨p, pc⟩ :: rest) (pc' : Pc) :
    Wanes points (pc'.weight - pc.weight) s (s.setPc pc') := by
  refine .of_objs rfl ?_
  have now : (s.setPc pc').runs = ⟨p, pc'⟩ :: rest := by simp [Shard.setPc, runs]
  rw [now, runs, List.map_cons, List.sum_cons, List.map_cons, List.sum_cons]
  show _ + (s.stops.length : ℤ) ≤ _
  simp only [Nat.cast_add]
  omega

/-- The object at a path is replaced. -/
theorem put {o' : ActorObject} (found : s.objs p = some o)
    (objs : s'.objs = Function.update s.objs p (some o')) (runs : s'.runs = s.runs)
    (stops : s'.stops = s.stops) (lessens : Lessens p o o')
    (weighs : (o'.weight : ℤ) ≤ o.weight + d) :
    Wanes points d s s' where
  lessens := by
    intro q c found'
    rw [objs, Function.update_apply] at found'
    split at found'
    · next here =>
      subst here
      obtain rfl := Option.some.inj found'
      exact ⟨o, found, lessens⟩
    · exact ⟨c, found', .refl c⟩
  work := fun within => by
    have changed : total points (fun _ => ActorObject.weight) s'.objs + o.weight =
        total points (fun _ => ActorObject.weight) s.objs + o'.weight := by
      rw [objs]
      exact total_update within found _
    unfold Shard.work
    rw [runs, stops]
    omega

theorem change {f : ActorObject → ActorObject} (found : s.objs p = some o)
    (lessens : Lessens p o (f o)) (weighs : ((f o).weight : ℤ) ≤ o.weight + d) :
    Wanes points d s (s.update p f) := by
  refine .put found ?_ rfl rfl lessens weighs
  show Function.update s.objs p ((s.objs p).map f) = _
  rw [found, Option.map_some]

theorem update {f : ActorObject → ActorObject} (lessens : ∀ o, Lessens p o (f o))
    (weighs : ∀ o, ((f o).weight : ℤ) ≤ o.weight + d) (more : 0 ≤ d) :
    Wanes points d s (s.update p f) := by
  cases found : s.objs p with
  | some o => exact .change found (lessens o) (weighs o)
  | none =>
    refine Wanes.mono (.silent ?_ rfl rfl) more
    show Function.update s.objs p ((s.objs p).map f) = _
    rw [found, Option.map_none, ← found, Function.update_eq_self]

/-- A change that keeps the weight of the object. -/
theorem same {f : ActorObject → ActorObject} (lessens : ∀ o, Lessens p o (f o))
    (weighs : ∀ o, (f o).weight = o.weight) : Wanes points 0 s (s.update p f) :=
  .update lessens (fun o => by rw [weighs o, Int.add_zero]) le_rfl

theorem setSched (status : SchedStatus) : Wanes points 0 s (s.update p (·.setSched status)) :=
  .same (fun o => .setSched o status) fun o => o.weight_setSched status

theorem setActors (f : List ActorKey → List ActorKey) :
    Wanes points 0 s (s.update p (·.setActors f)) :=
  .same (fun o => .mapGroup o fun _ => id) fun o => o.weight_setActors f

theorem cancel : Wanes points 0 s (s.update p (·.setTasks (List.map Task.cancel))) :=
  .same (fun o => .mapActor o _) fun o => o.weight_setTasks_cancel

theorem activate : Wanes points 0 s (s.activate p) := by
  refine activate_induction (motive := fun t => Wanes points 0 s t) s p .refl ?_
  intro t k q wanes
  exact (wanes.trans (.setSched .scheduled)).trans (.setActors _)

/-- A group tells a child to stop. -/
theorem urge {m : ActorMessage} (stop : m.isStop = true) :
    Wanes points 5 s (s.enqueUrgentMessage (k :: p) m) := by
  have put : Wanes points 5 s (s.update (k :: p) fun o => o.setMailbox (m :: o.mailbox)) := by
    refine .update (fun o => .urge o (List.cons_ne_nil k p) stop) (fun o => ?_) (by decide)
    have weight := o.weight_setMailbox (m :: o.mailbox)
    rw [List.length_cons] at weight
    omega
  exact put.trans .activate

theorem cleanMailbox : Wanes points 0 s (s.cleanMailbox p) := by
  unfold Shard.cleanMailbox
  split
  · next o found =>
    have emptied : Wanes points 0 s (s.update p (·.setMailbox [])) := by
      refine .update (fun o => .setMailbox o (List.nil_subset _)) (fun o => ?_) le_rfl
      have weight := o.weight_setMailbox []
      rw [List.length_nil] at weight
      omega
    exact emptied.trans (e := 0) (.silent rfl rfl rfl)
  · exact .refl

theorem activateIdle : Wanes points 0 s (s.activateIdle p) := by
  unfold Shard.activateIdle
  split
  · split
    · exact .activate
    · exact .refl
  · exact .refl

theorem disable : Wanes points 0 s (s.disable p k) := by
  have nulled : Wanes points 0 s (s.update p (·.setEntry k false)) := by
    refine .update (fun o => .setEntry o k false) (fun o => ?_) le_rfl
    have weight := o.weight_disable k
    omega
  exact nulled.trans (.emit _)

/-- The entry of a child that could be stopped becomes null. -/
theorem disable_reached (found : s.objs p = some o) (reached : o.entry k = some true) :
    Wanes points (-1) s (s.disable p k) := by
  have nulled : Wanes points (-1) s (s.update p (·.setEntry k false)) := by
    refine .change found (.setEntry o k false) ?_
    have weight := o.weight_disable_lt reached
    omega
  exact nulled.trans (.emit _)

/-! ### Stops -/

theorem tellAll {m : ActorMessage} (stop : m.isStop = true) (children : List (ActorKey × Bool)) :
    Wanes points (5 * children.length) s
      (children.foldl (fun s child => s.enqueUrgentMessage (child.1 :: p) m) s) := by
  induction children generalizing s with
  | nil => exact .refl
  | cons child children ih =>
    have told : Wanes points 5 s (s.enqueUrgentMessage (child.1 :: p) m) := .urge stop
    refine (told.trans ih).mono ?_
    rw [List.length_cons]
    omega

theorem stopAllChildren {sched : SchedStatus} {stop : ActorStatus} {mailbox : List ActorMessage}
    {g : GroupBody} (found : s.objs p = some ⟨sched, stop, mailbox, .group g⟩) (force : Bool) :
    Wanes points (5 * g.actorInstMap.countP (·.2)) s (s.stopAllChildren p force) := by
  unfold Shard.stopAllChildren
  simp only [found]
  rw [List.countP_eq_length_filter]
  exact tellAll (Sched.isStop_stopMessage force) _

/-- The lighter entries of a group that stops pay for the messages to its children. -/
theorem stopGroup (group : o.isGroup = true) (found : s.objs p = some o) (force : Bool) :
    Wanes points 0 s (s.stopGroup p force) := by
  unfold Shard.stopGroup
  rw [found]
  simp only
  split
  · exact .refl
  · next running =>
    have told : Wanes points 0 s ((s.update p (·.setStop force)).stopAllChildren p force) := by
      obtain ⟨sched, stop, mailbox, body⟩ := o
      cases body with
      | actor a => cases group
      | group g =>
        have weight : (ActorObject.setStop ⟨sched, stop, mailbox, .group g⟩ force).weight +
            5 * g.actorInstMap.countP (·.2) =
              ActorObject.weight ⟨sched, stop, mailbox, .group g⟩ :=
          ActorObject.weight_stop_group (Bool.eq_false_of_not_eq_true running) force
        have stopped : Wanes points (-(5 * g.actorInstMap.countP (·.2))) s
            (s.update p (·.setStop force)) := .change found (.setStop _ force) (by omega)
        have stored : (s.update p (·.setStop force)).objs p =
            some ⟨sched, if force then .forceStopping else .peaceStopping, mailbox, .group g⟩ := by
          rw [objs_update_self, found]
          rfl
        exact (stopped.trans (.stopAllChildren stored force)).mono (by omega)
    cases force with
    | true =>
      have cleaned := told.trans (cleanMailbox (p := p))
      simp only [if_true]
      split
      · exact cleaned.trans .activate
      · exact cleaned
    | false =>
      simp only [Bool.false_eq_true, if_false]
      split
      · exact told.trans .activate
      · exact told

/-- The stop of a child that is reached takes some work away. -/
theorem stopChildActor_reached {c : ActorObject} (found : s.objs p = some o)
    (reached : o.entry k = some true) (child : s.objs (k :: p) = some c) (force : Bool) :
    Wanes points (-1) s (s.stopChildActor p k force) := by
  have entry : s.entry p k = some true := by rw [Shard.entry, found, Option.bind_some, reached]
  have apart : p ≠ k :: p := (List.cons_ne_self k p).symm
  unfold Shard.stopChildActor
  rw [entry, child]
  simp only
  split
  · next group =>
    have stored : (s.stopGroup (k :: p) force).tree.node p = some o.node := by
      rw [tree_stopGroup child force]
      exact (Function.update_of_ne apart ..).trans (node_tree found)
    obtain ⟨o', found', same⟩ := exists_of_node stored
    refine (stopGroup group child force).trans (.disable_reached found' ?_)
    exact (congrFun (congrArg TreeNode.entry same) k).trans reached
  · next actor =>
    split
    · exact .disable_reached found reached
    · next running =>
      have weight (force : Bool) := c.weight_stop_actor
        (Bool.eq_false_of_not_eq_true actor) (Bool.eq_false_of_not_eq_true running) force
      have stopped (force : Bool) : Wanes points (-2) s (s.update (k :: p) (·.setStop force)) :=
        .change child (.setStop c force) (by have := weight force; omega)
      split
      · have cleaned := ((stopped true).trans (cleanMailbox (p := k :: p))).trans
          (cancel (p := k :: p))
        refine cleaned.trans (e := 1) (.of_objs rfl ?_)
        show _ + (List.length (_ :: _) : ℤ) ≤ _ + _ + 1
        rw [List.length_cons]
        simp only [Nat.cast_add]
        omega
      · have idle := ((stopped false).trans (activateIdle (p := k :: p))).trans
          (disable (p := p) (k := k))
        exact idle.mono (by decide)

theorem stopChildActor (force : Bool) : Wanes points 0 s (s.stopChildActor p k force) := by
  cases found : s.objs p with
  | none =>
    have same : s.stopChildActor p k force = s := by
      simp [Shard.stopChildActor, Shard.entry, found]
    rw [same]
    exact .refl
  | some o =>
    by_cases reached : o.entry k = some true
    · cases child : s.objs (k :: p) with
      | none =>
        have same : s.stopChildActor p k force = s := by
          unfold Shard.stopChildActor
          rw [child]
          split
          · next c _ stored => cases stored
          · rfl
        rw [same]
        exact .refl
      | some c => exact (stopChildActor_reached found reached child force).mono (by decide)
    · have same : s.stopChildActor p k force = s := by
        unfold Shard.stopChildActor
        split
        · next c entry _ =>
          rw [Shard.entry, found, Option.bind_some] at entry
          exact absurd entry reached
        · rfl
      rw [same]
      exact .refl

theorem stopSelf (force : Bool) : Wanes points 0 s (s.stopSelf p force) := by
  cases p with
  | nil => exact .refl
  | cons k p => exact .stopChildActor force

/-! ### Runs -/

theorem addTask (task : Task) (urgent : Bool) :
    Wanes points task.weight s (s.addTask p task urgent) := by
  have added : Wanes points task.weight s
      (s.update p (·.setTasks fun q => if urgent then task :: q else q ++ [task])) := by
    refine .update (fun o => .mapActor o _) (fun o => ?_) (Int.natCast_nonneg _)
    have weight := o.weight_addTask task urgent
    omega
  exact (added.trans .activate).mono (by omega)

/-- A continuation that was taken runs. -/
theorem runTask (task : Task) : Wanes points (task.weight - 1) s (s.runTask p task) := by
  cases task with
  | user => exact .refl
  | reply msg failed => exact ((Wanes.emit _).trans (.addTask _ _)).mono (le_refl (1 : ℤ))
  | post msg state =>
    have ended : Wanes points 0 s ((s.update p
        (·.mapActor fun a => { a with curConcurrency := a.curConcurrency - 1 })).reclaim msg) := by
      have counted : Wanes points 0 s (s.update p
          (·.mapActor fun a => { a with curConcurrency := a.curConcurrency - 1 })) := by
        refine .same (fun o => .mapActor o _) fun o => ?_
        exact o.weight_mapActor (fun _ => rfl) fun _ => rfl
      exact counted.trans (.reclaim msg)
    show Wanes points 0 s _
    unfold Shard.runTask
    simp only
    split
    · exact ended.trans (.stopSelf true)
    · exact ended

theorem notifyChildStopped : Wanes points 0 s (s.notifyChildStopped p) := by
  have counted : Wanes points 0 s (s.update p (·.mapGroup .drop)) :=
    .same (fun o => .mapGroup o fun _ => id) fun o => o.weight_mapGroup fun _ => rfl
  unfold Shard.notifyChildStopped
  simp only
  split
  · exact counted.trans (.emit _)
  · exact counted

theorem destroy : Wanes points 0 s (s.destroy p) where
  lessens := by
    intro q o found
    have stored : Function.update s.objs p none q = some o := found
    rw [Function.update_apply] at stored
    split at stored
    · cases stored
    · exact ⟨o, stored, .refl o⟩
  work := fun within => by
    have less : total points (fun _ => ActorObject.weight) (Function.update s.objs p none) ≤
        total points (fun _ => ActorObject.weight) s.objs := by
      cases found : s.objs p with
      | none => rw [← found, Function.update_eq_self]
      | some o =>
        have changed : total points (fun _ => ActorObject.weight) (Function.update s.objs p none) +
            o.weight = total points (fun _ => ActorObject.weight) s.objs :=
          total_update within found none
        omega
    show ((total points (fun _ => ActorObject.weight) (Function.update s.objs p none) +
      (s.runs.map (·.pc.weight)).sum + s.stops.length : ℕ) : ℤ) ≤ _
    unfold Shard.work
    omega

/-- An object sleeps, and is activated again when it has something to do. -/
theorem sleep (awake : Prop) [Decidable awake] :
    Wanes points 0 s (if awake then (s.update p (·.setSched .schedulable)).activate p
      else s.update p (·.setSched .schedulable)) := by
  split
  · exact (Wanes.setSched _).trans .activate
  · exact .setSched _

theorem finishGroup (runs : s.runs = ⟨k :: p, pc⟩ :: rest)
    (finished : s.finishGroup p k = some s') : Wanes points (-pc.weight) s s' := by
  have left : Wanes points (-pc.weight) s s.leave := .leave runs
  refine (left.trans (e := 0) ?_).mono (by omega)
  cases finishesGroup finished with
  | ends sched stop mailbox g found ends =>
    split
    · exact (notifyChildStopped.trans (.emit _)).trans .destroy
    · exact notifyChildStopped.trans .destroy
  | stays sched stop mailbox g found lives => exact .sleep _

theorem finishActor (runs : s.runs = ⟨k :: p, pc⟩ :: rest)
    (finished : s.finishActor p k = some s') : Wanes points (-pc.weight) s s' := by
  have left : Wanes points (-pc.weight) s s.leave := .leave runs
  refine (left.trans (e := 0) ?_).mono (by omega)
  cases finishesActor finished with
  | ends sched stop mailbox a found ends => exact notifyChildStopped.trans .destroy
  | stays sched stop mailbox a found lives => exact .sleep _

theorem enterChild {i : Nat} (entered : s.enterChild p i = some s') : Wanes points 0 s s' := by
  cases entersChild entered with
  | enters sched stop mailbox g k o found listed child =>
    have taken : Wanes points 0 s (s.update p (·.setActors (·.eraseIdx i))) := .setActors _
    have begins (t : Shard) : Wanes points 0 t
        { t with runs := ⟨k :: p, if o.isGroup then Pc.groupMail else Pc.tasks⟩ :: t.runs } := by
      refine .of_objs rfl ?_
      rw [List.map_cons, List.sum_cons]
      split
      · simp [Pc.weight]
      · simp [Pc.weight]
    split
    · exact (taken.trans .cancel).trans (begins _)
    · exact taken.trans (begins _)

end Wanes

end Shard

end Hiactor
