import Mathlib.Data.Set.Insert
import Hiactor.Core.Proofs.ShardLog

/-!
# Scheduling

What each operation does to the scheduling of the actor objects. An object that is not in the
queue of its parent waits for nothing that the framework would have to do: its mailbox is empty
or methods are in flight, and when it is stopping then methods are in flight or it has children.
The children of a group that is stopping are stopping or hold a stop message.
-/

namespace Hiactor

open Lib

theorem maxConcurrencyOf_pos (concurrency : Nat) : 0 < maxConcurrencyOf concurrency := by
  unfold maxConcurrencyOf
  split
  · assumption
  · exact Nat.one_pos

namespace ActorObject

/-- The concurrency limit of an actor; that of a group is not used. -/
def maxConcurrency (o : ActorObject) : Nat := match o.body with
  | .group _ => 1
  | .actor a => a.maxConcurrency

/-- The object is stopping or holds a stop message. -/
def Told (o : ActorObject) : Prop := o.stopping = true ∨ ∃ m ∈ o.mailbox, m.isStop = true

/-- An object that needs no run. A forced stop that is in progress has emptied the mailbox. -/
structure Quiet (o : ActorObject) (cleaning : Prop) : Prop where
  group : o.isGroup = true → o.mailbox = [] ∧ (o.stopping = true → o.children ≠ 0)
  cleaned : o.isGroup = false → cleaning → o.mailbox = []
  flying : o.isGroup = false → ¬ cleaning → o.mailbox ≠ [] ∨ o.stopping = true →
    0 < o.curConcurrency

/-- An object that is in the queue of its parent, or needs no run. -/
def Settled (o : ActorObject) (cleaning : Prop) : Prop :=
  o.schedStatus = .scheduled ∨ o.Quiet cleaning

/-- What every operation keeps of an object. -/
structure Kept (o o' : ActorObject) : Prop where
  isGroup : o'.isGroup = o.isGroup
  ready : o.schedStatus ≠ .initialized → o'.schedStatus ≠ .initialized
  limit : 0 < o.maxConcurrency → 0 < o'.maxConcurrency
  entry : ∀ k, o'.entry k = some true → o.entry k = some true

/-- A change that does not begin a stop and keeps what the object was told. -/
structure Loyal (o o' : ActorObject) : Prop extends Kept o o' where
  stopping : o'.stopping = o.stopping
  told : o.Told → o'.Told

/-- A change that also leaves a settled object settled. -/
structure Tame (o o' : ActorObject) : Prop extends Loyal o o' where
  settled : ∀ {cleaning}, o.Settled cleaning → o'.Settled cleaning

variable (o : ActorObject)

theorem kept_setMailbox (mailbox : List ActorMessage) : o.Kept (o.setMailbox mailbox) :=
  ⟨rfl, id, id, fun _ => id⟩

theorem kept_setStop (force : Bool) : o.Kept (o.setStop force) := ⟨rfl, id, id, fun _ => id⟩

theorem kept_setSched {status : SchedStatus} (ready : status ≠ .initialized) :
    o.Kept (o.setSched status) := ⟨rfl, fun _ => ready, id, fun _ => id⟩

theorem kept_mapActor {f : ActorBody → ActorBody}
    (limit : ∀ a, 0 < a.maxConcurrency → 0 < (f a).maxConcurrency) : o.Kept (o.mapActor f) := by
  cases o with
  | mk sched stop mailbox body =>
    cases body with
    | group g => exact ⟨rfl, id, id, fun _ => id⟩
    | actor a => exact ⟨rfl, id, limit a, fun _ => id⟩

theorem kept_mapGroup {f : GroupBody → GroupBody}
    (entry : ∀ g k, (f g).actorInstMap.lookup k = some true → g.actorInstMap.lookup k = some true) :
    o.Kept (o.mapGroup f) := by
  cases o with
  | mk sched stop mailbox body =>
    cases body with
    | group g => exact ⟨rfl, id, id, entry g⟩
    | actor a => exact ⟨rfl, id, id, fun _ => id⟩

theorem stopping_setStop (force : Bool) : (o.setStop force).stopping = true := by
  cases force <;> rfl

theorem loyal_mapActor {f : ActorBody → ActorBody}
    (limit : ∀ a, 0 < a.maxConcurrency → 0 < (f a).maxConcurrency) : o.Loyal (o.mapActor f) :=
  ⟨o.kept_mapActor limit, rfl, id⟩

theorem loyal_mapGroup {f : GroupBody → GroupBody}
    (entry : ∀ g k, (f g).actorInstMap.lookup k = some true → g.actorInstMap.lookup k = some true) :
    o.Loyal (o.mapGroup f) := ⟨o.kept_mapGroup entry, rfl, id⟩

theorem loyal_setSched {status : SchedStatus} (ready : status ≠ .initialized) :
    o.Loyal (o.setSched status) := ⟨o.kept_setSched ready, rfl, id⟩

/-- A mailbox with more messages. -/
theorem loyal_setMailbox {mailbox : List ActorMessage} (more : o.mailbox ⊆ mailbox) :
    o.Loyal (o.setMailbox mailbox) := by
  refine ⟨o.kept_setMailbox mailbox, rfl, Or.imp_right ?_⟩
  rintro ⟨m, member, stop⟩
  exact ⟨m, more member, stop⟩

/-- An object may begin to stop when it has children or methods in flight. -/
theorem settled_setStop {cleaning : Prop} (force : Bool) (settled : o.Settled cleaning)
    (children : o.isGroup = true → o.children ≠ 0)
    (flying : o.isGroup = false → 0 < o.curConcurrency) :
    (o.setStop force).Settled cleaning := by
  refine settled.imp_right (fun quiet => ⟨fun group => ?_, quiet.cleaned, ?_⟩)
  · exact ⟨(quiet.group group).1, fun _ => children group⟩
  · exact fun actor _ _ => flying actor

/-- More methods in flight do not unsettle an actor. -/
theorem tame_mapActor {f : ActorBody → ActorBody}
    (limit : ∀ a, 0 < a.maxConcurrency → 0 < (f a).maxConcurrency)
    (more : ∀ a, a.curConcurrency ≤ (f a).curConcurrency) : o.Tame (o.mapActor f) where
  toLoyal := o.loyal_mapActor limit
  settled := by
    intro cleaning settled
    cases o with
    | mk sched stop mailbox body =>
      cases body with
      | group g => exact settled
      | actor a =>
        refine settled.imp_right (fun quiet => ⟨fun group => (by cases group), quiet.cleaned, ?_⟩)
        exact fun actor notCleaning needs =>
          (quiet.flying actor notCleaning needs).trans_le (more a)

/-- A group that keeps its children stays settled. -/
theorem settled_mapGroup {cleaning : Prop} {f : GroupBody → GroupBody}
    (same : ∀ g, (f g).children = g.children) (settled : o.Settled cleaning) :
    (o.mapGroup f).Settled cleaning := by
  cases o with
  | mk sched stop mailbox body =>
    cases body with
    | actor a => exact settled
    | group g =>
      refine settled.imp_right (fun quiet => ⟨fun group => ?_, fun actor => (by cases actor),
        fun actor => (by cases actor)⟩)
      exact ⟨(quiet.group group).1, fun stopping none =>
        (quiet.group group).2 stopping ((same g).symm.trans none)⟩

theorem tame_mapGroup {f : GroupBody → GroupBody}
    (entry : ∀ g k, (f g).actorInstMap.lookup k = some true → g.actorInstMap.lookup k = some true)
    (same : ∀ g, (f g).children = g.children) : o.Tame (o.mapGroup f) where
  toLoyal := o.loyal_mapGroup entry
  settled := o.settled_mapGroup same

theorem tame_setTasks (f : List Task → List Task) : o.Tame (o.setTasks f) :=
  o.tame_mapActor (fun _ => id) (fun _ => le_rfl)

theorem tame_setActors (f : List ActorKey → List ActorKey) : o.Tame (o.setActors f) :=
  o.tame_mapGroup (fun _ _ => id) (fun _ => rfl)

theorem tame_disable (k : ActorKey) : o.Tame (o.setEntry k false) := by
  refine o.tame_mapGroup (fun g j reached => ?_) (fun _ => rfl)
  by_cases same : j = k
  · simp [same] at reached
  · have other : (j == k) = false := by simpa using same
    simpa [List.lookup_cons, other, lookup_filter_ne, same] using reached

theorem tame_scheduled : o.Tame (o.setSched .scheduled) where
  toLoyal := o.loyal_setSched (by simp)
  settled _ := .inl rfl

/-- The mailbox of an object that is stopping may be emptied. -/
theorem tame_clean (stopping : o.stopping = true) : o.Tame (o.setMailbox []) where
  toKept := o.kept_setMailbox []
  stopping := rfl
  told _ := .inl stopping
  settled := by
    refine Or.imp_right (fun quiet => ⟨fun group => ⟨rfl, (quiet.group group).2⟩, ?_, ?_⟩)
    · exact fun _ _ => rfl
    · exact fun actor notCleaning _ => quiet.flying actor notCleaning (.inr stopping)

/-- A group that has got a new child. -/
def adopt (k : ActorKey) : ActorObject := (o.setEntry k true).mapGroup .adopt

theorem settled_adopt (k : ActorKey) {cleaning : Prop} (counted : 0 ≤ o.children)
    (settled : o.Settled cleaning) : (o.adopt k).Settled cleaning := by
  cases o with
  | mk sched stop mailbox body =>
    cases body with
    | actor a => exact settled
    | group g =>
      refine settled.imp_right (fun quiet => ⟨fun group => ⟨(quiet.group group).1, fun _ => ?_⟩,
        fun actor => (by cases actor), fun actor => (by cases actor)⟩)
      exact (Int.lt_add_one_of_le counted).ne'

structure Adopted (o o' : ActorObject) : Prop where
  isGroup : o'.isGroup = o.isGroup
  limit : o'.maxConcurrency = o.maxConcurrency
  stopping : o'.stopping = o.stopping
  told : o.Told → o'.Told

theorem adopted (k : ActorKey) : o.Adopted (o.adopt k) := by
  cases o with
  | mk sched stop mailbox body =>
    cases body with
    | group g => exact ⟨rfl, rfl, rfl, id⟩
    | actor a => exact ⟨rfl, rfl, rfl, id⟩

theorem limit_create (limitOf : ActorKey → Nat) (k : ActorKey) (status : SchedStatus) :
    0 < ((create limitOf k).setSched status).maxConcurrency := by
  unfold create setSched maxConcurrency
  cases k.isGroup with
  | true => simp
  | false => exact maxConcurrencyOf_pos _

end ActorObject

namespace Shard

/-- The state of `createChild` before the child is activated. -/
def made (s : Shard) (p : Path) (k : ActorKey) : Shard :=
  ((({ s with objs := Function.update s.objs (k :: p) (some (.create s.limitOf k)) }.update p
    (·.setEntry k true)).update p (·.mapGroup .adopt)).emit (.created (k :: p))).update
      (k :: p) (·.setSched .schedulable)

theorem objs_made {s : Shard} {p : Path} {k : ActorKey} {o : ActorObject}
    (found : s.objs p = some o) (q : Path) :
    (s.made p k).objs q =
      if q = k :: p then some ((ActorObject.create s.limitOf k).setSched .schedulable)
      else if q = p then some (o.adopt k) else s.objs q := by
  have different : p ≠ k :: p := (List.cons_ne_self k p).symm
  let fresh : Shard :=
    { s with objs := Function.update s.objs (k :: p) (some (.create s.limitOf k)) }
  have stored : fresh.objs p = some o := (Function.update_of_ne different ..).trans found
  unfold made
  by_cases child : q = k :: p
  · subst child
    rw [objs_update_self, if_pos rfl]
    show Option.map _ (((fresh.update p _).update p _).objs (k :: p)) = _
    rw [objs_update_ne _ _ _ different.symm, objs_update_ne _ _ _ different.symm]
    exact congrArg _ (Function.update_self ..)
  · rw [objs_update_ne _ _ _ child, if_neg child]
    show ((fresh.update p _).update p _).objs q = _
    by_cases parent : q = p
    · subst parent
      rw [objs_update_self, objs_update_self, stored, if_pos rfl]
      rfl
    · rw [objs_update_ne _ _ _ parent, objs_update_ne _ _ _ parent, if_neg parent]
      exact Function.update_of_ne child ..

/-- The state of the scheduling and of the stops. The objects at `busy` may need a run, and those
at `untold` may have to be told that their group is stopping. -/
structure Sched (s : Shard) (busy untold : Set Path) : Prop where
  ready : ∀ {p o}, p ≠ [] → s.objs p = some o → o.schedStatus ≠ .initialized
  settled : ∀ {p o}, p ≠ [] → p ∉ busy → s.objs p = some o → o.Settled (p ∈ cleanPaths s.stops)
  limit : ∀ {p o}, s.objs p = some o → 0 < o.maxConcurrency
  cleaned : ∀ {p}, p ∈ cleanPaths s.stops → ∃ o, s.objs p = some o ∧ o.isGroup = false
  told : ∀ {k p o c}, p ≠ [] → k :: p ∉ untold → s.objs p = some o → o.isGroup = true →
    o.stopping = true → s.objs (k :: p) = some c → c.Told
  root : ∀ {o}, s.objs [] = some o → o.stopping = true →
    (∃ force m, .stopSystem force m ∈ s.stops) ∨ ∀ k, o.entry k ≠ some true

namespace Sched

variable {s : Shard} {busy untold : Set Path} {p : Path} {k : ActorKey} {o : ActorObject}

theorem mono {busy' untold' : Set Path} (sched : Sched s busy untold) (more : busy ⊆ busy')
    (fewer : untold ⊆ untold') : Sched s busy' untold' where
  ready := sched.ready
  settled below idle := sched.settled below (fun member => idle (more member))
  limit := sched.limit
  cleaned := sched.cleaned
  told below known := sched.told below (fun member => known (fewer member))
  root := sched.root

/-- An object that is settled is no longer busy. -/
theorem settle (sched : Sched s (insert p busy) untold)
    (settled : ∀ o, p ≠ [] → p ∉ busy → s.objs p = some o →
      o.Settled (p ∈ cleanPaths s.stops)) :
    Sched s busy untold where
  ready := sched.ready
  settled := by
    intro q o below idle found
    by_cases here : q = p
    · subst here
      exact settled o below idle found
    · exact sched.settled below (by simp [here, idle]) found
  limit := sched.limit
  cleaned := sched.cleaned
  told := sched.told
  root := sched.root

/-- An object that has been told need not be told. -/
theorem tell (sched : Sched s busy (insert p untold)) (told : ∀ o, s.objs p = some o → o.Told) :
    Sched s busy untold where
  ready := sched.ready
  settled := sched.settled
  limit := sched.limit
  cleaned := sched.cleaned
  told := by
    intro k q o c below known found group stopping child
    by_cases here : k :: q = p
    · subst here
      exact told c child
    · exact sched.told below (by simp [here, known]) found group stopping child
  root := sched.root

/-- A change of the object at `p`, which is then busy and may have to be told. When it begins to
stop, its children have to be told. -/
theorem change {untold' : Set Path} {f : ActorObject → ActorObject}
    (sched : Sched s busy untold) (kept : ∀ o, s.objs p = some o → o.Kept (f o))
    (here : p ∈ untold') (fewer : untold ⊆ untold')
    (stop : ∀ o, s.objs p = some o → (f o).stopping = true →
      o.stopping = true ∨ p ≠ [] ∧ (o.isGroup = true → ∀ k, k :: p ∈ untold')) :
    Sched (s.update p f) (insert p busy) untold' where
  ready := by
    intro q o' below found
    rw [objs_update] at found
    split at found
    · rename_i same
      subst same
      obtain ⟨o, stored, rfl⟩ := Option.map_eq_some_iff.mp found
      exact (kept o stored).ready (sched.ready below stored)
    · exact sched.ready below found
  settled := by
    intro q o' below idle found
    obtain ⟨different, idle⟩ : q ≠ p ∧ q ∉ busy := by simpa using idle
    rw [objs_update_ne _ _ _ different] at found
    exact sched.settled below idle found
  limit := by
    intro q o' found
    rw [objs_update] at found
    split at found
    · rename_i same
      subst same
      obtain ⟨o, stored, rfl⟩ := Option.map_eq_some_iff.mp found
      exact (kept o stored).limit (sched.limit stored)
    · exact sched.limit found
  cleaned := by
    intro q member
    obtain ⟨o, found, actor⟩ := sched.cleaned member
    by_cases same : q = p
    · subst same
      exact ⟨f o, by simp [found], (kept o found).isGroup.trans actor⟩
    · exact ⟨o, by rw [objs_update_ne _ _ _ same, found], actor⟩
  told := by
    intro k q o' c below known found group stopping child
    have different : k :: q ≠ p := fun same => known (same ▸ here)
    rw [objs_update_ne _ _ _ different] at child
    rw [objs_update] at found
    split at found
    · rename_i same
      subst same
      obtain ⟨o, stored, rfl⟩ := Option.map_eq_some_iff.mp found
      have wasGroup := (kept o stored).isGroup.symm.trans group
      rcases stop o stored stopping with already | ⟨-, all⟩
      · exact sched.told below (fun member => known (fewer member)) stored wasGroup already child
      · exact absurd (all wasGroup k) known
    · exact sched.told below (fun member => known (fewer member)) found group stopping child
  root := by
    intro o' found stopping
    rw [objs_update] at found
    split at found
    · rename_i same
      subst same
      obtain ⟨o, stored, rfl⟩ := Option.map_eq_some_iff.mp found
      have was : o.stopping = true :=
        (stop o stored stopping).resolve_right (fun below => below.1 rfl)
      refine (sched.root stored was).imp_right (fun none k reached => none k ?_)
      exact (kept o stored).entry k reached
    · exact sched.root found stopping

/-- A change that keeps what an object was told. -/
theorem update_busy {f : ActorObject → ActorObject} (sched : Sched s busy untold)
    (loyal : ∀ o, s.objs p = some o → o.Loyal (f o)) :
    Sched (s.update p f) (insert p busy) untold := by
  have changed := sched.change (fun o found => (loyal o found).toKept) (Set.mem_insert p untold)
    (Set.subset_insert p untold)
    (fun o found stopping => .inl ((loyal o found).stopping ▸ stopping))
  refine { changed with told := ?_ }
  intro k q o' c below known found group stopping child
  by_cases same : k :: q = p
  · subst same
    obtain ⟨c', stored, rfl⟩ := Option.map_eq_some_iff.mp ((objs_update_self ..).symm.trans child)
    rw [objs_update_ne _ _ _ (List.cons_ne_self k q).symm] at found
    exact (loyal c' stored).told (sched.told below known found group stopping stored)
  · exact changed.told below (by simp [same, known]) found group stopping child

/-- A change that keeps an object settled. -/
theorem update {f : ActorObject → ActorObject} (sched : Sched s busy untold)
    (tame : ∀ o, s.objs p = some o → o.Tame (f o)) : Sched (s.update p f) busy untold := by
  have changed := sched.update_busy (fun o found => (tame o found).toLoyal)
  refine { changed with settled := ?_ }
  intro q o' below idle found
  by_cases same : q = p
  · subst same
    obtain ⟨o, stored, rfl⟩ := Option.map_eq_some_iff.mp ((objs_update_self ..).symm.trans found)
    exact (tame o stored).settled (sched.settled below idle stored)
  · exact changed.settled below (by simp [same, idle]) found

/-- A change of what is not part of the objects. -/
theorem congr {s' : Shard} (sched : Sched s busy untold) (objs : s'.objs = s.objs)
    (stops : s'.stops = s.stops) : Sched s' busy untold := by
  obtain ⟨ready, settled, limit, cleaned, told, root⟩ := sched
  constructor
  all_goals simp only [objs, stops]
  all_goals assumption

/-- A change of the stops in progress that keeps the objects that are stopped by them. -/
theorem restop {stops : List StopFrame} (sched : Sched s busy untold)
    (same : cleanPaths stops = cleanPaths s.stops)
    (system : ∀ force m, .stopSystem force m ∈ s.stops → .stopSystem force m ∈ stops) :
    Sched { s with stops := stops } busy untold := by
  obtain ⟨ready, settled, limit, cleaned, told, root⟩ := sched
  refine ⟨ready, ?_, limit, ?_, told, fun found stopping => ?_⟩
  · rw [same]
    exact settled
  · rw [same]
    exact cleaned
  · exact (root found stopping).imp_left
      (fun ⟨force, m, member⟩ => ⟨force, m, system force m member⟩)

/-- `activate` settles an object. -/
theorem activate (sched : Sched s (insert p busy) untold) : Sched (s.activate p) busy untold := by
  induction p generalizing s with
  | nil => exact sched.settle (fun o below => absurd rfl below)
  | cons k p ih =>
    unfold Shard.activate
    split
    · rename_i o found
      split
      · have scheduled := (sched.update (fun o _ => o.tame_scheduled)).settle
          (fun o' _ _ found' => by
          obtain ⟨o, -, rfl⟩ := Option.map_eq_some_iff.mp ((objs_update_self ..).symm.trans found')
          exact .inl rfl)
        refine ih (mono (scheduled.update ?_) (Set.subset_insert p busy) subset_rfl)
        exact fun o _ => o.tame_setActors _
      · rename_i status
        refine sched.settle (fun o' below _ found' => ?_)
        obtain rfl := Option.some.inj (found.symm.trans found')
        have ready := sched.ready below found
        cases stored : o.schedStatus with
        | initialized => exact absurd stored ready
        | schedulable => exact absurd stored status
        | scheduled => exact .inl stored
    · rename_i none
      exact sched.settle (fun o _ _ found => by rw [none] at found; cases found)

theorem addTask (sched : Sched s busy untold) (task : Task) (urgent : Bool) :
    Sched (s.addTask p task urgent) busy untold := by
  refine activate (mono (sched.update ?_) (Set.subset_insert p busy) subset_rfl)
  exact fun o _ => o.tame_setTasks _

theorem enqueMessage (sched : Sched s busy untold) (m : ActorMessage) :
    Sched (s.enqueMessage p m) busy untold :=
  activate (sched.update_busy fun o _ => o.loyal_setMailbox (List.subset_append_left ..))

theorem enqueUrgentMessage (sched : Sched s busy untold) (m : ActorMessage) :
    Sched (s.enqueUrgentMessage p m) busy untold :=
  activate (sched.update_busy fun o _ => o.loyal_setMailbox (List.subset_cons_self ..))

theorem enque (sched : Sched s busy untold) (m : ActorMessage) :
    Sched (s.enque p m) busy untold := by
  have logged : Sched (s.emit (.enqueued m p)) busy untold := sched.congr rfl rfl
  unfold Shard.enque
  split
  · exact logged.enqueMessage m
  · exact logged.enqueUrgentMessage m

theorem activateIdle (sched : Sched s (insert p busy) untold)
    (flying : ∀ o, p ∉ busy → s.objs p = some o → 0 < o.curConcurrency →
      o.Settled (p ∈ cleanPaths s.stops)) :
    Sched (s.activateIdle p) busy untold := by
  unfold Shard.activateIdle
  split
  · rename_i o found
    split
    · exact sched.activate
    · rename_i flies
      refine sched.settle (fun o' _ idle found' => ?_)
      obtain rfl := Option.some.inj (found.symm.trans found')
      exact flying o idle found (Nat.pos_of_ne_zero flies)
  · rename_i none
    exact sched.settle (fun o _ _ found => by rw [none] at found; cases found)

theorem disable (sched : Sched s busy untold) : Sched (s.disable p k) busy untold :=
  (sched.update (fun o _ => o.tame_disable k)).congr rfl rfl

/-! ### Stops -/

theorem setStop {untold' : Set Path} (sched : Sched s busy untold) (force : Bool)
    (found : s.objs p = some o) (below : p ≠ []) (fewer : untold ⊆ untold')
    (children : o.isGroup = true → ∀ k, k :: p ∈ untold') :
    Sched (s.update p (·.setStop force)) (insert p busy) untold' := by
  refine tell (p := p) (sched.change (fun o _ => o.kept_setStop force)
    (Set.mem_insert p untold') (fewer.trans (Set.subset_insert p untold')) ?_) ?_
  · intro o' found' _
    obtain rfl := Option.some.inj (found.symm.trans found')
    exact .inr ⟨below, fun group k => Set.mem_insert_of_mem p (children group k)⟩
  · intro o' found'
    obtain ⟨o, -, rfl⟩ := Option.map_eq_some_iff.mp ((objs_update_self ..).symm.trans found')
    exact .inl (o.stopping_setStop force)

theorem cleanMailbox (sched : Sched s busy untold)
    (stopping : ∀ o, s.objs p = some o → o.stopping = true) :
    Sched (s.cleanMailbox p) busy untold := by
  unfold Shard.cleanMailbox
  split
  · exact (sched.update fun o found => o.tame_clean (stopping o found)).congr rfl rfl
  · exact sched

theorem told_enqueUrgentMessage {m : ActorMessage} (stop : m.isStop = true)
    (found : (s.enqueUrgentMessage p m).objs p = some o) : o.Told := by
  have mail : (s.enqueUrgentMessage p m).mailbox p = some o.mailbox := by
    rw [Shard.mailbox, found]
    rfl
  rw [Shard.enqueUrgentMessage, mailbox_activate, mailbox_update, if_pos rfl] at mail
  obtain ⟨o', -, same⟩ := Option.map_eq_some_iff.mp mail
  exact .inr ⟨m, same ▸ List.mem_cons_self, stop⟩

theorem isStop_stopMessage (force : Bool) : (stopMessage force).isStop = true := by
  cases force <;> rfl

theorem stopAllChildren (sched : Sched s busy (untold ∪ {q | ∃ k, q = k :: p})) (force : Bool)
    (told : ∀ k c, s.objs (k :: p) = some c → s.entry p k = some true ∨ c.Told) :
    Sched (s.stopAllChildren p force) busy untold := by
  have tellEach (children : List (ActorKey × Bool)) (s : Shard)
      (sched : Sched s busy (untold ∪ {q | ∃ child ∈ children, q = child.1 :: p})) :
      Sched (children.foldl (fun s child =>
        s.enqueUrgentMessage (child.1 :: p) (stopMessage force)) s) busy untold := by
    induction children generalizing s with
    | nil => exact sched.mono subset_rfl (by simp)
    | cons child children ih =>
      refine ih _ (tell (p := child.1 :: p) (mono (sched.enqueUrgentMessage _) subset_rfl ?_) ?_)
      · rintro q (known | ⟨other, member, rfl⟩)
        · exact .inr (.inl known)
        · rcases List.mem_cons.mp member with rfl | later
          · exact .inl rfl
          · exact .inr (.inr ⟨other, later, rfl⟩)
      · exact fun c found => told_enqueUrgentMessage (isStop_stopMessage force) found
  unfold Shard.stopAllChildren
  split
  · rename_i g found
    refine tellEach _ _ { sched with told := ?_ }
    intro k q o c below known found' group stopping child
    by_cases here : q = p
    · subst here
      rcases told k c child with reached | done
      · refine absurd (.inr ⟨(k, true), ?_, rfl⟩) known
        have entry : g.actorInstMap.lookup k = some true := by
          simpa [Shard.entry, found, ActorObject.entry] using reached
        obtain ⟨before, after, map, -⟩ := List.lookup_eq_some_iff.mp entry
        simp [map]
      · exact done
    · refine sched.told below ?_ found' group stopping child
      rintro (member | ⟨j, same⟩)
      · exact known (.inl member)
      · exact here (List.cons.inj same).2
  · rename_i notGroup
    refine { sched with told := ?_ }
    intro k q o c below known found group stopping child
    refine sched.told below ?_ found group stopping child
    rintro (member | ⟨j, same⟩)
    · exact known member
    · obtain ⟨-, rfl⟩ := List.cons.inj same
      cases o with
      | mk status stop mailbox body =>
        cases body with
        | group g => exact notGroup _ _ _ g found
        | actor a => cases group

theorem stopGroup (sched : Sched s busy untold) (force : Bool) (found : s.objs p = some o)
    (below : p ≠ []) (group : o.isGroup = true)
    (told : ∀ k c, s.objs (k :: p) = some c → o.entry k = some true ∨ c.Told) :
    Sched (s.stopGroup p force) busy untold := by
  have stops {busy' : Set Path}
      (stopped : Sched (s.update p (·.setStop force)) busy'
        (untold ∪ {q | ∃ k, q = k :: p})) :
      Sched (if force then ((s.update p (·.setStop force)).stopAllChildren p force).cleanMailbox p
        else (s.update p (·.setStop force)).stopAllChildren p force) busy' untold := by
    have toldAll := stopped.stopAllChildren force (p := p) (fun k c child => by
      rw [objs_update_ne _ _ _ (List.cons_ne_self k p)] at child
      refine (told k c child).imp_left (fun reached => ?_)
      simp only [Shard.entry, objs_update_self, found, Option.map_some, Option.bind_some]
      exact reached)
    split
    · refine toldAll.cleanMailbox (fun o' found' => ?_)
      have node := node_tree found'
      rw [tree_stopAllChildren, tree_setStop found] at node
      simp only [Function.update_self] at node
      exact (congrArg TreeNode.stopped (Option.some.inj node)).symm
    · exact toldAll
  have stopped : Sched (s.update p (·.setStop force)) (insert p busy)
      (untold ∪ {q | ∃ k, q = k :: p}) :=
    sched.setStop force found below Set.subset_union_left (fun _ k => .inr ⟨k, rfl⟩)
  unfold Shard.stopGroup
  simp only [found]
  split
  · exact sched
  · split
    · exact (stops stopped).activate
    · rename_i some
      refine stops (stopped.settle (fun o' _ idle found' => ?_))
      rw [objs_update_self, found] at found'
      obtain rfl := Option.some.inj found'
      refine o.settled_setStop force (sched.settled below idle found)
        (fun _ => o.children_ne_zero some) (fun actor => ?_)
      rw [group] at actor
      cases actor

/-- The forced stop of an actor begins. -/
theorem pushClean (sched : Sched s (insert p busy) untold) (found : s.objs p = some o)
    (actor : o.isGroup = false) (empty : o.mailbox = []) (running : Bool) :
    Sched { s with stops := .clean p running :: s.stops } busy untold where
  ready := sched.ready
  settled := by
    intro q o' below idle found'
    by_cases here : q = p
    · subst here
      obtain rfl := Option.some.inj (found.symm.trans found')
      refine .inr ⟨fun group => ?_, fun _ _ => empty, fun _ notCleaning => ?_⟩
      · rw [actor] at group
        cases group
      · exact absurd List.mem_cons_self notCleaning
    · have settled := sched.settled below (by simp [here, idle]) found'
      simpa [cleanPaths, here] using settled
  limit := sched.limit
  cleaned := by
    intro q member
    rcases List.mem_cons.mp member with rfl | older
    · exact ⟨o, found, actor⟩
    · exact sched.cleaned older
  told := sched.told
  root found stopping := (sched.root found stopping).imp_left
    (fun ⟨force, m, member⟩ => ⟨force, m, List.mem_cons_of_mem _ member⟩)

/-- The forced stop of an actor ends. -/
theorem popClean {running : Bool} {rest : List StopFrame} (sched : Sched s busy untold)
    (top : s.stops = .clean p running :: rest) :
    Sched { s with stops := rest } (insert p busy) untold where
  ready := sched.ready
  settled := by
    intro q o below idle found
    obtain ⟨here, idle⟩ : q ≠ p ∧ q ∉ busy := by simpa using idle
    have settled := sched.settled below idle found
    simpa [top, cleanPaths, here] using settled
  limit := sched.limit
  cleaned member := sched.cleaned (by
    rw [top]
    exact List.mem_cons_of_mem p member)
  told := sched.told
  root found stopping := (sched.root found stopping).imp_left
    (fun ⟨force, m, member⟩ => ⟨force, m, by simpa [top] using member⟩)

/-- What a valid tree says about the children of a group that begins to stop. -/
theorem told_of_valid (valid : s.tree.Valid) (found : s.objs p = some o) {c : ActorObject}
    (child : s.objs (k :: p) = some c) : o.entry k = some true ∨ c.Told := by
  cases known : o.entry k with
  | none => exact absurd known (valid.known (node_tree child) (node_tree found))
  | some reached =>
    cases reached with
    | true => exact .inl rfl
    | false => exact .inr (.inl (valid.disabled_stopped (node_tree found) known (node_tree child)))

/-- `stop_child_actor` tells the child that it has to stop. -/
theorem stopChildActor (sched : Sched s busy (insert (k :: p) untold)) (valid : s.tree.Valid)
    (force : Bool) : Sched (s.stopChildActor p k force) busy untold := by
  refine tell (p := k :: p) ?_ (fun o found => .inl (stopping_stopChildActor valid found))
  have below : k :: p ≠ [] := List.cons_ne_nil k p
  unfold Shard.stopChildActor
  split
  · rename_i o reached child
    split
    · rename_i group
      exact (sched.stopGroup force child below group
        (fun j c found => told_of_valid valid child found)).disable
    · rename_i actor
      have actor : o.isGroup = false := by simpa using actor
      have stopped (force : Bool) := sched.setStop force child below subset_rfl
        (fun group => absurd group (by simp [actor]))
      split
      · exact sched.disable
      · split
        · have cleaned := (stopped true).cleanMailbox (p := k :: p) (fun o' found' => by
            rw [objs_update_self, child] at found'
            exact Option.some.inj found' ▸ o.stopping_setStop true)
          have canceled := cleaned.update (p := k :: p)
            (fun o _ => o.tame_setTasks (List.map Task.cancel))
          refine canceled.pushClean
            (o := ((o.setStop true).setMailbox []).setTasks (List.map Task.cancel)) ?_ ?_ ?_ false
          · simp [Shard.cleanMailbox, child]
          · exact (ActorObject.tame_setTasks ..).isGroup.trans actor
          · rfl
        · refine disable (activateIdle (stopped false) (fun o' idle found' flying => ?_))
          rw [objs_update_self, child] at found'
          obtain rfl := Option.some.inj found'
          exact o.settled_setStop false (sched.settled below idle child)
            (fun group => absurd group (by simp [actor])) (fun _ => flying)
  · exact sched

theorem stopSelf (sched : Sched s busy untold) (valid : s.tree.Valid) (force : Bool) :
    Sched (s.stopSelf p force) busy untold := by
  cases p with
  | nil => exact sched
  | cons k p =>
    exact (sched.mono subset_rfl (Set.subset_insert (k :: p) untold)).stopChildActor valid force

/-- A continuation runs in the run of its actor, or in the forced stop of its actor. -/
theorem runTask (sched : Sched s busy untold) (valid : s.tree.Valid)
    (runs : p ∈ busy ∨ p ∈ cleanPaths s.stops) (task : Task) :
    Sched (s.runTask p task) busy untold := by
  cases task with
  | user => exact sched
  | reply msg failed =>
    have sent : Sched (s.emit (.sent p (msg.reply failed))) busy untold := sched.congr rfl rfl
    exact sent.addTask _ false
  | post msg state =>
    let landed := s.update p (·.mapActor fun a => { a with curConcurrency := a.curConcurrency - 1 })
    have done : Sched landed busy untold := by
      refine (sched.update_busy (fun o _ => o.loyal_mapActor (f := fun a => { a with
        curConcurrency := a.curConcurrency - 1 }) (fun _ => id))).settle ?_
      intro o' below idle found'
      obtain ⟨o, found, rfl⟩ := Option.map_eq_some_iff.mp ((objs_update_self ..).symm.trans found')
      have cleaning := runs.resolve_left idle
      obtain ⟨o₁, found₁, actor⟩ := sched.cleaned cleaning
      obtain rfl := Option.some.inj (found.symm.trans found₁)
      have same := (o.loyal_mapActor (f := fun a => { a with
        curConcurrency := a.curConcurrency - 1 }) (fun _ => id)).isGroup
      refine (sched.settled below idle found).imp_right (fun quiet => ⟨?_, ?_, ?_⟩)
      · intro group
        rw [same, actor] at group
        cases group
      · exact fun _ _ => quiet.cleaned actor cleaning
      · exact fun _ notCleaning => absurd cleaning notCleaning
    have reclaimed : Sched (landed.reclaim msg) busy untold := done.congr rfl rfl
    have tree : (landed.reclaim msg).tree = s.tree :=
      (tree_reclaim ..).trans (tree_update _ _ (fun _ _ => ActorObject.node_mapActor ..))
    unfold Shard.runTask
    simp only
    split
    · exact reclaimed.stopSelf (tree ▸ valid) true
    · exact reclaimed

/-! ### Routing -/

theorem createChild (sched : Sched s busy untold) (valid : s.tree.Valid)
    (found : s.objs p = some o) (unknown : o.entry k = none) (running : o.stopping = false) :
    Sched (s.createChild p k) busy untold := by
  have absent : s.objs (k :: p) = none := by
    refine Option.eq_none_iff_forall_ne_some.mpr (fun c child => ?_)
    exact valid.known (node_tree child) (node_tree found) unknown
  have loyal := o.adopted k
  have child : ((ActorObject.create s.limitOf k).setSched .schedulable).stopping = false := rfl
  refine activate (s := s.made p k) (p := k :: p) ⟨?_, ?_, ?_, ?_, ?_, ?_⟩
  · intro q o' below found'
    rw [objs_made found] at found'
    split at found'
    · obtain rfl := Option.some.inj found'
      simp [ActorObject.setSched]
    · split at found'
      · rename_i here
        subst here
        obtain rfl := Option.some.inj found'
        have ready := sched.ready below found
        exact ready
      · exact sched.ready below found'
  · intro q o' below outside found'
    obtain ⟨notChild, idle⟩ : q ≠ k :: p ∧ q ∉ busy := by simpa using outside
    rw [objs_made found, if_neg notChild] at found'
    split at found'
    · rename_i here
      subst here
      obtain rfl := Option.some.inj found'
      exact o.settled_adopt k (children_nonneg valid found) (sched.settled below idle found)
    · exact sched.settled below idle found'
  · intro q o' found'
    rw [objs_made found] at found'
    split at found'
    · obtain rfl := Option.some.inj found'
      exact ActorObject.limit_create ..
    · split at found'
      · obtain rfl := Option.some.inj found'
        exact (sched.limit found).trans_eq loyal.limit.symm
      · exact sched.limit found'
  · intro q member
    obtain ⟨o', found', actor⟩ := sched.cleaned member
    rw [objs_made found, if_neg (fun same => by rw [same, absent] at found'; cases found')]
    split
    · rename_i here
      subst here
      obtain rfl := Option.some.inj (found.symm.trans found')
      exact ⟨_, rfl, loyal.isGroup.trans actor⟩
    · exact ⟨o', found', actor⟩
  · intro j q o' c below known found' group stopping child'
    rw [objs_made found] at found' child'
    split at found'
    · obtain rfl := Option.some.inj found'
      cases stopping
    · split at found'
      · obtain rfl := Option.some.inj found'
        rw [loyal.stopping, running] at stopping
        cases stopping
      · rename_i _ notParent
        rw [if_neg (fun same => notParent (List.cons.inj same).2)] at child'
        split at child'
        · rename_i here
          subst here
          obtain rfl := Option.some.inj child'
          exact loyal.told (sched.told below known found' group stopping found)
        · exact sched.told below known found' group stopping child'
  · intro o' found' stopping
    rw [objs_made found, if_neg (List.cons_ne_nil k p).symm] at found'
    split at found'
    · obtain rfl := Option.some.inj found'
      rw [loyal.stopping, running] at stopping
      cases stopping
    · exact sched.root found' stopping

/-- A group that is reached is not stopping. -/
theorem running_of_reached (sched : Sched s busy untold) (valid : s.tree.Valid)
    (found : s.objs p = some o) (reached : o.entry k = some true) {c : ActorObject}
    (child : s.objs (k :: p) = some c) (group : c.isGroup = true) : c.stopping = false := by
  by_contra stopping
  have stopped : c.stopping = true := by simpa using stopping
  have ending := valid.stopped_disabled (node_tree found) (node_tree child) stopped reached
  obtain ⟨c', child', actor⟩ := sched.cleaned ending
  obtain rfl := Option.some.inj (child.symm.trans child')
  rw [group] at actor
  cases actor

theorem running_createChild (found : s.objs p = some o) (group : o.isGroup = true)
    {c : ActorObject} (child : (s.createChild p k).objs (k :: p) = some c) :
    c.stopping = false := by
  have node := node_tree child
  rw [tree_createChild found group] at node
  simp only [Function.update_self] at node
  exact (congrArg TreeNode.stopped (Option.some.inj node)).symm

theorem getActorLocal (sched : Sched s busy untold) (valid : s.tree.Valid) (below : p ≠ [])
    (running : ∀ o, s.objs p = some o → o.isGroup = true → o.stopping = false)
    (keys : List ActorKey) : Sched (s.getActorLocal p keys).1 busy untold := by
  induction keys generalizing s p with
  | nil => exact sched
  | cons k keys ih =>
    unfold Shard.getActorLocal
    split
    · exact sched
    · rename_i o found
      split
      · rename_i group
        split
        · exact sched
        · rename_i reached
          exact ih sched valid (List.cons_ne_nil k p)
            (fun c child isGroup => sched.running_of_reached valid found reached child isGroup)
        · rename_i unknown
          have grown := grows_createChild found group unknown (fun root => absurd root below)
          exact ih (sched.createChild valid found unknown (running o found group))
            (grown.valid valid) (List.cons_ne_nil k p)
            (fun c child _ => running_createChild found group child)
      · exact sched

theorem stoppedActorEnqueue (sched : Sched s busy untold) (addr : List ActorKey)
    (m : ActorMessage) : Sched (s.stoppedActorEnqueue addr m) busy untold := by
  unfold Shard.stoppedActorEnqueue
  simp only
  split
  · exact sched.congr rfl rfl
  · exact sched.congr rfl rfl

theorem stopActorSystem (sched : Sched s busy untold) (force : Bool) (m : ActorMessage) :
    Sched (s.stopActorSystem force m) busy untold := by
  unfold Shard.stopActorSystem
  split
  · exact sched.congr rfl rfl
  · have others {q : Path} (below : q ≠ []) :
        (s.update [] (·.setStop force)).objs q = s.objs q := objs_update_ne _ _ _ below
    refine ⟨?_, ?_, ?_, ?_, ?_, fun _ _ => .inl ⟨force, m, List.mem_cons_self⟩⟩
    · exact fun below found => sched.ready below ((others below).symm.trans found)
    · exact fun below idle found => sched.settled below idle ((others below).symm.trans found)
    · intro q o found
      simp only [objs_update] at found
      split at found
      · obtain ⟨o', stored, rfl⟩ := Option.map_eq_some_iff.mp found
        exact (o'.kept_setStop force).limit (sched.limit stored)
      · exact sched.limit found
    · intro q member
      obtain ⟨o, found, actor⟩ := sched.cleaned (p := q) member
      simp only [objs_update]
      split
      · exact ⟨o.setStop force, by simp [found], (o.kept_setStop force).isGroup.trans actor⟩
      · exact ⟨o, found, actor⟩
    · exact fun below known found group stopping child => sched.told below known
        ((others below).symm.trans found) group stopping
        ((others (List.cons_ne_nil _ _)).symm.trans child)

theorem receive (sched : Sched s busy untold) (valid : s.tree.Valid) {addr : List ActorKey}
    {m : ActorMessage} {s' : Shard} (received : s.receive addr m = some s') :
    Sched s' busy untold := by
  have walked {k : ActorKey} (entry : s.entry [] k = some true) (keys : List ActorKey) :
      Sched (s.getActorLocal [k] keys).1 busy untold := by
    obtain ⟨o, root, -, reached⟩ := exists_of_entry entry
    exact sched.getActorLocal valid (List.cons_ne_nil k [])
      (fun c child isGroup => sched.running_of_reached valid root reached child isGroup) keys
  cases receives received with
  | reply type => exact sched
  | stopSystem force asked => exact sched.stopActorSystem force m
  | stopped k keys entry => exact sched.stoppedActorEnqueue _ _
  | found k keys t q entry lookup =>
    have looked := walked entry keys
    rw [lookup] at looked
    exact looked.enque m
  | lost k keys t entry lookup =>
    have looked := walked entry keys
    rw [lookup] at looked
    exact looked.stoppedActorEnqueue _ _
  | closed k keys unknown stopping => exact sched.stoppedActorEnqueue _ _
  | created k keys t q unknown running lookup =>
    obtain ⟨o, found, group, unknown', running'⟩ := root_of_unknown valid unknown running
    have grown := grows_createChild found group unknown' (fun _ => running')
    have looked := (sched.createChild valid found unknown' running').getActorLocal
      (grown.valid valid) (List.cons_ne_nil k [])
      (fun c child _ => running_createChild found group child) keys
    rw [lookup] at looked
    exact looked.enque m

/-! ### Runs -/

theorem setSched (sched : Sched s busy untold) :
    Sched (s.update p (·.setSched .schedulable)) (insert p busy) untold :=
  sched.update_busy (fun o _ => o.loyal_setSched (by simp))

theorem notifyChildStopped (sched : Sched s busy untold) (runs : p = [] ∨ p ∈ busy) :
    Sched (s.notifyChildStopped p) busy untold := by
  have told : Sched (s.update p (·.mapGroup .drop)) busy untold := by
    refine (sched.update_busy (fun o _ => o.loyal_mapGroup (f := .drop)
      (fun _ _ => id))).settle ?_
    exact fun _ below idle => absurd (runs.resolve_left below) idle
  unfold Shard.notifyChildStopped
  simp only
  split
  · exact told.congr rfl rfl
  · exact told

theorem stops_notifyChildStopped (s : Shard) (p : Path) :
    (s.notifyChildStopped p).stops = s.stops := by
  unfold Shard.notifyChildStopped
  simp only
  split
  · rfl
  · rfl

theorem stops_acknowledge (g : GroupBody) : (s.acknowledge p k g).stops = s.stops := by
  unfold Shard.acknowledge
  split
  · exact stops_notifyChildStopped s p
  · exact stops_notifyChildStopped s p

theorem acknowledge (sched : Sched s busy untold) (runs : p = [] ∨ p ∈ busy) (g : GroupBody) :
    Sched (s.acknowledge p k g) busy untold := by
  have notified := sched.notifyChildStopped runs
  unfold Shard.acknowledge
  split
  · exact notified.congr rfl rfl
  · exact notified

/-- Objects are deleted, the one at `p` among them. -/
theorem removed {s' : Shard} (sched : Sched s (insert p busy) untold)
    (ended : cleanPaths s.stops = []) (stops : s'.stops = s.stops)
    (fewer : ∀ {q o}, s'.objs q = some o → q ≠ p ∧ s.objs q = some o) : Sched s' busy untold := by
  constructor
  case ready =>
    exact fun below found => sched.ready below (fewer found).2
  case settled =>
    intro q o below idle found
    obtain ⟨here, found⟩ := fewer found
    rw [stops]
    exact sched.settled below (by simp [here, idle]) found
  case limit =>
    exact fun found => sched.limit (fewer found).2
  case cleaned =>
    intro q member
    rw [stops, ended] at member
    cases member
  case told =>
    exact fun below known found group stopping child =>
      sched.told below known (fewer found).2 group stopping (fewer child).2
  case root =>
    intro o found stopping
    rw [stops]
    exact sched.root (fewer found).2 stopping

theorem destroy (sched : Sched s (insert p busy) untold) (ended : cleanPaths s.stops = []) :
    Sched (s.destroy p) busy untold := by
  refine sched.removed ended rfl (fun {q o} found => ?_)
  by_cases here : q = p
  · subst here
    cases (Function.update_self (β := fun _ => Option ActorObject) q none s.objs).symm.trans found
  · exact ⟨here, (Function.update_of_ne here ..).symm.trans found⟩

/-- An actor object that needs no run may sleep. -/
theorem sleep (sched : Sched s (insert p busy) untold) (found : s.objs p = some o)
    (quiet : p ≠ [] → o.Quiet (p ∈ cleanPaths s.stops)) :
    Sched (s.update p (·.setSched .schedulable)) busy untold := by
  have asleep := sched.setSched (p := p)
  rw [Set.insert_idem] at asleep
  refine asleep.settle (fun o' below _ found' => .inr ?_)
  rw [objs_update_self, found] at found'
  obtain rfl := Option.some.inj found'
  obtain ⟨group, cleaned, flying⟩ := quiet below
  exact ⟨group, cleaned, flying⟩

theorem finishGroup {s' : Shard} (sched : Sched s (insert (k :: p) busy) untold)
    (idle : s.stops = []) (runs : p = [] ∨ p ∈ busy) (finished : s.finishGroup p k = some s') :
    Sched s' busy untold := by
  have left : Sched s.leave (insert (k :: p) busy) untold := sched.congr rfl rfl
  cases finishesGroup finished with
  | ends status stop mailbox g found ends childless =>
    have notified := left.acknowledge (k := k) (runs.imp_right (Set.mem_insert_of_mem _)) g
    have stops : (s.leave.acknowledge p k g).stops = [] := (stops_acknowledge g).trans idle
    exact notified.destroy (congrArg cleanPaths stops)
  | stays status stop mailbox g found lives =>
    split
    · have asleep := left.setSched (p := k :: p)
      rw [Set.insert_idem] at asleep
      exact asleep.activate
    · rename_i nothing
      refine left.sleep found (fun _ => ⟨fun _ => ?_, fun actor => (by cases actor),
        fun actor => (by cases actor)⟩)
      obtain ⟨noMail, noTask⟩ := not_or.mp nothing
      have noMail : mailbox = [] := not_not.mp noMail
      have noTask : g.taskQueue = [] := not_not.mp noTask
      exact ⟨noMail, fun stopping => ActorObject.children_ne_zero _ fun none =>
        lives ⟨stopping, none, noTask, noMail⟩⟩

theorem finishActor {s' : Shard} (sched : Sched s (insert (k :: p) busy) untold)
    (idle : s.stops = []) (runs : p = [] ∨ p ∈ busy) (finished : s.finishActor p k = some s') :
    Sched s' busy untold := by
  have left : Sched s.leave (insert (k :: p) busy) untold := sched.congr rfl rfl
  cases finishesActor finished with
  | ends status stop mailbox a found ends =>
    have notified := left.notifyChildStopped (runs.imp_right (Set.mem_insert_of_mem (k :: p)))
    have stops := (stops_notifyChildStopped s.leave p).trans idle
    exact notified.destroy (congrArg cleanPaths stops)
  | stays status stop mailbox a found lives =>
    split
    · have asleep := left.setSched (p := k :: p)
      rw [Set.insert_idem] at asleep
      exact asleep.activate
    · rename_i nothing
      have limit : 0 < a.maxConcurrency := sched.limit found
      obtain ⟨-, atLimit⟩ := not_or.mp nothing
      have flying (mail : mailbox ≠ []) : 0 < a.curConcurrency := by
        have full := not_lt.mp (fun less => atLimit ⟨mail, less⟩)
        omega
      refine left.sleep found (fun _ => ⟨fun group => (by cases group), fun _ cleaning => ?_,
        fun _ _ needs => ?_⟩)
      · rw [show s.leave.stops = [] from idle] at cleaning
        cases cleaning
      · rcases needs with mail | stopping
        · exact flying mail
        · refine Nat.pos_of_ne_zero (fun none => ?_)
          by_cases mail : mailbox = []
          · exact lives ⟨stopping, none, mail⟩
          · exact absurd none (Nat.ne_of_gt (flying mail))

theorem enterChild {s' : Shard} {i : Nat} (sched : Sched s busy untold)
    (entered : s.enterChild p i = some s') : Sched s' busy untold := by
  cases entersChild entered with
  | enters status stop mailbox g k o found listed child =>
    have taken := sched.update (p := p) (fun o _ => o.tame_setActors (·.eraseIdx i))
    split
    · exact (taken.update (fun o _ => o.tame_setTasks _)).congr rfl rfl
    · exact taken.congr rfl rfl

/-- An object takes a stop message out of its mailbox and is stopped by its parent. -/
theorem takeStop (sched : Sched s busy untold) (valid : s.tree.Valid) (runs : k :: p ∈ busy)
    (mailbox : List ActorMessage) (force : Bool) :
    Sched ((s.update (k :: p) (·.setMailbox mailbox)).stopChildActor p k force) busy untold := by
  have taken := sched.change (p := k :: p) (f := (·.setMailbox mailbox))
    (fun o _ => o.kept_setMailbox mailbox) (Set.mem_insert (k :: p) untold)
    (Set.subset_insert (k :: p) untold) (fun _ _ => .inl)
  rw [Set.insert_eq_of_mem runs] at taken
  refine taken.stopChildActor ?_ force
  rw [tree_update _ _ (fun _ _ => ActorObject.node_setMailbox ..)]
  exact valid

end Sched

end Shard

end Hiactor
