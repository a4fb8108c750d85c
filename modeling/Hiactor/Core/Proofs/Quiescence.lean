import Hiactor.Core.Proofs.Exit
import Hiactor.Core.Proofs.MessageLife
import Hiactor.Core.Proofs.Stopping
import Hiactor.Core.Proofs.Turns

/-!
# Shards without work

A shard that cannot take a step of its own has nothing left to do: no run and no stop is under way,
no message waits, no continuation and no method is left, and when the shard was stopped, all its
objects are gone and it has entered the exit barrier.
-/

namespace Hiactor

open Lib

namespace Shard

/-- A message is one to the root, a stop message, or one for a method of an actor. -/
def Label.Delivers : Label → Prop
  | .receive addr type _ _ => addr = [] ∨ type = .forceStop ∨ type = .peaceStop ∨
      type = .user ∧ ∀ k ∈ addr.getLast?, k.isGroup = false
  | _ => True

instance : DecidablePred Label.Delivers
  | .receive addr type _ _ => inferInstanceAs (Decidable (addr = [] ∨ type = .forceStop ∨
      type = .peaceStop ∨ type = .user ∧ ∀ k ∈ addr.getLast?, k.isGroup = false))
  | .addTask .. | .complete .. | .setMaxConcurrency .. | .dispatch _ | .advance ..
  | .workDone .. | .workPending | .stopNext _ => isTrue trivial

end Shard

/-! ## Mailboxes and children -/

/-- The messages of an object are ones that it can handle, and it has one entry for each child. -/
structure ActorObject.Fine (p : Path) (o : ActorObject) : Prop where
  mail : ∀ m ∈ o.mailbox, m.isStop = true ∨ m.type = .user ∧ o.isGroup = false
  root : p = [] → o.mailbox = []
  keys : o.keys.Nodup

theorem ActorObject.Fine.lessens {p : Path} {o o' : ActorObject} (fine : o.Fine p)
    (lessens : Lessens p o o') : o'.Fine p where
  mail := by
    intro m member
    rcases lessens.mail m member with old | ⟨-, stop⟩
    · rw [lessens.isGroup]
      exact fine.mail m old
    · exact .inl stop
  root := by
    intro root
    refine List.eq_nil_iff_forall_not_mem.mpr fun m member => ?_
    rcases lessens.mail m member with old | ⟨below, -⟩
    · rw [fine.root root] at old
      cases old
    · exact below root
  keys := lessens.keys fine.keys

namespace Shard

variable {s s' : Shard} {p q : Path} {k : ActorKey} {o : ActorObject} {m : ActorMessage}

def AllFine (s : Shard) : Prop := ∀ p o, s.objs p = some o → o.Fine p

namespace AllFine

theorem wanes {points : Finset Path} {d : ℤ} (fine : s.AllFine) (wanes : Wanes points d s s') :
    s'.AllFine := by
  intro p o' found
  obtain ⟨o, stored, lessens⟩ := wanes.lessens found
  exact (fine p o stored).lessens lessens

theorem of_objs (fine : s.AllFine) (same : s'.objs = s.objs) : s'.AllFine :=
  fun p o found => fine p o (same ▸ found)

theorem update {f : ActorObject → ActorObject} (fine : s.AllFine)
    (lessens : ∀ o, Lessens p o (f o)) : (s.update p f).AllFine := by
  intro q o' found
  rw [objs_update] at found
  split at found
  · next here =>
    subst here
    obtain ⟨o, stored, rfl⟩ := Option.map_eq_some_iff.mp found
    exact (fine q o stored).lessens (lessens o)
  · exact fine q o' found

theorem activate (fine : s.AllFine) : (s.activate p).AllFine := by
  have wanes : Wanes ∅ 0 s (s.activate p) := .activate
  exact fine.wanes wanes

theorem createChild (fine : s.AllFine) (found : s.objs p = some o) :
    (s.createChild p k).AllFine := by
  have made : (s.made p k).AllFine := by
    intro q o' stored
    rw [objs_made found] at stored
    split at stored
    · next child =>
      obtain rfl := Option.some.inj stored
      have nothing : (ActorObject.create s.limitOf k).mailbox = [] := rfl
      refine ⟨fun m member => ?_, fun _ => nothing, ?_⟩
      · cases member
      · unfold ActorObject.create ActorObject.keys ActorObject.setSched
        cases k.isGroup <;> exact List.nodup_nil
    · split at stored
      · next parent =>
        subst parent
        obtain rfl := Option.some.inj stored
        have entered : Lessens q o (o.setEntry k true) := .setEntry o k true
        exact (fine q o found).lessens (entered.trans (.mapGroup _ fun _ => id))
      · exact fine q o' stored
  exact made.activate

theorem getActorLocal (fine : s.AllFine) (keys : List ActorKey) :
    (s.getActorLocal p keys).1.AllFine := by
  induction keys generalizing s p with
  | nil => exact fine
  | cons k keys ih =>
    unfold Shard.getActorLocal
    split
    · exact fine
    · next o found =>
      split
      · split
        · exact fine
        · exact ih fine
        · exact ih (fine.createChild found)
      · exact fine

/-- A message is put in the mailbox of an object that can handle it. -/
theorem enque (fine : s.AllFine) (below : q ≠ [])
    (handles : ∀ o, s.objs q = some o → m.isStop = true ∨ m.type = .user ∧ o.isGroup = false) :
    (s.enque q m).AllFine := by
  have put {f : ActorObject → ActorObject} {mailbox : ActorObject → List ActorMessage}
      (acts : ∀ o, f o = o.setMailbox (mailbox o))
      (members : ∀ o, ∀ m' ∈ mailbox o, m' = m ∨ m' ∈ o.mailbox) :
      ((s.emit (.enqueued m q)).update q f).AllFine := by
    intro p o' found
    rw [objs_update] at found
    split at found
    · next here =>
      subst here
      obtain ⟨o, stored, rfl⟩ := Option.map_eq_some_iff.mp found
      rw [acts o]
      refine ⟨fun m' member => ?_, fun root => absurd root below, (fine p o stored).keys⟩
      rcases members o m' member with rfl | old
      · exact handles o stored
      · exact (fine p o stored).mail m' old
    · exact fine p o' found
  unfold Shard.enque
  simp only
  split
  · refine (put (fun _ => rfl) fun o m' member => ?_).activate
    exact (List.mem_append.mp member).symm.imp_left List.mem_singleton.mp
  · exact (put (fun _ => rfl) fun o m' member => List.mem_cons.mp member).activate

end AllFine

/-- A lookup below the root ends at an actor, or at the address. -/
theorem ends_getActorLocal {keys : List ActorKey} (below : p ≠ [])
    (lookup : s.getActorLocal p keys = (s', some q)) :
    q ≠ [] ∧ ((∃ o, s'.objs q = some o ∧ o.isGroup = false) ∨ q = keys.reverse ++ p) := by
  induction keys generalizing s p with
  | nil =>
    obtain ⟨rfl, same⟩ := Prod.mk.inj lookup
    obtain rfl := Option.some.inj same
    exact ⟨below, .inr rfl⟩
  | cons k keys ih =>
    have path : (k :: keys).reverse ++ p = keys.reverse ++ k :: p := by simp
    rw [path]
    unfold Shard.getActorLocal at lookup
    split at lookup
    · cases (Prod.mk.inj lookup).2
    · next o found =>
      split at lookup
      · split at lookup
        · cases (Prod.mk.inj lookup).2
        · exact ih (List.cons_ne_nil k p) lookup
        · exact ih (List.cons_ne_nil k p) lookup
      · next actor =>
        obtain ⟨rfl, same⟩ := Prod.mk.inj lookup
        obtain rfl := Option.some.inj same
        exact ⟨below, .inl ⟨o, found, Bool.eq_false_of_not_eq_true actor⟩⟩

/-- A message that can be handled at the end of its address can be handled where the lookup ends. -/
theorem handles_getActorLocal {keys : List ActorKey} (valid : s'.tree.Valid)
    (delivers : m.isStop = true ∨ m.type = .user ∧
      ∀ j ∈ (k :: keys).getLast?, j.isGroup = false)
    (lookup : s.getActorLocal [k] keys = (s', some q)) :
    q ≠ [] ∧ ∀ o, s'.objs q = some o → m.isStop = true ∨ m.type = .user ∧ o.isGroup = false := by
  obtain ⟨below, ends⟩ := ends_getActorLocal (List.cons_ne_nil k []) lookup
  refine ⟨below, fun o found => delivers.imp_right fun ⟨user, actor⟩ => ⟨user, ?_⟩⟩
  rcases ends with ⟨o', stored, kind⟩ | path
  · obtain rfl := Option.some.inj (found.symm.trans stored)
    exact kind
  · cases q with
    | nil => exact absurd rfl below
    | cons j q =>
      rw [isGroup_of_key valid found]
      refine actor j ?_
      have last : (k :: keys).reverse = j :: q := by rw [path, List.reverse_cons]
      rw [← List.head?_reverse, last]
      rfl

theorem AllFine.receive {addr : List ActorKey} (fine : s.AllFine) (valid : s.tree.Valid)
    (delivers : addr = [] ∨ m.isStop = true ∨ m.type = .user ∧
      ∀ k ∈ addr.getLast?, k.isGroup = false)
    (received : s.receive addr m = some s') : s'.AllFine := by
  have refused {t : Shard} (fine : t.AllFine) (addr : List ActorKey) :
      (t.stoppedActorEnqueue addr m).AllFine := by
    refine fine.of_objs ?_
    unfold stoppedActorEnqueue
    simp only
    split
    · rfl
    · rfl
  cases receives received with
  | reply type => exact fine
  | stopSystem force asked =>
    unfold stopActorSystem
    split
    · exact fine.of_objs rfl
    · have stopped : (s.update [] (·.setStop force)).AllFine :=
        fine.update fun o => .setStop o force
      exact stopped.of_objs rfl
  | stopped k keys entry => exact refused fine _
  | found k keys t q entry lookup =>
    have walked := fine.getActorLocal (p := [k]) keys
    have grows := grows_getActorLocal [k] (List.cons_ne_nil k []) keys (s := s)
    rw [lookup] at walked grows
    obtain ⟨below, handles⟩ := handles_getActorLocal (grows.valid valid)
      (delivers.resolve_left (List.cons_ne_nil k keys)) lookup
    exact walked.enque below handles
  | lost k keys t entry lookup =>
    have walked := fine.getActorLocal (p := [k]) keys
    rw [lookup] at walked
    exact refused walked _
  | closed k keys unknown stopping => exact refused fine _
  | created k keys t q unknown running lookup =>
    obtain ⟨o, found, group, unknown', running'⟩ := root_of_unknown valid unknown running
    have valid₁ := (grows_createChild found group unknown' fun _ => running').valid valid
    have walked := (fine.createChild (k := k) found).getActorLocal (p := [k]) keys
    have grows := grows_getActorLocal [k] (List.cons_ne_nil k []) keys (s := s.createChild [] k)
    rw [lookup] at walked grows
    obtain ⟨below, handles⟩ := handles_getActorLocal (grows.valid valid₁)
      (delivers.resolve_left (List.cons_ne_nil k keys)) lookup
    exact walked.enque below handles

theorem AllFine.step {label : Label} (fine : s.AllFine) (inv : WorkQueued s.points s)
    (delivers : label.Delivers) (taken : s.step label = some s') : s'.AllFine := by
  by_cases own : label.bringsWork = false
  · exact fine.wanes (inv.spends own taken).wanes
  · cases takesStep taken with
    | user isUser point acted =>
      cases label with
      | receive addr type srcShardId prId =>
        obtain ⟨t, received, rfl⟩ := Option.map_eq_some_iff.mp acted
        refine (fine.receive inv.valid ?_ received).of_objs rfl
        rcases delivers with root | forced | peace | user
        · exact .inl root
        · exact .inr (.inl (by simp [ActorMessage.isStop, forced]))
        · exact .inr (.inl (by simp [ActorMessage.isStop, peace]))
        · exact .inr (.inr user)
      | addTask p urgent =>
        obtain ⟨-, rfl⟩ := addTask_cases acted
        exact (fine.update fun o => .mapActor o _).activate
      | setMaxConcurrency p concurrency =>
        obtain rfl := Option.some.inj acted
        exact fine.update fun o => .mapActor o _
      | complete => exact absurd rfl own
      | dispatch | advance | workDone | workPending | stopNext => cases isUser
    | stop frame rest isUser top went =>
      cases label with
      | receive | addTask | setMaxConcurrency => cases isUser
      | _ => exact absurd rfl own
    | run frame rest isUser idle runs went =>
      cases label with
      | receive | addTask | setMaxConcurrency => cases isUser
      | _ => exact absurd rfl own
    | dispatch i idle runs entered => exact absurd rfl own

/-! ## Kinds of runs -/

/-- The run of a group stands where groups do, and that of an actor where actors do. -/
def KindsFit (s : Shard) : Prop :=
  ∀ frame ∈ s.runs, ∀ k p, frame.path = k :: p → frame.pc.isGroup = k.isGroup

/-- A new run is that of a child that was in a queue. -/
theorem kind_enterChild {i : Nat} {frame : RunFrame} {rest : List RunFrame}
    (valid : s.tree.Valid) (entered : s.enterChild p i = some s') (runs : s'.runs = frame :: rest) :
    ∀ k q, frame.path = k :: q → frame.pc.isGroup = k.isGroup := by
  cases entersChild entered with
  | enters sched stop mailbox g k o found listed child =>
    obtain ⟨rfl, -⟩ := List.cons.inj runs
    rintro j q path
    obtain ⟨rfl, rfl⟩ := List.cons.inj path
    rw [← isGroup_of_key valid child]
    cases o.isGroup <;> rfl

/-- The first frame is new when the frames have become more. -/
theorem kind_first {label : Label} {frame : RunFrame} {rest : List RunFrame}
    (valid : s.tree.Valid) (taken : s.step label = some s') (runs : s'.runs = frame :: rest)
    (more : s.runs.length ≤ rest.length)
    (parks : ∀ other ∈ s.runs.head?, other.pc = .groupTasks ∧ s.stops = []) :
    ∀ k q, frame.path = k :: q → frame.pc.isGroup = k.isGroup := by
  have length : s'.runs.length = rest.length + 1 := by rw [runs, List.length_cons]
  cases takesStep taken with
  | user isUser point acted =>
    rw [runs_userStep acted] at length
    omega
  | stop stopFrame others isUser top went =>
    rw [runs_stopStep went] at length
    omega
  | dispatch i idle none entered => exact kind_enterChild valid entered runs
  | run other others isUser idle before went =>
    obtain ⟨path, pc⟩ := other
    obtain rfl : pc = .groupTasks := (parks ⟨path, pc⟩ (by rw [before]; rfl)).1
    cases takesRunStep went with
    | groupTasks p k needYield i ran =>
      cases runsGroupTasks ran with
      | none sched stop mailbox g found none finished =>
        rw [runs_finishGroup finished, before, List.tail_cons] at length
        rw [before, List.length_cons] at more
        omega
      | enters sched stop mailbox g found waiting entered =>
        refine kind_enterChild ?_ entered runs
        rw [tree_setPc]
        exact valid

theorem kindsFit_step {label : Label} (fit : s.KindsFit) (valid : s.tree.Valid)
    (taken : s.step label = some s') : s'.KindsFit := by
  cases framesMove_step taken with
  | same runs silent => exact fun frame member => fit frame (runs ▸ member)
  | dispatched before after =>
    intro frame member
    rw [after] at member
    obtain rfl := List.mem_singleton.mp member
    exact kind_first valid taken after (by rw [before]) (by simp [before])
  | entered idle before after =>
    intro frame member
    rw [after] at member
    rcases List.mem_cons.mp member with rfl | parked
    · exact kind_first valid taken after (by simp [before]) (by simp [before, idle])
    · rcases List.mem_cons.mp parked with rfl | old
      · exact fit ⟨_, .groupTasks⟩ (before ▸ List.mem_cons_self)
      · exact fit frame (before ▸ List.mem_cons_of_mem _ old)
  | moved idle before move after =>
    rename_i path pc next rest
    intro frame member
    rw [after] at member
    rcases List.mem_append.mp member with new | old
    · obtain ⟨pc', isNext, rfl⟩ := List.mem_map.mp new
      have next : next = some pc' := Option.mem_toList.mp isNext
      subst next
      rintro k p rfl
      have here := fit ⟨k :: p, pc⟩ (before ▸ List.mem_cons_self) k p rfl
      rw [← here]
      cases move with
      | nextMail | noMail | nextChild => rfl
      | actor next kind stays => exact (stays pc' rfl).trans kind.symm
    · exact fit frame (before ▸ List.mem_cons_of_mem _ old)

/-! ## Steps that can be taken -/

theorem FewChildren.wanes {points : Finset Path} {d : ℤ} (few : s.FewChildren)
    (wanes : Wanes points d s s') : s'.FewChildren := by
  intro p keys nodup live
  refine few p keys nodup fun k member => ?_
  obtain ⟨o', found⟩ := Option.isSome_iff_exists.mp (live k member)
  obtain ⟨o, stored, -⟩ := wanes.lessens found
  rw [stored]
  rfl

/-- All work is queued, no object has `2 ^ 32` children, every message waits for an object that can
handle it, and the methods in flight are counted. -/
structure Serviceable (s : Shard) : Prop where
  queued : WorkQueued s.points s
  few : s.FewChildren
  fine : s.AllFine
  fit : s.KindsFit
  counted : AllCounted s

theorem Serviceable.step {label : Label} (serves : Serviceable s) (own : s.LimitsItself label)
    (few : s.KeepsFew label) (delivers : label.Delivers) (taken : s.step label = some s') :
    Serviceable s' where
  queued := serves.queued.next own taken
  few := few s' taken
  fine := serves.fine.step serves.queued delivers taken
  fit := kindsFit_step serves.fit serves.queued.valid taken
  counted := serves.counted.step taken

/-- The own steps of a shard create nothing. -/
theorem Serviceable.keepsFew {label : Label} (serves : Serviceable s)
    (own : label.bringsWork = false) :
    s.KeepsFew label := by
  intro s' taken
  exact serves.few.wanes (serves.queued.spends own taken).wanes

theorem serviceable_init (limitOf : ActorKey → Nat) : Serviceable (init limitOf) where
  queued := workQueued_init limitOf
  few := fewChildren_init limitOf
  fine := by
    intro p o found
    have stored : (if p = [] then some { body := .group {} } else none) = some o := found
    split at stored
    · obtain rfl := Option.some.inj stored
      refine ⟨fun m member => ?_, fun _ => rfl, List.nodup_nil⟩
      cases member
    · cases stored
  fit := fun frame member => nomatch member
  counted := allCounted_init limitOf

theorem lookup_of_mem {map : List (ActorKey × Bool)} (nodup : (map.map Prod.fst).Nodup)
    {reached : Bool} (member : (k, reached) ∈ map) : map.lookup k = some reached := by
  induction map with
  | nil => cases member
  | cons entry map ih =>
    obtain ⟨j, b⟩ := entry
    obtain ⟨fresh, nodup⟩ := List.nodup_cons.mp nodup
    rcases List.mem_cons.mp member with same | later
    · obtain ⟨rfl, rfl⟩ := Prod.mk.inj same
      exact List.lookup_cons_self
    · have other : (k == j) = false := by
        refine beq_eq_false_iff_ne.mpr fun same => fresh ?_
        exact List.mem_map.mpr ⟨(k, reached), later, same⟩
      rw [List.lookup_cons, other]
      exact ih nodup later

/-- A stop that is under way can always go on. -/
theorem stops_of_stuck (serves : Serviceable s) (stuck : Stuck step Own s) : s.stops = [] := by
  cases top : s.stops with
  | nil => rfl
  | cons frame rest =>
    exfalso
    have went {label : Label} (own : label.bringsWork = false) (other : label.isUser = false) :
        s.stopStep frame rest label = none := by
      have none := stuck label own
      simpa [Shard.step, other, top] using none
    cases frame with
    | clean path running =>
      have cleaning : path ∈ cleanPaths s.stops := by simp [top, cleanPaths]
      obtain ⟨o, found, actor⟩ := serves.queued.settled.sched.cleaned cleaning
      obtain ⟨sched, stop, mailbox, body⟩ := o
      cases body with
      | group g => cases actor
      | actor a =>
        cases path with
        | nil =>
          obtain ⟨_, _, _, g, root⟩ := root_group serves.queued.valid
          cases found.symm.trans root
        | cons k p =>
          have none : s.cleanNext p k rest = none := @went (.advance false 0) rfl rfl
          cases front : a.taskQueue with
          | nil => simp [Shard.cleanNext, found, front] at none
          | cons task tasks => simp [Shard.cleanNext, found, front] at none
    | stopSystem force m =>
      obtain ⟨sched, stop, mailbox, g, root⟩ := root_group serves.queued.valid
      by_cases any : g.actorInstMap.any (·.2) = true
      · obtain ⟨⟨k, reached⟩, member, isTrue⟩ := List.any_eq_true.mp any
        obtain rfl : reached = true := isTrue
        have entry : s.entry [] k = some true := by
          rw [Shard.entry, root, Option.bind_some]
          exact lookup_of_mem (serves.fine [] _ root).keys member
        have none := @went (.stopNext k) rfl rfl
        simp [Shard.stopStep, entry] at none
      · have none := @went (.advance false 0) rfl rfl
        simp [Shard.stopStep, Shard.stopSystemEnd, root, any] at none

/-- An object that waits in a queue can be run. -/
theorem enterChild_of_queue {sched : SchedStatus} {stop : ActorStatus}
    {mailbox : List ActorMessage} {g : GroupBody} (line : s.InLine)
    (found : s.objs p = some ⟨sched, stop, mailbox, .group g⟩) (waiting : g.taskQueue ≠ []) :
    s.enterChild p 0 ≠ none := by
  obtain ⟨j, queue, front⟩ := List.exists_cons_of_ne_nil waiting
  have child : ∃ c, s.objs (j :: p) = some c := by
    by_contra absent
    refine line.unqueued (ready_of_objs found) (fun n stored => ?_)
      (show j ∈ g.taskQueue by rw [front]; exact List.mem_cons_self)
    obtain ⟨c, stored, -⟩ := exists_of_ready stored
    exact absurd ⟨c, stored⟩ absent
  obtain ⟨c, child⟩ := child
  simp [Shard.enterChild, found, front, child]

theorem finishGroup_ne_none {sched : SchedStatus} {stop : ActorStatus}
    {mailbox : List ActorMessage} {g : GroupBody} (valid : s.tree.Valid) (few : s.FewChildren)
    (found : s.objs (k :: p) = some ⟨sched, stop, mailbox, .group g⟩) :
    s.finishGroup p k ≠ none := by
  have exact : g.numActorsManaged = 0 ↔ g.children = 0 := few.counter_eq_zero valid found
  unfold Shard.finishGroup
  rw [found]
  simp only
  split
  · next ends => simp [exact.mp ends.2.1]
  · simp

theorem finishActor_ne_none {sched : SchedStatus} {stop : ActorStatus}
    {mailbox : List ActorMessage} {a : ActorBody}
    (found : s.objs (k :: p) = some ⟨sched, stop, mailbox, .actor a⟩) :
    s.finishActor p k ≠ none := by
  unfold Shard.finishActor
  rw [found]
  simp only
  split
  · simp
  · simp

/-- The run of a group can go on from every point. -/
theorem group_goesOn {frame : RunFrame} {sched : SchedStatus} {stop : ActorStatus}
    {mailbox : List ActorMessage} {g : GroupBody} (serves : Serviceable s)
    (found : s.objs (k :: p) = some ⟨sched, stop, mailbox, .group g⟩) (path : frame.path = k :: p)
    (kind : frame.pc.isGroup = true) : s.runStep frame (.advance false 0) ≠ none := by
  obtain ⟨path, pc⟩ := frame
  obtain rfl := path
  cases pc with
  | groupMail =>
    show s.groupMail p k false ≠ none
    cases mailbox with
    | nil => simp [Shard.groupMail, found]
    | cons m mailbox =>
      have stops : m.isStop = true :=
        ((serves.fine _ _ found).mail m List.mem_cons_self).resolve_right fun user => nomatch user.2
      simp [Shard.groupMail, found, stops]
  | groupTasks =>
    show s.groupTasks p k 0 ≠ none
    unfold Shard.groupTasks
    rw [found]
    simp only
    split
    · exact finishGroup_ne_none serves.queued.valid serves.few found
    · next waiting =>
      refine enterChild_of_queue (s := s.setPc .groupChild) ?_ found waiting
      exact serves.queued.line.setPc .groupChild
  | groupChild => simp [Shard.runStep]
  | tasks | inTask | mail | inWork | worked => cases kind

theorem actor_goesOn {frame : RunFrame} {sched : SchedStatus} {stop : ActorStatus}
    {mailbox : List ActorMessage} {a : ActorBody} (serves : Serviceable s)
    (found : s.objs (k :: p) = some ⟨sched, stop, mailbox, .actor a⟩) (path : frame.path = k :: p)
    (kind : frame.pc.isGroup = false) :
    ∃ label, label.bringsWork = false ∧ label.isUser = false ∧ s.runStep frame label ≠ none := by
  obtain ⟨path, pc⟩ := frame
  obtain rfl := path
  cases pc with
  | tasks =>
    refine ⟨.advance false 0, rfl, rfl, ?_⟩
    show s.actorTasks p k ≠ none
    cases front : a.taskQueue with
    | nil =>
      by_cases full : a.curConcurrency = a.maxConcurrency
      · simp [Shard.actorTasks, found, front, full]
      · simp [Shard.actorTasks, found, front, full]
    | cons task tasks => simp [Shard.actorTasks, found, front]
  | mail =>
    refine ⟨.advance false 0, rfl, rfl, ?_⟩
    show s.actorMail p k ≠ none
    cases mailbox with
    | nil =>
      unfold Shard.actorMail
      rw [found]
      exact finishActor_ne_none found
    | cons m mailbox =>
      have handled := (serves.fine _ _ found).mail m List.mem_cons_self
      cases type : m.type with
      | user | forceStop | peaceStop => simp [Shard.actorMail, found, type]
      | response | exceptionResponse => simp [ActorMessage.isStop, type] at handled
  | inWork m =>
    refine ⟨.workDone none .no, rfl, rfl, ?_⟩
    show s.workDone p k m none .no ≠ none
    simp [Shard.workDone, found]
  | inTask | worked => exact ⟨.advance false 0, rfl, rfl, by simp [Shard.runStep]⟩
  | groupMail | groupTasks | groupChild => cases kind

/-- A run that is under way can always go on. -/
theorem runs_of_stuck (serves : Serviceable s) (stuck : Stuck step Own s) : s.runs = [] := by
  have idle := stops_of_stuck serves stuck
  cases runs : s.runs with
  | nil => rfl
  | cons frame rest =>
    exfalso
    have went {label : Label} (own : label.bringsWork = false) (other : label.isUser = false) :
        s.runStep frame label = none := by
      have none := stuck label own
      simpa [Shard.step, other, idle, runs] using none
    have nested := serves.queued.settled.nested
    rw [runs] at nested
    obtain ⟨⟨k, path⟩, -⟩ := nested
    generalize topPath rest = p at path
    have member : frame ∈ s.runs := runs ▸ List.mem_cons_self
    obtain ⟨n, stored, -⟩ := serves.queued.line.held (.inl ⟨frame, member, path⟩)
    obtain ⟨o, found, -⟩ := exists_of_ready stored
    have kind : frame.pc.isGroup = o.isGroup :=
      (serves.fit frame member k p path).trans (isGroup_of_key serves.queued.valid found).symm
    obtain ⟨sched, stop, mailbox, body⟩ := o
    cases body with
    | group g => exact group_goesOn serves found path kind (went rfl rfl)
    | actor a =>
      obtain ⟨label, own, other, enabled⟩ := actor_goesOn serves found path kind
      exact enabled (went own other)

/-- Nothing waits in the queue of the root, so that no object below it is scheduled. -/
theorem atRest_of_stuck (serves : Serviceable s) (stuck : Stuck step Own s) :
    s.AtRest ∧ ∀ n, s.ready [] = some n → n.children = [] := by
  have idle := stops_of_stuck serves stuck
  have none := runs_of_stuck serves stuck
  have root : ∀ n, s.ready [] = some n → n.children = [] := by
    intro n stored
    obtain ⟨o, found, rfl⟩ := exists_of_ready stored
    obtain ⟨sched, stop, mailbox, g, group⟩ := root_group serves.queued.valid
    obtain rfl := Option.some.inj (found.symm.trans group)
    by_contra waiting
    refine enterChild_of_queue serves.queued.line found waiting ?_
    have enabled := stuck (.dispatch 0) rfl
    simpa [Shard.step, Label.isUser, idle, none] using enabled
  refine ⟨⟨none, idle, fun {p o} => ?_⟩, root⟩
  -- by induction on the layers: an object that is scheduled waits in a queue that is not empty
  induction p generalizing o with
  | nil => exact fun below => absurd rfl below
  | cons k p ih =>
    intro _ found scheduled
    obtain ⟨n, stored, inner⟩ := serves.queued.line.parent (ready_of_objs found)
    have once := serves.queued.line.queued (ready_of_objs found) stored
      (o.ready_iff.mpr scheduled) (by simp [runPaths, none])
    have waiting : n.children ≠ [] := by
      intro empty
      rw [empty] at once
      cases once
    cases p with
    | nil => exact waiting (root n stored)
    | cons j p =>
      obtain ⟨parent, above, rfl⟩ := exists_of_ready stored
      have asleep := ih (List.cons_ne_nil j p) above
      have ready := serves.queued.settled.sched.ready (List.cons_ne_nil j p) above
      have status : parent.schedStatus = .schedulable := by
        cases status : parent.schedStatus with
        | schedulable => rfl
        | initialized => exact absurd status ready
        | scheduled => exact absurd status asleep
      exact waiting (serves.queued.line.idle (Set.notMem_empty _) stored
        (parent.idle_iff.mpr status)).2

/-! ## Drained shards -/

/-- The shard has nothing left to do. -/
structure Drained (s : Shard) : Prop where
  atRest : s.AtRest
  /-- No message, continuation or child waits, and no method is in flight. -/
  empty : ∀ {p o}, s.objs p = some o → o.mailbox = [] ∧ o.tasks = [] ∧
    o.readyNode.children = [] ∧ o.numInFlight = 0 ∧ o.curConcurrency = 0
  /-- Every message that was put in a mailbox or refused was reclaimed once. -/
  reclaimed : ∀ {m}, ((∃ p, .enqueued m p ∈ s.log) ∨ ∃ addr, .rejected m addr ∈ s.log) →
    reclaims m.mid s.log = 1
  /-- A shard that was stopped has entered the exit barrier, with nothing left on it. -/
  closed : s.rootStopping = true → (∀ p, p ≠ [] → s.objs p = none) ∧ s.log.count .exited = 1

/-- A method in flight can complete. -/
theorem inFlight_of_stuck {sched : SchedStatus} {stop : ActorStatus} {mailbox : List ActorMessage}
    {a : ActorBody} (serves : Serviceable s) (stuck : Stuck step Own s)
    (found : s.objs p = some ⟨sched, stop, mailbox, .actor a⟩) : a.inFlight = [] := by
  have idle := stops_of_stuck serves stuck
  have none := runs_of_stuck serves stuck
  cases flying : a.inFlight with
  | nil => rfl
  | cons m inFlight =>
    have point : s.userPoint = true := by simp [userPoint, idle, none]
    have enabled := stuck (.complete p 0 .none .no) rfl
    simp [Shard.step, Label.isUser, point, userStep, Shard.complete, found, flying] at enabled

theorem empty_of_stuck (serves : Serviceable s) (stuck : Stuck step Own s)
    (found : s.objs p = some o) :
    o.mailbox = [] ∧ o.tasks = [] ∧ o.readyNode.children = [] ∧ o.numInFlight = 0 ∧
      o.curConcurrency = 0 := by
  obtain ⟨rest, root⟩ := atRest_of_stuck serves stuck
  by_cases below : p = []
  · subst below
    obtain ⟨sched, stop, mailbox, g, group⟩ := root_group serves.queued.valid
    obtain rfl := Option.some.inj (found.symm.trans group)
    exact ⟨(serves.fine [] _ found).root rfl, rfl, root _ (ready_of_objs found), rfl, rfl⟩
  · have status : o.schedStatus = .schedulable := by
      cases status : o.schedStatus with
      | schedulable => rfl
      | initialized => exact absurd status (serves.queued.settled.sched.ready below found)
      | scheduled => exact absurd status (rest.idle below found)
    obtain ⟨noWork, noChildren⟩ := serves.queued.line.idle (Set.notMem_empty _)
      (ready_of_objs found) (o.idle_iff.mpr status)
    obtain ⟨sched, stop, mailbox, body⟩ := o
    cases body with
    | group g =>
      refine ⟨?_, rfl, noChildren, rfl, rfl⟩
      simpa [ActorObject.readyNode, ActorObject.hasWork] using noWork
    | actor a =>
      have flying := inFlight_of_stuck serves stuck found
      simp only [ActorObject.readyNode, ActorObject.hasWork, decide_eq_false_iff_not, not_or,
        not_and, not_lt, ne_eq, not_not] at noWork
      obtain ⟨noTasks, noMail⟩ := noWork
      have balanced : a.Balanced := serves.counted.2 p below _ (cores_of_objs found) a rfl
      have none : a.curConcurrency = 0 := by
        unfold ActorBody.Balanced at balanced
        rw [flying, noTasks] at balanced
        exact balanced
      refine ⟨?_, noTasks, rfl, by simp [ActorObject.numInFlight, flying], none⟩
      by_contra mail
      have limit : 0 < a.maxConcurrency := serves.queued.settled.sched.limit found
      have full := noMail mail
      omega

theorem closed_of_stuck (serves : Serviceable s) (once : ExitOnce s) (stuck : Stuck step Own s)
    (closed : s.rootStopping = true) :
    (∀ p, p ≠ [] → s.objs p = none) ∧ s.log.count .exited = 1 := by
  obtain ⟨rest, -⟩ := atRest_of_stuck serves stuck
  have gone : ∀ p, p ≠ [] → s.objs p = none := by
    intro p below
    by_contra live
    obtain ⟨o, found⟩ := Option.ne_none_iff_exists'.mp live
    obtain ⟨q, c, stored, -, flying⟩ :=
      rest.flying serves.queued.settled serves.queued.valid closed below found
    rw [(empty_of_stuck serves stuck stored).2.2.2.2] at flying
    exact absurd flying (lt_irrefl 0)
  refine ⟨gone, ?_⟩
  obtain ⟨sched, stop, mailbox, g, root⟩ := root_group serves.queued.valid
  have zero : s.rootChildren = 0 := by
    by_contra some
    have count : s.rootChildren = g.children := by rw [rootChildren, root]; rfl
    obtain ⟨j, c, child⟩ := exists_child serves.queued.valid root fun none =>
      some (count.trans none)
    rw [gone [j] (List.cons_ne_nil j [])] at child
    cases child
  have one := once.alone closed zero
  rw [systemStops, stops_of_stuck serves stuck] at one
  exact one

/-- No message is handled. -/
theorem not_handles_of_stuck (serves : Serviceable s) (stuck : Stuck step Own s) :
    ¬ s.Handles p m := by
  rintro (member | ⟨sched, stop, mailbox, a, found, waits⟩)
  · rw [runs_of_stuck serves stuck] at member
    cases member
  · have tasks : a.taskQueue = [] := (empty_of_stuck serves stuck found).2.1
    rcases waits with flying | ⟨task, queued, -⟩
    · rw [inFlight_of_stuck serves stuck found] at flying
      cases flying
    · rw [tasks] at queued
      cases queued

/-- No message is on its way through the shard. -/
theorem settled_of_stuck {limitOf : ActorKey → Nat} (serves : Serviceable s)
    (reachable : Reachable step (init limitOf) s) (stuck : Stuck step Own s)
    (arrived : (∃ p, .enqueued m p ∈ s.log) ∨ ∃ addr, .rejected m addr ∈ s.log) :
    ∃ answers, (stageOf s.log m.mid).settled = some answers ∧ reclaims m.mid s.log = 1 := by
  obtain ⟨traced, lived⟩ := lived_of_reachable reachable
  obtain ⟨followed, right⟩ := stage_of_traced traced arrived
  have counts := counts_stageOf followed right
  have sound : Sound _ _ m.mid (stageOf s.log m.mid) := traced.sound followed
  have mine := msg_of_traced traced arrived
  cases stage : stageOf s.log m.mid with
  | fresh | ended | wrong =>
    rw [stage] at mine
    cases mine
  | refusing =>
    rw [stage] at sound
    exact sound.elim
  | waiting msg q =>
    obtain ⟨o, found, waits⟩ := mem_mailbox_of_heldAt (lived.waits traced followed stage)
    rw [(empty_of_stuck serves stuck found).1] at waits
    cases waits
  | working msg q answers =>
    obtain ⟨kind, isHeld, notMail, notCancel⟩ := lived.works traced followed stage
    exact absurd (handles_of_heldAt isHeld notMail notCancel) (not_handles_of_stuck serves stuck)
  | done msg q answers late =>
    rw [stage] at counts
    exact ⟨_, rfl, counts.2⟩
  | refused msg answers =>
    rw [stage] at counts
    exact ⟨_, rfl, counts.2⟩

theorem serviceable_of_run {limitOf : ActorKey → Nat} {labels : List Label}
    (own : StepsMeet step LimitsItself (init limitOf) labels)
    (few : StepsMeet step KeepsFew (init limitOf) labels)
    (delivers : ∀ label ∈ labels, label.Delivers)
    (ran : run step (init limitOf) labels = some s) : Serviceable s :=
  run_invariant_of_meets Serviceable
    (fun _ _ _ serves ok taken => serves.step ok.1 ok.2.1 ok.2.2 taken) labels _ s
    (serviceable_init limitOf) (own.and (few.and (stepsMeet_of_forall delivers _))) ran

theorem drained_of_serviceable {limitOf : ActorKey → Nat} (serves : Serviceable s)
    (reached : ReachedBy step KeepsFew (init limitOf) s) (stuck : Stuck step Own s) :
    s.Drained where
  atRest := (atRest_of_stuck serves stuck).1
  empty := empty_of_stuck serves stuck
  reclaimed := fun arrived =>
    (settled_of_stuck serves reached.reachable stuck arrived).choose_spec.2
  closed := closed_of_stuck serves (exitOnce_of_reached reached) stuck

/-- From every state that a run with few children reaches the shard can work off all that it was
given: some sequence of its own steps ends in a state in which it has nothing left to do, and a
state in which it can take no step of its own is one. -/
theorem drains {limitOf : ActorKey → Nat} {labels : List Label}
    (own : StepsMeet step LimitsItself (init limitOf) labels)
    (few : StepsMeet step KeepsFew (init limitOf) labels)
    (delivers : ∀ label ∈ labels, label.Delivers)
    (ran : run step (init limitOf) labels = some s) :
    (∃ more t, StepsMeet step Own s more ∧ run step s more = some t ∧ t.Drained) ∧
      ∀ more t, StepsMeet step Own s more → run step s more = some t → Stuck step Own t →
        t.Drained := by
  have limits {label : Label} (mine : label.bringsWork = false) (s : Shard) :
      LimitsItself s label := by
    cases label with
    | setMaxConcurrency => cases mine
    | _ => trivial
  have delivered {label : Label} (mine : label.bringsWork = false) : label.Delivers := by
    cases label with
    | receive => cases mine
    | _ => trivial
  have follows {more : List Label} {t : Shard} (mine : StepsMeet step Own s more)
      (went : run step s more = some t) (stuck : Stuck step Own t) : t.Drained := by
    have serves₀ := serviceable_of_run own few delivers ran
    have preserved (s : Shard) (label : Label) (s' : Shard) (serves : Serviceable s)
        (mine : label.bringsWork = false) (taken : s.step label = some s') : Serviceable s' :=
      serves.step (limits mine s) (serves.keepsFew mine) (delivered mine) taken
    have serves : Serviceable t := run_invariant_of_meets Serviceable preserved more s t serves₀
      mine went
    have keeps : StepsMeet step KeepsFew s more :=
      mine.of_invariant Serviceable preserved (fun _ _ serves => serves.keepsFew) serves₀
    exact drained_of_serviceable serves ⟨labels ++ more, few.append ran keeps, run_append ran went⟩
      stuck
  refine ⟨?_, fun more t => follows⟩
  obtain ⟨more, t, mine, went, stuck⟩ := exists_stuck
    (fun _ _ _ inv mine taken => WorkQueued.decreases inv mine taken) (workQueued_of_run own ran)
  exact ⟨more, t, mine, went, follows mine went stuck⟩

/-- An actor is in its first method, with a second message in its mailbox, and the shard is told to
stop. -/
def closingRun : List Label :=
  [.receive [scopeKey, workerKey] .user 3 5, .receive [scopeKey, workerKey] .user 4 6, .dispatch 0,
    .advance false 0, .advance false 0, .advance false 0, .advance false 0,
    .receive [] .peaceStop 3 7]

def closingEnd : Shard := (run step (init fun _ => 1) closingRun).get (by decide)

theorem closing_drains :
    closingEnd.stops = [.stopSystem false ⟨3, .peaceStop, 3, 7⟩] ∧
      closingEnd.runs.map RunFrame.path = [[workerKey, scopeKey], [scopeKey]] ∧
      ∃ more t, StepsMeet step Own closingEnd more ∧ run step closingEnd more = some t ∧
        t.Drained := by
  have own : StepsMeet step LimitsItself (init fun _ => 1) closingRun := by decide
  have ran : run step (init fun _ => 1) closingRun = some closingEnd :=
    (Option.some_get (by decide)).symm
  have few : StepsMeet step KeepsFew (init fun _ => 1) closingRun :=
    keepsFew_of_created ran (by decide)
  have delivers : ∀ label ∈ closingRun, label.Delivers := by decide
  exact ⟨by decide, by decide, (drains own few delivers ran).1⟩

end Shard

end Hiactor
