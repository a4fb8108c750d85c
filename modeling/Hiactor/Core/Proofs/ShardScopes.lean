import Mathlib.Data.Finset.Card
import Hiactor.Core.Proofs.Crowd
import Hiactor.Core.Proofs.ShardRouting

/-!
# The life of scopes

The counter of a group is the number of its children, a group answers its cancellation in the
step that destroys it, and nothing lives below an object that was destroyed.
-/

namespace Hiactor

open Lib

namespace Shard

variable {s : Shard} {p : Path}

/-! ## Who sends responses -/

/-- A group that has sent a response is destroyed in `s'`, unless the response is already in
`s`. -/
def SendsOnce (s s' : Shard) : Prop :=
  ∀ k p r, k.isGroup = true → (k :: p, r) ∈ s'.sents →
    (k :: p, r) ∈ s.sents ∨ k :: p ∈ s'.tree.removed

theorem SendsOnce.of_eq {s s' : Shard} (same : s'.sents = s.sents) : SendsOnce s s' :=
  fun _ _ _ _ member => .inl (same ▸ member)

theorem SendsOnce.of_sent {s s' : Shard} {q : Path} {r : Reply}
    (sents : ∀ e ∈ s'.sents, e ∈ s.sents ∨ e = (q, r))
    (sender : ∀ k p, q = k :: p → k.isGroup = true → q ∈ s'.tree.removed) : SendsOnce s s' := by
  intro k p r' group member
  rcases sents _ member with old | new
  · exact .inl old
  · obtain ⟨rfl, -⟩ := Prod.mk.inj new
    exact .inr (sender k p rfl group)

theorem sents_emit_sent (q : Path) (r : Reply) :
    (s.emit (.sent q r)).sents = s.sents ++ [(q, r)] := by
  simp [sents]

theorem sents_runTask_ne {task : Task} (quiet : ∀ msg failed, task ≠ .reply msg failed) :
    (s.runTask p task).sents = s.sents := by
  cases task with
  | user => rfl
  | reply msg failed => exact absurd rfl (quiet msg failed)
  | post msg state =>
    unfold runTask
    simp only
    have finished (s : Shard) : (s.reclaim msg).sents = s.sents := sents_of_log rfl (by simp)
    split
    · cases p with
      | nil => exact finished _
      | cons k p => exact (sents_stopChildActor ..).trans (finished _)
    · exact finished _

theorem sendsOnce_runTask {k : ActorKey} (task : Task) (actor : k.isGroup = false) :
    SendsOnce s (s.runTask (k :: p) task) := by
  cases task with
  | reply msg failed =>
    refine .of_sent (q := k :: p) (r := msg.reply failed) ?_ ?_
    · intro e member
      have sents : (s.runTask (k :: p) (.reply msg failed)).sents =
          s.sents ++ [(k :: p, msg.reply failed)] := by
        rw [← sents_emit_sent]
        exact sents_eq (by simp [runTask])
      rw [sents] at member
      simpa using member
    · rintro k' p' same group
      obtain ⟨rfl, -⟩ := List.cons.inj same
      rw [actor] at group
      cases group
  | user | post => exact .of_eq (sents_runTask_ne (by simp))

theorem sents_reclaim (m : ActorMessage) : (s.reclaim m).sents = s.sents :=
  sents_of_log rfl (by simp)

theorem sents_getActorLocal (keys : List ActorKey) :
    (s.getActorLocal p keys).1.sents = s.sents := by
  induction keys generalizing s p with
  | nil => rfl
  | cons k keys ih =>
    unfold getActorLocal
    split
    · rfl
    · split
      · split
        · rfl
        · exact ih
        · exact ih.trans (sents_of_log (log_createChild s p k) (by simp))
      · rfl

theorem sents_enque (m : ActorMessage) : (s.enque p m).sents = s.sents :=
  sents_of_log (log_enque m) (by simp)

theorem sendsOnce_stoppedActorEnqueue (addr : List ActorKey) (m : ActorMessage) :
    SendsOnce s (s.stoppedActorEnqueue addr m) := by
  refine .of_sent (q := []) (r := m.reply true) ?_ (fun k p root => by cases root)
  intro e member
  rw [sents, (rejected_stoppedActorEnqueue addr m).log] at member
  split at member
  · simpa [sents] using member
  · exact .inl (by simpa [sents] using member)

theorem SendsOnce.after {s s₁ s' : Shard} (same : s₁.sents = s.sents)
    (sends : SendsOnce s₁ s') : SendsOnce s s' :=
  fun k p r group member => same ▸ sends k p r group member

theorem sendsOnce_receive {addr : List ActorKey} {m : ActorMessage} {s' : Shard}
    (received : s.receive addr m = some s') : SendsOnce s s' := by
  have looked (s : Shard) (p : Path) (keys : List ActorKey) (found : Option Path) (t : Shard)
      (lookup : s.getActorLocal p keys = (t, found)) : t.sents = s.sents := by
    rw [← sents_getActorLocal (s := s) (p := p) keys, lookup]
  cases receives received with
  | reply type => exact .of_eq rfl
  | stopSystem force asked =>
    refine .of_eq ?_
    unfold stopActorSystem
    split
    · exact sents_reclaim m
    · exact sents_eq rfl
  | stopped k keys entry => exact sendsOnce_stoppedActorEnqueue _ _
  | found k keys t q entry lookup =>
    exact .of_eq ((sents_enque m).trans (looked _ _ _ _ _ lookup))
  | lost k keys t entry lookup =>
    exact (sendsOnce_stoppedActorEnqueue _ _).after (looked _ _ _ _ _ lookup)
  | closed k keys unknown stopping => exact sendsOnce_stoppedActorEnqueue _ _
  | created k keys t q unknown running lookup =>
    refine .of_eq ((sents_enque m).trans ((looked _ _ _ _ _ lookup).trans ?_))
    exact sents_of_log (log_createChild s [] _) (by simp)

theorem sents_notifyChildStopped : (s.notifyChildStopped p).sents = s.sents := by
  unfold notifyChildStopped
  simp only
  split
  · exact sents_of_log (s := s) rfl (by simp)
  · rfl

theorem sents_destroy : (s.destroy p).sents = s.sents := sents_of_log rfl (by simp)

theorem removed_destroy : (s.destroy p).tree.removed = s.tree.removed ++ [p] := by
  simp [tree, destroy]

variable {k : ActorKey} {s' : Shard}

theorem sendsOnce_finishGroup (finished : s.finishGroup p k = some s') : SendsOnce s s' := by
  cases finishesGroup finished with
  | ends sched stop mailbox g found ends childless =>
    refine .of_sent (q := k :: p)
      (r := ⟨g.cancelRequestMid, g.cancelRequestSid, g.cancelRequestPrId, false⟩) ?_ ?_
    · intro e member
      rw [sents_destroy] at member
      split at member
      · rw [sents_emit_sent, sents_notifyChildStopped] at member
        exact (List.mem_append.mp member).imp_right List.mem_singleton.mp
      · rw [sents_notifyChildStopped] at member
        exact .inl member
    · rintro - - - -
      rw [removed_destroy]
      simp
  | stays sched stop mailbox g found lives =>
    refine .of_eq (sents_eq ?_)
    split
    · simp
    · rfl

theorem sents_finishActor (finished : s.finishActor p k = some s') : s'.sents = s.sents := by
  cases finishesActor finished with
  | ends sched stop mailbox a found ends =>
    rw [sents_destroy, sents_notifyChildStopped]
    rfl
  | stays sched stop mailbox a found lives =>
    refine sents_eq ?_
    split
    · simp
    · rfl

theorem sents_enterChild {i : Nat} (entered : s.enterChild p i = some s') :
    s'.sents = s.sents := by
  cases entersChild entered with
  | enters sched stop mailbox g k o found listed child =>
    refine sents_eq ?_
    split <;> rfl

theorem sents_obeyStop (m : ActorMessage) (mailbox : List ActorMessage) :
    (s.obeyStop p k m mailbox).sents = s.sents := by
  rw [obeyStop, sents_reclaim]
  exact (sents_eq (log_update ..)).trans (sents_stopChildActor ..)

theorem sendsOnce_groupMail {needYield : Bool} (handled : s.groupMail p k needYield = some s') :
    SendsOnce s s' := by
  cases handlesGroupMail handled with
  | none sched stop g found => exact .of_eq rfl
  | yields sched stop m mailbox g found isStop finished =>
    exact (sendsOnce_finishGroup finished).after (sents_obeyStop m mailbox)
  | goesOn sched stop m mailbox g found isStop => exact .of_eq (sents_obeyStop m mailbox)

theorem sendsOnce_groupTasks {i : Nat} (ran : s.groupTasks p k i = some s') :
    SendsOnce s s' := by
  cases runsGroupTasks ran with
  | none sched stop mailbox g found none finished => exact sendsOnce_finishGroup finished
  | enters sched stop mailbox g found waiting entered =>
    exact .of_eq ((sents_enterChild entered).trans rfl)

/-- The key of an actor is not that of a group. -/
theorem isGroup_of_actor {sched : SchedStatus} {stop : ActorStatus} {mailbox : List ActorMessage}
    {a : ActorBody} (valid : s.tree.Valid)
    (found : s.objs (k :: p) = some ⟨sched, stop, mailbox, .actor a⟩) : k.isGroup = false :=
  (isGroup_of_key valid found).symm

theorem sendsOnce_actorTasks (valid : s.tree.Valid) (ran : s.actorTasks p k = some s') :
    SendsOnce s s' := by
  cases runsActorTasks ran with
  | next sched stop mailbox a found task tasks front =>
    exact (sendsOnce_runTask task (isGroup_of_actor valid found)).after rfl
  | full sched stop mailbox a found none full => exact .of_eq rfl
  | opens sched stop mailbox a found none free => exact .of_eq rfl

theorem sents_actorMail (handled : s.actorMail p k = some s') : s'.sents = s.sents := by
  cases handlesActorMail handled with
  | none sched stop a found finished => exact sents_finishActor finished
  | starts sched stop m mailbox a found user => exact sents_of_log (s := s) rfl (by simp)
  | stops sched stop m mailbox a found force asked =>
    rw [sents_reclaim]
    exact (sents_stopChildActor ..).trans rfl

theorem sendsOnce_workDone {m : ActorMessage} {reply : Option Bool} {state : WorkState}
    (valid : s.tree.Valid) (done : s.workDone p k m reply state = some s') : SendsOnce s s' := by
  unfold workDone at done
  split at done
  · rename_i found
    have actor := isGroup_of_actor valid found
    obtain rfl := Option.some.inj done
    have stopped (t : Shard) : (if state = .yes then t.stopChildActor p k true else t).sents =
        t.sents := by
      split
      · exact sents_stopChildActor ..
      · rfl
    cases reply with
    | none => exact .of_eq ((stopped _).trans (sents_reclaim m))
    | some failed =>
      refine .of_sent (q := k :: p) (r := m.reply failed) ?_ ?_
      · intro e member
        rw [stopped, sents_reclaim] at member
        have sents : ((s.emit (.sent (k :: p) (m.reply failed))).setPc .worked).sents =
            s.sents ++ [(k :: p, m.reply failed)] :=
          (sents_eq rfl).trans (sents_emit_sent ..)
        rw [sents] at member
        simpa using member
      · rintro k' p' same group
        obtain ⟨rfl, -⟩ := List.cons.inj same
        rw [actor] at group
        cases group
  · cases done

theorem sents_workPending {m : ActorMessage} (pending : s.workPending p k m = some s') :
    s'.sents = s.sents := by
  obtain ⟨sched, stop, mailbox, a, found, ⟨full, pending⟩ | ⟨free, rfl⟩⟩ :=
    workPending_cases pending
  · exact (sents_finishActor pending).trans rfl
  · rfl

theorem sendsOnce_cleanNext {rest : List StopFrame} (valid : s.tree.Valid)
    (cleaned : s.cleanNext p k rest = some s') : SendsOnce s s' := by
  cases cleansNext cleaned with
  | next sched stop mailbox a found task tasks _ =>
    exact (sendsOnce_runTask task (isGroup_of_actor valid found)).after rfl
  | ends sched stop mailbox a found none =>
    have log : (({ s with stops := rest }.activateIdle (k :: p)).disable p k).log =
        s.log ++ [.disabled (k :: p)] := by simp
    exact .of_eq (sents_of_log log (by simp))

theorem sents_stopSystemEnd {m : ActorMessage} {rest : List StopFrame}
    (ended : s.stopSystemEnd m rest = some s') : s'.sents = s.sents := by
  cases endsSystem ended with
  | ends sched stop mailbox g root closed =>
    rw [sents_reclaim]
    split
    · exact sents_of_log (s := s) rfl (by simp)
    · rfl

theorem sendsOnce_userStep {label : Label} (taken : s.userStep label = some s') :
    SendsOnce s s' := by
  cases label with
  | receive addr type srcShardId prId =>
    obtain ⟨s₁, received, rfl⟩ := Option.map_eq_some_iff.mp taken
    exact fun k p r group member => sendsOnce_receive received k p r group member
  | addTask p urgent =>
    obtain ⟨-, rfl⟩ := addTask_cases taken
    exact .of_eq (sents_eq (log_addTask ..))
  | complete p i reply state =>
    cases completes taken with
    | lands sched stop mailbox a found m flying => exact .of_eq (sents_eq (by simp))
  | setMaxConcurrency p concurrency =>
    obtain rfl := Option.some.inj taken
    exact .of_eq rfl
  | dispatch | advance | workDone | workPending | stopNext => cases taken

theorem sendsOnce_runStep {frame : RunFrame} {label : Label} (valid : s.tree.Valid)
    (taken : s.runStep frame label = some s') : SendsOnce s s' := by
  cases takesRunStep taken with
  | groupMail p k needYield i handled => exact sendsOnce_groupMail handled
  | groupTasks p k needYield i ran => exact sendsOnce_groupTasks ran
  | groupYields p k i finished => exact sendsOnce_finishGroup finished
  | actorTasks p k needYield i ran => exact sendsOnce_actorTasks valid ran
  | taskYields p k i finished => exact .of_eq (sents_finishActor finished)
  | actorMail p k needYield i handled => exact .of_eq (sents_actorMail handled)
  | workDone p k m reply state done => exact sendsOnce_workDone valid done
  | workPending p k m pending => exact .of_eq (sents_workPending pending)
  | workYields p k i finished => exact .of_eq (sents_finishActor finished)
  | groupGoesOn | taskGoesOn | workGoesOn => exact .of_eq rfl

theorem sendsOnce_stopStep {frame : StopFrame} {rest : List StopFrame} {label : Label}
    (valid : s.tree.Valid) (taken : s.stopStep frame rest label = some s') : SendsOnce s s' := by
  cases takesStopStep taken with
  | cleanNext p k running needYield i cleaned => exact sendsOnce_cleanNext valid cleaned
  | stopNext force m k entry => exact .of_eq (sents_stopChildActor ..)
  | stopSystemEnd force needYield m i ended => exact .of_eq (sents_stopSystemEnd ended)

/-- Only the step that destroys a group sends a response in its name. -/
theorem sendsOnce_step {label : Label} (valid : s.tree.Valid) (taken : s.step label = some s') :
    SendsOnce s s' := by
  cases takesStep taken with
  | user isUser point acted => exact sendsOnce_userStep acted
  | stop frame rest isUser top went => exact sendsOnce_stopStep valid went
  | run frame rest isUser idle runs went => exact sendsOnce_runStep valid went
  | dispatch i idle runs entered => exact .of_eq (sents_enterChild entered)

/-! ## The life of scopes -/

theorem mem_sents {q : Path} {r : Reply} : (q, r) ∈ s.sents ↔ .sent q r ∈ s.log := by
  simp only [sents, List.mem_filterMap]
  constructor
  · rintro ⟨e, member, found⟩
    cases e with
    | sent q' r' =>
      obtain ⟨rfl, rfl⟩ := Prod.mk.inj (Option.some.inj found)
      exact member
    | _ => cases found
  · exact fun member => ⟨_, member, rfl⟩

theorem objs_eq_none : s.tree.node p = none ↔ s.objs p = none := Option.map_eq_none_iff

/-- A group that has answered a cancellation has been destroyed. -/
theorem removed_of_sent {limitOf : ActorKey → Nat}
    (reachable : Reachable step (init limitOf) s) :
    ∀ k p r, k.isGroup = true → (k :: p, r) ∈ s.sents → k :: p ∈ s.tree.removed := by
  have invariant : s.tree.Valid ∧
      ∀ k p r, k.isGroup = true → (k :: p, r) ∈ s.sents → k :: p ∈ s.tree.removed := by
    obtain ⟨labels, ran⟩ := reachable
    refine run_invariant (fun s => s.tree.Valid ∧
      ∀ k p r, k.isGroup = true → (k :: p, r) ∈ s.sents → k :: p ∈ s.tree.removed)
      ?_ labels (init limitOf) s ?_ ran
    · rintro t label t' ⟨valid, gone⟩ taken
      have refines := refines_step valid taken
      refine ⟨valid.steps refines, fun k p r group member => ?_⟩
      rcases sendsOnce_step valid taken k p r group member with before | now
      · exact (LifeTree.extends_of_steps refines).removed _ (gone k p r group before)
      · exact now
    · refine ⟨?_, fun k p r _ member => by cases member⟩
      rw [tree_init]
      exact LifeTree.valid_rootOnly _
  exact invariant.2

/-- The object at `q` is destroyed by the step to `s'`, or answers its cancellation in it. -/
def Ends (s s' : Shard) (q : Path) : Prop :=
  ((s.objs q).isSome = true ∧ s'.objs q = none) ∨
    ((∃ k p, q = k :: p ∧ k.isGroup = true) ∧ ∃ r, .sent q r ∈ s'.log ∧ .sent q r ∉ s.log)

/-- Scopes: in every run in which no object ever has `2 ^ 32` children the counter of a group is the
number of its children, and is positive when a step destroys a child; an object that is destroyed
and a group that answers its cancellation are gone with that step and had nothing below them; and
nothing lives there in any run from then on. -/
theorem scopes_of_reached {limitOf : ActorKey → Nat}
    (reached : ReachedBy step KeepsFew (init limitOf) s) :
    (∀ p o, s.objs p = some o → o.isGroup = true → ∃ children : Finset ActorKey,
      (∀ k, k ∈ children ↔ (s.objs (k :: p)).isSome = true) ∧
        o.numActorsManaged.toNat = children.card) ∧
    (∀ label s' k p, s.step label = some s' → (s.objs (k :: p)).isSome = true →
      s'.objs (k :: p) = none → ∃ o, s.objs p = some o ∧ 0 < o.numActorsManaged) ∧
    (∀ label s' p, s.step label = some s' → Ends s s' p →
      .destroyed p ∈ s'.log ∧ s'.objs p = none ∧
        ∀ q, p <:+ q → q ≠ p → s.objs q = none) ∧
    (∀ p, (.destroyed p ∈ s.log ∨
        (∃ k q, p = k :: q ∧ k.isGroup = true) ∧ ∃ r, .sent p r ∈ s.log) →
      ∀ labels t, run step s labels = some t → ∀ q, p <:+ q → t.objs q = none) := by
  have reachable := reached.reachable
  have valid := valid_of_reachable reachable
  have few := fewChildren_of_reached reached
  refine ⟨?_, ?_, ?_, ?_⟩
  · intro p o found _
    obtain ⟨keys, nodup, members, length⟩ := valid.count (node_tree found)
    refine ⟨⟨keys, nodup⟩, fun k => ?_, ?_⟩
    · rw [← isSome_node]
      exact members k
    · exact Int.natCast_inj.mp ((few.toNat_counter valid found).trans length.symm)
  · intro label s' k p taken live gone
    obtain ⟨c, found⟩ := Option.isSome_iff_exists.mp live
    obtain ⟨n, parent, -⟩ := valid.parent (node_tree found)
    obtain ⟨o, stored, rfl⟩ := exists_of_node parent
    obtain ⟨keys, -, members, length⟩ := valid.count parent
    have member : k ∈ keys := (members k).mpr (isSome_node.trans live)
    have some := List.length_pos_of_mem member
    have counts := few.toNat_counter valid stored
    refine ⟨o, stored, UInt32.lt_iff_toNat_lt.mpr ?_⟩
    have count : (keys.length : Int) = o.children := length
    simp only [UInt32.toNat_zero]
    omega
  · intro label s' p taken ends
    have refines := refines_step valid taken
    have removed : p ∈ s'.tree.removed := by
      rcases ends with ⟨live, gone⟩ | ⟨⟨k, p, rfl, group⟩, r, sent, new⟩
      · exact (valid.gone_of_steps refines (isSome_node.trans live) (objs_eq_none.mpr gone)).1
      · refine (sendsOnce_step valid taken k p r group (mem_sents.mpr sent)).resolve_left ?_
        exact fun before => new (mem_sents.mp before)
    have gone := ((valid.steps refines).removed_gone removed).2
    exact ⟨mem_removed.mp removed, objs_eq_none.mp gone,
      fun q below strict => objs_eq_none.mp (valid.below_of_steps refines gone below strict)⟩
  · rintro p gone labels t ran q below
    have removed : p ∈ s.tree.removed := by
      rcases gone with destroyed | ⟨⟨k, p, rfl, group⟩, r, sent⟩
      · exact mem_removed.mpr destroyed
      · exact removed_of_sent reachable k p r group (mem_sents.mpr sent)
    have later := (extends_of_run reachable ran).removed p removed
    exact objs_eq_none.mp
      ((valid_of_reachable (reachable_run reachable ran)).below_removed later below)

/-- The counter of a root with `2 ^ 32` children reads 0. -/
theorem crowded_root_uncounted :
    ¬ ∀ (limitOf : ActorKey → Nat) (s : Shard), Reachable step (init limitOf) s →
      ∀ p o, s.objs p = some o → o.isGroup = true → ∃ children : Finset ActorKey,
        (∀ k, k ∈ children ↔ (s.objs (k :: p)).isSome = true) ∧
          o.numActorsManaged.toNat = children.card := by
  intro claim
  obtain ⟨s, reachable, crowd, -⟩ := exists_crowd (fun _ => 1) (le_refl (2 ^ 32))
  have valid := valid_of_reachable reachable
  obtain ⟨sched, stop, mailbox, g, root⟩ := root_group valid
  obtain ⟨children, members, counted⟩ := claim _ s reachable [] _ root rfl
  obtain ⟨k, c, child⟩ := crowd.exists_child valid (Nat.two_pow_pos 32)
  have some : 0 < children.card := Finset.card_pos.mpr ⟨k, (members k).mpr (by rw [child]; rfl)⟩
  have zero : g.numActorsManaged = 0 := crowd.counter_eq_zero root
  rw [← counted] at some
  exact absurd (congrArg UInt32.toNat zero) some.ne'

/-- A run in which a scope is cancelled and its actor answers a request before it ends. -/
def cancelScopeRun : List Label :=
  [.receive [scopeKey, workerKey] .user 3 5, .receive [scopeKey] .peaceStop 3 6, .dispatch 0] ++
    List.replicate 7 (.advance false 0) ++ [.workDone (some false) .no] ++
    List.replicate 4 (.advance false 0)

/-- The cancellation of the scope has been answered, and nothing lives in the scope again. -/
theorem cancelled_scope_empty :
    ∃ s, run step (init fun _ => 2 ^ 32 - 1) cancelScopeRun = some s ∧
      .sent [scopeKey] ⟨2, 3, 6, false⟩ ∈ s.log ∧
      ∀ labels t, run step s labels = some t → ∀ q, [scopeKey] <:+ q → t.objs q = none := by
  have runs : (run step (init fun _ => 2 ^ 32 - 1) cancelScopeRun).isSome = true := by decide
  have sent : .sent [scopeKey] ⟨2, 3, 6, false⟩ ∈
      ((run step (init fun _ => 2 ^ 32 - 1) cancelScopeRun).get runs).log := by decide +revert
  refine ⟨_, (Option.some_get runs).symm, sent, ?_⟩
  obtain ⟨-, -, -, gone⟩ := scopes_of_reached
    (reachedBy_of_created (Option.some_get runs).symm (by decide +revert))
  exact gone [scopeKey] (.inr ⟨⟨scopeKey, [], rfl, by decide⟩, _, sent⟩)

end Shard

end Hiactor
