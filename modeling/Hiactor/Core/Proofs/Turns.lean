import Mathlib.Data.Prod.Lex
import Hiactor.Lib.Termination
import Hiactor.Core.Proofs.ForcedStop
import Hiactor.Core.Proofs.ShardFrames
import Hiactor.Core.Proofs.ShardRouting
import Hiactor.Core.Proofs.Workload

/-!
# The turns of a shard

Between two pieces of work the framework moves the turn from object to object. The turns that are
due are counted: an object in a queue, and an object that runs and may put itself in the queue of
its parent again, counts for the more the deeper it lies. A step that does no work uses up some of
them, so that the shard cannot go on for ever without being given more to do.
-/

namespace Hiactor

open Lib

/-! ## Queues -/

/-- What an object counts for that may put itself in the queue of its parent. -/
def turnCost (p : Path) : Nat := 4 * p.length + 2

theorem turnCost_cons (k : ActorKey) (p : Path) : turnCost (k :: p) = turnCost p + 4 := by
  simp only [turnCost, List.length_cons]
  omega

/-- What the objects in the queues count for. -/
def queueTurns (points : Finset Path) (t : ReadyTree ActorKey) : Nat :=
  total points (fun p n => n.children.length * (turnCost p + 4)) t

section

variable {points : Finset Path} {t : ReadyTree ActorKey} {p : Path} {k : ActorKey}
  {n : ReadyNode ActorKey}

theorem queueTurns_modify {f : ReadyNode ActorKey → ReadyNode ActorKey}
    (same : ∀ n, (f n).children = n.children) :
    queueTurns points (t.modify p f) = queueTurns points t := by
  refine total_congr fun q => ?_
  rw [ReadyTree.modify_apply]
  split
  · cases t q with
    | none => rfl
    | some n => simp [same n]
  · rfl

theorem queueTurns_update (within : Within points t) (found : t p = some n)
    (value : Option (ReadyNode ActorKey)) :
    queueTurns points (Function.update t p value) + n.children.length * (turnCost p + 4) =
      queueTurns points t + value.elim 0 fun n => n.children.length * (turnCost p + 4) :=
  total_update within found value

/-- One more object waits in the queue at `p`. -/
theorem queueTurns_mark (within : Within points t) (k : ActorKey) (p : Path) :
    queueTurns points (t.mark k p) ≤ queueTurns points t + turnCost (k :: p) := by
  have scheduled : queueTurns points (t.modify (k :: p) (·.setState .ready)) =
      queueTurns points t := queueTurns_modify fun _ => rfl
  have within' : Within points (t.modify (k :: p) (·.setState .ready)) := by
    refine within.mono fun q live => ?_
    rw [ReadyTree.modify_apply] at live
    split at live
    · rwa [Option.isSome_map] at live
    · exact live
  rw [ReadyTree.mark, ← scheduled]
  generalize t.modify (k :: p) (·.setState .ready) = t' at within'
  unfold ReadyTree.modify
  cases found : t' p with
  | none =>
    rw [Option.map_none, ← found, Function.update_eq_self]
    exact Nat.le_add_right ..
  | some n =>
    have changed := queueTurns_update within' found (some (n.mapQueue (· ++ [k])))
    have longer : (n.mapQueue (· ++ [k])).children.length ≤ n.children.length + 1 := by
      unfold ReadyNode.children ReadyNode.mapQueue
      cases n.queue <;> simp
    have more := Nat.mul_le_mul_right (turnCost p + 4) longer
    rw [Nat.succ_mul] at more
    rw [Option.elim_some] at changed
    rw [Option.map_some, turnCost_cons]
    omega

/-- When the parent cannot become ready itself, the object alone is put in a queue. -/
theorem queueTurns_wake (within : Within points t)
    (above : ∀ n, t p = some n → n.state ≠ .idle ∨ p = []) :
    queueTurns points (t.wake (k :: p)) ≤ queueTurns points t + turnCost (k :: p) := by
  unfold ReadyTree.wake
  split
  · next n found =>
    split
    · have stays : (t.mark k p).wake p = t.mark k p := by
        cases p with
        | nil => rfl
        | cons j q =>
          unfold ReadyTree.wake
          split
          · next m stored =>
            obtain ⟨m', stored', marks⟩ := ReadyTree.mark_eq_some stored
            have apart : j :: q ≠ k :: j :: q := (List.cons_ne_self k _).symm
            have state : m.state = m'.state := marks.state.trans (if_neg apart)
            rw [if_neg]
            rw [state]
            exact (above m' stored').resolve_right (List.cons_ne_nil j q)
          · rfl
      rw [stays]
      exact queueTurns_mark within k p
    · exact Nat.le_add_right ..
  · exact Nat.le_add_right ..

end

/-! ## Frames -/

namespace Shard

def hasTasks (s : Shard) (p : Path) : Bool := (s.objs p).any (·.tasks ≠ [])

end Shard

/-- What a run counts for: it may put its object in the queue of the parent again, unless it has
found nothing to do. -/
def RunFrame.turns (s : Shard) (frame : RunFrame) : Nat := match frame.pc with
  | .groupMail | .tasks => 2
  | .groupTasks => if s.hasMail frame.path then turnCost frame.path + 1 else 1
  | .mail => if s.hasTasks frame.path then turnCost frame.path + 1 else 1
  | .groupChild | .inTask | .inWork _ | .worked => turnCost frame.path + 2

namespace Shard

def turns (points : Finset Path) (s : Shard) : Nat :=
  queueTurns points s.ready + (s.runs.map (·.turns s)).sum

/-- The paths of the objects that a shard has created. -/
def points (s : Shard) : Finset Path := ([] :: s.tree.created).toFinset

variable {points : Finset Path} {s s' t : Shard} {p q : Path} {k : ActorKey} {o : ActorObject}
  {pc : Pc} {frame : RunFrame} {rest : List RunFrame}

/-- The objects above the innermost one wait for their child. -/
def AwaitsChild (runs : List RunFrame) : Prop := ∀ frame ∈ runs.tail, frame.pc = .groupChild

theorem awaitsChild_step {label : Label} (awaits : AwaitsChild s.runs)
    (taken : s.step label = some s') : AwaitsChild s'.runs := by
  cases framesMove_step taken with
  | same runs silent => exact runs ▸ awaits
  | dispatched before after =>
    intro frame member
    rw [after] at member
    cases member
  | entered idle before after =>
    rw [before] at awaits
    intro frame member
    rw [after] at member
    rcases List.mem_cons.mp member with rfl | later
    · rfl
    · exact awaits frame later
  | moved idle before move after =>
    rename_i path pc next rest
    rw [before] at awaits
    intro frame member
    refine awaits frame ?_
    rw [after] at member
    cases next with
    | some pc' => exact member
    | none => exact List.mem_of_mem_tail member

theorem sum_turns_congr (awaits : ∀ frame ∈ rest, frame.pc = .groupChild) :
    (rest.map (·.turns s')).sum = (rest.map (·.turns s)).sum := by
  refine congrArg List.sum (List.map_congr_left fun frame member => ?_)
  simp [RunFrame.turns, awaits frame member]

theorem within_ready (within : Within points s.objs) : Within points s.ready := by
  intro q live
  have mapped : ((s.objs q).map ActorObject.readyNode).isSome = true := live
  exact within q (Option.isSome_map.symm.trans mapped)

/-! ## Steps that end a run -/

/-- The innermost run ends. -/
theorem turns_left {n : Nat} (runs : s.runs = frame :: rest) (awaits : AwaitsChild s.runs)
    (left : s'.runs = rest)
    (queues : queueTurns points s'.ready ≤ queueTurns points s.ready + n) :
    s'.turns points + frame.turns s ≤ s.turns points + n := by
  rw [runs] at awaits
  have same : (rest.map (·.turns s')).sum = (rest.map (·.turns s)).sum := sum_turns_congr awaits
  unfold turns
  rw [left, runs, List.map_cons, List.sum_cons, same]
  omega

/-- The object that returns is activated again when it has something to do. -/
theorem turns_sleep (line : s.InLine) (nested : Nested s.runs) (awaits : AwaitsChild s.runs)
    (within : Within points s.objs) (runs : s.runs = ⟨k :: p, pc⟩ :: rest) (awake : Prop)
    [Decidable awake] :
    (if awake then (s.leave.update (k :: p) (·.setSched .schedulable)).activate (k :: p)
      else s.leave.update (k :: p) (·.setSched .schedulable)).turns points +
      (RunFrame.mk (k :: p) pc).turns s ≤
    s.turns points + if awake then turnCost (k :: p) else 0 := by
  have left : s.leave.runs = rest := by rw [leave, runs, List.tail_cons]
  have asleep : (s.leave.update (k :: p) (·.setSched .schedulable)).ready =
      s.ready.modify (k :: p) (·.setState .idle) :=
    ready_update (s := s.leave) _ fun o _ => o.readyNode_setSched _
  have same : queueTurns points (s.ready.modify (k :: p) (·.setState .idle)) =
      queueTurns points s.ready := queueTurns_modify fun _ => rfl
  split
  · refine turns_left runs awaits ((runs_activate ..).trans left) ?_
    rw [ready_activate, asleep, ← same]
    refine queueTurns_wake ?_ fun n stored => ?_
    · rw [← asleep]
      exact within_ready (Wanes.within (s := s.leave) (.setSched _) within)
    · obtain ⟨m, stored', rfl⟩ := ReadyTree.modify_eq_some stored
      rw [if_neg (List.cons_ne_self k p).symm]
      -- The parent runs, or it is the root.
      cases rest with
      | nil =>
        rw [runs] at nested
        obtain ⟨⟨j, path⟩, -⟩ := nested
        exact .inr (List.cons.inj path).2
      | cons group rest =>
        rw [runs] at nested
        obtain ⟨⟨j, path⟩, -⟩ := nested
        have above : group.path = p := (List.cons.inj path).2.symm
        have held : p ∈ runPaths s.runs ∪ s.cleaning :=
          .inl ⟨group, runs ▸ List.mem_cons_of_mem _ List.mem_cons_self, above⟩
        obtain ⟨m', stored'', busy⟩ := line.held held
        obtain rfl := Option.some.inj (stored'.symm.trans stored'')
        exact .inl (by simp [busy])
  · refine turns_left runs awaits left ?_
    rw [asleep, same, Nat.add_zero]

theorem turns_destroyed (awaits : AwaitsChild s.runs) (within : Within points s.objs)
    (runs : s.runs = frame :: rest) (same : t.ready = s.ready) (left : t.runs = rest) :
    (t.destroy q).turns points + frame.turns s ≤ s.turns points := by
  refine turns_left (n := 0) runs awaits left ?_
  rw [ready_destroy, same]
  cases found : s.ready q with
  | none => rw [← found, Function.update_eq_self, Nat.add_zero]
  | some n =>
    have changed := queueTurns_update (within_ready within) found none
    rw [Option.elim_none] at changed
    omega

/-- What there is to do for a group or an actor. -/
theorem turns_finishGroup (line : s.InLine) (nested : Nested s.runs) (awaits : AwaitsChild s.runs)
    (within : Within points s.objs) (runs : s.runs = ⟨k :: p, pc⟩ :: rest)
    (finished : s.finishGroup p k = some s') :
    ∃ sched stop mailbox g, s.objs (k :: p) = some ⟨sched, stop, mailbox, .group g⟩ ∧
      s'.turns points + (RunFrame.mk (k :: p) pc).turns s ≤
        s.turns points + if mailbox ≠ [] ∨ g.taskQueue ≠ [] then turnCost (k :: p) else 0 := by
  have left : s.leave.runs = rest := by rw [leave, runs, List.tail_cons]
  have left' : (s.leave.notifyChildStopped p).runs = rest :=
    (congrArg Prod.fst control_notifyChildStopped).trans left
  cases finishesGroup finished with
  | ends sched stop mailbox g found ends =>
    refine ⟨sched, stop, mailbox, g, found, Nat.le_add_right_of_le ?_⟩
    split
    · exact turns_destroyed awaits within runs ready_notifyChildStopped left'
    · exact turns_destroyed awaits within runs ready_notifyChildStopped left'
  | stays sched stop mailbox g found lives =>
    exact ⟨sched, stop, mailbox, g, found, turns_sleep line nested awaits within runs _⟩

theorem turns_finishActor (line : s.InLine) (nested : Nested s.runs) (awaits : AwaitsChild s.runs)
    (within : Within points s.objs) (runs : s.runs = ⟨k :: p, pc⟩ :: rest)
    (finished : s.finishActor p k = some s') :
    ∃ sched stop mailbox a, s.objs (k :: p) = some ⟨sched, stop, mailbox, .actor a⟩ ∧
      s'.turns points + (RunFrame.mk (k :: p) pc).turns s ≤
        s.turns points + if a.taskQueue ≠ [] ∨ (mailbox ≠ [] ∧
          a.curConcurrency < a.maxConcurrency) then turnCost (k :: p) else 0 := by
  have left : s.leave.runs = rest := by rw [leave, runs, List.tail_cons]
  cases finishesActor finished with
  | ends sched stop mailbox a found ends =>
    refine ⟨sched, stop, mailbox, a, found, Nat.le_add_right_of_le ?_⟩
    exact turns_destroyed awaits within runs ready_notifyChildStopped
      ((congrArg Prod.fst control_notifyChildStopped).trans left)
  | stays sched stop mailbox a found lives =>
    exact ⟨sched, stop, mailbox, a, found, turns_sleep line nested awaits within runs _⟩

/-- The innermost run goes on at another point. -/
theorem turns_setPc {pc' : Pc} (runs : s.runs = ⟨q, pc⟩ :: rest)
    (less : (RunFrame.mk q pc').turns s < (RunFrame.mk q pc).turns s) :
    (s.setPc pc').turns points < s.turns points := by
  unfold turns
  rw [runs_setPc runs, runs, List.map_cons, List.sum_cons, List.map_cons, List.sum_cons]
  exact Nat.add_lt_add_left (Nat.add_lt_add_right less _) _

/-- A child leaves the queue, and its run begins. -/
theorem turns_enterChild {i : Nat} (within : Within points s.objs)
    (awaits : ∀ frame ∈ s.runs, frame.pc = .groupChild) (entered : s.enterChild p i = some s') :
    s'.turns points + turnCost p + 2 ≤ s.turns points := by
  cases entersChild entered with
  | enters sched stop mailbox g k o found listed child =>
    let s₁ := s.update p (·.setActors (·.eraseIdx i))
    let s₂ := if o.forceStopping then
        s₁.update (k :: p) (·.setTasks (List.map Task.cancel)) else s₁
    have taken : s₁.ready = s.ready.modify p (·.mapQueue (·.eraseIdx i)) :=
      ready_update _ fun o _ => o.readyNode_setActors _
    have cancelled : s₂.ready = s₁.ready := by
      unfold s₂
      split
      · refine ready_update_same fun o _ => ?_
        have work := o.hasWork_cancel
        obtain ⟨sched, stop, mailbox, body⟩ := o
        cases body with
        | group g => rfl
        | actor a => exact congrArg (ReadyNode.mk _ · _) work
      · rfl
    have stored := ready_of_objs found
    have shorter : (g.taskQueue.eraseIdx i).length + 1 = g.taskQueue.length :=
      List.length_eraseIdx_add_one (List.getElem?_eq_some_iff.mp listed).1
    have queues : queueTurns points s₂.ready + (turnCost p + 4) = queueTurns points s.ready := by
      have changed := queueTurns_update (within_ready within) stored
        ((s.ready p).map (·.mapQueue (·.eraseIdx i)))
      rw [stored, Option.map_some, Option.elim_some] at changed
      have length : (g.taskQueue.eraseIdx i).length * (turnCost p + 4) + (turnCost p + 4) =
          g.taskQueue.length * (turnCost p + 4) := by rw [← Nat.succ_mul, ← shorter]
      have now : queueTurns points (s.ready.modify p (·.mapQueue (·.eraseIdx i))) +
          g.taskQueue.length * (turnCost p + 4) = queueTurns points s.ready +
            (g.taskQueue.eraseIdx i).length * (turnCost p + 4) := by
        unfold ReadyTree.modify
        rw [stored, Option.map_some]
        exact changed
      rw [cancelled, taken]
      omega
    have runs : s₂.runs = s.runs := by
      unfold s₂
      split
      · rfl
      · rfl
    have begins (t : Shard) : (RunFrame.mk (k :: p)
        (if o.isGroup then Pc.groupMail else Pc.tasks)).turns t = 2 := by
      split
      · rfl
      · rfl
    have same (t : Shard) : (s.runs.map (·.turns t)).sum = (s.runs.map (·.turns s)).sum :=
      sum_turns_congr awaits
    unfold turns
    show queueTurns points s₂.ready + _ + _ + _ ≤ _
    rw [List.map_cons, List.sum_cons, begins, same]
    omega

/-! ## Steps -/

/-- The labels that give the shard something to do, and the change of a limit. -/
def Label.bringsWork : Label → Bool
  | .receive .. | .addTask .. | .setMaxConcurrency .. => true
  | _ => false

/-- A step that does some work, or that uses up turns. -/
def Spends (points : Finset Path) (s s' : Shard) : Prop :=
  Wanes points (-1) s s' ∨ Wanes points 0 s s' ∧ s'.turns points < s.turns points

/-- All work is queued: an object that has work and may do it runs or waits in the queue of its
parent, and the runs above the innermost one wait for their child. All objects are at `points`. -/
structure WorkQueued (points : Finset Path) (s : Shard) : Prop where
  valid : s.tree.Valid
  settled : IdleSettled s
  line : s.InLine
  awaits : AwaitsChild s.runs
  within : Within points s.objs

theorem Spends.wanes (spends : Spends points s s') : Wanes points 0 s s' := by
  rcases spends with work | ⟨neutral, -⟩
  · exact work.mono (by decide)
  · exact neutral

/-- The run goes on at another point and has done nothing. -/
theorem Spends.setPc {pc' : Pc} (runs : s.runs = ⟨q, pc⟩ :: rest)
    (weight : pc'.weight = pc.weight)
    (less : (RunFrame.mk q pc').turns s < (RunFrame.mk q pc).turns s) :
    Spends points s (s.setPc pc') :=
  .inr ⟨(Wanes.setPc runs pc').mono (by omega), turns_setPc runs less⟩

namespace WorkQueued

theorem finishGroup (inv : WorkQueued points s) (runs : s.runs = ⟨k :: p, pc⟩ :: rest)
    (finished : s.finishGroup p k = some s')
    (paid : ∀ sched stop mailbox g, s.objs (k :: p) = some ⟨sched, stop, mailbox, .group g⟩ →
      (if mailbox ≠ [] ∨ g.taskQueue ≠ [] then turnCost (k :: p) else 0) <
        (RunFrame.mk (k :: p) pc).turns s) : Spends points s s' := by
  obtain ⟨sched, stop, mailbox, g, found, turns⟩ := turns_finishGroup inv.line
    inv.settled.nested inv.awaits inv.within runs finished
  have less := paid sched stop mailbox g found
  exact .inr ⟨(Wanes.finishGroup runs finished).mono (by omega), by omega⟩

theorem finishActor (inv : WorkQueued points s) (runs : s.runs = ⟨k :: p, pc⟩ :: rest)
    (finished : s.finishActor p k = some s')
    (paid : ∀ sched stop mailbox a, s.objs (k :: p) = some ⟨sched, stop, mailbox, .actor a⟩ →
      (if a.taskQueue ≠ [] ∨ (mailbox ≠ [] ∧ a.curConcurrency < a.maxConcurrency) then
        turnCost (k :: p) else 0) < (RunFrame.mk (k :: p) pc).turns s) : Spends points s s' := by
  obtain ⟨sched, stop, mailbox, a, found, turns⟩ := turns_finishActor inv.line
    inv.settled.nested inv.awaits inv.within runs finished
  have less := paid sched stop mailbox a found
  exact .inr ⟨(Wanes.finishActor runs finished).mono (by omega), by omega⟩

/-- A run that has done something may always be followed by another one. -/
theorem paid_rested {awake : Prop} [Decidable awake]
    (rested : (RunFrame.mk q pc).turns s = turnCost q + 2) :
    (if awake then turnCost q else 0) < (RunFrame.mk q pc).turns s := by
  rw [rested]
  split
  · omega
  · omega

end WorkQueued

theorem wanes_takeMail {sched : SchedStatus} {stop : ActorStatus} {m : ActorMessage}
    {mailbox : List ActorMessage} {body : Body}
    (found : s.objs p = some ⟨sched, stop, m :: mailbox, body⟩) :
    Wanes points (-5) s (s.update p (·.setMailbox mailbox)) := by
  refine .change found (.setMailbox _ (List.subset_cons_self m mailbox)) ?_
  have weight := ActorObject.weight_setMailbox ⟨sched, stop, m :: mailbox, body⟩ mailbox
  have length : (ActorObject.mailbox ⟨sched, stop, m :: mailbox, body⟩).length =
    mailbox.length + 1 := rfl
  omega

theorem wanes_takeTask {sched : SchedStatus} {stop : ActorStatus} {mailbox : List ActorMessage}
    {a : ActorBody} {task : Task} {tasks : List Task}
    (found : s.objs p = some ⟨sched, stop, mailbox, .actor a⟩)
    (front : a.taskQueue = task :: tasks) :
    Wanes points (-task.weight) s (s.update p (·.setTasks fun _ => tasks)) := by
  refine .change found (.mapActor _ _) ?_
  have before := ActorObject.weight_actor sched stop mailbox a
  have after := ActorObject.weight_actor sched stop mailbox { a with taskQueue := tasks }
  rw [front, List.map_cons, List.sum_cons] at before
  show (ActorObject.weight ⟨sched, stop, mailbox, .actor { a with taskQueue := tasks }⟩ : ℤ) ≤ _
  simp only at after
  omega

theorem wanes_obeyStop {sched : SchedStatus} {stop : ActorStatus} {m : ActorMessage}
    {mailbox : List ActorMessage} {g : GroupBody}
    (found : s.objs (k :: p) = some ⟨sched, stop, m :: mailbox, .group g⟩) :
    Wanes points (-5) s (s.obeyStop p k m mailbox) := by
  have taken : Wanes points (-5) s (s.update (k :: p) (·.setMailbox mailbox)) :=
    wanes_takeMail found
  have remembered (t : Shard) : Wanes points 0 t (t.update (k :: p) (·.mapGroup fun g => { g with
      cancelRequestSid := m.srcShardId, cancelRequestPrId := m.prId,
      cancelRequestMid := m.mid })) :=
    .same (fun o => .mapGroup o fun _ => id) fun o => o.weight_mapGroup fun _ => rfl
  exact ((taken.trans (.stopChildActor _)).trans (remembered _)).trans (.reclaim m)

namespace WorkQueued

theorem groupMail {needYield : Bool} (runs : s.runs = ⟨k :: p, .groupMail⟩ :: rest)
    (handled : s.groupMail p k needYield = some s') : Spends points s s' := by
  cases handlesGroupMail handled with
  | none sched stop g found =>
    refine .setPc runs rfl ?_
    have empty : s.hasMail (k :: p) = false := by simp [hasMail, found]
    simp [RunFrame.turns, empty]
  | yields sched stop m mailbox g found isStop finished =>
    have same : (s.obeyStop p k m mailbox).runs = ⟨k :: p, .groupMail⟩ :: rest :=
      (runs_of_control (control_obeyStop k m mailbox)).trans runs
    exact .inl (((wanes_obeyStop found).trans (.finishGroup same finished)).mono (by decide))
  | goesOn sched stop m mailbox g found isStop =>
    exact .inl ((wanes_obeyStop found).mono (by decide))

theorem groupTasks {i : Nat} (inv : WorkQueued points s)
    (runs : s.runs = ⟨k :: p, .groupTasks⟩ :: rest) (ran : s.groupTasks p k i = some s') :
    Spends points s s' := by
  have one : 1 ≤ (RunFrame.mk (k :: p) .groupTasks).turns s := by
    unfold RunFrame.turns
    simp only
    split
    · omega
    · exact le_rfl
  cases runsGroupTasks ran with
  | none sched stop mailbox g found none finished =>
    refine inv.finishGroup runs finished fun sched' stop' mailbox' g' found' => ?_
    obtain ⟨rfl, rfl, rfl, body⟩ := ActorObject.mk.inj (Option.some.inj (found.symm.trans found'))
    obtain rfl := Body.group.inj body
    split
    · next awake =>
      have mail : s.hasMail (k :: p) = true := by
        simpa [hasMail, found] using awake.resolve_right (not_not.mpr none)
      simp [RunFrame.turns, mail]
    · exact one
  | enters sched stop mailbox g found waiting entered =>
    have parked : Wanes points (Pc.groupChild.weight - Pc.groupTasks.weight) s
        (s.setPc .groupChild) := .setPc runs .groupChild
    have awaits : ∀ frame ∈ (s.setPc .groupChild).runs, frame.pc = .groupChild := by
      have below := inv.awaits
      rw [runs] at below
      rw [runs_setPc runs]
      exact List.forall_mem_cons.mpr ⟨rfl, below⟩
    have turns := turns_enterChild (parked.within inv.within) awaits entered
    have before : (s.setPc .groupChild).turns points + (RunFrame.mk (k :: p) .groupTasks).turns s =
        s.turns points + (turnCost (k :: p) + 2) := by
      unfold Shard.turns
      rw [runs_setPc runs, runs, List.map_cons, List.sum_cons, List.map_cons, List.sum_cons]
      show queueTurns points s.ready + (turnCost (k :: p) + 2 + (rest.map (·.turns s)).sum) + _ = _
      omega
    exact .inr ⟨parked.trans (.enterChild entered), by omega⟩

theorem actorTasks (inv : WorkQueued points s) (runs : s.runs = ⟨k :: p, .tasks⟩ :: rest)
    (ran : s.actorTasks p k = some s') : Spends points s s' := by
  cases runsActorTasks ran with
  | next sched stop mailbox a found task tasks front =>
    have taken : Wanes points (-task.weight) s (s.update (k :: p) (·.setTasks fun _ => tasks)) :=
      wanes_takeTask found front
    have moved := taken.trans (.setPc (s := s.update (k :: p) _) runs .inTask)
    exact .inl ((moved.trans (.runTask task)).mono (by simp [Pc.weight]))
  | full sched stop mailbox a found none full =>
    have asleep : Wanes points 0 s (s.update (k :: p) (·.setSched .schedulable)) := .setSched _
    have left : Wanes points (-Pc.tasks.weight) (s.update (k :: p) (·.setSched .schedulable)) _ :=
      .leave runs
    have turns := turns_sleep inv.line inv.settled.nested inv.awaits inv.within runs
      False
    rw [if_neg not_false, if_neg not_false] at turns
    refine .inr ⟨asleep.trans left, ?_⟩
    have some : (RunFrame.mk (k :: p) .tasks).turns s = 2 := rfl
    show (s.leave.update (k :: p) (·.setSched .schedulable)).turns points < _
    omega
  | opens sched stop mailbox a found none free =>
    refine .setPc runs rfl ?_
    have empty : s.hasTasks (k :: p) = false := by simp [hasTasks, found, ActorObject.tasks, none]
    simp [RunFrame.turns, empty]

theorem actorMail (inv : WorkQueued points s) (runs : s.runs = ⟨k :: p, .mail⟩ :: rest)
    (handled : s.actorMail p k = some s') : Spends points s s' := by
  cases handlesActorMail handled with
  | none sched stop a found finished =>
    refine inv.finishActor runs finished fun sched' stop' mailbox' a' found' => ?_
    obtain ⟨rfl, rfl, rfl, body⟩ := ActorObject.mk.inj (Option.some.inj (found.symm.trans found'))
    obtain rfl := Body.actor.inj body
    unfold RunFrame.turns
    simp only
    split
    · next awake =>
      have tasks : s.hasTasks (k :: p) = true := by
        have some : a.taskQueue ≠ [] := by simpa using awake
        simp [hasTasks, found, ActorObject.tasks, some]
      simp [tasks]
    · split
      · omega
      · exact Nat.one_pos
  | starts sched stop m mailbox a found user =>
    have taken : Wanes points (-5) s (s.update (k :: p) (·.setMailbox mailbox)) :=
      wanes_takeMail found
    have moved := taken.trans (.setPc (s := s.update (k :: p) _) runs (.inWork m))
    exact .inl (moved.trans (.emit _))
  | stops sched stop m mailbox a found force asked =>
    have taken : Wanes points (-5) s (s.update (k :: p) (·.setMailbox mailbox)) :=
      wanes_takeMail found
    have moved := taken.trans (.setPc (s := s.update (k :: p) _) runs .worked)
    exact .inl (((moved.trans (.stopChildActor force)).trans (.reclaim m)).mono (by decide))

theorem workDone {m : ActorMessage} {reply : Option Bool} {state : WorkState}
    (runs : s.runs = ⟨k :: p, .inWork m⟩ :: rest)
    (done : s.workDone p k m reply state = some s') : Spends points s s' := by
  have ended : Wanes points (-4) s (s.worked (k :: p) m reply) := by
    cases reply with
    | none => exact (Wanes.setPc runs .worked).trans (.reclaim m)
    | some failed =>
      have sent : Wanes points 0 s (s.emit (.sent (k :: p) (m.reply failed))) := .emit _
      have moved := sent.trans (.setPc (s := s.emit _) runs .worked)
      exact moved.trans (.reclaim m)
  rw [workDone_eq done]
  split
  · exact .inl ((ended.trans (.stopChildActor true)).mono (by decide))
  · exact .inl (ended.mono (by decide))

theorem workPending {m : ActorMessage} (runs : s.runs = ⟨k :: p, .inWork m⟩ :: rest)
    (pending : s.workPending p k m = some s') : Spends points s s' := by
  have flying : Wanes points 3 s (s.update (k :: p) (·.mapActor fun a => { a with
      curConcurrency := a.curConcurrency + 1, inFlight := a.inFlight ++ [m] })) := by
    refine .update (fun o => .mapActor o _) (fun o => ?_) (by decide)
    obtain ⟨sched, stop, mailbox, body⟩ := o
    cases body with
    | group g => exact Int.le_add_of_nonneg_right (by decide)
    | actor a =>
      have before := ActorObject.weight_actor sched stop mailbox a
      have after := ActorObject.weight_actor sched stop mailbox { a with
        curConcurrency := a.curConcurrency + 1, inFlight := a.inFlight ++ [m] }
      rw [List.length_append, List.length_singleton] at after
      show (ActorObject.weight ⟨sched, stop, mailbox, .actor { a with
        curConcurrency := a.curConcurrency + 1, inFlight := a.inFlight ++ [m] }⟩ : ℤ) ≤ _
      simp only at after
      omega
  obtain ⟨sched, stop, mailbox, a, found, ⟨full, pending⟩ | ⟨free, rfl⟩⟩ :=
    workPending_cases pending
  · exact .inl (flying.trans (.finishActor (s := s.update (k :: p) _) runs pending))
  · exact .inl (flying.trans (.setPc (s := s.update (k :: p) _) runs .worked))

theorem runStep {label : Label} (inv : WorkQueued points s) (runs : s.runs = frame :: rest)
    (taken : s.runStep frame label = some s') : Spends points s s' := by
  cases takesRunStep taken with
  | groupMail p k needYield i handled => exact groupMail runs handled
  | groupTasks p k needYield i ran => exact inv.groupTasks runs ran
  | groupYields p k i finished =>
    exact inv.finishGroup runs finished fun _ _ _ _ _ => paid_rested rfl
  | groupGoesOn p k i =>
    refine .setPc runs rfl ?_
    have pos := turnCost_cons k p
    simp only [RunFrame.turns]
    split
    · omega
    · omega
  | actorTasks p k needYield i ran => exact inv.actorTasks runs ran
  | taskYields p k i finished | workYields p k i finished =>
    exact inv.finishActor runs finished fun _ _ _ _ _ => paid_rested rfl
  | taskGoesOn p k i =>
    refine .setPc runs rfl ?_
    have pos := turnCost_cons k p
    simp only [RunFrame.turns]
    omega
  | actorMail p k needYield i handled => exact inv.actorMail runs handled
  | workDone p k m reply state done => exact workDone runs done
  | workPending p k m pending => exact workPending runs pending
  | workGoesOn p k i =>
    refine .setPc runs rfl ?_
    simp only [RunFrame.turns]
    split
    · omega
    · omega

theorem cleanNext {running : Bool} {others : List StopFrame}
    (top : s.stops = .clean (k :: p) running :: others)
    (cleaned : s.cleanNext p k others = some s') : Spends points s s' := by
  refine .inl ?_
  cases cleansNext cleaned with
  | next sched stop mailbox a found task tasks front =>
    have taken : Wanes points (-task.weight) s (s.update (k :: p) (·.setTasks fun _ => tasks)) :=
      wanes_takeTask found front
    have marked : Wanes points 0 (s.update (k :: p) (·.setTasks fun _ => tasks))
        { s.update (k :: p) (·.setTasks fun _ => tasks) with
          stops := .clean (k :: p) true :: others } := by
      refine .of_objs rfl ?_
      rw [stops_update, top, List.length_cons, List.length_cons, Int.add_zero]
    exact ((taken.trans marked).trans (.runTask task)).mono (by omega)
  | ends sched stop mailbox a found none =>
    have popped : Wanes points (-1) s { s with stops := others } := by
      refine .of_objs rfl ?_
      rw [top, List.length_cons]
      simp only [Nat.cast_add]
      omega
    exact (popped.trans .activateIdle).trans .disable

theorem stopStep {frame : StopFrame} {others : List StopFrame} {label : Label}
    (inv : WorkQueued points s) (top : s.stops = frame :: others)
    (taken : s.stopStep frame others label = some s') : Spends points s s' := by
  cases takesStopStep taken with
  | cleanNext p k running needYield i cleaned => exact cleanNext top cleaned
  | stopNext force m k entry =>
    obtain ⟨o, found, reached⟩ := Option.bind_eq_some_iff.mp entry
    obtain ⟨c, child⟩ := inv.valid.reached (node_tree found) reached
    obtain ⟨c, child, -⟩ := exists_of_node child
    exact .inl (.stopChildActor_reached found reached child force)
  | stopSystemEnd force needYield m i ended =>
    have popped : Wanes points (-1) s { s with stops := others } := by
      refine .of_objs rfl ?_
      rw [top, List.length_cons]
      simp only [Nat.cast_add]
      omega
    cases endsSystem ended with
    | ends sched stop mailbox g root closed =>
      split
      · exact .inl (popped.trans (.trans (.emit _) (.emit _)))
      · exact .inl (popped.trans (.emit _))

theorem complete {i : Nat} {reply : Option Bool} {state : WorkState}
    (completed : s.complete p i reply state = some s') : Spends points s s' := by
  cases completes completed with
  | lands sched stop mailbox a found m flying =>
    have landed : Wanes points (-3) s (s.update p (·.mapActor fun a => { a with
        inFlight := a.inFlight.eraseIdx i })) := by
      refine .change found (.mapActor _ _) ?_
      have shorter := List.length_eraseIdx_add_one (List.getElem?_eq_some_iff.mp flying).1
      have before := ActorObject.weight_actor sched stop mailbox a
      have after := ActorObject.weight_actor sched stop mailbox { a with
        inFlight := a.inFlight.eraseIdx i }
      show (ActorObject.weight ⟨sched, stop, mailbox, .actor { a with
        inFlight := a.inFlight.eraseIdx i }⟩ : ℤ) ≤ _
      simp only at after
      omega
    refine .inl ((landed.trans (.addTask _ false)).mono ?_)
    cases reply with
    | none => exact (by decide : (-3 : ℤ) + 1 ≤ -1)
    | some failed => exact (by decide : (-3 : ℤ) + 2 ≤ -1)

/-- Every step that brings no work uses up work or turns. -/
theorem spends {label : Label} (inv : WorkQueued points s) (own : label.bringsWork = false)
    (taken : s.step label = some s') : Spends points s s' := by
  cases takesStep taken with
  | user isUser point acted =>
    cases label with
    | complete p i reply state => exact complete acted
    | receive | addTask | setMaxConcurrency => cases own
    | dispatch | advance | workDone | workPending | stopNext => cases isUser
  | stop frame rest isUser top went => exact inv.stopStep top went
  | run frame rest isUser idle runs went => exact inv.runStep runs went
  | dispatch i idle runs entered =>
    have turns := turns_enterChild inv.within (by simp [runs]) entered
    exact .inr ⟨.enterChild entered, by omega⟩

theorem step {label : Label} (inv : WorkQueued points s) (own : label.bringsWork = false)
    (taken : s.step label = some s') : WorkQueued points s' where
  valid := inv.valid.steps (refines_step inv.valid taken)
  settled := inv.settled.step inv.valid taken
  line := by
    refine inv.line.step inv.settled inv.valid ?_ taken
    cases label with
    | setMaxConcurrency p concurrency => cases own
    | _ => trivial
  awaits := awaitsChild_step inv.awaits taken
  within := (inv.spends own taken).wanes.within inv.within

theorem decreases {label : Label} (inv : WorkQueued points s) (own : label.bringsWork = false)
    (taken : s.step label = some s') : WorkQueued points s' ∧
      toLex (s'.work points, s'.turns points) < toLex (s.work points, s.turns points) := by
  refine ⟨inv.step own taken, Prod.Lex.toLex_lt_toLex.mpr ?_⟩
  rcases inv.spends own taken with worked | ⟨neutral, turned⟩
  · have less := worked.work inv.within
    exact .inl (show s'.work points < s.work points by omega)
  · have less := neutral.work inv.within
    rcases (show s'.work points ≤ s.work points by omega).lt_or_eq with fewer | same
    · exact .inl fewer
    · exact .inr ⟨same, turned⟩

end WorkQueued

theorem workQueued_points (valid : s.tree.Valid) (settled : IdleSettled s) (line : s.InLine)
    (awaits : AwaitsChild s.runs) : WorkQueued s.points s where
  valid := valid
  settled := settled
  line := line
  awaits := awaits
  within := by
    intro p live
    obtain ⟨o, found⟩ := Option.isSome_iff_exists.mp live
    exact List.mem_toFinset.mpr (List.mem_cons.mpr (valid.live_created (node_tree found)))

theorem workQueued_init (limitOf : ActorKey → Nat) :
    WorkQueued (init limitOf).points (init limitOf) :=
  workQueued_points (valid_of_reachable ⟨[], rfl⟩) (IdleSettled.init limitOf) (InLine.init limitOf)
    fun _ member => nomatch member

theorem WorkQueued.next {label : Label} (inv : WorkQueued points s) (own : s.LimitsItself label)
    (taken : s.step label = some s') : WorkQueued s'.points s' :=
  workQueued_points (inv.valid.steps (refines_step inv.valid taken))
    (inv.settled.step inv.valid taken)
    (inv.line.step inv.settled inv.valid own taken)
    (awaitsChild_step inv.awaits taken)

theorem workQueued_of_run {limitOf : ActorKey → Nat} {labels : List Label}
    (own : StepsMeet step LimitsItself (init limitOf) labels)
    (ran : run step (init limitOf) labels = some s) : WorkQueued s.points s :=
  run_invariant_of_meets (fun s => WorkQueued s.points s)
    (fun _ _ _ inv own taken => inv.next own taken) labels _ s (workQueued_init limitOf) own ran

/-- The steps that a shard takes by itself. -/
abbrev Own (_ : Shard) (label : Label) : Prop := label.bringsWork = false

/-- A shard that is given nothing to do comes to rest: from a state that a run reaches, in which
limits were changed by their actors alone, no endless sequence of steps starts that neither
receives messages nor schedules continuations of user code nor changes limits. -/
theorem comes_to_rest {limitOf : ActorKey → Nat} {labels : List Label}
    (own : StepsMeet step LimitsItself (init limitOf) labels)
    (ran : run step (init limitOf) labels = some s) :
    ¬ Endless step Own s :=
  not_endless (fun _ _ _ inv own taken => WorkQueued.decreases inv own taken)
    (workQueued_of_run own ran)

/-- An actor handles its first message while another one waits, and its scope is told to stop. -/
def busyRun : List Label :=
  [.receive [scopeKey, workerKey] .user 3 5, .receive [scopeKey, workerKey] .user 4 6,
    .receive [scopeKey] .peaceStop 3 7, .dispatch 0, .advance false 0, .advance false 0,
    .advance false 0, .advance false 0, .advance false 0]

def busyEnd : Shard := (run step (init fun _ => 1) busyRun).get (by decide)

theorem busy_comes_to_rest :
    busyEnd.runs.map RunFrame.path = [[workerKey, scopeKey], [scopeKey]] ∧
      ¬ Endless step Own busyEnd := by
  have own : StepsMeet step LimitsItself (init fun _ => 1) busyRun := by decide
  exact ⟨by decide, comes_to_rest own (Option.some_get (by decide)).symm⟩

end Shard

end Hiactor
