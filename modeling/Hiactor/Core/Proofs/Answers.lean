import Hiactor.Core.Proofs.StepFlow

/-!
# Requests and cancellations are answered

The flow of every reachable state is traced, under a policy that allows what the steps of the
run lose. A request is lost only when an actor is stopped by force while it waits, and the
cancellation of a scope only when it is dropped in the same way or when the group takes another
stop message before it has answered.
-/

namespace Hiactor

open Lib

instance decidableGroupPath : ∀ q, Decidable (groupPath q)
  | [] => .isFalse id
  | k :: _ => inferInstanceAs (Decidable (k.isGroup = true))

namespace Shard

variable {policy : Policy} {limitOf : ActorKey → Nat} {labels : List Label} {s : Shard}

/-- Nothing is in the hand of an operation. -/
def noExtra : Path → List Item := fun _ => []

theorem traced_init (limitOf : ActorKey → Nat) : Traced policy (flow noExtra (init limitOf)) := by
  have nothing (q : Path) : (flow noExtra (init limitOf)).held q = [] := by
    show [] ++ ((if q = [] then _ else none : Option ActorObject).elim [] ActorObject.held ++ []) =
      []
    split <;> rfl
  refine ⟨⟨fun {p i} member => ?_, fun p => ?_⟩, fun _ _ => rfl, Nat.one_pos, by simp [flow, init],
    fun _ => trivial, fun m member => (by cases member), List.nodup_nil⟩
  · rw [nothing] at member
    cases member
  · rw [nothing]
    exact List.nodup_nil

/-- The flow is traced along a run whose steps the policy allows. -/
theorem traced_of_run (allowed : StepsMeet step (Allows policy) (init limitOf) labels)
    (ran : run step (init limitOf) labels = some s) :
    s.tree.Valid ∧ Traced policy (flow noExtra s) := by
  have invariant : AllCounted s ∧ Traced policy (flow noExtra s) := by
    refine run_invariant_of_meets (fun s => AllCounted s ∧ Traced policy (flow noExtra s)) ?_ labels
      _ s ⟨allCounted_init limitOf, traced_init limitOf⟩ allowed ran
    rintro t label t' ⟨counted, traced⟩ allows taken
    exact ⟨counted.step taken, traced.moves (flows_step counted allows taken)⟩
  exact ⟨invariant.1.1, invariant.2⟩

/-- The stage of a message that was received. -/
theorem stage_of_traced {policy : Policy} {m : ActorMessage}
    (traced : Traced policy (flow noExtra s))
    (arrived : (∃ p, .enqueued m p ∈ s.log) ∨ ∃ addr, .rejected m addr ∈ s.log) :
    m.mid ≠ 0 ∧ stageOf s.log m.mid ≠ .wrong := by
  have followed : m.mid ≠ 0 := by
    refine traced.arrived m.mid ?_
    rcases arrived with ⟨p, member⟩ | ⟨addr, member⟩
    · exact List.mem_filterMap.mpr ⟨_, member, rfl⟩
    · exact List.mem_filterMap.mpr ⟨_, member, rfl⟩
  refine ⟨followed, fun wrong => ?_⟩
  have sound : Sound policy _ m.mid (stageOf s.log m.mid) := traced.sound followed
  rw [wrong] at sound
  exact sound

theorem msg_of_traced {policy : Policy} {m : ActorMessage} (traced : Traced policy (flow noExtra s))
    (arrived : (∃ p, .enqueued m p ∈ s.log) ∨ ∃ addr, .rejected m addr ∈ s.log) :
    (stageOf s.log m.mid).msg? = some m := by
  obtain ⟨followed, right⟩ := stage_of_traced traced arrived
  have origin := origin_stageOf followed right
  rcases arrived with ⟨p, member⟩ | ⟨addr, member⟩
  · exact (origin.1 p member).1
  · exact (origin.2 addr member).1

/-! ## Requests -/

/-- The generated `do_work` sends a response for every request. -/
def Responds (s : Shard) (label : Label) : Prop := ∀ m ∈ s.unanswered label, m.isRequest = false

/-- No request waits in the mailbox of an object that the step stops by force. -/
def SparesRequests (s : Shard) (label : Label) : Prop :=
  ∀ d ∈ s.dropped label, d.2.isRequest = false

instance (s : Shard) (label : Label) : Decidable (s.Responds label) :=
  inferInstanceAs (Decidable (∀ m ∈ s.unanswered label, m.isRequest = false))

instance (s : Shard) (label : Label) : Decidable (s.SparesRequests label) :=
  inferInstanceAs (Decidable (∀ d ∈ s.dropped label, d.2.isRequest = false))

/-- Every request that was reclaimed had one response before, and has got no other since. -/
def RequestsAnswered (s : Shard) : Prop :=
  ∀ (m : ActorMessage) (before after : List Event), m.type = .user → m.prId ≠ 0 →
    ((∃ p, .enqueued m p ∈ s.log) ∨ ∃ addr, .rejected m addr ∈ s.log) →
    s.log = before ++ .reclaimed m :: after →
    ∃ failed, answersTo m.mid before = [m.reply failed] ∧
      answersTo m.mid s.log = [m.reply failed]

/-- The policy of requests. -/
def requestPolicy : Policy where
  drop := fun _ m => m.isRequest = false
  silent := fun m => m.isRequest = false
  overwrite := fun _ => True

/-- A request whose answers are settled has got one. -/
theorem reply_of_settled {m : ActorMessage} {answers : List Reply}
    (traced : Traced requestPolicy (flow noExtra s))
    (arrived : (∃ p, .enqueued m p ∈ s.log) ∨ ∃ addr, .rejected m addr ∈ s.log)
    (request : m.isRequest = true) (settled : (stageOf s.log m.mid).settled = some answers) :
    ∃ failed, answers = [m.reply failed] ∧ answersTo m.mid s.log = [m.reply failed] := by
  obtain ⟨followed, right⟩ := stage_of_traced traced arrived
  have sound : Sound requestPolicy _ m.mid (stageOf s.log m.mid) := traced.sound followed
  have mine := msg_of_traced traced arrived
  rw [← answers_stageOf followed right]
  cases stage : stageOf s.log m.mid with
  | fresh | waiting | working | refusing | wrong =>
    rw [stage] at settled
    cases settled
  | ended =>
    rw [stage] at mine
    cases mine
  | done msg path answers late =>
    rw [stage] at mine settled sound
    obtain rfl := Option.some.inj mine
    obtain ⟨-, answered, -⟩ := sound
    obtain ⟨rfl, drop | silent | ⟨failed, rfl⟩⟩ := answered request
    · exact absurd request (by simp [show msg.isRequest = false from drop])
    · exact absurd request (by simp [show msg.isRequest = false from silent])
    · exact ⟨failed, (Option.some.inj settled).symm, rfl⟩
  | refused msg answers =>
    rw [stage] at mine settled sound
    obtain rfl := Option.some.inj mine
    have prId : msg.prId ≠ 0 := by
      simp only [ActorMessage.isRequest, Bool.and_eq_true, bne_iff_ne] at request
      exact request.2
    obtain rfl := sound.2 prId
    exact ⟨true, (Option.some.inj settled).symm, rfl⟩

/-- Requests are answered as long as none waits for an actor that is stopped by force. -/
theorem requestsAnswered_of_run
    (responds : StepsMeet step Responds (init limitOf) labels)
    (spared : StepsMeet step SparesRequests (init limitOf) labels)
    (ran : run step (init limitOf) labels = some s) : s.RequestsAnswered := by
  have allowed : StepsMeet step (Allows requestPolicy) (init limitOf) labels :=
    (responds.and spared).mono fun t label met =>
      ⟨fun q m member => met.2 (q, m) member, met.1, fun _ _ => trivial⟩
  obtain ⟨-, traced⟩ := traced_of_run allowed ran
  intro m before after user prId arrived reclaimed
  obtain ⟨followed, right⟩ := stage_of_traced traced arrived
  have request : m.isRequest = true := by simp [ActorMessage.isRequest, user, prId]
  have settled : (stageOf s.log m.mid).settled = some (answersTo m.mid before) := by
    rw [reclaimed] at right ⊢
    exact settled_stageOf followed right
  exact reply_of_settled traced arrived request settled

/-- A request waits for an actor of a scope that is cancelled by force. -/
def killScopeRun : List Label :=
  [.receive [scopeKey, workerKey] .user 3 5, .receive [scopeKey] .forceStop 3 6, .dispatch 0] ++
    List.replicate 5 (.advance false 0)

/-- The state after it. -/
def killScopeEnd : Shard := (run step (init fun _ => 1) killScopeRun).get (by decide)

/-- The request is reclaimed, and nobody answers it. -/
theorem killed_request_unanswered :
    ¬ ∀ (limitOf : ActorKey → Nat) (labels : List Label) (s : Shard),
      StepsMeet step Responds (init limitOf) labels →
      run step (init limitOf) labels = some s → s.RequestsAnswered := by
  intro claim
  have answered : killScopeEnd.RequestsAnswered :=
    claim (fun _ => 1) killScopeRun killScopeEnd (by decide) (Option.some_get (by decide)).symm
  obtain ⟨failed, -, one⟩ := answered ⟨1, .user, 3, 5⟩ (killScopeEnd.log.take 6)
    (killScopeEnd.log.drop 7) rfl (by decide) (.inl ⟨[workerKey, scopeKey], by decide⟩) (by decide)
  have none : answersTo 1 killScopeEnd.log = [] := by decide
  rw [none] at one
  cases one

/-- The same scope, cancelled peacefully: the actor answers before it ends. -/
theorem cancelled_scope_answers :
    ∃ s, run step (init fun _ => 2 ^ 32 - 1) cancelScopeRun = some s ∧ s.RequestsAnswered := by
  have ran : (run step (init fun _ => 2 ^ 32 - 1) cancelScopeRun).isSome = true := by decide
  exact ⟨_, (Option.some_get ran).symm,
    requestsAnswered_of_run (by decide) (by decide) (Option.some_get ran).symm⟩

/-! ## Cancellations -/

/-- No cancel request waits in the mailbox of a group that the step stops by force, and no group
takes a message while it remembers a cancel request. -/
def KeepsCancels (s : Shard) (label : Label) : Prop :=
  (∀ d ∈ s.dropped label, groupPath d.1 → d.2.isCancel = false) ∧ s.overwritten label = []

instance (s : Shard) (label : Label) : Decidable (s.KeepsCancels label) :=
  inferInstanceAs (Decidable ((∀ d ∈ s.dropped label, groupPath d.1 → d.2.isCancel = false) ∧
    s.overwritten label = []))

/-- Every stop message with a `pr_id` to a group that is gone, and every one to an address that
was disabled, has got one response. -/
def CancelsAnswered (s : Shard) : Prop :=
  ∀ m : ActorMessage, m.isStop = true → m.prId ≠ 0 →
    (∀ k p, k.isGroup = true → .enqueued m (k :: p) ∈ s.log → .destroyed (k :: p) ∈ s.log →
      ∃ failed, answersTo m.mid s.log = [m.reply failed]) ∧
    (∀ addr, .rejected m addr ∈ s.log → ∃ failed, answersTo m.mid s.log = [m.reply failed])

/-- The policy of cancellations. -/
def cancelPolicy : Policy where
  drop := fun q m => groupPath q → m.isCancel = false
  silent := fun _ => True
  overwrite := fun _ => False

/-- A path without an object holds only what the frames have in work. -/
theorem kind_of_absent {q : Path} {i : Item} (absent : s.objs q = none)
    (member : i ∈ (flow noExtra s).held q) : i.kind = .work := by
  simp only [flow, noExtra, heldAt, absent, Option.elim_none, List.nil_append, works,
    List.mem_flatMap] at member
  obtain ⟨frame, -, isHeld⟩ := member
  unfold RunFrame.held at isHeld
  split at isHeld
  · rw [List.mem_singleton.mp isHeld]
  · cases isHeld

/-- Cancellations are answered as long as none is dropped by force or overwritten. -/
theorem cancelsAnswered_of_run
    (kept : StepsMeet step KeepsCancels (init limitOf) labels)
    (ran : run step (init limitOf) labels = some s) : s.CancelsAnswered := by
  have allowed : StepsMeet step (Allows cancelPolicy) (init limitOf) labels := by
    refine kept.mono fun t label met =>
      ⟨fun q m member => met.1 (q, m) member, fun _ _ => trivial, ?_⟩
    rw [met.2]
    exact fun _ member => nomatch member
  obtain ⟨valid, traced⟩ := traced_of_run allowed ran
  intro m isStop prId
  have isCancel : m.isCancel = true := by simp [ActorMessage.isCancel, isStop, prId]
  constructor
  · intro k p group member destroyed
    obtain ⟨followed, right⟩ := stage_of_traced traced (.inl ⟨_, member⟩)
    have sound : Sound cancelPolicy _ m.mid (stageOf s.log m.mid) := traced.sound followed
    obtain ⟨mine, path⟩ := (origin_stageOf followed right).1 _ member
    have absent : s.objs (k :: p) = none :=
      objs_eq_none.mp (valid.removed_gone (mem_removed.mpr destroyed)).2
    rw [← answers_stageOf followed right]
    cases stage : stageOf s.log m.mid with
    | fresh | refusing | refused | ended | wrong =>
      rw [stage] at path
      cases path
    | waiting msg q =>
      rw [stage] at mine path sound
      obtain rfl := Option.some.inj mine
      obtain rfl := Option.some.inj path
      cases kind_of_absent absent (sound.2 group isCancel)
    | working msg q answers =>
      rw [stage] at mine sound
      obtain rfl := Option.some.inj mine
      exact absurd isCancel (not_cancel_of_user sound.2)
    | done msg q answers late =>
      rw [stage] at mine path sound
      obtain rfl := Option.some.inj mine
      obtain rfl := Option.some.inj path
      rcases sound.2.2 group isCancel with drop | overwrite | ⟨rfl, ⟨-, pending⟩ | rfl⟩
      · exact absurd isCancel (by simp [drop group])
      · exact overwrite.elim
      · cases kind_of_absent absent pending
      · exact ⟨false, rfl⟩
  · intro addr member
    obtain ⟨followed, right⟩ := stage_of_traced traced (.inr ⟨_, member⟩)
    have sound : Sound cancelPolicy _ m.mid (stageOf s.log m.mid) := traced.sound followed
    obtain ⟨mine, path⟩ := (origin_stageOf followed right).2 _ member
    rw [← answers_stageOf followed right]
    cases stage : stageOf s.log m.mid with
    | fresh | ended | wrong =>
      rw [stage] at mine
      cases mine
    | waiting | working | done =>
      rw [stage] at path
      cases path
    | refusing =>
      rw [stage] at sound
      exact sound.elim
    | refused msg answers =>
      rw [stage] at mine sound
      obtain rfl := Option.some.inj mine
      obtain rfl := sound.2 prId
      exact ⟨true, rfl⟩

/-- A scope is cancelled twice before it runs. -/
def cancelTwiceRun : List Label :=
  [.receive [scopeKey] .peaceStop 3 5, .receive [scopeKey] .peaceStop 4 6, .dispatch 0] ++
    List.replicate 4 (.advance false 0)

/-- The state after it. -/
def cancelTwiceEnd : Shard := (run step (init fun _ => 1) cancelTwiceRun).get (by decide)

/-- The scope is gone and has answered only one of the two. -/
theorem second_cancel_unanswered :
    ¬ ∀ (limitOf : ActorKey → Nat) (labels : List Label) (s : Shard),
      run step (init limitOf) labels = some s → s.CancelsAnswered := by
  intro claim
  have answered : cancelTwiceEnd.CancelsAnswered :=
    claim (fun _ => 1) cancelTwiceRun cancelTwiceEnd (Option.some_get (by decide)).symm
  obtain ⟨failed, one⟩ := (answered ⟨2, .peaceStop, 4, 6⟩ rfl (by decide)).1 scopeKey [] rfl
    (by decide) (by decide)
  have none : answersTo 2 cancelTwiceEnd.log = [] := by decide
  rw [none] at one
  cases one

/-- A scope that is cancelled once answers. -/
theorem single_cancel_answered :
    ∃ s, run step (init fun _ => 2 ^ 32 - 1) cancelScopeRun = some s ∧ s.CancelsAnswered := by
  have ran : (run step (init fun _ => 2 ^ 32 - 1) cancelScopeRun).isSome = true := by decide
  exact ⟨_, (Option.some_get ran).symm,
    cancelsAnswered_of_run (by decide) (Option.some_get ran).symm⟩

end Shard

end Hiactor
