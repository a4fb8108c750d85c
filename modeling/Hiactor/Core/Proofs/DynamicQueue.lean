import Hiactor.Lib.Run
import Hiactor.Core.DynamicQueue

/-!
# Deliveries of a queue without a limit

A consumer waits only while the queue is empty and has its promise. A promise that was resolved with
a value means that the queue has a value until it is aborted, so that no pop finds it empty. What
was pushed and not delivered is in the queue, and after an abort every call fails.
-/

namespace Hiactor

open Lib

variable {α ε : Type}

namespace QueueEvent

@[simp] theorem pushedValues_append (first second : List (QueueEvent α ε)) :
    pushedValues (first ++ second) = pushedValues first ++ pushedValues second :=
  List.filterMap_append

@[simp] theorem deliveredValues_append (first second : List (QueueEvent α ε)) :
    deliveredValues (first ++ second) = deliveredValues first ++ deliveredValues second :=
  List.filterMap_append

/-- Where an event is in a log with one more event. -/
theorem split_snoc {log before rest : List (QueueEvent α ε)} {last event : QueueEvent α ε}
    (split : log ++ [last] = before ++ event :: rest) :
    (last = event ∧ rest = []) ∨
      ∃ others, rest = others ++ [last] ∧ log = before ++ event :: others := by
  rcases List.eq_nil_or_concat rest with rfl | ⟨others, other, rfl⟩
  · obtain ⟨-, same⟩ := List.append_inj' split rfl
    exact .inl ⟨(List.cons.inj same).1, rfl⟩
  · rw [List.concat_eq_append, ← List.cons_append, ← List.append_assoc] at split
    obtain ⟨kept, same⟩ := List.append_inj' split rfl
    refine .inr ⟨others, ?_, kept⟩
    rw [List.concat_eq_append, (List.cons.inj same).1]

end QueueEvent

namespace BufferUse

open QueueEvent

variable {u u' : BufferUse α ε} {op : BufferOp α ε} {ops : List (BufferOp α ε)}

/-- What holds of a queue in use. -/
structure Sound (u : BufferUse α ε) : Prop where
  safe : .poppedEmpty ∉ u.log
  order : u.queue.ex = none → pushedValues u.log = deliveredValues u.log ++ u.queue.q
  closed : ∀ ex, u.queue.ex = some ex → u.queue.q = [] ∧ .aborted ex ∈ u.log
  after : ∀ before rest ex, u.log = before ++ .aborted ex :: rest →
    u.queue.ex = some ex ∧ ∀ event ∈ rest, event.FailsWith ex
  waiting : u.waiter = .waiting ↔ u.queue.notEmpty = true
  promised : u.queue.notEmpty = true → u.queue.ex = none ∧ u.queue.q = []
  ready : u.waiter = .resolved .value → u.queue.ex = none → u.queue.q ≠ []
  failed : ∀ ex, u.waiter = .resolved (.exception ex) → u.queue.ex = some ex

theorem sound_new : Sound ({} : BufferUse α ε) where
  safe := List.not_mem_nil
  order _ := rfl
  closed _ set := nomatch set
  after _ _ _ split := absurd (congrArg List.length split) (by simp)
  waiting := ⟨nofun, nofun⟩
  promised := nofun
  ready := nofun
  failed _ := nofun

namespace Sound

/-- An event that is not an abort and, after one, is a failure. -/
theorem after_snoc {event : QueueEvent α ε} (sound : u.Sound)
    (fails : ∀ ex, u.queue.ex = some ex → event.FailsWith ex)
    (other : ∀ ex, event ≠ .aborted ex) (before rest : List (QueueEvent α ε)) (ex : ε)
    (split : u.log ++ [event] = before ++ .aborted ex :: rest) :
    u.queue.ex = some ex ∧ ∀ event ∈ rest, event.FailsWith ex := by
  rcases split_snoc split with ⟨same, -⟩ | ⟨others, rfl, kept⟩
  · exact absurd same (other ex)
  · obtain ⟨set, failures⟩ := sound.after before others ex kept
    refine ⟨set, fun later listed => ?_⟩
    rcases List.mem_append.mp listed with earlier | last
    · exact failures later earlier
    · rw [List.mem_singleton.mp last]
      exact fails ex set

/-- A call that fails changes nothing but the log. -/
theorem failure {event : QueueEvent α ε} {ex : ε} {waiter : Waiter ε} (sound : u.Sound)
    (set : u.queue.ex = some ex) (fails : event.FailsWith ex)
    (kept : waiter = u.waiter ∨ waiter = .idle) :
    Sound { u with waiter := waiter, log := u.log ++ [event] } := by
  have no_promise : u.queue.notEmpty ≠ true := by
    intro promise
    rw [(sound.promised promise).1] at set
    cases set
  have not_waiting : waiter ≠ .waiting := by
    rcases kept with rfl | rfl
    · rwa [ne_eq, sound.waiting]
    · exact nofun
  refine ⟨?_, ?_, ?_, ?_, iff_of_false not_waiting no_promise, sound.promised, ?_, ?_⟩
  · rw [List.mem_append, List.mem_singleton]
    rintro (listed | rfl)
    · exact sound.safe listed
    · exact fails
  · intro unset
    rw [set] at unset
    cases unset
  · intro old same
    exact ⟨(sound.closed old same).1, List.mem_append_left _ (sound.closed old same).2⟩
  · apply sound.after_snoc
    · intro old same
      obtain rfl := Option.some.inj (set.symm.trans same)
      exact fails
    · rintro old rfl
      exact fails
  · intro _ unset
    rw [set] at unset
    cases unset
  · intro old same
    rcases kept with rfl | rfl
    · exact sound.failed old same
    · cases same

theorem fail {ex : ε} (sound : u.Sound) (set : u.queue.ex = some ex) : (u.fail ex).Sound :=
  sound.failure set rfl (.inr rfl)

/-- A log without an abort stays one. -/
theorem unaborted {event : QueueEvent α ε} {before rest : List (QueueEvent α ε)} {ex : ε}
    (sound : u.Sound) (unset : u.queue.ex = none) (other : ∀ ex, event ≠ .aborted ex)
    (split : u.log ++ [event] = before ++ .aborted ex :: rest) : False := by
  have fails : ∀ old, u.queue.ex = some old → event.FailsWith old := by
    intro old set
    rw [unset] at set
    cases set
  have set := (sound.after_snoc fails other before rest ex split).1
  rw [unset] at set
  cases set

theorem push (sound : u.Sound) (data : α) : (u.push data).Sound := by
  cases set : u.queue.ex with
  | some ex =>
    have failed : u.push data = { u with log := u.log ++ [.pushFailed ex] } := by
      simp [BufferUse.push, DynamicQueue.pushEventually, set]
    rw [failed]
    exact sound.failure set rfl (.inl rfl)
  | none =>
    have pushed : u.push data =
        { queue := { u.queue with q := u.queue.q ++ [data], notEmpty := false }
          waiter := if u.queue.notEmpty then .resolved .value else u.waiter
          log := u.log ++ [.pushed data] } := by
      cases promise : u.queue.notEmpty with
      | true =>
        simp [BufferUse.push, DynamicQueue.pushEventually, set, DynamicQueue.notifyNotEmpty,
          promise,
          Waiter.resolve]
      | false =>
        simp [BufferUse.push, DynamicQueue.pushEventually, set, DynamicQueue.notifyNotEmpty,
          promise,
          Waiter.resolve]
    rw [pushed]
    refine ⟨?_, ?_, ?_, ?_, ?_, nofun, ?_, ?_⟩
    · simpa using sound.safe
    · intro _
      simp only [pushedValues_append, deliveredValues_append, sound.order set]
      simp [pushedValues, deliveredValues]
    · intro ex same
      rw [set] at same
      cases same
    · intro before rest ex split
      exact absurd split (sound.unaborted set (by simp))
    · cases promise : u.queue.notEmpty with
      | true => simp
      | false =>
        have not_waiting : u.waiter ≠ .waiting := by
          rw [ne_eq, sound.waiting, promise]
          exact Bool.false_ne_true
        simp [not_waiting]
    · intro _ _
      simp
    · intro ex same
      cases promise : u.queue.notEmpty with
      | true => simp [promise] at same
      | false =>
        rw [promise, if_neg Bool.false_ne_true] at same
        exact sound.failed ex same

/-- A pop of a queue with a value delivers the oldest one. -/
theorem take (sound : u.Sound) (unset : u.queue.ex = none) (some_left : u.queue.q ≠ []) :
    u.take.Sound := by
  obtain ⟨data, rest, left⟩ := List.exists_cons_of_ne_nil some_left
  have no_promise : u.queue.notEmpty = false := by
    cases promise : u.queue.notEmpty with
    | false => rfl
    | true => exact absurd (sound.promised promise).2 some_left
  have taken : u.take =
      { queue := { u.queue with q := rest }, waiter := .idle,
        log := u.log ++ [.delivered data] } := by
    simp [BufferUse.take, DynamicQueue.pop, left]
  rw [taken]
  refine ⟨?_, ?_, ?_, ?_, ?_, ?_, nofun, fun _ => nofun⟩
  · simpa using sound.safe
  · intro _
    simp only [pushedValues_append, deliveredValues_append, sound.order unset, left]
    simp [pushedValues, deliveredValues]
  · intro ex same
    rw [unset] at same
    cases same
  · intro before rest ex split
    exact absurd split (sound.unaborted unset (by simp))
  · simp [no_promise]
  · simp [no_promise]

theorem popEventually (sound : u.Sound) : u.popEventually.Sound := by
  unfold BufferUse.popEventually
  split
  · next ex set => exact sound.fail set
  · next unset =>
    split
    · next none_left =>
      have nothing : u.queue.q = [] := by simpa [DynamicQueue.empty] using none_left
      refine ⟨sound.safe, sound.order, sound.closed, sound.after, iff_of_true rfl rfl,
        fun _ => ⟨unset, nothing⟩, nofun, fun _ => nofun⟩
    · next some_left =>
      exact sound.take unset (by simpa [DynamicQueue.empty] using some_left)

/-- What waited for the promise finds a value or the exception. -/
theorem resume (sound : u.Sound) (resumed : u.resume = some u') : u'.Sound := by
  unfold BufferUse.resume at resumed
  split at resumed
  · cases resumed
  · cases resumed
  · next ex waiter =>
    obtain rfl := Option.some.inj resumed
    exact sound.fail (sound.failed ex waiter)
  · next waiter =>
    split at resumed
    · next ex set =>
      obtain rfl := Option.some.inj resumed
      exact sound.fail set
    · next unset =>
      obtain rfl := Option.some.inj resumed
      exact sound.take unset (sound.ready waiter unset)

theorem consumeAbort (sound : u.Sound) (func : α → Bool) (ex : ε) :
    (u.consumeAbort func ex).Sound := by
  cases set : u.queue.ex with
  | some old =>
    have failed : u.consumeAbort func ex = { u with log := u.log ++ [.consumeFailed old] } := by
      simp [BufferUse.consumeAbort, DynamicQueue.consume, set]
    rw [failed]
    exact sound.failure set rfl (.inl rfl)
  | none =>
    have aborted : u.consumeAbort func ex =
        { queue := { q := [], notEmpty := false, ex := some ex }
          waiter := if u.queue.notEmpty then .resolved (.exception ex) else u.waiter
          log := u.log ++ [.aborted ex] } := by
      cases promise : u.queue.notEmpty with
      | true =>
        simp [BufferUse.consumeAbort, DynamicQueue.consume, set, DynamicQueue.abort, promise,
          Waiter.resolve]
      | false =>
        simp [BufferUse.consumeAbort, DynamicQueue.consume, set, DynamicQueue.abort, promise,
          Waiter.resolve]
    rw [aborted]
    refine ⟨?_, nofun, ?_, ?_, ?_, nofun, nofun, ?_⟩
    · simpa using sound.safe
    · intro old same
      obtain rfl := Option.some.inj same
      exact ⟨rfl, by simp⟩
    · intro before rest old split
      rcases split_snoc split with ⟨same, rfl⟩ | ⟨others, -, kept⟩
      · obtain rfl := QueueEvent.aborted.inj same
        exact ⟨rfl, by simp⟩
      · have earlier := (sound.after before others old kept).1
        rw [set] at earlier
        cases earlier
    · cases promise : u.queue.notEmpty with
      | true => simp
      | false =>
        have not_waiting : u.waiter ≠ .waiting := by
          rw [ne_eq, sound.waiting, promise]
          exact Bool.false_ne_true
        simp [not_waiting]
    · intro old same
      cases promise : u.queue.notEmpty with
      | true =>
        rw [promise, if_pos rfl] at same
        rw [Signal.exception.inj (Waiter.resolved.inj same)]
      | false =>
        rw [promise, if_neg Bool.false_ne_true] at same
        have earlier := sound.failed old same
        rw [set] at earlier
        cases earlier

theorem step (sound : u.Sound) (taken : BufferUse.step u op = some u') : u'.Sound := by
  cases op with
  | push data =>
    obtain rfl := Option.some.inj taken
    exact sound.push data
  | pop =>
    simp only [BufferUse.step] at taken
    split at taken
    · obtain rfl := Option.some.inj taken
      exact sound.popEventually
    · cases taken
  | resume => exact sound.resume taken
  | abort func ex =>
    obtain rfl := Option.some.inj taken
    exact sound.consumeAbort func ex

end Sound

theorem sound_run (ran : run step {} ops = some u) : u.Sound :=
  run_invariant Sound (fun _ _ _ sound taken => sound.step taken) ops {} u sound_new ran

/-- After an abort an outstanding `pop_eventually` fails when it goes on. -/
theorem Sound.resume_aborted {ex : ε} (sound : u.Sound) (set : u.queue.ex = some ex) :
    u.waiter = .idle ∨ u.resume = some (u.fail ex) := by
  cases waiter : u.waiter with
  | idle => exact .inl rfl
  | waiting =>
    have promise := (sound.promised (sound.waiting.mp waiter)).1
    rw [set] at promise
    cases promise
  | resolved signal =>
    refine .inr ?_
    cases signal with
    | value => simp [BufferUse.resume, waiter, set]
    | exception old =>
      have same := Option.some.inj ((sound.failed old waiter).symm.trans set)
      simp [BufferUse.resume, waiter, same]

/-- No pop finds the queue empty. Before an abort the delivered values are the first of the pushed
ones and the others are in the queue. After an abort every call fails with its exception, the
outstanding `pop_eventually` as well. -/
theorem delivers_in_order (ran : run step {} ops = some u) :
    .poppedEmpty ∉ u.log ∧
      ((∀ ex, .aborted ex ∉ u.log) →
        pushedValues u.log = deliveredValues u.log ++ u.queue.q) ∧
      ∀ before rest ex, u.log = before ++ .aborted ex :: rest →
        (∀ event ∈ rest, event.FailsWith ex) ∧ u.queue.q = [] ∧
          (u.waiter = .idle ∨
            ∃ u', step u .resume = some u' ∧ u'.log = u.log ++ [.popFailed ex]) := by
  have sound := sound_run ran
  refine ⟨sound.safe, fun unaborted => ?_, fun before rest ex split => ?_⟩
  · apply sound.order
    cases set : u.queue.ex with
    | none => rfl
    | some ex => exact absurd (sound.closed ex set).2 (unaborted ex)
  · obtain ⟨set, failures⟩ := sound.after before rest ex split
    refine ⟨failures, (sound.closed ex set).1, ?_⟩
    rcases sound.resume_aborted set with idle | resumed
    · exact .inl idle
    · exact .inr ⟨u.fail ex, resumed, rfl⟩

/-- A consumer that waits, an abort between the signal and its resumption, and calls after it. -/
def abortedOps : List (BufferOp Nat Nat) :=
  [.push 1, .pop, .pop, .push 2, .abort (fun _ => true) 9, .push 3, .resume, .pop]

theorem delivers_in_order_aborted :
    ∃ u, run step {} abortedOps = some u ∧
      .poppedEmpty ∉ u.log ∧
        ((∀ ex, .aborted ex ∉ u.log) →
          pushedValues u.log = deliveredValues u.log ++ u.queue.q) ∧
        ∀ before rest ex, u.log = before ++ .aborted ex :: rest →
          (∀ event ∈ rest, event.FailsWith ex) ∧ u.queue.q = [] ∧
            (u.waiter = .idle ∨
              ∃ u', step u .resume = some u' ∧ u'.log = u.log ++ [.popFailed ex]) := by
  obtain ⟨u, ran⟩ : ∃ u, run step {} abortedOps = some u := ⟨_, rfl⟩
  exact ⟨u, ran, delivers_in_order ran⟩


end BufferUse

end Hiactor
