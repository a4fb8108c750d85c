import Mathlib.Data.List.Nodup
import Mathlib.Data.List.Perm.Basic
import Hiactor.Core.ThreadPool

/-!
# Completed work wakes its shard

A thread that has completed an item returns to the pool before it reads whom to wake up, and the
next shard that pops it overwrites the fields that say so. As long as no field is changed that the
thread has still to read, an item that is completed while its shard falls asleep always has a
thread that is going to check the flag of the shard.
-/

namespace Hiactor

open Lib

/-! ## The condition -/

/-- The thread has still to read `_employer_shard` for the item that it has completed. -/
def WorkerPc.readsEmployerShard : WorkerPc → Bool
  | .returned => true
  | _ => false

/-- The thread may still read `_employer` for the item that it has completed. -/
def WorkerPc.readsEmployer : WorkerPc → Bool
  | .returned | .loaded _ | .waking => true
  | _ => false

/-- A write of `submit` to a thread changes no field that the thread has still to read. -/
def SubmitPc.Spares (s : Nat) (wt : WorkThread) : SubmitPc → Prop
  | .writeEmployer => wt.pc.readsEmployer → wt.employer = some s
  | .writeEmployerShard => wt.pc.readsEmployerShard → wt.employerShard = s
  | .create | .reset _ | .signal => True

instance (s : Nat) (wt : WorkThread) : (next : SubmitPc) → Decidable (next.Spares s wt)
  | .writeEmployer => inferInstanceAs (Decidable (wt.pc.readsEmployer → wt.employer = some s))
  | .writeEmployerShard =>
    inferInstanceAs (Decidable (wt.pc.readsEmployerShard → wt.employerShard = s))
  | .create | .reset _ | .signal => isTrue trivial

namespace ThreadPool

variable (p : ThreadPool)

def SparesNext (s : Nat) : ShardPc → Prop
  | .submitting w next => next.Spares s (p.thread w)
  | .running | .polling _ _ | .raced | .asleep => True

instance (s : Nat) : (pc : ShardPc) → Decidable (p.SparesNext s pc)
  | .submitting w next => inferInstanceAs (Decidable (next.Spares s (p.thread w)))
  | .running | .polling _ _ | .raced | .asleep => isTrue trivial

/-- No step changes a field that a thread has still to read. -/
def Spares : Label → Prop
  | .shard s .next => p.SparesNext s (p.shard s)
  | .shard _ .pop | .shard _ (.submit _) | .shard _ .poll | .shard _ .tryEnterInterruptMode => True
  | .worker _ => True

instance : (label : Label) → Decidable (p.Spares label)
  | .shard s .next => inferInstanceAs (Decidable (p.SparesNext s (p.shard s)))
  | .shard _ .pop | .shard _ (.submit _) | .shard _ .poll
  | .shard _ .tryEnterInterruptMode => isTrue trivial
  | .worker _ => isTrue trivial

end ThreadPool

/-! ## Threads -/

namespace WorkThread

/-- The thread is in no queue: it was signalled, or it has not returned to the pool yet. -/
def Busy (wt : WorkThread) : Prop :=
  0 < wt.startEventfd ∨
    match wt.pc with
    | .started | .processing _ | .completed => True
    | _ => False

/-- The fields of a thread agree with the item that it has. -/
structure Sound (wt : WorkThread) : Prop where
  signalled : 0 < wt.startEventfd → wt.workItem = some ⟨wt.employerShard⟩ ∧
    wt.employer = some wt.employerShard ∧
    match wt.pc with
    | .started | .processing _ | .completed => False
    | _ => True
  fields : match wt.pc with
    | .started => wt.workItem = some ⟨wt.employerShard⟩ ∧ wt.employer = some wt.employerShard
    | .processing wi => wi.fromShard = wt.employerShard ∧ wt.employer = some wt.employerShard
    | .completed | .returned => wt.employer = some wt.employerShard
    | .loaded shard => wt.employer = some shard
    | _ => True

end WorkThread

/-- What `submit` has written so far. -/
def SubmitPc.Written (s : Nat) (wt : WorkThread) : SubmitPc → Prop
  | .writeEmployer => True
  | .writeEmployerShard => wt.employer = some s
  | .create => wt.employer = some s ∧ wt.employerShard = s
  | .reset wi => wt.employer = some s ∧ wt.employerShard = s ∧ wi.fromShard = s
  | .signal => wt.employer = some s ∧ wt.employerShard = s ∧ wt.workItem = some ⟨s⟩

/-- The shard has set its idle flag. -/
def ShardPc.Entered : ShardPc → Prop
  | .polling true _ | .raced | .asleep => True
  | _ => False

namespace ThreadPool

/-- A thread that waits in the pool or was popped by a shard belongs to that place alone, and it
is not busy. -/
structure Owned (threads : List Nat) (taken : Nat → List Nat) (thread : Nat → WorkThread) :
    Prop where
  pooled : ∀ w ∈ threads, ¬(thread w).Busy
  popped : ∀ s, ∀ w ∈ taken s, ¬(thread w).Busy
  nodup : threads.Nodup
  once : ∀ s, (taken s).Nodup
  apart : ∀ s, ∀ w ∈ taken s, w ∉ threads
  only : ∀ s s' w, w ∈ taken s → w ∈ taken s' → s = s'

structure Sound (p : ThreadPool) : Prop where
  thread : ∀ w, (p.thread w).Sound
  owned : Owned p.threads p.taken p.thread
  submits : ∀ s w next, p.shard s = .submitting w next →
    w ∈ p.taken s ∧ next.Written s (p.thread w)
  idle : ∀ s, (p.shard s).Entered → p.reactorsIdle s = true
  woken : ∀ s, p.shard s = .asleep → p.completed s ≠ [] →
    p.woken s = true ∨ ∃ w, (p.thread w).Checks s

theorem Sound.not_lostWakeup {p : ThreadPool} (sound : p.Sound) (s : Nat) : ¬p.LostWakeup s := by
  rintro ⟨asleep, item, nobody, unwoken⟩
  rcases sound.woken s asleep item with woken | ⟨w, checks⟩
  · rw [unwoken] at woken
    cases woken
  · exact nobody w checks

theorem sound_init (localShardCount workerNum : Nat) : (init localShardCount workerNum).Sound where
  thread _ := ⟨fun signalled => absurd signalled (Nat.lt_irrefl 0), trivial⟩
  owned := {
    pooled := fun _ _ busy => busy.elim (Nat.lt_irrefl 0) id
    popped := fun _ _ member => nomatch member
    nodup := List.nodup_range
    once := fun _ => List.nodup_nil
    apart := fun _ _ member => nomatch member
    only := fun _ _ _ member => nomatch member }
  submits _ _ _ at' := nomatch at'
  idle _ entered := entered.elim
  woken _ asleep := nomatch asleep

variable {p q : ThreadPool} {s w : Nat}

/-! ## Steps of a thread -/

/-- A thread that is in a queue or popped only moves on in its loop. -/
def Follows (wt wt' : WorkThread) : Prop :=
  ¬wt.Busy → ¬wt'.Busy ∧ wt'.employer = wt.employer ∧ wt'.employerShard = wt.employerShard ∧
    wt'.workItem = wt.workItem

theorem Owned.setThread {threads : List Nat} {taken : Nat → List Nat} {thread : Nat → WorkThread}
    (owned : Owned threads taken thread) {wt' : WorkThread}
    (free : ¬(thread w).Busy → ¬wt'.Busy) :
    Owned threads taken (Function.update thread w wt') := by
  have kept : ∀ v, ¬(thread v).Busy → ¬(Function.update thread w wt' v).Busy := by
    intro v idle
    by_cases same : v = w
    · subst same
      rw [Function.update_self]
      exact free idle
    · rwa [Function.update_of_ne same]
  exact { owned with
    pooled := fun v member => kept v (owned.pooled v member)
    popped := fun s v member => kept v (owned.popped s v member) }

theorem written_of_eq {wt wt' : WorkThread} {next : SubmitPc}
    (employer : wt'.employer = wt.employer) (shard : wt'.employerShard = wt.employerShard)
    (item : wt'.workItem = wt.workItem) (written : next.Written s wt) : next.Written s wt' := by
  cases next with
  | writeEmployer => trivial
  | _ => simpa only [SubmitPc.Written, employer, shard, item] using written

theorem written_setThread (sound : p.Sound) {wt' : WorkThread}
    (follows : Follows (p.thread w) wt') {t v : Nat} {next : SubmitPc}
    (at' : p.shard t = .submitting v next) :
    v ∈ p.taken t ∧ next.Written t (Function.update p.thread w wt' v) := by
  obtain ⟨member, written⟩ := sound.submits t v next at'
  refine ⟨member, ?_⟩
  by_cases same : v = w
  · subst same
    obtain ⟨_, employer, shard, item⟩ := follows (sound.owned.popped t v member)
    rw [Function.update_self]
    exact written_of_eq employer shard item written
  · rwa [Function.update_of_ne same]

theorem thread_setThread (sound : p.Sound) {wt' : WorkThread} (next : wt'.Sound) (v : Nat) :
    (Function.update p.thread w wt' v).Sound := by
  by_cases same : v = w
  · subst same
    rwa [Function.update_self]
  · rw [Function.update_of_ne same]
    exact sound.thread v

/-- The other threads check what they checked before. -/
theorem checks_setThread {wt' : WorkThread} {t : Nat}
    (kept : (p.thread w).Checks t → wt'.Checks t) (checked : ∃ v, (p.thread v).Checks t) :
    ∃ v, (Function.update p.thread w wt' v).Checks t := by
  obtain ⟨v, checks⟩ := checked
  refine ⟨v, ?_⟩
  by_cases same : v = w
  · subst same
    rw [Function.update_self]
    exact kept checks
  · rwa [Function.update_of_ne same]

/-- A step of a thread that changes nothing but the thread. -/
theorem Sound.setThread (sound : p.Sound) {wt' : WorkThread} (next : wt'.Sound)
    (follows : Follows (p.thread w) wt')
    (checks : ∀ t, p.shard t = .asleep → p.woken t = false → (p.thread w).Checks t →
      wt'.Checks t) :
    (p.setThread w wt').Sound where
  thread := thread_setThread sound next
  owned := sound.owned.setThread fun idle => (follows idle).1
  submits t v next at' := written_setThread sound follows at'
  idle := sound.idle
  woken t asleep item := by
    cases unwoken : p.woken t with
    | true => exact .inl unwoken
    | false =>
      rcases sound.woken t asleep item with woken | checked
      · rw [unwoken] at woken
        cases woken
      · exact .inr (checks_setThread (checks t asleep unwoken) checked)

theorem Sound.start (sound : p.Sound) (at' : (p.thread w).pc = .waiting)
    (signalled : 0 < (p.thread w).startEventfd) :
    (p.setThread w { p.thread w with pc := .started, startEventfd := 0 }).Sound := by
  obtain ⟨item, employer, -⟩ := (sound.thread w).signalled signalled
  refine sound.setThread ⟨fun again => absurd again (Nat.lt_irrefl 0), item, employer⟩
    (fun idle => absurd (.inl signalled) idle) fun t _ _ checks => .inr ?_
  rcases checks with ⟨-, shard⟩ | checks
  · exact shard
  · rw [at'] at checks
    exact checks.elim

/-- A thread with an item was not signalled again. -/
theorem unsignalled {wt : WorkThread} (sound : wt.Sound)
    (busy : match wt.pc with
      | .started | .processing _ | .completed => True
      | _ => False) : ¬0 < wt.startEventfd := by
  intro signalled
  have free := (sound.signalled signalled).2.2
  split at busy <;> simp_all

theorem Sound.release (sound : p.Sound) {wi : WorkItem} (at' : (p.thread w).pc = .started)
    (item : (p.thread w).workItem = some wi) :
    (p.setThread w { p.thread w with pc := .processing wi, workItem := none }).Sound := by
  have thread := sound.thread w
  have once : ¬0 < (p.thread w).startEventfd := unsignalled thread (by simp [at'])
  have fields := thread.fields
  simp only [at', item, Option.some.injEq] at fields
  obtain ⟨rfl, employer⟩ := fields
  refine sound.setThread ⟨fun again => absurd again once, rfl, employer⟩
    (fun idle => absurd (.inr (by simp [at'])) idle) fun t _ _ checks => .inr ?_
  rcases checks with ⟨again, -⟩ | checks
  · exact absurd again once
  · simpa only [at'] using checks

/-- The item is pushed by a thread that then checks the shard of the item. -/
theorem Sound.completeWorkItem (sound : p.Sound) {wi : WorkItem}
    (at' : (p.thread w).pc = .processing wi) :
    Sound { p.setThread w { p.thread w with pc := .completed } with
      completed :=
        Function.update p.completed wi.fromShard (p.completed wi.fromShard ++ [wi]) } := by
  have thread := sound.thread w
  have once : ¬0 < (p.thread w).startEventfd := unsignalled thread (by simp [at'])
  have fields := thread.fields
  simp only [at'] at fields
  obtain ⟨shard, employer⟩ := fields
  have moved : (p.setThread w { p.thread w with pc := .completed }).Sound := by
    refine sound.setThread ⟨fun again => absurd again once, employer⟩
      (fun idle => absurd (.inr (by simp [at'])) idle) fun t _ _ checks => .inr ?_
    rcases checks with ⟨again, -⟩ | checks
    · exact absurd again once
    · simpa only [at'] using checks
  refine { moved with woken := fun t asleep item => ?_ }
  by_cases same : t = wi.fromShard
  · refine .inr ⟨w, .inr ?_⟩
    simp [ThreadPool.setThread, same, shard]
  · have queued : p.completed t ≠ [] := by simpa only [Function.update_of_ne same] using item
    exact moved.woken t asleep queued

theorem Sound.returnWorker (sound : p.Sound) (at' : (p.thread w).pc = .completed) :
    Sound { p.setThread w { p.thread w with pc := .returned } with
      threads := p.threads ++ [w] } := by
  have thread := sound.thread w
  have once : ¬0 < (p.thread w).startEventfd := unsignalled thread (by simp [at'])
  have busy : (p.thread w).Busy := .inr (by simp [at'])
  have employer := thread.fields
  simp only [at'] at employer
  have moved : (p.setThread w { p.thread w with pc := .returned }).Sound := by
    refine sound.setThread ⟨fun again => absurd again once, employer⟩
      (fun idle => absurd busy idle) fun t _ _ checks => .inr ?_
    rcases checks with ⟨again, -⟩ | checks
    · exact absurd again once
    · simpa only [at'] using checks
  have owned := sound.owned
  refine { moved with owned := { moved.owned with pooled := ?_, nodup := ?_, apart := ?_ } }
  · intro v member
    rcases List.mem_append.mp member with pooled | new
    · exact moved.owned.pooled v pooled
    · obtain rfl := List.mem_singleton.mp new
      simpa [ThreadPool.setThread, WorkThread.Busy] using once
  · refine List.nodup_append.mpr ⟨owned.nodup, List.nodup_singleton w, ?_⟩
    intro v pooled u new same
    rw [same, List.mem_singleton.mp new] at pooled
    exact owned.pooled w pooled busy
  · intro t v popped member
    rcases List.mem_append.mp member with pooled | new
    · exact owned.apart t v popped pooled
    · rw [List.mem_singleton.mp new] at popped
      exact owned.popped t w popped busy

/-- A step behind `return_worker` in the loop, where the thread may be signalled again. -/
theorem Sound.moveOn (sound : p.Sound) {pc' : WorkerPc}
    (fields : match pc' with
      | .started | .processing _ | .completed | .returned => False
      | .loaded shard => (p.thread w).employer = some shard
      | _ => True)
    (checks : ∀ t, p.shard t = .asleep → p.woken t = false → (p.thread w).Checks t →
      WorkThread.Checks { p.thread w with pc := pc' } t) :
    (p.setThread w { p.thread w with pc := pc' }).Sound := by
  refine sound.setThread ⟨fun again => ?_, ?_⟩ ?_ checks
  · obtain ⟨item, employer, -⟩ := (sound.thread w).signalled again
    refine ⟨item, employer, ?_⟩
    cases pc' <;> simp_all
  · cases pc' <;> simp_all
  · intro idle
    refine ⟨fun busy => idle ?_, rfl, rfl, rfl⟩
    rcases busy with again | busy
    · exact .inl again
    · cases pc' <;> simp_all

theorem Sound.loadEmployerShard (sound : p.Sound) (at' : (p.thread w).pc = .returned) :
    (p.setThread w { p.thread w with pc := .loaded (p.thread w).employerShard }).Sound := by
  have employer := (sound.thread w).fields
  simp only [at'] at employer
  refine sound.moveOn employer fun t _ _ checks => ?_
  rcases checks with again | checks
  · exact .inl again
  · exact .inr (by simpa only [at'] using checks)

theorem Sound.findsIdle (sound : p.Sound) {shard : Nat} (at' : (p.thread w).pc = .loaded shard) :
    (p.setThread w { p.thread w with pc := .waking }).Sound := by
  have employer := (sound.thread w).fields
  simp only [at'] at employer
  refine sound.moveOn trivial fun t _ _ checks => ?_
  rcases checks with again | checks
  · exact .inl again
  · simp only [at'] at checks
    exact .inr (checks ▸ employer)

/-- The flag of a shard that sleeps is set, so the thread had no such shard to wake. -/
theorem Sound.findsRunning (sound : p.Sound) {shard : Nat} (at' : (p.thread w).pc = .loaded shard)
    (running : p.reactorsIdle shard = false) :
    (p.setThread w { p.thread w with pc := .waiting }).Sound := by
  refine sound.moveOn trivial fun t asleep _ checks => ?_
  rcases checks with again | checks
  · exact .inl again
  · simp only [at'] at checks
    have idle := sound.idle shard (by rw [checks, asleep]; trivial)
    rw [running] at idle
    cases idle

theorem Sound.loadEmployer (sound : p.Sound) (at' : (p.thread w).pc = .waking) :
    (p.setThread w { p.thread w with pc := .calling (p.thread w).employer }).Sound := by
  refine sound.moveOn trivial fun t _ _ checks => ?_
  rcases checks with again | checks
  · exact .inl again
  · exact .inr (by simpa only [at'] using checks)

theorem Sound.wakeup (sound : p.Sound) {e : Nat} (at' : (p.thread w).pc = .calling (some e)) :
    Sound { p.setThread w { p.thread w with pc := .waiting } with
      woken := Function.update p.woken e true } := by
  have raised : Sound { p with woken := Function.update p.woken e true } := by
    refine { sound with woken := fun t asleep item => ?_ }
    by_cases same : t = e
    · subst same
      exact .inl (Function.update_self ..)
    · simpa only [Function.update_of_ne same] using sound.woken t asleep item
  refine raised.moveOn trivial fun t _ unwoken checks => ?_
  rcases checks with again | checks
  · exact .inl again
  · simp only [at', Option.some.injEq] at checks
    subst checks
    simp at unwoken

theorem Sound.stepWorker (sound : p.Sound) (taken : p.stepWorker w = some q) : q.Sound := by
  simp only [ThreadPool.stepWorker] at taken
  split at taken
  case h_1 at' =>
    split at taken
    case isTrue signalled => exact Option.some.inj taken ▸ sound.start at' signalled
    case isFalse => cases taken
  case h_2 at' =>
    split at taken
    case h_1 item => exact Option.some.inj taken ▸ sound.release at' item
    case h_2 => cases taken
  case h_3 at' => exact Option.some.inj taken ▸ sound.completeWorkItem at'
  case h_4 at' => exact Option.some.inj taken ▸ sound.returnWorker at'
  case h_5 at' => exact Option.some.inj taken ▸ sound.loadEmployerShard at'
  case h_6 at' =>
    split at taken
    case isTrue => exact Option.some.inj taken ▸ sound.findsIdle at'
    case isFalse running =>
      exact Option.some.inj taken ▸ sound.findsRunning at' (Bool.not_eq_true _ ▸ running)
  case h_7 at' => exact Option.some.inj taken ▸ sound.loadEmployer at'
  case h_8 at' =>
    split at taken
    case h_1 => exact Option.some.inj taken ▸ sound.wakeup at'
    case h_2 => cases taken

/-! ## Steps of a shard -/

theorem Sound.setShard (sound : p.Sound) {pc' : ShardPc}
    (submits : ∀ w next, pc' = .submitting w next → w ∈ p.taken s ∧ next.Written s (p.thread w))
    (idle : pc'.Entered → p.reactorsIdle s = true)
    (empty : pc' = .asleep → p.completed s = []) : (p.setShard s pc').Sound where
  thread := sound.thread
  owned := sound.owned
  submits t w next at' := by
    simp only [ThreadPool.setShard, Function.update_apply] at at'
    split at at'
    case isTrue same => exact same ▸ submits w next at'
    case isFalse => exact sound.submits t w next at'
  idle t entered := by
    simp only [ThreadPool.setShard, Function.update_apply] at entered
    split at entered
    case isTrue same => exact same ▸ idle entered
    case isFalse => exact sound.idle t entered
  woken t asleep item := by
    simp only [ThreadPool.setShard, Function.update_apply] at asleep
    split at asleep
    case isTrue same => exact absurd (same ▸ empty asleep) item
    case isFalse => exact sound.woken t asleep item

theorem Sound.setIdle (sound : p.Sound) {idle : Bool}
    (entered : (p.shard s).Entered → idle = true) :
    (p.setIdle s idle).Sound := by
  refine { sound with idle := fun t set => ?_ }
  simp only [ThreadPool.setIdle, Function.update_apply]
  split
  case isTrue same => exact entered (same ▸ set)
  case isFalse => exact sound.idle t set

theorem Sound.setRunning (sound : p.Sound) : (p.setShard s .running).Sound :=
  sound.setShard (fun _ _ at' => nomatch at') (fun entered => entered.elim) (fun at' => nomatch at')

/-- What a shard has popped after a pop: what it had before, and the thread in front. -/
theorem mem_pop {taken : Nat → List Nat} {t v : Nat} :
    v ∈ Function.update taken s (w :: taken s) t ↔ (t = s ∧ v = w) ∨ v ∈ taken t := by
  rw [Function.update_apply]
  split
  case isTrue same => simp [same]
  case isFalse other => simp [other]

theorem Owned.pop {rest : List Nat} {taken : Nat → List Nat} {thread : Nat → WorkThread}
    (owned : Owned (w :: rest) taken thread) :
    Owned rest (Function.update taken s (w :: taken s)) thread := by
  have pooled : w ∈ w :: rest := List.mem_cons_self
  have fresh : ∀ t, w ∉ taken t := fun t popped => owned.apart t w popped pooled
  obtain ⟨absent, nodup⟩ := List.nodup_cons.mp owned.nodup
  refine ⟨fun v member => owned.pooled v (List.mem_cons_of_mem w member), ?_, nodup, ?_, ?_, ?_⟩
  · intro t v member
    rcases mem_pop.mp member with ⟨-, rfl⟩ | old
    · exact owned.pooled v pooled
    · exact owned.popped t v old
  · intro t
    rw [Function.update_apply]
    split
    case isTrue => exact List.nodup_cons.mpr ⟨fresh s, owned.once s⟩
    case isFalse => exact owned.once t
  · intro t v member
    rcases mem_pop.mp member with ⟨-, rfl⟩ | old
    · exact absent
    · exact fun again => owned.apart t v old (List.mem_cons_of_mem w again)
  · intro t t' v member member'
    rcases mem_pop.mp member with ⟨rfl, rfl⟩ | old
    · rcases mem_pop.mp member' with ⟨rfl, -⟩ | old'
      · rfl
      · exact absurd old' (fresh t')
    · rcases mem_pop.mp member' with ⟨-, rfl⟩ | old'
      · exact absurd old (fresh t)
      · exact owned.only t t' v old old'

theorem Sound.pop (sound : p.Sound) {rest : List Nat} (front : p.threads = w :: rest) :
    Sound { p with threads := rest, taken := Function.update p.taken s (w :: p.taken s) } where
  thread := sound.thread
  owned := Owned.pop (front ▸ sound.owned)
  submits t v next at' := by
    obtain ⟨member, written⟩ := sound.submits t v next at'
    exact ⟨mem_pop.mpr (.inr member), written⟩
  idle := sound.idle
  woken := sound.woken

/-! ## Submissions -/

/-- A write of `submit` to a popped thread, whose other readers see nothing of it. -/
theorem Sound.write (sound : p.Sound) {next next' : SubmitPc} (at' : p.shard s = .submitting w next)
    {wt' : WorkThread} (fields : wt'.Sound) (busy : wt'.Busy → (p.thread w).Busy)
    (written : next'.Written s wt') (checks : ∀ t, (p.thread w).Checks t → wt'.Checks t) :
    ((p.setThread w wt').setShard s (.submitting w next')).Sound where
  thread := thread_setThread sound fields
  owned := sound.owned.setThread fun free again => free (busy again)
  submits t v other at'' := by
    have popped := (sound.submits s w next at').1
    simp only [ThreadPool.setShard, Function.update_apply] at at''
    split at at''
    case isTrue same =>
      cases at''
      subst same
      refine ⟨popped, ?_⟩
      simpa [ThreadPool.setShard, ThreadPool.setThread] using written
    case isFalse other' =>
      obtain ⟨member, old⟩ := sound.submits t v other at''
      have apart : v ≠ w := fun same => other' (sound.owned.only t s w (same ▸ member) popped)
      refine ⟨member, ?_⟩
      simpa [ThreadPool.setShard, ThreadPool.setThread, Function.update_of_ne apart] using old
  idle t entered := by
    simp only [ThreadPool.setShard, Function.update_apply] at entered
    split at entered
    case isTrue => exact entered.elim
    case isFalse => exact sound.idle t entered
  woken t asleep item := by
    simp only [ThreadPool.setShard, Function.update_apply] at asleep
    split at asleep
    case isTrue => cases asleep
    case isFalse =>
      exact (sound.woken t asleep item).imp_right (checks_setThread (checks t))

theorem Sound.writeEmployer (sound : p.Sound) (at' : p.shard s = .submitting w .writeEmployer)
    (spares : (p.thread w).pc.readsEmployer → (p.thread w).employer = some s) :
    ((p.setThread w { p.thread w with employer := some s }).setShard s
      (.submitting w .writeEmployerShard)).Sound := by
  have free := sound.owned.popped s w (sound.submits s w _ at').1
  have thread := sound.thread w
  refine sound.write at' ⟨fun signalled => absurd (.inl signalled) free, ?_⟩ id rfl ?_
  · have fields := thread.fields
    split at fields <;> simp_all [WorkThread.Busy, WorkerPc.readsEmployer]
  · intro t checks
    rcases checks with again | checks
    · exact .inl again
    · refine .inr ?_
      split at checks <;> simp_all [WorkerPc.readsEmployer]

theorem Sound.writeEmployerShard (sound : p.Sound)
    (at' : p.shard s = .submitting w .writeEmployerShard)
    (spares : (p.thread w).pc.readsEmployerShard → (p.thread w).employerShard = s) :
    ((p.setThread w { p.thread w with employerShard := s }).setShard s
      (.submitting w .create)).Sound := by
  obtain ⟨popped, employer⟩ := sound.submits s w _ at'
  have free := sound.owned.popped s w popped
  have thread := sound.thread w
  refine sound.write at' ⟨fun signalled => absurd (.inl signalled) free, ?_⟩ id ⟨employer, rfl⟩ ?_
  · have fields := thread.fields
    split at fields <;> simp_all [WorkThread.Busy, WorkerPc.readsEmployerShard]
  · intro t checks
    rcases checks with ⟨again, -⟩ | checks
    · exact absurd (.inl again) free
    · refine .inr ?_
      split at checks <;> simp_all [WorkThread.Busy, WorkerPc.readsEmployerShard]

theorem Sound.reset (sound : p.Sound) {wi : WorkItem}
    (at' : p.shard s = .submitting w (.reset wi)) :
    ((p.setThread w { p.thread w with workItem := some wi }).setShard s
      (.submitting w .signal)).Sound := by
  obtain ⟨popped, employer, shard, item⟩ := sound.submits s w _ at'
  have free := sound.owned.popped s w popped
  have fields := (sound.thread w).fields
  refine sound.write at' ⟨fun signalled => absurd (.inl signalled) free, ?_⟩ id
    ⟨employer, shard, item ▸ rfl⟩ (fun t checks => checks)
  split at fields <;> simp_all [WorkThread.Busy]

theorem Owned.signal {threads : List Nat} {taken : Nat → List Nat} {thread : Nat → WorkThread}
    (owned : Owned threads taken thread) (popped : w ∈ taken s) (wt' : WorkThread) :
    Owned threads (Function.update taken s ((taken s).erase w)) (Function.update thread w wt') := by
  -- the thread that is signalled is in no place any more
  have left : ∀ t v, v ∈ Function.update taken s ((taken s).erase w) t → v ∈ taken t ∧ v ≠ w := by
    intro t v member
    rw [Function.update_apply] at member
    split at member
    case isTrue same =>
      obtain ⟨other, old⟩ := (owned.once s).mem_erase_iff.mp member
      exact ⟨same ▸ old, other⟩
    case isFalse other =>
      exact ⟨member, fun same => other (owned.only t s w (same ▸ member) popped)⟩
  refine ⟨?_, ?_, owned.nodup, ?_, ?_, ?_⟩
  · intro v member
    have other : v ≠ w := fun same => owned.apart s w popped (same ▸ member)
    rw [Function.update_of_ne other]
    exact owned.pooled v member
  · intro t v member
    obtain ⟨old, other⟩ := left t v member
    rw [Function.update_of_ne other]
    exact owned.popped t v old
  · intro t
    rw [Function.update_apply]
    split
    case isTrue => exact (owned.once s).erase w
    case isFalse => exact owned.once t
  · exact fun t v member => owned.apart t v (left t v member).1
  · exact fun t t' v member member' => owned.only t t' v (left t v member).1 (left t' v member').1

theorem Sound.signal (sound : p.Sound) (at' : p.shard s = .submitting w .signal) :
    (p.submit s w .signal).Sound := by
  obtain ⟨popped, employer, shard, item⟩ := sound.submits s w _ at'
  have free := sound.owned.popped s w popped
  have thread := sound.thread w
  refine ⟨thread_setThread sound ⟨fun _ => ⟨?_, ?_, ?_⟩, thread.fields⟩,
    sound.owned.signal popped _, ?_, ?_, ?_⟩
  · exact shard ▸ item
  · exact shard ▸ employer
  · have idle := free
    simp only [WorkThread.Busy, not_or] at idle
    exact (by split <;> simp_all)
  · intro t v next at''
    simp only [ThreadPool.submit, ThreadPool.setShard, Function.update_apply] at at''
    split at at''
    case isTrue => cases at''
    case isFalse other =>
      obtain ⟨member, written⟩ := sound.submits t v next at''
      have apart : v ≠ w := fun same => other (sound.owned.only t s w (same ▸ member) popped)
      simp only [ThreadPool.submit, ThreadPool.setShard, ThreadPool.setThread,
        Function.update_of_ne other, Function.update_of_ne apart]
      exact ⟨member, written⟩
  · exact (sound.setRunning (s := s)).idle
  · intro t asleep queued
    refine ((sound.setRunning (s := s)).woken t asleep queued).imp_right (checks_setThread ?_)
    intro checks
    rcases checks with ⟨again, -⟩ | checks
    · exact absurd (.inl again) free
    · exact .inr checks

theorem Sound.submit (sound : p.Sound) {next : SubmitPc} (at' : p.shard s = .submitting w next)
    (spares : next.Spares s (p.thread w)) : (p.submit s w next).Sound := by
  cases next with
  | writeEmployer => exact sound.writeEmployer at' spares
  | writeEmployerShard => exact sound.writeEmployerShard at' spares
  | create =>
    obtain ⟨popped, employer, shard⟩ := sound.submits s w _ at'
    refine sound.setShard (fun v next again => ?_) (fun entered => entered.elim)
      (fun asleep => nomatch asleep)
    cases again
    exact ⟨popped, employer, shard, shard⟩
  | reset wi => exact sound.reset at'
  | signal => exact sound.signal at'

/-! ## Polls -/

theorem Sound.pollQueues (sound : p.Sound) {entering consumed : Bool}
    (at' : p.shard s = .polling entering consumed) : (p.pollQueues s entering consumed).Sound := by
  have idle : entering = true → p.reactorsIdle s = true := by
    intro entered
    exact sound.idle s (by rw [at', entered]; trivial)
  unfold ThreadPool.pollQueues
  split
  case h_1 rest queue =>
    have polled : (p.setShard s (.polling entering true)).Sound := by
      refine sound.setShard (fun v next again => nomatch again) (fun entered => idle ?_)
        (fun asleep => nomatch asleep)
      cases entering with
      | true => rfl
      | false => exact entered.elim
    refine { polled with woken := fun t asleep item => ?_ }
    have other : t ≠ s := by
      rintro rfl
      simp [ThreadPool.setShard] at asleep
    have queued : p.completed t ≠ [] := by simpa only [Function.update_of_ne other] using item
    exact polled.woken t asleep queued
  case h_2 empty =>
    split
    case isTrue entered =>
      split
      case isTrue =>
        exact sound.setShard (fun v next again => nomatch again) (fun _ => idle entered)
          (fun asleep => nomatch asleep)
      case isFalse =>
        have slept : (p.setShard s .asleep).Sound :=
          sound.setShard (fun v next again => nomatch again) (fun _ => idle entered)
            (fun _ => empty)
        refine { slept with woken := fun t asleep queued => ?_ }
        have other : t ≠ s := fun same => queued (same ▸ empty)
        simp only [Function.update_of_ne other]
        exact slept.woken t asleep queued
    case isFalse => exact sound.setRunning

theorem Sound.stepShard (sound : p.Sound) {action : Action}
    (spares : action = .next → p.SparesNext s (p.shard s))
    (taken : p.stepShard s action = some q) : q.Sound := by
  cases action with
  | pop =>
    simp only [ThreadPool.stepShard] at taken
    split at taken
    case isTrue =>
      split at taken
      case h_1 front => exact Option.some.inj taken ▸ sound.pop front
      case h_2 => exact Option.some.inj taken ▸ sound
    case isFalse => cases taken
  | submit w =>
    simp only [ThreadPool.stepShard] at taken
    split at taken
    case isTrue able =>
      obtain rfl := Option.some.inj taken
      refine sound.setShard (fun v next again => ?_) (fun entered => entered.elim)
        (fun asleep => nomatch asleep)
      cases again
      exact ⟨able.2, trivial⟩
    case isFalse => cases taken
  | poll =>
    simp only [ThreadPool.stepShard] at taken
    split at taken
    case isTrue =>
      exact Option.some.inj taken ▸ sound.setShard (fun v next again => nomatch again)
        (fun entered => entered.elim) (fun asleep => nomatch asleep)
    case isFalse => cases taken
  | tryEnterInterruptMode =>
    simp only [ThreadPool.stepShard] at taken
    split at taken
    case isTrue =>
      refine Option.some.inj taken ▸ (sound.setIdle fun _ => rfl).setShard
        (fun v next again => nomatch again) (fun _ => ?_) (fun asleep => nomatch asleep)
      simp [ThreadPool.setIdle]
    case isFalse => cases taken
  | next =>
    specialize spares rfl
    simp only [ThreadPool.stepShard] at taken
    -- the flag is cleared when the shard runs again
    have leave : ((p.setShard s .running).setIdle s false).Sound := by
      refine sound.setRunning.setIdle fun entered => ?_
      simp [ThreadPool.setShard, ShardPc.Entered] at entered
    split at taken
    case h_1 => cases taken
    case h_2 w next at' =>
      rw [at'] at spares
      exact Option.some.inj taken ▸ sound.submit at' spares
    case h_3 at' => exact Option.some.inj taken ▸ sound.pollQueues at'
    case h_4 => exact Option.some.inj taken ▸ leave
    case h_5 => exact Option.some.inj taken ▸ leave

theorem Sound.step (sound : p.Sound) {label : Label} (spares : p.Spares label)
    (taken : p.step label = some q) : q.Sound := by
  cases label with
  | shard s action =>
    simp only [ThreadPool.step] at taken
    split at taken
    case isTrue =>
      refine sound.stepShard (fun again => ?_) taken
      subst again
      exact spares
    case isFalse => cases taken
  | worker w => exact sound.stepWorker taken

/-! ## Runs -/

/-- In every run that changes no field of a thread that has still to read it, a completed item
finds its shard awake, woken up, or about to be checked by a thread. -/
theorem no_lostWakeup_of_spares {localShardCount workerNum : Nat} {labels : List Label}
    (spares : StepsMeet step Spares (init localShardCount workerNum) labels)
    (ran : run step (init localShardCount workerNum) labels = some p) (s : Nat) :
    ¬p.LostWakeup s := by
  have sound : p.Sound :=
    run_invariant_of_meets Sound (fun _ _ _ sound spares taken => sound.step spares taken)
      labels _ _
      (sound_init localShardCount workerNum) spares ran
  exact sound.not_lostWakeup s

/-- Shard 0 submits an item to thread 0 and falls asleep, and the thread completes it. -/
def completedAsleep : List Label :=
  [.shard 0 .pop, .shard 0 (.submit 0)] ++ List.replicate 5 (.shard 0 .next) ++
    [.shard 0 .tryEnterInterruptMode, .shard 0 .next] ++ List.replicate 4 (.worker 0)

theorem no_lostWakeup_completedAsleep :
    ∃ p, run step (init 2 1) (completedAsleep ++ [.worker 0, .worker 0]) = some p ∧
      p.shard 0 = .asleep ∧ p.completed 0 ≠ [] ∧ ¬p.LostWakeup 0 := by
  have ran : (run step (init 2 1) (completedAsleep ++ [.worker 0, .worker 0])).isSome := by
    decide +kernel
  obtain ⟨p, ran⟩ := Option.isSome_iff_exists.mp ran
  have state : (run step (init 2 1) (completedAsleep ++ [.worker 0, .worker 0])).map
      (fun p => (p.shard 0, p.completed 0)) = some (.asleep, [⟨0⟩]) := by decide +kernel
  rw [ran, Option.map_some, Option.some.injEq, Prod.mk.injEq] at state
  refine ⟨p, ran, state.1, by simp [state.2], ?_⟩
  exact no_lostWakeup_of_spares (by decide +kernel) ran 0

/-- Shard 1 takes the thread when it is back in the pool, and the thread checks the flag of shard 1
although it has completed an item of shard 0. -/
theorem lostWakeup_of_reused_thread :
    ∃ labels p, run step (init 2 1) labels = some p ∧ p.LostWakeup 0 := by
  let labels : List Label := completedAsleep ++ [.shard 1 .pop, .shard 1 (.submit 0)] ++
    List.replicate 5 (.shard 1 .next) ++ [.worker 0, .worker 0]
  have ran : (run step (init 2 1) labels).isSome := by decide +kernel
  refine ⟨labels, (run step (init 2 1) labels).get ran, (Option.some_get ran).symm, ?_⟩
  have item : ((run step (init 2 1) labels).get ran).completed 0 = [⟨0⟩] := rfl
  refine ⟨rfl, by simp [item], fun w => ?_, rfl⟩
  have thread : ((run step (init 2 1) labels).get ran).thread w =
      if w = 0 then ⟨.waiting, some ⟨1⟩, 1, some 1, 1⟩ else {} := by
    cases w with
    | zero => rfl
    | succ n => rfl
  rw [thread]
  split
  case isTrue => simp [WorkThread.Checks]
  case isFalse => simp [WorkThread.Checks]

end ThreadPool

end Hiactor
