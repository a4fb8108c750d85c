import Hiactor.Core.Request
import Mathlib.Data.List.Induction
import Mathlib.Data.List.Perm.Basic

/-!
# Response correlation and the life cycle of promise slots

The two properties of `Hiactor.Core.Request` share one invariant for each shard, `ShardOk`:
every active slot belongs to one request that is not finished, and the free list is sound.
It survives every step except a `stop_actor_system` that finds an active slot. That stop
releases the slot although the continuation will release it again, which closes the free
list into a cycle, and it lets the slot be reused while the answer is still in flight.
-/

namespace Hiactor.Cluster

open Lib

/-- The requests that are being served or whose answer is in flight. -/
def unanswered (s : Cluster) : List Nat := s.asked ++ s.answers.map (·.request)

/-- Each request has at most one message under way, an answer carries the address that its
request was given, and nothing refers to a request that was never issued. -/
structure Tagged (s : Cluster) : Prop where
  nodup : s.unanswered.Nodup
  issued : ∀ w ∈ s.unanswered, w < s.requests.length
  header : ∀ a ∈ s.answers, ∃ r : Request, s.requests[a.request]? = some r ∧ r.shard = a.shard ∧
    r.prId = a.prId
  waiters : ∀ shard id w, ((s.managers shard).promise id).waiter = some w →
    w < s.requests.length
  resolutions : ∀ r ∈ s.resolutions, ∀ w, r.waiter = some w → w < s.requests.length
  releases : ∀ w ∈ s.releases, w < s.requests.length

/-- The invariant of one shard. -/
structure ShardOk (s : Cluster) (shard : Nat) : Prop where
  free : ∃ free, (s.managers shard).FreeList free
  holder : ∀ id, (s.managers shard).isActive id = true → ∃ (w : Nat) (r : Request),
    ((s.managers shard).promise id).waiter = some w ∧ s.requests[w]? = some r ∧
    r.shard = shard ∧ r.prId = id ∧ r.finished = false
  slot : ∀ (w : Nat) (r : Request), s.requests[w]? = some r → r.shard = shard → r.finished = false →
    (s.managers shard).isActive r.prId = true ∧
    (s.managers shard).promise r.prId = { waiter := some w, resolved := r.ready }
  idle : ∀ id, (s.managers shard).isActive id = false →
    ((s.managers shard).promise id).abandoned = none
  waiting : ∀ w ∈ s.unanswered, ∀ r : Request, s.requests[w]? = some r → r.shard = shard →
    r.ready = false
  finished : ∀ (w : Nat) (r : Request), s.requests[w]? = some r → r.shard = shard →
    r.finished = true →
    r.ready = true
  resolved : ∀ (w : Nat) (r : Request), s.requests[w]? = some r → r.shard = shard →
    s.resolutions.countP (·.waiter = some w) = if r.ready then 1 else 0
  released : ∀ (w : Nat) (r : Request), s.requests[w]? = some r → r.shard = shard →
    s.releases.count w = if r.finished then 1 else 0

/-- Requests that are not finished hold different slots. -/
theorem ShardOk.eq_of_prId {s : Cluster} {shard v w : Nat} {q r : Request}
    (valid : s.ShardOk shard) (foundV : s.requests[v]? = some q) (foundW : s.requests[w]? = some r)
    (shardV : q.shard = shard) (shardW : r.shard = shard) (openV : q.finished = false)
    (openW : r.finished = false) (same : q.prId = r.prId) : v = w := by
  have promiseV := (valid.slot v q foundV shardV openV).2
  have promiseW := (valid.slot w r foundW shardW openW).2
  rw [same, promiseW] at promiseV
  exact (Option.some.inj (congrArg Promise.waiter promiseV)).symm

theorem ShardOk.slotsOk {s : Cluster} {shard : Nat} (valid : s.ShardOk shard) :
    s.SlotsOk shard where
  distinct _ _ _ _ foundV foundW := valid.eq_of_prId foundV foundW
  resolvedOnce := by
    intro w r found owner
    rw [valid.resolved w r found owner]
    split <;> omega
  releasedOnce := valid.released
  freeList := by
    obtain ⟨free, list⟩ := valid.free
    exact ⟨free, list.chain, list.nodup, fun id member => ((list.inactive id).mp member).2.2⟩

/-! ## Shards that a step does not touch -/

/-- Nothing that concerns `shard` differs between `s` and `s'`. -/
structure Untouched (shard : Nat) (s s' : Cluster) : Prop where
  manager : s'.managers shard = s.managers shard
  request : ∀ (w : Nat) (r : Request), r.shard = shard →
    (s'.requests[w]? = some r ↔ s.requests[w]? = some r)
  unanswered : ∀ (w : Nat) (r : Request), s.requests[w]? = some r → r.shard = shard →
    w ∈ s'.unanswered → w ∈ s.unanswered
  resolutions : ∀ (w : Nat) (r : Request), s.requests[w]? = some r → r.shard = shard →
    s'.resolutions.countP (·.waiter = some w) = s.resolutions.countP (·.waiter = some w)
  releases : ∀ (w : Nat) (r : Request), s.requests[w]? = some r → r.shard = shard →
    s'.releases.count w = s.releases.count w

theorem Untouched.trans {shard : Nat} {s t u : Cluster} (first : Untouched shard s t)
    (second : Untouched shard t u) : Untouched shard s u where
  manager := second.manager.trans first.manager
  request := fun w r owner => (second.request w r owner).trans (first.request w r owner)
  unanswered := fun w r found owner member => first.unanswered w r found owner
    (second.unanswered w r ((first.request w r owner).mpr found) owner member)
  resolutions := fun w r found owner =>
    (second.resolutions w r ((first.request w r owner).mpr found) owner).trans
      (first.resolutions w r found owner)
  releases := fun w r found owner =>
    (second.releases w r ((first.request w r owner).mpr found) owner).trans
      (first.releases w r found owner)

theorem ShardOk.untouched {shard : Nat} {s s' : Cluster} (valid : s.ShardOk shard)
    (frame : Untouched shard s s') : s'.ShardOk shard where
  free := by rw [frame.manager]; exact valid.free
  holder := by
    intro id active
    rw [frame.manager] at active ⊢
    obtain ⟨w, r, waiter, found, owner, rest⟩ := valid.holder id active
    exact ⟨w, r, waiter, (frame.request w r owner).mpr found, owner, rest⟩
  slot := by
    intro w r found owner unfinished
    rw [frame.manager]
    exact valid.slot w r ((frame.request w r owner).mp found) owner unfinished
  idle := by rw [frame.manager]; exact valid.idle
  waiting := by
    intro w member r found owner
    have before := (frame.request w r owner).mp found
    exact valid.waiting w (frame.unanswered w r before owner member) r before owner
  finished := fun w r found owner => valid.finished w r ((frame.request w r owner).mp found) owner
  resolved := by
    intro w r found owner
    have before := (frame.request w r owner).mp found
    rw [frame.resolutions w r before owner]
    exact valid.resolved w r before owner
  released := by
    intro w r found owner
    have before := (frame.request w r owner).mp found
    rw [frame.releases w r before owner]
    exact valid.released w r before owner

/-- An update of requests that belong to another shard is not seen by `shard`. -/
theorem getElem?_modify_shard {requests : List Request} {v w shard : Nat} {q r : Request}
    {f : Request → Request} (kept : ∀ r, (f r).shard = r.shard)
    (found : requests[v]? = some q) (other : q.shard ≠ shard) (owner : r.shard = shard) :
    (requests.modify v f)[w]? = some r ↔ requests[w]? = some r := by
  rw [List.getElem?_modify]
  by_cases same : v = w
  · subst same
    have mismatch : q ≠ r := fun equal => other (equal ▸ owner)
    have mismatch' : f q ≠ r := fun equal => other (by rw [← kept q, equal, owner])
    simp [found, mismatch, mismatch']
  · simp [same]

theorem ne_of_shard {requests : List Request} {v w shard : Nat} {q r : Request}
    (foundV : requests[v]? = some q) (other : q.shard ≠ shard)
    (foundW : requests[w]? = some r) (owner : r.shard = shard) : v ≠ w := by
  rintro rfl
  rw [foundV] at foundW
  exact other (Option.some.inj foundW ▸ owner)

/-! ## Resolving a slot -/

@[simp] theorem managers_setManager_self (s : Cluster) (shard : Nat) (m : PrManager) :
    (s.setManager shard m).managers shard = m := by
  simp [setManager]

@[simp] theorem managers_setManager_ne {s : Cluster} {shard other : Nat} {m : PrManager}
    (different : other ≠ shard) :
    (s.setManager shard m).managers other = s.managers other := by
  simp [setManager, different]

@[simp] theorem answers_setManager (s : Cluster) (shard : Nat) (m : PrManager) :
    (s.setManager shard m).answers = s.answers := rfl

@[simp] theorem releases_setManager (s : Cluster) (shard : Nat) (m : PrManager) :
    (s.setManager shard m).releases = s.releases := rfl

/-- The slot `id` of `shard` is held by the request `w`, which waits on it. -/
structure HeldBy (s : Cluster) (shard id w : Nat) (r : Request) : Prop where
  promise : (s.managers shard).promise id = { waiter := some w, resolved := r.ready }
  found : s.requests[w]? = some r
  owner : r.shard = shard
  prId : r.prId = id
  unfinished : r.finished = false
  active : (s.managers shard).isActive id = true

theorem ShardOk.heldBy {s : Cluster} {shard id : Nat} (valid : s.ShardOk shard)
    (active : (s.managers shard).isActive id = true) : ∃ w r, HeldBy s shard id w r := by
  obtain ⟨w, r, -, found, owner, rfl, unfinished⟩ := valid.holder id active
  exact ⟨w, r, (valid.slot w r found owner unfinished).2, found, owner, rfl, unfinished, active⟩

/-- Resolving the promise of a request that still waits makes that request ready. -/
theorem getElem?_resolveSlot {s : Cluster} {shard id w : Nat} {r : Request} {cause : Cause}
    (held : HeldBy s shard id w r) (v : Nat) :
    (s.resolveSlot shard id cause).requests[v]? =
      if v = w then some { r with ready := true } else s.requests[v]? := by
  simp only [resolveSlot, held.promise]
  by_cases same : v = w
  · subst same
    cases ready : r.ready with
    | true => simp [held.found, ← ready]
    | false => simp [markReady, held.found]
  · cases ready : r.ready with
    | true => simp [same]
    | false => simp [same, markReady, Ne.symm same]

theorem untouched_resolveSlot {s : Cluster} {shard other id w : Nat} {r : Request}
    {cause : Cause} (held : HeldBy s shard id w r) (different : other ≠ shard) :
    Untouched other s (s.resolveSlot shard id cause) where
  manager := managers_setManager_ne different
  request := by
    intro v q owner
    rw [getElem?_resolveSlot held]
    by_cases same : v = w
    · subst same
      have mismatch : r ≠ q := fun equal => different (by rw [← owner, ← equal, held.owner])
      have mismatch' : { r with ready := true } ≠ q :=
        fun equal => different (by rw [← owner, ← equal, ← held.owner])
      simp [held.found, mismatch, mismatch']
    · simp [same]
  unanswered := fun _ _ _ _ member => member
  resolutions := by
    intro v q found owner
    have distinct : w ≠ v :=
      ne_of_shard held.found (held.owner ▸ Ne.symm different) found owner
    simp [resolveSlot, held.promise, List.countP_append, distinct]
  releases := fun _ _ _ _ => rfl

/-- A response resolves the promise of its own request: the invariant is kept. -/
theorem ShardOk.resolveSlot {s : Cluster} {shard id w : Nat} {r : Request} {cause : Cause}
    (valid : s.ShardOk shard) (held : HeldBy s shard id w r) (waits : r.ready = false)
    (answered : w ∉ s.unanswered) : (s.resolveSlot shard id cause).ShardOk shard := by
  have requests := @getElem?_resolveSlot s shard id w r cause held
  have manager : (s.resolveSlot shard id cause).managers shard =
      (s.managers shard).resolve id := managers_setManager_self _ _ _
  have inside := PrManager.isActive_lt held.active
  constructor
  case free =>
    obtain ⟨free, list⟩ := valid.free
    exact ⟨free, manager ▸ list.resolve id⟩
  case holder =>
    intro j active
    rw [manager, PrManager.isActive_resolve] at active
    obtain ⟨v, q, at_j⟩ := valid.heldBy active
    rw [manager]
    by_cases same : id = j
    · subst same
      obtain rfl : w = v := valid.eq_of_prId held.found at_j.found held.owner at_j.owner
        held.unfinished at_j.unfinished (held.prId.trans at_j.prId.symm)
      refine ⟨w, { r with ready := true }, ?_, by simp [requests], held.owner, held.prId,
        held.unfinished⟩
      rw [PrManager.promise_resolve_self inside, held.promise]
    · rw [PrManager.promise_resolve_ne same]
      have distinct : v ≠ w := by
        rintro rfl
        have := held.found.symm.trans at_j.found
        exact same (by rw [← held.prId, ← at_j.prId, Option.some.inj this])
      exact ⟨v, q, by rw [at_j.promise], by simp [requests, distinct, at_j.found], at_j.owner,
        at_j.prId, at_j.unfinished⟩
  case slot =>
    intro v q found owner unfinished
    rw [manager, PrManager.isActive_resolve]
    rw [requests] at found
    by_cases same : v = w
    · subst same
      rw [if_pos rfl] at found
      obtain rfl := Option.some.inj found
      refine ⟨held.prId ▸ held.active, ?_⟩
      rw [held.prId, PrManager.promise_resolve_self inside, held.promise]
    · rw [if_neg same] at found
      obtain ⟨active, promise⟩ := valid.slot v q found owner unfinished
      refine ⟨active, ?_⟩
      rw [PrManager.promise_resolve_ne, promise]
      intro equal
      exact same (valid.eq_of_prId found held.found owner held.owner unfinished held.unfinished
        (equal.symm.trans held.prId.symm))
  case idle =>
    intro j inactive
    rw [manager, PrManager.isActive_resolve] at inactive
    have distinct : id ≠ j := by
      rintro rfl
      rw [held.active] at inactive
      cases inactive
    rw [manager, PrManager.promise_resolve_ne distinct]
    exact valid.idle j inactive
  case waiting =>
    intro v member q found owner
    rw [requests] at found
    by_cases same : v = w
    · exact absurd (same ▸ member) answered
    · rw [if_neg same] at found
      exact valid.waiting v member q found owner
  case finished =>
    intro v q found owner finished
    rw [requests] at found
    by_cases same : v = w
    · rw [if_pos same] at found
      rw [← Option.some.inj found]
    · rw [if_neg same] at found
      exact valid.finished v q found owner finished
  case resolved =>
    intro v q found owner
    rw [requests] at found
    have count : (s.resolveSlot shard id cause).resolutions.countP (·.waiter = some v) =
        s.resolutions.countP (·.waiter = some v) + if w = v then 1 else 0 := by
      simp [Cluster.resolveSlot, held.promise, List.countP_append, List.countP_singleton]
    rw [count]
    by_cases same : v = w
    · subst same
      rw [if_pos rfl] at found
      rw [valid.resolved v r held.found held.owner, ← Option.some.inj found]
      simp [waits]
    · rw [if_neg same] at found
      rw [if_neg (Ne.symm same)]
      exact valid.resolved v q found owner
  case released =>
    intro v q found owner
    rw [requests] at found
    by_cases same : v = w
    · subst same
      rw [if_pos rfl] at found
      rw [← Option.some.inj found]
      exact valid.released v r held.found held.owner
    · rw [if_neg same] at found
      exact valid.released v q found owner

/-! ## The continuation releases the slot -/

/-- What the continuation of `w` does, whatever the state of its shard. -/
theorem continuation_eq_some {s s' : Cluster} {w : Nat} (taken : s.continuation w = some s') :
    ∃ r, s.requests[w]? = some r ∧ r.ready = true ∧ r.finished = false ∧
      s' = { s.setManager r.shard ((s.managers r.shard).removePr r.prId) with
        requests := s.requests.modify w (fun r => { r with finished := true })
        releases := s.releases ++ [w] } := by
  unfold continuation at taken
  cases found : s.requests[w]? with
  | none => simp [found] at taken
  | some r =>
    simp only [found] at taken
    split at taken
    · rename_i enabled
      simp only [Bool.and_eq_true, Bool.not_eq_true'] at enabled
      exact ⟨r, rfl, enabled.1, enabled.2, (Option.some.inj taken).symm⟩
    · cases taken

theorem untouched_continuation {s s' : Cluster} {w other : Nat} {r : Request}
    (taken : s.continuation w = some s') (found : s.requests[w]? = some r)
    (different : other ≠ r.shard) : Untouched other s s' := by
  obtain ⟨q, found', -, -, rfl⟩ := continuation_eq_some taken
  obtain rfl := Option.some.inj (found.symm.trans found')
  refine ⟨managers_setManager_ne different, ?_, fun _ _ _ _ member => member,
    fun _ _ _ _ => rfl, ?_⟩
  · intro v q owner
    exact getElem?_modify_shard (fun _ => rfl) found (Ne.symm different) owner
  · intro v q found' owner
    have distinct := ne_of_shard found (Ne.symm different) found' owner
    simp [List.count_append, distinct]

theorem ShardOk.continuation {s s' : Cluster} {w : Nat} {r : Request}
    (valid : s.ShardOk r.shard) (found : s.requests[w]? = some r)
    (taken : s.continuation w = some s') : s'.ShardOk r.shard := by
  obtain ⟨q, found', ready, unfinished, rfl⟩ := continuation_eq_some taken
  obtain rfl := Option.some.inj (found.symm.trans found')
  obtain ⟨active, promise⟩ := valid.slot w r found rfl unfinished
  have requests : ∀ v : Nat, (s.requests.modify w (fun r => { r with finished := true }))[v]? =
      if v = w then some { r with finished := true } else s.requests[v]? := by
    intro v
    rw [List.getElem?_modify]
    by_cases same : v = w
    · subst same; simp [found]
    · simp [same, Ne.symm same]
  constructor <;> simp only [managers_setManager_self]
  case free =>
    obtain ⟨free, list⟩ := valid.free
    exact ⟨_, list.removePr active⟩
  case holder =>
    intro j activeJ
    rw [PrManager.isActive_removePr] at activeJ
    split at activeJ
    · cases activeJ
    · rename_i different
      obtain ⟨v, q, waiter, foundV, owner, prId, unfinishedV⟩ := valid.holder j activeJ
      have distinct : v ≠ w := by
        rintro rfl
        rw [found] at foundV
        exact different (by rw [Option.some.inj foundV, prId])
      rw [PrManager.promise_removePr]
      exact ⟨v, q, waiter, by rw [requests, if_neg distinct]; exact foundV, owner, prId,
        unfinishedV⟩
  case slot =>
    intro v q foundV owner unfinishedV
    rw [requests] at foundV
    by_cases same : v = w
    · rw [if_pos same] at foundV
      rw [← Option.some.inj foundV] at unfinishedV
      cases unfinishedV
    · rw [if_neg same] at foundV
      obtain ⟨activeV, promiseV⟩ := valid.slot v q foundV owner unfinishedV
      have slot_ne : r.prId ≠ q.prId := fun equal =>
        same (valid.eq_of_prId foundV found owner rfl unfinishedV unfinished equal.symm)
      rw [PrManager.isActive_removePr, PrManager.promise_removePr, if_neg slot_ne]
      exact ⟨activeV, promiseV⟩
  case idle =>
    intro j inactive
    rw [PrManager.isActive_removePr] at inactive
    rw [PrManager.promise_removePr]
    split at inactive
    · rename_i same
      rw [← same, promise]
      simp [Promise.abandoned, ready]
    · exact valid.idle j inactive
  case waiting =>
    intro v member q foundV owner
    rw [requests] at foundV
    by_cases same : v = w
    · subst same
      have unready := valid.waiting v member r found rfl
      rw [ready] at unready
      cases unready
    · rw [if_neg same] at foundV
      exact valid.waiting v member q foundV owner
  case finished =>
    intro v q foundV owner finished
    rw [requests] at foundV
    by_cases same : v = w
    · rw [if_pos same] at foundV
      rw [← Option.some.inj foundV]
      exact ready
    · rw [if_neg same] at foundV
      exact valid.finished v q foundV owner finished
  case resolved =>
    intro v q foundV owner
    rw [requests] at foundV
    by_cases same : v = w
    · subst same
      rw [if_pos rfl] at foundV
      rw [← Option.some.inj foundV]
      exact valid.resolved v r found rfl
    · rw [if_neg same] at foundV
      exact valid.resolved v q foundV owner
  case released =>
    intro v q foundV owner
    rw [requests] at foundV
    by_cases same : v = w
    · subst same
      rw [if_pos rfl] at foundV
      rw [List.count_append, valid.released v r found rfl, ← Option.some.inj foundV]
      simp [unfinished]
    · rw [if_neg same] at foundV
      rw [List.count_append, valid.released v q foundV owner]
      simp [Ne.symm same]

/-! ## A new request -/

/-- In a sound shard `acquire_pr` destroys no promise that someone waits on. -/
theorem ShardOk.broken_eq_none {s : Cluster} {shard : Nat} (valid : s.ShardOk shard) :
    broken (s.managers shard) = none := by
  unfold broken
  split
  · rfl
  · rename_i nonempty
    obtain ⟨free, list⟩ := valid.free
    apply valid.idle
    cases free with
    | nil => exact absurd list.chain nonempty
    | cons id free =>
      rw [list.chain.1]
      exact ((list.inactive id).mp (by simp)).2.2

theorem request_eq {s : Cluster} {shard id : Nat} {m : PrManager} (valid : s.ShardOk shard)
    (acquired : (s.managers shard).acquirePr = (m, id)) :
    s.request shard = { s.setManager shard (m.getFuture id s.requests.length) with
      requests := s.requests ++ [{ shard := shard, prId := id }]
      asked := s.asked ++ [s.requests.length] } := by
  simp only [request, acquired, valid.broken_eq_none, markReady]

/-- A request that is already there is not affected by a new one. -/
theorem getElem?_new_request {requests : List Request} {new : Request} {w : Nat} {r : Request}
    (found : (requests ++ [new])[w]? = some r) :
    requests[w]? = some r ∨ w = requests.length ∧ r = new := by
  rcases Nat.lt_trichotomy w requests.length with below | equal | above
  · rw [List.getElem?_append_left below] at found
    exact .inl found
  · subst equal
    simp only [List.getElem?_concat_length, Option.some.injEq] at found
    exact .inr ⟨rfl, found.symm⟩
  · rw [List.getElem?_eq_none (by simp; omega)] at found
    cases found

theorem getElem?_new_of_old {requests : List Request} {new r : Request} {w : Nat}
    (found : requests[w]? = some r) : (requests ++ [new])[w]? = some r := by
  obtain ⟨below, -⟩ := List.getElem?_eq_some_iff.mp found
  rw [List.getElem?_append_left below]
  exact found

theorem lt_length_of_found {requests : List Request} {w : Nat} {r : Request}
    (found : requests[w]? = some r) : w < requests.length :=
  (List.getElem?_eq_some_iff.mp found).1

theorem ShardOk.request {s : Cluster} {shard : Nat} (valid : s.ShardOk shard)
    (tagged : s.Tagged) : (s.request shard).ShardOk shard := by
  obtain ⟨free, list⟩ := valid.free
  obtain ⟨m, id, free', acquired, spec⟩ := list.acquirePr
  rw [request_eq valid acquired]
  have slot_ne : ∀ (v : Nat) (q : Request), s.requests[v]? = some q → q.shard = shard →
      q.finished = false → id ≠ q.prId := by
    rintro v q found owner unfinished rfl
    have active := (valid.slot v q found owner unfinished).1
    rw [spec.inactive] at active
    cases active
  have unresolved : s.resolutions.countP (·.waiter = some s.requests.length) = 0 := by
    rw [List.countP_eq_zero]
    intro r member waits
    exact Nat.lt_irrefl _ (tagged.resolutions r member _ (by simpa using waits))
  have unreleased : s.releases.count s.requests.length = 0 := by
    rw [List.count_eq_zero]
    exact fun member => Nat.lt_irrefl _ (tagged.releases _ member)
  constructor <;> simp only [managers_setManager_self]
  case free =>
    exact ⟨free', spec.valid.getFuture id _⟩
  case holder =>
    intro j active
    rw [PrManager.isActive_getFuture, spec.active_eq] at active
    by_cases same : id = j
    · subst same
      refine ⟨s.requests.length, _, ?_, List.getElem?_concat_length, rfl, rfl, rfl⟩
      rw [PrManager.promise_getFuture_self _ spec.inside]
    · rw [if_neg same] at active
      obtain ⟨v, q, waiter, found, rest⟩ := valid.holder j active
      refine ⟨v, q, ?_, getElem?_new_of_old found, rest⟩
      rw [PrManager.promise_getFuture_ne _ same, spec.promise_eq j same]
      exact waiter
  case slot =>
    intro v q found owner unfinished
    rcases getElem?_new_request found with old | ⟨rfl, rfl⟩
    · obtain ⟨active, promise⟩ := valid.slot v q old owner unfinished
      have different := slot_ne v q old owner unfinished
      rw [PrManager.isActive_getFuture, spec.active_eq, if_neg different,
        PrManager.promise_getFuture_ne _ different, spec.promise_eq _ different]
      exact ⟨active, promise⟩
    · rw [PrManager.isActive_getFuture, spec.active_eq, if_pos rfl,
        PrManager.promise_getFuture_self _ spec.inside, spec.fresh]
      exact ⟨rfl, rfl⟩
  case idle =>
    intro j inactive
    rw [PrManager.isActive_getFuture, spec.active_eq] at inactive
    split at inactive
    · cases inactive
    · rename_i different
      rw [PrManager.promise_getFuture_ne _ different, spec.promise_eq j different]
      exact valid.idle j inactive
  case waiting =>
    intro v member q found owner
    rcases getElem?_new_request found with old | ⟨-, rfl⟩
    · refine valid.waiting v ?_ q old owner
      have distinct : v ≠ s.requests.length := Nat.ne_of_lt (lt_length_of_found old)
      simpa [unanswered, distinct] using member
    · rfl
  case finished =>
    intro v q found owner finished
    rcases getElem?_new_request found with old | ⟨-, rfl⟩
    · exact valid.finished v q old owner finished
    · cases finished
  case resolved =>
    intro v q found owner
    rcases getElem?_new_request found with old | ⟨rfl, rfl⟩
    · exact valid.resolved v q old owner
    · exact unresolved
  case released =>
    intro v q found owner
    rcases getElem?_new_request found with old | ⟨rfl, rfl⟩
    · exact valid.released v q old owner
    · exact unreleased

theorem untouched_request {s : Cluster} {shard other : Nat} (valid : s.ShardOk shard)
    (different : other ≠ shard) : Untouched other s (s.request shard) := by
  obtain ⟨free, list⟩ := valid.free
  obtain ⟨m, id, free', acquired, spec⟩ := list.acquirePr
  rw [request_eq valid acquired]
  refine ⟨managers_setManager_ne different, ?_, ?_, fun _ _ _ _ => rfl, fun _ _ _ _ => rfl⟩
  · intro w r owner
    refine ⟨fun found => ?_, getElem?_new_of_old⟩
    rcases getElem?_new_request found with old | ⟨-, rfl⟩
    · exact old
    · exact absurd owner.symm different
  · intro w r found _ member
    have distinct : w ≠ s.requests.length := Nat.ne_of_lt (lt_length_of_found found)
    simpa [unanswered, distinct] using member

/-! ## Answers -/

theorem answer_eq_some {s s' : Cluster} {i : Nat} {exception : Bool}
    (taken : s.answer i exception = some s') :
    ∃ w r, s.asked[i]? = some w ∧ s.requests[w]? = some r ∧
      s' = { s with
        asked := s.asked.eraseIdx i
        answers := s.answers ++
          [{ request := w, shard := r.shard, prId := r.prId, exception := exception }] } := by
  unfold answer at taken
  cases asked : s.asked[i]? with
  | none => simp [asked] at taken
  | some w =>
    cases found : s.requests[w]? with
    | none => simp [asked, found] at taken
    | some r =>
      simp only [asked, found] at taken
      exact ⟨w, r, rfl, found, (Option.some.inj taken).symm⟩

/-- Answering moves the request from the served ones to the answers in flight. -/
theorem unanswered_answer {s : Cluster} {i w : Nat} {r : Request} {exception : Bool}
    (asked : s.asked[i]? = some w) :
    (unanswered { s with
      asked := s.asked.eraseIdx i
      answers := s.answers ++
        [{ request := w, shard := r.shard, prId := r.prId, exception := exception }] }).Perm
      s.unanswered := by
  obtain ⟨below, rfl⟩ := List.getElem?_eq_some_iff.mp asked
  simp only [unanswered, List.map_append, List.map_cons, List.map_nil]
  have rotate : (s.answers.map (·.request) ++ [s.asked[i]]).Perm
      ([s.asked[i]] ++ s.answers.map (·.request)) := List.perm_append_comm
  refine (rotate.append_left _).trans ?_
  rw [← List.append_assoc]
  refine List.Perm.append_right _ ?_
  refine List.perm_append_comm.trans ?_
  exact List.getElem_cons_eraseIdx_perm below

theorem untouched_answer {s s' : Cluster} {i other : Nat} {exception : Bool}
    (taken : s.answer i exception = some s') : Untouched other s s' := by
  obtain ⟨w, r, asked, -, rfl⟩ := answer_eq_some taken
  exact ⟨rfl, fun _ _ _ => Iff.rfl, fun _ _ _ _ member =>
    (unanswered_answer asked).mem_iff.mp member, fun _ _ _ _ => rfl, fun _ _ _ _ => rfl⟩

/-- The answer is taken out of the network: nobody but its request is concerned. -/
theorem unanswered_eraseIdx {s : Cluster} {i : Nat} {a : Answer} (tagged : s.Tagged)
    (flying : s.answers[i]? = some a) :
    (∀ w ∈ unanswered { s with answers := s.answers.eraseIdx i }, w ∈ s.unanswered) ∧
    a.request ∉ unanswered { s with answers := s.answers.eraseIdx i } := by
  obtain ⟨below, rfl⟩ := List.getElem?_eq_some_iff.mp flying
  have split : s.unanswered.Perm
      (s.answers[i].request :: unanswered { s with answers := s.answers.eraseIdx i }) := by
    have moved := (List.getElem_cons_eraseIdx_perm below).symm.map (·.request)
    refine (moved.append_left s.asked).trans ?_
    exact List.perm_middle
  have nodup := List.nodup_cons.mp (split.nodup_iff.mp tagged.nodup)
  exact ⟨fun w member => split.mem_iff.mpr (by simp [member]), nodup.1⟩

theorem deliver_eq_some {s s' : Cluster} {i : Nat} (taken : s.deliver i = some s') :
    ∃ a, s.answers[i]? = some a ∧
      s' = if (s.managers a.shard).isActive a.prId then
        { s with answers := s.answers.eraseIdx i }.resolveSlot a.shard a.prId
          (.response a.request)
      else { s with answers := s.answers.eraseIdx i } := by
  unfold deliver at taken
  cases flying : s.answers[i]? with
  | none => simp [flying] at taken
  | some a =>
    refine ⟨a, rfl, ?_⟩
    simp only [flying] at taken
    split at taken <;> rename_i active
    · simpa [active] using (Option.some.inj taken).symm
    · simpa [active] using (Option.some.inj taken).symm

theorem untouched_eraseIdx {s : Cluster} {i other : Nat} {a : Answer} (tagged : s.Tagged)
    (flying : s.answers[i]? = some a) :
    Untouched other s { s with answers := s.answers.eraseIdx i } :=
  ⟨rfl, fun _ _ _ => Iff.rfl, fun w _ _ _ => (unanswered_eraseIdx tagged flying).1 w,
    fun _ _ _ _ => rfl, fun _ _ _ _ => rfl⟩

/-- In a sound shard the answer finds the slot of its own request. -/
theorem ShardOk.heldBy_answer {s : Cluster} {i : Nat} {a : Answer} (tagged : s.Tagged)
    (flying : s.answers[i]? = some a) (valid : s.ShardOk a.shard) :
    ∃ r, HeldBy s a.shard a.prId a.request r ∧ r.ready = false := by
  have member := List.mem_of_getElem? flying
  obtain ⟨r, found, owner, prId⟩ := tagged.header a member
  have waits : r.ready = false := by
    refine valid.waiting a.request ?_ r found owner
    exact List.mem_append_right _ (List.mem_map.mpr ⟨a, member, rfl⟩)
  have unfinished : r.finished = false := by
    by_contra finished
    have ready := valid.finished a.request r found owner (by simpa using finished)
    rw [waits] at ready
    cases ready
  obtain ⟨active, promise⟩ := valid.slot a.request r found owner unfinished
  exact ⟨r, ⟨prId ▸ promise, found, owner, prId, unfinished, prId ▸ active⟩, waits⟩

/-- Receiving an answer at a sound shard: it resolves the promise of its own request. -/
theorem ShardOk.deliver {s s' : Cluster} {i : Nat} {a : Answer} (tagged : s.Tagged)
    (flying : s.answers[i]? = some a) (valid : s.ShardOk a.shard)
    (taken : s.deliver i = some s') :
    s'.ShardOk a.shard ∧ (∀ other, other ≠ a.shard → Untouched other s s') ∧
    s'.resolutions = s.resolutions ++
      [⟨a.shard, a.prId, some a.request, .response a.request⟩] := by
  obtain ⟨a', flying', rfl⟩ := deliver_eq_some taken
  obtain rfl := Option.some.inj (flying.symm.trans flying')
  obtain ⟨r, held, waits⟩ := valid.heldBy_answer tagged flying
  have erased := @untouched_eraseIdx s i a.shard a tagged flying
  have held' : HeldBy { s with answers := s.answers.eraseIdx i } a.shard a.prId a.request r :=
    ⟨held.promise, held.found, held.owner, held.prId, held.unfinished, held.active⟩
  rw [if_pos held.active]
  refine ⟨?_, ?_, ?_⟩
  · exact (valid.untouched erased).resolveSlot held' waits (unanswered_eraseIdx tagged flying).2
  · intro other different
    exact (untouched_eraseIdx tagged flying).trans (untouched_resolveSlot held' different)
  · simp [Cluster.resolveSlot, held.promise]

/-! ## Stopping a shard -/

theorem stopSlot_of_inactive {s : Cluster} {shard id : Nat}
    (inactive : (s.managers shard).isActive id = false) : stopSlot shard s id = s := by
  simp [stopSlot, inactive]

theorem foldl_stopSlot_of_idle {s : Cluster} {shard : Nat} (ids : List Nat)
    (idle : ∀ id, (s.managers shard).isActive id = false) :
    ids.foldl (stopSlot shard) s = s := by
  induction ids with
  | nil => rfl
  | cons id ids ih => rw [List.foldl_cons, stopSlot_of_inactive (idle id), ih]

/-- The slots of `shard` that are still active are waited on by requests of `shard`. -/
def Owned (s : Cluster) (shard : Nat) : Prop :=
  ∀ id, (s.managers shard).isActive id = true → ∃ w r, HeldBy s shard id w r

/-- One turn of the loop of `stop_actor_system` on an active slot. -/
theorem stopSlot_of_active {s : Cluster} {shard id w : Nat} {r : Request}
    (held : HeldBy s shard id w r) : stopSlot shard s id =
      { (s.resolveSlot shard id .stop).setManager shard
          (((s.managers shard).resolve id).removePr id) with
        releases := s.releases ++ [w] } := by
  simp only [stopSlot, held.active, if_true, held.promise, Option.toList_some]
  simp [resolveSlot]

theorem isActive_stopSlot (s : Cluster) (shard id j : Nat) :
    ((stopSlot shard s id).managers shard).isActive j =
      if id = j then false else (s.managers shard).isActive j := by
  unfold stopSlot
  split
  · simp [resolveSlot, PrManager.isActive_removePr]
  · rename_i inactive
    by_cases same : id = j
    · subst same; simpa using inactive
    · simp [same]

theorem untouched_stopSlot {s : Cluster} {shard id other : Nat} (owned : s.Owned shard)
    (different : other ≠ shard) : Untouched other s (stopSlot shard s id) := by
  by_cases active : (s.managers shard).isActive id = true
  · obtain ⟨w, r, held⟩ := owned id active
    have resolved := @untouched_resolveSlot s shard other id w r .stop held different
    rw [stopSlot_of_active held]
    refine ⟨?_, resolved.request, resolved.unanswered, resolved.resolutions, ?_⟩
    · exact (managers_setManager_ne different).trans resolved.manager
    · intro v q found owner
      have distinct := ne_of_shard held.found (held.owner ▸ Ne.symm different) found owner
      simp [List.count_append, distinct]
  · rw [stopSlot_of_inactive (by simpa using active)]
    exact ⟨rfl, fun _ _ _ => Iff.rfl, fun _ _ _ _ member => member, fun _ _ _ _ => rfl,
      fun _ _ _ _ => rfl⟩

theorem owned_stopSlot {s : Cluster} {shard id : Nat} (owned : s.Owned shard) :
    (stopSlot shard s id).Owned shard := by
  by_cases active : (s.managers shard).isActive id = true
  · obtain ⟨w, r, held⟩ := owned id active
    intro j activeJ
    rw [isActive_stopSlot] at activeJ
    split at activeJ
    · cases activeJ
    · rename_i different
      obtain ⟨v, q, heldJ⟩ := owned j activeJ
      have distinct : v ≠ w := by
        rintro rfl
        have := held.found.symm.trans heldJ.found
        exact different (by rw [← held.prId, ← heldJ.prId, Option.some.inj this])
      rw [stopSlot_of_active held]
      refine ⟨v, q, ?_, ?_, heldJ.owner, heldJ.prId, heldJ.unfinished, ?_⟩
      · simp only [managers_setManager_self, PrManager.promise_removePr]
        rw [PrManager.promise_resolve_ne different, heldJ.promise]
      · have requests := @getElem?_resolveSlot s shard _ _ _ .stop held v
        rw [if_neg distinct, heldJ.found] at requests
        exact requests
      · simp [PrManager.isActive_removePr, different, activeJ]
  · rw [stopSlot_of_inactive (by simpa using active)]
    exact owned

/-! ## Messages and requests stay matched -/

/-- `requests'` are the requests `requests`, some of them further on, and maybe new ones. -/
def Extends (requests requests' : List Request) : Prop :=
  requests.length ≤ requests'.length ∧ ∀ (w : Nat) (r : Request), requests[w]? = some r →
    ∃ r' : Request, requests'[w]? = some r' ∧ r'.shard = r.shard ∧ r'.prId = r.prId

theorem extends_refl (requests : List Request) : Extends requests requests :=
  ⟨Nat.le_refl _, fun _ r found => ⟨r, found, rfl, rfl⟩⟩

theorem extends_modify (requests : List Request) (v : Nat) (f : Request → Request)
    (kept : ∀ r, (f r).shard = r.shard ∧ (f r).prId = r.prId) :
    Extends requests (requests.modify v f) := by
  refine ⟨by simp, fun w r found => ?_⟩
  rw [List.getElem?_modify]
  by_cases same : v = w
  · exact ⟨f r, by simp [same, found], kept r⟩
  · exact ⟨r, by simp [same, found], rfl, rfl⟩

theorem extends_markReady (requests : List Request) (p : Option Nat) :
    Extends requests (markReady requests p) := by
  cases p with
  | none => exact extends_refl requests
  | some w => exact extends_modify requests w _ (fun _ => ⟨rfl, rfl⟩)

theorem extends_resolveSlot (s : Cluster) (shard id : Nat) (cause : Cause) :
    Extends s.requests (s.resolveSlot shard id cause).requests := by
  simp only [resolveSlot]
  split
  · exact extends_refl _
  · exact extends_markReady _ _

/-- A step that sends no message keeps the matching. -/
theorem Tagged.of_extends {s s' : Cluster} (tagged : s.Tagged)
    (requests : Extends s.requests s'.requests) (asked : s'.asked = s.asked)
    (answers : s'.answers = s.answers)
    (waiters : ∀ shard id, ((s'.managers shard).promise id).waiter =
      ((s.managers shard).promise id).waiter)
    (resolutions : ∀ r ∈ s'.resolutions, r ∈ s.resolutions ∨
      ∃ shard id, r.waiter = ((s.managers shard).promise id).waiter)
    (releases : ∀ w ∈ s'.releases, w < s'.requests.length) : s'.Tagged where
  nodup := by rw [unanswered, asked, answers]; exact tagged.nodup
  issued := by
    intro w member
    rw [unanswered, asked, answers] at member
    exact Nat.lt_of_lt_of_le (tagged.issued w member) requests.1
  header := by
    intro a member
    obtain ⟨r, found, owner, prId⟩ := tagged.header a (answers ▸ member)
    obtain ⟨r', found', owner', prId'⟩ := requests.2 a.request r found
    exact ⟨r', found', owner'.trans owner, prId'.trans prId⟩
  waiters := by
    intro shard id w waits
    rw [waiters] at waits
    exact Nat.lt_of_lt_of_le (tagged.waiters shard id w waits) requests.1
  resolutions := by
    intro r member w waits
    refine Nat.lt_of_lt_of_le ?_ requests.1
    rcases resolutions r member with old | ⟨shard, id, new⟩
    · exact tagged.resolutions r old w waits
    · exact tagged.waiters shard id w (new ▸ waits)
  releases := releases

theorem waiter_resolveSlot (s : Cluster) (shard id other j : Nat) (cause : Cause) :
    (((s.resolveSlot shard id cause).managers other).promise j).waiter =
      ((s.managers other).promise j).waiter := by
  by_cases same : other = shard
  · subst same
    simp only [resolveSlot, managers_setManager_self, PrManager.promise, PrManager.resolve,
      PrManager.node?_modifyNode]
    split <;> cases (s.managers other).node? j <;> simp
  · rw [resolveSlot, managers_setManager_ne same]

theorem Tagged.resolveSlot {s : Cluster} (tagged : s.Tagged) (shard id : Nat) (cause : Cause) :
    (s.resolveSlot shard id cause).Tagged := by
  have requests := extends_resolveSlot s shard id cause
  refine tagged.of_extends requests rfl rfl (waiter_resolveSlot s shard id · · cause) ?_ ?_
  · intro r member
    simp only [Cluster.resolveSlot, List.mem_append, List.mem_singleton] at member
    rcases member with old | rfl
    · exact .inl old
    · exact .inr ⟨shard, id, rfl⟩
  · exact fun w member => Nat.lt_of_lt_of_le (tagged.releases w member) requests.1

theorem Tagged.removePr {s : Cluster} (tagged : s.Tagged) (shard id : Nat)
    {requests : List Request} (grown : Extends s.requests requests) {releases : List Nat}
    (known : ∀ w ∈ releases, w < s.requests.length) :
    Tagged { s.setManager shard ((s.managers shard).removePr id) with
      requests := requests, releases := s.releases ++ releases } := by
  refine tagged.of_extends grown rfl rfl ?_ (fun r member => .inl member) ?_
  · intro other j
    by_cases same : other = shard
    · subst same; simp [PrManager.promise_removePr]
    · exact congrArg (fun m => (PrManager.promise m j).waiter) (managers_setManager_ne same)
  · intro w member
    refine Nat.lt_of_lt_of_le ?_ grown.1
    rcases List.mem_append.mp member with old | new
    · exact tagged.releases w old
    · exact known w new

theorem Tagged.stopSlot {s : Cluster} (tagged : s.Tagged) (shard id : Nat) :
    (stopSlot shard s id).Tagged := by
  unfold Cluster.stopSlot
  split
  · refine (tagged.resolveSlot shard id .stop).removePr shard id (extends_refl _) ?_
    intro w member
    refine Nat.lt_of_lt_of_le ?_ (extends_resolveSlot s shard id .stop).1
    exact tagged.waiters shard id w (by simpa using member)
  · exact tagged

theorem Tagged.stopActorSystem {s : Cluster} (tagged : s.Tagged) (shard : Nat) :
    (s.stopActorSystem shard).Tagged := by
  unfold Cluster.stopActorSystem
  split
  · exact tagged
  · refine List.foldlRecOn _ _ ?_ (fun t kept id _ => kept.stopSlot shard id)
    exact ⟨tagged.nodup, tagged.issued, tagged.header, tagged.waiters, tagged.resolutions,
      tagged.releases⟩

theorem Tagged.continuation {s s' : Cluster} {w : Nat} (tagged : s.Tagged)
    (taken : s.continuation w = some s') : s'.Tagged := by
  obtain ⟨r, found, -, -, rfl⟩ := continuation_eq_some taken
  have grown : Extends s.requests (s.requests.modify w fun r => { r with finished := true }) :=
    extends_modify _ _ _ (fun _ => ⟨rfl, rfl⟩)
  refine tagged.removePr r.shard r.prId grown ?_
  intro v member
  rw [List.mem_singleton.mp member]
  exact lt_length_of_found found

theorem Tagged.answer {s s' : Cluster} {i : Nat} {exception : Bool} (tagged : s.Tagged)
    (taken : s.answer i exception = some s') : s'.Tagged := by
  obtain ⟨w, r, asked, found, rfl⟩ := answer_eq_some taken
  have perm := @unanswered_answer s i w r exception asked
  refine ⟨perm.nodup_iff.mpr tagged.nodup, fun v member => tagged.issued v
    (perm.mem_iff.mp member), ?_, tagged.waiters, tagged.resolutions, tagged.releases⟩
  intro a member
  rcases List.mem_append.mp member with old | new
  · exact tagged.header a old
  · rw [List.mem_singleton.mp new]
    exact ⟨r, found, rfl, rfl⟩

theorem Tagged.eraseIdx {s : Cluster} {i : Nat} {a : Answer} (tagged : s.Tagged)
    (flying : s.answers[i]? = some a) :
    Tagged { s with answers := s.answers.eraseIdx i } where
  nodup := by
    refine List.Nodup.sublist ?_ tagged.nodup
    exact ((List.eraseIdx_sublist s.answers i).map _).append_left s.asked
  issued := fun w member => tagged.issued w ((unanswered_eraseIdx tagged flying).1 w member)
  header := fun b member => tagged.header b (List.mem_of_mem_eraseIdx member)
  waiters := tagged.waiters
  resolutions := tagged.resolutions
  releases := tagged.releases

theorem Tagged.deliver {s s' : Cluster} {i : Nat} (tagged : s.Tagged)
    (taken : s.deliver i = some s') : s'.Tagged := by
  obtain ⟨a, flying, rfl⟩ := deliver_eq_some taken
  split
  · exact (tagged.eraseIdx flying).resolveSlot _ _ _
  · exact tagged.eraseIdx flying

theorem Tagged.request {s : Cluster} {shard : Nat} (tagged : s.Tagged)
    (valid : s.ShardOk shard) : (s.request shard).Tagged := by
  obtain ⟨free, list⟩ := valid.free
  obtain ⟨m, id, free', acquired, spec⟩ := list.acquirePr
  rw [request_eq valid acquired]
  have grow : ∀ {w : Nat}, w < s.requests.length →
      w < (s.requests ++ [({ shard := shard, prId := id } : Request)]).length := by
    intro w below
    simp
    omega
  refine ⟨?_, ?_, ?_, ?_, fun r member w waits => grow (tagged.resolutions r member w waits),
    fun w member => grow (tagged.releases w member)⟩
  · have fresh : s.requests.length ∉ s.unanswered :=
      fun member => Nat.lt_irrefl _ (tagged.issued _ member)
    have perm : (s.asked ++ [s.requests.length] ++ s.answers.map (·.request)).Perm
        (s.requests.length :: s.unanswered) := by
      rw [List.append_assoc]
      exact List.perm_middle
    exact perm.nodup_iff.mpr (List.nodup_cons.mpr ⟨fresh, tagged.nodup⟩)
  · intro w member
    simp only [unanswered, List.mem_append, List.mem_singleton] at member
    rcases member with (old | new) | flying
    · exact grow (tagged.issued w (by simp [unanswered, old]))
    · simp [new]
    · exact grow (tagged.issued w (List.mem_append_right _ flying))
  · intro a member
    obtain ⟨r, found, rest⟩ := tagged.header a member
    exact ⟨r, getElem?_new_of_old found, rest⟩
  · intro other j w waits
    by_cases same : other = shard
    · subst same
      simp only [managers_setManager_self] at waits
      by_cases slot : id = j
      · subst slot
        rw [PrManager.promise_getFuture_self _ spec.inside] at waits
        simp only [Option.some.injEq] at waits
        simp [← waits]
      · rw [PrManager.promise_getFuture_ne _ slot, spec.promise_eq j slot] at waits
        exact grow (tagged.waiters other j w waits)
    · have kept : (s.setManager shard (m.getFuture id s.requests.length)).managers other =
          s.managers other := managers_setManager_ne same
      simp only [kept] at waits
      exact grow (tagged.waiters other j w waits)

/-! ## Runs -/

theorem tagged_init : Tagged {} where
  nodup := List.nodup_nil
  issued := by simp [unanswered]
  header := by simp
  waiters := by
    intro shard id w waits
    rcases id with _ | id <;> simp [PrManager.new, PrManager.promise, PrManager.node?,
      PrNode.release] at waits
  resolutions := by simp
  releases := by simp

theorem shardOk_init (shard : Nat) : ShardOk {} shard where
  free := ⟨[], PrManager.freeList_new⟩
  holder := by
    intro id active
    rcases id with _ | id <;> simp [PrManager.new, PrManager.isActive, PrManager.node?,
      PrNode.release] at active
  slot := by simp
  idle := by
    intro id _
    rcases id with _ | id <;> simp [PrManager.new, PrManager.promise, PrManager.node?,
      PrNode.release, Promise.abandoned]
  waiting := by simp
  finished := by simp
  resolved := by simp
  released := by simp

/-- A stop that finds no active slot, or finds the shard stopping, only sets the status. -/
theorem untouched_stop {s : Cluster} {shard : Nat} (idle : s.stopping shard = true ∨
    ∀ id, (s.managers shard).isActive id = false) (other : Nat) :
    Untouched other s (s.stopActorSystem shard) := by
  unfold stopActorSystem
  split
  · exact ⟨rfl, fun _ _ _ => Iff.rfl, fun _ _ _ _ member => member, fun _ _ _ _ => rfl,
      fun _ _ _ _ => rfl⟩
  · rename_i running
    have none_active := idle.resolve_left running
    rw [foldl_stopSlot_of_idle (s := { s with stopping := Function.update s.stopping shard true })
      _ none_active]
    exact ⟨rfl, fun _ _ _ => Iff.rfl, fun _ _ _ _ member => member, fun _ _ _ _ => rfl,
      fun _ _ _ _ => rfl⟩

/-- The steps that keep a sound shard sound, whatever shard they happen on. -/
theorem ShardOk.step {s s' : Cluster} {label : Label} (tagged : s.Tagged)
    (valid : ∀ shard, s.ShardOk shard) (idle : s.StopsIdle label)
    (taken : step s label = some s') (shard : Nat) : s'.ShardOk shard := by
  cases label with
  | request on =>
    obtain rfl := Option.some.inj taken
    by_cases same : shard = on
    · subst same; exact (valid shard).request tagged
    · exact (valid shard).untouched (untouched_request (valid on) same)
  | answer i exception => exact (valid shard).untouched (untouched_answer taken)
  | deliver i =>
    obtain ⟨a, flying, -⟩ := deliver_eq_some taken
    obtain ⟨sound, others, -⟩ := (valid a.shard).deliver tagged flying taken
    by_cases same : shard = a.shard
    · subst same; exact sound
    · exact (valid shard).untouched (others shard same)
  | continuation w =>
    obtain ⟨r, found, -⟩ := continuation_eq_some taken
    by_cases same : shard = r.shard
    · subst same; exact (valid r.shard).continuation found taken
    · exact (valid shard).untouched (untouched_continuation taken found same)
  | stop on =>
    obtain rfl := Option.some.inj taken
    exact (valid shard).untouched (untouched_stop idle shard)

theorem Tagged.step {s s' : Cluster} {label : Label} (tagged : s.Tagged)
    (valid : ∀ shard, label = .request shard → s.ShardOk shard)
    (taken : step s label = some s') : s'.Tagged := by
  cases label with
  | request shard =>
    obtain rfl := Option.some.inj taken
    exact tagged.request (valid shard rfl)
  | answer i exception => exact Tagged.answer tagged taken
  | deliver i => exact Tagged.deliver tagged taken
  | continuation w => exact Tagged.continuation tagged taken
  | stop shard =>
    obtain rfl := Option.some.inj taken
    exact tagged.stopActorSystem shard

/-- Slot life cycle: in every run in which `stop_actor_system` never finds an active slot,
requests in progress hold different slots, every promise is resolved at most once, every slot
is released exactly once, and the free list is acyclic and apart from the active slots. -/
theorem slotsOk_of_stopsIdle (labels : List Label) (s : Cluster)
    (ran : run step {} labels = some s) (idle : StepsMeet step StopsIdle {} labels)
    (shard : Nat) : s.SlotsOk shard := by
  have invariant : s.Tagged ∧ ∀ shard, s.ShardOk shard := by
    refine run_invariant_of_meets (fun s => s.Tagged ∧ ∀ shard, s.ShardOk shard) ?_
      labels {} s ⟨tagged_init, shardOk_init⟩ idle ran
    rintro s label s' ⟨tagged, valid⟩ idle taken
    exact ⟨tagged.step (fun shard _ => valid shard) taken,
      ShardOk.step tagged valid idle taken⟩
  exact (invariant.2 shard).slotsOk

/-- A request, its answer and its continuation, with a stop afterwards. -/
theorem slotsOk_after_answered_request :
    StepsMeet step StopsIdle {} [.request 0, .answer 0 false, .deliver 0, .continuation 0,
      .stop 0] ∧
    ∃ s, run step {} [.request 0, .answer 0 false, .deliver 0, .continuation 0, .stop 0] =
      some s ∧ s.SlotsOk 0 := by
  have idle : StepsMeet step StopsIdle {} [.request 0, .answer 0 false, .deliver 0,
      .continuation 0, .stop 0] := by
    refine ⟨trivial, fun _ h0 => ?_⟩
    cases h0
    refine ⟨trivial, fun _ h1 => ?_⟩
    cases h1
    refine ⟨trivial, fun _ h2 => ?_⟩
    cases h2
    refine ⟨trivial, fun _ h3 => ?_⟩
    cases h3
    refine ⟨.inr ?_, fun _ _ => trivial⟩
    rintro (_ | _ | id) <;> rfl
  exact ⟨idle, _, rfl, slotsOk_of_stopsIdle _ _ rfl idle 0⟩

/-- A stop while a request waits: its slot is released by the stop and again by the
continuation, and the free list becomes the cycle `1 → 1`. -/
theorem not_slotsOk_after_stop :
    ¬ ∀ (labels : List Label) (s : Cluster), run step {} labels = some s → s.SlotsOk 0 := by
  intro always
  have released := (always [.request 0, .stop 0, .continuation 0] _ rfl).releasedOnce 0
    { shard := 0, prId := 1, ready := true, finished := true } rfl rfl
  revert released
  decide

/-! ## Correlation -/

/-- A stop has cancelled a request of this shard, and none of its slots is active. -/
structure Cancelled (s : Cluster) (shard : Nat) : Prop where
  stopped : ∃ r ∈ s.resolutions, r.cause = .stop ∧ r.shard = shard
  inactive : ∀ id, (s.managers shard).isActive id = false

/-- Every shard is sound, until a stop cancels a request there; from then on no slot of that
shard is active. -/
structure Correlating (s : Cluster) : Prop where
  tagged : s.Tagged
  shards : ∀ shard, s.ShardOk shard ∨ s.Cancelled shard
  correlated : s.Correlated

/-- A shard that a step does not touch stays as it is. -/
theorem Untouched.shards {s s' : Cluster} {shard : Nat} (frame : Untouched shard s s')
    (recorded : ∀ r ∈ s.resolutions, r ∈ s'.resolutions)
    (valid : s.ShardOk shard ∨ s.Cancelled shard) :
    s'.ShardOk shard ∨ s'.Cancelled shard := by
  rcases valid with sound | ⟨⟨r, member, cause⟩, inactive⟩
  · exact .inl (sound.untouched frame)
  · exact .inr ⟨⟨r, recorded r member, cause⟩, by rw [frame.manager]; exact inactive⟩

/-- What the loop of `stop_actor_system` leaves behind after the slots `ids`. -/
structure StopLoop (shard : Nat) (s t : Cluster) (ids : List Nat) : Prop where
  owned : t.Owned shard
  others : ∀ other, other ≠ shard → Untouched other s t
  active : ∀ id, (t.managers shard).isActive id =
    if id ∈ ids then false else (s.managers shard).isActive id
  recorded : ∃ new, t.resolutions = s.resolutions ++ new ∧
    (∀ r ∈ new, r.cause = .stop ∧ r.shard = shard) ∧
    ((∃ id ∈ ids, (s.managers shard).isActive id = true) → new ≠ [])

theorem stopLoop_foldl {s : Cluster} {shard : Nat} (owned : s.Owned shard) (ids : List Nat) :
    StopLoop shard s (ids.foldl (stopSlot shard) s) ids := by
  induction ids using List.reverseRecOn with
  | nil =>
    refine ⟨owned, fun other _ => ⟨rfl, fun _ _ _ => Iff.rfl, fun _ _ _ _ member => member,
      fun _ _ _ _ => rfl, fun _ _ _ _ => rfl⟩, by simp, [], by simp⟩
  | append_singleton ids id ih =>
    rw [List.foldl_append, List.foldl_cons, List.foldl_nil]
    obtain ⟨new, resolutions, causes, found⟩ := ih.recorded
    refine ⟨owned_stopSlot ih.owned, fun other different =>
      (ih.others other different).trans (untouched_stopSlot ih.owned different), ?_, ?_⟩
    · intro j
      rw [isActive_stopSlot, ih.active j]
      by_cases last : id = j
      · subst last; simp
      · simp [last, Ne.symm last]
    · generalize ids.foldl (stopSlot shard) s = t at *
      by_cases active : (t.managers shard).isActive id = true
      · obtain ⟨w, r, held⟩ := ih.owned id active
        refine ⟨new ++ [⟨shard, id, some w, .stop⟩], ?_, ?_, by simp⟩
        · rw [stopSlot_of_active held]
          simp [setManager, resolveSlot, held.promise, resolutions]
        · intro r member
          rcases List.mem_append.mp member with old | last
          · exact causes r old
          · rw [List.mem_singleton.mp last]
            exact ⟨rfl, rfl⟩
      · refine ⟨new, by rw [stopSlot_of_inactive (by simpa using active), resolutions],
          causes, ?_⟩
        rintro ⟨j, member, activeJ⟩
        apply found
        rcases List.mem_append.mp member with old | last
        · exact ⟨j, old, activeJ⟩
        · rw [List.mem_singleton.mp last] at activeJ
          rw [ih.active id] at active
          by_cases earlier : id ∈ ids
          · exact ⟨id, earlier, activeJ⟩
          · rw [if_neg earlier] at active
            exact absurd activeJ active

/-- `stop_actor_system` on a sound shard with an active slot cancels that shard. -/
theorem cancelled_stopActorSystem {s : Cluster} {shard : Nat} (valid : s.ShardOk shard)
    (running : s.stopping shard = false)
    (found : ∃ id, (s.managers shard).isActive id = true) :
    (s.stopActorSystem shard).Cancelled shard ∧
    (∀ other, other ≠ shard → Untouched other s (s.stopActorSystem shard)) ∧
    ∃ new, (s.stopActorSystem shard).resolutions = s.resolutions ++ new ∧
      ∀ r ∈ new, r.cause = .stop := by
  let s₁ : Cluster := { s with stopping := Function.update s.stopping shard true }
  have owned : s₁.Owned shard := by
    intro id active
    obtain ⟨w, r, held⟩ := valid.heldBy active
    exact ⟨w, r, held.promise, held.found, held.owner, held.prId, held.unfinished, held.active⟩
  have loop := stopLoop_foldl owned (List.range (s.managers shard).size)
  have unfolded : s.stopActorSystem shard =
      (List.range (s.managers shard).size).foldl (stopSlot shard) s₁ := by
    simp [stopActorSystem, running, s₁]
  rw [unfolded]
  obtain ⟨new, resolutions, causes, nonempty⟩ := loop.recorded
  obtain ⟨id, active⟩ := found
  have listed : id ∈ List.range (s.managers shard).size :=
    List.mem_range.mpr (PrManager.isActive_lt active)
  refine ⟨⟨?_, ?_⟩, fun other different => ?_, new, resolutions, fun r member =>
    (causes r member).1⟩
  · obtain ⟨r, member⟩ := List.exists_mem_of_ne_nil new (nonempty ⟨id, listed, active⟩)
    exact ⟨r, by rw [resolutions]; exact List.mem_append_right _ member, causes r member⟩
  · intro j
    rw [loop.active j]
    split
    · rfl
    · rename_i outside
      by_contra activeJ
      exact outside (List.mem_range.mpr (PrManager.isActive_lt (by simpa using activeJ)))
  · have frame := loop.others other different
    exact ⟨frame.manager, frame.request, frame.unanswered, frame.resolutions, frame.releases⟩

theorem Correlated.of_same {s s' : Cluster} (correlated : s.Correlated)
    (same : s'.resolutions = s.resolutions) : s'.Correlated := by
  intro r member
  rw [same] at member
  exact correlated r member

theorem Correlated.append {s s' : Cluster} {new : List Resolution} (correlated : s.Correlated)
    (resolutions : s'.resolutions = s.resolutions ++ new)
    (matched : ∀ r ∈ new, ∀ n, r.cause = .response n → r.waiter = some n) :
    s'.Correlated := by
  intro r member
  rw [resolutions] at member
  rcases List.mem_append.mp member with old | fresh
  · exact correlated r old
  · exact matched r fresh

theorem Correlating.stop {s : Cluster} (valid : s.Correlating) (on : Nat) :
    (s.stopActorSystem on).Correlating := by
  by_cases idle : s.stopping on = true ∨ ∀ id, (s.managers on).isActive id = false
  · have same : (s.stopActorSystem on).resolutions = s.resolutions := by
      unfold stopActorSystem
      split
      · rfl
      · rename_i running
        rw [foldl_stopSlot_of_idle (s := { s with stopping := Function.update s.stopping on true })
          _ (idle.resolve_left running)]
    refine ⟨valid.tagged.stopActorSystem on, fun shard => ?_, ?_⟩
    · exact (untouched_stop idle shard).shards (fun r member => same ▸ member)
        (valid.shards shard)
    · exact valid.correlated.of_same same
  · push Not at idle
    obtain ⟨running, id, active⟩ := idle
    have sound : s.ShardOk on := by
      rcases valid.shards on with sound | cancelled
      · exact sound
      · exact absurd (cancelled.inactive id) active
    obtain ⟨cancelled, others, new, resolutions, causes⟩ :=
      cancelled_stopActorSystem sound (by simpa using running) ⟨id, by simpa using active⟩
    refine ⟨valid.tagged.stopActorSystem on, fun shard => ?_, ?_⟩
    · by_cases same : shard = on
      · subst same; exact .inr cancelled
      · exact (others shard same).shards
          (fun r member => by rw [resolutions]; exact List.mem_append_left _ member)
          (valid.shards shard)
    · refine valid.correlated.append resolutions (fun r member n cause => ?_)
      rw [causes r member] at cause
      cases cause

theorem Correlating.step {s s' : Cluster} {label : Label} (valid : s.Correlating)
    (uncancelled : s.RequestsUncancelled label) (taken : step s label = some s') :
    s'.Correlating := by
  have requested : ∀ shard, label = .request shard → s.ShardOk shard := by
    rintro shard rfl
    rcases valid.shards shard with sound | ⟨⟨r, member, cause, owner⟩, -⟩
    · exact sound
    · exact absurd owner (uncancelled r member cause)
  have tagged := valid.tagged.step requested taken
  cases label with
  | request on =>
    obtain rfl := Option.some.inj taken
    refine ⟨tagged, fun shard => ?_, valid.correlated.of_same (by simp [request,
      setManager])⟩
    by_cases same : shard = on
    · subst same
      exact .inl ((requested shard rfl).request valid.tagged)
    · refine (untouched_request (requested on rfl) same).shards (fun r member => ?_)
        (valid.shards shard)
      simpa [request, setManager] using member
  | answer i exception =>
    obtain ⟨w, r, -, -, resolutions⟩ := answer_eq_some taken
    refine ⟨tagged, fun shard => ?_, valid.correlated.of_same (by simp [resolutions])⟩
    exact (untouched_answer taken).shards (fun r member => by simpa [resolutions] using member)
      (valid.shards shard)
  | deliver i =>
    obtain ⟨a, flying, result⟩ := deliver_eq_some taken
    rcases valid.shards a.shard with sound | cancelled
    · obtain ⟨sound', others, resolutions⟩ := sound.deliver valid.tagged flying taken
      refine ⟨tagged, fun shard => ?_, valid.correlated.append resolutions ?_⟩
      · by_cases same : shard = a.shard
        · subst same; exact .inl sound'
        · exact (others shard same).shards
            (fun r member => by rw [resolutions]; exact List.mem_append_left _ member)
            (valid.shards shard)
      · intro r member n cause
        rw [List.mem_singleton.mp member] at cause ⊢
        exact congrArg some (Cause.response.inj cause)
    · -- the slot was released by the stop: the answer is dropped
      rw [if_neg (by simp [cancelled.inactive])] at result
      subst result
      exact ⟨tagged, fun shard => (untouched_eraseIdx valid.tagged flying).shards
        (fun _ member => member) (valid.shards shard), valid.correlated⟩
  | continuation w =>
    obtain ⟨r, found, -, -, result⟩ := continuation_eq_some taken
    have resolutions : s'.resolutions = s.resolutions := by rw [result]; rfl
    refine ⟨tagged, fun shard => ?_, valid.correlated.of_same resolutions⟩
    by_cases same : shard = r.shard
    · subst same
      rcases valid.shards r.shard with sound | ⟨stopped, inactive⟩
      · exact .inl (sound.continuation found taken)
      · refine .inr ⟨by rw [resolutions]; exact stopped, fun id => ?_⟩
        rw [result]
        simp [PrManager.isActive_removePr, inactive]
    · exact (untouched_continuation taken found same).shards
        (fun r member => by rw [resolutions]; exact member) (valid.shards shard)
  | stop on =>
    obtain rfl := Option.some.inj taken
    exact valid.stop on

/-- Response correlation: in every run in which no shard issues a request after
`stop_actor_system` has cancelled one of its requests, every response that resolves a promise
answers the request that waits on that promise. -/
theorem correlated_of_requestsUncancelled (labels : List Label) (s : Cluster)
    (ran : run step {} labels = some s)
    (uncancelled : StepsMeet step RequestsUncancelled {} labels) : s.Correlated := by
  have invariant : s.Correlating := by
    refine run_invariant_of_meets Correlating ?_ labels {} s ?_ uncancelled ran
    · exact fun s label s' valid uncancelled taken => valid.step uncancelled taken
    · exact ⟨tagged_init, fun shard => .inl (shardOk_init shard), by simp [Correlated]⟩
  exact invariant.correlated

/-- Two shards: the request of shard `0` is cancelled by the stop and its answer dropped,
while shard `1` goes on. -/
theorem correlated_after_stop :
    StepsMeet step RequestsUncancelled {} [.request 0, .request 1, .answer 0 false, .stop 0,
      .deliver 0, .answer 0 true, .deliver 0] ∧
    ∃ s, run step {} [.request 0, .request 1, .answer 0 false, .stop 0, .deliver 0,
      .answer 0 true, .deliver 0] = some s ∧ s.Correlated := by
  have uncancelled : StepsMeet step RequestsUncancelled {} [.request 0, .request 1,
      .answer 0 false, .stop 0, .deliver 0, .answer 0 true, .deliver 0] := by
    refine ⟨by simp [RequestsUncancelled], fun _ h0 => ?_⟩
    cases h0
    refine ⟨by simp [RequestsUncancelled, request, setManager], fun _ _ => ⟨trivial,
      fun _ _ => ⟨trivial, fun _ _ => ⟨trivial, fun _ _ => ⟨trivial, fun _ _ => ⟨trivial,
      fun _ _ => trivial⟩⟩⟩⟩⟩⟩
  exact ⟨uncancelled, _, rfl, correlated_of_requestsUncancelled _ _ rfl uncancelled⟩

/-- After a stop that cancelled request `0`, request `1` gets the slot of request `0` and then
its answer. -/
theorem not_correlated_after_stop :
    ¬ ∀ (labels : List Label) (s : Cluster), run step {} labels = some s → s.Correlated := by
  intro always
  have matched := always [.request 0, .answer 0 false, .stop 0, .request 0, .deliver 0] _ rfl
    ⟨0, 1, some 1, .response 0⟩ (by decide) 0 rfl
  revert matched
  decide

end Hiactor.Cluster
