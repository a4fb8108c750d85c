import Hiactor.Lib.Run
import Hiactor.Core.PromiseManager

/-!
# Requests and their responses

Model of the life of a request across a set of shards: `actor_client::request` and
`send_and_wait` (`include/hiactor/core/actor_client.hh`), `cancel_scope_request`, the root
branch of `receive` and `stop_actor_system` (`src/core/root_actor_group.cc`), over one
`pr_manager` for each shard.

A request acquires a slot, sends a message that carries the shard and the slot, and waits on
the future of the slot. A responder answers the message at most once; the answer addresses
the slot by the shard and the `pr_id` it was given. When the future is resolved, the
continuation of `send_and_wait` (or of `cancel_scope_request`, which does the same) releases
the slot. Requests are numbered in the order in which they are issued. The number is not
part of any message; it only says which request an answer is the answer to.
-/

namespace Hiactor

/-- Why a promise is resolved: a `RESPONSE` or `EXCEPTION_RESPONSE` message, which answers
the given request, or the cleanup in `stop_actor_system`. -/
inductive Cause where
  | response (request : Nat)
  | stop
  deriving DecidableEq, Repr

/-- One call of `set_value` or `set_exception` on a slot, and the request whose future was
taken from the promise in that slot. -/
structure Resolution where
  shard : Nat
  prId : Nat
  waiter : Option Nat
  cause : Cause
  deriving DecidableEq, Repr

/-- A request, from `acquire_pr` until its continuation has run. -/
structure Request where
  shard : Nat
  prId : Nat
  ready : Bool := false
  finished : Bool := false
  deriving DecidableEq, Repr

/-- A response message in flight: the header fields that address it, and the request it
answers. -/
structure Answer where
  request : Nat
  shard : Nat
  prId : Nat
  exception : Bool
  deriving DecidableEq, Repr

/-- The promise tables of all shards and the messages between them. `resolutions` and
`releases` record the calls of `set_value`/`set_exception` and of `remove_pr`. -/
structure Cluster where
  managers : Nat → PrManager := fun _ => .new
  stopping : Nat → Bool := fun _ => false
  requests : List Request := []
  asked : List Nat := []
  answers : List Answer := []
  resolutions : List Resolution := []
  releases : List Nat := []

namespace Cluster

def setManager (s : Cluster) (shard : Nat) (m : PrManager) : Cluster :=
  { s with managers := Function.update s.managers shard m }

/-- The future that `waiter` holds becomes available. -/
def markReady (requests : List Request) : Option Nat → List Request
  | none => requests
  | some w => requests.modify w (fun r => { r with ready := true })

/-- The promise that `acquire_pr` destroys when it reuses a slot, if someone still waits. -/
def broken (m : PrManager) : Option Nat :=
  if m.available = 0 then none else (m.promise m.available).abandoned

/-- `request` and the first half of `send_and_wait`: acquire a slot, send the message and
take the future. -/
def request (s : Cluster) (shard : Nat) : Cluster :=
  let m := s.managers shard
  let (m', id) := m.acquirePr
  let w := s.requests.length
  { s.setManager shard (m'.getFuture id w) with
    requests := markReady s.requests (broken m) ++ [{ shard := shard, prId := id }]
    asked := s.asked ++ [w] }

/-- The responder of the `i`-th unanswered request sends its response. -/
def answer (s : Cluster) (i : Nat) (exception : Bool) : Option Cluster :=
  match s.asked[i]? with
  | none => none
  | some w =>
      match s.requests[w]? with
      | none => none
      | some r =>
          some { s with
            asked := s.asked.eraseIdx i
            answers := s.answers ++
              [{ request := w, shard := r.shard, prId := r.prId, exception := exception }] }

/-- `set_value` or `set_exception` on a slot. A promise that is already resolved ignores it. -/
def resolveSlot (s : Cluster) (shard id : Nat) (cause : Cause) : Cluster :=
  let m := s.managers shard
  let p := m.promise id
  { s.setManager shard (m.resolve id) with
    requests := if p.resolved then s.requests else markReady s.requests p.waiter
    resolutions := s.resolutions ++
      [{ shard := shard, prId := id, waiter := p.waiter, cause := cause }] }

/-- `receive` of the `i`-th response in flight, at the root of its destination shard. -/
def deliver (s : Cluster) (i : Nat) : Option Cluster :=
  match s.answers[i]? with
  | none => none
  | some a =>
      let s' := { s with answers := s.answers.eraseIdx i }
      if (s.managers a.shard).isActive a.prId then
        some (s'.resolveSlot a.shard a.prId (.response a.request))
      else
        some s'

/-- The continuation of `send_and_wait`, once its future is available. -/
def continuation (s : Cluster) (w : Nat) : Option Cluster :=
  match s.requests[w]? with
  | none => none
  | some r =>
      if r.ready && !r.finished then
        some { s.setManager r.shard ((s.managers r.shard).removePr r.prId) with
          requests := s.requests.modify w (fun r => { r with finished := true })
          releases := s.releases ++ [w] }
      else
        none

/-- The body of the loop over the slots in `stop_actor_system`. -/
def stopSlot (shard : Nat) (s : Cluster) (id : Nat) : Cluster :=
  if (s.managers shard).isActive id then
    let s' := s.resolveSlot shard id .stop
    { s'.setManager shard ((s'.managers shard).removePr id) with
      releases := s'.releases ++ ((s.managers shard).promise id).waiter.toList }
  else
    s

/-- `stop_actor_system`, as far as it concerns the promise table. -/
def stopActorSystem (s : Cluster) (shard : Nat) : Cluster :=
  if s.stopping shard then s
  else
    (List.range (s.managers shard).size).foldl (stopSlot shard)
      { s with stopping := Function.update s.stopping shard true }

/-- The steps of the shards and of the network. -/
inductive Label where
  | request (shard : Nat)
  | answer (i : Nat) (exception : Bool)
  | deliver (i : Nat)
  | continuation (w : Nat)
  | stop (shard : Nat)
  deriving DecidableEq, Repr

def step (s : Cluster) : Label → Option Cluster
  | .request shard => some (s.request shard)
  | .answer i exception => s.answer i exception
  | .deliver i => s.deliver i
  | .continuation w => s.continuation w
  | .stop shard => some (s.stopActorSystem shard)

/-! ## What is to be shown -/

/-- Every response message that resolved a promise answers the request that waited on it. -/
def Correlated (s : Cluster) : Prop :=
  ∀ r ∈ s.resolutions, ∀ n, r.cause = .response n → r.waiter = some n

/-- The life cycle of the slots of one shard. -/
structure SlotsOk (s : Cluster) (shard : Nat) : Prop where
  /-- Requests that are not finished hold different slots. -/
  distinct : ∀ (v w : Nat) (q r : Request), s.requests[v]? = some q → s.requests[w]? = some r →
    q.shard = shard → r.shard = shard → q.finished = false → r.finished = false →
    q.prId = r.prId → v = w
  /-- The promise of a request is resolved at most once. -/
  resolvedOnce : ∀ (w : Nat) (r : Request), s.requests[w]? = some r → r.shard = shard →
    s.resolutions.countP (·.waiter = some w) ≤ 1
  /-- The slot of a request is released once, by its continuation. -/
  releasedOnce : ∀ (w : Nat) (r : Request), s.requests[w]? = some r → r.shard = shard →
    s.releases.count w = if r.finished then 1 else 0
  /-- The chain from `available` ends at `0`, repeats no slot and meets no active slot. -/
  freeList : ∃ free : List Nat, (s.managers shard).FreeFrom (s.managers shard).available free ∧
    free.Nodup ∧ ∀ id ∈ free, (s.managers shard).isActive id = false

/-- A stop finds no active slot. -/
def StopsIdle (s : Cluster) : Label → Prop
  | .stop shard => s.stopping shard = true ∨ ∀ id, (s.managers shard).isActive id = false
  | _ => True

/-- A request is issued on a shard only if no request of that shard has been cancelled by
`stop_actor_system`. -/
def RequestsUncancelled (s : Cluster) : Label → Prop
  | .request shard => ∀ r ∈ s.resolutions, r.cause = .stop → r.shard ≠ shard
  | _ => True

end Cluster

end Hiactor
