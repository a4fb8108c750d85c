import Hiactor.Core.Proofs.ShardLog

/-!
# Routing

A message goes to the mailbox of the object at its address, which is created with the groups
above it when they are missing, unless a prefix of the address has been stopped or the root is
stopping and does not know the first layer.
-/

namespace Hiactor

open Lib

namespace Shard

variable {s : Shard} {p : Path}

/-! ## What a lookup leaves alone -/

/-- What `s'` has more than `s` is created and empty, on the way to `p`. -/
structure Walked (s s' : Shard) (p : Path) : Prop where
  mailbox : ∀ q, s'.mailbox q = s.mailbox q ∨
    (s.mailbox q = none ∧ s'.mailbox q = some [] ∧ q <:+ p)
  log : ∃ paths : List Path, s'.log = s.log ++ paths.map Event.created

theorem Walked.refl : Walked s s p := ⟨fun _ => .inl rfl, [], by simp⟩

theorem Walked.create {k : ActorKey} {s' : Shard} {r : Path} (absent : s.objs (k :: p) = none)
    (onWay : k :: p <:+ r) (walked : Walked (s.createChild p k) s' r) : Walked s s' r where
  mailbox := by
    intro q
    have here := mailbox_createChild s p k q
    rcases walked.mailbox q with same | ⟨none, empty, above⟩
    · rw [here] at same
      split at same
      · rename_i isChild
        subst isChild
        exact .inr ⟨by rw [Shard.mailbox, absent]; rfl, same, onWay⟩
      · exact .inl same
    · rw [here] at none
      split at none
      · cases none
      · exact .inr ⟨none, empty, above⟩
  log := by
    obtain ⟨paths, log⟩ := walked.log
    refine ⟨(k :: p) :: paths, ?_⟩
    rw [log, log_createChild]
    simp

/-! ## Lookups -/

theorem isGroup_of_key {k : ActorKey} {o : ActorObject} (valid : s.tree.Valid)
    (found : s.objs (k :: p) = some o) : o.isGroup = k.isGroup :=
  valid.kind (node_tree found)

theorem groups_cons {k : ActorKey} {keys : List ActorKey}
    (groups : ∀ j ∈ (k :: keys).dropLast, j.isGroup = true) :
    (keys ≠ [] → k.isGroup = true) ∧ ∀ j ∈ keys.dropLast, j.isGroup = true := by
  cases keys with
  | nil => simp
  | cons j keys =>
    exact ⟨fun _ => groups k List.mem_cons_self,
      fun i member => groups i (List.mem_cons_of_mem k member)⟩

/-- A lookup that meets no null entry arrives, and creates what is missing. -/
theorem getActorLocal_open {keys : List ActorKey} {o : ActorObject} (valid : s.tree.Valid)
    (below : p ≠ []) (found : s.objs p = some o) (group : keys ≠ [] → o.isGroup = true)
    (groups : ∀ k ∈ keys.dropLast, k.isGroup = true)
    (notDisabled : ∀ q, q ≠ [] → q <+: keys → q.reverse ++ p ∉ s.tree.disabled) :
    ∃ s', s.getActorLocal p keys = (s', some (keys.reverse ++ p)) ∧
      Walked s s' (keys.reverse ++ p) ∧ (s'.objs (keys.reverse ++ p)).isSome = true := by
  induction keys generalizing s p o with
  | nil => exact ⟨s, rfl, .refl, by simp [found]⟩
  | cons k keys ih =>
    have here : k :: p ∉ s.tree.disabled :=
      notDisabled [k] (by simp) ⟨keys, rfl⟩
    have onWay : (k :: keys).reverse ++ p = keys.reverse ++ (k :: p) := by simp
    obtain ⟨groupHere, groupsBelow⟩ := groups_cons groups
    have notDisabledBelow : ∀ q, q ≠ [] → q <+: keys →
        q.reverse ++ (k :: p) ∉ s.tree.disabled := by
      intro q some start
      have longer := notDisabled (k :: q) (List.cons_ne_nil k q)
        ((List.prefix_cons_inj k).mpr start)
      simpa using longer
    have isGroup := group (List.cons_ne_nil k keys)
    have entry := valid.disabled_iff (k := k) (node_tree found)
    rw [onWay]
    unfold getActorLocal
    simp only [found, isGroup, if_true]
    cases stored : o.entry k with
    | none =>
      have absent : s.objs (k :: p) = none := by
        refine Option.eq_none_iff_forall_ne_some.mpr (fun c child => ?_)
        exact valid.known (node_tree child) (node_tree found) stored
      have created := grows_createChild found isGroup stored (fun root => absurd root below)
      have tree := tree_createChild (k := k) found isGroup
      have child : ((s.createChild p k).objs (k :: p)).isSome = true := by
        rw [← isSome_mailbox, mailbox_createChild]
        simp
      obtain ⟨c, child⟩ := Option.isSome_iff_exists.mp child
      obtain ⟨s', arrived, walked, live⟩ := ih (created.valid valid) (List.cons_ne_nil k p) child
        (fun more => (isGroup_of_key (created.valid valid) child).trans (groupHere more))
        groupsBelow (by rw [tree]; exact notDisabledBelow)
      exact ⟨s', arrived, walked.create absent (List.suffix_append ..), live⟩
    | some reached =>
      cases reached with
      | false => exact absurd (entry.mpr stored) here
      | true =>
        obtain ⟨n, child⟩ := valid.reached (node_tree found) stored
        obtain ⟨c, child, -⟩ := exists_of_node child
        exact ih valid (List.cons_ne_nil k p) child
          (fun more => (isGroup_of_key valid child).trans (groupHere more)) groupsBelow
          notDisabledBelow

/-- A lookup below which a prefix is disabled finds nothing and creates nothing. -/
theorem getActorLocal_disabled {keys q : List ActorKey} {o : ActorObject} (valid : s.tree.Valid)
    (found : s.objs p = some o) (group : keys ≠ [] → o.isGroup = true)
    (groups : ∀ k ∈ keys.dropLast, k.isGroup = true)
    (some : q ≠ []) (start : q <+: keys) (disabled : q.reverse ++ p ∈ s.tree.disabled) :
    s.getActorLocal p keys = (s, none) := by
  induction keys generalizing s p o q with
  | nil => exact absurd (List.prefix_nil.mp start) some
  | cons k keys ih =>
    cases q with
    | nil => exact absurd rfl some
    | cons k' q =>
      obtain ⟨rfl, startBelow⟩ := List.cons_prefix_cons.mp start
      have isGroup := group (List.cons_ne_nil _ keys)
      have below : q.reverse ++ (k' :: p) ∈ s.tree.disabled := by simpa using disabled
      have known := valid.created_known
        ((valid.created_above (valid.disabled_created below) (List.suffix_append ..)).resolve_left
          (List.cons_ne_nil k' p)) (node_tree found)
      unfold getActorLocal
      simp only [found, isGroup, if_true]
      cases stored : o.entry k' with
      | none => exact absurd stored known
      | some reached =>
        cases reached with
        | false => rfl
        | true =>
          obtain ⟨n, child⟩ := valid.reached (node_tree found) stored
          obtain ⟨c, child, -⟩ := exists_of_node child
          have longer : q ≠ [] := by
            rintro rfl
            have entry := (valid.disabled_iff (node_tree found)).mp below
            exact absurd (stored.symm.trans entry) (by simp)
          have more : keys ≠ [] := fun nil => longer (List.prefix_nil.mp (nil ▸ startBelow))
          obtain ⟨groupHere, groupsBelow⟩ := groups_cons groups
          exact ih valid child (fun _ => (isGroup_of_key valid child).trans (groupHere more))
            groupsBelow longer startBelow below

/-! ## `receive` -/

/-- A prefix of the address has been stopped. -/
def PrefixStopped (s : Shard) (addr : List ActorKey) : Prop :=
  ∃ q, q ≠ [] ∧ q <+: addr ∧ .disabled q.reverse ∈ s.log

/-- The root is stopping and the first layer of the address does not exist. -/
def RootClosed (s : Shard) (addr : List ActorKey) : Prop :=
  s.rootStopping = true ∧ s.objs (addr.take 1) = none

/-- The message is in the mailbox of the object at the address, and nowhere else. What is new in
the tree are objects on the way to it. -/
structure Delivered (s s' : Shard) (addr : List ActorKey) (m : ActorMessage) : Prop where
  target : s'.mailbox addr.reverse = some
    (if m.type = .user then (s.mailbox addr.reverse).getD [] ++ [m]
      else m :: (s.mailbox addr.reverse).getD [])
  ancestors : ∀ q, q <:+ addr.reverse → (s'.objs q).isSome = true
  others : ∀ q, q ≠ addr.reverse → s'.mailbox q = s.mailbox q ∨
    (s.mailbox q = none ∧ s'.mailbox q = some [] ∧ q <:+ addr.reverse)
  log : ∃ paths : List Path,
    s'.log = s.log ++ paths.map Event.created ++ [.enqueued m addr.reverse]

/-- The message is in no mailbox, and a request is answered by one exception. -/
structure Rejected (s s' : Shard) (addr : List ActorKey) (m : ActorMessage) : Prop where
  objs : s'.objs = s.objs
  log : s'.log = s.log ++ [.rejected m addr] ++
    (if m.prId ≠ 0 then [.sent [] (m.reply true)] else []) ++ [.reclaimed m]

theorem rejected_stoppedActorEnqueue (addr : List ActorKey) (m : ActorMessage) :
    Rejected s (s.stoppedActorEnqueue addr m) addr m := by
  unfold stoppedActorEnqueue
  by_cases request : m.prId = 0
  · constructor <;> simp [request, emit, reclaim]
  · constructor <;> simp [request, emit, reclaim]

theorem mem_disabled {q : Path} : q ∈ s.tree.disabled ↔ .disabled q ∈ s.log := by
  simp only [tree, List.mem_filterMap]
  constructor
  · rintro ⟨e, member, found⟩
    cases e with
    | disabled r => exact Option.some.inj found ▸ member
    | _ => cases found
  · exact fun member => ⟨_, member, rfl⟩

theorem mem_removed {q : Path} : q ∈ s.tree.removed ↔ .destroyed q ∈ s.log := by
  simp only [tree, List.mem_filterMap]
  constructor
  · rintro ⟨e, member, found⟩
    cases e with
    | destroyed r => exact Option.some.inj found ▸ member
    | _ => cases found
  · exact fun member => ⟨_, member, rfl⟩

/-- A message that is enqueued after a lookup has been delivered. -/
theorem Walked.delivered {s' : Shard} {addr : List ActorKey} (valid : s'.tree.Valid)
    (walked : Walked s s' addr.reverse) (live : (s'.objs addr.reverse).isSome = true)
    (m : ActorMessage) : Delivered s (s'.enque addr.reverse m) addr m := by
  obtain ⟨o, found⟩ := Option.isSome_iff_exists.mp live
  have mailboxes (q : Path) : (s'.enque addr.reverse m).mailbox q =
      if q = addr.reverse then
        some (if m.type = .user then o.mailbox ++ [m] else m :: o.mailbox)
      else s'.mailbox q := by
    unfold enque enqueMessage enqueUrgentMessage
    split
    · rw [mailbox_activate, mailbox_update]
      split
      · rename_i here
        subst here
        simp [emit, found, ActorObject.setMailbox]
      · rfl
    · rw [mailbox_activate, mailbox_update]
      split
      · rename_i here
        subst here
        simp [emit, found, ActorObject.setMailbox]
      · rfl
  have before : o.mailbox = (s.mailbox addr.reverse).getD [] := by
    have stored : s'.mailbox addr.reverse = some o.mailbox := by
      rw [Shard.mailbox, found]
      rfl
    rcases walked.mailbox addr.reverse with same | ⟨none, empty, -⟩
    · rw [← same, stored]
      rfl
    · rw [none, Option.some.inj (stored.symm.trans empty)]
      rfl
  refine ⟨?_, ?_, ?_, ?_⟩
  · rw [mailboxes, if_pos rfl, before]
  · intro q above
    have kept := valid.live_above (isSome_node.trans live) above
    rw [← tree_enque s' addr.reverse m] at kept
    exact isSome_node.symm.trans kept
  · intro q other
    rw [mailboxes, if_neg other]
    exact walked.mailbox q
  · obtain ⟨paths, log⟩ := walked.log
    refine ⟨paths, ?_⟩
    rw [← log]
    unfold enque enqueMessage enqueUrgentMessage
    split
    · simp [emit]
    · simp [emit]

/-- `receive` delivers a message, except when a prefix of its address has been stopped or the
root is closed to it. -/
theorem receive_routes (valid : s.tree.Valid) {addr : List ActorKey} (nonempty : addr ≠ [])
    (groups : ∀ k ∈ addr.dropLast, k.isGroup = true) (m : ActorMessage) :
    ∃ s', s.receive addr m = some s' ∧
      (¬ (s.PrefixStopped addr ∨ s.RootClosed addr) → Delivered s s' addr m) ∧
      (s.PrefixStopped addr ∨ s.RootClosed addr → Rejected s s' addr m) := by
  cases addr with
  | nil => exact absurd rfl nonempty
  | cons k keys =>
    obtain ⟨n, root, inner⟩ := valid.root
    obtain ⟨o, found, rfl⟩ := exists_of_node root
    obtain ⟨groupHere, groupsBelow⟩ := groups_cons groups
    have entry : s.entry [] k = o.entry k := by simp [Shard.entry, found]
    have whole : (k :: keys).reverse = keys.reverse ++ [k] := by simp
    have notDisabled (open' : ¬ s.PrefixStopped (k :: keys)) :
        ∀ q, q ≠ [] → q <+: keys → q.reverse ++ [k] ∉ s.tree.disabled := by
      intro q _ start disabled
      refine open' ⟨k :: q, List.cons_ne_nil k q, (List.prefix_cons_inj k).mpr start, ?_⟩
      simpa using mem_disabled.mp disabled
    unfold receive
    simp only [entry]
    cases stored : o.entry k with
    | none =>
      have absent : s.objs [k] = none := by
        refine Option.eq_none_iff_forall_ne_some.mpr (fun c child => ?_)
        exact valid.known (node_tree child) (node_tree found) stored
      by_cases closed : s.rootStopping = true
      · rw [if_pos closed]
        exact ⟨_, rfl, fun notClosed => absurd (.inr ⟨closed, absent⟩) notClosed,
          fun _ => rejected_stoppedActorEnqueue ..⟩
      · rw [if_neg closed]
        have running : o.stopping = false := by simpa [rootStopping, found] using closed
        have created := grows_createChild found inner stored (fun _ => running)
        have tree := tree_createChild (k := k) found inner
        -- nothing below a first layer that was never created has been stopped
        have never (q : List ActorKey) : q.reverse ++ [k] ∉ s.tree.disabled := by
          intro disabled
          have known := valid.created_above (valid.disabled_created disabled)
            (List.suffix_append q.reverse [k])
          exact valid.created_known (known.resolve_left (List.cons_ne_nil k [])) (node_tree found)
            stored
        have open' : ¬ (s.PrefixStopped (k :: keys) ∨ s.RootClosed (k :: keys)) := by
          rintro (⟨q, some, start, disabled⟩ | ⟨stopping, -⟩)
          · cases q with
            | nil => exact some rfl
            | cons k' q =>
              obtain ⟨rfl, -⟩ := List.cons_prefix_cons.mp start
              exact never q (mem_disabled.mpr (by simpa using disabled))
          · exact closed stopping
        have child : ((s.createChild [] k).objs [k]).isSome = true := by
          rw [← isSome_mailbox, mailbox_createChild]
          simp
        obtain ⟨c, child⟩ := Option.isSome_iff_exists.mp child
        obtain ⟨s', arrived, walked, live⟩ := getActorLocal_open (created.valid valid)
          (List.cons_ne_nil k []) child
          (fun more => (isGroup_of_key (created.valid valid) child).trans (groupHere more))
          groupsBelow (fun q _ _ => by rw [tree]; exact never q)
        have grown := grows_getActorLocal (s := s.createChild [] k) [k] (List.cons_ne_nil k []) keys
        rw [arrived] at grown ⊢
        rw [← whole] at walked live ⊢
        have delivered := (walked.create absent (whole ▸ List.suffix_append ..)).delivered
          (grown.valid (created.valid valid)) live m
        exact ⟨_, rfl, fun _ => delivered, fun excepted => absurd excepted open'⟩
    | some reached =>
      cases reached with
      | false =>
        have stopped : s.PrefixStopped (k :: keys) :=
          ⟨[k], List.cons_ne_nil k [], ⟨keys, rfl⟩,
            mem_disabled.mp ((valid.disabled_iff (node_tree found)).mpr stored)⟩
        exact ⟨_, rfl, fun notStopped => absurd (.inl stopped) notStopped,
          fun _ => rejected_stoppedActorEnqueue ..⟩
      | true =>
        obtain ⟨c, child⟩ := valid.reached (node_tree found) stored
        obtain ⟨c, child, -⟩ := exists_of_node child
        have group : keys ≠ [] → c.isGroup = true :=
          fun more => (isGroup_of_key valid child).trans (groupHere more)
        have known : ¬ s.RootClosed (k :: keys) := by
          rintro ⟨-, absent⟩
          exact absurd (child.symm.trans absent) (by simp)
        by_cases stopped : s.PrefixStopped (k :: keys)
        · obtain ⟨q, some, start, disabled⟩ := stopped
          cases q with
          | nil => exact absurd rfl some
          | cons k' q =>
            obtain ⟨rfl, startBelow⟩ := List.cons_prefix_cons.mp start
            have below : q.reverse ++ [k'] ∈ s.tree.disabled :=
              mem_disabled.mpr (by simpa using disabled)
            have longer : q ≠ [] := by
              rintro rfl
              have entry := (valid.disabled_iff (node_tree found)).mp below
              exact absurd (stored.symm.trans entry) (by simp)
            rw [getActorLocal_disabled valid child group groupsBelow longer startBelow below]
            refine ⟨_, rfl, fun notStopped => absurd (.inl ?_) notStopped,
              fun _ => rejected_stoppedActorEnqueue ..⟩
            exact ⟨k' :: q, some, start, disabled⟩
        · obtain ⟨s', arrived, walked, live⟩ := getActorLocal_open valid (List.cons_ne_nil k [])
            child group groupsBelow (notDisabled stopped)
          have grown := grows_getActorLocal (s := s) [k] (List.cons_ne_nil k []) keys
          rw [arrived] at grown ⊢
          rw [← whole] at walked live ⊢
          refine ⟨_, rfl, fun _ => walked.delivered (grown.valid valid) live m, ?_⟩
          rintro (isStopped | closed)
          · exact absurd isStopped stopped
          · exact absurd closed known

/-! ## Runs -/

/-- What a run never undoes. -/
theorem extends_of_run {limitOf : ActorKey → Nat} {s t : Shard} {labels : List Label}
    (reachable : Reachable step (init limitOf) s) (ran : run step s labels = some t) :
    s.tree.Extends t.tree := by
  have invariant : t.tree.Valid ∧ s.tree.Extends t.tree := by
    refine run_invariant (fun t => t.tree.Valid ∧ s.tree.Extends t.tree) ?_ labels s t ?_ ran
    · rintro u label u' ⟨valid, grown⟩ taken
      have refines := refines_step valid taken
      exact ⟨valid.steps refines, grown.trans (LifeTree.extends_of_steps refines)⟩
    · exact ⟨valid_of_reachable reachable, fun _ => id, fun _ => id, List.prefix_rfl⟩
  exact invariant.2

theorem reachable_run {limitOf : ActorKey → Nat} {s t : Shard} {labels : List Label}
    (reachable : Reachable step (init limitOf) s) (ran : run step s labels = some t) :
    Reachable step (init limitOf) t := by
  obtain ⟨before, reached⟩ := reachable
  exact ⟨before ++ labels, run_append reached ran⟩

theorem count_created (s : Shard) (p : Path) :
    s.log.count (.created p) = s.tree.created.count p := by
  show s.log.count (.created p) = (s.log.filterMap _).count p
  induction s.log with
  | nil => rfl
  | cons e log ih =>
    cases e with
    | created q => simp [List.count_cons, ih]
    | _ => simp [ih]

/-- Routing: in every reachable state no address has been created twice, `receive` delivers a
message to the object at its address unless a prefix of the address has been stopped or the
root is closed to it, and a stopped prefix stays stopped in every run from there. -/
theorem routing_of_reachable {limitOf : ActorKey → Nat} {s : Shard}
    (reachable : Reachable step (init limitOf) s) :
    (∀ p, s.log.count (.created p) ≤ 1) ∧
    (∀ (addr : List ActorKey) (m : ActorMessage), addr ≠ [] →
      (∀ k ∈ addr.dropLast, k.isGroup = true) →
      ∃ s', s.receive addr m = some s' ∧
        (¬ (s.PrefixStopped addr ∨ s.RootClosed addr) → Delivered s s' addr m) ∧
        (s.PrefixStopped addr ∨ s.RootClosed addr → Rejected s s' addr m)) ∧
    (∀ (addr : List ActorKey) (labels : List Label) (t : Shard), s.PrefixStopped addr →
      run step s labels = some t → (∀ k ∈ addr.dropLast, k.isGroup = true) →
      ∀ m, ∃ t', t.receive addr m = some t' ∧ Rejected t t' addr m) := by
  have valid := valid_of_reachable reachable
  refine ⟨fun p => ?_, fun addr m nonempty groups => receive_routes valid nonempty groups m, ?_⟩
  · rw [count_created]
    exact List.nodup_iff_count_le_one.mp valid.created_nodup p
  · rintro addr labels t ⟨q, some, start, disabled⟩ ran groups m
    have later : t.PrefixStopped addr := ⟨q, some, start,
      mem_disabled.mp ((extends_of_run reachable ran).disabled _ (mem_disabled.mpr disabled))⟩
    have nonempty : addr ≠ [] := fun nil => some (List.prefix_nil.mp (nil ▸ start))
    obtain ⟨t', received, -, rejected⟩ := receive_routes
      (valid_of_reachable (reachable_run reachable ran)) nonempty groups m
    exact ⟨t', received, rejected (.inl later)⟩

/-- A scope, an actor in it, and a run in which the scope is stopped. -/
def scopeKey : ActorKey := ⟨0xF000, 1⟩
def workerKey : ActorKey := ⟨1, 7⟩
def stopScopeRun : List Label :=
  [.receive [scopeKey, workerKey] .user 3 5, .receive [scopeKey] .forceStop 3 6, .dispatch 0,
    .advance false 0]

/-- A request to an actor of a scope that was stopped is answered by an exception. -/
theorem stopped_scope_rejects :
    ∃ s, run step (init fun _ => 2 ^ 32 - 1) stopScopeRun = some s ∧
      ∃ s', s.receive [scopeKey, workerKey] ⟨9, .user, 3, 8⟩ = some s' ∧
        Rejected s s' [scopeKey, workerKey] ⟨9, .user, 3, 8⟩ := by
  have runs : (run step (init fun _ => 2 ^ 32 - 1) stopScopeRun).isSome = true := by decide
  have disabled : .disabled [scopeKey] ∈ ((run step (init fun _ => 2 ^ 32 - 1) stopScopeRun).get
      runs).log := by decide +revert
  refine ⟨_, (Option.some_get runs).symm, ?_⟩
  obtain ⟨-, routes, -⟩ := routing_of_reachable ⟨stopScopeRun, (Option.some_get runs).symm⟩
  obtain ⟨s', received, -, rejected⟩ := routes [scopeKey, workerKey] ⟨9, .user, 3, 8⟩
    (by decide) (by decide)
  exact ⟨s', received, rejected (.inl ⟨[scopeKey], by decide, ⟨[workerKey], rfl⟩, disabled⟩)⟩

end Shard

end Hiactor
