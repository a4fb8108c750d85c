import Hiactor.Core.Proofs.Shutdown

/-!
# Shutdown when groups are deleted while they have children

What is left of a shard is a valid tree in which every object that does not run is settled, as in a
shard that never deletes such a group. The objects left behind were settled when their group reached
`FINAL`, and some of them has a method in flight. Shutdown thus does not get stuck.
-/

namespace Hiactor

open Lib

/-! ## What a deletion keeps -/

namespace Shard

variable {s s' t : Shard} {k : ActorKey} {p q path : Path} {rest : List RunFrame} {o : ActorObject}

/-- A group is deleted at its `FINAL`. -/
inductive Deletes (s : Shard) : Path → Shard → Shard → Prop
  | deletes {t : Shard} (p : Path) (k : ActorKey) (pc : Pc) (needYield : Bool)
      (rest : List RunFrame) (sched : SchedStatus) (stop : ActorStatus) (g : GroupBody)
      (idle : s.stops = []) (runs : s.runs = ⟨k :: p, pc⟩ :: rest)
      (final : s.finalState p k pc needYield = some t)
      (found : t.objs (k :: p) = some ⟨sched, stop, [], .group g⟩) (stopping : stop ≠ .running) :
      Deletes s (k :: p) t (t.deleteGroup p k g)

theorem deletes {label : Label} (deleted : s.deletion label = some (path, t, s')) :
    Deletes s path t s' := by
  unfold deletion at deleted
  split at deleted
  · next k p pc rest needYield i idle runs =>
    split at deleted
    · cases deleted
    · next t final =>
      split at deleted
      · next sched stop g found =>
        split at deleted
        · next ends =>
          cases deleted
          exact .deletes p k pc needYield rest sched stop g idle runs final found ends.1
        · cases deleted
      · cases deleted
  · cases deleted

/-- A run of a group is still a run of the group when it reaches `FINAL`. -/
theorem Top.final {pc : Pc} {needYield : Bool} (top : Top s k p rest) (valid : s.tree.Valid)
    (idle : s.stops = []) (final : s.finalState p k pc needYield = some t) :
    Top t k p rest ∧ t.tree.Valid ∧ t.stops = [] := by
  unfold finalState at final
  split at final
  · split at final
    · next sched stop m mailbox g found =>
      split at final
      · obtain rfl := Option.some.inj final
        exact ⟨top.obeyStop valid m mailbox, (grows_obeyStop m mailbox).valid valid,
          (stops_obeyStop found).trans idle⟩
      · cases final
    · cases final
  · obtain rfl := Option.some.inj final
    exact ⟨top, valid, idle⟩
  · obtain rfl := Option.some.inj final
    exact ⟨top, valid, idle⟩
  · cases final

/-- The tree without the group and what is below it is valid. -/
theorem valid_deleteGroup (valid : s.tree.Valid) (idle : s.stops = [])
    (found : s.objs (k :: p) = some o) (stopping : o.stopping = true) (g : GroupBody) :
    (s.deleteGroup p k g).tree.Valid := by
  obtain ⟨n, parent, group⟩ := valid.parent (node_tree found)
  obtain ⟨q, stored, rfl⟩ := exists_of_node parent
  have ended : s.tree.ending = [] := by
    show cleanPaths s.stops = []
    rw [idle]
    rfl
  have notified : (s.leave.acknowledge p k g).tree =
      { s.tree with node := Function.update s.tree.node p (some q.node.drop) } :=
    (tree_acknowledge g).trans (tree_notifyChildStopped (s := s.leave) stored group)
  have result : (s.deleteGroup p k g).tree =
      { s.tree with
        node := fun r => if k :: p <:+ r then none
          else Function.update s.tree.node p (some q.node.drop) r
        removed := s.tree.removed ++ [k :: p] } := by
    have nodes : (s.deleteGroup p k g).tree.node = fun r => if k :: p <:+ r then none
        else Function.update s.tree.node p (some q.node.drop) r := by
      funext r
      show (if k :: p <:+ r then none else (s.leave.acknowledge p k g).objs r).map _ = _
      split
      · rfl
      · exact congrFun (congrArg LifeTree.node notified) r
    have rest : (s.deleteGroup p k g).tree =
        { ((s.leave.acknowledge p k g).destroy (k :: p)).tree with
          node := (s.deleteGroup p k g).tree.node } := rfl
    rw [rest, nodes, tree_destroy, notified]
  rw [result]
  exact valid.removeBelow parent (node_tree found) stopping ended

/-- The rest of the shard is settled. -/
theorem Top.deleteGroup (top : Top s k p rest) (idle : s.stops = []) (g : GroupBody) :
    IdleSettled (s.deleteGroup p k g) := by
  have left : Sched s.leave (insert (k :: p) (runPaths rest)) ∅ := top.sched.congr rfl rfl
  have notified := left.acknowledge (k := k) (top.parent.imp_right (Set.mem_insert_of_mem _)) g
  have stops : (s.leave.acknowledge p k g).stops = [] := (Sched.stops_acknowledge g).trans idle
  refine top.returns (control_acknowledge g)
    (notified.removed (congrArg cleanPaths stops) rfl (fun found => ?_))
  have found : (if k :: p <:+ _ then none else (s.leave.acknowledge p k g).objs _) = some _ := found
  split at found
  · cases found
  · next outside => exact ⟨fun same => outside (same ▸ List.suffix_rfl), found⟩

/-! ## What is left behind -/

/-- The group at `path` has reached `FINAL`, and is stopping. -/
structure Left (path : Path) (t : Shard) : Prop where
  valid : t.tree.Valid
  settled : IdleSettled t
  noStops : t.stops = []
  runs : ∃ pc rest, t.runs = ⟨path, pc⟩ :: rest
  stopping : ∃ o, t.objs path = some o ∧ o.isGroup = true ∧ o.stopping = true

namespace Left

/-- What is below the group and waits for no run is quiet. -/
theorem quiet (left : Left path t) (inside : path <:+ q) (other : path ≠ q)
    (found : t.objs q = some o) (waits : o.schedStatus ≠ .scheduled) : o.Quiet False := by
  obtain ⟨pc, rest, runs⟩ := left.runs
  have longer : path.length < q.length :=
    lt_of_le_of_ne inside.length_le fun same => other (inside.eq_of_length same)
  refine left.settled.quiet ?_ found (fun frame member same => ?_)
    (by simp [left.noStops, cleanPaths]) waits
  · rintro rfl
    exact Nat.not_lt_zero _ longer
  · have short := left.settled.nested.length_le ⟨frame, member, same⟩
    rw [runs] at short
    exact absurd short (not_le.mpr longer)

/-- When nothing below the group waits for a run, some actor there has a method in flight. -/
theorem flying (left : Left path t)
    (idle : ∀ r d, path <:+ r → path ≠ r → t.objs r = some d → d.schedStatus ≠ .scheduled)
    (inside : path <:+ q) (other : path ≠ q) (found : t.objs q = some o) :
    ∃ r a, path <:+ r ∧ path ≠ r ∧ t.objs r = some a ∧ a.isGroup = false ∧
      0 < a.curConcurrency := by
  obtain ⟨pc, rest, runs⟩ := left.runs
  obtain ⟨g, group, isGroup, stopping⟩ := left.stopping
  have below : path ≠ [] := by
    have nested := left.settled.nested
    rw [runs] at nested
    obtain ⟨⟨k, same⟩, -⟩ := nested
    exact ne_of_eq_of_ne (show path = k :: topPath rest from same) (List.cons_ne_nil k _)
  obtain ⟨above, rfl⟩ := inside
  have some : above ≠ [] := fun none => other (by rw [none, List.nil_append])
  let j := above.getLast some
  have first : j :: path <:+ above ++ path :=
    ⟨above.dropLast, by rw [← List.singleton_append, ← List.append_assoc,
      List.dropLast_append_getLast]⟩
  have live := left.valid.live_above (isSome_node.trans (by rw [found]; rfl)) first
  obtain ⟨c, child⟩ := Option.isSome_iff_exists.mp (isSome_node.symm.trans live)
  have under {r : Path} (inside : j :: path <:+ r) : path <:+ r ∧ path ≠ r := by
    refine ⟨(List.suffix_cons j path).trans inside, fun same => ?_⟩
    subst same
    exact absurd inside.length_le (Nat.not_succ_le_self path.length)
  have told : c.Told :=
    left.settled.sched.told below (Set.notMem_empty _) group isGroup stopping child
  obtain ⟨r, a, inside, stored, flies⟩ := flying_below left.settled left.valid
    (List.cons_ne_nil j path) (fun r d inside stored => left.quiet (under inside).1
      (under inside).2 stored (idle r d (under inside).1 (under inside).2 stored)) child told
  exact ⟨r, a, (under inside).1, (under inside).2, stored, flies⟩

end Left

end Shard

/-! ## Runs -/

namespace Remains

open Shard

/-- The rest of the shard is settled, and what was left behind was so. -/
structure Settled (r : Remains) : Prop where
  valid : r.shard.tree.Valid
  settled : IdleSettled r.shard
  left : ∀ {path final}, (path, final) ∈ r.deleted → Left path final

theorem Settled.step {r r' : Remains} {label : Shard.Label} (settled : r.Settled)
    (taken : r.step label = some r') : r'.Settled := by
  unfold Remains.step at taken
  split at taken
  · next s went =>
    obtain rfl := Option.some.inj taken
    exact ⟨settled.valid.steps (refines_step settled.valid went),
      settled.settled.step settled.valid went, settled.left⟩
  · obtain ⟨⟨path, final, s⟩, deleted, rfl⟩ := Option.map_eq_some_iff.mp taken
    cases deletes deleted with
    | deletes p k pc needYield rest sched stop g idle runs reached found stopping =>
      have top := settled.settled.top runs rfl
      obtain ⟨top, valid, noStops⟩ := top.final settled.valid idle reached
      have stops : ActorObject.stopping ⟨sched, stop, [], .group g⟩ = true := by
        simpa [ActorObject.stopping] using stopping
      refine ⟨valid_deleteGroup valid noStops found stops g, top.deleteGroup noStops g,
        fun member => ?_⟩
      rcases List.mem_cons.mp member with same | old
      · obtain ⟨rfl, rfl⟩ := Prod.mk.inj same
        obtain ⟨pc, runs⟩ := top.runs
        exact ⟨valid, top.settled, noStops, ⟨pc, rest, runs⟩, ⟨_, found, rfl, stops⟩⟩
      · exact settled.left old

theorem settled_of_reachable {limitOf : ActorKey → Nat} {r : Remains}
    (reachable : Reachable Remains.step (init limitOf) r) : r.Settled := by
  obtain ⟨labels, ran⟩ := reachable
  refine run_invariant Settled (fun t label t' settled taken => settled.step taken) labels
    (init limitOf) r ⟨?_, IdleSettled.init limitOf, fun member => ?_⟩ ran
  · exact tree_init limitOf ▸ LifeTree.valid_rootOnly _
  · cases member

/-- Shutdown does not get stuck: in every reachable state an actor that is stopping and waits for
no run has a method in flight, and such a group has a child; and when the root is stopping, nothing
runs or waits for a run and some actor object is left, then some actor has a method in flight. -/
theorem shutdown_of_reachable {limitOf : ActorKey → Nat} {r : Remains}
    (reachable : Reachable Remains.step (init limitOf) r) :
    (∀ p o, p ≠ [] → r.Has p o → o.stopping = true → o.schedStatus = .schedulable →
      (∀ frame ∈ r.shard.runs, frame.path ≠ p) → (∀ running, .clean p running ∉ r.shard.stops) →
      (o.isGroup = false → 0 < o.curConcurrency) ∧
        (o.isGroup = true → ∃ k c, r.Has (k :: p) c)) ∧
    (r.AtRest → r.shard.rootStopping = true → (∃ p o, p ≠ [] ∧ r.Has p o) → r.Flying) := by
  have settled := settled_of_reachable reachable
  constructor
  · rintro p o below (found | ⟨path, final, member, inside, other, found⟩) stopping status
      notRunning notStopped
    · have notCleaned : p ∉ cleanPaths r.shard.stops := by
        intro member
        obtain ⟨frame, inStops, path⟩ := List.mem_filterMap.mp member
        cases frame with
        | stopSystem force m => cases path
        | clean q running => exact notStopped running (Option.some.inj path ▸ inStops)
      have quiet := settled.settled.quiet below found notRunning notCleaned (by simp [status])
      refine ⟨fun actor => quiet.flying actor id (.inr stopping), fun group => ?_⟩
      obtain ⟨k, c, child⟩ := exists_child settled.valid found ((quiet.group group).2 stopping)
      exact ⟨k, c, .inl child⟩
    · have left := settled.left member
      have quiet := left.quiet inside other found (by simp [status])
      refine ⟨fun actor => quiet.flying actor id (.inr stopping), fun group => ?_⟩
      obtain ⟨k, c, child⟩ := exists_child left.valid found ((quiet.group group).2 stopping)
      refine ⟨k, c, .inr ⟨path, final, member, inside.trans (List.suffix_cons k p), ?_, child⟩⟩
      exact fun same => absurd (same ▸ inside).length_le (Nat.not_succ_le_self p.length)
  · rintro rest closed ⟨p, o, below, found | ⟨path, final, member, inside, other, found⟩⟩
    · have atRest : r.shard.AtRest :=
        ⟨rest.runs, rest.stops, fun below found => rest.idle below (.inl found)⟩
      obtain ⟨q, a, stored, flies⟩ :=
        atRest.flying settled.settled settled.valid closed below found
      exact ⟨q, a, .inl stored, flies⟩
    · obtain ⟨q, a, under, apart, stored, flies⟩ := (settled.left member).flying
        (fun q d under apart stored => rest.idle (fun none => apart (by
          rw [none] at under ⊢
          exact List.suffix_nil.mp under)) (.inr ⟨path, final, member, under, apart, stored⟩))
        inside other found
      exact ⟨q, a, .inr ⟨path, final, member, under, apart, stored⟩, flies⟩

/-- A run in which the shard is stopped while a method of its only actor is in flight. -/
def stopPendingRun : List Shard.Label :=
  [.receive [⟨1, 7⟩] .user 3 5, .dispatch 0, .advance false 0, .advance false 0, .workPending,
    .receive [] .peaceStop 3 6, .stopNext ⟨1, 7⟩, .advance false 0]

/-- The state after it. -/
def stopPendingEnd : Remains :=
  (run Remains.step (init fun _ => 1) stopPendingRun).get (by decide)

theorem stopped_shard_flies :
    Reachable Remains.step (init fun _ => 1) stopPendingEnd ∧ stopPendingEnd.AtRest ∧
      stopPendingEnd.shard.rootStopping = true ∧ stopPendingEnd.Flying := by
  have reachable : Reachable Remains.step (init fun _ => 1) stopPendingEnd :=
    ⟨stopPendingRun, (Option.some_get (by decide)).symm⟩
  have only : stopPendingEnd.shard.objs [⟨1, 7⟩] =
      some ⟨.schedulable, .peaceStopping, [], .actor ⟨[], 1, 1, [⟨1, .user, 3, 5⟩]⟩⟩ := by decide
  have rest : stopPendingEnd.AtRest := by
    refine ⟨by decide, by decide, fun {p o} below present => ?_⟩
    obtain found | ⟨path, final, member, -⟩ := present
    · have created : stopPendingEnd.shard.tree.created = [[⟨1, 7⟩]] := by decide
      have valid := (settled_of_reachable reachable).valid
      have member := (valid.live_created (node_tree found)).resolve_left below
      rw [created, List.mem_singleton] at member
      subst member
      obtain rfl := Option.some.inj (only.symm.trans found)
      decide
    · cases member
  have closed : stopPendingEnd.shard.rootStopping = true := by decide
  exact ⟨reachable, rest, closed, (shutdown_of_reachable reachable).2 rest closed
    ⟨[⟨1, 7⟩], _, List.cons_ne_nil _ _, .inl only⟩⟩

end Remains

end Hiactor
