import Hiactor.Core.Proofs.MachineMail

/-!
# Every promise is resolved

A request holds its slot until its promise is resolved. When `stop_actor_system` takes the slots
of a shard back, it resolves the promises of all requests that still hold one.
-/

namespace Hiactor.Cluster

open Lib

/-- The promise that the request waits on has been resolved. -/
def Resolved (s : Cluster) (w : Nat) : Prop := ∃ r ∈ s.resolutions, r.waiter = some w

theorem Resolved.mono {s s' : Cluster} {w : Nat} (resolved : s.Resolved w)
    (recorded : ∀ r ∈ s.resolutions, r ∈ s'.resolutions) : s'.Resolved w := by
  obtain ⟨r, member, waiter⟩ := resolved
  exact ⟨r, recorded r member, waiter⟩

/-! ## Steps only add resolutions -/

theorem resolutions_stopSlot (s : Cluster) (shard id : Nat) :
    s.resolutions <+: (stopSlot shard s id).resolutions := by
  unfold stopSlot
  split
  · exact List.prefix_append ..
  · exact List.prefix_rfl

theorem resolutions_stopSlots (ids : List Nat) (s : Cluster) (shard : Nat) :
    s.resolutions <+: (ids.foldl (stopSlot shard) s).resolutions := by
  induction ids generalizing s with
  | nil => exact List.prefix_rfl
  | cons id ids ih => exact (resolutions_stopSlot s shard id).trans (ih _)

theorem resolutions_stopActorSystem (s : Cluster) (shard : Nat) :
    s.resolutions <+: (s.stopActorSystem shard).resolutions := by
  unfold stopActorSystem
  split
  · exact List.prefix_rfl
  · exact resolutions_stopSlots _ { s with stopping := Function.update s.stopping shard true } shard

theorem resolutions_step {s s' : Cluster} {label : Label} (taken : step s label = some s') :
    s.resolutions <+: s'.resolutions := by
  cases label with
  | request shard =>
    obtain rfl := Option.some.inj taken
    exact List.prefix_rfl
  | answer i exception =>
    obtain ⟨w, r, -, -, rfl⟩ := answer_eq_some taken
    exact List.prefix_rfl
  | deliver i =>
    obtain ⟨a, -, rfl⟩ := deliver_eq_some taken
    split
    · exact List.prefix_append ..
    · exact List.prefix_rfl
  | continuation w =>
    obtain ⟨r, -, -, -, rfl⟩ := continuation_eq_some taken
    exact List.prefix_rfl
  | stop shard =>
    obtain rfl := Option.some.inj taken
    exact resolutions_stopActorSystem s shard

/-! ## Stops -/

theorem waiter_stopSlot (s : Cluster) (shard id j : Nat) :
    (((stopSlot shard s id).managers shard).promise j).waiter =
      ((s.managers shard).promise j).waiter := by
  have resolved := waiter_resolveSlot s shard id shard j .stop
  unfold stopSlot
  split
  · simp only [managers_setManager_self, PrManager.promise_removePr]
    exact resolved
  · rfl

/-- The loop of `stop_actor_system` resolves the promise of an active slot, or has not come to it
yet. -/
theorem resolved_stopSlots {shard id w : Nat} (ids : List Nat) {s : Cluster}
    (active : (s.managers shard).isActive id = true)
    (waits : ((s.managers shard).promise id).waiter = some w) (listed : id ∈ ids) :
    (ids.foldl (stopSlot shard) s).Resolved w := by
  induction ids generalizing s with
  | nil => cases listed
  | cons j ids ih =>
    rw [List.foldl_cons]
    by_cases same : j = id
    · subst same
      have now : (stopSlot shard s j).Resolved w := by
        unfold stopSlot
        rw [if_pos active]
        exact ⟨_, List.mem_append_right _ (List.mem_singleton.mpr rfl), waits⟩
      exact now.mono fun r member => (resolutions_stopSlots ids _ shard).subset member
    · refine ih ?_ ((waiter_stopSlot s shard j id).trans waits) ?_
      · rw [isActive_stopSlot, if_neg same]
        exact active
      · exact (List.mem_cons.mp listed).resolve_left fun here => same here.symm

/-- On a sound shard a request has had its resolution, or its slot is active and waits for it. -/
theorem ShardOk.resolved_or_waits {s : Cluster} {shard w : Nat} {r : Request}
    (valid : s.ShardOk shard) (found : s.requests[w]? = some r) (owner : r.shard = shard) :
    s.Resolved w ∨ (s.managers shard).isActive r.prId = true ∧
      ((s.managers shard).promise r.prId).waiter = some w := by
  by_cases ready : r.ready = true
  · have once := valid.resolved w r found owner
    rw [if_pos ready] at once
    obtain ⟨res, member, waiter⟩ := List.countP_pos_iff.mp (once ▸ Nat.one_pos)
    exact .inl ⟨res, member, of_decide_eq_true waiter⟩
  · have unfinished : r.finished = false := by
      by_contra finished
      exact ready (valid.finished w r found owner (by simpa using finished))
    obtain ⟨active, promise⟩ := valid.slot w r found owner unfinished
    exact .inr ⟨active, congrArg Promise.waiter promise⟩

/-- The promises of all requests of a shard have been resolved. -/
def GivenUp (s : Cluster) (shard : Nat) : Prop :=
  ∀ (w : Nat) (r : Request), s.requests[w]? = some r → r.shard = shard → s.Resolved w

theorem found_of_addresses {s s' : Cluster} {w : Nat} {r' : Request}
    (same : s'.addresses = s.addresses) (found : s'.requests[w]? = some r') :
    ∃ r : Request, s.requests[w]? = some r ∧ r.shard = r'.shard := by
  have here : s.addresses[w]? = some (r'.shard, r'.prId) := by
    rw [← same, addresses, List.getElem?_map, found]
    rfl
  rw [addresses, List.getElem?_map] at here
  obtain ⟨r, found, address⟩ := Option.map_eq_some_iff.mp here
  exact ⟨r, found, (Prod.mk.inj address).1⟩

theorem GivenUp.of_addresses {s s' : Cluster} {shard : Nat} (given : s.GivenUp shard)
    (same : s'.addresses = s.addresses) (recorded : s.resolutions <+: s'.resolutions) :
    s'.GivenUp shard := by
  intro w r' found' owner'
  obtain ⟨r, found, owner⟩ := found_of_addresses same found'
  exact (given w r found (owner.trans owner')).mono recorded.subset

theorem givenUp_stopActorSystem {s : Cluster} {shard : Nat} (valid : s.ShardOk shard)
    (running : s.stopping shard = false) : (s.stopActorSystem shard).GivenUp shard := by
  have unfolded : s.stopActorSystem shard =
      (List.range (s.managers shard).size).foldl (stopSlot shard)
        { s with stopping := Function.update s.stopping shard true } := by
    simp [stopActorSystem, running]
  intro w r' found' owner'
  obtain ⟨r, found, owner⟩ := found_of_addresses (addresses_stopActorSystem s shard) found'
  rcases valid.resolved_or_waits found (owner.trans owner') with resolved | ⟨active, waits⟩
  · exact resolved.mono (resolutions_stopActorSystem s shard).subset
  · rw [unfolded]
    exact resolved_stopSlots _ active waits (List.mem_range.mpr (PrManager.isActive_lt active))

/-! ## Runs -/

/-- The slots of a shard are sound, or the shard has given all of its requests up. -/
def Ends (s : Cluster) : Prop :=
  ∀ shard, s.ShardOk shard ∨ s.Cancelled shard ∧ s.GivenUp shard

theorem Untouched.ends {s s' : Cluster} {shard : Nat} (frame : Untouched shard s s')
    (recorded : s.resolutions <+: s'.resolutions)
    (ends : s.ShardOk shard ∨ s.Cancelled shard ∧ s.GivenUp shard) :
    s'.ShardOk shard ∨ s'.Cancelled shard ∧ s'.GivenUp shard := by
  rcases ends with sound | ⟨⟨⟨r, member, cause⟩, inactive⟩, given⟩
  · exact .inl (sound.untouched frame)
  · refine .inr ⟨⟨⟨r, recorded.subset member, cause⟩, ?_⟩, fun w r found owner => ?_⟩
    · rw [frame.manager]
      exact inactive
    · exact (given w r ((frame.request w r owner).mp found) owner).mono recorded.subset

theorem Ends.stop {s : Cluster} (ends : s.Ends) (on : Nat) : (s.stopActorSystem on).Ends := by
  have recorded := resolutions_stopActorSystem s on
  by_cases idle : s.stopping on = true ∨ ∀ id, (s.managers on).isActive id = false
  · exact fun shard => (untouched_stop idle shard).ends recorded (ends shard)
  · push Not at idle
    obtain ⟨running, id, active⟩ := idle
    have sound : s.ShardOk on := by
      rcases ends on with sound | ⟨cancelled, -⟩
      · exact sound
      · exact absurd (cancelled.inactive id) active
    obtain ⟨cancelled, others, -⟩ :=
      cancelled_stopActorSystem sound (by simpa using running) ⟨id, by simpa using active⟩
    intro shard
    by_cases same : shard = on
    · subst same
      exact .inr ⟨cancelled, givenUp_stopActorSystem sound (by simpa using running)⟩
    · exact (others shard same).ends recorded (ends shard)

theorem Ends.step {s s' : Cluster} {label : Label} (ends : s.Ends) (tagged : s.Tagged)
    (uncancelled : s.RequestsUncancelled label) (taken : step s label = some s') : s'.Ends := by
  have recorded := resolutions_step taken
  intro shard
  cases label with
  | request on =>
    obtain rfl := Option.some.inj taken
    have sound : s.ShardOk on := by
      rcases ends on with sound | ⟨⟨⟨r, member, cause, owner⟩, -⟩, -⟩
      · exact sound
      · exact absurd owner (uncancelled r member cause)
    by_cases same : shard = on
    · subst same
      exact .inl (sound.request tagged)
    · exact (untouched_request sound same).ends recorded (ends shard)
  | answer i exception => exact (untouched_answer taken).ends recorded (ends shard)
  | deliver i =>
    obtain ⟨a, flying, result⟩ := deliver_eq_some taken
    rcases ends a.shard with sound | ⟨cancelled, -⟩
    · obtain ⟨sound', others, -⟩ := sound.deliver tagged flying taken
      by_cases same : shard = a.shard
      · subst same
        exact .inl sound'
      · exact (others shard same).ends recorded (ends shard)
    · -- the slot was released by the stop
      rw [if_neg (by simp [cancelled.inactive])] at result
      subst result
      exact (untouched_eraseIdx tagged flying).ends recorded (ends shard)
  | continuation w =>
    obtain ⟨r, found, -, -, result⟩ := continuation_eq_some taken
    by_cases same : shard = r.shard
    · subst same
      rcases ends r.shard with sound | ⟨⟨⟨res, member, cause⟩, inactive⟩, given⟩
      · exact .inl (sound.continuation found taken)
      · refine .inr ⟨⟨⟨res, recorded.subset member, cause⟩, fun id => ?_⟩,
          given.of_addresses (addresses_continuation taken) recorded⟩
        rw [result]
        simp [PrManager.isActive_removePr, inactive]
    · exact (untouched_continuation taken found same).ends recorded (ends shard)
  | stop on =>
    obtain rfl := Option.some.inj taken
    exact ends.stop on shard

theorem ends_of_reachedBy {s : Cluster} (follows : ReachedBy step RequestsUncancelled {} s) :
    s.Ends := by
  have both : s.Correlating ∧ s.Ends := by
    refine follows.invariant (fun s => s.Correlating ∧ s.Ends) ?_ ?_
    · exact fun s label s' valid uncancelled taken =>
        ⟨valid.1.step uncancelled taken, valid.2.step valid.1.tagged uncancelled taken⟩
    · exact ⟨⟨tagged_init, fun shard => .inl (shardOk_init shard), by simp [Correlated]⟩,
        fun shard => .inl (shardOk_init shard)⟩
  exact both.2

end Hiactor.Cluster
