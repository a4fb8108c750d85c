import Hiactor.Core.PromiseManager
import Hiactor.Lib.Run

/-!
# Ids of the promise table

Over any order of `acquire_pr` and `remove_pr`, where an id is removed only while it is acquired,
the table hands out ids that nobody has, and keeps exactly the released ones in its free list. The
ids are below the number of slots, so that with fewer than 2 ^ 32 of them each fits its 32 bits.
-/

namespace Hiactor

open Lib

inductive PrOp where
  | acquire
  | remove (id : Nat)
  deriving DecidableEq, Repr

/-- A table, all ids that it has returned, the ids that are acquired, and the ids that were released
and not acquired again. -/
structure PrUse where
  table : PrManager := .new
  returned : List Nat := []
  acquired : List Nat := []
  released : List Nat := []
  deriving DecidableEq, Repr

namespace PrUse

def acquire (u : PrUse) : PrUse where
  table := u.table.acquirePr.1
  returned := u.returned ++ [u.table.acquirePr.2]
  acquired := u.table.acquirePr.2 :: u.acquired
  released := u.released.erase u.table.acquirePr.2

def remove (u : PrUse) (id : Nat) : PrUse where
  table := u.table.removePr id
  returned := u.returned
  acquired := u.acquired.erase id
  released := id :: u.released

def step (u : PrUse) : PrOp → Option PrUse
  | .acquire => some u.acquire
  | .remove id => if id ∈ u.acquired then some (u.remove id) else none

variable {u u' : PrUse} {op : PrOp} {ops : List PrOp} {id : Nat}

/-- What holds between the table and the ids. -/
structure Allocates (u : PrUse) : Prop where
  free : ∃ free, u.table.FreeList free ∧ ∀ id, id ∈ free ↔ id ∈ u.released
  returned : ∀ id ∈ u.returned, id ≠ 0 ∧ id < u.table.size
  acquired_nodup : u.acquired.Nodup
  released_nodup : u.released.Nodup
  active : ∀ id, id ∈ u.acquired ↔ u.table.isActive id = true

theorem allocates_new : Allocates {} where
  free := ⟨[], PrManager.freeList_new, fun _ => Iff.rfl⟩
  returned _ member := absurd member List.not_mem_nil
  acquired_nodup := List.nodup_nil
  released_nodup := List.nodup_nil
  active id := by
    have inactive : PrManager.new.isActive id = false := by
      cases id with
      | zero => rfl
      | succ id => rfl
    rw [inactive]
    simp

theorem Allocates.acquire (allocates : u.Allocates) : u.acquire.Allocates := by
  obtain ⟨free, list, members⟩ := allocates.free
  obtain ⟨m, id, free', acquired, spec⟩ := list.acquirePr
  have table : u.acquire.table = m := congrArg Prod.fst acquired
  have fresh : u.table.acquirePr.2 = id := congrArg Prod.snd acquired
  have larger : u.table.size ≤ m.size := by
    rcases spec.source with ⟨-, last, -⟩ | ⟨-, same⟩
    · have inside := spec.inside
      omega
    · exact Nat.le_of_eq same.symm
  constructor
  case free =>
    refine ⟨free', table ▸ spec.valid, fun j => ?_⟩
    change j ∈ free' ↔ j ∈ u.released.erase u.table.acquirePr.2
    rw [fresh, allocates.released_nodup.mem_erase_iff, ← members]
    rcases spec.source with ⟨rfl, -, rfl⟩ | ⟨rfl, -⟩
    · simp
    · have unlisted : id ∉ free' := (List.nodup_cons.mp list.nodup).1
      rw [List.mem_cons]
      constructor
      · intro member
        exact ⟨fun same => unlisted (same ▸ member), .inr member⟩
      · rintro ⟨different, member⟩
        exact member.resolve_left different
  case returned =>
    intro j member
    rw [table]
    rcases List.mem_append.mp member with before | new
    · obtain ⟨nonzero, inside⟩ := allocates.returned j before
      exact ⟨nonzero, by omega⟩
    · obtain rfl := List.mem_singleton.mp new
      rw [fresh]
      exact ⟨spec.nonzero, spec.inside⟩
  case acquired_nodup =>
    refine List.nodup_cons.mpr ⟨fun member => ?_, allocates.acquired_nodup⟩
    have active := (allocates.active _).mp member
    rw [fresh, spec.inactive] at active
    cases active
  case released_nodup => exact allocates.released_nodup.erase _
  case active =>
    intro j
    change j ∈ u.table.acquirePr.2 :: u.acquired ↔ _
    rw [table, fresh, spec.active_eq, List.mem_cons, allocates.active]
    by_cases same : id = j
    · simp [same]
    · simp [same, Ne.symm same]

theorem Allocates.remove (allocates : u.Allocates) (held : id ∈ u.acquired) :
    (u.remove id).Allocates := by
  obtain ⟨free, list, members⟩ := allocates.free
  have active := (allocates.active id).mp held
  have removed := list.removePr active
  constructor
  case free =>
    refine ⟨id :: free, removed, fun j => ?_⟩
    change j ∈ id :: free ↔ j ∈ id :: u.released
    rw [List.mem_cons, List.mem_cons, members]
  case returned =>
    intro j member
    change j ≠ 0 ∧ j < (u.table.removePr id).size
    rw [PrManager.size_removePr]
    exact allocates.returned j member
  case acquired_nodup => exact allocates.acquired_nodup.erase id
  case released_nodup =>
    refine List.nodup_cons.mpr ⟨fun member => ?_, allocates.released_nodup⟩
    have inactive := ((list.inactive id).mp ((members id).mpr member)).2.2
    rw [active] at inactive
    cases inactive
  case active =>
    intro j
    change j ∈ u.acquired.erase id ↔ (u.table.removePr id).isActive j = true
    rw [allocates.acquired_nodup.mem_erase_iff, PrManager.isActive_removePr, allocates.active]
    by_cases same : id = j
    · simp [same]
    · simp [same, Ne.symm same]

theorem Allocates.step (allocates : u.Allocates) (stepped : u.step op = some u') :
    u'.Allocates := by
  cases op with
  | acquire =>
    obtain rfl := Option.some.inj stepped
    exact allocates.acquire
  | remove id =>
    simp only [PrUse.step] at stepped
    split at stepped
    · next held =>
      obtain rfl := Option.some.inj stepped
      exact allocates.remove held
    · cases stepped

theorem allocates_run (ran : run step {} ops = some u) : u.Allocates :=
  run_invariant Allocates (fun _ _ _ allocates stepped => allocates.step stepped) ops {} u
    allocates_new ran

/-- A slot is appended only when there is no released id. -/
theorem Allocates.grows (allocates : u.Allocates)
    (grown : u.acquire.table.size ≠ u.table.size) : u.released = [] := by
  obtain ⟨free, list, members⟩ := allocates.free
  obtain ⟨m, id, free', acquired, spec⟩ := list.acquirePr
  have table : u.acquire.table = m := congrArg Prod.fst acquired
  rw [table] at grown
  rcases spec.source with ⟨rfl, -, -⟩ | ⟨-, same⟩
  · refine List.eq_nil_iff_forall_not_mem.mpr fun j member => ?_
    exact List.not_mem_nil ((members j).mpr member)
  · exact absurd same grown

/-- The table allocates ids. -/
theorem ids_are_allocated (ran : run step {} ops = some u) :
    (∀ id ∈ u.returned, id ≠ 0 ∧ id < u.table.size) ∧
      u.acquired.Nodup ∧ (∀ id, id ∈ u.acquired ↔ u.table.isActive id = true) ∧
      (∃ free, u.table.FreeFrom u.table.available free ∧ free.Nodup ∧
        ∀ id, id ∈ free ↔ id ∈ u.released) ∧
      (u.acquire.table.size ≠ u.table.size → u.released = []) := by
  have allocates := allocates_run ran
  obtain ⟨free, list, members⟩ := allocates.free
  exact ⟨allocates.returned, allocates.acquired_nodup, allocates.active,
    ⟨free, list.chain, list.nodup, members⟩, allocates.grows⟩

/-- Three ids are acquired, two of them released in the other order, and one acquired again. -/
def reuse : List PrOp :=
  [.acquire, .acquire, .acquire, .remove 1, .remove 3, .acquire]

theorem ids_are_allocated_reuse :
    ∃ u, run step {} reuse = some u ∧ u.returned = [1, 2, 3, 3] ∧
      (∀ id ∈ u.returned, id ≠ 0 ∧ id < u.table.size) ∧
      u.acquired.Nodup ∧ (∀ id, id ∈ u.acquired ↔ u.table.isActive id = true) ∧
      (∃ free, u.table.FreeFrom u.table.available free ∧ free.Nodup ∧
        ∀ id, id ∈ free ↔ id ∈ u.released) ∧
      (u.acquire.table.size ≠ u.table.size → u.released = []) := by
  obtain ⟨u, ran, returned⟩ : ∃ u, run step {} reuse = some u ∧ u.returned = [1, 2, 3, 3] :=
    ⟨_, rfl, rfl⟩
  exact ⟨u, ran, returned, ids_are_allocated ran⟩

end PrUse

end Hiactor
