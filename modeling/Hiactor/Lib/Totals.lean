import Mathlib.Algebra.Order.BigOperators.Group.Finset
import Mathlib.Logic.Function.Basic

/-!
# Totals

The total weight of the values that are stored at finitely many points. A change of one value
changes the total by the difference of the weights.
-/

namespace Hiactor.Lib

variable {ι α : Type}

/-- The weight of the values that are stored at `points`. -/
def total (points : Finset ι) (weight : ι → α → Nat) (stored : ι → Option α) : Nat :=
  ∑ i ∈ points, (stored i).elim 0 (weight i)

/-- All values are stored at `points`. -/
def Within (points : Finset ι) (stored : ι → Option α) : Prop :=
  ∀ i, (stored i).isSome = true → i ∈ points

variable {points : Finset ι} {weight : ι → α → Nat} {stored stored' : ι → Option α}

theorem Within.mono (within : Within points stored)
    (fewer : ∀ i, (stored' i).isSome = true → (stored i).isSome = true) : Within points stored' :=
  fun i live => within i (fewer i live)

theorem total_congr (same : ∀ i, (stored' i).elim 0 (weight i) = (stored i).elim 0 (weight i)) :
    total points weight stored' = total points weight stored :=
  Finset.sum_congr rfl fun i _ => same i

/-- One summand decreases, and the others stay. -/
theorem sum_lt_of_one {f g : ι → Nat} {i : ι} (listed : i ∈ points)
    (others : ∀ j, j ≠ i → g j = f j) (less : g i < f i) :
    ∑ j ∈ points, g j < ∑ j ∈ points, f j := by
  refine Finset.sum_lt_sum (fun j _ => ?_) ⟨i, listed, less⟩
  by_cases here : j = i
  · exact here ▸ less.le
  · exact (others j here).le

variable [DecidableEq ι]

/-- The total does not depend on the points, as long as all values are stored there. -/
theorem total_eq_of_within {points' : Finset ι} (within : Within points stored)
    (within' : Within points' stored) :
    total points weight stored = total points' weight stored := by
  have more {points : Finset ι} (within : Within points stored) (others : Finset ι) :
      total points weight stored = total (points ∪ others) weight stored := by
    refine Finset.sum_subset Finset.subset_union_left fun i _ outside => ?_
    cases live : stored i with
    | none => rfl
    | some a => exact absurd (within i (by rw [live]; rfl)) outside
  rw [more within points', more within' points, Finset.union_comm]

/-- The value at a point that has one is replaced or removed. -/
theorem total_update (within : Within points stored) {i : ι} {a : α} (found : stored i = some a)
    (value : Option α) :
    total points weight (Function.update stored i value) + weight i a =
      total points weight stored + value.elim 0 (weight i) := by
  have listed : i ∈ points := within i (by rw [found]; rfl)
  have others : ∑ j ∈ points.erase i, (Function.update stored i value j).elim 0 (weight j) =
      ∑ j ∈ points.erase i, (stored j).elim 0 (weight j) := by
    refine Finset.sum_congr rfl fun j other => ?_
    rw [Function.update_of_ne (Finset.ne_of_mem_erase other)]
  unfold total
  rw [← Finset.add_sum_erase points _ listed, ← Finset.add_sum_erase points _ listed, others,
    Function.update_self, found, Option.elim_some]
  omega

end Hiactor.Lib
