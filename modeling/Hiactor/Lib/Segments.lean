import Mathlib.Algebra.BigOperators.Group.List.Basic
import Mathlib.Algebra.GroupWithZero.Nat
import Mathlib.Tactic.Common

/-!
# Segments laid end to end

Segments of given sizes are laid one after the other from zero on. Every number below the total
size lies in exactly one of them. `labels` is the table of the segment of each number.
-/

namespace Hiactor.Lib

/-- Where the segment `i` starts. -/
def segmentStart (sizes : List Nat) (i : Nat) : Nat := (sizes.take i).sum

/-- The number `n` lies in the segment `i`. -/
def InSegment (sizes : List Nat) (i n : Nat) : Prop :=
  ∃ size, sizes[i]? = some size ∧ segmentStart sizes i ≤ n ∧ n < segmentStart sizes i + size

/-- The segment of each number, in order; the segments are numbered from `first` on. -/
def segmentLabels (first : Nat) : List Nat → List Nat
  | [] => []
  | size :: sizes => List.replicate size first ++ segmentLabels (first + 1) sizes

@[simp] theorem segmentStart_zero (sizes : List Nat) : segmentStart sizes 0 = 0 := rfl

@[simp] theorem segmentStart_cons (size : Nat) (sizes : List Nat) (i : Nat) :
    segmentStart (size :: sizes) (i + 1) = size + segmentStart sizes i := by
  simp [segmentStart]

theorem segmentStart_mono (sizes : List Nat) {i j : Nat} (le : i ≤ j) :
    segmentStart sizes i ≤ segmentStart sizes j := by
  induction sizes generalizing i j with
  | nil => simp [segmentStart]
  | cons size sizes ih =>
    cases i with
    | zero => simp
    | succ i =>
      cases j with
      | zero => omega
      | succ j =>
        have rest := ih (Nat.le_of_succ_le_succ le)
        simp only [segmentStart_cons]
        omega

/-- A segment ends where the next one starts. -/
theorem segmentStart_succ {sizes : List Nat} {i size : Nat} (here : sizes[i]? = some size) :
    segmentStart sizes (i + 1) = segmentStart sizes i + size := by
  induction sizes generalizing i with
  | nil => cases here
  | cons first sizes ih =>
    cases i with
    | zero =>
      obtain rfl := Option.some.inj here
      simp
    | succ i =>
      have rest := ih (i := i) (by simpa using here)
      simp only [segmentStart_cons] at rest ⊢
      omega

theorem segmentStart_le_sum (sizes : List Nat) (i : Nat) : segmentStart sizes i ≤ sizes.sum := by
  have whole : segmentStart sizes sizes.length = sizes.sum := by simp [segmentStart]
  by_cases le : i ≤ sizes.length
  · rw [← whole]
    exact segmentStart_mono sizes le
  · have past : sizes.take i = sizes := List.take_of_length_le (by omega)
    simp [segmentStart, past]

theorem InSegment.lt_sum {sizes : List Nat} {i n : Nat} (inside : InSegment sizes i n) :
    n < sizes.sum := by
  obtain ⟨size, here, -, upper⟩ := inside
  have next := segmentStart_le_sum sizes (i + 1)
  rw [segmentStart_succ here] at next
  omega

/-- Segments do not overlap. -/
theorem InSegment.unique {sizes : List Nat} {i j n : Nat} (first : InSegment sizes i n)
    (second : InSegment sizes j n) : i = j := by
  have order {i j : Nat} (left : InSegment sizes i n) (right : InSegment sizes j n) : ¬ i < j := by
    intro less
    obtain ⟨size, here, -, upper⟩ := left
    obtain ⟨-, -, lower, -⟩ := right
    have next := segmentStart_mono sizes (i := i + 1) less
    rw [segmentStart_succ here] at next
    omega
  have := order first second
  have := order second first
  omega

/-- Every number below the total lies in a segment. -/
theorem exists_inSegment {sizes : List Nat} {n : Nat} (below : n < sizes.sum) :
    ∃ i, InSegment sizes i n := by
  induction sizes generalizing n with
  | nil => simp at below
  | cons size sizes ih =>
    by_cases first : n < size
    · exact ⟨0, size, rfl, by simp, by simpa using first⟩
    · rw [List.sum_cons] at below
      obtain ⟨i, size', here, lower, upper⟩ := ih (n := n - size) (by omega)
      refine ⟨i + 1, size', by simpa using here, ?_, ?_⟩
      · rw [segmentStart_cons]
        omega
      · rw [segmentStart_cons]
        omega

theorem length_segmentLabels (first : Nat) (sizes : List Nat) :
    (segmentLabels first sizes).length = sizes.sum := by
  induction sizes generalizing first with
  | nil => rfl
  | cons size sizes ih => simp [segmentLabels, ih]

/-- The table finds the segment of a number. -/
theorem getElem?_segmentLabels {sizes : List Nat} {i n : Nat} (first : Nat)
    (inside : InSegment sizes i n) : (segmentLabels first sizes)[n]? = some (first + i) := by
  obtain ⟨size, here, lower, upper⟩ := inside
  induction sizes generalizing first i n with
  | nil => cases here
  | cons head sizes ih =>
    cases i with
    | zero =>
      obtain rfl := Option.some.inj here
      rw [segmentStart_zero, Nat.zero_add] at upper
      rw [segmentLabels, List.getElem?_append_left (by simpa using upper)]
      simp [upper]
    | succ i =>
      simp only [segmentStart_cons] at lower upper
      have rest := ih (i := i) (n := n - head) (first + 1) (by simpa using here) (by omega)
        (by omega)
      rw [segmentLabels, List.getElem?_append_right (by simp; omega)]
      rw [List.length_replicate, rest]
      congr 1
      omega

end Hiactor.Lib
