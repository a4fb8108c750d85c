import Mathlib.Data.List.Sort
import Mathlib.Order.Defs.Unbundled

/-!
# Binary heaps in a range

A range is a heap for a comparison when no element is greater than its parent. What the library
functions that build a heap and take its front promise is a structure, over any element type; the
comparison need be a strict weak order only for the promises about order.
-/

namespace Hiactor.Lib

variable {α : Type}

/-- The comparison as a relation. -/
abbrev StrictWeak (comp : α → α → Bool) : Prop := IsStrictWeakOrder α (fun a b => comp a b = true)

/-- No element is greater than its parent. -/
def IsHeap (comp : α → α → Bool) (xs : List α) : Prop :=
  ∀ (i : Nat) (parent child : α), 0 < i → xs[(i - 1) / 2]? = some parent → xs[i]? = some child →
    comp parent child = false

/-- `std::make_heap` and `std::pop_heap`. -/
structure HeapFunctions (α : Type) where
  makeHeap : (α → α → Bool) → List α → List α
  popHeap : (α → α → Bool) → List α → List α
  makeHeap_perm : ∀ comp xs, (makeHeap comp xs).Perm xs
  popHeap_perm : ∀ comp xs, (popHeap comp xs).Perm xs
  isHeap_makeHeap : ∀ comp xs, StrictWeak comp → IsHeap comp (makeHeap comp xs)
  getLast_popHeap : ∀ comp front xs, StrictWeak comp → IsHeap comp (front :: xs) →
    (popHeap comp (front :: xs)).getLast? = some front
  isHeap_popHeap : ∀ comp front xs, StrictWeak comp → IsHeap comp (front :: xs) →
    IsHeap comp (popHeap comp (front :: xs)).dropLast

theorem isHeap_nil (comp : α → α → Bool) : IsHeap comp [] := by
  intro i parent child positive above
  simp at above

/-- Only the comparisons among the elements matter. -/
theorem IsHeap.congr {comp comp' : α → α → Bool} {xs : List α} (heap : IsHeap comp xs)
    (same : ∀ a ∈ xs, ∀ b ∈ xs, comp' a b = comp a b) : IsHeap comp' xs := by
  intro i parent child positive above here
  rw [same parent (List.mem_of_getElem? above) child (List.mem_of_getElem? here)]
  exact heap i parent child positive above here

theorem StrictWeak.not_trans {comp : α → α → Bool} (order : StrictWeak comp) {a b c : α}
    (first : comp a b = false) (second : comp b c = false) : comp a c = false := by
  rw [Bool.eq_false_iff] at first second ⊢
  intro less
  have notBack : ¬ comp b a = true := fun back => second (order.trans b a c back less)
  have notAhead : ¬ comp c b = true := fun ahead => first (order.trans a c b less ahead)
  exact (order.incomp_trans a b c ⟨first, notBack⟩ ⟨second, notAhead⟩).1 less

theorem StrictWeak.self {comp : α → α → Bool} (order : StrictWeak comp) (a : α) :
    comp a a = false :=
  Bool.eq_false_iff.mpr (order.irrefl a)

/-- The front of a heap is not less than any element. -/
theorem IsHeap.front_le {comp : α → α → Bool} {front : α} {xs : List α} (order : StrictWeak comp)
    (heap : IsHeap comp (front :: xs)) : ∀ b ∈ front :: xs, comp front b = false := by
  have byPlace : ∀ (i : Nat) (b : α), (front :: xs)[i]? = some b → comp front b = false := by
    intro i
    induction i using Nat.strongRecOn with
    | ind i ih =>
      intro b here
      rcases Nat.eq_zero_or_pos i with rfl | positive
      · obtain rfl := Option.some.inj here
        exact order.self front
      · have earlier : (i - 1) / 2 < i := by omega
        have inside : (i - 1) / 2 < (front :: xs).length := by
          have := (List.getElem?_eq_some_iff.mp here).1
          omega
        have above := List.getElem?_eq_getElem inside
        exact order.not_trans (ih _ earlier _ above) (heap i _ b positive above here)
  intro b member
  obtain ⟨i, here⟩ := List.mem_iff_getElem?.mp member
  exact byPlace i b here

/-! ## Functions that meet the specification -/

/-- A range in descending order is a heap. -/
theorem isHeap_of_pairwise {comp : α → α → Bool} {xs : List α}
    (descending : xs.Pairwise (fun a b => comp a b = false)) : IsHeap comp xs := by
  intro i parent child positive above here
  obtain ⟨before, rfl⟩ := List.getElem?_eq_some_iff.mp above
  obtain ⟨inside, rfl⟩ := List.getElem?_eq_some_iff.mp here
  exact List.pairwise_iff_getElem.mp descending _ _ before inside (by omega)

def descending (comp : α → α → Bool) (xs : List α) : List α :=
  xs.insertionSort (fun a b => comp a b = false)

theorem isHeap_descending {comp : α → α → Bool} (order : StrictWeak comp) (xs : List α) :
    IsHeap comp (descending comp xs) := by
  apply isHeap_of_pairwise
  have : Std.Total (fun a b => comp a b = false) := ⟨fun a b => by
    by_contra neither
    simp only [not_or, Bool.not_eq_false] at neither
    exact order.irrefl a (order.trans a b a neither.1 neither.2)⟩
  have : IsTrans α (fun a b => comp a b = false) := ⟨fun _ _ _ => order.not_trans⟩
  exact List.pairwise_insertionSort _ xs

/-- Heaps that are kept in descending order. -/
def HeapFunctions.sorting (α : Type) : HeapFunctions α where
  makeHeap := descending
  popHeap := fun comp xs => match xs with
    | [] => []
    | front :: xs => descending comp xs ++ [front]
  makeHeap_perm := fun _ xs => List.perm_insertionSort _ xs
  popHeap_perm := fun comp xs => by
    cases xs with
    | nil => exact .refl _
    | cons front xs =>
      exact ((List.perm_insertionSort _ xs).append_right [front]).trans
        (List.perm_append_singleton front xs)
  isHeap_makeHeap := fun _ xs order => isHeap_descending order xs
  getLast_popHeap := fun _ _ _ _ _ => List.getLast?_concat
  isHeap_popHeap := fun comp front xs order _ => by
    simpa using isHeap_descending order xs

end Hiactor.Lib
