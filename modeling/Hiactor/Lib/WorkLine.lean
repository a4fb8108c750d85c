import Mathlib.Data.List.Infix
import Mathlib.Logic.Relation

/-!
# Lines of work

Items enter a line, and each of them is processed and then completed, in the order in which they
entered. At most `capacity` items have entered the line and are not completed.
-/

namespace Hiactor.Lib

variable {α : Type}

structure WorkLine (α : Type) where
  entered : List α := []
  processed : List α := []
  completed : List α := []

namespace WorkLine

inductive Step (capacity : Nat) (l : WorkLine α) : WorkLine α → Prop
  | enter (x : α) (room : l.entered.length < l.completed.length + capacity) :
      Step capacity l { l with entered := l.entered ++ [x] }
  | process (x : α) (next : l.processed ++ [x] <+: l.entered) :
      Step capacity l { l with processed := l.processed ++ [x] }
  | complete (x : α) (next : l.completed ++ [x] <+: l.processed) :
      Step capacity l { l with completed := l.completed ++ [x] }

/-- The lines that some steps lead to. -/
def Reachable (capacity : Nat) (l : WorkLine α) : Prop :=
  Relation.ReflTransGen (Step capacity) {} l

structure Valid (capacity : Nat) (l : WorkLine α) : Prop where
  processed : l.processed <+: l.entered
  completed : l.completed <+: l.processed
  bounded : l.entered.length ≤ l.completed.length + capacity

variable {capacity : Nat} {l l' : WorkLine α}

theorem valid_empty (capacity : Nat) : Valid capacity ({} : WorkLine α) where
  processed := List.prefix_rfl
  completed := List.prefix_rfl
  bounded := Nat.zero_le _

theorem Valid.step (valid : l.Valid capacity) (step : Step capacity l l') : l'.Valid capacity := by
  cases step with
  | enter x room =>
    refine ⟨valid.processed.trans (List.prefix_append ..), valid.completed, ?_⟩
    rw [List.length_append]
    exact room
  | process x next =>
    exact ⟨next, valid.completed.trans (List.prefix_append ..), valid.bounded⟩
  | complete x next =>
    refine ⟨valid.processed, next, ?_⟩
    have longer : l.completed.length ≤ (l.completed ++ [x]).length :=
      (List.prefix_append ..).length_le
    exact valid.bounded.trans (Nat.add_le_add_right longer capacity)

theorem Reachable.valid (reachable : l.Reachable capacity) : l.Valid capacity := by
  induction reachable with
  | refl => exact valid_empty capacity
  | tail _ step ih => exact ih.step step

theorem Reachable.step (reachable : l.Reachable capacity)
    (step : Relation.ReflGen (Step capacity) l l') : l'.Reachable capacity :=
  Relation.ReflTransGen.trans reachable step.to_reflTransGen

end WorkLine

end Hiactor.Lib
