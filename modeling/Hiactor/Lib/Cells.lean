import Mathlib.Data.List.Basic

/-!
# Memory cells

A block of memory is a list of cells, each of which holds a value or, before anything is written to
it, none. Reads and writes outside of the block have no result.
-/

namespace Hiactor.Lib

variable {α : Type}

/-- A block of cells. -/
abbrev Cells (α : Type) := List (Option α)

namespace Cells

variable {cells cells' : Cells α} {offset start n : Nat} {src vals : List α}

/-- A block that nothing was written to. -/
def alloc (n : Nat) : Cells α := List.replicate n none

def write (cells : Cells α) (offset : Nat) (src : List α) : Option (Cells α) :=
  if offset + src.length ≤ cells.length then
    some (cells.take offset ++ (src.map some ++ cells.drop (offset + src.length)))
  else none

def read (cells : Cells α) (offset n : Nat) : Option (Cells α) :=
  if offset + n ≤ cells.length then some ((cells.drop offset).take n) else none

/-- The values of cells that all were written to. -/
def values : Cells α → Option (List α)
  | [] => some []
  | cell :: cells => cell.bind fun val => (values cells).map (val :: ·)

/-- A read of cells that have a value each. -/
def load (cells : Cells α) (offset n : Nat) : Option (List α) :=
  (cells.read offset n).bind values

/-- The values `vals` are in the cells from `offset` on. -/
def Holds (cells : Cells α) (offset : Nat) (vals : List α) : Prop :=
  cells.read offset vals.length = some (vals.map some)

theorem write_eq_some (wrote : cells.write offset src = some cells') :
    offset + src.length ≤ cells.length ∧
      cells' = cells.take offset ++ (src.map some ++ cells.drop (offset + src.length)) := by
  unfold write at wrote
  split at wrote
  · next inside => exact ⟨inside, (Option.some.inj wrote).symm⟩
  · cases wrote

theorem write_isSome (inside : offset + src.length ≤ cells.length) :
    ∃ cells', cells.write offset src = some cells' :=
  ⟨_, if_pos inside⟩

theorem length_write (wrote : cells.write offset src = some cells') :
    cells'.length = cells.length := by
  obtain ⟨inside, rfl⟩ := write_eq_some wrote
  simp only [List.length_append, List.length_take, List.length_map, List.length_drop]
  omega

theorem values_map_some (vals : List α) : values (vals.map some) = some vals := by
  induction vals with
  | nil => rfl
  | cons val vals ih => rw [List.map_cons, values, ih, Option.bind_some, Option.map_some]

/-- What the cells hold is loaded. -/
theorem Holds.load (holds : cells.Holds offset vals) (length : vals.length = n) :
    cells.load offset n = some vals := by
  subst length
  rw [Cells.load, holds, Option.bind_some, values_map_some]

theorem Holds.inside (holds : cells.Holds offset vals) : offset + vals.length ≤ cells.length := by
  unfold Holds read at holds
  split at holds
  · next inside => exact inside
  · cases holds

theorem holds_iff : cells.Holds offset vals ↔
    offset + vals.length ≤ cells.length ∧ ∀ i, (h : i < vals.length) →
      cells[offset + i]? = some (some vals[i]) := by
  unfold Holds read
  constructor
  · intro holds
    split at holds
    · next inside =>
      refine ⟨inside, fun i small => ?_⟩
      have same := congrArg (·[i]?) (Option.some.inj holds)
      simpa [List.getElem?_take, small] using same
    · cases holds
  · rintro ⟨inside, same⟩
    rw [if_pos inside]
    congr 1
    apply List.ext_getElem?
    intro i
    by_cases small : i < vals.length
    · simp [small, same i small]
    · have outside : vals.length ≤ i := Nat.le_of_not_lt small
      rw [List.getElem?_take_eq_none outside, List.getElem?_eq_none]
      rw [List.length_map]
      exact outside

theorem holds_nil (inside : offset ≤ cells.length) : cells.Holds offset [] :=
  holds_iff.mpr ⟨inside, nofun⟩

theorem holds_append {first second : List α} :
    cells.Holds offset (first ++ second) ↔
      cells.Holds offset first ∧ cells.Holds (offset + first.length) second := by
  simp only [holds_iff, List.length_append]
  constructor
  · rintro ⟨inside, same⟩
    refine ⟨⟨by omega, fun i small => ?_⟩, by omega, fun i small => ?_⟩
    · have at_i := same i (by omega)
      rwa [List.getElem_append_left small] at at_i
    · have at_i := same (first.length + i) (by omega)
      rw [List.getElem_append_right (Nat.le_add_right _ _), ← Nat.add_assoc] at at_i
      simpa using at_i
  · rintro ⟨⟨-, same⟩, inside, same'⟩
    refine ⟨by omega, fun i small => ?_⟩
    by_cases left : i < first.length
    · rw [List.getElem_append_left left]
      exact same i left
    · have at_i := same' (i - first.length) (by omega)
      rw [List.getElem_append_right (Nat.le_of_not_lt left), ← at_i]
      congr 1
      omega

/-- What was written is there. -/
theorem holds_write (wrote : cells.write offset src = some cells') :
    cells'.Holds offset src := by
  obtain ⟨inside, rfl⟩ := write_eq_some wrote
  have before : (cells.take offset).length = offset := List.length_take_of_le (by omega)
  refine holds_iff.mpr ⟨?_, fun i small => ?_⟩
  · simp only [List.length_append, List.length_take, List.length_map, List.length_drop]
    omega
  · rw [List.getElem?_append_right (by omega), before, Nat.add_sub_cancel_left,
      List.getElem?_append_left (by simpa using small)]
    simp [small]

theorem getElem?_write (wrote : cells.write offset src = some cells') {i : Nat}
    (apart : i < offset ∨ offset + src.length ≤ i) : cells'[i]? = cells[i]? := by
  obtain ⟨inside, rfl⟩ := write_eq_some wrote
  have before : (cells.take offset).length = offset := List.length_take_of_le (by omega)
  rcases apart with left | right
  · rw [List.getElem?_append_left (by omega), List.getElem?_take_of_lt left]
  · rw [List.getElem?_append_right (by omega), List.getElem?_append_right (by simp; omega), before,
      List.getElem?_drop, List.length_map]
    congr 1
    omega

/-- What is apart from the written cells stays. -/
theorem Holds.write (holds : cells.Holds start vals)
    (wrote : cells.write offset src = some cells')
    (apart : start + vals.length ≤ offset ∨ offset + src.length ≤ start) :
    cells'.Holds start vals := by
  obtain ⟨inside, same⟩ := holds_iff.mp holds
  refine holds_iff.mpr ⟨(length_write wrote).symm ▸ inside, fun i small => ?_⟩
  rw [getElem?_write wrote (by omega)]
  exact same i small

/-- What the cells hold already is written again. -/
theorem write_same (holds : cells.Holds offset src)
    (wrote : cells.write offset src = some cells') : cells' = cells := by
  apply List.ext_getElem?
  intro i
  by_cases apart : i < offset ∨ offset + src.length ≤ i
  · exact getElem?_write wrote apart
  · have place : i = offset + (i - offset) := by omega
    have small : i - offset < src.length := by omega
    have written := (holds_iff.mp (holds_write wrote)).2 (i - offset) small
    have before := (holds_iff.mp holds).2 (i - offset) small
    rw [place, written, before]

theorem Holds.of_isPrefix {more : List α} (holds : cells.Holds offset more)
    (front : vals <+: more) : cells.Holds offset vals := by
  obtain ⟨rest, rfl⟩ := front
  exact (holds_append.mp holds).1

/-- Values that agree with what is written behind `vals`, as far as both go, stay. -/
theorem Holds.write_agree {others : List α} (holds : cells.Holds offset others)
    (wrote : cells.write (offset + vals.length) src = some cells')
    (after : cells'.Holds offset (vals ++ src))
    (agree : vals ++ src <+: others ∨ others <+: vals ++ src) : cells'.Holds offset others := by
  rcases agree with shorter | longer
  · have held := holds_append.mp (holds.of_isPrefix shorter)
    rw [write_same held.2 wrote]
    exact holds
  · exact after.of_isPrefix longer

/-- Two writes one after the other. -/
theorem write_append {first second : List α} :
    cells.write offset (first ++ second) =
      (cells.write offset first).bind (·.write (offset + first.length) second) := by
  by_cases inside : offset + first.length ≤ cells.length
  · obtain ⟨middle, wrote⟩ := write_isSome inside
    have length := length_write wrote
    rw [wrote, Option.bind_some]
    unfold write
    rw [List.length_append, length, ← Nat.add_assoc]
    split
    · obtain ⟨-, rfl⟩ := write_eq_some wrote
      have before : (cells.take offset ++ first.map some).length = offset + first.length := by
        simp only [List.length_append, List.length_take, List.length_map]
        omega
      have after : List.drop (offset + first.length + second.length)
          (cells.take offset ++ first.map some ++ cells.drop (offset + first.length)) =
            cells.drop (offset + first.length + second.length) := by
        rw [List.drop_append, before, Nat.add_sub_cancel_left, List.drop_drop,
          List.drop_eq_nil_of_le (by omega), List.nil_append]
      rw [← List.append_assoc (cells.take offset) (first.map some), List.take_left' before, after]
      simp [List.append_assoc]
    · rfl
  · have outside : ¬ offset + (first ++ second).length ≤ cells.length := by
      rw [List.length_append]
      omega
    rw [write, if_neg outside, write, if_neg inside, Option.bind_none]

/-- What is in the first cells is in every block that begins with them. -/
theorem Holds.take (holds : cells.Holds offset vals) (fits : offset + vals.length ≤ n)
    (after : Cells α) : Holds (cells.take n ++ after) offset vals := by
  obtain ⟨inside, same⟩ := holds_iff.mp holds
  have length : (cells.take n).length = min n cells.length := List.length_take
  refine holds_iff.mpr ⟨?_, fun i small => ?_⟩
  · rw [List.length_append, length]
    omega
  · rw [List.getElem?_append_left (by omega), List.getElem?_take_of_lt (by omega)]
    exact same i small

end Cells

end Hiactor.Lib
