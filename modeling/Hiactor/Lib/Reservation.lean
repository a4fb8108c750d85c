import Mathlib.Algebra.BigOperators.Group.Finset.Basic
import Mathlib.Algebra.Order.BigOperators.Group.Finset
import Mathlib.Data.Int.CardIntervalMod
import Mathlib.Data.List.Count

/-!
# Ranges of a ring

A ring has `size` places. A range of numbers covers the places of their residues. Every element of
a list of keys reserves `each` numbers, and a key uses the numbers from its first reservation on,
as many as all its elements have reserved. The ranges of the keys are the reservations exactly when
equal keys stand together in the list.
-/

namespace Hiactor.Lib

/-! ## Ranges -/

/-- How often the range of `n` numbers from `start` covers a place. -/
def hits (size start n place : Nat) : Nat := Nat.count (fun i => (start + i) % size = place) n

theorem hits_add (size start n k place : Nat) :
    hits size start (n + k) place = hits size start n place + hits size (start + n) k place := by
  simp only [hits, Nat.count_add, Nat.add_assoc]

theorem hits_zero (size start place : Nat) : hits size start 0 place = 0 := Nat.count_zero _

theorem hits_one (size start place : Nat) :
    hits size start 1 place = if start % size = place then 1 else 0 := by
  simp [hits, Nat.count_succ]

/-- A range from zero covers all places equally often, up to one. -/
theorem hits_le_succ {size x y : Nat} (n : Nat) (inside : x < size) (inside' : y < size) :
    hits size 0 n x ≤ hits size 0 n y + 1 := by
  have count (place : Nat) (inside : place < size) :
      hits size 0 n place = n / size + if place < n % size then 1 else 0 := by
    have known := Nat.count_modEq_card n (Nat.zero_lt_of_lt inside) place
    simpa only [Nat.ModEq, Nat.mod_eq_of_lt inside, hits, Nat.zero_add] using known
  rw [count x inside, count y inside']
  split <;> split <;> omega

/-- A range that does not go around the ring. -/
theorem hits_of_le {size start n place : Nat} (short : start + n ≤ size) :
    hits size start n place = if start ≤ place ∧ place < start + n then 1 else 0 := by
  induction n with
  | zero =>
    rw [hits_zero, if_neg (by omega)]
  | succ n ih =>
    rw [hits_add, ih (by omega), hits_one, Nat.mod_eq_of_lt (by omega)]
    split <;> split <;> split <;> omega

/-! ## Keys -/

section keys

variable {α : Type}

/-- Equal keys stand together. -/
def Consecutive (keys : List α) : Prop :=
  ∀ i j k : Nat, i < j → j < k → k < keys.length → keys[i]? = keys[k]? → keys[j]? = keys[i]?

theorem Consecutive.tail {key : α} {keys : List α} (consecutive : Consecutive (key :: keys)) :
    Consecutive keys := by
  intro i j k before after inside same
  have lifted := consecutive (i + 1) (j + 1) (k + 1) (by omega) (by omega) (by simpa using inside)
  simpa using lifted (by simpa using same)

/-- A key that occurs again is the next one. -/
theorem Consecutive.head {key : α} {keys : List α} (consecutive : Consecutive (key :: keys))
    (again : key ∈ keys) : keys[0]? = some key := by
  obtain ⟨k, here⟩ := List.getElem?_of_mem again
  cases k with
  | zero => exact here
  | succ k =>
    have inside := (List.getElem?_eq_some_iff.mp here).1
    have next := consecutive 0 1 (k + 2) (by omega) (by omega) (by rw [List.length_cons]; omega)
    simpa using next (by simpa using here.symm)

variable [DecidableEq α]

/-- How often the keys cover a place, when the reservations begin at `start`. -/
def covered (size each start : Nat) (keys : List α) (place : Nat) : Nat :=
  ∑ key ∈ keys.toFinset,
    hits size (start + each * keys.idxOf key) (each * keys.count key) place

theorem covered_cons {size each start place : Nat} {key : α} {keys : List α}
    (consecutive : Consecutive (key :: keys)) :
    covered size each start (key :: keys) place =
      hits size start each place + covered size each (start + each) keys place := by
  -- the ranges of the other keys do not change
  have others : ∀ other, other ≠ key →
      hits size (start + each * (key :: keys).idxOf other)
          (each * (key :: keys).count other) place =
        hits size (start + each + each * keys.idxOf other) (each * keys.count other) place := by
    intro other different
    rw [List.idxOf_cons_ne _ (Ne.symm different), List.count_cons_of_ne (Ne.symm different),
      Nat.mul_succ, Nat.add_comm (each * _), Nat.add_assoc]
  unfold covered
  rw [List.toFinset_cons]
  by_cases again : key ∈ keys
  · have member : key ∈ keys.toFinset := List.mem_toFinset.mpr again
    have next : keys.idxOf key = 0 := by
      cases keys with
      | nil => cases again
      | cons first rest =>
        obtain rfl : first = key := by simpa using consecutive.head again
        exact List.idxOf_cons_self
    rw [Finset.insert_eq_of_mem member, ← Finset.add_sum_erase _ _ member,
      ← Finset.add_sum_erase keys.toFinset _ member, ← Nat.add_assoc]
    congr 1
    · rw [List.idxOf_cons_self, List.count_cons_self, next, Nat.mul_succ, Nat.add_comm (each * _),
        hits_add]
      rfl
    · exact Finset.sum_congr rfl fun other listed => others other (Finset.ne_of_mem_erase listed)
  · have fresh : key ∉ keys.toFinset := fun member => again (List.mem_toFinset.mp member)
    rw [Finset.sum_insert fresh]
    congr 1
    · rw [List.idxOf_cons_self, List.count_cons_self, List.count_eq_zero_of_not_mem again,
        Nat.zero_add, Nat.mul_one]
      rfl
    · exact Finset.sum_congr rfl fun other listed =>
        others other fun same => fresh (same ▸ listed)

theorem covered_of_consecutive {size each start place : Nat} {keys : List α}
    (consecutive : Consecutive keys) :
    covered size each start keys place = hits size start (each * keys.length) place := by
  induction keys generalizing start with
  | nil => simp [covered, hits_zero]
  | cons key keys ih =>
    rw [covered_cons consecutive, ih consecutive.tail, List.length_cons, Nat.mul_succ,
      Nat.add_comm (each * _), hits_add]

/-! ## Keys that do not stand together -/

/-- The range of a key ends inside the reservations. -/
theorem idxOf_add_count_le (key : α) (keys : List α) :
    keys.idxOf key + keys.count key ≤ keys.length := by
  induction keys with
  | nil => simp
  | cons first rest ih =>
    by_cases same : first = key
    · subst same
      rw [List.idxOf_cons_self, Nat.zero_add]
      exact List.count_le_length
    · rw [List.idxOf_cons_ne _ same, List.count_cons_of_ne same, List.length_cons]
      omega

theorem covered_eq_zero {size start place : Nat} {keys : List α}
    (large : start + keys.length ≤ size)
    (behind : start + keys.length ≤ place) : covered size 1 start keys place = 0 := by
  refine Finset.sum_eq_zero fun key _ => ?_
  have bound := idxOf_add_count_le key keys
  rw [Nat.one_mul, Nat.one_mul, hits_of_le (by omega), if_neg (by omega)]

/-- Elements from `i` to `j` that are all equal, and one more. -/
theorem lt_count_of_getElem? {key : α} {keys : List α} {i j k : Nat}
    (all : ∀ n, i ≤ n → n < j → keys[n]? = some key) (later : j ≤ k) (again : keys[k]? = some key) :
    j - i < keys.count key := by
  rcases Nat.lt_or_ge i j with before | after
  case inr =>
    rw [Nat.sub_eq_zero_of_le after]
    exact List.count_pos_iff.mpr (List.mem_of_getElem? again)
  case inl =>
    have inside := (List.getElem?_eq_some_iff.mp again).1
    have block : ((keys.drop i).take (j - i)).count key = j - i := by
      have length : ((keys.drop i).take (j - i)).length = j - i := by
        rw [List.length_take, List.length_drop]
        omega
      rw [List.count_eq_length.mpr, length]
      intro other member
      obtain ⟨n, here⟩ := List.getElem?_of_mem member
      have short := (List.getElem?_eq_some_iff.mp here).1
      rw [List.getElem?_take_of_lt (by omega), List.getElem?_drop,
        all (i + n) (by omega) (by omega)] at here
      exact Option.some.inj here
    have last : 0 < (keys.drop j).count key := by
      refine List.count_pos_iff.mpr (List.mem_of_getElem? (i := k - j) ?_)
      rw [List.getElem?_drop, Nat.add_sub_cancel' later, again]
    have split : keys = keys.take i ++ ((keys.drop i).take (j - i) ++ keys.drop j) := by
      have rest : (keys.drop i).drop (j - i) = keys.drop j := by
        rw [List.drop_drop, Nat.add_sub_cancel' before.le]
      rw [← rest, List.take_append_drop, List.take_append_drop]
    rw [split, List.count_append, List.count_append, block]
    omega

theorem idxOf_le_of_getElem? {key : α} {keys : List α} {n : Nat} (here : keys[n]? = some key) :
    keys.idxOf key ≤ n := by
  induction keys generalizing n with
  | nil => simp at here
  | cons first rest ih =>
    by_cases same : first = key
    · subst same
      rw [List.idxOf_cons_self]
      exact Nat.zero_le n
    · cases n with
      | zero => exact absurd (by simpa using here) same
      | succ n =>
        rw [List.idxOf_cons_ne _ same]
        exact Nat.succ_le_succ (ih (by simpa using here))

/-- The first key that stands between two equal ones is new, and behind it there is still one of
those. -/
theorem exists_between {keys : List α} (apart : ¬Consecutive keys) :
    ∃ (j k : Nat) (key other : α), key ≠ other ∧ j < k ∧ keys[j]? = some other ∧
      keys[k]? = some key ∧ keys.idxOf other = j ∧ keys.idxOf key < j ∧
      ∀ n, keys.idxOf key ≤ n → n < j → keys[n]? = some key := by
  classical
  have between : ∃ j i k, i < j ∧ j < k ∧ k < keys.length ∧ keys[i]? = keys[k]? ∧
      keys[j]? ≠ keys[i]? := by
    simp only [Consecutive, not_forall] at apart
    obtain ⟨i, j, k, before, after, inside, same, other⟩ := apart
    exact ⟨j, i, k, before, after, inside, same, other⟩
  obtain ⟨j, ⟨i, k, before, after, inside, same, different⟩, least⟩ :
      ∃ j, (∃ i k, i < j ∧ j < k ∧ k < keys.length ∧ keys[i]? = keys[k]? ∧ keys[j]? ≠ keys[i]?) ∧
        ∀ n < j, ∀ i k, i < n → n < k → k < keys.length → keys[i]? = keys[k]? →
          keys[n]? = keys[i]? := by
    refine ⟨Nat.find between, Nat.find_spec between, fun n lower i k before after inside same => ?_⟩
    by_contra different
    exact Nat.find_min between lower ⟨i, k, before, after, inside, same, different⟩
  obtain ⟨key, there⟩ : ∃ key, keys[k]? = some key := ⟨_, List.getElem?_eq_getElem inside⟩
  obtain ⟨other, here⟩ : ∃ other, keys[j]? = some other :=
    ⟨_, List.getElem?_eq_getElem (after.trans inside)⟩
  rw [there] at same
  have first := idxOf_le_of_getElem? same
  have found : keys[keys.idxOf key]? = some key := List.getElem?_idxOf (List.mem_of_getElem? there)
  refine ⟨j, k, key, other, ?_, after, here, there, ?_, by omega, fun n lower upper => ?_⟩
  · rintro rfl
    exact different (here.trans same.symm)
  · -- had it occurred before, it would have stood apart already
    refine Nat.le_antisymm (idxOf_le_of_getElem? here) (Nat.le_of_not_lt fun earlier => ?_)
    have found' : keys[keys.idxOf other]? = some other :=
      List.getElem?_idxOf (List.mem_of_getElem? here)
    rcases Nat.lt_trichotomy (keys.idxOf other) i with left | equal | right
    · have again := least i before _ j left before (after.trans inside) (found'.trans here.symm)
      exact different (here.trans (again.trans found').symm)
    · rw [equal] at found'
      exact different (here.trans found'.symm)
    · have again := least _ earlier i k right (earlier.trans after) inside (same.trans there.symm)
      exact different (here.trans (found'.symm.trans again))
  · rcases Nat.eq_or_lt_of_le lower with rfl | later
    · exact found
    · exact (least n upper _ k later (upper.trans after) inside (found.trans there.symm)).trans
        found

/-- Two ranges then have a place in common. -/
theorem exists_two_le_covered {size start : Nat} {keys : List α} (apart : ¬Consecutive keys)
    (large : start + keys.length ≤ size) :
    ∃ j < keys.length, 2 ≤ covered size 1 start keys (start + j) := by
  obtain ⟨j, k, key, other, different, after, here, there, first, before, block⟩ :=
    exists_between apart
  have inside := (List.getElem?_eq_some_iff.mp here).1
  have many := lt_count_of_getElem? block after.le there
  have some_other : 0 < keys.count other := List.count_pos_iff.mpr (List.mem_of_getElem? here)
  have bound := idxOf_add_count_le key keys
  have bound' := idxOf_add_count_le other keys
  refine ⟨j, inside, ?_⟩
  have pair : ({key, other} : Finset α) ⊆ keys.toFinset := by
    intro one member
    rcases Finset.mem_insert.mp member with rfl | member
    · exact List.mem_toFinset.mpr (List.mem_of_getElem? there)
    · rw [Finset.mem_singleton.mp member]
      exact List.mem_toFinset.mpr (List.mem_of_getElem? here)
  calc
    2 = ∑ one ∈ ({key, other} : Finset α),
        hits size (start + 1 * keys.idxOf one) (1 * keys.count one) (start + j) := by
      rw [Finset.sum_pair different]
      simp only [Nat.one_mul]
      rw [hits_of_le (by omega), hits_of_le (by omega), if_pos (by omega), if_pos (by omega)]
    _ ≤ covered size 1 start keys (start + j) := Finset.sum_le_sum_of_subset pair

end keys

end Hiactor.Lib
