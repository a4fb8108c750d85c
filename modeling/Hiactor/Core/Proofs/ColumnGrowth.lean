import Hiactor.Core.Proofs.ColumnBatch

/-!
# Growing columns

The reservation of a batch is doubled in 32 bits until it has room. Over all pushes it runs through
the doublings of the first reservation, so that the pushes return exactly when one of these has room
for all units together.
-/

namespace Hiactor

open Lib

variable {α : Type} {rounds : Nat}

/-- A reservation after some rounds of the loop. -/
def doubled : Nat → UInt32 → UInt32
  | 0, reserved => reserved
  | n + 1, reserved => doubled n (reserved * 2)

theorem toNat_doubled (n : Nat) (reserved : UInt32) :
    (doubled n reserved).toNat = reserved.toNat * 2 ^ n % 2 ^ 32 := by
  induction n generalizing reserved with
  | zero =>
    rw [doubled, Nat.pow_zero, Nat.mul_one]
    exact (Nat.mod_eq_of_lt reserved.toNat_lt).symm
  | succ n ih =>
    have two : (2 : UInt32).toNat = 2 := rfl
    rw [doubled, ih, UInt32.toNat_mul, two, Nat.mod_mul_mod, Nat.mul_assoc, ← Nat.pow_succ']

theorem doubled_doubled (m n : Nat) (reserved : UInt32) :
    doubled m (doubled n reserved) = doubled (n + m) reserved := by
  induction n generalizing reserved with
  | zero => rw [doubled, Nat.zero_add]
  | succ n ih => rw [doubled, ih, Nat.succ_add, doubled]

/-- The loop yields a doubling, and the first one with room. -/
theorem doubleReserved_eq_doubled {reserved required found : UInt32}
    (returned : doubleReserved rounds reserved required = some found) :
    ∃ n, found = doubled (n + 1) reserved := by
  induction rounds generalizing reserved with
  | zero => cases returned
  | succ rounds ih =>
    rw [doubleReserved] at returned
    split at returned
    · obtain ⟨n, rfl⟩ := ih returned
      exact ⟨n + 1, rfl⟩
    · exact ⟨0, (Option.some.inj returned).symm⟩

theorem doubleReserved_returns {reserved required : UInt32} {n : Nat} (bound : n < rounds)
    (enough : required ≤ doubled (n + 1) reserved) :
    ∃ m ≤ n, doubleReserved rounds reserved required = some (doubled (m + 1) reserved) := by
  induction rounds generalizing reserved n with
  | zero => cases bound
  | succ rounds ih =>
    rw [doubleReserved]
    split
    · next small =>
      cases n with
      | zero => exact absurd small (UInt32.not_lt.mpr enough)
      | succ n =>
        obtain ⟨m, before, found⟩ := ih (Nat.lt_of_succ_lt_succ bound) enough
        exact ⟨m + 1, Nat.succ_le_succ before, found⟩
    · exact ⟨0, Nat.zero_le n, rfl⟩

namespace BufWrapper

variable {bw bw' : BufWrapper α} {len : UInt32} {vals : List α}

theorem ensureSpace_reserved (ensured : bw.ensureSpace rounds len = some bw') :
    ∃ n, bw'.reserved = doubled n bw.reserved := by
  unfold ensureSpace at ensured
  split at ensured
  · obtain ⟨found, returned, reallocated⟩ := Option.bind_eq_some_iff.mp ensured
    obtain ⟨n, rfl⟩ := doubleReserved_eq_doubled returned
    unfold reallocate at reallocated
    split at reallocated
    · obtain rfl := Option.some.inj reallocated
      exact ⟨n + 1, rfl⟩
    · cases reallocated
  · exact ⟨0, congrArg BufWrapper.reserved (Option.some.inj ensured).symm⟩

/-- With room after some doublings the call returns after no more of them. -/
theorem Keeps.ensureSpace_returns {n : Nat} (keeps : bw.Keeps vals)
    (fits : vals.length + len.toNat < 2 ^ 32) (bound : n ≤ rounds)
    (enough : vals.length + len.toNat ≤ (doubled n bw.reserved).toNat) :
    ∃ bw' m, bw.ensureSpace rounds len = some bw' ∧ m ≤ n ∧
      bw'.reserved = doubled m bw.reserved := by
  have required : (bw.occupied + len).toNat = vals.length + len.toNat := by
    rw [UInt32.toNat_add, keeps.occupied]
    exact Nat.mod_eq_of_lt fits
  unfold BufWrapper.ensureSpace
  split
  · next more =>
    cases n with
    | zero =>
      have more := UInt32.lt_iff_toNat_lt.mp more
      rw [doubled] at enough
      omega
    | succ n =>
      rw [← required, ← UInt32.le_iff_toNat_le] at enough
      obtain ⟨m, before, found⟩ := doubleReserved_returns bound enough
      have room : bw.occupied ≤ doubled (m + 1) bw.reserved := by
        have found_enough := UInt32.le_iff_toNat_le.mp (doubleReserved_le found)
        have occupied := keeps.occupied
        rw [UInt32.le_iff_toNat_le]
        omega
      obtain ⟨bw', reallocated, -, -, -, reserved⟩ := keeps.reallocate room
      exact ⟨bw', m + 1, by rw [found]; exact reallocated, Nat.succ_le_succ before, reserved⟩
  · exact ⟨bw, 0, rfl, Nat.zero_le n, rfl⟩

end BufWrapper

namespace DynamicColumnBatch

variable {b b' : DynamicColumnBatch α} {es : List (List α)} {e : List α}
  {ps : List (DynamicPush α)}

/-- Each push's `ensure_space` returns and leaves room for what is pushed. -/
def EachEnsured (rounds : Nat) : DynamicColumnBatch α → List (DynamicPush α) → Prop
  | _, [] => True
  | b, p :: ps => ∃ bw b', b.bw.ensureSpace rounds (UInt32.ofNat p.element.length) = some bw ∧
      b.bw.occupied.toNat + p.element.length ≤ bw.reserved.toNat ∧
      b.pushBack rounds p = some b' ∧ EachEnsured rounds b' ps

/-- Within its capacity the batch takes an element when `ensure_space` returns. -/
theorem Filled.pushBack_returns {p : DynamicPush α} {bw : BufWrapper α} (filled : b.Filled es)
    (fits : es.flatten.length + p.element.length < 2 ^ 32) (room : es.length < b.capacity.toNat)
    (ensured : b.bw.ensureSpace rounds (UInt32.ofNat p.element.length) = some bw) :
    ∃ b', b.pushBack rounds p = some b' ∧ b'.bw.reserved = bw.reserved := by
  have len : (UInt32.ofNat p.element.length).toNat = p.element.length := toNat_length (by omega)
  obtain ⟨keeps, same_meta⟩ := filled.units.ensureSpace ensured
  have enough := filled.units.ensureSpace_room (by rw [len]; exact fits) ensured
  have size := filled.size
  have capacity := filled.capacity
  have occupied := keeps.occupied
  have reserved := keeps.reserved
  let record : Metadata := ⟨bw.occupied, UInt32.ofNat p.element.length⟩
  have inside_metas : b.size.toNat + [record].length ≤ bw.metaBuf.metas.length := by
    rw [same_meta, List.length_singleton]
    omega
  have inside_data : bw.occupied.toNat + p.element.length ≤ bw.dataBuf.length := by omega
  obtain ⟨metas, wrote_meta⟩ := Cells.write_isSome inside_metas
  obtain ⟨dataBuf, wrote_data⟩ := Cells.write_isSome inside_data
  have pushed := pushBackHelper_iff.mpr ⟨bw, metas, dataBuf, ensured, wrote_meta, wrote_data, rfl⟩
  rw [filled.pushBack_eq]
  exact ⟨_, pushed, rfl⟩

theorem pushBackHelper_reserved {bw : BufWrapper α}
    (ensured : b.bw.ensureSpace rounds (UInt32.ofNat e.length) = some bw)
    (pushed : b.pushBackHelper rounds e = some b') : b'.bw.reserved = bw.reserved := by
  obtain ⟨bw', metas, dataBuf, ensured', -, -, rfl⟩ := pushBackHelper_iff.mp pushed
  rw [Option.some.inj (ensured.symm.trans ensured')]

theorem length_elements_cons (p : DynamicPush α) :
    (elements (p :: ps)).flatten.length = p.element.length + (elements ps).flatten.length := by
  simp [elements]

/-- With room after some doublings of the reservation all pushes return. -/
theorem Filled.eachEnsured {n : Nat} (filled : b.Filled es)
    (fits : es.flatten.length + (elements ps).flatten.length < 2 ^ 32)
    (within : es.length + ps.length ≤ b.capacity.toNat) (bound : n ≤ rounds)
    (enough : es.flatten.length + (elements ps).flatten.length ≤
      (doubled n b.bw.reserved).toNat) : b.EachEnsured rounds ps := by
  induction ps generalizing b es n with
  | nil => trivial
  | cons p ps ih =>
    rw [length_elements_cons] at fits enough
    rw [List.length_cons] at within
    have len : (UInt32.ofNat p.element.length).toNat = p.element.length := toNat_length (by omega)
    have fits_one : es.flatten.length + (UInt32.ofNat p.element.length).toNat < 2 ^ 32 := by omega
    obtain ⟨bw, m, ensured, before, reserved⟩ :=
      filled.units.ensureSpace_returns fits_one bound (by omega)
    have room := filled.units.ensureSpace_room fits_one ensured
    obtain ⟨b', pushed, same⟩ := filled.pushBack_returns (by omega) (by omega) ensured
    obtain ⟨filled', capacity⟩ := filled.pushBack pushed
    have fewer : n - m ≤ rounds := by omega
    refine ⟨bw, b', ensured, ?_, pushed, ih filled' ?_ ?_ fewer ?_⟩
    · rw [filled.units.occupied]
      omega
    · simp only [List.flatten_append, List.flatten_singleton, List.length_append]
      omega
    · rw [capacity, List.length_append, List.length_singleton]
      omega
    · rw [same, reserved, doubled_doubled, Nat.add_sub_cancel' before]
      simp only [List.flatten_append, List.flatten_singleton, List.length_append]
      omega

/-- When all pushes return, the last reservation is a doubling of the first one with room. -/
theorem Filled.doubled_enough (filled : b.Filled es)
    (fits : es.flatten.length + (elements ps).flatten.length < 2 ^ 32)
    (each : b.EachEnsured rounds ps) :
    ∃ n, es.flatten.length + (elements ps).flatten.length ≤ (doubled n b.bw.reserved).toNat := by
  induction ps generalizing b es with
  | nil =>
    have occupied := UInt32.le_iff_toNat_le.mp filled.units.occupied_le
    rw [filled.units.occupied] at occupied
    exact ⟨0, occupied⟩
  | cons p ps ih =>
    obtain ⟨bw, b', ensured, -, pushed, rest⟩ := each
    rw [length_elements_cons] at fits ⊢
    obtain ⟨filled', -⟩ := filled.pushBack pushed
    have longer : (es ++ [p.element]).flatten.length = es.flatten.length + p.element.length := by
      simp
    obtain ⟨n, enough⟩ := ih filled' (by omega) rest
    obtain ⟨m, reserved⟩ := BufWrapper.ensureSpace_reserved ensured
    rw [filled.pushBack_eq] at pushed
    rw [pushBackHelper_reserved ensured pushed, reserved, doubled_doubled] at enough
    exact ⟨m + n, by omega⟩

/-- The pushes return exactly when some doubling of the first reservation, in 32 bits, has room for
the units of all of them. -/
theorem eachEnsured_iff {capacity initReserved : UInt32} (within : ps.length ≤ capacity.toNat)
    (fits : (ps.map (·.element.length)).sum < 2 ^ 32) :
    (∃ rounds, (new capacity initReserved).EachEnsured rounds ps) ↔
      ∃ n, (ps.map (·.element.length)).sum ≤ initReserved.toNat * 2 ^ n % 2 ^ 32 := by
  have filled : (new capacity initReserved : DynamicColumnBatch α).Filled [] :=
    filled_new capacity initReserved
  have units : ([] : List (List α)).flatten.length + (elements ps).flatten.length =
      (ps.map (·.element.length)).sum := by
    rw [units_elements]
    exact Nat.zero_add _
  constructor
  · rintro ⟨rounds, each⟩
    obtain ⟨n, enough⟩ := filled.doubled_enough (by omega) each
    rw [units, toNat_doubled] at enough
    exact ⟨n, enough⟩
  · rintro ⟨n, enough⟩
    rw [← units, ← toNat_doubled] at enough
    have room : ([] : List (List α)).length + ps.length ≤ capacity.toNat := by
      rw [List.length_nil, Nat.zero_add]
      exact within
    exact ⟨n, filled.eachEnsured (by omega) room (Nat.le_refl n) enough⟩

theorem eachEnsured_three :
    (∃ rounds, (new 4 2 : DynamicColumnBatch Nat).EachEnsured rounds threePushes) ↔
      ∃ n, (threePushes.map (·.element.length)).sum ≤ (2 : UInt32).toNat * 2 ^ n % 2 ^ 32 :=
  eachEnsured_iff (by decide) (by decide)

/-- A reservation of zero is doubled for ever. -/
theorem no_room_found (rounds : Nat) : doubleReserved rounds 0 1 = none := by
  induction rounds with
  | zero => rfl
  | succ rounds ih => exact ih

theorem empty_reservation_hangs :
    ¬ ∃ rounds, (new 1 0 : DynamicColumnBatch Nat).EachEnsured rounds [⟨[7], none⟩] := by
  rintro ⟨rounds, bw, -, ensured, -⟩
  have hangs : (new 1 0 : DynamicColumnBatch Nat).bw.ensureSpace rounds 1 =
      (doubleReserved rounds 0 1).bind (new 1 0 : DynamicColumnBatch Nat).bw.reallocate := rfl
  have len : UInt32.ofNat (DynamicPush.element (⟨[7], none⟩ : DynamicPush Nat)).length = 1 := rfl
  rw [len, hangs, no_room_found] at ensured
  cases ensured

end DynamicColumnBatch

end Hiactor
