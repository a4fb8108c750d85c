import Mathlib.Data.List.Basic
import Mathlib.Tactic.Common
import Mathlib.Tactic.Ring

/-!
# Little-endian integers and byte buffers

Integers are stored with their least significant byte first. A buffer is a list of bytes;
`slice` reads a range of it and `overwrite` is `memcpy` into it.
-/

namespace Hiactor.Lib

/-- The `width` bytes of `n`, least significant first. -/
def leBytes : Nat → Nat → List UInt8
  | 0, _ => []
  | width + 1, n => UInt8.ofNat (n % 256) :: leBytes width (n / 256)

/-- The number that a sequence of bytes stands for. -/
def leNat : List UInt8 → Nat
  | [] => 0
  | b :: bs => b.toNat + 256 * leNat bs

@[simp] theorem length_leBytes (width n : Nat) : (leBytes width n).length = width := by
  induction width generalizing n with
  | zero => rfl
  | succ width ih => simp [leBytes, ih]

theorem leNat_leBytes (width n : Nat) : leNat (leBytes width n) = n % 256 ^ width := by
  induction width generalizing n with
  | zero => simp [leBytes, leNat, Nat.mod_one]
  | succ width ih =>
    have head : (UInt8.ofNat (n % 256)).toNat = n % 256 := by
      simp
    rw [leBytes, leNat, ih, head, Nat.pow_succ', Nat.mod_mul]

theorem leNat_lt (bs : List UInt8) : leNat bs < 256 ^ bs.length := by
  induction bs with
  | nil => simp [leNat]
  | cons b bs ih =>
    have byte : b.toNat < 256 := b.toNat_lt
    rw [leNat, List.length_cons, Nat.pow_succ']
    omega

theorem leBytes_leNat (bs : List UInt8) : leBytes bs.length (leNat bs) = bs := by
  induction bs with
  | nil => rfl
  | cons b bs ih =>
    have byte : b.toNat < 256 := b.toNat_lt
    have low : (b.toNat + 256 * leNat bs) % 256 = b.toNat := by omega
    have high : (b.toNat + 256 * leNat bs) / 256 = leNat bs := by omega
    rw [leNat, List.length_cons, leBytes, low, high, ih, UInt8.ofNat_toNat]

theorem leBytes_add (width extra n : Nat) :
    leBytes (width + extra) n = leBytes width n ++ leBytes extra (n / 256 ^ width) := by
  induction width generalizing n with
  | zero => simp [leBytes]
  | succ width ih =>
    rw [Nat.add_right_comm, leBytes, leBytes, ih, List.cons_append, Nat.div_div_eq_div_mul,
      Nat.pow_succ']

theorem leBytes_mod (width n : Nat) : leBytes width (n % 256 ^ width) = leBytes width n := by
  induction width generalizing n with
  | zero => rfl
  | succ width ih =>
    rw [leBytes, leBytes, Nat.pow_succ', Nat.mod_mul_right_mod, Nat.mod_mul_right_div_self, ih]

/-- The `n` bytes from `offset` on. -/
def slice (bs : List UInt8) (offset n : Nat) : List UInt8 := (bs.drop offset).take n

/-- `memcpy(bs + offset, src, src.length)`. -/
def overwrite (bs : List UInt8) (offset : Nat) (src : List UInt8) : List UInt8 :=
  bs.take offset ++ src ++ bs.drop (offset + src.length)

theorem length_overwrite {bs src : List UInt8} {offset : Nat}
    (inside : offset + src.length ≤ bs.length) :
    (overwrite bs offset src).length = bs.length := by
  simp [overwrite]
  omega

theorem length_slice {bs : List UInt8} {offset n : Nat} (inside : offset + n ≤ bs.length) :
    (slice bs offset n).length = n := by
  simp [slice]
  omega

/-- What has just been written is read back. -/
theorem slice_overwrite_self {bs src : List UInt8} {offset : Nat}
    (inside : offset + src.length ≤ bs.length) :
    slice (overwrite bs offset src) offset src.length = src := by
  have front : (bs.take offset).length = offset := by simp; omega
  rw [slice, overwrite, List.append_assoc, List.drop_append_of_le_length (by omega),
    List.drop_eq_nil_of_le (by omega), List.nil_append, List.take_left]

/-- A range that ends before the written bytes is unchanged. -/
theorem slice_overwrite_before {bs src : List UInt8} {offset start n : Nat}
    (inside : offset + src.length ≤ bs.length) (before : start + n ≤ offset) :
    slice (overwrite bs offset src) start n = slice bs start n := by
  have front : (bs.take offset).length = offset := by simp; omega
  rw [slice, overwrite, List.append_assoc, List.drop_append_of_le_length (by omega),
    List.take_append_of_le_length (by simp; omega), List.drop_take, slice, List.take_take,
    Nat.min_eq_left (by omega)]

theorem take_overwrite_end {bs src : List UInt8} {offset : Nat}
    (inside : offset + src.length ≤ bs.length) :
    (overwrite bs offset src).take (offset + src.length) = bs.take offset ++ src := by
  have front : (bs.take offset ++ src).length = offset + src.length := by simp; omega
  rw [overwrite, ← front, List.take_left]

theorem take_overwrite_before {bs src : List UInt8} {offset n : Nat}
    (inside : offset + src.length ≤ bs.length) (before : n ≤ offset) :
    (overwrite bs offset src).take n = bs.take n := by
  have start : slice (overwrite bs offset src) 0 n = slice bs 0 n :=
    slice_overwrite_before inside (by omega)
  simpa [slice] using start

theorem drop_overwrite {bs src : List UInt8} {offset : Nat}
    (inside : offset + src.length ≤ bs.length) :
    (overwrite bs offset src).drop offset = src ++ bs.drop (offset + src.length) := by
  rw [overwrite, List.append_assoc]
  exact List.drop_left' (by simp; omega)

theorem slice_take {bs : List UInt8} {offset n len : Nat} (inside : offset + n ≤ len) :
    slice (bs.take len) offset n = slice bs offset n := by
  rw [slice, slice, List.drop_take, List.take_take, Nat.min_eq_left (by omega)]

/-- The middle part of a concatenation. -/
theorem slice_append (before middle after : List UInt8) :
    slice (before ++ middle ++ after) before.length middle.length = middle := by
  rw [slice, List.append_assoc, List.drop_left, List.take_left]

theorem slice_add (bs : List UInt8) (offset n k : Nat) :
    slice bs offset (n + k) = slice bs offset n ++ slice bs (offset + n) k := by
  rw [slice, slice, slice, List.take_add, List.drop_drop]

end Hiactor.Lib
