import Mathlib.Algebra.Ring.Int.Defs
import Mathlib.Algebra.Ring.Nat

/-!
# Machinery/CInt — small numbers in C's integer types

The code passes lengths through `int`, `unsigned` and `uint64_t`.  A number below `2 ^ 31` comes out
of every conversion as it went in, and a positive `int` is such a number (`exists_ofNat_of_pos`).
A counter comes round after `2 ^ 32` steps (`add_ofNat_eq_self_iff`).
-/

namespace Int32

variable {n : ℕ}

theorem toNat_toUInt32_ofNat (h : n < 2 ^ 31) : (Int32.ofNat n).toUInt32.toNat = n := by
  change (BitVec.ofNat 32 n).toNat = n
  rw [BitVec.toNat_ofNat]
  omega

/-- Widening a length to `uint64_t` keeps it: the sign that is extended is 0. -/
theorem toNat_toUInt64_ofNat (h : n < 2 ^ 31) : (Int32.ofNat n).toInt64.toUInt64.toNat = n := by
  change ((BitVec.ofNat 32 n).signExtend 64).toNat = n
  have hm : (BitVec.ofNat 32 n).msb = false := by
    rw [BitVec.msb_eq_false_iff_two_mul_lt, BitVec.toNat_ofNat]
    omega
  rw [BitVec.signExtend_eq_setWidth_of_msb_false hm, BitVec.toNat_setWidth, BitVec.toNat_ofNat]
  omega

theorem ofNat_eq_zero_iff (h : n < 2 ^ 31) : Int32.ofNat n = 0 ↔ n = 0 := by
  rw [← Int32.toInt_inj, Int32.toInt_ofNat_of_lt h]
  exact Int.natCast_eq_zero

/-- **A counter that advances comes back exactly after multiples of `2 ^ 32` steps.** -/
theorem add_ofNat_eq_self_iff (x : Int32) : x + Int32.ofNat n = x ↔ 2 ^ 32 ∣ n := by
  have hzero : x + Int32.ofNat n = x ↔ Int32.ofNat n = 0 := by
    conv_lhs => rhs; rw [← Int32.add_zero x]
    exact Int32.add_right_inj x
  rw [hzero, ← Int32.toBitVec_inj, Nat.dvd_iff_mod_eq_zero]
  exact BitVec.toNat_inj.symm.trans (by rw [← BitVec.toNat_ofNat]; rfl)

/-- An `int` that is not negative is a length. -/
theorem exists_ofNat_of_nonneg {x : Int32} (h : 0 ≤ x.toInt) :
    ∃ n, n < 2 ^ 31 ∧ x = Int32.ofNat n ∧ x.toInt = n := by
  have h1 := x.toInt_lt
  refine ⟨x.toInt.toNat, by omega, ?_, by omega⟩
  apply Int32.toInt_inj.1
  rw [Int32.toInt_ofNat_of_lt (by omega)]
  omega

/-- A positive `int` is a positive length. -/
theorem exists_ofNat_of_pos {x : Int32} (h : 0 < x) :
    ∃ n, 0 < n ∧ n < 2 ^ 31 ∧ x = Int32.ofNat n := by
  have h0 : 0 < x.toInt := by simpa using Int32.lt_iff_toInt_lt.1 h
  obtain ⟨n, hn, rfl, hx⟩ := exists_ofNat_of_nonneg (Int.le_of_lt h0)
  exact ⟨n, by omega, hn, rfl⟩

/-- **A sum of two `int`s is small and not negative exactly when it is so before it wraps** — if the
first is, a sum too large for an `int` comes out negative. -/
theorem toInt_add_mem_iff {x y : Int32} {b : ℤ} (h0 : 0 ≤ x.toInt) (h1 : x.toInt ≤ b)
    (hb : b < 2 ^ 31) :
    (0 ≤ (x + y).toInt ∧ (x + y).toInt ≤ b) ↔ 0 ≤ x.toInt + y.toInt ∧ x.toInt + y.toInt ≤ b := by
  have hlo := y.le_toInt
  have hhi := y.toInt_lt
  have hsize : ((2 ^ 32 : ℕ) : ℤ) = 4294967296 := rfl
  rw [Int32.toInt_add, Int.bmod_def, hsize]
  split <;> omega

end Int32
