import Mathlib.Algebra.Polynomial.Div
import Mathlib.Data.Nat.Bitwise
import Mathlib.Data.Nat.Size
import Mathlib.Algebra.Field.ZMod
import Mathlib.Tactic.Ring

/-!
# Machinery/Gf2 — numbers read as polynomials over `GF(2)`

The bits of a number are the coefficients of a polynomial (`poly`): exclusive or adds, a shift
multiplies by a power of `X`, and a number below `2 ^ k` has degree below `k`.  `Congr d` is
congruence modulo `poly d`; a number of degree below that of `d` is the residue of whatever it is
congruent to (`Congr.eq_modByMonic`).
-/

namespace Gf2

open Polynomial

/-- The coefficient a bit stands for. -/
def coeffOf (b : Bool) : ZMod 2 := if b then 1 else 0

/-- **The polynomial whose coefficients are the bits of a number.** -/
noncomputable def poly (n : ℕ) : (ZMod 2)[X] :=
  ∑ i ∈ Finset.range n.size, C (coeffOf (n.testBit i)) * X ^ i

variable {a b d k m n : ℕ}

theorem coeffOf_xor (a b : Bool) : coeffOf (a ^^ b) = coeffOf a + coeffOf b := by
  cases a <;> cases b <;> decide

theorem coeffOf_injective : Function.Injective coeffOf := by decide

theorem testBit_of_size_le (h : n.size ≤ k) : n.testBit k = false :=
  Nat.testBit_lt_two_pow (Nat.size_le.1 h)

@[simp] theorem coeff_poly (n k : ℕ) : (poly n).coeff k = coeffOf (n.testBit k) := by
  simp only [poly, finsetSum_coeff, coeff_C_mul_X_pow]
  by_cases hk : k < n.size
  · rw [Finset.sum_eq_single_of_mem k (Finset.mem_range.2 hk) fun i _ hi => if_neg hi.symm,
      if_pos rfl]
  · rw [testBit_of_size_le (Nat.not_lt.1 hk)]
    refine Finset.sum_eq_zero fun i hi => if_neg ?_
    rintro rfl
    exact hk (Finset.mem_range.1 hi)

@[simp] theorem poly_zero : poly 0 = 0 := by
  ext i
  simp [coeffOf]

theorem poly_injective : Function.Injective poly := by
  intro a b h
  refine Nat.eq_of_testBit_eq fun i => coeffOf_injective ?_
  rw [← coeff_poly, ← coeff_poly, h]

/-- Exclusive or adds. -/
theorem poly_xor (a b : ℕ) : poly (a ^^^ b) = poly a + poly b := by
  ext i
  rw [coeff_add, coeff_poly, coeff_poly, coeff_poly, Nat.testBit_xor, coeffOf_xor]

/-- A number put before `k` other bits. -/
theorem poly_shiftLeft_or (a : ℕ) (hb : b < 2 ^ k) :
    poly (a <<< k ||| b) = X ^ k * poly a + poly b := by
  ext i
  rw [coeff_add, coeff_X_pow_mul', coeff_poly, coeff_poly, coeff_poly, Nat.testBit_or,
    Nat.testBit_shiftLeft]
  by_cases hi : k ≤ i
  · have hbi : b.testBit i = false :=
      Nat.testBit_lt_two_pow (hb.trans_le (Nat.pow_le_pow_right two_pos hi))
    simp [hi, hbi, coeffOf]
  · simp [hi]

/-- A left shift multiplies by a power of `X`. -/
theorem poly_shiftLeft (a k : ℕ) : poly (a <<< k) = X ^ k * poly a := by
  have h := poly_shiftLeft_or a (Nat.two_pow_pos k)
  rwa [Nat.or_zero, poly_zero, add_zero] at h

/-- A number is its high bits before its low ones. -/
theorem poly_split (n k : ℕ) : poly n = X ^ k * poly (n >>> k) + poly (n % 2 ^ k) := by
  rw [← poly_shiftLeft_or _ (Nat.mod_lt n (Nat.two_pow_pos k))]
  refine congrArg poly (Nat.eq_of_testBit_eq fun i => ?_)
  rw [Nat.testBit_or, Nat.testBit_shiftLeft, Nat.testBit_shiftRight, Nat.testBit_mod_two_pow]
  by_cases hi : k ≤ i
  · simp [hi, Nat.not_lt.2 hi]
  · simp [hi, Nat.not_le.1 hi]

/-- The low bits of a number, one more of them. -/
theorem poly_mod_two_pow_succ (n k : ℕ) :
    poly (n % 2 ^ (k + 1)) = poly (n % 2 ^ k) + C (coeffOf (n.testBit k)) * X ^ k := by
  ext i
  rw [coeff_add, coeff_C_mul_X_pow, coeff_poly, coeff_poly, Nat.testBit_mod_two_pow,
    Nat.testBit_mod_two_pow]
  rcases lt_trichotomy i k with hi | rfl | hi
  · simp [hi, hi.ne, hi.trans (Nat.lt_succ_self k)]
  · simp [coeffOf]
  · simp [hi.ne', Nat.not_lt.2 hi.le, Nat.not_lt.2 (Nat.succ_le_of_lt hi), coeffOf]

/-- A shift of a word, and what it pushes out of the word. -/
theorem poly_shiftLeft_wide {w : ℕ} (n : ℕ) (hk : k ≤ w) :
    X ^ w * poly (n >>> (w - k)) + poly (n <<< k % 2 ^ w) = X ^ k * poly n := by
  have hn : (n <<< k) >>> w = n >>> (w - k) := by
    refine Nat.eq_of_testBit_eq fun i => ?_
    have h : w + i - k = w - k + i := by omega
    have h' : k ≤ w + i := by omega
    simp [Nat.testBit_shiftLeft, h, h']
  rw [← hn, ← poly_shiftLeft n, ← poly_split]

theorem poly_one : poly 1 = 1 := by
  ext i
  rw [coeff_poly, coeff_one, coeffOf]
  simp only [Nat.testBit_one_eq_true_iff_self_eq_zero]

theorem poly_two_pow (k : ℕ) : poly (2 ^ k) = X ^ k := by
  rw [← Nat.one_shiftLeft, poly_shiftLeft, poly_one, mul_one]

/-- Numbers with no bit in common are added. -/
theorem poly_or (h : a &&& b = 0) : poly (a ||| b) = poly a + poly b := by
  rw [← poly_xor]
  refine congrArg poly (Nat.eq_of_testBit_eq fun i => ?_)
  have hi := congrArg (Nat.testBit · i) h
  simp only [Nat.testBit_and, Nat.zero_testBit] at hi
  rw [Nat.testBit_or, Nat.testBit_xor]
  revert hi
  cases a.testBit i <;> cases b.testBit i <;> simp

/-- A shifted word and what fits below it. -/
theorem poly_shiftLeft_mod_or (a w : ℕ) (hb : b < 2 ^ k) :
    poly (a <<< k % 2 ^ w ||| b) = poly (a <<< k % 2 ^ w) + poly b := by
  refine poly_or (Nat.eq_of_testBit_eq fun i => ?_)
  rw [Nat.testBit_and, Nat.testBit_mod_two_pow, Nat.testBit_shiftLeft, Nat.zero_testBit]
  by_cases hi : k ≤ i
  · rw [Nat.testBit_lt_two_pow (hb.trans_le (Nat.pow_le_pow_right two_pos hi)), Bool.and_false]
  · simp [hi]

/-! ## Strings of digits -/

/-- The polynomial of a string of `k`-bit digits, highest first. -/
noncomputable def digits (k : ℕ) : List ℕ → (ZMod 2)[X]
  | [] => 0
  | a :: as => X ^ (k * as.length) * poly a + digits k as

/-- A digit at the end of a string. -/
theorem digits_concat (k : ℕ) (as : List ℕ) (a : ℕ) :
    digits k (as ++ [a]) = X ^ k * digits k as + poly a := by
  induction as with
  | nil => simp [digits]
  | cons b as ih =>
    rw [List.cons_append, digits, ih, digits, List.length_append, List.length_singleton]
    ring

/-- Leading zeros do not count. -/
theorem digits_replicate_zero (k n : ℕ) : digits k (List.replicate n 0) = 0 := by
  induction n with
  | zero => rfl
  | succ n ih => rw [List.replicate_succ, digits, ih, poly_zero, mul_zero, add_zero]

/-! ## Degrees -/

/-- A number without its top bit is below it. -/
theorem lt_two_pow_of_testBit (h : n < 2 ^ (k + 1)) (hk : n.testBit k = false) : n < 2 ^ k := by
  refine Nat.lt_pow_two_of_testBit n fun i hi => ?_
  rcases hi.eq_or_lt with rfl | hi
  · exact hk
  · exact Nat.testBit_lt_two_pow (h.trans_le (Nat.pow_le_pow_right two_pos hi))

/-- The top bits of two numbers cancel. -/
theorem xor_lt_two_pow (ha : 2 ^ k ≤ a) (ha' : a < 2 ^ (k + 1)) (hb : 2 ^ k ≤ b)
    (hb' : b < 2 ^ (k + 1)) : a ^^^ b < 2 ^ k := by
  refine lt_two_pow_of_testBit (Nat.xor_lt_two_pow ha' hb') ?_
  rw [Nat.testBit_xor, Nat.testBit_of_two_pow_le_and_two_pow_add_one_gt ha ha',
    Nat.testBit_of_two_pow_le_and_two_pow_add_one_gt hb hb']
  rfl

theorem degree_poly_lt (h : n < 2 ^ k) : (poly n).degree < k := by
  refine degree_lt_iff_coeff_zero _ _ |>.2 fun i hi => ?_
  rw [coeff_poly, Nat.testBit_lt_two_pow (h.trans_le (Nat.pow_le_pow_right two_pos hi))]
  rfl

/-- A number with its top bit at `k` is a polynomial of degree `k`, and monic. -/
theorem degree_poly (h₁ : 2 ^ k ≤ d) (h₂ : d < 2 ^ (k + 1)) :
    (poly d).degree = k ∧ (poly d).Monic := by
  have hc : (poly d).coeff k = 1 := by
    rw [coeff_poly, Nat.testBit_of_two_pow_le_and_two_pow_add_one_gt h₁ h₂]
    rfl
  have hd : (poly d).degree = k := by
    refine le_antisymm ?_ (le_degree_of_ne_zero (by rw [hc]; decide))
    exact Order.lt_succ_iff.1 (degree_poly_lt h₂)
  refine ⟨hd, ?_⟩
  rw [Monic, leadingCoeff, natDegree_eq_of_degree_eq_some hd, hc]

/-! ## Congruence -/

/-- Congruence modulo the polynomial of `d`. -/
def Congr (d : ℕ) (a b : (ZMod 2)[X]) : Prop := poly d ∣ a - b

namespace Congr

variable {p q r s : (ZMod 2)[X]}

theorem refl (p : (ZMod 2)[X]) : Congr d p p := by
  rw [Congr, sub_self]
  exact dvd_zero _

theorem trans (h : Congr d p q) (h' : Congr d q r) : Congr d p r := by
  have := dvd_add h h'
  rwa [sub_add_sub_cancel] at this

theorem add (h : Congr d p q) (h' : Congr d r s) : Congr d (p + r) (q + s) := by
  have := dvd_add h h'
  rwa [sub_add_sub_comm] at this

theorem mul_left (r : (ZMod 2)[X]) (h : Congr d p q) : Congr d (r * p) (r * q) := by
  have := Dvd.dvd.mul_left h r
  rwa [mul_sub] at this

/-- Adding a multiple changes nothing. -/
theorem add_mul_right (p r : (ZMod 2)[X]) : Congr d (p + r * poly d) p := by
  rw [Congr, add_sub_cancel_left]
  exact dvd_mul_left ..

/-- **A polynomial of low degree is the residue of whatever it is congruent to.** -/
theorem eq_modByMonic (h : Congr d p q) (hd : (poly d).Monic)
    (hp : p.degree < (poly d).degree) : p = q %ₘ poly d := by
  rw [← modByMonic_eq_of_dvd_sub hd h, (modByMonic_eq_self_iff hd).2 hp]

end Congr

/-- **The residue is the only polynomial of low degree in its class.** -/
theorem eq_modByMonic_iff {p q : (ZMod 2)[X]} (hd : (poly d).Monic) :
    p.degree < (poly d).degree ∧ Congr d p q ↔ p = q %ₘ poly d := by
  constructor
  · rintro ⟨hp, h⟩
    exact h.eq_modByMonic hd hp
  · rintro rfl
    exact ⟨degree_modByMonic_lt q hd, dvd_modByMonic_sub q (poly d)⟩

end Gf2
