import CloudFS.Dedup.Msb
import CloudFS.Machinery.Gf2

/-!
# Dedup/Polynomial — products and residues of word polynomials

`polymult` multiplies two words without carries into two words, `polymod` reduces two words modulo
one.  Both clear or add one bit at a time; read as polynomials they are the product
(`wide_polymult`) and the residue (`poly_polymod`).
-/

namespace CloudFS

open Polynomial Gf2

/-- The word whose bit `i` is set. -/
def bit64 (i : ℕ) : UInt64 := 1 <<< UInt64.ofNat i

/-- The loop of `polymod` over the bits `i, …, 0` of the high word. -/
def polymodHigh (d : UInt64) : ℕ → UInt64 → UInt64 → UInt64 × UInt64
  | 0, nh, nl => (nh, nl)
  | i + 1, nh, nl =>
    if nh &&& bit64 i ≠ 0 then
      polymodHigh d i (nh ^^^ d >>> UInt64.ofNat (63 - i)) (nl ^^^ d <<< UInt64.ofNat (i + 1))
    else polymodHigh d i nh nl

/-- The loop of `polymod` over the bits `i, …, k` of the low word. -/
def polymodLow (d : UInt64) (k : ℕ) : ℕ → UInt64 → UInt64
  | 0, nl => nl
  | i + 1, nl =>
    if i < k then nl
    else if nl &&& bit64 i ≠ 0 then polymodLow d k i (nl ^^^ d >>> UInt64.ofNat (63 - i))
    else polymodLow d k i nl

/-- `polymod`; `d` is not zero. -/
def polymod (nh nl d : UInt64) : UInt64 :=
  let k := fls64 d - 1
  let d := d <<< UInt64.ofNat (63 - k)
  let n :=
    if nh ≠ 0 then polymodHigh d 63 (if nh &&& bit64 63 ≠ 0 then nh ^^^ d else nh) nl
    else (nh, nl)
  polymodLow d k 64 n.2

/-- The loop of `polymult` up to bit `i`. -/
def polymultUpTo (x y : UInt64) : ℕ → UInt64 × UInt64
  | 0 => (0, if x &&& 1 ≠ 0 then y else 0)
  | i + 1 =>
    let p := polymultUpTo x y i
    if x &&& bit64 (i + 1) ≠ 0 then
      (p.1 ^^^ y >>> UInt64.ofNat (64 - (i + 1)), p.2 ^^^ y <<< UInt64.ofNat (i + 1))
    else p

/-- `polymult`: the high and the low word of the product. -/
def polymult (x y : UInt64) : UInt64 × UInt64 := polymultUpTo x y 63

/-- `polymmult`. -/
def polymmult (x y d : UInt64) : UInt64 :=
  let p := polymult x y
  polymod p.1 p.2 d

/-! ## Bits and shifts of a word -/

variable {d nh nl x y : UInt64} {i k e : ℕ}

theorem toNat_shiftLeft64 (x : UInt64) (hi : i < 64) :
    (x <<< UInt64.ofNat i).toNat = x.toNat <<< i % 2 ^ 64 := by
  rw [UInt64.toNat_shiftLeft, UInt64.toNat_ofNat_of_lt' (hi.trans (by decide)), Nat.mod_eq_of_lt hi]

theorem toNat_shiftRight64 (x : UInt64) (hi : i < 64) :
    (x >>> UInt64.ofNat i).toNat = x.toNat >>> i := by
  rw [UInt64.toNat_shiftRight, UInt64.toNat_ofNat_of_lt' (hi.trans (by decide)),
    Nat.mod_eq_of_lt hi]

/-- The test of one bit. -/
theorem and_bit64_ne_zero_iff (x : UInt64) (hi : i < 64) :
    x &&& bit64 i ≠ 0 ↔ x.toNat.testBit i = true := by
  have hb : (bit64 i).toNat = 2 ^ i := by
    rw [bit64, toNat_shiftLeft64 _ hi, UInt64.toNat_one, Nat.one_shiftLeft,
      Nat.mod_eq_of_lt (Nat.pow_lt_pow_right (by decide) hi)]
  rw [Ne, ← UInt64.toNat_inj, UInt64.toNat_and, hb, UInt64.toNat_zero, Nat.and_two_pow]
  cases x.toNat.testBit i <;> simp

/-- Two words read as one polynomial. -/
noncomputable def wide (nh nl : UInt64) : (ZMod 2)[X] := X ^ 64 * poly nh.toNat + poly nl.toNat

/-- Adding a multiple `X ^ i` of a word to two words. -/
theorem wide_xor (nh nl d : UInt64) (h0 : 0 < i) (hi : i < 64) :
    wide (nh ^^^ d >>> UInt64.ofNat (64 - i)) (nl ^^^ d <<< UInt64.ofNat i)
      = wide nh nl + X ^ i * poly d.toNat := by
  rw [wide, wide, UInt64.toNat_xor, UInt64.toNat_xor, poly_xor, poly_xor,
    toNat_shiftLeft64 d hi, toNat_shiftRight64 d (by omega),
    ← poly_shiftLeft_wide d.toNat hi.le]
  ring

/-! ## `polymult` -/

/-- The loop of `polymult` adds up the products with the bits it has seen. -/
theorem wide_polymultUpTo (x y : UInt64) (hi : i < 64) :
    wide (polymultUpTo x y i).1 (polymultUpTo x y i).2
      = poly (x.toNat % 2 ^ (i + 1)) * poly y.toNat := by
  induction i with
  | zero =>
    have hb : x &&& 1 ≠ 0 ↔ x.toNat.testBit 0 = true := and_bit64_ne_zero_iff x hi
    rw [poly_mod_two_pow_succ, pow_zero, pow_zero, Nat.mod_one, poly_zero, zero_add, mul_one]
    cases hx : x.toNat.testBit 0 with
    | false =>
      rw [hx] at hb
      simp [polymultUpTo, wide, hb, coeffOf]
    | true =>
      rw [hx] at hb
      simp [polymultUpTo, wide, hb, coeffOf]
  | succ i ih =>
    have hb := and_bit64_ne_zero_iff x hi
    rw [poly_mod_two_pow_succ, add_mul, ← ih (by omega), polymultUpTo]
    cases hx : x.toNat.testBit (i + 1) with
    | false =>
      rw [hx] at hb
      simp [hb, coeffOf]
    | true =>
      rw [hx] at hb
      simp only [if_pos (hb.2 rfl), wide_xor _ _ y i.succ_pos hi, coeffOf, if_true, C_1, one_mul]

/-- **`polymult` multiplies polynomials.** -/
theorem wide_polymult (x y : UInt64) :
    wide (polymult x y).1 (polymult x y).2 = poly x.toNat * poly y.toNat := by
  rw [polymult, wide_polymultUpTo x y (by decide), Nat.mod_eq_of_lt x.toNat_lt]

/-! ## `polymod` -/

/-- The word `d` is the number `e` moved to the top of the word; `e` has its top bit at `k`. -/
structure Scaled (d : UInt64) (e k : ℕ) : Prop where
  le : k ≤ 63
  two_pow_le : 2 ^ k ≤ e
  lt_two_pow : e < 2 ^ (k + 1)
  toNat : d.toNat = e <<< (63 - k)

namespace Scaled

theorem shiftRight (h : Scaled d e k) (hk : k ≤ i) (hi : i < 64) :
    (d >>> UInt64.ofNat (63 - i)).toNat = e <<< (i - k) := by
  have hs : 63 - k = i - k + (63 - i) := by omega
  rw [toNat_shiftRight64 d (by omega), h.toNat, hs, Nat.shiftLeft_add, Nat.shiftLeft_shiftRight]

/-- The divisor moved to the top of the word has its top bit there. -/
theorem two_pow_le_toNat (h : Scaled d e k) : 2 ^ 63 ≤ d.toNat := by
  have hk : 2 ^ 63 = 2 ^ k * 2 ^ (63 - k) := by
    rw [← pow_add, Nat.add_sub_cancel' h.le]
  rw [h.toNat, Nat.shiftLeft_eq, hk]
  exact Nat.mul_le_mul_right _ h.two_pow_le

/-- Taking the divisor off a number with bit `i` set clears the bit. -/
theorem xor_lt (h : Scaled d e k) (hi : i < 64) {n : UInt64} (hn : n.toNat < 2 ^ (i + 1))
    (hb : n.toNat.testBit i = true) :
    (n ^^^ d >>> UInt64.ofNat (63 - i)).toNat < 2 ^ i := by
  have h63 : 2 ^ 63 = 2 ^ i * 2 ^ (63 - i) := by
    rw [← pow_add]
    congr 1
    omega
  have h64 : 2 ^ 64 = 2 ^ (63 - i) * 2 ^ (i + 1) := by
    rw [← pow_add]
    congr 1
    omega
  have hd := h.two_pow_le_toNat
  have hd' := d.toNat_lt
  rw [h63, ← Nat.le_div_iff_mul_le (Nat.two_pow_pos _)] at hd
  rw [h64] at hd'
  rw [UInt64.toNat_xor, toNat_shiftRight64 d (by omega), Nat.shiftRight_eq_div_pow]
  exact xor_lt_two_pow (Nat.ge_two_pow_of_testBit hb) hn hd (Nat.div_lt_of_lt_mul hd')

/-- Taking a multiple of the divisor off two words leaves them congruent. -/
theorem congr_wide_xor (h : Scaled d e k) (nh nl : UInt64) (h0 : 0 < i) (hi : i < 64) :
    Congr e (wide (nh ^^^ d >>> UInt64.ofNat (64 - i)) (nl ^^^ d <<< UInt64.ofNat i))
      (wide nh nl) := by
  rw [wide_xor nh nl d h0 hi, h.toNat, poly_shiftLeft, ← mul_assoc]
  exact .add_mul_right ..

end Scaled

/-- **The loop over the low word** leaves a number of low degree congruent to it. -/
theorem polymodLow_spec (h : Scaled d e k) (hi : i ≤ 64) (hn : nl.toNat < 2 ^ i) :
    (polymodLow d k i nl).toNat < 2 ^ k ∧
      Congr e (poly (polymodLow d k i nl).toNat) (poly nl.toNat) := by
  induction i generalizing nl with
  | zero => exact ⟨hn.trans_le (Nat.pow_le_pow_right two_pos (Nat.zero_le k)), .refl _⟩
  | succ i ih =>
    have hb := and_bit64_ne_zero_iff nl hi
    rw [polymodLow]
    by_cases hik : i < k
    · rw [if_pos hik]
      exact ⟨hn.trans_le (Nat.pow_le_pow_right two_pos hik), .refl _⟩
    rw [if_neg hik, Nat.not_lt] at *
    cases hx : nl.toNat.testBit i with
    | false =>
      rw [if_neg (by rw [hb, hx]; decide)]
      exact ih (by omega) (lt_two_pow_of_testBit hn hx)
    | true =>
      rw [if_pos (hb.2 hx)]
      obtain ⟨h1, h2⟩ := ih (by omega) (h.xor_lt hi hn hx)
      refine ⟨h1, h2.trans ?_⟩
      rw [UInt64.toNat_xor, h.shiftRight hik hi, poly_xor, poly_shiftLeft]
      exact .add_mul_right ..

/-- **The loop over the high word** clears it and leaves two words congruent to what they were. -/
theorem polymodHigh_spec (h : Scaled d e k) (nl : UInt64) (hi : i ≤ 63)
    (hn : nh.toNat < 2 ^ i) :
    (polymodHigh d i nh nl).1 = 0 ∧
      Congr e (wide (polymodHigh d i nh nl).1 (polymodHigh d i nh nl).2) (wide nh nl) := by
  induction i generalizing nh nl with
  | zero =>
    have hz : nh = 0 := UInt64.toNat_inj.1 (by simpa using hn)
    exact ⟨hz, .refl _⟩
  | succ i ih =>
    have hb := and_bit64_ne_zero_iff nh (i := i) (by omega)
    rw [polymodHigh]
    cases hx : nh.toNat.testBit i with
    | false =>
      rw [if_neg (by rw [hb, hx]; decide)]
      exact ih nl (by omega) (lt_two_pow_of_testBit hn hx)
    | true =>
      rw [if_pos (hb.2 hx)]
      obtain ⟨h1, h2⟩ := ih (nl ^^^ d <<< UInt64.ofNat (i + 1)) (by omega)
        (h.xor_lt (by omega) hn hx)
      have hs : 63 - i = 64 - (i + 1) := by omega
      rw [hs] at h1 h2 ⊢
      exact ⟨h1, h2.trans (h.congr_wide_xor nh nl i.succ_pos (by omega))⟩

/-- The top bit of the high word cleared. -/
theorem Scaled.clear_top (h : Scaled d e k) (nh nl : UInt64) :
    (if nh &&& bit64 63 ≠ 0 then nh ^^^ d else nh).toNat < 2 ^ 63 ∧
      Congr e (wide (if nh &&& bit64 63 ≠ 0 then nh ^^^ d else nh) nl) (wide nh nl) := by
  have hb := and_bit64_ne_zero_iff nh (i := 63) (by decide)
  cases hx : nh.toNat.testBit 63 with
  | false =>
    rw [if_neg (by rw [hb, hx]; decide)]
    exact ⟨lt_two_pow_of_testBit nh.toNat_lt hx, .refl _⟩
  | true =>
    rw [if_pos (hb.2 hx)]
    have hlt := h.xor_lt (by decide) nh.toNat_lt hx
    have hd : d >>> UInt64.ofNat (63 - 63) = d := by simp
    rw [hd] at hlt
    refine ⟨hlt, ?_⟩
    have hw : wide (nh ^^^ d) nl = wide nh nl + X ^ 64 * poly d.toNat := by
      rw [wide, wide, UInt64.toNat_xor, poly_xor]
      ring
    rw [hw, h.toNat, poly_shiftLeft, ← mul_assoc]
    exact .add_mul_right ..

/-- The divisor `polymod` works with. -/
theorem scaled_polymod (hd : d ≠ 0) :
    Scaled (d <<< UInt64.ofNat (63 - (fls64 d - 1))) d.toNat (fls64 d - 1) := by
  have h0 : 0 < d.toNat := Nat.pos_of_ne_zero fun h => hd (UInt64.toNat_inj.1 h)
  have hs : 0 < d.toNat.size := Nat.size_pos.2 h0
  have hs' : d.toNat.size ≤ 64 := Nat.size_le.2 d.toNat_lt
  rw [fls64_eq]
  have h1 : 2 ^ (d.toNat.size - 1) ≤ d.toNat := Nat.lt_size.1 (by omega)
  have h2 : d.toNat < 2 ^ (d.toNat.size - 1 + 1) := by
    rw [Nat.sub_add_cancel hs]
    exact Nat.lt_size_self d.toNat
  refine ⟨by omega, h1, h2, ?_⟩
  have h64 : 2 ^ 64 = 2 ^ (d.toNat.size - 1 + 1) * 2 ^ (63 - (d.toNat.size - 1)) := by
    rw [← pow_add]
    congr 1
    omega
  rw [toNat_shiftLeft64 d (by omega), Nat.shiftLeft_eq]
  refine Nat.mod_eq_of_lt ?_
  rw [h64]
  exact Nat.mul_lt_mul_of_pos_right h2 (Nat.two_pow_pos _)

/-- **`polymod` reduces two words** to one of lower degree than the divisor and congruent to
them. -/
theorem polymod_spec (hd : d ≠ 0) (nh nl : UInt64) :
    (polymod nh nl d).toNat < 2 ^ (fls64 d - 1) ∧
      Congr d.toNat (poly (polymod nh nl d).toNat) (wide nh nl) := by
  have h := scaled_polymod hd
  have hlow : ∀ n : UInt64 × UInt64, n.1 = 0 ∧ Congr d.toNat (wide n.1 n.2) (wide nh nl) →
      (polymodLow (d <<< UInt64.ofNat (63 - (fls64 d - 1))) (fls64 d - 1) 64 n.2).toNat
          < 2 ^ (fls64 d - 1) ∧
        Congr d.toNat (poly (polymodLow (d <<< UInt64.ofNat (63 - (fls64 d - 1)))
          (fls64 d - 1) 64 n.2).toNat) (wide nh nl) := by
    rintro n ⟨hz, hc⟩
    obtain ⟨h1, h2⟩ := polymodLow_spec h (i := 64) le_rfl n.2.toNat_lt
    rw [wide, hz, UInt64.toNat_zero, poly_zero, mul_zero, zero_add] at hc
    exact ⟨h1, h2.trans hc⟩
  refine hlow _ ?_
  split
  case isTrue =>
    obtain ⟨h1, h2⟩ := h.clear_top nh nl
    obtain ⟨h3, h4⟩ := polymodHigh_spec h nl le_rfl h1
    exact ⟨h3, h4.trans h2⟩
  case isFalse hz =>
    exact ⟨not_not.1 hz, .refl _⟩

/-- **`polymmult` multiplies modulo a polynomial.** -/
theorem polymmult_spec (hd : d ≠ 0) (x y : UInt64) :
    (polymmult x y d).toNat < 2 ^ (fls64 d - 1) ∧
      Congr d.toNat (poly (polymmult x y d).toNat) (poly x.toNat * poly y.toNat) := by
  rw [← wide_polymult x y]
  exact polymod_spec hd _ _

/-! ## Residues -/

/-- The degree of a divisor is what `polymod` takes it for. -/
theorem degree_divisor (hd : d ≠ 0) :
    (poly d.toNat).degree = (fls64 d - 1 : ℕ) ∧ (poly d.toNat).Monic :=
  degree_poly (scaled_polymod hd).two_pow_le (scaled_polymod hd).lt_two_pow

/-- **`polymod` is the residue** of two words read as one polynomial. -/
theorem poly_polymod (hd : d ≠ 0) (nh nl : UInt64) :
    poly (polymod nh nl d).toNat = wide nh nl %ₘ poly d.toNat := by
  obtain ⟨hdeg, hmonic⟩ := degree_divisor hd
  obtain ⟨hlt, hcongr⟩ := polymod_spec hd nh nl
  refine hcongr.eq_modByMonic hmonic ?_
  rw [hdeg]
  exact degree_poly_lt hlt

/-- **Words are multiplied and reduced as polynomials**: `polymult` is the product, `polymod` the
one polynomial of lower degree than the divisor and congruent to the dividend, and `polymmult` the
product modulo the divisor. -/
theorem polynomial_arithmetic (hd : d ≠ 0) (x y nh nl : UInt64) :
    wide (polymult x y).1 (polymult x y).2 = poly x.toNat * poly y.toNat ∧
    (∀ r : (ZMod 2)[X], r.degree < (poly d.toNat).degree ∧ Congr d.toNat r (wide nh nl) ↔
      r = poly (polymod nh nl d).toNat) ∧
    poly (polymmult x y d).toNat = (poly x.toNat * poly y.toNat) %ₘ poly d.toNat := by
  refine ⟨wide_polymult x y, fun r => ?_, ?_⟩
  · rw [poly_polymod hd]
    exact eq_modByMonic_iff (degree_divisor hd).2
  · rw [polymmult, poly_polymod hd, wide_polymult]

/-- Modulo `X ^ 2 + X + 1`, the square of `X + 1` is `X`. -/
theorem polynomial_arithmetic_seven :
    wide 0 5 = poly 3 * poly 3 ∧
    (∀ r : (ZMod 2)[X], r.degree < (poly 7).degree ∧ Congr 7 r (wide 1 5) ↔ r = poly 0) ∧
    poly 2 = (poly 3 * poly 3) %ₘ poly 7 := by
  have hmult : polymult 3 3 = (0, 5) := by decide +kernel
  have hmod : polymod 1 5 7 = 0 := by decide +kernel
  have hmmult : polymmult 3 3 7 = 2 := by decide +kernel
  have h := polynomial_arithmetic (d := 7) (by decide) 3 3 1 5
  rw [hmult, hmod, hmmult] at h
  exact h

end CloudFS
