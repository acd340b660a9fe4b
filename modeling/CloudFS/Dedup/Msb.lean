import Mathlib.Data.Nat.Size
import Mathlib.Algebra.Order.Ring.Nat

/-!
# Dedup/Msb — the most significant bit of a word

`fls32` and `fls64` look the highest bit set up in a table of bytes.  They count it from one, which
is the number of bits the word takes (`fls32_eq`, `fls64_eq`).
-/

namespace CloudFS

/-- `bytemsb`: the highest bit set in a byte. -/
def bytemsb : List ℕ := [0, 1, 2, 2, 3, 3, 3, 3, 4, 4, 4, 4, 4, 4, 4, 4, 5, 5, 5, 5, 5, 5, 5, 5,
  5, 5, 5, 5, 5, 5, 5, 5, 6, 6, 6, 6, 6, 6, 6, 6, 6, 6, 6, 6, 6, 6, 6, 6,
  6, 6, 6, 6, 6, 6, 6, 6, 6, 6, 6, 6, 6, 6, 6, 6, 7, 7, 7, 7, 7, 7, 7, 7,
  7, 7, 7, 7, 7, 7, 7, 7, 7, 7, 7, 7, 7, 7, 7, 7, 7, 7, 7, 7, 7, 7, 7, 7,
  7, 7, 7, 7, 7, 7, 7, 7, 7, 7, 7, 7, 7, 7, 7, 7, 7, 7, 7, 7, 7, 7, 7, 7,
  7, 7, 7, 7, 7, 7, 7, 7, 8, 8, 8, 8, 8, 8, 8, 8, 8, 8, 8, 8, 8, 8, 8, 8,
  8, 8, 8, 8, 8, 8, 8, 8, 8, 8, 8, 8, 8, 8, 8, 8, 8, 8, 8, 8, 8, 8, 8, 8,
  8, 8, 8, 8, 8, 8, 8, 8, 8, 8, 8, 8, 8, 8, 8, 8, 8, 8, 8, 8, 8, 8, 8, 8,
  8, 8, 8, 8, 8, 8, 8, 8, 8, 8, 8, 8, 8, 8, 8, 8, 8, 8, 8, 8, 8, 8, 8, 8,
  8, 8, 8, 8, 8, 8, 8, 8, 8, 8, 8, 8, 8, 8, 8, 8, 8, 8, 8, 8, 8, 8, 8, 8,
  8, 8, 8, 8, 8, 8, 8, 8, 8, 8, 8, 8, 8, 8, 8, 8]

/-- `fls32`. -/
def fls32 (v : UInt32) : ℕ :=
  if v &&& 0xffff0000 ≠ 0 then
    if v &&& 0xff000000 ≠ 0 then 24 + bytemsb.getD (v >>> 24).toNat 0
    else 16 + bytemsb.getD (v >>> 16).toNat 0
  else if v &&& 0x0000ff00 ≠ 0 then 8 + bytemsb.getD (v >>> 8).toNat 0
  else bytemsb.getD v.toNat 0

/-- `fls64`. -/
def fls64 (v : UInt64) : ℕ :=
  let h := (v >>> 32).toUInt32
  if h ≠ 0 then 32 + fls32 h else fls32 v.toUInt32

/-- The table has the number of bits of every byte. -/
theorem bytemsb_eq {n : ℕ} (h : n < 256) : bytemsb.getD n 0 = n.size := by
  have ht : ∀ b : Fin 256, bytemsb.getD b.1 0 = b.1.size := by decide +kernel
  exact ht ⟨n, h⟩

/-- A number masked to the `j` bits from `k` on. -/
theorem and_mask (n k j : ℕ) : n &&& ((2 ^ j - 1) <<< k) = ((n >>> k) % 2 ^ j) <<< k := by
  rw [← Nat.and_two_pow_sub_one_eq_mod]
  refine Nat.eq_of_testBit_eq fun i => ?_
  simp only [Nat.testBit_and, Nat.testBit_shiftLeft, Nat.testBit_shiftRight]
  by_cases hi : k ≤ i
  · simp [hi]
  · simp [hi]

/-- A word is at least `2 ^ k` exactly when it has a bit from `k` on. -/
theorem and_mask_eq_zero_iff {n k j : ℕ} (h : n < 2 ^ (k + j)) :
    n &&& ((2 ^ j - 1) <<< k) = 0 ↔ n < 2 ^ k := by
  have hlt : n >>> k < 2 ^ j := by
    rw [Nat.shiftRight_eq_div_pow]
    exact Nat.div_lt_of_lt_mul (by rwa [← pow_add])
  rw [and_mask, Nat.mod_eq_of_lt hlt, Nat.shiftLeft_eq, Nat.shiftRight_eq_div_pow, mul_eq_zero,
    or_iff_left (Nat.two_pow_pos k).ne', Nat.div_eq_zero_iff_lt (Nat.two_pow_pos k)]

/-- The bits of a number with a bit from `k` on are `k` and those of its high part. -/
theorem size_eq_add {n k : ℕ} (h : 2 ^ k ≤ n) : n.size = k + (n >>> k).size := by
  have hk : k < n.size := Nat.lt_size.2 h
  have hs : ∀ m, (n >>> k).size ≤ m ↔ n.size ≤ k + m := by
    intro m
    rw [Nat.size_le, Nat.size_le, Nat.shiftRight_eq_div_pow,
      Nat.div_lt_iff_lt_mul (Nat.two_pow_pos k), ← pow_add, Nat.add_comm m k]
  have h1 := (hs (n >>> k).size).1 le_rfl
  have h2 := (hs (n.size - k)).2 (by omega)
  omega

variable {v : UInt32}

/-- The test of a word against a mask of its bits from `k` on. -/
theorem and_ne_zero_iff {k j : ℕ} {m : UInt32} (hm : m.toNat = (2 ^ j - 1) <<< k)
    (hv : v.toNat < 2 ^ (k + j)) : v &&& m ≠ 0 ↔ 2 ^ k ≤ v.toNat := by
  rw [Ne, ← UInt32.toNat_inj, UInt32.toNat_and, hm, UInt32.toNat_zero, and_mask_eq_zero_iff hv,
    Nat.not_lt]

/-- The table counts the bits of the high part of a word. -/
theorem add_bytemsb {n k : ℕ} (h₁ : 2 ^ k ≤ n) (h₂ : n < 2 ^ (k + 8)) :
    k + bytemsb.getD (n >>> k) 0 = n.size := by
  have hb : n >>> k < 256 := by
    rw [Nat.shiftRight_eq_div_pow]
    exact Nat.div_lt_of_lt_mul (by rwa [pow_add] at h₂)
  rw [bytemsb_eq hb, ← size_eq_add h₁]

/-- **`fls32` counts the bits of a word.** -/
theorem fls32_eq (v : UInt32) : fls32 v = v.toNat.size := by
  have hv : v.toNat < 2 ^ 32 := v.toNat_lt
  unfold fls32
  split
  case isTrue h16 =>
    rw [and_ne_zero_iff (k := 16) (j := 16) rfl hv] at h16
    split
    case isTrue h24 =>
      rw [and_ne_zero_iff (k := 24) (j := 8) rfl hv] at h24
      exact add_bytemsb h24 hv
    case isFalse h24 =>
      rw [and_ne_zero_iff (k := 24) (j := 8) rfl hv, Nat.not_le] at h24
      exact add_bytemsb h16 h24
  case isFalse h16 =>
    rw [and_ne_zero_iff (k := 16) (j := 16) rfl hv, Nat.not_le] at h16
    split
    case isTrue h8 =>
      rw [and_ne_zero_iff (k := 8) (j := 8) rfl h16] at h8
      exact add_bytemsb h8 h16
    case isFalse h8 =>
      rw [and_ne_zero_iff (k := 8) (j := 8) rfl h16, Nat.not_le] at h8
      exact bytemsb_eq h8

/-- The high half of a word. -/
theorem toNat_highHalf (v : UInt64) : (v >>> 32).toUInt32.toNat = v.toNat >>> 32 := by
  rw [UInt64.toNat_toUInt32, UInt64.toNat_shiftRight]
  refine Nat.mod_eq_of_lt ?_
  rw [Nat.shiftRight_eq_div_pow]
  exact Nat.div_lt_of_lt_mul v.toNat_lt

/-- **`fls64` counts the bits of a word.** -/
theorem fls64_eq (v : UInt64) : fls64 v = v.toNat.size := by
  have hv : v.toNat < 2 ^ 64 := v.toNat_lt
  have hh := toNat_highHalf v
  have hz : (v >>> 32).toUInt32 ≠ 0 ↔ 2 ^ 32 ≤ v.toNat := by
    rw [Ne, ← UInt32.toNat_inj, hh, UInt32.toNat_zero, Nat.shiftRight_eq_div_pow,
      Nat.div_eq_zero_iff_lt (Nat.two_pow_pos 32), Nat.not_lt]
  unfold fls64
  dsimp only
  split
  case isTrue h =>
    rw [fls32_eq, hh, ← size_eq_add (hz.1 h)]
  case isFalse h =>
    rw [hz, Nat.not_le] at h
    rw [fls32_eq, UInt64.toNat_toUInt32, Nat.mod_eq_of_lt h]

end CloudFS
