import CloudFS.Dedup.Msb
import CloudFS.Machinery.Bits

/-!
# Dedup/Lsb — the least significant bit of a word

`ffs32` looks the lowest bit set up in a table of bytes (`lowest_ffs32`).  `ffs64` picks the lower
half of the word that is not zero, but asks `fls32` for its highest bit, so it returns the lowest
bit of the word exactly when that half has a single one (`lowest_ffs64_iff`).
-/

namespace CloudFS

open Bits

/-- `bytelsb`: the least bit set in a byte. -/
def bytelsb : List ℕ := [0, 1, 2, 1, 3, 1, 2, 1, 4, 1, 2, 1, 3, 1, 2, 1, 5, 1, 2, 1, 3, 1, 2, 1,
  4, 1, 2, 1, 3, 1, 2, 1, 6, 1, 2, 1, 3, 1, 2, 1, 4, 1, 2, 1, 3, 1, 2, 1,
  5, 1, 2, 1, 3, 1, 2, 1, 4, 1, 2, 1, 3, 1, 2, 1, 7, 1, 2, 1, 3, 1, 2, 1,
  4, 1, 2, 1, 3, 1, 2, 1, 5, 1, 2, 1, 3, 1, 2, 1, 4, 1, 2, 1, 3, 1, 2, 1,
  6, 1, 2, 1, 3, 1, 2, 1, 4, 1, 2, 1, 3, 1, 2, 1, 5, 1, 2, 1, 3, 1, 2, 1,
  4, 1, 2, 1, 3, 1, 2, 1, 8, 1, 2, 1, 3, 1, 2, 1, 4, 1, 2, 1, 3, 1, 2, 1,
  5, 1, 2, 1, 3, 1, 2, 1, 4, 1, 2, 1, 3, 1, 2, 1, 6, 1, 2, 1, 3, 1, 2, 1,
  4, 1, 2, 1, 3, 1, 2, 1, 5, 1, 2, 1, 3, 1, 2, 1, 4, 1, 2, 1, 3, 1, 2, 1,
  7, 1, 2, 1, 3, 1, 2, 1, 4, 1, 2, 1, 3, 1, 2, 1, 5, 1, 2, 1, 3, 1, 2, 1,
  4, 1, 2, 1, 3, 1, 2, 1, 6, 1, 2, 1, 3, 1, 2, 1, 4, 1, 2, 1, 3, 1, 2, 1,
  5, 1, 2, 1, 3, 1, 2, 1, 4, 1, 2, 1, 3, 1, 2, 1]

/-- `ffs32`. -/
def ffs32 (v : UInt32) : ℕ :=
  if v &&& 0xffff ≠ 0 then
    let vv := v &&& 0xff
    if vv ≠ 0 then bytelsb.getD vv.toNat 0
    else 8 + bytelsb.getD (v >>> 8 &&& 0xff).toNat 0
  else
    let vv := v &&& 0xff0000
    if vv ≠ 0 then 16 + bytelsb.getD (vv >>> 16).toNat 0
    else if v ≠ 0 then 24 + bytelsb.getD (v >>> 24 &&& 0xff).toNat 0
    else 0

/-- `ffs64`.  It calls `fls32`, not `ffs32`. -/
def ffs64 (v : UInt64) : ℕ :=
  let l := (v &&& 0xffffffff).toUInt32
  if l ≠ 0 then fls32 l
  else
    let l := (v >>> 32).toUInt32
    if l ≠ 0 then 32 + fls32 l else 0

variable {n m : ℕ} {v : UInt32} {w : UInt64}

/-- The table has the lowest bit of every byte. -/
theorem lowest_bytelsb (h : n < 256) : Lowest n (bytelsb.getD n 0) := by
  have ht : ∀ b : Fin 256, Lowest b.1 (bytelsb.getD b.1 0) := by decide +kernel
  exact ht ⟨n, h⟩

/-- The lowest bit of a number is looked up for its lowest byte that is not zero. -/
theorem lowest_add_bytelsb (h0 : n % 2 ^ m = 0) (hb : (n >>> m) % 256 ≠ 0) :
    Lowest n (m + bytelsb.getD ((n >>> m) % 256) 0) := by
  have h : Lowest (n >>> m) (bytelsb.getD ((n >>> m) % 256) 0) :=
    Lowest.of_mod (m := 8) (lowest_bytelsb (Nat.mod_lt _ (by decide))) hb
  exact h.of_shiftRight h0 fun hn => hb (by rw [hn])

/-- The low byte of a word. -/
theorem toNat_and_byte (v : UInt32) : (v &&& 0xff).toNat = v.toNat % 256 :=
  Nat.and_two_pow_sub_one_eq_mod v.toNat 8

/-- The lowest bytes of a number are zero as far as the byte before is. -/
theorem mod_two_pow_add_eq_zero_iff (n m : ℕ) :
    n % 2 ^ (m + 8) = 0 ↔ n % 2 ^ m = 0 ∧ (n >>> m) % 256 = 0 := by
  rw [pow_add, Nat.mod_mul, Nat.shiftRight_eq_div_pow]
  have := Nat.two_pow_pos m
  simp only [Nat.add_eq_zero_iff, mul_eq_zero, this.ne', false_or]
  rfl

/-- `ffs32` in terms of the bytes of a word. -/
theorem ffs32_eq (v : UInt32) : ffs32 v =
    if v.toNat % 2 ^ 16 ≠ 0 then
      if v.toNat % 256 ≠ 0 then bytelsb.getD (v.toNat % 256) 0
      else 8 + bytelsb.getD ((v.toNat >>> 8) % 256) 0
    else if (v.toNat >>> 16) % 256 ≠ 0 then 16 + bytelsb.getD ((v.toNat >>> 16) % 256) 0
    else if v.toNat ≠ 0 then 24 + bytelsb.getD ((v.toNat >>> 24) % 256) 0 else 0 := by
  have hz : ∀ x : UInt32, x ≠ 0 ↔ x.toNat ≠ 0 := fun x => not_congr (UInt32.toNat_inj (b := 0)).symm
  have h16 : (v &&& 0xffff).toNat = v.toNat % 2 ^ 16 := Nat.and_two_pow_sub_one_eq_mod v.toNat 16
  have h24 : (v &&& 0xff0000).toNat = ((v.toNat >>> 16) % 256) <<< 16 := and_mask v.toNat 16 8
  have hzero : ∀ n : ℕ, n <<< 16 ≠ 0 ↔ n ≠ 0 := fun n => by simp [Nat.shiftLeft_eq]
  have hshift : (16 : UInt32).toNat % 32 = 16 := rfl
  simp only [ffs32, hz, h16, h24, hzero, toNat_and_byte, UInt32.toNat_shiftRight, hshift,
    Nat.shiftLeft_shiftRight]
  rfl

/-- **`ffs32` is the lowest bit of a word.** -/
theorem lowest_ffs32 (v : UInt32) : Lowest v.toNat (ffs32 v) := by
  rw [ffs32_eq]
  by_cases h16 : v.toNat % 2 ^ 16 = 0
  · rw [if_neg (not_not.2 h16)]
    by_cases hb : (v.toNat >>> 16) % 256 = 0
    · rw [if_neg (not_not.2 hb)]
      by_cases hv : v.toNat = 0
      · rw [if_neg (not_not.2 hv)]
        exact hv
      · rw [if_pos hv]
        have h24 := (mod_two_pow_add_eq_zero_iff v.toNat 16).2 ⟨h16, hb⟩
        refine lowest_add_bytelsb h24 fun h0 => hv ?_
        have h32 := (mod_two_pow_add_eq_zero_iff v.toNat 24).2 ⟨h24, h0⟩
        rwa [Nat.mod_eq_of_lt v.toNat_lt] at h32
    · rw [if_pos hb]
      exact lowest_add_bytelsb h16 hb
  · rw [if_pos h16]
    rw [mod_two_pow_add_eq_zero_iff v.toNat 8] at h16
    by_cases h8 : v.toNat % 256 = 0
    · rw [if_neg (not_not.2 h8)]
      exact lowest_add_bytelsb h8 fun hb => h16 ⟨h8, hb⟩
    · rw [if_pos h8]
      exact Lowest.of_mod (m := 8) (lowest_bytelsb (Nat.mod_lt _ (by decide))) h8

/-! ## `ffs64` -/

/-- The lower half of a word that is not zero, or zero. -/
def lowHalf (w : UInt64) : UInt32 :=
  if (w &&& 0xffffffff).toUInt32 ≠ 0 then (w &&& 0xffffffff).toUInt32 else (w >>> 32).toUInt32

/-- The highest bit of a word is the lowest exactly when there is a single one. -/
theorem lowest_fls32_iff (v : UInt32) : Lowest v.toNat (fls32 v) ↔ v &&& -v = v := by
  rw [fls32_eq, lowest_size_iff v.toNat_lt, ← UInt32.toNat_inj, UInt32.toNat_and,
    UInt32.toNat_neg]
  rfl

/-- The low half of a word. -/
theorem toNat_and_half (w : UInt64) : (w &&& 0xffffffff).toUInt32.toNat = w.toNat % 2 ^ 32 := by
  have h : (w &&& 0xffffffff).toNat = w.toNat % 2 ^ 32 := Nat.and_two_pow_sub_one_eq_mod w.toNat 32
  rw [UInt64.toNat_toUInt32, h, Nat.mod_mod]

/-- **`ffs64` is the lowest bit of a word exactly when** the half it looks at has a single one. -/
theorem lowest_ffs64_iff (w : UInt64) :
    Lowest w.toNat (ffs64 w) ↔ lowHalf w &&& -lowHalf w = lowHalf w := by
  have hz : ∀ x : UInt32, x = 0 ↔ x.toNat = 0 := fun x => (UInt32.toNat_inj (b := 0)).symm
  rw [← lowest_fls32_iff, ffs64, lowHalf]
  dsimp only
  split
  case isTrue hl =>
    rw [Ne, hz, toNat_and_half] at hl
    rw [toNat_and_half, lowest_mod_iff hl]
  case isFalse hl =>
    rw [not_not, hz, toNat_and_half] at hl
    split
    case isTrue hh =>
      rw [Ne, hz, toNat_highHalf] at hh
      rw [toNat_highHalf, lowest_shiftRight_iff hl hh]
    case isFalse hh =>
      rw [not_not] at hh
      have hw : w.toNat = 0 := by
        rw [hz, toNat_highHalf, Nat.shiftRight_eq_div_pow] at hh
        have hw := Nat.div_add_mod w.toNat (2 ^ 32)
        rw [hh, hl] at hw
        exact hw.symm
      rw [hw, hh]
      exact iff_of_true rfl rfl

/-! ## Duality -/

/-- **The scans of two words are dual**: those for the first bit return the lowest, which is the
highest of what a word has in common with its negative. -/
structure ScansDual (v : UInt32) (w : UInt64) : Prop where
  highest32 : Highest v.toNat (fls32 v)
  highest64 : Highest w.toNat (fls64 w)
  lowest32 : Lowest v.toNat (ffs32 v)
  lowest64 : Lowest w.toNat (ffs64 w)
  dual32 : ffs32 v = fls32 (v &&& -v)
  dual64 : ffs64 w = fls64 (w &&& -w)

/-- **The scans of two words are dual exactly when** the lower half of the second that is not zero
has a single bit. -/
theorem scansDual_iff (v : UInt32) (w : UInt64) :
    ScansDual v w ↔ lowHalf w &&& -lowHalf w = lowHalf w := by
  constructor
  · intro h
    exact (lowest_ffs64_iff w).1 h.lowest64
  · intro h
    have h64 := (lowest_ffs64_iff w).2 h
    refine ⟨fls32_eq v ▸ highest_size _, fls64_eq w ▸ highest_size _, lowest_ffs32 v, h64, ?_, ?_⟩
    · rw [fls32_eq, UInt32.toNat_and, UInt32.toNat_neg]
      exact ((lowest_ffs32 v).size_and_neg v.toNat_lt).symm
    · rw [fls64_eq, UInt64.toNat_and, UInt64.toNat_neg]
      exact (h64.size_and_neg w.toNat_lt).symm

/-- **`ffs64` of 3** is its highest bit, not its lowest. -/
theorem ffs64_three : ffs64 3 = 2 ∧ Lowest (3 : UInt64).toNat 1 ∧ fls64 (3 &&& -3) = 1 ∧
    ∀ v, ¬ ScansDual v 3 := by
  refine ⟨by decide, by decide, by decide, fun v h => ?_⟩
  have h1 : Lowest (3 : UInt64).toNat 2 := h.lowest64
  exact absurd h1 (by decide)

end CloudFS
