import Mathlib.Data.Nat.Find
import Mathlib.Data.Nat.Size
import Mathlib.Data.Nat.Bitwise
import Mathlib.Algebra.Order.Ring.Nat
import Mathlib.Order.Basic

/-!
# Machinery/Bits — the lowest and the highest bit of a number

Bits are counted from one, and 0 says that there is none.  The highest bit is the size of the number
(`highest_size`); the lowest is found from the lowest part that is not zero (`Lowest.of_mod`,
`Lowest.of_shiftRight`), and is all a number has in common with its negative (`Lowest.and_neg`).
-/

namespace Bits

/-- `k` is the lowest bit of `n`. -/
def Lowest (n : ℕ) : ℕ → Prop
  | 0 => n = 0
  | i + 1 => n.testBit i = true ∧ ∀ j < i, n.testBit j = false

/-- `k` is the highest bit of `n`. -/
def Highest (n : ℕ) : ℕ → Prop
  | 0 => n = 0
  | i + 1 => n.testBit i = true ∧ ∀ j, i < j → n.testBit j = false

instance (n : ℕ) : ∀ k, Decidable (Lowest n k)
  | 0 => inferInstanceAs (Decidable (n = 0))
  | _ + 1 => inferInstanceAs (Decidable (_ ∧ _))

variable {n k l i m w : ℕ}

theorem Lowest.unique (h : Lowest n k) (h' : Lowest n l) : k = l := by
  cases k with
  | zero =>
    cases l with
    | zero => rfl
    | succ j =>
      rw [show n = 0 from h, Lowest, Nat.zero_testBit] at h'
      exact absurd h'.1 Bool.false_ne_true
  | succ i =>
    cases l with
    | zero =>
      rw [show n = 0 from h', Lowest, Nat.zero_testBit] at h
      exact absurd h.1 Bool.false_ne_true
    | succ j =>
      rcases lt_trichotomy i j with hij | rfl | hij
      · exact absurd h.1 (by simp [h'.2 i hij])
      · rfl
      · exact absurd h'.1 (by simp [h.2 j hij])

/-- Every number has a lowest bit, or none. -/
theorem exists_lowest (n : ℕ) : ∃ k, Lowest n k := by
  by_cases hn : n = 0
  · exact ⟨0, hn⟩
  · have hbit := Nat.exists_testBit_of_ne_zero hn
    exact ⟨Nat.find hbit + 1, Nat.find_spec hbit, fun j hj => by simpa using Nat.find_min hbit hj⟩

/-- **The highest bit is the size.** -/
theorem highest_size (n : ℕ) : Highest n n.size := by
  cases hs : n.size with
  | zero => exact Nat.size_eq_zero.1 hs
  | succ i =>
    have hlt : n < 2 ^ (i + 1) := hs ▸ Nat.lt_size_self n
    refine ⟨?_, fun j hj => Nat.testBit_lt_two_pow (hlt.trans_le (Nat.pow_le_pow_right two_pos hj))⟩
    refine Nat.testBit_of_two_pow_le_and_two_pow_add_one_gt (Nat.lt_size.1 ?_) hlt
    rw [hs]
    exact Nat.lt_succ_self i

/-- The lowest bit of a number is that of its low part, if it has one. -/
theorem Lowest.of_mod (h : Lowest (n % 2 ^ m) k) (h0 : n % 2 ^ m ≠ 0) : Lowest n k := by
  cases k with
  | zero => exact absurd h h0
  | succ i =>
    obtain ⟨hi, hj⟩ := h
    rw [Nat.testBit_mod_two_pow, Bool.and_eq_true, decide_eq_true_iff] at hi
    refine ⟨hi.2, fun j hji => ?_⟩
    have := hj j hji
    rwa [Nat.testBit_mod_two_pow, decide_eq_true (hji.trans hi.1), Bool.true_and] at this

/-- The lowest bit of a number whose low part is zero is that of its high part. -/
theorem Lowest.of_shiftRight (h : Lowest (n >>> m) k) (h0 : n % 2 ^ m = 0) (hn : n >>> m ≠ 0) :
    Lowest n (m + k) := by
  cases k with
  | zero => exact absurd h hn
  | succ i =>
    obtain ⟨hi, hj⟩ := h
    rw [Nat.testBit_shiftRight] at hi
    refine ⟨hi, fun j hji => ?_⟩
    rcases Nat.lt_or_ge j m with hlt | hge
    · have := congrArg (Nat.testBit · j) h0
      simpa [Nat.testBit_mod_two_pow, hlt] using this
    · obtain ⟨d, rfl⟩ := Nat.exists_eq_add_of_le hge
      rw [← Nat.testBit_shiftRight]
      exact hj d (Nat.lt_of_add_lt_add_left hji)

theorem lowest_mod_iff (h0 : n % 2 ^ m ≠ 0) : Lowest (n % 2 ^ m) k ↔ Lowest n k := by
  refine ⟨fun h => h.of_mod h0, fun h => ?_⟩
  obtain ⟨l, hl⟩ := exists_lowest (n % 2 ^ m)
  rwa [h.unique (hl.of_mod h0)]

theorem lowest_shiftRight_iff (h0 : n % 2 ^ m = 0) (hn : n >>> m ≠ 0) :
    Lowest (n >>> m) k ↔ Lowest n (m + k) := by
  refine ⟨fun h => h.of_shiftRight h0 hn, fun h => ?_⟩
  obtain ⟨l, hl⟩ := exists_lowest (n >>> m)
  rwa [Nat.add_left_cancel (h.unique (hl.of_shiftRight h0 hn))]

/-- A number ends with its lowest bit. -/
theorem Lowest.mod_two_pow (h : Lowest n (i + 1)) : n % 2 ^ (i + 1) = 2 ^ i := by
  refine Nat.eq_of_testBit_eq fun j => ?_
  rw [Nat.testBit_mod_two_pow, Nat.testBit_two_pow]
  rcases lt_trichotomy j i with hj | rfl | hj
  · simp [h.2 j hj, hj.ne']
  · simp [h.1]
  · simp [hj.ne, Nat.not_lt.2 (Nat.succ_le_of_lt hj)]

/-- **A number and its negative** have nothing but the lowest bit in common. -/
theorem Lowest.and_neg (h : Lowest n (i + 1)) (hn : n < 2 ^ w) : n &&& (2 ^ w - n) = 2 ^ i := by
  have hle : 2 ^ i ≤ n := Nat.ge_two_pow_of_testBit h.1
  have hiw : i < w := (Nat.pow_lt_pow_iff_right one_lt_two).1 (hle.trans_lt hn)
  have hpos := Nat.two_pow_pos i
  have hneg : 2 ^ w - n = 2 ^ w - (n - 1 + 1) := by rw [Nat.sub_add_cancel (hpos.trans_le hle)]
  have hsplit : n = 2 ^ (i + 1) * (n / 2 ^ (i + 1)) + 2 ^ i := by
    conv_lhs => rw [← Nat.div_add_mod n (2 ^ (i + 1)), h.mod_two_pow]
  generalize n / 2 ^ (i + 1) = q at hsplit
  have hlt : 2 ^ i < 2 ^ (i + 1) := Nat.pow_lt_pow_right one_lt_two (Nat.lt_succ_self i)
  -- below the lowest bit one less has ones, above it the same bits
  have hpred : n - 1 = 2 ^ (i + 1) * q + (2 ^ i - 1) := by omega
  refine Nat.eq_of_testBit_eq fun j => ?_
  rw [hneg, Nat.testBit_and, Nat.testBit_two_pow_sub_succ (by omega), Nat.testBit_two_pow]
  rcases lt_trichotomy j i with hj | rfl | hj
  · simp [h.2 j hj, hj.ne']
  · rw [h.1, hpred, Nat.testBit_two_pow_mul_add _ (by omega), if_pos (Nat.lt_succ_self j)]
    simp [hiw]
  · rw [hpred, Nat.testBit_two_pow_mul_add _ (by omega), if_neg (by omega)]
    rw [hsplit, Nat.testBit_two_pow_mul_add _ hlt, if_neg (by omega)]
    cases q.testBit (j - (i + 1)) <;> simp [hj.ne]

/-- The lowest bit of a word is the size of what it has in common with its negative. -/
theorem Lowest.size_and_neg (h : Lowest n k) (hn : n < 2 ^ w) :
    (n &&& (2 ^ w - n) % 2 ^ w).size = k := by
  cases k with
  | zero =>
    rw [show n = 0 from h, Nat.zero_and, Nat.size_zero]
  | succ i =>
    have hpos : 0 < n := (Nat.two_pow_pos i).trans_le (Nat.ge_two_pow_of_testBit h.1)
    rw [Nat.mod_eq_of_lt (by omega), h.and_neg hn, Nat.size_pow]

/-- **The lowest bit is the highest** exactly when a word is what it has in common with its
negative. -/
theorem lowest_size_iff (hn : n < 2 ^ w) :
    Lowest n n.size ↔ n &&& (2 ^ w - n) % 2 ^ w = n := by
  constructor
  · intro h
    cases hs : n.size with
    | zero => rw [Nat.size_eq_zero.1 hs, Nat.zero_and]
    | succ i =>
      rw [hs] at h
      have hpos : 0 < n := (Nat.two_pow_pos i).trans_le (Nat.ge_two_pow_of_testBit h.1)
      have hlt : n < 2 ^ (i + 1) := hs ▸ Nat.lt_size_self n
      rw [Nat.mod_eq_of_lt (by omega), h.and_neg hn, ← h.mod_two_pow, Nat.mod_eq_of_lt hlt]
  · intro h
    obtain ⟨k, hk⟩ := exists_lowest n
    have hs := hk.size_and_neg hn
    rw [h] at hs
    rwa [hs]

end Bits
