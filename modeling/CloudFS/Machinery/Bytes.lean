import Mathlib.Data.List.Basic
import Mathlib.Tactic.Linarith

/-!
# Machinery/Bytes — byte strings, positioned overwrites and little-endian words

The content of a file is a finite byte string shorter than `offBound`, the values an `off_t` can
hold.  `Bytes.overwrite` is what a positioned write leaves, `Bytes.slice` what a positioned read
delivers, `Bytes.resize` what a truncation leaves.  `leBytes` lays a number out in a fixed number
of little-endian bytes and `leValue` reads it back.
-/

/-- A byte string. -/
abbrev Bytes := List UInt8

/-- One past the largest size an `off_t` can hold. -/
def offBound : ℕ := 2 ^ 63

namespace Bytes

/-! ## Reading, overwriting and resizing -/

/-- The at most `n` bytes from offset `off` on — what a positioned read delivers. -/
def slice (b : Bytes) (off n : ℕ) : Bytes := (b.drop off).take n

/-- `b` cut, or extended by zero bytes, to exactly `n` bytes. -/
def resize (b : Bytes) (n : ℕ) : Bytes := b.take n ++ List.replicate (n - b.length) 0

/-- `b` with `s` written over it from offset `off` on; a hole before `off` reads as zeros and an
empty write changes nothing. -/
def overwrite (b : Bytes) (off : ℕ) (s : Bytes) : Bytes :=
  if s = [] then b else b.resize off ++ s ++ b.drop (off + s.length)

@[simp] theorem length_resize (b : Bytes) (n : ℕ) : (b.resize n).length = n := by
  rw [resize, List.length_append, List.length_take, List.length_replicate]
  omega

@[simp] theorem resize_length (b : Bytes) : b.resize b.length = b := by simp [resize]

@[simp] theorem resize_zero (b : Bytes) : b.resize 0 = [] := by simp [resize]

theorem nil_resize_succ (n : ℕ) : resize [] (n + 1) = 0 :: resize [] n := by
  simp [resize, List.replicate_succ]

theorem cons_resize_succ (x : UInt8) (b : Bytes) (n : ℕ) :
    resize (x :: b) (n + 1) = x :: b.resize n := by
  simp [resize]

/-- What follows the first bytes of a resized string. -/
theorem drop_resize (b : Bytes) (off n : ℕ) :
    (b.resize n).drop off = resize (b.drop off) (n - off) := by
  induction off generalizing b n with
  | zero => rfl
  | succ off ih =>
    cases n with
    | zero => simp
    | succ n =>
      cases b with
      | nil =>
        rw [nil_resize_succ, List.drop_succ_cons, ih, List.drop_nil, List.drop_nil,
          Nat.succ_sub_succ]
      | cons x b =>
        rw [cons_resize_succ, List.drop_succ_cons, ih, List.drop_succ_cons, Nat.succ_sub_succ]

theorem take_resize (b : Bytes) {w n : ℕ} (h : w ≤ n) : (b.resize n).take w = b.resize w := by
  rw [resize, resize, List.take_append, List.take_take, min_eq_left h, List.take_replicate,
    List.length_take]
  congr 2
  omega

@[simp] theorem overwrite_nil (b : Bytes) (off : ℕ) : b.overwrite off [] = b := if_pos rfl

theorem length_overwrite (b : Bytes) (off : ℕ) {s : Bytes} (hs : s ≠ []) :
    (b.overwrite off s).length = max b.length (off + s.length) := by
  rw [overwrite, if_neg hs, List.length_append, List.length_append, length_resize,
    List.length_drop]
  omega

/-- An overwrite never shortens. -/
theorem length_le_length_overwrite (b : Bytes) (off : ℕ) (s : Bytes) :
    b.length ≤ (b.overwrite off s).length := by
  by_cases hs : s = []
  · subst hs
    rw [overwrite_nil]
  · rw [length_overwrite b off hs]
    exact le_max_left _ _

theorem length_overwrite_le (b : Bytes) (off : ℕ) (s : Bytes) :
    (b.overwrite off s).length ≤ max b.length (off + s.length) := by
  by_cases hs : s = []
  · subst hs
    rw [overwrite_nil]
    exact le_max_left _ _
  · exact (length_overwrite b off hs).le

/-- A slice that starts past `b` is a slice of what follows it. -/
theorem slice_append_of_le {b : Bytes} (c : Bytes) {off : ℕ} (n : ℕ) (h : b.length ≤ off) :
    slice (b ++ c) off n = c.slice (off - b.length) n := by
  rw [slice, slice, List.drop_append, List.drop_eq_nil_of_le h, List.nil_append]

/-- The slice of the length of a head part is that part. -/
theorem slice_append_zero {b : Bytes} (c : Bytes) {n : ℕ} (h : b.length = n) :
    slice (b ++ c) 0 n = b := by
  rw [slice, List.drop_zero, ← h, List.take_left]

/-- **Slices determine a byte string** — already the slices that start at its head. -/
theorem eq_of_slice_eq {b c : Bytes} (h : ∀ off n, b.slice off n = c.slice off n) : b = c := by
  have hb : b.slice 0 (max b.length c.length) = b := List.take_of_length_le (le_max_left _ _)
  have hc : c.slice 0 (max b.length c.length) = c := List.take_of_length_le (le_max_right _ _)
  rw [← hb, h, hc]

/-! ## Little-endian words -/

/-- The `w` low-order bytes of `n`, least significant first. -/
def leBytes : (w : ℕ) → ℕ → Bytes
  | 0, _ => []
  | w + 1, n => UInt8.ofNat n :: leBytes w (n / 256)

/-- The number a byte string spells, least significant byte first. -/
def leValue : Bytes → ℕ
  | [] => 0
  | b :: bs => b.toNat + 256 * leValue bs

@[simp] theorem length_leBytes (w n : ℕ) : (leBytes w n).length = w := by
  induction w generalizing n with
  | zero => rfl
  | succ w ih => rw [leBytes, List.length_cons, ih]

/-- **Writing then reading keeps the bytes that fit.** -/
theorem leValue_leBytes (w n : ℕ) : leValue (leBytes w n) = n % 256 ^ w := by
  induction w generalizing n with
  | zero => rw [leBytes, leValue, pow_zero, Nat.mod_one]
  | succ w ih =>
    have hb : (UInt8.ofNat n).toNat = n % 256 := UInt8.toNat_ofNat'
    rw [leBytes, leValue, ih, hb, Nat.pow_succ', Nat.mod_mul]

theorem leValue_leBytes_of_lt {w n : ℕ} (h : n < 256 ^ w) : leValue (leBytes w n) = n := by
  rw [leValue_leBytes, Nat.mod_eq_of_lt h]

theorem leValue_lt (b : Bytes) : leValue b < 256 ^ b.length := by
  induction b with
  | nil => decide
  | cons x b ih =>
    have hx : x.toNat < 256 := x.toNat_lt
    rw [leValue, List.length_cons, Nat.pow_succ']
    omega

/-- **Reading then writing keeps a string**: its length and its number determine it. -/
theorem leBytes_leValue (b : Bytes) : leBytes b.length (leValue b) = b := by
  induction b with
  | nil => rfl
  | cons x b ih =>
    have hx : x.toNat < 256 := x.toNat_lt
    have hhead : UInt8.ofNat (x.toNat + 256 * leValue b) = x := by
      rw [← UInt8.toNat_inj, UInt8.toNat_ofNat']
      omega
    have htail : (x.toNat + 256 * leValue b) / 256 = leValue b := by omega
    rw [List.length_cons, leBytes, leValue, hhead, htail, ih]

/-- **A resized string spells the number reduced** — the bytes that stay weigh what they did. -/
theorem leValue_resize (b : Bytes) (n : ℕ) : leValue (b.resize n) = leValue b % 256 ^ n := by
  induction n generalizing b with
  | zero => rw [resize_zero, leValue, pow_zero, Nat.mod_one]
  | succ n ih =>
    cases b with
    | nil =>
      have h := ih []
      rw [leValue, Nat.zero_mod] at h
      simp [nil_resize_succ, leValue, h]
    | cons x b =>
      have hx : x.toNat < 256 := x.toNat_lt
      rw [cons_resize_succ, leValue, leValue, ih, Nat.pow_succ', Nat.mod_mul,
        Nat.add_mul_mod_self_left, Nat.mod_eq_of_lt hx, Nat.add_mul_div_left _ _ (by decide),
        Nat.div_eq_of_lt hx, Nat.zero_add]

end Bytes

/-! ## File contents -/

/-- The content of a regular file — a byte string whose length an `off_t` can hold. -/
@[ext] structure Content where
  bytes : Bytes
  size_lt : bytes.length < offBound
  deriving DecidableEq

namespace Content

/-- The size of a content, in bytes. -/
def size (c : Content) : ℕ := c.bytes.length

theorem size_lt_offBound (c : Content) : c.size < offBound := c.size_lt

/-- The content of a freshly created file. -/
def empty : Content := ⟨[], by decide⟩

@[simp] theorem bytes_empty : empty.bytes = [] := rfl

@[simp] theorem size_empty : empty.size = 0 := rfl

theorem size_eq_zero_iff {c : Content} : c.size = 0 ↔ c = empty := by
  rw [size, List.length_eq_zero_iff]
  exact ⟨fun h => Content.ext h, fun h => h ▸ rfl⟩

instance : Inhabited Content := ⟨empty⟩

/-- The first `n` bytes of a content. -/
def take (c : Content) (n : ℕ) : Content :=
  ⟨c.bytes.take n, by have := c.size_lt; rw [List.length_take]; omega⟩

@[simp] theorem size_take (c : Content) (n : ℕ) : (c.take n).size = min n c.size :=
  List.length_take

@[simp] theorem take_size (c : Content) : c.take c.size = c := Content.ext List.take_length

theorem take_of_size_le {c : Content} {n : ℕ} (h : c.size ≤ n) : c.take n = c :=
  Content.ext (List.take_of_length_le h)

/-- A proper prefix is a different content. -/
theorem take_ne_of_lt {c : Content} {n : ℕ} (h : n < c.size) : c.take n ≠ c := by
  intro he
  have hs := congrArg size he
  rw [size_take] at hs
  omega

theorem take_eq_self_iff {c : Content} {n : ℕ} : c.take n = c ↔ c.size ≤ n :=
  ⟨fun h => Nat.not_lt.1 fun hn => take_ne_of_lt hn h, take_of_size_le⟩

theorem take_take (c : Content) (m n : ℕ) : (c.take m).take n = c.take (min m n) := by
  have h : (c.bytes.take m).take n = c.bytes.take (min m n) := by
    rw [List.take_take, Nat.min_comm]
  exact Content.ext h

/-- A write of `s` at offset `off`; a file cannot grow past what an `off_t` holds. -/
def write (c : Content) (off : ℕ) (s : Bytes) : Option Content :=
  if h : off + s.length < offBound then
    some ⟨c.bytes.overwrite off s, by
      have h1 := c.bytes.length_overwrite_le off s
      have h2 := c.size_lt
      omega⟩
  else none

/-- A write of nothing leaves the content alone, if it is allowed at all. -/
theorem write_nil_getD (c : Content) (off : ℕ) : (c.write off []).getD c = c := by
  unfold write
  split
  · exact Content.ext (Bytes.overwrite_nil c.bytes off)
  · rfl

theorem size_le_of_write {c d : Content} {off : ℕ} {s : Bytes} (h : c.write off s = some d) :
    c.size ≤ d.size := by
  unfold write at h
  split at h
  · obtain rfl := Option.some.inj h
    exact c.bytes.length_le_length_overwrite off s
  · exact absurd h (by simp)

/-- A content cut, or extended by zero bytes, to `n` bytes. -/
def resize (c : Content) (n : ℕ) : Option Content :=
  if h : n < offBound then some ⟨c.bytes.resize n, by rwa [Bytes.length_resize]⟩ else none

theorem resize_eq_some_iff {c d : Content} {n : ℕ} :
    c.resize n = some d ↔ d.bytes = c.bytes.resize n := by
  constructor
  · intro h
    unfold resize at h
    split at h
    · obtain rfl := Option.some.inj h
      rfl
    · exact absurd h (by simp)
  · intro h
    have hn : n < offBound := by
      have hlt := d.size_lt
      rwa [h, Bytes.length_resize] at hlt
    rw [resize, dif_pos hn]
    exact congrArg some (Content.ext h.symm)

/-- A content is not changed by a cut to its own size, and by no other. -/
theorem resize_eq_self_iff {c : Content} {n : ℕ} : c.resize n = some c ↔ n = c.size := by
  rw [resize_eq_some_iff]
  constructor
  · intro h
    rw [size, h, Bytes.length_resize]
  · rintro rfl
    exact (Bytes.resize_length c.bytes).symm

end Content
