import CloudFS.Dedup.Rabin
import CloudFS.Machinery.Window
import Mathlib.Algebra.CharP.Two
import Mathlib.Tactic.LinearCombination

/-!
# Dedup/Fingerprint — the fingerprint is the residue of the window

`append8` multiplies a residue by `X ^ 8` and adds a byte (`append8_ok`): the table `T` takes off
what left the word.  `slide8` takes the oldest byte off through `U` first, so after any bytes the
fingerprint is the residue of the window's polynomial modulo `FINGERPRINT_PT` (`Windowed`,
`slide8_ok`), and no table is read outside its bounds.
-/

namespace CloudFS

open Polynomial Gf2

/-- The polynomial whose coefficients are the bits of a byte string, the first byte highest. -/
noncomputable def bytesPoly (b : Bytes) : (ZMod 2)[X] := digits 8 (b.map UInt8.toNat)

/-- The last bytes of a stream, as many as a window of size `w` has. -/
def window (w : UInt32) (past : Bytes) : Bytes := Window.last w.toNat 0 past

/-- Where the next byte goes. -/
def Rabinpoly.next (rp : Rabinpoly) : UInt32 :=
  if rp.bufpos + 1 ≥ rp.windowSize then 0 else rp.bufpos + 1

/-- `U` has the residues of the bytes that leave a window of size `w`. -/
def TableU (w : UInt32) (U : List UInt64) : Prop :=
  ∀ i < 256, ∃ u, U[i]? = some u ∧ u.toNat < 2 ^ 63 ∧
    Congr FINGERPRINT_PT.toNat (poly u.toNat) (X ^ (8 * (w.toNat - 1)) * poly i)

/-- The table `append8` reads is the one `calcT` builds. -/
structure Appends (rp : Rabinpoly) : Prop where
  shift : rp.shift = 55
  T : rp.T = (List.range 256).map (entryT FINGERPRINT_PT)

/-- The tables are those `calcT` builds. -/
structure Tabled (rp : Rabinpoly) : Prop extends Appends rp where
  window_pos : 0 < rp.windowSize.toNat
  U : TableU rp.windowSize rp.U

/-- **The state after the bytes `past`**: the ring shows the window, and the fingerprint is its
residue. -/
structure Windowed (rp : Rabinpoly) (past : Bytes) : Prop extends Tabled rp where
  length : rp.buf.length = rp.windowSize.toNat
  ring : rp.buf.rotate rp.next.toNat = window rp.windowSize past
  lt : rp.fingerprint.toNat < 2 ^ 63
  residue : Congr FINGERPRINT_PT.toNat (poly rp.fingerprint.toNat)
    (bytesPoly (window rp.windowSize past))

variable {rp rp' : Rabinpoly} {p : UInt64} {m : UInt8} {i : ℕ} {past : Bytes}

theorem bytesPoly_concat (b : Bytes) (m : UInt8) :
    bytesPoly (b ++ [m]) = X ^ 8 * bytesPoly b + poly m.toNat := by
  rw [bytesPoly, List.map_append, List.map_singleton, digits_concat, bytesPoly]

theorem fls64_FINGERPRINT_PT : fls64 FINGERPRINT_PT = 64 := by decide +kernel

/-- The divisor has degree 63, and is monic. -/
theorem degree_FINGERPRINT_PT :
    (poly FINGERPRINT_PT.toNat).degree = (63 : ℕ) ∧ (poly FINGERPRINT_PT.toNat).Monic :=
  degree_poly (by decide) (by decide)

/-! ## Appending a byte -/

/-- `T[i]` has the residue of `i * X ^ 63`, and above it the bit of `i` that stays in the word. -/
theorem entryT_spec (i : ℕ) (hi : i < 256) :
    ∃ g : UInt64, g.toNat < 2 ^ 63 ∧
      (entryT FINGERPRINT_PT i).toNat = g.toNat ||| (i <<< 63 % 2 ^ 64) ∧
      Congr FINGERPRINT_PT.toNat (poly g.toNat) (X ^ 63 * poly i) := by
  have hd : FINGERPRINT_PT ≠ 0 := by decide
  have hi64 : (UInt64.ofNat i).toNat = i := UInt64.toNat_ofNat_of_lt' (hi.trans (by decide))
  obtain ⟨-, h2⟩ := polymod_spec hd 0 (bit64 63)
  obtain ⟨h3, h4⟩ := polymmult_spec hd (.ofNat i) (polymod 0 (bit64 63) FINGERPRINT_PT)
  have hb : (bit64 63).toNat = 2 ^ 63 := by decide
  rw [wide, UInt64.toNat_zero, poly_zero, mul_zero, zero_add, hb, poly_two_pow] at h2
  rw [fls64_FINGERPRINT_PT] at h3
  refine ⟨_, h3, ?_, ?_⟩
  · simp only [entryT, fls64_FINGERPRINT_PT, UInt64.toNat_or]
    rw [toNat_shiftLeft64 _ (by decide), hi64]
  · rw [hi64] at h4
    refine h4.trans ?_
    rw [mul_comm (X ^ 63)]
    exact h2.mul_left _

/-- What `append8` leaves of a word, when `T` has `t` for what left it. -/
theorem toNat_append8 (p t : UInt64) (m : UInt8) :
    (((p <<< 8) ||| m.toUInt64) ^^^ t).toNat = (p.toNat <<< 8 % 2 ^ 64 ||| m.toNat) ^^^ t.toNat := by
  rw [UInt64.toNat_xor, UInt64.toNat_or, UInt64.toNat_shiftLeft]
  rfl

/-- **Appending a byte** multiplies by `X ^ 8` and adds it, modulo the divisor. -/
theorem append8_ok (ha : Appends rp) (hp : p.toNat < 2 ^ 63) (m : UInt8) :
    ∃ q, append8 rp p m = .ok q ∧ q.toNat < 2 ^ 63 ∧
      Congr FINGERPRINT_PT.toNat (poly q.toNat) (X ^ 8 * poly p.toNat + poly m.toNat) := by
  have hsh : (p >>> UInt64.ofNat rp.shift).toNat = p.toNat >>> 55 := by
    rw [ha.shift, toNat_shiftRight64 _ (by decide)]
  have hi : p.toNat >>> 55 < 256 := by
    rw [Nat.shiftRight_eq_div_pow]
    omega
  have hm : m.toNat < 2 ^ 8 := m.toNat_lt
  obtain ⟨g, hg, hT, hres⟩ := entryT_spec _ hi
  refine ⟨((p <<< 8) ||| m.toUInt64) ^^^ entryT FINGERPRINT_PT (p.toNat >>> 55), ?_, ?_, ?_⟩
  · simp only [append8, readAt, hsh, ha.T, List.getElem?_map, List.getElem?_range hi,
      Option.map_some]
    rfl
  · refine lt_two_pow_of_testBit (UInt64.toNat_lt _) ?_
    have hm63 : m.toNat.testBit 63 = false := Nat.testBit_lt_two_pow (hm.trans (by decide))
    have hg63 : g.toNat.testBit 63 = false := Nat.testBit_lt_two_pow hg
    rw [toNat_append8, hT, Nat.testBit_xor, Nat.testBit_or, Nat.testBit_or, hm63, hg63,
      Nat.testBit_mod_two_pow, Nat.testBit_mod_two_pow, Nat.testBit_shiftLeft,
      Nat.testBit_shiftLeft, Nat.testBit_shiftRight]
    simp
  · have h8 := poly_shiftLeft_wide (w := 64) p.toNat (k := 8) (by decide)
    have h63 := poly_shiftLeft_wide (w := 64) (p.toNat >>> 55) (k := 63) (by decide)
    rw [← Nat.shiftRight_add] at h63
    have h2 : (2 : (ZMod 2)[X]) = 0 := CharTwo.two_eq_zero
    have hsum : poly ((p.toNat <<< 8 % 2 ^ 64 ||| m.toNat) ^^^
          (g.toNat ||| p.toNat >>> 55 <<< 63 % 2 ^ 64)) - (X ^ 8 * poly p.toNat + poly m.toNat)
        = poly g.toNat - X ^ 63 * poly (p.toNat >>> 55) := by
      rw [poly_xor, poly_shiftLeft_mod_or _ _ hm, Nat.or_comm g.toNat,
        poly_shiftLeft_mod_or _ _ hg]
      linear_combination h8 + h63 + (X ^ 63 * poly (p.toNat >>> 55)
        - X ^ 64 * poly (p.toNat >>> 56)) * h2
    rw [toNat_append8, hT, Congr, hsum]
    exact hres

/-- Appending zero bytes multiplies by powers of `X ^ 8`. -/
theorem appendZeros_ok (ha : Appends rp) (n : ℕ) {p : UInt64} (hp : p.toNat < 2 ^ 63) :
    ∃ q, appendZeros rp n p = .ok q ∧ q.toNat < 2 ^ 63 ∧
      Congr FINGERPRINT_PT.toNat (poly q.toNat) (X ^ (8 * n) * poly p.toNat) := by
  induction n generalizing p with
  | zero =>
    refine ⟨p, rfl, hp, ?_⟩
    rw [mul_zero, pow_zero, one_mul]
    exact .refl _
  | succ n ih =>
    obtain ⟨q, h1, h2, h3⟩ := append8_ok ha hp 0
    obtain ⟨r, h4, h5, h6⟩ := ih h2
    refine ⟨r, ?_, h5, h6.trans ?_⟩
    · rw [appendZeros, h1]
      exact h4
    · rw [UInt8.toNat_zero, poly_zero, add_zero] at h3
      have h7 := h3.mul_left (X ^ (8 * n))
      rwa [← mul_assoc, ← pow_add] at h7

/-! ## Building the tables -/

/-- **`calcT` reads no table outside its bounds** and builds the tables the fingerprint needs. -/
theorem calcT_ok (rp : Rabinpoly) (hp : rp.poly = FINGERPRINT_PT) :
    ∃ U, calcT rp = .ok { rp with
        shift := 55
        T := (List.range 256).map (entryT FINGERPRINT_PT)
        U := U } ∧ TableU rp.windowSize U := by
  have hd : FINGERPRINT_PT ≠ 0 := by decide
  have hs : 64 - 1 - 8 = 55 := rfl
  have ha : Appends { rp with
      shift := 55
      T := (List.range 256).map (entryT FINGERPRINT_PT) } := ⟨rfl, rfl⟩
  obtain ⟨q, h1, -, h3⟩ := appendZeros_ok ha (rp.windowSize.toNat - 1) (p := 1) (by decide)
  rw [hp] at h1
  rw [UInt64.toNat_one, poly_one, mul_one] at h3
  refine ⟨(List.range 256).map fun i => polymmult (.ofNat i) q FINGERPRINT_PT, ?_, ?_⟩
  · simp only [calcT, hp, fls64_FINGERPRINT_PT, hs, h1]
    rfl
  · intro i hi
    obtain ⟨h4, h5⟩ := polymmult_spec hd (.ofNat i) q
    rw [fls64_FINGERPRINT_PT] at h4
    refine ⟨_, by rw [List.getElem?_map, List.getElem?_range hi, Option.map_some], h4, h5.trans ?_⟩
    rw [UInt64.toNat_ofNat_of_lt' (hi.trans (by decide)), mul_comm (X ^ _)]
    exact h3.mul_left _

/-! ## Sliding a byte -/

theorem length_window (w : UInt32) (past : Bytes) : (window w past).length = w.toNat :=
  Window.length_last ..

theorem window_concat {w : UInt32} (hw : 0 < w.toNat) (past : Bytes) (m : UInt8) :
    window w (past ++ [m]) = (window w past).tail ++ [m] := Window.last_concat hw ..

theorem bytesPoly_cons (m : UInt8) (b : Bytes) :
    bytesPoly (m :: b) = X ^ (8 * b.length) * poly m.toNat + bytesPoly b := by
  rw [bytesPoly, List.map_cons, digits, List.length_map, bytesPoly]

theorem next_lt (hw : 0 < rp.windowSize.toNat) : rp.next.toNat < rp.windowSize.toNat := by
  unfold Rabinpoly.next
  split
  case isTrue => exact hw
  case isFalse h => exact UInt32.lt_iff_toNat_lt.1 (UInt32.not_le.1 h)

/-- Going on from a place in the ring, or from its start once the end is reached, is the same to
the ring. -/
theorem rotate_next (hw : rp.bufpos.toNat < rp.windowSize.toNat) {l : Bytes}
    (hl : l.length = rp.windowSize.toNat) :
    l.rotate rp.next.toNat = l.rotate (rp.bufpos.toNat + 1) := by
  have hs : (rp.bufpos + 1).toNat = rp.bufpos.toNat + 1 := by
    have h32 := rp.windowSize.toNat_lt
    rw [UInt32.toNat_add, UInt32.toNat_one]
    exact Nat.mod_eq_of_lt (by omega)
  unfold Rabinpoly.next
  split
  case isTrue h =>
    have hle : rp.windowSize.toNat ≤ rp.bufpos.toNat + 1 := hs ▸ UInt32.le_iff_toNat_le.1 h
    have he : rp.bufpos.toNat + 1 = l.length := by omega
    rw [he, List.rotate_length]
    exact List.rotate_zero l
  case isFalse => rw [hs]

/-- A window is its oldest byte and the rest. -/
theorem window_eq_cons (h : Windowed rp past) :
    ∃ om, rp.buf[rp.next.toNat]? = some om ∧
      window rp.windowSize past = om :: (window rp.windowSize past).tail := by
  have hn : rp.next.toNat < rp.buf.length := h.length ▸ next_lt h.window_pos
  have hom := Window.head?_rotate hn
  rw [h.ring] at hom
  refine ⟨_, List.getElem?_eq_getElem hn, ?_⟩
  exact (List.cons_head?_tail (hom.trans (List.getElem?_eq_getElem hn))).symm

/-- **Sliding a byte** through the window: no table or ring is read outside its bounds, and the
fingerprint is the residue of the new window. -/
theorem slide8_ok (h : Windowed rp past) (m : UInt8) :
    ∃ buf fingerprint,
      slide8 rp m = .ok { rp with bufpos := rp.next, buf := buf, fingerprint := fingerprint } ∧
      Windowed { rp with bufpos := rp.next, buf := buf, fingerprint := fingerprint }
        (past ++ [m]) := by
  have hn : rp.next.toNat < rp.buf.length := h.length ▸ next_lt h.window_pos
  obtain ⟨om, hom, hw⟩ := window_eq_cons h
  obtain ⟨u, hu, hu63, hures⟩ := h.U om.toNat om.toNat_lt
  have hlen : (window rp.windowSize past).tail.length = rp.windowSize.toNat - 1 := by
    rw [List.length_tail, length_window]
  -- what is left when the oldest byte is taken off
  have hoff : Congr FINGERPRINT_PT.toNat (poly (rp.fingerprint ^^^ u).toNat)
      (bytesPoly (window rp.windowSize past).tail) := by
    have hsum := h.residue.add hures
    have h2 : (2 : (ZMod 2)[X]) = 0 := CharTwo.two_eq_zero
    have htwice : ∀ a b : (ZMod 2)[X], a + b + a = b := fun a b => by linear_combination a * h2
    rw [hw, bytesPoly_cons, hlen, htwice] at hsum
    rwa [UInt64.toNat_xor, poly_xor]
  have hoff63 : (rp.fingerprint ^^^ u).toNat < 2 ^ 63 := by
    rw [UInt64.toNat_xor]
    exact Nat.xor_lt_two_pow h.lt hu63
  obtain ⟨q, hq, hq63, hqres⟩ := append8_ok h.toAppends hoff63 m
  have ht : Tabled { rp with
      bufpos := rp.next, buf := rp.buf.set rp.next.toNat m, fingerprint := q } :=
    ⟨⟨h.shift, h.T⟩, h.window_pos, h.U⟩
  refine ⟨rp.buf.set rp.next.toNat m, q, ?_, ⟨ht, ?_, ?_, hq63, ?_⟩⟩
  · have hnext : (if rp.bufpos + 1 ≥ rp.windowSize then 0 else rp.bufpos + 1) = rp.next := rfl
    have hb : readAt rp.buf rp.next.toNat = .ok om := by rw [readAt, hom]
    have hU : readAt rp.U om.toNat = .ok u := by rw [readAt, hu]
    have hs : writeAt rp.buf rp.next.toNat m = .ok (rp.buf.set rp.next.toNat m) := if_pos hn
    simp only [slide8, hnext, hb, hs, hU, hq, ok_bind]
    rfl
  · rw [List.length_set, h.length]
  · rw [rotate_next (next_lt h.window_pos) (by rw [List.length_set, h.length]),
      Window.rotate_set hn, h.ring, window_concat h.window_pos]
  · rw [window_concat h.window_pos, bytesPoly_concat]
    exact hqres.trans ((hoff.mul_left _).add (.refl _))

/-! ## A fresh segmenter -/

/-- The parameters `rabin_init` accepts, its allocations included. -/
structure Accepts (env : MallocEnv) (w avg mn mx : UInt32) : Prop where
  min_pos : 0 < mn.toNat
  min_le : mn.toNat ≤ avg.toNat
  le_max : avg.toNat ≤ mx.toNat
  window_le : 32 ≤ w.toNat
  rp : env.rp = true
  buf : env.buf = true

/-- What `rabin_init` makes of parameters it accepts, with the table `U`. -/
def freshRabin (w avg mn mx : UInt32) (U : List UInt64) : Rabinpoly :=
  { rabinFields w avg mn mx with
    shift := 55
    T := (List.range 256).map (entryT FINGERPRINT_PT)
    U := U
    buf := List.replicate w.toNat 0 }

variable {env : MallocEnv} {w avg mn mx : UInt32} {U : List UInt64}

/-- An empty window has nothing but zeros. -/
theorem bytesPoly_replicate_zero (n : ℕ) : bytesPoly (List.replicate n 0) = 0 := by
  rw [bytesPoly, List.map_replicate, UInt8.toNat_zero, digits_replicate_zero]

theorem windowed_freshRabin (avg mn mx : UInt32) (hw : 0 < w.toNat) (hU : TableU w U) :
    Windowed (freshRabin w avg mn mx U) [] where
  shift := rfl
  T := rfl
  window_pos := hw
  U := hU
  length := List.length_replicate
  ring := by
    rw [freshRabin, List.rotate_replicate]
    exact (Window.last_nil _ _).symm
  lt := Nat.two_pow_pos 63
  residue := by
    have hz : bytesPoly (window w []) = 0 := by
      rw [window, Window.last_nil, bytesPoly_replicate_zero]
    have hp : poly (freshRabin w avg mn mx U).fingerprint.toNat = 0 := poly_zero
    rw [hp]
    exact hz ▸ .refl _

/-- What `rabin_init` comes to: refused, or everything it needs. -/
theorem rabinInit_cases (env : MallocEnv) (w avg mn mx : UInt32) :
    (rabinInit env w avg mn mx = .ok none ∧ ¬ Accepts env w avg mn mx) ∨
      Accepts env w avg mn mx ∧ ∃ U, TableU w U ∧
        rabinInit env w avg mn mx = .ok (some (freshRabin w avg mn mx U)) := by
  obtain ⟨U, hU, hT⟩ := calcT_ok (rabinFields w avg mn mx) rfl
  have hpos : ∀ v : UInt32, v = 0 ↔ v.toNat = 0 := fun v => (UInt32.toNat_inj (b := 0)).symm
  have h32 : DEFAULT_WINDOW_SIZE.toNat = 32 := rfl
  unfold rabinInit
  split
  case isTrue hg =>
    simp only [hpos, gt_iff_lt, UInt32.lt_iff_toNat_lt, h32] at hg
    refine Or.inl ⟨rfl, fun h => ?_⟩
    obtain ⟨h1, h2, h3, h4, -, -⟩ := h
    omega
  case isFalse hg =>
    simp only [hpos, gt_iff_lt, UInt32.lt_iff_toNat_lt, h32] at hg
    split
    case isTrue hrp => exact Or.inl ⟨rfl, fun h => absurd h.rp (by simp [hrp])⟩
    case isFalse hrp =>
      simp only [hU, ok_bind]
      split
      case isTrue hb => exact Or.inl ⟨rfl, fun h => absurd h.buf (by simp [hb])⟩
      case isFalse hb =>
        refine Or.inr ⟨⟨?_, ?_, ?_, ?_, by simpa using hrp, by simpa using hb⟩, U, hT, rfl⟩
        all_goals omega

/-- **What `rabin_init` does not refuse it sets up**, with every table access in bounds. -/
theorem rabinInit_of_ne (h : rabinInit env w avg mn mx ≠ .ok none) :
    Accepts env w avg mn mx ∧ ∃ U, TableU w U ∧
      rabinInit env w avg mn mx = .ok (some (freshRabin w avg mn mx U)) :=
  (rabinInit_cases env w avg mn mx).resolve_left fun hn => h hn.1

theorem Accepts.ne (h : Accepts env w avg mn mx) : rabinInit env w avg mn mx ≠ .ok none := by
  rcases rabinInit_cases env w avg mn mx with ⟨-, hn⟩ | ⟨-, U, -, hU⟩
  · exact absurd h hn
  · rw [hU]
    simp

/-! ## A stream of bytes -/

/-- A byte string fed through `slide8`. -/
def slides (rp : Rabinpoly) : Bytes → Checked Rabinpoly
  | [] => .ok rp
  | b :: bs => do
    let rp ← slide8 rp b
    slides rp bs

/-- The states a segmenter can be in after some calls. -/
inductive Reached (rp₀ : Rabinpoly) : Rabinpoly → Prop
  | init : Reached rp₀ rp₀
  | slide {rp rp' : Rabinpoly} {m : UInt8} : Reached rp₀ rp → slide8 rp m = .ok rp' →
      Reached rp₀ rp'
  | segment {rp rp' : Rabinpoly} {buf : Bytes} {n : Int32} {isNew : Bool} : Reached rp₀ rp →
      rabinSegmentNext rp buf = .ok (rp', n, isNew) → Reached rp₀ rp'
  | reset {rp : Rabinpoly} : Reached rp₀ rp → Reached rp₀ (rabinReset rp)

/-- A slide changes nothing a reset keeps. -/
theorem reset_slide8 (h : slide8 rp m = .ok rp') : rabinReset rp' = rabinReset rp := by
  unfold slide8 at h
  obtain ⟨om, -, h⟩ := bind_eq_ok_iff.1 h
  obtain ⟨buf, -, h⟩ := bind_eq_ok_iff.1 h
  obtain ⟨u, -, h⟩ := bind_eq_ok_iff.1 h
  obtain ⟨q, -, h⟩ := bind_eq_ok_iff.1 h
  rw [← Except.ok.inj h]
  rfl

theorem reset_curSegSize (rp : Rabinpoly) (n : UInt32) :
    rabinReset { rp with curSegSize := n } = rabinReset rp := rfl

/-- A turn of the loop over a buffer changes nothing a reset keeps. -/
theorem reset_segmentByte {r : Rabinpoly × Bool} (h : segmentByte rp m = .ok r) :
    rabinReset r.1 = rabinReset rp := by
  obtain ⟨rp', hs, h⟩ := bind_eq_ok_iff.1 h
  dsimp only at h
  split at h
  case isTrue =>
    rw [← Except.ok.inj h]
    exact (reset_curSegSize rp' _).trans (reset_slide8 hs)
  case isFalse =>
    split at h
    all_goals
      rw [← Except.ok.inj h]
      exact (reset_curSegSize rp' _).trans (reset_slide8 hs)

/-- A loop over a buffer changes nothing a reset keeps. -/
theorem reset_segmentLoop {bs : Bytes} {r : Rabinpoly × ℕ × Bool}
    (h : segmentLoop rp i bs = .ok r) : rabinReset r.1 = rabinReset rp := by
  induction bs generalizing rp i with
  | nil => rw [← Except.ok.inj h]
  | cons b bs ih =>
    obtain ⟨r', hs, h⟩ := bind_eq_ok_iff.1 h
    split at h
    · rw [← Except.ok.inj h]
      exact reset_segmentByte hs
    · exact (ih h).trans (reset_segmentByte hs)

/-- **A reset undoes everything.** -/
theorem Reached.reset_eq {rp₀ rp : Rabinpoly} (h : Reached rp₀ rp) :
    rabinReset rp = rabinReset rp₀ := by
  induction h with
  | init => rfl
  | slide _ hs ih => exact (reset_slide8 hs).trans ih
  | segment _ hs ih =>
    obtain ⟨r, hr, he⟩ := bind_eq_ok_iff.1 hs
    obtain ⟨rfl, -⟩ := Prod.mk.inj (Except.ok.inj he)
    exact (reset_segmentLoop hr).trans ih
  | reset _ ih => exact ih

theorem reset_freshRabin : rabinReset (freshRabin w avg mn mx U) = freshRabin w avg mn mx U := rfl

/-- **Any bytes** slide through without an access out of bounds. -/
theorem slides_ok (h : Windowed rp past) (bs : Bytes) :
    ∃ rp', slides rp bs = .ok rp' ∧ Windowed rp' (past ++ bs) ∧ rp'.windowSize = rp.windowSize := by
  induction bs generalizing rp past with
  | nil => exact ⟨rp, rfl, by rwa [List.append_nil], rfl⟩
  | cons b bs ih =>
    obtain ⟨buf, q, h1, h2⟩ := slide8_ok h b
    obtain ⟨rp', h3, h4, h5⟩ := ih h2
    rw [List.append_assoc] at h4
    refine ⟨rp', ?_, h4, h5⟩
    rw [slides, h1]
    exact h3

/-- The fingerprint is the residue of the window. -/
theorem Windowed.eq_modByMonic (h : Windowed rp past) :
    poly rp.fingerprint.toNat
      = bytesPoly (window rp.windowSize past) %ₘ poly FINGERPRINT_PT.toNat := by
  obtain ⟨hd, hm⟩ := degree_FINGERPRINT_PT
  exact h.residue.eq_modByMonic hm (hd ▸ degree_poly_lt h.lt)

/-- States that show the same window have the same fingerprint. -/
theorem Windowed.fingerprint_eq {past' : Bytes} (h : Windowed rp past) (h' : Windowed rp' past')
    (hw : window rp.windowSize past = window rp'.windowSize past') :
    rp.fingerprint = rp'.fingerprint := by
  refine UInt64.toNat_inj.1 (poly_injective ?_)
  rw [h.eq_modByMonic, h'.eq_modByMonic, hw]

/-- **The fingerprint is the residue of the last `w` bytes**, as a polynomial modulo
`FINGERPRINT_PT`, from a fresh or a reset state, and depends on them alone.  `T` has 256 entries and
is never read outside them, neither while `U` is built nor later. -/
theorem fingerprint_residue (hacc : rabinInit env w avg mn mx ≠ .ok none) :
    ∃ rp₀, rabinInit env w avg mn mx = .ok (some rp₀) ∧ rp₀.T.length = 256 ∧
      ∀ rp, (rp = rp₀ ∨ ∃ r, Reached rp₀ r ∧ rp = rabinReset r) → ∀ bs,
        ∃ rp', slides rp bs = .ok rp' ∧
          poly rp'.fingerprint.toNat = bytesPoly (window w bs) %ₘ poly FINGERPRINT_PT.toNat ∧
          rp'.fingerprint.toNat < 2 ^ 63 ∧
          ∀ bs' rp'', slides rp bs' = .ok rp'' → window w bs' = window w bs →
            rp''.fingerprint = rp'.fingerprint := by
  obtain ⟨ha, U, hU, hinit⟩ := rabinInit_of_ne hacc
  refine ⟨_, hinit, by simp [freshRabin], fun rp hrp bs => ?_⟩
  have hfresh : rp = freshRabin w avg mn mx U := by
    rcases hrp with rfl | ⟨r, hr, rfl⟩
    · rfl
    · exact hr.reset_eq.trans reset_freshRabin
  subst hfresh
  have hpos : 0 < w.toNat := (by decide : 0 < 32).trans_le ha.window_le
  have hw := windowed_freshRabin avg mn mx hpos hU
  obtain ⟨rp', h1, h2, h3⟩ := slides_ok hw bs
  have h3' : rp'.windowSize = w := h3
  refine ⟨rp', h1, ?_, h2.lt, fun bs' rp'' hs he => ?_⟩
  · have := h2.eq_modByMonic
    rwa [h3'] at this
  · obtain ⟨r, g1, g2, g3⟩ := slides_ok hw bs'
    obtain rfl := Except.ok.inj (g1.symm.trans hs)
    have g3' : r.windowSize = w := g3
    exact g2.fingerprint_eq h2 (by rw [g3', h3']; exact he)

theorem fingerprint_residue_48 :
    ∃ rp₀, rabinInit ⟨true, true⟩ 48 4096 2048 8192 = .ok (some rp₀) ∧ rp₀.T.length = 256 ∧
      ∀ rp, (rp = rp₀ ∨ ∃ r, Reached rp₀ r ∧ rp = rabinReset r) → ∀ bs,
        ∃ rp', slides rp bs = .ok rp' ∧
          poly rp'.fingerprint.toNat = bytesPoly (window 48 bs) %ₘ poly FINGERPRINT_PT.toNat ∧
          rp'.fingerprint.toNat < 2 ^ 63 ∧
          ∀ bs' rp'', slides rp bs' = .ok rp'' → window 48 bs' = window 48 bs →
            rp''.fingerprint = rp'.fingerprint :=
  fingerprint_residue (Accepts.ne ⟨by decide, by decide, by decide, by decide, rfl, rfl⟩)

end CloudFS
