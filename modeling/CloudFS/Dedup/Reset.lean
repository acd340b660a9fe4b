import CloudFS.Dedup.Segments

/-!
# Dedup/Reset — a segmenter used again

A reset keeps the parameters and the tables, and no call touches these; whatever a call leaves
behind, a reset overwrites.  So after any calls `rabin_reset` leaves the state `rabin_init`
returned, and the calls that follow return what they would on a new segmenter (`reset_fresh`).
-/

namespace CloudFS

/-- `rabin_segment_next` with its check of the arguments: `none` stands for a null pointer, and
leaves `is_new_segment` alone. -/
def segmentNext (rp : Rabinpoly) : Option Bytes → Checked (Rabinpoly × Int32 × Option Bool)
  | none => .ok (rp, -1, none)
  | some buf => do
    let r ← rabinSegmentNext rp buf
    return (r.1, r.2.1, some r.2.2)

/-- The state after some calls, and what each returned and stored in `is_new_segment`. -/
def segmentCalls (rp : Rabinpoly) :
    List (Option Bytes) → Checked (Rabinpoly × List (Int32 × Option Bool))
  | [] => .ok (rp, [])
  | buf :: bufs => do
    let r ← segmentNext rp buf
    let s ← segmentCalls r.1 bufs
    return (s.1, r.2 :: s.2)

variable {rp : Rabinpoly} {past : Bytes} {env : MallocEnv} {w avg mn mx : UInt32}

/-- A turn of the loop goes through. -/
theorem segmentByte_total (h : Windowed rp past) (b : UInt8) :
    ∃ r, segmentByte rp b = .ok r ∧ Windowed r.1 (past ++ [b]) := by
  obtain ⟨buf, q, hslide, hwin⟩ := slide8_ok h b
  simp only [segmentByte, hslide, ok_bind]
  split
  case isTrue => exact ⟨_, rfl, hwin.withSize _⟩
  case isFalse =>
    split
    case isTrue => exact ⟨_, rfl, hwin.withSize _⟩
    case isFalse => exact ⟨_, rfl, hwin.withSize _⟩

/-- The loop over a buffer goes through, wherever it ends. -/
theorem segmentLoop_total (h : Windowed rp past) (i : ℕ) (bs : Bytes) :
    ∃ r past', segmentLoop rp i bs = .ok r ∧ Windowed r.1 past' := by
  induction bs generalizing rp past i with
  | nil => exact ⟨_, past, rfl, h⟩
  | cons b bs ih =>
    obtain ⟨r, hr, hwin⟩ := segmentByte_total h b
    rw [segmentLoop, hr, ok_bind]
    split
    case isTrue => exact ⟨_, _, rfl, hwin⟩
    case isFalse => exact ih hwin (i + 1)

/-- **A call** goes through, and changes nothing a reset keeps. -/
theorem segmentNext_total (h : Windowed rp past) (buf : Option Bytes) :
    ∃ r past', segmentNext rp buf = .ok r ∧ Windowed r.1 past' ∧
      rabinReset r.1 = rabinReset rp := by
  cases buf with
  | none => exact ⟨_, past, rfl, h, rfl⟩
  | some bs =>
    obtain ⟨r, past', hr, hwin⟩ := segmentLoop_total h 0 bs
    refine ⟨(r.1, .ofNat r.2.1, some r.2.2), past', ?_, hwin, reset_segmentLoop hr⟩
    simp only [segmentNext, rabinSegmentNext, hr, ok_bind]
    rfl

/-- **Any calls** go through, and change nothing a reset keeps. -/
theorem segmentCalls_total (h : Windowed rp past) (bufs : List (Option Bytes)) :
    ∃ r, segmentCalls rp bufs = .ok r ∧ rabinReset r.1 = rabinReset rp := by
  induction bufs generalizing rp past with
  | nil => exact ⟨_, rfl, rfl⟩
  | cons buf bufs ih =>
    obtain ⟨r, past', hr, hwin, hreset⟩ := segmentNext_total h buf
    obtain ⟨s, hs, hreset'⟩ := ih hwin
    refine ⟨(s.1, r.2 :: s.2), ?_, hreset'.trans hreset⟩
    rw [segmentCalls, hr, ok_bind, hs]
    rfl

/-- **A reset is a fresh start**: whatever calls were made before it, the calls after it return what
they return on a segmenter `rabin_init` has just made. -/
theorem reset_fresh (hacc : rabinInit env w avg mn mx ≠ .ok none)
    (calls more : List (Option Bytes)) :
    ∃ fresh rp rs rp' rs', rabinInit env w avg mn mx = .ok (some fresh) ∧
      segmentCalls fresh calls = .ok (rp, rs) ∧
      segmentCalls (rabinReset rp) more = .ok (rp', rs') ∧
      segmentCalls fresh more = .ok (rp', rs') := by
  obtain ⟨ha, U, hU, hinit⟩ := rabinInit_of_ne hacc
  have hw := (fresh_freshRabin ha hU).toWindowed
  obtain ⟨⟨rp, rs⟩, hcalls, hreset⟩ := segmentCalls_total hw calls
  obtain ⟨⟨rp', rs'⟩, hmore, -⟩ := segmentCalls_total hw more
  have hfresh : rabinReset rp = freshRabin w avg mn mx U := hreset.trans reset_freshRabin
  exact ⟨_, rp, rs, rp', rs', hinit, hcalls, hfresh ▸ hmore, hmore⟩

theorem reset_fresh_32 :
    ∃ fresh rp rs rp' rs', rabinInit ⟨true, true⟩ 32 2 1 3 = .ok (some fresh) ∧
      segmentCalls fresh [some [7, 8], none] = .ok (rp, rs) ∧
      segmentCalls (rabinReset rp) [some [9], some []] = .ok (rp', rs') ∧
      segmentCalls fresh [some [9], some []] = .ok (rp', rs') :=
  reset_fresh (Accepts.ne ⟨by decide, by decide, by decide, by decide, rfl, rfl⟩)
    [some [7, 8], none] [some [9], some []]

end CloudFS
