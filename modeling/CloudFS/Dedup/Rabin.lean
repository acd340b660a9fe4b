import CloudFS.Dedup.Polynomial
import CloudFS.Machinery.Bytes

/-!
# Dedup/Rabin — the segmenter of `rabinpoly.c`

A `Rabinpoly` slides bytes through a circular window and keeps their fingerprint up to date from
two tables; `rabinSegmentNext` cuts where the low bits of the fingerprint are zero, or a segment
has its greatest size.  An access outside an array ends a computation in `Checked`.  Null
pointers come in with `Dedup/Reset`; the file that counts the calls is left out.
-/

namespace CloudFS

/-! ## Arrays -/

/-- An access outside an array. -/
inductive AccessError
  | outOfBounds
  deriving DecidableEq

/-- A computation that ends with its first access outside an array. -/
abbrev Checked (α : Type) := Except AccessError α

/-- A computation goes on with the value of what succeeded. -/
@[simp] theorem ok_bind {α β : Type} (a : α) (f : α → Checked β) :
    ((Except.ok a : Checked α) >>= f) = f a := rfl

/-- A computation succeeds if each of its parts does. -/
theorem bind_eq_ok_iff {α β : Type} {x : Checked α} {f : α → Checked β} {b : β} :
    x >>= f = .ok b ↔ ∃ a, x = .ok a ∧ f a = .ok b := by
  cases x with
  | error e => exact ⟨fun h => absurd h (by simp [bind, Except.bind]), by rintro ⟨a, h, -⟩; cases h⟩
  | ok a => exact ⟨fun h => ⟨a, rfl, h⟩, by rintro ⟨c, h, hc⟩; cases h; exact hc⟩

/-- The value of `a[i]`. -/
def readAt {α : Type} (a : List α) (i : ℕ) : Checked α :=
  match a[i]? with
  | some x => .ok x
  | none => .error .outOfBounds

/-- The array after `a[i] = x`. -/
def writeAt {α : Type} (a : List α) (i : ℕ) (x : α) : Checked (List α) :=
  if i < a.length then .ok (a.set i x) else .error .outOfBounds

/-! ## The fingerprint -/

/-- `struct rabinpoly`. -/
structure Rabinpoly where
  poly : UInt64
  windowSize : UInt32
  avgSegmentSize : UInt32
  minSegmentSize : UInt32
  maxSegmentSize : UInt32
  fingerprint : UInt64
  fingerprintMask : UInt64
  buf : Bytes
  bufpos : UInt32
  curSegSize : UInt32
  shift : ℕ
  T : List UInt64
  U : List UInt64
  deriving DecidableEq

/-- `FINGERPRINT_PT`. -/
def FINGERPRINT_PT : UInt64 := 0xbfe6b8a5bf378d83

/-- `DEFAULT_WINDOW_SIZE`. -/
def DEFAULT_WINDOW_SIZE : UInt32 := 32

/-- `append8`. -/
def append8 (rp : Rabinpoly) (p : UInt64) (m : UInt8) : Checked UInt64 := do
  let t ← readAt rp.T (p >>> UInt64.ofNat rp.shift).toNat
  return ((p <<< 8) ||| m.toUInt64) ^^^ t

/-- `slide8`. -/
def slide8 (rp : Rabinpoly) (m : UInt8) : Checked Rabinpoly := do
  let bufpos := rp.bufpos + 1
  let bufpos := if bufpos ≥ rp.windowSize then 0 else bufpos
  let om ← readAt rp.buf bufpos.toNat
  let buf ← writeAt rp.buf bufpos.toNat m
  let u ← readAt rp.U om.toNat
  let fingerprint ← append8 rp (rp.fingerprint ^^^ u) m
  return { rp with
    bufpos := bufpos
    buf := buf
    fingerprint := fingerprint }

/-- The loop of `calcT` that appends `n` zero bytes. -/
def appendZeros (rp : Rabinpoly) : ℕ → UInt64 → Checked UInt64
  | 0, p => .ok p
  | n + 1, p => do
    let p ← append8 rp p 0
    appendZeros rp n p

/-- The entry `T[i]`. -/
def entryT (poly : UInt64) (i : ℕ) : UInt64 :=
  let xshift := fls64 poly - 1
  let T1 := polymod 0 (bit64 xshift) poly
  polymmult (.ofNat i) T1 poly ||| (.ofNat i <<< UInt64.ofNat xshift)

/-- `calcT`. -/
def calcT (rp : Rabinpoly) : Checked Rabinpoly := do
  let xshift := fls64 rp.poly - 1
  let rp := { rp with
    shift := xshift - 8
    T := (List.range 256).map (entryT rp.poly) }
  let sizeshift ← appendZeros rp (rp.windowSize.toNat - 1) 1
  return { rp with U := (List.range 256).map fun i => polymmult (.ofNat i) sizeshift rp.poly }

/-! ## The interface -/

/-- Which of the allocations of `rabin_init` succeed. -/
structure MallocEnv where
  rp : Bool
  buf : Bool

/-- What `rabin_init` sets before it calls `calcT`.  The mask is an `int` until it is stored. -/
def rabinFields (windowSize avgSegmentSize minSegmentSize maxSegmentSize : UInt32) : Rabinpoly where
  poly := FINGERPRINT_PT
  windowSize := windowSize
  avgSegmentSize := avgSegmentSize
  minSegmentSize := minSegmentSize
  maxSegmentSize := maxSegmentSize
  fingerprint := 0
  fingerprintMask :=
    (((1 : Int32) <<< Int32.ofNat (fls32 avgSegmentSize - 1)) - 1).toInt64.toUInt64
  buf := []
  bufpos := -1
  curSegSize := 0
  shift := 0
  T := []
  U := []

/-- `rabin_init`, with `none` for `NULL`. -/
def rabinInit (env : MallocEnv) (windowSize avgSegmentSize minSegmentSize maxSegmentSize : UInt32) :
    Checked (Option Rabinpoly) :=
  if minSegmentSize = 0 ∨ avgSegmentSize = 0 ∨ maxSegmentSize = 0 ∨
      minSegmentSize > avgSegmentSize ∨ maxSegmentSize < avgSegmentSize ∨
      windowSize < DEFAULT_WINDOW_SIZE then .ok none
  else if env.rp = false then .ok none
  else do
    let rp ← calcT (rabinFields windowSize avgSegmentSize minSegmentSize maxSegmentSize)
    if env.buf = false then return none
    return some { rp with buf := List.replicate windowSize.toNat 0 }

/-- One turn of the loop of `rabin_segment_next`: whether a segment ends with the byte. -/
def segmentByte (rp : Rabinpoly) (b : UInt8) : Checked (Rabinpoly × Bool) := do
  let rp ← slide8 rp b
  let rp := { rp with curSegSize := rp.curSegSize + 1 }
  if rp.curSegSize < rp.minSegmentSize then return (rp, false)
  else if rp.fingerprint &&& rp.fingerprintMask = 0 ∨ rp.curSegSize = rp.maxSegmentSize then
    return ({ rp with curSegSize := 0 }, true)
  else return (rp, false)

/-- The loop of `rabin_segment_next` after `i` bytes: how many were processed, and whether a
segment ends there. -/
def segmentLoop (rp : Rabinpoly) (i : ℕ) : Bytes → Checked (Rabinpoly × ℕ × Bool)
  | [] => .ok (rp, i, false)
  | b :: bs => do
    let r ← segmentByte rp b
    if r.2 then return (r.1, i + 1, true) else segmentLoop r.1 (i + 1) bs

/-- `rabin_segment_next`: the number of bytes processed, an `int`, and `is_new_segment`. -/
def rabinSegmentNext (rp : Rabinpoly) (buf : Bytes) : Checked (Rabinpoly × Int32 × Bool) := do
  let r ← segmentLoop rp 0 buf
  return (r.1, Int32.ofNat r.2.1, r.2.2)

/-- `rabin_reset`. -/
def rabinReset (rp : Rabinpoly) : Rabinpoly :=
  { rp with
    fingerprint := 0
    bufpos := -1
    curSegSize := 0
    buf := List.replicate rp.windowSize.toNat 0 }

end CloudFS
