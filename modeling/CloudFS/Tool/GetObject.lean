import CloudFS.Tool.PutObject

/-!
# Tool/GetObject — `s3 get`, with retries

`get_object` of the `s3` tool writes what `S3_get_object` hands to `getObjectDataCallback` to a
file, and asks again when the request fails and may be retried.  The file is neither rewound between
the requests nor truncated, so it is the object exactly when no request before the last wrote
anything and the file was not longer (`get_whole_iff`).

The tool's own callback has the name of the library's in `Requests/Transfer`.
-/

namespace CloudFS.S3

/-! ## The program -/

/-- A file after `written` is written from its start on: one that exists is opened with `"r+"`. -/
def writtenTo {α : Type} (outfile : Option (List α)) (written : List α) : List α :=
  match outfile with
  | none => written
  | some old => written ++ old.drop written.length

/-- `getObjectDataCallback`: whether all was written, and what is written after the call. -/
def getObjectDataCallback (d : Delivery) (written : Bytes) : Bool × Bytes :=
  let bufferSize := Int32.ofNat d.buffer.length
  let r := fwrite d.room bufferSize.toInt64.toUInt64.toNat d.buffer written
  (¬UInt64.ofNat r.1 < bufferSize.toInt64.toUInt64, r.2)

/-- A request: what it hands to the callback, and how it ends if the callback aborts no call. -/
structure GetAttempt where
  deliveries : List Delivery
  status : Status

/-- The calls of one request: how it ends, and what it wrote. -/
def getAttempt : List Delivery → Status → Bytes → Status × Bytes
  | [], status, written => (status, written)
  | d :: ds, status, written =>
    let r := getObjectDataCallback d written
    if r.1 then getAttempt ds status r.2
    -- `S3StatusAbortedByCallback` may not be retried
    else (.failed false, r.2)

/-- The requests of `get_object`, at most `retriesG` of them made again: how the last one ended, and
what each of them wrote. -/
def getAttempts : (attempts : ℕ → GetAttempt) → (retriesG : ℕ) → Status × List Bytes
  | attempts, 0 =>
    let r := getAttempt (attempts 0).deliveries (attempts 0).status []
    (r.1, [r.2])
  | attempts, retriesG + 1 =>
    let r := getAttempt (attempts 0).deliveries (attempts 0).status []
    if r.1 = .failed true then
      let s := getAttempts (fun k => attempts (k + 1)) retriesG
      (s.1, r.2 :: s.2)
    else (r.1, [r.2])

/-- How `get_object` ends: with `exit(-1)`, or with the status of its last request and the file. -/
inductive GetEnd
  | exits
  | ended (status : Status) (outfile : Bytes)
  deriving DecidableEq

/-- `get_object`, writing to a file if it can be opened, with what is in it if it exists, or to
standard output. -/
def getObject (attempts : ℕ → GetAttempt) (retriesG : ℕ)
    (filename : Option (Option (Option Bytes))) : GetEnd :=
  let r := getAttempts attempts retriesG
  match filename with
  | some none => .exits
  | some (some outfile) => .ended r.1 (writtenTo outfile r.2.flatten)
  | none => .ended r.1 r.2.flatten

/-! ## What is written -/

variable {object written : Bytes} {attempts : ℕ → GetAttempt} {retriesG : ℕ} {status : Status}

/-- **A request for `object`**: it hands over the first bytes of it, and all of them if it
succeeds. -/
structure GetAttempt.Serves (attempt : GetAttempt) (object : Bytes) : Prop where
  pre : attempt.deliveries.flatMap Delivery.buffer <+: object
  whole : attempt.status = .ok → attempt.deliveries.flatMap Delivery.buffer = object

/-- **One call** writes what there is room for, and tells whether that is all. -/
theorem getObjectDataCallback_eq (d : Delivery) (written : Bytes) :
    getObjectDataCallback d written = (decide d.Full, written ++ d.buffer.take d.room) := by
  have hsize := Int32.toNat_toUInt64_ofNat d.fits
  have hmin : min d.room d.buffer.length < 2 ^ 64 :=
    (min_le_right _ _).trans_lt (d.fits.trans (by decide))
  have htake : d.buffer.take (min d.room d.buffer.length) = d.buffer.take d.room := by
    rw [← List.take_take, List.take_length]
  have hfull : ¬UInt64.ofNat (min d.room d.buffer.length)
      < (Int32.ofNat d.buffer.length).toInt64.toUInt64 ↔ d.Full := by
    rw [UInt64.lt_iff_toNat_lt, hsize, UInt64.toNat_ofNat_of_lt' hmin]
    exact (not_lt.trans (le_min_iff.trans (and_iff_left le_rfl)))
  simp only [getObjectDataCallback, fwrite, hsize, htake]
  rw [decide_eq_decide.2 hfull]

/-- The calls of one request write the first bytes of what it hands over, and all of them if it
succeeds. -/
theorem getAttempt_spec (ds : List Delivery) (status : Status) (written : Bytes) :
    ∃ w, (getAttempt ds status written).2 = written ++ w ∧ w <+: ds.flatMap Delivery.buffer ∧
      ((getAttempt ds status written).1 = .ok → status = .ok ∧ w = ds.flatMap Delivery.buffer) := by
  induction ds generalizing written with
  | nil => exact ⟨[], (List.append_nil _).symm, List.prefix_rfl, fun h => ⟨h, rfl⟩⟩
  | cons d ds ih =>
    rw [getAttempt, getObjectDataCallback_eq, List.flatMap_cons]
    by_cases hd : d.Full
    · obtain ⟨w, hw, hpre, hok⟩ := ih (written ++ d.buffer.take d.room)
      have hall : d.buffer.take d.room = d.buffer := List.take_of_length_le hd
      rw [hall] at hw hok ⊢
      refine ⟨d.buffer ++ w, ?_, (List.prefix_append_right_inj _).2 hpre, fun h => ?_⟩
      · rw [if_pos (decide_eq_true hd), hw, List.append_assoc]
      · rw [if_pos (decide_eq_true hd)] at h
        exact ⟨(hok h).1, by rw [(hok h).2]⟩
    · rw [if_neg (by simpa using hd)]
      exact ⟨d.buffer.take d.room, rfl, (List.take_prefix _ _).trans (List.prefix_append _ _),
        nofun⟩

/-- **The requests write one after another**: each the first bytes of the object, and the last of
them all of it if it succeeds. -/
theorem getAttempts_spec (hserves : ∀ k, (attempts k).Serves object) (retriesG : ℕ) :
    ∃ early last, (getAttempts attempts retriesG).2 = early ++ [last] ∧ last <+: object ∧
      ((getAttempts attempts retriesG).1 = .ok → last = object) := by
  have hfirst : ∀ attempt : GetAttempt, attempt.Serves object →
      (getAttempt attempt.deliveries attempt.status []).2 <+: object ∧
        ((getAttempt attempt.deliveries attempt.status []).1 = .ok →
          (getAttempt attempt.deliveries attempt.status []).2 = object) := by
    intro attempt h
    obtain ⟨w, hw, hpre, hok⟩ := getAttempt_spec attempt.deliveries attempt.status []
    rw [List.nil_append] at hw
    rw [hw]
    exact ⟨hpre.trans h.pre, fun hstatus => (hok hstatus).2.trans (h.whole (hok hstatus).1)⟩
  induction retriesG generalizing attempts with
  | zero => exact ⟨[], _, rfl, hfirst (attempts 0) (hserves 0)⟩
  | succ retriesG ih =>
    rw [getAttempts]
    split
    case isTrue h =>
      obtain ⟨early, last, hlast, hspec⟩ := ih fun k => hserves (k + 1)
      exact ⟨_ :: early, last, congrArg (List.cons _) hlast, hspec⟩
    case isFalse h => exact ⟨[], _, rfl, hfirst (attempts 0) (hserves 0)⟩

theorem writtenTo_eq {α : Type} {outfile : Option (List α)} {written : List α}
    (h : ∀ old ∈ outfile, old.length ≤ written.length) : writtenTo outfile written = written := by
  cases outfile with
  | none => rfl
  | some old => rw [writtenTo, List.drop_eq_nil_of_le (h old rfl), List.append_nil]

/-- What is written is the whole file exactly where no more was in it. -/
theorem length_writtenTo {α : Type} (outfile : Option (List α)) (written : List α) :
    (writtenTo outfile written).length = max written.length (outfile.elim 0 List.length) := by
  cases outfile with
  | none => exact (Nat.max_zero _).symm
  | some old =>
    rw [writtenTo, List.length_append, List.length_drop, Option.elim_some]
    omega

/-- **A get is the object only if no request before the last wrote any of it, and the file was not
longer**: what is written is never taken back. -/
theorem get_whole_iff (hserves : ∀ k, (attempts k).Serves object) (outfile : Option Bytes)
    (hok : (getAttempts attempts retriesG).1 = .ok) :
    ∃ file, getObject attempts retriesG (some (some outfile)) = .ended .ok file ∧
      (file = object ↔ (getAttempts attempts retriesG).2.dropLast.flatten = [] ∧
        ∀ old ∈ outfile, old.length ≤ object.length) := by
  obtain ⟨early, last, hwritten, -, hlast⟩ := getAttempts_spec hserves retriesG
  obtain rfl := hlast hok
  refine ⟨_, by rw [getObject, hok], ?_⟩
  rw [hwritten, List.dropLast_concat, List.flatten_append, List.flatten_singleton]
  constructor
  · intro h
    have hlen := congrArg List.length h
    rw [length_writtenTo, List.length_append] at hlen
    refine ⟨List.eq_nil_of_length_eq_zero (by omega), ?_⟩
    rintro old rfl
    rw [Option.elim_some] at hlen
    omega
  · rintro ⟨hearly, hold⟩
    rw [hearly, List.nil_append, writtenTo_eq hold]

/-- Two bytes, of which the first request wrote one before it failed, over a file of three. -/
theorem get_whole_iff_retried :
    let attempts : ℕ → GetAttempt := fun k =>
      if k = 0 then ⟨[⟨[1], 9, by decide⟩], .failed true⟩ else ⟨[⟨[1, 2], 9, by decide⟩], .ok⟩
    ∃ file, getObject attempts 5 (some (some (some [7, 8, 9]))) = .ended .ok file ∧
      (file = [1, 2] ↔ (getAttempts attempts 5).2.dropLast.flatten = [] ∧
        ∀ old ∈ (some [7, 8, 9] : Option Bytes), old.length ≤ 2) := by
  intro attempts
  have hok : (getAttempts attempts 5).1 = .ok := by decide
  have hserves : ∀ k, (attempts k).Serves [1, 2] := by
    intro k
    by_cases hk : k = 0
    · subst hk
      exact ⟨⟨[2], rfl⟩, nofun⟩
    · have hattempt : attempts k = ⟨[⟨[1, 2], 9, by decide⟩], .ok⟩ := if_neg hk
      rw [hattempt]
      exact ⟨List.prefix_rfl, fun _ => rfl⟩
  exact get_whole_iff hserves (some [7, 8, 9]) hok

end CloudFS.S3
