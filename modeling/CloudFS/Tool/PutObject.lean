import CloudFS.Requests.Transfer
import CloudFS.Tool.Growbuffer

/-!
# Tool/PutObject — `s3 put`, from standard input or a file, with retries

`put_object` of the `s3` tool hands a file, or all of its standard input, to `S3_put_object` through
`putObjectDataCallback`, and asks again when the request fails and may be retried.  What it reads
from its standard input goes through a growbuffer, and comes out as it went in (`put_stdin`).  All
attempts read on from where the last one stopped (`putAttempts_spec`), so the attempt that succeeds
is the whole input exactly when none before it was handed anything (`put_whole_iff`).

The tool's own callback data and callback have the names of the library's in `Requests/Transfer`.
-/

namespace CloudFS.S3

variable {B : ℕ}

/-- `fread(3)`: `count` bytes, unless the file ends or only `upTo` bytes come before an error. -/
def fread (upTo count : ℕ) (infile : Bytes) : Bytes × Bytes := infile.splitAt (min upTo count)

/-- The loop of `put_object` that reads all of its standard input, through a buffer of `N` bytes and
for at most `turns` turns; its result is missing where the memory does not suffice. -/
def readStdin (N : ℕ) (malloc : Malloc B) :
    (upTo : ℕ → ℕ) → (turns : ℕ) → Buffering B → UInt64 → Bytes →
      Option (Option (Buffering B × UInt64))
  | _, 0, _, _, _ => none
  | upTo, turns + 1, s, contentLength, stdin =>
    let r := fread (upTo 0) N stdin
    if r.1.length = 0 then some (some (s, contentLength))
    else do
      let (whole, s) ← growbufferAppend malloc s r.1
      if whole then
        let contentLength := contentLength + UInt64.ofNat r.1.length
        if r.1.length < N then some (some (s, contentLength))
        else readStdin N malloc (fun k => upTo (k + 1)) turns s contentLength r.2
      else some none

/-- `put_object_callback_data`; a file is what is left of it. -/
structure PutObjectCallbackData (B : ℕ) where
  infile : Option Bytes
  buffering : Buffering B
  contentLength : UInt64
  originalContentLength : UInt64
  noStatus : Bool

/-- What a call prints: the bytes that remain, and how much of all is done in percent. -/
structure Progress where
  remaining : UInt64
  complete : Int32

/-- `toRead`, as an `int`. -/
def toRead (contentLength : UInt64) (bufferSize : Int32) : Int32 :=
  (if contentLength > bufferSize.toUInt32.toUInt64 then bufferSize.toUInt32.toUInt64
    else contentLength).toUInt32.toInt32

/-- The bytes a call reads, and the data after it. -/
def PutObjectCallbackData.take (data : PutObjectCallbackData B) (pull : Pull) :
    Option (Bytes × PutObjectCallbackData B) :=
  let amt := (toRead data.contentLength pull.bufferSize).toUInt32.toNat
  if data.contentLength ≠ 0 then
    if data.buffering.gb.isSome then
      (growbufferRead data.buffering amt).map fun r => (r.1, { data with buffering := r.2 })
    else
      match data.infile with
      | some infile =>
        let r := fread pull.ready amt infile
        some (r.1, { data with infile := some r.2 })
      | none => some ([], data)
  else some ([], data)

/-- What is printed after a call, if anything; nothing is defined where it divides by 0. -/
def PutObjectCallbackData.progress (data : PutObjectCallbackData B) : Option (List Progress) :=
  if data.contentLength ≠ 0 ∧ data.noStatus = false then
    if data.originalContentLength = 0 then none
    else some [⟨data.contentLength, ((data.originalContentLength - data.contentLength) * 100
      / data.originalContentLength).toUInt32.toInt32⟩]
  else some []

/-- `putObjectDataCallback`: what it returns, the bytes it hands over, what it prints and the data
after it. -/
def putObjectDataCallback (pull : Pull) (data : PutObjectCallbackData B) :
    Option (Int32 × Bytes × List Progress × PutObjectCallbackData B) := do
  let (buffer, data) ← data.take pull
  let ret := Int32.ofNat buffer.length
  let data := { data with contentLength := data.contentLength - ret.toInt64.toUInt64 }
  let printed ← data.progress
  some (ret, buffer, printed, data)

/-- How a request of `S3_put_object` ends. -/
inductive Status
  | ok
  | failed (retryable : Bool)
  deriving DecidableEq

/-- A request: the buffers it asks to be filled, and how it ends. -/
structure Attempt where
  pulls : List Pull
  status : Status

/-- The calls of one request: the bytes handed over, what is printed and the data after them. -/
def putAttempt : List Pull → PutObjectCallbackData B →
    Option (Bytes × List Progress × PutObjectCallbackData B)
  | [], data => some ([], [], data)
  | pull :: pulls, data => do
    let (_, buffer, printed, data) ← putObjectDataCallback pull data
    let (sent, more, data) ← putAttempt pulls data
    some (buffer ++ sent, printed ++ more, data)

/-- The requests of `put_object`, at most `retriesG` of them made again: the bytes each was handed,
how the last one ended, and the data after them. -/
def putAttempts : (attempts : ℕ → Attempt) → (retriesG : ℕ) → PutObjectCallbackData B →
    Option (List Bytes × Status × PutObjectCallbackData B)
  | attempts, 0, data => do
    let (sent, _, data) ← putAttempt (attempts 0).pulls data
    some ([sent], (attempts 0).status, data)
  | attempts, retriesG + 1, data => do
    let (sent, _, data) ← putAttempt (attempts 0).pulls data
    if (attempts 0).status = .failed true then do
      let (more, status, data) ← putAttempts (fun k => attempts (k + 1)) retriesG data
      some (sent :: more, status, data)
    else some ([sent], (attempts 0).status, data)

/-- How `put_object` ends: with `exit(-1)` before any request, or after its requests, with the bytes
each was handed, how the last one ended, the bytes it says it failed to read and the memory. -/
inductive PutEnd (B : ℕ)
  | exits
  | ended (sent : List Bytes) (status : Status) (remaining : UInt64) (mem : Memory B)

/-- The file closed, or the growbuffer destroyed: the memory that leaves. -/
def PutObjectCallbackData.close (data : PutObjectCallbackData B) : Option (Memory B) :=
  if data.infile.isSome then some data.buffering.mem
  else if data.buffering.gb.isSome then growbufferDestroy data.buffering
  else some data.buffering.mem

/-- `put_object` once it knows where to read from. -/
def putFrom (attempts : ℕ → Attempt) (retriesG : ℕ) (data : PutObjectCallbackData B) :
    Option (PutEnd B) := do
  let (sent, status, data) ← putAttempts attempts retriesG data
  let mem ← data.close
  some (.ended sent status data.contentLength mem)

/-- What `put_object` is told: the file, if it is to read one, as far as it can be opened, and the
length to send, which is 0 if it is not told. -/
structure PutParams where
  filename : Option (Option Bytes)
  contentLength : UInt64
  noStatus : Bool

/-- `put_object`, with the bytes on its standard input. -/
def putObject (N : ℕ) (malloc : Malloc B) (upTo : ℕ → ℕ) (attempts : ℕ → Attempt) (retriesG : ℕ)
    (params : PutParams) (stdin : Bytes) : Option (PutEnd B) :=
  let start infile buffering contentLength :=
    putFrom attempts retriesG ⟨infile, buffering, contentLength, contentLength, params.noStatus⟩
  match params.filename with
  | some none => some .exits
  | some (some file) =>
    start (some file) .init
      (if params.contentLength = 0 then UInt64.ofNat file.length else params.contentLength)
  | none =>
    if params.contentLength = 0 then do
      match ← readStdin N malloc upTo (stdin.length + 1) .init 0 stdin with
      | none => some .exits
      | some (buffering, contentLength) => start none buffering contentLength
    else start (some stdin) .init params.contentLength

/-! ## One call -/

variable {data data' : PutObjectCallbackData B} {rest b : Bytes} {pull : Pull}

theorem toNat_toRead (contentLength : UInt64) (pull : Pull) :
    (toRead contentLength pull.bufferSize).toUInt32.toNat
      = min pull.bufferSize.toUInt32.toNat contentLength.toNat := by
  obtain ⟨k, -, hk, hb⟩ := Int32.exists_ofNat_of_pos pull.positive
  have h : toRead contentLength pull.bufferSize = _ :=
    CloudFS.PutObjectCallbackData.toRead_eq ⟨0, contentLength, 0⟩ pull
  rw [h, hb, Int32.toNat_toUInt32_ofNat hk, Int32.toNat_toUInt32_ofNat (by omega)]

/-- **The callback reads the bytes `rest`**: a file, or a growbuffer that holds as many as remain to
be sent. -/
inductive Source (data : PutObjectCallbackData B) : Bytes → Prop
  | file {rest : Bytes} (hf : data.infile = some rest) (hs : data.buffering.Holds []) :
    Source data rest
  | stdin {bs : List (ℕ × Growbuffer B)} (hf : data.infile = none) (hs : data.buffering.Holds bs)
    (hl : data.contentLength.toNat = (contents bs).length) : Source data (contents bs)

/-- **The bytes `b` were handed over**: they are the next ones, and were counted. -/
structure Handed (data : PutObjectCallbackData B) (rest b : Bytes)
    (data' : PutObjectCallbackData B) : Prop where
  source : ∃ rest', rest = b ++ rest' ∧ Source data' rest'
  length : data'.contentLength.toNat + b.length = data.contentLength.toNat
  original : data'.originalContentLength = data.originalContentLength

theorem Handed.refl (h : Source data rest) : Handed data rest [] data :=
  ⟨⟨rest, rfl, h⟩, rfl, rfl⟩

/-- The bytes a call reads are the next ones, and no more than remain to be sent. -/
theorem take_spec (h : Source data rest) (pull : Pull) :
    ∃ b data' rest', data.take pull = some (b, data') ∧ rest = b ++ rest' ∧
      b.length ≤ data.contentLength.toNat ∧ b.length < 2 ^ 31 ∧
      data'.contentLength = data.contentLength ∧
      data'.originalContentLength = data.originalContentLength ∧
      ∀ n : UInt64, n.toNat + b.length = data.contentLength.toNat →
        Source { data' with contentLength := n } rest' := by
  obtain ⟨k, -, hk, hb⟩ := Int32.exists_ofNat_of_pos pull.positive
  have hamt := toNat_toRead data.contentLength pull
  rw [hb, Int32.toNat_toUInt32_ofNat hk] at hamt
  by_cases h0 : data.contentLength = 0
  · refine ⟨[], data, rest, ?_, rfl, Nat.zero_le _, by decide, rfl, rfl, fun n hn => ?_⟩
    · simp only [PutObjectCallbackData.take, h0, ne_eq, not_true_eq_false, if_false]
    · cases h with
      | file hf hs => exact .file hf hs
      | stdin hf hs hl => exact .stdin hf hs (hn.trans hl)
  · cases h with
    | file hf hs =>
      have hgb : data.buffering.gb = none := hs.gb
      refine ⟨(fread pull.ready (min k data.contentLength.toNat) rest).1,
        { data with infile := some (fread pull.ready (min k data.contentLength.toNat) rest).2 },
        _, ?_, ?_, ?_, ?_, rfl, rfl, fun n _ => .file rfl hs⟩
      · simp only [PutObjectCallbackData.take, ne_eq, h0, not_false_eq_true, if_true, hgb, hf,
          Option.isSome_none, Bool.false_eq_true, if_false, hamt, hb]
      · rw [fread, List.splitAt_eq, List.take_append_drop]
      · rw [fread, List.splitAt_eq, List.length_take]
        omega
      · rw [fread, List.splitAt_eq, List.length_take]
        omega
    | @stdin bs hf hs hl =>
      have hgb : data.buffering.gb.isSome := by
        rw [hs.gb]
        cases bs with
        | nil => exact absurd (UInt64.toNat_inj.1 hl) h0
        | cons x bs => rfl
      obtain ⟨b, s', bs', hrun, hs', hc, hle, -⟩ := read_spec hs (min k data.contentLength.toNat)
      refine ⟨b, { data with buffering := s' }, contents bs', ?_, hc, by omega, by omega, rfl, rfl,
        fun n hn => .stdin hf hs' ?_⟩
      · simp only [PutObjectCallbackData.take, ne_eq, h0, not_false_eq_true, if_true, hgb, hamt,
          hb, hrun, Option.map_some]
      · have hlen := congrArg List.length hc
        rw [List.length_append] at hlen
        dsimp only
        omega

/-- Nothing is divided by 0: more was to be sent than remains. -/
theorem exists_progress (h : data.contentLength.toNat ≤ data.originalContentLength.toNat) :
    ∃ printed, data.progress = some printed := by
  rw [PutObjectCallbackData.progress]
  split
  case isTrue hc =>
    have hne : data.originalContentLength ≠ 0 := fun h0 => hc.1 (UInt64.toNat_inj.1 (by
      rw [h0] at h
      exact Nat.le_zero.1 h))
    rw [if_neg hne]
    exact ⟨_, rfl⟩
  case isFalse => exact ⟨[], rfl⟩

/-- **One call** hands over the next bytes, returns their number and counts them. -/
theorem putObjectDataCallback_spec (h : Source data rest)
    (hn : data.contentLength.toNat ≤ data.originalContentLength.toNat) (pull : Pull) :
    ∃ b printed data', putObjectDataCallback pull data
      = some (Int32.ofNat b.length, b, printed, data') ∧ Handed data rest b data' := by
  obtain ⟨b, d, rest', htake, hrest, hle, hlt, hlen, horig, hsource⟩ := take_spec h pull
  have hsub : (d.contentLength - (Int32.ofNat b.length).toInt64.toUInt64).toNat
      = data.contentLength.toNat - b.length := by
    have hb : (Int32.ofNat b.length).toInt64.toUInt64.toNat = b.length :=
      Int32.toNat_toUInt64_ofNat hlt
    rw [hlen, UInt64.toNat_sub_of_le _ _ (by rwa [UInt64.le_iff_toNat_le, hb]), hb]
  have hle' : (d.contentLength - (Int32.ofNat b.length).toInt64.toUInt64).toNat
      ≤ d.originalContentLength.toNat := by
    rw [hsub, horig]
    omega
  let d' : PutObjectCallbackData B :=
    { d with contentLength := d.contentLength - (Int32.ofNat b.length).toInt64.toUInt64 }
  obtain ⟨printed, hprinted⟩ : ∃ printed, d'.progress = some printed := exists_progress hle'
  refine ⟨b, printed, d', ?_, ⟨rest', hrest, hsource _ (by omega)⟩, ?_, horig⟩
  · simp only [putObjectDataCallback, htake, Option.bind_eq_bind, Option.bind_some]
    change d'.progress.bind _ = _
    rw [hprinted]
    rfl
  · change (d.contentLength - _).toNat + _ = _
    omega

/-! ## Requests and retries -/

theorem Handed.trans {b₁ b₂ rest₁ : Bytes} {data₁ data₂ : PutObjectCallbackData B}
    (h₁ : Handed data rest b₁ data₁) (hrest : rest = b₁ ++ rest₁)
    (h₂ : Handed data₁ rest₁ b₂ data₂) : Handed data rest (b₁ ++ b₂) data₂ where
  source := by
    obtain ⟨rest₂, hr, hs⟩ := h₂.source
    exact ⟨rest₂, by rw [hrest, hr, List.append_assoc], hs⟩
  length := by
    have h1 := h₁.length
    have h2 := h₂.length
    rw [List.length_append]
    omega
  original := h₂.original.trans h₁.original

theorem Handed.le (h : Handed data rest b data')
    (hn : data.contentLength.toNat ≤ data.originalContentLength.toNat) :
    data'.contentLength.toNat ≤ data'.originalContentLength.toNat := by
  have hl := h.length
  rw [h.original]
  omega

/-- The calls of one request hand over the next bytes. -/
theorem putAttempt_spec (pulls : List Pull) (h : Source data rest)
    (hn : data.contentLength.toNat ≤ data.originalContentLength.toNat) :
    ∃ sent printed data', putAttempt pulls data = some (sent, printed, data') ∧
      Handed data rest sent data' := by
  induction pulls generalizing data rest with
  | nil => exact ⟨[], [], data, rfl, .refl h⟩
  | cons pull pulls ih =>
    obtain ⟨b, printed, data₁, hcall, h₁⟩ := putObjectDataCallback_spec h hn pull
    obtain ⟨rest₁, hrest, hs⟩ := h₁.source
    obtain ⟨sent, more, data₂, hrun, h₂⟩ := ih hs (h₁.le hn)
    refine ⟨b ++ sent, printed ++ more, data₂, ?_, h₁.trans hrest h₂⟩
    simp only [putAttempt, hcall, hrun, Option.bind_eq_bind, Option.bind_some]

/-- **Requests made again read on**: together they hand over the next bytes. -/
theorem putAttempts_spec (attempts : ℕ → Attempt) (retriesG : ℕ) (h : Source data rest)
    (hn : data.contentLength.toNat ≤ data.originalContentLength.toNat) :
    ∃ sent status data', putAttempts attempts retriesG data = some (sent, status, data') ∧
      sent ≠ [] ∧ Handed data rest sent.flatten data' := by
  induction retriesG generalizing attempts data rest with
  | zero =>
    obtain ⟨sent, printed, data₁, hrun, h₁⟩ := putAttempt_spec (attempts 0).pulls h hn
    refine ⟨[sent], (attempts 0).status, data₁, ?_, by simp, by simpa using h₁⟩
    simp only [putAttempts, hrun, Option.bind_eq_bind, Option.bind_some]
  | succ retriesG ih =>
    obtain ⟨sent, printed, data₁, hrun, h₁⟩ := putAttempt_spec (attempts 0).pulls h hn
    by_cases hs : (attempts 0).status = .failed true
    · obtain ⟨rest₁, hrest, hsource⟩ := h₁.source
      obtain ⟨more, status, data₂, hmore, -, h₂⟩ :=
        ih (fun k => attempts (k + 1)) hsource (h₁.le hn)
      refine ⟨sent :: more, status, data₂, ?_, by simp, ?_⟩
      · simp only [putAttempts, hrun, hs, hmore, Option.bind_eq_bind, Option.bind_some, if_true]
      · rw [List.flatten_cons]
        exact h₁.trans hrest h₂
    · refine ⟨[sent], (attempts 0).status, data₁, ?_, by simp, by simpa using h₁⟩
      simp only [putAttempts, hrun, Option.bind_eq_bind, Option.bind_some, if_neg hs]

/-- Closing leaves nothing allocated. -/
theorem close_spec (h : Source data rest) :
    ∃ mem, data.close = some mem ∧ ∀ a, mem.get a = none := by
  rw [PutObjectCallbackData.close]
  cases h with
  | file hf hs => exact ⟨_, by rw [hf]; rfl, fun a => hs.links.only a (by simp)⟩
  | @stdin bs hf hs hl =>
    rw [hf]
    cases bs with
    | nil =>
      have hgb : data.buffering.gb = none := hs.gb
      exact ⟨_, by rw [hgb]; rfl, fun a => hs.links.only a (by simp)⟩
    | cons x bs =>
      obtain ⟨mem, hd, hnone⟩ := destroy_spec hs.toBlocks
      have hgb : data.buffering.gb = some x.1 := hs.gb
      exact ⟨mem, by rw [hgb, ← hd]; rfl, hnone⟩

/-- Nothing stays allocated when `put_object` ends, and the bytes handed over and those that remain
are what was to be sent. -/
theorem putFrom_spec (attempts : ℕ → Attempt) (retriesG : ℕ) (h : Source data rest)
    (hn : data.contentLength.toNat ≤ data.originalContentLength.toNat) :
    ∃ sent status remaining mem, putFrom attempts retriesG data
        = some (.ended sent status remaining mem) ∧
      sent ≠ [] ∧ sent.flatten <+: rest ∧
      remaining.toNat + sent.flatten.length = data.contentLength.toNat ∧
      ∀ a, mem.get a = none := by
  obtain ⟨sent, status, data', hrun, hne, hh⟩ := putAttempts_spec attempts retriesG h hn
  obtain ⟨rest', hrest, hs⟩ := hh.source
  obtain ⟨mem, hmem, hnone⟩ := close_spec hs
  refine ⟨sent, status, data'.contentLength, mem, ?_, hne, ⟨rest', hrest.symm⟩, hh.length, hnone⟩
  simp only [putFrom, hrun, hmem, Option.bind_eq_bind, Option.bind_some]

/-! ## Reading all of standard input -/

/-- **Standard input is read** into the growbuffer, or the memory does not suffice. -/
theorem readStdin_spec {N : ℕ} (hB : 0 < B) (hN : 0 < N) (malloc : Malloc B) (upTo : ℕ → ℕ)
    {turns : ℕ} {s : Buffering B} {n : UInt64} {stdin : Bytes} {bs : List (ℕ × Growbuffer B)}
    (ht : stdin.length < turns) (hs : s.Holds bs) (hw : LastUnread bs)
    (hn : n.toNat = (contents bs).length) (hlen : (contents bs).length + stdin.length < 2 ^ 64) :
    (readStdin N malloc upTo turns s n stdin = some none ∧ ∃ a, malloc a = none) ∨
      ∃ s' n' bs' d, readStdin N malloc upTo turns s n stdin = some (some (s', n')) ∧
        s'.Holds bs' ∧ contents bs' = contents bs ++ d ∧ d <+: stdin ∧
        ((∀ k, N ≤ upTo k) → d = stdin) ∧ n'.toNat = (contents bs').length := by
  induction turns generalizing upTo s n stdin bs with
  | zero => exact absurd ht (Nat.not_lt_zero _)
  | succ turns ih =>
    have hread : fread (upTo 0) N stdin
        = (stdin.take (min (upTo 0) N), stdin.drop (min (upTo 0) N)) := List.splitAt_eq ..
    by_cases h0 : (stdin.take (min (upTo 0) N)).length = 0
    · refine Or.inr ⟨s, n, bs, [], ?_, hs, by simp, List.nil_prefix, fun hfull => ?_, hn⟩
      · simp only [readStdin, hread, h0, if_true]
      · have h := hfull 0
        rw [List.length_take] at h0
        exact (List.length_eq_zero_iff.1 (by omega)).symm
    · obtain ⟨r, s₁, hrun, ⟨bs₁, k, hs₁, hw₁, hc, hk⟩, hm⟩ :=
        append_spec hB hs hw malloc (stdin.take (min (upTo 0) N))
      cases r with
      | false =>
        refine Or.inl ⟨?_, hm rfl⟩
        simp only [readStdin, hread, h0, if_false, hrun, Option.bind_eq_bind, Option.bind_some,
          Bool.false_eq_true]
      | true =>
        rw [List.take_of_length_le (hk.2 rfl)] at hc
        have hle : (stdin.take (min (upTo 0) N)).length ≤ stdin.length := by
          rw [List.length_take]
          exact min_le_right _ _
        have hsize : (stdin.take (min (upTo 0) N)).length < UInt64.size := by
          change _ < 2 ^ 64
          omega
        have hcount : (n + UInt64.ofNat (stdin.take (min (upTo 0) N)).length).toNat
            = (contents bs₁).length := by
          rw [hc, List.length_append, ← hn, UInt64.toNat_add, UInt64.toNat_ofNat_of_lt' hsize,
            Nat.mod_eq_of_lt (by omega)]
        have hstep : readStdin N malloc upTo (turns + 1) s n stdin
            = if (stdin.take (min (upTo 0) N)).length < N then
                some (some (s₁, n + UInt64.ofNat (stdin.take (min (upTo 0) N)).length))
              else readStdin N malloc (fun k => upTo (k + 1)) turns s₁
                (n + UInt64.ofNat (stdin.take (min (upTo 0) N)).length)
                (stdin.drop (min (upTo 0) N)) := by
          simp only [readStdin, hread, h0, if_false, hrun, Option.bind_eq_bind, Option.bind_some,
            if_true]
        by_cases hshort : (stdin.take (min (upTo 0) N)).length < N
        · refine Or.inr ⟨s₁, _, bs₁, _, by rw [hstep, if_pos hshort], hs₁, hc,
            List.take_prefix _ _, fun hfull => ?_, hcount⟩
          rw [List.length_take] at hshort
          have h := hfull 0
          exact List.take_of_length_le (by omega)
        · rw [if_neg hshort] at hstep
          have hdrop : (stdin.drop (min (upTo 0) N)).length < turns := by
            rw [List.length_take] at hshort
            rw [List.length_drop]
            omega
          have hlen₁ : (contents bs₁).length + (stdin.drop (min (upTo 0) N)).length < 2 ^ 64 := by
            rw [hc, List.length_append, List.length_take, List.length_drop]
            omega
          rcases ih (fun k => upTo (k + 1)) hdrop hs₁ hw₁ hcount hlen₁ with
            ⟨hnone, ha⟩ | ⟨s', n', bs', d, hrun', hs', hc', hpre, hfull', hn'⟩
          · exact Or.inl ⟨hstep.trans hnone, ha⟩
          · refine Or.inr ⟨s', n', bs', _, hstep.trans hrun', hs',
              by rw [hc', hc, List.append_assoc], ?_, fun hfull => ?_, hn'⟩
            · have h := (List.prefix_append_right_inj (stdin.take (min (upTo 0) N))).2 hpre
              rwa [List.take_append_drop] at h
            · rw [hfull' fun k => hfull (k + 1), List.take_append_drop]

/-! ## `put_object` -/

section Put

variable {N : ℕ} {malloc : Malloc B} {upTo : ℕ → ℕ} {stdin : Bytes}

/-- The standard input in the growbuffer, or not enough memory for it. -/
theorem stdin_spec (hB : 0 < B) (hN : 0 < N) (malloc : Malloc B) (upTo : ℕ → ℕ) (noStatus : Bool)
    (hlen : stdin.length < 2 ^ 64) :
    (readStdin N malloc upTo (stdin.length + 1) .init 0 stdin = some none ∧
        ∃ a, malloc a = none) ∨
      ∃ s n input, readStdin N malloc upTo (stdin.length + 1) .init 0 stdin = some (some (s, n)) ∧
        Source ⟨none, s, n, n, noStatus⟩ input ∧ input <+: stdin ∧
        ((∀ k, N ≤ upTo k) → input = stdin) ∧ n.toNat = input.length := by
  have hzero : (contents ([] : List (ℕ × Growbuffer B))).length = 0 := rfl
  have hcount : (0 : UInt64).toNat = (contents ([] : List (ℕ × Growbuffer B))).length := rfl
  have hmax : (contents ([] : List (ℕ × Growbuffer B))).length + stdin.length < 2 ^ 64 := by
    rw [hzero, Nat.zero_add]
    exact hlen
  refine (readStdin_spec hB hN malloc upTo stdin.length.lt_succ_self Buffering.holds_init
    (fun x hx => absurd hx (by simp)) hcount hmax).imp_right ?_
  rintro ⟨s, n, bs, d, hrun, hs, hc, hpre, hfull, hn⟩
  obtain rfl : contents bs = d := hc
  exact ⟨s, n, contents bs, hrun, .stdin rfl hs hn, hpre, hfull, hn⟩

/-- **`s3 put` hands over its standard input as it came**: whatever the reads, the requests and the
memory do, nothing undefined is done; it exits only where the memory does not suffice; the requests
together are handed the first bytes of what it read, which is all of it unless a read failed; it
says how many are missing; and nothing stays allocated. -/
theorem put_stdin (hB : 0 < B) (hN : 0 < N) (malloc : Malloc B) (upTo : ℕ → ℕ)
    (attempts : ℕ → Attempt) (retriesG : ℕ) (noStatus : Bool) (hlen : stdin.length < 2 ^ 64) :
    (putObject N malloc upTo attempts retriesG ⟨none, 0, noStatus⟩ stdin = some .exits ∧
        ∃ a, malloc a = none) ∨
      ∃ sent status remaining mem input,
        putObject N malloc upTo attempts retriesG ⟨none, 0, noStatus⟩ stdin
          = some (.ended sent status remaining mem) ∧
        input <+: stdin ∧ ((∀ k, N ≤ upTo k) → input = stdin) ∧
        sent ≠ [] ∧ sent.flatten <+: input ∧
        remaining.toNat + sent.flatten.length = input.length ∧ ∀ a, mem.get a = none := by
  rcases stdin_spec hB hN malloc upTo noStatus hlen with
    ⟨hnone, ha⟩ | ⟨s, n, input, hrun, hsource, hpre, hfull, hn⟩
  · refine Or.inl ⟨?_, ha⟩
    simp only [putObject, if_true, hnone, Option.bind_eq_bind, Option.bind_some]
  · obtain ⟨sent, status, remaining, mem, hput, hne, hsent, hrem, hmem⟩ :=
      putFrom_spec attempts retriesG hsource le_rfl
    refine Or.inr ⟨sent, status, remaining, mem, input, ?_, hpre, hfull, hne, hsent,
      hrem.trans hn, hmem⟩
    simp only [putObject, if_true, hrun, Option.bind_eq_bind, Option.bind_some, hput]

/-- Three bytes, of which the first request took one before it failed. -/
theorem put_stdin_retried :
    let malloc : Malloc 2 := fun _ => some ⟨[0, 0], rfl⟩
    let attempts : ℕ → Attempt := fun k =>
      if k = 0 then ⟨[⟨1, 1, by decide⟩], .failed true⟩
      else ⟨List.replicate 3 ⟨16, 16, by decide⟩, .ok⟩
    (putObject 2 malloc (fun _ => 2) attempts 5 ⟨none, 0, false⟩ [1, 2, 3] = some .exits ∧
        ∃ a, malloc a = none) ∨
      ∃ sent status remaining mem input,
        putObject 2 malloc (fun _ => 2) attempts 5 ⟨none, 0, false⟩ [1, 2, 3]
          = some (.ended sent status remaining mem) ∧
        input <+: [1, 2, 3] ∧ ((∀ _ : ℕ, 2 ≤ 2) → input = [1, 2, 3]) ∧
        sent ≠ [] ∧ sent.flatten <+: input ∧
        remaining.toNat + sent.flatten.length = input.length ∧ ∀ a, mem.get a = none :=
  put_stdin (by decide) (by decide) _ _ _ _ _ (by decide)

/-- What there is to send: the file, or the standard input. -/
def PutParams.input (params : PutParams) (stdin : Bytes) : Option Bytes :=
  params.filename.getD (some stdin)

/-- The last of the requests was handed all of the input exactly when the others were handed
nothing and nothing is missing. -/
theorem getLast?_eq_some_iff {sent : List Bytes} {input : Bytes} {n : ℕ} (hne : sent ≠ [])
    (hpre : sent.flatten <+: input) (hn : n + sent.flatten.length = input.length) :
    sent.getLast? = some input ↔ sent.dropLast.flatten = [] ∧ n = 0 := by
  obtain ⟨last, hlast⟩ := Option.isSome_iff_exists.1 (List.getLast?_isSome.2 hne)
  have hsplit : sent.flatten = sent.dropLast.flatten ++ last := by
    conv_lhs => rw [← List.dropLast_append_getLast? last hlast]
    simp
  rw [hsplit, List.length_append] at hn
  rw [hlast, Option.some.injEq]
  constructor
  · rintro rfl
    exact ⟨List.length_eq_zero_iff.1 (by omega), by omega⟩
  · rintro ⟨h0, rfl⟩
    rw [hsplit, h0, List.nil_append] at hpre
    rw [h0, List.length_nil] at hn
    exact hpre.eq_of_length (by omega)

/-- **A put that was retried sends the whole input only if no request before the last was handed
any of it**: the callback reads on from where the failed request stopped. -/
theorem put_whole_iff (hB : 0 < B) (hN : 0 < N) (hmalloc : ∀ a, (malloc a).isSome)
    (hfull : ∀ k, N ≤ upTo k) (attempts : ℕ → Attempt) (retriesG : ℕ) {params : PutParams}
    {input : Bytes} (h0 : params.contentLength = 0) (hi : params.input stdin = some input)
    (hlen : input.length < 2 ^ 64) :
    ∃ sent status remaining mem, putObject N malloc upTo attempts retriesG params stdin
        = some (.ended sent status remaining mem) ∧
      (sent.getLast? = some input ↔ sent.dropLast.flatten = [] ∧ remaining = 0) := by
  obtain ⟨filename, contentLength, noStatus⟩ := params
  obtain rfl : contentLength = 0 := h0
  have hiff : ∀ {sent : List Bytes} {remaining : UInt64}, sent ≠ [] → sent.flatten <+: input →
      remaining.toNat + sent.flatten.length = input.length →
      (sent.getLast? = some input ↔ sent.dropLast.flatten = [] ∧ remaining = 0) := by
    intro sent remaining hne hpre hn
    rw [getLast?_eq_some_iff hne hpre hn, ← UInt64.toNat_inj]
    rfl
  cases filename with
  | none =>
    obtain rfl : stdin = input := Option.some.inj hi
    rcases stdin_spec hB hN malloc upTo noStatus hlen with
      ⟨-, a, ha⟩ | ⟨s, n, c, hrun, hsource, -, hc, hn⟩
    · have h := hmalloc a
      rw [ha] at h
      exact absurd h (by simp)
    · obtain rfl := hc hfull
      obtain ⟨sent, status, remaining, mem, hput, hne, hsent, hrem, -⟩ :=
        putFrom_spec attempts retriesG hsource le_rfl
      refine ⟨sent, status, remaining, mem, ?_, hiff hne hsent (hrem.trans hn)⟩
      simp only [putObject, if_true, hrun, Option.bind_eq_bind, Option.bind_some, hput]
  | some file =>
    obtain rfl : file = some input := hi
    have hsize : (UInt64.ofNat input.length).toNat = input.length :=
      UInt64.toNat_ofNat_of_lt' hlen
    have hsource : Source (B := B) ⟨some input, .init, UInt64.ofNat input.length,
        UInt64.ofNat input.length, noStatus⟩ input := .file rfl Buffering.holds_init
    obtain ⟨sent, status, remaining, mem, hput, hne, hsent, hrem, -⟩ :=
      putFrom_spec attempts retriesG hsource le_rfl
    exact ⟨sent, status, remaining, mem, by simpa only [putObject, if_true] using hput,
      hiff hne hsent (hrem.trans hsize)⟩

/-- A file of two bytes, of which the first request took one before it failed. -/
theorem put_whole_iff_retried :
    let attempts : ℕ → Attempt := fun k =>
      if k = 0 then ⟨[⟨1, 1, by decide⟩], .failed true⟩
      else ⟨List.replicate 3 ⟨16, 16, by decide⟩, .ok⟩
    ∃ sent status remaining mem,
      putObject 2 (fun _ => some ⟨[0, 0], rfl⟩ : Malloc 2) (fun _ => 2) attempts 5
          ⟨some (some [1, 2]), 0, false⟩ []
        = some (.ended sent status remaining mem) ∧
      (sent.getLast? = some [1, 2] ↔ sent.dropLast.flatten = [] ∧ remaining = 0) :=
  put_whole_iff (by decide) (by decide) (fun _ => rfl) (fun _ => le_rfl) _ _ rfl rfl (by decide)

end Put

end CloudFS.S3
