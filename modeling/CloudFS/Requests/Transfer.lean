import CloudFS.Client.World
import CloudFS.Machinery.CInt
import CloudFS.Machinery.Posix.Laws

/-!
# Requests/Transfer — the buffers an object passes through

`S3_put_object` pulls a file through `putObjectDataCallback` one buffer at a time, `S3_get_object`
pushes an object through `getObjectDataCallback` one chunk at a time.  The sizes of the buffers and
chunks are the library's, and `fread` and `fwrite` may move less than they were asked to.  Whatever
these are, an upload hands over the file (`s3PutObject_eq`) and a download that is written in full
stores the object (`s3GetObject_eq`), so `s3CloudfsPut` and `s3CloudfsGet` are what the callbacks
make of them.
-/

namespace CloudFS

open Posix Posix.Fs

/-! ## Pulling a file -/

/-- `put_object_callback_data`: how far an upload is. -/
structure PutObjectCallbackData where
  offset : UInt64
  remainingLength : UInt64
  contentLength : UInt64

/-- An upload under way: its counters, what is left of the file and what was handed over. -/
structure Outgoing where
  data : PutObjectCallbackData
  infile : Bytes
  sent : Bytes

/-- A request for more data: the room in the buffer, and the bytes a read delivers at once. -/
structure Pull where
  bufferSize : Int32
  ready : ℕ
  positive : 0 < bufferSize

/-- `cloud_put_object`: the counters and the file as the upload starts. -/
def Outgoing.start (contentLength : UInt64) (infile : Bytes) : Outgoing :=
  ⟨⟨0, contentLength, contentLength⟩, infile, []⟩

/-- `fread(3)`: of the next `count` bytes those that are `ready`, at least one of them. -/
def fread (ready count : ℕ) (infile : Bytes) : Bytes × Bytes :=
  infile.splitAt (min (max 1 ready) count)

/-- `put_buffer`: the number of bytes read, these bytes and the rest of the file. -/
def putBuffer (ready : ℕ) (bufferLength : Int32) (infile : Bytes) : Int32 × Bytes × Bytes :=
  let r := fread ready bufferLength.toUInt32.toNat infile
  (Int32.ofNat r.1.length, r)

/-- `toRead`: the smaller of the room in the buffer and what remains, as an `int`. -/
def PutObjectCallbackData.toRead (data : PutObjectCallbackData) (bufferSize : Int32) : Int32 :=
  (if data.remainingLength > bufferSize.toUInt32.toUInt64 then bufferSize.toUInt32.toUInt64
    else data.remainingLength).toUInt32.toInt32

/-- `putObjectDataCallback`: what it returns, and the upload after it. -/
def putObjectDataCallback (pull : Pull) (u : Outgoing) : Int32 × Outgoing :=
  let r := if u.data.remainingLength ≠ 0 then
      putBuffer pull.ready (u.data.toRead pull.bufferSize) u.infile
    else (0, [], u.infile)
  (r.1,
    { data :=
        { u.data with
          offset := u.data.offset + r.1.toInt64.toUInt64
          remainingLength := u.data.remainingLength - r.1.toInt64.toUInt64 }
      infile := r.2.2
      sent := u.sent ++ r.2.1 })

/-- The upload after `n` calls. -/
def Outgoing.after (pulls : ℕ → Pull) (u : Outgoing) : ℕ → Outgoing
  | 0 => u
  | n + 1 => (putObjectDataCallback (pulls n) (u.after pulls n)).2

/-- `S3_put_object`: the callback is called until it returns 0; `none` if that takes more than
`fuel` calls. -/
def s3PutObject (pulls : ℕ → Pull) : ℕ → Outgoing → Option Bytes
  | 0, _ => none
  | fuel + 1, u =>
    let r := putObjectDataCallback (pulls 0) u
    if r.1 = 0 then some r.2.sent else s3PutObject (fun n => pulls (n + 1)) fuel r.2

/-- An upload of `N` bytes, or all there are, of the file `s`: its counters agree with what was
handed over, and nothing was lost on the way. -/
structure Outgoing.Balanced (N : ℕ) (s : Bytes) (u : Outgoing) : Prop where
  length : u.data.contentLength.toNat = N
  offset : u.data.offset.toNat = u.sent.length
  remaining : u.data.offset.toNat + u.data.remainingLength.toNat = N
  whole : u.sent ++ u.infile = s

/-- The bytes a call hands over: at most what fits the buffer, remains to be sent and is ready. -/
def Outgoing.share (pull : Pull) (u : Outgoing) : Bytes :=
  u.infile.take (min (max 1 pull.ready)
    (min pull.bufferSize.toUInt32.toNat u.data.remainingLength.toNat))

variable {pull : Pull} {pulls : ℕ → Pull} {u : Outgoing} {N : ℕ} {s : Bytes}

theorem Outgoing.balanced_start (n : UInt64) (s : Bytes) : (Outgoing.start n s).Balanced n.toNat s :=
  ⟨rfl, rfl, Nat.zero_add _, rfl⟩

/-- `toRead` does not wrap: it is a length. -/
theorem PutObjectCallbackData.toRead_eq (data : PutObjectCallbackData) (pull : Pull) :
    data.toRead pull.bufferSize
      = Int32.ofNat (min pull.bufferSize.toUInt32.toNat data.remainingLength.toNat) := by
  have h64 : pull.bufferSize.toUInt32.toUInt64.toNat = pull.bufferSize.toUInt32.toNat :=
    UInt32.toNat_toUInt64 _
  have hint : ∀ x : UInt64, x.toUInt32.toInt32 = Int32.ofNat x.toNat := fun x =>
    Int32.toBitVec_inj.1 (BitVec.eq_of_toNat_eq rfl)
  rw [toRead, hint]
  by_cases h : data.remainingLength > pull.bufferSize.toUInt32.toUInt64
  · have hlt := UInt64.lt_iff_toNat_lt.1 h
    rw [if_pos h, h64, min_eq_left (h64 ▸ hlt.le)]
  · have hle := UInt64.le_iff_toNat_le.1 (UInt64.not_lt.1 h)
    rw [if_neg h, min_eq_right (h64 ▸ hle)]

theorem Outgoing.length_share_le (pull : Pull) (u : Outgoing) :
    (u.share pull).length ≤ u.data.remainingLength.toNat := by
  rw [share, List.length_take]
  omega

/-- **One call**: what it returns counts what it hands over, the next bytes of the file. -/
theorem putObjectDataCallback_eq (pull : Pull) (u : Outgoing) :
    let r := putObjectDataCallback pull u
    r.1 = Int32.ofNat (u.share pull).length ∧ (u.share pull).length < 2 ^ 31 ∧
      r.2.sent = u.sent ++ u.share pull ∧ u.share pull ++ r.2.infile = u.infile := by
  obtain ⟨k, -, hk, hb⟩ := Int32.exists_ofNat_of_pos pull.positive
  have hn : pull.bufferSize.toUInt32.toNat = k := by rw [hb, Int32.toNat_toUInt32_ofNat hk]
  have hm : min k u.data.remainingLength.toNat < 2 ^ 31 := by omega
  by_cases hr : u.data.remainingLength = 0
  · simp [putObjectDataCallback, Outgoing.share, hr]
  · simp only [putObjectDataCallback, putBuffer, fread, ne_eq, hr, not_false_eq_true, if_true,
      Outgoing.share, hn, PutObjectCallbackData.toRead_eq, Int32.toNat_toUInt32_ofNat hm,
      List.splitAt_eq, List.take_append_drop, List.length_take, and_true, true_and]
    omega

/-- What it returns is counted in. -/
theorem data_putObjectDataCallback (pull : Pull) (u : Outgoing) :
    (putObjectDataCallback pull u).2.data.offset
        = u.data.offset + (putObjectDataCallback pull u).1.toInt64.toUInt64 ∧
      (putObjectDataCallback pull u).2.data.remainingLength
        = u.data.remainingLength - (putObjectDataCallback pull u).1.toInt64.toUInt64 :=
  ⟨rfl, rfl⟩

/-- A call hands over nothing exactly when nothing is to be sent or the file is at its end. -/
theorem Outgoing.share_eq_nil_iff (pull : Pull) (u : Outgoing) :
    u.share pull = [] ↔ u.data.remainingLength.toNat = 0 ∨ u.infile = [] := by
  obtain ⟨k, hk0, hk, hb⟩ := Int32.exists_ofNat_of_pos pull.positive
  rw [share, hb, Int32.toNat_toUInt32_ofNat hk, List.take_eq_nil_iff]
  exact or_congr_left (by omega)

/-- **A call keeps the counters in step with what was handed over.** -/
theorem Outgoing.Balanced.call (h : u.Balanced N s) (pull : Pull) :
    (putObjectDataCallback pull u).2.Balanced N s := by
  obtain ⟨hret, hlt, hsent, hrest⟩ := putObjectDataCallback_eq pull u
  have hle := u.length_share_le pull
  have hdata := data_putObjectDataCallback pull u
  have hw : (putObjectDataCallback pull u).1.toInt64.toUInt64.toNat = (u.share pull).length := by
    rw [hret, Int32.toNat_toUInt64_ofNat hlt]
  have hmax := u.data.contentLength.toNat_lt
  have hlen := h.length
  have hrem := h.remaining
  have hoff : (putObjectDataCallback pull u).2.data.offset.toNat
      = u.data.offset.toNat + (u.share pull).length := by
    rw [hdata.1, UInt64.toNat_add, hw]
    exact Nat.mod_eq_of_lt (by omega)
  have hnew : (putObjectDataCallback pull u).2.data.remainingLength.toNat
      = u.data.remainingLength.toNat - (u.share pull).length := by
    rw [hdata.2, UInt64.toNat_sub_of_le _ _ (by rwa [UInt64.le_iff_toNat_le, hw]), hw]
  refine ⟨hlen, ?_, ?_, ?_⟩
  · rw [hoff, h.offset, hsent, List.length_append]
  · rw [hoff, hnew]
    omega
  · rw [hsent, List.append_assoc, hrest, h.whole]

theorem Outgoing.Balanced.after (h : u.Balanced N s) (pulls : ℕ → Pull) (n : ℕ) :
    (u.after pulls n).Balanced N s := by
  induction n with
  | zero => exact h
  | succ n ih => exact ih.call (pulls n)

/-- **A call that returns 0 ends the upload**: the first `N` bytes of the file were handed over. -/
theorem Outgoing.Balanced.ended (h : u.Balanced N s) (hz : u.share pull = []) :
    (putObjectDataCallback pull u).2.sent = s.take N := by
  obtain ⟨-, -, hsent, -⟩ := putObjectDataCallback_eq pull u
  have hoff := h.offset
  have hrem := h.remaining
  rw [hsent, hz, List.append_nil, ← h.whole]
  rcases (u.share_eq_nil_iff pull).1 hz with h0 | h0
  · rw [List.take_left' (by omega)]
  · rw [h0, List.append_nil, List.take_of_length_le (by omega)]

/-- **An upload hands over the first `N` bytes of the file**, in at most one call for each byte of
it and one more. -/
theorem s3PutObject_eq (h : u.Balanced N s) {fuel : ℕ} (hf : u.infile.length < fuel)
    (pulls : ℕ → Pull) : s3PutObject pulls fuel u = some (s.take N) := by
  induction fuel generalizing u pulls with
  | zero => exact absurd hf (Nat.not_lt_zero _)
  | succ fuel ih =>
    obtain ⟨hret, hlt, -, hrest⟩ := putObjectDataCallback_eq (pulls 0) u
    have hiff : (putObjectDataCallback (pulls 0) u).1 = 0 ↔ u.share (pulls 0) = [] := by
      rw [hret, Int32.ofNat_eq_zero_iff hlt, List.length_eq_zero_iff]
    rw [s3PutObject]
    split
    case isTrue hz => rw [h.ended (hiff.1 hz)]
    case isFalse hz =>
      have hpos := List.length_pos_of_ne_nil fun hn => hz (hiff.2 hn)
      rw [← hrest, List.length_append] at hf
      exact ih (h.call (pulls 0)) (by omega) _

/-! ## Pushing an object -/

/-- A chunk of an object that arrived, and how many bytes of it the file takes. -/
structure Delivery where
  buffer : Bytes
  room : ℕ
  fits : buffer.length < 2 ^ 31

/-- The chunk is written whole. -/
def Delivery.Full (d : Delivery) : Prop := d.buffer.length ≤ d.room

instance (d : Delivery) : Decidable d.Full := inferInstanceAs (Decidable (_ ≤ _))

/-- `fwrite(3)`: the number of bytes written, and the file after them. -/
def fwrite (room count : ℕ) (buffer outfile : Bytes) : ℕ × Bytes :=
  (min room count, outfile ++ buffer.take (min room count))

/-- `get_buffer`. -/
def getBuffer (room : ℕ) (buffer : Bytes) (bufferLength : Int32) (outfile : Bytes) :
    Int32 × Bytes :=
  let r := fwrite room bufferLength.toUInt32.toNat buffer outfile
  (Int32.ofNat r.1, r.2)

/-- `getObjectDataCallback`, which is passed the size of the buffer as an `int` and passes it on
through `uint64_t`. -/
def getObjectDataCallback (d : Delivery) (outfile : Bytes) : S3Status × Bytes :=
  let bufferSize := Int32.ofNat d.buffer.length
  let r := getBuffer d.room d.buffer bufferSize.toInt64.toUInt64.toUInt32.toInt32 outfile
  (if r.1 < bufferSize then .failed .abortedByCallback else .ok, r.2)

/-- `S3_get_object`: the chunks are passed on until the callback returns another status than
`S3StatusOK`. -/
def s3GetObject : List Delivery → Bytes → S3Status × Bytes
  | [], outfile => (.ok, outfile)
  | d :: ds, outfile =>
    let r := getObjectDataCallback d outfile
    if r.1 = .ok then s3GetObject ds r.2 else r

/-- **One chunk**: it is appended as far as the file takes it, and the status says whether that is
all of it. -/
theorem getObjectDataCallback_eq (d : Delivery) (outfile : Bytes) :
    getObjectDataCallback d outfile
      = (if d.Full then .ok else .failed .abortedByCallback, outfile ++ d.buffer.take d.room) := by
  have hsize : (Int32.ofNat d.buffer.length).toInt64.toUInt64.toUInt32.toInt32
      = Int32.ofNat d.buffer.length := by
    apply Int32.toBitVec_inj.1
    apply BitVec.eq_of_toNat_eq
    change (Int32.ofNat d.buffer.length).toInt64.toUInt64.toNat % 2 ^ 32
      = d.buffer.length % 2 ^ 32
    rw [Int32.toNat_toUInt64_ofNat d.fits]
  have htake : d.buffer.take (min d.room d.buffer.length) = d.buffer.take d.room := by
    rw [← List.take_take, List.take_length]
  have hmin : min d.room d.buffer.length < 2 ^ 31 := (min_le_right _ _).trans_lt d.fits
  simp only [getObjectDataCallback, getBuffer, fwrite, hsize, Int32.toNat_toUInt32_ofNat d.fits,
    htake, Int32.lt_iff_toInt_lt, Int32.toInt_ofNat_of_lt d.fits, Int32.toInt_ofNat_of_lt hmin]
  by_cases hf : d.Full
  · have hle : d.buffer.length ≤ d.room := hf
    rw [if_pos hf, if_neg (by omega)]
  · have hlt : ¬ d.buffer.length ≤ d.room := hf
    rw [if_neg hf, if_pos (by omega)]

/-- **Chunks written in full are stored one after the other.** -/
theorem s3GetObject_eq {ds : List Delivery} (h : ∀ d ∈ ds, d.Full) (outfile : Bytes) :
    s3GetObject ds outfile = (.ok, outfile ++ ds.flatMap Delivery.buffer) := by
  induction ds generalizing outfile with
  | nil => rw [s3GetObject, List.flatMap_nil, List.append_nil]
  | cons d ds ih =>
    have hd : d.Full := h d List.mem_cons_self
    rw [s3GetObject, getObjectDataCallback_eq, if_pos hd]
    simp only [if_true]
    rw [ih fun e he => h e (List.mem_cons_of_mem _ he), List.take_of_length_le hd,
      List.flatMap_cons, List.append_assoc]

/-- A chunk written short fails the whole download. -/
theorem s3GetObject_of_short {ds : List Delivery} (h : ∃ d ∈ ds, ¬ d.Full) (outfile : Bytes) :
    (s3GetObject ds outfile).1 ≠ .ok := by
  induction ds generalizing outfile with
  | nil => simp at h
  | cons d ds ih =>
    rw [s3GetObject, getObjectDataCallback_eq]
    by_cases hd : d.Full
    · obtain ⟨e, he, hne⟩ := h
      rw [if_pos hd]
      simp only [if_true]
      rcases List.mem_cons.1 he with rfl | he
      · exact absurd hd hne
      · exact ih ⟨e, he, hne⟩ _
    · rw [if_neg hd]
      simp

/-! ## `s3_cloudfs_put` and `s3_cloudfs_get` through their callbacks -/

/-- The bytes as the content of a file, if a file can be as long. -/
def Content.ofBytes? (b : Bytes) : Option Content :=
  if h : b.length < offBound then some ⟨b, h⟩ else none

theorem Content.ofBytes?_bytes (c : Content) : Content.ofBytes? c.bytes = some c :=
  dif_pos c.size_lt

/-- How a download divides what it delivers into chunks. -/
structure Division where
  chunks : Content → List Delivery
  whole : ∀ c, (chunks c).flatMap Delivery.buffer = c.bytes

/-- Every chunk is written whole. -/
def Division.Full (d : Division) : Prop := ∀ c, ∀ x ∈ d.chunks c, x.Full

/-- `s3_cloudfs_put` with the data pulled through `putObjectDataCallback`; `none` if that takes more
than `fuel` calls. -/
def s3CloudfsPutBy (pulls : ℕ → Pull) (fuel : ℕ) (st : CloudfsState) (env : PutEnv) (path : Name)
    (w : World) : Option (World × ℤ) :=
  let absolutePath := getAbsolutePath st path
  match disturb env.fopen (w.ssd.openAt absolutePath ⟨.rdonly, false⟩) with
  | .error _ => some (w, -1)
  | .ok infile =>
    let size := match w.ssd.lstat absolutePath with
      | .ok statBuf => statBuf.st_size
      | .error _ => 0
    (s3PutObject pulls fuel (.start size (w.ssd.contentOf infile.ino).bytes)).bind fun sent =>
      (Content.ofBytes? sent).map fun data =>
        ({ w with bucket := (cloudPutObject env.answer w.bucket (getKey path) data).2 }, 0)

/-- `s3_cloudfs_get` with the data pushed through `getObjectDataCallback`. -/
def s3CloudfsGetBy (division : Division) (st : CloudfsState) (env : GetEnv) (path : Name)
    (w : World) : Option (World × Except Fail ℤ) :=
  match disturb env.fopen (w.ssd.creat (getAbsolutePath st path) 0o666) with
  | .error _ => some (w, .error .segv)
  | .ok (outfile, ssd) =>
    let r := cloudGetObject env.answer w.bucket (getKey path)
    let g := s3GetObject (division.chunks r.2) []
    (Content.ofBytes? g.2).map fun data =>
      ({ w with ssd := ssd.setContent outfile.ino (data.take (env.kept data.size)) },
        .ok (if r.1 = .ok ∧ g.1 = .ok then 0 else -1))

variable {st : CloudfsState} {w w' : World} {p : Name} {c : Content}

/-- **`s3CloudfsPut` is what the callback makes of it**, whatever buffers it is asked to fill. -/
theorem s3CloudfsPutBy_eq {fuel : ℕ} (hf : ∀ infile,
      w.ssd.openAt (getAbsolutePath st p) ⟨.rdonly, false⟩ = .ok infile →
        (w.ssd.contentOf infile.ino).size < fuel) (pulls : ℕ → Pull) (env : PutEnv) :
    s3CloudfsPutBy pulls fuel st env p w = some (s3CloudfsPut st env p w) := by
  cases ho : disturb env.fopen (w.ssd.openAt (getAbsolutePath st p) ⟨.rdonly, false⟩) with
  | error e => simp only [s3CloudfsPutBy, s3CloudfsPut, ho]
  | ok infile =>
    have hs := fun n => s3PutObject_eq
      (Outgoing.balanced_start n (w.ssd.contentOf infile.ino).bytes)
      (hf infile (eq_ok_of_disturb ho).2) pulls
    have hc := fun n => Content.ofBytes?_bytes ((w.ssd.contentOf infile.ino).take n)
    simp only [Content.take] at hc
    cases hl : w.ssd.lstat (getAbsolutePath st p) with
    | error e => simp only [s3CloudfsPutBy, s3CloudfsPut, ho, hl, hs, hc, Option.bind_some,
        Option.map_some, Content.take, UInt64.toNat_zero]
    | ok stbuf => simp only [s3CloudfsPutBy, s3CloudfsPut, ho, hl, hs, hc, Option.bind_some,
        Option.map_some, Content.take]

/-- **`s3CloudfsGet` is what the callback makes of it**, however what arrives is divided, if it is
written in full. -/
theorem s3CloudfsGetBy_eq {division : Division} (hd : division.Full) (env : GetEnv) :
    s3CloudfsGetBy division st env p w = some (s3CloudfsGet st env p w) := by
  cases hc : disturb env.fopen (w.ssd.creat (getAbsolutePath st p) 0o666) with
  | error e => simp only [s3CloudfsGetBy, s3CloudfsGet, hc]
  | ok r =>
    simp only [s3CloudfsGetBy, s3CloudfsGet, hc, s3GetObject_eq (hd _), division.whole,
      List.nil_append, Content.ofBytes?_bytes, Option.map_some, and_true]
    rfl

/-- **The object of an uploaded file, downloaded, is the file**: the put leaves the object the get
delivers, in whatever world the get is made. -/
theorem s3CloudfsGetBy_after_put {pulls : ℕ → Pull} {penv : PutEnv} {genv : GetEnv}
    {division : Division} {fuel : ℕ}
    (hc : (w.ssd.look (getAbsolutePath st p)).map Inode.node = some (.reg c))
    (hpf : penv.fopen = none) (hp : penv.answer = .served) (hgf : genv.fopen = none)
    (hg : genv.answer = .served) (hfl : genv.flush = none) (hd : division.Full)
    (hfuel : c.size < fuel) :
    ∃ w₁, s3CloudfsPutBy pulls fuel st penv p w = some (w₁, 0) ∧
      (w'.bucket (getKey p) = w₁.bucket (getKey p) → ∀ outfile ssd,
        w'.ssd.creat (getAbsolutePath st p) 0o666 = .ok (outfile, ssd) →
        ∃ w₂, s3CloudfsGetBy division st genv p w' = some (w₂, .ok 0) ∧
          w₂.ssd.openAt (getAbsolutePath st p) ⟨.rdonly, false⟩
            = .ok ⟨outfile.ino, ⟨.rdonly, false⟩⟩ ∧
          w₂.ssd.contentOf outfile.ino = c) := by
  obtain ⟨n, hn, hnc⟩ := Option.map_eq_some_iff.1 hc
  obtain ⟨i, hi, rfl⟩ := look_eq_some_iff.1 hn
  have hopen := openAt_of_not_link (readlink_of_reg hn hnc) hi ⟨.rdonly, false⟩
  have hput : s3CloudfsPut st penv p w
      = ({ w with bucket := Function.update w.bucket (getKey p) (some c) }, 0) := by
    simp only [s3CloudfsPut, hpf, disturb_none, hopen, lstat_of_look hn, contentOf_of_reg hnc,
      Inode.st_size_reg hnc, Content.take_size, cloudPutObject, hp, PutAnswer.applied, if_true]
  have hput' : s3CloudfsPutBy pulls fuel st penv p w = some (s3CloudfsPut st penv p w) := by
    refine s3CloudfsPutBy_eq (fun infile h => ?_) pulls penv
    obtain rfl := Except.ok.inj (hopen.symm.trans h)
    rwa [contentOf_of_reg hnc]
  refine ⟨_, hput'.trans (congrArg some hput), fun hb outfile ssd hcreat => ?_⟩
  have hb' : w'.bucket (getKey p) = some c := hb.trans (Function.update_self ..)
  have hget : s3CloudfsGet st genv p w'
      = ({ w' with ssd := ssd.setContent outfile.ino c }, .ok 0) := by
    simp only [s3CloudfsGet, hgf, disturb_none, hcreat, GetEnv.fetched_of_flush hfl, cloudGetObject,
      hg, hb', if_true]
  refine ⟨_, (s3CloudfsGetBy_eq hd genv).trans (congrArg some hget), openAt_creat hcreat c _, ?_⟩
  exact contentOf_of_reg (node_setContent_self ..)

/-- **Object transfer is the identity for every chunking.** -/
theorem transfer_identity (c : Content) (pulls : ℕ → Pull) :
    let u := Outgoing.start (UInt64.ofNat c.size) c.bytes
    (∀ n,
      let data := (u.after pulls n).data
      let ret := (putObjectDataCallback (pulls n) (u.after pulls n)).1
      data.offset.toNat + data.remainingLength.toNat = data.contentLength.toNat ∧
        0 ≤ ret.toInt ∧ ret.toInt ≤ data.remainingLength.toNat) ∧
    (∀ fuel, c.size < fuel → s3PutObject pulls fuel u = some c.bytes) ∧
    (∀ ds : List Delivery, ds.flatMap Delivery.buffer = c.bytes → (∀ d ∈ ds, d.Full) →
      s3GetObject ds [] = (.ok, c.bytes)) ∧
    (∀ (st : CloudfsState) (p : Name) (w w' : World) (penv : PutEnv) (genv : GetEnv)
        (division : Division) (fuel : ℕ),
      (w.ssd.look (getAbsolutePath st p)).map Inode.node = some (.reg c) →
      penv.fopen = none → penv.answer = .served → genv.fopen = none → genv.answer = .served →
      genv.flush = none → division.Full → c.size < fuel →
      ∃ w₁, s3CloudfsPutBy pulls fuel st penv p w = some (w₁, 0) ∧
        (w'.bucket (getKey p) = w₁.bucket (getKey p) → ∀ outfile ssd,
          w'.ssd.creat (getAbsolutePath st p) 0o666 = .ok (outfile, ssd) →
          ∃ w₂, s3CloudfsGetBy division st genv p w' = some (w₂, .ok 0) ∧
            w₂.ssd.openAt (getAbsolutePath st p) ⟨.rdonly, false⟩
              = .ok ⟨outfile.ino, ⟨.rdonly, false⟩⟩ ∧
            w₂.ssd.contentOf outfile.ino = c)) ∧
    (∀ (d : Delivery) (outfile : Bytes), ¬ d.Full →
      (getObjectDataCallback d outfile).1 ≠ .ok) ∧
    ∀ (ds : List Delivery) (outfile : Bytes), (∃ d ∈ ds, ¬ d.Full) →
      (s3GetObject ds outfile).1 ≠ .ok := by
  intro u
  have hsize : (UInt64.ofNat c.size).toNat = c.size :=
    UInt64.toNat_ofNat_of_lt' (c.size_lt_offBound.trans (by decide))
  have hbal : u.Balanced c.size c.bytes := by
    have h := Outgoing.balanced_start (UInt64.ofNat c.size) c.bytes
    rwa [hsize] at h
  refine ⟨fun n => ?_, fun fuel hf => ?_, fun ds hds hfull => ?_, ?_, fun d outfile hd => ?_,
    fun ds outfile hds => s3GetObject_of_short hds outfile⟩
  · have hn := hbal.after pulls n
    obtain ⟨hret, hlt, -, -⟩ := putObjectDataCallback_eq (pulls n) (u.after pulls n)
    have hle := (u.after pulls n).length_share_le (pulls n)
    refine ⟨hn.remaining.trans hn.length.symm, ?_⟩
    rw [hret, Int32.toInt_ofNat_of_lt hlt]
    omega
  · rw [s3PutObject_eq hbal hf, Content.size, List.take_length]
  · rw [s3GetObject_eq hfull, List.nil_append, hds]
  · intro st p w w' penv genv division fuel hc hpf hp hgf hg hfl hd hfuel
    exact s3CloudfsGetBy_after_put hc hpf hp hgf hg hfl hd hfuel
  · rw [getObjectDataCallback_eq, if_neg hd]
    simp

/-! ### A file of two bytes -/

/-- Requests for one byte at a time. -/
def bytePulls (_ : ℕ) : Pull := ⟨1, 1, by decide⟩

/-- Every byte a chunk, which is written. -/
def Division.bytewise : Division where
  chunks c := c.bytes.map fun b => ⟨[b], 1, Nat.one_lt_two_pow (by decide)⟩
  whole c := by simp [List.flatMap_map]

theorem Division.full_bytewise : Division.bytewise.Full := by
  intro c d hd
  obtain ⟨b, -, rfl⟩ := List.mem_map.1 hd
  exact le_rfl

def twoBytes : Content := ⟨[1, 2], by decide⟩

/-- `/a` with two bytes on the SSD. -/
def twoByteFile : World :=
  World.init ((Fs.empty 0 ⟨0, 0⟩).create (getAbsolutePath (.sample 0) ['/', 'a'])
    ⟨.reg twoBytes, 0o644, ⟨0, 0⟩, ⟨0, 0⟩⟩)

/-- Such a file, uploaded and downloaded byte by byte. -/
theorem transfer_identity_twoByteFile :
    ∃ w₁ w₂ i,
      s3CloudfsPutBy bytePulls 3 (.sample 0) ⟨none, .served⟩ ['/', 'a'] twoByteFile
        = some (w₁, 0) ∧
      s3CloudfsGetBy .bytewise (.sample 0) ⟨none, .served, none⟩ ['/', 'a'] w₁ = some (w₂, .ok 0) ∧
      w₂.ssd.contentOf i = twoBytes := by
  obtain ⟨w₁, hput, hget⟩ := (transfer_identity twoBytes bytePulls).2.2.2.1 (.sample 0)
    ['/', 'a'] twoByteFile
    { twoByteFile with bucket := Function.update (fun _ => none) ['+', 'a'] (some twoBytes) }
    ⟨none, .served⟩ ⟨none, .served, none⟩ .bytewise 3 rfl rfl rfl rfl rfl rfl
    Division.full_bytewise (by decide)
  have hput' : s3CloudfsPutBy bytePulls 3 (.sample 0) ⟨none, .served⟩ ['/', 'a'] twoByteFile
      = some ({ twoByteFile with
          bucket := Function.update (fun _ => none) ['+', 'a'] (some twoBytes) }, 0) := rfl
  obtain rfl := (Prod.mk.inj (Option.some.inj (hput'.symm.trans hput))).1
  obtain ⟨w₂, hw, -, hc⟩ := hget rfl _ _ rfl
  exact ⟨_, w₂, _, hput, hw, hc⟩

end CloudFS
