import CloudFS.Client.Cloud
import CloudFS.Client.Lock
import CloudFS.Machinery.Table

/-!
# Client/World — the state of a mount and `s3_cloudfs.c`

A mount is an SSD, the files FUSE holds open and the lock client; a world is a mount and the
bucket it talks to.  `s3CloudfsPut`, `s3CloudfsGet` and `s3Delete` move a file between the two.
Here they move it whole; `Requests/Transfer` takes it through the buffers of the callbacks.  Logging
is left out.
-/

namespace CloudFS

open Posix

/-- `struct file_handler`. -/
structure FhT where
  fd : OpenFile
  proxy : Bool
  dirty : Bool
  deriving DecidableEq

/-- What FUSE keeps of an open file: the path it passes to every operation on it, and the
`fuse_file_info` with the flags of the open and the handle `cloudfs_open` left in `fh`. -/
structure FuseFile where
  path : Name
  flags : OpenFlags
  fh : FhT
  deriving DecidableEq

/-- A handle, as `fi->fh` carries it. -/
abbrev Handle := ℕ

/-- The state of one mount. -/
structure Mount where
  ssd : Fs
  files : Table FuseFile
  lock : LockClient

/-- A mount and the bucket. -/
structure World extends Mount where
  bucket : Bucket

/-- A fresh mount over an SSD. -/
def Mount.init (ssd : Fs) : Mount := ⟨ssd, Table.empty, LockClient.init⟩

/-- A fresh mount over an SSD and an empty bucket. -/
def World.init (ssd : Fs) : World := ⟨Mount.init ssd, fun _ => none⟩

/-- How an operation fails: it returns an error number, or the process dies on a null stream. -/
inductive Fail
  | errno (e : Errno)
  | segv
  deriving DecidableEq

/-- What the environment does to `s3_cloudfs_put`. -/
structure PutEnv where
  fopen : Fault
  answer : PutAnswer

/-- What the environment does to `s3_cloudfs_get`.  What arrived is written out at the latest when
the file is closed; where that fails, `flush` is how many bytes the file keeps. -/
structure GetEnv where
  fopen : Fault
  answer : GetAnswer
  flush : Option ℕ

/-- How many of `n` bytes that arrived the file keeps once it is closed. -/
def GetEnv.kept (env : GetEnv) (n : ℕ) : ℕ :=
  match env.flush with
  | none => n
  | some m => min m n

/-- What a get comes to: the status of the request, and what the file holds once it is closed. -/
def GetEnv.fetched (env : GetEnv) (bucket : Bucket) (key : Name) : S3Status × Content :=
  let r := cloudGetObject env.answer bucket key
  (r.1, r.2.take (env.kept r.2.size))

/-- `s3_cloudfs_put`: the file is opened through links, but its size is that of the path itself;
the status of the put is not looked at. -/
def s3CloudfsPut (st : CloudfsState) (env : PutEnv) (path : Name) (w : World) : World × ℤ :=
  let absolutePath := getAbsolutePath st path
  match disturb env.fopen (w.ssd.openAt absolutePath ⟨.rdonly, false⟩) with
  | .error _ => (w, -1)
  | .ok infile =>
    let size := match w.ssd.lstat absolutePath with
      | .ok statBuf => statBuf.st_size.toNat
      | .error _ => 0
    let data := (w.ssd.contentOf infile.ino).take size
    ({ w with bucket := (cloudPutObject env.answer w.bucket (getKey path) data).2 }, 0)

/-- `s3_cloudfs_get`: the path is truncated, or created, before the object is asked for, and holds
whatever arrived.  A file that cannot be opened leaves a null stream; whether closing the file
wrote it out is not looked at. -/
def s3CloudfsGet (st : CloudfsState) (env : GetEnv) (path : Name) (w : World) :
    World × Except Fail ℤ :=
  match disturb env.fopen (w.ssd.creat (getAbsolutePath st path) 0o666) with
  | .error _ => (w, .error .segv)
  | .ok (outfile, ssd) =>
    let r := env.fetched w.bucket (getKey path)
    ({ w with ssd := ssd.setContent outfile.ino r.2 }, .ok (if r.1 = .ok then 0 else -1))

/-- `s3_delete`: the status of the delete is not looked at. -/
def s3Delete (ans : DeleteAnswer) (path : Name) (w : World) : World × ℤ :=
  ({ w with bucket := (cloudDeleteObject ans w.bucket (getKey path)).2 }, 0)

namespace GetEnv

variable {env : GetEnv} {b : Bucket} {k : Name}

/-- A file whose closing does not fail keeps what arrived. -/
theorem kept_of_flush (h : env.flush = none) (n : ℕ) : env.kept n = n := by rw [kept, h]

theorem fetched_of_flush (h : env.flush = none) :
    env.fetched b k = cloudGetObject env.answer b k := by
  rw [fetched, kept_of_flush h, Content.take_size]

/-- A get succeeds only when it is served and the object is there, however the file is closed. -/
theorem fetched_ok_iff : (env.fetched b k).1 = .ok ↔ env.answer = .served ∧ (b k).isSome :=
  cloudGetObject_ok_iff

/-- What a served get leaves in a file that is closed without a failure. -/
theorem fetched_served (h : env.flush = none) (ha : env.answer = .served) :
    (env.fetched b k).2 = (b k).getD Content.empty := by
  rw [fetched_of_flush h, ha, cloudGetObject_served]

/-- What a served get of an object leaves, however the file is closed. -/
theorem fetched_eq_take (ha : env.answer = .served) {o : Content} (ho : b k = some o) :
    (env.fetched b k).2 = o.take (env.kept o.size) := by
  simp only [fetched, cloudGetObject, ha, ho]

theorem kept_le (env : GetEnv) (n : ℕ) : env.kept n ≤ n := by
  rw [kept]
  split
  case h_1 => exact le_rfl
  case h_2 m _ => exact Nat.min_le_right m n

/-- What a get that breaks off leaves of an object. -/
theorem fetched_failed {e : S3Failure} {n : ℕ} (ha : env.answer = .failed e n) {o : Content}
    (ho : b k = some o) : (env.fetched b k).2 = o.take (env.kept (min n o.size)) := by
  have hle : env.kept (min n o.size) ≤ n := (env.kept_le _).trans (Nat.min_le_left n _)
  simp only [fetched, cloudGetObject, ha, ho, Content.size_take, Content.take_take]
  rw [min_eq_right hle]

/-- All bytes are kept unless the flush failed before the last. -/
theorem le_kept_self_iff {n : ℕ} : n ≤ env.kept n ↔ ∀ m, env.flush = some m → n ≤ m := by
  cases h : env.flush <;> simp [kept, h]

end GetEnv

end CloudFS
