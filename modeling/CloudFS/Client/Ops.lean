import CloudFS.Client.World

/-!
# Client/Ops — the operations of `cloudfs.c`

Each FUSE operation as a function of the configuration, of what the environment does at each call
it makes (`OpenEnv`, `ReleaseEnv`, …: a fault of an SSD call, the answer to a request or an RPC),
and of the world.  `serve` is the operation a request dispatches to; FUSE runs single-threaded, so
one request is served at a time.

The parent directories of paths are taken to exist, calls are never refused for lack of
permission, and a write of the SSD is whole or fails.
-/

namespace CloudFS

open Posix

/-- What the environment does to `cloudfs_open`. -/
structure OpenEnv where
  acquire : ℕ → RpcAnswer
  unlink : Fault
  get : GetEnv
  openFile : Fault

/-- What the environment does to `cloudfs_release`. -/
structure ReleaseEnv where
  lstat : Fault
  delete : DeleteAnswer
  unlinkMetadata : Fault
  put : PutEnv
  openMetadata : Fault
  writeMetadata : Fault
  unlink : Fault
  symlink : Fault
  release : ℕ → RpcAnswer

/-- What the environment does to `cloudfs_getattr`. -/
structure GetattrEnv where
  lstat : Fault
  openFile : Fault
  read : Fault

/-- What the environment does to `cloudfs_unlink`. -/
structure UnlinkEnv where
  access : Fault
  delete : DeleteAnswer
  unlinkMetadata : Fault
  unlink : Fault

/-! ## Files without a handle -/

/-- `cloudfs_mknod` of a regular file. -/
def cloudfsMknod (st : CloudfsState) (fault : Fault) (path : Name) (mode : UInt32) (w : World) :
    World × Except Errno Unit :=
  match disturb fault (w.ssd.mknod (getAbsolutePath st path) mode) with
  | .error e => (w, .error e)
  | .ok ssd => ({ w with ssd := ssd }, .ok ())

/-- `cloudfs_truncate`. -/
def cloudfsTruncate (st : CloudfsState) (fault : Fault) (path : Name) (size : ℕ) (w : World) :
    World × Except Errno Unit :=
  match disturb fault (w.ssd.truncate (getAbsolutePath st path) size) with
  | .error e => (w, .error e)
  | .ok ssd => ({ w with ssd := ssd }, .ok ())

/-- `cloudfs_utimens`. -/
def cloudfsUtimens (st : CloudfsState) (fault : Fault) (path : Name) (atim mtim : Timespec)
    (w : World) : World × Except Errno Unit :=
  match disturb fault (w.ssd.utimens (getAbsolutePath st path) atim mtim) with
  | .error e => (w, .error e)
  | .ok ssd => ({ w with ssd := ssd }, .ok ())

/-- `cloudfs_getattr`: for a link, the `struct stat` kept in the file it leads to. -/
def cloudfsGetattr (st : CloudfsState) (env : GetattrEnv) (path : Name) (w : World) :
    Except Errno Stat :=
  let absolutePath := getAbsolutePath st path
  match disturb env.lstat (w.ssd.lstat absolutePath) with
  | .error e => .error e
  | .ok stbuf =>
    if S_ISLNK stbuf.st_mode then
      match disturb env.openFile (w.ssd.openAt absolutePath ⟨.rdonly, false⟩) with
      | .error e => .error e
      | .ok fd =>
        match disturb env.read (w.ssd.pread fd 0 Stat.sizeof) with
        | .error e => .error e
        | .ok b => .ok (Stat.decode b)
    else .ok stbuf

/-- `cloudfs_unlink`: only the last of its three removals is checked. -/
def cloudfsUnlink (st : CloudfsState) (env : UnlinkEnv) (path : Name) (w : World) :
    World × Except Errno Unit :=
  let absolutePath := getAbsolutePath st path
  let metadataPath := getMetadataPath st path
  let w :=
    if env.access = none ∧ w.ssd.accessible metadataPath then
      let w := (s3Delete env.delete path w).1
      { w with
        ssd := (disturb env.unlinkMetadata (w.ssd.unlink metadataPath)).toOption.getD w.ssd }
    else w
  match disturb env.unlink (w.ssd.unlink absolutePath) with
  | .error e => (w, .error e)
  | .ok ssd => ({ w with ssd := ssd }, .ok ())

/-! ## Open files -/

/-- `cloudfs_open`: whatever the path led to is removed and fetched again before it is known
whether the object exists. -/
def cloudfsOpen (st : CloudfsState) (env : OpenEnv) (path : Name) (flags : OpenFlags)
    (w : World) : World × Except Fail Handle :=
  let absolutePath := getAbsolutePath st path
  let w := { w with
    lock := acquireLockWrapper env.acquire path flags
      { w.lock with version := w.lock.version + 1 } }
  let w := { w with
    ssd := (disturb env.unlink (w.ssd.unlink absolutePath)).toOption.getD w.ssd }
  match s3CloudfsGet st env.get path w with
  | (w, .error e) => (w, .error e)
  | (w, .ok res) =>
    match disturb env.openFile (w.ssd.openAt absolutePath flags) with
    | .error e => (w, .error (.errno e))
    | .ok fd =>
      ({ w with files := w.files.alloc ⟨path, flags, ⟨fd, res == 0, false⟩⟩ }, .ok w.files.next)

/-- `cloudfs_read`. -/
def cloudfsRead (fault : Fault) (f : FuseFile) (size offset : ℕ) (w : World) :
    Except Errno Bytes :=
  disturb fault (w.ssd.pread f.fh.fd offset size)

/-- `cloudfs_write`: the handle of a proxy is dirty even if the write then fails. -/
def cloudfsWrite (fault : Fault) (h : Handle) (f : FuseFile) (buf : Bytes) (offset : ℕ)
    (w : World) : World × Except Errno ℕ :=
  let w :=
    if f.fh.proxy then
      { w with files := w.files.set h { f with fh := { f.fh with dirty := true } } }
    else w
  match disturb fault (w.ssd.pwrite f.fh.fd offset buf) with
  | .error e => (w, .error e)
  | .ok ssd => ({ w with ssd := ssd }, .ok buf.length)

/-- `cloudfs_fgetattr`. -/
def cloudfsFgetattr (fault : Fault) (f : FuseFile) (w : World) : Except Errno Stat :=
  disturb fault (.ok (w.ssd.fstat f.fh.fd))

/-- `cloudfs_ftruncate`, which does nothing and reports success. -/
def cloudfsFtruncate (_f : FuseFile) (_off : ℕ) (w : World) : World × Except Errno Unit :=
  (w, .ok ())

/-! ### `cloudfs_release` -/

/-- The upload both branches of `cloudfs_release` make: the file is put to the bucket and its
`struct stat` written to the metadata file. -/
def flushToCloud (st : CloudfsState) (env : ReleaseEnv) (path : Name) (stbuf : Stat) (w : World) :
    World × Except Errno Unit :=
  let w := (s3CloudfsPut st env.put path w).1
  match disturb env.openMetadata (w.ssd.creat (getMetadataPath st path) 0o644) with
  | .error e => (w, .error e)
  | .ok (fd, ssd) =>
    let w := { w with ssd := ssd }
    match disturb env.writeMetadata (w.ssd.pwrite fd 0 stbuf.encode) with
    | .error e => (w, .error e)
    | .ok ssd => ({ w with ssd := ssd }, .ok ())

/-- The end both branches share: the file removed and the path linked to its metadata file. -/
def makeProxy (st : CloudfsState) (env : ReleaseEnv) (path : Name) (w : World) :
    World × Except Errno Unit :=
  let absolutePath := getAbsolutePath st path
  match disturb env.unlink (w.ssd.unlink absolutePath) with
  | .error e => (w, .error e)
  | .ok ssd =>
    let w := { w with ssd := ssd }
    match disturb env.symlink (w.ssd.symlink (getMetadataPath st path) absolutePath) with
    | .error e => (w, .error e)
    | .ok ssd => ({ w with ssd := ssd }, .ok ())

/-- A dirty file that shrank below the threshold: its object and its metadata are removed and the
file on the SSD stays. -/
def keepLocal (st : CloudfsState) (env : ReleaseEnv) (path : Name) (w : World) : World :=
  let w := (s3Delete env.delete path w).1
  { w with
    ssd := (disturb env.unlinkMetadata (w.ssd.unlink (getMetadataPath st path))).toOption.getD
      w.ssd }

/-- A file uploaded and replaced by a link; a failed upload call stops it. -/
def flushAndLink (st : CloudfsState) (env : ReleaseEnv) (path : Name) (stbuf : Stat)
    (w : World) : World × Except Errno Unit :=
  match flushToCloud st env path stbuf w with
  | (w, .error e) => (w, .error e)
  | (w, .ok ()) => makeProxy st env path w

/-- `cloudfs_release` up to its label `FINISH`. -/
def releaseFile (st : CloudfsState) (env : ReleaseEnv) (f : FuseFile) (w : World) :
    World × Except Errno Unit :=
  match disturb env.lstat (w.ssd.lstat (getAbsolutePath st f.path)) with
  | .error e => (w, .error e)
  | .ok stbuf =>
    if f.fh.proxy then
      if f.fh.dirty then
        if (stbuf.st_size.toNat : ℤ) ≤ st.threshold then (keepLocal st env f.path w, .ok ())
        else flushAndLink st env f.path stbuf w
      else makeProxy st env f.path w
    else if (stbuf.st_size.toNat : ℤ) > st.threshold then flushAndLink st env f.path stbuf w
    else (w, .ok ())

/-- `cloudfs_release`. -/
def cloudfsRelease (st : CloudfsState) (env : ReleaseEnv) (h : Handle) (f : FuseFile)
    (w : World) : World × Except Errno Unit :=
  let r := releaseFile st env f w
  ({ r.1 with
      lock := releaseLockWrapper env.release f.path r.1.lock
      files := r.1.files.erase h }, r.2)

/-! ## Serving requests -/

/-- The requests FUSE makes, the unmounting and mounting again of the file system, and the passing
of time. -/
inductive Req
  | mknod (path : Name) (mode : UInt32) (fault : Fault)
  | truncate (path : Name) (size : ℕ) (fault : Fault)
  | utimens (path : Name) (atim mtim : Timespec) (fault : Fault)
  | getattr (path : Name) (env : GetattrEnv)
  | unlink (path : Name) (env : UnlinkEnv)
  | openFile (path : Name) (flags : OpenFlags) (env : OpenEnv)
  | read (h : Handle) (size offset : ℕ) (fault : Fault)
  | write (h : Handle) (buf : Bytes) (offset : ℕ) (fault : Fault)
  | fgetattr (h : Handle) (fault : Fault)
  | ftruncate (h : Handle) (off : ℕ)
  | release (h : Handle) (env : ReleaseEnv)
  | remount
  | tick (now : Timespec)

/-- What a request is answered with. -/
inductive Reply
  | done
  | handle (h : Handle)
  | data (b : Bytes)
  | count (n : ℕ)
  | attr (s : Stat)
  | fail (e : Fail)
  deriving DecidableEq

/-- The reply to an operation that returns nothing. -/
def Reply.ofUnit : Except Errno Unit → Reply
  | .ok () => .done
  | .error e => .fail (.errno e)

/-- The reply to an operation that returns a value. -/
def Reply.ofResult {α : Type} (f : α → Reply) : Except Errno α → Reply
  | .ok a => f a
  | .error e => .fail (.errno e)

/-- The mount of a process that was stopped and started again. -/
def World.remount (w : World) : World := { w with files := Table.empty, lock := LockClient.init }

/-- An operation on an open file; FUSE makes none on a handle that is not open. -/
def onFile (w : World) (h : Handle) (op : FuseFile → World × Reply) : World × Reply :=
  match w.files.get h with
  | some f => op f
  | none => (w, .fail (.errno .EBADF))

/-- An operation on a handle that is not open changes nothing. -/
theorem onFile_of_none {w : World} {h : Handle} (hf : w.files.get h = none)
    (op : FuseFile → World × Reply) : (onFile w h op).1 = w := by
  rw [onFile, hf]

/-- An operation that changes nothing on any open file changes nothing. -/
theorem onFile_unchanged {w : World} {op : FuseFile → World × Reply} (hop : ∀ f, (op f).1 = w)
    (h : Handle) : (onFile w h op).1 = w := by
  cases hf : w.files.get h with
  | none => exact onFile_of_none hf op
  | some f =>
    rw [onFile, hf]
    exact hop f

/-- One request served. -/
def serve (st : CloudfsState) (w : World) : Req → World × Reply
  | .mknod path mode fault =>
    let r := cloudfsMknod st fault path mode w
    (r.1, Reply.ofUnit r.2)
  | .truncate path size fault =>
    let r := cloudfsTruncate st fault path size w
    (r.1, Reply.ofUnit r.2)
  | .utimens path atim mtim fault =>
    let r := cloudfsUtimens st fault path atim mtim w
    (r.1, Reply.ofUnit r.2)
  | .getattr path env => (w, Reply.ofResult .attr (cloudfsGetattr st env path w))
  | .unlink path env =>
    let r := cloudfsUnlink st env path w
    (r.1, Reply.ofUnit r.2)
  | .openFile path flags env =>
    match cloudfsOpen st env path flags w with
    | (w, .ok h) => (w, .handle h)
    | (w, .error e) => (w, .fail e)
  | .read h size offset fault => onFile w h fun f =>
      (w, Reply.ofResult .data (cloudfsRead fault f size offset w))
  | .write h buf offset fault => onFile w h fun f =>
      let r := cloudfsWrite fault h f buf offset w
      (r.1, Reply.ofResult .count r.2)
  | .fgetattr h fault => onFile w h fun f =>
      (w, Reply.ofResult .attr (cloudfsFgetattr fault f w))
  | .ftruncate h off => onFile w h fun f =>
      let r := cloudfsFtruncate f off w
      (r.1, Reply.ofUnit r.2)
  | .release h env => onFile w h fun f =>
      let r := cloudfsRelease st env h f w
      (r.1, Reply.ofUnit r.2)
  | .remount => (w.remount, .done)
  | .tick now => ({ w with ssd := { w.ssd with clock := now } }, .done)

section

variable (st : CloudfsState) (w : World) (h : Handle)

/-- A read changes nothing; access times are left out. -/
@[simp] theorem serve_read_fst (size offset : ℕ) (fault : Fault) :
    (serve st w (.read h size offset fault)).1 = w := by
  refine onFile_unchanged (fun _ => ?_) h
  rfl

@[simp] theorem serve_fgetattr_fst (fault : Fault) : (serve st w (.fgetattr h fault)).1 = w := by
  refine onFile_unchanged (fun _ => ?_) h
  rfl

/-- **`cloudfs_ftruncate` changes nothing.** -/
@[simp] theorem serve_ftruncate_fst (off : ℕ) : (serve st w (.ftruncate h off)).1 = w := by
  refine onFile_unchanged (fun _ => ?_) h
  rfl

end

end CloudFS
