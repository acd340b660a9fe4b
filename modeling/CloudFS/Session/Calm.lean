import CloudFS.Client.Ops
import CloudFS.Machinery.Posix.Laws

/-!
# Session/Calm — the operations when the SSD does not fail

What `cloudfs_open`, `cloudfs_release` and `cloudfs_unlink` leave when no SSD call is disturbed,
for every answer of the bucket, as explicit states built from `create`, `remove` and `store`.
Everything proved about sessions starts from these equations; nothing else unfolds an operation.
-/

namespace CloudFS

open Posix Posix.Fs

/-! ## Undisturbed environments -/

/-- No SSD call of the open fails. -/
structure OpenEnv.SsdOk (env : OpenEnv) : Prop where
  unlink : env.unlink = none
  fopen : env.get.fopen = none
  flush : env.get.flush = none
  openFile : env.openFile = none

/-- No SSD call of the release fails. -/
structure ReleaseEnv.SsdOk (env : ReleaseEnv) : Prop where
  lstat : env.lstat = none
  unlinkMetadata : env.unlinkMetadata = none
  fopen : env.put.fopen = none
  openMetadata : env.openMetadata = none
  writeMetadata : env.writeMetadata = none
  unlink : env.unlink = none
  symlink : env.symlink = none

/-- No SSD call of the unlink fails. -/
structure UnlinkEnv.SsdOk (env : UnlinkEnv) : Prop where
  access : env.access = none
  unlinkMetadata : env.unlinkMetadata = none
  unlink : env.unlink = none

/-- No call of the getattr fails. -/
structure GetattrEnv.SsdOk (env : GetattrEnv) : Prop where
  lstat : env.lstat = none
  openFile : env.openFile = none
  read : env.read = none

/-- A request none of whose SSD calls fails and all of whose requests to the bucket are served. -/
def Req.Calm : Req → Prop
  | .mknod _ _ fault => fault = none
  | .truncate _ _ fault => fault = none
  | .utimens _ _ _ fault => fault = none
  | .getattr _ env => env.SsdOk
  | .unlink _ env => env.SsdOk ∧ env.delete = .served
  | .openFile _ _ env => env.SsdOk ∧ env.get.answer = .served
  | .read _ _ _ fault => fault = none
  | .write _ _ _ fault => fault = none
  | .fgetattr _ fault => fault = none
  | .ftruncate _ _ => True
  | .release _ env => env.SsdOk ∧ env.put.answer = .served ∧ env.delete = .served
  | .remount => True
  | .tick _ => True

/-- An open with every lock request granted and every call and request served. -/
def OpenEnv.calm : OpenEnv := ⟨fun _ => .answered .OK, none, ⟨none, .served, none⟩, none⟩

/-- A release with every call and request served. -/
def ReleaseEnv.calm : ReleaseEnv :=
  ⟨none, .served, none, ⟨none, .served⟩, none, none, none, none, fun _ => .answered .OK⟩

theorem OpenEnv.ssdOk_calm : OpenEnv.calm.SsdOk := ⟨rfl, rfl, rfl, rfl⟩

theorem ReleaseEnv.ssdOk_calm : ReleaseEnv.calm.SsdOk := ⟨rfl, rfl, rfl, rfl, rfl, rfl, rfl⟩

variable {st : CloudfsState} {w : World} {p : Name} {i : Ino} {c : Content}

/-! ## `cloudfs_open` -/

/-- The world after an undisturbed open: `p` leads to a new file that holds what the get
delivered, open under a new handle. -/
def afterOpen (st : CloudfsState) (env : OpenEnv) (p : Name) (flags : OpenFlags) (w : World) :
    World :=
  let r := env.get.fetched w.bucket (getKey p)
  { ssd := w.ssd.create (getAbsolutePath st p)
      (w.ssd.fresh (.reg r.2) (0o666 &&& ~~~w.ssd.umask))
    files := w.files.alloc ⟨p, flags, ⟨⟨w.ssd.next, flags⟩, decide (r.1 = .ok), false⟩⟩
    lock := acquireLockWrapper env.acquire p flags
      { w.lock with version := w.lock.version + 1 }
    bucket := w.bucket }

/-- **An undisturbed open succeeds.** -/
theorem cloudfsOpen_eq {env : OpenEnv} (h : env.SsdOk) (flags : OpenFlags) :
    cloudfsOpen st env p flags w = (afterOpen st env p flags w, .ok w.files.next) := by
  have hcreat := creat_of_none (dirent_remove_self w.ssd (getAbsolutePath st p)) 0o666
  have hopen := openAt_of_not_link
    (readlink_of_reg (look_create_self w.ssd (getAbsolutePath st p)
      (w.ssd.fresh (.reg (env.get.fetched w.bucket (getKey p)).2)
        (0o666 &&& ~~~w.ssd.umask))) rfl)
    (dirent_create_self ..) flags
  have hfresh : (w.ssd.remove (getAbsolutePath st p)).fresh = w.ssd.fresh := rfl
  have humask : (w.ssd.remove (getAbsolutePath st p)).umask = w.ssd.umask := rfl
  have hflag : ∀ b : Prop, [Decidable b] → ((if b then (0 : ℤ) else -1) == 0) = decide b := by
    intro b _
    split <;> simp_all
  simp only [cloudfsOpen, s3CloudfsGet, h.unlink, h.fopen, h.openFile, disturb_none, unlink_getD,
    hcreat, create_remove, next_remove, hfresh, humask, setContent_create, hopen, hflag, afterOpen]

/-! ## `cloudfs_release` -/

/-- The world whose path `p` was replaced by a link to its metadata file. -/
def World.linked (st : CloudfsState) (p : Name) (w : World) : World :=
  { w with
    ssd := w.ssd.create (getAbsolutePath st p)
      (w.ssd.fresh (.lnk (getMetadataPath st p)) 0o777) }

/-- The world whose file `p` of content `c` was offered to the bucket and its metadata written. -/
def World.uploaded (st : CloudfsState) (ans : PutAnswer) (p : Name) (c : Content) (stbuf : Stat)
    (w : World) : World :=
  { w with
    bucket := (cloudPutObject ans w.bucket (getKey p) c).2
    ssd := w.ssd.store (getMetadataPath st p) stbuf.content 0o644 }

/-- The world that asked the bucket to delete the object of `p` and removed its metadata. -/
def World.forgotten (st : CloudfsState) (ans : DeleteAnswer) (p : Name) (w : World) : World :=
  { w with
    bucket := (cloudDeleteObject ans w.bucket (getKey p)).2
    ssd := w.ssd.remove (getMetadataPath st p) }

/-- An undisturbed `makeProxy` replaces whatever `p` leads to. -/
theorem makeProxy_eq {env : ReleaseEnv} (h : env.SsdOk)
    (hd : w.ssd.dirent (getAbsolutePath st p) = some i) :
    makeProxy st env p w = (w.linked st p, .ok ()) := by
  have hs := symlink_of_none (dirent_remove_self w.ssd (getAbsolutePath st p))
    (getMetadataPath st p)
  have hfresh : (w.ssd.remove (getAbsolutePath st p)).fresh = w.ssd.fresh := rfl
  simp only [makeProxy, h.unlink, h.symlink, disturb_none, unlink_of_some hd, hs, create_remove,
    hfresh, World.linked]

/-- An undisturbed `keepLocal` forgets the object and the metadata. -/
theorem keepLocal_eq {env : ReleaseEnv} (h : env.SsdOk) :
    keepLocal st env p w = w.forgotten st env.delete p := by
  simp only [keepLocal, s3Delete, h.unlinkMetadata, disturb_none, unlink_getD, World.forgotten]

/-- An undisturbed put offers the bucket the whole file. -/
theorem s3CloudfsPut_eq {env : PutEnv} (h : env.fopen = none)
    (hd : w.ssd.dirent (getAbsolutePath st p) = some i) (hn : (w.ssd.inode i).node = .reg c) :
    (s3CloudfsPut st env p w).1
      = { w with bucket := (cloudPutObject env.answer w.bucket (getKey p) c).2 } := by
  have hl := look_of_dirent hd
  have ho := openAt_of_not_link (readlink_of_reg hl hn) hd ⟨.rdonly, false⟩
  simp only [s3CloudfsPut, h, disturb_none, ho, lstat_of_look hl, Inode.st_size_reg hn,
    contentOf_of_reg hn, Content.take_size]

/-- An undisturbed `flushToCloud` uploads the file and stores its `struct stat`. -/
theorem flushToCloud_eq {env : ReleaseEnv} (h : env.SsdOk)
    (hd : w.ssd.dirent (getAbsolutePath st p) = some i) (hn : (w.ssd.inode i).node = .reg c)
    (hm : w.ssd.readlink (getMetadataPath st p) = none) (stbuf : Stat) :
    flushToCloud st env p stbuf w = (w.uploaded st env.put.answer p c stbuf, .ok ()) := by
  obtain ⟨f, fs₁, hc, hp⟩ := creat_pwrite hm stbuf.content 0o644
  have he : stbuf.content.bytes = stbuf.encode := rfl
  rw [he] at hp
  simp only [flushToCloud, s3CloudfsPut_eq h.fopen hd hn, h.openMetadata, h.writeMetadata,
    disturb_none, hc, hp, World.uploaded]

/-- An undisturbed upload ends with the path linked to its metadata file, which is another. -/
theorem flushAndLink_of_ne {env : ReleaseEnv} (h : env.SsdOk)
    (hne : getAbsolutePath st p ≠ getMetadataPath st p)
    (hd : w.ssd.dirent (getAbsolutePath st p) = some i) (hn : (w.ssd.inode i).node = .reg c)
    (hm : w.ssd.readlink (getMetadataPath st p) = none) (stbuf : Stat) :
    flushAndLink st env p stbuf w
      = ((w.uploaded st env.put.answer p c stbuf).linked st p, .ok ()) := by
  have hd' : (w.uploaded st env.put.answer p c stbuf).ssd.dirent (getAbsolutePath st p) = some i :=
    (dirent_store_of_ne hne 0o644).trans hd
  simp only [flushAndLink, flushToCloud_eq h hd hn hm, makeProxy_eq h hd']

/-- The file part of an undisturbed release of a file of content `c`. -/
def afterReleaseFile (st : CloudfsState) (env : ReleaseEnv) (f : FuseFile) (c : Content)
    (stbuf : Stat) (w : World) : World :=
  if f.fh.proxy ∧ ¬ f.fh.dirty then w.linked st f.path
  else if st.threshold < c.size then
    (w.uploaded st env.put.answer f.path c stbuf).linked st f.path
  else if f.fh.proxy then w.forgotten st env.delete f.path
  else w

/-- **An undisturbed release of a regular file** that is not its own metadata file: a clean proxy is
linked back, a file above the threshold is uploaded and linked, a dirty proxy at or below it becomes
local, and a local file stays. -/
theorem releaseFile_of_ne {env : ReleaseEnv} (h : env.SsdOk) {f : FuseFile}
    (hne : getAbsolutePath st f.path ≠ getMetadataPath st f.path)
    (hd : w.ssd.dirent (getAbsolutePath st f.path) = some i)
    (hn : (w.ssd.inode i).node = .reg c)
    (hm : w.ssd.readlink (getMetadataPath st f.path) = none) :
    releaseFile st env f w
      = (afterReleaseFile st env f c (w.ssd.inode i).stat w, .ok ()) := by
  have hl := lstat_of_look (look_of_dirent hd)
  have hflush := flushAndLink_of_ne h hne hd hn hm (w.ssd.inode i).stat
  have hlink := makeProxy_eq (p := f.path) h hd
  have hkeep : keepLocal st env f.path w = w.forgotten st env.delete f.path := keepLocal_eq h
  simp only [releaseFile, h.lstat, disturb_none, hl, Inode.st_size_reg hn, hflush, hlink, hkeep,
    afterReleaseFile, gt_iff_lt, ← not_lt]
  cases f.fh.proxy <;> cases f.fh.dirty <;> by_cases ht : st.threshold < c.size <;> simp [ht]

/-- The release of a file outside the metadata directory. -/
theorem releaseFile_eq {env : ReleaseEnv} (h : env.SsdOk) {f : FuseFile} (hp : Outside st f.path)
    (hd : w.ssd.dirent (getAbsolutePath st f.path) = some i)
    (hn : (w.ssd.inode i).node = .reg c)
    (hm : w.ssd.readlink (getMetadataPath st f.path) = none) :
    releaseFile st env f w
      = (afterReleaseFile st env f c (w.ssd.inode i).stat w, .ok ()) :=
  releaseFile_of_ne h (hp.absolute_ne_metadata f.path) hd hn hm

/-- A release ends with the handle closed and the lock given back, whatever became of the file. -/
theorem cloudfsRelease_eq {env : ReleaseEnv} {h : Handle} {f : FuseFile} {w' : World}
    {r : Except Errno Unit} (hr : releaseFile st env f w = (w', r)) :
    cloudfsRelease st env h f w
      = ({ w' with
            lock := releaseLockWrapper env.release f.path w'.lock
            files := w'.files.erase h }, r) := by
  rw [cloudfsRelease, hr]

/-! ## Files without a handle -/

/-- An undisturbed unlink of an existing path removes its object and metadata when there is
metadata, and the path in any case. -/
theorem cloudfsUnlink_eq {env : UnlinkEnv} (h : env.SsdOk) (hp : Outside st p)
    (hd : w.ssd.dirent (getAbsolutePath st p) = some i)
    (hm : w.ssd.readlink (getMetadataPath st p) = none) :
    cloudfsUnlink st env p w =
      ({ w with
          bucket := if (w.ssd.dirent (getMetadataPath st p)).isSome
            then (cloudDeleteObject env.delete w.bucket (getKey p)).2 else w.bucket
          ssd := (w.ssd.remove (getMetadataPath st p)).remove (getAbsolutePath st p) },
        .ok ()) := by
  have ha := accessible_of_not_link hm
  have hd' : (w.ssd.remove (getMetadataPath st p)).dirent (getAbsolutePath st p) = some i :=
    (dirent_remove_of_ne (hp.absolute_ne_metadata p)).trans hd
  cases hs : w.ssd.dirent (getMetadataPath st p) with
  | none =>
    simp only [cloudfsUnlink, h.access, h.unlink, ha, hs, disturb_none, remove_of_none hs,
      unlink_of_some hd, Option.isSome_none, Bool.false_eq_true, and_false, if_false]
  | some j =>
    simp only [cloudfsUnlink, s3Delete, h.access, h.unlink, h.unlinkMetadata, ha, hs,
      disturb_none, unlink_getD, unlink_of_some hd', Option.isSome_some, and_self, if_true]

/-- What `cloudfs_getattr` reports of a path, from what it and its metadata file lead to. -/
def attrOf (file metadata : Option Inode) : Except Errno Stat :=
  match file with
  | none => .error .ENOENT
  | some n =>
    match n.node with
    | .reg _ => .ok n.stat
    | .lnk _ =>
      match metadata with
      | none => .error .ENOENT
      | some m =>
        match m.node with
        | .reg c => .ok (Stat.decode c.bytes)
        | .lnk _ => .error .EINVAL

/-- Reading as many bytes as a `struct stat` has is enough to decode one. -/
theorem decode_slice (b : Bytes) : Stat.decode (b.slice 0 Stat.sizeof) = Stat.decode b := by
  have hr : (b.slice 0 Stat.sizeof).resize Stat.sizeof = b.resize Stat.sizeof := by
    rw [Bytes.slice, List.drop_zero, Bytes.resize, Bytes.resize, List.take_take, min_self,
      List.length_take]
    exact congrArg _ (congrArg (fun k => List.replicate k 0) (by omega))
  simp only [Stat.decode, Stat.field, hr]

/-- **An undisturbed getattr looks at the path and, through a link, at its metadata file.** -/
theorem cloudfsGetattr_eq {env : GetattrEnv} (h : env.SsdOk)
    (hlink : ∀ t, w.ssd.readlink (getAbsolutePath st p) = some t → t = getMetadataPath st p)
    (hm : w.ssd.readlink (getMetadataPath st p) = none) :
    cloudfsGetattr st env p w
      = attrOf (w.ssd.look (getAbsolutePath st p)) (w.ssd.look (getMetadataPath st p)) := by
  simp only [cloudfsGetattr, h.lstat, h.openFile, h.read, disturb_none]
  cases hl : w.ssd.look (getAbsolutePath st p) with
  | none => simp only [lstat, hl, attrOf]
  | some n =>
    simp only [lstat_of_look hl]
    cases hn : n.node with
    | reg c => simp only [Inode.isLnk_stat_reg hn, attrOf, hn, Bool.false_eq_true, if_false]
    | lnk t =>
      have hr := readlink_of_lnk hl hn
      obtain rfl := hlink t hr
      simp only [Inode.isLnk_stat_lnk hn, if_true, attrOf, hn]
      cases hd : w.ssd.dirent (getMetadataPath st p) with
      | none => simp only [openAt_of_dangling hr hd, look_eq_none_iff.2 hd]
      | some j =>
        simp only [openAt_of_link hr hm hd, look_of_dirent hd]
        cases hj : (w.ssd.inode j).node with
        | reg c =>
          have hr := pread_of_reg (f := ⟨j, ⟨.rdonly, false⟩⟩) rfl hj 0 Stat.sizeof
          simp only [hr, decode_slice]
        | lnk u =>
          rw [readlink_of_lnk (look_of_dirent hd) hj] at hm
          exact absurd hm (by simp)

end CloudFS
