import CloudFS.Session.Run

/-!
# Session/Transfer — sessions whose transfers fail

`s3_cloudfs_put` returns 0 whatever the put came to, and `cloudfs_open` takes every failed get for
a file that is not on the cloud.  So a release may remove the only copy of a file
(`session_keeps_bytes_iff`), and a session that only reads may replace an object by the part of it
that arrived (`read_session_keeps_object_iff`).  Any SSD call may fail as well, the flush of a
downloaded file included.
-/

namespace CloudFS

open Posix Posix.Fs

variable {st : CloudfsState} {w v : World} {p : Name} {h : Handle} {f : FuseFile} {c o : Content}
  {i : Ino}

/-! ## What an upload leaves -/

/-- The bucket after `s3_cloudfs_put` offered it `c` under `k`. -/
def putLeaves (env : PutEnv) (b : Bucket) (k : Name) (c : Content) : Bucket :=
  if env.fopen = none then (cloudPutObject env.answer b k c).2 else b

/-- The object is `c` after the upload of `c` exactly when the put was applied or it was `c`
before. -/
theorem putLeaves_eq_some_iff {env : PutEnv} {b : Bucket} {k : Name} :
    putLeaves env b k c k = some c ↔
      (env.fopen = none ∧ env.answer.applied = true) ∨ b k = some c := by
  unfold putLeaves
  split
  case isTrue hf =>
    rw [cloudPutObject_self]
    cases ha : env.answer.applied <;> simp [hf]
  case isFalse hf => simp [hf]

/-- The upload offers the bucket the file the path leads to, cut to the size of the path itself. -/
theorem s3CloudfsPut_follow (env : PutEnv)
    (hl : w.ssd.readlink (w.ssd.follow (getAbsolutePath st p)) = none)
    (hd : w.ssd.dirent (w.ssd.follow (getAbsolutePath st p)) = some i)
    (hn : (w.ssd.inode i).node = .reg c) {stbuf : Stat}
    (hst : w.ssd.lstat (getAbsolutePath st p) = .ok stbuf) :
    (s3CloudfsPut st env p w).1
      = { w with bucket := putLeaves env w.bucket (getKey p) (c.take stbuf.st_size.toNat) } := by
  have ho := openAt_of_follow hl hd ⟨.rdonly, false⟩
  unfold s3CloudfsPut putLeaves
  cases hf : env.fopen with
  | some e => simp
  | none => simp only [disturb_none, ho, hst, contentOf_of_reg hn, if_true]

theorem bucket_makeProxy (env : ReleaseEnv) : (makeProxy st env p w).1.bucket = w.bucket := by
  unfold makeProxy
  dsimp only
  split
  case h_1 => rfl
  case h_2 => split <;> rfl

variable (st w p) in
theorem bucket_flushToCloud (env : ReleaseEnv) (stbuf : Stat) :
    (flushToCloud st env p stbuf w).1.bucket = (s3CloudfsPut st env.put p w).1.bucket := by
  unfold flushToCloud
  dsimp only
  split
  case h_1 => rfl
  case h_2 => split <;> rfl

/-- Nothing but the put changes the bucket in an upload. -/
theorem bucket_flushAndLink (env : ReleaseEnv) (stbuf : Stat) :
    (flushAndLink st env p stbuf w).1.bucket = (s3CloudfsPut st env.put p w).1.bucket := by
  have hb := bucket_flushToCloud st w p env stbuf
  unfold flushAndLink
  revert hb
  generalize flushToCloud st env p stbuf w = r
  obtain ⟨v, e | u⟩ := r
  · exact fun hb => hb
  · exact fun hb => (bucket_makeProxy env).trans hb

/-! ## What becomes of the file -/

/-- `makeProxy` takes the file off its path unless the unlink fails. -/
theorem dirent_makeProxy (env : ReleaseEnv)
    (hd : w.ssd.dirent (getAbsolutePath st p) = some i) :
    (makeProxy st env p w).1.ssd.dirent (getAbsolutePath st p) = some i ↔ env.unlink ≠ none := by
  have hlt := w.ssd.dirent_lt hd
  have hs := symlink_of_none (dirent_remove_self w.ssd (getAbsolutePath st p))
    (getMetadataPath st p)
  cases hu : env.unlink with
  | some e => simp [makeProxy, hu, hd]
  | none =>
    cases hy : env.symlink with
    | some e => simp [makeProxy, hu, hy, unlink_of_some hd]
    | none =>
      simp only [makeProxy, hu, hy, disturb_none, unlink_of_some hd, hs, create_remove,
        dirent_create_self, ne_eq, not_true_eq_false, iff_false, Option.some.injEq]
      exact hlt.ne'

/-- The upload leaves the path alone, and goes through unless the metadata cannot be written. -/
theorem flushToCloud_spec (hp : Outside st p) (hm : w.ssd.readlink (getMetadataPath st p) = none)
    (env : ReleaseEnv) (stbuf : Stat) :
    (flushToCloud st env p stbuf w).1.ssd.dirent (getAbsolutePath st p)
        = w.ssd.dirent (getAbsolutePath st p) ∧
      ((flushToCloud st env p stbuf w).2 = .ok () ↔
        env.openMetadata = none ∧ env.writeMetadata = none) := by
  have hssd : (s3CloudfsPut st env.put p w).1.ssd = w.ssd := by
    unfold s3CloudfsPut
    dsimp only
    split <;> rfl
  have hne := hp.absolute_ne_metadata p
  obtain ⟨fd, fs₁, hc, hw⟩ := creat_pwrite hm stbuf.content 0o644
  have hfs₁ : fs₁.dirent (getAbsolutePath st p) = w.ssd.dirent (getAbsolutePath st p) := by
    obtain ⟨-, c, d, -, -, hst⟩ := pwrite_eq_ok_iff.1 hw
    have := congrArg (fun fs : Fs => fs.dirent (getAbsolutePath st p)) hst
    exact this.symm.trans (dirent_store_of_ne hne 0o644)
  have he : stbuf.content.bytes = stbuf.encode := rfl
  rw [he] at hw
  cases ho : env.openMetadata with
  | some e => simp [flushToCloud, ho, hssd]
  | none =>
    cases hwm : env.writeMetadata with
    | some e => simp [flushToCloud, ho, hwm, hssd, hc, hfs₁]
    | none =>
      simp only [flushToCloud, ho, hwm, hssd, hc, hw, disturb_none, and_self, and_true]
      exact dirent_store_of_ne hne 0o644

/-- An upload takes the file off its path unless the metadata cannot be written or the unlink
fails. -/
theorem dirent_flushAndLink (hp : Outside st p)
    (hm : w.ssd.readlink (getMetadataPath st p) = none)
    (hd : w.ssd.dirent (getAbsolutePath st p) = some i) (env : ReleaseEnv) (stbuf : Stat) :
    (flushAndLink st env p stbuf w).1.ssd.dirent (getAbsolutePath st p) = some i ↔
      ¬ (env.openMetadata = none ∧ env.writeMetadata = none ∧ env.unlink = none) := by
  obtain ⟨h1, h2⟩ := flushToCloud_spec hp hm env stbuf
  unfold flushAndLink
  revert h1 h2
  generalize flushToCloud st env p stbuf w = r
  obtain ⟨v, e | u⟩ := r
  · intro h1 h2
    have hn : ¬ (env.openMetadata = none ∧ env.writeMetadata = none) :=
      fun hk => absurd (h2.2 hk) (by simp)
    refine ⟨fun _ hk => hn ⟨hk.1, hk.2.1⟩, fun _ => h1.trans hd⟩
  · intro h1 h2
    obtain ⟨ho, hw⟩ := h2.1 rfl
    refine (dirent_makeProxy env (h1.trans hd)).trans ?_
    simp [ho, hw]

/-! ## Releasing after a failed put -/

/-- The release of an open file of content `c` uploads it. -/
def Uploads (st : CloudfsState) (f : FuseFile) (c : Content) : Prop :=
  (f.fh.proxy = true → f.fh.dirty = true) ∧ st.threshold < c.size

/-- No SSD call of an uploading release fails before the file was taken off its path. -/
structure ReleaseEnv.Unlinks (env : ReleaseEnv) : Prop where
  lstat : env.lstat = none
  openMetadata : env.openMetadata = none
  writeMetadata : env.writeMetadata = none
  unlink : env.unlink = none

variable (st) in
theorem serve_release_fst (hf : w.files.get h = some f) (env : ReleaseEnv) :
    (serve st w (.release h env)).1.ssd = (releaseFile st env f w).1.ssd ∧
      (serve st w (.release h env)).1.bucket = (releaseFile st env f w).1.bucket := by
  rw [serve, onFile, hf]
  exact ⟨rfl, rfl⟩

/-- A release whose `lstat` fails stops there. -/
theorem releaseFile_of_lstat {env : ReleaseEnv} {e : Errno} (hl : env.lstat = some e)
    (f : FuseFile) (w : World) : releaseFile st env f w = (w, .error e) := by
  simp only [releaseFile, hl, disturb_some]

/-- The release of a clean proxy leaves every object alone. -/
theorem bucket_releaseFile_clean (hx : f.fh.proxy = true) (hd : f.fh.dirty = false)
    (env : ReleaseEnv) : (releaseFile st env f w).1.bucket = w.bucket := by
  unfold releaseFile
  split
  case h_1 => rfl
  case h_2 =>
    simp only [hx, hd, if_true, Bool.false_eq_true, if_false]
    exact bucket_makeProxy env

/-- The release of a handle that is not a proxy uploads what is above the threshold. -/
theorem releaseFile_of_not_proxy (hx : f.fh.proxy = false) {env : ReleaseEnv} {stbuf : Stat}
    (hl : env.lstat = none) (hst : w.ssd.lstat (getAbsolutePath st f.path) = .ok stbuf) :
    releaseFile st env f w = if st.threshold < stbuf.st_size.toNat
      then flushAndLink st env f.path stbuf w else (w, .ok ()) := by
  simp only [releaseFile, hl, disturb_none, hst, hx, Bool.false_eq_true, if_false, gt_iff_lt]

/-- What a release of a file its path leads to does, once `lstat` went through. -/
theorem releaseFile_of_owns (hh : Holds w h f c) (ho : Owns st w f) {env : ReleaseEnv}
    (hl : env.lstat = none) :
    releaseFile st env f w =
      if f.fh.proxy = true ∧ ¬ f.fh.dirty = true then makeProxy st env f.path w
      else if st.threshold < c.size then
        flushAndLink st env f.path (w.ssd.inode f.fh.fd.ino).stat w
      else if f.fh.proxy = true then (keepLocal st env f.path w, .ok ())
      else (w, .ok ()) := by
  have hst := lstat_of_look (look_of_dirent ho)
  simp only [releaseFile, hl, disturb_none, hst, Inode.st_size_reg hh.node, gt_iff_lt, ← not_lt]
  cases f.fh.proxy <;> cases f.fh.dirty <;> by_cases ht : st.threshold < c.size <;> simp [ht]

theorem dirent_keepLocal (hp : Outside st p) (env : ReleaseEnv) :
    (keepLocal st env p w).ssd.dirent (getAbsolutePath st p)
      = w.ssd.dirent (getAbsolutePath st p) := by
  unfold keepLocal
  cases hu : env.unlinkMetadata with
  | some e => rfl
  | none =>
    simp only [s3Delete, disturb_none, unlink_getD]
    exact dirent_remove_of_ne (hp.absolute_ne_metadata p)

/-- A handle on a proxy nothing was written through. -/
def FuseFile.Clean (f : FuseFile) : Prop := f.fh.proxy = true ∧ ¬ f.fh.dirty = true

/-- No SSD call of the release of a clean proxy fails before the file was taken off its path. -/
structure ReleaseEnv.Relinks (env : ReleaseEnv) : Prop where
  lstat : env.lstat = none
  unlink : env.unlink = none

/-- **A release of a file its path leads to leaves the file or its bytes in the bucket exactly when
the upload, if it makes one and then removes the file, reached the bucket, and a clean proxy, if it
is removed, held the object.** -/
theorem release_keeps_iff (hs : Sane st w) (hh : Holds w h f c) (ho : Owns st w f)
    (env : ReleaseEnv) :
    (¬ Owns st (serve st w (.release h env)).1 f →
        (serve st w (.release h env)).1.bucket (getKey f.path) = some c) ↔
      (Uploads st f c → env.Unlinks →
        (env.put.fopen = none ∧ env.put.answer.applied = true) ∨
          w.bucket (getKey f.path) = some c) ∧
      (f.Clean → env.Relinks → w.bucket (getKey f.path) = some c) := by
  obtain ⟨hssd, hbucket⟩ := serve_release_fst st hh.live env
  have hp := (hs.file h f hh.live).1
  have hm := hs.readlink_metadata f.path
  have hnl := readlink_of_reg (look_of_dirent ho) hh.node
  rw [Owns, hssd, hbucket]
  cases hl : env.lstat with
  | some e =>
    rw [releaseFile_of_lstat hl]
    exact iff_of_true (fun hn => absurd ho hn)
      ⟨fun _ hu => absurd hu.lstat (by simp [hl]), fun _ hu => absurd hu.lstat (by simp [hl])⟩
  | none =>
    rw [releaseFile_of_owns hh ho hl]
    split
    case isTrue hc =>
      rw [dirent_makeProxy env ho, bucket_makeProxy, not_not]
      refine ⟨fun hk => ⟨fun hu => absurd (hu.1 hc.1) hc.2, fun _ hu => hk hu.unlink⟩,
        fun hk hu => hk.2 hc ⟨hl, hu⟩⟩
    case isFalse hc =>
      have hnot : f.Clean → env.Relinks → w.bucket (getKey f.path) = some c :=
        fun hcl => absurd hcl hc
      split
      case isTrue ht =>
        have hup : Uploads st f c := ⟨fun hx => by_contra fun hy => hc ⟨hx, hy⟩, ht⟩
        have hput := s3CloudfsPut_follow env.put (by rwa [follow_of_not_link hnl])
          (by rw [follow_of_not_link hnl]; exact ho) hh.node (lstat_of_look (look_of_dirent ho))
        rw [Inode.st_size_reg hh.node, Content.take_size] at hput
        rw [dirent_flushAndLink hp hm ho env, bucket_flushAndLink, hput, not_not,
          putLeaves_eq_some_iff]
        refine ⟨fun hk => ⟨fun _ hu => hk ⟨hu.openMetadata, hu.writeMetadata, hu.unlink⟩, hnot⟩,
          fun hk hu => hk.1 hup ⟨hl, hu.1, hu.2.1, hu.2.2⟩⟩
      case isFalse ht =>
        have hstay : ∀ v : World,
            v.ssd.dirent (getAbsolutePath st f.path) = w.ssd.dirent (getAbsolutePath st f.path) →
            ((¬ v.ssd.dirent (getAbsolutePath st f.path) = some f.fh.fd.ino →
                v.bucket (getKey f.path) = some c) ↔
              (Uploads st f c → env.Unlinks →
                (env.put.fopen = none ∧ env.put.answer.applied = true) ∨
                  w.bucket (getKey f.path) = some c) ∧
              (f.Clean → env.Relinks → w.bucket (getKey f.path) = some c)) := by
          intro v hv
          exact iff_of_true (fun hn => absurd (hv.trans ho) hn) ⟨fun hu => absurd hu.2 ht, hnot⟩
        split
        · exact hstay _ (dirent_keepLocal hp env)
        · exact hstay w rfl

/-- **What a release may remove.**  Whatever failed before, a session on `p` whose open returned a
handle keeps its bytes — in the file `p` leads to or in the object — exactly when the upload its
release makes before it removes that file reached the bucket, and a file it removes without an
upload had not lost bytes of the object when the download closed it. -/
theorem session_keeps_bytes_iff (hw : Reachable st w) (hp : Outside st p) {s : Session}
    (hv : (Machine.run (serve st) w (s.edits p w.files.next)).1 = v)
    (hf : v.files.get w.files.next = some f) :
    (Owns st v f → ¬ Owns st (serve st v (.release w.files.next s.closing)).1 f →
      (serve st v (.release w.files.next s.closing)).1.bucket (getKey p)
        = some (v.ssd.contentOf f.fh.fd.ino)) ↔
    (Owns st v f →
      (Uploads st f (v.ssd.contentOf f.fh.fd.ino) → s.closing.Unlinks →
        (s.closing.put.fopen = none ∧ s.closing.put.answer.applied = true) ∨
          v.bucket (getKey p) = some (v.ssd.contentOf f.fh.fd.ino)) ∧
      (f.Clean → s.closing.Relinks → ∀ o m, w.bucket (getKey p) = some o →
        s.opening.get.flush = some m → o.size ≤ m)) := by
  obtain ⟨i, hfi, hh, hs, hb, -, -⟩ := session_opened hw.sane hp hv hf
  have hc := contentOf_of_reg hh.node
  have hfp : f.path = p := by rw [hfi]; rfl
  have hclean : f.Clean → (v.bucket (getKey f.path) = some (v.ssd.contentOf f.fh.fd.ino) ↔
      ∀ o m, w.bucket (getKey p) = some o → s.opening.get.flush = some m → o.size ≤ m) := by
    rintro ⟨hx, hy⟩
    have hok : (s.opening.get.fetched w.bucket (getKey p)).1 = .ok := by
      rw [hfi] at hx
      exact of_decide_eq_true hx
    obtain ⟨ha, hsome⟩ := GetEnv.fetched_ok_iff.1 hok
    have hwr : s.writes = false := by
      rw [hfi] at hy hx
      simpa [FuseFile.wrote, hok] using hy
    obtain ⟨o, ho⟩ := Option.isSome_iff_exists.1 hsome
    rw [hc, hb, hfp, Session.left_of_not_writes hwr, GetEnv.fetched_eq_take ha ho, ho,
      Option.some.injEq, eq_comm, Content.take_eq_self_iff, GetEnv.le_kept_self_iff]
    exact ⟨fun hk o' m ho' hm => Option.some.inj ho' ▸ hk m hm, fun hk m hm => hk o m rfl hm⟩
  rw [← hc] at hh
  clear hfi
  subst hfp
  refine forall_congr' fun ho => (release_keeps_iff hs hh ho s.closing).trans
    (and_congr_right fun _ => forall_congr' fun hcl => forall_congr' fun _ => hclean hcl)

/-! ### A put that does not reach the service -/

/-- `/a` made on an empty mount of threshold 0. -/
def newFile : World :=
  (serve (.sample 0) (World.init (Fs.empty 0 ⟨0, 0⟩)) (.mknod ['/', 'a'] 0o644 none)).1

theorem reachable_newFile : Reachable (.sample 0) newFile :=
  ⟨0, ⟨0, 0⟩, [.mknod ['/', 'a'] 0o644 none], by decide, rfl⟩

/-- A session that writes one byte and whose put finds no service. -/
def lostSession : Session :=
  ⟨⟨.rdwr, false⟩, OpenEnv.calm, [.write [1] 0 none],
    { ReleaseEnv.calm with put := ⟨none, .failed .failedToConnect false⟩ }⟩

/-- The world that session releases its handle in. -/
def lostBefore : World :=
  (Machine.run (serve (.sample 0)) newFile (lostSession.edits ['/', 'a'] newFile.files.next)).1

/-- The file it has open. -/
def lostFile : FuseFile :=
  ⟨['/', 'a'], ⟨.rdwr, false⟩, ⟨⟨1, ⟨.rdwr, false⟩⟩, false, false⟩⟩

theorem session_keeps_bytes_iff_lost :
    (Owns (.sample 0) lostBefore lostFile →
      ¬ Owns (.sample 0)
        (serve (.sample 0) lostBefore (.release newFile.files.next lostSession.closing)).1
        lostFile →
      (serve (.sample 0) lostBefore (.release newFile.files.next lostSession.closing)).1.bucket
        (getKey ['/', 'a']) = some (lostBefore.ssd.contentOf 1)) ↔
    (Owns (.sample 0) lostBefore lostFile →
      (Uploads (.sample 0) lostFile (lostBefore.ssd.contentOf 1) → lostSession.closing.Unlinks →
        (lostSession.closing.put.fopen = none ∧ lostSession.closing.put.answer.applied = true) ∨
          lostBefore.bucket (getKey ['/', 'a']) = some (lostBefore.ssd.contentOf 1)) ∧
      (lostFile.Clean → lostSession.closing.Relinks → ∀ o m,
        newFile.bucket (getKey ['/', 'a']) = some o → lostSession.opening.get.flush = some m →
        o.size ≤ m)) :=
  session_keeps_bytes_iff (f := lostFile) reachable_newFile (by decide) rfl (by decide)

/-- **The byte of that session is lost**: the release removes the file and the bucket has
nothing. -/
theorem lostSession_loses :
    Owns (.sample 0) lostBefore lostFile ∧
      ¬ Owns (.sample 0)
        (serve (.sample 0) lostBefore (.release newFile.files.next lostSession.closing)).1
        lostFile ∧
      lostBefore.ssd.contentOf lostFile.fh.fd.ino = ⟨[1], by decide⟩ ∧
      (serve (.sample 0) lostBefore (.release newFile.files.next lostSession.closing)).1.bucket
        (getKey ['/', 'a']) = none := by
  decide

/-! ## Releasing after a failed get -/

/-- The release with other answers of the service. -/
def ReleaseEnv.answered (env : ReleaseEnv) (put : PutAnswer) (delete : DeleteAnswer) :
    ReleaseEnv :=
  { env with
    put := ⟨env.put.fopen, put⟩
    delete := delete }

/-- The size `cloudfs_release` finds at `p` after an open that downloaded `n` bytes: that of the
download, or that of the link if the open failed to remove one. -/
def seenSize (st : CloudfsState) (fault : Fault) (p : Name) (w : World) (n : ℕ) : ℕ :=
  if fault = none ∨ w.ssd.readlink (getAbsolutePath st p) = none then n
  else (UInt64.ofNat (getMetadataPath st p).length).toNat

/-- The size `lstat` reports of the path before the release. -/
theorem lstat_seenSize (hs : Sane st w) (hp : Outside st p) {fault : Fault}
    (hd : v.ssd.dirent (v.ssd.follow (getAbsolutePath st p)) = some i)
    (hn : (v.ssd.inode i).node = .reg c)
    (hfol : v.ssd.follow (getAbsolutePath st p)
      = if fault = none then getAbsolutePath st p
        else w.ssd.follow (getAbsolutePath st p)) :
    ∃ stbuf, v.ssd.lstat (getAbsolutePath st p) = .ok stbuf ∧
      stbuf.st_size.toNat = seenSize st fault p w c.size := by
  by_cases hb : fault = none ∨ w.ssd.readlink (getAbsolutePath st p) = none
  · have hself : v.ssd.follow (getAbsolutePath st p) = getAbsolutePath st p := by
      rw [hfol]
      split
      · rfl
      · exact follow_of_not_link (hb.resolve_left ‹_›)
    rw [hself] at hd
    refine ⟨_, lstat_of_look (look_of_dirent hd), ?_⟩
    rw [Inode.st_size_reg hn, seenSize, if_pos hb]
  · obtain ⟨hf, hl⟩ := not_or.1 hb
    obtain ⟨t, ht⟩ := Option.ne_none_iff_exists'.1 hl
    rw [if_neg hf, follow_of_link ht, hs.readlink_absolute ht] at hfol
    cases hv : v.ssd.readlink (getAbsolutePath st p) with
    | none =>
      rw [follow_of_not_link hv] at hfol
      exact absurd hfol (hp.absolute_ne_metadata p)
    | some u =>
      rw [follow_of_link hv] at hfol
      obtain ⟨n, hn, hnu⟩ := readlink_eq_some_iff.1 hv
      refine ⟨_, lstat_of_look hn, ?_⟩
      rw [seenSize, if_neg hb, Inode.stat, Inode.size, hnu, hfol]

/-- Whether an uploading release leaves the object `o` alone, whatever the service answers. -/
theorem flush_keeps_object_iff {env : ReleaseEnv}
    (hl : w.ssd.readlink (w.ssd.follow (getAbsolutePath st p)) = none)
    (hd : w.ssd.dirent (w.ssd.follow (getAbsolutePath st p)) = some i)
    (hn : (w.ssd.inode i).node = .reg c) {stbuf : Stat}
    (hst : w.ssd.lstat (getAbsolutePath st p) = .ok stbuf)
    (ho : w.bucket (getKey p) = some o) :
    (∀ put delete, (flushAndLink st (env.answered put delete) p stbuf w).1.bucket (getKey p)
        = some o) ↔
      (env.put.fopen = none → c.take stbuf.st_size.toNat = o) := by
  have hput : ∀ put delete, (flushAndLink st (env.answered put delete) p stbuf w).1.bucket
      (getKey p) = putLeaves ⟨env.put.fopen, put⟩ w.bucket (getKey p) (c.take stbuf.st_size.toNat)
          (getKey p) := by
    intro put delete
    rw [bucket_flushAndLink, s3CloudfsPut_follow _ hl hd hn hst]
    rfl
  constructor
  · intro h hf
    have := (hput .served .served).symm.trans (h .served .served)
    rw [putLeaves, if_pos hf, cloudPutObject_self] at this
    exact Option.some.inj this
  · intro h put delete
    rw [hput, putLeaves]
    split
    case isTrue hf =>
      rw [cloudPutObject_self, h hf, ho, ite_self]
    case isFalse => exact ho

/-- **What a session that only reads may do to the object.**  Whatever failed before, and whatever
the service answers to the release, the object stays as it was exactly when the get was served, or
the release stops before its upload, or what it would upload is not above the threshold or is the
whole object. -/
theorem read_session_keeps_object_iff (hw : Reachable st w) (hp : Outside st p)
    (ho : w.bucket (getKey p) = some o) {s : Session} (hr : s.writes = false)
    (hv : (Machine.run (serve st) w (s.edits p w.files.next)).1 = v)
    (hf : v.files.get w.files.next = some f) :
    (∀ put delete, (serve st v (.release w.files.next (s.closing.answered put delete))).1.bucket
      (getKey p) = some o) ↔
    (∀ e n k, s.opening.get.answer = .failed e n → k = s.opening.get.kept (min n o.size) →
      s.closing.lstat = none → s.closing.put.fopen = none →
      st.threshold < seenSize st s.opening.unlink p w k →
      o.size ≤ min k (seenSize st s.opening.unlink p w k)) := by
  obtain ⟨i, hfi, hh, hs, hb, hd, hfol⟩ := session_opened hw.sane hp hv hf
  have hbo : v.bucket (getKey p) = some o := by rw [hb, ho]
  have hfp : f.path = p := by rw [hfi]; rfl
  have hino : f.fh.fd.ino = i := by rw [hfi]; rfl
  have hdirty : f.fh.dirty = false := by simp [hfi, FuseFile.wrote, hr]
  rw [Session.left_of_not_writes hr] at hh
  have hn := hh.node
  rw [hino] at hn
  simp only [(serve_release_fst st hh.live _).2]
  cases ha : s.opening.get.answer with
  | served =>
    have hproxy : f.fh.proxy = true := by
      simp [hfi, FuseFile.wrote, GetEnv.fetched_ok_iff, ha, ho]
    refine iff_of_true (fun put delete => ?_) fun e n k he => absurd he (by simp)
    rw [bucket_releaseFile_clean hproxy hdirty]
    exact hbo
  | failed e n =>
    have hproxy : f.fh.proxy = false := by
      simp [hfi, FuseFile.wrote, GetEnv.fetched_ok_iff, ha]
    obtain ⟨k, hk⟩ : ∃ k, k = s.opening.get.kept (min n o.size) := ⟨_, rfl⟩
    have hko : min k o.size = k :=
      Nat.min_eq_left (hk ▸ (s.opening.get.kept_le _).trans (Nat.min_le_right ..))
    rw [GetEnv.fetched_failed ha ho, ← hk] at hn
    obtain ⟨stbuf, hst, hsize⟩ := lstat_seenSize hw.sane hp hd hn hfol
    rw [Content.size_take, hko] at hsize
    have hforall : (∀ e' n' k', GetAnswer.failed e n = .failed e' n' →
        k' = s.opening.get.kept (min n' o.size) → s.closing.lstat = none →
        s.closing.put.fopen = none → st.threshold < seenSize st s.opening.unlink p w k' →
        o.size ≤ min k' (seenSize st s.opening.unlink p w k')) ↔
        (s.closing.lstat = none → s.closing.put.fopen = none →
          st.threshold < stbuf.st_size.toNat → o.size ≤ min k stbuf.st_size.toNat) := by
      rw [hsize]
      refine ⟨fun h => h e n k rfl hk, fun h e' n' k' he hk' => ?_⟩
      obtain ⟨rfl, rfl⟩ := GetAnswer.failed.inj he
      obtain rfl := hk'.trans hk.symm
      exact h
    rw [hforall]
    by_cases hl : s.closing.lstat = none
    · have hrel : ∀ put delete, releaseFile st (s.closing.answered put delete) f v
          = if st.threshold < stbuf.st_size.toNat then
              flushAndLink st (s.closing.answered put delete) p stbuf v
            else (v, .ok ()) := by
        intro put delete
        subst hfp
        exact releaseFile_of_not_proxy hproxy hl hst
      by_cases ht : st.threshold < stbuf.st_size.toNat
      · simp only [hrel, if_pos ht]
        rw [flush_keeps_object_iff (hs.readlink_follow p) hd hn hst hbo, Content.take_take,
          Content.take_eq_self_iff]
        exact ⟨fun h _ hf _ => h hf, fun h hf => h hl hf ht⟩
      · simp only [hrel, if_neg ht]
        exact iff_of_true (fun _ _ => hbo) fun _ _ h => absurd h ht
    · refine iff_of_true (fun put delete => ?_) fun h => absurd h hl
      obtain ⟨e', he⟩ := Option.ne_none_iff_exists'.1 hl
      have hla : (s.closing.answered put delete).lstat = some e' := he
      rw [releaseFile_of_lstat hla]
      exact hbo

/-! ### A get that breaks off -/

/-- `/a` uploaded with the two bytes 1 and 2. -/
def twoByteObject : World :=
  (Machine.run (serve (.sample 0)) newFile [.openFile ['/', 'a'] ⟨.rdwr, false⟩ OpenEnv.calm,
    .write 0 [1, 2] 0 none, .release 0 ReleaseEnv.calm]).1

theorem reachable_twoByteObject : Reachable (.sample 0) twoByteObject :=
  ⟨0, ⟨0, 0⟩, [.mknod ['/', 'a'] 0o644 none, .openFile ['/', 'a'] ⟨.rdwr, false⟩ OpenEnv.calm,
    .write 0 [1, 2] 0 none, .release 0 ReleaseEnv.calm], by decide, rfl⟩

/-- A session that reads, and whose get breaks off after the first byte. -/
def brokenSession : Session :=
  ⟨⟨.rdonly, false⟩, { OpenEnv.calm with get := ⟨none, .failed .connectionFailed 1, none⟩ },
    [.read 4096 0 none], ReleaseEnv.calm⟩

/-- The world that session releases its handle in. -/
def brokenBefore : World :=
  (Machine.run (serve (.sample 0)) twoByteObject
    (brokenSession.edits ['/', 'a'] twoByteObject.files.next)).1

theorem read_session_keeps_object_iff_broken :
    (∀ put delete, (serve (.sample 0) brokenBefore (.release twoByteObject.files.next
        (brokenSession.closing.answered put delete))).1.bucket (getKey ['/', 'a'])
          = some ⟨[1, 2], by decide⟩) ↔
    (∀ e n k, brokenSession.opening.get.answer = .failed e n →
      k = brokenSession.opening.get.kept (min n 2) → brokenSession.closing.lstat = none →
      brokenSession.closing.put.fopen = none →
      (CloudfsState.sample 0).threshold < seenSize (.sample 0) brokenSession.opening.unlink
        ['/', 'a'] twoByteObject k →
      2 ≤ min k (seenSize (.sample 0) brokenSession.opening.unlink ['/', 'a'] twoByteObject k)) :=
  read_session_keeps_object_iff
    (f := ⟨['/', 'a'], ⟨.rdonly, false⟩, ⟨⟨4, ⟨.rdonly, false⟩⟩, false, false⟩⟩)
    reachable_twoByteObject (by decide) (by decide) (by decide) rfl (by decide)

/-- **That session replaces the object by its first byte.** -/
theorem brokenSession_truncates :
    twoByteObject.bucket (getKey ['/', 'a']) = some ⟨[1, 2], by decide⟩ ∧
      brokenSession.writes = false ∧
      (Machine.run (serve (.sample 0)) twoByteObject
        (brokenSession.reqs ['/', 'a'] twoByteObject.files.next)).1.bucket (getKey ['/', 'a'])
          = some ⟨[1], by decide⟩ := by
  decide

end CloudFS
