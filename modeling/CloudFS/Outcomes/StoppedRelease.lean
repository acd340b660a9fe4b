import CloudFS.Outcomes.Kept
import CloudFS.Session.Transfer

/-!
# Outcomes/StoppedRelease — a release that stops after its upload

After the upload `cloudfs_release` opens and writes the metadata file, removes the path and makes
it a link.  It stops where one of these fails, or the process dies.  The path keeps its content at
every stop but one: between the removal and the link it has no entry (`stopped_release_iff`).
-/

namespace CloudFS

open Posix Posix.Fs

/-! ## Stops -/

/-- A release whose calls fail as `env` says, or whose process dies at the first that would fail,
at the end if none would; the mount is then started again. -/
def stopped (st : CloudfsState) (dies : Bool) (env : ReleaseEnv) (h : Handle) (f : FuseFile)
    (w : World) : World :=
  if dies then (releaseFile st env f w).1.remount else (cloudfsRelease st env h f w).1

/-- The release stops between the removal of the path and the link. -/
def ReleaseEnv.StopsUnlinked (env : ReleaseEnv) : Prop :=
  env.openMetadata = none ∧ env.writeMetadata = none ∧ env.unlink = none ∧ env.symlink ≠ none

/-- The release gets as far as its upload, and the upload succeeds. -/
structure UploadDone (st : CloudfsState) (w : World) (f : FuseFile) (env : ReleaseEnv)
    (stbuf : Stat) : Prop where
  lstat : env.lstat = none
  seen : w.ssd.lstat (getAbsolutePath st f.path) = .ok stbuf
  dirty : f.fh.proxy = true → f.fh.dirty = true
  above : st.threshold < stbuf.st_size.toNat
  fopen : env.put.fopen = none
  applied : env.put.answer.applied = true

/-- What is reported of a path that stayed a link through which a session left `c` in its metadata
file, the size of the link being `n`. -/
def LinkReports (env : ReleaseEnv) (c : Content) (n : ℕ) : Prop :=
  if env.openMetadata ≠ none then (Stat.decode c.bytes).st_size.toNat = c.size ∧ c.size ≤ n
  else if env.writeMetadata ≠ none then c.size = 0
  else c.size = n

variable {st : CloudfsState} {w v : World} {p : Name} {h : Handle} {f : FuseFile} {c : Content}
  {i : Ino} {env : ReleaseEnv} {stbuf : Stat} {dies : Bool}

instance : Decidable env.StopsUnlinked := inferInstanceAs (Decidable (_ ∧ _ ∧ _ ∧ _))

theorem ssd_stopped (dies : Bool) (env : ReleaseEnv) (h : Handle) (f : FuseFile) (w : World) :
    (stopped st dies env h f w).ssd = (releaseFile st env f w).1.ssd := by
  cases dies <;> rfl

theorem bucket_stopped (dies : Bool) (env : ReleaseEnv) (h : Handle) (f : FuseFile) (w : World) :
    (stopped st dies env h f w).bucket = (releaseFile st env f w).1.bucket := by
  cases dies <;> rfl

/-- A stopped release leaves a sane state. -/
theorem sane_stopped (hs : Sane st w) (hf : w.files.get h = some f) (dies : Bool)
    (env : ReleaseEnv) : Sane st (stopped st dies env h f w) := by
  have hsane : Sane st (serve st w (.release h env)).1 := by
    refine sane_serve hs fun q hq => ?_
    have ht : (w.files.get h).map FuseFile.path = some q := hq
    rw [hf] at ht
    exact Option.some.inj ht ▸ (hs.file h f hf).1
  rw [serve, onFile, hf] at hsane
  cases dies with
  | false => exact hsane
  | true => exact ⟨hsane.link, fun k g hk => absurd hk (by simp [stopped, World.remount])⟩

/-! ## The SSD at a stop -/

/-- The SSD where an upload stops. -/
def uploadLeaves (env : ReleaseEnv) (absolute metadata : Name) (stbuf : Stat) (fs : Fs) : Fs :=
  let written := fs.store metadata stbuf.content 0o644
  if env.openMetadata ≠ none then fs
  else if env.writeMetadata ≠ none then fs.store metadata Content.empty 0o644
  else if env.unlink ≠ none then written
  else if env.symlink ≠ none then written.remove absolute
  else written.create absolute (written.fresh (.lnk metadata) 0o777)

/-- **Where an upload stops.** -/
theorem ssd_flushAndLink (hne : getAbsolutePath st p ≠ getMetadataPath st p)
    (hm : w.ssd.readlink (getMetadataPath st p) = none)
    (hd : w.ssd.dirent (getAbsolutePath st p) = some i) (env : ReleaseEnv) (stbuf : Stat) :
    (flushAndLink st env p stbuf w).1.ssd
      = uploadLeaves env (getAbsolutePath st p) (getMetadataPath st p) stbuf w.ssd := by
  have hput : (s3CloudfsPut st env.put p w).1.ssd = w.ssd := by
    unfold s3CloudfsPut
    dsimp only
    split <;> rfl
  obtain ⟨fd, hc⟩ := creat_eq_store hm 0o644
  obtain ⟨fd', fs₁, hc', hw⟩ := creat_pwrite hm stbuf.content 0o644
  obtain ⟨rfl, rfl⟩ := Prod.mk.inj (Except.ok.inj (hc'.symm.trans hc))
  have he : stbuf.content.bytes = stbuf.encode := rfl
  rw [he] at hw
  have hd' : (w.ssd.store (getMetadataPath st p) stbuf.content 0o644).dirent
      (getAbsolutePath st p) = some i := (dirent_store_of_ne hne 0o644).trans hd
  have hs := symlink_of_none (dirent_remove_self
    (w.ssd.store (getMetadataPath st p) stbuf.content 0o644) (getAbsolutePath st p))
    (getMetadataPath st p)
  unfold uploadLeaves
  cases ho : env.openMetadata with
  | some e => simp [flushAndLink, flushToCloud, ho, hput]
  | none =>
    cases hwm : env.writeMetadata with
    | some e => simp [flushAndLink, flushToCloud, ho, hwm, hput, hc]
    | none =>
      cases hu : env.unlink with
      | some e => simp [flushAndLink, flushToCloud, makeProxy, ho, hwm, hu, hput, hc, hw]
      | none =>
        cases hy : env.symlink with
        | some e =>
          simp [flushAndLink, flushToCloud, makeProxy, ho, hwm, hu, hy, hput, hc, hw,
            unlink_of_some hd']
        | none =>
          simp [flushAndLink, flushToCloud, makeProxy, ho, hwm, hu, hy, hput, hc, hw,
            unlink_of_some hd', hs]
          rfl

/-- The metadata file where an upload stops. -/
theorem look_metadata_uploadLeaves {a m : Name} (hne : a ≠ m) (env : ReleaseEnv) (stbuf : Stat)
    (fs : Fs) (ho : env.openMetadata = none) : ∃ n, (uploadLeaves env a m stbuf fs).look m = some n ∧
      n.node = .reg (if env.writeMetadata = none then stbuf.content else Content.empty) := by
  unfold uploadLeaves
  rw [if_neg (not_not.2 ho)]
  by_cases hw : env.writeMetadata = none
  · have hself := look_store_self fs m stbuf.content 0o644
    rw [if_neg (not_not.2 hw), if_pos hw]
    split
    · exact hself
    · split
      · rwa [look_remove_of_ne hne.symm]
      · rwa [look_create_of_ne hne.symm]
  · rw [if_pos hw, if_neg hw]
    exact look_store_self fs m Content.empty 0o644

/-- The path where an upload stops: what it was, nothing, or the link. -/
theorem look_absolute_uploadLeaves {a m : Name} (hne : a ≠ m) (env : ReleaseEnv) (stbuf : Stat)
    (fs : Fs) :
    env.StopsUnlinked ∧ (uploadLeaves env a m stbuf fs).look a = none ∨
      ¬ env.StopsUnlinked ∧ (uploadLeaves env a m stbuf fs).look a = fs.look a ∨
      ¬ env.StopsUnlinked ∧ (env.openMetadata = none ∧ env.writeMetadata = none) ∧
        ∃ n, (uploadLeaves env a m stbuf fs).look a = some n ∧ n.node = .lnk m := by
  have hstore : ∀ c mode, (fs.store m c mode).look a = fs.look a :=
    fun c mode => look_store_of_ne hne mode
  unfold ReleaseEnv.StopsUnlinked uploadLeaves
  by_cases ho : env.openMetadata = none
  · by_cases hw : env.writeMetadata = none
    · by_cases hu : env.unlink = none
      · by_cases hy : env.symlink = none
        · refine Or.inr (Or.inr ⟨by simp [hy], ⟨ho, hw⟩, ?_⟩)
          simp only [ho, hw, hu, hy, ne_eq, not_true_eq_false, if_false]
          exact ⟨_, look_create_self .., rfl⟩
        · refine Or.inl ⟨⟨ho, hw, hu, hy⟩, ?_⟩
          simp [ho, hw, hu, hy]
      · exact Or.inr (Or.inl ⟨by simp [hu], by simp [ho, hw, hu, hstore]⟩)
    · exact Or.inr (Or.inl ⟨by simp [hw], by simp [ho, hw, hstore]⟩)
  · exact Or.inr (Or.inl ⟨by simp [ho], by simp [ho]⟩)

/-! ## What is reported at a stop -/

/-- **Where the path leads to the session's file**, its length is reported at every stop at which
the path has an entry. -/
theorem reports_uploadLeaves_file {fs : Fs} {a m : Name} (hne : a ≠ m) {n : Inode}
    (hl : fs.look a = some n) (hn : n.node = .reg c) (env : ReleaseEnv) :
    Reports ((uploadLeaves env a m n.stat fs).look a) ((uploadLeaves env a m n.stat fs).look m) c ↔
      ¬ env.StopsUnlinked := by
  rcases look_absolute_uploadLeaves hne env n.stat fs with ⟨hs, ha⟩ | ⟨hs, ha⟩ | ⟨hs, ho, k, ha, hk⟩
  · rw [ha]
    exact iff_of_false (not_reports_none _) (not_not.2 hs)
  · rw [ha, hl]
    exact iff_of_true ((reports_reg hn _).2 rfl) hs
  · obtain ⟨k', hm, hk'⟩ := look_metadata_uploadLeaves hne env n.stat fs ho.1
    rw [if_pos ho.2] at hk'
    have hdec : (Stat.decode n.stat.content.bytes).st_size.toNat = c.size :=
      (congrArg (fun s : Stat => s.st_size.toNat) (Stat.decode_encode n.stat)).trans
        (Inode.st_size_reg hn)
    rw [ha, hm]
    exact iff_of_true ((reports_lnk hk hk').2 hdec) hs

/-- **Where the path stayed a link**, the session's file being the metadata file. -/
theorem reports_uploadLeaves_link {fs : Fs} {a m : Name} (hne : a ≠ m) {n k : Inode}
    (hl : fs.look a = some n) (hn : n.node = .lnk m) (hm : fs.look m = some k)
    (hk : k.node = .reg c) (env : ReleaseEnv) :
    Reports ((uploadLeaves env a m n.stat fs).look a) ((uploadLeaves env a m n.stat fs).look m) c ∧
        c.size ≤ n.stat.st_size.toNat ↔
      ¬ env.StopsUnlinked ∧ LinkReports env c n.stat.st_size.toNat := by
  have hlink : env.StopsUnlinked ∧ (uploadLeaves env a m n.stat fs).look a = none ∨
      ¬ env.StopsUnlinked ∧ ∃ n', (uploadLeaves env a m n.stat fs).look a = some n' ∧
        n'.node = .lnk m := by
    rcases look_absolute_uploadLeaves hne env n.stat fs with hs | ⟨hs, ha⟩ | ⟨hs, -, h⟩
    · exact Or.inl hs
    · exact Or.inr ⟨hs, n, ha.trans hl, hn⟩
    · exact Or.inr ⟨hs, h⟩
  rcases hlink with ⟨hs, ha⟩ | ⟨hs, n', ha, hn'⟩
  · rw [ha]
    exact iff_of_false (fun h => not_reports_none _ h.1) fun h => h.1 hs
  · rw [ha, LinkReports]
    by_cases ho : env.openMetadata = none
    · obtain ⟨k', hm', hk'⟩ := look_metadata_uploadLeaves hne env n.stat fs ho
      rw [hm', reports_lnk hn' hk', if_neg (not_not.2 ho)]
      by_cases hw : env.writeMetadata = none
      · have hdec : Stat.decode n.stat.content.bytes = n.stat := Stat.decode_encode n.stat
        rw [if_pos hw, if_neg (not_not.2 hw), hdec]
        exact ⟨fun h => ⟨hs, h.1.symm⟩, fun h => ⟨h.2.symm, h.2.le⟩⟩
      · have hdec : (Stat.decode Content.empty.bytes).st_size.toNat = 0 := by decide
        rw [if_neg hw, if_pos hw, hdec]
        exact ⟨fun h => ⟨hs, h.1.symm⟩, fun h => ⟨h.2.symm, h.2.le.trans (Nat.zero_le _)⟩⟩
    · have hm' : (uploadLeaves env a m n.stat fs).look m = some k := by
        rw [uploadLeaves, if_pos ho, hm]
      rw [hm', reports_lnk hn' hk, if_pos ho]
      exact ⟨fun h => ⟨hs, h⟩, fun h => h.2⟩

/-! ## Sessions -/

/-- A release that gets as far as its upload is that upload and what comes after it. -/
theorem UploadDone.releaseFile (hu : UploadDone st w f env stbuf) :
    CloudFS.releaseFile st env f w = flushAndLink st env f.path stbuf w := by
  have ht := hu.above
  simp only [CloudFS.releaseFile, hu.lstat, disturb_none, hu.seen, gt_iff_lt]
  by_cases hx : f.fh.proxy = true
  · simp [hx, hu.dirty hx, not_le.2 ht]
  · simp [hx, ht]

/-- **A release that stops early keeps the file exactly when it does not stop between the removal of
the path and the link.**  That is for a path that leads to the session's file.  Where the open did
not get the link of a proxy removed, and the session wrote to the metadata file through it, the
content must also be what is read from that file then. -/
theorem stopped_release_iff (hw : Reachable st w) (hp : Outside st p) {s : Session}
    (hv : (Machine.run (serve st) w (s.edits p w.files.next)).1 = v)
    (hf : v.files.get w.files.next = some f) (hu : UploadDone st v f s.closing stbuf)
    (dies : Bool) :
    let c := s.left (s.opening.get.fetched w.bucket (getKey p)).2
    Kept st (stopped st dies s.closing w.files.next f v) p c ↔
      ¬ s.closing.StopsUnlinked ∧
        (v.ssd.readlink (getAbsolutePath st p) = none ∨
          LinkReports s.closing c stbuf.st_size.toNat) := by
  intro c
  obtain ⟨i, hfi, hh, hs, hb, hd, -⟩ := session_opened hw.sane hp hv hf
  have hfp : f.path = p := by rw [hfi]; rfl
  have hino : f.fh.fd.ino = i := by rw [hfi]; rfl
  have hn : (v.ssd.inode i).node = .reg c := hino ▸ hh.node
  subst hfp
  have hne := hp.absolute_ne_metadata f.path
  have hm := hs.readlink_metadata f.path
  obtain ⟨n, hl, hnst⟩ : ∃ n, v.ssd.look (getAbsolutePath st f.path) = some n ∧ n.stat = stbuf := by
    have hseen := hu.seen
    cases hl : v.ssd.look (getAbsolutePath st f.path) with
    | none => rw [lstat, hl] at hseen; exact absurd hseen (by simp)
    | some n =>
      rw [lstat_of_look hl] at hseen
      exact ⟨n, rfl, Except.ok.inj hseen⟩
  subst hnst
  obtain ⟨j, hj, -⟩ := look_eq_some_iff.1 hl
  have hbucket : (stopped st dies s.closing w.files.next f v).bucket (getKey f.path)
      = some (c.take n.stat.st_size.toNat) := by
    rw [bucket_stopped, hu.releaseFile, bucket_flushAndLink,
      s3CloudfsPut_follow _ (hs.readlink_follow f.path) hd hn hu.seen]
    dsimp only
    rw [putLeaves, if_pos hu.fopen, cloudPutObject_self, if_pos hu.applied]
  have hstored : stored (stopped st dies s.closing w.files.next f v) f.path = c ↔
      c.size ≤ n.stat.st_size.toNat := by
    rw [stored, hbucket, Option.getD_some, Content.take_eq_self_iff]
  have hsane := sane_stopped hs hh.live dies s.closing
  rw [kept_iff (fun _ => hsane.readlink_absolute) (hsane.readlink_metadata f.path), hstored,
    ssd_stopped, hu.releaseFile, ssd_flushAndLink hne hm hj]
  by_cases hr : v.ssd.readlink (getAbsolutePath st f.path) = none
  · rw [follow_of_not_link hr] at hd
    have hni : n = v.ssd.inode i := Option.some.inj (hl.symm.trans (look_of_dirent hd))
    have hnc : n.node = .reg c := hni ▸ hn
    rw [reports_uploadLeaves_file hne hl hnc, Inode.st_size_reg hnc]
    simp [hr]
  · obtain ⟨t, ht⟩ := Option.ne_none_iff_exists'.1 hr
    obtain rfl := hs.readlink_absolute ht
    rw [follow_of_link ht] at hd
    obtain ⟨n', hl', hnt⟩ := readlink_eq_some_iff.1 ht
    obtain rfl := Option.some.inj (hl.symm.trans hl')
    rw [reports_uploadLeaves_link hne hl hnt (look_of_dirent hd) hn]
    simp [hr]

/-- A session that writes one byte, and whose release cannot make the link. -/
def unlinkedSession : Session :=
  { oneByteSession with closing := { ReleaseEnv.calm with symlink := some .ENOSPC } }

/-- The world that session releases its handle in. -/
def unlinkedBefore : World :=
  (Machine.run (serve (.sample 0)) newFile (unlinkedSession.edits ['/', 'a'] newFile.files.next)).1

/-- The file that session has open then. -/
def unlinkedFile : FuseFile := ⟨['/', 'a'], ⟨.rdwr, false⟩, ⟨⟨1, ⟨.rdwr, false⟩⟩, false, false⟩⟩

theorem stopped_release_iff_unlinked :
    Kept (.sample 0) (stopped (.sample 0) true unlinkedSession.closing newFile.files.next
        unlinkedFile unlinkedBefore) ['/', 'a'] ⟨[1], by decide⟩ ↔
      ¬ unlinkedSession.closing.StopsUnlinked ∧
        (unlinkedBefore.ssd.readlink (getAbsolutePath (.sample 0) ['/', 'a']) = none ∨
          LinkReports unlinkedSession.closing ⟨[1], by decide⟩
            (unlinkedBefore.ssd.inode 1).stat.st_size.toNat) :=
  stopped_release_iff (f := unlinkedFile) reachable_newFile (by decide) rfl (by decide)
    ⟨rfl, by decide, by decide, by decide, rfl, rfl⟩ true

/-- **The path of that session is gone**, its byte in the bucket, whether the release returns or the
process dies. -/
theorem unlinkedSession_loses_entry :
    UploadDone (.sample 0) unlinkedBefore unlinkedFile unlinkedSession.closing
        (unlinkedBefore.ssd.inode 1).stat ∧
      ∀ dies, (stopped (.sample 0) dies unlinkedSession.closing newFile.files.next unlinkedFile
          unlinkedBefore).bucket (getKey ['/', 'a']) = some ⟨[1], by decide⟩ ∧
        ¬ Kept (.sample 0) (stopped (.sample 0) dies unlinkedSession.closing newFile.files.next
          unlinkedFile unlinkedBefore) ['/', 'a'] ⟨[1], by decide⟩ := by
  refine ⟨⟨rfl, by decide, by decide, by decide, rfl, rfl⟩, fun dies => ⟨?_, fun hk => ?_⟩⟩
  · cases dies <;> decide
  · have he := hk.entry
    revert he
    cases dies <;> decide

end CloudFS
