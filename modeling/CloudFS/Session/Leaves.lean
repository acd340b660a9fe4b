import CloudFS.Clients.Handles
import CloudFS.Session.Transfer

/-!
# Session/Leaves — what a release leaves of its file

An undisturbed release of a handle whose path still leads to its file ends in one of three ways: a
clean proxy is linked back (`release_clean`), a file above the threshold is uploaded
(`release_uploads`), and any other file stays on the SSD (`release_local`).  So does a session with
a reliable bucket (`session_reads`, `session_uploads`, `session_stays`).  Each is said at the path,
at its metadata file and in the bucket; the path need only be apart from its metadata file, which
it stays (`apart_release`).
-/

namespace CloudFS

open Posix Posix.Fs

variable {st : CloudfsState} {w : World} {h : Handle} {f : FuseFile} {c : Content}
  {env : ReleaseEnv}

/-- A path with a slash is apart from its metadata file. -/
theorem Reachable.apart (hw : Reachable st w) {p : Name} (hp : '/' ∈ p) : Apart st w p :=
  ⟨absolute_ne_metadata_of_slash hp, hw.sane.readlink_metadata p⟩

/-- **A clean proxy is linked back**, with its metadata and its object as they were. -/
theorem release_clean (ha : Apart st w f.path) (hh : Holds w h f c) (ho : Owns st w f)
    (henv : env.SsdOk) (hx : f.fh.proxy = true) (hd : f.fh.dirty = false) :
    let w' := (serve st w (.release h env)).1
    entry st w' f.path = some (.lnk (getMetadataPath st f.path)) ∧
      w'.ssd.look (getMetadataPath st f.path) = w.ssd.look (getMetadataPath st f.path) ∧
      w'.bucket = w.bucket := by
  have hr : afterReleaseFile st env f c (w.ssd.inode f.fh.fd.ino).stat w = w.linked st f.path :=
    if_pos ⟨hx, by simp [hd]⟩
  rw [ha.serve_release hh ho henv, hr]
  exact ⟨congrArg (Option.map Inode.node) (look_create_self ..), look_create_of_ne ha.ne.symm, rfl⟩

/-- **A file above the threshold becomes a proxy**, its object what was offered to the bucket and
its metadata what `lstat` said of the file. -/
theorem release_uploads (ha : Apart st w f.path) (hh : Holds w h f c) (ho : Owns st w f)
    (henv : env.SsdOk) (hu : Uploads st f c) :
    let w' := (serve st w (.release h env)).1
    entry st w' f.path = some (.lnk (getMetadataPath st f.path)) ∧
      (∃ n, w'.ssd.look (getMetadataPath st f.path) = some n ∧
        n.node = .reg (w.ssd.inode f.fh.fd.ino).stat.content) ∧
      w'.bucket = (cloudPutObject env.put.answer w.bucket (getKey f.path) c).2 := by
  have hr : afterReleaseFile st env f c (w.ssd.inode f.fh.fd.ino).stat w
      = (w.uploaded st env.put.answer f.path c
          (w.ssd.inode f.fh.fd.ino).stat).linked st f.path := by
    rw [afterReleaseFile, if_neg fun hc => hc.2 (hu.1 hc.1), if_pos hu.2]
  obtain ⟨n, hn, hnc⟩ := look_store_self w.ssd (getMetadataPath st f.path)
    (w.ssd.inode f.fh.fd.ino).stat.content 0o644
  rw [ha.serve_release hh ho henv, hr]
  exact ⟨congrArg (Option.map Inode.node) (look_create_self ..),
    ⟨n, (look_create_of_ne ha.ne.symm).trans hn, hnc⟩, rfl⟩

/-- **Any other file stays**; that of a dirty proxy is forgotten by the bucket. -/
theorem release_local (ha : Apart st w f.path) (hh : Holds w h f c) (ho : Owns st w f)
    (henv : env.SsdOk) (hx : f.fh.proxy = true → f.fh.dirty = true) (hu : ¬ Uploads st f c) :
    let w' := (serve st w (.release h env)).1
    w'.ssd.look (getAbsolutePath st f.path) = some (w.ssd.inode f.fh.fd.ino) ∧
      w'.bucket = if f.fh.proxy = true
        then (cloudDeleteObject env.delete w.bucket (getKey f.path)).2 else w.bucket := by
  have ht : ¬ st.threshold < c.size := fun ht => hu ⟨hx, ht⟩
  have hr : afterReleaseFile st env f c (w.ssd.inode f.fh.fd.ino).stat w
      = if f.fh.proxy = true then w.forgotten st env.delete f.path else w := by
    rw [afterReleaseFile, if_neg fun hc => hc.2 (hx hc.1), if_neg ht]
  rw [ha.serve_release hh ho henv, hr]
  have hlook := look_of_dirent ho
  split
  case isTrue => exact ⟨(look_remove_of_ne ha.ne).trans hlook, rfl⟩
  case isFalse => exact ⟨hlook, rfl⟩

/-- **However it ends, the path is left apart from its metadata file.** -/
theorem apart_release (ha : Apart st w f.path) (hh : Holds w h f c) (ho : Owns st w f)
    (henv : env.SsdOk) : Apart st (serve st w (.release h env)).1 f.path := by
  have hstore := look_store_self w.ssd (getMetadataPath st f.path)
    (w.ssd.inode f.fh.fd.ino).stat.content 0o644
  have hlink : ∀ v : World, v.ssd.readlink (getMetadataPath st f.path) = none →
      (v.linked st f.path).ssd.readlink (getMetadataPath st f.path) = none := by
    intro v hv
    rw [World.linked, readlink, look_create_of_ne ha.ne.symm, ← readlink, hv]
  refine ⟨ha.ne, ?_⟩
  rw [ha.serve_release hh ho henv]
  change (afterReleaseFile _ _ _ _ _ _).ssd.readlink _ = none
  unfold afterReleaseFile
  split_ifs
  · exact hlink w ha.metadata
  · obtain ⟨n, hn, hnc⟩ := hstore
    exact hlink _ (readlink_of_reg hn hnc)
  · exact readlink_of_none (dirent_remove_self ..)
  · exact ha.metadata

/-! ## Sessions with a reliable bucket -/

variable {p : Name} {s : Session}

/-- A get that is served makes a proxy exactly when there is an object. -/
theorem opened_served {opening : OpenEnv} (h : opening.get.answer = .served) (p : Name)
    (flags : OpenFlags) (w : World) :
    opened opening p flags w
      = ⟨p, flags, ⟨⟨w.ssd.next, flags⟩, (w.bucket (getKey p)).isSome, false⟩⟩ := by
  have hd : decide ((opening.get.fetched w.bucket (getKey p)).1 = .ok)
      = (w.bucket (getKey p)).isSome := by
    rw [Bool.eq_iff_iff, decide_eq_true_iff, GetEnv.fetched_ok_iff]
    exact and_iff_right h
  rw [opened, hd]

/-- An open and what follows it leave the metadata file as it was. -/
theorem Apart.look_metadata (ha : Apart st w p) {env : OpenEnv} {flags : OpenFlags} {v : World}
    (he : EditsOnly h w.ssd.next (afterOpen st env p flags w) v) :
    v.ssd.look (getMetadataPath st p) = w.ssd.look (getMetadataPath st p) := by
  have hd : (afterOpen st env p flags w).ssd.dirent (getAbsolutePath st p) = some w.ssd.next :=
    dirent_create_self ..
  rw [he.look fun hm => ha.ne (Fs.dirent_inj _ hd hm)]
  exact look_create_of_ne ha.ne.symm

/-- While a path is open it stays apart from its metadata file. -/
theorem Apart.edited (ha : Apart st w p) {env : OpenEnv} {flags : OpenFlags} {v : World}
    (he : EditsOnly h w.ssd.next (afterOpen st env p flags w) v) : Apart st v p :=
  ⟨ha.ne, by rw [readlink, ha.look_metadata he, ← readlink, ha.metadata]⟩

/-- **A session before its release, if its get was served**: the handle holds what the session makes
of what the bucket has, it is a proxy if there is an object, and dirty if the session wrote to
one. -/
theorem session_before_release (ha : Apart st w p) (ho : s.opening.SsdOk)
    (hg : s.opening.get.answer = .served) :
    ∃ v f, Holds v w.files.next f (s.left (stored w p)) ∧ Owns st v f ∧ Apart st v f.path ∧
      EditsOnly w.files.next w.ssd.next (afterOpen st s.opening p s.flags w) v ∧
      f.path = p ∧ f.fh.fd.ino = w.ssd.next ∧ f.fh.proxy = (w.bucket (getKey p)).isSome ∧
      f.fh.dirty = ((w.bucket (getKey p)).isSome && s.writes) ∧
      v = (Machine.run (serve st) w (s.edits p w.files.next)).1 := by
  obtain ⟨h1, h2, h3, -⟩ := session_holds st w p ho
  simp only [opened_served hg, GetEnv.fetched_served ho.flush hg] at h1 h2
  exact ⟨_, _, h1, h2, ha.edited h3, h3, rfl, rfl, rfl, Bool.false_or _, rfl⟩

/-- A session ends with its release. -/
theorem run_session (st : CloudfsState) (w : World) (p : Name) (s : Session) :
    (Machine.run (serve st) w (s.reqs p w.files.next)).1
      = (serve st (Machine.run (serve st) w (s.edits p w.files.next)).1
          (.release w.files.next s.closing)).1 := by
  rw [Session.reqs, Machine.run_concat]

/-! ## How a calm session ends -/

/-- A session that does not only read an object leaves no clean proxy. -/
theorem dirty_of_edits {b wr : Bool} (hx : f.fh.proxy = b) (hd : f.fh.dirty = (b && wr))
    (hr : ¬ (b = true ∧ wr = false)) : f.fh.proxy = true → f.fh.dirty = true := by
  intro hp
  have hb : b = true := hx.symm.trans hp
  rw [hd, hb, Bool.true_and]
  exact Bool.eq_true_of_not_eq_false fun hwr => hr ⟨hb, hwr⟩

/-- **A session that only reads an object** links its path back to the metadata that is there. -/
theorem session_reads (ha : Apart st w p) (hc : s.Calm)
    (ho : (w.bucket (getKey p)).isSome = true) (hr : s.writes = false) :
    let w' := (Machine.run (serve st) w (s.reqs p w.files.next)).1
    entry st w' p = some (.lnk (getMetadataPath st p)) ∧
      w'.ssd.look (getMetadataPath st p) = w.ssd.look (getMetadataPath st p) ∧
      w'.bucket = w.bucket := by
  obtain ⟨v, f, hh, hown, hav, he, hfp, -, hx, hd, hv⟩ :=
    session_before_release ha hc.opening hc.get
  obtain ⟨h1, h2, h3⟩ := release_clean hav hh hown hc.closing (hx.trans ho)
    (hd.trans (by rw [hr, Bool.and_false]))
  rw [hfp] at h1 h2
  rw [run_session, ← hv]
  exact ⟨h1, h2.trans (ha.look_metadata he), h3.trans he.bucket⟩

/-- **Any other session that leaves more than the threshold** uploads it, with what `lstat` says of
the file. -/
theorem session_uploads (ha : Apart st w p) (hc : s.Calm)
    (hr : ¬ ((w.bucket (getKey p)).isSome = true ∧ s.writes = false))
    (ht : st.threshold < (s.left (stored w p)).size) :
    let v := (Machine.run (serve st) w (s.edits p w.files.next)).1
    let w' := (Machine.run (serve st) w (s.reqs p w.files.next)).1
    entry st w' p = some (.lnk (getMetadataPath st p)) ∧
      (∃ n, w'.ssd.look (getMetadataPath st p) = some n ∧
        n.node = .reg (v.ssd.inode w.ssd.next).stat.content) ∧
      (v.ssd.inode w.ssd.next).node = .reg (s.left (stored w p)) ∧
      w'.bucket (getKey p) = some (s.left (stored w p)) := by
  obtain ⟨v, f, hh, hown, hav, -, hfp, hi, hx, hd, hv⟩ :=
    session_before_release ha hc.opening hc.get
  obtain ⟨h1, h2, h3⟩ := release_uploads hav hh hown hc.closing ⟨dirty_of_edits hx hd hr, ht⟩
  have hn := hh.node
  rw [hfp] at h1 h2 h3
  rw [hi] at h2 hn
  rw [run_session, ← hv]
  refine ⟨h1, h2, hn, ?_⟩
  rw [h3, hc.put, cloudPutObject_self]
  rfl

/-- **Any other session** leaves its file on the SSD, and no object. -/
theorem session_stays (ha : Apart st w p) (hc : s.Calm)
    (hr : ¬ ((w.bucket (getKey p)).isSome = true ∧ s.writes = false))
    (ht : ¬ st.threshold < (s.left (stored w p)).size) :
    let v := (Machine.run (serve st) w (s.edits p w.files.next)).1
    let w' := (Machine.run (serve st) w (s.reqs p w.files.next)).1
    w'.ssd.look (getAbsolutePath st p) = some (v.ssd.inode w.ssd.next) ∧
      (v.ssd.inode w.ssd.next).node = .reg (s.left (stored w p)) ∧
      w'.bucket (getKey p) = none := by
  obtain ⟨v, f, hh, hown, hav, he, hfp, hi, hx, hd, hv⟩ :=
    session_before_release ha hc.opening hc.get
  obtain ⟨h1, h2⟩ := release_local hav hh hown hc.closing (dirty_of_edits hx hd hr)
    fun h => ht h.2
  have hn := hh.node
  rw [hfp] at h1 h2
  rw [hi] at h1 hn
  rw [run_session, ← hv]
  refine ⟨h1, hn, ?_⟩
  rw [h2, hx, he.bucket]
  split
  case isTrue =>
    rw [hc.delete, cloudDeleteObject_self]
    rfl
  case isFalse hb => exact Option.not_isSome_iff_eq_none.1 hb

end CloudFS
