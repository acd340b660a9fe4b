import CloudFS.Outcomes.Kept
import CloudFS.Session.Leaves

/-!
# Outcomes/Mode — the mode of a file after sessions

`cloudfs_open` replaces the file of a path by one `fopen` creates, with the permission bits 0666
less the umask.  Whatever a session then leaves — the file, or the metadata of its upload — has that
mode, and later sessions keep it (`HasMode.session`).  So sessions keep the mode of `cloudfs_mknod`
exactly when it is that one (`mode_kept_iff`); until the first write, a path whose object was in the
bucket before it was made has the mode of the metadata found there.
-/

namespace CloudFS

open Posix Posix.Fs

/-- The mode `lstat` reports of a file with these permission bits. -/
def fileMode (perm : UInt32) : UInt32 := S_IFREG ||| (perm &&& 0o7777)

/-- The permission bits of a file an open creates. -/
def openPerm (w : World) : UInt32 := 0o666 &&& ~~~w.ssd.umask

/-- The world after sessions on `p`, one after the other. -/
def afterSessions (st : CloudfsState) (p : Name) (w : World) : List Session → World
  | [] => w
  | s :: ss => afterSessions st p (Machine.run (serve st) w (s.reqs p w.files.next)).1 ss

/-- The mode the metadata file of a path records. -/
def recordedMode (st : CloudfsState) (w : World) (p : Name) : Option UInt32 :=
  match (w.ssd.look (getMetadataPath st p)).map Inode.node with
  | some (.reg m) => some (Stat.decode m.bytes).st_mode
  | _ => none

/-- **The mode reported of a path is what it was.** -/
def ModeKept (st : CloudfsState) (w w' : World) (p : Name) : Prop :=
  ∀ env : GetattrEnv, env.SsdOk →
    (cloudfsGetattr st env p w').map Stat.st_mode = (cloudfsGetattr st env p w).map Stat.st_mode

/-- The path is a file of this mode without an object, or a link with an object whose metadata
records the mode. -/
inductive HasMode (st : CloudfsState) (w : World) (p : Name) (mode : UInt32) : Prop
  | file {n : Inode} {c : Content} (look : w.ssd.look (getAbsolutePath st p) = some n)
      (reg : n.node = .reg c) (perm : fileMode n.perm = mode)
      (object : w.bucket (getKey p) = none)
  | proxy (link : entry st w p = some (.lnk (getMetadataPath st p)))
      (recorded : recordedMode st w p = some mode) (object : (w.bucket (getKey p)).isSome = true)

variable {st : CloudfsState} {w w' : World} {p : Name} {h : Handle} {f : FuseFile} {c : Content}
  {s : Session} {mode : UInt32} {fault : Fault}

/-! ## What is reported -/

theorem st_mode_reg {n : Inode} (hn : n.node = .reg c) : n.stat.st_mode = fileMode n.perm := by
  rw [Inode.stat, Inode.type, hn]
  rfl

/-- Of a file its own mode is reported. -/
theorem getattr_mode_file (ha : Apart st w p) {n : Inode}
    (hl : w.ssd.look (getAbsolutePath st p) = some n) (hn : n.node = .reg c) {env : GetattrEnv}
    (henv : env.SsdOk) :
    (cloudfsGetattr st env p w).map Stat.st_mode = .ok (fileMode n.perm) := by
  have hr := readlink_of_reg hl hn
  rw [cloudfsGetattr_eq henv (fun t ht => absurd (hr.symm.trans ht) (by simp)) ha.metadata, hl,
    attrOf_reg hn, Except.map, st_mode_reg hn]

/-- Of a link the mode in its metadata file is reported. -/
theorem getattr_mode_link (ha : Apart st w p)
    (he : entry st w p = some (.lnk (getMetadataPath st p))) {env : GetattrEnv}
    (henv : env.SsdOk) :
    (cloudfsGetattr st env p w).map Stat.st_mode = .ok mode ↔
      recordedMode st w p = some mode := by
  obtain ⟨n, hl, hn⟩ := Option.map_eq_some_iff.1 he
  have hr := readlink_of_lnk hl hn
  rw [cloudfsGetattr_eq henv (fun t ht => Option.some.inj (ht.symm.trans hr)) ha.metadata, hl,
    recordedMode]
  cases hm : w.ssd.look (getMetadataPath st p) with
  | none => simp [attrOf, hn, Except.map]
  | some m =>
    cases hmn : m.node with
    | reg d => simp [attrOf_lnk hn hmn, hmn, Except.map]
    | lnk u => exact absurd (readlink_of_lnk hm hmn) (by simp [ha.metadata])

theorem HasMode.getattr (hm : HasMode st w p mode) (ha : Apart st w p) {env : GetattrEnv}
    (henv : env.SsdOk) : (cloudfsGetattr st env p w).map Stat.st_mode = .ok mode := by
  cases hm with
  | file hl hn hperm _ => rw [getattr_mode_file ha hl hn henv, hperm]
  | proxy he hrec _ => exact (getattr_mode_link ha he henv).2 hrec

/-! ## One session -/

/-- No permission bits and no umask changed. -/
structure SameModes (w w' : World) : Prop where
  umask : w'.ssd.umask = w.ssd.umask
  perm : ∀ i, (w'.ssd.inode i).perm = (w.ssd.inode i).perm

theorem sameModes_setContent {fs : Fs} {i : Ino} (hw : w.ssd = fs)
    (hw' : w'.ssd = fs.setContent i c) : SameModes w w' := by
  refine ⟨by rw [hw, hw']; rfl, fun j => ?_⟩
  rw [hw, hw']
  by_cases hj : j = i
  · rw [hj, setContent, inode_setInode_self]
  · rw [inode_setContent_of_ne hj]

/-- A read or a write changes no permission bits. -/
theorem act_sameModes (st : CloudfsState) (w : World) (h : Handle) (a : Act) :
    SameModes w (serve st w (a.req h)).1 := by
  cases a with
  | read size offset fault =>
    rw [Act.req, serve_read_fst]
    exact ⟨rfl, fun _ => rfl⟩
  | write buf offset fault =>
    rw [Act.req, serve]
    cases hf : w.files.get h with
    | none =>
      rw [onFile_of_none hf]
      exact ⟨rfl, fun _ => rfl⟩
    | some f =>
      rw [onFile, hf]
      rcases cloudfsWrite_cases fault h f buf offset w with ⟨e, -, hw⟩ | ⟨fs, hd, hw⟩
      · dsimp only
        rw [hw]
        exact ⟨congrArg Fs.umask (ssd_marked w h f), fun i => by rw [ssd_marked]⟩
      · obtain ⟨-, c, d, -, -, rfl⟩ := pwrite_eq_ok_iff.1 (eq_ok_of_disturb hd).2
        dsimp only
        rw [hw]
        exact sameModes_setContent (ssd_marked w h f).symm rfl

theorem acts_sameModes (st : CloudfsState) (w : World) (h : Handle) (as : List Act) :
    SameModes w (Machine.run (serve st) w (as.map (Act.req h))).1 := by
  induction as generalizing w with
  | nil => exact ⟨rfl, fun _ => rfl⟩
  | cons a as ih =>
    have h1 := act_sameModes st w h a
    have h2 := ih (serve st w (a.req h)).1
    exact ⟨h2.umask.trans h1.umask, fun i => (h2.perm i).trans (h1.perm i)⟩

/-- **A session before its release**: the file it has open has the permission bits of its open. -/
theorem session_perm (st : CloudfsState) (w : World) (p : Name) (hc : s.Calm) :
    let v := (Machine.run (serve st) w (s.edits p w.files.next)).1
    (v.ssd.inode w.ssd.next).perm = openPerm w ∧ v.ssd.umask = w.ssd.umask := by
  intro v
  obtain ⟨hu, hperm⟩ := acts_sameModes st (afterOpen st s.opening p s.flags w) w.files.next s.acts
  have hv : v = (Machine.run (serve st) (afterOpen st s.opening p s.flags w)
      (s.acts.map (Act.req w.files.next))).1 := by
    change (Machine.run (serve st) w (s.edits p w.files.next)).1 = _
    rw [Session.edits, Machine.run_cons, serve_open hc.opening]
  rw [hv]
  exact ⟨(hperm _).trans (congrArg Inode.perm (inode_create_next ..)), hu⟩

/-- A release changes no umask. -/
theorem umask_release (ha : Apart st w f.path) (hh : Holds w h f c) (ho : Owns st w f)
    {env : ReleaseEnv} (henv : env.SsdOk) :
    (serve st w (.release h env)).1.ssd.umask = w.ssd.umask := by
  have hstore : ∀ x mode, (w.ssd.store x (w.ssd.inode f.fh.fd.ino).stat.content mode).umask
      = w.ssd.umask := by
    intro x mode
    rw [store]
    split <;> rfl
  rw [ha.serve_release hh ho henv]
  change (afterReleaseFile _ _ _ _ _ _).ssd.umask = _
  unfold afterReleaseFile
  split_ifs
  · rfl
  · exact hstore _ _
  · rfl
  · rfl

/-- A session leaves its path apart from its metadata file, and the umask as it was. -/
theorem apart_session (ha : Apart st w p) (hc : s.Calm) :
    let w' := (Machine.run (serve st) w (s.reqs p w.files.next)).1
    Apart st w' p ∧ w'.ssd.umask = w.ssd.umask := by
  obtain ⟨v, f, hh, ho, hav, -, hfp, -, -, -, hv⟩ :=
    session_before_release ha hc.opening hc.get
  obtain ⟨-, hu⟩ := session_perm st w p hc
  have h1 := apart_release hav hh ho hc.closing
  rw [hfp] at h1
  rw [run_session, ← hv]
  refine ⟨h1, (umask_release hav hh ho hc.closing).trans ?_⟩
  rw [hv, hu]

/-- A session that only reads an object leaves the mode that is recorded. -/
theorem recordedMode_reads (ha : Apart st w p) (hc : s.Calm)
    (ho : (w.bucket (getKey p)).isSome = true) (hr : s.writes = false) :
    recordedMode st (Machine.run (serve st) w (s.reqs p w.files.next)).1 p
      = recordedMode st w p := by
  obtain ⟨-, h, -⟩ := session_reads ha hc ho hr
  rw [recordedMode, h, recordedMode]

/-- **Any other session** leaves the mode of the file its open created. -/
theorem session_settles_mode (ha : Apart st w p) (hc : s.Calm)
    (hr : ¬ ((w.bucket (getKey p)).isSome = true ∧ s.writes = false)) :
    HasMode st (Machine.run (serve st) w (s.reqs p w.files.next)).1 p (fileMode (openPerm w)) := by
  obtain ⟨hperm, -⟩ := session_perm st w p hc
  by_cases ht : st.threshold < (s.left (stored w p)).size
  · obtain ⟨h1, ⟨n, h2, h3⟩, h4, h5⟩ := session_uploads ha hc hr ht
    refine .proxy h1 ?_ (by rw [h5]; rfl)
    have hs : ∀ m : Inode, Stat.decode m.stat.content.bytes = m.stat :=
      fun m => Stat.decode_encode _
    simp only [recordedMode, h2, Option.map_some, h3]
    rw [hs, st_mode_reg h4, hperm]
  · obtain ⟨h1, h2, h3⟩ := session_stays ha hc hr ht
    exact .file h1 h2 (by rw [hperm]) h3

/-- **Later sessions keep the mode of an open.** -/
theorem HasMode.session (hm : HasMode st w p (fileMode (openPerm w))) (ha : Apart st w p)
    (hc : s.Calm) :
    let w' := (Machine.run (serve st) w (s.reqs p w.files.next)).1
    HasMode st w' p (fileMode (openPerm w')) := by
  intro w'
  have hu : openPerm w' = openPerm w := congrArg (0o666 &&& ~~~·) (apart_session ha hc).2
  rw [hu]
  by_cases hr : (w.bucket (getKey p)).isSome = true ∧ s.writes = false
  · cases hm with
    | file _ _ _ hb => exact absurd hr.1 (by simp [hb])
    | proxy _ hrec _ =>
      obtain ⟨h1, -, h3⟩ := session_reads ha hc hr.1 hr.2
      exact .proxy h1 ((recordedMode_reads ha hc hr.1 hr.2).trans hrec) (h3 ▸ hr.1)
  · exact session_settles_mode ha hc hr

/-! ## Any number of sessions -/

variable {ss : List Session}

theorem apart_afterSessions (ha : Apart st w p) (hc : ∀ s ∈ ss, s.Calm) :
    Apart st (afterSessions st p w ss) p := by
  induction ss generalizing w with
  | nil => exact ha
  | cons s ss ih =>
    obtain ⟨hs, hss⟩ := List.forall_mem_cons.1 hc
    exact ih (apart_session ha hs).1 hss

theorem HasMode.sessions (hm : HasMode st w p (fileMode (openPerm w))) (ha : Apart st w p)
    (hc : ∀ s ∈ ss, s.Calm) :
    HasMode st (afterSessions st p w ss) p (fileMode (openPerm w)) := by
  induction ss generalizing w with
  | nil => exact hm
  | cons s ss ih =>
    obtain ⟨hs, hss⟩ := List.forall_mem_cons.1 hc
    obtain ⟨h1, h2⟩ := apart_session ha hs
    have h := ih (hm.session ha hs) h1 hss
    have hu : openPerm (Machine.run (serve st) w (s.reqs p w.files.next)).1 = openPerm w :=
      congrArg (0o666 &&& ~~~·) h2
    rwa [hu] at h

/-- Sessions that only read an object leave the metadata that was there. -/
theorem sessions_read (ha : Apart st w p) (hc : ∀ s ∈ ss, s.Calm) (hne : ss ≠ [])
    (ho : (w.bucket (getKey p)).isSome = true) (hr : ∀ s ∈ ss, s.writes = false) :
    entry st (afterSessions st p w ss) p = some (.lnk (getMetadataPath st p)) ∧
      recordedMode st (afterSessions st p w ss) p = recordedMode st w p := by
  induction ss generalizing w with
  | nil => exact absurd rfl hne
  | cons s ss ih =>
    obtain ⟨hs, hss⟩ := List.forall_mem_cons.1 hc
    obtain ⟨hrs, hrss⟩ := List.forall_mem_cons.1 hr
    obtain ⟨h1, -, h3⟩ := session_reads ha hs ho hrs
    have h2 := recordedMode_reads ha hs ho hrs
    cases ss with
    | nil => exact ⟨h1, h2⟩
    | cons s' ss =>
      obtain ⟨g1, g2⟩ := ih (apart_session ha hs).1 hss (by simp) (h3 ▸ ho) hrss
      exact ⟨g1, g2.trans h2⟩

/-- **Any other sessions leave the mode of an open.** -/
theorem sessions_settle_mode (ha : Apart st w p) (hc : ∀ s ∈ ss, s.Calm) (hne : ss ≠ [])
    (hr : ¬ ((w.bucket (getKey p)).isSome = true ∧ ∀ s ∈ ss, s.writes = false)) :
    HasMode st (afterSessions st p w ss) p (fileMode (openPerm w)) := by
  induction ss generalizing w with
  | nil => exact absurd rfl hne
  | cons s ss ih =>
    obtain ⟨hs, hss⟩ := List.forall_mem_cons.1 hc
    obtain ⟨h1, h2⟩ := apart_session ha hs
    have hu : openPerm (Machine.run (serve st) w (s.reqs p w.files.next)).1 = openPerm w :=
      congrArg (0o666 &&& ~~~·) h2
    rw [← hu]
    by_cases hrs : (w.bucket (getKey p)).isSome = true ∧ s.writes = false
    · obtain ⟨-, -, h3⟩ := session_reads ha hs hrs.1 hrs.2
      have hrest : ¬ ∀ s ∈ ss, s.writes = false :=
        fun h => hr ⟨hrs.1, List.forall_mem_cons.2 ⟨hrs.2, h⟩⟩
      refine ih h1 hss ?_ fun h => hrest h.2
      rintro rfl
      exact hrest (by simp)
    · have hm := session_settles_mode ha hs hrs
      rw [← hu] at hm
      exact hm.sessions h1 hss

/-! ## What `cloudfs_mknod` gave -/

/-- What a mknod that reports success did. -/
theorem serve_mknod_done (h : (serve st w (.mknod p mode fault)).2 = .done) :
    w.ssd.dirent (getAbsolutePath st p) = none ∧
      (serve st w (.mknod p mode fault)).1
        = { w with
            ssd := w.ssd.create (getAbsolutePath st p)
              (w.ssd.fresh (.reg Content.empty) (mode &&& ~~~w.ssd.umask)) } := by
  simp only [serve, cloudfsMknod] at h ⊢
  cases hd : disturb fault (w.ssd.mknod (getAbsolutePath st p) mode) with
  | error e => simp [hd, Reply.ofUnit] at h
  | ok fs =>
    have hm := (eq_ok_of_disturb hd).2
    rw [mknod] at hm
    cases hx : w.ssd.dirent (getAbsolutePath st p) with
    | some i => simp [hx] at hm
    | none =>
      simp only [hx, Except.ok.injEq] at hm
      exact ⟨rfl, by rw [← hm]⟩

/-- What a mknod leaves: the path has the mode it was given less the umask, and nothing else is
seen to change. -/
theorem mknod_leaves (ha : Apart st w p) (hret : (serve st w (.mknod p mode fault)).2 = .done) :
    let v := (serve st w (.mknod p mode fault)).1
    Apart st v p ∧ recordedMode st v p = recordedMode st w p ∧ v.bucket = w.bucket ∧
      openPerm v = openPerm w ∧ ∀ env : GetattrEnv, env.SsdOk →
        (cloudfsGetattr st env p v).map Stat.st_mode
          = .ok (fileMode (mode &&& ~~~w.ssd.umask)) := by
  obtain ⟨-, hv⟩ := serve_mknod_done hret
  rw [hv]
  set v : World := { w with
    ssd := w.ssd.create (getAbsolutePath st p)
      (w.ssd.fresh (.reg Content.empty) (mode &&& ~~~w.ssd.umask)) }
  have hlook : v.ssd.look (getMetadataPath st p) = w.ssd.look (getMetadataPath st p) :=
    look_create_of_ne ha.ne.symm
  have hav : Apart st v p := ⟨ha.ne, by rw [readlink, hlook, ← readlink, ha.metadata]⟩
  refine ⟨hav, by rw [recordedMode, hlook, recordedMode], rfl, rfl, fun env henv => ?_⟩
  exact getattr_mode_file hav (look_create_self ..) rfl henv

/-- **Sessions keep the mode of a file exactly when** there are none, or the mode `cloudfs_mknod`
gave is that of an open; where sessions only read an object that was there before, when the metadata
that was there records it. -/
theorem mode_kept_iff (hw : Reachable st w) (hp : '/' ∈ p)
    (hret : (serve st w (.mknod p mode fault)).2 = .done) (hc : ∀ s ∈ ss, s.Calm) :
    ModeKept st (serve st w (.mknod p mode fault)).1
        (afterSessions st p (serve st w (.mknod p mode fault)).1 ss) p ↔
      ss = [] ∨
        if (w.bucket (getKey p)).isSome = true ∧ ∀ s ∈ ss, s.writes = false then
          recordedMode st w p = some (fileMode (mode &&& ~~~w.ssd.umask))
        else fileMode (openPerm w) = fileMode (mode &&& ~~~w.ssd.umask) := by
  obtain ⟨ha, hrec, hb, hu, hmade⟩ := mknod_leaves (hw.apart hp) hret
  have hok : GetattrEnv.SsdOk ⟨none, none, none⟩ := ⟨rfl, rfl, rfl⟩
  have hav := apart_afterSessions ha hc
  by_cases hss : ss = []
  · subst hss
    exact iff_of_true (fun _ _ => rfl) (Or.inl rfl)
  rw [or_iff_right hss, ← hrec, ← hu, ← hb]
  split_ifs with hr
  · obtain ⟨he, hread⟩ := sessions_read ha hc hss hr.1 hr.2
    rw [← hread]
    refine ⟨fun h => ?_, fun h env henv => ?_⟩
    · exact (getattr_mode_link hav he hok).1 ((h _ hok).trans (hmade _ hok))
    · exact ((getattr_mode_link hav he henv).2 h).trans (hmade env henv).symm
  · have hm := sessions_settle_mode ha hc hss hr
    refine ⟨fun h => ?_, fun h env henv => ?_⟩
    · exact Except.ok.inj ((hm.getattr hav hok).symm.trans ((h _ hok).trans (hmade _ hok)))
    · rw [hm.getattr hav henv, hmade env henv, h]

/-! ### An executable file -/

/-- A fresh mount under umask 022. -/
def masked : World := World.init (Fs.empty 0o022 ⟨0, 0⟩)

/-- `/a` made with mode 0755 on it. -/
def executable : World := (serve (.sample 0) masked (.mknod ['/', 'a'] 0o755 none)).1

theorem mode_kept_iff_executable :
    ModeKept (.sample 0) executable
        (afterSessions (.sample 0) ['/', 'a'] executable [oneByteSession]) ['/', 'a'] ↔
      [oneByteSession] = [] ∨
        if (masked.bucket (getKey ['/', 'a'])).isSome = true ∧
            ∀ s ∈ [oneByteSession], s.writes = false then
          recordedMode (.sample 0) masked ['/', 'a']
            = some (fileMode (0o755 &&& ~~~masked.ssd.umask))
        else fileMode (openPerm masked) = fileMode (0o755 &&& ~~~masked.ssd.umask) :=
  mode_kept_iff ⟨0o022, ⟨0, 0⟩, [], trivial, rfl⟩ (by decide) (by decide)
    (by simpa using calm_oneByteSession)

/-- **Its mode is 0755 when it is made, and 0644 after a session** that writes a byte to it. -/
theorem executable_loses_mode :
    (cloudfsGetattr (.sample 0) ⟨none, none, none⟩ ['/', 'a'] executable).map Stat.st_mode
        = .ok 0o100755 ∧
      (cloudfsGetattr (.sample 0) ⟨none, none, none⟩ ['/', 'a']
        (afterSessions (.sample 0) ['/', 'a'] executable [oneByteSession])).map Stat.st_mode
          = .ok 0o100644 ∧
      ¬ ModeKept (.sample 0) executable
        (afterSessions (.sample 0) ['/', 'a'] executable [oneByteSession]) ['/', 'a'] := by
  have hm : (cloudfsGetattr (.sample 0) ⟨none, none, none⟩ ['/', 'a'] executable).map Stat.st_mode
      = .ok 0o100755 := by decide
  have ha : (cloudfsGetattr (.sample 0) ⟨none, none, none⟩ ['/', 'a']
      (afterSessions (.sample 0) ['/', 'a'] executable [oneByteSession])).map Stat.st_mode
        = .ok 0o100644 := by decide
  refine ⟨hm, ha, fun h => ?_⟩
  have he := h ⟨none, none, none⟩ ⟨rfl, rfl, rfl⟩
  rw [hm, ha] at he
  exact absurd he (by simp)

end CloudFS
