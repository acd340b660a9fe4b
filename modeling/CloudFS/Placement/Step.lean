import CloudFS.Placement.Phase

/-!
# Placement/Step — what the operations make of the phase of their path

Each operation on `p`, undisturbed and with a reliable bucket, moves the phase of `p` as `Phase`
says: `opened`, `written`, `released`, or to `settled` and `absent`; and its reply is the one the
content of the phase calls for.  The lemmas on releases need only what the handle holds, so they
serve clients whose SSD knows nothing of the object as well.
-/

namespace CloudFS

open Posix Posix.Fs

variable {st : CloudfsState} {w w' : World} {p : Name} {h : Handle} {f : FuseFile} {c : Content}
  {ph : Phase st.threshold} {ht : st.threshold < c.size}

/-! ## Making, unlinking and touching -/

/-- A path that does not exist is made empty. -/
theorem RepAt.mknod (hr : RepAt st w p ph) (hT : 0 ≤ st.threshold) (hp : Outside st p)
    (hc : ph.content = none) (mode : UInt32) :
    RepAt st (serve st w (.mknod p mode none)).1 p (Phase.settled _ Content.empty) ∧
      (serve st w (.mknod p mode none)).2 = .done := by
  have hph : ph = .absent := by
    cases ph with
    | absent => rfl
    | resident | proxy | fresh | fetched | edited => exact absurd hc (by simp [Phase.content])
  subst hph
  have hd := hr.dirent_eq_none_iff.2 rfl
  have hserve : serve st w (.mknod p mode none)
      = ({ w with
          ssd := w.ssd.create (getAbsolutePath st p)
            (w.ssd.fresh (.reg Content.empty) (mode &&& ~~~w.ssd.umask)) }, .done) := by
    simp only [serve, cloudfsMknod, disturb_none, Fs.mknod, hd, Reply.ofUnit]
  rw [hserve, Phase.settled_of_le (c := Content.empty) hT]
  refine ⟨.of_idle (hr.idle rfl) rfl ?_ ?_ hr.object, rfl⟩
  · rw [look_create_self]
    rfl
  · rw [look_create_of_ne (hp.absolute_ne_metadata p).symm]
    exact hr.metadata

/-- A path that exists is not made again. -/
theorem RepAt.mknod_exists (hr : RepAt st w p ph) (hc : ph.content ≠ none) (mode : UInt32) :
    serve st w (.mknod p mode none) = (w, .fail (.errno .EEXIST)) := by
  have hd := fun hn => hc (hr.dirent_eq_none_iff.1 hn)
  obtain ⟨i, hi⟩ := Option.ne_none_iff_exists'.1 hd
  simp only [serve, cloudfsMknod, disturb_none, Fs.mknod, hi, Reply.ofUnit]

/-- Setting its times keeps the phase of a path. -/
theorem RepAt.utimens (hr : RepAt st w p ph) (hp : Outside st p) (atim mtim : Timespec) :
    RepAt st (serve st w (.utimens p atim mtim none)).1 p ph := by
  cases hu : w.ssd.utimens (getAbsolutePath st p) atim mtim with
  | error e =>
    have hserve : (serve st w (.utimens p atim mtim none)).1 = w := by
      simp only [serve, cloudfsUtimens, disturb_none, hu]
    rw [hserve]
    exact hr
  | ok ssd =>
    obtain ⟨i, hd, rfl⟩ := utimens_eq_ok hu
    have hserve : (serve st w (.utimens p atim mtim none)).1
        = { w with
            ssd := w.ssd.setInode i ((w.ssd.inode i).stamped w.ssd.clock atim mtim) } := by
      simp only [serve, cloudfsUtimens, disturb_none, hu]
    rw [hserve]
    refine ⟨?_, ?_, hr.object, hr.handle, hr.live, hr.alone⟩
    · rw [← hr.entry, look_of_dirent hd,
        look_of_dirent (show (w.ssd.setInode i _).dirent _ = some i from hd), inode_setInode_self]
      rfl
    · rw [look_setInode_of_ne fun he => hp.absolute_ne_metadata p (w.ssd.dirent_inj hd he)]
      exact hr.metadata

/-- A path on which no handle is open is unlinked from all three stores. -/
theorem RepAt.unlink (hr : RepAt st w p ph) (hs : Sane st w) (hp : Outside st p)
    (hc : ph.content ≠ none) (hi : Idle w p) {env : UnlinkEnv} (henv : env.SsdOk)
    (hdel : env.delete = .served) :
    RepAt st (serve st w (.unlink p env)).1 p .absent ∧ (serve st w (.unlink p env)).2 = .done := by
  have hd := fun hn => hc (hr.dirent_eq_none_iff.1 hn)
  obtain ⟨i, hi'⟩ := Option.ne_none_iff_exists'.1 hd
  have hserve : serve st w (.unlink p env) = _ :=
    congrArg (fun r : World × Except Errno Unit => (r.1, Reply.ofUnit r.2))
      (cloudfsUnlink_eq henv hp hi' (hs.readlink_metadata p))
  rw [hserve]
  refine ⟨.of_idle hi rfl ?_ ?_ ?_, rfl⟩
  · rw [look_eq_none_iff.2 (dirent_remove_self ..)]
    rfl
  · rw [look_remove_of_ne (hp.absolute_ne_metadata p).symm,
      look_eq_none_iff.2 (dirent_remove_self ..)]
    rfl
  · dsimp only
    rw [hr.dirent_metadata]
    split
    case isTrue => simp [hdel, cloudDeleteObject_self, DeleteAnswer.applied, Phase.object]
    case isFalse ho =>
      rw [hr.object]
      simpa [Phase.object] using ho

/-! ## Asking for attributes -/

/-- **The size reported of a path is that of its content.** -/
theorem RepAt.getattr (hr : RepAt st w p ph) (hs : Sane st w) {env : GetattrEnv}
    (henv : env.SsdOk) :
    match ph.content with
    | none => cloudfsGetattr st env p w = .error .ENOENT
    | some c => ∃ s, cloudfsGetattr st env p w = .ok s ∧ s.st_size.toNat = c.size := by
  rw [cloudfsGetattr_eq henv (fun _ => hs.readlink_absolute) (hs.readlink_metadata p)]
  have he := hr.entry
  have hm := hr.metadata
  have hreg : ∀ c, (w.ssd.look (getAbsolutePath st p)).map Inode.node = some (.reg c) →
      ∃ s, attrOf (w.ssd.look (getAbsolutePath st p)) (w.ssd.look (getMetadataPath st p)) = .ok s ∧
        s.st_size.toNat = c.size := by
    intro c hc
    obtain ⟨n, hn, hnc⟩ := Option.map_eq_some_iff.1 hc
    exact ⟨n.stat, by simp only [attrOf, hn, hnc], Inode.st_size_reg hnc⟩
  cases ph with
  | absent =>
    rw [Option.map_eq_none_iff.1 he]
    rfl
  | resident c => exact hreg c he
  | fresh c => exact hreg c he
  | fetched o => exact hreg o he
  | edited o ho c => exact hreg c he
  | proxy c ht =>
    obtain ⟨n, hn, hnt⟩ := Option.map_eq_some_iff.1 he
    obtain ⟨m, hm, hmc⟩ := Option.map_eq_some_iff.1 hm
    unfold storedSize at hmc
    split at hmc
    case h_1 d hd =>
      refine ⟨Stat.decode d.bytes, ?_, Option.some.inj hmc⟩
      simp only [attrOf, hn, hnt, hm, hd]
    case h_2 => exact absurd hmc (by simp)

/-! ## Opening -/

/-- **An open makes a proxy a download and everything else a new file.** -/
theorem RepAt.openFile (hr : RepAt st w p ph) (hp : Outside st p) (hi : Idle w p)
    {env : OpenEnv} (henv : env.SsdOk) (hget : env.get.answer = .served) (flags : OpenFlags) :
    RepAt st (serve st w (.openFile p flags env)).1 p ph.opened ∧
      (serve st w (.openFile p flags env)).2 = .handle w.files.next := by
  rw [serve_open henv]
  refine ⟨?_, rfl⟩
  have hn := hr.flags_of_idle hi
  have hg : (env.get.fetched w.bucket (getKey p)).2
      = ph.object.getD Content.empty := by
    rw [GetEnv.fetched_served henv.flush hget, hr.object]
  have hok : decide ((env.get.fetched w.bucket (getKey p)).1 = .ok)
      = ph.object.isSome := by
    simp only [GetEnv.fetched_ok_iff, hget, hr.object, true_and, Bool.decide_eq_true]
  have hh := holds_afterOpen st env p flags w
  have hown := owns_afterOpen st env p flags w
  have hnew : ∀ k g, (afterOpen st env p flags w).files.get k = some g → g.path = p →
      k = w.files.next ∧ g = opened env p flags w := by
    intro k g hg hgp
    rcases Table.get_alloc_eq_some hg with hkg | hold
    · exact hkg
    · exact absurd hgp (hi k g hold)
  refine ⟨?_, ?_, ?_, fun k g hk hgp => ?_, fun _ => ⟨_, _, hh.live, rfl⟩,
    fun k g k' g' hk hk' hgp hgp' => (hnew k g hk hgp).1.trans (hnew k' g' hk' hgp').1.symm⟩
  · rw [hh.look (p := p) hown rfl, hg, Phase.node_opened hn]
  · have hl : (afterOpen st env p flags w).ssd.look (getMetadataPath st p)
        = w.ssd.look (getMetadataPath st p) :=
      look_create_of_ne (hp.absolute_ne_metadata p).symm
    rw [hl, Phase.object_opened hn]
    exact hr.metadata
  · rw [Phase.object_opened hn]
    exact hr.object
  · obtain ⟨rfl, rfl⟩ := hnew k g hk hgp
    refine ⟨?_, rfl, hown⟩
    rw [Phase.flags_opened hn, opened, hok]

/-! ## Writing -/

/-- A write through the handle leaves what it made of the content. -/
theorem RepAt.write (hr : RepAt st w p ph) (hp : Outside st p) (hf : w.files.get h = some f)
    (hfp : f.path = p) (hc : ph.content = some c) (buf : Bytes) (offset : ℕ) (fault : Fault) :
    RepAt st (serve st w (.write h buf offset fault)).1 p
      (ph.written ((Act.write buf offset fault).edit f.flags c)) := by
  obtain ⟨d, hd, hh, ho⟩ := hr.holds hf hfp
  obtain rfl := Option.some.inj (hd.symm.trans hc)
  obtain ⟨h1, h2, -⟩ := act_serve st hh (.write buf offset fault)
  change RepAt st (serve st w (Act.req h (.write buf offset fault))).1 p _
  have hfl := (hr.handle h f hf hfp).1
  have hown : Owns st (serve st w (Act.req h (.write buf offset fault))).1 (f.wrote true) :=
    (congrFun h2.dirent _).trans ho
  have honly : ∀ k g, (serve st w (Act.req h (.write buf offset fault))).1.files.get k = some g →
      g.path = p → k = h ∧ g = f.wrote true := by
    intro k g hk hg
    by_cases hkh : k = h
    · subst hkh
      exact ⟨rfl, Option.some.inj (hk.symm.trans h1.live)⟩
    · rw [h2.handle k hkh] at hk
      exact absurd (hr.alone k g h f hk hf hg hfp) hkh
  refine ⟨?_, ?_, ?_, fun k g hk hg => ?_, fun _ => ⟨h, _, h1.live, hfp⟩,
    fun k g k' g' hk hk' hg hg' => (honly k g hk hg).1.trans (honly k' g' hk' hg').1.symm⟩
  · rw [h1.look hown hfp, Phase.node_written]
  · have hne : w.ssd.dirent (getMetadataPath st p) ≠ some f.fh.fd.ino := fun he =>
      hp.absolute_ne_metadata p (w.ssd.dirent_inj (hfp ▸ ho) he)
    rw [h2.look hne, hr.metadata, Phase.object_written (by simp [hfl])]
  · rw [h2.bucket, hr.object, Phase.object_written (by simp [hfl])]
  · obtain ⟨rfl, rfl⟩ := honly k g hk hg
    refine ⟨?_, h1.flags, hown⟩
    rw [Phase.flags_written hfl, FuseFile.wrote]
    simp

/-! ## Releasing -/

/-- Releasing the only handle on a path leaves none. -/
theorem idle_closed (ha : Alone w p) (hf : w.files.get h = some f) (hfp : f.path = p)
    {v : World} (hv : v.files = w.files) (env : ReleaseEnv) : Idle (v.closed env h p) p := by
  intro k g hk hg
  have hk' : (w.files.erase h).get k = some g := hv ▸ hk
  obtain ⟨hne, hk''⟩ := Table.get_erase_eq_some hk'
  exact hne (ha k g h f hk'' hf hg hfp)

/-- **An uploading release makes the path a proxy**, whatever the stores held. -/
theorem repAt_uploaded (hp : Outside st p) (hh : Holds w h f c) (hfp : f.path = p)
    (ha : Alone w p) {env : ReleaseEnv} (hput : env.put.answer.applied = true)
    (ht : st.threshold < c.size) :
    RepAt st (((w.uploaded st env.put.answer p c (w.ssd.inode f.fh.fd.ino).stat).linked st
      p).closed env h p) p (.proxy c ht) := by
  have hne := (hp.absolute_ne_metadata p).symm
  refine .of_idle (idle_closed ha hh.live hfp rfl env) rfl ?_ ?_ ?_
  · refine (congrArg (Option.map Inode.node) (look_create_self ..)).trans rfl
  · obtain ⟨n, hn, hnc⟩ := look_store_self w.ssd (getMetadataPath st p)
      (w.ssd.inode f.fh.fd.ino).stat.content 0o644
    have hl : (((w.uploaded st env.put.answer p c (w.ssd.inode f.fh.fd.ino).stat).linked st
        p).closed env h p).ssd.look (getMetadataPath st p) = some n :=
      (look_create_of_ne hne).trans hn
    rw [hl, Option.map_some, storedSize, hnc]
    simp only [Stat.content, Stat.decode_encode, Inode.st_size_reg hh.node]
    rfl
  · refine (cloudPutObject_self ..).trans ?_
    rw [hput]
    rfl

/-- **The release of an unchanged download makes the path the proxy it was.** -/
theorem repAt_linked (hp : Outside st p) (hr : RepAt st w p (.fetched c ht))
    (hf : w.files.get h = some f) (hfp : f.path = p) (env : ReleaseEnv) :
    RepAt st ((w.linked st p).closed env h p) p (.proxy c ht) := by
  refine .of_idle (idle_closed hr.alone hf hfp rfl env) rfl ?_ ?_ hr.object
  · exact (congrArg (Option.map Inode.node) (look_create_self ..)).trans rfl
  · refine (congrArg (Option.map storedSize) ?_).trans hr.metadata
    exact look_create_of_ne (hp.absolute_ne_metadata p).symm

/-- The release of a file at or below the threshold leaves it on the SSD. -/
theorem repAt_kept (hh : Holds w h f c) (ho : Owns st w f) (hfp : f.path = p) (ha : Alone w p)
    (hm : w.ssd.dirent (getMetadataPath st p) = none) (hb : w.bucket (getKey p) = none)
    (ht : c.size ≤ st.threshold) (env : ReleaseEnv) :
    RepAt st (w.closed env h p) p (.resident c ht) := by
  refine .of_idle (idle_closed ha hh.live hfp rfl env) rfl (hh.look ho hfp) ?_ hb
  exact congrArg (Option.map storedSize) (look_eq_none_iff.2 hm)

/-- **A release of the only handle on a path settles the phase.** -/
theorem RepAt.release (hr : RepAt st w p ph) (hs : Sane st w) (hp : Outside st p)
    (hf : w.files.get h = some f) (hfp : f.path = p) {env : ReleaseEnv} (henv : env.SsdOk)
    (hput : env.put.answer = .served) (hdel : env.delete = .served) :
    RepAt st (serve st w (.release h env)).1 p ph.released ∧
      (serve st w (.release h env)).2 = .done := by
  obtain ⟨c, hc, hh, ho⟩ := hr.holds hf hfp
  have hfl := (hr.handle h f hf hfp).1
  have happ : env.put.answer.applied = true := by rw [hput]; rfl
  rw [serve_release hs hh ho henv, hfp]
  refine ⟨?_, rfl⟩
  cases ph with
  | absent | resident | proxy => exact absurd hfl (by simp [Phase.flags])
  | fresh d =>
    obtain rfl := Option.some.inj hc
    obtain ⟨hx, hy⟩ := Prod.mk.inj (Option.some.inj hfl)
    rw [afterReleaseFile, if_neg (by simp [← hx]), hfp, Phase.released]
    by_cases ht : st.threshold < d.size
    · rw [if_pos ht, Phase.settled_of_lt ht]
      exact repAt_uploaded hp hh hfp hr.alone happ ht
    · rw [if_neg ht, if_neg (by simp [← hx]), Phase.settled_of_le (not_lt.1 ht)]
      refine repAt_kept hh ho hfp hr.alone ?_ hr.object _ env
      exact look_eq_none_iff.1 (Option.map_eq_none_iff.1 hr.metadata)
  | fetched o ht =>
    obtain rfl := Option.some.inj hc
    obtain ⟨hx, hy⟩ := Prod.mk.inj (Option.some.inj hfl)
    rw [afterReleaseFile, if_pos (by simp [← hx, ← hy]), hfp]
    exact repAt_linked hp hr hf hfp env
  | edited o ht d =>
    obtain rfl := Option.some.inj hc
    obtain ⟨hx, hy⟩ := Prod.mk.inj (Option.some.inj hfl)
    rw [afterReleaseFile, if_neg (by simp [← hy]), hfp, Phase.released]
    by_cases ht' : st.threshold < d.size
    · rw [if_pos ht', Phase.settled_of_lt ht']
      exact repAt_uploaded hp hh hfp hr.alone happ ht'
    · rw [if_neg ht', if_pos hx.symm, Phase.settled_of_le (not_lt.1 ht')]
      refine .of_idle (idle_closed hr.alone hf hfp rfl env) rfl ?_ ?_ ?_
      · refine (congrArg (Option.map Inode.node) ?_).trans (hh.look ho hfp)
        exact look_remove_of_ne (hp.absolute_ne_metadata p)
      · exact congrArg (Option.map storedSize) (look_eq_none_iff.2 (dirent_remove_self ..))
      · refine (cloudDeleteObject_self ..).trans ?_
        rw [hdel]
        rfl

/-! ## Whole sessions -/

/-- Reads and writes through the handle leave what they made of the content. -/
theorem RepAt.acts {flags : OpenFlags} (hr : RepAt st w p ph) (hp : Outside st p)
    (hf : w.files.get h = some f) (hfp : f.path = p) (hfl : f.flags = flags)
    (hc : ph.content = some c) (as : List Act) :
    ∃ ph' : Phase st.threshold,
      RepAt st (Machine.run (serve st) w (as.map (Act.req h))).1 p ph' ∧
        ph'.content = some (as.foldl (Act.edit flags) c) := by
  induction as generalizing w f c ph with
  | nil => exact ⟨ph, hr, hc⟩
  | cons a as ih =>
    obtain ⟨d, hd, hh, -⟩ := hr.holds hf hfp
    obtain rfl := Option.some.inj (hd.symm.trans hc)
    obtain ⟨h1, -, -⟩ := act_serve st hh a
    have hone : ∃ ph₁ : Phase st.threshold, RepAt st (serve st w (a.req h)).1 p ph₁ ∧
        ph₁.content = some (a.edit flags d) := by
      cases a with
      | read size offset fault =>
        have hw : (serve st w (Act.req h (.read size offset fault))).1 = w :=
          serve_read_fst ..
        exact ⟨ph, by rw [hw]; exact hr, hd⟩
      | write buf offset fault =>
        refine ⟨_, hr.write hp hf hfp hd buf offset fault, ?_⟩
        rw [← hfl]
        exact Phase.content_written ..
    obtain ⟨ph₁, hr₁, hc₁⟩ := hone
    exact ih hr₁ h1.live hfp hfl hc₁

/-- **A calm session on a closed path** leaves it closed, with what it made of the object. -/
theorem RepAt.session (hr : RepAt st w p ph) (hs : Sane st w) (hp : Outside st p)
    (hn : ph.flags = none) {s : Session} (hc : s.Calm) :
    ∃ ph' : Phase st.threshold,
      RepAt st (Machine.run (serve st) w (s.reqs p w.files.next)).1 p ph' ∧ ph'.flags = none ∧
        ph'.content = some (s.left (ph.object.getD Content.empty)) := by
  obtain ⟨h1, -, hsv, -, -⟩ := session_edits hs hp hc.opening
  obtain ⟨hopen, -⟩ := hr.openFile hp (hr.idle hn) hc.opening hc.get s.flags
  rw [serve_open hc.opening] at hopen
  obtain ⟨ph', hr', hc'⟩ := hopen.acts hp (holds_afterOpen st s.opening p s.flags w).live rfl
    rfl (Phase.content_opened_eq hn) s.acts
  have hedits : (Machine.run (serve st) w (s.edits p w.files.next)).1
      = (Machine.run (serve st) (afterOpen st s.opening p s.flags w)
          (s.acts.map (Act.req w.files.next))).1 := by
    rw [Session.edits, Machine.run_cons, serve_open hc.opening]
  rw [← hedits] at hr'
  obtain ⟨hrel, -⟩ := hr'.release hsv hp h1.live rfl hc.closing hc.put hc.delete
  refine ⟨ph'.released, ?_, Phase.flags_released ph', ?_⟩
  · rw [Session.reqs, Machine.run_concat]
    exact hrel
  · rw [Phase.content_released]
    exact hc'

end CloudFS
