import CloudFS.Outcomes.FailedOpen
import CloudFS.Outcomes.PartialUnlink
import CloudFS.Outcomes.StoppedRelease
import CloudFS.Versions.Step

/-!
# Versions/Deaths — a process that dies in the middle of a request

A process dies between two calls: the calls before served as ever, the ones after never made.  The
mount is then started again.  Of the three operations that change more than one thing, this says
what is left at each stage: `cloudfs_open` has only taken the path's copy away, `cloudfs_unlink`
and `cloudfs_release` ask the bucket first, then bring the metadata file up to date, and see to the
path last.
-/

namespace CloudFS

open Posix Posix.Fs VersionStore

/-- The unlink's process dies at this stage. -/
structure UnlinkEnv.DiesAt (env : UnlinkEnv) (s : Stage) : Prop where
  access : env.access = none
  delete : env.delete.applied = s.reached .asked
  unlinkMetadata : env.unlinkMetadata = none ↔ s.reached .recorded = true
  unlink : env.unlink = none ↔ s.reached .unlinked = true

/-- The release's process dies at this stage. -/
structure ReleaseEnv.DiesAt (env : ReleaseEnv) (s : Stage) : Prop where
  lstat : env.lstat = none ↔ s ≠ .start
  fopen : env.put.fopen = none
  put : env.put.answer.applied = s.reached .asked
  delete : env.delete.applied = s.reached .asked
  openMetadata : env.openMetadata = none ↔ s.reached .recorded = true
  unlinkMetadata : env.unlinkMetadata = none ↔ s.reached .recorded = true
  writeMetadata : s.reached .unlinked = true → env.writeMetadata = none
  unlink : env.unlink = none ↔ s.reached .unlinked = true
  symlink : env.symlink = none ↔ s = .ended

variable {st : CloudfsState} {w : World} {l : Client} {p : Name} {h : Handle} {f : FuseFile}
  {d : Draft} {stored : Name → Option Content} {s : Stage}

theorem Client.learn_self (l : Client) (p : Name) : l.learn p (l.known p) = l := by
  rw [Client.learn, Function.update_eq_self]

theorem publish_self (stored : Name → Option Content) (p : Name) :
    publish stored p (stored p) = stored := Function.update_eq_self ..

/-- **A mount started again after a request about one path**, whatever the request left. -/
theorem Mirrors.died (hm : Mirrors st w l) (hb : Publishes w.bucket stored) (hp : Clean st p)
    {r : Req} (hr : r.target w = some p) {left : Option Node × Option Node × Option Content}
    (hl : stores st (serve st w r).1 p = left) :
    Follows st ((serve st w r).1.remount, .done)
      (publish stored p left.2.2, ((l.learn p left.2.1.isSome).enter p left.1.isSome).restarted,
        .done) := by
  have ht := touches_serve hm.sane hr
  subst hl
  have hs : Shelves st (serve st w r).1
      ((l.learn p (stores st (serve st w r).1 p).2.1.isSome).enter p
        (stores st (serve st w r).1 p).1.isSome) := by
    refine hm.toShelves.moved hp ht ?_ ?_ (fun q hq => ?_) fun q hq => ?_
    · simp [Client.learn, Client.enter, stores, look]
    · simp [Client.enter, stores, entry, look]
    · exact Function.update_of_ne hq ..
    · exact Function.update_of_ne hq ..
  exact ⟨hs.mirrors_restarted, hb.publish hp.plus_free rfl ht.bucket, rfl⟩

/-- What the stores hold of a path, as the version store sees it. -/
theorem Mirrors.isSome_stores (hm : Mirrors st w l) (hp : Clean st p) :
    (stores st w p).1.isSome = l.present p ∧ (stores st w p).2.1.isSome = l.known p := by
  rw [← hm.present p hp, ← hm.known p hp]
  simp [stores, entry, look]

/-! ## Dying in an open -/

theorem Mirrors.diesOpening (hm : Mirrors st w l) (hb : Publishes w.bucket stored)
    (hp : Clean st p) {env : OpenEnv} (hu : env.unlink = none) (flags : OpenFlags) :
    Follows st ((serve st w (.openFile p flags env)).1.remount, .done)
      (l.step st.threshold stored (.diesOpening p (decide (env.get.fopen = none)))) := by
  have hne := hp.toOutside.absolute_ne_metadata p
  have hunl : unlinked st env.unlink p w = w.ssd.remove (getAbsolutePath st p) := by
    rw [unlinked, hu, disturb_none, unlink_getD]
  have hleft : (stores st (serve st w (.openFile p flags env)).1 p).1.isSome
        = decide (env.get.fopen = none) ∧
      (stores st (serve st w (.openFile p flags env)).1 p).2 = (stores st w p).2 := by
    rw [serve_open_fst]
    cases hg : env.get.fopen with
    | none =>
      obtain ⟨hbk, hssd⟩ := ssd_cloudfsOpen hm.sane hg p flags
      rw [hunl, downloadName, if_pos hu] at hssd
      obtain ⟨n, hn, -⟩ := look_store_self (w.ssd.remove (getAbsolutePath st p))
        (getAbsolutePath st p) (env.get.fetched w.bucket (getKey p)).2 0o666
      simp [stores, entry, hssd, hn, hbk, look_store_of_ne hne.symm, look_remove_of_ne hne.symm]
    | some e =>
      have hopen : (cloudfsOpen st env p flags w).1.bucket = w.bucket ∧
          (cloudfsOpen st env p flags w).1.ssd = w.ssd.remove (getAbsolutePath st p) := by
        rw [← hunl]
        simp [cloudfsOpen, s3CloudfsGet, hg, unlinked]
      simp [stores, entry, hopen, look_remove_of_ne hne.symm, look_eq_none_iff.2]
  have hdied := hm.died hb hp (r := .openFile p flags env) rfl rfl
  rw [hleft.1, hleft.2, (hm.isSome_stores hp).2, Client.learn_self] at hdied
  have hstored : (stores st w p).2.2 = stored p := hb p hp.plus_free
  rw [hstored, publish_self] at hdied
  exact hdied

/-! ## Dying in an unlink -/

theorem Mirrors.diesUnlinking (hm : Mirrors st w l) (hb : Publishes w.bucket stored)
    (hp : Clean st p) {env : UnlinkEnv} (hs : env.DiesAt s) :
    Follows st ((serve st w (.unlink p env)).1.remount, .done)
      (l.step st.threshold stored (.diesUnlinking p s)) := by
  have hne := hp.toOutside.absolute_ne_metadata p
  obtain ⟨hpres, hknown⟩ := hm.isSome_stores hp
  have hstored : (stores st w p).2.2 = stored p := hb p hp.plus_free
  have hfinds : env.Finds st p w ↔ l.known p = true := by
    rw [UnlinkEnv.Finds, accessible_of_not_link (hm.sane.readlink_metadata p), ← hm.known p hp]
    exact and_iff_right hs.access
  have hwith : stores st (w.withdrawn st env p) p = _ := stores_withdrawn hne
  have hstores : stores st (serve st w (.unlink p env)).1 p =
      (if s.reached .unlinked = true ∧ l.present p = true then none else (stores st w p).1,
        (stores st (w.withdrawn st env p) p).2) := by
    have hrem : env.Removes st p w ↔ s.reached .unlinked = true ∧ l.present p = true := by
      rw [UnlinkEnv.Removes, hs.unlink, ← hpres]
      rfl
    rcases serve_unlink_cases env w hne with ⟨hr, he⟩ | ⟨hr, e, he⟩
    · rw [he, if_pos (hrem.1 hr), stores_remove _ hne]
    · rw [he, if_neg (mt hrem.2 hr), hwith]
      rfl
  have hdied := hm.died hb hp (r := .unlink p env) rfl hstores
  rw [hwith] at hdied
  simp only [hfinds, hs.unlinkMetadata, hs.delete, hstored] at hdied
  have hentry : (if s.reached .unlinked = true ∧ l.present p = true then none
      else (stores st w p).1).isSome = (l.present p && !s.reached .unlinked) := by
    rw [← hpres]
    cases s.reached .unlinked <;> cases (stores st w p).1 <;> simp
  have hmeta : (if l.known p = true ∧ s.reached .recorded = true then none
      else (stores st w p).2.1).isSome = (l.known p && !s.reached .recorded) := by
    rw [← hknown]
    cases s.reached .recorded <;> cases (stores st w p).2.1 <;> simp
  have hobject : publish stored p (if l.known p = true ∧ s.reached .asked = true then none
      else stored p) = if s.reached .asked = true ∧ l.known p = true then publish stored p none
      else stored := by
    by_cases hc : s.reached .asked = true ∧ l.known p = true
    · rw [if_pos hc, if_pos hc.symm]
    · rw [if_neg hc, if_neg fun h => hc h.symm, publish_self]
  rw [hentry, hmeta, hobject] at hdied
  exact hdied

/-! ## Dying in a release -/

/-- What a release that dies leaves of the path: nothing where it died between taking the file away
and linking the path, otherwise what is there. -/
theorem entry_makeProxy {i : Ino} (hd : w.ssd.dirent (getAbsolutePath st p) = some i)
    {env : ReleaseEnv} (hs : env.DiesAt s) :
    ((makeProxy st env p w).1.ssd.dirent (getAbsolutePath st p)).isSome = !decide (s = .unlinked) ∧
      (getAbsolutePath st p ≠ getMetadataPath st p →
        (makeProxy st env p w).1.ssd.dirent (getMetadataPath st p)
          = w.ssd.dirent (getMetadataPath st p)) := by
  have hsym := symlink_of_none (dirent_remove_self w.ssd (getAbsolutePath st p))
    (getMetadataPath st p)
  cases hu : env.unlink with
  | some e =>
    have hne : s ≠ .unlinked := by
      rintro rfl
      exact absurd (hs.unlink.2 rfl) (by simp [hu])
    simp [makeProxy, hu, hd, hne]
  | none =>
    cases hy : env.symlink with
    | some e =>
      have hr := hs.unlink.1 hu
      have hend : s ≠ .ended := fun he => absurd (hs.symlink.2 he) (by simp [hy])
      have he : s = .unlinked := by cases s <;> simp_all [Stage.reached, Stage.rank]
      simp only [makeProxy, hu, hy, disturb_none, disturb_some, unlink_of_some hd,
        dirent_remove_self, he]
      exact ⟨rfl, fun hne => dirent_remove_of_ne hne.symm⟩
    | none =>
      have he := hs.symlink.1 hy
      simp only [makeProxy, hu, hy, disturb_none, unlink_of_some hd, hsym, create_remove, he,
        dirent_create_self]
      exact ⟨rfl, fun hne => dirent_create_of_ne hne.symm⟩

/-- **Where an upload dies.** -/
theorem stores_flushAndLink (hm : Mirrors st w l) (hp : Clean st p) {i : Ino} {c : Content}
    (hd : w.ssd.dirent (getAbsolutePath st p) = some i) (hn : (w.ssd.inode i).node = .reg c)
    {env : ReleaseEnv} (hs : env.DiesAt s) (stbuf : Stat) :
    let v := (flushAndLink st env p stbuf w).1
    (v.ssd.dirent (getAbsolutePath st p)).isSome = !decide (s = .unlinked) ∧
      (v.ssd.dirent (getMetadataPath st p)).isSome = (s.reached .recorded || l.known p) ∧
      v.bucket (getKey p) = if s.reached .asked then some c else w.bucket (getKey p) := by
  intro v
  have hne := hp.toOutside.absolute_ne_metadata p
  have hml := hm.sane.readlink_metadata p
  have hssd : v.ssd = _ := ssd_flushAndLink hne hml hd env stbuf
  have hstops : env.StopsUnlinked ↔ s = .unlinked := by
    constructor
    · rintro ⟨-, -, hu, hy⟩
      have hr := hs.unlink.1 hu
      have hend : s ≠ .ended := fun he => hy (hs.symlink.2 he)
      cases s <;> simp_all [Stage.reached, Stage.rank]
    · rintro rfl
      exact ⟨hs.openMetadata.2 rfl, hs.writeMetadata rfl, hs.unlink.2 rfl,
        fun hy => absurd (hs.symlink.1 hy) (by simp)⟩
  refine ⟨?_, ?_, ?_⟩
  · have hlook : (v.ssd.look (getAbsolutePath st p)).isSome
        = (v.ssd.dirent (getAbsolutePath st p)).isSome := by simp [look]
    rw [← hlook, hssd]
    rcases look_absolute_uploadLeaves hne env stbuf w.ssd with
      ⟨h1, h2⟩ | ⟨h1, h2⟩ | ⟨h1, -, n, h2, -⟩
    · simp [h2, hstops.1 h1]
    · rw [h2, look_of_dirent hd]
      simp [mt hstops.2 h1]
    · simp [h2, mt hstops.2 h1]
  · rw [hssd, ← hm.known p hp]
    by_cases ho : env.openMetadata = none
    · obtain ⟨n, hl, -⟩ := look_metadata_uploadLeaves hne env stbuf w.ssd ho
      obtain ⟨j, hj, -⟩ := look_eq_some_iff.1 hl
      simp [hj, hs.openMetadata.1 ho]
    · have hr : s.reached .recorded = false := by simpa using mt hs.openMetadata.2 ho
      simp [uploadLeaves, ho, hr]
  · have hb : v.bucket = _ := bucket_flushAndLink env stbuf
    rw [hb, s3CloudfsPut_eq hs.fopen hd hn]
    exact (cloudPutObject_self ..).trans (by rw [hs.put])

/-- Where the withdrawal of a version dies. -/
theorem stores_keepLocal (hp : Outside st p) {env : ReleaseEnv} (hs : env.DiesAt s) (w : World) :
    let v := keepLocal st env p w
    v.ssd.dirent (getAbsolutePath st p) = w.ssd.dirent (getAbsolutePath st p) ∧
      (v.ssd.dirent (getMetadataPath st p)).isSome
        = (!s.reached .recorded && (w.ssd.dirent (getMetadataPath st p)).isSome) ∧
      v.bucket (getKey p) = if s.reached .asked then none else w.bucket (getKey p) := by
  have hne := hp.absolute_ne_metadata p
  have hb : (cloudDeleteObject env.delete w.bucket (getKey p)).2 (getKey p)
      = if s.reached .asked then none else w.bucket (getKey p) :=
    (cloudDeleteObject_self ..).trans (by rw [hs.delete])
  cases hu : env.unlinkMetadata with
  | none =>
    have hr := hs.unlinkMetadata.1 hu
    simp [keepLocal, s3Delete, hu, hr, hb, dirent_remove_of_ne hne]
  | some e =>
    have hr : s.reached .recorded = false := by
      simpa using mt hs.unlinkMetadata.2 (by simp [hu])
    simp [keepLocal, s3Delete, hu, hr, hb, Except.toOption]

/-- **Where a release dies**, as the fate of the draft says. -/
theorem stores_releaseFile (hm : Mirrors st w l) (hf : w.files.get h = some f)
    (ho : OpenAs st w h f d) {env : ReleaseEnv} (hs : env.DiesAt s) :
    let v := (releaseFile st env f w).1
    (v.ssd.dirent (getAbsolutePath st f.path)).isSome = !d.uncovered st.threshold s ∧
      (v.ssd.dirent (getMetadataPath st f.path)).isSome =
        (if s.reached .recorded then d.knows st.threshold (l.known f.path) else l.known f.path) ∧
      v.bucket (getKey f.path) = if s.reached .asked
        then d.version st.threshold (w.bucket (getKey f.path)) else w.bucket (getKey f.path) := by
  intro v
  have hp := hm.clean h f hf
  have hown : w.ssd.dirent (getAbsolutePath st f.path) = some f.fh.fd.ino := ho.owns
  have hne := hp.toOutside.absolute_ne_metadata f.path
  have hk := hm.known _ hp
  by_cases hst : s = .start
  · have hl : env.lstat ≠ none := fun hl => hs.lstat.1 hl hst
    obtain ⟨e, he⟩ := Option.ne_none_iff_exists'.1 hl
    have hv : v = w := by simp only [v, releaseFile, he, disturb_some]
    subst hst
    rw [hv, hown, hk]
    exact ⟨by simp [Draft.uncovered], rfl, rfl⟩
  · have hl := hs.lstat.2 hst
    have hasked : s.reached .asked = true := by cases s <;> simp_all [Stage.reached, Stage.rank]
    obtain ⟨stbuf, hlst, hsize⟩ : ∃ stbuf, w.ssd.lstat (getAbsolutePath st f.path) = .ok stbuf ∧
        stbuf.st_size.toNat = d.content.size :=
      ⟨_, lstat_of_look (look_of_dirent hown), Inode.st_size_reg ho.holds.node⟩
    have hupload := stores_flushAndLink hm hp hown ho.holds.node hs stbuf
    have hlink := entry_makeProxy hown hs
    have hlinkb : (makeProxy st env f.path w).1.bucket = _ := bucket_makeProxy env
    have hv : v = (releaseFile st env f w).1 := rfl
    rw [releaseFile, hl, disturb_none, hlst] at hv
    dsimp only at hv
    rw [hsize, ho.proxy, ho.dirty] at hv
    rw [if_pos hasked, hv, Draft.uncovered, Draft.knows, Draft.version, Draft.fate]
    have hkeep := stores_keepLocal hp.toOutside hs w
    rw [if_pos hasked] at hupload hkeep
    cases hx : d.fetched with
    | true =>
      cases hy : d.wrote with
      | false =>
        simp [hlinkb, hlink.1, hlink.2 hne, hk]
      | true =>
        by_cases hT : st.threshold < d.content.size
        · simp [hT, not_le.2 hT, hupload]
        · simp [hT, not_lt.1 hT, hkeep, hown, hk]
    | false =>
      by_cases hT : st.threshold < d.content.size
      · simp [hT, hupload]
      · simp [hT, hown, hk]

theorem Mirrors.diesReleasing (hm : Mirrors st w l) (hb : Publishes w.bucket stored)
    (hd : l.drafts.get h = some d) {env : ReleaseEnv} (hs : env.DiesAt s) :
    Follows st ((serve st w (.release h env)).1.remount, .done)
      (l.step st.threshold stored (.diesReleasing h s)) := by
  obtain ⟨f, hf, ho⟩ := hm.exists_of_get hd
  have hp := hm.clean h f hf
  have htgt : (Req.release h env).target w = some f.path := by
    rw [Req.target, hf]
    rfl
  have hserve : (serve st w (.release h env)).1 = (cloudfsRelease st env h f w).1 := by
    rw [serve, onFile, hf]
  obtain ⟨h1, h2, h3⟩ := stores_releaseFile hm hf ho hs
  have hdied := hm.died hb hp htgt rfl
  have hentry : (stores st (serve st w (.release h env)).1 f.path).1.isSome
      = !d.uncovered st.threshold s := by
    rw [← h1, hserve]
    simp [stores, entry, look, cloudfsRelease]
  have hmeta : (stores st (serve st w (.release h env)).1 f.path).2.1.isSome =
      if s.reached .recorded = true then d.knows st.threshold (l.known f.path)
      else l.known f.path := by
    rw [← h2, hserve]
    simp [stores, look, cloudfsRelease]
  have hobject : (stores st (serve st w (.release h env)).1 f.path).2.2 =
      if s.reached .asked = true
      then d.version st.threshold (w.bucket (getKey f.path)) else w.bucket (getKey f.path) := by
    rw [← h3, hserve]
    rfl
  rw [hentry, hmeta, hobject, hb f.path hp.plus_free, ho.path] at hdied
  have hstored : publish stored d.path (if s.reached .asked = true
        then d.version st.threshold (stored d.path) else stored d.path)
      = if s.reached .asked = true
        then publish stored d.path (d.version st.threshold (stored d.path)) else stored := by
    split
    · rfl
    · exact publish_self stored d.path
  rw [hstored] at hdied
  rw [Client.step, Client.onDraft, hd]
  exact hdied

end CloudFS
