import CloudFS.Outcomes.Truncate

/-!
# Outcomes/Times — timestamps set and timestamps reported

`cloudfs_utimens` stamps what the path is, `cloudfs_getattr` reports of a link what its metadata
file says.  So timestamps come out as they were set for a file on the SSD, and for a proxy exactly
when its metadata file said so before (`utimens_reported_iff`).
-/

namespace CloudFS

open Posix Posix.Fs

/-- **The timestamps are reported**, and all else is reported as before. -/
def TimesReported (st : CloudfsState) (w w' : World) (p : Name) (atim mtim : Timespec) : Prop :=
  ∀ env : GetattrEnv, env.SsdOk → ∃ s, cloudfsGetattr st env p w = .ok s ∧
    cloudfsGetattr st env p w' = .ok { s with st_atim := atim, st_mtim := mtim }

/-- The metadata file of the path records these timestamps. -/
def TimesRecorded (st : CloudfsState) (w : World) (p : Name) (atim mtim : Timespec) : Prop :=
  ∃ n c, w.ssd.look (getMetadataPath st p) = some n ∧ n.node = .reg c ∧
    (Stat.decode c.bytes).st_atim = atim ∧ (Stat.decode c.bytes).st_mtim = mtim

variable {st : CloudfsState} {w : World} {p t : Name} {i : Ino} {n : Inode} {c : Content}
  {atim mtim clock : Timespec} {fault : Fault}

/-- The world with the times of inode `i` set. -/
def World.stamped (w : World) (i : Ino) (atim mtim : Timespec) : World :=
  { w with ssd := w.ssd.setInode i ((w.ssd.inode i).stamped w.ssd.clock atim mtim) }

/-- Stamping an inode changes no link. -/
theorem readlink_stamped (w : World) (i : Ino) (y : Name) :
    (w.stamped i atim mtim).ssd.readlink y = w.ssd.readlink y := by
  by_cases hy : w.ssd.dirent y = some i
  · have hy' : (w.stamped i atim mtim).ssd.dirent y = some i := hy
    rw [readlink, look_of_dirent hy', World.stamped, inode_setInode_self, readlink,
      look_of_dirent hy]
    generalize w.ssd.inode i = n
    obtain ⟨⟨c⟩ | ⟨t⟩, perm, a, m⟩ := n <;> rfl
  · rw [readlink, World.stamped, look_setInode_of_ne hy, readlink]

/-- What a utimens that returned did: it stamped the inode the path itself leads to. -/
theorem serve_utimens_done (hret : (serve st w (.utimens p atim mtim fault)).2 = .done) :
    ∃ i, w.ssd.dirent (getAbsolutePath st p) = some i ∧
      (serve st w (.utimens p atim mtim fault)).1 = w.stamped i atim mtim := by
  unfold serve cloudfsUtimens at hret ⊢
  dsimp only at hret ⊢
  cases hd : disturb fault (w.ssd.utimens (getAbsolutePath st p) atim mtim) with
  | error e =>
    rw [hd] at hret
    exact absurd hret (by simp [Reply.ofUnit])
  | ok fs =>
    obtain ⟨i, hi, rfl⟩ := utimens_eq_ok (eq_ok_of_disturb hd).2
    exact ⟨i, hi, rfl⟩

/-- What is reported of a path once its inode is stamped. -/
theorem getattr_stamped (hs : Sane st w) (hi : w.ssd.dirent (getAbsolutePath st p) = some i)
    {env : GetattrEnv} (henv : env.SsdOk) :
    cloudfsGetattr st env p (w.stamped i atim mtim)
      = attrOf (some ((w.ssd.inode i).stamped w.ssd.clock atim mtim))
        ((w.stamped i atim mtim).ssd.look (getMetadataPath st p)) := by
  have hd : (w.stamped i atim mtim).ssd.dirent (getAbsolutePath st p) = some i := hi
  rw [cloudfsGetattr_eq henv
    (fun _ ht => hs.readlink_absolute ((readlink_stamped w i _).symm.trans ht))
    ((readlink_stamped w i _).trans (hs.readlink_metadata p)), look_of_dirent hd]
  congr 2
  exact inode_setInode_self ..

/-- Stamping a link leaves its metadata file alone. -/
theorem look_metadata_stamped (hs : Sane st w) (hn : (w.ssd.inode i).node = .lnk t) :
    (w.stamped i atim mtim).ssd.look (getMetadataPath st p)
      = w.ssd.look (getMetadataPath st p) := by
  refine look_setInode_of_ne fun hd => ?_
  have hl := readlink_of_lnk (look_of_dirent hd) hn
  rw [hs.readlink_metadata p] at hl
  exact absurd hl (by simp)

/-- Of a file the timestamps of its inode are reported. -/
theorem attrOf_stamped_reg (hn : n.node = .reg c) (ha : atim.Valid) (hm : mtim.Valid)
    (m : Option Inode) : attrOf (some (n.stamped clock atim mtim)) m
      = .ok { n.stat with st_atim := atim, st_mtim := mtim } := by
  have hs : (n.stamped clock atim mtim).node = .reg c := hn
  rw [attrOf_reg hs]
  simp only [Inode.stamped, Inode.stat, Inode.type, Inode.size, ha.setOver_eq, hm.setOver_eq]

/-- Of a link the timestamps of its inode are not reported. -/
theorem attrOf_stamped_lnk (hn : n.node = .lnk t) (m : Option Inode) :
    attrOf (some (n.stamped clock atim mtim)) m = attrOf (some n) m := by
  simp only [attrOf, Inode.stamped, hn]

/-- What is reported of a link has these timestamps exactly when its metadata file records them. -/
theorem attrOf_lnk_stamps_iff (hn : n.node = .lnk t) (m : Option Inode) :
    (∃ s, attrOf (some n) m = .ok s ∧
        attrOf (some n) m = .ok { s with st_atim := atim, st_mtim := mtim }) ↔
      ∃ k c, m = some k ∧ k.node = .reg c ∧
        (Stat.decode c.bytes).st_atim = atim ∧ (Stat.decode c.bytes).st_mtim = mtim := by
  constructor
  · rintro ⟨s, hs, hs'⟩
    obtain rfl | ⟨k, rfl⟩ := Option.eq_none_or_eq_some m
    · simp [attrOf, hn] at hs
    · cases hk : k.node with
      | lnk u => simp [attrOf, hn, hk] at hs
      | reg c =>
        rw [attrOf_lnk hn hk] at hs hs'
        have he := (Except.ok.inj hs).trans (Except.ok.inj (hs.symm.trans hs'))
        refine ⟨k, c, rfl, hk, ?_, ?_⟩
        · rw [he]
        · rw [he]
  · rintro ⟨k, c, rfl, hk, rfl, rfl⟩
    exact ⟨_, attrOf_lnk hn hk, attrOf_lnk hn hk⟩

/-- **Timestamps are reported as they were set exactly when** the path is a file on the SSD, or its
metadata file records them already. -/
theorem utimens_reported_iff (hw : Reachable st w) (ha : atim.Valid) (hm : mtim.Valid)
    (hret : (serve st w (.utimens p atim mtim fault)).2 = .done) :
    TimesReported st w (serve st w (.utimens p atim mtim fault)).1 p atim mtim ↔
      ¬ IsLink st w p ∨ TimesRecorded st w p atim mtim := by
  obtain ⟨i, hi, hw'⟩ := serve_utimens_done hret
  rw [hw']
  have hs := hw.sane
  have hlook := look_of_dirent hi
  have hattr : ∀ {env : GetattrEnv}, env.SsdOk → cloudfsGetattr st env p w
      = attrOf (some (w.ssd.inode i)) (w.ssd.look (getMetadataPath st p)) := by
    intro env henv
    rw [cloudfsGetattr_eq henv (fun _ => hs.readlink_absolute) (hs.readlink_metadata p), hlook]
  have hok : GetattrEnv.SsdOk ⟨none, none, none⟩ := ⟨rfl, rfl, rfl⟩
  cases hn : (w.ssd.inode i).node with
  | reg c =>
    refine iff_of_true (fun env henv => ?_) (Or.inl ?_)
    · rw [hattr henv, getattr_stamped hs hi henv, attrOf_stamped_reg hn ha hm, attrOf_reg hn]
      exact ⟨_, rfl, rfl⟩
    · rw [IsLink, readlink_of_reg hlook hn]
      simp
  | lnk t =>
    have hlink : IsLink st w p := by rw [IsLink, readlink_of_lnk hlook hn]; rfl
    have hattr' : ∀ {env : GetattrEnv}, env.SsdOk →
        cloudfsGetattr st env p (w.stamped i atim mtim)
          = attrOf (some (w.ssd.inode i)) (w.ssd.look (getMetadataPath st p)) := by
      intro env henv
      rw [getattr_stamped hs hi henv, look_metadata_stamped hs hn, attrOf_stamped_lnk hn]
    rw [or_iff_right (not_not.2 hlink), TimesRecorded, ← attrOf_lnk_stamps_iff hn]
    refine ⟨fun h => ?_, fun h env henv => ?_⟩
    · have h0 := h _ hok
      rwa [hattr hok, hattr' hok] at h0
    · rwa [hattr henv, hattr' henv]

theorem utimens_reported_iff_twoByteObject :
    TimesReported (.sample 0) twoByteObject
        (serve (.sample 0) twoByteObject (.utimens ['/', 'a'] ⟨5, 0⟩ ⟨7, 0⟩ none)).1
        ['/', 'a'] ⟨5, 0⟩ ⟨7, 0⟩ ↔
      ¬ IsLink (.sample 0) twoByteObject ['/', 'a'] ∨
        TimesRecorded (.sample 0) twoByteObject ['/', 'a'] ⟨5, 0⟩ ⟨7, 0⟩ :=
  utimens_reported_iff reachable_twoByteObject (by decide) (by decide) (by decide)

/-- **The timestamps of a proxy are reported as they were before they were set.** -/
theorem utimens_not_reported :
    Idle twoByteObject ['/', 'a'] ∧
      (serve (.sample 0) twoByteObject (.utimens ['/', 'a'] ⟨5, 0⟩ ⟨7, 0⟩ none)).2 = .done ∧
      (cloudfsGetattr (.sample 0) ⟨none, none, none⟩ ['/', 'a']
        (serve (.sample 0) twoByteObject (.utimens ['/', 'a'] ⟨5, 0⟩ ⟨7, 0⟩ none)).1).map
          Stat.st_mtim = .ok ⟨0, 0⟩ ∧
      ¬ TimesReported (.sample 0) twoByteObject
        (serve (.sample 0) twoByteObject (.utimens ['/', 'a'] ⟨5, 0⟩ ⟨7, 0⟩ none)).1
        ['/', 'a'] ⟨5, 0⟩ ⟨7, 0⟩ := by
  have hm : (cloudfsGetattr (.sample 0) ⟨none, none, none⟩ ['/', 'a']
      (serve (.sample 0) twoByteObject (.utimens ['/', 'a'] ⟨5, 0⟩ ⟨7, 0⟩ none)).1).map
        Stat.st_mtim = .ok ⟨0, 0⟩ := by decide
  refine ⟨by decide, by decide, hm, fun h => ?_⟩
  obtain ⟨s, -, hs⟩ := h ⟨none, none, none⟩ ⟨rfl, rfl, rfl⟩
  rw [hs] at hm
  exact absurd hm (by simp [Except.map])

end CloudFS
