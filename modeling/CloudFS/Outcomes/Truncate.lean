import CloudFS.Outcomes.Kept
import CloudFS.Session.Local
import CloudFS.Session.Transfer

/-!
# Outcomes/Truncate — truncation through the link

`cloudfs_truncate` truncates what the path leads to.  For a file that stayed on the SSD this is the
file, which the next open drops; for a proxy it is the metadata file at the end of the link, and
the object stays as it is.  So the content comes out truncated exactly where nothing had to be done
(`truncate_iff`), and for a proxy whose length is recorded that is at lengths of 0 or more than 44
bytes (`truncate_recorded_iff`).
-/

namespace CloudFS

open Posix Posix.Fs

/-- The path is a link. -/
def IsLink (st : CloudfsState) (w : World) (p : Name) : Prop :=
  (w.ssd.readlink (getAbsolutePath st p)).isSome = true

instance (st : CloudfsState) (w : World) (p : Name) : Decidable (IsLink st w p) :=
  inferInstanceAs (Decidable (_ = _))

/-- The closed path has content `c`: it is a file that holds it, or a link and its object is `c`. -/
def HasContent (st : CloudfsState) (w : World) (p : Name) (c : Content) : Prop :=
  entry st w p = some (.reg c) ∨ IsLink st w p ∧ w.bucket (getKey p) = some c

instance (st : CloudfsState) (w : World) (p : Name) (c : Content) :
    Decidable (HasContent st w p c) :=
  inferInstanceAs (Decidable (_ ∨ _))

/-- **The path is left with the first `n` bytes of `c`**, zero bytes added if `c` is shorter. -/
def LeftTruncated (st : CloudfsState) (w : World) (p : Name) (c : Content) (n : ℕ) : Prop :=
  ∃ d, c.resize n = some d ∧ Kept st w p d

/-- A later session reads the truncated content. -/
theorem LeftTruncated.read {st : CloudfsState} {w : World} {p : Name} {c : Content} {n : ℕ}
    (h : LeftTruncated st w p c n) (size offset : ℕ) :
    readBack st p OpenEnv.calm ⟨.rdonly, false⟩ size offset w
      = .data ((c.bytes.resize n).slice offset size) := by
  obtain ⟨d, hd, hk⟩ := h
  rw [← Content.resize_eq_some_iff.1 hd]
  exact hk.serves OpenEnv.calm OpenEnv.ssdOk_calm rfl ⟨.rdonly, false⟩ rfl size offset

/-- The size the metadata file of a path records. -/
def recordedSize (st : CloudfsState) (w : World) (p : Name) : ℕ :=
  match (w.ssd.look (getMetadataPath st p)).map Inode.node with
  | some (.reg m) => (Stat.decode m.bytes).st_size.toNat
  | _ => 0

variable {st : CloudfsState} {w : World} {p : Name} {c d m : Content} {n : ℕ} {i : Ino}
  {fault : Fault}

/-- What a truncation that returned did: the file the path leads to was cut or extended. -/
theorem serve_truncate_done (hs : Sane st w) (hret : (serve st w (.truncate p n fault)).2 = .done) :
    ∃ i m d, w.ssd.dirent (w.ssd.follow (getAbsolutePath st p)) = some i ∧
      (w.ssd.inode i).node = .reg m ∧ m.resize n = some d ∧
      (serve st w (.truncate p n fault)).1 = { w with ssd := w.ssd.setContent i d } := by
  unfold serve cloudfsTruncate at hret ⊢
  dsimp only at hret ⊢
  cases hd : disturb fault (w.ssd.truncate (getAbsolutePath st p) n) with
  | error e =>
    rw [hd] at hret
    exact absurd hret (by simp [Reply.ofUnit])
  | ok fs =>
    obtain ⟨i, m, d, hi, hm, hmd, rfl⟩ :=
      (truncate_eq_ok_iff (hs.readlink_follow p)).1 (eq_ok_of_disturb hd).2
    exact ⟨i, m, d, hi, hm, hmd, rfl⟩

/-- What is kept after a file was cut is a matter of the two names and the bucket. -/
theorem kept_setContent_iff (hs : Sane st w) (hm : (w.ssd.inode i).node = .reg m) (d : Content) :
    Kept st { w with ssd := w.ssd.setContent i d } p c ↔
      Reports ((w.ssd.setContent i d).look (getAbsolutePath st p))
        ((w.ssd.setContent i d).look (getMetadataPath st p)) c ∧ stored w p = c :=
  kept_iff (fun _ ht => hs.readlink_absolute ((readlink_setContent hm d _).symm.trans ht))
    ((readlink_setContent hm d _).trans (hs.readlink_metadata p))

/-- **A file is left truncated exactly when** the bucket serves what it should hold. -/
theorem truncate_file_iff (hs : Sane st w) (he : entry st w p = some (.reg c))
    (hret : (serve st w (.truncate p n fault)).2 = .done) :
    LeftTruncated st (serve st w (.truncate p n fault)).1 p c n ↔
      (stored w p).bytes = c.bytes.resize n := by
  obtain ⟨i, m, d, hi, hm, hmd, hw'⟩ := serve_truncate_done hs hret
  obtain ⟨k, hk, hkc⟩ := Option.map_eq_some_iff.1 he
  rw [follow_of_not_link (readlink_of_reg hk hkc)] at hi
  obtain rfl : w.ssd.inode i = k := Option.some.inj ((look_of_dirent hi).symm.trans hk)
  obtain rfl : m = c := Node.reg.inj (hm.symm.trans hkc)
  have hlook : (w.ssd.setContent i d).look (getAbsolutePath st p)
      = some ((w.ssd.setContent i d).inode i) := look_of_dirent hi
  have hd : ∀ e, m.resize n = some e ↔ e = d := fun e => by rw [hmd, Option.some_inj, eq_comm]
  simp only [LeftTruncated, hw', hd, exists_eq_left]
  rw [kept_setContent_iff hs hm, hlook, reports_reg (node_setContent_self ..),
    ← Content.resize_eq_some_iff, hd]
  simp only [true_and]

/-- **A proxy is left truncated exactly when** there was nothing to cut or add, and the size its
metadata file records is still there once that file was cut or extended to as many bytes. -/
theorem truncate_proxy_iff (hs : Sane st w) (hl : IsLink st w p)
    (hb : w.bucket (getKey p) = some c) (hret : (serve st w (.truncate p n fault)).2 = .done) :
    LeftTruncated st (serve st w (.truncate p n fault)).1 p c n ↔
      n = c.size ∧ recordedSize st w p % 256 ^ (n - 44) = n := by
  obtain ⟨i, m, d, hi, hm, hmd, hw'⟩ := serve_truncate_done hs hret
  obtain ⟨t, hr⟩ := Option.isSome_iff_exists.1 hl
  obtain ⟨k, hk, hkt⟩ := readlink_eq_some_iff.1 hr
  obtain rfl := hs.readlink_absolute hr
  rw [follow_of_link hr] at hi
  have hne : w.ssd.dirent (getAbsolutePath st p) ≠ some i := by
    intro hA
    rw [look_of_dirent hA] at hk
    rw [Option.some.inj hk] at hm
    exact absurd (hm.symm.trans hkt) (by simp)
  have hlookA : (w.ssd.setContent i d).look (getAbsolutePath st p) = some k :=
    (look_setInode_of_ne hne).trans hk
  have hlookM : (w.ssd.setContent i d).look (getMetadataPath st p)
      = some ((w.ssd.setContent i d).inode i) := look_of_dirent hi
  have hstored : stored w p = c := by rw [stored, hb, Option.getD_some]
  have hrec : recordedSize st w p = (Stat.decode m.bytes).st_size.toNat := by
    rw [recordedSize, look_of_dirent hi, Option.map_some, hm]
  have hsize : (Stat.decode d.bytes).st_size.toNat = recordedSize st w p % 256 ^ (n - 44) := by
    rw [Content.resize_eq_some_iff.1 hmd, Stat.st_size_decode_resize, hrec]
  have hkept : ∀ e, Kept st (serve st w (.truncate p n fault)).1 p e ↔
      (Stat.decode d.bytes).st_size.toNat = e.size ∧ c = e := by
    intro e
    rw [hw', kept_setContent_iff hs hm, hlookA, hlookM,
      reports_lnk hkt (node_setContent_self ..), hstored]
  rw [LeftTruncated, ← hsize]
  constructor
  · rintro ⟨e, hce, hke⟩
    obtain ⟨hsz, rfl⟩ := (hkept e).1 hke
    obtain rfl := Content.resize_eq_self_iff.1 hce
    exact ⟨rfl, hsz⟩
  · rintro ⟨rfl, hsz⟩
    exact ⟨c, Content.resize_eq_self_iff.2 rfl, (hkept c).2 ⟨hsz, rfl⟩⟩

/-- A size is still recorded in as many bytes of the metadata file when these reach into its field. -/
theorem mod_pow_eq_self_iff : n % 256 ^ (n - 44) = n ↔ n = 0 ∨ 44 < n := by
  constructor
  · intro h
    by_contra hn
    have hz : n - 44 = 0 := by omega
    rw [hz, pow_zero, Nat.mod_one] at h
    omega
  · rintro (rfl | hn)
    · rfl
    · obtain ⟨k, rfl⟩ := Nat.exists_eq_add_of_lt hn
      have hk : k < 256 ^ k := Nat.lt_pow_self (by decide)
      have hsub : 44 + k + 1 - 44 = k + 1 := by omega
      rw [hsub, Nat.pow_succ]
      exact Nat.mod_eq_of_lt (by omega)

/-- A proxy whose metadata file records its length is left truncated to that length only, and only
where it is 0 or more than 44. -/
theorem truncate_recorded_iff (hs : Sane st w) (hl : IsLink st w p)
    (hb : w.bucket (getKey p) = some c) (hrec : recordedSize st w p = c.size)
    (hret : (serve st w (.truncate p n fault)).2 = .done) :
    LeftTruncated st (serve st w (.truncate p n fault)).1 p c n ↔
      n = c.size ∧ (n = 0 ∨ 44 < n) := by
  rw [truncate_proxy_iff hs hl hb hret, hrec, ← mod_pow_eq_self_iff]
  refine and_congr_right fun hn => ?_
  rw [← hn]

/-- **A truncation of a closed file does what it says exactly when** the bucket serves the truncated
content, for a file that stayed on the SSD; for a proxy, when `n` is the length of its content, and
the recorded size survives the cut of the metadata file. -/
theorem truncate_iff (hw : Reachable st w) (hc : HasContent st w p c)
    (hret : (serve st w (.truncate p n fault)).2 = .done) :
    LeftTruncated st (serve st w (.truncate p n fault)).1 p c n ↔
      if IsLink st w p then n = c.size ∧ recordedSize st w p % 256 ^ (n - 44) = n
      else (stored w p).bytes = c.bytes.resize n := by
  by_cases hl : IsLink st w p
  · rw [if_pos hl]
    rcases hc with he | ⟨-, hb⟩
    · obtain ⟨k, hk, hkc⟩ := Option.map_eq_some_iff.1 he
      rw [IsLink, readlink_of_reg hk hkc] at hl
      exact absurd hl (by simp)
    · exact truncate_proxy_iff hw.sane hl hb hret
  · rw [if_neg hl]
    exact truncate_file_iff hw.sane (hc.resolve_right fun h => hl h.1) hret

theorem truncate_iff_twoByteObject :
    LeftTruncated (.sample 0) (serve (.sample 0) twoByteObject (.truncate ['/', 'a'] 1 none)).1
        ['/', 'a'] ⟨[1, 2], by decide⟩ 1 ↔
      if IsLink (.sample 0) twoByteObject ['/', 'a'] then
        1 = Content.size ⟨[1, 2], by decide⟩ ∧
          recordedSize (.sample 0) twoByteObject ['/', 'a'] % 256 ^ (1 - 44) = 1
      else (stored twoByteObject ['/', 'a']).bytes = Bytes.resize [1, 2] 1 :=
  truncate_iff reachable_twoByteObject (by decide) (by decide)

/-- **The two bytes of a proxy truncated to one are still read, and size 0 is reported**; a file of
one byte truncated to one byte is read as empty. -/
theorem truncate_leaves_content :
    (Idle twoByteObject ['/', 'a'] ∧
      HasContent (.sample 0) twoByteObject ['/', 'a'] ⟨[1, 2], by decide⟩ ∧
      (serve (.sample 0) twoByteObject (.truncate ['/', 'a'] 1 none)).2 = .done ∧
      (cloudfsGetattr (.sample 0) ⟨none, none, none⟩ ['/', 'a']
        (serve (.sample 0) twoByteObject (.truncate ['/', 'a'] 1 none)).1).map Stat.st_size
          = .ok 0 ∧
      readBack (.sample 0) ['/', 'a'] OpenEnv.calm ⟨.rdonly, false⟩ 4096 0
        (serve (.sample 0) twoByteObject (.truncate ['/', 'a'] 1 none)).1 = .data [1, 2] ∧
      ¬ LeftTruncated (.sample 0)
        (serve (.sample 0) twoByteObject (.truncate ['/', 'a'] 1 none)).1
        ['/', 'a'] ⟨[1, 2], by decide⟩ 1) ∧
    Idle oneByteLocal ['/', 'a'] ∧
      HasContent (.sample 1) oneByteLocal ['/', 'a'] ⟨[1], by decide⟩ ∧
      (serve (.sample 1) oneByteLocal (.truncate ['/', 'a'] 1 none)).2 = .done ∧
      readBack (.sample 1) ['/', 'a'] OpenEnv.calm ⟨.rdonly, false⟩ 4096 0
        (serve (.sample 1) oneByteLocal (.truncate ['/', 'a'] 1 none)).1 = .data [] ∧
      ¬ LeftTruncated (.sample 1)
        (serve (.sample 1) oneByteLocal (.truncate ['/', 'a'] 1 none)).1
        ['/', 'a'] ⟨[1], by decide⟩ 1 := by
  refine ⟨⟨by decide, by decide, by decide, by decide, by decide, ?_⟩, by decide, by decide,
    by decide, by decide, ?_⟩
  · intro h
    have hr := h.read 4096 0
    revert hr
    decide
  · intro h
    have hr := h.read 4096 0
    revert hr
    decide

end CloudFS
