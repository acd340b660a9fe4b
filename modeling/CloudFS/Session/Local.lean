import CloudFS.Session.Run

/-!
# Session/Local — opening a file that stayed on the SSD

`cloudfs_open` removes what a path leads to and asks the bucket for it before it knows whether the
bucket has it.  A file that stayed on the SSD has no object, so the session finds an empty file
(`reopen_local_iff`): a file of at most `threshold` bytes survives a read-only session exactly when
it is empty.
-/

namespace CloudFS

open Posix Posix.Fs

variable {st : CloudfsState} {w : World} {p : Name} {c : Content}

/-- The session on `p` that reads `reads`, a list of sizes and offsets. -/
def readSession (flags : OpenFlags) (opening : OpenEnv) (reads : List (ℕ × ℕ))
    (closing : ReleaseEnv) : Session :=
  ⟨flags, opening, reads.map fun r => .read r.1 r.2 none, closing⟩

/-- The session reads back `c`, and leaves `p` a regular file of content `c` on the SSD. -/
def ReadsBack (st : CloudfsState) (w : World) (p : Name) (c : Content) (flags : OpenFlags)
    (opening : OpenEnv) (reads : List (ℕ × ℕ)) (closing : ReleaseEnv) : Prop :=
  let r := Machine.run (serve st) w
    ((readSession flags opening reads closing).reqs p w.files.next)
  r.2 = .handle w.files.next :: (reads.map (fun x => .data (c.bytes.slice x.2 x.1)) ++ [.done]) ∧
    (r.1.ssd.look (getAbsolutePath st p)).map Inode.node = some (.reg c)

theorem any_isWrite_reads (reads : List (ℕ × ℕ)) :
    (reads.map fun r => Act.read r.1 r.2 none).any Act.isWrite = false := by
  rw [List.any_map]
  exact List.any_eq_false.2 fun _ _ => Bool.false_ne_true

theorem replies_reads {flags : OpenFlags} (hr : flags.readable = true) (c : Content)
    (reads : List (ℕ × ℕ)) :
    Act.replies flags c (reads.map fun r => .read r.1 r.2 none)
      = reads.map fun r => .data (c.bytes.slice r.2 r.1) := by
  induction reads with
  | nil => rfl
  | cons r reads ih =>
    rw [List.map_cons, List.map_cons, Act.replies, Act.edit, ih, Act.reply, if_pos hr]
    rfl

/-- What a read-only session does when the bucket has nothing under the key of `p`. -/
theorem readSession_absent (hT : 0 ≤ st.threshold) (hs : Sane st w) (hp : Outside st p)
    (hb : w.bucket (getKey p) = none) {flags : OpenFlags} (hr : flags.readable = true)
    {opening : OpenEnv} (ho : opening.SsdOk) {closing : ReleaseEnv} (hc : closing.SsdOk)
    (reads : List (ℕ × ℕ)) : ReadsBack st w p Content.empty flags opening reads closing := by
  have hg : (opening.get.fetched w.bucket (getKey p)).2 = Content.empty := by
    rw [GetEnv.fetched_of_flush ho.flush]
    cases ha : opening.get.answer <;> simp [cloudGetObject, hb]
  have hn : (opening.get.fetched w.bucket (getKey p)).1 ≠ .ok := by
    rw [Ne, GetEnv.fetched_ok_iff, hb]
    simp
  obtain ⟨v, h1, h2, -, -, hrun⟩ :=
    session_run hs hp (s := readSession flags opening reads closing) ho hc
  simp only [readSession, hg, Session.left, Session.writes,
    edits_of_no_write _ (any_isWrite_reads reads), any_isWrite_reads reads, FuseFile.wrote_false,
    replies_reads hr] at h1 h2 hrun
  have hkeep : ∀ stbuf v, afterReleaseFile st closing (opened opening p flags w) Content.empty
      stbuf v = v := by
    intro stbuf v
    simp [afterReleaseFile, opened, hn, hT]
  rw [hkeep] at hrun
  refine ⟨congrArg Prod.snd hrun, ?_⟩
  refine (congrArg (fun r : World × List Reply =>
    (r.1.ssd.look (getAbsolutePath st p)).map Inode.node) hrun).trans ?_
  exact (congrArg _ (look_of_dirent h2)).trans (congrArg some h1.node)

/-- **A file that stayed on the SSD survives a read-only session exactly when it is empty** —
whatever `p` leads to on the SSD, the session finds an empty file and leaves one. -/
theorem reopen_local_iff (hT : 0 ≤ st.threshold) (hw : Reachable st w) (hp : Outside st p)
    (hb : w.bucket (getKey p) = none) {flags : OpenFlags} (hr : flags.readable = true)
    {opening : OpenEnv} (ho : opening.SsdOk) {closing : ReleaseEnv} (hcl : closing.SsdOk)
    (reads : List (ℕ × ℕ)) (c : Content) :
    ReadsBack st w p c flags opening reads closing ↔ c = Content.empty := by
  have h := readSession_absent hT hw.sane hp hb hr ho hcl reads
  refine ⟨fun hback => ?_, fun he => he ▸ h⟩
  have hc := h.2.symm.trans hback.2
  exact (Node.reg.inj (Option.some.inj hc)).symm

/-- A mount of threshold 1 on which one byte was written to `/a`: it stayed on the SSD. -/
def oneByteLocal : World :=
  (Machine.run (serve (.sample 1)) (World.init (Fs.empty 0 ⟨0, 0⟩))
    [.mknod ['/', 'a'] 0o644 none, .openFile ['/', 'a'] ⟨.rdwr, false⟩ OpenEnv.calm,
      .write 0 [1] 0 none, .release 0 ReleaseEnv.calm]).1

theorem reachable_oneByteLocal : Reachable (.sample 1) oneByteLocal :=
  ⟨0, ⟨0, 0⟩, _, by decide, rfl⟩

theorem reopen_local_iff_oneByteLocal :
    ReadsBack (.sample 1) oneByteLocal ['/', 'a'] ⟨[1], by decide⟩ ⟨.rdonly, false⟩ OpenEnv.calm
        [(4096, 0)] ReleaseEnv.calm ↔ (⟨[1], by decide⟩ : Content) = Content.empty :=
  reopen_local_iff (by decide) reachable_oneByteLocal (by decide) (by decide) (by decide)
    OpenEnv.ssdOk_calm ReleaseEnv.ssdOk_calm _ _

/-- **The byte that stayed on the SSD is gone after a session that only reads.** -/
theorem reopen_loses_local :
    (∀ h, oneByteLocal.files.get h = none) ∧ oneByteLocal.bucket (getKey ['/', 'a']) = none ∧
      (oneByteLocal.ssd.look (getAbsolutePath (.sample 1) ['/', 'a'])).map Inode.node
        = some (.reg ⟨[1], by decide⟩) ∧
      ¬ ReadsBack (.sample 1) oneByteLocal ['/', 'a'] ⟨[1], by decide⟩ ⟨.rdonly, false⟩
        OpenEnv.calm [(4096, 0)] ReleaseEnv.calm := by
  refine ⟨fun h => ?_, by decide, by decide, ?_⟩
  · rcases Nat.eq_zero_or_pos h with rfl | hh
    · decide
    · exact oneByteLocal.files.unused h hh
  · unfold ReadsBack
    decide

end CloudFS
