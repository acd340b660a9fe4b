import CloudFS.Placement.Step

/-!
# Placement/Invariant — where files are between sessions

`Tracks` says that every path is in some phase with a given content.  Every orderly request keeps
it for some contents (`tracks_serve`), so after every orderly run a path that is not open is on
exactly one side of the threshold: on the SSD without object or metadata, or in the bucket with a
link and metadata that tells its size (`placed_run`).
-/

namespace CloudFS

open Posix Posix.Fs

variable {st : CloudfsState} {w w' : World} {p : Name} {file file' : Name → Option Content}
  {ph : Phase st.threshold}

/-- **Every path is in some phase**, of the given content. -/
structure Tracks (st : CloudfsState) (w : World) (file : Name → Option Content) : Prop where
  sane : Sane st w
  clean : ∀ h f, w.files.get h = some f → Clean st f.path
  rep : ∀ p, Clean st p → ∃ ph, RepAt st w p ph ∧ ph.content = file p

/-- A fresh mount has no files. -/
theorem tracks_init (umask : UInt32) (clock : Timespec) :
    Tracks st (World.init (Fs.empty umask clock)) fun _ => none where
  sane := sane_init st umask clock
  clean h f hf := absurd hf (by simp [World.init, Mount.init])
  rep p _ := ⟨.absent, .of_idle (fun h f hf => absurd hf (by simp [World.init, Mount.init]))
    rfl rfl rfl rfl, rfl⟩

/-- **A change that keeps to one path and leaves it in a phase keeps every path in one.** -/
theorem Tracks.touched (ht : Tracks st w file) (hp : Clean st p) (hw : Touches st p w w')
    (hr : RepAt st w' p ph) (hc : ph.content = file' p)
    (hne : ∀ q, q ≠ p → file' q = file q) : Tracks st w' file' where
  sane := hw.sane hp.toOutside ht.sane
  clean h f hf := by
    by_cases hfp : f.path = p
    · exact hfp ▸ hp
    · exact ht.clean h f ((hw.file h f hfp).1 hf)
  rep q hq := by
    by_cases hqp : q = p
    · subst hqp
      exact ⟨ph, hr, hc⟩
    · obtain ⟨ph', hr', hc'⟩ := ht.rep q hq
      have hk := hp.getKey_ne hq fun e => hqp e.symm
      exact ⟨ph', hr'.frame hw hp.toOutside hq.toOutside hk, hc'.trans (hne q hqp).symm⟩

/-- A remount while no handle is open keeps every phase. -/
theorem Tracks.remount (ht : Tracks st w file) (hn : ∀ h, w.files.get h = none) :
    Tracks st w.remount file where
  sane := ⟨ht.sane.link, fun h f hf => absurd hf (by simp [World.remount])⟩
  clean h f hf := absurd hf (by simp [World.remount])
  rep p hp := by
    obtain ⟨ph, hr, hc⟩ := ht.rep p hp
    have hi : Idle w p := fun h f hf => absurd hf (by simp [hn h])
    exact ⟨ph, .of_idle (fun h f hf => absurd hf (by simp [World.remount]))
      (hr.flags_of_idle hi) hr.entry hr.metadata hr.object, hc⟩

/-- Time passing keeps every phase. -/
theorem Tracks.tick (ht : Tracks st w file) (now : Timespec) :
    Tracks st (serve st w (.tick now)).1 file where
  sane := ⟨ht.sane.link, ht.sane.file⟩
  clean := ht.clean
  rep p hp := by
    obtain ⟨ph, hr, hc⟩ := ht.rep p hp
    exact ⟨ph, ⟨hr.entry, hr.metadata, hr.object, hr.handle, hr.live, hr.alone⟩, hc⟩

/-! ## Orderly runs -/

/-- The requests of an orderly run: files are opened and unlinked only where they exist and no
handle is open on them, nothing is truncated, and the file system is mounted again only while
nothing is open. -/
def Orderly (st : CloudfsState) (w : World) : Req → Prop
  | .mknod path _ _ => Clean st path
  | .utimens path _ _ _ => Clean st path
  | .getattr path _ => Clean st path
  | .openFile path _ _ =>
    Clean st path ∧ (w.ssd.dirent (getAbsolutePath st path)).isSome ∧ Idle w path
  | .unlink path _ =>
    Clean st path ∧ (w.ssd.dirent (getAbsolutePath st path)).isSome ∧ Idle w path
  | .truncate _ _ _ => False
  | .read _ _ _ _ => True
  | .write _ _ _ _ => True
  | .fgetattr _ _ => True
  | .ftruncate _ _ => True
  | .release _ _ => True
  | .remount => ∀ h, w.files.get h = none
  | .tick _ => True

/-- **An orderly request leaves every path in some phase.** -/
theorem tracks_serve (hT : 0 ≤ st.threshold) (ht : Tracks st w file) {r : Req} (hc : r.Calm)
    (ho : Orderly st w r) : ∃ file', Tracks st (serve st w r).1 file' := by
  have hmove : ∀ p, Clean st p → r.target w = some p → ∀ ph : Phase st.threshold,
      RepAt st (serve st w r).1 p ph → ∃ file', Tracks st (serve st w r).1 file' :=
    fun p hp htgt ph hr => ⟨Function.update file p ph.content, ht.touched hp
      (touches_serve ht.sane htgt) hr (by rw [Function.update_self])
      fun q hq => Function.update_of_ne hq ..⟩
  have hsame : (serve st w r).1 = w → ∃ file', Tracks st (serve st w r).1 file' :=
    fun he => ⟨file, he.symm ▸ ht⟩
  cases r with
  | mknod path mode fault =>
    obtain rfl := hc
    obtain ⟨ph, hr, -⟩ := ht.rep path ho
    by_cases hn : ph.content = none
    · exact hmove path ho rfl _ (hr.mknod hT ho.toOutside hn mode).1
    · exact hsame (congrArg Prod.fst (hr.mknod_exists hn mode))
  | truncate path size fault => exact absurd ho id
  | utimens path atim mtim fault =>
    obtain rfl := hc
    obtain ⟨ph, hr, -⟩ := ht.rep path ho
    exact hmove path ho rfl ph (hr.utimens ho.toOutside atim mtim)
  | getattr path env => exact hsame rfl
  | unlink path env =>
    obtain ⟨hp, he, hi⟩ := ho
    obtain ⟨ph, hr, -⟩ := ht.rep path hp
    have hn : ph.content ≠ none := fun hn => by
      rw [hr.dirent_eq_none_iff.2 hn] at he
      exact absurd he (by simp)
    exact hmove path hp rfl _ (hr.unlink ht.sane hp.toOutside hn hi hc.1 hc.2).1
  | openFile path flags env =>
    obtain ⟨hp, -, hi⟩ := ho
    obtain ⟨ph, hr, -⟩ := ht.rep path hp
    exact hmove path hp rfl _ (hr.openFile hp.toOutside hi hc.1 hc.2 flags).1
  | read h size offset fault => exact hsame (serve_read_fst ..)
  | write h buf offset fault =>
    cases hf : w.files.get h with
    | none => exact hsame (onFile_of_none hf _)
    | some f =>
      have hp := ht.clean h f hf
      obtain ⟨ph, hr, -⟩ := ht.rep f.path hp
      obtain ⟨c, hcn, -, -⟩ := hr.holds hf rfl
      exact hmove f.path hp (by rw [Req.target, hf]; rfl) _
        (hr.write hp.toOutside hf rfl hcn buf offset fault)
  | fgetattr h fault => exact hsame (serve_fgetattr_fst ..)
  | ftruncate h off => exact hsame (serve_ftruncate_fst ..)
  | release h env =>
    cases hf : w.files.get h with
    | none => exact hsame (onFile_of_none hf _)
    | some f =>
      have hp := ht.clean h f hf
      obtain ⟨ph, hr, -⟩ := ht.rep f.path hp
      exact hmove f.path hp (by rw [Req.target, hf]; rfl) _
        (hr.release ht.sane hp.toOutside hf rfl hc.1 hc.2.1 hc.2.2).1
  | remount => exact ⟨file, ht.remount ho⟩
  | tick now => exact ⟨file, ht.tick now⟩

/-! ## Closed paths -/

/-- **Where a path that is not open is**: its link, its metadata file and its object come and go
together, the metadata tells the size of the object, and the threshold separates files on the SSD
from objects. -/
structure Placed (st : CloudfsState) (w : World) (p : Name) : Prop where
  link_iff_metadata : w.ssd.readlink (getAbsolutePath st p) = some (getMetadataPath st p) ↔
    (w.ssd.dirent (getMetadataPath st p)).isSome
  metadata_iff_object : (w.ssd.dirent (getMetadataPath st p)).isSome ↔
    (w.bucket (getKey p)).isSome
  size : ∀ o, w.bucket (getKey p) = some o → st.threshold < o.size ∧
    ∃ m d, w.ssd.look (getMetadataPath st p) = some m ∧ m.node = .reg d ∧
      (Stat.decode d.bytes).st_size.toNat = o.size
  resident : ∀ n c, w.ssd.look (getAbsolutePath st p) = some n → n.node = .reg c →
    c.size ≤ st.threshold
  absent : w.ssd.dirent (getAbsolutePath st p) = none →
    w.ssd.dirent (getMetadataPath st p) = none ∧ w.bucket (getKey p) = none

/-- The path is a link exactly when the phase is that of a proxy. -/
theorem RepAt.readlink_iff (hr : RepAt st w p ph) (hn : ph.flags = none) :
    w.ssd.readlink (getAbsolutePath st p) = some (getMetadataPath st p) ↔ ph.object.isSome := by
  rw [readlink_eq_some_iff]
  have he := hr.entry
  cases ph with
  | absent =>
    have hl := Option.map_eq_none_iff.1 he
    simp [hl, Phase.object]
  | resident c hc =>
    obtain ⟨n, hl, hnc⟩ := Option.map_eq_some_iff.1 he
    simp [hl, hnc, Phase.object]
  | proxy c hc =>
    obtain ⟨n, hl, hnc⟩ := Option.map_eq_some_iff.1 he
    simp [hl, hnc, Phase.object]
  | fresh | fetched | edited => exact absurd hn (by simp [Phase.flags])

/-- **A path in a phase of a closed path is placed.** -/
theorem RepAt.placed (hr : RepAt st w p ph) (hn : ph.flags = none) : Placed st w p where
  link_iff_metadata := by rw [hr.readlink_iff hn, hr.dirent_metadata]
  metadata_iff_object := by rw [hr.dirent_metadata, hr.object]
  size o ho := by
    have hm := hr.metadata
    rw [← hr.object, ho] at hm
    obtain ⟨m, hl, hms⟩ := Option.map_eq_some_iff.1 hm
    have ht : st.threshold < o.size := by
      rw [hr.object] at ho
      cases ph with
      | absent | resident | fresh => exact absurd ho (by simp [Phase.object])
      | proxy c hc => exact Option.some.inj ho ▸ hc
      | fetched c hc => exact Option.some.inj ho ▸ hc
      | edited c hc d => exact Option.some.inj ho ▸ hc
    unfold storedSize at hms
    split at hms
    case h_1 d hd => exact ⟨ht, m, d, hl, hd, Option.some.inj hms⟩
    case h_2 => exact absurd hms (by simp)
  resident n c hl hnc := by
    have he := hr.entry
    rw [hl, Option.map_some, hnc] at he
    cases ph with
    | absent | proxy => exact absurd he (by simp [Phase.node])
    | resident d hd =>
      obtain rfl := Node.reg.inj (Option.some.inj he)
      exact hd
    | fresh | fetched | edited => exact absurd hn (by simp [Phase.flags])
  absent hd := by
    have hc := hr.dirent_eq_none_iff.1 hd
    have ho : ph.object = none := by
      cases ph with
      | absent => rfl
      | resident | proxy | fresh | fetched | edited => exact absurd hc (by simp [Phase.content])
    have hm := hr.dirent_metadata
    rw [ho] at hm
    exact ⟨Option.isNone_iff_eq_none.1 (by simpa using hm), hr.object.trans ho⟩

/-- **After every orderly run every path that is not open is placed.** -/
theorem placed_run (hT : 0 ≤ st.threshold) (umask : UInt32) (clock : Timespec) (rs : List Req)
    (hl : Machine.Legal (serve st) (fun w r => r.Calm ∧ Orderly st w r)
      (World.init (Fs.empty umask clock)) rs) :
    ∀ p, Clean st p →
      Idle (Machine.run (serve st) (World.init (Fs.empty umask clock)) rs).1 p →
      Placed st (Machine.run (serve st) (World.init (Fs.empty umask clock)) rs).1 p := by
  obtain ⟨file, ht⟩ := Machine.invariant_run (I := fun w => ∃ file, Tracks st w file)
    (fun w r ⟨_, ht⟩ hr => tracks_serve hT ht hr.1 hr.2) rs _ ⟨_, tracks_init umask clock⟩ hl
  intro p hp hi
  obtain ⟨ph, hr, -⟩ := ht.rep p hp
  exact hr.placed (hr.flags_of_idle hi)

theorem placed_run_two_bytes :
    Placed (.sample 1) (Machine.run (serve (.sample 1)) (World.init (Fs.empty 0 ⟨0, 0⟩))
      [.mknod ['/', 'a'] 0o644 none, .openFile ['/', 'a'] ⟨.rdwr, false⟩ OpenEnv.calm,
        .write 0 [1, 2] 0 none, .release 0 ReleaseEnv.calm]).1 ['/', 'a'] := by
  have hp : Clean (.sample 1) ['/', 'a'] := by decide
  refine placed_run (by decide) 0 ⟨0, 0⟩ _ ?_ _ hp (by decide)
  exact ⟨⟨rfl, hp⟩, ⟨⟨OpenEnv.ssdOk_calm, rfl⟩, hp, by decide, by decide⟩,
    ⟨rfl, trivial⟩, ⟨⟨ReleaseEnv.ssdOk_calm, rfl, rfl⟩, trivial⟩, trivial⟩

end CloudFS
