import CloudFS.Machinery.Posix.Limits
import CloudFS.Outcomes.PartialUnlink
import CloudFS.Outcomes.StoppedRelease
import CloudFS.Session.Leaves

/-!
# Outcomes/NameLimits — where nothing fails but by the length of a name

`Req.Named` says of a request that its SSD calls fail exactly on the names the SSD does not admit,
its RPCs on the keys that cannot be encoded, and nothing else fails.  Whatever such requests are
served, an object on whose metadata file the SSD agrees has one, and no other metadata file is ever
made (`metadata_serve`).
-/

namespace CloudFS

open Posix Posix.Fs

/-! ## Failing by names alone -/

/-- The open fails by the lengths of names alone. -/
structure OpenEnv.Named (env : OpenEnv) (st : CloudfsState) (p : Name) : Prop where
  acquire : xdrKeyname (getKey p) = false → ∀ k, env.acquire k = .failed
  unlink : env.unlink = nameFault (getAbsolutePath st p)
  fopen : env.get.fopen = nameFault (getAbsolutePath st p)
  get : env.get.answer = .served
  flush : env.get.flush = none
  openFile : env.openFile = nameFault (getAbsolutePath st p)

/-- The release, on the SSD `fs`, fails by the lengths of names alone. -/
structure ReleaseEnv.Named (env : ReleaseEnv) (st : CloudfsState) (fs : Fs) (p : Name) :
    Prop where
  lstat : env.lstat = nameFault (getAbsolutePath st p)
  delete : env.delete = .served
  unlinkMetadata : env.unlinkMetadata = nameFault (getMetadataPath st p)
  fopen : env.put.fopen = fs.walkFault (getAbsolutePath st p)
  put : env.put.answer = .served
  openMetadata : env.openMetadata = nameFault (getMetadataPath st p)
  writeMetadata : env.writeMetadata = none
  unlink : env.unlink = nameFault (getAbsolutePath st p)
  symlink : env.symlink = linkFault (getMetadataPath st p) (getAbsolutePath st p)
  release : xdrKeyname (getKey p) = false → ∀ k, env.release k = .failed

/-- The unlink fails by the lengths of names alone. -/
structure UnlinkEnv.Named (env : UnlinkEnv) (st : CloudfsState) (p : Name) : Prop where
  access : env.access = nameFault (getMetadataPath st p)
  delete : env.delete = .served
  unlinkMetadata : env.unlinkMetadata = nameFault (getMetadataPath st p)
  unlink : env.unlink = nameFault (getAbsolutePath st p)

/-- The getattr, on the SSD `fs`, fails by the lengths of names alone. -/
structure GetattrEnv.Named (env : GetattrEnv) (st : CloudfsState) (fs : Fs) (p : Name) :
    Prop where
  lstat : env.lstat = nameFault (getAbsolutePath st p)
  openFile : env.openFile = fs.walkFault (getAbsolutePath st p)
  read : env.read = none

/-- A request in which nothing fails but what the lengths of names make fail. -/
def Req.Named (st : CloudfsState) (w : World) : Req → Prop
  | .mknod p _ fault => fault = nameFault (getAbsolutePath st p)
  | .truncate p _ fault => fault = w.ssd.walkFault (getAbsolutePath st p)
  | .utimens p _ _ fault => fault = nameFault (getAbsolutePath st p)
  | .getattr p env => env.Named st w.ssd p
  | .unlink p env => env.Named st p
  | .openFile p _ env => env.Named st p
  | .read _ _ _ fault => fault = none
  | .write _ _ _ fault => fault = none
  | .fgetattr _ fault => fault = none
  | .ftruncate _ _ => True
  | .release h env => ∀ f, w.files.get h = some f → env.Named st w.ssd f.path
  | .remount => True
  | .tick _ => True

/-- A state reached while nothing failed but what the lengths of names make fail. -/
def ReachedByNames (st : CloudfsState) (w : World) : Prop :=
  ∃ umask clock rs,
    Machine.Legal (serve st) (fun w r => r.Named st w ∧ r.Proper st w)
      (World.init (Fs.empty umask clock)) rs ∧
    (Machine.run (serve st) (World.init (Fs.empty umask clock)) rs).1 = w

/-- The metadata file of a path: it is there if the object is and the SSD admits it, and only
then. -/
structure MetadataThere (st : CloudfsState) (w : World) (p : Name) : Prop where
  stored : Admitted (getMetadataPath st p) → (w.bucket (getKey p)).isSome = true →
    (w.ssd.look (getMetadataPath st p)).isSome = true
  admitted : (w.ssd.look (getMetadataPath st p)).isSome = true → Admitted (getMetadataPath st p)

variable {st : CloudfsState} {w w' v : World} {p q : Name} {h : Handle} {f : FuseFile}
  {c : Content} {fs : Fs}

/-- The metadata file of a path is admitted exactly when the whole path fits into one component and
the metadata directory leaves room for it. -/
theorem admitted_metadata_iff : Admitted (getMetadataPath st p) ↔
    p.length ≤ NAME_MAX ∧ st.metadataPath.length + 1 + p.length < PATH_MAX ∧
      ∀ c ∈ st.metadataPath.splitOn '/', c.length ≤ NAME_MAX := by
  have hk : (getKey p).length = p.length := List.length_map ..
  rw [getMetadataPath, admitted_below_iff (slash_not_mem_getKey p), hk]

theorem OpenEnv.Named.ssdOk {env : OpenEnv} (h : env.Named st p)
    (ha : Admitted (getAbsolutePath st p)) : env.SsdOk where
  unlink := h.unlink.trans (nameFault_eq_none_iff.2 ha)
  fopen := h.fopen.trans (nameFault_eq_none_iff.2 ha)
  flush := h.flush
  openFile := h.openFile.trans (nameFault_eq_none_iff.2 ha)

theorem UnlinkEnv.Named.ssdOk {env : UnlinkEnv} (h : env.Named st p)
    (ha : Admitted (getAbsolutePath st p)) (hm : Admitted (getMetadataPath st p)) : env.SsdOk where
  access := h.access.trans (nameFault_eq_none_iff.2 hm)
  unlinkMetadata := h.unlinkMetadata.trans (nameFault_eq_none_iff.2 hm)
  unlink := h.unlink.trans (nameFault_eq_none_iff.2 ha)

/-- Where both names are admitted and the path is a file, no call of the release fails. -/
theorem ReleaseEnv.Named.ssdOk {env : ReleaseEnv} (h : env.Named st fs p)
    (ha : Admitted (getAbsolutePath st p)) (hm : Admitted (getMetadataPath st p))
    (hl : fs.readlink (getAbsolutePath st p) = none) : env.SsdOk where
  lstat := h.lstat.trans (nameFault_eq_none_iff.2 ha)
  unlinkMetadata := h.unlinkMetadata.trans (nameFault_eq_none_iff.2 hm)
  fopen := h.fopen.trans ((walkFault_of_not_link hl).trans (nameFault_eq_none_iff.2 ha))
  openMetadata := h.openMetadata.trans (nameFault_eq_none_iff.2 hm)
  writeMetadata := h.writeMetadata
  unlink := h.unlink.trans (nameFault_eq_none_iff.2 ha)
  symlink := h.symlink.trans (linkFault_of_admitted hm ha)

/-! ## Where the metadata is -/

theorem isSome_look (fs : Fs) (x : Name) : (fs.look x).isSome = (fs.dirent x).isSome :=
  Option.isSome_map ..

namespace MetadataThere

/-- It depends on the key of the path alone. -/
theorem of_key (hm : MetadataThere st w p) (hk : getKey p = getKey q) : MetadataThere st w q := by
  have hM : getMetadataPath st p = getMetadataPath st q := getMetadataPath_inj.2 hk
  obtain ⟨h1, h2⟩ := hm
  rw [hM, hk] at h1
  rw [hM] at h2
  exact ⟨h1, h2⟩

theorem congr (hm : MetadataThere st w p)
    (hd : (w'.ssd.look (getMetadataPath st p)).isSome
      = (w.ssd.look (getMetadataPath st p)).isSome)
    (hb : w'.bucket (getKey p) = w.bucket (getKey p)) : MetadataThere st w' p :=
  ⟨by rw [hd, hb]; exact hm.stored, by rw [hd]; exact hm.admitted⟩

/-- A path without an object needs no metadata. -/
theorem of_forgotten (hm : MetadataThere st w p) (hb : w'.bucket (getKey p) = none)
    (hd : (w'.ssd.look (getMetadataPath st p)).isSome = true →
      (w.ssd.look (getMetadataPath st p)).isSome = true) : MetadataThere st w' p :=
  ⟨fun _ hs => absurd hs (by simp [hb]), fun hs => hm.admitted (hd hs)⟩

end MetadataThere

/-- A change confined to the path itself makes and removes no metadata file. -/
theorem look_of_confined {L : Name → Name → Prop}
    (hne : getAbsolutePath st p ≠ getMetadataPath st p)
    (hc : Confined {getAbsolutePath st p} L w.ssd fs) :
    fs.look (getMetadataPath st p) = w.ssd.look (getMetadataPath st p) :=
  hc.look fun h => hne h.symm

theorem metadata_mknod (hm : MetadataThere st w p)
    (hne : getAbsolutePath st p ≠ getMetadataPath st p) (fault : Fault) (mode : UInt32) :
    MetadataThere st (cloudfsMknod st fault p mode w).1 p := by
  unfold cloudfsMknod
  split
  case h_1 => exact hm
  case h_2 ssd hd =>
    have hc := confined_mknod (L := fun _ _ => True) (Set.mem_singleton _) (eq_ok_of_disturb hd).2
    exact hm.congr (congrArg Option.isSome (look_of_confined hne hc)) rfl

theorem metadata_truncate (hm : MetadataThere st w p) (hs : Sane st w) (fault : Fault) (n : ℕ) :
    MetadataThere st (cloudfsTruncate st fault p n w).1 p := by
  unfold cloudfsTruncate
  split
  case h_1 => exact hm
  case h_2 ssd hd =>
    obtain ⟨i, c, d, -, -, -, rfl⟩ :=
      (truncate_eq_ok_iff (hs.readlink_follow p)).1 (eq_ok_of_disturb hd).2
    exact hm.congr (by rw [isSome_look, isSome_look]; rfl) rfl

theorem metadata_utimens (hm : MetadataThere st w p) (fault : Fault) (atim mtim : Timespec) :
    MetadataThere st (cloudfsUtimens st fault p atim mtim w).1 p := by
  unfold cloudfsUtimens
  split
  case h_1 => exact hm
  case h_2 ssd hd =>
    obtain ⟨i, -, rfl⟩ := utimens_eq_ok (eq_ok_of_disturb hd).2
    exact hm.congr (by rw [isSome_look, isSome_look]; rfl) rfl

theorem metadata_write (hm : MetadataThere st w p) (fault : Fault) (h : Handle) (f : FuseFile)
    (buf : Bytes) (offset : ℕ) :
    MetadataThere st (cloudfsWrite fault h f buf offset w).1 p := by
  have hb : (w.marked h f).bucket = w.bucket := (editsOnly_marked (i := 0) w h f).bucket
  rcases cloudfsWrite_cases fault h f buf offset w with ⟨e, -, hw⟩ | ⟨ssd, hd, hw⟩
  · rw [hw]
    exact hm.congr (by rw [ssd_marked]) (congrFun hb _)
  · obtain ⟨-, c, d, -, -, rfl⟩ := pwrite_eq_ok_iff.1 (eq_ok_of_disturb hd).2
    rw [hw]
    refine hm.congr ?_ (congrFun hb _)
    rw [isSome_look, isSome_look, dirent_setContent, ssd_marked]

/-- An unlink that finds the metadata file deletes the object. -/
theorem metadata_unlink (hm : MetadataThere st w p)
    (hne : getAbsolutePath st p ≠ getMetadataPath st p) {env : UnlinkEnv}
    (hdel : env.delete = .served) : MetadataThere st (serve st w (.unlink p env)).1 p := by
  have hlook : (w.withdrawn st env p).ssd.look (getMetadataPath st p) = _ := look_metadata_withdrawn
  have hbucket : (w.withdrawn st env p).bucket (getKey p) = _ := bucket_withdrawn
  have hwithdrawn : MetadataThere st (w.withdrawn st env p) p := by
    by_cases hf : env.Finds st p w
    · refine hm.of_forgotten ?_ fun h => ?_
      · rw [hbucket, if_pos ⟨hf, by rw [hdel]; rfl⟩]
      · rw [hlook] at h
        split at h
        · exact absurd h (by simp)
        · exact h
    · rw [if_neg fun h => hf h.1] at hlook hbucket
      exact hm.congr (by rw [hlook]) hbucket
  rcases serve_unlink_cases env w hne with ⟨-, hr⟩ | ⟨-, e, hr⟩
  · rw [hr]
    exact hwithdrawn.congr (by rw [look_remove_of_ne hne.symm]) rfl
  · rw [hr]
    exact hwithdrawn

/-- An open whose calls fail by the length of the path alone leaves the metadata file alone. -/
theorem metadata_open (hm : MetadataThere st w p)
    (hne : getAbsolutePath st p ≠ getMetadataPath st p) {env : OpenEnv} (henv : env.Named st p)
    (flags : OpenFlags) : MetadataThere st (serve st w (.openFile p flags env)).1 p := by
  by_cases ha : Admitted (getAbsolutePath st p)
  · rw [serve_open (henv.ssdOk ha)]
    exact hm.congr (congrArg Option.isSome (look_create_of_ne hne.symm)) rfl
  · have hf : nameFault (getAbsolutePath st p) = some .ENAMETOOLONG := if_neg ha
    have hr : (serve st w (.openFile p flags env)).1.ssd = w.ssd ∧
        (serve st w (.openFile p flags env)).1.bucket = w.bucket := by
      simp [serve, cloudfsOpen, s3CloudfsGet, henv.unlink, henv.fopen, hf, Except.toOption]
    exact hm.congr (by rw [hr.1]) (by rw [hr.2])

theorem look_metadata_makeProxy (hne : getAbsolutePath st p ≠ getMetadataPath st p)
    (env : ReleaseEnv) (w : World) :
    (makeProxy st env p w).1.ssd.look (getMetadataPath st p)
      = w.ssd.look (getMetadataPath st p) := by
  unfold makeProxy
  dsimp only
  split
  case h_1 => rfl
  case h_2 ssd hd =>
    have h1 := look_of_confined hne
      (confined_unlink (L := fun _ _ => True) (Set.mem_singleton _) (eq_ok_of_disturb hd).2)
    split
    case h_1 => exact h1
    case h_2 ssd' hd' =>
      have h2 := look_of_confined (w := { w with ssd := ssd }) hne
        (confined_symlink (L := fun _ _ => True) (Set.mem_singleton _) trivial
          (eq_ok_of_disturb hd').2)
      exact h2.trans h1

/-- **An upload** leaves the metadata file where the SSD admits it. -/
theorem metadata_flushAndLink (hm : MetadataThere st w p)
    (hne : getAbsolutePath st p ≠ getMetadataPath st p)
    (hl : w.ssd.readlink (getMetadataPath st p) = none)
    {i : Ino} (hd : w.ssd.dirent (getAbsolutePath st p) = some i) {env : ReleaseEnv}
    (henv : env.openMetadata = nameFault (getMetadataPath st p)) (stbuf : Stat) :
    MetadataThere st (flushAndLink st env p stbuf w).1 p := by
  have hssd := ssd_flushAndLink hne hl hd env stbuf
  by_cases ha : Admitted (getMetadataPath st p)
  · obtain ⟨n, hn, -⟩ := look_metadata_uploadLeaves hne env stbuf w.ssd
      (henv.trans (nameFault_eq_none_iff.2 ha))
    refine ⟨fun _ _ => ?_, fun _ => ha⟩
    rw [hssd, hn]
    rfl
  · have ho : env.openMetadata ≠ none := fun h => ha (nameFault_eq_none_iff.1 (henv ▸ h))
    have hsame : (flushAndLink st env p stbuf w).1.ssd = w.ssd := by
      rw [hssd, uploadLeaves, if_pos ho]
    exact ⟨fun h => absurd h ha, fun h => absurd (hm.admitted (hsame ▸ h)) ha⟩

/-- A file that stays local gives up its object with its metadata. -/
theorem metadata_keepLocal (hm : MetadataThere st w p) {env : ReleaseEnv}
    (hdel : env.delete = .served) : MetadataThere st (keepLocal st env p w) p := by
  refine hm.of_forgotten ?_ fun h => ?_
  · exact (cloudDeleteObject_self env.delete).trans (by rw [hdel]; rfl)
  · cases hu : env.unlinkMetadata with
    | none =>
      have hr : (keepLocal st env p w).ssd = w.ssd.remove (getMetadataPath st p) := by
        simp [keepLocal, s3Delete, hu]
      rw [hr, isSome_look, dirent_remove_self] at h
      exact absurd h (by simp)
    | some e => simpa [keepLocal, s3Delete, hu, Except.toOption] using h

/-- What `lstat` finds is there. -/
theorem dirent_of_lstat {x : Name} {stbuf : Stat} (h : fs.lstat x = .ok stbuf) :
    ∃ i, fs.dirent x = some i := by
  cases hd : fs.dirent x with
  | some i => exact ⟨i, rfl⟩
  | none => simp [lstat, look_eq_none_iff.2 hd] at h

/-- **A release**, whichever way it goes. -/
theorem metadata_release (hm : MetadataThere st w f.path)
    (hne : getAbsolutePath st f.path ≠ getMetadataPath st f.path)
    (hl : w.ssd.readlink (getMetadataPath st f.path) = none) {env : ReleaseEnv}
    (hdel : env.delete = .served) (henv : env.openMetadata = nameFault (getMetadataPath st f.path)) :
    MetadataThere st (releaseFile st env f w).1 f.path := by
  unfold releaseFile
  split
  case h_1 => exact hm
  case h_2 stbuf hst =>
    obtain ⟨i, hd⟩ := dirent_of_lstat (eq_ok_of_disturb hst).2
    have hflush := metadata_flushAndLink hm hne hl hd henv stbuf
    split
    · split
      · split
        · exact metadata_keepLocal hm hdel
        · exact hflush
      · exact hm.congr (by rw [look_metadata_makeProxy hne]) (congrFun (bucket_makeProxy env) _)
    · split
      · exact hflush
      · exact hm

/-- What a request about a path leaves of its metadata file. -/
theorem metadata_target (hs : Sane st w) (hp : Outside st p) {r : Req} (ht : r.target w = some p)
    (hn : r.Named st w) (hm : MetadataThere st w p) : MetadataThere st (serve st w r).1 p := by
  have hne := hp.absolute_ne_metadata p
  have hfile : ∀ h op, (w.files.get h).map FuseFile.path = some p →
      (∀ f, w.files.get h = some f → f.path = p → MetadataThere st (op f).1 p) →
      MetadataThere st (onFile w h op).1 p := by
    intro h op hh hop
    obtain ⟨f, hf, hfp⟩ := Option.map_eq_some_iff.1 hh
    rw [onFile, hf]
    exact hop f hf hfp
  cases r with
  | mknod path mode fault =>
    obtain rfl := Option.some.inj ht
    exact metadata_mknod hm hne fault mode
  | truncate path n fault =>
    obtain rfl := Option.some.inj ht
    exact metadata_truncate hm hs fault n
  | utimens path atim mtim fault =>
    obtain rfl := Option.some.inj ht
    exact metadata_utimens hm fault atim mtim
  | getattr path env => exact hm
  | unlink path env =>
    obtain rfl := Option.some.inj ht
    exact metadata_unlink hm hne hn.delete
  | openFile path flags env =>
    obtain rfl := Option.some.inj ht
    exact metadata_open hm hne hn flags
  | read h size offset fault => exact hfile h _ ht fun _ _ _ => hm
  | write h buf offset fault =>
    exact hfile h _ ht fun f _ _ => metadata_write hm fault h f buf offset
  | fgetattr h fault => exact hfile h _ ht fun _ _ _ => hm
  | ftruncate h off => exact hfile h _ ht fun _ _ _ => hm
  | release h env =>
    refine hfile h _ ht fun f hf hfp => ?_
    subst hfp
    have henv := hn f hf
    exact (metadata_release hm hne (hs.readlink_metadata _) henv.delete henv.openMetadata).congr
      rfl rfl
  | remount => exact absurd ht (by simp [Req.target])
  | tick now => exact absurd ht (by simp [Req.target])

/-- A request that is about no path leaves every name and every object as it was. -/
theorem sameAt_of_no_target {r : Req} (ht : r.target w = none) :
    SameAt st p w (serve st w r).1 := by
  cases r with
  | remount => exact ⟨rfl, rfl, rfl⟩
  | tick now => exact ⟨rfl, rfl, rfl⟩
  | mknod | truncate | utimens | getattr | unlink | openFile =>
    exact absurd ht (by simp [Req.target])
  | read h | write h | fgetattr h | ftruncate h | release h =>
    have hn : w.files.get h = none := Option.map_eq_none_iff.1 ht
    rw [serve, onFile_of_none hn]
    exact ⟨rfl, rfl, rfl⟩

/-- **Requests that fail by names alone** keep every metadata file where it should be. -/
theorem metadata_serve (hs : Sane st w) {r : Req} (hr : r.Proper st w) (hn : r.Named st w)
    (hm : ∀ q, Outside st q → MetadataThere st w q) (hq : Outside st q) :
    MetadataThere st (serve st w r).1 q := by
  cases ht : r.target w with
  | none =>
    have hsame : SameAt st q w (serve st w r).1 := sameAt_of_no_target ht
    exact (hm q hq).congr (by rw [hsame.metadata]) hsame.object
  | some p =>
    have hp := hr p ht
    by_cases hk : getKey p = getKey q
    · exact (metadata_target hs hp ht hn (hm p hp)).of_key hk
    · have hsame := (touches_serve hs ht).sameAt hp hq hk
      exact (hm q hq).congr (by rw [hsame.metadata]) hsame.object

/-- **In every state reached so, metadata files are where they should be.** -/
theorem ReachedByNames.metadata (hw : ReachedByNames st w) :
    Sane st w ∧ ∀ q, Outside st q → MetadataThere st w q := by
  obtain ⟨umask, clock, rs, hl, rfl⟩ := hw
  refine Machine.invariant_run (I := fun w => Sane st w ∧ ∀ q, Outside st q → MetadataThere st w q)
    (fun w r hw hr => ?_) rs _ ⟨sane_init st umask clock, fun q _ => ⟨fun _ hb => ?_, fun hl => ?_⟩⟩
    hl
  · exact ⟨sane_serve hw.1 hr.2, fun q hq => metadata_serve hw.1 hr.2 hr.1 hw.2 hq⟩
  · exact absurd hb (by simp [World.init])
  · exact absurd hl (by simp [World.init, Mount.init, Fs.empty, look])

end CloudFS
