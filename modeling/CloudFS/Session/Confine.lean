import CloudFS.Client.Ops
import CloudFS.Machinery.Machine
import CloudFS.Machinery.Posix.Confined

/-!
# Session/Confine — a request keeps to the names of its path

Whatever fails and whatever the bucket answers, a request about `p` changes only the SSD names
`ssdNames st p` and the object `getKey p`, makes only the link from `p` to its metadata file, and
leaves the handles of other paths alone (`touches_serve`).  So links and handles stay sane
(`Sane`) in every reachable state (`Reachable.sane`), and a path with another key cannot tell that
the request was served.
-/

namespace CloudFS

open Posix Posix.Fs

/-- The one link `cloudfs` makes for `p`. -/
def linkOf (st : CloudfsState) (p : Name) (x t : Name) : Prop :=
  x = getAbsolutePath st p ∧ t = getMetadataPath st p

/-- The path a request is about. -/
def Req.target (w : World) : Req → Option Name
  | .mknod path _ _ => some path
  | .truncate path _ _ => some path
  | .utimens path _ _ _ => some path
  | .getattr path _ => some path
  | .unlink path _ => some path
  | .openFile path _ _ => some path
  | .read h _ _ _ => (w.files.get h).map FuseFile.path
  | .write h _ _ _ => (w.files.get h).map FuseFile.path
  | .fgetattr h _ => (w.files.get h).map FuseFile.path
  | .ftruncate h _ => (w.files.get h).map FuseFile.path
  | .release h _ => (w.files.get h).map FuseFile.path
  | .remount => none
  | .tick _ => none

/-- **Links lead from paths to their metadata files, and the inode of an open file has no name but
those of its path.** -/
structure Sane (st : CloudfsState) (w : World) : Prop where
  link : ∀ x t, w.ssd.readlink x = some t → ∃ p, Outside st p ∧ linkOf st p x t
  file : ∀ h f, w.files.get h = some f →
    Outside st f.path ∧ NamedIn (ssdNames st f.path) w.ssd f.fh.fd.ino ∧ f.fh.fd.ino < w.ssd.next

/-- A change of the SSD and the bucket that keeps to the names of `p`. -/
structure Keeps (st : CloudfsState) (p : Name) (w w' : World) : Prop where
  ssd : Confined (ssdNames st p) (linkOf st p) w.ssd w'.ssd
  bucket : ∀ k, k ≠ getKey p → w'.bucket k = w.bucket k
  files : w'.files = w.files

/-- A change that keeps to `p` in all it does: other handles stay, and a new handle of `p` is open
on a file a name of `p` leads to. -/
structure Touches (st : CloudfsState) (p : Name) (w w' : World) : Prop where
  ssd : Confined (ssdNames st p) (linkOf st p) w.ssd w'.ssd
  bucket : ∀ k, k ≠ getKey p → w'.bucket k = w.bucket k
  file : ∀ h f, f.path ≠ p → (w'.files.get h = some f ↔ w.files.get h = some f)
  own : ∀ h f, w'.files.get h = some f → f.path = p →
    (∃ g, w.files.get h = some g ∧ g.path = p ∧ g.fh.fd = f.fh.fd) ∨
      ∃ y ∈ ssdNames st p, w'.ssd.dirent y = some f.fh.fd.ino

variable {st : CloudfsState} {w w' w'' : World} {p q : Name} {h : Handle} {f : FuseFile}

/-- A request on a path outside the metadata directory. -/
def Req.Proper (st : CloudfsState) (w : World) (r : Req) : Prop :=
  ∀ p ∈ r.target w, Outside st p

instance (r : Req) : Decidable (r.Proper st w) := inferInstanceAs (Decidable (∀ _ ∈ _, _))

/-! ## Sane states -/

namespace Sane

/-- A metadata file is never a link. -/
theorem readlink_metadata (hs : Sane st w) (p : Name) :
    w.ssd.readlink (getMetadataPath st p) = none := by
  by_contra hc
  obtain ⟨t, ht⟩ := Option.ne_none_iff_exists'.1 hc
  obtain ⟨q, hq, hx, -⟩ := hs.link _ t ht
  exact hq.absolute_ne_metadata p hx.symm

/-- A path that is a link leads to its own metadata file. -/
theorem readlink_absolute (hs : Sane st w) {t : Name}
    (ht : w.ssd.readlink (getAbsolutePath st p) = some t) : t = getMetadataPath st p := by
  obtain ⟨q, -, hx, hm⟩ := hs.link _ t ht
  rw [hm, getAbsolutePath_inj.1 hx]

/-- Following links never leaves the names of a path. -/
theorem closed (hs : Sane st w) (p : Name) : Closed (ssdNames st p) w.ssd := by
  rintro x (rfl | rfl) t ht
  · exact hs.readlink_absolute ht ▸ metadata_mem_ssdNames
  · rw [hs.readlink_metadata p] at ht
    exact absurd ht (by simp)

end Sane

variable (st) in
/-- A fresh mount is sane. -/
theorem sane_init (umask : UInt32) (clock : Timespec) :
    Sane st (World.init (Fs.empty umask clock)) where
  link x t ht := by
    obtain ⟨n, hn, -⟩ := readlink_eq_some_iff.1 ht
    exact absurd hn (by simp [World.init, Mount.init, Fs.empty, look])
  file h f hf := absurd hf (by simp [World.init, Mount.init])

/-! ## Keeping to a path -/

namespace Keeps

theorem refl (w : World) : Keeps st p w w := ⟨.refl _, fun _ _ => rfl, rfl⟩

theorem trans (h : Keeps st p w w') (h' : Keeps st p w' w'') : Keeps st p w w'' :=
  ⟨h.ssd.trans h'.ssd, fun k hk => (h'.bucket k hk).trans (h.bucket k hk),
    h'.files.trans h.files⟩

theorem of_ssd {ssd : Fs} (h : Confined (ssdNames st p) (linkOf st p) w.ssd ssd) :
    Keeps st p w { w with ssd := ssd } := ⟨h, fun _ _ => rfl, rfl⟩

theorem of_bucket {b : Bucket} (h : ∀ k, k ≠ getKey p → b k = w.bucket k) :
    Keeps st p w { w with bucket := b } := ⟨.refl _, h, rfl⟩

/-- The names of `p` stay closed. -/
theorem closed (h : Keeps st p w w') (hc : Closed (ssdNames st p) w.ssd) :
    Closed (ssdNames st p) w'.ssd :=
  h.ssd.closed hc fun _ _ ht => ht.2 ▸ metadata_mem_ssdNames

theorem touches (h : Keeps st p w w') : Touches st p w w' where
  ssd := h.ssd
  bucket := h.bucket
  file _ _ _ := by rw [h.files]
  own _ f hh hp := Or.inl ⟨f, h.files ▸ hh, hp, rfl⟩

end Keeps

/-- **A change that keeps to a path outside the metadata directory keeps the state sane.** -/
theorem Touches.sane (ht : Touches st p w w') (hp : Outside st p) (hs : Sane st w) :
    Sane st w' where
  link x t hl := by
    rcases ht.ssd.link x t hl with hl' | hl'
    · exact hs.link x t hl'
    · exact ⟨p, hp, hl'⟩
  file h f hf := by
    by_cases hfp : f.path = p
    · rcases ht.own h f hf hfp with ⟨g, hg, hgp, hfd⟩ | ⟨y, hy, hd⟩
      · obtain ⟨-, hn, hlt⟩ := hs.file h g hg
        rw [hfp, ← hfd]
        exact ⟨hp, ht.ssd.namedIn hlt (hgp ▸ hn), hlt.trans_le ht.ssd.next_le⟩
      · rw [hfp]
        exact ⟨hp, namedIn_of_dirent hy hd, w'.ssd.dirent_lt hd⟩
    · obtain ⟨ho, hn, hlt⟩ := hs.file h f ((ht.file h f hfp).1 hf)
      exact ⟨ho, ht.ssd.namedIn hlt hn, hlt.trans_le ht.ssd.next_le⟩

/-! ## The operations -/

theorem keeps_disturbed {fault : Fault} {r : Except Errno Fs} {ssd : Fs}
    (h : disturb fault r = .ok ssd)
    (hc : r = .ok ssd → Confined (ssdNames st p) (linkOf st p) w.ssd ssd) :
    Keeps st p w { w with ssd := ssd } := .of_ssd (hc (eq_ok_of_disturb h).2)

/-- A removal whose failure nobody looks at. -/
theorem keeps_unlink_getD (fault : Fault) {x : Name} (hx : x ∈ ssdNames st p) :
    Keeps st p w
      { w with ssd := (disturb fault (w.ssd.unlink x)).toOption.getD w.ssd } := by
  cases hd : disturb fault (w.ssd.unlink x) with
  | error e => exact .refl w
  | ok ssd => exact keeps_disturbed hd (confined_unlink hx)

variable (st w p) in
theorem keeps_mknod (fault : Fault) (mode : UInt32) :
    Keeps st p w (cloudfsMknod st fault p mode w).1 := by
  unfold cloudfsMknod
  split
  case h_1 => exact .refl w
  case h_2 ssd hd => exact keeps_disturbed hd (confined_mknod absolute_mem_ssdNames)

theorem keeps_truncate (hc : Closed (ssdNames st p) w.ssd) (fault : Fault) (size : ℕ) :
    Keeps st p w (cloudfsTruncate st fault p size w).1 := by
  unfold cloudfsTruncate
  split
  case h_1 => exact .refl w
  case h_2 ssd hd => exact keeps_disturbed hd (confined_truncate hc absolute_mem_ssdNames)

theorem keeps_utimens (fault : Fault) (atim mtim : Timespec) :
    Keeps st p w (cloudfsUtimens st fault p atim mtim w).1 := by
  unfold cloudfsUtimens
  split
  case h_1 => exact .refl w
  case h_2 ssd hd => exact keeps_disturbed hd (confined_utimens absolute_mem_ssdNames)

theorem keeps_s3Delete (ans : DeleteAnswer) : Keeps st p w (s3Delete ans p w).1 :=
  .of_bucket fun _ hk => cloudDeleteObject_of_ne ans hk

variable (st w p) in
theorem keeps_s3CloudfsPut (env : PutEnv) : Keeps st p w (s3CloudfsPut st env p w).1 := by
  unfold s3CloudfsPut
  dsimp only
  split
  case h_1 => exact .refl w
  case h_2 => exact .of_bucket fun _ hk => cloudPutObject_of_ne _ _ hk

theorem keeps_s3CloudfsGet (hc : Closed (ssdNames st p) w.ssd) (env : GetEnv) :
    Keeps st p w (s3CloudfsGet st env p w).1 := by
  unfold s3CloudfsGet
  split
  case h_1 => exact .refl w
  case h_2 outfile ssd hd =>
    obtain ⟨h1, y, hy, hi⟩ := confined_creat hc absolute_mem_ssdNames (eq_ok_of_disturb hd).2
    exact .of_ssd (h1.trans (.setContent (namedIn_of_dirent hy hi) _))

variable (st w p) in
theorem keeps_unlink (env : UnlinkEnv) : Keeps st p w (cloudfsUnlink st env p w).1 := by
  have hforget : Keeps st p w (if env.access = none ∧ w.ssd.accessible (getMetadataPath st p) then
      { (s3Delete env.delete p w).1 with
        ssd := (disturb env.unlinkMetadata ((s3Delete env.delete p w).1.ssd.unlink
          (getMetadataPath st p))).toOption.getD (s3Delete env.delete p w).1.ssd }
      else w) := by
    split
    · exact (keeps_s3Delete env.delete).trans (keeps_unlink_getD _ metadata_mem_ssdNames)
    · exact .refl w
  unfold cloudfsUnlink
  dsimp only
  split
  case h_1 => exact hforget
  case h_2 ssd hd =>
    exact hforget.trans (keeps_disturbed hd (confined_unlink absolute_mem_ssdNames))

/-! ### `cloudfs_open` and `cloudfs_release` -/

variable (st w p) in
theorem keeps_open_remove (env : OpenEnv) (flags : OpenFlags) :
    Keeps st p w { w with
      lock := acquireLockWrapper env.acquire p flags
        { w.lock with version := w.lock.version + 1 }
      ssd := (disturb env.unlink
        (w.ssd.unlink (getAbsolutePath st p))).toOption.getD w.ssd } := by
  have hx : getAbsolutePath st p ∈ ssdNames st p := absolute_mem_ssdNames
  obtain ⟨hs, hb, -⟩ := keeps_unlink_getD (w := w) env.unlink hx
  exact ⟨hs, hb, rfl⟩

theorem touches_alloc (h : Keeps st p w w') (hp : f.path = p) {y : Name}
    (hy : y ∈ ssdNames st p) (hd : w'.ssd.dirent y = some f.fh.fd.ino) :
    Touches st p w { w' with files := w'.files.alloc f } where
  ssd := h.ssd
  bucket := h.bucket
  file k g hg := by
    rw [h.files]
    constructor
    · intro hk
      rcases Table.get_alloc_eq_some hk with ⟨-, rfl⟩ | hk'
      · exact absurd hp hg
      · exact hk'
    · intro hk
      exact (Table.get_alloc_of_ne (Table.lt_next_of_get hk).ne).trans hk
  own k g hk hg := by
    rw [h.files] at hk
    rcases Table.get_alloc_eq_some hk with ⟨-, rfl⟩ | hk'
    · exact Or.inr ⟨y, hy, hd⟩
    · exact Or.inl ⟨g, hk', hg, rfl⟩

theorem touches_open (hc : Closed (ssdNames st p) w.ssd) (env : OpenEnv) (flags : OpenFlags) :
    Touches st p w (cloudfsOpen st env p flags w).1 := by
  have h1 := keeps_open_remove st w p env flags
  have h2 := h1.trans (keeps_s3CloudfsGet (h1.closed hc) env.get)
  unfold cloudfsOpen
  dsimp only
  revert h2
  generalize s3CloudfsGet st env.get p _ = r
  obtain ⟨v, e | res⟩ := r
  · exact fun h2 => h2.touches
  · intro h2
    dsimp only at h2 ⊢
    split
    case h_1 => exact h2.touches
    case h_2 fd hd =>
      obtain ⟨y, hy, hi⟩ := mem_openAt (h2.closed hc) absolute_mem_ssdNames
        (eq_ok_of_disturb hd).2
      exact touches_alloc (f := ⟨p, flags, ⟨fd, res == 0, false⟩⟩) h2 rfl hy hi

/-- An open that fails hands out no handle. -/
theorem files_of_open_error (hc : Closed (ssdNames st p) w.ssd) {env : OpenEnv}
    {flags : OpenFlags} {e : Fail} (ho : cloudfsOpen st env p flags w = (w', .error e)) :
    w'.files = w.files := by
  have h1 := keeps_open_remove st w p env flags
  have h2 := h1.trans (keeps_s3CloudfsGet (h1.closed hc) env.get)
  unfold cloudfsOpen at ho
  dsimp only at ho
  revert h2 ho
  generalize s3CloudfsGet st env.get p _ = r
  obtain ⟨v, e' | res⟩ := r
  · intro ho h2
    obtain ⟨rfl, -⟩ := Prod.mk.inj ho
    exact h2.files
  · intro ho h2
    dsimp only at ho h2
    split at ho
    case h_1 =>
      obtain ⟨rfl, -⟩ := Prod.mk.inj ho
      exact h2.files
    case h_2 => exact absurd (Prod.mk.inj ho).2 (by simp)

theorem keeps_flushToCloud (hc : Closed (ssdNames st p) w.ssd) (env : ReleaseEnv) (stbuf : Stat) :
    Keeps st p w (flushToCloud st env p stbuf w).1 := by
  have h1 := keeps_s3CloudfsPut st w p env.put
  unfold flushToCloud
  dsimp only
  split
  case h_1 => exact h1
  case h_2 fd ssd hd =>
    obtain ⟨h2, y, hy, hi⟩ := confined_creat (h1.closed hc) metadata_mem_ssdNames
      (eq_ok_of_disturb hd).2
    have h3 := h1.trans (.of_ssd h2)
    split
    case h_1 => exact h3
    case h_2 ssd' hd' =>
      exact h3.trans (keeps_disturbed hd' (confined_pwrite (namedIn_of_dirent hy hi)))

theorem keeps_makeProxy (env : ReleaseEnv) : Keeps st p w (makeProxy st env p w).1 := by
  unfold makeProxy
  dsimp only
  split
  case h_1 => exact .refl w
  case h_2 ssd hd =>
    have h1 := keeps_disturbed (w := w) hd (confined_unlink absolute_mem_ssdNames)
    split
    case h_1 => exact h1
    case h_2 ssd' hd' =>
      exact h1.trans (keeps_disturbed hd' (confined_symlink absolute_mem_ssdNames ⟨rfl, rfl⟩))

theorem keeps_keepLocal (env : ReleaseEnv) : Keeps st p w (keepLocal st env p w) :=
  (keeps_s3Delete env.delete).trans (keeps_unlink_getD _ metadata_mem_ssdNames)

theorem keeps_flushAndLink (hc : Closed (ssdNames st p) w.ssd) (env : ReleaseEnv) (stbuf : Stat) :
    Keeps st p w (flushAndLink st env p stbuf w).1 := by
  have h1 := keeps_flushToCloud hc env stbuf
  unfold flushAndLink
  revert h1
  generalize flushToCloud st env p stbuf w = r
  obtain ⟨v, e | u⟩ := r
  · exact fun h1 => h1
  · exact fun h1 => h1.trans (keeps_makeProxy env)

theorem keeps_releaseFile (hc : Closed (ssdNames st f.path) w.ssd) (env : ReleaseEnv) :
    Keeps st f.path w (releaseFile st env f w).1 := by
  unfold releaseFile
  split
  case h_1 => exact .refl w
  case h_2 stbuf _ =>
    have hflush := keeps_flushAndLink hc env stbuf
    split
    · split
      · split
        · exact keeps_keepLocal env
        · exact hflush
      · exact keeps_makeProxy env
    · split
      · exact hflush
      · exact .refl w

theorem touches_release (hc : Closed (ssdNames st f.path) w.ssd) (hf : w.files.get h = some f)
    (env : ReleaseEnv) : Touches st f.path w (cloudfsRelease st env h f w).1 := by
  obtain ⟨hs, hb, hw⟩ := keeps_releaseFile hc env
  refine ⟨hs, hb, fun k g hg => ?_, fun k g hk hg => ?_⟩
  · rw [cloudfsRelease, hw]
    refine ⟨fun hk => (Table.get_erase_eq_some hk).2, fun hk => ?_⟩
    have hne : k ≠ h := by
      rintro rfl
      rw [hf] at hk
      exact hg (congrArg FuseFile.path (Option.some.inj hk).symm)
    exact (Table.get_erase_of_ne hne).trans hk
  · rw [cloudfsRelease, hw] at hk
    exact Or.inl ⟨g, (Table.get_erase_eq_some hk).2, hg, rfl⟩

/-! ### `cloudfs_write` -/

/-- The world whose open file `h` is marked dirty when it is a proxy. -/
def World.marked (w : World) (h : Handle) (f : FuseFile) : World :=
  if f.fh.proxy then
    { w with files := w.files.set h { f with fh := { f.fh with dirty := true } } }
  else w

variable (st) in
theorem touches_marked (hf : w.files.get h = some f) : Touches st f.path w (w.marked h f) := by
  unfold World.marked
  split
  case isFalse => exact (Keeps.refl w).touches
  case isTrue =>
    refine ⟨.refl _, fun _ _ => rfl, fun k g hg => ?_, fun k g hk hg => ?_⟩
    all_goals by_cases hkh : k = h
    · rw [hkh, Table.get_set_self hf, hf]
      refine ⟨fun he => absurd ?_ hg, fun he => absurd ?_ hg⟩
      · rw [← Option.some.inj he]
      · rw [Option.some.inj he]
    · rw [Table.get_set_of_ne hkh]
    · rw [hkh, Table.get_set_self hf] at hk
      obtain rfl := Option.some.inj hk
      exact Or.inl ⟨f, hkh ▸ hf, rfl, rfl⟩
    · rw [Table.get_set_of_ne hkh] at hk
      exact Or.inl ⟨g, hk, hg, rfl⟩

/-- What a write leaves: the file marked, and written unless the call failed. -/
theorem cloudfsWrite_cases (fault : Fault) (h : Handle) (f : FuseFile) (buf : Bytes)
    (offset : ℕ) (w : World) :
    (∃ e, disturb fault ((w.marked h f).ssd.pwrite f.fh.fd offset buf) = .error e ∧
      cloudfsWrite fault h f buf offset w = (w.marked h f, .error e)) ∨
    ∃ ssd, disturb fault ((w.marked h f).ssd.pwrite f.fh.fd offset buf) = .ok ssd ∧
      cloudfsWrite fault h f buf offset w
        = ({ w.marked h f with ssd := ssd }, .ok buf.length) := by
  cases hd : disturb fault ((w.marked h f).ssd.pwrite f.fh.fd offset buf) with
  | error e =>
    refine Or.inl ⟨e, rfl, ?_⟩
    rw [World.marked] at hd ⊢
    simp only [cloudfsWrite, hd]
  | ok ssd =>
    refine Or.inr ⟨ssd, rfl, ?_⟩
    rw [World.marked] at hd ⊢
    simp only [cloudfsWrite, hd]

theorem ssd_marked (w : World) (h : Handle) (f : FuseFile) : (w.marked h f).ssd = w.ssd := by
  unfold World.marked
  split <;> rfl

theorem touches_write (hf : w.files.get h = some f)
    (hn : NamedIn (ssdNames st f.path) w.ssd f.fh.fd.ino) (fault : Fault) (buf : Bytes)
    (offset : ℕ) : Touches st f.path w (cloudfsWrite fault h f buf offset w).1 := by
  have hm := touches_marked st hf
  rcases cloudfsWrite_cases fault h f buf offset w with ⟨e, -, hw⟩ | ⟨ssd, hd, hw⟩
  · rw [hw]
    exact hm
  · rw [hw]
    have hp := (eq_ok_of_disturb hd).2
    rw [ssd_marked] at hp
    refine ⟨confined_pwrite hn hp, hm.bucket, hm.file, fun k g hk hg => ?_⟩
    rcases hm.own k g hk hg with ho | ⟨y, hy, hd'⟩
    · exact Or.inl ho
    · obtain ⟨-, c, d, -, -, rfl⟩ := pwrite_eq_ok_iff.1 hp
      exact Or.inr ⟨y, hy, ssd_marked w h f ▸ hd'⟩

/-! ## Every request -/

/-- What is known of a request about `p` served by `onFile`. -/
theorem touches_onFile {op : FuseFile → World × Reply} {p : Name}
    (hp : (w.files.get h).map FuseFile.path = some p)
    (hop : ∀ f, w.files.get h = some f → f.path = p → Touches st p w (op f).1) :
    Touches st p w (onFile w h op).1 := by
  obtain ⟨f, hf, hfp⟩ := Option.map_eq_some_iff.1 hp
  rw [onFile, hf]
  exact hop f hf hfp

/-- **Whatever fails, a request about `p` keeps to `p`.** -/
theorem touches_serve (hs : Sane st w) {r : Req} (hr : r.target w = some p) :
    Touches st p w (serve st w r).1 := by
  have hrefl : Touches st p w w := (Keeps.refl w).touches
  cases r with
  | mknod path mode fault =>
    obtain rfl := Option.some.inj hr
    exact (keeps_mknod st w _ fault mode).touches
  | truncate path size fault =>
    obtain rfl := Option.some.inj hr
    exact (keeps_truncate (hs.closed _) fault size).touches
  | utimens path atim mtim fault =>
    obtain rfl := Option.some.inj hr
    exact (keeps_utimens fault atim mtim).touches
  | getattr path env => exact hrefl
  | unlink path env =>
    obtain rfl := Option.some.inj hr
    exact (keeps_unlink st w _ env).touches
  | openFile path flags env =>
    obtain rfl := Option.some.inj hr
    have ht := touches_open (hs.closed path) env flags
    rw [serve]
    split <;> simpa [*] using ht
  | read h size offset fault => exact touches_onFile hr fun _ _ _ => hrefl
  | write h buf offset fault =>
    refine touches_onFile hr fun f hf hfp => ?_
    subst hfp
    exact touches_write hf (hs.file h f hf).2.1 fault buf offset
  | fgetattr h fault => exact touches_onFile hr fun _ _ _ => hrefl
  | ftruncate h off => exact touches_onFile hr fun _ _ _ => hrefl
  | release h env =>
    refine touches_onFile hr fun f hf hfp => ?_
    subst hfp
    exact touches_release (hs.closed _) hf env
  | remount => exact absurd hr (by simp [Req.target])
  | tick now => exact absurd hr (by simp [Req.target])

/-- **Every request on paths outside the metadata directory keeps the state sane.** -/
theorem sane_serve (hs : Sane st w) {r : Req} (hr : r.Proper st w) :
    Sane st (serve st w r).1 := by
  cases ht : r.target w with
  | some p => exact (touches_serve hs ht).sane (hr p ht) hs
  | none =>
    cases r with
    | remount => exact ⟨hs.link, fun h f hf => absurd hf (by simp [serve, World.remount])⟩
    | tick now => exact ⟨hs.link, hs.file⟩
    | mknod | truncate | utimens | getattr | unlink | openFile =>
      exact absurd ht (by simp [Req.target])
    | read h | write h | fgetattr h | ftruncate h | release h =>
      have hn : w.files.get h = none := Option.map_eq_none_iff.1 ht
      rw [serve, onFile_of_none hn]
      exact hs

/-! ## Reachable states -/

/-- A state some run of requests leads to from a fresh mount over an empty SSD and an empty bucket,
whatever fails on the way. -/
def Reachable (st : CloudfsState) (w : World) : Prop :=
  ∃ umask clock rs,
    Machine.Legal (serve st) (fun w r => r.Proper st w) (World.init (Fs.empty umask clock)) rs ∧
    (Machine.run (serve st) (World.init (Fs.empty umask clock)) rs).1 = w

/-- **Every reachable state is sane.** -/
theorem Reachable.sane (hw : Reachable st w) : Sane st w := by
  obtain ⟨umask, clock, rs, hl, rfl⟩ := hw
  exact Machine.invariant_run (I := Sane st) (fun _ _ hs hr => sane_serve hs hr) rs _
    (sane_init st umask clock) hl

end CloudFS
