import CloudFS.Clients.Handles

/-!
# Clients/Readers — overlapping readers of a proxy

Every open removes the download other handles read from, and every release puts the link back
under handles that are still open.  A handle reads the inode it holds, which neither touches, so
over every interleaving of read-only sessions each handle holds the object (`Reading`), and the link
is there whenever the last of them is closed (`readers_harmless`).
-/

namespace CloudFS

open Posix Posix.Fs

/-- The requests of read-only sessions: opens, reads and releases. -/
def Req.OfReader : Req → Prop
  | .openFile .. | .read .. | .release .. => True
  | _ => False

/-- `p` is a proxy of content `c`: a link to its metadata file, the object being `c`. -/
structure IsProxy (st : CloudfsState) (w : World) (p : Name) (c : Content) : Prop where
  link : entry st w p = some (.lnk (getMetadataPath st p))
  metadata : (w.ssd.dirent (getMetadataPath st p)).isSome = true
  regular : w.ssd.readlink (getMetadataPath st p) = none
  object : w.bucket (getKey p) = some c

/-- **The state of a proxy of content `c` with any number of readers**: the bucket and the metadata
file are those of `w₀`, every handle holds a download, and the path is the link, or leads to
something while a handle is open. -/
structure Reading (st : CloudfsState) (p : Name) (c : Content) (w₀ w : World) : Prop where
  bucket : w.bucket = w₀.bucket
  metadata : w.ssd.look (getMetadataPath st p) = w₀.ssd.look (getMetadataPath st p)
  clean : ∀ h f, w.files.get h = some f → f.path = p → f.fh.proxy = true ∧ f.fh.dirty = false
  holds : ∀ h f, w.files.get h = some f → f.path = p → Holds w h f c
  lt : ∀ h f, w.files.get h = some f → f.path = p → f.fh.fd.ino < w.ssd.next
  path : entry st w p = some (.lnk (getMetadataPath st p)) ∨
    ¬ Idle w p ∧ ∃ i, w.ssd.dirent (getAbsolutePath st p) = some i

variable {st : CloudfsState} {w₀ w v : World} {p : Name} {c : Content} {h : Handle}
  {f : FuseFile}

/-- The path of a proxy is not its metadata file. -/
theorem IsProxy.absolute_ne_metadata (hp : IsProxy st w p c) :
    getAbsolutePath st p ≠ getMetadataPath st p := by
  intro hx
  obtain ⟨n, hn, ht⟩ := Option.map_eq_some_iff.1 hp.link
  have hr := hp.regular
  rw [← hx, readlink_of_lnk hn ht] at hr
  exact absurd hr (by simp)

/-- A proxy without handles. -/
theorem IsProxy.reading (hp : IsProxy st w p c) (hi : Idle w p) : Reading st p c w w where
  bucket := rfl
  metadata := rfl
  clean h f hf hfp := absurd hfp (hi h f hf)
  holds h f hf hfp := absurd hfp (hi h f hf)
  lt h f hf hfp := absurd hfp (hi h f hf)
  path := Or.inl hp.link

namespace Reading

/-- The path of a proxy leads to something. -/
theorem dirent (hs : Reading st p c w₀ w) : ∃ i, w.ssd.dirent (getAbsolutePath st p) = some i := by
  rcases hs.path with he | ⟨-, hd⟩
  · obtain ⟨n, hn, -⟩ := Option.map_eq_some_iff.1 he
    exact (look_eq_some_iff.1 hn).imp fun i hi => hi.1
  · exact hd

/-- Whatever another handle of `p` holds, a new entry under `p` leaves alone. -/
theorem create (hs : Reading st p c w₀ w) (hne : getAbsolutePath st p ≠ getMetadataPath st p)
    (n : Inode) :
    (w.ssd.create (getAbsolutePath st p) n).look (getMetadataPath st p)
        = w₀.ssd.look (getMetadataPath st p) ∧
      ∀ h f, w.files.get h = some f → f.path = p →
        ((w.ssd.create (getAbsolutePath st p) n).inode f.fh.fd.ino).node = .reg c ∧
          f.fh.fd.ino < (w.ssd.create (getAbsolutePath st p) n).next := by
  refine ⟨(look_create_of_ne hne.symm).trans hs.metadata, fun h f hf hfp => ⟨?_, ?_⟩⟩
  · rw [inode_create_of_lt (hs.lt h f hf hfp)]
    exact (hs.holds h f hf hfp).node
  · exact Nat.lt_succ_of_lt (hs.lt h f hf hfp)

/-- **An open** downloads the object into a file of its own. -/
theorem openFile (hs : Reading st p c w₀ w) (hne : getAbsolutePath st p ≠ getMetadataPath st p)
    (hb : w₀.bucket (getKey p) = some c) {env : OpenEnv} (henv : env.SsdOk)
    (hget : env.get.answer = .served) (flags : OpenFlags) :
    Reading st p c w₀ (serve st w (.openFile p flags env)).1 := by
  have hg : env.get.fetched w.bucket (getKey p) = (.ok, c) := by
    rw [GetEnv.fetched_of_flush henv.flush]
    simp only [hget, hs.bucket, cloudGetObject, hb]
  obtain ⟨hmeta, hold⟩ := hs.create hne (w.ssd.fresh (.reg c) (0o666 &&& ~~~w.ssd.umask))
  have hh := holds_afterOpen st env p flags w
  rw [serve_open henv]
  rw [hg] at hh
  have hssd : (afterOpen st env p flags w).ssd = w.ssd.create (getAbsolutePath st p)
      (w.ssd.fresh (.reg c) (0o666 &&& ~~~w.ssd.umask)) := by rw [afterOpen, hg]
  have hcases : ∀ {k g}, (afterOpen st env p flags w).files.get k = some g →
      (k = w.files.next ∧ g = opened env p flags w) ∨ w.files.get k = some g :=
    fun hk => Table.get_alloc_eq_some hk
  refine ⟨hs.bucket, hssd ▸ hmeta, fun k g hk hgp => ?_, fun k g hk hgp => ?_, fun k g hk hgp => ?_,
    Or.inr ⟨fun hi => hi _ _ hh.live rfl, ?_⟩⟩
  · rcases hcases hk with ⟨-, rfl⟩ | hk'
    · exact ⟨by simp [opened, hg], rfl⟩
    · exact hs.clean k g hk' hgp
  · rcases hcases hk with ⟨rfl, rfl⟩ | hk'
    · exact hh
    · exact ⟨hk, hssd ▸ (hold k g hk' hgp).1, (hs.holds k g hk' hgp).flags⟩
  · rcases hcases hk with ⟨-, rfl⟩ | hk'
    · exact Nat.lt_succ_self _
    · exact hssd ▸ (hold k g hk' hgp).2
  · exact ⟨_, owns_afterOpen st env p flags w⟩

/-- What a release serves, once its file part is known. -/
theorem serve_release (hs : Reading st p c w₀ w) (hf : w.files.get h = some f) (hfp : f.path = p)
    {env : ReleaseEnv} (henv : env.SsdOk) :
    serve st w (.release h env) = ((w.linked st p).closed env h p, .done) := by
  obtain ⟨i, hi⟩ := hs.dirent
  obtain ⟨hx, hd⟩ := hs.clean h f hf hfp
  subst hfp
  have hrel : releaseFile st env f w = (w.linked st f.path, .ok ()) := by
    simp only [releaseFile, henv.lstat, disturb_none, lstat_of_look (look_of_dirent hi), hx, hd,
      makeProxy_eq henv hi, if_true, Bool.false_eq_true, if_false]
  rw [serve, onFile, hf]
  simp only [cloudfsRelease_eq hrel]
  rfl

/-- **A release** puts the link back. -/
theorem release (hs : Reading st p c w₀ w) (hne : getAbsolutePath st p ≠ getMetadataPath st p)
    (hf : w.files.get h = some f) (hfp : f.path = p) {env : ReleaseEnv} (henv : env.SsdOk) :
    Reading st p c w₀ (serve st w (.release h env)).1 := by
  obtain ⟨hmeta, hold⟩ := hs.create hne (w.ssd.fresh (.lnk (getMetadataPath st p)) 0o777)
  rw [hs.serve_release hf hfp henv]
  have herase : ∀ {k g}, (w.files.erase h).get k = some g → w.files.get k = some g :=
    fun hk => (Table.get_erase_eq_some hk).2
  refine ⟨hs.bucket, hmeta, fun k g hk => hs.clean k g (herase hk), fun k g hk hgp => ?_,
    fun k g hk hgp => (hold k g (herase hk) hgp).2, Or.inl ?_⟩
  · exact ⟨hk, (hold k g (herase hk) hgp).1, (hs.holds k g (herase hk) hgp).flags⟩
  · exact congrArg (Option.map Inode.node) (look_create_self ..)

/-- **One request** of a reader. -/
theorem serve (hs : Reading st p c w₀ w) (hne : getAbsolutePath st p ≠ getMetadataPath st p)
    (hb : w₀.bucket (getKey p) = some c) {r : Req} (hcalm : r.Calm) (ht : r.target w = some p)
    (hr : r.OfReader) : Reading st p c w₀ (serve st w r).1 := by
  cases r with
  | openFile path flags env =>
    obtain rfl := Option.some.inj ht
    exact hs.openFile hne hb hcalm.1 hcalm.2 flags
  | read h size offset fault =>
    rw [serve_read_fst]
    exact hs
  | release h env =>
    obtain ⟨f, hf, hfp⟩ := Option.map_eq_some_iff.1 ht
    exact hs.release hne hf hfp hcalm.1
  | mknod | truncate | utimens | getattr | unlink | write | fgetattr | ftruncate | remount | tick =>
    exact hr.elim

end Reading

/-- **Overlapping readers are harmless.**  After any interleaving of the requests of read-only
sessions on a proxy: an open returns a handle, a read returns bytes of the object, a release
succeeds; the bucket and the metadata file are what they were; and if no handle is open the path is
the link again. -/
theorem readers_harmless (hp : IsProxy st w p c) (hi : Idle w p) {rs : List Req}
    (hl : Machine.Legal (serve st) (fun w r => r.Calm ∧ r.target w = some p ∧ r.OfReader) w rs) :
    let v := (Machine.run (serve st) w rs).1
    (∀ flags env, env.SsdOk → env.get.answer = .served →
        (serve st v (.openFile p flags env)).2 = .handle v.files.next) ∧
      (∀ h f, v.files.get h = some f → f.path = p → f.flags.readable = true → ∀ size offset,
        (serve st v (.read h size offset none)).2 = .data (c.bytes.slice offset size)) ∧
      (∀ h f, v.files.get h = some f → f.path = p → ∀ env, env.SsdOk →
        (serve st v (.release h env)).2 = .done) ∧
      v.bucket = w.bucket ∧
      v.ssd.look (getMetadataPath st p) = w.ssd.look (getMetadataPath st p) ∧
      (Idle v p → entry st v p = some (.lnk (getMetadataPath st p))) := by
  intro v
  have hne := hp.absolute_ne_metadata
  have hs : Reading st p c w v := Machine.invariant_run (I := Reading st p c w)
    (fun _ _ hv hr => hv.serve hne hp.object hr.1 hr.2.1 hr.2.2) rs w (hp.reading hi) hl
  refine ⟨fun flags env henv _ => by rw [serve_open henv], fun h f hf hfp hr size offset => ?_,
    fun h f hf hfp env henv => by rw [hs.serve_release hf hfp henv], hs.bucket, hs.metadata,
    fun hv => hs.path.resolve_right fun hn => hn.1 hv⟩
  have h3 := (act_serve st (hs.holds h f hf hfp) (.read size offset none)).2.2
  rwa [Act.reply, if_pos hr] at h3

/-- Two readers of an uploaded byte, the first of which has closed its handle. -/
theorem readers_harmless_two :
    let w := (Machine.run (serve (.sample 0)) oneFile
      (oneByteSession.reqs ['/', 'a'] oneFile.files.next)).1
    let v := (Machine.run (serve (.sample 0)) w [.openFile ['/', 'a'] ⟨.rdonly, false⟩ OpenEnv.calm,
      .openFile ['/', 'a'] ⟨.rdonly, false⟩ OpenEnv.calm, .release 1 ReleaseEnv.calm]).1
    (∀ flags env, env.SsdOk → env.get.answer = .served →
        (serve (.sample 0) v (.openFile ['/', 'a'] flags env)).2 = .handle v.files.next) ∧
      (∀ h f, v.files.get h = some f → f.path = ['/', 'a'] → f.flags.readable = true →
        ∀ size offset, (serve (.sample 0) v (.read h size offset none)).2
          = .data (Bytes.slice [1] offset size)) ∧
      (∀ h f, v.files.get h = some f → f.path = ['/', 'a'] → ∀ env, env.SsdOk →
        (serve (.sample 0) v (.release h env)).2 = .done) ∧
      v.bucket = w.bucket ∧
      v.ssd.look (getMetadataPath (.sample 0) ['/', 'a'])
        = w.ssd.look (getMetadataPath (.sample 0) ['/', 'a']) ∧
      (Idle v ['/', 'a'] →
        entry (.sample 0) v ['/', 'a'] = some (.lnk (getMetadataPath (.sample 0) ['/', 'a']))) := by
  intro w
  have hp : IsProxy (.sample 0) w ['/', 'a'] ⟨[1], by decide⟩ :=
    ⟨by decide, by decide, by decide, by decide⟩
  have hi : Idle w ['/', 'a'] := by decide
  exact readers_harmless hp hi ⟨⟨⟨OpenEnv.ssdOk_calm, rfl⟩, rfl, trivial⟩,
    ⟨⟨OpenEnv.ssdOk_calm, rfl⟩, rfl, trivial⟩, ⟨⟨ReleaseEnv.ssdOk_calm, rfl, rfl⟩, rfl, trivial⟩,
    trivial⟩

end CloudFS
