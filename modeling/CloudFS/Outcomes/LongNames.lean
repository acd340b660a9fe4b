import CloudFS.Outcomes.NameLimits

/-!
# Outcomes/LongNames — paths whose derived names are too long

The key of a path is the whole path in one component, so a path the SSD admits may have a metadata
file it does not admit and a key no lock request carries.  Where nothing else fails, a session that
leaves more than the threshold leaves a proxy that a later unlink finds exactly when the whole path
fits into one component and the metadata file is no longer than a path may be (`names_serve_iff`);
otherwise its release fails after the upload (`named_release_refused`).
-/

namespace CloudFS

open Posix Posix.Fs

/-! ## What the derived names are for -/

/-- Requests about paths of other keys. -/
def Elsewhere (st : CloudfsState) (p : Name) (w : World) (rs : List Req) : Prop :=
  Machine.Legal (serve st) (fun v r => r.Proper st v ∧ ∀ q ∈ r.target v, getKey q ≠ getKey p) w rs

/-- **The derived names serve a session**: its lock requests can be encoded, its release succeeds
and leaves a link to a metadata file that is there, and a later unlink of the path finds that file
and deletes the object. -/
structure NamesServe (st : CloudfsState) (w : World) (p : Name) (s : Session) : Prop where
  lock : ∀ (l : LockClient) operation, xdrLockParams (l.params p operation) = true
  released : (serve st (Machine.run (serve st) w (s.edits p w.files.next)).1
    (.release w.files.next s.closing)).2 = .done
  link : entry st (Machine.run (serve st) w (s.reqs p w.files.next)).1 p
    = some (.lnk (getMetadataPath st p))
  metadata : ((Machine.run (serve st) w (s.reqs p w.files.next)).1.ssd.look
    (getMetadataPath st p)).isSome = true
  unlinks : ∀ rs, Elsewhere st p (Machine.run (serve st) w (s.reqs p w.files.next)).1 rs →
    ∀ v, (Machine.run (serve st) (Machine.run (serve st) w (s.reqs p w.files.next)).1 rs).1 = v →
    ∀ env : UnlinkEnv, env.Named st p → env.Finds st p v ∧ (v.bucket (getKey p)).isSome = true ∧
      (serve st v (.unlink p env)).2 = .done ∧
      (serve st v (.unlink p env)).1.bucket (getKey p) = none

variable {st : CloudfsState} {w v : World} {p : Name}

/-- Requests about paths of other keys cannot be seen at the path. -/
theorem sameAt_elsewhere (hs : Sane st w) (hp : Outside st p) {rs : List Req}
    (hl : Elsewhere st p w rs) :
    Sane st (Machine.run (serve st) w rs).1 ∧ SameAt st p w (Machine.run (serve st) w rs).1 := by
  refine Machine.invariant_run (I := fun v => Sane st v ∧ SameAt st p w v)
    (fun v r hv hr => ?_) rs w ⟨hs, rfl, rfl, rfl⟩ hl
  have hstep : SameAt st p v (serve st v r).1 := by
    cases ht : r.target v with
    | none => exact sameAt_of_no_target ht
    | some q => exact (touches_serve hv.1 ht).sameAt (hr.1 q ht) hp (hr.2 q ht)
  exact ⟨sane_serve hv.1 hr.1, hstep.file.trans hv.2.file, hstep.metadata.trans hv.2.metadata,
    hstep.object.trans hv.2.object⟩

/-- **An unlink of a proxy with its metadata** finds the metadata and deletes the object. -/
theorem unlink_finds (hs : Sane st w) (hp : Outside st p)
    (ha : Admitted (getAbsolutePath st p)) (hM : Admitted (getMetadataPath st p))
    (he : (entry st w p).isSome = true)
    (hm : (w.ssd.look (getMetadataPath st p)).isSome = true) {env : UnlinkEnv}
    (henv : env.Named st p) :
    env.Finds st p w ∧ (serve st w (.unlink p env)).2 = .done ∧
      (serve st w (.unlink p env)).1.bucket (getKey p) = none := by
  have hok := henv.ssdOk ha hM
  have hl := hs.readlink_metadata p
  rw [entry, Option.isSome_map, isSome_look] at he
  rw [isSome_look] at hm
  obtain ⟨i, hd⟩ := Option.isSome_iff_exists.1 he
  have hr := cloudfsUnlink_eq hok hp hd hl
  refine ⟨⟨hok.access, (accessible_of_not_link hl).trans hm⟩, ?_, ?_⟩
  · simp only [serve, hr, Reply.ofUnit]
  · simp only [serve, hr, hm, if_true, henv.delete, cloudDeleteObject_self]
    rfl

/-- A session that fails by names alone, on a path the SSD admits, before its release: its open did
not fail, and its release fails by names alone. -/
theorem named_before_release (hs : Sane st w) (hp : Outside st p)
    (ha : Admitted (getAbsolutePath st p)) {s : Session}
    (hl : Machine.Legal (serve st) (fun w r => r.Named st w) w (s.reqs p w.files.next)) :
    ∃ v f, Holds v w.files.next f (s.left (stored w p)) ∧ Owns st v f ∧ Sane st v ∧
      s.closing.Named st v.ssd p ∧ f.path = p ∧
      v.bucket = w.bucket ∧ v.ssd.look (getMetadataPath st p) = w.ssd.look (getMetadataPath st p) ∧
      f.fh.proxy = (w.bucket (getKey p)).isSome ∧
      f.fh.dirty = ((w.bucket (getKey p)).isSome && s.writes) ∧
      v = (Machine.run (serve st) w (s.edits p w.files.next)).1 := by
  obtain ⟨⟨hopen, -⟩, hclose, -⟩ := Machine.legal_append.1 hl
  have hok := OpenEnv.Named.ssdOk hopen ha
  obtain ⟨v, f, hh, ho, -, he, hfp, -, hx, hd, hv⟩ :=
    session_before_release (hs.apart hp) hok hopen.get
  obtain ⟨-, -, hsane, -⟩ := session_edits hs hp hok
  rw [← hv] at hsane hclose
  have hnamed := hclose f hh.live
  rw [hfp] at hnamed
  exact ⟨v, f, hh, ho, hsane, hnamed, hfp, he.bucket, (hs.apart hp).look_metadata he, hx, hd, hv⟩

/-- **Where both names are admitted**, nothing fails. -/
theorem calm_of_named (hs : Sane st w) (hp : Outside st p) (ha : Admitted (getAbsolutePath st p))
    (hM : Admitted (getMetadataPath st p)) {s : Session}
    (hl : Machine.Legal (serve st) (fun w r => r.Named st w) w (s.reqs p w.files.next)) :
    s.Calm := by
  obtain ⟨v, f, hh, ho, -, hnamed, hfp, -⟩ := named_before_release hs hp ha hl
  have hnl := readlink_of_reg (look_of_dirent ho) hh.node
  rw [hfp] at hnl
  obtain ⟨⟨hopen, hacts⟩, -⟩ := Machine.legal_append.1 hl
  refine ⟨⟨OpenEnv.Named.ssdOk hopen ha, fun a ha' => ?_, hnamed.ssdOk ha hM hnl⟩, hopen.get,
    hnamed.put, hnamed.delete⟩
  have hreq := Machine.legal_forall (P := fun r => ∀ b k, r = Act.req k b → b.SsdOk)
    (fun v r hr b k hb => by subst hb; cases b <;> exact hr) hacts
  exact hreq _ (List.mem_map_of_mem ha') a _ rfl

/-- **The release of a session that leaves more than the threshold** then succeeds, and leaves the
path a link, its metadata file and its object there. -/
theorem named_release (hs : Sane st w) (hp : Outside st p) (ha : Admitted (getAbsolutePath st p))
    (hM : Admitted (getMetadataPath st p)) (hm : MetadataThere st w p) {s : Session}
    (hl : Machine.Legal (serve st) (fun w r => r.Named st w) w (s.reqs p w.files.next))
    (hleft : st.threshold < (s.left (stored w p)).size) :
    let v := (Machine.run (serve st) w (s.edits p w.files.next)).1
    let w' := (Machine.run (serve st) w (s.reqs p w.files.next)).1
    (serve st v (.release w.files.next s.closing)).2 = .done ∧ Sane st w' ∧
      entry st w' p = some (.lnk (getMetadataPath st p)) ∧
      (w'.ssd.look (getMetadataPath st p)).isSome = true ∧
      (w'.bucket (getKey p)).isSome = true := by
  have hc := calm_of_named hs hp ha hM hl
  obtain ⟨v, f, hh, ho, hsane, -, -, -, -, -, -, hv⟩ := named_before_release hs hp ha hl
  have hdone := serve_release hsane hh ho hc.closing
  rw [hv] at hdone
  refine ⟨congrArg Prod.snd hdone, sane_run hs hp (legal_session hs hp hc), ?_⟩
  by_cases hr : (w.bucket (getKey p)).isSome = true ∧ s.writes = false
  · obtain ⟨h1, h2, h3⟩ := session_reads (hs.apart hp) hc hr.1 hr.2
    exact ⟨h1, by rw [h2]; exact hm.stored hM hr.1, by rw [h3]; exact hr.1⟩
  · obtain ⟨h1, ⟨n, h2, -⟩, -, h3⟩ := session_uploads (hs.apart hp) hc hr hleft
    exact ⟨h1, by rw [h2]; rfl, by rw [h3]; rfl⟩

/-- **The derived names of a path the SSD admits serve its sessions exactly when** the whole path
fits into one component and the metadata directory leaves room for it. -/
theorem names_serve_iff (hw : ReachedByNames st w) (hp : Outside st p)
    (ha : Admitted (getAbsolutePath st p)) {s : Session}
    (hl : Machine.Legal (serve st) (fun w r => r.Named st w) w (s.reqs p w.files.next))
    (hleft : st.threshold < (s.left (stored w p)).size) :
    NamesServe st w p s ↔
      p.length ≤ NAME_MAX ∧ st.metadataPath.length + 1 + p.length < PATH_MAX ∧
        ∀ c ∈ st.metadataPath.splitOn '/', c.length ≤ NAME_MAX := by
  obtain ⟨hs, hm⟩ := hw.metadata
  rw [← admitted_metadata_iff]
  constructor
  · intro h
    obtain ⟨v, f, hh, ho, hsane, hnamed, hfp, hb, hlook, -, -, hv⟩ :=
      named_before_release hs hp ha hl
    have hmv : MetadataThere st v p := (hm p hp).congr (by rw [hlook]) (congrFun hb _)
    have hmeta := h.metadata
    rw [run_session, ← hv] at hmeta
    refine
      (metadata_target hsane hp (r := .release w.files.next s.closing) ?_ ?_ hmv).admitted hmeta
    · rw [Req.target, hh.live, Option.map_some, hfp]
    · intro g hg
      obtain rfl := Option.some.inj (hh.live.symm.trans hg)
      rwa [hfp]
  · intro hM
    obtain ⟨h1, h2, h3, h4, h5⟩ := named_release hs hp ha hM (hm p hp) hl hleft
    have hkey : (getKey p).length ≤ MAXNAMELEN := by
      rw [getKey, List.length_map]
      exact (admitted_metadata_iff.1 hM).1
    refine ⟨fun l operation => decide_eq_true hkey, h1, h3, h4, fun rs hrs v hv env henv => ?_⟩
    obtain ⟨g1, g2⟩ := sameAt_elsewhere h2 hp hrs
    rw [hv] at g1 g2
    obtain ⟨k1, k2, k3⟩ := unlink_finds g1 hp ha hM
      (by rw [entry, g2.file, ← entry, h3]; rfl) (by rw [g2.metadata]; exact h4) henv
    exact ⟨k1, by rw [g2.object]; exact h5, k2, k3⟩

/-! ## Names that are refused -/

/-- An open that fails by names alone. -/
def OpenEnv.byNames (st : CloudfsState) (p : Name) : OpenEnv where
  acquire _ := if xdrKeyname (getKey p) then .answered .OK else .failed
  unlink := nameFault (getAbsolutePath st p)
  get := ⟨nameFault (getAbsolutePath st p), .served, none⟩
  openFile := nameFault (getAbsolutePath st p)

/-- A release of a file that fails by names alone. -/
def ReleaseEnv.byNames (st : CloudfsState) (p : Name) : ReleaseEnv where
  lstat := nameFault (getAbsolutePath st p)
  delete := .served
  unlinkMetadata := nameFault (getMetadataPath st p)
  put := ⟨nameFault (getAbsolutePath st p), .served⟩
  openMetadata := nameFault (getMetadataPath st p)
  writeMetadata := none
  unlink := nameFault (getAbsolutePath st p)
  symlink := linkFault (getMetadataPath st p) (getAbsolutePath st p)
  release _ := if xdrKeyname (getKey p) then .answered .OK else .failed

/-- A session that fails by names alone. -/
def Session.byNames (st : CloudfsState) (p : Name) (flags : OpenFlags) (acts : List Act) :
    Session := ⟨flags, .byNames st p, acts, .byNames st p⟩

/-- Every path the SSD admits has such sessions. -/
theorem legal_byNames (st : CloudfsState) (w : World) (ha : Admitted (getAbsolutePath st p))
    (flags : OpenFlags) {acts : List Act} (hacts : ∀ a ∈ acts, a.SsdOk) :
    Machine.Legal (serve st) (fun w r => r.Named st w) w
      ((Session.byNames st p flags acts).reqs p w.files.next) := by
  have hrpc : xdrKeyname (getKey p) = false → ∀ _ : ℕ,
      (if xdrKeyname (getKey p) then RpcAnswer.answered .OK else .failed) = .failed :=
    fun hk _ => if_neg (by simp [hk])
  have hopen : (OpenEnv.byNames st p).Named st p := ⟨hrpc, rfl, rfl, rfl, rfl, rfl⟩
  obtain ⟨hh, ho, -⟩ := session_holds st w p (s := .byNames st p flags acts) (hopen.ssdOk ha)
  refine Machine.legal_append.2 ⟨⟨hopen, Machine.legal_of_forall (fun r hr => ?_) _⟩, ?_, trivial⟩
  · obtain ⟨a, ha, rfl⟩ := List.mem_map.1 hr
    have hok := hacts a ha
    intro v
    cases a <;> exact hok
  · intro f hf
    obtain rfl := Option.some.inj (hh.live.symm.trans hf)
    have hnl := readlink_of_reg (look_of_dirent ho) hh.node
    exact ⟨rfl, rfl, rfl, (walkFault_of_not_link hnl).symm, rfl, rfl, rfl, rfl, rfl, hrpc⟩

/-- **Where the metadata file is not admitted**, the release that uploads the path fails after its
upload, and the path stays a file. -/
theorem named_release_refused (hs : Sane st w) (hp : Outside st p)
    (ha : Admitted (getAbsolutePath st p)) (hM : ¬ Admitted (getMetadataPath st p)) {s : Session}
    (hl : Machine.Legal (serve st) (fun w r => r.Named st w) w (s.reqs p w.files.next))
    (hleft : st.threshold < (s.left (stored w p)).size)
    (hnew : (w.bucket (getKey p)).isSome = true → s.writes = true) :
    let v := (Machine.run (serve st) w (s.edits p w.files.next)).1
    let r := serve st v (.release w.files.next s.closing)
    r.2 = .fail (.errno .ENAMETOOLONG) ∧ entry st r.1 p = some (.reg (s.left (stored w p))) ∧
      r.1.bucket (getKey p) = some (s.left (stored w p)) := by
  obtain ⟨v, f, hh, ho, hsane, hnamed, hfp, hb, hlook, hx, hd, hv⟩ :=
    named_before_release hs hp ha hl
  rw [← hv]
  subst hfp
  have hnl := readlink_of_reg (look_of_dirent ho) hh.node
  have hlstat := hnamed.lstat.trans (nameFault_eq_none_iff.2 ha)
  have hfopen := hnamed.fopen.trans ((walkFault_of_not_link hnl).trans (nameFault_eq_none_iff.2 ha))
  have hopen : s.closing.openMetadata = some .ENAMETOOLONG := hnamed.openMetadata.trans (if_neg hM)
  have hclean : ¬ (f.fh.proxy = true ∧ ¬ f.fh.dirty = true) := by
    rintro ⟨h1, h2⟩
    have hobj := hx.symm.trans h1
    exact h2 (by rw [hd, hobj, hnew hobj]; rfl)
  have hput := s3CloudfsPut_eq hfopen ho hh.node
  have hr : releaseFile st s.closing f v = ((s3CloudfsPut st s.closing.put f.path v).1,
      .error .ENAMETOOLONG) := by
    rw [releaseFile_of_owns hh ho hlstat, if_neg hclean, if_pos hleft]
    simp only [flushAndLink, flushToCloud, hopen, disturb_some]
  rw [hput] at hr
  simp only [serve, onFile, hh.live, cloudfsRelease_eq hr, Reply.ofUnit, true_and]
  refine ⟨?_, ?_⟩
  · change (v.ssd.look _).map Inode.node = _
    rw [look_of_dirent ho, Option.map_some, hh.node]
  · rw [hnamed.put, cloudPutObject_self]
    rfl

/-- There a later unlink does not find the metadata, and leaves the object. -/
theorem unlink_misses (hp : Outside st p) (hM : ¬ Admitted (getMetadataPath st p))
    {env : UnlinkEnv} (henv : env.Named st p) :
    (serve st w (.unlink p env)).1.bucket (getKey p) = w.bucket (getKey p) := by
  have hf : ¬ env.Finds st p w := fun h => hM (nameFault_eq_none_iff.1 (henv.access ▸ h.1))
  have hb : (w.withdrawn st env p).bucket (getKey p) = _ := bucket_withdrawn
  rw [if_neg fun h => hf h.1] at hb
  rcases serve_unlink_cases env w (hp.absolute_ne_metadata p) with ⟨-, hr⟩ | ⟨-, e, hr⟩
  · rw [hr]
    exact hb
  · rw [hr]
    exact hb

/-! ### A path of two long components -/

/-- A path made on an empty mount is reached so. -/
theorem reachedByNames_mknod (hp : Outside st p) (ha : Admitted (getAbsolutePath st p))
    (mode : UInt32) :
    ReachedByNames st (serve st (World.init (Fs.empty 0 ⟨0, 0⟩)) (.mknod p mode none)).1 := by
  refine ⟨0, ⟨0, 0⟩, [.mknod p mode none], ⟨⟨(nameFault_eq_none_iff.2 ha).symm, ?_⟩, trivial⟩, rfl⟩
  rintro q hq
  obtain rfl := Option.some.inj hq
  exact hp

/-- A path of two components of 130 bytes. -/
def deepPath : Name := '/' :: List.replicate 130 'a' ++ '/' :: List.replicate 130 'b'

/-- That path made on an empty mount of threshold 0. -/
def deepFile : World :=
  (serve (.sample 0) (World.init (Fs.empty 0 ⟨0, 0⟩)) (.mknod deepPath 0o644 none)).1

/-- A session that writes one byte, and fails by names alone. -/
def namedSession (p : Name) : Session := .byNames (.sample 0) p ⟨.rdwr, false⟩ [.write [1] 0 none]

theorem names_serve_iff_newFile :
    NamesServe (.sample 0) newFile ['/', 'a'] (namedSession ['/', 'a']) ↔
      2 ≤ NAME_MAX ∧ (CloudfsState.sample 0).metadataPath.length + 1 + 2 < PATH_MAX ∧
        ∀ c ∈ (CloudfsState.sample 0).metadataPath.splitOn '/', c.length ≤ NAME_MAX :=
  names_serve_iff (reachedByNames_mknod (by decide) (by decide) 0o644) (by decide) (by decide)
    (legal_byNames _ _ (by decide) _ (by simp [Act.SsdOk])) (by decide)

set_option maxRecDepth 4000 in
theorem admitted_deepPath : Outside (.sample 0) deepPath ∧
    Admitted (getAbsolutePath (.sample 0) deepPath) ∧
    ¬ Admitted (getMetadataPath (.sample 0) deepPath) ∧
    xdrKeyname (getKey deepPath) = false := by
  decide

/-- **The release of that path fails**, with its byte uploaded under a key no lock request carries,
and an unlink leaves the object. -/
theorem deepPath_orphans_object :
    ReachedByNames (.sample 0) deepFile ∧ Outside (.sample 0) deepPath ∧
      Admitted (getAbsolutePath (.sample 0) deepPath) ∧
      Machine.Legal (serve (.sample 0)) (fun w r => r.Named (.sample 0) w) deepFile
        ((namedSession deepPath).reqs deepPath deepFile.files.next) ∧
      (CloudfsState.sample 0).threshold
        < ((namedSession deepPath).left (stored deepFile deepPath)).size ∧
      (∀ l : LockClient, xdrLockParams (l.params deepPath .WRITE) = false) ∧
      (serve (.sample 0) (Machine.run (serve (.sample 0)) deepFile
        ((namedSession deepPath).edits deepPath deepFile.files.next)).1
          (.release deepFile.files.next (namedSession deepPath).closing)).2
            = .fail (.errno .ENAMETOOLONG) ∧
      (∀ env : UnlinkEnv, env.Named (.sample 0) deepPath →
        (serve (.sample 0) (Machine.run (serve (.sample 0)) deepFile
          ((namedSession deepPath).reqs deepPath deepFile.files.next)).1
            (.unlink deepPath env)).1.bucket (getKey deepPath) = some ⟨[1], by decide⟩) ∧
      ¬ NamesServe (.sample 0) deepFile deepPath (namedSession deepPath) := by
  obtain ⟨hp, ha, hM, hk⟩ := admitted_deepPath
  have hw : ReachedByNames (.sample 0) deepFile := reachedByNames_mknod hp ha 0o644
  have hl : Machine.Legal (serve (.sample 0)) (fun w r => r.Named (.sample 0) w) deepFile
      ((namedSession deepPath).reqs deepPath deepFile.files.next) :=
    legal_byNames _ _ ha _ (by simp [Act.SsdOk])
  have hstored : stored deepFile deepPath = Content.empty := by
    have hb : deepFile.bucket (getKey deepPath) = none := rfl
    rw [stored, hb, Option.getD_none]
  have hone : (namedSession deepPath).left (stored deepFile deepPath) = ⟨[1], by decide⟩ := by
    rw [hstored]
    rfl
  have hleft : (CloudfsState.sample 0).threshold
      < ((namedSession deepPath).left (stored deepFile deepPath)).size := by
    rw [hone]
    decide
  obtain ⟨h1, -, h3⟩ := named_release_refused hw.metadata.1 hp ha hM hl hleft fun _ => rfl
  refine ⟨hw, hp, ha, hl, hleft, fun l => hk, h1, fun env henv => ?_, fun h => ?_⟩
  · rw [unlink_misses hp hM henv, run_session]
    exact h3.trans (congrArg some hone)
  · exact Bool.false_ne_true (hk.symm.trans (h.lock LockClient.init .WRITE))

end CloudFS
