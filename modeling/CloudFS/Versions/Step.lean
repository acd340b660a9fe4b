import CloudFS.Clients.Shared
import CloudFS.Versions.Client

/-!
# Versions/Step — requests that nothing fails

Each request about a path, undisturbed and with a reliable bucket, does what the version store
does: an open is a copy of the object, a release uploads, deletes or leaves the object as the fate
of the draft says, and an unlink deletes the object where the metadata file tells of it.
-/

namespace CloudFS

open Posix Posix.Fs VersionStore

variable {st : CloudfsState} {w w' : World} {l l' : Client} {p q : Name} {h : Handle}
  {f : FuseFile} {d : Draft} {stored : Name → Option Content}

/-! ## Files without a handle -/

theorem Mirrors.mknod (hm : Mirrors st w l) (hb : Publishes w.bucket stored) (hp : Clean st p)
    (mode : UInt32) :
    Follows st (serve st w (.mknod p mode none)) (l.step st.threshold stored (.mknod p)) := by
  have hpres := hm.present p hp
  have ht := touches_serve hm.sane (r := .mknod p mode none) rfl
  cases hd : w.ssd.dirent (getAbsolutePath st p) with
  | some i =>
    have hl : l.present p = true := by rw [← hpres, hd]; rfl
    have hserve : serve st w (.mknod p mode none) = (w, .fail (.errno .EEXIST)) := by
      simp only [serve, cloudfsMknod, disturb_none, Fs.mknod, hd, Reply.ofUnit]
    rw [hserve, Client.step, if_pos hl]
    exact ⟨hm, hb, rfl⟩
  | none =>
    have hl : ¬ l.present p = true := by rw [← hpres, hd]; simp
    have hserve : serve st w (.mknod p mode none)
        = ({ w with
            ssd := w.ssd.create (getAbsolutePath st p)
              (w.ssd.fresh (.reg Content.empty) (mode &&& ~~~w.ssd.umask)) }, .done) := by
      simp only [serve, cloudfsMknod, disturb_none, Fs.mknod, hd, Reply.ofUnit]
    -- nothing is open on a path that has no entry
    have hidle : Idle w p := by
      intro h f hf hfp
      obtain ⟨d, -, ho⟩ := hm.live h f hf
      have hown := ho.owns
      rw [Owns, hfp, hd] at hown
      exact absurd hown (by simp)
    rw [hserve] at ht ⊢
    rw [Client.step, if_neg hl]
    refine ⟨hm.moved hp ht (hm.toShelves.moved hp ht ?_ ?_ (fun _ _ => rfl) fun q hq => ?_)
      (fun h f hf hfp => absurd hfp (hidle h f hf))
      (fun h f _ _ hf _ hfp => absurd hfp (hidle h f hf)) (fun _ _ hd _ => hd) hm.dead hm.next, hb,
      rfl⟩
    · refine (congrArg Option.isSome ?_).trans (hm.known p hp)
      exact dirent_create_of_ne (hp.toOutside.absolute_ne_metadata p).symm
    · simp [Client.enter]
    · exact Function.update_of_ne hq ..

theorem Mirrors.utimens (hm : Mirrors st w l) (hb : Publishes w.bucket stored) (hp : Clean st p)
    {atim mtim : Timespec} (ha : atim.Settable) (hmt : mtim.Settable) :
    Follows st (serve st w (.utimens p atim mtim none))
      (l.step st.threshold stored (.utimens p)) := by
  have hpres := hm.present p hp
  have ht := touches_serve hm.sane (r := .utimens p atim mtim none) rfl
  cases hd : w.ssd.dirent (getAbsolutePath st p) with
  | none =>
    have hserve : serve st w (.utimens p atim mtim none) = (w, .fail (.errno .ENOENT)) := by
      simp only [serve, cloudfsUtimens, disturb_none, Fs.utimens, ha, hmt, and_self, if_true, hd,
        Reply.ofUnit]
    have hl : l.present p = false := by rw [← hpres, hd]; rfl
    rw [hserve]
    exact ⟨hm, hb, by simp [Client.step, hl, Reply.answer]⟩
  | some i =>
    have hserve : serve st w (.utimens p atim mtim none)
        = ({ w with
            ssd := w.ssd.setInode i ((w.ssd.inode i).stamped w.ssd.clock atim mtim) }, .done) := by
      simp only [serve, cloudfsUtimens, disturb_none, Fs.utimens, ha, hmt, and_self, if_true, hd,
        Reply.ofUnit]
    have hl : l.present p = true := by rw [← hpres, hd]; rfl
    rw [hserve] at ht ⊢
    refine ⟨hm.moved hp ht (hm.toShelves.moved hp ht (hm.known p hp) hpres (fun _ _ => rfl)
      fun _ _ => rfl) (fun h f hf hfp => ?_) (hm.alone p) (fun _ _ hd _ => hd) hm.dead hm.next, hb,
      by simp [Client.step, hl, Reply.answer]⟩
    obtain ⟨d, hdr, ho⟩ := hm.live h f hf
    have hown := ho.owns
    rw [Owns, hfp, hd] at hown
    obtain rfl := Option.some.inj hown
    refine ⟨d, hdr, ho.path, ho.flags, ho.proxy, ho.dirty, ⟨hf, ?_, ho.holds.flags⟩, ho.owns⟩
    exact (congrArg Inode.node (inode_setInode_self ..)).trans ho.holds.node

/-- An unlink that nothing fails, whatever the path leads to. -/
theorem serve_unlink_calm (hs : Sane st w) (hp : Outside st p) {env : UnlinkEnv}
    (henv : env.SsdOk) :
    serve st w (.unlink p env) =
      ({ w with
          bucket := if (w.ssd.dirent (getMetadataPath st p)).isSome
            then (cloudDeleteObject env.delete w.bucket (getKey p)).2 else w.bucket
          ssd := (w.ssd.remove (getMetadataPath st p)).remove (getAbsolutePath st p) },
        if (w.ssd.dirent (getAbsolutePath st p)).isSome then .done
        else .fail (.errno .ENOENT)) := by
  have hm := hs.readlink_metadata p
  have hne := hp.absolute_ne_metadata p
  cases hd : w.ssd.dirent (getAbsolutePath st p) with
  | some i => simp only [serve, cloudfsUnlink_eq henv hp hd hm, Reply.ofUnit, Option.isSome_some,
      if_true]
  | none =>
    have ha := accessible_of_not_link hm
    have hd' : (w.ssd.remove (getMetadataPath st p)).dirent (getAbsolutePath st p) = none :=
      (dirent_remove_of_ne hne).trans hd
    cases hs : w.ssd.dirent (getMetadataPath st p) with
    | none =>
      simp [serve, cloudfsUnlink, henv.access, henv.unlink, ha, hs, remove_of_none hs,
        remove_of_none hd, unlink_of_none hd, Reply.ofUnit]
    | some j =>
      simp [serve, cloudfsUnlink, s3Delete, henv.access, henv.unlink, henv.unlinkMetadata, ha, hs,
        remove_of_none hd', unlink_of_none hd', Reply.ofUnit]

theorem Mirrors.unlink (hm : Mirrors st w l) (hb : Publishes w.bucket stored) (hp : Clean st p)
    (hi : l.Idle p) {env : UnlinkEnv} (henv : env.SsdOk) (hdel : env.delete = .served) :
    Follows st (serve st w (.unlink p env)) (l.step st.threshold stored (.unlink p)) := by
  have hidle := hm.idle hi
  have hne := hp.toOutside.absolute_ne_metadata p
  have ht := touches_serve hm.sane (r := .unlink p env) rfl
  rw [serve_unlink_calm hm.sane hp.toOutside henv, hm.known p hp, hm.present p hp] at *
  rw [Client.step]
  refine ⟨hm.moved hp ht (hm.toShelves.moved hp ht ?_ ?_ (fun q hq => ?_) fun q hq => ?_)
    (fun h f hf hfp => absurd hfp (hidle h f hf))
    (fun h f _ _ hf _ hfp => absurd hfp (hidle h f hf)) (fun _ _ hd _ => hd) hm.dead hm.next, ?_,
    ?_⟩
  · rw [dirent_remove_of_ne hne.symm, dirent_remove_self]
    simp [Client.learn, Client.enter]
  · simp [Client.enter]
  · exact Function.update_of_ne hq ..
  · exact Function.update_of_ne hq ..
  · dsimp only
    split
    · refine hb.publish hp.plus_free ?_ fun k hk => cloudDeleteObject_of_ne _ hk
      rw [cloudDeleteObject_self, hdel]
      rfl
    · exact hb
  · dsimp only
    split <;> rfl

/-! ## Opening -/

theorem Mirrors.openFile (hm : Mirrors st w l) (hb : Publishes w.bucket stored) (hp : Clean st p)
    (hi : l.Idle p) {env : OpenEnv} (henv : env.SsdOk) (hget : env.get.answer = .served)
    (flags : OpenFlags) :
    Follows st (serve st w (.openFile p flags env))
      (l.step st.threshold stored (.openFile p flags)) := by
  have hidle := hm.idle hi
  have hne := hp.toOutside.absolute_ne_metadata p
  have ht := touches_serve hm.sane (r := .openFile p flags env) rfl
  have hh := holds_afterOpen st env p flags w
  have hown := owns_afterOpen st env p flags w
  rw [GetEnv.fetched_served henv.flush hget, hb p hp.plus_free] at hh
  have hproxy : (opened env p flags w).fh.proxy = (stored p).isSome := by
    simp [opened, GetEnv.fetched_ok_iff, hget, hb p hp.plus_free]
  -- the only open file of the path is the new one
  have hnew : ∀ k g, (afterOpen st env p flags w).files.get k = some g → g.path = p →
      k = w.files.next ∧ g = opened env p flags w := by
    intro k g hg hgp
    rcases Table.get_alloc_eq_some hg with hkg | hold
    · exact hkg
    · exact absurd hgp (hidle k g hold)
  rw [serve_open henv] at ht ⊢
  rw [Client.step]
  refine ⟨hm.moved hp ht (hm.toShelves.moved hp ht ?_ ?_ (fun _ _ => rfl) fun q hq => ?_)
    (fun k g hk hgp => ?_) (fun k g k' g' hk hk' hgp hgp' =>
      (hnew k g hk hgp).1.trans (hnew k' g' hk' hgp').1.symm) (fun k e hk _ => ?_) (fun k hk => ?_)
    (congrArg (· + 1) hm.next), hb, congrArg Out.handle hm.next⟩
  · refine (congrArg Option.isSome ?_).trans (hm.known p hp)
    exact dirent_create_of_ne hne.symm
  · simp [afterOpen, Client.enter]
  · exact Function.update_of_ne hq ..
  · obtain ⟨rfl, rfl⟩ := hnew k g hk hgp
    refine ⟨_, by rw [hm.next]; exact Table.get_alloc_next .., rfl, rfl, hproxy, ?_, hh, hown⟩
    simp [opened]
  · exact (Table.get_alloc_of_ne (Table.lt_next_of_get hk).ne).trans hk
  · have hne : k ≠ w.files.next := by
      rintro rfl
      have := hh.live
      rw [hk] at this
      exact absurd this (by simp)
    refine (Table.get_alloc_of_ne (hm.next ▸ hne)).trans (hm.dead k ?_)
    exact (Table.get_alloc_of_ne hne).symm.trans hk

/-! ## Reading and writing -/

theorem Mirrors.read (hm : Mirrors st w l) (hb : Publishes w.bucket stored)
    (hd : l.drafts.get h = some d) (size offset : ℕ) :
    Follows st (serve st w (.read h size offset none))
      (l.step st.threshold stored (.read h size offset)) := by
  obtain ⟨f, hf, ho⟩ := hm.exists_of_get hd
  obtain ⟨-, -, h3⟩ := act_serve st ho.holds (.read size offset none)
  rw [Client.step, Client.onDraft, hd]
  refine ⟨?_, ?_, ?_⟩
  · rw [serve_read_fst]
    exact hm
  · rw [serve_read_fst]
    exact hb
  · refine (congrArg Reply.answer h3).trans ?_
    dsimp only
    rw [ho.flags, Act.reply, Draft.read]
    split <;> rfl

theorem Mirrors.fgetattr (hm : Mirrors st w l) (hb : Publishes w.bucket stored)
    (hd : l.drafts.get h = some d) :
    Follows st (serve st w (.fgetattr h none))
      (l.step st.threshold stored (.fgetattr h)) := by
  obtain ⟨f, hf, ho⟩ := hm.exists_of_get hd
  rw [Client.step, Client.onDraft, hd]
  refine ⟨?_, ?_, ?_⟩
  · rw [serve_fgetattr_fst]
    exact hm
  · rw [serve_fgetattr_fst]
    exact hb
  · rw [serve, onFile, hf]
    simp only [cloudfsFgetattr, disturb_none, Reply.ofResult, Reply.answer, fstat,
      Inode.st_size_reg ho.holds.node]

/-- A write of a draft is what the write makes of its content, and marks it. -/
theorem write_eq (d : Draft) (buf : Bytes) (offset : ℕ) :
    d.write buf offset = ({ d with
        content := (Act.write buf offset none).edit d.flags d.content
        wrote := true }, ((Act.write buf offset none).reply d.flags d.content).answer) := by
  rw [Draft.write, Act.edit, Act.reply]
  cases d.flags.writable with
  | false => simp [Reply.ofResult, Reply.answer]
  | true =>
    cases d.content.write (d.flags.landing d.content offset) buf <;>
      simp [Reply.ofResult, Reply.answer]

theorem Mirrors.write (hm : Mirrors st w l) (hb : Publishes w.bucket stored)
    (hd : l.drafts.get h = some d) (buf : Bytes) (offset : ℕ) :
    Follows st (serve st w (.write h buf offset none))
      (l.step st.threshold stored (.write h buf offset)) := by
  obtain ⟨f, hf, ho⟩ := hm.exists_of_get hd
  obtain ⟨h1, h2, h3⟩ := act_serve st ho.holds (.write buf offset none)
  have htgt : (Req.write h buf offset none).target w = some f.path := by
    rw [Req.target, hf]
    rfl
  have ht := touches_serve hm.sane htgt
  have hp := hm.clean h f hf
  have hreq : Act.req h (.write buf offset none) = .write h buf offset none := rfl
  rw [hreq] at h1 h2 h3
  rw [Client.step, Client.onDraft, hd]
  dsimp only
  rw [write_eq, ← ho.flags]
  refine ⟨hm.moved hp ht (hm.toShelves.moved hp ht ?_ ?_ (fun _ _ => rfl) fun _ _ => rfl)
    (fun k g hk hgp => ?_) (fun k g k' g' hk hk' hgp hgp' => ?_) (fun k e hk hne => ?_)
    (fun k hk => ?_) (h2.handles.trans hm.next), h2.bucket ▸ hb, congrArg Reply.answer h3⟩
  · rw [h2.dirent]
    exact hm.known _ hp
  · rw [h2.dirent]
    exact hm.present _ hp
  · have hkh : k = h := by
      by_contra hkh
      rw [h2.handle k hkh] at hk
      exact hkh (hm.alone f.path k g h f hk hf hgp rfl)
    subst hkh
    obtain rfl := Option.some.inj (h1.live.symm.trans hk)
    refine ⟨_, Table.get_set_self hd, ho.path, rfl, ho.proxy, ?_, h1,
      (congrFun h2.dirent _).trans ho.owns⟩
    simp only [FuseFile.wrote, Act.isWrite, ho.dirty, ho.proxy]
    cases d.fetched <;> cases d.wrote <;> rfl
  · have hback : ∀ k g, (serve st w (.write h buf offset none)).1.files.get k = some g →
        g.path = f.path → k = h := by
      intro k g hk hgp
      by_contra hkh
      rw [h2.handle k hkh] at hk
      exact hkh (hm.alone f.path k g h f hk hf hgp rfl)
    exact (hback k g hk hgp).trans (hback k' g' hk' hgp').symm
  · have hkh : k ≠ h := by
      rintro rfl
      obtain rfl := Option.some.inj (hd.symm.trans hk)
      exact hne ho.path.symm
    exact (Table.get_set_of_ne hkh).trans hk
  · have hkh : k ≠ h := by
      rintro rfl
      rw [h1.live] at hk
      exact absurd hk (by simp)
    rw [h2.handle k hkh] at hk
    exact (Table.get_set_of_ne hkh).trans (hm.dead k hk)

/-! ## Releasing -/

/-- What an undisturbed release leaves in the bucket. -/
theorem bucket_afterReleaseFile (ho : OpenAs st w h f d) {env : ReleaseEnv}
    (hput : env.put.answer = .served) (hdel : env.delete = .served) (stbuf : Stat) :
    (afterReleaseFile st env f d.content stbuf w).bucket (getKey f.path)
      = d.version st.threshold (w.bucket (getKey f.path)) := by
  rw [afterReleaseFile, Draft.version, Draft.fate, ho.proxy, ho.dirty]
  cases d.fetched <;> cases d.wrote <;> by_cases hT : st.threshold < d.content.size <;>
    simp [hT, World.linked, World.uploaded, World.forgotten, cloudPutObject_self, hput,
      cloudDeleteObject_self, hdel, PutAnswer.applied, DeleteAnswer.applied]

/-- What it leaves of the metadata file. -/
theorem metadata_afterReleaseFile (ho : OpenAs st w h f d) (hp : Outside st f.path)
    (env : ReleaseEnv) (stbuf : Stat) :
    ((afterReleaseFile st env f d.content stbuf w).ssd.dirent (getMetadataPath st f.path)).isSome
      = d.knows st.threshold (w.ssd.dirent (getMetadataPath st f.path)).isSome := by
  have hne := (hp.absolute_ne_metadata f.path).symm
  obtain ⟨n, hn, -⟩ := look_store_self w.ssd (getMetadataPath st f.path) stbuf.content 0o644
  obtain ⟨i, hi, -⟩ := look_eq_some_iff.1 hn
  rw [afterReleaseFile, Draft.knows, Draft.fate, ho.proxy, ho.dirty]
  cases d.fetched <;> cases d.wrote <;> by_cases hT : st.threshold < d.content.size <;>
    simp [hT, World.linked, World.uploaded, World.forgotten, dirent_create_of_ne hne, hi]

/-- The path keeps its entry. -/
theorem entry_afterReleaseFile (ho : OpenAs st w h f d) (hp : Outside st f.path)
    (env : ReleaseEnv) (stbuf : Stat) :
    ((afterReleaseFile st env f d.content stbuf w).ssd.dirent (getAbsolutePath st f.path)).isSome
      = true := by
  have hown : w.ssd.dirent (getAbsolutePath st f.path) = some f.fh.fd.ino := ho.owns
  have hne := hp.absolute_ne_metadata f.path
  rw [afterReleaseFile]
  split
  · simp [World.linked]
  · split
    · simp [World.linked]
    · split
      · simp [World.forgotten, dirent_remove_of_ne hne, hown]
      · simp [hown]

theorem Mirrors.release (hm : Mirrors st w l) (hb : Publishes w.bucket stored)
    (hd : l.drafts.get h = some d) {env : ReleaseEnv} (henv : env.SsdOk)
    (hput : env.put.answer = .served) (hdel : env.delete = .served) :
    Follows st (serve st w (.release h env)) (l.step st.threshold stored (.release h)) := by
  obtain ⟨f, hf, ho⟩ := hm.exists_of_get hd
  have htgt : (Req.release h env).target w = some f.path := by
    rw [Req.target, hf]
    rfl
  have ht := touches_serve hm.sane htgt
  have hp := hm.clean h f hf
  have hfiles : ∀ stbuf, ((afterReleaseFile st env f d.content stbuf w).closed env h f.path).files
      = w.files.erase h := fun stbuf =>
    congrArg (fun t : Table FuseFile => t.erase h) (files_afterReleaseFile env f d.content stbuf)
  rw [serve_release hm.sane ho.holds ho.owns henv] at ht ⊢
  generalize (w.ssd.inode f.fh.fd.ino).stat = stbuf at ht ⊢
  rw [Client.step, Client.onDraft, hd]
  dsimp only at ht ⊢
  refine ⟨hm.moved hp ht (hm.toShelves.moved hp ht ?_ ?_ (fun q hq => ?_) fun q _ => rfl)
    (fun k g hk hgp => ?_) (fun k g k' g' hk hk' hgp hgp' => ?_) (fun k e hk hne => ?_)
    (fun k hk => ?_) ?_, ?_, rfl⟩
  · refine (metadata_afterReleaseFile ho hp.toOutside env stbuf).trans ?_
    rw [hm.known _ hp]
    simp [Client.learn, ho.path]
  · refine (entry_afterReleaseFile ho hp.toOutside env stbuf).trans ?_
    have hown : w.ssd.dirent (getAbsolutePath st f.path) = some f.fh.fd.ino := ho.owns
    rw [Client.learn, ← hm.present _ hp, hown]
    rfl
  · rw [ho.path] at hq
    exact Function.update_of_ne hq ..
  · rw [hfiles] at hk
    obtain ⟨hne, hk⟩ := Table.get_erase_eq_some hk
    exact absurd (hm.alone f.path k g h f hk hf hgp rfl) hne
  · rw [hfiles] at hk hk'
    exact hm.alone f.path k g k' g' (Table.get_erase_eq_some hk).2 (Table.get_erase_eq_some hk').2
      hgp hgp'
  · have hkh : k ≠ h := by
      rintro rfl
      obtain rfl := Option.some.inj (hd.symm.trans hk)
      exact hne ho.path.symm
    exact (Table.get_erase_of_ne hkh).trans hk
  · rw [hfiles] at hk
    by_cases hkh : k = h
    · rw [hkh]
      exact Table.get_erase_self ..
    · rw [Table.get_erase_of_ne hkh] at hk
      exact (Table.get_erase_of_ne hkh).trans (hm.dead k hk)
  · rw [hfiles]
    exact hm.next
  · rw [← ho.path, ← hb f.path hp.plus_free]
    refine hb.publish hp.plus_free (bucket_afterReleaseFile ho hput hdel stbuf) fun k hk => ?_
    exact ht.bucket k hk

end CloudFS
