import CloudFS.Outcomes.Truncate
import CloudFS.Session.Leaves

/-!
# Outcomes/Edits — sessions that write and truncate

The release of a proxy uploads its file if a write marked the handle.  A truncation by path reaches
the open file and marks nothing, one through the handle does nothing at all.  So a session stores
everything done in it exactly when what it leaves out — the truncations through the handle, and
without a write every truncation — makes no difference (`edits_stored_iff`).
-/

namespace CloudFS

open Posix Posix.Fs

/-- What a session does to the content of its file. -/
inductive Edit
  | write (buf : Bytes) (offset : ℕ)
  | truncate (size : ℕ)
  | ftruncate (size : ℕ)
  deriving DecidableEq

namespace Edit

/-- The request an edit makes, with `p` open under `h`. -/
def req (p : Name) (h : Handle) : Edit → Req
  | .write buf offset => .write h buf offset none
  | .truncate size => .truncate p size none
  | .ftruncate size => .ftruncate h size

/-- Whether an edit is a write. -/
def isWrite : Edit → Bool
  | .write .. => true
  | _ => false

/-- Whether an edit truncates through the handle. -/
def isFtruncate : Edit → Bool
  | .ftruncate _ => true
  | _ => false

/-- What an edit asks for: a content no file can have is refused, and changes nothing. -/
def apply (flags : OpenFlags) (c : Content) : Edit → Content
  | .write buf offset =>
    if flags.writable then (c.write (flags.landing c offset) buf).getD c else c
  | .truncate size => (c.resize size).getD c
  | .ftruncate size => (c.resize size).getD c

end Edit

/-- A session of edits. -/
structure EditSession where
  flags : OpenFlags
  opening : OpenEnv
  edits : List Edit
  closing : ReleaseEnv

namespace EditSession

/-- Neither the SSD nor the bucket fails the session. -/
structure Calm (s : EditSession) : Prop where
  opening : s.opening.SsdOk
  closing : s.closing.SsdOk
  get : s.opening.get.answer = .served
  put : s.closing.put.answer = .served
  delete : s.closing.delete = .served

/-- The requests of a session on `p` whose open returns `h`. -/
def reqs (s : EditSession) (p : Name) (h : Handle) : List Req :=
  .openFile p s.flags s.opening :: (s.edits.map (Edit.req p h) ++ [.release h s.closing])

/-- The edits whose effect is stored: with a write all but those that truncate through the handle,
without one none. -/
def stored (s : EditSession) : List Edit :=
  if s.edits.any Edit.isWrite then s.edits.filter (!·.isFtruncate) else []

end EditSession

variable {st : CloudfsState} {w : World} {p : Name} {h : Handle} {f : FuseFile} {c o : Content}

/-! ## The open file under edits -/

/-- A truncation by path reaches the open file the path leads to. -/
theorem serve_truncate_open (hn : (w.ssd.inode f.fh.fd.ino).node = .reg c) (ho : Owns st w f)
    (n : ℕ) : (serve st w (.truncate f.path n none)).1
      = match c.resize n with
        | some d => { w with ssd := w.ssd.setContent f.fh.fd.ino d }
        | none => w := by
  have hd : w.ssd.dirent (getAbsolutePath st f.path) = some f.fh.fd.ino := ho
  have hr := resolve_of_not_link (readlink_of_reg (look_of_dirent hd) hn) maxSymlinks
  cases hc : c.resize n <;>
    simp only [serve, cloudfsTruncate, disturb_none, Fs.truncate, hr, hd, hn, hc]

variable (st) in
/-- **One edit**: the handle holds what the edit made of the content unless it truncates through the
handle, only a write marks it, and nothing else changed. -/
theorem edit_serve (hh : Holds w h f c) (ho : Owns st w f) (e : Edit) :
    let v := (serve st w (e.req f.path h)).1
    Holds v h (f.wrote e.isWrite) (if e.isFtruncate then c else e.apply f.flags c) ∧
      Owns st v f ∧ EditsOnly h f.fh.fd.ino w v := by
  cases e with
  | write buf offset =>
    obtain ⟨h1, h2, -⟩ := act_serve st hh (.write buf offset none)
    refine ⟨?_, (congrFun h2.dirent _).trans ho, h2⟩
    have he : (Act.write buf offset none).edit f.flags c
        = (Edit.write buf offset).apply f.flags c := by
      simp [Act.edit, Edit.apply]
    exact he ▸ h1
  | truncate n =>
    have hs : (serve st w (Edit.req f.path h (.truncate n))).1 = _ :=
      serve_truncate_open hh.node ho n
    simp only [hs, Edit.isWrite, FuseFile.wrote_false, Edit.isFtruncate, Edit.apply,
      Bool.false_eq_true, if_false]
    cases hc : c.resize n with
    | none => exact ⟨hh, ho, .refl w⟩
    | some d =>
      exact ⟨⟨hh.live, node_setContent_self .., hh.flags⟩, ho,
        ⟨rfl, rfl, fun _ hj => inode_setContent_of_ne hj, rfl, fun _ _ => rfl, rfl⟩⟩
  | ftruncate n =>
    have hs : (serve st w (Edit.req f.path h (.ftruncate n))).1 = w := serve_ftruncate_fst ..
    simp only [hs, Edit.isWrite, FuseFile.wrote_false, Edit.isFtruncate, if_true]
    exact ⟨hh, ho, .refl w⟩

/-- What the handle holds after an edit is what the edits but those through the handle make. -/
theorem foldl_filter_ftruncate (flags : OpenFlags) (es : List Edit) (c : Content) :
    es.foldl (fun c e => if e.isFtruncate then c else e.apply flags c) c
      = (es.filter (!·.isFtruncate)).foldl (Edit.apply flags) c := by
  rw [List.foldl_filter]
  congr 1
  funext c e
  cases e.isFtruncate <;> rfl

variable (st) in
/-- **Any edits.** -/
theorem edits_run (hh : Holds w h f c) (ho : Owns st w f) (es : List Edit) :
    let v := (Machine.run (serve st) w (es.map (Edit.req f.path h))).1
    Holds v h (f.wrote (es.any Edit.isWrite))
        ((es.filter (!·.isFtruncate)).foldl (Edit.apply f.flags) c) ∧
      Owns st v f ∧ EditsOnly h f.fh.fd.ino w v := by
  rw [← foldl_filter_ftruncate]
  induction es generalizing w f c with
  | nil => exact ⟨by simpa using hh, ho, .refl w⟩
  | cons e es ih =>
    obtain ⟨h1, h2, h3⟩ := edit_serve st hh ho e
    obtain ⟨g1, g2, g3⟩ := ih h1 h2
    refine ⟨?_, g2, h3.trans g3⟩
    rw [FuseFile.wrote_wrote] at g1
    exact g1

/-! ## What the session stores -/

/-- A link has the content of its object. -/
theorem hasContent_lnk_iff {t : Name} (h : entry st w p = some (.lnk t)) :
    HasContent st w p c ↔ w.bucket (getKey p) = some c := by
  obtain ⟨n, hn, hnt⟩ := Option.map_eq_some_iff.1 h
  have hl : IsLink st w p := by rw [IsLink, readlink_of_lnk hn hnt]; rfl
  simp [HasContent, h, hl]

/-- A file has its own content. -/
theorem hasContent_reg_iff {d : Content} (h : entry st w p = some (.reg d)) :
    HasContent st w p c ↔ d = c := by
  obtain ⟨n, hn, hnd⟩ := Option.map_eq_some_iff.1 h
  have hl : ¬ IsLink st w p := by rw [IsLink, readlink_of_reg hn hnd]; simp
  simp [HasContent, h, hl]

/-- A session on a path with an object, before its release. -/
theorem edits_before_release (ha : Apart st w p) (ho : w.bucket (getKey p) = some o)
    {s : EditSession} (hc : s.Calm) :
    ∃ v f, Holds v w.files.next f
        ((s.edits.filter (!·.isFtruncate)).foldl (Edit.apply s.flags) o) ∧
      Owns st v f ∧ Apart st v f.path ∧ v.bucket = w.bucket ∧ f.path = p ∧ f.fh.proxy = true ∧
      f.fh.dirty = s.edits.any Edit.isWrite ∧
      (Machine.run (serve st) w (s.reqs p w.files.next)).1
        = (serve st v (.release w.files.next s.closing)).1 := by
  have hh := holds_afterOpen st s.opening p s.flags w
  have hg : (s.opening.get.fetched w.bucket (getKey p)).2 = o := by
    rw [GetEnv.fetched_served hc.opening.flush hc.get, ho, Option.getD_some]
  rw [hg, opened_served hc.get] at hh
  have hown := owns_afterOpen st s.opening p s.flags w
  rw [opened_served hc.get] at hown
  obtain ⟨h1, h2, h3⟩ := edits_run st hh hown s.edits
  refine ⟨_, _, h1, h2, ha.edited h3, h3.bucket, rfl, ?_, ?_, ?_⟩
  · exact Option.isSome_iff_exists.2 ⟨o, ho⟩
  · simp [FuseFile.wrote, ho]
  · rw [EditSession.reqs, Machine.run_cons, serve_open hc.opening, Machine.run_concat]

/-- **A session stores everything done in it exactly when** what it leaves out makes no difference:
the truncations through the handle, and all of them if it does not write. -/
theorem edits_stored_iff (hw : Reachable st w) (hp : '/' ∈ p)
    (ho : w.bucket (getKey p) = some o) {s : EditSession} (hc : s.Calm) :
    HasContent st (Machine.run (serve st) w (s.reqs p w.files.next)).1 p
        (s.edits.foldl (Edit.apply s.flags) o) ↔
      s.stored.foldl (Edit.apply s.flags) o = s.edits.foldl (Edit.apply s.flags) o := by
  obtain ⟨v, f, hh, hown, ha, hb, hfp, hx, hd, hrun⟩ :=
    edits_before_release (hw.apart hp) ho hc
  rw [hrun, EditSession.stored]
  cases hwr : s.edits.any Edit.isWrite with
  | false =>
    obtain ⟨he, -, hb'⟩ := release_clean ha hh hown hc.closing hx (hd.trans hwr)
    rw [hfp] at he
    rw [hasContent_lnk_iff he, hb', hb, ho]
    simp
  | true =>
    have hdirty : f.fh.dirty = true := hd.trans hwr
    simp only [if_true]
    by_cases hu : Uploads st f ((s.edits.filter (!·.isFtruncate)).foldl (Edit.apply s.flags) o)
    · obtain ⟨he, -, hb'⟩ := release_uploads ha hh hown hc.closing hu
      rw [hfp] at he hb'
      rw [hasContent_lnk_iff he, hb', hc.put, cloudPutObject_self]
      simp [PutAnswer.applied]
    · obtain ⟨hl, -⟩ := release_local ha hh hown hc.closing (fun _ => hdirty) hu
      rw [hfp] at hl
      have he : entry st (serve st v (.release w.files.next s.closing)).1 p
          = some (.reg ((s.edits.filter (!·.isFtruncate)).foldl (Edit.apply s.flags) o)) := by
        rw [entry, hl, Option.map_some, hh.node]
      exact hasContent_reg_iff he

/-! ### A truncation and no write -/

/-- A session that cuts its file to one byte, and writes nothing. -/
def cutSession : EditSession :=
  ⟨⟨.rdwr, false⟩, OpenEnv.calm, [.truncate 1], ReleaseEnv.calm⟩

/-- A session that writes its first byte anew, and cuts its file to one byte through the handle. -/
def rewrittenSession : EditSession :=
  ⟨⟨.rdwr, false⟩, OpenEnv.calm, [.write [7] 0, .ftruncate 1], ReleaseEnv.calm⟩

theorem edits_stored_iff_cut :
    HasContent (.sample 0)
        (Machine.run (serve (.sample 0)) twoByteObject
          (cutSession.reqs ['/', 'a'] twoByteObject.files.next)).1 ['/', 'a']
        (cutSession.edits.foldl (Edit.apply cutSession.flags) ⟨[1, 2], by decide⟩) ↔
      cutSession.stored.foldl (Edit.apply cutSession.flags) ⟨[1, 2], by decide⟩
        = cutSession.edits.foldl (Edit.apply cutSession.flags) ⟨[1, 2], by decide⟩ :=
  edits_stored_iff reachable_twoByteObject (by decide) (by decide)
    ⟨OpenEnv.ssdOk_calm, ReleaseEnv.ssdOk_calm, rfl, rfl, rfl⟩

/-- **Both sessions report every success and leave a second byte**: the object was [1, 2], and is
[1, 2] after the one and [7, 2] after the other. -/
theorem truncations_not_stored :
    ((Machine.run (serve (.sample 0)) twoByteObject
        (cutSession.reqs ['/', 'a'] twoByteObject.files.next)).2 = [.handle 1, .done, .done] ∧
      cutSession.edits.foldl (Edit.apply cutSession.flags) ⟨[1, 2], by decide⟩
        = ⟨[1], by decide⟩ ∧
      (Machine.run (serve (.sample 0)) twoByteObject
        (cutSession.reqs ['/', 'a'] twoByteObject.files.next)).1.bucket (getKey ['/', 'a'])
          = some ⟨[1, 2], by decide⟩ ∧
      ¬ HasContent (.sample 0)
        (Machine.run (serve (.sample 0)) twoByteObject
          (cutSession.reqs ['/', 'a'] twoByteObject.files.next)).1 ['/', 'a']
        ⟨[1], by decide⟩) ∧
    (Machine.run (serve (.sample 0)) twoByteObject
        (rewrittenSession.reqs ['/', 'a'] twoByteObject.files.next)).2
          = [.handle 1, .count 1, .done, .done] ∧
      rewrittenSession.edits.foldl (Edit.apply rewrittenSession.flags) ⟨[1, 2], by decide⟩
        = ⟨[7], by decide⟩ ∧
      (Machine.run (serve (.sample 0)) twoByteObject
        (rewrittenSession.reqs ['/', 'a'] twoByteObject.files.next)).1.bucket (getKey ['/', 'a'])
          = some ⟨[7, 2], by decide⟩ ∧
      ¬ HasContent (.sample 0)
        (Machine.run (serve (.sample 0)) twoByteObject
          (rewrittenSession.reqs ['/', 'a'] twoByteObject.files.next)).1 ['/', 'a']
        ⟨[7], by decide⟩ := by
  decide

end CloudFS
