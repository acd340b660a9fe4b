import CloudFS.Session.Calm
import CloudFS.Session.Confine

/-!
# Session/Run — one session on a path

A session opens a path, reads and writes through the handle it got, and releases it.  `Holds` says
what a handle gives access to; `holds_open` establishes it for whatever the open met, `acts_run`
carries it through any reads and writes, with `EditsOnly` saying that nothing but the open file
changed, and `releaseFile_eq` takes over from there.
-/

namespace CloudFS

open Posix Posix.Fs

/-! ## What a handle holds -/

/-- The handle `h` is the open file `f` of content `c`. -/
structure Holds (w : World) (h : Handle) (f : FuseFile) (c : Content) : Prop where
  live : w.files.get h = some f
  node : (w.ssd.inode f.fh.fd.ino).node = .reg c
  flags : f.fh.fd.flags = f.flags

/-- The path of an open file leads to that file. -/
def Owns (st : CloudfsState) (w : World) (f : FuseFile) : Prop :=
  w.ssd.dirent (getAbsolutePath st f.path) = some f.fh.fd.ino

/-- An open file after a write, if there was one: a proxy is dirty. -/
def FuseFile.wrote (f : FuseFile) (b : Bool) : FuseFile :=
  { f with fh := { f.fh with dirty := f.fh.dirty || (f.fh.proxy && b) } }

instance (st : CloudfsState) (w : World) (f : FuseFile) : Decidable (Owns st w f) :=
  inferInstanceAs (Decidable (_ = _))

/-- A change of nothing but the content of inode `i` and the handle `h`. -/
structure EditsOnly (h : Handle) (i : Ino) (w w' : World) : Prop where
  bucket : w'.bucket = w.bucket
  dirent : w'.ssd.dirent = w.ssd.dirent
  inode : ∀ j, j ≠ i → w'.ssd.inode j = w.ssd.inode j
  next : w'.ssd.next = w.ssd.next
  handle : ∀ k, k ≠ h → w'.files.get k = w.files.get k
  handles : w'.files.next = w.files.next

variable {st : CloudfsState} {w w' w'' : World} {p : Name} {h : Handle} {f : FuseFile}
  {c : Content} {i : Ino}

@[simp] theorem FuseFile.wrote_false (f : FuseFile) : f.wrote false = f := by
  simp [FuseFile.wrote]

@[simp] theorem FuseFile.wrote_wrote (f : FuseFile) (a b : Bool) :
    (f.wrote a).wrote b = f.wrote (a || b) := by
  simp [FuseFile.wrote, Bool.or_assoc, Bool.and_or_distrib_left]

namespace EditsOnly

theorem refl (w : World) : EditsOnly h i w w :=
  ⟨rfl, rfl, fun _ _ => rfl, rfl, fun _ _ => rfl, rfl⟩

theorem trans (h₁ : EditsOnly h i w w') (h₂ : EditsOnly h i w' w'') : EditsOnly h i w w'' where
  bucket := h₂.bucket.trans h₁.bucket
  dirent := h₂.dirent.trans h₁.dirent
  inode j hj := (h₂.inode j hj).trans (h₁.inode j hj)
  next := h₂.next.trans h₁.next
  handle k hk := (h₂.handle k hk).trans (h₁.handle k hk)
  handles := h₂.handles.trans h₁.handles

/-- A name of another inode leads to what it led to. -/
theorem look (he : EditsOnly h i w w') {x : Name} (hx : w.ssd.dirent x ≠ some i) :
    w'.ssd.look x = w.ssd.look x := by
  rw [Fs.look, Fs.look, he.dirent]
  cases hd : w.ssd.dirent x with
  | none => rfl
  | some j =>
    have hj : j ≠ i := fun e => hx (by rw [hd, e])
    rw [Option.map_some, Option.map_some, he.inode j hj]

/-- A name of another inode is a link if it was one. -/
theorem readlink (he : EditsOnly h i w w') {x : Name} (hx : w.ssd.dirent x ≠ some i) :
    w'.ssd.readlink x = w.ssd.readlink x := by
  rw [Fs.readlink, he.look hx, Fs.readlink]

/-- A name leads where it led, if the inode is and was a regular file. -/
theorem follow (he : EditsOnly h i w w') {d : Content} (hc : (w.ssd.inode i).node = .reg c)
    (hd : (w'.ssd.inode i).node = .reg d) (x : Name) : w'.ssd.follow x = w.ssd.follow x := by
  by_cases hx : w.ssd.dirent x = some i
  · have hx' : w'.ssd.dirent x = some i := (congrFun he.dirent x).trans hx
    rw [follow_of_not_link (readlink_of_reg (look_of_dirent hx) hc),
      follow_of_not_link (readlink_of_reg (look_of_dirent hx') hd)]
  · rw [Fs.follow, he.readlink hx, Fs.follow]

end EditsOnly

/-! ## Reads and writes -/

/-- A read or a write of a session. -/
inductive Act
  | read (size offset : ℕ) (fault : Fault)
  | write (buf : Bytes) (offset : ℕ) (fault : Fault)

namespace Act

/-- The request an act makes. -/
def req (h : Handle) : Act → Req
  | .read size offset fault => .read h size offset fault
  | .write buf offset fault => .write h buf offset fault

/-- Whether an act is a write. -/
def isWrite : Act → Bool
  | .read .. => false
  | .write .. => true

/-- What an act makes of the content of the file. -/
def edit (flags : OpenFlags) (c : Content) : Act → Content
  | .read .. => c
  | .write buf offset fault =>
    if fault = none ∧ flags.writable then (c.write (flags.landing c offset) buf).getD c else c

/-- What an act is answered when the file holds `c`. -/
def reply (flags : OpenFlags) (c : Content) : Act → Reply
  | .read size offset fault => Reply.ofResult .data
      (disturb fault (if flags.readable then .ok (c.bytes.slice offset size) else .error .EBADF))
  | .write buf offset fault => Reply.ofResult .count (disturb fault
      (if flags.writable then
        if (c.write (flags.landing c offset) buf).isSome then .ok buf.length else .error .EFBIG
      else .error .EBADF))

/-- No SSD call of the act fails. -/
def SsdOk : Act → Prop
  | .read _ _ fault => fault = none
  | .write _ _ fault => fault = none

/-- The replies to acts made one after the other. -/
def replies (flags : OpenFlags) : Content → List Act → List Reply
  | _, [] => []
  | c, a :: as => a.reply flags c :: replies flags (a.edit flags c) as

end Act

/-- A write never shortens a file. -/
theorem size_le_edits (flags : OpenFlags) (as : List Act) (c : Content) :
    c.size ≤ (as.foldl (Act.edit flags) c).size := by
  induction as generalizing c with
  | nil => exact le_rfl
  | cons a as ih =>
    refine le_trans ?_ (ih (a.edit flags c))
    cases a with
    | read => exact le_rfl
    | write buf offset fault =>
      rw [Act.edit]
      split
      · cases hw : c.write (flags.landing c offset) buf with
        | none => exact le_rfl
        | some d => exact Content.size_le_of_write hw
      · exact le_rfl

/-- Acts that write nothing leave the content alone. -/
theorem edits_of_no_write (flags : OpenFlags) {as : List Act} (ha : as.any Act.isWrite = false)
    (c : Content) : as.foldl (Act.edit flags) c = c := by
  induction as with
  | nil => rfl
  | cons a as ih =>
    rw [List.any_cons, Bool.or_eq_false_iff] at ha
    have hc : a.edit flags c = c := by
      cases a with
      | read => rfl
      | write => exact absurd ha.1 (by simp [Act.isWrite])
    rw [List.foldl_cons, hc, ih ha.2]

theorem marked_eq (w : World) (hf : w.files.get h = some f) :
    (w.marked h f).files.get h = some (f.wrote true) := by
  unfold World.marked FuseFile.wrote
  obtain ⟨path, flags, fd, proxy, dirty⟩ := f
  cases proxy with
  | false => simpa using hf
  | true => simpa using Table.get_set_self hf

theorem editsOnly_marked (w : World) (h : Handle) (f : FuseFile) :
    EditsOnly h i w (w.marked h f) := by
  unfold World.marked
  split
  case isFalse => exact .refl w
  case isTrue => exact ⟨rfl, rfl, fun _ _ => rfl, rfl, fun _ hk => Table.get_set_of_ne hk, rfl⟩

/-- A write of an open file marks it, and stores what landed. -/
theorem cloudfsWrite_eq (hh : Holds w h f c) (fault : Fault) (buf : Bytes) (offset : ℕ) :
    (cloudfsWrite fault h f buf offset w).1
        = (match (if fault = none ∧ f.flags.writable
            then c.write (f.flags.landing c offset) buf else none) with
          | some d => { w.marked h f with ssd := w.ssd.setContent f.fh.fd.ino d }
          | none => w.marked h f) ∧
      Reply.ofResult .count (cloudfsWrite fault h f buf offset w).2
        = (Act.write buf offset fault).reply f.flags c := by
  rw [Act.reply]
  rcases cloudfsWrite_cases fault h f buf offset w with ⟨e, hd, hw⟩ | ⟨ssd, hd, hw⟩
  all_goals
    rw [ssd_marked] at hd
    rw [hw]
    cases fault with
    | some e' => simp_all [Reply.ofResult]
    | none =>
      simp only [disturb_none, pwrite, hh.flags, hh.node] at hd
      cases hwr : f.flags.writable with
      | false => simp_all [Reply.ofResult]
      | true => cases hc : c.write (f.flags.landing c offset) buf <;> simp_all [Reply.ofResult]

variable (st) in
/-- **One act**: the handle holds what the act made of the content, nothing else changed, and the
reply is the one the content calls for. -/
theorem act_serve (hh : Holds w h f c) (a : Act) :
    Holds (serve st w (a.req h)).1 h (f.wrote a.isWrite) (a.edit f.flags c) ∧
      EditsOnly h f.fh.fd.ino w (serve st w (a.req h)).1 ∧
      (serve st w (a.req h)).2 = a.reply f.flags c := by
  cases a with
  | read size offset fault =>
    have hr : serve st w (Act.req h (.read size offset fault))
        = (w, Reply.ofResult .data (cloudfsRead fault f size offset w)) := by
      rw [Act.req, serve, onFile, hh.live]
    rw [hr, Act.isWrite, FuseFile.wrote_false]
    refine ⟨hh, .refl w, ?_⟩
    rw [cloudfsRead, pread, hh.flags, hh.node, Act.reply]
  | write buf offset fault =>
    have hr : serve st w (Act.req h (.write buf offset fault))
        = ((cloudfsWrite fault h f buf offset w).1,
          Reply.ofResult .count (cloudfsWrite fault h f buf offset w).2) := by
      rw [Act.req, serve, onFile, hh.live]
    obtain ⟨h1, h2⟩ := cloudfsWrite_eq hh fault buf offset
    rw [hr, h1, Act.isWrite, Act.edit]
    have hm := editsOnly_marked (i := f.fh.fd.ino) w h f
    have hn : ((w.marked h f).ssd.inode f.fh.fd.ino).node = .reg c := by
      rw [ssd_marked]
      exact hh.node
    split
    case h_1 d hd =>
      obtain ⟨hg, hd⟩ := Option.ite_none_right_eq_some.1 hd
      rw [if_pos hg, hd, Option.getD_some]
      refine ⟨⟨marked_eq w hh.live, node_setContent_self .., hh.flags⟩, ?_, h2⟩
      exact ⟨hm.bucket, rfl, fun j hj => inode_setContent_of_ne hj, rfl, hm.handle, hm.handles⟩
    case h_2 hd =>
      refine ⟨⟨marked_eq w hh.live, ?_, hh.flags⟩, hm, h2⟩
      split
      case isTrue hg =>
        rw [if_pos hg] at hd
        rw [hd, Option.getD_none]
        exact hn
      case isFalse => exact hn

variable (st) in
/-- **Any reads and writes.** -/
theorem acts_run (hh : Holds w h f c) (as : List Act) :
    let r := Machine.run (serve st) w (as.map (Act.req h))
    Holds r.1 h (f.wrote (as.any Act.isWrite)) (as.foldl (Act.edit f.flags) c) ∧
      EditsOnly h f.fh.fd.ino w r.1 ∧ r.2 = Act.replies f.flags c as := by
  induction as generalizing w f c with
  | nil => exact ⟨by simpa using hh, .refl w, rfl⟩
  | cons a as ih =>
    obtain ⟨h1, h2, h3⟩ := act_serve st hh a
    obtain ⟨g1, g2, g3⟩ := ih h1
    refine ⟨?_, h2.trans g2, congrArg₂ List.cons h3 g3⟩
    rw [FuseFile.wrote_wrote] at g1
    exact g1

/-! ## Opening -/

/-- The link to the metadata file, if the path is one, leads to a file. -/
theorem Sane.readlink_follow (hs : Sane st w) (p : Name) :
    w.ssd.readlink (w.ssd.follow (getAbsolutePath st p)) = none := by
  cases hl : w.ssd.readlink (getAbsolutePath st p) with
  | none => rwa [follow_of_not_link hl]
  | some t =>
    rw [follow_of_link hl, hs.readlink_absolute hl]
    exact hs.readlink_metadata p

variable (st w p) in
/-- A download that can open its file fills the file the path leads to. -/
theorem s3CloudfsGet_eq {env : GetEnv} (h : env.fopen = none)
    (hl : w.ssd.readlink (w.ssd.follow (getAbsolutePath st p)) = none) :
    s3CloudfsGet st env p w =
      ({ w with
          ssd := w.ssd.store (w.ssd.follow (getAbsolutePath st p))
            (env.fetched w.bucket (getKey p)).2 0o666 },
        .ok (if (env.fetched w.bucket (getKey p)).1 = .ok then 0 else -1)) := by
  obtain ⟨f, ssd, hc, hf, -⟩ := creat_setContent hl
    (env.fetched w.bucket (getKey p)).2 0o666
  simp only [s3CloudfsGet, h, disturb_none, hc, hf]

/-- The SSD when `cloudfs_open` asks for the object: the path removed, if the unlink did not
fail. -/
def unlinked (st : CloudfsState) (fault : Fault) (p : Name) (w : World) : Fs :=
  (disturb fault (w.ssd.unlink (getAbsolutePath st p))).toOption.getD w.ssd

theorem follow_unlinked (st : CloudfsState) (fault : Fault) (p : Name) (w : World) :
    (unlinked st fault p w).follow (getAbsolutePath st p)
      = if fault = none then getAbsolutePath st p
        else w.ssd.follow (getAbsolutePath st p) := by
  cases fault with
  | none =>
    rw [unlinked, disturb_none, unlink_getD, if_pos rfl]
    exact follow_of_not_link (readlink_of_none (dirent_remove_self ..))
  | some e =>
    rw [if_neg (by simp)]
    rfl

theorem Sane.readlink_follow_unlinked (hs : Sane st w) (fault : Fault) (p : Name) :
    (unlinked st fault p w).readlink
      ((unlinked st fault p w).follow (getAbsolutePath st p)) = none := by
  rw [follow_unlinked]
  cases fault with
  | none =>
    rw [unlinked, disturb_none, unlink_getD, if_pos rfl]
    exact readlink_of_none (dirent_remove_self ..)
  | some e =>
    rw [if_neg (by simp)]
    exact hs.readlink_follow p

/-- The world in which `cloudfs_open` asks for the object. -/
def World.unlinked (st : CloudfsState) (env : OpenEnv) (p : Name) (flags : OpenFlags) (w : World) :
    World :=
  { w with
    lock := acquireLockWrapper env.acquire p flags
      { w.lock with version := w.lock.version + 1 }
    ssd := CloudFS.unlinked st env.unlink p w }

/-- An open whose download and whose open of the file succeed. -/
theorem cloudfsOpen_of_get {env : OpenEnv} {flags : OpenFlags} {v : World} {res : ℤ}
    {fd : OpenFile} (hg : s3CloudfsGet st env.get p (w.unlinked st env p flags) = (v, .ok res))
    (ho : disturb env.openFile (v.ssd.openAt (getAbsolutePath st p) flags) = .ok fd) :
    cloudfsOpen st env p flags w
      = ({ v with files := v.files.alloc ⟨p, flags, ⟨fd, res == 0, false⟩⟩ },
        .ok v.files.next) := by
  rw [World.unlinked, CloudFS.unlinked] at hg
  simp only [cloudfsOpen, hg, ho]

/-- **An open that returns a handle**, whatever failed on the way: the handle holds what the get
delivered, in the file the path leads to, and it is a proxy when the get succeeded. -/
theorem holds_open (hs : Sane st w) {env : OpenEnv} {flags : OpenFlags}
    (ho : cloudfsOpen st env p flags w = (w', .ok h)) :
    let r := env.get.fetched w.bucket (getKey p)
    ∃ i, h = w.files.next ∧
      w'.files = w.files.alloc ⟨p, flags, ⟨⟨i, flags⟩, decide (r.1 = .ok), false⟩⟩ ∧
      w'.bucket = w.bucket ∧ (w'.ssd.inode i).node = .reg r.2 ∧
      w'.ssd.dirent (w'.ssd.follow (getAbsolutePath st p)) = some i ∧
      w'.ssd.follow (getAbsolutePath st p)
        = if env.unlink = none then getAbsolutePath st p
          else w.ssd.follow (getAbsolutePath st p) := by
  intro r
  have hl := hs.readlink_follow_unlinked env.unlink p
  have hflag : ∀ b : Prop, [Decidable b] → ((if b then (0 : ℤ) else -1) == 0) = decide b := by
    intro b _
    split <;> simp_all
  obtain ⟨f, ssd, -, -, hd⟩ := creat_setContent hl r.2 0o666
  obtain ⟨n, hn, hnc⟩ := look_store_self (unlinked st env.unlink p w)
    ((unlinked st env.unlink p w).follow (getAbsolutePath st p)) r.2 0o666
  have hfol := follow_store hl r.2 0o666
  rw [look_of_dirent hd] at hn
  have hi : (((unlinked st env.unlink p w).store _ r.2 0o666).inode f.ino).node = .reg r.2 :=
    (Option.some.inj hn) ▸ hnc
  have hd' : ((unlinked st env.unlink p w).store
      ((unlinked st env.unlink p w).follow (getAbsolutePath st p)) r.2 0o666).dirent
      (((unlinked st env.unlink p w).store
        ((unlinked st env.unlink p w).follow (getAbsolutePath st p)) r.2 0o666).follow
          (getAbsolutePath st p)) = some f.ino := by
    rw [hfol]
    exact hd
  have hopen := openAt_of_follow
    (by rw [hfol]; exact readlink_of_reg (look_of_dirent hd) hi) hd' flags
  cases hgf : env.get.fopen with
  | some e => simp [cloudfsOpen, s3CloudfsGet, hgf] at ho
  | none =>
    cases hof : env.openFile with
    | some e =>
      simp only [cloudfsOpen, hof, disturb_some] at ho
      split at ho <;> simp at ho
    | none =>
      have hget : s3CloudfsGet st env.get p (w.unlinked st env p flags) = _ :=
        s3CloudfsGet_eq st _ p hgf hl
      have hw := cloudfsOpen_of_get hget (by rw [hof]; exact hopen)
      obtain ⟨rfl, hh⟩ := Prod.mk.inj (hw.symm.trans ho)
      refine ⟨f.ino, (Except.ok.inj hh).symm, ?_, rfl, hi, hd', ?_⟩
      · exact congrArg (fun b => w.files.alloc ⟨p, flags, ⟨⟨f.ino, flags⟩, b, false⟩⟩) (hflag _)
      · exact hfol.trans (follow_unlinked st env.unlink p w)

/-! ## Sessions -/

/-- A session: an open, reads and writes through the handle, and its release, each with what the
environment does to it. -/
structure Session where
  flags : OpenFlags
  opening : OpenEnv
  acts : List Act
  closing : ReleaseEnv

namespace Session

/-- No SSD call of the session fails. -/
structure SsdOk (s : Session) : Prop where
  opening : s.opening.SsdOk
  acts : ∀ a ∈ s.acts, a.SsdOk
  closing : s.closing.SsdOk

/-- Neither the SSD nor the bucket fails the session. -/
structure Calm (s : Session) : Prop extends s.SsdOk where
  get : s.opening.get.answer = .served
  put : s.closing.put.answer = .served
  delete : s.closing.delete = .served

/-- What a session leaves of a file of content `c`. -/
def left (s : Session) (c : Content) : Content := s.acts.foldl (Act.edit s.flags) c

/-- Whether a session writes. -/
def writes (s : Session) : Bool := s.acts.any Act.isWrite

theorem left_of_not_writes {s : Session} (h : s.writes = false) (c : Content) : s.left c = c :=
  edits_of_no_write s.flags h c

theorem size_le_left (s : Session) (c : Content) : c.size ≤ (s.left c).size :=
  size_le_edits s.flags s.acts c

/-- What a session on `p` asks for before its release, when its open returns `h`. -/
def edits (s : Session) (p : Name) (h : Handle) : List Req :=
  .openFile p s.flags s.opening :: s.acts.map (Act.req h)

/-- The requests of a session on `p` whose open returns `h`. -/
def reqs (s : Session) (p : Name) (h : Handle) : List Req := s.edits p h ++ [.release h s.closing]

end Session

/-- The file an undisturbed open leaves open. -/
def opened (env : OpenEnv) (p : Name) (flags : OpenFlags) (w : World) : FuseFile :=
  ⟨p, flags, ⟨⟨w.ssd.next, flags⟩,
    decide ((env.get.fetched w.bucket (getKey p)).1 = .ok), false⟩⟩

theorem serve_open {env : OpenEnv} (h : env.SsdOk) (p : Name) (flags : OpenFlags) (w : World) :
    serve st w (.openFile p flags env) = (afterOpen st env p flags w, .handle w.files.next) := by
  rw [serve, cloudfsOpen_eq h]

/-- An undisturbed open leaves a handle on what the get delivered. -/
theorem holds_afterOpen (st : CloudfsState) (env : OpenEnv) (p : Name) (flags : OpenFlags)
    (w : World) : Holds (afterOpen st env p flags w) w.files.next (opened env p flags w)
      (env.get.fetched w.bucket (getKey p)).2 :=
  ⟨Table.get_alloc_next .., congrArg Inode.node (inode_create_next ..), rfl⟩

theorem owns_afterOpen (st : CloudfsState) (env : OpenEnv) (p : Name) (flags : OpenFlags)
    (w : World) : Owns st (afterOpen st env p flags w) (opened env p flags w) :=
  dirent_create_self ..

theorem sane_afterOpen (hs : Sane st w) (hp : Outside st p) {env : OpenEnv} (h : env.SsdOk)
    (flags : OpenFlags) : Sane st (afterOpen st env p flags w) := by
  have hr : (Req.openFile p flags env).Proper st w := by
    rintro q hq
    obtain rfl := Option.some.inj hq
    exact hp
  have := sane_serve hs hr
  rwa [serve_open h] at this

/-- Reads and writes keep the state sane. -/
theorem sane_acts (hs : Sane st w) (hh : Holds w h f c) (as : List Act) :
    Sane st (Machine.run (serve st) w (as.map (Act.req h))).1 := by
  induction as generalizing w f c with
  | nil => exact hs
  | cons a as ih =>
    have hr : (a.req h).Proper st w := by
      intro q hq
      have ht : (a.req h).target w = some f.path := by
        cases a <;> simp [Act.req, Req.target, hh.live]
      rw [ht] at hq
      obtain rfl := Option.some.inj hq
      exact (hs.file h f hh.live).1
    exact ih (sane_serve hs hr) (act_serve st hh a).1

/-- **A session before its release.**  Its handle holds what the reads and writes made of what the
get delivered, and the path still leads to that file. -/
theorem session_holds (st : CloudfsState) (w : World) (p : Name) {s : Session}
    (ho : s.opening.SsdOk) :
    let r := Machine.run (serve st) w (s.edits p w.files.next)
    let g := s.opening.get.fetched w.bucket (getKey p)
    let f := (opened s.opening p s.flags w).wrote s.writes
    Holds r.1 w.files.next f (s.left g.2) ∧ Owns st r.1 f ∧
      EditsOnly w.files.next w.ssd.next (afterOpen st s.opening p s.flags w) r.1 ∧
      r.2 = .handle w.files.next :: Act.replies s.flags g.2 s.acts := by
  have hh := holds_afterOpen st s.opening p s.flags w
  obtain ⟨h1, h2, h3⟩ := acts_run st hh s.acts
  have hr : Machine.run (serve st) w (s.edits p w.files.next)
      = ((Machine.run (serve st) (afterOpen st s.opening p s.flags w)
          (s.acts.map (Act.req w.files.next))).1,
        .handle w.files.next :: (Machine.run (serve st) (afterOpen st s.opening p s.flags w)
          (s.acts.map (Act.req w.files.next))).2) := by
    rw [Session.edits, Machine.run, serve_open ho]
  simp only [hr]
  refine ⟨h1, ?_, h2, congrArg _ h3⟩
  exact (congrFun h2.dirent _).trans (owns_afterOpen ..)

/-- From a sane state it is released in a sane state. -/
theorem session_edits (hs : Sane st w) (hp : Outside st p) {s : Session} (ho : s.opening.SsdOk) :
    let r := Machine.run (serve st) w (s.edits p w.files.next)
    let g := s.opening.get.fetched w.bucket (getKey p)
    let f := (opened s.opening p s.flags w).wrote s.writes
    Holds r.1 w.files.next f (s.left g.2) ∧ Owns st r.1 f ∧ Sane st r.1 ∧
      EditsOnly w.files.next w.ssd.next (afterOpen st s.opening p s.flags w) r.1 ∧
      r.2 = .handle w.files.next :: Act.replies s.flags g.2 s.acts := by
  obtain ⟨h1, h2, h3, h4⟩ := session_holds st w p ho
  refine ⟨h1, h2, ?_, h3, h4⟩
  rw [Session.edits, Machine.run_cons, serve_open ho]
  exact sane_acts (sane_afterOpen hs hp ho s.flags) (holds_afterOpen ..) s.acts

/-! ## Releasing -/

/-- The world whose handle `h` on `p` is closed and whose lock is given back. -/
def World.closed (env : ReleaseEnv) (h : Handle) (p : Name) (w : World) : World :=
  { w with
    lock := releaseLockWrapper env.release p w.lock
    files := w.files.erase h }

/-- The path is not its own metadata file, and that is no link. -/
structure Apart (st : CloudfsState) (w : World) (p : Name) : Prop where
  ne : getAbsolutePath st p ≠ getMetadataPath st p
  metadata : w.ssd.readlink (getMetadataPath st p) = none

/-- **An undisturbed release of a handle whose path still leads to its file.** -/
theorem Apart.serve_release (ha : Apart st w f.path) (hh : Holds w h f c) (ho : Owns st w f)
    {env : ReleaseEnv} (henv : env.SsdOk) :
    serve st w (.release h env)
      = ((afterReleaseFile st env f c (w.ssd.inode f.fh.fd.ino).stat w).closed env h f.path,
        .done) := by
  have hr := releaseFile_of_ne henv ha.ne ho hh.node ha.metadata
  rw [serve, onFile, hh.live]
  simp only [cloudfsRelease_eq hr]
  rfl

/-- In a sane state every path outside the metadata directory is apart from its metadata file. -/
theorem Sane.apart (hs : Sane st w) (hp : Outside st p) : Apart st w p :=
  ⟨hp.absolute_ne_metadata p, hs.readlink_metadata p⟩

/-- In a sane state any open file is released so. -/
theorem serve_release (hs : Sane st w) (hh : Holds w h f c) (ho : Owns st w f) {env : ReleaseEnv}
    (henv : env.SsdOk) :
    serve st w (.release h env)
      = ((afterReleaseFile st env f c (w.ssd.inode f.fh.fd.ino).stat w).closed env h f.path,
        .done) :=
  (hs.apart (hs.file h f hh.live).1).serve_release hh ho henv

/-- **A whole session whose open and release are undisturbed.**  `v` is the world it releases its
handle in. -/
theorem session_run (hs : Sane st w) (hp : Outside st p) {s : Session} (ho : s.opening.SsdOk)
    (hc : s.closing.SsdOk) :
    let g := s.opening.get.fetched w.bucket (getKey p)
    let f := (opened s.opening p s.flags w).wrote s.writes
    let c := s.left g.2
    ∃ v, Holds v w.files.next f c ∧ Owns st v f ∧ Sane st v ∧
      EditsOnly w.files.next w.ssd.next (afterOpen st s.opening p s.flags w) v ∧
      Machine.run (serve st) w (s.reqs p w.files.next)
        = ((afterReleaseFile st s.closing f c (v.ssd.inode w.ssd.next).stat v).closed s.closing
            w.files.next p,
          .handle w.files.next :: (Act.replies s.flags g.2 s.acts ++ [.done])) := by
  obtain ⟨h1, h2, h3, h4, h5⟩ := session_edits hs hp ho
  refine ⟨_, h1, h2, h3, h4, ?_⟩
  rw [Session.reqs, Machine.run_concat, serve_release h3 h1 h2 hc, h5]
  rfl

/-- Undisturbed reads and writes through a handle on `p` are calm requests about `p`. -/
theorem legal_acts (hh : Holds w h f c) (hfp : f.path = p) {as : List Act}
    (ha : ∀ a ∈ as, a.SsdOk) :
    Machine.Legal (serve st) (fun w r => r.Calm ∧ r.target w = some p) w
      (as.map (Act.req h)) := by
  induction as generalizing w f c with
  | nil => trivial
  | cons a as ih =>
    obtain ⟨h1, -, -⟩ := act_serve st hh a
    refine ⟨⟨?_, ?_⟩, ih h1 hfp fun b hb => ha b (List.mem_cons_of_mem _ hb)⟩
    · have := ha a List.mem_cons_self
      cases a <;> exact this
    · have ht : (w.files.get h).map FuseFile.path = some p := by rw [hh.live, Option.map_some, hfp]
      cases a <;> exact ht

/-- **An undisturbed session with a reliable bucket is a run of calm requests about its path.** -/
theorem legal_session (hs : Sane st w) (hp : Outside st p) {s : Session} (hc : s.Calm) :
    Machine.Legal (serve st) (fun w r => r.Calm ∧ r.target w = some p) w
      (s.reqs p w.files.next) := by
  obtain ⟨h1, -, -, -, -⟩ := session_edits hs hp hc.opening
  rw [Session.reqs, Machine.legal_append]
  refine ⟨⟨⟨⟨hc.opening, hc.get⟩, rfl⟩, ?_⟩, ⟨⟨hc.closing, hc.put, hc.delete⟩, ?_⟩, trivial⟩
  · rw [serve_open hc.opening]
    exact legal_acts (holds_afterOpen st s.opening p s.flags w) rfl hc.acts
  · exact congrArg (Option.map FuseFile.path) h1.live

/-- Calm requests about a path outside the metadata directory keep the state sane. -/
theorem sane_run (hs : Sane st w) (hp : Outside st p) {rs : List Req}
    (hl : Machine.Legal (serve st) (fun w r => r.Calm ∧ r.target w = some p) w rs) :
    Sane st (Machine.run (serve st) w rs).1 :=
  Machine.invariant_run (I := Sane st)
    (fun _ _ hv hr => (touches_serve hv hr.2).sane hp hv) rs w hs hl

/-! ## Sessions anything may fail in -/

/-- Requests on a handle that is not open change nothing. -/
theorem acts_dead (hd : w.files.get h = none) (as : List Act) :
    (Machine.run (serve st) w (as.map (Act.req h))).1 = w := by
  induction as with
  | nil => rfl
  | cons a as ih =>
    have ha : (serve st w (a.req h)).1 = w := by cases a <;> exact onFile_of_none hd _
    rw [List.map_cons, Machine.run_cons, ha, ih]

/-- **A session before its release, whatever failed**, if its open returned a handle: the handle
holds what the reads and writes made of what the get delivered, in the file the path leads to. -/
theorem session_opened (hs : Sane st w) (hp : Outside st p) {s : Session} {v : World}
    (hv : (Machine.run (serve st) w (s.edits p w.files.next)).1 = v)
    (hf : v.files.get w.files.next = some f) :
    let g := s.opening.get.fetched w.bucket (getKey p)
    ∃ i, f = FuseFile.wrote ⟨p, s.flags, ⟨⟨i, s.flags⟩, decide (g.1 = .ok), false⟩⟩ s.writes ∧
      Holds v w.files.next f (s.left g.2) ∧ Sane st v ∧
      v.bucket = w.bucket ∧ v.ssd.dirent (v.ssd.follow (getAbsolutePath st p)) = some i ∧
      v.ssd.follow (getAbsolutePath st p)
        = if s.opening.unlink = none then getAbsolutePath st p
          else w.ssd.follow (getAbsolutePath st p) := by
  intro g
  cases ho : cloudfsOpen st s.opening p s.flags w with
  | mk w₁ r =>
    cases r with
    | error e =>
      have hs₁ : serve st w (.openFile p s.flags s.opening) = (w₁, .fail e) := by
        rw [serve, ho]
      have hdead : w₁.files.get w.files.next = none := by
        rw [files_of_open_error (hs.closed p) ho]
        exact w.files.get_next
      rw [Session.edits, Machine.run_cons, hs₁, acts_dead hdead] at hv
      rw [← hv, hdead] at hf
      exact absurd hf (by simp)
    | ok h =>
      obtain ⟨i, rfl, hfiles, hb, hi, hd, hfol⟩ := holds_open hs ho
      have hs₁ : serve st w (.openFile p s.flags s.opening) = (w₁, .handle w.files.next) := by
        rw [serve, ho]
      have hlive : w₁.files.get w.files.next
          = some ⟨p, s.flags, ⟨⟨i, s.flags⟩, decide (g.1 = .ok), false⟩⟩ := by
        rw [hfiles]
        exact Table.get_alloc_next ..
      have hh : Holds w₁ w.files.next ⟨p, s.flags, ⟨⟨i, s.flags⟩, decide (g.1 = .ok), false⟩⟩ g.2 :=
        ⟨hlive, hi, rfl⟩
      have hp₁ : Sane st w₁ := by
        have := (touches_serve hs (r := .openFile p s.flags s.opening) rfl).sane hp hs
        rwa [hs₁] at this
      rw [Session.edits, Machine.run_cons, hs₁] at hv
      obtain ⟨h1, h2, -⟩ := acts_run st hh s.acts
      have hsv := sane_acts hp₁ hh s.acts
      dsimp only at hv
      rw [hv] at h1 h2 hsv
      have hfv := h1.live.symm.trans hf
      obtain rfl := Option.some.inj hfv
      have hfol' := h2.follow hh.node h1.node (getAbsolutePath st p)
      refine ⟨i, rfl, h1, hsv, h2.bucket.trans hb, ?_, hfol'.trans hfol⟩
      rw [hfol', h2.dirent]
      exact hd

end CloudFS
