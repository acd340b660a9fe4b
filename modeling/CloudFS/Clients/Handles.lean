import CloudFS.Placement.Phase
import CloudFS.Session.Isolation

/-!
# Clients/Handles — many handles on one path

Every open replaces the file its path leads to, and every release acts on whatever the path leads
to then, so handles on one path undo each other's work (`two_handles_lose_update`).  A request is
`Harmless` when it neither drops nor bypasses a file that is not in the bucket yet; over every
interleaving of harmless requests of any number of handles the path carries all that was written
(`carries_serve`), and once the last handle is released the bucket does (`keeps_updates`).
-/

namespace CloudFS

open Posix Posix.Fs

/-! ## What a path is served from -/

/-- What the path leads to. -/
def entry (st : CloudfsState) (w : World) (p : Name) : Option Node :=
  (w.ssd.look (getAbsolutePath st p)).map Inode.node

/-- What the bucket serves for the path. -/
def stored (w : World) (p : Name) : Content := (w.bucket (getKey p)).getD Content.empty

/-- A later session reads the content `c`. -/
def Serves (st : CloudfsState) (w : World) (p : Name) (c : Content) : Prop :=
  ∀ env : OpenEnv, env.SsdOk → env.get.answer = .served → ∀ flags : OpenFlags,
    flags.readable = true → ∀ size offset,
      readBack st p env flags size offset w = .data (c.bytes.slice offset size)

/-- The path's file, if the path is one, is what the bucket serves. -/
def Synced (st : CloudfsState) (w : World) (p : Name) : Prop :=
  match entry st w p with
  | some (.reg c) => stored w p = c
  | _ => True

/-- The path is a file. -/
def IsFile (st : CloudfsState) (w : World) (p : Name) : Prop :=
  match entry st w p with
  | some (.reg _) => True
  | _ => False

instance (st : CloudfsState) (w : World) (p : Name) : Decidable (Synced st w p) := by
  unfold Synced
  split <;> infer_instance

instance (st : CloudfsState) (w : World) (p : Name) : Decidable (IsFile st w p) := by
  unfold IsFile
  split <;> infer_instance

variable {st : CloudfsState} {w : World} {p : Name} {h : Handle} {f : FuseFile} {a c : Content}

/-- **A later session reads what the bucket serves.** -/
theorem serves_iff : Serves st w p c ↔ stored w p = c := by
  constructor
  · intro hs
    refine Content.ext (Bytes.eq_of_slice_eq fun offset size => ?_)
    have hr := hs OpenEnv.calm OpenEnv.ssdOk_calm rfl ⟨.rdonly, false⟩ rfl size offset
    rw [readBack_eq OpenEnv.ssdOk_calm rfl rfl] at hr
    exact Reply.data.inj hr
  · rintro rfl env henv hget flags hr size offset
    exact readBack_eq henv hget hr size offset

/-! ## Requests of handles -/

/-- The requests made of the handles of a path: opens, reads, writes and releases. -/
def Req.OfHandle : Req → Prop
  | .openFile .. | .read .. | .write .. | .release .. => True
  | _ => False

/-- **A request that loses nothing written**: an open finds no handle on the path, or a path whose
file is in the bucket; data is written through a handle of the file the path leads to; the release
of a clean proxy finds a path whose file is in the bucket, every other release a file. -/
def Req.Harmless (st : CloudfsState) (p : Name) (w : World) : Req → Prop
  | .openFile .. => Idle w p ∨ Synced st w p
  | .write h buf _ _ => ∀ f ∈ w.files.get h, f.flags.writable = true → buf ≠ [] → Owns st w f
  | .release h _ => ∀ f ∈ w.files.get h,
      if f.fh.proxy ∧ ¬ f.fh.dirty then Synced st w p else IsFile st w p
  | _ => True

/-- What a request makes of the content if it is a write that was answered with a count. -/
def Req.applied (w : World) (c : Content) : Req → Reply → Content
  | .write h buf offset _, .count _ =>
    match w.files.get h with
    | some f => (c.write (f.flags.landing c offset) buf).getD c
    | none => c
  | _, _ => c

/-- The content after all successful writes of a run, in the order they were made. -/
def written (st : CloudfsState) (w : World) (c : Content) : List Req → Content
  | [] => c
  | r :: rs => written st (serve st w r).1 (r.applied w c (serve st w r).2) rs

/-- A successful write edits the content. -/
theorem applied_write (hf : w.files.get h = some f) (c : Content) (buf : Bytes) (offset : ℕ)
    (fault : Fault) :
    (Req.write h buf offset fault).applied w c ((Act.write buf offset fault).reply f.flags c)
      = (Act.write buf offset fault).edit f.flags c := by
  cases fault with
  | some e => simp [Act.reply, Act.edit, Reply.ofResult, Req.applied]
  | none =>
    cases hw : f.flags.writable with
    | false => simp [Act.reply, Act.edit, Reply.ofResult, Req.applied, hw]
    | true =>
      cases hc : c.write (f.flags.landing c offset) buf with
      | none => simp [Act.reply, Act.edit, Reply.ofResult, Req.applied, hw, hc]
      | some d => simp [Act.reply, Act.edit, Reply.ofResult, Req.applied, hw, hc, hf]

/-- A write that is refused, or of nothing, is no edit. -/
theorem applied_nothing (hf : w.files.get h = some f) {buf : Bytes}
    (hn : f.flags.writable = true → buf = []) (a c : Content) (offset : ℕ) (fault : Fault) :
    (Req.write h buf offset fault).applied w a ((Act.write buf offset fault).reply f.flags c)
      = a := by
  cases hw : f.flags.writable with
  | false => cases fault <;> simp [Act.reply, Reply.ofResult, Req.applied, hw]
  | true =>
    obtain rfl := hn hw
    rcases hr : (Act.write [] offset fault).reply f.flags c with _ | _ | _ | n | _ | _
    case count => simp only [Req.applied, hf, Content.write_nil_getD]
    all_goals rfl

/-! ## The invariant -/

/-- **The path carries the content `a`**: the bucket serves it unless a handle is open and the path
is a file that holds it; the handles of the path are open on files. -/
structure Carries (st : CloudfsState) (p : Name) (w : World) (a : Content) : Prop where
  sane : Sane st w
  file : ∀ h f, w.files.get h = some f → f.path = p →
    f.fh.fd.flags = f.flags ∧ ∃ c, (w.ssd.inode f.fh.fd.ino).node = .reg c
  idle : Idle w p → stored w p = a
  live : ¬ Idle w p → (∃ t, entry st w p = some (.lnk t)) ∧ stored w p = a ∨
    entry st w p = some (.reg a) ∧ (stored w p).size ≤ a.size

/-- Before the first open a path carries what the bucket serves. -/
theorem carries_idle (hs : Sane st w) (hi : Idle w p) : Carries st p w (stored w p) where
  sane := hs
  file h f hf hfp := absurd hfp (hi h f hf)
  idle _ := rfl
  live hn := absurd hi hn

/-- The bucket serves the content whenever no file that differs from it is in use. -/
theorem Carries.stored_of_synced (hc : Carries st p w a) (hs : Idle w p ∨ Synced st w p) :
    stored w p = a := by
  by_cases hi : Idle w p
  · exact hc.idle hi
  · rcases hc.live hi with ⟨-, hb⟩ | ⟨he, -⟩
    · exact hb
    · have hs' := hs.resolve_left hi
      rw [Synced, he] at hs'
      exact hs'

/-- A file in use holds the content. -/
theorem Carries.entry_of_reg (hc : Carries st p w a) (hi : ¬ Idle w p)
    (he : entry st w p = some (.reg c)) : c = a ∧ (stored w p).size ≤ a.size := by
  rcases hc.live hi with ⟨⟨t, ht⟩, -⟩ | ⟨ha, hb⟩
  · exact absurd (ht.symm.trans he) (by simp)
  · exact ⟨Node.reg.inj (Option.some.inj (he.symm.trans ha)), hb⟩

theorem not_idle (hf : w.files.get h = some f) (hfp : f.path = p) : ¬ Idle w p :=
  fun hi => hi h f hf hfp

/-! ## Opening and writing -/

/-- **An open** finds the content in the bucket. -/
theorem Carries.openFile (hc : Carries st p w a) (hp : Outside st p) {env : OpenEnv}
    (henv : env.SsdOk) (hget : env.get.answer = .served) (flags : OpenFlags)
    (hr : Idle w p ∨ Synced st w p) : Carries st p (serve st w (.openFile p flags env)).1 a := by
  have ha := hc.stored_of_synced hr
  have hh := holds_afterOpen st env p flags w
  have hown := owns_afterOpen st env p flags w
  have hg : (env.get.fetched w.bucket (getKey p)).2 = a := by
    rw [GetEnv.fetched_served henv.flush hget]
    exact ha
  rw [hg] at hh
  rw [serve_open henv]
  refine ⟨sane_afterOpen hc.sane hp henv flags, fun k g hk hgp => ?_, fun _ => ha, fun _ => ?_⟩
  · rcases Table.get_alloc_eq_some hk with ⟨-, rfl⟩ | hk'
    · exact ⟨rfl, a, hh.node⟩
    · obtain ⟨hfl, c, hn⟩ := hc.file k g hk' hgp
      have hlt := (hc.sane.file k g hk').2.2
      exact ⟨hfl, c, (congrArg Inode.node (inode_create_of_lt hlt)).trans hn⟩
  · exact Or.inr ⟨hh.look hown rfl, le_of_eq (congrArg Content.size ha)⟩

/-- The handles of a path stay open on files when one of them edits its file. -/
theorem Carries.file_of_edits (hc : Carries st p w a) (hfl : f.fh.fd.flags = f.flags)
    {v : World} {b : Bool} (hh : Holds v h (f.wrote b) c) (he : EditsOnly h f.fh.fd.ino w v)
    (k : Handle) (g : FuseFile) (hk : v.files.get k = some g) (hgp : g.path = p) :
    g.fh.fd.flags = g.flags ∧ ∃ d, (v.ssd.inode g.fh.fd.ino).node = .reg d := by
  by_cases hkh : k = h
  · subst hkh
    obtain rfl := Option.some.inj (hh.live.symm.trans hk)
    exact ⟨hfl, _, hh.node⟩
  · rw [he.handle k hkh] at hk
    obtain ⟨hgl, d, hd⟩ := hc.file k g hk hgp
    refine ⟨hgl, ?_⟩
    by_cases hi : g.fh.fd.ino = f.fh.fd.ino
    · exact ⟨_, hi ▸ hh.node⟩
    · exact ⟨d, (congrArg Inode.node (he.inode _ hi)).trans hd⟩

/-- **A write** through a handle of the path's file edits what the path carries, and one that
writes no data leaves it. -/
theorem Carries.write (hc : Carries st p w a) (hf : w.files.get h = some f) (hfp : f.path = p)
    {buf : Bytes} (ho : f.flags.writable = true → buf ≠ [] → Owns st w f) (offset : ℕ)
    (fault : Fault) :
    Carries st p (serve st w (.write h buf offset fault)).1
      ((Req.write h buf offset fault).applied w a
        (serve st w (.write h buf offset fault)).2) := by
  obtain ⟨hfl, c, hn⟩ := hc.file h f hf hfp
  have hh : Holds w h f c := ⟨hf, hn, hfl⟩
  obtain ⟨h1, h2, h3⟩ := act_serve st hh (.write buf offset fault)
  have hsane := sane_acts hc.sane hh [.write buf offset fault]
  rw [Act.req] at h1 h2 h3
  have hb : stored (serve st w (.write h buf offset fault)).1 p = stored w p :=
    congrArg (Option.getD · Content.empty) (congrFun h2.bucket _)
  rw [h3]
  refine ⟨hsane, hc.file_of_edits hfl h1 h2, fun hi => (hi h _ h1.live hfp).elim, fun _ => ?_⟩
  by_cases how : Owns st w f
  · obtain ⟨rfl, hsize⟩ := hc.entry_of_reg (not_idle hf hfp) (hh.look how hfp)
    have ho' : Owns st (serve st w (.write h buf offset fault)).1 (f.wrote true) :=
      (congrFun h2.dirent _).trans how
    rw [applied_write hf]
    exact Or.inr ⟨h1.look ho' hfp,
      hb ▸ hsize.trans (size_le_edits f.flags [.write buf offset fault] c)⟩
  · have hnone : f.flags.writable = true → buf = [] := fun hw =>
      by_contra fun hne => how (ho hw hne)
    have he : entry st (serve st w (.write h buf offset fault)).1 p = entry st w p :=
      congrArg (Option.map Inode.node) (h2.look (hfp ▸ how))
    rw [applied_nothing hf hnone, he, hb]
    exact hc.live (not_idle hf hfp)

/-! ## Releasing -/

/-- A file that is stored leaves the inodes of other files files. -/
theorem reg_store {fs : Fs} {i : Ino} {c : Content} (hi : i < fs.next)
    (hn : (fs.inode i).node = .reg c) (x : Name) (d : Content) (mode : UInt32) :
    ∃ e, ((fs.store x d mode).inode i).node = .reg e := by
  by_cases hx : fs.dirent x = some i
  · have hs : fs.store x d mode = fs.setContent i d := by rw [store, hx]
    exact ⟨d, hs ▸ node_setContent_self ..⟩
  · exact ⟨c, (congrArg Inode.node (inode_store_of_ne hi hx mode)).trans hn⟩

/-- A release that leaves the content in the bucket, the path a link or a file of that content, and
files files. -/
structure Releases (st : CloudfsState) (p : Name) (w v : World) (a : Content) : Prop where
  file : ∀ i c, i < w.ssd.next → (w.ssd.inode i).node = .reg c →
    ∃ d, (v.ssd.inode i).node = .reg d
  files : v.files = w.files
  object : stored v p = a
  path : (∃ t, entry st v p = some (.lnk t)) ∨ entry st v p = some (.reg a)

theorem releases_linked (hs : stored w p = a) : Releases st p w (w.linked st p) a where
  file _ c hi hn := ⟨c, (congrArg Inode.node (inode_create_of_lt hi)).trans hn⟩
  files := rfl
  object := hs
  path := Or.inl ⟨_, congrArg (Option.map Inode.node) (look_create_self ..)⟩

/-- An upload puts the content in the bucket. -/
theorem releases_uploaded {ans : PutAnswer} (h : ans.applied = true) (stbuf : Stat) :
    Releases st p w ((w.uploaded st ans p a stbuf).linked st p) a where
  file i c hi hn := by
    obtain ⟨d, hd⟩ := reg_store hi hn (getMetadataPath st p) stbuf.content 0o644
    exact ⟨d, (congrArg Inode.node
      (inode_create_of_lt (hi.trans_le (next_le_next_store ..)))).trans hd⟩
  files := rfl
  object := by
    have hb : ((w.uploaded st ans p a stbuf).linked st p).bucket (getKey p) = some a :=
      (cloudPutObject_self ..).trans (by rw [h]; rfl)
    rw [stored, hb]
    rfl
  path := Or.inl ⟨_, congrArg (Option.map Inode.node) (look_create_self ..)⟩

/-- Without its object, an empty file is what the bucket serves. -/
theorem releases_forgotten (hp : Outside st p) (he : entry st w p = some (.reg a))
    (ha : a = Content.empty) : Releases st p w (w.forgotten st .served p) a where
  file _ c _ hn := ⟨c, hn⟩
  files := rfl
  object := by
    have hb : (w.forgotten st .served p).bucket (getKey p) = none :=
      (cloudDeleteObject_self DeleteAnswer.served).trans rfl
    rw [stored, hb, ha]
    rfl
  path := by
    refine Or.inr ((congrArg (Option.map Inode.node) ?_).trans he)
    exact look_remove_of_ne (hp.absolute_ne_metadata p)

/-- **The file part of a harmless release puts the content in the bucket.** -/
theorem Carries.releases (hc : Carries st p w a) (hT : st.threshold = 0)
    (hf : w.files.get h = some f) (hfp : f.path = p) {env : ReleaseEnv} (henv : env.SsdOk)
    (hput : env.put.answer = .served) (hdel : env.delete = .served)
    (hr : if f.fh.proxy ∧ ¬ f.fh.dirty then Synced st w p else IsFile st w p) :
    ∃ v, releaseFile st env f w = (v, .ok ()) ∧ Releases st p w v a := by
  subst hfp
  have hidle := not_idle hf rfl
  have hp := (hc.sane.file h f hf).1
  have hmeta := hc.sane.readlink_metadata f.path
  have hfile : ∀ c, entry st w f.path = some (.reg c) → ∃ i stbuf,
      w.ssd.dirent (getAbsolutePath st f.path) = some i ∧
        releaseFile st env f w = (afterReleaseFile st env f c stbuf w, .ok ()) := by
    intro c he
    obtain ⟨n, hn, hnc⟩ := Option.map_eq_some_iff.1 he
    obtain ⟨i, hi, rfl⟩ := look_eq_some_iff.1 hn
    exact ⟨i, _, hi, releaseFile_eq henv hp hi hnc hmeta⟩
  by_cases hclean : f.fh.proxy = true ∧ ¬ f.fh.dirty = true
  · rw [if_pos hclean] at hr
    refine ⟨w.linked st f.path, ?_, releases_linked (hc.stored_of_synced (Or.inr hr))⟩
    have hlook : ∃ n, w.ssd.look (getAbsolutePath st f.path) = some n := by
      rcases hc.live hidle with ⟨⟨t, ht⟩, -⟩ | ⟨ht, -⟩
      all_goals exact (Option.map_eq_some_iff.1 ht).imp fun n hn => hn.1
    obtain ⟨n, hn⟩ := hlook
    obtain ⟨i, hi, rfl⟩ := look_eq_some_iff.1 hn
    simp only [releaseFile, henv.lstat, disturb_none, lstat_of_look hn, hclean.1,
      Bool.not_eq_true _ ▸ hclean.2, makeProxy_eq henv hi, if_true, Bool.false_eq_true, if_false]
  · rw [if_neg hclean] at hr
    rcases hc.live hidle with ⟨⟨t, ht⟩, -⟩ | ⟨he, hsize⟩
    · rw [IsFile, ht] at hr
      exact hr.elim
    · obtain ⟨i, stbuf, -, hrel⟩ := hfile a he
      refine ⟨_, hrel, ?_⟩
      rw [afterReleaseFile, if_neg hclean, hT]
      split
      case isTrue ht => exact releases_uploaded (by rw [hput]; rfl) stbuf
      case isFalse ht =>
        have hz : a.size = 0 := by omega
        have ha := Content.size_eq_zero_iff.1 hz
        split
        case isTrue =>
          rw [hdel]
          exact releases_forgotten hp he ha
        case isFalse =>
          have hb : stored w f.path = a := by
            rw [ha]
            exact Content.size_eq_zero_iff.1 (by omega)
          exact ⟨fun _ c _ hn => ⟨c, hn⟩, rfl, hb, Or.inr he⟩

/-- **A harmless release** leaves the content in the bucket. -/
theorem Carries.release (hc : Carries st p w a) (hT : st.threshold = 0)
    (hf : w.files.get h = some f) (hfp : f.path = p) {env : ReleaseEnv} (henv : env.SsdOk)
    (hput : env.put.answer = .served) (hdel : env.delete = .served)
    (hr : if f.fh.proxy ∧ ¬ f.fh.dirty then Synced st w p else IsFile st w p) :
    Carries st p (serve st w (.release h env)).1 a := by
  obtain ⟨v, hv, hrel⟩ := hc.releases hT hf hfp henv hput hdel hr
  have hserve : (serve st w (.release h env)).1 = v.closed env h f.path := by
    rw [serve, onFile, hf]
    simp only [cloudfsRelease_eq hv]
    rfl
  have hsane : Sane st (serve st w (.release h env)).1 := by
    refine sane_serve hc.sane fun q hq => ?_
    have ht : (w.files.get h).map FuseFile.path = some q := hq
    rw [hf] at ht
    exact Option.some.inj ht ▸ (hc.sane.file h f hf).1
  rw [hserve] at hsane ⊢
  refine ⟨hsane, fun k g hk hgp => ?_, fun _ => hrel.object, fun _ => ?_⟩
  · have hk' : (w.files.erase h).get k = some g := hrel.files ▸ hk
    have hg := (Table.get_erase_eq_some hk').2
    obtain ⟨hgl, c, hn⟩ := hc.file k g hg hgp
    exact ⟨hgl, hrel.file _ c (hc.sane.file k g hg).2.2 hn⟩
  · exact hrel.path.imp (fun ht => ⟨ht, hrel.object⟩)
      fun he => ⟨he, (congrArg Content.size hrel.object).le⟩

/-! ## Any interleaving -/

/-- **One harmless request**: the path carries what the request made of the content. -/
theorem carries_serve (hT : st.threshold = 0) (hp : Outside st p) (hc : Carries st p w a) {r : Req}
    (hcalm : r.Calm) (ht : r.target w = some p) (hr : r.OfHandle) (hh : r.Harmless st p w) :
    Carries st p (serve st w r).1 (r.applied w a (serve st w r).2) := by
  have hfile : ∀ h, (w.files.get h).map FuseFile.path = some p →
      ∃ f, w.files.get h = some f ∧ f.path = p := fun h => Option.map_eq_some_iff.1
  cases r with
  | openFile path flags env =>
    obtain rfl := Option.some.inj ht
    exact hc.openFile hp hcalm.1 hcalm.2 flags hh
  | read h size offset fault =>
    rw [serve_read_fst]
    exact hc
  | write h buf offset fault =>
    obtain ⟨f, hf, hfp⟩ := hfile h ht
    exact hc.write hf hfp (hh f hf) offset fault
  | release h env =>
    obtain ⟨f, hf, hfp⟩ := hfile h ht
    exact hc.release hT hf hfp hcalm.1 hcalm.2.1 hcalm.2.2 (hh f hf)
  | mknod | truncate | utimens | getattr | unlink | fgetattr | ftruncate | remount | tick =>
    exact hr.elim

/-- Any number of them. -/
theorem carries_run (hT : st.threshold = 0) (hp : Outside st p) {rs : List Req}
    (hc : Carries st p w a)
    (hl : Machine.Legal (serve st)
      (fun w r => r.Calm ∧ r.target w = some p ∧ r.OfHandle ∧ r.Harmless st p w) w rs) :
    Carries st p (Machine.run (serve st) w rs).1 (written st w a rs) := by
  induction rs generalizing w a with
  | nil => exact hc
  | cons r rs ih =>
    obtain ⟨⟨hcalm, ht, hr, hh⟩, hl⟩ := hl
    exact ih (carries_serve hT hp hc hcalm ht hr hh) hl

/-- **No update is lost between harmless handles.**  From any reachable state in which no handle is
open on `p`, once every handle is released again a later session reads the result of all
successful writes, in the order they were made. -/
theorem keeps_updates (hT : st.threshold = 0) (hp : Outside st p) (hw : Reachable st w)
    (hi : Idle w p) (hs : Serves st w p c) {rs : List Req}
    (hl : Machine.Legal (serve st)
      (fun w r => r.Calm ∧ r.target w = some p ∧ r.OfHandle ∧ r.Harmless st p w) w rs)
    (hend : Idle (Machine.run (serve st) w rs).1 p) :
    Serves st (Machine.run (serve st) w rs).1 p (written st w c rs) := by
  obtain rfl := serves_iff.1 hs
  exact serves_iff.2 ((carries_run hT hp (carries_idle hw.sane hi) hl).idle hend)

/-- A mount on which `/a` was made. -/
def oneFile : World :=
  (serve (.sample 0) (World.init (Fs.empty 0 ⟨0, 0⟩)) (.mknod ['/', 'a'] 0o644 none)).1

/-- A reader that opens an uploaded file before its writer does, and outlives it. -/
theorem keeps_updates_reader :
    let w := (Machine.run (serve (.sample 0)) oneFile
      (oneByteSession.reqs ['/', 'a'] oneFile.files.next)).1
    let rs : List Req := [.openFile ['/', 'a'] ⟨.rdonly, false⟩ OpenEnv.calm,
      .openFile ['/', 'a'] ⟨.rdwr, false⟩ OpenEnv.calm, .write 2 [2] 1 none,
      .release 2 ReleaseEnv.calm, .release 1 ReleaseEnv.calm]
    Serves (.sample 0) (Machine.run (serve (.sample 0)) w rs).1 ['/', 'a']
      (written (.sample 0) w ⟨[1], by decide⟩ rs) := by
  have hp : Outside (.sample 0) ['/', 'a'] := by decide
  have hproper : ∀ (w : World) (r : Req), r.target w = some ['/', 'a'] →
      r.Proper (.sample 0) w := by
    intro w r ht q hq
    rw [ht] at hq
    exact Option.some.inj hq ▸ hp
  refine keeps_updates rfl hp ⟨0, ⟨0, 0⟩,
    [.mknod ['/', 'a'] 0o644 none, .openFile ['/', 'a'] ⟨.rdwr, false⟩ OpenEnv.calm,
      .write 0 [1] 0 none, .release 0 ReleaseEnv.calm], ?_, rfl⟩ (by decide)
    (serves_iff.2 (by decide)) ?_ (by decide)
  · exact ⟨hproper _ _ rfl, hproper _ _ rfl, hproper _ _ rfl, hproper _ _ rfl, trivial⟩
  · exact ⟨⟨⟨OpenEnv.ssdOk_calm, rfl⟩, rfl, trivial, Or.inl (by decide)⟩,
      ⟨⟨OpenEnv.ssdOk_calm, rfl⟩, rfl, trivial, Or.inr (by decide)⟩,
      ⟨rfl, rfl, trivial, by rintro f ⟨⟩ - -; decide⟩,
      ⟨⟨ReleaseEnv.ssdOk_calm, rfl, rfl⟩, rfl, trivial, by rintro f ⟨⟩; decide⟩,
      ⟨⟨ReleaseEnv.ssdOk_calm, rfl, rfl⟩, rfl, trivial, by rintro f ⟨⟩; decide⟩, trivial⟩

/-- **Two overlapping handles on a new file lose an update**: the byte written through the first
goes to a file the second open removed. -/
theorem two_handles_lose_update :
    let rs : List Req := [.openFile ['/', 'a'] ⟨.rdwr, false⟩ OpenEnv.calm,
      .openFile ['/', 'a'] ⟨.rdwr, false⟩ OpenEnv.calm, .write 0 [1] 0 none,
      .release 0 ReleaseEnv.calm, .release 1 ReleaseEnv.calm]
    let r := Machine.run (serve (.sample 0)) oneFile rs
    r.2 = [.handle 0, .handle 1, .count 1, .done, .done] ∧ Idle r.1 ['/', 'a'] ∧
      Serves (.sample 0) oneFile ['/', 'a'] Content.empty ∧
      (written (.sample 0) oneFile Content.empty rs).bytes = [1] ∧
      ¬ Serves (.sample 0) r.1 ['/', 'a'] (written (.sample 0) oneFile Content.empty rs) := by
  refine ⟨by decide, by decide, serves_iff.2 (by decide), by decide, ?_⟩
  rw [serves_iff]
  decide

end CloudFS
