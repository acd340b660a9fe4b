import CloudFS.Session.Run

/-!
# Session/Isolation — which paths share their object

The object and the metadata file of a path are named by its key, and `get_key` turns every `/` into
a `+`.  Operations on one path leave another alone exactly when their keys differ
(`isolated_iff`): then a request about one keeps to names and an object the other does not use
(`touches_serve`), and otherwise a session that uploads the one replaces the object of the other.
-/

namespace CloudFS

open Posix Posix.Fs

variable {st : CloudfsState} {w w' : World} {p q : Name}

/-! ## Reading a path back -/

/-- What an open of `q` and one read through its handle are answered. -/
def readBack (st : CloudfsState) (q : Name) (env : OpenEnv) (flags : OpenFlags)
    (size offset : ℕ) (w : World) : Reply :=
  (serve st (serve st w (.openFile q flags env)).1 (.read w.files.next size offset none)).2

/-- **A later session reads the object**, nothing if there is none. -/
theorem readBack_eq {env : OpenEnv} (henv : env.SsdOk) (hget : env.get.answer = .served)
    {flags : OpenFlags} (hr : flags.readable = true) (size offset : ℕ) :
    readBack st q env flags size offset w
      = .data (((w.bucket (getKey q)).getD Content.empty).bytes.slice offset size) := by
  have hh := holds_afterOpen st env q flags w
  obtain ⟨-, -, h3⟩ := act_serve st hh (.read size offset none)
  rw [readBack, serve_open henv]
  refine h3.trans ?_
  rw [Act.reply, GetEnv.fetched_served henv.flush hget, disturb_none]
  exact congrArg _ (if_pos hr)

/-! ## Isolation -/

/-- A state reached while every call and every request succeeded. -/
def CalmlyReachable (st : CloudfsState) (w : World) : Prop :=
  ∃ umask clock rs,
    Machine.Legal (serve st) (fun w r => r.Calm ∧ r.Proper st w)
      (World.init (Fs.empty umask clock)) rs ∧
    (Machine.run (serve st) (World.init (Fs.empty umask clock)) rs).1 = w

/-- Requests about `p` change neither the size reported of `q` nor what a later session on `q`
reads. -/
def Isolated (st : CloudfsState) (p q : Name) : Prop :=
  ∀ w, CalmlyReachable st w → ∀ rs,
    Machine.Legal (serve st) (fun w r => r.Calm ∧ r.target w = some p) w rs →
    let w' := (Machine.run (serve st) w rs).1
    (∀ env : GetattrEnv, env.SsdOk → (cloudfsGetattr st env q w').map Stat.st_size
      = (cloudfsGetattr st env q w).map Stat.st_size) ∧
    ∀ env : OpenEnv, env.SsdOk → env.get.answer = .served → ∀ flags : OpenFlags,
      flags.readable = true → ∀ size offset,
        readBack st q env flags size offset w' = readBack st q env flags size offset w

theorem CalmlyReachable.sane (hw : CalmlyReachable st w) : Sane st w := by
  obtain ⟨umask, clock, rs, hl, rfl⟩ := hw
  exact Machine.invariant_run (I := Sane st) (fun _ _ hs hr => sane_serve hs hr.2) rs _
    (sane_init st umask clock) hl

/-- The names and the object of `q` lead to the same in both worlds. -/
structure SameAt (st : CloudfsState) (q : Name) (w w' : World) : Prop where
  file : w'.ssd.look (getAbsolutePath st q) = w.ssd.look (getAbsolutePath st q)
  metadata : w'.ssd.look (getMetadataPath st q) = w.ssd.look (getMetadataPath st q)
  object : w'.bucket (getKey q) = w.bucket (getKey q)

/-- **A change that keeps to `p` cannot be seen at a path of another key.** -/
theorem Touches.sameAt (ht : Touches st p w w') (hp : Outside st p) (hq : Outside st q)
    (hk : getKey p ≠ getKey q) : SameAt st q w w' where
  file := ht.ssd.look (absolute_not_mem_ssdNames hq fun e => hk (e ▸ rfl))
  metadata := ht.ssd.look (metadata_not_mem_ssdNames hp hk)
  object := ht.bucket _ hk.symm

/-- Requests about `p` cannot be seen at a path of another key. -/
theorem sameAt_run (hp : Outside st p) (hq : Outside st q) (hk : getKey p ≠ getKey q)
    (hs : Sane st w) {rs : List Req}
    (hl : Machine.Legal (serve st) (fun w r => r.Calm ∧ r.target w = some p) w rs) :
    Sane st (Machine.run (serve st) w rs).1 ∧ SameAt st q w (Machine.run (serve st) w rs).1 := by
  refine Machine.invariant_run (I := fun v => Sane st v ∧ SameAt st q w v)
    (fun v r hv hr => ?_) rs w ⟨hs, rfl, rfl, rfl⟩ hl
  have ht := touches_serve hv.1 hr.2
  obtain ⟨h1, h2, h3⟩ := ht.sameAt hp hq hk
  exact ⟨ht.sane hp hv.1, h1.trans hv.2.file, h2.trans hv.2.metadata, h3.trans hv.2.object⟩

/-- What is reported of a path is a matter of its names. -/
theorem SameAt.getattr (h : SameAt st q w w') (hs : Sane st w) (hs' : Sane st w')
    {env : GetattrEnv} (henv : env.SsdOk) :
    cloudfsGetattr st env q w' = cloudfsGetattr st env q w := by
  rw [cloudfsGetattr_eq henv (fun _ => hs.readlink_absolute) (hs.readlink_metadata q),
    cloudfsGetattr_eq henv (fun _ => hs'.readlink_absolute) (hs'.readlink_metadata q), h.file,
    h.metadata]

/-! ## Two paths with one key -/

/-- A session that writes the byte 1 over the start of a file. -/
def oneByteSession : Session :=
  ⟨⟨.rdwr, false⟩, OpenEnv.calm, [.write [1] 0 none], ReleaseEnv.calm⟩

theorem calm_oneByteSession : oneByteSession.Calm where
  opening := OpenEnv.ssdOk_calm
  acts := by simp [oneByteSession, Act.SsdOk]
  closing := ReleaseEnv.ssdOk_calm
  get := rfl
  put := rfl
  delete := rfl

/-- At threshold 0, that session on a path without an object uploads its byte. -/
theorem bucket_oneByteSession (hT : st.threshold = 0) (hs : Sane st w) (hp : Outside st p)
    (hb : w.bucket (getKey p) = none) :
    (Machine.run (serve st) w (oneByteSession.reqs p w.files.next)).1.bucket (getKey p)
      = some ⟨[1], by decide⟩ := by
  obtain ⟨v, -, -, -, -, hrun⟩ :=
    session_run hs hp (s := oneByteSession) OpenEnv.ssdOk_calm ReleaseEnv.ssdOk_calm
  have hg : GetEnv.fetched ⟨none, .served, none⟩ w.bucket (getKey p)
      = (.failed .errorNoSuchKey, Content.empty) := by
    rw [GetEnv.fetched_of_flush rfl]
    simp only [cloudGetObject, hb]
  have hc : Content.empty.write 0 [1] = some ⟨[1], by decide⟩ := by decide
  simp only [oneByteSession, OpenEnv.calm, Session.left, List.foldl, Act.edit, hg] at hrun
  simp only [oneByteSession, OpenEnv.calm, hrun]
  simp [afterReleaseFile, World.closed, World.linked, World.uploaded, opened, FuseFile.wrote, hT,
    OpenFlags.writable, OpenFlags.landing, hc, Content.size, hg, ReleaseEnv.calm,
    cloudPutObject_self, PutAnswer.applied]

/-- Making files changes no object. -/
theorem bucket_mknods (paths : List Name) (w : World) :
    (Machine.run (serve st) w (paths.map fun x => .mknod x 0o644 none)).1.bucket = w.bucket := by
  induction paths generalizing w with
  | nil => rfl
  | cons x paths ih =>
    refine (ih _).trans ?_
    rw [serve, cloudfsMknod]
    split <;> rfl

variable (st) in
/-- Making files on paths outside the metadata directory leads to calmly reachable states. -/
theorem calmlyReachable_mknods (paths : List Name) (hp : ∀ x ∈ paths, Outside st x) :
    CalmlyReachable st (Machine.run (serve st) (World.init (Fs.empty 0 ⟨0, 0⟩))
      (paths.map fun x => .mknod x 0o644 none)).1 := by
  refine ⟨0, ⟨0, 0⟩, _, ?_, rfl⟩
  generalize World.init (Fs.empty 0 ⟨0, 0⟩) = w
  induction paths generalizing w with
  | nil => trivial
  | cons x paths ih =>
    refine ⟨⟨rfl, ?_⟩, ih (fun y hy => hp y (List.mem_cons_of_mem _ hy)) _⟩
    rintro y hy
    obtain rfl := Option.some.inj hy
    exact hp x List.mem_cons_self

/-- **At threshold 0, a path is isolated from another exactly when their keys differ.** -/
theorem isolated_iff (hT : st.threshold = 0) (hp : Outside st p) (hq : Outside st q) :
    Isolated st p q ↔ getKey p ≠ getKey q := by
  constructor
  · intro hi hk
    have hw : CalmlyReachable st _ := calmlyReachable_mknods st [p, q]
      (by simp [hp, hq])
    have hb : ∀ k, (Machine.run (serve st) (World.init (Fs.empty 0 ⟨0, 0⟩))
        ([p, q].map fun x => .mknod x 0o644 none)).1.bucket k = none :=
      fun k => congrFun (bucket_mknods [p, q] _) k
    revert hw hb
    generalize (Machine.run (serve st) (World.init (Fs.empty 0 ⟨0, 0⟩))
      ([p, q].map fun x => .mknod x 0o644 none)).1 = w
    intro hw hb
    have hsession := legal_session hw.sane hp calm_oneByteSession
    have hread := (hi w hw _ hsession).2 OpenEnv.calm OpenEnv.ssdOk_calm rfl ⟨.rdonly, false⟩
      rfl 1 0
    rw [readBack_eq OpenEnv.ssdOk_calm rfl rfl, readBack_eq OpenEnv.ssdOk_calm rfl rfl, ← hk,
      bucket_oneByteSession hT hw.sane hp (hb _), hb _] at hread
    exact absurd hread (by decide)
  · intro hk w hw rs hl
    obtain ⟨hs, hsame⟩ := sameAt_run hp hq hk hw.sane hl
    refine ⟨fun env henv => by rw [hsame.getattr hw.sane hs henv], ?_⟩
    intro env henv hget flags hr size offset
    rw [readBack_eq henv hget hr, readBack_eq henv hget hr, hsame.object]

theorem isolated_iff_a_b :
    Isolated (.sample 0) ['/', 'a'] ['/', 'b'] ↔ getKey ['/', 'a'] ≠ getKey ['/', 'b'] :=
  isolated_iff rfl (by decide) (by decide)

/-- **A session on `/a/b` changes what is read from `/a+b`.** -/
theorem not_isolated_slash_plus :
    Outside (.sample 0) ['/', 'a', '/', 'b'] ∧ Outside (.sample 0) ['/', 'a', '+', 'b'] ∧
      ¬ Isolated (.sample 0) ['/', 'a', '/', 'b'] ['/', 'a', '+', 'b'] := by
  refine ⟨by decide, by decide, fun hi => ?_⟩
  have hw : CalmlyReachable (.sample 0) _ :=
    calmlyReachable_mknods _ [['/', 'a', '/', 'b'], ['/', 'a', '+', 'b']]
      (by decide)
  have hsession := legal_session hw.sane (p := ['/', 'a', '/', 'b']) (by decide)
    calm_oneByteSession
  have hread := (hi _ hw _ hsession).2 OpenEnv.calm OpenEnv.ssdOk_calm rfl ⟨.rdonly, false⟩ rfl 1 0
  exact absurd hread (by decide)

end CloudFS
