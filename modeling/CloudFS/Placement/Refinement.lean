import CloudFS.Placement.Invariant
import CloudFS.Placement.PlainFs

/-!
# Placement/Refinement — `cloudfs` at threshold 0 is a plain file system

At threshold 0 a file on the SSD is empty, so the open that empties it keeps its content, and every
operation answers what the plain file system answers (`refines_step`).  The relation is `Tracks`
for the contents of the plain file system, and one handle table read through the other; the
simulation rule takes it to runs (`refines_plainFs`).
-/

namespace CloudFS

open Posix Posix.Fs PlainFs

variable {st : CloudfsState} {w : World} {a : PlainFs.State} {p : Name} {h : Handle}
  {f : FuseFile} {c : Content}

/-- What a reply tells a plain file system: of attributes, the size. -/
def Reply.out : Reply → Out
  | .done => .done
  | .handle h => .handle h
  | .data b => .data b
  | .count n => .count n
  | .attr s => .size s.st_size.toNat
  | .fail _ => .refused

/-- The calm requests that ask for an operation of the plain file system. -/
inductive Asks : Op → Req → Prop
  | mknod (path : Name) (mode : UInt32) : Asks (.mknod path) (.mknod path mode none)
  | openFile (path : Name) (flags : OpenFlags) (env : OpenEnv) (hok : env.SsdOk)
    (hget : env.get.answer = .served) : Asks (.openFile path flags) (.openFile path flags env)
  | read (h size offset : ℕ) : Asks (.read h size offset) (.read h size offset none)
  | write (h : ℕ) (buf : Bytes) (offset : ℕ) :
    Asks (.write h buf offset) (.write h buf offset none)
  | release (h : ℕ) (env : ReleaseEnv) (hok : env.SsdOk) (hput : env.put.answer = .served)
    (hdel : env.delete = .served) : Asks (.release h) (.release h env)
  | unlink (path : Name) (env : UnlinkEnv) (hok : env.SsdOk) (hdel : env.delete = .served) :
    Asks (.unlink path) (.unlink path env)
  | getattr (path : Name) (env : GetattrEnv) (hok : env.SsdOk) :
    Asks (.getattr path) (.getattr path env)
  | fgetattr (h : ℕ) : Asks (.fgetattr h) (.fgetattr h none)
  | remount : Asks .remount .remount
  | tick (now : Timespec) : Asks .tick (.tick now)

/-- What the plain file system keeps of an open file. -/
def FuseFile.key (f : FuseFile) : Name × OpenFlags := (f.path, f.flags)

/-- **The relation of the refinement.** -/
structure Refines (st : CloudfsState) (w : World) (a : PlainFs.State) : Prop where
  tracks : Tracks st w a.file
  handles : Table.Maps FuseFile.key w.files a.handles

/-- A handle of the plain file system is open on a file that holds the content of its path. -/
theorem Refines.holds (hR : Refines st w a) {flags : OpenFlags}
    (hh : a.handles.get h = some (p, flags)) :
    ∃ f c, f.path = p ∧ f.flags = flags ∧ Holds w h f c ∧ Owns st w f ∧ a.file p = some c := by
  obtain ⟨f, hf, hk⟩ := hR.handles.exists_of_get hh
  obtain ⟨rfl, rfl⟩ := Prod.mk.inj hk
  obtain ⟨ph, hr, hc⟩ := hR.tracks.rep f.path (hR.tracks.clean h f hf)
  obtain ⟨c, hcc, hh', ho⟩ := hr.holds hf rfl
  exact ⟨f, c, rfl, rfl, hh', ho, hc.symm.trans hcc⟩

/-- A path on which the plain file system has no handle open has none. -/
theorem Refines.idle (hR : Refines st w a) (hi : a.Idle p) : Idle w p := by
  intro h f hf hfp
  refine hi h f.key ?_ hfp
  rw [← hR.handles.get, hf]
  rfl

theorem files_release (hf : w.files.get h = some f) (hs : Sane st w) (env : ReleaseEnv) :
    (serve st w (.release h env)).1.files = w.files.erase h := by
  rw [serve, onFile, hf]
  exact congrArg (fun t : Table FuseFile => t.erase h)
    (keeps_releaseFile (hs.closed f.path) env).files

/-- The plain file system seen through an open handle. -/
theorem onHandle_eq {flags : OpenFlags} (hh : a.handles.get h = some (p, flags))
    (hc : a.file p = some c) (op : Name → OpenFlags → Content → PlainFs.State × Out) :
    a.onHandle h op = op p flags c := by
  simp only [PlainFs.State.onHandle, hh, hc]

/-- A request that moves one path to a phase of the content the plain file system gives it. -/
theorem Refines.moved (hR : Refines st w a) (hp : Clean st p) {r : Req}
    (htgt : r.target w = some p) {ph : Phase st.threshold} (hr : RepAt st (serve st w r).1 p ph)
    {a' : PlainFs.State} (hc : ph.content = a'.file p) (hne : ∀ q, q ≠ p → a'.file q = a.file q)
    (hf : Table.Maps FuseFile.key (serve st w r).1.files a'.handles) :
    Refines st (serve st w r).1 a' :=
  ⟨hR.tracks.touched hp (touches_serve hR.tracks.sane htgt) hr hc hne, hf⟩

/-! ## One request -/

theorem refines_mknod (hT : st.threshold = 0) (hR : Refines st w a) (hp : Clean st p)
    (mode : UInt32) :
    Refines st (serve st w (.mknod p mode none)).1 (step a (.mknod p)).1 ∧
      (serve st w (.mknod p mode none)).2.out = (step a (.mknod p)).2 := by
  obtain ⟨ph, hr, hc⟩ := hR.tracks.rep p hp
  cases ha : a.file p with
  | none =>
    have hn : ph.content = none := hc.trans ha
    obtain ⟨h1, h2⟩ := hr.mknod hT.ge hp.toOutside hn mode
    simp only [step, ha]
    refine ⟨hR.moved hp rfl h1 ?_ (fun q hq => a.file_put_of_ne _ hq) ?_, by rw [h2]; rfl⟩
    · rw [Phase.content_settled, PlainFs.State.file_put_self]
    · have hf : (serve st w (.mknod p mode none)).1.files = w.files :=
        (keeps_mknod st w p none mode).files
      rw [hf]
      exact hR.handles
  | some c =>
    have hn : ph.content ≠ none := by rw [hc, ha]; simp
    simp only [step, ha, hr.mknod_exists hn mode]
    exact ⟨hR, rfl⟩

theorem refines_openFile (hT : st.threshold = 0) (hR : Refines st w a) (hp : Clean st p)
    (he : (a.file p).isSome) (hi : a.Idle p) (flags : OpenFlags) {env : OpenEnv}
    (henv : env.SsdOk) (hget : env.get.answer = .served) :
    Refines st (serve st w (.openFile p flags env)).1 (step a (.openFile p flags)).1 ∧
      (serve st w (.openFile p flags env)).2.out = (step a (.openFile p flags)).2 := by
  obtain ⟨ph, hr, hc⟩ := hR.tracks.rep p hp
  obtain ⟨c, ha⟩ := Option.isSome_iff_exists.1 he
  have hidle := hR.idle hi
  obtain ⟨h1, h2⟩ := hr.openFile hp.toOutside hidle henv hget flags
  simp only [step, ha]
  refine ⟨hR.moved hp rfl h1 ?_ (fun _ _ => rfl) ?_, ?_⟩
  · refine (Phase.content_opened hT (hr.flags_of_idle hidle) ?_).trans hc
    rw [hc, ha]
    simp
  · rw [serve_open henv]
    exact hR.handles.alloc (opened env p flags w)
  · rw [h2, Reply.out, hR.handles.next]

theorem refines_read (hR : Refines st w a) {flags : OpenFlags}
    (hh : a.handles.get h = some (p, flags)) (hrd : flags.readable = true) (size offset : ℕ) :
    Refines st (serve st w (.read h size offset none)).1 (step a (.read h size offset)).1 ∧
      (serve st w (.read h size offset none)).2.out = (step a (.read h size offset)).2 := by
  obtain ⟨f, c, rfl, rfl, hf, -, ha⟩ := hR.holds hh
  have hw : (serve st w (.read h size offset none)).1 = w := serve_read_fst ..
  obtain ⟨-, -, h3⟩ := act_serve st hf (.read size offset none)
  have hreply : (serve st w (.read h size offset none)).2 = .data (c.bytes.slice offset size) :=
    h3.trans (by simp only [Act.reply, disturb_none, if_pos hrd, Reply.ofResult])
  rw [hw, hreply, step, onHandle_eq hh ha, if_pos hrd]
  exact ⟨hR, rfl⟩

theorem refines_write (hR : Refines st w a) {flags : OpenFlags}
    (hh : a.handles.get h = some (p, flags)) (hwr : flags.writable = true) (buf : Bytes)
    (offset : ℕ) :
    Refines st (serve st w (.write h buf offset none)).1 (step a (.write h buf offset)).1 ∧
      (serve st w (.write h buf offset none)).2.out = (step a (.write h buf offset)).2 := by
  obtain ⟨f, c, rfl, rfl, hf, -, ha⟩ := hR.holds hh
  have hp := hR.tracks.clean h f hf.live
  obtain ⟨ph, hr, hc⟩ := hR.tracks.rep f.path hp
  have hr' := hr.write hp.toOutside hf.live rfl (hc.trans ha) buf offset none
  obtain ⟨h1, h2, h3⟩ := act_serve st hf (.write buf offset none)
  have htgt : (Req.write h buf offset none).target w = some f.path := by
    rw [Req.target, hf.live]
    rfl
  have hmaps : Table.Maps FuseFile.key (serve st w (.write h buf offset none)).1.files
      a.handles := by
    refine hR.handles.congr (fun k => ?_) h2.handles
    by_cases hk : k = h
    · subst hk
      rw [hf.live]
      exact (congrArg (Option.map FuseFile.key) h1.live).trans rfl
    · exact congrArg (Option.map FuseFile.key) (h2.handle k hk)
  rw [step, onHandle_eq hh ha, if_pos hwr]
  have hreply : (serve st w (.write h buf offset none)).2 = _ := h3
  rw [hreply, Act.reply, if_pos hwr]
  simp only [Act.edit, hwr, and_self, if_true] at hr'
  cases hd : c.write (f.flags.landing c offset) buf with
  | some d =>
    rw [hd, Option.getD_some] at hr'
    refine ⟨hR.moved hp htgt hr' ?_ (fun q hq => a.file_put_of_ne _ hq) hmaps, rfl⟩
    rw [Phase.content_written, PlainFs.State.file_put_self]
  | none =>
    rw [hd, Option.getD_none] at hr'
    refine ⟨hR.moved hp htgt hr' ?_ (fun _ _ => rfl) hmaps, rfl⟩
    rw [Phase.content_written, ha]

theorem refines_release (hR : Refines st w a) {flags : OpenFlags}
    (hh : a.handles.get h = some (p, flags)) {env : ReleaseEnv} (henv : env.SsdOk)
    (hput : env.put.answer = .served) (hdel : env.delete = .served) :
    Refines st (serve st w (.release h env)).1 (step a (.release h)).1 ∧
      (serve st w (.release h env)).2.out = (step a (.release h)).2 := by
  obtain ⟨f, c, rfl, rfl, hf, -, ha⟩ := hR.holds hh
  have hp := hR.tracks.clean h f hf.live
  obtain ⟨ph, hr, hc⟩ := hR.tracks.rep f.path hp
  obtain ⟨h1, h2⟩ := hr.release hR.tracks.sane hp.toOutside hf.live rfl henv hput hdel
  have htgt : (Req.release h env).target w = some f.path := by
    rw [Req.target, hf.live]
    rfl
  rw [step, onHandle_eq hh ha, h2]
  refine ⟨hR.moved hp htgt h1 ?_ (fun _ _ => rfl) ?_, rfl⟩
  · rw [Phase.content_released, hc]
  · rw [files_release hf.live hR.tracks.sane env]
    exact hR.handles.erase h

theorem refines_unlink (hR : Refines st w a) (hp : Clean st p) (he : (a.file p).isSome)
    (hi : a.Idle p) {env : UnlinkEnv} (henv : env.SsdOk) (hdel : env.delete = .served) :
    Refines st (serve st w (.unlink p env)).1 (step a (.unlink p)).1 ∧
      (serve st w (.unlink p env)).2.out = (step a (.unlink p)).2 := by
  obtain ⟨ph, hr, hc⟩ := hR.tracks.rep p hp
  obtain ⟨c, ha⟩ := Option.isSome_iff_exists.1 he
  have hn : ph.content ≠ none := by rw [hc, ha]; simp
  obtain ⟨h1, h2⟩ := hr.unlink hR.tracks.sane hp.toOutside hn (hR.idle hi) henv hdel
  simp only [step, ha]
  refine ⟨hR.moved hp rfl h1 ?_ (fun q hq => a.file_put_of_ne _ hq) ?_, by rw [h2]; rfl⟩
  · rw [PlainFs.State.file_put_self]
    rfl
  · have hf : (serve st w (.unlink p env)).1.files = w.files :=
      (keeps_unlink st w p env).files
    rw [hf]
    exact hR.handles

theorem refines_getattr (hR : Refines st w a) (hp : Clean st p) {env : GetattrEnv}
    (henv : env.SsdOk) :
    (serve st w (.getattr p env)).2.out = (step a (.getattr p)).2 := by
  obtain ⟨ph, hr, hc⟩ := hR.tracks.rep p hp
  have hg := hr.getattr hR.tracks.sane henv
  rw [hc] at hg
  cases ha : a.file p with
  | none =>
    rw [ha] at hg
    simp only [serve, step, hg, ha]
    rfl
  | some c =>
    rw [ha] at hg
    obtain ⟨s, hs, hsz⟩ := hg
    simp only [serve, step, hs, ha, Reply.ofResult, Reply.out, hsz]

theorem refines_fgetattr (hR : Refines st w a) {flags : OpenFlags}
    (hh : a.handles.get h = some (p, flags)) :
    serve st w (.fgetattr h none) = (w, (serve st w (.fgetattr h none)).2) ∧
      (serve st w (.fgetattr h none)).2.out = (step a (.fgetattr h)).2 := by
  obtain ⟨f, c, rfl, rfl, hf, -, ha⟩ := hR.holds hh
  have hw : serve st w (.fgetattr h none)
      = (w, Reply.ofResult .attr (cloudfsFgetattr none f w)) := by
    rw [serve, onFile, hf.live]
  rw [hw, step, onHandle_eq hh ha]
  refine ⟨rfl, ?_⟩
  simp only [cloudfsFgetattr, disturb_none, Reply.ofResult, Reply.out, fstat,
    Inode.st_size_reg hf.node]

/-- **One request**: the relation is kept and the reply is the plain file system's. -/
theorem refines_step (hT : st.threshold = 0) (hR : Refines st w a) {op : Op} {r : Req}
    (ha : Asks op r) (hok : Ok (Clean st) a op) :
    Refines st (serve st w r).1 (step a op).1 ∧ (serve st w r).2.out = (step a op).2 := by
  cases ha with
  | mknod path mode => exact refines_mknod hT hR hok mode
  | openFile path flags env henv hget =>
    obtain ⟨hp, he, hi, -⟩ := hok
    exact refines_openFile hT hR hp he hi flags henv hget
  | read h size offset =>
    obtain ⟨p, flags, hh, hrd⟩ := hok
    exact refines_read hR hh hrd size offset
  | write h buf offset =>
    obtain ⟨p, flags, hh, hwr⟩ := hok
    exact refines_write hR hh hwr buf offset
  | release h env henv hput hdel =>
    obtain ⟨⟨p, flags⟩, hh⟩ := Option.isSome_iff_exists.1 hok
    exact refines_release hR hh henv hput hdel
  | unlink path env henv hdel =>
    obtain ⟨hp, he, hi⟩ := hok
    exact refines_unlink hR hp he hi henv hdel
  | getattr path env henv =>
    refine ⟨?_, refines_getattr hR hok henv⟩
    have hs : (step a (.getattr path)).1 = a := by
      rw [step]
      split <;> rfl
    rw [hs]
    exact hR
  | fgetattr h =>
    obtain ⟨⟨p, flags⟩, hh⟩ := Option.isSome_iff_exists.1 hok
    obtain ⟨h1, h2⟩ := refines_fgetattr hR hh
    obtain ⟨f, c, rfl, rfl, hf, -, ha⟩ := hR.holds hh
    refine ⟨?_, h2⟩
    rw [h1, step, onHandle_eq hh ha]
    exact hR
  | remount =>
    refine ⟨⟨hR.tracks.remount fun h => ?_, Table.Maps.empty⟩, rfl⟩
    have hn := hR.handles.get h
    rw [hok h] at hn
    exact Option.map_eq_none_iff.1 hn
  | tick now => exact ⟨⟨hR.tracks.tick now, hR.handles⟩, rfl⟩

/-- **At threshold 0 `cloudfs` refines the plain file system**: over every legal run, served by
requests none of which fails, every reply is the plain file system's. -/
theorem refines_plainFs (hT : st.threshold = 0) (umask : UInt32) (clock : Timespec)
    {ops : List Op} {rs : List Req} (ha : List.Forall₂ Asks ops rs)
    (hl : Machine.Legal step (Ok (Clean st)) PlainFs.init ops) :
    (Machine.run (serve st) (World.init (Fs.empty umask clock)) rs).2.map Reply.out
      = (Machine.run step PlainFs.init ops).2 := by
  have hsim : ∀ w a r op, Refines st w a → Asks op r → Ok (Clean st) a op →
      Refines st (serve st w r).1 (step a op).1 ∧ (serve st w r).2.out = (step a op).2 :=
    fun _ _ _ _ hR ha hok => refines_step hT hR ha hok
  exact (Machine.simulation_run hsim ha ⟨tracks_init umask clock, Table.Maps.empty⟩ hl).2

/-- A run that writes two bytes, reads them, and asks for their number twice. -/
theorem refines_plainFs_two_bytes :
    (Machine.run (serve (.sample 0)) (World.init (Fs.empty 0 ⟨0, 0⟩))
      [.mknod ['/', 'a'] 0o644 none, .openFile ['/', 'a'] ⟨.rdwr, false⟩ OpenEnv.calm,
        .write 0 [1, 2] 0 none, .read 0 4096 0 none, .fgetattr 0 none, .release 0 ReleaseEnv.calm,
        .getattr ['/', 'a'] ⟨none, none, none⟩]).2.map Reply.out
      = (Machine.run step PlainFs.init
          [.mknod ['/', 'a'], .openFile ['/', 'a'] ⟨.rdwr, false⟩, .write 0 [1, 2] 0,
            .read 0 4096 0, .fgetattr 0, .release 0, .getattr ['/', 'a']]).2 := by
  have hp : Clean (.sample 0) ['/', 'a'] := by decide
  refine refines_plainFs rfl 0 ⟨0, 0⟩ ?_ ?_
  · exact .cons (.mknod ..) (.cons (.openFile _ _ _ OpenEnv.ssdOk_calm rfl) (.cons (.write ..)
      (.cons (.read ..) (.cons (.fgetattr _) (.cons (.release _ _ ReleaseEnv.ssdOk_calm rfl rfl)
        (.cons (.getattr _ _ ⟨rfl, rfl, rfl⟩) .nil))))))
  · exact ⟨hp, ⟨hp, rfl, by decide, rfl⟩, ⟨_, _, rfl, rfl⟩, ⟨_, _, rfl, rfl⟩, rfl, rfl, hp, trivial⟩

end CloudFS
