import CloudFS.Versions.Deaths

/-!
# Versions/Refinement — `cloudfs` as the store many clients share

Any number of clients work on one bucket, each with its own threshold, in any order, and any of
them may die at any moment.  As long as no client opens a path it has open already, they are
answered as the version store answers, and the bucket holds the published versions
(`refines_versionStore`).  So an object is always the whole of what some client had in an open file
(`object_released`), and what a client reads is the version it opened and its own writes, whatever
the others do meanwhile (`reads_opened`).
-/

namespace CloudFS

open Posix Posix.Fs VersionStore

variable {ι : Type} {cfg : ι → CloudfsState}

/-! ## Clients of one bucket -/

/-- A client is asked something, or its process dies while it is asked it and is started again. -/
inductive Event
  | asks (r : Req)
  | dies (r : Req)

/-- What an event does to a mount and its bucket. -/
def Event.serve (st : CloudfsState) (w : World) : Event → World × Reply
  | .asks r => CloudFS.serve st w r
  | .dies r => ((CloudFS.serve st w r).1.remount, .done)

/-- One event of one of the clients. -/
def Net.serve [DecidableEq ι] (cfg : ι → CloudfsState) (n : Net ι) (x : ι × Event) :
    Net ι × Reply :=
  let r := x.2.serve (cfg x.1) (n.world x.1)
  (⟨Function.update n.mount x.1 r.1.toMount, r.1.bucket⟩, r.2)

/-- Clients with nothing on their SSDs, and an empty bucket. -/
def Net.blank (umask : ι → UInt32) (clock : ι → Timespec) : Net ι where
  mount i := Mount.init (Fs.empty (umask i) (clock i))
  bucket _ := none

/-- The events that ask for an operation of the version store, or are a death in one. -/
inductive Performs : Op → Event → Prop
  | mknod (path : Name) (mode : UInt32) : Performs (.mknod path) (.asks (.mknod path mode none))
  | openFile (path : Name) (flags : OpenFlags) (env : OpenEnv) (hok : env.SsdOk)
    (hget : env.get.answer = .served) :
    Performs (.openFile path flags) (.asks (.openFile path flags env))
  | read (h size offset : ℕ) :
    Performs (.read h size offset) (.asks (.read h size offset none))
  | write (h : ℕ) (buf : Bytes) (offset : ℕ) :
    Performs (.write h buf offset) (.asks (.write h buf offset none))
  | fgetattr (h : ℕ) : Performs (.fgetattr h) (.asks (.fgetattr h none))
  | utimens (path : Name) (atim mtim : Timespec) (ha : atim.Settable) (hm : mtim.Settable) :
    Performs (.utimens path) (.asks (.utimens path atim mtim none))
  | unlink (path : Name) (env : UnlinkEnv) (hok : env.SsdOk) (hdel : env.delete = .served) :
    Performs (.unlink path) (.asks (.unlink path env))
  | release (h : ℕ) (env : ReleaseEnv) (hok : env.SsdOk) (hput : env.put.answer = .served)
    (hdel : env.delete = .served) : Performs (.release h) (.asks (.release h env))
  | tick (now : Timespec) : Performs .tick (.asks (.tick now))
  | dies : Performs .dies (.asks .remount)
  | diesOpening (path : Name) (flags : OpenFlags) (env : OpenEnv) (hu : env.unlink = none) :
    Performs (.diesOpening path (decide (env.get.fopen = none)))
      (.dies (.openFile path flags env))
  | diesUnlinking (path : Name) (env : UnlinkEnv) (s : Stage) (hs : env.DiesAt s) :
    Performs (.diesUnlinking path s) (.dies (.unlink path env))
  | diesReleasing (h : ℕ) (env : ReleaseEnv) (s : Stage) (hs : env.DiesAt s) :
    Performs (.diesReleasing h s) (.dies (.release h env))

/-- An event of a client performs an operation of the same client. -/
def PerformsAt (x : ι × Op) (y : ι × Event) : Prop := x.1 = y.1 ∧ Performs x.2 y.2

/-- **The relation of the refinement.** -/
structure Versioned (cfg : ι → CloudfsState) (n : Net ι) (s : State ι) : Prop where
  mirrors : ∀ i, Mirrors (cfg i) (n.world i) (s.client i)
  publishes : Publishes n.bucket s.stored

/-- Nothing a mount is as a client is in the bucket. -/
theorem Mirrors.other_bucket {st : CloudfsState} {w : World} {l : Client} (hm : Mirrors st w l)
    (b : Bucket) : Mirrors st { w with bucket := b } l where
  sane := ⟨hm.sane.link, hm.sane.file⟩
  known := hm.known
  present := hm.present
  clean := hm.clean
  live h f hf := by
    obtain ⟨d, hd, ho⟩ := hm.live h f hf
    exact ⟨d, hd, ho.path, ho.flags, ho.proxy, ho.dirty,
      ⟨ho.holds.live, ho.holds.node, ho.holds.flags⟩, ho.owns⟩
  dead := hm.dead
  next := hm.next
  alone := hm.alone

theorem versioned_blank (umask : ι → UInt32) (clock : ι → Timespec) :
    Versioned cfg (Net.blank umask clock) VersionStore.init where
  mirrors i := mirrors_init (cfg i) (umask i) (clock i)
  publishes _ _ := rfl

/-! ## One event -/

/-- **One event of a mount** does what the operation does to the client. -/
theorem follows_event {st : CloudfsState} {w : World} {l : Client}
    {stored : Name → Option Content} (hm : Mirrors st w l) (hb : Publishes w.bucket stored)
    {op : Op} {e : Event} (ha : Performs op e) (hok : l.Ok (Clean st) op) :
    Follows st (e.serve st w) (l.step st.threshold stored op) := by
  have hdraft : ∀ {h : ℕ}, (l.drafts.get h).isSome → ∃ d, l.drafts.get h = some d :=
    Option.isSome_iff_exists.1
  cases ha with
  | mknod path mode => exact hm.mknod hb hok mode
  | openFile path flags env henv hget => exact hm.openFile hb hok.1 hok.2 henv hget flags
  | read h size offset =>
    obtain ⟨d, hd⟩ := hdraft hok
    exact hm.read hb hd size offset
  | write h buf offset =>
    obtain ⟨d, hd⟩ := hdraft hok
    exact hm.write hb hd buf offset
  | fgetattr h =>
    obtain ⟨d, hd⟩ := hdraft hok
    exact hm.fgetattr hb hd
  | utimens path atim mtim ha hmt => exact hm.utimens hb hok ha hmt
  | unlink path env henv hdel => exact hm.unlink hb hok.1 hok.2 henv hdel
  | release h env henv hput hdel =>
    obtain ⟨d, hd⟩ := hdraft hok
    exact hm.release hb hd henv hput hdel
  | tick now =>
    refine ⟨⟨⟨⟨hm.sane.link, hm.sane.file⟩, hm.known, hm.present⟩, hm.clean, fun h f hf => ?_,
      hm.dead, hm.next, hm.alone⟩, hb, rfl⟩
    obtain ⟨d, hd, ho⟩ := hm.live h f hf
    exact ⟨d, hd, ho.path, ho.flags, ho.proxy, ho.dirty,
      ⟨ho.holds.live, ho.holds.node, ho.holds.flags⟩, ho.owns⟩
  | dies => exact ⟨hm.toShelves.mirrors_restarted, hb, rfl⟩
  | diesOpening path flags env hu => exact hm.diesOpening hb hok.1 hu flags
  | diesUnlinking path env s hs => exact hm.diesUnlinking hb hok.1 hs
  | diesReleasing h env s hs =>
    obtain ⟨d, hd⟩ := hdraft hok
    exact hm.diesReleasing hb hd hs

variable [DecidableEq ι]

/-- **One event of one client**: the relation is kept, and the reply is the version store's. -/
theorem refines_event {n : Net ι} {s : State ι} (hR : Versioned cfg n s) {x : ι × Op}
    {y : ι × Event} (ha : PerformsAt x y) (hok : VersionStore.Ok (fun i => Clean (cfg i)) s x) :
    Versioned cfg (n.serve cfg y).1 (step (fun i => (cfg i).threshold) s x).1 ∧
      (n.serve cfg y).2.answer = (step (fun i => (cfg i).threshold) s x).2 := by
  obtain ⟨i, op⟩ := x
  obtain ⟨j, e⟩ := y
  obtain ⟨rfl, hop⟩ := ha
  obtain ⟨h1, h2, h3⟩ := follows_event (hR.mirrors i) hR.publishes hop hok
  refine ⟨⟨fun k => ?_, h2⟩, h3⟩
  by_cases hk : k = i
  · subst hk
    have hw : (n.serve cfg (k, e)).1.world k = (e.serve (cfg k) (n.world k)).1 := by
      have hmount : (n.serve cfg (k, e)).1.mount k = (e.serve (cfg k) (n.world k)).1.toMount :=
        Function.update_self ..
      rw [Net.world, hmount]
      rfl
    have hc : (step (fun i => (cfg i).threshold) s (k, op)).1.client k = _ :=
      Function.update_self ..
    rw [hw, hc]
    exact h1
  · have hw : (n.serve cfg (i, e)).1.world k
        = { n.world k with bucket := (e.serve (cfg i) (n.world i)).1.bucket } := by
      have hmount : (n.serve cfg (i, e)).1.mount k = n.mount k := Function.update_of_ne hk ..
      rw [Net.world, hmount]
      rfl
    have hc : (step (fun i => (cfg i).threshold) s (i, op)).1.client k = s.client k :=
      Function.update_of_ne hk ..
    rw [hw, hc]
    exact (hR.mirrors k).other_bucket _

/-- The relation after any legal run, and its replies. -/
theorem versioned_run {n : Net ι} {s : State ι} (hR : Versioned cfg n s) {ops : List (ι × Op)}
    {es : List (ι × Event)} (ha : List.Forall₂ PerformsAt ops es)
    (hl : Machine.Legal (step fun i => (cfg i).threshold)
      (VersionStore.Ok fun i => Clean (cfg i)) s ops) :
    Versioned cfg (Machine.run (Net.serve cfg) n es).1
        (Machine.run (step fun i => (cfg i).threshold) s ops).1 ∧
      (Machine.run (Net.serve cfg) n es).2.map Reply.answer
        = (Machine.run (step fun i => (cfg i).threshold) s ops).2 := by
  have hsim : ∀ (n : Net ι) (s : State ι) y x, Versioned cfg n s → PerformsAt x y →
      VersionStore.Ok (fun i => Clean (cfg i)) s x →
        Versioned cfg (n.serve cfg y).1 (step (fun i => (cfg i).threshold) s x).1 ∧
          (n.serve cfg y).2.answer = (step (fun i => (cfg i).threshold) s x).2 :=
    fun _ _ _ _ hR ha hok => refines_event hR ha hok
  exact Machine.simulation_run hsim ha hR hl

/-- **`cloudfs` refines the store many clients share**: over every legal run of any number of
clients, each with any threshold, with deaths at any moment, every reply is the version store's and
the bucket holds the published versions. -/
theorem refines_versionStore (umask : ι → UInt32) (clock : ι → Timespec) {ops : List (ι × Op)}
    {es : List (ι × Event)} (ha : List.Forall₂ PerformsAt ops es)
    (hl : Machine.Legal (step fun i => (cfg i).threshold)
      (VersionStore.Ok fun i => Clean (cfg i)) VersionStore.init ops) :
    let n := Machine.run (Net.serve cfg) (Net.blank umask clock) es
    let s := Machine.run (step fun i => (cfg i).threshold) VersionStore.init ops
    n.2.map Reply.answer = s.2 ∧ ∀ p, '+' ∉ p → n.1.bucket (getKey p) = s.1.stored p := by
  obtain ⟨hR, ho⟩ := versioned_run (versioned_blank umask clock) ha hl
  exact ⟨ho, hR.publishes⟩

/-- A byte written by a client that dies once its upload is done, and read by another. -/
theorem refines_versionStore_dying :
    let ops : List (Bool × Op) := [(false, .mknod ['/', 'a']),
      (false, .openFile ['/', 'a'] ⟨.rdwr, false⟩), (false, .write 0 [7] 0),
      (false, .diesReleasing 0 .asked), (true, .openFile ['/', 'a'] ⟨.rdonly, false⟩),
      (true, .read 0 4096 0)]
    let died : ReleaseEnv := { ReleaseEnv.calm with
      openMetadata := some .EINVAL, unlinkMetadata := some .EINVAL, unlink := some .EINVAL,
      symlink := some .EINVAL }
    let es : List (Bool × Event) := [(false, .asks (.mknod ['/', 'a'] 0o644 none)),
      (false, .asks (.openFile ['/', 'a'] ⟨.rdwr, false⟩ OpenEnv.calm)),
      (false, .asks (.write 0 [7] 0 none)), (false, .dies (.release 0 died)),
      (true, .asks (.openFile ['/', 'a'] ⟨.rdonly, false⟩ OpenEnv.calm)),
      (true, .asks (.read 0 4096 0 none))]
    let n := Machine.run (Net.serve fun _ => .sample 0) (Net.blank (fun _ => 0) fun _ => ⟨0, 0⟩) es
    let s := Machine.run (step fun _ => (CloudfsState.sample 0).threshold) VersionStore.init ops
    n.2.map Reply.answer = s.2 ∧ ∀ p, '+' ∉ p → n.1.bucket (getKey p) = s.1.stored p := by
  have hp : Clean (.sample 0) ['/', 'a'] := by decide
  refine refines_versionStore _ _ ?_ ?_
  · refine .cons ⟨rfl, .mknod ..⟩ (.cons ⟨rfl, .openFile _ _ _ OpenEnv.ssdOk_calm rfl⟩
      (.cons ⟨rfl, .write ..⟩ (.cons ⟨rfl, .diesReleasing _ _ _ ?_⟩
        (.cons ⟨rfl, .openFile _ _ _ OpenEnv.ssdOk_calm rfl⟩ (.cons ⟨rfl, .read ..⟩ .nil)))))
    exact ⟨by decide, rfl, rfl, rfl, by decide, by decide, by decide, by decide, by decide⟩
  · exact ⟨hp, ⟨hp, by decide⟩, rfl, rfl, ⟨hp, by decide⟩, rfl, trivial⟩

/-! ## Where objects come from -/

/-- The event is a release of the handle `h`, whether or not its process survives it. -/
def Event.Releases (h : Handle) (e : Event) : Prop :=
  ∃ env, e = .asks (.release h env) ∨ e = .dies (.release h env)

omit [DecidableEq ι] in
/-- What performs a release is one. -/
theorem Performs.releases {op : Op} {e : Event} {h : ℕ} (ha : Performs op e)
    (hop : op.Releases h) : e.Releases h := by
  rcases hop with rfl | ⟨s, rfl⟩
  · cases ha with
    | release _ env => exact ⟨env, Or.inl rfl⟩
  · cases ha with
    | diesReleasing _ env => exact ⟨env, Or.inr rfl⟩

/-- **Every object is the whole of a file that was released**: over every legal run, some client
had a file of exactly its content open when it released it. -/
theorem object_released (umask : ι → UInt32) (clock : ι → Timespec) {ops : List (ι × Op)}
    {es : List (ι × Event)} (ha : List.Forall₂ PerformsAt ops es)
    (hl : Machine.Legal (step fun i => (cfg i).threshold)
      (VersionStore.Ok fun i => Clean (cfg i)) VersionStore.init ops) {p : Name} (hp : '+' ∉ p)
    {c : Content}
    (ho : (Machine.run (Net.serve cfg) (Net.blank umask clock) es).1.bucket (getKey p) = some c) :
    ∃ es₁ i e es₂ h f, es = es₁ ++ (i, e) :: es₂ ∧ e.Releases h ∧ f.path = p ∧
      Holds ((Machine.run (Net.serve cfg) (Net.blank umask clock) es₁).1.world i) h f c := by
  obtain ⟨hR, -⟩ := versioned_run (versioned_blank umask clock) ha hl
  rw [hR.publishes p hp] at ho
  obtain ⟨ops₁, i, op, ops₂, h, d, rfl, hop, hd, rfl, rfl⟩ := stored_released ho
  obtain ⟨es₁, es', rfl, ha₁, ha'⟩ := Machine.forall₂_append_left ha
  obtain ⟨⟨j, e⟩, es₂, ⟨rfl, he⟩, -, rfl⟩ := List.forall₂_cons_left_iff.1 ha'
  -- the draft is an open file in the state the release met
  obtain ⟨hR₁, -⟩ := versioned_run (versioned_blank umask clock) ha₁ (Machine.legal_append.1 hl).1
  obtain ⟨f, -, hf⟩ := (hR₁.mirrors i).exists_of_get hd
  exact ⟨es₁, i, e, es₂, h, f, rfl, he.releases hop, hf.path, hf.holds⟩

/-- The byte of a client that died once its upload was done. -/
theorem object_released_dying :
    let died : ReleaseEnv := { ReleaseEnv.calm with
      openMetadata := some .EINVAL, unlinkMetadata := some .EINVAL, unlink := some .EINVAL,
      symlink := some .EINVAL }
    let es : List (Bool × Event) := [(false, .asks (.mknod ['/', 'a'] 0o644 none)),
      (false, .asks (.openFile ['/', 'a'] ⟨.rdwr, false⟩ OpenEnv.calm)),
      (false, .asks (.write 0 [7] 0 none)), (false, .dies (.release 0 died))]
    let blank : Net Bool := Net.blank (fun _ => 0) fun _ => ⟨0, 0⟩
    ∃ es₁ i e es₂ h f, es = es₁ ++ (i, e) :: es₂ ∧ e.Releases h ∧ f.path = ['/', 'a'] ∧
      Holds ((Machine.run (Net.serve fun _ => .sample 0) blank es₁).1.world i) h f
        ⟨[7], by decide⟩ := by
  intro died es blank
  have hp : Clean (.sample 0) ['/', 'a'] := by decide
  have ha : List.Forall₂ PerformsAt [(false, .mknod ['/', 'a']),
      (false, .openFile ['/', 'a'] ⟨.rdwr, false⟩), (false, .write 0 [7] 0),
      (false, .diesReleasing 0 .asked)] es := by
    refine .cons ⟨rfl, .mknod ..⟩ (.cons ⟨rfl, .openFile _ _ _ OpenEnv.ssdOk_calm rfl⟩
      (.cons ⟨rfl, .write ..⟩ (.cons ⟨rfl, .diesReleasing _ _ _ ?_⟩ .nil)))
    exact ⟨by decide, rfl, rfl, rfl, by decide, by decide, by decide, by decide, by decide⟩
  refine object_released _ _ ha ?_ (by decide) ?_
  · exact ⟨hp, ⟨hp, by decide⟩, rfl, rfl, trivial⟩
  · rfl

/-! ## What a client reads -/

/-- **A client reads the version it opened and its own writes**: over every legal run after an open
in which its client neither dies nor releases the file, whatever the other clients write, release
and unlink meanwhile. -/
theorem reads_opened (umask : ι → UInt32) (clock : ι → Timespec) {ops xs : List (ι × Op)}
    {es ys : List (ι × Event)} {i : ι} {p : Name} {flags : OpenFlags} {y : ι × Event}
    (ha : List.Forall₂ PerformsAt ops es) (hy : PerformsAt (i, .openFile p flags) y)
    (hxs : List.Forall₂ PerformsAt xs ys)
    (hl : Machine.Legal (step fun i => (cfg i).threshold)
      (VersionStore.Ok fun i => Clean (cfg i)) VersionStore.init
      (ops ++ (i, .openFile p flags) :: xs))
    (hopen : ∀ x ∈ xs, x.1 = i → x.2.closes
      ((Machine.run (Net.serve cfg) (Net.blank umask clock) es).1.mount i).files.next = false)
    (size offset : ℕ) :
    let n := (Machine.run (Net.serve cfg) (Net.blank umask clock) es).1
    let h := (n.mount i).files.next
    let d : Draft :=
      ⟨p, flags, (n.bucket (getKey p)).getD Content.empty, (n.bucket (getKey p)).isSome, false⟩
    ((Machine.run (Net.serve cfg) n (y :: ys)).1.serve cfg
        (i, .asks (.read h size offset none))).2.answer
      = (xs.foldl (Draft.after i h) d).read size offset := by
  obtain ⟨hl₁, hl₂⟩ := Machine.legal_append.1 hl
  obtain ⟨hR, -⟩ := versioned_run (versioned_blank umask clock) ha hl₁
  obtain ⟨hR', -⟩ := versioned_run hR (.cons hy hxs) hl₂
  have hnext : ((Machine.run (Net.serve cfg) (Net.blank umask clock) es).1.mount i).files.next
      = _ := (hR.mirrors i).next
  dsimp only
  rw [hnext] at hopen ⊢
  rw [hR.publishes p hl₂.1.1.plus_free]
  have hd := drafts_opened (fun i => (cfg i).threshold) p flags hopen
  obtain ⟨-, hanswer⟩ := refines_event (x := (i, .read _ size offset))
    (y := (i, .asks (.read _ size offset none))) hR' ⟨rfl, .read ..⟩
    (Option.isSome_iff_exists.2 ⟨_, hd⟩)
  rw [hanswer, step, Client.step, Client.onDraft, hd]

/-- A client that writes after the version it opened was unlinked by another. -/
theorem reads_opened_unlinked :
    let es : List (Bool × Event) := [(false, .asks (.mknod ['/', 'a'] 0o644 none)),
      (false, .asks (.openFile ['/', 'a'] ⟨.rdwr, false⟩ OpenEnv.calm)),
      (false, .asks (.write 0 [7, 8] 0 none)), (false, .asks (.release 0 ReleaseEnv.calm))]
    let y : Bool × Event := (true, .asks (.openFile ['/', 'a'] ⟨.rdwr, false⟩ OpenEnv.calm))
    let ys : List (Bool × Event) :=
      [(false, .asks (.unlink ['/', 'a'] ⟨none, .served, none, none⟩)),
        (true, .asks (.write 0 [9] 1 none))]
    let n := (Machine.run (Net.serve fun _ => .sample 0) (Net.blank (fun _ => 0) fun _ => ⟨0, 0⟩)
      es).1
    ((Machine.run (Net.serve fun _ => .sample 0) n (y :: ys)).1.serve (fun _ => .sample 0)
        (true, .asks (.read 0 4096 0 none))).2.answer = .data [7, 9] := by
  intro es y ys n
  have hp : Clean (.sample 0) ['/', 'a'] := by decide
  have ha : List.Forall₂ PerformsAt [(false, .mknod ['/', 'a']),
      (false, .openFile ['/', 'a'] ⟨.rdwr, false⟩), (false, .write 0 [7, 8] 0),
      (false, .release 0)] es :=
    .cons ⟨rfl, .mknod ..⟩ (.cons ⟨rfl, .openFile _ _ _ OpenEnv.ssdOk_calm rfl⟩
      (.cons ⟨rfl, .write ..⟩ (.cons ⟨rfl, .release _ _ ReleaseEnv.ssdOk_calm rfl rfl⟩ .nil)))
  have hy : PerformsAt (true, .openFile ['/', 'a'] ⟨.rdwr, false⟩) y :=
    ⟨rfl, .openFile _ _ _ OpenEnv.ssdOk_calm rfl⟩
  have hxs : List.Forall₂ PerformsAt [(false, .unlink ['/', 'a']), (true, .write 0 [9] 1)] ys :=
    .cons ⟨rfl, .unlink _ _ ⟨rfl, rfl, rfl⟩ rfl⟩ (.cons ⟨rfl, .write ..⟩ .nil)
  refine reads_opened _ _ ha hy hxs ?_ (by decide) 4096 0
  exact ⟨hp, ⟨hp, by decide⟩, rfl, rfl, ⟨hp, by decide⟩, ⟨hp, by decide⟩, rfl, trivial⟩

end CloudFS
