import CloudFS.Placement.Step
import CloudFS.Session.Isolation

/-!
# Clients/Shared — one path, many clients

Clients share the bucket and nothing else: each has its own SSD and its own metadata files.  A
session at threshold 0 depends on its client's SSD only through the path being no metadata file
(`session_settles`), so over every order of sessions that do not overlap each finds what the XX
-/

namespace CloudFS

open Posix Posix.Fs

variable {st : CloudfsState} {w : World} {p : Name} {s : Session}

/-! ## One session from any local state -/

/-- Whether a session on a file of content `c` uploads it, at threshold 0. -/
def Session.Uploading (s : Session) (c : Content) : Prop :=
  s.writes = true ∧ s.left c ≠ Content.empty

theorem files_afterReleaseFile (env : ReleaseEnv) (f : FuseFile) (c : Content) (stbuf : Stat) :
    (afterReleaseFile st env f c stbuf w).files = w.files := by
  unfold afterReleaseFile
  split
  · rfl
  · split
    · rfl
    · split <;> rfl

theorem bucket_of_not_uploaded (env : ReleaseEnv) {f : FuseFile} {c : Content} (stbuf : Stat)
    (h : ¬ ((f.fh.proxy = true → f.fh.dirty = true) ∧ st.threshold < c.size))
    (hk : f.fh.proxy = true → f.fh.dirty = false) :
    (afterReleaseFile st env f c stbuf w).bucket = w.bucket := by
  unfold afterReleaseFile
  split
  case isTrue => rfl
  case isFalse hn =>
    have hx : ¬ f.fh.proxy = true := fun hx => hn ⟨hx, by simp [hk hx]⟩
    rw [if_neg fun ht => h ⟨fun hx' => absurd hx' hx, ht⟩, if_neg hx]

/-- A session that uploads nothing leaves what it found, and if it writes it found nothing. -/
theorem Session.left_of_not_uploading {c : Content} (hu : ¬ s.Uploading c) :
    s.left c = c ∧ (s.writes = true → c = Content.empty) := by
  cases hw : s.writes with
  | false => exact ⟨Session.left_of_not_writes hw c, fun h => absurd h (by simp)⟩
  | true =>
    have hl : s.left c = Content.empty := by_contra fun hl => hu ⟨hw, hl⟩
    have hz : c.size = 0 := by
      have := s.size_le_left c
      rw [hl, Content.size_empty] at this
      omega
    have hce := Content.size_eq_zero_iff.1 hz
    exact ⟨hl.trans hce.symm, fun _ => hce⟩

/-- A session that uploads nothing wrote nothing to an object, and left nothing where there was
none. -/
theorem Session.clean_of_not_uploading {o : Option Content} (hne : o ≠ some Content.empty)
    (hu : ¬ s.Uploading (o.getD Content.empty)) :
    (o.isSome = true → s.writes = false) ∧
      ((o.isSome = true → s.writes = true) → s.left (o.getD Content.empty) = Content.empty) := by
  obtain ⟨hleft, hempty⟩ := Session.left_of_not_uploading hu
  cases o with
  | none => exact ⟨fun h => absurd h (by simp), fun _ => hleft⟩
  | some d =>
    have hw : s.writes = false :=
      Bool.eq_false_iff.2 fun h => hne (congrArg some (hempty h))
    exact ⟨fun _ => hw, fun h => absurd (h rfl) (by simp [hw])⟩

/-- The handle of a session on an idle path stays the only one on it. -/
theorem alone_edited (hi : Idle w p) {v : World}
    (he : EditsOnly w.files.next w.ssd.next (afterOpen st s.opening p s.flags w) v) :
    Alone v p := by
  have honly : ∀ k g, v.files.get k = some g → g.path = p → k = w.files.next := by
    intro k g hk hg
    by_contra hne
    rw [he.handle k hne] at hk
    rcases Table.get_alloc_eq_some hk with ⟨hk', -⟩ | hk'
    · exact hne hk'
    · exact hi k g hk' hg
  exact fun h f k g hf hg hfp hgp => (honly h f hf hfp).trans (honly k g hg hgp).symm

/-- **A calm session at threshold 0, from any sane state of its client.**  It finds the object, or
nothing; if it uploads it leaves the path a proxy of what it wrote, and otherwise it leaves the
object alone and what it found unchanged. -/
theorem session_settles (hT : st.threshold = 0) (hs : Sane st w) (hp : Outside st p)
    (hi : Idle w p) (hc : s.Calm) (hne : w.bucket (getKey p) ≠ some Content.empty) :
    let o := w.bucket (getKey p)
    let c := o.getD Content.empty
    let r := Machine.run (serve st) w (s.reqs p w.files.next)
    r.2 = .handle w.files.next :: (Act.replies s.flags c s.acts ++ [.done]) ∧
      Sane st r.1 ∧ Idle r.1 p ∧
      (s.Uploading c → ∃ ht, RepAt st r.1 p (.proxy (s.left c) ht)) ∧
      (¬ s.Uploading c → r.1.bucket (getKey p) = o ∧ s.left c = c) := by
  intro o c r
  have hg : (s.opening.get.fetched w.bucket (getKey p)).2 = c := by
    rw [GetEnv.fetched_served hc.opening.flush hc.get]
  have hproxy : (opened s.opening p s.flags w).fh.proxy = o.isSome := by
    simp [opened, GetEnv.fetched_ok_iff, hc.get, o]
  obtain ⟨v, hh, -, -, he, hrun⟩ := session_run hs hp hc.opening hc.closing
  have hsane : Sane st r.1 := sane_run hs hp (legal_session hs hp hc)
  rw [hg] at hh hrun
  have halone : Alone v p := alone_edited hi he
  have hsize : ∀ d : Content, st.threshold < d.size ↔ d ≠ Content.empty := by
    intro d
    rw [hT, Ne, ← Content.size_eq_zero_iff]
    omega
  have hr : r = _ := hrun
  refine ⟨congrArg Prod.snd hrun, hsane, ?_, fun hu => ?_, fun hu => ?_⟩
  · rw [hr]
    exact idle_closed halone hh.live rfl (files_afterReleaseFile ..) s.closing
  · have ht := (hsize _).2 hu.2
    have hdirty : ¬ (((opened s.opening p s.flags w).wrote s.writes).fh.proxy = true ∧
        ¬ ((opened s.opening p s.flags w).wrote s.writes).fh.dirty = true) := by
      rintro ⟨hx, hd⟩
      exact hd (by simpa [FuseFile.wrote, hu.1] using Or.inr hx)
    refine ⟨ht, ?_⟩
    rw [hr, afterReleaseFile, if_neg hdirty, if_pos ht]
    exact repAt_uploaded hp hh rfl halone (by rw [hc.put]; rfl) ht
  · obtain ⟨hclean, hempty⟩ := Session.clean_of_not_uploading hne hu
    refine ⟨?_, (Session.left_of_not_uploading hu).1⟩
    rw [hr]
    refine (congrFun (bucket_of_not_uploaded s.closing _ ?_ ?_) _).trans (congrFun he.bucket _)
    · rintro ⟨hd, ht⟩
      refine (hsize _).1 ht (hempty fun ho => ?_)
      have hdirty : (s.opening.get.fetched w.bucket (getKey p)).1 = .ok ∧
          s.writes = true := by simpa [FuseFile.wrote, opened] using hd (hproxy.trans ho)
      exact hdirty.2
    · intro hx
      have hw := hclean (hproxy.symm.trans hx)
      simp [hw, opened]

/-! ## Clients of one bucket -/

/-- The mounts of the clients `ι`, and the bucket. -/
structure Net (ι : Type) where
  mount : ι → Mount
  bucket : Bucket

variable {ι : Type}

/-- What client `i` works on. -/
def Net.world (n : Net ι) (i : ι) : World := { n.mount i with bucket := n.bucket }

/-- Every client has made `p` on an empty SSD, and the bucket is empty. -/
def Net.init (cfg : ι → CloudfsState) (p : Name) (umask : ι → UInt32) (clock : ι → Timespec)
    (mode : ι → UInt32) : Net ι where
  mount i := (serve (cfg i) (World.init (Fs.empty (umask i) (clock i)))
    (.mknod p (mode i) none)).1.toMount
  bucket _ := none

/-- One session on `p` by one of the clients. -/
def Net.session [DecidableEq ι] (cfg : ι → CloudfsState) (p : Name) (n : Net ι)
    (x : ι × Session) : Net ι × List Reply :=
  let r := Machine.run (serve (cfg x.1)) (n.world x.1)
    (x.2.reqs p (n.world x.1).files.next)
  (⟨Function.update n.mount x.1 r.1.toMount, r.1.bucket⟩, r.2)

/-- What the last of the sessions `xs` left, if each found what the one before it left. -/
def latest (xs : List (ι × Session)) : Content :=
  xs.foldl (fun c x => x.2.left c) Content.empty

variable {cfg : ι → CloudfsState} {n : Net ι} {i : ι} {c : Content}

/-- **What holds of clients between sessions**: the object is the content, or there is none and the
content is empty, and no client's SSD is in the way of a session. -/
structure Shares (cfg : ι → CloudfsState) (p : Name) (n : Net ι) (c : Content) : Prop where
  object : (n.bucket (getKey p)).getD Content.empty = c
  nonempty : n.bucket (getKey p) ≠ some Content.empty
  sane : ∀ i, Sane (cfg i) (n.world i)
  idle : ∀ i, Idle (n.world i) p

/-- Making a path leaves no handle and no object. -/
theorem shares_init {umask : ι → UInt32} {clock : ι → Timespec} {mode : ι → UInt32}
    (hp : ∀ i, Outside (cfg i) p) :
    Shares cfg p (Net.init cfg p umask clock mode) Content.empty where
  object := rfl
  nonempty := by simp [Net.init]
  sane i := by
    have hs := (touches_serve (sane_init (cfg i) (umask i) (clock i))
      (r := .mknod p (mode i) none) rfl).sane (hp i) (sane_init (cfg i) (umask i) (clock i))
    exact ⟨hs.link, hs.file⟩
  idle i h f hf := by
    have hk := (keeps_mknod (cfg i) (World.init (Fs.empty (umask i) (clock i))) p none
      (mode i)).files
    have hf' : (World.init (Fs.empty (umask i) (clock i))).files.get h = some f := hk ▸ hf
    exact absurd hf' (by simp [World.init, Mount.init])

variable [DecidableEq ι]

theorem Net.world_session_self (x : ι × Session) :
    (n.session cfg p x).1.world x.1
      = (Machine.run (serve (cfg x.1)) (n.world x.1) (x.2.reqs p (n.world x.1).files.next)).1 := by
  have h : (n.session cfg p x).1.mount x.1 = (Machine.run (serve (cfg x.1)) (n.world x.1)
      (x.2.reqs p (n.world x.1).files.next)).1.toMount := Function.update_self ..
  rw [Net.world, h]
  rfl

theorem Net.world_session_of_ne {x : ι × Session} {j : ι} (h : j ≠ x.1) :
    (n.session cfg p x).1.world j
      = { n.mount j with bucket := (n.session cfg p x).1.bucket } := by
  have hj : (n.session cfg p x).1.mount j = n.mount j := Function.update_of_ne h ..
  rw [Net.world, hj]

/-- **One session**: it is answered from the content, and leaves what it made of it. -/
theorem shares_session (hT : ∀ i, (cfg i).threshold = 0) (hp : ∀ i, Outside (cfg i) p)
    (hn : Shares cfg p n c) {x : ι × Session} (hx : x.2.Calm) :
    Shares cfg p (n.session cfg p x).1 (x.2.left c) ∧
      (n.session cfg p x).2 = .handle (n.world x.1).files.next ::
        (Act.replies x.2.flags c x.2.acts ++ [.done]) := by
  obtain ⟨hreply, hsane, hidle, hup, hnot⟩ := session_settles (hT x.1) (hn.sane x.1) (hp x.1)
    (hn.idle x.1) hx hn.nonempty
  have hc : ((n.world x.1).bucket (getKey p)).getD Content.empty = c := hn.object
  rw [hc] at hreply hup hnot
  have hbucket : ((n.session cfg p x).1.bucket (getKey p)).getD Content.empty = x.2.left c ∧
      (n.session cfg p x).1.bucket (getKey p) ≠ some Content.empty := by
    by_cases hu : x.2.Uploading c
    · obtain ⟨ht, hr⟩ := hup hu
      have ho : (n.session cfg p x).1.bucket (getKey p) = some (x.2.left c) := hr.object
      rw [ho]
      exact ⟨rfl, fun he => hu.2 (Option.some.inj he)⟩
    · obtain ⟨ho, hl⟩ := hnot hu
      have ho' : (n.session cfg p x).1.bucket (getKey p) = n.bucket (getKey p) := ho
      rw [ho', hl]
      exact ⟨hn.object, hn.nonempty⟩
  refine ⟨⟨hbucket.1, hbucket.2, fun j => ?_, fun j => ?_⟩, hreply⟩
  · by_cases hj : j = x.1
    · rw [hj, n.world_session_self]
      exact hsane
    · rw [n.world_session_of_ne hj]
      exact ⟨(hn.sane j).link, (hn.sane j).file⟩
  · by_cases hj : j = x.1
    · rw [hj, n.world_session_self]
      exact hidle
    · rw [n.world_session_of_ne hj]
      exact hn.idle j

/-- Any number of sessions. -/
theorem shares_run (hT : ∀ i, (cfg i).threshold = 0) (hp : ∀ i, Outside (cfg i) p)
    {xs : List (ι × Session)} (hx : ∀ x ∈ xs, x.2.Calm) (hn : Shares cfg p n c) :
    Shares cfg p (Machine.run (fun n => n.session cfg p) n xs).1
      (xs.foldl (fun c x => x.2.left c) c) := by
  induction xs generalizing n c with
  | nil => exact hn
  | cons x xs ih =>
    exact ih (fun y hy => hx y (List.mem_cons_of_mem _ hy))
      (shares_session hT hp hn (hx x List.mem_cons_self)).1

/-- **Clients see the latest content.**  After any sessions of any clients on `p`, none of which
overlap, the reads of the next session are answered from what the last one left — and so are its
other replies. -/
theorem session_serves_latest (hT : ∀ i, (cfg i).threshold = 0) (hp : ∀ i, Clean (cfg i) p)
    {umask : ι → UInt32} {clock : ι → Timespec} {mode : ι → UInt32} {xs : List (ι × Session)}
    (hxs : ∀ x ∈ xs, x.2.Calm) {x : ι × Session} (hx : x.2.Calm) :
    let n := (Machine.run (fun n => Net.session cfg p n) (Net.init cfg p umask clock mode) xs).1
    (n.session cfg p x).2 = .handle (n.world x.1).files.next ::
      (Act.replies x.2.flags (latest xs) x.2.acts ++ [.done]) :=
  (shares_session hT (fun i => (hp i).toOutside)
    (shares_run hT (fun i => (hp i).toOutside) hxs
      (shares_init fun i => (hp i).toOutside)) hx).2

/-- Two clients and `/a`, on which the first writes a byte. -/
def oneByteNet : Net Bool :=
  (Machine.run (fun n => Net.session (fun _ => .sample 0) ['/', 'a'] n)
    (Net.init (fun _ => .sample 0) ['/', 'a'] (fun _ => 0) (fun _ => ⟨0, 0⟩) fun _ => 0o644)
    [(false, oneByteSession)]).1

/-- A session that reads `/a` before it writes to it. -/
def readThenWrite : Session :=
  ⟨⟨.rdwr, false⟩, OpenEnv.calm, [.read 4096 0 none, .write [2] 0 none], ReleaseEnv.calm⟩

/-- The other client reads that byte. -/
theorem session_serves_latest_read :
    (oneByteNet.session (fun _ => .sample 0) ['/', 'a'] (true, readThenWrite)).2
        = .handle 0 :: (Act.replies ⟨.rdwr, false⟩ (latest [(false, oneByteSession)])
            [.read 4096 0 none, .write [2] 0 none] ++ [.done]) ∧
      Act.replies ⟨.rdwr, false⟩ (latest [(false, oneByteSession)])
          [.read 4096 0 none, .write [2] 0 none] = [.data [1], .count 1] := by
  have hcalm : readThenWrite.Calm := by
    refine ⟨⟨OpenEnv.ssdOk_calm, ?_, ReleaseEnv.ssdOk_calm⟩, rfl, rfl, rfl⟩
    simp [readThenWrite, Act.SsdOk]
  exact ⟨session_serves_latest (fun _ => rfl) (fun _ => by decide)
    (by simp [calm_oneByteSession]) hcalm, by decide⟩

/-! ## Attributes -/

instance (s : Session) (c : Content) : Decidable (s.Uploading c) :=
  inferInstanceAs (Decidable (_ ∧ _))

/-- The content after the sessions `xs`, and the client that made the last upload. -/
def uploads (xs : List (ι × Session)) (a : Content × Option ι) : Content × Option ι :=
  xs.foldl (fun a x => (x.2.left a.1, if x.2.Uploading a.1 then some x.1 else a.2)) a

/-- The client that made the last upload of the sessions `xs`, if any did. -/
def uploader (xs : List (ι × Session)) : Option ι := (uploads xs (Content.empty, none)).2

/-- **What holds of clients whose attributes can be relied on**: the one of the last upload, every
one while there was none. -/
structure Attests (cfg : ι → CloudfsState) (p : Name) (n : Net ι) (a : Content × Option ι) :
    Prop extends Shares cfg p n a.1 where
  rep : ∀ i, a.2 = none ∨ a.2 = some i → ∃ ph : Phase (cfg i).threshold,
    RepAt (cfg i) (n.world i) p ph ∧ ph.flags = none ∧ ph.content = some a.1

omit [DecidableEq ι] in
theorem attests_init (hT : ∀ i, (cfg i).threshold = 0) (hp : ∀ i, Outside (cfg i) p)
    {umask : ι → UInt32} {clock : ι → Timespec} {mode : ι → UInt32} :
    Attests cfg p (Net.init cfg p umask clock mode) (Content.empty, none) where
  toShares := shares_init hp
  rep i _ := by
    have h0 : RepAt (cfg i) (World.init (Fs.empty (umask i) (clock i))) p .absent :=
      .of_idle (fun h f hf => absurd hf (by simp [World.init, Mount.init])) rfl rfl rfl rfl
    obtain ⟨hr, -⟩ := h0.mknod (hT i).ge (hp i) rfl (mode i)
    have hset := Phase.settled_of_le (c := Content.empty) (hT i).ge
    rw [hset] at hr
    exact ⟨_, ⟨hr.entry, hr.metadata, rfl, hr.handle, hr.live, hr.alone⟩, rfl, rfl⟩

/-- One session, and whose attributes can be relied on after it. -/
theorem attests_session (hT : ∀ i, (cfg i).threshold = 0) (hp : ∀ i, Outside (cfg i) p)
    {a : Content × Option ι} (hn : Attests cfg p n a) {x : ι × Session} (hx : x.2.Calm) :
    Attests cfg p (n.session cfg p x).1 (uploads [x] a) := by
  obtain ⟨-, -, -, hup, hnot⟩ := session_settles (hT x.1) (hn.sane x.1) (hp x.1)
    (hn.idle x.1) hx hn.nonempty
  have hc : ((n.world x.1).bucket (getKey p)).getD Content.empty = a.1 := hn.object
  rw [hc] at hup hnot
  refine ⟨(shares_session hT hp hn.toShares hx).1, fun j hj => ?_⟩
  simp only [uploads, List.foldl_cons, List.foldl_nil] at hj ⊢
  by_cases hu : x.2.Uploading a.1
  · rw [if_pos hu] at hj
    obtain rfl : x.1 = j := by simpa using hj
    obtain ⟨ht, hr⟩ := hup hu
    exact ⟨_, by rw [n.world_session_self]; exact hr, rfl, rfl⟩
  · rw [if_neg hu] at hj
    obtain ⟨hb, hl⟩ := hnot hu
    obtain ⟨ph, hr, hfl, hcn⟩ := hn.rep j hj
    rw [hl]
    by_cases hjx : j = x.1
    · subst hjx
      obtain ⟨ph', hr', hfl', hcn'⟩ := hr.session (hn.sane x.1) (hp x.1) hfl hx
      refine ⟨ph', by rw [n.world_session_self]; exact hr', hfl', ?_⟩
      rw [hcn', ← hr.object, hc, hl]
    · rw [n.world_session_of_ne hjx]
      exact ⟨ph, ⟨hr.entry, hr.metadata, hb.trans hr.object, hr.handle, hr.live, hr.alone⟩, hfl,
        hcn⟩

/-- Any number of sessions. -/
theorem attests_run (hT : ∀ i, (cfg i).threshold = 0) (hp : ∀ i, Outside (cfg i) p)
    {xs : List (ι × Session)} (hx : ∀ x ∈ xs, x.2.Calm) {a : Content × Option ι}
    (hn : Attests cfg p n a) :
    Attests cfg p (Machine.run (fun n => n.session cfg p) n xs).1 (uploads xs a) := by
  induction xs generalizing n a with
  | nil => exact hn
  | cons x xs ih =>
    exact ih (fun y hy => hx y (List.mem_cons_of_mem _ hy))
      (attests_session hT hp hn (hx x List.mem_cons_self))

/-- `p` is a link to a metadata file that does not exist. -/
structure Dangles (st : CloudfsState) (w : World) (p : Name) : Prop where
  link : (w.ssd.readlink (getAbsolutePath st p)).isSome = true
  gone : w.ssd.look (getMetadataPath st p) = none

/-- **In a sane state `cloudfs_getattr` succeeds exactly on an entry that does not dangle.** -/
theorem Sane.getattr_iff (hs : Sane st w) {env : GetattrEnv} (henv : env.SsdOk) :
    (∃ attr, cloudfsGetattr st env p w = .ok attr) ↔
      (w.ssd.look (getAbsolutePath st p)).isSome = true ∧ ¬ Dangles st w p := by
  have hm := hs.readlink_metadata p
  rw [cloudfsGetattr_eq henv (fun t ht => hs.readlink_absolute ht) hm]
  cases hl : w.ssd.look (getAbsolutePath st p) with
  | none => simp [attrOf]
  | some n =>
    cases hn : n.node with
    | reg c =>
      have hnot : ¬ Dangles st w p := fun hd => by
        have := hd.link
        rw [readlink_of_reg hl hn] at this
        exact absurd this (by simp)
      simp [attrOf, hn, hnot]
    | lnk t =>
      have hd : Dangles st w p ↔ w.ssd.look (getMetadataPath st p) = none :=
        ⟨Dangles.gone, fun hg => ⟨by rw [readlink_of_lnk hl hn]; rfl, hg⟩⟩
      rw [hd]
      cases hg : w.ssd.look (getMetadataPath st p) with
      | none => simp [attrOf, hn]
      | some m =>
        cases hk : m.node with
        | reg c => simp [attrOf, hn, hk]
        | lnk u =>
          rw [readlink_of_lnk hg hk] at hm
          exact absurd hm (by simp)

/-- **Where attributes can be had, and where they agree with the content.**  After any sessions of
any clients on `p`, none of which overlap, `cloudfs_getattr` succeeds on every client whose entry is
no link to a metadata file that does not exist; and on the client of the last upload, and on every
client while there was none, it reports the length of what an open there would serve. -/
theorem getattr_between_sessions (hT : ∀ i, (cfg i).threshold = 0) (hp : ∀ i, Clean (cfg i) p)
    {umask : ι → UInt32} {clock : ι → Timespec} {mode : ι → UInt32} {xs : List (ι × Session)}
    (hxs : ∀ x ∈ xs, x.2.Calm) (i : ι) {env : GetattrEnv} (henv : env.SsdOk) :
    let n := (Machine.run (fun n => Net.session cfg p n) (Net.init cfg p umask clock mode) xs).1
    ((∃ attr, cloudfsGetattr (cfg i) env p (n.world i) = .ok attr) ↔
      ((n.world i).ssd.look (getAbsolutePath (cfg i) p)).isSome = true ∧
        ¬ Dangles (cfg i) (n.world i) p) ∧
    (uploader xs = none ∨ uploader xs = some i →
      ∀ opening : OpenEnv, opening.SsdOk → opening.get.answer = .served → ∀ flags : OpenFlags,
        ∃ attr f c, cloudfsGetattr (cfg i) env p (n.world i) = .ok attr ∧
          Holds (serve (cfg i) (n.world i) (.openFile p flags opening)).1
            (n.world i).files.next f c ∧
          attr.st_size.toNat = c.size) := by
  intro n
  have hn : Attests cfg p n (uploads xs (Content.empty, none)) :=
    attests_run hT (fun i => (hp i).toOutside) hxs (attests_init hT fun i => (hp i).toOutside)
  refine ⟨(hn.sane i).getattr_iff henv, fun hi opening ho hget flags => ?_⟩
  obtain ⟨ph, hr, -, hcn⟩ := hn.rep i hi
  have hg := hr.getattr (hn.sane i) henv
  rw [hcn] at hg
  obtain ⟨attr, ha, hsize⟩ := hg
  have hh := holds_afterOpen (cfg i) opening p flags (n.world i)
  have hserved : (opening.get.fetched (n.world i).bucket (getKey p)).2
      = (uploads xs (Content.empty, none)).1 := by
    rw [GetEnv.fetched_served ho.flush hget]
    exact hn.object
  rw [hserved] at hh
  exact ⟨attr, _, _, ha, by rw [serve_open ho]; exact hh, hsize⟩

/-- The client that wrote a byte to `/a` is told its size. -/
theorem getattr_between_sessions_oneByte :
    ((∃ attr, cloudfsGetattr (.sample 0) ⟨none, none, none⟩ ['/', 'a'] (oneByteNet.world false)
        = .ok attr) ↔
      ((oneByteNet.world false).ssd.look (getAbsolutePath (.sample 0) ['/', 'a'])).isSome = true ∧
        ¬ Dangles (.sample 0) (oneByteNet.world false) ['/', 'a']) ∧
    ∃ attr f c, cloudfsGetattr (.sample 0) ⟨none, none, none⟩ ['/', 'a'] (oneByteNet.world false)
        = .ok attr ∧
      Holds (serve (.sample 0) (oneByteNet.world false)
        (.openFile ['/', 'a'] ⟨.rdonly, false⟩ OpenEnv.calm)).1
        (oneByteNet.world false).files.next f c ∧ attr.st_size.toNat = c.size := by
  have hp : Clean (.sample 0) ['/', 'a'] := by decide
  have hxs : ∀ x ∈ [(false, oneByteSession)], x.2.Calm := by simp [calm_oneByteSession]
  exact (getattr_between_sessions (fun _ => rfl) (fun _ => hp) hxs false ⟨rfl, rfl, rfl⟩).imp_right
    fun h => h (Or.inr (by decide)) OpenEnv.calm OpenEnv.ssdOk_calm rfl _

/-- A client that only read what the other uploaded has a link to nothing. -/
example : cloudfsGetattr (.sample 0) ⟨none, none, none⟩ ['/', 'a']
    ((oneByteNet.session (fun _ => .sample 0) ['/', 'a'] (true, ⟨⟨.rdonly, false⟩, OpenEnv.calm,
      [.read 4096 0 none], ReleaseEnv.calm⟩)).1.world true) = .error .ENOENT := by decide

/-- **The other client is told the size of what it made itself**, and reads the byte. -/
theorem getattr_stale :
    ((oneByteNet.world true).ssd.dirent (getAbsolutePath (.sample 0) ['/', 'a'])).isSome = true ∧
      (cloudfsGetattr (.sample 0) ⟨none, none, none⟩ ['/', 'a']
        (oneByteNet.world true)).toOption.map Stat.st_size = some 0 ∧
      readBack (.sample 0) ['/', 'a'] OpenEnv.calm ⟨.rdonly, false⟩ 4096 0
        (oneByteNet.world true) = .data [1] := by
  refine ⟨by decide, by decide, ?_⟩
  rw [readBack_eq OpenEnv.ssdOk_calm rfl rfl]
  decide

end CloudFS
