import CloudFS.Clients.Handles
import CloudFS.Clients.LockHistory
import CloudFS.Clients.Locking
import CloudFS.Session.Local

/-!
# Outcomes/FailedOpen — an open that returns an error

The only failure `cloudfs_open` reports is that of its last call.  By then it has asked for the
lock, removed the path and written what the bucket delivered, as far as closing that file did not
lose it, and it undoes none of it.  So a failed open has no effect exactly when the file it wrote
already held those bytes, and no acquire took a lock at the server that was not held before
(`failed_open_iff`).
-/

namespace CloudFS

open Posix Posix.Fs

/-! ## Locks at the server -/

variable {ι : Type}

/-- The locks the server has granted to client `i`. -/
def locksOf (held : List (Grant ι)) (i : ι) : Set LockParams := {a | ⟨a, i⟩ ∈ held}

/-- The server's grants after RPCs of client `i`, each with what came of it. -/
def serveLocks (held : List (Grant ι)) (i : ι) : List (LockParams × Rpc) → List (Grant ι)
  | [] => held
  | c :: cs => serveLocks (if c.2.Ok then serveLock held i c.1 else held) i cs

/-- RPCs with what came of them, the `k`-th being `rpcs k`. -/
def withRpcs (rpcs : ℕ → Rpc) (calls : List LockCall) : List (LockParams × Rpc) :=
  calls.mapIdx fun k c => (c.args, rpcs k)

variable {held : List (Grant ι)} {i : ι} {args : LockParams} {rpcs : ℕ → Rpc}

/-- Acquires for one lock leave the client what it held, and that lock if one took effect. -/
theorem mem_locksOf_serveLocks (hop : args.operation ≠ .RELEASE) {cs : List (LockParams × Rpc)}
    (hcs : ∀ c ∈ cs, c.1 = args) (a : LockParams) :
    a ∈ locksOf (serveLocks held i cs) i ↔
      a ∈ locksOf held i ∨ a = args ∧ ∃ c ∈ cs, c.2.Ok := by
  induction cs generalizing held with
  | nil => simp [serveLocks]
  | cons c cs ih =>
    have hc : c.1 = args := hcs c List.mem_cons_self
    rw [serveLocks, ih fun d hd => hcs d (List.mem_cons_of_mem _ hd)]
    by_cases hok : c.2.Ok
    · rw [if_pos hok, serveLock, hc, if_neg hop]
      simp only [locksOf, Set.mem_ofPred_eq, List.mem_cons, Grant.mk.injEq, and_true,
        exists_eq_or_imp, hok, true_or]
      tauto
    · rw [if_neg hok]
      simp [hok]

/-- **Acquires for one lock change nothing** exactly when none takes effect, or the lock was held. -/
theorem locksOf_serveLocks_eq_iff (hop : args.operation ≠ .RELEASE) {cs : List (LockParams × Rpc)}
    (hcs : ∀ c ∈ cs, c.1 = args) :
    locksOf (serveLocks held i cs) i = locksOf held i ↔
      ((∃ c ∈ cs, c.2.Ok) → ⟨args, i⟩ ∈ held) := by
  have hmem : ∀ a, a ∈ locksOf (serveLocks held i cs) i ↔
      a ∈ locksOf held i ∨ a = args ∧ ∃ c ∈ cs, c.2.Ok := mem_locksOf_serveLocks hop hcs
  constructor
  · exact fun he hok => (Set.ext_iff.1 he args).1 ((hmem args).2 (Or.inr ⟨rfl, hok⟩))
  · intro h
    ext a
    rw [hmem a]
    refine ⟨fun ha => ha.elim id ?_, Or.inl⟩
    rintro ⟨rfl, hok⟩
    exact h hok

/-- An RPC seen answered `OK` was answered so. -/
theorem Rpc.ok_of_seen {r : Rpc} (h : r.seen = .answered .OK) : r.Ok := by
  cases r with
  | lost => cases h
  | answered t arrives =>
    cases arrives with
    | false => cases h
    | true => exact RpcAnswer.answered.inj h

/-- An RPC takes effect among those a loop makes if one would among those it may make. -/
theorem exists_ok_retransmit {answer : ℕ → RpcAnswer} (ha : ∀ k, answer k = (rpcs k).seen)
    (left : ℕ) {s : Retry} (hs : s.result ≠ .OK) :
    (∃ k < (retransmit answer left s).1.length, (rpcs (s.times + k)).Ok) ↔
      ∃ k < left, (rpcs (s.times + k)).Ok := by
  obtain ⟨n, hn, heq⟩ := retransmit_eq answer left hs
  rw [heq, List.length_map, List.length_range]
  exact hn.exists_iff fun k hk => Rpc.ok_of_seen ((ha _).symm.trans hk)

theorem exists_ok_withRpcs (rpcs : ℕ → Rpc) (args : LockParams) (answers : List RpcAnswer) :
    (∃ c ∈ withRpcs rpcs (answers.map fun a => ⟨args, a⟩), c.2.Ok) ↔
      ∃ k < answers.length, (rpcs k).Ok := by
  simp only [withRpcs, List.mem_mapIdx, List.length_map, List.getElem_map]
  constructor
  · rintro ⟨c, ⟨k, hk, rfl⟩, hok⟩
    exact ⟨k, hk, hok⟩
  · rintro ⟨k, hk, hok⟩
    exact ⟨_, ⟨k, hk, rfl⟩, hok⟩

theorem args_of_mem_withRpcs {answers : List RpcAnswer} :
    ∀ c ∈ withRpcs rpcs (answers.map fun a => ⟨args, a⟩), c.1 = args := by
  intro c hc
  obtain ⟨k, hk, rfl⟩ := List.mem_mapIdx.1 hc
  rw [List.getElem_map]

/-! ## What a failed open leaves -/

variable {st : CloudfsState} {w w' : World} {p : Name} {flags : OpenFlags} {env : OpenEnv}

/-- **An operation on `p` had no effect**: the entry, the metadata file, the object and the locks
the client holds are what they were. -/
structure Undone (st : CloudfsState) (p : Name) (w w' : World) (locks locks' : Set LockParams) :
    Prop where
  entry : entry st w' p = entry st w p
  metadata : (w'.ssd.look (getMetadataPath st p)).map Inode.node
    = (w.ssd.look (getMetadataPath st p)).map Inode.node
  object : w'.bucket (getKey p) = w.bucket (getKey p)
  locks : locks' = locks

/-- The name the download goes to: the path, or where its link leads if that was not removed. -/
def downloadName (st : CloudfsState) (env : OpenEnv) (p : Name) (w : World) : Name :=
  if env.unlink = none then getAbsolutePath st p else w.ssd.follow (getAbsolutePath st p)

/-- What an open whose download can open its file leaves, whether or not it succeeds. -/
theorem ssd_cloudfsOpen (hs : Sane st w) (hg : env.get.fopen = none) (p : Name)
    (flags : OpenFlags) :
    (cloudfsOpen st env p flags w).1.bucket = w.bucket ∧
      (cloudfsOpen st env p flags w).1.ssd =
        (unlinked st env.unlink p w).store (downloadName st env p w)
          (env.get.fetched w.bucket (getKey p)).2 0o666 := by
  have hget : s3CloudfsGet st env.get p (w.unlinked st env p flags) = _ :=
    s3CloudfsGet_eq st _ p hg (hs.readlink_follow_unlinked env.unlink p)
  rw [World.unlinked, CloudFS.unlinked] at hget
  rw [downloadName, ← follow_unlinked]
  unfold cloudfsOpen
  dsimp only
  rw [hget]
  dsimp only
  split
  all_goals exact ⟨rfl, rfl⟩

theorem serve_open_fst (env : OpenEnv) (p : Name) (flags : OpenFlags) (w : World) :
    (serve st w (.openFile p flags env)).1 = (cloudfsOpen st env p flags w).1 := by
  unfold serve
  dsimp only
  split <;> simp [*]

/-- An open that returns an error did open the file its download goes to. -/
theorem fopen_of_failed_open {e : Errno}
    (hfail : (serve st w (.openFile p flags env)).2 = .fail (.errno e)) :
    env.get.fopen = none := by
  cases hg : env.get.fopen with
  | none => rfl
  | some e' =>
    rw [serve] at hfail
    simp [cloudfsOpen, s3CloudfsGet, hg] at hfail

theorem look_unlinked_of_ne {y : Name} (hy : y ≠ getAbsolutePath st p) (fault : Fault) :
    (unlinked st fault p w).look y = w.ssd.look y := by
  cases fault with
  | none =>
    rw [unlinked, disturb_none, unlink_getD]
    exact look_remove_of_ne hy
  | some e => rfl

/-- The download goes to the path, or through the link that was not removed to the metadata file. -/
theorem downloadName_cases (hs : Sane st w) (env : OpenEnv) (p : Name) :
    downloadName st env p w = getAbsolutePath st p ∨
      downloadName st env p w = getMetadataPath st p ∧ unlinked st env.unlink p w = w.ssd := by
  unfold downloadName
  cases hu : env.unlink with
  | none => exact Or.inl (if_pos rfl)
  | some e =>
    rw [if_neg (by simp)]
    cases hr : w.ssd.readlink (getAbsolutePath st p) with
    | none => exact Or.inl (follow_of_not_link hr)
    | some t => exact Or.inr ⟨by rw [follow_of_link hr, hs.readlink_absolute hr], rfl⟩

/-- **The entry and the metadata file are what they were** exactly when the file the download went
to held the same bytes before. -/
theorem look_failed_open_iff (hs : Sane st w) (hp : '/' ∈ p) {c : Content} {mode : UInt32} {fs : Fs}
    (hfs : fs = (unlinked st env.unlink p w).store (downloadName st env p w) c mode) :
    (fs.look (getAbsolutePath st p)).map Inode.node = entry st w p ∧
        (fs.look (getMetadataPath st p)).map Inode.node
          = (w.ssd.look (getMetadataPath st p)).map Inode.node ↔
      (w.ssd.look (downloadName st env p w)).map Inode.node = some (.reg c) := by
  subst hfs
  have hne : getAbsolutePath st p ≠ getMetadataPath st p := absolute_ne_metadata_of_slash hp
  obtain ⟨n, hn, hnc⟩ :=
    look_store_self (unlinked st env.unlink p w) (downloadName st env p w) c mode
  have hself : (((unlinked st env.unlink p w).store (downloadName st env p w) c mode).look
      (downloadName st env p w)).map Inode.node = some (.reg c) := by
    rw [hn, Option.map_some, hnc]
  rcases downloadName_cases hs env p with hb | ⟨hb, hu⟩
  · have hmeta : ((unlinked st env.unlink p w).store (downloadName st env p w) c mode).look
        (getMetadataPath st p) = w.ssd.look (getMetadataPath st p) :=
      (look_store_of_ne (hb ▸ hne.symm) mode).trans (look_unlinked_of_ne hne.symm env.unlink)
    rw [hmeta]
    rw [hb] at hself ⊢
    rw [hself]
    exact ⟨fun h => h.1.symm, fun h => ⟨h.symm, rfl⟩⟩
  · have hpath : ((unlinked st env.unlink p w).store (downloadName st env p w) c mode).look
        (getAbsolutePath st p) = w.ssd.look (getAbsolutePath st p) :=
      (look_store_of_ne (hb ▸ hne) mode).trans (congrArg (fun fs : Fs => fs.look _) hu)
    rw [hpath]
    rw [hb] at hself ⊢
    rw [hself]
    exact ⟨fun h => h.2.symm, fun h => ⟨rfl, h.symm⟩⟩

/-- **A failed open has no effect exactly when** the file its download went to already held the
bytes the download leaves there, and none of the acquires it may make takes effect at the server, or
the client held that lock. -/
theorem failed_open_iff (hw : Reachable st w) (hp : '/' ∈ p)
    (hrpc : ∀ k, env.acquire k = (rpcs k).seen) (held : List (Grant ι)) (i : ι) {e : Errno}
    (hfail : (serve st w (.openFile p flags env)).2 = .fail (.errno e)) :
    Undone st p w (serve st w (.openFile p flags env)).1 (locksOf held i)
        (locksOf (serveLocks held i
          (withRpcs rpcs (callsOf st w (.openFile p flags env)))) i) ↔
      (w.ssd.look (downloadName st env p w)).map Inode.node
          = some (.reg (env.get.fetched w.bucket (getKey p)).2) ∧
        ((∃ k < MAXBLOCK, (rpcs k).Ok) →
          ⟨⟨getKey p, lockType flags, ⟨machine, w.lock.version + 1⟩⟩, i⟩ ∈ held) := by
  have hs := hw.sane
  obtain ⟨hbucket, hssd⟩ := ssd_cloudfsOpen hs (fopen_of_failed_open hfail) p flags
  rw [← serve_open_fst] at hbucket hssd
  have hlook := look_failed_open_iff hs hp hssd
  have hlocks : locksOf (serveLocks held i (withRpcs rpcs (callsOf st w (.openFile p flags env)))) i
      = locksOf held i ↔ ((∃ k < MAXBLOCK, (rpcs k).Ok) →
        ⟨⟨getKey p, lockType flags, ⟨machine, w.lock.version + 1⟩⟩, i⟩ ∈ held) := by
    have hretry := exists_ok_retransmit hrpc MAXBLOCK (s := Retry.init) (by decide)
    simp only [Retry.init, Nat.zero_add] at hretry
    rw [callsOf_open, locksOf_serveLocks_eq_iff (lockType_ne_release flags) args_of_mem_withRpcs,
      exists_ok_withRpcs, Retry.init, hretry]
  rw [← hlook, ← hlocks]
  exact ⟨fun h => ⟨⟨h.entry, h.metadata⟩, h.locks⟩,
    fun h => ⟨h.1.1, h.1.2, congrFun hbucket _, h.2⟩⟩

/-- An open refused a descriptor, the lock having been granted. -/
def OpenEnv.failing : OpenEnv := { OpenEnv.calm with openFile := some (.other 24) }

/-- The RPCs of that open, all answered. -/
def grantingRpcs : ℕ → Rpc := fun _ => .answered .OK true

theorem failed_open_iff_local :
    Undone (.sample 1) ['/', 'a'] oneByteLocal
        (serve (.sample 1) oneByteLocal (.openFile ['/', 'a'] ⟨.rdonly, false⟩ OpenEnv.failing)).1
        (locksOf [] ()) (locksOf (serveLocks [] () (withRpcs grantingRpcs (callsOf (.sample 1)
          oneByteLocal (.openFile ['/', 'a'] ⟨.rdonly, false⟩ OpenEnv.failing)))) ()) ↔
      (oneByteLocal.ssd.look (downloadName (.sample 1) OpenEnv.failing ['/', 'a']
          oneByteLocal)).map Inode.node
        = some (.reg (OpenEnv.failing.get.fetched oneByteLocal.bucket (getKey ['/', 'a'])).2) ∧
      ((∃ k < MAXBLOCK, (grantingRpcs k).Ok) →
        (⟨⟨getKey ['/', 'a'], .READ, ⟨machine, oneByteLocal.lock.version + 1⟩⟩, ()⟩ : Grant Unit)
          ∈ []) :=
  failed_open_iff reachable_oneByteLocal (by decide) (fun _ => rfl) [] ()
    (e := .other 24) (by decide)

/-- **That open empties the local file and keeps a lock**, and says it failed. -/
theorem failed_open_empties_local :
    (serve (.sample 1) oneByteLocal (.openFile ['/', 'a'] ⟨.rdonly, false⟩ OpenEnv.failing)).2
        = .fail (.errno (.other 24)) ∧
      entry (.sample 1) oneByteLocal ['/', 'a'] = some (.reg ⟨[1], by decide⟩) ∧
      entry (.sample 1) (serve (.sample 1) oneByteLocal
        (.openFile ['/', 'a'] ⟨.rdonly, false⟩ OpenEnv.failing)).1 ['/', 'a']
          = some (.reg Content.empty) ∧
      serveLocks [] () (withRpcs grantingRpcs (callsOf (.sample 1) oneByteLocal
        (.openFile ['/', 'a'] ⟨.rdonly, false⟩ OpenEnv.failing)))
          = [⟨⟨['+', 'a'], .READ, ⟨0, 1⟩⟩, ()⟩] ∧
      ¬ Undone (.sample 1) ['/', 'a'] oneByteLocal
        (serve (.sample 1) oneByteLocal (.openFile ['/', 'a'] ⟨.rdonly, false⟩ OpenEnv.failing)).1
        (locksOf [] ()) (locksOf (serveLocks [] () (withRpcs grantingRpcs (callsOf (.sample 1)
          oneByteLocal (.openFile ['/', 'a'] ⟨.rdonly, false⟩ OpenEnv.failing)))) ()) := by
  refine ⟨by decide, by decide, by decide, by decide, fun hu => ?_⟩
  have he := hu.entry
  revert he
  decide

end CloudFS
