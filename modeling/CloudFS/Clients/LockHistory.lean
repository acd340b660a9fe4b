import CloudFS.Client.Retry
import CloudFS.Machinery.CInt
import CloudFS.Session.Calm
import CloudFS.Session.Confine
import Mathlib.Data.List.Induction

/-!
# Clients/LockHistory — which lock a release gives back

One mount keeps one `version` and one `skip` flag for all its handles.  Every open advances the
version, and a release uses the version there is, so it gives back the lock of its handle exactly
when no open came between, or a multiple of `2 ^ 32` of them (`release_identity_iff`).  Any denied
open sets the flag, and whichever release comes next consumes it.  `releases_acquired_iff` says when
both work out for a handle: its release asks the server just if its open got its lock, the lock is
given back by then, and no lock is given back that was never got.
-/

namespace CloudFS

open Posix

/-! ## What changes the lock client -/

/-- A change that leaves the handles and the lock client alone. -/
structure SameClient (w w' : World) : Prop where
  files : w'.files = w.files
  lock : w'.lock = w.lock

variable {st : CloudfsState} {w w' w'' : World} {p : Name} {h : Handle} {f : FuseFile}

theorem SameClient.refl (w : World) : SameClient w w := ⟨rfl, rfl⟩

theorem SameClient.trans (h₁ : SameClient w w') (h₂ : SameClient w' w'') : SameClient w w'' :=
  ⟨h₂.files.trans h₁.files, h₂.lock.trans h₁.lock⟩

variable (st) in
theorem sameClient_get (env : GetEnv) (p : Name) (w : World) :
    SameClient w (s3CloudfsGet st env p w).1 := by
  unfold s3CloudfsGet
  split
  all_goals exact ⟨rfl, rfl⟩

variable (st) in
theorem sameClient_put (env : PutEnv) (p : Name) (w : World) :
    SameClient w (s3CloudfsPut st env p w).1 := by
  unfold s3CloudfsPut
  dsimp only
  split
  all_goals exact ⟨rfl, rfl⟩

variable (st) in
theorem sameClient_flushToCloud (env : ReleaseEnv) (p : Name) (stbuf : Stat) (w : World) :
    SameClient w (flushToCloud st env p stbuf w).1 := by
  have hput := sameClient_put st env.put p w
  unfold flushToCloud
  dsimp only
  split
  case h_1 => exact hput
  case h_2 =>
    split
    all_goals exact ⟨hput.files, hput.lock⟩

variable (st) in
theorem sameClient_makeProxy (env : ReleaseEnv) (p : Name) (w : World) :
    SameClient w (makeProxy st env p w).1 := by
  unfold makeProxy
  dsimp only
  split
  case h_1 => exact .refl w
  case h_2 =>
    split
    all_goals exact ⟨rfl, rfl⟩

variable (st) in
theorem sameClient_flushAndLink (env : ReleaseEnv) (p : Name) (stbuf : Stat) (w : World) :
    SameClient w (flushAndLink st env p stbuf w).1 := by
  have hflush := sameClient_flushToCloud st env p stbuf w
  unfold flushAndLink
  revert hflush
  generalize flushToCloud st env p stbuf w = r
  obtain ⟨v, e | u⟩ := r
  · exact fun hv => hv
  · exact fun hv => hv.trans (sameClient_makeProxy st env p v)

variable (st) in
theorem sameClient_releaseFile (env : ReleaseEnv) (f : FuseFile) (w : World) :
    SameClient w (releaseFile st env f w).1 := by
  unfold releaseFile
  split
  case h_1 => exact .refl w
  case h_2 =>
    split
    · split
      · split
        · exact ⟨rfl, rfl⟩
        · exact sameClient_flushAndLink ..
      · exact sameClient_makeProxy ..
    · split
      · exact sameClient_flushAndLink ..
      · exact .refl w

/-- The lock client after an open. -/
def LockClient.opened (env : OpenEnv) (p : Name) (flags : OpenFlags) (l : LockClient) :
    LockClient :=
  acquireLockWrapper env.acquire p flags { l with version := l.version + 1 }

variable (st) in
/-- **An open** asks for its lock, and adds a handle of its path if it succeeds. -/
theorem cloudfsOpen_client (env : OpenEnv) (p : Name) (flags : OpenFlags) (w : World) :
    (cloudfsOpen st env p flags w).1.lock = w.lock.opened env p flags ∧
      ((∃ e, (cloudfsOpen st env p flags w).2 = .error e ∧
          (cloudfsOpen st env p flags w).1.files = w.files) ∨
        ∃ f : FuseFile, f.path = p ∧ (cloudfsOpen st env p flags w).2 = .ok w.files.next ∧
          (cloudfsOpen st env p flags w).1.files = w.files.alloc f) := by
  have hget := sameClient_get st env.get p { w with
    lock := w.lock.opened env p flags
    ssd := (disturb env.unlink (w.ssd.unlink (getAbsolutePath st p))).toOption.getD w.ssd }
  unfold cloudfsOpen
  revert hget
  dsimp only [LockClient.opened]
  generalize s3CloudfsGet st env.get p _ = r
  obtain ⟨v, e | res⟩ := r
  · exact fun hv => ⟨hv.lock, Or.inl ⟨e, rfl, hv.files⟩⟩
  · intro hv
    dsimp only
    split
    case h_1 e => exact ⟨hv.lock, Or.inl ⟨_, rfl, hv.files⟩⟩
    case h_2 fd =>
      exact ⟨hv.lock, Or.inr ⟨_, rfl,
        congrArg (fun t : Table FuseFile => Except.ok t.next) hv.files,
        congrArg (fun t : Table FuseFile => t.alloc _) hv.files⟩⟩

/-! ## Requests -/

/-- Whether a request opens a file. -/
def Req.isOpen : Req → Bool
  | .openFile .. => true
  | _ => false

/-- Whether a request releases a handle. -/
def Req.isRelease : Req → Bool
  | .release .. => true
  | _ => false

/-- The RPCs a request made. -/
def callsOf (st : CloudfsState) (w : World) (r : Req) : List LockCall :=
  (serve st w r).1.lock.calls.drop w.lock.calls.length

/-- A request that is no open, write or release, nor the end of the mount, leaves handles and lock
client alone. -/
theorem sameClient_serve {r : Req} (ho : r.isOpen = false) (hr : r.isRelease = false)
    (hw : ∀ h buf offset fault, r ≠ .write h buf offset fault) (hm : r ≠ .remount) :
    SameClient w (serve st w r).1 := by
  cases r with
  | openFile => exact absurd ho (by simp [Req.isOpen])
  | release => exact absurd hr (by simp [Req.isRelease])
  | write => exact absurd rfl (hw _ _ _ _)
  | remount => exact absurd rfl hm
  | getattr | tick => exact ⟨rfl, rfl⟩
  | read | fgetattr | ftruncate => exact ⟨by simp, by simp⟩
  | mknod path mode fault =>
    unfold serve cloudfsMknod
    dsimp only
    split <;> exact ⟨rfl, rfl⟩
  | truncate path size fault =>
    unfold serve cloudfsTruncate
    dsimp only
    split <;> exact ⟨rfl, rfl⟩
  | utimens path atim mtim fault =>
    unfold serve cloudfsUtimens
    dsimp only
    split <;> exact ⟨rfl, rfl⟩
  | unlink path env =>
    unfold serve cloudfsUnlink
    dsimp only
    split <;> split <;> exact ⟨rfl, rfl⟩

variable (st) in
/-- **An open** asks for its lock, and adds a handle of its path if it is answered with one. -/
theorem serve_open_client (env : OpenEnv) (p : Name) (flags : OpenFlags) (w : World) :
    (serve st w (.openFile p flags env)).1.lock = w.lock.opened env p flags ∧
      ((∀ h, (serve st w (.openFile p flags env)).2 ≠ .handle h) ∧
          (serve st w (.openFile p flags env)).1.files = w.files ∨
        ∃ f : FuseFile, f.path = p ∧
          (serve st w (.openFile p flags env)).2 = .handle w.files.next ∧
          (serve st w (.openFile p flags env)).1.files = w.files.alloc f) := by
  have hopen := cloudfsOpen_client st env p flags w
  unfold serve
  revert hopen
  dsimp only
  generalize cloudfsOpen st env p flags w = r
  obtain ⟨v, e | k⟩ := r
  · rintro ⟨hl, ⟨-, -, hf⟩ | ⟨f, -, hk, -⟩⟩
    · exact ⟨hl, Or.inl ⟨by simp, hf⟩⟩
    · exact absurd hk (by simp)
  · rintro ⟨hl, ⟨e, hk, -⟩ | ⟨f, hfp, hk, hf⟩⟩
    · exact absurd hk (by simp)
    · exact ⟨hl, Or.inr ⟨f, hfp, congrArg Reply.handle (Except.ok.inj hk), hf⟩⟩

/-- **A release** gives its lock back and closes its handle. -/
theorem serve_release_client (hf : w.files.get h = some f) (env : ReleaseEnv) :
    (serve st w (.release h env)).1.lock = releaseLockWrapper env.release f.path w.lock ∧
      (serve st w (.release h env)).1.files = w.files.erase h := by
  have hsame := sameClient_releaseFile st env f w
  rw [serve, onFile, hf]
  exact ⟨congrArg (releaseLockWrapper env.release f.path) hsame.lock,
    congrArg (fun t : Table FuseFile => t.erase h) hsame.files⟩

variable (st) in
/-- **A write** may mark its handle. -/
theorem serve_write_client (h : Handle) (buf : Bytes) (offset : ℕ) (fault : Fault) (w : World) :
    (serve st w (.write h buf offset fault)).1.lock = w.lock ∧
      ((serve st w (.write h buf offset fault)).1.files = w.files ∨
        ∃ f g : FuseFile, w.files.get h = some f ∧ g.path = f.path ∧
          (serve st w (.write h buf offset fault)).1.files = w.files.set h g) := by
  cases hf : w.files.get h with
  | none =>
    rw [serve, onFile_of_none hf]
    exact ⟨rfl, Or.inl rfl⟩
  | some f =>
    rw [serve, onFile, hf]
    rcases cloudfsWrite_cases fault h f buf offset w with ⟨e, -, hw⟩ | ⟨ssd, -, hw⟩
    all_goals
      simp only [hw, World.marked]
      split
      · exact ⟨rfl, Or.inr ⟨f, { f with fh := { f.fh with dirty := true } }, rfl, rfl, rfl⟩⟩
      · exact ⟨rfl, Or.inl rfl⟩

/-- No other request of a mount touches the lock client. -/
theorem serve_lock_other {r : Req} (ho : r.isOpen = false) (hr : r.isRelease = false)
    (hm : r ≠ .remount) : (serve st w r).1.lock = w.lock := by
  cases r with
  | write h buf offset fault => exact (serve_write_client st h buf offset fault w).1
  | _ => exact (sameClient_serve ho hr (by simp) hm).lock

/-- **While a mount lasts a handle keeps its path**, and is never handed out again. -/
theorem path_serve {r : Req} (hm : r ≠ .remount) (hlt : h < w.files.next)
    (hf : (serve st w r).1.files.get h = some f) :
    (∃ g, w.files.get h = some g ∧ g.path = f.path) := by
  cases r with
  | openFile p flags env =>
    rcases (serve_open_client st env p flags w).2 with ⟨-, hfiles⟩ | ⟨g, -, -, hfiles⟩
    · exact ⟨f, hfiles ▸ hf, rfl⟩
    · rw [hfiles, Table.get_alloc_of_ne hlt.ne] at hf
      exact ⟨f, hf, rfl⟩
  | write k buf offset fault =>
    rcases (serve_write_client st k buf offset fault w).2 with hfiles | ⟨f', g, hk, hg, hfiles⟩
    · exact ⟨f, hfiles ▸ hf, rfl⟩
    · rw [hfiles] at hf
      by_cases hkh : h = k
      · subst hkh
        rw [Table.get_set_self hk] at hf
        exact ⟨f', hk, hg ▸ congrArg FuseFile.path (Option.some.inj hf)⟩
      · rw [Table.get_set_of_ne hkh] at hf
        exact ⟨f, hf, rfl⟩
  | release k env =>
    cases hk : w.files.get k with
    | none =>
      rw [serve, onFile_of_none hk] at hf
      exact ⟨f, hf, rfl⟩
    | some g =>
      rw [(serve_release_client hk env).2] at hf
      exact ⟨f, (Table.get_erase_eq_some hf).2, rfl⟩
  | _ => exact ⟨f, (sameClient_serve rfl rfl (by simp) hm).files ▸ hf, rfl⟩

/-- The handles handed out stay handed out. -/
theorem next_le_serve {r : Req} (hm : r ≠ .remount) :
    w.files.next ≤ (serve st w r).1.files.next := by
  cases r with
  | openFile p flags env =>
    rcases (serve_open_client st env p flags w).2 with ⟨-, hfiles⟩ | ⟨g, -, -, hfiles⟩
    · rw [hfiles]
    · rw [hfiles]
      exact Nat.le_succ _
  | write k buf offset fault =>
    rcases (serve_write_client st k buf offset fault w).2 with hfiles | ⟨-, g, -, -, hfiles⟩
    · rw [hfiles]
    · rw [hfiles]
      rfl
  | release k env =>
    cases hk : w.files.get k with
    | none => rw [serve, onFile_of_none hk]
    | some g =>
      rw [(serve_release_client hk env).2]
      rfl
  | _ => exact (congrArg Table.next (sameClient_serve rfl rfl (by simp) hm).files).ge

/-! ## The calls of an open and of a release -/

/-- The lock an open asks for is granted. -/
def OpenEnv.granted (env : OpenEnv) : Bool := (retransmit env.acquire MAXBLOCK Retry.init).2

/-- A loop makes a call. -/
theorem exists_mem_retransmit (answer : ℕ → RpcAnswer) :
    ∃ a, a ∈ (retransmit answer MAXBLOCK Retry.init).1 := by
  unfold MAXBLOCK retransmit
  dsimp only
  split <;> exact ⟨_, List.mem_cons_self⟩

/-- A loop ends well if and only if it got an `OK`. -/
theorem ok_mem_retransmit_iff {answer : ℕ → RpcAnswer} {left : ℕ} {s : Retry}
    (hs : s.result ≠ .OK) :
    RpcAnswer.answered .OK ∈ (retransmit answer left s).1 ↔
      (retransmit answer left s).2 = true := by
  obtain ⟨n, hn, heq⟩ := retransmit_eq answer left hs
  rw [heq, List.mem_map, decide_eq_true_iff, ← hn.exists_iff fun _ => id]
  simp

theorem callsOf_open (env : OpenEnv) (p : Name) (flags : OpenFlags) (w : World) :
    callsOf st w (.openFile p flags env)
      = (retransmit env.acquire MAXBLOCK Retry.init).1.map fun a =>
          ⟨⟨getKey p, lockType flags, ⟨machine, w.lock.version + 1⟩⟩, a⟩ := by
  rw [callsOf, (serve_open_client st env p flags w).1, LockClient.opened, acquireLockWrapper]
  exact List.drop_left

/-- A release makes its calls unless the flag is set. -/
theorem callsOf_release (hf : w.files.get h = some f) (env : ReleaseEnv) :
    callsOf st w (.release h env) = if w.lock.skip = true then [] else
      (retransmit env.release MAXBLOCK Retry.init).1.map fun a =>
        ⟨⟨getKey f.path, .RELEASE, ⟨machine, w.lock.version⟩⟩, a⟩ := by
  rw [callsOf, (serve_release_client hf env).1, releaseLockWrapper]
  split
  · exact List.drop_length
  · exact List.drop_left

/-! ## Runs of a mount -/

/-- A request that does not end the mount, nor releases a handle that is not open. -/
def Req.OfMount (w : World) : Req → Prop
  | .remount => False
  | .release h _ => (w.files.get h).isSome = true
  | _ => True

/-- A request of a mount whose opens all get their locks. -/
def Req.Granted (w : World) (r : Req) : Prop :=
  r.OfMount w ∧ ∀ p flags env, r = .openFile p flags env → env.granted = true

theorem granted_open {env : OpenEnv} (hg : env.granted = true) {flags : OpenFlags} :
    (Req.openFile p flags env).Granted w := by
  refine ⟨trivial, ?_⟩
  rintro _ _ _ ⟨⟩
  exact hg

/-- A request whose open does not get its lock. -/
def Req.Denied : Req → Prop
  | .openFile _ _ env => env.granted = false
  | _ => False

/-- An open was denied its lock, and no handle was released since. -/
def DeniedSince (rs : List Req) : Prop :=
  ∃ l₁ r l₂, rs = l₁ ++ r :: l₂ ∧ r.Denied ∧ ∀ x ∈ l₂, x.isRelease = false

theorem Req.OfMount.ne_remount {r : Req} (hr : r.OfMount w) : r ≠ .remount := by
  rintro rfl
  exact hr

/-- **Over a run a handle keeps its path.** -/
theorem path_run {rs : List Req} (hl : Machine.Legal (serve st) (fun w r => r.OfMount w) w rs)
    (hlt : h < w.files.next) (hf : (Machine.run (serve st) w rs).1.files.get h = some f) :
    ∃ g, w.files.get h = some g ∧ g.path = f.path := by
  induction rs generalizing w with
  | nil => exact ⟨f, hf, rfl⟩
  | cons r rs ih =>
    have hm := hl.1.ne_remount
    obtain ⟨g, hg, hgp⟩ := ih hl.2 (hlt.trans_le (next_le_serve hm)) hf
    obtain ⟨g', hg', hgp'⟩ := path_serve hm hlt hg
    exact ⟨g', hg', hgp'.trans hgp⟩

/-- **Every open advances the version**, and nothing else does. -/
theorem version_run {rs : List Req}
    (hl : Machine.Legal (serve st) (fun w r => r.OfMount w) w rs) :
    (Machine.run (serve st) w rs).1.lock.version
      = w.lock.version + Int32.ofNat (rs.countP Req.isOpen) := by
  induction rs generalizing w with
  | nil => simp [Machine.run]
  | cons r rs ih =>
    have hstep : (serve st w r).1.lock.version
        = w.lock.version + Int32.ofNat (if r.isOpen then 1 else 0) := by
      cases r with
      | openFile p flags env =>
        rw [(serve_open_client st env p flags w).1]
        rfl
      | release k env =>
        obtain ⟨f, hf⟩ := Option.isSome_iff_exists.1 hl.1
        rw [(serve_release_client hf env).1, releaseLockWrapper]
        split <;> simp [Req.isOpen]
      | _ =>
        rw [serve_lock_other rfl rfl hl.1.ne_remount]
        simp [Req.isOpen]
    rw [Machine.run_cons, ih hl.2, hstep, List.countP_cons, Int32.ofNat_add,
      Int32.add_comm (Int32.ofNat (List.countP _ _)), ← Int32.add_assoc]

/-- Where a list that was extended by one splits. -/
theorem append_singleton_eq_iff {α : Type} {l l₁ l₂ : List α} {x y : α} :
    l ++ [y] = l₁ ++ x :: l₂ ↔
      (l₂ = [] ∧ l = l₁ ∧ y = x) ∨ ∃ l₃, l₂ = l₃ ++ [y] ∧ l = l₁ ++ x :: l₃ := by
  have hinj : ∀ {s t : List α} {a b : α}, s ++ [a] = t ++ [b] ↔ s = t ∧ a = b := by simp
  induction l₂ using List.reverseRecOn with
  | nil => simp
  | append_singleton l₃ z _ =>
    rw [← List.cons_append, ← List.append_assoc, hinj]
    constructor
    · rintro ⟨hl, rfl⟩
      exact Or.inr ⟨l₃, rfl, hl⟩
    · rintro (⟨h, -⟩ | ⟨l₄, h, hl⟩)
      · exact absurd h (by simp)
      · obtain ⟨rfl, rfl⟩ := hinj.1 h
        exact ⟨hl, rfl⟩

theorem deniedSince_concat (rs : List Req) (r : Req) :
    DeniedSince (rs ++ [r]) ↔ r.Denied ∨ r.isRelease = false ∧ DeniedSince rs := by
  constructor
  · rintro ⟨l₁, x, l₂, he, hx, hl₂⟩
    rcases append_singleton_eq_iff.1 he with ⟨-, -, rfl⟩ | ⟨l₃, rfl, hrs⟩
    · exact Or.inl hx
    · exact Or.inr ⟨hl₂ r (by simp), l₁, x, l₃, hrs, hx, fun z hz => hl₂ z (by simp [hz])⟩
  · rintro (hr | ⟨hr, l₁, x, l₂, rfl, hx, hl₂⟩)
    · exact ⟨rs, r, [], rfl, hr, by simp⟩
    · refine ⟨l₁, x, l₂ ++ [r], by simp, hx, fun z hz => ?_⟩
      rcases List.mem_append.1 hz with hz | hz
      · exact hl₂ z hz
      · exact List.mem_singleton.1 hz ▸ hr

/-- **The flag says that an open was denied since the last release.** -/
theorem skip_run_iff (hs : w.lock.skip = false) {rs : List Req}
    (hl : Machine.Legal (serve st) (fun w r => r.OfMount w) w rs) :
    (Machine.run (serve st) w rs).1.lock.skip = true ↔ DeniedSince rs := by
  induction rs using List.reverseRecOn with
  | nil =>
    refine iff_of_false (by simp [hs]) ?_
    rintro ⟨l₁, r, l₂, he, -⟩
    exact absurd he.symm (by simp)
  | append_singleton rs r ih =>
    obtain ⟨hl, hr, -⟩ := Machine.legal_append.1 hl
    rw [Machine.run_concat, deniedSince_concat, ← ih hl]
    generalize (Machine.run (serve st) w rs).1 = v at hr ⊢
    cases r with
    | openFile p flags env =>
      dsimp only
      rw [(serve_open_client st env p flags v).1, LockClient.opened, acquireLockWrapper]
      cases hg : (retransmit env.acquire MAXBLOCK Retry.init).2 <;>
        simp [Req.Denied, Req.isRelease, OpenEnv.granted, hg]
    | release k env =>
      obtain ⟨f, hf⟩ := Option.isSome_iff_exists.1 hr
      dsimp only
      rw [(serve_release_client hf env).1, releaseLockWrapper]
      cases v.lock.skip <;> simp [Req.Denied, Req.isRelease]
    | _ =>
      dsimp only
      rw [serve_lock_other rfl rfl hr.ne_remount]
      simp [Req.Denied, Req.isRelease]

/-! ## What a release gives back -/

/-- The calls of a release carry the key and the identity of the lock that was granted. -/
def KeepsIdentity (acquires releases : List LockCall) : Prop :=
  ∃ a ∈ acquires, a.answer = .answered .OK ∧
    ∀ r ∈ releases, r.args.key = a.args.key ∧ r.args.id = a.args.id

/-- A release asks the server to give a key back. -/
def SendsRelease (releases : List LockCall) (key : Name) : Prop :=
  ∃ r ∈ releases, r.args.operation = .RELEASE ∧ r.args.key = key

instance (acquires releases : List LockCall) : Decidable (KeepsIdentity acquires releases) :=
  inferInstanceAs (Decidable (∃ a ∈ acquires, _))

instance (releases : List LockCall) (key : Name) : Decidable (SendsRelease releases key) :=
  inferInstanceAs (Decidable (∃ r ∈ releases, _))

/-- After `pre` an open of `p` is answered with the handle `h`, which is still open after `mid`. -/
structure OpenSince (st : CloudfsState) (w : World) (pre mid : List Req) (p : Name)
    (flags : OpenFlags) (env : OpenEnv) (h : Handle) : Prop where
  opened : (serve st (Machine.run (serve st) w pre).1 (.openFile p flags env)).2 = .handle h
  live : ((Machine.run (serve st) w (pre ++ .openFile p flags env :: mid)).1.files.get h).isSome
    = true

variable {pre mid : List Req} {flags : OpenFlags} {env : OpenEnv}

/-- A handle that is still open is open on its path. -/
theorem OpenSince.path (ho : OpenSince st w pre mid p flags env h)
    (hl : Machine.Legal (serve st) (fun w r => r.OfMount w) w
      (pre ++ .openFile p flags env :: mid)) :
    ∃ f, (Machine.run (serve st) w (pre ++ .openFile p flags env :: mid)).1.files.get h = some f ∧
      f.path = p := by
  obtain ⟨f, hf⟩ := Option.isSome_iff_exists.1 ho.live
  refine ⟨f, hf, ?_⟩
  obtain ⟨-, -, hmid⟩ := Machine.legal_append.1 hl
  rw [Machine.run_append, Machine.run_cons] at hf
  rcases (serve_open_client st env p flags (Machine.run (serve st) w pre).1).2 with
    ⟨hn, -⟩ | ⟨g, hg, hh, hfiles⟩
  · exact absurd ho.opened (hn h)
  · obtain rfl := Reply.handle.inj (hh.symm.trans ho.opened)
    have hlt : (Machine.run (serve st) w pre).1.files.next
        < (serve st (Machine.run (serve st) w pre).1 (.openFile p flags env)).1.files.next := by
      rw [hfiles]
      exact Nat.lt_succ_self _
    obtain ⟨g', hg', hp⟩ := path_run hmid hlt hf
    rw [hfiles, Table.get_alloc_next] at hg'
    exact hp.symm.trans ((congrArg FuseFile.path (Option.some.inj hg')).symm.trans hg)

/-- The version a handle is released at, after that it was opened at. -/
theorem version_since (hl : Machine.Legal (serve st) (fun w r => r.OfMount w) w
    (pre ++ .openFile p flags env :: mid)) :
    (Machine.run (serve st) w (pre ++ .openFile p flags env :: mid)).1.lock.version
      = (Machine.run (serve st) w pre).1.lock.version + 1
        + Int32.ofNat (mid.countP Req.isOpen) := by
  obtain ⟨-, -, hmid⟩ := Machine.legal_append.1 hl
  rw [Machine.run_append, Machine.run_cons, version_run hmid, (serve_open_client ..).1]
  rfl

/-- **A release gives back the lock that was acquired exactly when no file was opened in between**,
or a multiple of `2 ^ 32` were: in any run of a mount whose acquires are all granted, the calls of
the release of a handle carry the key and the identity of the acquire granted when it was opened if
and only if the number of other opens, successful or not, that came between is such a multiple. -/
theorem release_identity_iff (w : World)
    (hl : Machine.Legal (serve st) (fun w r => r.Granted w) w.remount
      (pre ++ .openFile p flags env :: mid))
    (ho : OpenSince st w.remount pre mid p flags env h) (closing : ReleaseEnv) :
    KeepsIdentity
        (callsOf st (Machine.run (serve st) w.remount pre).1 (.openFile p flags env))
        (callsOf st (Machine.run (serve st) w.remount (pre ++ .openFile p flags env :: mid)).1
          (.release h closing)) ↔
      2 ^ 32 ∣ mid.countP Req.isOpen := by
  have hm := Machine.legal_mono (fun _ _ hr => And.left hr) hl
  obtain ⟨f, hf, hfp⟩ := ho.path hm
  have hgrant : ∀ r ∈ pre ++ .openFile p flags env :: mid, ¬ r.Denied := by
    refine Machine.legal_forall (fun _ r hr hd => ?_) hl
    cases r with
    | openFile p' flags' env' => exact absurd hd (by simp [Req.Denied, hr.2 p' flags' env' rfl])
    | _ => exact hd
  have hskip : (Machine.run (serve st) w.remount
      (pre ++ .openFile p flags env :: mid)).1.lock.skip = false := by
    rw [← Bool.not_eq_true, skip_run_iff rfl hm]
    rintro ⟨l₁, r, l₂, he, hd, -⟩
    exact hgrant r (he ▸ by simp) hd
  have hopen : env.granted = true := by
    have := hgrant (.openFile p flags env) (by simp)
    simpa [Req.Denied] using this
  rw [callsOf_open, callsOf_release hf, hskip, if_neg Bool.false_ne_true, version_since hm, hfp,
    ← Int32.add_ofNat_eq_self_iff ((Machine.run (serve st) w.remount pre).1.lock.version + 1)]
  constructor
  · rintro ⟨a, ha, -, hall⟩
    obtain ⟨x, -, rfl⟩ := List.mem_map.1 ha
    obtain ⟨y, hy⟩ := exists_mem_retransmit closing.release
    exact congrArg Identity.version (hall _ (List.mem_map_of_mem hy)).2
  · intro hz
    have hok := (ok_mem_retransmit_iff (by decide)).2 hopen
    refine ⟨_, List.mem_map_of_mem hok, rfl, fun r hr => ?_⟩
    obtain ⟨y, -, rfl⟩ := List.mem_map.1 hr
    exact ⟨rfl, by rw [hz]⟩

/-- A mount of an empty SSD over an empty bucket. -/
def emptyMount : World := World.init (Fs.empty 0 ⟨0, 0⟩)

/-- A handle opened after another was released gives its own lock back. -/
theorem release_identity_iff_alone :
    let w := emptyMount.remount
    let pre : List Req :=
      [.openFile ['/', 'b'] ⟨.rdonly, false⟩ OpenEnv.calm, .release 0 ReleaseEnv.calm]
    let a : Req := .openFile ['/', 'a'] ⟨.rdwr, false⟩ OpenEnv.calm
    let mid : List Req := [.write 1 [1] 0 none]
    KeepsIdentity (callsOf (.sample 0) (Machine.run (serve (.sample 0)) w pre).1 a)
        (callsOf (.sample 0) (Machine.run (serve (.sample 0)) w (pre ++ a :: mid)).1
          (.release 1 ReleaseEnv.calm)) ↔
      2 ^ 32 ∣ mid.countP Req.isOpen := by
  intro w pre a mid
  have hl : Machine.Legal (serve (.sample 0)) (fun w r => r.Granted w) w (pre ++ a :: mid) :=
    ⟨granted_open (by decide), ⟨rfl, by simp⟩, granted_open (by decide), ⟨trivial, by simp⟩,
      trivial⟩
  exact release_identity_iff emptyMount hl ⟨by decide, by decide⟩ ReleaseEnv.calm

/-- **Two overlapping handles on different files**: the first gives back the lock of the second's
version. -/
theorem overlapping_handles_mix_identities :
    let w := emptyMount.remount
    let a : Req := .openFile ['/', 'a'] ⟨.rdonly, false⟩ OpenEnv.calm
    let b : Req := .openFile ['/', 'b'] ⟨.rdonly, false⟩ OpenEnv.calm
    let v := (Machine.run (serve (.sample 0)) w [a, b]).1
    (Machine.run (serve (.sample 0)) w [a, b]).2 = [.handle 0, .handle 1] ∧
      callsOf (.sample 0) w a = [⟨⟨['+', 'a'], .READ, ⟨0, 0⟩⟩, .answered .OK⟩] ∧
      callsOf (.sample 0) v (.release 0 ReleaseEnv.calm)
        = [⟨⟨['+', 'a'], .RELEASE, ⟨0, 1⟩⟩, .answered .OK⟩] ∧
      ¬ KeepsIdentity (callsOf (.sample 0) w a)
        (callsOf (.sample 0) v (.release 0 ReleaseEnv.calm)) := by
  decide

/-! ### Locks that were got, and locks that were given back -/

/-- The RPC got the lock of `key` under `id`. -/
def LockCall.Got (c : LockCall) (key : Name) (id : Identity) : Prop :=
  c.args.operation ≠ .RELEASE ∧ c.answer = .answered .OK ∧ c.args.key = key ∧ c.args.id = id

/-- The RPC asks the server to take the lock of `key` under `id` back. -/
def LockCall.GivesBack (c : LockCall) (key : Name) (id : Identity) : Prop :=
  c.args.operation = .RELEASE ∧ c.args.key = key ∧ c.args.id = id

/-- The RPC `c` is one of those made in the run `rs`. -/
def Sent (st : CloudfsState) (w : World) (rs : List Req) (c : LockCall) : Prop :=
  ∃ l₁ r l₂, rs = l₁ ++ r :: l₂ ∧ c ∈ callsOf st (Machine.run (serve st) w l₁).1 r

/-- The request gets a lock of `key`. -/
def Req.Gets (key : Name) : Req → Prop
  | .openFile p _ env => getKey p = key ∧ env.granted = true
  | _ => False

/-- The version of the run `rs` is one under which a lock of `key` was got. -/
def GotSince (key : Name) (rs : List Req) : Prop :=
  ∃ l₁ r l₂, rs = l₁ ++ r :: l₂ ∧ r.Gets key ∧ 2 ^ 32 ∣ l₂.countP Req.isOpen

/-- After `pre` a handle of `key` is released in the run `rs` at the version there was before it,
and no open was denied since the last release. -/
def GivenBack (st : CloudfsState) (w : World) (pre : List Req) (key : Name) (rs : List Req) :
    Prop :=
  ∃ l₁ k env l₂, rs = l₁ ++ .release k env :: l₂ ∧
    (∃ f, (Machine.run (serve st) w (pre ++ l₁)).1.files.get k = some f ∧ getKey f.path = key) ∧
    ¬ DeniedSince (pre ++ l₁) ∧ 2 ^ 32 ∣ l₁.countP Req.isOpen

/-- **The release of a handle releases what was acquired**: it asks the server just if the handle's
acquire was granted; by then the handle's lock was given back, if not by another release before;
and it gives back no lock that was never got. -/
structure ReleasesAcquired (st : CloudfsState) (w : World) (pre mid : List Req) (p : Name)
    (flags : OpenFlags) (env : OpenEnv) (h : Handle) (closing : ReleaseEnv) : Prop where
  sends : SendsRelease (callsOf st (Machine.run (serve st) w
      (pre ++ .openFile p flags env :: mid)).1 (.release h closing)) (getKey p) ↔
    env.granted = true
  givenBack : env.granted = true →
    ∀ a ∈ callsOf st (Machine.run (serve st) w pre).1 (.openFile p flags env),
      ∃ c, Sent st (Machine.run (serve st) w (pre ++ [.openFile p flags env])).1
        (mid ++ [.release h closing]) c ∧ c.GivesBack a.args.key a.args.id
  got : ∀ c ∈ callsOf st (Machine.run (serve st) w
      (pre ++ .openFile p flags env :: mid)).1 (.release h closing),
    ∃ a, Sent st w (pre ++ .openFile p flags env :: mid) a ∧ a.Got c.args.key c.args.id

/-- The requests that make no RPCs. -/
theorem callsOf_other {r : Req} (ho : r.isOpen = false) (hr : r.isRelease = false)
    (hm : r ≠ .remount) : callsOf st w r = [] := by
  rw [callsOf, serve_lock_other ho hr hm]
  exact List.drop_length

/-- **A request gets a lock** if it is an open of its key that is granted one. -/
theorem got_callsOf_iff {r : Req} (hr : r.OfMount w) (key : Name) (v : Int32) :
    (∃ c ∈ callsOf st w r, c.Got key ⟨machine, v⟩) ↔ r.Gets key ∧ w.lock.version + 1 = v := by
  by_cases ho : r.isOpen = true
  · cases r with
    | openFile p flags env =>
      simp only [callsOf_open, List.mem_map, Req.Gets, OpenEnv.granted,
        ← ok_mem_retransmit_iff (s := Retry.init) (by decide : Retry.init.result ≠ .OK)]
      constructor
      · rintro ⟨-, ⟨a, ha, rfl⟩, -, rfl, hk, hid⟩
        exact ⟨⟨hk, ha⟩, congrArg Identity.version hid⟩
      · rintro ⟨⟨hk, ha⟩, rfl⟩
        exact ⟨_, ⟨_, ha, rfl⟩, lockType_ne_release flags, rfl, hk, rfl⟩
    | _ => exact absurd ho (by simp [Req.isOpen])
  · have hgets : ¬ r.Gets key := by
      cases r with
      | openFile => exact absurd rfl ho
      | _ => exact id
    refine iff_of_false ?_ fun h => hgets h.1
    rintro ⟨c, hc, hop, -⟩
    by_cases hrel : r.isRelease = true
    · cases r with
      | release k env =>
        obtain ⟨f, hf⟩ := Option.isSome_iff_exists.1 hr
        rw [callsOf_release hf] at hc
        split at hc
        · exact absurd hc (by simp)
        · obtain ⟨a, -, rfl⟩ := List.mem_map.1 hc
          exact hop rfl
      | _ => exact absurd hrel (by simp [Req.isRelease])
    · rw [callsOf_other (Bool.not_eq_true _ ▸ ho) (Bool.not_eq_true _ ▸ hrel) hr.ne_remount] at hc
      exact absurd hc (by simp)

/-- **A request gives a lock back** if it is a release of a handle of its key at its version, the
flag not being set. -/
theorem givesBack_callsOf_iff {r : Req} (hr : r.OfMount w) (key : Name) (v : Int32) :
    (∃ c ∈ callsOf st w r, c.GivesBack key ⟨machine, v⟩) ↔
      (∃ k env f, r = .release k env ∧ w.files.get k = some f ∧ getKey f.path = key) ∧
        w.lock.skip = false ∧ w.lock.version = v := by
  by_cases hrel : r.isRelease = true
  · cases r with
    | release k env =>
      obtain ⟨f, hf⟩ := Option.isSome_iff_exists.1 hr
      rw [callsOf_release hf]
      constructor
      · rintro ⟨c, hc, -, hk, hid⟩
        split at hc
        case isTrue => exact absurd hc (by simp)
        case isFalse hs =>
          obtain ⟨a, -, rfl⟩ := List.mem_map.1 hc
          exact ⟨⟨k, env, f, rfl, hf, hk⟩, Bool.not_eq_true _ ▸ hs, congrArg Identity.version hid⟩
      · rintro ⟨⟨k', env', f', he, hf', hk⟩, hs, rfl⟩
        obtain ⟨rfl, rfl⟩ := Req.release.inj he
        obtain rfl := Option.some.inj (hf.symm.trans hf')
        obtain ⟨y, hy⟩ := exists_mem_retransmit env.release
        rw [hs, if_neg Bool.false_ne_true]
        exact ⟨_, List.mem_map_of_mem hy, rfl, hk, rfl⟩
    | _ => exact absurd hrel (by simp [Req.isRelease])
  · refine iff_of_false ?_ fun h => ?_
    · rintro ⟨c, hc, hop, -⟩
      by_cases ho : r.isOpen = true
      · cases r with
        | openFile p flags env =>
          rw [callsOf_open] at hc
          obtain ⟨a, -, rfl⟩ := List.mem_map.1 hc
          exact lockType_ne_release flags hop
        | _ => exact absurd ho (by simp [Req.isOpen])
      · rw [callsOf_other (Bool.not_eq_true _ ▸ ho) (Bool.not_eq_true _ ▸ hrel) hr.ne_remount] at hc
        exact absurd hc (by simp)
    · obtain ⟨⟨k, env, f, rfl, -⟩, -⟩ := h
      exact hrel rfl

/-- **A run got a lock of its version** if an open of the key did, a multiple of `2 ^ 32` opens
before the end. -/
theorem got_sent_iff {rs : List Req}
    (hl : Machine.Legal (serve st) (fun w r => r.OfMount w) w rs) (key : Name) :
    (∃ c, Sent st w rs c ∧ c.Got key ⟨machine, (Machine.run (serve st) w rs).1.lock.version⟩) ↔
      GotSince key rs := by
  have hround : ∀ l₁ r l₂, rs = l₁ ++ r :: l₂ → r.Gets key →
      ((Machine.run (serve st) w l₁).1.lock.version + 1
          = (Machine.run (serve st) w rs).1.lock.version ↔ 2 ^ 32 ∣ l₂.countP Req.isOpen) := by
    rintro l₁ r l₂ rfl hr
    cases r with
    | openFile p flags env =>
      rw [version_since hl, eq_comm]
      exact Int32.add_ofNat_eq_self_iff _
    | _ => exact absurd hr id
  constructor
  · rintro ⟨c, ⟨l₁, r, l₂, rfl, hc⟩, hgot⟩
    obtain ⟨hr, hv⟩ := (got_callsOf_iff (Machine.legal_append.1 hl).2.1 key _).1 ⟨c, hc, hgot⟩
    exact ⟨l₁, r, l₂, rfl, hr, (hround l₁ r l₂ rfl hr).1 hv⟩
  · rintro ⟨l₁, r, l₂, rfl, hr, hd⟩
    obtain ⟨c, hc, hgot⟩ := (got_callsOf_iff (Machine.legal_append.1 hl).2.1 key _).2
      ⟨hr, (hround l₁ r l₂ rfl hr).2 hd⟩
    exact ⟨c, ⟨l₁, r, l₂, rfl, hc⟩, hgot⟩

/-- **A run gives the lock of the version back that there was before it** if a handle of the key is
released after a multiple of `2 ^ 32` opens, none of them denied since the last release. -/
theorem givenBack_sent_iff (hs : w.lock.skip = false) {pre rs : List Req}
    (hl : Machine.Legal (serve st) (fun w r => r.OfMount w) w (pre ++ rs)) (key : Name) :
    (∃ c, Sent st (Machine.run (serve st) w pre).1 rs c ∧
        c.GivesBack key ⟨machine, (Machine.run (serve st) w pre).1.lock.version⟩) ↔
      GivenBack st w pre key rs := by
  have hstate : ∀ l₁ r l₂, rs = l₁ ++ r :: l₂ →
      r.OfMount (Machine.run (serve st) (Machine.run (serve st) w pre).1 l₁).1 ∧
      (((Machine.run (serve st) (Machine.run (serve st) w pre).1 l₁).1.lock.skip = false ∧
        (Machine.run (serve st) (Machine.run (serve st) w pre).1 l₁).1.lock.version
          = (Machine.run (serve st) w pre).1.lock.version) ↔
        ¬ DeniedSince (pre ++ l₁) ∧ 2 ^ 32 ∣ l₁.countP Req.isOpen) := by
    rintro l₁ r l₂ rfl
    obtain ⟨hpre, hrs⟩ := Machine.legal_append.1 hl
    obtain ⟨hl₁, hr, -⟩ := Machine.legal_append.1 hrs
    rw [← skip_run_iff hs (Machine.legal_append.2 ⟨hpre, hl₁⟩), Machine.run_append, version_run hl₁,
      Bool.not_eq_true, Int32.add_ofNat_eq_self_iff]
    exact ⟨hr, Iff.rfl⟩
  constructor
  · rintro ⟨c, ⟨l₁, r, l₂, rfl, hc⟩, hback⟩
    obtain ⟨hr, hiff⟩ := hstate l₁ r l₂ rfl
    obtain ⟨⟨k, env, f, rfl, hf, hk⟩, hsv⟩ := (givesBack_callsOf_iff hr key _).1 ⟨c, hc, hback⟩
    rw [← Machine.run_append] at hf
    exact ⟨l₁, k, env, l₂, rfl, ⟨f, hf, hk⟩, hiff.1 hsv⟩
  · rintro ⟨l₁, k, env, l₂, rfl, ⟨f, hf, hk⟩, hsv⟩
    obtain ⟨hr, hiff⟩ := hstate l₁ _ l₂ rfl
    rw [Machine.run_append] at hf
    obtain ⟨c, hc, hback⟩ := (givesBack_callsOf_iff hr key _).2
      ⟨⟨k, env, f, rfl, hf, hk⟩, hiff.2 hsv⟩
    exact ⟨c, ⟨l₁, _, l₂, rfl, hc⟩, hback⟩

/-- What the last release adds. -/
theorem givenBack_concat (st : CloudfsState) (w : World) (pre : List Req) (key : Name)
    (rs : List Req) (k : Handle) (env : ReleaseEnv) :
    GivenBack st w pre key (rs ++ [.release k env]) ↔ GivenBack st w pre key rs ∨
      (∃ f, (Machine.run (serve st) w (pre ++ rs)).1.files.get k = some f ∧ getKey f.path = key) ∧
        ¬ DeniedSince (pre ++ rs) ∧ 2 ^ 32 ∣ rs.countP Req.isOpen := by
  constructor
  · rintro ⟨l₁, k', env', l₂, he, hrest⟩
    rcases append_singleton_eq_iff.1 he with ⟨rfl, rfl, hr⟩ | ⟨l₃, rfl, hrs⟩
    · obtain ⟨rfl, rfl⟩ := Req.release.inj hr
      exact Or.inr hrest
    · exact Or.inl ⟨l₁, k', env', l₃, hrs, hrest⟩
  · rintro (⟨l₁, k', env', l₂, rfl, hrest⟩ | hrest)
    · exact ⟨l₁, k', env', l₂ ++ [.release k env], by simp, hrest⟩
    · exact ⟨rs, k, env, [], rfl, hrest⟩

section

variable (hl : Machine.Legal (serve st) (fun w r => r.OfMount w) w.remount
    (pre ++ .openFile p flags env :: mid))
  (hf : (Machine.run (serve st) w.remount
    (pre ++ .openFile p flags env :: mid)).1.files.get h = some f) (hfp : f.path = p)
  (closing : ReleaseEnv)

include hl hf hfp

theorem sendsRelease_iff :
    SendsRelease (callsOf st (Machine.run (serve st) w.remount
        (pre ++ .openFile p flags env :: mid)).1 (.release h closing)) (getKey p) ↔
      ¬ DeniedSince (pre ++ .openFile p flags env :: mid) := by
  rw [← skip_run_iff (w := w.remount) rfl hl, callsOf_release hf, hfp]
  split
  case isTrue hs => exact iff_of_false (by simp [SendsRelease]) (not_not.2 hs)
  case isFalse hs =>
    obtain ⟨y, hy⟩ := exists_mem_retransmit closing.release
    exact iff_of_true ⟨_, List.mem_map_of_mem hy, rfl, rfl⟩ hs

/-- The lock of the handle was given back before its release, or is by it. -/
theorem ownGivenBack_iff :
    (∀ a ∈ callsOf st (Machine.run (serve st) w.remount pre).1 (.openFile p flags env),
      ∃ c, Sent st (Machine.run (serve st) w.remount (pre ++ [.openFile p flags env])).1
        (mid ++ [.release h closing]) c ∧ c.GivesBack a.args.key a.args.id) ↔
      GivenBack st w.remount (pre ++ [.openFile p flags env]) (getKey p) mid ∨
        ¬ DeniedSince (pre ++ .openFile p flags env :: mid) ∧
          2 ^ 32 ∣ mid.countP Req.isOpen := by
  have hwhole : pre ++ [.openFile p flags env] ++ mid = pre ++ .openFile p flags env :: mid := by
    simp
  have hlive : ∃ g, (Machine.run (serve st) w.remount
      (pre ++ [.openFile p flags env] ++ mid)).1.files.get h = some g ∧
        getKey g.path = getKey p := ⟨f, hwhole ▸ hf, hfp ▸ rfl⟩
  have hlegal : Machine.Legal (serve st) (fun w r => r.OfMount w) w.remount
      (pre ++ [.openFile p flags env] ++ (mid ++ [.release h closing])) := by
    rw [← List.append_assoc, hwhole]
    exact Machine.legal_append.2 ⟨hl, Option.isSome_iff_exists.2 ⟨f, hf⟩, trivial⟩
  have hlast := givenBack_concat st w.remount (pre ++ [.openFile p flags env]) (getKey p) mid h
    closing
  rw [and_iff_right hlive, hwhole] at hlast
  have hversion : (Machine.run (serve st) w.remount
      (pre ++ [.openFile p flags env])).1.lock.version
        = (Machine.run (serve st) w.remount pre).1.lock.version + 1 := by
    rw [Machine.run_append, Machine.run_cons, Machine.run_nil, (serve_open_client ..).1]
    rfl
  rw [← hlast, ← givenBack_sent_iff rfl hlegal, hversion, callsOf_open]
  obtain ⟨y, hy⟩ := exists_mem_retransmit env.acquire
  constructor
  · exact fun hall => hall _ (List.mem_map_of_mem hy)
  · intro hany a ha
    obtain ⟨x, -, rfl⟩ := List.mem_map.1 ha
    exact hany

/-- The lock the release gives back, if it asks the server, was got. -/
theorem ownGot_iff :
    (∀ c ∈ callsOf st (Machine.run (serve st) w.remount
        (pre ++ .openFile p flags env :: mid)).1 (.release h closing),
      ∃ a, Sent st w.remount (pre ++ .openFile p flags env :: mid) a ∧
        a.Got c.args.key c.args.id) ↔
      (¬ DeniedSince (pre ++ .openFile p flags env :: mid) →
        GotSince (getKey p) (pre ++ .openFile p flags env :: mid)) := by
  rw [← skip_run_iff (w := w.remount) rfl hl, ← got_sent_iff hl, callsOf_release hf, hfp]
  split
  case isTrue hs => exact iff_of_true (by simp) fun hn => absurd hs hn
  case isFalse hs =>
    obtain ⟨y, hy⟩ := exists_mem_retransmit closing.release
    constructor
    · exact fun hall _ => hall _ (List.mem_map_of_mem hy)
    · intro hany c hc
      obtain ⟨x, -, rfl⟩ := List.mem_map.1 hc
      exact hany hs

end

/-- **When a release releases what was acquired**: in any run of a mount, whatever acquires are
denied, just if the acquire of the handle was denied exactly when an acquire since the last release
was, and, if it was granted, either the opens in between are a multiple of `2 ^ 32` (none, say), or
another release gave the handle's lock back and the version stands for another lock of its key. -/
theorem releases_acquired_iff (w : World)
    (hl : Machine.Legal (serve st) (fun w r => r.OfMount w) w.remount
      (pre ++ .openFile p flags env :: mid))
    (ho : OpenSince st w.remount pre mid p flags env h) (closing : ReleaseEnv) :
    ReleasesAcquired st w.remount pre mid p flags env h closing ↔
      (env.granted = false ↔ DeniedSince (pre ++ .openFile p flags env :: mid)) ∧
        (env.granted = true → 2 ^ 32 ∣ mid.countP Req.isOpen ∨
          GotSince (getKey p) (pre ++ .openFile p flags env :: mid) ∧
            GivenBack st w.remount (pre ++ [.openFile p flags env]) (getKey p) mid) := by
  obtain ⟨f, hf, hfp⟩ := ho.path hl
  have hsends := sendsRelease_iff hl hf hfp closing
  have hback := ownGivenBack_iff hl hf hfp closing
  have hgot := ownGot_iff hl hf hfp closing
  have hown : env.granted = true → 2 ^ 32 ∣ mid.countP Req.isOpen →
      GotSince (getKey p) (pre ++ .openFile p flags env :: mid) :=
    fun hg hd => ⟨pre, _, mid, rfl, ⟨rfl, hg⟩, hd⟩
  rw [← Bool.not_eq_true]
  constructor
  · rintro ⟨h1, h2, h3⟩
    have hd := hsends.symm.trans h1
    refine ⟨by rw [← hd, not_not], fun hg => ?_⟩
    rcases hback.1 (h2 hg) with hb | ⟨-, hn⟩
    · exact Or.inr ⟨hgot.1 h3 (hd.2 hg), hb⟩
    · exact Or.inl hn
  · rintro ⟨h1, h2⟩
    have hd := not_iff_comm.1 h1
    refine ⟨hsends.trans hd, fun hg => hback.2 ?_, hgot.2 fun hn => ?_⟩
    · rcases h2 hg with hn | ⟨-, hb⟩
      · exact Or.inr ⟨hd.2 hg, hn⟩
      · exact Or.inl hb
    · rcases h2 (hd.1 hn) with hn' | ⟨hc, -⟩
      · exact hown (hd.1 hn) hn'
      · exact hc

/-- Three overlapping handles of one file: the first gives back the second's lock, so the second may
give back the third's. -/
theorem releases_acquired_iff_overlapping :
    let a : Req := .openFile ['/', 'a'] ⟨.rdonly, false⟩ OpenEnv.calm
    ReleasesAcquired (.sample 0) emptyMount.remount [a] [.release 0 ReleaseEnv.calm, a] ['/', 'a']
      ⟨.rdonly, false⟩ OpenEnv.calm 1 ReleaseEnv.calm := by
  intro a
  let w := emptyMount.remount
  have hl : Machine.Legal (serve (.sample 0)) (fun w r => r.OfMount w) w
      ([a] ++ a :: [.release 0 ReleaseEnv.calm, a]) := ⟨trivial, trivial, rfl, trivial, trivial⟩
  have hskip : ∀ {rs : List Req}, Machine.Legal (serve (.sample 0)) (fun w r => r.OfMount w) w rs →
      (Machine.run (serve (.sample 0)) w rs).1.lock.skip = false → ¬ DeniedSince rs := by
    intro rs hrs hs hd
    rw [← skip_run_iff rfl hrs, hs] at hd
    exact Bool.false_ne_true hd
  refine (releases_acquired_iff emptyMount hl ⟨by decide, by decide⟩ ReleaseEnv.calm).2 ⟨?_, ?_⟩
  · exact iff_of_false (by decide) (hskip hl (by decide))
  · refine fun _ => Or.inr ⟨⟨[a, a, .release 0 ReleaseEnv.calm], a, [], rfl, ⟨rfl, by decide⟩,
      dvd_zero _⟩, ⟨[], 0, ReleaseEnv.calm, [a], rfl, ?_, ?_, dvd_zero _⟩⟩
    · have hkey : ((Machine.run (serve (.sample 0)) w [a, a]).1.files.get 0).map
          (fun f => getKey f.path) = some (getKey ['/', 'a']) := by decide
      exact Option.map_eq_some_iff.1 hkey
    · exact hskip ⟨trivial, trivial, trivial⟩ (by decide)

/-- An open whose lock is denied every time. -/
def OpenEnv.refused : OpenEnv := { OpenEnv.calm with acquire := fun _ => .answered .UNALLOC }

/-- **A denied open takes another handle's release away, and its own release then gives back a lock
it never got.** -/
theorem denied_open_takes_release :
    let w := emptyMount.remount
    let a : Req := .openFile ['/', 'a'] ⟨.rdonly, false⟩ OpenEnv.refused
    let b : Req := .openFile ['/', 'b'] ⟨.rdonly, false⟩ OpenEnv.calm
    let v := (Machine.run (serve (.sample 0)) w [a, b]).1
    let v' := (Machine.run (serve (.sample 0)) w [a, b, .release 1 ReleaseEnv.calm]).1
    (Machine.run (serve (.sample 0)) w [a, b]).2 = [.handle 0, .handle 1] ∧
      OpenEnv.calm.granted = true ∧
      ¬ SendsRelease (callsOf (.sample 0) v (.release 1 ReleaseEnv.calm)) (getKey ['/', 'b']) ∧
      OpenEnv.refused.granted = false ∧
      SendsRelease (callsOf (.sample 0) v' (.release 0 ReleaseEnv.calm)) (getKey ['/', 'a']) := by
  decide

end CloudFS
