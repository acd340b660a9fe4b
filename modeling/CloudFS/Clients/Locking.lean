import CloudFS.Client.World
import CloudFS.Machinery.Machine

/-!
# Clients/Locking — the locks of many clients

Clients open and release files at one lock server, one RPC at a time, and any RPC may be denied or
lost on the way there or back.  `Party.step` is one client between two RPCs; its loops make the
calls of `acquireLockWrapper` and `releaseLockWrapper` (`open_lock`,
`release_lock`).

A denied open goes ahead without its lock, so handles can conflict (`denied_opens_conflict`).  So
they can where two clients go by one identity (`shared_identity_conflicts`), or one client comes
round to a version it holds a lock under, `2 ^ 32` opens later (`version_comes_round`).  Where every
open that returned a handle got its lock, and no identity is used twice, they never do
(`locks_exclude`): each open handle can be matched with a lock of its client (`Party.Guarded`),
though a release gives back whichever lock the last open asked for.
-/

namespace CloudFS

open Posix

/-! ## Clients -/

/-- What a client is doing: nothing, the loop of `acquire_lock_wrapper`, the rest of
`cloudfs_open`, or the loop of `release_lock_wrapper`. -/
inductive Task
  | idle
  | acquiring (path : Name) (flags : OpenFlags) (retry : Retry)
  | opening (path : Name) (flags : OpenFlags) (granted : Bool)
  | releasing (path : Name) (retry : Retry)
  deriving DecidableEq

/-- What an open that returned asked for. -/
structure Opened where
  path : Name
  flags : OpenFlags
  deriving DecidableEq

/-- A client of the lock server. -/
structure Party where
  lock : LockClient
  task : Task
  files : Table Opened

/-- A client that was just started. -/
def Party.init : Party := ⟨LockClient.init, .idle, Table.empty⟩

/-- What becomes of an RPC: its request is lost, or the server answers it and the answer arrives
or not. -/
inductive Rpc
  | lost
  | answered (s : Status) (arrives : Bool)
  deriving DecidableEq

/-- What the client sees of an RPC. -/
def Rpc.seen : Rpc → RpcAnswer
  | .answered s true => .answered s
  | _ => .failed

/-- The server answers the RPC `OK`, whether or not the answer arrives. -/
def Rpc.Ok : Rpc → Prop
  | .answered s _ => s = .OK
  | .lost => False

instance : DecidablePred Rpc.Ok := fun r => by
  unfold Rpc.Ok
  split <;> infer_instance

/-- A step of a client. -/
inductive Move
  | beginOpen (path : Name) (flags : OpenFlags)
  | acquire (rpc : Rpc)
  | giveUp
  | endOpen (ok : Bool)
  | beginRelease (h : Handle)
  | release (rpc : Rpc)
  deriving DecidableEq

/-- The RPC a client makes when it moves. -/
def Party.call (c : Party) : Move → Option (LockParams × Rpc)
  | .acquire rpc =>
    match c.task with
    | .acquiring path flags _ => some (c.lock.params path (lockType flags), rpc)
    | _ => none
  | .release rpc =>
    match c.task with
    | .releasing path _ => some (c.lock.params path .RELEASE, rpc)
    | _ => none
  | _ => none

/-- What a client does next.  A loop ends with the first `OK`, or gives up; an open that gave up
goes ahead and leaves `skip` set, and the next release, whatever it is of, asks the server
nothing. -/
def Party.step (c : Party) : Move → Party
  | .beginOpen path flags =>
    { c with
      lock := { c.lock with version := c.lock.version + 1 }
      task := .acquiring path flags Retry.init }
  | .acquire rpc =>
    match c.task with
    | .acquiring path flags retry =>
      let r := retry.turn rpc.seen
      { c with
        lock := c.lock.called (c.lock.params path (lockType flags)) rpc.seen
        task := if r.result = .OK then .opening path flags true else .acquiring path flags r }
    | _ => c
  | .giveUp =>
    match c.task with
    | .acquiring path flags _ =>
      { c with lock := { c.lock with skip := true }, task := .opening path flags false }
    | .releasing _ _ => { c with task := .idle }
    | _ => c
  | .endOpen ok =>
    match c.task with
    | .opening path flags _ =>
      { c with task := .idle, files := if ok then c.files.alloc ⟨path, flags⟩ else c.files }
    | _ => c
  | .beginRelease h =>
    match c.files.get h with
    | some f =>
      if c.lock.skip then
        { c with lock := { c.lock with skip := false }, files := c.files.erase h }
      else { c with task := .releasing f.path Retry.init, files := c.files.erase h }
    | none => c
  | .release rpc =>
    match c.task with
    | .releasing path retry =>
      let r := retry.turn rpc.seen
      { c with
        lock := c.lock.called (c.lock.params path .RELEASE) rpc.seen
        task := if r.result = .OK then .idle else .releasing path r }
    | _ => c

/-- The moves a client can make. -/
def Party.Enabled (c : Party) : Move → Prop
  | .beginOpen _ _ => c.task = .idle
  | .acquire _ =>
    match c.task with
    | .acquiring _ _ retry => retry.times < MAXBLOCK
    | _ => False
  | .giveUp =>
    match c.task with
    | .acquiring _ _ retry => ¬ retry.times < MAXBLOCK
    | .releasing _ retry => ¬ retry.times < MAXBLOCK
    | _ => False
  | .endOpen _ =>
    match c.task with
    | .opening .. => True
    | _ => False
  | .beginRelease h => c.task = .idle ∧ (c.files.get h).isSome
  | .release _ =>
    match c.task with
    | .releasing _ retry => retry.times < MAXBLOCK
    | _ => False

instance (c : Party) (a : Move) : Decidable (c.Enabled a) := by
  unfold Party.Enabled
  split
  all_goals first | infer_instance | (split <;> infer_instance)

/-- One client as a machine. -/
def Party.move (c : Party) (a : Move) : Party × Unit := (c.step a, ())

/-! ## The loops -/

/-- An RPC the client gets this answer to. -/
def Rpc.of : RpcAnswer → Rpc
  | .failed => .lost
  | .answered s => .answered s true

@[simp] theorem Rpc.seen_of (a : RpcAnswer) : (Rpc.of a).seen = a := by
  cases a <;> rfl

/-- The moves of a loop that gets these answers: its RPCs, and giving up if none is `OK`. -/
def loopMoves (rpc : Rpc → Move) (r : List RpcAnswer × Bool) : List Move :=
  r.1.map (fun a => rpc (.of a)) ++ if r.2 then [] else [.giveUp]

/-- What both loops share: a task that tries again until an answer is `OK`, for want of which it
gives up and makes `s` of the skip flag. -/
structure RetryLoop (rpc : Rpc → Move) (trying : Retry → Task) (path : Name) (op : LockType)
    (ended gaveUp : Task) (s : Bool → Bool) : Prop where
  enabled : ∀ c retry, Party.task c = trying retry → retry.times < MAXBLOCK →
    ∀ a, c.Enabled (rpc a)
  step : ∀ c retry, Party.task c = trying retry → ∀ a, c.step (rpc a) =
    { c with
      lock := c.lock.called (c.lock.params path op) a.seen
      task := if (retry.turn a.seen).result = .OK then ended else trying (retry.turn a.seen) }
  giveUp_enabled : ∀ c retry, Party.task c = trying retry → ¬ retry.times < MAXBLOCK →
    c.Enabled .giveUp
  giveUp : ∀ c retry, Party.task c = trying retry → c.step .giveUp =
    { c with lock := { c.lock with skip := s c.lock.skip }, task := gaveUp }

variable {c : Party} {path : Name} {flags : OpenFlags} {retry : Retry}

/-- **A loop makes the calls of `retransmit`.** -/
theorem RetryLoop.run {rpc : Rpc → Move} {trying : Retry → Task} {op : LockType}
    {ended gaveUp : Task} {s : Bool → Bool} (hr : RetryLoop rpc trying path op ended gaveUp s)
    (answer : ℕ → RpcAnswer) (left : ℕ) (hc : c.task = trying retry)
    (hl : retry.times + left = MAXBLOCK) :
    let r := retransmit answer left retry
    Machine.Legal Party.move Party.Enabled c (loopMoves rpc r) ∧
      (Machine.run Party.move c (loopMoves rpc r)).1 =
        { c with
          lock := { c.lock with
            skip := if r.2 then c.lock.skip else s c.lock.skip
            calls := c.lock.calls ++ r.1.map fun a => ⟨c.lock.params path op, a⟩ }
          task := if r.2 then ended else gaveUp } := by
  induction left generalizing c retry with
  | zero =>
    refine ⟨⟨hr.giveUp_enabled c retry hc (by omega), trivial⟩, ?_⟩
    simp [loopMoves, retransmit, Machine.run, Party.move, hr.giveUp c retry hc]
  | succ left ih =>
    have hen := hr.enabled c retry hc (by omega) (.of (answer retry.times))
    have hstep := hr.step c retry hc (.of (answer retry.times))
    rw [Rpc.seen_of] at hstep
    rw [retransmit]
    by_cases hok : (retry.turn (answer retry.times)).result = .OK
    · rw [if_pos hok] at hstep ⊢
      refine ⟨⟨hen, trivial⟩, ?_⟩
      simp [loopMoves, Machine.run, Party.move, hstep, LockClient.called]
    · rw [if_neg hok] at hstep ⊢
      have hturn : retry.times + 1 + left = MAXBLOCK := by omega
      have htask : (c.step (rpc (.of (answer retry.times)))).task
          = trying (retry.turn (answer retry.times)) := by rw [hstep]
      obtain ⟨h1, h2⟩ := ih htask hturn
      refine ⟨⟨hen, h1⟩, h2.trans ?_⟩
      simp [hstep, LockClient.called, LockClient.params]

/-- The loop of `acquire_lock_wrapper`. -/
theorem acquireLoop (path : Name) (flags : OpenFlags) :
    RetryLoop .acquire (.acquiring path flags) path (lockType flags) (.opening path flags true)
      (.opening path flags false) fun _ => true where
  enabled c retry hc hl a := by simpa only [Party.Enabled, hc] using hl
  step c retry hc a := by simp only [Party.step, hc]
  giveUp_enabled c retry hc hl := by simpa only [Party.Enabled, hc] using hl
  giveUp c retry hc := by simp only [Party.step, hc]

/-- The loop of `release_lock_wrapper`. -/
theorem releaseLoop (path : Name) :
    RetryLoop .release (.releasing path) path .RELEASE .idle .idle id where
  enabled c retry hc hl a := by simpa only [Party.Enabled, hc] using hl
  step c retry hc a := by simp only [Party.step, hc]
  giveUp_enabled c retry hc hl := by simpa only [Party.Enabled, hc] using hl
  giveUp c retry hc := by simp only [Party.step, hc, id]

/-- **An open takes its lock as `acquire_lock_wrapper` does.** -/
theorem open_lock (answer : ℕ → RpcAnswer) (hc : c.task = .idle) (path : Name)
    (flags : OpenFlags) :
    let moves := .beginOpen path flags :: loopMoves .acquire (retransmit answer MAXBLOCK Retry.init)
    Machine.Legal Party.move Party.Enabled c moves ∧
      (Machine.run Party.move c moves).1.lock = acquireLockWrapper answer path flags
        { c.lock with version := c.lock.version + 1 } := by
  have htask : (c.step (.beginOpen path flags)).task = .acquiring path flags Retry.init := rfl
  obtain ⟨h1, h2⟩ := (acquireLoop path flags).run answer MAXBLOCK htask rfl
  exact ⟨⟨hc, h1⟩, congrArg Party.lock h2⟩

/-- **A release gives its lock back as `release_lock_wrapper` does.** -/
theorem release_lock (answer : ℕ → RpcAnswer) (hc : c.task = .idle) {h : Handle} {f : Opened}
    (hf : c.files.get h = some f) :
    let moves := .beginRelease h :: if c.lock.skip then []
      else loopMoves .release (retransmit answer MAXBLOCK Retry.init)
    Machine.Legal Party.move Party.Enabled c moves ∧
      (Machine.run Party.move c moves).1.lock = releaseLockWrapper answer f.path c.lock := by
  have hen : c.Enabled (.beginRelease h) := ⟨hc, by rw [hf]; rfl⟩
  cases hs : c.lock.skip with
  | true =>
    refine ⟨⟨hen, trivial⟩, ?_⟩
    simp [Machine.run, Party.move, Party.step, hf, hs, releaseLockWrapper]
  | false =>
    have hstep : c.step (.beginRelease h)
        = { c with task := .releasing f.path Retry.init, files := c.files.erase h } := by
      simp [Party.step, hf, hs]
    have htask : (c.step (.beginRelease h)).task = .releasing f.path Retry.init := by rw [hstep]
    obtain ⟨h1, h2⟩ := (releaseLoop f.path).run answer MAXBLOCK htask rfl
    refine ⟨⟨hen, h1⟩, (congrArg Party.lock h2).trans ?_⟩
    simp [hstep, releaseLockWrapper, hs, LockClient.params]

/-! ## Clients and the server -/

/-- A lock the server has granted, and the client it was granted to, which the server does not
know. -/
structure Grant (ι : Type) where
  args : LockParams
  owner : ι
  deriving DecidableEq

/-- The clients `ι` and the locks their server has granted. -/
structure LockNet (ι : Type) where
  party : ι → Party
  held : List (Grant ι)

variable {ι : Type}

/-- Clients that were just started, and a server that has granted nothing. -/
def LockNet.init : LockNet ι := ⟨fun _ => Party.init, []⟩

/-- The server may answer `OK`: no other identity holds the key, for a read lock none holds it for
writing. -/
def Grantable (held : List (Grant ι)) (args : LockParams) : Prop :=
  match args.operation with
  | .WRITE => ∀ g ∈ held, g.args.key = args.key → g.args.id = args.id
  | .READ => ∀ g ∈ held, g.args.key = args.key → g.args.operation = .WRITE →
      g.args.id = args.id
  | _ => True

instance (held : List (Grant ι)) (args : LockParams) : Decidable (Grantable held args) := by
  unfold Grantable
  split <;> infer_instance

/-- What the server does for a call of client `i` that it answers `OK`. -/
def serveLock (held : List (Grant ι)) (i : ι) (args : LockParams) : List (Grant ι) :=
  if args.operation = .RELEASE then
    held.filter fun g => ¬ (g.args.key = args.key ∧ g.args.id = args.id)
  else ⟨args, i⟩ :: held

/-- The locks after client `i` moved. -/
def LockNet.heldAfter (n : LockNet ι) (i : ι) (a : Move) : List (Grant ι) :=
  match (n.party i).call a with
  | some (args, rpc) => if rpc.Ok then serveLock n.held i args else n.held
  | none => n.held

/-- One move of one client. -/
def LockNet.step [DecidableEq ι] (n : LockNet ι) (x : ι × Move) : LockNet ι × Unit :=
  (⟨Function.update n.party x.1 ((n.party x.1).step x.2), n.heldAfter x.1 x.2⟩, ())

/-- A move the client can make, for which the server keeps its promise. -/
structure LockNet.Lawful (n : LockNet ι) (x : ι × Move) : Prop where
  enabled : (n.party x.1).Enabled x.2
  grantable : ∀ y ∈ (n.party x.1).call x.2, y.2.Ok → Grantable n.held y.1

/-- The client goes ahead with an open it got no lock for. -/
def Party.Unlocked (c : Party) : Prop :=
  match c.task with
  | .opening _ _ granted => granted = false
  | _ => False

/-- An open that begins comes to no version under which its client still holds a lock on the
path. -/
def LockNet.Fresh (n : LockNet ι) (x : ι × Move) : Prop :=
  match x.2 with
  | .beginOpen path _ => ∀ g ∈ n.held, g.owner = x.1 → g.args.key = getKey path →
      g.args.id.version ≠ (n.party x.1).lock.version + 1
  | _ => True

/-- A lawful move by which no open returns a handle without its lock, and no RPC carries an
identity under which another client holds its key. -/
structure LockNet.Locked (n : LockNet ι) (x : ι × Move) : Prop extends n.Lawful x where
  locked : x.2 = .endOpen true → ¬ (n.party x.1).Unlocked
  own : ∀ y ∈ (n.party x.1).call x.2, ∀ g ∈ n.held, g.args.key = y.1.key →
    g.args.id = y.1.id → g.owner = x.1

/-- Such a move that comes round to no version its client still uses. -/
structure LockNet.Allowed (n : LockNet ι) (x : ι × Move) : Prop extends n.Locked x where
  fresh : n.Fresh x

instance (c : Party) : Decidable c.Unlocked := by
  unfold Party.Unlocked
  split <;> infer_instance

instance (n : LockNet ι) (x : ι × Move) : Decidable (n.Lawful x) :=
  decidable_of_iff ((n.party x.1).Enabled x.2 ∧
    ∀ y ∈ (n.party x.1).call x.2, y.2.Ok → Grantable n.held y.1)
    ⟨fun h => ⟨h.1, h.2⟩, fun h => ⟨h.enabled, h.grantable⟩⟩

instance [DecidableEq ι] (n : LockNet ι) (x : ι × Move) : Decidable (n.Fresh x) := by
  unfold LockNet.Fresh
  split <;> infer_instance

instance [DecidableEq ι] (n : LockNet ι) (x : ι × Move) : Decidable (n.Allowed x) :=
  decidable_of_iff (n.Lawful x ∧ (x.2 = .endOpen true → ¬ (n.party x.1).Unlocked) ∧
    (∀ y ∈ (n.party x.1).call x.2, ∀ g ∈ n.held, g.args.key = y.1.key →
      g.args.id = y.1.id → g.owner = x.1) ∧ n.Fresh x)
    ⟨fun h => ⟨⟨h.1, h.2.1, h.2.2.1⟩, h.2.2.2⟩, fun h => ⟨h.toLawful, h.locked, h.own, h.fresh⟩⟩

/-- **Two open handles on one path, one of which writes.** -/
def LockNet.Conflict (n : LockNet ι) : Prop :=
  ∃ i h f j k g, (i, h) ≠ (j, k) ∧ (n.party i).files.get h = some f ∧
    (n.party j).files.get k = some g ∧ f.path = g.path ∧ f.flags.writable = true

/-! ## What the locks protect -/

/-- Client `i` holds the lock of version `v` on the path, for writing if the flags ask for it. -/
def Backed (held : List (Grant ι)) (i : ι) (path : Name) (flags : OpenFlags) (v : Int32) : Prop :=
  ∃ g ∈ held, g.owner = i ∧ g.args.key = getKey path ∧ g.args.id = ⟨machine, v⟩ ∧
    (flags.writable = true → g.args.operation = .WRITE)

/-- **Each open handle of client `i` has a lock of its own**, of version `m h`. -/
structure Matched (held : List (Grant ι)) (i : ι) (files : Table Opened) (m : Handle → Int32) :
    Prop where
  backed : ∀ h f, files.get h = some f → Backed held i f.path f.flags (m h)
  distinct : ∀ h f k g, files.get h = some f → files.get k = some g →
    getKey f.path = getKey g.path → m h = m k → h = k

/-- No open handle of the path has a lock of version `v`. -/
def Spares (files : Table Opened) (m : Handle → Int32) (path : Name) (v : Int32) : Prop :=
  ∀ h f, files.get h = some f → getKey f.path = getKey path → m h ≠ v

/-- **The invariant of a client.**  A loop has seen no `OK` yet, and its calls carry the version of
no open handle whose lock they could change. -/
structure Party.Guarded (held : List (Grant ι)) (i : ι) (c : Party) (m : Handle → Int32) : Prop
    extends Matched held i c.files m where
  task : match c.task with
    | .idle => True
    | .acquiring path _ retry => retry.result ≠ .OK ∧ Spares c.files m path c.lock.version
    | .opening path flags granted => Spares c.files m path c.lock.version ∧
        (granted = true → Backed held i path flags c.lock.version)
    | .releasing path _ => Spares c.files m path c.lock.version

/-- A write lock on a key is under the one identity that holds the key. -/
def Exclusive (held : List (Grant ι)) : Prop :=
  ∀ a ∈ held, ∀ b ∈ held, a.args.key = b.args.key → a.args.operation = .WRITE →
    a.args.id = b.args.id

/-- The locks on a key under one identity were granted to one client. -/
def SoleOwner (held : List (Grant ι)) : Prop :=
  ∀ a ∈ held, ∀ b ∈ held, a.args.key = b.args.key → a.args.id = b.args.id → a.owner = b.owner

/-- **The invariant of the lock server and its clients.** -/
structure LockNet.Guarded (n : LockNet ι) : Prop where
  exclusive : Exclusive n.held
  owned : SoleOwner n.held
  party : ∀ i, ∃ m, (n.party i).Guarded n.held i m

/-- The locks of client `i` in `held` are in `held'`. -/
def KeepsOwn (i : ι) (held held' : List (Grant ι)) : Prop :=
  ∀ g ∈ held, g.owner = i → g ∈ held'

variable {held held' : List (Grant ι)} {i : ι} {v : Int32} {m : Handle → Int32} {n : LockNet ι}
  {h : Handle} {f : Opened} {args : LockParams}

theorem Backed.mono (hb : Backed held i path flags v) (hk : KeepsOwn i held held') :
    Backed held' i path flags v := by
  obtain ⟨g, hg, ho, hrest⟩ := hb
  exact ⟨g, hk g hg ho, ho, hrest⟩

/-! ### Matchings -/

namespace Matched

variable {files : Table Opened}

theorem empty : Matched held i Table.empty m :=
  ⟨fun _ _ hf => absurd hf (by simp), fun _ _ _ _ hf => absurd hf (by simp)⟩

theorem mono (hm : Matched held i files m) (hk : KeepsOwn i held held') :
    Matched held' i files m :=
  ⟨fun h f hf => (hm.backed h f hf).mono hk, hm.distinct⟩

theorem erase (hm : Matched held i files m) (h : Handle) : Matched held i (files.erase h) m where
  backed k g hk := hm.backed k g (Table.get_erase_eq_some hk).2
  distinct k g l e hk hl :=
    hm.distinct k g l e (Table.get_erase_eq_some hk).2 (Table.get_erase_eq_some hl).2

/-- A new handle is matched with a lock of a version no other handle of its key has. -/
theorem alloc (hm : Matched held i files m) (hb : Backed held i path flags v)
    (hfresh : Spares files m path v) :
    Matched held i (files.alloc ⟨path, flags⟩) (Function.update m files.next v) := by
  have hnew : Function.update m files.next v files.next = v := Function.update_self ..
  have hold : ∀ k f, files.get k = some f → Function.update m files.next v k = m k :=
    fun k f hk => Function.update_of_ne (Table.lt_next_of_get hk).ne ..
  refine ⟨fun k f hk => ?_, fun k f l g hk hl hkey he => ?_⟩
  · rcases Table.get_alloc_eq_some hk with ⟨rfl, rfl⟩ | hk'
    · rw [hnew]
      exact hb
    · rw [hold k f hk']
      exact hm.backed k f hk'
  · rcases Table.get_alloc_eq_some hk with ⟨rfl, rfl⟩ | hk' <;>
      rcases Table.get_alloc_eq_some hl with ⟨rfl, rfl⟩ | hl'
    · rfl
    · rw [hnew, hold l g hl'] at he
      exact absurd he.symm (hfresh l g hl' hkey.symm)
    · rw [hnew, hold k f hk'] at he
      exact absurd he (hfresh k f hk' hkey)
    · rw [hold k f hk', hold l g hl'] at he
      exact hm.distinct k f l g hk' hl' hkey he

/-- A handle that is released leaves its lock to another handle of its key. -/
theorem passed {k : Handle} {g : Opened} (hm : Matched held i files m) (hx : Exclusive held)
    (hf : files.get h = some f) (hk : (files.erase h).get k = some g)
    (hkey : getKey g.path = getKey f.path) :
    Matched held i (files.erase h) (Function.update m k (m h)) := by
  have he := hm.erase h
  obtain ⟨hne, hk'⟩ := Table.get_erase_eq_some hk
  have hself : Function.update m k (m h) k = m h := Function.update_self ..
  have hother : ∀ l, l ≠ k → Function.update m k (m h) l = m l := fun l hl =>
    Function.update_of_ne hl ..
  have hpassed : ∀ l e, (files.erase h).get l = some e → getKey e.path = getKey f.path →
      m l ≠ m h := by
    intro l e hl hlkey heq
    obtain ⟨hlh, hl'⟩ := Table.get_erase_eq_some hl
    exact hlh (hm.distinct l e h f hl' hf hlkey heq)
  refine ⟨fun l e hl => ?_, fun l e j d hl hj hej heq => ?_⟩
  · by_cases hlk : l = k
    · -- a write lock is alone on its key, so the handle that changes its lock only reads
      subst hlk
      obtain rfl := Option.some.inj (hk.symm.trans hl)
      obtain ⟨a, ha, hai, hak, hav, -⟩ := hm.backed h f hf
      obtain ⟨b, hb, hbi, hbk, hbv, hbw⟩ := hm.backed l g hk'
      rw [hself]
      refine ⟨a, ha, hai, hak.trans hkey.symm, hav, fun hw => ?_⟩
      have hid := hx b hb a ha (by rw [hbk, hak, hkey]) (hbw hw)
      rw [hbv, hav] at hid
      exact absurd (congrArg Identity.version hid) (hpassed l g hk hkey)
    · rw [hother l hlk]
      exact he.backed l e hl
  · by_cases hlk : l = k <;> by_cases hjk : j = k
    · rw [hlk, hjk]
    · subst hlk
      obtain rfl := Option.some.inj (hk.symm.trans hl)
      rw [hself, hother j hjk] at heq
      exact absurd heq.symm (hpassed j d hj (hej.symm.trans hkey))
    · subst hjk
      obtain rfl := Option.some.inj (hk.symm.trans hj)
      rw [hself, hother l hlk] at heq
      exact absurd heq (hpassed l e hl (hej.trans hkey))
    · rw [hother l hlk, hother j hjk] at heq
      exact he.distinct l e j d hl hj hej heq

/-- **A handle that is released hands its lock to the handle of version `v`**, so that the release
may give back the lock of that version. -/
theorem passOn (hm : Matched held i files m) (hx : Exclusive held) (hf : files.get h = some f)
    (v : Int32) : ∃ l, Matched held i (files.erase h) l ∧ Spares (files.erase h) l f.path v := by
  have he := hm.erase h
  by_cases hex : ∃ k g, (files.erase h).get k = some g ∧ getKey g.path = getKey f.path ∧ m k = v
  case neg => exact ⟨m, he, fun k g hk hkey hv => hex ⟨k, g, hk, hkey, hv⟩⟩
  obtain ⟨k, g, hk, hkey, hkv⟩ := hex
  refine ⟨_, hm.passed hx hf hk hkey, fun l e hl hlkey => ?_⟩
  by_cases hlk : l = k
  · rw [hlk, Function.update_self]
    obtain ⟨hne, hk'⟩ := Table.get_erase_eq_some hk
    exact fun hv => hne (hm.distinct k g h f hk' hf hkey (hkv.trans hv.symm))
  · rw [Function.update_of_ne hlk]
    exact fun hv => hlk (he.distinct l e k g hl hk (hlkey.trans hkey.symm) (hv.trans hkv.symm))

end Matched

/-- A client is guarded by locks that stay. -/
theorem Party.Guarded.mono (hc : c.Guarded held i m) (hk : KeepsOwn i held held') :
    c.Guarded held' i m where
  toMatched := hc.toMatched.mono hk
  task := by
    have ht := hc.task
    revert ht
    split
    case h_3 => exact fun ht => ⟨ht.1, fun hg => (ht.2 hg).mono hk⟩
    all_goals exact id

/-- **Open handles of guarded clients never conflict.** -/
theorem LockNet.Guarded.not_conflict (hn : n.Guarded) : ¬ n.Conflict := by
  rintro ⟨i, h, f, j, k, g, hne, hf, hg, hp, hw⟩
  choose m hm using hn.party
  obtain ⟨a, ha, hai, hak, hav, haw⟩ := (hm i).backed h f hf
  obtain ⟨b, hb, hbj, hbk, hbv, -⟩ := (hm j).backed k g hg
  have hkey : a.args.key = b.args.key := by rw [hak, hbk, hp]
  have hid := hn.exclusive a ha b hb hkey (haw hw)
  obtain rfl : i = j := by rw [← hai, ← hbj, hn.owned a ha b hb hkey hid]
  rw [hav, hbv] at hid
  have hhk := (hm i).distinct h f k g hf hg (hp ▸ rfl) (congrArg Identity.version hid)
  exact hne (hhk ▸ rfl)

/-! ## Moves of one client -/

/-- A write open asks for a write lock. -/
theorem lockType_of_writable (hw : flags.writable = true) : lockType flags = .WRITE := by
  revert hw
  cases hf : flags.acc <;> simp [OpenFlags.writable, lockType, hf]

/-- An open that begins comes to a version no handle of its key has a lock of. -/
theorem Party.Guarded.beginOpen (hc : c.Guarded held i m) (path : Name) (flags : OpenFlags)
    (hfresh : ∀ g ∈ held, g.owner = i → g.args.key = getKey path →
      g.args.id.version ≠ c.lock.version + 1) :
    (c.step (.beginOpen path flags)).Guarded held i m where
  backed := hc.backed
  distinct := hc.distinct
  task := by
    refine ⟨by decide, fun h f hf hkey hv => ?_⟩
    obtain ⟨g, hg, hgi, hgk, hgv, -⟩ := hc.backed h f hf
    exact hfresh g hg hgi (hgk.trans hkey) (by rw [hgv, hv]; rfl)

/-- Where the server answers `OK` the lock is there, and the client sees `OK` nowhere else. -/
theorem Party.Guarded.acquire (hc : c.Guarded held i m)
    (ht : c.task = .acquiring path flags retry) {rpc : Rpc} (hk : KeepsOwn i held held')
    (hok : rpc.Ok → ⟨c.lock.params path (lockType flags), i⟩ ∈ held') :
    (c.step (.acquire rpc)).Guarded held' i m := by
  have htask := hc.task
  rw [ht] at htask
  obtain ⟨hres, hfresh⟩ := htask
  rw [(acquireLoop path flags).step c retry ht rpc]
  refine ⟨hc.toMatched.mono hk, ?_⟩
  dsimp only
  by_cases hr : (retry.turn rpc.seen).result = .OK
  · rw [if_pos hr]
    have hans : rpc.Ok := by
      cases rpc with
      | lost => exact absurd hr hres
      | answered a arrives =>
        cases arrives with
        | false => exact absurd hr hres
        | true => exact hr
    exact ⟨hfresh, fun _ => ⟨_, hok hans, rfl, rfl, rfl, fun hw => lockType_of_writable hw⟩⟩
  · rw [if_neg hr]
    exact ⟨hr, hfresh⟩

/-- A client that gives up an open goes ahead without a lock. -/
theorem Party.Guarded.giveUp (hc : c.Guarded held i m) : (c.step .giveUp).Guarded held i m := by
  have htask := hc.task
  cases ht : c.task with
  | idle | opening =>
    have hs : c.step .giveUp = c := by simp only [Party.step, ht]
    rwa [hs]
  | acquiring path flags retry =>
    rw [ht] at htask
    rw [(acquireLoop path flags).giveUp c retry ht]
    exact ⟨hc.toMatched, htask.2, fun hf => absurd hf (by decide)⟩
  | releasing path retry =>
    rw [(releaseLoop path).giveUp c retry ht]
    exact ⟨hc.toMatched, trivial⟩

/-- An open that returns a handle hands it the lock it took. -/
theorem Party.Guarded.endOpen (hc : c.Guarded held i m) {ok : Bool}
    (hl : ok = true → ¬ c.Unlocked) : ∃ l, (c.step (.endOpen ok)).Guarded held i l := by
  have htask := hc.task
  cases ht : c.task with
  | idle | acquiring | releasing =>
    have hs : c.step (.endOpen ok) = c := by simp only [Party.step, ht]
    exact ⟨m, by rwa [hs]⟩
  | opening path flags granted =>
    have hs : c.step (.endOpen ok) = { c with
        task := .idle
        files := if ok then c.files.alloc ⟨path, flags⟩ else c.files } := by
      simp only [Party.step, ht]
    rw [ht] at htask
    rw [hs]
    cases ok with
    | false => exact ⟨m, hc.toMatched, trivial⟩
    | true =>
      have hg : granted = true := by simpa [Party.Unlocked, ht] using hl rfl
      exact ⟨_, hc.toMatched.alloc (htask.2 hg) htask.1, trivial⟩

/-- A client that begins a release may give back the lock of its last open. -/
theorem Party.Guarded.beginRelease (hc : c.Guarded held i m) (ht : c.task = .idle)
    (hx : Exclusive held) (hf : c.files.get h = some f) :
    ∃ l, (c.step (.beginRelease h)).Guarded held i l := by
  cases hs : c.lock.skip with
  | true =>
    have hstep : c.step (.beginRelease h) = { c with
        lock := { c.lock with skip := false }, files := c.files.erase h } := by
      simp [Party.step, hf, hs]
    rw [hstep]
    refine ⟨m, hc.toMatched.erase h, ?_⟩
    rw [ht]
    trivial
  | false =>
    have hstep : c.step (.beginRelease h) = { c with
        task := .releasing f.path Retry.init, files := c.files.erase h } := by
      simp [Party.step, hf, hs]
    rw [hstep]
    obtain ⟨l, hl, hfree⟩ := hc.toMatched.passOn hx hf c.lock.version
    exact ⟨l, hl, hfree⟩

/-- A release takes no lock away from the handles that are still open. -/
theorem Party.Guarded.release (hc : c.Guarded held i m) (ht : c.task = .releasing path retry)
    {rpc : Rpc} (hk : ∀ g ∈ held, ¬ (g.args.key = getKey path ∧
      g.args.id = ⟨machine, c.lock.version⟩) → g ∈ held') :
    (c.step (.release rpc)).Guarded held' i m := by
  have hfree := hc.task
  rw [ht] at hfree
  rw [(releaseLoop path).step c retry ht rpc]
  refine ⟨⟨fun h f hf => ?_, hc.distinct⟩, ?_⟩
  · obtain ⟨g, hg, hgi, hgk, hgv, hgw⟩ := hc.backed h f hf
    refine ⟨g, hk g hg ?_, hgi, hgk, hgv, hgw⟩
    rintro ⟨hkey, hid⟩
    rw [hgv] at hid
    exact hfree h f hf (hgk.symm.trans hkey) (congrArg Identity.version hid)
  · dsimp only
    by_cases hr : (retry.turn rpc.seen).result = .OK
    · rw [if_pos hr]
      trivial
    · rw [if_neg hr]
      exact hfree

/-! ## Moves of all -/

/-- A lock the server may grant keeps write locks exclusive. -/
theorem Exclusive.cons (hx : Exclusive held)
    (hop : args.operation = .READ ∨ args.operation = .WRITE) (hg : Grantable held args) (i : ι) :
    Exclusive (⟨args, i⟩ :: held) := by
  have hwrite : args.operation = .WRITE → ∀ g ∈ held, g.args.key = args.key →
      g.args.id = args.id := by
    intro hw
    rw [Grantable, hw] at hg
    exact hg
  have hread : ∀ g ∈ held, g.args.key = args.key → g.args.operation = .WRITE →
      g.args.id = args.id := by
    intro g hgm hk hw
    rcases hop with hr | hw'
    · rw [Grantable, hr] at hg
      exact hg g hgm hk hw
    · exact hwrite hw' g hgm hk
  intro a ha b hb hk hw
  rcases List.mem_cons.1 ha with rfl | ha <;> rcases List.mem_cons.1 hb with rfl | hb
  · rfl
  · exact (hwrite hw b hb hk.symm).symm
  · exact hread a ha hk hw
  · exact hx a ha b hb hk hw

/-- A lock under an identity no other client uses keeps identities to one client. -/
theorem SoleOwner.cons (ho : SoleOwner held) {i : ι}
    (hown : ∀ g ∈ held, g.args.key = args.key → g.args.id = args.id → g.owner = i) :
    SoleOwner (⟨args, i⟩ :: held) := by
  intro a ha b hb hk hid
  rcases List.mem_cons.1 ha with rfl | ha <;> rcases List.mem_cons.1 hb with rfl | hb
  · rfl
  · exact (hown b hb hk.symm hid.symm).symm
  · exact hown a ha hk hid
  · exact ho a ha b hb hk hid

theorem lockType_eq (flags : OpenFlags) : lockType flags = .READ ∨ lockType flags = .WRITE := by
  unfold lockType
  split <;> simp

/-- An RPC that took effect is served. -/
theorem heldAfter_of_ok {a : Move} {args : LockParams} {rpc : Rpc}
    (hcall : (n.party i).call a = some (args, rpc)) (hok : rpc.Ok) :
    n.heldAfter i a = serveLock n.held i args := by
  rw [LockNet.heldAfter, hcall]
  exact if_pos hok

/-- Any other leaves the locks alone. -/
theorem heldAfter_of_not_ok {a : Move} {args : LockParams} {rpc : Rpc}
    (hcall : (n.party i).call a = some (args, rpc)) (hok : ¬ rpc.Ok) :
    n.heldAfter i a = n.held := by
  rw [LockNet.heldAfter, hcall]
  exact if_neg hok

variable [DecidableEq ι]

/-- The invariant after a move, from what it does to the locks and to the client that moved. -/
theorem LockNet.Guarded.moved (hn : n.Guarded) {x : ι × Move}
    (hx : Exclusive (n.heldAfter x.1 x.2)) (ho : SoleOwner (n.heldAfter x.1 x.2))
    (hk : ∀ j, j ≠ x.1 → KeepsOwn j n.held (n.heldAfter x.1 x.2))
    (hp : ∃ m, ((n.party x.1).step x.2).Guarded (n.heldAfter x.1 x.2) x.1 m) :
    (n.step x).1.Guarded where
  exclusive := hx
  owned := ho
  party j := by
    by_cases hj : j = x.1
    · subst hj
      have hself : (n.step x).1.party x.1 = (n.party x.1).step x.2 := Function.update_self ..
      rw [hself]
      exact hp
    · have hother : (n.step x).1.party j = n.party j := Function.update_of_ne hj ..
      rw [hother]
      exact (hn.party j).imp fun m hm => hm.mono (hk j hj)

/-- **Every allowed move keeps the invariant.** -/
theorem guarded_step (hn : n.Guarded) {x : ι × Move} (hx : n.Allowed x) :
    (n.step x).1.Guarded := by
  obtain ⟨i, a⟩ := x
  obtain ⟨⟨⟨hen, hgrant⟩, hlocked, hown⟩, hfresh⟩ := hx
  obtain ⟨m, hm⟩ := hn.party i
  have hstay : n.heldAfter i a = n.held → (∃ l, ((n.party i).step a).Guarded n.held i l) →
      (n.step (i, a)).1.Guarded := by
    intro he hp
    refine hn.moved ?_ ?_ (fun j _ g hg _ => ?_) ?_
    all_goals rw [he]
    · exact hn.exclusive
    · exact hn.owned
    · exact hg
    · exact hp
  cases a with
  | beginOpen path flags => exact hstay rfl ⟨m, hm.beginOpen path flags hfresh⟩
  | giveUp => exact hstay rfl ⟨m, hm.giveUp⟩
  | endOpen ok => exact hstay rfl (hm.endOpen fun hok => hlocked (by rw [hok]))
  | beginRelease h =>
    obtain ⟨f, hf⟩ := Option.isSome_iff_exists.1 hen.2
    exact hstay rfl (hm.beginRelease hen.1 hn.exclusive hf)
  | acquire rpc =>
    cases ht : (n.party i).task with
    | idle | opening | releasing => exact absurd hen (by simp [Party.Enabled, ht])
    | acquiring path flags retry =>
      have hcall : (n.party i).call (.acquire rpc)
          = some ((n.party i).lock.params path (lockType flags), rpc) := by
        simp only [Party.call, ht]
      by_cases hok : rpc.Ok
      · have hheld : n.heldAfter i (.acquire rpc)
            = ⟨(n.party i).lock.params path (lockType flags), i⟩ :: n.held :=
          (heldAfter_of_ok hcall hok).trans (if_neg (lockType_ne_release flags))
        refine hn.moved ?_ ?_ (fun j _ g hg _ => ?_) ?_
        all_goals rw [hheld]
        · exact hn.exclusive.cons (lockType_eq flags) (hgrant _ hcall hok) i
        · exact hn.owned.cons (hown _ hcall)
        · exact List.mem_cons_of_mem _ hg
        · exact ⟨m, hm.acquire ht (fun g hg _ => List.mem_cons_of_mem _ hg)
            fun _ => List.mem_cons_self⟩
      · have hheld := heldAfter_of_not_ok hcall hok
        exact hstay hheld ⟨m, hm.acquire ht (fun g hg _ => hg) fun ho => absurd ho hok⟩
  | release rpc =>
    cases ht : (n.party i).task with
    | idle | opening | acquiring => exact absurd hen (by simp [Party.Enabled, ht])
    | releasing path retry =>
      have hcall : (n.party i).call (.release rpc)
          = some ((n.party i).lock.params path .RELEASE, rpc) := by
        simp only [Party.call, ht]
      by_cases hok : rpc.Ok
      · have hheld : n.heldAfter i (.release rpc) = n.held.filter fun g =>
            ¬ (g.args.key = getKey path ∧ g.args.id = ⟨machine, (n.party i).lock.version⟩) :=
          (heldAfter_of_ok hcall hok).trans (if_pos rfl)
        have hsub : ∀ g ∈ n.heldAfter i (.release rpc), g ∈ n.held := fun g hg =>
          List.mem_of_mem_filter (hheld ▸ hg)
        have hmem : ∀ g ∈ n.held, ¬ (g.args.key = getKey path ∧
            g.args.id = ⟨machine, (n.party i).lock.version⟩) →
            g ∈ n.heldAfter i (.release rpc) := by
          intro g hg hne
          rw [hheld]
          exact List.mem_filter.2 ⟨hg, decide_eq_true hne⟩
        refine hn.moved (fun a ha b hb => hn.exclusive a (hsub a ha) b (hsub b hb))
          (fun a ha b hb => hn.owned a (hsub a ha) b (hsub b hb)) (fun j hj g hg hgj => ?_)
          ⟨m, hm.release ht hmem⟩
        exact hmem g hg fun hg' => hj (hgj ▸ hown _ hcall g hg hg'.1 hg'.2)
      · have hheld := heldAfter_of_not_ok hcall hok
        exact hstay hheld ⟨m, hm.release ht fun g hg _ => hg⟩

omit [DecidableEq ι] in
theorem guarded_init : (LockNet.init : LockNet ι).Guarded where
  exclusive a ha := absurd ha (by simp [LockNet.init])
  owned a ha := absurd ha (by simp [LockNet.init])
  party _ := ⟨fun _ => 0, .empty, trivial⟩

/-- **Mutual exclusion.**  In no run of allowed moves, of any clients in any order, are two handles
on one path open at once of which one writes. -/
theorem locks_exclude {xs : List (ι × Move)}
    (hl : Machine.Legal LockNet.step LockNet.Allowed (LockNet.init : LockNet ι) xs) :
    ¬ (Machine.run LockNet.step LockNet.init xs).1.Conflict :=
  (Machine.invariant_run (I := LockNet.Guarded) (fun _ _ hn hx => guarded_step hn hx) xs _
    guarded_init hl).not_conflict

/-- One client writes `/a` after another did, whose first grant was lost on the way back. -/
theorem locks_exclude_in_turn :
    ¬ (Machine.run LockNet.step LockNet.init
      [(false, .beginOpen ['/', 'a'] ⟨.rdwr, false⟩), (false, .acquire (.answered .OK false)),
        (false, .acquire (.answered .OK true)), (false, .endOpen true), (false, .beginRelease 0),
        (false, .release (.answered .OK true)), (true, .beginOpen ['/', 'a'] ⟨.rdwr, false⟩),
        (true, .acquire (.answered .OK true)), (true, .endOpen true)]).1.Conflict :=
  locks_exclude (by decide)

/-- A client opens `/a` for writing while another, which holds a lock on `/b`, has it open. -/
def deniedOpen : List (Bool × Move) :=
  [(false, .beginOpen ['/', 'a'] ⟨.rdwr, false⟩), (false, .acquire (.answered .OK true)),
    (false, .endOpen true), (true, .beginOpen ['/', 'b'] ⟨.rdonly, false⟩),
    (true, .acquire (.answered .OK true)), (true, .endOpen true),
    (true, .beginOpen ['/', 'a'] ⟨.rdwr, false⟩)] ++
  List.replicate MAXBLOCK (true, .acquire (.answered .ERROR true)) ++
  [(true, .giveUp), (true, .endOpen true)]

/-- **A denied open goes ahead**: both clients end up with `/a` open for writing. -/
theorem denied_opens_conflict :
    Machine.Legal LockNet.step LockNet.Lawful LockNet.init deniedOpen ∧
      (Machine.run LockNet.step LockNet.init deniedOpen).1.Conflict := by
  refine ⟨by decide, false, 0, ⟨['/', 'a'], ⟨.rdwr, false⟩⟩, true, 1,
    ⟨['/', 'a'], ⟨.rdwr, false⟩⟩, by decide, by decide, by decide, rfl, rfl⟩

/-- **The first opens of two clients carry one identity**, so the server may grant both their
lock. -/
theorem shared_identity_conflicts :
    let xs : List (Bool × Move) :=
      [(false, .beginOpen ['/', 'a'] ⟨.rdwr, false⟩), (false, .acquire (.answered .OK true)),
        (false, .endOpen true), (true, .beginOpen ['/', 'a'] ⟨.rdwr, false⟩),
        (true, .acquire (.answered .OK true)), (true, .endOpen true)]
    Machine.Legal LockNet.step LockNet.Lawful LockNet.init xs ∧
      (Machine.run LockNet.step LockNet.init xs).1.Conflict :=
  ⟨by decide, false, 0, ⟨['/', 'a'], ⟨.rdwr, false⟩⟩, true, 0, ⟨['/', 'a'], ⟨.rdwr, false⟩⟩,
    by decide, by decide, by decide, rfl, rfl⟩

/-! ### A version that comes round -/

/-- A single client that is idle, at version `v`, and holds the lock of its first open. -/
def waiting (v : Int32) (calls : List LockCall) (files : Table Opened) : LockNet Unit :=
  ⟨fun _ => ⟨⟨v, false, calls⟩, .idle, files⟩,
    [⟨⟨getKey ['/', 'a'], .WRITE, ⟨machine, 0⟩⟩, ()⟩]⟩

/-- A session on another file, whose lock is granted and given back. -/
def sessionOnB (h : Handle) : List (Unit × Move) :=
  [((), .beginOpen ['/', 'b'] ⟨.rdonly, false⟩), ((), .acquire (.answered .OK true)),
    ((), .endOpen true), ((), .beginRelease h), ((), .release (.answered .OK true))]

theorem step_unit (c : Party) (held : List (Grant Unit)) (a : Move) :
    (LockNet.mk (fun _ => c) held).step ((), a)
      = (⟨fun _ => c.step a, (LockNet.mk (fun _ => c) held).heldAfter () a⟩, ()) := by
  have h : Function.update (fun _ : Unit => c) () (c.step a) = fun _ => c.step a := by
    funext u
    exact Function.update_self ..
  exact congrArg (fun p => (LockNet.mk p _, ())) h

/-- **A session on another file leaves the client waiting**, at the next version. -/
theorem waiting_next (v : Int32) (calls : List LockCall) (files : Table Opened) :
    Machine.Legal LockNet.step LockNet.Locked (waiting v calls files) (sessionOnB files.next) ∧
      (Machine.run LockNet.step (waiting v calls files) (sessionOnB files.next)).1
        = waiting (v + 1) (calls ++ [⟨⟨['+', 'b'], .READ, ⟨machine, v + 1⟩⟩, .answered .OK⟩,
            ⟨⟨['+', 'b'], .RELEASE, ⟨machine, v + 1⟩⟩, .answered .OK⟩])
          ((files.alloc ⟨['/', 'b'], ⟨.rdonly, false⟩⟩).erase files.next) := by
  have hb : getKey ['/', 'b'] = ['+', 'b'] := by decide
  have ha : getKey ['/', 'a'] = ['+', 'a'] := by decide
  refine ⟨⟨⟨⟨rfl, ?_⟩, ?_, ?_⟩, ⟨⟨?_, ?_⟩, ?_, ?_⟩, ⟨⟨?_, ?_⟩, ?_, ?_⟩, ⟨⟨?_, ?_⟩, ?_, ?_⟩,
    ⟨⟨?_, ?_⟩, ?_, ?_⟩, trivial⟩, ?_⟩
  all_goals
    simp [waiting, sessionOnB, Machine.run, step_unit, Party.step, Party.call, Party.Enabled,
      Party.Unlocked, LockNet.heldAfter, Grantable, serveLock, Rpc.seen, Rpc.Ok, RpcAnswer.store,
      Retry.turn, Retry.init, MAXBLOCK, lockType, LockClient.params, LockClient.called, ha, hb]

/-- Any number of such sessions. -/
theorem waiting_rounds (n : ℕ) (v : Int32) (calls : List LockCall) {files : Table Opened}
    {f : Opened} (hf : files.get 0 = some f) :
    ∃ xs calls' files', Machine.Legal LockNet.step LockNet.Locked (waiting v calls files) xs ∧
      (Machine.run LockNet.step (waiting v calls files) xs).1
        = waiting (v + Int32.ofNat n) calls' files' ∧ files'.get 0 = some f := by
  induction n generalizing v calls files with
  | zero => exact ⟨[], calls, files, trivial, by simp [Machine.run], hf⟩
  | succ n ih =>
    obtain ⟨hl, hrun⟩ := waiting_next v calls files
    have hpos : 0 ≠ files.next := (Table.lt_next_of_get hf).ne
    have hf' : ((files.alloc ⟨['/', 'b'], ⟨.rdonly, false⟩⟩).erase files.next).get 0 = some f := by
      rw [Table.get_erase_of_ne hpos, Table.get_alloc_of_ne hpos, hf]
    obtain ⟨xs, calls', files', hl', hrun', hget⟩ := ih (v + 1) _ hf'
    refine ⟨_, calls', files', Machine.legal_append.2 ⟨hl, hrun.symm ▸ hl'⟩, ?_, hget⟩
    have hv : v + Int32.ofNat (n + 1) = v + 1 + Int32.ofNat n := by
      rw [Int32.ofNat_add, Int32.add_comm (Int32.ofNat n), ← Int32.add_assoc]
      rfl
    rw [Machine.run_append, hrun, hrun', hv]

/-- The first open, of a file for writing. -/
def openA : List (Unit × Move) :=
  [((), .beginOpen ['/', 'a'] ⟨.rdwr, false⟩), ((), .acquire (.answered .OK true)),
    ((), .endOpen true)]

/-- At version `-1` the same open is granted once more. -/
theorem waiting_again (calls : List LockCall) {files : Table Opened}
    (hf : files.get 0 = some ⟨['/', 'a'], ⟨.rdwr, false⟩⟩) :
    Machine.Legal LockNet.step LockNet.Locked (waiting (-1) calls files) openA ∧
      (Machine.run LockNet.step (waiting (-1) calls files) openA).1.Conflict := by
  have hpos : 0 ≠ files.next := (Table.lt_next_of_get hf).ne
  constructor
  · refine ⟨⟨⟨rfl, ?_⟩, ?_, ?_⟩, ⟨⟨?_, ?_⟩, ?_, ?_⟩, ⟨⟨?_, ?_⟩, ?_, ?_⟩, trivial⟩
    all_goals
      simp [waiting, step_unit, Party.step, Party.call, Party.Enabled, Party.Unlocked,
        LockNet.heldAfter, Grantable, Rpc.seen, Rpc.Ok, RpcAnswer.store, Retry.turn, Retry.init,
        MAXBLOCK, lockType, LockClient.params]
  · refine ⟨(), 0, ⟨['/', 'a'], ⟨.rdwr, false⟩⟩, (), files.next, ⟨['/', 'a'], ⟨.rdwr, false⟩⟩,
      fun h => hpos (Prod.mk.inj h).2, ?_, ?_, rfl, rfl⟩
    · exact (Table.get_alloc_of_ne hpos).trans hf
    · exact Table.get_alloc_next ..

/-- **`2 ^ 32` opens after its first one a client may open the file once more for writing**, though
every acquire was granted. -/
theorem version_comes_round : ∃ xs : List (Unit × Move),
    Machine.Legal LockNet.step LockNet.Locked LockNet.init xs ∧
      (Machine.run LockNet.step LockNet.init xs).1.Conflict := by
  have hfirst : (Machine.run LockNet.step (LockNet.init : LockNet Unit) openA).1 = waiting 0
      [⟨⟨['+', 'a'], .WRITE, ⟨machine, 0⟩⟩, .answered .OK⟩]
      (Table.empty.alloc ⟨['/', 'a'], ⟨.rdwr, false⟩⟩) := rfl
  have hlegal : Machine.Legal LockNet.step LockNet.Locked (LockNet.init : LockNet Unit) openA :=
    Machine.legal_mono (fun _ _ h => LockNet.Allowed.toLocked h) (by decide)
  obtain ⟨xs, calls, files, hl, hrun, hget⟩ := waiting_rounds (2 ^ 32 - 1) 0
    [⟨⟨['+', 'a'], .WRITE, ⟨machine, 0⟩⟩, .answered .OK⟩]
    (Table.get_alloc_next Table.empty ⟨['/', 'a'], ⟨.rdwr, false⟩⟩)
  have hround : (0 : Int32) + Int32.ofNat (2 ^ 32 - 1) = -1 := by decide
  rw [← hfirst] at hl hrun
  rw [hround] at hrun
  have hagain := waiting_again calls hget
  rw [← hrun] at hagain
  obtain ⟨hl', hc⟩ := hagain
  refine ⟨openA ++ (xs ++ openA),
    Machine.legal_append.2 ⟨hlegal, Machine.legal_append.2 ⟨hl, hl'⟩⟩, ?_⟩
  rwa [Machine.run_append, Machine.run_append]

end CloudFS
