import CloudFS.Client.Names

/-!
# Client/Lock — the lock wrappers

`acquire_lock_wrapper` and `release_lock_wrapper` retry one RPC until it is answered `OK`, at most
`MAXBLOCK` times.  The answer to the `k`-th RPC is a parameter: the call failed and left the
result as it was, or the server answered.  `retransmit` is the loop both share.
-/

namespace CloudFS

open Posix

/-- `enum status`. -/
inductive Status
  | ERROR | OK | UNALLOC
  deriving DecidableEq

/-- `enum type`. -/
inductive LockType
  | UNDEFINED | READ | WRITE | RELEASE
  deriving DecidableEq

/-- `struct identity`, two `int`s: the machine and the version of an open. -/
structure Identity where
  machine : Int32
  version : Int32
  deriving DecidableEq

/-- `struct lock_params`. -/
structure LockParams where
  key : Name
  operation : LockType
  id : Identity
  deriving DecidableEq

/-- The longest key of a lock. -/
def MAXNAMELEN : ℕ := 255

/-- `xdr_keyname`, encoding: `xdr_string` refuses a longer key. -/
def xdrKeyname (objp : Name) : Bool := objp.length ≤ MAXNAMELEN

/-- `xdr_lock_params`, encoding: the operation and the identity are always encoded. -/
def xdrLockParams (objp : LockParams) : Bool := xdrKeyname objp.key

/-- What came of one RPC. -/
inductive RpcAnswer
  | failed
  | answered (s : Status)
  deriving DecidableEq

/-- The global `machine`, the same on every client. -/
def machine : Int32 := 0

/-- How often an RPC is tried. -/
def MAXBLOCK : ℕ := 15

/-- `result_1` after an RPC: a failed call leaves it alone. -/
def RpcAnswer.store (result : Status) : RpcAnswer → Status
  | .failed => result
  | .answered s => s

/-- The lock a set of open flags asks for. -/
def lockType (flags : OpenFlags) : LockType :=
  match flags.acc with
  | .rdwr => .WRITE
  | .wronly => .WRITE
  | .rdonly => .READ

theorem lockType_ne_release (flags : OpenFlags) : lockType flags ≠ .RELEASE := by
  unfold lockType
  split <;> decide

/-- The variables of a retry loop. -/
structure Retry where
  times : ℕ
  result : Status
  deriving DecidableEq

/-- A retry loop before its first turn. -/
def Retry.init : Retry := ⟨0, .ERROR⟩

/-- One turn of a retry loop that is still allowed an RPC. -/
def Retry.turn (s : Retry) (a : RpcAnswer) : Retry := ⟨s.times + 1, a.store s.result⟩

/-- The `goto RETRANSMIT` loop with `left` RPCs still allowed: the answers it got, in order, and
whether the last one was `OK`. -/
def retransmit (answer : ℕ → RpcAnswer) : ℕ → Retry → List RpcAnswer × Bool
  | 0, _ => ([], false)
  | left + 1, s =>
    let a := answer s.times
    let s' := s.turn a
    if s'.result = .OK then ([a], true)
    else (a :: (retransmit answer left s').1, (retransmit answer left s').2)

/-- An RPC and what came of it. -/
structure LockCall where
  args : LockParams
  answer : RpcAnswer
  deriving DecidableEq

/-- The global variables of the lock client, and the RPCs it made.  `version` is an `int`, which
comes round after `2 ^ 32` opens. -/
structure LockClient where
  version : Int32
  skip : Bool
  calls : List LockCall
  deriving DecidableEq

/-- The lock client of a fresh mount. -/
def LockClient.init : LockClient := ⟨-1, false, []⟩

/-- The arguments of an RPC for `path`. -/
def LockClient.params (l : LockClient) (path : Name) (operation : LockType) : LockParams :=
  ⟨getKey path, operation, ⟨machine, l.version⟩⟩

/-- A lock client that made one more RPC. -/
def LockClient.called (l : LockClient) (args : LockParams) (a : RpcAnswer) : LockClient :=
  { l with calls := l.calls ++ [⟨args, a⟩] }

/-- `acquire_lock_wrapper`. -/
def acquireLockWrapper (answer : ℕ → RpcAnswer) (path : Name) (flags : OpenFlags)
    (l : LockClient) : LockClient :=
  let r := retransmit answer MAXBLOCK Retry.init
  { l with
    skip := if r.2 then l.skip else true
    calls := l.calls ++ r.1.map fun a => ⟨l.params path (lockType flags), a⟩ }

/-- `release_lock_wrapper`. -/
def releaseLockWrapper (answer : ℕ → RpcAnswer) (path : Name) (l : LockClient) : LockClient :=
  if l.skip then { l with skip := false }
  else
    let r := retransmit answer MAXBLOCK Retry.init
    { l with calls := l.calls ++ r.1.map fun a => ⟨l.params path .RELEASE, a⟩ }

end CloudFS
