import CloudFS.Client.Lock
import CloudFS.Machinery.Loop

/-!
# Client/Retry — the jumps of the lock wrappers

`acquire_lock_wrapper` and `release_lock_wrapper` jump back to a label until their RPC is answered
`OK`, and count at the label.  Followed jump by jump they do what `acquireLockWrapper` and
`releaseLockWrapper` say (`acquireGoto_eq`, `releaseGoto_eq`): the same RPC up to the first `OK`, or
`MAXBLOCK` times (`lock_retries`).
-/

namespace CloudFS

open Posix

/-- The local variables of a wrapper at its label, and the client. -/
structure WrapperState where
  times : ℕ
  result : Status
  client : LockClient

/-- `acquire_1` and `release_1`: the call is made, and stores its answer. -/
def WrapperState.rpc (s : WrapperState) (lockArg : LockParams) (a : RpcAnswer) : WrapperState :=
  { s with result := a.store s.result, client := s.client.called lockArg a }

/-- From `RETRANSMIT1` to the jump back, or to the end of `acquire_lock_wrapper`.  The answer to
RPC `k` is `answer k`. -/
def retransmit1 (answer : ℕ → RpcAnswer) (path : Name) (flags : OpenFlags) (s : WrapperState) :
    WrapperState ⊕ LockClient :=
  let a := answer s.times
  let s := { s with times := s.times + 1 }
  if s.times > MAXBLOCK then .inr { s.client with skip := true }
  else if flags.acc = .rdwr ∨ flags.acc = .wronly then
    let lockArg := s.client.params path .WRITE
    let s := s.rpc lockArg a
    if s.result ≠ .OK then .inl s else .inr s.client
  else
    let lockArg := s.client.params path .READ
    let s := s.rpc lockArg a
    if s.result ≠ .OK then .inl s else .inr s.client

/-- From `RETRANSMIT2` to the jump back, or to the end of `release_lock_wrapper`. -/
def retransmit2 (answer : ℕ → RpcAnswer) (path : Name) (s : WrapperState) :
    WrapperState ⊕ LockClient :=
  let a := answer s.times
  let s := { s with times := s.times + 1 }
  if s.times > MAXBLOCK then .inr s.client
  else
    let lockArg := s.client.params path .RELEASE
    let s := s.rpc lockArg a
    if s.result ≠ .OK then .inl s else .inr s.client

/-- `acquire_lock_wrapper`; `none` if it passes its label more than `fuel` times. -/
def acquireGoto (answer : ℕ → RpcAnswer) (path : Name) (flags : OpenFlags) (fuel : ℕ)
    (l : LockClient) : Option LockClient :=
  Loop.run (retransmit1 answer path flags) fuel ⟨0, .ERROR, l⟩

/-- `release_lock_wrapper`; `none` if it passes its label more than `fuel` times. -/
def releaseGoto (answer : ℕ → RpcAnswer) (path : Name) (fuel : ℕ) (l : LockClient) :
    Option LockClient :=
  if l.skip then some { l with skip := false }
  else Loop.run (retransmit2 answer path) fuel ⟨0, .ERROR, l⟩

/-! ## The wrappers -/

/-- What either loop comes to: the RPCs `retransmit` makes, and `skip` changed by `giveUp` if none
of them was answered `OK`. -/
def WrapperState.finish (answer : ℕ → RpcAnswer) (path : Name) (op : LockType)
    (giveUp : Bool → Bool) (s : WrapperState) : LockClient :=
  let r := retransmit answer (MAXBLOCK - s.times) ⟨s.times, s.result⟩
  { s.client with
    skip := if r.2 then s.client.skip else giveUp s.client.skip
    calls := s.client.calls ++ r.1.map fun a => ⟨s.client.params path op, a⟩ }

/-- A turn of a loop that asks for `op` and gives up with `giveUp`. -/
def retryTurn (answer : ℕ → RpcAnswer) (path : Name) (op : LockType) (giveUp : Bool → Bool)
    (s : WrapperState) : WrapperState ⊕ LockClient :=
  let a := answer s.times
  let s := { s with times := s.times + 1 }
  if s.times > MAXBLOCK then .inr { s.client with skip := giveUp s.client.skip }
  else
    let s := s.rpc (s.client.params path op) a
    if s.result ≠ .OK then .inl s else .inr s.client

variable {answer : ℕ → RpcAnswer} {path : Name} {flags : OpenFlags} {op : LockType}
  {giveUp : Bool → Bool} {s : WrapperState} {l : LockClient} {fuel : ℕ}

/-- The two branches of `acquire_lock_wrapper` differ in the lock they ask for. -/
theorem retransmit1_eq (answer : ℕ → RpcAnswer) (path : Name) (flags : OpenFlags) :
    retransmit1 answer path flags = retryTurn answer path (lockType flags) fun _ => true := by
  funext s
  obtain ⟨acc, append⟩ := flags
  cases acc <;> rfl

theorem retransmit2_eq (answer : ℕ → RpcAnswer) (path : Name) :
    retransmit2 answer path = retryTurn answer path .RELEASE id := rfl

/-- A loop that has used up its RPCs gives up. -/
theorem finish_of_not_lt (h : ¬ s.times < MAXBLOCK) : s.finish answer path op giveUp
    = { s.client with skip := giveUp s.client.skip } := by
  have hleft : MAXBLOCK - s.times = 0 := by omega
  simp [WrapperState.finish, hleft, retransmit]

/-- A loop that has an RPC left makes it. -/
theorem finish_of_lt (h : s.times < MAXBLOCK) :
    let s' := { s with times := s.times + 1 }.rpc (s.client.params path op) (answer s.times)
    s.finish answer path op giveUp
      = if s'.result ≠ .OK then s'.finish answer path op giveUp else s'.client := by
  have hleft : MAXBLOCK - s.times = MAXBLOCK - (s.times + 1) + 1 := by omega
  simp only [WrapperState.finish, hleft, retransmit]
  by_cases hok : (answer s.times).store s.result = .OK
  · simp [Retry.turn, WrapperState.rpc, LockClient.called, hok]
  · simp [Retry.turn, WrapperState.rpc, LockClient.called, LockClient.params, hok]
    rfl

/-- **A turn** leaves what its loop comes to. -/
theorem keeps_retryTurn : Loop.Keeps (retryTurn answer path op giveUp)
    (WrapperState.finish answer path op giveUp) fun s => MAXBLOCK - s.times := by
  intro s
  by_cases hlt : s.times < MAXBLOCK
  · have hgt : ¬ s.times + 1 > MAXBLOCK := by omega
    simp only [retryTurn, if_neg hgt, finish_of_lt hlt]
    by_cases hok : (answer s.times).store s.result = .OK
    · simp [WrapperState.rpc, hok]
    · simp only [WrapperState.rpc, ne_eq, hok, not_false_eq_true, if_true, true_and]
      omega
  · have hgt : s.times + 1 > MAXBLOCK := by omega
    simp only [retryTurn, if_pos hgt, finish_of_not_lt hlt]

/-- **`acquire_lock_wrapper` is `acquireLockWrapper`**, jump by jump. -/
theorem acquireGoto_eq (answer : ℕ → RpcAnswer) (path : Name) (flags : OpenFlags)
    (hfuel : MAXBLOCK < fuel) (l : LockClient) :
    acquireGoto answer path flags fuel l = some (acquireLockWrapper answer path flags l) := by
  rw [acquireGoto, retransmit1_eq]
  exact Loop.run_eq_some keeps_retryTurn hfuel

/-- **`release_lock_wrapper` is `releaseLockWrapper`**, jump by jump. -/
theorem releaseGoto_eq (answer : ℕ → RpcAnswer) (path : Name) (hfuel : MAXBLOCK < fuel)
    (l : LockClient) :
    releaseGoto answer path fuel l = some (releaseLockWrapper answer path l) := by
  rw [releaseGoto, releaseLockWrapper]
  split
  case isTrue => rfl
  case isFalse =>
    rw [retransmit2_eq, Loop.run_eq_some keeps_retryTurn hfuel, WrapperState.finish]
    simp only [id, ite_self]
    rfl

/-! ## The RPCs of a loop -/

/-- A loop that may make `limit` RPCs makes `n`: none but the last is answered `OK`, and the last is
if more were allowed. -/
structure StopsAt (answer : ℕ → RpcAnswer) (limit n : ℕ) : Prop where
  le : n ≤ limit
  first : ∀ k, k + 1 < n → answer k ≠ .answered .OK
  last : n < limit → ∃ k, k + 1 = n ∧ answer k = .answered .OK

/-- A loop goes on after an RPC that was not answered `OK`. -/
theorem StopsAt.succ {limit n : ℕ} (h : StopsAt (fun k => answer (k + 1)) limit n)
    (h0 : answer 0 ≠ .answered .OK) : StopsAt answer (limit + 1) (n + 1) where
  le := Nat.succ_le_succ h.le
  first k hk := by
    cases k with
    | zero => exact h0
    | succ k => exact h.first k (Nat.lt_of_succ_lt_succ hk)
  last hlt := by
    obtain ⟨k, hk, hok⟩ := h.last (Nat.lt_of_succ_lt_succ hlt)
    exact ⟨k + 1, congrArg Nat.succ hk, hok⟩

/-- **What an `OK` brings about** one of the RPCs made does, if one of those allowed does. -/
theorem StopsAt.exists_iff {P : ℕ → Prop} {limit n : ℕ} (h : StopsAt answer limit n)
    (hP : ∀ k, answer k = .answered .OK → P k) : (∃ k < n, P k) ↔ ∃ k < limit, P k := by
  constructor
  · rintro ⟨k, hk, hPk⟩
    exact ⟨k, hk.trans_le h.le, hPk⟩
  · rintro ⟨k, hk, hPk⟩
    rcases h.le.lt_or_eq with hlt | rfl
    · obtain ⟨j, rfl, hj⟩ := h.last hlt
      exact ⟨j, Nat.lt_succ_self j, hP j hj⟩
    · exact ⟨k, hk, hPk⟩

/-- The result is `OK` after an RPC exactly when it was answered so: a failed call leaves it. -/
theorem turn_eq_ok_iff {r : Retry} (hr : r.result ≠ .OK) (a : RpcAnswer) :
    (r.turn a).result = .OK ↔ a = .answered .OK := by
  cases a with
  | failed => exact iff_of_false hr (by simp)
  | answered t => simp [Retry.turn, RpcAnswer.store]

/-- **The RPCs `retransmit` makes**, and whether one was answered `OK`. -/
theorem retransmit_eq (answer : ℕ → RpcAnswer) (limit : ℕ) {r : Retry} (hr : r.result ≠ .OK) :
    ∃ n, StopsAt (fun k => answer (r.times + k)) limit n ∧
      retransmit answer limit r = ((List.range n).map fun k => answer (r.times + k),
        decide (∃ k < limit, answer (r.times + k) = .answered .OK)) := by
  induction limit generalizing r with
  | zero => exact ⟨0, ⟨le_rfl, by simp, by simp⟩, by simp [retransmit]⟩
  | succ limit ih =>
    have hok := turn_eq_ok_iff hr (answer r.times)
    rw [retransmit]
    split
    case isTrue h =>
      have ha := hok.1 h
      refine ⟨1, ⟨Nat.succ_pos limit, by simp, fun _ => ⟨0, rfl, ha⟩⟩, ?_⟩
      rw [decide_eq_true ⟨0, Nat.succ_pos limit, ha⟩]
      rfl
    case isFalse h =>
      have ha := mt hok.2 h
      obtain ⟨n, hn, heq⟩ := ih h
      have hshift : ∀ k, (r.turn (answer r.times)).times + k = r.times + (k + 1) := by
        intro k
        simp only [Retry.turn]
        omega
      simp only [hshift] at hn heq
      refine ⟨n + 1, hn.succ ha, ?_⟩
      rw [heq, List.range_succ_eq_map, List.map_cons, List.map_map]
      simp only [Nat.exists_lt_succ_left, Nat.add_zero, ha, false_or]
      rfl

/-- **The wrappers make the same RPC up to the first `OK`**, `MAXBLOCK` times at most, and an
acquire that got none sets `skip`. -/
theorem lock_retries (answer : ℕ → RpcAnswer) (path : Name) (flags : OpenFlags) (l : LockClient) :
    ∃ n, StopsAt answer MAXBLOCK n ∧ ∀ more,
      acquireGoto answer path flags (MAXBLOCK + 1 + more) l = some { l with
        skip := if ∃ k < MAXBLOCK, answer k = .answered .OK then l.skip else true
        calls := l.calls ++
          (List.range n).map fun k => ⟨l.params path (lockType flags), answer k⟩ } ∧
      releaseGoto answer path (MAXBLOCK + 1 + more) { l with skip := false } = some { l with
        skip := false
        calls := l.calls ++ (List.range n).map fun k => ⟨l.params path .RELEASE, answer k⟩ } := by
  obtain ⟨n, hn, heq⟩ := retransmit_eq answer MAXBLOCK (r := Retry.init) (by decide)
  have htimes : ∀ k, Retry.init.times + k = k := Nat.zero_add
  simp only [htimes] at hn heq
  refine ⟨n, hn, fun more => ⟨?_, ?_⟩⟩
  · rw [acquireGoto_eq answer path flags (by omega), acquireLockWrapper, heq]
    simp only [decide_eq_true_eq, List.map_map]
    rfl
  · rw [releaseGoto_eq answer path (by omega), releaseLockWrapper, heq,
      if_neg Bool.false_ne_true]
    simp only [List.map_map]
    rfl

end CloudFS
