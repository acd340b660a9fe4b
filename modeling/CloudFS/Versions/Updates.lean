import CloudFS.Versions.Ledger
import CloudFS.Versions.Refinement

/-!
# Versions/Updates — no update is lost

Clients of one bucket work on copies, so a release may overwrite what another released since.  In a
run in which a session that is released with edits is alone on its path, and no session is open on
a path that is unlinked — which is what the locks are for — they do what the ledger does: every
reply is the ledger's, and the objects are its edits replayed.  At threshold 0 the object of a path
is what the edits of all sessions released on it make of an empty file (`updates_kept`).
-/

namespace CloudFS

open Posix VersionStore

variable {ι : Type} [DecidableEq ι] {cfg : ι → CloudfsState}

/-- **No update is lost** over a legal run of any number of clients, with deaths at any moment, in
which the operations that change a version are exclusive. -/
theorem updates_kept (umask : ι → UInt32) (clock : ι → Timespec) {ops : List (ι × Op)}
    {es : List (ι × Event)} (ha : List.Forall₂ PerformsAt ops es)
    (hl : Machine.Legal (VersionStore.step fun i => (cfg i).threshold)
      (VersionStore.Ok fun i => Clean (cfg i)) VersionStore.init ops)
    (hx : Machine.Legal (VersionStore.step fun i => (cfg i).threshold) Ledger.Exclusive
      VersionStore.init ops) :
    let n := Machine.run (Net.serve cfg) (Net.blank umask clock) es
    let g := Machine.run (Ledger.step fun i => (cfg i).threshold) Ledger.init ops
    n.2.map Reply.answer = g.2 ∧
      (∀ p, '+' ∉ p → n.1.bucket (getKey p) = (g.1.merged p).map Ledger.replay) ∧
      ((∀ i, (cfg i).threshold = 0) → ∀ p, '+' ∉ p →
        (n.1.bucket (getKey p)).getD Content.empty = Ledger.replay
          (Ledger.released (fun i => (cfg i).threshold) p Ledger.init [] ops)) := by
  intro n g
  obtain ⟨hR, hreply⟩ := versioned_run (versioned_blank umask clock) ha hl
  obtain ⟨hA, hanswer⟩ := Ledger.agrees_run Ledger.agrees_blank hx
  have hobject : ∀ p, '+' ∉ p → n.1.bucket (getKey p) = (g.1.merged p).map Ledger.replay := by
    intro p hp
    rw [hR.publishes p hp, ← hA.stored]
    rfl
  refine ⟨hreply.trans hanswer.symm, hobject, fun hT p hp => ?_⟩
  have hstart : Ledger.replay ((Ledger.init (ι := ι)).merged p |>.getD []) = Ledger.replay [] := rfl
  rw [hobject p hp, ← Ledger.replay_getD]
  exact Ledger.replay_released hT hstart ops

/-- One client writes two bytes to `/a`, and another then writes over the second of them. -/
theorem updates_kept_two :
    let ops : List (Bool × Op) := [(false, .mknod ['/', 'a']),
      (false, .openFile ['/', 'a'] ⟨.rdwr, false⟩), (false, .write 0 [7, 8] 0), (false, .release 0),
      (true, .openFile ['/', 'a'] ⟨.rdwr, false⟩), (true, .write 0 [9] 1), (true, .release 0)]
    let es : List (Bool × Event) := [(false, .asks (.mknod ['/', 'a'] 0o644 none)),
      (false, .asks (.openFile ['/', 'a'] ⟨.rdwr, false⟩ OpenEnv.calm)),
      (false, .asks (.write 0 [7, 8] 0 none)), (false, .asks (.release 0 ReleaseEnv.calm)),
      (true, .asks (.openFile ['/', 'a'] ⟨.rdwr, false⟩ OpenEnv.calm)),
      (true, .asks (.write 0 [9] 1 none)), (true, .asks (.release 0 ReleaseEnv.calm))]
    let n := (Machine.run (Net.serve fun _ => .sample 0) (Net.blank (fun _ => 0) fun _ => ⟨0, 0⟩)
      es).1
    let edits := Ledger.released (fun _ => (CloudfsState.sample 0).threshold) ['/', 'a']
      Ledger.init [] ops
    (n.bucket (getKey ['/', 'a'])).getD Content.empty = Ledger.replay edits ∧
      edits = [⟨⟨.rdwr, false⟩, [7, 8], 0⟩, ⟨⟨.rdwr, false⟩, [9], 1⟩] ∧
      (Ledger.replay edits).bytes = [7, 9] := by
  intro ops es n edits
  have hp : Clean (.sample 0) ['/', 'a'] := by decide
  have ha : List.Forall₂ PerformsAt ops es :=
    .cons ⟨rfl, .mknod ..⟩ (.cons ⟨rfl, .openFile _ _ _ OpenEnv.ssdOk_calm rfl⟩
      (.cons ⟨rfl, .write ..⟩ (.cons ⟨rfl, .release _ _ ReleaseEnv.ssdOk_calm rfl rfl⟩
        (.cons ⟨rfl, .openFile _ _ _ OpenEnv.ssdOk_calm rfl⟩ (.cons ⟨rfl, .write ..⟩
          (.cons ⟨rfl, .release _ _ ReleaseEnv.ssdOk_calm rfl rfl⟩ .nil))))))
  have hl : Machine.Legal (VersionStore.step fun _ => (CloudfsState.sample 0).threshold)
      (VersionStore.Ok fun _ => Clean (.sample 0)) VersionStore.init ops :=
    ⟨hp, ⟨hp, by decide⟩, rfl, rfl, ⟨hp, by decide⟩, rfl, rfl, trivial⟩
  have hx : Machine.Legal (VersionStore.step fun _ => (CloudfsState.sample 0).threshold)
      Ledger.Exclusive VersionStore.init ops := by
    refine ⟨Ledger.exclusive_of_quiet rfl, Ledger.exclusive_of_quiet rfl,
      Ledger.exclusive_of_quiet rfl, Ledger.exclusive_of_sole fun j k d hd => ?_,
      Ledger.exclusive_of_quiet rfl, Ledger.exclusive_of_quiet rfl,
      Ledger.exclusive_of_sole fun j k d hd => ?_, trivial⟩
    · have hk := Table.lt_next_of_get hd
      cases j with
      | false => exact ⟨rfl, Nat.lt_one_iff.1 hk⟩
      | true => exact absurd hk (Nat.not_lt_zero k)
    · have hk : k = 0 := by
        have := Table.lt_next_of_get hd
        cases j <;> exact Nat.lt_one_iff.1 this
      subst hk
      cases j with
      | false => exact absurd (show none = some d from hd) (by simp)
      | true => exact ⟨rfl, rfl⟩
  exact ⟨(updates_kept _ _ ha hl hx).2.2 (fun _ => rfl) _ (by decide), rfl, rfl⟩

end CloudFS
