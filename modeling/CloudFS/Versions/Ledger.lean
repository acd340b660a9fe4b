import CloudFS.Versions.Store

/-!
# Versions/Ledger — the store that loses no update

What a user hopes a shared store is: writes are kept as edits, an open session sees what is merged
by now and its own edits, and a release adds its edits to what is merged by now.  The version store
works on copies instead — a session sees the version it opened, and a release replaces the whole —
so the two part as soon as a version changes under an open session.  Where the sessions that are
released with edits are alone on their path, and so are the unlinks, every answer is the ledger's
and the versions are its edits replayed (`agrees_run`): no edit is ever overwritten unread.

At threshold 0 nothing that was released is dropped either: a version is the edits of all sessions
released since it was last unlinked, in the order of their releases (`replay_released`).
-/

namespace Ledger

open Posix VersionStore

/-! ## Edits -/

/-- A write, as a session of these flags makes it. -/
structure Edit where
  flags : OpenFlags
  buf : Bytes
  offset : ℕ

/-- What a write makes of a content: nothing, if it is not allowed or too long. -/
def Edit.apply (a : Edit) (c : Content) : Content :=
  if a.flags.writable then (c.write (a.flags.landing c a.offset) a.buf).getD c else c

/-- Edits made one after another of a content. -/
def edited (c : Content) (as : List Edit) : Content := as.foldl (fun c a => a.apply c) c

/-- Edits made one after another of an empty file. -/
def replay (as : List Edit) : Content := edited Content.empty as

theorem replay_append (as bs : List Edit) : replay (as ++ bs) = edited (replay as) bs :=
  List.foldl_append ..

theorem replay_concat (as : List Edit) (a : Edit) : replay (as ++ [a]) = a.apply (replay as) :=
  replay_append as [a]

/-- An edit never makes a content shorter. -/
theorem Edit.size_le_apply (a : Edit) (c : Content) : c.size ≤ (a.apply c).size := by
  unfold Edit.apply
  split
  · cases hw : c.write (a.flags.landing c a.offset) a.buf with
    | none => exact le_rfl
    | some d => exact Content.size_le_of_write hw
  · exact le_rfl

theorem size_le_edited (as : List Edit) (c : Content) : c.size ≤ (edited c as).size := by
  induction as generalizing c with
  | nil => exact le_rfl
  | cons a as ih => exact (a.size_le_apply c).trans (ih (a.apply c))

/-! ## Sessions -/

/-- An open session: whether it found a version when it was opened, and its edits. -/
structure Session where
  path : Name
  flags : OpenFlags
  fetched : Bool
  edits : List Edit

/-- The versions, each as the edits it was made by. -/
abbrev Merged := Name → Option (List Edit)

/-- **What a session sees**: what is merged by now, and its own edits. -/
def Session.draft (m : Merged) (e : Session) : Draft :=
  ⟨e.path, e.flags, replay ((m e.path).getD [] ++ e.edits), e.fetched, !e.edits.isEmpty⟩

/-- The session after a write. -/
def Session.write (e : Session) (buf : Bytes) (offset : ℕ) : Session :=
  { e with edits := e.edits ++ [⟨e.flags, buf, offset⟩] }

/-- **What is merged after a release**: what was, and the session's edits. -/
def Session.merge (T : ℤ) (m : Merged) (e : Session) : Option (List Edit) :=
  match (e.draft m).fate T with
  | .returned => m e.path
  | .published => some ((m e.path).getD [] ++ e.edits)
  | .withdrawn => none
  | .kept => m e.path

/-! ## Steps -/

/-- What one client has. -/
structure Book where
  sessions : Table Session
  known : Name → Bool
  present : Name → Bool

/-- What is merged, and the clients. -/
structure State (ι : Type) where
  merged : Merged
  book : ι → Book

namespace Book

/-- A client that has nothing. -/
def init : Book := ⟨Table.empty, fun _ => false, fun _ => false⟩

/-- The client whose process was started again. -/
def restarted (b : Book) : Book := { b with sessions := Table.empty }

/-- The entry of `path` set. -/
def enter (b : Book) (path : Name) (v : Bool) : Book :=
  { b with present := Function.update b.present path v }

/-- What is known of `path` set. -/
def learn (b : Book) (path : Name) (v : Bool) : Book :=
  { b with known := Function.update b.known path v }

/-- An operation on an open session. -/
def onSession {α : Type} (b : Book) (h : ℕ) (refused : α) (op : Session → α) : α :=
  match b.sessions.get h with
  | none => refused
  | some e => op e

/-- One operation of a client of threshold `T`: what is merged, the client and the answer. -/
def step (T : ℤ) (m : Merged) (b : Book) : Op → Merged × Book × Out
  | .mknod path =>
    if b.present path then (m, b, .refused) else (m, b.enter path true, .done)
  | .openFile path flags =>
    (m, { b.enter path true with
        sessions := b.sessions.alloc ⟨path, flags, (m path).isSome, []⟩ },
      .handle b.sessions.next)
  | .read h size offset =>
    (m, b, b.onSession h .refused fun e => (e.draft m).read size offset)
  | .write h buf offset =>
    b.onSession h (m, b, .refused) fun e =>
      (m, { b with sessions := b.sessions.set h (e.write buf offset) },
        ((e.draft m).write buf offset).2)
  | .fgetattr h => (m, b, b.onSession h .refused fun e => .size (e.draft m).content.size)
  | .utimens path => (m, b, if b.present path then .done else .refused)
  | .unlink path =>
    (if b.known path then Function.update m path none else m,
      (b.learn path false).enter path false, if b.present path then .done else .refused)
  | .release h =>
    b.onSession h (m, b, .refused) fun e =>
      (Function.update m e.path (e.merge T m),
        { b.learn e.path ((e.draft m).knows T (b.known e.path)) with
          sessions := b.sessions.erase h }, .done)
  | .tick => (m, b, .done)
  | .dies => (m, b.restarted, .done)
  | .diesOpening path recreated => (m, (b.enter path recreated).restarted, .done)
  | .diesUnlinking path stage =>
    (if stage.reached .asked ∧ b.known path then Function.update m path none else m,
      ((b.learn path (b.known path && !stage.reached .recorded)).enter path
        (b.present path && !stage.reached .unlinked)).restarted, .done)
  | .diesReleasing h stage =>
    b.onSession h (m, b.restarted, .done) fun e =>
      (if stage.reached .asked then Function.update m e.path (e.merge T m) else m,
        ((b.learn e.path (if stage.reached .recorded then (e.draft m).knows T (b.known e.path)
          else b.known e.path)).enter e.path (!(e.draft m).uncovered T stage)).restarted, .done)

end Book

/-- One operation of one client. -/
def step {ι : Type} [DecidableEq ι] (T : ι → ℤ) (g : State ι) (x : ι × Op) : State ι × Out :=
  let r := (g.book x.1).step (T x.1) g.merged x.2
  (⟨r.1, Function.update g.book x.1 r.2.1⟩, r.2.2)

/-- Nothing merged and nobody has anything. -/
def init {ι : Type} : State ι := ⟨fun _ => none, fun _ => Book.init⟩

/-! ## The version store's copies -/

variable {ι : Type} {T : ℤ} {m : Merged} {b : Book} {l : Client} {e : Session} {p : Name}
  {h : ℕ} {op : Op}

/-- The versions the edits make. -/
def versions (m : Merged) : Name → Option Content := fun p => (m p).map replay

theorem versions_update (m : Merged) (p : Name) (o : Option (List Edit)) :
    versions (Function.update m p o) = publish (versions m) p (o.map replay) := by
  funext q
  by_cases hq : q = p
  · subst hq
    simp [versions, publish]
  · simp [versions, publish, hq]

theorem replay_getD (o : Option (List Edit)) :
    replay (o.getD []) = (o.map replay).getD Content.empty := by
  cases o <;> rfl

/-- A session that was just opened has a copy of the version. -/
theorem draft_opened (path : Name) (flags : OpenFlags) :
    Session.draft m ⟨path, flags, (m path).isSome, []⟩ =
      ⟨path, flags, (versions m path).getD Content.empty, (versions m path).isSome, false⟩ := by
  simp [Session.draft, versions, replay_getD]

/-- A write of a session is a write of its copy. -/
theorem draft_write (e : Session) (buf : Bytes) (offset : ℕ) :
    (e.write buf offset).draft m = ((e.draft m).write buf offset).1 := by
  have hc : replay ((m e.path).getD [] ++ (e.edits ++ [⟨e.flags, buf, offset⟩]))
      = Edit.apply ⟨e.flags, buf, offset⟩ (e.draft m).content := by
    rw [← List.append_assoc, replay_concat]
    rfl
  have hd : (e.write buf offset).draft m =
      { e.draft m with
        content := Edit.apply ⟨e.flags, buf, offset⟩ (e.draft m).content, wrote := true } := by
    simpa [Session.draft, Session.write] using hc
  have hf : (e.draft m).flags = e.flags := rfl
  rw [hd, Draft.write, Edit.apply, hf]
  split
  · cases (e.draft m).content.write (e.flags.landing (e.draft m).content offset) buf <;> rfl
  · rfl

/-- What is merged by a release is the version it leaves. -/
theorem map_merge (T : ℤ) (m : Merged) (e : Session) :
    (e.merge T m).map replay = (e.draft m).version T (versions m e.path) := by
  rw [Session.merge, Draft.version]
  cases (e.draft m).fate T <;> rfl

/-- **A client of the ledger agrees with one of the version store**: its sessions are the drafts,
each the copy of what is merged with the edits made. -/
structure Book.Agrees (m : Merged) (b : Book) (l : Client) : Prop where
  sessions : Table.Maps (Session.draft m) b.sessions l.drafts
  known : b.known = l.known
  present : b.present = l.present

theorem agrees_init : Book.init.Agrees m Client.init := ⟨.empty, rfl, rfl⟩

namespace Book.Agrees

theorem restarted (ha : b.Agrees m l) : b.restarted.Agrees m l.restarted :=
  ⟨.empty, ha.known, ha.present⟩

theorem enter (ha : b.Agrees m l) (p : Name) (v : Bool) : (b.enter p v).Agrees m (l.enter p v) :=
  ⟨ha.sessions, ha.known, by rw [Book.enter, Client.enter, ha.present]⟩

theorem learn (ha : b.Agrees m l) (p : Name) (v : Bool) : (b.learn p v).Agrees m (l.learn p v) :=
  ⟨ha.sessions, by rw [Book.learn, Client.learn, ha.known], ha.present⟩

theorem known_apply (ha : b.Agrees m l) (p : Name) : b.known p = l.known p := by rw [ha.known]

theorem present_apply (ha : b.Agrees m l) (p : Name) : b.present p = l.present p := by
  rw [ha.present]

/-- An operation on a session is one on its draft. -/
theorem drafts_get (ha : b.Agrees m l) (h : ℕ) :
    l.drafts.get h = (b.sessions.get h).map (Session.draft m) := (ha.sessions.get h).symm

/-- **One operation of one client**, as long as nobody looks at what was merged by it. -/
theorem step (ha : b.Agrees m l) (T : ℤ) (op : Op) :
    (b.step T m op).2.1.Agrees m (l.step T (versions m) op).2.1 ∧
      versions (b.step T m op).1 = (l.step T (versions m) op).1 ∧
      (b.step T m op).2.2 = (l.step T (versions m) op).2.2 := by
  cases op with
  | mknod path =>
    rw [Book.step, Client.step, ha.present_apply]
    split
    · exact ⟨ha, rfl, rfl⟩
    · exact ⟨ha.enter path true, rfl, rfl⟩
  | openFile path flags =>
    have he := ha.enter path true
    refine ⟨⟨?_, he.known, he.present⟩, rfl, congrArg Out.handle ha.sessions.next⟩
    rw [Book.step, Client.step, ← draft_opened path flags]
    exact ha.sessions.alloc _
  | read h size offset =>
    refine ⟨ha, rfl, ?_⟩
    simp only [Book.step, Client.step, onSession, Client.onDraft, ha.drafts_get h]
    cases b.sessions.get h <;> rfl
  | write h buf offset =>
    simp only [Book.step, Client.step, onSession, Client.onDraft, ha.drafts_get h]
    cases b.sessions.get h with
    | none => exact ⟨ha, rfl, rfl⟩
    | some e =>
      refine ⟨⟨?_, ha.known, ha.present⟩, rfl, rfl⟩
      dsimp only [Option.map_some]
      rw [← draft_write]
      exact ha.sessions.set h _
  | fgetattr h =>
    refine ⟨ha, rfl, ?_⟩
    simp only [Book.step, Client.step, onSession, Client.onDraft, ha.drafts_get h]
    cases b.sessions.get h <;> rfl
  | utimens path =>
    refine ⟨ha, rfl, ?_⟩
    rw [Book.step, Client.step, ha.present_apply]
  | unlink path =>
    rw [Book.step, Client.step, ha.present_apply, ha.known_apply]
    refine ⟨(ha.learn path false).enter path false, ?_, rfl⟩
    split
    · exact versions_update m path none
    · rfl
  | release h =>
    simp only [Book.step, Client.step, onSession, Client.onDraft, ha.drafts_get h]
    cases b.sessions.get h with
    | none => exact ⟨ha, rfl, rfl⟩
    | some e =>
      have hl := ha.learn e.path ((e.draft m).knows T (b.known e.path))
      dsimp only [Option.map_some]
      refine ⟨⟨ha.sessions.erase h, ?_, hl.present⟩, ?_, rfl⟩
      · rw [hl.known, ha.known_apply]
        rfl
      · rw [versions_update, map_merge]
        rfl
  | tick => exact ⟨ha, rfl, rfl⟩
  | dies => exact ⟨ha.restarted, rfl, rfl⟩
  | diesOpening path recreated => exact ⟨(ha.enter path recreated).restarted, rfl, rfl⟩
  | diesUnlinking path stage =>
    rw [Book.step, Client.step, ha.present_apply, ha.known_apply]
    refine ⟨((ha.learn _ _).enter _ _).restarted, ?_, rfl⟩
    split
    · exact versions_update m path none
    · rfl
  | diesReleasing h stage =>
    simp only [Book.step, Client.step, onSession, Client.onDraft, ha.drafts_get h]
    cases b.sessions.get h with
    | none => exact ⟨ha.restarted, rfl, rfl⟩
    | some e =>
      dsimp only [Option.map_some]
      refine ⟨?_, ?_, rfl⟩
      · rw [ha.known_apply]
        exact ((ha.learn _ _).enter _ _).restarted
      · split
        · rw [versions_update, map_merge]
          rfl
        · rfl

end Book.Agrees

/-! ## Who looks at a change -/

/-- The operation takes the version of `p` away, if the client knows of one. -/
def Unlinks (p : Name) (op : Op) : Prop := op = .unlink p ∨ ∃ s, op = .diesUnlinking p s

/-- **Nobody else looks at what the operation changes**: no session is open on a path that is
unlinked, and a session that is released with edits is alone on its path. -/
structure Alone (g : State ι) (x : ι × Op) : Prop where
  unlinks : ∀ p, Unlinks p x.2 → ∀ j k e, (g.book j).sessions.get k = some e → e.path ≠ p
  releases : ∀ h e, x.2.Releases h → (g.book x.1).sessions.get h = some e → e.edits ≠ [] →
    ∀ j k e', (g.book j).sessions.get k = some e' → e'.path = e.path → j = x.1 ∧ k = h

/-- **What an operation merges**: nothing, or it unlinks a path, or releases a session; the
sessions that stay open were open before. -/
theorem Book.merged_step (T : ℤ) (m : Merged) (b : Book) (op : Op) :
    (b.step T m op).1 = m ∨
    (∃ p, Unlinks p op ∧ (b.step T m op).1 = Function.update m p none ∧
      ∀ k e, (b.step T m op).2.1.sessions.get k = some e → b.sessions.get k = some e) ∨
    ∃ h e, op.Releases h ∧ b.sessions.get h = some e ∧
      (b.step T m op).1 = Function.update m e.path (e.merge T m) ∧
      ∀ k e', (b.step T m op).2.1.sessions.get k = some e' →
        k ≠ h ∧ b.sessions.get k = some e' := by
  have hdead : ∀ {P : Prop} {k : ℕ} {e : Session},
      (Table.empty : Table Session).get k = some e → P := fun h => absurd h (by simp)
  cases op with
  | mknod path =>
    rw [Book.step]
    split <;> exact Or.inl rfl
  | openFile | read | fgetattr | utimens | tick | dies | diesOpening => exact Or.inl rfl
  | write h buf offset =>
    rw [Book.step, onSession]
    split <;> exact Or.inl rfl
  | unlink path =>
    rw [Book.step]
    split
    · exact Or.inr (Or.inl ⟨path, Or.inl rfl, rfl, fun k e hk => hk⟩)
    · exact Or.inl rfl
  | release h =>
    rw [Book.step, onSession]
    split
    case h_1 => exact Or.inl rfl
    case h_2 e he =>
      exact Or.inr (Or.inr ⟨h, e, Or.inl rfl, he, rfl, fun k e' hk => Table.get_erase_eq_some hk⟩)
  | diesUnlinking path stage =>
    rw [Book.step]
    dsimp only
    split
    · exact Or.inr (Or.inl ⟨path, Or.inr ⟨stage, rfl⟩, rfl, fun k e hk => hdead hk⟩)
    · exact Or.inl rfl
  | diesReleasing h stage =>
    rw [Book.step, onSession]
    split
    case h_1 => exact Or.inl rfl
    case h_2 e he =>
      dsimp only
      split
      · exact Or.inr (Or.inr ⟨h, e, Or.inr ⟨stage, rfl⟩, he, rfl, fun k e' hk => hdead hk⟩)
      · exact Or.inl rfl

/-- A session sees no change that leaves its version the same content. -/
theorem draft_of_replay {m' : Merged}
    (hr : replay ((m' e.path).getD []) = replay ((m e.path).getD [])) :
    e.draft m' = e.draft m := by
  rw [Session.draft, Session.draft, replay_append, replay_append, hr]

theorem draft_update_of_ne {o : Option (List Edit)} (hp : e.path ≠ p) :
    e.draft (Function.update m p o) = e.draft m :=
  draft_of_replay (by rw [Function.update_of_ne hp])

/-- The fate of a draft, by what became of it. -/
theorem fate_cases (T : ℤ) (d : Draft) :
    d.wrote = false ∧ d.fate T = .returned ∨ T < d.content.size ∧ d.fate T = .published ∨
      d.wrote = true ∧ d.content.size ≤ T ∧ d.fate T = .withdrawn ∨
        d.content.size ≤ T ∧ d.fate T = .kept := by
  unfold Draft.fate
  by_cases hc : d.fetched ∧ ¬ d.wrote
  · exact Or.inl ⟨by simpa using hc.2, if_pos hc⟩
  · rw [if_neg hc]
    by_cases hT : T < d.content.size
    · exact Or.inr (Or.inl ⟨hT, if_pos hT⟩)
    · rw [if_neg hT]
      cases hx : d.fetched with
      | false => exact Or.inr (Or.inr (Or.inr ⟨not_lt.1 hT, rfl⟩))
      | true => exact Or.inr (Or.inr (Or.inl ⟨by simpa [hx] using hc, not_lt.1 hT, rfl⟩))

/-- The release of a session without edits leaves its version the same content. -/
theorem replay_merge_of_nil (T : ℤ) (m : Merged) (he : e.edits = []) :
    replay ((e.merge T m).getD []) = replay ((m e.path).getD []) := by
  have hw : (e.draft m).wrote = false := by simp [Session.draft, he]
  rw [Session.merge]
  rcases fate_cases T (e.draft m) with ⟨-, hf⟩ | ⟨-, hf⟩ | ⟨hw', -⟩ | ⟨-, hf⟩
  · rw [hf]
  · rw [hf, he]
    simp
  · exact absurd (hw.symm.trans hw') (by simp)
  · rw [hf]

variable [DecidableEq ι] {Ts : ι → ℤ} {g : State ι} {s : VersionStore.State ι} {x : ι × Op}

/-- **No session that stays open sees the change.** -/
theorem draft_step (hal : Alone g x) {j : ι} {k : ℕ}
    (he : ((step Ts g x).1.book j).sessions.get k = some e) :
    e.draft (step Ts g x).1.merged = e.draft g.merged := by
  obtain ⟨i, op⟩ := x
  have hbook : ∀ {P : ℕ → Session → Prop},
      (∀ k e, ((g.book i).step (Ts i) g.merged op).2.1.sessions.get k = some e → P k e) →
      ((step Ts g (i, op)).1.book j).sessions.get k = some e →
        j ≠ i ∧ (g.book j).sessions.get k = some e ∨ j = i ∧ P k e := by
    intro P hP hk
    by_cases hj : j = i
    · subst hj
      have hself : (step Ts g (j, op)).1.book j = ((g.book j).step (Ts j) g.merged op).2.1 :=
        Function.update_self ..
      exact Or.inr ⟨rfl, hP k e (hself ▸ hk)⟩
    · have hother : (step Ts g (i, op)).1.book j = g.book j := Function.update_of_ne hj ..
      exact Or.inl ⟨hj, hother ▸ hk⟩
  have hmerged : (step Ts g (i, op)).1.merged = ((g.book i).step (Ts i) g.merged op).1 := rfl
  rw [hmerged]
  rcases Book.merged_step (Ts i) g.merged (g.book i) op with
    hm | ⟨p, hop, hm, hold⟩ | ⟨h, e₀, hop, hh, hm, hold⟩
  · rw [hm]
  · rw [hm]
    refine draft_update_of_ne ?_
    rcases hbook hold he with ⟨-, hk⟩ | ⟨rfl, hk⟩
    · exact hal.unlinks p hop j k e hk
    · exact hal.unlinks p hop j k e hk
  · rw [hm]
    by_cases hp : e.path = e₀.path
    · refine draft_of_replay ?_
      have hnil : e₀.edits = [] := by
        by_contra hne
        rcases hbook hold he with ⟨hj, hk⟩ | ⟨rfl, hkh, hk⟩
        · exact hj (hal.releases h e₀ hop hh hne j k e hk hp).1
        · exact hkh (hal.releases h e₀ hop hh hne j k e hk hp).2
      rw [hp, Function.update_self]
      exact replay_merge_of_nil (Ts i) g.merged hnil
    · exact draft_update_of_ne hp

/-! ## The refinement -/

/-- **The relation of the refinement.** -/
structure Agrees (g : State ι) (s : VersionStore.State ι) : Prop where
  book : ∀ i, (g.book i).Agrees g.merged (s.client i)
  stored : versions g.merged = s.stored

omit [DecidableEq ι] in
theorem agrees_blank : Agrees (init : State ι) VersionStore.init where
  book _ := agrees_init
  stored := rfl

theorem Book.Agrees.reread {m' : Merged} (ha : b.Agrees m l)
    (hm : ∀ k e, b.sessions.get k = some e → e.draft m' = e.draft m) : b.Agrees m' l :=
  ⟨ha.sessions.reread hm, ha.known, ha.present⟩

/-- **One operation of one client**: the relation is kept, and the answers are the same. -/
theorem agrees_step (ha : Agrees g s) (hal : Alone g x) :
    Agrees (step Ts g x).1 (VersionStore.step Ts s x).1 ∧
      (step Ts g x).2 = (VersionStore.step Ts s x).2 := by
  obtain ⟨i, op⟩ := x
  obtain ⟨h1, h2, h3⟩ := (ha.book i).step (Ts i) op
  rw [ha.stored] at h1 h2 h3
  refine ⟨⟨fun j => ?_, h2⟩, h3⟩
  refine Book.Agrees.reread (m := g.merged) ?_ fun k e he => draft_step hal he
  by_cases hj : j = i
  · subst hj
    have hbook : (step Ts g (j, op)).1.book j = _ := Function.update_self ..
    have hclient : (VersionStore.step Ts s (j, op)).1.client j = _ := Function.update_self ..
    rw [hbook, hclient]
    exact h1
  · have hbook : (step Ts g (i, op)).1.book j = g.book j := Function.update_of_ne hj ..
    have hclient : (VersionStore.step Ts s (i, op)).1.client j = s.client j :=
      Function.update_of_ne hj ..
    rw [hbook, hclient]
    exact ha.book j

/-- **The sessions that change a version have it to themselves**, in the version store: no draft is
open of a path that is unlinked, and a draft that was written to is released as the only one of its
path. -/
structure Exclusive (s : VersionStore.State ι) (x : ι × Op) : Prop where
  unlinks : ∀ p, Unlinks p x.2 → ∀ j k d, (s.client j).drafts.get k = some d → d.path ≠ p
  releases : ∀ h d, x.2.Releases h → (s.client x.1).drafts.get h = some d → d.wrote = true →
    ∀ j k d', (s.client j).drafts.get k = some d' → d'.path = d.path → j = x.1 ∧ k = h

omit [DecidableEq ι] in
theorem Agrees.alone (ha : Agrees g s) (hx : Exclusive s x) : Alone g x := by
  have hdraft : ∀ {j k e}, (g.book j).sessions.get k = some e →
      (s.client j).drafts.get k = some (e.draft g.merged) := by
    intro j k e he
    rw [(ha.book j).drafts_get, he, Option.map_some]
  refine ⟨fun p hp j k e he => hx.unlinks p hp j k _ (hdraft he),
    fun h e hop he hne j k e' he' hpath => ?_⟩
  have hwrote : (e.draft g.merged).wrote = true := by simpa [Session.draft] using hne
  exact hx.releases h _ hop (hdraft he) hwrote j k _ (hdraft he') hpath

/-- Whether an operation may change a version. -/
def changes : Op → Bool
  | .unlink _ | .diesUnlinking _ _ | .release _ | .diesReleasing _ _ => true
  | _ => false

omit [DecidableEq ι] in
theorem exclusive_of_quiet (hq : changes x.2 = false) : Exclusive s x := by
  refine ⟨fun p hp => ?_, fun h d hop => ?_⟩
  · rcases hp with he | ⟨_, he⟩ <;> simp [he, changes] at hq
  · rcases hop with he | ⟨_, he⟩ <;> simp [he, changes] at hq

omit [DecidableEq ι] in
/-- The release of the only draft there is. -/
theorem exclusive_of_sole {i : ι} {h : ℕ}
    (hs : ∀ j k d, (s.client j).drafts.get k = some d → j = i ∧ k = h) :
    Exclusive s (i, .release h) := by
  refine ⟨fun p hp => ?_, fun h' d hop hd _ j k d' hd' _ => ?_⟩
  · rcases hp with he | ⟨_, he⟩ <;> simp at he
  · obtain ⟨-, rfl⟩ := hs i h' d hd
    exact hs j k d' hd'

/-- **Any operations of any clients**, as long as those that change a version are exclusive. -/
theorem agrees_run (ha : Agrees g s) {xs : List (ι × Op)}
    (hl : Machine.Legal (VersionStore.step Ts) Exclusive s xs) :
    Agrees (Machine.run (step Ts) g xs).1 (Machine.run (VersionStore.step Ts) s xs).1 ∧
      (Machine.run (step Ts) g xs).2 = (Machine.run (VersionStore.step Ts) s xs).2 := by
  induction xs generalizing g s with
  | nil => exact ⟨ha, rfl⟩
  | cons x xs ih =>
    obtain ⟨ha', hx⟩ := agrees_step ha (ha.alone hl.1)
    obtain ⟨h1, h2⟩ := ih ha' hl.2
    exact ⟨h1, congrArg₂ List.cons hx h2⟩

/-! ## What was released -/

/-- The edits of the sessions released on `p` after one more operation: a release adds those of its
session, and an unlink that takes the version away starts anew. -/
def State.after (g : State ι) (p : Name) (as : List Edit) (x : ι × Op) : List Edit :=
  let add (h : ℕ) := (g.book x.1).onSession h as fun e =>
    if e.path = p then as ++ e.edits else as
  match x.2 with
  | .release h => add h
  | .diesReleasing h stage => if stage.reached .asked then add h else as
  | .unlink path => if path = p ∧ (g.book x.1).known path then [] else as
  | .diesUnlinking path stage =>
    if path = p ∧ stage.reached .asked ∧ (g.book x.1).known path then [] else as
  | _ => as

/-- **The edits of all sessions released on `p`** in a run since its version was last unlinked, in
the order of their releases, after the edits `as`. -/
def released (T : ι → ℤ) (p : Name) (g : State ι) (as : List Edit) : List (ι × Op) → List Edit
  | [] => as
  | x :: xs => released T p (step T g x).1 (g.after p as x) xs

/-- **A release at threshold 0 merges its edits**, whichever way it goes. -/
theorem replay_merge (m : Merged) (e : Session) :
    replay ((e.merge 0 m).getD []) = replay ((m e.path).getD [] ++ e.edits) := by
  have hcontent : (e.draft m).content = replay ((m e.path).getD [] ++ e.edits) := rfl
  have hsize : (replay ((m e.path).getD [])).size ≤ (e.draft m).content.size := by
    rw [hcontent, replay_append]
    exact size_le_edited e.edits _
  rw [Session.merge, ← hcontent]
  rcases fate_cases 0 (e.draft m) with ⟨hw, hf⟩ | ⟨-, hf⟩ | ⟨-, hT, hf⟩ | ⟨hT, hf⟩
  · have hnil : e.edits = [] := by simpa [Session.draft] using hw
    rw [hf, hcontent, hnil, List.append_nil]
  · rw [hf]
    rfl
  -- a file that is not longer than nothing is empty, and so is what it was made of
  · have hempty : (e.draft m).content = Content.empty := Content.size_eq_zero_iff.1 (by omega)
    rw [hf, hempty]
    rfl
  · have hempty : (e.draft m).content = Content.empty := Content.size_eq_zero_iff.1 (by omega)
    have hm : replay ((m e.path).getD []) = Content.empty := Content.size_eq_zero_iff.1 (by omega)
    rw [hf, hempty]
    exact hm

/-- One operation of one client. -/
theorem replay_step (hT : ∀ i, Ts i = 0) {as : List Edit}
    (hr : replay ((g.merged p).getD []) = replay as) (x : ι × Op) :
    replay (((step Ts g x).1.merged p).getD []) = replay (g.after p as x) := by
  obtain ⟨i, op⟩ := x
  have hmerged : (step Ts g (i, op)).1.merged = ((g.book i).step (Ts i) g.merged op).1 := rfl
  rw [hmerged, hT i]
  have hrelease : ∀ e : Session,
      replay ((Function.update g.merged e.path (e.merge 0 g.merged) p).getD [])
        = replay (if e.path = p then as ++ e.edits else as) := by
    intro e
    by_cases hp : e.path = p
    · subst hp
      rw [Function.update_self, replay_merge, if_pos rfl, replay_append, replay_append, hr]
    · rw [Function.update_of_ne fun h => hp h.symm, if_neg hp, hr]
  have hunlink : ∀ (q : Name) (b : Prop) [Decidable b],
      replay (((if b then Function.update g.merged q none else g.merged) p).getD [])
        = replay (if q = p ∧ b then [] else as) := by
    intro q b _
    by_cases hb : b <;> by_cases hq : q = p
    · simp [hb, hq]
    · simp [hb, hq, Function.update_of_ne fun h => hq h.symm, hr]
    · simp [hb, hr]
    · simp [hb, hr]
  cases op with
  | mknod path =>
    rw [Book.step]
    split <;> exact hr
  | openFile | read | fgetattr | utimens | tick | dies | diesOpening => exact hr
  | write h buf offset =>
    rw [Book.step, Book.onSession]
    split <;> exact hr
  | unlink path => exact hunlink path _
  | diesUnlinking path stage => exact hunlink path _
  | release h =>
    simp only [Book.step, State.after, Book.onSession]
    cases (g.book i).sessions.get h with
    | none => exact hr
    | some e => exact hrelease e
  | diesReleasing h stage =>
    simp only [Book.step, State.after, Book.onSession]
    cases (g.book i).sessions.get h with
    | none =>
      dsimp only
      rw [ite_self]
      exact hr
    | some e =>
      dsimp only
      split
      · exact hrelease e
      · exact hr

/-- **At threshold 0 a version is everything that was released.** -/
theorem replay_released (hT : ∀ i, Ts i = 0) {as : List Edit}
    (hr : replay ((g.merged p).getD []) = replay as) (xs : List (ι × Op)) :
    replay (((Machine.run (step Ts) g xs).1.merged p).getD [])
      = replay (released Ts p g as xs) := by
  induction xs generalizing g as with
  | nil => exact hr
  | cons x xs ih => exact ih (replay_step hT hr x)

end Ledger
