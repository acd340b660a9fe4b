import CloudFS.Machinery.Machine
import CloudFS.Machinery.Posix.Fs
import CloudFS.Machinery.Table
import Mathlib.Data.List.Induction

/-!
# Versions/Store — the store many clients share

What `cloudfs` is for, when many clients work on one bucket and any of them may die: paths with
published versions.  An open takes a copy of the version that is published, reads and writes work
on the copy, and a release publishes it whole, withdraws the version, or leaves things as they are.
A client that dies loses its copies and nothing else.

Two facts are each client's own: which paths it has an entry for (`present`), and of which it knows
that a version is published (`known`) — an unlink withdraws only those.
-/

namespace VersionStore

open Posix

/-- A client's open copy of a version. -/
structure Draft where
  path : Name
  flags : OpenFlags
  content : Content
  fetched : Bool
  wrote : Bool

/-- What one client has. -/
structure Client where
  drafts : Table Draft
  known : Name → Bool
  present : Name → Bool

/-- The published versions, and the clients. -/
structure State (ι : Type) where
  stored : Name → Option Content
  client : ι → Client

/-- How far an operation of a process that died had come: the cloud was not asked, the cloud had
done what it was asked, that was recorded on the client, the entry of the path was gone, or all was
done. -/
inductive Stage
  | start | asked | recorded | unlinked | ended
  deriving DecidableEq

/-- The stages in their order. -/
def Stage.rank : Stage → ℕ
  | .start => 0
  | .asked => 1
  | .recorded => 2
  | .unlinked => 3
  | .ended => 4

/-- Whether an operation that died at `s` had come to `t`. -/
def Stage.reached (s t : Stage) : Bool := t.rank ≤ s.rank

/-- What a client can be asked, and how it can die. -/
inductive Op
  | mknod (path : Name)
  | openFile (path : Name) (flags : OpenFlags)
  | read (h size offset : ℕ)
  | write (h : ℕ) (buf : Bytes) (offset : ℕ)
  | fgetattr (h : ℕ)
  | utimens (path : Name)
  | unlink (path : Name)
  | release (h : ℕ)
  | tick
  | dies
  | diesOpening (path : Name) (recreated : Bool)
  | diesUnlinking (path : Name) (stage : Stage)
  | diesReleasing (h : ℕ) (stage : Stage)

/-- What it answers. -/
inductive Out
  | done
  | handle (h : ℕ)
  | data (b : Bytes)
  | count (n : ℕ)
  | size (n : ℕ)
  | refused
  deriving DecidableEq

/-! ## Drafts -/

namespace Draft

/-- The draft after a write, and the answer. -/
def write (d : Draft) (buf : Bytes) (offset : ℕ) : Draft × Out :=
  let marked := { d with wrote := true }
  if d.flags.writable then
    match d.content.write (d.flags.landing d.content offset) buf with
    | some c => ({ marked with content := c }, .count buf.length)
    | none => (marked, .refused)
  else (marked, .refused)

/-- What a read is answered. -/
def read (d : Draft) (size offset : ℕ) : Out :=
  if d.flags.readable then .data (d.content.bytes.slice offset size) else .refused

/-- What a release does to the published version. -/
inductive Fate
  | returned | published | withdrawn | kept
  deriving DecidableEq

/-- A copy nobody wrote to is returned; any other draft is published when it is longer than the
client's threshold.  A shorter one takes the place of its version on the client. -/
def fate (d : Draft) (T : ℤ) : Fate :=
  if d.fetched ∧ ¬ d.wrote then .returned
  else if T < d.content.size then .published
  else if d.fetched then .withdrawn
  else .kept

/-- The version published after a release of the draft. -/
def version (d : Draft) (T : ℤ) (stored : Option Content) : Option Content :=
  match d.fate T with
  | .returned => stored
  | .published => some d.content
  | .withdrawn => none
  | .kept => stored

/-- Whether a release that died at this stage left the path without an entry: it takes the copy off
the path before it puts a link there. -/
def uncovered (d : Draft) (T : ℤ) (stage : Stage) : Bool :=
  stage = .unlinked && (d.fate T = .returned || d.fate T = .published)

/-- Whether the client knows of a version after it released the draft. -/
def knows (d : Draft) (T : ℤ) (known : Bool) : Bool :=
  match d.fate T with
  | .returned => known
  | .published => true
  | .withdrawn => false
  | .kept => known

end Draft

/-! ## Steps -/

namespace Client

/-- A client that has nothing. -/
def init : Client := ⟨Table.empty, fun _ => false, fun _ => false⟩

/-- The client whose process was started again. -/
def restarted (l : Client) : Client := { l with drafts := Table.empty }

/-- No draft of `path` is open. -/
def Idle (l : Client) (path : Name) : Prop := ∀ h d, l.drafts.get h = some d → d.path ≠ path

instance (l : Client) (path : Name) : Decidable (l.Idle path) :=
  decidable_of_iff (∀ h < l.drafts.next, ∀ d ∈ l.drafts.get h, d.path ≠ path)
    ⟨fun hi h d hd => hi h (Table.lt_next_of_get hd) d hd, fun hi h _ d hd => hi h d hd⟩

/-- The entry of `path` set. -/
def enter (l : Client) (path : Name) (b : Bool) : Client :=
  { l with present := Function.update l.present path b }

/-- What is known of `path` set. -/
def learn (l : Client) (path : Name) (b : Bool) : Client :=
  { l with known := Function.update l.known path b }

/-- An operation on an open draft. -/
def onDraft {α : Type} (l : Client) (h : ℕ) (refused : α) (op : Draft → α) : α :=
  match l.drafts.get h with
  | none => refused
  | some d => op d

end Client

/-- One version replaced. -/
def publish (stored : Name → Option Content) (path : Name) (c : Option Content) :
    Name → Option Content := Function.update stored path c

/-- One operation of a client of threshold `T`: the versions, the client and the answer. -/
def Client.step (T : ℤ) (stored : Name → Option Content) (l : Client) :
    Op → (Name → Option Content) × Client × Out
  | .mknod path =>
    if l.present path then (stored, l, .refused) else (stored, l.enter path true, .done)
  | .openFile path flags =>
    (stored,
      { l.enter path true with
        drafts := l.drafts.alloc
          ⟨path, flags, (stored path).getD Content.empty, (stored path).isSome, false⟩ },
      .handle l.drafts.next)
  | .read h size offset =>
    (stored, l, l.onDraft h .refused fun d => d.read size offset)
  | .write h buf offset =>
    l.onDraft h (stored, l, .refused) fun d =>
      (stored, { l with drafts := l.drafts.set h (d.write buf offset).1 }, (d.write buf offset).2)
  | .fgetattr h => (stored, l, l.onDraft h .refused fun d => .size d.content.size)
  | .utimens path => (stored, l, if l.present path then .done else .refused)
  | .unlink path =>
    (if l.known path then publish stored path none else stored,
      (l.learn path false).enter path false, if l.present path then .done else .refused)
  | .release h =>
    l.onDraft h (stored, l, .refused) fun d =>
      (publish stored d.path (d.version T (stored d.path)),
        { l.learn d.path (d.knows T (l.known d.path)) with drafts := l.drafts.erase h }, .done)
  | .tick => (stored, l, .done)
  | .dies => (stored, l.restarted, .done)
  | .diesOpening path recreated => (stored, (l.enter path recreated).restarted, .done)
  | .diesUnlinking path stage =>
    (if stage.reached .asked ∧ l.known path then publish stored path none else stored,
      ((l.learn path (l.known path && !stage.reached .recorded)).enter path
        (l.present path && !stage.reached .unlinked)).restarted, .done)
  | .diesReleasing h stage =>
    l.onDraft h (stored, l.restarted, .done) fun d =>
      (if stage.reached .asked then publish stored d.path (d.version T (stored d.path)) else stored,
        ((l.learn d.path (if stage.reached .recorded then d.knows T (l.known d.path)
          else l.known d.path)).enter d.path (!d.uncovered T stage)).restarted, .done)

/-- One operation of one client. -/
def step {ι : Type} [DecidableEq ι] (T : ι → ℤ) (s : State ι) (x : ι × Op) : State ι × Out :=
  let r := (s.client x.1).step (T x.1) s.stored x.2
  (⟨r.1, Function.update s.client x.1 r.2.1⟩, r.2.2)

/-- Nothing published and nobody has anything. -/
def init {ι : Type} : State ι := ⟨fun _ => none, fun _ => Client.init⟩

/-! ## Legal operations -/

/-- The operations allowed to a client: on paths that satisfy `proper`, opens and unlinks while it
has no draft of the path open, and operations on drafts that are open.  What other clients do at
the same time does not matter. -/
def Client.Ok (proper : Name → Prop) (l : Client) : Op → Prop
  | .mknod path => proper path
  | .openFile path _ => proper path ∧ l.Idle path
  | .read h _ _ => (l.drafts.get h).isSome
  | .write h _ _ => (l.drafts.get h).isSome
  | .fgetattr h => (l.drafts.get h).isSome
  | .utimens path => proper path
  | .unlink path => proper path ∧ l.Idle path
  | .release h => (l.drafts.get h).isSome
  | .tick => True
  | .dies => True
  | .diesOpening path _ => proper path ∧ l.Idle path
  | .diesUnlinking path _ => proper path ∧ l.Idle path
  | .diesReleasing h _ => (l.drafts.get h).isSome

/-- The operations allowed to any client. -/
def Ok {ι : Type} (proper : ι → Name → Prop) (s : State ι) (x : ι × Op) : Prop :=
  (s.client x.1).Ok (proper x.1) x.2

/-! ## Where a version comes from -/

variable {ι : Type} {T : ℤ} {stored : Name → Option Content} {l : Client} {path : Name}
  {c : Content} {h : ℕ} {d : Draft}

/-- The operation ends the draft `h` with a release, whether or not its process survives it. -/
def Op.Releases (h : ℕ) (op : Op) : Prop := op = .release h ∨ ∃ s, op = .diesReleasing h s

/-- A release leaves the version there was or the draft. -/
theorem Draft.version_eq_some {o : Option Content} (hv : d.version T o = some c) :
    o = some c ∨ d.content = c := by
  rw [Draft.version] at hv
  split at hv
  · exact Or.inl hv
  · exact Or.inr (Option.some.inj hv)
  · exact absurd hv (by simp)
  · exact Or.inl hv

/-- A version that is published after one version was replaced was there, or is the new one. -/
theorem publish_eq_some {q : Name} {o : Option Content} (hp : publish stored q o path = some c) :
    stored path = some c ∨ q = path ∧ o = some c := by
  by_cases hq : path = q
  · subst hq
    rw [publish, Function.update_self] at hp
    exact Or.inr ⟨rfl, hp⟩
  · rw [publish, Function.update_of_ne hq] at hp
    exact Or.inl hp

/-- **One operation publishes nothing but a draft it releases.** -/
theorem Client.stored_step {op : Op} (hp : (l.step T stored op).1 path = some c) :
    stored path = some c ∨
      ∃ h d, op.Releases h ∧ l.drafts.get h = some d ∧ d.path = path ∧ d.content = c := by
  have hwithdraw : ∀ {q : Name} {b : Prop} [Decidable b],
      (if b then publish stored q none else stored) path = some c → stored path = some c := by
    intro q b _ hb
    split at hb
    · exact (publish_eq_some hb).elim id fun h => absurd h.2 (by simp)
    · exact hb
  have hrelease : ∀ {h : ℕ} {d : Draft}, l.drafts.get h = some d →
      publish stored d.path (d.version T (stored d.path)) path = some c →
        stored path = some c ∨ l.drafts.get h = some d ∧ d.path = path ∧ d.content = c := by
    intro h d hd hb
    rcases publish_eq_some hb with hs | ⟨rfl, hv⟩
    · exact Or.inl hs
    · exact (Draft.version_eq_some hv).imp id fun hc => ⟨hd, rfl, hc⟩
  cases op with
  | mknod path =>
    rw [step] at hp
    split at hp <;> exact Or.inl hp
  | openFile | read | fgetattr | utimens | tick | dies | diesOpening => exact Or.inl hp
  | write h buf offset =>
    rw [step, onDraft] at hp
    split at hp <;> exact Or.inl hp
  | unlink q => exact Or.inl (hwithdraw hp)
  | diesUnlinking q s => exact Or.inl (hwithdraw hp)
  | release h =>
    rw [step, onDraft] at hp
    split at hp
    case h_1 => exact Or.inl hp
    case h_2 d hd => exact (hrelease hd hp).imp id fun hr => ⟨h, d, Or.inl rfl, hr⟩
  | diesReleasing h s =>
    rw [step, onDraft] at hp
    split at hp
    case h_1 => exact Or.inl hp
    case h_2 d hd =>
      dsimp only at hp
      split at hp
      · exact (hrelease hd hp).imp id fun hr => ⟨h, d, Or.inr ⟨s, rfl⟩, hr⟩
      · exact Or.inl hp

variable [DecidableEq ι] {Ts : ι → ℤ}

/-- **Every published version was released**: it is the whole of a draft some client had open when
it released it. -/
theorem stored_released {ops : List (ι × Op)}
    (hp : (Machine.run (step Ts) init ops).1.stored path = some c) :
    ∃ ops₁ i op ops₂ h d, ops = ops₁ ++ (i, op) :: ops₂ ∧ op.Releases h ∧
      ((Machine.run (step Ts) init ops₁).1.client i).drafts.get h = some d ∧ d.path = path ∧
        d.content = c := by
  induction ops using List.reverseRecOn with
  | nil => exact absurd hp (by simp [init, Machine.run])
  | append_singleton ops x ih =>
    rw [Machine.run_concat] at hp
    rcases Client.stored_step hp with hs | ⟨h, d, hop, hd, hpath, hc⟩
    · obtain ⟨ops₁, i, op, ops₂, h, d, rfl, hrest⟩ := ih hs
      exact ⟨ops₁, i, op, ops₂ ++ [x], h, d, by simp, hrest⟩
    · exact ⟨ops, x.1, x.2, [], h, d, rfl, hop, hd, hpath, hc⟩

/-! ## What a client reads -/

/-- The operation ends the draft `h`: it releases it, or the client dies. -/
def Op.closes (h : ℕ) : Op → Bool
  | .release k => k = h
  | .dies => true
  | .diesOpening _ _ => true
  | .diesUnlinking _ _ => true
  | .diesReleasing _ _ => true
  | _ => false

/-- The draft `h` of client `i` after an operation of any client. -/
def Draft.after (i : ι) (h : ℕ) (d : Draft) (x : ι × Op) : Draft :=
  match x.2 with
  | .write k buf offset => if x.1 = i ∧ k = h then (d.write buf offset).1 else d
  | _ => d

/-- **One operation of any client** leaves a draft as it was, but for its client's own writes. -/
theorem drafts_step {s : State ι} {i : ι} (hd : (s.client i).drafts.get h = some d) {x : ι × Op}
    (hx : x.1 = i → x.2.closes h = false) :
    ((step Ts s x).1.client i).drafts.get h = some (d.after i h x) := by
  obtain ⟨j, op⟩ := x
  by_cases hj : i = j
  · subst hj
    have hclient : (step Ts s (i, op)).1.client i = ((s.client i).step (Ts i) s.stored op).2.1 :=
      Function.update_self ..
    have hop : op.closes h = false := hx rfl
    rw [hclient]
    cases op with
    | mknod path =>
      rw [Client.step]
      split <;> exact hd
    | openFile path flags => exact (Table.get_alloc_of_ne (Table.lt_next_of_get hd).ne).trans hd
    | read | fgetattr | utimens | unlink | tick => exact hd
    | write k buf offset =>
      by_cases hk : k = h
      · subst hk
        rw [Client.step, Client.onDraft, hd, Draft.after]
        simp only [and_self, if_true]
        exact Table.get_set_self hd
      · have hafter : d.after i h (i, .write k buf offset) = d := if_neg fun he => hk he.2
        rw [hafter, Client.step, Client.onDraft]
        split
        · exact hd
        · exact (Table.get_set_of_ne fun e => hk e.symm).trans hd
    | release k =>
      have hk : h ≠ k := fun e => by simp [Op.closes, e] at hop
      rw [Client.step, Client.onDraft]
      split
      · exact hd
      · exact (Table.get_erase_of_ne hk).trans hd
    | dies | diesOpening | diesUnlinking | diesReleasing => exact absurd hop (by simp [Op.closes])
  · have hclient : (step Ts s (j, op)).1.client i = s.client i := Function.update_of_ne hj ..
    have hafter : d.after i h (j, op) = d := by
      cases op with
      | write => exact if_neg fun he => hj he.1.symm
      | _ => rfl
    rw [hclient, hafter]
    exact hd

/-- Any operations of any clients. -/
theorem drafts_run {s : State ι} {i : ι} (hd : (s.client i).drafts.get h = some d)
    {xs : List (ι × Op)} (hx : ∀ x ∈ xs, x.1 = i → x.2.closes h = false) :
    ((Machine.run (step Ts) s xs).1.client i).drafts.get h
      = some (xs.foldl (Draft.after i h) d) := by
  induction xs generalizing s d with
  | nil => exact hd
  | cons x xs ih =>
    exact ih (drafts_step hd (hx x List.mem_cons_self))
      fun y hy => hx y (List.mem_cons_of_mem _ hy)

/-- **A draft is the version it was opened on and its client's own writes**, whatever any client
does in between. -/
theorem drafts_opened (Ts : ι → ℤ) {s : State ι} {i : ι} (path : Name) (flags : OpenFlags)
    {xs : List (ι × Op)}
    (hx : ∀ x ∈ xs, x.1 = i → x.2.closes (s.client i).drafts.next = false) :
    let h := (s.client i).drafts.next
    let d : Draft :=
      ⟨path, flags, (s.stored path).getD Content.empty, (s.stored path).isSome, false⟩
    ((Machine.run (step Ts) s ((i, .openFile path flags) :: xs)).1.client i).drafts.get h
      = some (xs.foldl (Draft.after i h) d) := by
  intro h d
  have hd : ((step Ts s (i, .openFile path flags)).1.client i).drafts.get h = some d := by
    have hclient : (step Ts s (i, .openFile path flags)).1.client i
        = ((s.client i).step (Ts i) s.stored (.openFile path flags)).2.1 :=
      Function.update_self ..
    rw [hclient]
    exact Table.get_alloc_next ..
  exact drafts_run hd hx

end VersionStore
