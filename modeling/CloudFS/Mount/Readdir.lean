import CloudFS.Machinery.Machine
import CloudFS.Machinery.Posix.Fs
import Mathlib.Data.Int.Notation

/-!
# Mount/Readdir — listing a directory

`cloudfs_opendir` leaves a directory stream in the handle, and `cloudfs_readdir` reads it to its end
whatever offset it is asked for.  A first read at the end of the stream is taken for a failure, and
nothing rewinds the stream.  So every listing on a handle is complete exactly when there is at most
one, of a directory with an entry, or the directory has nothing to list and `errno` is clear at the
end of the stream (`listings_complete_iff`).
-/

namespace CloudFS

open Posix

/-- The entry that is not listed. -/
def lostAndFound : Name := "lost+found".toList

/-- A directory stream: the entries that were not read yet. -/
abbrev DirStream := List Name

/-- `cloudfs_opendir`: the stream over the entries of the directory. -/
def cloudfsOpendir (fault : Fault) (entries : List Name) : Except Errno DirStream :=
  disturb fault (.ok entries)

/-- The loop of `cloudfs_readdir` over what is left of the stream: what is returned and passed to
the filler.  An entry the filler refuses ends it. -/
def fillEntries (filler : Name → Bool) (errno : ℤ) : DirStream → DirStream × ℤ × List Name
  | [] => ([], 0, [])
  | de :: dp =>
    if de = lostAndFound then fillEntries filler errno dp
    else if filler de then
      let r := fillEntries filler errno dp
      (r.1, r.2.1, de :: r.2.2)
    else (dp, -errno, [])

/-- `cloudfs_readdir`: the stream after the call, what it returns, and the entries it passes to the
filler. -/
def cloudfsReaddir (filler : Name → Bool) (dp : DirStream) (errno : ℤ) :
    DirStream × ℤ × List Name :=
  match dp with
  | [] => ([], -errno, [])
  | de :: dp => fillEntries filler errno (de :: dp)

/-- What a listing of these entries consists of. -/
def listed (entries : List Name) : List Name := entries.filter (· ≠ lostAndFound)

/-- **Every listing on one handle is complete**: each call returns 0 and passes every entry but
`lost+found` to the filler, in order.  The calls find `errnos` in `errno`. -/
def ListingsComplete (entries : List Name) (errnos : List ℤ) : Prop :=
  ∃ dp, cloudfsOpendir none entries = .ok dp ∧
    ∀ r ∈ (Machine.run (cloudfsReaddir fun _ => true) dp errnos).2, r = (0, listed entries)

variable {entries : List Name} {errnos : List ℤ}

/-- A filler that accepts every entry is passed all that are left. -/
theorem fillEntries_eq (errno : ℤ) (dp : DirStream) :
    fillEntries (fun _ => true) errno dp = ([], 0, listed dp) := by
  induction dp with
  | nil => rfl
  | cons de dp ih =>
    rw [fillEntries, ih]
    by_cases h : de = lostAndFound
    · simp [h, listed]
    · simp [h, listed]

/-- **The first listing of a directory with an entry is complete**, and leaves the stream at its
end. -/
theorem cloudfsReaddir_cons (errno : ℤ) (de : Name) (dp : DirStream) :
    cloudfsReaddir (fun _ => true) (de :: dp) errno = ([], 0, listed (de :: dp)) :=
  fillEntries_eq errno (de :: dp)

/-- At its end the stream stays, and each call returns what it finds in `errno`. -/
theorem run_readdir_nil (errnos : List ℤ) :
    (Machine.run (cloudfsReaddir fun _ => true) [] errnos).2 = errnos.map fun e => (-e, []) := by
  induction errnos with
  | nil => rfl
  | cons e es ih => exact congrArg _ ih

theorem listed_eq_nil_iff : listed entries = [] ↔ ∀ x ∈ entries, x = lostAndFound := by
  simp [listed, List.filter_eq_nil_iff]

/-- The listings at the end of the stream are complete exactly when there are none, or nothing was
to be listed and `errno` is clear. -/
theorem run_readdir_nil_iff :
    (∀ r ∈ (Machine.run (cloudfsReaddir fun _ => true) [] errnos).2, r = (0, listed entries)) ↔
      errnos = [] ∨ (∀ x ∈ entries, x = lostAndFound) ∧ ∀ e ∈ errnos, e = 0 := by
  rw [run_readdir_nil, List.forall_mem_map, ← listed_eq_nil_iff]
  cases errnos with
  | nil => simp
  | cons e es =>
    constructor
    · intro h
      obtain ⟨-, hl⟩ := Prod.mk.inj (h e List.mem_cons_self)
      exact Or.inr ⟨hl.symm, fun x hx => by simpa using congrArg Prod.fst (h x hx)⟩
    · rintro (h | ⟨hl, he⟩) x hx
      · exact absurd h (by simp)
      · rw [he x hx, hl, neg_zero]

/-- **Every listing on a handle is complete exactly when** there is at most one, of a directory with
an entry, or the directory has nothing to list and every call that finds the stream at its end finds
`errno` clear. -/
theorem listings_complete_iff (entries : List Name) (errnos : List ℤ) :
    ListingsComplete entries errnos ↔
      entries ≠ [] ∧ errnos.length ≤ 1 ∨ (∀ x ∈ entries, x = lostAndFound) ∧
        ∀ e ∈ if entries = [] then errnos else errnos.tail, e = 0 := by
  have hopen : ListingsComplete entries errnos ↔
      ∀ r ∈ (Machine.run (cloudfsReaddir fun _ => true) entries errnos).2,
        r = (0, listed entries) := by
    simp [ListingsComplete, cloudfsOpendir]
  rw [hopen]
  cases entries with
  | nil =>
    rw [run_readdir_nil_iff]
    cases errnos <;> simp
  | cons de dp =>
    cases errnos with
    | nil => simp
    | cons e es =>
      have hrun : (Machine.run (cloudfsReaddir fun _ => true) (de :: dp) (e :: es)).2
          = (0, listed (de :: dp)) :: (Machine.run (cloudfsReaddir fun _ => true) [] es).2 := by
        rw [Machine.run, cloudfsReaddir_cons]
      rw [hrun, List.forall_mem_cons, run_readdir_nil_iff]
      cases es <;> simp

/-- **A second listing on a handle has no entries and reports whatever failed before**; so does the
first of an empty directory. -/
theorem second_listing_empty :
    (Machine.run (cloudfsReaddir fun _ => true) [['a']] [0, 2]).2 = [(0, [['a']]), (-2, [])] ∧
      (Machine.run (cloudfsReaddir fun _ => true) [] [2]).2 = [(-2, [])] ∧
      ¬ ListingsComplete [['a']] [0, 2] ∧ ¬ ListingsComplete [] [2] := by
  refine ⟨by decide, by decide, ?_, ?_⟩
  · rintro ⟨dp, hdp, h⟩
    obtain rfl := Except.ok.inj hdp
    exact absurd (h (-2, []) (by decide)) (by decide)
  · rintro ⟨dp, hdp, h⟩
    obtain rfl := Except.ok.inj hdp
    exact absurd (h (-2, []) (by decide)) (by decide)

end CloudFS
