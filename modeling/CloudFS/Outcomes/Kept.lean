import CloudFS.Clients.Handles

/-!
# Outcomes/Kept — what a path is left with

A path keeps a content when it has an entry, getattr reports the length of the content and a later
session reads it.  Getattr looks at the entry and, where that is a link, at the metadata file; the
session at the bucket alone (`kept_iff`).
-/

namespace CloudFS

open Posix Posix.Fs

/-- **The path keeps the content**: it has an entry, getattr reports its length, and a later session
reads it. -/
structure Kept (st : CloudfsState) (w : World) (p : Name) (c : Content) : Prop where
  entry : (entry st w p).isSome = true
  attr : ∀ env : GetattrEnv, env.SsdOk →
    ∃ s, cloudfsGetattr st env p w = .ok s ∧ s.st_size.toNat = c.size
  serves : Serves st w p c

/-- The length of `c` is reported of a path with these two inodes. -/
def Reports (file metadata : Option Inode) (c : Content) : Prop :=
  ∃ s, attrOf file metadata = .ok s ∧ s.st_size.toNat = c.size

variable {st : CloudfsState} {w : World} {p t : Name} {c d : Content} {n m : Inode}

/-! ## What is reported -/

theorem attrOf_reg (hn : n.node = .reg c) (m : Option Inode) : attrOf (some n) m = .ok n.stat := by
  simp only [attrOf, hn]

theorem attrOf_lnk (hn : n.node = .lnk t) (hm : m.node = .reg c) :
    attrOf (some n) (some m) = .ok (Stat.decode c.bytes) := by
  simp only [attrOf, hn, hm]

theorem not_reports_none (m : Option Inode) : ¬ Reports none m c := by
  rintro ⟨s, h, -⟩
  exact absurd h (by simp [attrOf])

/-- Of a file its length is reported. -/
theorem reports_reg (hn : n.node = .reg d) (m : Option Inode) :
    Reports (some n) m c ↔ d.size = c.size := by
  rw [Reports, attrOf_reg hn, ← Inode.st_size_reg hn]
  exact ⟨fun ⟨s, h, hs⟩ => (Except.ok.inj h) ▸ hs, fun h => ⟨_, rfl, h⟩⟩

/-- Of a link the size in its metadata file is reported. -/
theorem reports_lnk (hn : n.node = .lnk t) (hm : m.node = .reg d) :
    Reports (some n) (some m) c ↔ (Stat.decode d.bytes).st_size.toNat = c.size := by
  rw [Reports, attrOf_lnk hn hm]
  exact ⟨fun ⟨s, h, hs⟩ => (Except.ok.inj h) ▸ hs, fun h => ⟨_, rfl, h⟩⟩

/-! ## What is kept -/

/-- **Where links lead to metadata files a path keeps the content** exactly when its length is
reported and the bucket serves it. -/
theorem kept_iff
    (hl : ∀ t, w.ssd.readlink (getAbsolutePath st p) = some t → t = getMetadataPath st p)
    (hm : w.ssd.readlink (getMetadataPath st p) = none) :
    Kept st w p c ↔
      Reports (w.ssd.look (getAbsolutePath st p)) (w.ssd.look (getMetadataPath st p)) c ∧
        stored w p = c := by
  have hattr : ∀ {env : GetattrEnv}, env.SsdOk → cloudfsGetattr st env p w
      = attrOf (w.ssd.look (getAbsolutePath st p)) (w.ssd.look (getMetadataPath st p)) :=
    fun henv => cloudfsGetattr_eq henv hl hm
  constructor
  · rintro ⟨-, ha, hserves⟩
    have hok : GetattrEnv.SsdOk ⟨none, none, none⟩ := ⟨rfl, rfl, rfl⟩
    obtain ⟨s, h, hsize⟩ := ha _ hok
    exact ⟨⟨s, (hattr hok).symm.trans h, hsize⟩, serves_iff.1 hserves⟩
  · rintro ⟨⟨s, hs, hsize⟩, hst⟩
    refine ⟨?_, fun env henv => ⟨s, (hattr henv).trans hs, hsize⟩, serves_iff.2 hst⟩
    cases hl : w.ssd.look (getAbsolutePath st p) with
    | none => exact absurd ⟨s, hl ▸ hs, hsize⟩ (not_reports_none _)
    | some n =>
      rw [CloudFS.entry, hl]
      rfl

end CloudFS
