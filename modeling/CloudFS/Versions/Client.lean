import CloudFS.Placement.Step
import CloudFS.Versions.Store

/-!
# Versions/Client — one mount as a client of the version store

`Mirrors` reads a mount as a client of the version store: its open files are drafts, an entry on the
SSD says that a path is present and a metadata file that a version is known.  It says nothing of the
bucket, so what other clients do keeps it; `Publishes` reads the bucket.  A request about one path
keeps what is said of the others (`Mirrors.moved`), and each request that nothing fails does what
the version store does.
-/

namespace CloudFS

open Posix Posix.Fs VersionStore

/-- What a reply tells a client of the version store: of attributes, the size. -/
def Reply.answer : Reply → Out
  | .done => .done
  | .handle h => .handle h
  | .data b => .data b
  | .count n => .count n
  | .attr s => .size s.st_size.toNat
  | .fail _ => .refused

/-- **The bucket holds the published versions.** -/
def Publishes (b : Bucket) (stored : Name → Option Content) : Prop :=
  ∀ p, '+' ∉ p → b (getKey p) = stored p

/-- **What is on the SSD of a client**: the entries of the paths that are present, and the metadata
files of those known to be published. -/
structure Shelves (st : CloudfsState) (w : World) (l : Client) : Prop where
  sane : Sane st w
  known : ∀ p, Clean st p → (w.ssd.dirent (getMetadataPath st p)).isSome = l.known p
  present : ∀ p, Clean st p → (w.ssd.dirent (getAbsolutePath st p)).isSome = l.present p

/-- The open file `f` is the draft `d`. -/
structure OpenAs (st : CloudfsState) (w : World) (h : Handle) (f : FuseFile) (d : Draft) :
    Prop where
  path : f.path = d.path
  flags : f.flags = d.flags
  proxy : f.fh.proxy = d.fetched
  dirty : f.fh.dirty = (d.fetched && d.wrote)
  holds : Holds w h f d.content
  owns : Owns st w f

/-- **A mount is a client of the version store.** -/
structure Mirrors (st : CloudfsState) (w : World) (l : Client) : Prop extends Shelves st w l where
  clean : ∀ h f, w.files.get h = some f → Clean st f.path
  live : ∀ h f, w.files.get h = some f → ∃ d, l.drafts.get h = some d ∧ OpenAs st w h f d
  dead : ∀ h, w.files.get h = none → l.drafts.get h = none
  next : w.files.next = l.drafts.next
  alone : ∀ p, Alone w p

/-- A served request did what the version store does. -/
structure Follows (st : CloudfsState) (r : World × Reply)
    (x : (Name → Option Content) × Client × Out) : Prop where
  mirrors : Mirrors st r.1 x.2.1
  publishes : Publishes r.1.bucket x.1
  answer : r.2.answer = x.2.2

variable {st : CloudfsState} {w w' : World} {l l' : Client} {p q : Name} {h : Handle}
  {f : FuseFile} {d : Draft} {stored : Name → Option Content} {c : Option Content} {T : ℤ}

/-! ## What keeps to one path -/

/-- A bucket that changed under one key. -/
theorem Publishes.publish {b b' : Bucket} (hb : Publishes b stored) (hp : '+' ∉ p)
    (hself : b' (getKey p) = c) (hne : ∀ k, k ≠ getKey p → b' k = b k) :
    Publishes b' (VersionStore.publish stored p c) := by
  intro q hq
  by_cases hqp : q = p
  · rw [hqp, VersionStore.publish, Function.update_self, hself]
  · rw [VersionStore.publish, Function.update_of_ne hqp, ← hb q hq]
    exact hne _ fun hk => hqp ((getKey_inj hq hp).1 hk)

/-- A bucket that did not change after all. -/
theorem Publishes.publish_self (hb : Publishes w.bucket stored) (hc : c = stored p) :
    Publishes w.bucket (VersionStore.publish stored p c) := by
  rw [hc, VersionStore.publish, Function.update_eq_self]
  exact hb

/-- **A change that keeps to one path keeps the shelves.** -/
theorem Shelves.moved (hs : Shelves st w l) (hp : Clean st p) (ht : Touches st p w w')
    (hk : (w'.ssd.dirent (getMetadataPath st p)).isSome = l'.known p)
    (he : (w'.ssd.dirent (getAbsolutePath st p)).isSome = l'.present p)
    (hkne : ∀ q, q ≠ p → l'.known q = l.known q)
    (hene : ∀ q, q ≠ p → l'.present q = l.present q) : Shelves st w' l' where
  sane := ht.sane hp.toOutside hs.sane
  known q hq := by
    by_cases hqp : q = p
    · exact hqp ▸ hk
    · have hm := metadata_not_mem_ssdNames (q := q) hp.toOutside
        (hp.getKey_ne hq fun e => hqp e.symm)
      rw [hkne q hqp, ← hs.known q hq, ht.ssd.dirent _ hm]
  present q hq := by
    by_cases hqp : q = p
    · exact hqp ▸ he
    · have ha := absolute_not_mem_ssdNames hq.toOutside fun e => hqp e.symm
      rw [hene q hqp, ← hs.present q hq, ht.ssd.dirent _ ha]

/-- A change that keeps to another path keeps a draft. -/
theorem OpenAs.frame (ho : OpenAs st w h f d) (ht : Touches st p w w') (hf : Outside st f.path)
    (hne : f.path ≠ p) : OpenAs st w' h f d := by
  have ha := absolute_not_mem_ssdNames hf hne.symm
  have howns : Owns st w' f := (ht.ssd.dirent _ ha).trans ho.owns
  have hnode : w'.ssd.inode f.fh.fd.ino = w.ssd.inode f.fh.fd.ino := by
    have hl := ht.ssd.look ha
    rw [look_of_dirent howns, look_of_dirent ho.owns] at hl
    exact Option.some.inj hl
  exact ⟨ho.path, ho.flags, ho.proxy, ho.dirty,
    ⟨(ht.file h f hne).2 ho.holds.live, hnode ▸ ho.holds.node, ho.holds.flags⟩, howns⟩

/-- **A change that keeps to one path keeps a mount the client it is**, if it does for the path. -/
theorem Mirrors.moved (hm : Mirrors st w l) (hp : Clean st p) (ht : Touches st p w w')
    (hs : Shelves st w' l')
    (hown : ∀ h f, w'.files.get h = some f → f.path = p →
      ∃ d, l'.drafts.get h = some d ∧ OpenAs st w' h f d)
    (halone : Alone w' p)
    (hother : ∀ h d, l.drafts.get h = some d → d.path ≠ p → l'.drafts.get h = some d)
    (hdead : ∀ h, w'.files.get h = none → l'.drafts.get h = none)
    (hnext : w'.files.next = l'.drafts.next) : Mirrors st w' l' where
  toShelves := hs
  clean h f hf := by
    by_cases hfp : f.path = p
    · exact hfp ▸ hp
    · exact hm.clean h f ((ht.file h f hfp).1 hf)
  live h f hf := by
    by_cases hfp : f.path = p
    · exact hown h f hf hfp
    · have hf' := (ht.file h f hfp).1 hf
      obtain ⟨d, hd, ho⟩ := hm.live h f hf'
      exact ⟨d, hother h d hd (ho.path ▸ hfp), ho.frame ht (hm.clean h f hf').toOutside hfp⟩
  dead := hdead
  next := hnext
  alone q := by
    by_cases hqp : q = p
    · exact hqp ▸ halone
    · intro h f k g hf hg hfq hgq
      exact hm.alone q h f k g ((ht.file h f (hfq ▸ hqp)).1 hf) ((ht.file k g (hgq ▸ hqp)).1 hg)
        hfq hgq

/-- A draft the client has is an open file of the mount. -/
theorem Mirrors.exists_of_get (hm : Mirrors st w l) (hd : l.drafts.get h = some d) :
    ∃ f, w.files.get h = some f ∧ OpenAs st w h f d := by
  cases hf : w.files.get h with
  | none =>
    rw [hm.dead h hf] at hd
    exact absurd hd (by simp)
  | some f =>
    obtain ⟨d', hd', ho⟩ := hm.live h f hf
    obtain rfl := Option.some.inj (hd.symm.trans hd')
    exact ⟨f, rfl, ho⟩

/-- A path of which the client has no draft open has no handle. -/
theorem Mirrors.idle (hm : Mirrors st w l) (hi : l.Idle p) : Idle w p := by
  intro h f hf hfp
  obtain ⟨d, hd, ho⟩ := hm.live h f hf
  exact hi h d hd (ho.path.symm.trans hfp)

/-- A mount with nothing open is the client its shelves are of. -/
theorem Shelves.mirrors_restarted (hs : Shelves st w l) : Mirrors st w.remount l.restarted where
  sane := ⟨hs.sane.link, fun h f hf => absurd hf (by simp [World.remount])⟩
  known := hs.known
  present := hs.present
  clean h f hf := absurd hf (by simp [World.remount])
  live h f hf := absurd hf (by simp [World.remount])
  dead h _ := rfl
  next := rfl
  alone p h f _ _ hf := absurd hf (by simp [World.remount])

variable (st) in
/-- A fresh mount has nothing. -/
theorem mirrors_init (umask : UInt32) (clock : Timespec) :
    Mirrors st (World.init (Fs.empty umask clock)) Client.init where
  sane := sane_init st umask clock
  known p _ := rfl
  present p _ := rfl
  clean h f hf := absurd hf (by simp [World.init, Mount.init])
  live h f hf := absurd hf (by simp [World.init, Mount.init])
  dead h _ := rfl
  next := rfl
  alone p h f _ _ hf := absurd hf (by simp [World.init, Mount.init])

end CloudFS
