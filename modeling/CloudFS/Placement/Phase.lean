import CloudFS.Session.Run

/-!
# Placement/Phase — where the content of a path is

A path that is not open is absent, resident on the SSD or a proxy of its object; an open path holds
a new file, an unchanged download or an edited one.  `Phase` carries the sizes against the
threshold in its constructors, and `RepAt` says what a phase looks like in the three stores and the
handle table.  A change that keeps to another path keeps the phase (`RepAt.frame`); the lemmas
below say what the operations on the path itself make of it.
-/

namespace CloudFS

open Posix Posix.Fs

/-- The phases of a path at threshold `T`. -/
inductive Phase (T : ℤ)
  | absent
  | resident (c : Content) (h : c.size ≤ T)
  | proxy (c : Content) (h : T < c.size)
  | fresh (c : Content)
  | fetched (o : Content) (h : T < o.size)
  | edited (o : Content) (h : T < o.size) (c : Content)

namespace Phase

variable {T : ℤ}

/-- The content of the path. -/
def content : Phase T → Option Content
  | absent => none
  | resident c _ => some c
  | proxy c _ => some c
  | fresh c => some c
  | fetched o _ => some o
  | edited _ _ c => some c

/-- The object of the path. -/
def object : Phase T → Option Content
  | absent => none
  | resident _ _ => none
  | proxy c _ => some c
  | fresh _ => none
  | fetched o _ => some o
  | edited o _ _ => some o

/-- What the path leads to on the SSD, `target` being its metadata file. -/
def node (target : Name) : Phase T → Option Node
  | absent => none
  | resident c _ => some (.reg c)
  | proxy _ _ => some (.lnk target)
  | fresh c => some (.reg c)
  | fetched o _ => some (.reg o)
  | edited _ _ c => some (.reg c)

/-- The flags `proxy` and `dirty` of the open handle. -/
def flags : Phase T → Option (Bool × Bool)
  | absent => none
  | resident _ _ => none
  | proxy _ _ => none
  | fresh _ => some (false, false)
  | fetched _ _ => some (true, false)
  | edited _ _ _ => some (true, true)

/-- A closed path whose content is `c`. -/
def settled (T : ℤ) (c : Content) : Phase T :=
  if h : T < c.size then proxy c h else resident c (not_lt.1 h)

/-- The phase after an open. -/
def opened : Phase T → Phase T
  | proxy c h => fetched c h
  | _ => fresh Content.empty

/-- The phase after a write that left `c`. -/
def written (c : Content) : Phase T → Phase T
  | fetched o h => edited o h c
  | edited o h _ => edited o h c
  | _ => fresh c

/-- The phase after a release. -/
def released : Phase T → Phase T
  | fresh c => settled T c
  | fetched o h => proxy o h
  | edited _ _ c => settled T c
  | ph => ph

variable {ph : Phase T} {c : Content}

theorem object_opened (hn : ph.flags = none) : ph.opened.object = ph.object := by
  cases ph with
  | absent | resident | proxy => rfl
  | fresh | fetched | edited => exact absurd hn (by simp [flags])

theorem node_opened (hn : ph.flags = none) (t : Name) :
    ph.opened.node t = some (.reg (ph.object.getD Content.empty)) := by
  cases ph with
  | absent | resident | proxy => rfl
  | fresh | fetched | edited => exact absurd hn (by simp [flags])

theorem content_opened_eq (hn : ph.flags = none) :
    ph.opened.content = some (ph.object.getD Content.empty) := by
  cases ph with
  | absent | resident | proxy => rfl
  | fresh | fetched | edited => exact absurd hn (by simp [flags])

theorem flags_opened (hn : ph.flags = none) :
    ph.opened.flags = some (ph.object.isSome, false) := by
  cases ph with
  | absent | resident | proxy => rfl
  | fresh | fetched | edited => exact absurd hn (by simp [flags])

/-- At threshold 0 an open keeps the content of an existing path. -/
theorem content_opened (hT : T = 0) (hn : ph.flags = none) (hc : ph.content ≠ none) :
    ph.opened.content = ph.content := by
  cases ph with
  | absent => exact absurd rfl hc
  | proxy => rfl
  | resident c h =>
    have hz : c.size = 0 := by omega
    exact congrArg some (Content.size_eq_zero_iff.1 hz).symm
  | fresh | fetched | edited => exact absurd hn (by simp [flags])

theorem object_written (hl : ph.flags.isSome = true) (c : Content) :
    (ph.written c).object = ph.object := by
  cases ph with
  | absent | resident | proxy => exact absurd hl (by simp [flags])
  | fresh | fetched | edited => rfl

@[simp] theorem node_written (c : Content) (t : Name) (ph : Phase T) :
    (ph.written c).node t = some (.reg c) := by
  cases ph <;> rfl

@[simp] theorem content_written (c : Content) (ph : Phase T) :
    (ph.written c).content = some c := by
  cases ph <;> rfl

theorem flags_written {x d : Bool} (hl : ph.flags = some (x, d)) (c : Content) :
    (ph.written c).flags = some (x, d || x) := by
  cases ph with
  | absent | resident | proxy => exact absurd hl (by simp [flags])
  | fresh | fetched | edited =>
    obtain ⟨rfl, rfl⟩ := Prod.mk.inj (Option.some.inj hl)
    rfl

theorem settled_of_lt (h : T < c.size) : settled T c = proxy c h := dif_pos h

theorem settled_of_le (h : c.size ≤ T) : settled T c = resident c h := dif_neg (not_lt.2 h)

@[simp] theorem content_settled (T : ℤ) (c : Content) : (settled T c).content = some c := by
  unfold settled
  split <;> rfl

@[simp] theorem flags_released (ph : Phase T) : ph.released.flags = none := by
  cases ph with
  | absent | resident | proxy | fetched => rfl
  | fresh c | edited o h c =>
    rw [released, settled]
    split <;> rfl

/-- A release keeps the content. -/
@[simp] theorem content_released (ph : Phase T) : ph.released.content = ph.content := by
  cases ph with
  | absent | resident | proxy | fetched => rfl
  | fresh c => exact content_settled T c
  | edited o h c => exact content_settled T c

end Phase

/-- The `st_size` a metadata file holds. -/
def storedSize (n : Inode) : Option ℕ :=
  match n.node with
  | .reg c => some (Stat.decode c.bytes).st_size.toNat
  | .lnk _ => none

/-- No handle is open on `p`. -/
def Idle (w : World) (p : Name) : Prop := ∀ h f, w.files.get h = some f → f.path ≠ p

instance (w : World) (p : Name) : Decidable (Idle w p) :=
  decidable_of_iff (∀ h < w.files.next, ∀ f ∈ w.files.get h, f.path ≠ p)
    ⟨fun hi h f hf => hi h (Table.lt_next_of_get hf) f hf, fun hi h _ f hf => hi h f hf⟩

/-- No two handles are open on `p`. -/
def Alone (w : World) (p : Name) : Prop :=
  ∀ h f k g, w.files.get h = some f → w.files.get k = some g → f.path = p → g.path = p → h = k

/-- **What a phase of `p` looks like** on the SSD, in the bucket and among the handles. -/
structure RepAt (st : CloudfsState) (w : World) (p : Name) (ph : Phase st.threshold) : Prop where
  entry : (w.ssd.look (getAbsolutePath st p)).map Inode.node = ph.node (getMetadataPath st p)
  metadata : (w.ssd.look (getMetadataPath st p)).map storedSize
    = ph.object.map fun o => some o.size
  object : w.bucket (getKey p) = ph.object
  handle : ∀ h f, w.files.get h = some f → f.path = p →
    ph.flags = some (f.fh.proxy, f.fh.dirty) ∧ f.fh.fd.flags = f.flags ∧ Owns st w f
  live : ph.flags.isSome → ∃ h f, w.files.get h = some f ∧ f.path = p
  alone : Alone w p

variable {st : CloudfsState} {w w' : World} {p q : Name} {h : Handle} {f : FuseFile}
  {c : Content} {ph : Phase st.threshold}

/-- **A change that keeps to another path keeps the phase.** -/
theorem RepAt.frame (hr : RepAt st w q ph) (ht : Touches st p w w') (hp : Outside st p)
    (hq : Outside st q) (hk : getKey p ≠ getKey q) : RepAt st w' q ph := by
  have hne : q ≠ p := fun e => hk (e ▸ rfl)
  have habs := absolute_not_mem_ssdNames hq hne.symm
  have hmeta := metadata_not_mem_ssdNames hp hk
  have hfile : ∀ h f, f.path = q → (w'.files.get h = some f ↔ w.files.get h = some f) :=
    fun h f hf => ht.file h f (hf ▸ hne)
  refine ⟨?_, ?_, (ht.bucket _ hk.symm).trans hr.object, fun h f hf hfq => ?_, fun hl => ?_,
    fun h f k g hf hg hfq hgq => ?_⟩
  · rw [ht.ssd.look habs]
    exact hr.entry
  · rw [ht.ssd.look hmeta]
    exact hr.metadata
  · obtain ⟨h1, h2, h3⟩ := hr.handle h f ((hfile h f hfq).1 hf) hfq
    refine ⟨h1, h2, ?_⟩
    rw [Owns, hfq, ht.ssd.dirent _ habs, ← hfq]
    exact h3
  · obtain ⟨h, f, hf, hfq⟩ := hr.live hl
    exact ⟨h, f, (hfile h f hfq).2 hf, hfq⟩
  · exact hr.alone h f k g ((hfile h f hfq).1 hf) ((hfile k g hgq).1 hg) hfq hgq

/-- The path of an open file its path leads to. -/
theorem Holds.look (hh : Holds w h f c) (ho : Owns st w f) (hp : f.path = p) :
    (w.ssd.look (getAbsolutePath st p)).map Inode.node = some (.reg c) := by
  subst hp
  rw [look_of_dirent ho, Option.map_some, hh.node]

/-- On an open path the handle holds the content of the phase. -/
theorem RepAt.holds (hr : RepAt st w p ph) (hf : w.files.get h = some f) (hp : f.path = p) :
    ∃ c, ph.content = some c ∧ Holds w h f c ∧ Owns st w f := by
  obtain ⟨h1, h2, h3⟩ := hr.handle h f hf hp
  have hn : some (w.ssd.inode f.fh.fd.ino).node = ph.node (getMetadataPath st p) := by
    rw [← hr.entry, ← hp, look_of_dirent h3]
    rfl
  cases ph with
  | absent | resident | proxy => exact absurd h1 (by simp [Phase.flags])
  | fresh c => exact ⟨c, rfl, ⟨hf, Option.some.inj hn, h2⟩, h3⟩
  | fetched o ho => exact ⟨o, rfl, ⟨hf, Option.some.inj hn, h2⟩, h3⟩
  | edited o ho c => exact ⟨c, rfl, ⟨hf, Option.some.inj hn, h2⟩, h3⟩

/-- A path on which no handle is open is in a phase of a closed path. -/
theorem RepAt.flags_of_idle (hr : RepAt st w p ph) (hi : Idle w p) : ph.flags = none := by
  by_contra hc
  obtain ⟨h, f, hf, hfp⟩ := hr.live (Option.isSome_iff_ne_none.2 hc)
  exact hi h f hf hfp

/-- A path in a phase of a closed path has no handle open on it. -/
theorem RepAt.idle (hr : RepAt st w p ph) (hn : ph.flags = none) : Idle w p := by
  intro h f hf hfp
  have := (hr.handle h f hf hfp).1
  rw [hn] at this
  exact absurd this (by simp)

/-- The phase of a path on which no handle is open, from the three stores alone. -/
theorem RepAt.of_idle (hi : Idle w p) (hn : ph.flags = none)
    (he : (w.ssd.look (getAbsolutePath st p)).map Inode.node = ph.node (getMetadataPath st p))
    (hm : (w.ssd.look (getMetadataPath st p)).map storedSize
      = ph.object.map fun o => some o.size)
    (ho : w.bucket (getKey p) = ph.object) : RepAt st w p ph where
  entry := he
  metadata := hm
  object := ho
  handle h f hf hfp := absurd hfp (hi h f hf)
  live hl := absurd hl (by simp [hn])
  alone h f _ _ hf _ hfp _ := absurd hfp (hi h f hf)

/-! ## Files without a handle -/

/-- The SSD has an entry for the path exactly when the phase has a content. -/
theorem RepAt.dirent_eq_none_iff (hr : RepAt st w p ph) :
    w.ssd.dirent (getAbsolutePath st p) = none ↔ ph.content = none := by
  rw [← look_eq_none_iff, ← Option.map_eq_none_iff (f := Inode.node), hr.entry]
  cases ph <;> simp [Phase.node, Phase.content]

/-- The metadata file exists exactly when the object does. -/
theorem RepAt.dirent_metadata (hr : RepAt st w p ph) :
    (w.ssd.dirent (getMetadataPath st p)).isSome = ph.object.isSome := by
  have hd : (w.ssd.dirent (getMetadataPath st p)).isSome
      = ((w.ssd.look (getMetadataPath st p)).map storedSize).isSome := by
    rw [Option.isSome_map, look, Option.isSome_map]
  rw [hd, hr.metadata, Option.isSome_map]

end CloudFS
