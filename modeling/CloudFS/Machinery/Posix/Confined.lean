import CloudFS.Machinery.Posix.Laws

/-!
# Machinery/Posix/Confined — changes that keep to a set of names

`Confined S L fs fs'` says that from `fs` to `fs'` only names in `S` changed what they lead to,
names got only fresh inodes, and new links all lie in `L`.  Confinement composes, every call is
confined once the names it resolves lie in `S` (`Closed`), and off `S` nothing can be told apart
(`Confined.look`).
-/

namespace Posix

namespace Fs

/-- **A change confined to the names `S`, making links only in `L`.** -/
structure Confined (S : Set Name) (L : Name → Name → Prop) (fs fs' : Fs) : Prop where
  dirent : ∀ x, x ∉ S → fs'.dirent x = fs.dirent x
  inode : ∀ x, x ∉ S → ∀ i, fs.dirent x = some i → fs'.inode i = fs.inode i
  old : ∀ x i, fs'.dirent x = some i → fs.dirent x = some i ∨ fs.next ≤ i
  next_le : fs.next ≤ fs'.next
  link : ∀ x t, fs'.readlink x = some t → fs.readlink x = some t ∨ L x t

/-- Links from names in `S` stay in `S`. -/
def Closed (S : Set Name) (fs : Fs) : Prop := ∀ x ∈ S, ∀ t, fs.readlink x = some t → t ∈ S

/-- Every name of inode `i` lies in `S`. -/
def NamedIn (S : Set Name) (fs : Fs) (i : Ino) : Prop := ∀ x, fs.dirent x = some i → x ∈ S

variable {S : Set Name} {L : Name → Name → Prop} {fs fs' fs'' : Fs} {x y t : Name} {i : Ino}

namespace Confined

theorem refl (fs : Fs) : Confined S L fs fs where
  dirent _ _ := rfl
  inode _ _ _ _ := rfl
  old _ _ h := Or.inl h
  next_le := le_rfl
  link _ _ h := Or.inl h

/-- **Confined changes compose.** -/
theorem trans (h : Confined S L fs fs') (h' : Confined S L fs' fs'') : Confined S L fs fs'' where
  dirent x hx := (h'.dirent x hx).trans (h.dirent x hx)
  inode x hx i hi := (h'.inode x hx i ((h.dirent x hx).trans hi)).trans (h.inode x hx i hi)
  old x i hi := by
    rcases h'.old x i hi with hi' | hi'
    · exact h.old x i hi'
    · exact Or.inr (h.next_le.trans hi')
  next_le := h.next_le.trans h'.next_le
  link x t ht := by
    rcases h'.link x t ht with ht' | ht'
    · exact h.link x t ht'
    · exact Or.inr ht'

/-- **Off `S` a confined change cannot be seen.** -/
theorem look (h : Confined S L fs fs') (hx : x ∉ S) : fs'.look x = fs.look x := by
  unfold Fs.look
  rw [h.dirent x hx]
  cases hd : fs.dirent x with
  | none => rfl
  | some i => rw [Option.map_some, Option.map_some, h.inode x hx i hd]

/-- An old inode gains no name. -/
theorem namedIn (h : Confined S L fs fs') {T : Set Name} (hi : i < fs.next)
    (hn : NamedIn T fs i) : NamedIn T fs' i := by
  intro x hx
  rcases h.old x i hx with hx' | hx'
  · exact hn x hx'
  · exact absurd hi (Nat.not_lt.2 hx')

/-- New links inside `S` keep `S` closed. -/
theorem closed (h : Confined S L fs fs') (hS : Closed S fs) (hL : ∀ x t, L x t → t ∈ S) :
    Closed S fs' := by
  intro x hx t ht
  rcases h.link x t ht with ht' | ht'
  · exact hS x hx t ht'
  · exact hL x t ht'

/-! ### The elementary changes -/

theorem create (hx : x ∈ S) (n : Inode) (hn : ∀ t, n.node = .lnk t → L x t) :
    Confined S L fs (fs.create x n) where
  dirent y hy := dirent_create_of_ne fun e => hy (e ▸ hx)
  inode y _ i hi := inode_create_of_lt (fs.dirent_lt hi)
  old y i hi := by
    by_cases hy : y = x
    · rw [hy, dirent_create_self] at hi
      exact Or.inr (Option.some.inj hi).le
    · rw [dirent_create_of_ne hy] at hi
      exact Or.inl hi
  next_le := Nat.le_succ _
  link y t ht := by
    obtain ⟨m, hm, hmt⟩ := readlink_eq_some_iff.1 ht
    by_cases hy : y = x
    · rw [hy, look_create_self] at hm
      obtain rfl := Option.some.inj hm
      exact Or.inr (hy ▸ hn t hmt)
    · rw [look_create_of_ne hy] at hm
      exact Or.inl (readlink_of_lnk hm hmt)

theorem remove (hx : x ∈ S) : Confined S L fs (fs.remove x) where
  dirent y hy := dirent_remove_of_ne fun e => hy (e ▸ hx)
  inode _ _ _ _ := rfl
  old y i hi := by
    by_cases hy : y = x
    · rw [hy, dirent_remove_self] at hi
      exact absurd hi (by simp)
    · rw [dirent_remove_of_ne hy] at hi
      exact Or.inl hi
  next_le := le_rfl
  link y t ht := by
    obtain ⟨m, hm, hmt⟩ := readlink_eq_some_iff.1 ht
    by_cases hy : y = x
    · rw [hy, look_eq_none_iff.2 (dirent_remove_self fs x)] at hm
      exact absurd hm (by simp)
    · rw [look_remove_of_ne hy] at hm
      exact Or.inl (readlink_of_lnk hm hmt)

/-- Changing an inode all of whose names lie in `S`, without making it a new link. -/
theorem setInode (hi : NamedIn S fs i) {n : Inode}
    (hn : ∀ t, n.node = .lnk t → (fs.inode i).node = .lnk t) :
    Confined S L fs (fs.setInode i n) where
  dirent _ _ := rfl
  inode y hy j hj := inode_setInode_of_ne fun e => hy (hi y (e ▸ hj))
  old _ _ h := Or.inl h
  next_le := le_rfl
  link y t ht := by
    obtain ⟨m, hm, hmt⟩ := readlink_eq_some_iff.1 ht
    obtain ⟨j, hj, hjm⟩ := look_eq_some_iff.1 hm
    by_cases hji : j = i
    · rw [hji, inode_setInode_self] at hjm
      rw [hji] at hj
      exact Or.inl (readlink_of_lnk (look_of_dirent hj) (hn t (hjm ▸ hmt)))
    · rw [inode_setInode_of_ne hji] at hjm
      exact Or.inl (readlink_of_lnk (look_of_dirent hj) (hjm ▸ hmt))

theorem setContent (hi : NamedIn S fs i) (c : Content) : Confined S L fs (fs.setContent i c) :=
  setInode hi fun t ht => absurd ht (by simp)

end Confined

/-! ## The calls are confined to the names they resolve -/

theorem namedIn_of_dirent (hx : x ∈ S) (h : fs.dirent x = some i) : NamedIn S fs i :=
  fun _ hy => fs.dirent_inj hy h ▸ hx

/-- Following links never leaves a closed set of names, and ends at no link. -/
theorem resolve_mem (hS : Closed S fs) :
    ∀ (k : ℕ) {x y : Name}, x ∈ S → fs.resolve k x = .ok y → y ∈ S ∧ fs.readlink y = none
  | 0, x, _, hx, h => by
    unfold resolve at h
    split at h
    case isTrue => exact absurd h (by simp)
    case isFalse hn =>
      obtain rfl := Except.ok.inj h
      exact ⟨hx, by simpa using hn⟩
  | k + 1, x, _, hx, h => by
    unfold resolve at h
    split at h
    case h_1 t ht => exact resolve_mem hS k (hS x hx t ht) h
    case h_2 hn =>
      obtain rfl := Except.ok.inj h
      exact ⟨hx, hn⟩

theorem confined_unlink (hx : x ∈ S) (h : fs.unlink x = .ok fs') : Confined S L fs fs' := by
  unfold unlink at h
  split at h
  case h_1 =>
    obtain rfl := Except.ok.inj h
    exact .remove hx
  case h_2 => exact absurd h (by simp)

theorem confined_symlink (hx : x ∈ S) (hL : L x t) (h : fs.symlink t x = .ok fs') :
    Confined S L fs fs' := by
  unfold symlink at h
  split at h
  case h_1 => exact absurd h (by simp)
  case h_2 =>
    obtain rfl := Except.ok.inj h
    exact .create hx _ fun u hu => by obtain rfl := Node.lnk.inj hu; exact hL

theorem confined_mknod (hx : x ∈ S) {mode : UInt32} (h : fs.mknod x mode = .ok fs') :
    Confined S L fs fs' := by
  unfold mknod at h
  split at h
  case h_1 => exact absurd h (by simp)
  case h_2 =>
    obtain rfl := Except.ok.inj h
    exact .create hx _ fun u hu => absurd hu (by simp [fresh])

/-- The file `creat` opens is one a name in `S` leads to. -/
theorem confined_creat (hS : Closed S fs) (hx : x ∈ S) {mode : UInt32} {f : OpenFile}
    (h : fs.creat x mode = .ok (f, fs')) :
    Confined S L fs fs' ∧ ∃ y ∈ S, fs'.dirent y = some f.ino := by
  unfold creat at h
  split at h
  case h_1 => exact absurd h (by simp)
  case h_2 y hy =>
    have hyS := (resolve_mem hS _ hx hy).1
    split at h
    case h_1 i hi =>
      obtain ⟨rfl, rfl⟩ := Prod.mk.inj (Except.ok.inj h)
      exact ⟨.setContent (namedIn_of_dirent hyS hi) _, y, hyS, hi⟩
    case h_2 hi =>
      obtain ⟨rfl, rfl⟩ := Prod.mk.inj (Except.ok.inj h)
      exact ⟨.create hyS _ fun u hu => absurd hu (by simp [fresh]), y, hyS,
        dirent_create_self ..⟩

theorem confined_pwrite {f : OpenFile} (hf : NamedIn S fs f.ino) {off : ℕ} {s : Bytes}
    (h : fs.pwrite f off s = .ok fs') : Confined S L fs fs' := by
  obtain ⟨-, c, d, -, -, rfl⟩ := pwrite_eq_ok_iff.1 h
  exact .setContent hf d

theorem confined_truncate (hS : Closed S fs) (hx : x ∈ S) {k : ℕ}
    (h : fs.truncate x k = .ok fs') : Confined S L fs fs' := by
  unfold truncate at h
  split at h
  case h_1 => exact absurd h (by simp)
  case h_2 y hy =>
    split at h
    case h_1 => exact absurd h (by simp)
    case h_2 i hi =>
      split at h
      case h_1 => exact absurd h (by simp)
      case h_2 =>
        split at h
        case h_1 d _ =>
          obtain rfl := Except.ok.inj h
          exact .setContent (namedIn_of_dirent (resolve_mem hS _ hx hy).1 hi) d
        case h_2 => exact absurd h (by simp)

theorem confined_utimens (hx : x ∈ S) {a m : Timespec} (h : fs.utimens x a m = .ok fs') :
    Confined S L fs fs' := by
  obtain ⟨i, hi, rfl⟩ := utimens_eq_ok h
  exact .setInode (namedIn_of_dirent hx hi) fun _ ht => ht

/-- The file an open leads to is one a name in `S` leads to. -/
theorem mem_openAt (hS : Closed S fs) (hx : x ∈ S) {flags : OpenFlags} {f : OpenFile}
    (h : fs.openAt x flags = .ok f) : ∃ y ∈ S, fs.dirent y = some f.ino := by
  unfold openAt at h
  split at h
  case h_1 => exact absurd h (by simp)
  case h_2 y hy =>
    split at h
    case h_1 i hi =>
      obtain rfl := Except.ok.inj h
      exact ⟨y, (resolve_mem hS _ hx hy).1, hi⟩
    case h_2 => exact absurd h (by simp)

end Fs

end Posix
