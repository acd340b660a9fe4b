import CloudFS.Machinery.Posix.Fs
import Mathlib.Data.Set.Insert

/-!
# Machinery/Posix/Laws — what the calls do to a name

Each call read at the names it touches and at the names it does not.  `Confined S L fs fs'` says a
change kept to the names in `S` and made only links in `L`: it is reflexive and transitive, every
call is confined to the name it resolves, and a confined change leaves `look` alone off `S`
(`Confined.look`).
-/

namespace Posix

namespace Fs

variable {fs fs' fs'' : Fs} {x y t : Name} {i : Ino} {n : Inode} {c d : Content}

/-! ## Names after a change -/

theorem look_eq_some_iff : fs.look x = some n ↔ ∃ i, fs.dirent x = some i ∧ fs.inode i = n := by
  rw [look, Option.map_eq_some_iff]

theorem look_of_dirent (h : fs.dirent x = some i) : fs.look x = some (fs.inode i) := by
  rw [look, h, Option.map_some]

@[simp] theorem look_eq_none_iff : fs.look x = none ↔ fs.dirent x = none := by
  rw [look, Option.map_eq_none_iff]

@[simp] theorem dirent_create_self (fs : Fs) (x : Name) (n : Inode) :
    (fs.create x n).dirent x = some fs.next := Function.update_self ..

theorem dirent_create_of_ne (h : y ≠ x) : (fs.create x n).dirent y = fs.dirent y :=
  Function.update_of_ne h ..

@[simp] theorem inode_create_next (fs : Fs) (x : Name) (n : Inode) :
    (fs.create x n).inode fs.next = n := Function.update_self ..

theorem inode_create_of_lt (h : i < fs.next) : (fs.create x n).inode i = fs.inode i :=
  Function.update_of_ne h.ne ..

@[simp] theorem look_create_self (fs : Fs) (x : Name) (n : Inode) :
    (fs.create x n).look x = some n := by
  rw [look_of_dirent (dirent_create_self fs x n), inode_create_next]

theorem look_create_of_ne (h : y ≠ x) : (fs.create x n).look y = fs.look y := by
  unfold look
  rw [dirent_create_of_ne h]
  cases hd : fs.dirent y with
  | none => rfl
  | some i => rw [Option.map_some, Option.map_some, inode_create_of_lt (fs.dirent_lt hd)]

@[simp] theorem dirent_remove_self (fs : Fs) (x : Name) : (fs.remove x).dirent x = none :=
  Function.update_self ..

theorem dirent_remove_of_ne (h : y ≠ x) : (fs.remove x).dirent y = fs.dirent y :=
  Function.update_of_ne h ..

@[simp] theorem next_remove (fs : Fs) (x : Name) : (fs.remove x).next = fs.next := rfl

theorem look_remove_of_ne (h : y ≠ x) : (fs.remove x).look y = fs.look y := by
  rw [look, dirent_remove_of_ne h]
  rfl

@[simp] theorem dirent_setInode (fs : Fs) (i : Ino) (n : Inode) :
    (fs.setInode i n).dirent = fs.dirent := rfl

@[simp] theorem dirent_setContent (fs : Fs) (i : Ino) (c : Content) :
    (fs.setContent i c).dirent = fs.dirent := rfl

@[simp] theorem inode_setInode_self (fs : Fs) (i : Ino) (n : Inode) :
    (fs.setInode i n).inode i = n := Function.update_self ..

theorem inode_setInode_of_ne {j : Ino} (h : j ≠ i) :
    (fs.setInode i n).inode j = fs.inode j := Function.update_of_ne h ..

@[simp] theorem node_setContent_self (fs : Fs) (i : Ino) (c : Content) :
    ((fs.setContent i c).inode i).node = .reg c := by
  rw [setContent, inode_setInode_self]

theorem inode_setContent_of_ne {j : Ino} (h : j ≠ i) :
    (fs.setContent i c).inode j = fs.inode j := inode_setInode_of_ne h

theorem look_setInode_of_ne (h : fs.dirent y ≠ some i) :
    (fs.setInode i n).look y = fs.look y := by
  unfold look
  rw [dirent_setInode]
  cases hd : fs.dirent y with
  | none => rfl
  | some j =>
    have hj : j ≠ i := fun e => h (by rw [hd, e])
    rw [Option.map_some, Option.map_some, inode_setInode_of_ne hj]

/-- Making a name anew forgets that it was removed first. -/
@[simp] theorem create_remove (fs : Fs) (x : Name) (n : Inode) :
    (fs.remove x).create x n = fs.create x n := by
  simp [create, remove]

/-- Filling a file just made is making it filled. -/
theorem setContent_create (fs : Fs) (x : Name) (c d : Content) (p : UInt32) :
    (fs.create x (fs.fresh (.reg c) p)).setContent fs.next d
      = fs.create x (fs.fresh (.reg d) p) := by
  simp [create, setContent, setInode, fresh]

/-- Only the last content stored in an inode counts. -/
theorem setContent_setContent (fs : Fs) (i : Ino) (c d : Content) :
    (fs.setContent i c).setContent i d = fs.setContent i d := by
  simp [setContent, setInode]

/-- Removing a name that leads nowhere changes nothing. -/
theorem remove_of_none (h : fs.dirent x = none) : fs.remove x = fs := by
  have hd : Function.update fs.dirent x none = fs.dirent := by
    rw [← h, Function.update_eq_self]
  simp only [remove, hd]

/-! ## Links -/

theorem readlink_eq_some_iff :
    fs.readlink x = some t ↔ ∃ n, fs.look x = some n ∧ n.node = .lnk t := by
  unfold readlink
  cases hl : fs.look x with
  | none => simp
  | some n => obtain ⟨⟨c⟩ | ⟨u⟩, p, a, m⟩ := n <;> simp

theorem readlink_of_lnk (h : fs.look x = some n) (hn : n.node = .lnk t) : fs.readlink x = some t :=
  readlink_eq_some_iff.2 ⟨n, h, hn⟩

theorem readlink_of_reg (h : fs.look x = some n) (hn : n.node = .reg c) : fs.readlink x = none := by
  by_contra hc
  obtain ⟨u, hu⟩ := Option.ne_none_iff_exists'.1 hc
  obtain ⟨m, hm, hmn⟩ := readlink_eq_some_iff.1 hu
  obtain rfl := Option.some.inj (h.symm.trans hm)
  exact absurd (hn.symm.trans hmn) (by simp)

theorem readlink_of_none (h : fs.dirent x = none) : fs.readlink x = none := by
  rw [readlink, look_eq_none_iff.2 h]

/-- A name that is no link resolves to itself. -/
theorem resolve_of_not_link (h : fs.readlink x = none) (k : ℕ) : fs.resolve k x = .ok x := by
  cases k <;> simp [resolve, h]

/-- A link to a name that is no link resolves to that name. -/
theorem resolve_of_link (h : fs.readlink x = some t) (ht : fs.readlink t = none) :
    fs.resolve maxSymlinks x = .ok t := by
  have hs : fs.resolve maxSymlinks x = fs.resolve 39 t := by
    change fs.resolve (39 + 1) x = _
    rw [resolve, h]
  rw [hs, resolve_of_not_link ht]

/-- Where one link leads, or the name itself. -/
def follow (fs : Fs) (x : Name) : Name := (fs.readlink x).getD x

theorem follow_of_not_link (h : fs.readlink x = none) : fs.follow x = x := by
  rw [follow, h, Option.getD_none]

theorem follow_of_link (h : fs.readlink x = some t) : fs.follow x = t := by
  rw [follow, h, Option.getD_some]

/-- A lookup ends where one link leads, if that is no link. -/
theorem resolve_follow (h : fs.readlink (fs.follow x) = none) :
    fs.resolve maxSymlinks x = .ok (fs.follow x) := by
  cases hx : fs.readlink x with
  | none => rw [resolve_of_not_link hx, follow_of_not_link hx]
  | some t =>
    rw [follow_of_link hx] at h ⊢
    exact resolve_of_link hx h

/-- A lookup that ends, ends at a name that is no link. -/
theorem readlink_of_resolve {k : ℕ} (h : fs.resolve k x = .ok y) : fs.readlink y = none := by
  induction k generalizing x with
  | zero =>
    rw [resolve] at h
    split at h
    case isTrue => exact absurd h (by simp)
    case isFalse hn =>
      obtain rfl := Except.ok.inj h
      simpa using hn
  | succ k ih =>
    rw [resolve] at h
    split at h
    case h_1 t ht => exact ih h
    case h_2 hn =>
      obtain rfl := Except.ok.inj h
      exact hn

/-- Lookups end where they ended while no link changes. -/
theorem resolve_congr (h : ∀ y, fs'.readlink y = fs.readlink y) (k : ℕ) (x : Name) :
    fs'.resolve k x = fs.resolve k x := by
  induction k generalizing x with
  | zero => rw [resolve, resolve, h]
  | succ k ih =>
    rw [resolve, resolve, h]
    split
    case h_1 t ht => exact ih t
    case h_2 => rfl

/-- What leads somewhere and is no link, is a file. -/
theorem reg_of_readlink (h : fs.readlink x = none) (hd : fs.dirent x = some i) :
    ∃ c, (fs.inode i).node = .reg c := by
  cases hn : (fs.inode i).node with
  | reg c => exact ⟨c, rfl⟩
  | lnk t =>
    rw [readlink_of_lnk (look_of_dirent hd) hn] at h
    exact absurd h (by simp)

/-- Replacing the content of a file changes no link. -/
theorem readlink_setContent (h : (fs.inode i).node = .reg c) (d : Content) (y : Name) :
    (fs.setContent i d).readlink y = fs.readlink y := by
  by_cases hy : fs.dirent y = some i
  · have hy' : (fs.setContent i d).dirent y = some i := hy
    rw [readlink_of_reg (look_of_dirent hy) h,
      readlink_of_reg (look_of_dirent hy') (node_setContent_self fs i d)]
  · rw [readlink, readlink, setContent, look_setInode_of_ne hy]

/-! ## The calls at the names they touch -/

theorem lstat_of_look (h : fs.look x = some n) : fs.lstat x = .ok n.stat := by
  rw [lstat, h]

theorem unlink_of_some (h : fs.dirent x = some i) : fs.unlink x = .ok (fs.remove x) := by
  rw [unlink, h]

theorem unlink_of_none (h : fs.dirent x = none) : fs.unlink x = .error .ENOENT := by
  rw [unlink, h]

/-- An unlink whose failure nobody looks at leaves the name leading nowhere either way. -/
@[simp] theorem unlink_getD (fs : Fs) (x : Name) :
    (fs.unlink x).toOption.getD fs = fs.remove x := by
  cases h : fs.dirent x with
  | none =>
    rw [unlink_of_none h, remove_of_none h]
    rfl
  | some i =>
    rw [unlink_of_some h]
    rfl

theorem symlink_of_none (h : fs.dirent x = none) (t : Name) :
    fs.symlink t x = .ok (fs.create x (fs.fresh (.lnk t) 0o777)) := by
  rw [symlink, h]

theorem openAt_of_not_link (hl : fs.readlink x = none) (h : fs.dirent x = some i)
    (flags : OpenFlags) : fs.openAt x flags = .ok ⟨i, flags⟩ := by
  simp only [openAt, resolve_of_not_link hl, h]

theorem openAt_of_link (hl : fs.readlink x = some t) (ht : fs.readlink t = none)
    (h : fs.dirent t = some i) (flags : OpenFlags) : fs.openAt x flags = .ok ⟨i, flags⟩ := by
  simp only [openAt, resolve_of_link hl ht, h]

/-- A link that leads nowhere cannot be opened. -/
theorem openAt_of_dangling (hl : fs.readlink x = some t) (h : fs.dirent t = none)
    (flags : OpenFlags) : fs.openAt x flags = .error .ENOENT := by
  simp only [openAt, resolve_of_link hl (readlink_of_none h), h]

theorem openAt_of_follow (hl : fs.readlink (fs.follow x) = none)
    (h : fs.dirent (fs.follow x) = some i) (flags : OpenFlags) :
    fs.openAt x flags = .ok ⟨i, flags⟩ := by
  simp only [openAt, resolve_follow hl, h]

theorem creat_of_none (h : fs.dirent x = none) (mode : UInt32) :
    fs.creat x mode = .ok (⟨fs.next, ⟨.rdwr, false⟩⟩,
      fs.create x (fs.fresh (.reg Content.empty) (mode &&& ~~~fs.umask))) := by
  simp only [creat, resolve_of_not_link (readlink_of_none h), h]

theorem creat_of_some (hl : fs.readlink x = none) (h : fs.dirent x = some i) (mode : UInt32) :
    fs.creat x mode = .ok (⟨i, ⟨.rdwr, false⟩⟩, fs.setContent i Content.empty) := by
  simp only [creat, resolve_of_not_link hl, h]

theorem accessible_of_not_link (hl : fs.readlink x = none) :
    fs.accessible x = (fs.dirent x).isSome := by
  simp only [accessible, resolve_of_not_link hl]

theorem contentOf_of_reg (h : (fs.inode i).node = .reg c) : fs.contentOf i = c := by
  rw [contentOf, h]

theorem pread_of_reg {f : OpenFile} (hr : f.flags.readable = true)
    (h : (fs.inode f.ino).node = .reg c) (off k : ℕ) :
    fs.pread f off k = .ok (c.bytes.slice off k) := by
  simp only [pread, hr, h, if_true]

/-- A write an open file accepts replaces the content of its inode. -/
theorem pwrite_of_reg {f : OpenFile} (hw : f.flags.writable = true)
    (h : (fs.inode f.ino).node = .reg c) {off : ℕ} {s : Bytes}
    (hd : c.write (f.flags.landing c off) s = some d) :
    fs.pwrite f off s = .ok (fs.setContent f.ino d) := by
  simp only [pwrite, hw, h, hd, if_true]

/-- What a successful write did. -/
theorem pwrite_eq_ok_iff {f : OpenFile} {off : ℕ} {s : Bytes} :
    fs.pwrite f off s = .ok fs' ↔ f.flags.writable = true ∧ ∃ c d,
      (fs.inode f.ino).node = .reg c ∧ c.write (f.flags.landing c off) s = some d ∧
        fs' = fs.setContent f.ino d := by
  constructor
  · intro h
    unfold pwrite at h
    split at h
    case isFalse => exact absurd h (by simp)
    case isTrue hw =>
      split at h
      case h_2 => exact absurd h (by simp)
      case h_1 c hc =>
        split at h
        case h_2 => exact absurd h (by simp)
        case h_1 d hd => exact ⟨hw, c, d, hc, hd, (Except.ok.inj h).symm⟩
  · rintro ⟨hw, c, d, hc, hd, rfl⟩
    exact pwrite_of_reg hw hc hd

/-- What a successful truncation did, where the name leads to no second link. -/
theorem truncate_eq_ok_iff (hl : fs.readlink (fs.follow x) = none) {k : ℕ} :
    fs.truncate x k = .ok fs' ↔ ∃ i c d, fs.dirent (fs.follow x) = some i ∧
      (fs.inode i).node = .reg c ∧ c.resize k = some d ∧ fs' = fs.setContent i d := by
  simp only [truncate, resolve_follow hl]
  constructor
  · intro h
    split at h
    case h_1 => exact absurd h (by simp)
    case h_2 i hi =>
      split at h
      case h_1 => exact absurd h (by simp)
      case h_2 c hc =>
        split at h
        case h_2 => exact absurd h (by simp)
        case h_1 d hd => exact ⟨i, c, d, hi, hc, hd, (Except.ok.inj h).symm⟩
  · rintro ⟨i, c, d, hi, hc, hd, rfl⟩
    simp only [hi, hc, hd]

/-- What a utimens that returned did. -/
theorem utimens_eq_ok {a m : Timespec} (h : fs.utimens x a m = .ok fs') :
    ∃ i, fs.dirent x = some i ∧ fs' = fs.setInode i ((fs.inode i).stamped fs.clock a m) := by
  unfold utimens at h
  split at h
  case isFalse => exact absurd h (by simp)
  case isTrue =>
    split at h
    case h_1 => exact absurd h (by simp)
    case h_2 i hi => exact ⟨i, hi, (Except.ok.inj h).symm⟩

/-! ## A file stored whole -/

/-- The file `x` made to hold `c`: truncated if it is there, created if it is not. -/
def store (fs : Fs) (x : Name) (c : Content) (mode : UInt32) : Fs :=
  match fs.dirent x with
  | some i => fs.setContent i c
  | none => fs.create x (fs.fresh (.reg c) (mode &&& ~~~fs.umask))

theorem look_store_of_ne (hy : y ≠ x) (mode : UInt32) :
    (fs.store x c mode).look y = fs.look y := by
  unfold store
  split
  case h_1 i hi => exact look_setInode_of_ne fun hd => hy (fs.dirent_inj hd hi)
  case h_2 => exact look_create_of_ne hy

theorem dirent_store_of_ne (hy : y ≠ x) (mode : UInt32) :
    (fs.store x c mode).dirent y = fs.dirent y := by
  unfold store
  split
  case h_1 => rfl
  case h_2 => exact dirent_create_of_ne hy

/-- A stored file holds what was stored. -/
theorem look_store_self (fs : Fs) (x : Name) (c : Content) (mode : UInt32) :
    ∃ n, (fs.store x c mode).look x = some n ∧ n.node = .reg c := by
  unfold store
  split
  case h_1 i hi =>
    have hd : (fs.setContent i c).dirent x = some i := hi
    exact ⟨_, look_of_dirent hd, node_setContent_self fs i c⟩
  case h_2 => exact ⟨_, look_create_self .., rfl⟩

theorem next_le_next_store (fs : Fs) (x : Name) (c : Content) (mode : UInt32) :
    fs.next ≤ (fs.store x c mode).next := by
  unfold store
  split
  case h_1 => exact le_rfl
  case h_2 => exact Nat.le_succ _

/-- Storing a file changes no inode but its own. -/
theorem inode_store_of_ne (hi : i < fs.next) (hx : fs.dirent x ≠ some i) (mode : UInt32) :
    (fs.store x c mode).inode i = fs.inode i := by
  unfold store
  split
  case h_1 j hj => exact inode_setContent_of_ne fun e => hx (e ▸ hj)
  case h_2 => exact inode_create_of_lt hi

/-- Creating or truncating a file leaves it empty. -/
theorem creat_eq_store (hl : fs.readlink x = none) (mode : UInt32) :
    ∃ f, fs.creat x mode = .ok (f, fs.store x Content.empty mode) := by
  cases h : fs.dirent x with
  | some i => exact ⟨_, by rw [creat_of_some hl h, store, h]⟩
  | none => exact ⟨_, by rw [creat_of_none h, store, h]⟩

/-- **Creating or truncating a file and writing it once stores it whole.** -/
theorem creat_pwrite (hl : fs.readlink x = none) (c : Content) (mode : UInt32) :
    ∃ f fs₁, fs.creat x mode = .ok (f, fs₁) ∧ fs₁.pwrite f 0 c.bytes = .ok (fs.store x c mode) := by
  have hw : Content.empty.write (OpenFlags.landing ⟨.rdwr, false⟩ Content.empty 0) c.bytes
      = some c := by
    have hlt : 0 + c.bytes.length < offBound := by
      rw [Nat.zero_add]
      exact c.size_lt
    have hb : Bytes.overwrite [] 0 c.bytes = c.bytes := by
      cases hc : c.bytes <;> simp [Bytes.overwrite, Bytes.resize]
    rw [OpenFlags.landing, if_neg (by simp), Content.write, dif_pos hlt]
    exact congrArg some (Content.ext hb)
  cases h : fs.dirent x with
  | some i =>
    refine ⟨_, _, creat_of_some hl h mode, ?_⟩
    rw [pwrite_of_reg rfl (node_setContent_self fs i Content.empty) hw, setContent_setContent,
      store, h]
  | none =>
    refine ⟨_, _, creat_of_none h mode, ?_⟩
    rw [pwrite_of_reg (c := Content.empty) rfl (by rw [inode_create_next]; rfl) hw,
      setContent_create, store, h]

/-- **Creating or truncating a file and filling it stores it whole** — through a link, where that
leads. -/
theorem creat_setContent (hl : fs.readlink (fs.follow x) = none) (c : Content) (mode : UInt32) :
    ∃ f fs₁, fs.creat x mode = .ok (f, fs₁) ∧
      fs₁.setContent f.ino c = fs.store (fs.follow x) c mode ∧
      (fs.store (fs.follow x) c mode).dirent (fs.follow x) = some f.ino := by
  cases h : fs.dirent (fs.follow x) with
  | some i =>
    refine ⟨⟨i, ⟨.rdwr, false⟩⟩, fs.setContent i Content.empty, ?_, ?_, ?_⟩
    · simp only [creat, resolve_follow hl, h]
    · rw [setContent_setContent, store, h]
    · rw [store, h, dirent_setContent, h]
  | none =>
    refine ⟨⟨fs.next, ⟨.rdwr, false⟩⟩, fs.create (fs.follow x)
      (fs.fresh (.reg Content.empty) (mode &&& ~~~fs.umask)), ?_, ?_, ?_⟩
    · simp only [creat, resolve_follow hl, h]
    · rw [setContent_create, store, h]
    · rw [store, h, dirent_create_self]

/-- **A file just created or truncated, and filled, is read back**, however the name leads to it. -/
theorem openAt_creat {mode : UInt32} {f : OpenFile} (h : fs.creat x mode = .ok (f, fs')) (d : Content)
    (flags : OpenFlags) : (fs'.setContent f.ino d).openAt x flags = .ok ⟨f.ino, flags⟩ := by
  unfold creat at h
  split at h
  case h_1 => exact absurd h (by simp)
  case h_2 y hy =>
    have hl := readlink_of_resolve hy
    split at h
    case h_1 i hi =>
      obtain ⟨rfl, rfl⟩ := Prod.mk.inj (Except.ok.inj h)
      obtain ⟨c, hc⟩ := reg_of_readlink hl hi
      rw [setContent_setContent]
      have hr := resolve_congr (readlink_setContent hc d) maxSymlinks x
      simp only [openAt, hr, hy, dirent_setContent, hi]
    case h_2 hi =>
      obtain ⟨rfl, rfl⟩ := Prod.mk.inj (Except.ok.inj h)
      rw [setContent_create]
      have hr : ∀ z, (fs.create y (fs.fresh (.reg d) (mode &&& ~~~fs.umask))).readlink z
          = fs.readlink z := by
        intro z
        by_cases hz : z = y
        · rw [hz, readlink_of_reg (look_create_self ..) rfl, hl]
        · rw [readlink, look_create_of_ne hz, readlink]
      simp only [openAt, resolve_congr hr, hy, dirent_create_self]

/-- Storing where a name leads does not change where it leads. -/
theorem follow_store (hl : fs.readlink (fs.follow x) = none) (c : Content) (mode : UInt32) :
    (fs.store (fs.follow x) c mode).follow x = fs.follow x := by
  obtain ⟨n, hn, hnc⟩ := look_store_self fs (fs.follow x) c mode
  cases hx : fs.readlink x with
  | none =>
    rw [follow_of_not_link hx] at hn ⊢
    exact follow_of_not_link (readlink_of_reg hn hnc)
  | some t =>
    rw [follow_of_link hx] at hl ⊢
    have hne : x ≠ t := by
      rintro rfl
      rw [hx] at hl
      exact absurd hl (by simp)
    have hr : (fs.store t c mode).readlink x = some t := by
      rw [readlink, look_store_of_ne hne, ← readlink, hx]
    exact follow_of_link hr

end Fs

end Posix
