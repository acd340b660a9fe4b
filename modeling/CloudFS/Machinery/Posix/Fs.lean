import CloudFS.Machinery.Posix.Stat
import Mathlib.Logic.Function.Basic

/-!
# Machinery/Posix/Fs — a file system of directory entries and inodes

Absolute names lead to inode numbers, inode numbers to inodes; an open file holds an inode number,
so it outlives its name.  The name space is flat: a name is a whole absolute path, and the
directory a name lies in is taken to exist.  `Fs` carries the two facts that keep names apart —
inode numbers are handed out in order, and no two names lead to one inode — so no caller re-proves
them.
-/

namespace Posix

/-- An absolute path name. -/
abbrev Name := List Char

/-- An inode number. -/
abbrev Ino := ℕ

/-- The error numbers a call can fail with. -/
inductive Errno
  | ENOENT | EEXIST | EBADF | EFBIG | EINVAL | ELOOP | EIO | ENOSPC | ENAMETOOLONG
  | other (code : ℕ)
  deriving DecidableEq

/-- The nanoseconds that ask `utimensat` for the current time. -/
def UTIME_NOW : UInt32 := 0x3fffffff

/-- The nanoseconds that ask `utimensat` to leave the time as it is. -/
def UTIME_OMIT : UInt32 := 0x3ffffffe

namespace Timespec

/-- The nanoseconds are below a second. -/
def Valid (t : Timespec) : Prop := t.tv_nsec < 1000000000

instance (t : Timespec) : Decidable t.Valid := inferInstanceAs (Decidable (_ < _))

/-- `utimensat` accepts the nanoseconds. -/
def Settable (t : Timespec) : Prop := t.Valid ∨ t.tv_nsec = UTIME_NOW ∨ t.tv_nsec = UTIME_OMIT

instance (t : Timespec) : Decidable t.Settable := inferInstanceAs (Decidable (_ ∨ _))

/-- The time `utimensat` sets where it was `old`. -/
def setOver (t old clock : Timespec) : Timespec :=
  if t.tv_nsec = UTIME_NOW then clock else if t.tv_nsec = UTIME_OMIT then old else t

/-- A time proper is set as it is. -/
theorem Valid.setOver_eq {t : Timespec} (h : t.Valid) (old clock : Timespec) :
    t.setOver old clock = t := by
  have hn : t.tv_nsec ≠ UTIME_NOW := fun e => absurd (e ▸ h : UTIME_NOW < 1000000000) (by decide)
  have ho : t.tv_nsec ≠ UTIME_OMIT := fun e => absurd (e ▸ h : UTIME_OMIT < 1000000000) (by decide)
  rw [setOver, if_neg hn, if_neg ho]

end Timespec

/-- What an inode is: a regular file or a symbolic link. -/
inductive Node
  | reg (content : Content)
  | lnk (target : Name)
  deriving DecidableEq

/-- An inode. -/
structure Inode where
  node : Node
  perm : UInt32
  atim : Timespec
  mtim : Timespec
  deriving DecidableEq

namespace Inode

/-- The type bits of an inode. -/
def type (n : Inode) : UInt32 :=
  match n.node with
  | .reg _ => S_IFREG
  | .lnk _ => S_IFLNK

/-- The size `lstat` reports; a link has the length of its target. -/
def size (n : Inode) : ℕ :=
  match n.node with
  | .reg c => c.size
  | .lnk t => t.length

/-- What `lstat` fills in. -/
def stat (n : Inode) : Stat where
  st_mode := n.type ||| (n.perm &&& 0o7777)
  st_size := UInt64.ofNat n.size
  st_atim := n.atim
  st_mtim := n.mtim

/-- The inode with its times set. -/
def stamped (n : Inode) (clock atim mtim : Timespec) : Inode :=
  { n with atim := atim.setOver n.atim clock, mtim := mtim.setOver n.mtim clock }

theorem isLnk_stat (n : Inode) : S_ISLNK n.stat.st_mode = (n.type == S_IFLNK) := by
  have h : n.type &&& S_IFMT = n.type := by
    unfold type
    split <;> decide
  rw [S_ISLNK, stat, type_or_perm _ _ h]

/-- A regular file is not reported as a link. -/
theorem isLnk_stat_reg {n : Inode} {c : Content} (h : n.node = .reg c) :
    S_ISLNK n.stat.st_mode = false := by
  rw [isLnk_stat, type, h]
  rfl

/-- A link is reported as one. -/
theorem isLnk_stat_lnk {n : Inode} {t : Name} (h : n.node = .lnk t) :
    S_ISLNK n.stat.st_mode = true := by
  rw [isLnk_stat, type, h]
  rfl

/-- **`st_size` of a regular file is its length** — an `off_t` holds it. -/
theorem st_size_reg {n : Inode} {c : Content} (h : n.node = .reg c) :
    n.stat.st_size.toNat = c.size := by
  have hs : n.size = c.size := by rw [size, h]
  have hc := c.size_lt_offBound
  have hb : offBound < UInt64.size := by decide
  rw [stat, hs, UInt64.toNat_ofNat_of_lt' (by omega)]

end Inode

/-! ## Open files -/

/-- The access mode of an open file. -/
inductive AccMode
  | rdonly | wronly | rdwr
  deriving DecidableEq

/-- The flags of an open file: its access mode and `O_APPEND`. -/
structure OpenFlags where
  acc : AccMode
  append : Bool
  deriving DecidableEq

/-- Whether reads are allowed. -/
def OpenFlags.readable (f : OpenFlags) : Bool := f.acc != .wronly

/-- Whether writes are allowed. -/
def OpenFlags.writable (f : OpenFlags) : Bool := f.acc != .rdonly

/-- Where in content `c` a write at `off` lands: at its end under `O_APPEND`. -/
def OpenFlags.landing (f : OpenFlags) (c : Content) (off : ℕ) : ℕ :=
  if f.append then c.size else off

/-- An open file: the inode it reads and writes, and its flags. -/
structure OpenFile where
  ino : Ino
  flags : OpenFlags
  deriving DecidableEq

/-- A failing call: `some e` makes the call fail with `e`, `none` leaves it alone. -/
abbrev Fault := Option Errno

/-- A call disturbed by a fault. -/
def disturb {α : Type} (f : Fault) (r : Except Errno α) : Except Errno α :=
  match f with
  | some e => .error e
  | none => r

@[simp] theorem disturb_none {α : Type} (r : Except Errno α) : disturb none r = r := rfl

@[simp] theorem disturb_some {α : Type} (e : Errno) (r : Except Errno α) :
    disturb (some e) r = .error e := rfl

/-- A call that returns undisturbed or not, returned what the call itself returns. -/
theorem eq_ok_of_disturb {α : Type} {f : Fault} {r : Except Errno α} {a : α}
    (h : disturb f r = .ok a) : f = none ∧ r = .ok a := by
  cases f with
  | none => exact ⟨rfl, h⟩
  | some e => exact absurd h (by simp)

/-! ## The file system -/

/-- A file system.  `clock` stamps what is created or written, `umask` masks what is created. -/
structure Fs where
  dirent : Name → Option Ino
  inode : Ino → Inode
  next : Ino
  umask : UInt32
  clock : Timespec
  dirent_lt : ∀ {x i}, dirent x = some i → i < next
  dirent_inj : ∀ {x y i}, dirent x = some i → dirent y = some i → x = y

namespace Fs

/-- A file system with no files. -/
def empty (umask : UInt32) (clock : Timespec) : Fs where
  dirent _ := none
  inode _ := ⟨.reg Content.empty, 0, clock, clock⟩
  next := 0
  umask := umask
  clock := clock
  dirent_lt h := absurd h (by simp)
  dirent_inj h := absurd h (by simp)

/-- The inode a name leads to, not following a link. -/
def look (fs : Fs) (x : Name) : Option Inode := (fs.dirent x).map fs.inode

/-- The target of the link a name leads to. -/
def readlink (fs : Fs) (x : Name) : Option Name :=
  match fs.look x with
  | some ⟨.lnk t, _, _, _⟩ => some t
  | _ => none

/-- Where a name leads when links are followed, at most `n` of them. -/
def resolve (fs : Fs) : ℕ → Name → Except Errno Name
  | 0, x => if (fs.readlink x).isSome then .error .ELOOP else .ok x
  | n + 1, x =>
    match fs.readlink x with
    | some t => fs.resolve n t
    | none => .ok x

/-- How many links a lookup follows. -/
def maxSymlinks : ℕ := 40

/-- A new inode of the file system's current time. -/
def fresh (fs : Fs) (node : Node) (perm : UInt32) : Inode := ⟨node, perm, fs.clock, fs.clock⟩

/-- `x` made to lead to a new inode `n`. -/
def create (fs : Fs) (x : Name) (n : Inode) : Fs where
  dirent := Function.update fs.dirent x (some fs.next)
  inode := Function.update fs.inode fs.next n
  next := fs.next + 1
  umask := fs.umask
  clock := fs.clock
  dirent_lt {y i} h := by
    by_cases hy : y = x
    · rw [hy, Function.update_self] at h
      obtain rfl := Option.some.inj h
      exact Nat.lt_succ_self _
    · rw [Function.update_of_ne hy] at h
      exact Nat.lt_succ_of_lt (fs.dirent_lt h)
  dirent_inj {y z i} hy hz := by
    by_cases hyx : y = x <;> by_cases hzx : z = x
    · rw [hyx, hzx]
    · rw [hyx, Function.update_self] at hy
      rw [Function.update_of_ne hzx, ← hy] at hz
      exact absurd (fs.dirent_lt hz) (lt_irrefl _)
    · rw [hzx, Function.update_self] at hz
      rw [Function.update_of_ne hyx, ← hz] at hy
      exact absurd (fs.dirent_lt hy) (lt_irrefl _)
    · rw [Function.update_of_ne hyx] at hy
      rw [Function.update_of_ne hzx] at hz
      exact fs.dirent_inj hy hz

/-- `x` made to lead nowhere. -/
def remove (fs : Fs) (x : Name) : Fs where
  dirent := Function.update fs.dirent x none
  inode := fs.inode
  next := fs.next
  umask := fs.umask
  clock := fs.clock
  dirent_lt {y i} h := by
    by_cases hy : y = x
    · rw [hy, Function.update_self] at h
      exact absurd h (by simp)
    · rw [Function.update_of_ne hy] at h
      exact fs.dirent_lt h
  dirent_inj {y z i} hy hz := by
    by_cases hyx : y = x
    · rw [hyx, Function.update_self] at hy
      exact absurd hy (by simp)
    by_cases hzx : z = x
    · rw [hzx, Function.update_self] at hz
      exact absurd hz (by simp)
    rw [Function.update_of_ne hyx] at hy
    rw [Function.update_of_ne hzx] at hz
    exact fs.dirent_inj hy hz

/-- Inode `i` replaced by `n`. -/
def setInode (fs : Fs) (i : Ino) (n : Inode) : Fs :=
  { fs with inode := Function.update fs.inode i n }

/-- Inode `i` with its content replaced and its modification time stamped. -/
def setContent (fs : Fs) (i : Ino) (c : Content) : Fs :=
  fs.setInode i { fs.inode i with node := .reg c, mtim := fs.clock }

/-! ## The calls -/

/-- `lstat(2)`. -/
def lstat (fs : Fs) (x : Name) : Except Errno Stat :=
  match fs.look x with
  | some n => .ok n.stat
  | none => .error .ENOENT

/-- `fstat(2)`. -/
def fstat (fs : Fs) (f : OpenFile) : Stat := (fs.inode f.ino).stat

/-- `access(2)` with `F_OK`, which follows links. -/
def accessible (fs : Fs) (x : Name) : Bool :=
  match fs.resolve maxSymlinks x with
  | .ok y => (fs.dirent y).isSome
  | .error _ => false

/-- `unlink(2)`. -/
def unlink (fs : Fs) (x : Name) : Except Errno Fs :=
  match fs.dirent x with
  | some _ => .ok (fs.remove x)
  | none => .error .ENOENT

/-- `symlink(2)`: `x` made a link to `target`. -/
def symlink (fs : Fs) (target x : Name) : Except Errno Fs :=
  match fs.dirent x with
  | some _ => .error .EEXIST
  | none => .ok (fs.create x (fs.fresh (.lnk target) 0o777))

/-- `mknod(2)` of a regular file. -/
def mknod (fs : Fs) (x : Name) (mode : UInt32) : Except Errno Fs :=
  match fs.dirent x with
  | some _ => .error .EEXIST
  | none => .ok (fs.create x (fs.fresh (.reg Content.empty) (mode &&& ~~~fs.umask)))

/-- `open(2)` of an existing file. -/
def openAt (fs : Fs) (x : Name) (flags : OpenFlags) : Except Errno OpenFile :=
  match fs.resolve maxSymlinks x with
  | .error e => .error e
  | .ok y =>
    match fs.dirent y with
    | some i => .ok ⟨i, flags⟩
    | none => .error .ENOENT

/-- `open(2)` with `O_RDWR | O_CREAT | O_TRUNC`, which is also `fopen(3)` with `"w+"`. -/
def creat (fs : Fs) (x : Name) (mode : UInt32) : Except Errno (OpenFile × Fs) :=
  match fs.resolve maxSymlinks x with
  | .error e => .error e
  | .ok y =>
    match fs.dirent y with
    | some i => .ok (⟨i, ⟨.rdwr, false⟩⟩, fs.setContent i Content.empty)
    | none => .ok (⟨fs.next, ⟨.rdwr, false⟩⟩,
        fs.create y (fs.fresh (.reg Content.empty) (mode &&& ~~~fs.umask)))

/-- `pread(2)`. -/
def pread (fs : Fs) (f : OpenFile) (off n : ℕ) : Except Errno Bytes :=
  if f.flags.readable then
    match (fs.inode f.ino).node with
    | .reg c => .ok (c.bytes.slice off n)
    | .lnk _ => .error .EINVAL
  else .error .EBADF

/-- `pwrite(2)`, which under `O_APPEND` appends whatever offset the caller asks for. -/
def pwrite (fs : Fs) (f : OpenFile) (off : ℕ) (s : Bytes) : Except Errno Fs :=
  if f.flags.writable then
    match (fs.inode f.ino).node with
    | .reg c =>
      match c.write (f.flags.landing c off) s with
      | some d => .ok (fs.setContent f.ino d)
      | none => .error .EFBIG
    | .lnk _ => .error .EINVAL
  else .error .EBADF

/-- `truncate(2)`, which follows links. -/
def truncate (fs : Fs) (x : Name) (n : ℕ) : Except Errno Fs :=
  match fs.resolve maxSymlinks x with
  | .error e => .error e
  | .ok y =>
    match fs.dirent y with
    | none => .error .ENOENT
    | some i =>
      match (fs.inode i).node with
      | .lnk _ => .error .EINVAL
      | .reg c =>
        match c.resize n with
        | some d => .ok (fs.setContent i d)
        | none => .error .EFBIG

/-- `utimensat(2)` with `AT_SYMLINK_NOFOLLOW`. -/
def utimens (fs : Fs) (x : Name) (atim mtim : Timespec) : Except Errno Fs :=
  if atim.Settable ∧ mtim.Settable then
    match fs.dirent x with
    | none => .error .ENOENT
    | some i => .ok (fs.setInode i ((fs.inode i).stamped fs.clock atim mtim))
  else .error .EINVAL

/-- The content an open file has, nothing for a link. -/
def contentOf (fs : Fs) (i : Ino) : Content :=
  match (fs.inode i).node with
  | .reg c => c
  | .lnk _ => Content.empty

end Fs

end Posix
