import CloudFS.Machinery.Bytes

/-!
# Machinery/Posix/Stat — `struct stat` and its bytes

The fields of a `struct stat` that a program can tell apart here (mode, size, access and
modification time), and the 96-byte image of the 32-bit large-file layout; every other field is
laid out as zero bytes.  `Stat.decode` reads the image back into a zeroed structure, so a file
shorter than a `struct stat` decodes to the fields it covers (`Stat.decode_encode`).
-/

namespace Posix

/-- A `struct timespec` of a 32-bit `time_t`. -/
structure Timespec where
  tv_sec : UInt32
  tv_nsec : UInt32
  deriving DecidableEq, Inhabited

/-- The part of a `struct stat` that is looked at. -/
structure Stat where
  st_mode : UInt32
  st_size : UInt64
  st_atim : Timespec
  st_mtim : Timespec
  deriving DecidableEq, Inhabited

/-- The file-type bits of a mode. -/
def S_IFMT : UInt32 := 0o170000

/-- The type of a regular file. -/
def S_IFREG : UInt32 := 0o100000

/-- The type of a symbolic link. -/
def S_IFLNK : UInt32 := 0o120000

/-- Whether a mode is that of a symbolic link. -/
def S_ISLNK (mode : UInt32) : Bool := mode &&& S_IFMT == S_IFLNK

/-- The permission bits of a mode never hide its type. -/
theorem type_or_perm (ty perm : UInt32) (hty : ty &&& S_IFMT = ty) :
    (ty ||| (perm &&& 0o7777)) &&& S_IFMT = ty := by
  have hz : (0o7777 : UInt32) &&& S_IFMT = 0 := by decide
  have hd : (ty ||| (perm &&& 0o7777)) &&& S_IFMT
      = (ty &&& S_IFMT) ||| ((perm &&& 0o7777) &&& S_IFMT) :=
    UInt32.eq_of_toBitVec_eq (by
      simp only [UInt32.toBitVec_and, UInt32.toBitVec_or]
      rw [BitVec.and_comm, BitVec.and_or_distrib_left, BitVec.and_comm, BitVec.and_comm S_IFMT.1])
  rw [hd, hty, UInt32.and_assoc, hz, UInt32.and_zero, UInt32.or_zero]

namespace Stat

/-- `sizeof(struct stat)`. -/
def sizeof : ℕ := 96

/-- The zero bytes of the fields nobody looks at. -/
def pad (n : ℕ) : Bytes := List.replicate n 0

/-- The image `write(fd, stbuf, sizeof(struct stat))` stores. -/
def encode (s : Stat) : Bytes :=
  pad 16 ++ Bytes.leBytes 4 s.st_mode.toNat ++ pad 24 ++ Bytes.leBytes 8 s.st_size.toNat
    ++ pad 12 ++ Bytes.leBytes 4 s.st_atim.tv_sec.toNat ++ Bytes.leBytes 4 s.st_atim.tv_nsec.toNat
    ++ Bytes.leBytes 4 s.st_mtim.tv_sec.toNat ++ Bytes.leBytes 4 s.st_mtim.tv_nsec.toNat ++ pad 16

/-- The `w`-byte field at offset `off` of an image, zero-extended to a whole `struct stat`. -/
def field (b : Bytes) (off w : ℕ) : ℕ := Bytes.leValue ((b.resize sizeof).slice off w)

/-- What `read(fd, stbuf, sizeof(struct stat))` leaves in a zeroed structure. -/
def decode (b : Bytes) : Stat where
  st_mode := UInt32.ofNat (field b 16 4)
  st_size := UInt64.ofNat (field b 44 8)
  st_atim := ⟨UInt32.ofNat (field b 64 4), UInt32.ofNat (field b 68 4)⟩
  st_mtim := ⟨UInt32.ofNat (field b 72 4), UInt32.ofNat (field b 76 4)⟩

@[simp] theorem length_pad (n : ℕ) : (pad n).length = n := List.length_replicate

@[simp] theorem length_encode (s : Stat) : s.encode.length = sizeof := by
  simp [encode, sizeof]

/-- The content of a file that holds an image. -/
def content (s : Stat) : Content := ⟨s.encode, by rw [length_encode]; decide⟩

/-- A field of an image is the slice laid out there. -/
theorem field_encode (s : Stat) (off w : ℕ) :
    field s.encode off w = Bytes.leValue (s.encode.slice off w) := by
  have h : s.encode.resize sizeof = s.encode := by rw [← length_encode s, Bytes.resize_length]
  rw [field, h]

theorem leValue_word32 (v : UInt32) : UInt32.ofNat (Bytes.leBytes 4 v.toNat).leValue = v := by
  rw [Bytes.leValue_leBytes_of_lt v.toNat_lt, UInt32.ofNat_toNat]

theorem leValue_word64 (v : UInt64) : UInt64.ofNat (Bytes.leBytes 8 v.toNat).leValue = v := by
  rw [Bytes.leValue_leBytes_of_lt v.toNat_lt, UInt64.ofNat_toNat]

/-- **Reading an image back gives the structure it was written from.** -/
@[simp] theorem decode_encode (s : Stat) : decode s.encode = s := by
  simp only [decode, field_encode]
  obtain ⟨mode, size, ⟨asec, ansec⟩, ⟨msec, mnsec⟩⟩ := s
  simp [encode, List.append_assoc, Bytes.slice_append_of_le, Bytes.slice_append_zero,
    leValue_word32, leValue_word64]

/-! ## Images that were cut -/

/-- A field of an image is that many of its bytes. -/
theorem field_eq (b : Bytes) {off w : ℕ} (h : off + w ≤ sizeof) :
    field b off w = Bytes.leValue (b.drop off) % 256 ^ w := by
  rw [field, Bytes.slice, Bytes.drop_resize, Bytes.take_resize _ (by omega), Bytes.leValue_resize]

/-- **A field of an image that was cut** keeps the bytes before the cut. -/
theorem field_resize (b : Bytes) (n : ℕ) {off w : ℕ} (h : off + w ≤ sizeof) :
    field (b.resize n) off w = field b off w % 256 ^ (n - off) := by
  rw [field_eq _ h, field_eq _ h, Bytes.drop_resize, Bytes.leValue_resize]
  rcases le_total w (n - off) with hw | hw
  · rw [Nat.mod_mod_eq_mod_mod_of_dvd (pow_dvd_pow 256 hw)]
  · rw [Nat.mod_mod_eq_mod_mod_of_dvd (pow_dvd_pow 256 hw)]

theorem st_size_decode (b : Bytes) : (decode b).st_size.toNat = field b 44 8 := by
  have h : field b 44 8 < UInt64.size := by
    rw [field_eq b (by decide)]
    exact Nat.mod_lt _ (by decide)
  exact UInt64.toNat_ofNat_of_lt' h

/-- The size read from an image that was cut. -/
theorem st_size_decode_resize (b : Bytes) (n : ℕ) :
    (decode (b.resize n)).st_size.toNat = (decode b).st_size.toNat % 256 ^ (n - 44) := by
  rw [st_size_decode, st_size_decode, field_resize b n (by decide)]

end Stat

end Posix
