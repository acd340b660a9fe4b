import CloudFS.Mount.Arguments
import CloudFS.Session.Leaves

/-!
# Mount/Threshold — the threshold a mount is given

`-t n` sets the threshold to `n * 1024` as an `int`, which is the product only for `n` below 2 MB.
`cloudfs_release` compares it with the size of a file unless the session opened a proxy and wrote
nothing, so a file is placed as the option says exactly when the two thresholds agree on its size
(`threshold_option_iff`).
-/

namespace CloudFS

open Posix Posix.Fs

/-- **The file is placed as a threshold of `n` KB asks**: content `c` stays on the SSD if it has at
most `n * 1024` bytes, and is the object of a proxy if it has more. -/
def PlacedFor (st : CloudfsState) (w : World) (p : Name) (c : Content) (n : ℕ) : Prop :=
  (c.size ≤ n * 1024 → entry st w p = some (.reg c)) ∧
    (n * 1024 < c.size → entry st w p = some (.lnk (getMetadataPath st p)) ∧
      w.bucket (getKey p) = some c)

instance (st : CloudfsState) (w : World) (p : Name) (c : Content) (n : ℕ) :
    Decidable (PlacedFor st w p c n) :=
  inferInstanceAs (Decidable (_ ∧ _))

variable {st : CloudfsState} {w : World} {p t : Name} {c : Content} {n s : ℕ} {opts : List Opt}

/-- The product as an `int` and the product agree on a size exactly when the `int` holds the product
or the size is not between the two. -/
theorem int_product_iff (hn : n < 2 ^ 31) :
    ((Int32.ofNat n * 1024).toInt < s ↔ n * 1024 < s) ↔
      n < 2 ^ 21 ∨ (s : ℤ) ≤ (Int32.ofNat n * 1024).toInt ∨ n * 1024 < s := by
  have hk : (1024 : Int32).toInt = 1024 := rfl
  have hsize : ((2 ^ 32 : ℕ) : ℤ) = 4294967296 := rfl
  rw [Int32.toInt_mul, Int32.toInt_ofNat_of_lt hn, hk, Int.bmod_def, hsize]
  split <;> omega

/-- A file on the SSD is placed right exactly when it is not too large for it. -/
theorem placedFor_reg_iff (h : entry st w p = some (.reg c)) :
    PlacedFor st w p c n ↔ ¬ n * 1024 < c.size := by
  simp [PlacedFor, h]

/-- A proxy is placed right exactly when its object is too large for the SSD. -/
theorem placedFor_lnk_iff (h : entry st w p = some (.lnk t)) (ht : t = getMetadataPath st p)
    (hb : w.bucket (getKey p) = some c) : PlacedFor st w p c n ↔ n * 1024 < c.size := by
  simp [PlacedFor, h, ht, hb]

/-- **A session leaves its file where the threshold option says exactly when** the `int` threshold
and the product of the option place it alike: where the release compares sizes, the option is below
2 MB or the size is not between the two; where a session only read an object, the object has more
than the option allows on the SSD. -/
theorem threshold_option_iff (hparse : parseArguments opts = .ok st)
    (hlast : (opts.filterMap Opt.thresholdArg).getLast? = some t) (ht : atoi t = Int32.ofNat n)
    (hn : n < 2 ^ 31) (hw : Reachable st w) (hp : '/' ∈ p) {s : Session} (hc : s.Calm) :
    PlacedFor st (Machine.run (serve st) w (s.reqs p w.files.next)).1 p (s.left (stored w p)) n ↔
      if (w.bucket (getKey p)).isSome ∧ s.writes = false then
        n * 1024 < (s.left (stored w p)).size
      else n < 2 ^ 21 ∨ ((s.left (stored w p)).size : ℤ) ≤ (Int32.ofNat n * 1024).toInt ∨
        n * 1024 < (s.left (stored w p)).size := by
  have ha := hw.apart hp
  have hT : st.threshold = (Int32.ofNat n * 1024).toInt := by
    rw [threshold_parseArguments hparse, hlast, Option.map_some, Option.getD_some, ht]
  by_cases hclean : (w.bucket (getKey p)).isSome ∧ s.writes = false
  · rw [if_pos hclean]
    obtain ⟨he, -, hb⟩ := session_reads ha hc hclean.1 hclean.2
    obtain ⟨o, ho⟩ := Option.isSome_iff_exists.1 hclean.1
    refine placedFor_lnk_iff he rfl ?_
    rw [hb, Session.left_of_not_writes hclean.2, stored, ho]
    rfl
  · rw [if_neg hclean, ← int_product_iff hn, ← hT]
    by_cases hu : st.threshold < (s.left (stored w p)).size
    · obtain ⟨he, -, -, hb⟩ := session_uploads ha hc hclean hu
      rw [placedFor_lnk_iff he rfl hb]
      exact ⟨fun h => iff_of_true hu h, fun h => h.1 hu⟩
    · obtain ⟨hl, hn', -⟩ := session_stays ha hc hclean hu
      have he : entry st (Machine.run (serve st) w (s.reqs p w.files.next)).1 p
          = some (.reg (s.left (stored w p))) := by
        rw [entry, hl, Option.map_some, hn']
      rw [placedFor_reg_iff he]
      exact ⟨fun h => iff_of_false hu h, fun h hlt => hu (h.2 hlt)⟩

/-! ### An option the `int` does not hold -/

/-- The state of a mount given `-t 2097152`: the threshold is negative. -/
def wrappedThreshold : CloudfsState := { defaultState with threshold := -2147483648 }

/-- `/a` made on that mount. -/
def wrappedFile : World :=
  (serve wrappedThreshold (World.init (Fs.empty 0 ⟨0, 0⟩)) (.mknod ['/', 'a'] 0o644 none)).1

theorem reachable_wrappedFile : Reachable wrappedThreshold wrappedFile :=
  ⟨0, ⟨0, 0⟩, [.mknod ['/', 'a'] 0o644 none], by decide, rfl⟩

theorem threshold_option_iff_wrapped :
    PlacedFor wrappedThreshold (Machine.run (serve wrappedThreshold) wrappedFile
        (oneByteSession.reqs ['/', 'a'] wrappedFile.files.next)).1 ['/', 'a']
        (oneByteSession.left (stored wrappedFile ['/', 'a'])) 2097152 ↔
      if (wrappedFile.bucket (getKey ['/', 'a'])).isSome ∧ oneByteSession.writes = false then
        2097152 * 1024 < (oneByteSession.left (stored wrappedFile ['/', 'a'])).size
      else 2097152 < 2 ^ 21 ∨
        ((oneByteSession.left (stored wrappedFile ['/', 'a'])).size : ℤ)
          ≤ (Int32.ofNat 2097152 * 1024).toInt ∨
        2097152 * 1024 < (oneByteSession.left (stored wrappedFile ['/', 'a'])).size := by
  have hparse : parseArguments [.threshold "2097152".toList] = .ok wrappedThreshold := rfl
  exact threshold_option_iff hparse rfl rfl (by decide) reachable_wrappedFile (by decide)
    calm_oneByteSession

/-- **A file of one byte is uploaded under a threshold of 2 MB of KB.** -/
theorem wrapped_uploads :
    parseArguments [.threshold "2097152".toList] = .ok wrappedThreshold ∧
      atoi "2097152".toList = 2097152 ∧
      (oneByteSession.left (stored wrappedFile ['/', 'a'])).size = 1 ∧
      entry wrappedThreshold (Machine.run (serve wrappedThreshold) wrappedFile
        (oneByteSession.reqs ['/', 'a'] wrappedFile.files.next)).1 ['/', 'a']
          = some (.lnk (getMetadataPath wrappedThreshold ['/', 'a'])) ∧
      ¬ PlacedFor wrappedThreshold (Machine.run (serve wrappedThreshold) wrappedFile
        (oneByteSession.reqs ['/', 'a'] wrappedFile.files.next)).1 ['/', 'a']
        (oneByteSession.left (stored wrappedFile ['/', 'a'])) 2097152 :=
  ⟨rfl, by decide, by decide, by decide, by decide⟩

end CloudFS
