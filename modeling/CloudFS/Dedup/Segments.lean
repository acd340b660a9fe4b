import CloudFS.Dedup.Fingerprint
import CloudFS.Machinery.Greedy

/-!
# Dedup/Segments — where a stream is cut

`rabin_segment_next` keeps its fingerprint, its window and the size of the segment over calls, so
the cuts of a stream do not depend on the buffers it comes in: they are the greedy cuts of the
stream (`feed_cuts`).  `Scans` is the state after the first `n` bytes, with the cuts so far.
-/

namespace CloudFS

/-! ## The loop of a caller -/

/-- What a call of `rabin_segment_next` returned. -/
structure SegmentCall where
  len : Int32
  isNew : Bool
  deriving DecidableEq

/-- The loop over one buffer: calls on what is left of it, until it is used up or a call processes
nothing. -/
def feedBuffer (rp : Rabinpoly) (rest : Bytes) : Checked (Rabinpoly × List SegmentCall) :=
  if _h : rest = [] then .ok (rp, [])
  else do
    let r ← rabinSegmentNext rp rest
    if _h' : 0 < r.2.1.toInt.toNat then
      let s ← feedBuffer r.1 (rest.drop r.2.1.toInt.toNat)
      return (s.1, ⟨r.2.1, r.2.2⟩ :: s.2)
    else return (r.1, [⟨r.2.1, r.2.2⟩])
termination_by rest.length
decreasing_by
  rw [List.length_drop]
  have := List.length_pos_iff.2 _h
  omega

/-- The loops over one buffer after the other. -/
def feed (rp : Rabinpoly) : List Bytes → Checked (Rabinpoly × List SegmentCall)
  | [] => .ok (rp, [])
  | buf :: bufs => do
    let r ← feedBuffer rp buf
    let s ← feed r.1 bufs
    return (s.1, r.2 ++ s.2)

/-- The cut at `b`, if a segment ends there. -/
def cutAt (isNew : Bool) (b : ℕ) : List ℕ := if isNew then [b] else []

/-- The offsets at which calls made from offset `a` on set `is_new_segment`. -/
def offsets (a : ℕ) : List SegmentCall → List ℕ
  | [] => []
  | c :: cs => cutAt c.isNew (a + c.len.toInt.toNat) ++ offsets (a + c.len.toInt.toNat) cs

/-- How many bytes calls have processed. -/
def processed (cs : List SegmentCall) : ℕ := (cs.map fun c => c.len.toInt.toNat).sum

theorem offsets_append (a : ℕ) (cs ds : List SegmentCall) :
    offsets a (cs ++ ds) = offsets a cs ++ offsets (a + processed cs) ds := by
  induction cs generalizing a with
  | nil => rfl
  | cons c cs ih =>
    have hp : processed (c :: cs) = c.len.toInt.toNat + processed cs := List.sum_cons
    rw [List.cons_append, offsets, ih, offsets, List.append_assoc, hp, Nat.add_assoc]

/-! ## The state after some bytes -/

/-- A segmenter before its first byte, with sizes `rabin_init` accepts. -/
structure Fresh (rp₀ : Rabinpoly) : Prop extends Windowed rp₀ [] where
  curSegSize : rp₀.curSegSize = 0
  min_pos : 0 < rp₀.minSegmentSize.toNat
  min_le : rp₀.minSegmentSize.toNat ≤ rp₀.maxSegmentSize.toNat

/-- The low bits of the fingerprint are zero after the first `b` bytes of a stream. -/
def Hit (rp₀ : Rabinpoly) (s : Bytes) (b : ℕ) : Prop :=
  ∃ rp, slides rp₀ (s.take b) = .ok rp ∧ rp.fingerprint &&& rp₀.fingerprintMask = 0

/-- A segment of a stream that starts at `a` may end at `b`. -/
abbrev SegmentEnds (rp₀ : Rabinpoly) (s : Bytes) : ℕ → ℕ → Prop :=
  Greedy.Ends rp₀.minSegmentSize.toNat rp₀.maxSegmentSize.toNat (Hit rp₀ s)

/-- The greedy cuts lead from the start of a stream to `a`. -/
abbrev SegmentChain (rp₀ : Rabinpoly) (s : Bytes) : List ℕ → ℕ → Prop :=
  Greedy.Chain rp₀.minSegmentSize.toNat rp₀.maxSegmentSize.toNat (Hit rp₀ s) 0

/-- The parameters are those of another state. -/
structure SameParams (rp₀ rp : Rabinpoly) : Prop where
  windowSize : rp.windowSize = rp₀.windowSize
  mask : rp.fingerprintMask = rp₀.fingerprintMask
  minSegmentSize : rp.minSegmentSize = rp₀.minSegmentSize
  maxSegmentSize : rp.maxSegmentSize = rp₀.maxSegmentSize

/-- **The state after the first `n` bytes** of a stream, cut at `l`: the segment under way started
at the last cut, and no segment could have ended since. -/
structure Scans (rp₀ : Rabinpoly) (s : Bytes) (rp : Rabinpoly) (n : ℕ) (l : List ℕ) : Prop
    extends Windowed rp (s.take n), SameParams rp₀ rp where
  cuts : ∃ a, SegmentChain rp₀ s l a ∧ a + rp.curSegSize.toNat = n ∧
    ∀ b ≤ n, ¬ SegmentEnds rp₀ s a b

variable {rp₀ rp : Rabinpoly} {s bs past : Bytes} {n a : ℕ} {l : List ℕ} {b : UInt8}

/-- The size of the segment has no part in the window. -/
theorem Windowed.withSize (h : Windowed rp past) (k : UInt32) :
    Windowed { rp with curSegSize := k } past :=
  ⟨⟨⟨h.shift, h.T⟩, h.window_pos, h.U⟩, h.length, h.ring, h.lt, h.residue⟩

theorem SameParams.withSize (h : SameParams rp₀ rp) (k : UInt32) :
    SameParams rp₀ { rp with curSegSize := k } :=
  ⟨h.windowSize, h.mask, h.minSegmentSize, h.maxSegmentSize⟩

/-- A state after the first `b` bytes has the fingerprint of those bytes. -/
theorem hit_iff (hf : Fresh rp₀) {c : ℕ} (h : Windowed rp (s.take c))
    (hw : rp.windowSize = rp₀.windowSize) :
    Hit rp₀ s c ↔ rp.fingerprint &&& rp₀.fingerprintMask = 0 := by
  obtain ⟨r, hr, hr', hrw⟩ := slides_ok hf.toWindowed (s.take c)
  rw [List.nil_append] at hr'
  have he : r.fingerprint = rp.fingerprint := hr'.fingerprint_eq h (by rw [hrw, hw])
  constructor
  · rintro ⟨r', h1, h2⟩
    obtain rfl := Except.ok.inj (hr.symm.trans h1)
    exact he ▸ h2
  · exact fun h1 => ⟨r, hr, he ▸ h1⟩

/-- Before the first byte nothing is cut. -/
theorem Fresh.scans (hf : Fresh rp₀) (s : Bytes) : Scans rp₀ s rp₀ 0 [] where
  toWindowed := hf.toWindowed
  toSameParams := ⟨rfl, rfl, rfl, rfl⟩
  cuts := by
    refine ⟨0, rfl, by rw [hf.curSegSize]; rfl, fun b hb he => ?_⟩
    have h1 := he.min_le
    have h2 := hf.min_pos
    omega

/-- A segment under way has not reached its greatest size. -/
theorem size_lt_max (hf : Fresh rp₀) (hn : ∀ b ≤ n, ¬ SegmentEnds rp₀ s a b) :
    n < a + rp₀.maxSegmentSize.toNat := by
  by_contra hge
  exact hn _ (not_lt.1 hge) ⟨Nat.add_le_add_left hf.min_le a, le_rfl, Or.inr rfl⟩

/-- Sliding a byte that is next in the stream. -/
theorem Scans.slide8 (h : Scans rp₀ s rp n l) (hb : s[n]? = some b) :
    ∃ rp₁, slide8 rp b = .ok rp₁ ∧ Windowed rp₁ (s.take (n + 1)) ∧ SameParams rp₀ rp₁ ∧
      rp₁.curSegSize = rp.curSegSize := by
  obtain ⟨buf, q, hslide, hwin⟩ := slide8_ok h.toWindowed b
  refine ⟨_, hslide, ?_, ⟨h.windowSize, h.mask, h.minSegmentSize, h.maxSegmentSize⟩, rfl⟩
  rwa [List.take_add_one, hb, Option.toList_some]

/-- **One turn of the loop** cuts where the segment under way may end. -/
theorem segmentByte_ok (hf : Fresh rp₀) (h : Scans rp₀ s rp n l) (hb : s[n]? = some b) :
    ∃ rp' e, segmentByte rp b = .ok (rp', e) ∧ Scans rp₀ s rp' (n + 1) (l ++ cutAt e (n + 1)) := by
  obtain ⟨a, hchain, hsize, hnone⟩ := h.cuts
  obtain ⟨rp₁, hslide, hwin, hsame, hsize₁⟩ := h.slide8 hb
  have hmax := size_lt_max hf hnone
  -- the size of the segment does not overflow
  have hk : (rp₁.curSegSize + 1).toNat = rp.curSegSize.toNat + 1 := by
    have := rp₀.maxSegmentSize.toNat_lt
    rw [hsize₁, UInt32.toNat_add, UInt32.toNat_one]
    exact Nat.mod_eq_of_lt (by omega)
  have hmin : rp₁.curSegSize + 1 < rp₁.minSegmentSize ↔
      n + 1 < a + rp₀.minSegmentSize.toNat := by
    rw [UInt32.lt_iff_toNat_lt, hk, hsame.minSegmentSize]
    omega
  have hmaxeq : rp₁.curSegSize + 1 = rp₁.maxSegmentSize ↔
      n + 1 = a + rp₀.maxSegmentSize.toNat := by
    rw [← UInt32.toNat_inj, hk, hsame.maxSegmentSize]
    omega
  have hhit := hit_iff hf hwin hsame.windowSize
  rw [← hsame.mask] at hhit
  -- a turn that does not cut leaves the segment under way
  have hgo : ¬ SegmentEnds rp₀ s a (n + 1) →
      Scans rp₀ s { rp₁ with curSegSize := rp₁.curSegSize + 1 } (n + 1)
        (l ++ cutAt false (n + 1)) := by
    intro hno
    refine ⟨hwin.withSize _, hsame.withSize _, a, (List.append_nil l).symm ▸ hchain, ?_, ?_⟩
    · dsimp only
      omega
    · intro m hm
      rcases Nat.lt_or_eq_of_le hm with hlt | rfl
      · exact hnone m (Nat.le_of_lt_succ hlt)
      · exact hno
  simp only [segmentByte, hslide, ok_bind]
  split
  case isTrue hlt =>
    exact ⟨_, false, rfl, hgo fun he => absurd he.min_le (not_le.2 (hmin.1 hlt))⟩
  case isFalse hge =>
    have hge' : a + rp₀.minSegmentSize.toNat ≤ n + 1 := not_lt.1 fun hlt => hge (hmin.2 hlt)
    split
    case isTrue hcut =>
      have hends : SegmentEnds rp₀ s a (n + 1) :=
        ⟨hge', by omega, hcut.imp hhit.2 hmaxeq.1⟩
      have hleast : IsLeast {m | SegmentEnds rp₀ s a m} (n + 1) :=
        ⟨hends, fun m hm => not_lt.1 fun hlt => hnone m (Nat.le_of_lt_succ hlt) hm⟩
      refine ⟨_, true, rfl, hwin.withSize _, hsame.withSize _, n + 1,
        hchain.append ⟨hleast, rfl⟩, rfl, fun m hm he => ?_⟩
      have h1 := he.min_le
      have h2 := hf.min_pos
      omega
    case isFalse hno => exact ⟨_, false, rfl, hgo fun he => hno (he.hit_or.imp hhit.1 hmaxeq.2)⟩

/-! ## A call, a buffer, a stream -/

theorem prefix_drop_cons {b : UInt8} (h : b :: bs <+: s.drop n) :
    s[n]? = some b ∧ bs <+: s.drop (n + 1) := by
  obtain ⟨t, ht⟩ := h
  refine ⟨?_, t, ?_⟩
  · rw [← List.head?_drop, ← ht]
    rfl
  · rw [← List.tail_drop, ← ht]
    rfl

/-- **The loop of a call** processes a byte at least, and cuts where it ends at most. -/
theorem segmentLoop_ok (hf : Fresh rp₀) (h : Scans rp₀ s rp n l) (hbs : bs <+: s.drop n) (i : ℕ) :
    ∃ rp' k e, segmentLoop rp i bs = .ok (rp', i + k, e) ∧
      Scans rp₀ s rp' (n + k) (l ++ cutAt e (n + k)) ∧ k ≤ bs.length ∧ (bs ≠ [] → 0 < k) := by
  induction bs generalizing rp n l i with
  | nil =>
    refine ⟨rp, 0, false, rfl, ?_, le_rfl, fun hne => absurd rfl hne⟩
    rw [cutAt, if_neg Bool.false_ne_true, List.append_nil]
    exact h
  | cons b bs ih =>
    obtain ⟨hb, hbs'⟩ := prefix_drop_cons hbs
    obtain ⟨rp₁, e, h1, h2⟩ := segmentByte_ok hf h hb
    rw [segmentLoop, h1, ok_bind]
    cases e with
    | true => exact ⟨rp₁, 1, true, rfl, h2, by simp, fun _ => Nat.one_pos⟩
    | false =>
      rw [cutAt, if_neg Bool.false_ne_true, List.append_nil] at h2
      obtain ⟨rp', k, e, h3, h4, h5, -⟩ := ih h2 hbs' (i + 1)
      rw [Nat.add_right_comm, Nat.add_assoc] at h3 h4
      refine ⟨rp', k + 1, e, h3, h4, by simpa using h5, fun _ => Nat.succ_pos k⟩

/-- **A call** on what is left of a buffer. -/
theorem rabinSegmentNext_ok (hf : Fresh rp₀) (h : Scans rp₀ s rp n l) (hbs : bs <+: s.drop n)
    (hne : bs ≠ []) (hlt : bs.length < 2 ^ 31) :
    ∃ rp' k e, rabinSegmentNext rp bs = .ok (rp', k, e) ∧
      Scans rp₀ s rp' (n + k.toInt.toNat) (l ++ cutAt e (n + k.toInt.toNat)) ∧
      0 < k.toInt.toNat ∧ k.toInt.toNat ≤ bs.length := by
  obtain ⟨rp', k, e, h1, h2, h3, h4⟩ := segmentLoop_ok hf h hbs 0
  rw [Nat.zero_add] at h1
  have hk : (Int32.ofNat k).toInt.toNat = k := by
    rw [Int32.toInt_ofNat_of_lt (h3.trans_lt hlt), Int.toNat_natCast]
  refine ⟨rp', .ofNat k, e, ?_, by rwa [hk], by rw [hk]; exact h4 hne, by rwa [hk]⟩
  rw [rabinSegmentNext, h1]
  rfl

/-- **The loop over a buffer** uses it up, and every call processes something. -/
theorem feedBuffer_ok (hf : Fresh rp₀) (h : Scans rp₀ s rp n l) (hbs : bs <+: s.drop n)
    (hlt : bs.length < 2 ^ 31) :
    ∃ rp' cs, feedBuffer rp bs = .ok (rp', cs) ∧ Scans rp₀ s rp' (n + bs.length)
      (l ++ offsets n cs) ∧ (∀ c ∈ cs, 0 < c.len.toInt.toNat) ∧ processed cs = bs.length := by
  induction hm : bs.length using Nat.strong_induction_on generalizing rp n l bs with
  | _ m ih =>
    subst hm
    rw [feedBuffer]
    split
    case isTrue he =>
      subst he
      exact ⟨rp, [], rfl, (List.append_nil l).symm ▸ h, by simp, rfl⟩
    case isFalse hne =>
      obtain ⟨rp₁, k, e, h1, h2, h3, h4⟩ := rabinSegmentNext_ok hf h hbs hne hlt
      generalize hj : k.toInt.toNat = j at h2 h3 h4
      have hdrop : bs.drop j <+: s.drop (n + j) := by
        rw [← List.drop_drop]
        exact hbs.drop j
      have hlen : (bs.drop j).length = bs.length - j := List.length_drop
      obtain ⟨rp', cs, h5, h6, h7, h8⟩ :=
        ih _ (by omega) h2 hdrop (by omega) rfl
      refine ⟨rp', ⟨k, e⟩ :: cs, ?_, ?_, ?_, ?_⟩
      · simp only [h1, ok_bind, hj, dif_pos h3, h5]
        rfl
      · rw [offsets, hj, ← List.append_assoc]
        convert h6 using 1
        omega
      · intro c hc
        rcases List.mem_cons.1 hc with rfl | hc
        · exact hj ▸ h3
        · exact h7 c hc
      · have hp : processed (⟨k, e⟩ :: cs) = k.toInt.toNat + processed cs := List.sum_cons
        omega

/-- **The loops over buffers** use them up. -/
theorem feed_ok (hf : Fresh rp₀) {bufs : List Bytes} (h : Scans rp₀ s rp n l)
    (hbs : bufs.flatten <+: s.drop n) (hlt : ∀ buf ∈ bufs, buf.length < 2 ^ 31) :
    ∃ rp' cs, feed rp bufs = .ok (rp', cs) ∧ Scans rp₀ s rp' (n + bufs.flatten.length)
      (l ++ offsets n cs) ∧ (∀ c ∈ cs, 0 < c.len.toInt.toNat) ∧
      processed cs = bufs.flatten.length := by
  induction bufs generalizing rp n l with
  | nil => exact ⟨rp, [], rfl, (List.append_nil l).symm ▸ h, by simp, rfl⟩
  | cons buf bufs ih =>
    rw [List.flatten_cons] at hbs
    obtain ⟨rp₁, cs, h1, h2, h3, h4⟩ := feedBuffer_ok hf h ((List.prefix_append ..).trans hbs)
      (hlt buf List.mem_cons_self)
    have hrest : bufs.flatten <+: s.drop (n + buf.length) := by
      rw [← List.drop_drop]
      have := hbs.drop buf.length
      rwa [List.drop_left] at this
    obtain ⟨rp', ds, h5, h6, h7, h8⟩ := ih h2 hrest fun b hb => hlt b (List.mem_cons_of_mem _ hb)
    refine ⟨rp', cs ++ ds, ?_, ?_, ?_, ?_⟩
    · rw [feed, h1, ok_bind, h5]
      rfl
    · rw [offsets_append, h4, ← List.append_assoc, List.flatten_cons, List.length_append,
        ← Nat.add_assoc]
      exact h6
    · exact fun c hc => (List.mem_append.1 hc).elim (h3 c) (h7 c)
    · have hp : processed (cs ++ ds) = processed cs + processed ds := by
        rw [processed, List.map_append, List.sum_append, processed, processed]
      rw [hp, h4, h8, List.flatten_cons, List.length_append]

/-- **A stream is cut greedily**, whatever buffers it comes in. -/
theorem feed_cuts (hf : Fresh rp₀) (bufs : List Bytes) (hlt : ∀ buf ∈ bufs, buf.length < 2 ^ 31) :
    ∃ rp' cs, feed rp₀ bufs = .ok (rp', cs) ∧
      Greedy.Cuts rp₀.minSegmentSize.toNat rp₀.maxSegmentSize.toNat (Hit rp₀ bufs.flatten)
        bufs.flatten.length 0 (offsets 0 cs) ∧
      (∀ c ∈ cs, 0 < c.len.toInt.toNat) ∧ processed cs = bufs.flatten.length := by
  obtain ⟨rp', cs, h1, h2, h3, h4⟩ := feed_ok hf (hf.scans bufs.flatten)
    (by rw [List.drop_zero]) hlt
  obtain ⟨a, hchain, hsize, hnone⟩ := h2.cuts
  rw [List.nil_append] at hchain
  rw [Nat.zero_add] at hsize hnone
  exact ⟨rp', cs, h1, hchain.cuts (by omega) hnone, h3, h4⟩

/-! ## The parameters of `rabin_init` -/

variable {env : MallocEnv} {w avg mn mx : UInt32} {U : List UInt64}

theorem fresh_freshRabin (ha : Accepts env w avg mn mx) (hU : TableU w U) :
    Fresh (freshRabin w avg mn mx U) where
  toWindowed := windowed_freshRabin avg mn mx ((by decide : 0 < 32).trans_le ha.window_le) hU
  curSegSize := rfl
  min_pos := ha.min_pos
  min_le := ha.min_le.trans ha.le_max

/-- The highest bit of a number is the one its logarithm counts. -/
theorem size_sub_one {n : ℕ} (hn : 0 < n) : n.size - 1 = Nat.log 2 n := by
  have hpos : 0 < n.size := Nat.size_pos.2 hn
  refine (Nat.log_eq_of_pow_le_of_lt_pow (Nat.lt_size.1 (Nat.sub_one_lt hpos.ne')) ?_).symm
  rw [Nat.sub_add_cancel hpos]
  exact Nat.lt_size_self n

/-- While the shift stays below the sign bit the mask has as many bits as it says. -/
theorem toNat_mask {k : ℕ} (hk : k < 31) :
    (((1 : Int32) <<< Int32.ofNat k) - 1).toInt64.toUInt64.toNat = 2 ^ k - 1 := by
  have h : ∀ i : Fin 31,
      (((1 : Int32) <<< Int32.ofNat i) - 1).toInt64.toUInt64.toNat = 2 ^ i.val - 1 := by decide
  exact h ⟨k, hk⟩

theorem toNat_fingerprintMask (hpos : 0 < avg.toNat) (havg : avg.toNat < 2 ^ 31) :
    (freshRabin w avg mn mx U).fingerprintMask.toNat = 2 ^ Nat.log 2 avg.toNat - 1 := by
  have hk : fls32 avg - 1 = Nat.log 2 avg.toNat := by rw [fls32_eq, size_sub_one hpos]
  rw [freshRabin, rabinFields, hk]
  exact toNat_mask (Nat.log_lt_of_lt_pow hpos.ne' havg)

theorem hit_freshRabin (hpos : 0 < avg.toNat) (havg : avg.toNat < 2 ^ 31) (s : Bytes) (b : ℕ) :
    Hit (freshRabin w avg mn mx U) s b ↔
      ∃ rp, slides (freshRabin w avg mn mx U) (s.take b) = .ok rp ∧
        rp.fingerprint.toNat &&& (2 ^ Nat.log 2 avg.toNat - 1) = 0 := by
  refine exists_congr fun rp => and_congr_right fun _ => ?_
  rw [← UInt64.toNat_inj, UInt64.toNat_and, UInt64.toNat_zero, toNat_fingerprintMask hpos havg]

/-- **Segmentation is greedy, whatever the buffers**: each cut is the first place after the last one
where a segment may end.  Every call processes a byte at least, the calls process the stream, and
complete segments keep to their bounds. -/
theorem segments_greedy (hacc : rabinInit env w avg mn mx ≠ .ok none) (havg : avg.toNat < 2 ^ 31)
    (bufs : List Bytes) (hlt : ∀ buf ∈ bufs, buf.length < 2 ^ 31) :
    ∃ rp₀ rp calls, rabinInit env w avg mn mx = .ok (some rp₀) ∧ feed rp₀ bufs = .ok (rp, calls) ∧
      Greedy.Cuts mn.toNat mx.toNat
        (fun b => ∃ r, slides rp₀ (bufs.flatten.take b) = .ok r ∧
          r.fingerprint.toNat &&& (2 ^ Nat.log 2 avg.toNat - 1) = 0)
        bufs.flatten.length 0 (offsets 0 calls) ∧
      (∀ c ∈ calls, 0 < c.len.toInt) ∧ processed calls = bufs.flatten.length ∧
      List.IsChain (fun a b => a + mn.toNat ≤ b ∧ b ≤ a + mx.toNat) (0 :: offsets 0 calls) := by
  obtain ⟨ha, U, hU, hinit⟩ := rabinInit_of_ne hacc
  obtain ⟨rp, calls, h1, h2, h3, h4⟩ := feed_cuts (fresh_freshRabin ha hU) bufs hlt
  have hpos : 0 < avg.toNat := ha.min_pos.trans_le ha.min_le
  have hhit : Hit (freshRabin w avg mn mx U) bufs.flatten = _ :=
    funext fun b => propext (hit_freshRabin hpos havg bufs.flatten b)
  refine ⟨_, rp, calls, hinit, h1, hhit ▸ h2, fun c hc => ?_, h4, h2.isChain⟩
  exact Int.pos_iff_toNat_pos.2 (h3 c hc)

theorem segments_greedy_32 :
    ∃ rp₀ rp calls, rabinInit ⟨true, true⟩ 32 2 1 3 = .ok (some rp₀) ∧
      feed rp₀ [[7], [8, 9]] = .ok (rp, calls) ∧
      Greedy.Cuts 1 3
        (fun b => ∃ r, slides rp₀ (List.take b [7, 8, 9]) = .ok r ∧
          r.fingerprint.toNat &&& (2 ^ Nat.log 2 2 - 1) = 0)
        3 0 (offsets 0 calls) ∧
      (∀ c ∈ calls, 0 < c.len.toInt) ∧ processed calls = 3 ∧
      List.IsChain (fun a b => a + 1 ≤ b ∧ b ≤ a + 3) (0 :: offsets 0 calls) :=
  segments_greedy (Accepts.ne ⟨by decide, by decide, by decide, by decide, rfl, rfl⟩) (by decide)
    [[7], [8, 9]] (by simp)

end CloudFS
