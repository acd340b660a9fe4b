import CloudFS.Dedup.Segments

/-!
# Dedup/Resync — streams with a common suffix are cut alike from a common cut on

After a common cut no place is tested before the smallest size is reached.  From there on the
windows of the two streams lie inside the suffix, so the fingerprints agree (`hit_suffix`), and so
do the greedy cuts.
-/

namespace CloudFS

/-- The complete segments of a stream after `a`, between its cuts. -/
def segmentsFrom (s : Bytes) (a : ℕ) : List ℕ → List Bytes
  | [] => []
  | b :: l => (s.take b).drop a :: segmentsFrom s b l

variable {rp₀ : Rabinpoly} {A B S : Bytes} {a b n mn mx d : ℕ} {l : List ℕ} {hit : ℕ → Prop}

/-- What comes after a prefix is cut off by offsets past it. -/
theorem segmentsFrom_append (l : List ℕ) (a : ℕ) :
    segmentsFrom (A ++ S) (a + A.length) (l.map (· + A.length)) = segmentsFrom S a l := by
  induction l generalizing a with
  | nil => rfl
  | cons b l ih =>
    have htake : (A ++ S).take (b + A.length) = A ++ S.take b := by
      rw [Nat.add_comm, List.take_length_add_append]
    rw [List.map_cons, segmentsFrom, segmentsFrom, ih, htake, Nat.add_comm a,
      List.drop_length_add_append]

/-- The window of a stream lies inside a suffix that is long enough. -/
theorem window_suffix {w : UInt32} (h : w.toNat ≤ b) (hb : b ≤ S.length) (A : Bytes) :
    window w ((A ++ S).take (b + A.length)) = (S.take b).drop (b - w.toNat) := by
  have hlen : (S.take b).length = b := List.length_take_of_le hb
  rw [Nat.add_comm, List.take_length_add_append, window, Window.last_append_of_le (hlen.symm ▸ h),
    hlen]

/-- **The fingerprint forgets the prefix** once the window lies inside the suffix. -/
theorem hit_suffix (hf : Fresh rp₀) (h : rp₀.windowSize.toNat ≤ b) (hb : b ≤ S.length)
    (A B : Bytes) :
    Hit rp₀ (A ++ S) (b + A.length) ↔ Hit rp₀ (B ++ S) (b + B.length) := by
  obtain ⟨r, hr, hr', hrw⟩ := slides_ok hf.toWindowed ((A ++ S).take (b + A.length))
  obtain ⟨q, hq, hq', hqw⟩ := slides_ok hf.toWindowed ((B ++ S).take (b + B.length))
  rw [List.nil_append] at hr' hq'
  have he : r.fingerprint = q.fingerprint := by
    refine hr'.fingerprint_eq hq' ?_
    rw [hrw, hqw, window_suffix h hb, window_suffix h hb]
  rw [hit_iff hf hr' hrw, hit_iff hf hq' hqw, he]

/-- The cuts after a cut are those of a segment that starts there. -/
theorem Cuts.after (hmn : 0 < mn) (h : Greedy.Cuts mn mx hit n 0 l) (ha : a ∈ l) :
    ∃ l₂, Greedy.Cuts mn mx hit n a l₂ ∧ l.filter (a < ·) = l₂ ∧ ∀ c, a < c → (c ∈ l ↔ c ∈ l₂) := by
  obtain ⟨l₁, l₂, rfl, hlt, hc⟩ := h.split hmn ha
  refine ⟨l₂, hc, ?_, fun c hac => ?_⟩
  · have h1 : l₁.filter (a < ·) = [] :=
      List.filter_eq_nil_iff.2 fun c hc => by simpa using (hlt c hc).le
    have h2 : l₂.filter (a < ·) = l₂ :=
      List.filter_eq_self.2 fun c hc' => by simpa using hc.lt_of_mem hmn c hc'
    rw [List.filter_append, h1, List.nil_append, List.filter_cons_of_neg (by simp), h2]
  · simp only [List.mem_append, List.mem_cons]
    constructor
    · rintro (hc | rfl | hc)
      · exact absurd (hlt c hc) hac.le.not_gt
      · exact absurd hac (lt_irrefl c)
      · exact hc
    · exact fun hc => Or.inr (Or.inr hc)

/-- Cuts past a prefix are offsets into what follows it. -/
theorem exists_map_add (h : ∀ b ∈ l, d ≤ b) : ∃ m : List ℕ, l = m.map (· + d) := by
  refine ⟨l.map (· - d), ?_⟩
  rw [List.map_map]
  exact (List.map_id l).symm.trans
    (List.map_congr_left fun b hb => (Nat.sub_add_cancel (h b hb)).symm)

/-- **From a common cut on** two streams with a common suffix are cut at the same offsets of it. -/
theorem cuts_resync (hf : Fresh rp₀) {k : ℕ} {lA lB : List ℕ}
    (hw : rp₀.windowSize.toNat ≤ k + rp₀.minSegmentSize.toNat)
    (hA : Greedy.Cuts rp₀.minSegmentSize.toNat rp₀.maxSegmentSize.toNat (Hit rp₀ (A ++ S))
      (S.length + A.length) (k + A.length) lA)
    (hB : Greedy.Cuts rp₀.minSegmentSize.toNat rp₀.maxSegmentSize.toNat (Hit rp₀ (B ++ S))
      (S.length + B.length) (k + B.length) lB) :
    ∃ m : List ℕ, lA = m.map (· + A.length) ∧ lB = m.map (· + B.length) := by
  have hge : ∀ b ∈ lA, A.length ≤ b := fun b hb =>
    (Nat.le_add_left _ k).trans (hA.lt_of_mem hf.min_pos b hb).le
  obtain ⟨m, rfl⟩ := exists_map_add hge
  have hhit : ∀ b, k + rp₀.minSegmentSize.toNat ≤ b → b ≤ S.length →
      (Hit rp₀ (A ++ S) (b + A.length) ↔ Hit rp₀ (B ++ S) (b + B.length)) :=
    fun b hb hbS => hit_suffix hf (hw.trans hb) hbS A B
  exact ⟨m, rfl, hB.unique (hA.shift hhit)⟩

variable {env : MallocEnv} {w avg : UInt32}

/-- **Content-defined resynchronisation**: once two streams with a common suffix have been cut at the
same offset of it, a smallest segment past which the window lies inside the suffix, they are cut
at the same offsets of it, so all later complete segments are the same. -/
theorem segments_resync {mn mx : UInt32} (hacc : rabinInit env w avg mn mx ≠ .ok none)
    (A B S : Bytes) (bufsA bufsB : List Bytes) (hA : bufsA.flatten = A ++ S)
    (hB : bufsB.flatten = B ++ S) (hltA : ∀ buf ∈ bufsA, buf.length < 2 ^ 31)
    (hltB : ∀ buf ∈ bufsB, buf.length < 2 ^ 31) :
    ∃ rp₀ rpA rpB callsA callsB, rabinInit env w avg mn mx = .ok (some rp₀) ∧
      feed rp₀ bufsA = .ok (rpA, callsA) ∧ feed rp₀ bufsB = .ok (rpB, callsB) ∧
      ∀ k, A.length + k ∈ offsets 0 callsA → B.length + k ∈ offsets 0 callsB →
        w.toNat ≤ k + mn.toNat →
        (∀ j, k ≤ j → (A.length + j ∈ offsets 0 callsA ↔ B.length + j ∈ offsets 0 callsB)) ∧
        segmentsFrom (A ++ S) (A.length + k) ((offsets 0 callsA).filter (A.length + k < ·)) =
          segmentsFrom (B ++ S) (B.length + k) ((offsets 0 callsB).filter (B.length + k < ·)) := by
  obtain ⟨ha, U, hU, hinit⟩ := rabinInit_of_ne hacc
  have hf := fresh_freshRabin ha hU
  obtain ⟨rpA, callsA, hfeedA, hcutsA, -, -⟩ := feed_cuts hf bufsA hltA
  obtain ⟨rpB, callsB, hfeedB, hcutsB, -, -⟩ := feed_cuts hf bufsB hltB
  rw [hA, List.length_append, Nat.add_comm A.length] at hcutsA
  rw [hB, List.length_append, Nat.add_comm B.length] at hcutsB
  refine ⟨_, rpA, rpB, callsA, callsB, hinit, hfeedA, hfeedB, fun k hkA hkB hw => ?_⟩
  obtain ⟨lA, hlA, hfilterA, hmemA⟩ := Cuts.after hf.min_pos hcutsA hkA
  obtain ⟨lB, hlB, hfilterB, hmemB⟩ := Cuts.after hf.min_pos hcutsB hkB
  rw [hfilterA, hfilterB]
  rw [Nat.add_comm A.length] at hlA
  rw [Nat.add_comm B.length] at hlB
  obtain ⟨m, rfl, rfl⟩ := cuts_resync hf hw hlA hlB
  refine ⟨fun j hj => ?_, ?_⟩
  · rcases Nat.lt_or_eq_of_le hj with hlt | rfl
    · rw [hmemA _ (Nat.add_lt_add_left hlt _), hmemB _ (Nat.add_lt_add_left hlt _)]
      simp [Nat.add_comm]
    · exact iff_of_true hkA hkB
  · rw [Nat.add_comm A.length, Nat.add_comm B.length, segmentsFrom_append, segmentsFrom_append]

/-- Two streams that end in 33 sevens, cut after every byte: from the 31st of them on, with a window
of 32 bytes. -/
theorem segments_resync_sevens :
    ∃ rp₀ rpA rpB callsA callsB, rabinInit ⟨true, true⟩ 32 1 1 1 = .ok (some rp₀) ∧
      feed rp₀ [[1, 2] ++ List.replicate 33 7] = .ok (rpA, callsA) ∧
      feed rp₀ [[3], List.replicate 33 7] = .ok (rpB, callsB) ∧
      2 + 31 ∈ offsets 0 callsA ∧ 1 + 31 ∈ offsets 0 callsB ∧
      (∀ j, 31 ≤ j → (2 + j ∈ offsets 0 callsA ↔ 1 + j ∈ offsets 0 callsB)) ∧
      segmentsFrom ([1, 2] ++ List.replicate 33 7) (2 + 31)
          ((offsets 0 callsA).filter (2 + 31 < ·)) =
        segmentsFrom ([3] ++ List.replicate 33 7) (1 + 31)
          ((offsets 0 callsB).filter (1 + 31 < ·)) := by
  have hacc : rabinInit ⟨true, true⟩ 32 1 1 1 ≠ .ok none :=
    Accepts.ne ⟨by decide, by decide, by decide, by decide, rfl, rfl⟩
  have hltA : ∀ buf ∈ [[1, 2] ++ List.replicate 33 (7 : UInt8)], buf.length < 2 ^ 31 := by simp
  have hltB : ∀ buf ∈ [[3], List.replicate 33 (7 : UInt8)], buf.length < 2 ^ 31 := by simp
  obtain ⟨rp₀, rpA, rpB, callsA, callsB, hinit, hfeedA, hfeedB, h⟩ :=
    segments_resync hacc [1, 2] [3] (List.replicate 33 7) _ _ rfl rfl hltA hltB
  obtain ⟨ha, U, hU, hinit'⟩ := rabinInit_of_ne hacc
  obtain rfl := Option.some.inj (Except.ok.inj (hinit'.symm.trans hinit))
  obtain ⟨rp, calls, hfeed, hcuts, -⟩ := feed_cuts (fresh_freshRabin ha hU) _ hltA
  obtain ⟨rp', calls', hfeed', hcuts', -⟩ := feed_cuts (fresh_freshRabin ha hU) _ hltB
  obtain rfl := (Prod.mk.inj (Except.ok.inj (hfeed.symm.trans hfeedA))).2
  obtain rfl := (Prod.mk.inj (Except.ok.inj (hfeed'.symm.trans hfeedB))).2
  have hkA : 2 + 31 ∈ offsets 0 calls := by
    rw [hcuts.eq_range']
    decide
  have hkB : 1 + 31 ∈ offsets 0 calls' := by
    rw [hcuts'.eq_range']
    decide
  exact ⟨_, rpA, rpB, calls, calls', hinit, hfeedA, hfeedB, hkA, hkB, h 31 hkA hkB le_rfl⟩

end CloudFS
