import CloudFS.Dedup.Resync
import CloudFS.Machinery.CInt

/-!
# Dedup/Example — the program that lists the segments of a file

`rabin-example.c` reads its input in pieces of at most 1024 bytes, and prints the length and the MD5
sum of each segment.  What it prints is the listing of the greedy segments of the input, and of what
is left after the last of them, however the input is read (`rabinExample_lists`).  Inputs have the
same listing exactly if they are the same, unless two parts of them have the same sum
(`rabinExample_eq_iff`), and inputs that end alike are listed alike from a common cut on
(`rabinExample_resync`).

The library for MD5 is a parameter, `Md5`.  The options and the file that is opened are left out:
the sizes they give are parameters.
-/

namespace CloudFS

variable {Ctx : Type}

/-! ## The program -/

/-- `MD5_Init`, `MD5_Update` and `MD5_Final`. -/
structure Md5 (Ctx : Type) where
  init : Ctx
  update : Ctx → Bytes → Ctx
  final : Ctx → Bytes

/-- **What the MD5 functions compute**: the sum of all a context was updated with. -/
def Md5.Sums (md : Md5 Ctx) (sum : Bytes → Bytes) : Prop :=
  ∀ chunks : List Bytes, md.final (chunks.foldl md.update md.init) = sum chunks.flatten

/-- `%02x`. -/
def hexByte (b : UInt8) : List Char := [(b.toNat / 16).digitChar, (b.toNat % 16).digitChar]

/-- The line of a segment, with its length as `%u`. -/
def segmentLine (len : ℕ) (md5 : Bytes) : List Char :=
  Nat.toDigits 10 len ++ ' ' :: (md5.flatMap hexByte ++ ['\n'])

/-- The variables of `main`; a length that is too large for an `int` wraps around. -/
structure Listing (Ctx : Type) where
  rp : Rabinpoly
  ctx : Ctx
  segmentLen : Int32
  printed : List Char

/-- What `main` prints for a segment. -/
def Listing.line (md : Md5 Ctx) (st : Listing Ctx) : List Char :=
  segmentLine st.segmentLen.toUInt32.toNat (md.final st.ctx)

/-- What `main` does after a call that processed the bytes of `chunk`. -/
def Listing.after (md : Md5 Ctx) (st : Listing Ctx) (rp : Rabinpoly) (len : Int32) (chunk : Bytes)
    (newSegment : Bool) : Listing Ctx :=
  let st := { st with
    rp := rp
    ctx := md.update st.ctx chunk
    segmentLen := st.segmentLen + len }
  if newSegment then
    { st with
      ctx := md.init
      segmentLen := 0
      printed := st.printed ++ st.line md }
  else st

/-- The loop of `main` over a buffer. -/
def listBuffer (md : Md5 Ctx) (st : Listing Ctx) (buftoread : Bytes) : Checked (Listing Ctx) :=
  if _h : buftoread = [] then .ok st
  else do
    let r ← rabinSegmentNext st.rp buftoread
    if _h' : 0 < r.2.1.toInt.toNat then
      listBuffer md (st.after md r.1 r.2.1 (buftoread.take r.2.1.toInt.toNat) r.2.2)
        (buftoread.drop r.2.1.toInt.toNat)
    else return { st with rp := r.1 }
termination_by buftoread.length
decreasing_by
  rw [List.length_drop]
  have := List.length_pos_iff.2 _h
  omega

/-- The loop of `main` over what `read` returns, up to the end of the file or an error. -/
def listReads (md : Md5 Ctx) (st : Listing Ctx) : List Bytes → Checked (Listing Ctx)
  | [] => .ok st
  | buf :: reads =>
    if buf = [] then .ok st
    else do
      let st ← listBuffer md st buf
      listReads md st reads

/-- What `main` prints, with `none` where there is no segmenter. -/
def rabinExample (md : Md5 Ctx) (env : MallocEnv)
    (windowSize avgSegSize minSegSize maxSegSize : Int32) (reads : List Bytes) :
    Checked (Option (List Char)) := do
  match ← rabinInit env windowSize.toUInt32 avgSegSize.toUInt32 minSegSize.toUInt32
      maxSegSize.toUInt32 with
  | none => return none
  | some rp =>
    let st ← listReads md ⟨rp, md.init, 0, []⟩ reads
    return some (st.printed ++ st.line md)

/-! ## What it prints -/

/-- The segments of a stream cut at `l`, and what is left after the last cut. -/
def pieces (s : Bytes) (l : List ℕ) : List Bytes := segmentsFrom s 0 l ++ [s.drop (l.getLastD 0)]

/-- The line of a piece of the input. -/
def pieceLine (sum : Bytes → Bytes) (piece : Bytes) : List Char :=
  segmentLine piece.length (sum piece)

/-- **The state of `main` after the first `n` bytes**, cut at `l`. -/
structure Lists (md : Md5 Ctx) (sum : Bytes → Bytes) (rp₀ : Rabinpoly) (s : Bytes)
    (st : Listing Ctx) (n : ℕ) (l : List ℕ) : Prop extends Scans rp₀ s st.rp n l where
  length_le : n ≤ s.length
  ctx : ∃ chunks : List Bytes, st.ctx = chunks.foldl md.update md.init ∧
    chunks.flatten = (s.take n).drop (l.getLastD 0)
  segmentLen : st.segmentLen = Int32.ofNat (n - l.getLastD 0)
  printed : st.printed = (segmentsFrom s 0 l).flatMap (pieceLine sum)

variable {md : Md5 Ctx} {sum : Bytes → Bytes} {rp₀ rp : Rabinpoly} {s bs : Bytes} {n : ℕ}
  {l : List ℕ} {st : Listing Ctx} {len : Int32} {e : Bool}

theorem segmentsFrom_concat (s : Bytes) (a b : ℕ) (l : List ℕ) :
    segmentsFrom s a (l ++ [b]) = segmentsFrom s a l ++ [(s.take b).drop (l.getLastD a)] := by
  induction l generalizing a with
  | nil => rfl
  | cons c l ih => rw [List.cons_append, segmentsFrom, ih, segmentsFrom, List.getLastD_cons,
      List.cons_append]

/-- The last cut is not past the bytes that were read. -/
theorem Scans.last_le (h : Scans rp₀ s rp n l) : l.getLastD 0 ≤ n := by
  obtain ⟨a, hchain, hsize, -⟩ := h.cuts
  rw [← hchain.last, ← hsize]
  exact Nat.le_add_right a _

theorem toNat_wrapped {k : ℕ} (h : k < 2 ^ 32) : (Int32.ofNat k).toUInt32.toNat = k := by
  rw [Int32.toUInt32_ofNat', UInt32.toNat_ofNat', Nat.mod_eq_of_lt h]

/-- The line `main` prints is the line of what was read since the last cut. -/
theorem Lists.line (hmd : md.Sums sum) (hctx : ∃ chunks : List Bytes,
      st.ctx = chunks.foldl md.update md.init ∧ chunks.flatten = (s.take n).drop (l.getLastD 0))
    (hlen : st.segmentLen = Int32.ofNat (n - l.getLastD 0)) (hn : n ≤ s.length)
    (hlt : n - l.getLastD 0 < 2 ^ 32) :
    st.line md = pieceLine sum ((s.take n).drop (l.getLastD 0)) := by
  obtain ⟨chunks, hchunks, hflat⟩ := hctx
  have hsum : md.final st.ctx = sum ((s.take n).drop (l.getLastD 0)) := by
    rw [hchunks, hmd, hflat]
  have hpiece : ((s.take n).drop (l.getLastD 0)).length = n - l.getLastD 0 := by
    rw [List.length_drop, List.length_take_of_le hn]
  rw [Listing.line, hlen, toNat_wrapped hlt, hsum, pieceLine, hpiece]

/-- **After a call** that processed the next bytes of the stream. -/
theorem Lists.after (hmd : md.Sums sum) (h : Lists md sum rp₀ s st n l) (hbs : bs <+: s.drop n)
    (hpos : 0 < len.toInt.toNat) (hle : len.toInt.toNat ≤ bs.length)
    (hscans : Scans rp₀ s rp (n + len.toInt.toNat) (l ++ cutAt e (n + len.toInt.toNat))) :
    Lists md sum rp₀ s (st.after md rp len (bs.take len.toInt.toNat) e) (n + len.toInt.toNat)
      (l ++ cutAt e (n + len.toInt.toNat)) := by
  obtain ⟨k, -, hk, hkint⟩ := Int32.exists_ofNat_of_nonneg (x := len) (by omega)
  have hkn : len.toInt.toNat = k := by omega
  rw [hkn] at hpos hle hscans ⊢
  have hlast := h.toScans.last_le
  have hn : n + k ≤ s.length := by
    have hlen := hbs.length_le
    rw [List.length_drop] at hlen
    omega
  obtain ⟨chunks, hchunks, hflat⟩ := h.ctx
  have hchunk : bs.take k = (s.drop n).take k := by
    obtain ⟨t, ht⟩ := hbs
    rw [← ht, List.take_append_of_le_length hle]
  -- the chunk goes after what was read since the last cut
  have hctx : ∃ chunks : List Bytes, md.update st.ctx (bs.take k)
      = chunks.foldl md.update md.init ∧ chunks.flatten = (s.take (n + k)).drop (l.getLastD 0) := by
    refine ⟨chunks ++ [bs.take k], ?_, ?_⟩
    · rw [List.foldl_concat, ← hchunks]
    · rw [List.flatten_append, hflat, List.flatten_singleton, hchunk, List.take_add,
        List.drop_append_of_le_length (by rw [List.length_take]; omega)]
  have hseg : st.segmentLen + len = Int32.ofNat (n + k - l.getLastD 0) := by
    rw [h.segmentLen, hk, ← Int32.ofNat_add]
    congr 1
    omega
  cases e with
  | false =>
    rw [cutAt, if_neg Bool.false_ne_true, List.append_nil] at hscans ⊢
    exact ⟨hscans, hn, hctx, hseg, h.printed⟩
  | true =>
    rw [cutAt, if_pos rfl] at hscans ⊢
    obtain ⟨a, hchain, -, -⟩ := hscans.cuts
    have hmax := hchain.ends_last.le_max
    have hlt := rp₀.maxSegmentSize.toNat_lt
    have hline : Listing.line md { st with
        rp := rp
        ctx := md.update st.ctx (bs.take k)
        segmentLen := st.segmentLen + len }
          = pieceLine sum ((s.take (n + k)).drop (l.getLastD 0)) :=
      Lists.line hmd hctx hseg hn (by omega)
    have hend : (l ++ [n + k]).getLastD 0 = n + k := List.getLastD_concat
    refine ⟨hscans, hn, ⟨[], rfl, ?_⟩, ?_, ?_⟩
    · rw [hend, List.drop_eq_nil_of_le (List.length_take_le _ _), List.flatten_nil]
    · rw [hend, Nat.sub_self]
      rfl
    · rw [segmentsFrom_concat, List.flatMap_append, List.flatMap_singleton, ← h.printed, ← hline]
      rfl

/-- **The loop over a buffer** lists the segments that end in it. -/
theorem listBuffer_ok (hmd : md.Sums sum) (hf : Fresh rp₀) (h : Lists md sum rp₀ s st n l)
    (hbs : bs <+: s.drop n) (hlt : bs.length < 2 ^ 31) :
    ∃ st' l', listBuffer md st bs = .ok st' ∧ Lists md sum rp₀ s st' (n + bs.length) l' := by
  induction hm : bs.length using Nat.strong_induction_on generalizing st n l bs with
  | _ m ih =>
    subst hm
    rw [listBuffer]
    split
    case isTrue he =>
      subst he
      exact ⟨st, l, rfl, h⟩
    case isFalse hne =>
      obtain ⟨rp₁, k, e, hcall, hscans, hpos, hle⟩ :=
        rabinSegmentNext_ok hf h.toScans hbs hne hlt
      have hstep := h.after hmd hbs hpos hle hscans
      have hdrop : bs.drop k.toInt.toNat <+: s.drop (n + k.toInt.toNat) := by
        rw [← List.drop_drop]
        exact hbs.drop _
      have hlen : (bs.drop k.toInt.toNat).length = bs.length - k.toInt.toNat := List.length_drop
      obtain ⟨st', l', hrest, hlists⟩ := ih _ (by omega) hstep hdrop (by omega) rfl
      refine ⟨st', l', ?_, ?_⟩
      · rw [hcall, ok_bind, dif_pos hpos]
        exact hrest
      · have hsum : n + k.toInt.toNat + (bs.drop k.toInt.toNat).length = n + bs.length := by omega
        rwa [hsum] at hlists

/-- **The loop over the reads** lists the segments of the stream. -/
theorem listReads_ok (hmd : md.Sums sum) (hf : Fresh rp₀) {reads : List Bytes}
    (h : Lists md sum rp₀ s st n l) (hbs : reads.flatten <+: s.drop n)
    (hreads : ∀ buf ∈ reads, buf ≠ [] ∧ buf.length ≤ 1024) :
    ∃ st' l', listReads md st reads = .ok st' ∧
      Lists md sum rp₀ s st' (n + reads.flatten.length) l' := by
  induction reads generalizing st n l with
  | nil => exact ⟨st, l, rfl, h⟩
  | cons buf reads ih =>
    obtain ⟨⟨hne, hlen⟩, hrest⟩ := List.forall_mem_cons.1 hreads
    rw [List.flatten_cons] at hbs
    obtain ⟨st₁, l₁, hbuf, hlists⟩ := listBuffer_ok hmd hf h ((List.prefix_append ..).trans hbs)
      (hlen.trans_lt (by decide))
    have hnext : reads.flatten <+: s.drop (n + buf.length) := by
      rw [← List.drop_drop]
      have := hbs.drop buf.length
      rwa [List.drop_left] at this
    obtain ⟨st', l', hreads', hlists'⟩ := ih hlists hnext hrest
    refine ⟨st', l', ?_, ?_⟩
    · rw [listReads, if_neg hne, hbuf, ok_bind]
      exact hreads'
    · rwa [List.flatten_cons, List.length_append, ← Nat.add_assoc]

/-- **A listing is that of the greedy segments**, with what is left after the last of them, however
the input is read. -/
theorem listReads_cuts (hmd : md.Sums sum) (hf : Fresh rp₀) (reads : List Bytes)
    (hreads : ∀ buf ∈ reads, buf ≠ [] ∧ buf.length ≤ 1024) :
    ∃ st l, listReads md ⟨rp₀, md.init, 0, []⟩ reads = .ok st ∧
      Greedy.Cuts rp₀.minSegmentSize.toNat rp₀.maxSegmentSize.toNat (Hit rp₀ reads.flatten)
        reads.flatten.length 0 l ∧
      st.printed ++ st.line md = (pieces reads.flatten l).flatMap (pieceLine sum) := by
  have hstart : Lists md sum rp₀ reads.flatten ⟨rp₀, md.init, 0, []⟩ 0 [] :=
    ⟨hf.scans _, Nat.zero_le _, ⟨[], rfl, rfl⟩, rfl, rfl⟩
  obtain ⟨st, l, hrun, hlists⟩ := listReads_ok hmd hf hstart (by rw [List.drop_zero]) hreads
  rw [Nat.zero_add] at hlists
  obtain ⟨a, hchain, hsize, hnone⟩ := hlists.cuts
  have hlast : a = l.getLastD 0 := hchain.last
  have hmax := size_lt_max hf hnone
  have hlt := rp₀.maxSegmentSize.toNat_lt
  have hline := Lists.line hmd hlists.ctx hlists.segmentLen le_rfl (by omega)
  rw [List.take_length] at hline
  refine ⟨st, l, hrun, hchain.cuts (by omega) hnone, ?_⟩
  rw [pieces, List.flatMap_append, List.flatMap_singleton, hlists.printed, hline]

variable {env : MallocEnv} {windowSize avgSegSize minSegSize maxSegSize : Int32}

theorem rabinExample_eq (hinit : rabinInit env windowSize.toUInt32 avgSegSize.toUInt32
      minSegSize.toUInt32 maxSegSize.toUInt32 = .ok (some rp₀)) {reads : List Bytes}
    (hrun : listReads md ⟨rp₀, md.init, 0, []⟩ reads = .ok st) :
    rabinExample md env windowSize avgSegSize minSegSize maxSegSize reads
      = .ok (some (st.printed ++ st.line md)) := by
  rw [rabinExample, hinit, ok_bind]
  simp only [hrun, ok_bind]
  rfl

/-- **The program lists the greedy segments of its input**, and what is left after the last of them,
however the input comes out of `read`. -/
theorem rabinExample_lists (hmd : md.Sums sum)
    (hacc : rabinInit env windowSize.toUInt32 avgSegSize.toUInt32 minSegSize.toUInt32
      maxSegSize.toUInt32 ≠ .ok none)
    (reads : List Bytes) (hreads : ∀ buf ∈ reads, buf ≠ [] ∧ buf.length ≤ 1024) :
    ∃ rp₀ l, rabinInit env windowSize.toUInt32 avgSegSize.toUInt32 minSegSize.toUInt32
        maxSegSize.toUInt32 = .ok (some rp₀) ∧
      Greedy.Cuts minSegSize.toUInt32.toNat maxSegSize.toUInt32.toNat (Hit rp₀ reads.flatten)
        reads.flatten.length 0 l ∧
      rabinExample md env windowSize avgSegSize minSegSize maxSegSize reads
        = .ok (some ((pieces reads.flatten l).flatMap (pieceLine sum))) := by
  obtain ⟨ha, U, hU, hinit⟩ := rabinInit_of_ne hacc
  obtain ⟨st, l, hrun, hcuts, hprinted⟩ := listReads_cuts hmd (fresh_freshRabin ha hU) reads hreads
  refine ⟨_, l, hinit, hcuts, ?_⟩
  rw [rabinExample_eq hinit hrun, hprinted]

/-- MD5 functions that keep all the bytes. -/
def keepAll (sum : Bytes → Bytes) : Md5 Bytes := ⟨[], (· ++ ·), sum⟩

theorem sums_keepAll (sum : Bytes → Bytes) : (keepAll sum).Sums sum := by
  intro chunks
  have hfold : ∀ past : Bytes, chunks.foldl (· ++ ·) past = past ++ chunks.flatten := by
    induction chunks with
    | nil => exact fun past => (List.append_nil past).symm
    | cons c chunks ih =>
      intro past
      rw [List.foldl_cons, ih, List.flatten_cons, List.append_assoc]
  exact congrArg sum (hfold [])

/-- The MD5 sums of the empty input, `a` and `aa`. -/
def sumUpToTwo : Bytes → Bytes
  | [] =>
    [0xd4, 0x1d, 0x8c, 0xd9, 0x8f, 0x00, 0xb2, 0x04, 0xe9, 0x80, 0x09, 0x98, 0xec, 0xf8, 0x42, 0x7e]
  | [_] =>
    [0x0c, 0xc1, 0x75, 0xb9, 0xc0, 0xf1, 0xb6, 0xa8, 0x31, 0xc3, 0x99, 0xe2, 0x69, 0x77, 0x26, 0x61]
  | _ =>
    [0x41, 0x24, 0xbc, 0x0a, 0x93, 0x35, 0xc2, 0x7f, 0x08, 0x6f, 0x24, 0xba, 0x20, 0x7a, 0x49, 0x12]

theorem accepts_ones : rabinInit ⟨true, true⟩ (32 : Int32).toUInt32 (1 : Int32).toUInt32
    (1 : Int32).toUInt32 (1 : Int32).toUInt32 ≠ .ok none :=
  Accepts.ne ⟨by decide, by decide, by decide, by decide, rfl, rfl⟩

/-- The input `aaa`, read in two pieces and cut after every byte. -/
theorem rabinExample_lists_aaa :
    ∃ rp₀ l, rabinInit ⟨true, true⟩ 32 1 1 1 = .ok (some rp₀) ∧
      Greedy.Cuts 1 1 (Hit rp₀ [97, 97, 97]) 3 0 l ∧
      rabinExample (keepAll sumUpToTwo) ⟨true, true⟩ 32 1 1 1 [[97], [97, 97]]
        = .ok (some ((pieces [97, 97, 97] l).flatMap (pieceLine sumUpToTwo))) ∧
      pieces [97, 97, 97] l = [[97], [97], [97], []] := by
  obtain ⟨rp₀, l, hinit, hcuts, hrun⟩ :=
    rabinExample_lists (sums_keepAll sumUpToTwo) accepts_ones [[97], [97, 97]] (by simp)
  refine ⟨rp₀, l, hinit, hcuts, hrun, ?_⟩
  rw [show l = _ from hcuts.eq_range']
  rfl

/-! ## What can be read off a listing -/

theorem hexByte_inj {b c : UInt8} (h : hexByte b = hexByte c) : b = c := by
  have hdigit : ∀ i j : Fin 16, i.val.digitChar = j.val.digitChar → i.val = j.val := by decide
  have hb := b.toNat_lt
  have hc := c.toNat_lt
  obtain ⟨hhigh, hlow, -⟩ : _ ∧ _ ∧ True := by simpa [hexByte] using h
  have hquot : b.toNat / 16 = c.toNat / 16 :=
    hdigit ⟨b.toNat / 16, by omega⟩ ⟨c.toNat / 16, by omega⟩ hhigh
  have hrem : b.toNat % 16 = c.toNat % 16 :=
    hdigit ⟨b.toNat % 16, by omega⟩ ⟨c.toNat % 16, by omega⟩ hlow
  exact UInt8.toNat_inj.1 (by omega)

theorem flatMap_hexByte_inj {bs cs : Bytes} (h : bs.flatMap hexByte = cs.flatMap hexByte) :
    bs = cs := by
  induction bs generalizing cs with
  | nil =>
    cases cs with
    | nil => rfl
    | cons c cs => simp [hexByte] at h
  | cons b bs ih =>
    cases cs with
    | nil => simp [hexByte] at h
    | cons c cs =>
      rw [List.flatMap_cons, List.flatMap_cons] at h
      obtain ⟨hbyte, hrest⟩ := List.append_inj h rfl
      rw [hexByte_inj hbyte, ih hrest]

/-- What comes before the first `c` of a text can be read off. -/
theorem append_cons_inj {c : Char} {x y u v : List Char} (hx : c ∉ x) (hy : c ∉ y)
    (h : x ++ c :: u = y ++ c :: v) : x = y ∧ u = v := by
  induction x generalizing y with
  | nil =>
    cases y with
    | nil => exact ⟨rfl, List.tail_eq_of_cons_eq h⟩
    | cons d y =>
      obtain ⟨rfl, -⟩ := List.cons.inj h
      exact absurd List.mem_cons_self hy
  | cons d x ih =>
    cases y with
    | nil =>
      obtain ⟨rfl, -⟩ := List.cons.inj h
      exact absurd List.mem_cons_self hx
    | cons d' y =>
      obtain ⟨rfl, htail⟩ := List.cons.inj h
      obtain ⟨rfl, rfl⟩ := ih (fun hc => hx (List.mem_cons_of_mem d hc))
        (fun hc => hy (List.mem_cons_of_mem d hc)) htail
      exact ⟨rfl, rfl⟩

/-- **A line can be read off**, whatever comes after it. -/
theorem segmentLine_inj {m k : ℕ} {x y : Bytes} {u v : List Char}
    (h : segmentLine m x ++ u = segmentLine k y ++ v) : m = k ∧ x = y ∧ u = v := by
  have hblank : ∀ n, ' ' ∉ Nat.toDigits 10 n := fun n hn => by
    simpa using Nat.isDigit_of_mem_toDigits (by decide) (by decide) hn
  have hbreak : ∀ z : Bytes, '\n' ∉ z.flatMap hexByte := fun z hz => by
    obtain ⟨b, -, hb⟩ := List.mem_flatMap.1 hz
    rcases List.mem_pair.1 hb with hb | hb
    · exact Nat.digitChar_ne '\n' (by decide) hb.symm
    · exact Nat.digitChar_ne '\n' (by decide) hb.symm
  simp only [segmentLine, List.append_assoc, List.cons_append, List.nil_append] at h
  obtain ⟨hlen, h⟩ := append_cons_inj (hblank m) (hblank k) h
  obtain ⟨hsum, h⟩ := append_cons_inj (hbreak x) (hbreak y) h
  refine ⟨?_, flatMap_hexByte_inj hsum, h⟩
  rw [← Nat.ofDigitChars_toDigits (by decide : 1 < 10) le_rfl (n := m), hlen,
    Nat.ofDigitChars_toDigits (by decide) le_rfl]

/-- **Listings with the same text** are of the same pieces, if none of them collide. -/
theorem pieceLines_inj {ps qs : List Bytes}
    (hcoll : ∀ p ∈ ps, ∀ q ∈ qs, p.length = q.length → sum p = sum q → p = q)
    (h : ps.flatMap (pieceLine sum) = qs.flatMap (pieceLine sum)) : ps = qs := by
  induction ps generalizing qs with
  | nil =>
    cases qs with
    | nil => rfl
    | cons q qs => simp [pieceLine, segmentLine] at h
  | cons p ps ih =>
    cases qs with
    | nil => simp [pieceLine, segmentLine] at h
    | cons q qs =>
      rw [List.flatMap_cons, List.flatMap_cons] at h
      obtain ⟨hlen, hsum, hrest⟩ := segmentLine_inj h
      have htail := ih (fun p hp q hq => hcoll p (List.mem_cons_of_mem _ hp) q
        (List.mem_cons_of_mem _ hq)) hrest
      rw [hcoll p List.mem_cons_self q List.mem_cons_self hlen hsum, htail]

/-- The pieces of a stream from a cut on are all that comes after it. -/
theorem flatten_segmentsFrom {mn mx a : ℕ} {hit : ℕ → Prop}
    (h : Greedy.Cuts mn mx hit s.length a l) :
    (segmentsFrom s a l ++ [s.drop (l.getLastD a)]).flatten = s.drop a := by
  induction l generalizing a with
  | nil => simp [segmentsFrom]
  | cons b l ih =>
    have hab : a ≤ b := (Nat.le_add_right a mn).trans h.1.1.min_le
    have hlen : a ≤ (s.take b).length := by rwa [List.length_take_of_le h.2.1]
    have hsplit := congrArg (List.drop a) (List.take_append_drop b s)
    rw [List.drop_append_of_le_length hlen] at hsplit
    rwa [segmentsFrom, List.getLastD_cons, List.cons_append, List.flatten_cons, ih h.2.2]

theorem infix_of_mem_pieces {p : Bytes} (h : p ∈ pieces s l) : p <:+: s := by
  have hfrom : ∀ a, p ∈ segmentsFrom s a l → p <:+: s := by
    clear h
    induction l with
    | nil => exact fun a h => absurd h List.not_mem_nil
    | cons b l ih =>
      intro a h
      rcases List.mem_cons.1 h with rfl | h
      · exact (List.drop_suffix a _).isInfix.trans (List.take_prefix b s).isInfix
      · exact ih b h
  rcases List.mem_append.1 h with h | h
  · exact hfrom 0 h
  · rw [List.mem_singleton.1 h]
    exact (List.drop_suffix _ s).isInfix

/-- **Inputs have the same listing exactly if they are the same**, however they are read, as long as
no two parts of them with the same length and the same sum differ. -/
theorem rabinExample_eq_iff (hmd : md.Sums sum)
    (hacc : rabinInit env windowSize.toUInt32 avgSegSize.toUInt32 minSegSize.toUInt32
      maxSegSize.toUInt32 ≠ .ok none)
    {reads reads' : List Bytes} (hreads : ∀ buf ∈ reads ++ reads', buf ≠ [] ∧ buf.length ≤ 1024)
    (hcoll : ∀ a b, a <:+: reads.flatten → b <:+: reads'.flatten → a.length = b.length →
      sum a = sum b → a = b) :
    rabinExample md env windowSize avgSegSize minSegSize maxSegSize reads
        = rabinExample md env windowSize avgSegSize minSegSize maxSegSize reads' ↔
      reads.flatten = reads'.flatten := by
  obtain ⟨hreads, hreads'⟩ := List.forall_mem_append.1 hreads
  obtain ⟨ha, U, hU, hinit⟩ := rabinInit_of_ne hacc
  have hf := fresh_freshRabin ha hU
  obtain ⟨st, l, hrun, hcuts, hprinted⟩ := listReads_cuts hmd hf reads hreads
  obtain ⟨st', l', hrun', hcuts', hprinted'⟩ := listReads_cuts hmd hf reads' hreads'
  rw [rabinExample_eq hinit hrun, rabinExample_eq hinit hrun', hprinted, hprinted']
  constructor
  · intro h
    have hpieces : pieces reads.flatten l = pieces reads'.flatten l' :=
      pieceLines_inj (fun p hp q hq => hcoll p q (infix_of_mem_pieces hp) (infix_of_mem_pieces hq))
        (Option.some.inj (Except.ok.inj h))
    have hflat := flatten_segmentsFrom hcuts
    have hflat' := flatten_segmentsFrom hcuts'
    rw [List.drop_zero] at hflat hflat'
    rw [← hflat, ← hflat']
    exact congrArg List.flatten hpieces
  · intro h
    rw [← h] at hcuts' ⊢
    rw [hcuts.unique hcuts']

/-- The input `aaa` is listed alike however it is read, and not as `aa` is. -/
theorem rabinExample_eq_iff_aaa :
    (rabinExample (keepAll sumUpToTwo) ⟨true, true⟩ 32 1 1 1 [[97], [97, 97]]
        = rabinExample (keepAll sumUpToTwo) ⟨true, true⟩ 32 1 1 1 [[97, 97], [97]] ↔
      [97, 97, 97] = ([97, 97, 97] : Bytes)) ∧
    (rabinExample (keepAll sumUpToTwo) ⟨true, true⟩ 32 1 1 1 [[97], [97, 97]]
        = rabinExample (keepAll sumUpToTwo) ⟨true, true⟩ 32 1 1 1 [[97, 97]] ↔
      [97, 97, 97] = ([97, 97] : Bytes)) := by
  have hall : ∀ {a : Bytes} {m : ℕ}, a <:+: List.replicate m 97 →
      a = List.replicate a.length 97 :=
    fun h => List.eq_replicate_of_mem fun b hb => List.eq_of_mem_replicate (h.subset hb)
  have hcoll : ∀ m n, ∀ a b : Bytes, a <:+: List.replicate m 97 → b <:+: List.replicate n 97 →
      a.length = b.length → sumUpToTwo a = sumUpToTwo b → a = b := by
    intro m n a b ha hb hlen _
    rw [hall ha, hall hb, hlen]
  exact ⟨rabinExample_eq_iff (sums_keepAll _) accepts_ones (by simp) (hcoll 3 3),
    rabinExample_eq_iff (sums_keepAll _) accepts_ones (by simp) (hcoll 3 2)⟩

/-! ## Inputs that end alike -/

theorem segmentsFrom_split (s : Bytes) (a b : ℕ) (l l' : List ℕ) :
    segmentsFrom s a (l ++ b :: l') = segmentsFrom s a (l ++ [b]) ++ segmentsFrom s b l' := by
  induction l generalizing a with
  | nil => rfl
  | cons c l ih => rw [List.cons_append, segmentsFrom, ih, List.cons_append, segmentsFrom,
      List.cons_append]

theorem getLastD_append_cons (l l' : List ℕ) (a b : ℕ) :
    (l ++ b :: l').getLastD a = l'.getLastD b := by
  induction l generalizing a with
  | nil => exact List.getLastD_cons
  | cons c l ih => rw [List.cons_append, List.getLastD_cons, ih]

/-- The pieces of a stream before and after a cut. -/
theorem pieces_split {mn mx : ℕ} {hit : ℕ → Prop} (hmn : 0 < mn)
    (h : Greedy.Cuts mn mx hit s.length 0 l) {b : ℕ} (hb : b ∈ l) :
    ∃ front l₂, pieces s l = front ++ (segmentsFrom s b l₂ ++ [s.drop (l₂.getLastD b)]) ∧
      front.flatten = s.take b ∧ Greedy.Cuts mn mx hit s.length b l₂ := by
  obtain ⟨l₁, l₂, rfl, -, hcuts⟩ := h.split hmn hb
  have hpieces : pieces s (l₁ ++ b :: l₂) = segmentsFrom s 0 (l₁ ++ [b]) ++
      (segmentsFrom s b l₂ ++ [s.drop (l₂.getLastD b)]) := by
    rw [pieces, segmentsFrom_split, getLastD_append_cons, List.append_assoc]
  refine ⟨_, l₂, hpieces, ?_, hcuts⟩
  have hflat := flatten_segmentsFrom h
  change (pieces s (l₁ ++ b :: l₂)).flatten = s.drop 0 at hflat
  rw [hpieces, List.flatten_append, flatten_segmentsFrom hcuts, List.drop_zero] at hflat
  exact List.append_cancel_right (hflat.trans (List.take_append_drop b s).symm)

/-- The pieces of what comes after a prefix. -/
theorem segmentsFrom_suffix (A S : Bytes) (k : ℕ) (m : List ℕ) :
    segmentsFrom (A ++ S) (k + A.length) (m.map (· + A.length)) ++
        [(A ++ S).drop ((m.map (· + A.length)).getLastD (k + A.length))]
      = segmentsFrom S k m ++ [S.drop (m.getLastD k)] := by
  have hlast : ∀ m k, (List.map (· + A.length) m).getLastD (k + A.length)
      = List.getLastD m k + A.length := by
    intro m
    induction m with
    | nil => exact fun k => rfl
    | cons c m ih =>
      intro k
      rw [List.map_cons, List.getLastD_cons, List.getLastD_cons, ih]
  rw [segmentsFrom_append, hlast, Nat.add_comm, List.drop_length_add_append]

/-- **Inputs that end alike are listed alike** from a common cut on, past which the window lies
inside the common end when the next segment may end. -/
theorem rabinExample_resync (hmd : md.Sums sum)
    (hacc : rabinInit env windowSize.toUInt32 avgSegSize.toUInt32 minSegSize.toUInt32
      maxSegSize.toUInt32 ≠ .ok none)
    (A B S : Bytes) {reads reads' : List Bytes} (hA : reads.flatten = A ++ S)
    (hB : reads'.flatten = B ++ S)
    (hreads : ∀ buf ∈ reads ++ reads', buf ≠ [] ∧ buf.length ≤ 1024) :
    ∃ rp₀ l l', rabinInit env windowSize.toUInt32 avgSegSize.toUInt32 minSegSize.toUInt32
        maxSegSize.toUInt32 = .ok (some rp₀) ∧
      Greedy.Cuts minSegSize.toUInt32.toNat maxSegSize.toUInt32.toNat (Hit rp₀ (A ++ S))
        (A ++ S).length 0 l ∧
      Greedy.Cuts minSegSize.toUInt32.toNat maxSegSize.toUInt32.toNat (Hit rp₀ (B ++ S))
        (B ++ S).length 0 l' ∧
      ∀ k, k + A.length ∈ l → k + B.length ∈ l' →
        windowSize.toUInt32.toNat ≤ k + minSegSize.toUInt32.toNat →
        ∃ front front' back : List Bytes, front.flatten = A ++ S.take k ∧
          front'.flatten = B ++ S.take k ∧ back.flatten = S.drop k ∧
          rabinExample md env windowSize avgSegSize minSegSize maxSegSize reads
            = .ok (some ((front ++ back).flatMap (pieceLine sum))) ∧
          rabinExample md env windowSize avgSegSize minSegSize maxSegSize reads'
            = .ok (some ((front' ++ back).flatMap (pieceLine sum))) := by
  obtain ⟨hreads, hreads'⟩ := List.forall_mem_append.1 hreads
  obtain ⟨ha, U, hU, hinit⟩ := rabinInit_of_ne hacc
  have hf := fresh_freshRabin ha hU
  obtain ⟨st, l, hrun, hcuts, hprinted⟩ := listReads_cuts hmd hf reads hreads
  obtain ⟨st', l', hrun', hcuts', hprinted'⟩ := listReads_cuts hmd hf reads' hreads'
  rw [hA] at hcuts hprinted
  rw [hB] at hcuts' hprinted'
  refine ⟨_, l, l', hinit, hcuts, hcuts', fun k hk hk' hw => ?_⟩
  obtain ⟨front, lA, hpieces, hfront, hcutsA⟩ := pieces_split hf.min_pos hcuts hk
  obtain ⟨front', lB, hpieces', hfront', hcutsB⟩ := pieces_split hf.min_pos hcuts' hk'
  have hback := flatten_segmentsFrom hcutsA
  rw [List.length_append, Nat.add_comm] at hcutsA hcutsB
  obtain ⟨m, rfl, rfl⟩ := cuts_resync hf hw hcutsA hcutsB
  rw [segmentsFrom_suffix] at hpieces hpieces' hback
  refine ⟨front, front', segmentsFrom S k m ++ [S.drop (m.getLastD k)], ?_, ?_, ?_, ?_, ?_⟩
  · rw [hfront, Nat.add_comm, List.take_length_add_append]
  · rw [hfront', Nat.add_comm, List.take_length_add_append]
  · rw [hback, Nat.add_comm, List.drop_length_add_append]
  · rw [rabinExample_eq hinit hrun, hprinted, hpieces]
  · rw [rabinExample_eq hinit hrun', hprinted', hpieces']

/-- Two inputs that end in 33 times `a`, cut after every byte: from the 31st of them on, with a
window of 32 bytes. -/
theorem rabinExample_resync_tail :
    ∃ rp₀ l l', rabinInit ⟨true, true⟩ 32 1 1 1 = .ok (some rp₀) ∧
      Greedy.Cuts 1 1 (Hit rp₀ ([98, 99] ++ List.replicate 33 97)) 35 0 l ∧
      Greedy.Cuts 1 1 (Hit rp₀ ([100] ++ List.replicate 33 97)) 34 0 l' ∧
      31 + 2 ∈ l ∧ 31 + 1 ∈ l' ∧
      ∃ front front' back : List Bytes,
        front.flatten = [98, 99] ++ (List.replicate 33 97).take 31 ∧
        front'.flatten = [100] ++ (List.replicate 33 97).take 31 ∧
        back.flatten = (List.replicate 33 97).drop 31 ∧
        rabinExample (keepAll sumUpToTwo) ⟨true, true⟩ 32 1 1 1
            [[98], [99] ++ List.replicate 33 97]
          = .ok (some ((front ++ back).flatMap (pieceLine sumUpToTwo))) ∧
        rabinExample (keepAll sumUpToTwo) ⟨true, true⟩ 32 1 1 1
            [[100] ++ List.replicate 33 97]
          = .ok (some ((front' ++ back).flatMap (pieceLine sumUpToTwo))) := by
  have hA : ([[98], [99] ++ List.replicate 33 97] : List Bytes).flatten
      = [98, 99] ++ List.replicate 33 97 := rfl
  have hB : ([[100] ++ List.replicate 33 97] : List Bytes).flatten
      = [100] ++ List.replicate 33 97 := rfl
  obtain ⟨rp₀, l, l', hinit, hcuts, hcuts', h⟩ :=
    rabinExample_resync (sums_keepAll sumUpToTwo) accepts_ones [98, 99] [100]
      (List.replicate 33 97) hA hB (by simp)
  have hk : 31 + 2 ∈ l := by
    rw [show l = _ from hcuts.eq_range']
    decide
  have hk' : 31 + 1 ∈ l' := by
    rw [show l' = _ from hcuts'.eq_range']
    decide
  exact ⟨rp₀, l, l', hinit, hcuts, hcuts', hk, hk', h 31 hk hk' (by decide)⟩

end CloudFS
