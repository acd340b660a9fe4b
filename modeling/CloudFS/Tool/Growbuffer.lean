import CloudFS.Machinery.Bytes
import CloudFS.Machinery.Machine
import CloudFS.Machinery.Ring
import Mathlib.Data.List.DropRight

/-!
# Tool/Growbuffer — the queue of blocks in front of an upload

The `s3` tool keeps what it reads from its standard input in a ring of blocks: `growbuffer_append`
fills the last block and allocates new ones, `growbuffer_read` empties the first and gives it back,
`growbuffer_destroy` gives back what is left.  `Holds` reads the ring as the bytes not read yet.
Every append that finds the last block unread adds its bytes at the end (`append_spec`), every read
takes bytes off the front (`read_spec`), and a destroyed buffer leaves nothing allocated
(`destroy_spec`).  A last block that was read from in part takes bytes at the wrong place, so
appends are right exactly where it was not (`appends_iff`).

A step the source leaves undefined — a node that is not there, a copy past the end of a block — has
no result.
-/

namespace CloudFS.S3

open Ring

/-- `growbuffer` without its pointers; `sizeof(data)` is `B`. -/
structure Growbuffer (B : ℕ) where
  size : ℕ
  start : ℕ
  data : Bytes
  length_data : data.length = B
  size_le : size ≤ B

/-- The memory the blocks are allocated in. -/
abbrev Memory (B : ℕ) := Table (Node (Growbuffer B))

/-- What `malloc` returns where it would allocate next: nothing, or memory of any content. -/
abbrev Malloc (B : ℕ) := ℕ → Option { junk : Bytes // junk.length = B }

/-- A pointer to a growbuffer, and the memory. -/
structure Buffering (B : ℕ) where
  gb : Option ℕ
  mem : Memory B

variable {B : ℕ}

namespace Growbuffer

/-- A block just allocated. -/
def fresh (junk : { junk : Bytes // junk.length = B }) : Growbuffer B :=
  ⟨0, 0, junk, junk.2, Nat.zero_le _⟩

/-- The bytes of `data` that a block takes: `toCopy` of them. -/
def copied (buf : Growbuffer B) (data : Bytes) : Bytes := data.take (B - buf.size)

theorem size_add_length_copied (buf : Growbuffer B) (data : Bytes) :
    buf.size + (buf.copied data).length ≤ B := by
  have h := buf.size_le
  rw [copied, List.length_take]
  omega

/-- `memcpy` to `data[size]`, and the new `size`. -/
def fill (buf : Growbuffer B) (data : Bytes) : Growbuffer B where
  size := buf.size + (buf.copied data).length
  start := buf.start
  data := buf.data.overwrite buf.size (buf.copied data)
  length_data := by
    have hle := buf.size_add_length_copied data
    by_cases hs : buf.copied data = []
    · rw [hs, Bytes.overwrite_nil, buf.length_data]
    · rw [Bytes.length_overwrite _ _ hs, buf.length_data]
      exact max_eq_left hle
  size_le := buf.size_add_length_copied data

/-- The block after `amt` of its bytes were copied out. -/
def drain (buf : Growbuffer B) (amt : ℕ) : Growbuffer B :=
  { buf with
    size := buf.size - amt
    start := buf.start + amt
    size_le := (Nat.sub_le _ _).trans buf.size_le }

/-- What a block holds that was not read. -/
def rest (buf : Growbuffer B) : Bytes := buf.data.slice buf.start buf.size

end Growbuffer

/-- An empty buffer. -/
def Buffering.init : Buffering B := ⟨none, Table.empty⟩

/-- The block `growbuffer_append` copies to next: the last one, or if there is none or it is full a
new one; `none` if that cannot be allocated. -/
def tailBlock (malloc : Malloc B) (s : Buffering B) : Option (Option (ℕ × Buffering B)) :=
  match s.gb with
  | none =>
    some ((malloc s.mem.next).map fun junk =>
      (s.mem.next, ⟨some s.mem.next, alone s.mem (.fresh junk)⟩))
  | some gb => do
    let head ← s.mem.get gb
    let buf ← s.mem.get head.prev
    if buf.val.size = B then
      match malloc s.mem.next with
      | none => some none
      | some junk => do
        let mem ← insertBefore s.mem gb (.fresh junk)
        some (some (s.mem.next, ⟨some gb, mem⟩))
    else some (some (head.prev, s))

/-- The loop of `growbuffer_append`, for at most `turns` turns. -/
def appendTurns (malloc : Malloc B) : ℕ → Buffering B → Bytes → Option (Bool × Buffering B)
  | _, s, [] => some (true, s)
  | 0, _, _ :: _ => none
  | turns + 1, s, x :: data => do
    match ← tailBlock malloc s with
    | none => some (false, s)
    | some (a, s) => do
      let buf ← s.mem.get a
      let s' := { s with mem := s.mem.set a { buf with val := buf.val.fill (x :: data) } }
      appendTurns malloc turns s' ((x :: data).drop (buf.val.copied (x :: data)).length)

/-- `growbuffer_append`: whether the data was taken whole. -/
def growbufferAppend (malloc : Malloc B) (s : Buffering B) (data : Bytes) :
    Option (Bool × Buffering B) :=
  appendTurns malloc data.length s data

/-- `growbuffer_read`: the bytes read. -/
def growbufferRead (s : Buffering B) (amt : ℕ) : Option (Bytes × Buffering B) :=
  match s.gb with
  | none => some ([], s)
  | some gb => do
    let buf ← s.mem.get gb
    let amtReturn := if amt < buf.val.size then amt else buf.val.size
    if buf.val.start + amtReturn ≤ B then do
      let mem := s.mem.set gb { buf with val := buf.val.drain amtReturn }
      let buffer := buf.val.data.slice buf.val.start amtReturn
      if buf.val.size - amtReturn = 0 then do
        let mem' ← remove mem gb
        some (buffer, ⟨if buf.next = gb then none else some buf.next, mem'⟩)
      else some (buffer, ⟨some gb, mem⟩)
    else none

/-- The loop of `growbuffer_destroy`, for at most `turns` turns. -/
def destroyTurns (start : Option ℕ) : ℕ → Option ℕ → Memory B → Option (Memory B)
  | _, none, mem => some mem
  | 0, some _, _ => none
  | turns + 1, some gb, mem => do
    let buf ← mem.get gb
    destroyTurns start turns (if some buf.next = start then none else some buf.next) (mem.erase gb)

/-- `growbuffer_destroy`: the memory it leaves. -/
def growbufferDestroy (s : Buffering B) : Option (Memory B) :=
  destroyTurns s.gb s.mem.next s.gb s.mem

/-! ## Blocks -/

variable {s s' : Buffering B} {bs : List (ℕ × Growbuffer B)} {malloc : Malloc B}

namespace Growbuffer

variable {buf : Growbuffer B} {data : Bytes} {amt : ℕ}

/-- The bytes not read lie in the block. -/
def Within (buf : Growbuffer B) : Prop := buf.start + buf.size ≤ B

instance (buf : Growbuffer B) : Decidable buf.Within := inferInstanceAs (Decidable (_ ≤ _))

theorem length_rest (h : buf.Within) : buf.rest.length = buf.size := by
  have h' : buf.start + buf.size ≤ B := h
  rw [rest, Bytes.slice, List.length_take, List.length_drop, buf.length_data]
  omega

/-- **A block nothing was read from takes bytes at its end.** -/
theorem rest_fill (h : buf.start = 0) (data : Bytes) :
    (buf.fill data).rest = buf.rest ++ buf.copied data := by
  have hle := buf.size_le
  have htake : (buf.data.take buf.size).length = buf.size := by
    rw [List.length_take, buf.length_data, min_eq_left hle]
  rw [rest, rest, Bytes.slice, Bytes.slice, fill, h, List.drop_zero, List.drop_zero]
  dsimp only
  by_cases hs : buf.copied data = []
  · rw [hs, Bytes.overwrite_nil, List.length_nil, Nat.add_zero, List.append_nil]
  · have hresize : buf.data.resize buf.size = buf.data.take buf.size := by
      rw [Bytes.resize, buf.length_data, Nat.sub_eq_zero_of_le hle, List.replicate_zero,
        List.append_nil]
    rw [Bytes.overwrite, if_neg hs, hresize]
    exact List.take_left' (by rw [List.length_append, htake])

/-- What was copied out and what is left. -/
theorem rest_drain (h : amt ≤ buf.size) :
    buf.rest = buf.data.slice buf.start amt ++ (buf.drain amt).rest := by
  obtain ⟨k, hk⟩ := Nat.exists_eq_add_of_le h
  rw [rest, rest, Bytes.slice, Bytes.slice, Bytes.slice, drain]
  dsimp only
  rw [hk, Nat.add_sub_cancel_left, List.take_add, List.drop_drop]

theorem within_drain (h : buf.Within) (ha : amt ≤ buf.size) : (buf.drain amt).Within := by
  have h' : buf.start + buf.size ≤ B := h
  change buf.start + amt + (buf.size - amt) ≤ B
  omega

end Growbuffer

/-! ## The ring as a queue -/

/-- The bytes not read yet, block by block. -/
def contents (bs : List (ℕ × Growbuffer B)) : Bytes := bs.flatMap fun x => x.2.rest

/-- Nothing was read from the last block. -/
def LastUnread (bs : List (ℕ × Growbuffer B)) : Prop := ∀ x ∈ bs.getLast?, x.2.start = 0

instance (bs : List (ℕ × Growbuffer B)) : Decidable (LastUnread bs) :=
  inferInstanceAs (Decidable (∀ x ∈ bs.getLast?, _))

/-- **The buffer is the ring of the blocks `bs`**, and nothing else is allocated. -/
structure Buffering.Blocks (s : Buffering B) (bs : List (ℕ × Growbuffer B)) : Prop where
  links : Links s.mem bs
  gb : s.gb = (addrs bs).head?

/-- Every block has bytes left to read. -/
structure Buffering.Holds (s : Buffering B) (bs : List (ℕ × Growbuffer B)) : Prop
    extends s.Blocks bs where
  unread : ∀ x ∈ bs, 0 < x.2.size
  within : ∀ x ∈ bs, x.2.Within

theorem Buffering.holds_init : (Buffering.init : Buffering B).Holds [] :=
  ⟨⟨links_nil, rfl⟩, fun _ h => absurd h (by simp), fun _ h => absurd h (by simp)⟩

theorem contents_append (bs bs' : List (ℕ × Growbuffer B)) :
    contents (bs ++ bs') = contents bs ++ contents bs' := List.flatMap_append

theorem contents_cons (x : ℕ × Growbuffer B) (bs : List (ℕ × Growbuffer B)) :
    contents (x :: bs) = x.2.rest ++ contents bs := List.flatMap_cons

theorem contents_singleton (a : ℕ) (buf : Growbuffer B) : contents [(a, buf)] = buf.rest :=
  List.flatMap_singleton ..

theorem lastUnread_concat (bs : List (ℕ × Growbuffer B)) (x : ℕ × Growbuffer B) :
    LastUnread (bs ++ [x]) ↔ x.2.start = 0 := by
  rw [LastUnread, List.getLast?_concat]
  simp

/-! ## Appending -/

/-- The first block leads back to the last. -/
theorem Buffering.Blocks.prev_head {bs₀ : List (ℕ × Growbuffer B)} {a : ℕ} {buf : Growbuffer B}
    (hs : s.Blocks (bs₀ ++ [(a, buf)])) :
    ∃ gb head, s.gb = some gb ∧ s.mem.get gb = some head ∧ head.prev = a := by
  obtain ⟨⟨g, w⟩, l, hl⟩ : ∃ x l, bs₀ ++ [(a, buf)] = x :: l :=
    List.exists_cons_of_ne_nil (by simp)
  have hlast : (addrs l).getLast?.getD g = a := by
    have h := congrArg (fun l => (addrs l).getLast?) hl
    simp only [addrs_append, addrs_cons, addrs_nil, List.getLast?_concat, List.getLast?_cons] at h
    exact (Option.some.inj h).symm
  refine ⟨g, _, ?_, (hl ▸ hs.links).head, hlast⟩
  rw [hs.gb, hl, addrs_cons, List.head?_cons]

/-- A block put in before the first. -/
theorem Buffering.Blocks.insert {gb : ℕ} (hs : s.Blocks bs) (hgb : s.gb = some gb)
    (b : Growbuffer B) :
    ∃ mem', insertBefore s.mem gb b = some mem' ∧
      (⟨some gb, mem'⟩ : Buffering B).Blocks (bs ++ [(s.mem.next, b)]) := by
  have hhead := hs.gb
  rw [hgb] at hhead
  cases bs with
  | nil => exact absurd hhead (by simp)
  | cons x bs =>
    obtain rfl : gb = x.1 := Option.some.inj hhead
    obtain ⟨mem', hrun, -, hlinks⟩ := links_insertBefore hs.links b
    exact ⟨mem', hrun, hlinks, rfl⟩

/-- **The block to copy to** is the last one if it has room, and a new one after it if not. -/
theorem tailBlock_spec (hs : s.Blocks bs) (malloc : Malloc B) :
    (∃ bs₀ a buf, bs = bs₀ ++ [(a, buf)] ∧ buf.size ≠ B ∧
      tailBlock malloc s = some (some (a, s))) ∨
    (∀ x ∈ bs.getLast?, x.2.size = B) ∧ (∃ a junk s', tailBlock malloc s = some (some (a, s')) ∧
      s'.Blocks (bs ++ [(a, .fresh junk)])) ∨
    tailBlock malloc s = some none ∧ malloc s.mem.next = none := by
  rcases List.eq_nil_or_concat bs with rfl | ⟨bs₀, ⟨a, buf⟩, rfl⟩
  · have hgb : s.gb = none := hs.gb
    cases hm : malloc s.mem.next with
    | none => exact Or.inr (Or.inr ⟨by simp [tailBlock, hgb, hm], rfl⟩)
    | some junk =>
      refine Or.inr (Or.inl ⟨by simp, s.mem.next, junk,
        ⟨some s.mem.next, alone s.mem (.fresh junk)⟩, ?_, links_alone hs.links _, rfl⟩)
      simp only [tailBlock, hgb, hm, Option.map_some]
  · rw [List.concat_eq_append] at hs ⊢
    obtain ⟨g, head, hgb, hhead, hprev⟩ := hs.prev_head
    have hbuf := hs.links.get bs₀ a buf [] rfl
    by_cases hfull : buf.size = B
    · cases hm : malloc s.mem.next with
      | none =>
        exact Or.inr (Or.inr ⟨by simp [tailBlock, hgb, hhead, hprev, hbuf, hfull, hm], rfl⟩)
      | some junk =>
        obtain ⟨mem', hrun, hmem'⟩ := hs.insert hgb (.fresh junk)
        refine Or.inr (Or.inl ⟨by simpa using hfull, s.mem.next, junk, ⟨some g, mem'⟩, ?_, hmem'⟩)
        simp [tailBlock, hgb, hhead, hprev, hbuf, hfull, hm, hrun]
    · exact Or.inl ⟨bs₀, a, buf, rfl, hfull, by simp [tailBlock, hgb, hhead, hprev, hbuf, hfull]⟩

/-- The last block after it was copied to. -/
theorem Buffering.Blocks.fill {bs₀ : List (ℕ × Growbuffer B)} {a : ℕ} {buf : Growbuffer B}
    (hs : s.Blocks (bs₀ ++ [(a, buf)])) (data : Bytes) :
    ∃ n, s.mem.get a = some n ∧ n.val = buf ∧
      ({ s with mem := s.mem.set a { n with val := buf.fill data } } : Buffering B).Blocks
        (bs₀ ++ [(a, buf.fill data)]) := by
  have hget := hs.links.get bs₀ a buf [] rfl
  refine ⟨_, hget, rfl, ?_, ?_⟩
  · have h := hs.links.set hget (buf.fill data)
    rwa [put_last hs.links.nodup] at h
  · rw [hs.gb, addrs_append, addrs_append, addrs_cons, addrs_cons]

/-- What an append that was asked for `data` leaves of a buffer of the bytes `c`: the data at its
end, or as much of it as there was memory for. -/
structure Appended (malloc : Malloc B) (c data : Bytes) (r : Bool) (s' : Buffering B) : Prop where
  holds : ∃ bs' k, s'.Holds bs' ∧ LastUnread bs' ∧ contents bs' = c ++ data.take k ∧
    (data.length ≤ k ↔ r = true)
  memory : r = false → ∃ a, malloc a = none

/-- One turn of `growbuffer_append`. -/
theorem holds_fill {bs₀ : List (ℕ × Growbuffer B)} {a : ℕ} {buf : Growbuffer B} {data : Bytes}
    (hb : s.Blocks (bs₀ ++ [(a, buf.fill data)])) (hu : ∀ x ∈ bs₀, 0 < x.2.size)
    (hw : ∀ x ∈ bs₀, x.2.Within) (h0 : buf.start = 0) (hr : buf.size ≠ B) (hd : data ≠ []) :
    s.Holds (bs₀ ++ [(a, buf.fill data)]) ∧ LastUnread (bs₀ ++ [(a, buf.fill data)]) ∧
      0 < (buf.copied data).length := by
  have hle := buf.size_add_length_copied data
  have hsize := buf.size_le
  have hpos : 0 < (buf.copied data).length := by
    have := List.length_pos_of_ne_nil hd
    rw [Growbuffer.copied, List.length_take]
    omega
  refine ⟨⟨hb, fun x hx => ?_, fun x hx => ?_⟩, (lastUnread_concat ..).2 h0, hpos⟩
  · rcases List.mem_append.1 hx with hx | hx
    · exact hu x hx
    · obtain rfl := List.mem_singleton.1 hx
      exact Nat.lt_add_left _ hpos
  · rcases List.mem_append.1 hx with hx | hx
    · exact hw x hx
    · obtain rfl := List.mem_singleton.1 hx
      change buf.start + (buf.size + (buf.copied data).length) ≤ B
      omega

/-- An append in two parts. -/
theorem Appended.of_drop {c data : Bytes} {j : ℕ} {r : Bool} (hj : j ≤ data.length)
    (h : Appended malloc (c ++ data.take j) (data.drop j) r s') : Appended malloc c data r s' where
  holds := by
    obtain ⟨bs', k, hs', hw, hc, hk⟩ := h.holds
    refine ⟨bs', j + k, hs', hw, ?_, ?_⟩
    · rw [hc, List.append_assoc, List.take_add]
    · rw [← hk, List.length_drop]
      omega
  memory := h.memory

/-- **The loop of `growbuffer_append`** has turns enough, and adds the data at the end. -/
theorem appendTurns_spec (hB : 0 < B) {turns : ℕ} {data : Bytes} (ht : data.length ≤ turns)
    (hs : s.Holds bs) (hw : LastUnread bs) :
    ∃ r s', appendTurns malloc turns s data = some (r, s') ∧
      Appended malloc (contents bs) data r s' := by
  induction turns generalizing s bs data with
  | zero =>
    obtain rfl : data = [] := List.length_eq_zero_iff.1 (Nat.le_zero.1 ht)
    exact ⟨true, s, rfl, ⟨bs, 0, hs, hw, by simp, by simp⟩, by simp⟩
  | succ turns ih =>
    cases data with
    | nil => exact ⟨true, s, rfl, ⟨bs, 0, hs, hw, by simp, by simp⟩, by simp⟩
    | cons x data =>
      have hturn : ∀ {bs₀ a buf t}, tailBlock malloc s = some (some (a, t)) →
          t.Blocks (bs₀ ++ [(a, buf)]) → (∀ x ∈ bs₀, 0 < x.2.size) → (∀ x ∈ bs₀, x.2.Within) →
          buf.start = 0 → buf.size ≠ B → contents bs = contents bs₀ ++ buf.rest →
          ∃ r s', appendTurns malloc (turns + 1) s (x :: data) = some (r, s') ∧
            Appended malloc (contents bs) (x :: data) r s' := by
        intro bs₀ a buf t htail hb hu hin h0 hroom hc
        obtain ⟨n, hn, rfl, hfill⟩ := hb.fill (x :: data)
        obtain ⟨hs', hw', hpos⟩ := holds_fill hfill hu hin h0 hroom (by simp)
        have hcopied : (x :: data).take (n.val.copied (x :: data)).length
            = n.val.copied (x :: data) := by simp [Growbuffer.copied]
        have hle : (n.val.copied (x :: data)).length ≤ (x :: data).length := by
          rw [← hcopied, List.length_take]
          exact min_le_right _ _
        have hlen : ((x :: data).drop (n.val.copied (x :: data)).length).length ≤ turns := by
          rw [List.length_drop]
          omega
        obtain ⟨r, s', hrun, happ⟩ := ih hlen hs' hw'
        have hnew : contents (bs₀ ++ [(a, n.val.fill (x :: data))])
            = contents bs ++ (x :: data).take (n.val.copied (x :: data)).length := by
          rw [contents_append, contents_singleton, Growbuffer.rest_fill h0, hc, hcopied,
            List.append_assoc]
        refine ⟨r, s', ?_, (hnew ▸ happ).of_drop hle⟩
        simp only [appendTurns, htail, hn, Option.bind_eq_bind, Option.bind_some, hrun]
      rcases tailBlock_spec hs.toBlocks malloc with
        ⟨bs₀, a, buf, rfl, hroom, htail⟩ | ⟨-, a, junk, t, htail, ht⟩ | ⟨htail, hm⟩
      · refine hturn htail hs.toBlocks (fun x hx => hs.unread x (List.mem_append_left _ hx))
          (fun x hx => hs.within x (List.mem_append_left _ hx)) ((lastUnread_concat ..).1 hw)
          hroom ?_
        rw [contents_append, contents_singleton]
      · refine hturn htail ht hs.unread hs.within rfl hB.ne ?_
        rw [Growbuffer.rest, Bytes.slice, Growbuffer.fresh, List.take_zero, List.append_nil]
      · refine ⟨false, s, ?_, ⟨bs, 0, hs, hw, by simp, by simp⟩, fun _ => ⟨_, hm⟩⟩
        simp only [appendTurns, htail, Option.bind_eq_bind, Option.bind_some]

/-- **`growbuffer_append`** adds the data at the end of what is buffered. -/
theorem append_spec (hB : 0 < B) (hs : s.Holds bs) (hw : LastUnread bs) (malloc : Malloc B)
    (data : Bytes) :
    ∃ r s', growbufferAppend malloc s data = some (r, s') ∧
      Appended malloc (contents bs) data r s' := appendTurns_spec hB le_rfl hs hw

/-! ## Reading -/

/-- The pointer after the first block is drained. -/
theorem Buffering.Blocks.next_head {gb : ℕ} {buf : Node (Growbuffer B)} {b : Growbuffer B}
    (hs : s.Blocks ((gb, b) :: bs)) (hbuf : s.mem.get gb = some buf) :
    (if buf.next = gb then none else some buf.next) = (addrs bs).head? := by
  have hnot := (List.nodup_cons.1 hs.links.nodup).1
  rw [hs.links.head] at hbuf
  obtain rfl := Option.some.inj hbuf
  cases hm : (addrs bs).head? with
  | none => exact if_pos rfl
  | some m => exact if_neg fun e : m = gb => hnot (e ▸ List.mem_of_head? hm)

/-- **`growbuffer_read`** takes bytes out of the first block, and gives it back when it is empty. -/
theorem read_eq {gb : ℕ} {b : Growbuffer B} (hs : s.Blocks ((gb, b) :: bs)) (hb : b.Within)
    (amt : ℕ) :
    ∃ s', growbufferRead s amt = some (b.data.slice b.start (min amt b.size), s') ∧
      s'.Blocks (if b.size ≤ amt then bs else (gb, b.drain amt) :: bs) := by
  obtain ⟨n, hn, rfl⟩ : ∃ n, s.mem.get gb = some n ∧ n.val = b := ⟨_, hs.links.head, rfl⟩
  have hgb : s.gb = some gb := hs.gb
  have hmin : (if amt < n.val.size then amt else n.val.size) = min amt n.val.size := by
    rw [min_def]
    split_ifs <;> omega
  have hin : n.val.start + min amt n.val.size ≤ B := by
    have h' : n.val.start + n.val.size ≤ B := hb
    omega
  have hset := hs.links.set hn (n.val.drain (min amt n.val.size))
  rw [put_head hs.links.nodup] at hset
  by_cases hle : n.val.size ≤ amt
  · obtain ⟨mem', hrun, -, hlinks⟩ := links_remove hset
    have hzero : n.val.size - min amt n.val.size = 0 := by omega
    refine ⟨⟨(addrs bs).head?, mem'⟩, ?_, by rw [if_pos hle]; exact ⟨hlinks, rfl⟩⟩
    simp only [growbufferRead, hgb, hn, Option.bind_eq_bind, Option.bind_some, hmin, if_pos hin,
      if_pos hzero, hrun, hs.next_head hn]
  · have hpos : n.val.size - min amt n.val.size ≠ 0 := by omega
    have hamt : min amt n.val.size = amt := by omega
    refine ⟨⟨some gb, s.mem.set gb { n with val := n.val.drain amt }⟩, ?_, ?_⟩
    · simp only [growbufferRead, hgb, hn, Option.bind_eq_bind, Option.bind_some, hmin, if_pos hin,
        if_neg hpos]
      rw [hamt]
    · rw [if_neg hle]
      rw [hamt] at hset
      exact ⟨hset, rfl⟩

/-- **`growbuffer_read`** takes at most `amt` bytes off the front of what is buffered, and some if
there are any. -/
theorem read_spec (hs : s.Holds bs) (amt : ℕ) :
    ∃ b s' bs', growbufferRead s amt = some (b, s') ∧ s'.Holds bs' ∧
      contents bs = b ++ contents bs' ∧ b.length ≤ amt ∧ (b = [] → amt = 0 ∨ bs = []) := by
  cases bs with
  | nil =>
    have hgb : s.gb = none := hs.gb
    exact ⟨[], s, [], by rw [growbufferRead, hgb], hs, rfl, Nat.zero_le _, fun _ => Or.inr rfl⟩
  | cons x bs =>
    obtain ⟨gb, b⟩ := x
    have hin : b.Within := hs.within _ List.mem_cons_self
    have hpos : 0 < b.size := hs.unread _ List.mem_cons_self
    have hlen : (b.data.slice b.start (min amt b.size)).length = min amt b.size := by
      have h' : b.start + b.size ≤ B := hin
      rw [Bytes.slice, List.length_take, List.length_drop, b.length_data]
      omega
    obtain ⟨s', hrun, hb⟩ := read_eq hs.toBlocks hin amt
    refine ⟨_, s', _, hrun, ⟨hb, ?_, ?_⟩, ?_, by rw [hlen]; exact min_le_left _ _, fun h => ?_⟩
    · split
      case isTrue => exact fun x hx => hs.unread x (List.mem_cons_of_mem _ hx)
      case isFalse hle =>
        refine List.forall_mem_cons.2 ⟨?_, fun x hx => hs.unread x (List.mem_cons_of_mem _ hx)⟩
        exact Nat.sub_pos_of_lt (Nat.not_le.1 hle)
    · split
      case isTrue => exact fun x hx => hs.within x (List.mem_cons_of_mem _ hx)
      case isFalse hle =>
        refine List.forall_mem_cons.2 ⟨?_, fun x hx => hs.within x (List.mem_cons_of_mem _ hx)⟩
        exact Growbuffer.within_drain hin (Nat.not_le.1 hle).le
    · split
      case isTrue hle => rw [min_eq_right hle, contents_cons]; rfl
      case isFalse hle =>
        have hle' := (Nat.not_le.1 hle).le
        rw [contents_cons, contents_cons, min_eq_left hle', ← List.append_assoc]
        exact congrArg (· ++ _) (Growbuffer.rest_drain hle')
    · rw [h, List.length_nil] at hlen
      exact Or.inl (by omega)

/-! ## Destroying -/

/-- **The loop of `growbuffer_destroy`** gives every block back once: it has given back `l₁`. -/
theorem destroyTurns_spec {l₁ l₂ : List (ℕ × Growbuffer B)} {mem₀ mem : Memory B}
    (hl : Links mem₀ (l₁ ++ l₂)) (hmem : ∀ x, mem.get x = if x ∈ addrs l₁ then none else mem₀.get x)
    {turns : ℕ} (ht : l₂.length ≤ turns) :
    ∃ mem', destroyTurns (addrs (l₁ ++ l₂)).head? turns (addrs l₂).head? mem = some mem' ∧
      ∀ x, mem'.get x = none := by
  induction l₂ generalizing l₁ mem turns with
  | nil =>
    refine ⟨mem, by cases turns <;> rfl, fun x => ?_⟩
    rw [hmem]
    split
    case isTrue => rfl
    case isFalse hx => exact hl.only x (by rwa [List.append_nil])
  | cons y l₂ ih =>
    obtain ⟨a, b⟩ := y
    cases turns with
    | zero => exact absurd ht (by simp)
    | succ turns =>
      have hassoc : l₁ ++ (a, b) :: l₂ = (l₁ ++ [(a, b)]) ++ l₂ := by simp
      have hnot : a ∉ addrs l₁ := fun h => by
        have hn := hl.nodup
        rw [addrs_append, List.nodup_append] at hn
        exact hn.2.2 a h a List.mem_cons_self rfl
      have hget := hl.get l₁ a b l₂ rfl
      have hnext : (if some ((addrs (l₂ ++ l₁)).head?.getD a) = (addrs (l₁ ++ (a, b) :: l₂)).head?
          then none else some ((addrs (l₂ ++ l₁)).head?.getD a)) = (addrs l₂).head? := by
        cases l₂ with
        | nil => cases l₁ <;> simp
        | cons z l₂ =>
          have hne : (addrs (l₁ ++ (a, b) :: z :: l₂)).head? ≠ some z.1 := fun h => by
            rw [hassoc] at h hl
            exact absurd ((head?_addrs_iff hl.nodup).1 h) (by simp)
          rw [List.cons_append, addrs_cons, List.head?_cons, Option.getD_some, if_neg hne.symm]
          rfl
      have hmem' : ∀ x, (mem.erase a).get x
          = if x ∈ addrs (l₁ ++ [(a, b)]) then none else mem₀.get x := by
        intro x
        by_cases hx : x = a
        · rw [hx, Table.get_erase_self, if_pos (by simp)]
        · rw [Table.get_erase_of_ne hx, hmem]
          simp [hx]
      obtain ⟨mem', hrun, hnone⟩ := ih (hassoc ▸ hl) hmem' (Nat.le_of_succ_le_succ ht)
      refine ⟨mem', ?_, hnone⟩
      rw [← hassoc, ← hnext] at hrun
      rw [← hrun, addrs_cons, List.head?_cons, destroyTurns, hmem, if_neg hnot, hget]
      rfl

/-- There are no more blocks than were ever allocated. -/
theorem Buffering.Blocks.length_le_next (hs : s.Blocks bs) : bs.length ≤ s.mem.next := by
  have hlt : addrs bs ⊆ List.range s.mem.next := fun a ha => by
    obtain ⟨n, hn⟩ := Option.isSome_iff_exists.1 (hs.links.isSome_of_mem ha)
    exact List.mem_range.2 (Table.lt_next_of_get hn)
  have h := hs.links.nodup.length_le_of_subset hlt
  rwa [List.length_range, addrs, List.length_map] at h

/-- **`growbuffer_destroy`** leaves nothing allocated. -/
theorem destroy_spec (hs : s.Blocks bs) :
    ∃ mem, growbufferDestroy s = some mem ∧ ∀ a, mem.get a = none := by
  have hmem : ∀ x, s.mem.get x = if x ∈ addrs ([] : List (ℕ × Growbuffer B)) then none
      else s.mem.get x := fun x => (if_neg (by simp)).symm
  rw [growbufferDestroy, hs.gb]
  exact destroyTurns_spec hs.links hmem hs.length_le_next

/-! ## Appends and reads in any order -/

/-- A call on a growbuffer. -/
inductive Call (B : ℕ)
  | append (malloc : Malloc B) (data : Bytes)
  | read (amt : ℕ)

/-- What it returns, if what it does is defined. -/
inductive Returned
  | appended (whole : Bool)
  | read (buffer : Bytes)
  | undefined

/-- The bytes handed in. -/
def Call.data : Call B → Bytes
  | .append _ data => data
  | .read _ => []

/-- The bytes handed out. -/
def Returned.buffer : Returned → Bytes
  | .read buffer => buffer
  | _ => []

/-- A call. -/
def Buffering.call (s : Buffering B) : Call B → Buffering B × Returned
  | .append malloc data =>
    match growbufferAppend malloc s data with
    | some (r, s') => (s', .appended r)
    | none => (s, .undefined)
  | .read amt =>
    match growbufferRead s amt with
    | some (b, s') => (s', .read b)
    | none => (s, .undefined)

/-- Where the bytes not read of the last block start. -/
def Buffering.tailStart (s : Buffering B) : ℕ :=
  (s.gb.bind fun gb => (s.mem.get gb).bind fun head =>
    (s.mem.get head.prev).map fun buf => buf.val.start).getD 0

/-- The calls the callers make: memory for what is appended, and nothing read from the block it goes
to. -/
def Buffering.Ok (s : Buffering B) : Call B → Prop
  | .append malloc _ => (∀ a, (malloc a).isSome) ∧ s.tailStart = 0
  | .read _ => True

/-- The pointers lead to the last block. -/
theorem tailStart_eq_zero_iff (hs : s.Blocks bs) : s.tailStart = 0 ↔ LastUnread bs := by
  rcases List.eq_nil_or_concat bs with rfl | ⟨bs₀, ⟨a, buf⟩, rfl⟩
  · have hgb : s.gb = none := hs.gb
    simp [Buffering.tailStart, hgb, LastUnread]
  · rw [List.concat_eq_append] at hs ⊢
    obtain ⟨g, n, hgb, hhead, hprev⟩ := hs.prev_head
    have hbuf := hs.links.get bs₀ a buf [] rfl
    rw [lastUnread_concat, Buffering.tailStart, hgb, Option.bind_some, hhead, Option.bind_some,
      hprev, hbuf]
    rfl

/-- The bytes delivered by reads of whole blocks until the buffer is empty, in at most `turns`
reads. -/
def readTurns : ℕ → Buffering B → Option Bytes
  | 0, s => if s.gb = none then some [] else none
  | turns + 1, s =>
    if s.gb = none then some []
    else do
      let r ← growbufferRead s B
      (readTurns turns r.2).map (r.1 ++ ·)

/-- The bytes delivered when the buffer is read to its end. -/
def readBack (s : Buffering B) : Option Bytes := readTurns s.mem.next s

/-- **A buffer is read to its end** where no block reaches past its bound. -/
theorem readTurns_eq {turns : ℕ} (hs : s.Blocks bs) (ht : bs.length ≤ turns) :
    readTurns turns s = if ∀ x ∈ bs, x.2.Within then some (contents bs) else none := by
  induction turns generalizing s bs with
  | zero =>
    obtain rfl : bs = [] := List.length_eq_zero_iff.1 (Nat.le_zero.1 ht)
    have hgb : s.gb = none := hs.gb
    simp [readTurns, hgb, contents]
  | succ turns ih =>
    cases bs with
    | nil =>
      have hgb : s.gb = none := hs.gb
      simp [readTurns, hgb, contents]
    | cons x bs =>
      obtain ⟨gb, b⟩ := x
      have hgb : s.gb = some gb := hs.gb
      have hne : s.gb ≠ none := by simp [hgb]
      rw [readTurns, if_neg hne]
      by_cases hin : b.Within
      · obtain ⟨s', hrun, hs'⟩ := read_eq hs hin B
        rw [if_pos b.size_le] at hs'
        rw [hrun, min_eq_right b.size_le, Option.bind_eq_bind, Option.bind_some,
          ih hs' (Nat.le_of_succ_le_succ ht), contents_cons]
        simp only [List.forall_mem_cons, hin, true_and]
        split <;> rfl
      · have hget := hs.links.head
        have hout : ¬ b.start + (if B < b.size then B else b.size) ≤ B := by
          rw [if_neg (Nat.not_lt.2 b.size_le)]
          exact hin
        have hnone : growbufferRead s B = none := by
          simp only [growbufferRead, hgb, hget, Option.bind_eq_bind, Option.bind_some, hout,
            if_false]
        rw [hnone, if_neg fun h => hin (h _ List.mem_cons_self)]
        rfl

theorem readBack_eq (hs : s.Blocks bs) :
    readBack s = if ∀ x ∈ bs, x.2.Within then some (contents bs) else none :=
  readTurns_eq hs hs.length_le_next

/-- An append for which there is memory takes the data whole. -/
theorem append_whole (hB : 0 < B) (hs : s.Holds bs) (hw : LastUnread bs)
    (hm : ∀ a, (malloc a).isSome) (data : Bytes) :
    ∃ s' bs', growbufferAppend malloc s data = some (true, s') ∧ s'.Holds bs' ∧
      LastUnread bs' ∧ contents bs' = contents bs ++ data := by
  obtain ⟨r, s', hrun, ⟨bs', k, hs', hw', hc, hk⟩, hmem⟩ := append_spec hB hs hw malloc data
  cases r with
  | false =>
    obtain ⟨a, ha⟩ := hmem rfl
    have h := hm a
    rw [ha] at h
    exact absurd h (by simp)
  | true => exact ⟨s', bs', hrun, hs', hw', by rw [hc, List.take_of_length_le (hk.2 rfl)]⟩

/-- **One call** is defined, and what was held and is handed in is handed out or held. -/
theorem call_spec (hB : 0 < B) (hs : s.Holds bs) {c : Call B} (hok : s.Ok c) :
    ∃ bs', (s.call c).1.Holds bs' ∧ (s.call c).2 ≠ .undefined ∧
      contents bs ++ c.data = (s.call c).2.buffer ++ contents bs' := by
  cases c with
  | append malloc data =>
    obtain ⟨s', bs', hrun, hs', -, hc⟩ := append_whole hB hs
      ((tailStart_eq_zero_iff hs.toBlocks).1 hok.2) hok.1 data
    rw [Buffering.call, hrun]
    exact ⟨bs', hs', by simp, hc.symm⟩
  | read amt =>
    obtain ⟨b, s', bs', hrun, hs', hc, -⟩ := read_spec hs amt
    rw [Buffering.call, hrun]
    exact ⟨bs', hs', by simp, (List.append_nil _).trans hc⟩

/-- Any number of calls. -/
theorem calls_spec (hB : 0 < B) {calls : List (Call B)} (hs : s.Holds bs)
    (hl : Machine.Legal Buffering.call Buffering.Ok s calls) :
    ∃ bs', (Machine.run Buffering.call s calls).1.Holds bs' ∧
      (∀ o ∈ (Machine.run Buffering.call s calls).2, o ≠ .undefined) ∧
      contents bs ++ calls.flatMap Call.data
        = (Machine.run Buffering.call s calls).2.flatMap Returned.buffer ++ contents bs' := by
  induction calls generalizing s bs with
  | nil => exact ⟨bs, hs, fun o ho => absurd ho (by simp [Machine.run]), by simp [Machine.run]⟩
  | cons c calls ih =>
    obtain ⟨bs₁, hs₁, hne, hc⟩ := call_spec hB hs hl.1
    obtain ⟨bs', hs', hdef, hrest⟩ := ih hs₁ hl.2
    refine ⟨bs', hs', List.forall_mem_cons.2 ⟨hne, hdef⟩, ?_⟩
    calc contents bs ++ (c :: calls).flatMap Call.data
        = (contents bs ++ c.data) ++ calls.flatMap Call.data := by
          rw [List.flatMap_cons, List.append_assoc]
      _ = (s.call c).2.buffer ++ (contents bs₁ ++ calls.flatMap Call.data) := by
          rw [hc, List.append_assoc]
      _ = _ := by
          rw [hrest, ← List.append_assoc]
          rfl

/-- **A growbuffer is a queue**: over every run of appends and reads in which no append meets a
block that was read from, nothing undefined is done, the bytes handed in come out in order, what did
not come out yet is still there, and a destroy leaves nothing allocated. -/
theorem growbuffer_queue (hB : 0 < B) {calls : List (Call B)}
    (hl : Machine.Legal Buffering.call Buffering.Ok Buffering.init calls) :
    let r := Machine.run Buffering.call Buffering.init calls
    (∀ o ∈ r.2, o ≠ .undefined) ∧
      (∃ rest, calls.flatMap Call.data = r.2.flatMap Returned.buffer ++ rest ∧
        readBack r.1 = some rest) ∧
      ∃ mem, growbufferDestroy r.1 = some mem ∧ ∀ a, mem.get a = none := by
  obtain ⟨bs, hs, hdef, hc⟩ := calls_spec hB Buffering.holds_init hl
  refine ⟨hdef, ⟨contents bs, hc, ?_⟩, destroy_spec hs.toBlocks⟩
  rw [readBack_eq hs.toBlocks, if_pos hs.within]

/-- Two blocks of two bytes, and a third when the first has been read from. -/
theorem growbuffer_queue_three :
    let malloc : Malloc 2 := fun _ => some ⟨[0, 0], rfl⟩
    let calls := [Call.append malloc [1, 2, 3], .read 1, .append malloc [4, 5], .read 9, .read 9]
    let r := Machine.run Buffering.call Buffering.init calls
    (∀ o ∈ r.2, o ≠ .undefined) ∧
      (∃ rest, [1, 2, 3, 4, 5] = r.2.flatMap Returned.buffer ++ rest ∧ readBack r.1 = some rest) ∧
      ∃ mem, growbufferDestroy r.1 = some mem ∧ ∀ a, mem.get a = none :=
  growbuffer_queue (by decide) ⟨⟨fun _ => rfl, rfl⟩, trivial, ⟨fun _ => rfl, rfl⟩, trivial, trivial,
    trivial⟩

/-! ## Appends to a block that was read from -/

/-- A byte put into a block that was read from is not the one after its bytes. -/
theorem Growbuffer.rest_fill_ne {buf : Growbuffer B} (h : buf.start ≠ 0) (hin : buf.Within)
    {x : UInt8} (hx : buf.data[buf.start + buf.size]? ≠ some x) :
    (buf.fill [x]).rest ≠ buf.rest ++ [x] := by
  intro he
  have hroom : buf.start + buf.size ≤ B := hin
  have hcopied : buf.copied [x] = [x] := List.take_of_length_le (by simp; omega)
  have hlast : (buf.rest ++ [x])[buf.size]? = some x := by
    rw [List.getElem?_append_right (Growbuffer.length_rest hin).le, Growbuffer.length_rest hin,
      Nat.sub_self, List.getElem?_cons_zero]
  have hrest : (buf.fill [x]).rest = ((buf.data.overwrite buf.size (buf.copied [x])).drop
      buf.start).take (buf.size + (buf.copied [x]).length) := rfl
  have hput : (buf.fill [x]).rest[buf.size]? = buf.data[buf.start + buf.size]? := by
    have hresize : (buf.data.resize buf.size).length = buf.size := Bytes.length_resize ..
    rw [hrest, hcopied, Bytes.overwrite, if_neg (by simp), List.getElem?_take_of_lt (by simp),
      List.getElem?_drop, List.append_assoc, List.getElem?_append_right (by omega), hresize,
      List.getElem?_append_right (by simp; omega), List.getElem?_drop]
    congr 1
    simp
    omega
  exact hx (by rw [← hput, he, hlast])

/-- One byte appended to a last block that has room. -/
theorem append_byte {bs₀ : List (ℕ × Growbuffer B)} {a : ℕ} {buf : Growbuffer B}
    (hs : s.Blocks (bs₀ ++ [(a, buf)])) (hroom : buf.size ≠ B) {malloc : Malloc B}
    (hm : ∀ a, (malloc a).isSome) (x : UInt8) :
    ∃ s', growbufferAppend malloc s [x] = some (true, s') ∧
      s'.Blocks (bs₀ ++ [(a, buf.fill [x])]) := by
  obtain ⟨n, hn, rfl, hfill⟩ := hs.fill [x]
  have hcopied : n.val.copied [x] = [x] := by
    have := n.val.size_le
    exact List.take_of_length_le (by simp; omega)
  have htail : tailBlock malloc s = some (some (a, s)) := by
    rcases tailBlock_spec hs malloc with ⟨bs₁, b, buf, he, -, htail⟩ | ⟨hlast, -⟩ | ⟨-, hnone⟩
    · obtain ⟨-, hx⟩ := List.append_inj' he rfl
      obtain ⟨rfl, -⟩ := Prod.mk.inj (List.cons.inj hx).1
      exact htail
    · exact absurd (hlast (a, n.val) (by simp)) hroom
    · have h := hm s.mem.next
      rw [hnone] at h
      exact absurd h (by simp)
  refine ⟨_, ?_, hfill⟩
  simp only [growbufferAppend, List.length_singleton, appendTurns, htail, hn,
    Option.bind_eq_bind, Option.bind_some, hcopied]
  rfl

/-- **Appends are right exactly where nothing was read from the last block**: any data is read back
after what was there. -/
theorem appends_iff (hB : 0 < B) (hs : s.Holds bs) :
    (∀ (malloc : Malloc B) (data : Bytes), (∀ a, (malloc a).isSome) →
      ∃ s', growbufferAppend malloc s data = some (true, s') ∧
        readBack s' = some (contents bs ++ data)) ↔ LastUnread bs := by
  constructor
  · intro h
    rcases List.eq_nil_or_concat bs with rfl | ⟨bs₀, ⟨a, buf⟩, rfl⟩
    · exact fun x hx => absurd hx (by simp)
    · rw [List.concat_eq_append] at hs h ⊢
      rw [lastUnread_concat]
      by_contra hstart
      have hin : buf.Within := hs.within (a, buf) (by simp)
      have hroom : buf.size ≠ B := by
        have h' : buf.start + buf.size ≤ B := hin
        dsimp only at hstart
        omega
      obtain ⟨x, hx⟩ : ∃ x, buf.data[buf.start + buf.size]? ≠ some x := by
        by_contra hc
        push Not at hc
        exact absurd ((hc 0).symm.trans (hc 1)) (by decide)
      let malloc : Malloc B := fun _ => some ⟨List.replicate B 0, List.length_replicate⟩
      have hm : ∀ a, (malloc a).isSome := fun _ => rfl
      obtain ⟨s₁, hrun, hback⟩ := h malloc [x] hm
      obtain ⟨s', hrun', hs'⟩ := append_byte hs.toBlocks hroom hm x
      obtain rfl : s₁ = s' := (Prod.mk.inj (Option.some.inj (hrun.symm.trans hrun'))).2
      rw [readBack_eq hs'] at hback
      split at hback
      case isTrue =>
        rw [contents_append, contents_append, contents_singleton, contents_singleton,
          List.append_assoc] at hback
        exact Growbuffer.rest_fill_ne hstart hin hx
          (List.append_cancel_left (Option.some.inj hback))
      case isFalse => exact absurd hback (by simp)
  · intro hw malloc data hm
    obtain ⟨s', bs', hrun, hs', -, hc⟩ := append_whole hB hs hw hm data
    exact ⟨s', hrun, by rw [readBack_eq hs'.toBlocks, if_pos hs'.within, hc]⟩

/-- A block of two bytes from which one was read. -/
theorem appends_iff_read :
    let b : Growbuffer 2 := ⟨1, 1, [5, 6], rfl, by decide⟩
    let s : Buffering 2 := ⟨some 0, alone Table.empty b⟩
    (∀ (malloc : Malloc 2) (data : Bytes), (∀ a, (malloc a).isSome) →
      ∃ s', growbufferAppend malloc s data = some (true, s') ∧
        readBack s' = some (contents [(0, b)] ++ data)) ↔ LastUnread [(0, b)] :=
  appends_iff (by decide) ⟨⟨links_alone links_nil _, rfl⟩, by decide, by decide⟩

end CloudFS.S3
