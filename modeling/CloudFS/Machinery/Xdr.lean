import CloudFS.Machinery.Bytes
import Mathlib.Data.List.TakeWhile
import Mathlib.Data.Vector.Basic

/-!
# Machinery/Xdr — external data representation, and calls that pass it

An XDR routine runs in two directions: it puts a value at the end of a stream with so much room, or
takes one off the front of the bytes received.  `Routine.Describes` says which bytes it puts for a
value and from which bytes it takes one; there is one rule for each way routines are composed, and
`roundTrip` and `clntCall_respond` follow for every composition.

The two relations differ on strings: the padding behind a string is put as zeros and skipped unread.
A routine may ask for the place of its next units in the buffer and move them there itself, and if
the stream gives it none fall back on the routine of each unit: that is the same (`inlined_eq`).
-/

namespace Xdr

variable {α β : Type}

/-! ## Streams -/

/-- The bytes of one unit. -/
def BYTES_PER_XDR_UNIT : ℕ := 4

/-- A stream being encoded into: what was put, and the room left. -/
structure Sink where
  out : Bytes
  room : ℕ

/-- `XDR_PUTBYTES`. -/
def Sink.put (xdrs : Sink) (b : Bytes) : Option Sink :=
  if b.length ≤ xdrs.room then some ⟨xdrs.out ++ b, xdrs.room - b.length⟩ else none

/-- `XDR_GETBYTES`, and what is left to decode. -/
def getBytes (n : ℕ) (xdrs : Bytes) : Option (Bytes × Bytes) :=
  if n ≤ xdrs.length then some (xdrs.take n, xdrs.drop n) else none

/-- `XDR_INLINE` on a stream being encoded into: whether it `offers` the place of the next `n`
bytes is its own choice, but only if there is room.  They are then part of the stream whatever is
written there. -/
def Sink.inline (offers : Bool) (n : ℕ) (xdrs : Sink) : Option (Bytes → Sink) :=
  if offers ∧ n ≤ xdrs.room then some fun buf => ⟨xdrs.out ++ buf, xdrs.room - n⟩ else none

/-- `XDR_INLINE` on a stream being decoded. -/
def getInline (offers : Bool) (n : ℕ) (xdrs : Bytes) : Option (Bytes × Bytes) :=
  if offers ∧ n ≤ xdrs.length then some (xdrs.take n, xdrs.drop n) else none

/-- The `w` low-order bytes of `n`, most significant first. -/
def beBytes (w n : ℕ) : Bytes := (Bytes.leBytes w n).reverse

/-- The number a byte string spells, most significant byte first. -/
def beValue (b : Bytes) : ℕ := Bytes.leValue b.reverse

@[simp] theorem length_beBytes (w n : ℕ) : (beBytes w n).length = w := by
  rw [beBytes, List.length_reverse, Bytes.length_leBytes]

theorem beValue_beBytes {w n : ℕ} (h : n < 256 ^ w) : beValue (beBytes w n) = n := by
  rw [beValue, beBytes, List.reverse_reverse, Bytes.leValue_leBytes_of_lt h]

theorem beBytes_beValue (b : Bytes) : beBytes b.length (beValue b) = b := by
  rw [beBytes, beValue, ← List.length_reverse, Bytes.leBytes_leValue, List.reverse_reverse]

theorem beValue_lt (b : Bytes) : beValue b < 256 ^ b.length := by
  rw [beValue, ← List.length_reverse]
  exact Bytes.leValue_lt b.reverse

@[simp] theorem Sink.put_nil (xdrs : Sink) : xdrs.put [] = some xdrs := by
  rw [put, List.length_nil, if_pos (Nat.zero_le _), List.append_nil, Nat.sub_zero]

/-- Putting two strings is putting their concatenation. -/
theorem Sink.put_bind_put (xdrs : Sink) (b c : Bytes) :
    ((xdrs.put b).bind fun s => s.put c) = xdrs.put (b ++ c) := by
  simp only [put, List.length_append]
  by_cases hb : b.length ≤ xdrs.room
  · rw [if_pos hb, Option.bind_some, List.append_assoc, Nat.sub_sub]
    have hc : c.length ≤ xdrs.room - b.length ↔ b.length + c.length ≤ xdrs.room := by omega
    simp only [hc]
  · rw [if_neg hb, if_neg fun h => hb (by omega), Option.bind_none]

/-- With room for both, only one string makes a stream of one. -/
theorem Sink.put_inj {xdrs : Sink} {b c : Bytes} (hb : b.length ≤ xdrs.room)
    (hc : c.length ≤ xdrs.room) : xdrs.put b = xdrs.put c ↔ b = c := by
  refine ⟨fun h => ?_, fun h => h ▸ rfl⟩
  rw [put, put, if_pos hb, if_pos hc] at h
  exact List.append_cancel_left (congrArg Sink.out (Option.some.inj h))

theorem getBytes_eq_some {n : ℕ} {b e rest : Bytes} :
    getBytes n b = some (e, rest) ↔ e.length = n ∧ b = e ++ rest := by
  rw [getBytes, Option.ite_none_right_eq_some, Option.some.injEq, Prod.mk.injEq]
  constructor
  · rintro ⟨hn, rfl, rfl⟩
    exact ⟨List.length_take_of_le hn, (List.take_append_drop n b).symm⟩
  · rintro ⟨rfl, rfl⟩
    refine ⟨?_, List.take_left, List.drop_left⟩
    rw [List.length_append]
    exact Nat.le_add_right _ _

/-! ## Routines -/

/-- An XDR routine: what it does on a stream being encoded into, and on one being decoded. -/
structure Routine (α : Type) where
  encode : α → Sink → Option Sink
  decode : Bytes → Option (α × Bytes)

/-- **What a routine does**: it encodes a value as its text, if it has one, and decodes it from the
byte strings that spell it, leaving what follows. -/
structure Routine.Describes (f : Routine α) (text : α → Option Bytes) (Spells : Bytes → α → Prop) :
    Prop where
  encode_eq : ∀ a xdrs, f.encode a xdrs = (text a).bind xdrs.put
  decode_iff : ∀ b a rest, f.decode b = some (a, rest) ↔ ∃ e, Spells e a ∧ b = e ++ rest

/-- A routine each value of which has one text. -/
abbrev Routine.Exact (f : Routine α) (text : α → Bytes) : Prop :=
  f.Describes (fun a => some (text a)) fun e a => e = text a

/-- Two routines one after another. -/
def Routine.seq (f : Routine α) (g : Routine β) : Routine (α × β) where
  encode p xdrs := (f.encode p.1 xdrs).bind (g.encode p.2)
  decode xdrs := (f.decode xdrs).bind fun r => (g.decode r.2).map fun s => ((r.1, s.1), s.2)

/-- A routine for the fields of a structure. -/
def Routine.fields (f : Routine α) (pack : α → β) (unpack : β → α) : Routine β where
  encode b := f.encode (unpack b)
  decode xdrs := (f.decode xdrs).map fun r => (pack r.1, r.2)

section Rules

variable {f : Routine α} {g : Routine β} {t : α → Option Bytes} {u : β → Option Bytes}
  {S : Bytes → α → Prop} {T : Bytes → β → Prop}

theorem Routine.Describes.seq (hf : f.Describes t S) (hg : g.Describes u T) :
    (f.seq g).Describes (fun p => (t p.1).bind fun e => (u p.2).map (e ++ ·))
      fun e p => ∃ c d, S c p.1 ∧ T d p.2 ∧ e = c ++ d where
  encode_eq p xdrs := by
    change (f.encode p.1 xdrs).bind (g.encode p.2) = _
    rw [hf.encode_eq]
    cases t p.1 with
    | none => rfl
    | some c =>
      simp only [Option.bind_some, hg.encode_eq]
      cases u p.2 with
      | none =>
        rw [Option.map_none, Option.bind_none]
        cases xdrs.put c <;> rfl
      | some d => exact xdrs.put_bind_put c d
  decode_iff b p rest := by
    obtain ⟨x, y⟩ := p
    simp only [Routine.seq, Option.bind_eq_some_iff, Option.map_eq_some_iff, Prod.exists,
      Prod.mk.injEq]
    constructor
    · rintro ⟨_, mid, hx, _, _, hy, ⟨rfl, rfl⟩, rfl⟩
      obtain ⟨c, hc, rfl⟩ := (hf.decode_iff _ _ _).1 hx
      obtain ⟨d, hd, rfl⟩ := (hg.decode_iff _ _ _).1 hy
      exact ⟨c ++ d, ⟨c, d, hc, hd, rfl⟩, (List.append_assoc _ _ _).symm⟩
    · rintro ⟨_, ⟨c, d, hc, hd, rfl⟩, rfl⟩
      exact ⟨x, d ++ rest, (hf.decode_iff _ _ _).2 ⟨c, hc, List.append_assoc _ _ _⟩, y, rest,
        (hg.decode_iff _ _ _).2 ⟨d, hd, rfl⟩, ⟨rfl, rfl⟩, rfl⟩

theorem Routine.Describes.fields {pack : α → β} {unpack : β → α} (hf : f.Describes t S)
    (hpack : ∀ a, unpack (pack a) = a) (hunpack : ∀ b, pack (unpack b) = b) :
    (f.fields pack unpack).Describes (fun b => t (unpack b)) fun e b => S e (unpack b) where
  encode_eq b := hf.encode_eq (unpack b)
  decode_iff b y rest := by
    simp only [Routine.fields, Option.map_eq_some_iff, Prod.exists, Prod.mk.injEq]
    constructor
    · rintro ⟨a, _, ha, rfl, rfl⟩
      rw [hpack]
      exact (hf.decode_iff _ _ _).1 ha
    · intro h
      exact ⟨unpack y, rest, (hf.decode_iff _ _ _).2 h, hunpack y, rfl⟩

theorem Routine.Exact.seq {t : α → Bytes} {u : β → Bytes} (hf : f.Exact t) (hg : g.Exact u) :
    (f.seq g).Exact fun p => t p.1 ++ u p.2 where
  encode_eq := (Routine.Describes.seq hf hg).encode_eq
  decode_iff b p rest := by
    rw [(Routine.Describes.seq hf hg).decode_iff]
    constructor
    · rintro ⟨_, ⟨_, _, rfl, rfl, rfl⟩, rfl⟩
      exact ⟨_, rfl, rfl⟩
    · rintro ⟨_, rfl, rfl⟩
      exact ⟨_, ⟨_, _, rfl, rfl, rfl⟩, rfl⟩

/-- **What is encoded is decoded, and what follows it left**, if the text of a value spells it. -/
theorem Routine.Describes.roundTrip (hf : f.Describes t S) {a : α} {e : Bytes} (ha : t a = some e)
    (hspells : S e a) (xdrs : Sink) (hroom : e.length ≤ xdrs.room) (rest : Bytes) :
    f.encode a xdrs = some ⟨xdrs.out ++ e, xdrs.room - e.length⟩ ∧
      f.decode (e ++ rest) = some (a, rest) := by
  refine ⟨?_, (hf.decode_iff _ _ _).2 ⟨e, hspells, rfl⟩⟩
  rw [hf.encode_eq, ha, Option.bind_some, Sink.put, if_pos hroom]

end Rules

/-! ## Integers -/

/-- `IXDR_PUT_LONG`: what is stored at the place of one unit. -/
def putLong (x : Int32) : Bytes := beBytes BYTES_PER_XDR_UNIT x.toUInt32.toNat

/-- `IXDR_GET_LONG`. -/
def getLong (b : Bytes) : Int32 := (UInt32.ofNat (beValue b)).toInt32

/-- `xdr_int`. -/
def xdrInt : Routine Int32 where
  encode x xdrs := xdrs.put (putLong x)
  decode xdrs := (getBytes BYTES_PER_XDR_UNIT xdrs).map fun r => (getLong r.1, r.2)

/-- `xdr_enum`: an enumeration has the size of an `int`, and any `int` is let through. -/
def xdrEnum : Routine Int32 := xdrInt

@[simp] theorem length_putLong (x : Int32) : (putLong x).length = BYTES_PER_XDR_UNIT :=
  length_beBytes _ _

theorem getLong_putLong (x : Int32) : getLong (putLong x) = x := by
  have hx : x.toUInt32.toNat < 256 ^ BYTES_PER_XDR_UNIT := x.toUInt32.toNat_lt
  rw [getLong, putLong, beValue_beBytes hx, UInt32.ofNat_toNat, Int32.toInt32_toUInt32]

theorem putLong_getLong {b : Bytes} (hb : b.length = BYTES_PER_XDR_UNIT) :
    putLong (getLong b) = b := by
  have hlt : beValue b < 2 ^ 32 := by
    have h := beValue_lt b
    rw [hb] at h
    exact h
  rw [putLong, getLong, UInt32.toUInt32_toInt32, UInt32.toNat_ofNat_of_lt' hlt, ← hb,
    beBytes_beValue]

theorem putLong_injective : Function.Injective putLong :=
  Function.LeftInverse.injective getLong_putLong

theorem xdrInt_exact : xdrInt.Exact putLong where
  encode_eq _ _ := rfl
  decode_iff b x rest := by
    simp only [xdrInt, Option.map_eq_some_iff, Prod.exists, Prod.mk.injEq, getBytes_eq_some]
    constructor
    · rintro ⟨e, _, ⟨he, rfl⟩, rfl, rfl⟩
      exact ⟨e, (putLong_getLong he).symm, rfl⟩
    · rintro ⟨_, rfl, rfl⟩
      exact ⟨putLong x, rest, ⟨length_putLong x, rfl⟩, getLong_putLong x, rfl⟩

/-! ## Vectors -/

/-- `xdr_vector`: a routine on each element in turn. -/
def xdrVector (elem : Routine α) : (n : ℕ) → Routine (List.Vector α n)
  | 0 => ⟨fun _ xdrs => some xdrs, fun xdrs => some (.nil, xdrs)⟩
  | n + 1 =>
    (elem.seq (xdrVector elem n)).fields (fun p => .cons p.1 p.2) fun v => (v.head, v.tail)

/-- What a loop of `IXDR_PUT_LONG` stores. -/
def putLongs : (n : ℕ) → List.Vector Int32 n → Bytes
  | 0, _ => []
  | n + 1, v => putLong v.head ++ putLongs n v.tail

/-- What a loop of `IXDR_GET_LONG` reads. -/
def getLongs : (n : ℕ) → Bytes → List.Vector Int32 n
  | 0, _ => .nil
  | n + 1, b => .cons (getLong (b.take BYTES_PER_XDR_UNIT)) (getLongs n (b.drop BYTES_PER_XDR_UNIT))

/-- A vector of `int`s, moved to or from the place the stream offers for it, or else one by one. -/
def inlined (offers : Bool) (n : ℕ) : Routine (List.Vector Int32 n) where
  encode v xdrs :=
    match xdrs.inline offers (n * BYTES_PER_XDR_UNIT) with
    | none => (xdrVector xdrInt n).encode v xdrs
    | some fill => some (fill (putLongs n v))
  decode xdrs :=
    match getInline offers (n * BYTES_PER_XDR_UNIT) xdrs with
    | none => (xdrVector xdrInt n).decode xdrs
    | some (buf, xdrs) => some (getLongs n buf, xdrs)

@[simp] theorem length_putLongs (n : ℕ) (v : List.Vector Int32 n) :
    (putLongs n v).length = n * BYTES_PER_XDR_UNIT := by
  induction n with
  | zero => exact (Nat.zero_mul _).symm
  | succ n ih => rw [putLongs, List.length_append, length_putLong, ih, Nat.succ_mul, Nat.add_comm]

theorem putLongs_getLongs (n : ℕ) {b : Bytes} (hb : b.length = n * BYTES_PER_XDR_UNIT) :
    putLongs n (getLongs n b) = b := by
  induction n generalizing b with
  | zero => exact (List.eq_nil_of_length_eq_zero (hb.trans (Nat.zero_mul _))).symm
  | succ n ih =>
    rw [Nat.succ_mul] at hb
    have hhead : (b.take BYTES_PER_XDR_UNIT).length = BYTES_PER_XDR_UNIT :=
      List.length_take_of_le (by omega)
    have htail : (b.drop BYTES_PER_XDR_UNIT).length = n * BYTES_PER_XDR_UNIT := by
      rw [List.length_drop]
      omega
    rw [getLongs, putLongs, List.Vector.head_cons, List.Vector.tail_cons, putLong_getLong hhead,
      ih htail, List.take_append_drop]

theorem putLongs_injective (n : ℕ) : Function.Injective (putLongs n) := by
  intro v w h
  induction n with
  | zero => exact Subsingleton.elim v w
  | succ n ih =>
    obtain ⟨hhead, htail⟩ := List.append_inj h (by rw [length_putLong, length_putLong])
    rw [← v.cons_head_tail, ← w.cons_head_tail, putLong_injective hhead, ih htail]

theorem xdrVector_exact (n : ℕ) : (xdrVector xdrInt n).Exact (putLongs n) := by
  induction n with
  | zero =>
    refine ⟨fun v xdrs => xdrs.put_nil.symm, fun b v rest => ?_⟩
    rw [Subsingleton.elim v .nil]
    constructor
    · intro h
      obtain ⟨-, rfl⟩ := Prod.mk.inj (Option.some.inj h)
      exact ⟨[], rfl, rfl⟩
    · rintro ⟨_, rfl, rfl⟩
      rfl
  | succ n ih =>
    exact (xdrInt_exact.seq ih).fields (fun p => rfl) fun v => v.cons_head_tail

/-- **Moving a vector in place is encoding and decoding it one by one**, whatever a stream offers:
on a stream with too little left both fail, or fall back. -/
theorem inlined_eq (offers : Bool) (n : ℕ) : inlined offers n = xdrVector xdrInt n := by
  have hspec := xdrVector_exact n
  have hencode : (inlined offers n).encode = (xdrVector xdrInt n).encode := by
    funext v xdrs
    simp only [inlined, Sink.inline]
    split
    case h_1 => rfl
    case h_2 fill hfill =>
      obtain ⟨⟨-, hroom⟩, hfill⟩ := Option.ite_none_right_eq_some.1 hfill
      obtain rfl := Option.some.inj hfill
      rw [hspec.encode_eq, Option.bind_some, Sink.put, length_putLongs, if_pos hroom]
  have hdecode : (inlined offers n).decode = (xdrVector xdrInt n).decode := by
    funext b
    simp only [inlined, getInline]
    split
    case h_1 => rfl
    case h_2 buf rest hbuf =>
      obtain ⟨⟨-, hlen⟩, hbuf⟩ := Option.ite_none_right_eq_some.1 hbuf
      obtain ⟨rfl, rfl⟩ := Prod.mk.inj (Option.some.inj hbuf)
      refine ((hspec.decode_iff _ _ _).2 ⟨_, rfl, ?_⟩).symm
      rw [putLongs_getLongs n (List.length_take_of_le hlen), List.take_append_drop]
  calc inlined offers n = ⟨(inlined offers n).encode, (inlined offers n).decode⟩ := rfl
    _ = xdrVector xdrInt n := by rw [hencode, hdecode]

/-! ## Strings -/

/-- The bytes of a C string: those before the first NUL. -/
def cString (sp : Bytes) : Bytes := sp.takeWhile (· ≠ 0)

/-- What fills the last unit of `size` bytes. -/
def padding (size : ℕ) : ℕ :=
  if size % BYTES_PER_XDR_UNIT = 0 then 0 else BYTES_PER_XDR_UNIT - size % BYTES_PER_XDR_UNIT

/-- `xdr_string`: a size and that many bytes, in whole units.  The value is the buffer of the string
without the NUL behind it, in which a decoded string may have others. -/
def xdrString (maxsize : ℕ) : Routine Bytes where
  encode sp xdrs :=
    let size := (cString sp).length
    (xdrs.put (beBytes BYTES_PER_XDR_UNIT size)).bind fun xdrs =>
      if size ≤ maxsize then
        (xdrs.put (cString sp)).bind fun xdrs => xdrs.put (List.replicate (padding size) 0)
      else none
  decode xdrs :=
    (getBytes BYTES_PER_XDR_UNIT xdrs).bind fun r =>
      let size := beValue r.1
      if size ≤ maxsize then
        (getBytes size r.2).bind fun s =>
          -- the padding goes where nobody looks
          (getBytes (padding size) s.2).map fun t => (s.1, t.2)
      else none

/-- Padded, what fits into whole units still does. -/
theorem add_padding_le {size n : ℕ} (h : size ≤ n * BYTES_PER_XDR_UNIT) :
    size + padding size ≤ n * BYTES_PER_XDR_UNIT := by
  rw [padding]
  rw [BYTES_PER_XDR_UNIT] at *
  split <;> omega

/-- The size of a string, the string and the padding behind it. -/
def padded (sp pad : Bytes) : Bytes := beBytes BYTES_PER_XDR_UNIT sp.length ++ sp ++ pad

/-- What a C string is encoded as. -/
def stringText (sp : Bytes) : Bytes := padded sp (List.replicate (padding sp.length) 0)

theorem cString_eq_self {sp : Bytes} : cString sp = sp ↔ 0 ∉ sp := by
  rw [cString, List.takeWhile_eq_self_iff]
  constructor
  · intro h h0
    exact of_decide_eq_true (h 0 h0) rfl
  · intro h x hx
    exact decide_eq_true fun h0 => h (h0 ▸ hx)

/-- A size below the largest is told by its bytes. -/
theorem padded_inj {sp sp' pad pad' rest rest' : Bytes} (h : sp.length < 2 ^ 32)
    (h' : sp'.length < 2 ^ 32) (hpad : pad.length = padding sp.length)
    (hpad' : pad'.length = padding sp'.length) :
    padded sp pad ++ rest = padded sp' pad' ++ rest' ↔ sp = sp' ∧ pad = pad' ∧ rest = rest' := by
  constructor
  · intro heq
    simp only [padded, List.append_assoc] at heq
    obtain ⟨hsize, heq⟩ := List.append_inj heq (by rw [length_beBytes, length_beBytes])
    have hlen : sp.length = sp'.length := by
      rw [← beValue_beBytes (w := BYTES_PER_XDR_UNIT) h, hsize, beValue_beBytes h']
    obtain ⟨hsp, heq⟩ := List.append_inj heq hlen
    obtain ⟨hpads, hrest⟩ := List.append_inj heq (by rw [hpad, hpad', hlen])
    exact ⟨hsp, hpads, hrest⟩
  · rintro ⟨rfl, rfl, rfl⟩
    rfl

theorem xdrString_describes {maxsize : ℕ} (hmax : maxsize < 2 ^ 32) :
    (xdrString maxsize).Describes
      (fun sp => if (cString sp).length ≤ maxsize then some (stringText (cString sp)) else none)
      fun e sp => sp.length ≤ maxsize ∧ ∃ pad, pad.length = padding sp.length ∧
        e = padded sp pad where
  encode_eq sp xdrs := by
    simp only [xdrString]
    by_cases h : (cString sp).length ≤ maxsize
    · simp only [if_pos h, Sink.put_bind_put, Option.bind_some]
      rw [stringText, padded, List.append_assoc]
    · simp only [if_neg h, Option.bind_none]
      cases xdrs.put _ <;> rfl
  decode_iff b sp rest := by
    simp only [xdrString, Option.bind_eq_some_iff, Prod.exists, getBytes_eq_some,
      Option.ite_none_right_eq_some, Option.map_eq_some_iff, Prod.mk.injEq]
    constructor
    · rintro ⟨e, _, ⟨he, rfl⟩, hle, _, _, ⟨hsp, rfl⟩, pad, _, ⟨hpad, rfl⟩, rfl, rfl⟩
      refine ⟨padded _ pad, ⟨by rwa [hsp], pad, by rw [hpad, hsp], rfl⟩, ?_⟩
      rw [padded, hsp, ← he, beBytes_beValue]
      simp only [List.append_assoc]
    · rintro ⟨_, ⟨hle, pad, hpad, rfl⟩, rfl⟩
      have hsize : beValue (beBytes BYTES_PER_XDR_UNIT sp.length) = sp.length :=
        beValue_beBytes (hle.trans_lt hmax)
      refine ⟨beBytes BYTES_PER_XDR_UNIT sp.length, sp ++ (pad ++ rest),
        ⟨length_beBytes _ _, ?_⟩, ?_⟩
      · simp only [padded, List.append_assoc]
      · rw [hsize]
        exact ⟨hle, sp, pad ++ rest, ⟨rfl, rfl⟩, pad, rest, ⟨hpad, rfl⟩, rfl, rfl⟩

/-! ## Calls -/

/-- `clnt_call`: the arguments are encoded into a message with so much `room`, the reply that came
to it, if one did, is decoded into the results, and whether that succeeded is told.  The results of
a failed call stay as they were. -/
def clntCall (room : ℕ) (net : Bytes → Option Bytes) (xargs : Routine α) (xresults : Routine β)
    (argsp : α) (resultsp : β) : Bool × β :=
  match xargs.encode argsp ⟨[], room⟩ with
  | none => (false, resultsp)
  | some xdrs =>
    match (net xdrs.out).bind xresults.decode with
    | none => (false, resultsp)
    | some r => (true, r.1)

/-- The other end of a call: it decodes the arguments, runs the procedure and encodes what it
returns into a message with so much `room`. -/
def respond (room : ℕ) (xargs : Routine α) (xresults : Routine β) (proc : α → β) (b : Bytes) :
    Option Bytes :=
  (xargs.decode b).bind fun r => (xresults.encode (proc r.1) ⟨[], room⟩).map Sink.out

/-- What a call decodes, if it succeeds, does not depend on the results before it. -/
theorem clntCall_result (room : ℕ) (net : Bytes → Option Bytes) (xargs : Routine α)
    (xresults : Routine β) (argsp : α) :
    ∃ r : Option β, ∀ resultsp,
      clntCall room net xargs xresults argsp resultsp = (r.isSome, r.getD resultsp) := by
  refine ⟨(xargs.encode argsp ⟨[], room⟩).bind fun xdrs =>
    ((net xdrs.out).bind xresults.decode).map Prod.fst, fun resultsp => ?_⟩
  rw [clntCall]
  cases xargs.encode argsp ⟨[], room⟩ with
  | none => rfl
  | some xdrs =>
    rw [Option.bind_some]
    dsimp only
    cases (net xdrs.out).bind xresults.decode <;> rfl

/-- **A call of a served procedure is a call of the procedure**, on arguments that can be
encoded. -/
theorem clntCall_respond {xargs xargs' : Routine α} {xresults xresults' : Routine β}
    {t : α → Option Bytes} {S : Bytes → α → Prop} {u : β → Bytes} (hargs : xargs.Describes t S)
    (hargs' : xargs'.Describes t S) (hresults : xresults.Exact u) (hresults' : xresults'.Exact u)
    {argsp : α} {room room' : ℕ} (hspells : ∀ e ∈ t argsp, S e argsp ∧ e.length ≤ room)
    (proc : α → β) (hroom' : (u (proc argsp)).length ≤ room') (resultsp : β) :
    clntCall room (respond room' xargs' xresults' proc) xargs xresults argsp resultsp
      = ((t argsp).isSome, if (t argsp).isSome then proc argsp else resultsp) := by
  rw [clntCall, hargs.encode_eq]
  cases ht : t argsp with
  | none => rfl
  | some e =>
    obtain ⟨hS, hroom⟩ := hspells e ht
    have hencode := (hargs.roundTrip ht hS ⟨[], room⟩ hroom []).1
    have hdecode := (hargs'.roundTrip ht hS ⟨[], room⟩ hroom []).2
    have hreply := (hresults'.roundTrip rfl rfl ⟨[], room'⟩ hroom' []).1
    have hresult := (hresults.roundTrip rfl rfl ⟨[], room'⟩ hroom' []).2
    rw [hargs.encode_eq, ht] at hencode
    rw [List.append_nil] at hdecode hresult
    simp only [hencode, respond, hdecode, Option.bind_some, hreply, Option.map_some,
      List.nil_append, hresult]
    rfl

end Xdr
