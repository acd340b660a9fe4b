import CloudFS.Client.Lock
import CloudFS.Machinery.Xdr

/-!
# Client/LockMessage — the lock requests on the wire

`acquire_1` and `release_1` encode a `struct lock_params` into a datagram and decode the reply.
Here are the routines that do so, in both directions, and what they accept: everything an encoder
makes, but also requests whose padding is not zero or whose key holds a NUL, which come back
different (`lockParams_canonical`).  A request that fits calls the server's procedure on itself,
whichever streams let it be moved in place (`stubs_serve`), and two requests of a client are one
datagram exactly if their keys and operations agree and their versions modulo `2 ^ 32`
(`request_eq_iff`).

`CloudFS.xdrLockParams` is whether the encoder here lets a request through.
-/

namespace CloudFS.Wire

open Posix Xdr

/-! ## The routines -/

/-- `struct lock_params` in memory: the buffer of the key, and the numbers. -/
structure LockMessage where
  key : Bytes
  operation : Int32
  id_arr : List.Vector Int32 2
  deriving DecidableEq

/-- `xdr_keyname`. -/
def xdrKeyname : Routine Bytes := xdrString MAXNAMELEN

/-- `xdr_status`. -/
def xdrStatus : Routine Int32 := xdrEnum

/-- `xdr_type`. -/
def xdrType : Routine Int32 := xdrEnum

/-- `xdr_identity`, on a stream that may offer the place of both numbers. -/
def xdrIdentity (offers : Bool) : Routine (List.Vector Int32 2) := inlined offers 2

/-- `xdr_lock_params`. -/
def xdrLockParams (offers : Bool) : Routine LockMessage :=
  (xdrKeyname.seq (xdrType.seq (xdrIdentity offers))).fields (fun p => ⟨p.1, p.2.1, p.2.2⟩)
    fun objp => (objp.key, objp.operation, objp.id_arr)

/-- The number of the procedure `acquire_1` calls. -/
def ACQUIRE : ℕ := 1

/-- The number of the procedure `release_1` calls — a macro, unlike the operation. -/
def RELEASE : ℕ := 2

/-- `acquire_1`, over a network that delivers the reply to a message of a procedure or none. -/
def acquire1 (offers : Bool) (room : ℕ) (clnt : ℕ → Bytes → Option Bytes) (argp : LockMessage)
    (clnt_res : Int32) : Bool × Int32 :=
  clntCall room (clnt ACQUIRE) (xdrLockParams offers) xdrStatus argp clnt_res

/-- `release_1`. -/
def release1 (offers : Bool) (room : ℕ) (clnt : ℕ → Bytes → Option Bytes) (argp : LockMessage)
    (clnt_res : Int32) : Bool × Int32 :=
  clntCall room (clnt RELEASE) (xdrLockParams offers) xdrStatus argp clnt_res

/-- The `goto RETRANSMIT` loop of both wrappers, through a stub, with `left` RPCs still allowed: how
each of them ended, in order, and whether the last left an `OK` in `result_1`. -/
def retransmitStub (stub : ℕ → Int32 → Bool × Int32) : (left times : ℕ) → (result_1 : Int32) →
    List (Bool × Int32) × Bool
  | 0, _, _ => ([], false)
  | left + 1, times, result_1 =>
    let r := stub times result_1
    if r.2 = 1 then ([r], true)
    else
      let s := retransmitStub stub left (times + 1) r.2
      (r :: s.1, s.2)

/-! ## What they accept -/

variable {m m' : LockMessage} {b rest : Bytes} {p q : LockParams}

/-- A request with `pad` behind its key. -/
def requestBytes (m : LockMessage) (pad : Bytes) : Bytes :=
  padded m.key pad ++ (putLong m.operation ++ putLongs 2 m.id_arr)

/-- The request as it is received: its key ends at the first NUL. -/
def LockMessage.sent (m : LockMessage) : LockMessage := { m with key := cString m.key }

/-- The zeros that fill the last unit of the key. -/
def LockMessage.zeros (m : LockMessage) : Bytes := List.replicate (padding m.key.length) 0

@[simp] theorem LockMessage.length_zeros (m : LockMessage) :
    m.zeros.length = padding m.key.length := List.length_replicate

/-- What a request is encoded as, if its key is short enough. -/
def requestText (m : LockMessage) : Option Bytes :=
  if m.sent.key.length ≤ MAXNAMELEN then some (requestBytes m.sent m.sent.zeros) else none

/-- **The routine of a request**, in both directions and whatever the stream offers. -/
theorem xdrLockParams_describes (offers : Bool) :
    (xdrLockParams offers).Describes requestText fun e m => m.key.length ≤ MAXNAMELEN ∧
      ∃ pad, pad.length = padding m.key.length ∧ e = requestBytes m pad := by
  have hkey : xdrKeyname.Describes _ _ := xdrString_describes (by decide)
  have hid : (xdrIdentity offers).Exact (putLongs 2) := by
    rw [xdrIdentity, inlined_eq]
    exact xdrVector_exact 2
  have h : (xdrLockParams offers).Describes _ _ :=
    (hkey.seq (Routine.Exact.seq xdrInt_exact hid)).fields (fun _ => rfl) fun _ => rfl
  refine ⟨fun m xdrs => (h.encode_eq m xdrs).trans ?_, fun b m rest =>
    (h.decode_iff b m rest).trans ?_⟩
  · congr 1
    by_cases hm : (cString m.key).length ≤ MAXNAMELEN
    · have htext : requestText m = some (requestBytes m.sent _) := if_pos hm
      rw [if_pos hm, htext]
      rfl
    · have htext : requestText m = none := if_neg hm
      rw [if_neg hm, htext]
      rfl
  · constructor
    · rintro ⟨_, ⟨_, _, ⟨hle, pad, hpad, rfl⟩, rfl, rfl⟩, rfl⟩
      exact ⟨_, ⟨hle, pad, hpad, rfl⟩, rfl⟩
    · rintro ⟨_, ⟨hle, pad, hpad, rfl⟩, rfl⟩
      exact ⟨_, ⟨_, _, ⟨hle, pad, hpad, rfl⟩, rfl, rfl⟩, rfl⟩

theorem MAXNAMELEN_lt : MAXNAMELEN < 2 ^ 32 := by decide

theorem requestBytes_inj {pad pad' rest' : Bytes} (h : m.key.length ≤ MAXNAMELEN)
    (h' : m'.key.length ≤ MAXNAMELEN) (hpad : pad.length = padding m.key.length)
    (hpad' : pad'.length = padding m'.key.length) :
    requestBytes m pad ++ rest = requestBytes m' pad' ++ rest' ↔
      m = m' ∧ pad = pad' ∧ rest = rest' := by
  rw [requestBytes, requestBytes, List.append_assoc, List.append_assoc (padded m'.key pad'),
    padded_inj (h.trans_lt MAXNAMELEN_lt) (h'.trans_lt MAXNAMELEN_lt) hpad hpad']
  constructor
  · rintro ⟨hkey, rfl, heq⟩
    rw [List.append_assoc, List.append_assoc] at heq
    obtain ⟨hop, heq⟩ := List.append_inj heq (by rw [length_putLong, length_putLong])
    obtain ⟨hid, rfl⟩ := List.append_inj heq (by rw [length_putLongs, length_putLongs])
    obtain ⟨key, operation, id_arr⟩ := m
    obtain ⟨key', operation', id_arr'⟩ := m'
    obtain rfl := hkey
    obtain rfl := putLong_injective hop
    obtain rfl := putLongs_injective 2 hid
    exact ⟨rfl, rfl, rfl⟩
  · rintro ⟨rfl, rfl, rfl⟩
    exact ⟨rfl, rfl, rfl⟩

/-- **A request that is accepted is sent on as it came exactly if its key holds no NUL and its
padding is zero**, whatever the two streams offer. -/
theorem lockParams_canonical (offers offers' : Bool)
    (h : (xdrLockParams offers).decode b = some (m, rest)) :
    (∃ room s, (xdrLockParams offers').encode m ⟨[], room⟩ = some s ∧ s.out ++ rest = b) ↔
      0 ∉ m.key ∧ Bytes.slice b (BYTES_PER_XDR_UNIT + m.key.length) (padding m.key.length)
        = m.zeros := by
  obtain ⟨_, ⟨hle, pad, hpad, rfl⟩, rfl⟩ := ((xdrLockParams_describes offers).decode_iff _ _ _).1 h
  have hslice : Bytes.slice (requestBytes m pad ++ rest) (BYTES_PER_XDR_UNIT + m.key.length)
      (padding m.key.length) = pad := by
    have hfront : (beBytes BYTES_PER_XDR_UNIT m.key.length ++ m.key).length
        = BYTES_PER_XDR_UNIT + m.key.length := by
      rw [List.length_append, length_beBytes]
    rw [requestBytes, padded, List.append_assoc, List.append_assoc, ← hfront, Bytes.slice,
      List.drop_left, ← hpad, List.take_left]
  have hshort : m.sent.key.length ≤ MAXNAMELEN :=
    (List.takeWhile_prefix _).length_le.trans hle
  have htext : requestText m = some (requestBytes m.sent m.sent.zeros) := if_pos hshort
  rw [hslice]
  constructor
  · rintro ⟨room, s, hs, heq⟩
    rw [(xdrLockParams_describes offers').encode_eq, htext, Option.bind_some, Sink.put,
      Option.ite_none_right_eq_some, Option.some.injEq] at hs
    obtain ⟨-, rfl⟩ := hs
    obtain ⟨hm, hzero, -⟩ := (requestBytes_inj hshort hle m.sent.length_zeros hpad).1 heq
    have hkey : cString m.key = m.key := congrArg LockMessage.key hm
    refine ⟨cString_eq_self.1 hkey, ?_⟩
    rw [← hzero, hm]
  · rintro ⟨hzero, hpads⟩
    have hm : m.sent = m := by rw [LockMessage.sent, cString_eq_self.2 hzero]
    refine ⟨(requestBytes m pad).length, ⟨requestBytes m pad, 0⟩, ?_, rfl⟩
    rw [(xdrLockParams_describes offers').encode_eq, htext, hm, ← hpads, Option.bind_some, Sink.put,
      if_pos le_rfl, List.nil_append, Nat.sub_self]

/-- A request whose key of two bytes is followed by a 7. -/
theorem lockParams_canonical_seven :
    let b : Bytes := [0, 0, 0, 2, 97, 98, 0, 7, 0, 0, 0, 1, 0, 0, 0, 0, 255, 255, 255, 255, 9]
    let m : LockMessage := ⟨[97, 98], 1, .cons 0 (.cons (-1) .nil)⟩
    (∃ room s, (xdrLockParams false).encode m ⟨[], room⟩ = some s ∧ s.out ++ [9] = b) ↔
      0 ∉ m.key ∧ Bytes.slice b (BYTES_PER_XDR_UNIT + m.key.length) (padding m.key.length)
        = m.zeros :=
  lockParams_canonical true false (by decide)

/-! ## The requests of a client -/

/-- The bytes of a name. -/
def nameBytes (n : Name) : Bytes := n.map fun c => UInt8.ofNat c.toNat

/-- A name that is a C string: its characters are bytes, and none of them is NUL. -/
def CName (n : Name) : Prop := ∀ c ∈ n, 0 < c.toNat ∧ c.toNat < 256

instance (n : Name) : Decidable (CName n) :=
  decidable_of_iff (n.all fun c => 0 < c.toNat ∧ c.toNat < 256)
    ⟨fun h c hc => of_decide_eq_true (List.all_eq_true.1 h c hc),
      fun h => List.all_eq_true.2 fun c hc => decide_eq_true (h c hc)⟩

/-- The numbers of `enum type`. -/
def typeNumber : LockType → Int32
  | .UNDEFINED => 0
  | .READ => 1
  | .WRITE => 2
  | .RELEASE => 3

/-- The numbers of `enum status`. -/
def statusNumber : Status → Int32
  | .ERROR => 0
  | .OK => 1
  | .UNALLOC => 2

/-- The status of a result; a number that is none is no `OK`. -/
def statusOf (x : Int32) : Status :=
  if x = statusNumber .OK then .OK else if x = statusNumber .UNALLOC then .UNALLOC else .ERROR

/-- `lock_arg` as it lies in memory. -/
def lockArg (p : LockParams) : LockMessage where
  key := nameBytes p.key
  operation := typeNumber p.operation
  id_arr := .cons p.id.machine (.cons p.id.version .nil)

/-- What came of an RPC that ended so. -/
def rpcAnswer (r : Bool × Int32) : RpcAnswer := if r.1 then .answered (statusOf r.2) else .failed

@[simp] theorem length_nameBytes (n : Name) : (nameBytes n).length = n.length := List.length_map _

theorem CName.zero_notMem {n : Name} (h : CName n) : 0 ∉ nameBytes n := by
  intro h0
  obtain ⟨c, hc, hzero⟩ := List.mem_map.1 h0
  obtain ⟨hpos, hlt⟩ := h c hc
  have hc0 : c.toNat % 256 = 0 := by
    rw [← UInt8.toNat_ofNat', hzero]
    rfl
  omega

theorem CName.map_nameBytes {n : Name} (h : CName n) :
    ((nameBytes n).map fun x => Char.ofNat x.toNat) = n := by
  rw [nameBytes, List.map_map]
  refine (List.map_congr_left fun c hc => ?_).trans (List.map_id n)
  rw [Function.comp_apply, UInt8.toNat_ofNat_of_lt' (h c hc).2, Char.ofNat_toNat, id]

theorem CName.nameBytes_inj {n n' : Name} (h : CName n) (h' : CName n') :
    nameBytes n = nameBytes n' ↔ n = n' := by
  refine ⟨fun heq => ?_, congrArg nameBytes⟩
  rw [← h.map_nameBytes, heq, h'.map_nameBytes]

/-- The numbers of the operations differ. -/
theorem typeNumber_inj {o o' : LockType} : typeNumber o = typeNumber o' ↔ o = o' := by
  refine ⟨fun h => ?_, congrArg typeNumber⟩
  cases o <;> cases o' <;> first | rfl | exact absurd h (by decide)

theorem statusOf_eq_ok {x : Int32} : statusOf x = .OK ↔ x = statusNumber .OK := by
  rw [statusOf]
  split
  case isTrue h => exact iff_of_true rfl h
  case isFalse h => split <;> exact iff_of_false nofun h

/-- Two numbers are one `int` exactly if they agree modulo `2 ^ 32`. -/
theorem ofInt_eq_ofInt_iff {x y : ℤ} :
    Int32.ofInt x = Int32.ofInt y ↔ x % 2 ^ 32 = y % 2 ^ 32 := by
  rw [← Int32.toInt_inj, Int32.toInt_ofInt, Int32.toInt_ofInt]
  change x.bmod (2 ^ 32) = y.bmod (2 ^ 32) ↔ x % ((2 ^ 32 : ℕ) : ℤ) = y % ((2 ^ 32 : ℕ) : ℤ)
  constructor
  · intro h
    rw [← Int.bmod_emod, h, Int.bmod_emod]
  · intro h
    rw [← Int.emod_bmod, h, Int.emod_bmod]

theorem sent_lockArg (hp : CName p.key) : (lockArg p).sent = lockArg p := by
  rw [LockMessage.sent, lockArg, cString_eq_self.2 hp.zero_notMem]

/-- **The encoder lets a request through exactly if its key is short enough.** -/
theorem requestText_lockArg (hp : CName p.key) : requestText (lockArg p)
    = if CloudFS.xdrLockParams p then some (requestBytes (lockArg p) (lockArg p).zeros)
      else none := by
  have hkey : (lockArg p).key.length ≤ MAXNAMELEN ↔ CloudFS.xdrLockParams p := by
    rw [CloudFS.xdrLockParams, CloudFS.xdrKeyname, decide_eq_true_iff, lockArg, length_nameBytes]
  rw [requestText, sent_lockArg hp]
  exact if_congr hkey rfl rfl

/-- The most bytes a request takes. -/
theorem length_requestText {e : Bytes} (h : requestText m = some e) : e.length ≤ 272 := by
  obtain ⟨hle, he⟩ := Option.ite_none_right_eq_some.1 h
  obtain rfl := Option.some.inj he
  have hkey := add_padding_le (n := 64) (hle.trans (by decide))
  simp only [requestBytes, padded, List.length_append, length_beBytes, LockMessage.length_zeros,
    length_putLong, length_putLongs, BYTES_PER_XDR_UNIT] at *
  omega

/-- With room for a request, the text of it is told by the stream it is put into. -/
theorem bind_put_inj {xdrs : Sink} (hroom : 272 ≤ xdrs.room) :
    (requestText m).bind xdrs.put = (requestText m').bind xdrs.put
      ↔ requestText m = requestText m' := by
  have hput : ∀ {n : LockMessage} {e : Bytes}, requestText n = some e →
      xdrs.put e = some ⟨xdrs.out ++ e, xdrs.room - e.length⟩ := fun h =>
    if_pos ((length_requestText h).trans hroom)
  refine ⟨fun h => ?_, fun h => by rw [h]⟩
  cases hm : requestText m with
  | none =>
    cases hm' : requestText m' with
    | none => rfl
    | some e' =>
      rw [hm, hm', Option.bind_none, Option.bind_some, hput hm'] at h
      cases h
  | some e =>
    cases hm' : requestText m' with
    | none =>
      rw [hm, hm', Option.bind_none, Option.bind_some, hput hm] at h
      cases h
    | some e' =>
      rw [hm, hm', Option.bind_some, Option.bind_some, Sink.put_inj
        ((length_requestText hm).trans hroom) ((length_requestText hm').trans hroom)] at h
      rw [h]

section Served

variable {room room' : ℕ}

/-- **A lock RPC is a call of the server's procedure on the very request**, and fails, leaving the
result, exactly if its key is too long — whatever any stream offers. -/
theorem stubs_serve (hp : CName p.key) (offers offers' : Bool) (hroom : 272 ≤ room)
    (hroom' : 4 ≤ room') (proc : ℕ → LockMessage → Status) (result_1 : Status) :
    let clnt := fun n => respond room' (xdrLockParams offers') xdrStatus
      fun objp => statusNumber (proc n objp)
    let answer := fun n =>
      if CloudFS.xdrLockParams p then RpcAnswer.answered (proc n (lockArg p)) else .failed
    acquire1 offers room clnt (lockArg p) (statusNumber result_1)
        = (CloudFS.xdrLockParams p, statusNumber ((answer ACQUIRE).store result_1)) ∧
      release1 offers room clnt (lockArg p) (statusNumber result_1)
        = (CloudFS.xdrLockParams p, statusNumber ((answer RELEASE).store result_1)) := by
  intro clnt answer
  have hspells : ∀ e ∈ requestText (lockArg p), ((lockArg p).key.length ≤ MAXNAMELEN ∧
      ∃ pad, pad.length = padding (lockArg p).key.length ∧ e = requestBytes (lockArg p) pad) ∧
        e.length ≤ room := by
    intro e he
    obtain ⟨hle, htext⟩ := Option.ite_none_right_eq_some.1 he
    rw [sent_lockArg hp] at hle htext
    exact ⟨⟨hle, _, (lockArg p).length_zeros, (Option.some.inj htext).symm⟩,
      (length_requestText he).trans hroom⟩
  have hcall : ∀ n, clntCall room (clnt n) (xdrLockParams offers) xdrStatus (lockArg p)
      (statusNumber result_1)
        = (CloudFS.xdrLockParams p, statusNumber ((answer n).store result_1)) := by
    intro n
    have h := clntCall_respond (xdrLockParams_describes offers) (xdrLockParams_describes offers')
      xdrInt_exact xdrInt_exact hspells (fun objp => statusNumber (proc n objp))
      ((length_putLong _).trans_le hroom') (statusNumber result_1)
    rw [requestText_lockArg hp] at h
    refine h.trans ?_
    simp only [answer]
    cases CloudFS.xdrLockParams p <;> rfl
  exact ⟨hcall ACQUIRE, hcall RELEASE⟩

/-- A read lock on `a`, at a server that grants reads of `a` and gives nothing back. -/
theorem stubs_serve_reads :
    let p : LockParams := ⟨['a'], .READ, ⟨0, 1⟩⟩
    let proc : ℕ → LockMessage → Status := fun n m =>
      if n = ACQUIRE ∧ m.operation = typeNumber .READ ∧ m.key = nameBytes ['a'] then .OK
      else .UNALLOC
    let clnt := fun n => respond 4 (xdrLockParams false) xdrStatus
      fun m => statusNumber (proc n m)
    acquire1 true 272 clnt (lockArg p) (statusNumber .ERROR) = (true, statusNumber .OK) ∧
      release1 true 272 clnt (lockArg p) (statusNumber .ERROR) = (true, statusNumber .UNALLOC) := by
  intro p proc clnt
  exact stubs_serve (p := p) (by decide) true false le_rfl le_rfl proc .ERROR

end Served

/-- **Two requests are one message exactly if they agree**, or if neither can be sent. -/
theorem encode_lockArg_inj (hp : CName p.key) (hq : CName q.key) (offers offers' : Bool)
    {xdrs : Sink} (hroom : 272 ≤ xdrs.room) :
    (xdrLockParams offers).encode (lockArg p) xdrs = (xdrLockParams offers').encode (lockArg q) xdrs
      ↔ (CloudFS.xdrLockParams p = false ∧ CloudFS.xdrLockParams q = false) ∨ p = q := by
  have harg : lockArg p = lockArg q ↔ p = q := by
    refine ⟨fun h => ?_, congrArg lockArg⟩
    rw [lockArg, lockArg, LockMessage.mk.injEq, hp.nameBytes_inj hq, typeNumber_inj,
      List.Vector.eq_cons_iff, List.Vector.head_cons, List.Vector.tail_cons,
      List.Vector.eq_cons_iff, List.Vector.head_cons] at h
    obtain ⟨kp, op, mp, vp⟩ := p
    obtain ⟨kq, oq, mq, vq⟩ := q
    obtain ⟨rfl, rfl, rfl, rfl, -⟩ := h
    rfl
  rw [(xdrLockParams_describes offers).encode_eq, (xdrLockParams_describes offers').encode_eq,
    bind_put_inj hroom, requestText_lockArg hp, requestText_lockArg hq, ← harg]
  cases hpk : CloudFS.xdrLockParams p <;> cases hqk : CloudFS.xdrLockParams q
  case false.false => exact iff_of_true rfl (Or.inl ⟨rfl, rfl⟩)
  case false.true =>
    refine iff_of_false (fun h => by cases h) ?_
    rintro (⟨-, h⟩ | h)
    · cases h
    · rw [harg.1 h, hqk] at hpk
      cases hpk
  case true.false =>
    refine iff_of_false (fun h => by cases h) ?_
    rintro (⟨h, -⟩ | h)
    · cases h
    · rw [harg.1 h, hqk] at hpk
      cases hpk
  case true.true =>
    have hp' : (lockArg p).key.length ≤ MAXNAMELEN :=
      (length_nameBytes _).trans_le (of_decide_eq_true hpk)
    have hq' : (lockArg q).key.length ≤ MAXNAMELEN :=
      (length_nameBytes _).trans_le (of_decide_eq_true hqk)
    rw [if_pos rfl, if_pos rfl, Option.some.injEq]
    constructor
    · intro h
      exact Or.inr ((requestBytes_inj hp' hq' (LockMessage.length_zeros _)
        (LockMessage.length_zeros _)).1 (congrArg (· ++ []) h)).1
    · rintro (⟨h, -⟩ | h)
      · cases h
      · rw [h]

/-- The identity of a machine and a version, as two `int`s hold them. -/
def identity (machine version : ℤ) : Identity := ⟨Int32.ofInt machine, Int32.ofInt version⟩

/-- **Requests are told apart by their numbers modulo `2 ^ 32`**: two of them are one message
exactly if their keys and operations agree and their numbers do so modulo `2 ^ 32` — or if neither
can be sent. -/
theorem request_eq_iff {k k' : Name} (hk : CName k) (hk' : CName k') (o o' : LockType)
    (m m' v v' : ℤ) (offers offers' : Bool) {xdrs : Sink} (hroom : 272 ≤ xdrs.room) :
    let p : LockParams := ⟨k, o, identity m v⟩
    let q : LockParams := ⟨k', o', identity m' v'⟩
    (xdrLockParams offers).encode (lockArg p) xdrs = (xdrLockParams offers').encode (lockArg q) xdrs
      ↔ (CloudFS.xdrLockParams p = false ∧ CloudFS.xdrLockParams q = false) ∨
        (k = k' ∧ o = o' ∧ m % 2 ^ 32 = m' % 2 ^ 32 ∧ v % 2 ^ 32 = v' % 2 ^ 32) := by
  intro p q
  rw [encode_lockArg_inj hk hk' offers offers' hroom, LockParams.mk.injEq, identity, identity,
    Identity.mk.injEq, ofInt_eq_ofInt_iff, ofInt_eq_ofInt_iff]

/-- The version after `2 ^ 32` opens is that of the mount. -/
theorem request_eq_iff_wrapped :
    let p : LockParams := ⟨['a'], .READ, identity 0 (-1)⟩
    let q : LockParams := ⟨['a'], .READ, identity 0 4294967295⟩
    (xdrLockParams true).encode (lockArg p) ⟨[], 272⟩
        = (xdrLockParams false).encode (lockArg q) ⟨[], 272⟩ :=
  (request_eq_iff (by decide) (by decide) _ _ _ _ _ _ true false le_rfl).2
    (Or.inr ⟨rfl, rfl, rfl, rfl⟩)

/-! ## The wrappers over a network -/

/-- **The loop over any network is the loop on the answers it gave**: a status that is not in the
enumeration is taken as no `OK`. -/
theorem retransmit_stub (offers : ℕ → Bool) (room : ℕ) (net : ℕ → Bytes → Option Bytes)
    (argp : LockMessage) (left times : ℕ) (result_1 : Int32) :
    let stub := fun k => clntCall room (net k) (xdrLockParams (offers k)) xdrStatus argp
    retransmit (fun k => rpcAnswer (stub k 0)) left ⟨times, statusOf result_1⟩
      = ((retransmitStub stub left times result_1).1.map rpcAnswer,
        (retransmitStub stub left times result_1).2) := by
  intro stub
  induction left generalizing times result_1 with
  | zero => rfl
  | succ left ih =>
    obtain ⟨r, hr⟩ := clntCall_result room (net times) (xdrLockParams (offers times)) xdrStatus argp
    have hstub : ∀ x, stub times x = (r.isSome, r.getD x) := hr
    have hturn : Retry.turn ⟨times, statusOf result_1⟩ (rpcAnswer (stub times 0))
        = ⟨times + 1, statusOf (stub times result_1).2⟩ := by
      rw [hstub, hstub]
      cases r <;> rfl
    have hanswer : rpcAnswer (stub times 0) = rpcAnswer (stub times result_1) := by
      rw [hstub, hstub]
      cases r <;> rfl
    have hok : statusOf (stub times result_1).2 = .OK ↔ (stub times result_1).2 = 1 :=
      statusOf_eq_ok
    simp only [retransmit, retransmitStub, hturn, hok, ih]
    split
    case isTrue => rw [hanswer, List.map_singleton]
    case isFalse => rw [hanswer, List.map_cons]

/-- **The wrappers over any network are the wrappers on the answers it gave**, whatever it loses,
delays or garbles: the same RPCs, each with the same outcome, and the same `skip`. -/
theorem wrappers_stub (offers : ℕ → Bool) (room : ℕ) (net : ℕ → ℕ → Bytes → Option Bytes)
    (path : Name) (flags : OpenFlags) (l : LockClient) :
    let params := l.params path (lockType flags)
    let acquire := fun k => acquire1 (offers k) room (net k) (lockArg params)
    let release := fun k => release1 (offers k) room (net k) (lockArg (l.params path .RELEASE))
    let a := retransmitStub acquire MAXBLOCK 0 0
    let r := retransmitStub release MAXBLOCK 0 0
    acquireLockWrapper (fun k => rpcAnswer (acquire k 0)) path flags l
        = { l with
            skip := if a.2 then l.skip else true
            calls := l.calls ++ a.1.map fun x => ⟨params, rpcAnswer x⟩ } ∧
      releaseLockWrapper (fun k => rpcAnswer (release k 0)) path l
        = if l.skip then { l with skip := false }
          else
            { l with
              calls := l.calls ++ r.1.map fun x => ⟨l.params path .RELEASE, rpcAnswer x⟩ } := by
  intro params acquire release a r
  have hacquire : retransmit (fun k => rpcAnswer (acquire k 0)) MAXBLOCK Retry.init
      = (a.1.map rpcAnswer, a.2) :=
    retransmit_stub offers room (fun k => net k ACQUIRE) (lockArg params) MAXBLOCK 0 0
  have hrelease : retransmit (fun k => rpcAnswer (release k 0)) MAXBLOCK Retry.init
      = (r.1.map rpcAnswer, r.2) :=
    retransmit_stub offers room (fun k => net k RELEASE) (lockArg (l.params path .RELEASE))
      MAXBLOCK 0 0
  constructor
  · simp only [acquireLockWrapper, hacquire, List.map_map]
    rfl
  · simp only [releaseLockWrapper, hrelease, List.map_map]
    rfl

end CloudFS.Wire
