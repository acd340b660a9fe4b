import Mathlib.Data.List.Infix
import Mathlib.Data.List.TakeWhile

/-!
# Machinery/Scan — scanning C strings

A pointer into a buffer reaches the characters from there to the end of the buffer: a text, the null
character that ends it, and whatever stands after that.  A `Scanner` moves such a pointer, and fails
with `overread` where it looks past the buffer.

Three kinds of facts are proved of scanners, each from those of their parts.  `run_bind` runs one on
a text of a given shape.  `Ends` says how one may end on any text, by the rule `Ends.bind`.  `Local`
says that one does the same whatever stands after the null character that ends its text, by
`Local.bind`; `Worded` are the texts on which the scanners here do.
-/

namespace Scan

/-- Why a scan has no result: it reads past the buffer, writes past an array, does not come to an
end, or the text is not of the right form. -/
inductive Failure
  | overread
  | overflow
  | endless
  | rejected
  deriving DecidableEq

/-- The characters from a pointer on to the end of its buffer. -/
abbrev Text := List Char

/-- What moves a pointer. -/
abbrev Scanner (α : Type) := StateT Text (Except Failure) α

/-- The character that ends a string. -/
def nul : Char := '\x00'

/-- `isspace(3)`, in the C locale. -/
def isspace (c : Char) : Bool :=
  c = ' ' || c = '\t' || c = '\n' || c = '\x0b' || c = '\x0c' || c = '\r'

variable {α β : Type} {x : Scanner α} {f : α → Scanner β} {s s' : Text} {a : α}
  {lit w ws : List Char} {c d : Char} {more : Bool} {maxlen : ℕ}

/-! ## Scanners -/

/-- No result. -/
def fail (e : Failure) : Scanner α := fun _ => .error e

/-- The character pointed to. -/
def first : Scanner Char := fun s =>
  match s with
  | [] => .error .overread
  | c :: _ => .ok (c, s)

/-- Whether the next characters are those of `lit`; a comparison ends at the first difference. -/
def matchesAt : (lit : List Char) → Text → Except Failure Bool
  | [], _ => .ok true
  | _ :: _, [] => .error .overread
  | d :: lit, c :: s => if c = d then matchesAt lit s else .ok false

/-- `strncmp(3)` with all of `lit`. -/
def startsWith (lit : List Char) : Scanner Bool := fun s => (matchesAt lit s).map fun b => (b, s)

/-- The pointer moved by `n` characters. -/
def advance (n : ℕ) : Scanner Unit := fun s => .ok ((), s.drop n)

/-- The text after its white space; if there must be `more`, not its end. -/
def afterSpace (more : Bool) : Text → Except Failure (Unit × Text)
  | [] => .error .overread
  | c :: s =>
    if isspace c then afterSpace more s
    else if more && c = nul then .error .rejected
    else .ok ((), c :: s)

/-- White space skipped. -/
def skipSpace (more : Bool) : Scanner Unit := afterSpace more

/-- The text from its next line break, or its end, on. -/
def afterLine : Text → Except Failure (Unit × Text)
  | [] => .error .overread
  | c :: s => if c = nul || c = '\n' || c = '\r' then .ok ((), c :: s) else afterLine s

/-- The rest of a line skipped. -/
def skipLine : Scanner Unit := afterLine

/-- The characters up to the next white space, `maxlen` of them at most, and the text after them. -/
def wordAt : (maxlen : ℕ) → Text → Except Failure (List Char × Text)
  | 0, s => .ok ([], s)
  | _ + 1, [] => .error .overread
  | maxlen + 1, c :: s =>
    if isspace c then .ok ([], c :: s) else (wordAt maxlen s).map fun r => (c :: r.1, r.2)

/-- A word copied to an array of `size` characters, with a null character after it. -/
def copyWord (size maxlen : ℕ) : Scanner (List Char) := do
  let w ← (wordAt maxlen : Scanner (List Char))
  if w.length < size then pure w else fail .overflow

/-! ## On a text of a given shape -/

theorem run_bind (h : x s = .ok (a, s')) (f : α → Scanner β) : (x >>= f) s = f a s' := by
  change (x s >>= fun p => f p.1 p.2) = f a s'
  rw [h]
  rfl

theorem run_bind_error {e : Failure} (h : x s = .error e) (f : α → Scanner β) :
    (x >>= f) s = .error e := by
  change (x s >>= fun p => f p.1 p.2) = .error e
  rw [h]
  rfl

theorem run_pure (a : α) (s : Text) : (pure a : Scanner α) s = .ok (a, s) := rfl

theorem first_cons (c : Char) (s : Text) : first (c :: s) = .ok (c, c :: s) := rfl

theorem matchesAt_append (lit s : List Char) : matchesAt lit (lit ++ s) = .ok true := by
  induction lit with
  | nil => cases s <;> rfl
  | cons d lit ih => rw [List.cons_append, matchesAt, if_pos rfl, ih]

theorem startsWith_append (lit s : List Char) :
    startsWith lit (lit ++ s) = .ok (true, lit ++ s) := by
  rw [startsWith, matchesAt_append]
  rfl

theorem startsWith_of_mismatch (h : matchesAt lit s = .ok false) :
    startsWith lit s = .ok (false, s) := by
  rw [startsWith, h]
  rfl

theorem advance_append (lit s : List Char) : advance lit.length (lit ++ s) = .ok ((), s) := by
  rw [advance, List.drop_left]

theorem isspace_blank : ∀ c ∈ [' '], isspace c := List.forall_mem_singleton.2 rfl

theorem isspace_newline : ∀ c ∈ ['\n'], isspace c := List.forall_mem_singleton.2 rfl

theorem skipSpace_append (h : ∀ c ∈ ws, isspace c) (more : Bool) (s : List Char) :
    skipSpace more (ws ++ s) = skipSpace more s := by
  induction ws with
  | nil => rfl
  | cons c ws ih =>
    obtain ⟨hc, hws⟩ := List.forall_mem_cons.1 h
    exact (if_pos hc).trans (ih hws)

theorem skipSpace_of_not (hc : isspace c = false) (hn : c ≠ nul) (more : Bool) (s : List Char) :
    skipSpace more (c :: s) = .ok ((), c :: s) := by
  simp [skipSpace, afterSpace, hc, hn]

theorem skipLine_cons (hc : c ≠ nul ∧ c ≠ '\n' ∧ c ≠ '\r') (s : Text) :
    skipLine (c :: s) = skipLine s := by
  simp [skipLine, afterLine, hc]

theorem skipLine_append (h : ∀ c ∈ w, c ≠ nul ∧ c ≠ '\n' ∧ c ≠ '\r') (s : List Char) :
    skipLine (w ++ '\n' :: s) = .ok ((), '\n' :: s) := by
  induction w with
  | nil => rfl
  | cons c w ih =>
    obtain ⟨hc, hw⟩ := List.forall_mem_cons.1 h
    exact (skipLine_cons hc _).trans (ih hw)

/-- **A word followed by white space is copied whole** if it is short enough. -/
theorem copyWord_append {size : ℕ} (hw : ∀ c ∈ w, isspace c = false) (hlen : w.length ≤ maxlen)
    (hsize : w.length < size) (hc : isspace c) (s : List Char) :
    copyWord size maxlen (w ++ c :: s) = .ok (w, c :: s) := by
  have hword : wordAt maxlen (w ++ c :: s) = .ok (w, c :: s) := by
    clear hsize
    induction w generalizing maxlen with
    | nil => cases maxlen <;> simp [wordAt, hc]
    | cons d w ih =>
      obtain ⟨hd, hw⟩ := List.forall_mem_cons.1 hw
      cases maxlen with
      | zero => exact absurd hlen (by simp)
      | succ maxlen => simp [wordAt, hd, ih hw (Nat.le_of_succ_le_succ hlen), Except.map]
  rw [copyWord, run_bind hword, if_pos hsize]
  rfl

/-- A word that fills its array leaves no room for the null character. -/
theorem copyWord_overflow (hw : ∀ c ∈ w, isspace c = false) (hlen : maxlen ≤ w.length)
    (s : List Char) : copyWord maxlen maxlen (w ++ s) = .error .overflow := by
  have hword : ∀ w : List Char, (∀ c ∈ w, isspace c = false) → ∀ maxlen ≤ w.length,
      wordAt maxlen (w ++ s) = .ok (w.take maxlen, w.drop maxlen ++ s) := by
    intro w hw
    induction w with
    | nil =>
      intro maxlen hlen
      rw [Nat.le_zero.1 hlen]
      rfl
    | cons c w ih =>
      obtain ⟨hc, hw⟩ := List.forall_mem_cons.1 hw
      rintro (_ | maxlen) hlen
      · rfl
      · simp [wordAt, hc, ih hw maxlen (Nat.le_of_succ_le_succ hlen), Except.map]
  have hfull : ¬(w.take maxlen).length < maxlen := by
    rw [List.length_take]
    omega
  rw [copyWord, run_bind (hword w hw maxlen hlen), if_neg hfull]
  rfl

/-! ## On any text -/

/-- **How a scan of `s` ends**: with an error of `E`, or with a result and a text of `Q`. -/
def Ends (x : Scanner α) (s : Text) (E : Failure → Prop) (Q : α → Text → Prop) : Prop :=
  match x s with
  | .error e => E e
  | .ok (a, s') => Q a s'

variable {E : Failure → Prop} {Q Q' : α → Text → Prop} {R : β → Text → Prop}

theorem Ends.mono (h : Ends x s E Q) (hQ : ∀ a s', Q a s' → Q' a s') : Ends x s E Q' := by
  unfold Ends at h ⊢
  cases hx : x s with
  | error e => rwa [hx] at h
  | ok r =>
    rw [hx] at h
    exact hQ r.1 r.2 h

/-- **One scan after another.** -/
theorem Ends.bind (h : Ends x s E Q) (hf : ∀ a s', Q a s' → Ends (f a) s' E R) :
    Ends (x >>= f) s E R := by
  unfold Ends at h
  cases hx : x s with
  | error e =>
    rw [hx] at h
    unfold Ends
    rwa [run_bind_error hx]
  | ok r =>
    rw [hx] at h
    unfold Ends
    rw [run_bind hx]
    exact hf r.1 r.2 h

theorem Ends.pure (h : Q a s) : Ends (pure a) s E Q := h

theorem Ends.fail {e : Failure} (h : E e) : Ends (fail e : Scanner α) s E Q := h

theorem first_ends (hE : E .overread) (s : Text) :
    Ends first s E fun c s' => s' = s ∧ ∃ t, s = c :: t := by
  cases s with
  | nil => exact hE
  | cons c s => exact ⟨rfl, s, rfl⟩

/-- A literal that is found is what the text begins with. -/
theorem startsWith_ends (hE : E .overread) (lit s : Text) :
    Ends (startsWith lit) s E fun b s' => s' = s ∧ (b → ∃ t, s = lit ++ t) := by
  have hmatch : ∀ s, (∃ b, matchesAt lit s = .ok b ∧ (b → ∃ t, s = lit ++ t)) ∨
      matchesAt lit s = .error .overread := by
    induction lit with
    | nil =>
      intro s
      exact .inl ⟨true, by cases s <;> rfl, fun _ => ⟨s, rfl⟩⟩
    | cons d lit ih =>
      rintro (_ | ⟨c, s⟩)
      · exact .inr rfl
      · by_cases hcd : c = d
        · subst hcd
          rw [matchesAt, if_pos rfl]
          refine (ih s).imp_left fun ⟨b, hb, ht⟩ => ⟨b, hb, fun hb => ?_⟩
          obtain ⟨t, rfl⟩ := ht hb
          exact ⟨t, rfl⟩
        · exact .inl ⟨false, by rw [matchesAt, if_neg hcd], Bool.noConfusion⟩
  unfold Ends
  rcases hmatch s with ⟨b, hb, ht⟩ | hb
  · rw [startsWith, hb]
    exact ⟨rfl, ht⟩
  · rw [startsWith, hb]
    exact hE

/-- White space is skipped up to another character. -/
theorem skipSpace_ends (hE : E .overread) (hE' : E .rejected) (more : Bool) (s : Text) :
    Ends (skipSpace more) s E fun _ s' =>
      s' <:+ s ∧ ∃ c t, s' = c :: t ∧ isspace c = false ∧ (more → c ≠ nul) := by
  induction s with
  | nil => exact hE
  | cons c s ih =>
    unfold Ends skipSpace afterSpace
    by_cases hc : isspace c
    · rw [if_pos hc]
      exact ih.mono fun _ s' h => ⟨h.1.trans (List.suffix_cons c s), h.2⟩
    · rw [if_neg hc]
      by_cases hn : more && c = nul
      · rw [if_pos hn]
        exact hE'
      · rw [if_neg hn]
        refine ⟨List.suffix_rfl, c, s, rfl, by simpa using hc, fun hmore h => hn ?_⟩
        simp [hmore, h]

/-- The rest of a line is skipped past its first character, unless that ends it. -/
theorem skipLine_ends (hE : E .overread) (hc : c ≠ nul ∧ c ≠ '\n' ∧ c ≠ '\r') (s : Text) :
    Ends skipLine (c :: s) E fun _ s' => s' <:+ s := by
  have hafter : ∀ s, Ends skipLine s E fun _ s' => s' <:+ s := by
    intro s
    induction s with
    | nil => exact hE
    | cons c s ih =>
      by_cases hend : c ≠ nul ∧ c ≠ '\n' ∧ c ≠ '\r'
      · have hs := ih.mono fun _ s' h => h.trans (List.suffix_cons c s)
        unfold Ends at hs ⊢
        rwa [skipLine_cons hend]
      · have hstop : skipLine (c :: s) = .ok ((), c :: s) := if_pos (by simpa using by tauto)
        unfold Ends
        rw [hstop]
  have hs := hafter s
  unfold Ends at hs ⊢
  rwa [skipLine_cons hc]

/-- **A word that is copied fits its array** and has no white space in it; it is empty only where
none of it may be copied. -/
theorem copyWord_ends (hE : E .overread) (hE' : E .overflow) (hc : isspace c = false)
    (size maxlen : ℕ) (s : Text) :
    Ends (copyWord size maxlen) (c :: s) E fun w s' => s' <:+ c :: s ∧
      w.length < size ∧ (∀ d ∈ w, isspace d = false) ∧ (0 < maxlen → w ≠ []) := by
  have hword : ∀ maxlen s, Ends (wordAt maxlen : Scanner (List Char)) s E fun w s' => s' <:+ s ∧
      (∀ d ∈ w, isspace d = false) ∧
        (0 < maxlen → (∃ c t, s = c :: t ∧ isspace c = false) → w ≠ []) := by
    intro maxlen
    induction maxlen with
    | zero => exact fun s => ⟨List.suffix_rfl, List.forall_mem_nil _, fun h => absurd h (by simp)⟩
    | succ maxlen ih =>
      rintro (_ | ⟨c, s⟩)
      · exact hE
      · have hs := ih s
        unfold Ends wordAt
        unfold Ends at hs
        by_cases hc : isspace c
        · rw [if_pos hc]
          refine ⟨List.suffix_rfl, List.forall_mem_nil _, ?_⟩
          rintro - ⟨_, _, ⟨⟩, hc'⟩
          exact absurd hc (by simp [hc'])
        · rw [if_neg hc]
          cases hr : (wordAt maxlen : Scanner (List Char)) s with
          | error e => rwa [hr] at hs
          | ok r =>
            rw [hr] at hs
            exact ⟨hs.1.trans (List.suffix_cons c s),
              List.forall_mem_cons.2 ⟨by simpa using hc, hs.2.1⟩, fun _ _ => List.cons_ne_nil _ _⟩
  refine (hword maxlen (c :: s)).bind fun w s' ⟨hsuf, hplain, hne⟩ => ?_
  split
  · next hlen => exact .pure ⟨hsuf, hlen, hplain, fun h => hne h ⟨c, s, rfl, hc⟩⟩
  · exact .fail hE'

/-! ## Within a text -/

/-- **A scan that never gets past the null character** after a text of `P`: it ends the same way
whatever stands there, and not for want of room. -/
def Local (P : Text → Prop) (x : Scanner α) : Prop :=
  ∀ t, P t → (∃ a t', P t' ∧ ∀ rest, x (t ++ nul :: rest) = .ok (a, t' ++ nul :: rest)) ∨
    ∃ e, e ≠ .overread ∧ e ≠ .overflow ∧ ∀ rest, x (t ++ nul :: rest) = .error e

variable {P : Text → Prop} {t : Text} {n : ℕ}

/-- **One scan after another.** -/
theorem Local.bind (h : Local P x) (hf : ∀ a, Local P (f a)) : Local P (x >>= f) := by
  intro t ht
  rcases h t ht with ⟨a, t', ht', hx⟩ | ⟨e, he, he', hx⟩
  · refine (hf a t' ht').imp (fun ⟨b, u, hu, hb⟩ => ⟨b, u, hu, fun rest => ?_⟩)
      fun ⟨e, he, he', hb⟩ => ⟨e, he, he', fun rest => ?_⟩
    · rw [run_bind (hx rest), hb]
    · rw [run_bind (hx rest), hb]
  · exact .inr ⟨e, he, he', fun rest => run_bind_error (hx rest) f⟩

theorem Local.pure (a : α) : Local P (pure a : Scanner α) :=
  fun t ht => .inl ⟨a, t, ht, fun _ => rfl⟩

theorem Local.fail {e : Failure} (he : e ≠ .overread) (he' : e ≠ .overflow) :
    Local P (fail e : Scanner α) := fun _ _ => .inr ⟨e, he, he', fun _ => rfl⟩

theorem first_local : Local P first := by
  rintro (_ | ⟨c, t⟩) ht
  · exact .inl ⟨nul, [], ht, fun _ => rfl⟩
  · exact .inl ⟨c, c :: t, ht, fun _ => rfl⟩

/-- A literal without a null character is looked for in the text only. -/
theorem matchesAt_nul (hlit : nul ∉ lit) (t : Text) :
    ∃ b : Bool, (b → ∃ t', t = lit ++ t') ∧ ∀ rest, matchesAt lit (t ++ nul :: rest) = .ok b := by
  induction lit generalizing t with
  | nil => exact ⟨true, fun _ => ⟨t, rfl⟩, fun rest => matchesAt_append [] _⟩
  | cons d lit ih =>
    obtain ⟨hd, hrest⟩ := not_or.1 (mt List.mem_cons.2 hlit)
    cases t with
    | nil => exact ⟨false, Bool.noConfusion, fun _ => if_neg hd⟩
    | cons c t =>
      by_cases hcd : c = d
      · subst hcd
        obtain ⟨b, hb, hmatch⟩ := ih hrest t
        refine ⟨b, fun h => ?_, fun rest => (if_pos rfl).trans (hmatch rest)⟩
        obtain ⟨t', rfl⟩ := hb h
        exact ⟨t', rfl⟩
      · exact ⟨false, Bool.noConfusion, fun _ => if_neg hcd⟩

theorem startsWith_local (hlit : nul ∉ lit) : Local P (startsWith lit) := by
  intro t ht
  obtain ⟨b, -, hb⟩ := matchesAt_nul hlit t
  refine .inl ⟨b, t, ht, fun rest => ?_⟩
  rw [startsWith, hb]
  rfl

/-- White space is skipped within a text: up to another character of it, or to its end. -/
theorem skipSpace_nul (more : Bool) (t : Text) :
    (∃ t', t' <:+ t ∧ (more → ∃ c u, t' = c :: u ∧ isspace c = false) ∧
      ∀ rest, skipSpace more (t ++ nul :: rest) = .ok ((), t' ++ nul :: rest)) ∨
    ∀ rest, skipSpace more (t ++ nul :: rest) = .error .rejected := by
  induction t with
  | nil =>
    cases more with
    | false => exact .inl ⟨[], List.suffix_rfl, Bool.noConfusion, fun _ => rfl⟩
    | true => exact .inr fun _ => rfl
  | cons c t ih =>
    by_cases hc : isspace c
    · have hskip : ∀ rest, skipSpace more (c :: t ++ nul :: rest)
          = skipSpace more (t ++ nul :: rest) := fun _ => if_pos hc
      simp only [hskip]
      exact ih.imp_left fun ⟨t', ht', h⟩ => ⟨t', ht'.trans (List.suffix_cons c t), h⟩
    · by_cases hn : more && c = nul
      · exact .inr fun _ => (if_neg hc).trans (if_pos hn)
      · exact .inl ⟨c :: t, List.suffix_rfl, fun _ => ⟨c, t, rfl, by simpa using hc⟩,
          fun _ => (if_neg hc).trans (if_neg hn)⟩

theorem skipSpace_local (hP : ∀ t t', t' <:+ t → P t → P t') (more : Bool) :
    Local P (skipSpace more) := by
  intro t ht
  rcases skipSpace_nul more t with ⟨t', ht', -, h⟩ | h
  · exact .inl ⟨(), t', hP t t' ht' ht, h⟩
  · exact .inr ⟨.rejected, nofun, nofun, h⟩

theorem skipLine_local (hP : ∀ t t', t' <:+ t → P t → P t') : Local P skipLine := by
  intro t
  induction t with
  | nil => exact fun ht => .inl ⟨(), [], ht, fun _ => rfl⟩
  | cons c t ih =>
    intro ht
    by_cases hend : c ≠ nul ∧ c ≠ '\n' ∧ c ≠ '\r'
    · have hskip : ∀ rest, skipLine (c :: t ++ nul :: rest) = skipLine (t ++ nul :: rest) :=
        fun _ => skipLine_cons hend _
      simp only [hskip]
      exact ih (hP _ _ (List.suffix_cons c t) ht)
    · exact .inl ⟨(), c :: t, ht, fun _ => if_pos (by simpa using by tauto)⟩

/-- A text whose words are shorter than `n` and each followed by white space. -/
structure Worded (n : ℕ) (t : Text) : Prop where
  short : ∀ w, w <:+: t → (∀ c ∈ w, isspace c = false) → w.length < n
  closed : ∀ u c, t = u ++ [c] → isspace c

theorem Worded.suffix {t' : Text} (ht : t' <:+ t) (h : Worded n t) : Worded n t' := by
  refine ⟨fun w hw => h.short w (hw.trans ht.isInfix), fun u c hu => ?_⟩
  obtain ⟨v, rfl⟩ := ht
  exact h.closed (v ++ u) c (by rw [hu, List.append_assoc])

/-- The word a text begins with. -/
theorem Worded.word (h : Worded n t) (hne : t ≠ []) :
    ∃ w d u, t = w ++ d :: u ∧ w.length < n ∧ (∀ c ∈ w, isspace c = false) ∧ isspace d := by
  have hsplit := List.takeWhile_append_dropWhile (p := fun c => !isspace c) (l := t)
  have hplain : ∀ c ∈ t.takeWhile fun c => !isspace c, isspace c = false := fun c hc => by
    simpa using List.mem_takeWhile_imp hc
  have hshort := h.short _ (List.takeWhile_prefix _).isInfix hplain
  cases hrest : t.dropWhile fun c => !isspace c with
  | nil =>
    rw [hrest, List.append_nil] at hsplit
    obtain ⟨u, c, rfl⟩ := List.eq_nil_or_concat' t |>.resolve_left hne
    rw [hsplit] at hplain
    have hc := h.closed u c rfl
    exact absurd hc (by simp [hplain c (List.mem_append_right _ List.mem_cons_self)])
  | cons d u =>
    have hd := List.head?_dropWhile_not (fun c => !isspace c) t
    rw [hrest] at hd
    rw [hrest] at hsplit
    exact ⟨_, d, u, hsplit.symm, hshort, hplain, by simpa using hd⟩

/-- **Words are copied within a text**, to an array with room for them. -/
theorem copyWord_local {size : ℕ} (hsize : n ≤ size) (hlen : n ≤ maxlen + 1) :
    Local (Worded n) (skipSpace true >>= fun _ => copyWord size maxlen) := by
  intro t ht
  rcases skipSpace_nul true t with ⟨t', ht', hmore, hskip⟩ | h
  · obtain ⟨c, v, rfl, -⟩ := hmore rfl
    obtain ⟨w, d, u, htext, hshort, hplain, hd⟩ := (ht.suffix ht').word (List.cons_ne_nil c v)
    have hu : Worded n (d :: u) := (ht.suffix ht').suffix ⟨w, htext.symm⟩
    refine .inl ⟨w, d :: u, hu, fun rest => ?_⟩
    rw [run_bind (hskip rest), htext, List.append_assoc]
    exact copyWord_append hplain (by omega) (by omega) hd _
  · exact .inr ⟨.rejected, nofun, nofun, fun rest => run_bind_error (h rest) _⟩

end Scan
