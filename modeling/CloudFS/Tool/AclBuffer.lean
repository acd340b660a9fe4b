import CloudFS.Tool.Acl

/-!
# Tool/AclBuffer — what any access control list file does to `convert_simple_acl`

Not only files that `s3 getacl` wrote are read by `s3 setacl`.  For any file the loop ends, and a
list it accepts fits its arrays (`setAcl_fits`).  If the words of the file are shorter than the
arrays and each is followed by white space, then nothing outside the text is read or written:
`setAcl_local`.
-/

namespace CloudFS.S3

open Scan

variable {s : Text} {lit : Text} {size maxlen : ℕ} {acl : Acl}

/-! ## It ends, with a list that fits -/

/-- A text that was copied to an array of `size` characters: it is not empty, and leaves room for
the null character. -/
structure IsField (size : ℕ) (w : Text) : Prop where
  ne_nil : w ≠ []
  plain : ∀ c ∈ w, isspace c = false
  length_lt : w.length < size

/-- A grantee whose texts are in their arrays. -/
def Grantee.Fits : Grantee → Prop
  | .amazonCustomerByEmail emailAddress => IsField S3_MAX_GRANTEE_EMAIL_ADDRESS_SIZE emailAddress
  | .canonicalUser id displayName =>
    IsField S3_MAX_GRANTEE_USER_ID_SIZE id ∧ IsField S3_MAX_GRANTEE_DISPLAY_NAME_SIZE displayName
  | _ => True

/-- **A list in its arrays**; there may be no owner. -/
structure Acl.Fits (acl : Acl) : Prop where
  ownerId : acl.ownerId ≠ [] → IsField S3_MAX_GRANTEE_USER_ID_SIZE acl.ownerId
  ownerDisplayName :
    acl.ownerDisplayName ≠ [] → IsField S3_MAX_GRANTEE_DISPLAY_NAME_SIZE acl.ownerDisplayName
  count : acl.aclGrants.length ≤ S3_MAX_ACL_GRANT_COUNT
  grants : ∀ grant ∈ acl.aclGrants, grant.grantee.Fits

/-- A scan of `s` that does not go on forever. -/
abbrev Halts {α : Type} (x : Scanner α) (s : Text) (Q : α → Text → Prop) : Prop :=
  Ends x s (· ≠ .endless) Q

theorem accept_ends (lit s : Text) :
    Halts (accept lit) s fun b s' =>
      s'.length ≤ s.length ∧ (b → lit ≠ [] → s'.length < s.length) := by
  refine (startsWith_ends nofun lit s).bind ?_
  rintro b _ ⟨rfl, hb⟩
  cases b with
  | false => exact ⟨le_rfl, Bool.noConfusion⟩
  | true =>
    obtain ⟨t, rfl⟩ := hb rfl
    rw [if_pos rfl]
    unfold Ends
    rw [run_bind (advance_append lit t), run_pure, List.length_append]
    refine ⟨Nat.le_add_left _ _, fun _ hne => ?_⟩
    have := List.length_pos_of_ne_nil hne
    omega

theorem copyStringMaxlen_ends (hmax : 0 < maxlen) (s : Text) :
    Halts (copyStringMaxlen size maxlen) s fun w s' => s'.length ≤ s.length ∧ IsField size w := by
  refine (skipSpace_ends nofun nofun true s).bind ?_
  rintro - _ ⟨hskip, c, t, rfl, hc, -⟩
  refine (copyWord_ends nofun nofun hc size maxlen t).mono ?_
  rintro w s' ⟨hsuf, hlen, hplain, hne⟩
  exact ⟨(hsuf.trans hskip).length_le, hne hmax, hplain, hlen⟩

theorem skip_ends (more : Bool) (s : Text) :
    Halts (skipSpace more) s fun _ s' => s'.length ≤ s.length :=
  (skipSpace_ends nofun nofun more s).mono fun _ _ h => h.1.length_le

/-- A branch on what comes next: the text gets shorter where it is taken. -/
theorem accept_branch {α : Type} {x y : Scanner α} {Q : α → Text → Prop} (hlit : lit ≠ [])
    (hx : ∀ s', s'.length < s.length → Halts x s' Q)
    (hy : ∀ s', s'.length ≤ s.length → Halts y s' Q) :
    Halts (accept lit >>= fun b => if b then x else y) s Q := by
  refine (accept_ends lit s).bind fun b s' ⟨hle, hlt⟩ => ?_
  cases b with
  | false => exact hy s' hle
  | true => exact hx s' (hlt rfl hlit)

/-- **The text gets shorter with every grantee**, and what is read of it fits. -/
theorem convertGrantee_ends (s : Text) :
    Halts convertGrantee s fun grantee s' => s'.length < s.length ∧ grantee.Fits := by
  refine accept_branch (by decide) (fun s₁ h₁ => ?_) fun s₁ h₁ => ?_
  · refine (copyStringMaxlen_ends (by decide) s₁).bind fun emailAddress s₂ ⟨h₂, hfits⟩ => ?_
    exact .pure ⟨by omega, hfits⟩
  refine accept_branch (by decide) (fun s₂ h₂ => ?_) fun s₂ h₂ => ?_
  · refine (copyStringMaxlen_ends (by decide) s₂).bind fun id s₃ ⟨h₃, hid⟩ => ?_
    refine (skip_ends true s₃).bind fun _ s₄ h₄ => ?_
    refine (copyStringMaxlen_ends (by decide) s₄).bind fun displayName s₅ ⟨h₅, hname⟩ => ?_
    exact .pure ⟨by omega, hid, hname⟩
  refine accept_branch (by decide) (fun s₃ h₃ => ?_) fun _ _ => .fail nofun
  refine (skip_ends true s₃).bind fun _ s₄ h₄ => ?_
  refine accept_branch (by decide) (fun _ _ => .pure ⟨by omega, trivial⟩) fun s₅ h₅ => ?_
  refine accept_branch (by decide) (fun _ _ => .pure ⟨by omega, trivial⟩) fun s₆ h₆ => ?_
  exact accept_branch (by decide) (fun _ _ => .pure ⟨by omega, trivial⟩) fun _ _ => .fail nofun

theorem convertPermission_ends (s : Text) :
    Halts convertPermission s fun _ s' => s'.length ≤ s.length := by
  refine accept_branch (by decide) (fun _ h => .pure h.le) fun s₁ h₁ => ?_
  refine accept_branch (by decide) (fun _ h => .pure (h.le.trans h₁)) fun s₂ h₂ => ?_
  refine accept_branch (by decide) (fun _ h => .pure (by omega)) fun s₃ h₃ => ?_
  refine accept_branch (by decide) (fun _ h => .pure (by omega)) fun s₄ h₄ => ?_
  exact accept_branch (by decide) (fun _ h => .pure (by omega)) fun _ h => .pure (by omega)

theorem convertGrant_ends (s : Text) :
    Halts convertGrant s fun grant s' => s'.length < s.length ∧ grant.grantee.Fits := by
  refine (convertGrantee_ends s).bind fun grantee s₁ ⟨h₁, hfits⟩ => ?_
  refine (skip_ends true s₁).bind fun _ s₂ h₂ => ?_
  refine (convertPermission_ends s₂).bind fun permission s₃ h₃ => ?_
  exact .pure ⟨by omega, hfits⟩

/-- **A turn makes the text shorter, and keeps the list in its arrays.** -/
theorem convertTurn_ends (h : acl.Fits) (s : Text) :
    Halts (convertTurn acl) s fun r s' => ∀ acl' ∈ r, s'.length < s.length ∧ acl'.Fits := by
  refine (skipSpace_ends nofun nofun false s).bind ?_
  rintro - s₁ ⟨h₁, c, t, rfl, hc, -⟩
  refine (first_ends nofun (c :: t)).bind ?_
  rintro _ _ ⟨rfl, _, ⟨⟩⟩
  by_cases hn : c = nul
  · rw [if_pos hn]
    exact .pure nofun
  rw [if_neg hn]
  refine (startsWith_ends nofun _ (c :: t)).bind ?_
  rintro b _ ⟨rfl, -⟩
  by_cases hskip : (b || decide (c = '-'))
  · rw [if_pos hskip]
    have hline : c ≠ nul ∧ c ≠ '\n' ∧ c ≠ '\r' := by
      refine ⟨hn, ?_, ?_⟩ <;> rintro rfl <;> exact absurd hc (by decide)
    refine (skipLine_ends nofun hline t).bind fun _ s₂ h₂ => .pure ?_
    rintro _ ⟨⟩
    exact ⟨(Nat.lt_succ_of_le h₂.length_le).trans_le h₁.length_le, h⟩
  rw [if_neg hskip]
  have hlen := h₁.length_le
  refine accept_branch (by decide) (fun s₂ h₂ => ?_) fun s₂ h₂ => ?_
  · refine (copyStringMaxlen_ends (by decide) s₂).bind fun ownerId s₃ ⟨h₃, hid⟩ => ?_
    refine (skip_ends true s₃).bind fun _ s₄ h₄ => ?_
    refine (copyStringMaxlen_ends (by decide) s₄).bind fun ownerDisplayName s₅ ⟨h₅, hname⟩ => ?_
    refine .pure ?_
    rintro _ ⟨⟩
    exact ⟨by omega, fun _ => hid, fun _ => hname, h.count, h.grants⟩
  by_cases hcount : acl.aclGrants.length = S3_MAX_ACL_GRANT_COUNT
  · rw [if_pos hcount]
    exact .fail nofun
  rw [if_neg hcount]
  refine (convertGrant_ends s₂).bind fun grant s₃ ⟨h₃, hfits⟩ => .pure ?_
  rintro _ ⟨⟩
  refine ⟨by omega, h.ownerId, h.ownerDisplayName, ?_, fun grant' hgrant => ?_⟩
  · have hle := h.count
    rw [List.length_append, List.length_singleton]
    omega
  · rcases List.mem_append.1 hgrant with hgrant | hgrant
    · exact h.grants grant' hgrant
    · rw [List.mem_singleton.1 hgrant]
      exact hfits

/-- **The loop ends** within as many turns as there are characters. -/
theorem convertLoop_ends {turns : ℕ} (h : acl.Fits) (hturns : s.length < turns) :
    Halts (convertLoop turns acl) s fun acl' _ => acl'.Fits := by
  induction turns generalizing acl s with
  | zero => exact absurd hturns (Nat.not_lt_zero _)
  | succ turns ih =>
    refine (convertTurn_ends h s).bind fun r s' hr => ?_
    cases r with
    | none => exact .pure h
    | some acl' =>
      obtain ⟨hlt, hfits⟩ := hr acl' rfl
      exact ih hfits (by omega)

/-- Reading a text ends, and a list that is accepted fits. -/
theorem convertSimpleAcl_ends {turns : ℕ} (hturns : s.length < turns) :
    convertSimpleAcl turns s ≠ .error .endless ∧
      ∀ acl, convertSimpleAcl turns s = .ok acl → acl.Fits := by
  have hnone : Acl.Fits ⟨[], [], []⟩ :=
    ⟨fun h => absurd rfl h, fun h => absurd rfl h, Nat.zero_le _, List.forall_mem_nil _⟩
  have hends := convertLoop_ends hnone hturns
  unfold Halts Ends at hends
  rw [convertSimpleAcl]
  cases hloop : convertLoop turns ⟨[], [], []⟩ s with
  | error e =>
    rw [hloop] at hends
    exact ⟨fun h => hends (Except.error.inj h), fun acl h => by cases h⟩
  | ok r =>
    rw [hloop] at hends
    refine ⟨fun h => (by cases h), fun acl h => ?_⟩
    rw [← Except.ok.inj h]
    exact hends

theorem setAcl_of_le {infile : Text} (h : 65536 ≤ infile.length) (junk : Text) :
    setAcl infile junk = .error .overflow := by
  have hfull : ¬(infile.take 65536).length < 65536 := by
    rw [List.length_take]
    omega
  exact if_neg hfull

/-- **Reading a file ends, and a list that is accepted fits**: any file, and whatever else stands
in the array it is read into. -/
theorem setAcl_fits (infile junk : Text) (hjunk : junk.length ≤ 65535 - infile.length) :
    setAcl infile junk ≠ .error .endless ∧ ∀ acl, setAcl infile junk = .ok acl → acl.Fits := by
  by_cases hlen : infile.length < 65536
  · have hturns : (infile ++ nul :: junk).length < 65537 := by
      rw [List.length_append, List.length_cons]
      omega
    rw [setAcl_of_length hlen]
    exact convertSimpleAcl_ends hturns
  · rw [setAcl_of_le (Nat.le_of_not_lt hlen)]
    exact ⟨by decide, fun acl h => by cases h⟩

/-- A word that is not ended runs on into what else stands in the array. -/
theorem setAcl_fits_unended :
    setAcl "OwnerID 1 me".toList "too x".toList ≠ .error .endless ∧
      ∀ acl, setAcl "OwnerID 1 me".toList "too x".toList = .ok acl → acl.Fits :=
  setAcl_fits _ _ (by decide)

/-! ## It stays in the text -/

variable {n : ℕ}

theorem accept_local (hlit : nul ∉ lit) : Local (Worded n) (accept lit) := by
  intro t ht
  obtain ⟨b, hb, hmatch⟩ := matchesAt_nul hlit t
  cases b with
  | false => exact .inl ⟨false, t, ht, fun rest => accept_of_mismatch (hmatch rest)⟩
  | true =>
    obtain ⟨t', rfl⟩ := hb rfl
    refine .inl ⟨true, t', ht.suffix ⟨lit, rfl⟩, fun rest => ?_⟩
    rw [List.append_assoc]
    exact accept_append lit _

theorem skip_local (more : Bool) : Local (Worded n) (skipSpace more) :=
  skipSpace_local (fun _ _ h ht => ht.suffix h) more

theorem copyStringMaxlen_local (hsize : n ≤ size) (hlen : n ≤ maxlen + 1) :
    Local (Worded n) (copyStringMaxlen size maxlen) := copyWord_local hsize hlen

theorem branch_local {α : Type} {P : Text → Prop} {c : Prop} [Decidable c] {x y : Scanner α}
    (hx : Local P x) (hy : Local P y) : Local P (if c then x else y) := by
  split
  · exact hx
  · exact hy

theorem convertGrantee_local : Local (Worded 128) convertGrantee := by
  have hcopy : ∀ size, 128 ≤ size → Local (Worded 128) (copyString size) := fun size h =>
    copyStringMaxlen_local h (by omega)
  refine (accept_local (by decide)).bind fun _ => branch_local ?_ ?_
  · exact (hcopy _ le_rfl).bind fun _ => .pure _
  refine (accept_local (by decide)).bind fun _ => branch_local ?_ ?_
  · exact (hcopy _ le_rfl).bind fun _ => (skip_local true).bind fun _ =>
      (hcopy _ le_rfl).bind fun _ => .pure _
  refine (accept_local (by decide)).bind fun _ => branch_local ?_ (.fail nofun nofun)
  refine (skip_local true).bind fun _ => (accept_local (by decide)).bind fun _ =>
    branch_local (.pure _) ?_
  refine (accept_local (by decide)).bind fun _ => branch_local (.pure _) ?_
  exact (accept_local (by decide)).bind fun _ => branch_local (.pure _) (.fail nofun nofun)

theorem convertPermission_local : Local (Worded n) convertPermission := by
  refine (accept_local (by decide)).bind fun _ => branch_local (.pure _) ?_
  refine (accept_local (by decide)).bind fun _ => branch_local (.pure _) ?_
  refine (accept_local (by decide)).bind fun _ => branch_local (.pure _) ?_
  refine (accept_local (by decide)).bind fun _ => branch_local (.pure _) ?_
  exact (accept_local (by decide)).bind fun _ => branch_local (.pure _) (.pure _)

/-- **A turn stays in a text of short words.** -/
theorem convertTurn_local (acl : Acl) : Local (Worded 128) (convertTurn acl) := by
  refine (skip_local false).bind fun _ => first_local.bind fun c => branch_local (.pure _) ?_
  refine (startsWith_local (by decide)).bind fun _ => branch_local ?_ ?_
  · exact (skipLine_local fun _ _ h ht => ht.suffix h).bind fun _ => .pure _
  refine (accept_local (by decide)).bind fun _ => branch_local ?_ ?_
  · exact (copyStringMaxlen_local le_rfl (by decide)).bind fun _ => (skip_local true).bind fun _ =>
      (copyStringMaxlen_local le_rfl (by decide)).bind fun _ => .pure _
  refine branch_local (.fail nofun nofun) ?_
  exact (convertGrantee_local.bind fun _ => (skip_local true).bind fun _ =>
    convertPermission_local.bind fun _ => .pure _).bind fun _ => .pure _

theorem convertLoop_local (turns : ℕ) (acl : Acl) : Local (Worded 128) (convertLoop turns acl) := by
  induction turns generalizing acl with
  | zero => exact .fail nofun nofun
  | succ turns ih =>
    refine (convertTurn_local acl).bind fun r => ?_
    cases r with
    | none => exact .pure acl
    | some acl' => exact ih acl'

/-- **A file of short words is read within its text.**  If no 128 characters of it follow each other
without white space, and the last one is white space, then either a list is read from it or it is
not well formed, whatever stands in the array after it. -/
theorem setAcl_local {infile : Text} (h : Worded 128 infile) (hlen : infile.length < 65536) :
    (∃ acl, ∀ junk, setAcl infile junk = .ok acl) ∨
      ∀ junk, setAcl infile junk = .error .rejected := by
  have hset : ∀ junk, setAcl infile junk = (convertLoop 65537 ⟨[], [], []⟩
      (infile ++ nul :: junk)).map Prod.fst := setAcl_of_length hlen
  rcases convertLoop_local 65537 ⟨[], [], []⟩ infile h with
    ⟨acl, t, -, hloop⟩ | ⟨e, hread, hwrite, hloop⟩
  · refine .inl ⟨acl, fun junk => ?_⟩
    rw [hset, hloop]
    rfl
  · have herror : ∀ junk, setAcl infile junk = .error e := fun junk => by
      rw [hset, hloop]
      rfl
    have hends : setAcl infile [] ≠ .error .endless := by
      rw [setAcl_of_length hlen]
      exact (convertSimpleAcl_ends (by rw [List.length_append, List.length_singleton]; omega)).1
    refine .inr fun junk => ?_
    cases e with
    | overread => exact absurd rfl hread
    | overflow => exact absurd rfl hwrite
    | endless => exact absurd (herror []) hends
    | rejected => exact herror junk

/-- Grants to two groups. -/
theorem setAcl_local_groups :
    (∃ acl, ∀ junk, setAcl "Group All Users READ\nGroup Log Delivery WRITE\n".toList junk
        = .ok acl) ∨
      ∀ junk, setAcl "Group All Users READ\nGroup Log Delivery WRITE\n".toList junk
        = .error .rejected := by
  refine setAcl_local ⟨fun w hw _ => ?_, fun u c h => ?_⟩ (by decide)
  · exact hw.length_le.trans_lt (by decide)
  · have hlast := congrArg List.getLast? h
    rw [List.getLast?_concat] at hlast
    obtain rfl : c = '\n' := by simpa using hlast.symm
    rfl

/-! ## Where it does not -/

/-- A word as long as its array is written past it. -/
theorem copyStringMaxlen_overflow {w ws : Text} (hw : IsWord w) (hws : ∀ c ∈ ws, isspace c)
    (hlong : size ≤ w.length) (s : Text) :
    copyStringMaxlen size size (ws ++ (w ++ s)) = .error .overflow := by
  rw [copyStringMaxlen, run_bind (skipSpace_word hw hws true s)]
  exact copyWord_overflow (fun c hc => (hw.plain c hc).1) hlong s

/-- **The owner can be written past its array**: an ID or a display name of as many characters as
there are in its array is copied whole, and then ended. -/
theorem setAcl_owner_overflow {id name : Text} (hid : IsWord id) (hname : IsWord name)
    (hlong : S3_MAX_GRANTEE_USER_ID_SIZE ≤ id.length ∨
      S3_MAX_GRANTEE_DISPLAY_NAME_SIZE ≤ name.length) (rest junk : Text)
    (hlen : ("OwnerID ".toList ++ id ++ [' '] ++ name ++ rest).length < 65536) :
    setAcl ("OwnerID ".toList ++ id ++ [' '] ++ name ++ rest) junk = .error .overflow := by
  have htext : "OwnerID ".toList ++ id ++ [' '] ++ name ++ rest ++ nul :: junk
      = "OwnerID".toList ++ ([' '] ++ (id ++ ' ' :: (name ++ (rest ++ nul :: junk)))) := by simp
  have hturn : convertTurn ⟨[], [], []⟩ ("OwnerID ".toList ++ id ++ [' '] ++ name ++ rest ++
      nul :: junk) = .error .overflow := by
    rw [htext, convertTurn_ownerID]
    by_cases hidlen : id.length < S3_MAX_GRANTEE_USER_ID_SIZE
    · have hcopy := copyStringMaxlen_word hid isspace_blank hidlen.le hidlen
        (by decide : isspace ' ') (name ++ (rest ++ nul :: junk))
      have hmore : skipSpace true (' ' :: (name ++ (rest ++ nul :: junk)))
          = .ok ((), name ++ (rest ++ nul :: junk)) := skipSpace_word hname isspace_blank true _
      have hnamelen := hlong.resolve_left (Nat.not_le.2 hidlen)
      have hover : copyStringMaxlen S3_MAX_GRANTEE_DISPLAY_NAME_SIZE
          S3_MAX_GRANTEE_DISPLAY_NAME_SIZE (name ++ (rest ++ nul :: junk)) = .error .overflow :=
        copyStringMaxlen_overflow hname (List.forall_mem_nil _) hnamelen _
      rw [run_bind hcopy, run_bind hmore, run_bind_error hover]
    · have hover := copyStringMaxlen_overflow hid isspace_blank (Nat.le_of_not_lt hidlen)
      exact run_bind_error (hover _) _
  have hloop : convertLoop 65537 ⟨[], [], []⟩ ("OwnerID ".toList ++ id ++ [' '] ++ name ++ rest ++
      nul :: junk) = .error .overflow := run_bind_error hturn _
  rw [setAcl_of_length hlen, convertSimpleAcl, hloop]
  rfl

/-- An ID of 128 characters. -/
theorem setAcl_owner_overflow_id :
    setAcl ("OwnerID ".toList ++ List.replicate 128 'a' ++ [' '] ++ "me".toList ++ ['\n']) []
      = .error .overflow := by
  have hid : IsWord (List.replicate 128 'a') :=
    ⟨nofun, fun c hc => by rw [List.eq_of_mem_replicate hc]; decide⟩
  exact setAcl_owner_overflow hid (by decide) (.inl List.length_replicate.ge) _ []
    (by simp)

end CloudFS.S3
