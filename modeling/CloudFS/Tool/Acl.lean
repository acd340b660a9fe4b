import CloudFS.Machinery.Scan
import CloudFS.Tool.GetObject

/-!
# Tool/Acl — access control lists as text

`s3 getacl` writes the access control list of an object as lines of text, and `s3 setacl` reads such
a text back with `convert_simple_acl`.  A list comes back as it was, but for the parentheses around
display names (`acl_roundTrip`).  Over a longer list in the same file it comes back with the rest of
that list (`acl_stale`), since the file is not truncated.  `s3 getlogging` writes grants in the same
form for `s3 setlogging`, but shows log delivery as all users (`logging_roundTrip`).
-/

namespace CloudFS.S3

open Scan

/-- `S3Permission`. -/
inductive S3Permission
  | read | write | readACP | writeACP | fullControl
  deriving DecidableEq

/-- `granteeType`, with the member of `grantee` that goes with it. -/
inductive Grantee
  | amazonCustomerByEmail (emailAddress : Text)
  | canonicalUser (id displayName : Text)
  | allAwsUsers
  | allUsers
  | logDelivery
  deriving DecidableEq

/-- `S3AclGrant`; a permission that was never written is missing. -/
structure S3AclGrant where
  grantee : Grantee
  permission : Option S3Permission
  deriving DecidableEq

/-- What `S3_get_acl` fills in and `S3_set_acl` is passed. -/
structure Acl where
  ownerId : Text
  ownerDisplayName : Text
  aclGrants : List S3AclGrant
  deriving DecidableEq

def S3_MAX_ACL_GRANT_COUNT : ℕ := 100
def S3_MAX_GRANTEE_EMAIL_ADDRESS_SIZE : ℕ := 128
def S3_MAX_GRANTEE_USER_ID_SIZE : ℕ := 128
def S3_MAX_GRANTEE_DISPLAY_NAME_SIZE : ℕ := 128

/-! ## Reading -/

/-- `COPY_STRING_MAXLEN`, to an array of `size` characters. -/
def copyStringMaxlen (size maxlen : ℕ) : Scanner Text := do
  skipSpace true
  copyWord size maxlen

/-- `COPY_STRING`. -/
def copyString (size : ℕ) : Scanner Text := copyStringMaxlen size (size - 1)

/-- Moves past `lit` if that is what comes next. -/
def accept (lit : Text) : Scanner Bool := do
  if ← startsWith lit then
    advance lit.length
    pure true
  else pure false

/-- The type of a grant and its grantee. -/
def convertGrantee : Scanner Grantee := do
  if ← accept "Email".toList then
    let emailAddress ← copyString S3_MAX_GRANTEE_EMAIL_ADDRESS_SIZE
    pure (.amazonCustomerByEmail emailAddress)
  else if ← accept "UserID".toList then
    let id ← copyString S3_MAX_GRANTEE_USER_ID_SIZE
    skipSpace true
    let displayName ← copyString S3_MAX_GRANTEE_DISPLAY_NAME_SIZE
    pure (.canonicalUser id displayName)
  else if ← accept "Group".toList then
    skipSpace true
    if ← accept "Authenticated AWS Users".toList then pure .allAwsUsers
    else if ← accept "All Users".toList then pure .allUsers
    else if ← accept "Log Delivery".toList then pure .logDelivery
    else fail .rejected
  else fail .rejected

/-- The permission of a grant; none is written if none is recognized. -/
def convertPermission : Scanner (Option S3Permission) := do
  if ← accept "READ_ACP".toList then pure (some .readACP)
  else if ← accept "READ".toList then pure (some .read)
  else if ← accept "WRITE_ACP".toList then pure (some .writeACP)
  else if ← accept "WRITE".toList then pure (some .write)
  else if ← accept "FULL_CONTROL".toList then pure (some .fullControl)
  else pure none

/-- A grant. -/
def convertGrant : Scanner S3AclGrant := do
  let grantee ← convertGrantee
  skipSpace true
  let permission ← convertPermission
  pure ⟨grantee, permission⟩

/-- One turn of the loop of `convert_simple_acl`; there is none after it where the text ends. -/
def convertTurn (acl : Acl) : Scanner (Option Acl) := do
  skipSpace false
  let c ← first
  if c = nul then pure none
  else if (← startsWith "Type".toList) || c = '-' then do
    skipLine
    pure (some acl)
  else if ← accept "OwnerID".toList then do
    let ownerId ← copyStringMaxlen S3_MAX_GRANTEE_USER_ID_SIZE S3_MAX_GRANTEE_USER_ID_SIZE
    skipSpace true
    let ownerDisplayName ←
      copyStringMaxlen S3_MAX_GRANTEE_DISPLAY_NAME_SIZE S3_MAX_GRANTEE_DISPLAY_NAME_SIZE
    pure (some { acl with ownerId, ownerDisplayName })
  else if acl.aclGrants.length = S3_MAX_ACL_GRANT_COUNT then fail .rejected
  else do
    let grant ← convertGrant
    pure (some { acl with aclGrants := acl.aclGrants ++ [grant] })

/-- The loop of `convert_simple_acl`, for at most `turns` turns. -/
def convertLoop : (turns : ℕ) → Acl → Scanner Acl
  | 0, _ => fail .endless
  | turns + 1, acl => do
    match ← convertTurn acl with
    | none => pure acl
    | some acl => convertLoop turns acl

/-- `convert_simple_acl` on a buffer of fewer than `turns` characters. -/
def convertSimpleAcl (turns : ℕ) (aclXml : Text) : Except Failure Acl :=
  (convertLoop turns ⟨[], [], []⟩ aclXml).map Prod.fst

/-- The list `set_acl` passes to `S3_set_acl`: it reads what it can of the file into an array of
65536 characters, and puts a null character after it; `junk` is what stands in the array after
that. -/
def setAcl (infile junk : Text) : Except Failure Acl :=
  let aclBuf := infile.take 65536
  if aclBuf.length < 65536 then convertSimpleAcl 65537 (aclBuf ++ nul :: junk)
  else .error .overflow

/-- The grants `set_logging` passes to `S3_set_server_access_logging`: it reads them as `set_acl`
does. -/
def setLogging (infile junk : Text) : Except Failure (List S3AclGrant) :=
  (setAcl infile junk).map Acl.aclGrants

/-! ## Writing -/

/-- `%-ns`. -/
def padRight (n : ℕ) (s : Text) : Text := s ++ List.replicate (n - s.length) ' '

/-- A line of three columns. -/
def aclLine (type id perm : Text) : Text :=
  padRight 6 type ++ "  ".toList ++ padRight 90 id ++ "  ".toList ++ padRight 12 perm ++ ['\n']

/-- `type` and `id` of a grant. -/
def Grantee.columns : Grantee → Text × Text
  | .amazonCustomerByEmail emailAddress => ("Email".toList, emailAddress)
  | .canonicalUser id displayName =>
    -- `snprintf` to an array of 128 + 128 + 16 characters
    ("UserID".toList, (id ++ " (".toList ++ displayName ++ ")".toList).take 271)
  | .allAwsUsers => ("Group".toList, "Authenticated AWS Users".toList)
  | .allUsers => ("Group".toList, "All Users".toList)
  | .logDelivery => ("Group".toList, "Log Delivery".toList)

/-- `perm` of a grant. -/
def permissionText : Option S3Permission → Text
  | some .read => "READ".toList
  | some .write => "WRITE".toList
  | some .readACP => "READ_ACP".toList
  | some .writeACP => "WRITE_ACP".toList
  | _ => "FULL_CONTROL".toList

/-- The line of a grant. -/
def S3AclGrant.line (grant : S3AclGrant) : Text :=
  aclLine grant.grantee.columns.1 grant.grantee.columns.2 (permissionText grant.permission)

/-- The titles of the columns, and the line under them. -/
def aclTitles : Text :=
  aclLine " Type".toList "                                   User Identifier".toList
      " Permission".toList ++
    (List.replicate 6 '-' ++ "  ".toList ++ List.replicate 90 '-' ++ "  ".toList ++
      List.replicate 12 '-' ++ ['\n'])

/-- What `get_acl` writes. -/
def getAcl (acl : Acl) : Text :=
  ("OwnerID ".toList ++ acl.ownerId ++ [' '] ++ acl.ownerDisplayName ++ ['\n']) ++
    (aclTitles ++ acl.aclGrants.flatMap S3AclGrant.line)

/-- `type` and `id` of a grant in `get_logging`, which has no case of its own for log delivery. -/
def Grantee.loggingColumns : Grantee → Text × Text
  | .amazonCustomerByEmail emailAddress => ("Email".toList, emailAddress)
  | .canonicalUser id displayName =>
    ("UserID".toList, (id ++ " (".toList ++ displayName ++ ")".toList).take 271)
  | .allAwsUsers => ("Group".toList, "Authenticated AWS Users".toList)
  | _ => ("Group".toList, "All Users".toList)

/-- What `get_logging` writes to its file if logging is enabled. -/
def getLogging (aclGrants : List S3AclGrant) : Text :=
  aclTitles ++ aclGrants.flatMap fun grant =>
    aclLine grant.grantee.loggingColumns.1 grant.grantee.loggingColumns.2
      (permissionText grant.permission)

/-! ## What a written list reads as -/

/-- A text that is read as one word: not empty, and without white space. -/
structure IsWord (w : Text) : Prop where
  ne_nil : w ≠ []
  plain : ∀ c ∈ w, isspace c = false ∧ c ≠ nul

instance (w : Text) : Decidable (IsWord w) :=
  decidable_of_iff (w ≠ [] ∧ w.all fun c => !isspace c && c ≠ nul)
    ⟨fun h => ⟨h.1, fun c hc => by simpa using List.all_eq_true.1 h.2 c hc⟩,
      fun h => ⟨h.ne_nil, List.all_eq_true.2 fun c hc => by simpa using h.plain c hc⟩⟩

/-- A grantee whose texts are words that fit their arrays, a display name with the parentheses that
are put around it. -/
def Grantee.Printable : Grantee → Prop
  | .amazonCustomerByEmail emailAddress =>
    IsWord emailAddress ∧ emailAddress.length < S3_MAX_GRANTEE_EMAIL_ADDRESS_SIZE
  | .canonicalUser id displayName =>
    IsWord id ∧ id.length < S3_MAX_GRANTEE_USER_ID_SIZE ∧
      IsWord ('(' :: displayName ++ [')']) ∧
        displayName.length + 2 < S3_MAX_GRANTEE_DISPLAY_NAME_SIZE
  | _ => True

/-- A list that is written so that it can be read. -/
structure Acl.Printable (acl : Acl) : Prop where
  ownerId : IsWord acl.ownerId ∧ acl.ownerId.length < S3_MAX_GRANTEE_USER_ID_SIZE
  ownerDisplayName : IsWord acl.ownerDisplayName ∧
    acl.ownerDisplayName.length < S3_MAX_GRANTEE_DISPLAY_NAME_SIZE
  count : acl.aclGrants.length ≤ S3_MAX_ACL_GRANT_COUNT
  grants : ∀ grant ∈ acl.aclGrants, grant.grantee.Printable ∧ grant.permission.isSome

/-- The grantee as it is read back: the parentheses stay around a display name. -/
def Grantee.reread : Grantee → Grantee
  | .canonicalUser id displayName => .canonicalUser id ('(' :: displayName ++ [')'])
  | grantee => grantee

/-- The grant as it is read back. -/
def S3AclGrant.reread (grant : S3AclGrant) : S3AclGrant :=
  { grant with grantee := grant.grantee.reread }

/-- The list as it is read back. -/
def Acl.reread (acl : Acl) : Acl :=
  { acl with aclGrants := acl.aclGrants.map S3AclGrant.reread }

/-- The grant as `get_logging` shows it: log delivery as all users. -/
def S3AclGrant.logged (grant : S3AclGrant) : S3AclGrant :=
  { grant with grantee := if grant.grantee = .logDelivery then .allUsers else grant.grantee }

/-- A grant whose line has the width of the titles. -/
def S3AclGrant.Narrow (grant : S3AclGrant) : Prop := grant.grantee.columns.2.length ≤ 90

variable {s w ws lit : Text} {c : Char} {acl : Acl} {grant : S3AclGrant} {turns : ℕ}

theorem accept_append (lit s : Text) : accept lit (lit ++ s) = .ok (true, s) := by
  rw [accept, run_bind (startsWith_append lit s)]
  exact run_bind (advance_append lit s) _

theorem accept_of_mismatch (h : matchesAt lit s = .ok false) : accept lit s = .ok (false, s) := by
  rw [accept, run_bind (startsWith_of_mismatch h)]
  rfl

/-- **A word is copied whole** from behind its white space. -/
theorem copyStringMaxlen_word {size maxlen : ℕ} (hw : IsWord w) (hws : ∀ c ∈ ws, isspace c)
    (hlen : w.length ≤ maxlen) (hsize : w.length < size) (hc : isspace c) (s : Text) :
    copyStringMaxlen size maxlen (ws ++ (w ++ c :: s)) = .ok (w, c :: s) := by
  obtain ⟨d, v, rfl⟩ := List.exists_cons_of_ne_nil hw.ne_nil
  have hd := hw.plain d List.mem_cons_self
  have hskip : skipSpace true (ws ++ (d :: v ++ c :: s)) = .ok ((), d :: v ++ c :: s) := by
    rw [skipSpace_append hws]
    exact skipSpace_of_not hd.1 hd.2 true _
  rw [copyStringMaxlen, run_bind hskip]
  exact copyWord_append (fun c hc => (hw.plain c hc).1) hlen hsize hc s

theorem copyString_word {size : ℕ} (hw : IsWord w) (hws : ∀ c ∈ ws, isspace c)
    (hsize : w.length < size) (hc : isspace c) (s : Text) :
    copyString size (ws ++ (w ++ c :: s)) = .ok (w, c :: s) :=
  copyStringMaxlen_word hw hws (Nat.le_sub_one_of_lt hsize) hsize hc s

/-- White space before a word. -/
theorem skipSpace_word (hw : IsWord w) (hws : ∀ c ∈ ws, isspace c) (more : Bool) (s : Text) :
    skipSpace more (ws ++ (w ++ s)) = .ok ((), w ++ s) := by
  obtain ⟨d, v, rfl⟩ := List.exists_cons_of_ne_nil hw.ne_nil
  have hd := hw.plain d List.mem_cons_self
  rw [skipSpace_append hws]
  exact skipSpace_of_not hd.1 hd.2 more _

/-- A group is read after its column. -/
theorem convertGrantee_group {s' : Text} (hskip : skipSpace true s' = .ok ((), s)) :
    convertGrantee ("Group".toList ++ s') = (do
      if ← accept "Authenticated AWS Users".toList then pure .allAwsUsers
      else if ← accept "All Users".toList then pure .allUsers
      else if ← accept "Log Delivery".toList then pure .logDelivery
      else fail .rejected : Scanner Grantee) s := by
  have hemail : matchesAt "Email".toList ("Group".toList ++ s') = .ok false := by simp [matchesAt]
  have huser : matchesAt "UserID".toList ("Group".toList ++ s') = .ok false := by simp [matchesAt]
  rw [convertGrantee, run_bind (accept_of_mismatch hemail), if_neg Bool.false_ne_true,
    run_bind (accept_of_mismatch huser), if_neg Bool.false_ne_true,
    run_bind (accept_append _ _), if_pos rfl, run_bind hskip]

/-- **A grantee is read back** from its two columns. -/
theorem convertGrantee_columns {grantee : Grantee} (h : grantee.Printable)
    (hws : ∀ c ∈ ws, isspace c) (s : Text) :
    convertGrantee (grantee.columns.1 ++ (ws ++ (grantee.columns.2 ++ ' ' :: s)))
      = .ok (grantee.reread, ' ' :: s) := by
  cases grantee with
  | amazonCustomerByEmail emailAddress =>
    rw [convertGrantee, Grantee.columns]
    dsimp only
    rw [run_bind (accept_append _ _), if_pos rfl,
      run_bind (copyString_word h.1 hws h.2 (by decide) s)]
    rfl
  | canonicalUser id displayName =>
    obtain ⟨hid, hidlen, hname, hnamelen⟩ := h
    have hfull : (id ++ " (".toList ++ displayName ++ ")".toList).take 271 ++ ' ' :: s
        = id ++ ' ' :: (('(' :: displayName ++ [')']) ++ ' ' :: s) := by
      have hlen : (id ++ " (".toList ++ displayName ++ ")".toList).length ≤ 271 := by
        rw [S3_MAX_GRANTEE_USER_ID_SIZE] at hidlen
        rw [S3_MAX_GRANTEE_DISPLAY_NAME_SIZE] at hnamelen
        simp
        omega
      rw [List.take_of_length_le hlen]
      simp
    have hemail : matchesAt "Email".toList ("UserID".toList ++ (ws ++ (id ++ ' ' ::
        (('(' :: displayName ++ [')']) ++ ' ' :: s)))) = .ok false := by simp [matchesAt]
    have hskip : skipSpace true (' ' :: (('(' :: displayName ++ [')']) ++ ' ' :: s))
        = .ok ((), ('(' :: displayName ++ [')']) ++ ' ' :: s) :=
      skipSpace_word hname isspace_blank true _
    have hcopy : copyString S3_MAX_GRANTEE_DISPLAY_NAME_SIZE
        (('(' :: displayName ++ [')']) ++ ' ' :: s) = .ok ('(' :: displayName ++ [')'], ' ' :: s) :=
      copyString_word hname (List.forall_mem_nil _) (by simpa using hnamelen) (by decide) s
    rw [convertGrantee, Grantee.columns]
    dsimp only
    rw [hfull, run_bind (accept_of_mismatch hemail), if_neg Bool.false_ne_true,
      run_bind (accept_append _ _), if_pos rfl,
      run_bind (copyString_word hid hws hidlen (by decide) _), run_bind hskip, run_bind hcopy]
    rfl
  | allAwsUsers =>
    have hskip : skipSpace true (ws ++ ("Authenticated AWS Users".toList ++ ' ' :: s))
        = .ok ((), "Authenticated AWS Users".toList ++ ' ' :: s) :=
      (skipSpace_append hws true _).trans (by simp [skipSpace, afterSpace, isspace, nul])
    refine (convertGrantee_group hskip).trans ?_
    rw [run_bind (accept_append _ _), if_pos rfl]
    rfl
  | allUsers =>
    have hskip : skipSpace true (ws ++ ("All Users".toList ++ ' ' :: s))
        = .ok ((), "All Users".toList ++ ' ' :: s) :=
      (skipSpace_append hws true _).trans (by simp [skipSpace, afterSpace, isspace, nul])
    have haws : matchesAt "Authenticated AWS Users".toList ("All Users".toList ++ ' ' :: s)
        = .ok false := by simp [matchesAt]
    refine (convertGrantee_group hskip).trans ?_
    rw [run_bind (accept_of_mismatch haws), if_neg Bool.false_ne_true,
      run_bind (accept_append _ _), if_pos rfl]
    rfl
  | logDelivery =>
    have hskip : skipSpace true (ws ++ ("Log Delivery".toList ++ ' ' :: s))
        = .ok ((), "Log Delivery".toList ++ ' ' :: s) :=
      (skipSpace_append hws true _).trans (by simp [skipSpace, afterSpace, isspace, nul])
    have haws : matchesAt "Authenticated AWS Users".toList ("Log Delivery".toList ++ ' ' :: s)
        = .ok false := by simp [matchesAt]
    have hall : matchesAt "All Users".toList ("Log Delivery".toList ++ ' ' :: s)
        = .ok false := by simp [matchesAt]
    refine (convertGrantee_group hskip).trans ?_
    rw [run_bind (accept_of_mismatch haws), if_neg Bool.false_ne_true,
      run_bind (accept_of_mismatch hall), if_neg Bool.false_ne_true,
      run_bind (accept_append _ _), if_pos rfl]
    rfl

/-- **A permission is read back**, if a blank or the end of its line follows. -/
theorem convertPermission_text (permission : S3Permission) (hc : c = ' ' ∨ c = '\n') (s : Text) :
    convertPermission (permissionText (some permission) ++ c :: s)
      = .ok (some permission, c :: s) := by
  have hne : c ≠ '_' := by rcases hc with rfl | rfl <;> decide
  cases permission with
  | read =>
    change convertPermission ("READ".toList ++ c :: s) = _
    have hacp : matchesAt "READ_ACP".toList ("READ".toList ++ c :: s) = .ok false := by
      simp [matchesAt, hne]
    rw [convertPermission, run_bind (accept_of_mismatch hacp),
      if_neg Bool.false_ne_true, run_bind (accept_append _ _), if_pos rfl, run_pure]
  | write =>
    change convertPermission ("WRITE".toList ++ c :: s) = _
    have hread : matchesAt "READ_ACP".toList ("WRITE".toList ++ c :: s) = .ok false := by
      simp [matchesAt]
    have hread' : matchesAt "READ".toList ("WRITE".toList ++ c :: s) = .ok false := by
      simp [matchesAt]
    have hacp : matchesAt "WRITE_ACP".toList ("WRITE".toList ++ c :: s) = .ok false := by
      simp [matchesAt, hne]
    rw [convertPermission, run_bind (accept_of_mismatch hread),
      if_neg Bool.false_ne_true, run_bind (accept_of_mismatch hread'), if_neg Bool.false_ne_true,
      run_bind (accept_of_mismatch hacp), if_neg Bool.false_ne_true,
      run_bind (accept_append _ _), if_pos rfl, run_pure]
  | readACP =>
    change convertPermission ("READ_ACP".toList ++ c :: s) = _
    rw [convertPermission, run_bind (accept_append _ _), if_pos rfl, run_pure]
  | writeACP =>
    change convertPermission ("WRITE_ACP".toList ++ c :: s) = _
    have hread : matchesAt "READ_ACP".toList ("WRITE_ACP".toList ++ c :: s) = .ok false := by
      simp [matchesAt]
    have hread' : matchesAt "READ".toList ("WRITE_ACP".toList ++ c :: s) = .ok false := by
      simp [matchesAt]
    rw [convertPermission, run_bind (accept_of_mismatch hread),
      if_neg Bool.false_ne_true, run_bind (accept_of_mismatch hread'), if_neg Bool.false_ne_true,
      run_bind (accept_append _ _), if_pos rfl, run_pure]
  | fullControl =>
    change convertPermission ("FULL_CONTROL".toList ++ c :: s) = _
    have hmiss : ∀ lit ∈ ["READ_ACP".toList, "READ".toList, "WRITE_ACP".toList, "WRITE".toList],
        matchesAt lit ("FULL_CONTROL".toList ++ c :: s) = .ok false := by simp [matchesAt]
    simp only [List.forall_mem_cons] at hmiss
    obtain ⟨hread, hread', hwrite, hwrite', -⟩ := hmiss
    rw [convertPermission, run_bind (accept_of_mismatch hread),
      if_neg Bool.false_ne_true, run_bind (accept_of_mismatch hread'), if_neg Bool.false_ne_true,
      run_bind (accept_of_mismatch hwrite), if_neg Bool.false_ne_true,
      run_bind (accept_of_mismatch hwrite'), if_neg Bool.false_ne_true,
      run_bind (accept_append _ _), if_pos rfl, run_pure]

/-! ## Line by line -/

theorem isspace_replicate (n : ℕ) : ∀ c ∈ List.replicate n ' ', isspace c := by
  intro c hc
  rw [List.eq_of_mem_replicate hc]
  rfl

/-- The columns of a line, and the white space between and after them. -/
theorem aclLine_eq (type id perm : Text) :
    ∃ v w c u, (∀ d ∈ v, isspace d) ∧ (∀ d ∈ w, isspace d) ∧ (c = ' ' ∨ c = '\n') ∧
      (∀ d ∈ c :: u, isspace d) ∧ aclLine type id perm = type ++ (v ++ (id ++ ' ' ::
        (w ++ (perm ++ c :: u)))) := by
  have hend : ∃ c u, (c = ' ' ∨ c = '\n') ∧ (∀ d ∈ c :: u, isspace d) ∧
      List.replicate (12 - perm.length) ' ' ++ ['\n'] = c :: u := by
    cases 12 - perm.length with
    | zero => exact ⟨'\n', [], .inr rfl, isspace_newline, rfl⟩
    | succ n =>
      refine ⟨' ', List.replicate n ' ' ++ ['\n'], .inl rfl, ?_, rfl⟩
      have hn := isspace_replicate (n + 1)
      intro d hd
      rw [← List.cons_append, ← List.replicate_succ] at hd
      rcases List.mem_append.1 hd with hd | hd
      · exact hn d hd
      · rw [List.mem_singleton.1 hd]
        rfl
  obtain ⟨c, u, hc, hu, hperm⟩ := hend
  refine ⟨List.replicate (6 - type.length + 2) ' ', List.replicate (90 - id.length + 1) ' ', c, u,
    isspace_replicate _, isspace_replicate _, hc, hu, ?_⟩
  rw [← hperm, ← List.cons_append, ← List.replicate_succ]
  simp [aclLine, padRight, List.replicate_add]

/-- The turn that begins at a text begins after the white space before it as well. -/
theorem convertLoop_skip (hws : ∀ c ∈ ws, isspace c) (turns : ℕ) (acl : Acl) (s : Text) :
    convertLoop turns acl (ws ++ s) = convertLoop turns acl s := by
  have hskip : ∀ f : Unit → Scanner (Option Acl), (skipSpace false >>= f) (ws ++ s)
      = (skipSpace false >>= f) s := by
    intro f
    change (skipSpace false (ws ++ s) >>= _) = (skipSpace false s >>= _)
    rw [skipSpace_append hws]
  cases turns with
  | zero => rfl
  | succ turns =>
    have hturn : convertTurn acl (ws ++ s) = convertTurn acl s := hskip _
    change (convertTurn acl (ws ++ s) >>= _) = (convertTurn acl s >>= _)
    rw [hturn]

/-- A turn that goes on is followed by the next. -/
theorem convertLoop_of_turn {acl' : Acl} {s' : Text}
    (h : convertTurn acl s = .ok (some acl', s')) :
    convertLoop (turns + 1) acl s = convertLoop turns acl' s' := by
  rw [convertLoop, run_bind h]

/-- A line that begins as the titles do, or with a dash, is passed over. -/
theorem convertTurn_skips (hw : ∀ c ∈ w, c ≠ nul ∧ c ≠ '\n' ∧ c ≠ '\r')
    (hstart : (∃ v, w = "Type".toList ++ v) ∨ ∃ v, w = '-' :: v) (acl : Acl) (s : Text) :
    convertTurn acl (w ++ '\n' :: s) = .ok (some acl, '\n' :: s) := by
  have hline := skipLine_append hw s
  rcases hstart with ⟨v, rfl⟩ | ⟨v, rfl⟩
  · have hskip : skipSpace false ("Type".toList ++ v ++ '\n' :: s)
        = .ok ((), "Type".toList ++ v ++ '\n' :: s) := by
      simp [skipSpace, afterSpace, isspace]
    have hfirst : first ("Type".toList ++ v ++ '\n' :: s)
        = .ok ('T', "Type".toList ++ v ++ '\n' :: s) := by simp [first]
    have hstarts : startsWith "Type".toList ("Type".toList ++ v ++ '\n' :: s)
        = .ok (true, "Type".toList ++ v ++ '\n' :: s) := by
      rw [List.append_assoc]
      exact startsWith_append _ _
    rw [convertTurn, run_bind hskip, run_bind hfirst, if_neg (by decide), run_bind hstarts,
      if_pos (by decide), run_bind hline, run_pure]
  · have hskip : skipSpace false ('-' :: v ++ '\n' :: s) = .ok ((), '-' :: v ++ '\n' :: s) := by
      simp [skipSpace, afterSpace, isspace]
    have hfirst : first ('-' :: v ++ '\n' :: s) = .ok ('-', '-' :: v ++ '\n' :: s) := rfl
    have hstarts : startsWith "Type".toList ('-' :: v ++ '\n' :: s)
        = .ok (false, '-' :: v ++ '\n' :: s) := startsWith_of_mismatch (by simp [matchesAt])
    rw [convertTurn, run_bind hskip, run_bind hfirst, if_neg (by decide), run_bind hstarts,
      if_pos (by decide), run_bind hline, run_pure]

/-- A turn at `OwnerID` takes the owner. -/
theorem convertTurn_ownerID (acl : Acl) (s : Text) :
    convertTurn acl ("OwnerID".toList ++ s) = (do
      let ownerId ← copyStringMaxlen S3_MAX_GRANTEE_USER_ID_SIZE S3_MAX_GRANTEE_USER_ID_SIZE
      skipSpace true
      let ownerDisplayName ←
        copyStringMaxlen S3_MAX_GRANTEE_DISPLAY_NAME_SIZE S3_MAX_GRANTEE_DISPLAY_NAME_SIZE
      pure (some { acl with ownerId, ownerDisplayName }) : Scanner (Option Acl)) s := by
  have hskip : skipSpace false ("OwnerID".toList ++ s) = .ok ((), "OwnerID".toList ++ s) := by
    simp [skipSpace, afterSpace, isspace]
  have hfirst : first ("OwnerID".toList ++ s) = .ok ('O', "OwnerID".toList ++ s) := by
    simp [first]
  have hstarts : startsWith "Type".toList ("OwnerID".toList ++ s)
      = .ok (false, "OwnerID".toList ++ s) := startsWith_of_mismatch (by simp [matchesAt])
  rw [convertTurn, run_bind hskip, run_bind hfirst, if_neg (by decide), run_bind hstarts,
    if_neg (by decide), run_bind (accept_append _ _), if_pos rfl]

/-- The turn of the owner. -/
theorem convertTurn_owner (hid : IsWord acl.ownerId)
    (hidlen : acl.ownerId.length < S3_MAX_GRANTEE_USER_ID_SIZE)
    (hname : IsWord acl.ownerDisplayName)
    (hnamelen : acl.ownerDisplayName.length < S3_MAX_GRANTEE_DISPLAY_NAME_SIZE)
    (acl' : Acl) (s : Text) :
    convertTurn acl' ("OwnerID ".toList ++ acl.ownerId ++ [' '] ++ acl.ownerDisplayName ++
        '\n' :: s)
      = .ok (some { acl with aclGrants := acl'.aclGrants }, '\n' :: s) := by
  have htext : "OwnerID ".toList ++ acl.ownerId ++ [' '] ++ acl.ownerDisplayName ++ '\n' :: s
      = "OwnerID".toList ++ ([' '] ++ (acl.ownerId ++ ' ' :: (acl.ownerDisplayName ++
        '\n' :: s))) := by simp
  have hcopy := copyStringMaxlen_word hid isspace_blank hidlen.le hidlen (by decide : isspace ' ')
    (acl.ownerDisplayName ++ '\n' :: s)
  have hmore : skipSpace true (' ' :: (acl.ownerDisplayName ++ '\n' :: s))
      = .ok ((), acl.ownerDisplayName ++ '\n' :: s) := skipSpace_word hname isspace_blank true _
  have hcopy' : copyStringMaxlen S3_MAX_GRANTEE_DISPLAY_NAME_SIZE S3_MAX_GRANTEE_DISPLAY_NAME_SIZE
      (acl.ownerDisplayName ++ '\n' :: s) = .ok (acl.ownerDisplayName, '\n' :: s) :=
    copyStringMaxlen_word hname (List.forall_mem_nil _) hnamelen.le hnamelen (by decide) s
  rw [htext, convertTurn_ownerID, run_bind hcopy, run_bind hmore, run_bind hcopy', run_pure]

theorem isWord_permissionText (permission : Option S3Permission) :
    IsWord (permissionText permission) := by
  rcases permission with _ | permission
  · decide
  · cases permission <;> decide

/-- **The line of a grant is read back as the grant**, as it is reread. -/
theorem convertGrant_line (h : grant.grantee.Printable) (hperm : grant.permission.isSome)
    (s : Text) : ∃ ws, (∀ c ∈ ws, isspace c) ∧
      convertGrant (grant.line ++ s) = .ok (grant.reread, ws ++ s) := by
  obtain ⟨permission, hpermission⟩ := Option.isSome_iff_exists.1 hperm
  obtain ⟨v, w, c, u, hv, hw, hc, hu, hline⟩ :=
    aclLine_eq grant.grantee.columns.1 grant.grantee.columns.2 (permissionText grant.permission)
  refine ⟨c :: u, hu, ?_⟩
  have hskip : skipSpace true (' ' :: (w ++ (permissionText grant.permission ++ c :: (u ++ s))))
      = .ok ((), permissionText grant.permission ++ c :: (u ++ s)) :=
    skipSpace_word (isWord_permissionText _) (List.forall_mem_cons.2 ⟨rfl, hw⟩) true _
  have hgrantee := convertGrantee_columns h hv (w ++ (permissionText grant.permission ++ c ::
    (u ++ s)))
  rw [S3AclGrant.line, hline]
  simp only [List.append_assoc, List.cons_append]
  rw [convertGrant, run_bind hgrantee, run_bind hskip, hpermission,
    run_bind (convertPermission_text permission hc _), run_pure, S3AclGrant.reread, hpermission]

/-- A turn at the columns of a grantee takes a grant, if there is room for one. -/
theorem convertTurn_columns (hcount : acl.aclGrants.length ≠ S3_MAX_ACL_GRANT_COUNT)
    (grantee : Grantee) (s : Text) :
    convertTurn acl (grantee.columns.1 ++ s) = (do
      let grant ← convertGrant
      pure (some { acl with aclGrants := acl.aclGrants ++ [grant] }) : Scanner (Option Acl))
        (grantee.columns.1 ++ s) := by
  have hskip : skipSpace false (grantee.columns.1 ++ s) = .ok ((), grantee.columns.1 ++ s) := by
    cases grantee <;> simp [Grantee.columns, skipSpace, afterSpace, isspace]
  have hfirst : ∃ c, c ≠ nul ∧ c ≠ '-' ∧
      first (grantee.columns.1 ++ s) = .ok (c, grantee.columns.1 ++ s) := by
    cases grantee <;> simp [Grantee.columns, first, nul]
  obtain ⟨c, hnul, hdash, hfirst⟩ := hfirst
  have htype : matchesAt "Type".toList (grantee.columns.1 ++ s) = .ok false := by
    cases grantee <;> simp [Grantee.columns, matchesAt]
  have howner : matchesAt "OwnerID".toList (grantee.columns.1 ++ s) = .ok false := by
    cases grantee <;> simp [Grantee.columns, matchesAt]
  rw [convertTurn, run_bind hskip, run_bind hfirst, if_neg hnul,
    run_bind (startsWith_of_mismatch htype), if_neg (by simpa using hdash),
    run_bind (accept_of_mismatch howner), if_neg Bool.false_ne_true, if_neg hcount]

/-- The turn of a grant's line. -/
theorem convertLoop_line (h : grant.grantee.Printable) (hperm : grant.permission.isSome)
    (hcount : acl.aclGrants.length ≠ S3_MAX_ACL_GRANT_COUNT) (turns : ℕ) (s : Text) :
    convertLoop (turns + 1) acl (grant.line ++ s)
      = convertLoop turns { acl with aclGrants := acl.aclGrants ++ [grant.reread] } s := by
  obtain ⟨ws, hws, hgrant⟩ := convertGrant_line h hperm s
  have hcolumns : ∃ v, grant.line = grant.grantee.columns.1 ++ v := by
    obtain ⟨v, w, c, u, -, -, -, -, hline⟩ := aclLine_eq grant.grantee.columns.1
      grant.grantee.columns.2 (permissionText grant.permission)
    exact ⟨_, hline⟩
  obtain ⟨v, hv⟩ := hcolumns
  have hturn : convertTurn acl (grant.line ++ s)
      = .ok (some { acl with aclGrants := acl.aclGrants ++ [grant.reread] }, ws ++ s) := by
    rw [hv, List.append_assoc, convertTurn_columns hcount, ← List.append_assoc, ← hv,
      run_bind hgrant, run_pure]
  rw [convertLoop_of_turn hturn, convertLoop_skip hws]

/-- **Lines of grants are read back one after another.** -/
theorem convertLoop_lines {aclGrants : List S3AclGrant}
    (h : ∀ grant ∈ aclGrants, grant.grantee.Printable ∧ grant.permission.isSome)
    (hcount : acl.aclGrants.length + aclGrants.length ≤ S3_MAX_ACL_GRANT_COUNT) (turns : ℕ)
    (s : Text) :
    convertLoop (aclGrants.length + turns) acl (aclGrants.flatMap S3AclGrant.line ++ s)
      = convertLoop turns
          { acl with aclGrants := acl.aclGrants ++ aclGrants.map S3AclGrant.reread } s := by
  induction aclGrants generalizing acl with
  | nil => simp
  | cons grant aclGrants ih =>
    obtain ⟨⟨hgrant, hperm⟩, hrest⟩ := List.forall_mem_cons.1 h
    rw [List.length_cons] at hcount
    have hroom : acl.aclGrants.length ≠ S3_MAX_ACL_GRANT_COUNT := by omega
    have hturns : (grant :: aclGrants).length + turns = aclGrants.length + turns + 1 := by
      rw [List.length_cons]
      omega
    rw [hturns, List.flatMap_cons, List.append_assoc, convertLoop_line hgrant hperm hroom,
      ih hrest (by rw [List.length_append, List.length_singleton]; omega)]
    simp

/-- The titles without the blank before them, and the dashes. -/
theorem aclTitles_eq : ∃ v w, aclTitles = ' ' :: ("Type".toList ++ v ++ '\n' :: ('-' :: w ++
      ['\n'])) ∧ (∀ c ∈ "Type".toList ++ v, c ≠ nul ∧ c ≠ '\n' ∧ c ≠ '\r') ∧
      ∀ c ∈ '-' :: w, c ≠ nul ∧ c ≠ '\n' ∧ c ≠ '\r' := by
  have hline : ∀ w : Text, w.all (fun c => c ≠ nul && c ≠ '\n' && c ≠ '\r') →
      ∀ c ∈ w, c ≠ nul ∧ c ≠ '\n' ∧ c ≠ '\r' := fun w hw c hc => by
    simpa [and_assoc] using List.all_eq_true.1 hw c hc
  exact ⟨"   ".toList ++ padRight 90 "                                   User Identifier".toList ++
    "  ".toList ++ padRight 12 " Permission".toList, List.replicate 5 '-' ++ "  ".toList ++
    List.replicate 90 '-' ++ "  ".toList ++ List.replicate 12 '-', rfl, hline _ (by decide),
    hline _ (by decide)⟩

/-- The turns of the titles. -/
theorem convertLoop_titles (turns : ℕ) (acl : Acl) (s : Text) :
    convertLoop (turns + 2) acl (aclTitles ++ s) = convertLoop turns acl s := by
  obtain ⟨v, w, htitles, hv, hw⟩ := aclTitles_eq
  have htext : aclTitles ++ s
      = [' '] ++ ("Type".toList ++ v ++ '\n' :: (('-' :: w) ++ '\n' :: s)) := by
    rw [htitles]
    simp
  rw [htext, convertLoop_skip isspace_blank, convertLoop_of_turn (convertTurn_skips hv
    (.inl ⟨v, rfl⟩) acl _), ← List.singleton_append, convertLoop_skip isspace_newline,
    convertLoop_of_turn (convertTurn_skips hw (.inr ⟨w, rfl⟩) acl s), ← List.singleton_append,
    convertLoop_skip isspace_newline]

/-- The text ends. -/
theorem convertLoop_end (turns : ℕ) (acl : Acl) (junk : Text) :
    convertLoop (turns + 1) acl (nul :: junk) = .ok (acl, nul :: junk) := by
  have hskip : skipSpace false (nul :: junk) = .ok ((), nul :: junk) := by
    simp [skipSpace, afterSpace, isspace, nul]
  have hturn : convertTurn acl (nul :: junk) = .ok (none, nul :: junk) := by
    rw [convertTurn, run_bind hskip, run_bind (first_cons _ _), if_pos rfl, run_pure]
  rw [convertLoop, run_bind hturn]
  exact run_pure acl _

/-- The titles and the lines of grants, up to the end of the text. -/
theorem convertLoop_table (acl : Acl) {aclGrants : List S3AclGrant}
    (h : ∀ grant ∈ aclGrants, grant.grantee.Printable ∧ grant.permission.isSome)
    (hcount : acl.aclGrants.length + aclGrants.length ≤ S3_MAX_ACL_GRANT_COUNT)
    (hturns : aclGrants.length + 2 < turns) (junk : Text) :
    convertLoop turns acl (aclTitles ++ aclGrants.flatMap S3AclGrant.line ++ nul :: junk)
      = .ok ({ acl with aclGrants := acl.aclGrants ++ aclGrants.map S3AclGrant.reread },
          nul :: junk) := by
  obtain ⟨left, rfl⟩ : ∃ left, turns = aclGrants.length + (left + 1) + 2 :=
    ⟨turns - aclGrants.length - 3, by omega⟩
  rw [List.append_assoc, convertLoop_titles, convertLoop_lines h hcount, convertLoop_end]

/-! ## The length of what is written -/

theorem length_padRight (n : ℕ) (s : Text) : (padRight n s).length = max n s.length := by
  rw [padRight, List.length_append, List.length_replicate]
  omega

theorem length_aclLine (type id perm : Text) :
    (aclLine type id perm).length
      = max 6 type.length + max 90 id.length + max 12 perm.length + 5 := by
  simp [aclLine, length_padRight]
  omega

theorem length_aclTitles : aclTitles.length = 226 := by simp [aclTitles, length_aclLine]

/-- The first and the last column are as wide as the titles, in every line. -/
theorem length_line (grant : S3AclGrant) :
    grant.line.length = 23 + max 90 grant.grantee.columns.2.length := by
  have htype : grant.grantee.columns.1.length ≤ 6 := by
    cases grant.grantee <;> simp [Grantee.columns]
  have hperm : (permissionText grant.permission).length ≤ 12 := by
    rcases grant.permission with _ | permission
    · decide
    · cases permission <;> decide
  rw [S3AclGrant.line, length_aclLine]
  omega

theorem Grantee.Printable.length_le {grantee : Grantee} (h : grantee.Printable) :
    grantee.columns.2.length ≤ 271 := by
  cases grantee with
  | amazonCustomerByEmail emailAddress =>
    have hlen := h.2
    rw [S3_MAX_GRANTEE_EMAIL_ADDRESS_SIZE] at hlen
    change emailAddress.length ≤ 271
    omega
  | canonicalUser id displayName => exact (List.length_take_le _ _)
  | _ => simp [Grantee.columns]

theorem length_lines_le {aclGrants : List S3AclGrant}
    (h : ∀ grant ∈ aclGrants, grant.grantee.Printable ∧ grant.permission.isSome) :
    (aclGrants.flatMap S3AclGrant.line).length ≤ 294 * aclGrants.length := by
  induction aclGrants with
  | nil => simp
  | cons grant aclGrants ih =>
    obtain ⟨hgrant, hrest⟩ := List.forall_mem_cons.1 h
    have hline := length_line grant
    have hid := hgrant.1.length_le
    have hlines := ih hrest
    rw [List.flatMap_cons, List.length_append, List.length_cons]
    omega

/-- The lines of grants as wide as the titles, after the first `n` of them. -/
theorem drop_lines {aclGrants : List S3AclGrant} (h : ∀ grant ∈ aclGrants, grant.Narrow) (n : ℕ) :
    (aclGrants.flatMap S3AclGrant.line).drop (113 * n)
      = (aclGrants.drop n).flatMap S3AclGrant.line := by
  induction n generalizing aclGrants with
  | zero => rfl
  | succ n ih =>
    cases aclGrants with
    | nil => simp
    | cons grant aclGrants =>
      obtain ⟨hgrant, hrest⟩ := List.forall_mem_cons.1 h
      have hline : grant.line.length = 113 := by
        rw [length_line, Nat.max_eq_left hgrant]
      have hlen : 113 * (n + 1) = grant.line.length + 113 * n := by omega
      rw [List.flatMap_cons, hlen, List.drop_length_add_append, ih hrest, List.drop_succ_cons]

theorem length_lines_narrow {aclGrants : List S3AclGrant} (h : ∀ grant ∈ aclGrants, grant.Narrow) :
    (aclGrants.flatMap S3AclGrant.line).length = 113 * aclGrants.length := by
  induction aclGrants with
  | nil => rfl
  | cons grant aclGrants ih =>
    obtain ⟨hgrant, hrest⟩ := List.forall_mem_cons.1 h
    rw [List.flatMap_cons, List.length_append, length_line, Nat.max_eq_left hgrant, ih hrest,
      List.length_cons]
    omega

/-! ## Read back -/

theorem setAcl_of_length {infile : Text} (h : infile.length < 65536) (junk : Text) :
    setAcl infile junk = convertSimpleAcl 65537 (infile ++ nul :: junk) := by
  rw [setAcl, List.take_of_length_le h.le]
  exact if_pos h

theorem length_getAcl_lt (h : acl.Printable) : (getAcl acl).length < 65536 := by
  have hlines := length_lines_le h.grants
  have hid := h.ownerId.2
  have hname := h.ownerDisplayName.2
  have hcount := h.count
  rw [S3_MAX_GRANTEE_USER_ID_SIZE] at hid
  rw [S3_MAX_GRANTEE_DISPLAY_NAME_SIZE] at hname
  rw [S3_MAX_ACL_GRANT_COUNT] at hcount
  have hlen : (getAcl acl).length = 8 + acl.ownerId.length + 1 + acl.ownerDisplayName.length + 1 +
      (226 + (acl.aclGrants.flatMap S3AclGrant.line).length) := by
    unfold getAcl
    simp [length_aclTitles]
    omega
  omega

/-- What `get_acl` writes is read as the list, as it is reread. -/
theorem setAcl_getAcl (h : acl.Printable) (junk : Text) :
    setAcl (getAcl acl) junk = .ok acl.reread := by
  have hcount := h.count
  have htext : getAcl acl ++ nul :: junk
      = "OwnerID ".toList ++ acl.ownerId ++ [' '] ++ acl.ownerDisplayName ++ '\n' ::
        (aclTitles ++ acl.aclGrants.flatMap S3AclGrant.line ++ nul :: junk) := by
    unfold getAcl
    simp
  have howner := convertTurn_owner h.ownerId.1 h.ownerId.2 h.ownerDisplayName.1
    h.ownerDisplayName.2 ⟨[], [], []⟩
    (aclTitles ++ acl.aclGrants.flatMap S3AclGrant.line ++ nul :: junk)
  have htable := convertLoop_table { acl with aclGrants := [] } h.grants
    (by rw [List.length_nil, Nat.zero_add]; exact hcount)
    (by rw [S3_MAX_ACL_GRANT_COUNT] at hcount; omega : acl.aclGrants.length + 2 < 65536) junk
  rw [setAcl_of_length (length_getAcl_lt h), convertSimpleAcl, htext,
    convertLoop_of_turn howner, ← List.singleton_append, convertLoop_skip isspace_newline, htable]
  rfl

/-- **Access control lists come back from their file.**  A list whose texts are single words that
fit their arrays, written by `s3 getacl` to a file that did not exist or was not longer, is what
`s3 setacl` reads from it, whatever stood in its array before; only the display names of grants
have parentheses around them. -/
theorem acl_roundTrip (h : acl.Printable) (outfile : Option Text)
    (hold : ∀ old ∈ outfile, old.length ≤ (getAcl acl).length) (junk : Text) :
    setAcl (writtenTo outfile (getAcl acl)) junk = .ok acl.reread := by
  rw [writtenTo_eq hold, setAcl_getAcl h]

/-- An owner with two grants, over nothing and over a shorter file. -/
theorem acl_roundTrip_two :
    setAcl (writtenTo (some "OwnerID 1 me".toList) (getAcl ⟨"1".toList, "me".toList,
      [⟨.canonicalUser "2".toList "you".toList, some .writeACP⟩, ⟨.allUsers, some .read⟩]⟩))
        "junk".toList
      = .ok ⟨"1".toList, "me".toList, [⟨.canonicalUser "2".toList "(you)".toList, some .writeACP⟩,
          ⟨.allUsers, some .read⟩]⟩ := by
  refine acl_roundTrip ⟨⟨by decide, by decide⟩, ⟨by decide, by decide⟩,
    by decide, ?_⟩ _ ?_ _
  · intro grant hgrant
    rcases List.mem_pair.1 hgrant with rfl | rfl
    · exact ⟨⟨by decide, by decide, by decide, by decide⟩, rfl⟩
    · exact ⟨trivial, rfl⟩
  · rintro _ ⟨⟩
    unfold getAcl
    simp

/-- The list one gets where a list is written over another of the same width. -/
theorem writtenTo_getAcl {old new : Acl}
    (hnarrow : ∀ grant ∈ old.aclGrants ++ new.aclGrants, grant.Narrow)
    (howner : old.ownerId.length + old.ownerDisplayName.length
      = new.ownerId.length + new.ownerDisplayName.length) :
    writtenTo (some (getAcl old)) (getAcl new) = getAcl { new with
      aclGrants := new.aclGrants ++ old.aclGrants.drop new.aclGrants.length } := by
  have hlen : (getAcl new).length = (("OwnerID ".toList ++ old.ownerId ++ [' '] ++
      old.ownerDisplayName ++ ['\n']) ++ aclTitles).length + 113 * new.aclGrants.length := by
    have hlines := length_lines_narrow fun grant hgrant =>
      hnarrow grant (List.mem_append_right _ hgrant)
    unfold getAcl
    simp [hlines]
    omega
  have hdrop : (getAcl old).drop (getAcl new).length
      = (old.aclGrants.drop new.aclGrants.length).flatMap S3AclGrant.line := by
    rw [hlen]
    unfold getAcl
    rw [← List.append_assoc, List.drop_length_add_append]
    exact drop_lines (fun grant hgrant => hnarrow grant (List.mem_append_left _ hgrant)) _
  rw [writtenTo, hdrop]
  unfold getAcl
  simp

/-- **Grants of the list that was in the file before are set again.**  A list written by
`s3 getacl` over a longer one of the same widths is read by `s3 setacl` with the grants of the
longer one after its own. -/
theorem acl_stale {old new : Acl} (hold : old.Printable) (hnew : new.Printable)
    (hnarrow : ∀ grant ∈ old.aclGrants ++ new.aclGrants, grant.Narrow)
    (howner : old.ownerId.length + old.ownerDisplayName.length
      = new.ownerId.length + new.ownerDisplayName.length) (junk : Text) :
    setAcl (writtenTo (some (getAcl old)) (getAcl new)) junk = .ok (Acl.reread { new with
      aclGrants := new.aclGrants ++ old.aclGrants.drop new.aclGrants.length }) := by
  have hmerged : Acl.Printable { new with
      aclGrants := new.aclGrants ++ old.aclGrants.drop new.aclGrants.length } := by
    refine ⟨hnew.ownerId, hnew.ownerDisplayName, ?_, fun grant hgrant => ?_⟩
    · have hcount := hold.count
      have hcount' := hnew.count
      change (_ ++ _ : List S3AclGrant).length ≤ _
      rw [List.length_append, List.length_drop]
      omega
    · rcases List.mem_append.1 hgrant with hgrant | hgrant
      · exact hnew.grants grant hgrant
      · exact hold.grants grant (List.mem_of_mem_drop hgrant)
  rw [writtenTo_getAcl hnarrow howner, setAcl_getAcl hmerged]

/-- A grant to all users, taken back: it is still in the file, and set again. -/
theorem acl_stale_public :
    setAcl (writtenTo
      (some (getAcl ⟨"1".toList, "me".toList,
        [⟨.allAwsUsers, some .read⟩, ⟨.allUsers, some .fullControl⟩]⟩))
      (getAcl ⟨"1".toList, "me".toList, [⟨.allAwsUsers, some .read⟩]⟩)) []
      = .ok ⟨"1".toList, "me".toList,
          [⟨.allAwsUsers, some .read⟩, ⟨.allUsers, some .fullControl⟩]⟩ := by
  have hold : Acl.Printable ⟨"1".toList, "me".toList,
      [⟨.allAwsUsers, some .read⟩, ⟨.allUsers, some .fullControl⟩]⟩ := by
    refine ⟨⟨by decide, by decide⟩, ⟨by decide, by decide⟩, by decide, ?_⟩
    intro grant hgrant
    rcases List.mem_pair.1 hgrant with rfl | rfl <;> exact ⟨trivial, rfl⟩
  have hnew : Acl.Printable ⟨"1".toList, "me".toList, [⟨.allAwsUsers, some .read⟩]⟩ := by
    refine ⟨⟨by decide, by decide⟩, ⟨by decide, by decide⟩, by decide, ?_⟩
    intro grant hgrant
    rw [List.mem_singleton.1 hgrant]
    exact ⟨trivial, rfl⟩
  refine acl_stale hold hnew ?_ rfl []
  intro grant hgrant
  simp only [List.cons_append, List.nil_append, List.mem_cons, List.not_mem_nil, or_false] at hgrant
  rcases hgrant with rfl | rfl | rfl <;> simp [S3AclGrant.Narrow, Grantee.columns]

/-- `get_logging` writes the lines of the grants as it shows them. -/
theorem getLogging_eq (aclGrants : List S3AclGrant) :
    getLogging aclGrants
      = aclTitles ++ (aclGrants.map S3AclGrant.logged).flatMap S3AclGrant.line := by
  have hline : ∀ grant : S3AclGrant, aclLine grant.grantee.loggingColumns.1
      grant.grantee.loggingColumns.2 (permissionText grant.permission) = grant.logged.line := by
    rintro ⟨grantee, permission⟩
    cases grantee <;> rfl
  rw [getLogging, List.flatMap_map]
  simp only [hline]

/-- **Grants to log delivery come back as grants to all users.**  A list of grants written by
`s3 getlogging` to a file that did not exist or was not longer is read from it by `s3 setlogging`
with all users for log delivery, and with parentheses around display names. -/
theorem logging_roundTrip {aclGrants : List S3AclGrant}
    (h : ∀ grant ∈ aclGrants, grant.grantee.Printable ∧ grant.permission.isSome)
    (hcount : aclGrants.length ≤ S3_MAX_ACL_GRANT_COUNT) (outfile : Option Text)
    (hold : ∀ old ∈ outfile, old.length ≤ (getLogging aclGrants).length) (junk : Text) :
    setLogging (writtenTo outfile (getLogging aclGrants)) junk
      = .ok (aclGrants.map fun grant => grant.logged.reread) := by
  have hlogged : ∀ grant ∈ aclGrants.map S3AclGrant.logged,
      grant.grantee.Printable ∧ grant.permission.isSome := by
    intro grant hgrant
    obtain ⟨⟨grantee, permission⟩, hmem, rfl⟩ := List.mem_map.1 hgrant
    have hprintable := h _ hmem
    cases grantee <;> exact hprintable
  have hlines := length_lines_le hlogged
  rw [List.length_map] at hlines
  have hmax := hcount
  rw [S3_MAX_ACL_GRANT_COUNT] at hmax
  have hlen : (getLogging aclGrants).length < 65536 := by
    rw [getLogging_eq, List.length_append, length_aclTitles]
    omega
  have htable := convertLoop_table ⟨[], [], []⟩ hlogged
    (by rw [List.length_nil, Nat.zero_add, List.length_map]; exact hcount)
    (by rw [List.length_map]; omega : (aclGrants.map S3AclGrant.logged).length + 2 < 65537) junk
  rw [writtenTo_eq hold, setLogging, setAcl_of_length hlen, convertSimpleAcl, getLogging_eq, htable]
  simp [Except.map]

/-- A bucket whose logs may be written for delivery. -/
theorem logging_roundTrip_delivery :
    setLogging (writtenTo none (getLogging
      [⟨.logDelivery, some .write⟩, ⟨.amazonCustomerByEmail "a@b".toList, some .readACP⟩])) []
      = .ok [⟨.allUsers, some .write⟩, ⟨.amazonCustomerByEmail "a@b".toList, some .readACP⟩] := by
  refine logging_roundTrip ?_ (by decide) none (fun _ h => nomatch h) []
  intro grant hgrant
  rcases List.mem_pair.1 hgrant with rfl | rfl
  · exact ⟨trivial, rfl⟩
  · exact ⟨⟨by decide, by decide⟩, rfl⟩

end CloudFS.S3
