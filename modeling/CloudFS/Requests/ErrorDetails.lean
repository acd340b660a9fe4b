import CloudFS.Client.Cloud
import CloudFS.Machinery.CInt
import Mathlib.Algebra.BigOperators.Group.List.Basic
import Mathlib.Algebra.BigOperators.Ring.Finset
import Mathlib.Algebra.Order.BigOperators.Group.List
import Mathlib.Algebra.Order.Group.Int

/-!
# Requests/ErrorDetails — the details of a failed request

`responseCompleteCallback` prints the details of an error one after the other into a buffer of 4096
bytes.  It moves on by what `snprintf` returns, which is the length of the text and not of what was
stored of it, so it stays in the buffer exactly when the texts before the last one do
(`errorDetails_iff`): for texts below 2 GiB, when all but the last together have at most 4096 bytes
(`textsFit_iff_of_short`).
-/

namespace CloudFS

open Posix

/-! ## The callback -/

/-- `S3ErrorDetails`; the number of extra details is an `int`. -/
structure S3ErrorDetails where
  message : Option Name
  resource : Option Name
  furtherDetails : Option Name
  extraDetails : List (Name × Name)
  extraDetails_lt : extraDetails.length < 2 ^ 31

/-- `sizeof(errorDetailsG)`. -/
def sizeofErrorDetails : UInt32 := 4096

/-- A call of `snprintf`: where in the buffer it stores, how many bytes at most, and what text. -/
structure Snprintf where
  offset : Int32
  size : UInt32
  text : Name

/-- What `snprintf` returns for a text: its length, or `-1` if no `int` holds that. -/
def returned (text : Name) : ℤ := if text.length < 2 ^ 31 then text.length else -1

/-- The bytes a call stores: of the text and its terminator as many as there is room for. -/
def Snprintf.stored (s : Snprintf) : ℕ := min (s.text.length + 1) s.size.toNat

/-- The calls made so far, and `len`. -/
structure Printed where
  len : Int32
  calls : List Snprintf

/-- `len += snprintf(&errorDetailsG[len], sizeof(errorDetailsG) - len, …)`. -/
def Printed.print (d : Printed) (text : Name) : Printed :=
  ⟨d.len + Int32.ofInt (returned text),
    d.calls ++ [⟨d.len, sizeofErrorDetails - d.len.toUInt32, text⟩]⟩

/-- A field of the error, if it is there, printed after its label. -/
def Printed.printField (label : Name) (field : Option Name) (d : Printed) : Printed :=
  match field with
  | some s => d.print (label ++ s ++ ['\n'])
  | none => d

/-- `responseCompleteCallback`: what is left in `statusG`, and the calls that print the details. -/
def responseCompleteCallback (status : S3Status) (error : Option S3ErrorDetails) :
    S3Status × List Snprintf :=
  match error with
  | none => (status, [])
  | some error =>
    let d : Printed := ⟨0, []⟩
    let d := d.printField "  Message: ".toList error.message
    let d := d.printField "  Resource: ".toList error.resource
    let d := d.printField "  Further Details: ".toList error.furtherDetails
    let d := if error.extraDetails = [] then d else
      error.extraDetails.foldl
        (fun d x => d.print ("    ".toList ++ x.1 ++ ": ".toList ++ x.2 ++ ['\n']))
        (d.print "  Extra Details:\n".toList)
    (status, d.calls)

/-- The text of a field, if it is there. -/
def fieldText (label : Name) (field : Option Name) : List Name :=
  (field.map fun s => label ++ s ++ ['\n']).toList

/-- The texts of an error, in the order they are printed. -/
def S3ErrorDetails.texts (error : S3ErrorDetails) : List Name :=
  fieldText "  Message: ".toList error.message ++
    fieldText "  Resource: ".toList error.resource ++
    fieldText "  Further Details: ".toList error.furtherDetails ++
    if error.extraDetails = [] then [] else "  Extra Details:\n".toList ::
      error.extraDetails.map fun x => "    ".toList ++ x.1 ++ ": ".toList ++ x.2 ++ ['\n']

/-- **A call keeps to the buffer**: it starts in it, its size is that of what is left from there
on, and it stores nothing outside. -/
structure Snprintf.InBuffer (s : Snprintf) : Prop where
  nonneg : 0 ≤ s.offset.toInt
  le : s.offset.toInt ≤ 4096
  size : (s.size.toNat : ℤ) = 4096 - s.offset.toInt
  stored : s.offset.toInt + s.stored ≤ 4096

/-- What is printed before any one text leaves room: the running total of what `snprintf` returned
for the texts before it is an offset in the buffer. -/
def TextsFit (texts : List Name) : Prop :=
  ∀ n < texts.length, 0 ≤ ((texts.take n).map returned).sum ∧
    ((texts.take n).map returned).sum ≤ 4096

/-! ## Staying in the buffer -/

variable {texts : List Name} {len : Int32}

/-- The calls that print the texts from offset `len` on. -/
def snprintfs : Int32 → List Name → List Snprintf
  | _, [] => []
  | len, t :: ts =>
    ⟨len, sizeofErrorDetails - len.toUInt32, t⟩ :: snprintfs (len + Int32.ofInt (returned t)) ts

theorem calls_foldl_print (texts : List Name) (d : Printed) :
    (texts.foldl Printed.print d).calls = d.calls ++ snprintfs d.len texts := by
  induction texts generalizing d with
  | nil => rw [List.foldl_nil, snprintfs, List.append_nil]
  | cons t ts ih =>
    rw [List.foldl_cons, ih, snprintfs, Printed.print, List.append_assoc, List.singleton_append]

theorem printField_eq (label : Name) (field : Option Name) (d : Printed) :
    d.printField label field = (fieldText label field).foldl Printed.print d := by
  cases field <;> rfl

/-- The callback prints the texts one after the other. -/
theorem responseCompleteCallback_some (status : S3Status) (error : S3ErrorDetails) :
    responseCompleteCallback status (some error) = (status, snprintfs 0 error.texts) := by
  have h := calls_foldl_print error.texts ⟨0, []⟩
  rw [List.nil_append] at h
  rw [← h, S3ErrorDetails.texts]
  simp only [responseCompleteCallback, printField_eq, List.foldl_append]
  split
  case isTrue => rfl
  case isFalse => rw [List.foldl_cons, List.foldl_map]

/-- A call keeps to the buffer as soon as it starts in it. -/
theorem inBuffer_iff (len : Int32) (t : Name) :
    Snprintf.InBuffer ⟨len, sizeofErrorDetails - len.toUInt32, t⟩ ↔
      0 ≤ len.toInt ∧ len.toInt ≤ 4096 := by
  refine ⟨fun h => ⟨h.nonneg, h.le⟩, fun ⟨h0, h1⟩ => ?_⟩
  obtain ⟨n, hn, rfl, hlen⟩ := Int32.exists_ofNat_of_nonneg h0
  have hle : n ≤ 4096 := by omega
  have hsize : (sizeofErrorDetails - (Int32.ofNat n).toUInt32).toNat = 4096 - n := by
    rw [UInt32.toNat_sub_of_le, Int32.toNat_toUInt32_ofNat hn]
    · rfl
    · rw [UInt32.le_iff_toNat_le, Int32.toNat_toUInt32_ofNat hn]
      exact hle
  refine ⟨h0, h1, ?_, ?_⟩
  · rw [hsize, hlen]
    omega
  · rw [Snprintf.stored, hsize, hlen]
    omega

theorem toInt_ofInt_returned (t : Name) : (Int32.ofInt (returned t)).toInt = returned t := by
  rw [returned]
  split
  case isTrue h => exact Int32.toInt_ofInt_of_le (by omega) (by omega)
  case isFalse => rfl

/-- **The calls from an offset on keep to the buffer exactly when** the offset and what is added to
it before each text stay in it.  The induction is on the texts: the offset of the next one is in the
buffer exactly when the sum is. -/
theorem snprintfs_inBuffer_iff (len : Int32) (texts : List Name) :
    (∀ s ∈ snprintfs len texts, s.InBuffer) ↔
      ∀ n < texts.length, 0 ≤ len.toInt + ((texts.take n).map returned).sum ∧
        len.toInt + ((texts.take n).map returned).sum ≤ 4096 := by
  induction texts generalizing len with
  | nil => simp [snprintfs]
  | cons t ts ih =>
    have hsplit : (∀ n < (t :: ts).length,
        0 ≤ len.toInt + (((t :: ts).take n).map returned).sum ∧
          len.toInt + (((t :: ts).take n).map returned).sum ≤ 4096) ↔
        (0 ≤ len.toInt ∧ len.toInt ≤ 4096) ∧ ∀ n < ts.length,
          0 ≤ len.toInt + returned t + ((ts.take n).map returned).sum ∧
            len.toInt + returned t + ((ts.take n).map returned).sum ≤ 4096 := by
      constructor
      · refine fun h => ⟨by simpa using h 0 (Nat.succ_pos _), fun n hn => ?_⟩
        simpa [add_assoc] using h (n + 1) (Nat.succ_lt_succ hn)
      · rintro ⟨h0, h⟩ n hn
        cases n with
        | zero => simpa using h0
        | succ n => simpa [add_assoc] using h n (Nat.lt_of_succ_lt_succ hn)
    rw [snprintfs, List.forall_mem_cons, inBuffer_iff, ih, hsplit]
    refine and_congr_right fun ⟨h0, h1⟩ => ?_
    have hnext := Int32.toInt_add_mem_iff (y := Int32.ofInt (returned t)) h0 h1 (by decide)
    rw [toInt_ofInt_returned] at hnext
    -- in range the next offset is the sum; out of it no text may follow
    by_cases hin : 0 ≤ len.toInt + returned t ∧ len.toInt + returned t ≤ 4096
    · have heq : (len + Int32.ofInt (returned t)).toInt = len.toInt + returned t := by
        rw [Int32.toInt_add, toInt_ofInt_returned]
        exact Int.bmod_eq_of_le (by omega) (by omega)
      rw [heq]
    · cases ts with
      | nil => simp
      | cons u us =>
        refine iff_of_false (fun h => hin (hnext.1 ?_)) fun h => hin ?_
        · simpa using h 0 (Nat.succ_pos _)
        · simpa using h 0 (Nat.succ_pos _)

/-- For texts an `int` holds the lengths of, those before the last one have to fit. -/
theorem textsFit_iff_of_short (h : ∀ t ∈ texts, List.length t < 2 ^ 31) :
    TextsFit texts ↔ (texts.dropLast.map List.length).sum ≤ 4096 := by
  have hsum : ∀ n, ((texts.take n).map returned).sum
      = (((texts.take n).map List.length).sum : ℕ) := by
    intro n
    have hmap : (texts.take n).map returned = ((texts.take n).map List.length).map Nat.cast := by
      rw [List.map_map]
      exact List.map_congr_left fun t ht => if_pos (h t (List.take_subset n _ ht))
    rw [hmap, Nat.cast_list_sum]
  rw [List.dropLast_eq_take]
  constructor
  · intro hf
    cases texts with
    | nil => simp
    | cons t ts =>
      have hlast := (hf ((t :: ts).length - 1) (Nat.sub_lt (Nat.succ_pos _) Nat.one_pos)).2
      rw [hsum] at hlast
      exact_mod_cast hlast
  · intro hle n hn
    have hsub : (texts.take n).Sublist (texts.take (texts.length - 1)) :=
      (List.take_prefix_take_left (Nat.le_sub_one_of_lt hn)).sublist
    have hmono := (hsub.map List.length).sum_le_sum fun _ _ => Nat.zero_le _
    rw [hsum]
    omega

/-- **The details stay in their buffer exactly when** the running total of what `snprintf` returned
is an offset in it before each text, so for all texts but the last one. -/
theorem errorDetails_iff (status : S3Status) (error : Option S3ErrorDetails) :
    (∀ s ∈ (responseCompleteCallback status error).2, s.InBuffer) ↔
      ∀ e, error = some e → TextsFit e.texts := by
  cases error with
  | none => simp [responseCompleteCallback]
  | some e =>
    rw [responseCompleteCallback_some, snprintfs_inBuffer_iff]
    simp [TextsFit]

/-- An error with a message of 4085 bytes and an empty resource. -/
def longMessage : S3ErrorDetails :=
  ⟨some (List.replicate 4085 'x'), some [], none, [], by decide⟩

/-- **The text after a long message is stored past the end of the buffer**, with all the room the
subtraction wraps to. -/
theorem longMessage_overruns :
    ⟨4097, 0xFFFFFFFF, "  Resource: \n".toList⟩
        ∈ (responseCompleteCallback .ok (some longMessage)).2 ∧
      ¬ ∀ s ∈ (responseCompleteCallback .ok (some longMessage)).2, s.InBuffer := by
  have hret : returned ("  Message: ".toList ++ List.replicate 4085 'x' ++ ['\n']) = 4097 := by
    have hlen : List.length ("  Message: ".toList ++ List.replicate 4085 'x' ++ ['\n']) = 4097 := by
      rw [List.length_append, List.length_append, List.length_replicate]
      rfl
    rw [returned, hlen, if_pos (by decide)]
    rfl
  have hcalls : ∀ t u, returned t = 4097 →
      ⟨4097, 0xFFFFFFFF, u⟩ ∈ snprintfs 0 [t, u] := by
    intro t u ht
    simp only [snprintfs, ht]
    exact List.mem_cons_of_mem _ (List.mem_singleton.2 rfl)
  have hmem : (⟨4097, 0xFFFFFFFF, "  Resource: \n".toList⟩ : Snprintf)
      ∈ (responseCompleteCallback .ok (some longMessage)).2 := by
    have htexts : longMessage.texts
        = ["  Message: ".toList ++ List.replicate 4085 'x' ++ ['\n'], "  Resource: \n".toList] := by
      simp only [S3ErrorDetails.texts, longMessage, fieldText, Option.map_some, Option.map_none,
        Option.toList_some, Option.toList_none, if_true, List.append_nil]
      rfl
    rw [responseCompleteCallback_some, htexts]
    exact hcalls _ _ hret
  exact ⟨hmem, fun h => absurd (h _ hmem).le (by decide)⟩

end CloudFS
