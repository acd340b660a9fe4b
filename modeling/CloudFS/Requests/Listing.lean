import CloudFS.Client.Cloud
import Mathlib.Data.List.Basic
import Mathlib.Order.Basic
import Mathlib.Data.Char
import Mathlib.Data.List.Lex

/-!
# Requests/Listing — the pages of a bucket listing

`cloud_list_bucket` asks for the keys after a marker until a page is the last one, the marker being
the last key of the page before.  The first marker is a null string printed into the buffer, and the
buffer has no room for the longest keys.  So the listing is complete exactly when no key comes
before what a null string prints as, and no page but the last ends in a key of 1024 bytes
(`listsAll_iff`).
-/

namespace CloudFS

open Posix

/-! ## The listing -/

/-- What a null string is printed as. -/
def nullText : Name := ['(', 'n', 'u', 'l', 'l', ')']

/-- What `snprintf(buf, n, "%s", s)` leaves in the buffer. -/
def snprintfString (n : ℕ) (s : Option Name) : Name := (s.getD nullText).take (n - 1)

/-- `list_bucket_callback_data`, with the keys the filler was called on. -/
structure ListBucketCallbackData where
  isTruncated : Bool
  nextMarker : Name
  listed : List Name

/-- `listBucketCallback`. -/
def listBucketCallback (isTruncated : Bool) (nextMarker : Option Name) (contents : List Name)
    (data : ListBucketCallbackData) : ListBucketCallbackData :=
  let nextMarker :=
    if nextMarker.getD [] = [] ∧ contents ≠ [] then contents.getLast? else nextMarker
  { isTruncated := isTruncated
    nextMarker := match nextMarker with
      | some m => snprintfString 1024 (some m)
      | none => []
    listed := data.listed ++ contents }

/-- The answer to a request for a page: served with at most so many keys, or failed. -/
inductive ListAnswer
  | served (size : ℕ)
  | failed (e : S3Failure)

/-- `S3_list_bucket`: the first keys after the marker, at least one if there is one, and whether
there are more. -/
def s3ListBucket (keys : List Name) (size : ℕ) (marker : Name) : Bool × List Name :=
  let rest := keys.filter (marker < ·)
  (decide (max 1 size < rest.length), rest.take (max 1 size))

/-- The loop of `cloud_list_bucket`; `none` if it makes more than `fuel` requests. -/
def listPages (keys : List Name) : (ℕ → ListAnswer) → ℕ → ListBucketCallbackData →
    Option (S3Status × List Name)
  | _, 0, _ => none
  | answers, fuel + 1, data =>
    match answers 0 with
    | .failed e => some (.failed e, data.listed)
    | .served size =>
      let page := s3ListBucket keys size data.nextMarker
      let data := listBucketCallback page.1 none page.2 data
      if data.isTruncated then listPages keys (fun n => answers (n + 1)) fuel data
      else some (.ok, data.listed)

/-- `cloud_list_bucket`: the status and the keys the filler was called on. -/
def cloudListBucket (keys : List Name) (answers : ℕ → ListAnswer) (fuel : ℕ) :
    Option (S3Status × List Name) :=
  listPages keys answers fuel ⟨false, snprintfString 1024 none, []⟩

/-- The keys of a bucket, in ascending order. -/
structure BucketKeys where
  keys : List Name
  ascending : keys.Pairwise (· < ·)
  named : ∀ k ∈ keys, 1 ≤ k.length ∧ k.length ≤ 1024

/-- **The listing ends and passes every key to the filler once, in ascending order.** -/
def ListsAll (keys : List Name) (sizes : ℕ → ℕ) : Prop :=
  ∃ fuel, cloudListBucket keys (fun n => .served (sizes n)) fuel = some (.ok, keys)

/-- The number of keys up to the end of page `i`, counted from 0. -/
def pageEnd : (ℕ → ℕ) → ℕ → ℕ
  | sizes, 0 => max 1 (sizes 0)
  | sizes, i + 1 => max 1 (sizes 0) + pageEnd (fun n => sizes (n + 1)) i

/-- No page but the last ends in a key the marker has no room for. -/
def PagesFit (sizes : ℕ → ℕ) (keys : List Name) : Prop :=
  ∀ i, pageEnd sizes i < keys.length → ∀ k, keys[pageEnd sizes i - 1]? = some k → k.length < 1024

variable {keys done rest r : List Name} {data : ListBucketCallbackData} {sizes : ℕ → ℕ} {k : Name}
  {fuel : ℕ} {st : S3Status}

/-! ## Keys after a marker -/

/-- What follows an element of an ascending list. -/
theorem filter_lt_of_ascending {α : Type*} [Preorder α] [DecidableLT α] {done rest : List α} {x : α}
    (h : (done ++ x :: rest).Pairwise (· < ·)) : (done ++ x :: rest).filter (x < ·) = rest := by
  obtain ⟨-, hr, hdx⟩ := List.pairwise_append.1 h
  obtain ⟨hx, -⟩ := List.pairwise_cons.1 hr
  have hd : done.filter (x < ·) = [] :=
    List.filter_eq_nil_iff.2 fun y hy => by simpa using lt_asymm (hdx y hy x List.mem_cons_self)
  rw [List.filter_append, hd, List.nil_append, List.filter_cons_of_neg (by simp)]
  exact List.filter_eq_self.2 fun y hy => by simpa using hx y hy

/-- A name cut short comes before the name. -/
theorem take_lt {n : ℕ} (h : n < k.length) : k.take n < k := by
  induction k generalizing n with
  | nil => exact absurd h (Nat.not_lt_zero _)
  | cons c k ih =>
    cases n with
    | zero => exact List.Lex.nil
    | succ n => exact List.Lex.cons (ih (Nat.lt_of_succ_lt_succ h))

/-! ## One page -/

/-- The marker a page leaves. -/
theorem nextMarker_listBucketCallback (b : Bool) (h : rest ≠ []) :
    (listBucketCallback b none rest data).nextMarker = (rest.getLast h).take 1023 := by
  simp [listBucketCallback, h, List.getLast?_eq_some_getLast h, snprintfString]

/-- **One request**: the keys after the marker are listed as far as the page goes. -/
theorem listPages_succ (hrest : keys.filter (data.nextMarker < ·) = rest) (sizes : ℕ → ℕ)
    (fuel : ℕ) :
    listPages keys (fun n => .served (sizes n)) (fuel + 1) data =
      if max 1 (sizes 0) < rest.length then
        listPages keys (fun n => .served (sizes (n + 1))) fuel
          (listBucketCallback true none (rest.take (max 1 (sizes 0))) data)
      else some (.ok, data.listed ++ rest) := by
  rw [listPages]
  simp only [s3ListBucket, hrest]
  by_cases hk : max 1 (sizes 0) < rest.length
  · simp [listBucketCallback, hk]
  · rw [if_neg hk, decide_eq_false hk, List.take_of_length_le (Nat.not_lt.1 hk)]
    rfl

/-- What was listed stays listed, and the first key after the marker comes next. -/
theorem prefix_listed (answers : ℕ → ListAnswer)
    (h : listPages keys answers fuel data = some (st, r)) :
    data.listed <+: r := by
  induction fuel generalizing answers data with
  | zero => exact absurd h (by simp [listPages])
  | succ fuel ih =>
    rw [listPages] at h
    split at h
    case h_1 e _ =>
      obtain ⟨-, rfl⟩ := Prod.mk.inj (Option.some.inj h)
      exact List.prefix_rfl
    case h_2 size _ =>
      have hl : data.listed <+: (listBucketCallback (s3ListBucket keys size data.nextMarker).1 none
          (s3ListBucket keys size data.nextMarker).2 data).listed := List.prefix_append _ _
      dsimp only at h
      split at h
      case isTrue => exact hl.trans (ih _ h)
      case isFalse =>
        obtain ⟨-, rfl⟩ := Prod.mk.inj (Option.some.inj h)
        exact hl

/-- The first key after the marker is the next to be listed. -/
theorem listed_next (hrest : keys.filter (data.nextMarker < ·) = k :: rest)
    (h : listPages keys (fun n => .served (sizes n)) fuel data = some (st, r)) :
    data.listed ++ [k] <+: r := by
  cases fuel with
  | zero => exact absurd h (by simp [listPages])
  | succ fuel =>
    rw [listPages_succ hrest] at h
    split at h
    case isTrue =>
      refine List.IsPrefix.trans ?_ (prefix_listed _ h)
      obtain ⟨m, hm⟩ := Nat.exists_eq_add_of_le (le_max_left 1 (sizes 0))
      rw [hm, Nat.add_comm, List.take_succ_cons]
      exact (List.prefix_append_right_inj _).2 (List.prefix_append [k] _)
    case isFalse =>
      obtain ⟨-, rfl⟩ := Prod.mk.inj (Option.some.inj h)
      exact (List.prefix_append_right_inj _).2 (List.prefix_append [k] _)

/-! ## All pages -/

theorem one_le_pageEnd (sizes : ℕ → ℕ) (i : ℕ) : max 1 (sizes 0) ≤ pageEnd sizes i := by
  cases i with
  | zero => exact le_rfl
  | succ i => exact Nat.le_add_right _ _

/-- Whether the pages fit, by the first of them. -/
theorem pagesFit_iff (h : max 1 (sizes 0) < rest.length) :
    PagesFit sizes rest ↔ (∀ k, rest[max 1 (sizes 0) - 1]? = some k → k.length < 1024) ∧
      PagesFit (fun n => sizes (n + 1)) (rest.drop (max 1 (sizes 0))) := by
  have hpos : ∀ i, 1 ≤ pageEnd (fun n => sizes (n + 1)) i := fun i =>
    (le_max_left _ _).trans (one_le_pageEnd _ i)
  have hget : ∀ i, (rest.drop (max 1 (sizes 0)))[pageEnd (fun n => sizes (n + 1)) i - 1]?
      = rest[pageEnd sizes (i + 1) - 1]? := by
    intro i
    rw [List.getElem?_drop, pageEnd, Nat.add_sub_assoc (hpos i)]
  constructor
  · refine fun hf => ⟨hf 0 h, fun i hi k hk => hf (i + 1) ?_ k ((hget i).symm.trans hk)⟩
    rw [List.length_drop] at hi
    rw [pageEnd]
    omega
  · rintro ⟨h0, hf⟩ i hi k hk
    cases i with
    | zero => exact h0 k hk
    | succ i =>
      refine hf i ?_ k ((hget i).trans hk)
      rw [List.length_drop]
      rw [pageEnd] at hi
      omega

/-- A key the marker has no room for is listed again, so what follows it is not listed in order. -/
theorem not_listed_of_long {back : List Name} (hasc : (done ++ k :: back).Pairwise (· < ·))
    (hlong : 1023 < k.length) (hlisted : data.listed = done ++ [k])
    (hmarker : data.nextMarker = k.take 1023) :
    listPages (done ++ k :: back) (fun n => .served (sizes n)) fuel data
      ≠ some (st, done ++ k :: back) := by
  intro h
  have hmem : k ∈ (done ++ k :: back).filter (data.nextMarker < ·) := by
    rw [hmarker]
    exact List.mem_filter.2 ⟨by simp, by simpa using take_lt hlong⟩
  cases hf : (done ++ k :: back).filter (data.nextMarker < ·) with
  | nil =>
    rw [hf] at hmem
    exact absurd hmem (by simp)
  | cons x xs =>
    have hnext := listed_next hf h
    have hback : x ∈ back := by
      rw [hlisted, List.append_assoc, List.prefix_append_right_inj, List.singleton_append] at hnext
      exact (List.prefix_cons_inj k).1 hnext |>.subset List.mem_cons_self
    have hkx : k < x := (List.pairwise_cons.1 (List.pairwise_append.1 hasc).2.1).1 x hback
    have hsorted := hasc.sublist (List.filter_sublist (p := (data.nextMarker < ·)))
    rw [hf] at hmem hsorted
    rcases List.mem_cons.1 hmem with rfl | hxs
    · exact lt_irrefl _ hkx
    · exact lt_asymm hkx ((List.pairwise_cons.1 hsorted).1 k hxs)

/-- The key a page that is not the last ends in. -/
theorem exists_page (hk : max 1 (sizes 0) < rest.length) :
    ∃ front k back, rest = front ++ k :: back ∧ max 1 (sizes 0) = front.length + 1 := by
  obtain ⟨n, hn⟩ := Nat.exists_eq_add_of_le' (le_max_left 1 (sizes 0))
  have hlt : n < rest.length := by omega
  refine ⟨rest.take n, rest[n], rest.drop (n + 1), ?_, ?_⟩
  · rw [List.getElem_cons_drop, List.take_append_drop]
  · rw [hn, List.length_take_of_le hlt.le]

/-- Whether the pages fit, by the key the first of them ends in. -/
theorem pagesFit_page {front back : List Name} (hn : max 1 (sizes 0) = front.length + 1)
    (hback : back ≠ []) : PagesFit sizes (front ++ k :: back) ↔
      k.length < 1024 ∧ PagesFit (fun n => sizes (n + 1)) back := by
  have hlt : max 1 (sizes 0) < (front ++ k :: back).length := by
    have hpos := List.length_pos_of_ne_nil hback
    rw [hn, List.length_append, List.length_cons]
    omega
  have hdrop : (front ++ k :: back).drop (front.length + 1) = back := by
    rw [List.drop_length_add_append]
    rfl
  have hget : (front ++ k :: back)[front.length + 1 - 1]? = some k := by
    rw [Nat.add_sub_cancel, List.getElem?_append_right le_rfl, Nat.sub_self]
    rfl
  rw [pagesFit_iff hlt, hn, hdrop, hget]
  refine and_congr_left fun _ => ⟨fun h => h k rfl, fun h j hj => ?_⟩
  rwa [← Option.some.inj hj]

/-- A page that is not the last, then the pages after it. -/
theorem listPages_page {front back : List Name}
    (hrest : keys.filter (data.nextMarker < ·) = front ++ k :: back)
    (hn : max 1 (sizes 0) = front.length + 1) (hback : back ≠ []) :
    (∃ fuel, listPages keys (fun n => .served (sizes n)) fuel data = some (.ok, r)) ↔
      ∃ fuel, listPages keys (fun n => .served (sizes (n + 1))) fuel
        (listBucketCallback true none (front ++ [k]) data) = some (.ok, r) := by
  have hlt : max 1 (sizes 0) < (front ++ k :: back).length := by
    have hpos := List.length_pos_of_ne_nil hback
    rw [hn, List.length_append, List.length_cons]
    omega
  have hpage : (front ++ k :: back).take (max 1 (sizes 0)) = front ++ [k] := by
    rw [hn, List.take_length_add_append]
    rfl
  constructor
  · rintro ⟨fuel, h⟩
    cases fuel with
    | zero => exact absurd h (by simp [listPages])
    | succ fuel => exact ⟨fuel, by rwa [listPages_succ hrest, if_pos hlt, hpage] at h⟩
  · rintro ⟨fuel, h⟩
    exact ⟨fuel + 1, by rwa [listPages_succ hrest, if_pos hlt, hpage]⟩

/-- **The pages that are left are listed exactly when they fit** — the induction is on the keys
that are left, which are those after the marker. -/
theorem listPages_iff (hasc : (done ++ rest).Pairwise (· < ·))
    (hlen : ∀ k ∈ rest, k.length ≤ 1024) (hlisted : data.listed = done)
    (hrest : (done ++ rest).filter (data.nextMarker < ·) = rest) :
    (∃ fuel, listPages (done ++ rest) (fun n => .served (sizes n)) fuel data
      = some (.ok, done ++ rest)) ↔ PagesFit sizes rest := by
  induction hm : rest.length using Nat.strong_induction_on generalizing done rest data sizes with
  | _ m ih =>
    subst hm
    by_cases hk : max 1 (sizes 0) < rest.length
    · obtain ⟨front, k, back, rfl, hn⟩ := exists_page hk
      have hback : back ≠ [] := by
        rintro rfl
        rw [hn, List.length_append, List.length_singleton] at hk
        exact lt_irrefl _ hk
      have hwhole : done ++ (front ++ k :: back) = (done ++ front ++ [k]) ++ back := by simp
      have hmarker : (listBucketCallback true none (front ++ [k]) data).nextMarker
          = k.take 1023 := by
        rw [nextMarker_listBucketCallback true (by simp), List.getLast_append_singleton]
      have hlisted' : (listBucketCallback true none (front ++ [k]) data).listed
          = done ++ front ++ [k] := by
        rw [listBucketCallback, hlisted, List.append_assoc]
      have hkl : k.length ≤ 1024 := hlen k (by simp)
      rw [listPages_page hrest hn hback, pagesFit_page hn hback]
      by_cases hlong : k.length < 1024
      · rw [List.take_of_length_le (by omega)] at hmarker
        have hafter : (done ++ front ++ [k] ++ back).filter
            ((listBucketCallback true none (front ++ [k]) data).nextMarker < ·) = back := by
          rw [hmarker, List.append_assoc, List.singleton_append]
          rw [← List.append_assoc] at hasc
          exact filter_lt_of_ascending hasc
        have hback' : back.length < (front ++ k :: back).length := by
          rw [List.length_append, List.length_cons]
          omega
        rw [hwhole] at hasc ⊢
        rw [ih back.length hback' hasc (fun j hj => hlen j (by simp [hj])) hlisted' hafter rfl]
        exact (and_iff_right hlong).symm
      · refine iff_of_false ?_ fun h => hlong h.1
        rintro ⟨fuel, h⟩
        rw [← List.append_assoc] at h hasc
        exact not_listed_of_long hasc (by omega) hlisted' hmarker h
    · refine iff_of_true ⟨1, ?_⟩ fun i hi => absurd (one_le_pageEnd sizes i) (by omega)
      rw [listPages_succ hrest, if_neg hk, hlisted]

/-- **A listing is complete exactly when** no key comes before what a null string prints as, and no
page but the last ends in a key of 1024 bytes. -/
theorem listsAll_iff (b : BucketKeys) (sizes : ℕ → ℕ) :
    ListsAll b.keys sizes ↔ (∀ k ∈ b.keys, nullText < k) ∧ PagesFit sizes b.keys := by
  by_cases hnull : ∀ k ∈ b.keys, nullText < k
  · have hall : b.keys.filter (nullText < ·) = b.keys :=
      List.filter_eq_self.2 fun k hk => by simpa using hnull k hk
    have h : ListsAll b.keys sizes ↔ PagesFit sizes b.keys :=
      @listPages_iff [] b.keys ⟨false, snprintfString 1024 none, []⟩ sizes b.ascending
        (fun k hk => (b.named k hk).2) rfl hall
    exact h.trans (and_iff_right hnull).symm
  · refine iff_of_false ?_ fun h => hnull h.1
    rintro ⟨fuel, h⟩
    simp only [not_forall] at hnull
    obtain ⟨k, hk, hle⟩ := hnull
    cases hf : b.keys.filter (nullText < ·) with
    | nil =>
      cases fuel with
      | zero => exact absurd h (by simp [cloudListBucket, listPages])
      | succ fuel =>
        rw [cloudListBucket, listPages_succ hf, if_neg (by simp)] at h
        have hnil : [] = b.keys := congrArg Prod.snd (Option.some.inj h)
        rw [← hnil] at hk
        exact absurd hk (by simp)
    | cons x xs =>
      have hx : x ∈ b.keys.filter (nullText < ·) := hf ▸ List.mem_cons_self
      have hnx : nullText < x := by simpa using (List.mem_filter.1 hx).2
      obtain ⟨tl, htl⟩ := listed_next hf h
      have hasc := b.ascending
      rw [← htl] at hk hasc
      rcases List.mem_cons.1 hk with rfl | hmem
      · exact hle hnx
      · exact hle (hnx.trans ((List.pairwise_cons.1 hasc).1 k hmem))

/-- The keys of two files. -/
def twoKeys : BucketKeys := ⟨[['+', 'a'], ['+', 'b']], by decide, by decide⟩

/-- They are listed in two pages. -/
theorem listsAll_iff_two : ListsAll twoKeys.keys fun _ => 1 := by
  refine (listsAll_iff twoKeys fun _ => 1).2 ⟨by decide, fun i _ k hk => ?_⟩
  exact (show ∀ k ∈ twoKeys.keys, k.length < 1024 by decide) k (List.mem_of_getElem? hk)

/-- **A key that comes before what a null string prints as is never passed to the filler.** -/
theorem listing_misses_key :
    (∀ k ∈ [['!']], 1 ≤ List.length k ∧ List.length k ≤ 1024) ∧
      cloudListBucket [['!']] (fun _ => .served 1) 1 = some (.ok, []) ∧
      ¬ ListsAll [['!']] fun _ => 1 := by
  have hnone : [['!']].filter (snprintfString 1024 none < ·) = [] := by decide
  refine ⟨by decide, by decide, ?_⟩
  rintro ⟨fuel, h⟩
  cases fuel with
  | zero => exact absurd h (by simp [cloudListBucket, listPages])
  | succ fuel =>
    rw [cloudListBucket, listPages_succ hnone, if_neg (by simp)] at h
    exact absurd h (by decide)

end CloudFS
