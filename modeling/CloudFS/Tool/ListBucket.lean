import CloudFS.Machinery.CInt
import CloudFS.Requests.Listing
import CloudFS.Tool.GetObject

/-!
# Tool/ListBucket — `s3 list` of a bucket, in pages, with retries

`list_bucket` of the `s3` tool asks for the keys after a marker until a page is the last one, and
asks again when a request fails and may be retried.  A request may report its keys in several calls
of `listBucketCallback`, and each call moves the marker behind the keys it reported.  So a retry
goes on where the request before it was cut off, and the tool prints every key once, in order
(`list_prints`) — unless the service names a marker itself: then a request that was cut off left the
marker behind keys it had not reported yet, and these are never printed (`list_skips`).

The tool's own callback and its data have the names of the library's in `Requests/Listing`.
-/

namespace CloudFS.S3

open Posix

/-! ## The program -/

/-- A call of `listBucketCallback`; `contentsCount` is the length of `contents`. -/
structure ListCall where
  isTruncated : Bool
  nextMarker : Option Name
  contents : List Name
  commonPrefixes : List Name
  deriving DecidableEq

/-- `list_bucket_callback_data`. -/
structure ListBucketCallbackData where
  isTruncated : Bool
  nextMarker : Name
  keyCount : Int32

/-- What is printed: the header, a key with its properties, or a common prefix. -/
inductive Line
  | header
  | key (k : Name)
  | commonPrefix (p : Name)
  deriving DecidableEq

/-- `listBucketCallback`: what it prints, and the data after it. -/
def listBucketCallback (c : ListCall) (data : ListBucketCallbackData) :
    List Line × ListBucketCallbackData :=
  let nextMarker :=
    if c.nextMarker.getD [] = [] ∧ c.contents ≠ [] then c.contents.getLast? else c.nextMarker
  let header := if c.contents ≠ [] ∧ data.keyCount = 0 then [.header] else []
  (header ++ c.contents.map .key ++ c.commonPrefixes.map .commonPrefix,
    { isTruncated := c.isTruncated
      nextMarker := match nextMarker with
        | some m => snprintfString 1024 (some m)
        | none => []
      keyCount := data.keyCount + Int32.ofNat c.contents.length })

/-- A request of `S3_list_bucket`: the calls it makes, and how it ends. -/
structure ListRequest where
  calls : List ListCall
  status : Status

/-- The calls of one request. -/
def listCalls : List ListCall → ListBucketCallbackData → List Line × ListBucketCallbackData
  | [], data => ([], data)
  | c :: cs, data =>
    let r := listBucketCallback c data
    let s := listCalls cs r.2
    (r.1 ++ s.1, s.2)

/-- Where the requests of `list_bucket` got to: how the last one ended, what was printed, the data,
the retries that are left and the number of requests made. -/
structure ListRun where
  status : Status
  lines : List Line
  data : ListBucketCallbackData
  retriesG : ℕ
  made : ℕ

/-- The inner loop of `list_bucket`: a request for the keys after the marker, made again as long as
it may be and `retriesG` lasts. -/
def listRequests (requests : ℕ → Name → ListRequest) : (retriesG made : ℕ) →
    ListBucketCallbackData → ListRun
  | 0, made, data =>
    let request := requests made data.nextMarker
    let r := listCalls request.calls data
    ⟨request.status, r.1, r.2, 0, made + 1⟩
  | retriesG + 1, made, data =>
    let request := requests made data.nextMarker
    let r := listCalls request.calls data
    if request.status = .failed true then
      let s := listRequests requests retriesG (made + 1) r.2
      { s with lines := r.1 ++ s.lines }
    else ⟨request.status, r.1, r.2, retriesG + 1, made + 1⟩

/-- The outer loop of `list_bucket`; `none` if it takes more than `fuel` turns. -/
def listPages (requests : ℕ → Name → ListRequest) (maxkeys : Int32) : (fuel retriesG made : ℕ) →
    ListBucketCallbackData → Option (Status × List Line × ListBucketCallbackData)
  | 0, _, _, _ => none
  | fuel + 1, retriesG, made, data =>
    let r := listRequests requests retriesG made { data with isTruncated := false }
    if r.status = .ok ∧ r.data.isTruncated = true ∧ (maxkeys = 0 ∨ r.data.keyCount < maxkeys) then
      (listPages requests maxkeys fuel r.retriesG r.made r.data).map fun s =>
        (s.1, r.lines ++ s.2.1, s.2.2)
    else some (r.status, r.lines, r.data)

/-- `list_bucket`: how its last request ended, and what it printed. -/
def listBucket (requests : ℕ → Name → ListRequest) (retriesG : ℕ) (marker : Option Name)
    (maxkeys : Int32) (fuel : ℕ) : Option (Status × List Line) :=
  (listPages requests maxkeys fuel retriesG 0 ⟨false, snprintfString 1024 marker, 0⟩).map fun r =>
    (r.1, r.2.1 ++ if r.1 = .ok ∧ r.2.2.keyCount = 0 then [.header] else [])

/-! ## Markers -/

variable {keys printed rest : List Name} {start : Name} {data : ListBucketCallbackData}

/-- Of the keys after a name, those after a later one. -/
theorem filter_filter_lt {m : Name} (h : start < m) :
    (keys.filter (start < ·)).filter (m < ·) = keys.filter (m < ·) := by
  rw [List.filter_filter]
  refine List.filter_congr fun x _ => ?_
  rw [Bool.eq_iff_iff, Bool.and_eq_true, decide_eq_true_iff, decide_eq_true_iff]
  exact ⟨And.left, fun hx => ⟨hx, h.trans hx⟩⟩

/-- The keys after the last of some are those that follow them. -/
theorem filter_getLast (hasc : keys.Pairwise (· < ·)) {front : List Name} (hfront : front ≠ [])
    (h : keys.filter (start < ·) = front ++ rest) :
    keys.filter (front.getLast hfront < ·) = rest := by
  have hsub : (front ++ rest).Pairwise (· < ·) := h ▸ hasc.sublist List.filter_sublist
  have hsplit : front ++ rest = front.dropLast ++ front.getLast hfront :: rest := by
    rw [List.append_cons, List.dropLast_append_getLast]
  have hstart : start < front.getLast hfront := by
    have hmem : front.getLast hfront ∈ keys.filter (start < ·) := by
      rw [h]
      exact List.mem_append_left _ (List.getLast_mem hfront)
    exact of_decide_eq_true (List.mem_filter.1 hmem).2
  rw [hsplit] at h hsub
  rw [← filter_lt_of_ascending hsub, ← h, filter_filter_lt hstart]

/-- What follows some keys is what comes after a name they do not pass exactly if that name passes
none of it. -/
theorem append_filter_eq_iff (hasc : keys.Pairwise (· < ·)) {front back : List Name} {m : Name}
    (hfront : front ≠ []) (h : keys.filter (start < ·) = front ++ back)
    (hm : ∀ k ∈ front, k ≤ m) :
    front ++ keys.filter (m < ·) = front ++ back ↔ ∀ k ∈ front ++ back, k ≤ m → k ∈ front := by
  have hsub : (front ++ back).Pairwise (· < ·) := h ▸ hasc.sublist List.filter_sublist
  have hstart : start < m := by
    obtain ⟨k, hk⟩ := List.exists_mem_of_ne_nil _ hfront
    have hmem : k ∈ keys.filter (start < ·) := h ▸ List.mem_append_left _ hk
    exact (of_decide_eq_true (List.mem_filter.1 hmem).2).trans_le (hm k hk)
  have hafter : keys.filter (m < ·) = back.filter (m < ·) := by
    have hnone : front.filter (m < ·) = [] :=
      List.filter_eq_nil_iff.2 fun k hk => by simpa using hm k hk
    rw [← filter_filter_lt hstart, h, List.filter_append, hnone, List.nil_append]
  rw [List.append_right_inj, hafter, List.filter_eq_self]
  constructor
  · intro hback k hk hkm
    refine (List.mem_append.1 hk).resolve_right fun hkb => ?_
    exact not_lt_of_ge hkm (of_decide_eq_true (hback k hkb))
  · intro hall k hk
    refine decide_eq_true (not_le.1 fun hkm => ?_)
    have hkf := hall k (List.mem_append_right _ hk) hkm
    exact lt_irrefl k ((List.pairwise_append.1 hsub).2.2 k hkf k hk)

/-- Some keys after a name, and those after a later one none of them passes, are at most all. -/
theorem length_front_add_le {front back : List Name} {m : Name}
    (h : keys.filter (start < ·) = front ++ back) (hm : ∀ k ∈ front, k ≤ m) :
    front.length + (keys.filter (m < ·)).length ≤ keys.length := by
  have hfront : front = front.filter fun k => !decide (m < k) :=
    (List.filter_eq_self.2 fun k hk => by simpa using hm k hk).symm
  have hsub : front.Sublist (keys.filter fun k => !decide (m < k)) := by
    rw [hfront]
    refine ((List.sublist_append_left front back).filter _).trans ?_
    rw [← h]
    exact List.filter_sublist.filter _
  have hsplit := List.length_eq_length_filter_add (l := keys) (fun k => decide (m < k))
  have hle := hsub.length_le
  omega

/-- What `printf` makes of keys, the header before the first. -/
def headed : List Name → List Line
  | [] => []
  | k :: ks => .header :: (k :: ks).map .key

theorem headed_append (l m : List Name) :
    headed (l ++ m) = headed l ++ ((if m ≠ [] ∧ l = [] then [.header] else []) ++ m.map .key) := by
  cases l with
  | nil =>
    cases m with
    | nil => rfl
    | cons k m => rfl
  | cons k l =>
    rw [if_neg fun h => List.cons_ne_nil _ _ h.2, List.nil_append, List.cons_append, headed, headed,
      ← List.cons_append, List.map_append, List.cons_append]

/-- **The listing after `printed`**, with `rest` to come: the marker is behind what was printed, and
the counter of keys does not come round. -/
structure Listed (keys printed rest : List Name) (data : ListBucketCallbackData) : Prop where
  after : keys.filter (data.nextMarker < ·) = rest
  count : data.keyCount = Int32.ofNat printed.length
  bound : printed.length + rest.length < 2 ^ 31

/-! ## What is printed -/

/-- **A request for the keys `rest`**: its calls report the first of them, a call at least one; one
that succeeds reports at least one if there is one, and every call of it tells whether there are
more than it reports. -/
structure ListRequest.Serves (request : ListRequest) (rest : List Name) : Prop where
  plain : ∀ c ∈ request.calls, c.contents ≠ [] ∧ c.commonPrefixes = []
  pre : request.calls.flatMap ListCall.contents <+: rest
  some_of_ok : request.status = .ok → rest ≠ [] → request.calls ≠ []
  truncated : request.status = .ok → ∀ c ∈ request.calls,
    c.isTruncated = decide (request.calls.flatMap ListCall.contents ≠ rest)

/-- The last call of a request names no marker but the last key that was reported. -/
def ListRequest.Reported (request : ListRequest) : Prop :=
  ∀ c ∈ request.calls.getLast?, c.nextMarker.getD [] = [] ∨ c.nextMarker = c.contents.getLast?

/-- **The service from the request `lo` on**: the keys fit into the marker, an `int` counts them,
and every request for those after a marker serves them and names no marker beyond what it
reported. -/
structure ServedFrom (lo : ℕ) (requests : ℕ → Name → ListRequest) (keys : List Name) : Prop where
  ascending : keys.Pairwise (· < ·)
  fits : ∀ k ∈ keys, k.length < 1024
  count : keys.length < 2 ^ 31
  serves : ∀ i ≥ lo, ∀ m, (requests i m).Serves (keys.filter (m < ·))
  reported : ∀ i ≥ lo, ∀ m, (requests i m).Reported

variable {c : ListCall} {calls : List ListCall} {request : ListRequest}
  {requests : ℕ → Name → ListRequest} {lo retriesG made : ℕ} {marker : Option Name}
  {maxkeys : Int32}

/-- **One call** prints its keys, the header before the first. -/
theorem listBucketCallback_prints (hcount : data.keyCount = Int32.ofNat printed.length)
    (hbound : printed.length < 2 ^ 31) (hc : c.commonPrefixes = []) :
    (listBucketCallback c data).2.keyCount = Int32.ofNat (printed ++ c.contents).length ∧
      headed printed ++ (listBucketCallback c data).1 = headed (printed ++ c.contents) := by
  have hnil : data.keyCount = 0 ↔ printed = [] := by
    rw [hcount, Int32.ofNat_eq_zero_iff hbound, List.length_eq_zero_iff]
  refine ⟨?_, ?_⟩
  · rw [listBucketCallback, List.length_append, hcount, Int32.ofNat_add]
  · rw [headed_append, listBucketCallback, hc, List.map_nil, List.append_nil]
    simp only [hnil]

/-- **The calls of a request** print their keys one after another, and if they agree on whether the
response was truncated, that is what they leave. -/
theorem listCalls_prints (hplain : ∀ c ∈ calls, c.contents ≠ [] ∧ c.commonPrefixes = [])
    (hcount : data.keyCount = Int32.ofNat printed.length)
    (hbound : (printed ++ calls.flatMap ListCall.contents).length < 2 ^ 31) :
    (listCalls calls data).2.keyCount
        = Int32.ofNat (printed ++ calls.flatMap ListCall.contents).length ∧
      headed printed ++ (listCalls calls data).1
        = headed (printed ++ calls.flatMap ListCall.contents) ∧
      (∀ b, (∀ c ∈ calls, c.isTruncated = b) → calls ≠ [] →
        (listCalls calls data).2.isTruncated = b) := by
  induction calls generalizing printed data with
  | nil =>
    rw [List.flatMap_nil, List.append_nil]
    exact ⟨hcount, List.append_nil _, fun _ _ hne => absurd rfl hne⟩
  | cons c calls ih =>
    rw [List.flatMap_cons, ← List.append_assoc] at hbound ⊢
    have hprinted : printed.length < 2 ^ 31 := by
      simp only [List.length_append] at hbound
      omega
    obtain ⟨hone, hline⟩ :=
      listBucketCallback_prints hcount hprinted (hplain c List.mem_cons_self).2
    obtain ⟨hall, hlines, htrunc⟩ :=
      ih (fun c hc => hplain c (List.mem_cons_of_mem _ hc)) hone hbound
    refine ⟨hall, ?_, fun b hb _ => ?_⟩
    · rw [listCalls, ← hlines, ← hline, List.append_assoc]
    · cases calls with
      | nil => exact hb c List.mem_cons_self
      | cons d calls =>
        exact htrunc b (fun e he => hb e (List.mem_cons_of_mem _ he)) (List.cons_ne_nil _ _)

/-- The marker after some calls is the one the last of them leaves. -/
theorem nextMarker_listCalls (calls : List ListCall) (c : ListCall)
    (data : ListBucketCallbackData) :
    (listCalls (calls ++ [c]) data).2.nextMarker = (listBucketCallback c data).2.nextMarker := by
  induction calls generalizing data with
  | nil => rfl
  | cons d calls ih => exact ih _

/-- A marker that fits is left as it is. -/
theorem nextMarker_listBucketCallback_eq {m : Name} (hm : m.length < 1024)
    (h : (if c.nextMarker.getD [] = [] ∧ c.contents ≠ [] then c.contents.getLast?
      else c.nextMarker) = some m) : (listBucketCallback c data).2.nextMarker = m := by
  simp only [listBucketCallback, h]
  exact List.take_of_length_le (Nat.le_sub_one_of_lt hm)

/-- **A request that names no marker but the last key it reported leaves the marker there.** -/
theorem ListRequest.Reported.filter_nextMarker (hasc : keys.Pairwise (· < ·))
    (hfits : ∀ k ∈ keys, k.length < 1024) (hreported : request.Reported)
    (hplain : ∀ c ∈ request.calls, c.contents ≠ [] ∧ c.commonPrefixes = [])
    (h : keys.filter (data.nextMarker < ·)
      = request.calls.flatMap ListCall.contents ++ rest) :
    keys.filter ((listCalls request.calls data).2.nextMarker < ·) = rest := by
  obtain hnil | ⟨calls, c, hcalls⟩ := List.eq_nil_or_concat request.calls
  · rw [hnil] at h ⊢
    exact h
  · rw [List.concat_eq_append] at hcalls
    have hne : c.contents ≠ [] :=
      (hplain c (hcalls ▸ List.mem_append_right _ List.mem_cons_self)).1
    have hlast := hreported c (by rw [hcalls, List.getLast?_concat]; rfl)
    rw [hcalls, List.flatMap_append, List.flatMap_singleton] at h
    have hfront : calls.flatMap ListCall.contents ++ c.contents ≠ [] :=
      List.append_ne_nil_of_right_ne_nil _ hne
    have hgetLast : (calls.flatMap ListCall.contents ++ c.contents).getLast hfront
        = c.contents.getLast hne := List.getLast_append_of_right_ne_nil _ _ hne
    have hkey : c.contents.getLast hne ∈ keys := by
      have hmem : c.contents.getLast hne ∈ keys.filter (data.nextMarker < ·) := by
        rw [h]
        exact List.mem_append_left _ (List.mem_append_right _ (List.getLast_mem hne))
      exact (List.mem_filter.1 hmem).1
    have hmarker : (if c.nextMarker.getD [] = [] ∧ c.contents ≠ [] then c.contents.getLast?
        else c.nextMarker) = some (c.contents.getLast hne) := by
      split
      case isTrue => exact List.getLast?_eq_some_getLast hne
      case isFalse hnot =>
        rw [hlast.resolve_left fun hnil => hnot ⟨hnil, hne⟩]
        exact List.getLast?_eq_some_getLast hne
    rw [hcalls, nextMarker_listCalls, nextMarker_listBucketCallback_eq (hfits _ hkey) hmarker,
      ← hgetLast]
    exact filter_getLast hasc hfront h

/-- **What requests for `rest` print**: `more` of it, and all of it if the last of them succeeds and
says that it was not truncated. -/
structure ListRun.Prints (r : ListRun) (keys printed rest : List Name)
    (data : ListBucketCallbackData) (more rest' : List Name) : Prop where
  rest_eq : rest = more ++ rest'
  listed : Listed keys (printed ++ more) rest' r.data
  lines : headed printed ++ r.lines = headed (printed ++ more)
  some_of_ok : r.status = .ok → rest ≠ [] → more ≠ []
  all_of_ok : r.status = .ok → r.data.isTruncated = false → rest' = []
  idle : rest = [] → r.data = data

/-- A turn that is not the last prints a key. -/
theorem ListRun.Prints.length_lt {r : ListRun} {more rest' : List Name}
    (hp : r.Prints keys printed rest data more rest') (hdata : data.isTruncated = false)
    (hok : r.status = .ok) (htrunc : r.data.isTruncated = true) : rest'.length < rest.length := by
  have hne : rest ≠ [] := fun hnil => by
    rw [hp.idle hnil, hdata] at htrunc
    cases htrunc
  have hpos := List.length_pos_iff.2 (hp.some_of_ok hok hne)
  rw [hp.rest_eq, List.length_append]
  omega

/-- **One request.** -/
theorem ListRequest.Serves.prints (hasc : keys.Pairwise (· < ·))
    (hfits : ∀ k ∈ keys, k.length < 1024) (hserves : request.Serves rest)
    (hreported : request.Reported) (h : Listed keys printed rest data) (retriesG made : ℕ) :
    ∃ more rest', (ListRun.mk request.status (listCalls request.calls data).1
      (listCalls request.calls data).2 retriesG made).Prints keys printed rest data more
        rest' := by
  obtain ⟨rest', hrest⟩ := hserves.pre
  have hbound : (printed ++ request.calls.flatMap ListCall.contents).length + rest'.length
      < 2 ^ 31 := by
    have := h.bound
    rw [← hrest, List.length_append] at this
    rw [List.length_append]
    omega
  obtain ⟨hcount, hlines, htrunc⟩ :=
    listCalls_prints hserves.plain h.count (Nat.lt_of_add_right_lt hbound)
  have hafter := hreported.filter_nextMarker hasc hfits hserves.plain (h.after.trans hrest.symm)
  have hnone : rest = [] → request.calls = [] := by
    intro hnil
    rw [hnil, List.append_eq_nil_iff, List.flatMap_eq_nil_iff] at hrest
    refine List.eq_nil_iff_forall_not_mem.2 fun c hc => ?_
    exact (hserves.plain c hc).1 (hrest.1 c hc)
  have hsome : request.calls ≠ [] → request.calls.flatMap ListCall.contents ≠ [] := by
    intro hne hnil
    obtain ⟨c, hc⟩ := List.exists_mem_of_ne_nil _ hne
    exact (hserves.plain c hc).1 (List.flatMap_eq_nil_iff.1 hnil c hc)
  refine ⟨_, rest', hrest.symm, ⟨hafter, hcount, hbound⟩, hlines,
    fun hok hne => hsome (hserves.some_of_ok hok hne), fun hok hfalse => ?_, fun hnil => ?_⟩
  · by_cases hne : rest = []
    · rw [hne] at hrest
      exact (List.append_eq_nil_iff.1 hrest).2
    · have hlast := htrunc _ (hserves.truncated hok) (hserves.some_of_ok hok hne)
      rw [hlast, decide_eq_false_iff_not, not_not] at hfalse
      rw [hfalse] at hrest
      exact List.append_right_eq_self.1 hrest
  · rw [hnone hnil, listCalls]

/-- **A request and those that retry it**: the induction is on the retries that are left, and each
goes on where the one before it was cut off. -/
theorem listRequests_prints (hs : ServedFrom lo requests keys) (hlo : lo ≤ made) (retriesG : ℕ)
    (h : Listed keys printed rest data) :
    ∃ more rest', (listRequests requests retriesG made data).Prints keys printed rest data
      more rest' := by
  have hfirst : (requests made data.nextMarker).Serves rest := h.after ▸ hs.serves made hlo _
  induction retriesG generalizing made printed rest data with
  | zero => exact hfirst.prints hs.ascending hs.fits (hs.reported _ hlo _) h 0 (made + 1)
  | succ retriesG ih =>
    obtain ⟨front, mid, hone⟩ :=
      hfirst.prints hs.ascending hs.fits (hs.reported _ hlo _) h (retriesG + 1) (made + 1)
    rw [listRequests]
    split
    case isFalse => exact ⟨front, mid, hone⟩
    case isTrue =>
      have hlo' : lo ≤ made + 1 := Nat.le_succ_of_le hlo
      obtain ⟨more, rest', hmore⟩ :=
        ih hlo' hone.listed (hone.listed.after ▸ hs.serves _ hlo' _)
      refine ⟨front ++ more, rest', ?_, ?_, ?_, fun hok hne hnil => ?_, hmore.all_of_ok,
        fun hnil => ?_⟩
      · rw [hone.rest_eq, hmore.rest_eq, List.append_assoc]
      · rw [← List.append_assoc]
        exact hmore.listed
      · rw [← List.append_assoc, ← List.append_assoc, hone.lines, hmore.lines]
      · obtain ⟨hfront, hmore0⟩ := List.append_eq_nil_iff.1 hnil
        refine hmore.some_of_ok hok (fun hmid => hne ?_) hmore0
        rw [hone.rest_eq, hfront, hmid, List.append_nil]
      · have hmid := hnil
        rw [hone.rest_eq, List.append_eq_nil_iff] at hmid
        exact (hmore.idle hmid.2).trans (hone.idle hnil)

theorem lt_made_listRequests (requests : ℕ → Name → ListRequest) (retriesG made : ℕ)
    (data : ListBucketCallbackData) : made < (listRequests requests retriesG made data).made := by
  induction retriesG generalizing made data with
  | zero => exact Nat.lt_succ_self made
  | succ retriesG ih =>
    rw [listRequests]
    split
    case isTrue => exact (Nat.lt_succ_self made).trans (ih _ _)
    case isFalse => exact Nat.lt_succ_self made

/-- **All pages**, from the one on whose requests have printed `all`: a turn of the outer loop after
the first prints a key unless it is the last. -/
theorem listPages_prints (hs : ServedFrom lo requests keys) (maxkeys : Int32)
    (data : ListBucketCallbackData) {fuel : ℕ} {all : List Name} {r : ListRun}
    (hr : listRequests requests retriesG made { data with isTruncated := false } = r)
    (hlo : lo ≤ r.made) (hlisted : Listed keys all rest r.data)
    (hlines : headed printed ++ r.lines = headed all)
    (hall : r.status = .ok → r.data.isTruncated = false → rest = [])
    (hfuel : r.status = .ok → r.data.isTruncated = true → rest.length < fuel) :
    ∃ status lines data' more rest',
      listPages requests maxkeys (fuel + 1) retriesG made data = some (status, lines, data') ∧
        rest = more ++ rest' ∧ headed printed ++ lines = headed (all ++ more) ∧
        data'.keyCount = Int32.ofNat (all ++ more).length ∧ (all ++ more).length < 2 ^ 31 ∧
        (status = .ok → rest' = [] ∨ (maxkeys ≠ 0 ∧ maxkeys.toInt ≤ (all ++ more).length)) := by
  induction fuel using Nat.strong_induction_on
    generalizing retriesG made data printed all rest r with
  | h fuel ih =>
    rw [listPages]
    simp only [hr]
    split
    case isTrue hgo =>
      obtain ⟨hok, htrunc, -⟩ := hgo
      have hlen := hfuel hok htrunc
      obtain ⟨fuel, rfl⟩ := Nat.exists_eq_add_one_of_ne_zero (Nat.ne_zero_of_lt hlen)
      have h0 : Listed keys all rest { r.data with isTruncated := false } :=
        ⟨hlisted.after, hlisted.count, hlisted.bound⟩
      obtain ⟨more, rest', hp⟩ := listRequests_prints hs hlo r.retriesG h0
      obtain ⟨status, lines, data', more', rest'', heq, hrest, hlines', hcount, hbound, hend⟩ :=
        ih fuel (Nat.lt_succ_self fuel) r.data rfl (hlo.trans (lt_made_listRequests _ _ _ _).le)
          hp.listed hp.lines hp.all_of_ok fun hok' htrunc' =>
            (hp.length_lt rfl hok' htrunc').trans_le (Nat.le_of_lt_succ hlen)
      refine ⟨status, r.lines ++ lines, data', more ++ more', rest'', by rw [heq]; rfl, ?_, ?_, ?_,
        ?_, ?_⟩
      · rw [hp.rest_eq, hrest, List.append_assoc]
      · rw [← List.append_assoc, hlines, hlines', List.append_assoc]
      · rw [hcount, List.append_assoc]
      · rwa [← List.append_assoc]
      · rwa [← List.append_assoc]
    case isFalse hstop =>
      have hbound : all.length < 2 ^ 31 := Nat.lt_of_add_right_lt hlisted.bound
      refine ⟨_, _, _, [], rest, rfl, rfl, ?_, ?_, ?_, fun hok => ?_⟩
      · rw [List.append_nil, hlines]
      · rw [List.append_nil, hlisted.count]
      · rwa [List.append_nil]
      · by_cases htrunc : r.data.isTruncated = true
        · right
          have hmax := fun hgo => hstop ⟨hok, htrunc, hgo⟩
          rw [hlisted.count, Int32.lt_iff_toInt_lt, Int32.toInt_ofNat_of_lt hbound] at hmax
          rw [List.append_nil]
          exact (not_or.1 hmax).imp id Int.not_lt.1
        · exact Or.inl (hall hok (Bool.eq_false_iff.2 htrunc))

/-- What `list_bucket` prints, from what its pages printed. -/
theorem listBucket_eq {fuel : ℕ} {status : Status} {lines : List Line} {all : List Name}
    (heq : listPages requests maxkeys fuel retriesG 0 ⟨false, snprintfString 1024 marker, 0⟩
      = some (status, lines, data))
    (hlines : lines = headed all) (hcount : data.keyCount = Int32.ofNat all.length)
    (hbound : all.length < 2 ^ 31) :
    listBucket requests retriesG marker maxkeys fuel
      = some (status, if all = [] then if status = .ok then [.header] else []
        else .header :: all.map .key) := by
  rw [listBucket, heq, Option.map_some, hlines, hcount]
  cases all with
  | nil =>
    rw [if_pos rfl]
    have hzero : Int32.ofNat ([] : List Name).length = 0 := rfl
    simp only [hzero, and_true]
    rfl
  | cons k all =>
    rw [if_neg fun hgo => Nat.succ_ne_zero _ ((Int32.ofNat_eq_zero_iff hbound).1 hgo.2),
      List.append_nil]
    rfl

/-- **A listing ends, and prints the header and the first keys after the marker, each once and in
order** — whichever requests fail, before they report a key or after.  If it succeeds these are all
of them, or at least as many as were asked for. -/
theorem list_prints (hs : ServedFrom 0 requests keys) (retriesG : ℕ) (marker : Option Name)
    (maxkeys : Int32) {fuel : ℕ} (hfuel : keys.length < fuel) :
    let rest := keys.filter (snprintfString 1024 marker < ·)
    ∃ status printed, listBucket requests retriesG marker maxkeys fuel
        = some (status, if printed = [] then if status = .ok then [.header] else []
          else .header :: printed.map .key) ∧
      printed <+: rest ∧
      (status = .ok → printed = rest ∨ (maxkeys ≠ 0 ∧ maxkeys.toInt ≤ printed.length)) := by
  intro rest
  obtain ⟨fuel, rfl⟩ := Nat.exists_eq_add_one_of_ne_zero (Nat.ne_zero_of_lt hfuel)
  have hcounted : rest.length < 2 ^ 31 := (List.length_filter_le _ keys).trans_lt hs.count
  have h : Listed keys [] rest ⟨false, snprintfString 1024 marker, 0⟩ :=
    ⟨rfl, rfl, by rwa [List.length_nil, Nat.zero_add]⟩
  obtain ⟨first, mid, hp⟩ := listRequests_prints hs (Nat.zero_le 0) retriesG h
  have hrest : rest.length ≤ fuel :=
    (List.length_filter_le _ keys).trans (Nat.le_of_lt_succ hfuel)
  obtain ⟨status, lines, data', more, rest', heq, hmid, hlines, hcount, hbound, hend⟩ :=
    listPages_prints hs maxkeys ⟨false, snprintfString 1024 marker, 0⟩ rfl (Nat.zero_le _) hp.listed
      hp.lines hp.all_of_ok fun hok htrunc => (hp.length_lt rfl hok htrunc).trans_le hrest
  rw [List.nil_append] at hcount hbound hend
  have hall : rest = (first ++ more) ++ rest' := by rw [hp.rest_eq, hmid, List.append_assoc]
  refine ⟨status, first ++ more, listBucket_eq heq hlines hcount hbound, ⟨rest', hall.symm⟩,
    fun hok => ?_⟩
  refine (hend hok).imp (fun hnil => ?_) id
  rw [hall, hnil, List.append_nil]

/-- A request that reports one key before it is cut off, or all, in a call that names a marker. -/
def ListRequest.sample (cut : Bool) (named : Option Name) (rest : List Name) : ListRequest where
  calls := if rest = [] then [] else [⟨false, named, if cut then rest.take 1 else rest, []⟩]
  status := if cut then .failed true else .ok

theorem ListRequest.serves_sample (cut : Bool) (named : Option Name) (rest : List Name) :
    (ListRequest.sample cut named rest).Serves rest := by
  cases rest with
  | nil =>
    exact ⟨List.forall_mem_nil _, List.nil_prefix, fun _ h => absurd rfl h,
      fun _ => List.forall_mem_nil _⟩
  | cons k rest =>
    cases cut with
    | false =>
      have hall : (sample false named (k :: rest)).calls.flatMap ListCall.contents = k :: rest :=
        List.append_nil _
      refine ⟨List.forall_mem_singleton.2 ⟨List.cons_ne_nil _ _, rfl⟩, ⟨[], ?_⟩,
        fun _ _ => List.cons_ne_nil _ _, fun _ => List.forall_mem_singleton.2 ?_⟩
      · rw [hall, List.append_nil]
      · rw [hall]
        exact (decide_eq_false fun h => h rfl).symm
    | true =>
      refine ⟨List.forall_mem_singleton.2 ⟨List.cons_ne_nil _ _, rfl⟩, ⟨rest, rfl⟩, ?_, ?_⟩
      · intro h
        cases h
      · intro h
        cases h

theorem ListRequest.reported_sample (cut : Bool) (rest : List Name) :
    (ListRequest.sample cut none rest).Reported := by
  intro c hc
  cases rest with
  | nil => cases hc
  | cons k rest =>
    obtain rfl := Option.some.inj hc
    exact Or.inl rfl

/-- Three keys; the first request is cut off after the first of them. -/
theorem list_prints_cut :
    let keys : List Name := [['a'], ['b'], ['c']]
    let requests := fun (i : ℕ) (m : Name) => ListRequest.sample (i = 0) none (keys.filter (m < ·))
    ∃ status printed, listBucket requests 5 (some []) 0 4
        = some (status, if printed = [] then if status = .ok then [.header] else []
          else .header :: printed.map .key) ∧
      printed <+: keys.filter (snprintfString 1024 (some []) < ·) ∧
      (status = .ok → printed = keys.filter (snprintfString 1024 (some []) < ·) ∨
        ((0 : Int32) ≠ 0 ∧ (0 : Int32).toInt ≤ printed.length)) := by
  intro keys requests
  have hs : ServedFrom 0 requests keys :=
    ⟨by decide, by decide, by decide, fun i _ m => ListRequest.serves_sample _ _ _,
      fun i _ m => ListRequest.reported_sample _ _⟩
  exact list_prints hs 5 (some []) 0 (by decide)

/-- **A request that is cut off behind a marker it named skips the keys in between**: they are never
printed, so a listing that succeeds nevertheless is complete exactly if there are none. -/
theorem list_skips (hs : ServedFrom 1 requests keys) (retriesG : ℕ) (marker : Option Name)
    (maxkeys : Int32) {fuel : ℕ} (hfuel : keys.length + 1 < fuel) {m : Name}
    (hfirst : (requests 0 (snprintfString 1024 marker)).Serves
      (keys.filter (snprintfString 1024 marker < ·)))
    (hcut : (requests 0 (snprintfString 1024 marker)).status = .failed true)
    (hcalls : (requests 0 (snprintfString 1024 marker)).calls = calls ++ [c])
    (hnamed : c.nextMarker = some m) (hm : m ≠ [] ∧ m.length < 1024)
    (hlargest : ∀ k ∈ (calls ++ [c]).flatMap ListCall.contents, k ≤ m) :
    let rest := keys.filter (snprintfString 1024 marker < ·)
    let front := (calls ++ [c]).flatMap ListCall.contents
    ∃ status printed, listBucket requests (retriesG + 1) marker maxkeys fuel
        = some (status, .header :: printed.map .key) ∧
      front <+: printed ∧ (∀ k ∈ printed, k ∈ front ∨ m < k) ∧
      (status = .ok → maxkeys = 0 → (printed = rest ↔ ∀ k ∈ rest, k ≤ m → k ∈ front)) := by
  intro rest front
  obtain ⟨fuel, rfl⟩ := Nat.exists_eq_add_one_of_ne_zero (Nat.ne_zero_of_lt hfuel)
  let data₀ : ListBucketCallbackData := ⟨false, snprintfString 1024 marker, 0⟩
  let data₁ := (listCalls (calls ++ [c]) data₀).2
  have hplain : ∀ d ∈ calls ++ [c], d.contents ≠ [] ∧ d.commonPrefixes = [] :=
    hcalls ▸ hfirst.plain
  have h₀ : data₀.keyCount = Int32.ofNat ([] : List Name).length := rfl
  obtain ⟨back, hback⟩ := hfirst.pre
  rw [hcalls] at hback
  have hbound₁ : front.length + (keys.filter (m < ·)).length < 2 ^ 31 :=
    (length_front_add_le hback.symm hlargest).trans_lt hs.count
  obtain ⟨hcount₁, hlines₁, -⟩ := listCalls_prints hplain h₀ (Nat.lt_of_add_right_lt hbound₁)
  rw [List.nil_append] at hcount₁ hlines₁
  have hmarker : data₁.nextMarker = m := by
    have hnot : ¬(c.nextMarker.getD [] = [] ∧ c.contents ≠ []) := by
      rw [hnamed]
      exact fun h => hm.1 h.1
    exact (nextMarker_listCalls calls c data₀).trans
      (nextMarker_listBucketCallback_eq hm.2 ((if_neg hnot).trans hnamed))
  have h₁ : Listed keys front (keys.filter (m < ·)) data₁ :=
    ⟨by rw [hmarker], hcount₁, hbound₁⟩
  obtain ⟨more, mid, hp⟩ := listRequests_prints hs le_rfl retriesG h₁
  have hrun : listRequests requests (retriesG + 1) 0 data₀
      = { listRequests requests retriesG 1 data₁ with
          lines := (listCalls (calls ++ [c]) data₀).1
            ++ (listRequests requests retriesG 1 data₁).lines } := by
    rw [listRequests]
    simp only [data₀, hcut, hcalls, if_true]
    rfl
  have hmid : mid.length < fuel := by
    have hle := List.length_filter_le (m < ·) keys
    rw [show keys.filter (m < ·) = more ++ mid from hp.rest_eq, List.length_append] at hle
    omega
  have hlines₂ : headed [] ++ ((listCalls (calls ++ [c]) data₀).1
      ++ (listRequests requests retriesG 1 data₁).lines) = headed (front ++ more) := by
    rw [← List.append_assoc, hlines₁, hp.lines]
  obtain ⟨status, lines, data', more', rest', heq, hrest, hlines, hcount, hbound, hend⟩ :=
    listPages_prints hs maxkeys data₀ hrun (lt_made_listRequests _ _ _ _).le hp.listed hlines₂
      hp.all_of_ok fun _ _ => hmid
  have hfront : front ≠ [] := fun hnil => by
    have hmem : c ∈ calls ++ [c] := List.mem_append_right _ List.mem_cons_self
    exact (hplain c hmem).1 (List.flatMap_eq_nil_iff.1 hnil c hmem)
  have hafter : keys.filter (m < ·) = (more ++ more') ++ rest' := by
    rw [List.append_assoc, ← hrest]
    exact hp.rest_eq
  have hne : front ++ (more ++ more') ≠ [] :=
    List.append_ne_nil_of_left_ne_nil hfront _
  rw [List.append_assoc] at hlines hcount hbound
  refine ⟨status, front ++ (more ++ more'), ?_, List.prefix_append _ _, ?_, fun hok hmax => ?_⟩
  · rw [listBucket_eq heq hlines hcount hbound, if_neg hne]
  · intro k hk
    refine (List.mem_append.1 hk).imp id fun hmore => ?_
    have hkeys : k ∈ keys.filter (m < ·) := hafter ▸ List.mem_append_left _ hmore
    exact of_decide_eq_true (List.mem_filter.1 hkeys).2
  · have hdone : more ++ more' = keys.filter (m < ·) := by
      have hnil := (hend hok).resolve_right fun h => h.1 hmax
      rw [hafter, hnil, List.append_nil]
    rw [hdone, show rest = front ++ back from hback.symm]
    exact append_filter_eq_iff hs.ascending hfront hback.symm hlargest

/-- Three keys; the first request names the last of them, and is cut off after the first. -/
theorem list_skips_second :
    let keys : List Name := [['a'], ['b'], ['c']]
    let requests := fun (i : ℕ) (m : Name) =>
      ListRequest.sample (i = 0) (if i = 0 then some ['c'] else none) (keys.filter (m < ·))
    ∃ status printed, listBucket requests 5 (some []) 0 5
        = some (status, .header :: printed.map .key) ∧
      [['a']] <+: printed ∧ (∀ k ∈ printed, k ∈ [['a']] ∨ ['c'] < k) ∧
      (status = .ok → (0 : Int32) = 0 →
        (printed = keys.filter (snprintfString 1024 (some []) < ·) ↔
          ∀ k ∈ keys.filter (snprintfString 1024 (some []) < ·), k ≤ ['c'] → k ∈ [['a']])) := by
  intro keys requests
  have hs : ServedFrom 1 requests keys := by
    refine ⟨by decide, by decide, by decide, fun i _ m => ListRequest.serves_sample _ _ _,
      fun i hi m => ?_⟩
    have hi0 : i ≠ 0 := Nat.ne_zero_of_lt hi
    simp only [requests, if_neg hi0]
    exact ListRequest.reported_sample _ _
  have hcalls : (requests 0 (snprintfString 1024 (some []))).calls
      = [] ++ [⟨false, some ['c'], [['a']], []⟩] := by decide
  exact list_skips hs 4 (some []) 0 (by decide) (ListRequest.serves_sample _ _ _) rfl hcalls rfl
    ⟨by decide, by decide⟩ (by decide)

end CloudFS.S3
