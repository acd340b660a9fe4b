import CloudFS.Client.Names

/-!
# Client/Cloud — the bucket and the requests made to it

The objects of the one bucket, and what the S3 library leaves of a put, a get and a delete.  What
the service answers is a parameter of each request: it serves it, or the request fails with some
status.  A failed get has delivered some first bytes of the object.  The service stores and
removes objects whole or not at all, so a failed put or delete was applied or was not.
-/

namespace CloudFS

open Posix

/-- The objects of the bucket, by key. -/
abbrev Bucket := Name → Option Content

/-- The statuses of a request that did not succeed. -/
inductive S3Failure
  | failedToConnect | connectionFailed | abortedByCallback | errorNoSuchKey
  | other (code : ℕ)
  deriving DecidableEq

/-- `S3Status`, as left in `statusG`. -/
inductive S3Status
  | ok
  | failed (e : S3Failure)
  deriving DecidableEq

/-- The answer to a get: served, or failed after `n` bytes reached the local file. -/
inductive GetAnswer
  | served
  | failed (e : S3Failure) (n : ℕ)
  deriving DecidableEq

/-- The answer to a put: served, or failed after it was applied or not. -/
inductive PutAnswer
  | served
  | failed (e : S3Failure) (applied : Bool)
  deriving DecidableEq

/-- The answer to a delete: served, or failed after it was applied or not. -/
inductive DeleteAnswer
  | served
  | failed (e : S3Failure) (applied : Bool)
  deriving DecidableEq

/-- Whether a put stored its data. -/
def PutAnswer.applied : PutAnswer → Bool
  | .served => true
  | .failed _ b => b

/-- The status a put leaves. -/
def PutAnswer.status : PutAnswer → S3Status
  | .served => .ok
  | .failed e _ => .failed e

/-- Whether a delete removed its object. -/
def DeleteAnswer.applied : DeleteAnswer → Bool
  | .served => true
  | .failed _ b => b

/-- The status a delete leaves. -/
def DeleteAnswer.status : DeleteAnswer → S3Status
  | .served => .ok
  | .failed e _ => .failed e

/-- `cloud_put_object`: the status and the bucket after `data` was handed over. -/
def cloudPutObject (ans : PutAnswer) (bucket : Bucket) (key : Name) (data : Content) :
    S3Status × Bucket :=
  (ans.status, if ans.applied then Function.update bucket key (some data) else bucket)

/-- `cloud_get_object`: the status and the bytes that reached the local file. -/
def cloudGetObject (ans : GetAnswer) (bucket : Bucket) (key : Name) : S3Status × Content :=
  match ans, bucket key with
  | .served, some o => (.ok, o)
  | .served, none => (.failed .errorNoSuchKey, Content.empty)
  | .failed e n, some o => (.failed e, o.take n)
  | .failed e _, none => (.failed e, Content.empty)

/-- `cloud_delete_object`: the status and the bucket after the request. -/
def cloudDeleteObject (ans : DeleteAnswer) (bucket : Bucket) (key : Name) : S3Status × Bucket :=
  (ans.status, if ans.applied then Function.update bucket key none else bucket)

variable {b : Bucket} {k : Name}

theorem cloudPutObject_of_ne (ans : PutAnswer) (c : Content) {j : Name} (h : j ≠ k) :
    (cloudPutObject ans b k c).2 j = b j := by
  rw [cloudPutObject]
  split
  · exact Function.update_of_ne h ..
  · rfl

/-- What a put leaves under its key. -/
theorem cloudPutObject_self (ans : PutAnswer) (c : Content) :
    (cloudPutObject ans b k c).2 k = if ans.applied then some c else b k := by
  rw [cloudPutObject]
  split
  · exact Function.update_self ..
  · rfl

theorem cloudDeleteObject_of_ne (ans : DeleteAnswer) {j : Name} (h : j ≠ k) :
    (cloudDeleteObject ans b k).2 j = b j := by
  rw [cloudDeleteObject]
  split
  · exact Function.update_of_ne h ..
  · rfl

/-- What a delete leaves under its key. -/
theorem cloudDeleteObject_self (ans : DeleteAnswer) :
    (cloudDeleteObject ans b k).2 k = if ans.applied then none else b k := by
  rw [cloudDeleteObject]
  split
  · exact Function.update_self ..
  · rfl

/-- A get succeeds only when it is served and the object is there. -/
theorem cloudGetObject_ok_iff {ans : GetAnswer} :
    (cloudGetObject ans b k).1 = .ok ↔ ans = .served ∧ (b k).isSome := by
  cases ans <;> cases h : b k <;> simp [cloudGetObject, h]

/-- What a served get leaves in the local file. -/
theorem cloudGetObject_served (b : Bucket) (k : Name) :
    (cloudGetObject .served b k).2 = (b k).getD Content.empty := by
  cases h : b k <;> simp [cloudGetObject, h]

end CloudFS
