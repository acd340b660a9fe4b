import CloudFS.Clients.Handles
import CloudFS.Session.Transfer

/-!
# Outcomes/PartialUnlink — an unlink that does part of its work

`cloudfs_unlink` removes the object and the metadata file where it finds the latter, and looks at
neither result; only the removal of the path decides what it returns.  It removes all three or none
exactly where no call before that one went another way (`unlink_all_or_nothing_iff`).
-/

namespace CloudFS

open Posix Posix.Fs

/-! ## The stores of a path -/

/-- What a path has in each store: its entry, its metadata file and its object. -/
def stores (st : CloudfsState) (w : World) (p : Name) :
    Option Node × Option Node × Option Content :=
  (entry st w p, (w.ssd.look (getMetadataPath st p)).map Inode.node, w.bucket (getKey p))

/-- **All or nothing**: an operation on `p` that returned 0 emptied the three stores, one that failed
left them. -/
structure AllOrNothing (st : CloudfsState) (p : Name) (w : World) (r : World × Reply) : Prop where
  all : r.2 = .done → stores st r.1 p = (none, none, none)
  nothing : ∀ e, r.2 = .fail e → stores st r.1 p = stores st w p

/-- The unlink finds a metadata file. -/
def UnlinkEnv.Finds (env : UnlinkEnv) (st : CloudfsState) (p : Name) (w : World) : Prop :=
  env.access = none ∧ w.ssd.accessible (getMetadataPath st p) = true

variable {st : CloudfsState} {w : World} {p : Name} {env : UnlinkEnv}

instance : Decidable (env.Finds st p w) := inferInstanceAs (Decidable (_ ∧ _))

/-- The world before the last removal. -/
def World.withdrawn (st : CloudfsState) (env : UnlinkEnv) (p : Name) (w : World) : World :=
  if env.Finds st p w then
    { (s3Delete env.delete p w).1 with
      ssd := (disturb env.unlinkMetadata (w.ssd.unlink (getMetadataPath st p))).toOption.getD w.ssd }
  else w

/-- The metadata file before the last removal. -/
theorem look_metadata_withdrawn :
    (w.withdrawn st env p).ssd.look (getMetadataPath st p) =
      if env.Finds st p w ∧ env.unlinkMetadata = none then none
      else w.ssd.look (getMetadataPath st p) := by
  unfold World.withdrawn
  by_cases hf : env.Finds st p w
  · cases hm : env.unlinkMetadata with
    | none => simp [hf]
    | some e => simp [hf, Except.toOption]
  · simp [hf]

/-- The path before the last removal is what it was. -/
theorem look_absolute_withdrawn (env : UnlinkEnv) (w : World)
    (hne : getAbsolutePath st p ≠ getMetadataPath st p) :
    (w.withdrawn st env p).ssd.look (getAbsolutePath st p)
      = w.ssd.look (getAbsolutePath st p) := by
  unfold World.withdrawn
  by_cases hf : env.Finds st p w
  · cases hm : env.unlinkMetadata with
    | none => simp [hf, look_remove_of_ne hne]
    | some e => simp [hf, Except.toOption]
  · simp [hf]

/-- The object before the last removal. -/
theorem bucket_withdrawn :
    (w.withdrawn st env p).bucket (getKey p) =
      if env.Finds st p w ∧ env.delete.applied then none else w.bucket (getKey p) := by
  unfold World.withdrawn
  by_cases hf : env.Finds st p w
  · rw [if_pos hf]
    exact (cloudDeleteObject_self env.delete).trans (by simp [hf])
  · simp [hf]

/-! ## What an unlink leaves -/

/-- An unlink succeeds if it removes a path that is there, whatever came of the other two. -/
def UnlinkEnv.Removes (env : UnlinkEnv) (st : CloudfsState) (p : Name) (w : World) : Prop :=
  env.unlink = none ∧ (entry st w p).isSome = true

instance : Decidable (env.Removes st p w) := inferInstanceAs (Decidable (_ ∧ _))

/-- **What an unlink does**: after the object and the metadata file it removes the path and succeeds,
or it fails and that is all. -/
theorem serve_unlink_cases (env : UnlinkEnv) (w : World)
    (hne : getAbsolutePath st p ≠ getMetadataPath st p) :
    env.Removes st p w ∧ serve st w (.unlink p env) =
        ({ w.withdrawn st env p with
          ssd := (w.withdrawn st env p).ssd.remove (getAbsolutePath st p) }, .done) ∨
      ¬ env.Removes st p w ∧
        ∃ e, serve st w (.unlink p env) = (w.withdrawn st env p, .fail (.errno e)) := by
  have hw : (if env.access = none ∧ w.ssd.accessible (getMetadataPath st p) then
      { (s3Delete env.delete p w).1 with
        ssd := (disturb env.unlinkMetadata
          ((s3Delete env.delete p w).1.ssd.unlink (getMetadataPath st p))).toOption.getD
            (s3Delete env.delete p w).1.ssd }
      else w) = w.withdrawn st env p := rfl
  have herror : ∀ e, disturb env.unlink
      ((w.withdrawn st env p).ssd.unlink (getAbsolutePath st p)) = .error e →
        serve st w (.unlink p env) = (w.withdrawn st env p, .fail (.errno e)) := by
    intro e he
    rw [serve, cloudfsUnlink]
    dsimp only
    rw [hw, he]
    rfl
  have hok : ∀ fs, disturb env.unlink
      ((w.withdrawn st env p).ssd.unlink (getAbsolutePath st p)) = .ok fs →
        serve st w (.unlink p env) = ({ w.withdrawn st env p with ssd := fs }, .done) := by
    intro fs hfs
    rw [serve, cloudfsUnlink]
    dsimp only
    rw [hw, hfs]
    rfl
  have hl := look_absolute_withdrawn env w hne
  rw [UnlinkEnv.Removes, entry, ← hl, Option.isSome_map]
  cases hu : env.unlink with
  | some e => exact Or.inr ⟨by simp, e, herror e (by rw [hu, disturb_some])⟩
  | none =>
    cases hd : (w.withdrawn st env p).ssd.dirent (getAbsolutePath st p) with
    | none =>
      exact Or.inr ⟨by simp [look, hd], .ENOENT,
        herror .ENOENT (by rw [hu, disturb_none, unlink_of_none hd])⟩
    | some i =>
      exact Or.inl ⟨by simp [look, hd], hok _ (by rw [hu, disturb_none, unlink_of_some hd])⟩

/-- What is accessible has an entry. -/
theorem isSome_look_of_accessible {fs : Fs} {x : Name} (h : fs.accessible x = true) :
    (fs.look x).isSome = true := by
  cases hx : fs.dirent x with
  | none =>
    rw [accessible_of_not_link (readlink_of_none hx), hx] at h
    exact absurd h (by simp)
  | some i => simp [look, hx]

/-- The stores before the last removal. -/
theorem stores_withdrawn (hne : getAbsolutePath st p ≠ getMetadataPath st p) :
    stores st (w.withdrawn st env p) p =
      (entry st w p,
        if env.Finds st p w ∧ env.unlinkMetadata = none then none else (stores st w p).2.1,
        if env.Finds st p w ∧ env.delete.applied then none else (stores st w p).2.2) := by
  rw [stores, entry, look_absolute_withdrawn env w hne, look_metadata_withdrawn, bucket_withdrawn]
  simp only [stores, entry, apply_ite (Option.map Inode.node), Option.map_none]

/-- The stores after it. -/
theorem stores_remove (v : World) (hne : getAbsolutePath st p ≠ getMetadataPath st p) :
    stores st { v with ssd := v.ssd.remove (getAbsolutePath st p) } p =
      (none, (stores st v p).2) := by
  simp [stores, entry, look_remove_of_ne hne.symm]

theorem allOrNothing_done_iff {v : World} :
    AllOrNothing st p w (v, .done) ↔ stores st v p = (none, none, none) :=
  ⟨fun h => h.all rfl, fun h => ⟨fun _ => h, fun _ he => absurd he (by simp)⟩⟩

theorem allOrNothing_fail_iff {v : World} {e : Fail} :
    AllOrNothing st p w (v, .fail e) ↔ stores st v p = stores st w p :=
  ⟨fun h => h.nothing e rfl, fun h => ⟨fun he => absurd he (by simp), fun _ _ => h⟩⟩

/-- **Unlink is all or nothing exactly when** each removal it made went as the last one did: where it
succeeds, the metadata file was found and removed, if there was one, and the object was deleted, if
there was one; where it fails, no metadata file was found, or it was not removed and no object
deleted. -/
theorem unlink_all_or_nothing_iff (hp : '/' ∈ p) :
    AllOrNothing st p w (serve st w (.unlink p env)) ↔
      if env.Removes st p w then
        ((stores st w p).2.1 = none ∨ env.Finds st p w ∧ env.unlinkMetadata = none) ∧
          ((stores st w p).2.2 = none ∨ env.Finds st p w ∧ env.delete.applied = true)
      else
        ¬ env.Finds st p w ∨ env.unlinkMetadata ≠ none ∧
          ((stores st w p).2.2 = none ∨ env.delete.applied = false) := by
  have hne : getAbsolutePath st p ≠ getMetadataPath st p := absolute_ne_metadata_of_slash hp
  have hfound : env.Finds st p w → (stores st w p).2.1 ≠ none := by
    intro hf
    rw [stores]
    simpa [Option.isSome_iff_ne_none] using isSome_look_of_accessible hf.2
  rcases serve_unlink_cases env w hne with ⟨hr, hserve⟩ | ⟨hr, e, hserve⟩
  · rw [hserve, if_pos hr, allOrNothing_done_iff, stores_remove _ hne, stores_withdrawn hne]
    simp only [Prod.mk.injEq, true_and, ite_eq_left_iff, imp_iff_or_not, not_not]
  · rw [hserve, if_neg hr, allOrNothing_fail_iff, stores_withdrawn hne]
    have hentry : entry st w p = (stores st w p).1 := rfl
    simp only [Prod.ext_iff, hentry, true_and, ite_eq_right_iff, eq_comm (a := none)]
    by_cases hf : env.Finds st p w
    · have hm := hfound hf
      rw [← Bool.not_eq_true]
      tauto
    · tauto

/-- An unlink whose delete the service refuses. -/
def refusedUnlink : UnlinkEnv := ⟨none, .failed .connectionFailed false, none, none⟩

/-- An unlink that cannot remove the path. -/
def failingUnlink : UnlinkEnv := ⟨none, .served, none, some (.other 30)⟩

theorem unlink_all_or_nothing_iff_refused :
    AllOrNothing (.sample 0) ['/', 'a'] twoByteObject
        (serve (.sample 0) twoByteObject (.unlink ['/', 'a'] refusedUnlink)) ↔
      if refusedUnlink.Removes (.sample 0) ['/', 'a'] twoByteObject then
        ((stores (.sample 0) twoByteObject ['/', 'a']).2.1 = none ∨
            refusedUnlink.Finds (.sample 0) ['/', 'a'] twoByteObject ∧
              refusedUnlink.unlinkMetadata = none) ∧
          ((stores (.sample 0) twoByteObject ['/', 'a']).2.2 = none ∨
            refusedUnlink.Finds (.sample 0) ['/', 'a'] twoByteObject ∧
              refusedUnlink.delete.applied = true)
      else
        ¬ refusedUnlink.Finds (.sample 0) ['/', 'a'] twoByteObject ∨
          refusedUnlink.unlinkMetadata ≠ none ∧
            ((stores (.sample 0) twoByteObject ['/', 'a']).2.2 = none ∨
              refusedUnlink.delete.applied = false) :=
  unlink_all_or_nothing_iff (by decide)

/-- **The first returns 0 and leaves the object**, which the path has again once it is made and
opened; the second returns an error and has lost the object and the metadata file. -/
theorem unlink_in_part :
    Reachable (.sample 0) twoByteObject ∧
      (serve (.sample 0) twoByteObject (.unlink ['/', 'a'] refusedUnlink)).2 = .done ∧
      stores (.sample 0) (serve (.sample 0) twoByteObject (.unlink ['/', 'a'] refusedUnlink)).1
        ['/', 'a'] = (none, none, some ⟨[1, 2], by decide⟩) ∧
      entry (.sample 0) (Machine.run (serve (.sample 0)) twoByteObject
        [.unlink ['/', 'a'] refusedUnlink, .mknod ['/', 'a'] 0o644 none,
          .openFile ['/', 'a'] ⟨.rdonly, false⟩ OpenEnv.calm]).1 ['/', 'a']
            = some (.reg ⟨[1, 2], by decide⟩) ∧
      (serve (.sample 0) twoByteObject (.unlink ['/', 'a'] failingUnlink)).2
        = .fail (.errno (.other 30)) ∧
      stores (.sample 0) (serve (.sample 0) twoByteObject (.unlink ['/', 'a'] failingUnlink)).1
        ['/', 'a'] = (entry (.sample 0) twoByteObject ['/', 'a'], none, none) ∧
      (stores (.sample 0) twoByteObject ['/', 'a']).2.1 ≠ none ∧
      (stores (.sample 0) twoByteObject ['/', 'a']).2.2 = some ⟨[1, 2], by decide⟩ ∧
      ∀ env ∈ [refusedUnlink, failingUnlink], ¬ AllOrNothing (.sample 0) ['/', 'a'] twoByteObject
        (serve (.sample 0) twoByteObject (.unlink ['/', 'a'] env)) := by
  refine ⟨reachable_twoByteObject, by decide, by decide, by decide, by decide, by decide,
    by decide, by decide, ?_⟩
  simp only [List.forall_mem_cons, List.not_mem_nil, false_implies, implies_true, and_true]
  constructor
  · intro h
    have hs := h.all (by decide)
    revert hs
    decide
  · intro h
    have hs := h.nothing (.errno (.other 30)) (by decide)
    revert hs
    decide

end CloudFS
