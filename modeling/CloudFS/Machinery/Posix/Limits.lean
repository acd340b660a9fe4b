import CloudFS.Machinery.Posix.Laws

/-!
# Machinery/Posix/Limits — the lengths of names

A path has fewer than `PATH_MAX` bytes, and each of its components at most `NAME_MAX`.  A call on a
name that breaks either fails, whatever the name leads to; the target of a link is only a path until
the link is followed.
-/

namespace Posix

/-- The longest component of a path. -/
def NAME_MAX : ℕ := 255

/-- The longest path, with the zero that ends it. -/
def PATH_MAX : ℕ := 4096

/-- The file system admits the name. -/
def Admitted (x : Name) : Prop :=
  x.length < PATH_MAX ∧ ∀ c ∈ x.splitOn '/', c.length ≤ NAME_MAX

instance (x : Name) : Decidable (Admitted x) := inferInstanceAs (Decidable (_ ∧ _))

/-- How a call on `x` itself fails by its length. -/
def nameFault (x : Name) : Fault := if Admitted x then none else some .ENAMETOOLONG

/-- How a call that follows a link from `x` fails by the lengths of the two. -/
def Fs.walkFault (fs : Fs) (x : Name) : Fault :=
  if Admitted x ∧ Admitted (fs.follow x) then none else some .ENAMETOOLONG

/-- How `symlink(2)` fails by the lengths of its names. -/
def linkFault (target x : Name) : Fault :=
  if target.length < PATH_MAX ∧ Admitted x then none else some .ENAMETOOLONG

variable {x y : Name} {fs : Fs}

theorem nameFault_eq_none_iff : nameFault x = none ↔ Admitted x := by
  rw [nameFault]
  split <;> simp_all

/-- **A name below a directory** is admitted exactly when the two parts are and the whole is no
longer than a path may be. -/
theorem admitted_below_iff (h : '/' ∉ y) : Admitted (x ++ ['/'] ++ y) ↔
    y.length ≤ NAME_MAX ∧ x.length + 1 + y.length < PATH_MAX ∧
      ∀ c ∈ x.splitOn '/', c.length ≤ NAME_MAX := by
  have hs : (x ++ ['/'] ++ y).splitOn '/' = x.splitOn '/' ++ [y] := by
    rw [List.append_assoc, List.singleton_append, List.splitOn_append_cons_self,
      List.splitOn_eq_singleton h]
  rw [Admitted, hs, List.length_append, List.length_append, List.length_singleton,
    List.forall_mem_append, List.forall_mem_singleton]
  tauto

/-- A call that follows no link fails as one on the name itself. -/
theorem walkFault_of_not_link (h : fs.readlink x = none) : fs.walkFault x = nameFault x := by
  simp only [Fs.walkFault, Fs.follow_of_not_link h, and_self, nameFault]

theorem linkFault_of_admitted (hx : Admitted x) (hy : Admitted y) : linkFault x y = none :=
  if_pos ⟨hx.1, hy⟩

end Posix
