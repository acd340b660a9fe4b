import Mathlib.Data.List.Rotate

/-!
# Machinery/Window — the last entries of a stream, kept in a ring

`last w pad l` is what a window of width `w` shows of the stream `l`, padded on the left while the
stream is shorter.  Overwriting the oldest entry of a ring slides the window (`rotate_set`), and a
window as wide as a suffix at most shows nothing older (`last_append_of_le`).
-/

namespace Window

variable {α : Type*} {w p : ℕ} {pad a : α} {l s : List α}

/-- The last `w` entries of a stream, after `w` entries `pad`. -/
def last (w : ℕ) (pad : α) (l : List α) : List α := (List.replicate w pad ++ l).drop l.length

@[simp] theorem length_last (w : ℕ) (pad : α) (l : List α) : (last w pad l).length = w := by
  rw [last, List.length_drop, List.length_append, List.length_replicate, Nat.add_sub_cancel]

@[simp] theorem last_nil (w : ℕ) (pad : α) : last w pad [] = List.replicate w pad :=
  List.append_nil _

/-- **One more entry slides the window.** -/
theorem last_concat (hw : 0 < w) (pad : α) (l : List α) (a : α) :
    last w pad (l ++ [a]) = (last w pad l).tail ++ [a] := by
  have hl : l.length + 1 ≤ (List.replicate w pad ++ l).length := by
    rw [List.length_append, List.length_replicate]
    omega
  rw [last, last, List.tail_drop, ← List.append_assoc, List.length_append, List.length_singleton,
    List.drop_append_of_le_length hl]

/-- A window no wider than a suffix shows that suffix alone. -/
theorem last_append_of_le (h : w ≤ s.length) (pad : α) (l : List α) :
    last w pad (l ++ s) = s.drop (s.length - w) := by
  have hs : (l ++ s).length = (List.replicate w pad ++ l).length + (s.length - w) := by
    simp only [List.length_append, List.length_replicate]
    omega
  rw [last, ← List.append_assoc, hs, List.drop_append, List.drop_of_length_le (by omega),
    List.nil_append]
  congr 1
  omega

/-- **Overwriting the oldest entry of a ring** makes it the newest. -/
theorem rotate_set (hp : p < l.length) (a : α) :
    (l.set p a).rotate (p + 1) = (l.rotate p).tail ++ [a] := by
  have hp' : p + 1 ≤ (l.set p a).length := by rwa [List.length_set]
  rw [List.rotate_eq_drop_append_take hp', List.rotate_eq_drop_append_take hp.le,
    List.drop_set_of_lt (Nat.lt_succ_self p), List.take_add_one, List.take_set_of_le le_rfl,
    List.getElem?_set_self hp, List.tail_append_of_ne_nil, List.tail_drop]
  · simp
  · exact List.ne_nil_of_length_pos (by rw [List.length_drop]; omega)

/-- The oldest entry of a ring comes first when it is unrolled. -/
theorem head?_rotate (hp : p < l.length) : (l.rotate p).head? = l[p]? := by
  rw [List.rotate_eq_drop_append_take hp.le, List.head?_append_of_ne_nil, List.head?_drop]
  exact List.ne_nil_of_length_pos (by rw [List.length_drop]; omega)

end Window
