import Mathlib.Data.Nat.Notation
import Mathlib.Logic.Function.Basic

/-!
# Machinery/Table — a table of allocated slots

A table hands out slots in order and never hands out a live one: `Table` carries that fact
(`Table.unused`), so an allocated slot is new to whoever holds the old ones (`get_next`).
-/

/-- A table of allocated slots. -/
structure Table (α : Type) where
  get : ℕ → Option α
  next : ℕ
  unused : ∀ h, next ≤ h → get h = none

namespace Table

variable {α : Type} {t : Table α} {h k : ℕ} {a b : α}

/-- No slot is live. -/
def empty : Table α where
  get _ := none
  next := 0
  unused _ _ := rfl

/-- The next slot filled. -/
def alloc (t : Table α) (a : α) : Table α where
  get := Function.update t.get t.next (some a)
  next := t.next + 1
  unused h hh := by
    have hne : h ≠ t.next := by omega
    rw [Function.update_of_ne hne]
    exact t.unused h (by omega)

/-- A live slot refilled; a slot that is not live is left alone. -/
def set (t : Table α) (h : ℕ) (a : α) : Table α where
  get := if (t.get h).isSome then Function.update t.get h (some a) else t.get
  next := t.next
  unused k hk := by
    split
    case isTrue hs =>
      have hne : k ≠ h := fun e => by simp [← e, t.unused k hk] at hs
      rw [Function.update_of_ne hne]
      exact t.unused k hk
    case isFalse => exact t.unused k hk

/-- A slot given back. -/
def erase (t : Table α) (h : ℕ) : Table α where
  get := Function.update t.get h none
  next := t.next
  unused k hk := by
    by_cases hkh : k = h
    · rw [hkh, Function.update_self]
    · rw [Function.update_of_ne hkh]
      exact t.unused k hk

@[simp] theorem get_empty (h : ℕ) : (empty : Table α).get h = none := rfl

/-- **A slot about to be handed out is not live.** -/
@[simp] theorem get_next (t : Table α) : t.get t.next = none := t.unused _ (Nat.le_refl _)

theorem lt_next_of_get (hh : t.get h = some a) : h < t.next := by
  by_contra hc
  rw [t.unused h (Nat.not_lt.1 hc)] at hh
  exact absurd hh (by simp)

@[simp] theorem get_alloc_next (t : Table α) (a : α) : (t.alloc a).get t.next = some a :=
  Function.update_self ..

theorem get_alloc_of_ne (hk : k ≠ t.next) : (t.alloc a).get k = t.get k :=
  Function.update_of_ne hk ..

theorem get_set_self (hh : t.get h = some b) : (t.set h a).get h = some a := by
  simp [set, hh]

theorem get_set_of_ne (hk : k ≠ h) : (t.set h a).get k = t.get k := by
  unfold set
  dsimp only
  split
  · exact Function.update_of_ne hk ..
  · rfl

@[simp] theorem get_erase_self (t : Table α) (h : ℕ) : (t.erase h).get h = none :=
  Function.update_self ..

theorem get_erase_of_ne (hk : k ≠ h) : (t.erase h).get k = t.get k := Function.update_of_ne hk ..

/-- What is live after an allocation. -/
theorem get_alloc_eq_some (hk : (t.alloc a).get k = some b) :
    (k = t.next ∧ b = a) ∨ t.get k = some b := by
  by_cases hkn : k = t.next
  · rw [hkn, get_alloc_next] at hk
    exact Or.inl ⟨hkn, (Option.some.inj hk).symm⟩
  · rw [get_alloc_of_ne hkn] at hk
    exact Or.inr hk

/-- What is live after a slot was given back. -/
theorem get_erase_eq_some (hk : (t.erase h).get k = some b) : k ≠ h ∧ t.get k = some b := by
  by_cases hkh : k = h
  · rw [hkh, get_erase_self] at hk
    exact absurd hk (by simp)
  · rw [get_erase_of_ne hkh] at hk
    exact ⟨hkh, hk⟩

/-! ## Tables read through a map -/

/-- The slots of `u` are those of `t`, read through `g`. -/
structure Maps {β : Type} (g : α → β) (t : Table α) (u : Table β) : Prop where
  get : ∀ h, (t.get h).map g = u.get h
  next : t.next = u.next

namespace Maps

variable {β : Type} {g : α → β} {u : Table β} {t' : Table α}

theorem empty : Maps g (Table.empty : Table α) (Table.empty : Table β) := ⟨fun _ => rfl, rfl⟩

/-- A slot of `u` is one of `t`. -/
theorem exists_of_get (hm : Maps g t u) {b : β} (hb : u.get h = some b) :
    ∃ a, t.get h = some a ∧ g a = b := by
  rw [← hm.get] at hb
  exact Option.map_eq_some_iff.1 hb

theorem alloc (hm : Maps g t u) (a : α) : Maps g (t.alloc a) (u.alloc (g a)) where
  get h := by
    by_cases hh : h = t.next
    · rw [hh, get_alloc_next, hm.next, get_alloc_next]
      rfl
    · rw [get_alloc_of_ne hh, get_alloc_of_ne (hm.next ▸ hh)]
      exact hm.get h
  next := congrArg (· + 1) hm.next

theorem erase (hm : Maps g t u) (k : ℕ) : Maps g (t.erase k) (u.erase k) where
  get h := by
    by_cases hh : h = k
    · rw [hh, get_erase_self, get_erase_self]
      rfl
    · rw [get_erase_of_ne hh, get_erase_of_ne hh]
      exact hm.get h
  next := hm.next

theorem set (hm : Maps g t u) (k : ℕ) (a : α) : Maps g (t.set k a) (u.set k (g a)) where
  get h := by
    have hsome : (u.get k).isSome = (t.get k).isSome := by rw [← hm.get, Option.isSome_map]
    by_cases hh : h = k
    · subst hh
      cases ht : (t.get h).isSome <;> simp [Table.set, ht, hsome, hm.get]
    · rw [get_set_of_ne hh, get_set_of_ne hh]
      exact hm.get h
  next := hm.next

/-- Another map that reads the live slots alike. -/
theorem reread {g' : α → β} (hm : Maps g t u) (hg : ∀ h a, t.get h = some a → g' a = g a) :
    Maps g' t u where
  get h := (Option.map_congr (hg h)).trans (hm.get h)
  next := hm.next

/-- A change `g` does not see. -/
theorem congr (hm : Maps g t u) (hg : ∀ h, (t'.get h).map g = (t.get h).map g)
    (hn : t'.next = t.next) : Maps g t' u :=
  ⟨fun h => (hg h).trans (hm.get h), hn.trans hm.next⟩

end Maps

end Table
