import Mathlib.Data.List.Chain
import Mathlib.Order.Bounds.Basic

/-!
# Machinery/Greedy — cutting a stream at the first place that will do

A segment may end where its length is between `mn` and `mx` and there is a hit, or its length is
`mx`.  `Cuts` says that a list of offsets is the greedy cutting of a stream: each cut is the first
place after the last one that will do.  There is one such list (`Cuts.unique`), and two streams with
the same hits from some cut on are cut alike from there (`Cuts.shift`).
-/

namespace Greedy

/-- A segment that starts at `a` may end at `b`. -/
structure Ends (mn mx : ℕ) (hit : ℕ → Prop) (a b : ℕ) : Prop where
  min_le : a + mn ≤ b
  le_max : b ≤ a + mx
  hit_or : hit b ∨ b = a + mx

/-- **The greedy cuts** after `a` of a stream of length `n`. -/
def Cuts (mn mx : ℕ) (hit : ℕ → Prop) (n : ℕ) : ℕ → List ℕ → Prop
  | a, [] => ∀ b ≤ n, ¬ Ends mn mx hit a b
  | a, b :: bs => IsLeast {b | Ends mn mx hit a b} b ∧ b ≤ n ∧ Cuts mn mx hit n b bs

/-- Greedy cuts that lead from `a` to the last of them, `e`. -/
def Chain (mn mx : ℕ) (hit : ℕ → Prop) : ℕ → List ℕ → ℕ → Prop
  | a, [], e => a = e
  | a, b :: bs, e => IsLeast {b | Ends mn mx hit a b} b ∧ Chain mn mx hit b bs e

variable {mn mx n a b d d' e : ℕ} {hit hit' : ℕ → Prop} {l l' l₁ l₂ : List ℕ}

namespace Chain

theorem append (h : Chain mn mx hit a l b) (h' : Chain mn mx hit b l' e) :
    Chain mn mx hit a (l ++ l') e := by
  induction l generalizing a with
  | nil => exact h ▸ h'
  | cons c l ih => exact ⟨h.1, ih h.2⟩

theorem le (h : Chain mn mx hit a l e) : a ≤ e := by
  induction l generalizing a with
  | nil => exact h.le
  | cons c l ih => exact le_trans (le_trans (Nat.le_add_right a mn) h.1.1.min_le) (ih h.2)

/-- A chain leads to its last cut. -/
theorem last (h : Chain mn mx hit a l e) : e = l.getLastD a := by
  induction l generalizing a with
  | nil => exact h.symm
  | cons c l ih => rw [List.getLastD_cons, ih h.2]

/-- The last segment of a chain. -/
theorem ends_last (h : Chain mn mx hit a (l ++ [b]) e) : Ends mn mx hit (l.getLastD a) b := by
  induction l generalizing a with
  | nil => exact h.1.1
  | cons c l ih =>
    rw [List.getLastD_cons]
    exact ih h.2

/-- A chain after which there is no other cut has them all. -/
theorem cuts (h : Chain mn mx hit a l e) (he : e ≤ n) (hn : ∀ b ≤ n, ¬ Ends mn mx hit e b) :
    Cuts mn mx hit n a l := by
  induction l generalizing a with
  | nil => exact h ▸ hn
  | cons c l ih => exact ⟨h.1, h.2.le.trans he, ih h.2⟩

end Chain

namespace Cuts

/-- **There is one greedy cutting.** -/
theorem unique (h : Cuts mn mx hit n a l) (h' : Cuts mn mx hit n a l') : l = l' := by
  induction l generalizing a l' with
  | nil =>
    cases l' with
    | nil => rfl
    | cons c l' => exact absurd h'.1.1 (h c h'.2.1)
  | cons b l ih =>
    cases l' with
    | nil => exact absurd h.1.1 (h' b h.2.1)
    | cons c l' =>
      obtain rfl := h.1.unique h'.1
      rw [ih h.2.2 h'.2.2]

/-- Each segment has a length between `mn` and `mx`. -/
theorem isChain (h : Cuts mn mx hit n a l) :
    List.IsChain (fun a b => a + mn ≤ b ∧ b ≤ a + mx) (a :: l) := by
  induction l generalizing a with
  | nil => exact List.isChain_singleton a
  | cons b l ih => exact List.isChain_cons_cons.2 ⟨⟨h.1.1.min_le, h.1.1.le_max⟩, ih h.2.2⟩

/-- Each cut comes after where the first segment starts. -/
theorem lt_of_mem (hmn : 0 < mn) (h : Cuts mn mx hit n a l) : ∀ b ∈ l, a < b := by
  induction l generalizing a with
  | nil => exact fun b hb => absurd hb (by simp)
  | cons c l ih =>
    have hac : a < c := by
      have := h.1.1.min_le
      omega
    intro b hb
    rcases List.mem_cons.1 hb with rfl | hb
    · exact hac
    · exact hac.trans (ih h.2.2 b hb)

/-- **From a cut on** the cuts are those of a segment that starts there; the cuts before come
before it. -/
theorem split (hmn : 0 < mn) (h : Cuts mn mx hit n a l) (hb : b ∈ l) :
    ∃ l₁ l₂, l = l₁ ++ b :: l₂ ∧ (∀ c ∈ l₁, c < b) ∧ Cuts mn mx hit n b l₂ := by
  induction l generalizing a with
  | nil => exact absurd hb (by simp)
  | cons c l ih =>
    rcases List.mem_cons.1 hb with rfl | hb
    · exact ⟨[], l, rfl, by simp, h.2.2⟩
    · obtain ⟨l₁, l₂, rfl, hlt, hc⟩ := ih h.2.2 hb
      have hcb := lt_of_mem hmn h.2.2 b (by simp)
      refine ⟨c :: l₁, l₂, rfl, fun x hx => ?_, hc⟩
      rcases List.mem_cons.1 hx with rfl | hx
      · exact hcb
      · exact hlt x hx

/-- Where every segment has length one, every place is a cut. -/
theorem eq_range' (h : Cuts 1 1 hit n a l) : l = List.range' (a + 1) (n - a) := by
  induction l generalizing a with
  | nil =>
    have hna : n ≤ a := not_lt.1 fun hlt => h (a + 1) hlt ⟨le_rfl, le_rfl, Or.inr rfl⟩
    rw [Nat.sub_eq_zero_of_le hna]
    rfl
  | cons b l ih =>
    obtain rfl : b = a + 1 := le_antisymm h.1.1.le_max h.1.1.min_le
    have hsucc : n - a = (n - (a + 1)) + 1 := by
      have := h.2.1
      omega
    rw [ih h.2.2, hsucc, List.range'_succ]

end Cuts

/-! ## Two streams with the same hits -/

/-- Where the hits agree, segments end alike. -/
theorem ends_shift (hhit : ∀ b, a + mn ≤ b → b ≤ n → (hit (b + d) ↔ hit' (b + d'))) (hb : b ≤ n) :
    Ends mn mx hit (a + d) (b + d) ↔ Ends mn mx hit' (a + d') (b + d') := by
  constructor
  all_goals
    intro h
    have h1 := h.min_le
    have h2 := h.le_max
    have hh := hhit b (by omega) hb
    refine ⟨by omega, by omega, ?_⟩
    rcases h.hit_or with h3 | h3
  · exact Or.inl (hh.1 h3)
  · exact Or.inr (by omega)
  · exact Or.inl (hh.2 h3)
  · exact Or.inr (by omega)

theorem isLeast_shift (hhit : ∀ b, a + mn ≤ b → b ≤ n → (hit (b + d) ↔ hit' (b + d')))
    (hb : b ≤ n) (h : IsLeast {b | Ends mn mx hit (a + d) b} (b + d)) :
    IsLeast {b | Ends mn mx hit' (a + d') b} (b + d') := by
  refine ⟨(ends_shift hhit hb).1 h.1, fun c hc => ?_⟩
  have hge : a + d' + mn ≤ c := hc.min_le
  obtain ⟨x, rfl⟩ := Nat.exists_eq_add_of_le' (show d' ≤ c by omega)
  by_contra hlt
  have hx : x ≤ n := by omega
  have := h.2 ((ends_shift hhit hx).2 hc)
  omega

/-- **Streams with the same hits** after a cut are cut alike after it. -/
theorem Cuts.shift (hhit : ∀ b, a + mn ≤ b → b ≤ n → (hit (b + d) ↔ hit' (b + d')))
    (h : Cuts mn mx hit (n + d) (a + d) (l.map (· + d))) :
    Cuts mn mx hit' (n + d') (a + d') (l.map (· + d')) := by
  induction l generalizing a with
  | nil =>
    intro b hb he
    have hge := he.min_le
    obtain ⟨x, rfl⟩ := Nat.exists_eq_add_of_le' (show d' ≤ b by omega)
    have hx : x ≤ n := by omega
    exact h (x + d) (by omega) ((ends_shift hhit hx).2 he)
  | cons b l ih =>
    obtain ⟨h1, h2, h3⟩ := h
    have hb : b ≤ n := Nat.le_of_add_le_add_right h2
    have hab : a + d + mn ≤ b + d := h1.1.min_le
    exact ⟨isLeast_shift hhit hb h1, Nat.add_le_add_right hb d',
      ih (fun c hc => hhit c (by omega)) h3⟩

end Greedy
