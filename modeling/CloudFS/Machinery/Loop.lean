import Mathlib.Order.Basic
import Mathlib.Algebra.Order.Ring.Nat

/-!
# Machinery/Loop — loops that jump back to their label

One turn of a loop either jumps back with a new state or leaves with a result.  `run` follows the
jumps for as long as it has fuel.  A loop computes whatever its turns keep (`Keeps`), if each jump
makes a variant fall (`run_eq_some`).
-/

namespace Loop

variable {σ α : Type*}

/-- The result of a loop; `none` if it takes more than `fuel` turns. -/
def run (body : σ → σ ⊕ α) : ℕ → σ → Option α
  | 0, _ => none
  | fuel + 1, s =>
    match body s with
    | .inl s' => run body fuel s'
    | .inr a => some a

/-- Every turn keeps what `f` says: a jump of the state it jumps to, with the variant lower, and the
end of the result. -/
def Keeps (body : σ → σ ⊕ α) (f : σ → α) (variant : σ → ℕ) : Prop :=
  ∀ s, match body s with
    | .inl s' => f s' = f s ∧ variant s' < variant s
    | .inr a => a = f s

/-- **The rule for loops**: what every turn keeps is the result. -/
theorem run_eq_some {body : σ → σ ⊕ α} {f : σ → α} {variant : σ → ℕ} (hkeeps : Keeps body f variant)
    {fuel : ℕ} {s : σ} (hfuel : variant s < fuel) : run body fuel s = some (f s) := by
  induction fuel generalizing s with
  | zero => exact absurd hfuel (Nat.not_lt_zero _)
  | succ fuel ih =>
    have hs := hkeeps s
    rw [run]
    cases hb : body s with
    | inl s' =>
      rw [hb] at hs
      obtain ⟨hf, hv⟩ := hs
      rw [← hf]
      exact ih (by omega)
    | inr a =>
      rw [hb] at hs
      exact congrArg some hs

end Loop
