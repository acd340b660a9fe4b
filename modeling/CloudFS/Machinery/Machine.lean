import Mathlib.Data.List.Forall2
import Mathlib.Logic.Function.Basic

/-!
# Machinery/Machine — runs of a deterministic machine

A machine is a step function from a state and an input to a state and an output.  `run` feeds it a
list of inputs; `Legal` says every input of the list was allowed in the state it met.  Two rules
carry everything proved over runs: what every legal step keeps holds after every legal run
(`invariant_run`), and a relation every legal step keeps, with equal observations, makes one
machine refine another over every legal run (`simulation_run`).
-/

namespace Machine

variable {σ τ ι κ ο ω : Type*}

/-- The state and the outputs after a list of inputs. -/
def run (step : σ → ι → σ × ο) (s : σ) : List ι → σ × List ο
  | [] => (s, [])
  | i :: is => ((run step (step s i).1 is).1, (step s i).2 :: (run step (step s i).1 is).2)

/-- Every input was allowed in the state it met. -/
def Legal (step : σ → ι → σ × ο) (ok : σ → ι → Prop) (s : σ) : List ι → Prop
  | [] => True
  | i :: is => ok s i ∧ Legal step ok (step s i).1 is

variable {step : σ → ι → σ × ο} {ok : σ → ι → Prop}

@[simp] theorem run_nil (s : σ) : run step s [] = (s, []) := rfl

theorem run_cons (s : σ) (i : ι) (is : List ι) :
    (run step s (i :: is)).1 = (run step (step s i).1 is).1 := rfl

theorem run_append (s : σ) (is js : List ι) :
    (run step s (is ++ js)).1 = (run step (run step s is).1 js).1 := by
  induction is generalizing s with
  | nil => rfl
  | cons i is ih => exact ih _

theorem run_append_snd (s : σ) (is js : List ι) :
    (run step s (is ++ js)).2 = (run step s is).2 ++ (run step (run step s is).1 js).2 := by
  induction is generalizing s with
  | nil => rfl
  | cons i is ih => exact congrArg _ (ih _)

/-- A run that ends with `j`. -/
theorem run_concat (s : σ) (is : List ι) (j : ι) :
    run step s (is ++ [j]) = ((step (run step s is).1 j).1,
      (run step s is).2 ++ [(step (run step s is).1 j).2]) :=
  Prod.ext (run_append s is [j]) (run_append_snd s is [j])

theorem legal_append {s : σ} {is js : List ι} :
    Legal step ok s (is ++ js) ↔ Legal step ok s is ∧ Legal step ok (run step s is).1 js := by
  induction is generalizing s with
  | nil => exact ⟨fun h => ⟨trivial, h⟩, fun h => h.2⟩
  | cons i is ih => exact ⟨fun h => ⟨⟨h.1, (ih.1 h.2).1⟩, (ih.1 h.2).2⟩,
      fun h => ⟨h.1.1, ih.2 ⟨h.1.2, h.2⟩⟩⟩

theorem legal_mono {ok' : σ → ι → Prop} (hok : ∀ s i, ok s i → ok' s i) {s : σ} {is : List ι}
    (h : Legal step ok s is) : Legal step ok' s is := by
  induction is generalizing s with
  | nil => trivial
  | cons i is ih => exact ⟨hok s i h.1, ih h.2⟩

/-- Inputs allowed in every state are a legal run. -/
theorem legal_of_forall {is : List ι} (h : ∀ i ∈ is, ∀ s, ok s i) (s : σ) :
    Legal step ok s is := by
  induction is generalizing s with
  | nil => trivial
  | cons i is ih =>
    obtain ⟨hi, his⟩ := List.forall_mem_cons.1 h
    exact ⟨hi s, ih his _⟩

/-- What every allowed input has, every input of a legal run has. -/
theorem legal_forall {P : ι → Prop} (hP : ∀ s i, ok s i → P i) {s : σ} {is : List ι}
    (h : Legal step ok s is) : ∀ i ∈ is, P i := by
  induction is generalizing s with
  | nil => exact fun i hi => absurd hi (by simp)
  | cons j is ih =>
    intro i hi
    rcases List.mem_cons.1 hi with rfl | hi
    · exact hP s i h.1
    · exact ih h.2 i hi

instance [∀ s i, Decidable (ok s i)] : ∀ (s : σ) (is : List ι), Decidable (Legal step ok s is)
  | _, [] => isTrue trivial
  | s, i :: is =>
    have := instDecidableLegal (step s i).1 is
    inferInstanceAs (Decidable (ok s i ∧ Legal step ok (step s i).1 is))

/-- **The invariant rule.** -/
theorem invariant_run {I : σ → Prop} (hstep : ∀ s i, I s → ok s i → I (step s i).1) :
    ∀ (is : List ι) (s : σ), I s → Legal step ok s is → I (run step s is).1
  | [], _, hs, _ => hs
  | i :: is, s, hs, hl => invariant_run hstep is _ (hstep s i hs hl.1) hl.2

/-- **The simulation rule.**  `asks k i` reads the concrete input `i` as the abstract input `k`,
`obs` a concrete output as an abstract one; legality is that of the abstract machine. -/
theorem simulation_run {astep : τ → κ → τ × ω} {aok : τ → κ → Prop} {R : σ → τ → Prop}
    {asks : κ → ι → Prop} {obs : ο → ω}
    (hsim : ∀ s a i k, R s a → asks k i → aok a k →
      R (step s i).1 (astep a k).1 ∧ obs (step s i).2 = (astep a k).2)
    {ks : List κ} {is : List ι} (hask : List.Forall₂ asks ks is) {s : σ} {a : τ} (hR : R s a)
    (hl : Legal astep aok a ks) :
    R (run step s is).1 (run astep a ks).1 ∧ (run step s is).2.map obs = (run astep a ks).2 := by
  induction hask generalizing s a with
  | nil => exact ⟨hR, rfl⟩
  | cons hk _ ih =>
    obtain ⟨hR', ho⟩ := hsim _ _ _ _ hR hk hl.1
    obtain ⟨h1, h2⟩ := ih hR' hl.2
    exact ⟨h1, congrArg₂ List.cons ho h2⟩

/-- What reads a list in two parts is read in two parts. -/
theorem forall₂_append_left {R : κ → ι → Prop} {ks ls : List κ} {is : List ι}
    (h : List.Forall₂ R (ks ++ ls) is) :
    ∃ is₁ is₂, is = is₁ ++ is₂ ∧ List.Forall₂ R ks is₁ ∧ List.Forall₂ R ls is₂ := by
  have hflip : List.Forall₂ (flip R) is (ks ++ ls) := List.Forall₂.flip h
  exact ⟨_, _, (List.take_append_drop ks.length is).symm,
    (List.forall₂_take_append is ks ls hflip).flip, (List.forall₂_drop_append is ks ls hflip).flip⟩

end Machine
