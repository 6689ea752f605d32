/-
  Runs of labelled transition systems.

  A system is a step relation.  A run whose steps all meet a condition is a
  run of the relation restricted to it, so the rules below serve both.
-/
import Mathlib.Data.List.Basic
import Mathlib.Order.Defs.PartialOrder

namespace Runs

variable {S L : Type} {step : S → L → S → Prop} {s s₁ s' : S} {ls ls' : List L}

/-- The steps labelled `ls` lead from one state to another. -/
inductive Run (step : S → L → S → Prop) : S → List L → S → Prop
  | nil {s : S} : Run step s [] s
  | cons {s s₁ s' : S} {l : L} {ls : List L} (head : step s l s₁) (tail : Run step s₁ ls s') :
      Run step s (l :: ls) s'

namespace Run

theorem single {l : L} (h : step s l s') : Run step s [l] s' := .cons h .nil

theorem append (h : Run step s ls s₁) (h' : Run step s₁ ls' s') : Run step s (ls ++ ls') s' := by
  induction h with
  | nil => exact h'
  | cons head _ ih => exact .cons head (ih h')

/-- A state on the way. -/
theorem split (h : Run step s (ls ++ ls') s') :
    ∃ s₁, Run step s ls s₁ ∧ Run step s₁ ls' s' := by
  induction ls generalizing s with
  | nil => exact ⟨s, .nil, h⟩
  | cons l ls ih =>
    cases h with
    | cons head tail =>
      obtain ⟨s₂, h₁, h₂⟩ := ih tail
      exact ⟨s₂, .cons head h₁, h₂⟩

/-- What every step preserves holds at the end. -/
theorem invariant {I : S → Prop} (hstep : ∀ s l s', I s → step s l s' → I s')
    (h : Run step s ls s') (hs : I s) : I s' := by
  induction h with
  | nil => exact hs
  | cons head _ ih => exact ih (hstep _ _ _ hs head)

/-- A preorder that every step respects relates the ends. -/
theorem mono {P : Type} [Preorder P] {I : S → Prop} {f : S → P}
    (hstep : ∀ s l s', I s → step s l s' → I s' ∧ f s ≤ f s') (h : Run step s ls s') (hs : I s) :
    f s ≤ f s' := by
  induction h with
  | nil => exact le_rfl
  | cons head _ ih =>
    obtain ⟨hI, hle⟩ := hstep _ _ _ hs head
    exact le_trans hle (ih hI)

/-- A run of a relation is a run of any that contains it. -/
theorem imp {step' : S → L → S → Prop} (hsub : ∀ s l s', step s l s' → step' s l s')
    (h : Run step s ls s') : Run step' s ls s' := by
  induction h with
  | nil => exact .nil
  | cons head _ ih => exact .cons (hsub _ _ _ head) ih

/-- The rule of simulation: what one step of the concrete system does, the abstract one can do. -/
theorem simulates {S' L' : Type} {step' : S' → L' → S' → Prop} {R : S → S' → Prop} {f : L → L'}
    (hstep : ∀ s l s' t, R s t → step s l s' → ∃ t', step' t (f l) t' ∧ R s' t')
    (h : Run step s ls s') {t : S'} (hR : R s t) : ∃ t', Run step' t (ls.map f) t' ∧ R s' t' := by
  induction h generalizing t with
  | nil => exact ⟨t, .nil, hR⟩
  | cons head _ ih =>
    obtain ⟨t₁, hfirst, hR₁⟩ := hstep _ _ _ _ hR head
    obtain ⟨t', hrest, hR'⟩ := ih hR₁
    exact ⟨t', .cons hfirst hrest, hR'⟩

end Run

end Runs
