/-
  A register whose writes may be interrupted.

  A write that returns has been done; of one that is interrupted it is open
  whether it has been done.  The register may hold nothing that is known.
-/
import BinaryCoin.Lib.Runs

namespace Register

open Runs

variable {C : Type} {s s' : Option C} {ls : List (C × Bool)}

/-- A write of a value, and whether it has returned. -/
inductive Write : Option C → C × Bool → Option C → Prop
  | done (s : Option C) (c : C) (returned : Bool) : Write s (c, returned) (some c)
  | lost (s : Option C) (c : C) : Write s (c, false) s

/-- **The value at the end** is that of the last write that has returned, or of a later one. -/
theorem run_cases (h : Run Write s ls s') :
    (s' = s ∧ ∀ l ∈ ls, l.2 = false) ∨
      ∃ before c returned after, ls = before ++ (c, returned) :: after ∧ s' = some c ∧
        ∀ l ∈ after, l.2 = false := by
  induction h with
  | nil => exact .inl ⟨rfl, List.forall_mem_nil _⟩
  | @cons s s₁ s' l ls head tail ih =>
    rcases ih with ⟨rfl, hafter⟩ | ⟨before, c, returned, after, rfl, hs', hafter⟩
    · cases head with
      | done c returned => exact .inr ⟨[], c, returned, ls, rfl, rfl, hafter⟩
      | lost c => exact .inl ⟨rfl, List.forall_mem_cons.2 ⟨rfl, hafter⟩⟩
    · exact .inr ⟨l :: before, c, returned, after, rfl, hs', hafter⟩

end Register
