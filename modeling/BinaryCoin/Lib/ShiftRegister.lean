/-
  Linear shift registers, as checksums use them.

  A register is shifted, and a symbol is added to it.  Where shifting is linear
  for an addition in which every element is its own inverse, the difference
  that an error makes does not depend on the rest of the word.
-/
import Mathlib.Logic.Function.Iterate

namespace ShiftRegister

variable {S V : Type}

/-- The addition of the states and what a shift does to it. -/
structure Linear (add : S → S → S) (zero : S) (shift : S → S) : Prop where
  assoc : ∀ a b c, add (add a b) c = add a (add b c)
  comm : ∀ a b, add a b = add b a
  add_zero : ∀ a, add a zero = a
  add_self : ∀ a, add a a = zero
  shift_add : ∀ a b, shift (add a b) = add (shift a) (shift b)

/-- The register after the symbols. -/
def run (add : S → S → S) (shift : S → S) (embed : V → S) (s : S) (vs : List V) : S :=
  vs.foldl (fun s v => add (shift s) (embed v)) s

variable {add : S → S → S} {zero : S} {shift : S → S} {embed : V → S} {s d : S} {v v' w w' : V}
  {vs l m r : List V}

theorem run_append : run add shift embed s (l ++ r) =
    run add shift embed (run add shift embed s l) r := List.foldl_append

theorem run_cons : run add shift embed s (v :: vs) =
    run add shift embed (add (shift s) (embed v)) vs := rfl

namespace Linear
variable (h : Linear add zero shift)
include h

/-- Two elements are equal where their sum is zero. -/
theorem eq_of_add_eq_zero {a b : S} (hab : add a b = zero) : a = b := by
  calc a = add a (add b b) := by rw [h.add_self, h.add_zero]
    _ = add (add a b) b := (h.assoc a b b).symm
    _ = add b zero := by rw [hab, h.comm]
    _ = b := h.add_zero b

/-- The sum of what two sums have apart. -/
theorem add_add_cancel (a b c : S) : add (add a b) (add b c) = add a c := by
  rw [h.assoc, ← h.assoc b b c, h.add_self, h.comm zero, h.add_zero]

theorem add_right_eq_self {a b : S} (hab : add a b = a) : b = zero := by
  calc b = add (add b a) a := by rw [h.assoc, h.add_self, h.add_zero]
    _ = add a a := by rw [h.comm b, hab]
    _ = zero := h.add_self a

/-- **A difference of the state** is shifted by every symbol. -/
theorem run_add : run add shift embed (add s d) vs =
    add (run add shift embed s vs) (shift^[vs.length] d) := by
  induction vs generalizing s d with
  | nil => rfl
  | cons v vs ih =>
    have hstep : add (shift (add s d)) (embed v) = add (add (shift s) (embed v)) (shift d) := by
      rw [h.shift_add, h.assoc, h.comm (shift d), ← h.assoc]
    rw [run_cons, hstep, ih, List.length_cons, Function.iterate_succ_apply]
    rfl

/-- **Another symbol** at one place. -/
theorem run_replace : run add shift embed s (l ++ v' :: r) =
    add (run add shift embed s (l ++ v :: r)) (shift^[r.length] (add (embed v) (embed v'))) := by
  have hstep : ∀ t, add (shift t) (embed v') =
      add (add (shift t) (embed v)) (add (embed v) (embed v')) := by
    intro t
    rw [h.add_add_cancel]
  rw [run_append, run_cons, hstep, h.run_add, ← run_cons, ← run_append]

/-- An error that is not detected leaves nothing at the end. -/
theorem single_error
    (heq : run add shift embed s (l ++ v' :: r) = run add shift embed s (l ++ v :: r)) :
    shift^[r.length] (add (embed v) (embed v')) = zero :=
  h.add_right_eq_self (h.run_replace.symm.trans heq)

/-- Two errors that are not detected: the first, shifted to the place of the second, is undone. -/
theorem double_error (heq : run add shift embed s (l ++ v' :: (m ++ w' :: r)) =
      run add shift embed s (l ++ v :: (m ++ w :: r))) :
    shift^[r.length] (add (shift^[m.length + 1] (add (embed v) (embed v')))
      (add (embed w) (embed w'))) = zero := by
  have hshift : ∀ n a b, shift^[n] (add a b) = add (shift^[n] a) (shift^[n] b) := by
    intro n
    induction n with
    | zero => exact fun _ _ => rfl
    | succ n ih =>
      intro a b
      rw [Function.iterate_succ_apply, h.shift_add, ih, Function.iterate_succ_apply,
        Function.iterate_succ_apply]
  have hfirst : run add shift embed s (l ++ v' :: (m ++ w' :: r)) =
      add (run add shift embed s (l ++ v :: (m ++ w' :: r)))
        (shift^[(m ++ w' :: r).length] (add (embed v) (embed v'))) := h.run_replace
  have hsecond : run add shift embed s (l ++ v :: (m ++ w' :: r)) =
      add (run add shift embed s (l ++ v :: (m ++ w :: r)))
        (shift^[r.length] (add (embed w) (embed w'))) := by
    have hreplace : run add shift embed s ((l ++ v :: m) ++ w' :: r) =
        add (run add shift embed s ((l ++ v :: m) ++ w :: r))
          (shift^[r.length] (add (embed w) (embed w'))) := h.run_replace
    rwa [List.append_assoc, List.append_assoc] at hreplace
  rw [hfirst, hsecond, h.assoc] at heq
  have hzero := h.add_right_eq_self heq
  have hlength : (m ++ w' :: r).length = r.length + (m.length + 1) := by
    rw [List.length_append, List.length_cons]
    omega
  rw [h.comm, hlength, Function.iterate_add_apply, ← hshift] at hzero
  exact hzero

end Linear

/-- What is not zero is not shifted to zero, among states of which no other one is. -/
theorem iterate_ne_zero {I : S → Prop} (hker : ∀ a, I a → shift a = zero → a = zero)
    (hI : ∀ a, I (shift a)) {a : S} (ha : I a) (hne : a ≠ zero) (n : ℕ) : shift^[n] a ≠ zero := by
  induction n generalizing a with
  | zero => exact hne
  | succ n ih =>
    rw [Function.iterate_succ_apply]
    exact ih (hI a) fun hzero => hne (hker a ha hzero)

end ShiftRegister
