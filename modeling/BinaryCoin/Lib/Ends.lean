/-
  Computations with a state and exceptions.

  A computation leaves a state behind whether it returns or throws.  `Ends` says
  something about that state, and `Meets` tells the two ways apart.
-/
import Mathlib.Logic.Basic

namespace Stateful

variable {E S A B : Type} {I J : S → Prop} {s : S}

/-- The state that is left behind. -/
def final : EStateM.Result E S A → S
  | .ok _ s => s
  | .error _ s => s

/-- The state that `x` leaves behind when it starts from `s` satisfies `I`. -/
def Ends (I : S → Prop) (x : EStateM E S A) (s : S) : Prop := I (final (x.run s))

theorem Ends.pure {a : A} (h : I s) : Ends I (pure a : EStateM E S A) s := h

theorem Ends.throw {e : E} (h : I s) : Ends I (throw e : EStateM E S A) s := h

theorem Ends.set {s' : S} (h : I s') : Ends I (set s' : EStateM E S PUnit) s := h

theorem Ends.get_bind {f : S → EStateM E S A} (h : Ends I (f s) s) : Ends I (get >>= f) s := h

theorem Ends.imp {x : EStateM E S A} (h : Ends I x s) (himp : ∀ s', I s' → J s') : Ends J x s :=
  himp _ h

/-- What is left behind by a part is what is left behind, or the rest goes on from there. -/
theorem Ends.bind {x : EStateM E S A} {f : A → EStateM E S B} (hx : Ends I x s)
    (hf : ∀ a s', x.run s = .ok a s' → I s' → Ends I (f a) s') : Ends I (x >>= f) s := by
  rw [Ends, EStateM.run_bind]
  rw [Ends] at hx
  cases hrun : x.run s with
  | ok a s' =>
    rw [hrun] at hx
    exact hf a s' hrun hx
  | error e s' =>
    rw [hrun] at hx
    exact hx

variable {Q Q' : A → S → Prop} {F F' : E → S → Prop}

/-- From `s`, `x` returns as `Q` says or throws as `F` says. -/
def Meets (Q : A → S → Prop) (F : E → S → Prop) (x : EStateM E S A) (s : S) : Prop :=
  match x.run s with
  | .ok a s' => Q a s'
  | .error e s' => F e s'

theorem Meets.pure {a : A} (h : Q a s) : Meets Q F (pure a : EStateM E S A) s := h

theorem Meets.throw {e : E} (h : F e s) : Meets Q F (throw e : EStateM E S A) s := h

theorem Meets.get_bind {f : S → EStateM E S A} (h : Meets Q F (f s) s) :
    Meets Q F (get >>= f) s := h

theorem Meets.modify_bind {g : S → S} {f : PUnit → EStateM E S A} (h : Meets Q F (f ⟨⟩) (g s)) :
    Meets Q F (modify g >>= f) s := h

theorem Meets.modify {Q : PUnit → S → Prop} {g : S → S} (h : Q ⟨⟩ (g s)) :
    Meets Q F (modify g : EStateM E S PUnit) s := h

theorem Meets.of_ok {x : EStateM E S A} {a : A} {s' : S} (hrun : x.run s = .ok a s') (h : Q a s') :
    Meets Q F x s := by
  rw [Meets, hrun]
  exact h

theorem Meets.imp {x : EStateM E S A} (h : Meets Q F x s) (himp : ∀ a s', Q a s' → Q' a s')
    (hthrow : ∀ e s', F e s' → F' e s') : Meets Q' F' x s := by
  rw [Meets] at h ⊢
  cases hrun : x.run s with
  | ok a s' =>
    rw [hrun] at h
    exact himp a s' h
  | error e s' =>
    rw [hrun] at h
    exact hthrow e s' h

theorem Ends.meets {x : EStateM E S A} (h : Ends I x s) (himp : ∀ s', I s' → J s') :
    Meets (fun _ s' => I s') (fun _ s' => J s') x s := by
  rw [Ends] at h
  rw [Meets]
  cases hrun : x.run s with
  | ok a s' =>
    rw [hrun] at h
    exact h
  | error e s' =>
    rw [hrun] at h
    exact himp s' h

/-- A part, and the rest from where it has returned. -/
theorem Meets.bind {B : Type} {R : B → S → Prop} {x : EStateM E S A} {f : A → EStateM E S B}
    (hx : Meets Q F x s) (hf : ∀ a s', Q a s' → Meets R F (f a) s') : Meets R F (x >>= f) s := by
  rw [Meets, EStateM.run_bind]
  rw [Meets] at hx
  cases hrun : x.run s with
  | ok a s' =>
    rw [hrun] at hx
    exact hf a s' hx
  | error e s' =>
    rw [hrun] at hx
    exact hx

theorem Meets.ok_bind {B : Type} {R : B → S → Prop} {x : EStateM E S A} {f : A → EStateM E S B}
    {a : A} {s' : S} (hrun : x.run s = .ok a s') (hf : Meets R F (f a) s') :
    Meets R F (x >>= f) s :=
  Meets.bind (Q := fun b s₁ => b = a ∧ s₁ = s') (.of_ok hrun ⟨rfl, rfl⟩) fun b s₁ h => by
    rw [h.1, h.2]
    exact hf

end Stateful
