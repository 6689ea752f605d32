/-
  Programs that change a disk and may be stopped.

  A machine runs operations on a disk, one after the other.  Every operation
  may fail, which throws an exception, and the machine may be stopped before
  and after each of them: what it leaves then is a disk that it has passed.  A
  triple says on what disk a program returns, and what holds of all the disks
  on its way.
-/
import BinaryCoin.Lib.Cursor
import BinaryCoin.Lib.Ends

namespace Crash

open Stateful

/-- A machine with a disk. -/
structure Machine (D E : Type) where
  disk : D
  /-- the disks before the operations so far, the last one first -/
  passed : List D
  /-- the exceptions of the operations that fail, by number -/
  fails : Nat → Option E

abbrev Program (D E A : Type) := EStateM E (Machine D E) A

variable {D E A B : Type}

/-- An operation that fails leaves the disk as it is. -/
def operation (f : D → D) : Program D E Unit := fun m =>
  match m.fails m.passed.length with
  | some e => .error e { m with passed := m.disk :: m.passed }
  | none => .ok () { m with disk := f m.disk, passed := m.disk :: m.passed }

def contents : Program D E D := do return (← get).disk

/-- A failure is ignored. -/
def attempt (x : Program D E Unit) : Program D E Unit := tryCatch x fun _ => pure ()

/-- Before the first operation. -/
def Machine.start (d : D) (fails : Nat → Option E) : Machine D E := ⟨d, [], fails⟩

/-- The disks from `m` to `m'` all satisfy `R`. -/
def Through (R : D → Prop) (m m' : Machine D E) : Prop :=
  R m'.disk ∧ ∃ ds, m'.passed = ds ++ m.passed ∧ ∀ d ∈ ds, R d

/-- From a disk with `P`, the program returns on one with `Q`; and however it ends, the disks on its
    way satisfy `R`. -/
def Triple (P : D → Prop) (x : Program D E A) (Q : A → D → Prop) (R : D → Prop) : Prop :=
  ∀ m : Machine D E, P m.disk →
    Meets (fun a m' => Q a m'.disk ∧ Through R m m') (fun _ m' => Through R m m') x m

/-- Where no operation fails, the program returns, and then `Q` holds. -/
def Total (P : D → Prop) (x : Program D E A) (Q : A → D → Prop) : Prop :=
  ∀ m : Machine D E, P m.disk → (∀ n, m.fails n = none) →
    ∃ a m', x.run m = .ok a m' ∧ Q a m'.disk ∧ m'.fails = m.fails

/-- What a program leaves: it returns, or else the machine has been stopped or an exception been
    thrown on any of the disks. -/
inductive Ran (x : Program D E A) (d : D) : Option A → D → Prop
  | returned {fails : Nat → Option E} {a : A} {m : Machine D E}
      (h : x.run (.start d fails) = .ok a m) : Ran x d (some a) m.disk
  | stopped {fails : Nat → Option E} {d' : D}
      (h : d' = (final (x.run (.start d fails))).disk ∨
        d' ∈ (final (x.run (.start d fails))).passed) : Ran x d none d'

variable {P P' R R' : D → Prop} {Q : A → D → Prop} {x : Program D E A} {m m₁ m' : Machine D E}

theorem Through.refl (h : R m.disk) : Through R m m := by
  refine ⟨h, [], rfl, ?_⟩
  intro d hd
  cases hd

theorem Through.trans (h : Through R m m₁) (h' : Through R m₁ m') : Through R m m' := by
  obtain ⟨-, ds, hds, hR⟩ := h
  obtain ⟨hdisk, ds', hds', hR'⟩ := h'
  refine ⟨hdisk, ds' ++ ds, by rw [hds', hds, List.append_assoc], ?_⟩
  intro d hd
  rcases List.mem_append.1 hd with hd | hd
  · exact hR' d hd
  · exact hR d hd

theorem Through.imp (h : Through R m m') (himp : ∀ d, R d → R' d) : Through R' m m' := by
  obtain ⟨hdisk, ds, hds, hR⟩ := h
  exact ⟨himp _ hdisk, ds, hds, fun d hd => himp d (hR d hd)⟩

theorem Through.and (h : Through R m m') (h' : Through R' m m') :
    Through (fun d => R d ∧ R' d) m m' := by
  obtain ⟨hdisk, ds, hds, hR⟩ := h
  obtain ⟨hdisk', ds', hds', hR'⟩ := h'
  obtain rfl := List.append_cancel_right (hds.symm.trans hds')
  exact ⟨⟨hdisk, hdisk'⟩, ds, hds, fun d hd => ⟨hR d hd, hR' d hd⟩⟩

namespace Triple

/-- The rule of consequence. -/
theorem imp {Q' : A → D → Prop} (h : Triple P x Q R) (hP : ∀ d, P' d → P d)
    (hQ : ∀ a d, Q a d → Q' a d) (hR : ∀ d, R d → R' d) : Triple P' x Q' R' := by
  intro m hm
  refine (h m (hP _ hm)).imp ?_ ?_
  · intro a m' hm'
    exact ⟨hQ _ _ hm'.1, hm'.2.imp hR⟩
  · intro e m' hm'
    exact hm'.imp hR

theorem and {Q' : A → D → Prop} (h : Triple P x Q R) (h' : Triple P' x Q' R') :
    Triple (fun d => P d ∧ P' d) x (fun a d => Q a d ∧ Q' a d) (fun d => R d ∧ R' d) := by
  intro m hm
  have hmeets := h m hm.1
  have hmeets' := h' m hm.2
  rw [Meets] at hmeets hmeets' ⊢
  cases hrun : x.run m with
  | ok a m' =>
    rw [hrun] at hmeets hmeets'
    exact ⟨⟨hmeets.1, hmeets'.1⟩, hmeets.2.and hmeets'.2⟩
  | error e m' =>
    rw [hrun] at hmeets hmeets'
    exact hmeets.and hmeets'

theorem pure {a : A} (hQ : ∀ d, P d → Q a d) (hR : ∀ d, P d → R d) :
    Triple P (pure a : Program D E A) Q R :=
  fun _ hm => ⟨hQ _ hm, .refl (hR _ hm)⟩

theorem throw {e : E} (hR : ∀ d, P d → R d) : Triple P (throw e : Program D E A) Q R :=
  fun _ hm => .refl (hR _ hm)

theorem bind {Q' : B → D → Prop} {f : A → Program D E B} (hx : Triple P x Q R)
    (hf : ∀ a, Triple (Q a) (f a) Q' R) : Triple P (x >>= f) Q' R := by
  intro m hm
  refine Meets.bind (hx m hm) ?_
  rintro a m₁ ⟨hQ, hthrough⟩
  refine (hf a m₁ hQ).imp ?_ ?_
  · intro b m' hm'
    exact ⟨hm'.1, hthrough.trans hm'.2⟩
  · intro e m' hm'
    exact hthrough.trans hm'

/-- The disk that a program starts on. -/
theorem pin (h : ∀ d, P d → Triple (fun d' => d' = d) x Q R) : Triple P x Q R :=
  fun m hm => h m.disk hm m rfl

/-- What is read is what is on the disk. -/
theorem contents_bind {Q' : B → D → Prop} {f : D → Program D E B}
    (h : ∀ d₀, P d₀ → Triple (fun d => d = d₀) (f d₀) Q' R) : Triple P (contents >>= f) Q' R := by
  intro m hm
  exact h m.disk hm m rfl

theorem operation {f : D → D} {Q : Unit → D → Prop} (hP : ∀ d, P d → R d)
    (hQ : ∀ d, P d → Q () (f d)) (hR : ∀ d, P d → R (f d)) :
    Triple P (operation f : Program D E Unit) Q R := by
  intro m hm
  rw [Meets, EStateM.run, Crash.operation]
  split
  · next a m' heq =>
    split at heq
    · cases heq
    · obtain ⟨-, rfl⟩ := EStateM.Result.ok.inj heq
      refine ⟨hQ _ hm, hR _ hm, [m.disk], rfl, ?_⟩
      intro d hd
      rw [List.mem_singleton.1 hd]
      exact hP _ hm
  · next e m' heq =>
    split at heq
    · obtain ⟨-, rfl⟩ := EStateM.Result.error.inj heq
      refine ⟨hP _ hm, [m.disk], rfl, ?_⟩
      intro d hd
      rw [List.mem_singleton.1 hd]
      exact hP _ hm
    · cases heq

/-- An operation that does not change the disk. -/
theorem idle {Q : Unit → D → Prop} (hQ : ∀ d, P d → Q () d) (hR : ∀ d, P d → R d) :
    Triple P (Crash.operation id : Program D E Unit) Q R :=
  operation hR hQ hR

theorem tryCatch {handler : E → Program D E A} (hx : Triple P x Q R)
    (hh : ∀ e, Triple R (handler e) Q R) : Triple P (tryCatch x handler) Q R := by
  intro m hm
  have hmeets := hx m hm
  rw [Meets] at hmeets
  cases hrun : x.run m with
  | ok a m' =>
    rw [hrun] at hmeets
    have hcatch : (MonadExcept.tryCatch x handler : Program D E A).run m = .ok a m' := by
      rw [EStateM.run] at hrun ⊢
      simp only [MonadExcept.tryCatch, MonadExceptOf.tryCatch, tryCatchThe, EStateM.tryCatch, hrun]
    exact .of_ok hcatch hmeets
  | error e m₁ =>
    rw [hrun] at hmeets
    have hcatch : (MonadExcept.tryCatch x handler : Program D E A).run m = (handler e).run m₁ := by
      rw [EStateM.run] at hrun ⊢
      simp only [MonadExcept.tryCatch, MonadExceptOf.tryCatch, tryCatchThe, EStateM.tryCatch, hrun]
      rfl
    have hhandler := hh e m₁ hmeets.1
    rw [Meets] at hhandler ⊢
    rw [hcatch]
    cases hrun' : (handler e).run m₁ with
    | ok a m' =>
      rw [hrun'] at hhandler
      exact ⟨hhandler.1, hmeets.trans hhandler.2⟩
    | error e' m' =>
      rw [hrun'] at hhandler
      exact hmeets.trans hhandler

theorem attempt {f : D → D} (hf : ∀ d, P d → P (f d)) (hR : ∀ d, P d → R d) :
    Triple P (Crash.attempt (Crash.operation f) : Program D E Unit) (fun _ => P) R := by
  have hcatch : Triple P (Crash.attempt (Crash.operation f) : Program D E Unit) (fun _ => P) P :=
    tryCatch (operation (fun _ h => h) hf hf) fun e => pure (fun _ h => h) fun _ h => h
  exact hcatch.imp (fun _ h => h) (fun _ _ h => h) hR

/-- The rule of loops. -/
theorem forM {f : A → Program D E PUnit} {as : List A}
    (h : ∀ a ∈ as, Triple P (f a) (fun _ => P) R) (hR : ∀ d, P d → R d) :
    Triple P (forM as f) (fun _ => P) R := by
  induction as with
  | nil => exact pure (fun _ h => h) hR
  | cons a as ih =>
    obtain ⟨ha, has⟩ := List.forall_mem_cons.1 h
    rw [List.forM_cons]
    exact bind ha fun _ => ih has

/-- **What is left** when the program returns, and when it does not. -/
theorem ran {d d' : D} {result : Option A} (h : Triple P x Q R) (hd : P d)
    (hran : Ran x d result d') : R d' ∧ ∀ a, result = some a → Q a d' := by
  cases hran with
  | @returned fails a m hrun =>
    have hmeets := h (.start d fails) hd
    rw [Meets, hrun] at hmeets
    refine ⟨hmeets.2.1, ?_⟩
    intro a' ha'
    obtain rfl := Option.some.inj ha'
    exact hmeets.1
  | @stopped fails _ hstop =>
    have hmeets := h (.start d fails) hd
    have hthrough : Through R (.start d fails) (final (x.run (.start d fails))) := by
      rw [Meets] at hmeets
      cases hrun : x.run (.start d fails) with
      | ok a m =>
        rw [hrun] at hmeets
        exact hmeets.2
      | error e m =>
        rw [hrun] at hmeets
        exact hmeets
    obtain ⟨hdisk, ds, hds, hR⟩ := hthrough
    constructor
    · rcases hstop with rfl | hmem
      · exact hdisk
      · rw [hds] at hmem
        exact hR d' (by simpa [Machine.start] using hmem)
    · intro a ha
      cases ha

end Triple

namespace Total

theorem imp {Q' : A → D → Prop} (h : Total P x Q) (hP : ∀ d, P' d → P d)
    (hQ : ∀ a d, Q a d → Q' a d) : Total P' x Q' := by
  intro m hm hfails
  obtain ⟨a, m', hrun, hQm, hsame⟩ := h m (hP _ hm) hfails
  exact ⟨a, m', hrun, hQ a _ hQm, hsame⟩

theorem pure {a : A} (hQ : ∀ d, P d → Q a d) : Total P (pure a : Program D E A) Q :=
  fun m hm _ => ⟨a, m, rfl, hQ _ hm, rfl⟩

theorem bind {Q' : B → D → Prop} {f : A → Program D E B} (hx : Total P x Q)
    (hf : ∀ a, Total (Q a) (f a) Q') : Total P (x >>= f) Q' := by
  intro m hm hfails
  obtain ⟨a, m₁, hrun, hQ, hsame⟩ := hx m hm hfails
  obtain ⟨b, m', hrun', hQ', hsame'⟩ := hf a m₁ hQ (hsame ▸ hfails)
  exact ⟨b, m', Cursor.run_bind_ok.2 ⟨a, m₁, hrun, hrun'⟩, hQ', hsame'.trans hsame⟩

theorem contents_bind {Q' : B → D → Prop} {f : D → Program D E B}
    (h : ∀ d₀, P d₀ → Total (fun d => d = d₀) (f d₀) Q') : Total P (contents >>= f) Q' :=
  fun m hm hfails => h m.disk hm m rfl hfails

theorem operation {f : D → D} {Q : Unit → D → Prop} (hQ : ∀ d, P d → Q () (f d)) :
    Total P (Crash.operation f : Program D E Unit) Q := by
  intro m hm hfails
  refine ⟨(), { m with disk := f m.disk, passed := m.disk :: m.passed }, ?_, hQ _ hm, rfl⟩
  rw [EStateM.run, Crash.operation, hfails]

/-- The disk that a program starts on. -/
theorem pin (h : ∀ d, P d → Total (fun d' => d' = d) x Q) : Total P x Q :=
  fun m hm => h m.disk hm m rfl

/-- The handler is not reached. -/
theorem tryCatch {handler : E → Program D E A} (hx : Total P x Q) :
    Total P (tryCatch x handler) Q := by
  intro m hm hfails
  obtain ⟨a, m', hrun, hQ, hsame⟩ := hx m hm hfails
  refine ⟨a, m', ?_, hQ, hsame⟩
  rw [EStateM.run] at hrun ⊢
  simp only [MonadExcept.tryCatch, MonadExceptOf.tryCatch, tryCatchThe, EStateM.tryCatch, hrun]

theorem attempt {f : D → D} {Q : Unit → D → Prop} (hQ : ∀ d, P d → Q () (f d)) :
    Total P (Crash.attempt (Crash.operation f) : Program D E Unit) Q :=
  tryCatch (operation hQ)

theorem forM {f : A → Program D E PUnit} {as : List A} (h : ∀ a ∈ as, Total P (f a) fun _ => P) :
    Total P (forM as f) fun _ => P := by
  induction as with
  | nil => exact pure fun _ h => h
  | cons a as ih =>
    obtain ⟨ha, has⟩ := List.forall_mem_cons.1 h
    rw [List.forM_cons]
    exact bind ha fun _ => ih has

/-- What holds whenever a program returns holds where it does return. -/
theorem and_triple {S : A → D → Prop} (h : Total P x S) (htriple : Triple P x Q R) :
    Total P x fun a d => S a d ∧ Q a d := by
  intro m hm hfails
  obtain ⟨a, m', hrun, hQ, hsame⟩ := h m hm hfails
  have hmeets := htriple m hm
  rw [Meets, hrun] at hmeets
  exact ⟨a, m', hrun, ⟨hQ, hmeets.1⟩, hsame⟩

theorem of_triple {S : A → D → Prop} (h : Total P x S) (htriple : Triple P x Q R) : Total P x Q :=
  (h.and_triple htriple).imp (fun _ h => h) fun _ _ h => h.2

/-- What is left when no operation fails. -/
theorem ran {d : D} (h : Total P x Q) (hd : P d) : ∃ a d', Ran x d (some a) d' ∧ Q a d' := by
  obtain ⟨a, m, hrun, hQ, -⟩ := h (.start d fun _ => none) hd fun _ => rfl
  exact ⟨a, m.disk, .returned hrun, hQ⟩

end Total

end Crash
