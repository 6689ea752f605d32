/-
  BinaryCoin — C++ exceptions and byte sequences.

  A `throw` of the source is an `Exn`: its dynamic type (handlers catch by
  type) and the text of `what()`.  A function that throws returns
  `Except Exn`; a member function that may throw after it has changed its
  object is an `EStateM Exn`, which keeps the state at the throw.
-/
import BinaryCoin.Lib.Cursor

namespace BinaryCoin

/-- The dynamic type of an exception. -/
inductive ExnKind where
  | runtimeError | invalidArgument | outOfRange | systemError
  deriving DecidableEq, Repr

/-- An exception: its type and `what()`. -/
structure Exn where
  kind : ExnKind
  what : String
  deriving DecidableEq, Repr

/-- `std::runtime_error` -/
def runtimeError (what : String) : Exn := ⟨.runtimeError, what⟩

/-- `std::invalid_argument` -/
def invalidArgument (what : String) : Exn := ⟨.invalidArgument, what⟩

/-- `std::out_of_range` -/
def outOfRange (what : String) : Exn := ⟨.outOfRange, what⟩

/-- `std::vector<std::uint8_t>` and `std::span<const std::uint8_t>` -/
abbrev Bytes := List UInt8

/-- `std::string`: a sequence of bytes. -/
abbrev Str := List UInt8

instance : LawfulBEq Str := List.instLawfulBEq

/-- The bytes of a string literal (the literals of the source are ASCII). -/
def str (s : String) : Str := s.toList.map fun c => UInt8.ofNat c.toNat

section
variable {α β : Type}

theorem except_bind_ok {x : Except Exn α} {f : α → Except Exn β} {b : β} :
    (x >>= f) = .ok b ↔ ∃ a, x = .ok a ∧ f a = .ok b := by
  cases x <;> simp [bind, Except.bind]

theorem except_pure_ok {a b : α} : (pure a : Except Exn α) = .ok b ↔ a = b := by
  simp [pure, Except.pure]

theorem except_ok_bind {a : α} {f : α → Except Exn β} : ((.ok a : Except Exn α) >>= f) = f a := rfl

/-- A loop that collects the values of a function that throws unless `ok`. -/
theorem mapM_ok {f : α → Except Exn β} {g : α → β} {ok : α → Prop}
    (hf : ∀ a b, f a = .ok b ↔ ok a ∧ b = g a) {as : List α} {bs : List β} :
    as.mapM f = .ok bs ↔ (∀ a ∈ as, ok a) ∧ bs = as.map g := by
  induction as generalizing bs with
  | nil => rw [List.mapM_nil, except_pure_ok]; simp [eq_comm]
  | cons a as ih =>
    simp only [List.mapM_cons, except_bind_ok, hf, ih, except_pure_ok, List.forall_mem_cons,
      List.map_cons]
    constructor
    · rintro ⟨_, ⟨ha, rfl⟩, _, ⟨has, rfl⟩, rfl⟩; exact ⟨⟨ha, has⟩, rfl⟩
    · rintro ⟨⟨ha, has⟩, rfl⟩; exact ⟨_, ⟨ha, rfl⟩, _, ⟨has, rfl⟩, rfl⟩

theorem mem_of_mapM {f : α → Except Exn β} {as : List α} {bs : List β} (h : as.mapM f = .ok bs)
    {b : β} (hb : b ∈ bs) : ∃ a ∈ as, f a = .ok b := by
  induction as generalizing bs with
  | nil =>
    obtain rfl := except_pure_ok.1 h
    cases hb
  | cons a as ih =>
    simp only [List.mapM_cons, except_bind_ok, except_pure_ok] at h
    obtain ⟨b', hb', bs', hbs', rfl⟩ := h
    obtain rfl | hb := List.mem_cons.1 hb
    · exact ⟨a, List.mem_cons_self, hb'⟩
    · obtain ⟨a', ha', h'⟩ := ih hbs' hb
      exact ⟨a', List.mem_cons_of_mem _ ha', h'⟩

theorem mapM_of_forall {f : α → Except Exn β} {as : List α} (h : ∀ a ∈ as, ∃ b, f a = .ok b) :
    ∃ bs, as.mapM f = .ok bs := by
  induction as with
  | nil => exact ⟨[], rfl⟩
  | cons a as ih =>
    obtain ⟨ha, has⟩ := List.forall_mem_cons.1 h
    obtain ⟨b, hb⟩ := ha
    obtain ⟨bs, hbs⟩ := ih has
    refine ⟨b :: bs, ?_⟩
    simp only [List.mapM_cons, except_bind_ok, except_pure_ok]
    exact ⟨b, hb, bs, hbs, rfl⟩

theorem mapM_of_imp {f g : α → Except Exn β} (h : ∀ a b, f a = .ok b → g a = .ok b)
    {as : List α} {bs : List β} (hf : as.mapM f = .ok bs) : as.mapM g = .ok bs := by
  induction as generalizing bs with
  | nil => exact hf
  | cons a as ih =>
    simp only [List.mapM_cons, except_bind_ok, except_pure_ok] at hf ⊢
    obtain ⟨b, hb, bs', hbs', rfl⟩ := hf
    exact ⟨b, h a b hb, bs', ih hbs', rfl⟩

theorem mem_mapM_of_mem {f : α → Except Exn β} {as : List α} {bs : List β}
    (h : as.mapM f = .ok bs) {a : α} {b : β} (ha : a ∈ as) (hb : f a = .ok b) : b ∈ bs := by
  induction as generalizing bs with
  | nil => cases ha
  | cons a' as ih =>
    simp only [List.mapM_cons, except_bind_ok, except_pure_ok] at h
    obtain ⟨b', hb', bs', hbs', rfl⟩ := h
    rcases List.mem_cons.1 ha with rfl | ha
    · rw [Except.ok.inj (hb.symm.trans hb')]
      exact List.mem_cons_self
    · exact List.mem_cons_of_mem b' (ih hbs' ha)

/-- A lookup that throws when there is nothing. -/
def orThrow {α : Type} (x : Option α) (e : Exn) : Except Exn α :=
  match x with
  | some a => .ok a
  | none => .error e

@[simp] theorem orThrow_ok {α : Type} {x : Option α} {e : Exn} {a : α} :
    orThrow x e = .ok a ↔ x = some a := by
  cases x <;> simp [orThrow]

/-- A function that throws, called by a member function. -/
instance {σ : Type} : MonadLift (Except Exn) (EStateM Exn σ) where
  monadLift x s := match x with
    | .ok a => .ok a s
    | .error e => .error e s

@[simp] theorem lift_run_ok {σ α : Type} {x : Except Exn α} {a : α} {s r : σ} :
    (liftM x : EStateM Exn σ α).run s = .ok a r ↔ x = .ok a ∧ s = r := by
  cases x with
  | ok b => simp [liftM, monadLift, MonadLift.monadLift, EStateM.run]
  | error e => simp [liftM, monadLift, MonadLift.monadLift, EStateM.run]

/-- `if (c) throw e;` -/
def throwIf {m : Type → Type} [Monad m] [MonadExceptOf Exn m] (c : Prop) [Decidable c] (e : Exn) :
    m Unit :=
  if c then throw e else pure ()

@[simp] theorem throwIf_ok {c : Prop} [Decidable c] {e : Exn} {u : Unit} :
    (throwIf c e : Except Exn Unit) = .ok u ↔ ¬ c := by
  unfold throwIf
  split_ifs with h
  · simp [h]
  · simp [h, except_pure_ok]

@[simp] theorem throwIf_run_ok {σ : Type} {c : Prop} [Decidable c] {e : Exn} {u : Unit} {s r : σ} :
    (throwIf c e : EStateM Exn σ Unit).run s = .ok u r ↔ ¬ c ∧ s = r := by
  unfold throwIf
  split_ifs with h
  · simp only [h, not_true, false_and, iff_false]; exact nofun
  · simp [h]

@[simp] theorem throwIf_bind_run_ok {σ : Type} {c : Prop} [Decidable c] {e : Exn}
    {f : Unit → EStateM Exn σ β} {b : β} {s r : σ} :
    (throwIf c e >>= f).run s = .ok b r ↔ ¬ c ∧ (f ()).run s = .ok b r := by
  rw [EStateM.run_bind, throwIf]
  split_ifs with h <;> simp [h]

theorem run_bind_error {ε σ α β : Type} {x : EStateM ε σ α} {f : α → EStateM ε σ β} {s r : σ}
    {e : ε} : (x >>= f).run s = .error e r ↔
      x.run s = .error e r ∨ ∃ a s₁, x.run s = .ok a s₁ ∧ (f a).run s₁ = .error e r := by
  rw [EStateM.run_bind]
  cases x.run s with
  | ok a s₁ => simp
  | error e₁ s₁ => simp

theorem run_bind_of_ok {ε σ α β : Type} {x : EStateM ε σ α} {f : α → EStateM ε σ β} {s r : σ}
    {a : α} (h : x.run s = .ok a r) : (x >>= f).run s = (f a).run r := by
  rw [EStateM.run_bind, h]

end

end BinaryCoin
