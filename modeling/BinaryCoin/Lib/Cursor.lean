/-
  Cursors — parsers that consume a list from the front and may throw, and the
  law that ties such a parser to an encoder.

  A parser is an `EStateM` computation over the rest of the input.
  `Decodes p enc ok` says that `p` accepts exactly the encodings of the values
  that satisfy `ok` (followed by anything), and returns the value and what
  follows.  It is one equivalence, so it gives the round trip in both
  directions: `Decodes.encode` (what is encoded is read back) and
  `Decodes.sound` (what is accepted is the encoding of what is returned).

  * `Decodes.bind_ok` pushes the law through a `do` block;
  * `Decodes.many` is the law of a counted repetition, and `many_ok` where the
    parser returns less than it reads.
-/
import Mathlib

namespace Cursor

variable {ε σ α β γ : Type}

/-! ## Runs of `EStateM` that succeed -/

theorem run_bind_ok {x : EStateM ε σ α} {f : α → EStateM ε σ β} {s r : σ} {b : β} :
    (x >>= f).run s = .ok b r ↔ ∃ a s₁, x.run s = .ok a s₁ ∧ (f a).run s₁ = .ok b r := by
  rw [EStateM.run_bind]
  cases x.run s with
  | ok a s₁ =>
    constructor
    · exact fun h => ⟨a, s₁, rfl, h⟩
    · rintro ⟨_, _, h, h'⟩; cases h; exact h'
  | error e s₁ => simp

theorem run_pure_ok {a b : α} {s r : σ} :
    (pure a : EStateM ε σ α).run s = .ok b r ↔ a = b ∧ s = r := by
  simp

theorem run_get_ok {a s r : σ} : (get : EStateM ε σ σ).run s = .ok a r ↔ s = a ∧ s = r := by
  simp

theorem run_set_ok {u : PUnit} {a s r : σ} : (set a : EStateM ε σ PUnit).run s = .ok u r ↔ a = r := by
  simp

theorem run_modify_ok {u : PUnit} {f : σ → σ} {s r : σ} :
    (modify f : EStateM ε σ PUnit).run s = .ok u r ↔ f s = r := by
  simp [modify, modifyGet, MonadStateOf.modifyGet, EStateM.run, EStateM.modifyGet]

theorem run_throw {e : ε} {s : σ} : (throw e : EStateM ε σ α).run s = .error e s := rfl

/-! ## Decoders -/

/-- `p` accepts exactly the encodings of the values satisfying `ok`. -/
def Decodes (p : EStateM ε (List β) α) (enc : α → List β) (ok : α → Prop) : Prop :=
  ∀ s a r, p.run s = .ok a r ↔ ok a ∧ s = enc a ++ r

namespace Decodes
variable {p : EStateM ε (List β) α} {enc : α → List β} {ok : α → Prop}

theorem encode (h : Decodes p enc ok) {a : α} (ha : ok a) (r : List β) :
    p.run (enc a ++ r) = .ok a r :=
  (h _ _ _).2 ⟨ha, rfl⟩

theorem sound (h : Decodes p enc ok) {s r : List β} {a : α} (hp : p.run s = .ok a r) :
    ok a ∧ s = enc a ++ r :=
  (h _ _ _).1 hp

/-- A decoder followed by a continuation. -/
theorem bind_ok (h : Decodes p enc ok) {f : α → EStateM ε (List β) γ} {s r : List β} {c : γ} :
    (p >>= f).run s = .ok c r ↔ ∃ a s₁, (ok a ∧ s = enc a ++ s₁) ∧ (f a).run s₁ = .ok c r := by
  simp only [run_bind_ok, h s]

/-- An encoding determines its value: no two values that are read have encodings of which
    one begins with the other. -/
theorem inj (h : Decodes p enc ok) {a b : α} (ha : ok a) (hb : ok b) {r r' : List β}
    (he : enc a ++ r = enc b ++ r') : a = b ∧ r = r' := by
  have h₁ := h.encode ha r
  rw [he, h.encode hb r'] at h₁
  cases h₁; exact ⟨rfl, rfl⟩

/-- Change of the view of the encoded value along a bijection. -/
theorem map {g : α → γ} {g' : γ → α} (h : Decodes p enc ok) {ok' : γ → Prop}
    (hl : ∀ a, ok a → ok' (g a) ∧ g' (g a) = a) (hr : ∀ c, ok' c → ok (g' c) ∧ g (g' c) = c) :
    Decodes (g <$> p) (fun c => enc (g' c)) ok' := by
  intro s c r
  rw [← bind_pure_comp, h.bind_ok]
  constructor
  · rintro ⟨a, s₁, ⟨ha, rfl⟩, hc⟩
    obtain ⟨rfl, rfl⟩ := run_pure_ok.1 hc
    exact ⟨(hl a ha).1, by simp only [(hl a ha).2]⟩
  · rintro ⟨hc, rfl⟩
    exact ⟨g' c, r, ⟨(hr c hc).1, rfl⟩, run_pure_ok.2 ⟨(hr c hc).2, rfl⟩⟩

end Decodes

/-! ## Counted repetition -/

/-- `n` values, one after the other. -/
def many (p : EStateM ε σ α) : ℕ → EStateM ε σ (List α)
  | 0 => pure []
  | n + 1 => do
    let a ← p
    let as ← many p n
    return a :: as

theorem Decodes.many {p : EStateM ε (List β) α} {enc : α → List β} {ok : α → Prop}
    (h : Decodes p enc ok) (n : ℕ) :
    Decodes (many p n) (fun as => as.flatMap enc) fun as => as.length = n ∧ ∀ a ∈ as, ok a := by
  induction n with
  | zero =>
    intro s as r
    simp only [Cursor.many, run_pure_ok, List.length_eq_zero_iff]
    constructor
    · rintro ⟨rfl, rfl⟩; simp
    · rintro ⟨⟨rfl, -⟩, rfl⟩; simp
  | succ n ih =>
    intro s as r
    simp only [Cursor.many, h.bind_ok, ih.bind_ok, run_pure_ok]
    constructor
    · rintro ⟨a, s₁, ⟨ha, rfl⟩, as, s₂, ⟨⟨hl, has⟩, rfl⟩, rfl, rfl⟩
      exact ⟨⟨by simp [hl], by simpa using ⟨ha, has⟩⟩, by simp⟩
    · rintro ⟨⟨hl, has⟩, rfl⟩
      cases as with
      | nil => simp at hl
      | cons a as =>
        exact ⟨a, as.flatMap enc ++ r, ⟨has a (by simp), by simp⟩, as, r,
          ⟨⟨by simpa using hl, fun b hb => has b (by simp [hb])⟩, rfl⟩, rfl, rfl⟩

/-- A repetition of a parser that returns only part of what it reads. -/
theorem many_ok {p : EStateM ε (List β) γ} {enc : α → List β} {ok : α → Prop} {g : α → γ}
    (h : ∀ s c r, p.run s = .ok c r ↔ ∃ a, ok a ∧ s = enc a ++ r ∧ c = g a) (n : ℕ)
    (s : List β) (cs : List γ) (r : List β) : (many p n).run s = .ok cs r ↔
      ∃ as : List α, as.length = n ∧ (∀ a ∈ as, ok a) ∧ s = as.flatMap enc ++ r ∧ cs = as.map g := by
  induction n generalizing s cs with
  | zero =>
    simp only [many, run_pure_ok, List.length_eq_zero_iff]
    constructor
    · rintro ⟨rfl, rfl⟩
      exact ⟨[], rfl, by simp, rfl, rfl⟩
    · rintro ⟨_, rfl, -, rfl, rfl⟩
      exact ⟨rfl, rfl⟩
  | succ n ih =>
    simp only [many, run_bind_ok, run_pure_ok]
    constructor
    · rintro ⟨c, s₁, hc, cs', s₂, hcs, rfl, rfl⟩
      obtain ⟨a, ha, rfl, rfl⟩ := (h _ _ _).1 hc
      obtain ⟨as, rfl, has, rfl, rfl⟩ := (ih _ _).1 hcs
      exact ⟨a :: as, rfl, List.forall_mem_cons.2 ⟨ha, has⟩, by simp, rfl⟩
    · rintro ⟨as, hlength, has, rfl, rfl⟩
      obtain ⟨a, as, rfl⟩ := List.exists_cons_of_length_eq_add_one hlength
      obtain ⟨ha, has⟩ := List.forall_mem_cons.1 has
      exact ⟨g a, as.flatMap enc ++ r, (h _ _ _).2 ⟨a, ha, by simp, rfl⟩, as.map g, r,
        (ih _ _).2 ⟨as, Nat.succ.inj hlength, has, rfl, rfl⟩, rfl, rfl⟩

end Cursor
