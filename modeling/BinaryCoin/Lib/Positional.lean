/-
  Positional — numerals of a fixed width in any base, most significant digit
  first, and the law that their texts compare as the numbers that they spell
  (`map_lt_map_iff`).

  `numeral b k` and `value b` are inverse to each other between the numbers
  below `b ^ k` and the lists of `k` digits.
-/
import Mathlib

namespace Positional

/-- The number that digits spell. -/
def value (b : ℕ) (ds : List ℕ) : ℕ := Nat.ofDigits b ds.reverse

/-- The `k` digits of a number below `b ^ k`. -/
def numeral (b k n : ℕ) : List ℕ := (Nat.digitsAppend b k n).reverse

variable {b k : ℕ} {ds es : List ℕ}

@[simp] theorem value_nil : value b [] = 0 := rfl

theorem value_append (ds es : List ℕ) :
    value b (ds ++ es) = b ^ es.length * value b ds + value b es := by
  rw [value, List.reverse_append, Nat.ofDigits_append, List.length_reverse, Nat.add_comm]
  rfl

theorem value_cons (d : ℕ) (ds : List ℕ) : value b (d :: ds) = b ^ ds.length * d + value b ds := by
  rw [← List.singleton_append, value_append]
  simp [value]

theorem value_lt (hb : 1 < b) (hds : ∀ d ∈ ds, d < b) : value b ds < b ^ ds.length := by
  rw [← List.length_reverse]
  exact Nat.ofDigits_lt_base_pow_length hb fun d hd => hds d (List.mem_reverse.1 hd)

theorem value_inj (hb : 1 < b) (hlen : ds.length = es.length) (hds : ∀ d ∈ ds, d < b)
    (hes : ∀ e ∈ es, e < b) (h : value b ds = value b es) : ds = es := by
  refine List.reverse_injective (Nat.ofDigits_inj_of_len_eq hb (by simp [hlen]) ?_ ?_ h)
  · intro d hd
    exact hds d (List.mem_reverse.1 hd)
  · intro e he
    exact hes e (List.mem_reverse.1 he)

/-! ## Numerals -/

theorem length_numeral (hb : 1 < b) {n : ℕ} (hn : n < b ^ k) : (numeral b k n).length = k := by
  rw [numeral, List.length_reverse, Nat.length_digitsAppend hb k hn]

theorem numeral_lt (hb : 1 < b) (k n : ℕ) : ∀ d ∈ numeral b k n, d < b := by
  intro d hd
  exact Nat.lt_of_mem_digitsAppend hb k d (List.mem_reverse.1 hd)

theorem value_numeral (b k n : ℕ) : value b (numeral b k n) = n := by
  rw [value, numeral, List.reverse_reverse, Nat.digitsAppend, Nat.ofDigits_append_replicate_zero,
    Nat.ofDigits_digits]

theorem numeral_value (hb : 1 < b) (hds : ∀ d ∈ ds, d < b) :
    numeral b ds.length (value b ds) = ds :=
  value_inj hb (length_numeral hb (value_lt hb hds)) (numeral_lt hb _ _) hds (value_numeral b _ _)

/-! ## The order of the texts -/

/-- Characters for the digits below `b`, which increase with them. -/
structure Increasing {α : Type} [LT α] (b : ℕ) (f : ℕ → α) : Prop where
  lt_iff : ∀ {d e}, d < b → e < b → (f d < f e ↔ d < e)
  inj : ∀ {d e}, d < b → e < b → f d = f e → d = e

variable {α : Type} [LT α] {f : ℕ → α}

/-- The first digit decides, if it differs. -/
theorem value_cons_lt_iff (hlen : ds.length = es.length) (hds : value b ds < b ^ ds.length)
    (hes : value b es < b ^ es.length) (d e : ℕ) :
    value b (d :: ds) < value b (e :: es) ↔ d < e ∨ d = e ∧ value b ds < value b es := by
  rw [value_cons, value_cons, hlen]
  rw [hlen] at hds
  rcases Nat.lt_trichotomy d e with h | rfl | h
  · have hle : b ^ es.length * (d + 1) ≤ b ^ es.length * e := Nat.mul_le_mul_left _ h
    rw [Nat.mul_succ] at hle
    exact ⟨fun _ => .inl h, fun _ => by omega⟩
  · simp
  · have hle : b ^ es.length * (e + 1) ≤ b ^ es.length * d := Nat.mul_le_mul_left _ h
    rw [Nat.mul_succ] at hle
    constructor
    · intro hlt
      omega
    · rintro (hlt | ⟨rfl, -⟩)
      · exact absurd hlt (Nat.lt_asymm h)
      · exact absurd h (Nat.lt_irrefl _)

/-- **Texts of the same length compare as the numbers that they spell.** -/
theorem map_lt_map_iff (hf : Increasing b f) (hb : 1 < b) (hlen : ds.length = es.length)
    (hds : ∀ d ∈ ds, d < b) (hes : ∀ e ∈ es, e < b) :
    ds.map f < es.map f ↔ value b ds < value b es := by
  induction ds generalizing es with
  | nil =>
    obtain rfl := List.eq_nil_of_length_eq_zero hlen.symm
    simp
  | cons d ds ih =>
    cases es with
    | nil => simp at hlen
    | cons e es =>
      have hlen' : ds.length = es.length := by simpa using hlen
      obtain ⟨hd, hds'⟩ := List.forall_mem_cons.1 hds
      obtain ⟨he, hes'⟩ := List.forall_mem_cons.1 hes
      rw [value_cons_lt_iff hlen' (value_lt hb hds') (value_lt hb hes'), List.map_cons, List.map_cons,
        List.cons_lt_cons_iff, hf.lt_iff hd he, ih hlen' hds' hes']
      constructor
      · rintro (h | ⟨heq, h⟩)
        · exact .inl h
        · exact .inr ⟨hf.inj hd he heq, h⟩
      · rintro (h | ⟨rfl, h⟩)
        · exact .inl h
        · exact .inr ⟨rfl, h⟩

end Positional
