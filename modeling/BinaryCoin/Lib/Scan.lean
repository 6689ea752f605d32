/-
  Scan — a text from left to right: cut at the first of a character, or behind
  the characters of a class; what runs of decimal digits spell, and zeros in
  front of them.
-/
import BinaryCoin.Lib.Positional
import BinaryCoin.Lib.Text

namespace Text

open Positional

/-! ## Cuts -/

/-- What stands before and behind the first `c`, if there is one. -/
def cut (c : UInt8) (text : List UInt8) : Option (List UInt8 × List UInt8) :=
  if c ∈ text then some (text.takeWhile (· ≠ c), (text.dropWhile (· ≠ c)).drop 1) else none

variable {c : UInt8} {text before behind : List UInt8}

/-- A text splits in one way into characters of a class and what does not begin with one. -/
theorem span_append {p : UInt8 → Bool} {rest : List UInt8} (hbefore : ∀ d ∈ before, p d = true)
    (hrest : rest.head?.all fun d => !p d) :
    (before ++ rest).takeWhile p = before ∧ (before ++ rest).dropWhile p = rest := by
  rw [List.takeWhile_append_of_pos hbefore, List.dropWhile_append_of_pos hbefore]
  cases rest with
  | nil => simp
  | cons d rest => simp_all

/-- What is left begins with no character of the class. -/
theorem head?_dropWhile (p : UInt8 → Bool) (text : List UInt8) :
    (text.dropWhile p).head?.all fun d => !p d := by
  have hhead := List.head?_dropWhile_not p text
  cases h : (text.dropWhile p).head? with
  | none => rfl
  | some d =>
    rw [h] at hhead
    simpa using hhead

theorem cut_eq_none : cut c text = none ↔ c ∉ text := by
  unfold cut
  split_ifs with h <;> simp [h]

theorem cut_append (h : c ∉ before) : cut c (before ++ c :: behind) = some (before, behind) := by
  have hbefore : ∀ d ∈ before, decide (d ≠ c) = true := by
    intro d hd
    refine decide_eq_true ?_
    rintro rfl
    exact h hd
  have hbehind : (c :: behind).head?.all fun d => !decide (d ≠ c) := by simp
  obtain ⟨htake, hdrop⟩ := span_append hbefore hbehind
  rw [cut, if_pos (by simp), htake, hdrop, List.drop_one, List.tail_cons]

theorem cut_eq_some : cut c text = some (before, behind) ↔ c ∉ before ∧ text = before ++ c :: behind := by
  constructor
  · intro h
    by_cases hmem : c ∈ text
    · obtain ⟨l, r, rfl, hl⟩ := List.eq_append_cons_of_mem hmem
      rw [cut_append hl] at h
      cases h
      exact ⟨hl, rfl⟩
    · rw [cut_eq_none.2 hmem] at h
      cases h
  · rintro ⟨hnot, rfl⟩
    exact cut_append hnot

/-! ## Decimal digits -/

/-- The number that decimal digits spell. -/
def decimalValue (text : List UInt8) : ℕ := value 10 (text.map fun c => c.toNat - 48)

@[simp] theorem decimalValue_nil : decimalValue [] = 0 := rfl

theorem decimalValue_append (text text' : List UInt8) :
    decimalValue (text ++ text') = 10 ^ text'.length * decimalValue text + decimalValue text' := by
  rw [decimalValue, List.map_append, value_append, List.length_map]
  rfl

theorem decimalValue_zeros (k : ℕ) : decimalValue (List.replicate k 48) = 0 := by
  induction k with
  | zero => rfl
  | succ k ih =>
    rw [List.replicate_succ', decimalValue_append, ih]
    rfl

theorem IsDigit.sub_lt (h : IsDigit c) : c.toNat - 48 < 10 := by
  have hle : c.toNat ≤ 57 := UInt8.le_iff_toNat_le.1 h.2
  omega

theorem decimalValue_lt (h : ∀ c ∈ text, IsDigit c) : decimalValue text < 10 ^ text.length := by
  have hlt : ∀ d ∈ text.map (fun c : UInt8 => c.toNat - 48), d < 10 := by
    intro d hd
    obtain ⟨c, hc, rfl⟩ := List.mem_map.1 hd
    exact (h c hc).sub_lt
  have hvalue := value_lt (by norm_num) hlt
  rwa [List.length_map] at hvalue

theorem digit_eq_some {d : ℕ} : digit 10 c = some d ↔ IsDigit c ∧ d = c.toNat - 48 := by
  have hall : ∀ c : UInt8, ¬ (48 ≤ c ∧ c ≤ 57) → digit 10 c = none := by decide +kernel
  constructor
  · intro h
    by_cases hc : 48 ≤ c ∧ c ≤ 57
    · simp only [digit, if_pos hc, Option.filter_some] at h
      split_ifs at h
      exact ⟨hc, (Option.some.inj h).symm⟩
    · rw [hall c hc] at h
      cases h
  · rintro ⟨hc, rfl⟩
    have hlt := hc.sub_lt
    have hc' : 48 ≤ c ∧ c ≤ 57 := hc
    simp [digit, hc', hlt]

/-- The fold of the reader, from a number that has been read. -/
theorem foldlM_readDigit_eq_some {start n : ℕ} : text.foldlM (readDigit 10) start = some n ↔
    (∀ c ∈ text, IsDigit c) ∧ n = 10 ^ text.length * start + decimalValue text := by
  induction text generalizing start with
  | nil => simp [eq_comm]
  | cons c text ih =>
    have hcons : decimalValue (c :: text) = 10 ^ text.length * (c.toNat - 48) + decimalValue text := by
      rw [decimalValue, List.map_cons, value_cons, List.length_map]
      rfl
    rw [List.foldlM_cons, Option.bind_eq_bind, Option.bind_eq_some_iff, List.forall_mem_cons, hcons]
    constructor
    · rintro ⟨m, hread, hrest⟩
      obtain ⟨d, hd, hm⟩ := Option.bind_eq_some_iff.1 hread
      obtain ⟨hc, rfl⟩ := digit_eq_some.1 hd
      obtain rfl := Option.some.inj hm
      obtain ⟨hdigits, rfl⟩ := ih.1 hrest
      refine ⟨⟨hc, hdigits⟩, ?_⟩
      rw [List.length_cons, pow_succ]
      ring
    · rintro ⟨⟨hc, hdigits⟩, rfl⟩
      refine ⟨c.toNat - 48 + 10 * start, ?_, ih.2 ⟨hdigits, ?_⟩⟩
      · rw [readDigit, digit_eq_some.2 ⟨hc, rfl⟩]
        rfl
      · rw [List.length_cons, pow_succ]
        ring

/-- **Exactly runs of digits are read**, as what they spell. -/
theorem digits_eq_some {n : ℕ} :
    digits 10 text = some n ↔ text ≠ [] ∧ (∀ c ∈ text, IsDigit c) ∧ n = decimalValue text := by
  unfold digits
  split_ifs with h
  · simp [h]
  · rw [foldlM_readDigit_eq_some, Nat.mul_zero, Nat.zero_add]
    simp [h]

theorem unsigned_eq_some {bound n : ℕ} : unsigned 10 bound text = some n ↔
    (text ≠ [] ∧ (∀ c ∈ text, IsDigit c) ∧ n = decimalValue text) ∧ n < bound := by
  rw [unsigned, Option.filter_eq_some_iff, digits_eq_some]
  simp

/-- Zeros in front of a text that is shorter than `width`. -/
def zeroFill (width : ℕ) (text : List UInt8) : List UInt8 :=
  List.replicate (width - text.length) 48 ++ text

theorem decimalValue_zeroFill (width : ℕ) (text : List UInt8) :
    decimalValue (zeroFill width text) = decimalValue text := by
  rw [zeroFill, decimalValue_append, decimalValue_zeros, Nat.mul_zero, Nat.zero_add]

theorem zeroFill_isDigit {width : ℕ} (h : ∀ c ∈ text, IsDigit c) :
    ∀ c ∈ zeroFill width text, IsDigit c := by
  intro c hc
  rcases List.mem_append.1 hc with hc | hc
  · rw [List.eq_of_mem_replicate hc]
    exact ⟨by decide, by decide⟩
  · exact h c hc

theorem length_zeroFill {width : ℕ} (h : text.length ≤ width) :
    (zeroFill width text).length = width := by
  rw [zeroFill, List.length_append, List.length_replicate]
  omega

theorem length_decimal {n k : ℕ} (hpos : 0 < k) (h : n < 10 ^ k) : (decimal n).length ≤ k := by
  unfold decimal
  split_ifs
  · exact hpos
  · rw [List.length_map, List.length_reverse]
    exact (Nat.digits_length_le_iff (by norm_num) n).2 h

@[simp] theorem decimalValue_decimal (n : ℕ) : decimalValue (decimal n) = n :=
  (digits_eq_some.1 (digits_decimal n)).2.2.symm

end Text
