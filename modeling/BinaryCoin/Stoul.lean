/-
  BinaryCoin — what `std::stoul` takes for a number: white space, a sign,
  digits, and anything behind them.
-/
import BinaryCoin.HdWallet
import BinaryCoin.Lib.Scan

namespace BinaryCoin

open Text

theorem isDigit_iff {c : UInt8} : isDigit c = true ↔ IsDigit c := decide_eq_true_iff

/-- A digit is no white space and no sign. -/
theorem digit_facts : ∀ c : UInt8, isDigit c = true → isWhitespace c = false ∧ c ≠ 43 ∧ c ≠ 45 := by
  decide +kernel

/-- The parts of a text that is read as a number. -/
structure Scanned (text space sign digits rest : Str) : Prop where
  text_eq : text = space ++ (sign ++ (digits ++ rest))
  space_all : ∀ c ∈ space, isWhitespace c = true
  sign_eq : sign = [] ∨ sign = [43] ∨ sign = [45]
  digits_ne : digits ≠ []
  digits_all : ∀ c ∈ digits, isDigit c = true
  rest_head : rest.head?.all fun c => !isDigit c

/-- A number behind a sign; a negative one wraps around. -/
def signedValue (sign : Str) (n : ℕ) : ℕ := if sign = [45] then (2 ^ 64 - n) % 2 ^ 64 else n

variable {text space sign digits rest : Str}

theorem skipSign_append (hsign : sign = [] ∨ sign = [43] ∨ sign = [45])
    (hhead : rest.head?.all fun c => !(c = 43 ∨ c = 45 : Bool)) : skipSign (sign ++ rest) = rest := by
  rcases hsign with rfl | rfl | rfl
  · cases rest with
    | nil => rfl
    | cons c rest =>
      have hc : ¬ (c = 43 ∨ c = 45) := by simpa using hhead
      rw [List.nil_append, skipSign, if_neg]
      simpa [next] using hc
  · rfl
  · rfl

theorem Scanned.digits_head (h : Scanned text space sign digits rest) :
    ∃ c tail, digits ++ rest = c :: tail ∧ isDigit c = true := by
  obtain ⟨c, tail, rfl⟩ := List.exists_cons_of_ne_nil h.digits_ne
  exact ⟨c, tail ++ rest, rfl, h.digits_all c List.mem_cons_self⟩

theorem Scanned.dropSpace (h : Scanned text space sign digits rest) :
    text.dropWhile isWhitespace = sign ++ (digits ++ rest) := by
  obtain ⟨c, tail, htail, hc⟩ := h.digits_head
  rw [h.text_eq]
  refine (span_append h.space_all ?_).2
  rcases h.sign_eq with rfl | rfl | rfl
  · rw [List.nil_append, htail]
    simp [(digit_facts c hc).1]
  · rfl
  · rfl

theorem Scanned.skipSign (h : Scanned text space sign digits rest) :
    skipSign (text.dropWhile isWhitespace) = digits ++ rest := by
  obtain ⟨c, tail, htail, hc⟩ := h.digits_head
  rw [h.dropSpace, skipSign_append h.sign_eq]
  rw [htail]
  simp [(digit_facts c hc).2]

theorem Scanned.negative (h : Scanned text space sign digits rest) :
    next (· = 45) (text.dropWhile isWhitespace) = decide (sign = [45]) := by
  obtain ⟨c, tail, htail, hc⟩ := h.digits_head
  rw [h.dropSpace, htail]
  rcases h.sign_eq with rfl | rfl | rfl
  · simp [next, (digit_facts c hc).2.2]
  · rfl
  · rfl

/-- **What is read of a text** whose parts are known. -/
theorem Scanned.stoul (h : Scanned text space sign digits rest) :
    stoul text = if 2 ^ 64 ≤ decimalValue digits then .error (outOfRange "stoul")
      else .ok (signedValue sign (decimalValue digits),
        space.length + sign.length + digits.length) := by
  have htake : (digits ++ rest).takeWhile isDigit = digits := (span_append h.digits_all h.rest_head).1
  have hvalue : Text.digits 10 digits = some (decimalValue digits) :=
    digits_eq_some.2 ⟨h.digits_ne, fun c hc => isDigit_iff.1 (h.digits_all c hc), rfl⟩
  have hlen : text.length - (digits ++ rest).length = space.length + sign.length := by
    simp only [h.text_eq, List.length_append]
    omega
  rw [BinaryCoin.stoul]
  simp only [h.skipSign, htake, hvalue, Option.getD_some, hlen, h.negative, decide_eq_true_eq]
  rw [throwIf, if_neg h.digits_ne, throwIf, signedValue]
  by_cases hbound : 2 ^ 64 ≤ decimalValue digits
  · rw [if_pos hbound, if_pos hbound]
    rfl
  · rw [if_neg hbound, if_neg hbound]
    split_ifs <;> rfl

/-- A text that is read has such parts. -/
theorem scanned_of_stoul {r : ℕ × ℕ} (h : stoul text = .ok r) :
    ∃ space sign digits rest, Scanned text space sign digits rest := by
  obtain ⟨_, hne, -⟩ := except_bind_ok.1 h
  have hdigits := throwIf_ok.1 hne
  obtain ⟨sign, hsign, hsigns⟩ : ∃ sign, text.dropWhile isWhitespace =
      sign ++ BinaryCoin.skipSign (text.dropWhile isWhitespace) ∧
      (sign = [] ∨ sign = [43] ∨ sign = [45]) := by
    unfold BinaryCoin.skipSign
    split_ifs with hnext
    · cases hrest : text.dropWhile isWhitespace with
      | nil => rw [hrest] at hnext; cases hnext
      | cons c tail =>
        rw [hrest] at hnext
        rcases of_decide_eq_true hnext with rfl | rfl
        · exact ⟨[43], rfl, .inr (.inl rfl)⟩
        · exact ⟨[45], rfl, .inr (.inr rfl)⟩
    · exact ⟨[], rfl, .inl rfl⟩
  refine ⟨text.takeWhile isWhitespace, sign,
    (BinaryCoin.skipSign (text.dropWhile isWhitespace)).takeWhile isDigit,
    (BinaryCoin.skipSign (text.dropWhile isWhitespace)).dropWhile isDigit,
    ⟨?_, ?_, hsigns, hdigits, ?_, ?_⟩⟩
  · rw [List.takeWhile_append_dropWhile, ← hsign, List.takeWhile_append_dropWhile]
  · intro c hc
    exact List.mem_takeWhile_imp hc
  · intro c hc
    exact List.mem_takeWhile_imp hc
  · exact head?_dropWhile isDigit _

end BinaryCoin
