/-
  BinaryCoin — wallet_amount.cpp: amounts as decimal text.

  The reader multiplies and adds in 64 bits; it has made sure before that the
  coins are no more than there can be, so that nothing wraps.
-/
import BinaryCoin.FromChars
import BinaryCoin.Lib.Scan
import BinaryCoin.Transaction

namespace BinaryCoin

open Text

/-! ## The code -/

/-- `std::from_chars` on all of a text. -/
def readAll (text : Str) (what : String) : Except Exn ℕ :=
  orThrow (unsigned 10 (2 ^ 64) text) (invalidArgument what)

/-- The digits behind the point; it has filled them up to 8 before. -/
def readFraction (fractionText : Str) : Except Exn ℕ :=
  if fractionText = [] then .ok 0 else readAll fractionText "Invalid BIN fractional amount"

def parseBinAmount (text : Str) : Except Exn ℤ := do
  throwIf (text = [] ∨ text.head? = some 45) (invalidArgument "BIN amount must be positive")
  let parts := (cut 46 text).getD (text, [])
  throwIf (46 ∈ parts.2) (invalidArgument "BIN amount has multiple decimal points")
  throwIf (parts.1 = [] ∨ parts.2.length > 8)
    (invalidArgument "BIN amount supports at most 8 decimals")
  let fractionText := parts.2 ++ List.replicate (8 - parts.2.length) 48
  let whole ← readAll parts.1 "Invalid BIN amount"
  let fraction ← readFraction fractionText
  throwIf (whole > maxMoney / bitsPerBin) (invalidArgument "BIN amount too large")
  let bits : ℕ := (whole * bitsPerBin.toNat + fraction) % 2 ^ 64
  throwIf (bits > maxMoney) (invalidArgument "BIN amount outside money range")
  return bits

def formatBinAmount (amount : ℤ) : Except Exn Str := do
  throwIf (¬ moneyRange amount) (invalidArgument "Amount outside money range")
  return toText (amount / bitsPerBin) ++ 46 :: zeroFill 8 (toText (amount % bitsPerBin))

theorem toText_natCast (n : ℕ) : toText n = decimal n := by
  rw [toText, if_neg (by omega), Int.natAbs_natCast]

/-! ## The syntax of amounts -/

/-- Digits, then perhaps a point and at most 8 digits. -/
structure AmountSyntax (text whole fraction : Str) : Prop where
  text_eq : text = whole ∧ fraction = [] ∨ text = whole ++ 46 :: fraction
  whole_ne : whole ≠ []
  whole_digits : ∀ c ∈ whole, IsDigit c
  fraction_digits : ∀ c ∈ fraction, IsDigit c
  fraction_le : fraction.length ≤ 8

/-- The number of coins that is written. -/
def amountValue (whole fraction : Str) : ℚ :=
  decimalValue whole + decimalValue fraction / 10 ^ fraction.length

/-- The amount that is written, in the smallest unit. -/
def amountBits (whole fraction : Str) : ℕ :=
  decimalValue whole * 10 ^ 8 + 10 ^ (8 - fraction.length) * decimalValue fraction

variable {text whole fraction : Str}

theorem amountBits_eq (h : fraction.length ≤ 8) :
    (amountBits whole fraction : ℚ) = amountValue whole fraction * 10 ^ 8 := by
  have hpow : (10 : ℚ) ^ 8 = 10 ^ (8 - fraction.length) * 10 ^ fraction.length := by
    rw [← pow_add, Nat.sub_add_cancel h]
  have hne : (10 : ℚ) ^ fraction.length ≠ 0 := by positivity
  have hfraction : (decimalValue fraction : ℚ) / 10 ^ fraction.length * 10 ^ 8 =
      10 ^ (8 - fraction.length) * decimalValue fraction := by
    rw [hpow]
    field_simp
  rw [amountBits, amountValue, add_mul, hfraction, Nat.cast_add, Nat.cast_mul, Nat.cast_mul,
    Nat.cast_pow, Nat.cast_pow]
  rfl

theorem dot_notMem (h : ∀ c ∈ text, IsDigit c) : (46 : UInt8) ∉ text := by
  intro hmem
  exact absurd (h 46 hmem) (by unfold IsDigit; decide)

/-- The parts of a text that is an amount. -/
theorem AmountSyntax.parts (h : AmountSyntax text whole fraction) :
    (cut 46 text).getD (text, []) = (whole, fraction) := by
  rcases h.text_eq with ⟨rfl, rfl⟩ | rfl
  · rw [cut_eq_none.2 (dot_notMem h.whole_digits)]
    rfl
  · rw [cut_append (dot_notMem h.whole_digits)]
    rfl

/-- The parts of a text are its whole. -/
theorem text_of_parts (h : (cut 46 text).getD (text, []) = (whole, fraction)) :
    text = whole ∧ fraction = [] ∨ text = whole ++ 46 :: fraction := by
  cases hcut : cut 46 text with
  | none =>
    rw [hcut] at h
    obtain ⟨rfl, rfl⟩ := Prod.mk.inj h
    exact .inl ⟨rfl, rfl⟩
  | some parts =>
    rw [hcut] at h
    obtain rfl : parts = (whole, fraction) := h
    exact .inr (cut_eq_some.1 hcut).2

theorem readAll_ok {what : String} {n : ℕ} : readAll text what = .ok n ↔
    (text ≠ [] ∧ (∀ c ∈ text, IsDigit c) ∧ n = decimalValue text) ∧ n < 2 ^ 64 := by
  rw [readAll, orThrow_ok, unsigned_eq_some]

/-- The digits behind the point, filled up to 8. -/
theorem readFraction_ok {n : ℕ} (h : fraction.length ≤ 8) :
    readFraction (fraction ++ List.replicate (8 - fraction.length) 48) = .ok n ↔
      (∀ c ∈ fraction, IsDigit c) ∧ n = 10 ^ (8 - fraction.length) * decimalValue fraction := by
  have hlen : (fraction ++ List.replicate (8 - fraction.length) 48).length = 8 := by
    rw [List.length_append, List.length_replicate]
    omega
  have hne : fraction ++ List.replicate (8 - fraction.length) 48 ≠ [] := by
    intro hnil
    rw [hnil] at hlen
    cases hlen
  have hvalue : decimalValue (fraction ++ List.replicate (8 - fraction.length) 48) =
      10 ^ (8 - fraction.length) * decimalValue fraction := by
    rw [decimalValue_append, decimalValue_zeros, List.length_replicate, Nat.add_zero]
  have hzero : IsDigit 48 := ⟨by decide, by decide⟩
  rw [readFraction, if_neg hne, readAll_ok]
  constructor
  · rintro ⟨⟨-, hdigits, rfl⟩, -⟩
    exact ⟨fun c hc => hdigits c (List.mem_append_left _ hc), hvalue⟩
  · rintro ⟨hdigits, rfl⟩
    have hall : ∀ c ∈ fraction ++ List.replicate (8 - fraction.length) 48, IsDigit c := by
      intro c hc
      rcases List.mem_append.1 hc with hc | hc
      · exact hdigits c hc
      · rwa [List.eq_of_mem_replicate hc]
    have hlt := decimalValue_lt hall
    rw [hvalue, hlen] at hlt
    exact ⟨⟨hne, hall, hvalue.symm⟩, by omega⟩

/-! ## What is read -/

/-- **Exactly the amounts are read.** -/
theorem parseBinAmount_ok {a : ℤ} : parseBinAmount text = .ok a ↔ ∃ whole fraction,
    AmountSyntax text whole fraction ∧ (amountBits whole fraction : ℤ) ≤ maxMoney ∧
      a = amountBits whole fraction := by
  have hcoins : maxMoney / bitsPerBin = 21000000 := rfl
  have hmax : maxMoney = 21000000 * 10 ^ 8 := rfl
  have hbits : bitsPerBin.toNat = 10 ^ 8 := rfl
  simp only [parseBinAmount, except_bind_ok, throwIf_ok, exists_const, except_pure_ok, not_or,
    not_lt, gt_iff_lt, hcoins, hbits]
  constructor
  · rintro ⟨-, -, ⟨hne, hle⟩, whole, hwhole, fraction, hfraction, hmany, hrange, rfl⟩
    obtain ⟨⟨-, hdigits, rfl⟩, -⟩ := readAll_ok.1 hwhole
    obtain ⟨hdigits', rfl⟩ := (readFraction_ok hle).1 hfraction
    have hlt := decimalValue_lt hdigits'
    have hfill : 10 ^ (8 - ((cut 46 text).getD (text, [])).2.length) *
        decimalValue ((cut 46 text).getD (text, [])).2 < 10 ^ 8 := by
      calc _ < 10 ^ (8 - ((cut 46 text).getD (text, [])).2.length) *
            10 ^ ((cut 46 text).getD (text, [])).2.length := Nat.mul_lt_mul_of_pos_left hlt (by positivity)
        _ = 10 ^ 8 := by rw [← pow_add, Nat.sub_add_cancel hle]
    refine ⟨_, _, ⟨text_of_parts rfl, hne, hdigits, hdigits', hle⟩, ?_⟩
    unfold amountBits
    rw [Nat.mod_eq_of_lt (by omega)] at hrange ⊢
    exact ⟨hrange, rfl⟩
  · rintro ⟨whole, fraction, h, hle, rfl⟩
    have hsign : ¬ text.head? = some 45 := by
      intro hhead
      obtain ⟨c, whole, rfl⟩ := List.exists_cons_of_ne_nil h.whole_ne
      obtain ⟨rest, rfl⟩ : ∃ rest, text = c :: rest := by
        rcases h.text_eq with ⟨rfl, -⟩ | rfl
        · exact ⟨_, rfl⟩
        · exact ⟨_, rfl⟩
      obtain rfl := Option.some.inj hhead
      exact absurd (h.whole_digits 45 List.mem_cons_self) (by unfold IsDigit; decide)
    have hne : text ≠ [] := by
      rcases h.text_eq with ⟨rfl, -⟩ | rfl
      · exact h.whole_ne
      · simp
    rw [h.parts]
    rw [hmax] at hle
    unfold amountBits at hle ⊢
    have hmod : (decimalValue whole * 10 ^ 8 + 10 ^ (8 - fraction.length) * decimalValue fraction) %
        2 ^ 64 = decimalValue whole * 10 ^ 8 + 10 ^ (8 - fraction.length) * decimalValue fraction :=
      Nat.mod_eq_of_lt (by omega)
    exact ⟨⟨hne, hsign⟩, dot_notMem h.fraction_digits, ⟨h.whole_ne, h.fraction_le⟩, decimalValue whole,
      readAll_ok.2 ⟨⟨h.whole_ne, h.whole_digits, rfl⟩, by omega⟩, _,
      (readFraction_ok h.fraction_le).2 ⟨h.fraction_digits, rfl⟩, by omega, by rw [hmod, hmax]; omega,
      by rw [hmod]⟩

/-! ## What is written -/

/-- An amount is written with 8 digits behind the point. -/
theorem formatBinAmount_ok {n : ℕ} {text : Str} (h : formatBinAmount n = .ok text) :
    ∃ whole fraction, AmountSyntax text whole fraction ∧ amountBits whole fraction = n := by
  obtain ⟨_, -, htext⟩ := except_bind_ok.1 h
  obtain rfl := except_pure_ok.1 htext
  have hbits : bitsPerBin = ((10 ^ 8 : ℕ) : ℤ) := rfl
  have hlen : (decimal (n % 10 ^ 8)).length ≤ 8 :=
    length_decimal (by norm_num) (Nat.mod_lt _ (by norm_num))
  have hfill := length_zeroFill hlen
  rw [hbits, ← Int.natCast_ediv, ← Int.natCast_emod]
  refine ⟨decimal (n / 10 ^ 8), zeroFill 8 (decimal (n % 10 ^ 8)), ⟨.inr ?_, decimal_ne_nil _,
    decimal_isDigit _, zeroFill_isDigit (decimal_isDigit _), hfill.le⟩, ?_⟩
  · rw [toText_natCast, toText_natCast]
  · rw [amountBits, hfill, decimalValue_zeroFill, decimalValue_decimal, decimalValue_decimal,
      Nat.sub_self, pow_zero, Nat.one_mul, Nat.mul_comm, Nat.div_add_mod]

/-- **Amounts as text are exact**: what is written is read back, and a text is read as the amount
    that it writes, exactly if it writes one in the money range. -/
theorem bin_amounts_exact :
    (∀ a, moneyRange a → ∃ text, formatBinAmount a = .ok text ∧ parseBinAmount text = .ok a) ∧
    ∀ text a, parseBinAmount text = .ok a ↔ ∃ whole fraction, AmountSyntax text whole fraction ∧
      amountValue whole fraction * 10 ^ 8 ≤ maxMoney ∧
      (a : ℚ) = amountValue whole fraction * 10 ^ 8 := by
  constructor
  · intro a ha
    obtain ⟨hnonneg, hle⟩ := moneyRange_iff.1 ha
    obtain ⟨n, rfl⟩ := Int.eq_ofNat_of_zero_le hnonneg
    have hrange : ¬ ¬ moneyRange (n : ℤ) := not_not.2 ha
    obtain ⟨text, htext⟩ : ∃ text, formatBinAmount n = .ok text := by
      rw [formatBinAmount, throwIf, if_neg hrange]
      exact ⟨_, rfl⟩
    obtain ⟨whole, fraction, hsyntax, hbits⟩ := formatBinAmount_ok htext
    refine ⟨text, htext, parseBinAmount_ok.2 ⟨whole, fraction, hsyntax, ?_, ?_⟩⟩
    · rwa [hbits]
    · rw [hbits]
  · intro text a
    rw [parseBinAmount_ok]
    constructor
    · rintro ⟨whole, fraction, h, hle, rfl⟩
      refine ⟨whole, fraction, h, ?_, ?_⟩
      · rw [← amountBits_eq h.fraction_le]
        exact_mod_cast hle
      · rw [← amountBits_eq h.fraction_le]
        exact Int.cast_natCast _
    · rintro ⟨whole, fraction, h, hle, ha⟩
      rw [← amountBits_eq h.fraction_le] at hle ha
      exact ⟨whole, fraction, h, by exact_mod_cast hle, by exact_mod_cast ha⟩

theorem bin_amounts_exact_largest :
    ∃ text, formatBinAmount maxMoney = .ok text ∧ parseBinAmount text = .ok maxMoney :=
  bin_amounts_exact.1 maxMoney (by decide)

end BinaryCoin
