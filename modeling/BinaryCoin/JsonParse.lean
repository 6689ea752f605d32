/-
  BinaryCoin — the parser of json.cpp accepts exactly the grammar.

  Soundness is by induction on the fuel, a step of the parser at a time.
  Completeness is by induction on the derivation; a number needs to know that
  what follows does not continue it.
-/
import BinaryCoin.JsonGrammar

namespace BinaryCoin

open Cursor

/-! ## Scanners -/

section
variable {size : ℕ} {s r : Bytes} {c : UInt8}

theorem fail_ok {α : Type} {message : String} {a : α} :
    (fail size message : Reader α).run s = .ok a r ↔ False := by
  constructor
  · nofun
  · exact False.elim

theorem failIf_ok {c : Prop} [Decidable c] {message : String} {u : Unit} :
    (failIf size c message).run s = .ok u r ↔ ¬ c ∧ s = r := by
  unfold failIf
  by_cases hc : c
  · simp only [hc, if_true, fail_ok, not_true, false_and]
  · simp only [hc, if_false, run_pure_ok, not_false_eq_true, true_and]

@[simp] theorem next_nil {p : UInt8 → Bool} : next p [] = false := rfl

@[simp] theorem next_cons {p : UInt8 → Bool} : next p (c :: s) = p c := rfl

theorem consume_ok {b : Bool} : (consume c).run s = .ok b r ↔
    (b = true ∧ s = c :: r) ∨ (b = false ∧ s = r ∧ next (· = c) s = false) := by
  unfold consume
  rw [run_bind_ok]
  simp only [run_get_ok]
  cases s with
  | nil =>
    constructor
    · rintro ⟨_, _, ⟨rfl, rfl⟩, h⟩
      cases h
      exact .inr ⟨rfl, rfl, rfl⟩
    · rintro (⟨-, h⟩ | ⟨rfl, rfl, -⟩)
      · cases h
      · exact ⟨_, _, ⟨rfl, rfl⟩, rfl⟩
  | cons d s =>
    by_cases hd : d = c
    · subst hd
      constructor
      · rintro ⟨_, _, ⟨rfl, rfl⟩, h⟩
        simp only [next_cons, decide_true, if_true, run_bind_ok, run_modify_ok, run_pure_ok] at h
        obtain ⟨_, _, rfl, rfl, rfl⟩ := h
        exact .inl ⟨rfl, rfl⟩
      · rintro (⟨rfl, h⟩ | ⟨-, -, h⟩)
        · obtain ⟨-, rfl⟩ := List.cons.inj h
          refine ⟨_, _, ⟨rfl, rfl⟩, ?_⟩
          simp only [next_cons, decide_true, if_true]
          rfl
        · simp at h
    · constructor
      · rintro ⟨_, _, ⟨rfl, rfl⟩, h⟩
        simp only [next_cons, hd, decide_false, Bool.false_eq_true, if_false, run_pure_ok] at h
        obtain ⟨rfl, rfl⟩ := h
        exact .inr ⟨rfl, rfl, by simp [hd]⟩
      · rintro (⟨-, h⟩ | ⟨rfl, rfl, -⟩)
        · exact absurd (List.cons.inj h).1 hd
        · refine ⟨_, _, ⟨rfl, rfl⟩, ?_⟩
          simp [hd]

theorem expect_ok {u : Unit} : (expect size c).run s = .ok u r ↔ s = c :: r := by
  simp only [expect, run_bind_ok, consume_ok, failIf_ok, not_not]
  constructor
  · rintro ⟨b, s₁, ⟨rfl, rfl⟩ | ⟨rfl, -, -⟩, h, hr⟩
    · rw [hr]
    · cases h
  · rintro rfl
    exact ⟨true, r, .inl ⟨rfl, rfl⟩, rfl, rfl⟩

/-- Skipping goes as far as it can. -/
theorem dropWhile_eq {p : UInt8 → Bool} : s.dropWhile p = r ↔ Star p s r ∧ next p r = false := by
  constructor
  · rintro rfl
    induction s with
    | nil => exact ⟨.nil, rfl⟩
    | cons c s ih =>
      by_cases hc : p c
      · rw [List.dropWhile_cons_of_pos hc]
        exact ⟨.cons hc ih.1, ih.2⟩
      · rw [List.dropWhile_cons_of_neg hc]
        exact ⟨.nil, by simpa using hc⟩
  · rintro ⟨h, hr⟩
    induction h with
    | @nil r =>
      cases r with
      | nil => rfl
      | cons c r => exact List.dropWhile_cons_of_neg (by simpa using hr)
    | cons hc _ ih => rw [List.dropWhile_cons_of_pos hc, ih hr]

theorem skipSpace_ok {u : Unit} :
    skipSpace.run s = .ok u r ↔ Ws s r ∧ next isSpace r = false := by
  rw [skipSpace, run_modify_ok, dropWhile_eq]

theorem skipDigits_ok {u : Unit} :
    skipDigits.run s = .ok u r ↔ DigitStar s r ∧ next isDigit r = false := by
  rw [skipDigits, run_modify_ok, dropWhile_eq]

/-! ## Numbers -/

theorem requireDigits_ok {message : String} {u : Unit} :
    (requireDigits size message).run s = .ok u r ↔ Digits s r ∧ next isDigit r = false := by
  simp only [requireDigits, run_bind_ok, run_get_ok, failIf_ok, skipDigits_ok, not_not]
  constructor
  · rintro ⟨_, _, ⟨rfl, rfl⟩, _, _, ⟨hnext, rfl⟩, h, hr⟩
    cases h with
    | nil => simp [hnext] at hr
    | cons hc h => exact ⟨.mk hc h, hr⟩
  · rintro ⟨h, hr⟩
    cases h with
    | mk hc h => exact ⟨_, _, ⟨rfl, rfl⟩, (), _, ⟨hc, rfl⟩, .cons hc h, hr⟩

theorem scanFraction_ok {b : Bool} : (scanFraction size).run s = .ok b r ↔
    Fraction b s r ∧ if b then next isDigit r = false else next (· = 46) r = false := by
  unfold scanFraction
  rw [run_bind_ok]
  simp only [consume_ok]
  constructor
  · rintro ⟨_, s₁, ⟨rfl, rfl⟩ | ⟨rfl, rfl, hnext⟩, h⟩
    · simp only [if_true, run_bind_ok, requireDigits_ok, run_pure_ok] at h
      obtain ⟨_, _, ⟨h, hr⟩, rfl, rfl⟩ := h
      exact ⟨.some h, hr⟩
    · simp only [Bool.false_eq_true, if_false, run_pure_ok] at h
      obtain ⟨rfl, rfl⟩ := h
      exact ⟨.none, hnext⟩
  · rintro ⟨h, hr⟩
    cases h with
    | none => exact ⟨false, _, .inr ⟨rfl, rfl, hr⟩, rfl⟩
    | @some s _ h =>
      refine ⟨true, s, .inl ⟨rfl, rfl⟩, ?_⟩
      simp only [if_true, run_bind_ok, requireDigits_ok, run_pure_ok]
      exact ⟨(), r, ⟨h, hr⟩, trivial, rfl⟩

theorem skipSign_eq (rest : Bytes) : (∃ sign s', (sign = 43 ∨ sign = 45) ∧ rest = sign :: s' ∧
    skipSign rest = s') ∨ skipSign rest = rest := by
  cases rest with
  | nil => exact .inr rfl
  | cons c s' =>
    by_cases hc : c = 43 ∨ c = 45
    · exact .inl ⟨c, s', hc, rfl, by simp [skipSign, hc]⟩
    · exact .inr (by simp [skipSign, hc])

theorem scanExponent_ok {b : Bool} : (scanExponent size).run s = .ok b r ↔
    Exponent b s r ∧
      if b then next isDigit r = false else next (fun c => c = 101 ∨ c = 69) r = false := by
  unfold scanExponent
  rw [run_bind_ok]
  simp only [run_get_ok]
  constructor
  · rintro ⟨_, _, ⟨rfl, rfl⟩, h⟩
    cases s with
    | nil =>
      obtain ⟨rfl, rfl⟩ := run_pure_ok.1 h
      exact ⟨.none, rfl⟩
    | cons e s =>
      by_cases he : e = 101 ∨ e = 69
      · simp only [next_cons, he, decide_true, if_true, run_bind_ok, run_modify_ok, run_pure_ok,
          requireDigits_ok, List.drop_one, List.tail_cons] at h
        obtain ⟨_, _, rfl, _, _, ⟨h, hr⟩, rfl, rfl⟩ := h
        rcases skipSign_eq s with ⟨sign, s', hsign, rfl, heq⟩ | heq
        · rw [heq] at h
          exact ⟨.signed he hsign h, hr⟩
        · rw [heq] at h
          exact ⟨.some he h, hr⟩
      · simp only [next_cons, he, decide_false, Bool.false_eq_true, if_false, run_pure_ok] at h
        obtain ⟨rfl, rfl⟩ := h
        exact ⟨.none, by simpa using he⟩
  · rintro ⟨h, hr⟩
    refine ⟨_, _, ⟨rfl, rfl⟩, ?_⟩
    cases h with
    | none =>
      rw [if_neg Bool.false_ne_true] at hr
      simp only [hr, Bool.false_eq_true, if_false]
      rfl
    | @some e s _ he h =>
      have hsign : skipSign s = s := by
        cases h with
        | @mk c s _ hc _ =>
          refine if_neg ?_
          simp only [next_cons, decide_eq_true_eq]
          rintro (rfl | rfl) <;> simp [isDigit] at hc
      simp only [next_cons, he, decide_true, if_true, run_bind_ok, run_modify_ok, run_pure_ok,
        requireDigits_ok, List.drop_one, List.tail_cons]
      exact ⟨(), _, rfl, (), _, ⟨hsign.symm ▸ h, hr⟩, trivial, rfl⟩
    | @signed e sign s _ he hsign h =>
      have heq : skipSign (sign :: s) = s := by simp [skipSign, hsign]
      simp only [next_cons, he, decide_true, if_true, run_bind_ok, run_modify_ok, run_pure_ok,
        requireDigits_ok, List.drop_one, List.tail_cons]
      exact ⟨(), _, rfl, (), _, ⟨heq.symm ▸ h, hr⟩, trivial, rfl⟩

theorem scanDigits_ok {u : Unit} :
    (scanDigits size).run s = .ok u r ↔ JsonInt s r ∧ next isDigit r = false := by
  unfold scanDigits
  rw [run_bind_ok]
  simp only [consume_ok]
  constructor
  · rintro ⟨_, s₁, ⟨rfl, rfl⟩ | ⟨rfl, rfl, hnext⟩, h⟩
    · simp only [if_true, run_bind_ok, run_get_ok, failIf_ok] at h
      obtain ⟨_, _, ⟨rfl, rfl⟩, hr, rfl⟩ := h
      exact ⟨.zero, by simpa using hr⟩
    · simp only [Bool.false_eq_true, if_false, run_bind_ok, run_get_ok, failIf_ok, not_not,
        skipDigits_ok] at h
      obtain ⟨_, _, ⟨rfl, rfl⟩, _, _, ⟨hfirst, rfl⟩, h, hr⟩ := h
      cases h with
      | nil =>
        obtain ⟨c, r', rfl, hc⟩ : ∃ c r', s = c :: r' ∧ (49 ≤ c ∧ c ≤ 57) := by
          cases s with
          | nil => cases hfirst
          | cons c r' => exact ⟨c, r', rfl, by simpa using hfirst⟩
        simp only [next_cons, isDigit, decide_eq_false_iff_not] at hr
        exact absurd ⟨UInt8.le_trans (by decide) hc.1, hc.2⟩ hr
      | cons _ h => exact ⟨.nonzero (by simpa using hfirst) h, hr⟩
  · rintro ⟨h, hr⟩
    cases h with
    | zero =>
      refine ⟨true, r, .inl ⟨rfl, rfl⟩, ?_⟩
      simp only [if_true, run_bind_ok, run_get_ok, failIf_ok]
      exact ⟨_, _, ⟨rfl, rfl⟩, by simpa using hr, rfl⟩
    | @nonzero c s _ hc h =>
      have hzero : next (· = 48) (c :: s) = false := by
        simp only [next_cons, decide_eq_false_iff_not]
        rintro rfl
        exact absurd hc.1 (by decide)
      have hdigit : isDigit c := by
        simp only [isDigit, decide_eq_true_eq]
        exact ⟨UInt8.le_trans (by decide) hc.1, hc.2⟩
      refine ⟨false, c :: s, .inr ⟨rfl, rfl, hzero⟩, ?_⟩
      simp only [Bool.false_eq_true, if_false, run_bind_ok, run_get_ok, failIf_ok, not_not,
        skipDigits_ok]
      exact ⟨_, _, ⟨rfl, rfl⟩, (), _, ⟨by simpa using hc, rfl⟩, .cons hdigit h, hr⟩

theorem JsonInt.not_minus (h : JsonInt s r) : next (· = 45) s = false := by
  cases h with
  | zero => rfl
  | @nonzero c s _ hc _ =>
    simp only [next_cons, decide_eq_false_iff_not]
    rintro rfl
    exact absurd hc.1 (by decide)

theorem scanInteger_ok {u : Unit} :
    (scanInteger size).run s = .ok u r ↔ Integer s r ∧ next isDigit r = false := by
  simp only [scanInteger, run_bind_ok, consume_ok, scanDigits_ok]
  constructor
  · rintro ⟨_, s₁, ⟨-, rfl⟩ | ⟨-, rfl, -⟩, h, hr⟩
    · exact ⟨.minus h, hr⟩
    · exact ⟨.plus h, hr⟩
  · rintro ⟨h, hr⟩
    cases h with
    | plus h => exact ⟨false, s, .inr ⟨rfl, rfl, h.not_minus⟩, h, hr⟩
    | minus h => exact ⟨true, _, .inl ⟨rfl, rfl⟩, h, hr⟩

/-! ### What is scanned is a beginning -/

theorem Star.suffix {p : UInt8 → Bool} (h : Star p s r) : r <:+ s := by
  induction h with
  | nil => exact List.suffix_rfl
  | cons _ _ ih => exact ih.trans (List.suffix_cons ..)

theorem Digits.suffix (h : Digits s r) : r <:+ s := by
  cases h with
  | mk _ h => exact h.suffix.trans (List.suffix_cons ..)

theorem Integer.suffix (h : Integer s r) : r <:+ s := by
  have hint : ∀ {s}, JsonInt s r → r <:+ s := by
    intro s h
    cases h with
    | zero => exact List.suffix_cons ..
    | nonzero _ h => exact h.suffix.trans (List.suffix_cons ..)
  cases h with
  | plus h => exact hint h
  | minus h => exact (hint h).trans (List.suffix_cons ..)

theorem Fraction.suffix {b : Bool} (h : Fraction b s r) : r <:+ s := by
  cases h with
  | none => exact List.suffix_rfl
  | some h => exact h.suffix.trans (List.suffix_cons ..)

theorem Exponent.suffix {b : Bool} (h : Exponent b s r) : r <:+ s := by
  cases h with
  | none => exact List.suffix_rfl
  | some _ h => exact h.suffix.trans (List.suffix_cons ..)
  | signed _ _ h => exact h.suffix.trans ((List.suffix_cons ..).trans (List.suffix_cons ..))

/-- Nothing that could continue a number follows. -/
def NumberEnds (r : Bytes) : Prop :=
  next (fun c => isDigit c ∨ c = 46 ∨ c = 101 ∨ c = 69) r = false

theorem NumberEnds.next {p : UInt8 → Bool} (h : NumberEnds r)
    (hp : ∀ c, p c → isDigit c ∨ c = 46 ∨ c = 101 ∨ c = 69) : next p r = false := by
  cases r with
  | nil => rfl
  | cons c r =>
    have hc : ¬ (isDigit c ∨ c = 46 ∨ c = 101 ∨ c = 69) := by simpa [NumberEnds] using h
    exact Bool.eq_false_iff.2 fun h => hc (hp c h)

section
variable {D : Type} [Double D] {v : Json D}

theorem numberValue_ok {token : Str} {floating : Bool} :
    (numberValue size token floating).run s = .ok v r ↔ NumberDenotes token floating v ∧ s = r := by
  have hdouble : ∀ {floating}, floating = true ∨ Text.signed (2 ^ 63) token = none →
      ((do
        let p : D × ℕ ← Double.stod token
        failIf size (p.2 ≠ token.length ∨ ¬ Double.isFinite p.1) "Invalid JSON number"
        return .number p.1 : Reader (Json D)).run s = .ok v r ↔
        NumberDenotes token floating v ∧ s = r) := by
    intro floating hnot
    simp only [run_bind_ok, lift_run_ok, failIf_ok, run_pure_ok, Prod.exists]
    constructor
    · rintro ⟨d, used, _, ⟨hstod, rfl⟩, _, _, ⟨hok, rfl⟩, rfl, rfl⟩
      obtain ⟨hused, hfinite⟩ := not_or.1 hok
      rw [not_not] at hused hfinite
      exact ⟨.number hnot (hused ▸ hstod) hfinite, rfl⟩
    · rintro ⟨h, rfl⟩
      cases h with
      | integer h =>
        rcases hnot with h' | h'
        · cases h'
        · cases h.symm.trans h'
      | number _ h hfinite =>
        exact ⟨_, _, s, ⟨h, rfl⟩, (), s, ⟨by simp [hfinite], rfl⟩, rfl, rfl⟩
  unfold numberValue
  cases floating with
  | true =>
    cases hz : (Text.signed (2 ^ 63) token).map Int64.ofInt <;> exact hdouble (.inl rfl)
  | false =>
    cases hz : Text.signed (2 ^ 63) token with
    | none => exact hdouble (.inr hz)
    | some z =>
      rw [Option.map_some, run_pure_ok]
      refine and_congr_left fun _ => ⟨?_, fun h => ?_⟩
      · rintro rfl
        exact .integer hz
      · cases h with
        | integer h => rw [Option.some.inj (hz.symm.trans h)]
        | number hnot =>
          rcases hnot with h' | h'
          · cases h'
          · cases hz.symm.trans h'

theorem parseNumber_sound (h : (parseNumber size).run s = .ok v r) : Number s v r := by
  simp only [parseNumber, run_bind_ok, run_get_ok, scanInteger_ok, scanFraction_ok, scanExponent_ok,
    numberValue_ok] at h
  obtain ⟨_, _, ⟨rfl, rfl⟩, _, s₁, ⟨hinteger, -⟩, b, s₂, ⟨hfraction, -⟩, b', r, ⟨hexponent, -⟩, _, _,
    ⟨rfl, rfl⟩, hv, rfl⟩ := h
  obtain ⟨token, rfl⟩ := (hexponent.suffix.trans hfraction.suffix).trans hinteger.suffix
  have htoken : (token ++ r).take ((token ++ r).length - r.length) = token :=
    List.take_left' (by simp)
  rw [htoken] at hv
  exact .mk hinteger hfraction hexponent hv

theorem parseNumber_complete (h : Number s v r) (hr : NumberEnds r) :
    (parseNumber size).run s = .ok v r := by
  cases h with
  | @mk token s₁ s₂ r fraction exponent v hinteger hfraction hexponent hv =>
    have htoken : (token ++ r).take ((token ++ r).length - r.length) = token :=
      List.take_left' (by simp)
    simp only [parseNumber, run_bind_ok, run_get_ok, scanInteger_ok, scanFraction_ok,
      scanExponent_ok, numberValue_ok]
    have hexp : next isDigit s₂ = false ∧ next (· = 46) s₂ = false := by
      cases hexponent with
      | none => exact ⟨hr.next fun _ => .inl, hr.next (by simp)⟩
      | some he _ => rcases he with rfl | rfl <;> exact ⟨rfl, rfl⟩
      | signed he _ _ => rcases he with rfl | rfl <;> exact ⟨rfl, rfl⟩
    have hfrac : next isDigit s₁ = false := by
      cases hfraction with
      | none => exact hexp.1
      | some _ => rfl
    refine ⟨_, _, ⟨rfl, rfl⟩, (), s₁, ⟨hinteger, hfrac⟩, fraction, s₂, ⟨hfraction, ?_⟩, exponent, r,
      ⟨hexponent, ?_⟩, r, r, ⟨rfl, rfl⟩, htoken.symm ▸ hv, rfl⟩
    · cases fraction with
      | true => exact hexp.1
      | false => exact hexp.2
    · cases exponent with
      | true => exact hr.next fun _ => .inl
      | false => exact hr.next (by simp)

end

/-! ## Strings -/

theorem advance_ok {message : String} : (advance size message).run s = .ok c r ↔ s = c :: r := by
  unfold advance
  rw [run_bind_ok]
  simp only [run_get_ok]
  cases s with
  | nil =>
    constructor
    · rintro ⟨_, _, ⟨rfl, rfl⟩, h⟩
      exact absurd h (by simp [fail_ok])
    · nofun
  | cons d s =>
    constructor
    · rintro ⟨_, _, ⟨rfl, rfl⟩, h⟩
      simp only [run_bind_ok, run_set_ok, run_pure_ok] at h
      obtain ⟨_, _, rfl, rfl, rfl⟩ := h
      rfl
    · intro h
      obtain ⟨rfl, rfl⟩ := List.cons.inj h
      exact ⟨_, _, ⟨rfl, rfl⟩, rfl⟩

/-- One hexadecimal digit. -/
theorem readDigit_eq {value : ℕ} : Text.readDigit 16 value c =
    if 48 ≤ c ∧ c ≤ 57 then some (value * 16 + (c.toNat - 48))
    else if 97 ≤ c ∧ c ≤ 102 then some (value * 16 + (10 + c.toNat - 97))
    else if 65 ≤ c ∧ c ≤ 70 then some (value * 16 + (10 + c.toNat - 65))
    else none := by
  have hle : ∀ a b : UInt8, a ≤ b ↔ a.toNat ≤ b.toNat := fun _ _ => UInt8.le_iff_toNat_le
  simp only [Text.readDigit, Text.digit, hle, UInt8.reduceToNat]
  split_ifs with h₁ h₂ h₃
  · rw [Option.filter_some, if_pos (by simp; omega)]
    exact congrArg some (by omega)
  · rw [Option.filter_some, if_pos (by simp; omega)]
    exact congrArg some (by omega)
  · rw [Option.filter_some, if_pos (by simp; omega)]
    exact congrArg some (by omega)
  · rfl

theorem hexLoop_cons {count value n : ℕ} : (hexLoop size (count + 1) value).run (c :: s) = .ok n r ↔
    ∃ value', Text.readDigit 16 value c = some value' ∧
      (hexLoop size count value').run s = .ok n r := by
  rw [hexLoop, run_bind_ok]
  simp only [advance_ok, List.cons.injEq]
  rw [readDigit_eq]
  constructor
  · rintro ⟨_, _, ⟨rfl, rfl⟩, h⟩
    split_ifs at h ⊢
    · exact ⟨_, rfl, h⟩
    · exact ⟨_, rfl, h⟩
    · exact ⟨_, rfl, h⟩
    · simp [fail_ok] at h
  · rintro ⟨value', hvalue, h⟩
    refine ⟨c, s, ⟨rfl, rfl⟩, ?_⟩
    split_ifs at hvalue ⊢
    · cases hvalue
      exact h
    · cases hvalue
      exact h
    · cases hvalue
      exact h

theorem hexLoop_ok {count value n : ℕ} : (hexLoop size count value).run s = .ok n r ↔
    ∃ cs : Bytes, cs.length = count ∧ s = cs ++ r ∧ cs.foldlM (Text.readDigit 16) value = some n := by
  induction count generalizing value s with
  | zero =>
    rw [hexLoop, run_pure_ok]
    constructor
    · rintro ⟨rfl, rfl⟩
      exact ⟨[], rfl, rfl, rfl⟩
    · rintro ⟨cs, hlen, rfl, h⟩
      obtain rfl := List.length_eq_zero_iff.1 hlen
      exact ⟨Option.some.inj h, rfl⟩
  | succ count ih =>
    cases s with
    | nil =>
      constructor
      · intro h
        simp only [hexLoop, run_bind_ok, advance_ok] at h
        obtain ⟨_, _, h, -⟩ := h
        cases h
      · rintro ⟨cs, hlen, heq, -⟩
        obtain ⟨rfl, -⟩ := List.append_eq_nil_iff.1 heq.symm
        cases hlen
    | cons c s =>
      rw [hexLoop_cons]
      constructor
      · rintro ⟨value', hdigit, h⟩
        obtain ⟨cs, hlen, rfl, hcs⟩ := ih.1 h
        refine ⟨c :: cs, by rw [List.length_cons, hlen], rfl, ?_⟩
        rw [List.foldlM_cons, hdigit]
        exact hcs
      · rintro ⟨cs, hlen, heq, h⟩
        cases cs with
        | nil => cases hlen
        | cons d cs =>
          obtain ⟨rfl, rfl⟩ := List.cons.inj heq
          rw [List.foldlM_cons] at h
          obtain ⟨value', hdigit, h⟩ := Option.bind_eq_some_iff.1 h
          exact ⟨value', hdigit, ih.2 ⟨cs, Nat.succ.inj hlen, rfl, h⟩⟩

theorem parseHex4_ok {n : ℕ} : (parseHex4 size).run s = .ok n r ↔ Hex4 s n r := by
  simp only [parseHex4, run_bind_ok, run_get_ok, failIf_ok, hexLoop_ok]
  constructor
  · rintro ⟨_, _, ⟨rfl, rfl⟩, _, _, ⟨-, rfl⟩, cs, hlen, rfl, h⟩
    obtain ⟨a, b, c, d, rfl⟩ : ∃ a b c d, cs = [a, b, c, d] := by
      match cs, hlen with
      | [a, b, c, d], _ => exact ⟨a, b, c, d, rfl⟩
    exact .mk (by simpa [Text.digits] using h)
  · intro h
    cases h with
    | @mk a b c d _ _ h =>
      refine ⟨_, _, ⟨rfl, rfl⟩, (), _, ⟨by simp, rfl⟩, [a, b, c, d], rfl, rfl, ?_⟩
      simpa [Text.digits] using h

theorem simpleEscape_eq {e : UInt8} : simpleEscape e = some c ↔ Escape e c := by
  constructor
  · intro h
    unfold simpleEscape at h
    split at h <;> cases h <;> constructor
  · intro h
    cases h <;> rfl

theorem or_eq_add : (∀ a < 64, 0x80 ||| a = a + 0x80) ∧ (∀ a < 32, 0xc0 ||| a = a % 0x20 + 0xc0) ∧
    (∀ a < 16, 0xe0 ||| a = a % 0x10 + 0xe0) ∧ ∀ a < 8, 0xf0 ||| a = a % 0x08 + 0xf0 := by
  decide

theorem appendUtf8_eq {output : Str} {n : ℕ} (hle : n ≤ 0x10ffff)
    (hscalar : ¬ (0xd800 ≤ n ∧ n ≤ 0xdfff)) :
    appendUtf8 output n = .ok (output ++ String.utf8EncodeChar (Char.ofNat n)) := by
  have hvalid : n.isValidChar := by
    unfold Nat.isValidChar
    omega
  have hval : (Char.ofNat n).val.toNat = n := by
    rw [Char.ofNat, dif_pos hvalid]
    rfl
  obtain ⟨h80, hc0, he0, hf0⟩ := or_eq_add
  have hand : ∀ m, m &&& 0x3f = m % 0x40 := fun m => Nat.and_two_pow_sub_one_eq_mod m 6
  have hlow : ∀ m, 0x80 ||| m % 0x40 = m % 0x40 + 0x80 := fun m => h80 _ (Nat.mod_lt _ (by decide))
  unfold appendUtf8 String.utf8EncodeChar
  simp only [hval, hand, hlow, Nat.shiftRight_eq_div_pow]
  split_ifs with h₁ h₂ h₃
  · rfl
  · rw [hc0 (n / 2 ^ 6) (by omega)]
  · rw [he0 (n / 2 ^ 12) (by omega)]
  · rw [hf0 (n / 2 ^ 18) (by omega)]

/-- A `\u` escape, behind its first two characters. -/
theorem parseCodepoint_ok {n : ℕ} : (parseCodepoint size).run s = .ok n r ↔
    (Hex4 s n r ∧ ¬ (0xd800 ≤ n ∧ n ≤ 0xdfff)) ∨
    ∃ high low s₁, Hex4 s high (92 :: 117 :: s₁) ∧ Hex4 s₁ low r ∧
      (0xd800 ≤ high ∧ high ≤ 0xdbff) ∧ (0xdc00 ≤ low ∧ low ≤ 0xdfff) ∧
      n = 0x10000 + (high - 0xd800) * 0x400 + (low - 0xdc00) := by
  unfold parseCodepoint
  rw [run_bind_ok]
  simp only [parseHex4_ok]
  constructor
  · rintro ⟨m, s₁, hm, h⟩
    by_cases hhigh : 0xd800 ≤ m ∧ m ≤ 0xdbff
    · rw [if_pos hhigh] at h
      simp only [run_bind_ok, run_get_ok, failIf_ok, run_modify_ok, parseHex4_ok, run_pure_ok, not_not]
        at h
      obtain ⟨_, _, ⟨rfl, rfl⟩, _, _, ⟨htake, rfl⟩, _, _, rfl, low, _, hlow, _, _, ⟨hrange, rfl⟩, hn,
        rfl⟩ := h
      obtain ⟨s₂, rfl⟩ : ∃ s₂, s₁ = 92 :: 117 :: s₂ := by
        match s₁, htake with
        | _ :: _ :: s₂, h =>
          simp only [List.take_succ_cons, List.take_zero, List.cons.injEq, and_true] at h
          obtain ⟨rfl, rfl⟩ := h
          exact ⟨s₂, rfl⟩
      exact .inr ⟨m, low, s₂, hm, hlow, hhigh, by omega, by rw [← hn, Nat.shiftLeft_eq]⟩
    · rw [if_neg hhigh] at h
      by_cases hlow : 0xdc00 ≤ m ∧ m ≤ 0xdfff
      · rw [if_pos hlow] at h
        simp [fail_ok] at h
      · rw [if_neg hlow] at h
        obtain ⟨rfl, rfl⟩ := run_pure_ok.1 h
        exact .inl ⟨hm, by omega⟩
  · rintro (⟨hn, hscalar⟩ | ⟨high, low, s₁, hhigh, hlow, hrange, hrange', hn⟩)
    · refine ⟨n, r, hn, ?_⟩
      rw [if_neg (by omega), if_neg (by omega)]
      rfl
    · refine ⟨high, _, hhigh, ?_⟩
      rw [if_pos hrange]
      simp only [run_bind_ok, run_get_ok, failIf_ok, run_modify_ok, parseHex4_ok, run_pure_ok, not_not]
      exact ⟨_, _, ⟨rfl, rfl⟩, (), _, ⟨rfl, rfl⟩, (), _, rfl, low, r, hlow, (), r, ⟨by omega, rfl⟩,
        by rw [hn, Nat.shiftLeft_eq], rfl⟩

/-! ### The loop -/

theorem Hex4.length_eq {n : ℕ} (h : Hex4 s n r) : s.length = r.length + 4 := by
  cases h with
  | mk _ => rfl

theorem Hex4.lt {n : ℕ} (h : Hex4 s n r) : n < 0x10000 := by
  cases h with
  | @mk a b c d _ _ h =>
    have hdigit : ∀ {c m k : ℕ} {x : UInt8}, Text.readDigit 16 m x = some k → m < c → k < 16 * c := by
      intro c m k x h hm
      obtain ⟨d, hd, hk⟩ := Option.bind_eq_some_iff.1 h
      have hlt : d < 16 := by simpa using (Option.filter_eq_some_iff.1 hd).2
      cases hk
      omega
    simp only [Text.digits, reduceCtorEq, if_false, List.foldlM_cons, List.foldlM_nil,
      Option.bind_eq_bind, Option.bind_eq_some_iff, Option.pure_def, Option.some.injEq] at h
    obtain ⟨n₁, h₁, n₂, h₂, n₃, h₃, n₄, h₄, rfl⟩ := h
    exact hdigit h₄ (hdigit h₃ (hdigit h₂ (hdigit h₁ Nat.zero_lt_one)))

theorem Chars.length_lt {bytes : Str} (h : Chars s bytes r) : r.length < s.length := by
  induction h with
  | close => simp
  | unescaped _ _ _ _ ih => exact Nat.lt_succ_of_lt ih
  | escape _ _ ih => exact Nat.lt_succ_of_lt (Nat.lt_succ_of_lt ih)
  | unicode hn _ _ ih =>
    have := hn.length_eq
    simp only [List.length_cons]
    omega
  | surrogates hhigh hlow _ _ _ ih =>
    have := hhigh.length_eq
    have := hlow.length_eq
    simp only [List.length_cons] at *
    omega

theorem parseCodepoint_range {n : ℕ} (h : (parseCodepoint size).run s = .ok n r) :
    n ≤ 0x10ffff ∧ ¬ (0xd800 ≤ n ∧ n ≤ 0xdfff) ∧ r.length < s.length := by
  rcases parseCodepoint_ok.1 h with ⟨hn, hscalar⟩ | ⟨high, low, s₁, hhigh, hlow, hrange, hrange', hn⟩
  · have := hn.lt
    have := hn.length_eq
    exact ⟨by omega, hscalar, by omega⟩
  · have := hhigh.length_eq
    have := hlow.length_eq
    simp only [List.length_cons] at *
    exact ⟨by omega, by omega, by omega⟩

/-- What a `\u` escape adds to a string. -/
theorem parseCodepoint_chars {n : ℕ} {bytes : Str} {s₁ : Bytes}
    (h : (parseCodepoint size).run s = .ok n s₁) (hchars : Chars s₁ bytes r) :
    Chars (92 :: 117 :: s) (String.utf8EncodeChar (Char.ofNat n) ++ bytes) r := by
  rcases parseCodepoint_ok.1 h with ⟨hn, hscalar⟩ | ⟨high, low, s₂, hhigh, hlow, hrange, hrange', hn⟩
  · exact .unicode hn hscalar hchars
  · rw [hn]
    exact .surrogates hhigh hlow hrange hrange' hchars

/-- The loop at a backslash. -/
theorem stringLoop_escape {fuel : ℕ} {output value : Str} {e : UInt8} :
    (stringLoop size (fuel + 1) output).run (92 :: e :: s) = .ok value r ↔
    (e = 117 ∧ ∃ n s₁ output', (parseCodepoint size).run s = .ok n s₁ ∧
      appendUtf8 output n = .ok output' ∧ (stringLoop size fuel output').run s₁ = .ok value r) ∨
    (e ≠ 117 ∧ ∃ character, simpleEscape e = some character ∧
      (stringLoop size fuel (output ++ [character])).run s = .ok value r) := by
  rw [stringLoop, run_bind_ok]
  simp only [advance_ok, List.cons.injEq]
  constructor
  · rintro ⟨_, _, ⟨rfl, rfl⟩, h⟩
    rw [if_neg (by decide)] at h
    simp only [run_bind_ok, failIf_ok] at h
    obtain ⟨_, _, ⟨-, rfl⟩, h⟩ := h
    rw [if_neg (by decide), run_bind_ok] at h
    simp only [advance_ok, List.cons.injEq] at h
    obtain ⟨_, _, ⟨rfl, rfl⟩, h⟩ := h
    by_cases he : e = 117
    · rw [if_pos he] at h
      simp only [run_bind_ok, lift_run_ok] at h
      obtain ⟨n, s₁, hn, output', _, ⟨hutf8, rfl⟩, h⟩ := h
      exact .inl ⟨he, n, s₁, output', hn, hutf8, h⟩
    · rw [if_neg he] at h
      cases hsimple : simpleEscape e with
      | none =>
        rw [hsimple] at h
        simp [fail_ok] at h
      | some character =>
        rw [hsimple] at h
        exact .inr ⟨he, character, rfl, h⟩
  · intro h
    refine ⟨92, _, ⟨rfl, rfl⟩, ?_⟩
    rw [if_neg (by decide)]
    simp only [run_bind_ok, failIf_ok]
    refine ⟨(), _, ⟨by decide, rfl⟩, ?_⟩
    rw [if_neg (by decide), run_bind_ok]
    simp only [advance_ok, List.cons.injEq]
    refine ⟨e, s, ⟨rfl, rfl⟩, ?_⟩
    rcases h with ⟨rfl, n, s₁, output', hn, hutf8, h⟩ | ⟨he, character, hsimple, h⟩
    · rw [if_pos rfl]
      simp only [run_bind_ok, lift_run_ok]
      exact ⟨n, s₁, hn, output', s₁, ⟨hutf8, rfl⟩, h⟩
    · rw [if_neg he, hsimple]
      exact h

/-- The loop at any other character. -/
theorem stringLoop_cons {fuel : ℕ} {output value : Str} (hescape : c ≠ 92) :
    (stringLoop size (fuel + 1) output).run (c :: s) = .ok value r ↔
    (c = 34 ∧ output = value ∧ s = r) ∨
    (c ≠ 34 ∧ 32 ≤ c ∧ (stringLoop size fuel (output ++ [c])).run s = .ok value r) := by
  rw [stringLoop, run_bind_ok]
  simp only [advance_ok, List.cons.injEq]
  constructor
  · rintro ⟨_, _, ⟨rfl, rfl⟩, h⟩
    by_cases hquote : c = 34
    · rw [if_pos hquote, run_pure_ok] at h
      exact .inl ⟨hquote, h⟩
    · rw [if_neg hquote] at h
      simp only [run_bind_ok, failIf_ok] at h
      obtain ⟨_, _, ⟨hcontrol, rfl⟩, h⟩ := h
      rw [if_pos hescape] at h
      exact .inr ⟨hquote, UInt8.not_lt.1 hcontrol, h⟩
  · intro h
    refine ⟨c, s, ⟨rfl, rfl⟩, ?_⟩
    rcases h with ⟨rfl, h⟩ | ⟨hquote, hcontrol, h⟩
    · rw [if_pos rfl, run_pure_ok]
      exact h
    · rw [if_neg hquote]
      simp only [run_bind_ok, failIf_ok]
      refine ⟨(), s, ⟨UInt8.not_lt.2 hcontrol, rfl⟩, ?_⟩
      rw [if_pos hescape]
      exact h

/-- **The loop over a string** reads its characters. -/
theorem stringLoop_ok {fuel : ℕ} {output value : Str} (hfuel : s.length < fuel) :
    (stringLoop size fuel output).run s = .ok value r ↔
      ∃ bytes, Chars s bytes r ∧ value = output ++ bytes := by
  induction fuel generalizing s output value with
  | zero => exact absurd hfuel (Nat.not_lt_zero _)
  | succ fuel ih =>
    have hunicode : ∀ {n s₀ s₁ bytes}, s = 92 :: 117 :: s₀ →
        (parseCodepoint size).run s₀ = .ok n s₁ → Chars s₁ bytes r →
        (stringLoop size (fuel + 1) output).run s =
          .ok (output ++ (String.utf8EncodeChar (Char.ofNat n) ++ bytes)) r := by
      rintro n s₀ s₁ bytes rfl hn hchars
      obtain ⟨hle, hscalar, hlen⟩ := parseCodepoint_range hn
      simp only [List.length_cons] at hfuel
      refine stringLoop_escape.2 (.inl ⟨rfl, n, s₁, _, hn, appendUtf8_eq hle hscalar, ?_⟩)
      exact (ih (by omega)).2 ⟨bytes, hchars, by rw [List.append_assoc]⟩
    constructor
    · intro h
      cases s with
      | nil =>
        rw [stringLoop, run_bind_ok] at h
        simp only [advance_ok] at h
        obtain ⟨_, _, h, -⟩ := h
        cases h
      | cons c s =>
        rw [List.length_cons] at hfuel
        by_cases hescape : c = 92
        · subst hescape
          cases s with
          | nil =>
            rw [stringLoop, run_bind_ok] at h
            simp only [advance_ok, List.cons.injEq] at h
            obtain ⟨_, _, ⟨rfl, rfl⟩, h⟩ := h
            rw [if_neg (by decide)] at h
            simp only [run_bind_ok, failIf_ok] at h
            obtain ⟨_, _, ⟨-, rfl⟩, h⟩ := h
            rw [if_neg (by decide), run_bind_ok] at h
            simp only [advance_ok] at h
            obtain ⟨_, _, h, -⟩ := h
            cases h
          | cons e s =>
            rw [List.length_cons] at hfuel
            rcases stringLoop_escape.1 h with ⟨rfl, n, s₁, output', hn, hutf8, h⟩ |
              ⟨-, character, hsimple, h⟩
            · obtain ⟨hle, hscalar, hlen⟩ := parseCodepoint_range hn
              obtain rfl := Except.ok.inj ((appendUtf8_eq hle hscalar).symm.trans hutf8)
              obtain ⟨bytes, hchars, rfl⟩ := (ih (by omega)).1 h
              exact ⟨_, parseCodepoint_chars hn hchars, by rw [List.append_assoc]⟩
            · obtain ⟨bytes, hchars, rfl⟩ := (ih (by omega)).1 h
              exact ⟨_, .escape (simpleEscape_eq.1 hsimple) hchars, by simp⟩
        · rcases (stringLoop_cons hescape).1 h with ⟨rfl, rfl, rfl⟩ | ⟨hquote, hcontrol, h⟩
          · exact ⟨[], .close, by simp⟩
          · obtain ⟨bytes, hchars, rfl⟩ := (ih (by omega)).1 h
            exact ⟨c :: bytes, .unescaped hcontrol hquote hescape hchars, by simp⟩
    · rintro ⟨bytes, h, rfl⟩
      cases h with
      | close => exact (stringLoop_cons (by decide)).2 (.inl ⟨rfl, by simp, rfl⟩)
      | @unescaped c s _ bytes hc hquote hescape h =>
        rw [List.length_cons] at hfuel
        exact (stringLoop_cons hescape).2 (.inr ⟨hquote, hc, (ih (by omega)).2 ⟨bytes, h, by simp⟩⟩)
      | @escape e c s _ bytes he h =>
        simp only [List.length_cons] at hfuel
        have hne : e ≠ 117 := by cases he <;> decide
        refine stringLoop_escape.2 (.inr ⟨hne, c, simpleEscape_eq.2 he, ?_⟩)
        exact (ih (by omega)).2 ⟨bytes, h, by simp⟩
      | unicode hn hscalar h => exact hunicode rfl (parseCodepoint_ok.2 (.inl ⟨hn, hscalar⟩)) h
      | surrogates hhigh hlow hrange hrange' h =>
        exact hunicode rfl
          (parseCodepoint_ok.2 (.inr ⟨_, _, _, hhigh, hlow, hrange, hrange', rfl⟩)) h

theorem parseString_ok {value : Str} :
    (parseString size).run s = .ok value r ↔ ∃ s₁, s = 34 :: s₁ ∧ Chars s₁ value r := by
  simp only [parseString, run_bind_ok, expect_ok, run_get_ok]
  constructor
  · rintro ⟨_, s₁, rfl, _, _, ⟨rfl, rfl⟩, h⟩
    obtain ⟨bytes, h, rfl⟩ := (stringLoop_ok (Nat.lt_succ_self _)).1 h
    exact ⟨s₁, rfl, h⟩
  · rintro ⟨s₁, rfl, h⟩
    exact ⟨(), s₁, rfl, _, _, ⟨rfl, rfl⟩, (stringLoop_ok (Nat.lt_succ_self _)).2 ⟨value, h, rfl⟩⟩

/-! ## Values -/

section
variable {D : Type} {v : Json D}

theorem parseLiteral_ok {literal : Str} {value : Json D} :
    (parseLiteral size literal value).run s = .ok v r ↔ v = value ∧ s = literal ++ r := by
  simp only [parseLiteral, run_bind_ok, run_get_ok, failIf_ok, run_modify_ok, run_pure_ok, not_not]
  constructor
  · rintro ⟨_, _, ⟨rfl, rfl⟩, _, _, ⟨htake, rfl⟩, _, _, hdrop, rfl, rfl⟩
    refine ⟨rfl, ?_⟩
    conv_lhs => rw [← List.take_append_drop literal.length s, htake, hdrop]
  · rintro ⟨rfl, rfl⟩
    exact ⟨_, _, ⟨rfl, rfl⟩, (), _, ⟨List.take_left, rfl⟩, (), r, List.drop_left, rfl, rfl⟩

variable [Double D]

/-! ### Soundness -/

theorem Star.trans {p : UInt8 → Bool} {s₁ : Bytes} (h : Star p s s₁) (h' : Star p s₁ r) :
    Star p s r := by
  induction h with
  | nil => exact h'
  | cons hc _ ih => exact .cons hc (ih h')

theorem Values.of_ws {s₁ : Bytes} {values : List (Json D)} (hws : Ws s s₁) (h : Values s₁ values r) :
    Values s values r := by
  cases h with
  | last hws' hv hend => exact .last (hws.trans hws') hv hend
  | cons hws' hv hcomma h => exact .cons (hws.trans hws') hv hcomma h

theorem Members.of_ws {s₁ : Bytes} {members : List (Str × Json D)} (hws : Ws s s₁)
    (h : Members s₁ members r) : Members s members r := by
  cases h with
  | last hws₁ hkey hcolon hws₂ hv hend => exact .last (hws.trans hws₁) hkey hcolon hws₂ hv hend
  | cons hws₁ hkey hcolon hws₂ hv hcomma h =>
    exact .cons (hws.trans hws₁) hkey hcolon hws₂ hv hcomma h

/-- **What the parser accepts is in the grammar**, whatever the fuel. -/
theorem parse_sound (n : ℕ) :
    (∀ s (v : Json D) r, (parseValue size n).run s = .ok v r → ∃ s₁, Ws s s₁ ∧ Value s₁ v r) ∧
    (∀ s values (v : Json D) r, (arrayLoop size n values).run s = .ok v r →
      ∃ values', Values s values' r ∧ v = .array (values ++ values')) ∧
    (∀ s entries (v : Json D) r, (objectLoop size n entries).run s = .ok v r →
      ∃ members : List (Str × Json D), Members s members r ∧
        v = .object (members.foldl (fun es m => insertOrAssign m.1 m.2 es) entries)) := by
  induction n with
  | zero =>
    refine ⟨fun s v r h => ?_, fun s values v r h => ?_, fun s entries v r h => ?_⟩
    · simp [parseValue, fail_ok] at h
    · simp [arrayLoop, fail_ok] at h
    · simp [objectLoop, fail_ok] at h
  | succ n ih =>
    obtain ⟨ihValue, ihArray, ihObject⟩ := ih
    refine ⟨fun s v r h => ?_, fun s values v r h => ?_, fun s entries v r h => ?_⟩
    · rw [parseValue, run_bind_ok] at h
      simp only [skipSpace_ok] at h
      obtain ⟨_, s₁, ⟨hws, -⟩, h⟩ := h
      refine ⟨s₁, hws, ?_⟩
      rw [run_bind_ok] at h
      simp only [run_get_ok] at h
      obtain ⟨_, _, ⟨rfl, rfl⟩, h⟩ := h
      cases s₁ with
      | nil => exact absurd h (by simp [fail_ok])
      | cons c s₁ =>
        dsimp only at h
        by_cases hn : c = 110
        · rw [if_pos hn, parseLiteral_ok] at h
          obtain ⟨rfl, h⟩ := h
          exact h ▸ .null
        rw [if_neg hn] at h
        by_cases ht : c = 116
        · rw [if_pos ht, parseLiteral_ok] at h
          obtain ⟨rfl, h⟩ := h
          exact h ▸ .true
        rw [if_neg ht] at h
        by_cases hf : c = 102
        · rw [if_pos hf, parseLiteral_ok] at h
          obtain ⟨rfl, h⟩ := h
          exact h ▸ .false
        rw [if_neg hf] at h
        by_cases hquote : c = 34
        · rw [if_pos hquote] at h
          simp only [run_bind_ok, parseString_ok, run_pure_ok] at h
          obtain ⟨_, _, ⟨_, heq, hchars⟩, rfl, rfl⟩ := h
          exact heq ▸ .string hchars
        rw [if_neg hquote] at h
        by_cases hbracket : c = 91
        · rw [if_pos hbracket] at h
          simp only [run_bind_ok, expect_ok, skipSpace_ok, consume_ok] at h
          obtain ⟨_, s₂, heq, _, s₃, ⟨hspace, -⟩, _, s₄, ⟨rfl, rfl⟩ | ⟨rfl, rfl, -⟩, h⟩ := h
          · obtain ⟨rfl, rfl⟩ := run_pure_ok.1 h
            exact heq ▸ .emptyArray hspace
          · obtain ⟨values, hvalues, rfl⟩ := ihArray _ _ _ _ h
            exact heq ▸ .array (.of_ws hspace hvalues)
        rw [if_neg hbracket] at h
        by_cases hbrace : c = 123
        · rw [if_pos hbrace] at h
          simp only [run_bind_ok, expect_ok, skipSpace_ok, consume_ok] at h
          obtain ⟨_, s₂, heq, _, s₃, ⟨hspace, -⟩, _, s₄, ⟨rfl, rfl⟩ | ⟨rfl, rfl, -⟩, h⟩ := h
          · obtain ⟨rfl, rfl⟩ := run_pure_ok.1 h
            exact heq ▸ .emptyObject hspace
          · obtain ⟨members, hmembers, rfl⟩ := ihObject _ _ _ _ h
            exact heq ▸ .object (.of_ws hspace hmembers)
        rw [if_neg hbrace] at h
        by_cases hnumber : c = 45 ∨ isDigit c
        · rw [if_pos hnumber] at h
          exact .number (parseNumber_sound h)
        · rw [if_neg hnumber] at h
          exact absurd h (by simp [fail_ok])
    · rw [arrayLoop, run_bind_ok] at h
      obtain ⟨value, s₁, hvalue, h⟩ := h
      obtain ⟨s₀, hws, hv⟩ := ihValue _ _ _ hvalue
      rw [run_bind_ok] at h
      simp only [skipSpace_ok] at h
      obtain ⟨_, s₂, ⟨hws', -⟩, h⟩ := h
      rw [run_bind_ok] at h
      simp only [consume_ok] at h
      obtain ⟨_, s₃, ⟨rfl, rfl⟩ | ⟨rfl, rfl, -⟩, h⟩ := h
      · obtain ⟨rfl, rfl⟩ := run_pure_ok.1 h
        exact ⟨[value], .last hws hv hws', rfl⟩
      · simp only [Bool.false_eq_true, if_false, run_bind_ok, expect_ok, skipSpace_ok] at h
        obtain ⟨_, s₃, rfl, _, s₄, ⟨hws'', -⟩, h⟩ := h
        obtain ⟨values', hvalues, rfl⟩ := ihArray _ _ _ _ h
        exact ⟨value :: values', .cons hws hv hws' (.of_ws hws'' hvalues), by simp⟩
    · simp only [objectLoop, run_bind_ok, skipSpace_ok, run_get_ok, failIf_ok, parseString_ok,
        expect_ok] at h
      obtain ⟨_, s₁, ⟨hws, -⟩, _, _, ⟨rfl, rfl⟩, _, _, ⟨-, rfl⟩, key, s₂, ⟨s₀, rfl, hkey⟩, _, _,
        ⟨hcolon, -⟩, _, s₃, rfl, value, s₅, hvalue, _, s₆, ⟨hend, -⟩, h⟩ := h
      obtain ⟨s₄, hws', hv⟩ := ihValue _ _ _ hvalue
      simp only [consume_ok] at h
      obtain ⟨_, s₇, ⟨rfl, rfl⟩ | ⟨rfl, rfl, -⟩, h⟩ := h
      · obtain ⟨rfl, rfl⟩ := run_pure_ok.1 h
        exact ⟨[(key, value)], .last hws hkey hcolon hws' hv hend, rfl⟩
      · simp only [Bool.false_eq_true, if_false, run_bind_ok, expect_ok] at h
        obtain ⟨_, s₇, rfl, h⟩ := h
        obtain ⟨members, hmembers, rfl⟩ := ihObject _ _ _ _ h
        exact ⟨(key, value) :: members, .cons hws hkey hcolon hws' hv hend hmembers, rfl⟩

/-! ### Completeness -/

theorem Integer.head (h : Integer s r) : ∃ c s₁, s = c :: s₁ ∧ (c = 45 ∨ isDigit c) := by
  cases h with
  | minus _ => exact ⟨45, _, rfl, .inl rfl⟩
  | plus h =>
    cases h with
    | zero => exact ⟨48, _, rfl, .inr rfl⟩
    | @nonzero c s _ hc _ =>
      refine ⟨c, s, rfl, .inr ?_⟩
      simp only [isDigit, decide_eq_true_eq]
      exact ⟨UInt8.le_trans (by decide) hc.1, hc.2⟩

theorem Integer.length_lt (h : Integer s r) : r.length < s.length := by
  have hint : ∀ {s}, JsonInt s r → r.length < s.length := by
    intro s h
    cases h with
    | zero => simp
    | nonzero _ h => exact Nat.lt_succ_of_le h.suffix.length_le
  cases h with
  | plus h => exact hint h
  | minus h => exact Nat.lt_succ_of_lt (hint h)

theorem Number.length_lt (h : Number s v r) : r.length < s.length := by
  cases h with
  | mk hinteger hfraction hexponent _ =>
    exact lt_of_le_of_lt (hexponent.suffix.trans hfraction.suffix).length_le hinteger.length_lt

mutual

theorem Value.length_lt {s r : Bytes} {v : Json D} : Value s v r → r.length < s.length
  | .null => by simp [str]; omega
  | .true => by simp [str]; omega
  | .false => by simp [str]; omega
  | .string h => Nat.lt_succ_of_lt h.length_lt
  | .number h => h.length_lt
  | .emptyArray h => Nat.lt_succ_of_lt h.suffix.length_le
  | .array h => Nat.lt_succ_of_lt h.length_lt
  | .emptyObject h => Nat.lt_succ_of_lt h.suffix.length_le
  | .object h => Nat.lt_succ_of_lt h.length_lt

theorem Values.length_lt {s r : Bytes} {values : List (Json D)} :
    Values s values r → r.length < s.length
  | .last hws hv hend => by
    have := hws.suffix.length_le
    have := hv.length_lt
    have := hend.suffix.length_le
    simp only [List.length_cons] at *
    omega
  | .cons hws hv hcomma h => by
    have := hws.suffix.length_le
    have := hv.length_lt
    have := hcomma.suffix.length_le
    have := h.length_lt
    simp only [List.length_cons] at *
    omega

theorem Members.length_lt {s r : Bytes} {members : List (Str × Json D)} :
    Members s members r → r.length < s.length
  | .last hws hkey hcolon hws' hv hend => by
    have := hws.suffix.length_le
    have := hkey.length_lt
    have := hcolon.suffix.length_le
    have := hws'.suffix.length_le
    have := hv.length_lt
    have := hend.suffix.length_le
    simp only [List.length_cons] at *
    omega
  | .cons hws hkey hcolon hws' hv hcomma h => by
    have := hws.suffix.length_le
    have := hkey.length_lt
    have := hcolon.suffix.length_le
    have := hws'.suffix.length_le
    have := hv.length_lt
    have := hcomma.suffix.length_le
    have := h.length_lt
    simp only [List.length_cons] at *
    omega

end

theorem Number.head (h : Number s v r) :
    ∃ c s₁, s = c :: s₁ ∧ (c = 45 ∨ isDigit c) ∧ 45 ≤ c ∧ c ≤ 57 := by
  cases h with
  | mk hinteger _ _ _ =>
    obtain ⟨c, s₁, heq, hc⟩ := hinteger.head
    refine ⟨c, s₁, heq, hc, ?_⟩
    rcases hc with rfl | hc
    · decide
    · simp only [isDigit, decide_eq_true_eq] at hc
      exact ⟨UInt8.le_trans (by decide) hc.1, hc.2⟩

/-- A value begins with a character that is not white space and does not end an array. -/
theorem Value.head (h : Value s v r) : ∃ c s₁, s = c :: s₁ ∧ ¬ isSpace c ∧ c ≠ 93 := by
  cases h with
  | null => exact ⟨110, _, rfl, by decide, by decide⟩
  | true => exact ⟨116, _, rfl, by decide, by decide⟩
  | false => exact ⟨102, _, rfl, by decide, by decide⟩
  | string _ => exact ⟨34, _, rfl, by decide, by decide⟩
  | emptyArray _ => exact ⟨91, _, rfl, by decide, by decide⟩
  | array _ => exact ⟨91, _, rfl, by decide, by decide⟩
  | emptyObject _ => exact ⟨123, _, rfl, by decide, by decide⟩
  | object _ => exact ⟨123, _, rfl, by decide, by decide⟩
  | number h =>
    obtain ⟨c, s₁, rfl, -, hle, hge⟩ := h.head
    refine ⟨c, s₁, rfl, ?_, ?_⟩
    · simp only [isSpace, decide_eq_true_eq]
      rintro (rfl | rfl | rfl | rfl) <;> exact absurd hle (by decide)
    · rintro rfl
      exact absurd hge (by decide)

/-- A character behind white space ends a number. -/
theorem Star.numberEnds (h : Ws s (c :: r)) (hc : c = 93 ∨ c = 125 ∨ c = 44) : NumberEnds s := by
  generalize hs : c :: r = s₁ at h
  cases h with
  | nil =>
    subst hs
    rcases hc with rfl | rfl | rfl <;> rfl
  | @cons d s _ hd _ =>
    simp only [isSpace, decide_eq_true_eq] at hd
    rcases hd with rfl | rfl | rfl | rfl <;> rfl

theorem Star.numberEnds_nil (h : Ws s []) : NumberEnds s := by
  generalize hs : ([] : Bytes) = s₁ at h
  cases h with
  | nil =>
    subst hs
    rfl
  | cons hd _ =>
    simp only [isSpace, decide_eq_true_eq] at hd
    rcases hd with rfl | rfl | rfl | rfl <;> rfl

/-- The white space before the values of an array is skipped. -/
theorem Values.skip {values : List (Json D)} (h : Values s values r) : ∃ s₁, Ws s s₁ ∧
    next isSpace s₁ = false ∧ next (· = 93) s₁ = false ∧ Values s₁ values r := by
  cases h with
  | last hws hv hend =>
    obtain ⟨c, s₁, rfl, hspace, hne⟩ := hv.head
    exact ⟨_, hws, by simpa using hspace, by simpa using hne, .last .nil hv hend⟩
  | cons hws hv hcomma h =>
    obtain ⟨c, s₁, rfl, hspace, hne⟩ := hv.head
    exact ⟨_, hws, by simpa using hspace, by simpa using hne, .cons .nil hv hcomma h⟩

/-- The white space before the members of an object is skipped. -/
theorem Members.skip {members : List (Str × Json D)} (h : Members s members r) : ∃ s₁,
    Ws s (34 :: s₁) ∧ Members (34 :: s₁) members r := by
  cases h with
  | last hws hkey hcolon hws' hv hend => exact ⟨_, hws, .last .nil hkey hcolon hws' hv hend⟩
  | cons hws hkey hcolon hws' hv hcomma h =>
    exact ⟨_, hws, .cons .nil hkey hcolon hws' hv hcomma h⟩

/-- **The parser accepts what is in the grammar**, with fuel for twice the input. -/
theorem parse_complete (n : ℕ) :
    (∀ s s₁ (v : Json D) r, Ws s s₁ → Value s₁ v r → NumberEnds r → 2 * s.length + 1 ≤ n →
      (parseValue size n).run s = .ok v r) ∧
    (∀ s values values' r, Values s values' r → 2 * s.length + 2 ≤ n →
      (arrayLoop size n values).run s = .ok (.array (values ++ values') : Json D) r) ∧
    (∀ s entries (members : List (Str × Json D)) r, Members s members r → 2 * s.length + 2 ≤ n →
      (objectLoop size n entries).run s =
        .ok (.object (members.foldl (fun es m => insertOrAssign m.1 m.2 es) entries)) r) := by
  induction n with
  | zero =>
    refine ⟨fun s s₁ v r _ _ _ h => ?_, fun s values values' r _ h => ?_,
      fun s entries members r _ h => ?_⟩
    · omega
    · omega
    · omega
  | succ n ih =>
    obtain ⟨ihValue, ihArray, ihObject⟩ := ih
    refine ⟨fun s s₁ v r hws hv hr hfuel => ?_, fun s values values' r h hfuel => ?_,
      fun s entries members r h hfuel => ?_⟩
    · have hlen := hws.suffix.length_le
      have hspace : next isSpace s₁ = false := by
        obtain ⟨c, s', rfl, hspace, -⟩ := hv.head
        simpa using hspace
      rw [parseValue, run_bind_ok]
      refine ⟨(), s₁, skipSpace_ok.2 ⟨hws, hspace⟩, ?_⟩
      rw [run_bind_ok]
      refine ⟨s₁, s₁, run_get_ok.2 ⟨rfl, rfl⟩, ?_⟩
      cases hv with
      | null => exact parseLiteral_ok.2 ⟨rfl, rfl⟩
      | true => exact parseLiteral_ok.2 ⟨rfl, rfl⟩
      | false => exact parseLiteral_ok.2 ⟨rfl, rfl⟩
      | @string s' _ bytes h =>
        show (do return .string (← parseString size) : Reader (Json D)).run (34 :: s') = _
        simp only [run_bind_ok, parseString_ok, run_pure_ok]
        exact ⟨bytes, r, ⟨s', rfl, h⟩, rfl, rfl⟩
      | @emptyArray s' _ h =>
        show (do
          expect size 91
          skipSpace
          if ← consume 93 then return .array [] else arrayLoop size n [] : Reader (Json D)).run
            (91 :: s') = _
        simp only [run_bind_ok, expect_ok, skipSpace_ok, consume_ok]
        exact ⟨(), s', rfl, (), _, ⟨h, rfl⟩, true, r, .inl ⟨rfl, rfl⟩, rfl⟩
      | @array s' _ values h =>
        obtain ⟨s₂, hws', hspace', hnext, h⟩ := h.skip
        have hlen' := hws'.suffix.length_le
        rw [List.length_cons] at hlen
        show (do
          expect size 91
          skipSpace
          if ← consume 93 then return .array [] else arrayLoop size n [] : Reader (Json D)).run
            (91 :: s') = _
        simp only [run_bind_ok, expect_ok, skipSpace_ok, consume_ok]
        exact ⟨(), s', rfl, (), s₂, ⟨hws', hspace'⟩, false, s₂, .inr ⟨rfl, rfl, hnext⟩,
          ihArray s₂ [] values r h (by omega)⟩
      | @emptyObject s' _ h =>
        show (do
          expect size 123
          skipSpace
          if ← consume 125 then return .object [] else objectLoop size n [] : Reader (Json D)).run
            (123 :: s') = _
        simp only [run_bind_ok, expect_ok, skipSpace_ok, consume_ok]
        exact ⟨(), s', rfl, (), _, ⟨h, rfl⟩, true, r, .inl ⟨rfl, rfl⟩, rfl⟩
      | @object s' _ members h =>
        obtain ⟨s₂, hws', h⟩ := h.skip
        have hlen' := hws'.suffix.length_le
        rw [List.length_cons] at hlen
        show (do
          expect size 123
          skipSpace
          if ← consume 125 then return .object [] else objectLoop size n [] : Reader (Json D)).run
            (123 :: s') = _
        simp only [run_bind_ok, expect_ok, skipSpace_ok, consume_ok]
        exact ⟨(), s', rfl, (), 34 :: s₂, ⟨hws', rfl⟩, false, 34 :: s₂, .inr ⟨rfl, rfl, rfl⟩,
          ihObject (34 :: s₂) [] members r h (by omega)⟩
      | number h =>
        obtain ⟨c, s', rfl, hc, hle, hge⟩ := h.head
        have hne : ∀ d, (d < 45 ∨ 57 < d) → c ≠ d := by
          rintro d hd rfl
          rcases hd with hd | hd
          · exact absurd hle (UInt8.not_le.2 hd)
          · exact absurd hge (UInt8.not_le.2 hd)
        dsimp only
        rw [if_neg (hne 110 (by decide)), if_neg (hne 116 (by decide)), if_neg (hne 102 (by decide)),
          if_neg (hne 34 (by decide)), if_neg (hne 91 (by decide)), if_neg (hne 123 (by decide)),
          if_pos hc]
        exact parseNumber_complete h hr
    · rw [arrayLoop, run_bind_ok]
      cases h with
      | @last _ s₁ s₂ _ v hws hv hend =>
        refine ⟨v, s₂, ihValue s s₁ v s₂ hws hv (hend.numberEnds (.inl rfl)) (by omega), ?_⟩
        simp only [run_bind_ok, skipSpace_ok, consume_ok]
        exact ⟨(), _, ⟨hend, rfl⟩, true, r, .inl ⟨rfl, rfl⟩, rfl⟩
      | @cons _ s₁ s₂ s₃ _ v values' hws hv hcomma h =>
        refine ⟨v, s₂, ihValue s s₁ v s₂ hws hv (hcomma.numberEnds (.inr (.inr rfl))) (by omega), ?_⟩
        obtain ⟨s₄, hws', hspace', -, h⟩ := h.skip
        have hlen₁ := hws.suffix.length_le
        have hlen₂ := hv.length_lt
        have hlen₃ := hcomma.suffix.length_le
        have hlen₄ := hws'.suffix.length_le
        rw [List.length_cons] at hlen₃
        simp only [run_bind_ok, skipSpace_ok, consume_ok]
        refine ⟨(), _, ⟨hcomma, rfl⟩, false, _, .inr ⟨rfl, rfl, rfl⟩, ?_⟩
        simp only [Bool.false_eq_true, if_false, run_bind_ok, expect_ok, skipSpace_ok]
        refine ⟨(), s₃, rfl, (), s₄, ⟨hws', hspace'⟩, ?_⟩
        rw [ihArray s₄ (values ++ [v]) values' r h (by omega), List.append_assoc,
          List.singleton_append]
    · simp only [objectLoop, run_bind_ok, skipSpace_ok, run_get_ok, failIf_ok, parseString_ok,
        expect_ok]
      cases h with
      | @last _ s₁ s₂ s₃ s₄ s₅ _ key v hws hkey hcolon hws' hv hend =>
        have hlen₁ := hws.suffix.length_le
        have hlen₂ := hkey.length_lt
        have hlen₃ := hcolon.suffix.length_le
        simp only [List.length_cons] at hlen₁ hlen₃
        refine ⟨(), 34 :: s₁, ⟨hws, rfl⟩, _, _, ⟨rfl, rfl⟩, (), 34 :: s₁, ⟨by simp, rfl⟩, key, s₂,
          ⟨s₁, rfl, hkey⟩, (), _, ⟨hcolon, rfl⟩, (), s₃, rfl, v, s₅,
          ihValue s₃ s₄ v s₅ hws' hv (hend.numberEnds (.inr (.inl rfl))) (by omega), (), _,
          ⟨hend, rfl⟩, ?_⟩
        simp only [consume_ok]
        exact ⟨true, r, .inl ⟨rfl, rfl⟩, rfl⟩
      | @cons _ s₁ s₂ s₃ s₄ s₅ s₆ _ key v members hws hkey hcolon hws' hv hcomma h =>
        have hlen₁ := hws.suffix.length_le
        have hlen₂ := hkey.length_lt
        have hlen₃ := hcolon.suffix.length_le
        have hlen₄ := hws'.suffix.length_le
        have hlen₅ := hv.length_lt
        have hlen₆ := hcomma.suffix.length_le
        simp only [List.length_cons] at hlen₁ hlen₃ hlen₆
        refine ⟨(), 34 :: s₁, ⟨hws, rfl⟩, _, _, ⟨rfl, rfl⟩, (), 34 :: s₁, ⟨by simp, rfl⟩, key, s₂,
          ⟨s₁, rfl, hkey⟩, (), _, ⟨hcolon, rfl⟩, (), s₃, rfl, v, s₅,
          ihValue s₃ s₄ v s₅ hws' hv (hcomma.numberEnds (.inr (.inr rfl))) (by omega), (), _,
          ⟨hcomma, rfl⟩, ?_⟩
        simp only [consume_ok]
        refine ⟨false, _, .inr ⟨rfl, rfl, rfl⟩, ?_⟩
        simp only [Bool.false_eq_true, if_false, run_bind_ok, expect_ok]
        exact ⟨(), s₆, rfl, ihObject s₆ _ members r h (by omega)⟩

/-- **The parser accepts exactly the grammar**, and returns the value that the grammar assigns. -/
theorem parse_iff {text : Str} : Json.parse text = .ok v ↔ JsonText text v := by
  simp only [Json.parse, Reader.parse_ok, parseDocument, run_bind_ok, skipSpace_ok, run_get_ok,
    failIf_ok, run_pure_ok, not_not]
  constructor
  · rintro ⟨_, _, s₁, ⟨hws, -⟩, v, s₂, hv, _, s₃, ⟨hend, -⟩, _, _, ⟨rfl, rfl⟩, _, _, ⟨rfl, rfl⟩, rfl, rfl⟩
    obtain ⟨s₄, hws', hv⟩ := (parse_sound _).1 _ _ _ hv
    exact .mk (hws.trans hws') hv hend
  · rintro ⟨hws, hv, hend⟩
    rename_i s₁ s₂
    have hspace : next isSpace s₁ = false := by
      obtain ⟨c, s', rfl, hspace, -⟩ := hv.head
      simpa using hspace
    have hlen := hws.suffix.length_le
    exact ⟨[], (), s₁, ⟨hws, hspace⟩, v, s₂,
      (parse_complete _).1 s₁ s₁ v s₂ .nil hv hend.numberEnds_nil (by omega), (), [], ⟨hend, rfl⟩, [],
      [], ⟨rfl, rfl⟩, (), [], ⟨rfl, rfl⟩, rfl, rfl⟩

end

end

end BinaryCoin
