/-
  BinaryCoin — transaction.cpp: numbers in scripts, and why the coinbases of
  two heights are not the same.
-/
import BinaryCoin.Lib.SignMagnitude
import BinaryCoin.Transaction

namespace BinaryCoin

open LittleEndian SignMagnitude

/-! ## The magnitude -/

/-- `absolute` as it is computed, without overflow at the minimum integer. -/
def absoluteValue (value : Int64) : UInt64 :=
  if value < 0 then (-(value + 1)).toUInt64 + 1 else value.toUInt64

theorem absoluteValue_toNat (value : Int64) : (absoluteValue value).toNat = value.toInt.natAbs := by
  have htoInt : value.toInt = value.toBitVec.toInt := rfl
  rw [BitVec.toInt_eq_toNat_cond] at htoInt
  have hlt := value.toBitVec.isLt
  have hzero : value < 0 ↔ value.toInt < 0 := Int64.lt_iff_toInt_lt
  have hneg : ((-(value + 1)).toUInt64 + 1).toNat =
      ((2 ^ 64 - (value.toBitVec.toNat + 1) % 2 ^ 64) % 2 ^ 64 + 1) % 2 ^ 64 := by
    have hbits : ((-(value + 1)).toUInt64 + 1).toBitVec = -(value.toBitVec + 1#64) + 1#64 := rfl
    rw [← UInt64.toNat_toBitVec, hbits, BitVec.toNat_add, BitVec.toNat_neg, BitVec.toNat_add]
    rfl
  have hpos : value.toUInt64.toNat = value.toBitVec.toNat := rfl
  unfold absoluteValue
  split_ifs with h
  · rw [hneg]
    have hz := hzero.1 h
    omega
  · have hz : ¬ value.toInt < 0 := fun hz => h (hzero.2 hz)
    rw [hpos]
    omega

theorem magnitudeBytes_zero (k : ℕ) : magnitudeBytes k 0 = [] := by
  cases k <;> rfl

/-- The bytes spell the number, and the last of them is not 0. -/
theorem ofLe_magnitudeBytes {k n : ℕ} (h : n < 256 ^ k) : ofLe (magnitudeBytes k n) = n := by
  induction k generalizing n with
  | zero =>
    obtain rfl : n = 0 := by simpa using h
    rfl
  | succ k ih =>
    rw [magnitudeBytes]
    split_ifs with hn
    · rw [hn]
      rfl
    · have hdiv : n / 256 < 256 ^ k := by
        rw [pow_succ] at h
        exact Nat.div_lt_of_lt_mul (by rwa [Nat.mul_comm])
      rw [ofLe, ih hdiv, UInt8.toNat_ofNat']
      omega

theorem length_magnitudeBytes (k n : ℕ) : (magnitudeBytes k n).length ≤ k := by
  induction k generalizing n with
  | zero => exact le_rfl
  | succ k ih =>
    rw [magnitudeBytes]
    split_ifs with hn
    · exact Nat.zero_le _
    · exact Nat.succ_le_succ (ih _)

theorem pow_magnitudeBytes_le {k n : ℕ} (h : n < 256 ^ k) (hn : n ≠ 0) :
    magnitudeBytes k n ≠ [] ∧ 256 ^ ((magnitudeBytes k n).length - 1) ≤ n := by
  induction k generalizing n with
  | zero =>
    exact absurd (by simpa using h) hn
  | succ k ih =>
    rw [magnitudeBytes, if_neg hn]
    refine ⟨List.cons_ne_nil _ _, ?_⟩
    rw [List.length_cons, Nat.add_sub_cancel]
    by_cases hzero : n / 256 = 0
    · rw [hzero, magnitudeBytes_zero]
      exact Nat.one_le_iff_ne_zero.2 hn
    · have hdiv : n / 256 < 256 ^ k := by
        rw [pow_succ] at h
        exact Nat.div_lt_of_lt_mul (by rwa [Nat.mul_comm])
      obtain ⟨hne, hle⟩ := ih hdiv hzero
      have hlen := List.length_pos_iff.2 hne
      calc 256 ^ (magnitudeBytes k (n / 256)).length
        _ = 256 * 256 ^ ((magnitudeBytes k (n / 256)).length - 1) := by
          rw [← pow_succ', Nat.sub_add_cancel hlen]
        _ ≤ 256 * (n / 256) := Nat.mul_le_mul_left _ hle
        _ ≤ n := Nat.mul_div_le n 256

/-! ## The encoding -/

theorem highBit_iff : ∀ b : UInt8, b &&& 0x80 ≠ 0 ↔ 128 ≤ b.toNat := by decide +kernel

theorem setHighBit : ∀ b : UInt8, b.toNat < 128 → (b ||| 0x80).toNat = b.toNat + 128 := by
  decide +kernel

/-- The three ways in which a number that is not 0 is encoded. -/
theorem encodeScriptNumber_cases {value : Int64} (hvalue : value ≠ 0) : ∃ bytes last,
    value.toInt.natAbs = ofLe bytes + 256 ^ bytes.length * last.toNat ∧
    256 ^ bytes.length ≤ value.toInt.natAbs ∧ bytes.length ≤ 7 ∧
    encodeScriptNumber value =
      if 128 ≤ last.toNat then bytes ++ [last] ++ [if value.toInt < 0 then 0x80 else 0]
      else if value.toInt < 0 then bytes ++ [last ||| 0x80] else bytes ++ [last] := by
  have hne : value.toInt.natAbs ≠ 0 := by
    intro h
    refine hvalue (Int64.toInt_inj.1 ?_)
    exact Int.natAbs_eq_zero.1 h
  have hlt : value.toInt.natAbs < 256 ^ 8 := by
    have hlow := Int64.le_toInt value
    have hhigh := Int64.toInt_lt value
    omega
  obtain ⟨hnil, hle⟩ := pow_magnitudeBytes_le hlt hne
  have hlen := length_magnitudeBytes 8 value.toInt.natAbs
  have hspell := ofLe_magnitudeBytes hlt
  have hneg : value < 0 ↔ value.toInt < 0 := Int64.lt_iff_toInt_lt
  obtain hnil' | ⟨bytes, last, hbytes⟩ := List.eq_nil_or_concat' (magnitudeBytes 8 value.toInt.natAbs)
  · exact absurd hnil' hnil
  rw [hbytes, List.length_append, List.length_singleton] at hle hlen
  rw [hbytes, ofLe_append, ofLe, ofLe, Nat.mul_zero, Nat.add_zero] at hspell
  refine ⟨bytes, last, hspell.symm, hle, by omega, ?_⟩
  have hlast : (bytes ++ [last]).getLastD 0 = last := by simp
  simp only [encodeScriptNumber, if_neg hvalue, hbytes, hlast, highBit_iff, List.dropLast_concat, hneg]

/-- **What is encoded is decoded**, from at most 9 bytes, and no fewer bytes spell it. -/
theorem encodeScriptNumber_spec (value : Int64) :
    decode (encodeScriptNumber value) = value.toInt ∧ (encodeScriptNumber value).length ≤ 9 ∧
      ∀ bytes, decode bytes = value.toInt → (encodeScriptNumber value).length ≤ bytes.length := by
  by_cases hvalue : value = 0
  · subst hvalue
    exact ⟨rfl, by decide, fun bytes _ => Nat.zero_le _⟩
  obtain ⟨bytes, last, hspell, hle, hlen, hencode⟩ := encodeScriptNumber_cases hvalue
  have hmagnitude : ofLe (bytes ++ [last]) = value.toInt.natAbs := by
    rw [hspell, ofLe_append, ofLe, ofLe, Nat.mul_zero, Nat.add_zero]
  have hlong : 128 ≤ last.toNat → ∀ other, decode other = value.toInt →
      bytes.length + 2 ≤ other.length := by
    intro hhigh other hother
    refine length_le_of_decode hother ?_
    calc 128 * 256 ^ bytes.length
      _ ≤ last.toNat * 256 ^ bytes.length := Nat.mul_le_mul_right _ hhigh
      _ ≤ value.toInt.natAbs := by rw [hspell, Nat.mul_comm]; exact Nat.le_add_left _ _
  have hshort : ∀ other, decode other = value.toInt → bytes.length + 1 ≤ other.length := by
    intro other hother
    cases hcount : bytes.length with
    | zero =>
      refine List.length_pos_iff.2 ?_
      rintro rfl
      exact hvalue (Int64.toInt_inj.1 hother.symm)
    | succ k =>
      rw [hcount, pow_succ] at hle
      exact length_le_of_decode hother (by omega)
  rw [hencode]
  split_ifs with hhigh hneg hneg
  · rw [decode_concat, if_neg (by decide), hmagnitude]
    refine ⟨?_, by simp; omega, fun other hother => ?_⟩
    · have hlast : (0x80 : UInt8).toNat - 128 = 0 := rfl
      rw [hlast, Nat.mul_zero, Nat.add_zero]
      omega
    · simpa using hlong hhigh other hother
  · rw [decode_concat, if_pos (by decide), hmagnitude]
    refine ⟨?_, by simp; omega, fun other hother => ?_⟩
    · have hlast : (0 : UInt8).toNat = 0 := rfl
      rw [hlast, Nat.mul_zero, Nat.add_zero]
      omega
    · simpa using hlong hhigh other hother
  · have hlast := setHighBit last (Nat.not_le.1 hhigh)
    rw [decode_concat, if_neg (by omega), hlast, Nat.add_sub_cancel, ← hspell]
    refine ⟨by omega, by simp; omega, fun other hother => ?_⟩
    simpa using hshort other hother
  · rw [decode_concat, if_pos (Nat.not_le.1 hhigh), ← hspell]
    refine ⟨by omega, by simp; omega, fun other hother => ?_⟩
    simpa using hshort other hother

theorem encodeScriptNumber_injective : Function.Injective encodeScriptNumber := by
  intro a b h
  refine Int64.toInt_inj.1 ?_
  rw [← (encodeScriptNumber_spec a).1, ← (encodeScriptNumber_spec b).1, h]

/-! ## Coinbases -/

theorem pushScriptData_ok {data pushed : Bytes} :
    pushScriptData data = .ok pushed ↔ data.length ≤ 75 ∧ pushed = UInt8.ofNat data.length :: data := by
  simp only [pushScriptData, except_bind_ok, throwIf_ok, exists_const, except_pure_ok, not_lt]
  exact and_congr_right fun _ => eq_comm

/-- What the arguments of a coinbase must be. -/
structure CoinbaseOk (reward : ℤ) (script : Bytes) : Prop where
  reward : moneyRange reward
  script_ne : script ≠ []
  script_le : script.length ≤ maxScriptSize

/-- The script of the input of a coinbase. -/
def coinbaseScript (height : UInt64) : Bytes :=
  UInt8.ofNat (encodeScriptNumber height.toInt64).length :: encodeScriptNumber height.toInt64 ++
    UInt8.ofNat coinbaseMarker.length :: coinbaseMarker

variable {height height' : UInt64} {reward reward' : ℤ} {script script' : Bytes}

/-- The coinbase that is made. -/
def coinbaseOf (height : UInt64) (reward : ℤ) (script : Bytes) : Transaction :=
  ⟨1, [⟨⟨zeroHashHex, 0xffffffff⟩, coinbaseScript height, 0xffffffff⟩], [⟨reward, script⟩], 0⟩

theorem makeTestnetCoinbase_eq (h : CoinbaseOk reward script) :
    makeTestnetCoinbase height reward script = .ok (coinbaseOf height reward script) := by
  have hreward : ¬ ¬ moneyRange reward := not_not.2 h.reward
  have hscript : ¬ (script = [] ∨ script.length > maxScriptSize) := by
    rintro (hnil | hlong)
    · exact h.script_ne hnil
    · exact absurd h.script_le (Nat.not_le.2 hlong)
  have hheight := pushScriptData_ok.2
    ⟨Nat.le_trans (encodeScriptNumber_spec height.toInt64).2.1 (by norm_num), rfl⟩
  have hmarker := pushScriptData_ok.2 (show coinbaseMarker.length ≤ 75 ∧ _ from ⟨by decide, rfl⟩)
  rw [makeTestnetCoinbase, throwIf, if_neg hreward, throwIf, if_neg hscript, hheight, hmarker]
  rfl

theorem coinbaseOf_structure (h : CoinbaseOk reward script) :
    (coinbaseOf height reward script).Structure where
  inputs_ne := by simp [coinbaseOf]
  outputs_ne := by simp [coinbaseOf]
  inputs_le := show 1 ≤ maxTransactionItems by decide
  outputs_le := show 1 ≤ maxTransactionItems by decide
  input := by
    intro i hi
    obtain rfl := List.mem_singleton.1 hi
    refine ⟨?_, _, IsDisplayHex.zero.wire.choose_spec.1⟩
    have hlen := (encodeScriptNumber_spec height.toInt64).2.1
    have hmarker : coinbaseMarker.length = 46 := rfl
    simp only [coinbaseScript, List.length_cons, List.length_append, hmarker, maxScriptSize]
    omega
  output := by
    intro o ho
    obtain rfl := List.mem_singleton.1 ho
    exact ⟨h.reward, h.script_le⟩
  total := by
    simpa [coinbaseOf] using (moneyRange_iff.1 h.reward).2

theorem coinbaseScript_inj (h : coinbaseScript height = coinbaseScript height') :
    height = height' := by
  rw [coinbaseScript, coinbaseScript] at h
  have hnumber := encodeScriptNumber_injective (List.append_cancel_right (List.cons.inj h).2)
  rw [← UInt64.toUInt64_toInt64 height, hnumber, UInt64.toUInt64_toInt64]

theorem coinbaseOf_canonical (height : UInt64) (reward : ℤ) (script : Bytes) :
    (coinbaseOf height reward script).Canonical := by
  intro i hi
  obtain rfl := List.mem_singleton.1 hi
  exact .zero

/-- **Numbers in scripts are shortest encodings** that are decoded to the number; hence the coinbases
    of different heights are different bytes, whatever they pay. -/
theorem coinbases_differ :
    (∀ value : Int64, (absoluteValue value).toNat = value.toInt.natAbs ∧
      decode (encodeScriptNumber value) = value.toInt ∧ (encodeScriptNumber value).length ≤ 9 ∧
      ∀ bytes, decode bytes = value.toInt → (encodeScriptNumber value).length ≤ bytes.length) ∧
    Function.Injective encodeScriptNumber ∧
    ∀ (h₁ h₂ : UInt64) (r₁ r₂ : ℤ) (s₁ s₂ : Bytes), h₁ ≠ h₂ → CoinbaseOk r₁ s₁ → CoinbaseOk r₂ s₂ →
      ∃ t₁ t₂ b₁ b₂, makeTestnetCoinbase h₁ r₁ s₁ = .ok t₁ ∧ makeTestnetCoinbase h₂ r₂ s₂ = .ok t₂ ∧
        t₁.serialize = .ok b₁ ∧ t₂.serialize = .ok b₂ ∧ b₁ ≠ b₂ := by
  refine ⟨?_, encodeScriptNumber_injective, ?_⟩
  · intro value
    exact ⟨absoluteValue_toNat value, encodeScriptNumber_spec value⟩
  · intro h₁ h₂ r₁ r₂ s₁ s₂ hne hok₁ hok₂
    have hst₁ : (coinbaseOf h₁ r₁ s₁).Structure := coinbaseOf_structure hok₁
    have hst₂ : (coinbaseOf h₂ r₂ s₂).Structure := coinbaseOf_structure hok₂
    refine ⟨_, _, _, _, makeTestnetCoinbase_eq hok₁, makeTestnetCoinbase_eq hok₂,
      Transaction.serialize_ok.2 ⟨hst₁, rfl⟩, Transaction.serialize_ok.2 ⟨hst₂, rfl⟩, ?_⟩
    intro hbytes
    have hsame := Transaction.encode_inj hst₁ (coinbaseOf_canonical h₁ r₁ s₁) hst₂
      (coinbaseOf_canonical h₂ r₂ s₂) hbytes
    have hinputs := congrArg Transaction.inputs hsame
    simp only [coinbaseOf, List.cons.injEq, TxInput.mk.injEq, true_and, and_true] at hinputs
    exact hne (coinbaseScript_inj hinputs)

theorem coinbases_differ_first : ∃ t₁ t₂ b₁ b₂,
    makeTestnetCoinbase 1 initialSubsidy [0xac] = .ok t₁ ∧
    makeTestnetCoinbase 2 initialSubsidy [0xac] = .ok t₂ ∧
    t₁.serialize = .ok b₁ ∧ t₂.serialize = .ok b₂ ∧ b₁ ≠ b₂ :=
  coinbases_differ.2.2 1 2 _ _ _ _ (by decide) ⟨by decide, by decide, by decide⟩
    ⟨by decide, by decide, by decide⟩

end BinaryCoin
