/-
  BinaryCoin — fees.cpp: fees are exact.

  `FeeRate::fee` multiplies in 64 bits behind a guard that divides; what it
  refuses is more than all the money there is, so that it computes the rounded
  fee of every size for which there is one.
-/
import BinaryCoin.Affordable

namespace BinaryCoin

/-- `fee` with the operations of `std::uint64_t`, which wrap. -/
def FeeRate.fee64 (rate : FeeRate) (virtualBytes : UInt64) : Except Exn ℤ := do
  throwIf (rate.bitsPerKvb < 0) (runtimeError "Negative fee rates are invalid")
  if virtualBytes = 0 ∨ rate.bitsPerKvb = 0 then return 0
  let bits := rate.bitsPerKvb.toUInt64
  throwIf (virtualBytes > (0xffffffffffffffff - 999) / bits) (overflowError "Fee calculation overflow")
  let rounded := (bits * virtualBytes + 999) / 1000
  throwIf (rounded > UInt64.ofInt maxMoney) (overflowError "Calculated fee exceeds money range")
  return rounded.toInt64.toInt

/-- The fee that a rate asks for. -/
def FeeRate.exact (rate : FeeRate) (size : ℕ) : ℤ := ⌈(rate.bitsPerKvb.toInt * size / 1000 : ℚ)⌉

variable {rate rate' : FeeRate} {size size' : ℕ}

/-- The rate as it is used in products. -/
theorem FeeRate.bits_eq (h : 0 ≤ rate.bitsPerKvb.toInt) :
    rate.bitsPerKvb.toUInt64.toNat = rate.bitsPerKvb.toInt.toNat := by
  have htoInt : rate.bitsPerKvb.toInt = rate.bitsPerKvb.toBitVec.toInt := rfl
  have htoNat : rate.bitsPerKvb.toUInt64.toNat = rate.bitsPerKvb.toBitVec.toNat := rfl
  rw [BitVec.toInt_eq_toNat_cond] at htoInt
  have hlt := rate.bitsPerKvb.toBitVec.isLt
  omega

theorem FeeRate.exact_eq (h : 0 ≤ rate.bitsPerKvb.toInt) (size : ℕ) :
    rate.exact size = ((rate.bitsPerKvb.toInt.toNat * size + 999) / 1000 : ℕ) := by
  obtain ⟨bits, hbits⟩ := Int.eq_ofNat_of_zero_le h
  have hle : bits * size ≤ 1000 * ((bits * size + 999) / 1000) := by omega
  have hlt : 1000 * ((bits * size + 999) / 1000) < bits * size + 1000 := by omega
  rw [FeeRate.exact, hbits, Int.toNat_natCast]
  generalize (bits * size + 999) / 1000 = fee at hle hlt
  have hle' : (bits * size : ℚ) ≤ 1000 * fee := by exact_mod_cast hle
  have hlt' : (1000 * fee : ℚ) < bits * size + 1000 := by exact_mod_cast hlt
  rw [Int.ceil_eq_iff, Int.cast_natCast, Int.cast_natCast, lt_div_iff₀ (by norm_num),
    div_le_iff₀ (by norm_num)]
  constructor <;> linarith

/-- **The fee is exact where there is one**, and there is one unless it is more than all money. -/
theorem fee_ok (h : 0 ≤ rate.bitsPerKvb.toInt) {fee : ℤ} :
    rate.fee size = .ok fee ↔ fee = rate.exact size ∧ rate.exact size ≤ maxMoney := by
  have hneg : ¬ rate.bitsPerKvb < 0 := by
    intro hlt
    exact absurd (Int64.lt_iff_toInt_lt.1 hlt) (Int.not_lt.2 h)
  have hmax : maxMoney = 2100000000000000 := rfl
  rw [FeeRate.fee, throwIf, if_neg hneg, pure_bind, rate.exact_eq h]
  by_cases hzero : size = 0 ∨ rate.bitsPerKvb = 0
  · have hproduct : rate.bitsPerKvb.toInt.toNat * size = 0 := by
      rcases hzero with rfl | hrate
      · exact Nat.mul_zero _
      · rw [hrate]
        exact Nat.zero_mul _
    rw [if_pos hzero, hproduct, except_pure_ok, eq_comm]
    simp [hmax]
  · obtain ⟨hsize, hrate⟩ := not_or.1 hzero
    have hbits : 0 < rate.bitsPerKvb.toInt.toNat := by
      rcases Nat.eq_zero_or_pos rate.bitsPerKvb.toInt.toNat with hbits | hbits
      · exact absurd (Int64.toInt_inj.1 (show rate.bitsPerKvb.toInt = Int64.toInt 0 by
          rw [Int64.toInt_zero]; omega)) hrate
      · exact hbits
    rw [if_neg hzero]
    simp only [except_bind_ok, throwIf_ok, exists_const, except_pure_ok, gt_iff_lt, not_lt,
      Nat.le_div_iff_mul_le hbits]
    rw [Nat.mul_comm size, ← Nat.cast_mul]
    generalize rate.bitsPerKvb.toInt.toNat * size = product
    omega

/-- **No operation wraps** behind the guard. -/
theorem product_toNat {bits size : UInt64} (hbits : bits ≠ 0)
    (hguard : ¬ size > (0xffffffffffffffff - 999) / bits) :
    (bits * size).toNat = bits.toNat * size.toNat ∧
      (bits * size + 999).toNat = bits.toNat * size.toNat + 999 := by
  have hpos : 0 < bits.toNat := by
    rcases Nat.eq_zero_or_pos bits.toNat with hzero | hpos
    · exact absurd (UInt64.toNat_inj.1 hzero) hbits
    · exact hpos
  have hmax : ((0xffffffffffffffff - 999 : UInt64)).toNat = 2 ^ 64 - 1000 := rfl
  have hle : size.toNat * bits.toNat ≤ 2 ^ 64 - 1000 := by
    rw [gt_iff_lt, UInt64.lt_iff_toNat_lt, UInt64.toNat_div, hmax, not_lt] at hguard
    exact (Nat.le_div_iff_mul_le hpos).1 hguard
  have hproduct : (bits * size).toNat = bits.toNat * size.toNat := by
    rw [UInt64.toNat_mul, Nat.mod_eq_of_lt]
    rw [Nat.mul_comm]
    omega
  refine ⟨hproduct, ?_⟩
  have h999 : (999 : UInt64).toNat = 999 := rfl
  rw [UInt64.toNat_add, hproduct, h999, Nat.mod_eq_of_lt]
  rw [Nat.mul_comm]
  omega

theorem toInt64_toInt {n : UInt64} (h : n.toNat < 2 ^ 63) : n.toInt64.toInt = n.toNat := by
  have htoInt : n.toInt64.toInt = n.toBitVec.toInt := rfl
  rw [htoInt, BitVec.toInt_eq_toNat_cond]
  have htoNat : n.toBitVec.toNat = n.toNat := rfl
  omega

/-- In 64 bits the fee is the same. -/
theorem fee64_eq (rate : FeeRate) (size : UInt64) : rate.fee64 size = rate.fee size.toNat := by
  have hzero : size = 0 ↔ size.toNat = 0 := by
    rw [← UInt64.toNat_inj]
    rfl
  by_cases hneg : rate.bitsPerKvb < 0
  · rw [FeeRate.fee64, FeeRate.fee, throwIf, if_pos hneg]
    rfl
  have hnonneg : 0 ≤ rate.bitsPerKvb.toInt := by
    by_contra h
    exact hneg (Int64.lt_iff_toInt_lt.2 (Int.not_le.1 h))
  rw [FeeRate.fee64, FeeRate.fee, throwIf, if_neg hneg, pure_bind, pure_bind]
  by_cases hnone : size = 0 ∨ rate.bitsPerKvb = 0
  · rw [if_pos hnone, if_pos (hnone.imp_left hzero.1)]
  · rw [if_neg hnone, if_neg fun h => hnone (h.imp_left hzero.2)]
    have hbits := FeeRate.bits_eq hnonneg
    have hmax : (UInt64.ofInt maxMoney).toNat = 2100000000000000 := rfl
    have hguard : size > (0xffffffffffffffff - 999) / rate.bitsPerKvb.toUInt64 ↔
        size.toNat > (2 ^ 64 - 1 - 999) / rate.bitsPerKvb.toInt.toNat := by
      rw [gt_iff_lt, UInt64.lt_iff_toNat_lt, UInt64.toNat_div, hbits]
      rfl
    by_cases hover : size > (0xffffffffffffffff - 999) / rate.bitsPerKvb.toUInt64
    · simp only [throwIf, if_pos hover, if_pos (hguard.1 hover)]
      rfl
    · have hrate : rate.bitsPerKvb.toUInt64 ≠ 0 := by
        intro hrate
        refine hnone (.inr ?_)
        rw [← Int64.toInt64_toUInt64 rate.bitsPerKvb, hrate]
        rfl
      obtain ⟨-, hproduct⟩ := product_toNat hrate hover
      rw [hbits] at hproduct
      have hrounded : ((rate.bitsPerKvb.toUInt64 * size + 999) / 1000).toNat =
          (rate.bitsPerKvb.toInt.toNat * size.toNat + 999) / 1000 := by
        rw [UInt64.toNat_div, hproduct]
        rfl
      have hexceeds : (rate.bitsPerKvb.toUInt64 * size + 999) / 1000 > UInt64.ofInt maxMoney ↔
          ((rate.bitsPerKvb.toInt.toNat : ℤ) * size.toNat + 999) / 1000 > maxMoney := by
        rw [gt_iff_lt, UInt64.lt_iff_toNat_lt, hmax, hrounded]
        show _ ↔ (2100000000000000 : ℤ) < _
        rw [← Nat.cast_mul]
        omega
      simp only [throwIf, if_neg hover, if_neg fun h => hover (hguard.2 h)]
      by_cases hlarge : (rate.bitsPerKvb.toUInt64 * size + 999) / 1000 > UInt64.ofInt maxMoney
      · rw [if_pos hlarge, if_pos (hexceeds.1 hlarge)]
        rfl
      · rw [if_neg hlarge, if_neg fun h => hlarge (hexceeds.2 h)]
        have hle : ((rate.bitsPerKvb.toUInt64 * size + 999) / 1000).toNat ≤ 2100000000000000 := by
          rw [← hmax]
          exact Nat.not_lt.1 fun h => hlarge (UInt64.lt_iff_toNat_lt.2 h)
        refine congrArg Except.ok ?_
        rw [toInt64_toInt (by omega), hrounded]
        push_cast
        rfl

/-! ## The exact fee -/

theorem FeeRate.exact_mono (hnonneg : 0 ≤ rate.bitsPerKvb.toInt)
    (hrate : rate.bitsPerKvb.toInt ≤ rate'.bitsPerKvb.toInt) (hsize : size ≤ size') :
    rate.exact size ≤ rate'.exact size' := by
  rw [rate.exact_eq hnonneg, rate'.exact_eq (hnonneg.trans hrate), Nat.cast_le]
  have hproduct : rate.bitsPerKvb.toInt.toNat * size ≤ rate'.bitsPerKvb.toInt.toNat * size' :=
    Nat.mul_le_mul (Int.toNat_le_toNat hrate) hsize
  exact Nat.div_le_div_right (Nat.add_le_add_right hproduct 999)

theorem FeeRate.exact_add_le (rate : FeeRate) (size size' : ℕ) :
    rate.exact (size + size') ≤ rate.exact size + rate.exact size' := by
  have hsplit : (rate.bitsPerKvb.toInt * (size + size' : ℕ) / 1000 : ℚ) =
      rate.bitsPerKvb.toInt * size / 1000 + rate.bitsPerKvb.toInt * size' / 1000 := by
    push_cast
    ring
  rw [FeeRate.exact, hsplit]
  exact Int.ceil_add_le _ _

/-- A fee of more than all money is refused. -/
theorem fee_error (h : 0 ≤ rate.bitsPerKvb.toInt) (hmax : maxMoney < rate.exact size) :
    ∃ e, rate.fee size = .error e := by
  cases hfee : rate.fee size with
  | error e => exact ⟨e, rfl⟩
  | ok fee => exact absurd ((fee_ok h).1 hfee).2 (Int.not_le.2 hmax)

/-- Where there is a fee, there is one for less at a lower rate, and it is no higher. -/
theorem fee_le {fee' : ℤ} (hnonneg : 0 ≤ rate.bitsPerKvb.toInt)
    (hrate : rate.bitsPerKvb.toInt ≤ rate'.bitsPerKvb.toInt) (hsize : size ≤ size')
    (hfee : rate'.fee size' = .ok fee') : ∃ fee, rate.fee size = .ok fee ∧ fee ≤ fee' := by
  obtain ⟨rfl, hmax⟩ := (fee_ok (hnonneg.trans hrate)).1 hfee
  have hle := FeeRate.exact_mono hnonneg hrate hsize
  exact ⟨_, (fee_ok hnonneg).2 ⟨rfl, hle.trans hmax⟩, hle⟩

theorem fee_add_le {fee : ℤ} (h : 0 ≤ rate.bitsPerKvb.toInt)
    (hfee : rate.fee (size + size') = .ok fee) : ∃ first second,
      rate.fee size = .ok first ∧ rate.fee size' = .ok second ∧ fee ≤ first + second := by
  obtain ⟨first, hfirst, -⟩ := fee_le h le_rfl (Nat.le_add_right size size') hfee
  obtain ⟨second, hsecond, -⟩ := fee_le h le_rfl (Nat.le_add_left size' size) hfee
  refine ⟨first, second, hfirst, hsecond, ?_⟩
  rw [((fee_ok h).1 hfee).1, ((fee_ok h).1 hfirst).1, ((fee_ok h).1 hsecond).1]
  exact rate.exact_add_le size size'

/-- **Fees are exact.**  In 64 bits, without wrapping, the fee is the rounded one and is refused only
    beyond all money; it grows with size and rate, it is subadditive, and what a payment reserves
    covers what it turns out to be. -/
theorem fees_exact [Crypto] [KeyCrypto] (rate : FeeRate) (h : 0 ≤ rate.bitsPerKvb.toInt) :
    (∀ size : UInt64,
      (rate.exact size.toNat ≤ maxMoney → rate.fee64 size = .ok (rate.exact size.toNat)) ∧
      (maxMoney < rate.exact size.toNat → ∃ e, rate.fee64 size = .error e)) ∧
    (∀ size : UInt64, rate.bitsPerKvb ≠ 0 →
      size ≤ (0xffffffffffffffff - 999) / rate.bitsPerKvb.toUInt64 →
      (rate.bitsPerKvb.toUInt64 * size).toNat = rate.bitsPerKvb.toInt.toNat * size.toNat ∧
      (rate.bitsPerKvb.toUInt64 * size + 999).toNat =
        rate.bitsPerKvb.toInt.toNat * size.toNat + 999) ∧
    (∀ (rate' : FeeRate) (size size' : UInt64) (fee' : ℤ),
      rate.bitsPerKvb.toInt ≤ rate'.bitsPerKvb.toInt → size ≤ size' →
      rate'.fee64 size' = .ok fee' → ∃ fee, rate.fee64 size = .ok fee ∧ fee ≤ fee') ∧
    (∀ (size size' : UInt64) (fee : ℤ), size.toNat + size'.toNat < 2 ^ 64 →
      rate.fee64 (size + size') = .ok fee → ∃ first second,
        rate.fee64 size = .ok first ∧ rate.fee64 size' = .ok second ∧ fee ≤ first + second) ∧
    ∀ (sign : Secp256k1Secret → Hash256 → Except Exn Bytes) (chosen : List Available)
      (amount fee : ℤ) (destinationScript changeScript : Bytes), HdWalletBackend.Signs sign →
      (∀ item ∈ chosen, HdWalletBackend.Fits item) → Bounded chosen →
      estimatedFee rate amount destinationScript changeScript chosen = .ok fee →
      amount + fee ≤ sumValues chosen → ∃ t size minimum,
        chosen.zipIdx.foldlM (signInput sign) (unsignedPayment chosen (finalOutputs amount
          destinationScript changeScript (sumValues chosen - amount - fee))) = .ok t ∧
        t.virtualSize = .ok size ∧ rate.fee size = .ok minimum ∧ minimum ≤ fee := by
  refine ⟨fun size => ?_, fun size hrate hguard => ?_, fun rate' size size' fee' hrate hsize hfee => ?_,
    fun size size' fee hlt hfee => ?_, fun sign chosen amount fee destinationScript changeScript
    hsign hfits hbounded hfee hle => HdWalletBackend.payment_exists hsign hfits hbounded hfee hle⟩
  · rw [fee64_eq]
    exact ⟨fun hmax => (fee_ok h).2 ⟨rfl, hmax⟩, fee_error h⟩
  · rw [← FeeRate.bits_eq h]
    refine product_toNat (fun hzero => hrate ?_) (UInt64.not_lt.2 hguard)
    rw [← Int64.toInt64_toUInt64 rate.bitsPerKvb, hzero]
    rfl
  · rw [fee64_eq] at hfee ⊢
    exact fee_le h hrate (UInt64.le_iff_toNat_le.1 hsize) hfee
  · rw [fee64_eq, UInt64.toNat_add, Nat.mod_eq_of_lt hlt] at hfee
    rw [fee64_eq, fee64_eq]
    exact fee_add_le h hfee

section
attribute [local instance] paymentCrypto genesisKeyCrypto

theorem coinOf_fits (index : UInt32) (value : ℤ) : HdWalletBackend.Fits (coinOf index value) := rfl

/-- All money is the fee of one size, the next one has none, and a payment is covered. -/
theorem fees_exact_dust : (FeeRate.mk 1000000).fee64 2100000000000 = .ok 2100000000000000 ∧
    (∃ e, (FeeRate.mk 1000000).fee64 2100000000001 = .error e) ∧
    ∃ t size minimum, [coinOf 1 300000].zipIdx.foldlM (signInput everySign)
        (unsignedPayment [coinOf 1 300000] (finalOutputs 1000 sampleScript sampleScript
          (sumValues [coinOf 1 300000] - 1000 - 214000))) = .ok t ∧
      t.virtualSize = .ok size ∧ (FeeRate.mk 1000000).fee size = .ok minimum ∧ minimum ≤ 214000 := by
  have hnonneg : 0 ≤ (FeeRate.mk 1000000).bitsPerKvb.toInt := by decide
  obtain ⟨hexact, -, -, -, hcovers⟩ := fees_exact ⟨1000000⟩ hnonneg
  have hmax : maxMoney = 2100000000000000 := rfl
  have hall : (FeeRate.mk 1000000).exact (2100000000000 : UInt64).toNat = 2100000000000000 := by
    rw [FeeRate.exact_eq hnonneg]
    rfl
  have hmore : (FeeRate.mk 1000000).exact (2100000000001 : UInt64).toNat = 2100000000001000 := by
    rw [FeeRate.exact_eq hnonneg]
    rfl
  refine ⟨hall ▸ (hexact 2100000000000).1 (by rw [hall, hmax]),
    (hexact 2100000000001).2 (by rw [hmore, hmax]; norm_num), ?_⟩
  have hsum : sumValues [coinOf 1 300000] = 300000 := rfl
  refine hcovers everySign [coinOf 1 300000] 1000 214000 sampleScript sampleScript everySign_signs
    ?_ ?_ dust_facts.2.1 (by rw [hsum]; norm_num)
  · intro item hitem
    obtain rfl := List.mem_singleton.1 hitem
    exact coinOf_fits 1 300000
  · intro k
    rcases k with _ | k
    · exact (by decide : (0 : ℤ) ≤ 2100000000000000)
    · rw [List.take_of_length_le (by rw [List.length_singleton]; omega), hsum, hmax]
      norm_num

end

end BinaryCoin
