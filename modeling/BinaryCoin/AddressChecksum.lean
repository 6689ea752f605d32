/-
  BinaryCoin — bech32.cpp: the checksum of an address.

  The checksum is a linear shift register of 30 bits with exclusive or.  Six
  symbols determine its last state, and a difference of five bits is not
  shifted to five bits again within the length of an address.
-/
import BinaryCoin.Bech32
import BinaryCoin.Lib.Regroup
import BinaryCoin.Lib.ShiftRegister

namespace BinaryCoin

open ShiftRegister Regroup

/-! ## The register -/

/-- The bit of the checksum that selects a generator. -/
def topBit (checksum : UInt32) (index : ℕ) : Bool := checksum.toBitVec.getLsbD (25 + index)

def select (b : Bool) (generator : UInt32) : UInt32 := if b then generator else 0

/-- A step of `polymod` without a value. -/
def polymodShift (s : UInt32) : UInt32 :=
  ((s &&& 0x1ffffff) <<< 5) ^^^ select (topBit s 0) 0x3b6a57b2 ^^^ select (topBit s 1) 0x26508e6d ^^^
    select (topBit s 2) 0x1ea119fa ^^^ select (topBit s 3) 0x3d4233dd ^^^
    select (topBit s 4) 0x2a1462b3

theorem select_xor (a b : Bool) (g : UInt32) : select (a ^^ b) g = select a g ^^^ select b g := by
  cases a <;> cases b <;> simp [select]

theorem topBit_xor (s t : UInt32) (i : ℕ) : topBit (s ^^^ t) i = (topBit s i ^^ topBit t i) := by
  simp [topBit]

theorem polymodShift_xor (s t : UInt32) :
    polymodShift (s ^^^ t) = polymodShift s ^^^ polymodShift t := by
  have hlow : ((s ^^^ t) &&& 0x1ffffff) <<< 5 =
      ((s &&& 0x1ffffff) <<< 5) ^^^ ((t &&& 0x1ffffff) <<< 5) := by
    apply UInt32.toBitVec_inj.1
    ext i hi
    simp only [UInt32.toBitVec_shiftLeft, UInt32.toBitVec_and, UInt32.toBitVec_xor]
    by_cases h5 : i < 5
    · simp [h5]
    · simp [h5, Bool.and_xor_distrib_right]
  simp only [polymodShift, topBit_xor, select_xor, hlow]
  ac_rfl

theorem topBit_iff (s : UInt32) {i : ℕ} (h : i < 5) :
    ((s >>> 25).toUInt8 >>> UInt8.ofNat i) &&& 1 ≠ 0 ↔ topBit s i = true := by
  have hs := s.toNat_lt
  have hindex : (UInt8.ofNat i).toNat = i :=
    UInt8.toNat_ofNat_of_lt' (by norm_num [UInt8.size]; omega)
  have hnat : (((s >>> 25).toUInt8 >>> UInt8.ofNat i) &&& 1).toNat =
      s.toNat / 2 ^ (25 + i) % 2 := by
    have hlt : s.toNat / 2 ^ 25 < 2 ^ 8 := by omega
    have hshift : (25 : UInt32).toNat % 32 = 25 := rfl
    rw [UInt8.toNat_and, UInt8.toNat_shiftRight, hindex, UInt32.toNat_toUInt8,
      UInt32.toNat_shiftRight, Nat.mod_eq_of_lt (b := 8) (by omega), Nat.shiftRight_eq_div_pow,
      Nat.shiftRight_eq_div_pow, hshift, Nat.mod_eq_of_lt hlt, Nat.div_div_eq_div_mul, ← pow_add]
    exact Nat.and_one_is_mod _
  have hbit : topBit s i = decide (s.toNat / 2 ^ (25 + i) % 2 = 1) := by
    rw [topBit, ← BitVec.testBit_toNat, Nat.testBit_eq_decide_div_mod_eq]
    rfl
  have hlt : (((s >>> 25).toUInt8 >>> UInt8.ofNat i) &&& 1).toNat < 2 := by
    rw [hnat]
    omega
  have hzero : (0 : UInt8).toNat = 0 := rfl
  rw [hbit, decide_eq_true_iff, ← hnat, Ne, ← UInt8.toNat_inj]
  omega

theorem polymodStep_eq (s : UInt32) (v : UInt8) :
    polymodStep s v = polymodShift s ^^^ v.toUInt32 := by
  have hgenerator : ∀ (c g : UInt32) (i : ℕ), i < 5 →
      (if ((s >>> 25).toUInt8 >>> UInt8.ofNat i) &&& 1 ≠ 0 then c ^^^ g else c) =
        c ^^^ select (topBit s i) g := by
    intro c g i hi
    rw [if_congr (topBit_iff s hi) rfl rfl]
    cases topBit s i <;> simp [select]
  simp only [polymodStep, bech32Generator, List.zipIdx_cons, List.zipIdx_nil, List.foldl_cons,
    List.foldl_nil, zero_add]
  rw [hgenerator _ _ 0 (by decide), hgenerator _ _ 1 (by decide), hgenerator _ _ (1 + 1) (by decide),
    hgenerator _ _ (1 + 1 + 1) (by decide), hgenerator _ _ (1 + 1 + 1 + 1) (by decide), polymodShift]
  ac_rfl

/-- **The checksum is a linear register.** -/
theorem polymod_linear : Linear (· ^^^ ·) 0 polymodShift where
  assoc := UInt32.xor_assoc
  comm := UInt32.xor_comm
  add_zero _ := UInt32.xor_zero
  add_self _ := UInt32.xor_self
  shift_add := polymodShift_xor

/-- The register of the checksum. -/
abbrev register (s : UInt32) (values : Bytes) : UInt32 :=
  run (· ^^^ ·) polymodShift UInt8.toUInt32 s values

theorem polymod_eq (values : Bytes) : polymod values = register 1 values := by
  have hstep : polymodStep = fun s v => polymodShift s ^^^ v.toUInt32 := by
    funext s v
    exact polymodStep_eq s v
  rw [polymod, hstep]
  rfl

/-! ## Its states -/

theorem xor_lt {n : ℕ} {a b : UInt32} (ha : a.toNat < 2 ^ n) (hb : b.toNat < 2 ^ n) :
    (a ^^^ b).toNat < 2 ^ n := by
  rw [UInt32.toNat_xor]
  exact Nat.xor_lt_two_pow ha hb

/-- The low 25 bits, shifted. -/
theorem toNat_lowShift (s : UInt32) : ((s &&& 0x1ffffff) <<< 5).toNat = s.toNat % 2 ^ 25 * 2 ^ 5 := by
  have hlow : (s &&& 0x1ffffff).toNat = s.toNat % 2 ^ 25 := by
    rw [UInt32.toNat_and]
    exact Nat.and_two_pow_sub_one_eq_mod s.toNat 25
  have hshift : (5 : UInt32).toNat % 32 = 5 := rfl
  rw [UInt32.toNat_shiftLeft, hlow, hshift, Nat.shiftLeft_eq, Nat.mod_eq_of_lt]
  omega

theorem select_lt {generator : UInt32} (h : generator.toNat < 2 ^ 30) (b : Bool) :
    (select b generator).toNat < 2 ^ 30 := by
  cases b
  · exact Nat.two_pow_pos 30
  · exact h

theorem polymodShift_lt (s : UInt32) : (polymodShift s).toNat < 2 ^ 30 := by
  have hlow : ((s &&& 0x1ffffff) <<< 5).toNat < 2 ^ 30 := by
    rw [toNat_lowShift]
    omega
  exact xor_lt (xor_lt (xor_lt (xor_lt (xor_lt hlow (select_lt (by decide) _))
    (select_lt (by decide) _)) (select_lt (by decide) _)) (select_lt (by decide) _))
    (select_lt (by decide) _)

/-- A state of 25 bits is shifted without a generator. -/
theorem polymodShift_small {s : UInt32} (h : s.toNat < 2 ^ 25) :
    (polymodShift s).toNat = s.toNat * 2 ^ 5 := by
  have htop : ∀ i, topBit s i = false := by
    intro i
    rw [topBit, ← BitVec.testBit_toNat]
    exact Nat.testBit_lt_two_pow (h.trans_le (Nat.pow_le_pow_right (by decide) (by omega)))
  simp only [polymodShift, htop, select, Bool.false_eq_true, if_false, UInt32.xor_zero]
  rw [toNat_lowShift, Nat.mod_eq_of_lt h]

/-- **No state but zero is shifted to zero.** -/
theorem polymodShift_eq_zero {s : UInt32} (hs : s.toNat < 2 ^ 30) (h : polymodShift s = 0) : s = 0 := by
  -- the low five bits of the result come from the generators alone
  have hgenerators : ∀ a b c d e : Bool, (select a 0x3b6a57b2 ^^^ select b 0x26508e6d ^^^
      select c 0x1ea119fa ^^^ select d 0x3d4233dd ^^^ select e 0x2a1462b3) &&& 31 = 0 →
      a = false ∧ b = false ∧ c = false ∧ d = false ∧ e = false := by decide +kernel
  have hlow : ((s &&& 0x1ffffff) <<< 5) &&& 31 = 0 := by
    apply UInt32.toNat_inj.1
    have hmod : (((s &&& 0x1ffffff) <<< 5) &&& 31).toNat = s.toNat % 2 ^ 25 * 2 ^ 5 % 2 ^ 5 := by
      rw [UInt32.toNat_and, toNat_lowShift]
      exact Nat.and_two_pow_sub_one_eq_mod _ 5
    rw [hmod, Nat.mul_mod_left]
    rfl
  have hshift : polymodShift s = ((s &&& 0x1ffffff) <<< 5) ^^^ (select (topBit s 0) 0x3b6a57b2 ^^^
      select (topBit s 1) 0x26508e6d ^^^ select (topBit s 2) 0x1ea119fa ^^^
      select (topBit s 3) 0x3d4233dd ^^^ select (topBit s 4) 0x2a1462b3) := by
    rw [polymodShift]
    ac_rfl
  have hsame := polymod_linear.eq_of_add_eq_zero (hshift.symm.trans h)
  obtain ⟨h₀, h₁, h₂, h₃, h₄⟩ := hgenerators _ _ _ _ _ (by rw [← hsame]; exact hlow)
  have hsmall : s.toNat < 2 ^ 25 := by
    refine Nat.lt_pow_two_of_testBit _ fun i hi => ?_
    rcases Nat.lt_or_ge i 30 with hlt | hge
    · interval_cases i
      · exact h₀
      · exact h₁
      · exact h₂
      · exact h₃
      · exact h₄
    · exact Nat.testBit_lt_two_pow (hs.trans_le (Nat.pow_le_pow_right (by decide) hge))
  have hnat := polymodShift_small hsmall
  rw [h] at hnat
  have hzero : (0 : UInt32).toNat = 0 := rfl
  apply UInt32.toNat_inj.1
  omega

/-! ## Errors -/

/-- None of the first shifts of the state has five bits. -/
def leavesLow : ℕ → UInt32 → Bool
  | 0, _ => true
  | n + 1, s => !(polymodShift s < 32) && leavesLow n (polymodShift s)

theorem leavesLow_iterate {n k : ℕ} {s : UInt32} (h : leavesLow n s) (hk : k < n) :
    ¬ polymodShift^[k + 1] s < 32 := by
  induction n generalizing s k with
  | zero => exact absurd hk (Nat.not_lt_zero k)
  | succ n ih =>
    rw [leavesLow, Bool.and_eq_true, Bool.not_eq_true', decide_eq_false_iff_not] at h
    cases k with
    | zero => exact h.1
    | succ k =>
      rw [Function.iterate_succ_apply]
      exact ih h.2 (Nat.lt_of_succ_lt_succ hk)

/-- **The differences of one symbol** within the longest address. -/
theorem leavesLow_symbols : ∀ v : UInt8, v ≠ 0 → v < 32 → leavesLow 84 v.toUInt32 := by
  decide +kernel

section
variable {s : UInt32} {v v' w w' : UInt8} {l m r : Bytes}

theorem toUInt32_xor (v w : UInt8) : v.toUInt32 ^^^ w.toUInt32 = (v ^^^ w).toUInt32 := by
  simp

theorem xor_symbol (hv : v < 32) (hw : w < 32) : v ^^^ w < 32 := by
  rw [UInt8.lt_iff_toNat_lt] at hv hw ⊢
  rw [UInt8.toNat_xor]
  exact Nat.xor_lt_two_pow (n := 5) hv hw

theorem xor_ne_zero (h : v ≠ w) : v ^^^ w ≠ 0 := by
  intro hzero
  exact h (UInt8.xor_eq_zero_iff.1 hzero)

/-- A difference that is not zero stays different from zero. -/
theorem iterate_symbol_ne_zero {d : UInt32} (hd : d.toNat < 2 ^ 30) (hne : d ≠ 0) (n : ℕ) :
    polymodShift^[n] d ≠ 0 :=
  iterate_ne_zero (fun _ ha h => polymodShift_eq_zero ha h) polymodShift_lt hd hne n

/-- **One error** is detected. -/
theorem register_single (hv : v < 32) (hv' : v' < 32) (hne : v ≠ v') :
    register s (l ++ v' :: r) ≠ register s (l ++ v :: r) := by
  intro heq
  have hzero := polymod_linear.single_error heq
  rw [toUInt32_xor] at hzero
  refine iterate_symbol_ne_zero ?_ ?_ r.length hzero
  · have hlt := UInt8.lt_iff_toNat_lt.1 (xor_symbol hv hv')
    rw [UInt8.toNat_toUInt32]
    exact hlt.trans (by decide)
  · intro h
    exact xor_ne_zero hne (UInt8.toUInt32_inj.1 h)

/-- **Two errors** are detected. -/
theorem register_double (hv : v < 32) (hv' : v' < 32) (hw : w < 32) (hw' : w' < 32) (hne : v ≠ v')
    (hlength : m.length < 84) :
    register s (l ++ v' :: (m ++ w' :: r)) ≠ register s (l ++ v :: (m ++ w :: r)) := by
  intro heq
  have hzero := polymod_linear.double_error heq
  rw [toUInt32_xor, toUInt32_xor] at hzero
  have hfar := leavesLow_iterate (leavesLow_symbols _ (xor_ne_zero hne) (xor_symbol hv hv')) hlength
  have hnear : (w ^^^ w').toUInt32 < 32 := by
    rw [UInt32.lt_iff_toNat_lt, UInt8.toNat_toUInt32]
    exact UInt8.lt_iff_toNat_lt.1 (xor_symbol hw hw')
  -- the first difference, shifted, would be the second
  refine iterate_symbol_ne_zero ?_ ?_ r.length hzero
  · refine xor_lt ?_ ?_
    · rw [Function.iterate_succ_apply']
      exact polymodShift_lt _
    · exact (UInt32.lt_iff_toNat_lt.1 hnear).trans (by decide)
  · intro h
    rw [polymod_linear.eq_of_add_eq_zero h] at hfar
    exact hfar hnear

end

/-! ## The six symbols -/

/-- Symbols in an empty register. -/
theorem toNat_register_zero {values : Bytes} (hlength : values.length ≤ 6)
    (h : ∀ v ∈ values, v < 32) :
    (register 0 values).toNat = value 5 (values.map UInt8.toNat) ∧
      value 5 (values.map UInt8.toNat) < 2 ^ (5 * values.length) := by
  induction values using List.reverseRecOn with
  | nil => exact ⟨rfl, by simp⟩
  | append_singleton values v ih =>
    rw [List.length_append, List.length_singleton] at hlength
    obtain ⟨hregister, hlt⟩ := ih (by omega) fun w hw => h w (List.mem_append_left _ hw)
    have hv : v.toNat < 2 ^ 5 := UInt8.lt_iff_toNat_lt.1 (h v (by simp))
    have hsmall : (register 0 values).toNat < 2 ^ 25 := by
      rw [hregister]
      exact hlt.trans_le (Nat.pow_le_pow_right (by decide) (by omega))
    have hlast : register 0 (values ++ [v]) = polymodShift (register 0 values) ^^^ v.toUInt32 := by
      rw [register, run_append]
      rfl
    have hxor : ∀ x, x * 2 ^ 5 ^^^ v.toNat = x * 2 ^ 5 + v.toNat := by
      intro x
      rw [Nat.mul_comm]
      apply Nat.eq_of_testBit_eq
      intro j
      rw [Nat.testBit_xor, Nat.testBit_two_pow_mul_add _ hv, Nat.testBit_two_pow_mul]
      by_cases hj : j < 5
      · simp [hj, Nat.not_le.2 hj]
      · have hhigh : v.toNat.testBit j = false := Nat.testBit_lt_two_pow
          (hv.trans_le (Nat.pow_le_pow_right (by decide) (Nat.not_lt.1 hj)))
        simp [hj, hhigh, Nat.not_lt.1 hj]
    rw [hlast, UInt32.toNat_xor, polymodShift_small hsmall, hregister, UInt8.toNat_toUInt32, hxor,
      List.map_append, List.map_singleton, value_concat, List.length_append, List.length_singleton]
    refine ⟨rfl, ?_⟩
    rw [Nat.mul_add, pow_add]
    omega

theorem length_bech32Checksum (hrp : Str) (data : Bytes) : (bech32Checksum hrp data).length = 6 := by
  simp [bech32Checksum]

/-- The symbols are the digits of what is missing. -/
theorem bech32Checksum_groups (hrp : Str) (data : Bytes) :
    (bech32Checksum hrp data).map UInt8.toNat =
      groups 5 (polymod (hrpExpand hrp ++ data ++ List.replicate 6 0) ^^^ 1).toNat 6 0 := by
  rw [bech32Checksum, groups, List.map_map]
  refine List.map_congr_left fun k hk => ?_
  have hk := List.mem_range.1 hk
  generalize polymod (hrpExpand hrp ++ data ++ List.replicate 6 0) ^^^ 1 = x
  have hshift : (UInt32.ofNat (5 * (5 - k))).toNat % 32 = 5 * (5 - k) := by
    rw [UInt32.toNat_ofNat_of_lt' (by norm_num [UInt32.size]; omega)]
    omega
  have hbits : 6 * 5 + 0 - (k + 1) * 5 = 5 * (5 - k) := by omega
  have hmask : ((x >>> UInt32.ofNat (5 * (5 - k))) &&& 31).toNat =
      x.toNat / 2 ^ (5 * (5 - k)) % 2 ^ 5 := by
    rw [UInt32.toNat_and, UInt32.toNat_shiftRight, hshift, Nat.shiftRight_eq_div_pow]
    exact Nat.and_two_pow_sub_one_eq_mod _ 5
  rw [Function.comp_apply, UInt32.toNat_toUInt8, hmask, hbits]
  omega

theorem bech32Checksum_lt {hrp : Str} {data : Bytes} : ∀ v ∈ bech32Checksum hrp data, v < 32 := by
  intro v hv
  have hmem : v.toNat ∈ (bech32Checksum hrp data).map UInt8.toNat := List.mem_map_of_mem hv
  rw [bech32Checksum_groups] at hmem
  exact UInt8.lt_iff_toNat_lt.2 (groups_lt _ hmem)

/-- **The checksum** is the one that makes the register end in 1. -/
theorem polymod_eq_one_iff {hrp : Str} {data check : Bytes} (hlength : check.length = 6)
    (hcheck : ∀ v ∈ check, v < 32) :
    polymod (hrpExpand hrp ++ data ++ check) = 1 ↔ check = bech32Checksum hrp data := by
  have hsplit : ∀ check : Bytes, check.length = 6 → polymod (hrpExpand hrp ++ data ++ check) =
      register 0 check ^^^ polymodShift^[6] (register 1 (hrpExpand hrp ++ data)) := by
    intro check hlength
    have hadd : register (0 ^^^ register 1 (hrpExpand hrp ++ data)) check = register 0 check ^^^
        polymodShift^[check.length] (register 1 (hrpExpand hrp ++ data)) := polymod_linear.run_add
    rw [hlength, UInt32.zero_xor] at hadd
    rw [polymod_eq, register, run_append]
    exact hadd
  have hzeros : register 0 (List.replicate 6 0) = 0 := by decide
  have hmissing := hsplit (List.replicate 6 0) rfl
  rw [hzeros, UInt32.zero_xor] at hmissing
  have hregister := (toNat_register_zero hlength.le hcheck).1
  have hlt : (polymod (hrpExpand hrp ++ data ++ List.replicate 6 0) ^^^ 1).toNat < 2 ^ 30 := by
    rw [hmissing, Function.iterate_succ_apply']
    exact xor_lt (polymodShift_lt _) (by decide)
  have hvalue : value 5 ((bech32Checksum hrp data).map UInt8.toNat) =
      (polymod (hrpExpand hrp ++ data ++ List.replicate 6 0) ^^^ 1).toNat := by
    have hgroups := value_groups (t := 5) (n := 6) (r := 0)
      (x := (polymod (hrpExpand hrp ++ data ++ List.replicate 6 0) ^^^ 1).toNat)
    rw [pow_zero, Nat.mod_one, Nat.mul_one, Nat.add_zero, Nat.mod_eq_of_lt hlt] at hgroups
    rw [bech32Checksum_groups, hgroups]
  have hone : polymod (hrpExpand hrp ++ data ++ check) = 1 ↔ register 0 check =
      polymod (hrpExpand hrp ++ data ++ List.replicate 6 0) ^^^ 1 := by
    rw [hsplit check hlength, ← hmissing]
    constructor
    · intro h
      rw [← h, UInt32.xor_comm _ (_ ^^^ _), UInt32.xor_assoc, UInt32.xor_self, UInt32.xor_zero]
    · intro h
      rw [h, UInt32.xor_comm _ 1, UInt32.xor_assoc, UInt32.xor_self, UInt32.xor_zero]
  rw [hone, ← UInt32.toNat_inj, hregister, ← hvalue]
  constructor
  · intro h
    have hdigits : check.map UInt8.toNat = (bech32Checksum hrp data).map UInt8.toNat := by
      refine value_inj (by decide) ?_ ?_ ?_ h
      · intro d hd
        obtain ⟨v, hv, rfl⟩ := List.mem_map.1 hd
        exact UInt8.lt_iff_toNat_lt.1 (hcheck v hv)
      · intro d hd
        obtain ⟨v, hv, rfl⟩ := List.mem_map.1 hd
        exact UInt8.lt_iff_toNat_lt.1 (bech32Checksum_lt v hv)
      · rw [List.length_map, List.length_map, hlength, length_bech32Checksum]
    exact List.map_injective_iff.2 (fun _ _ => UInt8.toNat_inj.1) hdigits
  · rintro rfl
    rfl

end BinaryCoin
