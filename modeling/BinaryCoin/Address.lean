/-
  BinaryCoin — bech32.cpp: reading an address.

  Encoding and decoding undo each other: the symbols of a key are determined by
  its bits, and the six symbols at the end by the checksum.  One or two wrong
  symbols are noticed.
-/
import BinaryCoin.AddressChecksum
import BinaryCoin.Http
import BinaryCoin.VerifyBlocks

namespace BinaryCoin

open Regroup

/-! ## Decoding -/

/-- `std::islower` -/
def isLower (c : UInt8) : Bool := 97 ≤ c ∧ c ≤ 122

/-- `std::isupper` -/
def isUpper (c : UInt8) : Bool := 65 ≤ c ∧ c ≤ 90

/-- `std::string::rfind` of a character -/
def rfind (character : UInt8) : Str → Option ℕ
  | [] => none
  | c :: text =>
    match rfind character text with
    | some index => some (index + 1)
    | none => if c = character then some 0 else none

/-- `CHARSET.find(character)` -/
def symbolOf (character : UInt8) : Option UInt8 := (charset.idxOf? character).map UInt8.ofNat

def decodeTestnetAddress [Crypto] (address : Str) : Except Exn Bytes := do
  throwIf (address.length < 8 ∨ address.length > 90)
    (invalidArgument "Invalid BinaryCoin address length")
  throwIf (address.any isLower ∧ address.any isUpper) (invalidArgument "Mixed-case Bech32 address")
  let normalized := lowerAscii address
  let failure := invalidArgument "Wrong or missing BinaryCoin testnet address prefix"
  let separator ← orThrow (rfind 49 normalized) failure
  throwIf (normalized.take separator ≠ hrp ∨ separator + 7 > normalized.length) failure
  let values ← (normalized.drop (separator + 1)).mapM fun character =>
    orThrow (symbolOf character) (invalidArgument "Invalid Bech32 character")
  throwIf (polymod (hrpExpand hrp ++ values) ≠ 1)
    (invalidArgument "BinaryCoin address checksum mismatch")
  let data := values.take (values.length - 6)
  throwIf (data.head? ≠ some 0) (invalidArgument "Unsupported BinaryCoin address version")
  let publicKey ← convertBits data.tail 5 8 false
  throwIf (¬ validCompressedPublicKey publicKey)
    (invalidArgument "Address contains an invalid public key")
  return publicKey

def validTestnetAddress [Crypto] (address : Str) : Bool := (decodeTestnetAddress address).isOk

/-! ## Regrouping -/

section
variable {f t : ℕ} {input out : Bytes} {acc : UInt32} {bits : ℕ}

/-- The widths that a `std::uint32_t` has room for. -/
structure Widths (f t : ℕ) : Prop where
  f_pos : 0 < f
  f_le : f ≤ 8
  t_pos : 0 < t
  t_le : t ≤ 8

theorem toNat_ofNat_small {n : ℕ} (h : n < 32) : (UInt32.ofNat n).toNat % 32 = n := by
  rw [UInt32.toNat_ofNat_of_lt' (by norm_num [UInt32.size]; omega), Nat.mod_eq_of_lt h]

theorem toNat_mask {n : ℕ} (h : n < 32) (x : UInt32) :
    (x &&& ((1 <<< UInt32.ofNat n) - 1)).toNat = x.toNat % 2 ^ n := by
  have hpow : 2 ^ n < 2 ^ 32 := Nat.pow_lt_pow_right (by decide) h
  have hpos := Nat.two_pow_pos n
  have hone : (1 <<< UInt32.ofNat n : UInt32).toNat = 2 ^ n := by
    rw [UInt32.toNat_shiftLeft, toNat_ofNat_small h, UInt32.toNat_one, Nat.shiftLeft_eq, Nat.one_mul,
      Nat.mod_eq_of_lt hpow]
  have hmask : ((1 <<< UInt32.ofNat n : UInt32) - 1).toNat = 2 ^ n - 1 := by
    rw [UInt32.toNat_sub_of_le _ _ (by rw [UInt32.le_iff_toNat_le, hone]; exact hpos), hone]
    rfl
  rw [UInt32.toNat_and, hmask, Nat.and_two_pow_sub_one_eq_mod]

theorem toNat_lowBits {n : ℕ} (h : n ≤ 8) (x : UInt32) :
    (x &&& ((1 <<< UInt32.ofNat n) - 1)).toUInt8.toNat = x.toNat % 2 ^ n := by
  have hpow : 2 ^ n ≤ 2 ^ 8 := Nat.pow_le_pow_right (by decide) h
  have hlt : x.toNat % 2 ^ n < 2 ^ n := Nat.mod_lt _ (Nat.two_pow_pos n)
  rw [UInt32.toNat_toUInt8, toNat_mask (by omega), Nat.mod_eq_of_lt (hlt.trans_le hpow)]

theorem takeGroups_map (ht : t ≤ 8) (hbits : bits < 32) :
    (takeGroups t acc bits).map UInt8.toNat = groups t acc.toNat (bits / t) (bits % t) := by
  rw [takeGroups, groups, List.map_map]
  refine List.map_congr_left fun k _ => ?_
  rw [Function.comp_apply, toNat_lowBits ht, UInt32.toNat_shiftRight, toNat_ofNat_small (by omega),
    Nat.shiftRight_eq_div_pow, Nat.div_add_mod']

theorem toNat_accumulate (hw : Widths f t) {value : UInt8} (hacc : acc.toNat < 2 ^ (f + t - 1))
    (hvalue : value.toNat < 2 ^ f) :
    (((acc <<< UInt32.ofNat f) ||| value.toUInt32) &&&
      ((1 <<< UInt32.ofNat (f + t - 1)) - 1)).toNat =
      (acc.toNat * 2 ^ f + value.toNat) % 2 ^ (f + t - 1) := by
  have hfle := hw.f_le
  have htle := hw.t_le
  have hroom : acc.toNat * 2 ^ f < 2 ^ 32 := by
    calc acc.toNat * 2 ^ f < 2 ^ (f + t - 1) * 2 ^ f :=
          Nat.mul_lt_mul_of_pos_right hacc (Nat.two_pow_pos f)
      _ = 2 ^ (f + t - 1 + f) := (pow_add 2 _ _).symm
      _ ≤ 2 ^ 32 := Nat.pow_le_pow_right (by decide) (by omega)
  rw [toNat_mask (by omega), UInt32.toNat_or, UInt32.toNat_shiftLeft, toNat_ofNat_small (by omega),
    Nat.shiftLeft_eq, Nat.mod_eq_of_lt hroom, UInt8.toNat_toUInt32, ← Nat.shiftLeft_eq,
    Nat.shiftLeft_add_eq_or_of_lt hvalue]

theorem shiftRight_eq_zero {n k : ℕ} : n >>> k = 0 ↔ n < 2 ^ k := by
  rw [Nat.shiftRight_eq_div_pow, Nat.div_eq_zero_iff]
  have hpos := Nat.two_pow_pos k
  omega

/-- **The loop** regroups the bits of the input. -/
theorem convertLoop_regrouped (hw : Widths f t)
    (h : convertLoop f t input = .ok (acc, bits, out)) : (∀ value ∈ input, value.toNat < 2 ^ f) ∧
      acc.toNat < 2 ^ (f + t - 1) ∧
      Regrouped f t (input.map UInt8.toNat) acc.toNat bits (out.map UInt8.toNat) := by
  induction input using List.reverseRecOn generalizing acc bits out with
  | nil =>
    obtain ⟨rfl, rfl, rfl⟩ : 0 = acc ∧ 0 = bits ∧ [] = out := by
      have hstate := except_pure_ok.1 h
      simpa using hstate
    exact ⟨by simp, Nat.two_pow_pos _, .nil hw.t_pos⟩
  | append_singleton input value ih =>
    rw [convertLoop, List.foldlM_append] at h
    obtain ⟨⟨acc₀, bits₀, out₀⟩, hloop, h⟩ := except_bind_ok.1 h
    obtain ⟨hinput, hacc, hregrouped⟩ := ih hloop
    rw [List.foldlM_cons] at h
    obtain ⟨_, hstep, h⟩ := except_bind_ok.1 h
    obtain rfl := except_pure_ok.1 h
    obtain ⟨_, hvalue, hstep⟩ := except_bind_ok.1 hstep
    rw [throwIf_ok, not_not, shiftRight_eq_zero] at hvalue
    obtain ⟨rfl, rfl, rfl⟩ : _ = acc ∧ _ = bits ∧ _ = out := by
      have hstate := except_pure_ok.1 hstep
      simpa only [Prod.mk.injEq] using hstate
    have hbits := hregrouped.bits_lt
    have hfle := hw.f_le
    have htle := hw.t_le
    refine ⟨?_, ?_, ?_⟩
    · intro v hv
      rcases List.mem_append.1 hv with hv | hv
      · exact hinput v hv
      · rwa [List.mem_singleton.1 hv]
    · rw [toNat_accumulate hw hacc hvalue]
      exact Nat.mod_lt _ (Nat.two_pow_pos _)
    · rw [List.map_append, List.map_singleton, List.map_append, takeGroups_map htle (by omega),
        toNat_accumulate hw hacc hvalue]
      exact hregrouped.step hw.f_pos hvalue

theorem map_digits {b : ℕ} {values : Bytes} (h : ∀ value ∈ values, value.toNat < 2 ^ b) :
    ∀ d ∈ values.map UInt8.toNat, d < 2 ^ b := by
  intro d hd
  obtain ⟨value, hmem, rfl⟩ := List.mem_map.1 hd
  exact h value hmem

theorem toNat_last (hw : Widths f t) (hbits : bits < t) :
    ((acc <<< UInt32.ofNat (t - bits)) &&& ((1 <<< UInt32.ofNat t) - 1)).toUInt8.toNat =
      acc.toNat * 2 ^ (t - bits) % 2 ^ t := by
  have htle := hw.t_le
  have hdvd : 2 ^ t ∣ 2 ^ 32 := pow_dvd_pow 2 (by omega)
  rw [toNat_lowBits htle, UInt32.toNat_shiftLeft, toNat_ofNat_small (by omega), Nat.shiftLeft_eq,
    Nat.mod_mod_of_dvd _ hdvd]

/-- **With padding**, the output is the number of the input, shifted. -/
theorem convertBits_pad (hw : Widths f t) (h : convertBits input f t true = .ok out) :
    (∀ value ∈ input, value.toNat < 2 ^ f) ∧ (∀ value ∈ out, value.toNat < 2 ^ t) ∧
      ∃ r < t, out.length * t = input.length * f + r ∧
        value t (out.map UInt8.toNat) = value f (input.map UInt8.toNat) * 2 ^ r := by
  obtain ⟨⟨acc, bits, groups⟩, hloop, h⟩ := except_bind_ok.1 h
  obtain ⟨hinput, hacc, hregrouped⟩ := convertLoop_regrouped hw hloop
  have hbits := hregrouped.bits_lt
  have hdigit : ∀ value ∈ groups, value.toNat < 2 ^ t := fun value hvalue =>
    hregrouped.digit _ (List.mem_map_of_mem hvalue)
  have hcount := hregrouped.count
  rw [List.length_map, List.length_map] at hcount
  have hout : (if bits ≠ 0 then groups ++ [((acc <<< UInt32.ofNat (t - bits)) &&&
      ((1 <<< UInt32.ofNat t) - 1)).toUInt8] else groups) = out := except_pure_ok.1 h
  refine ⟨hinput, ?_⟩
  by_cases hzero : bits = 0
  · rw [if_neg (not_not.2 hzero)] at hout
    subst hzero hout
    refine ⟨hdigit, 0, hw.t_pos, by omega, ?_⟩
    rw [hregrouped.rest, pow_zero, Nat.mod_one, Nat.add_zero, Nat.mul_one, Nat.mul_one]
  · rw [if_pos hzero] at hout
    subst hout
    have hlast : ((acc <<< UInt32.ofNat (t - bits)) &&& ((1 <<< UInt32.ofNat t) - 1)).toUInt8.toNat =
        acc.toNat * 2 ^ (t - bits) % 2 ^ t := toNat_last hw hbits
    refine ⟨?_, t - bits, by omega, ?_, ?_⟩
    · intro value hvalue
      rcases List.mem_append.1 hvalue with hvalue | hvalue
      · exact hdigit value hvalue
      · rw [List.mem_singleton.1 hvalue, hlast]
        exact Nat.mod_lt _ (Nat.two_pow_pos t)
    · rw [List.length_append, List.length_singleton, Nat.add_one_mul, hcount]
      omega
    · rw [List.map_append, List.map_singleton, hlast]
      exact hregrouped.pad

/-- A quotient and its remainder. -/
theorem mul_add_inj {a b r r' : ℕ} (hr : r < t) (hr' : r' < t) (h : a * t + r = b * t + r') :
    a = b ∧ r = r' := by
  have hpos : 0 < t := by omega
  have hdiv := congrArg (· / t) h
  have hmod := congrArg (· % t) h
  simp only [Nat.mul_comm _ t, Nat.mul_add_div hpos, Nat.mul_add_mod, Nat.mod_eq_of_lt hr,
    Nat.mod_eq_of_lt hr', Nat.div_eq_of_lt hr, Nat.div_eq_of_lt hr', Nat.add_zero] at hdiv hmod
  exact ⟨hdiv, hmod⟩

/-- The bits that are left are zero where they would make a zero digit. -/
theorem last_eq_zero (hbits : bits < t) {x : ℕ} :
    x * 2 ^ (t - bits) % 2 ^ t = 0 ↔ x % 2 ^ bits = 0 := by
  have hpow : 2 ^ t = 2 ^ bits * 2 ^ (t - bits) := by
    rw [← pow_add]
    congr 1
    omega
  rw [hpow, Nat.mul_mod_mul_right, Nat.mul_eq_zero]
  exact or_iff_left (Nat.two_pow_pos _).ne'

/-- **Without padding**, the input is the number of the output, shifted by less than a digit. -/
theorem convertBits_unpadded (hw : Widths f t) : convertBits input f t false = .ok out ↔
    (∀ value ∈ input, value.toNat < 2 ^ f) ∧ (∀ value ∈ out, value.toNat < 2 ^ t) ∧
      ∃ r, r < f ∧ r < t ∧ input.length * f = out.length * t + r ∧
        value f (input.map UInt8.toNat) = value t (out.map UInt8.toNat) * 2 ^ r := by
  constructor
  · intro h
    obtain ⟨⟨acc, bits, groups⟩, hloop, h⟩ := except_bind_ok.1 h
    obtain ⟨hinput, hacc, hregrouped⟩ := convertLoop_regrouped hw hloop
    have hbits := hregrouped.bits_lt
    obtain ⟨_, hpadding, h⟩ := except_bind_ok.1 h
    obtain rfl := except_pure_ok.1 h
    rw [throwIf_ok, not_or, not_not, ← UInt8.toNat_inj, toNat_last hw hbits] at hpadding
    have hzero := (last_eq_zero hbits).1 hpadding.2
    have hcount := hregrouped.count
    rw [List.length_map, List.length_map] at hcount
    refine ⟨hinput, fun value hvalue => hregrouped.digit _ (List.mem_map_of_mem hvalue), bits,
      Nat.not_le.1 hpadding.1, hbits, hcount, ?_⟩
    rw [hregrouped.rest, hzero, Nat.add_zero]
  · rintro ⟨hinput, hout, r, hrf, hrt, hcount, hvalue⟩
    obtain ⟨⟨acc, bits, groups⟩, hloop⟩ := convertLoop_ok fun value hmem =>
      shiftRight_eq_zero.2 (hinput value hmem)
    obtain ⟨-, hacc, hregrouped⟩ := convertLoop_regrouped hw hloop
    have hbits := hregrouped.bits_lt
    have hcount' := hregrouped.count
    rw [List.length_map, List.length_map, hcount] at hcount'
    obtain ⟨hlength, rfl⟩ := mul_add_inj hrt hbits hcount'
    have hrest := hregrouped.rest
    rw [hvalue] at hrest
    have hzero : acc.toNat % 2 ^ r = 0 := by
      have hmod := congrArg (· % 2 ^ r) hrest
      simp only [Nat.mul_mod_left, Nat.mul_add_mod_self_right, Nat.mod_mod] at hmod
      exact hmod.symm
    rw [hzero, Nat.add_zero] at hrest
    have hsame : out = groups := by
      have hdigits : out.map UInt8.toNat = groups.map UInt8.toNat := by
        exact value_inj hw.t_pos (map_digits hout) hregrouped.digit (by simpa using hlength)
          (Nat.eq_of_mul_eq_mul_right (Nat.two_pow_pos r) hrest)
      exact List.map_injective_iff.2 (fun _ _ => UInt8.toNat_inj.1) hdigits
    subst hsame
    refine except_bind_ok.2 ⟨_, hloop, except_bind_ok.2 ⟨(), throwIf_ok.2 ?_, rfl⟩⟩
    rw [not_or, not_not, ← UInt8.toNat_inj, toNat_last hw hbits]
    exact ⟨Nat.not_le.2 hrf, (last_eq_zero hbits).2 hzero⟩

/-- **Regrouping is undone** by regrouping. -/
theorem convertBits_iff (hw : Widths f t) (hw' : Widths t f) (hle : t ≤ f)
    (hinput : ∀ value ∈ input, value.toNat < 2 ^ f) :
    convertBits input f t true = .ok out ↔ convertBits out t f false = .ok input := by
  constructor
  · intro h
    obtain ⟨-, hout, r, hr, hcount, hvalue⟩ := convertBits_pad hw h
    exact (convertBits_unpadded hw').2 ⟨hout, hinput, r, hr, by omega, hcount, hvalue⟩
  · intro h
    obtain ⟨hout, -, r, hr, -, hcount, hvalue⟩ := (convertBits_unpadded hw').1 h
    obtain ⟨⟨acc, bits, groups⟩, hloop⟩ := convertLoop_ok fun value hmem =>
      shiftRight_eq_zero.2 (hinput value hmem)
    obtain ⟨out', hout'⟩ : ∃ out', convertBits input f t true = .ok out' :=
      ⟨_, except_bind_ok.2 ⟨_, hloop, rfl⟩⟩
    obtain ⟨-, hdigit', r', hr', hcount', hvalue'⟩ := convertBits_pad hw hout'
    obtain ⟨hlength, rfl⟩ := mul_add_inj hr' hr (show out.length * t + r' = out'.length * t + r by omega)
    have hdigits : out.map UInt8.toNat = out'.map UInt8.toNat := by
      refine value_inj hw.t_pos (map_digits hout) (map_digits hdigit') (by simpa using hlength) ?_
      rw [hvalue, hvalue']
    rw [List.map_injective_iff.2 (fun _ _ => UInt8.toNat_inj.1) hdigits]
    exact hout'

end

/-! ## The text -/

/-- `CHARSET[value]` -/
def characterOf (value : UInt8) : UInt8 := charset.getD value.toNat 0

/-- An address of the symbols. -/
def addressText (values : Bytes) : Str := hrp ++ 49 :: values.map characterOf

/-- Values of five bits. -/
def Symbols (values : Bytes) : Prop := ∀ value ∈ values, value < 32

theorem symbolOf_characterOf : ∀ value : UInt8, value < 32 →
    symbolOf (characterOf value) = some value := by decide +kernel

theorem characterOf_symbolOf : ∀ character : UInt8,
    (symbolOf character).all fun value => value < 32 ∧ characterOf value = character := by
  decide +kernel

theorem characterOf_plain : ∀ value : UInt8, value < 32 → characterOf value ≠ 49 ∧
    isUpper (characterOf value) = false ∧ characterOf value ∈ charset := by decide +kernel

theorem charset_symbols : ∀ character ∈ charset, ∃ value < 32, characterOf value = character := by
  decide +kernel

section
variable {character value : UInt8} {text pre rest : Str} {values values' : Bytes} {n : ℕ}

theorem symbolOf_iff : symbolOf character = some value ↔ value < 32 ∧ characterOf value = character := by
  constructor
  · intro h
    have hall := characterOf_symbolOf character
    rw [h] at hall
    simpa using hall
  · rintro ⟨hlt, rfl⟩
    exact symbolOf_characterOf value hlt

theorem mapM_symbolOf {e : Exn} :
    text.mapM (fun character => orThrow (symbolOf character) e) = .ok values ↔
      Symbols values ∧ text = values.map characterOf := by
  induction text generalizing values with
  | nil =>
    rw [List.mapM_nil, except_pure_ok]
    constructor
    · rintro rfl
      exact ⟨nofun, rfl⟩
    · rintro ⟨-, h⟩
      exact (List.map_eq_nil_iff.1 h.symm).symm
  | cons character text ih =>
    simp only [List.mapM_cons, except_bind_ok, orThrow_ok, symbolOf_iff, ih, except_pure_ok]
    constructor
    · rintro ⟨value, ⟨hlt, rfl⟩, values', ⟨hvalues, rfl⟩, rfl⟩
      exact ⟨List.forall_mem_cons.2 ⟨hlt, hvalues⟩, rfl⟩
    · rintro ⟨hvalues, h⟩
      obtain ⟨value, values', rfl, rfl, rfl⟩ := List.map_eq_cons_iff.1 h.symm
      obtain ⟨hlt, hvalues⟩ := List.forall_mem_cons.1 hvalues
      exact ⟨value, ⟨hlt, rfl⟩, values', ⟨hvalues, rfl⟩, rfl⟩

theorem rfind_none (h : character ∉ text) : rfind character text = none := by
  induction text with
  | nil => rfl
  | cons c text ih =>
    obtain ⟨hc, htext⟩ := not_or.1 (List.mem_cons.not.1 h)
    rw [rfind, ih htext]
    exact if_neg fun heq => hc heq.symm

theorem rfind_append (h : character ∉ rest) :
    rfind character (pre ++ character :: rest) = some pre.length := by
  induction pre with
  | nil =>
    rw [List.nil_append, rfind, rfind_none h]
    exact if_pos rfl
  | cons c pre ih =>
    rw [List.cons_append, rfind, ih]
    rfl

theorem rfind_some (h : rfind character text = some n) :
    text = text.take n ++ character :: text.drop (n + 1) := by
  induction text generalizing n with
  | nil => cases h
  | cons c text ih =>
    rw [rfind] at h
    cases hrest : rfind character text with
    | some index =>
      rw [hrest] at h
      obtain rfl := Option.some.inj h
      exact congrArg (c :: ·) (ih hrest)
    | none =>
      rw [hrest] at h
      dsimp only at h
      split_ifs at h with hc
      obtain rfl := Option.some.inj h
      rw [hc]
      rfl

theorem length_addressText : (addressText values).length = 5 + values.length := by
  rw [addressText, List.length_append, List.length_cons, List.length_map]
  have hhrp : hrp.length = 4 := by decide
  omega

/-- An address of symbols has no upper case. -/
theorem addressText_lower (h : Symbols values) : ∀ c ∈ addressText values, isUpper c = false := by
  have hhrp : ∀ c ∈ hrp, isUpper c = false := by decide +kernel
  intro c hc
  rcases List.mem_append.1 hc with hc | hc
  · exact hhrp c hc
  · rcases List.mem_cons.1 hc with rfl | hc
    · decide
    · obtain ⟨value, hvalue, rfl⟩ := List.mem_map.1 hc
      exact (characterOf_plain value (h value hvalue)).2.1

theorem lowerAscii_of_lower (h : ∀ c ∈ text, isUpper c = false) : lowerAscii text = text := by
  have hsame : ∀ c ∈ text, (if 65 ≤ c ∧ c ≤ 90 then c + 32 else c) = c := by
    intro c hc
    have hupper := h c hc
    rw [isUpper, decide_eq_false_iff_not] at hupper
    exact if_neg hupper
  rw [lowerAscii, List.map_congr_left hsame, List.map_id'']
  exact fun _ => rfl

theorem addressText_inj (h : Symbols values) (h' : Symbols values')
    (heq : addressText values = addressText values') : values = values' := by
  have hmap : values.map characterOf = values'.map characterOf :=
    (List.cons.inj (List.append_cancel_left heq)).2
  have hsome : ∀ vs : Bytes, Symbols vs → (vs.map characterOf).map symbolOf = vs.map some := by
    intro vs hvs
    rw [List.map_map]
    exact List.map_congr_left fun v hv => symbolOf_characterOf v (hvs v hv)
  have hboth : values.map some = values'.map some := by rw [← hsome _ h, ← hsome _ h', hmap]
  exact List.map_injective_iff.2 (Option.some_injective _) hboth

/-- The separator of an address, and what is around it. -/
theorem addressText_parts (h : Symbols values) : rfind 49 (addressText values) = some 4 ∧
    (addressText values).take 4 = hrp ∧ (addressText values).drop 5 = values.map characterOf := by
  have hhrp : hrp.length = 4 := by decide
  have hnot : (49 : UInt8) ∉ values.map characterOf := by
    intro hmem
    obtain ⟨value, hvalue, heq⟩ := List.mem_map.1 hmem
    exact (characterOf_plain value (h value hvalue)).1 heq
  refine ⟨?_, List.take_left' hhrp, ?_⟩
  · rw [addressText, rfind_append hnot, hhrp]
  · rw [addressText, ← List.singleton_append, ← List.append_assoc]
    exact List.drop_left' rfl

end

/-! ## Both ways -/

section
variable [Crypto] {address : Str} {publicKey groups check : Bytes}

/-- What an address consists of: the version, the key, and the checksum. -/
structure AddressParts (publicKey groups check : Bytes) : Prop where
  groups_symbols : Symbols groups
  check_symbols : Symbols check
  check_length : check.length = 6
  checksum : polymod (hrpExpand hrp ++ (0 :: groups) ++ check) = 1
  key : convertBits groups 5 8 false = .ok publicKey
  valid : validCompressedPublicKey publicKey

theorem AddressParts.symbols (h : AddressParts publicKey groups check) :
    Symbols (0 :: groups ++ check) := by
  intro value hvalue
  rcases List.mem_append.1 hvalue with hvalue | hvalue
  · rcases List.mem_cons.1 hvalue with rfl | hvalue
    · decide
    · exact h.groups_symbols value hvalue
  · exact h.check_symbols value hvalue

/-- **What is accepted as an address.** -/
theorem decodeTestnetAddress_ok : decodeTestnetAddress address = .ok publicKey ↔
    (8 ≤ address.length ∧ address.length ≤ 90) ∧ ¬ (address.any isLower ∧ address.any isUpper) ∧
    ∃ groups check, AddressParts publicKey groups check ∧
      lowerAscii address = addressText (0 :: groups ++ check) := by
  simp only [decodeTestnetAddress, except_bind_ok, throwIf_ok, orThrow_ok, mapM_symbolOf, not_or,
    not_not, not_lt, gt_iff_lt, except_pure_ok, ne_eq]
  constructor
  · rintro ⟨_, hlength, _, hcase, separator, hseparator, _, ⟨hname, hroom⟩, values,
      ⟨hvalues, htext⟩, _, hpolymod, _, hversion, publicKey', hkey, _, hvalid, rfl⟩
    have hsplit := rfind_some hseparator
    have hwhole : lowerAscii address = addressText values := by
      rw [hsplit, hname, htext]
      rfl
    have hfive : 6 ≤ values.length ∧ separator = 4 := by
      obtain ⟨hfind, -, -⟩ := addressText_parts hvalues
      rw [hwhole, hfind] at hseparator
      obtain rfl := Option.some.inj hseparator
      rw [hwhole, length_addressText] at hroom
      omega
    obtain ⟨groups, hgroups⟩ : ∃ groups, values.take (values.length - 6) = 0 :: groups := by
      obtain ⟨rest, hrest⟩ := List.head?_eq_some_iff.1 hversion
      exact ⟨rest, hrest⟩
    have happend : 0 :: groups ++ values.drop (values.length - 6) = values := by
      rw [← hgroups, List.take_append_drop]
    rw [hgroups, List.tail_cons] at hkey
    refine ⟨hlength, hcase, groups, values.drop (values.length - 6), ⟨?_, ?_, ?_, ?_, hkey, hvalid⟩, ?_⟩
    · intro value hvalue
      exact hvalues value (by rw [← happend]; simp [hvalue])
    · intro value hvalue
      exact hvalues value (List.mem_of_mem_drop hvalue)
    · rw [List.length_drop]
      omega
    · rw [List.append_assoc, happend]
      exact hpolymod
    · rw [happend]
      exact hwhole
  · rintro ⟨hlength, hcase, groups, check, hparts, htext⟩
    obtain ⟨hfind, htake, hdrop⟩ := addressText_parts hparts.symbols
    have hcheck := hparts.check_length
    have htotal : (0 :: groups ++ check).length - 6 = (0 :: groups).length := by
      rw [List.length_append, hcheck]
      omega
    refine ⟨(), hlength, (), hcase, 4, ?_, (), ⟨?_, ?_⟩, 0 :: groups ++ check,
      ⟨hparts.symbols, ?_⟩, (), ?_, (), ?_, publicKey, ?_, (), hparts.valid, rfl⟩
    · rw [htext, hfind]
    · rw [htext, htake]
    · rw [htext, length_addressText, List.length_append, hcheck, List.length_cons]
      omega
    · rw [htext, hdrop]
    · rw [← List.append_assoc]
      exact hparts.checksum
    · rw [htotal, List.take_left]
      rfl
    · rw [htotal, List.take_left]
      exact hparts.key

omit [Crypto] in
theorem widths_key : Widths 8 5 ∧ Widths 5 8 :=
  ⟨⟨by decide, by decide, by decide, by decide⟩, ⟨by decide, by decide, by decide, by decide⟩⟩

omit [Crypto] in
theorem toNat_lt_eight (values : Bytes) : ∀ value ∈ values, value.toNat < 2 ^ 8 :=
  fun value _ => value.toNat_lt

/-- **An encoded address** has the parts that are accepted. -/
theorem encodeTestnetAddress_iff : encodeTestnetAddress publicKey = .ok address ↔
    ∃ groups check, AddressParts publicKey groups check ∧
      address = addressText (0 :: groups ++ check) := by
  have hregroup : ∀ groups : Bytes, convertBits publicKey 8 5 true = .ok groups ↔
      convertBits groups 5 8 false = .ok publicKey := fun groups =>
    convertBits_iff widths_key.1 widths_key.2 (by decide) (toNat_lt_eight publicKey)
  simp only [encodeTestnetAddress, except_bind_ok, throwIf_ok, not_not, except_pure_ok]
  constructor
  · rintro ⟨_, hvalid, groups, hgroups, rfl⟩
    obtain ⟨-, hdigits, -⟩ := convertBits_pad widths_key.1 hgroups
    refine ⟨groups, bech32Checksum hrp (0 :: groups), ⟨?_, bech32Checksum_lt,
      length_bech32Checksum _ _, ?_, (hregroup groups).1 hgroups, hvalid⟩, ?_⟩
    · exact fun value hvalue => UInt8.lt_iff_toNat_lt.2 (hdigits value hvalue)
    · exact (polymod_eq_one_iff (length_bech32Checksum _ _) bech32Checksum_lt).2 rfl
    · exact List.append_assoc _ _ _
  · rintro ⟨groups, check, hparts, rfl⟩
    refine ⟨(), hparts.valid, groups, (hregroup groups).2 hparts.key, ?_⟩
    rw [(polymod_eq_one_iff hparts.check_length hparts.check_symbols).1 hparts.checksum]
    exact List.append_assoc _ _ _

end

/-! ## The theorems -/

section
variable [Crypto] {address : Str} {publicKey : Bytes}

omit [Crypto] in
/-- 33 bytes make 53 symbols. -/
theorem length_groups {groups : Bytes} (hlength : publicKey.length = 33)
    (h : convertBits groups 5 8 false = .ok publicKey) : groups.length = 53 := by
  obtain ⟨-, -, r, hr, -, hcount, -⟩ := (convertBits_unpadded widths_key.2).1 h
  rw [hlength] at hcount
  omega

/-- **Address round trip.** -/
theorem address_round_trip :
    (∀ publicKey : Bytes, publicKey.length = 33 → validCompressedPublicKey publicKey →
      ∃ address, encodeTestnetAddress publicKey = .ok address ∧
        decodeTestnetAddress address = .ok publicKey) ∧
    (∀ (address : Str) (publicKey : Bytes), decodeTestnetAddress address = .ok publicKey →
      encodeTestnetAddress publicKey = .ok (lowerAscii address)) ∧
    ∀ (address address' : Str) (publicKey : Bytes), decodeTestnetAddress address = .ok publicKey →
      decodeTestnetAddress address' = .ok publicKey → lowerAscii address = lowerAscii address' := by
  have hback : ∀ (address : Str) (publicKey : Bytes), decodeTestnetAddress address = .ok publicKey →
      encodeTestnetAddress publicKey = .ok (lowerAscii address) := by
    intro address publicKey h
    obtain ⟨-, -, groups, check, hparts, htext⟩ := decodeTestnetAddress_ok.1 h
    exact encodeTestnetAddress_iff.2 ⟨groups, check, hparts, htext⟩
  refine ⟨?_, hback, ?_⟩
  · intro publicKey hlength hvalid
    obtain ⟨address, h⟩ := encodeTestnetAddress_ok hvalid
    obtain ⟨groups, check, hparts, rfl⟩ := encodeTestnetAddress_iff.1 h
    have hlower := addressText_lower hparts.symbols
    have htotal : (addressText (0 :: groups ++ check)).length = 65 := by
      rw [length_addressText, List.length_append, List.length_cons, hparts.check_length,
        length_groups hlength hparts.key]
    refine ⟨_, h, decodeTestnetAddress_ok.2 ⟨by omega, ?_, groups, check, hparts, ?_⟩⟩
    · rintro ⟨-, hupper⟩
      obtain ⟨c, hc, hcupper⟩ := List.any_eq_true.1 hupper
      rw [hlower c hc] at hcupper
      cases hcupper
    · exact lowerAscii_of_lower hlower
  · intro address address' publicKey h h'
    exact Except.ok.inj ((hback _ _ h).symm.trans (hback _ _ h'))

/-- The address of the genesis key. -/
def genesisAddress : Str := str "tbin1qqfumuen7l8wthtz45p3ftn58pvrs9xlumvkuu2xet8egzkcklqtesdgg8d2"

omit [Crypto] in
theorem decode_genesisAddress :
    @decodeTestnetAddress (.ofTable []) genesisAddress = .ok genesisPublicKey := by decide +kernel

omit [Crypto] in
theorem address_round_trip_genesis :
    @encodeTestnetAddress (.ofTable []) genesisPublicKey = .ok (lowerAscii genesisAddress) ∧
    ∃ address, @encodeTestnetAddress (.ofTable []) genesisPublicKey = .ok address ∧
      @decodeTestnetAddress (.ofTable []) address = .ok genesisPublicKey := by
  obtain ⟨hencode, hdecode, -⟩ := @address_round_trip (.ofTable [])
  exact ⟨hdecode _ _ decode_genesisAddress, hencode genesisPublicKey rfl (decide_eq_true rfl)⟩

/-- A character of an address is replaced by another one. -/
structure Typo (address : Str) (index : ℕ) (character : UInt8) : Prop where
  after : 5 ≤ index
  within : index < address.length
  mem_charset : character ∈ charset
  other : address[index]? ≠ some character

section
variable {values l r : Bytes} {v : UInt8} {index index' : ℕ} {character character' : UInt8}

omit [Crypto] in
theorem addressText_append :
    addressText (l ++ v :: r) = addressText l ++ characterOf v :: r.map characterOf := by
  simp [addressText]

omit [Crypto] in
/-- A wrong character is a wrong symbol. -/
theorem Typo.symbol (h : Typo (addressText values) index character) : ∃ l v v' r,
    values = l ++ v :: r ∧ index = 5 + l.length ∧ v' < 32 ∧ v ≠ v' ∧
      (addressText values).set index character = addressText (l ++ v' :: r) := by
  have hafter := h.after
  have hwithin := h.within
  rw [length_addressText] at hwithin
  have hk : index - 5 < values.length := by omega
  obtain ⟨v', hv', rfl⟩ := charset_symbols _ h.mem_charset
  have hlength : index = 5 + (values.take (index - 5)).length := by
    rw [List.length_take]
    omega
  generalize hl : values.take (index - 5) = l at hlength
  generalize hr : values.drop (index - 5 + 1) = r
  have hvalues : values = l ++ values[index - 5] :: r := by
    rw [← hl, ← hr, ← List.drop_eq_getElem_cons, List.take_append_drop]
  generalize values[index - 5] = v at hvalues
  subst hvalues
  have hat : index = (addressText l).length := hlength.trans length_addressText.symm
  refine ⟨l, v, v', r, rfl, hlength, hv', ?_, ?_⟩
  · rintro rfl
    refine h.other ?_
    rw [addressText_append, hat, List.getElem?_append_right le_rfl, Nat.sub_self]
    rfl
  · rw [addressText_append, addressText_append, hat, List.set_append_right _ _ le_rfl, Nat.sub_self]
    rfl

theorem validTestnetAddress_of_ok (h : decodeTestnetAddress address = .ok publicKey) :
    validTestnetAddress address := by
  rw [validTestnetAddress, h]
  rfl

/-- The symbols of a valid address in lower case. -/
theorem validTestnetAddress_symbols (hvalid : validTestnetAddress address)
    (hlower : lowerAscii address = address) :
    ∃ values, Symbols values ∧ register 1 (hrpExpand hrp ++ values) = 1 ∧ values.length ≤ 85 ∧
      address = addressText values := by
  rw [validTestnetAddress] at hvalid
  cases h : decodeTestnetAddress address with
  | error e =>
    rw [h] at hvalid
    cases hvalid
  | ok publicKey =>
    obtain ⟨⟨-, hlength⟩, -, groups, check, hparts, htext⟩ := decodeTestnetAddress_ok.1 h
    rw [hlower] at htext
    rw [htext, length_addressText] at hlength
    refine ⟨_, hparts.symbols, ?_, by omega, htext⟩
    rw [← polymod_eq, ← List.append_assoc]
    exact hparts.checksum

/-- An address whose symbols end in another state is not valid. -/
theorem validTestnetAddress_eq_false (hvalues : Symbols values)
    (h : register 1 (hrpExpand hrp ++ values) ≠ 1) : validTestnetAddress (addressText values) = false := by
  by_contra hvalid
  rw [Bool.not_eq_false] at hvalid
  obtain ⟨values', hvalues', hregister, -, htext⟩ := validTestnetAddress_symbols hvalid
    (lowerAscii_of_lower (addressText_lower hvalues))
  rw [addressText_inj hvalues hvalues' htext] at h
  exact h hregister

omit [Crypto] in
theorem symbols_replace {v' : UInt8} (h : Symbols (l ++ v :: r)) (hv' : v' < 32) :
    Symbols (l ++ v' :: r) := by
  intro value hvalue
  rcases List.mem_append.1 hvalue with hvalue | hvalue
  · exact h value (List.mem_append_left _ hvalue)
  · rcases List.mem_cons.1 hvalue with rfl | hvalue
    · exact hv'
    · exact h value (List.mem_append_right _ (List.mem_cons_of_mem _ hvalue))

/-- Two wrong characters, the first of them first. -/
theorem two_typos_of_lt (hvalid : validTestnetAddress address)
    (hlower : lowerAscii address = address) (h : Typo address index character)
    (h' : Typo address index' character') (hlt : index < index') :
    validTestnetAddress ((address.set index character).set index' character') = false := by
  obtain ⟨values, hvalues, hregister, hlength, rfl⟩ := validTestnetAddress_symbols hvalid hlower
  have hsecond : Typo ((addressText values).set index character) index' character' :=
    ⟨h'.after, by rw [List.length_set]; exact h'.within, h'.mem_charset, by
      rw [List.getElem?_set_ne hlt.ne]; exact h'.other⟩
  obtain ⟨l, v, v', r, rfl, hindex, hv', hv, hset⟩ := h.symbol
  rw [hset] at hsecond ⊢
  obtain ⟨l₂, w, w', r₂, hsplit, hindex', hw', hw, hset'⟩ := hsecond.symbol
  -- the second place is in what follows the first
  obtain ⟨m, rfl, rfl⟩ : ∃ m, l₂ = l ++ v' :: m ∧ r = m ++ w :: r₂ := by
    obtain ⟨m, hl, hr⟩ | ⟨m, hl, hr⟩ := List.append_eq_append_iff.1 hsplit
    · obtain _ | ⟨x, m⟩ := m
      · rw [hl, List.append_nil] at hindex'
        omega
      · obtain ⟨rfl, rfl⟩ := List.cons.inj hr
        exact ⟨m, hl, rfl⟩
    · rw [hl, List.length_append] at hindex
      omega
  have hsymbols := symbols_replace hvalues hv'
  rw [hset', List.append_assoc, List.cons_append]
  have hvlt : v < 32 := hvalues v (by simp)
  have hwlt : w < 32 := hvalues w (by simp)
  have hm : m.length < 84 := by
    simp only [List.length_append, List.length_cons] at hlength
    omega
  refine validTestnetAddress_eq_false ?_ ?_
  · rw [← List.cons_append, ← List.append_assoc] at hsymbols ⊢
    exact symbols_replace hsymbols hw'
  · intro hsame
    have heq := hsame.trans hregister.symm
    rw [← List.append_assoc, ← List.append_assoc] at heq
    exact register_double hvlt hv' hwlt hw' hv hm heq

/-- **Typing errors are detected.** -/
theorem typing_errors (hvalid : validTestnetAddress address) (hlower : lowerAscii address = address) :
    (∀ (index : ℕ) (character : UInt8), Typo address index character →
      validTestnetAddress (address.set index character) = false) ∧
    ∀ (index index' : ℕ) (character character' : UInt8), index ≠ index' →
      Typo address index character → Typo address index' character' →
      validTestnetAddress ((address.set index character).set index' character') = false := by
  constructor
  · intro index character h
    obtain ⟨values, hvalues, hregister, -, rfl⟩ := validTestnetAddress_symbols hvalid hlower
    obtain ⟨l, v, v', r, rfl, -, hv', hv, hset⟩ := h.symbol
    rw [hset]
    refine validTestnetAddress_eq_false (symbols_replace hvalues hv') fun hsame => ?_
    have heq := hsame.trans hregister.symm
    rw [← List.append_assoc, ← List.append_assoc] at heq
    exact register_single (hvalues v (by simp)) hv' hv heq
  · intro index index' character character' hne h h'
    rcases Nat.lt_or_gt_of_ne hne with hlt | hlt
    · exact two_typos_of_lt hvalid hlower h h' hlt
    · rw [List.set_comm _ _ hne]
      exact two_typos_of_lt hvalid hlower h' h hlt

omit [Crypto] in
/-- The last character and the first one after the separator. -/
theorem typing_errors_genesis :
    @validTestnetAddress (.ofTable []) (genesisAddress.set 64 113) = false ∧
    @validTestnetAddress (.ofTable []) ((genesisAddress.set 5 112).set 64 113) = false := by
  have hvalid : @validTestnetAddress (.ofTable []) genesisAddress :=
    @validTestnetAddress_of_ok (.ofTable []) _ _ decode_genesisAddress
  obtain ⟨hone, htwo⟩ := @typing_errors (.ofTable []) genesisAddress hvalid (by decide +kernel)
  have hlast : Typo genesisAddress 64 113 :=
    ⟨by decide, by decide +kernel, by decide +kernel, by decide +kernel⟩
  have hfirst : Typo genesisAddress 5 112 :=
    ⟨by decide, by decide +kernel, by decide +kernel, by decide +kernel⟩
  exact ⟨hone _ _ hlast, htwo _ _ _ _ (by decide) hfirst hlast⟩

end

end

end BinaryCoin
