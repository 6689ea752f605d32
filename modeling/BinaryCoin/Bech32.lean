/-
  BinaryCoin — bech32.cpp: the text of an address.
-/
import BinaryCoin.Hash

namespace BinaryCoin

def charset : Str := str "qpzry9x8gf2tvdw0s3jn54khce6mua7l"

def hrp : Str := str "tbin"

def bech32Generator : List UInt32 :=
  [0x3b6a57b2, 0x26508e6d, 0x1ea119fa, 0x3d4233dd, 0x2a1462b3]

def polymodStep (checksum : UInt32) (value : UInt8) : UInt32 :=
  let top := (checksum >>> 25).toUInt8
  bech32Generator.zipIdx.foldl
    (fun checksum g => if (top >>> UInt8.ofNat g.2) &&& 1 ≠ 0 then checksum ^^^ g.1 else checksum)
    (((checksum &&& 0x1ffffff) <<< 5) ^^^ value.toUInt32)

def polymod (values : Bytes) : UInt32 := values.foldl polymodStep 1

def hrpExpand (hrp : Str) : Bytes :=
  hrp.map (fun character : UInt8 => character >>> 5) ++ [0] ++ hrp.map (fun character : UInt8 => character &&& 31)

def bech32Checksum (hrp : Str) (data : Bytes) : Bytes :=
  let value := polymod (hrpExpand hrp ++ data ++ List.replicate 6 0) ^^^ 1
  (List.range 6).map fun index => ((value >>> UInt32.ofNat (5 * (5 - index))) &&& 31).toUInt8

/-- The groups that `while (bits >= to_bits)` takes from the accumulator. -/
def takeGroups (toBits : ℕ) (accumulator : UInt32) (bits : ℕ) : Bytes :=
  (List.range (bits / toBits)).map fun k =>
    ((accumulator >>> UInt32.ofNat (bits - (k + 1) * toBits)) &&&
      ((1 <<< UInt32.ofNat toBits) - 1)).toUInt8

/-- The loop of `convert_bits`: the accumulator, the number of bits in it, and the output. -/
def convertLoop (fromBits toBits : ℕ) (input : Bytes) : Except Exn (UInt32 × ℕ × Bytes) :=
  input.foldlM
    (fun state value => do
      throwIf (value.toNat >>> fromBits ≠ 0)
        (invalidArgument "Bech32 data value exceeds source width")
      let accumulator := ((state.1 <<< UInt32.ofNat fromBits) ||| value.toUInt32) &&&
        ((1 <<< UInt32.ofNat (fromBits + toBits - 1)) - 1)
      let bits := state.2.1 + fromBits
      return (accumulator, bits % toBits, state.2.2 ++ takeGroups toBits accumulator bits))
    (0, 0, [])

def convertBits (input : Bytes) (fromBits toBits : ℕ) (pad : Bool) : Except Exn Bytes := do
  let (accumulator, bits, output) ← convertLoop fromBits toBits input
  let last := ((accumulator <<< UInt32.ofNat (toBits - bits)) &&&
    ((1 <<< UInt32.ofNat toBits) - 1)).toUInt8
  if pad then
    return if bits ≠ 0 then output ++ [last] else output
  else
    throwIf (bits ≥ fromBits ∨ last ≠ 0) (invalidArgument "Invalid Bech32 padding")
    return output

def encodeTestnetAddress [Crypto] (compressedPublicKey : Bytes) : Except Exn Str := do
  throwIf (¬ validCompressedPublicKey compressedPublicKey)
    (invalidArgument "Invalid address public key")
  let converted ← convertBits compressedPublicKey 8 5 true
  let data := 0 :: converted
  let check := bech32Checksum hrp data
  return hrp ++ [49] ++ (data ++ check).map fun value => charset.getD value.toNat 0

theorem convertLoop_ok {fromBits toBits : ℕ} {input : Bytes}
    (h : ∀ value ∈ input, value.toNat >>> fromBits = 0) :
    ∃ result, convertLoop fromBits toBits input = .ok result := by
  unfold convertLoop
  generalize ((0, 0, []) : UInt32 × ℕ × Bytes) = state
  induction input generalizing state with
  | nil => exact ⟨state, rfl⟩
  | cons value input ih =>
    obtain ⟨hvalue, hinput⟩ := List.forall_mem_cons.1 h
    obtain ⟨result, hresult⟩ := ih hinput _
    rw [List.foldlM_cons]
    exact ⟨result, except_bind_ok.2
      ⟨_, except_bind_ok.2 ⟨(), throwIf_ok.2 (not_not.2 hvalue), rfl⟩, hresult⟩⟩

/-- Every public key has an address. -/
theorem encodeTestnetAddress_ok [Crypto] {compressedPublicKey : Bytes}
    (h : validCompressedPublicKey compressedPublicKey) :
    ∃ address, encodeTestnetAddress compressedPublicKey = .ok address := by
  have hloop : ∃ result, convertLoop 8 5 compressedPublicKey = .ok result := by
    refine convertLoop_ok fun value _ => ?_
    rw [Nat.shiftRight_eq_div_pow, Nat.div_eq_of_lt value.toNat_lt]
  obtain ⟨result, hresult⟩ := hloop
  have hconverted : ∃ converted, convertBits compressedPublicKey 8 5 true = .ok converted :=
    ⟨_, except_bind_ok.2 ⟨_, hresult, rfl⟩⟩
  obtain ⟨converted, hconverted⟩ := hconverted
  exact ⟨_, except_bind_ok.2
    ⟨(), throwIf_ok.2 (not_not.2 h), except_bind_ok.2 ⟨converted, hconverted, rfl⟩⟩⟩

end BinaryCoin
