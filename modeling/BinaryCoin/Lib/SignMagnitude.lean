/-
  Sign and magnitude — integers as little-endian bytes, where the highest bit
  of the last byte is the sign.

  `decode_concat` reads the last byte, and `natAbs_decode_lt` bounds what a
  number of bytes can spell, so that shortest encodings can be recognised.
-/
import BinaryCoin.Lib.LittleEndian

namespace SignMagnitude

open LittleEndian

/-- The integer that bytes spell. -/
def decode (bytes : List UInt8) : ℤ :=
  let signBit := 128 * 256 ^ (bytes.length - 1)
  if ofLe bytes < signBit then ofLe bytes else -((ofLe bytes - signBit : ℕ) : ℤ)

theorem natAbs_decode_lt (bytes : List UInt8) :
    (decode bytes).natAbs < 128 * 256 ^ (bytes.length - 1) := by
  have hlt := ofLe_lt bytes
  have hpow : 256 ^ bytes.length ≤ 2 * (128 * 256 ^ (bytes.length - 1)) := by
    cases bytes with
    | nil => norm_num
    | cons b bytes =>
      rw [List.length_cons, pow_succ, Nat.add_sub_cancel]
      omega
  simp only [decode]
  split_ifs with h
  · rwa [Int.natAbs_natCast]
  · rw [Int.natAbs_neg, Int.natAbs_natCast]
    omega

/-- The last byte is the sign and the highest part of the magnitude. -/
theorem decode_concat (bytes : List UInt8) (last : UInt8) :
    decode (bytes ++ [last]) =
      if last.toNat < 128 then ((ofLe bytes + 256 ^ bytes.length * last.toNat : ℕ) : ℤ)
      else -((ofLe bytes + 256 ^ bytes.length * (last.toNat - 128) : ℕ) : ℤ) := by
  have hlt := ofLe_lt bytes
  have hspell : ofLe (bytes ++ [last]) = ofLe bytes + 256 ^ bytes.length * last.toNat := by
    rw [ofLe_append, ofLe, ofLe, Nat.mul_zero, Nat.add_zero]
  simp only [decode, hspell, List.length_append, List.length_singleton, Nat.add_sub_cancel]
  by_cases h : last.toNat < 128
  · have hle : 256 ^ bytes.length * (last.toNat + 1) ≤ 256 ^ bytes.length * 128 :=
      Nat.mul_le_mul_left _ h
    rw [Nat.mul_succ] at hle
    rw [if_pos h, if_pos (by omega)]
  · have hle : 256 ^ bytes.length * 128 ≤ 256 ^ bytes.length * last.toNat :=
      Nat.mul_le_mul_left _ (Nat.not_lt.1 h)
    rw [if_neg h, if_neg (by omega), Nat.mul_sub]
    congr 2
    omega

/-- Fewer bytes do not spell a number whose highest bit is behind theirs. -/
theorem length_le_of_decode {bytes : List UInt8} {k : ℕ} {z : ℤ} (h : decode bytes = z)
    (hz : 128 * 256 ^ k ≤ z.natAbs) : k + 2 ≤ bytes.length := by
  have hlt := natAbs_decode_lt bytes
  rw [h] at hlt
  by_contra hlen
  have hle : 256 ^ (bytes.length - 1) ≤ 256 ^ k := Nat.pow_le_pow_right (by norm_num) (by omega)
  omega

end SignMagnitude
