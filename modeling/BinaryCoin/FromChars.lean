/-
  BinaryCoin — numbers in text fields: the calls of `std::from_chars` in
  chain.cpp and storage.cpp, which must read the whole field, and `operator<<`.
-/
import BinaryCoin.Exn
import BinaryCoin.Lib.Text

namespace BinaryCoin

open Text

/-- A byte string in an error text. -/
def ofStr (text : Str) : String := String.ofList (text.map fun byte => Char.ofNat byte.toNat)

/-- A number of a field that must be one, else `what` with the text of the field. -/
def parsed {α : Type} (value : Option α) (what : String) (text : Str) : Except Exn α :=
  orThrow value (runtimeError (what ++ ": " ++ ofStr text))

def parseU64 (what : String) (text : Str) : Except Exn UInt64 :=
  parsed ((unsigned 10 (2 ^ 64) text).map UInt64.ofNat) what text

def parseU32 (base : ℕ) (what : String) (text : Str) : Except Exn UInt32 :=
  parsed ((unsigned base (2 ^ 32) text).map UInt32.ofNat) what text

def parseI32 (what : String) (text : Str) : Except Exn Int32 :=
  parsed ((signed (2 ^ 31) text).map Int32.ofInt) what text

/-- An `Amount`. -/
def parseI64 (what : String) (text : Str) : Except Exn ℤ := parsed (signed (2 ^ 63) text) what text

@[simp] theorem parseU64_decimal (what : String) (n : UInt64) :
    parseU64 what (decimal n.toNat) = .ok n := by
  simp [parseU64, parsed, unsigned_decimal n.toNat_lt]

@[simp] theorem parseU32_decimal (what : String) (n : UInt32) :
    parseU32 10 what (decimal n.toNat) = .ok n := by
  simp [parseU32, parsed, unsigned_decimal n.toNat_lt]

/-! ## Signed numbers -/

/-- `std::to_string` -/
def toText (value : ℤ) : Str :=
  if value < 0 then 45 :: Text.decimal value.natAbs else Text.decimal value.natAbs

theorem signed_toText {z : ℤ} {bound : ℕ} (h : -bound ≤ z) (h' : z < bound) :
    Text.signed bound (toText z) = some z := by
  unfold toText
  by_cases hz : z < 0
  · rw [if_pos hz]
    simp only [Text.signed, Text.digits_decimal, Option.filter_some]
    rw [if_pos (by simp; omega)]
    show some (-(z.natAbs : ℤ)) = some z
    exact congrArg some (by omega)
  · rw [if_neg hz, Text.signed_decimal (by omega)]
    exact congrArg some (by omega)

/-- A byte that is neither a digit nor the sign is not in the text. -/
theorem notMem_toText {c : UInt8} (hdigit : ¬ IsDigit c) (hsign : c ≠ 45) (z : ℤ) : c ∉ toText z := by
  unfold toText
  split_ifs with hz
  · rw [List.mem_cons, not_or]
    exact ⟨hsign, not_mem_decimal hdigit _⟩
  · exact not_mem_decimal hdigit _

/-! ## The stores of peers and of bans -/

/-- `parse_number` of peer_store.cpp and ban_store.cpp, in the file `file`. -/
def parseNumberIn {α : Type} (file field : String) (value : Option α) : Except Exn α :=
  orThrow value (runtimeError ("Invalid " ++ file ++ " " ++ field))

end BinaryCoin
