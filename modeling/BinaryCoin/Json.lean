/-
  BinaryCoin — json.cpp: JSON values, their parser and their printer.

  The parser is recursive descent over the bytes that remain; what it throws
  names the position it has reached.  The recursion of the source is bounded
  by the input, which `fuel` makes explicit.  Numbers with a fraction or an
  exponent are the C++ library's: they are the fields of `Double`.
-/
import BinaryCoin.FromChars
import BinaryCoin.Serialize

namespace BinaryCoin

open Cursor

/-- What the C++ library does with a `double`. -/
class Double (D : Type) where
  /-- `std::stod(text, &used)` -/
  stod : Str → Except Exn (D × ℕ)
  /-- `std::isfinite` -/
  isFinite : D → Bool
  /-- `operator<<` after `std::setprecision(17)` -/
  print : D → Str

/-- An object is a `std::map`: its entries are sorted by key. -/
inductive Json (D : Type) where
  | null
  | bool (value : Bool)
  | integer (value : Int64)
  | number (value : D)
  | string (value : Str)
  | array (values : List (Json D))
  | object (values : List (Str × Json D))

/-- `std::map::insert_or_assign` -/
def insertOrAssign {α : Type} (key : Str) (value : α) : List (Str × α) → List (Str × α)
  | [] => [(key, value)]
  | (k, v) :: entries =>
    if key = k then (key, value) :: entries
    else if key < k then (key, value) :: (k, v) :: entries
    else (k, v) :: insertOrAssign key value entries

/-! ## The parser -/

def isSpace (c : UInt8) : Bool := c = 32 ∨ c = 10 ∨ c = 13 ∨ c = 9

def isDigit (c : UInt8) : Bool := 48 ≤ c ∧ c ≤ 57

/-- The character at the position, if there is one, satisfies `p`. -/
def next (p : UInt8 → Bool) (rest : Bytes) : Bool :=
  match rest with
  | c :: _ => p c
  | [] => false

def skipSpace : Reader Unit := modify (·.dropWhile isSpace)

def skipDigits : Reader Unit := modify (·.dropWhile isDigit)

def consume (expected : UInt8) : Reader Bool := do
  if next (· = expected) (← get) then
    modify (·.drop 1)
    return true
  else return false

section Parser
variable {D : Type} (size : ℕ)

/-- `error(message)`; the position is what is not left of the `size` bytes. -/
def fail {α : Type} (message : String) : Reader α := do
  let rest ← get
  throw (runtimeError (message ++ " at JSON byte " ++ toString (size - rest.length)))

/-- `if (c) error(message);` -/
def failIf (c : Prop) [Decidable c] (message : String) : Reader Unit :=
  if c then fail size message else pure ()

def expect (expected : UInt8) : Reader Unit := do
  failIf size (¬ (← consume expected)) "Unexpected JSON character"

/-- `input_[position_++]`, where the position is known to be inside. -/
def advance (message : String) : Reader UInt8 := do
  match ← get with
  | c :: rest =>
    set rest
    return c
  | [] => fail size message

def parseLiteral (literal : Str) (value : Json D) : Reader (Json D) := do
  failIf size ((← get).take literal.length ≠ literal) "Invalid JSON literal"
  modify (·.drop literal.length)
  return value

/-! ### Strings -/

def appendUtf8 (output : Str) (codepoint : ℕ) : Except Exn Str :=
  if codepoint ≤ 0x7f then .ok (output ++ [UInt8.ofNat codepoint])
  else if codepoint ≤ 0x7ff then
    .ok (output ++ [UInt8.ofNat (0xc0 ||| codepoint >>> 6), UInt8.ofNat (0x80 ||| codepoint &&& 0x3f)])
  else if codepoint ≤ 0xffff then
    .ok (output ++ [UInt8.ofNat (0xe0 ||| codepoint >>> 12),
      UInt8.ofNat (0x80 ||| codepoint >>> 6 &&& 0x3f), UInt8.ofNat (0x80 ||| codepoint &&& 0x3f)])
  else if codepoint ≤ 0x10ffff then
    .ok (output ++ [UInt8.ofNat (0xf0 ||| codepoint >>> 18),
      UInt8.ofNat (0x80 ||| codepoint >>> 12 &&& 0x3f),
      UInt8.ofNat (0x80 ||| codepoint >>> 6 &&& 0x3f), UInt8.ofNat (0x80 ||| codepoint &&& 0x3f)])
  else .error (runtimeError "Invalid Unicode code point in JSON string")

/-- The loop of `parse_hex4`. -/
def hexLoop : ℕ → ℕ → Reader ℕ
  | 0, value => return value
  | count + 1, value => do
    let c ← advance size "Incomplete JSON Unicode escape"
    if 48 ≤ c ∧ c ≤ 57 then hexLoop count (value * 16 + (c.toNat - 48))
    else if 97 ≤ c ∧ c ≤ 102 then hexLoop count (value * 16 + (10 + c.toNat - 97))
    else if 65 ≤ c ∧ c ≤ 70 then hexLoop count (value * 16 + (10 + c.toNat - 65))
    else fail size "Invalid JSON Unicode escape"

def parseHex4 : Reader ℕ := do
  failIf size ((← get).length < 4) "Incomplete JSON Unicode escape"
  hexLoop size 4 0

/-- The escapes of one character. -/
def simpleEscape (escaped : UInt8) : Option UInt8 :=
  match escaped with
  | 34 => some 34
  | 92 => some 92
  | 47 => some 47
  | 98 => some 8
  | 102 => some 12
  | 110 => some 10
  | 114 => some 13
  | 116 => some 9
  | _ => none

/-- The code point of a `\u` escape, which is followed by another one if it is a high surrogate. -/
def parseCodepoint : Reader ℕ := do
  let codepoint ← parseHex4 size
  if 0xd800 ≤ codepoint ∧ codepoint ≤ 0xdbff then
    failIf size ((← get).take 2 ≠ [92, 117]) "Missing low surrogate in JSON string"
    modify (·.drop 2)
    let low ← parseHex4 size
    failIf size (low < 0xdc00 ∨ 0xdfff < low) "Invalid low surrogate in JSON string"
    return 0x10000 + ((codepoint - 0xd800) <<< 10) + (low - 0xdc00)
  else if 0xdc00 ≤ codepoint ∧ codepoint ≤ 0xdfff then
    fail size "Unexpected low surrogate in JSON string"
  else return codepoint

/-- The loop of `parse_string`. -/
def stringLoop : ℕ → Str → Reader Str
  | 0, _ => fail size "Unterminated JSON string"
  | fuel + 1, output => do
    let c ← advance size "Unterminated JSON string"
    if c = 34 then return output
    failIf size (c < 32) "Control character in JSON string"
    if c ≠ 92 then stringLoop fuel (output ++ [c])
    else
      let escaped ← advance size "Incomplete JSON escape"
      if escaped = 117 then
        let codepoint ← parseCodepoint size
        let output ← appendUtf8 output codepoint
        stringLoop fuel output
      else match simpleEscape escaped with
        | some character => stringLoop fuel (output ++ [character])
        | none => fail size "Invalid JSON escape"

def parseString : Reader Str := do
  expect size 34
  stringLoop size ((← get).length + 1) []

/-! ### Numbers -/

/-- At least one digit, and all that follow. -/
def requireDigits (message : String) : Reader Unit := do
  failIf size (¬ next isDigit (← get)) message
  skipDigits

/-- The digits before a fraction: a lone zero, or digits that do not begin with one. -/
def scanDigits : Reader Unit := do
  if ← consume 48 then
    failIf size (next isDigit (← get)) "Leading zero in JSON number"
  else
    failIf size (¬ next (fun c => 49 ≤ c ∧ c ≤ 57) (← get)) "Invalid JSON number"
    skipDigits

def scanInteger : Reader Unit := do
  let _ ← consume 45
  scanDigits size

def scanFraction : Reader Bool := do
  if ← consume 46 then
    requireDigits size "Invalid JSON fraction"
    return true
  else return false

def skipSign (rest : Bytes) : Bytes :=
  if next (fun c => c = 43 ∨ c = 45) rest then rest.drop 1 else rest

def scanExponent : Reader Bool := do
  if next (fun c => c = 101 ∨ c = 69) (← get) then
    modify fun rest => skipSign (rest.drop 1)
    requireDigits size "Invalid JSON exponent"
    return true
  else return false

variable [Double D]

/-- The value of a number that has been scanned. -/
def numberValue (token : Str) (floating : Bool) : Reader (Json D) := do
  match floating, (Text.signed (2 ^ 63) token).map Int64.ofInt with
  | false, some value => return .integer value
  | _, _ =>
    let (value, used) ← Double.stod token
    failIf size (used ≠ token.length ∨ ¬ Double.isFinite value) "Invalid JSON number"
    return .number value

def parseNumber : Reader (Json D) := do
  let begin ← get
  scanInteger size
  let fraction ← scanFraction size
  let exponent ← scanExponent size
  let token := begin.take (begin.length - (← get).length)
  numberValue size token (fraction || exponent)

/-! ### Values -/

mutual

def parseValue : ℕ → Reader (Json D)
  | 0 => fail size "Unexpected end of JSON input"
  | fuel + 1 => do
    skipSpace
    match ← get with
    | [] => fail size "Unexpected end of JSON input"
    | c :: _ =>
      if c = 110 then parseLiteral size (str "null") .null
      else if c = 116 then parseLiteral size (str "true") (.bool true)
      else if c = 102 then parseLiteral size (str "false") (.bool false)
      else if c = 34 then return .string (← parseString size)
      else if c = 91 then do
        expect size 91
        skipSpace
        if ← consume 93 then return .array [] else arrayLoop fuel []
      else if c = 123 then do
        expect size 123
        skipSpace
        if ← consume 125 then return .object [] else objectLoop fuel []
      else if c = 45 ∨ isDigit c then parseNumber size
      else fail size "Invalid JSON value"

/-- The loop of `parse_array`. -/
def arrayLoop : ℕ → List (Json D) → Reader (Json D)
  | 0, _ => fail size "Unexpected end of JSON input"
  | fuel + 1, values => do
    let value ← parseValue fuel
    skipSpace
    if ← consume 93 then return .array (values ++ [value])
    else
      expect size 44
      skipSpace
      arrayLoop fuel (values ++ [value])

/-- The loop of `parse_object`. -/
def objectLoop : ℕ → List (Str × Json D) → Reader (Json D)
  | 0, _ => fail size "Unexpected end of JSON input"
  | fuel + 1, values => do
    skipSpace
    failIf size (¬ next (· = 34) (← get)) "JSON object key must be a string"
    let key ← parseString size
    skipSpace
    expect size 58
    let value ← parseValue fuel
    skipSpace
    if ← consume 125 then return .object (insertOrAssign key value values)
    else
      expect size 44
      objectLoop fuel (insertOrAssign key value values)

end

/-- Twice the input bounds the depth of the recursion: an array or an object takes two steps for a
    bracket. -/
def parseDocument : Reader (Json D) := do
  skipSpace
  let value ← parseValue size (2 * size + 1)
  skipSpace
  failIf size ((← get) ≠ []) "Trailing data after JSON value"
  return value

end Parser

def Json.parse {D : Type} [Double D] (text : Str) : Except Exn (Json D) :=
  (parseDocument text.length).parse text

/-! ## The printer -/

/-- A character of a string literal of the source. -/
def hexDigitOf (n : ℕ) : UInt8 := UInt8.ofNat (if n < 10 then 48 + n else 87 + n)

def escapeByte (c : UInt8) : Str :=
  match c with
  | 34 => [92, 34]
  | 92 => [92, 92]
  | 8 => [92, 98]
  | 12 => [92, 102]
  | 10 => [92, 110]
  | 13 => [92, 114]
  | 9 => [92, 116]
  | _ =>
    if c < 32 then
      [92, 117, 48, 48, hexDigitOf (c.toNat / 16), hexDigitOf (c.toNat % 16)]
    else [c]

def jsonEscape (text : Str) : Str := text.flatMap escapeByte

def indentation (count : ℕ) : Str := List.replicate count 32

section Printer
variable {D : Type} [Double D] (pretty : Bool)

/-- What stands before an entry of an array or object, or before its end. -/
def lineStart (indent : ℕ) : Str := if pretty then 10 :: indentation indent else []

mutual

def Json.dump : Json D → ℕ → Str
  | .null, _ => str "null"
  | .bool value, _ => if value then str "true" else str "false"
  | .integer value, _ => toText value.toInt
  | .number value, _ => Double.print value
  | .string value, _ => 34 :: jsonEscape value ++ [34]
  | .array values, indent =>
    match values with
    | [] => str "[]"
    | value :: values =>
      91 :: (lineStart pretty (indent + 2) ++ value.dump (indent + 2) ++ dumpValues values indent)
  | .object values, indent =>
    match values with
    | [] => str "{}"
    | (key, value) :: values =>
      123 :: (lineStart pretty (indent + 2) ++ (34 :: jsonEscape key ++ [34]) ++
        (if pretty then [58, 32] else [58]) ++ value.dump (indent + 2) ++ dumpEntries values indent)

/-- The rest of an array. -/
def dumpValues : List (Json D) → ℕ → Str
  | [], indent => lineStart pretty indent ++ [93]
  | value :: values, indent =>
    44 :: (lineStart pretty (indent + 2) ++ value.dump (indent + 2) ++ dumpValues values indent)

/-- The rest of an object. -/
def dumpEntries : List (Str × Json D) → ℕ → Str
  | [], indent => lineStart pretty indent ++ [125]
  | (key, value) :: values, indent =>
    44 :: (lineStart pretty (indent + 2) ++ (34 :: jsonEscape key ++ [34]) ++
      (if pretty then [58, 32] else [58]) ++ value.dump (indent + 2) ++ dumpEntries values indent)

end

end Printer

end BinaryCoin
