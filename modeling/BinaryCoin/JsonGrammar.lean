/-
  BinaryCoin — the grammar of JSON (RFC 8259), and what its texts denote.

  Each relation `R s … r` says that `s` begins with a text of the grammar and
  goes on with `r`.  Where the grammar leaves open how far a text reaches
  (white space, digits), it derives every prefix; `JsonText` is about whole
  strings.
-/
import BinaryCoin.Json

namespace BinaryCoin

/-- Any number of characters that satisfy `p`. -/
inductive Star (p : UInt8 → Bool) : Bytes → Bytes → Prop
  | nil {r : Bytes} : Star p r r
  | cons {c : UInt8} {s r : Bytes} (hc : p c) (h : Star p s r) : Star p (c :: s) r

/-- `ws` -/
abbrev Ws : Bytes → Bytes → Prop := Star isSpace

/-- `*DIGIT` -/
abbrev DigitStar : Bytes → Bytes → Prop := Star isDigit

/-- `1*DIGIT` -/
inductive Digits : Bytes → Bytes → Prop
  | mk {c : UInt8} {s r : Bytes} (hc : isDigit c) (h : DigitStar s r) : Digits (c :: s) r

/-- `[ minus ] int` -/
inductive JsonInt : Bytes → Bytes → Prop
  | zero {r : Bytes} : JsonInt (48 :: r) r
  | nonzero {c : UInt8} {s r : Bytes} (hc : 49 ≤ c ∧ c ≤ 57) (h : DigitStar s r) : JsonInt (c :: s) r

inductive Integer : Bytes → Bytes → Prop
  | plus {s r : Bytes} (h : JsonInt s r) : Integer s r
  | minus {s r : Bytes} (h : JsonInt s r) : Integer (45 :: s) r

/-- `[ frac ]`, and whether it is there -/
inductive Fraction : Bool → Bytes → Bytes → Prop
  | none {r : Bytes} : Fraction false r r
  | some {s r : Bytes} (h : Digits s r) : Fraction true (46 :: s) r

/-- `[ exp ]`, and whether it is there -/
inductive Exponent : Bool → Bytes → Bytes → Prop
  | none {r : Bytes} : Exponent false r r
  | some {e : UInt8} {s r : Bytes} (he : e = 101 ∨ e = 69) (h : Digits s r) : Exponent true (e :: s) r
  | signed {e sign : UInt8} {s r : Bytes} (he : e = 101 ∨ e = 69) (hsign : sign = 43 ∨ sign = 45)
      (h : Digits s r) : Exponent true (e :: sign :: s) r

/-- The value of a number: an integer that fits, else what the C++ library makes of it. -/
inductive NumberDenotes {D : Type} [Double D] (token : Str) : Bool → Json D → Prop
  | integer {z : ℤ} (h : Text.signed (2 ^ 63) token = some z) :
      NumberDenotes token false (.integer (Int64.ofInt z))
  | number {floating : Bool} {d : D} (hinteger : floating = true ∨ Text.signed (2 ^ 63) token = none)
      (h : Double.stod token = .ok (d, token.length)) (hfinite : Double.isFinite d) :
      NumberDenotes token floating (.number d)

/-- `number` -/
inductive Number {D : Type} [Double D] : Bytes → Json D → Bytes → Prop
  | mk {token s₁ s₂ r : Bytes} {fraction exponent : Bool} {v : Json D}
      (hinteger : Integer (token ++ r) s₁) (hfraction : Fraction fraction s₁ s₂)
      (hexponent : Exponent exponent s₂ r) (hv : NumberDenotes token (fraction || exponent) v) :
      Number (token ++ r) v r

/-- `4HEXDIG`, and the number they write -/
inductive Hex4 : Bytes → ℕ → Bytes → Prop
  | mk {a b c d : UInt8} {r : Bytes} {n : ℕ} (h : Text.digits 16 [a, b, c, d] = some n) :
      Hex4 (a :: b :: c :: d :: r) n r

/-- The escapes of one character, and the character. -/
inductive Escape : UInt8 → UInt8 → Prop
  | quotationMark : Escape 34 34
  | reverseSolidus : Escape 92 92
  | solidus : Escape 47 47
  | backspace : Escape 98 8
  | formFeed : Escape 102 12
  | lineFeed : Escape 110 10
  | carriageReturn : Escape 114 13
  | tab : Escape 116 9

/-- The characters of a string and the quotation mark that ends it, and the bytes they stand for. -/
inductive Chars : Bytes → Str → Bytes → Prop
  | close {r : Bytes} : Chars (34 :: r) [] r
  | unescaped {c : UInt8} {s r : Bytes} {bytes : Str} (hc : 32 ≤ c) (hquote : c ≠ 34)
      (hescape : c ≠ 92) (h : Chars s bytes r) : Chars (c :: s) (c :: bytes) r
  | escape {e c : UInt8} {s r : Bytes} {bytes : Str} (he : Escape e c) (h : Chars s bytes r) :
      Chars (92 :: e :: s) (c :: bytes) r
  | unicode {s s₁ r : Bytes} {n : ℕ} {bytes : Str} (hn : Hex4 s n s₁)
      (hscalar : ¬ (0xd800 ≤ n ∧ n ≤ 0xdfff)) (h : Chars s₁ bytes r) :
      Chars (92 :: 117 :: s) (String.utf8EncodeChar (Char.ofNat n) ++ bytes) r
  | surrogates {s s₁ s₂ r : Bytes} {high low : ℕ} {bytes : Str}
      (hhigh : Hex4 s high (92 :: 117 :: s₁)) (hlow : Hex4 s₁ low s₂)
      (hrange : 0xd800 ≤ high ∧ high ≤ 0xdbff) (hrange' : 0xdc00 ≤ low ∧ low ≤ 0xdfff)
      (h : Chars s₂ bytes r) : Chars (92 :: 117 :: s) (String.utf8EncodeChar (Char.ofNat
        (0x10000 + (high - 0xd800) * 0x400 + (low - 0xdc00))) ++ bytes) r

/-- The object with these members; of two with one key, the last. -/
def objectOf {α : Type} (members : List (Str × α)) : List (Str × α) :=
  members.foldl (fun entries member => insertOrAssign member.1 member.2 entries) []

section
variable {D : Type} [Double D]

mutual

/-- `value` -/
inductive Value : Bytes → Json D → Bytes → Prop
  | null {r : Bytes} : Value (str "null" ++ r) .null r
  | true {r : Bytes} : Value (str "true" ++ r) (.bool true) r
  | false {r : Bytes} : Value (str "false" ++ r) (.bool false) r
  | string {s r : Bytes} {bytes : Str} (h : Chars s bytes r) : Value (34 :: s) (.string bytes) r
  | number {s r : Bytes} {v : Json D} (h : Number s v r) : Value s v r
  | emptyArray {s r : Bytes} (h : Ws s (93 :: r)) : Value (91 :: s) (.array []) r
  | array {s r : Bytes} {values : List (Json D)} (h : Values s values r) :
      Value (91 :: s) (.array values) r
  | emptyObject {s r : Bytes} (h : Ws s (125 :: r)) : Value (123 :: s) (.object []) r
  | object {s r : Bytes} {members : List (Str × Json D)} (h : Members s members r) :
      Value (123 :: s) (.object (objectOf members)) r

/-- The values of an array, and its end. -/
inductive Values : Bytes → List (Json D) → Bytes → Prop
  | last {s s₁ s₂ r : Bytes} {v : Json D} (hws : Ws s s₁) (hv : Value s₁ v s₂)
      (hend : Ws s₂ (93 :: r)) : Values s [v] r
  | cons {s s₁ s₂ s₃ r : Bytes} {v : Json D} {values : List (Json D)} (hws : Ws s s₁)
      (hv : Value s₁ v s₂) (hcomma : Ws s₂ (44 :: s₃)) (h : Values s₃ values r) :
      Values s (v :: values) r

/-- The members of an object, and its end. -/
inductive Members : Bytes → List (Str × Json D) → Bytes → Prop
  | last {s s₁ s₂ s₃ s₄ s₅ r : Bytes} {key : Str} {v : Json D} (hws : Ws s (34 :: s₁))
      (hkey : Chars s₁ key s₂) (hcolon : Ws s₂ (58 :: s₃)) (hws' : Ws s₃ s₄) (hv : Value s₄ v s₅)
      (hend : Ws s₅ (125 :: r)) : Members s [(key, v)] r
  | cons {s s₁ s₂ s₃ s₄ s₅ s₆ r : Bytes} {key : Str} {v : Json D}
      {members : List (Str × Json D)} (hws : Ws s (34 :: s₁)) (hkey : Chars s₁ key s₂)
      (hcolon : Ws s₂ (58 :: s₃)) (hws' : Ws s₃ s₄) (hv : Value s₄ v s₅) (hcomma : Ws s₅ (44 :: s₆))
      (h : Members s₆ members r) : Members s ((key, v) :: members) r

end

/-- `JSON-text` -/
inductive JsonText (text : Bytes) (v : Json D) : Prop
  | mk {s₁ s₂ : Bytes} (hws : Ws text s₁) (hv : Value s₁ v s₂) (hend : Ws s₂ [])

end

end BinaryCoin
