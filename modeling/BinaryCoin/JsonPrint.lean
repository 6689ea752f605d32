/-
  BinaryCoin — what the printer of json.cpp writes is in the grammar, and is
  parsed to the value that was printed.
-/
import BinaryCoin.JsonParse

namespace BinaryCoin

/-! ## Integers -/

theorem decimal_head {n : ℕ} (h : n ≠ 0) : ∃ c s, Text.decimal n = c :: s ∧ (49 ≤ c ∧ c ≤ 57) ∧
    ∀ d ∈ s, isDigit d := by
  obtain ⟨c, s, heq⟩ := List.exists_cons_of_ne_nil (Text.decimal_ne_nil n)
  have hdigit : ∀ d ∈ c :: s, isDigit d := by
    intro d hd
    rw [← heq] at hd
    simpa [isDigit, Text.IsDigit] using Text.decimal_isDigit n d hd
  obtain ⟨hc, hs⟩ := List.forall_mem_cons.1 hdigit
  refine ⟨c, s, heq, ?_, hs⟩
  -- the last digit in base 10 is not zero
  rw [Text.decimal, if_neg h] at heq
  obtain ⟨d, l, hreverse, rfl, -⟩ := List.map_eq_cons_iff.1 heq
  have hlast : (Nat.digits 10 n).getLast (Nat.digits_ne_nil_iff_ne_zero.2 h) = d := by
    simp only [List.reverse_eq_cons_iff.1 hreverse, List.getLast_append_singleton]
  have hne : d ≠ 0 := hlast ▸ Nat.getLast_digit_ne_zero 10 h
  have hlt : d < 10 := Nat.digits_lt_base (by norm_num) (hlast ▸ List.getLast_mem _)
  exact (by decide : ∀ d < 10, d ≠ 0 → 49 ≤ UInt8.ofNat (48 + d) ∧ UInt8.ofNat (48 + d) ≤ 57) d hlt
    hne

theorem Star.of_forall {p : UInt8 → Bool} {s : Bytes} (h : ∀ c ∈ s, p c) (r : Bytes) :
    Star p (s ++ r) r := by
  induction s with
  | nil => exact .nil
  | cons c s ih =>
    obtain ⟨hc, hs⟩ := List.forall_mem_cons.1 h
    exact .cons hc (ih hs)

theorem decimal_jsonInt (n : ℕ) (r : Bytes) : JsonInt (Text.decimal n ++ r) r := by
  by_cases h : n = 0
  · subst h
    exact .zero
  · obtain ⟨c, s, heq, hc, hs⟩ := decimal_head h
    rw [heq]
    exact .nonzero hc (.of_forall hs r)

theorem toText_integer (z : ℤ) (r : Bytes) : Integer (toText z ++ r) r := by
  unfold toText
  by_cases hz : z < 0
  · rw [if_pos hz]
    exact .minus (decimal_jsonInt ..)
  · rw [if_neg hz]
    exact .plus (decimal_jsonInt ..)

/-! ## Strings -/

/-- The escape of a control character. -/
theorem control_escape : ∀ n < 32,
    Text.digits 16 [48, 48, hexDigitOf (n / 16), hexDigitOf (n % 16)] = some n ∧
    String.utf8EncodeChar (Char.ofNat n) = [UInt8.ofNat n] := by
  decide

theorem escapeByte_chars {c : UInt8} {s r : Bytes} {bytes : Str} (h : Chars s bytes r) :
    Chars (escapeByte c ++ s) (c :: bytes) r := by
  unfold escapeByte
  split
  · exact .escape .quotationMark h
  · exact .escape .reverseSolidus h
  · exact .escape .backspace h
  · exact .escape .formFeed h
  · exact .escape .lineFeed h
  · exact .escape .carriageReturn h
  · exact .escape .tab h
  · rename_i hquote hescape _ _ _ _ _
    by_cases hc : c < 32
    · rw [if_pos hc]
      have hlt : c.toNat < 32 := UInt8.lt_iff_toNat_lt.1 hc
      obtain ⟨hdigits, hutf8⟩ := control_escape c.toNat hlt
      have hchars := Chars.unicode (.mk hdigits) (by omega) h
      rw [hutf8, UInt8.ofNat_toNat] at hchars
      exact hchars
    · rw [if_neg hc]
      exact .unescaped (UInt8.not_lt.1 hc) hquote hescape h

theorem jsonEscape_chars (bytes : Str) (r : Bytes) : Chars (jsonEscape bytes ++ 34 :: r) bytes r := by
  induction bytes with
  | nil => exact .close
  | cons c bytes ih =>
    rw [jsonEscape, List.flatMap_cons, List.append_assoc]
    exact escapeByte_chars ih

/-! ## Objects -/

theorem insertOrAssign_last {α : Type} {key : Str} {value : α} {entries : List (Str × α)}
    (h : ∀ e ∈ entries, e.1 < key) :
    insertOrAssign key value entries = entries ++ [(key, value)] := by
  induction entries with
  | nil => rfl
  | cons e entries ih =>
    obtain ⟨he, hentries⟩ := List.forall_mem_cons.1 h
    have hne : key ≠ e.1 := by
      intro heq
      exact List.lt_irrefl _ (heq ▸ he)
    rw [insertOrAssign, if_neg hne, if_neg (List.lt_asymm he), ih hentries]
    rfl

theorem foldl_insertOrAssign {α : Type} {entries members : List (Str × α)}
    (h : ((entries ++ members).map Prod.fst).Pairwise (· < ·)) :
    members.foldl (fun es m => insertOrAssign m.1 m.2 es) entries = entries ++ members := by
  induction members generalizing entries with
  | nil => simp
  | cons m members ih =>
    have hlast : ∀ e ∈ entries, e.1 < m.1 := by
      intro e he
      rw [List.map_append, List.pairwise_append] at h
      exact h.2.2 e.1 (List.mem_map_of_mem he) m.1 (by simp)
    rw [List.foldl_cons, insertOrAssign_last hlast, ih (by simpa using h)]
    simp

/-- A map lists its entries in order. -/
theorem objectOf_sorted {α : Type} {members : List (Str × α)}
    (h : (members.map Prod.fst).Pairwise (· < ·)) : objectOf members = members :=
  foldl_insertOrAssign h

/-! ## Values -/

section
variable {D : Type} [Double D] {pretty : Bool} {indent : ℕ} {s r : Bytes}

/-- A value without floating-point numbers.  Its objects are maps. -/
inductive Json.Plain : Json D → Prop
  | null : Plain .null
  | bool (value : Bool) : Plain (.bool value)
  | integer (value : Int64) : Plain (.integer value)
  | string (value : Str) : Plain (.string value)
  | array {values : List (Json D)} (h : ∀ v ∈ values, Plain v) : Plain (.array values)
  | object {values : List (Str × Json D)} (hsorted : (values.map Prod.fst).Pairwise (· < ·))
      (h : ∀ e ∈ values, Plain e.2) : Plain (.object values)

omit [Double D] in
theorem lineStart_ws (pretty : Bool) (indent : ℕ) (r : Bytes) :
    Ws (lineStart pretty indent ++ r) r := by
  unfold lineStart
  refine .of_forall (fun c hc => ?_) r
  by_cases hp : pretty
  · rw [if_pos hp] at hc
    rcases List.mem_cons.1 hc with rfl | hc
    · rfl
    · rw [List.eq_of_mem_replicate hc]
      rfl
  · rw [if_neg hp] at hc
    cases hc

/-- What is printed for a value denotes another, which is the same but for floating-point numbers. -/
def ReadAs (pretty : Bool) (v v' : Json D) : Prop :=
  ∀ indent r, Value (v.dump pretty indent ++ r) v' r

/-- The rest of an array that is printed. -/
theorem dumpValues_values {values values' : List (Json D)} {v : Json D} {s₁ : Bytes}
    (h : List.Forall₂ (ReadAs pretty) values values') (hws : Ws s s₁)
    (hv : Value s₁ v (dumpValues pretty values indent ++ r)) : Values s (v :: values') r := by
  induction h generalizing s s₁ v with
  | nil =>
    rw [dumpValues, List.append_assoc] at hv
    exact .last hws hv (lineStart_ws ..)
  | cons hv' _ ih =>
    rw [dumpValues, List.cons_append, List.append_assoc, List.append_assoc] at hv
    exact .cons hws hv .nil (ih (lineStart_ws ..) (hv' _ _))

/-- An array of such values. -/
theorem ReadAs.array {values values' : List (Json D)}
    (h : List.Forall₂ (ReadAs pretty) values values') :
    ReadAs pretty (.array values) (.array values') := by
  intro indent r
  cases h with
  | nil => exact .emptyArray .nil
  | cons hv hvalues =>
    simp only [Json.dump, List.cons_append, List.append_assoc]
    exact .array (dumpValues_values hvalues (lineStart_ws ..) (hv _ _))

/-- What is printed between a key and its value. -/
theorem colon_ws (pretty : Bool) (r : Bytes) :
    ∃ s, (if pretty then [58, 32] else [58]) ++ r = 58 :: s ∧ Ws s r := by
  by_cases hp : pretty
  · rw [if_pos hp]
    exact ⟨32 :: r, rfl, .cons rfl .nil⟩
  · rw [if_neg hp]
    exact ⟨r, rfl, .nil⟩

/-- The rest of an object that is printed. -/
theorem dumpEntries_members {members members' : List (Str × Json D)} {key : Str} {v v' : Json D}
    (h : List.Forall₂ (fun m m' => m.1 = m'.1 ∧ ReadAs pretty m.2 m'.2) members members')
    (hv : ReadAs pretty v v')
    (hws : Ws s (34 :: (jsonEscape key ++ 34 :: ((if pretty then [58, 32] else [58]) ++
      (v.dump pretty (indent + 2) ++ (dumpEntries pretty members indent ++ r)))))) :
    Members s ((key, v') :: members') r := by
  induction h generalizing s key v v' with
  | nil =>
    obtain ⟨s₁, heq, hcolon⟩ := colon_ws pretty
      (v.dump pretty (indent + 2) ++ (dumpEntries pretty ([] : List (Str × Json D)) indent ++ r))
    rw [heq] at hws
    refine .last hws (jsonEscape_chars key _) .nil hcolon (hv _ _) ?_
    rw [dumpEntries, List.append_assoc]
    exact lineStart_ws ..
  | @cons m m' members members' hm _ ih =>
    obtain ⟨k, w⟩ := m
    obtain ⟨_, w'⟩ := m'
    obtain ⟨rfl, hm⟩ := hm
    obtain ⟨s₁, heq, hcolon⟩ := colon_ws pretty
      (v.dump pretty (indent + 2) ++ (dumpEntries pretty ((k, w) :: members) indent ++ r))
    rw [heq] at hws
    refine .cons hws (jsonEscape_chars key _) .nil hcolon (hv _ _) ?_
      (ih hm (lineStart_ws pretty (indent + 2) _))
    rw [dumpEntries]
    simp only [List.cons_append, List.append_assoc]
    exact .nil

/-- An object of such values. -/
theorem ReadAs.object {members members' : List (Str × Json D)}
    (hsorted : (members'.map Prod.fst).Pairwise (· < ·))
    (h : List.Forall₂ (fun m m' => m.1 = m'.1 ∧ ReadAs pretty m.2 m'.2) members members') :
    ReadAs pretty (.object members) (.object members') := by
  intro indent r
  cases h with
  | nil => exact .emptyObject .nil
  | @cons m m' members members' hm hmembers =>
    obtain ⟨k, w⟩ := m
    obtain ⟨_, w'⟩ := m'
    obtain ⟨rfl, hm⟩ := hm
    have hmembers : Members (lineStart pretty (indent + 2) ++ 34 :: (jsonEscape k ++ 34 ::
        ((if pretty then [58, 32] else [58]) ++ (w.dump pretty (indent + 2) ++
          (dumpEntries pretty members indent ++ r))))) ((k, w') :: members') r :=
      dumpEntries_members hmembers hm (lineStart_ws ..)
    have hvalue := Value.object hmembers
    rw [objectOf_sorted hsorted] at hvalue
    simp only [Json.dump, List.cons_append, List.append_assoc]
    exact hvalue

/-- **What is printed is in the grammar.** -/
theorem dump_value {v : Json D} (h : v.Plain) (pretty : Bool) : ReadAs pretty v v := by
  induction h with
  | null => exact fun _ _ => .null
  | bool value =>
    intro indent r
    cases value with
    | true => exact .true
    | false => exact .false
  | integer value =>
    intro indent r
    have hsigned : Text.signed (2 ^ 63) (toText value.toInt) = some value.toInt :=
      signed_toText value.le_toInt value.toInt_lt
    have hdenotes : NumberDenotes (D := D) (toText value.toInt) false (.integer value) := by
      have h := NumberDenotes.integer (D := D) hsigned
      rwa [Int64.ofInt_toInt] at h
    rw [Json.dump]
    exact .number (.mk (toText_integer _ r) .none .none hdenotes)
  | string value =>
    intro indent r
    simp only [Json.dump, List.cons_append, List.append_assoc]
    exact .string (jsonEscape_chars value r)
  | array _ ih => exact .array (List.forall₂_same.2 ih)
  | object hsorted _ ih => exact .object hsorted (List.forall₂_same.2 fun m hm => ⟨rfl, ih m hm⟩)

/-- What is printed is parsed to what it denotes. -/
theorem ReadAs.parse {v v' : Json D} (h : ReadAs pretty v v') :
    Json.parse (v.dump pretty 0) = .ok v' := by
  have hvalue := h 0 []
  rw [List.append_nil] at hvalue
  exact parse_iff.2 (.mk .nil hvalue .nil)

/-- **The round trip**: what is printed, in either layout, is parsed to the value that was printed. -/
theorem parse_dump {v : Json D} (h : v.Plain) (pretty : Bool) :
    Json.parse (v.dump pretty 0) = .ok v :=
  (dump_value h pretty).parse

end

/-- A program without doubles. -/
instance : Double Empty where
  stod _ := .error (runtimeError "stod")
  isFinite := Empty.elim
  print := Empty.elim

/-- Empty containers, extreme integers, and a key and a string that need escapes. -/
def nestedJson : Json Empty :=
  .object [
    ([], .array []),
    ([10, 34], .object [([0], .array [.integer Int64.minValue, .null]), ([92], .object [])]),
    ([255], .array [.bool true, .string [31, 47, 92, 200], .integer Int64.maxValue])]

theorem parse_dump_nested :
    Json.parse (nestedJson.dump true 0) = .ok nestedJson ∧
    Json.parse (nestedJson.dump false 0) = .ok nestedJson := by
  have hplain : nestedJson.Plain := by
    refine .object (by decide) ?_
    rintro _ (_ | ⟨_, _ | ⟨_, _ | ⟨_, ⟨⟩⟩⟩⟩)
    · exact .array (by simp)
    · refine .object (by decide) ?_
      rintro _ (_ | ⟨_, _ | ⟨_, ⟨⟩⟩⟩)
      · exact .array (by simp [Json.Plain.integer, Json.Plain.null])
      · exact .object (by decide) (by simp)
    · exact .array (by simp [Json.Plain.bool, Json.Plain.string, Json.Plain.integer])
  exact ⟨parse_dump hplain true, parse_dump hplain false⟩

end BinaryCoin
