/-
  BinaryCoin — hash.cpp: digests and their hexadecimal text.

  SHA-256 and secp256k1 are OpenSSL's: they are the fields of `Crypto`, an
  arbitrary instance of which is in scope everywhere.  Hypotheses on them
  (collision freedom) are stated where they are used, on the byte strings that
  are hashed there.
-/
import BinaryCoin.Serialize

namespace BinaryCoin

open Cursor

/-- `std::array<std::uint8_t, 32>` -/
@[ext] structure Hash256 where
  bytes : Bytes
  size_eq : bytes.length = 32
  deriving DecidableEq

/-- `Hash256 h{}; std::copy(bytes.begin(), bytes.end(), h.begin());` -/
def Hash256.ofBytes (bytes : Bytes) : Hash256 := ⟨bytes.takeD 32 0, List.takeD_length ..⟩

@[simp] theorem Hash256.ofBytes_bytes (h : Hash256) : Hash256.ofBytes h.bytes = h := by
  ext1; simp only [ofBytes]; rw [List.takeD_eq_take _ (by simp [h.size_eq])]; simp [h.size_eq]

theorem Hash256.bytes_ofBytes {bytes : Bytes} (h : bytes.length = 32) :
    (Hash256.ofBytes bytes).bytes = bytes :=
  congrArg Hash256.bytes (Hash256.ofBytes_bytes ⟨bytes, h⟩)

/-- The library functions of OpenSSL that the node calls. -/
class Crypto where
  /-- `EVP_sha256` -/
  sha256 : Bytes → Hash256
  /-- key.cpp: `verify_ecdsa_der(message_hash, der_signature, public_key)` -/
  verifyEcdsaDer : Hash256 → Bytes → Bytes → Bool
  /-- key.cpp: `valid_compressed_public_key(public_key)` -/
  validCompressedPublicKey : Bytes → Bool

export Crypto (sha256 verifyEcdsaDer validCompressedPublicKey)

section
variable [Crypto]

def sha256d (data : Bytes) : Hash256 := sha256 (sha256 data).bytes

end

/-! ## Hexadecimal text -/

/-- The value of a hexadecimal character of either case. -/
def hexValue (character : UInt8) : Except Exn UInt8 :=
  if 48 ≤ character ∧ character ≤ 57 then .ok (character - 48)
  else if 97 ≤ character ∧ character ≤ 102 then .ok (character - 97 + 10)
  else if 65 ≤ character ∧ character ≤ 70 then .ok (character - 65 + 10)
  else .error (invalidArgument "Invalid hexadecimal character")

/-- The loop of `hex_to_bytes` over the pairs of characters. -/
def hexPairs : Str → Except Exn Bytes
  | a :: b :: rest => do
    let high ← hexValue a
    let low ← hexValue b
    let bytes ← hexPairs rest
    return ((high <<< 4) ||| low) :: bytes
  | _ => .ok []

def hexToBytes (hex : Str) : Except Exn Bytes :=
  if hex.length % 2 ≠ 0 then
    .error (invalidArgument "Hexadecimal input must contain an even number of characters")
  else hexPairs hex

/-- The lower-case digit of a value below 16. -/
def hexDigit (value : UInt8) : UInt8 := if value < 10 then 48 + value else 87 + value

def bytesToHex (bytes : Bytes) : Str :=
  bytes.flatMap fun byte : UInt8 => [hexDigit (byte >>> 4), hexDigit (byte &&& 15)]

def hashToDisplayHex (rawDigest : Hash256) : Str := bytesToHex rawDigest.bytes.reverse

def displayHexToRawDigest (displayHex : Str) : Except Exn Hash256 := do
  let bytes ← hexToBytes displayHex
  if bytes.length ≠ 32 then
    throw (invalidArgument "A 256-bit hash must contain exactly 64 hexadecimal characters")
  return Hash256.ofBytes bytes.reverse

def displayHexToWireBytes (displayHex : Str) : Except Exn Hash256 := displayHexToRawDigest displayHex

def wireBytesToDisplayHex (wireBytes : Hash256) : Str := hashToDisplayHex wireBytes

/-- `std::string(64, '0')` -/
def zeroHashHex : Str := List.replicate 64 48

/-! ## Round trips -/

theorem hexValue_hexDigit : ∀ v : UInt8, v < 16 → hexValue (hexDigit v) = .ok v := by decide +kernel

theorem hexPair_eq : ∀ b : UInt8, ((b >>> 4) <<< 4) ||| (b &&& 15) = b ∧
    b >>> 4 < 16 ∧ b &&& 15 < 16 := by decide +kernel

theorem hexPairs_bytesToHex (bytes : Bytes) : hexPairs (bytesToHex bytes) = .ok bytes := by
  induction bytes with
  | nil => rfl
  | cons b bs ih =>
    obtain ⟨hb, h₁, h₂⟩ := hexPair_eq b
    have ih' : hexPairs (bytesToHex bs) = .ok bs := ih
    simp only [bytesToHex, List.flatMap_cons, List.cons_append, List.nil_append] at ih' ⊢
    simp only [hexPairs, hexValue_hexDigit _ h₁, hexValue_hexDigit _ h₂, ih', hb, bind,
      Except.bind, pure, Except.pure]

@[simp] theorem length_bytesToHex (bytes : Bytes) :
    (bytesToHex bytes).length = 2 * bytes.length := by
  induction bytes with
  | nil => rfl
  | cons b bs ih =>
    simp only [bytesToHex, List.flatMap_cons, List.length_append, List.length_cons] at ih ⊢
    simp only [ih, List.length_nil]; omega

theorem hexToBytes_bytesToHex (bytes : Bytes) : hexToBytes (bytesToHex bytes) = .ok bytes := by
  rw [hexToBytes, if_neg (by simp), hexPairs_bytesToHex]

theorem displayHexToRawDigest_display (h : Hash256) :
    displayHexToRawDigest (hashToDisplayHex h) = .ok h := by
  rw [displayHexToRawDigest, hashToDisplayHex, hexToBytes_bytesToHex]
  simp [bind, Except.bind, pure, Except.pure, h.size_eq]

theorem hashToDisplayHex_inj {a b : Hash256} (h : hashToDisplayHex a = hashToDisplayHex b) :
    a = b := by
  have := displayHexToRawDigest_display a
  rw [h, displayHexToRawDigest_display] at this
  cases this; rfl

@[simp] theorem length_hashToDisplayHex (h : Hash256) : (hashToDisplayHex h).length = 64 := by
  simp [hashToDisplayHex, h.size_eq]

/-- The text of a digest as the node writes it: 64 lower-case digits. -/
def IsDisplayHex (text : Str) : Prop := ∃ h, text = hashToDisplayHex h

theorem IsDisplayHex.display (h : Hash256) : IsDisplayHex (hashToDisplayHex h) := ⟨h, rfl⟩

theorem IsDisplayHex.wire {text : Str} (ht : IsDisplayHex text) :
    ∃ w, displayHexToWireBytes text = .ok w ∧ wireBytesToDisplayHex w = text := by
  obtain ⟨h, rfl⟩ := ht
  exact ⟨h, displayHexToRawDigest_display h, rfl⟩

/-- A digit that `bytes_to_hex` writes. -/
def IsLowerHex (c : UInt8) : Prop := (48 ≤ c ∧ c ≤ 57) ∨ (97 ≤ c ∧ c ≤ 102)

instance (c : UInt8) : Decidable (IsLowerHex c) := inferInstanceAs (Decidable (_ ∨ _))

theorem hexDigit_hexValue : ∀ c : UInt8, IsLowerHex c →
    ∃ n : Fin 16, hexValue c = .ok (UInt8.ofNat n) ∧ hexDigit (UInt8.ofNat n) = c := by
  decide +kernel

theorem bytesToHex_lower {bytes : Bytes} {c : UInt8} (hc : c ∈ bytesToHex bytes) : IsLowerHex c := by
  have hdigits : ∀ byte : UInt8,
      IsLowerHex (hexDigit (byte >>> 4)) ∧ IsLowerHex (hexDigit (byte &&& 15)) := by
    decide +kernel
  obtain ⟨byte, -, hc⟩ := List.mem_flatMap.1 hc
  obtain ⟨hhigh, hlow⟩ := hdigits byte
  rcases List.mem_pair.1 hc with rfl | rfl
  · exact hhigh
  · exact hlow

theorem IsDisplayHex.lower {text : Str} (ht : IsDisplayHex text) {c : UInt8} (hc : c ∈ text) :
    IsLowerHex c := by
  obtain ⟨h, rfl⟩ := ht
  exact bytesToHex_lower hc

theorem hexDigits_pair : ∀ high low : Fin 16,
    bytesToHex [(UInt8.ofNat high <<< 4) ||| UInt8.ofNat low] =
      [hexDigit (UInt8.ofNat high), hexDigit (UInt8.ofNat low)] := by
  decide +kernel

/-- Lower-case text is the text of the bytes that it is read as. -/
theorem bytesToHex_hexPairs {text : Str} {bytes : Bytes} (heven : text.length % 2 = 0)
    (hlower : ∀ c ∈ text, IsLowerHex c) (h : hexPairs text = .ok bytes) : bytesToHex bytes = text := by
  induction text using hexPairs.induct generalizing bytes with
  | case1 a b rest ih =>
    obtain ⟨ha, hb, hrest⟩ : IsLowerHex a ∧ IsLowerHex b ∧ ∀ c ∈ rest, IsLowerHex c := by
      simpa using hlower
    obtain ⟨high, hhigh, rfl⟩ := hexDigit_hexValue a ha
    obtain ⟨low, hlow, rfl⟩ := hexDigit_hexValue b hb
    simp only [hexPairs, except_bind_ok, except_pure_ok] at h
    obtain ⟨_, h₁, _, h₂, tail, htail, rfl⟩ := h
    obtain rfl := Except.ok.inj (hhigh.symm.trans h₁)
    obtain rfl := Except.ok.inj (hlow.symm.trans h₂)
    have hpair := hexDigits_pair high low
    rw [List.length_cons, List.length_cons] at heven
    have htext := ih (by omega) hrest htail
    simp only [bytesToHex, List.flatMap_cons, List.flatMap_nil, List.append_nil] at hpair htext ⊢
    rw [hpair, htext]
    rfl
  | case2 text hne =>
    match text, hne with
    | [], _ => cases h; rfl
    | [_], _ => simp at heven
    | a :: b :: rest, hne => exact absurd rfl (hne a b rest)

theorem isDisplayHex_of_lower {text : Str} {w : Hash256} (h : displayHexToWireBytes text = .ok w)
    (hlower : ∀ c ∈ text, IsLowerHex c) : IsDisplayHex text := by
  simp only [displayHexToWireBytes, displayHexToRawDigest, except_bind_ok] at h
  obtain ⟨bytes, hbytes, h⟩ := h
  unfold hexToBytes at hbytes
  split_ifs at hbytes with heven
  have htext := bytesToHex_hexPairs (by omega) hlower hbytes
  have hlen : bytes.length = 32 := by
    by_contra hne
    simp only [hne, ne_eq, not_false_eq_true, if_true] at h
    obtain ⟨_, ⟨⟩, -⟩ := except_bind_ok.1 h
  refine ⟨⟨bytes.reverse, by simp [hlen]⟩, ?_⟩
  rw [hashToDisplayHex, List.reverse_reverse, htext]

theorem zeroHashHex_eq : zeroHashHex = hashToDisplayHex ⟨List.replicate 32 0, by simp⟩ := by
  decide

theorem IsDisplayHex.zero : IsDisplayHex zeroHashHex := ⟨_, zeroHashHex_eq⟩

/-- 32 bytes as a digest. -/
def readHash256 : Reader Hash256 := do return Hash256.ofBytes (← readBytes 32)

theorem readHash256_decodes : Decodes readHash256 Hash256.bytes fun _ => True := by
  intro s a r
  simp only [readHash256, (readBytes_decodes 32).bind_ok, run_pure_ok, id_eq, true_and]
  constructor
  · rintro ⟨bs, s₁, ⟨hl, rfl⟩, rfl, rfl⟩; rw [Hash256.bytes_ofBytes hl]
  · rintro rfl; exact ⟨_, _, ⟨a.size_eq, rfl⟩, Hash256.ofBytes_bytes a, rfl⟩

/-- A digest on the wire as its text. -/
def readHashHex : Reader Str := do return wireBytesToDisplayHex (← readHash256)

/-- The wire bytes of a digest's text. -/
def wireOf (text : Str) : Bytes :=
  match displayHexToWireBytes text with
  | .ok w => w.bytes
  | .error _ => []

theorem wireOf_display (h : Hash256) : wireOf (hashToDisplayHex h) = h.bytes := by
  simp only [wireOf, displayHexToWireBytes, displayHexToRawDigest_display]

theorem readHashHex_decodes : Decodes readHashHex wireOf IsDisplayHex := by
  intro s a r
  simp only [readHashHex, readHash256_decodes.bind_ok, run_pure_ok, true_and]
  constructor
  · rintro ⟨h, s₁, rfl, rfl, rfl⟩
    exact ⟨.display h, by rw [wireBytesToDisplayHex, wireOf_display]⟩
  · rintro ⟨⟨h, rfl⟩, rfl⟩
    exact ⟨h, r, by rw [wireOf_display], rfl, rfl⟩

end BinaryCoin
