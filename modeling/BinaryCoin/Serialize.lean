/-
  BinaryCoin — serialize.cpp: little-endian integers, CompactSize and byte
  ranges.

  The source reads from a span at an offset; here a `Reader` is a computation
  on the bytes from the offset on, so `offset == size` is an empty rest.  Each
  reader comes with its law (`Cursor.Decodes`): it accepts exactly what the
  writer of the same type produces.
-/
import BinaryCoin.Exn
import BinaryCoin.Lib.Cursor
import BinaryCoin.Lib.LittleEndian

namespace BinaryCoin

open Cursor LittleEndian

/-- A computation reading a span from the current offset on. -/
abbrev Reader := EStateM Exn Bytes

/-! ## Writers -/

def appendU32Le (output : Bytes) (value : UInt32) : Bytes := output ++ leBytes 4 value.toNat

def appendI32Le (output : Bytes) (value : Int32) : Bytes := appendU32Le output value.toUInt32

def appendU64Le (output : Bytes) (value : UInt64) : Bytes := output ++ leBytes 8 value.toNat

def appendI64Le (output : Bytes) (value : Int64) : Bytes := appendU64Le output value.toUInt64

/-- The bytes of `append_compact_size`. -/
def compactSize (value : UInt64) : Bytes :=
  if value < 253 then [value.toUInt8]
  else if value.toNat ≤ 0xffff then [253, value.toUInt8, (value >>> 8).toUInt8]
  else if value.toNat ≤ 0xffffffff then 254 :: leBytes 4 value.toNat
  else 255 :: leBytes 8 value.toNat

def appendCompactSize (output : Bytes) (value : UInt64) : Bytes := output ++ compactSize value

/-! ## Readers -/

def requireAvailable (count : ℕ) : Reader Unit := do
  let input ← get
  throwIf (count > input.length) (runtimeError "Unexpected end of serialized data")

def readBytes (count : ℕ) : Reader Bytes := do
  requireAvailable count
  let input ← get
  set (input.drop count)
  return input.take count

def readU32Le : Reader UInt32 := do return UInt32.ofNat (ofLe (← readBytes 4))

def readI32Le : Reader Int32 := do return (← readU32Le).toInt32

def readU64Le : Reader UInt64 := do return UInt64.ofNat (ofLe (← readBytes 8))

def readI64Le : Reader Int64 := do return (← readU64Le).toInt64

def readU8 : Reader UInt8 := do return (← readBytes 1).headD 0

def readCompactSize : Reader UInt64 := do
  let marker ← readU8
  if marker < 253 then return marker.toUInt64
  if marker = 253 then
    let value := UInt64.ofNat (ofLe (← readBytes 2))
    throwIf (value < 253) (runtimeError "Non-canonical CompactSize value")
    return value
  if marker = 254 then
    let value := (← readU32Le).toUInt64
    throwIf (value.toNat ≤ 0xffff) (runtimeError "Non-canonical CompactSize value")
    return value
  let value ← readU64Le
  throwIf (value.toNat ≤ 0xffffffff) (runtimeError "Non-canonical CompactSize value")
  return value

/-- The span is used up (`offset == bytes.size()`), else the given error. -/
def requireEnd (what : String) : Reader Unit := do
  throwIf ((← get) ≠ []) (runtimeError what)

/-- A whole span read by `p`. -/
def Reader.parse {α : Type} (p : Reader α) (bytes : Bytes) : Except Exn α :=
  match p.run bytes with
  | .ok a _ => .ok a
  | .error e _ => .error e

/-! ## Laws -/

theorem readBytes_decodes (count : ℕ) : Decodes (readBytes count) id (·.length = count) := by
  intro s a r
  have hrun : (readBytes count).run s = if count > s.length then
      .error (runtimeError "Unexpected end of serialized data") s
      else .ok (s.take count) (s.drop count) := by
    simp only [readBytes, requireAvailable, throwIf, EStateM.run_bind, EStateM.run_get]
    split_ifs <;> rfl
  rw [hrun, id_eq]
  split_ifs with h
  · simp only [false_iff, not_and]
    rintro hl rfl; simp at h; omega
  · constructor
    · intro hr; cases hr
      exact ⟨by simp; omega, (List.take_append_drop ..).symm⟩
    · rintro ⟨rfl, rfl⟩; simp

/-- A reader of `k` bytes as a number, decoded by `of`. -/
theorem le_decodes {α : Type} (k : ℕ) (of : ℕ → α) (num : α → ℕ) (hlt : ∀ a, num a < 256 ^ k)
    (hof : ∀ a, of (num a) = a) (hinv : ∀ n < 256 ^ k, num (of n) = n) :
    Decodes (do return of (ofLe (← readBytes k)) : Reader α) (fun a => leBytes k (num a))
      fun _ => True := by
  intro s a r
  simp only [(readBytes_decodes k).bind_ok, run_pure_ok, id_eq, true_and]
  constructor
  · rintro ⟨bs, s₁, ⟨rfl, rfl⟩, rfl, rfl⟩
    rw [hinv _ (ofLe_lt bs), leBytes_ofLe]
  · rintro rfl
    exact ⟨_, _, ⟨length_leBytes .., rfl⟩, by rw [ofLe_leBytes (hlt a), hof], rfl⟩

theorem readU32Le_decodes :
    Decodes readU32Le (fun v => leBytes 4 v.toNat) fun _ => True :=
  le_decodes 4 UInt32.ofNat UInt32.toNat (fun a => a.toNat_lt) (fun _ => UInt32.ofNat_toNat)
    fun _ hn => UInt32.toNat_ofNat_of_lt' hn

theorem readU64Le_decodes :
    Decodes readU64Le (fun v => leBytes 8 v.toNat) fun _ => True :=
  le_decodes 8 UInt64.ofNat UInt64.toNat (fun a => a.toNat_lt) (fun _ => UInt64.ofNat_toNat)
    fun _ hn => UInt64.toNat_ofNat_of_lt' hn

theorem readI32Le_decodes :
    Decodes readI32Le (fun v => leBytes 4 v.toUInt32.toNat) fun _ => True := by
  rw [readI32Le, bind_pure_comp]
  exact readU32Le_decodes.map (fun _ _ => ⟨trivial, by simp⟩) fun _ _ => ⟨trivial, by simp⟩

theorem readI64Le_decodes :
    Decodes readI64Le (fun v => leBytes 8 v.toUInt64.toNat) fun _ => True := by
  rw [readI64Le, bind_pure_comp]
  exact readU64Le_decodes.map (fun _ _ => ⟨trivial, by simp⟩) fun _ _ => ⟨trivial, by simp⟩

theorem readU8_decodes : Decodes readU8 (fun b => [b]) fun _ => True := by
  intro s a r
  simp only [readU8, (readBytes_decodes 1).bind_ok, run_pure_ok, id_eq, true_and]
  constructor
  · rintro ⟨bs, s₁, ⟨hl, rfl⟩, rfl, rfl⟩
    obtain ⟨b, rfl⟩ := List.length_eq_one_iff.1 hl
    rfl
  · rintro rfl; exact ⟨_, _, ⟨rfl, rfl⟩, rfl, rfl⟩

/-- The wide forms of a CompactSize: a marker, then `k` bytes that must not fit a shorter
    form. -/
theorem compactSize_wide {value : UInt64} :
    (¬ value.toNat < 253 → value.toNat ≤ 0xffff → compactSize value = 253 :: leBytes 2 value.toNat) ∧
    (¬ value.toNat ≤ 0xffff → value.toNat ≤ 0xffffffff →
      compactSize value = 254 :: leBytes 4 value.toNat) ∧
    (¬ value.toNat ≤ 0xffffffff → compactSize value = 255 :: leBytes 8 value.toNat) := by
  have hlt : value < 253 ↔ value.toNat < 253 := UInt64.lt_iff_toNat_lt
  refine ⟨fun h₁ h₂ => ?_, fun h₂ h₃ => ?_, fun h₃ => ?_⟩
  · have h8 : (value >>> 8).toUInt8 = UInt8.ofNat (value.toNat / 256) := by
      apply UInt8.toNat_inj.1
      simp [UInt64.toNat_shiftRight, Nat.shiftRight_eq_div_pow]
    have h0 : value.toUInt8 = UInt8.ofNat value.toNat := by
      apply UInt8.toNat_inj.1; simp
    simp only [compactSize, hlt, h₁, h₂, if_true, if_false, leBytes, h8, h0]
  · simp only [compactSize, hlt, show ¬ value.toNat < 253 by omega, h₂, h₃, if_true, if_false]
  · simp only [compactSize, hlt, show ¬ value.toNat < 253 by omega,
      show ¬ value.toNat ≤ 0xffff by omega, h₃, if_false]

theorem readCompactSize_decodes : Decodes readCompactSize compactSize fun _ => True := by
  intro s a r
  simp only [readCompactSize, readU8_decodes.bind_ok, true_and]
  constructor
  · rintro ⟨marker, s₁, rfl, h⟩
    split_ifs at h with h₁ h₂ h₃
    · obtain ⟨rfl, rfl⟩ := run_pure_ok.1 h
      have hm : marker.toUInt64 < 253 := by
        rw [UInt64.lt_iff_toNat_lt]; simpa using UInt8.lt_iff_toNat_lt.1 h₁
      simp [compactSize, hm]
    · subst h₂
      rw [(readBytes_decodes 2).bind_ok] at h
      obtain ⟨bs, s₂, ⟨hl, rfl⟩, h⟩ := h
      have hb : ofLe bs < 256 ^ 2 := hl ▸ ofLe_lt bs
      have hv : (UInt64.ofNat (ofLe bs)).toNat = ofLe bs :=
        UInt64.toNat_ofNat_of_lt' (by norm_num [UInt64.size]; omega)
      obtain ⟨h₄, h⟩ := throwIf_bind_run_ok.1 h
      obtain ⟨rfl, rfl⟩ := run_pure_ok.1 h
      rw [UInt64.lt_iff_toNat_lt] at h₄
      rw [compactSize_wide.1 h₄ (by rw [hv]; omega), hv, ← hl, leBytes_ofLe]
      rfl
    · subst h₃
      rw [readU32Le_decodes.bind_ok] at h
      obtain ⟨v, s₂, ⟨-, rfl⟩, h⟩ := h
      have hb := v.toNat_lt
      have hv : v.toUInt64.toNat = v.toNat := by simp
      obtain ⟨h₄, h⟩ := throwIf_bind_run_ok.1 h
      obtain ⟨rfl, rfl⟩ := run_pure_ok.1 h
      rw [compactSize_wide.2.1 h₄ (by rw [hv]; omega), hv]
      rfl
    · rw [readU64Le_decodes.bind_ok] at h
      obtain ⟨v, s₂, ⟨-, rfl⟩, h⟩ := h
      have hm : marker = 255 := by
        apply UInt8.toNat_inj.1
        have h1 : ¬ marker.toNat < 253 := fun h => h₁ (UInt8.lt_iff_toNat_lt.2 h)
        have h2 : marker.toNat ≠ 253 := fun h => h₂ (UInt8.toNat_inj.1 h)
        have h3 : marker.toNat ≠ 254 := fun h => h₃ (UInt8.toNat_inj.1 h)
        have := marker.toNat_lt
        show marker.toNat = 255
        omega
      obtain ⟨h₄, h⟩ := throwIf_bind_run_ok.1 h
      obtain ⟨rfl, rfl⟩ := run_pure_ok.1 h
      rw [compactSize_wide.2.2 h₄, hm]
      rfl
  · rintro rfl
    have hlt : a < 253 ↔ a.toNat < 253 := UInt64.lt_iff_toNat_lt
    by_cases h₁ : a.toNat < 253
    · refine ⟨a.toUInt8, r, by simp [compactSize, hlt, h₁], ?_⟩
      have hb : a.toUInt8.toNat = a.toNat := by simp; omega
      have hm : a.toUInt8 < 253 := by rw [UInt8.lt_iff_toNat_lt, hb]; exact h₁
      have ha : a.toUInt8.toUInt64 = a := by
        apply UInt64.toNat_inj.1; simp; omega
      rw [if_pos hm, ha]; rfl
    by_cases h₂ : a.toNat ≤ 0xffff
    · refine ⟨253, leBytes 2 a.toNat ++ r, by rw [compactSize_wide.1 h₁ h₂]; rfl, ?_⟩
      rw [if_neg (by decide), if_pos rfl, (readBytes_decodes 2).bind_ok]
      refine ⟨_, _, ⟨length_leBytes .., rfl⟩, ?_⟩
      rw [ofLe_leBytes (by omega), UInt64.ofNat_toNat, throwIf_bind_run_ok]
      exact ⟨hlt.not.2 h₁, rfl⟩
    by_cases h₃ : a.toNat ≤ 0xffffffff
    · refine ⟨254, leBytes 4 a.toNat ++ r, by rw [compactSize_wide.2.1 h₂ h₃]; rfl, ?_⟩
      have ha : a.toUInt32.toNat = a.toNat := by simp; omega
      have ha' : a.toUInt32.toUInt64 = a := by
        apply UInt64.toNat_inj.1; simp; omega
      rw [if_neg (by decide), if_neg (by decide), if_pos rfl, readU32Le_decodes.bind_ok]
      refine ⟨a.toUInt32, r, ⟨trivial, by rw [ha]⟩, ?_⟩
      rw [ha', throwIf_bind_run_ok]
      exact ⟨h₂, rfl⟩
    · refine ⟨255, leBytes 8 a.toNat ++ r, by rw [compactSize_wide.2.2 h₃]; rfl, ?_⟩
      rw [if_neg (by decide), if_neg (by decide), if_neg (by decide), readU64Le_decodes.bind_ok]
      refine ⟨a, r, ⟨trivial, rfl⟩, ?_⟩
      rw [throwIf_bind_run_ok]
      exact ⟨h₃, rfl⟩

/-- A count of at most `limit` (else `what`), then that many values. -/
def readCounted {α : Type} (limit : ℕ) (what : String) (p : Reader α) : Reader (List α) := do
  let count ← readCompactSize
  throwIf (count.toNat > limit) (runtimeError what)
  many p count.toNat

/-- A size of at most `limit` (else `what`), then that many bytes. -/
def readSized (limit : ℕ) (what : String) : Reader Bytes := do
  let size ← readCompactSize
  throwIf (size.toNat > limit) (runtimeError what)
  readBytes size.toNat

/-- The CompactSize of a container's size. -/
def compactLength {α : Type} (as : List α) : Bytes := compactSize (UInt64.ofNat as.length)

/-- A CompactSize checked against `limit`, then a reader of that many things. -/
theorem sized_decodes {α : Type} {limit : ℕ} (hlim : limit < 2 ^ 64) (what : String)
    {q : ℕ → Reader (List α)} {enc : List α → Bytes} {ok : List α → Prop}
    (hq : ∀ n, Decodes (q n) enc fun as => as.length = n ∧ ok as) :
    Decodes (do
        let size ← readCompactSize
        throwIf (size.toNat > limit) (runtimeError what)
        q size.toNat)
      (fun as => compactLength as ++ enc as) fun as => as.length ≤ limit ∧ ok as := by
  intro s as r
  simp only [readCompactSize_decodes.bind_ok, true_and]
  constructor
  · rintro ⟨n, s₁, rfl, h⟩
    obtain ⟨hn, h⟩ := throwIf_bind_run_ok.1 h
    obtain ⟨⟨hl, has⟩, rfl⟩ := (hq _).sound h
    refine ⟨⟨by omega, has⟩, ?_⟩
    rw [compactLength, hl, UInt64.ofNat_toNat, List.append_assoc]
  · rintro ⟨⟨hl, has⟩, rfl⟩
    have hn : (UInt64.ofNat as.length).toNat = as.length :=
      UInt64.toNat_ofNat_of_lt' (by norm_num [UInt64.size]; omega)
    refine ⟨UInt64.ofNat as.length, enc as ++ r, by rw [compactLength, List.append_assoc], ?_⟩
    rw [throwIf_bind_run_ok, hn]
    exact ⟨by omega, (hq _).encode ⟨rfl, has⟩ r⟩

theorem readCounted_decodes {α : Type} {limit : ℕ} (hlim : limit < 2 ^ 64) (what : String)
    {p : Reader α} {enc : α → Bytes} {ok : α → Prop} (hp : Decodes p enc ok) :
    Decodes (readCounted limit what p) (fun as => compactLength as ++ as.flatMap enc)
      fun as => as.length ≤ limit ∧ ∀ a ∈ as, ok a :=
  sized_decodes hlim what hp.many

theorem readSized_decodes {limit : ℕ} (hlim : limit < 2 ^ 64) (what : String) :
    Decodes (readSized limit what) (fun bs => compactLength bs ++ bs) (·.length ≤ limit) := by
  have hq : ∀ n, Decodes (readBytes n) id fun as => as.length = n ∧ True := fun n => by
    simpa using readBytes_decodes n
  have := sized_decodes hlim what hq
  simp only [and_true, id_eq] at this
  exact this

theorem requireEnd_ok {what : String} {s r : Bytes} {u : Unit} :
    (requireEnd what).run s = .ok u r ↔ s = [] ∧ r = [] := by
  simp only [requireEnd, EStateM.run_bind, EStateM.run_get, throwIf]
  by_cases h : s = []
  · subst h; simp [eq_comm]
  · simp [h]

theorem Reader.parse_ok {α : Type} {p : Reader α} {bytes : Bytes} {a : α} :
    p.parse bytes = .ok a ↔ ∃ r, p.run bytes = .ok a r := by
  unfold Reader.parse
  cases p.run bytes <;> simp

end BinaryCoin
