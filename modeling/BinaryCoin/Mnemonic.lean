/-
  BinaryCoin — mnemonic.cpp: 256 bits of entropy as a phrase of 24 words.

  Each word stands for 11 bits; the last 8 of the 264 bits are a checksum.
-/
import BinaryCoin.Bip39Words
import BinaryCoin.Hash

namespace BinaryCoin

/-! ## Bits -/

/-- Bit `absolute` of the data; the first of a byte is its most significant. -/
def bitAt (data : Bytes) (absolute : ℕ) : UInt8 :=
  (data.getD (absolute / 8) 0 >>> UInt8.ofNat (7 - absolute % 8)) &&& 1

def setBitAt (data : Bytes) (bitPosition : ℕ) : Bytes :=
  data.modify (bitPosition / 8) (· ||| (1 <<< UInt8.ofNat (7 - bitPosition % 8)))

def readBit (data : Bytes) (start : ℕ) (index : UInt16) (bit : ℕ) : UInt16 :=
  (index <<< 1) ||| (bitAt data (start + bit)).toUInt16

/-- The loop over the bits of a word of the phrase. -/
def readIndex (data : Bytes) (wordNumber : ℕ) : UInt16 :=
  (List.range 11).foldl (readBit data (wordNumber * 11)) 0

/-- A bit of an index is written at the position, which moves on. -/
def writeBit (index : UInt16) (state : Bytes × ℕ) (bit : ℕ) : Bytes × ℕ :=
  (if (index >>> UInt16.ofNat bit) &&& 1 ≠ 0 then setBitAt state.1 state.2 else state.1,
    state.2 + 1)

/-- The loop over the bits of an index, from 10 down to 0. -/
def writeIndex (state : Bytes × ℕ) (index : UInt16) : Bytes × ℕ :=
  (List.range 11).reverse.foldl (writeBit index) state

/-! ## Phrases -/

/-- `std::isspace` -/
def isWhitespace (c : UInt8) : Bool := c = 32 ∨ (9 ≤ c ∧ c ≤ 13)

/-- The words that `stream >> word` reads. -/
def streamWords (text : Str) : List Str := (text.splitOnP isWhitespace).filter (· ≠ [])

def normalizeSpaces (input : Str) : Str := [32].intercalate (streamWords input)

/-- `std::tolower` -/
def toLower (c : UInt8) : UInt8 := if 65 ≤ c ∧ c ≤ 90 then c + 32 else c

def mnemonicWords (phrase : Str) : List Str :=
  (streamWords (normalizeSpaces phrase)).map (·.map toLower)

def wordIndex (word : Str) : Option UInt16 :=
  if word ∈ wordList then some (UInt16.ofNat (wordList.idxOf word)) else none

section
variable [Crypto]

/-- The entropy, and the first byte of its digest. -/
def withChecksum (entropy : Hash256) : Bytes := entropy.bytes ++ [(sha256 entropy.bytes).bytes.headD 0]

def entropyToMnemonic (entropy : Hash256) : Str :=
  [32].intercalate ((List.range 24).map fun wordNumber =>
    wordList.getD (readIndex (withChecksum entropy) wordNumber).toNat [])

/-- The loop over the words. -/
def writeWords (words : List Str) : Except Exn (Bytes × ℕ) :=
  words.foldlM
    (fun state word => do
      let index ← orThrow (wordIndex word)
        (invalidArgument ("Import phrase contains an unknown word: " ++
          String.ofList (word.map fun byte => Char.ofNat byte.toNat)))
      return writeIndex state index)
    (List.replicate 33 0, 0)

def mnemonicToEntropy (phrase : Str) : Except Exn Hash256 := do
  let words := mnemonicWords phrase
  throwIf (words.length ≠ 24) (invalidArgument "HD import requires exactly 24 words")
  let (data, _) ← writeWords words
  let entropy := Hash256.ofBytes data
  throwIf (data.getLastD 0 ≠ (sha256 entropy.bytes).bytes.headD 0)
    (invalidArgument "Import phrase checksum is invalid")
  return entropy

end

/-! ## Reading and writing bits -/

/-- A bit of the data, as a truth value. -/
def bit (data : Bytes) (i : ℕ) : Bool := (data.getD (i / 8) 0).toNat.testBit (7 - i % 8)

theorem toNat_bitAt (data : Bytes) (i : ℕ) : (bitAt data i).toNat = (bit data i).toNat := by
  have hmod : (UInt8.ofNat (7 - i % 8)).toNat % 8 = 7 - i % 8 := by
    rw [UInt8.toNat_ofNat']
    omega
  rw [bitAt, bit, UInt8.toNat_and, UInt8.toNat_shiftRight, hmod, Nat.toNat_testBit,
    Nat.shiftRight_eq_div_pow]
  exact Nat.and_one_is_mod _

theorem bit_zeros (n i : ℕ) : bit (List.replicate n 0) i = false := by
  have hzero : (List.replicate n (0 : UInt8)).getD (i / 8) 0 = 0 := by
    rw [List.getD_eq_getElem?_getD, List.getElem?_replicate]
    split_ifs <;> rfl
  rw [bit, hzero]
  exact Nat.zero_testBit _

theorem length_setBitAt (data : Bytes) (j : ℕ) : (setBitAt data j).length = data.length :=
  List.length_modify ..

theorem bit_setBitAt {data : Bytes} {j : ℕ} (hj : j < 8 * data.length) (i : ℕ) :
    bit (setBitAt data j) i = (bit data i || decide (i = j)) := by
  have hshift : ((1 : UInt8) <<< UInt8.ofNat (7 - j % 8)).toNat = 2 ^ (7 - j % 8) := by
    have hlt : 7 - j % 8 < 8 := by omega
    generalize 7 - j % 8 = r at hlt
    revert r
    decide
  have hj8 : j / 8 < data.length := by omega
  unfold bit setBitAt
  by_cases hij : j / 8 = i / 8
  · simp only [List.getD_eq_getElem?_getD, List.getElem?_modify, ← hij, if_true,
      List.getElem?_eq_getElem hj8, Option.map_eq_map, Option.map_some, Option.getD_some,
      UInt8.toNat_or, hshift, Nat.testBit_or, Nat.testBit_two_pow]
    congr 1
    exact decide_eq_decide.2 (by omega)
  · have hne : i ≠ j := by
      rintro rfl
      exact hij rfl
    simp [List.getD_eq_getElem?_getD, hij, hne]

/-- Byte strings of one length are determined by their bits. -/
theorem eq_of_bit {data data' : Bytes} (hlength : data.length = data'.length)
    (h : ∀ i < 8 * data.length, bit data i = bit data' i) : data = data' := by
  refine List.ext_getElem hlength fun k hk hk' => UInt8.toNat_inj.1 (Nat.eq_of_testBit_eq fun j => ?_)
  by_cases hj : j < 8
  · have hbit := h (8 * k + (7 - j)) (by omega)
    have hdiv : (8 * k + (7 - j)) / 8 = k := by omega
    have hmod : 7 - (8 * k + (7 - j)) % 8 = j := by omega
    simpa only [bit, hdiv, hmod, List.getD_eq_getElem?_getD, List.getElem?_eq_getElem hk,
      List.getElem?_eq_getElem hk', Option.getD_some] using hbit
  · have hlt : ∀ b : UInt8, b.toNat < 2 ^ j := fun b =>
      lt_of_lt_of_le b.toNat_lt (Nat.pow_le_pow_right (by norm_num) (by omega))
    rw [Nat.testBit_lt_two_pow (hlt _), Nat.testBit_lt_two_pow (hlt _)]

/-- The index that the first `m` bits of a word give. -/
theorem testBit_readBits (data : Bytes) (start : ℕ) {m : ℕ} (hm : m ≤ 11) :
    ((List.range m).foldl (readBit data start) 0).toNat < 2 ^ m ∧
    ∀ k < m, ((List.range m).foldl (readBit data start) 0).toNat.testBit (m - 1 - k) =
      bit data (start + k) := by
  induction m with
  | zero => exact ⟨Nat.zero_lt_one, nofun⟩
  | succ m ih =>
    obtain ⟨hlt, hbits⟩ := ih (by omega)
    rw [List.range_succ, List.foldl_append, List.foldl_cons, List.foldl_nil]
    generalize (List.range m).foldl (readBit data start) 0 = index at hlt hbits
    have hpow : 2 ^ (m + 1) ≤ 2 ^ 11 := Nat.pow_le_pow_right (by norm_num) hm
    have hdouble : (index <<< 1).toNat = 2 * index.toNat := by
      have hone : (1 : UInt16).toNat % 16 = 1 := rfl
      rw [UInt16.toNat_shiftLeft, hone, Nat.shiftLeft_eq]
      omega
    have hvalue : (readBit data start index m).toNat =
        2 * index.toNat + (bit data (start + m)).toNat := by
      rw [readBit, UInt16.toNat_or, hdouble, UInt8.toNat_toUInt16, toNat_bitAt]
      exact (Nat.two_pow_add_eq_or_of_lt (i := 1) (Bool.toNat_lt _) _).symm
    have hle := Bool.toNat_le (bit data (start + m))
    rw [hvalue]
    refine ⟨by omega, fun k hk => ?_⟩
    by_cases hkm : k = m
    · subst hkm
      simp only [Nat.add_sub_cancel, Nat.sub_self, Nat.testBit_zero]
      cases bit data (start + k) with
      | true => exact decide_eq_true (by simp)
      | false => exact decide_eq_false (by simp)
    · have heq : m + 1 - 1 - k = (m - 1 - k) + 1 := by omega
      have hhalf : (2 * index.toNat + (bit data (start + m)).toNat) / 2 = index.toNat := by omega
      rw [heq, Nat.testBit_succ, hhalf, hbits k (by omega)]

theorem readIndex_lt (data : Bytes) (n : ℕ) : (readIndex data n).toNat < 2048 :=
  (testBit_readBits data (n * 11) le_rfl).1

theorem testBit_readIndex (data : Bytes) (n : ℕ) {k : ℕ} (hk : k < 11) :
    (readIndex data n).toNat.testBit (10 - k) = bit data (n * 11 + k) :=
  (testBit_readBits data (n * 11) le_rfl).2 k hk

theorem length_writeBit (index : UInt16) (state : Bytes × ℕ) (k : ℕ) :
    (writeBit index state k).1.length = state.1.length := by
  unfold writeBit
  split_ifs
  · exact length_setBitAt ..
  · rfl

theorem bit_writeBit {index : UInt16} {state : Bytes × ℕ} {k : ℕ} (hk : k < 16)
    (h : state.2 < 8 * state.1.length) (i : ℕ) : bit (writeBit index state k).1 i =
      (bit state.1 i || (decide (i = state.2) && index.toNat.testBit k)) := by
  have hcond : (index >>> UInt16.ofNat k) &&& 1 ≠ 0 ↔ index.toNat.testBit k = true := by
    have hmod : k % 2 ^ 16 % 16 = k := by omega
    rw [Nat.testBit_eq_decide_div_mod_eq, decide_eq_true_eq, Ne, ← UInt16.toNat_inj,
      UInt16.toNat_and, UInt16.toNat_shiftRight, UInt16.toNat_ofNat', Nat.shiftRight_eq_div_pow,
      hmod, UInt16.toNat_one, Nat.and_one_is_mod, UInt16.toNat_zero]
    omega
  unfold writeBit
  by_cases hbit : index.toNat.testBit k = true
  · rw [if_pos (hcond.2 hbit), bit_setBitAt h, hbit, Bool.and_true]
  · rw [if_neg (fun h => hbit (hcond.1 h)), Bool.not_eq_true] at *
    rw [hbit, Bool.and_false, Bool.or_false]

/-- What is written for the last `m` bits of an index. -/
theorem foldl_writeBit (index : UInt16) {m : ℕ} (hm : m ≤ 11) {state : Bytes × ℕ}
    (hp : state.2 + m ≤ 8 * state.1.length) :
    ((List.range m).reverse.foldl (writeBit index) state).1.length = state.1.length ∧
    ((List.range m).reverse.foldl (writeBit index) state).2 = state.2 + m ∧
    ∀ i, bit ((List.range m).reverse.foldl (writeBit index) state).1 i = (bit state.1 i ||
      (decide (state.2 ≤ i ∧ i < state.2 + m) && index.toNat.testBit (m - 1 - (i - state.2)))) := by
  induction m generalizing state with
  | zero => exact ⟨rfl, rfl, fun i => by simp⟩
  | succ m ih =>
    rw [List.range_succ, List.reverse_append, List.reverse_singleton, List.singleton_append,
      List.foldl_cons]
    have hposition : (writeBit index state m).2 = state.2 + 1 := rfl
    have hroom : (writeBit index state m).2 + m ≤ 8 * (writeBit index state m).1.length := by
      rw [length_writeBit, hposition]
      omega
    obtain ⟨hlength, hend, hbits⟩ := ih (by omega) hroom
    rw [hposition] at hend hbits
    refine ⟨hlength.trans (length_writeBit ..), by omega, fun i => ?_⟩
    rw [hbits, bit_writeBit (by omega) (by omega), Bool.or_assoc]
    congr 1
    by_cases hi : i = state.2
    · subst hi
      simp
    · by_cases hin : state.2 ≤ i
      · have hk : m + 1 - 1 - (i - state.2) = m - 1 - (i - (state.2 + 1)) := by omega
        have hiff : (state.2 ≤ i ∧ i < state.2 + (m + 1)) ↔
            (state.2 + 1 ≤ i ∧ i < state.2 + 1 + m) := by omega
        rw [hk, decide_eq_decide.2 hiff, decide_eq_false hi, Bool.false_and, Bool.false_or]
      · have hout : ¬ (state.2 + 1 ≤ i ∧ i < state.2 + 1 + m) := by omega
        have hout' : ¬ (state.2 ≤ i ∧ i < state.2 + (m + 1)) := by omega
        rw [decide_eq_false hi, decide_eq_false hout, decide_eq_false hout']
        rfl

/-! ## Words of a phrase -/

theorem isWhitespace_false {c : UInt8} (h : 97 ≤ c ∧ c ≤ 122) : isWhitespace c = false := by
  unfold isWhitespace
  have := UInt8.le_iff_toNat_le.1 h.1
  rw [decide_eq_false_iff_not, not_or]
  refine ⟨?_, fun h => ?_⟩
  · rintro rfl
    revert this
    decide
  · have := UInt8.le_iff_toNat_le.1 h.2
    simp at *
    omega

theorem isLowerWord_iff {word : Str} :
    isLowerWord word ↔ word ≠ [] ∧ ∀ c ∈ word, 97 ≤ c ∧ c ≤ 122 := by
  simp [isLowerWord]

/-- A word as `stream >> word` reads it. -/
def IsWord (word : Str) : Prop := word ≠ [] ∧ ∀ c ∈ word, isWhitespace c = false

theorem isWord_of_lower {word : Str} (h : isLowerWord word) : IsWord word :=
  ⟨(isLowerWord_iff.1 h).1, fun c hc => isWhitespace_false ((isLowerWord_iff.1 h).2 c hc)⟩

/-- Words with single spaces are read back. -/
theorem streamWords_intercalate {words : List Str} (h : ∀ word ∈ words, IsWord word) :
    streamWords ([32].intercalate words) = words := by
  have hsplit : ∀ {words : List Str}, words ≠ [] → (∀ word ∈ words, IsWord word) →
      ([32].intercalate words).splitOnP isWhitespace = words := by
    intro words hne h
    induction words with
    | nil => exact absurd rfl hne
    | cons word words ih =>
      obtain ⟨⟨-, hletters⟩, hwords⟩ := List.forall_mem_cons.1 h
      cases words with
      | nil =>
        rw [List.intercalate_singleton]
        exact List.splitOnP_eq_singleton hletters
      | cons word' words =>
        rw [List.intercalate_cons_of_ne_nil (by simp), List.append_assoc, List.singleton_append,
          List.splitOnP_append_cons_of_forall_mem hletters 32 rfl, ih (by simp) hwords]
  have hne : words.filter (· ≠ []) = words :=
    List.filter_eq_self.2 fun word hword => by simpa using (h word hword).1
  unfold streamWords
  by_cases hnil : words = []
  · subst hnil
    rfl
  · rw [hsplit hnil h, hne]

/-- The parts between separators contain none. -/
theorem notMem_of_mem_splitOnP {α : Type} {p : α → Bool} {as part : List α}
    (h : part ∈ as.splitOnP p) : ∀ a ∈ part, p a = false := by
  induction as generalizing part with
  | nil =>
    rw [List.splitOnP_nil, List.mem_singleton] at h
    subst h
    exact nofun
  | cons a as ih =>
    rw [List.splitOnP_cons_eq_if_modifyHead] at h
    split_ifs at h with ha
    · rcases List.mem_cons.1 h with rfl | h
      · exact nofun
      · exact ih h
    · obtain ⟨first, rest, hsplit⟩ := List.exists_cons_of_ne_nil (List.splitOnP_ne_nil p as)
      rw [hsplit, List.modifyHead_cons] at h
      rcases List.mem_cons.1 h with rfl | h
      · intro b hb
        rcases List.mem_cons.1 hb with rfl | hb
        · exact Bool.eq_false_iff.2 ha
        · exact ih (hsplit ▸ List.mem_cons_self) b hb
      · exact ih (hsplit ▸ List.mem_cons_of_mem first h)

theorem isWord_of_mem {text word : Str} (h : word ∈ streamWords text) : IsWord word := by
  obtain ⟨hmem, hne⟩ := List.mem_filter.1 h
  exact ⟨by simpa using hne, notMem_of_mem_splitOnP hmem⟩

theorem mnemonicWords_eq (phrase : Str) :
    mnemonicWords phrase = (streamWords phrase).map (·.map toLower) := by
  rw [mnemonicWords, normalizeSpaces, streamWords_intercalate fun word => isWord_of_mem]

theorem map_toLower {word : Str} (h : isLowerWord word) : word.map toLower = word := by
  refine (List.map_congr_left fun c hc => ?_).trans (List.map_id _)
  have hc := (isLowerWord_iff.1 h).2 c hc
  refine if_neg fun hupper => ?_
  have := UInt8.le_iff_toNat_le.1 hc.1
  have := UInt8.le_iff_toNat_le.1 hupper.2
  simp at *
  omega

theorem mnemonicWords_intercalate {words : List Str} (h : ∀ word ∈ words, isLowerWord word) :
    mnemonicWords ([32].intercalate words) = words := by
  rw [mnemonicWords_eq, streamWords_intercalate fun word hword => isWord_of_lower (h word hword)]
  refine (List.map_congr_left fun word hword => ?_).trans (List.map_id _)
  exact map_toLower (h word hword)

theorem wordIndex_getD {index : UInt16} (h : index.toNat < 2048) :
    wordIndex (wordList.getD index.toNat []) = some index := by
  have hlt : index.toNat < wordList.length := length_wordList ▸ h
  rw [List.getD_eq_getElem _ _ hlt, wordIndex, if_pos (List.getElem_mem _),
    wordList_nodup.idxOf_getElem, UInt16.ofNat_toNat]

/-! ## The round trip -/

/-- The words of the first `n` indices. -/
theorem writeWords_readIndex (source : Bytes) {n : ℕ} (hn : n ≤ 24) :
    ∃ data, writeWords ((List.range n).map fun i => wordList.getD (readIndex source i).toNat []) =
        .ok (data, 11 * n) ∧
      data.length = 33 ∧ ∀ i, bit data i = (decide (i < 11 * n) && bit source i) := by
  induction n with
  | zero =>
    refine ⟨List.replicate 33 0, rfl, rfl, fun i => ?_⟩
    rw [bit_zeros, Nat.mul_zero]
    rfl
  | succ n ih =>
    obtain ⟨data, hdata, hlength, hbits⟩ := ih (by omega)
    obtain ⟨hlength', hend, hbits'⟩ := foldl_writeBit (readIndex source n) le_rfl
      (show (data, 11 * n).2 + 11 ≤ 8 * (data, 11 * n).1.length by rw [hlength]; omega)
    refine ⟨(writeIndex (data, 11 * n) (readIndex source n)).1, ?_, hlength'.trans hlength, fun i => ?_⟩
    · unfold writeWords at hdata ⊢
      rw [List.range_succ, List.map_append, List.foldlM_append, hdata]
      simp only [List.map_cons, List.map_nil, List.foldlM_cons, List.foldlM_nil,
        wordIndex_getD (readIndex_lt source n)]
      exact congrArg Except.ok (Prod.ext rfl hend)
    · refine (hbits' i).trans ?_
      rw [hbits]
      by_cases hi : 11 * n ≤ i ∧ i < 11 * n + 11
      · have hk : 11 - 1 - (i - 11 * n) = 10 - (i - 11 * n) := by omega
        have hbit := testBit_readIndex source n (show i - 11 * n < 11 by omega)
        rw [show n * 11 + (i - 11 * n) = i by omega] at hbit
        rw [hk, hbit, decide_eq_true hi, decide_eq_false (by omega), decide_eq_true (by omega)]
        rfl
      · rw [decide_eq_false hi, Bool.false_and, Bool.or_false]
        congr 1
        exact decide_eq_decide.2 (by omega)

section
variable [Crypto]

theorem length_withChecksum (entropy : Hash256) : (withChecksum entropy).length = 33 := by
  rw [withChecksum, List.length_append, entropy.size_eq]
  rfl

theorem mnemonicToEntropy_entropyToMnemonic (entropy : Hash256) :
    mnemonicToEntropy (entropyToMnemonic entropy) = .ok entropy := by
  obtain ⟨data, hdata, hlength, hbits⟩ := writeWords_readIndex (withChecksum entropy) le_rfl
  have heq : data = withChecksum entropy := by
    refine eq_of_bit (hlength.trans (length_withChecksum entropy).symm) fun i hi => ?_
    rw [hbits, decide_eq_true (by omega), Bool.true_and]
  subst heq
  have hwords : mnemonicWords (entropyToMnemonic entropy) = (List.range 24).map fun i =>
      wordList.getD (readIndex (withChecksum entropy) i).toNat [] := by
    refine mnemonicWords_intercalate fun word hword => ?_
    obtain ⟨i, -, rfl⟩ := List.mem_map.1 hword
    have hlt : (readIndex (withChecksum entropy) i).toNat < wordList.length :=
      length_wordList ▸ readIndex_lt ..
    rw [List.getD_eq_getElem _ _ hlt]
    exact wordList_lower _ (List.getElem_mem _)
  have hentropy : Hash256.ofBytes (withChecksum entropy) = entropy := by
    ext1
    show (withChecksum entropy).takeD 32 0 = entropy.bytes
    rw [List.takeD_eq_take _ (by rw [length_withChecksum]; norm_num), withChecksum,
      List.take_left' entropy.size_eq]
  have hlast : (withChecksum entropy).getLastD 0 = (sha256 entropy.bytes).bytes.headD 0 := by
    rw [withChecksum, List.getLastD_concat]
  rw [mnemonicToEntropy, hwords]
  refine except_bind_ok.2 ⟨(), throwIf_ok.2 (by simp), ?_⟩
  refine except_bind_ok.2 ⟨_, hdata, ?_⟩
  show (throwIf ((withChecksum entropy).getLastD 0 ≠
    (sha256 (Hash256.ofBytes (withChecksum entropy)).bytes).bytes.headD 0) _ >>= fun _ =>
      pure (Hash256.ofBytes (withChecksum entropy))) = _
  rw [hentropy]
  exact except_bind_ok.2 ⟨(), throwIf_ok.2 (by rw [hlast]; simp), rfl⟩

end

end BinaryCoin
