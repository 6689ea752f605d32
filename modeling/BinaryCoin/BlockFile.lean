/-
  BinaryCoin — storage.cpp: reading the file of block records.

  The scan goes from record to record.  A damaged record is passed over by the
  length in its header; of several records with one hash the first counts.
-/
import BinaryCoin.ChainstateText

namespace BinaryCoin

open Cursor Std

/-- The contents of the block file: a file size is a `std::uint64_t`. -/
structure BlockFile where
  bytes : Bytes
  size_lt : bytes.length < 2 ^ 64

/-- `pread_all`: as many bytes from an offset on. -/
def preadAll (file : Bytes) (offset size : ℕ) : Except Exn Bytes := do
  let bytes := (file.drop offset).take size
  throwIf (bytes.length < size) (runtimeError "Truncated block record")
  return bytes

section
variable [Crypto]

def readRecordAt (file : Bytes) (offset : ℕ) (expectedPayloadSize : Option UInt64) :
    Except Exn StoredBlock := do
  let header ← preadAll file offset blockRecordHeaderSize
  throwIf (header.take 4 ≠ blockRecordMagic) (runtimeError "Invalid block-record magic")
  Reader.parse (do
    let version ← readU32Le
    throwIf (version ≠ blockRecordVersion) (runtimeError "Unsupported block-record version")
    let payloadSize ← readU64Le
    throwIf (payloadSize.toNat > maxBlockRecordSize)
      (runtimeError "Block-record payload exceeds limit")
    throwIf (expectedPayloadSize.any (· ≠ payloadSize))
      (runtimeError "Block-index payload size mismatch")
    let checksum ← readBytes 32
    let payload ← preadAll file (offset + blockRecordHeaderSize) payloadSize.toNat
    throwIf ((sha256d payload).bytes ≠ checksum) (runtimeError "Block-record checksum mismatch")
    deserializeStoredBlock payload) (header.drop 4)

/-- The payload size that a header announces; none where the scan stops. -/
def announcedSize (remaining : ℕ) (header : Bytes) : Except Exn (Option UInt64) :=
  if header.take 4 ≠ blockRecordMagic then .ok none
  else Reader.parse (do
    let version ← readU32Le
    if version ≠ blockRecordVersion then return none
    let payloadSize ← readU64Le
    if payloadSize.toNat > maxBlockRecordSize ∨
        blockRecordHeaderSize + payloadSize.toNat > remaining then return none
    return some payloadSize) (header.drop 4)

/-- The `try` block of the loop: a record that cannot be read is passed over. -/
def addRecord (file : Bytes) (offset : ℕ) (payloadSize : UInt64)
    (catalog : ExtTreeMap Str IndexEntry) : ExtTreeMap Str IndexEntry :=
  match (do
    let block ← readRecordAt file offset (some payloadSize)
    let hash ← block.hashHex
    return (⟨block.height, UInt64.ofNat offset, payloadSize, hash⟩ : IndexEntry)) with
  | .ok entry => catalog.insertIfNew entry.hash entry
  | .error _ => catalog

/-- The loop of `scan_catalog`. -/
def scanLoop (file : Bytes) (offset : ℕ) (catalog : ExtTreeMap Str IndexEntry) :
    Except Exn (ExtTreeMap Str IndexEntry) :=
  if offset < file.length then
    -- an interrupted tail is ignored
    if file.length - offset < blockRecordHeaderSize then .ok catalog
    else
      match preadAll file offset blockRecordHeaderSize >>= announcedSize (file.length - offset) with
      | .error e => .error e
      | .ok none => .ok catalog
      | .ok (some payloadSize) =>
        scanLoop file (offset + (blockRecordHeaderSize + payloadSize.toNat))
          (addRecord file offset payloadSize catalog)
  else .ok catalog
termination_by file.length - offset
decreasing_by
  have hpos : 0 < blockRecordHeaderSize := by decide
  omega

/-- `scan_catalog`, on a file that is there or not. -/
def scanCatalog (file : Option BlockFile) : Except Exn (ExtTreeMap Str IndexEntry) :=
  match file with
  | none => .ok ∅
  | some file => scanLoop file.bytes 0 ∅

def scanAllBlocks (file : Option BlockFile) : Except Exn (List StoredBlock) := do
  let catalog ← scanCatalog file
  match file with
  | none => return []
  | some file =>
    catalog.values.mapM fun entry =>
      readRecordAt file.bytes entry.offset.toNat (some entry.payloadSize)

/-! ## The scan does not throw -/

omit [Crypto] in
theorem preadAll_ok {file bytes : Bytes} {offset size : ℕ} :
    preadAll file offset size = .ok bytes ↔ bytes.length = size ∧ bytes = (file.drop offset).take size := by
  simp only [preadAll, except_bind_ok, throwIf_ok, except_pure_ok, exists_const, Nat.not_lt]
  constructor
  · rintro ⟨hle, rfl⟩
    exact ⟨Nat.le_antisymm (List.length_take_le _ _) hle, rfl⟩
  · rintro ⟨hlength, rfl⟩
    exact ⟨hlength.ge, rfl⟩

omit [Crypto] in
theorem preadAll_within {file : Bytes} {offset size : ℕ} (h : size ≤ file.length - offset) :
    preadAll file offset size = .ok ((file.drop offset).take size) := by
  refine preadAll_ok.2 ⟨?_, rfl⟩
  rw [List.length_take, List.length_drop]
  omega

omit [Crypto] in
theorem readBytes_run {count : ℕ} {s : Bytes} (h : count ≤ s.length) :
    (readBytes count).run s = .ok (s.take count) (s.drop count) :=
  (readBytes_decodes count _ _ _).2 ⟨List.length_take_of_le h, (List.take_append_drop count s).symm⟩

omit [Crypto] in
theorem announcedSize_ok (remaining : ℕ) {header : Bytes} (h : header.length = blockRecordHeaderSize) :
    ∃ size, announcedSize remaining header = .ok size := by
  have hrest : (header.drop 4).length = 44 := by
    rw [List.length_drop, h]
    rfl
  have hversion : ∃ version rest, readU32Le.run (header.drop 4) = .ok version rest ∧
      8 ≤ rest.length := by
    refine ⟨_, _, run_bind_ok.2 ⟨_, _, readBytes_run (by omega), rfl⟩, ?_⟩
    rw [List.length_drop]
    omega
  obtain ⟨version, rest, hversion, hle⟩ := hversion
  have hsize : ∃ size rest', readU64Le.run rest = .ok size rest' :=
    ⟨_, _, run_bind_ok.2 ⟨_, _, readBytes_run hle, rfl⟩⟩
  obtain ⟨size, rest', hsize⟩ := hsize
  unfold announcedSize
  split_ifs with hmagic
  · exact ⟨none, rfl⟩
  · simp only [Reader.parse_ok, run_bind_ok]
    by_cases hother : version ≠ blockRecordVersion
    · refine ⟨none, rest, version, rest, hversion, ?_⟩
      rw [if_pos hother]
      rfl
    by_cases hlarge : size.toNat > maxBlockRecordSize ∨ blockRecordHeaderSize + size.toNat > remaining
    · refine ⟨none, rest', version, rest, hversion, ?_⟩
      rw [if_neg hother]
      refine run_bind_ok.2 ⟨size, rest', hsize, ?_⟩
      rw [if_pos hlarge]
      rfl
    · refine ⟨some size, rest', version, rest, hversion, ?_⟩
      rw [if_neg hother]
      refine run_bind_ok.2 ⟨size, rest', hsize, ?_⟩
      rw [if_neg hlarge]
      rfl

/-- Every entry of the catalog leads to a block with the hash it stands under. -/
def Catalogued (file : Bytes) (catalog : ExtTreeMap Str IndexEntry) : Prop :=
  ∀ (hash : Str) (entry : IndexEntry), catalog[hash]? = some entry → ∃ block,
    readRecordAt file entry.offset.toNat (some entry.payloadSize) = .ok block ∧ block.hashHex = .ok hash

omit [Crypto] in
theorem Catalogued.empty [Crypto] (file : Bytes) : Catalogued file ∅ := by
  intro hash entry h
  rw [ExtTreeMap.getElem?_empty] at h
  cases h

theorem Catalogued.addRecord {file : Bytes} {catalog : ExtTreeMap Str IndexEntry} {offset : ℕ}
    {payloadSize : UInt64} (h : Catalogued file catalog) (hoffset : offset < 2 ^ 64) :
    Catalogued file (addRecord file offset payloadSize catalog) := by
  unfold BinaryCoin.addRecord
  cases hread : (do
    let block ← readRecordAt file offset (some payloadSize)
    let hash ← block.hashHex
    return (⟨block.height, UInt64.ofNat offset, payloadSize, hash⟩ : IndexEntry)) with
  | error e => exact h
  | ok entry =>
    obtain ⟨block, hblock, hread⟩ := except_bind_ok.1 hread
    obtain ⟨hash, hhash, hentry⟩ := except_bind_ok.1 hread
    obtain rfl := except_pure_ok.1 hentry
    intro hash' entry' hfound
    dsimp only at hfound
    rw [OrdMap.getElem?_insertIfNew_eq] at hfound
    split_ifs at hfound with hnew
    · obtain rfl := Option.some.inj hfound
      refine ⟨block, ?_, ?_⟩
      · dsimp only
        rwa [UInt64.toNat_ofNat_of_lt' hoffset]
      · rwa [hnew.1]
    · exact h hash' entry' hfound

/-- **The loop of the scan** ends with a catalog. -/
theorem scanLoop_ok {file : Bytes} (hsize : file.length < 2 ^ 64) (offset : ℕ)
    {catalog : ExtTreeMap Str IndexEntry} (h : Catalogued file catalog) :
    ∃ catalog', scanLoop file offset catalog = .ok catalog' ∧ Catalogued file catalog' := by
  induction hn : file.length - offset using Nat.strong_induction_on generalizing offset catalog with
  | _ n ih =>
    subst hn
    rw [scanLoop]
    split_ifs with hoffset htail
    · exact ⟨catalog, rfl, h⟩
    · have hpread := preadAll_within (Nat.not_lt.1 htail)
      obtain ⟨size, hannounced⟩ := announcedSize_ok (file.length - offset)
        (preadAll_ok.1 hpread).1
      have hheader : (preadAll file offset blockRecordHeaderSize >>=
          announcedSize (file.length - offset)) = .ok size :=
        except_bind_ok.2 ⟨_, hpread, hannounced⟩
      rw [hheader]
      cases size with
      | none => exact ⟨catalog, rfl, h⟩
      | some payloadSize =>
        have hpos : 0 < blockRecordHeaderSize := by decide
        exact ih _ (by omega) _ (h.addRecord (hoffset.trans hsize)) rfl
    · exact ⟨catalog, rfl, h⟩

/-- Blocks that are told apart by their hashes. -/
structure DistinctHashes (records : List StoredBlock) : Prop where
  hash : ∀ block ∈ records, ∃ hash, block.hashHex = .ok hash
  inj : ∀ a ∈ records, ∀ b ∈ records, a.hashHex = b.hashHex → a = b

/-- **The scan of any file** finds blocks with different hashes. -/
theorem scanAllBlocks_ok (file : Option BlockFile) :
    ∃ records, scanAllBlocks file = .ok records ∧ DistinctHashes records := by
  cases file with
  | none => exact ⟨[], rfl, ⟨by simp, by simp⟩⟩
  | some file =>
    obtain ⟨catalog, hscan, hcatalog⟩ := scanLoop_ok file.size_lt 0 (.empty file.bytes)
    have hread : ∀ entry ∈ catalog.values, ∃ block,
        readRecordAt file.bytes entry.offset.toNat (some entry.payloadSize) = .ok block := by
      intro entry hentry
      obtain ⟨hash, hfound⟩ := OrdMap.mem_values.1 hentry
      obtain ⟨block, hblock, -⟩ := hcatalog hash entry hfound
      exact ⟨block, hblock⟩
    obtain ⟨records, hrecords⟩ := mapM_of_forall hread
    have hfrom : ∀ block ∈ records, ∃ hash entry, catalog[hash]? = some entry ∧
        readRecordAt file.bytes entry.offset.toNat (some entry.payloadSize) = .ok block ∧
        block.hashHex = .ok hash := by
      intro block hmem
      obtain ⟨entry, hentry, hblock⟩ := mem_of_mapM hrecords hmem
      obtain ⟨hash, hfound⟩ := OrdMap.mem_values.1 hentry
      obtain ⟨block', hblock', hhash⟩ := hcatalog hash entry hfound
      obtain rfl := Except.ok.inj (hblock.symm.trans hblock')
      exact ⟨hash, entry, hfound, hblock, hhash⟩
    refine ⟨records, except_bind_ok.2 ⟨catalog, hscan, hrecords⟩, ?_, ?_⟩
    · intro block hmem
      obtain ⟨hash, -, -, -, hhash⟩ := hfrom block hmem
      exact ⟨hash, hhash⟩
    · intro a ha b hb hsame
      obtain ⟨hash, entry, hfound, hblock, hhash⟩ := hfrom a ha
      obtain ⟨hash', entry', hfound', hblock', hhash'⟩ := hfrom b hb
      rw [hhash, hhash'] at hsame
      obtain rfl := Except.ok.inj hsame
      obtain rfl := Option.some.inj (hfound.symm.trans hfound')
      exact Except.ok.inj (hblock.symm.trans hblock')

end

end BinaryCoin
