/-
  BinaryCoin — the byte formats of stored blocks: storage.cpp
  (`serialize_stored_block`, `make_record_bytes`) and net.cpp
  (`serialize_stored_blocks`).

  Each subsystem has an encoder and a decoder of its own.  That both write a
  block in the same format and read it back under the same limits is a theorem:
  each decoder is `readBlockRecord` with its own texts.
-/
import BinaryCoin.TipHash

namespace BinaryCoin

open Cursor LittleEndian

/-! ## One block -/

/-- `MAX_BLOCK_RECORD_SIZE` -/
def maxBlockRecordSize : ℕ := 16 * 1024 * 1024
/-- `MAX_P2P_PAYLOAD` -/
def maxP2pPayload : ℕ := 16 * 1024 * 1024
/-- `MAX_BLOCKS_PER_RESPONSE` -/
def maxBlocksPerResponse : ℕ := 128

/-- The most transactions that the decoders read in one block. -/
def maxStoredTransactions : ℕ := 100000
/-- The longest transaction that the decoders read. -/
def maxTransactionSize : ℕ := 4000000

theorem maxStoredTransactions_lt : maxStoredTransactions < 2 ^ 64 := by decide
theorem maxBlocksPerResponse_lt : maxBlocksPerResponse < 2 ^ 64 := by decide

/-! ### storage.cpp -/

def serializeStoredBlock (stored : StoredBlock) : Except Exn Bytes := do
  let output := appendU64Le [] stored.height
  let header ← stored.block.header.serialize
  let output := output ++ header
  let output := appendCompactSize output (UInt64.ofNat stored.block.transactions.length)
  stored.block.transactions.foldlM (fun output transaction => do
    let transactionBytes ← transaction.serialize
    let output := appendCompactSize output (UInt64.ofNat transactionBytes.length)
    return output ++ transactionBytes) output

/-- The loop of `deserialize_stored_block`. -/
def readStoredTransactions : ℕ → Reader (List Transaction)
  | 0 => return []
  | count + 1 => do
    let transactionSize ← readCompactSize
    let bytes ← get
    throwIf (transactionSize.toNat > 4000000 ∨ transactionSize.toNat > bytes.length)
      (runtimeError "Stored transaction payload exceeds limit")
    let transaction ← Transaction.deserialize (← readBytes transactionSize.toNat)
    return transaction :: (← readStoredTransactions count)

def deserializeStoredBlock (bytes : Bytes) : Except Exn StoredBlock := Reader.parse (do
  let height ← readU64Le
  let header ← BlockHeader.deserialize (← readBytes 80)
  let transactionCount ← readCompactSize
  throwIf (transactionCount.toNat > 100000)
    (runtimeError "Stored block transaction count exceeds limit")
  let transactions ← readStoredTransactions transactionCount.toNat
  requireEnd "Trailing bytes in stored block record"
  return ⟨height, header, transactions⟩) bytes

/-! ### net.cpp -/

def serializeBlockRecord (stored : StoredBlock) : Except Exn Bytes := do
  let output := appendU64Le [] stored.height
  let header ← stored.block.header.serialize
  let output := output ++ header
  let output := appendCompactSize output (UInt64.ofNat stored.block.transactions.length)
  stored.block.transactions.foldlM (fun output transaction => do
    let transactionBytes ← transaction.serialize
    let output := appendCompactSize output (UInt64.ofNat transactionBytes.length)
    return output ++ transactionBytes) output

/-- The loop of `deserialize_block_record`. -/
def readBlockTransactions : ℕ → Reader (List Transaction)
  | 0 => return []
  | count + 1 => do
    let transactionSize ← readCompactSize
    let input ← get
    throwIf (transactionSize.toNat > 4000000 ∨ transactionSize.toNat > input.length)
      (runtimeError "Transaction payload exceeds limit")
    let transactionBytes ← readBytes transactionSize.toNat
    let transaction ← Transaction.deserialize transactionBytes
    return transaction :: (← readBlockTransactions count)

/-- From the current offset. -/
def deserializeBlockRecord : Reader StoredBlock := do
  let height ← readU64Le
  let headerBytes ← readBytes 80
  let header ← BlockHeader.deserialize headerBytes
  let transactionCount ← readCompactSize
  throwIf (transactionCount.toNat > 100000) (runtimeError "Block transaction count exceeds limit")
  let transactions ← readBlockTransactions transactionCount.toNat
  return ⟨height, header, transactions⟩

/-! ### What they have in common -/

def appendTransactionRecord (output : Bytes) (transaction : Transaction) : Except Exn Bytes := do
  let transactionBytes ← transaction.serialize
  let output := appendCompactSize output (UInt64.ofNat transactionBytes.length)
  return output ++ transactionBytes

/-- `size` bytes: at most `limit` and no more than there are, else `what`. -/
def readSpan (limit : ℕ) (what : String) : Reader Bytes := do
  let size ← readCompactSize
  let input ← get
  throwIf (size.toNat > limit ∨ size.toNat > input.length) (runtimeError what)
  readBytes size.toNat

def readTransactionRecord (what : String) : Reader Transaction := do
  let bytes ← readSpan maxTransactionSize what
  Transaction.deserialize bytes

/-- A block record, with the texts for too many transactions and for too long a one. -/
def readBlockRecord (tooMany tooLong : String) : Reader StoredBlock := do
  let height ← readU64Le
  let headerBytes ← readBytes 80
  let header ← BlockHeader.deserialize headerBytes
  let transactions ← readCounted maxStoredTransactions tooMany (readTransactionRecord tooLong)
  return ⟨height, header, transactions⟩

theorem readStoredTransactions_eq (count : ℕ) : readStoredTransactions count =
    many (readTransactionRecord "Stored transaction payload exceeds limit") count := by
  induction count with
  | zero => rfl
  | succ count ih =>
    simp only [readStoredTransactions, many, readTransactionRecord, readSpan, bind_assoc, ih]
    rfl

theorem readBlockTransactions_eq (count : ℕ) : readBlockTransactions count =
    many (readTransactionRecord "Transaction payload exceeds limit") count := by
  induction count with
  | zero => rfl
  | succ count ih =>
    simp only [readBlockTransactions, many, readTransactionRecord, readSpan, bind_assoc, ih]
    rfl

/-- **`deserialize_stored_block`** reads a block record to the end. -/
theorem deserializeStoredBlock_eq (bytes : Bytes) : deserializeStoredBlock bytes = Reader.parse (do
    let stored ← readBlockRecord "Stored block transaction count exceeds limit"
      "Stored transaction payload exceeds limit"
    requireEnd "Trailing bytes in stored block record"
    return stored) bytes := by
  simp only [deserializeStoredBlock, readStoredTransactions_eq, readBlockRecord, readCounted,
    bind_assoc, pure_bind]
  rfl

/-- **`deserialize_block_record`** reads a block record. -/
theorem deserializeBlockRecord_eq : deserializeBlockRecord = readBlockRecord
    "Block transaction count exceeds limit" "Transaction payload exceeds limit" := by
  simp only [deserializeBlockRecord, readBlockTransactions_eq, readBlockRecord, readCounted, bind_assoc]
  rfl

/-! ## Lists of blocks on the wire -/

def appendBlockRecord (output : Bytes) (stored : StoredBlock) : Except Exn Bytes := do
  let record ← serializeBlockRecord stored
  let output := appendCompactSize output (UInt64.ofNat record.length)
  return output ++ record

def serializeStoredBlocks (blocks : List StoredBlock) (beginIndex maximumCount : ℕ) :
    Except Exn Bytes := do
  throwIf (beginIndex > blocks.length) (outOfRange "Block begin index outside chain")
  let count := min maximumCount (blocks.length - beginIndex)
  let output := appendCompactSize [] (UInt64.ofNat count)
  let output ← ((blocks.drop beginIndex).take count).foldlM appendBlockRecord output
  throwIf (output.length > maxP2pPayload)
    (runtimeError "Block response exceeds P2P payload limit")
  return output

def readStoredBlock : Reader StoredBlock := do
  let record ← readSpan maxP2pPayload "Block record exceeds payload limit"
  Reader.parse (do
    let stored ← deserializeBlockRecord
    requireEnd "Trailing bytes in block record"
    return stored) record

def deserializeStoredBlocks (payload : Bytes) : Except Exn (List StoredBlock) := Reader.parse (do
  let blocks ← readCounted maxBlocksPerResponse "Peer sent too many blocks" readStoredBlock
  requireEnd "Trailing bytes in block response"
  return blocks) payload

/-! ## The format -/

/-- A byte string behind its length. -/
def sized (bytes : Bytes) : Bytes := compactLength bytes ++ bytes

def StoredBlock.encode (stored : StoredBlock) : Bytes :=
  leBytes 8 stored.height.toNat ++ stored.block.header.encode ++
    (compactLength stored.block.transactions ++
      stored.block.transactions.flatMap fun t => sized t.encode)

/-- The decoders' limits on a block. -/
structure StoredBlock.WithinLimits (stored : StoredBlock) : Prop where
  count : stored.block.transactions.length ≤ maxStoredTransactions
  size : ∀ t ∈ stored.block.transactions, t.encode.length ≤ maxTransactionSize

theorem foldlM_append_ok {α : Type} {f : Bytes → α → Except Exn Bytes} {enc : α → Bytes}
    {ok : α → Prop} (hf : ∀ output a b, f output a = .ok b ↔ ok a ∧ b = output ++ enc a)
    {output b : Bytes} {as : List α} :
    as.foldlM f output = .ok b ↔ (∀ a ∈ as, ok a) ∧ b = output ++ as.flatMap enc := by
  induction as generalizing output with
  | nil => rw [List.foldlM_nil, except_pure_ok]; simp [eq_comm]
  | cons a as ih =>
    rw [List.foldlM_cons, except_bind_ok]
    simp only [hf, ih, List.forall_mem_cons, List.flatMap_cons]
    constructor
    · rintro ⟨_, ⟨ha, rfl⟩, has, rfl⟩
      exact ⟨⟨ha, has⟩, List.append_assoc ..⟩
    · rintro ⟨⟨ha, has⟩, rfl⟩
      exact ⟨_, ⟨ha, rfl⟩, has, (List.append_assoc ..).symm⟩

theorem appendTransactionRecord_ok {output b : Bytes} {t : Transaction} :
    appendTransactionRecord output t = .ok b ↔ t.Structure ∧ b = output ++ sized t.encode := by
  simp only [appendTransactionRecord, except_bind_ok, Transaction.serialize_ok, except_pure_ok]
  constructor
  · rintro ⟨_, ⟨hs, rfl⟩, rfl⟩
    exact ⟨hs, by simp [sized, compactLength, appendCompactSize]⟩
  · rintro ⟨hs, rfl⟩
    exact ⟨_, ⟨hs, rfl⟩, by simp [sized, compactLength, appendCompactSize]⟩

/-- **What `serialize_stored_block` returns**: the encoding. -/
theorem serializeStoredBlock_ok {stored : StoredBlock} {b : Bytes} :
    serializeStoredBlock stored = .ok b ↔ (∃ h, stored.block.header.serialize = .ok h) ∧
      (∀ t ∈ stored.block.transactions, t.Structure) ∧ b = stored.encode := by
  have hloop : serializeStoredBlock stored = (do
      let header ← stored.block.header.serialize
      stored.block.transactions.foldlM appendTransactionRecord
        (appendCompactSize (appendU64Le [] stored.height ++ header)
          (UInt64.ofNat stored.block.transactions.length))) := rfl
  simp only [hloop, except_bind_ok,
    foldlM_append_ok (f := appendTransactionRecord) fun _ _ _ => appendTransactionRecord_ok]
  constructor
  · rintro ⟨h, hh, hts, rfl⟩
    refine ⟨⟨h, hh⟩, hts, ?_⟩
    rw [(BlockHeader.serialize_ok.1 hh).2.2]
    simp [StoredBlock.encode, appendU64Le, appendCompactSize, compactLength]
  · rintro ⟨⟨h, hh⟩, hts, rfl⟩
    refine ⟨h, hh, hts, ?_⟩
    rw [(BlockHeader.serialize_ok.1 hh).2.2]
    simp [StoredBlock.encode, appendU64Le, appendCompactSize, compactLength]

/-- **`serialize_block_record`** has the same steps. -/
theorem serializeBlockRecord_eq (stored : StoredBlock) :
    serializeBlockRecord stored = serializeStoredBlock stored := rfl

theorem readSpan_decodes {limit : ℕ} (hlim : limit < 2 ^ 64) (what : String) :
    Decodes (readSpan limit what) sized (·.length ≤ limit) := by
  intro s bs r
  simp only [readSpan, readCompactSize_decodes.bind_ok, true_and, run_bind_ok, run_get_ok,
    throwIf_run_ok, readBytes_decodes _ _ _, id_eq]
  constructor
  · rintro ⟨n, s₁, rfl, _, _, ⟨rfl, rfl⟩, _, _, ⟨hn, rfl⟩, hl, rfl⟩
    rw [not_or, not_lt, not_lt] at hn
    refine ⟨by omega, ?_⟩
    rw [sized, compactLength, hl, UInt64.ofNat_toNat, List.append_assoc]
  · rintro ⟨hl, rfl⟩
    have hn : (UInt64.ofNat bs.length).toNat = bs.length :=
      UInt64.toNat_ofNat_of_lt' (by norm_num [UInt64.size]; omega)
    refine ⟨UInt64.ofNat bs.length, bs ++ r, by simp [sized, compactLength], _, _, ⟨rfl, rfl⟩, (),
      _, ⟨?_, rfl⟩, hn.symm, rfl⟩
    rw [hn]
    simp only [List.length_append]
    omega

/-- A span whose bytes a function decodes. -/
theorem readSpan_then_decodes {α : Type} {limit : ℕ} (hlim : limit < 2 ^ 64) {what : String}
    {f : Bytes → Except Exn α} {enc : α → Bytes} {ok : α → Prop}
    (hf : ∀ b a, f b = .ok a ↔ ok a ∧ b = enc a) :
    Decodes (do let bytes ← readSpan limit what; f bytes : Reader α) (fun a => sized (enc a))
      fun a => (enc a).length ≤ limit ∧ ok a := by
  intro s a r
  simp only [(readSpan_decodes hlim what).bind_ok, lift_run_ok, hf]
  constructor
  · rintro ⟨_, _, ⟨hl, rfl⟩, ⟨ha, rfl⟩, rfl⟩; exact ⟨⟨hl, ha⟩, rfl⟩
  · rintro ⟨⟨hl, ha⟩, rfl⟩; exact ⟨_, _, ⟨hl, rfl⟩, ⟨ha, rfl⟩, rfl⟩

theorem readBlockRecord_decodes (tooMany tooLong : String) :
    Decodes (readBlockRecord tooMany tooLong) StoredBlock.encode fun stored =>
      stored.Canonical ∧ stored.WithinLimits := by
  have htx : Decodes (readTransactionRecord tooLong) (fun t => sized t.encode) fun t =>
      t.encode.length ≤ maxTransactionSize ∧ t.Structure ∧ t.Canonical :=
    readSpan_then_decodes (by decide) fun b t => Transaction.deserialize_ok
  intro s stored r
  simp only [readBlockRecord, readU64Le_decodes.bind_ok, (readBytes_decodes 80).bind_ok,
    (readCounted_decodes maxStoredTransactions_lt tooMany htx).bind_ok, run_bind_ok, lift_run_ok,
    BlockHeader.deserialize_ok, run_pure_ok, true_and, id_eq]
  constructor
  · rintro ⟨height, _, rfl, _, _, ⟨hl, rfl⟩, header, _, ⟨⟨hc, rfl⟩, rfl⟩, txs, _, ⟨⟨hn, htxs⟩, rfl⟩,
      rfl, rfl⟩
    exact ⟨⟨⟨hc, fun t ht => (htxs t ht).2⟩, hn, fun t ht => (htxs t ht).1⟩,
      by simp [StoredBlock.encode]⟩
  · rintro ⟨⟨hc, hw⟩, rfl⟩
    refine ⟨stored.height, _, ?_, stored.block.header.encode, _, ⟨hc.header.length_encode, rfl⟩,
      stored.block.header, _, ⟨⟨hc.header, rfl⟩, rfl⟩, stored.block.transactions, r,
      ⟨⟨hw.count, fun t ht => ⟨hw.size t ht, hc.transactions t ht⟩⟩, rfl⟩, rfl, rfl⟩
    simp [StoredBlock.encode]

/-- A reader followed by the end of the span. -/
theorem parse_requireEnd_ok {α : Type} {p : Reader α} {enc : α → Bytes} {ok : α → Prop}
    (hp : Decodes p enc ok) {what : String} {b : Bytes} {a : α} :
    Reader.parse (do let a ← p; requireEnd what; return a) b = .ok a ↔ ok a ∧ b = enc a := by
  simp only [Reader.parse_ok, hp.bind_ok, run_bind_ok, requireEnd_ok, run_pure_ok]
  constructor
  · rintro ⟨_, a, _, ⟨ha, rfl⟩, _, _, ⟨rfl, rfl⟩, rfl, rfl⟩; exact ⟨ha, by simp⟩
  · rintro ⟨ha, rfl⟩; exact ⟨[], a, [], ⟨ha, by simp⟩, (), [], ⟨rfl, rfl⟩, rfl, rfl⟩

/-- **What `deserialize_stored_block` accepts**: the encodings of canonical blocks within the
    limits. -/
theorem deserializeStoredBlock_ok {b : Bytes} {stored : StoredBlock} :
    deserializeStoredBlock b = .ok stored ↔
      (stored.Canonical ∧ stored.WithinLimits) ∧ b = stored.encode := by
  rw [deserializeStoredBlock_eq]
  exact parse_requireEnd_ok (readBlockRecord_decodes _ _)

/-- **What `deserialize_block_record` reads**: the same. -/
theorem deserializeBlockRecord_decodes : Decodes deserializeBlockRecord StoredBlock.encode
    fun stored => stored.Canonical ∧ stored.WithinLimits := by
  rw [deserializeBlockRecord_eq]
  exact readBlockRecord_decodes _ _

theorem readStoredBlock_decodes : Decodes readStoredBlock (fun stored => sized stored.encode)
    fun stored => stored.encode.length ≤ maxP2pPayload ∧ stored.Canonical ∧ stored.WithinLimits :=
  readSpan_then_decodes (by decide) fun _ _ => parse_requireEnd_ok deserializeBlockRecord_decodes

/-- The payload of a `blocks` response. -/
def encodeBlocks (blocks : List StoredBlock) : Bytes :=
  compactLength blocks ++ blocks.flatMap fun stored => sized stored.encode

theorem deserializeStoredBlocks_ok {payload : Bytes} {blocks : List StoredBlock} :
    deserializeStoredBlocks payload = .ok blocks ↔
      (blocks.length ≤ maxBlocksPerResponse ∧ ∀ stored ∈ blocks,
        stored.encode.length ≤ maxP2pPayload ∧ stored.Canonical ∧ stored.WithinLimits) ∧
      payload = encodeBlocks blocks :=
  parse_requireEnd_ok (readCounted_decodes maxBlocksPerResponse_lt _ readStoredBlock_decodes)

/-- A block that has an encoding. -/
def StoredBlock.Serializable (stored : StoredBlock) : Prop :=
  (∃ h, stored.block.header.serialize = .ok h) ∧ ∀ t ∈ stored.block.transactions, t.Structure

theorem StoredBlock.Canonical.serializable {stored : StoredBlock} (h : stored.Canonical) :
    stored.Serializable :=
  ⟨⟨_, h.header.serialize⟩, fun t ht => (h.transactions t ht).1⟩

theorem appendBlockRecord_ok {output b : Bytes} {stored : StoredBlock} :
    appendBlockRecord output stored = .ok b ↔
      stored.Serializable ∧ b = output ++ sized stored.encode := by
  simp only [appendBlockRecord, serializeBlockRecord_eq, except_bind_ok, serializeStoredBlock_ok,
    except_pure_ok]
  constructor
  · rintro ⟨_, ⟨hh, hts, rfl⟩, rfl⟩
    exact ⟨⟨hh, hts⟩, by simp [sized, compactLength, appendCompactSize]⟩
  · rintro ⟨⟨hh, hts⟩, rfl⟩
    exact ⟨_, ⟨hh, hts, rfl⟩, by simp [sized, compactLength, appendCompactSize]⟩

theorem serializeStoredBlocks_ok {blocks : List StoredBlock} {beginIndex maximumCount : ℕ}
    {b : Bytes} : serializeStoredBlocks blocks beginIndex maximumCount = .ok b ↔
      beginIndex ≤ blocks.length ∧
      (∀ stored ∈ (blocks.drop beginIndex).take maximumCount, stored.Serializable) ∧
      (encodeBlocks ((blocks.drop beginIndex).take maximumCount)).length ≤ maxP2pPayload ∧
      b = encodeBlocks ((blocks.drop beginIndex).take maximumCount) := by
  have htake : (blocks.drop beginIndex).take (min maximumCount (blocks.length - beginIndex)) =
      (blocks.drop beginIndex).take maximumCount := by
    rw [← List.length_drop, ← List.take_eq_take_min]
  have hlen : ((blocks.drop beginIndex).take maximumCount).length =
      min maximumCount (blocks.length - beginIndex) := by
    rw [List.length_take, List.length_drop]
  simp only [serializeStoredBlocks, htake]
  simp only [← hlen, except_bind_ok, throwIf_ok, except_pure_ok, exists_and_left,
    exists_const, foldlM_append_ok (f := appendBlockRecord) fun _ _ _ => appendBlockRecord_ok,
    gt_iff_lt, not_lt]
  constructor
  · rintro ⟨hb, _, ⟨hs, rfl⟩, hle, rfl⟩
    exact ⟨hb, hs, by simpa [encodeBlocks, appendCompactSize, compactLength] using hle,
      by simp [encodeBlocks, appendCompactSize, compactLength]⟩
  · rintro ⟨hb, hs, hle, rfl⟩
    exact ⟨hb, _, ⟨hs, rfl⟩, by simpa [encodeBlocks, appendCompactSize, compactLength] using hle,
      by simp [encodeBlocks, appendCompactSize, compactLength]⟩

/-! ## Records of the block file -/

/-- `BCR9` -/
def blockRecordMagic : Bytes := [66, 67, 82, 57]
def blockRecordVersion : UInt32 := 1
/-- Magic, version, payload size, checksum. -/
def blockRecordHeaderSize : ℕ := 4 + 4 + 8 + 32

section
variable [Crypto]

/-- A payload behind its record header. -/
def recordOf (payload : Bytes) : Bytes :=
  appendU64Le (appendU32Le blockRecordMagic blockRecordVersion) (UInt64.ofNat payload.length) ++
    (sha256d payload).bytes ++ payload

def makeRecordBytes (block : StoredBlock) : Except Exn Bytes := do
  let payload ← serializeStoredBlock block
  throwIf (payload.length > maxBlockRecordSize)
    (runtimeError "Block record exceeds durable storage limit")
  return recordOf payload

theorem makeRecordBytes_ok {block : StoredBlock} {r : Bytes} :
    makeRecordBytes block = .ok r ↔
      block.Serializable ∧ block.encode.length ≤ maxBlockRecordSize ∧ r = recordOf block.encode := by
  simp only [makeRecordBytes, except_bind_ok, serializeStoredBlock_ok, throwIf_ok, except_pure_ok,
    exists_and_left, exists_const, gt_iff_lt, not_lt]
  constructor
  · rintro ⟨_, ⟨hh, hts, rfl⟩, hle, rfl⟩; exact ⟨⟨hh, hts⟩, hle, rfl⟩
  · rintro ⟨⟨hh, hts⟩, hle, rfl⟩; exact ⟨_, ⟨hh, hts, rfl⟩, hle, rfl⟩

@[simp] theorem length_recordOf (payload : Bytes) :
    (recordOf payload).length = blockRecordHeaderSize + payload.length := by
  simp [recordOf, appendU64Le, appendU32Le, blockRecordMagic, blockRecordHeaderSize,
    Hash256.size_eq]
  omega

/-! ## What consensus accepts, and what the formats take -/

/-- **Storing and relaying the blocks of an accepted chain**: every block has its encoding; a record
    of it can be made exactly when the encoding fits a record, a response with it exactly when the
    response fits a message; and it is read back, as itself, exactly within the decoders' limits. -/
theorem accepted_block_formats {blocks : List StoredBlock} (h : verifyBlocks blocks = .ok ())
    {b : StoredBlock} (hb : b ∈ blocks) :
    serializeStoredBlock b = .ok b.encode ∧
    ((∃ r, makeRecordBytes b = .ok r) ↔ b.encode.length ≤ maxBlockRecordSize) ∧
    (deserializeStoredBlock b.encode = .ok b ↔ b.WithinLimits) ∧
    ((∃ p, serializeStoredBlocks [b] 0 1 = .ok p) ↔ (encodeBlocks [b]).length ≤ maxP2pPayload) ∧
    ∀ p, serializeStoredBlocks [b] 0 1 = .ok p →
      (deserializeStoredBlocks p = .ok [b] ↔ b.WithinLimits) := by
  obtain ⟨u, hc⟩ := verifyBlocks_iff.1 h
  have hcan := hc.stored_canonical b hb
  have hser := hcan.serializable
  have hone : ([b].drop 0).take 1 = [b] := rfl
  refine ⟨serializeStoredBlock_ok.2 ⟨hser.1, hser.2, rfl⟩, ?_, ?_, ?_, fun p hp => ?_⟩
  · simp only [makeRecordBytes_ok, exists_and_left, exists_eq, and_true]
    exact and_iff_right hser
  · rw [deserializeStoredBlock_ok]
    exact ⟨fun h => h.1.2, fun h => ⟨⟨hcan, h⟩, rfl⟩⟩
  · simp only [serializeStoredBlocks_ok, hone, List.mem_singleton, forall_eq, exists_and_left,
      exists_eq, and_true]
    exact ⟨fun h => h.2.2, fun h => ⟨by simp, hser, h⟩⟩
  · obtain ⟨-, -, hle, rfl⟩ := serializeStoredBlocks_ok.1 hp
    rw [hone] at hle ⊢
    have hsize : b.encode.length ≤ maxP2pPayload := by
      simp only [encodeBlocks, List.flatMap_singleton, sized, List.length_append] at hle
      omega
    rw [deserializeStoredBlocks_ok]
    simp only [List.mem_singleton, forall_eq, and_true]
    exact ⟨fun h => h.2.2.2, fun h => ⟨by simp [maxBlocksPerResponse], hsize, hcan, h⟩⟩

end

theorem accepted_block_formats_genesis :
    @makeRecordBytes (.ofTable genesisDigests) genesisStored =
      .ok (@recordOf (.ofTable genesisDigests) genesisStored.encode) ∧
    (deserializeStoredBlock genesisStored.encode = .ok genesisStored ↔
      genesisStored.WithinLimits) := by
  obtain ⟨hser, hrecord, hdecode, -⟩ := @accepted_block_formats (.ofTable genesisDigests) _
    genesis_accepted.2 genesisStored List.mem_cons_self
  have hsize : genesisStored.encode.length ≤ maxBlockRecordSize := by decide +kernel
  obtain ⟨r, hr⟩ := hrecord.2 hsize
  rw [(@makeRecordBytes_ok (.ofTable genesisDigests) _ _).1 hr |>.2.2] at hr
  exact ⟨hr, hdecode⟩

/-! ### A block that is accepted and not read back -/

/-- A coinbase of more than four million bytes: the subsidy, and 400 empty outputs with scripts of
    the greatest size. -/
def wideCoinbase : Transaction where
  version := 1
  inputs := [⟨⟨zeroHashHex, 0xffffffff⟩, [], 0xffffffff⟩]
  outputs := ⟨initialSubsidy, []⟩ :: List.replicate 400 ⟨0, List.replicate 10000 0⟩
  lockTime := 0

def wideMerkle : Str := str "3beeac5b38963a962e568a73b2a4f008c2e7f4951d1eb870318acb49c36857cd"

def wideStored : StoredBlock where
  height := 1
  block := ⟨⟨1, testnetGenesisHash, wideMerkle, 1784699219, testnetBits, 26281⟩, [wideCoinbase]⟩

/-- The digest of the wide coinbase. -/
def wideDigest : ℕ := 0x4d53e91d05c0cb519ed6cd4c5d48efa88c80b30f81a24b3b864d40dc2b151a2d

/-- The other digests of the wide block. -/
def wideDigests : List (ℕ × ℕ) :=
  (wideDigest,
    0x3beeac5b38963a962e568a73b2a4f008c2e7f4951d1eb870318acb49c36857cd) ::
  (ofLe wideStored.block.header.encode,
    0x4644be4203356c2e1e87388530b9fc38831dffa64893d48c0bdab34057db3ae) ::
  (0x4644be4203356c2e1e87388530b9fc38831dffa64893d48c0bdab34057db3ae,
    0xcdc41ccfea952519e7e31c15c33eb2a67e020598f53e9cc5cb1ae64fa5bb) :: genesisDigests

/-- The table, with the digest of the one string that is too long for it. -/
@[reducible] def wideCrypto : Crypto where
  sha256 data := if 4000000 < data.length then Hash256.ofBytes (leBytes 32 wideDigest)
    else (Crypto.ofTable wideDigests).sha256 data
  verifyEcdsaDer := (Crypto.ofTable wideDigests).verifyEcdsaDer
  validCompressedPublicKey := (Crypto.ofTable wideDigests).validCompressedPublicKey

theorem length_wideCoinbase : wideCoinbase.encode.length = 4004462 := by
  have hwire : (wireOf zeroHashHex).length = 32 := length_wireOf .zero
  have hscript : (compactSize (UInt64.ofNat 10000)).length = 3 := by decide
  have hcount : (compactSize (UInt64.ofNat 401)).length = 3 := by decide
  have hone : (compactSize 1).length = 1 := by decide
  have hzero : (compactSize 0).length = 1 := by decide
  have hout : (TxOutput.encode ⟨0, List.replicate 10000 0⟩).length = 10011 := by
    rw [TxOutput.encode, compactLength, List.length_replicate, List.length_append,
      List.length_append, length_leBytes, hscript, List.length_replicate]
  have hlen : (TxOutput.encode ⟨initialSubsidy, []⟩).length = 9 := by
    rw [TxOutput.encode, compactLength, List.length_append, List.length_append, length_leBytes]
    rfl
  simp only [Transaction.encode, wideCoinbase, List.length_append, length_leBytes, compactLength,
    List.length_cons, List.length_replicate, List.flatMap_cons, List.flatMap_nil, List.append_nil,
    List.length_nil, TxInput.encode, hwire, hlen]
  rw [List.length_flatMap, List.map_replicate, List.sum_replicate, hout]
  rfl

theorem sha256_wideCoinbase :
    @sha256 wideCrypto wideCoinbase.encode = Hash256.ofBytes (leBytes 32 wideDigest) := by
  have hlt : 4000000 < wideCoinbase.encode.length := by
    rw [length_wideCoinbase]
    norm_num
  exact if_pos hlt

theorem id_eq_of_sha256 [Crypto] {t : Transaction} {h : Hash256} (hh : sha256 t.encode = h) :
    t.id = hashToDisplayHex (sha256 h.bytes) := by
  unfold Transaction.id sha256d
  rw [hh]

theorem id_wideCoinbase : @Transaction.id wideCrypto wideCoinbase = wideMerkle := by
  have houter : hashToDisplayHex
      (@sha256 wideCrypto (Hash256.ofBytes (leBytes 32 wideDigest)).bytes) = wideMerkle := by
    decide +kernel
  exact (@id_eq_of_sha256 wideCrypto _ _ sha256_wideCoinbase).trans houter

theorem wideCoinbase_structure : wideCoinbase.Structure where
  inputs_ne := List.cons_ne_nil _ _
  outputs_ne := List.cons_ne_nil _ _
  inputs_le := by decide
  outputs_le := by
    simp only [wideCoinbase, List.length_cons, List.length_replicate]
    decide
  input i hi := by
    obtain rfl := List.mem_singleton.1 hi
    obtain ⟨w, hw, -⟩ := IsDisplayHex.zero.wire
    exact ⟨Nat.zero_le _, w, hw⟩
  output o ho := by
    rcases List.mem_cons.1 ho with rfl | ho
    · exact ⟨by decide, Nat.zero_le _⟩
    · obtain rfl := List.eq_of_mem_replicate ho
      exact ⟨by decide, by rw [List.length_replicate]; decide⟩
  total := by
    simp only [wideCoinbase, List.map_cons, List.map_replicate, List.sum_cons, List.sum_replicate]
    decide

/-- What only reads the headers of the two blocks. -/
theorem wide_headers : @GenesisOk wideCrypto genesisStored ∧
    @verifyProofOfWork wideCrypto wideStored = .ok () ∧
    @verifyHeader wideCrypto genesisStored wideStored = .ok () := by
  refine ⟨@GenesisOk.mk wideCrypto _ ?_ ?_ ?_, ?_, ?_⟩ <;> decide +kernel

/-- The wide block is accepted on top of the genesis block. -/
theorem wide_accepted : @verifyBlocks wideCrypto [genesisStored, wideStored] = .ok () := by
  let := wideCrypto
  obtain ⟨hgenesis, hpow, hheader⟩ := wide_headers
  have htxid : wideCoinbase.txid = .ok wideMerkle :=
    Transaction.txid_ok.2 ⟨wideCoinbase_structure, id_wideCoinbase.symm⟩
  have hmerkle : merkleRootHex [wideCoinbase] = .ok wideMerkle :=
    merkleRootHex_ok.2
      ⟨List.forall_mem_singleton.2 wideCoinbase_structure, _, rfl, id_wideCoinbase.symm⟩
  have hvalue : wideCoinbase.outputValue = initialSubsidy := by
    simp only [Transaction.outputValue, wideCoinbase, List.map_cons, List.map_replicate,
      List.sum_cons, List.sum_replicate]
    decide
  have hsum : sumOutputs wideCoinbase = .ok initialSubsidy := hvalue ▸
    sumOutputs_eq (fun o ho => (wideCoinbase_structure.output o ho).1) wideCoinbase_structure.total
  have htxs : verifyTransactions wideStored = .ok (wideCoinbase, []) :=
    verifyTransactions_ok.2 ⟨rfl, rfl, by simp, hmerkle⟩
  have hcoinbase : verifyCoinbase wideStored wideCoinbase 0 = .ok () := by
    simp only [verifyCoinbase, hsum, except_bind_ok, Except.ok.injEq, exists_eq_left', throwIf_ok]
    decide
  obtain ⟨u, hadd⟩ : ∃ u, (addCoinbaseOutputs wideCoinbase 1).run ∅ = .ok () u :=
    addCoinbaseOutputs_fresh htxid wideCoinbase_structure fun _ => Std.ExtTreeMap.not_mem_empty
  have hblock : (verifyBlock genesisStored 1 wideStored).run ∅ = .ok () u := by
    simp only [verifyBlock, run_bind_ok, lift_run_ok]
    exact ⟨(), ∅, ⟨by decide, rfl⟩, (), ∅, ⟨hpow, rfl⟩, (), ∅, ⟨hheader, rfl⟩, _, ∅, ⟨htxs, rfl⟩,
      0, ∅, rfl, (), ∅, ⟨hcoinbase, rfl⟩, hadd⟩
  have hbelow : Chain ([] ++ [genesisStored]) ∅ := .genesis hgenesis
  exact verifyBlocks_iff.2 ⟨u, hbelow.block hblock⟩

/-- The decoders do not take every block of an accepted chain. -/
theorem accepted_block_not_read :
    ∃ (C : Crypto) (blocks : List StoredBlock) (b : StoredBlock),
      @verifyBlocks C blocks = .ok () ∧ b ∈ blocks ∧ serializeStoredBlock b = .ok b.encode ∧
      deserializeStoredBlock b.encode ≠ .ok b := by
  obtain ⟨u, hc⟩ := (@verifyBlocks_iff wideCrypto _).1 wide_accepted
  have hser := (@Chain.stored_canonical wideCrypto _ _ hc wideStored (by simp)).serializable
  refine ⟨wideCrypto, [genesisStored, wideStored], wideStored, wide_accepted, by simp,
    serializeStoredBlock_ok.2 ⟨hser.1, hser.2, rfl⟩, ?_⟩
  rw [ne_eq, deserializeStoredBlock_ok]
  rintro ⟨⟨-, hw⟩, -⟩
  have := hw.size wideCoinbase List.mem_cons_self
  rw [length_wideCoinbase] at this
  norm_num [maxTransactionSize] at this

end BinaryCoin
