/-
  BinaryCoin — net.cpp: the payloads of the peer-to-peer messages.

  Each format has an encoder and a decoder, both of which may throw.  `Strict`
  says that the two fit: what is encoded is read back, and what is read is the
  encoding of what is returned, so that a payload and its content determine
  each other.
-/
import BinaryCoin.BlockRecord

namespace BinaryCoin

open Cursor LittleEndian

/-- The values satisfying `ok` are encoded and decoded back, and nothing else is decoded. -/
structure Strict {α : Type} (encoder : α → Except Exn Bytes) (decoder : Bytes → Except Exn α)
    (ok : α → Prop) : Prop where
  roundTrip : ∀ a, ok a → ∃ b, encoder a = .ok b ∧ decoder b = .ok a
  canonical : ∀ b a, decoder b = .ok a → ok a ∧ encoder a = .ok b

/-- A decoder that accepts the encodings `enc a`, with an encoder that returns them. -/
theorem Strict.of_encode {α : Type} {encoder : α → Except Exn Bytes}
    {decoder : Bytes → Except Exn α} {ok : α → Prop} (enc : α → Bytes)
    (hdecode : ∀ b a, decoder b = .ok a ↔ ok a ∧ b = enc a)
    (hencode : ∀ a, ok a → encoder a = .ok (enc a)) : Strict encoder decoder ok where
  roundTrip a ha := ⟨enc a, hencode a ha, (hdecode _ _).2 ⟨ha, rfl⟩⟩
  canonical b a h := by
    obtain ⟨ha, rfl⟩ := (hdecode b a).1 h
    exact ⟨ha, hencode a ha⟩

/-! ## Inventories -/

/-- `MAX_INVENTORY_ITEMS` -/
def maxInventoryItems : ℕ := 500

inductive InventoryType where
  | transaction | block
  deriving DecidableEq, Repr

/-- `static_cast<std::uint32_t>(type)` -/
def InventoryType.code : InventoryType → UInt32
  | transaction => 1
  | block => 2

structure InventoryItem where
  type : InventoryType
  hash : Str
  deriving DecidableEq

def appendInventoryItem (payload : Bytes) (item : InventoryItem) : Except Exn Bytes := do
  let payload := appendU32Le payload item.type.code
  let hash ← displayHexToWireBytes item.hash
  return payload ++ hash.bytes

def serializeInventory (items : List InventoryItem) : Except Exn Bytes := do
  throwIf (items.length > maxInventoryItems) (runtimeError "Inventory exceeds item limit")
  items.foldlM appendInventoryItem (appendCompactSize [] (UInt64.ofNat items.length))

/-- The type of a raw code. -/
def inventoryType (rawType : UInt32) : Except Exn InventoryType :=
  if rawType = 1 then return .transaction
  else if rawType = 2 then return .block
  else throw (runtimeError "Peer inventory contains unknown type")

def readInventoryItem : Reader InventoryItem := do
  let type ← inventoryType (← readU32Le)
  return ⟨type, ← readHashHex⟩

def deserializeInventory (payload : Bytes) : Except Exn (List InventoryItem) := Reader.parse (do
  let items ← readCounted maxInventoryItems "Peer inventory exceeds item limit" readInventoryItem
  requireEnd "Trailing bytes in inventory payload"
  return items) payload

def InventoryItem.encode (item : InventoryItem) : Bytes :=
  leBytes 4 item.type.code.toNat ++ wireOf item.hash

/-- The bytes of a hash in the node's own spelling. -/
theorem displayHexToWireBytes_display {text : Str} (h : IsDisplayHex text) :
    ∃ hash, displayHexToWireBytes text = .ok hash ∧ hash.bytes = wireOf text := by
  obtain ⟨hash, hwire, -⟩ := h.wire
  exact ⟨hash, hwire, by rw [wireOf, hwire]⟩

theorem inventoryType_ok {rawType : UInt32} {type : InventoryType} :
    inventoryType rawType = .ok type ↔ rawType = type.code := by
  unfold inventoryType
  constructor
  · intro h
    split_ifs at h with h₁ h₂ <;> cases h
    · exact h₁
    · exact h₂
  · rintro rfl
    cases type <;> rfl

theorem readInventoryItem_decodes :
    Decodes readInventoryItem InventoryItem.encode fun item => IsDisplayHex item.hash := by
  intro s item r
  simp only [readInventoryItem, readU32Le_decodes.bind_ok, readHashHex_decodes.bind_ok, run_bind_ok,
    lift_run_ok, run_pure_ok, inventoryType_ok, true_and]
  constructor
  · rintro ⟨code, _, rfl, type, _, ⟨rfl, rfl⟩, hash, _, ⟨hhash, rfl⟩, rfl, rfl⟩
    exact ⟨hhash, by simp [InventoryItem.encode]⟩
  · rintro ⟨hhash, rfl⟩
    exact ⟨item.type.code, _, by rw [InventoryItem.encode, List.append_assoc], item.type, _,
      ⟨rfl, rfl⟩, item.hash, r, ⟨hhash, rfl⟩, rfl, rfl⟩

/-- A loop that appends the encodings of values that all have one. -/
theorem foldlM_append {α : Type} {f : Bytes → α → Except Exn Bytes} {enc : α → Bytes} {as : List α}
    (hf : ∀ a ∈ as, ∀ output, f output a = .ok (output ++ enc a)) (output : Bytes) :
    as.foldlM f output = .ok (output ++ as.flatMap enc) := by
  induction as generalizing output with
  | nil => simp [except_pure_ok]
  | cons a as ih =>
    obtain ⟨ha, has⟩ := List.forall_mem_cons.1 hf
    rw [List.foldlM_cons, ha output]
    show List.foldlM f (output ++ enc a) as = _
    rw [ih has, List.flatMap_cons, List.append_assoc]

/-- An inventory that may be sent. -/
structure InventoryOk (items : List InventoryItem) : Prop where
  count : items.length ≤ maxInventoryItems
  hashes : ∀ item ∈ items, IsDisplayHex item.hash

theorem deserializeInventory_ok {b : Bytes} {items : List InventoryItem} :
    deserializeInventory b = .ok items ↔
      InventoryOk items ∧ b = compactLength items ++ items.flatMap InventoryItem.encode := by
  rw [deserializeInventory, parse_requireEnd_ok
    (readCounted_decodes (by decide) _ readInventoryItem_decodes)]
  exact and_congr_left fun _ => ⟨fun ⟨hn, h⟩ => ⟨hn, h⟩, fun ⟨hn, h⟩ => ⟨hn, h⟩⟩

theorem inventory_strict : Strict serializeInventory deserializeInventory InventoryOk := by
  refine .of_encode (fun items => compactLength items ++ items.flatMap InventoryItem.encode)
    (fun _ _ => deserializeInventory_ok) fun items hok => ?_
  have happend : ∀ item ∈ items, ∀ output,
      appendInventoryItem output item = .ok (output ++ item.encode) := by
    intro item hitem output
    obtain ⟨hash, hwire, hbytes⟩ := displayHexToWireBytes_display (hok.hashes item hitem)
    simp only [appendInventoryItem, hwire, appendU32Le, InventoryItem.encode, ← hbytes,
      ← List.append_assoc]
    rfl
  simp only [serializeInventory, throwIf, if_neg (Nat.not_lt.2 hok.count), foldlM_append happend,
    appendCompactSize, compactLength, List.nil_append]
  rfl

/-! ## Block locators -/

/-- The longest locator. -/
def maxLocatorSize : ℕ := 101

structure GetHeadersRequest where
  locator : List Str
  stopHash : Str
  deriving DecidableEq

def appendHash (payload : Bytes) (hashText : Str) : Except Exn Bytes := do
  let hash ← displayHexToWireBytes hashText
  return payload ++ hash.bytes

def serializeGetheaders (request : GetHeadersRequest) : Except Exn Bytes := do
  throwIf (request.locator = [] ∨ request.locator.length > maxLocatorSize)
    (runtimeError "Invalid block locator size")
  let payload ← request.locator.foldlM appendHash
    (appendCompactSize [] (UInt64.ofNat request.locator.length))
  appendHash payload request.stopHash

def deserializeGetheaders (payload : Bytes) : Except Exn GetHeadersRequest := Reader.parse (do
  let count ← readCompactSize
  throwIf (count = 0 ∨ count.toNat > maxLocatorSize)
    (runtimeError "Peer block locator exceeds limit")
  let locator ← many readHashHex count.toNat
  let stopHash ← readHashHex
  requireEnd "Trailing bytes in getheaders payload"
  return ⟨locator, stopHash⟩) payload

/-- A request that may be sent. -/
structure GetHeadersRequest.Ok (request : GetHeadersRequest) : Prop where
  locator_ne : request.locator ≠ []
  count : request.locator.length ≤ maxLocatorSize
  hashes : ∀ hash ∈ request.locator, IsDisplayHex hash
  stopHash : IsDisplayHex request.stopHash

def GetHeadersRequest.encode (request : GetHeadersRequest) : Bytes :=
  compactLength request.locator ++ request.locator.flatMap wireOf ++ wireOf request.stopHash

theorem appendHash_display {payload : Bytes} {hashText : Str} (h : IsDisplayHex hashText) :
    appendHash payload hashText = .ok (payload ++ wireOf hashText) := by
  obtain ⟨hash, hwire, hbytes⟩ := displayHexToWireBytes_display h
  rw [appendHash, hwire, ← hbytes]
  rfl

theorem toNat_ofNat_length {α : Type} {as : List α} {limit : ℕ} (h : as.length ≤ limit)
    (hlimit : limit < 2 ^ 64) : (UInt64.ofNat as.length).toNat = as.length :=
  UInt64.toNat_ofNat_of_lt' (by norm_num [UInt64.size]; omega)

theorem deserializeGetheaders_ok {payload : Bytes} {request : GetHeadersRequest} :
    deserializeGetheaders payload = .ok request ↔ request.Ok ∧ payload = request.encode := by
  simp only [deserializeGetheaders, Reader.parse_ok, readCompactSize_decodes.bind_ok, true_and,
    (readHashHex_decodes.many _).bind_ok, readHashHex_decodes.bind_ok, run_bind_ok, throwIf_run_ok,
    requireEnd_ok, run_pure_ok, not_or]
  constructor
  · rintro ⟨_, count, _, rfl, _, _, ⟨⟨hne, hle⟩, rfl⟩, locator, _, ⟨⟨hlen, hhashes⟩, rfl⟩, stop, _,
      ⟨hstop, rfl⟩, _, _, ⟨rfl, rfl⟩, rfl, rfl⟩
    refine ⟨⟨?_, ?_, hhashes, hstop⟩, ?_⟩
    · rintro rfl
      exact hne (UInt64.toNat_inj.1 hlen.symm)
    · show locator.length ≤ maxLocatorSize
      omega
    · rw [GetHeadersRequest.encode, compactLength, hlen, UInt64.ofNat_toNat]
      simp
  · rintro ⟨hok, rfl⟩
    have hn := toNat_ofNat_length hok.count (by decide)
    refine ⟨[], UInt64.ofNat request.locator.length, request.locator.flatMap wireOf ++
      wireOf request.stopHash, by rw [GetHeadersRequest.encode, List.append_assoc]; rfl, (), _,
      ⟨⟨?_, ?_⟩, rfl⟩, request.locator, wireOf request.stopHash, ⟨⟨hn.symm, hok.hashes⟩, rfl⟩,
      request.stopHash, [], ⟨hok.stopHash, by simp⟩, (), [], ⟨rfl, rfl⟩, rfl, rfl⟩
    · intro hzero
      rw [hzero] at hn
      exact hok.locator_ne (List.length_eq_zero_iff.1 hn.symm)
    · rw [hn]
      exact Nat.not_lt.2 hok.count

theorem getheaders_strict : Strict serializeGetheaders deserializeGetheaders GetHeadersRequest.Ok := by
  refine .of_encode GetHeadersRequest.encode (fun _ _ => deserializeGetheaders_ok)
    fun request hok => ?_
  have hcond : ¬ (request.locator = [] ∨ request.locator.length > maxLocatorSize) :=
    not_or.2 ⟨hok.locator_ne, Nat.not_lt.2 hok.count⟩
  have happend : ∀ hash ∈ request.locator, ∀ output,
      appendHash output hash = .ok (output ++ wireOf hash) :=
    fun hash hmem output => appendHash_display (hok.hashes hash hmem)
  simp only [serializeGetheaders, throwIf, if_neg hcond, foldlM_append happend]
  exact appendHash_display hok.stopHash

/-! ## Headers -/

/-- `MAX_HEADERS_PER_RESPONSE` -/
def maxHeadersPerResponse : ℕ := 2000

structure HeaderRecord where
  height : UInt64
  header : BlockHeader
  deriving DecidableEq

def StoredBlock.headerRecord (stored : StoredBlock) : HeaderRecord :=
  ⟨stored.height, stored.block.header⟩

def appendHeaderRecord (payload : Bytes) (record : HeaderRecord) : Except Exn Bytes := do
  let payload := appendU64Le payload record.height
  let header ← record.header.serialize
  return appendCompactSize (payload ++ header) 0

def serializeHeaders (headers : List HeaderRecord) : Except Exn Bytes := do
  throwIf (headers.length > maxHeadersPerResponse) (runtimeError "Too many headers")
  headers.foldlM appendHeaderRecord (appendCompactSize [] (UInt64.ofNat headers.length))

section
variable [Crypto]

/-- The check of the bits and of the proof of work. -/
def requireProofOfWork (header : BlockHeader) : Except Exn Unit := do
  throwIf (header.bits ≠ testnetBits) (runtimeError "Invalid proof of work in header chain")
  let sufficient ← checkProofOfWork (← header.rawHash) header.bits
  throwIf (¬ sufficient) (runtimeError "Invalid proof of work in header chain")

def readHeaderRecord : Reader HeaderRecord := do
  let height ← readU64Le
  let headerBytes ← readBytes 80
  let header ← BlockHeader.deserialize headerBytes
  throwIf ((← readCompactSize) ≠ 0) (runtimeError "Header record transaction count must be zero")
  requireProofOfWork header
  return ⟨height, header⟩

def deserializeHeaders (payload : Bytes) : Except Exn (List HeaderRecord) := Reader.parse (do
  let headers ← readCounted maxHeadersPerResponse "Peer sent too many headers" readHeaderRecord
  requireEnd "Trailing bytes in headers payload"
  return headers) payload

/-- A header that a peer accepts. -/
structure HeaderRecord.Ok (record : HeaderRecord) : Prop where
  canonical : record.header.Canonical
  bits : record.header.bits = testnetBits
  proofOfWork : ∃ hash, record.header.rawHash = .ok hash ∧
    checkProofOfWork hash testnetBits = .ok true

def HeaderRecord.encode (record : HeaderRecord) : Bytes :=
  leBytes 8 record.height.toNat ++ record.header.encode ++ [0]

theorem requireProofOfWork_ok {header : BlockHeader} {x : Unit} :
    requireProofOfWork header = .ok x ↔ header.bits = testnetBits ∧
      ∃ hash, header.rawHash = .ok hash ∧ checkProofOfWork hash testnetBits = .ok true := by
  simp only [requireProofOfWork, except_bind_ok, throwIf_ok, not_not, exists_and_left, exists_const]
  refine and_congr_right fun hbits => ?_
  rw [hbits]
  constructor
  · rintro ⟨hash, hraw, sufficient, hcheck, hs⟩
    rw [hs] at hcheck
    exact ⟨hash, hraw, hcheck⟩
  · rintro ⟨hash, hraw, hcheck⟩
    exact ⟨hash, hraw, true, hcheck, rfl⟩

theorem readHeaderRecord_decodes : Decodes readHeaderRecord HeaderRecord.encode HeaderRecord.Ok := by
  have hzero : compactSize 0 = [0] := by decide
  intro s record r
  simp only [readHeaderRecord, readU64Le_decodes.bind_ok, (readBytes_decodes 80).bind_ok, run_bind_ok,
    lift_run_ok, BlockHeader.deserialize_ok, readCompactSize_decodes _ _ _, throwIf_run_ok,
    requireProofOfWork_ok, run_pure_ok, true_and, not_not, id_eq]
  constructor
  · rintro ⟨height, _, rfl, _, _, ⟨-, rfl⟩, header, _, ⟨⟨hcan, rfl⟩, rfl⟩, _, _, rfl, _, _,
      ⟨rfl, rfl⟩, _, _, ⟨⟨hbits, hwork⟩, rfl⟩, rfl, rfl⟩
    exact ⟨⟨hcan, hbits, hwork⟩, by simp [HeaderRecord.encode, hzero]⟩
  · rintro ⟨hok, rfl⟩
    exact ⟨record.height, record.header.encode ++ ([0] ++ r), by simp [HeaderRecord.encode],
      record.header.encode, [0] ++ r, ⟨hok.canonical.length_encode, rfl⟩, record.header, _,
      ⟨⟨hok.canonical, rfl⟩, rfl⟩, 0, r, by rw [hzero], (), r, ⟨rfl, rfl⟩, (), r,
      ⟨⟨hok.bits, hok.proofOfWork⟩, rfl⟩, rfl, rfl⟩

/-- A list of headers that may be sent. -/
structure HeadersOk (headers : List HeaderRecord) : Prop where
  count : headers.length ≤ maxHeadersPerResponse
  each : ∀ record ∈ headers, record.Ok

theorem headers_strict : Strict serializeHeaders deserializeHeaders HeadersOk := by
  refine .of_encode (fun headers => compactLength headers ++ headers.flatMap HeaderRecord.encode)
    (fun b headers => ?_) fun headers hok => ?_
  · rw [deserializeHeaders, parse_requireEnd_ok
      (readCounted_decodes (by decide) _ readHeaderRecord_decodes)]
    exact and_congr_left fun _ => ⟨fun ⟨hn, h⟩ => ⟨hn, h⟩, fun ⟨hn, h⟩ => ⟨hn, h⟩⟩
  · have happend : ∀ record ∈ headers, ∀ output,
        appendHeaderRecord output record = .ok (output ++ record.encode) := by
      intro record hrecord output
      have hzero : compactSize 0 = [0] := by decide
      simp only [appendHeaderRecord, (hok.each record hrecord).canonical.serialize, appendU64Le,
        appendCompactSize, HeaderRecord.encode, hzero, ← List.append_assoc]
      rfl
    simp only [serializeHeaders, throwIf, if_neg (Nat.not_lt.2 hok.count), foldlM_append happend,
      appendCompactSize, compactLength, List.nil_append]
    rfl

end

/-! ## Transactions -/

/-- The most transactions in one message. -/
def maxMempoolTransactions : ℕ := 100000

def serializeTransactions (transactions : List Transaction) : Except Exn Bytes :=
  transactions.foldlM appendTransactionRecord
    (appendCompactSize [] (UInt64.ofNat transactions.length))

def deserializeTransactions (payload : Bytes) : Except Exn (List Transaction) := Reader.parse (do
  let transactions ← readCounted maxMempoolTransactions "Mempool transaction count exceeds limit"
    (readTransactionRecord "Mempool transaction payload exceeds limit")
  requireEnd "Trailing bytes in mempool response"
  return transactions) payload

/-- A list of transactions that a peer accepts. -/
structure TransactionsOk (transactions : List Transaction) : Prop where
  count : transactions.length ≤ maxMempoolTransactions
  each : ∀ t ∈ transactions, t.encode.length ≤ maxTransactionSize ∧ t.Structure ∧ t.Canonical

theorem transactions_strict : Strict serializeTransactions deserializeTransactions TransactionsOk := by
  have htx : Decodes (readTransactionRecord "Mempool transaction payload exceeds limit")
      (fun t => sized t.encode) fun t =>
        t.encode.length ≤ maxTransactionSize ∧ t.Structure ∧ t.Canonical :=
    readSpan_then_decodes (by decide) fun b t => Transaction.deserialize_ok
  refine .of_encode (fun ts => compactLength ts ++ ts.flatMap fun t => sized t.encode)
    (fun b ts => ?_) fun ts hok => ?_
  · rw [deserializeTransactions, parse_requireEnd_ok (readCounted_decodes (by decide) _ htx)]
    exact and_congr_left fun _ => ⟨fun ⟨hn, h⟩ => ⟨hn, h⟩, fun ⟨hn, h⟩ => ⟨hn, h⟩⟩
  · have happend : ∀ t ∈ ts, ∀ output,
        appendTransactionRecord output t = .ok (output ++ sized t.encode) :=
      fun t ht output => appendTransactionRecord_ok.2 ⟨(hok.each t ht).2.1, rfl⟩
    simp only [serializeTransactions, foldlM_append happend, appendCompactSize, compactLength,
      List.nil_append]

/-! ## Versions -/

/-- `P2P_PROTOCOL_VERSION` -/
def p2pProtocolVersion : UInt32 := 5
/-- The longest user agent. -/
def maxUserAgentSize : ℕ := 256

structure PeerVersion where
  protocolVersion : UInt32
  services : UInt64
  timestamp : Int64
  bestHeight : UInt64
  genesisHash : Str
  tipHash : Str
  chainwork : Str
  nonce : UInt64
  userAgent : Str
  deriving DecidableEq

def serializeVersion (version : PeerVersion) : Except Exn Bytes := do
  let payload := appendU32Le [] version.protocolVersion
  let payload := appendU64Le payload version.services
  let payload := appendI64Le payload version.timestamp
  let payload := appendU64Le payload version.bestHeight
  let payload ← appendHash payload version.genesisHash
  let payload ← appendHash payload version.tipHash
  let payload ← appendHash payload version.chainwork
  let payload := appendU64Le payload version.nonce
  let payload := appendCompactSize payload (UInt64.ofNat version.userAgent.length)
  return payload ++ version.userAgent

def readVersion : Reader PeerVersion := do
  let protocolVersion ← readU32Le
  let services ← readU64Le
  let timestamp ← readI64Le
  let bestHeight ← readU64Le
  let genesisHash ← readHashHex
  let tipHash ← readHashHex
  let chainwork ← readHashHex
  let nonce ← readU64Le
  let userAgent ← readSpan maxUserAgentSize "Peer user agent is too large"
  requireEnd "Trailing bytes in version message"
  throwIf (protocolVersion ≠ p2pProtocolVersion)
    (runtimeError "Unsupported BinaryCoin P2P protocol version")
  throwIf (genesisHash ≠ testnetGenesisHash)
    (runtimeError "Peer belongs to a different genesis/network")
  return ⟨protocolVersion, services, timestamp, bestHeight, genesisHash, tipHash, chainwork, nonce,
    userAgent⟩

def deserializeVersion (payload : Bytes) : Except Exn PeerVersion := Reader.parse readVersion payload

/-- A version that a peer accepts. -/
structure PeerVersion.Ok (version : PeerVersion) : Prop where
  protocol : version.protocolVersion = p2pProtocolVersion
  genesis : version.genesisHash = testnetGenesisHash
  tipHash : IsDisplayHex version.tipHash
  chainwork : IsDisplayHex version.chainwork
  userAgent : version.userAgent.length ≤ maxUserAgentSize

def PeerVersion.encode (version : PeerVersion) : Bytes :=
  leBytes 4 version.protocolVersion.toNat ++ leBytes 8 version.services.toNat ++
    leBytes 8 version.timestamp.toUInt64.toNat ++ leBytes 8 version.bestHeight.toNat ++
    wireOf version.genesisHash ++ wireOf version.tipHash ++ wireOf version.chainwork ++
    leBytes 8 version.nonce.toNat ++ sized version.userAgent

theorem testnetGenesisHash_isDisplayHex : IsDisplayHex testnetGenesisHash :=
  ⟨Hash256.ofBytes (wireOf testnetGenesisHash), by decide +kernel⟩

theorem deserializeVersion_ok {payload : Bytes} {version : PeerVersion} :
    deserializeVersion payload = .ok version ↔ version.Ok ∧ payload = version.encode := by
  simp only [deserializeVersion, Reader.parse_ok, readVersion, readU32Le_decodes.bind_ok,
    readU64Le_decodes.bind_ok, readI64Le_decodes.bind_ok, readHashHex_decodes.bind_ok,
    (readSpan_decodes (show maxUserAgentSize < 2 ^ 64 by decide) _).bind_ok, run_bind_ok, requireEnd_ok,
    throwIf_run_ok, run_pure_ok, true_and, not_not]
  constructor
  · rintro ⟨_, protocol, _, rfl, services, _, rfl, timestamp, _, rfl, height, _, rfl, genesis, _,
      ⟨-, rfl⟩, tip, _, ⟨htip, rfl⟩, work, _, ⟨hwork, rfl⟩, nonce, _, rfl, agent, _, ⟨hagent, rfl⟩,
      _, _, ⟨rfl, rfl⟩, _, _, ⟨hprotocol, rfl⟩, _, _, ⟨hgenesis, rfl⟩, rfl, rfl⟩
    exact ⟨⟨hprotocol, hgenesis, htip, hwork, hagent⟩, by simp [PeerVersion.encode]⟩
  · rintro ⟨hok, rfl⟩
    have hdisplay : IsDisplayHex version.genesisHash := hok.genesis ▸ testnetGenesisHash_isDisplayHex
    exact ⟨[], version.protocolVersion, _,
      by simp only [PeerVersion.encode, List.append_assoc, List.append_nil], version.services, _, rfl,
      version.timestamp, _, rfl, version.bestHeight, _, rfl, version.genesisHash, _, ⟨hdisplay, rfl⟩,
      version.tipHash, _, ⟨hok.tipHash, rfl⟩, version.chainwork, _, ⟨hok.chainwork, rfl⟩,
      version.nonce, _, rfl, version.userAgent, [], ⟨hok.userAgent, rfl⟩, (), [], ⟨rfl, rfl⟩, (), [],
      ⟨hok.protocol, rfl⟩, (), [], ⟨hok.genesis, rfl⟩, rfl, rfl⟩

theorem version_strict : Strict serializeVersion deserializeVersion PeerVersion.Ok := by
  refine .of_encode PeerVersion.encode (fun _ _ => deserializeVersion_ok) fun version hok => ?_
  have hdisplay : IsDisplayHex version.genesisHash := hok.genesis ▸ testnetGenesisHash_isDisplayHex
  simp only [serializeVersion, appendHash_display hdisplay, appendHash_display hok.tipHash,
    appendHash_display hok.chainwork, PeerVersion.encode, appendU32Le, appendU64Le, appendI64Le,
    appendCompactSize, sized, compactLength, List.nil_append, ← List.append_assoc]
  rfl

/-! ## All formats -/

/-- **The payload formats are strict bijections.** -/
theorem payload_formats [Crypto] :
    Strict serializeInventory deserializeInventory InventoryOk ∧
    Strict serializeGetheaders deserializeGetheaders GetHeadersRequest.Ok ∧
    Strict serializeHeaders deserializeHeaders HeadersOk ∧
    Strict serializeTransactions deserializeTransactions TransactionsOk ∧
    Strict serializeVersion deserializeVersion PeerVersion.Ok :=
  ⟨inventory_strict, getheaders_strict, headers_strict, transactions_strict, version_strict⟩

/-- **Blocks on disk and on the wire are not distinguishable.**  Both encoders agree; a byte string
    is a block on disk exactly when it is one record on the wire and nothing more, with the same
    content; and it is what both encoders make of that content. -/
theorem block_codecs_agree :
    (∀ stored, serializeBlockRecord stored = serializeStoredBlock stored) ∧
    (∀ bytes stored, deserializeStoredBlock bytes = .ok stored ↔
      deserializeBlockRecord.run bytes = .ok stored []) ∧
    ∀ bytes stored, deserializeStoredBlock bytes = .ok stored →
      serializeStoredBlock stored = .ok bytes ∧ serializeBlockRecord stored = .ok bytes := by
  refine ⟨serializeBlockRecord_eq, fun bytes stored => ?_, fun bytes stored h => ?_⟩
  · rw [deserializeStoredBlock_ok, deserializeBlockRecord_decodes bytes stored [], List.append_nil]
  · obtain ⟨⟨hcan, -⟩, rfl⟩ := deserializeStoredBlock_ok.1 h
    have hserial := hcan.serializable
    have hencode := serializeStoredBlock_ok.2 ⟨hserial.1, hserial.2, rfl⟩
    exact ⟨hencode, (serializeBlockRecord_eq stored).trans hencode⟩

end BinaryCoin
