/-
  BinaryCoin — block.cpp, merkle.cpp and pow.cpp: headers, Merkle roots, proof
  of work, the genesis block and mining.

  Targets and work are Boost's `cpp_int` in the source: here naturals.
-/
import BinaryCoin.Lib.Merkle
import BinaryCoin.Script

namespace BinaryCoin

open Cursor LittleEndian

/-! ## Headers -/

structure BlockHeader where
  version : Int32
  previousHash : Str
  merkleRoot : Str
  time : UInt32
  bits : UInt32
  nonce : UInt32
  deriving DecidableEq

structure Block where
  header : BlockHeader
  transactions : List Transaction
  deriving DecidableEq

structure StoredBlock where
  height : UInt64
  block : Block
  deriving DecidableEq

def BlockHeader.serialize (header : BlockHeader) : Except Exn Bytes := do
  let output := appendI32Le [] header.version
  let previousWire ← displayHexToWireBytes header.previousHash
  let output := output ++ previousWire.bytes
  let merkleWire ← displayHexToWireBytes header.merkleRoot
  let output := output ++ merkleWire.bytes
  let output := appendU32Le output header.time
  let output := appendU32Le output header.bits
  let output := appendU32Le output header.nonce
  throwIf (output.length ≠ 80) (runtimeError "Serialized block header is not 80 bytes")
  return output

def readHeader : Reader BlockHeader := do
  let version ← readI32Le
  let previousHash ← readHashHex
  let merkleRoot ← readHashHex
  let time ← readU32Le
  let bits ← readU32Le
  let nonce ← readU32Le
  requireEnd "Trailing block header bytes"
  return ⟨version, previousHash, merkleRoot, time, bits, nonce⟩

def BlockHeader.deserialize (bytes : Bytes) : Except Exn BlockHeader := do
  throwIf (bytes.length ≠ 80) (runtimeError "Serialized block header must be exactly 80 bytes")
  readHeader.parse bytes

section
variable [Crypto]

def BlockHeader.rawHash (header : BlockHeader) : Except Exn Hash256 := do
  return sha256d (← header.serialize)

def BlockHeader.hashHex (header : BlockHeader) : Except Exn Str := do
  return hashToDisplayHex (← header.rawHash)

/-- The `hash_hex()` of a stored block's header. -/
abbrev StoredBlock.hashHex (stored : StoredBlock) : Except Exn Str := stored.block.header.hashHex

end

/-! ## Merkle roots -/

section
variable [Crypto]

def merkleNode (left right : Hash256) : Hash256 := sha256d (left.bytes ++ right.bytes)

def merkleRootRaw (transactions : List Transaction) : Except Exn Hash256 := do
  throwIf (transactions = [])
    (invalidArgument "Cannot build a Merkle root from zero transactions")
  let level ← transactions.mapM Transaction.rawHash
  match Merkle.root merkleNode level with
  | some root => return root
  | none => throw (invalidArgument "Cannot build a Merkle root from zero transactions")

def merkleRootHex (transactions : List Transaction) : Except Exn Str := do
  return hashToDisplayHex (← merkleRootRaw transactions)

end

/-! ## Proof of work -/

def uint256Maximum : ℕ := 2 ^ 256 - 1

def compactToTarget (bits : UInt32) : Except Exn ℕ := do
  let exponent := (bits >>> 24).toNat
  let coefficient := (bits &&& 0x007fffff).toNat
  throwIf (bits &&& 0x00800000 ≠ 0) (invalidArgument "Negative compact targets are invalid")
  throwIf (coefficient = 0) (invalidArgument "Compact target coefficient cannot be zero")
  let target := if exponent ≤ 3 then coefficient >>> (8 * (3 - exponent))
    else coefficient <<< (8 * (exponent - 3))
  throwIf (target = 0 ∨ target > uint256Maximum)
    (invalidArgument "Compact target is outside the 256-bit range")
  return target

def blockProof (bits : UInt32) : Except Exn ℕ := do
  let target ← compactToTarget bits
  return uint256Maximum / (target + 1) + 1

def checkProofOfWork (rawHash : Hash256) (bits : UInt32) : Except Exn Bool := do
  return ofLe rawHash.bytes ≤ (← compactToTarget bits)

/-! ## The genesis block -/

def testnetGenesisBits : UInt32 := 0x1f00ffff
def testnetBits : UInt32 := 0x1f00ffff

def testnetGenesisHash : Str :=
  str "00007e7bc2b6d593d9bacb54cd32bacaf9a99ff86adc9ac6fbe36134fff1c372"
def testnetGenesisMerkle : Str :=
  str "2cf10845810fce4b828950111a45d66e33d8649db1265f088cf4607789ae1442"
def testnetGenesisTxid : Str :=
  str "2cf10845810fce4b828950111a45d66e33d8649db1265f088cf4607789ae1442"

def genesisPublicKey : Bytes :=
  [0x02, 0x79, 0xbe, 0x66, 0x7e, 0xf9, 0xdc, 0xbb, 0xac, 0x55, 0xa0,
   0x62, 0x95, 0xce, 0x87, 0x0b, 0x07, 0x02, 0x9b, 0xfc, 0xdb, 0x2d,
   0xce, 0x28, 0xd9, 0x59, 0xf2, 0x81, 0x5b, 0x16, 0xf8, 0x17, 0x98]

section
variable [Crypto]

def testnetGenesisBlock : Except Exn Block := do
  let coinbase ← makeTestnetCoinbase 0 initialSubsidy (← makeP2pkScript genesisPublicKey)
  let block : Block :=
    ⟨⟨1, zeroHashHex, testnetGenesisMerkle, 1784699218, testnetGenesisBits, 180004⟩, [coinbase]⟩
  throwIf ((← coinbase.txid) ≠ testnetGenesisTxid ∨
      (← merkleRootHex block.transactions) ≠ testnetGenesisMerkle ∨
      (← block.header.hashHex) ≠ testnetGenesisHash)
    (runtimeError "Locked BinaryCoin testnet genesis constants are inconsistent")
  return block

/-! ## Mining -/

/-- The candidate after `header`: the next nonce, or nonce 0 at the next second. -/
def BlockHeader.nextCandidate (header : BlockHeader) : Except Exn BlockHeader :=
  if header.nonce = 0xffffffff then
    if header.time = 0xffffffff then
      .error (runtimeError "Exhausted time and nonce space while mining")
    else .ok { header with time := header.time + 1, nonce := 0 }
  else .ok { header with nonce := header.nonce + 1 }

/-- The search loop, for at most `fuel` candidates (there are `2 ^ 64` times and nonces). -/
def mineHeader : ℕ → BlockHeader → Except Exn BlockHeader
  | 0, _ => .error (runtimeError "Exhausted time and nonce space while mining")
  | fuel + 1, header => do
    if ← checkProofOfWork (← header.rawHash) header.bits then return header
    mineHeader fuel (← header.nextCandidate)

/-- `mine_testnet_block` at the clock reading `now` (seconds, a `time_t`). -/
def mineTestnetBlock (now : Int64) (height : UInt64) (previousHash : Str) (previousTime bits : UInt32)
    (coinbaseScriptPubkey : Bytes) (transactions : List Transaction) (transactionFees : ℤ) :
    Except Exn Block := do
  throwIf (¬ moneyRange transactionFees) (invalidArgument "Transaction fees outside money range")
  let subsidy := blockSubsidy height
  throwIf (subsidy > maxMoney - transactionFees) (runtimeError "Coinbase reward overflow")
  let coinbase ← makeTestnetCoinbase height (subsidy + transactionFees) coinbaseScriptPubkey
  let transactions := coinbase :: transactions
  let nowU32 := if now < 0 then 0 else now.toUInt64.toUInt32
  let header : BlockHeader :=
    ⟨1, previousHash, ← merkleRootHex transactions, max (previousTime + 1) nowU32, bits, 0⟩
  return ⟨← mineHeader (2 ^ 64) header, transactions⟩

end

/-! ## The wire format of headers -/

/-- Both digests of the header are in the node's own spelling. -/
def BlockHeader.Canonical (header : BlockHeader) : Prop :=
  IsDisplayHex header.previousHash ∧ IsDisplayHex header.merkleRoot

def BlockHeader.encode (header : BlockHeader) : Bytes :=
  leBytes 4 header.version.toUInt32.toNat ++ wireOf header.previousHash ++ wireOf header.merkleRoot ++
    leBytes 4 header.time.toNat ++ leBytes 4 header.bits.toNat ++ leBytes 4 header.nonce.toNat

theorem BlockHeader.serialize_ok {header : BlockHeader} {b : Bytes} :
    header.serialize = .ok b ↔ (∃ w, displayHexToWireBytes header.previousHash = .ok w) ∧
      (∃ w, displayHexToWireBytes header.merkleRoot = .ok w) ∧ b = header.encode := by
  simp only [BlockHeader.serialize, except_bind_ok, throwIf_ok, except_pure_ok, exists_and_left,
    exists_const]
  constructor
  · rintro ⟨p, hp, m, hm, -, rfl⟩
    refine ⟨⟨p, hp⟩, ⟨m, hm⟩, ?_⟩
    simp [BlockHeader.encode, wireOf, hp, hm, appendI32Le, appendU32Le]
  · rintro ⟨⟨p, hp⟩, ⟨m, hm⟩, rfl⟩
    refine ⟨p, hp, m, hm, ?_, ?_⟩
    · simp [appendI32Le, appendU32Le, p.size_eq, m.size_eq]
    · simp [BlockHeader.encode, wireOf, hp, hm, appendI32Le, appendU32Le]

theorem BlockHeader.Canonical.serialize {header : BlockHeader} (h : header.Canonical) :
    header.serialize = .ok header.encode := by
  obtain ⟨p, hp, -⟩ := h.1.wire
  obtain ⟨m, hm, -⟩ := h.2.wire
  exact serialize_ok.2 ⟨⟨p, hp⟩, ⟨m, hm⟩, rfl⟩

theorem readHeader_ok {s r : Bytes} {header : BlockHeader} :
    readHeader.run s = .ok header r ↔ header.Canonical ∧ s = header.encode ∧ r = [] := by
  simp only [readHeader, readI32Le_decodes.bind_ok, readU32Le_decodes.bind_ok,
    readHashHex_decodes.bind_ok, run_bind_ok, requireEnd_ok, run_pure_ok, true_and]
  constructor
  · rintro ⟨v, _, rfl, p, _, ⟨hp, rfl⟩, m, _, ⟨hm, rfl⟩, t, _, rfl, b, _, rfl, n, _, rfl, _, _,
      ⟨rfl, rfl⟩, rfl, rfl⟩
    exact ⟨⟨hp, hm⟩, by simp [BlockHeader.encode], rfl⟩
  · rintro ⟨⟨hp, hm⟩, rfl, rfl⟩
    refine ⟨_, _, ?_, _, _, ⟨hp, rfl⟩, _, _, ⟨hm, rfl⟩, _, _, rfl, _, _, rfl, _, [], rfl, (), [],
      ⟨rfl, rfl⟩, rfl, rfl⟩
    simp [BlockHeader.encode]

theorem length_wireOf {text : Str} (h : IsDisplayHex text) : (wireOf text).length = 32 := by
  obtain ⟨d, rfl⟩ := h
  rw [wireOf_display, d.size_eq]

theorem BlockHeader.Canonical.length_encode {header : BlockHeader} (h : header.Canonical) :
    header.encode.length = 80 := by
  simp [BlockHeader.encode, length_wireOf h.1, length_wireOf h.2]

theorem BlockHeader.deserialize_ok {b : Bytes} {header : BlockHeader} :
    BlockHeader.deserialize b = .ok header ↔ header.Canonical ∧ b = header.encode := by
  simp only [BlockHeader.deserialize, except_bind_ok, throwIf_ok, not_not, Reader.parse_ok,
    readHeader_ok, exists_and_left, exists_const, exists_eq, and_true]
  exact ⟨fun ⟨_, h⟩ => h, fun ⟨h, hb⟩ => ⟨hb ▸ h.length_encode, h, hb⟩⟩

theorem BlockHeader.encode_inj {a b : BlockHeader} (ha : a.Canonical) (hb : b.Canonical)
    (h : a.encode = b.encode) : a = b := by
  have h₁ := BlockHeader.deserialize_ok.2 ⟨ha, rfl⟩
  rw [h, BlockHeader.deserialize_ok.2 ⟨hb, rfl⟩] at h₁
  cases h₁; rfl

section
variable [Crypto]

theorem BlockHeader.hashHex_ok {header : BlockHeader} {text : Str} :
    header.hashHex = .ok text ↔ (∃ b, header.serialize = .ok b) ∧
      text = hashToDisplayHex (sha256d header.encode) := by
  simp only [BlockHeader.hashHex, BlockHeader.rawHash, except_bind_ok, except_pure_ok]
  constructor
  · rintro ⟨_, ⟨b, hb, rfl⟩, rfl⟩
    exact ⟨⟨b, hb⟩, by rw [(BlockHeader.serialize_ok.1 hb).2.2]⟩
  · rintro ⟨⟨b, hb⟩, rfl⟩
    exact ⟨_, ⟨b, hb, rfl⟩, by rw [(BlockHeader.serialize_ok.1 hb).2.2]⟩

theorem BlockHeader.hashHex_isDisplayHex {header : BlockHeader} {text : Str}
    (h : header.hashHex = .ok text) : IsDisplayHex text :=
  ⟨_, (hashHex_ok.1 h).2⟩

theorem mapM_rawHash_ok {transactions : List Transaction} {level : List Hash256} :
    transactions.mapM Transaction.rawHash = .ok level ↔
      (∀ t ∈ transactions, t.Structure) ∧ level = transactions.map fun t => sha256d t.encode :=
  mapM_ok fun _ _ => Transaction.rawHash_ok

theorem merkleRootHex_ok {transactions : List Transaction} {text : Str} :
    merkleRootHex transactions = .ok text ↔ (∀ t ∈ transactions, t.Structure) ∧
      ∃ r, Merkle.root merkleNode (transactions.map fun t => sha256d t.encode) = some r ∧
        text = hashToDisplayHex r := by
  simp only [merkleRootHex, merkleRootRaw, except_bind_ok, throwIf_ok, mapM_rawHash_ok,
    except_pure_ok, exists_and_left, exists_const]
  constructor
  · rintro ⟨r, ⟨-, _, ⟨hs, rfl⟩, hr⟩, rfl⟩
    refine ⟨hs, r, ?_, rfl⟩
    split at hr
    · rename_i heq; cases hr; exact heq
    · cases hr
  · rintro ⟨hs, r, hr, rfl⟩
    refine ⟨r, ⟨?_, _, ⟨hs, rfl⟩, ?_⟩, rfl⟩
    · rintro rfl; cases hr
    · rw [hr]; rfl

end

end BinaryCoin
